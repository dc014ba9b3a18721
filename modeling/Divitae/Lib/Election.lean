/-
# `Lib.Election` — the highest of what is heard, one election for each seat

Messages arrive in some order.  A message under a key that was heard before is not heard.
Each that is heard stands for at most one seat; the seat goes to the one with the highest
score, and among equals to the first.

    heard key l           what is heard of the messages `l`
    elected l i           who gets seat `i`
    CanWin l a            in some order of `l` the message `a` gets its seat
    Decided val l         whoever can get a seat has one and the same `val`, and no seat
                          depends on the order for being taken at all

The outcome is the same, up to `val`, for every order of arrival exactly where it is
`Decided` (`elected_free_iff`).
-/
import Divitae.Lib.Highest
import Mathlib.Algebra.Order.Ring.Int
import Mathlib.Data.List.Induction
import Mathlib.Data.List.Perm.Basic

namespace Election

open List Highest

/-- What of a message counts. -/
structure Rules (α κ ι : Type*) where
  key : α → κ
  seat : α → Option ι
  score : α → Nat

variable {α κ ι β : Type*} (R : Rules α κ ι)

/-- The messages without those under a key that was there before. -/
def heard [DecidableEq κ] (l : List α) : List α :=
  l.foldl (fun got a => if got.any fun b => R.key b == R.key a then got else got ++ [a]) []

/-- Those that stand for the seat. -/
def standing [DecidableEq ι] (l : List α) (i : ι) : List α := l.filter fun a => R.seat a == some i

def elected [DecidableEq κ] [DecidableEq ι] (l : List α) (i : ι) : Option α :=
  (Highest.search (fun a => (R.score a : Int)) (standing R (heard R l) i) (-1, none)).2

/-- Nothing heard before `a` need stand above it: every other key has a message that does not. -/
def CanWin (l : List α) (i : ι) (a : α) : Prop :=
  a ∈ l ∧ R.seat a = some i ∧ ∀ b ∈ l, R.key b ≠ R.key a →
    ∃ c ∈ l, R.key c = R.key b ∧ (R.seat c = some i → R.score c ≤ R.score a)

structure Decided (val : α → β) (l : List α) : Prop where
  one : ∀ i a b, CanWin R l i a → CanWin R l i b → val a = val b
  taken : ∀ i, ∀ a ∈ l, R.seat a = some i →
    ∃ b ∈ l, R.seat b = some i ∧ ∀ c ∈ l, R.key c = R.key b → R.seat c = some i

/-! ## What is heard -/

section
variable {R} {l l' : List α} {a b : α} {i : ι}

section
variable [DecidableEq κ]

theorem heard_concat (l : List α) (a : α) :
    heard R (l ++ [a]) =
      if (heard R l).any fun b => R.key b == R.key a then heard R l else heard R l ++ [a] :=
  foldl_append

theorem heard_spec (l : List α) :
    (∀ a ∈ heard R l, a ∈ l) ∧ (∀ b ∈ l, ∃ a ∈ heard R l, R.key a = R.key b) := by
  induction l using List.reverseRecOn with
  | nil => exact ⟨fun a ha => ha, nofun⟩
  | append_singleton l a ih =>
    obtain ⟨hsub, hkeys⟩ := ih
    rw [heard_concat]
    split_ifs with hany
    · refine ⟨fun b hb => mem_append_left [a] (hsub b hb), ?_⟩
      intro b hb
      rcases mem_append.mp hb with hb | hb
      · exact hkeys b hb
      · obtain rfl := mem_singleton.mp hb
        obtain ⟨c, hc, hkey⟩ := any_eq_true.mp hany
        exact ⟨c, hc, beq_iff_eq.mp hkey⟩
    · constructor
      · intro b hb
        rcases mem_append.mp hb with hb | hb
        · exact mem_append_left [a] (hsub b hb)
        · exact mem_append_right l hb
      · intro b hb
        rcases mem_append.mp hb with hb | hb
        · obtain ⟨c, hc, hkey⟩ := hkeys b hb
          exact ⟨c, mem_append_left [a] hc, hkey⟩
        · exact ⟨b, mem_append_right (heard R l) hb, rfl⟩

theorem heard_any (l : List α) (k : κ) :
    ((heard R l).any fun b => R.key b == k) = true ↔ ∃ b ∈ l, R.key b = k := by
  rw [any_eq_true]
  constructor
  · rintro ⟨b, hb, hkey⟩
    exact ⟨b, (heard_spec l).1 b hb, beq_iff_eq.mp hkey⟩
  · rintro ⟨b, hb, rfl⟩
    obtain ⟨c, hc, hkey⟩ := (heard_spec (R := R) l).2 b hb
    exact ⟨c, hc, beq_iff_eq.mpr hkey⟩

theorem heard_append_of_seen (h : ∀ b ∈ l', ∃ a ∈ l, R.key a = R.key b) :
    heard R (l ++ l') = heard R l := by
  induction l' using List.reverseRecOn with
  | nil => rw [append_nil]
  | append_singleton l' b ih =>
    have hl' : heard R (l ++ l') = heard R l := ih fun c hc => h c (mem_append_left [b] hc)
    rw [← append_assoc, heard_concat, hl']
    obtain ⟨a, ha, hkey⟩ := h b (mem_append_right l' mem_cons_self)
    obtain ⟨c, hc, hckey⟩ := (heard_spec (R := R) l).2 a ha
    refine if_pos (any_eq_true.mpr ⟨c, hc, ?_⟩)
    rw [hckey, hkey]
    exact beq_self_eq_true _

theorem heard_cons (a : α) (l : List α) : ∃ rest, heard R (a :: l) = a :: rest := by
  induction l using List.reverseRecOn with
  | nil => exact ⟨[], rfl⟩
  | append_singleton l b ih =>
    obtain ⟨rest, hrest⟩ := ih
    rw [← cons_append, heard_concat, hrest]
    split_ifs
    · exact ⟨rest, rfl⟩
    · exact ⟨rest ++ [b], rfl⟩

end

/-! ## Who is elected -/

theorem CanWin.perm (h : CanWin R l i a) (hperm : l'.Perm l) : CanWin R l' i a := by
  obtain ⟨ha, hseat, hother⟩ := h
  refine ⟨hperm.mem_iff.mpr ha, hseat, ?_⟩
  intro b hb hkey
  obtain ⟨c, hc, hc'⟩ := hother b (hperm.mem_iff.mp hb) hkey
  exact ⟨c, hperm.mem_iff.mpr hc, hc'⟩

theorem mem_standing [DecidableEq ι] : a ∈ standing R l i ↔ a ∈ l ∧ R.seat a = some i := by
  rw [standing, mem_filter, beq_iff_eq]

variable [DecidableEq κ] [DecidableEq ι]

theorem elected_spec (l : List α) (i : ι) :
    (elected R l i = none ∧ standing R (heard R l) i = []) ∨
      ∃ a ∈ standing R (heard R l) i, elected R l i = some a ∧
        ∀ b ∈ standing R (heard R l) i, R.score b ≤ R.score a := by
  have hle : ∀ b ∈ standing R (heard R l) i, (R.score b : Int) ≤ (search
      (fun a => (R.score a : Int)) (standing R (heard R l) i) (-1, none)).1 :=
    fun b hb => le_search (fun a => (R.score a : Int)) hb (-1, none)
  rcases search_found (fun a => (R.score a : Int)) (standing R (heard R l) i)
    ((-1, none) : Int × Option α) with hstart | ⟨a, ha, -, hfound⟩
  · left
    rw [hstart] at hle
    refine ⟨by rw [elected, hstart], eq_nil_iff_forall_not_mem.mpr ?_⟩
    intro b hb
    have hlow : (R.score b : Int) ≤ -1 := hle b hb
    omega
  · right
    rw [hfound] at hle
    refine ⟨a, ha, by rw [elected, hfound], ?_⟩
    intro b hb
    exact Int.ofNat_le.mp (hle b hb)

theorem elected_concat (l : List α) (a : α) (i : ι) :
    elected R (l ++ [a]) i =
      if (heard R l).any fun b => R.key b == R.key a then elected R l i
      else if R.seat a = some i then
        match elected R l i with
        | none => some a
        | some b => if R.score b < R.score a then some a else some b
      else elected R l i := by
  rw [elected, heard_concat]
  split_ifs with hseen hseat
  · rfl
  · have hone : standing R (heard R l ++ [a]) i = standing R (heard R l) i ++ [a] := by
      rw [standing, filter_append, filter_singleton, hseat, beq_self_eq_true]
      rfl
    rw [hone, search_append]
    rcases search_found (fun a => (R.score a : Int)) (standing R (heard R l) i)
      ((-1, none) : Int × Option α) with hstart | ⟨b, -, -, hfound⟩
    · have hnone : elected R l i = none := by rw [elected, hstart]
      have hpos : (-1 : Int) < R.score a := by omega
      rw [hstart, hnone, search, search]
      simp only [if_pos hpos]
    · have hsome : elected R l i = some b := by rw [elected, hfound]
      rw [hfound, hsome, search, search]
      simp only [Int.ofNat_lt]
      split_ifs <;> rfl
  · have hsame : standing R (heard R l ++ [a]) i = standing R (heard R l) i := by
      rw [standing, filter_append, filter_singleton, beq_eq_false_iff_ne.mpr hseat]
      exact append_nil _
    rw [hsame, elected]

theorem elected_canWin (h : elected R l i = some a) : CanWin R l i a := by
  rcases elected_spec (R := R) l i with ⟨hnone, -⟩ | ⟨a', ha', hsome, hmax⟩
  · rw [hnone] at h
    exact nomatch h
  · obtain rfl : a' = a := Option.some.inj (hsome.symm.trans h)
    obtain ⟨hheard, hseat⟩ := mem_standing.mp ha'
    refine ⟨(heard_spec l).1 a' hheard, hseat, ?_⟩
    intro b hb _
    obtain ⟨c, hc, hkey⟩ := (heard_spec (R := R) l).2 b hb
    refine ⟨c, (heard_spec l).1 c hc, hkey, ?_⟩
    intro hcseat
    exact hmax c (mem_standing.mpr ⟨hc, hcseat⟩)

theorem elected_of_first (hseat : R.seat a = some i)
    (hmax : ∀ b ∈ l, R.seat b = some i → R.score b ≤ R.score a) :
    elected R (a :: l) i = some a := by
  obtain ⟨rest, hrest⟩ := heard_cons (R := R) a l
  have hstanding : standing R (heard R (a :: l)) i = a :: standing R rest i := by
    rw [hrest, standing, filter_cons_of_pos (by rw [hseat]; exact beq_self_eq_true _)]
    rfl
  rw [elected, hstanding, search, if_pos (show ((-1, none) : Int × Option α).1 <
    (R.score a : Int) by show (-1 : Int) < R.score a; omega)]
  rcases search_found (fun a => (R.score a : Int)) (standing R rest i)
    ((R.score a : Int), some a) with hstart | ⟨b, hb, hlt, -⟩
  · rw [hstart]
  · obtain ⟨hmem, hbseat⟩ := mem_standing.mp hb
    have hbl : b ∈ a :: l := (heard_spec (R := R) (a :: l)).1 b (hrest ▸ mem_cons_of_mem a hmem)
    have hle : R.score b ≤ R.score a := by
      rcases mem_cons.mp hbl with rfl | hbl
      · exact le_rfl
      · exact hmax b hbl hbseat
    omega

theorem exists_order_elected [DecidableEq α] (h : CanWin R l i a) :
    ∃ l', l'.Perm l ∧ elected R l' i = some a := by
  obtain ⟨ha, hseat, hother⟩ := h
  -- those above `a` come last, where their keys are known
  let below : α → Bool := fun b => !(R.seat b == some i) || decide (R.score b ≤ R.score a)
  have hbelow : ∀ b, below b = true ↔ (R.seat b = some i → R.score b ≤ R.score a) := by
    intro b
    rw [Bool.or_eq_true, Bool.not_eq_true', beq_eq_false_iff_ne, decide_eq_true_eq]
    exact ⟨fun hb hs => hb.resolve_left fun hn => hn hs, fun hb => by
      by_cases hs : R.seat b = some i
      · exact .inr (hb hs)
      · exact .inl hs⟩
  let rest := l.erase a
  refine ⟨a :: (rest.filter below ++ rest.filter fun b => !below b), ?_, ?_⟩
  · exact ((filter_append_perm below rest).cons a).trans (perm_cons_erase ha).symm
  · rw [← cons_append, elected, heard_append_of_seen]
    · refine elected_of_first (l := rest.filter below) hseat ?_
      intro b hb hbseat
      exact (hbelow b).mp (mem_filter.mp hb).2 hbseat
    · intro b hb
      obtain ⟨hbrest, hbabove⟩ := mem_filter.mp hb
      by_cases hkey : R.key b = R.key a
      · exact ⟨a, .head _, hkey.symm⟩
      · obtain ⟨c, hc, hckey, hcbelow⟩ := hother b (mem_of_mem_erase hbrest) hkey
        refine ⟨c, ?_, hckey⟩
        rcases eq_or_ne c a with rfl | hne
        · exact .head _
        · exact mem_cons_of_mem a
            (mem_filter.mpr ⟨(mem_erase_of_ne hne).mpr hc, (hbelow c).mpr hcbelow⟩)

theorem exists_order_empty
    (h : ∀ b ∈ l, R.seat b = some i → ∃ c ∈ l, R.key c = R.key b ∧ R.seat c ≠ some i) :
    ∃ l', l'.Perm l ∧ elected R l' i = none := by
  let elsewhere : α → Bool := fun b => !(R.seat b == some i)
  refine ⟨l.filter elsewhere ++ l.filter fun b => !elsewhere b, filter_append_perm elsewhere l, ?_⟩
  have hheard : heard R (l.filter elsewhere ++ l.filter fun b => !elsewhere b) =
      heard R (l.filter elsewhere) := by
    refine heard_append_of_seen ?_
    intro b hb
    obtain ⟨hbl, hbseat⟩ := mem_filter.mp hb
    rw [Bool.not_not, beq_iff_eq] at hbseat
    obtain ⟨c, hc, hkey, hcseat⟩ := h b hbl hbseat
    refine ⟨c, mem_filter.mpr ⟨hc, ?_⟩, hkey⟩
    rw [Bool.not_eq_true', beq_eq_false_iff_ne]
    exact hcseat
  have hnobody : standing R (heard R (l.filter elsewhere)) i = [] := by
    refine eq_nil_iff_forall_not_mem.mpr ?_
    intro b hb
    obtain ⟨hbheard, hbseat⟩ := mem_standing.mp hb
    have helse := (mem_filter.mp ((heard_spec (R := R) (l.filter elsewhere)).1 b hbheard)).2
    rw [Bool.not_eq_true', beq_eq_false_iff_ne] at helse
    exact helse hbseat
  rw [elected, hheard, hnobody]
  rfl

/-- **The outcome does not depend on the order exactly where it is decided.** -/
theorem elected_free_iff [DecidableEq α] (val : α → β) (l : List α) :
    (∀ l', l'.Perm l → ∀ i, (elected R l' i).map val = (elected R l i).map val) ↔
      Decided R val l := by
  constructor
  · intro hfree
    constructor
    · intro i a b ha hb
      obtain ⟨la, hla, hwa⟩ := exists_order_elected ha
      obtain ⟨lb, hlb, hwb⟩ := exists_order_elected hb
      have hsame := (hfree la hla i).trans (hfree lb hlb i).symm
      rw [hwa, hwb] at hsame
      exact Option.some.inj hsame
    · intro i a ha hseat
      by_contra hnot
      push Not at hnot
      obtain ⟨l', hl', hnone⟩ := exists_order_empty (R := R) (l := l) (i := i) hnot
      -- the order with `a` in front takes the seat
      have hfront : elected R (a :: l.erase a) i ≠ none := by
        rcases elected_spec (R := R) (a :: l.erase a) i with ⟨-, hempty⟩ | ⟨b, -, hb, -⟩
        · obtain ⟨rest, hrest⟩ := heard_cons (R := R) a (l.erase a)
          have hin : a ∈ standing R (heard R (a :: l.erase a)) i :=
            mem_standing.mpr ⟨hrest ▸ .head _, hseat⟩
          rw [hempty] at hin
          exact nomatch hin
        · rw [hb]
          exact Option.some_ne_none b
      have hsame := (hfree l' hl' i).trans (hfree (a :: l.erase a) (perm_cons_erase ha).symm i).symm
      rw [hnone, Option.map_none] at hsame
      exact hfront (Option.map_eq_none_iff.mp hsame.symm)
  · intro hdecided l' hl' i
    have htaken : ∀ l₁ l₂ : List α, l₁.Perm l → l₂.Perm l → elected R l₁ i = none →
        elected R l₂ i = none := by
      intro l₁ l₂ h₁ h₂ hnone
      rcases elected_spec (R := R) l₂ i with ⟨hnone₂, -⟩ | ⟨a, ha, -, -⟩
      · exact hnone₂
      · obtain ⟨haheard, hseat⟩ := mem_standing.mp ha
        obtain ⟨b, hb, hbseat, hall⟩ := hdecided.taken i a
          (h₂.mem_iff.mp ((heard_spec (R := R) l₂).1 a haheard)) hseat
        obtain ⟨c, hc, hkey⟩ := (heard_spec (R := R) l₁).2 b (h₁.mem_iff.mpr hb)
        have hcseat := hall c (h₁.mem_iff.mp ((heard_spec (R := R) l₁).1 c hc)) hkey
        rcases elected_spec (R := R) l₁ i with ⟨-, hempty⟩ | ⟨d, -, hd, -⟩
        · have hin : c ∈ standing R (heard R l₁) i := mem_standing.mpr ⟨hc, hcseat⟩
          rw [hempty] at hin
          exact nomatch hin
        · rw [hd] at hnone
          exact nomatch hnone
    cases h' : elected R l' i with
    | none => rw [htaken l' l hl' (List.Perm.refl l) h']
    | some a =>
      cases h : elected R l i with
      | none => exact nomatch (htaken l l' (List.Perm.refl l) hl' h).symm.trans h'
      | some b =>
        have hval := hdecided.one i a b ((elected_canWin h').perm hl'.symm) (elected_canWin h)
        exact congrArg some hval

end

end Election
