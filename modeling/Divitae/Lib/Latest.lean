/-
# `Lib.Latest` — registers that keep the entry with the latest stamp

A register holds at most one entry of `α`; `stamp : α → τ` orders the entries.
`IsLatest stamp S r` says what the register should hold once the entries of `S`
have been offered: nothing if `S` is empty, else a member of `S` no member of `S`
is later than.  The order of the offers does not appear in it, which is the whole
point: two registers that are `IsLatest` for the same `S` agree as soon as equal
stamps mean equal readings (`IsLatest.agree`).  A register that was not offered
everything is judged by what it missed (`IsLatest.superset_iff`).

A register may also refuse what it is offered (`offer`): the entry it holds decides.
`foldl_offer_taken` is the rule for one entry among many in an order that is not known: it is
there at the end if every register that the others can leave takes it, and it then keeps the
others out.
-/
import Mathlib.Data.Set.Finite.Lemmas

namespace Latest

open List

variable {α τ β : Type*} [LinearOrder τ] {stamp : α → τ} {S T : Set α} {r r' : Option α}

/-- The register content `r` is the latest entry of `S`. -/
def IsLatest (stamp : α → τ) (S : Set α) : Option α → Prop
  | none => S = ∅
  | some a => a ∈ S ∧ ∀ b ∈ S, stamp b ≤ stamp a

@[simp] theorem isLatest_none : IsLatest stamp S none ↔ S = ∅ := Iff.rfl

theorem IsLatest.keep {a b : α} (h : IsLatest stamp S (some a)) (hle : stamp b ≤ stamp a) :
    IsLatest stamp (insert b S) (some a) := by
  refine ⟨Set.mem_insert_of_mem b h.1, fun c hc => ?_⟩
  rcases Set.mem_insert_iff.mp hc with rfl | hc
  · exact hle
  · exact h.2 c hc

theorem IsLatest.take {b : α} (h : IsLatest stamp S r)
    (hlt : ∀ a, r = some a → stamp a ≤ stamp b) : IsLatest stamp (insert b S) (some b) := by
  refine ⟨Set.mem_insert b S, fun c hc => ?_⟩
  rcases Set.mem_insert_iff.mp hc with rfl | hc
  · exact le_rfl
  · cases r with
    | none => rw [isLatest_none.mp h] at hc; exact absurd hc (Set.notMem_empty c)
    | some a => exact (h.2 c hc).trans (hlt a rfl)

theorem IsLatest.agree {f : α → β} (h : IsLatest stamp S r) (h' : IsLatest stamp S r')
    (htie : ∀ a ∈ S, ∀ b ∈ S, stamp a = stamp b → f a = f b) : r.map f = r'.map f := by
  cases r with
  | none =>
    cases r' with
    | none => rfl
    | some b => rw [isLatest_none.mp h] at h'; exact absurd h'.1 (Set.notMem_empty b)
  | some a =>
    cases r' with
    | none => rw [isLatest_none.mp h'] at h; exact absurd h.1 (Set.notMem_empty a)
    | some b =>
      have hst : stamp a = stamp b := le_antisymm (h'.2 a h.1) (h.2 b h'.1)
      exact congrArg some (htie a h.1 b h'.1 hst)

theorem IsLatest.superset_iff (h : IsLatest stamp S r) (hST : S ⊆ T) (hT : T.Finite)
    (hinj : ∀ a ∈ T, ∀ b ∈ T, stamp a = stamp b → a = b) :
    IsLatest stamp T r ↔ ∀ b ∈ T, b ∉ S → ∃ c ∈ T, stamp b < stamp c := by
  constructor
  · intro hr b hb hmissed
    cases r with
    | none =>
      rw [isLatest_none.mp hr] at hb
      exact absurd hb (Set.notMem_empty b)
    | some a =>
      refine ⟨a, hr.1, lt_of_le_of_ne (hr.2 b hb) ?_⟩
      intro htie
      have hab : b = a := hinj b hb a hr.1 htie
      exact hmissed (hab ▸ h.1)
  · intro hsuper
    rcases T.eq_empty_or_nonempty with hempty | hne
    · subst hempty
      cases r with
      | none => rfl
      | some a => exact absurd (hST h.1) (Set.notMem_empty a)
    · obtain ⟨m, hm, hmax⟩ := Set.exists_max_image T stamp hT hne
      have hmS : m ∈ S := by
        by_contra hmissed
        obtain ⟨c, hc, hlt⟩ := hsuper m hm hmissed
        exact absurd (hmax c hc) (not_le.mpr hlt)
      cases r with
      | none =>
        rw [isLatest_none.mp h] at hmS
        exact absurd hmS (Set.notMem_empty m)
      | some a => exact ⟨hST h.1, fun b hb => (hmax b hb).trans (h.2 m hmS)⟩

/-! ## Offers that may be refused -/

section Offers

variable {keepsOut : α → α → Bool} {I : Option α → Prop} {l : List α} {a : α}

/-- The entry that is held keeps the offer out, or makes way for it. -/
def offer (keepsOut : α → α → Bool) (r : Option α) (b : α) : Option α :=
  if r.any (keepsOut · b) then r else some b

theorem offer_some (a b : α) :
    offer keepsOut (some a) b = if keepsOut a b then some a else some b := rfl

theorem foldl_offer_cases (r : Option α) :
    l.foldl (offer keepsOut) r = r ∨ ∃ b ∈ l, l.foldl (offer keepsOut) r = some b := by
  induction l generalizing r with
  | nil => exact .inl rfl
  | cons b l ih =>
    rw [foldl_cons]
    rcases ih (offer keepsOut r b) with hsame | ⟨c, hc, hlast⟩
    · rw [hsame, offer]
      split
      · exact .inl rfl
      · exact .inr ⟨b, .head _, rfl⟩
    · exact .inr ⟨c, mem_cons_of_mem b hc, hlast⟩

theorem foldl_offer_kept (h : ∀ b ∈ l, keepsOut a b = true) :
    l.foldl (offer keepsOut) (some a) = some a := by
  induction l with
  | nil => rfl
  | cons b l ih =>
    have hb : offer keepsOut (some a) b = some a := by
      rw [offer_some, if_pos (h b mem_cons_self)]
    rw [foldl_cons, hb]
    exact ih fun c hc => h c (mem_cons_of_mem b hc)

theorem foldl_offer_taken {r : Option α} (ha : a ∈ l) (hr : I r)
    (htake : ∀ r, I r → offer keepsOut r a = some a)
    (hstep : ∀ r, I r → ∀ b ∈ l, b ≠ a → I (offer keepsOut r b))
    (hkept : ∀ b ∈ l, keepsOut a b = true) : l.foldl (offer keepsOut) r = some a := by
  induction l generalizing r with
  | nil => exact nomatch ha
  | cons b l ih =>
    have hrest : ∀ c ∈ l, keepsOut a c = true := fun c hc =>
      hkept c (mem_cons_of_mem b hc)
    rw [foldl_cons]
    by_cases hb : b = a
    · rw [hb, htake r hr]
      exact foldl_offer_kept hrest
    · refine ih ((mem_cons.mp ha).resolve_left (Ne.symm hb))
        (hstep r hr b mem_cons_self hb) ?_ hrest
      intro r hr c hc
      exact hstep r hr c (mem_cons_of_mem b hc)

end Offers

end Latest
