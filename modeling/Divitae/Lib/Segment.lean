/-
# `Lib.Segment` — stretches of a list with falling keys

A history is kept newest first, each item under a key (a height, a time).  `between key l a b`
is what lies from `a` on and below `b`, oldest first.

    between_append      one stretch behind another is the stretch over both: nothing is left
                        out and nothing comes twice
    between_cons        a newer item leaves the stretches below it as they are
    between_eq_single   the stretch around a single item

A stack is a list with the top first.  `Numbered f l`: each item is one above the next
by `f`.  The last `k` items are then those whose number is less than `k` below the top's,
and a number names one item.
-/
import Mathlib.Data.List.Chain
import Mathlib.Order.Lattice

namespace Segment

open List

variable {α κ : Type*} [LinearOrder κ] (key : α → κ)

/-- The keys fall along the list. -/
def Falling (l : List α) : Prop := l.Pairwise fun x y => key y < key x

/-- The items from `a` on and below `b`, the lowest first. -/
def between (l : List α) (a b : κ) : List α :=
  (l.filter fun x => decide (a ≤ key x ∧ key x < b)).reverse

variable {key}
variable {l : List α} {a b c : κ} {x : α}

theorem mem_between : x ∈ between key l a b ↔ x ∈ l ∧ a ≤ key x ∧ key x < b := by
  simp [between]

theorem between_cons_out (h : ¬ (a ≤ key x ∧ key x < b)) :
    between key (x :: l) a b = between key l a b := by
  simp only [between, filter_cons, h, decide_false, Bool.false_eq_true, if_false]

theorem between_cons_in (ha : a ≤ key x) (hb : key x < b) :
    between key (x :: l) a b = between key l a b ++ [x] := by
  simp only [between, filter_cons, ha, hb, and_self, decide_true, if_true, reverse_cons]

theorem between_cons (h : b ≤ key x) : between key (x :: l) a b = between key l a b :=
  between_cons_out fun hin => absurd hin.2 (not_lt.mpr h)

theorem between_eq_nil (h : ∀ y ∈ l, a ≤ key y → ¬ key y < b) : between key l a b = [] := by
  refine eq_nil_iff_forall_not_mem.mpr ?_
  intro y hy
  obtain ⟨hmem, ha, hb⟩ := mem_between.mp hy
  exact h y hmem ha hb

theorem between_of_le (h : b ≤ a) : between key l a b = [] :=
  between_eq_nil fun _ _ ha => not_lt.mpr (h.trans ha)

/-- **Two stretches, one behind the other.** -/
theorem between_append (h : Falling key l) (hac : a ≤ c) (hcb : c ≤ b) :
    between key l a b = between key l a c ++ between key l c b := by
  induction l with
  | nil => rfl
  | cons x l ih =>
    obtain ⟨hx, hl⟩ := pairwise_cons.mp h
    have ih := ih hl
    by_cases hc : c ≤ key x
    · rw [between_cons (a := a) hc]
      by_cases hb : key x < b
      · rw [between_cons_in (hac.trans hc) hb, between_cons_in hc hb, ih, append_assoc]
      · rw [between_cons (not_lt.mp hb), between_cons (not_lt.mp hb)]
        exact ih
    · -- what comes behind it is lower still
      have hlow : key x < c := not_le.mp hc
      have hempty : between key l c b = [] := by
        refine between_eq_nil ?_
        intro y hy hcy
        exact absurd (hcy.trans_lt ((hx y hy).trans hlow)) (lt_irrefl c)
      rw [hempty, append_nil] at ih
      rw [between_cons_out (a := c) fun hin => hc hin.1, hempty, append_nil]
      by_cases ha : a ≤ key x
      · rw [between_cons_in ha (hlow.trans_le hcb), between_cons_in ha hlow, ih]
      · rw [between_cons_out fun hin => ha hin.1, between_cons_out fun hin => ha hin.1, ih]

theorem between_eq_single (h : Falling key l) (hx : x ∈ l) (ha : a ≤ key x) (hb : key x < b)
    (honly : ∀ y ∈ l, a ≤ key y → key y < b → key y = key x) : between key l a b = [x] := by
  induction l with
  | nil => cases hx
  | cons y l ih =>
    obtain ⟨hy, hl⟩ := pairwise_cons.mp h
    have htail : ∀ z ∈ l, a ≤ key z → key z < b → key z = key x := fun z hz =>
      honly z (mem_cons_of_mem y hz)
    by_cases hin : a ≤ key y ∧ key y < b
    · have hsame : key y = key x := honly y mem_cons_self hin.1 hin.2
      have hxy : x = y := by
        rcases mem_cons.mp hx with hxy | hmem
        · exact hxy
        · exact absurd hsame (ne_of_gt (hy x hmem))
      subst hxy
      have hempty : between key l a b = [] := by
        refine between_eq_nil ?_
        intro z hz haz hbz
        exact absurd (htail z hz haz hbz) (ne_of_lt (hy z hz))
      rw [between_cons_in ha hb, hempty]
      rfl
    · have hmem : x ∈ l := by
        rcases mem_cons.mp hx with rfl | hmem
        · exact absurd ⟨ha, hb⟩ hin
        · exact hmem
      rw [between_cons_out hin]
      exact ih hl hmem htail

theorem find_eq_some (h : Falling key l) (hx : x ∈ l) {p : α → Bool}
    (hp : ∀ y ∈ l, p y = true ↔ key y = key x) : l.find? p = some x := by
  induction l with
  | nil => cases hx
  | cons y l ih =>
    obtain ⟨hy, hl⟩ := pairwise_cons.mp h
    rcases mem_cons.mp hx with rfl | hmem
    · exact List.find?_cons_of_pos ((hp x mem_cons_self).mpr rfl)
    · have hne : ¬ p y = true := by
        intro hyes
        exact absurd ((hp y mem_cons_self).mp hyes) (ne_of_gt (hy x hmem))
      rw [List.find?_cons_of_neg hne]
      exact ih hl hmem fun z hz => hp z (mem_cons_of_mem y hz)

end Segment

namespace Window

variable {α : Type*} {f : α → Int} {a b top : α} {l : List α} {k : Nat}

def Numbered (f : α → Int) (l : List α) : Prop := l.IsChain fun a b => f a = f b + 1

theorem Numbered.tail (h : Numbered f (a :: l)) : Numbered f l := List.IsChain.tail h

theorem Numbered.lt_top : ∀ {a : α} {l : List α}, Numbered f (a :: l) → ∀ b ∈ l, f b < f a
  | _, [], _, _, hb => (nomatch hb)
  | a, c :: l, h, b, hb => by
    obtain ⟨hac, hrest⟩ := List.isChain_cons_cons.mp h
    rcases List.mem_cons.mp hb with rfl | hb
    · omega
    · have hcb := Numbered.lt_top (a := c) hrest b hb
      omega

theorem Numbered.le_top (h : Numbered f (top :: l)) (hb : b ∈ top :: l) : f b ≤ f top := by
  rcases List.mem_cons.mp hb with rfl | hb
  · exact Int.le_refl _
  · exact Int.le_of_lt (h.lt_top b hb)

theorem Numbered.mem_take_iff : ∀ {k : Nat} {top : α} {l : List α}, Numbered f (top :: l) →
    ∀ {b : α}, b ∈ (top :: l).take k ↔ b ∈ top :: l ∧ f top - k < f b
  | 0, top, l, h, b => by
    simp only [List.take_zero, List.not_mem_nil, false_iff, not_and]
    intro hb
    have hle := h.le_top hb
    omega
  | k + 1, top, [], _, b => by
    simp only [List.take_succ_cons, List.take_nil, List.mem_singleton]
    constructor
    · rintro rfl
      exact ⟨rfl, by omega⟩
    · exact fun hb => hb.1
  | k + 1, top, c :: l, h, b => by
    obtain ⟨htop, hrest⟩ := List.isChain_cons_cons.mp h
    have ih : b ∈ (c :: l).take k ↔ b ∈ c :: l ∧ f c - k < f b := Numbered.mem_take_iff hrest
    rw [List.take_succ_cons, List.mem_cons, ih, List.mem_cons (l := c :: l)]
    constructor
    · rintro (rfl | ⟨hb, hlt⟩)
      · exact ⟨.inl rfl, by omega⟩
      · exact ⟨.inr hb, by omega⟩
    · rintro ⟨rfl | hb, hlt⟩
      · exact .inl rfl
      · exact .inr ⟨hb, by omega⟩

theorem mem_take_tail (top : α) {b : α} (hb : b ∈ l.take k) :
    b ∈ (top :: l).take k ∨ (top :: l)[k]? = some b := by
  obtain ⟨i, hi, rfl⟩ := List.mem_iff_getElem.mp hb
  have hik : i < k := Nat.lt_of_lt_of_le hi (by rw [List.length_take]; exact Nat.min_le_left _ _)
  have hil : i < l.length :=
    Nat.lt_of_lt_of_le hi (by rw [List.length_take]; exact Nat.min_le_right _ _)
  rw [List.getElem_take]
  rcases Nat.lt_or_ge (i + 1) k with hlt | hge
  · refine .inl (List.mem_iff_getElem.mpr ⟨i + 1, ?_, ?_⟩)
    · rw [List.length_take, List.length_cons]
      omega
    · rw [List.getElem_take, List.getElem_cons_succ]
  · obtain rfl : k = i + 1 := by omega
    refine .inr ?_
    rw [List.getElem?_cons_succ, List.getElem?_eq_getElem hil]

end Window
