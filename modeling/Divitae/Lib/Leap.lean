/-
# `Lib.Leap` — a search that passes over what it need not look at

Behind each `wide` element the search passes over the next `skip` ones.

    leap p wide skip n l   the first element with `p` the search sees; it passes over `n` first
    Passable p wide skip   none of those passed over has `p`, unless the wide one before them has

`leap_eq_find` says that such a search finds what the one element by element finds.
-/
import Mathlib.Data.List.Basic

namespace Leap

variable {α : Type*}

def leap (p wide : α → Bool) (skip : Nat) : Nat → List α → Option α
  | _, [] => none
  | n + 1, _ :: l => leap p wide skip n l
  | 0, a :: l =>
    if p a then some a
    else if wide a then leap p wide skip skip l
    else leap p wide skip 0 l

def Passable (p wide : α → Bool) (skip : Nat) (l : List α) : Prop :=
  ∀ before a after, l = before ++ a :: after → wide a = true → p a = false →
    ∀ b ∈ after.take skip, p b = false

section
variable {p wide : α → Bool} {skip n : Nat} {a : α} {l : List α}

theorem Passable.tail (h : Passable p wide skip (a :: l)) : Passable p wide skip l := by
  intro before b after hl
  exact h (a :: before) b after (congrArg (List.cons a) hl)

theorem Passable.head (h : Passable p wide skip (a :: l)) (hwide : wide a = true)
    (ha : p a = false) : ∀ b ∈ l.take skip, p b = false :=
  h [] a l rfl hwide ha

theorem leap_short (h : l.length ≤ n) : leap p wide skip n l = none := by
  induction l generalizing n with
  | nil => rw [leap]
  | cons a l ih =>
    cases n with
    | zero => exact absurd h (Nat.not_succ_le_zero _)
    | succ n => exact ih (Nat.le_of_succ_le_succ h)

theorem leap_eq_find (h : Passable p wide skip l) (hn : ∀ b ∈ l.take n, p b = false) :
    leap p wide skip n l = l.find? p := by
  induction l generalizing n with
  | nil => rw [leap, List.find?_nil]
  | cons a l ih =>
    cases n with
    | succ n =>
      have ha : p a = false := hn a (.head _)
      rw [leap, List.find?_cons_of_neg (by simp [ha])]
      exact ih h.tail fun b hb => hn b (List.mem_cons_of_mem a hb)
    | zero =>
      rw [leap]
      by_cases ha : p a = true
      · rw [if_pos ha, List.find?_cons_of_pos ha]
      · rw [if_neg ha, List.find?_cons_of_neg ha]
        split_ifs with hwide
        · exact ih h.tail (h.head hwide (Bool.eq_false_iff.mpr ha))
        · exact ih h.tail fun b hb => absurd hb (by simp)

end

end Leap
