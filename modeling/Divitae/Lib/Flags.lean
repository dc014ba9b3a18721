/-
# `Lib.Flags` — a part of a list, given by a flag for each element

    chosen fs l        the elements whose flag is set
    total value fs l   what they are worth together

Setting the flag of an element that is not in adds its value, and taking it back leaves what
there was (`total_set`, `set_back`).
-/
import Mathlib.Algebra.BigOperators.Group.List.Basic
import Mathlib.Tactic.Ring

namespace Flags

variable {α : Type*}

def chosen : List Bool → List α → List α
  | true :: fs, a :: l => a :: chosen fs l
  | false :: fs, _ :: l => chosen fs l
  | _, _ => []

def total (value : α → Int) (fs : List Bool) (l : List α) : Int := ((chosen fs l).map value).sum

variable {value : α → Int} {fs : List Bool} {l : List α} {a : α} {i : Nat}

theorem chosen_sublist (fs : List Bool) (l : List α) : (chosen fs l).Sublist l := by
  induction fs generalizing l with
  | nil =>
    rw [chosen]
    · exact List.nil_sublist l
    all_goals simp
  | cons f fs ih =>
    cases l with
    | nil =>
      rw [chosen]
      all_goals simp
    | cons a l =>
      cases f with
      | false => exact (ih l).cons a
      | true => exact (ih l).cons_cons a

theorem chosen_all (l : List α) : chosen (List.replicate l.length true) l = l := by
  induction l with
  | nil => rfl
  | cons a l ih => exact congrArg (List.cons a) ih

theorem chosen_none (l : List α) : chosen (List.replicate l.length false) l = [] := by
  induction l with
  | nil => rfl
  | cons a l ih => exact ih

theorem total_all (l : List α) :
    total value (List.replicate l.length true) l = (l.map value).sum := by
  rw [total, chosen_all]

theorem total_none (l : List α) : total value (List.replicate l.length false) l = 0 := by
  rw [total, chosen_none]
  rfl

theorem total_set (hflag : fs[i]? = some false) (ha : l[i]? = some a) :
    total value (fs.set i true) l = total value fs l + value a := by
  induction fs generalizing l i with
  | nil => cases hflag
  | cons f fs ih =>
    cases l with
    | nil => cases ha
    | cons b l =>
      cases i with
      | zero =>
        cases hflag
        cases ha
        exact Int.add_comm _ _
      | succ i =>
        have hrest := ih hflag ha
        cases f with
        | false => exact hrest
        | true =>
          show value b + total value (fs.set i true) l = value b + total value fs l + value a
          rw [hrest, Int.add_assoc]

theorem set_back (hflag : fs[i]? = some false) : (fs.set i true).set i false = fs := by
  rw [List.set_set]
  refine List.ext_getElem? ?_
  intro j
  rw [List.getElem?_set]
  split_ifs with hij hlt
  · rw [← hij, hflag]
  · exact absurd (List.getElem?_eq_some_iff.mp hflag).1 hlt
  · rfl

end Flags
