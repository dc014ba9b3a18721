/-
# `Lib.Greedy` — first come, first served

A capacity is handed out along a list: whoever comes takes what it asks for if that still fits,
and nothing otherwise.

    serve used l     those of `l` that get theirs, `used` of the capacity being gone

Who is served depends on those in front alone (`serve_append`).  What is handed out is within the
capacity (`used_add_le`), and who is left out did not fit into what those in front had left
(`not_fits_of_left_out`).
-/
import Mathlib.Algebra.BigOperators.Group.List.Basic
import Mathlib.Algebra.Ring.Int.Defs

namespace Greedy

variable {α : Type*}

section
variable (ask : α → Int) (capacity : Int)

def serve (used : Int) : List α → List α
  | [] => []
  | a :: l => if ask a + used ≤ capacity then a :: serve (used + ask a) l else serve used l

def handedOut (l : List α) : Int := (l.map ask).sum

end

variable {ask : α → Int} {capacity used : Int} {a : α} {l l' : List α}

@[simp] theorem handedOut_nil : handedOut ask [] = 0 := rfl

@[simp] theorem handedOut_cons : handedOut ask (a :: l) = ask a + handedOut ask l := by
  simp [handedOut]

@[simp] theorem serve_nil : serve ask capacity used [] = [] := rfl

theorem serve_cons_of_fits (h : ask a + used ≤ capacity) :
    serve ask capacity used (a :: l) = a :: serve ask capacity (used + ask a) l := by
  rw [serve, if_pos h]

theorem serve_cons_of_not_fits (h : ¬ ask a + used ≤ capacity) :
    serve ask capacity used (a :: l) = serve ask capacity used l := by
  rw [serve, if_neg h]

theorem serve_sublist : (serve ask capacity used l).Sublist l := by
  induction l generalizing used with
  | nil => exact List.Sublist.refl []
  | cons a l ih =>
    by_cases hfits : ask a + used ≤ capacity
    · rw [serve_cons_of_fits hfits]
      exact ih.cons_cons a
    · rw [serve_cons_of_not_fits hfits]
      exact ih.cons a

/-- **Within the capacity.** -/
theorem used_add_le (h : used ≤ capacity) :
    used + handedOut ask (serve ask capacity used l) ≤ capacity := by
  induction l generalizing used with
  | nil => simpa using h
  | cons a l ih =>
    by_cases hfits : ask a + used ≤ capacity
    · have hrest : used + ask a ≤ capacity := by omega
      have htotal := ih hrest
      rw [serve_cons_of_fits hfits, handedOut_cons]
      omega
    · rw [serve_cons_of_not_fits hfits]
      exact ih h

theorem serve_append : serve ask capacity used (l ++ l') =
    serve ask capacity used l ++
      serve ask capacity (used + handedOut ask (serve ask capacity used l)) l' := by
  induction l generalizing used with
  | nil => simp
  | cons a l ih =>
    by_cases hfits : ask a + used ≤ capacity
    · rw [List.cons_append, serve_cons_of_fits hfits, serve_cons_of_fits hfits, ih,
        handedOut_cons, List.cons_append, Int.add_assoc]
    · rw [List.cons_append, serve_cons_of_not_fits hfits, serve_cons_of_not_fits hfits, ih]

/-- **Nobody is left out who fits.** -/
theorem not_fits_of_left_out (h : a ∉ serve ask capacity used (l ++ a :: l')) :
    capacity < ask a + (used + handedOut ask (serve ask capacity used l)) := by
  by_contra hfits
  rw [serve_append, serve_cons_of_fits (Int.not_lt.mp hfits)] at h
  exact h (List.mem_append_right _ List.mem_cons_self)

end Greedy
