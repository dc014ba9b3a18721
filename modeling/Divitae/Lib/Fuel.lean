/-
# `Lib.Fuel` — loops with fuel, and that they end

A computation that may go on for ever takes `fuel : Nat` and has no result when that is used up.

    Ends f P          from some fuel on `f` has one result, and `P` holds of it
    doWhile cond body the loop whose test is behind its body

`Ends` goes through a sequence (`Ends.bind`), a loop over a list (`ends_foldlM`) and a loop with a
measure (`ends_doWhile`, and `ends_while` where the body makes the test too).
-/
import Mathlib.Data.List.Basic
import Mathlib.Order.Lattice

namespace Fuel

variable {α β σ : Type*}

def Ends (f : Nat → Option α) (P : α → Prop) : Prop :=
  ∃ n a, P a ∧ ∀ fuel, n ≤ fuel → f fuel = some a

section
variable {f : Nat → Option α} {g : α → Nat → Option β} {P Q : α → Prop} {R : β → Prop}

theorem ends_pure {a : α} (h : P a) : Ends (fun _ => some a) P := ⟨0, a, h, fun _ _ => rfl⟩

theorem Ends.mono (hf : Ends f P) (h : ∀ a, P a → Q a) : Ends f Q := by
  obtain ⟨n, a, ha, hrun⟩ := hf
  exact ⟨n, a, h a ha, hrun⟩

theorem Ends.bind (hf : Ends f P) (hg : ∀ a, P a → Ends (g a) R) :
    Ends (fun fuel => (f fuel).bind fun a => g a fuel) R := by
  obtain ⟨n, a, ha, hrun⟩ := hf
  obtain ⟨m, b, hb, hrun'⟩ := hg a ha
  refine ⟨max n m, b, hb, fun fuel hfuel => ?_⟩
  dsimp only
  rw [hrun fuel (le_trans (le_max_left n m) hfuel)]
  exact hrun' fuel (le_trans (le_max_right n m) hfuel)

theorem Ends.map {h : α → β} (hf : Ends f P) (hh : ∀ a, P a → R (h a)) :
    Ends (fun fuel => (f fuel).map h) R := by
  obtain ⟨n, a, ha, hrun⟩ := hf
  exact ⟨n, h a, hh a ha, fun fuel hfuel => congrArg (Option.map h) (hrun fuel hfuel)⟩

theorem Ends.known (hf : Ends f P) : Ends f fun a => P a ∧ Ends f (· = a) := by
  obtain ⟨n, a, ha, hrun⟩ := hf
  exact ⟨n, a, ⟨ha, n, a, rfl, hrun⟩, hrun⟩

end

def doWhile (cond : σ → Bool) (body : σ → σ) : Nat → σ → Option σ
  | 0, _ => none
  | fuel + 1, s => if cond (body s) then doWhile cond body fuel (body s) else some (body s)

/-- **A loop with a measure ends.** -/
theorem ends_doWhile {cond : σ → Bool} {body : σ → σ} {I Q : σ → Prop} (m : σ → Nat)
    (hon : ∀ s, I s → cond (body s) = true → I (body s) ∧ m (body s) < m s)
    (hend : ∀ s, I s → cond (body s) = false → Q (body s)) {s : σ} (hs : I s) :
    Ends (fun fuel => doWhile cond body fuel s) Q := by
  -- induction on the measure, which bounds the rounds that are left
  induction hm : m s using Nat.strong_induction_on generalizing s with
  | _ k ih =>
    cases hcond : cond (body s) with
    | false =>
      refine ⟨1, body s, hend s hs hcond, fun fuel hfuel => ?_⟩
      obtain ⟨fuel, rfl⟩ := Nat.exists_eq_add_of_le' hfuel
      dsimp only
      rw [doWhile, hcond, if_neg Bool.false_ne_true]
    | true =>
      obtain ⟨hs', hless⟩ := hon s hs hcond
      obtain ⟨n, a, ha, hrun⟩ := ih _ (hm ▸ hless) hs' rfl
      refine ⟨n + 1, a, ha, fun fuel hfuel => ?_⟩
      obtain ⟨fuel, rfl⟩ := Nat.exists_eq_add_of_le' (le_trans (Nat.le_add_left 1 n) hfuel)
      dsimp only
      rw [doWhile, hcond, if_pos rfl]
      exact hrun fuel (Nat.le_of_add_le_add_right hfuel)

theorem ends_while {cond : σ → Bool} {f : σ → σ} {I : σ → Prop} (m : σ → Nat)
    (hstep : ∀ s, I s → cond s = true → I (f s) ∧ m (f s) < m s) {s : σ} (hs : I s) :
    Ends (fun fuel => doWhile cond (fun s => if cond s then f s else s) fuel s)
      fun s => I s ∧ cond s = false := by
  refine ends_doWhile m (fun s hs hon => ?_) (fun s hs hend => ?_) hs
  · cases hcond : cond s with
    | true =>
      exact hstep s hs hcond
    | false =>
      rw [hcond, if_neg Bool.false_ne_true, hcond] at hon
      exact nomatch hon
  · cases hcond : cond s with
    | true =>
      rw [hcond, if_pos rfl] at hend
      rw [if_pos rfl]
      exact ⟨(hstep s hs hcond).1, hend⟩
    | false =>
      exact ⟨hs, hcond⟩

/-- **A loop over a list.**  The invariant reads the elements that are to come. -/
theorem ends_foldlM {body : σ → α → Nat → Option σ} {I : List α → σ → Prop}
    (hstep : ∀ x l s, I (x :: l) s → Ends (body s x) (I l)) {l : List α} {s : σ} (hs : I l s) :
    Ends (fun fuel => l.foldlM (fun s x => body s x fuel) s) (I []) := by
  induction l generalizing s with
  | nil => exact ends_pure hs
  | cons x l ih =>
    exact (hstep x l s hs).bind fun s' hs' => ih hs'

end Fuel
