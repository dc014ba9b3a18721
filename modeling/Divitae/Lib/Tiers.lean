/-
# `Lib.Tiers` — a chain of threshold comparisons

A function written as a chain of tests, each on both sides,

    if x ≤ u₁ and l₁ < x then v₁ else if x ≤ u₂ and l₂ < x then v₂ … else last

is a table of *tiers*.  Where each tier begins where the one before it ends (`Chained`) and the
values fall (`Falling`), the function falls on everything above the first bound
(`pick_antitone`), whatever the order of the bounds; an `x` no tier takes gets `last`.
-/
import Mathlib.Order.Lattice

namespace Tiers

/-- The values above `lower`, up to `upper`. -/
structure Tier (α β : Type*) where
  lower : α
  upper : α
  value : β

variable {α α' β : Type*}

/-- The same value between other bounds. -/
def Tier.map (f : α → α') (t : Tier α β) : Tier α' β := ⟨f t.lower, f t.upper, t.value⟩

/-- Each tier begins where the one before it ends, the first one at `l`. -/
def Chained : α → List (Tier α β) → Prop
  | _, [] => True
  | l, t :: ts => t.lower = l ∧ Chained t.upper ts

/-- The values fall from `top` to `last`. -/
def Falling [LE β] (last : β) : β → List (Tier α β) → Prop
  | top, [] => last ≤ top
  | top, t :: ts => t.value ≤ top ∧ Falling last t.value ts

instance decidableChained [DecidableEq α] : ∀ (l : α) (ts : List (Tier α β)),
    Decidable (Chained l ts)
  | _, [] => .isTrue trivial
  | l, t :: ts =>
    have := decidableChained t.upper ts
    inferInstanceAs (Decidable (t.lower = l ∧ Chained t.upper ts))

instance decidableFalling [LE β] [DecidableLE β] (last : β) :
    ∀ (top : β) (ts : List (Tier α β)), Decidable (Falling last top ts)
  | top, [] => inferInstanceAs (Decidable (last ≤ top))
  | top, t :: ts =>
    have := decidableFalling last t.value ts
    inferInstanceAs (Decidable (t.value ≤ top ∧ Falling last t.value ts))

variable {ts : List (Tier α β)}

theorem Chained.map (f : α → α') {l : α} (h : Chained l ts) :
    Chained (f l) (ts.map (Tier.map f)) := by
  induction ts generalizing l with
  | nil => trivial
  | cons t ts ih =>
    obtain ⟨rfl, hrest⟩ := h
    exact ⟨rfl, ih hrest⟩

variable {last top : β}

theorem Falling.map [LE β] (f : α → α')
    (h : Falling last top ts) : Falling last top (ts.map (Tier.map f)) := by
  induction ts generalizing top with
  | nil => exact h
  | cons t ts ih => exact ⟨h.1, ih h.2⟩

theorem Falling.last_le [Preorder β]
    (h : Falling last top ts) : last ≤ top := by
  induction ts generalizing top with
  | nil => exact h
  | cons t ts ih => exact (ih h.2).trans h.1

section
variable [LinearOrder α]

/-- The value of the first tier that takes `x`. -/
def pick (x : α) (last : β) : List (Tier α β) → β
  | [] => last
  | t :: ts => if x ≤ t.upper ∧ t.lower < x then t.value else pick x last ts

theorem pick_of_none {x : α} {last : β}
    (h : ∀ t ∈ ts, ¬ (x ≤ t.upper ∧ t.lower < x)) : pick x last ts = last := by
  induction ts with
  | nil => rfl
  | cons t ts ih =>
    unfold pick
    rw [if_neg (h t List.mem_cons_self)]
    exact ih fun t' ht' => h t' (List.mem_cons_of_mem t ht')

section
variable [Preorder β] {x : α} (h : Falling last top ts)
include h

theorem last_le_pick : last ≤ pick x last ts := by
  induction ts generalizing top with
  | nil => exact le_refl last
  | cons t ts ih =>
    unfold pick
    split_ifs
    · exact h.2.last_le
    · exact ih h.2

theorem pick_le_top : pick x last ts ≤ top := by
  induction ts generalizing top with
  | nil => exact h
  | cons t ts ih =>
    unfold pick
    split_ifs
    · exact h.1
    · exact (ih h.2).trans h.1

end

/-- **Further up, not more.** -/
theorem pick_antitone [Preorder β] {l x y : α}
    (hchain : Chained l ts) (hfall : Falling last top ts) (hl : l < x) (hxy : x ≤ y) :
    pick y last ts ≤ pick x last ts := by
  induction ts generalizing l top with
  | nil => exact le_refl last
  | cons t ts ih =>
    obtain ⟨rfl, hrest⟩ := hchain
    by_cases hx : x ≤ t.upper
    · -- `x` is taken here, `y` here or further on
      have hpick : pick x last (t :: ts) = t.value := if_pos ⟨hx, hl⟩
      rw [hpick]
      unfold pick
      split_ifs
      · exact le_refl t.value
      · exact pick_le_top hfall.2
    · have hpick (z : α) (hz : ¬ z ≤ t.upper) : pick z last (t :: ts) = pick z last ts :=
        if_neg fun h => hz h.1
      have hy : ¬ y ≤ t.upper := fun h => hx (hxy.trans h)
      rw [hpick x hx, hpick y hy]
      exact ih hrest hfall.2 (not_le.mp hx)

end

end Tiers
