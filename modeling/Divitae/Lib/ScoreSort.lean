/-
# `Lib.ScoreSort` — lists in the order of a score

A sort that is given a comparison of scores, and nothing else, moves the elements of a list.
It leaves them in the order of their scores; of elements with one score it may leave either
first.  That it sees the scores alone is what `natural` says: renaming the elements renames
the outcome.

    descending S score l   `l` sorted from behind, the highest score first
    Untied score l         no two elements of `l` have one score

The outcome is the same for every order of the elements exactly where they are untied:
`descending_of_perm`, and where two are tied, `descending_swap` with `map_swap_perm`.
-/
import Mathlib.Data.List.Sort

namespace ScoreSort

open List

/-- A sort by scores, lowest first. -/
structure StdSort where
  sort : {α : Type} → (α → Int) → List α → List α
  perm : ∀ {α : Type} (score : α → Int) (l : List α), (sort score l).Perm l
  sorted : ∀ {α : Type} (score : α → Int) (l : List α),
    (sort score l).Pairwise fun a b => score a ≤ score b
  natural : ∀ {α β : Type} (f : α → β) (score : β → Int) (l : List α),
    sort score (l.map f) = (sort (score ∘ f) l).map f

/-- The sort of the elements from the last to the first, read from the last to the first. -/
def descending {α : Type} (S : StdSort) (score : α → Int) (l : List α) : List α :=
  (S.sort score l.reverse).reverse

def Untied {α : Type} (score : α → Int) (l : List α) : Prop :=
  ∀ a ∈ l, ∀ b ∈ l, score a = score b → a = b

section
variable {α β : Type} {S : StdSort} {score : α → Int} {l l' : List α} {a b : α}

theorem descending_perm : (descending S score l).Perm l :=
  (reverse_perm _).trans ((S.perm score l.reverse).trans (reverse_perm l))

theorem mem_descending : a ∈ descending S score l ↔ a ∈ l := descending_perm.mem_iff

theorem descending_sorted : (descending S score l).Pairwise fun a b => score b ≤ score a :=
  pairwise_reverse.mpr (S.sorted score l.reverse)

theorem descending_map (f : α → β) (score : β → Int) :
    descending S score (l.map f) = (descending S (score ∘ f) l).map f := by
  rw [descending, ← map_reverse, S.natural, ← map_reverse]
  rfl

theorem descending_of_perm (huntied : Untied score l) (h : l'.Perm l) :
    descending S score l' = descending S score l := by
  refine List.Perm.eq_of_pairwise ?_ descending_sorted descending_sorted
    (descending_perm.trans (h.trans descending_perm.symm))
  intro a b ha hb hab hba
  exact huntied a (h.mem_iff.mp (mem_descending.mp ha)) b (mem_descending.mp hb)
    (le_antisymm hba hab)

variable [DecidableEq α]

theorem descending_swap (htie : score a = score b) :
    descending S score (l.map (Equiv.swap a b)) = (descending S score l).map (Equiv.swap a b) := by
  have hscore : score ∘ Equiv.swap a b = score := by
    funext c
    rw [Function.comp_apply]
    by_cases hca : c = a
    · rw [hca, Equiv.swap_apply_left, htie]
    · by_cases hcb : c = b
      · rw [hcb, Equiv.swap_apply_right, htie]
      · rw [Equiv.swap_apply_of_ne_of_ne hca hcb]
  rw [descending_map, hscore]

theorem swap_mem (ha : a ∈ l) (hb : b ∈ l) {c : α} (hc : c ∈ l) : Equiv.swap a b c ∈ l := by
  by_cases hca : c = a
  · rwa [hca, Equiv.swap_apply_left]
  · by_cases hcb : c = b
    · rwa [hcb, Equiv.swap_apply_right]
    · rwa [Equiv.swap_apply_of_ne_of_ne hca hcb]

theorem map_swap_perm (hl : l.Nodup) (ha : a ∈ l) (hb : b ∈ l) :
    (l.map (Equiv.swap a b)).Perm l := by
  refine (perm_ext_iff_of_nodup (hl.map (Equiv.swap a b).injective) hl).mpr ?_
  intro c
  rw [mem_map]
  constructor
  · rintro ⟨d, hd, rfl⟩
    exact swap_mem ha hb hd
  · intro hc
    exact ⟨Equiv.swap a b c, swap_mem ha hb hc, Equiv.swap_apply_self a b c⟩

theorem idxOf_map_swap : (l.map (Equiv.swap a b)).idxOf a = l.idxOf b := by
  rw [List.idxOf, findIdx_map, List.idxOf]
  refine congrArg (List.findIdx · l) ?_
  funext c
  rw [Function.comp_apply, Bool.eq_iff_iff, beq_iff_eq, beq_iff_eq, Equiv.swap_apply_eq_iff,
    Equiv.swap_apply_left]

end

/-- The sort that puts the elements in one after the other. -/
def insertion : StdSort where
  sort score l := l.insertionSort fun a b => score a ≤ score b
  perm score l := perm_insertionSort _ l
  sorted score l := by
    have : Std.Total fun a b => score a ≤ score b := ⟨fun a b => le_total (score a) (score b)⟩
    have : IsTrans _ fun a b => score a ≤ score b := ⟨fun _ _ _ => le_trans⟩
    exact pairwise_insertionSort _ l
  natural f score l :=
    (map_insertionSort (fun a b => score (f a) ≤ score (f b))
      (fun a b => score a ≤ score b) f l fun _ _ _ _ => Iff.rfl).symm

end ScoreSort
