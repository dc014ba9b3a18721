/-
# `Lib.Heaps` — vectors that are kept as heaps

    make_heap less v   `v` made a heap
    push_heap less v   the last element of `v` takes its place in the heap before it
    pop_heap less v    the front of the heap `v` goes to the end

An implementation is free in how it arranges the elements; what it promises is that each of the
three rearranges and that `pop_heap` puts the front last.  `takeFront` is how a queue is read.
-/
import Mathlib.Data.List.Sort

/-- An implementation of heaps in vectors. -/
structure Heaps (α : Type*) where
  make_heap : (α → α → Bool) → List α → List α
  push_heap : (α → α → Bool) → List α → List α
  pop_heap : (α → α → Bool) → List α → List α
  make_perm : ∀ less v, (make_heap less v).Perm v
  push_perm : ∀ less v, (push_heap less v).Perm v
  pop_perm : ∀ less v, (pop_heap less v).Perm v
  pop_last : ∀ less a v, (pop_heap less (a :: v)).getLast? = some a

namespace Heaps

open List

variable {α : Type*} (H : Heaps α) (less : α → α → Bool)

/-- `v.front()`, and what `pop_heap` and `pop_back` leave. -/
def takeFront : List α → Option (α × List α)
  | [] => none
  | a :: v => some (a, (H.pop_heap less (a :: v)).dropLast)

variable {H less}

theorem takeFront_perm {v rest : List α} {a : α} (h : H.takeFront less v = some (a, rest)) :
    v.Perm (a :: rest) := by
  cases v with
  | nil => cases h
  | cons b v =>
    obtain ⟨rfl, rfl⟩ := Prod.mk.inj (Option.some.inj h)
    have hsplit : (H.pop_heap less (b :: v)).dropLast ++ [b] = H.pop_heap less (b :: v) :=
      dropLast_append_getLast? b (H.pop_last less b v)
    have hperm := H.pop_perm less (b :: v)
    rw [← hsplit] at hperm
    exact hperm.symm.trans (perm_append_singleton b _)

theorem takeFront_eq_none {v : List α} : H.takeFront less v = none ↔ v = [] := by
  cases v with
  | nil => exact ⟨fun _ => rfl, fun _ => rfl⟩
  | cons a v => exact ⟨nofun, nofun⟩

/-- The implementation that keeps the vector sorted, the greatest element first. -/
def sorted : Heaps α where
  make_heap less v := v.insertionSort fun a b => less a b = false
  push_heap less v := v.insertionSort fun a b => less a b = false
  pop_heap _ v := v.tail ++ v.head?.toList
  make_perm _ v := perm_insertionSort _ v
  push_perm _ v := perm_insertionSort _ v
  pop_perm _ v := by
    cases v with
    | nil => exact List.Perm.refl []
    | cons a v => exact perm_append_singleton a v
  pop_last _ a v := List.getLast?_append_of_ne_nil v (cons_ne_nil a [])

end Heaps
