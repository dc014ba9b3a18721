/-
# `Lib.Slots` — lists read as infinitely many slots

A list stands for the infinite sequence that continues it with one default value
`d`.  Writing past the end pads with `d` (`put`); defaults at the end are dropped
(`trim`).  Two lists with nothing to drop are equal as soon as they have the same
slots (`Trimmed.ext`), so an argument about such lists is an argument about
functions of an index.
-/
import Mathlib.Data.List.DropRight
import Mathlib.Data.List.GetD

namespace Slots

open List

variable {α : Type*} {d : α} {p : α → Bool}

/-- Slot `i`, default past the end. -/
def slot (d : α) (l : List α) (i : Nat) : α := l.getD i d

/-- Write slot `i`, padding when it lies past the end. -/
def put (d : α) (l : List α) (i : Nat) (a : α) : List α :=
  (if l.length < i + 1 then l ++ List.replicate (i + 1 - l.length) d else l).set i a

/-- `p` holds of the default and of nothing else in the list. -/
def Marks (p : α → Bool) (d : α) (l : List α) : Prop := ∀ a ∈ l, p a = true → a = d

/-- The list does not end in a default. -/
def Trimmed (p : α → Bool) (l : List α) : Prop := l.rdropWhile p = l

theorem slot_append_replicate (l : List α) (k i : Nat) :
    slot d (l ++ List.replicate k d) i = slot d l i := by
  unfold slot
  rcases Nat.lt_or_ge i l.length with h | h
  · rw [getD_append _ _ _ _ h]
  · rw [getD_append_right _ _ _ _ h, getD_eq_default l _ h, getD_eq_getElem?_getD]
    exact List.getElem?_getD_replicate_default_eq ..

@[simp] theorem slot_set {l : List α} {i : Nat} (h : i < l.length) (a : α) (j : Nat) :
    slot d (l.set i a) j = if j = i then a else slot d l j := by
  unfold slot
  simp only [getD_eq_getElem?_getD, List.getElem?_set]
  split_ifs with h1 h2 h2
  · rfl
  · exact absurd h1.symm h2
  · exact absurd h2.symm h1
  · rfl

@[simp] theorem slot_put (l : List α) (i : Nat) (a : α) (j : Nat) :
    slot d (put d l i a) j = if j = i then a else slot d l j := by
  unfold put
  rcases Nat.lt_or_ge l.length (i + 1) with h | h
  · rw [if_pos h, slot_set (by simp; omega), slot_append_replicate]
  · rw [if_neg (by omega), slot_set (by omega)]

theorem slot_nil (i : Nat) : slot d [] i = d := rfl

theorem slot_map {g : α → α} (hg : g d = d) (l : List α) (i : Nat) :
    slot d (l.map g) i = g (slot d l i) := by
  have h := getD_map (f := g) (n := i) (d := d) l
  rwa [hg] at h

variable {l : List α}

theorem slot_trim (hd : Marks p d l) (i : Nat) :
    slot d (l.rdropWhile p) i = slot d l i := by
  induction l using List.reverseRecOn with
  | nil => rfl
  | append_singleton l a ih =>
    have hl : Marks p d l := fun b hb => hd b (mem_append_left _ hb)
    rw [rdropWhile_concat]
    split_ifs with ha
    · have had : a = d := hd a (by simp) ha
      have hone : [a] = List.replicate 1 d := by rw [had]; rfl
      rw [ih hl, hone, slot_append_replicate]
    · rfl

theorem Marks.trim (hd : Marks p d l) : Marks p d (l.rdropWhile p) := by
  intro a ha
  exact hd a (( rdropWhile_prefix p l).subset ha)

theorem Marks.put (hd : Marks p d l) (i : Nat) {a : α} (ha : p a = true → a = d) :
    Marks p d (put d l i a) := by
  intro b hb hpb
  have hmem : b ∈ l ∨ b = d ∨ b = a := by
    unfold Slots.put at hb
    split_ifs at hb
    · rcases mem_or_eq_of_mem_set hb with h | h
      · rcases mem_append.mp h with h | h
        · exact .inl h
        · exact .inr (.inl (eq_of_mem_replicate h))
      · exact .inr (.inr h)
    · rcases mem_or_eq_of_mem_set hb with h | h
      · exact .inl h
      · exact .inr (.inr h)
  rcases hmem with h | h | h
  · exact hd b h hpb
  · exact h
  · rw [h] at hpb ⊢
    exact ha hpb

theorem trimmed_trim (l : List α) : Trimmed p (l.rdropWhile p) := rdropWhile_idempotent p l

theorem Trimmed.last (h : Trimmed p l) (hne : l ≠ []) :
    p (l.getLast hne) = false := by
  have := rdropWhile_eq_self_iff.mp h hne
  simpa using this

section
variable {l l' : List α} (hp : p d = true) (h : Trimmed p l)
include hp h

theorem Trimmed.length_le (hs : ∀ i, slot d l i = slot d l' i) : l.length ≤ l'.length := by
  rcases l.eq_nil_or_concat with rfl | ⟨front, a, rfl⟩
  · exact Nat.zero_le _
  · by_contra hlt
    have hlast := h.last (by simp)
    have hslot := hs front.length
    unfold slot at hslot
    rw [getD_eq_default l' _ (by simp at hlt; omega), concat_eq_append,
      getD_append_right _ _ _ _ (Nat.le_refl _)] at hslot
    have had : a = d := by simpa using hslot
    simp [had, hp] at hlast

theorem Trimmed.ext (h' : Trimmed p l')
    (hs : ∀ i, slot d l i = slot d l' i) : l = l' := by
  have hlen : l.length = l'.length :=
    Nat.le_antisymm (h.length_le hp hs) (h'.length_le hp fun i => (hs i).symm)
  refine ext_getElem hlen fun i h1 h2 => ?_
  have hslot := hs i
  unfold slot at hslot
  rwa [getD_eq_getElem _ _ h1, getD_eq_getElem _ _ h2] at hslot

end

theorem Trimmed.eq_nil_iff (hp : p d = true) (h : Trimmed p l) :
    l = [] ↔ ∀ i, slot d l i = d := by
  constructor
  · rintro rfl i
    exact slot_nil i
  · intro hs
    exact h.ext hp (rdropWhile_nil p) fun i => (hs i).trans (slot_nil i).symm

theorem map_slot_range (l : List α) (n : Nat) :
    (List.range n).map (slot d l) = l.take n ++ List.replicate (n - l.length) d := by
  refine ext_getElem (by simp; omega) ?_
  intro i hi hi'
  have hin : i < n := by simpa using hi
  rw [getElem_map, getElem_range]
  rcases Nat.lt_or_ge i l.length with h | h
  · rw [getElem_append_left (by simp; omega), getElem_take]
    exact getD_eq_getElem l d h
  · rw [getElem_append_right (by simp; omega), getElem_replicate]
    exact getD_eq_default l d h

theorem slot_map_range (g : Nat → α) (n i : Nat) :
    slot d ((List.range n).map g) i = if i < n then g i else d := by
  unfold slot
  split_ifs with h
  · rw [getD_eq_getElem _ _ (by simpa using h), getElem_map, getElem_range]
  · exact getD_eq_default _ _ (by simpa using h)

end Slots
