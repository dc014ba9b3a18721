/-
# `Lib.Keyed` — many changes to a keyed map

What a list of erasures and a list of insertions leave under a key, and what they do to a
total over the entries.

    lookup_eraseAll    after erasing the keys of a list
    lookup_enterAll    after entering a list whose keys are distinct
    lookup_sweep_eq_some
                       after a pass over the map that erases what meets a condition
    sum_insert, sum_erase
                       the total over the entries, in any commutative monoid
-/
import Mathlib.Data.List.AList
import Mathlib.Algebra.BigOperators.Group.List.Basic

namespace Keyed

open List

variable {κ ι M : Type*} {β : Type*} [DecidableEq κ]

def eraseAll (key : ι → κ) (l : List ι) (m : AList fun _ : κ => β) : AList fun _ : κ => β :=
  l.foldl (fun m i => m.erase (key i)) m

def enterAll (key : ι → κ) (value : ι → β) (l : List ι) (m : AList fun _ : κ => β) :
    AList fun _ : κ => β :=
  l.foldl (fun m i => m.insert (key i) (value i)) m

/-- A pass over the map that erases the entries that meet `p`; the iterator moves on before its
entry is erased. -/
def sweep (p : κ → β → Bool) (m : AList fun _ : κ => β) : AList fun _ : κ => β :=
  m.entries.foldl (fun m e => if p e.1 e.2 then m.erase e.1 else m) m

section
variable {key : ι → κ} {value : ι → β} {l : List ι} {m : AList fun _ : κ => β} {k : κ} {b : β}

theorem mem_entries_iff : (⟨k, b⟩ : Sigma fun _ : κ => β) ∈ m.entries ↔ m.lookup k = some b :=
  (mem_dlookup_iff m.nodupKeys).symm

theorem lookup_insert_cases {k' : κ} {a : β} (h : (m.insert k a).lookup k' = some b) :
    (k' = k ∧ b = a) ∨ (k' ≠ k ∧ m.lookup k' = some b) := by
  rcases eq_or_ne k' k with rfl | hne
  · rw [AList.lookup_insert] at h
    exact .inl ⟨rfl, (Option.some.inj h).symm⟩
  · rw [AList.lookup_insert_ne hne] at h
    exact .inr ⟨hne, h⟩

theorem lookup_erase_cases {k' : κ} (h : (m.erase k).lookup k' = some b) :
    k' ≠ k ∧ m.lookup k' = some b := by
  rcases eq_or_ne k' k with rfl | hne
  · rw [AList.lookup_erase] at h
    cases h
  · rw [AList.lookup_erase_ne hne] at h
    exact ⟨hne, h⟩

theorem lookup_eraseAll : (eraseAll key l m).lookup k =
    if k ∈ l.map key then none else m.lookup k := by
  induction l generalizing m with
  | nil => rfl
  | cons i l ih =>
    show (eraseAll key l (m.erase (key i))).lookup k = _
    rw [ih]
    rcases eq_or_ne k (key i) with rfl | hne
    · rw [AList.lookup_erase, ite_self, map_cons, if_pos mem_cons_self]
    · rw [AList.lookup_erase_ne hne]
      refine if_congr ?_ rfl rfl
      constructor
      · exact mem_cons_of_mem (key i)
      · intro hmem
        exact (mem_cons.mp hmem).resolve_left hne

theorem lookup_eraseAll_eq_some :
    (eraseAll key l m).lookup k = some b ↔ k ∉ l.map key ∧ m.lookup k = some b := by
  rw [lookup_eraseAll]
  constructor
  · intro h
    split_ifs at h with hmem
    exact ⟨hmem, h⟩
  · rintro ⟨hmem, h⟩
    rw [if_neg hmem]
    exact h

theorem foldl_erase_if (p : ι → Bool) (l : List ι) (m : AList fun _ : κ => β) :
    l.foldl (fun m i => if p i then m.erase (key i) else m) m = eraseAll key (l.filter p) m := by
  induction l generalizing m with
  | nil => rfl
  | cons i l ih =>
    rw [foldl_cons, ih]
    split_ifs with hi
    · rw [filter_cons_of_pos hi]
      rfl
    · rw [filter_cons_of_neg hi]

theorem lookup_sweep_eq_some {p : κ → β → Bool} :
    (sweep p m).lookup k = some b ↔ m.lookup k = some b ∧ p k b = false := by
  have herase := @foldl_erase_if κ (Sigma fun _ : κ => β) β _ (fun e => e.1)
    (fun e => p e.1 e.2) m.entries m
  rw [sweep, herase, lookup_eraseAll_eq_some, and_comm]
  refine and_congr_right fun hb => ?_
  constructor
  · intro hnot
    by_contra hp
    refine hnot (mem_map.mpr ⟨⟨k, b⟩, mem_filter.mpr ⟨mem_entries_iff.mpr hb, ?_⟩, rfl⟩)
    exact Bool.not_eq_false _ |>.mp hp
  · intro hp hmem
    obtain ⟨⟨k', b'⟩, hfilter, rfl⟩ := mem_map.mp hmem
    obtain ⟨hentry, hmeets⟩ := mem_filter.mp hfilter
    obtain rfl : b' = b := Option.some.inj ((mem_entries_iff.mp hentry).symm.trans hb)
    exact Bool.noConfusion (hp.symm.trans hmeets)

theorem lookup_enterAll_of_not_mem (h : k ∉ l.map key) :
    (enterAll key value l m).lookup k = m.lookup k := by
  induction l generalizing m with
  | nil => rfl
  | cons i l ih =>
    rw [map_cons, mem_cons, not_or] at h
    obtain ⟨hne, hrest⟩ := h
    exact (ih hrest).trans (AList.lookup_insert_ne hne)

theorem lookup_enterAll_of_mem (hkeys : (l.map key).Nodup) {i : ι} (hi : i ∈ l) :
    (enterAll key value l m).lookup (key i) = some (value i) := by
  induction l generalizing m with
  | nil => exact nomatch hi
  | cons j l ih =>
    obtain ⟨hj, hrest⟩ := nodup_cons.mp hkeys
    rcases mem_cons.mp hi with rfl | hi
    · exact (lookup_enterAll_of_not_mem hj).trans (AList.lookup_insert m)
    · exact ih hrest hi

theorem lookup_enterAll_eq_some (hkeys : (l.map key).Nodup)
    (hnew : ∀ i ∈ l, m.lookup (key i) = none) :
    (enterAll key value l m).lookup k = some b ↔
      m.lookup k = some b ∨ ∃ i ∈ l, key i = k ∧ value i = b := by
  by_cases hmem : k ∈ l.map key
  · obtain ⟨i, hi, rfl⟩ := mem_map.mp hmem
    rw [lookup_enterAll_of_mem hkeys hi, hnew i hi]
    constructor
    · intro h
      exact .inr ⟨i, hi, rfl, Option.some.inj h⟩
    · rintro (h | ⟨j, hj, hkey, rfl⟩)
      · cases h
      · rw [inj_on_of_nodup_map hkeys hj hi hkey]
  · rw [lookup_enterAll_of_not_mem hmem]
    constructor
    · exact .inl
    · rintro (h | ⟨i, hi, rfl, -⟩)
      · exact h
      · exact absurd (mem_map_of_mem hi) hmem

end

section
variable [AddCommMonoid M] {m : AList fun _ : κ => β} {k : κ} {b : β}

theorem sum_erase (size : (Sigma fun _ : κ => β) → M) (h : m.lookup k = some b) :
    (m.entries.map size).sum = size ⟨k, b⟩ + ((m.erase k).entries.map size).sum := by
  have hmem : k ∈ m.entries.keys := AList.lookup_isSome.mp (by rw [h]; rfl)
  obtain ⟨c, l₁, l₂, hfirst, hsplit, hrest⟩ := exists_of_kerase hmem
  have hc : c = b := by
    have hlook : m.lookup k = some c := by
      rw [← mem_entries_iff, hsplit]
      exact mem_append_right _ mem_cons_self
    exact Option.some.inj (hlook.symm.trans h)
  have herase : (m.erase k).entries = l₁ ++ l₂ := hrest
  rw [herase, hsplit, hc, map_append, map_append, map_cons, sum_append,
    sum_append, sum_cons, add_left_comm]

theorem sum_insert (size : (Sigma fun _ : κ => β) → M) (h : m.lookup k = none) :
    ((m.insert k b).entries.map size).sum = size ⟨k, b⟩ + (m.entries.map size).sum := by
  have hnot : k ∉ m := AList.lookup_eq_none.mp h
  rw [AList.entries_insert_of_notMem hnot, map_cons, sum_cons]

end

end Keyed
