/-
# `Lib.SortedMap` — a map that is walked in the order of its keys

    get m k        what is under a key
    put m k b      `m[k] = b`
    add m k b      `insert`: nothing happens where the key is there already
    erase m k
    findKey p m    the first key whose value has `p`

The entries stand in order, so a key is there once (`mem_entries_iff`), and a walk over them meets
each key once (`SortedMap.nodup`).
-/
import Mathlib.Data.List.Pairwise
import Mathlib.Data.List.Nodup
import Mathlib.Order.Lattice

structure SortedMap (κ β : Type*) [LinearOrder κ] where
  entries : List (κ × β)
  sorted : entries.Pairwise fun a b => a.1 < b.1

namespace SortedMap

open List

variable {κ β : Type*} [LinearOrder κ]

def lookup (k : κ) : List (κ × β) → Option β
  | [] => none
  | e :: l => if e.1 = k then some e.2 else lookup k l

def enter (k : κ) (b : β) : List (κ × β) → List (κ × β)
  | [] => [(k, b)]
  | e :: l =>
    if k < e.1 then (k, b) :: e :: l
    else if e.1 = k then (k, b) :: l
    else e :: enter k b l

/-! ## The lists -/

section
variable {k k' : κ} {b : β} {e : κ × β} {l : List (κ × β)}

theorem mem_enter (h : e ∈ enter k b l) : e = (k, b) ∨ e ∈ l := by
  induction l with
  | nil => exact .inl (mem_singleton.mp h)
  | cons d l ih =>
    rw [enter] at h
    split_ifs at h
    · exact mem_cons.mp h
    · exact (mem_cons.mp h).imp id (mem_cons_of_mem d)
    · rcases mem_cons.mp h with rfl | hl
      · exact Or.inr mem_cons_self
      · exact (ih hl).imp id (mem_cons_of_mem d)

theorem pairwise_enter (h : l.Pairwise fun a b => a.1 < b.1) :
    (enter k b l).Pairwise fun a b => a.1 < b.1 := by
  induction l with
  | nil => exact pairwise_singleton _ _
  | cons d l ih =>
    obtain ⟨hfirst, hrest⟩ := pairwise_cons.mp h
    rw [enter]
    split_ifs with hless heq
    · refine pairwise_cons.mpr ⟨fun e he => ?_, h⟩
      rcases mem_cons.mp he with rfl | hl
      · exact hless
      · exact lt_trans hless (hfirst e hl)
    · exact pairwise_cons.mpr ⟨fun e he => heq ▸ hfirst e he, hrest⟩
    · refine pairwise_cons.mpr ⟨fun e he => ?_, ih hrest⟩
      rcases mem_enter he with rfl | hl
      · exact lt_of_le_of_ne (not_lt.mp hless) heq
      · exact hfirst e hl

theorem lookup_enter : lookup k' (enter k b l) = if k' = k then some b else lookup k' l := by
  induction l with
  | nil =>
    exact if_congr eq_comm rfl rfl
  | cons d l ih =>
    rw [enter]
    by_cases hk : k' = k
    · rw [if_pos hk] at ih ⊢
      split_ifs with hless heq
      · rw [lookup, if_pos hk.symm]
      · rw [lookup, if_pos hk.symm]
      · rw [lookup, if_neg (fun h => heq (h.trans hk)), ih]
    · rw [if_neg hk] at ih ⊢
      split_ifs with hless heq
      · rw [lookup, if_neg (Ne.symm hk)]
      · rw [lookup, if_neg (Ne.symm hk), lookup, if_neg (fun h => hk (h.symm.trans heq))]
      · rw [lookup, lookup, ih]

theorem lookup_filter_ne :
    lookup k' (l.filter fun e => decide (e.1 ≠ k)) = if k' = k then none else lookup k' l := by
  induction l with
  | nil =>
    exact (ite_self none).symm
  | cons d l ih =>
    by_cases hd : d.1 = k
    · rw [filter_cons_of_neg (by simpa using hd), ih]
      split_ifs with hk
      · rfl
      · rw [lookup, if_neg (fun h => hk (h.symm.trans hd))]
    · rw [filter_cons_of_pos (by simpa using hd), lookup, ih]
      split_ifs with hk' hk hk
      · exact absurd (hk'.trans hk) hd
      · rw [lookup, if_pos hk']
      · rfl
      · rw [lookup, if_neg hk']

theorem mem_iff_lookup (h : l.Pairwise fun a b => a.1 < b.1) :
    (k, b) ∈ l ↔ lookup k l = some b := by
  induction l with
  | nil => exact iff_of_false not_mem_nil nofun
  | cons d l ih =>
    obtain ⟨hfirst, hrest⟩ := pairwise_cons.mp h
    rw [lookup, mem_cons, ih hrest]
    split_ifs with hk
    · constructor
      · rintro (rfl | hl)
        · rfl
        · exact absurd hk (ne_of_lt (hfirst _ ((ih hrest).mpr hl)))
      · intro hb
        exact .inl (Prod.ext hk.symm (Option.some.inj hb).symm)
    · constructor
      · rintro (rfl | hl)
        · exact absurd rfl hk
        · exact hl
      · exact .inr

end

/-! ## The map -/

def empty : SortedMap κ β := ⟨[], List.Pairwise.nil⟩

def get (m : SortedMap κ β) (k : κ) : Option β := lookup k m.entries

def put (m : SortedMap κ β) (k : κ) (b : β) : SortedMap κ β :=
  ⟨enter k b m.entries, pairwise_enter m.sorted⟩

def add (m : SortedMap κ β) (k : κ) (b : β) : SortedMap κ β :=
  if (m.get k).isSome then m else m.put k b

def erase (m : SortedMap κ β) (k : κ) : SortedMap κ β :=
  ⟨m.entries.filter fun e => decide (e.1 ≠ k), m.sorted.filter _⟩

/-- The first key whose value has `p`. -/
def findKey (p : β → Bool) (m : SortedMap κ β) : Option κ :=
  (m.entries.find? fun e => p e.2).map Prod.fst

section
variable {m : SortedMap κ β} {k k' : κ} {b : β}

theorem get_put : (m.put k b).get k' = if k' = k then some b else m.get k' := lookup_enter

@[simp] theorem get_put_self : (m.put k b).get k = some b := by
  rw [get_put, if_pos rfl]

theorem get_erase : (m.erase k).get k' = if k' = k then none else m.get k' := lookup_filter_ne

@[simp] theorem get_erase_self : (m.erase k).get k = none := by
  rw [get_erase, if_pos rfl]

theorem get_erase_ne (h : k' ≠ k) : (m.erase k).get k' = m.get k' := by
  rw [get_erase, if_neg h]

theorem add_of_some (h : (m.get k).isSome = true) : m.add k b = m := if_pos h

theorem add_of_none (h : m.get k = none) : m.add k b = m.put k b := by
  rw [add, h]
  rfl

theorem mem_entries_iff : (k, b) ∈ m.entries ↔ m.get k = some b := mem_iff_lookup m.sorted

variable {p : β → Bool}

theorem findKey_some (h : m.findKey p = some k) :
    ∃ b, m.get k = some b ∧ p b = true := by
  obtain ⟨e, he, rfl⟩ := Option.map_eq_some_iff.mp h
  have hp := List.find?_some he
  exact ⟨e.2, mem_entries_iff.mp (mem_of_find?_eq_some he), hp⟩

theorem findKey_none (h : m.findKey p = none) (hb : m.get k = some b) :
    p b = false := by
  have hnone := List.find?_eq_none.mp (Option.map_eq_none_iff.mp h) (k, b) (mem_entries_iff.mpr hb)
  simpa using hnone

theorem findKey_eq_some (hb : m.get k = some b) (hp : p b = true)
    (hleast : ∀ k' < k, ∀ b', m.get k' = some b' → p b' = false) : m.findKey p = some k := by
  cases hfind : m.findKey p with
  | none => exact absurd (findKey_none hfind hb) (by simp [hp])
  | some first =>
    obtain ⟨e, he, rfl⟩ := Option.map_eq_some_iff.mp hfind
    obtain ⟨he', before, behind, hentries, hbefore⟩ := List.find?_eq_some_iff_append.mp he
    have hsorted := m.sorted
    rw [hentries] at hsorted
    have hmem : (k, b) ∈ before ++ e :: behind := hentries ▸ mem_entries_iff.mpr hb
    rcases mem_append.mp hmem with hin | hin
    · exact absurd (hbefore _ hin) (by simp [hp])
    · rcases mem_cons.mp hin with rfl | hlater
      · rfl
      · have hless := (pairwise_cons.mp (pairwise_append.mp hsorted).2.1).1 _ hlater
        have hget : m.get e.1 = some e.2 := mem_entries_iff.mp (mem_of_find?_eq_some he)
        exact absurd (hleast e.1 hless e.2 hget) (by simp [he'])

end

end SortedMap
