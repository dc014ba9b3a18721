/-
# `Lib.Overwrites` — writes that leave everything as it is

A write has a key.  Writes with one key overwrite each other, and writes with different
keys commute (`Overwriting`).  A list of such writes changes nothing exactly when the last
write of each key changes nothing (`foldl_eq_self_iff`): what came before it under the
same key is gone, and the others do not interfere.
-/
import Divitae.Lib.Records

namespace Overwrites

open List Function

variable {σ ι κ : Type*}

structure Overwriting (op : σ → ι → σ) (key : ι → κ) : Prop where
  again : ∀ s i j, key i = key j → op (op s i) j = op s j
  comm : ∀ s i j, key i ≠ key j → op (op s i) j = op (op s j) i

/-- The entries whose key does not come again. -/
def lasts [DecidableEq κ] (key : ι → κ) : List ι → List ι
  | [] => []
  | i :: l => if key i ∈ l.map key then lasts key l else i :: lasts key l

theorem lasts_map {ι' κ' : Type*} [DecidableEq κ] [DecidableEq κ'] {key : ι → κ} {key' : ι' → κ'}
    {f : ι → ι'} {g : κ → κ'} (hg : Function.Injective g) (hkey : ∀ i, key' (f i) = g (key i)) :
    ∀ l : List ι, lasts key' (l.map f) = (lasts key l).map f
  | [] => rfl
  | i :: l => by
    have hagain : key' (f i) ∈ (l.map f).map key' ↔ key i ∈ l.map key := by
      have hkeys : (l.map f).map key' = (l.map key).map g := by
        rw [map_map, map_map]
        exact map_congr_left fun j _ => hkey j
      rw [hkeys, hkey, mem_map_of_injective hg]
    rw [map_cons, lasts, lasts, lasts_map hg hkey l]
    simp only [hagain]
    split_ifs <;> rfl

theorem exists_mem_lasts [DecidableEq κ] {key : ι → κ} {k : κ} :
    ∀ {l : List ι}, k ∈ l.map key → ∃ i ∈ lasts key l, key i = k
  | [], h => nomatch h
  | j :: l, h => by
    rw [lasts]
    split_ifs with hagain
    · rcases mem_cons.mp h with rfl | hlater
      · exact exists_mem_lasts hagain
      · exact exists_mem_lasts hlater
    · rcases mem_cons.mp h with rfl | hlater
      · exact ⟨j, .head _, rfl⟩
      · obtain ⟨i, hi, hkey⟩ := exists_mem_lasts hlater
        exact ⟨i, mem_cons_of_mem j hi, hkey⟩

section
variable {op : σ → ι → σ} {key : ι → κ} (ow : Overwriting op key)
include ow

variable {l : List ι}

theorem Overwriting.lost {i : ι} (h : key i ∈ l.map key) (s : σ) :
    l.foldl op (op s i) = l.foldl op s := by
  induction l generalizing s with
  | nil => exact nomatch h
  | cons j l ih =>
    show l.foldl op (op (op s i) j) = l.foldl op (op s j)
    rcases eq_or_ne (key i) (key j) with heq | hne
    · rw [ow.again s i j heq]
    · have hlater : key i ∈ l.map key := by
        rcases mem_cons.mp h with heq | hlater
        · exact absurd heq hne
        · exact hlater
      rw [ow.comm s i j hne]
      exact ih hlater (op s j)

theorem Overwriting.late {i : ι} (h : key i ∉ l.map key) (s : σ) :
    l.foldl op (op s i) = op (l.foldl op s) i := by
  induction l generalizing s with
  | nil => rfl
  | cons j l ih =>
    obtain ⟨hne, hlater⟩ := not_or.mp (mt mem_cons.mpr h)
    show l.foldl op (op (op s i) j) = op (l.foldl op (op s j)) i
    rw [ow.comm s i j hne]
    exact ih hlater (op s j)

variable [DecidableEq κ]

theorem Overwriting.there {i : ι} (h : i ∈ lasts key l) (s : σ) :
    op (l.foldl op s) i = l.foldl op s := by
  induction l generalizing s with
  | nil => exact nomatch h
  | cons j l ih =>
    show op (l.foldl op (op s j)) i = l.foldl op (op s j)
    rw [lasts] at h
    split_ifs at h with hagain
    · exact ih h (op s j)
    · rcases mem_cons.mp h with rfl | h
      · rw [ow.late hagain s]
        exact ow.again (l.foldl op s) i i rfl
      · exact ih h (op s j)

/-- **Writes change nothing exactly when the last one of each key does not.** -/
theorem Overwriting.foldl_eq_self_iff {s : σ} :
    l.foldl op s = s ↔ ∀ i ∈ lasts key l, op s i = s := by
  constructor
  · intro hsame i hi
    have hthere := ow.there hi s
    rw [hsame] at hthere
    exact hthere
  · intro hall
    induction l with
    | nil => rfl
    | cons j l ih =>
      show l.foldl op (op s j) = s
      rw [lasts] at hall
      split_ifs at hall with hagain
      · rw [ow.lost hagain s]
        exact ih hall
      · rw [hall j mem_cons_self]
        exact ih fun i hi => hall i (mem_cons_of_mem j hi)

end

open Records

variable [DecidableEq κ] {τ : Type*}

theorem overwriting_write : Overwriting
    (fun (db : Store κ τ) (e : κ × τ) => Function.update db e.1 (some e.2)) Prod.fst where
  again db i j h := by
    rw [h]
    exact update_idem _ _ _
  comm db i j h := update_comm h _ _ _

variable {db : Store κ τ}

theorem write_eq_self_iff {l : List (κ × τ)} :
    write db l = db ↔ ∀ e ∈ lasts Prod.fst l, db e.1 = some e.2 := by
  have hiff := (overwriting_write (κ := κ) (τ := τ)).foldl_eq_self_iff (l := l) (s := db)
  refine hiff.trans (forall₂_congr fun e _ => ?_)
  rw [update_eq_self_iff]
  exact eq_comm

theorem write_last {l : List (κ × τ)} {e : κ × τ}
    (h : e ∈ lasts Prod.fst l) : write db l e.1 = some e.2 := by
  have hthere : Function.update (write db l) e.1 (some e.2) = write db l :=
    overwriting_write.there h db
  rw [← hthere, update_self]

theorem write_erase_eq_self_iff {ks : List κ} {l : List (κ × τ)} :
    write (erase db ks) l = db ↔
      (∀ k ∈ ks, k ∉ l.map Prod.fst → db k = none) ∧ ∀ e ∈ lasts Prod.fst l, db e.1 = some e.2 := by
  constructor
  · intro hsame
    refine ⟨fun k hk hnot => ?_, fun e he => ?_⟩
    · rw [← hsame, write_of_not_mem hnot]
      exact erase_of_mem hk
    · rw [← hsame]
      exact write_last he
  · rintro ⟨hnone, hlast⟩
    funext k
    rcases Classical.em (k ∈ l.map Prod.fst) with hmem | hnot
    · obtain ⟨e, he, rfl⟩ := exists_mem_lasts hmem
      rw [write_last he, hlast e he]
    · rw [write_of_not_mem hnot]
      rcases Classical.em (k ∈ ks) with hk | hk
      · rw [erase_of_mem hk, hnone k hk hnot]
      · exact erase_of_not_mem hk

end Overwrites
