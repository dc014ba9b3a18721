/-
# `Lib.Records` — a store of keys kept beside a stack of blocks

A block brings keys, each with the name of what brought it.  A store remembers for each
key one name; a block put on the stack writes its keys, a block taken off erases them.

    write db l     the pairs of `l` entered, a later pair over an earlier one
    erase db ks    the keys of `ks` gone
    Kept           no key twice in the stack, and the store has all of them

`Kept` survives a push of new keys, and every pop.  A store may know more than the stack;
what it knows of a name says nothing as long as the name is not in the stack.
-/
import Mathlib.Data.List.Nodup

namespace Records

open List Function

variable {κ τ β : Type*}

abbrev Store (κ τ : Type*) := κ → Option τ

section
variable [DecidableEq κ]

def write (db : Store κ τ) (l : List (κ × τ)) : Store κ τ :=
  l.foldl (fun db e => Function.update db e.1 (some e.2)) db

def erase (db : Store κ τ) (ks : List κ) : Store κ τ := fun k => if k ∈ ks then none else db k

variable {db : Store κ τ} {l : List (κ × τ)} {ks : List κ} {k : κ} {t : τ}

theorem erase_of_mem (h : k ∈ ks) : erase db ks k = none := if_pos h

theorem erase_of_not_mem (h : k ∉ ks) : erase db ks k = db k := if_neg h

theorem erase_nil (db : Store κ τ) : erase db [] = db := by
  funext k
  exact erase_of_not_mem not_mem_nil

theorem erase_erase (db : Store κ τ) (ks ks' : List κ) :
    erase (erase db ks) ks' = erase db (ks ++ ks') := by
  funext k
  show (if k ∈ ks' then none else if k ∈ ks then none else db k) =
    if k ∈ ks ++ ks' then none else db k
  rcases Classical.em (k ∈ ks') with h | h
  · rw [if_pos h, if_pos (mem_append_right ks h)]
  · rw [if_neg h]
    refine if_congr ⟨mem_append_left ks', ?_⟩ rfl rfl
    exact fun hmem => (mem_append.mp hmem).resolve_right h

theorem write_append (db : Store κ τ) (l l' : List (κ × τ)) :
    write db (l ++ l') = write (write db l) l' := foldl_append

theorem erase_eq_some : erase db ks k = some t ↔ k ∉ ks ∧ db k = some t := by
  by_cases h : k ∈ ks
  · rw [erase_of_mem h]
    exact iff_of_false nofun fun hn => hn.1 h
  · rw [erase_of_not_mem h]
    exact ⟨fun hk => ⟨h, hk⟩, fun hk => hk.2⟩

theorem write_of_not_mem (h : k ∉ l.map Prod.fst) : write db l k = db k := by
  induction l generalizing db with
  | nil => rfl
  | cons e l ih =>
    obtain ⟨hne, hrest⟩ := not_or.mp (mt mem_cons.mpr h)
    show write (Function.update db e.1 (some e.2)) l k = db k
    rw [ih hrest, update_of_ne hne]

theorem write_eq_some (h : write db l k = some t) : (k, t) ∈ l ∨ db k = some t := by
  induction l generalizing db with
  | nil => exact .inr h
  | cons e l ih =>
    have hlater : (k, t) ∈ l ∨ Function.update db e.1 (some e.2) k = some t := ih h
    rcases hlater with hmem | hbefore
    · exact .inl (mem_cons_of_mem e hmem)
    · rcases eq_or_ne k e.1 with rfl | hne
      · rw [update_self] at hbefore
        cases hbefore
        exact Or.inl mem_cons_self
      · rw [update_of_ne hne] at hbefore
        exact .inr hbefore

theorem write_of_only (h : k ∈ l.map Prod.fst) (honly : ∀ t', (k, t') ∈ l → t' = t) :
    write db l k = some t := by
  induction l generalizing db with
  | nil => exact nomatch h
  | cons e l ih =>
    have hrest : ∀ t', (k, t') ∈ l → t' = t := fun t' ht => honly t' (mem_cons_of_mem e ht)
    by_cases hlater : k ∈ l.map Prod.fst
    · exact ih hlater hrest
    · obtain rfl : k = e.1 := (mem_cons.mp h).resolve_right hlater
      show write (Function.update db e.1 (some e.2)) l e.1 = some t
      rw [write_of_not_mem hlater, update_self, honly e.2 mem_cons_self]

theorem write_of_mem (hapart : (l.map Prod.fst).Nodup) (h : (k, t) ∈ l) :
    write db l k = some t := by
  refine write_of_only (mem_map.mpr ⟨(k, t), h, rfl⟩) ?_
  intro t' ht'
  exact congrArg Prod.snd (inj_on_of_nodup_map hapart ht' h rfl)

theorem write_mem (db : Store κ τ) (h : k ∈ l.map Prod.fst) :
    ∃ t, (k, t) ∈ l ∧ write db l k = some t := by
  induction l generalizing db with
  | nil => exact nomatch h
  | cons e l ih =>
    by_cases hlater : k ∈ l.map Prod.fst
    · obtain ⟨t, hmem, hread⟩ := ih (Function.update db e.1 (some e.2)) hlater
      exact ⟨t, mem_cons_of_mem e hmem, hread⟩
    · obtain rfl : k = e.1 := (mem_cons.mp h).resolve_right hlater
      refine ⟨e.2, .head _, ?_⟩
      show write (Function.update db e.1 (some e.2)) l e.1 = some e.2
      rw [write_of_not_mem hlater, update_self]

theorem write_agree (h : k ∈ l.map Prod.fst) (db db' : Store κ τ) :
    write db l k = write db' l k := by
  induction l generalizing db db' with
  | nil => exact nomatch h
  | cons e l ih =>
    by_cases hlater : k ∈ l.map Prod.fst
    · exact ih hlater _ _
    · obtain rfl : k = e.1 := (mem_cons.mp h).resolve_right hlater
      show write (Function.update db e.1 (some e.2)) l e.1 =
        write (Function.update db' e.1 (some e.2)) l e.1
      rw [write_of_not_mem hlater, write_of_not_mem hlater, update_self, update_self]

/-- The two lists leave the same behind, whatever was there. -/
def SameWrites (l l' : List (κ × τ)) : Prop := ∀ db : Store κ τ, write db l = write db l'

theorem SameWrites.refl (l : List (κ × τ)) : SameWrites l l := fun _ => rfl

theorem SameWrites.append {l₁ l₁' l₂ l₂' : List (κ × τ)} (h₁ : SameWrites l₁ l₁')
    (h₂ : SameWrites l₂ l₂') : SameWrites (l₁ ++ l₂) (l₁' ++ l₂') := by
  intro db
  rw [write_append, write_append, h₁ db, h₂]

theorem SameWrites.repeated (hname : ∀ e ∈ l, e.2 = t) (n : Nat) :
    SameWrites (List.replicate (n + 1) l).flatten l := by
  intro db
  induction n with
  | zero => rw [replicate_one, flatten_singleton]
  | succ n ih =>
    rw [replicate_succ', flatten_append, flatten_singleton, write_append, ih]
    funext k
    by_cases hk : k ∈ l.map Prod.fst
    · have honly : ∀ t', (k, t') ∈ l → t' = t := fun t' ht' => hname (k, t') ht'
      rw [write_of_only hk honly, write_of_only hk honly]
    · rw [write_of_not_mem hk]

end

/-! ## Beside a stack -/

/-- The store knows the keys of the blocks, and no two of them are the same. -/
structure Kept (keysOf : β → List (κ × τ)) (blocks : List β) (db : Store κ τ) : Prop where
  once : ((blocks.flatMap keysOf).map Prod.fst).Nodup
  recorded : ∀ k t, (k, t) ∈ blocks.flatMap keysOf → db k = some t

/-- The keys of a block are apart, and none is in the stack. -/
structure Fresh (keysOf : β → List (κ × τ)) (blocks : List β) (b : β) : Prop where
  apart : ((keysOf b).map Prod.fst).Nodup
  new : ∀ k ∈ (keysOf b).map Prod.fst, k ∉ (blocks.flatMap keysOf).map Prod.fst

section
variable {keysOf : β → List (κ × τ)} {blocks : List β} {b : β} {db : Store κ τ}

theorem fresh_iff (h : ((blocks.flatMap keysOf).map Prod.fst).Nodup) :
    Fresh keysOf blocks b ↔ (((b :: blocks).flatMap keysOf).map Prod.fst).Nodup := by
  rw [flatMap_cons, map_append]
  constructor
  · rintro ⟨hapart, hnew⟩
    exact hapart.append h hnew
  · intro hall
    obtain ⟨hapart, -, hnew⟩ := nodup_append'.mp hall
    exact ⟨hapart, fun k hk => hnew hk⟩

variable [DecidableEq κ]

section
variable (h : Kept keysOf blocks db) (hb : Fresh keysOf blocks b)
include h hb

theorem Kept.write :
    Kept keysOf blocks (write db (keysOf b)) := by
  refine ⟨h.once, ?_⟩
  intro k t hmem
  have hk : k ∉ (keysOf b).map Prod.fst := fun hk =>
    hb.new k hk (mem_map.mpr ⟨(k, t), hmem, rfl⟩)
  rw [write_of_not_mem hk]
  exact h.recorded k t hmem

theorem Kept.push :
    Kept keysOf (b :: blocks) (Records.write db (keysOf b)) := by
  refine ⟨(fresh_iff h.once).mp hb, ?_⟩
  intro k t hmem
  rcases mem_append.mp hmem with hnew | hold
  · exact write_of_mem hb.apart hnew
  · exact (h.write hb).recorded k t hold

end

theorem Kept.pop (h : Kept keysOf (b :: blocks) db) {ks : List κ}
    (hks : ∀ k ∈ ks, k ∈ (keysOf b).map Prod.fst) : Kept keysOf blocks (erase db ks) := by
  have honce := h.once
  rw [flatMap_cons, map_append] at honce
  obtain ⟨-, hrest, hnew⟩ := nodup_append'.mp honce
  refine ⟨hrest, ?_⟩
  intro k t hmem
  have hk : k ∉ ks := fun hk => hnew (hks k hk) (mem_map.mpr ⟨(k, t), hmem, rfl⟩)
  rw [erase_of_not_mem hk]
  exact h.recorded k t (mem_append_right _ hmem)

end

end Records
