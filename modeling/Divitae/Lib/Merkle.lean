/-
# `Lib.Merkle` — trees that pair an odd last node with itself

A list of leaves is hashed in pairs, level by level, until one node is left.  A level of odd
length pairs its last node with itself, so that a list and the list with its end repeated may
have one root.  Such a repetition shows: at some level the last pair is of two equal nodes.

    pairs l        what is hashed of the level `l`
    above H l      the level above it
    hashed H l     all pairs that are hashed on the way to the root
    mutated H l    some level of even length ends with two equal nodes
    IsLevel H l m  `m` is one of the levels of `l`

Two trees of one root, with nothing repeated in either and no two pairs of one hash in both,
are one the level of the other (`isLevel_of_root_eq`).  Where no leaf is an inner node they
have the same leaves (`eq_of_root_eq`).
-/
import Mathlib.Data.List.Basic
import Mathlib.Logic.Function.Iterate

namespace Merkle

open List

variable {α : Type*} (H : α → α → α)

def pairs : List α → List (α × α)
  | [] => []
  | [a] => [(a, a)]
  | a :: b :: rest => (a, b) :: pairs rest

def above (l : List α) : List α := (pairs l).map fun p => H p.1 p.2

/-- A level of even length that ends with two equal nodes. -/
def endsTwice [DecidableEq α] : List α → Bool
  | a :: b :: rest => if rest.isEmpty then a == b else endsTwice rest
  | _ => false

theorem length_pairs : ∀ l : List α, (pairs l).length = (l.length + 1) / 2
  | [] => by simp [pairs]
  | [a] => by rw [pairs, length_singleton, length_singleton]
  | a :: b :: rest => by
    rw [pairs, length_cons, length_pairs rest, length_cons, length_cons]
    omega

theorem length_above (l : List α) : (above H l).length = (l.length + 1) / 2 := by
  rw [above, length_map, length_pairs]

def root (l : List α) : Option α := if 1 < l.length then root (above H l) else l.head?
termination_by l.length
decreasing_by
  rw [length_above]
  omega

def hashed (l : List α) : List (α × α) := if 1 < l.length then pairs l ++ hashed (above H l) else []
termination_by l.length
decreasing_by
  rw [length_above]
  omega

def mutated [DecidableEq α] (l : List α) : Bool :=
  if 1 < l.length then endsTwice l || mutated (above H l) else false
termination_by l.length
decreasing_by
  rw [length_above]
  omega

/-- The inner nodes. -/
def inner (l : List α) : List α := (hashed H l).map fun p => H p.1 p.2

inductive IsLevel (l : List α) : List α → Prop
  | leaves : IsLevel l l
  | above {m : List α} : IsLevel l m → 1 < m.length → IsLevel l (above H m)

section
variable [DecidableEq α]

theorem pairs_inj : ∀ l l' : List α, endsTwice l = false → endsTwice l' = false →
    pairs l = pairs l' → l = l'
  | [], [], _, _, _ => rfl
  | [], [_], _, _, h => nomatch h
  | [], _ :: _ :: _, _, _, h => nomatch h
  | [_], [], _, _, h => nomatch h
  | [a], [c], _, _, h => by
    have hpair : (a, a) = (c, c) := (cons.inj h).1
    rw [(Prod.mk.inj hpair).1]
  | [a], c :: d :: rest, _, hl', h => by
    obtain ⟨hpair, hrest⟩ := cons.inj h
    obtain ⟨hc, hd⟩ := Prod.mk.inj hpair
    cases rest with
    | nil =>
      -- the last node of the one, paired with itself, is two nodes of the other
      have htwice : endsTwice [c, d] = true := beq_iff_eq.mpr (hc.symm.trans hd)
      rw [htwice] at hl'
      exact nomatch hl'
    | cons e rest => cases rest <;> exact nomatch hrest
  | a :: b :: rest, [c], hl, _, h => by
    obtain ⟨hpair, hrest⟩ := cons.inj h
    obtain ⟨ha, hb⟩ := Prod.mk.inj hpair
    cases rest with
    | nil =>
      have htwice : endsTwice [a, b] = true := beq_iff_eq.mpr (ha.trans hb.symm)
      rw [htwice] at hl
      exact nomatch hl
    | cons e rest => cases rest <;> exact nomatch hrest
  | _ :: _ :: _, [], _, _, h => nomatch h
  | a :: b :: rest, c :: d :: rest', hl, hl', h => by
    have hfree : ∀ {a b : α} {rest : List α}, endsTwice (a :: b :: rest) = false →
        endsTwice rest = false := by
      intro a b rest hends
      cases rest with
      | nil => rfl
      | cons e rest => exact hends
    obtain ⟨hpair, hrest⟩ := cons.inj h
    cases hpair
    rw [pairs_inj rest rest' (hfree hl) (hfree hl') hrest]

end

/-! ## All levels -/

section
variable {H} {l l' m : List α} {a : α}

theorem root_short (hl : l.length ≤ 1) : root H l = l.head? := by
  rw [root, if_neg (Nat.not_lt.mpr hl)]

theorem hashed_short (hl : l.length ≤ 1) : hashed H l = [] := by
  rw [hashed, if_neg (Nat.not_lt.mpr hl)]

theorem mutated_short [DecidableEq α] (hl : l.length ≤ 1) : mutated H l = false := by
  rw [mutated, if_neg (Nat.not_lt.mpr hl)]

theorem inner_short (hl : l.length ≤ 1) : inner H l = [] := by
  rw [inner, hashed_short hl, map_nil]

theorem isLevel_trans (h : IsLevel H (above H l) m) (hl : 1 < l.length) : IsLevel H l m := by
  induction h with
  | leaves => exact .above .leaves hl
  | above _ hm ih => exact .above ih hm

theorem hashed_eq (hm : 1 < m.length) : hashed H m = pairs m ++ hashed H (above H m) := by
  rw [hashed, if_pos hm]

theorem pairs_subset (hm : 1 < m.length) : pairs m ⊆ hashed H m := by
  rw [hashed_eq hm]
  exact subset_append_left _ _

theorem hashed_subset (h : IsLevel H l m) : hashed H m ⊆ hashed H l := by
  induction h with
  | leaves => exact List.Subset.refl _
  | above _ hm ih =>
    rw [hashed_eq hm] at ih
    exact List.Subset.trans (subset_append_right _ _) ih

theorem not_mutated [DecidableEq α] (h : IsLevel H l m) (hl : mutated H l = false) :
    mutated H m = false := by
  induction h with
  | leaves => exact hl
  | above _ hm ih =>
    rw [mutated, if_pos hm, Bool.or_eq_false_iff] at ih
    exact ih.2

theorem not_endsTwice [DecidableEq α] (hl : 1 < l.length) (h : mutated H l = false) :
    endsTwice l = false := by
  rw [mutated, if_pos hl, Bool.or_eq_false_iff] at h
  exact h.1

theorem level_inner (h : IsLevel H l m) : m = l ∨ ∀ a ∈ m, a ∈ inner H l := by
  cases h with
  | leaves => exact .inl rfl
  | above h hm =>
    right
    intro a ha
    obtain ⟨p, hp, rfl⟩ := mem_map.mp ha
    exact mem_map.mpr ⟨p, hashed_subset h (pairs_subset hm hp), rfl⟩

theorem root_isLevel (l : List α) (h : root H l = some a) : IsLevel H l [a] := by
  rw [root] at h
  split_ifs at h with hl
  · exact isLevel_trans (root_isLevel (above H l) h) hl
  · match l, hl, h with
    | [b], _, h =>
      obtain rfl : b = a := Option.some.inj h
      exact .leaves
    | _ :: _ :: _, hl, _ => exact absurd (by simp) hl
termination_by l.length
decreasing_by
  rw [length_above]
  omega

theorem inner_eq (hm : 1 < m.length) : inner H m = above H m ++ inner H (above H m) := by
  rw [inner, hashed_eq hm, map_append]
  rfl

theorem getLast?_inner (l : List α) : (l ++ inner H l).getLast? = root H l := by
  rw [root]
  split_ifs with hl
  · have hne : above H l ++ inner H (above H l) ≠ [] := by
      intro hnil
      have hlength := length_above H l
      rw [(append_eq_nil_iff.mp hnil).1, length_nil] at hlength
      omega
    rw [inner_eq hl, List.getLast?_append_of_ne_nil _ hne]
    exact getLast?_inner (above H l)
  · rw [inner_short (Nat.not_lt.mp hl), append_nil]
    match l, hl with
    | [], _ => rfl
    | [_], _ => rfl
    | _ :: _ :: _, hl => exact absurd (by simp) hl
termination_by l.length
decreasing_by
  rw [length_above]
  omega

/-! ## Nodes by position -/

theorem getElem?_pairs : ∀ (l : List α) (pos : ℕ), (pairs l)[pos]? =
    l[pos * 2]?.map fun a => (a, l[pos * 2 + 1]?.getD a)
  | [], _ => rfl
  | [_], 0 => rfl
  | [_], _ + 1 => rfl
  | _ :: _ :: _, 0 => rfl
  | a :: b :: rest, pos + 1 => by
    rw [pairs, List.getElem?_cons_succ, getElem?_pairs rest pos, Nat.succ_mul]
    rfl

theorem getElem?_above (l : List α) (pos : ℕ) : (above H l)[pos]? =
    l[pos * 2]?.map fun a => H a (l[pos * 2 + 1]?.getD a) := by
  rw [above, List.getElem?_map, getElem?_pairs, Option.map_map]
  rfl

theorem level_at {k : ℕ} (hk : ∀ j < k, 1 < ((above H)^[j] l).length) :
    IsLevel H l ((above H)^[k] l) ∧ root H ((above H)^[k] l) = root H l := by
  induction k with
  | zero => exact ⟨.leaves, rfl⟩
  | succ k ih =>
    obtain ⟨hlevel, hroot⟩ := ih fun j hj => hk j (Nat.lt_succ_of_lt hj)
    have hnext := hk k (Nat.lt_succ_self k)
    rw [Function.iterate_succ_apply']
    refine ⟨.above hlevel hnext, ?_⟩
    rw [← hroot, root.eq_def H ((above H)^[k] l), if_pos hnext]

/-- No two of the pairs have one hash. -/
def NoCollision (H : α → α → α) (ps : List (α × α)) : Prop :=
  ∀ p ∈ ps, ∀ q ∈ ps, H p.1 p.2 = H q.1 q.2 → p = q

variable {ps : List (α × α)}

instance [DecidableEq α] : Decidable (NoCollision H ps) :=
  inferInstanceAs (Decidable (∀ p ∈ ps, _))

theorem above_inj [DecidableEq α] (hps : NoCollision H ps)
    (hl : pairs l ⊆ ps) (hl' : pairs l' ⊆ ps) (hends : endsTwice l = false)
    (hends' : endsTwice l' = false) (h : above H l = above H l') : l = l' := by
  refine pairs_inj l l' hends hends' ?_
  have hmap : ∀ qs qs' : List (α × α), qs ⊆ ps → qs' ⊆ ps →
      (qs.map fun p => H p.1 p.2) = (qs'.map fun p => H p.1 p.2) → qs = qs' := by
    intro qs
    induction qs with
    | nil =>
      intro qs' _ _ heq
      exact (map_eq_nil_iff.mp heq.symm).symm
    | cons p qs ih =>
      intro qs' hqs hqs' heq
      cases qs' with
      | nil => exact nomatch heq
      | cons q qs' =>
        obtain ⟨hhead, htail⟩ := cons.inj heq
        have hpq : p = q := hps p (hqs mem_cons_self) q (hqs' mem_cons_self) hhead
        rw [hpq, ih qs' (fun x hx => hqs (mem_cons_of_mem p hx))
          (fun x hx => hqs' (mem_cons_of_mem q hx)) htail]
  exact hmap (pairs l) (pairs l') hl hl' h

theorem isLevel_below [DecidableEq α] (hps : NoCollision H ps)
    (hl : 1 < l.length) (hl' : 1 < l'.length) (hsub : hashed H l ⊆ ps)
    (hsub' : hashed H l' ⊆ ps) (hmutated : mutated H l = false) (hmutated' : mutated H l' = false)
    (h : IsLevel H (above H l') (above H l)) : IsLevel H l' l := by
  have hlevel : ∃ m, IsLevel H l' m ∧ 1 < m.length ∧ above H m = above H l := by
    generalize hx : above H l = x at h
    cases h with
    | leaves => exact ⟨l', .leaves, hl', rfl⟩
    | above h hm => exact ⟨_, isLevel_trans h hl', hm, rfl⟩
  obtain ⟨m, hm, hmlength, hsame⟩ := hlevel
  have hml : m = l := above_inj hps
    (fun p hp => hsub' (hashed_subset hm (pairs_subset hmlength hp)))
    (fun p hp => hsub (pairs_subset hl hp))
    (not_endsTwice hmlength (not_mutated hm hmutated')) (not_endsTwice hl hmutated) hsame
  exact hml ▸ hm

/-- **Of two trees with one root, one is a level of the other.** -/
theorem isLevel_of_root_eq [DecidableEq α] (hps : NoCollision H ps)
    (l l' : List α) (hsub : hashed H l ⊆ ps) (hsub' : hashed H l' ⊆ ps)
    (hmutated : mutated H l = false) (hmutated' : mutated H l' = false)
    (hroot : root H l = some a) (hroot' : root H l' = some a) :
    IsLevel H l l' ∨ IsLevel H l' l := by
  rcases Nat.lt_or_ge 1 l.length with hl | hl
  · rcases Nat.lt_or_ge 1 l'.length with hl' | hl'
    · have hup : ∀ {k : List α}, 1 < k.length → hashed H k ⊆ ps → mutated H k = false →
          root H k = some a → hashed H (above H k) ⊆ ps ∧ mutated H (above H k) = false ∧
            root H (above H k) = some a := by
        intro k hk hksub hkmutated hkroot
        have hlevel : IsLevel H k (above H k) := .above .leaves hk
        rw [root, if_pos hk] at hkroot
        exact ⟨fun p hp => hksub (hashed_subset hlevel hp), not_mutated hlevel hkmutated, hkroot⟩
      obtain ⟨hs, hm, hr⟩ := hup hl hsub hmutated hroot
      obtain ⟨hs', hm', hr'⟩ := hup hl' hsub' hmutated' hroot'
      rcases isLevel_of_root_eq hps (above H l) (above H l') hs hs' hm hm' hr hr' with h | h
      · exact .inl (isLevel_below hps hl' hl hsub' hsub hmutated' hmutated h)
      · exact .inr (isLevel_below hps hl hl' hsub hsub' hmutated hmutated' h)
    · left
      have hsingle : l' = [a] := by
        rw [root_short hl'] at hroot'
        match l', hl', hroot' with
        | [b], _, h => rw [Option.some.inj h]
        | _ :: _ :: _, hl', _ => exact absurd hl' (by simp)
      rw [hsingle]
      exact root_isLevel l hroot
  · right
    have hsingle : l = [a] := by
      rw [root_short hl] at hroot
      match l, hl, hroot with
      | [b], _, h => rw [Option.some.inj h]
      | _ :: _ :: _, hl, _ => exact absurd hl (by simp)
    rw [hsingle]
    exact root_isLevel l' hroot'
termination_by l.length
decreasing_by
  rw [length_above]
  omega

/-- **Two trees with one root have the same leaves**, where no leaf is an inner node. -/
theorem eq_of_root_eq [DecidableEq α] (hcollision : NoCollision H (hashed H l ++ hashed H l'))
    (hleaves : ∀ b ∈ l, b ∉ inner H l') (hleaves' : ∀ b ∈ l', b ∉ inner H l)
    (hmutated : mutated H l = false) (hmutated' : mutated H l' = false)
    (hroot : root H l = some a) (hroot' : root H l' = some a) : l = l' := by
  have hnil : ∀ {k : List α}, root H k = some a → k ≠ [] := by
    rintro k hk rfl
    rw [root_short (l := []) (Nat.zero_le 1)] at hk
    exact nomatch hk
  -- a level made of inner nodes has a node, which is then a leaf of the other tree
  have honly : ∀ {k k' : List α}, IsLevel H k k' → k' ≠ [] →
      (∀ b ∈ k', b ∉ inner H k) → k' = k := by
    intro k k' hlevel hne hno
    rcases level_inner hlevel with heq | hinner
    · exact heq
    · obtain ⟨b, hb⟩ := exists_mem_of_ne_nil k' hne
      exact absurd (hinner b hb) (hno b hb)
  rcases isLevel_of_root_eq hcollision l l' (subset_append_left _ _)
    (subset_append_right _ _) hmutated hmutated' hroot hroot' with h | h
  · exact (honly h (hnil hroot') hleaves').symm
  · exact honly h (hnil hroot) hleaves

end

end Merkle
