/-
# `ModifierSelection` — the blocks a stake modifier is made of

When a new stake modifier is due, `ComputeNextStakeModifier` lists the ancestors of the
selection interval by time and selects one of them in each of at most 64 rounds.  A scan
of the list stops early at a block behind the round's time limit, which is right because
the list is in order and every block of it is in `mapBlockIndex`:

    Listed N items U            the list is that of the blocks `U`, in order, none twice
    Selecting … picks           what the rounds so far have selected, one block a round
    selectRounds_selecting      every round of at most as many as there are candidates
                                finds one, so no round fails

`next_modifier_selects` says this for every chain of an index on which a new modifier is due.
-/
import Divitae.StakeModifier
import Divitae.Lib.Scan

namespace Divitae

open List KernelIndex

/-! ## The candidates -/

/-- A block as `ComputeNextStakeModifier` lists it. -/
def KernelIndex.item (pindex : KernelIndex) : Int × uint256 := (pindex.GetBlockTime, pindex.hash)

/-- The blocks of the selection interval, by time. -/
def candidates (N : KernelProcess) (nSelectionIntervalStart : Int) (pindexPrev : Branch) :
    List KernelIndex :=
  (sortedCandidates nSelectionIntervalStart pindexPrev).filterMap fun item =>
    (N.mapBlockIndex item.2).bind List.head?

/-- The list `items` is that of the blocks `U`. -/
structure Listed (N : KernelProcess) (items : List (Int × uint256)) (U : List KernelIndex) :
    Prop where
  items_eq : items = U.map KernelIndex.item
  found : ∀ pindex ∈ U, (N.mapBlockIndex pindex.hash).bind List.head? = some pindex
  sorted : U.Pairwise fun a b => a.GetBlockTime ≤ b.GetBlockTime
  distinct : (U.map KernelIndex.hash).Nodup

section
variable {N : KernelProcess}

section
variable {branch : Branch} (h : Linked N branch) {pindex : KernelIndex} (hmem : pindex ∈ branch)
include h hmem

theorem Linked.found : (N.mapBlockIndex pindex.hash).bind List.head? = some pindex := by
  induction branch with
  | nil => exact nomatch hmem
  | cons e rest ih =>
    rcases mem_cons.mp hmem with rfl | hmem
    · rw [h.1]
      rfl
    · exact ih h.2 hmem

theorem Linked.length_le {b : Branch} (hb : N.mapBlockIndex pindex.hash = some b) :
    b.length ≤ branch.length := by
  induction branch with
  | nil => exact nomatch hmem
  | cons e rest ih =>
    rcases mem_cons.mp hmem with rfl | hmem
    · rw [h.1, Option.some.injEq] at hb
      rw [hb]
    · exact le_trans (ih h.2 hmem) (Nat.le_succ _)

end

theorem Linked.distinct {branch : Branch} (h : Linked N branch) :
    (branch.map hash).Nodup := by
  induction branch with
  | nil => exact nodup_nil
  | cons e rest ih =>
    rw [map_cons, nodup_cons]
    refine ⟨?_, ih h.2⟩
    intro hagain
    obtain ⟨pindex, hmem, hhash⟩ := mem_map.mp hagain
    have hlen := h.2.length_le hmem (hhash ▸ h.1)
    rw [length_cons] at hlen
    omega

instance : Std.Total pairLE where
  total a b := by
    rcases lt_trichotomy a.1 b.1 with h | h | h
    · exact .inl (.inl h)
    · rcases BitVec.le_total a.2 b.2 with hle | hle
      · exact .inl (.inr ⟨h, hle⟩)
      · exact .inr (.inr ⟨h.symm, hle⟩)
    · exact .inr (.inl h)

instance : IsTrans (Int × uint256) pairLE where
  trans a b c hab hbc := by
    rcases hab with hab | ⟨hab, hab'⟩
    · rcases hbc with hbc | ⟨hbc, -⟩
      · exact .inl (hab.trans hbc)
      · exact .inl (hbc ▸ hab)
    · rcases hbc with hbc | ⟨hbc, hbc'⟩
      · exact .inl (hab ▸ hbc)
      · exact .inr ⟨hab.trans hbc, BitVec.le_trans hab' hbc'⟩

theorem pairLE.time_le {a b : Int × uint256} (h : pairLE a b) : a.1 ≤ b.1 := by
  rcases h with h | ⟨h, -⟩
  · exact le_of_lt h
  · exact le_of_eq h

variable {nStart : Int} {branch : Branch}

theorem mem_sortedCandidates {item : Int × uint256} (h : item ∈ sortedCandidates nStart branch) :
    ∃ pindex ∈ branch, pindex.item = item := by
  rw [sortedCandidates, mem_insertionSort, mem_reverse, mem_map] at h
  obtain ⟨pindex, hmem, heq⟩ := h
  exact ⟨pindex, ( takeWhile_prefix _).subset hmem, heq⟩

theorem items_candidates (hlinked : Linked N branch) {items : List (Int × uint256)}
    (h : ∀ item ∈ items, ∃ pindex ∈ branch, pindex.item = item) :
    (items.filterMap fun item => (N.mapBlockIndex item.2).bind List.head?).map item = items := by
  induction items with
  | nil => rfl
  | cons item rest ih =>
    obtain ⟨pindex, hmem, rfl⟩ := h item mem_cons_self
    have hfound : (N.mapBlockIndex pindex.item.2).bind List.head? = some pindex :=
      hlinked.found hmem
    have hcons : ((pindex.item :: rest).filterMap fun item =>
        (N.mapBlockIndex item.2).bind List.head?) = pindex :: rest.filterMap fun item =>
          (N.mapBlockIndex item.2).bind List.head? := filterMap_cons_some hfound
    rw [hcons, map_cons]
    exact congrArg _ (ih fun i hi => h i (.tail _ hi))

/-- The blocks of a chain that are candidates: back to the first one that is too old. -/
def inInterval (nStart : Int) (branch : Branch) : List KernelIndex :=
  branch.takeWhile fun pindex => pindex.GetBlockTime ≥ nStart

theorem candidates_perm (hlinked : Linked N branch) :
    (candidates N nStart branch).Perm (inInterval nStart branch) := by
  have hitems : (sortedCandidates nStart branch).Perm
      (((inInterval nStart branch).map item).reverse) := perm_insertionSort _ _
  have hback : ((inInterval nStart branch).map item).filterMap
      (fun item => (N.mapBlockIndex item.2).bind List.head?) = inInterval nStart branch := by
    rw [filterMap_map]
    refine (filterMap_congr ?_).trans filterMap_some
    intro pindex hmem
    exact hlinked.found (( takeWhile_prefix _).subset hmem)
  have hperm := (hitems.trans (reverse_perm _)).filterMap fun item =>
    (N.mapBlockIndex item.2).bind List.head?
  rw [hback] at hperm
  exact hperm

theorem candidates_listed (hlinked : Linked N branch) :
    Listed N (sortedCandidates nStart branch) (candidates N nStart branch) := by
  have hitems : (candidates N nStart branch).map item =
      sortedCandidates nStart branch := items_candidates hlinked fun _ => mem_sortedCandidates
  have hperm := @candidates_perm _ nStart _ hlinked
  have hsub : (inInterval nStart branch).Sublist branch := ( takeWhile_prefix _).sublist
  refine ⟨hitems.symm, ?_, ?_, ?_⟩
  · intro pindex hmem
    exact hlinked.found (hsub.subset (hperm.subset hmem))
  · have hsorted : (sortedCandidates nStart branch).Pairwise pairLE :=
      pairwise_insertionSort _ _
    rw [← hitems, pairwise_map] at hsorted
    exact hsorted.imp fun h => h.time_le
  · exact (hperm.map _).nodup_iff.mpr (List.Nodup.sublist (hsub.map _) hlinked.distinct)

end

/-! ## One round -/

/-- Which of the two ways to hash: the first candidate's height decides. -/
def modifierV2 (P : CChainParams) (U : List KernelIndex) : Bool :=
  U.head?.any fun pindex => pindex.nHeight ≥ P.nModifierUpdateBlock

/-- The candidates not selected yet. -/
def unselected (U picks : List KernelIndex) : List KernelIndex :=
  U.filter fun pindex => !decide (pindex.hash ∈ picks.map KernelIndex.hash)

section
variable (C : Crypto) (P : CChainParams)

/-- The selection hash as a number. -/
def selectionScore (fModifierV2 : Bool) (nStakeModifierPrev : BitVec 64) (pindex : KernelIndex) :
    Nat :=
  (selectionHash C fModifierV2 nStakeModifierPrev pindex).toNat

/-- What a round has to select: of the candidates not selected yet and not behind the time
limit one with the least selection hash, or the first one if all are behind it. -/
def RoundPick (U : List KernelIndex) (nStakeModifierPrev : BitVec 64)
    (nSelectionIntervalStop : Int) (picks : List KernelIndex) (pick : KernelIndex) : Prop :=
  Scan.IsPick KernelIndex.GetBlockTime (selectionScore C (modifierV2 P U) nStakeModifierPrev)
    nSelectionIntervalStop (unselected U picks) pick

end

section
variable {C : Crypto} {P : CChainParams} {N : KernelProcess}

theorem selectLoop_scan (fModifierV2 : Bool) (selected : List uint256) (nStop : Int)
    (nPrev : BitVec 64) {U : List KernelIndex}
    (hfound : ∀ pindex ∈ U, (N.mapBlockIndex pindex.hash).bind List.head? = some pindex)
    (best : Option KernelIndex) :
    selectLoop C N fModifierV2 selected nStop nPrev (U.map item)
        (best.map fun b => (selectionHash C fModifierV2 nPrev b, b)) =
      some ((Scan.scan KernelIndex.GetBlockTime (selectionScore C fModifierV2 nPrev) nStop
        (fun pindex => decide (pindex.hash ∈ selected)) U best).map fun b =>
          (selectionHash C fModifierV2 nPrev b, b)) := by
  induction U generalizing best with
  | nil => rfl
  | cons pindex U ih =>
    have hrest := ih fun p hp => hfound p (mem_cons_of_mem pindex hp)
    have hhere : (N.mapBlockIndex pindex.item.2).bind List.head? = some pindex :=
      hfound pindex mem_cons_self
    rw [map_cons, selectLoop, hhere, Scan.scan]
    simp only [Option.isSome_map, gt_iff_lt, Option.all_map, decide_eq_true_eq]
    by_cases hlate : best.isSome = true ∧ nStop < pindex.GetBlockTime
    · rw [if_pos hlate, if_pos hlate]
    · rw [if_neg hlate, if_neg hlate]
      by_cases htaken : pindex.hash ∈ selected
      · rw [if_pos htaken, if_pos htaken]
        exact hrest best
      · rw [if_neg htaken, if_neg htaken]
        have hless : (best.all fun b => decide (selectionHash C fModifierV2 nPrev pindex <
            selectionHash C fModifierV2 nPrev b)) =
            best.all fun b => decide (selectionScore C fModifierV2 nPrev pindex <
              selectionScore C fModifierV2 nPrev b) := rfl
        rw [hless]
        split_ifs with h
        · exact hrest (some pindex)
        · exact hrest best

/-- **No round fails** while a candidate is not selected yet. -/
theorem Select_pick {items : List (Int × uint256)} {U picks : List KernelIndex}
    (hU : Listed N items U) (hfree : ∃ p ∈ U, p.hash ∉ picks.map hash)
    {selected : List uint256} (hselected : ∀ h, h ∈ selected ↔ h ∈ picks.map hash)
    (nStop : Int) (nPrev : BitVec 64) :
    ∃ pick, SelectBlockFromCandidates C P N items selected nStop nPrev = some pick ∧
      RoundPick C P U nPrev nStop picks pick := by
  have hfirst : (items.head?.bind fun item => (N.mapBlockIndex item.2).bind List.head?).any
      (fun pindex => pindex.nHeight ≥ P.nModifierUpdateBlock) = modifierV2 P U := by
    rw [hU.items_eq, modifierV2]
    cases U with
    | nil => rfl
    | cons pindex U =>
      have hhere : (N.mapBlockIndex pindex.item.2).bind List.head? = some pindex :=
        hU.found pindex mem_cons_self
      rw [map_cons, List.head?_cons, Option.bind_some, hhere, List.head?_cons]
  have hsame : (fun pindex : KernelIndex => decide (pindex.hash ∈ selected)) =
      fun pindex => decide (pindex.hash ∈ picks.map hash) :=
    funext fun pindex => decide_eq_decide.mpr (hselected pindex.hash)
  have hfree' : ∃ p ∈ U, decide (p.hash ∈ picks.map hash) = false := by
    obtain ⟨p, hmem, hnew⟩ := hfree
    exact ⟨p, hmem, decide_eq_false hnew⟩
  obtain ⟨pick, hscan, hpick⟩ := @Scan.scan_pick _ _ _ _ _ KernelIndex.GetBlockTime
    (selectionScore C (modifierV2 P U) nPrev) nStop _ _ hU.sorted hfree'
  refine ⟨pick, ?_, hpick⟩
  have hloop := @selectLoop_scan C N (modifierV2 P U) selected nStop nPrev U hU.found none
  rw [hsame, hscan, ← hU.items_eq, Option.map_none, Option.map_some] at hloop
  rw [SelectBlockFromCandidates]
  simp only [hfirst, hloop]
  rfl

/-! ## All rounds -/

/-- The time limit after some rounds: each adds its interval section. -/
def roundStop (nSelectionIntervalStart : Int) (nRounds : Nat) : Int :=
  nSelectionIntervalStart + ((List.range nRounds).map selectionSection).sum

theorem roundStop_succ (nStart : Int) (n : Nat) :
    roundStop nStart (n + 1) = roundStop nStart n + selectionSection n := by
  rw [roundStop, roundStop, range_succ, map_append, sum_append]
  simp [add_assoc]

theorem roundStop_zero (nStart : Int) : roundStop nStart 0 = nStart := by
  rw [roundStop]
  simp

/-- The modifier of the selected blocks: the entropy bit of each, in the order of the rounds. -/
def modifierOf (picks : List KernelIndex) : BitVec 64 :=
  picks.zipIdx.foldl (fun m pick => m ||| pick.1.GetStakeEntropyBit <<< pick.2) 0

theorem modifierOf_append (picks : List KernelIndex) (pick : KernelIndex) :
    modifierOf (picks ++ [pick]) =
      modifierOf picks ||| pick.GetStakeEntropyBit <<< picks.length := by
  rw [modifierOf, zipIdx_append, foldl_append, modifierOf]
  simp

/-- What the rounds so far have selected: one block each, and none twice. -/
structure Selecting (C : Crypto) (P : CChainParams) (N : KernelProcess)
    (items : List (Int × uint256)) (U : List KernelIndex) (nStakeModifierPrev : BitVec 64)
    (nStart : Int) (picks : List KernelIndex) : Prop where
  distinct : (picks.map KernelIndex.hash).Nodup
  selects : ∀ nRound pick, picks[nRound]? = some pick →
    SelectBlockFromCandidates C P N items ((picks.take nRound).map KernelIndex.hash).reverse
        (roundStop nStart (nRound + 1)) nStakeModifierPrev = some pick ∧
      RoundPick C P U nStakeModifierPrev (roundStop nStart (nRound + 1)) (picks.take nRound) pick

variable {items : List (Int × uint256)} {U picks : List KernelIndex} {nPrev : BitVec 64}
  {nStart : Int}

theorem selecting_nil : Selecting C P N items U nPrev nStart [] :=
  ⟨nodup_nil, fun _ _ h => absurd h (by simp)⟩

theorem RoundPick.unselected {nStop : Int} {pick : KernelIndex}
    (h : RoundPick C P U nPrev nStop picks pick) :
    pick ∈ U ∧ pick.hash ∉ picks.map hash := by
  obtain ⟨hmem, hnew⟩ := mem_filter.mp (Scan.IsPick.mem h)
  exact ⟨hmem, by simpa using hnew⟩

/-- **One round more.** -/
theorem Selecting.add (h : Selecting C P N items U nPrev nStart picks) {pick : KernelIndex}
    (hselect : SelectBlockFromCandidates C P N items (picks.map hash).reverse
      (roundStop nStart (picks.length + 1)) nPrev = some pick)
    (hpick : RoundPick C P U nPrev (roundStop nStart (picks.length + 1)) picks pick) :
    Selecting C P N items U nPrev nStart (picks ++ [pick]) where
  distinct := by
    rw [map_append, nodup_append]
    refine ⟨h.distinct, nodup_singleton _, ?_⟩
    rintro a ha b hb rfl
    rw [map_singleton, mem_singleton] at hb
    exact hpick.unselected.2 (hb ▸ ha)
  selects := by
    intro nRound p hp
    rcases lt_trichotomy nRound picks.length with hlt | rfl | hgt
    · rw [List.getElem?_append_left hlt] at hp
      rw [take_append_of_le_length (le_of_lt hlt)]
      exact h.selects nRound p hp
    · rw [List.getElem?_append_right le_rfl, Nat.sub_self, List.getElem?_cons_zero,
        Option.some.injEq] at hp
      subst hp
      rw [take_left]
      exact ⟨hselect, hpick⟩
    · rw [List.getElem?_eq_none (by rw [length_append, length_singleton]; omega)] at hp
      exact absurd hp (by simp)

theorem Listed.left (hU : Listed N items U) (hlen : picks.length < U.length) :
    ∃ p ∈ U, p.hash ∉ picks.map hash := by
  by_contra hnone
  have hsub : U.map hash ⊆ picks.map hash := by
    intro k hk
    obtain ⟨p, hmem, rfl⟩ := mem_map.mp hk
    by_contra hnew
    exact hnone ⟨p, hmem, hnew⟩
  have hle := (hU.distinct.subperm hsub).length_le
  rw [length_map, length_map] at hle
  omega

/-- **As many rounds as there are candidates left.** -/
theorem selectRounds_selecting (hU : Listed N items U) (n : Nat)
    (h : Selecting C P N items U nPrev nStart picks) (hn : picks.length + n ≤ U.length) :
    ∃ all, all.length = picks.length + n ∧ Selecting C P N items U nPrev nStart all ∧
      selectRounds C P N items nPrev (List.range' picks.length n) (roundStop nStart picks.length)
        (modifierOf picks) (picks.map hash).reverse = some (modifierOf all) := by
  induction n generalizing picks with
  | zero => exact ⟨picks, rfl, h, rfl⟩
  | succ n ih =>
    obtain ⟨pick, hselect, hpick⟩ := @Select_pick C P N items U picks hU (hU.left (by omega))
      (picks.map hash).reverse (fun _ => mem_reverse)
      (roundStop nStart (picks.length + 1)) nPrev
    have hnext := h.add hselect hpick
    have hlen : (picks ++ [pick]).length = picks.length + 1 := by simp
    obtain ⟨all, hall, hselecting, hrounds⟩ := ih hnext (by omega)
    refine ⟨all, by omega, hselecting, ?_⟩
    rw [range'_succ, selectRounds, ← roundStop_succ]
    simp only [hselect]
    rw [hlen, modifierOf_append, map_append, map_singleton, reverse_append,
      reverse_singleton, singleton_append] at hrounds
    exact hrounds

end

/-- A new modifier is due after the chain, the last one being `nStakeModifier`. -/
def Due (nStakeModifier : BitVec 64) : Branch → Prop
  | [] => False
  | prev :: rest =>
    prev.nHeight ≠ 0 ∧ ∃ nModifierTime,
      GetLastStakeModifier (prev :: rest) = some (nStakeModifier, nModifierTime) ∧
        nModifierTime.tdiv MODIFIER_INTERVAL < prev.GetBlockTime.tdiv MODIFIER_INTERVAL

/-- `nSelectionIntervalStart` after the chain. -/
def selectionStart (pindexPrev : Branch) : Int :=
  (pindexPrev.head?.elim 0 KernelIndex.GetBlockTime).tdiv MODIFIER_INTERVAL * MODIFIER_INTERVAL -
    GetStakeModifierSelectionInterval

/-- **The blocks of a new modifier.**  On every chain of the index after which one is due,
`ComputeNextStakeModifier` makes it from `min 64 n` different blocks of the `n` candidates, one
a round, each with the least selection hash that is left within the round's limit. -/
theorem next_modifier_selects (C : Crypto) (P : CChainParams) (literal : BitVec 64)
    (blocks : List CStakeBlock) (h : uint256) (branch : Branch) (nStakeModifier : BitVec 64)
    (hb : (indexBlocks C P literal blocks).mapBlockIndex h = some branch)
    (hdue : Due nStakeModifier branch) :
    ∃ U picks : List KernelIndex,
      U.Perm (inInterval (selectionStart branch) branch) ∧
        Listed (indexBlocks C P literal blocks) (sortedCandidates (selectionStart branch) branch)
          U ∧
        picks.length = min 64 U.length ∧
        Selecting C P (indexBlocks C P literal blocks)
          (sortedCandidates (selectionStart branch) branch) U nStakeModifier
          (selectionStart branch) picks ∧
        ComputeNextStakeModifier C P (indexBlocks C P literal blocks) branch =
          ⟨true, modifierOf picks, true⟩ := by
  obtain ⟨hN, -⟩ := @indexed_blocks C P literal blocks
  generalize indexBlocks C P literal blocks = N at *
  have hlinked := hN.linked hb
  have hU := @candidates_listed N (selectionStart branch) branch hlinked
  have hlen : (sortedCandidates (selectionStart branch) branch).length =
      (candidates N (selectionStart branch) branch).length := by
    rw [hU.items_eq, length_map]
  obtain ⟨picks, hcount, hselecting, hrounds⟩ := @selectRounds_selecting C P N _ _ [] nStakeModifier
    (selectionStart branch) hU (min 64 (candidates N (selectionStart branch) branch).length)
    selecting_nil (by rw [length_nil, Nat.zero_add]; exact Nat.min_le_right _ _)
  refine ⟨candidates N (selectionStart branch) branch, picks, candidates_perm hlinked, hU,
    by simpa using hcount, hselecting, ?_⟩
  cases branch with
  | nil => exact hdue.elim
  | cons prev rest =>
    obtain ⟨hheight, nModifierTime, hlast, hold⟩ := hdue
    rw [length_nil, ← range_eq_range', ← hlen] at hrounds
    rw [roundStop_zero] at hrounds
    have hstart : prev.GetBlockTime.tdiv MODIFIER_INTERVAL * MODIFIER_INTERVAL -
        GetStakeModifierSelectionInterval = selectionStart (prev :: rest) := rfl
    rw [ComputeNextStakeModifier, if_neg hheight, hlast]
    simp only [if_neg (not_le.mpr hold), hstart]
    generalize selectionStart (prev :: rest) = nStart at hrounds ⊢
    have hall : selectRounds C P N (sortedCandidates nStart (prev :: rest)) nStakeModifier
        (List.range (min 64 (sortedCandidates nStart (prev :: rest)).length)) nStart 0 [] =
        some (modifierOf picks) := hrounds
    rw [hall]

def tipBlock : CStakeBlock := ⟨⟨103, 1, 101, 1500000120, [], []⟩, 0, 0⟩

/-- The entries of the three, where the literal is at `0x4f1000`. -/
def secondBranch : Branch := ⟨103, 2, 1500000120, false, false, 0x4f1000, 0⟩ :: firstBranch 0x4f1000

/-- The block after them gets a modifier made of all three. -/
theorem three_blocks_selected :
    ∃ picks : List KernelIndex, picks.length = 3 ∧ (picks.map KernelIndex.hash).Nodup ∧
      ComputeNextStakeModifier noTextCrypto mainParams (indexBlocks noTextCrypto mainParams
        0x4f1000 [genesisBlock, firstBlock, tipBlock]) secondBranch =
          ⟨true, modifierOf picks, true⟩ := by
  have hdue : Due 0x4f1000 secondBranch := ⟨by decide, 1500000060, by decide, by decide⟩
  obtain ⟨U, picks, hperm, -, hlen, hselecting, hnext⟩ := next_modifier_selects noTextCrypto
    mainParams 0x4f1000 [genesisBlock, firstBlock, tipBlock] 103 secondBranch 0x4f1000
    (by decide) hdue
  have hthree : U.length = 3 := hperm.length_eq.trans (by decide)
  exact ⟨picks, by rw [hlen, hthree]; rfl, hselecting.distinct, hnext⟩

end Divitae
