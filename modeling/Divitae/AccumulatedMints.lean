/-
# `AccumulatedMints` — which mints a checkpoint stands for

A checkpoint is computed every ten blocks, from the one before and the mints of ten blocks that
lie further back:

    height h            covers the mints below h - 10
    from V2 + 21 on     starts from the checkpoint of block h - 1 (that of h - 10, which covers
                        what is below h - 20) and adds the blocks h - 20 … h - 11
    V2 … V2 + 20        starts from a hard-coded checkpoint at a height c, and adds the blocks
                        c - 20 … h - 11

    Covered s           the checkpoint of every active block, from the first one computed on,
                        is that of accumulators with each mint below its height, once

A connection keeps `Covered` where the accumulators it starts from are the right ones
(`StartsRight`), and where the hard-coded ones do not get lost for want of a new mint
(`MovesOn`): without new mints the checkpoint is that of the block before, which knows nothing
of them.
-/
import Divitae.AccumulatorRuns
import Divitae.Lib.Segment

namespace Divitae

namespace AccumulatorMap

open CoinDenomination

/-! ## Coins added -/

section
variable (A : AccumulatorParams)

/-- An accumulator with the coins of its denomination added, each once. -/
def increments (useModulusV1 : Bool) (denom : CoinDenomination) (bnValue : Int)
    (coins : List PublicCoin) : Int :=
  (coins.filter fun coin => coin.denomination == denom).foldl
    (fun bnValue coin => A.increment useModulusV1 bnValue coin.value) bnValue

variable {A}

theorem increments_append (useModulusV1 : Bool) (denom : CoinDenomination) (bnValue : Int)
    (coins more : List PublicCoin) :
    increments A useModulusV1 denom bnValue (coins ++ more) =
      increments A useModulusV1 denom (increments A useModulusV1 denom bnValue coins) more := by
  simp only [increments, List.filter_append, List.foldl_append]

theorem Accumulate_spec {coins : List PublicCoin} {m m' : AccumulatorMap}
    (h : Accumulate A m coins = some m') : m'.useModulusV1 = m.useModulusV1 ∧
      ∀ denom, m'.mapAccumulators denom =
        increments A m.useModulusV1 denom (m.mapAccumulators denom) coins := by
  induction coins generalizing m with
  | nil =>
    cases h
    exact ⟨rfl, fun _ => rfl⟩
  | cons coin coins ih =>
    rw [Accumulate] at h
    split_ifs at h with herror
    obtain ⟨huse, hvalues⟩ := ih h
    refine ⟨huse, ?_⟩
    intro denom
    rw [hvalues denom]
    by_cases hdenom : coin.denomination = denom
    · subst hdenom
      simp [increments]
    · have hne : denom ≠ coin.denomination := fun h => hdenom h.symm
      simp [increments, hdenom, Function.update_of_ne hne]

theorem Accumulate_append (coins more : List PublicCoin) (m : AccumulatorMap) :
    Accumulate A m (coins ++ more) = (Accumulate A m coins).bind fun m => Accumulate A m more := by
  induction coins generalizing m with
  | nil => rfl
  | cons coin coins ih =>
    rw [List.cons_append, Accumulate, Accumulate]
    split_ifs
    · rfl
    · exact ih _

theorem GetCheckpoint_congr {m m' : AccumulatorMap}
    (h : ∀ denom ∈ zerocoinDenomList, m.mapAccumulators denom = m'.mapAccumulators denom) :
    m.GetCheckpoint A = m'.GetCheckpoint A := by
  have hsums : (zerocoinDenomList.map fun denom =>
        A.GetChecksum (m.mapAccumulators denom)) =
      zerocoinDenomList.map fun denom =>
        A.GetChecksum (m'.mapAccumulators denom) :=
    List.map_congr_left fun denom hdenom => congrArg A.GetChecksum (h denom hdenom)
  rw [GetCheckpoint, GetCheckpoint, hsums]

end

end AccumulatorMap

namespace AccumulatorChain

open AccumulatorMap

/-! ## The mints of the chain -/

section
variable (P : CChainParams) (A : AccumulatorParams) (N : CConnectNode) (s : AccumulatorChain)

def mintsOf (entry : ChainEntry) : List PublicCoin :=
  (BlockToPubcoinList N true entry.block.vtx).getD []

def heightOf (entry : ChainEntry) : Int := entry.pindex.nHeight

/-- The valid mints of the active blocks from a height on and below another, in their order;
there are none before zerocoin starts. -/
def mintsBetween (nHeightStart nHeightEnd : Int) : List PublicCoin :=
  (Segment.between heightOf s.chainActive (max P.nZerocoinStartHeight nHeightStart)
    nHeightEnd).flatMap (mintsOf N)

/-- The accumulators with each mint below a height, once, in that of its denomination. -/
def accumulated (nHeight : Int) : AccumulatorMap where
  useModulusV1 := false
  mapAccumulators denom :=
    increments A false denom (A.accumulatorBase false)
      (mintsBetween P N s P.nZerocoinStartHeight nHeight)

/-- What a checkpoint stands for; 0 stands for accumulators without a coin. -/
def StandsFor (nCheckpoint : uint256) (nHeight : Int) : Prop :=
  nCheckpoint = (accumulated P A N s nHeight).GetCheckpoint A ∨
    nCheckpoint = 0 ∧ mintsBetween P N s P.nZerocoinStartHeight nHeight = []

/-- The height at which the checkpoint of a block was computed. -/
def updateHeight (nHeight : Int) : Int := nHeight - nHeight % 10

/-- The checkpoint of every active block, from the first one that is computed on, stands for
the mints up to eleven blocks below the height it was computed at. -/
def Covered : Prop :=
  ∀ entry ∈ s.chainActive, P.nBlockZerocoinV2 ≤ updateHeight entry.pindex.nHeight →
    StandsFor P A N s entry.pindex.nAccumulatorCheckpoint (updateHeight entry.pindex.nHeight - 10)

def hardCoded (nHeight : Int) : Option (Int × (CoinDenomination → Int)) :=
  A.mapCheckpoints.find? fun checkpoint =>
    checkpoint.1 == closestHeight nHeight A.mapCheckpoints (-1)

/-- The accumulators a checkpoint is computed from hold what they should. -/
structure StartsRight (nHeight : Int) : Prop where
  /-- the hard-coded ones hold the mints below 20 blocks before their height -/
  loaded : nHeight ≤ P.nBlockZerocoinV2 + 20 → ∀ checkpoint ∈ hardCoded A nHeight,
    ∀ denom ∈ CoinDenomination.zerocoinDenomList,
      checkpoint.2 denom = (accumulated P A N s (checkpoint.1 - 20)).mapAccumulators denom
  /-- the checkpoint before is not 0, unless there was no mint -/
  started : P.nBlockZerocoinV2 + 20 < nHeight →
    (accumulated P A N s (nHeight - 20)).GetCheckpoint A = 0 →
      mintsBetween P N s P.nZerocoinStartHeight (nHeight - 20) = []
  /-- under the checksum of an accumulator there is no other value -/
  unambiguous : P.nBlockZerocoinV2 + 20 < nHeight →
    ∀ denom ∈ CoinDenomination.zerocoinDenomList,
      ∀ bnValue ∈ s.accumulatorValues
          (A.GetChecksum ((accumulated P A N s (nHeight - 20)).mapAccumulators denom)),
        bnValue = (accumulated P A N s (nHeight - 20)).mapAccumulators denom

/-- There is a mint from 20 blocks before the hard-coded checkpoint on, or the block before has
the checkpoint already. -/
def MovesOn (nHeight : Int) : Prop :=
  nHeight ≤ P.nBlockZerocoinV2 + 20 → ∀ checkpoint ∈ hardCoded A nHeight,
    mintsBetween P N s (checkpoint.1 - 20) (nHeight - 10) = [] →
      ∀ prev ∈ s.at' (nHeight - 1),
        StandsFor P A N s prev.pindex.nAccumulatorCheckpoint (nHeight - 10)

end

/-! ## Stretches of mints -/

section
variable {P : CChainParams} {A : AccumulatorParams} {N : CConnectNode} {s : AccumulatorChain}
  {entry : ChainEntry} {chain : List ChainEntry} {nHeight nHeightStart nHeightEnd : Int}

theorem at_eq_some (h : s.at' nHeight = some entry) :
    entry ∈ s.chainActive ∧ heightOf entry = nHeight := by
  have hheight : (entry.pindex.nHeight == nHeight) = true :=
    @List.find?_some _ (fun entry : ChainEntry => entry.pindex.nHeight == nHeight) _ _ h
  exact ⟨List.mem_of_find?_eq_some h, beq_iff_eq.mp hheight⟩

theorem at_of_mem (hchain : Segment.Falling heightOf s.chainActive) (h : entry ∈ s.chainActive) :
    s.at' (heightOf entry) = some entry := by
  refine Segment.find_eq_some hchain h ?_
  intro other _
  exact beq_iff_eq

theorem mem_mintsBetween {coin : PublicCoin} :
    coin ∈ mintsBetween P N s nHeightStart nHeightEnd ↔
      ∃ entry ∈ s.chainActive, (P.nZerocoinStartHeight ≤ heightOf entry ∧
        nHeightStart ≤ heightOf entry) ∧ heightOf entry < nHeightEnd ∧
        coin ∈ mintsOf N entry := by
  constructor
  · intro hcoin
    obtain ⟨entry, hentry, hmint⟩ := List.mem_flatMap.mp hcoin
    obtain ⟨hmem, hfrom, hbelow⟩ := Segment.mem_between.mp hentry
    exact ⟨entry, hmem, max_le_iff.mp hfrom, hbelow, hmint⟩
  · rintro ⟨entry, hmem, hfrom, hbelow, hmint⟩
    have hentry := Segment.mem_between.mpr ⟨hmem, max_le_iff.mpr hfrom, hbelow⟩
    exact List.mem_flatMap.mpr ⟨entry, hentry, hmint⟩

section
variable (hchain : Segment.Falling heightOf s.chainActive)
include hchain

/-- **No block is left out between two stretches, and none counts twice.** -/
theorem mintsBetween_append (hstart : nHeightStart ≤ nHeight) (hend : nHeight ≤ nHeightEnd) :
    mintsBetween P N s nHeightStart nHeightEnd =
      mintsBetween P N s nHeightStart nHeight ++ mintsBetween P N s nHeight nHeightEnd := by
  unfold mintsBetween
  rw [← List.flatMap_append]
  congr 1
  rcases le_or_gt P.nZerocoinStartHeight nHeight with hzerocoin | hzerocoin
  · rw [max_eq_right hzerocoin]
    exact Segment.between_append hchain (max_le hzerocoin hstart) hend
  · -- both start where zerocoin does
    have hmax : max P.nZerocoinStartHeight nHeight = P.nZerocoinStartHeight :=
      max_eq_left hzerocoin.le
    have hmaxStart : max P.nZerocoinStartHeight nHeightStart = P.nZerocoinStartHeight :=
      max_eq_left (hstart.trans hzerocoin.le)
    rw [hmax, hmaxStart, Segment.between_of_le hzerocoin.le, List.nil_append]

theorem between_single (hat : s.at' nHeight = some entry) :
    Segment.between heightOf s.chainActive nHeight (nHeight + 1) = [entry] := by
  obtain ⟨hmem, hheight⟩ := at_eq_some hat
  refine Segment.between_eq_single hchain hmem hheight.ge (by omega) ?_
  intro other _ hfrom hbelow
  omega

theorem mintsBetween_single
    (hat : s.at' nHeight = some entry) (hzerocoin : P.nZerocoinStartHeight ≤ nHeight) :
    mintsBetween P N s nHeight (nHeight + 1) = mintsOf N entry := by
  unfold mintsBetween
  rw [max_eq_right hzerocoin, between_single hchain hat]
  exact List.append_nil _

end

theorem mintsBetween_of_le (h : nHeightEnd ≤ nHeightStart) :
    mintsBetween P N s nHeightStart nHeightEnd = [] := by
  unfold mintsBetween
  rw [Segment.between_of_le (h.trans (le_max_right _ _))]
  rfl

theorem mintsBetween_early (h : nHeightEnd ≤ P.nZerocoinStartHeight) :
    mintsBetween P N s nHeightStart nHeightEnd = [] := by
  unfold mintsBetween
  rw [Segment.between_of_le (h.trans (le_max_left _ _))]
  rfl

variable {s' : AccumulatorChain}

theorem mintsBetween_cons (hchain : s.chainActive = entry :: chain)
    (hrest : s'.chainActive = chain) (h : nHeightEnd ≤ heightOf entry) :
    mintsBetween P N s nHeightStart nHeightEnd = mintsBetween P N s' nHeightStart nHeightEnd := by
  unfold mintsBetween
  rw [hchain, hrest, Segment.between_cons h]

theorem mintsBetween_from (hchain : Segment.Falling heightOf s.chainActive)
    (hend : nHeight ≤ nHeightEnd) :
    mintsBetween P N s P.nZerocoinStartHeight nHeightEnd =
      mintsBetween P N s P.nZerocoinStartHeight nHeight ++
        mintsBetween P N s nHeight nHeightEnd := by
  rcases le_or_gt P.nZerocoinStartHeight nHeight with hzerocoin | hzerocoin
  · exact mintsBetween_append hchain hzerocoin hend
  · rw [mintsBetween_early hzerocoin.le, List.nil_append]
    unfold mintsBetween
    rw [max_self, max_eq_left hzerocoin.le]

variable {nCheckpoint : uint256}

theorem StandsFor.congr {nHeight' : Int}
    (hstands : StandsFor P A N s nCheckpoint nHeight)
    (h : mintsBetween P N s P.nZerocoinStartHeight nHeight =
      mintsBetween P N s' P.nZerocoinStartHeight nHeight') :
    StandsFor P A N s' nCheckpoint nHeight' := by
  unfold StandsFor accumulated at hstands ⊢
  rw [← h]
  exact hstands

variable {M : CConnectNode}

section
variable (hlibrary : M.Z = N.Z) (hpoints : M.ContainsOutPoint = N.ContainsOutPoint)
  (fFilterInvalid : Bool)
include hlibrary hpoints fFilterInvalid

theorem pubcoinsOf_congr (txHash : uint256) (vout : List CTxOut) (i : Nat) :
    pubcoinsOf M fFilterInvalid txHash vout i = pubcoinsOf N fFilterInvalid txHash vout i := by
  induction vout generalizing i with
  | nil => rfl
  | cons txOut vout ih => simp only [pubcoinsOf, hlibrary, hpoints, ih]

theorem BlockToPubcoinList_congr (vtx : List CTransaction) :
    BlockToPubcoinList M fFilterInvalid vtx = BlockToPubcoinList N fFilterInvalid vtx := by
  induction vtx with
  | nil => rfl
  | cons tx vtx ih =>
    simp only [BlockToPubcoinList, pubcoinsOf_congr hlibrary hpoints, hpoints, ih]

end

end

section
variable {P : CChainParams} {A : AccumulatorParams} {M : CAccumulatorNode} {N : CConnectNode}
  {s : AccumulatorChain} {nHeight : Int} {m m' : AccumulatorMap}

/-- **The loop adds the mints of the blocks it goes over, each once.** -/
theorem accumulateBlocks_spec (hlibrary : M.Z = N.Z)
    (hpoints : M.ContainsOutPoint = N.ContainsOutPoint)
    (hchain : Segment.Falling heightOf s.chainActive) {n nTotal nTotalMintsFound : Nat}
    (h : s.accumulateBlocks P A M true n nHeight m nTotal = some (m', nTotalMintsFound)) :
    Accumulate A m (mintsBetween P N s nHeight (nHeight + n)) = some m' ∧
      nTotalMintsFound = nTotal + (mintsBetween P N s nHeight (nHeight + n)).length := by
  induction n generalizing nHeight m nTotal with
  | zero =>
    cases h
    rw [mintsBetween_of_le (by omega)]
    exact ⟨rfl, rfl⟩
  | succ n ih =>
    have hend : nHeight + ((n + 1 : Nat) : Int) = nHeight + 1 + n := by omega
    have hsplit : mintsBetween P N s nHeight (nHeight + 1 + n) =
        mintsBetween P N s nHeight (nHeight + 1) ++
          mintsBetween P N s (nHeight + 1) (nHeight + 1 + n) :=
      mintsBetween_append hchain (by omega) (by omega)
    rw [accumulateBlocks] at h
    split_ifs at h with hshutdown hzerocoin
    · -- a block from before zerocoin
      rw [hend, hsplit, mintsBetween_early (by omega), List.nil_append]
      exact ih h
    · split at h
      · cases h
      next entry hat =>
        split_ifs at h with hread
        split at h
        · cases h
        next listPubcoins hlist =>
          split at h
          · cases h
          next m₁ hm₁ =>
            have hmints : mintsBetween P N s nHeight (nHeight + 1) = listPubcoins := by
              rw [mintsBetween_single hchain hat (not_lt.mp hzerocoin), mintsOf,
                ← BlockToPubcoinList_congr hlibrary hpoints, hlist]
              rfl
            obtain ⟨hrest, hcount⟩ := ih h
            rw [hend, hsplit, hmints, Accumulate_append, hm₁, List.length_append, hcount]
            exact ⟨hrest, Nat.add_assoc _ _ _⟩

/-! ## A checkpoint computed -/

theorem closestHeight_cases (nHeight : Int) (checkpoints : List (Int × (CoinDenomination → Int)))
    (nHeightCheckpoint : Int) :
    closestHeight nHeight checkpoints nHeightCheckpoint < nHeight ∨
      closestHeight nHeight checkpoints nHeightCheckpoint = nHeightCheckpoint := by
  induction checkpoints generalizing nHeightCheckpoint with
  | nil => exact .inr rfl
  | cons checkpoint rest ih =>
    unfold closestHeight
    by_cases hbelow : checkpoint.1 < nHeight
    · rw [if_pos hbelow]
      rcases ih (if nHeight - checkpoint.1 <
          (if nHeightCheckpoint = -1 then checkpoint.1 else nHeightCheckpoint) then checkpoint.1
        else if nHeightCheckpoint = -1 then checkpoint.1 else nHeightCheckpoint) with h | h
      · exact .inl h
      · rw [h]
        split_ifs
        · exact .inl hbelow
        · exact .inl hbelow
        · exact .inl hbelow
        · exact .inr rfl
    · rw [if_neg hbelow]
      exact ih nHeightCheckpoint

variable {nHeightCheckpoint : Int}

theorem closestHeight_lt (checkpoints : List (Int × (CoinDenomination → Int)))
    (h : nHeightCheckpoint < nHeight) :
    closestHeight nHeight checkpoints nHeightCheckpoint < nHeight := by
  rcases closestHeight_cases nHeight checkpoints nHeightCheckpoint with hlt | hsame
  · exact hlt
  · exact hsame.trans_lt h

theorem accumulated_of_nil (h : mintsBetween P N s P.nZerocoinStartHeight nHeight = [])
    (denom : CoinDenomination) :
    (accumulated P A N s nHeight).mapAccumulators denom = A.accumulatorBase false := by
  unfold accumulated
  rw [h]
  rfl

variable {db : Records.Store (BitVec 32) Int}

theorem load_spec {m₀ : AccumulatorMap}
    (hcheckpoint : nCheckpoint = m₀.GetCheckpoint A)
    (hclear : ∀ denom ∈ CoinDenomination.zerocoinDenomList,
      ∀ bnValue ∈ db (A.GetChecksum (m₀.mapAccumulators denom)), bnValue = m₀.mapAccumulators denom)
    (h : m.Load db nCheckpoint = some m') :
    m'.useModulusV1 = m.useModulusV1 ∧ ∀ denom ∈ CoinDenomination.zerocoinDenomList,
      m'.mapAccumulators denom = m₀.mapAccumulators denom := by
  unfold Load at h
  split_ifs at h with hall
  cases h
  refine ⟨rfl, ?_⟩
  intro denom hdenom
  have hread : (db (ParseChecksum nCheckpoint denom)).isSome = true :=
    List.all_eq_true.mp hall denom hdenom
  show (db (ParseChecksum nCheckpoint denom)).getD 0 = _
  rw [hcheckpoint, parse_GetCheckpoint A m₀ hdenom] at hread ⊢
  obtain ⟨bnValue, hvalue⟩ := Option.isSome_iff_exists.mp hread
  rw [hvalue]
  exact hclear denom hdenom bnValue hvalue

theorem InitializeAccumulators_spec (hnet : IsNetwork P) (hV2 : P.nBlockZerocoinV2 ≤ nHeight)
    (hright : StartsRight P A N s nHeight)
    (hprev : P.nBlockZerocoinV2 + 20 < nHeight → ∀ prev ∈ s.at' (nHeight - 1),
      StandsFor P A N s prev.pindex.nAccumulatorCheckpoint (nHeight - 20))
    (h : s.InitializeAccumulators P A M nHeight = (db, some (nHeightCheckpoint, m))) :
    m.useModulusV1 = false ∧
      (∀ denom ∈ CoinDenomination.zerocoinDenomList, m.mapAccumulators denom =
        (accumulated P A N s (nHeightCheckpoint - 20)).mapAccumulators denom) ∧
      nHeightCheckpoint ≤ nHeight ∧
      (nHeight ≤ P.nBlockZerocoinV2 + 20 ∧
          (∃ checkpoint ∈ hardCoded A nHeight, checkpoint.1 = nHeightCheckpoint) ∨
        P.nBlockZerocoinV2 + 20 < nHeight ∧ nHeightCheckpoint = nHeight) := by
  have hrecalculate : nHeight ≠ P.nBlockRecalculateAccumulators := by
    have hlt := recalculate_lt hnet
    omega
  unfold InitializeAccumulators at h
  dsimp only at h
  split_ifs at h with hstart hhard
  · cases h
  · -- a hard-coded checkpoint
    have hbelow : nHeight ≤ P.nBlockZerocoinV2 + 20 := hhard.2
    split at h
    · cases h
    next checkpoint hfind =>
      obtain ⟨-, heq⟩ := Prod.mk.inj h
      cases heq
      have hheight : checkpoint.1 = closestHeight nHeight A.mapCheckpoints (-1) :=
        beq_iff_eq.mp (@List.find?_some _ (fun checkpoint : Int × (CoinDenomination → Int) =>
          checkpoint.1 == closestHeight nHeight A.mapCheckpoints (-1)) _ _ hfind)
      refine ⟨rfl, ?_, ?_, .inl ⟨hbelow, checkpoint, hfind, hheight⟩⟩
      · intro denom hdenom
        rw [← hheight]
        exact hright.loaded hbelow checkpoint hfind denom hdenom
      · have hpositive : -1 < nHeight := by
          rcases hnet with rfl | rfl | rfl
          · exact lt_of_lt_of_le (by decide) hV2
          · exact lt_of_lt_of_le (by decide) hV2
          · exact lt_of_lt_of_le (by decide) hV2
        exact (closestHeight_lt A.mapCheckpoints hpositive).le
  · -- the checkpoint of the block before
    have habove : P.nBlockZerocoinV2 + 20 < nHeight := by
      by_contra hle
      exact hhard ⟨hV2, not_lt.mp hle⟩
    split at h
    · cases h
    next prev hat =>
      have hstands := hprev habove prev hat
      split_ifs at h with hzero
      · obtain ⟨-, heq⟩ := Prod.mk.inj h
        cases heq
        have hnone : mintsBetween P N s P.nZerocoinStartHeight (nHeight - 20) = [] := by
          rcases hstands with hcheckpoint | ⟨-, hnone⟩
          · exact hright.started habove (hcheckpoint.symm.trans hzero)
          · exact hnone
        refine ⟨rfl, ?_, le_refl _, .inr ⟨habove, rfl⟩⟩
        intro denom _
        exact (accumulated_of_nil hnone denom).symm
      · split at h
        · cases h
        next m₁ hload =>
          obtain ⟨-, heq⟩ := Prod.mk.inj h
          cases heq
          have hcheckpoint : prev.pindex.nAccumulatorCheckpoint =
              (accumulated P A N s (nHeight - 20)).GetCheckpoint A := by
            rcases hstands with hcheckpoint | ⟨hnull, -⟩
            · exact hcheckpoint
            · exact absurd hnull hzero
          obtain ⟨huse, hvalues⟩ := load_spec hcheckpoint (hright.unambiguous habove) hload
          exact ⟨huse, hvalues, le_refl _, .inr ⟨habove, rfl⟩⟩

/-- **A checkpoint that is computed adds up the mints to eleven blocks below it**, and stands
for them where it moves on. -/
theorem CalculateAccumulatorCheckpoint_spec (hnet : IsNetwork P) (hlibrary : M.Z = N.Z)
    (hpoints : M.ContainsOutPoint = N.ContainsOutPoint)
    (hchain : Segment.Falling heightOf s.chainActive) (hV2 : P.nBlockZerocoinV2 ≤ nHeight)
    (hright : StartsRight P A N s nHeight)
    (hprev : P.nBlockZerocoinV2 + 20 < nHeight → ∀ prev ∈ s.at' (nHeight - 1),
      StandsFor P A N s prev.pindex.nAccumulatorCheckpoint (nHeight - 20))
    (h : s.CalculateAccumulatorCheckpoint P A M nHeight = (db, some (nCheckpoint, m))) :
    (∀ denom ∈ CoinDenomination.zerocoinDenomList,
      m.mapAccumulators denom = (accumulated P A N s (nHeight - 10)).mapAccumulators denom) ∧
    (MovesOn P A N s nHeight → StandsFor P A N s nCheckpoint (nHeight - 10)) := by
  have hfilter : decide (P.nBlockRecalculateAccumulators ≤ nHeight) = true :=
    decide_eq_true ((recalculate_lt hnet).le.trans hV2)
  unfold CalculateAccumulatorCheckpoint at h
  split at h
  · cases h
  next db nHeightCheckpoint m₀ hinit =>
    obtain ⟨huse, hvalues, hle, hfrom⟩ := InitializeAccumulators_spec hnet hV2 hright hprev hinit
    dsimp only at h
    rw [hfilter] at h
    split at h
    · cases h
    next m₁ nTotalMintsFound hloop =>
      have hend : nHeightCheckpoint - 20 +
          ((nHeight - 10 - (nHeightCheckpoint - 20)).toNat : Int) = nHeight - 10 := by
        omega
      obtain ⟨hadded, hcount⟩ := accumulateBlocks_spec hlibrary hpoints hchain hloop
      rw [hend] at hadded hcount
      have hsplit : mintsBetween P N s P.nZerocoinStartHeight (nHeight - 10) =
          mintsBetween P N s P.nZerocoinStartHeight (nHeightCheckpoint - 20) ++
            mintsBetween P N s (nHeightCheckpoint - 20) (nHeight - 10) :=
        mintsBetween_from hchain (by omega)
      have hadds : ∀ denom ∈ CoinDenomination.zerocoinDenomList, m₁.mapAccumulators denom =
          (accumulated P A N s (nHeight - 10)).mapAccumulators denom := by
        intro denom hdenom
        rw [(Accumulate_spec hadded).2 denom, hvalues denom hdenom, huse]
        show increments A false denom _ _ = increments A false denom _ _
        rw [hsplit, increments_append]
        rfl
      split_ifs at h with hnone
      · -- without new mints the checkpoint is the one before
        have hempty : mintsBetween P N s (nHeightCheckpoint - 20) (nHeight - 10) = [] := by
          refine List.length_eq_zero_iff.mp ?_
          omega
        cases hat : s.at' (nHeight - 1) with
        | none =>
          rw [hat] at h
          cases h
        | some prev =>
          rw [hat] at h
          obtain ⟨-, heq⟩ := Prod.mk.inj h
          cases heq
          refine ⟨hadds, ?_⟩
          intro hmoves
          rcases hfrom with ⟨hhard, checkpoint, hfind, rfl⟩ | ⟨habove, rfl⟩
          · exact hmoves hhard checkpoint hfind hempty prev hat
          · refine (hprev habove prev hat).congr ?_
            rw [hsplit, hempty, List.append_nil]
      · obtain ⟨-, heq⟩ := Prod.mk.inj h
        cases heq
        exact ⟨hadds, fun _ => .inl (GetCheckpoint_congr hadds)⟩

theorem V2_nonneg (hnet : IsNetwork P) : 0 ≤ P.nBlockZerocoinV2 := by
  rcases hnet with rfl | rfl | rfl <;> decide

theorem ValidateAccumulatorCheckpoint_cases (hnet : IsNetwork P)
    (hV2 : P.nBlockZerocoinV2 ≤ nHeight) {prev : ChainEntry}
    (h : s.ValidateAccumulatorCheckpoint P A M nHeight nCheckpoint prev = (db, some m)) :
    nHeight % 10 = 0 ∧
        s.CalculateAccumulatorCheckpoint P A M nHeight = (db, some (nCheckpoint, m)) ∨
      nHeight % 10 ≠ 0 ∧ nCheckpoint = prev.pindex.nAccumulatorCheckpoint := by
  have hmod : nHeight.tmod 10 = nHeight % 10 :=
    Int.tmod_eq_emod_of_nonneg ((V2_nonneg hnet).trans hV2)
  unfold ValidateAccumulatorCheckpoint at h
  rw [if_neg (not_lt.mpr hV2), hmod] at h
  split_ifs at h with hten hsame
  · refine .inl ⟨hten, ?_⟩
    split at h
    · cases h
    next db' nCheckpointCalculated m' hcalc =>
      split_ifs at h with hsame
      · cases h
      · cases h
        rw [hcalc, not_not.mp hsame]
  · cases h
  · exact .inr ⟨hten, not_not.mp hsame⟩

theorem ConnectTip_validated (block : CBlock) (nCheckpoint : uint256) (pindexNew : CBlockIndex)
    (fAlreadyChecked : Bool) :
    (s.ConnectTip P A M block nCheckpoint pindexNew fAlreadyChecked).chainActive = s.chainActive ∨
      ∃ tip rest entry db m, s.chainActive = tip :: rest ∧
        (s.ConnectTip P A M block nCheckpoint pindexNew fAlreadyChecked).chainActive =
          entry :: s.chainActive ∧
        heightOf entry = heightOf tip + 1 ∧
        entry.pindex.nAccumulatorCheckpoint = (if 3 < block.nVersion then nCheckpoint else 0) ∧
        s.ValidateAccumulatorCheckpoint P A M (heightOf entry) nCheckpoint tip = (db, some m) := by
  have houtcome := ConnectTip_outcome P A M s block nCheckpoint pindexNew fAlreadyChecked
  generalize s.ConnectTip P A M block nCheckpoint pindexNew fAlreadyChecked = s' at *
  cases houtcome with
  | unchanged => exact .inl rfl
  | unwritten tip rest db m hchain hvalid => exact .inl rfl
  | written tip rest db m hchain hvalid => exact .inl rfl
  | connected tip rest db m entry view hchain hvalid hheight hcheckpoint =>
    refine .inr ⟨tip, rest, entry, db, m, hchain, rfl, hheight, hcheckpoint, ?_⟩
    show s.ValidateAccumulatorCheckpoint P A M entry.pindex.nHeight nCheckpoint tip = _
    rw [hheight]
    exact hvalid

end

/-! ## Runs -/

section
variable (P : CChainParams) (A : AccumulatorParams) (N : CConnectNode)

/-- Every node has the same library and the same invalid outpoints; a header up to version 3
comes without a checkpoint. -/
def Arriving : AccumulatorEvent → Prop
  | .connectTip M block nCheckpoint _ _ =>
    M.Z = N.Z ∧ M.ContainsOutPoint = N.ContainsOutPoint ∧ (¬ 3 < block.nVersion → nCheckpoint = 0)
  | .disconnectTip _ => True

/-- A checkpoint is computed for the block that is connected. -/
def Computes (s : AccumulatorChain) : AccumulatorEvent → Prop
  | .connectTip .. => P.nBlockZerocoinV2 ≤ s.Height + 1 ∧ (s.Height + 1) % 10 = 0
  | .disconnectTip _ => False

/-- Where a checkpoint is computed, it starts right and moves on. -/
def Sound (s : AccumulatorChain) (e : AccumulatorEvent) : Prop :=
  Computes P s e → StartsRight P A N s (s.Height + 1) ∧ MovesOn P A N s (s.Height + 1)

/-- The accumulators of a checkpoint that is computed hold the mints up to eleven blocks below
it, each once. -/
def Accumulates (s : AccumulatorChain) : AccumulatorEvent → Prop
  | .connectTip M _ _ _ _ =>
    P.nBlockZerocoinV2 ≤ s.Height + 1 → (s.Height + 1) % 10 = 0 → ∀ db nCheckpoint m,
      s.CalculateAccumulatorCheckpoint P A M (s.Height + 1) = (db, some (nCheckpoint, m)) →
      ∀ denom ∈ CoinDenomination.zerocoinDenomList, m.mapAccumulators denom =
        (accumulated P A N s (s.Height + 1 - 10)).mapAccumulators denom
  | .disconnectTip _ => True

variable {P A N} {s : AccumulatorChain}

theorem Covered.same (hcovered : Covered P A N s)
    (h : s'.chainActive = s.chainActive) : Covered P A N s' := by
  intro entry hentry hV2
  refine (hcovered entry (h ▸ hentry) hV2).congr ?_
  unfold mintsBetween
  rw [h]

variable {rest : List ChainEntry}

theorem falling_le_tip (hchain : Segment.Falling heightOf s.chainActive) {tip entry : ChainEntry}
    (hrest : s.chainActive = tip :: rest)
    (hentry : entry ∈ s.chainActive) :
    heightOf entry ≤ heightOf tip := by
  rw [hrest] at hentry hchain
  rcases List.mem_cons.mp hentry with rfl | hentry
  · exact le_refl _
  · exact ((List.pairwise_cons.mp hchain).1 entry hentry).le

variable {tip : ChainEntry}

theorem Covered.before (hcovered : Covered P A N s)
    {nHeight : Int} (hrest : s.chainActive = tip :: rest) (hheight : nHeight = heightOf tip + 1)
    (hten : nHeight % 10 = 0) (habove : P.nBlockZerocoinV2 + 20 < nHeight) :
    ∀ prev ∈ s.at' (nHeight - 1),
      StandsFor P A N s prev.pindex.nAccumulatorCheckpoint (nHeight - 20) := by
  intro prev hprev
  have hheight : nHeight = tip.pindex.nHeight + 1 := hheight
  rw [at_below hrest hheight] at hprev
  obtain rfl : tip = prev := Option.some.inj hprev
  have htip : tip ∈ s.chainActive := by
    rw [hrest]
    exact .head _
  have hbefore : updateHeight tip.pindex.nHeight = nHeight - 10 := by
    unfold updateHeight
    omega
  have hstands := hcovered tip htip (by omega)
  have hlast : nHeight - 10 - 10 = nHeight - 20 := by omega
  rw [hbefore, hlast] at hstands
  exact hstands

variable {M : CAccumulatorNode}

theorem connected_stands (hnet : IsNetwork P)
    {nHeight : Int}
    {m : AccumulatorMap} (hlibrary : M.Z = N.Z)
    (hpoints : M.ContainsOutPoint = N.ContainsOutPoint)
    (hsound : P.nBlockZerocoinV2 ≤ nHeight → nHeight % 10 = 0 →
      StartsRight P A N s nHeight ∧ MovesOn P A N s nHeight)
    (hchain : Segment.Falling heightOf s.chainActive) (hcovered : Covered P A N s)
    (hrest : s.chainActive = tip :: rest) (hheight : nHeight = heightOf tip + 1)
    (hV2 : P.nBlockZerocoinV2 ≤ updateHeight nHeight)
    (hvalid : s.ValidateAccumulatorCheckpoint P A M nHeight nCheckpoint tip = (db, some m)) :
    StandsFor P A N s nCheckpoint (updateHeight nHeight - 10) := by
  have hreached : P.nBlockZerocoinV2 ≤ nHeight := by
    unfold updateHeight at hV2
    omega
  rcases ValidateAccumulatorCheckpoint_cases hnet hreached hvalid with ⟨hten, hcalc⟩ | ⟨hten, rfl⟩
  · obtain ⟨hright, hmoves⟩ := hsound hreached hten
    have hupdate : updateHeight nHeight = nHeight := by
      unfold updateHeight
      omega
    rw [hupdate]
    exact (CalculateAccumulatorCheckpoint_spec hnet hlibrary hpoints hchain hreached hright
      (hcovered.before hrest hheight hten) hcalc).2 hmoves
  · have htip : tip ∈ s.chainActive := by
      rw [hrest]
      exact .head _
    have hheight : nHeight = tip.pindex.nHeight + 1 := hheight
    have hupdate : updateHeight nHeight = updateHeight tip.pindex.nHeight := by
      unfold updateHeight
      omega
    rw [hupdate] at hV2 ⊢
    exact hcovered tip htip hV2

variable {pindexNew : CBlockIndex} {fAlreadyChecked : Bool}

/-- **A connection keeps the checkpoints covered.** -/
theorem connect_covered (hnet : IsNetwork P) {block : CBlock}
    (harrive : Arriving N (.connectTip M block nCheckpoint pindexNew fAlreadyChecked))
    (hsound : Sound P A N s (.connectTip M block nCheckpoint pindexNew fAlreadyChecked))
    (hchain : Segment.Falling heightOf s.chainActive) (hcovered : Covered P A N s) :
    Segment.Falling heightOf
        (s.ConnectTip P A M block nCheckpoint pindexNew fAlreadyChecked).chainActive ∧
      Covered P A N (s.ConnectTip P A M block nCheckpoint pindexNew fAlreadyChecked) := by
  obtain ⟨hlibrary, hpoints, hversion⟩ := harrive
  rcases @ConnectTip_validated P A M s block nCheckpoint pindexNew fAlreadyChecked with
    h | ⟨tip, rest, entry, db, m, hrest, hon, hheight, hcheckpoint, hvalid⟩
  · exact ⟨h ▸ hchain, hcovered.same h⟩
  generalize s.ConnectTip P A M block nCheckpoint pindexNew fAlreadyChecked = s' at hon ⊢
  have hmints {a b : Int} (hb : b ≤ heightOf entry) :
      mintsBetween P N s a b = mintsBetween P N s' a b :=
    (mintsBetween_cons hon rfl hb).symm
  have hbelow (height : Int) (hle : height ≤ heightOf entry) :
      updateHeight height - 10 ≤ heightOf entry := by
    unfold updateHeight
    omega
  have htop : s.Height = heightOf tip := by
    unfold Height
    rw [hrest]
    rfl
  refine ⟨?_, ?_⟩
  · rw [hon]
    refine List.pairwise_cons.mpr ⟨?_, hchain⟩
    intro other hother
    have hle := falling_le_tip hchain hrest hother
    omega
  intro other hother hV2
  rw [hon] at hother
  rcases List.mem_cons.mp hother with rfl | hother
  · have hentry : other.pindex.nAccumulatorCheckpoint = nCheckpoint := by
      rw [hcheckpoint]
      split_ifs with h3
      · rfl
      · exact (hversion h3).symm
    have hnext : s.Height + 1 = heightOf other := by omega
    rw [hentry]
    refine (connected_stands hnet hlibrary hpoints ?_ hchain hcovered hrest hheight hV2
      hvalid).congr (hmints (hbelow _ (le_refl _)))
    intro hreached hten
    rw [← hnext] at hreached hten ⊢
    exact hsound ⟨hreached, hten⟩
  · have hle : heightOf other ≤ heightOf entry := by
      have hle := falling_le_tip hchain hrest hother
      omega
    exact (hcovered other hother hV2).congr (hmints (hbelow _ hle))

/-- **A disconnection keeps the checkpoints covered.** -/
theorem disconnect_covered
    (hchain : Segment.Falling heightOf s.chainActive) (hcovered : Covered P A N s) :
    Segment.Falling heightOf (s.DisconnectTip P M).chainActive ∧
      Covered P A N (s.DisconnectTip P M) := by
  rw [DisconnectTip]
  split
  next tip prev rest hrest =>
    split
    next =>
      have hchain' := hchain
      rw [hrest] at hchain'
      obtain ⟨hlower, hfalling⟩ := List.pairwise_cons.mp hchain'
      refine ⟨hfalling, ?_⟩
      intro entry hentry hV2
      have hmem : entry ∈ s.chainActive := by
        rw [hrest]
        exact List.mem_cons_of_mem tip hentry
      refine (hcovered entry hmem hV2).congr (mintsBetween_cons hrest rfl ?_)
      have hlt : heightOf entry < heightOf tip := hlower entry hentry
      show heightOf entry - heightOf entry % 10 - 10 ≤ heightOf tip
      omega
    next => exact ⟨hchain, hcovered.same rfl⟩
  next => exact ⟨hchain, hcovered⟩

theorem sound_accumulates (hnet : IsNetwork P) (hchain : Segment.Falling heightOf s.chainActive)
    (hcovered : Covered P A N s) {e : AccumulatorEvent} (harrive : Arriving N e)
    (hsound : Sound P A N s e) : Accumulates P A N s e := by
  cases e with
  | disconnectTip => trivial
  | connectTip M block nCheckpoint pindexNew fAlreadyChecked =>
    obtain ⟨hlibrary, hpoints, -⟩ := harrive
    intro hV2 hten db nCheckpoint m hcalc
    obtain ⟨hright, -⟩ := hsound ⟨hV2, hten⟩
    refine (CalculateAccumulatorCheckpoint_spec hnet hlibrary hpoints hchain hV2 hright ?_ hcalc).1
    intro habove prev hprev
    cases hrest : s.chainActive with
    | nil =>
      unfold at' at hprev
      rw [hrest] at hprev
      cases hprev
    | cons tip rest =>
      have htop : s.Height = heightOf tip := by
        unfold Height
        rw [hrest]
        rfl
      exact hcovered.before hrest (by omega) hten habove prev hprev

/-- **Every mint is added up once, and covered by the checkpoints, throughout a run in which each
checkpoint that is computed starts right and moves on.** -/
theorem mints_covered (hnet : IsNetwork P) (A : AccumulatorParams) (N : CConnectNode)
    (s : AccumulatorChain) (es : List AccumulatorEvent)
    (hchain : Segment.Falling heightOf s.chainActive) (hcovered : Covered P A N s)
    (harrive : ∀ e ∈ es, Arriving N e)
    (hsound : Run.Guarded (accumulatorStep P A) (Sound P A N) s es) :
    Run.Throughout (accumulatorStep P A) (Covered P A N) s es ∧
      ∀ past e, past ++ [e] <+: es → Accumulates P A N (past.foldl (accumulatorStep P A) s) e := by
  have harriving : Run.Guarded (accumulatorStep P A) (fun _ e => Arriving N e) s es :=
    Run.guarded_of_forall harrive
  have hrun : Run.Throughout (accumulatorStep P A)
      (fun s => Segment.Falling heightOf s.chainActive ∧ Covered P A N s) s es := by
    refine Run.throughout_of_guarded ?_ ⟨hchain, hcovered⟩ (harriving.and hsound)
    rintro s e ⟨hchain, hcovered⟩ ⟨harrive, hsound⟩
    cases e with
    | connectTip M block nCheckpoint pindexNew fAlreadyChecked =>
      exact connect_covered hnet harrive hsound hchain hcovered
    | disconnectTip M => exact disconnect_covered hchain hcovered
  refine ⟨fun past hpast => (hrun past hpast).2, ?_⟩
  rintro past e ⟨rest, rfl⟩
  have hpast : past <+: past ++ [e] ++ rest := by
    rw [List.append_assoc]
    exact List.prefix_append past _
  obtain ⟨hchain, hcovered⟩ := hrun past hpast
  rw [List.append_assoc, Run.guarded_append] at hsound
  exact sound_accumulates hnet hchain hcovered (harrive e (by simp)) hsound.2.1

end

/-! ## No mint since the hard-coded checkpoint, for example

The test network, before its first checkpoint of version 2: at height 1000000000 the hard-coded
checkpoint of height 210020 is loaded.  It holds the coin of block 205000. -/

section
variable {P : CChainParams} {A : AccumulatorParams} {M : CAccumulatorNode} {N : CConnectNode}
  {s : AccumulatorChain} {entryAt : Int → ChainEntry} {n : Nat} {nHeight nHeightEnd : Int}

/-- A chain from height `n` down to the genesis block. -/
def downFrom (entryAt : Int → ChainEntry) : Nat → List ChainEntry
  | 0 => [entryAt 0]
  | n + 1 => entryAt (n + 1) :: downFrom entryAt n

theorem mem_downFrom {entry : ChainEntry} :
    entry ∈ downFrom entryAt n ↔ ∃ k : Nat, k ≤ n ∧ entry = entryAt k := by
  induction n with
  | zero => simp [downFrom]
  | succ n ih =>
    rw [downFrom, List.mem_cons, ih]
    constructor
    · rintro (rfl | ⟨k, hk, rfl⟩)
      · exact ⟨n + 1, le_refl _, by simp⟩
      · exact ⟨k, Nat.le_succ_of_le hk, rfl⟩
    · rintro ⟨k, hk, rfl⟩
      rcases Nat.lt_or_eq_of_le hk with hlt | rfl
      · exact .inr ⟨k, Nat.le_of_lt_succ hlt, rfl⟩
      · exact .inl (by simp)

theorem downFrom_top : ∃ rest, downFrom entryAt n = entryAt n :: rest := by
  cases n with
  | zero => exact ⟨[], rfl⟩
  | succ n => exact ⟨downFrom entryAt n, rfl⟩

theorem falling_downFrom (hheight : ∀ k : Int, heightOf (entryAt k) = k) :
    Segment.Falling heightOf (downFrom entryAt n) := by
  induction n with
  | zero => exact List.pairwise_singleton _ _
  | succ n ih =>
    refine List.pairwise_cons.mpr ⟨?_, ih⟩
    intro entry hentry
    obtain ⟨k, hk, rfl⟩ := mem_downFrom.mp hentry
    rw [hheight, hheight]
    omega

theorem mintsBetween_quiet (h : ∀ entry ∈ s.chainActive, nHeight ≤ heightOf entry →
      heightOf entry < nHeightEnd → mintsOf N entry = []) :
    mintsBetween P N s nHeight nHeightEnd = [] := by
  refine List.eq_nil_iff_forall_not_mem.mpr ?_
  intro coin hcoin
  obtain ⟨entry, hentry, ⟨-, hfrom⟩, hbelow, hmint⟩ := mem_mintsBetween.mp hcoin
  rw [h entry hentry hfrom hbelow] at hmint
  cases hmint

theorem accumulateBlocks_quiet (hrun : M.ShutdownRequested = false)
    (hread : ∀ block, M.ReadBlockFromDisk block = true)
    (hquiet : ∀ k, nHeight ≤ k → k < nHeight + n → ∃ entry, s.at' k = some entry ∧
      BlockToPubcoinList M.toCConnectNode true entry.block.vtx = some [])
    (m : AccumulatorMap) (nTotal : Nat) :
    s.accumulateBlocks P A M true n nHeight m nTotal = some (m, nTotal) := by
  induction n generalizing nHeight with
  | zero => rfl
  | succ n ih =>
    obtain ⟨entry, hat, hlist⟩ := hquiet nHeight (le_refl _) (by omega)
    rw [accumulateBlocks, hrun, hat]
    simp only [hread, hlist, Accumulate, List.length_nil, Nat.add_zero, Bool.false_eq_true,
      Bool.not_true, if_false]
    rw [ih fun k hk hlt => hquiet k (by omega) (by omega), ite_self]

theorem ConnectTip_of_valid {block : CBlock}
    {m : AccumulatorMap} {c : Connected}
    (hrest : s.chainActive = tip :: rest) (hheight : pindexNew.nHeight = tip.pindex.nHeight + 1)
    (hgenesis : block.hash ≠ M.hashGenesisBlock)
    (hc : ConnectBlock (connectNode P M) block
      { pindexNew with
        nAccumulatorCheckpoint := if 3 < block.nVersion then nCheckpoint else 0 }
      tip.pindex s.pcoinsTip false fAlreadyChecked = .ok c)
    (hvalid : s.ValidateAccumulatorCheckpoint P A M pindexNew.nHeight nCheckpoint tip =
      (db, some m))
    (hundo : M.WriteUndo = true) (hspends : M.WriteCoinSpendBatch = true)
    (hmints : M.WriteCoinMintBatch = true) (hindex : M.fTxIndex = false) :
    (s.ConnectTip P A M block nCheckpoint pindexNew fAlreadyChecked).chainActive =
      ⟨block, c.pindex⟩ :: s.chainActive := by
  have hassert : ¬ (pindexNew.nHeight ≠ tip.pindex.nHeight + 1 ∨
      block.hash = M.hashGenesisBlock) := not_or.mpr ⟨not_not.mpr hheight, hgenesis⟩
  unfold ConnectTip
  rw [hrest]
  dsimp only
  rw [if_neg hassert, hc]
  rw [hvalid]
  rw [hundo, hspends, hmints, hindex]
  rfl

theorem CalculateAccumulatorCheckpoint_quiet (hrun : M.ShutdownRequested = false)
    (hread : ∀ block, M.ReadBlockFromDisk block = true)
    (hfilter : P.nBlockRecalculateAccumulators ≤ nHeight)
    {m : AccumulatorMap}
    (hinit : s.InitializeAccumulators P A M nHeight = (db, some (nHeightCheckpoint, m)))
    (hbehind : nHeightCheckpoint ≤ nHeight)
    (hquiet : ∀ k, nHeightCheckpoint - 20 ≤ k → k < nHeight - 10 → ∃ entry, s.at' k = some entry ∧
      BlockToPubcoinList M.toCConnectNode true entry.block.vtx = some [])
    {prev : ChainEntry} (hprev : s.at' (nHeight - 1) = some prev) :
    s.CalculateAccumulatorCheckpoint P A M nHeight =
      (db, some (prev.pindex.nAccumulatorCheckpoint, m)) := by
  have hloop : s.accumulateBlocks P A M true (nHeight - 10 - (nHeightCheckpoint - 20)).toNat
      (nHeightCheckpoint - 20) m 0 = some (m, 0) :=
    accumulateBlocks_quiet hrun hread (fun k hfrom hbelow => hquiet k hfrom (by omega)) m 0
  unfold CalculateAccumulatorCheckpoint
  rw [hinit]
  dsimp only
  rw [decide_eq_true hfilter, hloop, hprev]
  rfl

end

def mintingAt (heights : List Int) (nHeight : Int) : ChainEntry where
  block :=
    { quietBlock COIN [] with
      hash := 100
      vtx := if nHeight ∈ heights then
          [⟨300, 1, [⟨⟨9, 0⟩, [], 0⟩], [⟨COIN, [OP_ZEROCOINMINT]⟩], 0⟩]
        else [] }
  pindex := quietTip nHeight

def beforeV2 (heights : List Int) : AccumulatorChain where
  chainActive := downFrom (mintingAt heights) 999999999
  pcoinsTip := oneCoin
  accumulatorValues _ := none

def hardCodedParams : AccumulatorParams :=
  { productParams with mapCheckpoints := [(210020, (fiveIn [.ZQ_ONE]).mapAccumulators)] }

/-- The node of the examples, nine blocks earlier. -/
def lateNode : CAccumulatorNode :=
  { mintingNode with
    toCDisconnectNode :=
      { quietDisconnectNode with
        toCConnectNode :=
          { quietNode 999999999 with Z := { quietZerocoin with mintValue := fun _ => 5 } } } }

def firstComputed (nCheckpoint : uint256) : AccumulatorEvent :=
  .connectTip lateNode (quietBlock COIN []) nCheckpoint
    { quietTip 1000000000 with phashBlock := some 101 } true

section
variable {heights : List Int}

theorem list_mintingAt (nHeight : Int) :
    BlockToPubcoinList lateNode.toCConnectNode true (mintingAt heights nHeight).block.vtx =
      some (if nHeight ∈ heights then [⟨5, .ZQ_ONE⟩] else []) := by
  unfold mintingAt
  by_cases h : nHeight ∈ heights
  · rw [if_pos h, if_pos h]
    rfl
  · rw [if_neg h, if_neg h]
    rfl

theorem mintsOf_mintingAt (nHeight : Int) :
    mintsOf lateNode.toCConnectNode (mintingAt heights nHeight) =
      if nHeight ∈ heights then [⟨5, .ZQ_ONE⟩] else [] := by
  unfold mintsOf
  rw [list_mintingAt]
  rfl

theorem falling_beforeV2 : Segment.Falling heightOf (beforeV2 heights).chainActive :=
  falling_downFrom fun _ => rfl

theorem top_beforeV2 :
    ∃ rest, (beforeV2 heights).chainActive = mintingAt heights 999999999 :: rest := by
  have hcast : ((999999999 : Nat) : Int) = 999999999 := by decide
  obtain ⟨rest, hrest⟩ := @downFrom_top (mintingAt heights) 999999999
  exact ⟨rest, hrest⟩

theorem at_beforeV2 {k : Nat} (hk : k ≤ 999999999) :
    (beforeV2 heights).at' k = some (mintingAt heights k) :=
  at_of_mem falling_beforeV2 (mem_downFrom.mpr ⟨k, hk, rfl⟩)

theorem quiet_beforeV2 {a b : Int} (h : ∀ k ∈ heights, a ≤ k → ¬ k < b) :
    mintsBetween testNetParams lateNode.toCConnectNode (beforeV2 heights) a b = [] := by
  refine mintsBetween_quiet ?_
  intro entry hentry hfrom hbelow
  obtain ⟨k, -, rfl⟩ := mem_downFrom.mp hentry
  rw [mintsOf_mintingAt, if_neg fun hmem => h k hmem hfrom hbelow]

section
variable (hcoin : 205000 ∈ heights) (honly : ∀ k ∈ heights, k = 205000 ∨ 210000 ≤ k)
include hcoin honly

theorem minted_early :
    mintsBetween testNetParams lateNode.toCConnectNode (beforeV2 heights)
      testNetParams.nZerocoinStartHeight 210000 = [⟨5, .ZQ_ONE⟩] := by
  have hstart : testNetParams.nZerocoinStartHeight ≤ 205000 := by decide
  have hbefore : mintsBetween testNetParams lateNode.toCConnectNode (beforeV2 heights)
      testNetParams.nZerocoinStartHeight 205000 = [] := by
    refine quiet_beforeV2 ?_
    intro k hk _ hlt
    rcases honly k hk with rfl | hk
    · omega
    · omega
  have hbehind : mintsBetween testNetParams lateNode.toCConnectNode (beforeV2 heights)
      (205000 + 1) 210000 = [] := by
    refine quiet_beforeV2 ?_
    intro k hk _ hlt
    rcases honly k hk with rfl | hk
    · omega
    · omega
  have hcoinAt : mintsBetween testNetParams lateNode.toCConnectNode (beforeV2 heights)
      205000 (205000 + 1) = [⟨5, .ZQ_ONE⟩] := by
    have hat : (beforeV2 heights).at' 205000 = some (mintingAt heights 205000) :=
      @at_beforeV2 heights 205000 (by decide)
    rw [mintsBetween_single falling_beforeV2 hat hstart, mintsOf_mintingAt, if_pos hcoin]
  have hfrom : mintsBetween testNetParams lateNode.toCConnectNode (beforeV2 heights)
      205000 210000 = [⟨5, .ZQ_ONE⟩] := by
    rw [@mintsBetween_append _ _ _ (205000 + 1) _ _ falling_beforeV2 (by decide) (by decide),
      hcoinAt, hbehind]
    rfl
  rw [mintsBetween_append falling_beforeV2 hstart (by decide), hbefore, hfrom]
  rfl

theorem beforeV2_right :
    StartsRight testNetParams hardCodedParams lateNode.toCConnectNode (beforeV2 heights)
      1000000000 where
  loaded := by
    intro _ checkpoint hcheckpoint denom hdenom
    have hfind : hardCoded hardCodedParams 1000000000 =
        some (210020, (fiveIn [.ZQ_ONE]).mapAccumulators) := by
      rfl
    cases hcheckpoint
    unfold accumulated
    rw [show ((210020 : Int) - 20) = 210000 by decide, minted_early hcoin honly]
    revert denom
    decide
  started h := absurd h (by decide)
  unambiguous h := absurd h (by decide)

end

theorem beforeV2_covered : Covered testNetParams hardCodedParams lateNode.toCConnectNode
    (beforeV2 heights) := by
  intro entry hentry hV2
  obtain ⟨k, hk, rfl⟩ := mem_downFrom.mp hentry
  have hheight : (999999999 : Int) ≤ updateHeight (k : Int) := hV2
  unfold updateHeight at hheight
  omega

end

/-- Coin 5 is minted once more before the checkpoint: it covers both. -/
theorem mint_since_covered :
    Run.Throughout (accumulatorStep testNetParams hardCodedParams)
        (Covered testNetParams hardCodedParams lateNode.toCConnectNode)
        (beforeV2 [205000, 999999950])
        [firstComputed ((⟨false, fun denom => if denom = .ZQ_ONE then 25 else 1⟩ :
          AccumulatorMap).GetCheckpoint hardCodedParams)] ∧
      ∀ past e, past ++ [e] <+:
          [firstComputed ((⟨false, fun denom => if denom = .ZQ_ONE then 25 else 1⟩ :
            AccumulatorMap).GetCheckpoint hardCodedParams)] →
        Accumulates testNetParams hardCodedParams lateNode.toCConnectNode
          (past.foldl (accumulatorStep testNetParams hardCodedParams)
            (beforeV2 [205000, 999999950])) e := by
  refine mints_covered (.inr (.inl rfl)) hardCodedParams lateNode.toCConnectNode
    (beforeV2 [205000, 999999950]) _ falling_beforeV2 beforeV2_covered ?_ ⟨?_, trivial⟩
  · intro e he
    obtain rfl := List.mem_singleton.mp he
    exact ⟨rfl, rfl, fun h => absurd (by decide) h⟩
  · intro _
    refine ⟨beforeV2_right (by decide) (by decide), ?_⟩
    intro _ checkpoint hcheckpoint hnone
    have hfind : hardCoded hardCodedParams 1000000000 =
        some (210020, (fiveIn [.ZQ_ONE]).mapAccumulators) := by
      rfl
    have hcheckpoint : checkpoint ∈ hardCoded hardCodedParams 1000000000 := hcheckpoint
    cases hcheckpoint
    -- the coin of height 999999950
    have hcoin : (⟨5, .ZQ_ONE⟩ : PublicCoin) ∈ mintsBetween testNetParams lateNode.toCConnectNode
        (beforeV2 [205000, 999999950]) (210020 - 20) (1000000000 - 10) := by
      refine mem_mintsBetween.mpr ⟨mintingAt [205000, 999999950] 999999950, ?_,
        ⟨by decide, by decide⟩, by decide, ?_⟩
      · exact mem_downFrom.mpr ⟨999999950, by decide, rfl⟩
      · rw [mintsOf_mintingAt, if_pos (by decide)]
        exact List.mem_singleton_self _
    have hnone : mintsBetween testNetParams lateNode.toCConnectNode
        (beforeV2 [205000, 999999950]) (210020 - 20) (1000000000 - 10) = [] := hnone
    rw [hnone] at hcoin
    cases hcoin

theorem at_before_next : (beforeV2 [205000]).at' (1000000000 - 1) =
    some (mintingAt [205000] 999999999) := by
  have hnext : (1000000000 - 1 : Int) = ((999999999 : Nat) : Int) := by decide
  exact at_beforeV2 (by decide)

theorem quiet_blocks (k : Int) (hfrom : 210020 - 20 ≤ k) (hbelow : k < 1000000000 - 10) :
    ∃ entry, (beforeV2 [205000]).at' k = some entry ∧
      BlockToPubcoinList lateNode.toCConnectNode true entry.block.vtx = some [] := by
  obtain ⟨n, rfl⟩ := Int.eq_ofNat_of_zero_le (show 0 ≤ k by omega)
  refine ⟨mintingAt [205000] n, at_beforeV2 (by omega), ?_⟩
  rw [list_mintingAt, if_neg]
  intro hmem
  have hk : (n : Int) = 205000 := List.mem_singleton.mp hmem
  omega

theorem validated_zero : (beforeV2 [205000]).ValidateAccumulatorCheckpoint testNetParams
      hardCodedParams lateNode 1000000000 0 (mintingAt [205000] 999999999) =
    ((beforeV2 [205000]).accumulatorValues, some (fiveIn [.ZQ_ONE])) := by
  have hinit : (beforeV2 [205000]).InitializeAccumulators testNetParams hardCodedParams lateNode
      1000000000 = ((beforeV2 [205000]).accumulatorValues, some (210020, fiveIn [.ZQ_ONE])) := by
    rfl
  have hat : (beforeV2 [205000]).at' (1000000000 - 1) = some (mintingAt [205000] 999999999) :=
    at_before_next
  have hcalc := CalculateAccumulatorCheckpoint_quiet rfl (fun _ => rfl) (by decide) hinit
    (by decide) quiet_blocks hat
  unfold ValidateAccumulatorCheckpoint
  rw [if_neg (by decide), if_pos (by decide), hcalc]
  rfl

theorem no_five_minted (nHeight : Int) : (accumulated testNetParams hardCodedParams
    lateNode.toCConnectNode (beforeV2 [205000]) nHeight).mapAccumulators .ZQ_FIVE = 1 := by
  have hnone : (mintsBetween testNetParams lateNode.toCConnectNode (beforeV2 [205000])
      testNetParams.nZerocoinStartHeight nHeight).filter
        (fun coin => coin.denomination == .ZQ_FIVE) = [] := by
    refine List.filter_eq_nil_iff.mpr ?_
    intro coin hcoin
    obtain ⟨entry, hentry, -, -, hmint⟩ := mem_mintsBetween.mp hcoin
    obtain ⟨k, -, rfl⟩ := mem_downFrom.mp hentry
    rw [mintsOf_mintingAt] at hmint
    split_ifs at hmint
    · obtain rfl := List.mem_singleton.mp hmint
      decide
    · cases hmint
  unfold accumulated increments
  dsimp only
  rw [hnone]
  rfl

theorem firstComputed_step (s : AccumulatorChain) (nCheckpoint : uint256) :
    accumulatorStep testNetParams hardCodedParams s (firstComputed nCheckpoint) =
      s.ConnectTip testNetParams hardCodedParams lateNode (quietBlock COIN []) nCheckpoint
        { quietTip 1000000000 with phashBlock := some 101 } true := rfl

theorem connected_not_covered : ¬ Covered testNetParams hardCodedParams lateNode.toCConnectNode
    (accumulatorStep testNetParams hardCodedParams (beforeV2 [205000]) (firstComputed 0)) := by
  intro hcovered
  obtain ⟨c, hc⟩ := exists_of_isOk (show (ConnectBlock (connectNode testNetParams lateNode)
    (quietBlock COIN []) { quietTip 1000000000 with phashBlock := some 101 }
    (mintingAt [205000] 999999999).pindex oneCoin false true).isOk = true by decide +kernel)
  obtain ⟨rest, hrest⟩ := @top_beforeV2 [205000]
  rw [firstComputed_step] at hcovered
  have hon : ((beforeV2 [205000]).ConnectTip testNetParams hardCodedParams lateNode
        (quietBlock COIN []) 0 { quietTip 1000000000 with phashBlock := some 101 }
        true).chainActive =
      ⟨quietBlock COIN [], c.pindex⟩ :: (beforeV2 [205000]).chainActive := by
    refine ConnectTip_of_valid hrest ?_ ?_ hc validated_zero ?_ ?_ ?_ ?_
    · decide
    · decide
    · rfl
    · rfl
    · rfl
    · rfl
  generalize (beforeV2 [205000]).ConnectTip testNetParams hardCodedParams lateNode
    (quietBlock COIN []) 0 { quietTip 1000000000 with phashBlock := some 101 } true = s'
    at hcovered hon
  have hheight : c.pindex.nHeight = 1000000000 := ConnectBlock_nHeight hc
  have hzero : c.pindex.nAccumulatorCheckpoint = 0 :=
    @ConnectBlock_checkpoint (connectNode testNetParams lateNode) _ _ _ _ _ _ (by decide) hc
  have hmem : (⟨quietBlock COIN [], c.pindex⟩ : ChainEntry) ∈ s'.chainActive := by
    rw [hon]
    exact .head _
  have hupdate : updateHeight c.pindex.nHeight = 1000000000 := by
    rw [hheight]
    decide
  have hV2 : testNetParams.nBlockZerocoinV2 ≤ updateHeight c.pindex.nHeight := by
    rw [hupdate]
    decide
  have hstands : StandsFor testNetParams hardCodedParams lateNode.toCConnectNode s'
      c.pindex.nAccumulatorCheckpoint (updateHeight c.pindex.nHeight - 10) := hcovered _ hmem hV2
  rw [hzero, hupdate] at hstands
  have hbelow : (1000000000 - 10 : Int) ≤ heightOf ⟨quietBlock COIN [], c.pindex⟩ := by
    show (1000000000 - 10 : Int) ≤ c.pindex.nHeight
    omega
  have hstands := hstands.congr (mintsBetween_cons hon rfl hbelow)
  rcases hstands with hcheckpoint | ⟨-, hnone⟩
  · -- an accumulator without a coin has a checksum too
    have hchecksum := congrArg (fun nCheckpoint => ParseChecksum nCheckpoint .ZQ_FIVE) hcheckpoint
    have hparse := parse_GetCheckpoint hardCodedParams (accumulated testNetParams hardCodedParams
      lateNode.toCConnectNode (beforeV2 [205000]) (1000000000 - 10))
      (show CoinDenomination.ZQ_FIVE ∈ CoinDenomination.zerocoinDenomList by decide)
    have hvalue : (accumulated testNetParams hardCodedParams lateNode.toCConnectNode
        (beforeV2 [205000]) (1000000000 - 10)).mapAccumulators .ZQ_FIVE = 1 := no_five_minted _
    rw [hvalue] at hparse
    exact absurd (hchecksum.trans hparse) (by decide)
  · have hcoin : (⟨5, .ZQ_ONE⟩ : PublicCoin) ∈ mintsBetween testNetParams lateNode.toCConnectNode
        (beforeV2 [205000]) testNetParams.nZerocoinStartHeight (1000000000 - 10) := by
      refine mem_mintsBetween.mpr ⟨mintingAt [205000] 205000, ?_, ⟨by decide, by decide⟩,
        by decide, ?_⟩
      · exact mem_downFrom.mpr ⟨205000, by decide, rfl⟩
      · rw [mintsOf_mintingAt, if_pos (by decide)]
        exact List.mem_singleton_self _
    rw [hnone] at hcoin
    cases hcoin

/-- The coin of the hard-coded checkpoint is in no checkpoint of the chain. -/
theorem early_mint_lost :
    ¬ (∀ (P : CChainParams) (A : AccumulatorParams) (N : CConnectNode) (s : AccumulatorChain)
        (es : List AccumulatorEvent), IsNetwork P → Segment.Falling heightOf s.chainActive →
        Covered P A N s → (∀ e ∈ es, Arriving N e) →
        Run.Guarded (accumulatorStep P A)
          (fun s e => Computes P s e → StartsRight P A N s (s.Height + 1)) s es →
        Run.Throughout (accumulatorStep P A) (Covered P A N) s es) := by
  intro hall
  have hcovered := hall testNetParams hardCodedParams lateNode.toCConnectNode (beforeV2 [205000])
    [firstComputed 0] (.inr (.inl rfl)) falling_beforeV2 beforeV2_covered ?_
    ⟨?_, Run.guarded_nil _⟩ [firstComputed 0] (List.prefix_refl _)
  · rw [List.foldl_cons, List.foldl_nil] at hcovered
    exact connected_not_covered hcovered
  · intro e he
    obtain rfl := List.mem_singleton.mp he
    exact ⟨rfl, rfl, fun _ => rfl⟩
  · intro _
    exact beforeV2_right (by decide) (by decide)

end AccumulatorChain

end Divitae
