/-
# `AccumulatorWitness` — the walk that makes a witness

To spend a coin one shows an accumulator that holds it, and the accumulator of all the others.
`GenerateAccumulatorWitness` walks up the active chain and adds the mints of each block but the
coin itself:

    from     ten blocks below the height whose accumulator value is taken: a hard-coded one, or
             that of the checkpoint above the mint
    to       the first block from the stop height on, or with as many new checkpoints below it
             as the security level asks for
    1050010  from there the walk goes back to 1050000 once; these blocks had been accumulated
             twice when version 2 came

    Reaches s i    the walk gets to its `i`-th block
    walked s i     the blocks before the `i`-th: one stretch, or two

Each mint of the stretches is in the witness once, which is what the accumulators of the chain
have: the blocks from 1050000 to 1050010 come twice where the walk passes them.
-/
import Divitae.AccumulatedMints
import Divitae.Lib.Loop

namespace Divitae

open AccumulatorMap AccumulatorChain List Option Segment

/-! ## Accumulators and witnesses -/

structure Accumulator where
  useModulusV1 : Bool
  denomination : CoinDenomination
  value : Int

namespace Accumulator

variable (A : AccumulatorParams) (Z : Zerocoin) (accumulator : Accumulator)

def increment (bnValue : Int) : Accumulator :=
  { accumulator with value := A.increment accumulator.useModulusV1 accumulator.value bnValue }

/-- `accumulate`; it throws where the coin does not belong into the accumulator. -/
def accumulate (coin : PublicCoin) : Option Accumulator :=
  if accumulator.value = 0 then none
  else if accumulator.denomination ≠ coin.denomination then none
  else if Z.validate coin then some (accumulator.increment A coin.value)
  else none

def setValue (bnValue : Int) : Accumulator := { accumulator with value := bnValue }

end Accumulator

structure AccumulatorWitness where
  witness : Accumulator
  element : PublicCoin

namespace AccumulatorWitness

variable (A : AccumulatorParams) (Z : Zerocoin) (witness : AccumulatorWitness)

def resetValue (checkpoint : Accumulator) (coin : PublicCoin) : AccumulatorWitness :=
  ⟨witness.witness.setValue checkpoint.value, coin⟩

def getValue : Int := witness.witness.value

/-- `VerifyWitness`; `none` where it throws. -/
def VerifyWitness (a : Accumulator) (publicCoin : PublicCoin) : Option Bool :=
  (witness.witness.accumulate A Z witness.element).map fun temp =>
    temp.value == a.value && witness.element == publicCoin

end AccumulatorWitness

/-! ## The walk -/

def InvalidCheckpointRange (P : CChainParams) (nHeight : Int) : Prop :=
  P.nBlockLastGoodCheckpoint < nHeight ∧ nHeight < P.nBlockRecalculateAccumulators

instance (P : CChainParams) (nHeight : Int) : Decidable (InvalidCheckpointRange P nHeight) :=
  inferInstanceAs (Decidable (_ ∧ _))

/-- What the wallet asks of the node besides. -/
structure CWitnessNode extends CAccumulatorNode where
  /-- `cs_main` is to be had within the hundred attempts -/
  lockMain : Bool
  /-- `GetTransaction`: the hash of the block the transaction is in -/
  GetTransaction : uint256 → Option uint256

/-- The numbers a walk is made with. -/
structure WitnessWalk where
  coin : PublicCoin
  nHeightMintAdded : Int
  nAccStartHeight : Int
  /-- `nHeightCheckpoint - 10`, where it begins -/
  nHeightFrom : Int
  nHeightStop : Int
  nSecurityLevel : Int
  /-- with the value it begins with -/
  accumulator : Accumulator

/-- What changes from round to round. -/
structure WalkState where
  pindex : Option ChainEntry
  nCheckpointsAdded : Int
  nMintsAdded : Int
  witnessAccumulator : Accumulator
  fDoubleCounted : Bool

def nRequiredAccumulation : Int := 1

/-- `RandomizeSecurityLevel`, with the number drawn. -/
def RandomizeSecurityLevel (nRand nSecurityLevel : Int) : Int :=
  if nSecurityLevel < 100 then
    if 100 ≤ nSecurityLevel + nRand then 99 else nSecurityLevel + nRand
  else nSecurityLevel

/-- The loop of `AddBlockMintsToAccumulator` over the mints of a block at a height. -/
def addMints (A : AccumulatorParams) (coin : PublicCoin) (nHeightMintAdded nHeight : Int)
    (isWitness : Bool) : List PublicCoin → Accumulator → Int → Accumulator × Int
  | [], accumulator, nMintsAdded => (accumulator, nMintsAdded)
  | pubcoin :: listPubcoins, accumulator, nMintsAdded =>
    if pubcoin.denomination ≠ coin.denomination then
      addMints A coin nHeightMintAdded nHeight isWitness listPubcoins accumulator nMintsAdded
    else if isWitness ∧ nHeight = nHeightMintAdded ∧ pubcoin.value = coin.value then
      addMints A coin nHeightMintAdded nHeight isWitness listPubcoins accumulator nMintsAdded
    else
      addMints A coin nHeightMintAdded nHeight isWitness listPubcoins
        (accumulator.increment A pubcoin.value) (nMintsAdded + 1)

section
variable (A : AccumulatorParams) (M : CAccumulatorNode)

/-- `AddBlockMintsToAccumulator`.  Where the block cannot be read no mint is added. -/
def AddBlockMintsToAccumulator (coin : PublicCoin) (nHeightMintAdded : Int) (entry : ChainEntry)
    (accumulator : Accumulator) (isWitness : Bool) : Accumulator × Int :=
  if coin.denomination ∈ entry.pindex.vMintDenominationsInBlock then
    if !M.ReadBlockFromDisk entry.block then (accumulator, 0)
    else
      match BlockToPubcoinList M.toCConnectNode true entry.block.vtx with
      | none => (accumulator, 0)
      | some listPubcoins =>
        addMints A coin nHeightMintAdded (heightOf entry) isWitness listPubcoins accumulator 0
  else (accumulator, 0)

end

namespace AccumulatorChain

variable (P : CChainParams) (A : AccumulatorParams) (M : CWitnessNode) (s : AccumulatorChain)

/-- `GetAccumulatorValueFromDB`: 0 where there is no value. -/
def GetAccumulatorValueFromDB (nCheckpoint : uint256) (denom : CoinDenomination) : Int :=
  (s.accumulatorValues (ParseChecksum nCheckpoint denom)).getD 0

/-- `GetAccumulatorValue`: the height it settles on, and the value there. -/
def GetAccumulatorValue (nHeight : Int) (denom : CoinDenomination) : Option (Int × Int) :=
  if s.Height < nHeight then none
  else
    match s.at' nHeight with
    | none => none
    | some entry =>
      if P.nBlockZerocoinV2 + 20 < nHeight then
        some (nHeight, s.GetAccumulatorValueFromDB entry.pindex.nAccumulatorCheckpoint denom)
      else if closestHeight nHeight A.mapCheckpoints (-1) < 0 then
        -- start at the first zerocoin
        some (P.nZerocoinStartHeight + 10, A.accumulatorBase false)
      else (hardCoded A nHeight).map fun checkpoint => (checkpoint.1, checkpoint.2 denom)

/-- `ComputeAccumulatedCoins` over so many blocks from a height on; there is none to read the
height of where the chain ends. -/
def accumulatedCoins (denom : CoinDenomination) : Nat → Int → Option Int
  | 0, nHeight => (s.at' nHeight).map fun _ => 0
  | n + 1, nHeight =>
    (s.at' nHeight).bind fun entry =>
      (accumulatedCoins denom n (nHeight + 1)).map fun rest =>
        (entry.pindex.vMintDenominationsInBlock.count denom : Int) + rest

def ComputeAccumulatedCoins (nHeightEnd : Int) (denom : CoinDenomination) : Option Int :=
  s.accumulatedCoins denom (nHeightEnd - P.nZerocoinStartHeight).toNat P.nZerocoinStartHeight

def startWalk (coin : PublicCoin) (accumulator : Accumulator) (nSecurityLevel nRand : Int)
    (pindexCheckpoint : Option Int) : Option WitnessWalk :=
  if !M.lockMain then none
  else
    match M.Z.ReadCoinMint coin.value with
    | none => none
    | some txid =>
      match M.GetTransaction txid with
      | none => none
      | some hashBlock =>
        if (M.IsTransactionInChain txid).isNone then none
        else
          match M.mapBlockIndex hashBlock with
          | none => none
          | some nHeightMintAdded =>
            let nHeightCheckpoint := nHeightMintAdded + (10 - nHeightMintAdded.tmod 10)
            let started := (s.GetAccumulatorValue P A nHeightCheckpoint
              coin.denomination).getD (nHeightCheckpoint, accumulator.value)
            let nHeightStop :=
              match pindexCheckpoint with
              | none => s.Height - s.Height.tmod 10 - 20
              | some nHeight => nHeight - 10
            some {
              coin := coin
              nHeightMintAdded := nHeightMintAdded
              nAccStartHeight := nHeightMintAdded - nHeightMintAdded.tmod 10
              nHeightFrom := started.1 - 10
              nHeightStop := nHeightStop
              nSecurityLevel := RandomizeSecurityLevel nRand nSecurityLevel
              accumulator := accumulator.setValue started.2 }

variable (w : WitnessWalk)

/-- `nCheckpointsAdded` at a block; there must be one before it. -/
def countCheckpoint (entry : ChainEntry) (nCheckpointsAdded : Int) : Option Int :=
  if heightOf entry = w.nAccStartHeight then some nCheckpointsAdded
  else
    (s.at' (heightOf entry - 1)).map fun prev =>
      if prev.pindex.nAccumulatorCheckpoint ≠ entry.pindex.nAccumulatorCheckpoint then
        nCheckpointsAdded + 1
      else nCheckpointsAdded

/-- The condition the walk ends on. -/
def Satisfied (nHeight nCheckpointsAdded : Int) : Prop :=
  w.nHeightStop ≤ nHeight ∨ w.nSecurityLevel ≠ 100 ∧ w.nSecurityLevel ≤ nCheckpointsAdded

instance (nHeight nCheckpointsAdded : Int) : Decidable (Satisfied w nHeight nCheckpointsAdded) :=
  inferInstanceAs (Decidable (_ ∨ _))

/-- The body of the loop.  It ends with an accumulator, or with nothing where the function
returns an error or reads a block that is not there. -/
def walkBody (st : WalkState) : WalkState ⊕ Option (Accumulator × WalkState) :=
  match st.pindex with
  | none => .inr (some (w.accumulator, st))
  | some entry =>
    match s.countCheckpoint w entry st.nCheckpointsAdded with
    | none => .inr none
    | some nCheckpointsAdded =>
      if Satisfied w (heightOf entry) nCheckpointsAdded then
        if InvalidCheckpointRange P (heightOf entry) then
          -- `continue`, at the same block
          .inl { st with nCheckpointsAdded := nCheckpointsAdded }
        else
          match s.at' (heightOf entry + 10) with
          | none => .inr none
          | some spend =>
            let bnAccValue := s.GetAccumulatorValueFromDB
              spend.pindex.nAccumulatorCheckpoint w.coin.denomination
            if bnAccValue = 0 then .inr none
            else .inr (some (w.accumulator.setValue bnAccValue, st))
      else
        let added := AddBlockMintsToAccumulator A M.toCAccumulatorNode w.coin
          w.nHeightMintAdded entry st.witnessAccumulator true
        let nMintsAdded := st.nMintsAdded + added.2
        if heightOf entry = 1050010 ∧ st.fDoubleCounted = false then
          .inl ⟨s.at' 1050000, nCheckpointsAdded, nMintsAdded, added.1, true⟩
        else
          .inl ⟨s.at' (heightOf entry + 1), nCheckpointsAdded, nMintsAdded, added.1,
            st.fDoubleCounted⟩

def walkStart : WalkState where
  pindex := s.at' w.nHeightFrom
  nCheckpointsAdded := 0
  nMintsAdded := 0
  witnessAccumulator := w.accumulator
  fDoubleCounted := false

/-- What is done with the accumulator and the witness behind the loop. -/
def finishWalk (witness : AccumulatorWitness) (accumulator : Accumulator) (st : WalkState) :
    Option (Accumulator × AccumulatorWitness × Int) :=
  let witness := witness.resetValue st.witnessAccumulator w.coin
  if witness.VerifyWitness A M.Z accumulator w.coin ≠ some true then none
  else if st.nMintsAdded < nRequiredAccumulation then none
  else
    (s.ComputeAccumulatedCoins P w.nAccStartHeight w.coin.denomination).map fun n =>
      (accumulator, witness, st.nMintsAdded + n)

/-- `GenerateAccumulatorWitness`, where its loop ends within `fuel` rounds: the accumulator, the
witness and the number of mints if it succeeds. -/
def GenerateAccumulatorWitness (coin : PublicCoin) (accumulator : Accumulator)
    (witness : AccumulatorWitness) (nSecurityLevel nRand : Int) (pindexCheckpoint : Option Int)
    (fuel : Nat) : Option (Option (Accumulator × AccumulatorWitness × Int)) :=
  match s.startWalk P A M coin accumulator nSecurityLevel nRand pindexCheckpoint with
  | none => some none
  | some w =>
    (Loop.run (s.walkBody P A M w) fuel (s.walkStart w)).map fun ended =>
      ended.bind fun spent => s.finishWalk P A M w witness spent.1 spent.2

/-! ## Where the walk is -/

/-- After `i` blocks the walk has gone back. -/
def WentBack (i : Nat) : Prop := w.nHeightFrom ≤ 1050010 ∧ 1050010 < w.nHeightFrom + i

instance (i : Nat) : Decidable (WentBack w i) := inferInstanceAs (Decidable (_ ∧ _))

/-- The height of the `i`-th block of the walk. -/
def heightAfter (i : Nat) : Int :=
  if WentBack w i then w.nHeightFrom + i - 11 else w.nHeightFrom + i

/-- The blocks before the `i`-th. -/
def walked (i : Nat) : List ChainEntry :=
  if WentBack w i then
    Segment.between heightOf s.chainActive w.nHeightFrom 1050011 ++
      Segment.between heightOf s.chainActive 1050000 (heightAfter w i)
  else Segment.between heightOf s.chainActive w.nHeightFrom (heightAfter w i)

/-- The block has another checkpoint than the one before; the first block of the mint's group
does not count. -/
def newCheckpoint (entry : ChainEntry) : Bool :=
  heightOf entry ≠ w.nAccStartHeight && (s.at' (heightOf entry - 1)).any fun prev =>
    prev.pindex.nAccumulatorCheckpoint ≠ entry.pindex.nAccumulatorCheckpoint

/-- The condition to end is met at the `i`-th block. -/
def Stops (i : Nat) : Prop :=
  Satisfied w (heightAfter w i) ((s.walked w (i + 1)).countP (s.newCheckpoint w))

/-- The walk gets to its `i`-th block. -/
def Reaches (i : Nat) : Prop := ∀ j < i, (s.at' (heightAfter w j)).isSome ∧ ¬ Stops s w j

/-- The walk stops at its `i`-th block. -/
def StopsAt (i : Nat) : Prop := Reaches s w i ∧ (s.at' (heightAfter w i)).isSome ∧ Stops s w i

/-- The chain has no more than `i` blocks for the walk. -/
def RunsOut (i : Nat) : Prop := Reaches s w i ∧ s.at' (heightAfter w i) = none

/-- A mint at a height is another one than the coin that was minted at this height. -/
def isOther (coin : PublicCoin) (nHeightMintAdded nHeight : Int) (pubcoin : PublicCoin) : Bool :=
  decide ¬ (nHeight = nHeightMintAdded ∧ pubcoin.value = coin.value)

/-- The mints of blocks, but not the coin itself. -/
def otherMints (N : CConnectNode) (entries : List ChainEntry) : List PublicCoin :=
  entries.flatMap fun entry =>
    (mintsOf N entry).filter (isOther w.coin w.nHeightMintAdded (heightOf entry))

/-- How many coins are of the denomination. -/
def countOf (denom : CoinDenomination) (coins : List PublicCoin) : Int :=
  (coins.countP fun coin => coin.denomination == denom : Nat)

/-- The blocks of the chain and what the index says of them: they can be read, and the
denominations of their mints are noted. -/
structure OnRecord (M : CAccumulatorNode) (s : AccumulatorChain) : Prop where
  read : ∀ entry ∈ s.chainActive, M.ReadBlockFromDisk entry.block = true
  listed : ∀ entry ∈ s.chainActive,
    (BlockToPubcoinList M.toCConnectNode true entry.block.vtx).isSome
  noted : ∀ entry ∈ s.chainActive, ∀ coin ∈ mintsOf M.toCConnectNode entry,
    coin.denomination ∈ entry.pindex.vMintDenominationsInBlock

/-! ## The blocks of the walk -/

section
variable {s : AccumulatorChain} {w : WitnessWalk} {entry : ChainEntry} {i j : Nat}

theorem heightAfter_back (hheight : heightAfter w i = 1050010) (hfirst : ¬ WentBack w i) :
    WentBack w (i + 1) ∧ heightAfter w (i + 1) = 1050000 := by
  unfold heightAfter at hheight ⊢
  rw [if_neg hfirst] at hheight
  have hback : WentBack w (i + 1) := by
    unfold WentBack
    omega
  rw [if_pos hback]
  exact ⟨hback, by omega⟩

theorem heightAfter_up (h : ¬ (heightAfter w i = 1050010 ∧ ¬ WentBack w i)) :
    (WentBack w (i + 1) ↔ WentBack w i) ∧ heightAfter w (i + 1) = heightAfter w i + 1 := by
  unfold heightAfter at h ⊢
  by_cases hback : WentBack w i
  · have hnext : WentBack w (i + 1) := by
      unfold WentBack at hback ⊢
      omega
    rw [if_pos hback, if_pos hnext]
    exact ⟨iff_of_true hnext hback, by omega⟩
  · rw [if_neg hback] at h
    have hnext : ¬ WentBack w (i + 1) := by
      unfold WentBack at hback ⊢ h
      omega
    rw [if_neg hback, if_neg hnext]
    exact ⟨iff_of_false hnext hback, by omega⟩

theorem le_heightAfter_of_not (h : ¬ WentBack w i) : w.nHeightFrom ≤ heightAfter w i := by
  unfold heightAfter
  rw [if_neg h]
  omega

theorem heightAfter_of_back (h : WentBack w i) : 1050000 ≤ heightAfter w i := by
  unfold heightAfter
  rw [if_pos h]
  unfold WentBack at h
  omega

/-- **One block more.** -/
theorem walked_succ (hchain : Segment.Falling heightOf s.chainActive)
    (hat : s.at' (heightAfter w i) = some entry) :
    s.walked w (i + 1) = s.walked w i ++ [entry] := by
  have hsingle := between_single hchain hat
  unfold walked
  by_cases hjump : heightAfter w i = 1050010 ∧ ¬ WentBack w i
  · obtain ⟨hnext, hheight⟩ := heightAfter_back hjump.1 hjump.2
    have hend : (1050010 : Int) + 1 = 1050011 := by decide
    have hstart : w.nHeightFrom ≤ 1050010 := hjump.1 ▸ le_heightAfter_of_not hjump.2
    rw [hjump.1] at hsingle
    rw [if_pos hnext, if_neg hjump.2, hheight, hjump.1, between_of_le (le_refl _),
      append_nil, ← hend, between_append hchain hstart (by omega), hsingle]
  · obtain ⟨hback, hheight⟩ := heightAfter_up hjump
    rw [hheight]
    by_cases hbefore : WentBack w i
    · rw [if_pos (hback.mpr hbefore), if_pos hbefore,
        between_append hchain (heightAfter_of_back hbefore) (by omega), hsingle,
        append_assoc]
    · rw [if_neg fun h => hbefore (hback.mp h), if_neg hbefore,
        between_append hchain (le_heightAfter_of_not hbefore) (by omega), hsingle]

theorem walked_zero : s.walked w 0 = [] := by
  have hfirst : ¬ WentBack w 0 := by
    unfold WentBack
    omega
  unfold walked heightAfter
  rw [if_neg hfirst, if_neg hfirst]
  exact between_of_le (by omega)

theorem exists_above (s : AccumulatorChain) (w : WitnessWalk) :
    ∃ n : Nat, ∀ j, n ≤ j → s.at' (heightAfter w j) = none := by
  obtain ⟨top, htop⟩ : ∃ top : Int, ∀ entry ∈ s.chainActive, heightOf entry ≤ top := by
    induction s.chainActive with
    | nil => exact ⟨0, nofun⟩
    | cons entry chain ih =>
      obtain ⟨top, htop⟩ := ih
      refine ⟨max (heightOf entry) top, ?_⟩
      intro other hother
      rcases mem_cons.mp hother with rfl | hother
      · exact le_max_left _ _
      · exact (htop other hother).trans (le_max_right _ _)
  refine ⟨(top - w.nHeightFrom + 12).toNat, ?_⟩
  intro j hj
  cases hat : s.at' (heightAfter w j) with
  | none => rfl
  | some entry =>
    obtain ⟨hmem, hheight⟩ := at_eq_some hat
    have hle := htop entry hmem
    unfold heightAfter at hheight
    split_ifs at hheight
    · omega
    · omega

end

section
variable {A : AccumulatorParams} {M : CAccumulatorNode} {N : CConnectNode} {s : AccumulatorChain}
  {w : WitnessWalk} {entry : ChainEntry} {accumulator : Accumulator}

theorem addMints_spec (coin : PublicCoin) (nHeightMintAdded nHeight : Int)
    (listPubcoins : List PublicCoin) (accumulator : Accumulator) (nMintsAdded : Int) :
    addMints A coin nHeightMintAdded nHeight true listPubcoins accumulator nMintsAdded =
      (accumulator.setValue (increments A accumulator.useModulusV1 coin.denomination
          accumulator.value (listPubcoins.filter (isOther coin nHeightMintAdded nHeight))),
        nMintsAdded + countOf coin.denomination
          (listPubcoins.filter (isOther coin nHeightMintAdded nHeight))) := by
  induction listPubcoins generalizing accumulator nMintsAdded with
  | nil => exact Prod.ext rfl (Int.add_zero _).symm
  | cons pubcoin listPubcoins ih =>
    unfold addMints
    by_cases hself : nHeight = nHeightMintAdded ∧ pubcoin.value = coin.value
    · have hskip : ¬ isOther coin nHeightMintAdded nHeight pubcoin = true := by
        simpa [isOther] using hself
      rw [filter_cons_of_neg hskip]
      split_ifs with hdenom hcoin
      · exact ih _ _
      · exact ih _ _
      · exact absurd ⟨rfl, hself⟩ hcoin
    · have hkeep : isOther coin nHeightMintAdded nHeight pubcoin = true :=
        decide_eq_true hself
      rw [filter_cons_of_pos hkeep]
      split_ifs with hdenom hcoin
      · rw [ih]
        simp [increments, countOf, hdenom]
      · exact absurd hcoin.2 hself
      · rw [ih]
        have hone (a b : Int) : a + 1 + b = a + (b + 1) := by omega
        simp [increments, countOf, not_not.mp hdenom, Accumulator.setValue,
          Accumulator.increment, hone]

theorem increments_of_none {useModulusV1 : Bool} {denom : CoinDenomination} {bnValue : Int}
    {coins : List PublicCoin} (h : ∀ coin ∈ coins, coin.denomination ≠ denom) :
    increments A useModulusV1 denom bnValue coins = bnValue ∧ countOf denom coins = 0 := by
  have hfalse : ∀ coin ∈ coins, ¬ (coin.denomination == denom) = true := by
    intro coin hcoin heq
    exact h coin hcoin (beq_iff_eq.mp heq)
  refine ⟨?_, congrArg Int.ofNat (countP_eq_zero.mpr hfalse)⟩
  unfold increments
  rw [filter_eq_nil_iff.mpr hfalse]
  rfl

/-- **A block of the chain adds its mints of the denomination, each once, but the coin itself.** -/
theorem AddBlockMints_spec (hrecord : OnRecord M s) (hentry : entry ∈ s.chainActive) :
    AddBlockMintsToAccumulator A M w.coin w.nHeightMintAdded entry accumulator true =
      (accumulator.setValue (increments A accumulator.useModulusV1 w.coin.denomination
          accumulator.value (otherMints w M.toCConnectNode [entry])),
        countOf w.coin.denomination (otherMints w M.toCConnectNode [entry])) := by
  have hothers : otherMints w M.toCConnectNode [entry] =
      (mintsOf M.toCConnectNode entry).filter
        (isOther w.coin w.nHeightMintAdded (heightOf entry)) :=
    append_nil _
  rw [hothers]
  unfold AddBlockMintsToAccumulator
  by_cases hminted : w.coin.denomination ∈ entry.pindex.vMintDenominationsInBlock
  · obtain ⟨listPubcoins, hlist⟩ := isSome_iff_exists.mp (hrecord.listed entry hentry)
    have hmints : mintsOf M.toCConnectNode entry = listPubcoins := by
      unfold mintsOf
      rw [hlist]
      rfl
    rw [if_pos hminted, hrecord.read entry hentry, hlist, hmints]
    refine (addMints_spec _ _ _ _ _ _).trans ?_
    rw [Int.zero_add]
  · have hnone : ∀ coin ∈ (mintsOf M.toCConnectNode entry).filter
        (isOther w.coin w.nHeightMintAdded (heightOf entry)),
        coin.denomination ≠ w.coin.denomination := by
      intro coin hcoin heq
      have hnoted := hrecord.noted entry hentry coin (mem_of_mem_filter hcoin)
      exact hminted (heq ▸ hnoted)
    obtain ⟨hsame, hzero⟩ := @increments_of_none A accumulator.useModulusV1 _ accumulator.value _
      hnone
    rw [if_neg hminted, hsame, hzero]
    rfl

theorem otherMints_append (entries more : List ChainEntry) :
    otherMints w N (entries ++ more) = otherMints w N entries ++ otherMints w N more :=
  flatMap_append

end

/-! ## The walk -/

section
variable (A : AccumulatorParams) (N : CConnectNode) (s : AccumulatorChain) (w : WitnessWalk)

/-- The value of the witness with the other mints of the blocks before the `i`-th. -/
def witnessAfter (i : Nat) : Int :=
  increments A w.accumulator.useModulusV1 w.coin.denomination w.accumulator.value
    (otherMints w N (s.walked w i))

/-- The walk is at its `i`-th block. -/
structure Walking (i : Nat) (st : WalkState) : Prop where
  reached : Reaches s w i
  here : st.pindex = s.at' (heightAfter w i)
  counted : st.nCheckpointsAdded = (s.walked w i).countP (s.newCheckpoint w)
  added : st.witnessAccumulator = w.accumulator.setValue (witnessAfter A N s w i)
  mints : st.nMintsAdded = countOf w.coin.denomination (otherMints w N (s.walked w i))
  back : st.fDoubleCounted = decide (WentBack w i)

/-- What the walk leaves, if it ends with an accumulator. -/
def EndsWell (r : Option (Accumulator × WalkState)) : Prop :=
  ∀ accumulator st, r = some (accumulator, st) → ∃ i, (StopsAt s w i ∨ RunsOut s w i) ∧
    st.witnessAccumulator = w.accumulator.setValue (witnessAfter A N s w i)

end

section
variable {P : CChainParams} {A : AccumulatorParams} {M : CWitnessNode} {s : AccumulatorChain}
  {w : WitnessWalk} {entry : ChainEntry} {st : WalkState} {i : Nat}

theorem countCheckpoint_spec {n n' : Int} (h : s.countCheckpoint w entry n = some n') :
    n' = n + ([entry].countP (s.newCheckpoint w) : Nat) := by
  unfold countCheckpoint at h
  unfold newCheckpoint
  by_cases hfirst : heightOf entry = w.nAccStartHeight
  · rw [if_pos hfirst] at h
    simp [hfirst, some.inj h]
  · rw [if_neg hfirst] at h
    obtain ⟨prev, hprev, rfl⟩ := map_eq_some_iff.mp h
    by_cases hsame : prev.pindex.nAccumulatorCheckpoint = entry.pindex.nAccumulatorCheckpoint
    · simp [hprev, hsame]
    · simp [hprev, hfirst, hsame]

theorem walking_start : Walking A M.toCConnectNode s w 0 (s.walkStart w) where
  reached := fun _ h => absurd h (Nat.not_lt_zero _)
  here := by
    have hstart : heightAfter w 0 = w.nHeightFrom := by
      unfold heightAfter WentBack
      split_ifs <;> omega
    rw [hstart]
    rfl
  counted := by
    rw [walked_zero]
    rfl
  added := by
    unfold witnessAfter
    rw [walked_zero]
    rfl
  mints := by
    rw [walked_zero]
    rfl
  back := by
    refine (decide_eq_false ?_).symm
    unfold WentBack
    omega

section
variable (hwalk : Walking A M.toCConnectNode s w i st)
  (hchain : Segment.Falling heightOf s.chainActive)
include hwalk hchain

section
variable (hat : s.at' (heightAfter w i) = some entry) {nCheckpointsAdded : Int}
  (hcount : s.countCheckpoint w entry st.nCheckpointsAdded = some nCheckpointsAdded)
include hat hcount

theorem Walking.counts :
    nCheckpointsAdded = (s.walked w (i + 1)).countP (s.newCheckpoint w) := by
  rw [countCheckpoint_spec hcount, hwalk.counted, walked_succ hchain hat, countP_append]
  exact (Int.natCast_add _ _).symm

theorem Walking.stops_iff :
    Stops s w i ↔ Satisfied w (heightOf entry) nCheckpointsAdded := by
  unfold Stops
  rw [← hwalk.counts hchain hat hcount, (at_eq_some hat).2]

end

section
variable (hrecord : OnRecord M.toCAccumulatorNode s) (hat : s.at' (heightAfter w i) = some entry)
  {nCheckpointsAdded : Int}
  (hcount : s.countCheckpoint w entry st.nCheckpointsAdded = some nCheckpointsAdded)
  (hgoes : ¬ Stops s w i)
include hrecord hat hcount hgoes

theorem Walking.next {next : Option ChainEntry} {fDoubleCounted : Bool}
    (hnext : next = s.at' (heightAfter w (i + 1)))
    (hback : fDoubleCounted = decide (WentBack w (i + 1))) :
    let added := AddBlockMintsToAccumulator A M.toCAccumulatorNode w.coin w.nHeightMintAdded entry
      st.witnessAccumulator true
    Walking A M.toCConnectNode s w (i + 1)
      ⟨next, nCheckpointsAdded, st.nMintsAdded + added.2, added.1, fDoubleCounted⟩ := by
  obtain ⟨hmem, -⟩ := at_eq_some hat
  have hsucc := walked_succ hchain hat
  have hspec := @AddBlockMints_spec A _ _ w _ st.witnessAccumulator hrecord hmem
  refine ⟨?_, hnext, hwalk.counts hchain hat hcount, ?_, ?_, hback⟩
  · intro j hj
    rcases Nat.lt_or_eq_of_le (Nat.le_of_lt_succ hj) with hlt | rfl
    · exact hwalk.reached j hlt
    · exact ⟨hat ▸ rfl, hgoes⟩
  · unfold witnessAfter
    rw [hspec, hwalk.added, hsucc, otherMints_append, increments_append]
    rfl
  · rw [hspec, hwalk.mints, hsucc, otherMints_append]
    unfold countOf
    rw [countP_append]
    exact (Int.natCast_add _ _).symm

/-- **Where the condition is not met the walk goes on to the next block.** -/
theorem walkBody_goes :
    ∃ st', s.walkBody P A M w st = .inl st' ∧ Walking A M.toCConnectNode s w (i + 1) st' := by
  obtain ⟨-, hheight⟩ := at_eq_some hat
  have hnot : ¬ Satisfied w (heightOf entry) nCheckpointsAdded := fun h =>
    hgoes ((hwalk.stops_iff hchain hat hcount).mpr h)
  unfold walkBody
  rw [hwalk.here, hat]
  dsimp only
  rw [hcount]
  dsimp only
  rw [if_neg hnot]
  by_cases hjump : heightOf entry = 1050010 ∧ st.fDoubleCounted = false
  · have hfirst : ¬ WentBack w i := of_decide_eq_false (hwalk.back ▸ hjump.2)
    obtain ⟨hback, hnext⟩ := heightAfter_back (hheight ▸ hjump.1) hfirst
    rw [if_pos hjump]
    exact ⟨_, rfl, hwalk.next hchain hrecord hat hcount hgoes (hnext ▸ rfl)
      (decide_eq_true hback).symm⟩
  · have hup : ¬ (heightAfter w i = 1050010 ∧ ¬ WentBack w i) := by
      rintro ⟨hheight', hfirst⟩
      exact hjump ⟨hheight.trans hheight', hwalk.back.trans (decide_eq_false hfirst)⟩
    obtain ⟨hback, hnext⟩ := heightAfter_up hup
    rw [if_neg hjump]
    refine ⟨_, rfl, hwalk.next hchain hrecord hat hcount hgoes (by rw [hnext, hheight]) ?_⟩
    rw [hwalk.back]
    exact (decide_eq_decide.mpr hback).symm

end

theorem walkBody_stops (hat : s.at' (heightAfter w i) = some entry)
    {nCheckpointsAdded : Int}
    (hcount : s.countCheckpoint w entry st.nCheckpointsAdded = some nCheckpointsAdded)
    (hstop : Stops s w i) (hvalid : ¬ InvalidCheckpointRange P (heightAfter w i)) :
    s.walkBody P A M w st =
      .inr ((s.at' (heightAfter w i + 10)).bind fun spend =>
        let bnAccValue := s.GetAccumulatorValueFromDB spend.pindex.nAccumulatorCheckpoint
          w.coin.denomination
        if bnAccValue = 0 then none else some (w.accumulator.setValue bnAccValue, st)) := by
  obtain ⟨-, hheight⟩ := at_eq_some hat
  have hmet := (hwalk.stops_iff hchain hat hcount).mp hstop
  unfold walkBody
  rw [hwalk.here, hat]
  dsimp only
  rw [hcount]
  dsimp only
  rw [if_pos hmet, hheight, if_neg hvalid]
  cases s.at' (heightAfter w i + 10) with
  | none => rfl
  | some spend =>
    dsimp only [bind_some]
    split_ifs
    · rfl
    · rfl

/-- **A round of the walk** ends well or goes on to the next block, where the walk does not stop in
the invalid range. -/
theorem walkBody_round (hrecord : OnRecord M.toCAccumulatorNode s)
    (hvalid : StopsAt s w i → ¬ InvalidCheckpointRange P (heightAfter w i)) :
    (∃ r, s.walkBody P A M w st = .inr r ∧ EndsWell A M.toCConnectNode s w r) ∨
    ∃ st', s.walkBody P A M w st = .inl st' ∧ Walking A M.toCConnectNode s w (i + 1) st' := by
  cases hat : s.at' (heightAfter w i) with
  | none =>
    refine .inl ⟨some (w.accumulator, st), ?_, ?_⟩
    · unfold walkBody
      rw [hwalk.here, hat]
    · rintro accumulator st' heq
      cases heq
      exact ⟨i, .inr ⟨hwalk.reached, hat⟩, hwalk.added⟩
  | some entry =>
    cases hcount : s.countCheckpoint w entry st.nCheckpointsAdded with
    | none =>
      refine .inl ⟨none, ?_, fun _ _ h => nomatch h⟩
      unfold walkBody
      rw [hwalk.here, hat]
      dsimp only
      rw [hcount]
    | some nCheckpointsAdded =>
      by_cases hstop : Stops s w i
      · have hstops : StopsAt s w i := ⟨hwalk.reached, hat ▸ rfl, hstop⟩
        refine .inl ⟨_, walkBody_stops hwalk hchain hat hcount hstop (hvalid hstops), ?_⟩
        intro accumulator st' heq
        obtain ⟨spend, -, hspend⟩ := bind_eq_some_iff.mp heq
        dsimp only at hspend
        split_ifs at hspend
        cases hspend
        exact ⟨i, .inl hstops, hwalk.added⟩
      · exact .inr (walkBody_goes hwalk hchain hrecord hat hcount hstop)

end

/-- **The walk ends** where it does not stop in the invalid range. -/
theorem walk_ends (hchain : Segment.Falling heightOf s.chainActive)
    (hrecord : OnRecord M.toCAccumulatorNode s)
    (hvalid : ∀ i, StopsAt s w i → ¬ InvalidCheckpointRange P (heightAfter w i)) :
    ∃ r, Loop.Returns (s.walkBody P A M w) (s.walkStart w) r ∧
      EndsWell A M.toCConnectNode s w r := by
  obtain ⟨n, habove⟩ := exists_above s w
  refine Loop.returns_of_rounds (I := fun i st => Walking A M.toCConnectNode s w i st)
    (n := n + 1) ?_ ?_ walking_start
  · intro i st hwalk
    exact walkBody_round hwalk hchain hrecord (hvalid i)
  · intro i st hwalk
    by_contra hle
    have hsome := (hwalk.reached n (by omega)).1
    rw [habove n (le_refl _)] at hsome
    cases hsome

end

section
variable {P : CChainParams} {A : AccumulatorParams} {M : CWitnessNode} {s : AccumulatorChain}
  {w : WitnessWalk} {entry : ChainEntry} {st : WalkState} {i : Nat}

/-- The checkpoint of the block is compared with none, or with that of a block. -/
def HasPrevious (s : AccumulatorChain) (w : WitnessWalk) (entry : ChainEntry) : Prop :=
  heightOf entry = w.nAccStartHeight ∨ (s.at' (heightOf entry - 1)).isSome

theorem countCheckpoint_of_previous (h : HasPrevious s w entry) (n : Int) :
    ∃ n', s.countCheckpoint w entry n = some n' ∧ n ≤ n' := by
  unfold countCheckpoint
  by_cases hfirst : heightOf entry = w.nAccStartHeight
  · exact ⟨n, if_pos hfirst, le_refl n⟩
  · obtain ⟨prev, hprev⟩ := isSome_iff_exists.mp (h.resolve_left hfirst)
    rw [if_neg hfirst, hprev]
    refine ⟨_, rfl, ?_⟩
    dsimp only
    split_ifs
    · omega
    · exact le_refl n

theorem walk_reaches (hchain : Segment.Falling heightOf s.chainActive)
    (hrecord : OnRecord M.toCAccumulatorNode s) (hreached : Reaches s w i)
    (hprevious : ∀ j < i, ∀ entry ∈ s.at' (heightAfter w j), HasPrevious s w entry) :
    ∃ st, Walking A M.toCConnectNode s w i st ∧
      ∀ r, Loop.Returns (s.walkBody P A M w) (s.walkStart w) r ↔
        Loop.Returns (s.walkBody P A M w) st r := by
  induction i with
  | zero => exact ⟨_, walking_start, fun _ => Iff.rfl⟩
  | succ i ih =>
    obtain ⟨st, hwalk, hsame⟩ := ih (fun j hj => hreached j (Nat.lt_succ_of_lt hj))
      fun j hj => hprevious j (Nat.lt_succ_of_lt hj)
    obtain ⟨hsome, hgoes⟩ := hreached i (Nat.lt_succ_self i)
    obtain ⟨entry, hat⟩ := isSome_iff_exists.mp hsome
    obtain ⟨n', hcount, -⟩ := countCheckpoint_of_previous
      (hprevious i (Nat.lt_succ_self i) entry hat) st.nCheckpointsAdded
    obtain ⟨st', hbody, hwalk'⟩ := walkBody_goes hwalk hchain hrecord hat hcount hgoes
    exact ⟨st', hwalk', fun r => (hsame r).trans (Loop.returns_inl hbody)⟩

theorem stops_unique {j : Nat} (h : StopsAt s w i) (h' : StopsAt s w j ∨ RunsOut s w j) :
    j = i := by
  have hreached : Reaches s w j := h'.elim And.left And.left
  rcases lt_trichotomy j i with hlt | heq | hgt
  · obtain ⟨hsome, hgoes⟩ := h.1 j hlt
    rcases h' with ⟨-, -, hstop⟩ | ⟨-, hnone⟩
    · exact absurd hstop hgoes
    · rw [hnone] at hsome
      cases hsome
  · exact heq
  · exact absurd h.2.2 (hreached i hgt).2

end

/-! ## The witness -/

section
variable {P : CChainParams} {A : AccumulatorParams} {M : CWitnessNode} {s : AccumulatorChain}
  {w : WitnessWalk} {entry : ChainEntry} {st : WalkState} {i : Nat}

theorem finishWalk_witness {witness witness' : AccumulatorWitness}
    {accumulator accumulator' : Accumulator} {nMintsAdded : Int}
    (h : s.finishWalk P A M w witness accumulator st = some (accumulator', witness', nMintsAdded)) :
    witness'.getValue = st.witnessAccumulator.value := by
  unfold finishWalk at h
  dsimp only at h
  split_ifs at h
  obtain ⟨_, -, heq⟩ := map_eq_some_iff.mp h
  obtain ⟨-, heq⟩ := Prod.mk.inj heq
  cases heq
  rfl

variable {pindexCheckpoint : Option Int} {nSecurityLevel nRand : Int} {accumulator : Accumulator}

theorem generated_unique {coin : PublicCoin}
    {witness : AccumulatorWitness}
    {fuel fuel' : Nat} {r r' : Option (Accumulator × AccumulatorWitness × Int)}
    (h : s.GenerateAccumulatorWitness P A M coin accumulator witness nSecurityLevel nRand
      pindexCheckpoint fuel = some r)
    (h' : s.GenerateAccumulatorWitness P A M coin accumulator witness nSecurityLevel nRand
      pindexCheckpoint fuel' = some r') : r = r' := by
  unfold GenerateAccumulatorWitness at h h'
  cases hstart : s.startWalk P A M coin accumulator nSecurityLevel nRand pindexCheckpoint with
  | none =>
    rw [hstart] at h h'
    exact some.inj (h.symm.trans h')
  | some w =>
    rw [hstart] at h h'
    obtain ⟨ended, hrun, rfl⟩ := map_eq_some_iff.mp h
    obtain ⟨ended', hrun', rfl⟩ := map_eq_some_iff.mp h'
    rw [Loop.returns_unique ⟨fuel, hrun⟩ ⟨fuel', hrun'⟩]

theorem GetAccumulatorValue_height {nHeight : Int} {denom : CoinDenomination}
    {started : Int × Int} (h : s.GetAccumulatorValue P A nHeight denom = some started) :
    started.1 - 10 ≤ max P.nZerocoinStartHeight (nHeight - 10) := by
  unfold GetAccumulatorValue at h
  by_cases habove : s.Height < nHeight
  · rw [if_pos habove] at h
    cases h
  rw [if_neg habove] at h
  cases hat : s.at' nHeight with
  | none =>
    rw [hat] at h
    cases h
  | some entry =>
    rw [hat] at h
    split_ifs at h with hV2 hnone
    · cases h
      exact le_max_right _ _
    · cases h
      refine le_trans ?_ (le_max_left _ _)
      omega
    · obtain ⟨checkpoint, hfind, rfl⟩ := map_eq_some_iff.mp h
      have hheight : checkpoint.1 = closestHeight nHeight A.mapCheckpoints (-1) :=
        beq_iff_eq.mp (@List.find?_some _ (fun checkpoint : Int × (CoinDenomination → Int) =>
          checkpoint.1 == closestHeight nHeight A.mapCheckpoints (-1)) _ _ hfind)
      refine le_trans ?_ (le_max_right _ _)
      rcases closestHeight_cases nHeight A.mapCheckpoints (-1) with hlt | hsame
      · omega
      · omega

theorem startWalk_from {coin : PublicCoin}
    (h : s.startWalk P A M coin accumulator nSecurityLevel nRand pindexCheckpoint = some w) :
    w.nHeightFrom ≤ max P.nZerocoinStartHeight w.nAccStartHeight := by
  unfold startWalk at h
  split_ifs at h
  split at h
  · cases h
  split at h
  · cases h
  split_ifs at h
  split at h
  · cases h
  next nHeightMintAdded _ =>
    cases h
    have hgroup (a b : Int) : a - b = a + (10 - b) - 10 := by omega
    rw [hgroup]
    cases hstarted : s.GetAccumulatorValue P A
      (nHeightMintAdded + (10 - nHeightMintAdded.tmod 10)) coin.denomination with
    | none => exact le_max_right _ _
    | some started => exact GetAccumulatorValue_height hstarted

end

/-- **The witness accumulates the other mints.**  Out of the invalid range the loop ends, and when
the function succeeds the witness has, on top of the value it begins with, every other mint of the
denomination in the blocks walked over, and the coin itself not at all. -/
theorem witness_accumulates (P : CChainParams) (A : AccumulatorParams) (M : CWitnessNode)
    (s : AccumulatorChain) (coin : PublicCoin) (accumulator : Accumulator)
    (witness : AccumulatorWitness) (nSecurityLevel nRand : Int) (pindexCheckpoint : Option Int)
    (hchain : Segment.Falling heightOf s.chainActive) (hrecord : OnRecord M.toCAccumulatorNode s)
    (hvalid : ∀ w, s.startWalk P A M coin accumulator nSecurityLevel nRand pindexCheckpoint =
        some w → ∀ i, StopsAt s w i → ¬ InvalidCheckpointRange P (heightAfter w i)) :
    ∃ r, (∃ fuel, s.GenerateAccumulatorWitness P A M coin accumulator witness nSecurityLevel nRand
        pindexCheckpoint fuel = some r) ∧
      ∀ accumulator' witness' nMintsAdded, r = some (accumulator', witness', nMintsAdded) →
        ∃ w, s.startWalk P A M coin accumulator nSecurityLevel nRand pindexCheckpoint = some w ∧
          w.nHeightFrom ≤ max P.nZerocoinStartHeight w.nAccStartHeight ∧
          ∃ i, (StopsAt s w i ∨ RunsOut s w i) ∧
            witness'.getValue = increments A w.accumulator.useModulusV1 w.coin.denomination
              w.accumulator.value (otherMints w M.toCConnectNode (s.walked w i)) := by
  unfold GenerateAccumulatorWitness
  cases hstart : s.startWalk P A M coin accumulator nSecurityLevel nRand pindexCheckpoint with
  | none => exact ⟨none, ⟨0, rfl⟩, fun _ _ _ h => nomatch h⟩
  | some w =>
    obtain ⟨r, ⟨fuel, hrun⟩, hends⟩ := walk_ends hchain hrecord (hvalid w hstart)
    refine ⟨_, ⟨fuel, congrArg (Option.map fun ended => ended.bind fun spent =>
      s.finishWalk P A M w witness spent.1 spent.2) hrun⟩, ?_⟩
    intro accumulator' witness' nMintsAdded hsuccess
    obtain ⟨⟨spent, st⟩, hr, hfinish⟩ := bind_eq_some_iff.mp hsuccess
    obtain ⟨i, hstops, hadded⟩ := hends spent st hr
    refine ⟨w, rfl, startWalk_from hstart, i, hstops, ?_⟩
    rw [finishWalk_witness hfinish, hadded]
    rfl

/-! ## A coin spent above height 1050010

Coin 5 is minted at height 1049995 and coin 7 at 1050007.  The accumulator of the tip has coin 7
twice, and so has the witness. -/

def mintTransaction (hash : uint256) (coin : UInt8) : CTransaction :=
  ⟨hash, 1, [⟨⟨9, 0⟩, [], 0⟩], [⟨COIN, [OP_ZEROCOINMINT, coin]⟩], 0⟩

def countedTwice : AccumulatorMap := ⟨false, fun denom => if denom = .ZQ_ONE then 5 * 7 * 7 else 1⟩

def tallEntry (nHeight : Int) : ChainEntry where
  block :=
    { quietBlock COIN [] with
      hash := 100
      vtx :=
        if nHeight = 1049995 then [mintTransaction 300 5]
        else if nHeight = 1050007 then [mintTransaction 301 7]
        else [] }
  pindex :=
    { quietTip nHeight with
      nAccumulatorCheckpoint := countedTwice.GetCheckpoint productParams
      vMintDenominationsInBlock := if nHeight = 1049995 ∨ nHeight = 1050007 then [.ZQ_ONE] else [] }

def tallChain : AccumulatorChain where
  chainActive := downFrom tallEntry 1050100
  pcoinsTip := oneCoin
  accumulatorValues nChecksum :=
    if nChecksum = 245 then some 245 else if nChecksum = 1 then some 1 else none

/-- The hard-coded accumulators of height 1049990 have no coin. -/
def tallParams : AccumulatorParams :=
  { productParams with mapCheckpoints := [(1049990, fun _ => 1)] }

def tallNode : CWitnessNode :=
  { mintingNode with
    Z := { quietZerocoin with
      mintValue := fun script => (script.getD 1 0).toNat
      ReadCoinMint := fun value => if value = 5 then some 300 else none }
    IsTransactionInChain := fun txid => if txid = 300 then some 1049995 else none
    mapBlockIndex := fun hash => if hash = 100 then some 1049995 else none
    lockMain := true
    GetTransaction := fun txid => if txid = 300 then some 100 else none }

def freshAccumulator : Accumulator := ⟨false, .ZQ_ONE, 1⟩

def tallWalk : WitnessWalk where
  coin := ⟨5, .ZQ_ONE⟩
  nHeightMintAdded := 1049995
  nAccStartHeight := 1049990
  nHeightFrom := 1049980
  nHeightStop := 1050080
  nSecurityLevel := 100
  accumulator := freshAccumulator

section
variable {entry : ChainEntry} {i : Nat}

theorem falling_tallChain : Segment.Falling heightOf tallChain.chainActive :=
  falling_downFrom fun _ => rfl

theorem at_tallChain {k : Int} (hfrom : 0 ≤ k) (hto : k ≤ 1050100) :
    tallChain.at' k = some (tallEntry k) := by
  obtain ⟨n, rfl⟩ := Int.eq_ofNat_of_zero_le hfrom
  exact at_of_mem falling_tallChain (mem_downFrom.mpr ⟨n, by omega, rfl⟩)

theorem list_tallEntry (nHeight : Int) :
    BlockToPubcoinList tallNode.toCConnectNode true (tallEntry nHeight).block.vtx =
      some (if nHeight = 1049995 then [⟨5, .ZQ_ONE⟩]
        else if nHeight = 1050007 then [⟨7, .ZQ_ONE⟩] else []) := by
  unfold tallEntry
  dsimp only
  split_ifs
  · rfl
  · rfl
  · rfl

theorem mintsOf_tallEntry (nHeight : Int) :
    mintsOf tallNode.toCConnectNode (tallEntry nHeight) =
      if nHeight = 1049995 then [⟨5, .ZQ_ONE⟩]
        else if nHeight = 1050007 then [⟨7, .ZQ_ONE⟩] else [] := by
  unfold mintsOf
  rw [list_tallEntry]
  rfl

theorem record_tallChain : OnRecord tallNode.toCAccumulatorNode tallChain where
  read _ _ := rfl
  listed := by
    intro entry hentry
    obtain ⟨k, -, rfl⟩ := mem_downFrom.mp hentry
    rw [list_tallEntry]
    rfl
  noted := by
    intro entry hentry coin hcoin
    obtain ⟨k, -, rfl⟩ := mem_downFrom.mp hentry
    rw [mintsOf_tallEntry] at hcoin
    unfold tallEntry
    split_ifs at hcoin with hfirst hsecond
    · rw [if_pos (Or.inl hfirst), mem_singleton.mp hcoin]
      exact mem_singleton_self _
    · rw [if_pos (Or.inr hsecond), mem_singleton.mp hcoin]
      exact mem_singleton_self _
    · cases hcoin

theorem others_tallEntry (nHeight : Int) :
    otherMints tallWalk tallNode.toCConnectNode [tallEntry nHeight] =
      if nHeight = 1050007 then [⟨7, .ZQ_ONE⟩] else [] := by
  have hone : otherMints tallWalk tallNode.toCConnectNode [tallEntry nHeight] =
      (mintsOf tallNode.toCConnectNode (tallEntry nHeight)).filter
        (isOther tallWalk.coin tallWalk.nHeightMintAdded nHeight) :=
    append_nil _
  rw [hone, mintsOf_tallEntry]
  by_cases hsecond : nHeight = 1050007
  · subst hsecond
    rfl
  · rw [if_neg hsecond]
    by_cases hfirst : nHeight = 1049995
    · subst hfirst
      rfl
    · rw [if_neg hfirst]
      rfl

theorem others_between {a b : Int} (ha : a ≤ 1050007) (hb : 1050007 < b) :
    otherMints tallWalk tallNode.toCConnectNode
      (between heightOf tallChain.chainActive a b) = [⟨7, .ZQ_ONE⟩] := by
  have hquiet : ∀ c d : Int, (∀ k, c ≤ k → k < d → k ≠ 1050007) →
      otherMints tallWalk tallNode.toCConnectNode
        (between heightOf tallChain.chainActive c d) = [] := by
    intro c d hnone
    refine flatMap_eq_nil_iff.mpr ?_
    intro entry hentry
    obtain ⟨hmem, hfrom, hto⟩ := mem_between.mp hentry
    obtain ⟨k, -, rfl⟩ := mem_downFrom.mp hmem
    have hothers := others_tallEntry k
    rw [if_neg (hnone k hfrom hto)] at hothers
    exact (append_nil _).symm.trans hothers
  have hbelow := hquiet a 1050007 (by omega)
  have habove := hquiet (1050007 + 1) b (by omega)
  have hsingle := between_single falling_tallChain (@at_tallChain 1050007 (by decide) (by decide))
  have hthere := others_tallEntry 1050007
  rw [between_append falling_tallChain ha hb.le,
    between_append falling_tallChain (show (1050007 : Int) ≤ 1050007 + 1 by decide)
      (by omega), otherMints_append, otherMints_append, hbelow, hsingle, habove, hthere]
  rfl

theorem tall_starts : tallChain.startWalk testNetParams tallParams tallNode ⟨5, .ZQ_ONE⟩
    freshAccumulator 100 3 none = some tallWalk := by
  have hat := @at_tallChain 1050000 (by decide) (by decide)
  have hcheckpoint : (1049995 : Int) + (10 - (1049995 : Int).tmod 10) = 1050000 := by decide
  have hvalue : tallChain.GetAccumulatorValue testNetParams tallParams 1050000 .ZQ_ONE =
      some (1049990, 1) := by
    decide
  show some _ = _
  rfl

theorem tall_heights {i : Nat} (hi : i ≤ 111) :
    1049980 ≤ heightAfter tallWalk i ∧ heightAfter tallWalk i ≤ 1050080 ∧
      (i < 111 → heightAfter tallWalk i < 1050080) := by
  have hfrom : tallWalk.nHeightFrom = 1049980 := rfl
  unfold heightAfter
  by_cases hback : WentBack tallWalk i
  · rw [if_pos hback]
    unfold WentBack at hback
    omega
  · rw [if_neg hback]
    unfold WentBack at hback
    omega

theorem tall_end : heightAfter tallWalk 111 = 1050080 := by decide

theorem tall_stops : StopsAt tallChain tallWalk 111 := by
  refine ⟨?_, ?_, .inl tall_end.ge⟩
  · intro j hj
    obtain ⟨hfrom, hto, hlt⟩ := tall_heights hj.le
    refine ⟨by rw [at_tallChain (by omega) (by omega)]; rfl, ?_⟩
    rintro (hstop | ⟨hlevel, -⟩)
    · exact absurd (hlt hj) (not_lt.mpr hstop)
    · exact hlevel rfl
  · rw [tall_end, at_tallChain (by decide) (by decide)]
    rfl

theorem tall_valid : ¬ InvalidCheckpointRange testNetParams (heightAfter tallWalk 111) := by
  decide

theorem tall_previous (j : Nat) (hj : j ≤ 111) (entry : ChainEntry)
    (hentry : entry ∈ tallChain.at' (heightAfter tallWalk j)) :
    HasPrevious tallChain tallWalk entry := by
  obtain ⟨-, hheight⟩ := at_eq_some hentry
  obtain ⟨hfrom, hto, -⟩ := tall_heights hj
  refine .inr ?_
  rw [hheight, at_tallChain (by omega) (by omega)]
  rfl

theorem tall_others : otherMints tallWalk tallNode.toCConnectNode (tallChain.walked tallWalk 111) =
    [⟨7, .ZQ_ONE⟩, ⟨7, .ZQ_ONE⟩] := by
  unfold walked
  rw [if_pos (by decide), otherMints_append, tall_end, others_between (by decide) (by decide),
    others_between (by decide) (by decide)]
  rfl

theorem tall_witness :
    witnessAfter tallParams tallNode.toCConnectNode tallChain tallWalk 111 = 49 := by
  unfold witnessAfter
  rw [tall_others]
  decide

theorem accumulatedCoins_isSome (denom : CoinDenomination) (n : Nat) {nHeight : Int}
    (hfrom : 0 ≤ nHeight) (hto : nHeight + n ≤ 1050100) :
    (tallChain.accumulatedCoins denom n nHeight).isSome := by
  induction n generalizing nHeight with
  | zero =>
    unfold accumulatedCoins
    rw [at_tallChain hfrom (by omega)]
    rfl
  | succ n ih =>
    obtain ⟨m, hm⟩ := isSome_iff_exists.mp (@ih (nHeight + 1) (by omega) (by omega))
    unfold accumulatedCoins
    rw [at_tallChain hfrom (by omega), bind_some, hm]
    rfl

def freshWitness : AccumulatorWitness := ⟨freshAccumulator, ⟨5, .ZQ_ONE⟩⟩

theorem tall_generates :
    ∃ fuel accumulator' witness' nMintsAdded, tallChain.GenerateAccumulatorWitness testNetParams
        tallParams tallNode ⟨5, .ZQ_ONE⟩ freshAccumulator freshWitness 100 3 none fuel =
          some (some (accumulator', witness', nMintsAdded)) ∧ witness'.getValue = 49 := by
  obtain ⟨st, hwalk, hsame⟩ := @walk_reaches testNetParams tallParams tallNode _ _ _
    falling_tallChain record_tallChain tall_stops.1 fun j hj => tall_previous j hj.le
  have hat := @at_tallChain 1050080 (by decide) (by decide)
  obtain ⟨n, hcount, -⟩ := countCheckpoint_of_previous
    (tall_previous 111 (le_refl _) _ hat) st.nCheckpointsAdded
  have hends := @walkBody_stops testNetParams tallParams tallNode _ _ _ _ _ hwalk
    falling_tallChain hat n hcount tall_stops.2.2 tall_valid
  have hspend := @at_tallChain (1050080 + 10) (by decide) (by decide)
  have hvalue : tallChain.GetAccumulatorValueFromDB
      (countedTwice.GetCheckpoint productParams) .ZQ_ONE = 245 := by
    rfl
  have hends : tallChain.walkBody testNetParams tallParams tallNode tallWalk st =
      .inr (some (freshAccumulator.setValue 245, st)) := by
    rw [hends]
    show Sum.inr (if tallChain.GetAccumulatorValueFromDB
      (countedTwice.GetCheckpoint productParams) .ZQ_ONE = 0 then none else _) = _
    rfl
  obtain ⟨fuel, hrun⟩ := (hsame _).mpr ((Loop.returns_inr hends).mpr rfl)
  have hadded : st.witnessAccumulator = freshAccumulator.setValue 49 := by
    rw [hwalk.added, tall_witness]
    rfl
  have hmints : st.nMintsAdded = 2 := by
    rw [hwalk.mints, tall_others]
    rfl
  have hcoins : (tallChain.ComputeAccumulatedCoins testNetParams 1049990 .ZQ_ONE).isSome :=
    accumulatedCoins_isSome _ _ (by decide) (by decide)
  obtain ⟨coins, hcoins⟩ := isSome_iff_exists.mp hcoins
  refine ⟨fuel, freshAccumulator.setValue 245, freshWitness.resetValue
    (freshAccumulator.setValue 49) ⟨5, .ZQ_ONE⟩, 2 + coins, ?_, rfl⟩
  unfold GenerateAccumulatorWitness
  rw [tall_starts]
  dsimp only
  rw [hrun, map_some, bind_some]
  unfold finishWalk
  rw [hadded]
  have hverify : (freshWitness.resetValue (freshAccumulator.setValue 49)
      tallWalk.coin).VerifyWitness tallParams tallNode.Z (freshAccumulator.setValue 245)
        tallWalk.coin = some true := by
    decide
  have hcoins : tallChain.ComputeAccumulatedCoins testNetParams tallWalk.nAccStartHeight
      tallWalk.coin.denomination = some coins := hcoins
  rw [if_neg (not_not.mpr hverify), hmints, if_neg (by decide), hcoins]
  rfl

/-- The coin is spent with a witness that has what the walk goes over. -/
theorem tall_accumulates :
    (∃ fuel accumulator' witness' nMintsAdded, tallChain.GenerateAccumulatorWitness testNetParams
        tallParams tallNode ⟨5, .ZQ_ONE⟩ freshAccumulator freshWitness 100 3 none fuel =
          some (some (accumulator', witness', nMintsAdded)) ∧ witness'.getValue = 49) ∧
    ∃ r, (∃ fuel, tallChain.GenerateAccumulatorWitness testNetParams tallParams tallNode
        ⟨5, .ZQ_ONE⟩ freshAccumulator freshWitness 100 3 none fuel = some r) ∧
      ∀ accumulator' witness' nMintsAdded, r = some (accumulator', witness', nMintsAdded) →
        ∃ w, tallChain.startWalk testNetParams tallParams tallNode ⟨5, .ZQ_ONE⟩ freshAccumulator
            100 3 none = some w ∧
          w.nHeightFrom ≤ max testNetParams.nZerocoinStartHeight w.nAccStartHeight ∧
          ∃ i, (StopsAt tallChain w i ∨ RunsOut tallChain w i) ∧
            witness'.getValue = increments tallParams w.accumulator.useModulusV1
              w.coin.denomination w.accumulator.value
              (otherMints w tallNode.toCConnectNode (tallChain.walked w i)) := by
  refine ⟨tall_generates, ?_⟩
  refine witness_accumulates testNetParams tallParams tallNode tallChain ⟨5, .ZQ_ONE⟩
    freshAccumulator freshWitness 100 3 none falling_tallChain record_tallChain ?_
  intro w hw i hstops
  obtain rfl := some.inj (hw.symm.trans tall_starts)
  obtain rfl := stops_unique tall_stops (.inl hstops)
  exact tall_valid

/-- The witness has coin 7 twice, though there is one of it from the start to the stop height. -/
theorem coin_accumulated_twice :
    ¬ (∀ (P : CChainParams) (A : AccumulatorParams) (M : CWitnessNode) (s : AccumulatorChain)
        (coin : PublicCoin) (accumulator : Accumulator) (witness : AccumulatorWitness)
        (nSecurityLevel nRand : Int) (pindexCheckpoint : Option Int),
        Segment.Falling heightOf s.chainActive → OnRecord M.toCAccumulatorNode s →
        ∃ r, (∃ fuel, s.GenerateAccumulatorWitness P A M coin accumulator witness nSecurityLevel
            nRand pindexCheckpoint fuel = some r) ∧
          ∀ accumulator' witness' nMintsAdded, r = some (accumulator', witness', nMintsAdded) →
            ∃ w, s.startWalk P A M coin accumulator nSecurityLevel nRand pindexCheckpoint =
                some w ∧
              ∃ i, (StopsAt s w i ∨ RunsOut s w i) ∧
                witness'.getValue = increments A w.accumulator.useModulusV1 w.coin.denomination
                  w.accumulator.value (otherMints w M.toCConnectNode
                    (Segment.between heightOf s.chainActive w.nHeightFrom (heightAfter w i)))) := by
  intro hall
  obtain ⟨r, ⟨fuel, hrun⟩, haccumulates⟩ := hall testNetParams tallParams tallNode tallChain
    ⟨5, .ZQ_ONE⟩ freshAccumulator freshWitness 100 3 none falling_tallChain record_tallChain
  obtain ⟨fuel', accumulator', witness', nMintsAdded, hrun', hvalue⟩ := tall_generates
  obtain ⟨w, hw, i, hstops, hclaimed⟩ := haccumulates accumulator' witness' nMintsAdded
    (generated_unique hrun hrun')
  obtain rfl := some.inj (hw.symm.trans tall_starts)
  obtain rfl := stops_unique tall_stops hstops
  have hstart : tallWalk.nHeightFrom ≤ 1050007 := by decide
  rw [hvalue, tall_end, others_between hstart (by decide)] at hclaimed
  exact absurd hclaimed (by decide)

end

end AccumulatorChain

end Divitae
