/-
# `Kernel` — the stake modifier

Each block carries a 64-bit stake modifier, computed when the block enters the block
index.  It stays the same for a minute and is then made anew, one bit from each of at
most 64 blocks selected among the block's recent ancestors:

    GetLastStakeModifier       the last modifier made on the way back
    SelectBlockFromCandidates  the least selection hash of a round
    ComputeNextStakeModifier   the rounds, and when there are none
    AddToBlockIndex            a block enters the index and gets its modifier

A `CBlockIndex*` reads its ancestors through `pprev`, so a pointer is a `Branch` here: the
entry and those behind it, down to the one without `pprev`.  The two things of the process
that `kernel.cpp` reads besides are `mapBlockIndex` and, for the first block, the address
of a string literal, `uint64_t("stakemodifier")`.
-/
import Divitae.Validation

namespace Divitae

def MODIFIER_INTERVAL : Nat := 60 -- on every network
def MODIFIER_INTERVAL_RATIO : Nat := 3

/-- A block as it enters the index. -/
structure CStakeBlock extends CBlock where
  nBits : BitVec 32
  nAccumulatorCheckpoint : uint256
  deriving DecidableEq

/-- `CBlockIndex`, as far as the kernel reads it. -/
@[ext]
structure KernelIndex where
  hash : uint256
  nHeight : Int
  nTime : BitVec 32
  fProofOfStake : Bool
  fGeneratedStakeModifier : Bool
  nStakeModifier : BitVec 64
  nAccumulatorCheckpoint : uint256
  deriving DecidableEq

namespace KernelIndex

def GetBlockTime (pindex : KernelIndex) : Int := pindex.nTime.toNat

def GetStakeEntropyBit (pindex : KernelIndex) : BitVec 64 := pindex.hash.setWidth 64 &&& 1

end KernelIndex

/-- A `CBlockIndex*` with what `pprev` leads to. -/
abbrev Branch := List KernelIndex

/-! ## The modifier of the next block -/

/-- `GetLastStakeModifier`: the modifier and the time it was made. -/
def GetLastStakeModifier : Branch → Option (BitVec 64 × Int)
  | [] => none
  | [pindex] =>
    if pindex.fGeneratedStakeModifier then some (pindex.nStakeModifier, pindex.GetBlockTime)
    else none -- no generation at genesis block
  | pindex :: pprev =>
    if pindex.fGeneratedStakeModifier then some (pindex.nStakeModifier, pindex.GetBlockTime)
    else GetLastStakeModifier pprev

/-- `GetStakeModifierSelectionIntervalSection`. -/
def selectionSection (nSection : Nat) : Nat :=
  MODIFIER_INTERVAL * 63 / (63 + (63 - nSection) * ( MODIFIER_INTERVAL_RATIO - 1))

def GetStakeModifierSelectionInterval : Nat := ((List.range 64).map selectionSection).sum

section
variable (C : Crypto) (P : CChainParams)

/-- What `kernel.cpp` reads of the process. -/
structure KernelProcess where
  literal : BitVec 64 -- where the compiler put "stakemodifier"
  mapBlockIndex : uint256 → Option Branch

variable (N : KernelProcess)

/-- The hash a candidate is selected by.  Divided by 2³² for a proof-of-stake block. -/
def selectionHash (fModifierV2 : Bool) (nStakeModifierPrev : BitVec 64) (pindex : KernelIndex) :
    uint256 :=
  let hashProof := if fModifierV2 then pindex.hash else if pindex.fProofOfStake then 0
    else pindex.hash
  let hashSelection := C.hash256 (serUint256 hashProof ++ leBytes 8 nStakeModifierPrev.toNat)
  if pindex.fProofOfStake then hashSelection >>> 32 else hashSelection

/-- The loop of `SelectBlockFromCandidates` over the candidates, with the best one so far;
`none` when a candidate is not in `mapBlockIndex`. -/
def selectLoop (fModifierV2 : Bool) (selected : List uint256) (nSelectionIntervalStop : Int)
    (nStakeModifierPrev : BitVec 64) :
    List (Int × uint256) → Option (uint256 × KernelIndex) → Option (Option (uint256 × KernelIndex))
  | [], best => some best
  | item :: rest, best =>
    match (N.mapBlockIndex item.2).bind List.head? with
    | none => none -- failed to find block index for candidate block
    | some pindex =>
      if best.isSome ∧ pindex.GetBlockTime > nSelectionIntervalStop then some best
      else if pindex.hash ∈ selected then
        selectLoop fModifierV2 selected nSelectionIntervalStop nStakeModifierPrev rest best
      else
        let hashSelection := selectionHash C fModifierV2 nStakeModifierPrev pindex
        if best.all fun b => hashSelection < b.1 then
          selectLoop fModifierV2 selected nSelectionIntervalStop nStakeModifierPrev rest
            (some (hashSelection, pindex))
        else
          selectLoop fModifierV2 selected nSelectionIntervalStop nStakeModifierPrev rest best

/-- `SelectBlockFromCandidates`.  The first candidate's height decides between the two
ways to hash. -/
def SelectBlockFromCandidates (vSortedByTimestamp : List (Int × uint256)) (selected : List uint256)
    (nSelectionIntervalStop : Int) (nStakeModifierPrev : BitVec 64) : Option KernelIndex :=
  let first := vSortedByTimestamp.head?.bind fun item => (N.mapBlockIndex item.2).bind List.head?
  let fModifierV2 := first.any fun pindex => pindex.nHeight ≥ P.nModifierUpdateBlock
  ((selectLoop C N fModifierV2 selected nSelectionIntervalStop nStakeModifierPrev
    vSortedByTimestamp none).bind id).map Prod.snd

/-- `pair<int64_t, uint256>::operator<=`. -/
def pairLE (a b : Int × uint256) : Prop := a.1 < b.1 ∨ a.1 = b.1 ∧ a.2 ≤ b.2

instance : DecidableRel pairLE := fun _ _ => inferInstanceAs (Decidable (_ ∨ _))

/-- The candidates: the ancestors not older than `nSelectionIntervalStart`, by time. -/
def sortedCandidates (nSelectionIntervalStart : Int) (pindexPrev : Branch) : List (Int × uint256) :=
  (((pindexPrev.takeWhile fun pindex => pindex.GetBlockTime ≥ nSelectionIntervalStart).map
    fun pindex => (pindex.GetBlockTime, pindex.hash)).reverse).insertionSort pairLE

/-- The selection rounds, with the time limit, the bits and the blocks so far. -/
def selectRounds (vSortedByTimestamp : List (Int × uint256)) (nStakeModifierPrev : BitVec 64) :
    List Nat → Int → BitVec 64 → List uint256 → Option (BitVec 64)
  | [], _, nStakeModifierNew, _ => some nStakeModifierNew
  | nRound :: rounds, nSelectionIntervalStop, nStakeModifierNew, selected =>
    -- add an interval section to the current selection round
    let nSelectionIntervalStop := nSelectionIntervalStop + selectionSection nRound
    match SelectBlockFromCandidates C P N vSortedByTimestamp selected nSelectionIntervalStop
      nStakeModifierPrev with
    | none => none
    | some pindex =>
      selectRounds vSortedByTimestamp nStakeModifierPrev rounds nSelectionIntervalStop
        (nStakeModifierNew ||| pindex.GetStakeEntropyBit <<< nRound) (pindex.hash :: selected)

/-- What `ComputeNextStakeModifier` returns: success, `nStakeModifier` and
`fGeneratedStakeModifier`. -/
structure NextModifier where
  ok : Bool
  nStakeModifier : BitVec 64
  fGeneratedStakeModifier : Bool
  deriving DecidableEq

def ComputeNextStakeModifier (pindexPrev : Branch) : NextModifier :=
  match pindexPrev with
  | [] => ⟨true, 0, true⟩ -- genesis block's modifier is 0
  | prev :: _ =>
    if prev.nHeight = 0 then ⟨true, N.literal, true⟩ -- a modifier for the first block
    else
      match GetLastStakeModifier pindexPrev with
      | none => ⟨false, 0, false⟩
      | some (nStakeModifier, nModifierTime) =>
        if nModifierTime.tdiv MODIFIER_INTERVAL ≥ prev.GetBlockTime.tdiv MODIFIER_INTERVAL then
          ⟨true, nStakeModifier, false⟩
        else
          let nSelectionIntervalStart :=
            prev.GetBlockTime.tdiv MODIFIER_INTERVAL * MODIFIER_INTERVAL -
              GetStakeModifierSelectionInterval
          let vSortedByTimestamp := sortedCandidates nSelectionIntervalStart pindexPrev
          match selectRounds C P N vSortedByTimestamp nStakeModifier
            (List.range (min 64 vSortedByTimestamp.length)) nSelectionIntervalStart 0 [] with
          | none => ⟨false, nStakeModifier, false⟩
          | some nStakeModifierNew => ⟨true, nStakeModifierNew, true⟩

/-- `CBlockIndex(block)`, without a previous block. -/
def KernelIndex.ofBlock (block : CStakeBlock) : KernelIndex where
  hash := block.hash
  nHeight := 0
  nTime := BitVec.ofInt 32 block.nTime
  fProofOfStake := block.IsProofOfStake
  fGeneratedStakeModifier := false
  nStakeModifier := 0
  nAccumulatorCheckpoint := if 3 < block.nVersion then block.nAccumulatorCheckpoint else 0

/-- `AddToBlockIndex`.  The modifier is kept also when computing it failed. -/
def AddToBlockIndex (block : CStakeBlock) : KernelProcess :=
  if (N.mapBlockIndex block.hash).isSome then N -- duplicate
  else
    let pindexNew := KernelIndex.ofBlock block
    let branch :=
      match N.mapBlockIndex block.hashPrevBlock with
      | none => [pindexNew]
      | some pprev =>
        let next := ComputeNextStakeModifier C P N pprev
        { pindexNew with
          nHeight := pprev.head?.elim 0 KernelIndex.nHeight + 1
          nStakeModifier := next.nStakeModifier
          fGeneratedStakeModifier := next.fGeneratedStakeModifier } :: pprev
    { N with mapBlockIndex := Function.update N.mapBlockIndex block.hash (some branch) }

/-- A process with the literal at `literal` that has indexed `blocks`, the first one first. -/
def indexBlocks (literal : BitVec 64) (blocks : List CStakeBlock) : KernelProcess :=
  blocks.foldl (AddToBlockIndex C P) ⟨literal, fun _ => none⟩

end

end Divitae
