/-
# `BlockTree` — the block index

`mapBlockIndex` and what `main.cpp` keeps beside it: the candidates for the tip, the blocks
whose data came before that of a predecessor, and the active chain.  A `CBlockIndex*` is the
hash its entry is filed under.

    AddToBlockIndex            a header enters the index
    ReceivedBlockTransactions  its data arrives; what waited for it is linked
    AcceptBlock                both, behind the checks, whose verdicts are an argument
    treeStep                   one of these, or an edit of an entry that is there

The checks of headers and blocks, the stake modifier and the place in memory of an entry
are the node's.  `pnext`, the skip list, chain trust, the checksum of the modifiers,
`setStakeSeen`, `pindexBestHeader` and `pindexBestInvalid` are left out.
-/
import Divitae.BlockStatus
import Divitae.Zerocoin
import Divitae.Lib.Codec
import Mathlib.Data.List.AList

namespace Divitae.BlockIndex

/-! ## Blocks and entries -/

structure CBlockHeader where
  nVersion : BitVec 32
  hashPrevBlock : uint256
  hashMerkleRoot : uint256
  nTime : BitVec 32
  nBits : BitVec 32
  nNonce : BitVec 32
  nAccumulatorCheckpoint : uint256

/-- From version 4 on the header has an accumulator checkpoint. -/
def hasCheckpoint (nVersion : BitVec 32) : Bool := 3 < nVersion.toInt

/-- A block; the index of an output is an `unsigned int`. -/
structure CBlock extends CBlockHeader where
  vtx : List CTransaction
  prevout_lt : ∀ tx ∈ vtx, ∀ txin ∈ tx.vin, txin.prevout.n < 2 ^ 32

/-- The second transaction of a proof-of-stake block. -/
def CBlock.stake (block : CBlock) : Option CTransaction :=
  match block.vtx with
  | _ :: tx :: _ => if tx.IsCoinStake then some tx else none
  | _ => none

def CBlock.IsProofOfStake (block : CBlock) : Bool := block.stake.isSome

/-- `(CBlock)header`. -/
def CBlockHeader.toBlock (header : CBlockHeader) : CBlock :=
  { header with vtx := [], prevout_lt := nofun }

/-- `std::map<CoinDenomination, int64_t>`. -/
abbrev SupplyMap := CoinDenomination → Option (BitVec 64)

/-- Each denomination with 0. -/
def noSupply : SupplyMap := fun denom =>
  if denom ∈ CoinDenomination.zerocoinDenomList then some 0 else none

def BLOCK_PROOF_OF_STAKE : BitVec 32 := 1
def BLOCK_STAKE_ENTROPY : BitVec 32 := 2
def BLOCK_STAKE_MODIFIER : BitVec 32 := 4

structure CDiskBlockPos where
  nFile : ℕ
  nPos : ℕ
  deriving DecidableEq

/-- `CBlockIndex`; the defaults are those of `SetNull`. -/
@[ext]
structure CBlockIndex where
  pprev : Option uint256 := none
  nHeight : ℕ := 0
  nFile : ℕ := 0
  nDataPos : ℕ := 0
  nUndoPos : ℕ := 0
  nChainWork : uint256 := 0
  nTx : ℕ := 0
  nChainTx : ℕ := 0
  nStatus : BlockStatus := {}
  nFlags : BitVec 32 := 0
  nStakeModifier : BitVec 64 := 0
  prevoutStake : COutPoint := .SetNull
  nStakeTime : BitVec 32 := 0
  hashProofOfStake : uint256 := 0
  nMint : BitVec 64 := 0
  nMoneySupply : BitVec 64 := 0
  nVersion : BitVec 32 := 0
  hashMerkleRoot : uint256 := 0
  nTime : BitVec 32 := 0
  nBits : BitVec 32 := 0
  nNonce : BitVec 32 := 0
  nAccumulatorCheckpoint : uint256 := 0
  nSequenceId : ℕ := 0
  mapZerocoinSupply : SupplyMap := noSupply
  vMintDenominationsInBlock : List CoinDenomination := []

namespace CBlockIndex

variable (pindex : CBlockIndex)

def IsProofOfStake : Bool := pindex.nFlags &&& BLOCK_PROOF_OF_STAKE != 0

def SetProofOfStake : CBlockIndex :=
  { pindex with nFlags := pindex.nFlags ||| BLOCK_PROOF_OF_STAKE }

def GetBlockPos : Option CDiskBlockPos :=
  if pindex.nStatus.haveData then some ⟨pindex.nFile, pindex.nDataPos⟩ else none

def GetUndoPos : Option CDiskBlockPos :=
  if pindex.nStatus.haveUndo then some ⟨pindex.nFile, pindex.nUndoPos⟩ else none

def GetBlockHeader : CBlockHeader where
  nVersion := pindex.nVersion
  hashPrevBlock := pindex.pprev.getD 0
  hashMerkleRoot := pindex.hashMerkleRoot
  nTime := pindex.nTime
  nBits := pindex.nBits
  nNonce := pindex.nNonce
  nAccumulatorCheckpoint := pindex.nAccumulatorCheckpoint

/-- `CBlockIndex(const CBlock&)`. -/
def ofBlock (block : CBlock) : CBlockIndex where
  nVersion := block.nVersion
  hashMerkleRoot := block.hashMerkleRoot
  nTime := block.nTime
  nBits := block.nBits
  nNonce := block.nNonce
  nAccumulatorCheckpoint := if hasCheckpoint block.nVersion then block.nAccumulatorCheckpoint else 0
  nFlags := if block.IsProofOfStake then BLOCK_PROOF_OF_STAKE else 0
  prevoutStake :=
    match block.stake with
    | some tx => (tx.vin.head?.map CTxIn.prevout).getD .SetNull
    | none => .SetNull
  nStakeTime := if block.IsProofOfStake then block.nTime else 0

end CBlockIndex

/-! ## The index -/

structure BlockTree where
  mapBlockIndex : AList fun _ : uint256 => CBlockIndex := ∅
  setBlockIndexCandidates : List uint256 := []
  /-- predecessor first -/
  mapBlocksUnlinked : List (uint256 × uint256) := []
  /-- `chainActive`, the tip first -/
  chainActive : List uint256 := []
  nBlockSequenceId : ℕ := 1
  mapProofOfStake : uint256 → Option uint256 := fun _ => none

/-- What the index asks of the node. -/
structure TreeNode where
  HashQuark : List UInt8 → uint256
  /-- double SHA-256 -/
  Hash : List UInt8 → uint256
  hashGenesisBlock : uint256
  nLastPOWBlock : ℕ
  bnProofOfWorkLimit : uint256
  fSkipProofOfWorkCheck : Bool
  /-- the modifier of the block after an entry, and whether it is a new one -/
  ComputeNextStakeModifier : BlockTree → uint256 → BitVec 64 × Bool
  /-- where the entry of a hash is in memory -/
  address : uint256 ↪ ℕ

def CBlockHeader.GetHash (N : TreeNode) (header : CBlockHeader) : uint256 :=
  let legacy := leBytes 4 header.nVersion.toNat ++ serUint256 header.hashPrevBlock ++
    serUint256 header.hashMerkleRoot ++ leBytes 4 header.nTime.toNat ++
    leBytes 4 header.nBits.toNat ++ leBytes 4 header.nNonce.toNat
  if hasCheckpoint header.nVersion then N.Hash (legacy ++ serUint256 header.nAccumulatorCheckpoint)
  else N.HashQuark legacy

/-- `uint256::SetCompact`: the target, and whether it is negative or too large. -/
def SetCompact (nCompact : BitVec 32) : uint256 × Bool × Bool :=
  let nSize := (nCompact >>> 24).toNat
  let nMantissa := nCompact &&& 0x007fffff
  let nWord := if nSize ≤ 3 then nMantissa >>> (8 * (3 - nSize)) else nMantissa
  let target : uint256 :=
    if nSize ≤ 3 then nWord.setWidth 256 else nWord.setWidth 256 <<< (8 * (nSize - 3))
  (target, nWord != 0 && nCompact &&& 0x00800000 != 0,
    nWord != 0 && (34 < nSize || (0xff < nWord && 33 < nSize) || (0xffff < nWord && 32 < nSize)))

def GetBlockProof (nBits : BitVec 32) : uint256 :=
  let (bnTarget, fNegative, fOverflow) := SetCompact nBits
  if fNegative || fOverflow || bnTarget == 0 then 0 else ~~~bnTarget / (bnTarget + 1) + 1

def CheckProofOfWork (N : TreeNode) (hash : uint256) (nBits : BitVec 32) : Bool :=
  N.fSkipProofOfWorkCheck ||
    (let (bnTarget, fNegative, fOverflow) := SetCompact nBits
     !(fNegative || bnTarget == 0 || fOverflow || decide (N.bnProofOfWorkLimit < bnTarget)) &&
      decide (hash ≤ bnTarget))

namespace BlockTree

section
variable (N : TreeNode) (T : BlockTree)

def entry (hash : uint256) : Option CBlockIndex := T.mapBlockIndex.lookup hash

/-- `pindex->pprev`. -/
def prev (pindex : CBlockIndex) : Option CBlockIndex := pindex.pprev.bind T.entry

def edit (hash : uint256) (f : CBlockIndex → CBlockIndex) : BlockTree :=
  match T.mapBlockIndex.lookup hash with
  | none => T
  | some pindex => { T with mapBlockIndex := T.mapBlockIndex.insert hash (f pindex) }

/-- `CBlockIndexWorkComparator`. -/
def value_comp (pa pb : uint256) : Bool :=
  let a := (T.entry pa).getD {}
  let b := (T.entry pb).getD {}
  -- First sort by most total work, ...
  if b.nChainWork < a.nChainWork then false
  else if a.nChainWork < b.nChainWork then true
  -- ... then by earliest time received, ...
  else if a.nSequenceId < b.nSequenceId then false
  else if b.nSequenceId < a.nSequenceId then true
  -- Use pointer address as tie breaker
  else N.address pb < N.address pa

/-- `AddToBlockIndex`, an entry with a predecessor: everything that depends on it. -/
def succeed (hash : uint256) (pindexNew : CBlockIndex) (hashPrev : uint256) (pprev : CBlockIndex) :
    CBlockIndex :=
  let (nStakeModifier, fGeneratedStakeModifier) := N.ComputeNextStakeModifier T hashPrev
  { pindexNew with
    pprev := some hashPrev
    nHeight := pprev.nHeight + 1
    nFlags := pindexNew.nFlags |||
      (if hash.getLsbD 0 then BLOCK_STAKE_ENTROPY else 0) |||
      (if fGeneratedStakeModifier then BLOCK_STAKE_MODIFIER else 0)
    hashProofOfStake :=
      if pindexNew.IsProofOfStake then (T.mapProofOfStake hash).getD 0
      else pindexNew.hashProofOfStake
    nStakeModifier := nStakeModifier }

/-- `AddToBlockIndex`, the new entry. -/
def newEntry (block : CBlock) : CBlockIndex :=
  let pindexNew :=
    match T.entry block.hashPrevBlock with
    | none => CBlockIndex.ofBlock block
    | some pprev =>
      T.succeed N (block.GetHash N) (CBlockIndex.ofBlock block) block.hashPrevBlock pprev
  { pindexNew with
    nChainWork := ((T.prev pindexNew).map CBlockIndex.nChainWork).getD 0 +
      GetBlockProof pindexNew.nBits
    nStatus := pindexNew.nStatus.RaiseValidity BLOCK_VALID_TREE }

def AddToBlockIndex (block : CBlock) : BlockTree :=
  let hash := block.GetHash N
  match T.entry hash with
  | some _ => T
  | none =>
    { T with
      mapBlockIndex := T.mapBlockIndex.insert hash (T.newEntry N block)
      mapProofOfStake :=
        -- `mapProofOfStake[hash]` makes an entry where there is none
        if (T.entry block.hashPrevBlock).isSome && block.IsProofOfStake then
          Function.update T.mapProofOfStake hash (some ((T.mapProofOfStake hash).getD 0))
        else T.mapProofOfStake }

/-! ### Data -/

/-- What waits for a block. -/
def waiting (pindex : uint256) : List uint256 :=
  (T.mapBlocksUnlinked.filter fun link => link.1 == pindex).map Prod.snd

/-- One round of the loop that links a block and what waited for it. -/
def link (pindex : uint256) : BlockTree :=
  let T' := T.edit pindex fun e => { e with
    nChainTx := (((T.prev e).map CBlockIndex.nChainTx).getD 0 + e.nTx) % 2 ^ 32
    nSequenceId := T.nBlockSequenceId }
  { T' with
    nBlockSequenceId := T.nBlockSequenceId + 1
    setBlockIndexCandidates :=
      match T.chainActive with
      | [] => T.setBlockIndexCandidates.insert pindex
      | tip :: _ =>
        if T'.value_comp N pindex tip then T.setBlockIndexCandidates
        else T.setBlockIndexCandidates.insert pindex
    mapBlocksUnlinked := T.mapBlocksUnlinked.filter fun link => !(link.1 == pindex) }

/-- Recursively process any descendant blocks that now may be eligible to be connected. -/
def linkAll : BlockTree → List uint256 → BlockTree
  | T, [] => T
  | T, pindex :: queue => linkAll (T.link N pindex) (queue ++ T.waiting pindex)
termination_by T queue => queue.length + T.mapBlocksUnlinked.length
decreasing_by
  simp only [link, waiting, List.length_append, List.length_map, List.length_cons]
  have := List.length_eq_length_filter_add (l := T.mapBlocksUnlinked) fun link => link.1 == pindex
  omega

/-- The entry of a block whose data is at `pos`. -/
def received (block : CBlock) (pos : CDiskBlockPos) (pindexNew : CBlockIndex) : CBlockIndex :=
  let pindexNew := if block.IsProofOfStake then pindexNew.SetProofOfStake else pindexNew
  { pindexNew with
    nTx := block.vtx.length
    nChainTx := 0
    nFile := pos.nFile
    nDataPos := pos.nPos
    nUndoPos := 0
    nStatus := { pindexNew.nStatus with haveData := true }.RaiseValidity BLOCK_VALID_TRANSACTIONS }

def ReceivedBlockTransactions (block : CBlock) (pindexNew : uint256) (pos : CDiskBlockPos) :
    BlockTree :=
  let T' := T.edit pindexNew (received block pos)
  match (T'.entry pindexNew).bind fun e => e.pprev with
  -- If pindexNew is the genesis block or all parents are BLOCK_VALID_TRANSACTIONS.
  | none => linkAll N T' [pindexNew]
  | some hashPrev =>
    match T'.entry hashPrev with
    | none => linkAll N T' [pindexNew]
    | some pprev =>
      if pprev.nChainTx ≠ 0 then linkAll N T' [pindexNew]
      else if pprev.nStatus.IsValid BLOCK_VALID_TREE then
        { T' with mapBlocksUnlinked := (hashPrev, pindexNew) :: T'.mapBlocksUnlinked }
      else T'

/-! ### Blocks -/

/-- What the checks say of a header and a block, and whether the block could be stored. -/
structure Verdicts where
  CheckBlockHeader : Bool
  ContextualCheckBlockHeader : Bool
  CheckWork : Bool
  /-- `CheckProofOfStake` and `ContextualCheckZerocoinStake`: the proof's hash -/
  CheckProofOfStake : Option uint256
  /-- `CheckBlock` and `ContextualCheckBlock` -/
  CheckBlock : BlockVerdict
  /-- the stake is not spent on the block's branch, and the block is on disk -/
  stored : Bool

/-- The predecessor is in the index and has not failed; the genesis block needs none. -/
def prevAccepted (block : CBlock) : Bool :=
  block.GetHash N == N.hashGenesisBlock ||
    match T.entry block.hashPrevBlock with
    | none => false
    | some pindexPrev => !pindexPrev.nStatus.failed

/-- `AcceptBlockHeader`: the index, and whether the header is accepted. -/
def AcceptBlockHeader (block : CBlock) (verdicts : Verdicts) : BlockTree × Bool :=
  match T.entry (block.GetHash N) with
  | some pindex => (T, !pindex.nStatus.failed)
  | none =>
    if verdicts.CheckBlockHeader && T.prevAccepted N block &&
        verdicts.ContextualCheckBlockHeader then
      (T.AddToBlockIndex N block, true)
    else (T, false)

/-- `mapProofOfStake.insert`, where there is no entry yet. -/
def recordProof (hash hashProofOfStake : uint256) : BlockTree :=
  match T.mapProofOfStake hash with
  | some _ => T
  | none =>
    { T with mapProofOfStake := Function.update T.mapProofOfStake hash (some hashProofOfStake) }

/-- The part of `AcceptBlock` behind the header. -/
def AcceptBlockData (block : CBlock) (verdicts : Verdicts) (pos : CDiskBlockPos) : BlockTree :=
  let hash := block.GetHash N
  match T.entry hash with
  | none => T
  | some pindex =>
    if pindex.nStatus.haveData then T
    else
      -- `CheckBlock` begins with this
      let verdict := if block.vtx.isEmpty then .invalid else verdicts.CheckBlock
      match verdict with
      | .invalid =>
        T.edit hash fun e => { e with nStatus := { e.nStatus with failedValid := true } }
      | .corrupt | .error => T
      | .accept => if verdicts.stored then T.ReceivedBlockTransactions N block hash pos else T

/-- `AcceptBlock`.  A predecessor of the checkpoints that has failed is reconsidered: the
edits of `ReconsiderBlock` are steps of their own. -/
def AcceptBlock (block : CBlock) (verdicts : Verdicts) (pos : CDiskBlockPos) : BlockTree :=
  if !(T.prevAccepted N block) then T
  else if block.GetHash N != N.hashGenesisBlock && !verdicts.CheckWork then T
  else
    let proven :=
      if block.IsProofOfStake then
        verdicts.CheckProofOfStake.map fun proof => T.recordProof (block.GetHash N) proof
      else some T
    match proven with
    | none => T
    | some T =>
      let (T, accepted) := T.AcceptBlockHeader N block verdicts
      if accepted then T.AcceptBlockData N block verdicts pos else T

end

/-! ## Steps -/

/-- What connecting a block, or counting the supply anew, notes in its entry.  A block has
fewer mints than a vector may have elements. -/
structure Figures where
  nMint : BitVec 64
  nMoneySupply : BitVec 64
  mapZerocoinSupply : SupplyMap
  vMintDenominationsInBlock : List CoinDenomination
  mints_le : vMintDenominationsInBlock.length ≤ 0x02000000

inductive TreeEvent where
  /-- a header of a `headers` message -/
  | header (header : CBlockHeader) (verdicts : Verdicts)
  | block (block : CBlock) (verdicts : Verdicts) (pos : CDiskBlockPos)
  /-- the figures of a connected block, or those of a recount -/
  | figures (hash : uint256) (figures : Figures)
  /-- the undo data of a connected block is written at `nPos` -/
  | undo (hash : uint256) (nPos : ℕ)
  /-- the flags of failure are set or taken off: `InvalidBlockFound`, `FindMostWorkChain`,
  `InvalidateBlock`, `ReconsiderBlock` -/
  | mark (hash : uint256) (failedValid failedChild : Bool)
  /-- tips are connected or disconnected, candidates erased or entered -/
  | chain (setBlockIndexCandidates chainActive : List uint256)

def setFigures (figures : Figures) (pindex : CBlockIndex) : CBlockIndex :=
  { pindex with
    nMint := figures.nMint
    nMoneySupply := figures.nMoneySupply
    mapZerocoinSupply := figures.mapZerocoinSupply
    vMintDenominationsInBlock := figures.vMintDenominationsInBlock }

/-- `ConnectBlock`, "Write undo information to disk". -/
def setUndo (nPos : ℕ) (pindex : CBlockIndex) : CBlockIndex :=
  let pindex :=
    if pindex.nStatus.haveUndo then pindex
    else { pindex with nUndoPos := nPos, nStatus := { pindex.nStatus with haveUndo := true } }
  { pindex with nStatus := pindex.nStatus.RaiseValidity BLOCK_VALID_SCRIPTS }

def setFailed (failedValid failedChild : Bool) (pindex : CBlockIndex) : CBlockIndex :=
  { pindex with
    nStatus := { pindex.nStatus with failedValid := failedValid, failedChild := failedChild } }

def treeStep (N : TreeNode) (T : BlockTree) : TreeEvent → BlockTree
  | .header header verdicts => (T.AcceptBlockHeader N header.toBlock verdicts).1
  | .block block verdicts pos => T.AcceptBlock N block verdicts pos
  | .figures hash figures => T.edit hash (setFigures figures)
  | .undo hash nPos => T.edit hash (setUndo nPos)
  | .mark hash failedValid failedChild => T.edit hash (setFailed failedValid failedChild)
  | .chain setBlockIndexCandidates chainActive =>
    { T with setBlockIndexCandidates := setBlockIndexCandidates, chainActive := chainActive }

/-- The transactions of all blocks whose data is there. -/
def transactions (T : BlockTree) : ℕ := (T.mapBlockIndex.entries.map fun e => e.2.nTx).sum

end BlockTree

end Divitae.BlockIndex
