/-
# `AccumulatorDB` — the accumulator values behind the checkpoints

The header of a block carries a checkpoint: the checksums, 32 bits each, of the accumulators
of the eight denominations.  The values themselves are in the zerocoin database, under their
checksums.

    a block connected      the checkpoint is computed again every ten blocks; the values of
                           the accumulators that were used go into the database
    a block disconnected   where its checkpoint is not that of the block before, the checksums
                           that differ from that block's, denomination by denomination, are
                           erased

The values in memory come and go with those in the database and are left out, and so are the
values of version 1.
-/
import Divitae.StakeInput
import Divitae.ZerocoinDB

namespace Divitae

open Records

/-! ## Accumulators -/

/-- The arithmetic of an accumulator, with the modulus of version 1 or not. -/
structure AccumulatorParams where
  accumulatorBase : Bool → Int
  /-- `Accumulator::increment`: a value and the value of a coin -/
  increment : Bool → Int → Int → Int
  /-- `GetChecksum`: the low bits of a hash of the value -/
  GetChecksum : Int → BitVec 32
  /-- `AccumulatorCheckpoints::mapCheckpoints`, the lowest height first -/
  mapCheckpoints : List (Int × (CoinDenomination → Int))

structure AccumulatorMap where
  useModulusV1 : Bool
  mapAccumulators : CoinDenomination → Int

namespace AccumulatorMap

variable (A : AccumulatorParams) (m : AccumulatorMap)

/-- `AccumulatorMap(params)`, and `Reset(params)`. -/
def Reset (useModulusV1 : Bool) : AccumulatorMap :=
  ⟨useModulusV1, fun _ => A.accumulatorBase useModulusV1⟩

/-- `Load` of a checkpoint; nothing where a checksum is not in the database. -/
def Load (db : Store (BitVec 32) Int) (nCheckpoint : uint256) : Option AccumulatorMap :=
  if CoinDenomination.zerocoinDenomList.all fun denom =>
    (db (ParseChecksum nCheckpoint denom)).isSome
  then some ⟨m.useModulusV1, fun denom => (db (ParseChecksum nCheckpoint denom)).getD 0⟩
  else none

/-- `Accumulate` of coins, one by one. -/
def Accumulate : AccumulatorMap → List PublicCoin → Option AccumulatorMap
  | m, [] => some m
  | m, pubCoin :: rest =>
    if pubCoin.denomination = .ZQ_ERROR then none
    else
      Accumulate
        { m with
          mapAccumulators := Function.update m.mapAccumulators pubCoin.denomination
            (A.increment m.useModulusV1 (m.mapAccumulators pubCoin.denomination) pubCoin.value) }
        rest

/-- The checksums put one behind the other. -/
def joinChecksums (checksums : List (BitVec 32)) : uint256 :=
  checksums.foldl (fun nCheckpoint nCheckSum => nCheckpoint <<< 32 ||| nCheckSum.setWidth 256) 0

def GetCheckpoint : uint256 :=
  joinChecksums (CoinDenomination.zerocoinDenomList.map fun denom =>
    A.GetChecksum (m.mapAccumulators denom))

/-- What `DatabaseChecksums` writes. -/
def checksums : List (BitVec 32 × Int) :=
  CoinDenomination.zerocoinDenomList.map fun denom =>
    (A.GetChecksum (m.mapAccumulators denom), m.mapAccumulators denom)

end AccumulatorMap

section
variable (N : CConnectNode)

/-- The coins of the outputs from the `i`-th on. -/
def pubcoinsOf (fFilterInvalid : Bool) (txHash : uint256) : List CTxOut → Nat →
    Option (List PublicCoin)
  | [], _ => some []
  | txOut :: vout, i =>
    if fFilterInvalid && N.ContainsOutPoint ⟨txHash, i⟩ then some []
    else if !txOut.scriptPubKey.IsZerocoinMint then pubcoinsOf fFilterInvalid txHash vout (i + 1)
    else
      match TxOutToPublicCoin N.Z txOut with
      | none => none
      | some pubCoin =>
        (pubcoinsOf fFilterInvalid txHash vout (i + 1)).map fun rest => pubCoin :: rest

def BlockToPubcoinList (fFilterInvalid : Bool) : List CTransaction → Option (List PublicCoin)
  | [] => some []
  | tx :: vtx =>
    if !tx.IsZerocoinMint then BlockToPubcoinList fFilterInvalid vtx
    else if fFilterInvalid && tx.vin.any fun txin => N.ContainsOutPoint txin.prevout then
      BlockToPubcoinList fFilterInvalid vtx
    else
      match pubcoinsOf N fFilterInvalid tx.hash tx.vout 0 with
      | none => none
      | some coins => (BlockToPubcoinList fFilterInvalid vtx).map fun rest => coins ++ rest

end

/-! ## The node -/

/-- The active chain, the tip first, with the coins and the accumulator values. -/
structure AccumulatorChain where
  chainActive : List ChainEntry
  pcoinsTip : CCoinsView
  accumulatorValues : Store (BitVec 32) Int

/-- What a step asks of the node besides. -/
structure CAccumulatorNode extends CDisconnectNode where
  fTxIndex : Bool
  ShutdownRequested : Bool
  /-- the block can be read from disk -/
  ReadBlockFromDisk : CBlock → Bool
  /-- whether a value can be erased from the database -/
  EraseAccumulatorValue : BitVec 32 → Bool
  -- whether the writes at the end of `ConnectBlock` go through
  WriteUndo : Bool
  WriteCoinSpendBatch : Bool
  WriteCoinMintBatch : Bool
  WriteTxIndex : Bool

namespace AccumulatorChain

variable (P : CChainParams) (A : AccumulatorParams) (M : CAccumulatorNode) (s : AccumulatorChain)

/-- `chainActive[nHeight]`. -/
def at' (nHeight : Int) : Option ChainEntry :=
  s.chainActive.find? fun entry => entry.pindex.nHeight == nHeight

def Height : Int :=
  match s.chainActive with
  | [] => -1
  | tip :: _ => tip.pindex.nHeight

def EraseChecksum (db : Store (BitVec 32) Int) (nChecksum : BitVec 32) : Store (BitVec 32) Int :=
  if M.EraseAccumulatorValue nChecksum then erase db [nChecksum] else db

/-- `EraseCheckpoints` from a height on, over so many blocks.  The checksums of the block
before are kept only where one of them is the whole checkpoint. -/
def eraseCheckpoints (listCheckpointsPrev : List (BitVec 32)) :
    Nat → Int → Store (BitVec 32) Int → Store (BitVec 32) Int
  | 0, _, db => db
  | n + 1, nHeight, db =>
    match s.at' nHeight with
    | none => db
    | some entry =>
      let nCheckpointDelete := entry.pindex.nAccumulatorCheckpoint
      let db :=
        if listCheckpointsPrev.any fun nChecksum => nChecksum.setWidth 256 == nCheckpointDelete
        then db
        else
          CoinDenomination.zerocoinDenomList.foldl
            (fun db denom => EraseChecksum M db (ParseChecksum nCheckpointDelete denom)) db
      eraseCheckpoints listCheckpointsPrev n (nHeight + 1) db

/-- `EraseCheckpoints`; nothing where the chain does not reach that far.  The block at
`nStartHeight` is taken in any case. -/
def EraseCheckpoints (nStartHeight nEndHeight : Int) : Option (Store (BitVec 32) Int) :=
  if s.Height < nStartHeight then none
  else
    match s.at' (nStartHeight - 1) with
    | none => none
    | some prev =>
      some (eraseCheckpoints M s
        (CoinDenomination.zerocoinDenomList.map (ParseChecksum prev.pindex.nAccumulatorCheckpoint))
        ((min s.Height nEndHeight - nStartHeight).toNat + 1) nStartHeight s.accumulatorValues)

/-- `GetClosestCheckpoint`: the height it settles on, -1 for none. -/
def closestHeight (nHeight : Int) : List (Int × (CoinDenomination → Int)) → Int → Int
  | [], nHeightCheckpoint => nHeightCheckpoint
  | (height, _) :: rest, nHeightCheckpoint =>
    if height < nHeight then
      let nHeightCheckpoint := if nHeightCheckpoint = -1 then height else nHeightCheckpoint
      closestHeight nHeight rest
        (if nHeight - height < nHeightCheckpoint then height else nHeightCheckpoint)
    else closestHeight nHeight rest nHeightCheckpoint

/-- `InitializeAccumulators`: the database behind it, and the height and the accumulators to
start from. -/
def InitializeAccumulators (nHeight : Int) :
    Store (BitVec 32) Int × Option (Int × AccumulatorMap) :=
  let db := s.accumulatorValues
  -- the map has been made for this height
  let mapAccumulators := AccumulatorMap.Reset A (nHeight < P.nBlockZerocoinV2)
  if nHeight < P.nZerocoinStartHeight then (db, none)
  else if nHeight = P.nBlockRecalculateAccumulators then
    match (s.at' P.nBlockLastGoodCheckpoint).bind fun entry =>
      mapAccumulators.Load db entry.pindex.nAccumulatorCheckpoint with
    | none => (db, none)
    | some mapAccumulators =>
      match s.EraseCheckpoints M (P.nBlockLastGoodCheckpoint + 1) nHeight with
      | none => (db, none)
      | some db => (db, some (P.nBlockLastGoodCheckpoint, mapAccumulators))
  else
    let mapAccumulators :=
      if P.nBlockZerocoinV2 ≤ nHeight then AccumulatorMap.Reset A false else mapAccumulators
    if P.nBlockZerocoinV2 ≤ nHeight ∧ nHeight ≤ P.nBlockZerocoinV2 + 20 then
      -- load hard coded checkpointed value
      let nHeightCheckpoint := closestHeight nHeight A.mapCheckpoints (-1)
      match A.mapCheckpoints.find? fun checkpoint => checkpoint.1 == nHeightCheckpoint with
      | none => (db, none)
      | some checkpoint => (db,
        some (nHeightCheckpoint, ⟨mapAccumulators.useModulusV1, checkpoint.2⟩))
    else
      match s.at' (nHeight - 1) with
      | none => (db, none)
      | some prev =>
        if prev.pindex.nAccumulatorCheckpoint = 0 then (db, some (nHeight, mapAccumulators))
        else
          match mapAccumulators.Load db prev.pindex.nAccumulatorCheckpoint with
          | none => (db, none)
          | some mapAccumulators => (db, some (nHeight, mapAccumulators))

/-- The coins of so many blocks from a height on are accumulated, and counted. -/
def accumulateBlocks (fFilterInvalid : Bool) :
    Nat → Int → AccumulatorMap → Nat → Option (AccumulatorMap × Nat)
  | 0, _, mapAccumulators, nTotalMintsFound => some (mapAccumulators, nTotalMintsFound)
  | n + 1, nHeight, mapAccumulators, nTotalMintsFound =>
    if M.ShutdownRequested then none
    else if nHeight < P.nZerocoinStartHeight then
      accumulateBlocks fFilterInvalid n (nHeight + 1) mapAccumulators nTotalMintsFound
    else
      match s.at' nHeight with
      | none => none
      | some entry =>
        if !M.ReadBlockFromDisk entry.block then none
        else
          match BlockToPubcoinList M.toCConnectNode fFilterInvalid entry.block.vtx with
          | none => none
          | some listPubcoins =>
            match mapAccumulators.Accumulate A listPubcoins with
            | none => none
            | some mapAccumulators =>
              accumulateBlocks fFilterInvalid n (nHeight + 1) mapAccumulators
                (nTotalMintsFound + listPubcoins.length)

/-- `CalculateAccumulatorCheckpoint` at a height that is a multiple of ten: the database
behind it, the checkpoint and the accumulators. -/
def CalculateAccumulatorCheckpoint (nHeight : Int) :
    Store (BitVec 32) Int × Option (uint256 × AccumulatorMap) :=
  match s.InitializeAccumulators P A M nHeight with
  | (db, none) => (db, none)
  | (db, some (nHeightCheckpoint, mapAccumulators)) =>
    let fFilterInvalid := decide (P.nBlockRecalculateAccumulators ≤ nHeight)
    match s.accumulateBlocks P A M fFilterInvalid
      (nHeight - 10 - (nHeightCheckpoint - 20)).toNat (nHeightCheckpoint - 20)
        mapAccumulators 0 with
    | none => (db, none)
    | some (mapAccumulators, nTotalMintsFound) =>
      -- without new mints the checkpoint stays the same
      if nTotalMintsFound = 0 then
        (db, (s.at' (nHeight - 1)).map fun prev =>
          (prev.pindex.nAccumulatorCheckpoint, mapAccumulators))
      else (db, some (mapAccumulators.GetCheckpoint A, mapAccumulators))

/-- `ValidateAccumulatorCheckpoint` of the header's checkpoint on top of `prev`: the database
behind it, and the accumulators `ConnectBlock` is left with if it is valid. -/
def ValidateAccumulatorCheckpoint (nHeight : Int) (nAccumulatorCheckpoint : uint256)
    (prev : ChainEntry) : Store (BitVec 32) Int × Option AccumulatorMap :=
  let db := s.accumulatorValues
  let mapAccumulators := AccumulatorMap.Reset A (nHeight < P.nBlockZerocoinV2)
  if nHeight < P.nBlockZerocoinV2 then (db, some mapAccumulators)
  else if nHeight.tmod 10 = 0 then
    match s.CalculateAccumulatorCheckpoint P A M nHeight with
    | (db, none) => (db, none)
    | (db, some (nCheckpointCalculated, mapAccumulators)) =>
      if nCheckpointCalculated ≠ nAccumulatorCheckpoint then (db, none)
      else (db, some mapAccumulators)
  else if nAccumulatorCheckpoint ≠ prev.pindex.nAccumulatorCheckpoint then (db, none)
  else (db, some mapAccumulators)

/-- `AddAccumulatorChecksum` for each denomination; the tip is still the block before. -/
def DatabaseChecksums (mapAccumulators : AccumulatorMap) (db : Store (BitVec 32) Int) :
    Store (BitVec 32) Int :=
  if P.nBlockZerocoinV2 ≤ s.Height then write db (mapAccumulators.checksums A) else db

/-- The node that connects: the checkpoint and the writes are looked at by themselves. -/
def connectNode : CConnectNode :=
  { M.toCConnectNode with
    P := P
    fVerifyingBlocks := false
    ValidateAccumulatorCheckpoint := fun _ _ => true
    writesSucceed := true }

/-- `ConnectTip` of a block with a checkpoint in its header. -/
def ConnectTip (block : CBlock) (nAccumulatorCheckpoint : uint256) (pindexNew : CBlockIndex)
    (fAlreadyChecked : Bool) : AccumulatorChain :=
  match s.chainActive with
  | [] => s
  | tip :: _ =>
    -- assert(pindexNew->pprev == chainActive.Tip())
    if pindexNew.nHeight ≠ tip.pindex.nHeight + 1 ∨ block.hash = M.hashGenesisBlock then s
    else
      -- `CBlockIndex(block)`
      let pindexNew :=
        { pindexNew with
          nAccumulatorCheckpoint := if 3 < block.nVersion then nAccumulatorCheckpoint else 0 }
      match ConnectBlock (connectNode P M) block pindexNew tip.pindex s.pcoinsTip false
        fAlreadyChecked with
      | .error _ => s -- before the checkpoint is looked at
      | .ok c =>
        match s.ValidateAccumulatorCheckpoint P A M pindexNew.nHeight
          nAccumulatorCheckpoint tip with
        | (db, none) => { s with accumulatorValues := db }
        | (db, some mapAccumulators) =>
          if !M.WriteUndo || !M.WriteCoinSpendBatch || !M.WriteCoinMintBatch then
            { s with accumulatorValues := db }
          else
            let db := s.DatabaseChecksums P A mapAccumulators db
            if M.fTxIndex && !M.WriteTxIndex then { s with accumulatorValues := db }
            else ⟨⟨block, c.pindex⟩ :: s.chainActive, c.view, db⟩

/-! ## A block disconnected -/

/-- The loop of `EraseAccumulatorValues`: what it erases, and whether it gets to the end. -/
def eraseChecksums (nCheckpointErase nCheckpointPrevious : uint256) :
    List CoinDenomination → List (BitVec 32) × Bool
  | [] => ([], true)
  | denomination :: rest =>
    let nChecksumErase := ParseChecksum nCheckpointErase denomination
    -- if the previous checksum is the same, then it should remain in the database and map
    if nChecksumErase = ParseChecksum nCheckpointPrevious denomination then
      eraseChecksums nCheckpointErase nCheckpointPrevious rest
    else if !M.EraseAccumulatorValue nChecksumErase then ([], false)
    else
      let erased := eraseChecksums nCheckpointErase nCheckpointPrevious rest
      (nChecksumErase :: erased.1, erased.2)

def EraseAccumulatorValues (nCheckpointErase nCheckpointPrevious : uint256) :
    List (BitVec 32) × Bool :=
  eraseChecksums M nCheckpointErase nCheckpointPrevious CoinDenomination.zerocoinDenomList

/-- The node that disconnects; `erases` says whether the checksums can be erased. -/
def disconnectNode (erases : uint256 → uint256 → Bool) : CDisconnectNode :=
  { M.toCDisconnectNode with
    P := P
    fVerifyingBlocks := false
    EraseAccumulatorValues := erases }

/-- What `DisconnectBlock` erases, also when it fails.  The checkpoint comes last: it is
reached where nothing else fails. -/
def erasedValues (block : CBlock) (pindex pprev : CBlockIndex) (view : CCoinsView) :
    List (BitVec 32) :=
  match DisconnectBlock (disconnectNode P M fun _ _ => true) block pindex pprev view with
  | .error _ => []
  | .ok _ =>
    if pindex.nAccumulatorCheckpoint ≠ pprev.nAccumulatorCheckpoint then
      (EraseAccumulatorValues M pindex.nAccumulatorCheckpoint pprev.nAccumulatorCheckpoint).1
    else []

def DisconnectTip : AccumulatorChain :=
  match s.chainActive with
  | tip :: prev :: rest =>
    let db := erase s.accumulatorValues
      (erasedValues P M tip.block tip.pindex prev.pindex s.pcoinsTip)
    match DisconnectBlock (disconnectNode P M fun nErase nPrevious =>
        (EraseAccumulatorValues M nErase nPrevious).2) tip.block tip.pindex prev.pindex
          s.pcoinsTip with
    | .ok (view, true) => ⟨prev :: rest, view, db⟩
    | _ => { s with accumulatorValues := db }
  | _ => s

end AccumulatorChain

inductive AccumulatorEvent where
  | connectTip (M : CAccumulatorNode) (block : CBlock) (nAccumulatorCheckpoint : uint256)
      (pindexNew : CBlockIndex) (fAlreadyChecked : Bool)
  | disconnectTip (M : CAccumulatorNode)

def accumulatorStep (P : CChainParams) (A : AccumulatorParams) (s : AccumulatorChain) :
    AccumulatorEvent → AccumulatorChain
  | .connectTip M block nAccumulatorCheckpoint pindexNew fAlreadyChecked =>
    s.ConnectTip P A M block nAccumulatorCheckpoint pindexNew fAlreadyChecked
  | .disconnectTip M => s.DisconnectTip P M

end Divitae
