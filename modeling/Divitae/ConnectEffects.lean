/-
# `ConnectEffects` — what `ConnectBlock` does besides

`ConnectBlock` with all it writes besides the view it is given, in the order of the source:

    behind the loop    the one-time recalculation, over the entries of the active chain
                       the mints of the block, told to the wallet
                       the supplies of the block's entry, in place
    then               the value check, the accumulator checkpoint
    then, unless only a check is wanted
                       undo data, serials, mints, checksums, transaction index,
                       `mapStakeSpent`

A call may end after each of the checks and each of the writes.  What was written before
it stays.  The entry may be one of `mapBlockIndex` or, for `TestBlockValidity`, one that
is thrown away after the call.
-/
import Divitae.ZerocoinDB
import Divitae.ZerocoinSupply
import Divitae.ZerocoinWallet

namespace Divitae

open Records Wrap

section
variable (N : CConnectNode)

/-- Coins minted by the outputs from the `i`-th on, and whether all could be read. -/
def mintedCoins (fFilterInvalid : Bool) (hash : uint256) : List CTxOut → Nat → List BlockMint × Bool
  | [], _ => ([], true)
  | txOut :: vout, i =>
    if fFilterInvalid && N.ContainsOutPoint ⟨hash, i⟩ then ([], true)
    else if !txOut.scriptPubKey.IsZerocoinMint then mintedCoins fFilterInvalid hash vout (i + 1)
    else
      match TxOutToPublicCoin N.Z txOut with
      | none => ([], false)
      | some pubCoin =>
        let rest := mintedCoins fFilterInvalid hash vout (i + 1)
        (⟨pubCoin.value, pubCoin.denomination, hash⟩ :: rest.1, rest.2)

/-- `BlockToZerocoinMintList`, the coins. -/
def BlockToZerocoinMints (fFilterInvalid : Bool) : List CTransaction → List BlockMint
  | [] => []
  | tx :: vtx =>
    if !tx.IsZerocoinMint then BlockToZerocoinMints fFilterInvalid vtx
    else if fFilterInvalid && tx.vin.any fun txin => N.ContainsOutPoint txin.prevout then
      BlockToZerocoinMints fFilterInvalid vtx
    else
      let minted := mintedCoins N fFilterInvalid tx.hash tx.vout 0
      if minted.2 then minted.1 ++ BlockToZerocoinMints fFilterInvalid vtx else minted.1

end

/-! ## The money supply, recalculated -/

/-- What the recalculation asks of the node. -/
structure CSupplyNode extends CZerocoinNode where
  /-- the value of an output, as `GetTransaction` finds it -/
  prevValue : COutPoint → CAmount
  InvalidAmountFiltered : CAmount
  GetInvalidUTXOValue : CAmount
  /-- checksum and value of the accumulator of each denomination behind the checkpoint -/
  checksums : CBlock → List (Nat × Int)
  seed : MintSeed

section
variable (M : CSupplyNode)

/-- What the inputs of a transaction bring. -/
def CTransaction.valueIn (tx : CTransaction) : CAmount :=
  if tx.IsCoinBase then 0
  else
    (tx.vin.map fun txin =>
      if txin.scriptSig.IsZerocoinSpend then txin.nSequence * COIN
      else M.prevValue txin.prevout).sum

/-- What its outputs take, without the marker of a coin stake. -/
def CTransaction.valueOut (tx : CTransaction) : CAmount :=
  ((if tx.IsCoinStake then tx.vout.drop 1 else tx.vout).map CTxOut.nValue).sum

/-- The supply before the zerocoin start height. -/
def startMoneySupply : CAmount := 649916627717750

/-- `RecalculateVITSupply` from the zerocoin start height, on the chain whose tip comes
first: the index, and `nSupplyPrev`. -/
def RecalculateVITSupply (mapBlockIndex : uint256 → Option ChainEntry) :
    List uint256 → (uint256 → Option ChainEntry) × CAmount
  | [] => (mapBlockIndex, startMoneySupply)
  | hash :: below =>
    let (mapBlockIndex, nSupplyPrev) := RecalculateVITSupply mapBlockIndex below
    match mapBlockIndex hash with
    | none => (mapBlockIndex, nSupplyPrev)
    | some entry =>
      if entry.pindex.nHeight < M.P.nZerocoinStartHeight then (mapBlockIndex, nSupplyPrev)
      else
        let nSupply := wrap64 (nSupplyPrev + (entry.block.vtx.map CTransaction.valueOut).sum -
          (entry.block.vtx.map (CTransaction.valueIn M)).sum)
        -- Add fraudulent funds to the supply and remove any recovered funds.
        let nMoneySupply :=
          if entry.pindex.nHeight = M.P.nBlockRecalculateAccumulators then
            wrap64 (nSupply + M.InvalidAmountFiltered - M.GetInvalidUTXOValue)
          else nSupply
        (Function.update mapBlockIndex hash
          (some { entry with pindex :=
            { entry.pindex with nMoneySupply := nMoneySupply } }), nSupply)

end

/-! ## The state of the node -/

/-- Where `pindex` points: to an entry of `mapBlockIndex`, or to a `CBlockIndex` of the
caller's. -/
inductive PIndex where
  | indexed (hash : uint256)
  | dummy (pindex : CBlockIndex)

structure PersistentState where
  mapBlockIndex : uint256 → Option ChainEntry
  /-- hashes, the tip first -/
  chainActive : List uint256
  mapStakeSpent : StakeSpent
  zerocoinDB : ZerocoinDB
  /-- accumulator values by checksum, in memory and in the database -/
  accumulatorValues : Store Nat Int
  /-- `pwalletMain`, the zerocoins -/
  wallet : Option ZerocoinWallet

namespace PersistentState

variable (M : CSupplyNode) (w : PersistentState)

def Height : Int :=
  (w.chainActive.head?.bind w.mapBlockIndex).elim (-1) fun tip => tip.pindex.nHeight

def node : CConnectNode :=
  { M.toCConnectNode with
    Z := { M.Z with
      ReadCoinSpend := w.zerocoinDB.coinSpends
      ReadCoinMint := w.zerocoinDB.coinMints } }

def seed : MintSeed :=
  { M.seed with
    IsSerialInBlockchain := fun bnSerial =>
      ((w.zerocoinDB.coinSpends bnSerial).bind M.IsTransactionInChain).isSome }

def get : PIndex → Option CBlockIndex
  | .indexed hash => (w.mapBlockIndex hash).map ChainEntry.pindex
  | .dummy pindex => some pindex

def set (ptr : PIndex) (block : CBlock) (pindex : CBlockIndex) : PersistentState :=
  match ptr with
  | .indexed hash =>
    { w with mapBlockIndex := Function.update w.mapBlockIndex hash (some ⟨block, pindex⟩) }
  | .dummy _ => w

/-- `RecalculateZVITMinted`, `RecalculateZVITSpent`, `RecalculateVITSupply`. -/
def recalculated (nHeight : Int) : PersistentState :=
  if nHeight = M.P.nBlockRecalculateAccumulators + 1 then
    { w with
      mapBlockIndex :=
        (RecalculateVITSupply M (recalculate M.toCConnectNode w.mapBlockIndex w.chainActive)
          w.chainActive).1 }
  else w

def DatabaseChecksums (block : CBlock) : PersistentState :=
  if w.Height < M.P.nBlockZerocoinV2 then w
  else { w with accumulatorValues := write w.accumulatorValues (M.checksums block) }

/-- `ConnectBlock` from the undo data on; `false` for an error. -/
def connectWrites (block : CBlock) (nHeight : Int) (st : ConnectState) : PersistentState × Bool :=
  if !M.WriteUndo then (w, false)
  else if !M.WriteCoinSpendBatch then (w, false)
  else
    let w := { w with zerocoinDB := w.zerocoinDB.WriteCoinSpendBatch st.vSpends }
    if !M.WriteCoinMintBatch then (w, false)
    else
      let w := { w with zerocoinDB := w.zerocoinDB.WriteCoinMintBatch st.vMints }
      let w := w.DatabaseChecksums M block
      if M.fTxIndex && !M.WriteTxIndex then (w, false)
      else ({ w with mapStakeSpent := w.mapStakeSpent.connect block nHeight }, true)

/-- The value check and the checkpoint, the entry with its supplies being `pindex`. -/
def valueChecks (block : CBlock) (pindex pprev : CBlockIndex) (st : ConnectState) : Bool :=
  IsBlockValueValid (w.node M) block
      (GetBlockValue M.P pprev.nHeight + if block.IsProofOfWork then st.nFees else 0)
        pindex.nMint &&
    M.ValidateAccumulatorCheckpoint block pindex

/-- The mints of the block are told to the wallet. -/
def tellWallet (block : CBlock) (nHeight : Int) : PersistentState :=
  { w with
    wallet := w.wallet.map fun wallet =>
      wallet.recordMints (w.seed M) nHeight
        (BlockToZerocoinMints (w.node M) (M.P.nBlockRecalculateAccumulators ≤ nHeight) block.vtx) }

/-- `ConnectBlock` behind the recalculation. -/
def connectFrom (block : CBlock) (ptr : PIndex) (pindex pprev : CBlockIndex) (fJustCheck : Bool)
    (st : ConnectState) : PersistentState × Bool :=
  let told := w.tellWallet M block pindex.nHeight
  match UpdateZDIVITSupply (w.node M) block pindex pprev with
  | .error _ => (told.set ptr block (supplyInPlace (w.node M) block pindex pprev), false)
  | .ok counted =>
    let tracked := trackSupply counted pprev st
    let s := told.set ptr block tracked
    if !w.valueChecks M block tracked pprev st then (s, false)
    else if fJustCheck then (s, true)
    else s.connectWrites M block pindex.nHeight st

/-- `ConnectBlock` behind the loop over the transactions. -/
def connectBehind (block : CBlock) (ptr : PIndex) (hashPrev : uint256) (nHeight : Int)
    (fJustCheck : Bool) (st : ConnectState) : PersistentState × Bool :=
  let w := w.recalculated M nHeight
  match w.get ptr, w.mapBlockIndex hashPrev with
  | some pindex, some pprev => w.connectFrom M block ptr pindex pprev.pindex fJustCheck st
  | _, _ => (w, false)

/-- `ConnectBlock` of the block on the one with hash `hashPrev`. -/
def ConnectBlock (block : CBlock) (ptr : PIndex) (hashPrev : uint256) (view : CCoinsView)
    (fJustCheck fAlreadyChecked : Bool) : PersistentState × Bool :=
  match w.get ptr, w.mapBlockIndex hashPrev with
  | some pindex, some pprev =>
    if block.hash = M.hashGenesisBlock then
      (w, (Divitae.ConnectBlock (w.node M) block pindex pprev.pindex view fJustCheck
        fAlreadyChecked).isOk)
    else
      match connectLoop (w.node M) block pindex pprev.pindex view fJustCheck fAlreadyChecked with
      | .error _ => (w, false)
      | .ok st => w.connectBehind M block ptr hashPrev pindex.nHeight fJustCheck st
  | _, _ => (w, false)

/-- Every write goes through. -/
def allWrites (M : CSupplyNode) : Bool :=
  M.WriteUndo && M.WriteCoinSpendBatch && M.WriteCoinMintBatch && !(M.fTxIndex && !M.WriteTxIndex)

theorem connectWrites_outcome (M : CSupplyNode) (w : PersistentState) (block : CBlock)
    (nHeight : Int)
    (st : ConnectState) : (w.connectWrites M block nHeight st).2 = allWrites M := by
  rw [connectWrites, allWrites]
  cases M.WriteUndo with
  | false => rfl
  | true =>
    cases M.WriteCoinSpendBatch with
    | false => rfl
    | true =>
      cases M.WriteCoinMintBatch with
      | false => rfl
      | true => cases M.fTxIndex && !M.WriteTxIndex <;> rfl

/-- **The call goes through when `ConnectBlock` does**, the recalculation apart. -/
theorem ConnectBlock_outcome (M : CSupplyNode) (hwrites : M.writesSucceed = allWrites M)
    (w : PersistentState) (block : CBlock) (ptr : PIndex) (hashPrev : uint256) (view : CCoinsView)
    (fJustCheck fAlreadyChecked : Bool) {pindex : CBlockIndex} {pprev : ChainEntry}
    (hptr : w.get ptr = some pindex) (hprev : w.mapBlockIndex hashPrev = some pprev)
    (hheight : pindex.nHeight ≠ M.P.nBlockRecalculateAccumulators + 1) :
    (w.ConnectBlock M block ptr hashPrev view fJustCheck fAlreadyChecked).2 =
      (Divitae.ConnectBlock (w.node M) block pindex pprev.pindex view fJustCheck
        fAlreadyChecked).isOk := by
  rw [PersistentState.ConnectBlock, hptr, hprev]
  dsimp only
  rcases eq_or_ne block.hash M.hashGenesisBlock with hgenesis | hgenesis
  · rw [if_pos hgenesis]
  rw [if_neg hgenesis, ConnectBlock_stages (N := w.node M) hgenesis]
  cases connectLoop (w.node M) block pindex pprev.pindex view fJustCheck fAlreadyChecked with
  | error reason => rfl
  | ok st =>
    have hsame : w.recalculated M pindex.nHeight = w := by
      rw [recalculated, if_neg hheight]
    have hbase : supplyBase (w.node M) pindex pprev.pindex = pprev.pindex := by
      rw [supplyBase]
      exact if_neg hheight
    show (w.connectBehind M block ptr hashPrev pindex.nHeight fJustCheck st).2 =
      (afterLoop (w.node M) block pindex pprev.pindex view fJustCheck st).isOk
    rw [connectBehind, hsame, hptr, hprev, afterLoop, hbase]
    dsimp only
    rw [connectFrom]
    cases UpdateZDIVITSupply (w.node M) block pindex pprev.pindex with
    | error reason => rfl
    | ok counted =>
      refine Eq.trans ?_ (afterSupply_isOk st).symm
      show (if !w.valueChecks M block (trackSupply counted pprev.pindex st)
        pprev.pindex st then _
        else _ : PersistentState × Bool).2 =
          (w.valueChecks M block (trackSupply counted pprev.pindex st) pprev.pindex st &&
            (fJustCheck || M.writesSucceed))
      cases w.valueChecks M block (trackSupply counted pprev.pindex st) pprev.pindex st with
      | false => rfl
      | true =>
        cases fJustCheck with
        | true => rfl
        | false =>
          rw [hwrites]
          exact connectWrites_outcome M _ block pindex.nHeight st

end PersistentState

end Divitae
