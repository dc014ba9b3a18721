/-
# `DisconnectBlock` — taking a block off the coins again

`DisconnectBlock` walks the block backwards: the outputs of a transaction must be
there as the block made them and are cleared, then its inputs are put back from the
undo file, last to first.  What looks wrong along the way does not stop it; it makes
the result unclean.  A record whose height is not zero is one of a coin spent to the
last output, and starts the coin anew.
-/
import Divitae.ConnectBlock

namespace Divitae

open Codec

/-- What disconnecting asks of the databases besides. -/
structure CDisconnectNode extends CConnectNode where
  /-- `zerocoinDB->EraseCoinSpend`, by serial number -/
  EraseCoinSpend : Int → Bool
  /-- `zerocoinDB->EraseCoinMint`, by value -/
  EraseCoinMint : Int → Bool
  /-- the checksums of the first checkpoint that are not in the second -/
  EraseAccumulatorValues : uint256 → uint256 → Bool

section
variable (N : CDisconnectNode)

/-- What the undo file holds: the records, then the checksum. -/
def undoFile (undo : List UInt8 × uint256) : List UInt8 := undo.1 ++ serUint256 undo.2

/-- `CBlockUndo::ReadFromDisk`. -/
def ReadFromDisk (undo : List UInt8 × uint256) (hashBlock : uint256) :
    Option (List (List CTxInUndo)) :=
  match bind (readBlockUndo N.K) (fun blockUndo =>
      bind (readLE 32) fun hashChecksum => pure (blockUndo, BitVec.ofNat 256 hashChecksum))
      (undoFile undo) with
  | none => none
  | some ((blockUndo, hashChecksum), _) =>
    if hashChecksum = N.C.hash256 (serUint256 hashBlock ++ serBlockUndo N.K blockUndo) then
      some blockUndo
    else none

/-! ## One transaction -/

/-- The spends of a transaction leave the zerocoin database. -/
def eraseSpends : List CTxIn → Checked Unit
  | [] => .ok ()
  | txin :: vin =>
    if !txin.scriptSig.IsZerocoinSpend then eraseSpends vin
    else
      match N.Z.TxInToZerocoinSpend txin with
      | none => .error "CDataStream::read() : end of data"
      | some spend =>
        rejectIf (!N.EraseCoinSpend spend.coinSerialNumber)
          "failed to erase spent zerocoin in block" <|
        eraseSpends vin

/-- Its mints too. -/
def eraseMints : List CTxOut → Checked Unit
  | [] => .ok ()
  | txout :: vout =>
    if !txout.IsZerocoinMint then eraseMints vout
    else
      match TxOutToPublicCoin N.Z txout with
      | none => .error "DisconnectBlock(): TxOutToPublicCoin() failed"
      | some pubCoin =>
        rejectIf (!N.EraseCoinMint pubCoin.value) "DisconnectBlock(): Failed to erase coin mint" <|
        eraseMints vout

/-- The outputs are all there and as in the block.  A negative version is not stored,
so it is not compared. -/
def outsMatch (coins : CCoins) (tx : CTransaction) (nHeight : Int) : Bool :=
  let outs := coins.ClearUnspendable
  let outsBlock := CCoins.FromTx tx nHeight
  let outs := if outsBlock.nVersion < 0 then { outs with nVersion := outsBlock.nVersion } else outs
  decide (CCoins.Same outs outsBlock)

/-- An input is put back: the coin, and whether nothing looked wrong. -/
def restoreCoin (coins : CCoins) (n : Nat) (undo : CTxInUndo) : CCoins × Bool :=
  let fresh := undo.nHeight != 0
  let restored : CCoins :=
    if fresh then
      { CCoins.null with
        fCoinBase := undo.fCoinBase
        nHeight := undo.nHeight
        nVersion := undo.nVersion }
    else coins
  ({ restored with vout := Slots.put .null restored.vout n undo.txout },
    (fresh == coins.IsPruned) && !restored.IsAvailable n)

/-- The inputs of a transaction with their records, last to first. -/
def restoreInputs : List (CTxIn × CTxInUndo) → CCoinsView → CCoinsView × Bool
  | [], view => (view, true)
  | (txin, undo) :: rest, view =>
    let (view, fClean) := restoreInputs rest view
    let (coins, fine) := restoreCoin (view.coins txin.prevout.hash) txin.prevout.n undo
    (view.ModifyCoins txin.prevout.hash fun _ => coins, fClean && fine)

def disconnectTx (pindex : CBlockIndex) (tx : CTransaction) (vprevout : List CTxInUndo)
    (view : CCoinsView) : Checked (CCoinsView × Bool) :=
  (if tx.IsZerocoinSpend then eraseSpends N tx.vin else .ok ()) >>= fun _ =>
  (if tx.IsZerocoinMint then eraseMints N tx.vout else .ok ()) >>= fun _ =>
  let fClean := outsMatch (view.coins tx.hash) tx pindex.nHeight
  let view := view.ModifyCoins tx.hash fun _ => .null
  if !tx.IsCoinBase && !tx.IsZerocoinSpend then
    rejectIf (vprevout.length != tx.vin.length)
      "DisconnectBlock() : transaction and undo data inconsistent" <|
    let restored := restoreInputs (tx.vin.zip vprevout) view
    .ok (restored.1, fClean && restored.2)
  else .ok (view, fClean)

/-- The transactions with their undo data, last to first. -/
def disconnectTxs (pindex : CBlockIndex) :
    List (CTransaction × List CTxInUndo) → CCoinsView → Checked (CCoinsView × Bool)
  | [], view => .ok (view, true)
  | (tx, vprevout) :: rest, view =>
    disconnectTxs pindex rest view >>= fun (view, fClean) =>
    disconnectTx N pindex tx vprevout view >>= fun (view, fine) =>
    .ok (view, fClean && fine)

/-- `DisconnectBlock`, with `pprev` for `pindex->pprev`: the view and `fClean`.  The
first transaction has no undo data. -/
def DisconnectBlock (block : CBlock) (pindex pprev : CBlockIndex) (view : CCoinsView) :
    Checked (CCoinsView × Bool) :=
  rejectIf (pindex.phashBlock != some view.hashBlock)
    "assert(pindex->GetBlockHash() == view.GetBestBlock())" <|
  match pindex.undo with
  | none => .error "DisconnectBlock() : no undo data available"
  | some undo =>
    match ReadFromDisk N undo (pprev.phashBlock.getD 0) with
    | none => .error "DisconnectBlock() : failure reading undo data"
    | some vtxundo =>
      rejectIf (vtxundo.length + 1 != block.vtx.length)
        "DisconnectBlock() : block and undo data inconsistent" <|
      disconnectTxs N pindex (block.vtx.zip ([] :: vtxundo)) view >>= fun (view, fClean) =>
      let view := view.SetBestBlock (pprev.phashBlock.getD 0)
      rejectIf (!N.fVerifyingBlocks &&
          pindex.nAccumulatorCheckpoint != pprev.nAccumulatorCheckpoint &&
          !N.EraseAccumulatorValues pindex.nAccumulatorCheckpoint pprev.nAccumulatorCheckpoint)
        "DisconnectBlock(): failed to erase checkpoint" <|
      .ok (view, fClean)

end

end Divitae
