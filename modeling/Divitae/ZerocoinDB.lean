/-
# `ZerocoinDB` — which transaction spent a serial, which minted a coin

`zerocoinDB` maps serial numbers to the transactions that spend them, and values of public
coins to those that mint them.  A connected block writes its own, a disconnected one erases
them.  An entry counts only while its transaction is in the active chain, and that is asked
of `GetTransaction`:

    the memory pool        first; what is found there is in no block
    the transaction index  with `-txindex`, and then nothing else
    the coins              without it: the height of the transaction's coins, if there
                           are any left, leads to the block

The serial hash that is the key of the database stands for the serial here, and the hash
of a coin for its value.
-/
import Divitae.Lib.Records
import Divitae.StakeSpent

namespace Divitae

open Records

/-- The spends of a transaction, the serial with the transaction's hash. -/
def CTransaction.coinSpends (Z : Zerocoin) (tx : CTransaction) : List (Int × uint256) :=
  if tx.IsZerocoinSpend then
    (tx.vin.filter fun txin => txin.scriptSig.IsZerocoinSpend).filterMap fun txin =>
      (Z.TxInToZerocoinSpend txin).map fun spend => (spend.coinSerialNumber, tx.hash)
  else []

/-- The mints of a transaction, the coin's value with the transaction's hash. -/
def CTransaction.coinMints (Z : Zerocoin) (tx : CTransaction) : List (Int × uint256) :=
  (tx.vout.filter CTxOut.IsZerocoinMint).filterMap fun txout =>
    (TxOutToPublicCoin Z txout).map fun pubCoin => (pubCoin.value, tx.hash)

def CBlock.coinSpends (Z : Zerocoin) (block : CBlock) : List (Int × uint256) :=
  block.vtx.flatMap (CTransaction.coinSpends Z)

def CBlock.coinMints (Z : Zerocoin) (block : CBlock) : List (Int × uint256) :=
  block.vtx.flatMap (CTransaction.coinMints Z)

/-! ## The database -/

structure ZerocoinDB where
  coinSpends : Store Int uint256
  coinMints : Store Int uint256

namespace ZerocoinDB

variable (db : ZerocoinDB)

def WriteCoinSpendBatch (spendInfo : List (CoinSpend × uint256)) : ZerocoinDB :=
  { db with
    coinSpends := write db.coinSpends (spendInfo.map fun p => (p.1.coinSerialNumber, p.2)) }

def WriteCoinMintBatch (mintInfo : List (PublicCoin × uint256)) : ZerocoinDB :=
  { db with coinMints := write db.coinMints (mintInfo.map fun p => (p.1.value, p.2)) }

end ZerocoinDB

/-- The active chain, the tip first, with the coins, the zerocoin database and the
transaction index.  The index leads from a transaction to the block on disk it was written
for last. -/
structure ZerocoinChain where
  chainActive : List ChainEntry
  pcoinsTip : CCoinsView
  zerocoinDB : ZerocoinDB
  txIndex : uint256 → Option uint256

/-- What the zerocoin checks ask of the node besides. -/
structure CZerocoinNode extends CDisconnectNode where
  fTxIndex : Bool
  /-- `mempool.lookup` -/
  mempool : uint256 → Bool
  /-- the block of this hash can be read from disk -/
  readable : uint256 → Bool
  /-- the coins are all spent, but their entry is still in the cache -/
  cachesPruned : uint256 → Bool
  -- whether the writes at the end of `ConnectBlock` go through
  WriteUndo : Bool
  WriteCoinSpendBatch : Bool
  WriteCoinMintBatch : Bool
  WriteTxIndex : Bool

namespace ZerocoinChain

variable (M : CZerocoinNode) (s : ZerocoinChain)

/-- The block `GetTransaction` finds the transaction in, 0 for the memory pool. -/
def GetTransaction (txid : uint256) : Option uint256 :=
  if M.mempool txid then some 0
  else if M.fTxIndex then
    match s.txIndex txid with
    | none => none
    | some hashBlock => if M.readable hashBlock then some hashBlock else none
  else
    -- use coin database to locate block that contains transaction, and scan it
    let coins := s.pcoinsTip.coins txid
    if coins.IsPruned && !M.cachesPruned txid then none
    else if coins.nHeight ≤ 0 then none
    else
      match s.chainActive.find? fun entry => entry.pindex.nHeight == coins.nHeight with
      | none => none
      | some entry =>
        if M.readable entry.block.hash && entry.block.vtx.any fun tx => tx.hash == txid then
          some entry.block.hash
        else none

/-- `IsTransactionInChain`: the height of the block it is in. -/
def IsTransactionInChain (txid : uint256) : Option Int :=
  match s.GetTransaction M txid with
  | none => none
  | some hashBlock =>
    if hashBlock = 0 then none
    else
      (s.chainActive.find? fun entry => entry.block.hash == hashBlock).map fun entry =>
        entry.pindex.nHeight

/-- The node whose databases are these.  The writes are looked at one by one, below. -/
def node : CDisconnectNode :=
  { M.toCDisconnectNode with
    Z := { M.Z with
      ReadCoinSpend := s.zerocoinDB.coinSpends
      ReadCoinMint := s.zerocoinDB.coinMints }
    IsTransactionInChain := s.IsTransactionInChain M
    writesSucceed := true }

/-- The writes of `ConnectBlock`, and `ConnectTip` behind them.  After a write that fails
the node shuts down; what was written before it stays. -/
def connectWrites (block : CBlock) (c : Connected) : ZerocoinChain :=
  if !M.WriteUndo then s
  else if !M.WriteCoinSpendBatch then s
  else
    let s := { s with zerocoinDB := s.zerocoinDB.WriteCoinSpendBatch c.vSpends }
    if !M.WriteCoinMintBatch then s
    else
      let s := { s with zerocoinDB := s.zerocoinDB.WriteCoinMintBatch c.vMints }
      if !M.fTxIndex then ⟨⟨block, c.pindex⟩ :: s.chainActive, c.view, s.zerocoinDB, s.txIndex⟩
      else if !M.WriteTxIndex then s
      else
        ⟨⟨block, c.pindex⟩ :: s.chainActive, c.view, s.zerocoinDB,
          write s.txIndex (block.vtx.map fun tx => (tx.hash, block.hash))⟩

/-- `ConnectTip` with the index entry of the block. -/
def ConnectTip (block : CBlock) (pindexNew : CBlockIndex) (fAlreadyChecked : Bool) :
    ZerocoinChain :=
  match s.chainActive with
  | [] => s
  | tip :: _ =>
    -- assert(pindexNew->pprev == chainActive.Tip())
    if pindexNew.nHeight ≠ tip.pindex.nHeight + 1 ∨ block.hash = M.hashGenesisBlock then s
    else
      match ConnectBlock (s.node M).toCConnectNode block pindexNew tip.pindex s.pcoinsTip false
        fAlreadyChecked with
      | .error _ => s
      | .ok c => s.connectWrites M block c

end ZerocoinChain

/-! ## A block disconnected -/

section
variable (N : CDisconnectNode)

/-- The serials `DisconnectBlock` erases for the inputs of a spend, also when it fails. -/
def erasedSerials : List CTxIn → List Int
  | [] => []
  | txin :: vin =>
    if !txin.scriptSig.IsZerocoinSpend then erasedSerials vin
    else
      match N.Z.TxInToZerocoinSpend txin with
      | none => []
      | some spend =>
        if N.EraseCoinSpend spend.coinSerialNumber then
          spend.coinSerialNumber :: erasedSerials vin
        else []

/-- The coins it erases for the outputs of a mint. -/
def erasedCoins : List CTxOut → List Int
  | [] => []
  | txout :: vout =>
    if !txout.IsZerocoinMint then erasedCoins vout
    else
      match TxOutToPublicCoin N.Z txout with
      | none => []
      | some pubCoin =>
        if N.EraseCoinMint pubCoin.value then pubCoin.value :: erasedCoins vout else []

/-- What one transaction erases: the spends first, and the mints behind them. -/
def erasedBy (tx : CTransaction) : List Int × List Int :=
  if tx.IsZerocoinSpend then
    (erasedSerials N tx.vin, if (eraseSpends N tx.vin).isOk then erasedCoins N tx.vout else [])
  else ([], erasedCoins N tx.vout)

/-- What the loop of `DisconnectBlock` has erased when it ends or fails. -/
def erasedLoop (pindex : CBlockIndex) :
    List (CTransaction × List CTxInUndo) → CCoinsView → List Int × List Int
  | [], _ => ([], [])
  | (tx, _) :: rest, view =>
    let erased := erasedLoop pindex rest view
    match disconnectTxs N pindex rest view with
    | .error _ => erased
    | .ok _ => ((erasedBy N tx).1 ++ erased.1, (erasedBy N tx).2 ++ erased.2)

/-- The transactions the loop of `DisconnectBlock` starts on, with their undo data. -/
def undoneTxs (block : CBlock) (pindex pprev : CBlockIndex) (view : CCoinsView) :
    List (CTransaction × List CTxInUndo) :=
  if pindex.phashBlock != some view.hashBlock then []
  else
    match pindex.undo.bind fun undo => ReadFromDisk N undo (pprev.phashBlock.getD 0) with
    | none => []
    | some vtxundo =>
      if vtxundo.length + 1 != block.vtx.length then [] else block.vtx.zip ([] :: vtxundo)

/-- What `DisconnectBlock` erases, also when it fails. -/
def erasedZerocoins (block : CBlock) (pindex pprev : CBlockIndex) (view : CCoinsView) :
    List Int × List Int :=
  erasedLoop N pindex (undoneTxs N block pindex pprev view) view

/-- The database behind `DisconnectBlock`. -/
def ZerocoinDB.disconnect (db : ZerocoinDB) (block : CBlock) (pindex pprev : CBlockIndex)
    (view : CCoinsView) : ZerocoinDB where
  coinSpends := erase db.coinSpends (erasedZerocoins N block pindex pprev view).1
  coinMints := erase db.coinMints (erasedZerocoins N block pindex pprev view).2

end

namespace ZerocoinChain

/-- `DisconnectTip`.  The view is thrown away when `DisconnectBlock` fails or is unclean. -/
def DisconnectTip (M : CZerocoinNode) (s : ZerocoinChain) : ZerocoinChain :=
  match s.chainActive with
  | tip :: prev :: rest =>
    let db := s.zerocoinDB.disconnect (s.node M) tip.block tip.pindex prev.pindex s.pcoinsTip
    match DisconnectBlock (s.node M) tip.block tip.pindex prev.pindex s.pcoinsTip with
    | .ok (view, true) => ⟨prev :: rest, view, db, s.txIndex⟩
    | _ => { s with zerocoinDB := db }
  | _ => s

end ZerocoinChain

inductive ZerocoinEvent where
  | connectTip (M : CZerocoinNode) (block : CBlock) (pindexNew : CBlockIndex)
      (fAlreadyChecked : Bool)
  | disconnectTip (M : CZerocoinNode)

def zerocoinStep (s : ZerocoinChain) : ZerocoinEvent → ZerocoinChain
  | .connectTip M block pindexNew fAlreadyChecked => s.ConnectTip M block pindexNew fAlreadyChecked
  | .disconnectTip M => s.DisconnectTip M

end Divitae
