/-
# `MemPool` — the transactions that wait for a block

`txmempool.cpp`, and what of `main.cpp` calls it.  Three things are kept side by side:

    mapTx         the transactions, by hash
    mapNextTx     for an output, the input of a pool transaction that takes it
    totalTxSize   the bytes of them all

The source's pointer to a transaction of `mapTx` is its key here.  `addUnchecked` leaves
the inputs of zerocoin spends out of `mapNextTx`; `remove`, `removeConflicts` and `check`
know no such difference.

Left out are the miner's fee estimates, the priorities and `mapDeltas`.  A map is gone
through in the order of the model's list.
-/
import Divitae.DisconnectBlock
import Mathlib.Data.List.AList
import Mathlib.Data.UInt

namespace Divitae

/-! ## The pool -/

structure CTxMemPoolEntry where
  tx : CTransaction
  nFee : CAmount
  nTime : Int
  nHeight : Int

def CTxMemPoolEntry.GetTxSize (entry : CTxMemPoolEntry) : UInt64 := .ofNat entry.tx.ser.length

/-- `CInPoint`: a transaction of the pool and the number of one of its inputs. -/
structure CInPoint where
  ptx : uint256
  n : Nat
  deriving DecidableEq

structure CTxMemPool where
  nTransactionsUpdated : UInt32
  totalTxSize : UInt64
  mapTx : AList fun _ : uint256 => CTxMemPoolEntry
  mapNextTx : AList fun _ : COutPoint => CInPoint

namespace CTxMemPool

variable (pool : CTxMemPool)

def empty : CTxMemPool := ⟨0, 0, ∅, ∅⟩

def txs : List CTransaction := pool.mapTx.entries.map fun e => e.2.tx

/-- `exists`. -/
def contains (hash : uint256) : Bool := (pool.mapTx.lookup hash).isSome

/-- The inputs of the transaction under `hash`, numbered, as `addUnchecked` enters them. -/
def enterInputs (hash : uint256) (vin : List (CTxIn × Nat))
    (mapNextTx : AList fun _ : COutPoint => CInPoint) : AList fun _ : COutPoint => CInPoint :=
  vin.foldl (fun m txin => m.insert txin.1.prevout ⟨hash, txin.2⟩) mapNextTx

def addUnchecked (hash : uint256) (entry : CTxMemPoolEntry) : CTxMemPool where
  nTransactionsUpdated := pool.nTransactionsUpdated + 1
  totalTxSize := pool.totalTxSize + entry.GetTxSize
  mapTx := pool.mapTx.insert hash entry
  mapNextTx :=
    if !entry.tx.IsZerocoinSpend then enterInputs hash entry.tx.vin.zipIdx pool.mapNextTx
    else pool.mapNextTx

/-- The transactions that take one of the outputs. -/
def spenders (hash : uint256) (vout : List CTxOut) : List uint256 :=
  (List.range vout.length).filterMap fun i => (pool.mapNextTx.lookup ⟨hash, i⟩).map CInPoint.ptx

/-- The inputs leave `mapNextTx`, the transaction leaves `mapTx`. -/
def eraseTx (hash : uint256) (entry : CTxMemPoolEntry) : CTxMemPool where
  nTransactionsUpdated := pool.nTransactionsUpdated + 1
  totalTxSize := pool.totalTxSize - entry.GetTxSize
  mapTx := pool.mapTx.erase hash
  mapNextTx := entry.tx.vin.foldl (fun m txin => m.erase txin.prevout) pool.mapNextTx

theorem length_eraseTx {pool : CTxMemPool} {hash : uint256} {entry : CTxMemPoolEntry}
    (h : pool.mapTx.lookup hash = some entry) :
    (pool.eraseTx hash entry).mapTx.entries.length < pool.mapTx.entries.length := by
  have hmem : hash ∈ pool.mapTx.entries.keys := AList.lookup_isSome.mp (by rw [h]; rfl)
  obtain ⟨b, l₁, l₂, -, hsplit, hrest⟩ := List.exists_of_kerase hmem
  have hbefore := congrArg List.length hsplit
  have hafter : (pool.eraseTx hash entry).mapTx.entries.length = (l₁ ++ l₂).length :=
    congrArg List.length hrest
  simp only [List.length_append, List.length_cons] at hbefore hafter
  omega

/-- The loop of `remove`, with what it has removed. -/
def removeLoop (fRecursive : Bool) (pool : CTxMemPool) (txToRemove : List uint256)
    (removed : List CTransaction) : CTxMemPool × List CTransaction :=
  match txToRemove with
  | [] => (pool, removed)
  | hash :: rest =>
    match _h : pool.mapTx.lookup hash with
    | none => removeLoop fRecursive pool rest removed
    | some entry =>
      removeLoop fRecursive (pool.eraseTx hash entry)
        (rest ++ if fRecursive then pool.spenders hash entry.tx.vout else [])
        (removed ++ [entry.tx])
termination_by (pool.mapTx.entries.length, txToRemove.length)
decreasing_by
  · exact Prod.Lex.right _ (Nat.lt_succ_self _)
  · exact Prod.Lex.left _ _ (length_eraseTx _h)

/-- `remove`.  A transaction that is not in the pool may still have its outputs taken by
some that are. -/
def remove (origTx : CTransaction) (removed : List CTransaction) (fRecursive : Bool) :
    CTxMemPool × List CTransaction :=
  removeLoop fRecursive pool
    (origTx.hash ::
      if fRecursive && !pool.contains origTx.hash then pool.spenders origTx.hash origTx.vout
      else [])
    removed

/-- One input of `removeConflicts`. -/
def removeConflict (tx : CTransaction) (s : CTxMemPool × List CTransaction) (txin : CTxIn) :
    CTxMemPool × List CTransaction :=
  match s.1.mapNextTx.lookup txin.prevout with
  | none => s
  | some inpoint =>
    match s.1.mapTx.lookup inpoint.ptx with
    | none => s
    | some txConflict =>
      if txConflict.tx.hash = tx.hash then s else s.1.remove txConflict.tx s.2 true

def removeConflicts (tx : CTransaction) (removed : List CTransaction) :
    CTxMemPool × List CTransaction :=
  tx.vin.foldl (removeConflict tx) (pool, removed)

/-- One transaction of `removeForBlock`. -/
def removeMined (s : CTxMemPool × List CTransaction) (tx : CTransaction) :
    CTxMemPool × List CTransaction :=
  (s.1.remove tx [] false).1.removeConflicts tx s.2

def removeForBlock (vtx : List CTransaction) (conflicts : List CTransaction) :
    CTxMemPool × List CTransaction :=
  vtx.foldl removeMined (pool, conflicts)

/-- The transaction takes an output of a coin that is gone or, if it is a coin base or a
coin stake, not mature at that height.  `cached` are the ids with an entry, pruned though
the coin may be; heights are compared as unsigned integers. -/
def spendsImmature (P : CChainParams) (pcoins : CCoinsView) (cached : uint256 → Bool)
    (nMemPoolHeight : Int) (tx : CTransaction) : Bool :=
  tx.vin.any fun txin =>
    !pool.contains txin.prevout.hash &&
      let coins := pcoins.coins txin.prevout.hash
      (coins.IsPruned && !cached txin.prevout.hash) ||
        (coins.fCoinBase || coins.fCoinStake) &&
          (nMemPoolHeight - coins.nHeight) % 2 ^ 32 < P.nMaturity

def removeCoinbaseSpends (P : CChainParams) (pcoins : CCoinsView) (cached : uint256 → Bool)
    (nMemPoolHeight : Int) : CTxMemPool :=
  (pool.txs.filter (pool.spendsImmature P pcoins cached nMemPoolHeight)).foldl
    (fun pool tx => (pool.remove tx [] true).1) pool

/-! ## What is asserted of it -/

/-- Input `i` of the transaction under `hash` takes an output that is there, and
`mapNextTx` says so. -/
def checkTxIn (pcoins : CCoinsView) (hash : uint256) (txin : CTxIn × Nat) : Bool :=
  (match pool.mapTx.lookup txin.1.prevout.hash with
    | some entry2 => (entry2.tx.vout[txin.1.prevout.n]?).any fun out => !out.IsNull
    | none => (pcoins.coins txin.1.prevout.hash).IsAvailable txin.1.prevout.n) &&
    pool.mapNextTx.lookup txin.1.prevout == some ⟨hash, txin.2⟩

/-- An entry of `mapNextTx` is about an input of a pool transaction. -/
def checkNextTx (out : COutPoint) (inpoint : CInPoint) : Bool :=
  (pool.mapTx.lookup inpoint.ptx).any fun entry =>
    (entry.tx.vin[inpoint.n]?).any fun txin => txin.prevout == out

/-- The assertions of `check`, for the inputs of all transactions but those put aside. -/
def checkBut (aside : CTransaction → Bool) (pcoins : CCoinsView) : Bool :=
  (pool.mapTx.entries.all fun e =>
    aside e.2.tx || e.2.tx.vin.zipIdx.all (pool.checkTxIn pcoins e.1)) &&
  (pool.mapNextTx.entries.all fun e => pool.checkNextTx e.1 e.2) &&
  pool.totalTxSize == (pool.mapTx.entries.map fun e => e.2.GetTxSize).sum

/-- `check`, as far as it compares the maps, the coins and the total. -/
def check (pcoins : CCoinsView) : Bool := pool.checkBut (fun _ => false) pcoins

end CTxMemPool

def MEMPOOL_HEIGHT : Int := 0x7FFFFFFF

/-- `CCoinsViewMemPool`: a transaction of the pool is looked at before its coin. -/
def CCoinsViewMemPool (base : CCoinsView) (mempool : CTxMemPool) : CCoinsView where
  coins txid :=
    match mempool.mapTx.lookup txid with
    | some entry => .FromTx entry.tx MEMPOOL_HEIGHT
    | none => if (base.coins txid).IsPruned then .null else base.coins txid
  hashBlock := base.hashBlock

/-- `HaveCoins`. -/
def CCoinsView.HasCoins (view : CCoinsView) (txid : uint256) : Bool :=
  !(view.coins txid).vout.isEmpty

/-! ## Into the pool -/

/-- What `AcceptToMemoryPool` asks of the node besides. -/
structure CMempoolNode extends CConnectNode where
  RequireStandard : Bool
  /-- the reason when the transaction is not standard -/
  IsStandardTx : CTransaction → Option String
  AreInputsStandard : CTransaction → CCoinsView → Bool
  mapObfuscationBroadcastTxes : uint256 → Bool
  /-- `GetMinRelayFee` of a transaction of this size -/
  GetMinRelayFee : CTransaction → UInt64 → CAmount
  /-- `minRelayTxFee.GetFee` -/
  GetFee : UInt64 → CAmount
  /-- `-relaypriority` -/
  relaypriority : Bool
  /-- `AllowFree` of the priority at the next block -/
  AllowFree : CTransaction → CCoinsView → Bool
  /-- `-limitfreerelay` is used up -/
  freeLimitReached : Bool
  /-- what `VerifyScript` makes of an input behind the first opcodes -/
  VerifyScript : CTransaction → Nat → CTxOut → Bool

def MAX_TX_SIGOPS_CURRENT : Nat := MAX_BLOCK_SIGOPS_CURRENT / 5

/-- `nMinZerocoinMintFee`. -/
def Zerocoin_MintFee : CAmount := 1000000

section
variable (N : CMempoolNode)

/-- `EvalScript` stops at an opcode it does not know, as at `OP_RETURN`. -/
def CMempoolNode.checkScripts (tx : CTransaction) (inputs : CCoinsView) : Bool :=
  tx.vin.zipIdx.all fun txin =>
    !txin.1.scriptSig.IsZerocoinSpend &&
      !(inputs.GetOutputFor txin.1).scriptPubKey.IsUnspendable &&
      N.VerifyScript tx txin.2 (inputs.GetOutputFor txin.1)

/-- `CheckInputs` with the scripts checked. -/
def CMempoolNode.CheckInputs (tx : CTransaction) (view : CCoinsView) : Checked Unit :=
  Divitae.CheckInputs { N.toCConnectNode with scriptsVerify := N.checkScripts } tx view

/-- The serials of the spends against the chain. -/
def checkSpends (tx : CTransaction) (tip : CBlockIndex) : List CTxIn → Checked Unit
  | [] => .ok ()
  | txIn :: vin =>
    if !txIn.scriptSig.IsZerocoinSpend then checkSpends tx tip vin
    else
      match N.Z.TxInToZerocoinSpend txIn with
      | none => .error "CDataStream::read() : end of data"
      | some spend =>
        rejectIf (!ContextualCheckZerocoinSpend N.toCConnectNode tx spend tip)
          "bad-txns-invalid-zDivitae" <|
        checkSpends tx tip vin

/-- The transactions of the inputs are there, and none of the inputs is barred. -/
def inputsExist (view : CCoinsView) : List CTxIn → Checked Unit
  | [] => .ok ()
  | txin :: vin =>
    rejectIf (!view.HasCoins txin.prevout.hash) "missing inputs" <|
    rejectIf (!ValidOutPoint N.toCConnectNode txin.prevout N.chainHeight)
      "bad-txns-invalid-inputs" <|
    inputsExist view vin

/-- The inputs: the view to look at them with and their value. -/
def acceptInputs (pool : CTxMemPool) (pcoinsTip : CCoinsView) (tx : CTransaction)
    (tip : CBlockIndex) : Checked (CCoinsView × CAmount) :=
  if tx.IsZerocoinSpend then
    rejectIf (N.IsTransactionInChain tx.hash).isSome "bad-txns-inputs-spent" <|
    checkSpends N tx tip tx.vin >>= fun _ =>
    .ok (⟨fun _ => .null, 0⟩, tx.GetZerocoinSpent)
  else
    let view := CCoinsViewMemPool pcoinsTip pool
    rejectIf (view.HasCoins tx.hash) "already have it" <|
    inputsExist N view tx.vin >>= fun _ =>
    connectMints N.toCConnectNode tx tip tx.vout [] >>= fun _ =>
    rejectIf (!view.HaveInputs tx) "bad-txns-inputs-spent" <|
    .ok (view, view.GetValueIn tx)

/-- The fees, but for transactions that mix coins. -/
def acceptFees (tx : CTransaction) (view : CCoinsView) (nFees : CAmount) (nSize : UInt64)
    (fLimitFree ignoreFees : Bool) : Checked Unit :=
  if N.mapObfuscationBroadcastTxes tx.hash || ignoreFees then .ok ()
  else
    rejectIf (fLimitFree && nFees < N.GetMinRelayFee tx nSize && !tx.IsZerocoinSpend)
      "insufficient fee" <|
    rejectIf (tx.IsZerocoinMint &&
        nFees < Zerocoin_MintFee * (tx.vout.filter CTxOut.IsZerocoinMint).length)
      "insufficient fee for zerocoinmint" <|
    rejectIf (!tx.IsZerocoinMint && !tx.IsZerocoinSpend && N.relaypriority &&
        nFees < N.GetFee nSize && !N.AllowFree tx view) "insufficient priority" <|
    rejectIf (fLimitFree && nFees < N.GetFee nSize && !tx.IsZerocoinSpend && N.freeLimitReached)
      "rate limited free transaction" <|
    .ok ()

def AcceptToMemoryPool (pool : CTxMemPool) (pcoinsTip : CCoinsView) (tx : CTransaction)
    (fLimitFree fRejectInsaneFee ignoreFees : Bool) : Checked CTxMemPool :=
  rejectIf (GetSporkValue N.sporks SPORK_20_ZEROCOIN_MAINTENANCE_MODE < N.adjustedTime &&
    tx.ContainsZerocoins) "bad-tx" <|
  rejectIf (!(CheckTransaction N.toCNode tx (N.P.nZerocoinStartHeight ≤ N.chainHeight)).isOk)
    "bad-tx" <|
  rejectIf tx.IsCoinBase "coinbase" <|
  rejectIf tx.IsCoinStake "coinstake" <|
  rejectIf (N.RequireStandard && (N.IsStandardTx tx).isSome) ((N.IsStandardTx tx).getD "") <|
  rejectIf (pool.contains tx.hash) "tx already in mempool" <|
  rejectIf (tx.vin.any fun txin => (N.mapLockedInputs txin.prevout).any (· != tx.hash))
    "tx-lock-conflict" <|
  rejectIf (!tx.IsZerocoinSpend &&
      tx.vin.any fun txin => (pool.mapNextTx.lookup txin.prevout).isSome)
    "conflicts with in-memory transactions" <|
  match N.chainTip with
  | none => .error "chainActive.Tip()"
  | some tip =>
    acceptInputs N pool pcoinsTip tx tip >>= fun (view, nValueIn) =>
    rejectIf (N.RequireStandard && !N.AreInputsStandard tx view)
      "AcceptToMemoryPool: : nonstandard transaction input" <|
    rejectIf (!tx.IsZerocoinSpend &&
        MAX_TX_SIGOPS_CURRENT < N.GetLegacySigOpCount tx + N.GetP2SHSigOpCount tx view)
      "bad-txns-too-many-sigops" <|
    let nFees := Wrap.wrap64 (nValueIn - tx.GetValueOut)
    let nFees :=
      if PROSPERITYNODE_AMOUNT - FN_MAGIC_AMOUNT - COIN / 10 < nFees then
        nFees - PROSPERITYNODE_AMOUNT + FN_MAGIC_AMOUNT
      else nFees
    let entry : CTxMemPoolEntry := ⟨tx, nFees, N.time, N.chainHeight⟩
    let nSize := entry.GetTxSize
    acceptFees N tx view nFees nSize fLimitFree ignoreFees >>= fun _ =>
    rejectIf (fRejectInsaneFee && N.GetFee nSize * 10000 < nFees)
      "AcceptToMemoryPool: : insane fees" <|
    rejectIf (N.GetFee nSize * 20000 < nFees) "AcceptToMemoryPool: : insane fees" <|
    N.CheckInputs tx view >>= fun _ =>
    N.CheckInputs tx view >>= fun _ =>
    .ok (pool.addUnchecked tx.hash entry)

end

structure PoolState where
  mempool : CTxMemPool
  pcoinsTip : CCoinsView

inductive PoolEvent where
  | accept (N : CMempoolNode) (tx : CTransaction) (fLimitFree fRejectInsaneFee ignoreFees : Bool)
  | connectTip (N : CConnectNode) (block : CBlock) (pindexNew pprev : CBlockIndex)
      (fAlreadyChecked : Bool)
  /-- `M` answers for the resurrected transactions, with the pool as it then is -/
  | disconnectTip (N : CDisconnectNode) (M : CTxMemPool → CMempoolNode) (block : CBlock)
      (pindexDelete pprev : CBlockIndex) (cached : uint256 → Bool)
  /-- `DisconnectBlockAndInputs`, as far as it touches the pool -/
  | lockInputs (txLock : CTransaction)

/-- The transactions of a disconnected block come back, or what depends on them goes. -/
def resurrect (M : CTxMemPool → CMempoolNode) (pcoinsTip : CCoinsView) :
    List CTransaction → CTxMemPool → CTxMemPool
  | [], pool => pool
  | tx :: vtx, pool =>
    resurrect M pcoinsTip vtx
      (if tx.IsCoinBase || tx.IsCoinStake then (pool.remove tx [] true).1
      else
        match AcceptToMemoryPool (M pool) pool pcoinsTip tx false false false with
        | .ok pool => pool
        | .error _ => (pool.remove tx [] true).1)

def poolStep (s : PoolState) : PoolEvent → PoolState
  | .accept N tx fLimitFree fRejectInsaneFee ignoreFees =>
    match AcceptToMemoryPool N s.mempool s.pcoinsTip tx fLimitFree fRejectInsaneFee ignoreFees with
    | .ok pool => { s with mempool := pool }
    | .error _ => s
  | .connectTip N block pindexNew pprev fAlreadyChecked =>
    match ConnectBlock N block pindexNew pprev s.pcoinsTip false fAlreadyChecked with
    | .ok c => ⟨(s.mempool.removeForBlock block.vtx []).1, c.view⟩
    | .error _ => s
  | .disconnectTip N M block pindexDelete pprev cached =>
    match DisconnectBlock N block pindexDelete pprev s.pcoinsTip with
    | .ok (view, true) =>
      ⟨(resurrect M view block.vtx s.mempool).removeCoinbaseSpends N.P view cached
        pindexDelete.nHeight, view⟩
    | _ => s
  | .lockInputs txLock => { s with mempool := (s.mempool.removeConflicts txLock []).1 }

end Divitae
