/-
# `ZerocoinRecords` — the database beside the chain

Serials and coins are kept alike, so both are treated at once: `ZerocoinKey` says which.
The books of a kind are right (`Books`) when no key of the kind is on the chain twice, the
database has every key of the chain, what it has of a transaction is a key of it, and the
index leads from the transactions with keys to their blocks.

    connectTip_books      a connection keeps them right when the block's keys are new
    disconnectTip_books   a disconnection does when it goes through or erases nothing

Where the new keys come from, the modules on serials and on coins say.
-/
import Divitae.Reorg
import Divitae.ZerocoinDB

namespace Divitae

open Records Option Bool CTransaction

/-! ## The loop of `ConnectBlock` -/

theorem coinMints_of_not_mint {Z : Zerocoin} {tx : CTransaction} (h : tx.IsZerocoinMint = false) :
    tx.coinMints Z = [] := by
  have hnone : tx.vout.filter CTxOut.IsZerocoinMint = [] := by
    rw [List.filter_eq_nil_iff]
    intro out hout
    rw [CTransaction.IsZerocoinMint, List.any_eq_false] at h
    exact h out hout
  rw [coinMints, hnone]
  rfl

theorem not_mint_of_isCoinBase {tx : CTransaction} (h : tx.IsCoinBase = true) :
    tx.IsZerocoinMint = false := by
  rw [CTransaction.IsCoinBase] at h
  split at h
  · have hboth := (and_eq_true _ _).mp h
    have hno : tx.ContainsZerocoins = false := by simpa using hboth.2
    exact (or_eq_false_iff.mp hno).2
  · cases h

section
variable {N : CConnectNode} {tx : CTransaction} {pindex : CBlockIndex} {block : CBlock}

/-- The serial is in no block the node knows to be in the chain. -/
def NotInBlockchain (N : CNode) (read : Int → Option uint256) (k : Int) : Prop :=
  (read k).bind N.IsTransactionInChain = none

/-- The pair that is written for a spend. -/
def spendKey (p : CoinSpend × uint256) : Int × uint256 := (p.1.coinSerialNumber, p.2)

/-- The pair that is written for a mint. -/
def mintKey (p : PublicCoin × uint256) : Int × uint256 := (p.1.value, p.2)

/-- The serials of the inputs, as they are queued for the database. -/
def inputSerials (Z : Zerocoin) (txid : uint256) (vin : List CTxIn) : List (Int × uint256) :=
  (vin.filter fun txin => txin.scriptSig.IsZerocoinSpend).filterMap fun txin =>
    (Z.TxInToZerocoinSpend txin).map fun spend => (spend.coinSerialNumber, txid)

/-- The coins of the outputs. -/
def outputCoins (Z : Zerocoin) (txid : uint256) (vout : List CTxOut) : List (Int × uint256) :=
  (vout.filter CTxOut.IsZerocoinMint).filterMap fun txout =>
    (TxOutToPublicCoin Z txout).map fun pubCoin => (pubCoin.value, txid)

variable {txid : uint256} {Z : Zerocoin}

theorem inputSerials_skip {txin : CTxIn} (vin : List CTxIn)
    (h : txin.scriptSig.IsZerocoinSpend = false) :
    inputSerials Z txid (txin :: vin) = inputSerials Z txid vin := by
  rw [inputSerials, List.filter_cons, h]
  rfl

theorem inputSerials_cons {txin : CTxIn} {spend : CoinSpend}
    (vin : List CTxIn) (h : txin.scriptSig.IsZerocoinSpend = true)
    (hs : Z.TxInToZerocoinSpend txin = some spend) :
    inputSerials Z txid (txin :: vin) =
      (spend.coinSerialNumber, txid) :: inputSerials Z txid vin := by
  rw [inputSerials, List.filter_cons, h, if_pos rfl, List.filterMap_cons, hs]
  rfl

theorem outputCoins_skip {out : CTxOut} (vout : List CTxOut)
    (h : out.IsZerocoinMint = false) :
    outputCoins Z txid (out :: vout) = outputCoins Z txid vout := by
  rw [outputCoins, List.filter_cons, h]
  rfl

theorem outputCoins_cons {out : CTxOut} {coin : PublicCoin}
    (vout : List CTxOut) (h : out.IsZerocoinMint = true) (hs : TxOutToPublicCoin Z out =
      some coin) :
    outputCoins Z txid (out :: vout) = (coin.value, txid) :: outputCoins Z txid vout := by
  rw [outputCoins, List.filter_cons, h, if_pos rfl, List.filterMap_cons, hs]
  rfl

theorem contextual_spend {spend : CoinSpend}
    (h : ContextualCheckZerocoinSpend N tx spend pindex = true) :
    NotInBlockchain N.toCNode N.Z.ReadCoinSpend spend.coinSerialNumber := by
  obtain ⟨hrest, -⟩ := (and_eq_true _ _).mp h
  obtain ⟨-, hserial⟩ := (and_eq_true _ _).mp hrest
  exact not_isSome_iff_eq_none.mp (by simpa using hserial)

theorem contextual_mint {coin : PublicCoin} (h : ContextualCheckZerocoinMint N coin pindex = true)
    (hheight : N.P.nBlockZerocoinV2 ≤ pindex.nHeight) (hnet : N.P.networkID ≠ .TESTNET) :
    NotInBlockchain N.toCNode N.Z.ReadCoinMint coin.value := by
  rw [ContextualCheckZerocoinMint, decide_eq_true hheight] at h
  have hnet' : (N.P.networkID != .TESTNET) = true := bne_iff_ne.mpr hnet
  rw [hnet'] at h
  exact not_isSome_iff_eq_none.mp (by simpa using h)

theorem connectSpends_serials : ∀ {vin : List CTxIn} {a v : CAmount}
    {l l' : List (CoinSpend × uint256)}, connectSpends N tx pindex vin a l = .ok (v, l') →
    l'.map spendKey = l.map spendKey ++ inputSerials N.Z tx.hash vin ∧
      ∀ e ∈ inputSerials N.Z tx.hash vin, NotInBlockchain N.toCNode N.Z.ReadCoinSpend e.1
  | [], a, v, l, l', h => by
    cases h
    exact ⟨(List.append_nil _).symm, nofun⟩
  | txin :: vin, a, v, l, l', h => by
    cases hz : txin.scriptSig.IsZerocoinSpend with
    | false =>
      rw [connectSpends, hz] at h
      rw [inputSerials_skip vin hz]
      exact connectSpends_serials h
    | true =>
      rw [connectSpends, hz] at h
      cases hs : N.Z.TxInToZerocoinSpend txin with
      | none =>
        rw [hs] at h
        cases h
      | some spend =>
        rw [hs] at h
        obtain ⟨hcheck, h⟩ := rejectIf_eq_ok.mp h
        obtain ⟨hkeys, hnew⟩ := connectSpends_serials h
        rw [inputSerials_cons vin hz hs]
        constructor
        · rw [hkeys, List.map_append, List.append_assoc]
          rfl
        · intro e he
          rcases List.mem_cons.mp he with rfl | hrest
          · exact contextual_spend (by simpa using hcheck)
          · exact hnew e hrest

/-- The check the coins have passed, at the heights where it is made. -/
def MintsNotInBlockchain (N : CConnectNode) (pindex : CBlockIndex) (keys : List (Int × uint256)) :
    Prop :=
  N.P.nBlockZerocoinV2 ≤ pindex.nHeight → N.P.networkID ≠ .TESTNET →
    ∀ e ∈ keys, NotInBlockchain N.toCNode N.Z.ReadCoinMint e.1

theorem connectMints_coins : ∀ {vout : List CTxOut} {l l' : List (PublicCoin × uint256)},
    connectMints N tx pindex vout l = .ok l' →
    l'.map mintKey = l.map mintKey ++ outputCoins N.Z tx.hash vout ∧
      MintsNotInBlockchain N pindex (outputCoins N.Z tx.hash vout)
  | [], l, l', h => by
    cases h
    exact ⟨(List.append_nil _).symm, nofun⟩
  | out :: vout, l, l', h => by
    cases hz : out.IsZerocoinMint with
    | false =>
      rw [connectMints, hz] at h
      rw [outputCoins_skip vout hz]
      exact connectMints_coins h
    | true =>
      rw [connectMints, hz] at h
      cases hs : TxOutToPublicCoin N.Z out with
      | none =>
        rw [hs] at h
        cases h
      | some coin =>
        rw [hs] at h
        obtain ⟨hcheck, h⟩ := rejectIf_eq_ok.mp h
        obtain ⟨hkeys, hnew⟩ := connectMints_coins h
        rw [outputCoins_cons vout hz hs]
        constructor
        · rw [hkeys, List.map_append, List.append_assoc]
          rfl
        · intro hheight hnet e he
          rcases List.mem_cons.mp he with rfl | hrest
          · exact contextual_mint (by simpa using hcheck) hheight hnet
          · exact hnew hheight hnet e hrest

/-- The keys of transactions have been queued, and have passed the checks. -/
structure Queued (N : CConnectNode) (pindex : CBlockIndex) (vtx : List CTransaction)
    (st st' : ConnectState) : Prop where
  spends : st'.vSpends.map spendKey =
    st.vSpends.map spendKey ++ vtx.flatMap (CTransaction.coinSpends N.Z)
  mints : st'.vMints.map mintKey = st.vMints.map mintKey ++ vtx.flatMap (CTransaction.coinMints N.Z)
  serialsNew : ∀ e ∈ vtx.flatMap (CTransaction.coinSpends N.Z),
    NotInBlockchain N.toCNode N.Z.ReadCoinSpend e.1
  coinsNew : MintsNotInBlockchain N pindex (vtx.flatMap (CTransaction.coinMints N.Z))

theorem Queued.append {vtx vtx' : List CTransaction} {st mid st' : ConnectState}
    (h : Queued N pindex vtx st mid) (h' : Queued N pindex vtx' mid st') :
    Queued N pindex (vtx ++ vtx') st st' := by
  refine ⟨?_, ?_, ?_, ?_⟩
  · rw [h'.spends, h.spends, List.flatMap_append, List.append_assoc]
  · rw [h'.mints, h.mints, List.flatMap_append, List.append_assoc]
  · intro e he
    rw [List.flatMap_append] at he
    rcases List.mem_append.mp he with hmem | hmem
    · exact h.serialsNew e hmem
    · exact h'.serialsNew e hmem
  · intro hheight hnet e he
    rw [List.flatMap_append] at he
    rcases List.mem_append.mp he with hmem | hmem
    · exact h.coinsNew hheight hnet e hmem
    · exact h'.coinsNew hheight hnet e hmem

theorem queued_one {st st' : ConnectState}
    (hspends : st'.vSpends.map spendKey = st.vSpends.map spendKey ++ tx.coinSpends N.Z)
    (hmints : st'.vMints.map mintKey = st.vMints.map mintKey ++ tx.coinMints N.Z)
    (hserials : ∀ e ∈ tx.coinSpends N.Z, NotInBlockchain N.toCNode N.Z.ReadCoinSpend e.1)
    (hcoins : MintsNotInBlockchain N pindex (tx.coinMints N.Z)) : Queued N pindex [tx] st st' := by
  have hone : ∀ f : CTransaction → List (Int × uint256), [tx].flatMap f = f tx := by
    intro f
    exact List.append_nil _
  refine ⟨?_, ?_, ?_, ?_⟩
  · rw [hone]
    exact hspends
  · rw [hone]
    exact hmints
  · rw [hone]
    exact hserials
  · rw [hone]
    exact hcoins

theorem connectTx_queued {first : Bool} {st st' : ConnectState}
    (h : connectTx N block pindex first tx st = .ok st') : Queued N pindex [tx] st st' := by
  have hserials : tx.coinSpends N.Z =
      if tx.IsZerocoinSpend then inputSerials N.Z tx.hash tx.vin else [] := rfl
  cases (connectTx_queues h).2 with
  | coinBase hspend hbase hspends hmints =>
    rw [hspend, if_neg Bool.false_ne_true] at hserials
    have hcoins : tx.coinMints N.Z = [] := coinMints_of_not_mint (not_mint_of_isCoinBase hbase)
    refine queued_one ?_ ?_ ?_ ?_
    · rw [hspends, hserials, List.append_nil]
    · rw [hmints, hcoins, List.append_nil]
    · rw [hserials]
      exact nofun
    · rw [hcoins]
      exact nofun
  | ordinary hspend _ hspends hmints =>
    rw [hspend, if_neg Bool.false_ne_true] at hserials
    obtain ⟨hcoins, hcoinsNew⟩ := connectMints_coins hmints
    refine queued_one ?_ hcoins ?_ hcoinsNew
    · rw [hspends, hserials, List.append_nil]
    · rw [hserials]
      exact nofun
  | spend hspend hspends hmints =>
    rw [hspend, if_pos rfl] at hserials
    obtain ⟨hkeys, hnew⟩ := connectSpends_serials hspends
    obtain ⟨hcoins, hcoinsNew⟩ := connectMints_coins hmints
    exact queued_one (hserials ▸ hkeys) hcoins (hserials ▸ hnew) hcoinsNew

theorem connectTxs_queued : ∀ {vtx : List CTransaction} {first : Bool} {st st' : ConnectState},
    connectTxs N block pindex first vtx st = .ok st' → Queued N pindex vtx st st'
  | [], _, st, st', h => by
    cases h
    exact ⟨(List.append_nil _).symm, (List.append_nil _).symm, nofun, nofun⟩
  | tx :: vtx, first, st, st', h => by
    simp only [connectTxs, bind_eq_ok] at h
    obtain ⟨mid, hmid, hrest⟩ := h
    exact (connectTx_queued hmid).append (connectTxs_queued hrest)

variable {view : CCoinsView} {c : Connected}

theorem ConnectBlock_queued {pprev : CBlockIndex} {fAlreadyChecked : Bool}
    (hgenesis : block.hash ≠ N.hashGenesisBlock)
    (h : ConnectBlock N block pindex pprev view false fAlreadyChecked = .ok c) :
    c.vSpends.map spendKey = block.coinSpends N.Z ∧ c.vMints.map mintKey = block.coinMints N.Z ∧
      (∀ e ∈ block.coinSpends N.Z, NotInBlockchain N.toCNode N.Z.ReadCoinSpend e.1) ∧
      MintsNotInBlockchain N pindex (block.coinMints N.Z) ∧
      (fAlreadyChecked = true ∨ CheckBlock N.toCNode block true true = .ok ()) := by
  obtain ⟨pindex', st, hcheck, -, htotals, rfl⟩ := ConnectBlock_ok hgenesis h
  obtain ⟨hspends, hmints, hserials, hcoins⟩ := connectTxs_queued (connectTotals_parts htotals).1
  exact ⟨hspends, hmints, hserials, hcoins, hcheck⟩

end

/-! ## Serials and coins alike -/

inductive ZerocoinKey where
  | serial
  | coin

def CTransaction.keys (Z : Zerocoin) : ZerocoinKey → CTransaction → List (Int × uint256)
  | .serial, tx => tx.coinSpends Z
  | .coin, tx => tx.coinMints Z

def CBlock.keys (Z : Zerocoin) (kind : ZerocoinKey) (block : CBlock) : List (Int × uint256) :=
  block.vtx.flatMap (CTransaction.keys Z kind)

def ZerocoinDB.store : ZerocoinKey → ZerocoinDB → Store Int uint256
  | .serial, db => db.coinSpends
  | .coin, db => db.coinMints

/-- The two libraries read scripts alike. -/
structure SameReading (Z Z' : Zerocoin) : Prop where
  spend : Z'.TxInToZerocoinSpend = Z.TxInToZerocoinSpend
  mint : Z'.mintValue = Z.mintValue

section
variable {Z Z' : Zerocoin} (h : SameReading Z Z') (kind : ZerocoinKey)
include h kind

theorem SameReading.keys :
    keys Z' kind = keys Z kind := by
  funext tx
  cases kind with
  | serial =>
    show coinSpends Z' tx = coinSpends Z tx
    rw [coinSpends, coinSpends, h.spend]
  | coin =>
    have hcoin : TxOutToPublicCoin Z' = TxOutToPublicCoin Z := by
      funext out
      rw [TxOutToPublicCoin, TxOutToPublicCoin, h.mint]
    show coinMints Z' tx = coinMints Z tx
    rw [coinMints, coinMints, hcoin]

theorem SameReading.blockKeys :
    CBlock.keys Z' kind = CBlock.keys Z kind := by
  funext b
  show b.vtx.flatMap (CTransaction.keys Z' kind) = b.vtx.flatMap (CTransaction.keys Z kind)
  rw [h.keys]

end

theorem keys_snd {Z : Zerocoin} {kind : ZerocoinKey} {tx : CTransaction} {e : Int × uint256}
    (h : e ∈ tx.keys Z kind) : e.2 = tx.hash := by
  cases kind with
  | serial =>
    have h : e ∈ tx.coinSpends Z := h
    rw [coinSpends] at h
    split at h
    · obtain ⟨txin, -, hmap⟩ := List.mem_filterMap.mp h
      obtain ⟨spend, -, rfl⟩ := map_eq_some_iff.mp hmap
      rfl
    · exact nomatch h
  | coin =>
    obtain ⟨out, -, hmap⟩ := List.mem_filterMap.mp h
    obtain ⟨pubCoin, -, rfl⟩ := map_eq_some_iff.mp hmap
    rfl

theorem mem_block_keys {Z : Zerocoin} {kind : ZerocoinKey} {block : CBlock} {e : Int × uint256} :
    e ∈ block.keys Z kind ↔ ∃ tx ∈ block.vtx, e ∈ tx.keys Z kind := List.mem_flatMap

/-! ## What a disconnected block erases -/

section
variable {N : CDisconnectNode} {k : Int}

theorem erasedSerials_sub : ∀ {vin : List CTxIn},
    k ∈ erasedSerials N vin → k ∈ (inputSerials N.Z txid vin).map Prod.fst
  | [], h => (nomatch h)
  | txin :: vin, h => by
    rw [erasedSerials] at h
    cases hz : txin.scriptSig.IsZerocoinSpend with
    | false =>
      rw [hz] at h
      rw [inputSerials_skip vin hz]
      exact erasedSerials_sub h
    | true =>
      rw [hz] at h
      cases hs : N.Z.TxInToZerocoinSpend txin with
      | none =>
        rw [hs] at h
        exact nomatch h
      | some spend =>
        rw [hs] at h
        rw [inputSerials_cons vin hz hs]
        have h : k ∈ if N.EraseCoinSpend spend.coinSerialNumber then
            spend.coinSerialNumber :: erasedSerials N vin else [] := h
        split at h
        · rcases List.mem_cons.mp h with rfl | hrest
          · exact .head _
          · exact .tail _ (erasedSerials_sub hrest)
        · exact nomatch h

theorem erasedCoins_sub : ∀ {vout : List CTxOut},
    k ∈ erasedCoins N vout → k ∈ (outputCoins N.Z txid vout).map Prod.fst
  | [], h => (nomatch h)
  | out :: vout, h => by
    rw [erasedCoins] at h
    cases hz : out.IsZerocoinMint with
    | false =>
      rw [hz] at h
      rw [outputCoins_skip vout hz]
      exact erasedCoins_sub h
    | true =>
      rw [hz] at h
      cases hs : TxOutToPublicCoin N.Z out with
      | none =>
        rw [hs] at h
        exact nomatch h
      | some pubCoin =>
        rw [hs] at h
        rw [outputCoins_cons vout hz hs]
        have h : k ∈ if N.EraseCoinMint pubCoin.value then
            pubCoin.value :: erasedCoins N vout else [] := h
        split at h
        · rcases List.mem_cons.mp h with rfl | hrest
          · exact .head _
          · exact .tail _ (erasedCoins_sub hrest)
        · exact nomatch h

/-- The erased keys of a kind. -/
def erasedOf (erased : List Int × List Int) : ZerocoinKey → List Int
  | .serial => erased.1
  | .coin => erased.2

variable {kind : ZerocoinKey}

theorem erasedBy_sub {tx : CTransaction}
    (h : k ∈ erasedOf (erasedBy N tx) kind) : k ∈ (tx.keys N.Z kind).map Prod.fst := by
  rw [erasedBy] at h
  cases kind with
  | serial =>
    split at h
    next hspend =>
      have hkeys : tx.keys N.Z .serial = inputSerials N.Z tx.hash tx.vin := by
        show tx.coinSpends N.Z = _
        rw [coinSpends, if_pos hspend]
        rfl
      rw [hkeys]
      exact erasedSerials_sub h
    · exact nomatch h
  | coin =>
    have hcoins : k ∈ erasedCoins N tx.vout := by
      split at h
      · have h : k ∈ if (eraseSpends N tx.vin).isOk then erasedCoins N tx.vout else [] := h
        split at h
        · exact h
        · exact nomatch h
      · exact h
    exact erasedCoins_sub hcoins

theorem erasedLoop_sub {pindex : CBlockIndex} :
    ∀ {l : List (CTransaction × List CTxInUndo)}, k ∈ erasedOf (erasedLoop N pindex l view) kind →
    ∃ p ∈ l, k ∈ (p.1.keys N.Z kind).map Prod.fst
  | [], h => by cases kind <;> exact nomatch h
  | (tx, us) :: rest, h => by
    have hrest : k ∈ erasedOf (erasedLoop N pindex rest view) kind →
        ∃ p ∈ (tx, us) :: rest, k ∈ (p.1.keys N.Z kind).map Prod.fst := by
      intro hmem
      obtain ⟨p, hp, hk⟩ := erasedLoop_sub hmem
      exact ⟨p, .tail _ hp, hk⟩
    rw [erasedLoop] at h
    split at h
    · exact hrest h
    · have hboth : k ∈ erasedOf (erasedBy N tx) kind ∨
          k ∈ erasedOf (erasedLoop N pindex rest view) kind := by
        cases kind with
        | serial => exact List.mem_append.mp h
        | coin => exact List.mem_append.mp h
      rcases hboth with hfirst | hlater
      · exact ⟨(tx, us), .head _, erasedBy_sub hfirst⟩
      · exact hrest hlater

variable {pindex pprev : CBlockIndex}

theorem undoneTxs_sub {block : CBlock}
    {p : CTransaction × List CTxInUndo} (h : p ∈ undoneTxs N block pindex pprev view) :
    p.1 ∈ block.vtx := by
  rw [undoneTxs] at h
  split at h
  · exact nomatch h
  · split at h
    · exact nomatch h
    · split at h
      · exact nomatch h
      · exact (List.of_mem_zip h).1

theorem erasedZerocoins_sub {block : CBlock}
    (h : k ∈ erasedOf (erasedZerocoins N block pindex pprev view) kind) :
    k ∈ (block.keys N.Z kind).map Prod.fst := by
  obtain ⟨p, hp, hk⟩ := erasedLoop_sub h
  obtain ⟨e, he, rfl⟩ := List.mem_map.mp hk
  exact List.mem_map.mpr ⟨e, mem_block_keys.mpr ⟨p.1, undoneTxs_sub hp, he⟩, rfl⟩

theorem store_disconnect (db : ZerocoinDB) (block : CBlock) (pindex pprev : CBlockIndex)
    (view : CCoinsView) (kind : ZerocoinKey) :
    (db.disconnect N block pindex pprev view).store kind =
      erase (db.store kind) (erasedOf (erasedZerocoins N block pindex pprev view) kind) := by
  cases kind <;> rfl

end

/-! ## The books -/

namespace ZerocoinChain

variable (Z : Zerocoin) (L : uint256 → Option CTransaction) (fTxIndex : Bool) (kind : ZerocoinKey)
  (s : ZerocoinChain)

def blocks : List CBlock := s.chainActive.map ChainEntry.block

def keys : List (Int × uint256) := s.blocks.flatMap (CBlock.keys Z kind)

def HasTx (txid : uint256) : Prop := ∃ b ∈ s.blocks, ∃ tx ∈ b.vtx, tx.hash = txid

/-- No key is on the chain twice, and the database has of the transactions of the chain
exactly their keys. -/
structure Exact : Prop where
  once : ((s.keys Z kind).map Prod.fst).Nodup
  exact : ∀ k txid, s.HasTx txid →
    (s.zerocoinDB.store kind k = some txid ↔ (k, txid) ∈ s.keys Z kind)

/-- The books are right; `L` says which transaction has a hash. -/
structure Books : Prop where
  kept : Kept (CBlock.keys Z kind) s.blocks (s.zerocoinDB.store kind)
  ledger : ∀ b ∈ s.blocks, ∀ tx ∈ b.vtx, L tx.hash = some tx
  genuine : ∀ k txid, s.zerocoinDB.store kind k = some txid →
    ∃ tx, L txid = some tx ∧ (k, txid) ∈ tx.keys Z kind
  indexed : fTxIndex = true → ∀ b ∈ s.blocks, ∀ e ∈ b.keys Z kind, s.txIndex e.2 = some b.hash
  named : ∀ b ∈ s.blocks, b.hash ≠ 0

variable {Z L fTxIndex kind s} {M : CZerocoinNode} {block : CBlock}

theorem Books.exact (h : s.Books Z L fTxIndex kind) : s.Exact Z kind := by
  refine ⟨h.kept.once, ?_⟩
  rintro k txid ⟨b, hb, tx, htx, rfl⟩
  constructor
  · intro hstore
    obtain ⟨tx', htx', hkey⟩ := h.genuine k tx.hash hstore
    obtain rfl : tx = tx' := some.inj ((h.ledger b hb tx htx).symm.trans htx')
    exact List.mem_flatMap.mpr ⟨b, hb, mem_block_keys.mpr ⟨tx, htx, hkey⟩⟩
  · intro hkey
    exact h.kept.recorded k tx.hash hkey

theorem Books.start (hkeys : ∀ b ∈ s.blocks, b.keys Z kind = [])
    (hledger : ∀ b ∈ s.blocks, ∀ tx ∈ b.vtx, L tx.hash = some tx)
    (hstore : ∀ k, s.zerocoinDB.store kind k = none) (hnamed : ∀ b ∈ s.blocks, b.hash ≠ 0) :
    s.Books Z L fTxIndex kind := by
  have hnone : s.blocks.flatMap (CBlock.keys Z kind) = [] := List.flatMap_eq_nil_iff.mpr hkeys
  refine ⟨⟨?_, ?_⟩, hledger, ?_, ?_, hnamed⟩
  · rw [hnone]
    exact List.nodup_nil
  · intro k txid hmem
    rw [hnone] at hmem
    exact nomatch hmem
  · intro k txid hread
    rw [hstore] at hread
    cases hread
  · intro _ b hb e he
    rw [hkeys b hb] at he
    exact nomatch he

/-- What `GetTransaction` needs to find a transaction of the chain: it is not in the memory
pool; with the index its block can be read, without it the coins still lead there. -/
def Findable (M : CZerocoinNode) (s : ZerocoinChain) (txid : uint256) : Prop :=
  M.mempool txid = false ∧
    if M.fTxIndex then
      ∀ b ∈ s.blocks, (∃ tx ∈ b.vtx, tx.hash = txid) → M.readable b.hash = true
    else s.IsTransactionInChain M txid ≠ none

theorem Books.found (h : s.Books Z L fTxIndex kind) (hindex : M.fTxIndex = fTxIndex)
    (hkey : (k, txid) ∈ s.keys Z kind) (hfind : Findable M s txid) :
    s.IsTransactionInChain M txid ≠ none := by
  obtain ⟨hpool, hfind⟩ := hfind
  cases hflag : M.fTxIndex with
  | false =>
    rw [hflag, if_neg Bool.false_ne_true] at hfind
    exact hfind
  | true =>
    rw [hflag, if_pos rfl] at hfind
    obtain ⟨b, hb, hbkey⟩ := List.mem_flatMap.mp hkey
    obtain ⟨tx, htx, htxkey⟩ := mem_block_keys.mp hbkey
    have hread : M.readable b.hash = true := hfind b hb ⟨tx, htx, (keys_snd htxkey).symm⟩
    have hwhere : s.txIndex txid = some b.hash := h.indexed (hindex ▸ hflag) b hb (k, txid) hbkey
    have hget : s.GetTransaction M txid = some b.hash := by
      rw [GetTransaction, hpool, if_neg Bool.false_ne_true, hflag, if_pos rfl, hwhere]
      exact if_pos hread
    obtain ⟨entry, hentry, rfl⟩ := List.mem_map.mp hb
    rw [IsTransactionInChain, hget]
    dsimp only
    rw [if_neg (h.named _ hb)]
    intro hnone
    have hno := map_eq_none_iff.mp hnone
    rw [List.find?_eq_none] at hno
    exact hno entry hentry (beq_self_eq_true _)

/-! ## A block connected -/

theorem ConnectTip_effect (M : CZerocoinNode) (s : ZerocoinChain) (block : CBlock)
    (pindexNew : CBlockIndex) (fAlreadyChecked : Bool) :
    s.ConnectTip M block pindexNew fAlreadyChecked = s ∨
      ∃ tip rest c, s.chainActive = tip :: rest ∧ block.hash ≠ M.hashGenesisBlock ∧
        ConnectBlock (s.node M).toCConnectNode block pindexNew tip.pindex s.pcoinsTip false
          fAlreadyChecked = .ok c ∧
        s.ConnectTip M block pindexNew fAlreadyChecked = s.connectWrites M block c := by
  rw [ConnectTip]
  cases hchain : s.chainActive with
  | nil => exact .inl rfl
  | cons tip rest =>
    dsimp only
    by_cases hassert : pindexNew.nHeight ≠ tip.pindex.nHeight + 1 ∨ block.hash = M.hashGenesisBlock
    · exact .inl (if_pos hassert)
    · rw [if_neg hassert]
      cases hc : ConnectBlock (s.node M).toCConnectNode block pindexNew tip.pindex s.pcoinsTip
        false fAlreadyChecked with
      | error _ => exact .inl rfl
      | ok c => exact .inr ⟨tip, rest, c, rfl, (not_or.mp hassert).2, hc, rfl⟩

theorem ConnectTip_queued (hreads : SameReading Z M.Z) (s : ZerocoinChain) (block : CBlock)
    (pindexNew : CBlockIndex) (fAlreadyChecked : Bool) :
    s.ConnectTip M block pindexNew fAlreadyChecked = s ∨
      ∃ c, s.ConnectTip M block pindexNew fAlreadyChecked = s.connectWrites M block c ∧
        c.vSpends.map spendKey = block.keys Z .serial ∧ c.vMints.map mintKey = block.keys Z .coin ∧
        (∀ e ∈ block.keys Z .serial,
          NotInBlockchain (s.node M).toCNode s.zerocoinDB.coinSpends e.1) ∧
        MintsNotInBlockchain (s.node M).toCConnectNode pindexNew (block.keys Z .coin) ∧
        (fAlreadyChecked = true ∨ CheckBlock (s.node M).toCNode block true true = .ok ()) := by
  rcases ConnectTip_effect M s block pindexNew fAlreadyChecked with
    hsame | ⟨tip, rest, c, -, hgenesis, hc, hs'⟩
  · exact .inl hsame
  have hnode : SameReading Z (s.node M).Z := ⟨hreads.spend, hreads.mint⟩
  have hserial : block.coinSpends (s.node M).Z = block.keys Z .serial :=
    congrFun (hnode.blockKeys .serial) block
  have hcoin : block.coinMints (s.node M).Z = block.keys Z .coin :=
    congrFun (hnode.blockKeys .coin) block
  obtain ⟨hspends, hmints, hserials, hcoins, hchecked⟩ :=
    ConnectBlock_queued (N := (s.node M).toCConnectNode) hgenesis hc
  exact .inr ⟨c, hs', hspends.trans hserial, hmints.trans hcoin, hserial ▸ hserials,
    hcoin ▸ hcoins, hchecked⟩

theorem connectWrites_cases
    (hspends : c.vSpends.map spendKey = block.keys Z .serial)
    (hmints : c.vMints.map mintKey = block.keys Z .coin) (kind : ZerocoinKey) :
    ((s.connectWrites M block c).blocks = s.blocks ∧
        (s.connectWrites M block c).txIndex = s.txIndex ∧
        ((s.connectWrites M block c).zerocoinDB.store kind = s.zerocoinDB.store kind ∨
          (s.connectWrites M block c).zerocoinDB.store kind =
            write (s.zerocoinDB.store kind) (block.keys Z kind))) ∨
      ((s.connectWrites M block c).blocks = block :: s.blocks ∧
        (s.connectWrites M block c).txIndex =
          (if M.fTxIndex then write s.txIndex (block.vtx.map fun tx => (tx.hash, block.hash))
            else s.txIndex) ∧
        (s.connectWrites M block c).zerocoinDB.store kind =
          write (s.zerocoinDB.store kind) (block.keys Z kind)) := by
  have hboth : ((s.zerocoinDB.WriteCoinSpendBatch c.vSpends).WriteCoinMintBatch c.vMints).store
      kind = write (s.zerocoinDB.store kind) (block.keys Z kind) := by
    cases kind with
    | serial =>
      show write _ (c.vSpends.map spendKey) = _
      rw [hspends]
      rfl
    | coin =>
      show write _ (c.vMints.map mintKey) = _
      rw [hmints]
      rfl
  have hfirst : (s.zerocoinDB.WriteCoinSpendBatch c.vSpends).store kind = s.zerocoinDB.store kind ∨
      (s.zerocoinDB.WriteCoinSpendBatch c.vSpends).store kind =
        write (s.zerocoinDB.store kind) (block.keys Z kind) := by
    cases kind with
    | serial => exact .inr hboth
    | coin => exact .inl rfl
  rw [connectWrites]
  cases M.WriteUndo with
  | false => exact .inl ⟨rfl, rfl, .inl rfl⟩
  | true =>
    cases M.WriteCoinSpendBatch with
    | false => exact .inl ⟨rfl, rfl, .inl rfl⟩
    | true =>
      cases M.WriteCoinMintBatch with
      | false => exact .inl ⟨rfl, rfl, hfirst⟩
      | true =>
        cases M.fTxIndex with
        | false => exact .inr ⟨rfl, rfl, hboth⟩
        | true =>
          cases M.WriteTxIndex with
          | false => exact .inl ⟨rfl, rfl, .inr hboth⟩
          | true => exact .inr ⟨rfl, rfl, hboth⟩

theorem Books.index (h : s.Books Z L fTxIndex kind)
    (hfresh : Fresh (CBlock.keys Z kind) s.blocks block)
    (hledger : ∀ tx ∈ block.vtx, L tx.hash = some tx) (hon : fTxIndex = true) :
    ∀ b ∈ block :: s.blocks, ∀ e ∈ b.keys Z kind,
      write s.txIndex (block.vtx.map fun tx => (tx.hash, block.hash)) e.2 = some b.hash := by
  intro b hb e he
  obtain ⟨tx, htx, hkey⟩ := mem_block_keys.mp he
  rw [keys_snd hkey]
  rcases List.mem_cons.mp hb with rfl | hb
  · refine write_of_only ?_ ?_
    · exact List.mem_map.mpr ⟨_, List.mem_map.mpr ⟨tx, htx, rfl⟩, rfl⟩
    · intro txid ht
      obtain ⟨_, -, heq⟩ := List.mem_map.mp ht
      exact (congrArg Prod.snd heq).symm
  · have hother : tx.hash ∉ (block.vtx.map fun tx => (tx.hash, block.hash)).map Prod.fst := by
      intro hmem
      obtain ⟨_, hpair, heq⟩ := List.mem_map.mp hmem
      obtain ⟨tx', htx', rfl⟩ := List.mem_map.mp hpair
      -- the same transaction would bring its keys a second time
      obtain rfl : tx' = tx := by
        have hsame := (hledger tx' htx').symm.trans (heq ▸ h.ledger b hb tx htx)
        exact some.inj hsame
      refine hfresh.new e.1 ?_ ?_
      · exact List.mem_map.mpr ⟨e, mem_block_keys.mpr ⟨tx', htx', hkey⟩, rfl⟩
      · exact List.mem_map.mpr ⟨e, List.mem_flatMap.mpr ⟨b, hb, he⟩, rfl⟩
    rw [write_of_not_mem hother]
    exact keys_snd hkey ▸ h.indexed hon b hb e he

/-- **A connection keeps the books right** when the keys of the block are new. -/
theorem Books.connectWrites (h : s.Books Z L fTxIndex kind)
    (hspends : c.vSpends.map spendKey = block.keys Z .serial)
    (hmints : c.vMints.map mintKey = block.keys Z .coin)
    (hfresh : Fresh (CBlock.keys Z kind) s.blocks block)
    (hledger : ∀ tx ∈ block.vtx, L tx.hash = some tx) (hhash : block.hash ≠ 0)
    (hindex : M.fTxIndex = fTxIndex) : (s.connectWrites M block c).Books Z L fTxIndex kind := by
  have hgenuine : ∀ k txid, write (s.zerocoinDB.store kind) (block.keys Z kind) k = some txid →
      ∃ tx, L txid = some tx ∧ (k, txid) ∈ tx.keys Z kind := by
    intro k txid hread
    rcases write_eq_some hread with hnew | hold
    · obtain ⟨tx, htx, hkey⟩ := mem_block_keys.mp hnew
      obtain rfl : txid = tx.hash := keys_snd hkey
      exact ⟨tx, hledger tx htx, hkey⟩
    · exact h.genuine k txid hold
  rcases connectWrites_cases (s := s) (M := M) hspends hmints kind with
    ⟨hblocks, htx, hstore⟩ | ⟨hblocks, htx, hstore⟩
  · refine ⟨?_, hblocks ▸ h.ledger, ?_, ?_, hblocks ▸ h.named⟩
    · rw [hblocks]
      rcases hstore with hstore | hstore
      · rw [hstore]
        exact h.kept
      · rw [hstore]
        exact h.kept.write hfresh
    · rcases hstore with hstore | hstore
      · rw [hstore]
        exact h.genuine
      · rw [hstore]
        exact hgenuine
    · rw [hblocks, htx]
      exact h.indexed
  · refine ⟨?_, ?_, ?_, ?_, ?_⟩
    · rw [hblocks, hstore]
      exact h.kept.push hfresh
    · rw [hblocks]
      intro b hb
      rcases List.mem_cons.mp hb with rfl | hb
      · exact hledger
      · exact h.ledger b hb
    · rw [hstore]
      exact hgenuine
    · intro hon
      rw [hblocks, htx, hindex, if_pos hon]
      exact h.index hfresh hledger hon
    · rw [hblocks]
      intro b hb
      rcases List.mem_cons.mp hb with rfl | hb
      · exact hhash
      · exact h.named b hb

/-- The disconnection of the tip goes through, or erases no key of the kind. -/
def Undoes (kind : ZerocoinKey) (M : CZerocoinNode) (s : ZerocoinChain) : Prop :=
  ∀ tip prev rest, s.chainActive = tip :: prev :: rest →
    (∃ view, DisconnectBlock (s.node M) tip.block tip.pindex prev.pindex s.pcoinsTip =
        .ok (view, true)) ∨
      erasedOf (erasedZerocoins (s.node M) tip.block tip.pindex prev.pindex s.pcoinsTip) kind = []

/-- **A disconnection keeps the books right** when it goes through or erases nothing. -/
theorem Books.disconnectTip (h : s.Books Z L fTxIndex kind) (hread : SameReading Z M.Z)
    (hundoes : Undoes kind M s) : (s.DisconnectTip M).Books Z L fTxIndex kind := by
  rw [DisconnectTip]
  split
  next tip prev rest hchain =>
    have hblocks : s.blocks = tip.block :: prev.block :: rest.map ChainEntry.block := by
      rw [blocks, hchain]
      rfl
    have hstore := store_disconnect s.zerocoinDB (N := s.node M) tip.block tip.pindex prev.pindex
      s.pcoinsTip kind
    have hbefore : ∀ k txid, (s.zerocoinDB.disconnect (s.node M) tip.block tip.pindex prev.pindex
        s.pcoinsTip).store kind k = some txid →
        ∃ tx, L txid = some tx ∧ (k, txid) ∈ tx.keys Z kind := by
      intro k txid hk
      rw [hstore] at hk
      exact h.genuine k txid (erase_eq_some.mp hk).2
    split
    next view hview =>
      have hnode : SameReading Z (s.node M).Z := ⟨hread.spend, hread.mint⟩
      have hkeys := hnode.blockKeys kind
      have hbelow : ∀ b, b ∈ prev.block :: rest.map ChainEntry.block → b ∈ s.blocks := by
        intro b hb
        rw [hblocks]
        exact .tail _ hb
      refine ⟨?_, fun b hb => h.ledger b (hbelow b hb), hbefore,
        fun hon b hb => h.indexed hon b (hbelow b hb), fun b hb => h.named b (hbelow b hb)⟩
      have hkept := h.kept
      rw [hblocks] at hkept
      rw [hstore]
      refine hkept.pop ?_
      intro k hk
      exact hkeys ▸ erasedZerocoins_sub hk
    next hfails =>
      have hnone : erasedOf (erasedZerocoins (s.node M) tip.block tip.pindex prev.pindex
          s.pcoinsTip) kind = [] := by
        rcases hundoes tip prev rest hchain with ⟨view, hview⟩ | hnone
        · exact absurd hview (hfails view)
        · exact hnone
      rw [hnone, erase_nil] at hstore
      refine ⟨?_, h.ledger, hbefore, h.indexed, h.named⟩
      rw [hstore]
      exact h.kept
  next => exact h

end ZerocoinChain

end Divitae
