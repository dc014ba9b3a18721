/-
# `SerialRuns` — a serial is spent once

Inside a block `CheckBlock` refuses a serial it has met.  Across blocks the contextual
check asks the database for the transaction the serial is recorded with, and then the
chain for that transaction:

    recorded, and found in the chain         refused
    recorded, and not found                  let through, and recorded anew

The second case is meant for transactions of blocks that have been disconnected.  It is
met by a transaction of the chain too, when `GetTransaction` cannot find it: without the
transaction index it looks for coins of the transaction, and when all of its outputs are
spent there are none.  In a run in which the recorded transactions are found when it
matters (`LooksUp`) no serial is spent twice.
-/
import Divitae.ZerocoinRecords

namespace Divitae

open Records Run List

section
variable {N : CNode}

theorem blockSerials_nodup (txid : uint256) : ∀ {vin : List CTxIn} {l l' : List Int},
    blockSerials N vin l = .ok l' → l.Nodup →
    l' = ((inputSerials N.Z txid vin).map Prod.fst).reverse ++ l ∧ l'.Nodup
  | [], l, l', h, hl => by
    cases h
    exact ⟨rfl, hl⟩
  | txin :: vin, l, l', h, hl => by
    rw [blockSerials] at h
    cases hz : txin.scriptSig.IsZerocoinSpend with
    | false =>
      rw [hz] at h
      rw [inputSerials_skip vin hz]
      exact blockSerials_nodup txid h hl
    | true =>
      rw [hz] at h
      cases hs : N.Z.TxInToZerocoinSpend txin with
      | none =>
        rw [hs] at h
        cases h
      | some spend =>
        rw [hs] at h
        obtain ⟨hnew, h⟩ := rejectIf_eq_ok.mp h
        have hnot : spend.coinSerialNumber ∉ l := by simpa using hnew
        obtain ⟨heq, hnodup⟩ := blockSerials_nodup txid h (nodup_cons.mpr ⟨hnot, hl⟩)
        refine ⟨?_, hnodup⟩
        rw [heq, inputSerials_cons vin hz hs, map_cons, reverse_cons, append_assoc]
        rfl

theorem checkTransactions_serials {act : Bool} : ∀ {vtx : List CTransaction} {l : List Int},
    checkTransactions N act vtx l = .ok () → l.Nodup →
    (((vtx.flatMap (CTransaction.coinSpends N.Z)).map Prod.fst).reverse ++ l).Nodup
  | [], _, _, hl => hl
  | tx :: vtx, l, h, hl => by
    simp only [checkTransactions, bind_eq_ok] at h
    obtain ⟨-, -, l', hserials, hrest⟩ := h
    have hfirst : l' = ((tx.coinSpends N.Z).map Prod.fst).reverse ++ l ∧ l'.Nodup := by
      rw [CTransaction.coinSpends]
      cases hspend : tx.IsZerocoinSpend with
      | true =>
        rw [hspend, if_pos rfl] at hserials
        exact blockSerials_nodup tx.hash hserials hl
      | false =>
        rw [hspend] at hserials
        cases hserials
        exact ⟨rfl, hl⟩
    have hall := checkTransactions_serials hrest hfirst.2
    rw [hfirst.1, ← append_assoc, ← reverse_append, ← map_append] at hall
    exact hall

theorem CheckBlock_serials {block : CBlock} {pow merkle : Bool}
    (h : CheckBlock N block pow merkle = .ok ()) : ((block.coinSpends N.Z).map Prod.fst).Nodup := by
  simp only [CheckBlock, rejectIf_eq_ok, bind_eq_ok] at h
  obtain ⟨_, _, _, _, _, _, _, _, _, _, _, _, htxs, _⟩ := h
  have hall := checkTransactions_serials htxs nodup_nil
  rw [append_nil] at hall
  exact nodup_reverse.mp hall

end

/-! ## Runs -/

namespace ZerocoinChain

/-- What is the same in every step, or promised by the callers: scripts are read alike, the
index is on or off for good, a hash names one transaction, and a block that is not checked
again has passed `CheckBlock` before. -/
inductive Consistent (Z : Zerocoin) (L : uint256 → Option CTransaction) (fTxIndex : Bool) :
    ZerocoinEvent → Prop
  | connectTip {M : CZerocoinNode} {block : CBlock} {pindexNew : CBlockIndex}
      {fAlreadyChecked : Bool} (reading : SameReading Z M.Z) (index : M.fTxIndex = fTxIndex)
      (named : block.hash ≠ 0) (ledger : ∀ tx ∈ block.vtx, L tx.hash = some tx)
      (checked : fAlreadyChecked = true → ∃ (N : CNode) (pow merkle : Bool),
        SameReading Z N.Z ∧ CheckBlock N block pow merkle = .ok ()) :
      Consistent Z L fTxIndex (.connectTip M block pindexNew fAlreadyChecked)
  | disconnectTip {M : CZerocoinNode} (reading : SameReading Z M.Z) :
      Consistent Z L fTxIndex (.disconnectTip M)

variable {Z : Zerocoin} {L : uint256 → Option CTransaction} {fTxIndex : Bool} {s : ZerocoinChain}
  {M : CZerocoinNode} {block : CBlock}

/-- When the block spends a serial of the chain, the recorded transaction is found. -/
def LooksUp (Z : Zerocoin) (kind : ZerocoinKey) (M : CZerocoinNode) (s : ZerocoinChain)
    (block : CBlock) : Prop :=
  ∀ k txid, k ∈ (block.keys Z kind).map Prod.fst → (k, txid) ∈ s.keys Z kind → Findable M s txid

def KeepsSerials (Z : Zerocoin) (s : ZerocoinChain) : ZerocoinEvent → Prop
  | .connectTip M block _ _ => LooksUp Z .serial M s block
  | .disconnectTip M => Undoes .serial M s

theorem Books.new {kind : ZerocoinKey} (h : s.Books Z L fTxIndex kind)
    (hindex : M.fTxIndex = fTxIndex) (hlook : LooksUp Z kind M s block) {e : Int × uint256}
    (he : e ∈ block.keys Z kind)
    (hcheck : NotInBlockchain (s.node M).toCNode (s.zerocoinDB.store kind) e.1) :
    e.1 ∉ (s.keys Z kind).map Prod.fst := by
  intro hmem
  obtain ⟨⟨k, txid⟩, hkey, hk⟩ := mem_map.mp hmem
  obtain rfl : k = e.1 := hk
  have hfound := h.found hindex hkey (hlook e.1 txid (mem_map.mpr ⟨e, he, rfl⟩) hkey)
  have hread : s.zerocoinDB.store kind e.1 = some txid := h.kept.recorded e.1 txid hkey
  rw [NotInBlockchain, hread] at hcheck
  exact hfound hcheck

theorem connectTip_serials {pindexNew : CBlockIndex} {fAlreadyChecked : Bool}
    (h : s.Books Z L fTxIndex .serial)
    (hok : Consistent Z L fTxIndex (.connectTip M block pindexNew fAlreadyChecked))
    (hlook : LooksUp Z .serial M s block) :
    (s.ConnectTip M block pindexNew fAlreadyChecked).Books Z L fTxIndex .serial := by
  obtain ⟨reading, index, named, ledger, checked⟩ := hok
  rcases ConnectTip_queued reading s block pindexNew fAlreadyChecked with
    hsame | ⟨c, hs', hspends, hmints, hserials, -, hchecked⟩
  · rw [hsame]
    exact h
  rw [hs']
  refine h.connectWrites hspends hmints ⟨?_, ?_⟩ ledger named index
  · -- apart in the block
    rcases hchecked with hflag | hcheck
    · obtain ⟨N, pow, merkle, hN, hcheck⟩ := checked hflag
      have hnodup := CheckBlock_serials hcheck
      exact congrFun (hN.blockKeys .serial) block ▸ hnodup
    · have hnode : SameReading Z (s.node M).Z := ⟨reading.spend, reading.mint⟩
      have hnodup := CheckBlock_serials hcheck
      exact congrFun (hnode.blockKeys .serial) block ▸ hnodup
  · intro k hk
    obtain ⟨e, he, rfl⟩ := mem_map.mp hk
    exact h.new index hlook he (hserials e he)

theorem keepsSerials_step (e : ZerocoinEvent) (h : s.Books Z L fTxIndex .serial)
    (hok : Consistent Z L fTxIndex e ∧ KeepsSerials Z s e) :
    (zerocoinStep s e).Books Z L fTxIndex .serial := by
  cases e with
  | connectTip M block pindexNew fAlreadyChecked => exact connectTip_serials h hok.1 hok.2
  | disconnectTip M =>
    cases hok.1 with
    | disconnectTip reading => exact h.disconnectTip reading hok.2

/-- **A serial is spent once.**  In every run whose connected blocks find the transactions
their serials are recorded with, and whose disconnections go through or erase no serial, no
serial is spent twice on the chain, and of the transactions of the chain the database has
exactly the serials they spend. -/
theorem serials_spent_once (Z : Zerocoin) (L : uint256 → Option CTransaction) (fTxIndex : Bool)
    (s : ZerocoinChain) (hs : s.Books Z L fTxIndex .serial) (events : List ZerocoinEvent)
    (hconsistent : ∀ e ∈ events, Consistent Z L fTxIndex e)
    (hkeeps : Guarded zerocoinStep (KeepsSerials Z) s events) :
    Throughout zerocoinStep (fun s => s.Exact Z .serial) s events := by
  have hbooks : Throughout zerocoinStep (fun s => s.Books Z L fTxIndex .serial) s events :=
    throughout_of_guarded (fun s e h hok => keepsSerials_step e h hok) hs
      ((guarded_of_forall hconsistent).and hkeeps)
  intro past hpast
  exact (hbooks past hpast).exact

/-! ## A serial spent twice, for example -/

/-- A chain whose only block has no transactions, before the first zerocoin. -/
def noZerocoins : ZerocoinChain where
  chainActive := [⟨⟨100, 5, 0, 1700000000, [], []⟩, quietTip 1000000⟩]
  pcoinsTip :=
    { coins := fun txid =>
        if txid = 7 ∨ txid = 8 then ⟨false, false, [⟨COIN, []⟩], 5, 1⟩ else .null
      hashBlock := 100 }
  zerocoinDB := ⟨fun _ => none, fun _ => none⟩
  txIndex _ := none

/-- A node with that tip and nothing in its way. -/
def zerocoinNode (fTxIndex : Bool) (hashTip : uint256) (nHeight : Int) : CZerocoinNode :=
  { quietNode nHeight with
    time := 1700000200
    adjustedTime := 1700000200
    chainTip := some { quietTip nHeight with phashBlock := some hashTip }
    mapBlockIndex := fun hash => if hash = hashTip then some nHeight else none
    EraseCoinSpend := fun _ => true
    EraseCoinMint := fun _ => true
    EraseAccumulatorValues := fun _ _ => true
    fTxIndex := fTxIndex
    mempool := fun _ => false
    readable := fun _ => true
    cachesPruned := fun _ => false
    WriteUndo := true
    WriteCoinSpendBatch := true
    WriteCoinMintBatch := true
    WriteTxIndex := true }

def spendOf (txid : uint256) (serial : UInt8) : CTransaction :=
  ⟨txid, 1, [⟨.SetNull, [OP_ZEROCOINSPEND, serial, 0], 1⟩], [⟨COIN, [1]⟩], 0⟩

/-- A block with a stake of transaction `staked`. -/
def zerocoinBlock (hash hashPrevBlock : uint256) (nTime : Int) (staked : uint256)
    (rest : List CTransaction) : CBlock where
  hash := hash
  nVersion := 5
  hashPrevBlock := hashPrevBlock
  nTime := nTime
  vtx := { emptyCoinBase with hash := hash + 1000 } ::
    ⟨hash + 2000, 1, [⟨⟨staked, 0⟩, [], 0⟩], [.empty, ⟨COIN, []⟩], 0⟩ :: rest
  vchBlockSig := []

def firstSpend : CBlock :=
  zerocoinBlock 101 100 1700000060 7
    [spendOf 300 5, ⟨301, 1, [⟨⟨300, 0⟩, [], 0⟩], [⟨COIN, [2]⟩], 0⟩]

def secondSpend : CBlock := zerocoinBlock 102 101 1700000120 8 [spendOf 302 5]

def twoSpends (fTxIndex : Bool) : List ZerocoinEvent :=
  [.connectTip (zerocoinNode fTxIndex 100 1000000) firstSpend
      { quietTip 1000001 with phashBlock := some 101 } false,
    .connectTip (zerocoinNode fTxIndex 101 1000001) secondSpend
      { quietTip 1000002 with phashBlock := some 102 } false]

def spendLedger (txid : uint256) : Option CTransaction :=
  (firstSpend.vtx ++ secondSpend.vtx).find? fun tx => tx.hash == txid

theorem noZerocoins_books (fTxIndex : Bool) :
    noZerocoins.Books quietZerocoin spendLedger fTxIndex .serial :=
  .start (by decide) (by decide) (fun _ => rfl) (by decide)

theorem twoSpends_consistent (fTxIndex : Bool) :
    ∀ e ∈ twoSpends fTxIndex, Consistent quietZerocoin spendLedger fTxIndex e := by
  intro e he
  rcases mem_cons.mp he with rfl | he
  · exact .connectTip ⟨rfl, rfl⟩ rfl (by decide) (by decide) (by simp)
  · obtain rfl := mem_singleton.mp he
    exact .connectTip ⟨rfl, rfl⟩ rfl (by decide) (by decide) (by simp)

theorem serials_spent_once_with_index :
    Throughout zerocoinStep (fun s => s.Exact quietZerocoin .serial) noZerocoins
      (twoSpends true) := by
  refine serials_spent_once quietZerocoin spendLedger true noZerocoins (noZerocoins_books true)
    (twoSpends true) (twoSpends_consistent true) ⟨?_, ?_, trivial⟩
  · intro k txid _ _
    exact ⟨rfl, fun _ _ _ => rfl⟩
  · intro k txid _ _
    exact ⟨rfl, fun _ _ _ => rfl⟩

/-- Without the index the second spend is let through: nothing is left of the coins of the
first. -/
theorem serial_spent_twice :
    ¬ (∀ (Z : Zerocoin) (L : uint256 → Option CTransaction) (fTxIndex : Bool)
        (s : ZerocoinChain), s.Books Z L fTxIndex .serial → ∀ events : List ZerocoinEvent,
        (∀ e ∈ events, Consistent Z L fTxIndex e) →
          Throughout zerocoinStep (fun s => s.Exact Z .serial) s events) ∧
      ((twoSpends false).foldl zerocoinStep noZerocoins).keys quietZerocoin .serial =
        [(5, 302), (5, 300)] := by
  have hkeys : ((twoSpends false).foldl zerocoinStep noZerocoins).keys quietZerocoin .serial =
      [(5, 302), (5, 300)] := by decide +kernel
  refine ⟨?_, hkeys⟩
  intro hall
  have honce := (hall quietZerocoin spendLedger false noZerocoins (noZerocoins_books false)
    (twoSpends false) (twoSpends_consistent false) (twoSpends false) (prefix_refl _)).once
  exact absurd honce (by decide)

end ZerocoinChain

end Divitae
