/-
# `TemplateOrder` — what a new block takes from the pool

The invariant of the selection (`Building`), and from it what `CreateNewBlock` has taken when its
queue is empty (`CreateNewBlock_takes`):

    order     transactions of the pool, none twice, each behind those it depends on
    outputs   no output is taken twice, no serial is spent twice
    limits    1000 bytes and 100 signature operations are kept free for the coin base
    fees      each is what the inputs have and the outputs do not, as the pool shows them; of a fee
              above the collateral of a prosperitynode the collateral is not counted

The serials of a transaction that is left out stay in `vTxSerials`, and a spend of one of them is
left out too (the last example).
-/
import Divitae.TemplateQueue

namespace Divitae

open CTxMemPool List

variable {Double : Type}

section
variable {pool : CTxMemPool} {tx : CTransaction}

theorem CTxMemPool.inOrder_snoc {earlier txs : List CTransaction} (h : InOrder pool earlier txs)
    (htx : tx ∈ pool.txs) (hnew : tx ∉ txs) (hearlier : tx ∉ earlier)
    (hparents : tx.IsZerocoinSpend = false → ∀ txin ∈ tx.vin, ∀ parent ∈ pool.txs,
      parent.hash = txin.prevout.hash → parent ∈ txs ∨ parent ∈ earlier) :
    InOrder pool earlier (txs ++ [tx]) := by
  induction txs generalizing earlier with
  | nil =>
    refine ⟨htx, hearlier, fun hspend txin hin parent hparent hhash => ?_, trivial⟩
    exact (hparents hspend txin hin parent hparent hhash).resolve_left not_mem_nil
  | cons t txs ih =>
    obtain ⟨ht, hnot, hfirst, hrest⟩ := h
    refine ⟨ht, hnot, hfirst, ih hrest (fun hmem => hnew (mem_cons_of_mem t hmem)) ?_ ?_⟩
    · intro hmem
      rcases mem_cons.mp hmem with rfl | hmem
      · exact hnew mem_cons_self
      · exact hearlier hmem
    · intro hspend txin hin parent hparent hhash
      rcases hparents hspend txin hin parent hparent hhash with hmem | hmem
      · rcases mem_cons.mp hmem with rfl | hmem
        · exact Or.inr mem_cons_self
        · exact .inl hmem
      · exact .inr (mem_cons_of_mem t hmem)

variable {vprevout : List CTxInUndo} {view view' : CCoinsView}

theorem spendInputs_nodup {vin : List CTxIn}
    (h : spendInputs vin view = some (view', vprevout)) : (vin.map CTxIn.prevout).Nodup := by
  induction vin generalizing view vprevout with
  | nil => exact nodup_nil
  | cons txin vin ih =>
    rw [spendInputs] at h
    split at h
    · cases h
    next left undo hspend =>
      split at h
      · cases h
      next mid rest hrest =>
        cases h
        have hone : spendInputs [txin] view =
            some (view.ModifyCoins txin.prevout.hash fun _ => left, [undo]) := by
          simp only [spendInputs, hspend]
        refine nodup_cons.mpr ⟨fun hmem => ?_, ih hrest⟩
        have hlive := (spendInputs_live hrest).2 _ hmem
        exact ((spendInputs_live hone).1 _ hlive).2 (.head _)

theorem UpdateCoins_nodup {nHeight : Int}
    (h : UpdateCoins tx view nHeight = some (view', vprevout)) : tx.spends.Nodup := by
  unfold CTransaction.spends
  split
  next htakes =>
    unfold UpdateCoins at h
    rw [show (!tx.IsCoinBase && !tx.IsZerocoinSpend) = true from htakes] at h
    simp only [if_true] at h
    split at h
    · cases h
    next mid vprevout' hspend => exact spendInputs_nodup hspend
  next => exact nodup_nil

end

/-! ## The invariant -/

/-- `n` signature operations of `tx`, those of the scripts it meets looked up where they are. -/
def Counted (N : CMinerNode Double) (inputs : CCoinsView) (tx : CTransaction) (n : Nat) : Prop :=
  ∃ view : CCoinsView, n = N.GetLegacySigOpCount tx + N.GetP2SHSigOpCount tx view ∧
    (tx.IsZerocoinSpend = false → ∀ txin ∈ tx.vin,
      view.GetOutputFor txin = inputs.GetOutputFor txin)

/-- What the transactions taken so far are. -/
structure Taken (N : CMinerNode Double) (pool : CTxMemPool) (tip : CCoinsView)
    (s : MinerState Double) : Prop where
  order : InOrder pool [] s.vtx
  outpoints : (s.vtx.flatMap CTransaction.spends).Nodup
  serials : (s.vtx.flatMap (CTransaction.serials N.Z)).Nodup
  size : s.nBlockSize = 1000 + (s.vtx.map fun tx => tx.ser.length).sum
  room : s.vtx ≠ [] → s.nBlockSize < N.nBlockMaxSize
  sigOps : s.nBlockSigOps = 100 + s.vTxSigOps.sum
  sigOpsRoom : s.nBlockSigOps < MAX_BLOCK_SIGOPS_CURRENT
  counted : List.Forall₂ (Counted N (CCoinsViewMemPool tip pool)) s.vtx s.vTxSigOps
  fees : s.vTxFees = s.vtx.map (recordedFee (CCoinsViewMemPool tip pool))
  total : s.nFees = Wrap.wrap64 s.vTxFees.sum

/-- What the selection keeps besides. -/
structure Building (N : CMinerNode Double) (pool : CTxMemPool) (tip : CCoinsView)
    (s : MinerState Double) : Prop where
  taken : Taken N pool tip s
  lined : Lined pool s
  reflects : Reflects pool tip s.view s.vtx
  /-- the serials of the block are among those that were looked at -/
  seen : ∀ tx ∈ s.vtx, ∀ k ∈ tx.serials N.Z, k ∈ s.vTxSerials

section
variable {N : CMinerNode Double} {H : Heaps (TxPriority Double)} {pool : CTxMemPool}
  {tip : CCoinsView} {s s' mid : MinerState Double} {tx : CTransaction} {nTxSigOps : Nat}
  {mapDependers : uint256 → List uint256} {nHeight : Int}

theorem Taken.leftOut (h : Taken N pool tip s) (hleft : LeftOut s s') : Taken N pool tip s' := by
  obtain ⟨horder, houtpoints, hserials, hsize, hroom, hsigops, hfew, hcounted, hfees, htotal⟩ := h
  constructor
  · rwa [hleft.vtx]
  · rwa [hleft.vtx]
  · rwa [hleft.vtx]
  · rwa [hleft.nBlockSize, hleft.vtx]
  · rwa [hleft.nBlockSize, hleft.vtx]
  · rwa [hleft.nBlockSigOps, hleft.vTxSigOps]
  · rwa [hleft.nBlockSigOps]
  · rwa [hleft.vtx, hleft.vTxSigOps]
  · rwa [hleft.vTxFees, hleft.vtx]
  · rwa [hleft.nFees, hleft.vTxFees]

/-- **One more transaction in the block.** -/
theorem Building.add (h : Taken N pool tip s) (hreflects : Reflects pool tip s.view s.vtx)
    (hseen : ∀ t ∈ s.vtx, ∀ k ∈ t.serials N.Z, k ∈ s.vTxSerials) (hpool : pool.Unmined tip)
    (htx : tx ∈ pool.txs) (hbase : tx.IsCoinBase = false) (hnew : tx ∉ s.vtx)
    (hadmitted : Admitted N s mid tx nTxSigOps)
    (hadd : addToBlock N H mapDependers nHeight tx nTxSigOps mid = some s') :
    Taken N pool tip s' ∧ Reflects pool tip s'.view s'.vtx ∧
      ∀ t ∈ s'.vtx, ∀ k ∈ t.serials N.Z, k ∈ s'.vTxSerials := by
  obtain ⟨view, vprevout, hup, rfl⟩ := addToBlock_eq hadd
  have hleft := hadmitted.left
  rw [hleft.view] at hup
  have hreads := fun hspend => hreflects.GetOutputFor hspend hbase hadmitted.inputs
  have hfee := hreflects.recordedFee hbase hadmitted.inputs
  refine ⟨⟨?_, ?_, ?_, ?_, ?_, ?_, ?_, ?_, ?_, ?_⟩, ?_, ?_⟩
  · show InOrder pool [] (mid.vtx ++ [tx])
    rw [hleft.vtx]
    refine inOrder_snoc h.order htx hnew not_mem_nil ?_
    intro hspend txin hin parent hparent hhash
    have hhave := hadmitted.inputs
    rw [CCoinsView.HaveInputs, hspend, hbase, Bool.false_or, Bool.false_or] at hhave
    have havail := all_eq_true.mp hhave txin hin
    exact .inl (hreflects.mined txin.prevout (CCoinsView.live_of_available havail) parent hparent
      hhash)
  · show ((mid.vtx ++ [tx]).flatMap _).Nodup
    rw [hleft.vtx, flatMap_append, flatMap_singleton, nodup_append']
    refine ⟨h.outpoints, UpdateCoins_nodup hup, fun out hmem hout => ?_⟩
    obtain ⟨t, ht, hspent⟩ := mem_flatMap.mp hmem
    exact hreflects.spent t ht out hspent ((UpdateCoins_live hup).2 out hout)
  · show ((mid.vtx ++ [tx]).flatMap _).Nodup
    rw [hleft.vtx, flatMap_append, flatMap_singleton, nodup_append']
    refine ⟨h.serials, hadmitted.once, fun k hmem hk => ?_⟩
    obtain ⟨t, ht, hspent⟩ := mem_flatMap.mp hmem
    exact hadmitted.fresh k hk (hseen t ht k hspent)
  · show mid.nBlockSize + _ = 1000 + ((mid.vtx ++ [tx]).map _).sum
    rw [hleft.nBlockSize, hleft.vtx, h.size, map_append, sum_append, map_singleton,
      sum_singleton, Nat.add_assoc]
  · intro _
    rw [hleft.nBlockSize]
    exact hadmitted.room
  · show mid.nBlockSigOps + nTxSigOps = 100 + (mid.vTxSigOps ++ [nTxSigOps]).sum
    rw [hleft.nBlockSigOps, hleft.vTxSigOps, h.sigOps, sum_append, sum_singleton, Nat.add_assoc]
  · show mid.nBlockSigOps + nTxSigOps < _
    rw [hleft.nBlockSigOps]
    exact hadmitted.sigOps
  · show List.Forall₂ _ (mid.vtx ++ [tx]) (mid.vTxSigOps ++ [nTxSigOps])
    rw [hleft.vtx, hleft.vTxSigOps]
    refine rel_append h.counted (List.Forall₂.cons ?_ List.Forall₂.nil)
    exact ⟨s.view, hadmitted.counted, hreads⟩
  · show mid.vTxFees ++ [recordedFee mid.view tx] = (mid.vtx ++ [tx]).map _
    rw [hleft.vTxFees, hleft.view, hleft.vtx, h.fees, hfee, map_append, map_singleton]
  · show Wrap.wrap64 (mid.nFees + recordedFee mid.view tx) =
      Wrap.wrap64 (mid.vTxFees ++ [recordedFee mid.view tx]).sum
    rw [hleft.nFees, hleft.vTxFees, h.total, Wrap.wrap64_add_wrap64_left, sum_append, sum_singleton]
  · show Reflects pool tip view (mid.vtx ++ [tx])
    rw [hleft.vtx]
    exact hreflects.mine hpool htx hnew hup
  · show ∀ t ∈ mid.vtx ++ [tx], ∀ k ∈ t.serials N.Z, k ∈ mid.vTxSerials
    rw [hleft.vtx, hadmitted.added]
    intro t ht k hk
    rcases mem_append.mp ht with ht | ht
    · exact mem_append_left _ (hseen t ht k hk)
    · rw [mem_singleton.mp ht] at hk
      exact mem_append_right _ hk

/-- **One round.** -/
theorem Building.next (h : Building N pool tip s) (hpool : pool.Unmined tip)
    (hnext : selectNext N H mapDependers nHeight s = some s') : Building N pool tip s' := by
  have hlined := (h.lined.next hnext).1
  unfold selectNext at hnext
  cases hfront : H.takeFront (TxPriorityCompare N s.fSortedByFee) s.vecPriority with
  | none =>
    rw [hfront] at hnext
    cases hnext
    exact h
  | some r =>
    obtain ⟨front, rest⟩ := r
    rw [hfront] at hnext
    have hline := inLine_front (s := s) (Heaps.takeFront_perm hfront)
    obtain ⟨htx, hbase⟩ := h.lined.mine front.tx (hline.symm.subset mem_cons_self)
    have hnew : front.tx ∉ s.vtx := by
      have honce := (hline.append_right s.vtx).nodup_iff.mp h.lined.once
      rw [cons_append] at honce
      exact fun hmem => (nodup_cons.mp honce).1 (mem_append_right _ hmem)
    have htaken : Taken N pool tip { s with vecPriority := rest } := { h.taken with }
    rcases considerTx_cases hnext with hleft | ⟨mid, nTxSigOps, hadmitted, hadd⟩
    · refine ⟨htaken.leftOut hleft, hlined, ?_, ?_⟩
      · rw [hleft.view, hleft.vtx]
        exact h.reflects
      · rw [hleft.vtx]
        exact fun t ht k hk => hleft.vTxSerials.subset (h.seen t ht k hk)
    · obtain ⟨htaken', hreflects, hseen⟩ := Building.add htaken h.reflects h.seen hpool htx hbase
        hnew hadmitted hadd
      exact ⟨htaken', hlined, hreflects, hseen⟩

theorem Building.all {rounds : Nat} (h : Building N pool tip s) (hpool : pool.Unmined tip)
    (hall : selectAll N H mapDependers nHeight rounds s = some s') : Building N pool tip s' := by
  induction rounds generalizing s with
  | zero =>
    cases hall
    exact h
  | succ rounds ih =>
    obtain ⟨next, hnext, hrest⟩ := Option.bind_eq_some_iff.mp hall
    exact ih (h.next hpool hnext) hrest

theorem building_start (hpool : pool.Unmined tip) (view : CCoinsView) :
    Building N pool tip (MinerState.start N H
      (pool.txs.foldl (addCandidate N pool view nHeight) ⟨[], fun _ => [], []⟩) tip) where
  taken :=
    { order := trivial
      outpoints := nodup_nil
      serials := nodup_nil
      size := rfl
      room := fun h => absurd rfl h
      sigOps := rfl
      sigOpsRoom := show 100 < MAX_BLOCK_SIGOPS_CURRENT by decide
      counted := List.Forall₂.nil
      fees := rfl
      total := rfl }
  lined := lined_start hpool view
  reflects := hpool.reflects
  seen tx htx := nomatch htx

theorem CreateNewBlock_done {pool : CTxMemPool} {tip : CCoinsView} {t : MinerState Double}
    (hpool : pool.Unmined tip) (h : CreateNewBlock N H pool tip = some t) : t.vecPriority = [] := by
  refine (@lined_start Double N H pool tip (N.chainHeight + 1) hpool tip).done ?_ h
  unfold inLine MinerState.start
  dsimp only
  rw [List.length_append, List.length_map, (H.make_perm _ _).length_eq]
  refine Nat.add_le_add_left ?_ _
  exact (waiting_sublist _).length_le.trans (Nat.le_of_eq (List.length_map ..))

end

section
variable (N : CMinerNode Double) (H : Heaps (TxPriority Double))

/-- **What a new block takes from the pool**, in every state a node reaches that knows its chain. -/
theorem CreateNewBlock_takes (view : CCoinsView) (es : List PoolEvent)
    (hknows : Run.Guarded poolStep KnowsChain (.start view) es) (t : MinerState Double)
    (h : CreateNewBlock N H (es.foldl poolStep (.start view)).mempool
      (es.foldl poolStep (.start view)).pcoinsTip = some t) :
    Taken N (es.foldl poolStep (.start view)).mempool (es.foldl poolStep (.start view)).pcoinsTip
      t := by
  have hpool := pool_unmined hknows
  exact ((building_start hpool _).all hpool h).taken

end

/-! ## A collateral and three redemptions, for example -/

def minerNode : CMinerNode Nat :=
  { poolNode with
    zero := 0
    less := fun a b => a < b
    same := fun a b => a = b
    dPriority := fun tx _ => 1000 - tx.hash.toNat
    AllowFreeAt := fun _ => true
    noPriorityDelta := fun _ => true
    nFeeDelta := fun _ => 0
    IsFinalTx := fun _ _ => true
    minRelayTxFee := ⟨10000⟩
    blockmaxsize := 750000
    blockprioritysize := 50000
    blockminsize := 0 }

def richCoin : CCoinsView where
  coins txid := if txid = 7 then ⟨false, false, [⟨2600 * COIN, []⟩], 5, 1⟩ else .null
  hashBlock := 100

/-- The collateral of a prosperitynode is burnt: it is in no output. -/
def burnt : CTransaction := ⟨310, 1, [⟨⟨7, 0⟩, [], 0⟩], [⟨100 * COIN - 20000, [1]⟩], 0⟩

def redeems (hash : uint256) (serials : List UInt8) : CTransaction :=
  ⟨hash, 1, serials.map fun k => ⟨.SetNull, [OP_ZEROCOINSPEND, k, 0], 1⟩, [⟨COIN, [1]⟩], 0⟩

/-- The second one shares a serial with the first and one with the third. -/
def fullPool : List PoolEvent :=
  [burnt, redeems 401 [1], redeems 402 [2, 1], redeems 403 [2]].map fun tx =>
    .accept poolNode tx false false false

def shorterPool : List PoolEvent :=
  [burnt, redeems 401 [1], redeems 403 [2]].map fun tx => .accept poolNode tx false false false

/-- The hashes and the recorded fees of a block over such a pool. -/
def takenFrom (es : List PoolEvent) : Option (List uint256 × List CAmount) :=
  (CreateNewBlock minerNode .sorted (es.foldl poolStep (.start richCoin)).mempool
    (es.foldl poolStep (.start richCoin)).pcoinsTip).map fun t =>
      (t.vtx.map CTransaction.hash, t.vTxFees)

theorem richCoin_finds (pool : CTxMemPool) : FindsCoins poolNode pool richCoin := by
  intro txid _ hcoin
  show (if txid = 7 then some (5 : Int) else none).isSome = true
  split_ifs with heq
  · rfl
  · have hnone : richCoin.coins txid = .null := if_neg heq
    rw [hnone] at hcoin
    cases hcoin

theorem offers_know (txs : List CTransaction) {s : PoolState} (hs : s.pcoinsTip = richCoin) :
    Run.Guarded poolStep KnowsChain s
      (txs.map fun tx => .accept poolNode tx false false false) := by
  induction txs generalizing s with
  | nil => exact Run.guarded_nil s
  | cons tx txs ih =>
    refine ⟨?_, ih ?_⟩
    · show FindsCoins poolNode s.mempool s.pcoinsTip
      rw [hs]
      exact richCoin_finds _
    · rw [poolStep]
      split
      · exact hs
      · exact hs

theorem fullPool_taken : ∃ t, CreateNewBlock minerNode .sorted
      (fullPool.foldl poolStep (.start richCoin)).mempool
      (fullPool.foldl poolStep (.start richCoin)).pcoinsTip = some t ∧
    t.vtx.map CTransaction.hash = [310, 401] ∧
    Taken minerNode (fullPool.foldl poolStep (.start richCoin)).mempool
      (fullPool.foldl poolStep (.start richCoin)).pcoinsTip t := by
  have htaken : takenFrom fullPool = some ([310, 401], [20000, 0]) := by decide +kernel
  obtain ⟨t, ht, heq⟩ := Option.map_eq_some_iff.mp htaken
  exact ⟨t, ht, (Prod.mk.inj heq).1,
    CreateNewBlock_takes minerNode .sorted richCoin fullPool (offers_know _ rfl) t ht⟩

/-- **The fee of the collateral is not recorded whole, and the serial of a redemption that is left
out keeps another one out.** -/
theorem CreateNewBlock_not_own_fee :
    ¬ (∀ (view : CCoinsView) (es : List PoolEvent),
        Run.Guarded poolStep KnowsChain (.start view) es → ∀ t,
        CreateNewBlock minerNode .sorted (es.foldl poolStep (.start view)).mempool
          (es.foldl poolStep (.start view)).pcoinsTip = some t →
        t.vTxFees = t.vtx.map fun tx =>
          (CCoinsViewMemPool (es.foldl poolStep (.start view)).pcoinsTip
            (es.foldl poolStep (.start view)).mempool).GetValueIn tx - tx.GetValueOut) ∧
      (fullPool.foldl poolStep (.start richCoin)).mempool.contains 403 = true ∧
      takenFrom fullPool = some ([310, 401], [20000, 0]) ∧
      takenFrom shorterPool = some ([310, 401, 403], [20000, 0, 0]) := by
  refine ⟨fun hall => ?_, by decide +kernel, by decide +kernel, by decide +kernel⟩
  have hfees : (CreateNewBlock minerNode .sorted
      (fullPool.foldl poolStep (.start richCoin)).mempool
      (fullPool.foldl poolStep (.start richCoin)).pcoinsTip).map (fun t => (t.vTxFees,
        t.vtx.map fun tx => (CCoinsViewMemPool (fullPool.foldl poolStep (.start richCoin)).pcoinsTip
          (fullPool.foldl poolStep (.start richCoin)).mempool).GetValueIn tx - tx.GetValueOut)) =
      some ([20000, 0], [2500 * COIN + 20000, 0]) := by
    decide +kernel
  obtain ⟨t, ht, heq⟩ := Option.map_eq_some_iff.mp hfees
  obtain ⟨hrecorded, hown⟩ := Prod.mk.inj heq
  have hsame := hall richCoin fullPool (offers_know _ rfl) t ht
  rw [hrecorded, hown] at hsame
  exact absurd hsame (by decide)

end Divitae
