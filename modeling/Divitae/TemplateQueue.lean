/-
# `TemplateQueue` — a transaction comes to the front once

    waiting     the transactions of the orphans that still wait for others
    inLine      the queue, and behind it what waits

A round takes one transaction out of the line and moves some from the orphans to the queue.  So no
transaction is there twice, nor in the line and in the block (`Lined`), and a loop with as many
rounds as there are transactions in line runs its queue empty (`Lined.done`).
-/
import Divitae.TemplateCoins

namespace Divitae

open CTxMemPool List Bool COrphan CTransaction

variable {Double : Type}

/-! ## The orphans that wait -/

def waiting (vOrphan : List (COrphan Double)) : List CTransaction :=
  (vOrphan.filter fun porphan => !porphan.setDependsOn.isEmpty).map COrphan.ptx

theorem waiting_sublist (vOrphan : List (COrphan Double)) :
    List.Sublist (waiting vOrphan) (vOrphan.map ptx) :=
  filter_sublist.map ptx

theorem waiting_append (l l' : List (COrphan Double)) :
    waiting (l ++ l') = waiting l ++ waiting l' := by
  unfold waiting
  rw [filter_append, map_append]

section
variable {N : CMinerNode Double} {H : Heaps (TxPriority Double)} {byFee : Bool} {hash id : uint256}

/-- What is queued and what waits, together. -/
def inLine (q : List (COrphan Double) × List (TxPriority Double)) : List CTransaction :=
  q.2.map TxPriority.tx ++ waiting q.1

section
variable {q : List (COrphan Double) × List (TxPriority Double)}
  (hapart : (q.1.map fun o => o.ptx.hash).Nodup)
include hapart

theorem releaseOrphan_inLine :
    (releaseOrphan N H byFee hash q id).1.map ptx = q.1.map ptx ∧
      (inLine (releaseOrphan N H byFee hash q id)).Perm (inLine q) := by
  unfold releaseOrphan
  split
  · exact ⟨rfl, List.Perm.refl _⟩
  next porphan hfind =>
    split
    · exact ⟨rfl, List.Perm.refl _⟩
    next hwaits =>
      obtain ⟨hid, before, after, hsplit, hbefore⟩ := List.find?_eq_some_iff_append.mp hfind
      have hid : porphan.ptx.hash = id := beq_iff_eq.mp hid
      obtain ⟨orphans, queue⟩ := q
      dsimp only at hsplit hapart ⊢
      subst hsplit
      generalize hdeps : porphan.setDependsOn.erase hash = deps
      -- no other orphan has the id
      have hsame : ∀ l : List (COrphan Double), (∀ o ∈ l, o.ptx.hash ≠ id) →
          (l.map fun o => if o.ptx.hash = id then { o with setDependsOn := deps } else o) = l := by
        intro l hl
        refine (map_congr_left fun o ho => if_neg (hl o ho)).trans (map_id l)
      have hfirst : ∀ o ∈ before, o.ptx.hash ≠ id := by
        intro o ho heq
        have hnot := hbefore o ho
        rw [heq, beq_self_eq_true] at hnot
        cases hnot
      have hlast : ∀ o ∈ after, o.ptx.hash ≠ id := by
        intro o ho heq
        rw [map_append, map_cons] at hapart
        have hnot := (nodup_cons.mp (nodup_append'.mp hapart).2.1).1
        exact hnot (mem_map.mpr ⟨o, ho, heq.trans hid.symm⟩)
      rw [map_append, map_cons, hsame before hfirst, hsame after hlast, if_pos hid]
      have hwas : waiting (porphan :: after) = porphan.ptx :: waiting after := by
        unfold waiting
        rw [filter_cons, if_pos (by simpa using hwaits), map_cons]
      refine ⟨by rw [map_append, map_cons, map_append, map_cons], ?_⟩
      unfold inLine
      rw [waiting_append, waiting_append, hwas]
      cases hempty : deps.isEmpty with
      | false =>
        have hstill : waiting ({ porphan with setDependsOn := deps } :: after) =
            porphan.ptx :: waiting after := by
          unfold waiting
          rw [filter_cons, if_pos (by rw [hempty]; rfl), map_cons]
        rw [hstill, if_neg Bool.false_ne_true]
      | true =>
        have hno : waiting ({ porphan with setDependsOn := deps } :: after) = waiting after := by
          unfold waiting
          rw [filter_cons, if_neg (by rw [hempty]; exact false_ne_true)]
        rw [hno, if_pos rfl]
        have hpush := (H.push_perm (TxPriorityCompare N byFee)
          (queue ++ [⟨porphan.dPriority, porphan.feeRate, porphan.ptx⟩])).map TxPriority.tx
        rw [map_append, map_singleton] at hpush
        refine (hpush.append_right _).trans ?_
        rw [append_assoc]
        refine List.Perm.append_left _ ?_
        rw [singleton_append]
        exact perm_middle.symm

theorem foldl_releaseOrphan_inLine (ids : List uint256) :
    (ids.foldl (releaseOrphan N H byFee hash) q).1.map ptx = q.1.map ptx ∧
      (inLine (ids.foldl (releaseOrphan N H byFee hash) q)).Perm (inLine q) := by
  induction ids generalizing q with
  | nil => exact ⟨rfl, List.Perm.refl _⟩
  | cons id ids ih =>
    obtain ⟨hptx, hline⟩ := @releaseOrphan_inLine Double N H byFee hash id q hapart
    have hhashes : ∀ l : List (COrphan Double),
        l.map (fun o => o.ptx.hash) = (l.map ptx).map CTransaction.hash := by
      intro l
      rw [map_map]
      rfl
    have hnext : ((releaseOrphan N H byFee hash q id).1.map fun o => o.ptx.hash).Nodup := by
      rw [hhashes, hptx, ← hhashes]
      exact hapart
    obtain ⟨hptx', hline'⟩ := ih hnext
    exact ⟨hptx'.trans hptx, hline'.trans hline⟩

end

end

/-! ## One round -/

/-- The transaction at the front is left out: nothing changes but the order of the queue, the rule
of that order and the serials that were looked at. -/
structure LeftOut (s s' : MinerState Double) : Prop where
  queue : s'.vecPriority.Perm s.vecPriority
  vOrphan : s'.vOrphan = s.vOrphan
  view : s'.view = s.view
  vtx : s'.vtx = s.vtx
  vTxFees : s'.vTxFees = s.vTxFees
  vTxSigOps : s'.vTxSigOps = s.vTxSigOps
  nBlockSize : s'.nBlockSize = s.nBlockSize
  nBlockSigOps : s'.nBlockSigOps = s.nBlockSigOps
  nFees : s'.nFees = s.nFees
  vTxSerials : s.vTxSerials <+: s'.vTxSerials

theorem LeftOut.refl (s : MinerState Double) : LeftOut s s :=
  ⟨List.Perm.refl _, rfl, rfl, rfl, rfl, rfl, rfl, rfl, rfl, prefix_refl _⟩

/-- What the transaction at the front has passed when it goes into the block. -/
structure Admitted (N : CMinerNode Double) (s mid : MinerState Double) (tx : CTransaction)
    (nTxSigOps : Nat) : Prop where
  left : LeftOut s mid
  room : s.nBlockSize + tx.ser.length < N.nBlockMaxSize
  counted : nTxSigOps = N.GetLegacySigOpCount tx + N.GetP2SHSigOpCount tx s.view
  sigOps : s.nBlockSigOps + nTxSigOps < MAX_BLOCK_SIGOPS_CURRENT
  inputs : s.view.HaveInputs tx = true
  /-- its serials are new and no two of them the same -/
  added : mid.vTxSerials = s.vTxSerials ++ tx.serials N.Z
  once : (tx.serials N.Z).Nodup
  fresh : ∀ k ∈ tx.serials N.Z, k ∉ s.vTxSerials

section
variable (N : CMinerNode Double) {H : Heaps (TxPriority Double)}

/-- The serials that inputs carry. -/
def spentSerials (vin : List CTxIn) : List Int :=
  (vin.filter fun txin => txin.scriptSig.IsZerocoinSpend).filterMap fun txin =>
    (N.Z.TxInToZerocoinSpend txin).map CoinSpend.coinSerialNumber

variable {tx : CTransaction}

theorem serials_eq_spentSerials (h : tx.IsZerocoinSpend = true) :
    tx.serials N.Z = spentSerials N tx.vin := by
  unfold serials coinSpends spentSerials
  rw [if_pos h, map_filterMap]
  refine filterMap_congr fun txin _ => ?_
  rw [Option.map_map]
  rfl

theorem serials_eq_nil (h : tx.IsZerocoinSpend = false) :
    tx.serials N.Z = [] := by
  unfold serials coinSpends
  rw [h]
  rfl

variable {N} {vBlockSerials : List Int}

theorem collectSerials_spec {vin : List CTxIn} {vTxSerials vTxSerials' : List Int}
    {fDoubleSerial : Bool}
    (h : collectSerials N vBlockSerials vin vTxSerials = some (fDoubleSerial, vTxSerials')) :
    vTxSerials <+: vTxSerials' ∧ (fDoubleSerial = false →
      vTxSerials' = vTxSerials ++ spentSerials N vin ∧ (spentSerials N vin).Nodup ∧
        ∀ k ∈ spentSerials N vin, k ∉ vTxSerials) := by
  induction vin generalizing vTxSerials with
  | nil =>
    cases h
    refine ⟨prefix_refl _, fun _ => ⟨(append_nil _).symm, nodup_nil, ?_⟩⟩
    exact nofun
  | cons txin vin ih =>
    rw [collectSerials] at h
    cases hscript : txin.scriptSig.IsZerocoinSpend with
    | false =>
      have hserials : spentSerials N (txin :: vin) = spentSerials N vin := by
        unfold spentSerials
        rw [filter_cons, if_neg (by rw [hscript]; exact Bool.false_ne_true)]
      rw [hscript] at h
      rw [hserials]
      exact ih h
    | true =>
      rw [hscript] at h
      cases hread : N.Z.TxInToZerocoinSpend txin with
      | none =>
        rw [hread] at h
        cases h
      | some spend =>
        have hserials : spentSerials N (txin :: vin) =
            spend.coinSerialNumber :: spentSerials N vin := by
          unfold spentSerials
          rw [filter_cons, if_pos hscript, filterMap_cons, hread]
          rfl
        rw [hread] at h
        simp only [Bool.not_true, Bool.false_eq_true, if_false] at h
        split_ifs at h with hrefused
        · cases h
          exact ⟨prefix_refl _, fun hno => Bool.noConfusion hno⟩
        · have hnew : spend.coinSerialNumber ∉ vTxSerials := by
            intro hmem
            refine hrefused ?_
            rw [contains_iff_mem.mpr hmem, Bool.or_true]
          obtain ⟨hgrows, hall⟩ := ih h
          refine ⟨(prefix_append _ _).trans hgrows, fun hfine => ?_⟩
          obtain ⟨hsum, hnodup, hfresh⟩ := hall hfine
          rw [hserials]
          refine ⟨?_, nodup_cons.mpr ⟨?_, hnodup⟩, ?_⟩
          · rw [hsum, append_assoc, singleton_append]
          · intro hmem
            exact hfresh _ hmem (mem_append_right _ (.head _))
          · intro k hk hmem
            rcases mem_cons.mp hk with rfl | hk
            · exact hnew hmem
            · exact hfresh k hk (mem_append_left _ hmem)

theorem checkDoubleSerial_spec {s : MinerState Double} {fDoubleSerial : Bool}
    {vTxSerials : List Int} (h : checkDoubleSerial N tx s = some (fDoubleSerial, vTxSerials)) :
    s.vTxSerials <+: vTxSerials ∧ (fDoubleSerial = false →
      vTxSerials = s.vTxSerials ++ tx.serials N.Z ∧ (tx.serials N.Z).Nodup ∧
        ∀ k ∈ tx.serials N.Z, k ∉ s.vTxSerials) := by
  unfold checkDoubleSerial at h
  cases hspend : tx.IsZerocoinSpend with
  | true =>
    rw [hspend, if_pos rfl] at h
    rw [serials_eq_spentSerials N hspend]
    split_ifs at h
    · cases h
      exact ⟨prefix_refl _, fun hno => Bool.noConfusion hno⟩
    · exact collectSerials_spec h
  | false =>
    rw [hspend, if_neg Bool.false_ne_true] at h
    cases h
    rw [serials_eq_nil N hspend]
    refine ⟨prefix_refl _, fun _ => ⟨(append_nil _).symm, nodup_nil, ?_⟩⟩
    exact nofun

theorem sortByFee_leftOut (dPriority : Double) (nTxSize : Nat) (s : MinerState Double) :
    LeftOut s (sortByFee N H dPriority nTxSize s) := by
  unfold sortByFee
  split
  · exact { LeftOut.refl s with queue := H.make_perm _ _ }
  · exact LeftOut.refl s

theorem sortByFee_vTxSerials (dPriority : Double) (nTxSize : Nat) (s : MinerState Double) :
    (sortByFee N H dPriority nTxSize s).vTxSerials = s.vTxSerials := by
  unfold sortByFee
  split <;> rfl

variable {mapDependers : uint256 → List uint256} {nHeight : Int} {front : TxPriority Double}

/-- **What becomes of the transaction at the front.** -/
theorem considerTx_cases {s s' : MinerState Double}
    (h : considerTx N H mapDependers nHeight front s = some s') :
    LeftOut s s' ∨ ∃ mid nTxSigOps, Admitted N s mid front.tx nTxSigOps ∧
      addToBlock N H mapDependers nHeight front.tx nTxSigOps mid = some s' := by
  have hsame : ∀ t : MinerState Double, LeftOut s t → some t = some s' → LeftOut s s' := by
    intro t ht heq
    rw [← Option.some.inj heq]
    exact ht
  unfold considerTx at h
  dsimp only at h
  split at h
  · exact .inl (hsame s (LeftOut.refl s) h)
  next hsize =>
  split at h
  · exact .inl (hsame s (LeftOut.refl s) h)
  split at h
  · exact .inl (hsame s (LeftOut.refl s) h)
  have hsorted : LeftOut s (sortByFee N H front.dPriority front.tx.ser.length s) :=
    sortByFee_leftOut _ _ s
  have hserials : (sortByFee N H front.dPriority front.tx.ser.length s).vTxSerials =
      s.vTxSerials := sortByFee_vTxSerials _ _ s
  generalize sortByFee N H front.dPriority front.tx.ser.length s = sorted at hsorted hserials h
  split at h
  · exact .inl (hsame _ hsorted h)
  next hinputs =>
  cases hcheck : checkDoubleSerial N front.tx sorted with
  | none =>
    rw [hcheck] at h
    cases h
  | some r =>
    obtain ⟨fDoubleSerial, vTxSerials⟩ := r
    obtain ⟨hgrows, hfine⟩ := checkDoubleSerial_spec hcheck
    have hleft : LeftOut s { sorted with vTxSerials } :=
      { hsorted with vTxSerials := hsorted.vTxSerials.trans hgrows }
    rw [hcheck] at h
    dsimp only at h
    split_ifs at h with hdouble hsigops hchecked
    · exact .inl (hsame _ hleft h)
    · exact .inl (hsame _ hleft h)
    · exact .inl (hsame _ hleft h)
    · obtain ⟨hadded, honce, hfresh⟩ := hfine (not_eq_true _ ▸ hdouble)
      rw [hsorted.view, hsorted.nBlockSigOps] at hsigops
      rw [hserials] at hadded hfresh
      refine .inr ⟨_, _, ⟨hleft, Nat.lt_of_not_le hsize, rfl, ?_, ?_, hadded, honce, hfresh⟩, ?_⟩
      · exact Nat.lt_of_not_le hsigops
      · rw [hsorted.view, not_eq_true', not_eq_false] at hinputs
        exact hinputs
      · rw [← h, hsorted.view]

end

section
variable {N : CMinerNode Double} {pool : CTxMemPool} {view : CCoinsView} {nHeight : Int}

def Candidates.txs (c : Candidates Double) : List CTransaction :=
  c.vecPriority.map TxPriority.tx ++ c.vOrphan.map COrphan.ptx

theorem addCandidate_txs (c : Candidates Double) (tx : CTransaction) :
    (addCandidate N pool view nHeight c tx).txs = c.txs ∨
      tx.IsCoinBase = false ∧ (addCandidate N pool view nHeight c tx).txs.Perm (tx :: c.txs) := by
  unfold addCandidate
  split
  · exact .inl rfl
  next hkind =>
  have hbase : tx.IsCoinBase = false := by
    rw [not_eq_true, or_eq_false_iff, or_eq_false_iff] at hkind
    exact hkind.1.1
  split
  · exact .inl rfl
  generalize scanInputs N pool view tx tx.vin ⟨none, c.mapDependers, 0⟩ = r
  obtain ⟨⟨porphan, deps, nTotalIn⟩, fMissingInputs⟩ := r
  have horphan : ∀ o : COrphan Double, o.ptx = tx →
      (c.vecPriority.map TxPriority.tx ++ (c.vOrphan ++ [o]).map ptx).Perm (tx :: c.txs) := by
    rintro o rfl
    rw [map_append, map_singleton, ← append_assoc]
    exact perm_append_singleton _ _
  dsimp only
  split
  · cases porphan with
    | none =>
      refine .inl ?_
      unfold Candidates.txs
      rw [Option.map_none, Option.toList_none, append_nil]
    | some deps => exact .inr ⟨hbase, horphan _ rfl⟩
  · cases porphan with
    | none =>
      refine .inr ⟨hbase, ?_⟩
      unfold Candidates.txs
      rw [map_append, map_singleton, append_assoc, singleton_append]
      exact perm_middle
    | some deps => exact .inr ⟨hbase, horphan _ rfl⟩

theorem foldl_addCandidate_txs (txs : List CTransaction) (c : Candidates Double) :
    List.Subperm (txs.foldl (addCandidate N pool view nHeight) c).txs (txs ++ c.txs) ∧
      ((∀ tx ∈ c.txs, tx.IsCoinBase = false) →
        ∀ tx ∈ (txs.foldl (addCandidate N pool view nHeight) c).txs, tx.IsCoinBase = false) := by
  induction txs generalizing c with
  | nil => exact ⟨List.Subperm.refl _, fun h => h⟩
  | cons tx txs ih =>
    obtain ⟨hsub, hkind⟩ := ih (addCandidate N pool view nHeight c tx)
    rcases @addCandidate_txs Double N pool view nHeight c tx with hsame | ⟨hbase, hperm⟩
    · rw [hsame] at hsub hkind
      exact ⟨hsub.trans (sublist_cons_self tx _).subperm, hkind⟩
    · refine ⟨?_, fun h => hkind fun t ht => ?_⟩
      · refine hsub.trans ?_
        refine ((List.Perm.append_left txs hperm).trans ?_).subperm
        exact perm_middle
      · rcases mem_cons.mp (hperm.subset ht) with rfl | ht
        · exact hbase
        · exact h t ht

theorem CTxMemPool.Unmined.hashes {tip : CCoinsView} (h : pool.Unmined tip) :
    (pool.txs.map hash).Nodup := by
  have hkeys : pool.txs.map hash = pool.mapTx.entries.map Sigma.fst := by
    unfold CTxMemPool.txs
    rw [map_map]
    refine map_congr_left fun e he => ?_
    exact (h e.1 e.2 (Keyed.mem_entries_iff.mp he)).1
  rw [hkeys]
  exact pool.mapTx.nodupKeys

end

/-! ## The queue and the block -/

/-- The transactions in line and those in the block are of the pool, and none is there twice. -/
structure Lined (pool : CTxMemPool) (s : MinerState Double) : Prop where
  mine : ∀ tx ∈ inLine (s.vOrphan, s.vecPriority), tx ∈ pool.txs ∧ tx.IsCoinBase = false
  once : (inLine (s.vOrphan, s.vecPriority) ++ s.vtx).Nodup
  orphans : (s.vOrphan.map fun o => o.ptx.hash).Nodup

section
variable {N : CMinerNode Double} {H : Heaps (TxPriority Double)} {pool : CTxMemPool}
  {tip : CCoinsView} {s s' mid : MinerState Double} {tx : CTransaction} {nTxSigOps : Nat}
  {mapDependers : uint256 → List uint256} {nHeight : Int}

theorem LeftOut.inLine (h : LeftOut s s') :
    (inLine (s'.vOrphan, s'.vecPriority)).Perm (inLine (s.vOrphan, s.vecPriority)) := by
  rw [h.vOrphan]
  exact (h.queue.map TxPriority.tx).append_right _

theorem Lined.leftOut (h : Lined pool s) (hleft : LeftOut s s') : Lined pool s' where
  mine tx htx := h.mine tx (hleft.inLine.subset htx)
  once := by
    rw [hleft.vtx]
    exact (hleft.inLine.append_right _).nodup_iff.mpr h.once
  orphans := by
    rw [hleft.vOrphan]
    exact h.orphans

theorem addToBlock_eq (h : addToBlock N H mapDependers nHeight tx nTxSigOps s = some s') :
    ∃ view vprevout, UpdateCoins tx s.view nHeight = some (view, vprevout) ∧
      s' =
        { s with
          vecPriority := ((mapDependers tx.hash).foldl
            (releaseOrphan N H s.fSortedByFee tx.hash) (s.vOrphan, s.vecPriority)).2
          vOrphan := ((mapDependers tx.hash).foldl
            (releaseOrphan N H s.fSortedByFee tx.hash) (s.vOrphan, s.vecPriority)).1
          view
          vtx := s.vtx ++ [tx]
          vTxFees := s.vTxFees ++ [recordedFee s.view tx]
          vTxSigOps := s.vTxSigOps ++ [nTxSigOps]
          nBlockSize := s.nBlockSize + tx.ser.length
          nBlockSigOps := s.nBlockSigOps + nTxSigOps
          nFees := Wrap.wrap64 (s.nFees + recordedFee s.view tx)
          vBlockSerials := s.vBlockSerials ++ s.vTxSerials } := by
  unfold addToBlock at h
  split at h
  · cases h
  next view vprevout hup => exact ⟨view, vprevout, hup, (Option.some.inj h).symm⟩

theorem inLine_front {rest : List (TxPriority Double)}
    (hfront : s.vecPriority.Perm (front :: rest)) :
    (inLine (s.vOrphan, s.vecPriority)).Perm (front.tx :: inLine (s.vOrphan, rest)) := by
  exact (hfront.map TxPriority.tx).append_right _

theorem addToBlock_inLine (horphans : (s.vOrphan.map fun o => o.ptx.hash).Nodup)
    (h : addToBlock N H mapDependers nHeight tx nTxSigOps s = some s') :
    s'.vOrphan.map ptx = s.vOrphan.map ptx ∧
      (inLine (s'.vOrphan, s'.vecPriority)).Perm (inLine (s.vOrphan, s.vecPriority)) := by
  obtain ⟨view, vprevout, -, rfl⟩ := addToBlock_eq h
  exact foldl_releaseOrphan_inLine (q := (s.vOrphan, s.vecPriority)) horphans _

/-- **One round takes one transaction out of the line.** -/
theorem Lined.next (h : Lined pool s) (hnext : selectNext N H mapDependers nHeight s = some s') :
    Lined pool s' ∧ (s.vecPriority = [] ∧ s' = s ∨
      (inLine (s'.vOrphan, s'.vecPriority)).length + 1 =
        (inLine (s.vOrphan, s.vecPriority)).length) := by
  unfold selectNext at hnext
  cases hfront : H.takeFront (TxPriorityCompare N s.fSortedByFee) s.vecPriority with
  | none =>
    rw [hfront] at hnext
    cases hnext
    exact ⟨h, .inl ⟨Heaps.takeFront_eq_none.mp hfront, rfl⟩⟩
  | some r =>
    obtain ⟨front, rest⟩ := r
    rw [hfront] at hnext
    have hline := inLine_front (s := s) (Heaps.takeFront_perm hfront)
    have honce := (hline.append_right s.vtx).nodup_iff.mp h.once
    rw [cons_append] at honce
    have hrest : Lined pool { s with vecPriority := rest } :=
      ⟨fun tx htx => h.mine tx (hline.symm.subset (.tail _ htx)),
        (nodup_cons.mp honce).2, h.orphans⟩
    have hlength := hline.length_eq
    rw [length_cons] at hlength
    rcases considerTx_cases hnext with hleft | ⟨mid, nTxSigOps, hadmitted, hadd⟩
    · refine ⟨hrest.leftOut hleft, .inr ?_⟩
      rw [hleft.inLine.length_eq, hlength]
    · have hmid := hrest.leftOut hadmitted.left
      obtain ⟨hptx, hmoved⟩ := addToBlock_inLine hmid.orphans hadd
      refine ⟨⟨fun tx htx => hmid.mine tx (hmoved.subset htx), ?_, ?_⟩, .inr ?_⟩
      · have hvtx : s'.vtx = mid.vtx ++ [front.tx] := by
          obtain ⟨view, vprevout, -, rfl⟩ := addToBlock_eq hadd
          rfl
        rw [hvtx, hadmitted.left.vtx, (hmoved.append_right _).nodup_iff,
          (hadmitted.left.inLine.append_right _).nodup_iff, ← append_assoc]
        exact (perm_append_singleton _ _).nodup_iff.mpr honce
      · have hhashes : ∀ l : List (COrphan Double),
            l.map (fun o => o.ptx.hash) = (l.map ptx).map hash := by
          intro l
          rw [map_map]
          rfl
        rw [hhashes, hptx, ← hhashes]
        exact hmid.orphans
      · rw [hmoved.length_eq, hadmitted.left.inLine.length_eq, hlength]

/-- With as many rounds as there are transactions in line the queue runs empty. -/
theorem Lined.done {rounds : Nat} (h : Lined pool s)
    (hrounds : (inLine (s.vOrphan, s.vecPriority)).length ≤ rounds)
    (hall : selectAll N H mapDependers nHeight rounds s = some s') : s'.vecPriority = [] := by
  induction rounds generalizing s with
  | zero =>
    obtain rfl := Option.some.inj hall
    have hnone : inLine (s.vOrphan, s.vecPriority) = [] :=
      List.eq_nil_of_length_eq_zero (Nat.le_zero.mp hrounds)
    exact List.map_eq_nil_iff.mp (List.append_eq_nil_iff.mp hnone).1
  | succ rounds ih =>
    obtain ⟨next, hnext, hrest⟩ := Option.bind_eq_some_iff.mp hall
    obtain ⟨hlined, ⟨hempty, rfl⟩ | hless⟩ := h.next hnext
    · -- nothing changes any more
      have hstays : ∀ rounds, selectAll N H mapDependers nHeight rounds next = some next := by
        intro rounds
        induction rounds with
        | zero => rfl
        | succ rounds ih' => rw [selectAll, hnext, Option.bind_some, ih']
      rw [hstays] at hrest
      rw [← Option.some.inj hrest]
      exact hempty
    · exact ih hlined (by omega) hrest

theorem lined_start (hpool : pool.Unmined tip) (view : CCoinsView) :
    Lined pool (MinerState.start N H
      (pool.txs.foldl (addCandidate N pool view nHeight) ⟨[], fun _ => [], []⟩) tip) := by
  obtain ⟨hsub, hkind⟩ := @foldl_addCandidate_txs Double N pool view nHeight pool.txs
    ⟨[], fun _ => [], []⟩
  generalize pool.txs.foldl (addCandidate N pool view nHeight) ⟨[], fun _ => [], []⟩ = c
    at hsub hkind ⊢
  have hsub : List.Subperm c.txs pool.txs := (append_nil pool.txs) ▸ hsub
  have hline : List.Subperm (inLine ((MinerState.start N H c tip).vOrphan,
      (MinerState.start N H c tip).vecPriority)) c.txs := by
    refine ((((H.make_perm _ _).map TxPriority.tx).append_right _).subperm).trans ?_
    exact ((List.Sublist.refl _).append (waiting_sublist c.vOrphan)).subperm
  have hnodup : ∀ {l : List CTransaction}, List.Subperm l pool.txs →
      (l.map hash).Nodup := by
    intro l hl
    obtain ⟨w, hperm, hsublist⟩ := hl
    exact (hperm.map _).nodup_iff.mp ((hsublist.map _).nodup hpool.hashes)
  refine ⟨fun tx htx => ?_, ?_, ?_⟩
  · refine ⟨(hline.trans hsub).subset htx, hkind ?_ tx (hline.subset htx)⟩
    exact nofun
  · show (_ ++ []).Nodup
    rw [append_nil]
    exact List.Nodup.of_map _ (hnodup (hline.trans hsub))
  · have horphans : List.Subperm (c.vOrphan.map ptx) pool.txs :=
      ((sublist_append_right _ _).subperm).trans hsub
    have hhashes := hnodup horphans
    rw [map_map] at hhashes
    exact hhashes

end

end Divitae
