/-
# `MemPoolLinks` — the maps of the pool fit together

    WellLinked      `mapNextTx` holds the inputs of the ordinary transactions and no others, and
                the total is that of the entries
    Thins P Q   `Q` is `P` without some transactions and all that depends on them

`WellLinked` is kept by every operation, as long as the zerocoin spends stay apart from the
ordinary transactions: `remove` erases what a zerocoin spend names from `mapNextTx`, though
`addUnchecked` never entered it.
-/
import Divitae.Lib.Keyed
import Divitae.MemPool
import Mathlib.Data.UInt

namespace Divitae

open List

/-- No zerocoin spend among the transactions names an output that an ordinary one takes. -/
def Apart (txs : List CTransaction) : Prop :=
  ∀ z ∈ txs, z.IsZerocoinSpend = true → ∀ tx ∈ txs, tx.IsZerocoinSpend = false →
    ∀ txin ∈ tx.vin, txin.prevout ∉ z.vin.map CTxIn.prevout

theorem Apart.mono {txs txs' : List CTransaction} (h : Apart txs) (hsub : ∀ tx ∈ txs', tx ∈ txs) :
    Apart txs' :=
  fun z hz hspend tx htx => h z (hsub z hz) hspend tx (hsub tx htx)

namespace CTxMemPool

variable {pool pool' : CTxMemPool} {hash : uint256} {entry : CTxMemPoolEntry}
  {tx : CTransaction} {removed : List CTransaction} {fRecursive : Bool}

theorem mem_txs : tx ∈ pool.txs ↔
    ∃ hash entry, pool.mapTx.lookup hash = some entry ∧ entry.tx = tx := by
  constructor
  · intro h
    obtain ⟨⟨hash, entry⟩, hmem, rfl⟩ := mem_map.mp h
    exact ⟨hash, entry, Keyed.mem_entries_iff.mp hmem, rfl⟩
  · rintro ⟨hash, entry, hlook, rfl⟩
    exact mem_map.mpr ⟨⟨hash, entry⟩, Keyed.mem_entries_iff.mpr hlook, rfl⟩

/-! ## The links -/

/-- Input `inpoint.n` of the ordinary transaction `inpoint.ptx` takes `out`. -/
def Takes (pool : CTxMemPool) (inpoint : CInPoint) (out : COutPoint) : Prop :=
  ∃ entry, pool.mapTx.lookup inpoint.ptx = some entry ∧ entry.tx.IsZerocoinSpend = false ∧
    ∃ txin, entry.tx.vin[inpoint.n]? = some txin ∧ txin.prevout = out

structure WellLinked (pool : CTxMemPool) : Prop where
  named : ∀ {hash entry}, pool.mapTx.lookup hash = some entry → entry.tx.hash = hash
  next : ∀ {out inpoint}, pool.mapNextTx.lookup out = some inpoint ↔ pool.Takes inpoint out
  apart : Apart pool.txs
  total : pool.totalTxSize = (pool.mapTx.entries.map fun e => e.2.GetTxSize).sum

theorem linked_empty : WellLinked empty where
  named h := nomatch h
  next {out inpoint} := by
    constructor
    · intro h
      cases h
    · rintro ⟨entry, h, -⟩
      cases h
  apart z hz := nomatch hz
  total := rfl

/-- `pool'` has no other transactions. -/
def Sub (pool' pool : CTxMemPool) : Prop :=
  ∀ hash entry, pool'.mapTx.lookup hash = some entry → pool.mapTx.lookup hash = some entry

theorem Sub.txs (h : Sub pool' pool) : ∀ tx ∈ pool'.txs, tx ∈ pool.txs := by
  intro tx htx
  obtain ⟨hash, entry, hlook, hentry⟩ := mem_txs.mp htx
  exact mem_txs.mpr ⟨hash, entry, h hash entry hlook, hentry⟩

variable {out : COutPoint}

theorem Sub.takes {inpoint : CInPoint} (h : Sub pool' pool)
    (htakes : pool'.Takes inpoint out) : pool.Takes inpoint out := by
  obtain ⟨entry, hlook, hrest⟩ := htakes
  exact ⟨entry, h _ entry hlook, hrest⟩

variable {txin : CTxIn}

theorem WellLinked.entered (h : WellLinked pool) (hlook : pool.mapTx.lookup hash = some entry)
    (hspend : entry.tx.IsZerocoinSpend = false) {n : Nat}
    (hin : entry.tx.vin[n]? = some txin) : pool.mapNextTx.lookup txin.prevout = some ⟨hash, n⟩ :=
  h.next.mpr ⟨entry, hlook, hspend, txin, hin, rfl⟩

theorem WellLinked.unique (h : WellLinked pool) {inpoint inpoint' : CInPoint}
    (hin : pool.Takes inpoint out) (hin' : pool.Takes inpoint' out) : inpoint = inpoint' :=
  Option.some.inj ((h.next.mpr hin).symm.trans (h.next.mpr hin'))

variable {other : uint256}

theorem lookup_eraseTx :
    (pool.eraseTx hash entry).mapTx.lookup other =
      if other = hash then none else pool.mapTx.lookup other := by
  split_ifs with heq
  · rw [heq]
    exact AList.lookup_erase hash pool.mapTx
  · exact AList.lookup_erase_ne heq

theorem eraseTx_sub : Sub (pool.eraseTx hash entry) pool := by
  intro other entry' h
  rw [lookup_eraseTx] at h
  split_ifs at h
  exact h

theorem eraseTx_linked (h : WellLinked pool) (hlook : pool.mapTx.lookup hash = some entry) :
    WellLinked (pool.eraseTx hash entry) where
  named hother := h.named (eraseTx_sub _ _ hother)
  next {out inpoint} := by
    show (Keyed.eraseAll CTxIn.prevout entry.tx.vin pool.mapNextTx).lookup out = _ ↔ _
    rw [Keyed.lookup_eraseAll_eq_some, h.next]
    constructor
    · rintro ⟨hnot, other, hother, hspend, txin, hin, hout⟩
      refine ⟨other, ?_, hspend, txin, hin, hout⟩
      rw [lookup_eraseTx, if_neg ?_]
      · exact hother
      · intro heq
        rw [heq, hlook] at hother
        cases hother
        exact hnot (hout ▸ mem_map_of_mem (mem_of_getElem? hin))
    · intro htakes
      refine ⟨?_, eraseTx_sub.takes htakes⟩
      intro hmem
      obtain ⟨other, hother, hspend, txin, hin, hout⟩ := htakes
      obtain ⟨mine, hmine, heq⟩ := mem_map.mp hmem
      cases hz : entry.tx.IsZerocoinSpend with
      | true =>
        -- a zerocoin spend stays apart
        refine h.apart entry.tx (mem_txs.mpr ⟨hash, entry, hlook, rfl⟩) hz other.tx
          (mem_txs.mpr ⟨inpoint.ptx, other, eraseTx_sub _ _ hother, rfl⟩) hspend txin
          (mem_of_getElem? hin) ?_
        rw [hout]
        exact hmem
      | false =>
        -- an ordinary transaction shares no output
        obtain ⟨k, hk⟩ := List.getElem?_of_mem hmine
        have hsame : (⟨hash, k⟩ : CInPoint) = inpoint :=
          h.unique ⟨entry, hlook, hz, mine, hk, heq⟩
            ⟨other, eraseTx_sub _ _ hother, hspend, txin, hin, hout⟩
        rw [lookup_eraseTx, ← hsame, if_pos rfl] at hother
        cases hother
  apart := h.apart.mono eraseTx_sub.txs
  total := by
    have hsum := Keyed.sum_erase (fun e => e.2.GetTxSize) hlook
    show pool.totalTxSize - entry.GetTxSize = ((pool.mapTx.erase hash).entries.map _).sum
    rw [h.total, hsum]
    exact add_sub_cancel_left _ _

/-! ## One transaction more -/

theorem lookup_addUnchecked :
    (pool.addUnchecked hash entry).mapTx.lookup other =
      if other = hash then some entry else pool.mapTx.lookup other := by
  split_ifs with heq
  · rw [heq]
    exact AList.lookup_insert pool.mapTx
  · exact AList.lookup_insert_ne heq

theorem enterInputs_eq_some {vin : List CTxIn} {m : AList fun _ : COutPoint => CInPoint}
    (hdistinct : (vin.map CTxIn.prevout).Nodup) (hfree : ∀ txin ∈ vin, m.lookup txin.prevout = none)
    {inpoint : CInPoint} :
    (enterInputs hash vin.zipIdx m).lookup out = some inpoint ↔ m.lookup out = some inpoint ∨
      inpoint.ptx = hash ∧ ∃ txin, vin[inpoint.n]? = some txin ∧ txin.prevout = out := by
  have hkeys : (vin.zipIdx.map fun txin => txin.1.prevout) = vin.map CTxIn.prevout := by
    have hfst := congrArg (List.map CTxIn.prevout) (zipIdx_map_fst 0 vin)
    rwa [map_map] at hfst
  have hnew : ∀ txin ∈ vin.zipIdx, m.lookup txin.1.prevout = none := by
    intro txin hin
    exact hfree txin.1 (mem_of_getElem? (mem_zipIdx_iff_getElem?.mp hin))
  show (Keyed.enterAll (fun txin : CTxIn × Nat => txin.1.prevout) (fun txin => ⟨hash, txin.2⟩)
    vin.zipIdx m).lookup out = some inpoint ↔ _
  rw [Keyed.lookup_enterAll_eq_some (hkeys ▸ hdistinct) hnew]
  refine or_congr Iff.rfl ?_
  constructor
  · rintro ⟨⟨txin, n⟩, hin, hout, rfl⟩
    exact ⟨rfl, txin, mem_zipIdx_iff_getElem?.mp hin, hout⟩
  · rintro ⟨rfl, txin, hin, hout⟩
    exact ⟨(txin, inpoint.n), mem_zipIdx_iff_getElem?.mpr hin, hout, rfl⟩

theorem addUnchecked_txs (hnew : pool.mapTx.lookup hash = none) :
    (pool.addUnchecked hash entry).txs = entry.tx :: pool.txs := by
  have hnot : hash ∉ pool.mapTx := AList.lookup_eq_none.mp hnew
  show ((pool.mapTx.insert hash entry).entries.map _) = _
  rw [AList.entries_insert_of_notMem hnot]
  rfl

theorem addUnchecked_linked (h : WellLinked pool) (hnew : pool.mapTx.lookup entry.tx.hash = none)
    (hfree : entry.tx.IsZerocoinSpend = false →
      ∀ txin ∈ entry.tx.vin, pool.mapNextTx.lookup txin.prevout = none)
    (hdistinct : entry.tx.IsZerocoinSpend = false → (entry.tx.vin.map CTxIn.prevout).Nodup)
    (hapart : Apart (entry.tx :: pool.txs)) :
    WellLinked (pool.addUnchecked entry.tx.hash entry) where
  named {other e} hlook := by
    rw [lookup_addUnchecked] at hlook
    split_ifs at hlook with heq
    · cases hlook
      exact heq.symm
    · exact h.named hlook
  next {out inpoint} := by
    -- what the pool held before has another name
    have hbefore : pool.Takes inpoint out ↔ inpoint.ptx ≠ entry.tx.hash ∧
        (pool.addUnchecked entry.tx.hash entry).Takes inpoint out := by
      constructor
      · rintro ⟨e, hlook, hrest⟩
        have hother : inpoint.ptx ≠ entry.tx.hash := by
          intro heq
          rw [heq, hnew] at hlook
          cases hlook
        refine ⟨hother, e, ?_, hrest⟩
        rw [lookup_addUnchecked, if_neg hother]
        exact hlook
      · rintro ⟨hother, e, hlook, hrest⟩
        rw [lookup_addUnchecked, if_neg hother] at hlook
        exact ⟨e, hlook, hrest⟩
    have hmine : (pool.addUnchecked entry.tx.hash entry).mapTx.lookup entry.tx.hash =
      some entry := by
      rw [lookup_addUnchecked, if_pos rfl]
    cases hz : entry.tx.IsZerocoinSpend with
    | true =>
      have hmap : (pool.addUnchecked entry.tx.hash entry).mapNextTx = pool.mapNextTx := by
        rw [addUnchecked, hz]
        rfl
      rw [hmap, h.next, hbefore]
      refine ⟨fun h => h.2, fun htakes => ⟨?_, htakes⟩⟩
      intro heq
      obtain ⟨e, hlook, hspend, -⟩ := htakes
      rw [heq, hmine] at hlook
      cases hlook
      exact nomatch hz.symm.trans hspend
    | false =>
      have hmap : (pool.addUnchecked entry.tx.hash entry).mapNextTx =
          enterInputs entry.tx.hash entry.tx.vin.zipIdx pool.mapNextTx := by
        rw [addUnchecked, hz]
        rfl
      rw [hmap, enterInputs_eq_some (hdistinct hz) (hfree hz), h.next, hbefore]
      constructor
      · rintro (⟨-, htakes⟩ | ⟨heq, hin⟩)
        · exact htakes
        · exact ⟨entry, heq ▸ hmine, hz, hin⟩
      · intro htakes
        rcases eq_or_ne inpoint.ptx entry.tx.hash with heq | hne
        · obtain ⟨e, hlook, -, hin⟩ := htakes
          rw [heq, hmine] at hlook
          cases hlook
          exact .inr ⟨heq, hin⟩
        · exact .inl ⟨hne, htakes⟩
  apart := by
    rw [addUnchecked_txs hnew]
    exact hapart
  total := by
    have hsum := Keyed.sum_insert (b := entry) (fun e => e.2.GetTxSize) hnew
    show pool.totalTxSize + entry.GetTxSize =
      ((pool.mapTx.insert entry.tx.hash entry).entries.map _).sum
    rw [h.total, hsum]
    exact add_comm _ _

theorem WellLinked.checkBut_iff (h : WellLinked pool) {aside : CTransaction → Bool}
    {pcoins : CCoinsView} :
    pool.checkBut aside pcoins = true ↔
      ∀ hash entry, pool.mapTx.lookup hash = some entry → aside entry.tx = false →
        ∀ txin ∈ entry.tx.vin.zipIdx, pool.checkTxIn pcoins hash txin = true := by
  have hnext : pool.mapNextTx.entries.all (fun e => pool.checkNextTx e.1 e.2) = true := by
    rw [all_eq_true]
    rintro ⟨out, inpoint⟩ hmem
    obtain ⟨entry, hlook, -, txin, hin, hout⟩ := h.next.mp (Keyed.mem_entries_iff.mp hmem)
    rw [checkNextTx, hlook]
    show (entry.tx.vin[inpoint.n]?).any _ = true
    rw [hin]
    exact beq_iff_eq.mpr hout
  have htotal : (pool.totalTxSize == (pool.mapTx.entries.map fun e => e.2.GetTxSize).sum) = true :=
    beq_iff_eq.mpr h.total
  rw [checkBut, hnext, htotal, Bool.and_true, Bool.and_true, all_eq_true]
  constructor
  · intro hall hash entry hlook haside
    have hone := hall ⟨hash, entry⟩ (Keyed.mem_entries_iff.mpr hlook)
    rw [haside, Bool.false_or] at hone
    exact all_eq_true.mp hone
  · rintro hall ⟨hash, entry⟩ hmem
    cases haside : aside entry.tx with
    | true => rfl
    | false =>
      exact all_eq_true.mpr (hall hash entry (Keyed.mem_entries_iff.mp hmem) haside)

/-- **A zerocoin spend in the pool is what `check` does not get over.** -/
theorem WellLinked.check_iff (h : WellLinked pool) {pcoins : CCoinsView} :
    pool.check pcoins = true ↔ pool.checkBut CTransaction.IsZerocoinSpend pcoins = true ∧
      ∀ tx ∈ pool.txs, tx.IsZerocoinSpend = false := by
  rw [check, h.checkBut_iff, h.checkBut_iff]
  constructor
  · intro hall
    refine ⟨fun hash entry hlook _ => hall hash entry hlook rfl, ?_⟩
    intro tx htx
    obtain ⟨hash, entry, hlook, rfl⟩ := mem_txs.mp htx
    cases hz : entry.tx.IsZerocoinSpend with
    | false => rfl
    | true =>
      -- its first input has no entry
      cases hvin : entry.tx.vin with
      | nil =>
        rw [CTransaction.IsZerocoinSpend, hvin] at hz
        cases hz
      | cons txin vin =>
        have hfirst : (txin, 0) ∈ entry.tx.vin.zipIdx := by
          rw [hvin]
          exact .head _
        have hcheck := hall hash entry hlook rfl (txin, 0) hfirst
        rw [checkTxIn, Bool.and_eq_true, beq_iff_eq] at hcheck
        obtain ⟨other, hother, hspend, -⟩ := h.next.mp hcheck.2
        obtain rfl := Option.some.inj (hlook.symm.trans hother)
        exact nomatch hz.symm.trans hspend
  · rintro ⟨hall, hnone⟩ hash entry hlook -
    exact hall hash entry hlook (hnone entry.tx (mem_txs.mpr ⟨hash, entry, hlook, rfl⟩))

/-! ## The loop of `remove` -/

variable {q : List uint256} {I : CTxMemPool → Prop}

theorem removeLoop_inv
    (herase : ∀ {pool hash entry}, pool.mapTx.lookup hash = some entry → I pool →
      I (pool.eraseTx hash entry)) (h : I pool) : I (removeLoop fRecursive pool q removed).1 := by
  fun_induction removeLoop fRecursive pool q removed with
  | case1 pool removed => exact h
  | case2 pool removed hash rest hlook ih => exact ih h
  | case3 pool removed hash rest entry hlook ih => exact ih (herase hlook h)

theorem removeLoop_sub : Sub (removeLoop fRecursive pool q removed).1 pool :=
  removeLoop_inv (I := fun left => Sub left pool)
    (fun _ h other e he => h other e (eraseTx_sub other e he)) fun _ _ h => h

theorem Sub.absent (h : Sub pool' pool) (hnone : pool.mapTx.lookup hash = none) :
    pool'.mapTx.lookup hash = none := by
  cases hlook : pool'.mapTx.lookup hash with
  | none => rfl
  | some entry =>
    rw [h hash entry hlook] at hnone
    cases hnone

theorem removeLoop_gone (hmem : hash ∈ q) :
    (removeLoop fRecursive pool q removed).1.mapTx.lookup hash = none := by
  fun_induction removeLoop fRecursive pool q removed with
  | case1 pool removed => exact nomatch hmem
  | case2 pool removed first rest hlook ih =>
    rcases mem_cons.mp hmem with rfl | hrest
    · exact removeLoop_sub.absent hlook
    · exact ih hrest
  | case3 pool removed first rest entry hlook ih =>
    rcases mem_cons.mp hmem with rfl | hrest
    · refine removeLoop_sub.absent ?_
      rw [lookup_eraseTx, if_pos rfl]
    · exact ih (mem_append_left _ hrest)

theorem mem_spenders
    (h : ∀ {out inpoint}, pool.Takes inpoint out → pool.mapNextTx.lookup out = some inpoint)
    (hlook : pool.mapTx.lookup hash = some entry)
    (hspend : entry.tx.IsZerocoinSpend = false) (hin : txin ∈ entry.tx.vin)
    {vout : List CTxOut} (hn : txin.prevout.n < vout.length) :
    hash ∈ pool.spenders txin.prevout.hash vout := by
  obtain ⟨k, hk⟩ := List.getElem?_of_mem hin
  refine List.mem_filterMap.mpr ⟨txin.prevout.n, List.mem_range.mpr hn, ?_⟩
  rw [@h txin.prevout ⟨hash, k⟩ ⟨entry, hlook, hspend, txin, hk, rfl⟩]
  rfl

def Closed (pool pool' : CTxMemPool) : Prop :=
  ∀ hash entry, pool'.mapTx.lookup hash = some entry → entry.tx.IsZerocoinSpend = false →
    ∀ txin ∈ entry.tx.vin, ∀ parent, pool.mapTx.lookup txin.prevout.hash = some parent →
      txin.prevout.n < parent.tx.vout.length →
      pool'.mapTx.lookup txin.prevout.hash = some parent

theorem removeLoop_closed {I : List uint256 → CTxMemPool → Prop}
    (hskip : ∀ {pool hash rest}, I (hash :: rest) pool → I rest pool)
    (herase : ∀ {pool hash rest entry}, pool.mapTx.lookup hash = some entry →
      I (hash :: rest) pool →
        I (rest ++ pool.spenders hash entry.tx.vout) (pool.eraseTx hash entry))
    (hentered : ∀ {pool q}, I q pool → ∀ {out inpoint}, pool.Takes inpoint out →
      pool.mapNextTx.lookup out = some inpoint) (h : I q pool) :
    I [] (removeLoop true pool q removed).1 ∧ Closed pool (removeLoop true pool q removed).1 := by
  generalize hrec : true = fRecursive
  fun_induction removeLoop fRecursive pool q removed with
  | case1 pool removed => exact ⟨h, fun _ _ _ _ _ _ _ hparent _ => hparent⟩
  | case2 pool removed first rest hlook ih => exact ih (hskip h)
  | case3 pool removed first rest entry hlook ih =>
    subst hrec
    obtain ⟨hkept, hclosed⟩ := ih (herase hlook h)
    refine ⟨hkept, ?_⟩
    intro hash child hchild hspend txin hin parent hparent hn
    refine hclosed hash child hchild hspend txin hin parent ?_ hn
    rw [lookup_eraseTx, if_neg ?_]
    · exact hparent
    · -- the children of the transaction that goes are to be removed
      intro heq
      rw [heq, hlook] at hparent
      cases hparent
      have hbefore : pool.mapTx.lookup hash = some child :=
        eraseTx_sub _ _ (removeLoop_sub _ _ hchild)
      have hfound := mem_spenders (hentered h) hbefore hspend hin hn
      rw [heq] at hfound
      have hgone := @removeLoop_gone (pool.eraseTx first entry) hash (removed ++ [entry.tx]) true
        (rest ++ pool.spenders first entry.tx.vout) (List.mem_append_right _ hfound)
      exact nomatch hgone.symm.trans hchild

/-! ## `remove` -/

theorem removeLoop_linked (h : WellLinked pool) :
    WellLinked (removeLoop fRecursive pool q removed).1 :=
  removeLoop_inv (fun hlook h => eraseTx_linked h hlook) h

/-- `pool'` is left of `pool` when some transactions go with all that depends on them. -/
structure Thins (pool pool' : CTxMemPool) : Prop where
  linked : WellLinked pool'
  sub : Sub pool' pool
  closed : Closed pool pool'

theorem Thins.refl (h : WellLinked pool) : Thins pool pool where
  linked := h
  sub _ _ h := h
  closed _ _ _ _ _ _ _ hparent _ := hparent

theorem Thins.trans {mid : CTxMemPool} (h : Thins pool mid) (h' : Thins mid pool') :
    Thins pool pool' where
  linked := h'.linked
  sub hash entry hlook := h.sub hash entry (h'.sub hash entry hlook)
  closed hash entry hlook hspend txin hin parent hparent hn :=
    have hmid := h.closed hash entry (h'.sub hash entry hlook) hspend txin hin parent hparent hn
    h'.closed hash entry hlook hspend txin hin parent hmid hn

theorem remove_sub : Sub (pool.remove tx removed fRecursive).1 pool := removeLoop_sub

theorem remove_gone : (pool.remove tx removed fRecursive).1.mapTx.lookup tx.hash = none :=
  removeLoop_gone mem_cons_self

theorem remove_thins (h : WellLinked pool) : Thins pool (pool.remove tx removed true).1 where
  linked := removeLoop_linked h
  sub := remove_sub
  closed := (removeLoop_closed (I := fun _ => WellLinked) id (fun hlook h => eraseTx_linked h hlook)
    (fun h => h.next.mpr) h).2

theorem remove_orphans (h : WellLinked pool) (habsent : pool.mapTx.lookup tx.hash = none)
    (hlook : (pool.remove tx removed true).1.mapTx.lookup hash = some entry)
    (hspend : entry.tx.IsZerocoinSpend = false) (hin : txin ∈ entry.tx.vin)
    (hhash : txin.prevout.hash = tx.hash) : tx.vout.length ≤ txin.prevout.n := by
  by_contra hn
  have hfound := mem_spenders h.next.mpr (remove_sub _ _ hlook) hspend hin (Nat.lt_of_not_le hn)
  have houtside : pool.contains tx.hash = false := by
    rw [contains, habsent]
    rfl
  have hgone : (pool.remove tx removed true).1.mapTx.lookup hash = none := by
    refine removeLoop_gone (.tail _ ?_)
    rw [houtside, ← hhash]
    exact hfound
  exact nomatch hgone.symm.trans hlook

theorem lookup_remove_single :
    (pool.remove tx removed false).1.mapTx.lookup other =
      if other = tx.hash then none else pool.mapTx.lookup other := by
  show (removeLoop false pool [tx.hash] removed).1.mapTx.lookup other = _
  rw [removeLoop]
  split
  · next hlook =>
      rw [removeLoop]
      split_ifs with heq
      · rw [heq]
        exact hlook
      · rfl
  · next entry hlook =>
      show (removeLoop false (pool.eraseTx tx.hash entry) [] _).1.mapTx.lookup other = _
      rw [removeLoop]
      exact lookup_eraseTx

/-! ## `removeConflicts` -/

variable {s : CTxMemPool × List CTransaction}

theorem removeConflict_inv
    (h : I s.1)
    (hremove : ∀ tx removed, I (s.1.remove tx removed true).1) :
    I (removeConflict tx s txin).1 := by
  rw [removeConflict]
  split
  · exact h
  · split
    · exact h
    · split
      · exact h
      · exact hremove _ _

theorem removeConflict_thins
    (h : WellLinked s.1) : Thins s.1 (removeConflict tx s txin).1 :=
  removeConflict_inv (.refl h) fun _ _ => remove_thins h

theorem thins_foldl (vin : List CTxIn) (h : WellLinked s.1) :
    Thins s.1 (vin.foldl (removeConflict tx) s).1 :=
  foldlRecOn vin _ (motive := Thins s.1 ∘ Prod.fst) (.refl h)
    fun _ hs _ _ => hs.trans (removeConflict_thins hs.linked)

theorem removeConflicts_thins (h : WellLinked pool) :
    Thins pool (pool.removeConflicts tx removed).1 :=
  thins_foldl tx.vin (s := (pool, removed)) h

theorem Sub.free (h : Sub pool' pool) (hlinked : WellLinked pool) (hlinked' : WellLinked pool')
    (hfree : pool.mapNextTx.lookup out = none) :
    pool'.mapNextTx.lookup out = none := by
  cases hnext : pool'.mapNextTx.lookup out with
  | none => rfl
  | some inpoint =>
    have hbefore := hlinked.next.mpr (h.takes (hlinked'.next.mp hnext))
    rw [hfree] at hbefore
    cases hbefore

theorem removeConflict_free (h : WellLinked s.1)
    (habsent : s.1.mapTx.lookup tx.hash = none) :
    (removeConflict tx s txin).1.mapNextTx.lookup txin.prevout = none := by
  rw [removeConflict]
  split
  · assumption
  · next inpoint hnext =>
      obtain ⟨conflict, hlook, hspend, taken, hin, hout⟩ := h.next.mp hnext
      rw [hlook]
      have hname : conflict.tx.hash = inpoint.ptx := h.named hlook
      have hother : conflict.tx.hash ≠ tx.hash := by
        intro heq
        rw [← hname, heq, habsent] at hlook
        cases hlook
      show (if conflict.tx.hash = tx.hash then s else s.1.remove conflict.tx s.2
        true).1.mapNextTx.lookup txin.prevout = none
      rw [if_neg hother]
      cases hleft : (s.1.remove conflict.tx s.2 true).1.mapNextTx.lookup txin.prevout with
      | none => rfl
      | some left =>
        have hthins : Thins s.1 (s.1.remove conflict.tx s.2 true).1 := remove_thins h
        have htakes := hthins.linked.next.mp hleft
        obtain rfl : left = inpoint := h.unique (hthins.sub.takes htakes) (h.next.mp hnext)
        obtain ⟨entry, hentry, -⟩ := htakes
        rw [← hname, remove_gone] at hentry
        cases hentry

theorem removeConflicts_free (h : WellLinked pool) (habsent : pool.mapTx.lookup tx.hash = none)
    (hin : txin ∈ tx.vin) :
    (pool.removeConflicts tx removed).1.mapNextTx.lookup txin.prevout = none := by
  have hfold : ∀ (vin : List CTxIn) (s : CTxMemPool × List CTransaction), WellLinked s.1 →
      s.1.mapTx.lookup tx.hash = none → txin ∈ vin →
      (vin.foldl (removeConflict tx) s).1.mapNextTx.lookup txin.prevout = none := by
    intro vin
    induction vin with
    | nil => exact nofun
    | cons first vin ih =>
      intro s hs hgone hmem
      have hfirst : Thins s.1 (removeConflict tx s first).1 := removeConflict_thins hs
      rcases mem_cons.mp hmem with rfl | hmem
      · have hrest : Thins (removeConflict tx s txin).1
            (vin.foldl (removeConflict tx) (removeConflict tx s txin)).1 :=
          thins_foldl vin hfirst.linked
        exact hrest.sub.free hfirst.linked hrest.linked (removeConflict_free hs hgone)
      · exact ih _ hfirst.linked (hfirst.sub.absent hgone) hmem
  exact hfold tx.vin (pool, removed) h habsent hin

/-- What `removeForBlock` leaves when the pool was linked. -/
structure Mined (pool : CTxMemPool) (vtx : List CTransaction) (pool' : CTxMemPool) : Prop where
  linked : WellLinked pool'
  sub : Sub pool' pool
  gone : ∀ tx ∈ vtx, pool'.mapTx.lookup tx.hash = none
  free : ∀ tx ∈ vtx, ∀ txin ∈ tx.vin, pool'.mapNextTx.lookup txin.prevout = none
  /-- a parent that is not left is of the block -/
  closed : ∀ hash entry, pool'.mapTx.lookup hash = some entry →
    entry.tx.IsZerocoinSpend = false → ∀ txin ∈ entry.tx.vin, ∀ parent,
      pool.mapTx.lookup txin.prevout.hash = some parent →
      txin.prevout.n < parent.tx.vout.length →
      pool'.mapTx.lookup txin.prevout.hash = some parent ∨ ∃ tx ∈ vtx, tx.hash = txin.prevout.hash

theorem removeMined_mined (h : WellLinked s.1) :
    Mined s.1 [tx] (removeMined s tx).1 := by
  have hone : WellLinked (s.1.remove tx [] false).1 := removeLoop_linked h
  have hthins : Thins (s.1.remove tx [] false).1 (removeMined s tx).1 := removeConflicts_thins hone
  refine ⟨hthins.linked, ?_, ?_, ?_, ?_⟩
  · intro hash entry hlook
    exact remove_sub _ _ (hthins.sub _ _ hlook)
  · intro t ht
    rw [mem_singleton.mp ht]
    exact hthins.sub.absent remove_gone
  · intro t ht txin hin
    obtain rfl := mem_singleton.mp ht
    exact removeConflicts_free hone remove_gone hin
  · intro hash entry hlook hspend txin hin parent hparent hn
    rcases eq_or_ne txin.prevout.hash tx.hash with heq | hne
    · exact .inr ⟨tx, mem_singleton_self tx, heq.symm⟩
    · refine .inl (hthins.closed hash entry hlook hspend txin hin parent ?_ hn)
      rw [lookup_remove_single, if_neg hne]
      exact hparent

theorem removeForBlock_mined (h : WellLinked pool) (vtx : List CTransaction) :
    Mined pool vtx (pool.removeForBlock vtx removed).1 := by
  have hfold : ∀ (vtx : List CTransaction) (s : CTxMemPool × List CTransaction), WellLinked s.1 →
      Mined s.1 vtx (vtx.foldl removeMined s).1 := by
    intro vtx
    induction vtx with
    | nil =>
      intro s hs
      refine ⟨hs, fun _ _ h => h, by simp, by simp, ?_⟩
      intro hash entry _ _ txin _ parent hparent _
      exact .inl hparent
    | cons tx vtx ih =>
      intro s hs
      have hfirst : Mined s.1 [tx] (removeMined s tx).1 := removeMined_mined hs
      have hrest := ih (removeMined s tx) hfirst.linked
      refine ⟨hrest.linked, ?_, ?_, ?_, ?_⟩
      · intro hash entry hlook
        exact hfirst.sub _ _ (hrest.sub _ _ hlook)
      · intro t ht
        rcases mem_cons.mp ht with rfl | ht
        · exact hrest.sub.absent (hfirst.gone t (mem_singleton_self t))
        · exact hrest.gone t ht
      · intro t ht txin hin
        rcases mem_cons.mp ht with rfl | ht
        · exact hrest.sub.free hfirst.linked hrest.linked
            (hfirst.free t (mem_singleton_self t) txin hin)
        · exact hrest.free t ht txin hin
      · intro hash entry hlook hspend txin hin parent hparent hn
        rcases hfirst.closed hash entry (hrest.sub _ _ hlook) hspend txin hin parent hparent hn
          with hmid | hmined
        · rcases hrest.closed hash entry hlook hspend txin hin parent hmid hn with hleft
          | ⟨t, ht, heq⟩
          · exact .inl hleft
          · exact .inr ⟨t, .tail _ ht, heq⟩
        · obtain ⟨t, ht, heq⟩ := hmined
          rw [mem_singleton.mp ht] at heq
          exact .inr ⟨tx, .head _, heq⟩
  exact hfold vtx (pool, removed) h

section
variable {P : CChainParams} {pcoins : CCoinsView} {cached : uint256 → Bool} {nMemPoolHeight : Int}

theorem removeCoinbaseSpends_inv (h : I pool)
    (hremove : ∀ pool tx, I pool → I (pool.remove tx [] true).1) :
    I (pool.removeCoinbaseSpends P pcoins cached nMemPoolHeight) :=
  List.foldlRecOn _ _ h fun pool hpool tx _ => hremove pool tx hpool

theorem removeCoinbaseSpends_sub :
    Sub (pool.removeCoinbaseSpends P pcoins cached nMemPoolHeight) pool :=
  removeCoinbaseSpends_inv (I := fun left => Sub left pool) (fun _ _ h => h)
    fun _ _ h hash entry hlook => h hash entry (remove_sub hash entry hlook)

theorem removeCoinbaseSpends_thins (h : WellLinked pool) :
    Thins pool (pool.removeCoinbaseSpends P pcoins cached nMemPoolHeight) :=
  removeCoinbaseSpends_inv (.refl h) fun _ _ hthins => hthins.trans (remove_thins hthins.linked)

end

end CTxMemPool

end Divitae
