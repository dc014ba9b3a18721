/-
# `ImmatureSpends` — what `removeCoinbaseSpends` takes out of the pool

When a block is disconnected, what spends a coin base or coin stake that is not mature any more is
to go, and what spends an output that is not there any more, each with all that depends on it.
The test of an input asks only

    a pool transaction of this hash        passed, whichever output is named
    AccessCoins returns NULL               removed
    a generated coin, and nMemPoolHeight - nHeight < COINBASE_MATURITY, unsigned
                                           removed

A zerocoin spend names no coin, so that it goes with every disconnected block
(`redemption_removed`).  And an output may be gone while the record of its transaction is there:
other outputs are left, or the cache still has the pruned record.

    removeCoinbaseSpends_from_seen   whatever goes is seen by the test, or depends on such
    removeCoinbaseSpends_closed      where no zerocoin spend is seen, all that depends on it goes
    removes_exactly_iff              when these are the transactions that are to go
-/
import Divitae.MemPoolRuns

namespace Divitae

namespace CTxMemPool

open List Relation.ReflTransGen

variable {pool mid pool' : CTxMemPool} {hash child : uint256} {entry : CTxMemPoolEntry}
  {tx : CTransaction} {removed : List CTransaction} {fRecursive : Bool} {q : List uint256}

/-- An ordinary transaction of the pool takes an output of another. -/
def Depends (pool : CTxMemPool) (hash child : uint256) : Prop :=
  ∃ entry parent, pool.mapTx.lookup child = some entry ∧ entry.tx.IsZerocoinSpend = false ∧
    pool.mapTx.lookup hash = some parent ∧
    ∃ txin ∈ entry.tx.vin, txin.prevout.hash = hash ∧ txin.prevout.n < parent.tx.vout.length

/-- In any number of steps. -/
def Descends (pool : CTxMemPool) : uint256 → uint256 → Prop := Relation.ReflTransGen pool.Depends

theorem Sub.descends (h : Sub mid pool) (hdesc : mid.Descends hash child) :
    pool.Descends hash child := by
  have hstep : ∀ a b, mid.Depends a b → pool.Depends a b := by
    rintro a b ⟨entry, parent, hentry, hspend, hparent, hin⟩
    exact ⟨entry, parent, h b entry hentry, hspend, h a parent hparent, hin⟩
  induction hdesc with
  | refl => exact refl
  | tail _ hlast ih => exact ih.tail (hstep _ _ hlast)

theorem Descends.eq_of_spend (h : pool.Descends hash child)
    (hlook : pool.mapTx.lookup child = some entry) (hspend : entry.tx.IsZerocoinSpend = true) :
    hash = child := by
  rcases cases_tail h with heq | ⟨mid, -, other, -, hother, hordinary, -⟩
  · exact heq.symm
  · obtain rfl := Option.some.inj (hlook.symm.trans hother)
    exact nomatch hspend.symm.trans hordinary

/-! ## Links, without regard to zerocoin spends -/

/-- Each transaction is under its hash, and `mapNextTx` has nothing but inputs of ordinary
transactions. -/
structure SoundLinks (pool : CTxMemPool) : Prop where
  named : ∀ {hash entry}, pool.mapTx.lookup hash = some entry → entry.tx.hash = hash
  next : ∀ {out inpoint}, pool.mapNextTx.lookup out = some inpoint → pool.Takes inpoint out

/-- And it has all of them. -/
structure FullLinks (pool : CTxMemPool) : Prop extends SoundLinks pool where
  entered : ∀ {out inpoint}, pool.Takes inpoint out → pool.mapNextTx.lookup out = some inpoint

theorem WellLinked.fullLinks (h : WellLinked pool) : FullLinks pool where
  named := h.named
  next := h.next.mp
  entered := h.next.mpr

theorem eraseTx_sound (h : SoundLinks pool) (hlook : pool.mapTx.lookup hash = some entry) :
    SoundLinks (pool.eraseTx hash entry) where
  named hother := h.named (eraseTx_sub _ _ hother)
  next {out inpoint} hnext := by
    obtain ⟨hnot, hbefore⟩ := Keyed.lookup_eraseAll_eq_some.mp
      (show (Keyed.eraseAll CTxIn.prevout entry.tx.vin pool.mapNextTx).lookup out = some inpoint
        from hnext)
    obtain ⟨other, hother, hspend, txin, hin, hout⟩ := h.next hbefore
    refine ⟨other, ?_, hspend, txin, hin, hout⟩
    rw [lookup_eraseTx, if_neg ?_]
    · exact hother
    · intro heq
      rw [heq, hlook] at hother
      cases hother
      exact hnot (hout ▸ mem_map_of_mem (mem_of_getElem? hin))

theorem eraseTx_full (h : FullLinks pool) (hlook : pool.mapTx.lookup hash = some entry)
    (hordinary : entry.tx.IsZerocoinSpend = false) : FullLinks (pool.eraseTx hash entry) where
  toSoundLinks := eraseTx_sound h.toSoundLinks hlook
  entered {out inpoint} htakes := by
    refine Keyed.lookup_eraseAll_eq_some.mpr ⟨?_, h.entered (eraseTx_sub.takes htakes)⟩
    intro hmem
    obtain ⟨mine, hmine, heq⟩ := mem_map.mp hmem
    obtain ⟨k, hk⟩ := List.getElem?_of_mem hmine
    have htaken : pool.Takes ⟨hash, k⟩ out := ⟨entry, hlook, hordinary, mine, hk, heq⟩
    have hfirst := h.entered htaken
    obtain rfl : ⟨hash, k⟩ = inpoint :=
      Option.some.inj (hfirst.symm.trans (h.entered (eraseTx_sub.takes htakes)))
    obtain ⟨other, hother, -⟩ := htakes
    rw [lookup_eraseTx, if_pos rfl] at hother
    cases hother

theorem depends_of_mem_spenders (h : SoundLinks mid) (hsub : Sub mid pool)
    (hlook : pool.mapTx.lookup hash = some entry)
    (hmem : child ∈ mid.spenders hash entry.tx.vout) : pool.Depends hash child := by
  obtain ⟨i, hi, hnext⟩ := mem_filterMap.mp hmem
  obtain ⟨inpoint, hinpoint, rfl⟩ := Option.map_eq_some_iff.mp hnext
  obtain ⟨other, hother, hordinary, txin, hin, hout⟩ := h.next hinpoint
  refine ⟨other, entry, hsub _ _ hother, hordinary, hlook, txin, mem_of_getElem? hin, ?_, ?_⟩
  · rw [hout]
  · rw [hout]
    exact mem_range.mp hi

/-! ## `remove` -/

/-- **What goes** was to go, or depends on such. -/
theorem removeLoop_from (h : SoundLinks pool) (hlook : pool.mapTx.lookup child = some entry)
    (hgone : (removeLoop fRecursive pool q removed).1.mapTx.lookup child = none) :
    ∃ hash ∈ q, pool.Descends hash child := by
  fun_induction removeLoop fRecursive pool q removed with
  | case1 pool removed =>
    rw [hlook] at hgone
    cases hgone
  | case2 pool removed first rest hfirst ih =>
    obtain ⟨hash, hmem, hdesc⟩ := ih h hlook hgone
    exact ⟨hash, .tail _ hmem, hdesc⟩
  | case3 pool removed first rest mine hfirst ih =>
    rcases eq_or_ne child first with rfl | hne
    · exact ⟨child, .head _, refl⟩
    · have hleft : (pool.eraseTx first mine).mapTx.lookup child = some entry := by
        rw [lookup_eraseTx, if_neg hne]
        exact hlook
      obtain ⟨hash, hmem, hdesc⟩ := ih (eraseTx_sound h hfirst) hleft hgone
      have hbefore := eraseTx_sub.descends hdesc
      rcases mem_append.mp hmem with hmem | hmem
      · exact ⟨hash, .tail _ hmem, hbefore⟩
      · -- one that takes an output of the first
        split_ifs at hmem
        · have hdepends := depends_of_mem_spenders h (fun _ _ h => h) hfirst hmem
          exact ⟨first, .head _, head hdepends hbefore⟩
        · cases hmem

theorem removeLoop_full (h : FullLinks pool)
    (hq : ∀ hash ∈ q, ∀ entry, pool.mapTx.lookup hash = some entry →
      entry.tx.IsZerocoinSpend = false) :
    FullLinks (removeLoop true pool q removed).1 ∧
      Closed pool (removeLoop true pool q removed).1 := by
  refine (removeLoop_closed (I := fun q pool => FullLinks pool ∧ ∀ hash ∈ q, ∀ entry,
    pool.mapTx.lookup hash = some entry → entry.tx.IsZerocoinSpend = false) ?_ ?_
    (fun h => h.1.entered) ⟨h, hq⟩).imp_left And.left
  · exact fun ⟨h, hq⟩ => ⟨h, fun hash hmem => hq hash (.tail _ hmem)⟩
  · intro pool first rest entry hlook ⟨h, hq⟩
    refine ⟨eraseTx_full h hlook (hq first (.head _) entry hlook), ?_⟩
    intro hash hmem e he
    have hbefore := eraseTx_sub _ _ he
    rcases mem_append.mp hmem with hmem | hmem
    · exact hq hash (.tail _ hmem) e hbefore
    · obtain ⟨other, -, hother, hspend, -⟩ :=
        depends_of_mem_spenders h.toSoundLinks (fun _ _ h => h) hlook hmem
      cases hbefore.symm.trans hother
      exact hspend

theorem remove_sound (h : SoundLinks pool) : SoundLinks (pool.remove tx removed fRecursive).1 :=
  removeLoop_inv (fun hlook h => eraseTx_sound h hlook) h

theorem remove_from (h : SoundLinks mid) (hsub : Sub mid pool)
    (htx : pool.mapTx.lookup tx.hash = some entry) (hentry : entry.tx = tx)
    {e : CTxMemPoolEntry} (hlook : mid.mapTx.lookup child = some e)
    (hgone : (mid.remove tx removed true).1.mapTx.lookup child = none) :
    pool.Descends tx.hash child := by
  obtain ⟨hash, hmem, hdesc⟩ := removeLoop_from h hlook hgone
  have hbefore := hsub.descends hdesc
  rcases mem_cons.mp hmem with rfl | hmem
  · exact hbefore
  · split_ifs at hmem
    · subst hentry
      exact head (depends_of_mem_spenders h hsub htx hmem) hbefore
    · exact nomatch hmem

theorem remove_full (h : FullLinks mid) (hordinary : tx.IsZerocoinSpend = false)
    (hmine : ∀ e, mid.mapTx.lookup tx.hash = some e → e.tx = tx) :
    FullLinks (mid.remove tx removed true).1 ∧ Closed mid (mid.remove tx removed true).1 := by
  refine removeLoop_full h ?_
  intro hash hmem e he
  rcases mem_cons.mp hmem with rfl | hmem
  · rw [hmine e he]
    exact hordinary
  · split_ifs at hmem
    · obtain ⟨i, -, hnext⟩ := mem_filterMap.mp hmem
      obtain ⟨inpoint, hinpoint, rfl⟩ := Option.map_eq_some_iff.mp hnext
      obtain ⟨other, hother, hspend, -⟩ := h.next hinpoint
      obtain rfl := Option.some.inj (he.symm.trans hother)
      exact hspend
    · exact nomatch hmem

/-! ## Some transactions, one after the other -/

/-- As `removeCoinbaseSpends` takes them out. -/
def removeAll (pool : CTxMemPool) (txs : List CTransaction) : CTxMemPool :=
  txs.foldl (fun pool tx => (pool.remove tx [] true).1) pool

theorem removeAll_sub (txs : List CTransaction) : Sub (pool.removeAll txs) pool := by
  induction txs generalizing pool with
  | nil => exact fun _ _ h => h
  | cons tx txs ih =>
    intro hash entry h
    exact remove_sub _ _ (ih hash entry h)

variable {txs : List CTransaction}

theorem removeAll_gone (htx : tx ∈ txs) :
    (pool.removeAll txs).mapTx.lookup tx.hash = none := by
  induction txs generalizing pool with
  | nil => exact nomatch htx
  | cons first txs ih =>
    rcases mem_cons.mp htx with rfl | htx
    · exact (removeAll_sub txs).absent remove_gone
    · exact ih htx

theorem removeAll_from (h : SoundLinks mid) (hsub : Sub mid pool)
    (hpool : ∀ tx ∈ txs, ∃ entry, pool.mapTx.lookup tx.hash = some entry ∧ entry.tx = tx)
    (hlook : mid.mapTx.lookup child = some entry)
    (hgone : (mid.removeAll txs).mapTx.lookup child = none) :
    ∃ tx ∈ txs, pool.Descends tx.hash child := by
  induction txs generalizing mid with
  | nil =>
    have hnone : mid.mapTx.lookup child = none := hgone
    rw [hlook] at hnone
    cases hnone
  | cons tx txs ih =>
    obtain ⟨⟨e, he, hmine⟩, hrest⟩ := forall_mem_cons.mp hpool
    cases hnext : (mid.remove tx [] true).1.mapTx.lookup child with
    | none => exact ⟨tx, .head _, remove_from h hsub he hmine hlook hnext⟩
    | some left =>
      have hless : Sub (mid.remove tx [] true).1 pool := fun a b hab =>
        hsub a b (remove_sub a b hab)
      obtain rfl := Option.some.inj (hlook.symm.trans (remove_sub _ _ hnext))
      obtain ⟨t, ht, hdesc⟩ := ih (remove_sound h) hless hrest hnext hgone
      exact ⟨t, .tail _ ht, hdesc⟩

theorem removeAll_closed (h : FullLinks mid) (hsub : Sub mid pool)
    (hpool : ∀ tx ∈ txs, ∃ entry, pool.mapTx.lookup tx.hash = some entry ∧ entry.tx = tx)
    (hordinary : ∀ tx ∈ txs, tx.IsZerocoinSpend = false) : Closed mid (mid.removeAll txs) := by
  induction txs generalizing mid with
  | nil =>
    intro hash entry _ _ txin _ parent hparent _
    exact hparent
  | cons tx txs ih =>
    obtain ⟨⟨e, he, hmine⟩, hrest⟩ := forall_mem_cons.mp hpool
    obtain ⟨hfirst, hothers⟩ := forall_mem_cons.mp hordinary
    obtain ⟨hfull, hclosed⟩ := @remove_full mid tx [] h hfirst (by
      intro e' he'
      obtain rfl := Option.some.inj (he.symm.trans (hsub _ _ he'))
      exact hmine)
    have hless : Sub (mid.remove tx [] true).1 pool := fun a b hab =>
      hsub a b (remove_sub a b hab)
    have hlast := ih hfull hless hrest hothers
    intro hash entry hlook hspend txin hin parent hparent hn
    have hmid := hclosed hash entry (removeAll_sub txs _ _ hlook) hspend txin hin parent hparent hn
    exact hlast hash entry hlook hspend txin hin parent hmid hn

/-! ## `removeCoinbaseSpends` -/

section
variable (P : CChainParams) (pcoins : CCoinsView) (cached : uint256 → Bool) (nMemPoolHeight : Int)

/-- The output is neither of a pool transaction nor unspent. -/
def OutputGone (pool : CTxMemPool) (out : COutPoint) : Prop :=
  match pool.mapTx.lookup out.hash with
  | some parent => parent.tx.vout.length ≤ out.n
  | none => ∀ o, (pcoins.coins out.hash).vout[out.n]? = some o → o.IsNull = true

/-- The output is of a coin base or coin stake that is not mature. -/
def OutputImmature (pool : CTxMemPool) (out : COutPoint) : Prop :=
  pool.mapTx.lookup out.hash = none ∧
    ((pcoins.coins out.hash).fCoinBase = true ∨ (pcoins.coins out.hash).fCoinStake = true) ∧
    nMemPoolHeight - (pcoins.coins out.hash).nHeight < P.nMaturity

/-- An ordinary transaction that takes such an output is to go. -/
def ToGo (pool : CTxMemPool) (tx : CTransaction) : Prop :=
  tx.IsZerocoinSpend = false ∧ ∃ txin ∈ tx.vin,
    OutputGone pcoins pool txin.prevout ∨ OutputImmature P pcoins nMemPoolHeight pool txin.prevout

/-- The pool has a transaction that meets `p` and is `child`, or `child` depends on it. -/
def Under (pool : CTxMemPool) (p : CTransaction → Prop) (child : uint256) : Prop :=
  ∃ hash entry, pool.mapTx.lookup hash = some entry ∧ p entry.tx ∧ pool.Descends hash child

/-- Exactly the transactions that are to go have gone, and what depends on them. -/
def RemovesExactly (pool pool' : CTxMemPool) : Prop :=
  ∀ hash entry, pool'.mapTx.lookup hash = some entry ↔
    pool.mapTx.lookup hash = some entry ∧ ¬pool.Under (ToGo P pcoins nMemPoolHeight pool) hash

/-- An output that is gone, though there is a transaction or a record of its hash. -/
def GoneUnseen (pool : CTxMemPool) (out : COutPoint) : Prop :=
  OutputGone pcoins pool out ∧ ((pool.mapTx.lookup out.hash).isSome = true ∨
    (pcoins.coins out.hash).IsPruned = false ∨ cached out.hash = true)

/-- An output of a coin base or coin stake of a height above the one compared with: the
unsigned difference begins again at the top. -/
def ImmatureUnseen (pool : CTxMemPool) (out : COutPoint) : Prop :=
  OutputImmature P pcoins nMemPoolHeight pool out ∧
    P.nMaturity ≤ (nMemPoolHeight - (pcoins.coins out.hash).nHeight) % 2 ^ 32

/-- What the test does not see. -/
def Unseen (pool : CTxMemPool) (tx : CTransaction) : Prop :=
  tx.IsZerocoinSpend = false ∧ ∃ txin ∈ tx.vin,
    GoneUnseen pcoins cached pool txin.prevout ∨
      ImmatureUnseen P pcoins nMemPoolHeight pool txin.prevout

/-- Heights as they are kept: one below 2^32 to compare with, and none of a coin below 0. -/
structure Heights : Prop where
  lt : nMemPoolHeight < 2 ^ 32
  nonneg : ∀ txid, 0 ≤ (pcoins.coins txid).nHeight

end

section
variable {P : CChainParams} {pcoins : CCoinsView} {cached : uint256 → Bool} {nMemPoolHeight : Int}

/-- The transactions that the test sees. -/
def Seen (P : CChainParams) (pcoins : CCoinsView) (cached : uint256 → Bool) (nMemPoolHeight : Int)
    (pool : CTxMemPool) (tx : CTransaction) : Prop :=
  pool.spendsImmature P pcoins cached nMemPoolHeight tx = true

theorem seen_iff : Seen P pcoins cached nMemPoolHeight pool tx ↔ ∃ txin ∈ tx.vin,
    pool.mapTx.lookup txin.prevout.hash = none ∧
      (((pcoins.coins txin.prevout.hash).IsPruned = true ∧ cached txin.prevout.hash = false) ∨
        ((pcoins.coins txin.prevout.hash).fCoinBase = true ∨
          (pcoins.coins txin.prevout.hash).fCoinStake = true) ∧
          (nMemPoolHeight - (pcoins.coins txin.prevout.hash).nHeight) % 2 ^ 32 < P.nMaturity) := by
  unfold Seen spendsImmature contains
  simp only [any_eq_true, Bool.and_eq_true, Bool.or_eq_true, Bool.not_eq_true',
    Option.isSome_eq_false_iff, Option.isNone_iff_eq_none, decide_eq_true_eq]

theorem gone_of_isPruned {out : COutPoint} (hnone : pool.mapTx.lookup out.hash = none)
    (hpruned : (pcoins.coins out.hash).IsPruned = true) : OutputGone pcoins pool out := by
  unfold OutputGone
  rw [hnone]
  intro o ho
  exact all_eq_true.mp hpruned o (mem_of_getElem? ho)

theorem toGo_of_seen (hheights : Heights pcoins nMemPoolHeight)
    (hspend : tx.IsZerocoinSpend = false)
    (h : Seen P pcoins cached nMemPoolHeight pool tx) : ToGo P pcoins nMemPoolHeight pool tx := by
  obtain ⟨txin, hin, hnone, ⟨hpruned, -⟩ | ⟨hgenerated, hlow⟩⟩ := seen_iff.mp h
  · exact ⟨hspend, txin, hin, .inl (gone_of_isPruned hnone hpruned)⟩
  · refine ⟨hspend, txin, hin, .inr ⟨hnone, hgenerated, ?_⟩⟩
    have hlt := hheights.lt
    have hnonneg := hheights.nonneg txin.prevout.hash
    omega

theorem ToGo.seen_or_unseen (h : ToGo P pcoins nMemPoolHeight pool tx) :
    Seen P pcoins cached nMemPoolHeight pool tx ∨
      Unseen P pcoins cached nMemPoolHeight pool tx := by
  obtain ⟨hspend, txin, hin, hgone | himmature⟩ := h
  · cases hlook : pool.mapTx.lookup txin.prevout.hash with
    | some parent => exact .inr ⟨hspend, txin, hin, .inl ⟨hgone, .inl (by rw [hlook]; rfl)⟩⟩
    | none =>
      cases hpruned : (pcoins.coins txin.prevout.hash).IsPruned with
      | false => exact .inr ⟨hspend, txin, hin, .inl ⟨hgone, .inr (.inl hpruned)⟩⟩
      | true =>
        cases hcached : cached txin.prevout.hash with
        | true => exact .inr ⟨hspend, txin, hin, .inl ⟨hgone, .inr (.inr hcached)⟩⟩
        | false => exact .inl (seen_iff.mpr ⟨txin, hin, hlook, .inl ⟨hpruned, hcached⟩⟩)
  · rcases lt_or_ge ((nMemPoolHeight - (pcoins.coins txin.prevout.hash).nHeight) % 2 ^ 32)
      P.nMaturity with hlow | hhigh
    · obtain ⟨hnone, hgenerated, -⟩ := himmature
      exact .inl (seen_iff.mpr ⟨txin, hin, hnone, .inr ⟨hgenerated, hlow⟩⟩)
    · exact .inr ⟨hspend, txin, hin, .inr ⟨himmature, hhigh⟩⟩

theorem Unseen.toGo (h : Unseen P pcoins cached nMemPoolHeight pool tx) :
    ToGo P pcoins nMemPoolHeight pool tx := by
  obtain ⟨hspend, txin, hin, hgone | himmature⟩ := h
  · exact ⟨hspend, txin, hin, .inl hgone.1⟩
  · exact ⟨hspend, txin, hin, .inr himmature.1⟩

theorem mem_seen : tx ∈ pool.txs.filter (pool.spendsImmature P pcoins cached nMemPoolHeight) ↔
    tx ∈ pool.txs ∧ Seen P pcoins cached nMemPoolHeight pool tx := mem_filter

theorem seen_in_pool (h : SoundLinks pool) :
    ∀ tx ∈ pool.txs.filter (pool.spendsImmature P pcoins cached nMemPoolHeight),
      ∃ entry, pool.mapTx.lookup tx.hash = some entry ∧ entry.tx = tx := by
  intro tx htx
  obtain ⟨hash, entry, hlook, rfl⟩ := mem_txs.mp (mem_filter.mp htx).1
  exact ⟨entry, by rw [h.named hlook]; exact hlook, rfl⟩

/-- **Whatever goes** is seen by the test, or depends on such. -/
theorem removeCoinbaseSpends_from_seen (h : SoundLinks pool)
    (hlook : pool.mapTx.lookup child = some entry)
    (hgone : (pool.removeCoinbaseSpends P pcoins cached nMemPoolHeight).mapTx.lookup child = none) :
    pool.Under (Seen P pcoins cached nMemPoolHeight pool) child := by
  obtain ⟨tx, htx, hdesc⟩ := removeAll_from h (fun _ _ h => h) (seen_in_pool h) hlook hgone
  obtain ⟨e, he, rfl⟩ := seen_in_pool h tx htx
  exact ⟨e.tx.hash, e, he, (mem_seen.mp htx).2, hdesc⟩

theorem removeCoinbaseSpends_gone (h : SoundLinks pool)
    (hlook : pool.mapTx.lookup hash = some entry)
    (hseen : Seen P pcoins cached nMemPoolHeight pool entry.tx) :
    (pool.removeCoinbaseSpends P pcoins cached nMemPoolHeight).mapTx.lookup hash = none := by
  have hmem : entry.tx ∈ pool.txs.filter (pool.spendsImmature P pcoins cached nMemPoolHeight) :=
    mem_seen.mpr ⟨mem_txs.mpr ⟨hash, entry, hlook, rfl⟩, hseen⟩
  have hgone := @removeAll_gone pool _ _ hmem
  rw [h.named hlook] at hgone
  exact hgone

/-- **Where no zerocoin spend is seen**, all that depends on what is seen goes. -/
theorem removeCoinbaseSpends_closed (h : FullLinks pool)
    (hspends : ∀ hash entry, pool.mapTx.lookup hash = some entry →
      entry.tx.IsZerocoinSpend = true → ¬Seen P pcoins cached nMemPoolHeight pool entry.tx)
    (hunder : pool.Under (Seen P pcoins cached nMemPoolHeight pool) child) :
    (pool.removeCoinbaseSpends P pcoins cached nMemPoolHeight).mapTx.lookup child = none := by
  obtain ⟨hash, entry, hlook, hseen, hdesc⟩ := hunder
  have hordinary : ∀ tx ∈ pool.txs.filter (pool.spendsImmature P pcoins cached nMemPoolHeight),
      tx.IsZerocoinSpend = false := by
    intro tx htx
    obtain ⟨hpool, hsaw⟩ := mem_seen.mp htx
    obtain ⟨hash, entry, hlook, rfl⟩ := mem_txs.mp hpool
    exact Bool.eq_false_iff.mpr fun hspend => hspends hash entry hlook hspend hsaw
  have hclosed : Closed pool (pool.removeCoinbaseSpends P pcoins cached nMemPoolHeight) :=
    removeAll_closed h (fun _ _ h => h) (seen_in_pool h.toSoundLinks) hordinary
  induction hdesc with
  | refl => exact removeCoinbaseSpends_gone h.toSoundLinks hlook hseen
  | tail _ hlast ih =>
    obtain ⟨e, parent, he, hspend, hparent, txin, hin, rfl, hn⟩ := hlast
    by_contra hleft
    obtain ⟨left, hleft⟩ := Option.ne_none_iff_exists'.mp hleft
    obtain rfl := Option.some.inj (he.symm.trans (removeCoinbaseSpends_sub _ _ hleft))
    have hstays := hclosed _ e hleft hspend txin hin parent hparent hn
    rw [ih] at hstays
    cases hstays

/-- **When exactly these go.**  No zerocoin spend may be seen by the test, and what takes an
output that it does not see must go for another reason. -/
theorem removes_exactly_iff (h : FullLinks pool) (hheights : Heights pcoins nMemPoolHeight) :
    RemovesExactly P pcoins nMemPoolHeight pool
        (pool.removeCoinbaseSpends P pcoins cached nMemPoolHeight) ↔
      (∀ hash entry, pool.mapTx.lookup hash = some entry → entry.tx.IsZerocoinSpend = true →
        ¬Seen P pcoins cached nMemPoolHeight pool entry.tx) ∧
      ∀ hash entry, pool.mapTx.lookup hash = some entry →
        Unseen P pcoins cached nMemPoolHeight pool entry.tx →
        pool.Under (Seen P pcoins cached nMemPoolHeight pool) hash := by
  constructor
  · intro hexact
    constructor
    · intro hash entry hlook hspend hseen
      have hgone := removeCoinbaseSpends_gone h.toSoundLinks hlook hseen
      -- so it would have to be under a transaction that is to go
      have hunder : pool.Under (ToGo P pcoins nMemPoolHeight pool) hash := by
        by_contra hnot
        rw [(hexact hash entry).mpr ⟨hlook, hnot⟩] at hgone
        cases hgone
      obtain ⟨above, e, he, hbad, hdesc⟩ := hunder
      obtain rfl := hdesc.eq_of_spend hlook hspend
      obtain rfl := Option.some.inj (hlook.symm.trans he)
      exact nomatch hspend.symm.trans hbad.1
    · intro hash entry hlook hunseen
      refine removeCoinbaseSpends_from_seen h.toSoundLinks hlook ?_
      by_contra hleft
      obtain ⟨left, hleft⟩ := Option.ne_none_iff_exists'.mp hleft
      exact ((hexact hash left).mp hleft).2
        ⟨hash, entry, hlook, hunseen.toGo, Relation.ReflTransGen.refl⟩
  · rintro ⟨hspends, hunseen⟩ hash entry
    constructor
    · intro hleft
      refine ⟨removeCoinbaseSpends_sub _ _ hleft, ?_⟩
      rintro ⟨above, e, he, hbad, hdesc⟩
      have hunder : pool.Under (Seen P pcoins cached nMemPoolHeight pool) hash := by
        rcases @ToGo.seen_or_unseen _ _ P pcoins cached nMemPoolHeight hbad with hseen | hmissed
        · exact ⟨above, e, he, hseen, hdesc⟩
        · obtain ⟨top, t, ht, hseen, hfrom⟩ := hunseen above e he hmissed
          exact ⟨top, t, ht, hseen, Relation.ReflTransGen.trans hfrom hdesc⟩
      rw [removeCoinbaseSpends_closed h hspends hunder] at hleft
      cases hleft
    · rintro ⟨hlook, hnot⟩
      cases hleft :
        (pool.removeCoinbaseSpends P pcoins cached nMemPoolHeight).mapTx.lookup hash with
      | some left => rw [← hlook, removeCoinbaseSpends_sub _ _ hleft]
      | none =>
        obtain ⟨above, e, he, hseen, hdesc⟩ :=
          removeCoinbaseSpends_from_seen h.toSoundLinks hlook hleft
        have hordinary : e.tx.IsZerocoinSpend = false :=
          Bool.eq_false_iff.mpr fun hspend => hspends above e he hspend hseen
        exact absurd ⟨above, e, he, toGo_of_seen hheights hordinary hseen, hdesc⟩ hnot

theorem not_exactly_of_stays (hlook : pool.mapTx.lookup hash = some entry)
    (hstays : pool'.mapTx.lookup hash = some entry)
    (hgo : ToGo P pcoins nMemPoolHeight pool entry.tx) :
    ¬RemovesExactly P pcoins nMemPoolHeight pool pool' := fun hexact =>
  ((hexact hash entry).mp hstays).2 ⟨hash, entry, hlook, hgo, refl⟩

end

/-! ## Pools of one transaction -/

def holding (tx : CTransaction) : CTxMemPool := empty.addUnchecked tx.hash ⟨tx, 0, 0, 0⟩

theorem holding_lookup (h : (holding tx).mapTx.lookup hash = some entry) :
    hash = tx.hash ∧ entry.tx = tx := by
  rw [holding, lookup_addUnchecked] at h
  split_ifs at h with heq
  · exact ⟨heq, by rw [← Option.some.inj h]⟩
  · cases h

theorem holding_links (hdistinct : tx.IsZerocoinSpend = false → (tx.vin.map CTxIn.prevout).Nodup) :
    FullLinks (holding tx) := by
  refine (@addUnchecked_linked _ ⟨tx, 0, 0, 0⟩ linked_empty rfl (fun _ _ _ => rfl)
    hdistinct ?_).fullLinks
  intro z hz hspend other hother hordinary
  obtain rfl := mem_singleton.mp hz
  obtain rfl := mem_singleton.mp hother
  exact nomatch hspend.symm.trans hordinary

/-- The coin of the examples; it is a coin base of height 5. -/
def youngCoin : CCoinsView :=
  { oneCoin with coins := fun txid => { oneCoin.coins txid with fCoinBase := true, nHeight := 5 } }

/-- The payment spends it before it is mature, and goes. -/
theorem payment_removed : RemovesExactly mainParams youngCoin 6 (holding payment)
    ((holding payment).removeCoinbaseSpends mainParams youngCoin (fun _ => false) 6) := by
  refine (removes_exactly_iff (holding_links fun _ => by decide) ⟨by decide, fun _ => ?_⟩).mpr
    ⟨?_, ?_⟩
  · exact Int.le_of_lt (show (0 : Int) < 5 by decide)
  · intro hash entry hlook hspend
    rw [(holding_lookup hlook).2] at hspend
    cases hspend
  · intro hash entry hlook _
    refine ⟨hash, entry, hlook, ?_, Relation.ReflTransGen.refl⟩
    rw [(holding_lookup hlook).2]
    exact show (holding payment).spendsImmature _ _ _ _ _ = true by decide

/-- It takes an output of the coin that is gone, another one being left. -/
def latePayment : CTransaction := ⟨303, 1, [⟨⟨7, 1⟩, [], 0⟩], [⟨COIN, [1]⟩], 0⟩

def noCoins : CCoinsView := ⟨fun _ => .null, 0⟩

/-- **A zerocoin spend goes** whatever the coins are; and what takes an output that is gone stays
where another output is left, or the pruned record is still in the cache, and so does what takes
an output of a coin base higher up. -/
theorem redemption_removed :
    ¬RemovesExactly mainParams oneCoin 1000 (holding redemption)
      ((holding redemption).removeCoinbaseSpends mainParams oneCoin (fun _ => false) 1000) ∧
    ¬RemovesExactly mainParams oneCoin 1000 (holding latePayment)
      ((holding latePayment).removeCoinbaseSpends mainParams oneCoin (fun _ => false) 1000) ∧
    ¬RemovesExactly mainParams noCoins 1000 (holding payment)
      ((holding payment).removeCoinbaseSpends mainParams noCoins (· == 7) 1000) ∧
    ¬RemovesExactly mainParams youngCoin 4 (holding payment)
      ((holding payment).removeCoinbaseSpends mainParams youngCoin (fun _ => false) 4) := by
  refine ⟨?_, ?_, ?_, ?_⟩
  · intro hexact
    have hspend : ∀ above, ¬(holding redemption).Under
        (ToGo mainParams oneCoin 1000 (holding redemption)) above := by
      rintro above ⟨hash, entry, hlook, hgo, -⟩
      have hordinary := hgo.1
      rw [(holding_lookup hlook).2] at hordinary
      cases hordinary
    have hstays := (hexact 301 ⟨redemption, 0, 0, 0⟩).mpr ⟨rfl, hspend 301⟩
    have hgone : ((holding redemption).removeCoinbaseSpends mainParams oneCoin (fun _ => false)
        1000).mapTx.lookup 301 = none := by
      exact @remove_gone (holding redemption) redemption _ _
    rw [hgone] at hstays
    cases hstays
  · refine @not_exactly_of_stays _ _ 303 ⟨latePayment, 0, 0, 0⟩ _ _ _ rfl ?_ ?_
    · rw [removeCoinbaseSpends, show (holding latePayment).txs.filter ((holding
        latePayment).spendsImmature mainParams oneCoin (fun _ => false) 1000) = [] by
          decide]
      rfl
    · refine ⟨rfl, ⟨⟨7, 1⟩, [], 0⟩, .head _, .inl ?_⟩
      intro o ho
      cases ho
  · refine @not_exactly_of_stays _ _ 300 ⟨payment, 0, 0, 0⟩ _ _ _ rfl ?_ ?_
    · rw [removeCoinbaseSpends, show (holding payment).txs.filter ((holding
        payment).spendsImmature mainParams noCoins (· == 7) 1000) = [] by decide]
      rfl
    · refine ⟨rfl, ⟨⟨7, 0⟩, [], 0⟩, .head _, .inl ?_⟩
      intro o ho
      cases ho
  · refine @not_exactly_of_stays _ _ 300 ⟨payment, 0, 0, 0⟩ _ _ _ rfl ?_ ?_
    · rw [removeCoinbaseSpends, show (holding payment).txs.filter ((holding
        payment).spendsImmature mainParams youngCoin (fun _ => false) 4) = [] by decide]
      rfl
    · exact ⟨rfl, ⟨⟨7, 0⟩, [], 0⟩, .head _, .inr ⟨rfl, .inl rfl, by decide⟩⟩

end CTxMemPool

end Divitae
