/-
# `MemPoolRuns` — the pool against the coins

    CoinsBacked pool view rest   every input of an ordinary transaction of the pool takes an
                            output of the pool or of the coins, or of one of `rest`

`rest` are the transactions of a disconnected block that are still to come back; it is empty
between two steps.  With the links this is what `check` asserts, but for the inputs of
zerocoin spends: of these `mapNextTx` and the coins know nothing, and so `check` holds
throughout a run exactly as long as the pool has no zerocoin spend (`pool_checked_iff`).
-/
import Divitae.CoinsHeld
import Divitae.MemPoolLinks
import Divitae.Supply

namespace Divitae

namespace CTxMemPool

variable {pool pool' : CTxMemPool} {view : CCoinsView} {hash : uint256} {entry : CTxMemPoolEntry}
  {tx : CTransaction} {rest : List CTransaction} {n : Nat} {o : CTxOut}

/-! ## The pool over the coins -/

theorem coins_CCoinsViewMemPool : (CCoinsViewMemPool view pool).coins hash =
    match pool.mapTx.lookup hash with
    | some entry => .FromTx entry.tx MEMPOOL_HEIGHT
    | none => if (view.coins hash).IsPruned then .null else view.coins hash := rfl

theorem coins_of_lookup (h : pool.mapTx.lookup hash = some entry) :
    (CCoinsViewMemPool view pool).coins hash = .FromTx entry.tx MEMPOOL_HEIGHT := by
  rw [coins_CCoinsViewMemPool, h]

theorem holds_of_lookup (h : pool.mapTx.lookup hash = some entry) :
    ((CCoinsViewMemPool view pool).coins hash).Holds n o ↔
      entry.tx.vout[n]? = some o ∧ o.Spendable := by
  rw [coins_of_lookup h]
  exact CCoins.holds_FromTx_iff

theorem holds_of_absent (h : pool.mapTx.lookup hash = none) :
    ((CCoinsViewMemPool view pool).coins hash).Holds n o ↔ (view.coins hash).Holds n o := by
  have hcoins : (CCoinsViewMemPool view pool).coins hash =
      if (view.coins hash).IsPruned then .null else view.coins hash := by
    rw [coins_CCoinsViewMemPool, h]
  rw [hcoins]
  cases hp : (view.coins hash).IsPruned with
  | false => exact Iff.rfl
  | true =>
    constructor
    · intro hnull
      cases hnull.there
    · intro hheld
      cases hheld.not_isPruned.symm.trans hp

/-- The input takes an output that is there. -/
def Finds (pool : CTxMemPool) (view : CCoinsView) (out : COutPoint) (o : CTxOut) : Prop :=
  ((CCoinsViewMemPool view pool).coins out.hash).Holds out.n o

/-- The input takes an output of a transaction that is to come back. -/
def Awaits (pool : CTxMemPool) (rest : List CTransaction) (out : COutPoint) (o : CTxOut) : Prop :=
  pool.mapTx.lookup out.hash = none ∧
    ∃ tx ∈ rest, tx.hash = out.hash ∧ tx.vout[out.n]? = some o ∧ o.Spendable

def CoinsBacked (pool : CTxMemPool) (view : CCoinsView) (rest : List CTransaction) : Prop :=
  ∀ hash entry, pool.mapTx.lookup hash = some entry → entry.tx.IsZerocoinSpend = false →
    ∀ txin ∈ entry.tx.vin, ∃ o, pool.Finds view txin.prevout o ∨ pool.Awaits rest txin.prevout o

theorem CoinsBacked.finds (h : CoinsBacked pool view [])
    (hlook : pool.mapTx.lookup hash = some entry)
    (hspend : entry.tx.IsZerocoinSpend = false) {txin : CTxIn} (hin : txin ∈ entry.tx.vin) :
    ∃ o, pool.Finds view txin.prevout o := by
  obtain ⟨o, hfinds | ⟨-, tx, htx, -⟩⟩ := h hash entry hlook hspend txin hin
  · exact ⟨o, hfinds⟩
  · exact nomatch htx

theorem backed_empty : CoinsBacked empty view rest := by
  intro hash entry hlook
  cases hlook

/-- **WellLinked and backed is checked**, the zerocoin spends put aside. -/
theorem WellLinked.checkBut_of_backed (h : WellLinked pool) (hback : CoinsBacked pool view []) :
    pool.checkBut CTransaction.IsZerocoinSpend view = true := by
  rw [h.checkBut_iff]
  rintro hash entry hlook hspend ⟨txin, i⟩ hin
  have hget : entry.tx.vin[i]? = some txin := List.mem_zipIdx_iff_getElem?.mp hin
  obtain ⟨o, hfinds⟩ := hback.finds hlook hspend (List.mem_of_getElem? hget)
  rw [checkTxIn, h.entered hlook hspend hget, beq_self_eq_true, Bool.and_true]
  cases hparent : pool.mapTx.lookup txin.prevout.hash with
  | none => exact ((holds_of_absent hparent).mp hfinds).isAvailable
  | some parent =>
    obtain ⟨hout, hspendable⟩ := (holds_of_lookup hparent).mp hfinds
    show (parent.tx.vout[txin.prevout.n]?).any _ = true
    rw [hout]
    show (!o.IsNull) = true
    rw [hspendable.notNull]
    rfl

theorem Thins.finds (h : Thins pool pool') (hlook : pool'.mapTx.lookup hash = some entry)
    (hspend : entry.tx.IsZerocoinSpend = false) {txin : CTxIn} (hin : txin ∈ entry.tx.vin)
    (hfinds : pool.Finds view txin.prevout o) : pool'.Finds view txin.prevout o := by
  cases hparent : pool.mapTx.lookup txin.prevout.hash with
  | none =>
    rw [Finds, holds_of_absent hparent] at hfinds
    rw [Finds, holds_of_absent (h.sub.absent hparent)]
    exact hfinds
  | some parent =>
    rw [Finds, holds_of_lookup hparent] at hfinds
    have hn := (List.getElem?_eq_some_iff.mp hfinds.1).1
    have hleft := h.closed hash entry hlook hspend txin hin parent hparent hn
    rw [Finds, holds_of_lookup hleft]
    exact hfinds

theorem Thins.backed (h : Thins pool pool') (hback : CoinsBacked pool view rest) :
    CoinsBacked pool' view rest := by
  intro hash entry hlook hspend txin hin
  obtain ⟨o, hfinds | ⟨habsent, hawaits⟩⟩ :=
    hback hash entry (h.sub hash entry hlook) hspend txin hin
  · exact ⟨o, .inl (h.finds hlook hspend hin hfinds)⟩
  · exact ⟨o, .inr ⟨h.sub.absent habsent, hawaits⟩⟩

theorem remove_backed (hlinked : WellLinked pool) (hback : CoinsBacked pool view (tx :: rest)) :
    CoinsBacked (pool.remove tx [] true).1 view rest := by
  have hthins : Thins pool (pool.remove tx [] true).1 := remove_thins hlinked
  intro hash entry hlook hspend txin hin
  obtain ⟨o, hfinds | ⟨habsent, t, ht, hhash, hout, hspendable⟩⟩ :=
    hback hash entry (hthins.sub hash entry hlook) hspend txin hin
  · exact ⟨o, .inl (hthins.finds hlook hspend hin hfinds)⟩
  · rcases List.mem_cons.mp ht with rfl | ht
    · have hlen := remove_orphans hlinked (hhash ▸ habsent) hlook hspend hin hhash.symm
      have hn := (List.getElem?_eq_some_iff.mp hout).1
      omega
    · exact ⟨o, .inr ⟨hthins.sub.absent habsent, t, ht, hhash, hout, hspendable⟩⟩

end CTxMemPool

/-! ## What is accepted -/

open CTxMemPool

variable {N : CMempoolNode} {pool pool' : CTxMemPool} {view : CCoinsView} {tx : CTransaction}
  {rest : List CTransaction}

theorem distinct_of_hasDuplicateInputs {vin : List CTxIn} {seen : List COutPoint}
    (h : hasDuplicateInputs vin seen = false)
    (hscripts : ∀ txin ∈ vin, txin.scriptSig.IsZerocoinSpend = false) :
    (vin.map CTxIn.prevout).Nodup ∧ ∀ out ∈ vin.map CTxIn.prevout, out ∉ seen := by
  induction vin generalizing seen with
  | nil => exact ⟨List.nodup_nil, nofun⟩
  | cons txin vin ih =>
    rw [hasDuplicateInputs, hscripts txin List.mem_cons_self, Bool.or_eq_false_iff] at h
    obtain ⟨hfirst, hrest⟩ := h
    obtain ⟨hnodup, hnot⟩ := ih hrest fun t ht => hscripts t (.tail _ ht)
    constructor
    · refine List.nodup_cons.mpr ⟨?_, hnodup⟩
      intro hmem
      exact hnot _ hmem List.mem_cons_self
    · intro out hout
      rcases List.mem_cons.mp hout with rfl | hout
      · intro hmem
        rw [List.contains_iff_mem.mpr hmem] at hfirst
        cases hfirst
      · intro hmem
        exact hnot out hout (.tail _ hmem)

/-- What `AcceptToMemoryPool` has seen to when it takes `tx`. -/
structure Accepted (N : CMempoolNode) (pool : CTxMemPool) (view : CCoinsView) (tx : CTransaction)
    (entry : CTxMemPoolEntry) : Prop where
  mine : entry.tx = tx
  new : pool.mapTx.lookup tx.hash = none
  unknown : tx.IsZerocoinSpend = true → N.IsTransactionInChain tx.hash = none
  free : tx.IsZerocoinSpend = false → ∀ txin ∈ tx.vin, pool.mapNextTx.lookup txin.prevout = none
  distinct : tx.IsZerocoinSpend = false → (tx.vin.map CTxIn.prevout).Nodup
  fresh : tx.IsZerocoinSpend = false → (CCoinsViewMemPool view pool).HasCoins tx.hash = false
  finds : tx.IsZerocoinSpend = false → ∀ txin ∈ tx.vin, ∃ o, pool.Finds view txin.prevout o

theorem CheckInputs_scripts {inputs : CCoinsView} (hbase : tx.IsCoinBase = false)
    (hspend : tx.IsZerocoinSpend = false) (h : N.CheckInputs tx inputs = .ok ()) :
    ∀ txin ∈ tx.vin, txin.scriptSig.IsZerocoinSpend = false ∧
      (inputs.coins txin.prevout.hash).Holds txin.prevout.n (inputs.GetOutputFor txin) := by
  rw [CMempoolNode.CheckInputs, Divitae.CheckInputs, hbase, hspend] at h
  simp only [Bool.not_false, Bool.and_self, if_true, rejectIf_eq_ok, Bool.not_eq_false'] at h
  obtain ⟨hhave, h⟩ := h
  rw [CCoinsView.HaveInputs, hbase, hspend, Bool.false_or, Bool.false_or] at hhave
  have hscripts : N.checkScripts tx inputs = true := by
    cases hprev : N.mapBlockIndex inputs.hashBlock with
    | none =>
      rw [hprev] at h
      cases h
    | some nPrevHeight =>
      rw [hprev] at h
      simp only [bind_eq_ok, rejectIf_eq_ok, Bool.not_eq_false'] at h
      obtain ⟨-, -, -, -, hscripts, -⟩ := h
      exact hscripts
  intro txin hin
  obtain ⟨i, hi⟩ := List.getElem?_of_mem hin
  have hone := List.all_eq_true.mp hscripts (txin, i) (List.mem_zipIdx_iff_getElem?.mpr hi)
  simp only [Bool.and_eq_true, Bool.not_eq_true'] at hone
  exact ⟨hone.1.1, CCoins.holds_of_isAvailable (List.all_eq_true.mp hhave txin hin) hone.1.2⟩

theorem AcceptToMemoryPool_ok {fLimitFree fRejectInsaneFee ignoreFees : Bool}
    (h : AcceptToMemoryPool N pool view tx fLimitFree fRejectInsaneFee ignoreFees = .ok pool') :
    ∃ entry, pool' = pool.addUnchecked tx.hash entry ∧ Accepted N pool view tx entry := by
  simp only [AcceptToMemoryPool, rejectIf_eq_ok] at h
  obtain ⟨-, hcheck, hbase, -, -, hnew, -, hfree, h⟩ := h
  cases htip : N.chainTip with
  | none =>
    rw [htip] at h
    cases h
  | some tip =>
    rw [htip] at h
    simp only [bind_eq_ok, rejectIf_eq_ok] at h
    obtain ⟨⟨inputs, nValueIn⟩, hinputs, -, -, _, -, -, -, _, hscripts, _, -, h⟩ := h
    refine ⟨_, (Except.ok.inj h).symm, ?_⟩
    have hnone : pool.mapTx.lookup tx.hash = none := by
      rw [contains, Option.isSome_eq_false_iff, Option.isNone_iff_eq_none] at hnew
      exact hnew
    cases hspend : tx.IsZerocoinSpend with
    | true =>
      rw [acceptInputs, hspend, if_pos rfl] at hinputs
      obtain ⟨hchain, -⟩ := rejectIf_eq_ok.mp hinputs
      rw [Option.isSome_eq_false_iff, Option.isNone_iff_eq_none] at hchain
      have hnot : ¬ tx.IsZerocoinSpend = false := by
        rw [hspend]
        exact Bool.noConfusion
      exact ⟨rfl, hnone, fun _ => hchain, fun h => absurd h hnot, fun h => absurd h hnot,
        fun h => absurd h hnot, fun h => absurd h hnot⟩
    | false =>
      rw [acceptInputs, hspend] at hinputs
      simp only [Bool.false_eq_true, if_false, rejectIf_eq_ok, bind_eq_ok] at hinputs
      obtain ⟨hfresh, -, -, -, -, -, hview⟩ := hinputs
      obtain ⟨rfl, -⟩ := Prod.mk.inj (Except.ok.inj hview)
      have hheld := CheckInputs_scripts hbase hspend hscripts
      have hduplicates : hasDuplicateInputs tx.vin [] = false := by
        obtain ⟨_, hcheck⟩ := exists_of_isOk (Bool.not_eq_false' _ ▸ hcheck)
        simp only [CheckTransaction, rejectIf_eq_ok, bind_eq_ok] at hcheck
        obtain ⟨-, -, -, -, -, -, -, -, hduplicates, -⟩ := hcheck
        exact hduplicates
      have hdistinct := distinct_of_hasDuplicateInputs hduplicates fun txin hin =>
        (hheld txin hin).1
      rw [hspend, Bool.not_false, Bool.true_and, List.any_eq_false] at hfree
      refine ⟨rfl, hnone, ?_, ?_, fun _ => hdistinct.1, fun _ => hfresh, ?_⟩
      · intro hz
        cases hspend.symm.trans hz
      · intro _ txin hin
        exact Option.not_isSome_iff_eq_none.mp (hfree txin hin)
      · intro _ txin hin
        exact ⟨_, (hheld txin hin).2⟩

/-- `IsTransactionInChain` finds the transactions that have coins, but for those that wait
in the pool. -/
def FindsCoins (N : CMempoolNode) (pool : CTxMemPool) (view : CCoinsView) : Prop :=
  ∀ txid, pool.mapTx.lookup txid = none → (view.coins txid).IsPruned = false →
    (N.IsTransactionInChain txid).isSome = true

section
variable {entry : CTxMemPoolEntry}

theorem Accepted.linked (h : Accepted N pool view tx entry) (hlinked : WellLinked pool)
    (hapart : Apart (tx :: pool.txs)) : WellLinked (pool.addUnchecked tx.hash entry) := by
  obtain ⟨rfl, hnew, -, hfree, hdistinct, -, -⟩ := h
  exact addUnchecked_linked hlinked hnew hfree hdistinct hapart

section
variable (h : Accepted N pool view tx entry) (hfinds : FindsCoins N pool view)
include h hfinds

theorem Accepted.no_coin
    {n : Nat} {o : CTxOut} : ¬ ((CCoinsViewMemPool view pool).coins tx.hash).Holds n o := by
  intro hheld
  cases hspend : tx.IsZerocoinSpend with
  | true =>
    have hcoin := ((holds_of_absent h.new).mp hheld).not_isPruned
    have hchain := hfinds tx.hash h.new hcoin
    rw [h.unknown hspend] at hchain
    cases hchain
  | false =>
    have hfresh := h.fresh hspend
    rw [CCoinsView.HasCoins, Bool.not_eq_false', List.isEmpty_iff] at hfresh
    have hthere := hheld.there
    rw [hfresh] at hthere
    cases hthere

theorem Accepted.still_finds {out : COutPoint} {o : CTxOut} (hfound : pool.Finds view out o) :
    (pool.addUnchecked tx.hash entry).Finds view out o := by
  have hother : out.hash ≠ tx.hash := by
    intro heq
    rw [Finds, heq] at hfound
    exact h.no_coin hfinds hfound
  have hsame : (CCoinsViewMemPool view (pool.addUnchecked tx.hash entry)).coins out.hash =
      (CCoinsViewMemPool view pool).coins out.hash := by
    rw [coins_CCoinsViewMemPool, lookup_addUnchecked, if_neg hother]
    rfl
  rw [Finds, hsame]
  exact hfound

/-- **A transaction comes in.**  What waits for it finds it. -/
theorem Accepted.backed
    (hids : ∀ t ∈ rest, t.hash = tx.hash → t = tx) (hback : CoinsBacked pool view (tx :: rest)) :
    CoinsBacked (pool.addUnchecked tx.hash entry) view rest := by
  intro hash e hlook hspend txin hin
  rw [lookup_addUnchecked] at hlook
  split_ifs at hlook with heq
  · cases hlook
    rw [h.mine] at hspend hin
    obtain ⟨o, hfound⟩ := h.finds hspend txin hin
    exact ⟨o, .inl (h.still_finds hfinds hfound)⟩
  · obtain ⟨o, hfound | ⟨habsent, t, ht, hhash, hout, hspendable⟩⟩ :=
      hback hash e hlook hspend txin hin
    · exact ⟨o, .inl (h.still_finds hfinds hfound)⟩
    · have hmine : t.hash = tx.hash → t = tx := by
        intro hsame
        rcases List.mem_cons.mp ht with rfl | ht
        · rfl
        · exact hids t ht hsame
      rcases eq_or_ne t.hash tx.hash with hsame | hne
      · obtain rfl := hmine hsame
        have hthere : (pool.addUnchecked t.hash entry).mapTx.lookup txin.prevout.hash =
            some entry := by
          rw [lookup_addUnchecked, if_pos hhash.symm]
        refine ⟨o, .inl ((holds_of_lookup hthere).mpr ?_)⟩
        rw [h.mine]
        exact ⟨hout, hspendable⟩
      · refine ⟨o, .inr ⟨?_, t, ?_, hhash, hout, hspendable⟩⟩
        · rw [lookup_addUnchecked, if_neg (hhash ▸ hne)]
          exact habsent
        · refine (List.mem_cons.mp ht).resolve_left ?_
          rintro rfl
          exact hne rfl

end

end

/-! ## A block comes and goes -/

theorem CTxMemPool.Mined.backed {block : CBlock} {N : CConnectNode} {pindexNew pprev : CBlockIndex}
    {fAlreadyChecked : Bool} {c : Connected} (h : Mined pool block.vtx pool')
    (hlinked : WellLinked pool) (hback : CoinsBacked pool view [])
    (hids : ∀ t ∈ pool.txs, ∀ tx ∈ block.vtx, tx.hash = t.hash → tx = t)
    (hgenesis : block.hash ≠ N.hashGenesisBlock) (hbip30 : fEnforceBIP30 pindexNew = true)
    (hc : ConnectBlock N block pindexNew pprev view false fAlreadyChecked = .ok c) :
    CoinsBacked pool' c.view [] := by
  intro hash entry hlook hspend txin hin
  obtain ⟨o, hfinds⟩ := hback.finds (h.sub hash entry hlook) hspend hin
  -- no transaction of the block takes the output
  have hnot : ∀ tx ∈ block.vtx, ∀ t ∈ tx.vin, t.prevout ≠ txin.prevout := by
    intro tx htx t ht heq
    obtain ⟨k, hk⟩ := List.getElem?_of_mem hin
    have hentered := h.linked.entered hlook hspend hk
    rw [← heq, h.free tx htx t ht] at hentered
    cases hentered
  cases hparent : pool.mapTx.lookup txin.prevout.hash with
  | none =>
    have hheld := (holds_of_absent hparent).mp hfinds
    refine ⟨o, .inl ((holds_of_absent (h.sub.absent hparent)).mpr ?_)⟩
    refine ConnectBlock_holds hgenesis hc hnot ?_ hheld.spendable (.inl hheld)
    intro tx htx hhash
    have hpruned := ConnectBlock_BIP30 hgenesis hbip30 hc tx htx
    rw [hhash, hheld.not_isPruned] at hpruned
    cases hpruned
  | some parent =>
    obtain ⟨hout, hspendable⟩ := (holds_of_lookup hparent).mp hfinds
    have hn := (List.getElem?_eq_some_iff.mp hout).1
    rcases h.closed hash entry hlook hspend txin hin parent hparent hn with hleft | hmined
    · exact ⟨o, .inl ((holds_of_lookup hleft).mpr ⟨hout, hspendable⟩)⟩
    · -- the parent is of the block, and now it has coins
      obtain ⟨t, ht, hhash⟩ := hmined
      have hgone : pool'.mapTx.lookup txin.prevout.hash = none := hhash ▸ h.gone t ht
      refine ⟨o, .inl ((holds_of_absent hgone).mpr ?_)⟩
      refine ConnectBlock_holds hgenesis hc hnot ?_ hspendable (.inr ⟨t, ht, hhash⟩)
      intro tx htx hsame
      rw [hids parent.tx (mem_txs.mpr ⟨_, parent, hparent, rfl⟩) tx htx
        (hsame.trans (hlinked.named hparent).symm)]
      exact hout

theorem CTxMemPool.CoinsBacked.disconnected {N : CDisconnectNode} {block : CBlock}
    {pindexDelete pprev : CBlockIndex}
    {view' : CCoinsView} (hback : CoinsBacked pool view [])
    (h : DisconnectBlock N block pindexDelete pprev view = .ok (view', true)) :
    CoinsBacked pool view' block.vtx := by
  intro hash entry hlook hspend txin hin
  obtain ⟨o, hfinds⟩ := hback.finds hlook hspend hin
  cases hparent : pool.mapTx.lookup txin.prevout.hash with
  | some parent =>
    have hout := (holds_of_lookup hparent).mp hfinds
    exact ⟨o, .inl ((holds_of_lookup hparent).mpr hout)⟩
  | none =>
    have hheld := (holds_of_absent hparent).mp hfinds
    rcases DisconnectBlock_holds h hheld with ⟨tx, htx, hhash, hout⟩ | hleft
    · exact ⟨o, .inr ⟨hparent, tx, htx, hhash, hout, hheld.spendable⟩⟩
    · exact ⟨o, .inl ((holds_of_absent hparent).mpr hleft)⟩

variable {M : CTxMemPool → CMempoolNode} {vtx : List CTransaction}

/-- **The transactions of a disconnected block come back one by one**, or what waits for
them goes: what every round keeps holds in the end. -/
theorem resurrect_inv {I : List CTransaction → CTxMemPool → Prop}
    (hremove : ∀ tx vtx pool, I (tx :: vtx) pool → I vtx (pool.remove tx [] true).1)
    (haccept : ∀ tx vtx pool entry, I (tx :: vtx) pool → Accepted (M pool) pool view tx entry →
      I vtx (pool.addUnchecked tx.hash entry))
    (h : I vtx pool) : I [] (resurrect M view vtx pool) := by
  induction vtx generalizing pool with
  | nil => exact h
  | cons tx vtx ih =>
    refine ih ?_
    split
    · exact hremove tx vtx pool h
    · cases hres : AcceptToMemoryPool (M pool) pool view tx false false false with
      | error e => exact hremove tx vtx pool h
      | ok next =>
        obtain ⟨entry, rfl, haccepted⟩ := AcceptToMemoryPool_ok hres
        exact haccept tx vtx pool entry h haccepted

theorem resurrect_from :
    ∀ t ∈ (resurrect M view vtx pool).txs, t ∈ vtx ∨ t ∈ pool.txs := by
  intro t ht
  refine @resurrect_inv pool view M vtx
    (fun left next => ∀ t, t ∈ left ∨ t ∈ next.txs → t ∈ vtx ∨ t ∈ pool.txs) ?_ ?_
    (fun _ => id) t (.inr ht)
  · intro tx left next h t ht
    exact h t (ht.imp (.tail _) (remove_sub.txs t))
  · intro tx left next entry h haccepted t ht
    rcases ht with ht | ht
    · exact h t (.inl (.tail _ ht))
    · rw [addUnchecked_txs haccepted.new, haccepted.mine] at ht
      rcases List.mem_cons.mp ht with rfl | ht
      · exact h t (.inl (.head _))
      · exact h t (.inr ht)

theorem resurrect_sound
    (hids : ∀ tx ∈ vtx, ∀ t ∈ vtx, t.hash = tx.hash → t = tx)
    (hfinds : ∀ pool, FindsCoins (M pool) pool view) (hapart : Apart (vtx ++ pool.txs))
    (hlinked : WellLinked pool) (hback : CoinsBacked pool view vtx) :
    WellLinked (resurrect M view vtx pool) ∧ CoinsBacked (resurrect M view vtx pool) view [] := by
  refine (resurrect_inv (M := M) (I := fun left next => left ⊆ vtx ∧ Apart (left ++ next.txs) ∧
    WellLinked next ∧ CoinsBacked next view left) ?_ ?_ ⟨fun _ => id, hapart, hlinked, hback⟩).2.2
  · intro tx left next ⟨hsub, hapart, hlinked, hback⟩
    refine ⟨fun t ht => hsub (.tail _ ht), hapart.mono fun t ht => ?_,
      (remove_thins hlinked).linked, remove_backed hlinked hback⟩
    rcases List.mem_append.mp ht with ht | ht
    · exact List.mem_append_left _ (.tail _ ht)
    · exact List.mem_append_right _ (remove_sub.txs t ht)
  · intro tx left next entry ⟨hsub, hapart, hlinked, hback⟩ haccepted
    have htxs : (next.addUnchecked tx.hash entry).txs = tx :: next.txs := by
      rw [addUnchecked_txs haccepted.new, haccepted.mine]
    refine ⟨fun t ht => hsub (.tail _ ht), ?_, haccepted.linked hlinked ?_,
      haccepted.backed (hfinds next) ?_ hback⟩
    · rw [htxs]
      exact hapart.mono fun t ht => List.perm_middle.subset ht
    · refine hapart.mono fun t ht => ?_
      rcases List.mem_cons.mp ht with rfl | ht
      · exact .head _
      · exact List.mem_append_right _ ht
    · intro t ht
      exact hids tx (hsub (.head _)) t (hsub (.tail _ ht))

/-- What the steps keep, the transactions being of `U`. -/
structure SoundPool (U : Set CTransaction) (s : PoolState) : Prop where
  linked : WellLinked s.mempool
  backed : CoinsBacked s.mempool s.pcoinsTip []
  known : ∀ tx ∈ s.mempool.txs, tx ∈ U

/-- What is asked of a step: its transactions are of `U`; the zerocoin spends it offers to
the pool stay apart from the ordinary transactions; a connected block is neither the genesis
block nor one that BIP30 exempts; and the node finds the transactions that have coins. -/
def Meets (U : Set CTransaction) (s : PoolState) : PoolEvent → Prop
  | .accept N tx _ _ _ =>
    tx ∈ U ∧ Apart (tx :: s.mempool.txs) ∧ FindsCoins N s.mempool s.pcoinsTip
  | .connectTip N block pindexNew _ _ =>
    (∀ tx ∈ block.vtx, tx ∈ U) ∧ block.hash ≠ N.hashGenesisBlock ∧ fEnforceBIP30 pindexNew = true
  | .disconnectTip N M block pindexDelete pprev _ =>
    (∀ tx ∈ block.vtx, tx ∈ U) ∧ Apart (block.vtx ++ s.mempool.txs) ∧
      ∀ view, DisconnectBlock N block pindexDelete pprev s.pcoinsTip = .ok (view, true) →
        ∀ pool, FindsCoins (M pool) pool view
  | .lockInputs _ => True

theorem poolStep_sound {U : Set CTransaction} (hU : Set.InjOn CTransaction.hash U) {s : PoolState}
    {e : PoolEvent} (hs : SoundPool U s) (hmeets : Meets U s e) : SoundPool U (poolStep s e) := by
  cases e with
  | accept N tx fLimitFree fRejectInsaneFee ignoreFees =>
    obtain ⟨hknown, hapart, hfinds⟩ := hmeets
    rw [poolStep]
    cases hres : AcceptToMemoryPool N s.mempool s.pcoinsTip tx fLimitFree fRejectInsaneFee
        ignoreFees with
    | error e => exact hs
    | ok pool =>
      obtain ⟨entry, rfl, haccepted⟩ := AcceptToMemoryPool_ok hres
      have hawaiting : CoinsBacked s.mempool s.pcoinsTip [tx] := by
        intro hash e hlook hspend txin hin
        obtain ⟨o, hfound⟩ := hs.backed.finds hlook hspend hin
        exact ⟨o, .inl hfound⟩
      refine ⟨haccepted.linked hs.linked hapart, haccepted.backed hfinds ?_ hawaiting, ?_⟩
      · exact nofun
      · intro t ht
        rw [addUnchecked_txs haccepted.new, haccepted.mine] at ht
        rcases List.mem_cons.mp ht with rfl | ht
        · exact hknown
        · exact hs.known t ht
  | connectTip N block pindexNew pprev fAlreadyChecked =>
    obtain ⟨hknown, hgenesis, hbip30⟩ := hmeets
    rw [poolStep]
    cases hc : ConnectBlock N block pindexNew pprev s.pcoinsTip false fAlreadyChecked with
    | error e => exact hs
    | ok c =>
      have hmined : Mined s.mempool block.vtx (s.mempool.removeForBlock block.vtx []).1 :=
        removeForBlock_mined hs.linked block.vtx
      refine ⟨hmined.linked, hmined.backed hs.linked hs.backed ?_ hgenesis hbip30 hc, ?_⟩
      · exact fun t ht tx htx heq => hU (hknown tx htx) (hs.known t ht) heq
      · exact fun t ht => hs.known t (hmined.sub.txs t ht)
  | disconnectTip N M block pindexDelete pprev cached =>
    obtain ⟨hknown, hapart, hfinds⟩ := hmeets
    rw [poolStep]
    split
    · next view hdisc =>
        obtain ⟨hlinked, hback⟩ := resurrect_sound (M := M)
          (fun tx htx t ht heq => hU (hknown t ht) (hknown tx htx) heq) (hfinds view hdisc)
          hapart hs.linked (hs.backed.disconnected hdisc)
        have hthins : Thins (resurrect M view block.vtx s.mempool)
            ((resurrect M view block.vtx s.mempool).removeCoinbaseSpends N.P view cached
              pindexDelete.nHeight) := removeCoinbaseSpends_thins hlinked
        refine ⟨hthins.linked, hthins.backed hback, fun t ht => ?_⟩
        rcases resurrect_from t (hthins.sub.txs t ht) with ht | ht
        · exact hknown t ht
        · exact hs.known t ht
    · exact hs
  | lockInputs txLock =>
    have hthins : Thins s.mempool (s.mempool.removeConflicts txLock []).1 :=
      removeConflicts_thins hs.linked
    exact ⟨hthins.linked, hthins.backed hs.backed, fun t ht => hs.known t (hthins.sub.txs t ht)⟩

def PoolState.start (view : CCoinsView) : PoolState := ⟨.empty, view⟩

/-- **What `check` asserts, throughout a run.**  With the zerocoin spends put aside it holds in
every state; as it stands, it holds as long as the pool has no zerocoin spend. -/
theorem pool_checked_iff {U : Set CTransaction} (hU : Set.InjOn CTransaction.hash U)
    (view : CCoinsView) (es : List PoolEvent)
    (hmeets : Run.Guarded poolStep (Meets U) (.start view) es) :
    Run.Throughout poolStep
        (fun s => s.mempool.checkBut CTransaction.IsZerocoinSpend s.pcoinsTip = true)
        (.start view) es ∧
      (Run.Throughout poolStep (fun s => s.mempool.check s.pcoinsTip = true) (.start view) es ↔
        Run.Throughout poolStep (fun s => ∀ tx ∈ s.mempool.txs, tx.IsZerocoinSpend = false)
          (.start view) es) := by
  have hstart : SoundPool U (.start view) := ⟨linked_empty, backed_empty, nofun⟩
  have hsound : Run.Throughout poolStep (SoundPool U) (.start view) es :=
    Run.throughout_of_guarded (fun _ _ hs hm => poolStep_sound hU hs hm) hstart hmeets
  constructor
  · intro past hpast
    have hs := hsound past hpast
    exact hs.linked.checkBut_of_backed hs.backed
  · constructor
    · intro hall past hpast
      exact ((hsound past hpast).linked.check_iff.mp (hall past hpast)).2
    · intro hnone past hpast
      have hs := hsound past hpast
      exact hs.linked.check_iff.mpr ⟨hs.linked.checkBut_of_backed hs.backed, hnone past hpast⟩

/-! ## Two transactions, for example -/

def poolNode : CMempoolNode :=
  { quietNode 300000 with
    IsTransactionInChain := fun txid => if txid = 7 then some 5 else none
    RequireStandard := true
    IsStandardTx := fun _ => none
    AreInputsStandard := fun _ _ => true
    mapObfuscationBroadcastTxes := fun _ => false
    GetMinRelayFee := fun _ _ => 10000
    GetFee := fun _ => 10000
    relaypriority := true
    AllowFree := fun _ _ => false
    freeLimitReached := false
    VerifyScript := fun _ _ _ => true }

/-- The coin of the examples is paid on. -/
def payment : CTransaction := ⟨300, 1, [⟨⟨7, 0⟩, [], 0⟩], [⟨COIN - 20000, [1]⟩], 0⟩

/-- A zerocoin is redeemed; as the wallet makes them, its input names no output. -/
def redemption : CTransaction :=
  ⟨301, 1, [⟨.SetNull, [OP_ZEROCOINSPEND, 1, 0], 1⟩], [⟨COIN, [1]⟩], 0⟩

def offered (tx : CTransaction) : List PoolEvent := [.accept poolNode tx true false false]

theorem poolNode_finds (pool : CTxMemPool) : FindsCoins poolNode pool oneCoin := by
  intro txid _ hcoin
  show (if txid = 7 then some (5 : Int) else none).isSome = true
  split_ifs with heq
  · rfl
  · have hnone : oneCoin.coins txid = .null := if_neg heq
    rw [hnone] at hcoin
    cases hcoin

theorem offered_meets (tx : CTransaction) :
    Run.Guarded poolStep (Meets {tx}) (.start oneCoin) (offered tx) := by
  refine ⟨⟨rfl, ?_, ?_⟩, trivial⟩
  · intro z hz hspend other hother hordinary
    obtain rfl := List.mem_singleton.mp hz
    obtain rfl := List.mem_singleton.mp hother
    exact nomatch hspend.symm.trans hordinary
  · exact poolNode_finds _

/-- The payment is taken, and the pool checks. -/
theorem payment_checked :
    ((offered payment).foldl poolStep (.start oneCoin)).mempool.contains 300 = true ∧
      Run.Throughout poolStep (fun s => s.mempool.check s.pcoinsTip = true) (.start oneCoin)
        (offered payment) := by
  have hafter : (poolStep (.start oneCoin) (.accept poolNode payment true false
      false)).mempool.txs = [payment] := by
    decide +kernel
  refine ⟨by decide +kernel, (pool_checked_iff (Set.injOn_singleton _ _) oneCoin (offered payment)
    (offered_meets payment)).2.mpr ?_⟩
  rw [offered, Run.throughout_cons, Run.throughout_nil]
  refine ⟨nofun, ?_⟩
  intro tx htx
  rw [List.mem_singleton.mp htx]
  rfl

/-- The redemption is taken too, and the pool does not check. -/
theorem redemption_not_checked :
    ¬ (∀ (U : Set CTransaction) (view : CCoinsView) (es : List PoolEvent),
        Set.InjOn CTransaction.hash U → Run.Guarded poolStep (Meets U) (.start view) es →
        Run.Throughout poolStep (fun s => s.mempool.check s.pcoinsTip = true)
          (.start view) es) := by
  intro hall
  have hchecked := hall {redemption} oneCoin (offered redemption) (Set.injOn_singleton _ _)
    (offered_meets redemption) (offered redemption) (List.prefix_refl _)
  have hnot : (poolStep (.start oneCoin) (.accept poolNode redemption true false
      false)).mempool.check oneCoin = false := by
    decide +kernel
  cases hnot.symm.trans hchecked

end Divitae
