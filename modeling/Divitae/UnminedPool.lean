/-
# `UnminedPool` — a transaction of the pool has no coins

What is accepted has no coins and is not on the chain; what a connected block makes coins of leaves
the pool.  A disconnected block gives back outputs that its transactions had taken, and these are
of transactions of the chain.  So in every run of a node that knows its chain (`KnowsChain`) no
output of a pool transaction is live (`pool_unmined`).
-/
import Divitae.PoolConflicts

namespace Divitae

open CTxMemPool

variable {pool pool' : CTxMemPool} {view view' : CCoinsView} {tx : CTransaction}

section
variable {N : CConnectNode} {block : CBlock} {pindex pprev : CBlockIndex} {out : COutPoint}

variable {vtx : List CTransaction}

theorem connectTxs_makes {first : Bool} {st st' : ConnectState}
    (h : connectTxs N block pindex first vtx st = .ok st') (hlive : st'.view.Live out) :
    st.view.Live out ∨ ∃ tx ∈ vtx, tx.hash = out.hash := by
  induction vtx generalizing first st with
  | nil =>
    cases h
    exact .inl hlive
  | cons tx vtx ih =>
    simp only [connectTxs, bind_eq_ok] at h
    obtain ⟨mid, hmid, hrest⟩ := h
    obtain ⟨vprevout, hup⟩ := connectTx_updates hmid
    rcases ih hrest with hbefore | ⟨t, ht, heq⟩
    · rcases (UpdateCoins_live hup).1 out hbefore with heq | ⟨hfirst, -⟩
      · exact .inr ⟨tx, .head _, heq.symm⟩
      · exact .inl hfirst
    · exact .inr ⟨t, .tail _ ht, heq⟩

theorem ConnectBlock_makes {fAlreadyChecked : Bool} {c : Connected}
    (h : ConnectBlock N block pindex pprev view false fAlreadyChecked = .ok c)
    (hlive : c.view.Live out) : view.Live out ∨ ∃ tx ∈ block.vtx, tx.hash = out.hash := by
  by_cases hgenesis : block.hash = N.hashGenesisBlock
  · obtain rfl := ConnectBlock_genesis hgenesis h
    exact .inl hlive
  · obtain ⟨st, hrun, hview, -⟩ := ConnectBlock_run hgenesis h
    exact connectTxs_makes hrun ((hview out).mp hlive)

end

theorem removeConflicts_sub {removed : List CTransaction} :
    Sub (pool.removeConflicts tx removed).1 pool :=
  List.foldlRecOn tx.vin _ (motive := (Sub · pool) ∘ Prod.fst) (fun _ _ h => h)
    fun _ hs _ _ => removeConflict_inv (I := (Sub · pool)) hs
      fun _ _ hash entry h => hs hash entry (remove_sub _ _ h)

theorem removeMined_sub {s : CTxMemPool × List CTransaction} : Sub (removeMined s tx).1 s.1 :=
  fun hash entry h => remove_sub hash entry (removeConflicts_sub hash entry h)

theorem removeForBlock_leaves (vtx : List CTransaction) (conflicts : List CTransaction) :
    Sub (pool.removeForBlock vtx conflicts).1 pool ∧
      ∀ tx ∈ vtx, (pool.removeForBlock vtx conflicts).1.mapTx.lookup tx.hash = none := by
  have hfold : ∀ (vtx : List CTransaction) (s : CTxMemPool × List CTransaction),
      Sub (vtx.foldl removeMined s).1 s.1 ∧
        ∀ tx ∈ vtx, (vtx.foldl removeMined s).1.mapTx.lookup tx.hash = none := by
    intro vtx
    induction vtx with
    | nil => exact fun s => ⟨fun hash entry h => h, nofun⟩
    | cons tx vtx ih =>
      intro s
      obtain ⟨hsub, hgone⟩ := ih (removeMined s tx)
      refine ⟨fun hash entry h => removeMined_sub hash entry (hsub hash entry h), ?_⟩
      intro t ht
      rcases List.mem_cons.mp ht with rfl | ht
      · exact hsub.absent (removeConflicts_sub.absent remove_gone)
      · exact hgone t ht
  exact hfold vtx (pool, conflicts)

/-! ## The pool over the coins -/

/-- The transactions stand under their hashes, and none of them has a coin. -/
def CTxMemPool.Unmined (pool : CTxMemPool) (view : CCoinsView) : Prop :=
  ∀ hash entry, pool.mapTx.lookup hash = some entry →
    entry.tx.hash = hash ∧ ∀ n, ¬ view.Live ⟨hash, n⟩

theorem CTxMemPool.Unmined.fewer (h : pool.Unmined view) (hsub : Sub pool' pool) :
    pool'.Unmined view :=
  fun hash entry hlook => h hash entry (hsub hash entry hlook)

section
variable {N : CMempoolNode} {entry : CTxMemPoolEntry}

theorem Accepted.isPruned (h : Accepted N pool view tx entry) (hfinds : FindsCoins N pool view) :
    (view.coins tx.hash).IsPruned = true := by
  cases hp : (view.coins tx.hash).IsPruned with
  | true => rfl
  | false =>
    cases hspend : tx.IsZerocoinSpend with
    | true =>
      have hchain := hfinds tx.hash h.new hp
      rw [h.unknown hspend] at hchain
      cases hchain
    | false =>
      have hfresh := h.fresh hspend
      have hcoins : (CCoinsViewMemPool view pool).coins tx.hash = view.coins tx.hash := by
        rw [coins_CCoinsViewMemPool, h.new]
        rw [hp, if_neg Bool.false_ne_true]
      rw [CCoinsView.HasCoins, hcoins, Bool.not_eq_false', List.isEmpty_iff] at hfresh
      rw [CCoins.IsPruned, hfresh] at hp
      cases hp

theorem CTxMemPool.Unmined.accept (h : pool.Unmined view) (hfinds : FindsCoins N pool view)
    (haccepted : Accepted N pool view tx entry) :
    (pool.addUnchecked tx.hash entry).Unmined view := by
  intro hash e hlook
  rw [lookup_addUnchecked] at hlook
  split_ifs at hlook with heq
  · cases hlook
    refine ⟨(congrArg CTransaction.hash haccepted.mine).trans heq.symm, fun n => ?_⟩
    rw [heq]
    exact CCoinsView.not_live_of_isPruned (haccepted.isPruned hfinds)
  · exact h hash e hlook

end

theorem CTxMemPool.Unmined.resurrect {M : CTxMemPool → CMempoolNode}
    (hfinds : ∀ pool, FindsCoins (M pool) pool view) (h : pool.Unmined view) :
    (resurrect M view vtx pool).Unmined view :=
  resurrect_inv (I := fun _ pool => pool.Unmined view) (fun _ _ _ h => h.fewer remove_sub)
    (fun _ _ pool _ h haccepted => h.accept (hfinds pool) haccepted) h

/-- The node finds the transactions that have coins, and no transaction of a block of the chain
takes an output of one that waits in the pool. -/
def KnowsChain (s : PoolState) : PoolEvent → Prop
  | .accept N _ _ _ _ => FindsCoins N s.mempool s.pcoinsTip
  | .connectTip .. => True
  | .disconnectTip N M block pindexDelete pprev _ =>
    (∀ view, DisconnectBlock N block pindexDelete pprev s.pcoinsTip = .ok (view, true) →
      ∀ pool, FindsCoins (M pool) pool view) ∧
    ∀ tx ∈ s.mempool.txs, ∀ out ∈ block.spends, out.hash ≠ tx.hash
  | .lockInputs _ => True

theorem poolStep_unmined {s : PoolState} {e : PoolEvent} (h : s.mempool.Unmined s.pcoinsTip)
    (hknows : KnowsChain s e) : (poolStep s e).mempool.Unmined (poolStep s e).pcoinsTip := by
  cases e with
  | accept N tx fLimitFree fRejectInsaneFee ignoreFees =>
    rw [poolStep]
    cases hres : AcceptToMemoryPool N s.mempool s.pcoinsTip tx fLimitFree fRejectInsaneFee
        ignoreFees with
    | error e => exact h
    | ok pool =>
      obtain ⟨entry, rfl, haccepted⟩ := AcceptToMemoryPool_ok hres
      exact h.accept hknows haccepted
  | connectTip N block pindexNew pprev fAlreadyChecked =>
    rw [poolStep]
    cases hc : ConnectBlock N block pindexNew pprev s.pcoinsTip false fAlreadyChecked with
    | error e => exact h
    | ok c =>
      obtain ⟨hsub, hgone⟩ := @removeForBlock_leaves s.mempool block.vtx []
      intro hash entry hlook
      obtain ⟨hname, hnone⟩ := h hash entry (hsub hash entry hlook)
      refine ⟨hname, fun n hlive => ?_⟩
      rcases ConnectBlock_makes hc hlive with hbefore | ⟨tx, htx, heq⟩
      · exact hnone n hbefore
      · have hnothing := hgone tx htx
        rw [heq] at hnothing
        exact absurd (hnothing.symm.trans hlook) (Option.some_ne_none entry).symm
  | disconnectTip N M block pindexDelete pprev cached =>
    obtain ⟨hfinds, hapart⟩ := hknows
    rw [poolStep]
    split
    · next view hdisc =>
        have hback : s.mempool.Unmined view := by
          intro hash entry hlook
          obtain ⟨hname, hnone⟩ := h hash entry hlook
          refine ⟨hname, fun n hlive => ?_⟩
          rcases DisconnectBlock_live hdisc hlive with hbefore | hspent
          · exact hnone n hbefore
          · exact hapart entry.tx (mem_txs.mpr ⟨hash, entry, hlook, rfl⟩) _ hspent hname.symm
        exact (hback.resurrect (hfinds view hdisc)).fewer removeCoinbaseSpends_sub
    · exact h
  | lockInputs txLock => exact h.fewer removeConflicts_sub

/-- **A transaction of the pool has no coins**, in every state that a node which knows its chain
reaches. -/
theorem pool_unmined {es : List PoolEvent}
    (hknows : Run.Guarded poolStep KnowsChain (.start view) es) :
    (es.foldl poolStep (.start view)).mempool.Unmined (es.foldl poolStep (.start view)).pcoinsTip :=
  Run.run_inv (I := fun s => s.mempool.Unmined s.pcoinsTip)
    (fun _ _ hs hk => poolStep_unmined hs hk) nofun hknows

end Divitae
