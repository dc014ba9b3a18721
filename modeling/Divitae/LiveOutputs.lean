/-
# `LiveOutputs` — which outputs a block uses up, and which come back

An output is live in a view while its slot is not null.  Connecting a block whose
transaction ids are new uses up what the block spends and makes nothing live but its own
outputs; disconnecting a block makes nothing live but what the block spent.
-/
import Divitae.StakeSpent

namespace Divitae

open Slots List CTransaction

/-- The view still holds the output. -/
def CCoinsView.Live (view : CCoinsView) (out : COutPoint) : Prop :=
  ((view.coins out.hash).output out.n).IsNull = false

/-! ## One coin -/

namespace CCoins

variable {c left : CCoins} {n m : Nat}

theorem output_Cleanup (h : (c.Cleanup.output m).IsNull = false) : (c.output m).IsNull = false := by
  have hprefix : c.vout.rdropWhile CTxOut.IsNull <+: c.vout := rdropWhile_prefix _ _
  show (slot .null c.vout m).IsNull = false
  have hshort : (slot .null (c.vout.rdropWhile CTxOut.IsNull) m).IsNull = false := h
  unfold slot at hshort ⊢
  rcases Nat.lt_or_ge m (c.vout.rdropWhile CTxOut.IsNull).length with hlt | hge
  · rw [getD_eq_getElem _ _ hlt, hprefix.getElem hlt] at hshort
    rwa [getD_eq_getElem _ _ (Nat.lt_of_lt_of_le hlt hprefix.length_le)]
  · rw [getD_eq_default _ _ hge] at hshort
    cases hshort

theorem output_of_isPruned (h : c.IsPruned = true) : (c.output m).IsNull = true := by
  unfold output slot
  rcases Nat.lt_or_ge m c.vout.length with hlt | hge
  · rw [getD_eq_getElem _ _ hlt]
    exact all_eq_true.mp h _ (getElem_mem hlt)
  · rw [getD_eq_default _ _ hge]
    rfl

theorem Spend_live {undo : CTxInUndo} (h : c.Spend n = some (left, undo)) :
    (c.output n).IsNull = false ∧
      ∀ m, (left.output m).IsNull = false → m ≠ n ∧ (c.output m).IsNull = false := by
  unfold Spend at h
  split at h
  · cases h
  next txout hout =>
    split at h
    · cases h
    next hthere =>
      have hn : n < c.vout.length := (List.getElem?_eq_some_iff.mp hout).1
      have hleft : left = Cleanup { c with vout := c.vout.set n .null } := by
        dsimp only at h
        split at h
        · cases h
          rfl
        · cases h
          rfl
      refine ⟨by rw [output_eq_getElem hout]; simpa using hthere, ?_⟩
      intro m hm
      rw [hleft] at hm
      have hset := output_Cleanup hm
      rw [show (CCoins.output { c with vout := c.vout.set n .null } m) =
        slot .null (c.vout.set n .null) m from rfl, slot_set hn] at hset
      split at hset
      · cases hset
      next hne => exact ⟨hne, hset⟩

end CCoins

namespace CCoinsView

variable {view : CCoinsView} {out : COutPoint} {txid : uint256} {c : CCoins}

theorem live_modify (h : (view.ModifyCoins txid fun _ => c).Live out) :
    out.hash = txid ∧ (c.output out.n).IsNull = false ∨ out.hash ≠ txid ∧ view.Live out := by
  unfold Live at h ⊢
  rw [coins_ModifyCoins] at h
  split at h
  next heq => exact .inl ⟨heq, CCoins.output_Cleanup h⟩
  next hne => exact .inr ⟨hne, h⟩

theorem not_live_of_isPruned (h : (view.coins out.hash).IsPruned = true) : ¬ view.Live out := by
  unfold Live
  rw [CCoins.output_of_isPruned h]
  exact Bool.noConfusion

theorem live_of_available (h : (view.coins out.hash).IsAvailable out.n = true) : view.Live out := by
  unfold CCoins.IsAvailable at h
  split at h
  · cases h
  next txout hout =>
    unfold Live
    rw [CCoins.output_eq_getElem hout]
    simp only [Bool.and_eq_true, Bool.not_eq_true'] at h
    exact h.1

end CCoinsView

/-! ## Transactions that connect -/

/-- The inputs of a transaction that takes coins. -/
def CTransaction.spends (tx : CTransaction) : List COutPoint :=
  if takesCoins tx then tx.vin.map CTxIn.prevout else []

theorem mem_spends {block : CBlock} {out : COutPoint} :
    out ∈ block.spends ↔ ∃ tx ∈ block.vtx, out ∈ tx.spends := by
  unfold CBlock.spends spends
  simp only [mem_flatMap, mem_filter]
  constructor
  · rintro ⟨tx, ⟨htx, htakes⟩, hout⟩
    exact ⟨tx, htx, by rwa [if_pos htakes]⟩
  · rintro ⟨tx, htx, hout⟩
    split at hout
    next htakes => exact ⟨tx, ⟨htx, htakes⟩, hout⟩
    · cases hout

theorem spendInputs_live : ∀ {vin : List CTxIn} {view view' : CCoinsView}
    {vprevout : List CTxInUndo}, spendInputs vin view = some (view', vprevout) →
    (∀ out, view'.Live out → view.Live out ∧ out ∉ vin.map CTxIn.prevout) ∧
      ∀ out ∈ vin.map CTxIn.prevout, view.Live out
  | [], view, view', vprevout, h => by
    cases h
    exact ⟨fun out hlive => ⟨hlive, not_mem_nil⟩, nofun⟩
  | txin :: vin, view, view', vprevout, h => by
    rw [spendInputs] at h
    split at h
    · cases h
    next left undo hspend =>
      split at h
      · cases h
      next mid rest hrest =>
        cases h
        obtain ⟨hthere, hleft⟩ := CCoins.Spend_live hspend
        obtain ⟨hlive, hinputs⟩ := spendInputs_live hrest
        -- one input: nothing but it is gone
        have hone : ∀ out, (view.ModifyCoins txin.prevout.hash fun _ => left).Live out →
            view.Live out ∧ out ≠ txin.prevout := by
          intro out hout
          rcases CCoinsView.live_modify hout with ⟨hhash, hmod⟩ | ⟨hhash, hsame⟩
          · obtain ⟨hn, hbefore⟩ := hleft out.n hmod
            refine ⟨?_, fun heq => hn (congrArg COutPoint.n heq)⟩
            unfold CCoinsView.Live
            rw [hhash]
            exact hbefore
          · exact ⟨hsame, fun heq => hhash (congrArg COutPoint.hash heq)⟩
        refine ⟨fun out hout => ?_, fun out hout => ?_⟩
        · obtain ⟨hmid, hnot⟩ := hlive out hout
          obtain ⟨hview, hne⟩ := hone out hmid
          refine ⟨hview, fun hmem => ?_⟩
          rcases mem_cons.mp hmem with heq | hmem
          · exact hne heq
          · exact hnot hmem
        · rcases mem_cons.mp hout with rfl | hout
          · exact hthere
          · exact (hone out (hinputs out hout)).1

variable {tx : CTransaction} {vprevout : List CTxInUndo}

theorem UpdateCoins_live {view view' : CCoinsView} {nHeight : Int}
    (h : UpdateCoins tx view nHeight = some (view', vprevout)) :
    (∀ out, view'.Live out → out.hash = tx.hash ∨ view.Live out ∧ out ∉ tx.spends) ∧
      ∀ out ∈ tx.spends, view.Live out := by
  have hspent : ∃ mid : CCoinsView, view' = mid.ModifyCoins tx.hash (fun _ => .FromTx tx nHeight) ∧
      (∀ out, mid.Live out → view.Live out ∧ out ∉ tx.spends) ∧ ∀ out ∈ tx.spends,
        view.Live out := by
    unfold UpdateCoins at h
    cases htakes : takesCoins tx with
    | true =>
      rw [show (!tx.IsCoinBase && !tx.IsZerocoinSpend) = true from htakes] at h
      simp only [if_true] at h
      split at h
      · cases h
      next mid vprevout' hspend =>
        cases h
        unfold spends
        rw [if_pos htakes]
        exact ⟨mid, rfl, spendInputs_live hspend⟩
    | false =>
      rw [show (!tx.IsCoinBase && !tx.IsZerocoinSpend) = false from htakes] at h
      simp only [Bool.false_eq_true, if_false] at h
      cases h
      unfold spends
      rw [if_neg (by rw [htakes]; exact Bool.false_ne_true)]
      exact ⟨view, rfl, fun out hlive => ⟨hlive, not_mem_nil⟩, nofun⟩
  obtain ⟨mid, rfl, hmid, hinputs⟩ := hspent
  refine ⟨fun out hlive => ?_, hinputs⟩
  rcases CCoinsView.live_modify hlive with ⟨hhash, -⟩ | ⟨-, hsame⟩
  · exact .inl hhash
  · exact .inr (hmid out hsame)

section
variable {N : CConnectNode} {block : CBlock} {pindex : CBlockIndex}

theorem connectTx_updates {first : Bool} {st st' : ConnectState}
    (h : connectTx N block pindex first tx st = .ok st') :
    ∃ vprevout, UpdateCoins tx st.view pindex.nHeight = some (st'.view, vprevout) :=
  (connectTx_queues h).1

/-- The ids of the transactions are new: told apart, and none of a coin with outputs. -/
structure NewIds (view : CCoinsView) (vtx : List CTransaction) : Prop where
  apart : (vtx.map CTransaction.hash).Nodup
  unused : ∀ tx ∈ vtx, (view.coins tx.hash).IsPruned = true

/-- The loop over transactions with new ids: what is live behind it was live before or is
an output of one of them, and is spent by none; what they spend likewise. -/
theorem connectTxs_live : ∀ {vtx : List CTransaction} {first : Bool} {st st' : ConnectState},
    connectTxs N block pindex first vtx st = .ok st' → (vtx.map hash).Nodup →
    (∀ out, st.view.Live out → out.hash ∉ vtx.map hash) →
    (∀ out, st'.view.Live out → (st.view.Live out ∨ out.hash ∈ vtx.map hash) ∧
      ∀ tx ∈ vtx, out ∉ tx.spends) ∧
      ∀ tx ∈ vtx, ∀ out ∈ tx.spends, st.view.Live out ∨ out.hash ∈ vtx.map hash
  | [], _, st, st', h, _, _ => by
    cases h
    exact ⟨fun out hlive => ⟨.inl hlive, nofun⟩, nofun⟩
  | tx :: vtx, first, st, st', h, hapart, hnew => by
    simp only [connectTxs, bind_eq_ok] at h
    obtain ⟨mid, hmid, hrest⟩ := h
    obtain ⟨vprevout, hup⟩ := connectTx_updates hmid
    obtain ⟨hlive, hinputs⟩ := UpdateCoins_live hup
    obtain ⟨hhash, hapart'⟩ := nodup_cons.mp hapart
    have hnew' : ∀ out, mid.view.Live out → out.hash ∉ vtx.map hash := by
      intro out hout hmem
      rcases hlive out hout with heq | ⟨hbefore, -⟩
      · rw [heq] at hmem
        exact hhash hmem
      · exact hnew out hbefore (.tail _ hmem)
    obtain ⟨hafter, hspent⟩ := connectTxs_live hrest hapart' hnew'
    -- from before this transaction on
    have hback : ∀ out, (mid.view.Live out ∨ out.hash ∈ vtx.map hash) →
        st.view.Live out ∨ out.hash ∈ (tx :: vtx).map hash := by
      rintro out (hout | hmem)
      · rcases hlive out hout with heq | ⟨hbefore, -⟩
        · exact .inr (heq ▸ .head _)
        · exact .inl hbefore
      · exact .inr (.tail _ hmem)
    refine ⟨fun out hout => ?_, fun t ht out hout => ?_⟩
    · obtain ⟨hfrom, hnot⟩ := hafter out hout
      refine ⟨hback out hfrom, fun t ht => ?_⟩
      rcases mem_cons.mp ht with rfl | ht
      · -- its inputs were live before it, so they are neither its outputs nor later ones
        intro hmem
        have hbefore := hinputs out hmem
        rcases hfrom with hmid' | hlater
        · rcases hlive out hmid' with heq | ⟨-, hnot'⟩
          · exact hnew out hbefore (heq ▸ .head _)
          · exact hnot' hmem
        · exact hnew out hbefore (.tail _ hlater)
      · exact hnot t ht
    · rcases mem_cons.mp ht with rfl | ht
      · exact .inl (hinputs out hout)
      · exact hback out (hspent t ht out hout)

end

/-! ## Blocks that connect and disconnect -/

section
variable {N : CDisconnectNode} {block : CBlock} {pindex pprev : CBlockIndex}
  {view view' : CCoinsView}

variable {fAlreadyChecked : Bool} {c : Connected}

theorem ConnectBlock_run {N : CConnectNode}
    (hgenesis : block.hash ≠ N.hashGenesisBlock)
    (h : ConnectBlock N block pindex pprev view false fAlreadyChecked = .ok c) :
    ∃ st, connectTxs N block pindex true block.vtx (.start view) = .ok st ∧
      (∀ out, c.view.Live out ↔ st.view.Live out) ∧ c.pindex.nHeight = pindex.nHeight := by
  obtain ⟨pindex', st, -, -, htotals, rfl⟩ := ConnectBlock_ok hgenesis h
  obtain ⟨hrun, -, ⟨-, hheight, -⟩, -⟩ := connectTotals_parts htotals
  exact ⟨st, hrun, fun out => Iff.rfl, hheight⟩

theorem ConnectBlock_nHeight {N : CConnectNode}
    (h : ConnectBlock N block pindex pprev view false fAlreadyChecked = .ok c) :
    c.pindex.nHeight = pindex.nHeight := by
  by_cases hgenesis : block.hash = N.hashGenesisBlock
  · rw [ConnectBlock_genesis hgenesis h]
  · obtain ⟨_, -, -, hheight⟩ := ConnectBlock_run hgenesis h
    exact hheight

theorem ConnectBlock_live {N : CConnectNode}
    (hgenesis : block.hash ≠ N.hashGenesisBlock) (hids : NewIds view block.vtx)
    (h : ConnectBlock N block pindex pprev view false fAlreadyChecked = .ok c) :
    (∀ out, c.view.Live out → (view.Live out ∨ out.hash ∈ block.vtx.map hash) ∧
      out ∉ block.spends) ∧
      ∀ out ∈ block.spends, view.Live out ∨ out.hash ∈ block.vtx.map hash := by
  obtain ⟨st, hrun, hview, -⟩ := ConnectBlock_run hgenesis h
  have hnew : ∀ out, view.Live out → out.hash ∉ block.vtx.map hash := by
    intro out hlive hmem
    obtain ⟨tx, htx, heq⟩ := mem_map.mp hmem
    exact CCoinsView.not_live_of_isPruned (heq ▸ hids.unused tx htx) hlive
  obtain ⟨hlive, hspent⟩ := connectTxs_live hrun hids.apart hnew
  refine ⟨fun out hout => ?_, fun out hout => ?_⟩
  · obtain ⟨hfrom, hnot⟩ := hlive out ((hview out).mp hout)
    refine ⟨hfrom, fun hmem => ?_⟩
    obtain ⟨tx, htx, hspend⟩ := mem_spends.mp hmem
    exact hnot tx htx hspend
  · obtain ⟨tx, htx, hspend⟩ := mem_spends.mp hout
    exact hspent tx htx out hspend

theorem restoreCoin_live {c : CCoins} {n m : Nat} {undo : CTxInUndo}
    (h : ((restoreCoin c n undo).1.output m).IsNull = false) :
    m = n ∨ (c.output m).IsNull = false := by
  rcases eq_or_ne m n with heq | hne
  · exact .inl heq
  · unfold restoreCoin at h
    dsimp only at h
    split at h
    · rw [show ∀ v : List CTxOut, CCoins.output
        { CCoins.null with
          vout := put .null v n undo.txout, fCoinBase := undo.fCoinBase, nHeight := undo.nHeight,
          nVersion := undo.nVersion } m = slot .null (put .null v n undo.txout) m from fun _ => rfl,
        slot_put, if_neg hne] at h
      cases h
    · rw [show CCoins.output { c with vout := put .null c.vout n undo.txout } m =
        slot .null (put .null c.vout n undo.txout) m from rfl, slot_put, if_neg hne] at h
      exact .inr h

theorem restoreInputs_live : ∀ {l : List (CTxIn × CTxInUndo)} {out : COutPoint},
    (restoreInputs l view).1.Live out → view.Live out ∨ out ∈ l.map fun p => p.1.prevout
  | [], out, h => .inl h
  | (txin, undo) :: rest, out, h => by
    rcases CCoinsView.live_modify h with ⟨hhash, hmod⟩ | ⟨-, hsame⟩
    · rcases restoreCoin_live hmod with hn | hbefore
      · refine .inr (mem_cons.mpr (.inl ?_))
        obtain ⟨hash, n⟩ := out
        obtain rfl : hash = txin.prevout.hash := hhash
        obtain rfl : n = txin.prevout.n := hn
        rfl
      · have hrest : (restoreInputs rest view).1.Live out := by
          unfold CCoinsView.Live
          rw [hhash]
          exact hbefore
        exact (restoreInputs_live hrest).imp_right (mem_cons_of_mem _)
    · exact (restoreInputs_live hsame).imp_right (mem_cons_of_mem _)

theorem disconnectTx_live {fClean : Bool}
    (h : disconnectTx N pindex tx vprevout view = .ok (view', fClean)) {out : COutPoint}
    (hlive : view'.Live out) : view.Live out ∨ out ∈ tx.spends := by
  simp only [disconnectTx, bind_eq_ok] at h
  obtain ⟨_, -, _, -, h⟩ := h
  -- the transaction's own outputs are cleared first
  have hcleared : (view.ModifyCoins tx.hash fun _ => CCoins.null).Live out → view.Live out := by
    intro hout
    rcases CCoinsView.live_modify hout with ⟨-, hnull⟩ | ⟨-, hsame⟩
    · cases hnull
    · exact hsame
  split at h
  next htakes =>
    simp only [rejectIf_eq_ok] at h
    obtain ⟨-, h⟩ := h
    obtain ⟨rfl, -⟩ := Prod.mk.inj (Except.ok.inj h)
    refine (restoreInputs_live hlive).imp hcleared fun hmem => ?_
    unfold spends
    rw [if_pos (show takesCoins tx = true from htakes)]
    obtain ⟨p, hp, rfl⟩ := mem_map.mp hmem
    exact mem_map.mpr ⟨p.1, (of_mem_zip hp).1, rfl⟩
  next =>
    obtain ⟨rfl, -⟩ := Prod.mk.inj (Except.ok.inj h)
    exact .inl (hcleared hlive)

theorem disconnectTxs_live : ∀ {l : List (CTransaction × List CTxInUndo)} {view' : CCoinsView}
    {fClean : Bool}, disconnectTxs N pindex l view = .ok (view', fClean) → ∀ {out : COutPoint},
    view'.Live out → view.Live out ∨ ∃ p ∈ l, out ∈ p.1.spends
  | [], view', fClean, h, out, hlive => by
    cases h
    exact .inl hlive
  | (tx, vprevout) :: rest, view', fClean, h, out, hlive => by
    simp only [disconnectTxs, bind_eq_ok] at h
    obtain ⟨⟨mid, _⟩, hrest, ⟨last, _⟩, htx, h⟩ := h
    obtain ⟨rfl, -⟩ := Prod.mk.inj (Except.ok.inj h)
    rcases disconnectTx_live htx hlive with hmid | hmem
    · rcases disconnectTxs_live hrest hmid with hview | ⟨p, hp, hmem⟩
      · exact .inl hview
      · exact .inr ⟨p, .tail _ hp, hmem⟩
    · exact .inr ⟨_, .head _, hmem⟩

theorem DisconnectBlock_live {fClean : Bool}
    (h : DisconnectBlock N block pindex pprev view = .ok (view', fClean)) {out : COutPoint}
    (hlive : view'.Live out) : view.Live out ∨ out ∈ block.spends := by
  simp only [DisconnectBlock, rejectIf_eq_ok] at h
  obtain ⟨-, h⟩ := h
  split at h
  · cases h
  next undo hundo =>
    split at h
    · cases h
    next vtxundo hread =>
      simp only [rejectIf_eq_ok, bind_eq_ok] at h
      obtain ⟨-, ⟨out', _⟩, hdisc, -, h⟩ := h
      obtain ⟨rfl, -⟩ := Prod.mk.inj (Except.ok.inj h)
      rcases disconnectTxs_live hdisc (show CCoinsView.Live _ out from hlive) with hview |
        ⟨p, hp, hmem⟩
      · exact .inl hview
      · exact .inr (mem_spends.mpr ⟨p.1, (of_mem_zip hp).1, hmem⟩)

end

end Divitae
