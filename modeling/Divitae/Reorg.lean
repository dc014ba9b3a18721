/-
# `Reorg` — a block connected and disconnected again

Both directions change one coin at a time, so each is read off coin by coin
(`spendInputs_leads` and `connectRun_leads` on the way in, `disconnectTxs_coin` on the
way out), and the coins come back as `Divitae.CoinHistory` says.  The undo data on the
way out are those written on the way in because every record fits the file.
-/
import Divitae.CoinHistory
import Divitae.Supply

namespace Divitae

open Codec List Bool CTxInUndo

/-! ## The events of a coin -/

/-- Spends of the coin among inputs with their records. -/
def inputEvents (txid : uint256) : List (CTxIn × CTxInUndo) → List CoinEvent
  | [] => []
  | (txin, undo) :: rest =>
    if txin.prevout.hash = txid then .spend txin.prevout.n undo :: inputEvents txid rest
    else inputEvents txid rest

/-- What one transaction does to the coin. -/
def txEvents (txid : uint256) (tx : CTransaction) (vprevout : List CTxInUndo) : List CoinEvent :=
  (if takesCoins tx then inputEvents txid (tx.vin.zip vprevout) else []) ++
    if tx.hash = txid then [.create tx] else []

def coinEvents (txid : uint256) : List (CTransaction × List CTxInUndo) → List CoinEvent
  | [] => []
  | (tx, vprevout) :: rest => txEvents txid tx vprevout ++ coinEvents txid rest

/-- The outputs of a coin that a block takes, up to the transaction that makes it anew. -/
def takenOutputs (txid : uint256) : List CTransaction → List Nat
  | [] => []
  | tx :: vtx =>
    (if takesCoins tx then
      (tx.vin.filter fun txin => txin.prevout.hash = txid).map fun txin => txin.prevout.n
    else []) ++ if tx.hash = txid then [] else takenOutputs txid vtx

def SpendsAll (block : CBlock) (txid : uint256) (c : CCoins) : Prop :=
  ∀ n, c.output n ≠ .null → n ∈ takenOutputs txid block.vtx

theorem takenBy_inputEvents (txid : uint256) (es : List CoinEvent) : ∀ {vin : List CTxIn}
    {us : List CTxInUndo}, us.length = vin.length →
    takenBy (inputEvents txid (vin.zip us) ++ es) =
      ((vin.filter fun txin => txin.prevout.hash = txid).map fun txin => txin.prevout.n) ++
        takenBy es
  | [], us, _ => rfl
  | txin :: vin, [], h => (nomatch h)
  | txin :: vin, u :: us, h => by
    have ih := takenBy_inputEvents txid es (Nat.succ.inj h)
    rw [zip_cons_cons, inputEvents, filter_cons]
    rcases eq_or_ne txin.prevout.hash txid with heq | hne
    · rw [if_pos heq, if_pos (decide_eq_true heq)]
      exact congrArg (txin.prevout.n :: ·) ih
    · rw [if_neg hne, if_neg (by simpa using hne)]
      exact ih

variable {tx : CTransaction} {txid : uint256}

theorem takenBy_txEvents {us : List CTxInUndo}
    (hlen : takesCoins tx = true → us.length = tx.vin.length) (es : List CoinEvent) :
    takenBy (txEvents txid tx us ++ es) =
      (if takesCoins tx then
        (tx.vin.filter fun txin => txin.prevout.hash = txid).map fun txin => txin.prevout.n
      else []) ++ if tx.hash = txid then [] else takenBy es := by
  have hcreate : takenBy ((if tx.hash = txid then [CoinEvent.create tx] else []) ++ es) =
      if tx.hash = txid then [] else takenBy es := by
    split
    · rfl
    · rfl
  rw [txEvents, append_assoc]
  cases htakes : takesCoins tx with
  | true => rw [if_pos rfl, if_pos rfl, takenBy_inputEvents txid _ (hlen htakes), hcreate]
  | false => rw [if_neg Bool.false_ne_true, if_neg Bool.false_ne_true, nil_append, hcreate,
      nil_append]

theorem create_notMem_inputEvents (txid : uint256) (tx : CTransaction) :
    ∀ l : List (CTxIn × CTxInUndo), CoinEvent.create tx ∉ inputEvents txid l
  | [], h => (nomatch h)
  | (txin, undo) :: rest, h => by
    rw [inputEvents] at h
    split at h
    · rcases mem_cons.mp h with heq | h
      · cases heq
      · exact create_notMem_inputEvents txid tx rest h
    · exact create_notMem_inputEvents txid tx rest h

theorem remade_txEvents {us : List CTxInUndo}
    (es : List CoinEvent) : Remade (txEvents txid tx us ++ es) ↔ tx.hash = txid ∨ Remade es := by
  constructor
  · rintro ⟨t, ht⟩
    rcases mem_append.mp ht with ht | ht
    · rcases mem_append.mp ht with ht | ht
      · split at ht
        · exact absurd ht (create_notMem_inputEvents txid t _)
        · cases ht
      · split at ht
        · next heq => exact .inl heq
        · cases ht
    · exact .inr ⟨t, ht⟩
  · rintro (heq | ⟨t, ht⟩)
    · refine ⟨tx, mem_append_left _ (mem_append_right _ ?_)⟩
      rw [if_pos heq]
      exact .head _
    · exact ⟨t, mem_append_right _ ht⟩

section
variable {N : CDisconnectNode}

theorem restoreInputs_coin (nHeight : Int) (txid : uint256) (view : CCoinsView) :
    ∀ {l : List (CTxIn × CTxInUndo)}, (restoreInputs l view).2 = true →
    takeBack nHeight (inputEvents txid l) (view.coins txid) =
      ((restoreInputs l view).1.coins txid, true)
  | [], _ => rfl
  | (txin, undo) :: rest, h => by
    obtain ⟨hrest, hfine⟩ := (and_eq_true _ _).mp h
    have ih := restoreInputs_coin nHeight txid view hrest
    have hcoins : (restoreInputs ((txin, undo) :: rest) view).1.coins txid =
        if txid = txin.prevout.hash then
          (restoreCoin ((restoreInputs rest view).1.coins txin.prevout.hash)
            txin.prevout.n undo).1.Cleanup
        else (restoreInputs rest view).1.coins txid := by
      show ((restoreInputs rest view).1.ModifyCoins txin.prevout.hash fun _ =>
        (restoreCoin ((restoreInputs rest view).1.coins txin.prevout.hash)
          txin.prevout.n undo).1).coins txid = _
      exact CCoinsView.coins_ModifyCoins _ _ _
    rw [hcoins, inputEvents]
    rcases eq_or_ne txin.prevout.hash txid with heq | hne
    · rw [if_pos heq, if_pos heq.symm, takeBack, ih, heq]
      rw [heq] at hfine
      exact Prod.ext rfl hfine
    · rw [if_neg hne, if_neg hne.symm]
      exact ih

variable {vprevout : List CTxInUndo}

theorem disconnectTx_coin {pindex : CBlockIndex}
    {view view' : CCoinsView} (h : disconnectTx N pindex tx vprevout view = .ok (view', true))
    (txid : uint256) :
    takeBack pindex.nHeight (txEvents txid tx vprevout) (view.coins txid) =
      (view'.coins txid, true) := by
  simp only [disconnectTx, bind_eq_ok] at h
  obtain ⟨_, _, _, _, h⟩ := h
  have hcreate : ∀ fine, outsMatch (view.coins tx.hash) tx pindex.nHeight = fine → fine = true →
      takeBack pindex.nHeight (if tx.hash = txid then [CoinEvent.create tx] else [])
        (view.coins txid) = ((view.ModifyCoins tx.hash fun _ => .null).coins txid, true) := by
    rintro fine hmatch rfl
    rw [CCoinsView.coins_ModifyCoins]
    rcases eq_or_ne tx.hash txid with heq | hne
    · rw [if_pos heq, if_pos heq.symm]
      refine Prod.ext rfl ?_
      show (true && outsMatch (view.coins txid) tx pindex.nHeight) = true
      rw [← heq, hmatch]
      rfl
    · rw [if_neg hne, if_neg hne.symm]
      rfl
  rw [txEvents, takeBack_append]
  cases htakes : takesCoins tx with
  | true =>
    rw [show (!tx.IsCoinBase && !tx.IsZerocoinSpend) = true from htakes] at h
    simp only [if_true, rejectIf_eq_ok] at h
    obtain ⟨_, h⟩ := h
    obtain ⟨hview, hfine⟩ := Prod.mk.inj (Except.ok.inj h)
    obtain ⟨hmatch, hinputs⟩ := (and_eq_true _ _).mp hfine
    rw [hcreate _ rfl hmatch, if_pos rfl, restoreInputs_coin _ _ _ hinputs, hview]
    rfl
  | false =>
    rw [show (!tx.IsCoinBase && !tx.IsZerocoinSpend) = false from htakes] at h
    simp only [false_eq_true, if_false] at h
    obtain ⟨hview, hmatch⟩ := Prod.mk.inj (Except.ok.inj h)
    rw [hcreate _ rfl hmatch, if_neg Bool.false_ne_true, ← hview]
    rfl

theorem disconnectTxs_coin {pindex : CBlockIndex} (txid : uint256) :
    ∀ {l : List (CTransaction × List CTxInUndo)} {view view' : CCoinsView},
    disconnectTxs N pindex l view = .ok (view', true) →
    takeBack pindex.nHeight (coinEvents txid l) (view.coins txid) = (view'.coins txid, true)
  | [], view, view', h => by
    cases h
    rfl
  | (tx, vprevout) :: rest, view, view', h => by
    simp only [disconnectTxs, bind_eq_ok] at h
    obtain ⟨⟨mid, clean⟩, hrest, ⟨last, fine⟩, htx, h⟩ := h
    obtain ⟨hview, hfine⟩ := Prod.mk.inj (Except.ok.inj h)
    obtain ⟨rfl, rfl⟩ := (and_eq_true _ _).mp hfine
    rw [coinEvents, takeBack_append, disconnectTxs_coin txid hrest, disconnectTx_coin htx txid,
      ← hview]
    rfl

end

/-! ## The way in -/

/-- A view as a chain leaves it: tidy coins, at heights of a chain. -/
structure ChainView (view : CCoinsView) : Prop where
  tidy : view.Tidy
  height : ∀ txid, (view.coins txid).IsPruned = false →
    0 ≤ (view.coins txid).nHeight ∧ (view.coins txid).nHeight < 2 ^ 30

/-- An output that is null or has an amount the undo file can hold. -/
def Storable (o : CTxOut) : Prop := o = .null ∨ 0 ≤ o.nValue ∧ o.nValue ≤ 10 ^ 17

theorem ChainView.modify {view : CCoinsView} (h : ChainView view) {c : CCoins}
    (hc : c.Tidy) (hheight : c.IsPruned = false → 0 ≤ c.nHeight ∧ c.nHeight < 2 ^ 30) :
    ChainView (view.ModifyCoins txid fun _ => c) := by
  have hclean : c.Cleanup = c := by
    show CCoins.mk _ _ (c.vout.rdropWhile CTxOut.IsNull) _ _ = c
    rw [hc.trimmed]
  constructor
  · intro g
    rw [CCoinsView.coins_ModifyCoins, hclean]
    split_ifs
    · exact hc
    · exact h.tidy g
  · intro g
    rw [CCoinsView.coins_ModifyCoins, hclean]
    split_ifs
    · exact hheight
    · exact h.height g

theorem ChainView.spend {view : CCoinsView} (hview : ChainView view) {n : Nat}
    {left : CCoins} {undo : CTxInUndo} (hspend : (view.coins txid).Spend n = some (left, undo)) :
    left.Cleanup = left ∧ ChainView (view.ModifyCoins txid fun _ => left) ∧
      (Storable ((view.coins txid).output n) → undo.Fits) ∧
      ∀ g m, Storable ((view.coins g).output m) →
        Storable (((view.ModifyCoins txid fun _ => left).coins g).output m) := by
  obtain ⟨hthere, htxout, htidy, houtputs, _, _, hheight, _, hundo⟩ :=
    CCoins.Spend_eq (hview.tidy _) hspend
  have hunpruned : (view.coins txid).IsPruned = false := by
    cases hp : (view.coins txid).IsPruned
    · rfl
    · rw [(hview.tidy _).isPruned_iff_output.mp hp n] at hthere
      cases hthere
  have hrange := hview.height _ hunpruned
  have hclean : left.Cleanup = left := by
    show CCoins.mk _ _ (left.vout.rdropWhile CTxOut.IsNull) _ _ = left
    rw [htidy.trimmed]
  refine ⟨hclean, hview.modify htidy fun _ => by rw [hheight]; exact hrange, ?_, ?_⟩
  · intro hvalue
    have hamount : 0 ≤ undo.txout.nValue ∧ undo.txout.nValue ≤ 10 ^ 17 := by
      rw [htxout]
      rcases hvalue with hnull | hval
      · rw [hnull] at hthere
        cases hthere
      · exact hval
    have hh : 0 ≤ undo.nHeight ∧ undo.nHeight < 2 ^ 30 := by
      rw [hundo]
      split
      · exact hrange
      · exact ⟨Int.le_refl 0, (by decide : (0 : Int) < 2 ^ 30)⟩
    exact ⟨hh.1, hh.2, hamount.1, hamount.2⟩
  · intro g m hold
    rw [CCoinsView.coins_ModifyCoins, hclean]
    rcases eq_or_ne g txid with rfl | hne
    · rw [if_pos rfl, houtputs]
      rcases eq_or_ne m n with hn | hn
      · rw [if_pos hn]
        exact .inl rfl
      · rw [if_neg hn]
        exact hold
    · rw [if_neg hne]
      exact hold

theorem spendInputs_spec (nHeight : Int) : ∀ {vin : List CTxIn} {view view' : CCoinsView}
    {vprevout : List CTxInUndo}, ChainView view →
    (∀ txin ∈ vin, Storable ((view.coins txin.prevout.hash).output txin.prevout.n)) →
    spendInputs vin view = some (view', vprevout) →
    ChainView view' ∧ vprevout.length = vin.length ∧ (∀ undo ∈ vprevout, undo.Fits) ∧
      ∀ txid, Leads nHeight (view.coins txid)
        (inputEvents txid (vin.zip (vprevout.map stored))) (view'.coins txid)
  | [], view, view', vprevout, hview, _, h => by
    cases h
    exact ⟨hview, rfl, nofun, fun _ => .nil⟩
  | txin :: vin, view, view', vprevout, hview, hvalues, h => by
    cases hspend : (view.coins txin.prevout.hash).Spend txin.prevout.n with
    | none =>
      rw [spendInputs, hspend] at h
      cases h
    | some r =>
      obtain ⟨left, undo⟩ := r
      rw [spendInputs, hspend] at h
      dsimp only at h
      cases hrest : spendInputs vin (view.ModifyCoins txin.prevout.hash fun _ => left) with
      | none =>
        rw [hrest] at h
        cases h
      | some r =>
        obtain ⟨view₂, rest⟩ := r
        rw [hrest] at h
        cases h
        obtain ⟨hclean, hmid, hundo, hstorable⟩ := hview.spend hspend
        obtain ⟨hview', hlen, hfits, hleads⟩ := spendInputs_spec nHeight hmid
          (fun t ht => hstorable _ _ (hvalues t (.tail _ ht))) hrest
        refine ⟨hview', congrArg (· + 1) hlen, fun u hu => ?_, fun txid => ?_⟩
        · rcases mem_cons.mp hu with rfl | hu
          · exact hundo (hvalues txin mem_cons_self)
          · exact hfits u hu
        · have hstep := hleads txid
          rw [CCoinsView.coins_ModifyCoins, hclean] at hstep
          rw [map_cons, zip_cons_cons, inputEvents]
          rcases eq_or_ne txin.prevout.hash txid with heq | hne
          · rw [if_pos heq.symm] at hstep
            rw [if_pos heq, ← heq]
            rw [← heq] at hstep
            exact .spend hspend hstep
          · rw [if_neg hne.symm] at hstep
            rw [if_neg hne]
            exact hstep

theorem tidy_FromTx (h : ∀ out ∈ tx.vout, 0 ≤ out.nValue) (nHeight : Int) :
    (CCoins.FromTx tx nHeight).Tidy := by
  refine CCoins.tidy_Cleanup fun o ho hnull => ?_
  obtain ⟨txout, hmem, rfl⟩ := mem_map.mp ho
  split at hnull
  · next hun => rw [if_pos hun]
  · have hpos := h txout hmem
    have hminus : txout.nValue = -1 := by simpa [CTxOut.IsNull] using hnull
    rw [hminus] at hpos
    exact absurd hpos (by decide)

section
variable {N : CConnectNode} {nHeight : Int}

theorem UpdateCoins_spec (hh : 0 ≤ nHeight ∧ nHeight < 2 ^ 30)
    {view view' : CCoinsView} (hview : ChainView view)
    (hout : ∀ out ∈ tx.vout, 0 ≤ out.nValue)
    (hvalues : takesCoins tx = true →
      ∀ txin ∈ tx.vin, Storable ((view.coins txin.prevout.hash).output txin.prevout.n))
    (h : UpdateCoins tx view nHeight = some (view', vprevout)) :
    ChainView view' ∧ (takesCoins tx = true → vprevout.length = tx.vin.length) ∧
      (∀ undo ∈ vprevout, undo.Fits) ∧ (takesCoins tx = false → vprevout = []) ∧
      ∀ txid, Leads nHeight (view.coins txid) (txEvents txid tx (vprevout.map stored))
        (view'.coins txid) := by
  have htidy := tidy_FromTx hout nHeight
  have hclean : (CCoins.FromTx tx nHeight).Cleanup = CCoins.FromTx tx nHeight := by
    show CCoins.mk _ _ ((CCoins.FromTx tx nHeight).vout.rdropWhile CTxOut.IsNull) _ _ = _
    rw [htidy.trimmed]
  -- the spends, then the outputs
  have hspends : ∃ mid, view' = mid.ModifyCoins tx.hash (fun _ => .FromTx tx nHeight) ∧
      ChainView mid ∧ (takesCoins tx = true → vprevout.length = tx.vin.length) ∧
      (∀ undo ∈ vprevout, undo.Fits) ∧ (takesCoins tx = false → vprevout = []) ∧
      ∀ txid, Leads nHeight (view.coins txid)
        (if takesCoins tx then inputEvents txid (tx.vin.zip (vprevout.map stored)) else [])
        (mid.coins txid) := by
    unfold UpdateCoins at h
    cases htakes : takesCoins tx with
    | true =>
      rw [show (!tx.IsCoinBase && !tx.IsZerocoinSpend) = true from htakes] at h
      simp only [if_true] at h
      cases hspent : spendInputs tx.vin view with
      | none =>
        rw [hspent] at h
        cases h
      | some r =>
        obtain ⟨mid, vprevout'⟩ := r
        rw [hspent] at h
        cases h
        obtain ⟨hmid, hlen, hfits, hleads⟩ := spendInputs_spec nHeight hview (hvalues htakes) hspent
        exact ⟨mid, rfl, hmid, fun _ => hlen, hfits, by simp, hleads⟩
    | false =>
      rw [show (!tx.IsCoinBase && !tx.IsZerocoinSpend) = false from htakes] at h
      simp only [false_eq_true, if_false] at h
      cases h
      exact ⟨view, rfl, hview, by simp, by simp, fun _ => rfl, fun _ => .nil⟩
  obtain ⟨mid, rfl, hmid, hlen, hfits, hnone, hleads⟩ := hspends
  refine ⟨hmid.modify htidy fun _ => hh, hlen, hfits, hnone, fun txid => ?_⟩
  refine (hleads txid).append ?_
  rw [CCoinsView.coins_ModifyCoins, hclean]
  rcases eq_or_ne tx.hash txid with heq | hne
  · rw [if_pos heq, if_pos heq.symm]
    exact .create .nil
  · rw [if_neg hne, if_neg hne.symm]
    exact .nil

theorem storable_of_inRange (hnet : IsNetwork N.P) {o : CTxOut}
    (h : MoneyRange N.P o.nValue = true) :
    Storable o := by
  have hmax : N.P.nMaxMoneyOut ≤ 10 ^ 17 := by
    rcases hnet with hn | hn | hn <;> rw [hn] <;> decide
  simp only [MoneyRange, and_eq_true, decide_eq_true_eq] at h
  exact .inr ⟨h.1, Int.le_trans h.2 hmax⟩

theorem connectRun_leads (hnet : IsNetwork N.P) (hh : 0 ≤ nHeight ∧ nHeight < 2 ^ 30) {act : Bool}
    {first : Bool} {vtx : List CTransaction} {st st' : ConnectState}
    (hrun : ConnectRun N nHeight first vtx st st') (hview : ChainView st.view)
    (hchecked : ∀ tx ∈ vtx, CheckedTransaction N.toCNode act tx) :
    ∃ us : List (List CTxInUndo), us.length = vtx.length ∧
      st'.vtxundo = st.vtxundo ++ (if first then us.tail else us) ∧
      (∀ vprevout ∈ us, vprevout.length ≤ MAX_SIZE ∧ ∀ undo ∈ vprevout, undo.Fits) ∧
      (∀ coinBase rest, vtx = coinBase :: rest → takesCoins coinBase = false → us.head? = some []) ∧
      ∀ txid, Leads nHeight (st.view.coins txid)
          (coinEvents txid (vtx.zip (us.map (List.map stored)))) (st'.view.coins txid) ∧
        takenBy (coinEvents txid (vtx.zip (us.map (List.map stored)))) = takenOutputs txid vtx ∧
        (Remade (coinEvents txid (vtx.zip (us.map (List.map stored)))) ↔
          ∃ tx ∈ vtx, tx.hash = txid) := by
  induction hrun with
  | nil =>
    refine ⟨[], rfl, ?_, nofun, nofun, fun _ => ?_⟩
    · split <;> simp
    · refine ⟨.nil, rfl, ?_⟩
      exact ⟨fun ⟨_, h⟩ => (nomatch h), fun ⟨_, h, _⟩ => (nomatch h)⟩
  | @cons first tx vtx st mid st' hstep _ ih =>
    obtain ⟨vprevout, hview', hvtxundo⟩ := hstep.updated
    have htx := hchecked tx mem_cons_self
    have hvalues : takesCoins tx = true → ∀ txin ∈ tx.vin,
        Storable ((st.view.coins txin.prevout.hash).output txin.prevout.n) := by
      intro htakes txin hmem
      exact storable_of_inRange hnet ((hstep.inputs htakes).1 txin hmem).inRange
    obtain ⟨hmid, hlen, hfits, hnone, hleads⟩ :=
      UpdateCoins_spec hh hview htx.outputs_nonneg hvalues hview'
    obtain ⟨us, hcount, hundo, hall, _, hrest⟩ := ih hmid fun t ht => hchecked t (.tail _ ht)
    have hsize : vprevout.length ≤ MAX_SIZE := by
      cases htakes : takesCoins tx with
      | true =>
        rw [hlen htakes]
        exact Nat.le_trans htx.vin_length_le (by decide)
      | false =>
        rw [hnone htakes]
        exact Nat.zero_le _
    have hstored : takesCoins tx = true →
        (vprevout.map stored).length = tx.vin.length := by
      intro htakes
      rw [length_map, hlen htakes]
    refine ⟨vprevout :: us, congrArg (· + 1) hcount, ?_, ?_, ?_, fun txid => ?_⟩
    · rw [hundo, hvtxundo]
      cases first
      · simp
      · rfl
    · intro u hu
      rcases mem_cons.mp hu with rfl | hu
      · exact ⟨hsize, hfits⟩
      · exact hall u hu
    · rintro coinBase rest heq htakes
      obtain ⟨rfl, _⟩ := cons.inj heq
      rw [hnone htakes]
      rfl
    · obtain ⟨hcoin, htaken, hremade⟩ := hrest txid
      refine ⟨(hleads txid).append hcoin, ?_, ?_⟩
      · show takenBy (txEvents txid tx (vprevout.map stored) ++
          coinEvents txid (vtx.zip (us.map (List.map stored)))) = _
        rw [takenBy_txEvents hstored, htaken]
        rfl
      · show Remade (txEvents txid tx (vprevout.map stored) ++
          coinEvents txid (vtx.zip (us.map (List.map stored)))) ↔ _
        rw [remade_txEvents, hremade, exists_mem_cons_iff]

end

/-! ## There and back -/

section
variable {N : CDisconnectNode} {block : CBlock} {pindex pprev : CBlockIndex}
  {view view' : CCoinsView} {fAlreadyChecked : Bool} {c : Connected}

theorem ReadFromDisk_WriteToDisk {us vtxundo : List (List CTxInUndo)} {hashBlock : uint256}
    (hlen : us.length ≤ MAX_SIZE)
    (hfits : ∀ vprevout ∈ us, vprevout.length ≤ MAX_SIZE ∧ ∀ undo ∈ vprevout, undo.Fits)
    (h : ReadFromDisk N (WriteToDisk N.toCConnectNode us hashBlock) hashBlock = some vtxundo) :
    vtxundo = us.map (List.map stored) := by
  have hread := reads_blockUndo (K := N.K) hlen hfits
    (serUint256 (WriteToDisk N.toCConnectNode us hashBlock).2)
  unfold ReadFromDisk undoFile Codec.bind at h
  rw [show (WriteToDisk N.toCConnectNode us hashBlock).1 = serBlockUndo N.K us from rfl, hread] at h
  dsimp only at h
  cases hsum : readLE 32 (serUint256 (WriteToDisk N.toCConnectNode us hashBlock).2) with
  | none =>
    rw [hsum] at h
    cases h
  | some r =>
    rw [hsum] at h
    dsimp only [Codec.pure] at h
    split at h
    · exact (Option.some.inj h).symm
    · cases h

theorem not_genesis_of_disconnect
    (hundo : ∀ undo, pindex.undo = some undo → block.hash ≠ N.hashGenesisBlock)
    (hconnect : ConnectBlock N.toCConnectNode block pindex pprev view false fAlreadyChecked = .ok c)
    (hdisconnect : DisconnectBlock N block c.pindex pprev c.view = .ok (view', true)) :
    block.hash ≠ N.hashGenesisBlock := by
  intro hgen
  have hnone : pindex.undo = none := by
    cases hu : pindex.undo with
    | none => rfl
    | some undo => exact absurd hgen (hundo undo hu)
  obtain rfl := ConnectBlock_genesis hgen hconnect
  simp only [DisconnectBlock, rejectIf_eq_ok, hnone] at hdisconnect
  exact absurd hdisconnect.2 (by simp)

theorem DisconnectBlock_ok {pindex : CBlockIndex} {us : List (List CTxInUndo)}
    {hashBlock : uint256}
    (hfile : pindex.undo = some (WriteToDisk N.toCConnectNode us hashBlock))
    (hparent : pprev.phashBlock.getD 0 = hashBlock) (hlen : us.length ≤ MAX_SIZE)
    (hfits : ∀ vprevout ∈ us, vprevout.length ≤ MAX_SIZE ∧ ∀ undo ∈ vprevout, undo.Fits)
    (hdisconnect : DisconnectBlock N block pindex pprev view = .ok (view', true)) :
    ∃ out, disconnectTxs N pindex
        (block.vtx.zip ([] :: us.map (List.map stored))) view = .ok (out, true) ∧
      view' = out.SetBestBlock hashBlock := by
  simp only [DisconnectBlock, rejectIf_eq_ok, hfile, hparent] at hdisconnect
  obtain ⟨_, hdisconnect⟩ := hdisconnect
  cases hread : ReadFromDisk N (WriteToDisk N.toCConnectNode us hashBlock) hashBlock with
  | none =>
    rw [hread] at hdisconnect
    cases hdisconnect
  | some vtxundo =>
    rw [hread] at hdisconnect
    simp only [rejectIf_eq_ok, bind_eq_ok] at hdisconnect
    obtain ⟨_, ⟨out, fClean⟩, hdisc, _, hout⟩ := hdisconnect
    obtain ⟨rfl, rfl⟩ := Prod.mk.inj (Except.ok.inj hout)
    rw [ReadFromDisk_WriteToDisk hlen hfits hread] at hdisc
    exact ⟨out, hdisc, rfl⟩

/-- A block is connected to a view and disconnected clean.  The view is back (up to
coins without outputs) exactly when every coin the block spends to the last output
has no coinstake flag and no negative version, and none is made anew before that; the
latter is what `fEnforceBIP30` checks but for two heights. -/
theorem disconnect_restores_iff (hnet : IsNetwork N.P) (hview : ChainView view)
    (hheight : 0 ≤ pindex.nHeight ∧ pindex.nHeight < 2 ^ 30)
    (hchecked : fAlreadyChecked = true → ∃ pow merkle,
      CheckBlock N.toCNode block pow merkle = .ok ())
    (hundo : ∀ undo, pindex.undo = some undo → block.hash ≠ N.hashGenesisBlock ∧
      ∃ pindex' st, connectTotals N.toCConnectNode block pindex pprev view = .ok (pindex', st) ∧
        undo = WriteToDisk N.toCConnectNode st.vtxundo view.hashBlock)
    (hconnect : ConnectBlock N.toCConnectNode block pindex pprev view false fAlreadyChecked = .ok c)
    (hdisconnect : DisconnectBlock N block c.pindex pprev c.view = .ok (view', true)) :
    view'.Same view ↔ ∀ txid, (view.coins txid).IsPruned = false →
      ((∃ tx ∈ block.vtx, tx.hash = txid) → SpendsAll block txid (view.coins txid)) ∧
      (SpendsAll block txid (view.coins txid) →
        (view.coins txid).fCoinStake = false ∧ 0 ≤ (view.coins txid).nVersion) := by
  have hgenesis := not_genesis_of_disconnect (fun undo hu => (hundo undo hu).1) hconnect hdisconnect
  obtain ⟨pindex', st, hcheck, hbest, htotals, rfl⟩ := ConnectBlock_ok hgenesis hconnect
  have hmax0 := hnet.max_nonneg
  obtain ⟨_, hrun, _, hhash, hsame, hold⟩ := connectTotals_ok hmax0 hnet.max_fits htotals
  have hblock : CheckedBlock N.toCNode block := by
    rcases hcheck with hcheck | hcheck
    · obtain ⟨pow, merkle, hcheck⟩ := hchecked hcheck
      exact CheckBlock_ok hmax0 hcheck
    · exact CheckBlock_ok hmax0 hcheck
  obtain ⟨us, hcount, hwritten, hfits, hhead, hcoins⟩ :=
    connectRun_leads hnet hheight hrun hview hblock.checked
  obtain ⟨coinBase, rest, hvtx, hbase⟩ := hblock.head
  have hfirst : us.head? = some [] := by
    refine hhead coinBase rest hvtx ?_
    unfold takesCoins
    rw [hbase]
    rfl
  obtain ⟨tail, rfl⟩ : ∃ tail, us = [] :: tail := List.head?_eq_some_iff.mp hfirst
  have hvtxundo : st.vtxundo = tail := hwritten
  -- the index entry holds the undo data of this view
  have hfile : some (pindex'.undo.getD (WriteToDisk N.toCConnectNode st.vtxundo view.hashBlock)) =
      some (WriteToDisk N.toCConnectNode tail view.hashBlock) := by
    rw [← hvtxundo]
    cases hu : pindex.undo with
    | none =>
      rw [hold, hu]
      rfl
    | some undo =>
      obtain ⟨_, pindex₂, st₂, htotals₂, hwrite⟩ := hundo undo hu
      rw [htotals] at htotals₂
      cases htotals₂
      rw [hold, hu, hwrite]
      rfl
  have hlen : tail.length ≤ MAX_SIZE := by
    have hcount' : tail.length + 1 = block.vtx.length := hcount
    have hsize : block.vtx.length ≤ 2000000 := hblock.size
    show tail.length ≤ 0x02000000
    omega
  have hparent : pprev.phashBlock.getD 0 = view.hashBlock := by
    rw [hbest]
    rfl
  obtain ⟨out, hdisc, rfl⟩ := DisconnectBlock_ok hfile hparent hlen
    (fun u hu => hfits u (.tail _ hu)) hdisconnect
  have hcoin : ∀ txid, CCoins.Same (out.coins txid) (view.coins txid) ↔
      ((view.coins txid).IsPruned = false →
        ((∃ tx ∈ block.vtx, tx.hash = txid) → SpendsAll block txid (view.coins txid)) ∧
        (SpendsAll block txid (view.coins txid) →
          (view.coins txid).fCoinStake = false ∧ 0 ≤ (view.coins txid).nVersion)) := by
    intro txid
    obtain ⟨hleads, htaken, hremade⟩ := hcoins txid
    have htake := disconnectTxs_coin txid hdisc
    rw [hsame] at htake
    have hspends : SpendsAll block txid (view.coins txid) ↔
        UsedUp (view.coins txid) (coinEvents txid
          (block.vtx.zip (([] :: tail).map (List.map CTxInUndo.stored)))) := by
      unfold SpendsAll UsedUp
      rw [htaken]
    rw [hspends, ← hremade]
    exact (takeBack_ok hleads (hview.tidy txid) htake).same_iff
  constructor
  · intro hsame txid
    exact (hcoin txid).mp (hsame.2 txid)
  · intro hcond
    exact ⟨rfl, fun txid => (hcoin txid).mpr (hcond txid)⟩

end

/-! ### A stake spent by a stake, and one spent by a sweep -/

/-- The node of the examples, with databases that erase. -/
def quietDisconnectNode : CDisconnectNode where
  toCConnectNode := quietNode 999
  EraseCoinSpend _ := true
  EraseCoinMint _ := true
  EraseAccumulatorValues _ _ := true

/-- Transaction 8 is a coin stake of height 5 with both outputs unspent. -/
def stakedView : CCoinsView where
  coins txid :=
    if txid = 7 then ⟨false, false, [⟨COIN, []⟩], 5, 1⟩
    else if txid = 8 then ⟨false, true, [.empty, ⟨COIN, []⟩], 5, 1⟩
    else .null
  hashBlock := 100

/-- Both outputs of transaction 8 are spent, the empty one too. -/
def sweep : CTransaction := ⟨202, 1, [⟨⟨8, 0⟩, [], 0⟩, ⟨⟨8, 1⟩, [], 0⟩], [⟨COIN, []⟩], 0⟩

/-- The view after connecting and disconnecting a block, and whether that was clean. -/
def thereAndBack (block : CBlock) (view : CCoinsView) : Option (CCoinsView × Bool) :=
  match ConnectBlock (quietNode 999) block (quietIndex 999) (quietTip 999) view false false with
  | .error _ => none
  | .ok c => (DisconnectBlock quietDisconnectNode block c.pindex (quietTip 999) c.view).toOption

theorem thereAndBack_ok {block : CBlock} {view : CCoinsView}
    (h : (thereAndBack block view).map Prod.snd = some true) : ∃ c view',
    ConnectBlock (quietNode 999) block (quietIndex 999) (quietTip 999) view false false = .ok c ∧
    DisconnectBlock quietDisconnectNode block c.pindex (quietTip 999) c.view = .ok (view', true) ∧
    thereAndBack block view = some (view', true) := by
  unfold thereAndBack at h ⊢
  cases hc : ConnectBlock (quietNode 999) block (quietIndex 999) (quietTip 999) view
    false false with
  | error e =>
    rw [hc] at h
    cases h
  | ok c =>
    rw [hc] at h
    dsimp only at h ⊢
    cases hd : DisconnectBlock quietDisconnectNode block c.pindex (quietTip 999) c.view with
    | error e =>
      rw [hd] at h
      cases h
    | ok r =>
      obtain ⟨view', clean⟩ := r
      rw [hd] at h
      obtain rfl : clean = true := Option.some.inj h
      exact ⟨c, view', rfl, hd, rfl⟩

theorem chainView_oneCoin : ChainView oneCoin := by
  constructor
  · intro txid
    show CCoins.Tidy (if txid = 7 then _ else _)
    split
    · refine ⟨rfl, fun o ho hnull => ?_⟩
      rw [mem_singleton.mp ho] at hnull
      cases hnull
    · exact .null
  · intro txid _
    show 0 ≤ CCoins.nHeight (if txid = 7 then _ else _) ∧
      CCoins.nHeight (if txid = 7 then _ else _) < _
    split
    · exact ⟨by decide, by decide⟩
    · exact ⟨by decide, by decide⟩

/-- The stake of an ordinary coin comes back. -/
theorem ordinary_stake_restored :
    ∃ c view', ConnectBlock (quietNode 999) (quietBlock (2 * COIN) []) (quietIndex 999)
        (quietTip 999) oneCoin false false = .ok c ∧
      DisconnectBlock quietDisconnectNode (quietBlock (2 * COIN) []) c.pindex
        (quietTip 999) c.view =
        .ok (view', true) ∧ view'.Same oneCoin := by
  have hclean : (thereAndBack (quietBlock (2 * COIN) []) oneCoin).map Prod.snd = some true := by
    decide +kernel
  obtain ⟨c, view', hconnect, hdisconnect, _⟩ := thereAndBack_ok hclean
  refine ⟨c, view', hconnect, hdisconnect, ?_⟩
  refine (disconnect_restores_iff (N := quietDisconnectNode) (.inl rfl) chainView_oneCoin
    ⟨by decide, by decide⟩ (by intro h; cases h) (by intro _ h; cases h) hconnect
    hdisconnect).mpr fun txid hp => ?_
  have hseven : txid = 7 := by
    by_contra hne
    rw [show oneCoin.coins txid = if txid = 7 then _ else _ from rfl, if_neg hne] at hp
    cases hp
  rw [hseven]
  refine ⟨?_, fun _ => ⟨by decide, by decide⟩⟩
  rintro ⟨tx, htx, hhash⟩
  have hnone : ∀ t ∈ (quietBlock (2 * COIN) []).vtx, t.hash ≠ 7 := by decide
  exact absurd hhash (hnone tx htx)

/-- A coin stake spent to the last output comes back as no coin stake. -/
theorem swept_stake_not_restored :
    ∃ c view', ConnectBlock (quietNode 999) (quietBlock COIN [sweep]) (quietIndex 999)
        (quietTip 999) stakedView false false = .ok c ∧
      DisconnectBlock quietDisconnectNode (quietBlock COIN [sweep]) c.pindex (quietTip 999) c.view =
        .ok (view', true) ∧ ¬ view'.Same stakedView := by
  have hclean : (thereAndBack (quietBlock COIN [sweep]) stakedView).map Prod.snd = some true := by
    decide +kernel
  have hcoin : (thereAndBack (quietBlock COIN [sweep]) stakedView).map (fun r => r.1.coins 8) =
      some ⟨false, false, [.empty, ⟨COIN, []⟩], 5, 1⟩ := by
    decide +kernel
  obtain ⟨c, view', hconnect, hdisconnect, hback⟩ := thereAndBack_ok hclean
  refine ⟨c, view', hconnect, hdisconnect, fun hsame => ?_⟩
  rw [hback] at hcoin
  have hcoin8 : view'.coins 8 = ⟨false, false, [.empty, ⟨COIN, []⟩], 5, 1⟩ := Option.some.inj hcoin
  have hdiffer := hsame.2 8
  rw [hcoin8] at hdiffer
  revert hdiffer
  decide

end Divitae
