/-
# `ConnectTotals` — what the loop of `ConnectBlock` adds up

One round of the loop is inverted once (`connectTx_ok`), the whole loop by induction
from it (`connectTxs_ok`): the three registers hold the residues of three exact sums
over the transactions, each read in the view it meets.  What a transaction adds to the
supply is its `gain`, outputs less inputs; for a transaction that pays a fee it is
what it pays, taken negative.
-/
import Divitae.ConnectBlock

namespace Divitae

open Wrap List Bool

/-! ## Exact values -/

def spentAmount (Z : Zerocoin) (txin : CTxIn) : Int :=
  match Z.TxInToZerocoinSpend txin with
  | none => 0
  | some spend => spend.denomination.toAmount

/-- The exact value of the inputs: zerocoin spends at their denomination. -/
def exactIn (Z : Zerocoin) (view : CCoinsView) (tx : CTransaction) : Int :=
  if tx.IsZerocoinSpend then
    ((tx.vin.filter fun txin => txin.scriptSig.IsZerocoinSpend).map (spentAmount Z)).sum
  else if tx.IsCoinBase then 0
  else (tx.vin.map fun txin => ((view.GetOutputFor txin).nValue : Int)).sum

/-- A transaction and the view it meets. -/
abbrev TxStep := CTransaction × CCoinsView

def txSteps (nHeight : Int) : List CTransaction → CCoinsView → List TxStep
  | [], _ => []
  | tx :: vtx, view =>
    (tx, view) ::
      match UpdateCoins tx view nHeight with
      | none => []
      | some (view, _) => txSteps nHeight vtx view

/-- Exact outputs less exact inputs. -/
def gain (Z : Zerocoin) (s : TxStep) : Int := s.1.GetValueOut - exactIn Z s.2 s.1

/-- The transactions whose fee the loop adds up. -/
def paysFee (s : TxStep) : Bool := !s.1.IsZerocoinSpend && !s.1.IsCoinBase && !s.1.IsCoinStake

/-- What a block adds to the supply. -/
def created (Z : Zerocoin) (steps : List TxStep) : Int := (steps.map (gain Z)).sum

/-- What the coin base, the coin stake and the zerocoin spends pay out beyond their inputs. -/
def unbacked (Z : Zerocoin) (steps : List TxStep) : Int :=
  ((steps.filter fun s => !paysFee s).map (gain Z)).sum

def fees (Z : Zerocoin) (steps : List TxStep) : List Int :=
  (steps.filter paysFee).map fun s => -gain Z s

theorem created_eq (Z : Zerocoin) (steps : List TxStep) :
    created Z steps = unbacked Z steps - (fees Z steps).sum := by
  unfold created unbacked fees
  induction steps with
  | nil => rfl
  | cons s steps ih =>
    cases hs : paysFee s
    · simp only [map_cons, sum_cons, filter_cons, hs]
      simp only [Bool.not_false, if_true, map_cons, sum_cons, ih]
      simp only [Bool.false_eq_true, if_false]
      omega
    · simp only [map_cons, sum_cons, filter_cons, hs]
      simp only [Bool.not_true, Bool.false_eq_true, if_false, if_true, map_cons, sum_cons, ih]
      omega

/-! ## Inputs -/

section
variable {N : CConnectNode}

theorem fits_of_range {m v : Int} (hm : 2 * m < 2 ^ 63) (hlo : 0 ≤ v) (hhi : v ≤ m) : Fits64 v :=
  ⟨by omega, by omega⟩

theorem fits_of_moneyRange {P : CChainParams} (hmax : 2 * P.nMaxMoneyOut < 2 ^ 63) {v : CAmount}
    (h : MoneyRange P v = true) : Fits64 v := by
  simp only [MoneyRange, and_eq_true, decide_eq_true_eq] at h
  exact fits_of_range hmax h.1 h.2

theorem checkInputValues_ok (hmax : 2 * N.P.nMaxMoneyOut < 2 ^ 63) {view : CCoinsView}
    {nSpendHeight : Int} : ∀ {vin : List CTxIn} {a v : CAmount},
    MoneyRange N.P a = true → checkInputValues N view nSpendHeight vin a = .ok v →
    v = a + (vin.map fun txin => ((view.GetOutputFor txin).nValue : Int)).sum ∧
      MoneyRange N.P v = true ∧ ∀ txin ∈ vin,
        MoneyRange N.P (view.GetOutputFor txin).nValue = true ∧
        ¬ (((view.coins txin.prevout.hash).fCoinBase ||
          (view.coins txin.prevout.hash).fCoinStake) = true ∧
          nSpendHeight - (view.coins txin.prevout.hash).nHeight < N.P.nMaturity)
  | [], a, v, ha, h => by
    cases h
    exact ⟨by simp, ha, nofun⟩
  | txin :: vin, a, v, ha, h => by
    simp only [checkInputValues, rejectIf_eq_ok, or_eq_false_iff, not_eq_false'] at h
    obtain ⟨hmature, ⟨hvalue, hsum⟩, hrest⟩ := h
    have hexact : wrap64 (a + (view.GetOutputFor txin).nValue) =
        a + (view.GetOutputFor txin).nValue := by
      simp only [MoneyRange, and_eq_true, decide_eq_true_eq] at ha hvalue
      refine wrap64_of_fits ⟨?_, ?_⟩
      · exact Int.le_trans (by decide) (Int.add_nonneg ha.1 hvalue.1)
      · refine Int.lt_of_le_of_lt (Int.add_le_add ha.2 hvalue.2) ?_
        rwa [← Int.two_mul]
    rw [hexact] at hrest hsum
    obtain ⟨hv, hrange, hall⟩ := checkInputValues_ok hmax hsum hrest
    refine ⟨?_, hrange, ?_⟩
    · rw [hv, map_cons, sum_cons, Int.add_assoc]
    · intro t ht
      rcases mem_cons.mp ht with rfl | ht
      · refine ⟨hvalue, fun hbad => ?_⟩
        simp only [hbad.1, hbad.2, decide_true, Bool.and_self] at hmature
        exact Bool.noConfusion hmature
      · exact hall t ht

/-- The transactions with traditional inputs. -/
def takesCoins (tx : CTransaction) : Bool := !tx.IsCoinBase && !tx.IsZerocoinSpend

/-- What an input must be for `CheckInputs` to pass it. -/
structure InputOk (N : CConnectNode) (view : CCoinsView) (txin : CTxIn) : Prop where
  available : (view.coins txin.prevout.hash).IsAvailable txin.prevout.n = true
  inRange : MoneyRange N.P (view.GetOutputFor txin).nValue = true
  mature : ∀ nPrevHeight, N.mapBlockIndex view.hashBlock = some nPrevHeight →
    ¬ (((view.coins txin.prevout.hash).fCoinBase ||
      (view.coins txin.prevout.hash).fCoinStake) = true ∧
      nPrevHeight + 1 - (view.coins txin.prevout.hash).nHeight < N.P.nMaturity)

theorem moneyRange_zero {P : CChainParams} (hmax : 0 ≤ P.nMaxMoneyOut) : MoneyRange P 0 = true := by
  unfold MoneyRange
  rw [decide_eq_true hmax]
  rfl

variable {tx : CTransaction}

section
variable (hmax0 : 0 ≤ N.P.nMaxMoneyOut) (hmax : 2 * N.P.nMaxMoneyOut < 2 ^ 63) {view : CCoinsView}
  (htakes : takesCoins tx = true) (h : CheckInputs N tx view = .ok ())
include hmax0 hmax htakes h

theorem CheckInputs_ok :
    (∀ txin ∈ tx.vin, InputOk N view txin) ∧ MoneyRange N.P (exactIn N.Z view tx) = true ∧
      (tx.IsCoinStake = false → tx.GetValueOut ≤ exactIn N.Z view tx) := by
  obtain ⟨hbase, hspend⟩ : tx.IsCoinBase = false ∧ tx.IsZerocoinSpend = false := by
    simpa [takesCoins] using htakes
  unfold CheckInputs at h
  rw [show (!tx.IsCoinBase && !tx.IsZerocoinSpend) = true from htakes] at h
  simp only [if_true, rejectIf_eq_ok, not_eq_false'] at h
  obtain ⟨hhave, h⟩ := h
  have hexact : exactIn N.Z view tx =
      (tx.vin.map fun txin => ((view.GetOutputFor txin).nValue : Int)).sum := by
    unfold exactIn
    rw [hspend, hbase]
    rfl
  cases hprev : N.mapBlockIndex view.hashBlock with
  | none =>
    rw [hprev] at h
    cases h
  | some nPrevHeight =>
    rw [hprev] at h
    simp only [bind_eq_ok] at h
    obtain ⟨nValueIn, hvalues, _, hfee, _⟩ := h
    obtain ⟨hv, hrange, hall⟩ := checkInputValues_ok hmax (moneyRange_zero hmax0) hvalues
    rw [Int.zero_add, ← hexact] at hv
    refine ⟨fun txin hmem => ?_, hv ▸ hrange, fun hstake => ?_⟩
    · obtain ⟨hvalue, hmature⟩ := hall txin hmem
      refine ⟨?_, hvalue, fun n hn => ?_⟩
      · unfold CCoinsView.HaveInputs at hhave
        rw [hbase, hspend, Bool.false_or, Bool.false_or] at hhave
        exact all_eq_true.mp hhave txin hmem
      · rw [hprev] at hn
        cases hn
        exact hmature
    · rw [hstake] at hfee
      simp only [Bool.not_false, if_true, rejectIf_eq_ok, decide_eq_false_iff_not] at hfee
      rw [← hv]
      exact Int.not_lt.mp hfee.1

theorem GetValueIn_exact : view.GetValueIn tx = exactIn N.Z view tx := by
  obtain ⟨_, hrange, _⟩ := CheckInputs_ok hmax0 hmax htakes h
  obtain ⟨hbase, hspend⟩ : tx.IsCoinBase = false ∧ tx.IsZerocoinSpend = false := by
    simpa [takesCoins] using htakes
  unfold exactIn at hrange ⊢
  rw [hspend, hbase] at hrange ⊢
  simp only [false_eq_true, if_false] at hrange ⊢
  unfold CCoinsView.GetValueIn
  rw [hspend, hbase]
  simp only [false_eq_true, if_false]
  have hfold := foldl_wrap64 (tx.vin.map fun txin => ((view.GetOutputFor txin).nValue : Int)) 0
  rw [foldl_map, Int.zero_add] at hfold
  refine hfold.trans (wrap64_of_fits ?_)
  exact fits_of_moneyRange hmax hrange

end

theorem connectSpends_ok {pindex : CBlockIndex} :
    ∀ {vin : List CTxIn} {a v : CAmount} {l l' : List (CoinSpend × uint256)},
    connectSpends N tx pindex vin a l = .ok (v, l') →
    wrap64 v = wrap64 (a + ((vin.filter fun txin => txin.scriptSig.IsZerocoinSpend).map
      (spentAmount N.Z)).sum)
  | [], a, v, l, l', h => by
    cases h
    simp
  | txin :: vin, a, v, l, l', h => by
    cases hz : txin.scriptSig.IsZerocoinSpend
    · simp only [connectSpends, hz, Bool.not_false, if_true] at h
      simp only [filter_cons, hz, false_eq_true, if_false]
      exact connectSpends_ok h
    · simp only [connectSpends, hz, Bool.not_true, Bool.false_eq_true, if_false] at h
      cases hs : N.Z.TxInToZerocoinSpend txin with
      | none =>
        rw [hs] at h
        cases h
      | some spend =>
        rw [hs] at h
        simp only [rejectIf_eq_ok] at h
        rw [connectSpends_ok h.2, wrap64_add_wrap64_left]
        have hamount : spentAmount N.Z txin = spend.denomination.toInt * COIN := by
          unfold spentAmount
          rw [hs]
          exact Int.mul_comm _ _
        simp only [filter_cons, hz, if_true, map_cons, sum_cons, hamount]
        rw [Int.add_assoc]

/-! ## One round -/

/-- What a round of the loop does. -/
structure Connects (N : CConnectNode) (nHeight : Int) (first : Bool) (tx : CTransaction)
    (st st' : ConnectState) : Prop where
  updated : ∃ vprevout, UpdateCoins tx st.view nHeight = some (st'.view, vprevout) ∧
    st'.vtxundo = if first then st.vtxundo else st.vtxundo ++ [vprevout]
  valueOut : st'.nValueOut = wrap64 (st.nValueOut + tx.GetValueOut)
  valueIn : wrap64 st'.nValueIn = wrap64 (st.nValueIn + exactIn N.Z st.view tx)
  nFees : st'.nFees = if paysFee (tx, st.view) then rebate PROSPERITYNODE_AMOUNT st.nFees
    (-gain N.Z (tx, st.view)) else st.nFees
  fee_nonneg : paysFee (tx, st.view) = true → 0 ≤ -gain N.Z (tx, st.view)
  inputs : takesCoins tx = true → (∀ txin ∈ tx.vin, InputOk N st.view txin) ∧
    MoneyRange N.P (exactIn N.Z st.view tx) = true

/-- What the branches before `UpdateCoins` do with the sums. -/
structure Sums (N : CConnectNode) (tx : CTransaction) (st mid : ConnectState) : Prop where
  view : mid.view = st.view
  vtxundo : mid.vtxundo = st.vtxundo
  valueOut : mid.nValueOut = st.nValueOut
  valueIn : wrap64 mid.nValueIn = wrap64 (st.nValueIn + exactIn N.Z st.view tx)
  nFees : mid.nFees = if paysFee (tx, st.view) then rebate PROSPERITYNODE_AMOUNT st.nFees
    (-gain N.Z (tx, st.view)) else st.nFees
  fee_nonneg : paysFee (tx, st.view) = true → 0 ≤ -gain N.Z (tx, st.view)
  inputs : takesCoins tx = true → (∀ txin ∈ tx.vin, InputOk N st.view txin) ∧
    MoneyRange N.P (exactIn N.Z st.view tx) = true

theorem connectOrdinary_sums (hmax0 : 0 ≤ N.P.nMaxMoneyOut) (hmax : 2 * N.P.nMaxMoneyOut < 2 ^ 63)
    {pindex : CBlockIndex} {st mid : ConnectState}
    (hspend : tx.IsZerocoinSpend = false) (hbase : tx.IsCoinBase = false)
    (h : connectOrdinary N pindex tx st = .ok mid) : Sums N tx st mid := by
  have htakes : takesCoins tx = true := by
    unfold takesCoins
    rw [hspend, hbase]
    rfl
  simp only [connectOrdinary, rejectIf_eq_ok, bind_eq_ok] at h
  obtain ⟨_, _, vMints, _, _, _, hcheck, h⟩ := h
  cases h
  obtain ⟨hin, hrange, hfee⟩ := CheckInputs_ok hmax0 hmax htakes hcheck
  have hvalue := GetValueIn_exact hmax0 hmax htakes hcheck
  have hgain : st.view.GetValueIn tx - tx.GetValueOut = -gain N.Z (tx, st.view) := by
    rw [hvalue]
    exact (Int.neg_sub _ _).symm
  have hpays : paysFee (tx, st.view) = !tx.IsCoinStake := by
    unfold paysFee
    rw [hspend, hbase]
    rfl
  refine ⟨rfl, rfl, rfl, ?_, ?_, fun hp => ?_, fun _ => ⟨hin, hrange⟩⟩
  · show wrap64 (wrap64 (st.nValueIn + st.view.GetValueIn tx)) = _
    rw [wrap64_wrap64, hvalue]
  · show (if !tx.IsCoinStake then addFee st.nFees (st.view.GetValueIn tx - tx.GetValueOut)
      else st.nFees) = _
    rw [hpays, hgain]
    rfl
  · have hstake : tx.IsCoinStake = false := by simpa [hpays] using hp
    have hle := hfee hstake
    show 0 ≤ -(tx.GetValueOut - exactIn N.Z st.view tx)
    rw [Int.neg_sub]
    exact Int.sub_nonneg_of_le hle

theorem coinBase_sums {st : ConnectState}
    (hspend : tx.IsZerocoinSpend = false) (hbase : tx.IsCoinBase = true) : Sums N tx st st := by
  have hpays : paysFee (tx, st.view) = false := by simp [paysFee, hbase]
  have hin : exactIn N.Z st.view tx = 0 := by
    unfold exactIn
    rw [hspend, hbase]
    rfl
  refine ⟨rfl, rfl, rfl, ?_, ?_, ?_, ?_⟩
  · rw [hin, Int.add_zero]
  · rw [hpays]
    rfl
  · rw [hpays]
    simp
  · intro ht
    simp [takesCoins, hbase] at ht

theorem connectZerocoinSpend_sums {pindex : CBlockIndex}
    {st mid : ConnectState} (hspend : tx.IsZerocoinSpend = true)
    (h : connectZerocoinSpend N pindex tx st = .ok mid) : Sums N tx st mid := by
  simp only [connectZerocoinSpend, rejectIf_eq_ok, bind_eq_ok] at h
  obtain ⟨_, ⟨nValueIn, vSpends⟩, hspends, vMints, _, h⟩ := h
  cases h
  have hpays : paysFee (tx, st.view) = false := by simp [paysFee, hspend]
  refine ⟨rfl, rfl, rfl, ?_, ?_, ?_, ?_⟩
  · show wrap64 nValueIn = _
    unfold exactIn
    rw [hspend]
    exact connectSpends_ok hspends
  · rw [hpays]
    rfl
  · rw [hpays]
    simp
  · intro ht
    simp [takesCoins, hspend] at ht

/-- What a round has queued, by the kind of the transaction. -/
inductive TxQueues (N : CConnectNode) (pindex : CBlockIndex) (tx : CTransaction)
    (st st' : ConnectState) : Prop
  | coinBase (hspend : tx.IsZerocoinSpend = false) (hbase : tx.IsCoinBase = true)
      (hspends : st'.vSpends = st.vSpends) (hmints : st'.vMints = st.vMints)
  | ordinary (hspend : tx.IsZerocoinSpend = false) (hbase : tx.IsCoinBase = false)
      (hspends : st'.vSpends = st.vSpends)
      (hmints : connectMints N tx pindex tx.vout st.vMints = .ok st'.vMints)
      (hinputs : CheckInputs N tx st.view = .ok ())
  | spend (hspend : tx.IsZerocoinSpend = true) {nValueIn : CAmount}
      (hspends : connectSpends N tx pindex tx.vin st.nValueIn st.vSpends =
        .ok (nValueIn, st'.vSpends))
      (hmints : connectMints N tx pindex tx.vout st.vMints = .ok st'.vMints)

theorem connectTx_queues {block : CBlock} {pindex : CBlockIndex} {first : Bool}
    {st st' : ConnectState} (h : connectTx N block pindex first tx st = .ok st') :
    (∃ vprevout, UpdateCoins tx st.view pindex.nHeight = some (st'.view, vprevout)) ∧
      TxQueues N pindex tx st st' := by
  simp only [connectTx, rejectIf_eq_ok, bind_eq_ok] at h
  obtain ⟨-, -, mid, hmid, hup⟩ := h
  have hqueues : mid.view = st.view ∧ TxQueues N pindex tx st mid := by
    cases hspend : tx.IsZerocoinSpend
    · cases hbase : tx.IsCoinBase
      · rw [hspend, hbase] at hmid
        simp only [Bool.false_eq_true, if_false, Bool.not_false, if_true, connectOrdinary,
          rejectIf_eq_ok, bind_eq_ok] at hmid
        obtain ⟨-, -, vMints, hmints, -, _, hinputs, hmid⟩ := hmid
        cases hmid
        exact ⟨rfl, .ordinary hspend hbase rfl hmints hinputs⟩
      · rw [hspend, hbase] at hmid
        cases hmid
        exact ⟨rfl, .coinBase hspend hbase rfl rfl⟩
    · rw [hspend, if_pos rfl] at hmid
      simp only [connectZerocoinSpend, rejectIf_eq_ok, bind_eq_ok] at hmid
      obtain ⟨-, ⟨nValueIn, vSpends⟩, hspends, vMints, hmints, hmid⟩ := hmid
      cases hmid
      exact ⟨rfl, .spend hspend hspends hmints⟩
  cases hview : UpdateCoins tx mid.view pindex.nHeight with
  | none =>
    rw [hview] at hup
    cases hup
  | some r =>
    rw [hview] at hup
    cases hup
    refine ⟨⟨r.2, hqueues.1 ▸ hview⟩, ?_⟩
    cases hqueues.2 with
    | coinBase hspend hbase hspends hmints => exact .coinBase hspend hbase hspends hmints
    | ordinary hspend hbase hspends hmints hinputs =>
      exact .ordinary hspend hbase hspends hmints hinputs
    | spend hspend hspends hmints => exact .spend hspend hspends hmints

theorem connectTx_ok (hmax0 : 0 ≤ N.P.nMaxMoneyOut) (hmax : 2 * N.P.nMaxMoneyOut < 2 ^ 63)
    {block : CBlock} {pindex : CBlockIndex} {first : Bool}
    {st st' : ConnectState} (h : connectTx N block pindex first tx st = .ok st') :
    Connects N pindex.nHeight first tx st st' := by
  simp only [connectTx, rejectIf_eq_ok, bind_eq_ok] at h
  obtain ⟨_, _, mid, hmid, hup⟩ := h
  have hsums : Sums N tx { st with nSigOps := st.nSigOps + N.GetLegacySigOpCount tx } mid := by
    cases hspend : tx.IsZerocoinSpend
    · cases hbase : tx.IsCoinBase
      · rw [hspend, hbase] at hmid
        exact connectOrdinary_sums hmax0 hmax hspend hbase hmid
      · rw [hspend, hbase] at hmid
        cases hmid
        exact coinBase_sums hspend hbase
    · rw [hspend] at hmid
      exact connectZerocoinSpend_sums hspend hmid
  cases hview : UpdateCoins tx mid.view pindex.nHeight with
  | none =>
    rw [hview] at hup
    cases hup
  | some r =>
    obtain ⟨view, vprevout⟩ := r
    rw [hview] at hup
    cases hup
    refine ⟨⟨vprevout, hsums.view ▸ hview, ?_⟩, ?_, hsums.valueIn, hsums.nFees,
      hsums.fee_nonneg, hsums.inputs⟩
    · show (if first then mid.vtxundo else mid.vtxundo ++ [vprevout]) = _
      rw [hsums.vtxundo]
    · show wrap64 (mid.nValueOut + tx.GetValueOut) = _
      rw [hsums.valueOut]

/-! ## The whole loop -/

/-- The rounds of a block, one after the other. -/
inductive ConnectRun (N : CConnectNode) (nHeight : Int) :
    Bool → List CTransaction → ConnectState → ConnectState → Prop
  | nil {first : Bool} {st : ConnectState} : ConnectRun N nHeight first [] st st
  | cons {first : Bool} {tx : CTransaction} {vtx : List CTransaction} {st mid st' : ConnectState} :
      Connects N nHeight first tx st mid → ConnectRun N nHeight false vtx mid st' →
      ConnectRun N nHeight first (tx :: vtx) st st'

theorem connectTxs_ok (hmax0 : 0 ≤ N.P.nMaxMoneyOut) (hmax : 2 * N.P.nMaxMoneyOut < 2 ^ 63)
    {block : CBlock} {pindex : CBlockIndex} :
    ∀ {vtx : List CTransaction} {first : Bool} {st st' : ConnectState},
    connectTxs N block pindex first vtx st = .ok st' →
    ConnectRun N pindex.nHeight first vtx st st'
  | [], _, _, _, h => by
    cases h
    exact .nil
  | tx :: vtx, first, st, st', h => by
    simp only [connectTxs, bind_eq_ok] at h
    obtain ⟨mid, hmid, hrest⟩ := h
    exact .cons (connectTx_ok hmax0 hmax hmid) (connectTxs_ok hmax0 hmax hrest)

namespace ConnectRun

variable {nHeight : Int} {first : Bool} {vtx : List CTransaction} {st st' : ConnectState}

theorem steps_cons {mid : ConnectState}
    (h : Connects N nHeight first tx st mid) :
    txSteps nHeight (tx :: vtx) st.view = (tx, st.view) :: txSteps nHeight vtx mid.view := by
  obtain ⟨vprevout, hview, _⟩ := h.updated
  rw [txSteps, hview]

section
variable (h : ConnectRun N nHeight first vtx st st')
include h

theorem steps_fst :
    (txSteps nHeight vtx st.view).map Prod.fst = vtx := by
  induction h with
  | nil => rfl
  | cons hstep _ ih => rw [steps_cons hstep, map_cons, ih]

theorem values :
    wrap64 (st'.nValueOut - st'.nValueIn) =
      wrap64 (st.nValueOut - st.nValueIn + created N.Z (txSteps nHeight vtx st.view)) := by
  induction h with
  | nil => simp [txSteps, created]
  | @cons first tx vtx st mid st' hstep _ ih =>
    have hmid : wrap64 (mid.nValueOut - mid.nValueIn) =
        wrap64 (st.nValueOut - st.nValueIn + gain N.Z (tx, st.view)) := by
      rw [hstep.valueOut, wrap64_sub_wrap64_left, ← wrap64_sub_wrap64_right, hstep.valueIn,
        wrap64_sub_wrap64_right]
      congr 1
      exact add_sub_add_comm _ _ _ _
    have hcreated : created N.Z (txSteps nHeight (tx :: vtx) st.view) =
        gain N.Z (tx, st.view) + created N.Z (txSteps nHeight vtx mid.view) := by
      rw [steps_cons hstep]
      exact sum_cons
    rw [ih, ← wrap64_add_wrap64_left, hmid, wrap64_add_wrap64_left, hcreated, Int.add_assoc]

theorem nFees :
    st'.nFees = (fees N.Z (txSteps nHeight vtx st.view)).foldl (rebate PROSPERITYNODE_AMOUNT)
      st.nFees := by
  induction h with
  | nil => rfl
  | @cons first tx vtx st mid st' hstep _ ih =>
    rw [ih, hstep.nFees, steps_cons hstep]
    unfold fees
    rw [filter_cons]
    cases paysFee (tx, st.view)
    · rfl
    · rfl

theorem fees_nonneg :
    ∀ f ∈ fees N.Z (txSteps nHeight vtx st.view), 0 ≤ f := by
  induction h with
  | nil => exact nofun
  | @cons first tx vtx st mid st' hstep _ ih =>
    intro f hf
    rw [steps_cons hstep] at hf
    unfold fees at hf ih
    rw [filter_cons] at hf
    cases hp : paysFee (tx, st.view)
    · rw [hp] at hf
      exact ih f hf
    · rw [hp] at hf
      rcases mem_cons.mp hf with rfl | hf
      · exact hstep.fee_nonneg hp
      · exact ih f hf

theorem inputs :
    ∀ s ∈ txSteps nHeight vtx st.view, takesCoins s.1 = true →
      (∀ txin ∈ s.1.vin, InputOk N s.2 txin) ∧ MoneyRange N.P (exactIn N.Z s.2 s.1) = true := by
  induction h with
  | nil => exact nofun
  | cons hstep _ ih =>
    intro s hs
    rw [steps_cons hstep] at hs
    rcases mem_cons.mp hs with rfl | hs
    · exact hstep.inputs
    · exact ih s hs

end

end ConnectRun

/-! ## The mint figure -/

def blockSteps (block : CBlock) (pindex : CBlockIndex) (view : CCoinsView) : List TxStep :=
  txSteps pindex.nHeight block.vtx view

theorem UpdateZDIVITSupply_ok {block : CBlock} {pindex pprev pindex' : CBlockIndex}
    (h : UpdateZDIVITSupply N block pindex pprev = .ok pindex') :
    (pindex'.phashBlock = pindex.phashBlock ∧ pindex'.nHeight = pindex.nHeight ∧
      pindex'.undo = pindex.undo) ∧
      pindex'.nAccumulatorCheckpoint = pindex.nAccumulatorCheckpoint := by
  simp only [UpdateZDIVITSupply, bind_eq_ok] at h
  obtain ⟨_, _, h⟩ := h
  cases h
  exact ⟨⟨rfl, rfl, rfl⟩, rfl⟩

section
variable {block : CBlock} {pindex pprev pindex' : CBlockIndex} {view : CCoinsView}
  {st : ConnectState} {fAlreadyChecked : Bool} {c : Connected}

theorem connectTotals_parts (h : connectTotals N block pindex pprev view = .ok (pindex', st)) :
    connectTxs N block pindex true block.vtx (.start view) = .ok st ∧
      (fEnforceBIP30 pindex = true → ∀ tx ∈ block.vtx, (view.coins tx.hash).IsPruned = true) ∧
      (pindex'.phashBlock = pindex.phashBlock ∧ pindex'.nHeight = pindex.nHeight ∧
        pindex'.undo = pindex.undo) ∧
      pindex'.nAccumulatorCheckpoint = pindex.nAccumulatorCheckpoint := by
  simp only [connectTotals, rejectIf_eq_ok, bind_eq_ok] at h
  obtain ⟨-, -, hbip, st₁, hrun, pindex₁, hsupply, h⟩ := h
  cases h
  have hindex := UpdateZDIVITSupply_ok hsupply
  refine ⟨hrun, fun henforce tx htx => ?_, hindex⟩
  rw [henforce, Bool.true_and] at hbip
  simpa using any_eq_false.mp hbip tx htx

theorem ConnectBlock_ok (hgenesis : block.hash ≠ N.hashGenesisBlock)
    (h : ConnectBlock N block pindex pprev view false fAlreadyChecked = .ok c) :
    ∃ pindex' st, (fAlreadyChecked = true ∨ CheckBlock N.toCNode block true true = .ok ()) ∧
      pprev.phashBlock = some view.hashBlock ∧
      connectTotals N block pindex pprev view = .ok (pindex', st) ∧
      c = ⟨{ pindex' with
          undo := some (pindex'.undo.getD (WriteToDisk N st.vtxundo view.hashBlock)) },
        st.view.SetBestBlock (pindex'.phashBlock.getD 0), st.vSpends, st.vMints⟩ := by
  unfold ConnectBlock at h
  simp only [bind_eq_ok, rejectIf_eq_ok, if_neg hgenesis, false_eq_true, if_false,
    bne_eq_false_iff_eq] at h
  obtain ⟨_, hcheck, hbest, ⟨pindex', st⟩, htotals, _, _, _, hc⟩ := h
  refine ⟨pindex', st, ?_, hbest, htotals, (Except.ok.inj hc).symm⟩
  cases fAlreadyChecked
  · exact .inr hcheck
  · exact .inl rfl

theorem ConnectBlock_genesis (hgenesis : block.hash = N.hashGenesisBlock)
    (h : ConnectBlock N block pindex pprev view false fAlreadyChecked = .ok c) :
    c = ⟨pindex, view.SetBestBlock (pindex.phashBlock.getD 0), [], []⟩ := by
  unfold ConnectBlock at h
  simp only [bind_eq_ok, rejectIf_eq_ok, if_pos hgenesis] at h
  obtain ⟨_, -, -, hc⟩ := h
  exact (Except.ok.inj hc).symm

end

/-- What `connectTotals` has established when it succeeds. -/
structure Totals (N : CConnectNode) (block : CBlock) (pindex : CBlockIndex) (view : CCoinsView)
    (pindex' : CBlockIndex) (st : ConnectState) : Prop where
  bip30 : fEnforceBIP30 pindex = true → ∀ tx ∈ block.vtx, (view.coins tx.hash).IsPruned = true
  run : ConnectRun N pindex.nHeight true block.vtx (.start view) st
  nMint : pindex'.nMint = wrap64 (created N.Z (blockSteps block pindex view) + st.nFees)
  index : pindex'.phashBlock = pindex.phashBlock ∧ pindex'.nHeight = pindex.nHeight ∧
    pindex'.undo = pindex.undo

theorem connectTotals_ok (hmax0 : 0 ≤ N.P.nMaxMoneyOut) (hmax : 2 * N.P.nMaxMoneyOut < 2 ^ 63)
    {block : CBlock} {pindex pprev pindex' : CBlockIndex} {view : CCoinsView} {st : ConnectState}
    (h : connectTotals N block pindex pprev view = .ok (pindex', st)) :
    Totals N block pindex view pindex' st := by
  obtain ⟨hrun, hbip, hindex, -⟩ := connectTotals_parts h
  have hrun := connectTxs_ok hmax0 hmax hrun
  refine ⟨hbip, hrun, ?_, hindex⟩
  simp only [connectTotals, rejectIf_eq_ok, bind_eq_ok] at h
  obtain ⟨_, _, _, st₁, _, pindex₁, _, h⟩ := h
  cases h
  have hvalues : wrap64 (st.nValueOut - st.nValueIn) =
      wrap64 (created N.Z (blockSteps block pindex view)) := by
    rw [hrun.values]
    exact congrArg wrap64 (Int.zero_add _)
  -- the supply of the previous block cancels
  simp only [wrap64_sub_wrap64_left, wrap64_add_wrap64_left]
  rw [← wrap64_add_wrap64_left (created _ _), ← hvalues, wrap64_add_wrap64_left]
  congr 2
  rw [add_sub_assoc, add_sub_cancel_left]

end

end Divitae
