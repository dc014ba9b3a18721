/-
# `FeeTotal` — the fees a block pays

`ConnectBlock` adds the fees of the ordinary transactions up and takes the 2500 coins a
prosperitynode start burns off the running total, where `CheckInputs` and `CreateNewBlock` take
them out of the fee of the transaction that carries them (`nTxFee`).

    fee_total_iff      when the total is the sum of the net fees: for the order the block has,
                       and for every order

Fees that carry no burn give 2500 coins back as soon as they pass 2500 coins together.
-/
import Divitae.StakeReward

namespace Divitae

open Wrap List Bool

section
variable {N : CConnectNode} {block : CBlock} {pindex : CBlockIndex} {view : CCoinsView}
  {st st' : ConnectState}

/-- What the loop of `ConnectBlock` adds for a transaction. -/
def ownFee (s : TxStep) : CAmount := s.2.GetValueIn s.1 - s.1.GetValueOut

/-- The fee with the burn taken out, as `CheckInputs` and `CreateNewBlock` have it. -/
def nTxFee (s : TxStep) : CAmount :=
  if ownFee s > PROSPERITYNODE_AMOUNT then ownFee s - PROSPERITYNODE_AMOUNT else ownFee s

/-- The ordinary transactions, each in the view it meets. -/
def ordinarySteps (block : CBlock) (pindex : CBlockIndex) (view : CCoinsView) : List TxStep :=
  (blockSteps block pindex view).filter paysFee

/-! ## What the loop has checked -/

theorem connectTx_checked {first : Bool} {tx : CTransaction}
    (h : connectTx N block pindex first tx st = .ok st') (hpays : paysFee (tx, st.view) = true) :
    CheckInputs N tx st.view = .ok () := by
  simp only [paysFee, and_eq_true, not_eq_true'] at hpays
  obtain ⟨⟨hspend, hbase⟩, -⟩ := hpays
  cases (connectTx_queues h).2 with
  | coinBase _ hbase' => cases hbase.symm.trans hbase'
  | ordinary _ _ _ _ hinputs => exact hinputs
  | spend hspend' => cases hspend.symm.trans hspend'

theorem connectTxs_checked (hnet : IsNetwork N.P) :
    ∀ {vtx : List CTransaction} {first : Bool} {st st' : ConnectState},
      connectTxs N block pindex first vtx st = .ok st' →
      ∀ s ∈ txSteps pindex.nHeight vtx st.view, paysFee s = true → CheckInputs N s.1 s.2 = .ok ()
  | [], _, _, _, _ => by
    intro s hs
    cases hs
  | tx :: vtx, first, st, st', h => by
    simp only [connectTxs, bind_eq_ok] at h
    obtain ⟨mid, hmid, hrest⟩ := h
    intro s hs hpays
    rw [ConnectRun.steps_cons (connectTx_ok hnet.max_nonneg hnet.max_fits hmid)] at hs
    rcases mem_cons.mp hs with rfl | hs
    · exact connectTx_checked hmid hpays
    · exact connectTxs_checked hnet hrest s hs hpays

theorem CheckInputs_fee (hnet : IsNetwork N.P) {s : TxStep} (hpays : paysFee s = true)
    (h : CheckInputs N s.1 s.2 = .ok ()) :
    ownFee s = -gain N.Z s ∧ 0 ≤ ownFee s ∧ MoneyRange N.P (nTxFee s) = true := by
  simp only [paysFee, and_eq_true, not_eq_true'] at hpays
  obtain ⟨⟨hspend, hbase⟩, hstake⟩ := hpays
  have htakes : takesCoins s.1 = true := by simp [takesCoins, hspend, hbase]
  have hvalue := GetValueIn_exact hnet.max_nonneg hnet.max_fits htakes h
  obtain ⟨-, -, hcovers⟩ := CheckInputs_ok hnet.max_nonneg hnet.max_fits htakes h
  have hgain : ownFee s = -gain N.Z s := by
    unfold ownFee gain
    rw [hvalue]
    exact (Int.neg_sub _ _).symm
  refine ⟨hgain, ?_, ?_⟩
  · rw [hgain]
    show 0 ≤ -(s.1.GetValueOut - exactIn N.Z s.2 s.1)
    rw [Int.neg_sub]
    exact Int.sub_nonneg_of_le (hcovers hstake)
  · unfold CheckInputs at h
    rw [hbase, hspend] at h
    simp only [Bool.not_false, Bool.and_self, if_true, rejectIf_eq_ok] at h
    obtain ⟨-, h⟩ := h
    cases hprev : N.mapBlockIndex s.2.hashBlock with
    | none =>
      rw [hprev] at h
      cases h
    | some nPrevHeight =>
      rw [hprev, hstake] at h
      simp only [bind_eq_ok, Bool.not_false, if_true, rejectIf_eq_ok, Bool.not_eq_false'] at h
      obtain ⟨nValueIn, hvalues, -, ⟨-, -, hrange, -⟩, -⟩ := h
      obtain ⟨hv, -, -⟩ := checkInputValues_ok hnet.max_fits
        (moneyRange_zero hnet.max_nonneg) hvalues
      have hexact : nValueIn = s.2.GetValueIn s.1 := by
        rw [hvalue, hv, Int.zero_add]
        unfold exactIn
        rw [hspend, hbase]
        rfl
      rw [hexact] at hrange
      exact hrange

theorem MoneyRange_le (hnet : IsNetwork N.P) {nValue : CAmount}
    (h : MoneyRange N.P nValue = true) : nValue ≤ 10 ^ 16 := by
  have hle := of_decide_eq_true (and_eq_true_iff.mp h).2
  refine Int.le_trans hle ?_
  rcases hnet with hP | hP | hP <;> (rw [hP]; decide)

theorem ownFee_range (hnet : IsNetwork N.P) {s : TxStep} (hpays : paysFee s = true)
    (h : CheckInputs N s.1 s.2 = .ok ()) : 0 ≤ ownFee s ∧ ownFee s < 2 ^ 62 := by
  obtain ⟨-, hlo, hrange⟩ := CheckInputs_fee hnet hpays h
  have hhi := MoneyRange_le hnet hrange
  refine ⟨hlo, ?_⟩
  have hback : ∀ fee : Int, net 250000000000 fee ≤ 10 ^ 16 → fee < 2 ^ 62 := by
    intro fee hnetFee
    unfold net at hnetFee
    split_ifs at hnetFee <;> omega
  exact hback (ownFee s) hhi

section
variable (hnet : IsNetwork N.P)
  (h : connectTxs N block pindex true block.vtx (.start view) = .ok st)
include hnet h

theorem checked_ordinary :
    ∀ s ∈ ordinarySteps block pindex view, paysFee s = true ∧ CheckInputs N s.1 s.2 = .ok () := by
  intro s hs
  obtain ⟨hmem, hpays⟩ := mem_filter.mp hs
  exact ⟨hpays, connectTxs_checked hnet h s hmem hpays⟩

theorem nFees_eq :
    st.nFees = ((ordinarySteps block pindex view).map ownFee).foldl addFee 0 := by
  have hrun := connectTxs_ok hnet.max_nonneg hnet.max_fits h
  have hfees : fees N.Z (blockSteps block pindex view) =
      (ordinarySteps block pindex view).map ownFee := by
    refine map_congr_left ?_
    intro s hs
    obtain ⟨hpays, hcheck⟩ := checked_ordinary hnet h s hs
    exact (CheckInputs_fee hnet hpays hcheck).1.symm
  rw [hrun.nFees]
  exact congrArg (List.foldl addFee 0) hfees

end

/-- **When the total is the sum of the net fees.**  In the order the block has: each fee without
burn stays within 2500 coins together with the net fees before it, each fee with a burn within
the register.  In this and every other order of the fees: with a fee that carries no burn all
net fees stay within 2500 coins together, with one that does 2500 coins more stay within the
register. -/
theorem fee_total_iff (hnet : IsNetwork N.P)
    (h : connectTxs N block pindex true block.vtx (.start view) = .ok st) :
    (st.nFees = ((ordinarySteps block pindex view).map nTxFee).sum ↔
      Run.Guarded (fun S fee => S + net PROSPERITYNODE_AMOUNT fee)
        (SameAlone PROSPERITYNODE_AMOUNT) 0
        ((ordinarySteps block pindex view).map ownFee)) ∧
    ((st.nFees = ((ordinarySteps block pindex view).map nTxFee).sum ∧
        ∀ order : List CAmount, order.Perm ((ordinarySteps block pindex view).map ownFee) →
          order.foldl addFee 0 = st.nFees) ↔
      ((∃ s ∈ ordinarySteps block pindex view, ownFee s ≤ PROSPERITYNODE_AMOUNT) →
        ((ordinarySteps block pindex view).map nTxFee).sum ≤ PROSPERITYNODE_AMOUNT) ∧
      ((∃ s ∈ ordinarySteps block pindex view, PROSPERITYNODE_AMOUNT < ownFee s) →
        ((ordinarySteps block pindex view).map nTxFee).sum + PROSPERITYNODE_AMOUNT < 2 ^ 63)) := by
  have htotal := nFees_eq hnet h
  have hrange : ∀ fee ∈ (ordinarySteps block pindex view).map ownFee, 0 ≤ fee ∧ fee < 2 ^ 62 := by
    intro fee hfee
    obtain ⟨s, hs, rfl⟩ := mem_map.mp hfee
    obtain ⟨hpays, hcheck⟩ := checked_ordinary hnet h s hs
    exact ownFee_range hnet hpays hcheck
  have hnets : (ordinarySteps block pindex view).map nTxFee =
      ((ordinarySteps block pindex view).map ownFee).map (net PROSPERITYNODE_AMOUNT) := by
    rw [map_map]
    rfl
  have hone := foldl_rebate_eq_iff (a := PROSPERITYNODE_AMOUNT) (S := 0) (by decide) (by decide)
    hrange (Int.le_refl 0) (by decide)
  have hall := rebate_anyOrder_iff (a := PROSPERITYNODE_AMOUNT) (by decide) (by decide) hrange
  rw [Int.zero_add] at hone
  rw [htotal, hnets]
  refine ⟨hone, ?_⟩
  have hsmall : (∃ fee ∈ (ordinarySteps block pindex view).map ownFee,
      fee ≤ PROSPERITYNODE_AMOUNT) ↔
      ∃ s ∈ ordinarySteps block pindex view, ownFee s ≤ PROSPERITYNODE_AMOUNT := by
    simp only [mem_map, exists_exists_and_eq_and]
  have hlarge : (∃ fee ∈ (ordinarySteps block pindex view).map ownFee,
      PROSPERITYNODE_AMOUNT < fee) ↔
      ∃ s ∈ ordinarySteps block pindex view, PROSPERITYNODE_AMOUNT < ownFee s := by
    simp only [mem_map, exists_exists_and_eq_and]
  rw [← hsmall, ← hlarge, ← hall]
  constructor
  · rintro ⟨hown, horder⟩ order hperm
    exact (horder order hperm).trans hown
  · intro hevery
    have hown := hevery _ (List.Perm.refl _)
    exact ⟨hown, fun order hperm => (hevery order hperm).trans hown.symm⟩

end

/-! ### Two fees that carry no burn -/

def endOf (block : CBlock) (view : CCoinsView) : Checked ConnectState :=
  connectTxs (quietNode 999) block (quietIndex 999) true block.vtx (.start view)

/-- A burn of 2501 coins leaves one coin, alone or in company. -/
theorem burn_counted : ∃ st, endOf (quietBlock (2 * COIN) [burn]) burnView = .ok st ∧
    st.nFees = ((ordinarySteps (quietBlock (2 * COIN) [burn]) (quietIndex 999) burnView).map
      nTxFee).sum := by
  obtain ⟨st, hst⟩ : ∃ st, endOf (quietBlock (2 * COIN) [burn]) burnView = .ok st :=
    exists_of_isOk (by decide)
  refine ⟨st, hst, (fee_total_iff (.inl rfl) hst).1.mpr ?_⟩
  have hfees : (ordinarySteps (quietBlock (2 * COIN) [burn]) (quietIndex 999) burnView).map
      ownFee = [2501 * COIN] := by decide
  exact ⟨⟨by decide, by decide⟩, trivial⟩

/-- Transactions 8 and 9 hold 3000 coins each, transaction 7 one coin. -/
def feeView : CCoinsView where
  coins txid :=
    if txid = 7 then ⟨false, false, [⟨COIN, []⟩], 5, 1⟩
    else if txid = 8 ∨ txid = 9 then ⟨false, false, [⟨3000 * COIN, []⟩], 5, 1⟩
    else .null
  hashBlock := 100

/-- Each pays 1500 coins. -/
def payers : List CTransaction :=
  [⟨203, 1, [⟨⟨8, 0⟩, [], 0⟩], [⟨1500 * COIN, []⟩], 0⟩,
    ⟨204, 1, [⟨⟨9, 0⟩, [], 0⟩], [⟨1500 * COIN, []⟩], 0⟩]

/-- The register holds 500 coins behind them. -/
theorem payers_give_burn_back :
    ¬ ∀ st, endOf (quietBlock (2 * COIN) payers) feeView = .ok st →
      st.nFees = ((ordinarySteps (quietBlock (2 * COIN) payers) (quietIndex 999) feeView).map
        nTxFee).sum := by
  intro hall
  obtain ⟨st, hst⟩ : ∃ st, endOf (quietBlock (2 * COIN) payers) feeView = .ok st :=
    exists_of_isOk (by decide)
  have hfees : (endOf (quietBlock (2 * COIN) payers) feeView).map ConnectState.nFees =
      .ok (500 * COIN) := by decide
  have hsum : ((ordinarySteps (quietBlock (2 * COIN) payers) (quietIndex 999) feeView).map
      nTxFee).sum = 3000 * COIN := by decide
  have hend := hall st hst
  rw [hst] at hfees
  rw [hsum, Except.ok.inj hfees] at hend
  exact absurd hend (by decide)

end Divitae
