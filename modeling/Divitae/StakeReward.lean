/-
# `StakeReward` — what the staker can take of what others pay

The value check adds the fee register back to what was created, so that fees do not
make room for a larger reward.  But the register gives 2500 coins back each time it
passes them, and zerocoin spends never enter it.  What it misses, the `leak`, is room:
the check lets the coin stake gain the reward and the leak.
-/
import Divitae.StakeSupply

namespace Divitae

open Wrap List

section
variable {N : CConnectNode} {block : CBlock} {pindex pprev pindex' : CBlockIndex}
  {view : CCoinsView} {fJustCheck fAlreadyChecked : Bool} {st : ConnectState}

/-! ## Room in the register -/

theorem redeemed_le (Z : Zerocoin) (vin : List CTxIn) :
    ((vin.filter fun txin => txin.scriptSig.IsZerocoinSpend).map (spentAmount Z)).sum ≤
      vin.length * (5000 * 100000000) := by
  have hone : ∀ v ∈ (vin.filter fun txin => txin.scriptSig.IsZerocoinSpend).map (spentAmount Z),
      v ≤ 5000 * 100000000 := by
    intro v hv
    obtain ⟨txin, _, rfl⟩ := mem_map.mp hv
    unfold spentAmount
    split
    · decide
    · next spend _ => cases spend.denomination <;> decide
  refine Int.le_trans (sum_le_card_nsmul _ _ hone) ?_
  rw [length_map, nsmul_eq_mul]
  refine Int.mul_le_mul_of_nonneg_right ?_ (by decide)
  exact_mod_cast length_filter_le _ _

theorem exactIn_spend_le (hnet : IsNetwork N.P) {s : TxStep}
    (hchecked : CheckedTransaction N.toCNode true s.1) (hspend : s.1.IsZerocoinSpend = true) :
    exactIn N.Z s.2 s.1 ≤ 3500000000000 := by
  have hcount : s.1.vin.length ≤ 7 := by
    have hle := hchecked.spends_le rfl hspend
    rcases hnet with h | h | h
    · rwa [h] at hle
    · rwa [h] at hle
    · rwa [h] at hle
  have hsum := redeemed_le N.Z s.1.vin
  unfold exactIn
  rw [hspend, if_pos rfl]
  omega

theorem GetValueOut_nonneg {tx : CTransaction} (h : ∀ out ∈ tx.vout, 0 ≤ out.nValue) :
    (0 : Int) ≤ tx.GetValueOut := by
  refine sum_nonneg fun v hv => ?_
  obtain ⟨out, hout, rfl⟩ := mem_map.mp hv
  exact h out hout

theorem neg_gain_le {act : Bool} {s : TxStep} (hchecked : CheckedTransaction N.toCNode act s.1) :
    -gain N.Z s ≤ exactIn N.Z s.2 s.1 := by
  have hout := GetValueOut_nonneg hchecked.outputs_nonneg
  show -((s.1.GetValueOut : Int) - exactIn N.Z s.2 s.1) ≤ exactIn N.Z s.2 s.1
  rw [Int.neg_sub]
  exact Int.sub_le_self _ hout

section
variable (hb : OrdinaryStakeBlock N block fAlreadyChecked)
  (h : OnlyValueLeft N block pindex pprev view fJustCheck fAlreadyChecked pindex' st)
include hb h

theorem steps_length_le :
    (blockSteps block pindex view).length ≤ 2000000 := by
  have hfst : (blockSteps block pindex view).map Prod.fst = block.vtx := (h.sums hb).run.steps_fst
  have hsize := (h.stakeBlock hb).size
  rw [← hfst, length_map] at hsize
  exact hsize

theorem zerocoinFees_le (hactive : N.P.nZerocoinStartTime < block.nTime) :
    zerocoinFees N.Z (blockSteps block pindex view) ≤ 2000000 * 3500000000000 := by
  have hone : ∀ v ∈ ((blockSteps block pindex view).filter fun s =>
      s.1.IsZerocoinSpend && !s.1.IsCoinStake).map (fun s => -gain N.Z s), v ≤ 3500000000000 := by
    intro v hv
    obtain ⟨s, hs, rfl⟩ := mem_map.mp hv
    obtain ⟨hmem, hkind⟩ := mem_filter.mp hs
    have hchecked := checked_of_step hb h hmem
    rw [decide_eq_true hactive] at hchecked
    exact Int.le_trans (neg_gain_le hchecked)
      (exactIn_spend_le hb.network hchecked ((Bool.and_eq_true _ _).mp hkind).1)
  refine Int.le_trans (sum_le_card_nsmul _ _ hone) ?_
  rw [length_map, nsmul_eq_mul]
  refine Int.mul_le_mul_of_nonneg_right ?_ (by decide)
  exact_mod_cast Nat.le_trans (length_filter_le _ _) (steps_length_le hb h)

theorem given_le :
    given N.Z (blockSteps block pindex view) ≤ 2000000 * PROSPERITYNODE_AMOUNT := by
  refine Int.le_trans (rebates_le_length (by decide) _ _) ?_
  refine Int.mul_le_mul_of_nonneg_right ?_ (by decide)
  unfold fees
  rw [length_map]
  exact_mod_cast Nat.le_trans (length_filter_le _ _) (steps_length_le hb h)

theorem stakeGain_ge (hactive : N.P.nZerocoinStartTime < block.nTime) :
    -(N.P.nMaxMoneyOut + 3500000000000) ≤ stakeGain N.Z (blockSteps block pindex view) := by
  have hmax0 : (0 : Int) ≤ N.P.nMaxMoneyOut := hb.network.max_nonneg
  rcases hsteps : blockSteps block pindex view with _ | ⟨s₀, _ | ⟨s₁, steps⟩⟩
  · exact Int.neg_nonpos_of_nonneg (Int.add_nonneg hmax0 (by decide))
  · exact Int.neg_nonpos_of_nonneg (Int.add_nonneg hmax0 (by decide))
  · have hmem : s₁ ∈ blockSteps block pindex view := by
      rw [hsteps]
      exact mem_cons_of_mem _ mem_cons_self
    have hchecked := checked_of_step hb h hmem
    rw [decide_eq_true hactive] at hchecked
    have hin : exactIn N.Z s₁.2 s₁.1 ≤ (N.P.nMaxMoneyOut : Int) + 3500000000000 := by
      cases hspend : s₁.1.IsZerocoinSpend
      · cases hbase : s₁.1.IsCoinBase
        · have htakes : takesCoins s₁.1 = true := by
            unfold takesCoins
            rw [hspend, hbase]
            rfl
          have hrange := ((h.sums hb).run.inputs s₁ hmem htakes).2
          simp only [MoneyRange, Bool.and_eq_true, decide_eq_true_eq] at hrange
          exact Int.le_trans hrange.2 (Int.le_add_of_nonneg_right (by decide))
        · unfold exactIn
          rw [hspend, hbase]
          exact Int.add_nonneg hmax0 (by decide)
      · exact Int.le_trans (exactIn_spend_le hb.network hchecked hspend)
          (Int.le_add_of_nonneg_left hmax0)
    exact Int.neg_le_of_neg_le (Int.le_trans (neg_gain_le hchecked) hin)

theorem stake_fits (hactive : N.P.nZerocoinStartTime < block.nTime) :
    Fits64 (stakeGain N.Z (blockSteps block pindex view) -
      leak N.Z (blockSteps block pindex view)) := by
  have hlo := stakeGain_ge hb h hactive
  have hhi : stakeGain N.Z (blockSteps block pindex view) ≤ N.P.nMaxMoneyOut := stakeGain_le hb h
  have hzlo := zerocoinFees_nonneg hb h hactive
  have hzhi := zerocoinFees_le hb h hactive
  have hglo : 0 ≤ given N.Z (blockSteps block pindex view) := rebates_nonneg (by decide) _ _
  have hghi := given_le hb h
  have hmax : (N.P.nMaxMoneyOut : Int) ≤ 10000000000000000 := by
    rcases hb.network with hn | hn | hn <;> rw [hn] <;> decide
  have harith : ∀ s g z m : Int, -(m + 3500000000000) ≤ s → s ≤ m → 0 ≤ z →
      z ≤ 2000000 * 3500000000000 → 0 ≤ g → g ≤ 2000000 * 250000000000 →
      m ≤ 10000000000000000 → Fits64 (s - (g + z)) := by
    intro s g z m _ _ _ _ _ _ _
    exact ⟨by omega, by omega⟩
  exact harith _ _ _ _ hlo hhi hzlo hzhi hglo hghi hmax

end

theorem nMint_eq_stake (hb : OrdinaryStakeBlock N block fAlreadyChecked)
    (h : OnlyValueLeft N block pindex pprev view fJustCheck fAlreadyChecked pindex' st) :
    pindex'.nMint = wrap64 (stakeGain N.Z (blockSteps block pindex view) -
      leak N.Z (blockSteps block pindex view)) := by
  rw [nMint_eq hb h, unbacked_eq (h.stakeBlock hb) (h.sums hb).run]
  congr 1
  unfold leak
  omega

/-- When is the gain of an accepted stake within the reward of the previous height?
Exactly when no block that passes the other checks has a gain beyond the reward that
the leak brings back under it; with zerocoin active, when the gain is not between the
reward and the reward with the leak. -/
theorem stake_gain_le_reward_iff (hb : OrdinaryStakeBlock N block fAlreadyChecked) :
    ((Accepts N block pindex pprev view fJustCheck fAlreadyChecked →
        stakeGain N.Z (blockSteps block pindex view) ≤ GetBlockValue N.P pprev.nHeight) ↔
      ∀ pindex' st, OnlyValueLeft N block pindex pprev view fJustCheck fAlreadyChecked pindex' st →
        ¬ (GetBlockValue N.P pprev.nHeight < stakeGain N.Z (blockSteps block pindex view) ∧
          wrap64 (stakeGain N.Z (blockSteps block pindex view) -
            leak N.Z (blockSteps block pindex view)) ≤ GetBlockValue N.P pprev.nHeight)) ∧
    (N.P.nZerocoinStartTime < block.nTime →
      ((Accepts N block pindex pprev view fJustCheck fAlreadyChecked →
          stakeGain N.Z (blockSteps block pindex view) ≤ GetBlockValue N.P pprev.nHeight) ↔
        ∀ pindex' st, OnlyValueLeft N block pindex pprev view fJustCheck fAlreadyChecked
          pindex' st →
          ¬ (GetBlockValue N.P pprev.nHeight < stakeGain N.Z (blockSteps block pindex view) ∧
            stakeGain N.Z (blockSteps block pindex view) ≤ GetBlockValue N.P pprev.nHeight +
              leak N.Z (blockSteps block pindex view)))) := by
  have hgeneral : (Accepts N block pindex pprev view fJustCheck fAlreadyChecked →
        stakeGain N.Z (blockSteps block pindex view) ≤ GetBlockValue N.P pprev.nHeight) ↔
      ∀ pindex' st, OnlyValueLeft N block pindex pprev view fJustCheck fAlreadyChecked pindex' st →
        ¬ (GetBlockValue N.P pprev.nHeight < stakeGain N.Z (blockSteps block pindex view) ∧
          wrap64 (stakeGain N.Z (blockSteps block pindex view) -
            leak N.Z (blockSteps block pindex view)) ≤ GetBlockValue N.P pprev.nHeight) := by
    rw [accepts_iff hb]
    constructor
    · rintro hprop pindex' st hleft ⟨hlt, hle⟩
      rw [← nMint_eq_stake hb hleft] at hle
      exact Int.not_le.mpr hlt (hprop ⟨pindex', st, hleft, hle⟩)
    · rintro hwindow ⟨pindex', st, hleft, hmint⟩
      rw [nMint_eq_stake hb hleft] at hmint
      exact Int.not_lt.mp fun hlt => hwindow pindex' st hleft ⟨hlt, hmint⟩
  refine ⟨hgeneral, fun hactive => hgeneral.trans ?_⟩
  refine forall₃_congr fun pindex' st hleft => not_congr (and_congr_right fun _ => ?_)
  rw [wrap64_of_fits (stake_fits hb hleft hactive)]
  exact Int.sub_right_le_iff_le_add

end

/-- The reward of height 999 is one coin; an accepted stake that takes it takes no more. -/
theorem rewarded_stake_gains_reward :
    stakeGain quietZerocoin (blockSteps (quietBlock (2 * COIN) []) (quietIndex 999) oneCoin) ≤
      GetBlockValue mainParams 999 := by
  have hok : Accepts (quietNode 999) (quietBlock (2 * COIN) []) (quietIndex 999) (quietTip 999)
      oneCoin false false := exists_of_isOk (by decide)
  refine (stake_gain_le_reward_iff (quietBlock_ordinary 999 _ _)).1.mpr ?_ hok
  exact fun _ _ _ hwindow => absurd hwindow.1 (by decide)

/-- A transaction that burns 2501 of the 3000 coins of transaction 8. -/
def burn : CTransaction := ⟨202, 1, [⟨⟨8, 0⟩, [], 0⟩], [⟨499 * COIN, []⟩], 0⟩

def burnView : CCoinsView where
  coins txid :=
    if txid = 7 then ⟨false, false, [⟨COIN, []⟩], 5, 1⟩
    else if txid = 8 then ⟨false, false, [⟨3000 * COIN, []⟩], 5, 1⟩
    else .null
  hashBlock := 100

/-- The reward is one coin, the stake beside the burn gains 2501. -/
theorem burn_taken_by_stake :
    OrdinaryStakeBlock (quietNode 999) (quietBlock (2502 * COIN) [burn]) false ∧
    Accepts (quietNode 999) (quietBlock (2502 * COIN) [burn]) (quietIndex 999) (quietTip 999)
      burnView false false ∧
    GetBlockValue mainParams 999 <
      stakeGain quietZerocoin
        (blockSteps (quietBlock (2502 * COIN) [burn]) (quietIndex 999) burnView) := by
  refine ⟨quietBlock_ordinary 999 _ _, exists_of_isOk ?_, ?_⟩
  · decide
  · decide

end Divitae
