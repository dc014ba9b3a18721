/-
# `FinalizedPayouts` — what a finalized budget pays

`CFinalizedBudget::IsValid` bounds the payout of a budget by a tenth of a month of rewards.  The
payout is summed in a signed 64-bit number, of amounts that the sender chose, and the amounts
themselves are not looked at:

    amounts                          sum in 64 bits       accepted
    none negative, sum below 2 ^ 63  the sum              if it is at most the cap
    none negative, sum from 2 ^ 63   the sum, wrapped     if what is left is at most the cap
    some negative                    the sum, wrapped     likewise

Only in the first case does the answer say anything about the amounts (`accepted_bounded_iff`).
-/
import Divitae.ForgedVotes

namespace Divitae

open Wrap

theorem GetTotalBudget_fits (P : CChainParams) (env : BudgetEnv) :
    Fits64 (GetTotalBudget P env) := by
  unfold GetTotalBudget
  cases env.tipHeight with
  | none =>
    show Fits64 0
    exact ⟨by decide, by decide⟩
  | some nHeight =>
    show Fits64 (if P.networkID = .TESTNET then _ else wrap64 _)
    split
    · exact ⟨by decide, by decide⟩
    · exact fits64_wrap64 _

namespace CFinalizedBudget

section
variable (C : Crypto) (P : CChainParams) (env : BudgetEnv) (b : CFinalizedBudget)

def amounts : List CAmount := b.vecBudgetPayments.map CTxBudgetPayment.nAmount

/-- What `IsValid` asks for besides the payout. -/
structure PassesOtherChecks : Prop where
  start : b.nBlockStart.tmod (GetBudgetPaymentCycleBlocks P) = 0
  span : b.GetBlockEnd - b.nBlockStart ≤ 100
  count : b.vecBudgetPayments.length ≤ 100
  name : b.strBudgetName ≠ []
  positive : b.nBlockStart ≠ 0
  fee : b.nFeeTXHash ≠ 0
  collateral : (env.collateralValid b.nFeeTXHash (b.GetHash C)).1 = true
  recent : ∀ nHeight, env.tipHeight = some nHeight →
    nHeight - nHeight.tmod (GetBudgetPaymentCycleBlocks P) + GetBudgetPaymentCycleBlocks P -
      2 * GetBudgetPaymentCycleBlocks P ≤ b.GetBlockEnd

/-- No amount is negative, and neither the sum nor an amount is above the cap. -/
structure WithinBudget : Prop where
  nonneg : ∀ a ∈ b.amounts, 0 ≤ a
  total : b.amounts.sum ≤ GetTotalBudget P env
  each : ∀ a ∈ b.amounts, a ≤ GetTotalBudget P env

variable {C P env b}

theorem GetTotalPayout_eq : b.GetTotalPayout = wrap64 b.amounts.sum := by
  have hwrap := foldl_wrap64 b.amounts 0
  rw [Int.zero_add] at hwrap
  exact hwrap

theorem IsValid_iff : (b.IsValid C P env).2 = true ↔
    PassesOtherChecks C P env b ∧ wrap64 b.amounts.sum ≤ GetTotalBudget P env := by
  rw [IsValid, GetTotalPayout_eq]
  dsimp only
  split_ifs with hstart hspan hcount hname hpositive hfee hpayout hcollateral
  · exact iff_of_false not_false fun h => hstart h.1.start
  · exact iff_of_false not_false fun h => absurd h.1.span (not_le.mpr hspan)
  · exact iff_of_false not_false fun h => absurd h.1.count (not_le.mpr hcount)
  · exact iff_of_false not_false fun h => h.1.name hname
  · exact iff_of_false not_false fun h => h.1.positive hpositive
  · exact iff_of_false not_false fun h => h.1.fee hfee
  · exact iff_of_false not_false fun h => absurd h.2 (not_le.mpr hpayout)
  · refine iff_of_false not_false fun h => ?_
    rw [h.1.collateral] at hcollateral
    exact absurd hcollateral (by decide)
  · have hfound : (env.collateralValid b.nFeeTXHash (b.GetHash C)).1 = true := by
      simpa using hcollateral
    have hchecks (hrecent : ∀ nHeight, env.tipHeight = some nHeight →
        nHeight - nHeight.tmod (GetBudgetPaymentCycleBlocks P) + GetBudgetPaymentCycleBlocks P -
          2 * GetBudgetPaymentCycleBlocks P ≤ b.GetBlockEnd) : PassesOtherChecks C P env b :=
      ⟨not_not.mp hstart, not_lt.mp hspan, not_lt.mp hcount, hname, hpositive, hfee, hfound,
        hrecent⟩
    cases htip : env.tipHeight with
    | none =>
      refine iff_of_true rfl ⟨hchecks fun nHeight h => ?_, not_lt.mp hpayout⟩
      rw [htip] at h
      cases h
    | some nHeight =>
      rw [Bool.not_eq_true', decide_eq_false_iff_not, not_lt]
      constructor
      · intro hrecent
        refine ⟨hchecks fun n h => ?_, not_lt.mp hpayout⟩
        rw [htip] at h
        cases h
        exact hrecent
      · intro h
        exact h.1.recent nHeight htip

theorem le_sum_of_nonneg {l : List CAmount} (h : ∀ a ∈ l, 0 ≤ a) : ∀ a ∈ l, a ≤ l.sum :=
  fun _ => List.single_le_sum h _

end

/-- **When an accepted budget is within bounds.**  Another check rejects it, or the sum of its
amounts, as 64 bits hold it, is above the cap, or its amounts are not negative and their sum has
63 bits. -/
theorem accepted_bounded_iff (C : Crypto) (P : CChainParams) (env : BudgetEnv)
    (b : CFinalizedBudget) :
    ((b.IsValid C P env).2 = true → WithinBudget P env b) ↔
      ¬ PassesOtherChecks C P env b ∨ GetTotalBudget P env < wrap64 b.amounts.sum ∨
        ((∀ a ∈ b.amounts, 0 ≤ a) ∧ b.amounts.sum < 2 ^ 63) := by
  have hcap := (GetTotalBudget_fits P env).2
  rw [IsValid_iff]
  constructor
  · intro h
    by_cases hchecks : PassesOtherChecks C P env b
    · rcases lt_or_ge (GetTotalBudget P env) (wrap64 b.amounts.sum) with habove | hwithin
      · exact .inr (.inl habove)
      · obtain ⟨hnonneg, htotal, -⟩ := h ⟨hchecks, hwithin⟩
        exact .inr (.inr ⟨hnonneg, lt_of_le_of_lt htotal hcap⟩)
    · exact .inl hchecks
  · rintro (hchecks | habove | ⟨hnonneg, hsum⟩) ⟨hpass, hpayout⟩
    · exact absurd hpass hchecks
    · exact absurd hpayout (not_le.mpr habove)
    · have hfits : Fits64 b.amounts.sum := by
        have hpos : (0 : Int) ≤ b.amounts.sum := List.sum_nonneg hnonneg
        exact ⟨le_trans (by decide) hpos, hsum⟩
      rw [wrap64_of_fits hfits] at hpayout
      exact ⟨hnonneg, hpayout, fun a ha => (le_sum_of_nonneg hnonneg a ha).trans hpayout⟩

open CBudgetManager (oneSignatureCrypto ballotEnv)

/-- A budget that gives a thousand million coins to one script and takes them from another. -/
def oppositeAmounts : CFinalizedBudget :=
  .ofBroadcast ⟨[109], 43200, [⟨0, [1], 1000000000 * COIN⟩, ⟨1, [2], -1000000000 * COIN⟩], 5⟩

/-- **It is accepted.** -/
theorem oppositeAmounts_accepted :
    (oppositeAmounts.IsValid oneSignatureCrypto mainParams ballotEnv).2 = true ∧
      ¬ WithinBudget mainParams ballotEnv oppositeAmounts := by
  constructor
  · decide +kernel
  · intro h
    exact absurd (h.nonneg (-1000000000 * COIN) (by decide)) (by decide)

end CFinalizedBudget

end Divitae
