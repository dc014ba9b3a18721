/-
# `Reward` — the block reward schedule

`main.cpp`, `GetBlockValue` and the budget cycle.  Heights are `int`s of the source.
-/
import Divitae.ChainParams

namespace Divitae

/-- `GetBlockValue`.  The `TESTNET` branch is reached by heights the ranges before it
leave over, none of which is between 1 and 199: it never pays. -/
def GetBlockValue (P : CChainParams) (nHeight : Int) : CAmount :=
  if nHeight = 1 then 22000000 * COIN
  else if 2 ≤ nHeight ∧ nHeight < 54000 then 1 * COIN
  else if 259200 ≤ nHeight ∧ nHeight < 518400 then 20 * COIN
  else if 518400 ≤ nHeight ∧ nHeight < 777600 then 15 * COIN
  else if 777600 ≤ nHeight ∧ nHeight < 1036800 then 10 * COIN
  else if nHeight ≥ 1036800 then 5 * COIN
  else if P.networkID = .TESTNET ∧ nHeight < 200 ∧ nHeight > 0 then 250000 * COIN
  else 30 * COIN

def GetBudgetPaymentCycleBlocks (P : CChainParams) : Int :=
  if P.networkID = .MAIN then 43200 else 144

theorem GetBlockValue_pos (P : CChainParams) (nHeight : Int) : 0 < GetBlockValue P nHeight := by
  unfold GetBlockValue
  split_ifs <;> decide

section
variable (P : CChainParams) {nHeight : Int} (h : 2 ≤ nHeight)
include P h

theorem GetBlockValue_of_two_le :
    GetBlockValue P nHeight =
      if nHeight < 54000 then 1 * COIN
      else if nHeight < 259200 then 30 * COIN
      else if nHeight < 518400 then 20 * COIN
      else if nHeight < 777600 then 15 * COIN
      else if nHeight < 1036800 then 10 * COIN
      else 5 * COIN := by
  unfold GetBlockValue
  split_ifs <;> first | rfl | omega

theorem GetBlockValue_succ_le_iff :
    GetBlockValue P (nHeight + 1) ≤ GetBlockValue P nHeight ↔ nHeight ≠ 53999 := by
  rw [GetBlockValue_of_two_le P h, GetBlockValue_of_two_le P (Int.le_add_one h)]
  split_ifs <;>
    first
    | exact iff_of_true (by decide) (by omega)
    | exact iff_of_false (by decide) (by omega)

end

end Divitae
