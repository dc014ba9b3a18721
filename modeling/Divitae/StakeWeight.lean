/-
# `StakeWeight` — a larger stake and the target it has to hit

`stakeTargetHit` compares the kernel hash with `nValueIn / 100 * bnTargetPerCoinDay`, a product of
`uint256`s.  What a stake of the weight `w` hits with a target `t` is

    w * t < 2 ^ 256        every hash below `w * t`
    2 ^ 256 ≤ w * t        every hash below what is left of it modulo `2 ^ 256`

The first weight whose product wraps hits less than the one before it, whatever the target
(`mulMod_monotone_iff`), so a larger stake is never worse exactly where no product wraps
(`larger_stake_iff`).  The target that `GetNextWorkRequired` sets as its limit, `2 ^ 232`, lets
them wrap from 17 coins on.
-/
import Divitae.BlockTree
import Divitae.StakeInput
import Divitae.Supply

namespace Divitae

theorem mulMod_monotone_iff {M t W : ℕ} (ht : t < M) :
    (∀ a b, a ≤ b → b ≤ W → a * t % M ≤ b * t % M) ↔ W * t < M := by
  constructor
  · intro hmono
    by_contra hwraps
    have hex : ∃ b, M ≤ b * t := ⟨W, not_lt.mp hwraps⟩
    -- the first multiple that wraps, and the one before it
    obtain ⟨a, hb⟩ : ∃ a, Nat.find hex = a + 1 := by
      refine Nat.exists_eq_succ_of_ne_zero fun hzero => ?_
      have hspec := Nat.find_spec hex
      rw [hzero, Nat.zero_mul] at hspec
      omega
    have hspec := Nat.find_spec hex
    have hle : Nat.find hex ≤ W := Nat.find_min' hex (not_lt.mp hwraps)
    have hbefore : a * t < M := by
      have hmin := Nat.find_min hex (show a < Nat.find hex by omega)
      exact not_le.mp hmin
    rw [hb, Nat.add_mul, Nat.one_mul] at hspec
    have hlow : (a + 1) * t % M = a * t + t - M := by
      rw [Nat.add_mul, Nat.one_mul, Nat.mod_eq_sub_mod hspec, Nat.mod_eq_of_lt (by omega)]
    have hless := hmono a (a + 1) (Nat.le_succ a) (hb ▸ hle)
    rw [hlow, Nat.mod_eq_of_lt hbefore] at hless
    omega
  · intro hfits a b hab hbW
    have hbt : b * t < M := (Nat.mul_le_mul_right t hbW).trans_lt hfits
    have hat : a * t ≤ b * t := Nat.mul_le_mul_right t hab
    rw [Nat.mod_eq_of_lt hbt, Nat.mod_eq_of_lt (hat.trans_lt hbt)]
    exact hat

/-! ## The weight of a stake -/

/-- The weight of a stake, a hundredth of its value. -/
def coinDayWeight (nValueIn : CAmount) : ℕ := nValueIn.toNat / 100

theorem stakeTargetHit_iff {nValueIn : CAmount} (hlo : 0 ≤ nValueIn) (hhi : nValueIn < 2 ^ 63)
    (hashProofOfStake bnTarget : uint256) :
    stakeTargetHit hashProofOfStake nValueIn bnTarget = true ↔
      hashProofOfStake.toNat < coinDayWeight nValueIn * bnTarget.toNat % 2 ^ 256 := by
  have hvalue : (BitVec.ofInt 64 nValueIn).toNat = nValueIn.toNat := by
    have hmod : ∀ v : Int, 0 ≤ v → v < 2 ^ 63 → (v % ((2 ^ 64 : ℕ) : Int)).toNat = v.toNat := by
      intro v hlo hhi
      rw [Int.emod_eq_of_lt hlo (by push_cast; omega)]
    exact hmod nValueIn hlo hhi
  have hsmall : nValueIn.toNat < 2 ^ 256 := by
    rw [← hvalue]
    exact (BitVec.ofInt 64 nValueIn).isLt.trans (by decide)
  have hweight : ((BitVec.ofInt 64 nValueIn).setWidth 256 / 100).toNat =
      coinDayWeight nValueIn := by
    rw [BitVec.toNat_udiv, BitVec.toNat_setWidth, hvalue, Nat.mod_eq_of_lt hsmall]
    rfl
  rw [stakeTargetHit, decide_eq_true_eq, BitVec.lt_def, BitVec.toNat_mul, hweight]

/-- No stake up to `nValueMax` misses a target that a smaller one hits. -/
def LargerStakesHit (nBits : BitVec 32) (nValueMax : CAmount) : Prop :=
  ∀ (hashProofOfStake : uint256) (nValue nValue' : CAmount),
    0 ≤ nValue → nValue ≤ nValue' → nValue' ≤ nValueMax →
      stakeTargetHit hashProofOfStake nValue (SetCompact nBits) = true →
        stakeTargetHit hashProofOfStake nValue' (SetCompact nBits) = true

/-- **When a larger stake is never worse.**  When the weight of the largest times the target fits
into 256 bits. -/
theorem larger_stake_iff (P : CChainParams) (hnet : IsNetwork P) (nBits : BitVec 32)
    (nValueMax : CAmount) (hlo : 0 ≤ nValueMax) (hhi : nValueMax ≤ P.nMaxMoneyOut) :
    LargerStakesHit nBits nValueMax ↔
      coinDayWeight nValueMax * (SetCompact nBits).toNat < 2 ^ 256 := by
  have hfits : ∀ v : CAmount, 0 ≤ v → v ≤ nValueMax → v < 2 ^ 63 := by
    have hmax := hnet.max_fits
    have hnum : ∀ v top max : Int, v ≤ top → top ≤ max → 2 * max < 2 ^ 63 → v < 2 ^ 63 := by
      intro v top max htop hmax hsmall
      have hnonneg : v ≤ max := htop.trans hmax
      by_contra hlarge
      omega
    intro v _ hle
    exact hnum v nValueMax P.nMaxMoneyOut hle hhi hmax
  rw [← mulMod_monotone_iff (SetCompact nBits).isLt]
  constructor
  · intro hlarger a b hab hb
    by_contra hless
    -- the hash that the smaller of two stakes just hits
    let hash : uint256 := BitVec.ofNat 256 (b * (SetCompact nBits).toNat % 2 ^ 256)
    have hhash : hash.toNat = b * (SetCompact nBits).toNat % 2 ^ 256 := by
      rw [BitVec.toNat_ofNat, Nat.mod_mod]
    have hweight : ∀ w : ℕ, coinDayWeight ((100 * w : ℕ) : Int) = w := fun w =>
      Nat.mul_div_cancel_left w (by decide)
    have hvalue : ∀ w ≤ coinDayWeight nValueMax, ((100 * w : ℕ) : Int) ≤ nValueMax := by
      intro w hw
      have hround : 100 * w ≤ nValueMax.toNat := by
        rw [Nat.mul_comm]
        exact (Nat.le_div_iff_mul_le (by decide)).mp hw
      exact (Int.ofNat_le.mpr hround).trans (Int.toNat_of_nonneg hlo).le
    have hmiss := hlarger hash ((100 * a : ℕ) : Int) ((100 * b : ℕ) : Int) (Int.natCast_nonneg _)
      (Int.ofNat_le.mpr (Nat.mul_le_mul_left 100 hab)) (hvalue b hb)
    rw [stakeTargetHit_iff (Int.natCast_nonneg _)
        (hfits _ (Int.natCast_nonneg _) (hvalue a (hab.trans hb))),
      stakeTargetHit_iff (Int.natCast_nonneg _) (hfits _ (Int.natCast_nonneg _) (hvalue b hb)),
      hweight, hweight, hhash] at hmiss
    exact absurd (hmiss (not_le.mp hless)) (lt_irrefl _)
  · intro hmono hash v v' hv hle hmax hhit
    have hv' : 0 ≤ v' := hv.trans hle
    rw [stakeTargetHit_iff hv (hfits v hv (hle.trans hmax))] at hhit
    rw [stakeTargetHit_iff hv' (hfits v' hv' hmax)]
    refine hhit.trans_le (hmono _ _ ?_ ?_)
    · exact Nat.div_le_div_right (Int.toNat_le_toNat hle)
    · exact Nat.div_le_div_right (Int.toNat_le_toNat hmax)

/-- At a target of `2 ^ 208` no stake wraps. -/
theorem larger_stake_at_208 : LargerStakesHit 0x1b010000 mainParams.nMaxMoneyOut :=
  (larger_stake_iff mainParams (.inl rfl) 0x1b010000 mainParams.nMaxMoneyOut (by decide)
    le_rfl).mpr (by decide)

/-- **At the limit of the targets.**  A kernel hash that a stake of 16.777472 coins hits is missed
by a stake of a hundred more of the smallest unit. -/
theorem larger_stake_misses :
    ¬ (∀ (P : CChainParams) (nBits : BitVec 32), IsNetwork P →
        (BlockIndex.SetCompact nBits).2 = (false, false) → SetCompact nBits ≠ 0 →
        LargerStakesHit nBits P.nMaxMoneyOut) := by
  intro hall
  have hmiss := hall mainParams 0x1e00ffff (.inl rfl) (by decide) (by decide)
    (BitVec.ofNat 256 (65279 * 2 ^ 216)) 1677747200 1677747300 (by decide) (by decide) (by decide)
    (by decide)
  revert hmiss
  decide

end Divitae
