/-
# `CompactBits` — targets as the bits of a block

`GetCompact` keeps the length of a target in bytes and its leading three bytes, of which the first
has its top bit free; `SetCompact` makes a target of them again.

    magnitude    what a word stands for, and `SetCompact` reads up to `2 ^ 256`
    pack         the word of a length and a mantissa
    roundTrip    the target that comes back: `Truncate.trunc 8 2`
-/
import Divitae.Lib.Truncate
import Divitae.Ranks
import Divitae.StakeInput
import Mathlib.Data.Nat.Bitwise

namespace Divitae

open Truncate

open Ranking (GetCompact)

/-! ## What a word stands for -/

section
variable (nCompact : BitVec 32)

def exponent : ℕ := nCompact.toNat / 2 ^ 24

def fraction : ℕ := nCompact.toNat % 2 ^ 23

/-- Places below the first are cut off. -/
def magnitude : ℕ :=
  if exponent nCompact ≤ 3 then fraction nCompact / 2 ^ (8 * (3 - exponent nCompact))
  else fraction nCompact * 2 ^ (8 * (exponent nCompact - 3))

theorem fraction_lt : fraction nCompact < 2 ^ 23 := Nat.mod_lt _ (by decide)

theorem ushiftRight_toNat : (nCompact >>> 24).toNat = exponent nCompact := by
  rw [BitVec.toNat_ushiftRight, Nat.shiftRight_eq_div_pow, exponent]

theorem mask_toNat : (nCompact &&& 0x007fffff).toNat = fraction nCompact := by
  have hand : nCompact.toNat &&& (2 ^ 23 - 1) = fraction nCompact :=
    Nat.and_two_pow_sub_one_eq_mod _ _
  exact (BitVec.toNat_and _ _).trans hand

theorem SetCompact_toNat : (SetCompact nCompact).toNat = magnitude nCompact % 2 ^ 256 := by
  have hlt := fraction_lt nCompact
  rw [SetCompact, ushiftRight_toNat, magnitude]
  split_ifs
  · rw [BitVec.toNat_setWidth, BitVec.toNat_ushiftRight, mask_toNat, Nat.shiftRight_eq_div_pow]
  · rw [BitVec.toNat_shiftLeft, BitVec.toNat_setWidth, mask_toNat, Nat.shiftLeft_eq,
      Nat.mod_eq_of_lt (show fraction nCompact < 2 ^ 256 by omega)]

end

/-- The word of a length and a mantissa. -/
def pack (nSize mantissa : ℕ) : BitVec 32 := BitVec.ofNat 32 (nSize * 2 ^ 24 + mantissa)

section
variable {nSize mantissa : ℕ}

theorem pack_toNat (hsize : nSize < 256) (hmantissa : mantissa < 2 ^ 23) :
    (pack nSize mantissa).toNat = nSize * 2 ^ 24 + mantissa := by
  rw [pack, BitVec.toNat_ofNat]
  exact Nat.mod_eq_of_lt (by omega)

theorem magnitude_pack (hsize : nSize < 256) (hmantissa : mantissa < 2 ^ 23) :
    magnitude (pack nSize mantissa) = if nSize ≤ 3 then mantissa / 2 ^ (8 * (3 - nSize))
      else mantissa * 2 ^ (8 * (nSize - 3)) := by
  have hnat := pack_toNat hsize hmantissa
  have hexponent : exponent (pack nSize mantissa) = nSize := by
    rw [exponent, hnat]
    omega
  have hfraction : fraction (pack nSize mantissa) = mantissa := by
    rw [fraction, hnat]
    omega
  rw [magnitude, hexponent, hfraction]

theorem or_shiftLeft (nCompact : BitVec 32) (hsize : nSize < 256)
    (hmantissa : nCompact.toNat < 2 ^ 23) :
    nCompact ||| BitVec.ofNat 32 (nSize <<< 24) = pack nSize nCompact.toNat := by
  refine BitVec.eq_of_toNat_eq ?_
  rw [pack_toNat hsize hmantissa, BitVec.toNat_or, BitVec.toNat_ofNat, Nat.shiftLeft_eq,
    Nat.mod_eq_of_lt (show nSize * 2 ^ 24 < 2 ^ 32 by omega), Nat.or_comm, ← Nat.shiftLeft_eq,
    ← Nat.shiftLeft_add_eq_or_of_lt (show nCompact.toNat < 2 ^ 24 by omega), Nat.shiftLeft_eq]

theorem and_sign (nCompact : BitVec 32) (h : nCompact.toNat < 2 ^ 24) :
    nCompact &&& 0x00800000 ≠ 0 ↔ 2 ^ 23 ≤ nCompact.toNat := by
  have hand : (nCompact &&& 0x00800000).toNat = (nCompact.toNat / 2 ^ 23 % 2) * 2 ^ 23 := by
    show nCompact.toNat &&& 2 ^ 23 = _
    rw [Nat.and_two_pow, Nat.toNat_testBit]
  rw [ne_eq, ← BitVec.toNat_inj, hand]
  show ¬ _ = 0 ↔ _
  omega

end

/-! ## The words of targets -/

section
variable (n : ℕ)

/-- The length of a target in bytes. -/
def byteSize : ℕ := (n.size + 7) / 8

def leading : ℕ :=
  if byteSize n ≤ 3 then n * 2 ^ (8 * (3 - byteSize n)) else n / 2 ^ (8 * (byteSize n - 3))

theorem size_eq_log2 : n.size = if n = 0 then 0 else n.log2 + 1 := by
  split_ifs with h
  · rw [h, Nat.size_zero]
  · exact le_antisymm (Nat.size_le.mpr Nat.lt_log2_self) (Nat.lt_size.mpr (Nat.log2_self_le h))

theorem lt_byteSize : n < 2 ^ (8 * byteSize n) := by
  refine Nat.size_le.mp ?_
  rw [byteSize]
  omega

theorem leading_lt : leading n < 2 ^ 24 := by
  have hlt := lt_byteSize n
  rw [leading]
  split_ifs with h
  · have hpow : (2 : ℕ) ^ 24 = 2 ^ (8 * byteSize n) * 2 ^ (8 * (3 - byteSize n)) := by
      rw [← Nat.pow_add, ← Nat.mul_add, Nat.add_sub_cancel' h]
    rw [hpow]
    exact Nat.mul_lt_mul_of_pos_right hlt (Nat.two_pow_pos _)
  · refine Nat.div_lt_of_lt_mul ?_
    have hpow : 2 ^ (8 * (byteSize n - 3)) * 2 ^ 24 = 2 ^ (8 * byteSize n) := by
      rw [← Nat.pow_add]
      congr 1
      omega
    rw [hpow]
    exact hlt

theorem leading_long (h : 3 ≤ byteSize n) : leading n = n / 2 ^ (8 * (byteSize n - 3)) := by
  rw [leading]
  split_ifs with hle
  · rw [Nat.le_antisymm hle h, Nat.pow_zero, Nat.div_one, Nat.mul_one]
  · rfl

theorem leading_sign (h : 0 < n) : 2 ^ 23 ≤ leading n ↔ n.size = 8 * byteSize n := by
  have hsize : 0 < n.size := Nat.size_pos.mpr h
  have htop : n.size = 8 * byteSize n ↔ 2 ^ (8 * byteSize n - 1) ≤ n := by
    rw [← Nat.lt_size]
    rw [byteSize]
    omega
  rw [htop, leading]
  split_ifs with hle
  · have hpow : (2 : ℕ) ^ 23 = 2 ^ (8 * byteSize n - 1) * 2 ^ (8 * (3 - byteSize n)) := by
      rw [← Nat.pow_add]
      congr 1
      rw [byteSize] at hle ⊢
      omega
    rw [hpow]
    exact Nat.mul_le_mul_right_iff (Nat.two_pow_pos _)
  · have hpow : 2 ^ 23 * 2 ^ (8 * (byteSize n - 3)) = 2 ^ (8 * byteSize n - 1) := by
      rw [← Nat.pow_add]
      congr 1
      omega
    rw [Nat.le_div_iff_mul_le (Nat.two_pow_pos _), hpow]

end

theorem byteSize_le (n : uint256) : byteSize n.toNat ≤ 32 := by
  have hsize : n.toNat.size ≤ 256 := Nat.size_le.mpr n.isLt
  rw [byteSize]
  omega

theorem GetCompact_eq (n : uint256) :
    GetCompact n = if 2 ^ 23 ≤ leading n.toNat then
        pack (byteSize n.toNat + 1) (leading n.toNat / 2 ^ 8)
      else pack (byteSize n.toNat) (leading n.toNat) := by
  have hbytes := byteSize_le n
  have hleading := leading_lt n.toNat
  have hbits : (if n = 0 then 0 else n.toNat.log2 + 1) = n.toNat.size := by
    rw [size_eq_log2]
    exact if_congr BitVec.toNat_eq rfl rfl
  have hword : (if byteSize n.toNat ≤ 3 then
        ((n.setWidth 64) <<< (8 * (3 - byteSize n.toNat))).setWidth 32
      else (n >>> (8 * (byteSize n.toNat - 3))).setWidth 32 : BitVec 32).toNat =
      leading n.toNat := by
    rw [leading] at hleading ⊢
    split_ifs at hleading ⊢ with hshort
    · have hlt : n.toNat < 2 ^ 64 := lt_of_lt_of_le (lt_byteSize n.toNat)
        (Nat.pow_le_pow_right (by decide) (by omega))
      rw [BitVec.toNat_setWidth, BitVec.toNat_shiftLeft, BitVec.toNat_setWidth, Nat.shiftLeft_eq,
        Nat.mod_eq_of_lt hlt, Nat.mod_eq_of_lt (lt_trans hleading (by decide)),
        Nat.mod_eq_of_lt (lt_trans hleading (by decide))]
    · rw [BitVec.toNat_setWidth, BitVec.toNat_ushiftRight, Nat.shiftRight_eq_div_pow,
        Nat.mod_eq_of_lt (lt_trans hleading (by decide))]
  rw [Ranking.GetCompact, hbits, ← byteSize]
  generalize (if byteSize n.toNat ≤ 3 then
    ((n.setWidth 64) <<< (8 * (3 - byteSize n.toNat))).setWidth 32
    else (n >>> (8 * (byteSize n.toNat - 3))).setWidth 32 : BitVec 32) = word at hword ⊢
  rw [← hword] at hleading ⊢
  by_cases hsign : 2 ^ 23 ≤ word.toNat
  · have hdiv : (word >>> 8).toNat = word.toNat / 2 ^ 8 := by
      rw [BitVec.toNat_ushiftRight, Nat.shiftRight_eq_div_pow]
    rw [if_pos hsign, if_pos ((and_sign word hleading).mpr hsign),
      or_shiftLeft _ (by omega) (by omega), hdiv]
  · rw [if_neg hsign, if_neg fun h => hsign ((and_sign word hleading).mp h),
      or_shiftLeft _ (by omega) (by omega)]

theorem magnitude_GetCompact (n : uint256) :
    magnitude (GetCompact n) = trunc 8 2 n.toNat := by
  have hbytes := byteSize_le n
  have hleading := leading_lt n.toNat
  rw [GetCompact_eq]
  rcases Nat.eq_zero_or_pos n.toNat with hzero | hpos
  · rw [hzero]
    decide
  by_cases hsign : 2 ^ 23 ≤ leading n.toNat
  · have hsize := (leading_sign n.toNat hpos).mp hsign
    have hlost : lost 8 2 n.toNat = byteSize n.toNat - 2 := by
      rw [lost, hsize]
      omega
    rw [if_pos hsign, magnitude_pack (by omega) (by omega), trunc, hlost]
    split_ifs with hle
    · have hshort : byteSize n.toNat ≤ 3 := by omega
      have hpow : 2 ^ 8 * 2 ^ (8 * (3 - (byteSize n.toNat + 1))) =
          2 ^ (8 * (3 - byteSize n.toNat)) := by
        rw [← Nat.pow_add]
        congr 1
        omega
      rw [leading, if_pos hshort, Nat.div_div_eq_div_mul, hpow,
        Nat.mul_div_cancel _ (Nat.two_pow_pos _), Nat.sub_eq_zero_of_le (by omega), Nat.mul_zero,
        Nat.pow_zero, Nat.div_one, Nat.mul_one]
    · have hpow : 2 ^ (8 * (byteSize n.toNat - 3)) * 2 ^ 8 = 2 ^ (8 * (byteSize n.toNat - 2)) := by
        rw [← Nat.pow_add]
        congr 1
        omega
      rw [leading_long n.toNat (by omega), Nat.div_div_eq_div_mul, hpow,
        show byteSize n.toNat + 1 - 3 = byteSize n.toNat - 2 by omega]
  · have hsize : n.toNat.size ≠ 8 * byteSize n.toNat :=
      fun h => hsign ((leading_sign n.toNat hpos).mpr h)
    have hlost : lost 8 2 n.toNat = byteSize n.toNat - 3 := by
      have hbits : 0 < n.toNat.size := Nat.size_pos.mpr hpos
      rw [lost]
      rw [byteSize] at hsize ⊢
      omega
    rw [if_neg hsign, magnitude_pack (by omega) (by omega), trunc, hlost]
    split_ifs with hle
    · rw [leading, if_pos hle, Nat.mul_div_cancel _ (Nat.two_pow_pos _),
        Nat.sub_eq_zero_of_le hle, Nat.mul_zero, Nat.pow_zero, Nat.div_one, Nat.mul_one]
    · rw [leading_long n.toNat (by omega)]

/-- **The target that comes back.** -/
theorem roundTrip (n : uint256) :
    (SetCompact (GetCompact n)).toNat = trunc 8 2 n.toNat := by
  rw [SetCompact_toNat, magnitude_GetCompact]
  exact Nat.mod_eq_of_lt (lt_of_le_of_lt trunc_le n.isLt)

end Divitae
