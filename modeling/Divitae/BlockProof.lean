/-
# `BlockProof` — the work a compact target stands for

    SetCompact      the target of a word, with a flag for a sign and one for a number too large
    GetBlockProof   the work of a block, which is the quotient of `2 ^ 256` and the number above
                    the target, and nothing where there is no target

`2 ^ 256` is not representable, and the quotient is made of the complement of the target by
shifting and subtracting (`divide`).
-/
import Divitae.CompactBits
import Divitae.LoadBlockIndex

namespace Divitae.BlockIndex

open List Truncate

open Ranking (GetCompact)

/-! ## Compact targets -/

section
variable (nCompact : BitVec 32)

theorem SetCompact_fst : (SetCompact nCompact).1 = Divitae.SetCompact nCompact := by
  rw [SetCompact, Divitae.SetCompact]
  split_ifs <;> rfl

/-- `nWord`, behind its shift. -/
def word : BitVec 32 :=
  if (nCompact >>> 24).toNat ≤ 3 then
    (nCompact &&& 0x007fffff) >>> (8 * (3 - (nCompact >>> 24).toNat))
  else nCompact &&& 0x007fffff

theorem word_toNat : (word nCompact).toNat =
    if exponent nCompact ≤ 3 then fraction nCompact / 2 ^ (8 * (3 - exponent nCompact))
    else fraction nCompact := by
  rw [word, ushiftRight_toNat]
  split_ifs
  · rw [BitVec.toNat_ushiftRight, mask_toNat, Nat.shiftRight_eq_div_pow]
  · exact mask_toNat nCompact

theorem word_eq_zero : word nCompact = 0 ↔ magnitude nCompact = 0 := by
  rw [← BitVec.toNat_inj, word_toNat, magnitude]
  show _ = 0 ↔ _
  split_ifs
  · rfl
  · rw [Nat.mul_eq_zero, or_iff_left (Nat.two_pow_pos _).ne']

theorem negative_iff : (SetCompact nCompact).2.1 = true ↔
    nCompact.getLsbD 23 = true ∧ magnitude nCompact ≠ 0 := by
  have hsign : nCompact &&& 0x00800000 ≠ 0 ↔ nCompact.getLsbD 23 = true := by
    have hand : (nCompact &&& 0x00800000).toNat = (nCompact.getLsbD 23).toNat * 2 ^ 23 := by
      show nCompact.toNat &&& 2 ^ 23 = _
      rw [Nat.and_two_pow, BitVec.testBit_toNat]
    rw [ne_eq, ← BitVec.toNat_inj, hand]
    cases nCompact.getLsbD 23 <;> decide
  show (word nCompact != 0 && nCompact &&& 0x00800000 != 0) = true ↔ _
  rw [Bool.and_eq_true, bne_iff_ne, bne_iff_ne, ne_eq, word_eq_zero, hsign]
  exact and_comm

theorem overflow_iff : (SetCompact nCompact).2.2 = true ↔ 2 ^ 256 ≤ magnitude nCompact := by
  have hlt := fraction_lt nCompact
  have hflag : (SetCompact nCompact).2.2 = true ↔ (word nCompact).toNat ≠ 0 ∧
      (34 < exponent nCompact ∨ 0xff < (word nCompact).toNat ∧ 33 < exponent nCompact ∨
        0xffff < (word nCompact).toNat ∧ 32 < exponent nCompact) := by
    show (word nCompact != 0 && (34 < (nCompact >>> 24).toNat ||
      (0xff < word nCompact && 33 < (nCompact >>> 24).toNat) ||
      (0xffff < word nCompact && 32 < (nCompact >>> 24).toNat))) = true ↔ _
    rw [ushiftRight_toNat]
    simp only [Bool.and_eq_true, Bool.or_eq_true, decide_eq_true_eq, bne_iff_ne, ne_eq,
      ← BitVec.toNat_inj, BitVec.lt_def, or_assoc]
    rfl
  rw [hflag, word_toNat, magnitude]
  split_ifs with hshort
  · have hle := Nat.div_le_self (fraction nCompact) (2 ^ (8 * (3 - exponent nCompact)))
    omega
  -- a number of more than 35 places is too large with any digit
  rcases Nat.lt_or_ge (exponent nCompact) 36 with hexp | hexp
  · interval_cases exponent nCompact <;> omega
  · have hpow : 2 ^ 256 ≤ 2 ^ (8 * (exponent nCompact - 3)) :=
      Nat.pow_le_pow_right (by decide) (by omega)
    constructor
    · rintro ⟨hword, _⟩
      exact hpow.trans (Nat.le_mul_of_pos_left _ (Nat.pos_of_ne_zero hword))
    · intro hlarge
      refine ⟨?_, .inl (by omega)⟩
      intro hzero
      rw [hzero, Nat.zero_mul] at hlarge
      exact absurd hlarge (by decide)

end

section
variable (n : ℕ)

/-- How many bytes of a number are kept: the sign takes the first bit. -/
def keptBytes : ℕ := if n.testBit (8 * byteSize n - 1) then 2 else 3

theorem testBit_top (h : 0 < n) :
    n.testBit (8 * byteSize n - 1) = true ↔ n.size = 8 * byteSize n := by
  have hsize : 0 < n.size := Nat.size_pos.mpr h
  constructor
  · intro hbit
    have hle := Nat.lt_size.mpr (Nat.ge_two_pow_of_testBit hbit)
    rw [byteSize] at hle ⊢
    omega
  · intro hfull
    have hlo : 2 ^ (8 * byteSize n - 1) ≤ n := Nat.lt_size.mp (by omega)
    have hhi : n < 2 ^ (8 * byteSize n - 1) * 2 := by
      rw [← Nat.pow_succ, Nat.succ_eq_add_one, Nat.sub_add_cancel (by omega)]
      exact lt_byteSize n
    have hone : n / 2 ^ (8 * byteSize n - 1) = 1 := Nat.div_eq_of_lt_le (by omega) (by omega)
    rw [Nat.testBit_eq_decide_div_mod_eq, hone]
    rfl

theorem lost_eq : lost 8 2 n = byteSize n - keptBytes n := by
  rcases Nat.eq_zero_or_pos n with rfl | hpos
  · decide
  have hsize : 0 < n.size := Nat.size_pos.mpr hpos
  have htop := testBit_top n hpos
  rw [lost, keptBytes]
  split_ifs with hbit
  · have hfull := htop.mp hbit
    omega
  · have hfull : n.size ≠ 8 * byteSize n := fun h => hbit (htop.mpr h)
    rw [byteSize] at hfull ⊢
    omega

theorem byteSize_trunc : byteSize (trunc 8 2 n) = byteSize n := by
  rw [byteSize, byteSize, size_trunc (by decide) (by decide)]

theorem leading_trunc :
    (2 ^ 23 ≤ leading (trunc 8 2 n) ↔ 2 ^ 23 ≤ leading n) ∧
      if 2 ^ 23 ≤ leading n then leading (trunc 8 2 n) / 2 ^ 8 = leading n / 2 ^ 8
      else leading (trunc 8 2 n) = leading n := by
  rcases Nat.eq_zero_or_pos n with rfl | hpos
  · decide
  have hsize := @Truncate.size_trunc 8 2 n (by decide) (by decide)
  have hsign := leading_sign n hpos
  refine ⟨?_, ?_⟩
  · rw [leading_sign _ (trunc_pos (by decide) (by decide) hpos), hsize, byteSize_trunc, hsign]
  have htop := testBit_top n hpos
  have hlost := lost_eq n
  rw [keptBytes] at hlost
  split_ifs with hbig
  · rw [if_pos (htop.mpr (hsign.mp hbig))] at hlost
    rcases Nat.lt_or_ge (byteSize n) 3 with hshort | hlong
    · rw [trunc, hlost, Nat.sub_eq_zero_of_le (by omega), Nat.mul_zero, Nat.pow_zero,
        Nat.div_one, Nat.mul_one]
    · have hpow : 2 ^ (8 * (byteSize n - 3)) * 2 ^ 8 = 2 ^ (8 * (byteSize n - 2)) := by
        rw [← Nat.pow_add]
        congr 1
        omega
      rw [leading_long _ (by rwa [byteSize_trunc]), leading_long n hlong, byteSize_trunc,
        Nat.div_div_eq_div_mul, Nat.div_div_eq_div_mul, hpow, trunc, hlost,
        Nat.mul_div_cancel _ (Nat.two_pow_pos _)]
  · rw [if_neg fun h => hbig (hsign.mpr (htop.mp h))] at hlost
    rcases Nat.lt_or_ge (byteSize n) 3 with hshort | hlong
    · rw [trunc, hlost, Nat.sub_eq_zero_of_le (by omega), Nat.mul_zero, Nat.pow_zero,
        Nat.div_one, Nat.mul_one]
    · rw [leading_long _ (by rwa [byteSize_trunc]), leading_long n hlong, byteSize_trunc,
        trunc, hlost, Nat.mul_div_cancel _ (Nat.two_pow_pos _)]

end

theorem GetCompact_trunc {m n : uint256} (h : m.toNat = trunc 8 2 n.toNat) :
    GetCompact m = GetCompact n := by
  obtain ⟨hsign, hdigits⟩ := leading_trunc n.toNat
  rw [GetCompact_eq, GetCompact_eq, h, byteSize_trunc, if_congr hsign rfl rfl]
  split_ifs at hdigits ⊢
  · rw [hdigits]
  · rw [hdigits]

theorem GetCompact_sign (n : uint256) : (GetCompact n).getLsbD 23 = false := by
  have hbytes := byteSize_le n
  have hleading := leading_lt n.toNat
  have hfree : ∀ {nSize mantissa : ℕ}, nSize < 256 → mantissa < 2 ^ 23 →
      (pack nSize mantissa).getLsbD 23 = false := by
    intro nSize mantissa hsize hmantissa
    rw [← BitVec.testBit_toNat, pack_toNat hsize hmantissa, Nat.testBit_eq_decide_div_mod_eq]
    exact decide_eq_false (by omega)
  rw [GetCompact_eq]
  split_ifs with hbig
  · exact hfree (by omega) (by omega)
  · exact hfree (by omega) (by omega)

/-- **Compact targets.**  A number comes back with its leading bytes, unsigned and in range, and
is written as before; and the flags of any word are those of the number it stands for. -/
theorem SetCompact_GetCompact :
    (∀ n : uint256, (SetCompact (GetCompact n)).1.toNat =
        n.toNat / 2 ^ (8 * (byteSize n.toNat - keptBytes n.toNat)) *
          2 ^ (8 * (byteSize n.toNat - keptBytes n.toNat)) ∧
      (SetCompact (GetCompact n)).2 = (false, false) ∧
      GetCompact (SetCompact (GetCompact n)).1 = GetCompact n) ∧
    ∀ nCompact : BitVec 32,
      (SetCompact nCompact).1.toNat = magnitude nCompact % 2 ^ 256 ∧
      ((SetCompact nCompact).2.1 = true ↔ nCompact.getLsbD 23 = true ∧ magnitude nCompact ≠ 0) ∧
      ((SetCompact nCompact).2.2 = true ↔ 2 ^ 256 ≤ magnitude nCompact) := by
  constructor
  · intro n
    have hback : (SetCompact (GetCompact n)).1.toNat = Truncate.trunc 8 2 n.toNat := by
      rw [SetCompact_fst, roundTrip]
    refine ⟨?_, Prod.ext ?_ ?_, GetCompact_trunc hback⟩
    · rw [hback, Truncate.trunc, lost_eq]
    · refine Bool.eq_false_iff.mpr ?_
      rw [ne_eq, negative_iff, GetCompact_sign]
      exact fun h => Bool.false_ne_true h.1
    · refine Bool.eq_false_iff.mpr ?_
      rw [ne_eq, overflow_iff, magnitude_GetCompact, Nat.not_le]
      exact lt_of_le_of_lt Truncate.trunc_le n.isLt
  · intro nCompact
    refine ⟨?_, negative_iff nCompact, overflow_iff nCompact⟩
    rw [SetCompact_fst, SetCompact_toNat]

/-! ## The quotient -/

section
variable {w : ℕ}

/-- `base_uint::bits`. -/
def bits (n : BitVec w) : ℕ := if n = 0 then 0 else n.toNat.log2 + 1

/-- The rounds of `operator/=` from `shift` on down, with what is left of the number, the divisor
shifted to its place, and the bits of the result that are set. -/
def divideLoop : ℕ → BitVec w → BitVec w → BitVec w → BitVec w
  | 0, _, _, result => result
  | shift + 1, num, div, result =>
    if div ≤ num then divideLoop shift (num - div) (div >>> 1) (result ||| 1#w <<< shift)
    else divideLoop shift num (div >>> 1) result

/-- `base_uint::operator/=`; nothing where it throws. -/
def divide (num div : BitVec w) : Option (BitVec w) :=
  if bits div = 0 then none
  else if bits num < bits div then some 0
  else some (divideLoop (bits num - bits div + 1) num (div <<< (bits num - bits div)) 0)

theorem bits_eq (n : BitVec w) : bits n = n.toNat.size := by
  rw [bits, size_eq_log2]
  exact if_congr BitVec.toNat_eq rfl rfl

theorem or_bit {result : BitVec w} {shift : ℕ} (hshift : shift < w)
    (hfree : 2 ^ (shift + 1) ∣ result.toNat) :
    (result ||| 1#w <<< shift).toNat = result.toNat + 2 ^ shift := by
  obtain ⟨k, hk⟩ := hfree
  have hone : (1#w <<< shift).toNat = 2 ^ shift := by
    rw [BitVec.toNat_shiftLeft, BitVec.toNat_one (Nat.zero_lt_of_lt hshift), Nat.shiftLeft_eq,
      Nat.one_mul]
    exact Nat.mod_eq_of_lt (Nat.pow_lt_pow_right (by decide) hshift)
  rw [BitVec.toNat_or, hone, hk, Nat.mul_comm, ← Nat.shiftLeft_eq,
    Nat.shiftLeft_add_eq_or_of_lt (Nat.pow_lt_pow_right (by decide) (Nat.lt_succ_self shift))]

theorem divideLoop_spec (d : ℕ) : ∀ (k : ℕ) (num div result : BitVec w), k ≤ w →
    (k ≠ 0 → div.toNat * 2 = d * 2 ^ k) → num.toNat < d * 2 ^ k → 2 ^ k ∣ result.toNat →
    (divideLoop k num div result).toNat = result.toNat + num.toNat / d
  | 0, num, div, result, _, _, hnum, _ => by
    rw [divideLoop, Nat.div_eq_of_lt (by simpa using hnum), Nat.add_zero]
  | shift + 1, num, div, result, hk, hdiv, hnum, hfree => by
    have hplace : div.toNat = d * 2 ^ shift := by
      have htwice := hdiv (Nat.succ_ne_zero shift)
      rw [Nat.pow_succ, ← Nat.mul_assoc] at htwice
      exact Nat.eq_of_mul_eq_mul_right (by decide) htwice
    have hnext : shift ≠ 0 → (div >>> 1).toNat * 2 = d * 2 ^ shift := by
      intro hne
      obtain ⟨s, rfl⟩ := Nat.exists_eq_succ_of_ne_zero hne
      rw [BitVec.toNat_ushiftRight, Nat.shiftRight_eq_div_pow, hplace, Nat.pow_succ,
        ← Nat.mul_assoc, Nat.pow_one, Nat.mul_div_cancel _ (by decide)]
    have hnum' : num.toNat < d * 2 ^ shift * 2 := by
      rwa [Nat.pow_succ, ← Nat.mul_assoc] at hnum
    have hdvd : 2 ^ shift ∣ result.toNat := (Nat.pow_dvd_pow 2 (Nat.le_succ shift)).trans hfree
    rw [divideLoop]
    split_ifs with hle
    · have hle' : d * 2 ^ shift ≤ num.toNat := hplace ▸ BitVec.le_def.mp hle
      have hleft : (num - div).toNat = num.toNat - d * 2 ^ shift := by
        rw [BitVec.toNat_sub_of_le hle, hplace]
      have hset := or_bit hk hfree
      rw [divideLoop_spec d shift _ _ _ (by omega) hnext (by omega)
        (hset ▸ Nat.dvd_add hdvd dvd_rfl), hset, hleft, Nat.sub_mul_div_of_le _ _ _ hle']
      have hfits : 2 ^ shift ≤ num.toNat / d := by
        refine (Nat.le_div_iff_mul_le ?_).mpr (by rwa [Nat.mul_comm])
        exact Nat.pos_of_ne_zero fun h => by simp [h] at hnum'
      omega
    · have hless : num.toNat < d * 2 ^ shift := hplace ▸ Nat.lt_of_not_le hle
      exact divideLoop_spec d shift _ _ _ (by omega) hnext hless hdvd

/-- **The quotient is exact.** -/
theorem divide_eq {num div : BitVec w} (h : div ≠ 0) : divide num div = some (num / div) := by
  have hpos : 0 < div.toNat := Nat.pos_of_ne_zero fun hzero => h (BitVec.eq_of_toNat_eq hzero)
  have hsize : 0 < div.toNat.size := Nat.size_pos.mpr hpos
  have hlow : 2 ^ (div.toNat.size - 1) ≤ div.toNat := Nat.lt_size.mp (by omega)
  have hnum : num.toNat < 2 ^ num.toNat.size := Nat.lt_size_self _
  have hwidth : num.toNat.size ≤ w := Nat.size_le.mpr num.isLt
  rw [divide, bits_eq, bits_eq, if_neg hsize.ne']
  split_ifs with hless
  · have hsmall : num.toNat < div.toNat :=
      hnum.trans_le ((Nat.pow_le_pow_right (by decide) (by omega)).trans hlow)
    refine congrArg some (BitVec.eq_of_toNat_eq ?_)
    rw [BitVec.toNat_udiv, Nat.div_eq_of_lt hsmall]
    rfl
  · have hplace : (div <<< (num.toNat.size - div.toNat.size)).toNat =
        div.toNat * 2 ^ (num.toNat.size - div.toNat.size) := by
      rw [BitVec.toNat_shiftLeft, Nat.shiftLeft_eq]
      refine Nat.mod_eq_of_lt ?_
      calc div.toNat * 2 ^ (num.toNat.size - div.toNat.size)
          < 2 ^ div.toNat.size * 2 ^ (num.toNat.size - div.toNat.size) :=
            Nat.mul_lt_mul_of_pos_right (Nat.lt_size_self _) (Nat.two_pow_pos _)
        _ = 2 ^ num.toNat.size := by
            rw [← Nat.pow_add]
            congr 1
            omega
        _ ≤ 2 ^ w := Nat.pow_le_pow_right (by decide) hwidth
    refine congrArg some (BitVec.eq_of_toNat_eq ?_)
    rw [divideLoop_spec div.toNat _ num _ 0 (by omega) ?_ ?_ (by simp), BitVec.toNat_udiv]
    · simp
    · intro _
      rw [hplace, Nat.pow_succ, Nat.mul_assoc]
    · calc num.toNat < 2 ^ num.toNat.size := hnum
        _ = 2 ^ (div.toNat.size - 1) * 2 ^ (num.toNat.size - div.toNat.size + 1) := by
            rw [← Nat.pow_add]
            congr 1
            omega
        _ ≤ _ := Nat.mul_le_mul_right _ hlow

end

/-! ## The work of a block -/

/-- `GetBlockProof`, with its quotient. -/
def dividedProof (nBits : BitVec 32) : Option uint256 :=
  let (bnTarget, fNegative, fOverflow) := SetCompact nBits
  if fNegative || fOverflow || bnTarget == 0 then some 0
  else (divide (~~~bnTarget) (bnTarget + 1)).map fun bnQuotient => bnQuotient + 1

/-- Neither flag is raised, and there is a target. -/
structure HasTarget (nBits : BitVec 32) : Prop where
  flags : (SetCompact nBits).2 = (false, false)
  ne_zero : (SetCompact nBits).1 ≠ 0

/-- The work, in the natural numbers. -/
def work (nBits : BitVec 32) : ℕ := 2 ^ 256 / ((SetCompact nBits).1.toNat + 1)

section
variable {nBits : BitVec 32}

section
variable (h : HasTarget nBits)
include h

theorem HasTarget.pos : 0 < (SetCompact nBits).1.toNat :=
  Nat.pos_of_ne_zero fun hzero => h.ne_zero (BitVec.eq_of_toNat_eq hzero)

theorem HasTarget.succ_lt :
    (SetCompact nBits).1.toNat + 1 < 2 ^ 256 := by
  have hfraction := fraction_lt nBits
  have hrange : magnitude nBits < 2 ^ 256 := by
    refine Nat.lt_of_not_le fun hlarge => ?_
    have hflag := (overflow_iff nBits).mpr hlarge
    rw [h.flags] at hflag
    cases hflag
  rw [SetCompact_fst, SetCompact_toNat, Nat.mod_eq_of_lt hrange]
  rw [magnitude] at hrange ⊢
  split_ifs at hrange ⊢ with hshort
  · have hle := Nat.div_le_self (fraction nBits) (2 ^ (8 * (3 - exponent nBits)))
    omega
  · have hdvd : 2 ^ 8 ∣ fraction nBits * 2 ^ (8 * (exponent nBits - 3)) :=
      (Nat.pow_dvd_pow 2 (by omega)).trans (Nat.dvd_mul_left _ _)
    omega

theorem HasTarget.work_pos : 0 < work nBits := Nat.div_pos h.succ_lt.le (Nat.succ_pos _)

theorem HasTarget.work_lt : work nBits < 2 ^ 256 :=
  Nat.div_lt_self (by decide) (Nat.succ_lt_succ h.pos)

theorem HasTarget.add_one :
    ((SetCompact nBits).1 + 1).toNat = (SetCompact nBits).1.toNat + 1 := by
  exact Nat.mod_eq_of_lt h.succ_lt

theorem HasTarget.dividedProof :
    dividedProof nBits = some (GetBlockProof nBits) := by
  have hne : (SetCompact nBits).1 + 1 ≠ 0 := by
    intro hzero
    have hnat := h.add_one
    rw [hzero] at hnat
    cases hnat
  have hguard : ((SetCompact nBits).2.1 || (SetCompact nBits).2.2 ||
      (SetCompact nBits).1 == 0) = false := by
    rw [h.flags, Bool.or_self, Bool.false_or]
    exact beq_eq_false_iff_ne.mpr h.ne_zero
  rw [BlockIndex.dividedProof, GetBlockProof]
  dsimp only
  rw [hguard, if_neg Bool.false_ne_true, if_neg Bool.false_ne_true, divide_eq hne, Option.map_some]

theorem HasTarget.GetBlockProof_toNat :
    (GetBlockProof nBits).toNat = work nBits := by
  have hguard : ((SetCompact nBits).2.1 || (SetCompact nBits).2.2 ||
      (SetCompact nBits).1 == 0) = false := by
    rw [h.flags, Bool.or_self, Bool.false_or]
    exact beq_eq_false_iff_ne.mpr h.ne_zero
  have hquotient : (~~~(SetCompact nBits).1 / ((SetCompact nBits).1 + 1)).toNat + 1 =
      work nBits := by
    rw [BitVec.toNat_udiv, h.add_one, BitVec.toNat_not, Nat.sub_sub, Nat.add_comm 1, work]
    exact (Nat.div_eq_sub_div (Nat.succ_pos _) h.succ_lt.le).symm
  rw [GetBlockProof]
  dsimp only
  rw [hguard, if_neg Bool.false_ne_true, BitVec.toNat_add]
  show (_ + 1) % 2 ^ 256 = _
  rw [hquotient]
  exact Nat.mod_eq_of_lt h.work_lt

end

end

theorem chain_increases {T : BlockTree} {root : CBlockIndex} : ∀ {es : List CBlockIndex},
    (∀ e ∈ es ++ [root], BlockTree.Placed T e ∧ HasTarget e.nBits) →
    (es ++ [root]).IsChain (fun e q => T.prev e = some q) →
    root.nChainWork.toNat + (es.map fun e => work e.nBits).sum < 2 ^ 256 →
    (∀ e ∈ (es ++ [root]).head?,
      e.nChainWork.toNat = root.nChainWork.toNat + (es.map fun e => work e.nBits).sum) ∧
      (es ++ [root]).Pairwise fun e q => q.nChainWork < e.nChainWork
  | [], _, _, _ => by simp
  | e :: es, hblocks, hchain, hfits => by
    rw [map_cons, sum_cons] at hfits
    obtain ⟨hplaced, htarget⟩ := hblocks e mem_cons_self
    obtain ⟨hlink, hrest⟩ := isChain_cons.mp hchain
    obtain ⟨hhead, hbelow⟩ := @chain_increases _ _ es
      (fun e he => hblocks e (.tail _ he)) hrest (by omega)
    obtain ⟨q, hq⟩ : ∃ q, (es ++ [root]).head? = some q := by cases es <;> exact ⟨_, rfl⟩
    have hprev := hlink q hq
    obtain ⟨p, hp, hentry⟩ := Option.bind_eq_some_iff.mp hprev
    obtain ⟨q', hq', _, hwork⟩ := hplaced.next p hp
    obtain rfl : q = q' := Option.some.inj (hentry.symm.trans hq')
    have hsum : e.nChainWork.toNat = q.nChainWork.toNat + work e.nBits := by
      rw [hwork, BitVec.toNat_add, htarget.GetBlockProof_toNat]
      exact Nat.mod_eq_of_lt (by rw [hhead q hq]; omega)
    have hmore : q.nChainWork < e.nChainWork := by
      have hpos := htarget.work_pos
      exact BitVec.lt_def.mpr (by omega)
    refine ⟨?_, pairwise_cons.mpr ⟨?_, hbelow⟩⟩
    · intro e' he'
      obtain rfl : e = e' := Option.some.inj he'
      rw [map_cons, sum_cons, hsum, hhead q hq]
      omega
    · intro x hx
      obtain ⟨rest, hrest'⟩ : ∃ rest, es ++ [root] = q :: rest := by
        cases es <;> exact ⟨_, congrArg (· :: _) (Option.some.inj hq)⟩
      have hx : x ∈ es ++ [root] := hx
      rw [hrest'] at hx hbelow
      rcases mem_cons.mp hx with rfl | hx
      · exact hmore
      · exact BitVec.lt_trans ((pairwise_cons.mp hbelow).1 x hx) hmore

/-- **The work of a target.**  The quotient ends and is exact, does not grow with the target, and
along a chain of the index the work grows with every block until it no longer fits. -/
theorem GetBlockProof_exact (N : TreeNode) {is : List BlockTree.TreeEvent}
    (hrun : Run.Guarded (BlockTree.treeStep N) (BlockTree.Meets N) {} is) :
    (∀ nBits, HasTarget nBits → dividedProof nBits = some (GetBlockProof nBits) ∧
      (GetBlockProof nBits).toNat = 2 ^ 256 / ((SetCompact nBits).1.toNat + 1) ∧
      0 < GetBlockProof nBits) ∧
    (∀ nBits nBits', HasTarget nBits → HasTarget nBits' →
      (SetCompact nBits).1 ≤ (SetCompact nBits').1 →
      GetBlockProof nBits' ≤ GetBlockProof nBits) ∧
    ∀ (root : CBlockIndex) (es : List CBlockIndex),
      (∀ e ∈ es ++ [root], HasTarget e.nBits ∧
        ∃ hash, (is.foldl (BlockTree.treeStep N) {}).entry hash = some e) →
      (es ++ [root]).IsChain (fun e q => (is.foldl (BlockTree.treeStep N) {}).prev e = some q) →
      root.nChainWork.toNat + (es.map fun e => work e.nBits).sum < 2 ^ 256 →
      (es ++ [root]).Pairwise fun e q => q.nChainWork < e.nChainWork := by
  refine ⟨?_, ?_, ?_⟩
  · intro nBits h
    refine ⟨h.dividedProof, h.GetBlockProof_toNat, BitVec.lt_def.mpr ?_⟩
    rw [h.GetBlockProof_toNat]
    exact h.work_pos
  · intro nBits nBits' h h' hle
    rw [BitVec.le_def, h.GetBlockProof_toNat, h'.GetBlockProof_toNat]
    exact Nat.div_le_div_left (Nat.succ_le_succ (BitVec.le_def.mp hle)) (Nat.succ_pos _)
  · intro root es hblocks hchain hfits
    refine (chain_increases ?_ hchain hfits).2
    intro e he
    obtain ⟨htarget, hash, hentry⟩ := hblocks e he
    exact ⟨(run_wellFormed hrun).placed hash e hentry, htarget⟩

/-- A header without transactions. -/
def bareHeader (hashPrevBlock : uint256) (nBits : BitVec 32) : CBlockHeader :=
  ⟨0, hashPrevBlock, 0, 0, nBits, 0, 0⟩

/-- Two headers, of the targets 1 and 2. -/
def twoHeaders : List BlockTree.TreeEvent :=
  [.header (bareHeader 0 0x01010000) (allGood 0), .header (bareHeader 3 0x01020000) (allGood 0)]

def bareNode : TreeNode := { stakeNode with hashGenesisBlock := 3 }

theorem twoHeaders_increase :
    (dividedProof 0x01020000).map BitVec.toNat = some (2 ^ 256 / 3) ∧
      GetBlockProof 0x01020000 ≤ GetBlockProof 0x01010000 ∧
      ∃ e q, (twoHeaders.foldl (BlockTree.treeStep bareNode) {}).entry 7 = some e ∧
        e.pprev = some 3 ∧ (twoHeaders.foldl (BlockTree.treeStep bareNode) {}).entry 3 = some q ∧
        q.nChainWork < e.nChainWork := by
  have hrun : Run.Guarded (BlockTree.treeStep bareNode) (BlockTree.Meets bareNode) {}
      twoHeaders := by
    refine ⟨⟨by decide, fun _ => rfl, nofun⟩, ⟨by decide, ?_, ?_⟩, trivial⟩
    · intro hgenesis
      exact absurd hgenesis (by decide)
    · intro e he
      exact absurd (show none = some e from he) (by simp)
  have hone : HasTarget 0x01010000 := ⟨by decide, by decide⟩
  have htwo : HasTarget 0x01020000 := ⟨by decide, by decide⟩
  obtain ⟨hexact, hanti, hchain⟩ := GetBlockProof_exact bareNode hrun
  obtain ⟨hdivided, hwork, -⟩ := hexact 0x01020000 htwo
  refine ⟨?_, hanti _ _ hone htwo (by decide), _, _, rfl, rfl, rfl, ?_⟩
  · rw [hdivided, Option.map_some, hwork]
    decide
  · refine (pairwise_cons.mp (hchain _ [_] ?_ (isChain_pair.mpr ?_) ?_)).1 _
      (.head _)
    · intro e he
      rcases mem_cons.mp he with rfl | he
      · exact ⟨htwo, 7, rfl⟩
      · obtain rfl := mem_singleton.mp he
        exact ⟨hone, 3, rfl⟩
    · rfl
    · decide

/-- **A target of nothing has no work.** -/
theorem zero_target_without_work :
    ¬ (∀ nBits, (SetCompact nBits).2 = (false, false) →
      (GetBlockProof nBits).toNat = 2 ^ 256 / ((SetCompact nBits).1.toNat + 1) ∧
        0 < GetBlockProof nBits) := by
  intro hall
  exact absurd (hall 0 (by decide)).2 (by decide)

end Divitae.BlockIndex
