/-
# `RecordSize` — the size that is told of a record, and the bytes that are written

`CCoins::GetSerializeSize` and `CCoins::Serialize` go through the same parts of a record, each for
itself.  They differ in the header code:

    Serialize           nCode = 16 * nMaskCode + flags
    GetSerializeSize    nCode =  8 * nMaskCode + flags

The code is a variable-length integer, so that the sizes are still the same as long as no step to
the next digit lies between the two (`GetSerializeSize_iff`).
-/
import Divitae.CoinsRecord

namespace Divitae

open Codec List

/-! ## Variable-length integers -/

/-- The loop of `GetSizeOfVarInt`, of at most so many rounds after the first. -/
def sizeFrom : ℕ → ℕ → ℕ
  | 0, _ => 1
  | k + 1, n => if n ≤ 0x7F then 1 else sizeFrom k (n / 128 - 1) + 1

/-- `GetSizeOfVarInt` of an unsigned number. -/
def GetSizeOfVarInt (n : ℕ) : ℕ := sizeFrom n n

/-- `GetSizeOfVarInt` of an `int`. -/
def sizeOfInt (n : Int) : ℕ := if n ≤ 0x7F then 1 else GetSizeOfVarInt n.toNat

theorem length_varHead (k n : ℕ) : (varHead k n).length + 1 = sizeFrom k n := by
  induction k generalizing n with
  | zero => rfl
  | succ k ih =>
    rw [varHead, sizeFrom]
    split_ifs
    · rfl
    · rw [length_append, length_singleton, ih]

@[simp] theorem length_writeVar (n : ℕ) : (writeVar n).length = GetSizeOfVarInt n := by
  rw [writeVar, length_append, length_singleton, length_varHead]
  rfl

@[simp] theorem length_serVersion (n : Int) : (serVersion n).length = sizeOfInt n := by
  rw [serVersion, sizeOfInt]
  split_ifs
  · rfl
  · exact length_writeVar _

theorem sizeFrom_of_le {k n : ℕ} (h : n ≤ k) : sizeFrom k n = GetSizeOfVarInt n := by
  induction n using Nat.strongRecOn generalizing k with
  | ind n ih =>
    rw [GetSizeOfVarInt]
    cases k with
    | zero =>
      obtain rfl := Nat.le_zero.mp h
      rfl
    | succ k =>
      cases n with
      | zero => rfl
      | succ n =>
        rw [sizeFrom, sizeFrom]
        split_ifs
        · rfl
        · rw [ih _ (by omega) (by omega), ih _ (by omega) (by omega)]

variable {n : ℕ}

theorem size_of_le (h : n ≤ 0x7F) : GetSizeOfVarInt n = 1 := by
  rw [← sizeFrom_of_le (Nat.le_succ n), sizeFrom, if_pos h]

theorem size_of_lt (h : 0x7F < n) :
    GetSizeOfVarInt n = GetSizeOfVarInt (n / 128 - 1) + 1 := by
  rw [← sizeFrom_of_le (Nat.le_succ n), sizeFrom, if_neg (Nat.not_le.mpr h),
    sizeFrom_of_le (by omega)]

/-- Where the numbers of 32 bits go on to the next digit. -/
def varIntSteps : List ℕ := [128, 16512, 2113664, 270549120]

theorem size_eq_steps (h : n < 2 ^ 32) :
    GetSizeOfVarInt n = varIntSteps.countP (fun t => t ≤ n) + 1 := by
  simp only [varIntSteps, countP_cons, countP_nil, decide_eq_true_eq]
  rcases Nat.lt_or_ge n 128 with h1 | h1
  · rw [size_of_le (by omega), if_neg (by omega), if_neg (by omega), if_neg (by omega),
      if_neg (by omega)]
  rw [size_of_lt (by omega), if_pos h1]
  rcases Nat.lt_or_ge n 16512 with h2 | h2
  · rw [size_of_le (by omega), if_neg (by omega), if_neg (by omega), if_neg (by omega)]
  rw [size_of_lt (by omega), if_pos h2]
  rcases Nat.lt_or_ge n 2113664 with h3 | h3
  · rw [size_of_le (by omega), if_neg (by omega), if_neg (by omega)]
  rw [size_of_lt (by omega), if_pos h3]
  rcases Nat.lt_or_ge n 270549120 with h4 | h4
  · rw [size_of_le (by omega), if_neg (by omega)]
  rw [size_of_lt (by omega), size_of_le (by omega), if_pos h4]

theorem countP_le_eq {m n : ℕ} (hle : m ≤ n) (steps : List ℕ) :
    steps.countP (fun t => t ≤ m) = steps.countP (fun t => t ≤ n) ↔ ∀ t ∈ steps, t ≤ m ↔ t ≤ n := by
  induction steps with
  | nil => exact iff_of_true rfl nofun
  | cons s steps ih =>
    have hmono : steps.countP (fun t => t ≤ m) ≤ steps.countP (fun t => t ≤ n) := by
      refine countP_mono_left ?_
      intro t _ ht
      simp only [decide_eq_true_eq] at ht ⊢
      exact ht.trans hle
    rw [forall_mem_cons, ← ih, countP_cons, countP_cons]
    simp only [decide_eq_true_eq]
    split_ifs with hsm hsn hsn
    · omega
    · exact absurd (hsm.trans hle) hsn
    · omega
    · omega

theorem size_eq_iff {m n : ℕ} (hm : m < 2 ^ 32) (hn : n < 2 ^ 32) :
    GetSizeOfVarInt m = GetSizeOfVarInt n ↔ ∀ t ∈ varIntSteps, t ≤ m ↔ t ≤ n := by
  rw [size_eq_steps hm, size_eq_steps hn, Nat.add_right_cancel_iff]
  rcases Nat.le_total m n with hle | hle
  · exact countP_le_eq hle varIntSteps
  · rw [eq_comm, countP_le_eq hle]
    exact forall₂_congr fun _ _ => iff_comm

theorem size_le_five (h : n < 2 ^ 32) : GetSizeOfVarInt n ≤ 5 := by
  rw [size_eq_steps h]
  exact Nat.succ_le_succ countP_le_length

namespace CCoins

section
variable (K : CurvePoints) (c : CCoins)

/-- `CTxOutCompressor` into a `CSizeComputer`, which counts what would be written. -/
def compressorSize (txout : CTxOut) : ℕ := (serCompressed K txout).length

/-- The header code as `GetSerializeSize` has it, an `unsigned int`. -/
def sizeCode : ℕ :=
  (8 * (c.CalcMaskSize.2 - (if c.unspent 0 || c.unspent 1 then 0 else 1)) +
    (if c.fCoinBase then 1 else 0) + (if c.fCoinStake then 2 else 0) +
    (if c.unspent 0 then 4 else 0) + (if c.unspent 1 then 8 else 0)) % 2 ^ 32

/-- `GetSerializeSize`, an `unsigned int`; the source asserts that an output is left. -/
def GetSerializeSize : ℕ :=
  (sizeOfInt c.nVersion + GetSizeOfVarInt c.sizeCode + c.CalcMaskSize.1 +
    ((c.vout.filter fun txout => !txout.IsNull).map (compressorSize K)).sum +
    sizeOfInt c.nHeight) % 2 ^ 32

/-- What the assertion says: one of the first two outputs is left, or a byte of the mask is
not zero. -/
def Serialisable : Prop := (c.unspent 0 || c.unspent 1) = true ∨ c.CalcMaskSize.2 ≠ 0

/-- The bytes of everything but the header code. -/
def contentSize : ℕ :=
  sizeOfInt c.nVersion + c.CalcMaskSize.1 +
    ((c.vout.filter fun txout => !txout.IsNull).map (compressorSize K)).sum + sizeOfInt c.nHeight

end

variable {K : CurvePoints} {c : CCoins}

theorem length_Serialize :
    (c.Serialize K).length = c.contentSize K + GetSizeOfVarInt c.nCode := by
  have houtputs :
      (((c.vout.filter fun txout => !txout.IsNull).map (serCompressed K)).flatten).length =
        ((c.vout.filter fun txout => !txout.IsNull).map (compressorSize K)).sum := by
    rw [length_flatten, map_map]
    rfl
  rw [Serialize, contentSize]
  simp only [length_append, length_serVersion, length_writeVar, length_map, length_range, houtputs]
  omega

/-- **The size that is told is the number of bytes written exactly when** no step to another digit
lies between the two header codes and the bytes can be counted in an `unsigned int`. -/
theorem GetSerializeSize_iff (K : CurvePoints) (c : CCoins) :
    c.GetSerializeSize K = (c.Serialize K).length ↔
      (∀ t ∈ varIntSteps, t ≤ c.sizeCode ↔ t ≤ c.nCode) ∧
        c.contentSize K + GetSizeOfVarInt c.nCode < 2 ^ 32 := by
  have hsize : c.sizeCode < 2 ^ 32 := Nat.mod_lt _ (Nat.two_pow_pos 32)
  have hcode : c.nCode < 2 ^ 32 := Nat.mod_lt _ (Nat.two_pow_pos 32)
  have hfive := size_le_five hsize
  have hfive' := size_le_five hcode
  have htotal : c.GetSerializeSize K =
      (c.contentSize K + GetSizeOfVarInt c.sizeCode) % 2 ^ 32 := by
    rw [GetSerializeSize, contentSize]
    congr 1
    omega
  rw [← size_eq_iff hsize hcode, htotal, length_Serialize]
  omega

/-- A coinbase of 66 outputs, none of them spent. -/
def manyOutputs : CCoins := ⟨true, false, List.replicate 66 ⟨0, []⟩, 1, 1⟩

/-- The header code is 141 where it is written and 77 where its size is told. -/
theorem told_one_short :
    ¬ (∀ (K : CurvePoints) (c : CCoins), c.Serialisable →
        c.GetSerializeSize K = (c.Serialize K).length) ∧
      manyOutputs.Serialisable ∧
      manyOutputs.GetSerializeSize noKeys = 143 ∧ (manyOutputs.Serialize noKeys).length = 144 := by
  have hleft : manyOutputs.Serialisable := .inl (by decide)
  have htold : manyOutputs.GetSerializeSize noKeys = 143 := by decide +kernel
  have hwritten : (manyOutputs.Serialize noKeys).length = 144 := by decide +kernel
  refine ⟨?_, hleft, htold, hwritten⟩
  intro hall
  have hsame := hall noKeys manyOutputs hleft
  rw [htold, hwritten] at hsame
  exact absurd hsame (by decide)

end CCoins

end Divitae
