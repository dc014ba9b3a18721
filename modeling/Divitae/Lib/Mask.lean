/-
# `Lib.Mask` — bit masks, and bytes counted by a mark

A mask has bit `i` set where a predicate holds of `i`; `unpack` gives the predicate back.
A list of bytes whose last byte is marked needs no length: a reader that knows how many
marked bytes there are stops at the right place (`reads_collect`).
-/
import Divitae.Lib.Codec
import Mathlib.Data.Nat.Bitwise

namespace Mask

open Codec List

/-! ## Masks -/

/-- Bit `i` for every `i < k` of which `f` holds. -/
def pack (f : ℕ → Bool) (k : ℕ) : ℕ :=
  (List.range k).foldl (fun mask i => if f i then mask ||| 1 <<< i else mask) 0

def unpack (mask k : ℕ) : List Bool := (List.range k).map fun i => mask &&& (1 <<< i) != 0

variable {f : ℕ → Bool}

theorem pack_succ (f : ℕ → Bool) (k : ℕ) :
    pack f (k + 1) = if f k then pack f k ||| 1 <<< k else pack f k := by
  unfold pack
  rw [range_succ, foldl_append]
  rfl

theorem testBit_pack (f : ℕ → Bool) (k i : ℕ) :
    (pack f k).testBit i = (decide (i < k) && f i) := by
  induction k with
  | zero => simp [pack]
  | succ k ih =>
    rw [pack_succ]
    rcases Nat.lt_trichotomy i k with h | rfl | h
    · have hne : k ≠ i := by omega
      cases hk : f k <;> simp [ih, h, Nat.lt_succ_of_lt h, Nat.shiftLeft_eq, hne]
    · cases hk : f i <;> simp [ih, hk, Nat.shiftLeft_eq]
    · have hne : k ≠ i := by omega
      have hlt : ¬ i < k + 1 := by omega
      cases hk : f k <;> simp [ih, hlt, Nat.not_lt.mpr (Nat.le_of_lt h), Nat.shiftLeft_eq, hne]

theorem pack_lt (f : ℕ → Bool) (k : ℕ) : pack f k < 2 ^ k := by
  refine Nat.lt_pow_two_of_testBit _ ?_
  intro i hi
  rw [testBit_pack]
  simp [Nat.not_lt.mpr hi]

theorem pack_eq_zero_iff {k : ℕ} : pack f k = 0 ↔ ∀ i < k, f i = false := by
  constructor
  · intro h i hi
    have hbit := testBit_pack f k i
    simpa [h, hi] using hbit.symm
  · intro h
    refine Nat.eq_of_testBit_eq ?_
    intro i
    rw [testBit_pack, Nat.zero_testBit]
    rcases Nat.lt_or_ge i k with hi | hi
    · simp [h i hi]
    · simp [Nat.not_lt.mpr hi]

theorem unpack_pack (f : ℕ → Bool) (k : ℕ) : unpack (pack f k) k = (List.range k).map f := by
  refine map_congr_left ?_
  intro i hi
  have hbit := testBit_pack f k i
  rw [decide_eq_true (mem_range.mp hi), Bool.true_and] at hbit
  rw [← hbit, Nat.shiftLeft_eq, one_mul, Nat.and_two_pow]
  cases (pack f k).testBit i <;> simp

/-- Bytes up to the `k`-th marked one. -/
def collect (p : UInt8 → Bool) : ℕ → List UInt8 → Option (List UInt8 × List UInt8)
  | 0, bytes => some ([], bytes)
  | _ + 1, [] => none
  | k + 1, b :: bytes =>
    match collect p (if p b then k else k + 1) bytes with
    | none => none
    | some (front, rest) => some (b :: front, rest)

theorem reads_collect {p : UInt8 → Bool} : ∀ {l : List UInt8},
    (∀ h : l ≠ [], p (l.getLast h) = true) → Reads (collect p (l.countP p)) l l
  | [], _ => fun rest => by rw [countP_nil, nil_append, collect]
  | b :: l, hlast => by
    intro rest
    have htail : ∀ h : l ≠ [], p (l.getLast h) = true := by
      intro h
      have := hlast (cons_ne_nil b l)
      rwa [getLast_cons h] at this
    have ih := reads_collect htail rest
    -- without the mark on `b` there is one further on, so the count is not zero
    have hcount : ∃ k, (b :: l).countP p = k + 1 ∧ (if p b then k else k + 1) = l.countP p := by
      cases hb : p b with
      | true => exact ⟨l.countP p, countP_cons_of_pos hb, rfl⟩
      | false =>
        have hne : l ≠ [] := by
          rintro rfl
          have := hlast (cons_ne_nil b [])
          rw [getLast_singleton, hb] at this
          cases this
        have hpos : 0 < l.countP p := countP_pos_iff.mpr ⟨l.getLast hne, getLast_mem hne, htail hne⟩
        refine ⟨l.countP p - 1, ?_, ?_⟩
        · rw [countP_cons_of_neg (by rw [hb]; exact Bool.false_ne_true)]
          omega
        · show l.countP p - 1 + 1 = l.countP p
          omega
    obtain ⟨k, hk, hnext⟩ := hcount
    rw [hk]
    show (match collect p (if p b then k else k + 1) (l ++ rest) with
      | none => none
      | some (front, rest) => some (b :: front, rest)) = _
    rw [hnext, ih]

end Mask
