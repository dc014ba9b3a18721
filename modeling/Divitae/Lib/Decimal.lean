/-
# `Lib.Decimal` — decimal text as bytes, and what concatenation forgets

Numbers printed the way a stream prints them: digits most significant first, a
minus sign in front of a negative number, no padding.  Printing is injective, but
a concatenation of printed numbers is not: `12 ++ 3 = 1 ++ 23`.  The positive half
is `append_decimal_inj`: when the pieces have the same lengths the concatenation
determines them.
-/
import Mathlib.Data.Nat.Digits.Lemmas

namespace Decimal

open List

/-- The byte of a decimal digit. -/
def digitByte (d : Nat) : UInt8 := UInt8.ofNat (48 + d)

def ofNat (n : Nat) : List UInt8 := if n = 0 then [48] else (Nat.digits 10 n).reverse.map digitByte

/-- An integer, printed: `-` is byte 45. -/
def ofInt : Int → List UInt8
  | .ofNat n => ofNat n
  | .negSucc n => 45 :: ofNat (n + 1)

theorem digitByte_inj {a b : Nat} (ha : a < 10) (hb : b < 10)
    (h : digitByte a = digitByte b) : a = b := by
  have hv := congrArg UInt8.toNat h
  simp only [digitByte, UInt8.toNat_ofNat'] at hv
  omega

theorem digitByte_range {d : Nat} (hd : d < 10) :
    48 ≤ (digitByte d).toNat ∧ (digitByte d).toNat ≤ 57 := by
  simp only [digitByte, UInt8.toNat_ofNat']
  omega

theorem mem_ofNat_range {n : Nat} {c : UInt8} (h : c ∈ ofNat n) :
    48 ≤ c.toNat ∧ c.toNat ≤ 57 := by
  unfold ofNat at h
  split at h
  · simp only [mem_singleton] at h
    subst h; decide
  · simp only [mem_map, mem_reverse] at h
    obtain ⟨d, hd, rfl⟩ := h
    exact digitByte_range (Nat.digits_lt_base (by omega) hd)

theorem mem_ofInt_range {z : Int} {c : UInt8} (h : c ∈ ofInt z) :
    45 ≤ c.toNat ∧ c.toNat ≤ 57 := by
  cases z with
  | ofNat n => have := mem_ofNat_range h; omega
  | negSucc n =>
    rcases mem_cons.mp h with rfl | h
    · decide
    · have := mem_ofNat_range h; omega

theorem ofNat_ne_zero_text {n : Nat} (hn : n ≠ 0) : ofNat n ≠ [48] := by
  intro h
  simp only [ofNat, if_neg hn] at h
  have hlen : (Nat.digits 10 n).length = 1 := by simpa using congrArg List.length h
  obtain ⟨d, hd⟩ := length_eq_one_iff.mp hlen
  have hlast := Nat.getLast_digit_ne_zero 10 hn
  simp only [hd, getLast_singleton] at hlast
  have hlt : d < 10 := Nat.digits_lt_base (b := 10) (m := n) (by omega) (by simp [hd])
  simp only [hd, reverse_singleton, map_singleton, cons.injEq, and_true] at h
  exact hlast (digitByte_inj hlt (by omega) (by simpa [digitByte] using h))

theorem map_digitByte_inj : ∀ {xs ys : List Nat}, (∀ d ∈ xs, d < 10) → (∀ d ∈ ys, d < 10) →
    xs.map digitByte = ys.map digitByte → xs = ys
  | [], [], _, _, _ => rfl
  | [], _ :: _, _, _, h => by simp at h
  | _ :: _, [], _, _, h => by simp at h
  | x :: xs, y :: ys, hx, hy, h => by
    simp only [map_cons, cons.injEq] at h
    have hxy := digitByte_inj (hx x mem_cons_self) (hy y mem_cons_self) h.1
    have hrest := map_digitByte_inj (fun d hd => hx d (mem_cons_of_mem x hd))
      (fun d hd => hy d (mem_cons_of_mem y hd)) h.2
    rw [hxy, hrest]

theorem ofNat_inj {m n : Nat} (h : ofNat m = ofNat n) : m = n := by
  by_cases hm : m = 0
  · by_cases hn : n = 0
    · omega
    · exact absurd (h.symm.trans (by simp [ofNat, hm])) (ofNat_ne_zero_text hn)
  · by_cases hn : n = 0
    · exact absurd (h.trans (by simp [ofNat, hn])) (ofNat_ne_zero_text hm)
    · simp only [ofNat, if_neg hm, if_neg hn] at h
      have hlt : ∀ k : Nat, ∀ d ∈ (Nat.digits 10 k).reverse, d < 10 := fun k d hd =>
        Nat.digits_lt_base (by omega) (mem_reverse.mp hd)
      have hdig := map_digitByte_inj (hlt m) (hlt n) h
      exact Nat.digits_inj_iff.mp (reverse_injective hdig)

theorem ofInt_inj {y z : Int} (h : ofInt y = ofInt z) : y = z := by
  cases y with
  | ofNat m =>
    cases z with
    | ofNat n => exact congrArg Int.ofNat (ofNat_inj h)
    | negSucc n =>
      have hmem : (45 : UInt8) ∈ ofNat m := by
        rw [show ofNat m = _ from h]; exact .head _
      exact absurd (mem_ofNat_range hmem).1 (by decide)
  | negSucc m =>
    cases z with
    | ofNat n =>
      have hmem : (45 : UInt8) ∈ ofNat n := by
        rw [← show _ = ofNat n from h]; exact .head _
      exact absurd (mem_ofNat_range hmem).1 (by decide)
    | negSucc n =>
      have hmn := ofNat_inj (tail_eq_of_cons_eq h)
      exact congrArg Int.negSucc (by omega)

theorem append_decimal_inj {y z : Int} {s t : List UInt8}
    (h : ofInt y ++ s = ofInt z ++ t) (hlen : (ofInt y).length = (ofInt z).length) :
    y = z ∧ s = t := by
  obtain ⟨hyz, hst⟩ := append_inj h hlen
  exact ⟨ofInt_inj hyz, hst⟩

end Decimal
