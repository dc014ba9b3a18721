/-
# `Lib.Truncate` — numbers cut to their leading digits

A number of `w` bits a digit keeps `keep + 1` digits of which the first has its top bit free, as
floating formats do that need this bit for a sign.

    lost w keep n   how many digits go
    trunc w keep n  what is left

`trunc` does not exceed the number (`trunc_le`), misses it by a small part only (`lt_trunc_add`),
and keeps the order (`trunc_mono`).
-/
import Mathlib.Data.Nat.Size
import Mathlib.Algebra.Order.Ring.Nat

namespace Truncate

variable {w keep m n : ℕ}

def lost (w keep n : ℕ) : ℕ := n.size / w - keep

def trunc (w keep n : ℕ) : ℕ := n / 2 ^ (w * lost w keep n) * 2 ^ (w * lost w keep n)

theorem trunc_le : trunc w keep n ≤ n := Nat.div_mul_le_self _ _

theorem lt_trunc_add : n < trunc w keep n + 2 ^ (w * lost w keep n) :=
  Nat.lt_div_mul_add (Nat.two_pow_pos _)

theorem trunc_of_size (h : n.size / w ≤ keep) : trunc w keep n = n := by
  rw [trunc, lost, Nat.sub_eq_zero_of_le h, Nat.mul_zero, Nat.pow_zero, Nat.div_one, Nat.mul_one]

theorem le_of_size (hw : 0 < w) (h : 0 < n.size / w) : 2 ^ (w * (n.size / w) - 1) ≤ n := by
  have hle : w * (n.size / w) ≤ n.size := Nat.mul_div_le n.size w
  have hpos : 0 < w * (n.size / w) := Nat.mul_pos hw h
  exact Nat.lt_size.mp (by omega)

section
variable (hw : 0 < w) (hkeep : 0 < keep)
include hw hkeep

theorem unit_dvd (h : keep < n.size / w) :
    2 ^ (w * lost w keep n) ∣ 2 ^ (w * (n.size / w) - 1) := by
  refine Nat.pow_dvd_pow 2 ?_
  have hlost : lost w keep n + keep = n.size / w := Nat.sub_add_cancel h.le
  have hmul : w * (n.size / w) = w * lost w keep n + w * keep := by rw [← hlost, Nat.mul_add]
  have hpos : 0 < w * keep := Nat.mul_pos hw hkeep
  omega

theorem le_trunc (h : keep < n.size / w) :
    2 ^ (w * (n.size / w) - 1) ≤ trunc w keep n := by
  obtain ⟨k, hk⟩ := unit_dvd hw hkeep h
  have hle := le_of_size hw (lt_trans hkeep h)
  rw [trunc, hk, Nat.mul_comm]
  refine Nat.mul_le_mul_right _ ((Nat.le_div_iff_mul_le (Nat.two_pow_pos _)).mpr ?_)
  rw [Nat.mul_comm, ← hk]
  exact hle

theorem trunc_pos (hn : 0 < n) : 0 < trunc w keep n := by
  rcases Nat.lt_or_ge keep (n.size / w) with h | h
  · exact lt_of_lt_of_le (Nat.two_pow_pos _) (le_trunc hw hkeep h)
  · rwa [trunc_of_size h]

/-- **The order is kept.** -/
theorem trunc_mono (h : m ≤ n) :
    trunc w keep m ≤ trunc w keep n := by
  have hsize : m.size / w ≤ n.size / w := Nat.div_le_div_right (Nat.size_le_size h)
  rcases Nat.eq_or_lt_of_le hsize with heq | hless
  · -- of one length both are cut at one place
    have hlost : lost w keep m = lost w keep n := by rw [lost, heq, ← lost]
    rw [trunc, trunc, hlost]
    exact Nat.mul_le_mul_right _ (Nat.div_le_div_right h)
  · -- the longer one keeps the first bit that the other does not have
    rcases Nat.lt_or_ge keep (n.size / w) with hlong | hshort
    · have hm : m < 2 ^ (w * (n.size / w) - 1) := by
        refine Nat.size_le.mp ?_
        have hnext : m.size < w * (m.size / w + 1) := Nat.lt_mul_div_succ m.size hw
        have hmul : w * (m.size / w + 1) ≤ w * (n.size / w) := Nat.mul_le_mul_left w hless
        omega
      exact le_trans trunc_le (le_trans hm.le (le_trunc hw hkeep hlong))
    · rw [trunc_of_size hshort]
      exact le_trans trunc_le h

theorem unit_mul_le (h : keep < n.size / w) :
    2 ^ (w * lost w keep n) * 2 ^ (w * keep - 1) ≤ n := by
  have hlost : lost w keep n + keep = n.size / w := Nat.sub_add_cancel h.le
  have hmul : w * (n.size / w) = w * lost w keep n + w * keep := by rw [← hlost, Nat.mul_add]
  have hpos : 0 < w * keep := Nat.mul_pos hw hkeep
  have hexp : w * lost w keep n + (w * keep - 1) = w * (n.size / w) - 1 := by omega
  rw [← Nat.pow_add, hexp]
  exact le_of_size hw (Nat.zero_lt_of_lt h)

theorem size_trunc : (trunc w keep n).size = n.size := by
  refine le_antisymm (Nat.size_le_size trunc_le) ?_
  rcases Nat.eq_zero_or_pos n.size with hzero | hpos
  · rw [hzero]
    exact Nat.zero_le _
  have hless : w * lost w keep n ≤ n.size - 1 := by
    have hle : w * (n.size / w) ≤ n.size := Nat.mul_div_le n.size w
    rcases Nat.lt_or_ge keep (n.size / w) with h | h
    · have hlost : lost w keep n + keep = n.size / w := Nat.sub_add_cancel h.le
      have hmul : w * (n.size / w) = w * lost w keep n + w * keep := by rw [← hlost, Nat.mul_add]
      have hcut : 0 < w * keep := Nat.mul_pos hw hkeep
      omega
    · rw [lost, Nat.sub_eq_zero_of_le h, Nat.mul_zero]
      exact Nat.zero_le _
  obtain ⟨k, hk⟩ := Nat.pow_dvd_pow 2 hless
  have htop : 2 ^ (n.size - 1) ≤ n := Nat.lt_size.mp (by omega)
  have hkept : 2 ^ (n.size - 1) ≤ trunc w keep n := by
    rw [trunc, hk, Nat.mul_comm]
    refine Nat.mul_le_mul_right _ ((Nat.le_div_iff_mul_le (Nat.two_pow_pos _)).mpr ?_)
    rw [Nat.mul_comm, ← hk]
    exact htop
  have hsize := Nat.lt_size.mpr hkept
  omega

end

end Truncate
