/-
# `BlockStatus` — what the block index notes of a block

`nStatus` of `chain.h`: the level of validity in the lower three bits, and the flags.
-/
import Divitae.Serialize

namespace Divitae

def BLOCK_VALID_TREE : ℕ := 2
def BLOCK_VALID_TRANSACTIONS : ℕ := 3
def BLOCK_VALID_SCRIPTS : ℕ := 5

/-- `nStatus`, its bits apart. -/
structure BlockStatus where
  /-- `nStatus & BLOCK_VALID_MASK` -/
  valid : ℕ := 0
  /-- `BLOCK_HAVE_DATA` -/
  haveData : Bool := false
  /-- `BLOCK_HAVE_UNDO` -/
  haveUndo : Bool := false
  /-- `BLOCK_FAILED_VALID` -/
  failedValid : Bool := false
  /-- `BLOCK_FAILED_CHILD` -/
  failedChild : Bool := false
deriving DecidableEq

namespace BlockStatus

variable (s : BlockStatus)

/-- `nStatus & BLOCK_FAILED_MASK`. -/
def failed : Bool := s.failedValid || s.failedChild

def IsValid (nUpTo : ℕ) : Bool := !s.failed && decide (nUpTo ≤ s.valid)

def RaiseValidity (nUpTo : ℕ) : BlockStatus :=
  if s.failed then s else if s.valid < nUpTo then { s with valid := nUpTo } else s

variable {s}

section
variable (n : ℕ)
include n

@[simp] theorem RaiseValidity_haveData : (s.RaiseValidity n).haveData = s.haveData := by
  unfold RaiseValidity; split_ifs <;> rfl

@[simp] theorem RaiseValidity_haveUndo : (s.RaiseValidity n).haveUndo = s.haveUndo := by
  unfold RaiseValidity; split_ifs <;> rfl

@[simp] theorem RaiseValidity_failedValid :
    (s.RaiseValidity n).failedValid = s.failedValid := by
  unfold RaiseValidity; split_ifs <;> rfl

@[simp] theorem RaiseValidity_failedChild :
    (s.RaiseValidity n).failedChild = s.failedChild := by
  unfold RaiseValidity; split_ifs <;> rfl

@[simp] theorem RaiseValidity_failed : (s.RaiseValidity n).failed = s.failed := by
  simp [failed]

theorem le_RaiseValidity : s.valid ≤ (s.RaiseValidity n).valid := by
  unfold RaiseValidity
  split_ifs with hfailed hlt
  · exact le_rfl
  · exact hlt.le
  · exact le_rfl

end

theorem RaiseValidity_valid (h : s.failed = false) (n : ℕ) :
    (s.RaiseValidity n).valid = max s.valid n := by
  rw [RaiseValidity, if_neg (by simp [h])]
  split_ifs with hlt
  · exact (max_eq_right hlt.le).symm
  · exact (max_eq_left (Nat.le_of_not_lt hlt)).symm

theorem IsValid_iff {n : ℕ} : s.IsValid n ↔ s.failed = false ∧ n ≤ s.valid := by
  simp [IsValid]

end BlockStatus

/-- What a check of a block comes to: `accept`, or the block breaks a rule and `state` says so,
with `CorruptionPossible()` or without, or an error that leaves `state` as it is. -/
inductive BlockVerdict where
  | accept
  | invalid
  | corrupt
  | error
deriving DecidableEq

end Divitae
