/-
# `Lib.FileLog` — numbered files, written at positions

The history of a set of files as the list of what was written to them, the newest first.  A
record is `lead` bytes of header and `len` bytes of data; the data begins `lead` bytes after
the place it was written at.  A read finds the data of the record that begins there, unless
something written later has touched it.

    readAt log f p       what the read at `p` in file `f` finds, with its length
    Intact log size      the read finds it, below the size of the file
    Above size w         the write leaves everything below the sizes as it was

What is intact stays so under writes above the sizes, and when the sizes grow.
-/
import Mathlib.Data.List.Basic

namespace FileLog

variable {α : Type*}

inductive Write (α : Type*) where
  | record (file start lead len : ℕ) (val : α)
  | zeros (file start len : ℕ)
  | truncate (file size : ℕ)
deriving DecidableEq

/-- The write changes some of the bytes from `lo` up to `hi`. -/
def Write.touches (w : Write α) (f lo hi : ℕ) : Prop :=
  match w with
  | .record file start lead len _ => file = f ∧ start < hi ∧ lo < start + lead + len
  | .zeros file start len => file = f ∧ start < hi ∧ lo < start + len
  | .truncate file size => file = f ∧ size < hi

instance (w : Write α) (f lo hi : ℕ) : Decidable (w.touches f lo hi) := by
  cases w <;> exact inferInstanceAs (Decidable (_ ∧ _))

/-- The data of the write, where it begins at `p` in the file `f`. -/
def Write.dataAt (w : Write α) (f p : ℕ) : Option (α × ℕ) :=
  match w with
  | .record file start lead len val => if file = f ∧ start + lead = p then some (val, len) else none
  | _ => none

def readAt : List (Write α) → ℕ → ℕ → Option (α × ℕ)
  | [], _, _ => none
  | w :: ws, f, p =>
    match w.dataAt f p with
    | some r => some r
    | none => (readAt ws f p).filter fun r => ¬ w.touches f p (p + r.2)

/-- The write changes nothing below the sizes. -/
def Write.Above (size : ℕ → ℕ) (w : Write α) : Prop :=
  match w with
  | .record file start lead _ _ => size file ≤ start ∧ 0 < lead
  | .zeros file start _ => size file ≤ start
  | .truncate file n => size file ≤ n

/-- The data of `val` is read at `p` in the file `f`, and ends within its size. -/
def Intact (log : List (Write α)) (size : ℕ → ℕ) (f p : ℕ) (val : α) : Prop :=
  ∃ len, readAt log f p = some (val, len) ∧ p + len ≤ size f

/-- A record of `val` with its data at `p` in the file `f` is among the writes. -/
def Written (log : List (Write α)) (f p : ℕ) (val : α) : Prop :=
  ∃ start lead len, Write.record f start lead len val ∈ log ∧ p = start + lead

section
variable {log : List (Write α)} {size size' : ℕ → ℕ} {w : Write α} {f p : ℕ} {val : α}

theorem Write.Above.untouched (h : w.Above size) {hi : ℕ} (hhi : hi ≤ size f) :
    ¬ w.touches f p hi := by
  cases w with
  | record file start lead len val =>
    rintro ⟨rfl, hlt, -⟩
    exact absurd hlt (Nat.not_lt.mpr (Nat.le_trans hhi h.1))
  | zeros file start len =>
    rintro ⟨rfl, hlt, -⟩
    exact absurd hlt (Nat.not_lt.mpr (Nat.le_trans hhi h))
  | truncate file n =>
    rintro ⟨rfl, hlt⟩
    exact absurd hlt (Nat.not_lt.mpr (Nat.le_trans hhi h))

theorem Write.Above.dataAt_eq_none (h : w.Above size) (hp : p ≤ size f) : w.dataAt f p = none := by
  cases w with
  | record file start lead len val =>
    obtain ⟨hstart, hlead⟩ := h
    refine if_neg ?_
    rintro ⟨rfl, rfl⟩
    exact absurd (Nat.le_trans hp hstart) (Nat.not_le.mpr (Nat.lt_add_of_pos_right hlead))
  | zeros file start len => rfl
  | truncate file n => rfl

theorem readAt_record (log : List (Write α)) (f start lead len : ℕ) (val : α) :
    readAt (.record f start lead len val :: log) f (start + lead) = some (val, len) := by
  have hdata : (Write.record f start lead len val).dataAt f (start + lead) = some (val, len) :=
    if_pos ⟨rfl, rfl⟩
  rw [readAt, hdata]

theorem Intact.cons (h : Intact log size f p val) (hw : w.Above size) :
    Intact (w :: log) size f p val := by
  obtain ⟨len, hread, hend⟩ := h
  refine ⟨len, ?_, hend⟩
  have hp : p ≤ size f := Nat.le_trans (Nat.le_add_right p len) hend
  rw [readAt, hw.dataAt_eq_none hp, hread]
  exact if_pos (decide_eq_true (hw.untouched hend))

theorem written_of_readAt {r : α × ℕ} (h : readAt log f p = some r) : Written log f p r.1 := by
  induction log with
  | nil => exact nomatch h
  | cons w log ih =>
    cases hw : w.dataAt f p with
    | some r' =>
      rw [readAt, hw] at h
      cases h
      cases w with
      | record file start lead len val =>
        rw [Write.dataAt, Option.ite_none_right_eq_some] at hw
        obtain ⟨⟨rfl, rfl⟩, hr⟩ := hw
        cases hr
        exact ⟨start, lead, len, .head _, rfl⟩
      | zeros file start len => exact nomatch hw
      | truncate file n => exact nomatch hw
    | none =>
      rw [readAt, hw] at h
      obtain ⟨start, lead, len, hmem, hp⟩ := ih (Option.filter_eq_some_iff.mp h).1
      exact ⟨start, lead, len, List.mem_cons_of_mem w hmem, hp⟩

theorem Written.cons (h : Written log f p val) (w : Write α) : Written (w :: log) f p val := by
  obtain ⟨start, lead, len, hmem, hp⟩ := h
  exact ⟨start, lead, len, List.mem_cons_of_mem w hmem, hp⟩

theorem Intact.mono (h : Intact log size f p val) (hle : size f ≤ size' f) :
    Intact log size' f p val := by
  obtain ⟨len, hread, hend⟩ := h
  exact ⟨len, hread, Nat.le_trans hend hle⟩

end

end FileLog
