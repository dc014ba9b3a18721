/-
# `Lib.Carve` — ranges cut off at a mark

Under each key there is a mark, and a range handed out begins there; the mark then moves at
least to its end.  Whatever else moves a mark moves it up.

    Apart           two ranges of one key have no place in common
    Carved          all are apart, and none goes beyond the mark of its key
    Carved.grow     kept where no mark moves down
    Carved.cut      and where a range is cut off
-/
import Mathlib.Data.List.Basic

namespace Carve

variable {κ : Type*}

structure Range (κ : Type*) where
  key : κ
  pos : ℕ
  size : ℕ

/-- Where the next range begins. -/
def Range.stop (r : Range κ) : ℕ := r.pos + r.size

def Apart (r r' : Range κ) : Prop := r.key = r'.key → r.stop ≤ r'.pos ∨ r'.stop ≤ r.pos

/-- The ranges handed out, the last one first. -/
structure Carved (mark : κ → ℕ) (l : List (Range κ)) : Prop where
  below : ∀ r ∈ l, r.stop ≤ mark r.key
  apart : l.Pairwise Apart

variable {mark mark' : κ → ℕ} {l : List (Range κ)} {r r' : Range κ} {k : κ} {n : ℕ}

theorem Apart.not_both (h : Apart r r') (hkey : r.key = r'.key) (hn : r.pos ≤ n ∧ n < r.stop) :
    ¬(r'.pos ≤ n ∧ n < r'.stop) := by
  rintro ⟨hlow, hhigh⟩
  rcases h hkey with hle | hle
  · omega
  · omega

theorem carved_nil (mark : κ → ℕ) : Carved mark [] where
  below _ h := nomatch h
  apart := List.Pairwise.nil

section
variable (h : Carved mark l) (hle : ∀ k, mark k ≤ mark' k)
include h hle

theorem Carved.grow : Carved mark' l where
  below r hr := Nat.le_trans (h.below r hr) (hle r.key)
  apart := h.apart

/-- **A range from the mark on** is apart from those there are. -/
theorem Carved.cut (hcut : mark k + n ≤ mark' k) : Carved mark' (⟨k, mark k, n⟩ :: l) where
  below := List.forall_mem_cons.mpr ⟨hcut, (h.grow hle).below⟩
  apart := by
    refine List.pairwise_cons.mpr ⟨?_, h.apart⟩
    intro r hr hkey
    have hbelow := h.below r hr
    rw [← hkey] at hbelow
    exact .inr hbelow

end

end Carve
