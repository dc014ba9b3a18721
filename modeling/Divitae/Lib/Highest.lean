/-
# `Lib.Highest` — the loop that looks for the highest count

A loop over a list keeps the entry with the highest count so far and that count; an
entry takes its place only by a higher one, so that among equals the first stays.  The
loop starts from a bar: an entry that does not pass it is not found.
-/
import Mathlib.Order.Lattice

namespace Highest

variable {α τ : Type*} [LinearOrder τ]

/-- The bar, or the highest count above it with the first entry that has it. -/
def search (count : α → τ) : List α → τ × Option α → τ × Option α
  | [], best => best
  | a :: l, best => search count l (if best.1 < count a then (count a, some a) else best)

variable (count : α → τ)

theorem le_search_start (l : List α) (best : τ × Option α) : best.1 ≤ (search count l best).1 := by
  induction l generalizing best with
  | nil => exact le_rfl
  | cons a l ih =>
    refine le_trans ?_ (ih _)
    split_ifs with h
    · exact le_of_lt h
    · exact le_rfl

theorem search_append (l l' : List α) (best : τ × Option α) :
    search count (l ++ l') best = search count l' (search count l best) := by
  induction l generalizing best with
  | nil => rfl
  | cons a l ih => exact ih _

theorem le_search {l : List α} {a : α} (ha : a ∈ l) (best : τ × Option α) :
    count a ≤ (search count l best).1 := by
  induction l generalizing best with
  | nil => exact nomatch ha
  | cons b l ih =>
    rcases List.mem_cons.mp ha with rfl | ha
    · refine le_trans ?_ (le_search_start count l _)
      split_ifs with h
      · exact le_rfl
      · exact not_lt.mp h
    · exact ih ha _

theorem search_found (l : List α) (best : τ × Option α) :
    search count l best = best ∨
      ∃ a ∈ l, best.1 < count a ∧ search count l best = (count a, some a) := by
  induction l generalizing best with
  | nil => exact .inl rfl
  | cons b l ih =>
    rcases ih (if best.1 < count b then (count b, some b) else best) with h | ⟨a, ha, hlt, h⟩
    · by_cases hb : best.1 < count b
      · rw [if_pos hb] at h
        exact .inr ⟨b, .head _, hb, by rw [search, if_pos hb, h]⟩
      · rw [if_neg hb] at h
        exact .inl (by rw [search, if_neg hb, h])
    · refine .inr ⟨a, List.mem_cons_of_mem b ha, ?_, h⟩
      refine lt_of_le_of_lt ?_ hlt
      split_ifs with hb
      · exact le_of_lt hb
      · exact le_rfl

theorem exists_of_lt_search {l : List α} {bar : τ} {first : Option α}
    (h : bar < (search count l (bar, first)).1) :
    ∃ a ∈ l, search count l (bar, first) = (count a, some a) := by
  rcases search_found count l (bar, first) with hb | ⟨a, ha, _, hs⟩
  · rw [hb] at h
    exact absurd h (lt_irrefl _)
  · exact ⟨a, ha, hs⟩

end Highest
