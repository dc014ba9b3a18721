/-
# `Lib.Memo` — answers that are kept for good

A question about a world that changes is put to the world once.  The answer is kept under
the question and given again, whatever the world has become; a question the world has no
answer to is not kept.

    ask f w m k     the answer from the table `m`, else from the world `w`
    table f asked   what is kept after the questions `asked`, each with its world
    first f asked k the first answer any of these worlds gave to `k`

What is kept is the first answer (`table_eq_first`), so that a later world is reported
truly exactly when it still gives that answer (`ask_table_iff`).
-/
import Mathlib.Data.List.Induction

namespace Memo

variable {ω κ α : Type*} [DecidableEq κ]

def ask (f : ω → κ → Option α) (w : ω) (m : κ → Option α) (k : κ) : Option α × (κ → Option α) :=
  match m k with
  | some a => (some a, m)
  | none =>
    match f w k with
    | some a => (some a, Function.update m k (some a))
    | none => (none, m)

def table (f : ω → κ → Option α) (asked : List (ω × κ)) : κ → Option α :=
  asked.foldl (fun m q => (ask f q.1 m q.2).2) fun _ => none

/-- The answer of one of the worlds, if it was asked `k`. -/
def answer (f : ω → κ → Option α) (k : κ) (q : ω × κ) : Option α :=
  if q.2 = k then f q.1 k else none

def first (f : ω → κ → Option α) (asked : List (ω × κ)) (k : κ) : Option α :=
  asked.findSome? (answer f k)

section
variable {f : ω → κ → Option α} {m : κ → Option α} {asked : List (ω × κ)} {w : ω} {k : κ}

theorem ask_fst : (ask f w m k).1 = (m k).or (f w k) := by
  rw [ask]
  cases m k with
  | some a => rfl
  | none => cases f w k <;> rfl

theorem ask_snd (k' : κ) : (ask f w m k).2 k' = (m k').or (answer f k' (w, k)) := by
  rw [ask, answer]
  cases hk : m k with
  | some a =>
    rcases eq_or_ne k k' with rfl | hne
    · show m k = _
      rw [hk, Option.some_or]
    · rw [if_neg hne, Option.or_none]
  | none =>
    rcases eq_or_ne k k' with rfl | hne
    · rw [if_pos rfl, hk]
      cases f w k with
      | some a => exact Function.update_self k (some a) m
      | none => exact hk
    · rw [if_neg hne, Option.or_none]
      cases f w k with
      | some a => exact Function.update_of_ne hne.symm (some a) m
      | none => rfl

theorem table_concat (q : ω × κ) :
    table f (asked ++ [q]) = (ask f q.1 (table f asked) q.2).2 := List.foldl_append

theorem first_concat (q : ω × κ) :
    first f (asked ++ [q]) k = (first f asked k).or (answer f k q) := by
  rw [first, List.findSome?_append]
  refine congrArg _ ?_
  rw [List.findSome?_cons]
  cases answer f k q <;> rfl

theorem table_eq_first (k : κ) : table f asked k = first f asked k := by
  induction asked using List.reverseRecOn with
  | nil => rfl
  | append_singleton asked q ih => rw [table_concat, first_concat, ask_snd, ih]

theorem ask_table_iff :
    (ask f w (table f asked) k).1 = f w k ↔ ∀ a, first f asked k = some a → f w k = some a := by
  rw [ask_fst, table_eq_first]
  cases first f asked k with
  | none =>
    constructor
    · intro _ a ha
      exact nomatch ha
    · intro _
      rfl
  | some b =>
    constructor
    · intro h a ha
      exact h.symm.trans ha
    · intro h
      exact (h b rfl).symm

end

end Memo
