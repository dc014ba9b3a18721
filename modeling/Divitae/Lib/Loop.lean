/-
# `Lib.Loop` — loops that need not end

The body of a loop takes a state to another state or to a result, `body : σ → σ ⊕ ρ`.

    run body fuel s      the result after at most `fuel` rounds
    Returns body s r     the loop entered at `s` ends with `r`
    forEach body s l     a loop over a list, whose body may return (`forEach_inv`)

A round that goes on changes nothing about what is returned (`returns_inl`), and `Enters body s s'`
holds of the states its rounds begin in.  A loop whose rounds
are counted, and are not arbitrarily many, ends (`returns_of_rounds`), as does one whose rounds
climb (`returns_of_climb`); one whose rounds always lead on to another does not
(`not_returns_of_kept`), and neither does a state that the body leaves as it is
(`not_returns_of_stays`).
-/
import Mathlib.Order.Basic

namespace Loop

open List

variable {σ ρ : Type*}

/-- The result, if it comes within `fuel` rounds. -/
def run (body : σ → σ ⊕ ρ) : Nat → σ → Option ρ
  | 0, _ => none
  | fuel + 1, s =>
    match body s with
    | .inl s' => run body fuel s'
    | .inr r => some r

/-- The loop ends, with this result. -/
def Returns (body : σ → σ ⊕ ρ) (s : σ) (r : ρ) : Prop := ∃ fuel, run body fuel s = some r

section
variable {body : σ → σ ⊕ ρ} {s s' : σ} {r r' : ρ}

theorem run_inl (h : body s = .inl s') (fuel : Nat) : run body (fuel + 1) s = run body fuel s' := by
  rw [run, h]

theorem run_inr (h : body s = .inr r) (fuel : Nat) : run body (fuel + 1) s = some r := by
  rw [run, h]

theorem returns_inr (h : body s = .inr r) : Returns body s r' ↔ r = r' := by
  constructor
  · rintro ⟨fuel, hrun⟩
    cases fuel with
    | zero => cases hrun
    | succ fuel => exact Option.some.inj ((run_inr h fuel).symm.trans hrun)
  · rintro rfl
    exact ⟨1, run_inr h 0⟩

theorem returns_inl (h : body s = .inl s') : Returns body s r ↔ Returns body s' r := by
  constructor
  · rintro ⟨fuel, hrun⟩
    cases fuel with
    | zero => cases hrun
    | succ fuel => exact ⟨fuel, (run_inl h fuel).symm.trans hrun⟩
  · rintro ⟨fuel, hrun⟩
    exact ⟨fuel + 1, (run_inl h fuel).trans hrun⟩

theorem returns_unique (h : Returns body s r) (h' : Returns body s r') : r = r' := by
  obtain ⟨fuel, hrun⟩ := h
  induction fuel generalizing s with
  | zero => cases hrun
  | succ fuel ih =>
    cases hbody : body s with
    | inl s' => exact ih ((returns_inl hbody).mp h') ((run_inl hbody fuel).symm.trans hrun)
    | inr r₀ =>
      have hr : r₀ = r := Option.some.inj ((run_inr hbody fuel).symm.trans hrun)
      exact hr.symm.trans ((returns_inr hbody).mp h')

/-- **The rule for what comes out.**  What each round keeps, the last one finds. -/
theorem returns_inv {K : σ → Prop} {G : ρ → Prop}
    (hstep : ∀ s, K s → (∃ s', body s = .inl s' ∧ K s') ∨ ∃ r, body s = .inr r ∧ G r)
    (hs : K s) (h : Returns body s r) : G r := by
  obtain ⟨fuel, hrun⟩ := h
  induction fuel generalizing s with
  | zero => cases hrun
  | succ fuel ih =>
    rcases hstep s hs with ⟨s', hbody, hs'⟩ | ⟨r', hbody, hr'⟩
    · exact ih hs' ((run_inl hbody fuel).symm.trans hrun)
    · rw [run_inr hbody] at hrun
      exact Option.some.inj hrun ▸ hr'

/-- The states in which the rounds of a loop begin. -/
inductive Enters (body : σ → σ ⊕ ρ) (s : σ) : σ → Prop
  | here : Enters body s s
  | next {s' s'' : σ} (h : Enters body s s') (hbody : body s' = .inl s'') : Enters body s s''

theorem Enters.returns (h : Enters body s s') (hreturns : Returns body s r) :
    Returns body s' r := by
  induction h with
  | here => exact hreturns
  | next _ hbody ih => exact (returns_inl hbody).mp ih

theorem not_returns_of_kept {K : σ → Prop} (hkept : ∀ s, K s → ∃ s', body s = .inl s' ∧ K s')
    (hs : K s) (r : ρ) : ¬ Returns body s r := by
  rintro ⟨fuel, hrun⟩
  induction fuel generalizing s with
  | zero => cases hrun
  | succ fuel ih =>
    obtain ⟨s', hbody, hs'⟩ := hkept s hs
    exact ih hs' ((run_inl hbody fuel).symm.trans hrun)

theorem not_returns_of_stays (h : body s = .inl s) (r : ρ) : ¬ Returns body s r := by
  refine @not_returns_of_kept _ _ _ _ (fun s' => s' = s) ?_ rfl r
  rintro _ rfl
  exact ⟨_, h, rfl⟩

/-- **Rounds that are counted.**  A loop ends well that ends well or goes on to the next round,
where there are not arbitrarily many. -/
theorem returns_of_rounds {I : Nat → σ → Prop} {Good : ρ → Prop} {n : Nat}
    (hround : ∀ i s, I i s →
      (∃ r, body s = .inr r ∧ Good r) ∨ ∃ s', body s = .inl s' ∧ I (i + 1) s')
    (hbound : ∀ i s, I i s → i < n) {i : Nat} (hs : I i s) : ∃ r, Returns body s r ∧ Good r := by
  -- induction on the rounds that are left
  induction hleft : n - i generalizing i s with
  | zero =>
    have hlt := hbound i s hs
    omega
  | succ left ih =>
    rcases hround i s hs with ⟨r, hbody, hgood⟩ | ⟨s', hbody, hs'⟩
    · exact ⟨r, (returns_inr hbody).mpr rfl, hgood⟩
    · obtain ⟨r, hreturns, hgood⟩ := ih hs' (by omega)
      exact ⟨r, (returns_inl hbody).mpr hreturns, hgood⟩

/-- **Rounds that climb.**  A loop ends well where each round that is not the last raises `a`, or
leaves it and raises `b`, and both are bounded. -/
theorem returns_of_climb {I : σ → Prop} {Good : ρ → Prop} (a b : σ → Nat) (A B : Nat)
    (hround : ∀ s, I s → (∃ r, body s = .inr r ∧ Good r) ∨
      ∃ s', body s = .inl s' ∧ I s' ∧ (a s < a s' ∨ (a s ≤ a s' ∧ b s < b s')))
    (hbound : ∀ s, I s → a s ≤ A ∧ b s ≤ B) (hs : I s) : ∃ r, Returns body s r ∧ Good r := by
  -- the rounds so far are no more than `a` and `b`, read as the digits of a number
  refine @returns_of_rounds _ _ body s (fun i s => I s ∧ i ≤ a s * (B + 1) + b s) Good
    (A * (B + 1) + B + 1) ?_ ?_ 0 ⟨hs, Nat.zero_le _⟩
  · rintro i s ⟨hs, hi⟩
    rcases hround s hs with hlast | ⟨s', hbody, hs', hclimb⟩
    · exact .inl hlast
    · refine .inr ⟨s', hbody, hs', ?_⟩
      have hb := (hbound s hs).2
      rcases hclimb with ha | ⟨ha, hb'⟩
      · have hdigit := Nat.mul_le_mul_right (B + 1) (Nat.succ_le_of_lt ha)
        rw [Nat.succ_mul] at hdigit
        omega
      · have hdigit := Nat.mul_le_mul_right (B + 1) ha
        omega
  · rintro i s ⟨hs, hi⟩
    obtain ⟨ha, hb⟩ := hbound s hs
    have hdigit := Nat.mul_le_mul_right (B + 1) ha
    omega

end

/-! ## Loops over a list -/

def forEach {α : Type*} (body : σ → α → σ ⊕ ρ) : σ → List α → σ ⊕ ρ
  | s, [] => .inl s
  | s, x :: l =>
    match body s x with
    | .inl s' => forEach body s' l
    | .inr r => .inr r

section
variable {α : Type*} {body : σ → α → σ ⊕ ρ} {s s' : σ} {r : ρ} {x : α}

theorem forEach_inl (h : body s x = .inl s') (l : List α) :
    forEach body s (x :: l) = forEach body s' l := by
  rw [forEach, h]

theorem forEach_inr (h : body s x = .inr r) (l : List α) : forEach body s (x :: l) = .inr r := by
  rw [forEach, h]

theorem forEach_append (body : σ → α → σ ⊕ ρ) (s : σ) (l l' : List α) :
    forEach body s (l ++ l') =
      match forEach body s l with
      | .inl s' => forEach body s' l'
      | .inr r => .inr r := by
  induction l generalizing s with
  | nil => rfl
  | cons x l ih =>
    rw [cons_append]
    cases hbody : body s x with
    | inl s' => rw [forEach_inl hbody, forEach_inl hbody, ih]
    | inr r => rw [forEach_inr hbody, forEach_inr hbody]

/-- **The rule for a loop over a list.**  The invariant reads the elements that have been. -/
theorem forEach_inv {I : List α → σ → Prop} {E : ρ → Prop} {past l : List α}
    (hstep : ∀ past x, x ∈ l → ∀ s, I past s →
      (∃ s', body s x = .inl s' ∧ I (past ++ [x]) s') ∨ ∃ r, body s x = .inr r ∧ E r)
    (hs : I past s) :
    (∃ s', forEach body s l = .inl s' ∧ I (past ++ l) s') ∨
      ∃ r, forEach body s l = .inr r ∧ E r := by
  induction l generalizing past s with
  | nil => exact .inl ⟨s, rfl, by rwa [append_nil]⟩
  | cons x l ih =>
    rcases hstep past x mem_cons_self s hs with ⟨s', hbody, hs'⟩ | ⟨r, hbody, hr⟩
    · rw [forEach_inl hbody]
      have hrest := ih (fun past y hy => hstep past y (mem_cons_of_mem x hy)) hs'
      rwa [append_assoc, singleton_append] at hrest
    · exact .inr ⟨r, forEach_inr hbody l, hr⟩

end

theorem foldl_range_inv {f : σ → Nat → σ} {I : Nat → σ → Prop} {n : Nat} {s : σ}
    (hstep : ∀ i s, i < n → I i s → I (i + 1) (f s i)) (hs : I 0 s) :
    I n ((List.range n).foldl f s) := by
  induction n with
  | zero => exact hs
  | succ n ih =>
    rw [range_succ, foldl_append]
    exact hstep n _ (Nat.lt_succ_self n) (ih fun i s hi => hstep i s (Nat.lt_succ_of_lt hi))

end Loop
