/-
# `Lib.Run` — deterministic runs and the invariants they keep

A transition system is a function `step : σ → ι → σ`; its run over a list of
inputs is `List.foldl step`.  Two rules carry every whole-run result:

    Guarded ok s is   each step of the run from `s` over `is` meets `ok`
    run_inv           a step lemma under `ok` gives a run lemma
    guarded_of_inv    and what the invariant says of a step, for every step
    run_hist_inv      the same, for an invariant that also reads the inputs so far
    guarded_iff       a step lemma with "exactly under `ok`" gives a run lemma with it
    guarded_iff_under the same, for runs whose steps meet an assumption

`ok` sees the state *before* the step and the input, nothing else.
-/
import Mathlib.Data.List.Basic

namespace Run

open List

variable {σ ι : Type*}

/-- Every step of the run over `is` from `s` meets `ok`. -/
def Guarded (step : σ → ι → σ) (ok : σ → ι → Prop) : σ → List ι → Prop
  | _, [] => True
  | s, i :: is => ok s i ∧ Guarded step ok (step s i) is

section
variable {step : σ → ι → σ} {ok ok' : σ → ι → Prop}

@[simp] theorem guarded_nil (s : σ) : Guarded step ok s [] := trivial

@[simp] theorem guarded_cons (s : σ) (i : ι) (is : List ι) :
    Guarded step ok s (i :: is) ↔ ok s i ∧ Guarded step ok (step s i) is := Iff.rfl

theorem guarded_append (s : σ) (is js : List ι) :
    Guarded step ok s (is ++ js) ↔ Guarded step ok s is ∧ Guarded step ok (is.foldl step s) js := by
  induction is generalizing s with
  | nil => simp
  | cons i is ih => simp [ih, and_assoc]

theorem Guarded.mono (h : ∀ s i, ok s i → ok' s i) :
    ∀ {s : σ} {is : List ι}, Guarded step ok s is → Guarded step ok' s is
  | _, [], _ => trivial
  | s, i :: _, hg => ⟨h s i hg.1, Guarded.mono h hg.2⟩

theorem Guarded.and : ∀ {s : σ} {is : List ι}, Guarded step ok s is → Guarded step ok' s is →
    Guarded step (fun s i => ok s i ∧ ok' s i) s is
  | _, [], _, _ => trivial
  | _, _ :: _, h, h' => ⟨⟨h.1, h'.1⟩, Guarded.and h.2 h'.2⟩

theorem guarded_of_forall {p : ι → Prop} {s : σ} {is : List ι} (h : ∀ i ∈ is, p i) :
    Guarded step (fun _ i => p i) s is := by
  induction is generalizing s with
  | nil => exact guarded_nil s
  | cons i is ih =>
    exact ⟨h i mem_cons_self, ih fun j hj => h j (mem_cons_of_mem i hj)⟩

/-- **The run rule.**  What one guarded step preserves, a guarded run preserves. -/
theorem run_inv {I : σ → Prop} (hstep : ∀ s i, I s → ok s i → I (step s i))
    {s : σ} {is : List ι} (hI : I s) (hg : Guarded step ok s is) : I (is.foldl step s) := by
  induction is generalizing s with
  | nil => exact hI
  | cons i is ih => exact ih (hstep s i hI hg.1) hg.2

/-- **The run rule with history.**  `I past s`: the invariant may read the inputs
consumed so far, oldest first. -/
theorem run_hist_inv {I : List ι → σ → Prop}
    (hstep : ∀ past s i, I past s → ok s i → I (past ++ [i]) (step s i))
    {past : List ι} {s : σ} {is : List ι} (hI : I past s) (hg : Guarded step ok s is) :
    I (past ++ is) (is.foldl step s) := by
  induction is generalizing past s with
  | nil => simpa using hI
  | cons i is ih => simpa using ih (hstep past s i hI hg.1) hg.2

/-- `P` holds in every state the run over `is` reaches from `s`, the first included. -/
def Throughout (step : σ → ι → σ) (P : σ → Prop) (s : σ) (is : List ι) : Prop :=
  ∀ past, past <+: is → P (past.foldl step s)

theorem throughout_nil {P : σ → Prop} (s : σ) : Throughout step P s [] ↔ P s := by
  constructor
  · intro h
    exact h [] (prefix_refl [])
  · intro h past hpast
    rw [prefix_nil.mp hpast]
    exact h

theorem throughout_cons {P : σ → Prop} (s : σ) (i : ι) (is : List ι) :
    Throughout step P s (i :: is) ↔ P s ∧ Throughout step P (step s i) is := by
  constructor
  · intro h
    refine ⟨h [] nil_prefix, ?_⟩
    intro past hpast
    exact h (i :: past) (prefix_cons_inj i |>.mpr hpast)
  · rintro ⟨hP, h⟩ past hpast
    cases past with
    | nil => exact hP
    | cons j past =>
      obtain ⟨rfl, hrest⟩ := cons_prefix_cons.mp hpast
      exact h past hrest

theorem throughout_of_guarded {P : σ → Prop} (hstep : ∀ s i, P s → ok s i → P (step s i))
    {s : σ} {is : List ι} (hP : P s) (hg : Guarded step ok s is) : Throughout step P s is := by
  induction is generalizing s with
  | nil => exact (throughout_nil s).mpr hP
  | cons i is ih => exact (throughout_cons s i is).mpr ⟨hP, ih (hstep s i hP hg.1) hg.2⟩

theorem guarded_of_inv {I : σ → Prop} (hstep : ∀ s i, I s → ok s i → I (step s i))
    (hok : ∀ s i, I s → ok s i → ok' s i) {s : σ} {is : List ι} (hI : I s)
    (hg : Guarded step ok s is) : Guarded step ok' s is := by
  induction is generalizing s with
  | nil => exact guarded_nil s
  | cons i is ih => exact ⟨hok s i hI hg.1, ih (hstep s i hI hg.1) hg.2⟩

/-- **The exact run rule, under assumptions.**  Where a step keeps `P` exactly when it
meets `ok`, the runs that keep `P` throughout are the guarded ones.  The steps all meet
`A`, and `I` holds as long as `P` does. -/
theorem guarded_iff_under {I P : σ → Prop} {A : σ → ι → Prop}
    (hI : ∀ s i, I s → P s → A s i → P (step s i) → I (step s i))
    (hstep : ∀ s i, I s → P s → A s i → (P (step s i) ↔ ok s i)) {s : σ} {is : List ι}
    (hs : I s) (hP : P s) (hasm : Guarded step A s is) :
    Throughout step P s is ↔ Guarded step ok s is := by
  induction is generalizing s with
  | nil => simp [throughout_nil, hP]
  | cons i is ih =>
    obtain ⟨ha, hrest⟩ := hasm
    rw [throughout_cons, guarded_cons]
    constructor
    · rintro ⟨-, h⟩
      have hnext : P (step s i) := h [] nil_prefix
      exact ⟨(hstep s i hs hP ha).mp hnext, (ih (hI s i hs hP ha hnext) hnext hrest).mp h⟩
    · rintro ⟨hok, h⟩
      have hnext : P (step s i) := (hstep s i hs hP ha).mpr hok
      exact ⟨hP, (ih (hI s i hs hP ha hnext) hnext hrest).mpr h⟩

/-- **The exact run rule.**  `I` holds whatever the steps are. -/
theorem guarded_iff {I P : σ → Prop} (hI : ∀ s i, I s → I (step s i))
    (hstep : ∀ s i, I s → P s → (P (step s i) ↔ ok s i)) {s : σ} {is : List ι}
    (hs : I s) (hP : P s) : Throughout step P s is ↔ Guarded step ok s is :=
  guarded_iff_under (A := fun _ _ => True) (fun s i h _ _ _ => hI s i h)
    (fun s i h hP _ => hstep s i h hP) hs hP
    (guarded_of_forall (p := fun _ => True) fun _ _ => trivial)

end

end Run
