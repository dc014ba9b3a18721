/-
# `Lib.Reading` — checks that may read out of bounds

A check rejects with an error or goes on with a value; one that reads has no result at all where
it reads out of bounds.

    Reading ε α      such a check
    InBounds c       it reads nothing out of bounds
    Computes c t     whatever it gives without that is what `t` gives, a check that reads nothing

A sequence is in bounds if its first part is, and the rest where the first part lets it go on
(`inBounds_bind`): so for a check with a total counterpart one asks, read by read, what the total
checks before it let through.  `AtEach l P` says so for a loop: `P before x` for each element, with
those before it.
-/
import Mathlib.Data.List.Basic

/-- A check that reads: nothing where it reads out of bounds, an error where it rejects. -/
abbrev Reading (ε α : Type) := ExceptT ε Option α

namespace Reading

open List ExceptT

variable {ε α β : Type}

/-- What may not be there. -/
def read (o : Option α) : Reading ε α := ExceptT.mk (o.map Except.ok)

def reject (bad : Bool) (reason : ε) : Reading ε Unit :=
  ExceptT.mk (some (if bad then .error reason else .ok ()))

def fail (reason : ε) : Reading ε α := ExceptT.mk (some (.error reason))

/-- A check that reads nothing. -/
def total (t : Except ε α) : Reading ε α := ExceptT.mk (some t)

def InBounds (c : Reading ε α) : Prop := (ExceptT.run c).isSome

def Computes (c : Reading ε α) (t : Except ε α) : Prop := ∀ r, ExceptT.run c = some r → r = t

section
variable {c : Reading ε α} {k : α → Reading ε β} {t : Except ε α} {u : α → Except ε β}

theorem run_bind_none (h : run c = none) : run (c >>= k) = none := by
  rw [run_bind, h]
  rfl

theorem run_bind_error {e : ε} (h : run c = some (.error e)) :
    run (c >>= k) = some (.error e) := by
  rw [run_bind, h]
  rfl

variable {a : α}

theorem run_bind_ok (h : run c = some (.ok a)) :
    run (c >>= k) = run (k a) := by
  rw [run_bind, h]
  rfl

/-- **A sequence** is in bounds if its first part is, and the rest where it is reached. -/
theorem inBounds_bind (hc : Computes c t) :
    InBounds (c >>= k) ↔ InBounds c ∧ ∀ a, t = .ok a → InBounds (k a) := by
  unfold InBounds
  cases hrun : run c with
  | none =>
    rw [run_bind_none hrun]
    exact ⟨nofun, fun h => (nomatch h.1)⟩
  | some r =>
    obtain rfl := hc r hrun
    cases r with
    | error e =>
      rw [run_bind_error hrun]
      exact ⟨fun _ => ⟨rfl, nofun⟩, fun _ => rfl⟩
    | ok a =>
      rw [run_bind_ok hrun]
      constructor
      · intro h
        refine ⟨rfl, ?_⟩
        rintro _ ⟨⟩
        exact h
      · intro h
        exact h.2 a rfl

theorem computes_bind (hc : Computes c t) (hk : ∀ a, t = .ok a → Computes (k a) (u a)) :
    Computes (c >>= k) (t >>= u) := by
  intro r hr
  cases hrun : run c with
  | none =>
    rw [run_bind_none hrun] at hr
    cases hr
  | some r' =>
    obtain rfl := hc r' hrun
    cases r' with
    | error e =>
      rw [run_bind_error hrun] at hr
      exact (Option.some.inj hr).symm
    | ok a =>
      rw [run_bind_ok hrun] at hr
      exact hk a rfl r hr

end

/-! ## Single steps -/

theorem inBounds_pure (a : α) : InBounds (pure a : Reading ε α) := rfl

theorem computes_pure (a : α) : Computes (pure a : Reading ε α) (.ok a) := by
  rintro r ⟨⟩
  rfl

variable {o : Option α}

theorem inBounds_read : InBounds (read o : Reading ε α) ↔ o.isSome := by
  cases o with
  | none => exact Iff.rfl
  | some a => exact Iff.rfl

theorem computes_read (h : ∀ b, o = some b → b = a) :
    Computes (read o : Reading ε α) (.ok a) := by
  intro r hr
  cases o with
  | none => cases hr
  | some b =>
    obtain rfl := h b rfl
    exact (Option.some.inj hr).symm

theorem inBounds_reject (bad : Bool) (reason : ε) : InBounds (reject bad reason) := rfl

theorem computes_reject (bad : Bool) (reason : ε) :
    Computes (reject bad reason) (if bad then .error reason else .ok ()) := by
  intro r hr
  exact (Option.some.inj hr).symm

theorem inBounds_fail (reason : ε) : InBounds (fail reason : Reading ε α) := rfl

theorem computes_fail (reason : ε) : Computes (fail reason : Reading ε α) (.error reason) := by
  rintro r ⟨⟩
  rfl

theorem inBounds_total (t : Except ε α) : InBounds (total t) := rfl

theorem computes_total (t : Except ε α) : Computes (total t) t := by
  rintro r ⟨⟩
  rfl

theorem inBounds_read_bind (h : ∀ b, o = some b → b = a)
    {k : α → Reading ε β} : InBounds (read o >>= k) ↔ o.isSome ∧ InBounds (k a) := by
  rw [inBounds_bind (computes_read h), inBounds_read]
  constructor
  · rintro ⟨hsome, hk⟩
    exact ⟨hsome, hk a rfl⟩
  · rintro ⟨hsome, hk⟩
    refine ⟨hsome, ?_⟩
    rintro _ ⟨⟩
    exact hk

theorem inBounds_read_last {k : α → Reading ε β} (hk : ∀ a, InBounds (k a)) :
    InBounds (read o >>= k) ↔ o.isSome := by
  cases o with
  | none => exact Iff.rfl
  | some a => exact iff_of_true (hk a) rfl

theorem computes_read_bind (h : ∀ b, o = some b → b = a)
    {k : α → Reading ε β} {t : Except ε β} (hk : Computes (k a) t) :
    Computes (read o >>= k) t := by
  refine computes_bind (u := fun _ => t) (computes_read h) ?_
  rintro _ ⟨⟩
  exact hk

theorem inBounds_reject_bind {bad : Bool} {reason : ε} {k : Unit → Reading ε β} :
    InBounds (reject bad reason >>= k) ↔ (bad = false → InBounds (k ())) := by
  rw [inBounds_bind (computes_reject bad reason)]
  cases bad with
  | true => exact ⟨nofun, fun _ => ⟨rfl, nofun⟩⟩
  | false =>
    refine ⟨fun h _ => h.2 () rfl, fun h => ⟨rfl, ?_⟩⟩
    rintro _ _
    exact h rfl

/-! ## Each element, with those before it -/

def AtEach (l : List α) (P : List α → α → Prop) : Prop :=
  ∀ before x after, l = before ++ x :: after → P before x

theorem atEach_nil (P : List α → α → Prop) : AtEach [] P := by
  intro before x after h
  exact absurd h.symm (append_ne_nil_of_right_ne_nil before (cons_ne_nil x after))

theorem atEach_cons {x : α} {l : List α} {P : List α → α → Prop} :
    AtEach (x :: l) P ↔ P [] x ∧ AtEach l fun before y => P (x :: before) y := by
  constructor
  · intro h
    refine ⟨h [] x l rfl, ?_⟩
    intro before y after hl
    exact h (x :: before) y after (congrArg (x :: ·) hl)
  · rintro ⟨hx, hrest⟩ before y after hl
    cases before with
    | nil =>
      obtain ⟨rfl, -⟩ := cons.inj hl
      exact hx
    | cons z before =>
      obtain ⟨rfl, htail⟩ := cons.inj hl
      exact hrest before y after htail

theorem atEach_congr {l : List α} {P Q : List α → α → Prop}
    (h : ∀ before x, P before x ↔ Q before x) : AtEach l P ↔ AtEach l Q :=
  ⟨fun hl before x after heq => (h before x).mp (hl before x after heq),
    fun hl before x after heq => (h before x).mpr (hl before x after heq)⟩

section
variable {σ : Type} {f : σ → α → Reading ε σ} {g : σ → α → Except ε σ}

section
variable (hf : ∀ s x, Computes (f s x) (g s x)) (s : σ) (l : List α)
include hf s l

theorem computes_foldlM :
    Computes (l.foldlM f s) (l.foldlM g s) := by
  induction l generalizing s with
  | nil => exact computes_pure s
  | cons x l ih =>
    exact computes_bind (hf s x) fun s' _ => ih s'

/-- **A loop** is in bounds if each of its rounds is that the rounds before let it come to. -/
theorem inBounds_foldlM :
    InBounds (l.foldlM f s) ↔
      AtEach l fun before x => ∀ s', before.foldlM g s = .ok s' → InBounds (f s' x) := by
  induction l generalizing s with
  | nil => exact iff_of_true (inBounds_pure s) (atEach_nil _)
  | cons x l ih =>
    rw [foldlM_cons, inBounds_bind (hf s x), atEach_cons]
    have hfirst : (∀ s', ([] : List α).foldlM g s = .ok s' → InBounds (f s' x)) ↔
        InBounds (f s x) := by
      constructor
      · intro h
        exact h s rfl
      · rintro h _ ⟨⟩
        exact h
    rw [hfirst]
    refine and_congr_right fun _ => ?_
    constructor
    · intro h before y after hl s' hs'
      rw [foldlM_cons] at hs'
      cases hg : g s x with
      | error e =>
        rw [hg] at hs'
        cases hs'
      | ok s₁ =>
        rw [hg] at hs'
        exact (ih s₁).mp (h s₁ hg) before y after hl s' hs'
    · intro h s₁ hg
      refine (ih s₁).mpr ?_
      intro before y after hl s' hs'
      refine h before y after hl s' ?_
      rw [foldlM_cons, hg]
      exact hs'

end

theorem foldlM_reject (p : α → Bool) (reason : ε) (l : List α) :
    l.foldlM (fun _ x => if p x then .error reason else .ok () : Unit → α → Except ε Unit) () =
      if l.any p then .error reason else .ok () := by
  induction l with
  | nil => rfl
  | cons x l ih =>
    rw [foldlM_cons, any_cons]
    cases p x with
    | true => rfl
    | false => exact ih

end

end Reading
