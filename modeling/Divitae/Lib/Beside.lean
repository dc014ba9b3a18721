/-
# `Lib.Beside` — a run beside the run without some of its inputs

Some inputs of a system should make no difference (`bad`).  The run with them and the run
without them go side by side,

    node     takes every input
    other    takes those that are not `bad`
    taken    what the bad inputs took from `node`, and `other` still has

and `same_iff` is the rule for comparing them: as long as no input asks for what was taken the
two agree, and the first one that does tells them apart.
-/
import Divitae.Lib.Run

namespace Beside

open List

variable {σ ι κ : Type*}

/-- The inputs that are not `bad`. -/
def without (bad : ι → Bool) (is : List ι) : List ι := is.filter fun i => !bad i

structure Pair (σ κ : Type*) where
  node : σ
  other : σ
  taken : κ → Prop

section
variable (f : σ → ι → σ) (bad : ι → Bool) (take : σ → ι → (κ → Prop) → κ → Prop)

def step (p : Pair σ κ) (i : ι) : Pair σ κ where
  node := f p.node i
  other := if bad i then p.other else f p.other i
  taken := take p.node i p.taken

/-- Both sides agree after every prefix of the inputs. -/
def SameThroughout (Same : σ → σ → Prop) (s u : σ) (is : List ι) : Prop :=
  ∀ past, past <+: is → Same (past.foldl f s) ((without bad past).foldl f u)

end

section
variable {f : σ → ι → σ} {bad : ι → Bool} {take : σ → ι → (κ → Prop) → κ → Prop}
  {Same : σ → σ → Prop}

theorem sameThroughout_nil (s u : σ) : SameThroughout f bad Same s u [] ↔ Same s u := by
  constructor
  · intro h
    exact h [] nil_prefix
  · intro h past hpast
    rw [prefix_nil.mp hpast]
    exact h

theorem sameThroughout_cons (s u : σ) (i : ι) (is : List ι) :
    SameThroughout f bad Same s u (i :: is) ↔
      Same s u ∧ SameThroughout f bad Same (f s i) (if bad i then u else f u i) is := by
  have hrest (past : List ι) : (without bad (i :: past)).foldl f u =
      (without bad past).foldl f (if bad i then u else f u i) := by
    unfold without
    cases hbad : bad i with
    | true => simp [hbad]
    | false => simp [hbad]
  constructor
  · intro h
    refine ⟨h [] nil_prefix, ?_⟩
    intro past hpast
    have hmore := h (i :: past) ((prefix_cons_inj i).mpr hpast)
    rw [hrest] at hmore
    exact hmore
  · rintro ⟨hsame, h⟩ past hpast
    cases past with
    | nil => exact hsame
    | cons j past =>
      obtain ⟨rfl, htail⟩ := cons_prefix_cons.mp hpast
      rw [hrest]
      exact h past htail

/-- **The rule of two runs.**  `Rel` ties the sides to each other and to what was taken; an
input that is `ok` keeps it, and one that is not tells the sides apart. -/
theorem same_iff {Rel : Pair σ κ → Prop} {ok : Pair σ κ → ι → Prop}
    (hsame : ∀ p, Rel p → Same p.node p.other)
    (hkeep : ∀ p i, Rel p → ok p i → Rel (step f bad take p i))
    (hpart : ∀ p i, Rel p → ¬ ok p i →
      ¬ Same (step f bad take p i).node (step f bad take p i).other)
    {p : Pair σ κ} {is : List ι} (hp : Rel p) :
    SameThroughout f bad Same p.node p.other is ↔ Run.Guarded (step f bad take) ok p is := by
  induction is generalizing p with
  | nil =>
    rw [sameThroughout_nil]
    exact iff_of_true (hsame p hp) trivial
  | cons i is ih =>
    rw [sameThroughout_cons, Run.guarded_cons]
    constructor
    · rintro ⟨-, h⟩
      have hok : ok p i := by
        by_contra hnot
        exact hpart p i hp hnot (h [] nil_prefix)
      exact ⟨hok, (ih (hkeep p i hp hok)).mp h⟩
    · rintro ⟨hok, h⟩
      exact ⟨hsame p hp, (ih (hkeep p i hp hok)).mpr h⟩

end

end Beside
