/-
# `Lib.SkipList` — back pointers and the short cuts beside them

Every member points back at the one before it, and its height counts the steps down to the
first.

    back n x     `n` steps back from `x`
    Grounded     a step lowers the height by one; only at height 0 there is none
    climb        back to a height, by steps and by short cuts
    meet         two members go back side by side until they are one
    trail        the members up to one, collected backwards

    climb_eq_back    where short cuts lead where steps would, the climb does too
    meet_spec        with one member at height 0, two of one height meet, and at the first
                     place where they can
    Lineage          the member below `x` at each height

Every round of the climb lowers the height, so as many rounds as there are heights to go are
enough.
-/
import Mathlib.Data.List.Basic

namespace SkipList

open Option

variable {α : Type*}

section
variable (pprev : α → Option α)

/-- `n` steps back. -/
def back : ℕ → α → Option α
  | 0, x => some x
  | n + 1, x => (pprev x).bind (back n)

/-- Back to `target` in at most `fuel` rounds; where `takes` says so by the short cut, which
leads to the height `skipTo`. -/
def climb (pskip : α → Option α) (skipTo : ℕ → ℕ) (takes : ℕ → Bool) (target : ℕ) :
    ℕ → α → ℕ → Option α
  | fuel, x, height =>
    if height ≤ target then some x
    else
      match fuel with
      | 0 => none
      | fuel + 1 =>
        if takes height then
          (pskip x).bind fun y => climb pskip skipTo takes target fuel y (skipTo height)
        else (pprev x).bind fun y => climb pskip skipTo takes target fuel y (height - 1)

/-- Back side by side, in at most `fuel` rounds. -/
def meet [DecidableEq α] : ℕ → α → α → Option α
  | fuel, a, b =>
    if a = b then some a
    else
      match fuel with
      | 0 => none
      | fuel + 1 => (pprev a).bind fun a' => (pprev b).bind fun b' => meet fuel a' b'

/-- The `n + 1` members up to `x`, in front of those collected so far. -/
def trail : ℕ → α → List α → Option (List α)
  | 0, x, l => some (x :: l)
  | n + 1, x, l => (pprev x).bind fun y => trail n y (x :: l)

end

variable {pprev pprev' pskip : α → Option α} {member : α → Prop} {height : α → ℕ} {x y : α}
  {skipTo : ℕ → ℕ} {takes : ℕ → Bool} {f : ℕ → α}

/-! ## Steps -/

theorem back_add (m n : ℕ) (x : α) :
    back pprev (m + n) x = (back pprev m x).bind (back pprev n) := by
  induction m generalizing x with
  | zero => rw [Nat.zero_add]; rfl
  | succ m ih =>
    rw [Nat.succ_add, back, back]
    cases pprev x with
    | none => rfl
    | some y => exact ih y

/-- A step lowers the height by one; only at height 0 there is none. -/
structure Grounded (pprev : α → Option α) (member : α → Prop) (height : α → ℕ) : Prop where
  root : ∀ x, member x → pprev x = none → height x = 0
  next : ∀ x y, member x → pprev x = some y → member y ∧ height x = height y + 1

section
variable (h : Grounded pprev member height)
include h

theorem Grounded.step (hx : member x) (hpos : 0 < height x) :
    ∃ y, pprev x = some y ∧ member y ∧ height y = height x - 1 := by
  cases hprev : pprev x with
  | none => exact absurd (h.root x hx hprev) (Nat.pos_iff_ne_zero.mp hpos)
  | some y =>
    obtain ⟨hy, hheight⟩ := h.next x y hx hprev
    exact ⟨y, rfl, hy, by omega⟩

variable {n : ℕ}

theorem Grounded.back (hx : member x)
    (hn : n ≤ height x) :
    ∃ y, back pprev n x = some y ∧ member y ∧ height y = height x - n := by
  induction n generalizing x with
  | zero => exact ⟨x, rfl, hx, rfl⟩
  | succ n ih =>
    obtain ⟨y, hprev, hy, hheight⟩ := h.step hx (by omega)
    obtain ⟨z, hback, hz, hfar⟩ := ih hy (by omega)
    refine ⟨z, ?_, hz, by omega⟩
    rw [SkipList.back, hprev]
    exact hback

theorem Grounded.height_back (hx : member x)
    (hback : SkipList.back pprev n x = some y) : height x = height y + n := by
  induction n generalizing x with
  | zero =>
    obtain rfl : x = y := some.inj hback
    rfl
  | succ n ih =>
    obtain ⟨z, hprev, hrest⟩ := bind_eq_some_iff.mp hback
    obtain ⟨hz, hheight⟩ := h.next x z hx hprev
    have := ih hz hrest
    omega

theorem Grounded.back_congr (hsame : ∀ x, member x → pprev' x = pprev x) (hx : member x) :
    SkipList.back pprev' n x = SkipList.back pprev n x := by
  induction n generalizing x with
  | zero => rfl
  | succ n ih =>
    rw [SkipList.back, SkipList.back, hsame x hx]
    cases hprev : pprev x with
    | none => rfl
    | some y => exact ih (h.next x y hx hprev).1

end

/-- **The climb goes back step by step**, as far as the short cuts up to the height of `x` do
and none of those taken is too long. -/
theorem climb_eq_back (h : Grounded pprev member height)
    (hless : ∀ n, 0 < n → skipTo n < n) {target : ℕ}
    (htakes : ∀ n, target < n → takes n = true → target ≤ skipTo n)
    (hskip : ∀ y, member y → height y ≤ height x → 0 < height y →
      pskip y = back pprev (height y - skipTo (height y)) y)
    (hx : member x) (htarget : target ≤ height x) {fuel : ℕ} (hfuel : height x ≤ target + fuel) :
    climb pprev pskip skipTo takes target fuel x (height x) = back pprev (height x - target) x := by
  induction fuel generalizing x with
  | zero =>
    obtain rfl : target = height x := by omega
    rw [climb, if_pos (Nat.le_refl _), Nat.sub_self]
    rfl
  | succ fuel ih =>
    rw [climb]
    split
    case isTrue hle =>
      obtain rfl : target = height x := by omega
      rw [Nat.sub_self]
      rfl
    case isFalse habove =>
      -- from here on the height is lower, and the short cuts of `hskip` are still there
      have hfrom : ∀ {y : α} {n : ℕ}, back pprev n x = some y → member y →
          height y = height x - n → 0 < n → n ≤ height x - target →
          climb pprev pskip skipTo takes target fuel y (height x - n) =
            back pprev (height x - target) x := by
        intro y n hback hy hheight hn hreach
        have hrest := ih (fun z hz hle => hskip z hz (by omega)) hy (by omega) (by omega)
        rw [← hheight, hrest, show height x - target = n + (height y - target) by omega, back_add,
          hback]
        rfl
      split
      case isTrue htake =>
        have hshort := hless (height x) (by omega)
        have hlong := htakes (height x) (by omega) htake
        obtain ⟨y, hback, hy, hheight⟩ := h.back (n := height x - skipTo (height x)) hx (by omega)
        rw [hskip x hx (Nat.le_refl _) (by omega), hback, bind_some]
        have hclimb := hfrom hback hy hheight (by omega) (by omega)
        rw [Nat.sub_sub_self (Nat.le_of_lt hshort)] at hclimb
        exact hclimb
      case isFalse =>
        obtain ⟨y, hprev, hy, hheight⟩ := h.step hx (by omega)
        rw [hprev, bind_some]
        refine hfrom ?_ hy hheight Nat.one_pos (by omega)
        rw [back, hprev]
        rfl

/-- **Two members of one height meet**, and at the first place where they can, if there is one
member only that nothing is before. -/
theorem meet_spec [DecidableEq α] (h : Grounded pprev member height)
    (hroot : ∀ x y, member x → member y → pprev x = none → pprev y = none → x = y) {fuel : ℕ}
    (hx : member x) (hy : member y) (hsame : height x = height y) (hfuel : height x ≤ fuel) :
    ∃ n z, meet pprev fuel x y = some z ∧ n ≤ height x ∧ back pprev n x = some z ∧
      back pprev n y = some z ∧ ∀ m < n, back pprev m x ≠ back pprev m y := by
  induction fuel generalizing x y with
  | zero =>
    have hground : ∀ {z : α}, member z → height z = 0 → pprev z = none := by
      intro z hz hzero
      cases hprev : pprev z with
      | none => rfl
      | some w => exact absurd (h.next z w hz hprev).2 (by omega)
    obtain rfl := hroot x y hx hy (hground hx (by omega)) (hground hy (by omega))
    refine ⟨0, x, ?_, Nat.zero_le _, rfl, rfl, fun m hm => absurd hm (Nat.not_lt_zero m)⟩
    rw [meet, if_pos rfl]
  | succ fuel ih =>
    rw [meet]
    split
    case isTrue heq =>
      subst heq
      exact ⟨0, x, rfl, Nat.zero_le _, rfl, rfl, fun m hm => absurd hm (Nat.not_lt_zero m)⟩
    case isFalse hne =>
      have hpos : 0 < height x := by
        refine Nat.pos_of_ne_zero ?_
        intro hzero
        refine hne (hroot x y hx hy ?_ ?_)
        · cases hprev : pprev x with
          | none => rfl
          | some w => exact absurd (h.next x w hx hprev).2 (by omega)
        · cases hprev : pprev y with
          | none => rfl
          | some w => exact absurd (h.next y w hy hprev).2 (by omega)
      obtain ⟨x', hx', hmem, hlow⟩ := h.step hx hpos
      obtain ⟨y', hy', hmem', hlow'⟩ := h.step hy (by omega)
      obtain ⟨n, z, hmeet, hn, hback, hback', hfirst⟩ := ih hmem hmem' (by omega) (by omega)
      rw [hx', bind_some, hy', bind_some]
      refine ⟨n + 1, z, hmeet, by omega, ?_, ?_, ?_⟩
      · rw [back, hx']
        exact hback
      · rw [back, hy']
        exact hback'
      · intro m hm
        cases m with
        | zero => exact fun heq => hne (some.inj heq)
        | succ m =>
          rw [back, back, hx', hy']
          exact hfirst m (by omega)

/-! ## The lineage -/

/-- `f n` is the member at height `n` that `x` comes from. -/
structure Lineage (pprev : α → Option α) (member : α → Prop) (height : α → ℕ) (x : α)
    (f : ℕ → α) : Prop where
  top : f (height x) = x
  mem : ∀ n ≤ height x, member (f n)
  height_eq : ∀ n ≤ height x, height (f n) = n
  behind : ∀ n ≤ height x, back pprev (height x - n) x = some (f n)
  prev : ∀ n < height x, pprev (f (n + 1)) = some (f n)

theorem Grounded.lineage (h : Grounded pprev member height) (hx : member x) :
    ∃ f, Lineage pprev member height x f := by
  refine ⟨fun n => (SkipList.back pprev (height x - n) x).getD x, ?_⟩
  have hat : ∀ n ≤ height x, ∃ y, SkipList.back pprev (height x - n) x = some y ∧ member y ∧
      height y = n := by
    intro n hn
    obtain ⟨y, hback, hy, hheight⟩ := h.back (n := height x - n) hx (by omega)
    exact ⟨y, hback, hy, by omega⟩
  refine ⟨?_, ?_, ?_, ?_, ?_⟩
  · rw [Nat.sub_self]
    rfl
  · intro n hn
    obtain ⟨y, hback, hy, -⟩ := hat n hn
    rw [hback]
    exact hy
  · intro n hn
    obtain ⟨y, hback, -, hheight⟩ := hat n hn
    rw [hback]
    exact hheight
  · intro n hn
    obtain ⟨y, hback, -, -⟩ := hat n hn
    rw [hback]
    rfl
  · intro n hn
    obtain ⟨y, hback, -, -⟩ := hat (n + 1) hn
    obtain ⟨z, hback', -, -⟩ := hat n (Nat.le_of_lt hn)
    rw [hback, hback']
    rw [show height x - n = height x - (n + 1) + 1 by omega, back_add, hback] at hback'
    simpa [SkipList.back] using hback'

theorem Lineage.eq_of_back (h : Lineage pprev member height x f)
    (hground : Grounded pprev member height) (hx : member x)
    (hback : SkipList.back pprev n x = some y) : f (height y) = y := by
  have hheight := hground.height_back hx hback
  have hsame := h.behind (height y) (by omega)
  rw [show height x - height y = n by omega, hback] at hsame
  exact (some.inj hsame).symm

theorem Lineage.between (h : Lineage pprev member height x f) {m n : ℕ} (hmn : m ≤ n)
    (hn : n ≤ height x) : SkipList.back pprev (n - m) (f n) = some (f m) := by
  have hlow := h.behind m (by omega)
  rw [show height x - m = height x - n + (n - m) by omega, back_add, h.behind n hn] at hlow
  exact hlow

theorem trail_eq {lo n : ℕ} (hprev : ∀ i, lo ≤ i → i < lo + n → pprev (f (i + 1)) = some (f i))
    (l : List α) :
    trail pprev n (f (lo + n)) l = some ((List.range' lo (n + 1)).map f ++ l) := by
  induction n generalizing l with
  | zero => rfl
  | succ n ih =>
    have hlast : pprev (f (lo + (n + 1))) = some (f (lo + n)) :=
      hprev (lo + n) (by omega) (by omega)
    rw [trail, hlast, bind_some, ih fun i hlo hi => hprev i hlo (by omega),
      List.range'_concat (n := n + 1), List.map_append, List.append_assoc, Nat.one_mul]
    rfl

end SkipList
