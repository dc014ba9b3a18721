/-
# `Lib.Wrap` — sums of machine integers

A signed 64-bit register holds an integer's balanced residue modulo `2 ^ 64`.  An
accumulator that wraps at each step holds the wrap of the exact sum
(`foldl_wrap64`), so the partial sums may overflow and come back: what is read is
exact as soon as the total fits (`wrap64_of_fits`).

`Wrap.rebate a` takes `a` off a running total each time it passes `a`; `net a` takes it off
every summand above `a`.  Over summands in range the two agree exactly as long as each
summand is `SameAlone` on top of the net sum before it:

    foldl_rebate_eq_iff     the register is the net sum, for one order of the summands
    rebate_anyOrder_iff     and for every order

Once the register has fallen behind it stays behind (`Behind`), also when it wraps.
-/
import Mathlib.Algebra.Order.BigOperators.Group.List
import Mathlib.Algebra.Order.Ring.Int
import Divitae.Lib.Run

namespace Wrap

open List

/-- An integer as a signed 64-bit register holds it. -/
def wrap64 (z : Int) : Int := z.bmod (2 ^ 64)

/-- The range of a signed 64-bit register. -/
def Fits64 (z : Int) : Prop := -2 ^ 63 ≤ z ∧ z < 2 ^ 63

variable {z : Int}

theorem wrap64_of_fits (h : Fits64 z) : wrap64 z = z := by
  obtain ⟨hlo, hhi⟩ := h
  exact Int.bmod_eq_of_le_mul_two (by push_cast; omega) (by push_cast; omega)

theorem fits64_wrap64 (z : Int) : Fits64 (wrap64 z) := by
  have hlo := Int.le_bmod (x := z) (m := 2 ^ 64) (by decide)
  have hhi := Int.bmod_lt (x := z) (m := 2 ^ 64) (by decide)
  exact ⟨by simpa [wrap64] using hlo, by simpa [wrap64] using hhi⟩

@[simp] theorem wrap64_add_wrap64_left (a b : Int) : wrap64 (wrap64 a + b) = wrap64 (a + b) :=
  Int.bmod_add_bmod

@[simp] theorem wrap64_add_wrap64_right (a b : Int) : wrap64 (a + wrap64 b) = wrap64 (a + b) :=
  Int.add_bmod_bmod

@[simp] theorem wrap64_sub_wrap64_left (a b : Int) : wrap64 (wrap64 a - b) = wrap64 (a - b) :=
  Int.bmod_sub_bmod

@[simp] theorem wrap64_sub_wrap64_right (a b : Int) : wrap64 (a - wrap64 b) = wrap64 (a - b) :=
  Int.sub_bmod_bmod

@[simp] theorem wrap64_wrap64 (z : Int) : wrap64 (wrap64 z) = wrap64 z := Int.bmod_bmod

theorem foldl_wrap64 (l : List Int) (a : Int) :
    l.foldl (fun acc x => wrap64 (acc + x)) (wrap64 a) = wrap64 (a + l.sum) := by
  induction l generalizing a with
  | nil => simp
  | cons x l ih => simp [ih, add_assoc]

/-! ## 32 bits -/

/-- An integer as a signed 32-bit register holds it. -/
def wrap32 (z : Int) : Int := z.bmod (2 ^ 32)

/-- The range of a signed 32-bit register. -/
def Fits32 (z : Int) : Prop := -2 ^ 31 ≤ z ∧ z < 2 ^ 31

theorem wrap32_of_fits (h : Fits32 z) : wrap32 z = z := by
  obtain ⟨hlo, hhi⟩ := h
  exact Int.bmod_eq_of_le_mul_two (by push_cast; omega) (by push_cast; omega)

theorem wrap32_le_of_above (h : 2 ^ 31 ≤ z) : wrap32 z ≤ z - 2 ^ 32 := by
  unfold wrap32
  rw [Int.bmod_def]
  omega

@[simp] theorem wrap32_sub_wrap32_left (a b : Int) : wrap32 (wrap32 a - b) = wrap32 (a - b) :=
  Int.bmod_sub_bmod

/-! ## An accumulator that gives a fixed amount back

Each time it passes `a`, `a` is taken off it. -/

def rebate (a acc x : Int) : Int :=
  if wrap64 (acc + x) > a then wrap64 (acc + x) - a else wrap64 (acc + x)

/-- What is taken off in all. -/
def rebates (a acc : Int) : List Int → Int
  | [] => 0
  | x :: l => (if wrap64 (acc + x) > a then a else 0) + rebates a (rebate a acc x) l

section
variable {a : Int} (ha : 0 ≤ a)
include ha

theorem rebate_eq (acc x : Int) :
    rebate a acc x = wrap64 (acc + x - if wrap64 (acc + x) > a then a else 0) := by
  obtain ⟨_, hhi⟩ := fits64_wrap64 (acc + x)
  unfold rebate
  rcases Int.lt_or_le a (wrap64 (acc + x)) with hpass | hstay
  · rw [if_pos hpass, if_pos hpass, ← wrap64_sub_wrap64_left]
    exact (wrap64_of_fits ⟨by omega, by omega⟩).symm
  · rw [if_neg (by omega), if_neg (by omega), Int.sub_zero]

section
variable (l : List Int) (acc : Int)
include l acc

theorem foldl_rebate (hacc : Fits64 acc) :
    l.foldl (rebate a) acc = wrap64 (acc + l.sum - rebates a acc l) := by
  induction l generalizing acc with
  | nil => simp [rebates, wrap64_of_fits hacc]
  | cons x l ih =>
    have hfits : Fits64 (rebate a acc x) := by
      rw [rebate_eq ha]
      exact fits64_wrap64 _
    rw [foldl_cons, ih _ hfits, sum_cons, rebates]
    generalize rebates a (rebate a acc x) l = r
    rw [rebate_eq ha, Int.add_sub_assoc, wrap64_add_wrap64_left]
    congr 1
    omega

theorem rebates_nonneg : 0 ≤ rebates a acc l := by
  induction l generalizing acc with
  | nil => exact Int.le_refl 0
  | cons x l ih =>
    have := ih (rebate a acc x)
    unfold rebates
    split <;> omega

theorem rebates_le_length :
    rebates a acc l ≤ l.length * a := by
  induction l generalizing acc with
  | nil => exact Int.le_of_eq (Int.zero_mul a).symm
  | cons x l ih =>
    have := ih (rebate a acc x)
    have hlen : ((x :: l).length : Int) * a = l.length * a + a := by
      rw [length_cons]
      push_cast
      rw [Int.add_mul, Int.one_mul]
    rw [hlen, rebates]
    split <;> omega

end

theorem rebates_le_sum {l : List Int} (hl : ∀ x ∈ l, 0 ≤ x) (acc : Int)
    (hacc : 0 ≤ acc) (hsum : acc + l.sum < 2 ^ 63) : rebates a acc l ≤ acc + l.sum := by
  induction l generalizing acc with
  | nil => simpa [rebates] using hacc
  | cons x l ih =>
    have hx : 0 ≤ x := hl x mem_cons_self
    have hrest : ∀ y ∈ l, 0 ≤ y := fun y hy => hl y (mem_cons_of_mem x hy)
    have hpos : 0 ≤ l.sum := sum_nonneg hrest
    rw [sum_cons] at hsum ⊢
    have hexact : wrap64 (acc + x) = acc + x := wrap64_of_fits ⟨by omega, by omega⟩
    unfold rebates rebate
    rw [hexact]
    rcases Int.lt_or_le a (acc + x) with hpass | hstay
    · rw [if_pos hpass, if_pos hpass]
      have := ih hrest (acc + x - a) (by omega) (by omega)
      omega
    · rw [if_neg (by omega), if_neg (by omega)]
      have := ih hrest (acc + x) (by omega) (by omega)
      omega

end

/-- `x` with `a` taken out where it is above `a`. -/
def net (a x : Int) : Int := if x > a then x - a else x

/-- On top of the net sum `S`, the summand `x` is given back what it would be given alone. -/
def SameAlone (a S x : Int) : Prop := (x ≤ a → S + x ≤ a) ∧ (a < x → S + x < 2 ^ 63)

/-- The register `t` lags behind the net sum. -/
def Behind (a t S : Int) : Prop := t + a ≤ S ∧ (0 ≤ t ∨ 2 * a ≤ S)

variable {a S t x : Int} {l l' : List Int}

theorem net_nonneg (hx : 0 ≤ x) : 0 ≤ net a x := by
  unfold net
  split_ifs <;> omega

theorem sum_net_nonneg (hl : ∀ x ∈ l, 0 ≤ x) : 0 ≤ (l.map (net a)).sum := by
  refine sum_nonneg ?_
  intro y hy
  obtain ⟨x, hx, rfl⟩ := mem_map.mp hy
  exact net_nonneg (hl x hx)

theorem wrap64_over (hlo : 2 ^ 63 ≤ z) (hhi : z < 2 ^ 64) : wrap64 z = z - 2 ^ 64 := by
  have hmod : wrap64 (z - 2 ^ 64) = wrap64 z := by
    exact Int.sub_bmod_right z (2 ^ 64)
  rw [← hmod]
  exact wrap64_of_fits ⟨by omega, by omega⟩

/-! ## One step -/

theorem rebate_of_sameAlone (ha : 0 ≤ a) (ha' : a < 2 ^ 62) (hS : 0 ≤ S) (hx : 0 ≤ x)
    (h : SameAlone a S x) : rebate a S x = S + net a x := by
  obtain ⟨hsmall, hlarge⟩ := h
  unfold rebate net
  rcases Int.lt_or_le a x with hax | hxa
  · rw [wrap64_of_fits ⟨by omega, hlarge hax⟩, if_pos (by omega), if_pos hax]
    omega
  · have hsum := hsmall hxa
    rw [wrap64_of_fits ⟨by omega, by omega⟩, if_neg (by omega), if_neg (by omega)]

theorem behind_of_not_sameAlone (ha : 0 ≤ a) (ha' : a < 2 ^ 60) (hS : 0 ≤ S) (hS' : S < 2 ^ 63)
    (hx : 0 ≤ x) (hx' : x < 2 ^ 62) (h : ¬ SameAlone a S x) :
    Behind a (rebate a S x) (S + net a x) := by
  unfold Behind rebate net
  rcases Int.lt_or_le (S + x) (2 ^ 63) with hfits | hover
  · have hcarry : x ≤ a ∧ a < S + x := by
      refine ⟨?_, ?_⟩
      · refine Int.not_lt.mp ?_
        intro hax
        exact h ⟨fun hxa => absurd hax (by omega), fun _ => hfits⟩
      · refine Int.not_le.mp ?_
        intro hsum
        exact h ⟨fun _ => hsum, fun _ => hfits⟩
    rw [wrap64_of_fits ⟨by omega, hfits⟩, if_pos (by omega), if_neg (by omega)]
    omega
  · rw [wrap64_over hover (by omega), if_neg (by omega)]
    split_ifs <;> omega

theorem behind_step (ha : 0 ≤ a) (ha' : a < 2 ^ 60) (ht : Fits64 t) (hx : 0 ≤ x)
    (hx' : x < 2 ^ 62) (h : Behind a t S) : Behind a (rebate a t x) (S + net a x) := by
  obtain ⟨hlo, hhi⟩ := ht
  obtain ⟨hlag, hsign⟩ := h
  unfold Behind rebate net
  rcases Int.lt_or_le (t + x) (2 ^ 63) with hfits | hover
  · rw [wrap64_of_fits ⟨by omega, hfits⟩]
    split_ifs <;> omega
  · rw [wrap64_over hover (by omega), if_neg (by omega)]
    split_ifs <;> omega

theorem fits64_rebate (ha : 0 ≤ a) (t x : Int) : Fits64 (rebate a t x) := by
  rw [rebate_eq ha]
  exact fits64_wrap64 _

theorem foldl_behind (ha : 0 ≤ a) (ha' : a < 2 ^ 60) (hl : ∀ x ∈ l, 0 ≤ x ∧ x < 2 ^ 62)
    (ht : Fits64 t) (h : Behind a t S) :
    Behind a (l.foldl (rebate a) t) (S + (l.map (net a)).sum) := by
  induction l generalizing t S with
  | nil => simpa using h
  | cons x l ih =>
    obtain ⟨hx, hx'⟩ := hl x mem_cons_self
    have htail := ih (fun y hy => hl y (mem_cons_of_mem x hy)) (fits64_rebate ha t x)
      (behind_step ha ha' ht hx hx' h)
    rwa [map_cons, sum_cons, ← Int.add_assoc]

theorem foldl_net (S : Int) (l : List Int) :
    l.foldl (fun S x => S + net a x) S = S + (l.map (net a)).sum := by
  induction l generalizing S with
  | nil => simp
  | cons x l ih => rw [foldl_cons, ih, map_cons, sum_cons, Int.add_assoc]

theorem foldl_rebate_eq_iff (ha : 0 < a) (ha' : a < 2 ^ 60)
    (hl : ∀ x ∈ l, 0 ≤ x ∧ x < 2 ^ 62) (hS : 0 ≤ S) (hS' : S < 2 ^ 63) :
    l.foldl (rebate a) S = S + (l.map (net a)).sum ↔
      Run.Guarded (fun S x => S + net a x) (SameAlone a) S l := by
  induction l generalizing S with
  | nil => simp
  | cons x l ih =>
    have ha0 := Int.le_of_lt ha
    obtain ⟨hx, hx'⟩ := hl x mem_cons_self
    have htail : ∀ y ∈ l, 0 ≤ y ∧ y < 2 ^ 62 := fun y hy => hl y (mem_cons_of_mem x hy)
    rw [foldl_cons, map_cons, sum_cons, ← Int.add_assoc, Run.guarded_cons]
    constructor
    · intro hsum
      have halone : SameAlone a S x := by
        by_contra hcarry
        have hbehind := foldl_behind ha0 ha' htail (fits64_rebate ha0 S x)
          (behind_of_not_sameAlone ha0 ha' hS hS' hx hx' hcarry)
        rw [hsum] at hbehind
        have hlag := hbehind.1
        omega
      have hstep := rebate_of_sameAlone ha0 (by omega) hS hx halone
      have hfits := fits64_rebate ha0 S x
      rw [hstep] at hsum hfits
      exact ⟨halone, (ih htail (Int.add_nonneg hS (net_nonneg hx)) hfits.2).mp hsum⟩
    · rintro ⟨halone, hrest⟩
      have hstep := rebate_of_sameAlone ha0 (by omega) hS hx halone
      have hfits := fits64_rebate ha0 S x
      rw [hstep] at hfits ⊢
      exact (ih htail (Int.add_nonneg hS (net_nonneg hx)) hfits.2).mpr hrest

theorem guarded_of_total (hl : ∀ x ∈ l, 0 ≤ x) (hS : 0 ≤ S)
    (hsmall : (∃ x ∈ l, x ≤ a) → S + (l.map (net a)).sum ≤ a)
    (hlarge : (∃ x ∈ l, a < x) → S + (l.map (net a)).sum + a < 2 ^ 63) :
    Run.Guarded (fun S x => S + net a x) (SameAlone a) S l := by
  induction l generalizing S with
  | nil => exact Run.guarded_nil S
  | cons x l ih =>
    have hx := hl x mem_cons_self
    have htail : ∀ y ∈ l, 0 ≤ y := fun y hy => hl y (mem_cons_of_mem x hy)
    have hrest : 0 ≤ (l.map (net a)).sum := sum_net_nonneg htail
    rw [map_cons, sum_cons, ← Int.add_assoc] at hsmall hlarge
    refine ⟨⟨?_, ?_⟩, ih htail (Int.add_nonneg hS (net_nonneg hx)) ?_ ?_⟩
    · intro hxa
      have htotal := hsmall ⟨x, .head _, hxa⟩
      have hnet : net a x = x := if_neg (by omega)
      omega
    · intro hax
      have htotal := hlarge ⟨x, .head _, hax⟩
      have hnet : net a x = x - a := if_pos hax
      omega
    · rintro ⟨y, hy, hya⟩
      exact hsmall ⟨y, mem_cons_of_mem x hy, hya⟩
    · rintro ⟨y, hy, hay⟩
      exact hlarge ⟨y, mem_cons_of_mem x hy, hay⟩

theorem perm_sum_net (h : l'.Perm l) : (l'.map (net a)).sum = (l.map (net a)).sum :=
  (h.map (net a)).sum_eq

theorem rebate_anyOrder_iff (ha : 0 < a) (ha' : a < 2 ^ 60)
    (hl : ∀ x ∈ l, 0 ≤ x ∧ x < 2 ^ 62) :
    (∀ l' : List Int, l'.Perm l → l'.foldl (rebate a) 0 = (l.map (net a)).sum) ↔
      ((∃ x ∈ l, x ≤ a) → (l.map (net a)).sum ≤ a) ∧
      ((∃ x ∈ l, a < x) → (l.map (net a)).sum + a < 2 ^ 63) := by
  have hexact : ∀ l' : List Int, l'.Perm l → (l'.foldl (rebate a) 0 = (l.map (net a)).sum ↔
      Run.Guarded (fun S x => S + net a x) (SameAlone a) 0 l') := by
    intro l' hperm
    have hiff := foldl_rebate_eq_iff (l := l') (S := 0) ha ha'
      (fun x hx => hl x (hperm.subset hx)) (Int.le_refl 0) (by decide)
    rwa [Int.zero_add, perm_sum_net hperm] at hiff
  constructor
  · intro hall
    -- the summand last: it meets the net sum of all the others
    have hlast : ∀ x ∈ l, SameAlone a ((l.map (net a)).sum - net a x) x := by
      intro x hx
      have hperm : (l.erase x ++ [x]).Perm l :=
        (perm_append_singleton x (l.erase x)).trans (perm_cons_erase hx).symm
      have hguard := (hexact _ hperm).mp (hall _ hperm)
      rw [Run.guarded_append, foldl_net, Int.zero_add] at hguard
      have htotal := perm_sum_net (a := a) hperm
      rw [map_append, sum_append, map_singleton, sum_singleton] at htotal
      rw [← htotal, Int.add_sub_cancel]
      exact hguard.2.1
    refine ⟨?_, ?_⟩
    · rintro ⟨x, hx, hxa⟩
      have hsum := (hlast x hx).1 hxa
      have hnet : net a x = x := if_neg (by omega)
      omega
    · rintro ⟨x, hx, hax⟩
      have hsum := (hlast x hx).2 hax
      have hnet : net a x = x - a := if_pos hax
      omega
  · rintro ⟨hsmall, hlarge⟩ l' hperm
    refine (hexact l' hperm).mpr (guarded_of_total ?_ (Int.le_refl 0) ?_ ?_)
    · intro x hx
      exact (hl x (hperm.subset hx)).1
    · rintro ⟨x, hx, hxa⟩
      rw [Int.zero_add, perm_sum_net hperm]
      exact hsmall ⟨x, hperm.subset hx, hxa⟩
    · rintro ⟨x, hx, hax⟩
      rw [Int.zero_add, perm_sum_net hperm]
      exact hlarge ⟨x, hperm.subset hx, hax⟩

end Wrap
