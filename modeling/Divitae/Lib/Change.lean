/-
# `Lib.Change` — an amount from coins whose values divide each other

    total value used cs   the value of `used c` coins of each kind `c`
    number used cs        how many these are
    greedy                of each kind, from the highest on, as many as are held and fit

Where the value of each kind divides that of the kind before, coins that reach a higher value hold
a part of exactly that value (`exists_part`).  So the greedy choice meets an amount exactly
whenever any choice does, and with the fewest coins (`greedy_exact`).
-/
import Mathlib.Algebra.Order.BigOperators.Group.List
import Mathlib.Tactic.Linarith
import Mathlib.Tactic.Ring

namespace Change

open List Function

variable {ι : Type*} {value held used used' : ι → Int} {c : ι} {cs : List ι} {amount : Int}

def total (value used : ι → Int) (cs : List ι) : Int := (cs.map fun c => used c * value c).sum

def number (used : ι → Int) (cs : List ι) : Int := (cs.map used).sum

@[simp] theorem total_nil : total value used [] = 0 := rfl

@[simp] theorem total_cons :
    total value used (c :: cs) = used c * value c + total value used cs := sum_cons

@[simp] theorem number_nil : number used [] = 0 := rfl

@[simp] theorem number_cons : number used (c :: cs) = used c + number used cs := sum_cons

theorem number_eq_total : number used cs = total (fun _ => 1) used cs := by
  simp only [number, total, mul_one]

theorem total_congr (h : ∀ c ∈ cs, used c = used' c) :
    total value used cs = total value used' cs := by
  rw [total, map_congr_left fun c hc => by rw [h c hc], ← total]

theorem number_congr (h : ∀ c ∈ cs, used c = used' c) : number used cs = number used' cs := by
  rw [number_eq_total, number_eq_total, total_congr h]

theorem total_reverse : total value used cs.reverse = total value used cs := by
  rw [total, map_reverse, sum_reverse, ← total]

theorem number_reverse : number used cs.reverse = number used cs := by
  rw [number_eq_total, total_reverse, ← number_eq_total]

theorem total_sub :
    total value (fun c => used c - used' c) cs = total value used cs - total value used' cs := by
  induction cs with
  | nil => rfl
  | cons c cs ih =>
    rw [total_cons, total_cons, total_cons, ih]
    ring

theorem number_sub : number (fun c => used c - used' c) cs = number used cs - number used' cs := by
  simp only [number_eq_total, total_sub]

theorem total_nonneg (hvalue : ∀ c ∈ cs, 0 < value c) (hused : ∀ c ∈ cs, 0 ≤ used c) :
    0 ≤ total value used cs := by
  refine sum_nonneg fun a ha => ?_
  obtain ⟨c, hc, rfl⟩ := mem_map.mp ha
  exact mul_nonneg (hused c hc) (hvalue c hc).le

theorem number_nonneg (hused : ∀ c ∈ cs, 0 ≤ used c) : 0 ≤ number used cs := by
  rw [number_eq_total]
  exact total_nonneg (fun _ _ => one_pos) hused

theorem number_le (hused : ∀ c ∈ cs, 0 ≤ used c) (hvalue : ∀ c ∈ cs, 0 < value c) :
    number used cs ≤ total value used cs := by
  refine sum_le_sum fun c hc => ?_
  exact le_mul_of_one_le_right (hused c hc) (hvalue c hc)

theorem total_le {most : Int} (hvalue : ∀ c ∈ cs, value c ≤ most) (hused : ∀ c ∈ cs, 0 ≤ used c) :
    total value used cs ≤ number used cs * most := by
  induction cs with
  | nil => rw [total_nil, number_nil, zero_mul]
  | cons c cs ih =>
    have hhead := mul_le_mul_of_nonneg_left (hvalue c mem_cons_self) (hused c mem_cons_self)
    have hrest := ih (fun d hd => hvalue d (mem_cons_of_mem c hd))
      fun d hd => hused d (mem_cons_of_mem c hd)
    rw [total_cons, number_cons, add_mul]
    exact add_le_add hhead hrest

section
variable [DecidableEq ι]

theorem total_update (hmem : c ∈ cs) (hnodup : cs.Nodup) (k : Int) :
    total value (Function.update used c k) cs = total value used cs + (k - used c) * value c := by
  induction cs with
  | nil => exact nomatch hmem
  | cons d cs ih =>
    obtain ⟨hnot, hrest⟩ := nodup_cons.mp hnodup
    rw [total_cons, total_cons]
    rcases mem_cons.mp hmem with rfl | hin
    · have hsame : total value (Function.update used c k) cs = total value used cs :=
        total_congr fun e he => update_of_ne (ne_of_mem_of_not_mem he hnot) _ _
      rw [update_self, hsame]
      ring
    · rw [update_of_ne (ne_of_mem_of_not_mem hin hnot).symm, ih hin hrest]
      ring

theorem number_update (hmem : c ∈ cs) (hnodup : cs.Nodup) (k : Int) :
    number (Function.update used c k) cs = number used cs + (k - used c) := by
  rw [number_eq_total, number_eq_total, total_update hmem hnodup, mul_one]

end

/-! ## The greedy choice -/

/-- How many coins of one kind are taken. -/
def take (value held amount : Int) : Int := max 0 (min held (amount / value))

/-- Each value divides the ones before. -/
structure Chain (value : ι → Int) (cs : List ι) : Prop where
  nodup : cs.Nodup
  pos : ∀ c ∈ cs, 0 < value c
  dvd : cs.Pairwise fun a b => value b ∣ value a

theorem Chain.tail (h : Chain value (c :: cs)) : Chain value cs :=
  ⟨h.nodup.of_cons, fun d hd => h.pos d (mem_cons_of_mem c hd), h.dvd.of_cons⟩

theorem Chain.dvd_head (h : Chain value (c :: cs)) : ∀ d ∈ cs, value d ∣ value c :=
  fun _ hd => rel_of_pairwise_cons h.dvd hd

variable [DecidableEq ι]

def greedy (value held : ι → Int) : List ι → Int → ι → Int
  | [], _ => fun _ => 0
  | c :: cs, amount =>
    let k := take (value c) (held c) amount
    Function.update (greedy value held cs (amount - k * value c)) c k

/-- **Coins that reach a multiple of all values hold a part of exactly that value.** -/
theorem exists_part (hchain : Chain value cs) (hused : ∀ c ∈ cs, 0 ≤ used c)
    (hdvd : ∀ c ∈ cs, value c ∣ amount) (hpos : 0 ≤ amount)
    (hreach : amount ≤ total value used cs) :
    ∃ part : ι → Int, (∀ c ∈ cs, 0 ≤ part c ∧ part c ≤ used c) ∧ total value part cs = amount := by
  induction cs generalizing amount with
  | nil => exact ⟨fun _ => 0, nofun, le_antisymm hpos hreach⟩
  | cons c cs ih =>
    obtain ⟨hnot, -⟩ := nodup_cons.mp hchain.nodup
    have hvalue := hchain.pos c mem_cons_self
    have hc := hused c mem_cons_self
    have hother : ∀ (part : ι → Int) (k : Int), ∀ d ∈ cs, Function.update part c k d = part d :=
      fun part k d hd => update_of_ne (ne_of_mem_of_not_mem hd hnot) _ _
    by_cases hall : amount ≤ used c * value c
    · -- the coins of the first kind are enough
      obtain ⟨q, hq⟩ := hdvd c mem_cons_self
      have hq0 : 0 ≤ q := nonneg_of_mul_nonneg_right (hq ▸ hpos) hvalue
      have hqc : q ≤ used c := by
        rw [hq, mul_comm] at hall
        exact le_of_mul_le_mul_right hall hvalue
      refine ⟨Function.update (fun _ => 0) c q, fun d hd => ?_, ?_⟩
      · rcases mem_cons.mp hd with rfl | hin
        · rw [update_self]
          exact ⟨hq0, hqc⟩
        · rw [hother _ _ d hin]
          exact ⟨le_refl 0, hused d (mem_cons_of_mem c hin)⟩
      · have hzero : total value (fun _ => 0) cs = 0 := by
          rw [total, map_congr_left fun d _ => zero_mul (value d)]
          exact sum_eq_zero fun a ha => (mem_map.mp ha).elim fun _ h => h.2.symm
        rw [total_cons, update_self, total_congr (hother _ _), hzero, hq]
        ring
    · -- all of them, and the rest from the other kinds
      rw [total_cons] at hreach
      obtain ⟨part, hpart, htotal⟩ := @ih (amount - used c * value c) hchain.tail
        (fun d hd => hused d (mem_cons_of_mem c hd))
        (fun d hd => Int.dvd_sub (hdvd d (mem_cons_of_mem c hd))
          ((hchain.dvd_head d hd).mul_left (used c)))
        (by linarith) (by linarith)
      refine ⟨Function.update part c (used c), fun d hd => ?_, ?_⟩
      · rcases mem_cons.mp hd with rfl | hin
        · rw [update_self]
          exact ⟨hc, le_refl _⟩
        · rw [hother _ _ d hin]
          exact hpart d hin
      · rw [total_cons, update_self, total_congr (hother _ _), htotal]
        ring

theorem take_nonneg (value held amount : Int) : 0 ≤ take value held amount := le_max_left _ _

theorem take_le {value held amount : Int} (h : 0 ≤ held) : take value held amount ≤ held :=
  max_le h (min_le_left _ _)

theorem take_mul_le {value held amount : Int} (hvalue : 0 < value) (hamount : 0 ≤ amount) :
    take value held amount * value ≤ amount := by
  have hle : take value held amount ≤ amount / value :=
    max_le (Int.ediv_nonneg hamount hvalue.le) (min_le_right _ _)
  exact le_trans (mul_le_mul_of_nonneg_right hle hvalue.le) (Int.ediv_mul_le amount hvalue.ne')

theorem le_take {value held amount k : Int} (hvalue : 0 < value) (hheld : k ≤ held)
    (hfits : k * value ≤ amount) : k ≤ take value held amount :=
  le_max_of_le_right (le_min hheld ((Int.le_ediv_iff_mul_le hvalue).mpr hfits))

theorem eq_take {value held amount k : Int} (hvalue : 0 < value) (hk : 0 ≤ k) (hheld : k ≤ held)
    (hfits : k = 0 ∨ k * value ≤ amount) (hmost : amount - k * value < value ∨ held ≤ k) :
    k = take value held amount := by
  refine le_antisymm ?_ (max_le hk ?_)
  · rcases hfits with rfl | hfits
    · exact take_nonneg _ _ _
    · exact le_take hvalue hheld hfits
  · rcases hmost with hmost | hmost
    · refine le_trans (min_le_right _ _) (Int.lt_add_one_iff.mp ?_)
      refine (Int.ediv_lt_iff_lt_mul hvalue).mpr ?_
      linarith
    · exact le_trans (min_le_left _ _) hmost

theorem take_of_lt {value held amount : Int} (hvalue : 0 < value) (h : amount < value) :
    take value held amount = 0 := by
  have hnone : amount / value < 1 := (Int.ediv_lt_iff_lt_mul hvalue).mpr (by rwa [one_mul])
  exact max_eq_left (le_trans (min_le_right _ _) (Int.lt_add_one_iff.mp hnone))

theorem take_succ {value amount : Int} {n : Nat} (hvalue : 0 < value) (h : value ≤ amount) :
    take value (n + 1 : Nat) amount = take value n (amount - value) + 1 := by
  have hdiv := Int.add_mul_ediv_right (amount - value) 1 hvalue.ne'
  rw [one_mul, sub_add_cancel] at hdiv
  have hrest : 0 ≤ (amount - value) / value := Int.ediv_nonneg (by linarith) hvalue.le
  rw [take, take, hdiv, Nat.cast_succ, min_add_add_right,
    max_eq_right (le_min (Nat.cast_nonneg n) hrest)]
  exact max_eq_right (by linarith [le_min (Nat.cast_nonneg (α := Int) n) hrest])

theorem greedy_bounds (hnodup : cs.Nodup) (hheld : ∀ c ∈ cs, 0 ≤ held c) :
    ∀ c ∈ cs, 0 ≤ greedy value held cs amount c ∧ greedy value held cs amount c ≤ held c := by
  induction cs generalizing amount with
  | nil => exact nofun
  | cons c cs ih =>
    obtain ⟨hnot, hrest⟩ := nodup_cons.mp hnodup
    intro d hd
    rw [greedy]
    rcases mem_cons.mp hd with rfl | hin
    · rw [update_self]
      exact ⟨take_nonneg _ _ _, take_le (hheld d mem_cons_self)⟩
    · rw [update_of_ne (ne_of_mem_of_not_mem hin hnot)]
      exact ih hrest (fun e he => hheld e (mem_cons_of_mem c he)) d hin

/-- **The greedy choice is exact where a choice is, with no more coins.** -/
theorem greedy_exact (hchain : Chain value cs) (hheld : ∀ c ∈ cs, used c ≤ held c)
    (hused : ∀ c ∈ cs, 0 ≤ used c) (htotal : total value used cs = amount) :
    total value (greedy value held cs amount) cs = amount ∧
      number (greedy value held cs amount) cs ≤ number used cs := by
  induction cs generalizing used amount with
  | nil => exact ⟨htotal, le_refl _⟩
  | cons c cs ih =>
    obtain ⟨hnot, -⟩ := nodup_cons.mp hchain.nodup
    have hvalue := hchain.pos c mem_cons_self
    have hrest : ∀ d ∈ cs, 0 ≤ used d := fun d hd => hused d (mem_cons_of_mem c hd)
    have hrest0 := total_nonneg hchain.tail.pos hrest
    rw [total_cons] at htotal
    have hamount : 0 ≤ amount := by
      have := mul_nonneg (hused c mem_cons_self) hvalue.le
      linarith
    rw [greedy]
    have hk := @le_take (value c) (held c) amount (used c) hvalue (hheld c mem_cons_self)
      (by linarith)
    have hfits := @take_mul_le (value c) (held c) amount hvalue hamount
    generalize take (value c) (held c) amount = k at hk hfits ⊢
    -- the coins of the first kind that are missing are exchanged for lower ones
    obtain ⟨part, hpart, hexact⟩ := @exists_part _ value used cs ((k - used c) * value c) _
      hchain.tail hrest (fun d hd => (hchain.dvd_head d hd).mul_left _)
      (mul_nonneg (sub_nonneg.mpr hk) hvalue.le) (by rw [sub_mul]; linarith)
    have hmany : k - used c ≤ number part cs := by
      have hle := @total_le _ value part cs (value c)
        (fun d hd => Int.le_of_dvd hvalue (hchain.dvd_head d hd)) fun d hd => (hpart d hd).1
      rw [hexact] at hle
      exact le_of_mul_le_mul_right hle hvalue
    obtain ⟨htail, hfew⟩ := @ih (fun d => used d - part d) (amount - k * value c) hchain.tail
      (fun d hd => le_trans (sub_le_self _ (hpart d hd).1) (hheld d (mem_cons_of_mem c hd)))
      (fun d hd => sub_nonneg.mpr (hpart d hd).2)
      (by rw [total_sub, hexact, sub_mul]; linarith)
    rw [number_sub] at hfew
    have hother : ∀ d ∈ cs, Function.update (greedy value held cs (amount - k * value c)) c k d =
        greedy value held cs (amount - k * value c) d :=
      fun d hd => update_of_ne (ne_of_mem_of_not_mem hd hnot) _ _
    rw [total_cons, number_cons, number_cons, update_self, total_congr hother,
      number_congr hother, htail]
    exact ⟨by ring, by linarith⟩

end Change
