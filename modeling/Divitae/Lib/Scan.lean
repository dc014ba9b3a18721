/-
# `Lib.Scan` — the least key within a limit, by a scan that stops early

The entries stand in the order of their times.  A scan passes over those that are taken and keeps
the first one with the least key; as soon as it has one, it stops at an entry behind the limit.

    scan time key stop taken l best     what the scan comes to, from the best so far
    IsPick time key stop free p         `p` has the least key of the free entries within the
                                        limit, or is the first free one when there are none

`scan_pick` says that a scan of entries in order never comes back with nothing while one of them
is free, and that what it finds is such a pick.
-/
import Mathlib.Order.Lattice

namespace Scan

open List

variable {α τ κ : Type*} [LinearOrder τ] [LinearOrder κ]

section
variable (time : α → τ) (key : α → κ) (stop : τ) (taken : α → Bool)

def scan : List α → Option α → Option α
  | [], best => best
  | a :: l, best =>
    if best.isSome ∧ stop < time a then best
    else if taken a then scan l best
    else if best.all fun b => key a < key b then scan l (some a)
    else scan l best

/-- What a scan of the free entries looks for. -/
def IsPick (free : List α) (p : α) : Prop :=
  if ∃ q ∈ free, time q ≤ stop then
    p ∈ free ∧ time p ≤ stop ∧ ∀ q ∈ free, time q ≤ stop → key p ≤ key q
  else free.head? = some p

end

variable {time : α → τ} {key : α → κ} {stop : τ} {taken : α → Bool} {l : List α} {a b p : α}

theorem IsPick.mem {free : List α} (h : IsPick time key stop free p) : p ∈ free := by
  rw [IsPick] at h
  split_ifs at h
  · exact h.1
  · exact mem_of_head? h

theorem scan_late (h : stop < time a) : scan time key stop taken (a :: l) (some b) = some b := by
  rw [scan, if_pos ⟨rfl, h⟩]

theorem scan_taken (h : taken a = true) :
    scan time key stop taken (a :: l) none = scan time key stop taken l none := by
  rw [scan, if_neg (by simp), if_pos h]

theorem scan_first (h : taken a = false) :
    scan time key stop taken (a :: l) none = scan time key stop taken l (some a) := by
  rw [scan, if_neg (by simp), if_neg (by simp [h]), Option.all_none, if_pos rfl]

/-- What a scan that has `b` already comes back with. -/
structure Best (time : α → τ) (key : α → κ) (stop : τ) (taken : α → Bool) (l : List α) (b p : α) :
    Prop where
  source : p = b ∨ p ∈ l ∧ taken p = false ∧ time p ≤ stop
  le_start : key p ≤ key b
  le_free : ∀ q ∈ l, taken q = false → time q ≤ stop → key p ≤ key q

theorem Best.pass (h : Best time key stop taken l b p)
    (ha : taken a = false → time a ≤ stop → key b ≤ key a) :
    Best time key stop taken (a :: l) b p where
  source := h.source.imp id fun hp => ⟨mem_cons_of_mem a hp.1, hp.2⟩
  le_start := h.le_start
  le_free := by
    intro q hmem hfree htime
    rcases mem_cons.mp hmem with rfl | hmem
    · exact le_trans h.le_start (ha hfree htime)
    · exact h.le_free q hmem hfree htime

theorem Best.take (h : Best time key stop taken l a p) (hfree : taken a = false)
    (htime : time a ≤ stop) (hless : key a ≤ key b) : Best time key stop taken (a :: l) b p where
  source := by
    rcases h.source with rfl | ⟨hmem, hp⟩
    · exact .inr ⟨.head _, hfree, htime⟩
    · exact .inr ⟨mem_cons_of_mem a hmem, hp⟩
  le_start := le_trans h.le_start hless
  le_free := by
    intro q hmem hfree' htime'
    rcases mem_cons.mp hmem with rfl | hmem
    · exact h.le_start
    · exact h.le_free q hmem hfree' htime'

/-- **From a best entry on.**  The entries are in order, so none behind the one that ended the
scan is within the limit. -/
theorem scan_some (hsorted : l.Pairwise fun a b => time a ≤ time b) (b : α) :
    ∃ p, scan time key stop taken l (some b) = some p ∧ Best time key stop taken l b p := by
  induction l generalizing b with
  | nil => exact ⟨b, rfl, .inl rfl, le_rfl, nofun⟩
  | cons a l ih =>
    obtain ⟨hfirst, hrest⟩ := pairwise_cons.mp hsorted
    rcases lt_or_ge stop (time a) with hlate | hin
    · refine ⟨b, scan_late hlate, .inl rfl, le_rfl, ?_⟩
      intro q hq _ htime
      rcases mem_cons.mp hq with rfl | hq
      · exact absurd hlate (not_lt.mpr htime)
      · exact absurd (lt_of_lt_of_le hlate (hfirst q hq)) (not_lt.mpr htime)
    · have hgo : ¬ ((some b).isSome = true ∧ stop < time a) := fun h => not_lt.mpr hin h.2
      rw [scan, if_neg hgo]
      cases htaken : taken a with
      | true =>
        obtain ⟨p, hscan, hp⟩ := ih hrest b
        refine ⟨p, hscan, hp.pass fun hfree => ?_⟩
        exact absurd (htaken.symm.trans hfree) (by decide)
      | false =>
        rw [if_neg Bool.false_ne_true]
        rcases lt_or_ge (key a) (key b) with hless | hmore
        · obtain ⟨p, hscan, hp⟩ := ih hrest a
          rw [if_pos (by simpa using hless)]
          exact ⟨p, hscan, hp.take htaken hin (le_of_lt hless)⟩
        · obtain ⟨p, hscan, hp⟩ := ih hrest b
          rw [if_neg (by simpa using hmore)]
          exact ⟨p, hscan, hp.pass fun _ _ => hmore⟩

/-- **A free entry is found**, and it is the one that is looked for. -/
theorem scan_pick (hsorted : l.Pairwise fun a b => time a ≤ time b)
    (hfree : ∃ a ∈ l, taken a = false) :
    ∃ p, scan time key stop taken l none = some p ∧
      IsPick time key stop (l.filter fun a => !taken a) p := by
  induction l with
  | nil =>
    obtain ⟨a, ha, -⟩ := hfree
    exact nomatch ha
  | cons a l ih =>
    obtain ⟨hfirst, hrest⟩ := pairwise_cons.mp hsorted
    by_cases htaken : taken a = true
    · have hmore : ∃ a ∈ l, taken a = false := by
        obtain ⟨q, hq, hfree⟩ := hfree
        rcases mem_cons.mp hq with rfl | hq
        · exact absurd htaken (by rw [hfree]; exact Bool.false_ne_true)
        · exact ⟨q, hq, hfree⟩
      obtain ⟨p, hscan, hpick⟩ := ih hrest hmore
      refine ⟨p, (scan_taken htaken).trans hscan, ?_⟩
      rw [filter_cons_of_neg (by simp [htaken])]
      exact hpick
    · have hfree : taken a = false := Bool.eq_false_iff.mpr htaken
      rw [scan_first hfree, filter_cons_of_pos (by simp [hfree])]
      obtain ⟨p, hscan, hp, ha, hq⟩ := @scan_some _ _ _ _ _ time key stop taken _ hrest a
      refine ⟨p, hscan, ?_⟩
      rw [IsPick]
      rcases lt_or_ge stop (time a) with hlate | hin
      · -- behind the limit already: so are all others
        have hall : ∀ q ∈ a :: l, ¬ time q ≤ stop := by
          intro q hq
          rcases mem_cons.mp hq with rfl | hq
          · exact not_le.mpr hlate
          · exact not_le.mpr (lt_of_lt_of_le hlate (hfirst q hq))
        have hself : p = a := by
          rcases hp with hp | ⟨hmem, -, hin⟩
          · exact hp
          · exact absurd hin (hall p (mem_cons_of_mem a hmem))
        rw [if_neg]
        · rw [List.head?_cons, hself]
        · rintro ⟨q, hmem, hin⟩
          rcases mem_cons.mp hmem with rfl | hmem
          · exact hall q mem_cons_self hin
          · exact hall q (mem_cons_of_mem a (mem_filter.mp hmem).1) hin
      · rw [if_pos ⟨a, mem_cons_self, hin⟩]
        refine ⟨?_, ?_, ?_⟩
        · rcases hp with rfl | ⟨hmem, hfree', -⟩
          · exact .head _
          · exact mem_cons_of_mem a (mem_filter.mpr ⟨hmem, by simp [hfree']⟩)
        · rcases hp with rfl | ⟨-, -, htime⟩
          · exact hin
          · exact htime
        · intro q hmem htime
          rcases mem_cons.mp hmem with rfl | hmem
          · exact ha
          · obtain ⟨hmem, hfree'⟩ := mem_filter.mp hmem
            exact hq q hmem (by simpa using hfree') htime

end Scan
