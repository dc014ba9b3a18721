/-
# `Lib.SortPart` — sorting a list, and sorting a part of it

The elements of a list that pass a test are sorted by their scores, and so is the whole list.
`part_prefix_iff` says when, whatever the sort makes of ties, the sorted part is where the sorted
list starts:

    all of them pass, or
    the part is untied and everything else has a lower score than anything in it

For the one direction two sorts are enough, of which one leaves ties as they are and the other
turns them around (`insertion`, `turned`), and a sort that changes between two by the length of
the list (`byLength`).
-/
import Divitae.Lib.ScoreSort

namespace ScoreSort

open List

/-- Elements of one score leave this sort in the opposite order. -/
def turned : StdSort where
  sort score l := insertion.sort score l.reverse
  perm score l := (insertion.perm score l.reverse).trans (reverse_perm l)
  sorted score l := insertion.sorted score l.reverse
  natural f score l := by
    rw [← map_reverse]
    exact insertion.natural f score l.reverse

/-- The one sort for lists of one length, the other for all others. -/
def byLength (n : Nat) (A B : StdSort) : StdSort where
  sort score l := if l.length = n then A.sort score l else B.sort score l
  perm score l := by
    split
    · exact A.perm score l
    · exact B.perm score l
  sorted score l := by
    split
    · exact A.sorted score l
    · exact B.sorted score l
  natural f score l := by
    rw [length_map]
    split
    · exact A.natural f score l
    · exact B.natural f score l

variable {α : Type} {S A B : StdSort} {score : α → Int} {l : List α} {a b : α}

theorem descending_byLength_self : descending (byLength l.length A B) score l =
    descending A score l := by
  have hlength : l.reverse.length = l.length := length_reverse
  exact congrArg List.reverse (if_pos hlength)

theorem descending_byLength_other {n : Nat} (h : l.length ≠ n) :
    descending (byLength n A B) score l = descending B score l := by
  have hlength : ¬ l.reverse.length = n := by rwa [length_reverse]
  exact congrArg List.reverse (if_neg hlength)

theorem insertion_pair (h : score b ≤ score a) (hab : [a, b].Sublist l) :
    [a, b].Sublist (descending insertion score l) := by
  have hback : [b, a].Sublist l.reverse := hab.reverse
  have hsorted : [b, a].Sublist (l.reverse.insertionSort fun a b => score a ≤ score b) :=
    pair_sublist_insertionSort h hback
  exact hsorted.reverse

theorem turned_pair (h : score b ≤ score a) (hba : [b, a].Sublist l) :
    [a, b].Sublist (descending turned score l) := by
  have hsorted : [b, a].Sublist (l.insertionSort fun a b => score a ≤ score b) :=
    pair_sublist_insertionSort h hba
  show [a, b].Sublist (insertion.sort score l.reverse.reverse).reverse
  rw [reverse_reverse]
  exact hsorted.reverse

theorem pair_cases (ha : a ∈ l) (hb : b ∈ l) (hne : a ≠ b) :
    [a, b].Sublist l ∨ [b, a].Sublist l := by
  obtain ⟨s, t, rfl⟩ := append_of_mem ha
  rcases mem_append.mp hb with hs | ht
  · right
    exact (singleton_sublist.mpr hs).append (singleton_sublist.mpr mem_cons_self)
  · left
    have hrest : b ∈ t := (mem_cons.mp ht).resolve_left (Ne.symm hne)
    have htail : [a, b].Sublist (a :: t) := (singleton_sublist.mpr hrest).cons_cons a
    exact htail.trans (sublist_append_right s (a :: t))

theorem exists_before (ha : a ∈ l) (hb : b ∈ l) (hne : a ≠ b) (h : score b ≤ score a) :
    ∃ S, [a, b].Sublist (descending S score l) := by
  rcases pair_cases ha hb hne with hab | hba
  · exact ⟨insertion, insertion_pair h hab⟩
  · exact ⟨turned, turned_pair h hba⟩

theorem not_pair_swapped (hl : l.Nodup) (hab : [a, b].Sublist l) : ¬ [b, a].Sublist l := by
  induction l with
  | nil => exact nofun
  | cons c l ih =>
    intro hba
    obtain ⟨hc, hrest⟩ := nodup_cons.mp hl
    cases hab with
    | cons _ hab =>
      cases hba with
      | cons _ hba => exact ih hrest hab hba
      | cons_cons _ hba => exact hc (hab.subset (by simp))
    | cons_cons _ hab =>
      cases hba with
      | cons _ hba => exact hc (hba.subset (by simp))
      | cons_cons _ hba => exact hc (singleton_sublist.mp hab)

theorem eq_filter_append {p : α → Bool} (hsorted : l.Pairwise fun a b => score b ≤ score a)
    (hlower : ∀ a ∈ l, ∀ b ∈ l, p a = true → p b = false → score b < score a) :
    l.filter p ++ l.filter (fun a => !p a) = l := by
  induction l with
  | nil => rfl
  | cons c l ih =>
    obtain ⟨hc, hrest⟩ := pairwise_cons.mp hsorted
    have htail := ih hrest fun a ha b hb =>
      hlower a (mem_cons_of_mem c ha) b (mem_cons_of_mem c hb)
    cases hpc : p c with
    | true =>
      rw [filter_cons_of_pos hpc, filter_cons_of_neg (by simp [hpc])]
      exact congrArg (c :: ·) htail
    | false =>
      have hnone : l.filter p = [] := by
        refine filter_eq_nil_iff.mpr ?_
        intro a ha hpa
        have hlt := hlower a (mem_cons_of_mem c ha) c mem_cons_self hpa hpc
        exact absurd (hc a ha) (not_le.mpr hlt)
      rw [hnone, nil_append] at htail
      rw [filter_cons_of_neg (by simp [hpc]), hnone, nil_append,
        filter_cons_of_pos (by simp [hpc]), htail]

theorem descending_filter {p : α → Bool} (huntied : Untied score (l.filter p)) :
    (descending S score l).filter p = descending S score (l.filter p) := by
  have hperm : ((descending S score l).filter p).Perm (l.filter p) := descending_perm.filter p
  refine List.Perm.eq_of_pairwise ?_ (descending_sorted.filter p) descending_sorted
    (hperm.trans descending_perm.symm)
  intro a b ha hb hab hba
  exact huntied a (hperm.mem_iff.mp ha) b (mem_descending.mp hb) (le_antisymm hba hab)

/-- **When the sorted part is where the sorted list starts**, whatever is made of ties. -/
theorem part_prefix_iff (hl : l.Nodup) (p : α → Bool) :
    (∀ S, descending S score (l.filter p) <+: descending S score l) ↔
      l.filter p = l ∨ (Untied score (l.filter p) ∧
        ∀ a ∈ l, ∀ b ∈ l, p a = true → p b = false → score b < score a) := by
  constructor
  · intro hprefix
    by_cases hall : l.filter p = l
    · exact .inl hall
    refine .inr ⟨?_, ?_⟩
    · intro a ha b hb htie
      by_contra hne
      have hlength : l.length ≠ (l.filter p).length := by
        intro heq
        exact hall ((filter_sublist (p := p)).eq_of_length heq.symm)
      obtain ⟨A, hA⟩ : ∃ A, [a, b].Sublist (descending A score (l.filter p)) :=
        exists_before ha hb hne (le_of_eq htie.symm)
      obtain ⟨B, hB⟩ : ∃ B, [b, a].Sublist (descending B score l) :=
        exists_before (mem_of_mem_filter hb) (mem_of_mem_filter ha) (Ne.symm hne) (le_of_eq htie)
      have hstart := hprefix (byLength (l.filter p).length A B)
      rw [descending_byLength_self, descending_byLength_other hlength] at hstart
      have hnodup : (descending B score l).Nodup := descending_perm.nodup_iff.mpr hl
      exact not_pair_swapped hnodup (hA.trans hstart.sublist) hB
    · intro a ha b hb hpa hpb
      by_contra hlow
      have hne : b ≠ a := by
        rintro rfl
        exact absurd (hpa.symm.trans hpb) (by decide)
      obtain ⟨S, hS⟩ : ∃ S, [b, a].Sublist (descending S score l) :=
        exists_before hb ha hne (not_lt.mp hlow)
      obtain ⟨rest, hrest⟩ := hprefix S
      have hnodup : (descending S score (l.filter p) ++ rest).Nodup := by
        rw [hrest]
        exact descending_perm.nodup_iff.mpr hl
      rw [← hrest] at hS
      -- what passes is in front, and once
      have hain : a ∈ descending S score (l.filter p) :=
        mem_descending.mpr (mem_filter.mpr ⟨ha, hpa⟩)
      have hbout : b ∉ descending S score (l.filter p) := by
        intro hin
        have hpass := (mem_filter.mp (mem_descending.mp hin)).2
        exact absurd (hpass.symm.trans hpb) (by decide)
      have hbrest : b ∈ rest := (mem_append.mp (hS.subset (.head _ ..))).resolve_left hbout
      have hab : [a, b].Sublist (descending S score (l.filter p) ++ rest) :=
        (singleton_sublist.mpr hain).append (singleton_sublist.mpr hbrest)
      exact not_pair_swapped hnodup hab hS
  · rintro (hall | ⟨huntied, hlower⟩) S
    · simp only [hall, prefix_rfl]
    · have hparts := eq_filter_append (p := p) (descending_sorted (S := S)) fun a ha b hb =>
        hlower a (mem_descending.mp ha) b (mem_descending.mp hb)
      exact ⟨_, descending_filter huntied ▸ hparts⟩

end ScoreSort
