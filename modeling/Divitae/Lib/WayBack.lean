/-
# `Lib.WayBack` — a search that can go back

A search among blocks, each of a rank.  It stands on a stack of blocks, the active ones, and keeps
candidates it may still go to.

    rule out    candidates are given up; each has failed, and is not active
    leave       the block on top is left
    reach       a block that has not failed is put on top; candidates of lower rank are given up

Where no block that was left has failed, there is always a candidate of no lower rank than the one
the search began with (`moves_reference`).  What keeps it is a *reference*: a candidate that was
reached once, such that everything of no lower rank that may be gone to is a candidate too.
-/
import Mathlib.Data.Set.Insert

namespace WayBack

/-- Where a search stands. -/
structure Search (β : Type*) where
  /-- the top first -/
  active : List β
  candidates : Set β
  failed : Set β
  /-- what was active once, and was left -/
  left : Set β

section
variable {β γ : Type*} [LinearOrder γ] (rank : β → γ) (linked : Set β)

/-- One move of a search; `linked` blocks may be gone to. -/
inductive Move (s s' : Search β) : Prop
  | ruleOut (hactive : s'.active = s.active) (hleft : s'.left = s.left)
      (hfailed : s.failed ⊆ s'.failed)
      (hcandidates : ∀ b ∈ s.candidates, b ∈ s'.candidates ∨ (b ∈ s'.failed ∧ b ∉ s.active))
  | leave (b : β) (hactive : s.active = b :: s'.active) (hleft : s'.left = insert b s.left)
      (hfailed : s'.failed = s.failed) (hcandidates : s'.candidates = s.candidates)
  | reach (b : β) (hlinked : b ∈ linked) (hsound : b ∉ s.failed)
      (hactive : s'.active = b :: s.active) (hleft : s'.left = s.left)
      (hfailed : s'.failed = s.failed)
      (hcandidates : ∀ c, c ∈ s'.candidates ↔ c ∈ s.candidates ∧ rank b ≤ rank c)

abbrev Moves : Search β → Search β → Prop := Relation.ReflTransGen (Move rank linked)

/-- Nothing that was left has failed. -/
def Search.Sound (s : Search β) : Prop := ∀ b ∈ s.left, b ∉ s.failed

/-- A candidate to go back to. -/
structure Reference (s : Search β) (r : β) : Prop where
  candidate : r ∈ s.candidates
  visited : r ∈ s.active ∨ r ∈ s.left
  complete : ∀ b ∈ linked, b ∉ s.failed → rank r ≤ rank b → b ∈ s.candidates

end

section
variable {β γ : Type*} [LinearOrder γ] {rank : β → γ} {linked : Set β} {s s' : Search β} {r : β}

theorem Move.failed_subset (h : Move rank linked s s') : s.failed ⊆ s'.failed := by
  cases h with
  | ruleOut hactive hleft hfailed hcandidates => exact hfailed
  | leave b hactive hleft hfailed hcandidates => exact hfailed.ge
  | reach b hlinked hb hactive hleft hfailed hcandidates => exact hfailed.ge

theorem Move.left_subset (h : Move rank linked s s') : s.left ⊆ s'.left := by
  cases h with
  | ruleOut hactive hleft hfailed hcandidates => exact hleft.ge
  | leave b hactive hleft hfailed hcandidates => exact hleft ▸ Set.subset_insert b s.left
  | reach b hlinked hb hactive hleft hfailed hcandidates => exact hleft.ge

theorem Moves.mono (h : Moves rank linked s s') : s.failed ⊆ s'.failed ∧ s.left ⊆ s'.left := by
  induction h with
  | refl => exact ⟨subset_rfl, subset_rfl⟩
  | tail _ hmove ih => exact ⟨ih.1.trans hmove.failed_subset, ih.2.trans hmove.left_subset⟩

theorem Moves.sound (h : Moves rank linked s s') (hsound : s'.Sound) : s.Sound := by
  intro b hb hb'
  exact hsound b (h.mono.2 hb) (h.mono.1 hb')

/-- **Every move leaves a way back.**  The reference is given up only for a block that is
reached, and of higher rank. -/
theorem Move.reference (h : Move rank linked s s') (hr : Reference rank linked s r)
    (hsound : s'.Sound) : ∃ r', rank r ≤ rank r' ∧ Reference rank linked s' r' := by
  cases h with
  | ruleOut hactive hleft hfailed hcandidates =>
    refine ⟨r, le_rfl, ?_, ?_, ?_⟩
    · rcases hcandidates r hr.candidate with hmem | ⟨hfail, hoff⟩
      · exact hmem
      · -- it was left, and what was left has not failed
        rcases hr.visited with hon | hgone
        · exact absurd hon hoff
        · exact absurd hfail (hsound r (hleft ▸ hgone))
    · rw [hactive, hleft]
      exact hr.visited
    · intro b hb hgood hle
      have hbefore : b ∉ s.failed := fun hfail => hgood (hfailed hfail)
      rcases hcandidates b (hr.complete b hb hbefore hle) with hmem | ⟨hfail, -⟩
      · exact hmem
      · exact absurd hfail hgood
  | leave b hactive hleft hfailed hcandidates =>
    refine ⟨r, le_rfl, hcandidates ▸ hr.candidate, ?_, ?_⟩
    · rw [hleft]
      rcases hr.visited with hon | hgone
      · rw [hactive] at hon
        rcases List.mem_cons.mp hon with rfl | hbelow
        · exact .inr (Set.mem_insert r s.left)
        · exact .inl hbelow
      · exact .inr (Set.mem_insert_of_mem b hgone)
    · rw [hfailed, hcandidates]
      exact hr.complete
  | reach b hlinked hb hactive hleft hfailed hcandidates =>
    by_cases hle : rank b ≤ rank r
    · refine ⟨r, le_rfl, (hcandidates r).mpr ⟨hr.candidate, hle⟩, ?_, ?_⟩
      · rw [hactive, hleft]
        exact hr.visited.imp (List.mem_cons_of_mem b) id
      · intro c hc hgood hrc
        exact (hcandidates c).mpr ⟨hr.complete c hc (hfailed ▸ hgood) hrc, hle.trans hrc⟩
    · have hlt : rank r ≤ rank b := (lt_of_not_ge hle).le
      refine ⟨b, hlt, (hcandidates b).mpr ⟨hr.complete b hlinked hb hlt, le_rfl⟩, ?_, ?_⟩
      · rw [hactive]
        exact Or.inl List.mem_cons_self
      · intro c hc hgood hbc
        exact (hcandidates c).mpr ⟨hr.complete c hc (hfailed ▸ hgood) (hlt.trans hbc), hbc⟩

theorem moves_reference (h : Moves rank linked s s') (hr : Reference rank linked s r)
    (hsound : s'.Sound) : ∃ r', rank r ≤ rank r' ∧ Reference rank linked s' r' := by
  induction h with
  | refl => exact ⟨r, le_rfl, hr⟩
  | tail _ hmove ih =>
    obtain ⟨r₁, hle₁, hr₁⟩ := ih (Moves.sound (.single hmove) hsound)
    obtain ⟨r₂, hle₂, hr₂⟩ := hmove.reference hr₁ hsound
    exact ⟨r₂, hle₁.trans hle₂, hr₂⟩

end

end WayBack
