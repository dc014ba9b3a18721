/-
# `Lib.Buckets` — a map to sets none of which is empty

An index beside a table keeps, under each key, the set of the rows that have it.  A row enters
under each of its keys and leaves again; a key may come more than once, and a set that gets empty
goes with it.

    bucket m k         the rows under `k`
    enter, leave       one key of a row
    enterAll, leaveAll
                       all its keys, one after the other
    mem_bucket_enterAll, mem_bucket_leaveAll
                       what is under a key after that
    Tidy               no set is empty; kept by all of them
-/
import Mathlib.Data.List.AList
import Mathlib.Data.Finset.Basic

namespace Buckets

variable {κ ι : Type*} [DecidableEq κ]

def bucket (m : AList fun _ : κ => Finset ι) (k : κ) : Finset ι := (m.lookup k).getD ∅

theorem mem_bucket {m : AList fun _ : κ => Finset ι} {k : κ} {i : ι} :
    i ∈ bucket m k ↔ ∃ s, m.lookup k = some s ∧ i ∈ s := by
  unfold bucket
  cases m.lookup k with
  | none =>
    constructor
    · intro h
      exact absurd h (Finset.notMem_empty i)
    · rintro ⟨s, hs, -⟩
      cases hs
  | some s =>
    constructor
    · intro h
      exact ⟨s, rfl, h⟩
    · rintro ⟨s', hs, h⟩
      cases hs
      exact h

variable [DecidableEq ι]

/-- `m[k].insert(i)`. -/
def enter (m : AList fun _ : κ => Finset ι) (k : κ) (i : ι) : AList fun _ : κ => Finset ι :=
  m.insert k (insert i (bucket m k))

/-- A row out of a set, and the set with it if it was the last. -/
def leave (m : AList fun _ : κ => Finset ι) (k : κ) (i : ι) : AList fun _ : κ => Finset ι :=
  match m.lookup k with
  | none => m
  | some s => if s.erase i = ∅ then m.erase k else m.insert k (s.erase i)

def enterAll (m : AList fun _ : κ => Finset ι) (l : List κ) (i : ι) : AList fun _ : κ => Finset ι :=
  l.foldl (fun m k => enter m k i) m

def leaveAll (m : AList fun _ : κ => Finset ι) (l : List κ) (i : ι) : AList fun _ : κ => Finset ι :=
  l.foldl (fun m k => leave m k i) m

/-- No set is empty. -/
def Tidy (m : AList fun _ : κ => Finset ι) : Prop := ∀ k s, m.lookup k = some s → s.Nonempty

variable {m : AList fun _ : κ => Finset ι} {k k' : κ} {i j : ι} {l : List κ}

/-! ## One key -/

theorem bucket_enter_self : bucket (enter m k i) k = insert i (bucket m k) := by
  rw [enter, bucket, AList.lookup_insert, Option.getD_some]

theorem bucket_enter_ne (h : k' ≠ k) : bucket (enter m k i) k' = bucket m k' := by
  rw [enter, bucket, AList.lookup_insert_ne h]
  rfl

theorem bucket_leave_self : bucket (leave m k i) k = (bucket m k).erase i := by
  unfold leave
  cases hlook : m.lookup k with
  | none =>
    rw [bucket, hlook]
    rfl
  | some s =>
    have hbucket : bucket m k = s := by
      rw [bucket, hlook]
      rfl
    dsimp only
    split_ifs with hlast
    · rw [hbucket, hlast, bucket, AList.lookup_erase]
      rfl
    · rw [hbucket, bucket, AList.lookup_insert]
      rfl

theorem bucket_leave_ne (h : k' ≠ k) : bucket (leave m k i) k' = bucket m k' := by
  unfold leave
  cases m.lookup k with
  | none => rfl
  | some s =>
    dsimp only
    split_ifs
    · rw [bucket, AList.lookup_erase_ne h]
      rfl
    · rw [bucket, AList.lookup_insert_ne h]
      rfl

theorem Tidy.enter (h : Tidy m) : Tidy (Buckets.enter m k i) := by
  intro k' s hs
  rcases eq_or_ne k' k with rfl | hne
  · rw [Buckets.enter, AList.lookup_insert] at hs
    cases hs
    exact Finset.insert_nonempty i _
  · rw [Buckets.enter, AList.lookup_insert_ne hne] at hs
    exact h k' s hs

theorem Tidy.leave (h : Tidy m) : Tidy (Buckets.leave m k i) := by
  intro k' s hs
  unfold Buckets.leave at hs
  cases hlook : m.lookup k with
  | none =>
    rw [hlook] at hs
    exact h k' s hs
  | some s₀ =>
    rw [hlook] at hs
    dsimp only at hs
    split_ifs at hs with hlast
    · rcases eq_or_ne k' k with rfl | hne
      · rw [AList.lookup_erase] at hs
        cases hs
      · rw [AList.lookup_erase_ne hne] at hs
        exact h k' s hs
    · rcases eq_or_ne k' k with rfl | hne
      · rw [AList.lookup_insert] at hs
        cases hs
        exact Finset.nonempty_iff_ne_empty.mpr hlast
      · rw [AList.lookup_insert_ne hne] at hs
        exact h k' s hs

/-- **A row that enters** is under each of its keys, and nothing else has changed. -/
theorem mem_bucket_enterAll :
    j ∈ bucket (enterAll m l i) k ↔ j ∈ bucket m k ∨ (j = i ∧ k ∈ l) := by
  induction l generalizing m with
  | nil => exact ⟨.inl, fun h => h.resolve_right fun hin => absurd hin.2 List.not_mem_nil⟩
  | cons k₀ l ih =>
    show j ∈ bucket (enterAll (enter m k₀ i) l i) k ↔ _
    rw [ih, List.mem_cons]
    rcases eq_or_ne k k₀ with rfl | hne
    · rw [bucket_enter_self, Finset.mem_insert]
      tauto
    · rw [bucket_enter_ne hne]
      tauto

/-- **A row that leaves** is under none of its keys any more, and nothing else has changed. -/
theorem mem_bucket_leaveAll :
    j ∈ bucket (leaveAll m l i) k ↔ j ∈ bucket m k ∧ ¬(j = i ∧ k ∈ l) := by
  induction l generalizing m with
  | nil => exact ⟨fun h => ⟨h, fun hin => absurd hin.2 List.not_mem_nil⟩, And.left⟩
  | cons k₀ l ih =>
    show j ∈ bucket (leaveAll (leave m k₀ i) l i) k ↔ _
    rw [ih, List.mem_cons]
    rcases eq_or_ne k k₀ with rfl | hne
    · rw [bucket_leave_self, Finset.mem_erase]
      tauto
    · rw [bucket_leave_ne hne]
      tauto

theorem Tidy.enterAll (h : Tidy m) : Tidy (Buckets.enterAll m l i) := by
  induction l generalizing m with
  | nil => exact h
  | cons k l ih => exact ih h.enter

theorem Tidy.leaveAll (h : Tidy m) : Tidy (Buckets.leaveAll m l i) := by
  induction l generalizing m with
  | nil => exact h
  | cons k l ih => exact ih h.leave

end Buckets
