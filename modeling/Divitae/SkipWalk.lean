/-
# `SkipWalk` — `GetAncestor` on every block index

Where the skip pointers are built as entries come, nothing else is needed for `GetAncestor` to
be right: not that a header is checked, nor that its data is there.

    Built                  the index is loaded lowest entry first, then takes step after step
    Climbing               heights go on along `pprev`, every `pskip` leads to the ancestor at
                           its height
    buildAll_climbing      so it is once the index is loaded
    skipStep_climbing      and after every step
    GetAncestor_follows_pprev
                           for every height not above the block's own

A height below 0 is asked of nobody: both ways end behind the first block.
-/
import Divitae.BlockDownload

namespace Divitae.BlockIndex

open SkipTree Option

namespace BlockTree

variable {N : TreeNode} {T T' : BlockTree} {hash : uint256} {e' : CBlockIndex} {block : CBlock}
  {pos : CDiskBlockPos} {verdicts : Verdicts} {new : Option uint256}

/-- An entry that comes is a first one, or stands on one that is there. -/
def Enters (T : BlockTree) (e : CBlockIndex) : Prop :=
  (e.pprev = none ∧ e.nHeight = 0) ∨
    ∃ p q, e.pprev = some p ∧ T.entry p = some q ∧ e.nHeight = q.nHeight + 1

theorem newEntry_enters (T : BlockTree) (block : CBlock) : T.Enters (T.newEntry N block) := by
  cases hprev : T.entry block.hashPrevBlock with
  | none =>
    rw [newEntry_root hprev]
    exact .inl ⟨rfl, rfl⟩
  | some q =>
    rw [newEntry_next hprev]
    exact .inr ⟨block.hashPrevBlock, q, rfl, hprev, rfl⟩

theorem AcceptBlockHeader_enters (hnone : T.entry hash = none)
    (he' : (T.AcceptBlockHeader N block verdicts).1.entry hash = some e') : T.Enters e' := by
  unfold AcceptBlockHeader at he'
  cases hlook : T.entry (block.GetHash N) with
  | some e =>
    rw [hlook] at he'
    exact absurd (hnone.symm.trans he') (some_ne_none e').symm
  | none =>
    rw [hlook] at he'
    split_ifs at he'
    · unfold entry at he'
      rw [AddToBlockIndex_mapBlockIndex hlook] at he'
      rcases eq_or_ne hash (block.GetHash N) with rfl | hne
      · rw [AList.lookup_insert] at he'
        cases he'
        exact newEntry_enters T block
      · rw [AList.lookup_insert_ne hne] at he'
        exact absurd (hnone.symm.trans he') (some_ne_none e').symm
    · exact absurd (hnone.symm.trans he') (some_ne_none e').symm

theorem Grown.enters (h : Grown N none T' T'') (hentered : ∀ e, T'.entry hash = some e → T.Enters e)
    (he' : T''.entry hash = some e') : T.Enters e' := by
  cases he : T'.entry hash with
  | none => exact absurd (h.fresh hash e' he' he).1 (some_ne_none hash)
  | some e =>
    obtain ⟨e₂, he₂, hline⟩ := h.kept hash e he
    obtain rfl : e' = e₂ := some.inj (he'.symm.trans he₂)
    unfold Enters
    rw [hline.pprev, hline.nHeight]
    exact hentered e he

/-- **What a step brings** is a first entry, or stands on one that was there. -/
theorem treeStep_enters {i : TreeEvent} (hnone : T.entry hash = none)
    (he' : (treeStep N T i).entry hash = some e') : T.Enters e' := by
  have hedited : ∀ hash' (f : CBlockIndex → CBlockIndex), (∀ e, SameLine e (f e)) →
      (T.edit hash' f).entry hash = some e' → T.Enters e' := by
    intro hash' f hline
    refine @Grown.enters N T T _ _ _ (Grown.edit fun e _ => hline e) ?_
    exact fun e he => absurd (hnone.symm.trans he) (some_ne_none e).symm
  cases i with
  | header header verdicts => exact AcceptBlockHeader_enters hnone he'
  | block block verdicts pos =>
    -- the data of a block is taken in after its header
    have htaken : ∀ T₁ : BlockTree, T₁.mapBlockIndex = T.mapBlockIndex →
        ((if (T₁.AcceptBlockHeader N block verdicts).2 then
          (T₁.AcceptBlockHeader N block verdicts).1.AcceptBlockData N block verdicts pos
          else (T₁.AcceptBlockHeader N block verdicts).1).entry hash = some e') →
        T.Enters e' := by
      intro T₁ hmap htaken
      have hentry : ∀ y, T₁.entry y = T.entry y := fun y => congrArg (AList.lookup y) hmap
      have hheader : ∀ e, (T₁.AcceptBlockHeader N block verdicts).1.entry hash = some e →
          T.Enters e := by
        intro e he
        have hentered := AcceptBlockHeader_enters ((hentry hash).trans hnone) he
        unfold Enters at hentered ⊢
        simpa only [hentry] using hentered
      split_ifs at htaken
      · exact (grown_AcceptBlockData _).enters hheader htaken
      · exact hheader e' htaken
    have hsame : T.entry hash ≠ some e' := by
      rw [hnone]
      exact (some_ne_none e').symm
    simp only [treeStep, AcceptBlock] at he'
    split_ifs at he' with hprev hwork hstake
    · exact absurd he' hsame
    · exact absurd he' hsame
    · cases hproof : verdicts.CheckProofOfStake with
      | none =>
        rw [hproof] at he'
        exact absurd he' hsame
      | some proof =>
        rw [hproof] at he'
        exact htaken _ (recordProof_mapBlockIndex _ proof).1 he'
    · exact htaken T rfl he'
  | figures hash' figures => exact hedited hash' (setFigures figures) (fun _ => ⟨rfl, rfl, id⟩) he'
  | undo hash' nPos =>
    refine hedited hash' _ ?_ he'
    intro e
    unfold setUndo
    split_ifs
    · exact ⟨rfl, rfl, fun hdata => by simpa using hdata⟩
    · exact ⟨rfl, rfl, fun hdata => by simpa using hdata⟩
  | mark hash' failedValid failedChild =>
    exact hedited hash' (setFailed failedValid failedChild) (fun _ => ⟨rfl, rfl, id⟩) he'
  | chain candidates chainActive =>
    exact absurd (hnone.symm.trans he') (some_ne_none e').symm

/-- **Heights go on along `pprev`**, whatever the steps. -/
theorem treeStep_grounded (i : TreeEvent)
    (h : SkipList.Grounded T.pprev T.Known T.nHeight) :
    SkipList.Grounded (treeStep N T i).pprev (treeStep N T i).Known (treeStep N T i).nHeight := by
  rcases treeStep_grown N T i with ⟨candidates, chainActive, rfl⟩ | hgrown
  · exact h
  have hplace : ∀ {x}, T.Known x → _ := fun hx => hgrown.place hx
  -- an entry that comes is where it entered, and so is the one it stands on
  have hcame : ∀ {x}, (treeStep N T i).Known x → ¬T.Known x →
      ∃ e, (treeStep N T i).entry x = some e ∧ T.Enters e := by
    intro x hx hnew
    obtain ⟨e, he⟩ := known_iff.mp hx
    exact ⟨e, he, treeStep_enters (not_isSome_iff_eq_none.mp hnew) he⟩
  constructor
  · intro x hx hroot
    by_cases hold : T.Known x
    · obtain ⟨-, hprev, hheight⟩ := hplace hold
      rw [hheight]
      exact h.root x hold (hprev.symm.trans hroot)
    · obtain ⟨e, he, hfirst | ⟨p, q, hp, -, -⟩⟩ := hcame hx hold
      · rw [nHeight_of_entry he, hfirst.2]
      · rw [pprev_of_entry he, hp] at hroot
        cases hroot
  · intro x y hx hxy
    by_cases hold : T.Known x
    · obtain ⟨-, hprev, hheight⟩ := hplace hold
      obtain ⟨hy, hnext⟩ := h.next x y hold (hprev.symm.trans hxy)
      obtain ⟨hy', -, hyheight⟩ := hplace hy
      exact ⟨hy', by rw [hheight, hyheight, hnext]⟩
    · obtain ⟨e, he, hfirst | ⟨p, q, hp, hq, hnext⟩⟩ := hcame hx hold
      · rw [pprev_of_entry he, hfirst.1] at hxy
        cases hxy
      · rw [pprev_of_entry he, hp] at hxy
        cases hxy
        obtain ⟨hy', -, hyheight⟩ := hplace (known_iff.mpr ⟨q, hq⟩)
        exact ⟨hy', by rw [nHeight_of_entry he, hyheight, nHeight_of_entry hq, hnext]⟩

end BlockTree

namespace SkipTree

variable {N : TreeNode} {S : SkipTree} {x y p : uint256} {n : ℕ}

/-- What `GetAncestor` needs. -/
structure Climbing (S : SkipTree) : Prop where
  grounded : SkipList.Grounded S.pprev S.Known S.nHeight
  skips : ∀ x, S.Known x → 0 < S.nHeight x → S.SkipsRight x

theorem climbing_empty : Climbing {} where
  grounded := ⟨nofun, nofun⟩
  skips _ h := nomatch h

/-- **What one step keeps**, whatever it is. -/
theorem skipStep_climbing (h : Climbing S) (i : BlockTree.TreeEvent) :
    Climbing (skipStep N S i) := by
  have hground : SkipList.Grounded (skipStep N S i).pprev (skipStep N S i).Known
      (skipStep N S i).nHeight := by
    rw [skipStep_toBlockTree]
    exact BlockTree.treeStep_grounded i h.grounded
  refine ⟨hground, ?_⟩
  rcases BlockTree.treeStep_grown N S.toBlockTree i with ⟨candidates, chainActive, rfl⟩ | hgrown
  · exact h.skips
  · rw [← skipStep_toBlockTree] at hgrown
    exact fun x => skipStep_skips h.grounded h.skips hground hgrown

/-! ## Loading -/

/-- `LoadBlockIndexDB`: `BuildSkip` for each entry, in the order they are gone through. -/
def buildAll (T : BlockTree) (vSortedByHeight : List uint256) : SkipTree :=
  vSortedByHeight.foldl SkipTree.BuildSkip ⟨T, fun _ => none⟩

theorem foldl_BuildSkip_toBlockTree (S : SkipTree) (l : List uint256) :
    (l.foldl SkipTree.BuildSkip S).toBlockTree = S.toBlockTree := by
  induction l generalizing S with
  | nil => rfl
  | cons x l ih => exact (ih (S.BuildSkip x)).trans (BuildSkip_toBlockTree S x)

theorem BuildSkip_skips (hground : SkipList.Grounded S.pprev S.Known S.nHeight)
    (hbelow : ∀ y, S.Known y → S.nHeight y < S.nHeight x → 0 < S.nHeight y → S.SkipsRight y)
    (hx : S.Known x) (hpos : 0 < S.nHeight x) : (S.BuildSkip x).SkipsRight x := by
  obtain ⟨p, hp, hpknown, hpheight⟩ := hground.step hx hpos
  have hshort := GetSkipHeight_lt hpos
  have hreached := GetAncestor_of_skips (n := GetSkipHeight (S.nHeight x)) hground
    (fun y hy hle => hbelow y hy (by omega)) hpknown (by omega)
  rw [SkipsRight, BuildSkip_pskip_self hp, hreached, BuildSkip_toBlockTree,
    show S.nHeight x - GetSkipHeight (S.nHeight x) =
      S.nHeight p - GetSkipHeight (S.nHeight x) + 1 by omega, SkipList.back, hp]
  rfl

theorem foldl_BuildSkip_skips {l : List uint256}
    (hground : SkipList.Grounded S.pprev S.Known S.nHeight)
    (hsorted : l.Pairwise fun x y => S.nHeight x ≤ S.nHeight y)
    (hdone : ∀ y, S.Known y → y ∉ l → 0 < S.nHeight y → S.SkipsRight y)
    (hx : S.Known x) (hpos : 0 < S.nHeight x) : (l.foldl SkipTree.BuildSkip S).SkipsRight x := by
  induction l generalizing S with
  | nil => exact hdone x hx List.not_mem_nil hpos
  | cons z l ih =>
    obtain ⟨hfirst, hrest⟩ := List.pairwise_cons.mp hsorted
    have htree := BuildSkip_toBlockTree S z
    refine ih (S := S.BuildSkip z) (by rw [htree]; exact hground) (by rw [htree]; exact hrest) ?_
      (by rw [htree]; exact hx) (by rw [htree]; exact hpos)
    intro y hy hgone hyabove
    rw [htree] at hy hyabove
    rcases eq_or_ne y z with rfl | hne
    · refine BuildSkip_skips hground ?_ hy hyabove
      -- what is lower comes before in the order
      intro w hw hlower hwabove
      refine hdone w hw ?_ hwabove
      intro hmem
      rcases List.mem_cons.mp hmem with rfl | hmem
      · exact absurd hlower (Nat.lt_irrefl _)
      · exact absurd hlower (Nat.not_lt.mpr (hfirst w hmem))
    · rw [SkipsRight, BuildSkip_pskip_ne hne, htree]
      refine hdone y hy ?_ hyabove
      intro hmem
      rcases List.mem_cons.mp hmem with rfl | hmem
      · exact hne rfl
      · exact hgone hmem

/-- **A loaded index.** -/
theorem buildAll_climbing {T : BlockTree} {vSortedByHeight : List uint256}
    (hground : SkipList.Grounded T.pprev T.Known T.nHeight)
    (hsorted : vSortedByHeight.Pairwise fun x y => T.nHeight x ≤ T.nHeight y)
    (hall : ∀ x, T.Known x → x ∈ vSortedByHeight) : Climbing (buildAll T vSortedByHeight) := by
  have htree : (buildAll T vSortedByHeight).toBlockTree = T := foldl_BuildSkip_toBlockTree _ _
  constructor
  · rw [htree]
    exact hground
  · intro x hx hpos
    rw [htree] at hx hpos
    exact foldl_BuildSkip_skips (S := ⟨T, fun _ => none⟩) hground hsorted
      (fun y hy hgone => absurd (hall y hy) hgone) hx hpos

/-! ## Every index -/

/-- An index as the node builds it: read from the disk, in the order of the heights, or empty;
then whatever comes. -/
inductive Built (N : TreeNode) : SkipTree → Prop
  | empty : Built N {}
  | load (T : BlockTree) (vSortedByHeight : List uint256)
      (hground : SkipList.Grounded T.pprev T.Known T.nHeight)
      (hsorted : vSortedByHeight.Pairwise fun x y => T.nHeight x ≤ T.nHeight y)
      (hall : ∀ x, T.Known x → x ∈ vSortedByHeight) : Built N (buildAll T vSortedByHeight)
  | step {S : SkipTree} (h : Built N S) (i : BlockTree.TreeEvent) : Built N (skipStep N S i)

theorem Built.climbing (h : Built N S) : Climbing S := by
  induction h with
  | empty => exact climbing_empty
  | load T vSortedByHeight hground hsorted hall => exact buildAll_climbing hground hsorted hall
  | step _ i ih => exact skipStep_climbing ih i

theorem built_run (is : List BlockTree.TreeEvent) : Built N (is.foldl (skipStep N) {}) := by
  induction is using List.reverseRecOn with
  | nil => exact Built.empty
  | append_singleton is i ih =>
    rw [List.foldl_append]
    exact ih.step i

theorem Climbing.GetAncestor_eq (h : Climbing S) (hx : S.Known x) (hn : n ≤ S.nHeight x) :
    S.GetAncestor x n = SkipList.back S.pprev (S.nHeight x - n) x :=
  GetAncestor_of_skips h.grounded (fun y hy _ => h.skips y hy) hx hn

theorem back_none (h : SkipList.Grounded S.pprev S.Known S.nHeight) (hx : S.Known x)
    (hn : S.nHeight x < n) : SkipList.back S.pprev n x = none := by
  cases hback : SkipList.back S.pprev n x with
  | none => rfl
  | some y =>
    have hheight := h.height_back hx hback
    omega

/-- **`GetAncestor` follows `pprev` height by height.**  For a height of the block's chain it
comes to the block at that height. -/
theorem GetAncestor_follows_pprev (hbuilt : Built N S) (hx : S.Known x) {height : Int}
    (hheight : height ≤ S.nHeight x) :
    S.GetAncestor x height = SkipList.back S.pprev ((S.nHeight x : Int) - height).toNat x ∧
      (0 ≤ height → ∃ y, S.GetAncestor x height = some y ∧ S.Known y ∧ S.nHeight y = height) := by
  have hclimbing := hbuilt.climbing
  rcases lt_or_ge height 0 with hneg | hpos
  · refine ⟨?_, fun h => absurd hneg (Int.not_lt.mpr h)⟩
    rw [GetAncestor, if_pos (Or.inr hneg), back_none hclimbing.grounded hx (by omega)]
  · obtain ⟨n, rfl⟩ := Int.eq_ofNat_of_zero_le hpos
    have hn : n ≤ S.nHeight x := Int.ofNat_le.mp hheight
    have heq := hclimbing.GetAncestor_eq hx hn
    obtain ⟨y, hback, hy, hylevel⟩ :=
      hclimbing.grounded.back (n := S.nHeight x - n) hx (Nat.sub_le _ _)
    refine ⟨?_, fun _ => ⟨y, heq.trans hback, hy, by omega⟩⟩
    rw [heq, show ((S.nHeight x : Int) - (n : Int)).toNat = S.nHeight x - n by omega]

/-- The headers of five blocks, each behind the one before. -/
def fiveHeaders : List BlockTree.TreeEvent :=
  [genesis, plainBlock 2 0, plainBlock 4 0, plainBlock 6 0, plainBlock 8 0].map
    fun block => .header block.toCBlockHeader (allGood 0)

/-- From the fifth to the second: once by `pprev`, and then by the skip pointer of the fourth. -/
theorem fifth_to_second :
    let S := fiveHeaders.foldl (skipStep stakeNode) {}
    S.nHeight 10 = 4 ∧ S.pskip 8 = some 4 ∧
      S.GetAncestor 10 1 = SkipList.back S.pprev ((S.nHeight 10 : Int) - 1).toNat 10 ∧
      (0 ≤ (1 : Int) → ∃ y, S.GetAncestor 10 1 = some y ∧ S.Known y ∧ (S.nHeight y : Int) = 1) :=
  ⟨by decide +kernel, by decide +kernel, GetAncestor_follows_pprev (built_run fiveHeaders)
    (show _ = true by decide +kernel) (by decide +kernel)⟩

end SkipTree

end Divitae.BlockIndex
