/-
# `BestChainKept` — what the steps towards the best chain keep

The place of every entry stays as it is (`SameTree`), the active chain remains the branch of its
tip (`Steady`), and seen from outside each step is a move of a search that can go back.

`rank` is the order of the candidates: work first, then what came earlier.
-/
import Divitae.Ancestors
import Divitae.BestChain
import Divitae.Lib.WayBack
import Mathlib.Data.Prod.Lex

namespace Divitae.BlockIndex

open WayBack List Bool

namespace BlockTree

/-! ## Places -/

/-- What the choice of a chain reads of an entry, its flags of failure apart. -/
structure Fixed (e e' : CBlockIndex) : Prop where
  pprev : e'.pprev = e.pprev
  nHeight : e'.nHeight = e.nHeight
  nChainWork : e'.nChainWork = e.nChainWork
  nChainTx : e'.nChainTx = e.nChainTx
  nSequenceId : e'.nSequenceId = e.nSequenceId
  haveData : e'.nStatus.haveData = e.nStatus.haveData

/-- Every entry is in its place. -/
def SameTree (T T' : BlockTree) : Prop := ∀ hash, Fixed (T.deref hash) (T'.deref hash)

section
variable {T T' T'' : BlockTree} {hash hash' : uint256} {f : CBlockIndex → CBlockIndex}

theorem SameTree.refl (T : BlockTree) : SameTree T T := fun _ => ⟨rfl, rfl, rfl, rfl, rfl, rfl⟩

theorem SameTree.trans (h : SameTree T T') (h' : SameTree T' T'') : SameTree T T'' := by
  intro hash
  have ha := h hash
  have hb := h' hash
  exact ⟨hb.pprev.trans ha.pprev, hb.nHeight.trans ha.nHeight, hb.nChainWork.trans ha.nChainWork,
    hb.nChainTx.trans ha.nChainTx, hb.nSequenceId.trans ha.nSequenceId,
    hb.haveData.trans ha.haveData⟩

theorem deref_of_map (h : T'.mapBlockIndex = T.mapBlockIndex) (hash : uint256) :
    T'.deref hash = T.deref hash := by
  simp only [deref, entry, h]

theorem SameTree.of_map (h : T'.mapBlockIndex = T.mapBlockIndex) : SameTree T T' := by
  intro hash
  rw [deref_of_map h]
  exact ⟨rfl, rfl, rfl, rfl, rfl, rfl⟩

@[simp] theorem edit_setBlockIndexCandidates :
    (T.edit hash f).setBlockIndexCandidates = T.setBlockIndexCandidates := by
  unfold BlockTree.edit
  split <;> rfl

theorem deref_edit_ne (hne : hash' ≠ hash) : (T.edit hash f).deref hash' = T.deref hash' := by
  rw [deref, entry_edit_ne hne, deref]

theorem deref_edit (hash hash' : uint256) :
    (T.edit hash f).deref hash' = T.deref hash' ∨
      hash' = hash ∧ (T.edit hash f).deref hash' = f (T.deref hash') := by
  rcases eq_or_ne hash' hash with rfl | hne
  · rw [deref, deref, entry_edit_self]
    cases T.entry hash' with
    | none => exact .inl rfl
    | some e => exact .inr ⟨rfl, rfl⟩
  · exact .inl (deref_edit_ne hne)

theorem deref_edit_self (h : (T.entry hash).isSome) :
    (T.edit hash f).deref hash = f (T.deref hash) := by
  obtain ⟨e, he⟩ := Option.isSome_iff_exists.mp h
  rw [deref, deref, entry_edit_self, he]
  rfl

theorem SameTree.edit (hf : ∀ e, Fixed e (f e)) (hash : uint256) : SameTree T (T.edit hash f) := by
  intro hash'
  rcases deref_edit (T := T) (f := f) hash hash' with heq | ⟨-, heq⟩
  · rw [heq]
    exact SameTree.refl T hash'
  · rw [heq]
    exact hf _

theorem setFailed_fixed (failedValid failedChild : CBlockIndex → Bool) (e : CBlockIndex) :
    Fixed e (setFailed (failedValid e) (failedChild e) e) := ⟨rfl, rfl, rfl, rfl, rfl, rfl⟩

theorem setFailed_haveUndo (failedValid failedChild : Bool) (e : CBlockIndex) :
    (setFailed failedValid failedChild e).nStatus.haveUndo = e.nStatus.haveUndo := rfl

theorem setFailed_valid (failedValid failedChild : Bool) (e : CBlockIndex) :
    (setFailed failedValid failedChild e).nStatus.valid = e.nStatus.valid := rfl

theorem setUndo_fixed (nPos : ℕ) (e : CBlockIndex) : Fixed e (setUndo nPos e) := by
  unfold setUndo
  split <;> exact ⟨rfl, rfl, rfl, rfl, rfl, by simp⟩

theorem SameTree.branchUpTo (h : SameTree T T') (nHeight : ℕ) (pindex : uint256) :
    T'.branchUpTo nHeight pindex = T.branchUpTo nHeight pindex := by
  induction nHeight generalizing pindex with
  | zero => rfl
  | succ nHeight ih =>
    rw [BlockTree.branchUpTo, BlockTree.branchUpTo, (h pindex).pprev]
    cases (T.deref pindex).pprev with
    | none => rfl
    | some pprev => exact congrArg (pindex :: ·) (ih pprev)

theorem SameTree.branch (h : SameTree T T') (pindex : uint256) :
    T'.branch pindex = T.branch pindex := by
  rw [BlockTree.branch, BlockTree.branch, (h pindex).nHeight, h.branchUpTo]

theorem SameTree.GetAncestor (h : SameTree T T') (pindex : uint256) (nHeight : ℕ) :
    T'.GetAncestor pindex nHeight = T.GetAncestor pindex nHeight := by
  rw [BlockTree.GetAncestor, BlockTree.GetAncestor, h.branch]
  simp only [(h _).nHeight]

end

/-! ## Marks -/

/-- Nothing but the flags of failure changes. -/
structure Flagged (T T' : BlockTree) : Prop where
  same : SameTree T T'
  chainActive : T'.chainActive = T.chainActive
  haveUndo : ∀ hash, (T'.deref hash).nStatus.haveUndo = (T.deref hash).nStatus.haveUndo
  valid : ∀ hash, (T'.deref hash).nStatus.valid = (T.deref hash).nStatus.valid

/-- Some entries are marked as failed, or none. -/
structure Marks (T T' : BlockTree) : Prop extends Flagged T T' where
  failed : ∀ hash, (T.deref hash).nStatus.failed = true → (T'.deref hash).nStatus.failed = true

section
variable {T T' T'' : BlockTree} {hash c p : uint256} {above : List uint256}

theorem Flagged.trans (h : Flagged T T') (h' : Flagged T' T'') : Flagged T T'' where
  same := h.same.trans h'.same
  chainActive := h'.chainActive.trans h.chainActive
  haveUndo hash := (h'.haveUndo hash).trans (h.haveUndo hash)
  valid hash := (h'.valid hash).trans (h.valid hash)

theorem Marks.trans (h : Marks T T') (h' : Marks T' T'') : Marks T T'' where
  toFlagged := h.toFlagged.trans h'.toFlagged
  failed hash hfailed := h'.failed hash (h.failed hash hfailed)

theorem Marks.of_map (h : T'.mapBlockIndex = T.mapBlockIndex)
    (hchain : T'.chainActive = T.chainActive) : Marks T T' where
  same := SameTree.of_map h
  chainActive := hchain
  haveUndo hash := by rw [deref_of_map h]
  valid hash := by rw [deref_of_map h]
  failed hash hfailed := by rwa [deref_of_map h]

theorem Flagged.edit (failedValid failedChild : CBlockIndex → Bool) (c : uint256) :
    Flagged T (T.edit c fun e => setFailed (failedValid e) (failedChild e) e) where
  same := SameTree.edit (setFailed_fixed failedValid failedChild) c
  chainActive := edit_chainActive
  haveUndo hash := by
    rcases deref_edit (T := T) (f := fun e => setFailed (failedValid e) (failedChild e) e) c hash
      with heq | ⟨-, heq⟩
    · rw [heq]
    · rw [heq, setFailed_haveUndo]
  valid hash := by
    rcases deref_edit (T := T) (f := fun e => setFailed (failedValid e) (failedChild e) e) c hash
      with heq | ⟨-, heq⟩
    · rw [heq]
    · rw [heq, setFailed_valid]

theorem Marks.edit (failedValid failedChild : CBlockIndex → Bool)
    (h : ∀ e, failedValid e || failedChild e) (c : uint256) :
    Marks T (T.edit c fun e => setFailed (failedValid e) (failedChild e) e) where
  toFlagged := Flagged.edit failedValid failedChild c
  failed hash hfailed := by
    rcases deref_edit (T := T) (f := fun e => setFailed (failedValid e) (failedChild e) e) c hash
      with heq | ⟨-, heq⟩
    · rw [heq, hfailed]
    · rw [heq]
      exact h _

theorem InvalidBlockFound_marks : Marks T (T.InvalidBlockFound c) := by
  have h := Marks.edit (T := T) (fun _ => true) (fun e => e.nStatus.failedChild)
    (fun e => true_or e.nStatus.failedChild) c
  exact ⟨⟨h.same, h.chainActive, h.haveUndo, h.valid⟩, h.failed⟩

theorem InvalidBlockFound_self (h : (T.entry c).isSome) :
    ((T.InvalidBlockFound c).deref c).nStatus.failed = true :=
  congrArg (fun e : CBlockIndex => e.nStatus.failed) (deref_edit_self h)

theorem mem_InvalidBlockFound :
    hash ∈ (T.InvalidBlockFound c).setBlockIndexCandidates ↔
      hash ∈ T.setBlockIndexCandidates ∧ hash ≠ c := by
  rw [InvalidBlockFound, erase, mem_filter, edit_setBlockIndexCandidates, bne_iff_ne]

theorem giveUp_marks (above : List uint256) (T : BlockTree) :
    Marks T (above.foldl (giveUp true) T) ∧
      ∀ c ∈ above, (T.entry c).isSome →
        ((above.foldl (giveUp true) T).deref c).nStatus.failed = true := by
  induction above generalizing T with
  | nil => exact ⟨Marks.of_map rfl rfl, nofun⟩
  | cons c above ih =>
    have hone := Marks.edit (T := T) (fun e => e.nStatus.failedValid) (fun _ => true)
      (fun e => or_true e.nStatus.failedValid) c
    obtain ⟨hrest, hmarked⟩ := ih (T.edit c fun e => setFailed e.nStatus.failedValid true e)
    refine ⟨hone.trans hrest, ?_⟩
    intro c' hc' hsome
    rcases mem_cons.mp hc' with rfl | hc'
    · refine hrest.failed c' ?_
      rw [deref_edit_self hsome]
      exact or_true (T.deref c').nStatus.failedValid
    · refine hmarked c' hc' ?_
      rcases eq_or_ne c' c with rfl | hne
      · rw [entry_edit_self, Option.isSome_map]
        exact hsome
      · rw [entry_edit_ne hne]
        exact hsome

theorem removeChain_marks (above : List uint256) (h : (T.deref p).nStatus.failed = true) :
    Marks T (T.removeChain above p) := by
  have hmarks := (giveUp_marks above T).1
  rw [removeChain, h]
  exact ⟨⟨hmarks.same, hmarks.chainActive, hmarks.haveUndo, hmarks.valid⟩, hmarks.failed⟩

theorem removeChain_failed (h : (T.deref p).nStatus.failed = true)
    (hc : c ∈ above ++ [p]) (hsome : (T.entry c).isSome) :
    ((T.removeChain above p).deref c).nStatus.failed = true := by
  rcases mem_append.mp hc with hc | hc
  · rw [removeChain, h]
    exact (giveUp_marks above T).2 c hc hsome
  · obtain rfl := mem_singleton.mp hc
    exact (removeChain_marks above h).failed c h

theorem mem_removeChain :
    hash ∈ (T.removeChain above p).setBlockIndexCandidates ↔
      hash ∈ T.setBlockIndexCandidates ∧ hash ∉ above ++ [p] := by
  rw [removeChain, mem_filter, not_eq_true', ← not_eq_true, contains_iff_mem]

end

/-! ## Branches -/

def Linked (T : BlockTree) (hash : uint256) : Prop := (T.deref hash).nChainTx ≠ 0

/-- A tree with one root. -/
structure Grounded (genesis : uint256) (T : BlockTree) : Prop where
  height : ∀ hash p, (T.deref hash).pprev = some p →
    (T.deref hash).nHeight = (T.deref p).nHeight + 1
  work : ∀ hash p, (T.deref hash).pprev = some p →
    (T.deref p).nChainWork < (T.deref hash).nChainWork
  root : (T.deref genesis).pprev = none
  only : ∀ hash, T.Linked hash → (T.deref hash).pprev = none → hash = genesis
  below : ∀ hash p, T.Linked hash → (T.deref hash).pprev = some p → T.Linked p
  data : ∀ hash, T.Linked hash → (T.deref hash).nStatus.haveData = true

section
variable {T : BlockTree} {genesis pindex p c : uint256} {l s : List uint256}

theorem Linked.isSome (h : T.Linked c) : (T.entry c).isSome := by
  rw [Linked, deref] at h
  cases hentry : T.entry c with
  | none =>
    rw [hentry] at h
    exact absurd rfl h
  | some e => rfl

theorem branch_root (h : (T.deref pindex).pprev = none) : T.branch pindex = [pindex] := by
  rw [branch]
  cases (T.deref pindex).nHeight with
  | zero => rfl
  | succ nHeight => rw [branchUpTo, h]

section
variable (hT : Grounded genesis T)
include hT

theorem Grounded.branch_next (h : (T.deref pindex).pprev = some p) :
    T.branch pindex = pindex :: T.branch p := by
  rw [branch, hT.height pindex p h, branchUpTo, h, branch]

theorem Grounded.induction {P : uint256 → Prop}
    (hroot : ∀ pindex, (T.deref pindex).pprev = none → P pindex)
    (hnext : ∀ pindex p, (T.deref pindex).pprev = some p → P p → P pindex) (pindex : uint256) :
    P pindex := by
  induction hheight : (T.deref pindex).nHeight using Nat.strong_induction_on
    generalizing pindex with
  | _ nHeight ih =>
    cases hprev : (T.deref pindex).pprev with
    | none => exact hroot pindex hprev
    | some p =>
      have hlt := hT.height pindex p hprev
      exact hnext pindex p hprev (ih _ (by omega) p rfl)

theorem Grounded.branch_suffix (h : T.branch pindex = l ++ c :: s) :
    T.branch c = c :: s := by
  induction pindex using hT.induction generalizing l with
  | hroot pindex hprev =>
    rw [branch_root hprev] at h
    obtain ⟨rfl, heq⟩ | ⟨l', rfl, heq⟩ := cons_eq_append_iff.mp h
    · obtain ⟨rfl, rfl⟩ := cons.inj heq
      exact branch_root hprev
    · exact absurd heq (by simp)
  | hnext pindex p hprev ih =>
    rw [hT.branch_next hprev] at h
    obtain ⟨rfl, heq⟩ | ⟨l', rfl, heq⟩ := cons_eq_append_iff.mp h
    · obtain ⟨rfl, rfl⟩ := cons.inj heq
      exact hT.branch_next hprev
    · exact ih heq

theorem Grounded.not_mem_below (h : T.branch c = c :: s) : c ∉ s := by
  intro hmem
  obtain ⟨l, s', rfl⟩ := append_of_mem hmem
  have hsuffix := hT.branch_suffix (l := c :: l) h
  have hlength : (l ++ c :: s').length = s'.length :=
    congrArg List.length (cons.inj (h.symm.trans hsuffix)).2
  rw [length_append, length_cons] at hlength
  omega

theorem Grounded.linked_of_mem (hlinked : T.Linked pindex)
    (hc : c ∈ T.branch pindex) : T.Linked c := by
  induction pindex using hT.induction with
  | hroot pindex hprev =>
    rw [branch_root hprev, mem_singleton] at hc
    exact hc ▸ hlinked
  | hnext pindex p hprev ih =>
    rw [hT.branch_next hprev] at hc
    rcases mem_cons.mp hc with rfl | hc
    · exact hlinked
    · exact ih (hT.below pindex p hlinked hprev) hc

theorem Grounded.genesis_mem (hlinked : T.Linked pindex) :
    genesis ∈ T.branch pindex := by
  induction pindex using hT.induction with
  | hroot pindex hprev =>
    rw [branch_root hprev, hT.only pindex hlinked hprev]
    exact mem_singleton_self genesis
  | hnext pindex p hprev ih =>
    rw [hT.branch_next hprev]
    exact .tail _ (ih (hT.below pindex p hlinked hprev))

theorem Grounded.work_lt (hc : c ∈ T.branch pindex) (hne : c ≠ pindex) :
    (T.deref c).nChainWork < (T.deref pindex).nChainWork := by
  induction pindex using hT.induction with
  | hroot pindex hprev =>
    rw [branch_root hprev, mem_singleton] at hc
    exact absurd hc hne
  | hnext pindex p hprev ih =>
    rw [hT.branch_next hprev] at hc
    have hlt := hT.work pindex p hprev
    rcases mem_cons.mp hc with rfl | hc
    · exact absurd rfl hne
    · rcases eq_or_ne c p with rfl | hne'
      · exact hlt
      · exact BitVec.lt_trans (ih hc hne') hlt

theorem Grounded.work_le (hc : c ∈ T.branch pindex) :
    c = pindex ∨ (T.deref c).nChainWork < (T.deref pindex).nChainWork := by
  rcases eq_or_ne c pindex with heq | hne
  · exact .inl heq
  · exact .inr (hT.work_lt hc hne)

end

end

/-! ## Rank -/

/-- The place of a candidate among the others. -/
def rank (N : TreeNode) (T : BlockTree) (hash : uint256) : ℕ ×ₗ (ℕᵒᵈ ×ₗ ℕᵒᵈ) :=
  toLex ((T.deref hash).nChainWork.toNat,
    toLex (OrderDual.toDual (T.deref hash).nSequenceId, OrderDual.toDual (N.address hash)))

section
variable {N : TreeNode} {T T' : BlockTree} {pa pb : uint256}

theorem value_comp_iff : T.value_comp N pa pb = true ↔ T.rank N pa < T.rank N pb := by
  rw [rank, rank, Prod.Lex.toLex_lt_toLex, Prod.Lex.toLex_lt_toLex, value_comp]
  simp only [OrderDual.toDual_lt_toDual, EmbeddingLike.apply_eq_iff_eq, deref, BitVec.lt_def]
  split_ifs
  all_goals simp only [decide_eq_true_eq, false_iff, true_iff]
  all_goals omega

theorem not_value_comp_iff : T.value_comp N pa pb = false ↔ T.rank N pb ≤ T.rank N pa := by
  rw [← not_lt, ← value_comp_iff, not_eq_true]

theorem SameTree.rank (h : SameTree T T') (hash : uint256) :
    T'.rank N hash = T.rank N hash := by
  rw [BlockTree.rank, BlockTree.rank, (h hash).nChainWork, (h hash).nSequenceId]

theorem rank_injective (N : TreeNode) (T : BlockTree) : Function.Injective (T.rank N) := by
  intro pa pb h
  rw [rank, rank, toLex_inj, Prod.mk.injEq, toLex_inj, Prod.mk.injEq] at h
  exact N.address.injective (OrderDual.toDual.injective h.2.2)

theorem work_le_of_rank_le (h : T.rank N pa ≤ T.rank N pb) :
    (T.deref pa).nChainWork ≤ (T.deref pb).nChainWork := by
  rw [rank, rank, Prod.Lex.toLex_le_toLex] at h
  rw [BitVec.le_def]
  rcases h with hlt | ⟨heq, -⟩
  · exact hlt.le
  · exact heq.le

theorem rank_lt_of_work_lt (h : (T.deref pa).nChainWork < (T.deref pb).nChainWork) :
    T.rank N pa < T.rank N pb := by
  rw [rank, rank, Prod.Lex.toLex_lt_toLex]
  exact .inl (BitVec.lt_def.mp h)

theorem Grounded.rank_le {genesis c pindex : uint256} (hT : Grounded genesis T)
    (hc : c ∈ T.branch pindex) : T.rank N c ≤ T.rank N pindex := by
  rcases hT.work_le hc with rfl | hlt
  · exact le_rfl
  · exact (rank_lt_of_work_lt hlt).le

theorem greatest_spec (candidates : List uint256) :
    (T.greatest N candidates = none ↔ candidates = []) ∧
      ∀ best, T.greatest N candidates = some best →
        ∀ c ∈ candidates, T.rank N c ≤ T.rank N best := by
  induction candidates with
  | nil => exact ⟨iff_of_true rfl rfl, nofun⟩
  | cons pindex candidates ih =>
    rw [greatest]
    cases hgreatest : T.greatest N candidates with
    | none =>
      refine ⟨iff_of_false (by simp) (by simp), ?_⟩
      intro best hbest c hc
      cases hbest
      rw [ih.1.mp hgreatest, mem_singleton] at hc
      rw [hc]
    | some best' =>
      dsimp only
      have hbest' := ih.2 best' hgreatest
      by_cases hcomp : T.value_comp N best' pindex = true
      · rw [if_pos hcomp]
        refine ⟨iff_of_false (by simp) (by simp), ?_⟩
        intro best hbest c hc
        cases hbest
        rcases mem_cons.mp hc with rfl | hc
        · exact le_rfl
        · exact (hbest' c hc).trans (value_comp_iff.mp hcomp).le
      · rw [if_neg hcomp]
        refine ⟨iff_of_false (by simp) (by simp), ?_⟩
        intro best hbest c hc
        cases hbest
        rcases mem_cons.mp hc with rfl | hc
        · exact not_value_comp_iff.mp (eq_false_iff.mpr hcomp)
        · exact hbest' c hc

end

end BlockTree

end Divitae.BlockIndex
