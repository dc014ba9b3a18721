/-
# `Reconsider` — what `ReconsiderBlock` makes of the index

It takes marks of failure off: off the block and what comes from it, which become candidates if
they are better than the tip, and off what is below it, which does not (`ReconsiderBlock_spec`).
-/
import Divitae.BestChainKept

namespace Divitae.BlockIndex

open BlockTree TipState

/-- Marks are taken off, and candidates entered. -/
structure Unmarks (T T' : BlockTree) : Prop extends Flagged T T' where
  failed : ∀ hash, (T'.deref hash).nStatus.failed = true → (T.deref hash).nStatus.failed = true
  kept : ∀ hash ∈ T.setBlockIndexCandidates, hash ∈ T'.setBlockIndexCandidates
  linked : ∀ hash ∈ T'.setBlockIndexCandidates, hash ∈ T.setBlockIndexCandidates ∨ T.Linked hash

/-- What may become a candidate: it is better than the tip. -/
structure Better (N : TreeNode) (T : BlockTree) (tip hash : uint256) : Prop where
  linked : T.Linked hash
  valid : BLOCK_VALID_TRANSACTIONS ≤ (T.deref hash).nStatus.valid
  rank_lt : T.rank N tip < T.rank N hash

section
variable {N : TipNode} {T T' T'' : BlockTree} {tip pindex it hash : uint256} {nHeight : ℕ}
  {l : List uint256}

theorem Unmarks.refl (T : BlockTree) : Unmarks T T where
  toFlagged := (Marks.of_map rfl rfl).toFlagged
  failed _ h := h
  kept _ h := h
  linked _ h := .inl h

theorem Unmarks.linked_iff (h : Unmarks T T') : T'.Linked hash ↔ T.Linked hash := by
  rw [Linked, Linked, (h.same hash).nChainTx]

theorem Unmarks.trans (h : Unmarks T T') (h' : Unmarks T' T'') : Unmarks T T'' where
  toFlagged := h.toFlagged.trans h'.toFlagged
  failed hash hfailed := h.failed hash (h'.failed hash hfailed)
  kept hash hmem := h'.kept hash (h.kept hash hmem)
  linked hash hmem := by
    rcases h'.linked hash hmem with hmem' | hlinked
    · exact h.linked hash hmem'
    · exact .inr (h.linked_iff.mp hlinked)

theorem Better.congr (h : Better N.toTreeNode T tip hash) (hflags : Unmarks T T') :
    Better N.toTreeNode T' tip hash where
  linked := hflags.linked_iff.mpr h.linked
  valid := by
    rw [hflags.valid]
    exact h.valid
  rank_lt := by
    rw [hflags.same.rank, hflags.same.rank]
    exact h.rank_lt

theorem unmark_edit (pindex : uint256) : Unmarks T (T.edit pindex (setFailed false false)) where
  toFlagged := Flagged.edit (fun _ => false) (fun _ => false) pindex
  failed hash hfailed := by
    rcases deref_edit (T := T) (f := setFailed false false) pindex hash with heq | ⟨-, heq⟩
    · rwa [heq] at hfailed
    · rw [heq] at hfailed
      cases hfailed
  kept hash hmem := by rwa [edit_setBlockIndexCandidates]
  linked hash hmem := by
    rw [edit_setBlockIndexCandidates] at hmem
    exact .inl hmem

theorem unmark_self : ((T.edit it (setFailed false false)).deref it).nStatus.failed = false := by
  rcases deref_edit (T := T) (f := setFailed false false) it it with heq | ⟨-, heq⟩
  · cases hentry : T.entry it with
    | none =>
      rw [heq, deref, hentry]
      rfl
    | some e =>
      rw [deref_edit_self (by rw [hentry]; rfl)]
      rfl
  · rw [heq]
    rfl

theorem reconsiderEntry_spec (pindex it : uint256) (nHeight : ℕ)
    (htip : T.chainActive.head? = some tip) :
    Unmarks T (reconsiderEntry N pindex nHeight T it) ∧
      (∀ hash, (T.deref hash).nStatus.failed = true →
        ((reconsiderEntry N pindex nHeight T it).deref hash).nStatus.failed = false →
        Better N.toTreeNode T tip hash →
        hash ∈ (reconsiderEntry N pindex nHeight T it).setBlockIndexCandidates) ∧
      (T.GetAncestor it nHeight = some pindex →
        ((reconsiderEntry N pindex nHeight T it).deref it).nStatus.failed = false) := by
  have hedit := unmark_edit (T := T) it
  -- the only mark that may be taken off
  have honly : ∀ hash, (T.deref hash).nStatus.failed = true →
      ((T.edit it (setFailed false false)).deref hash).nStatus.failed = false → hash = it := by
    intro hash hbefore hafter
    by_contra hne
    rw [deref_edit_ne hne, hbefore] at hafter
    cases hafter
  unfold reconsiderEntry
  by_cases htaken : !(T.deref it).nStatus.IsValid BLOCK_VALID_TRANSACTIONS ∧
      T.GetAncestor it nHeight = some pindex
  · rw [if_pos htaken]
    by_cases henter : ((T.edit it (setFailed false false)).deref it).nStatus.IsValid
          BLOCK_VALID_TRANSACTIONS ∧
        ((T.edit it (setFailed false false)).deref it).nChainTx ≠ 0 ∧
        (T.edit it (setFailed false false)).chainActive.head?.any fun tip =>
          (T.edit it (setFailed false false)).value_comp N.toTreeNode tip it
    · rw [if_pos henter]
      refine ⟨hedit.trans ⟨Marks.toFlagged (Marks.of_map rfl rfl), fun _ h => h, ?_, ?_⟩, ?_, ?_⟩
      · intro hash hmem
        exact List.mem_insert_of_mem hmem
      · intro hash hmem
        rcases List.mem_insert_iff.mp hmem with rfl | hmem
        · exact .inr henter.2.1
        · exact .inl hmem
      · intro hash hbefore hafter hbetter
        rw [honly hash hbefore hafter]
        exact List.mem_insert_self
      · intro hancestor
        exact unmark_self
    · rw [if_neg henter]
      refine ⟨hedit, ?_, fun _ => unmark_self⟩
      intro hash hbefore hafter hbetter
      obtain rfl := honly hash hbefore hafter
      have hbetter' := hbetter.congr hedit
      refine absurd ⟨?_, hbetter'.linked, ?_⟩ henter
      · exact BlockStatus.IsValid_iff.mpr ⟨hafter, hbetter'.valid⟩
      · rw [edit_chainActive, htip, Option.any_some]
        exact value_comp_iff.mpr hbetter'.rank_lt
  · rw [if_neg htaken]
    refine ⟨Unmarks.refl T, ?_, ?_⟩
    · intro hash hbefore hafter
      exact absurd (hbefore.symm.trans hafter) (by simp)
    · intro hancestor
      have hvalid : (T.deref it).nStatus.IsValid BLOCK_VALID_TRANSACTIONS = true := by
        by_contra hinvalid
        exact htaken ⟨by simpa using hinvalid, hancestor⟩
      exact (BlockStatus.IsValid_iff.mp hvalid).1

theorem reconsiderEntries_spec (pindex : uint256) (nHeight : ℕ) (l : List uint256) (T : BlockTree)
    (htip : T.chainActive.head? = some tip) :
    Unmarks T (l.foldl (reconsiderEntry N pindex nHeight) T) ∧
      (∀ hash, (T.deref hash).nStatus.failed = true →
        ((l.foldl (reconsiderEntry N pindex nHeight) T).deref hash).nStatus.failed =
          false → Better N.toTreeNode T tip hash →
        hash ∈ (l.foldl (reconsiderEntry N pindex nHeight) T).setBlockIndexCandidates) ∧
      ∀ it ∈ l, T.GetAncestor it nHeight = some pindex →
        ((l.foldl (reconsiderEntry N pindex nHeight) T).deref it).nStatus.failed = false := by
  induction l generalizing T with
  | nil =>
    refine ⟨Unmarks.refl T, ?_, nofun⟩
    intro hash hbefore hafter
    exact absurd (hbefore.symm.trans hafter) (by simp)
  | cons it l ih =>
    obtain ⟨hone, hentered, htaken⟩ := reconsiderEntry_spec (N := N) pindex it nHeight htip
    obtain ⟨hrest, hentered', htaken'⟩ := ih (reconsiderEntry N pindex nHeight T it)
      (hone.chainActive ▸ htip)
    refine ⟨hone.trans hrest, ?_, ?_⟩
    · intro hash hbefore hafter hbetter
      by_cases hbetween : ((reconsiderEntry N pindex nHeight T it).deref hash).nStatus.failed = true
      · exact hentered' hash hbetween hafter (hbetter.congr hone)
      · exact hrest.kept hash (hentered hash hbefore (Bool.eq_false_iff.mpr hbetween) hbetter)
    · intro it' hit hancestor
      rcases List.mem_cons.mp hit with rfl | hit
      · by_contra hfailed
        have hfailed' := hrest.failed it' (eq_true_of_ne_false hfailed)
        exact absurd (hfailed'.symm.trans (htaken hancestor)) (by simp)
      · refine htaken' it' hit ?_
        rw [hone.same.GetAncestor]
        exact hancestor

theorem unmarkAll_spec (l : List uint256) (T : BlockTree) :
    Unmarks T (l.foldl (fun T pindex => T.edit pindex (setFailed false false)) T) ∧
      ∀ hash, (T.deref hash).nStatus.failed = true →
        ((l.foldl (fun T pindex => T.edit pindex (setFailed false false)) T).deref
          hash).nStatus.failed = false → hash ∈ l := by
  induction l generalizing T with
  | nil =>
    refine ⟨Unmarks.refl T, ?_⟩
    intro hash hbefore hafter
    exact absurd (hbefore.symm.trans hafter) (by simp)
  | cons pindex l ih =>
    obtain ⟨hrest, honly⟩ := ih (T.edit pindex (setFailed false false))
    refine ⟨(unmark_edit pindex).trans hrest, ?_⟩
    intro hash hbefore hafter
    by_cases heq : hash = pindex
    · exact heq ▸ .head _
    · refine List.mem_cons_of_mem pindex (honly hash ?_ hafter)
      rw [deref_edit_ne heq]
      exact hbefore

theorem GetAncestor_self (T : BlockTree) (pindex : uint256) :
    T.GetAncestor pindex (T.deref pindex).nHeight = some pindex := by
  obtain ⟨below, hbranch⟩ := T.branch_head pindex
  rw [GetAncestor, hbranch, List.find?_cons_of_pos (by simp)]

/-- **`ReconsiderBlock`.**  What is not marked any more becomes a candidate if it is better than
the tip, unless it is below the block. -/
theorem ReconsiderBlock_spec (hpresent : (T.entry pindex).isSome)
    (htip : T.chainActive.head? = some tip) :
    Unmarks T (TipState.ReconsiderBlock N T pindex) ∧
      ∀ hash, (T.deref hash).nStatus.failed = true →
        ((TipState.ReconsiderBlock N T pindex).deref hash).nStatus.failed = false →
        Better N.toTreeNode T tip hash →
        hash ∈ (TipState.ReconsiderBlock N T pindex).setBlockIndexCandidates ∨
          (hash ∈ T.branch pindex ∧ hash ≠ pindex) := by
  obtain ⟨hentries, hentered, htaken⟩ := reconsiderEntries_spec (N := N) pindex
    (T.deref pindex).nHeight T.mapBlockIndex.keys T htip
  have hself := htaken pindex (AList.mem_keys.mp (AList.lookup_isSome.mp hpresent))
    (GetAncestor_self T pindex)
  obtain ⟨hbelow, honly⟩ := unmarkAll_spec
    ((T.mapBlockIndex.keys.foldl (reconsiderEntry N pindex (T.deref pindex).nHeight)
      T).branch pindex)
    (T.mapBlockIndex.keys.foldl (reconsiderEntry N pindex (T.deref pindex).nHeight) T)
  refine ⟨hentries.trans hbelow, ?_⟩
  intro hash hbefore hafter hbetter
  by_cases hbetween : ((T.mapBlockIndex.keys.foldl
      (reconsiderEntry N pindex (T.deref pindex).nHeight) T).deref hash).nStatus.failed = true
  · refine .inr ⟨hentries.same.branch pindex ▸ honly hash hbetween hafter, ?_⟩
    rintro rfl
    exact absurd (hbetween.symm.trans hself) (by simp)
  · exact .inl (hbelow.kept hash (hentered hash hbefore (Bool.eq_false_iff.mpr hbetween) hbetter))

end

end Divitae.BlockIndex
