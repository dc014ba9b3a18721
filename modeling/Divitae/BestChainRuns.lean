/-
# `BestChainRuns` — the best chain is reached

Where the disk works and a block is either accepted or invalid, no assertion fails, and
`ActivateBestChain` ends (`ActivateBestChain_returns`): each round that is not the last marks a
block as failed or leaves a tip of more work.  It ends on the best of the candidates that are left.
-/
import Divitae.BestChainKept

namespace Divitae.BlockIndex

open WayBack BlockTree List

/-- No system error, and no block that may have been corrupted on its way. -/
structure Works (N : TipNode) : Prop where
  read : ∀ n hash, N.ReadBlockFromDisk n hash = true
  undo : ∀ n hash, N.DisconnectBlock n hash = true
  flush : ∀ n, N.FlushStateToDisk n = true
  check : ∀ n hash, N.CheckBlock n hash = .accept ∨ N.CheckBlock n hash = .invalid
  connect : ∀ n hash, N.ConnectBlock n hash = .accept ∨ N.ConnectBlock n hash = .invalid

namespace TipState

def failed (S : TipState) (hash : uint256) : Bool := (S.deref hash).nStatus.failed

def view (S : TipState) : Search uint256 where
  active := S.chainActive
  candidates := {hash | hash ∈ S.setBlockIndexCandidates}
  failed := {hash | S.failed hash = true}
  left := {hash | hash ∈ S.disconnected}

/-- The active chain is the branch of its tip in the tree `T₀`, whose places are kept. -/
structure Steady (N : TipNode) (T₀ : BlockTree) (S : TipState) : Prop where
  same : SameTree T₀ S.toBlockTree
  chain : ∃ tip, T₀.Linked tip ∧ S.chainActive = T₀.branch tip ∧ S.hashBestBlock = tip
  undo : ∀ hash ∈ S.chainActive, hash ≠ N.hashGenesisBlock → (S.deref hash).nStatus.haveUndo = true
  base : (S.deref N.hashGenesisBlock).nStatus.haveUndo = false
  candidates : ∀ hash ∈ S.setBlockIndexCandidates, T₀.Linked hash

/-- A block can be disconnected, as the `n`th tip that is tried. -/
structure Disconnects (N : TipNode) (S : TipState) (n : ℕ) (hash : uint256) : Prop where
  read : N.ReadBlockFromDisk n hash = true
  present : (S.deref hash).nStatus.haveUndo = true
  undo : N.DisconnectBlock n hash = true
  flush : N.FlushStateToDisk n = true

/-- One state follows another, by moves of the search. -/
abbrev Goes (N : TipNode) (T₀ : BlockTree) (S S' : TipState) : Prop :=
  Moves (T₀.rank N.toTreeNode) {hash | T₀.Linked hash} S.view S'.view

section
variable {N : TipNode} {T₀ : BlockTree} {S S' : TipState} {tip c m : uint256} {below : List uint256}

theorem GetUndoPos_eq_none {e : CBlockIndex} :
    e.GetUndoPos = none ↔ e.nStatus.haveUndo = false := by
  rw [CBlockIndex.GetUndoPos]
  cases e.nStatus.haveUndo <;> simp

theorem Goes.failed (h : Goes N T₀ S S') (hfailed : S.failed c = true) : S'.failed c = true :=
  (Moves.mono h).1 hfailed

theorem Steady.nonempty (h : Steady N T₀ S) : ∃ tip below, S.chainActive = tip :: below := by
  obtain ⟨tip, -, hbranch, -⟩ := h.chain
  obtain ⟨below, hhead⟩ := T₀.branch_head tip
  exact ⟨tip, below, hbranch.trans hhead⟩

theorem Steady.below_tip (h : Steady N T₀ S) (hT : Grounded N.hashGenesisBlock T₀)
    (hchain : S.chainActive = tip :: below) (hne : tip ≠ N.hashGenesisBlock) :
    S.hashBestBlock = tip ∧ ∃ p, (T₀.deref tip).pprev = some p ∧ T₀.Linked p ∧
      below = T₀.branch p := by
  obtain ⟨tip', hlinked, hbranch, hbest⟩ := h.chain
  obtain ⟨below', hhead⟩ := T₀.branch_head tip'
  have hcons : tip :: below = tip' :: below' := by rw [← hchain, hbranch, hhead]
  obtain ⟨rfl, rfl⟩ := cons.inj hcons
  refine ⟨hbest, ?_⟩
  cases hprev : (T₀.deref tip).pprev with
  | none => exact absurd (hT.only tip hlinked hprev) hne
  | some p =>
    refine ⟨p, rfl, hT.below tip p hlinked hprev, ?_⟩
    rw [hT.branch_next hprev] at hhead
    exact (cons.inj hhead).2.symm

theorem Steady.of_flagged {T : BlockTree} (h : Steady N T₀ S) (hflags : Flagged S.toBlockTree T)
    (hcandidates : ∀ hash ∈ T.setBlockIndexCandidates, T₀.Linked hash) :
    Steady N T₀ { S with toBlockTree := T } where
  same := h.same.trans hflags.same
  chain := hflags.chainActive ▸ h.chain
  undo := by
    intro hash hmem hne
    rw [hflags.haveUndo]
    exact h.undo hash (hflags.chainActive ▸ hmem) hne
  base := by
    rw [hflags.haveUndo]
    exact h.base
  candidates := hcandidates

/-! ## Down -/

section
variable (h : Steady N T₀ S)
include h

theorem Steady.disconnects (hw : Works N) (hmem : c ∈ S.chainActive)
    (hne : c ≠ N.hashGenesisBlock) (n : ℕ) : S.Disconnects N n c :=
  ⟨hw.read n c, h.undo c hmem hne, hw.undo n c, hw.flush n⟩

theorem Steady.disconnectTip (hT : Grounded N.hashGenesisBlock T₀)
    (hchain : S.chainActive = tip :: below) (hcan : S.Disconnects N S.attempts tip) :
    ∃ S', S.DisconnectTip N = (.ok, S') ∧ Steady N T₀ S' ∧ S'.chainActive = below ∧
      S'.mapBlockIndex = S.mapBlockIndex ∧
      S'.setBlockIndexCandidates = S.setBlockIndexCandidates ∧ Goes N T₀ S S' := by
  have hne : tip ≠ N.hashGenesisBlock := by
    rintro rfl
    exact absurd (hcan.present.symm.trans h.base) (by simp)
  obtain ⟨hbest, p, hprev, hlinked, hbelow⟩ := h.below_tip hT hchain hne
  have hundo : (S.deref tip).GetUndoPos ≠ none := by
    rw [Ne, GetUndoPos_eq_none, hcan.present]
    simp
  have hprev' : (S.deref tip).pprev = some p := (h.same tip).pprev.trans hprev
  refine ⟨{ S with
    attempts := S.attempts + 1
    hashBestBlock := p
    chainActive := below
    disconnected := tip :: S.disconnected }, ?_, ?_, rfl, rfl, rfl, ?_⟩
  · rw [DisconnectTip, hchain]
    dsimp only
    rw [hcan.read, if_neg (by simp), if_neg (not_not.mpr hbest), if_neg hundo, hprev']
    dsimp only
    rw [hcan.undo, if_neg (by simp), hcan.flush, if_neg (by simp)]
  · refine ⟨h.same, ⟨p, hlinked, hbelow, rfl⟩, ?_, h.base, h.candidates⟩
    intro hash hmem
    exact h.undo hash (hchain ▸ mem_cons_of_mem tip hmem)
  · refine Relation.ReflTransGen.single (Move.leave tip hchain ?_ rfl rfl)
    exact Set.ext fun hash => mem_cons

theorem Steady.disconnectTip_genesis (hw : Works N)
    (hchain : S.chainActive = N.hashGenesisBlock :: below) :
    S.DisconnectTip N = (.error, { S with attempts := S.attempts + 1 }) := by
  obtain ⟨tip, -, hbranch, hbest⟩ := h.chain
  obtain ⟨below', hhead⟩ := T₀.branch_head tip
  have htip : N.hashGenesisBlock = tip := (cons.inj (hchain.symm.trans (hbranch.trans hhead))).1
  rw [DisconnectTip, hchain]
  dsimp only
  rw [hw.read, if_neg (by simp), if_neg (not_not.mpr (hbest.trans htip.symm)),
    if_pos (GetUndoPos_eq_none.mpr h.base)]

theorem Steady.tried (n : ℕ) : Steady N T₀ { S with attempts := n } :=
  ⟨h.same, h.chain, h.undo, h.base, h.candidates⟩

end

theorem DisconnectTo_next {fork : uint256} (hchain : S.chainActive = tip :: below)
    (hne : tip ≠ fork) (hstep : S.DisconnectTip N = (.ok, S')) :
    S.DisconnectTo N (some fork) = S'.DisconnectTo N (some fork) := by
  rw [DisconnectTo, hchain]
  simp only [List.head?_cons, Option.some.injEq, if_neg hne]
  split
  next hstep' =>
    rw [hstep] at hstep'
    cases hstep'
    rfl
  next hother hstep' =>
    cases hstep'.symm.trans hstep
    exact (hother rfl).elim

theorem Steady.disconnectTo {fork : uint256} {above rest : List uint256} (h : Steady N T₀ S)
    (hT : Grounded N.hashGenesisBlock T₀) (hw : Works N)
    (hchain : S.chainActive = above ++ fork :: rest) :
    ∃ S', S.DisconnectTo N (some fork) = (.ok, S') ∧ Steady N T₀ S' ∧
      S'.chainActive = fork :: rest ∧ S'.mapBlockIndex = S.mapBlockIndex ∧
      S'.setBlockIndexCandidates = S.setBlockIndexCandidates ∧ Goes N T₀ S S' := by
  induction above generalizing S with
  | nil =>
    refine ⟨S, ?_, h, hchain, rfl, rfl, .refl⟩
    rw [DisconnectTo, hchain]
    simp
  | cons tip above ih =>
    obtain ⟨tip', -, hbranch, -⟩ := h.chain
    have hroot : tip ≠ N.hashGenesisBlock := by
      -- below the genesis block there is nothing
      rintro rfl
      have hsuffix := hT.branch_suffix (l := []) (hbranch.symm.trans hchain)
      rw [branch_root hT.root] at hsuffix
      simp at hsuffix
    have hfork : tip ≠ fork := by
      rintro rfl
      have hself := hT.branch_suffix (l := []) (hbranch.symm.trans hchain)
      exact hT.not_mem_below hself (by simp)
    obtain ⟨S₁, hstep, hsteady, hbelow, hmap, hcandidates, hgoes⟩ :=
      h.disconnectTip hT hchain (h.disconnects hw (hchain ▸ .head _) hroot _)
    obtain ⟨S', hto, hsteady', hchain', hmap', hcandidates', hgoes'⟩ := ih hsteady hbelow
    refine ⟨S', ?_, hsteady', hchain', hmap'.trans hmap, hcandidates'.trans hcandidates,
      hgoes.trans hgoes'⟩
    rw [DisconnectTo_next hchain hfork hstep]
    exact hto

/-! ## Up -/

theorem connectBlock_of_works (hw : Works N)
    (hbest : S.hashBestBlock = ((S.deref c).pprev).getD 0) :
    S.ConnectBlock N c = some .accept ∨ S.ConnectBlock N c = some .invalid := by
  rw [ConnectBlock]
  rcases hw.check S.attempts c with hcheck | hcheck
  · rw [hcheck]
    rw [if_neg (not_not.mpr hbest)]
    exact (hw.connect S.attempts c).imp (congrArg some) (congrArg some)
  · rw [hcheck]
    exact .inr rfl

theorem setUndo_failed (nPos : ℕ) (e : CBlockIndex) :
    (setUndo nPos e).nStatus.failed = e.nStatus.failed := by
  unfold setUndo
  split
  · exact BlockStatus.RaiseValidity_failed BLOCK_VALID_SCRIPTS
  · exact BlockStatus.RaiseValidity_failed BLOCK_VALID_SCRIPTS

theorem setUndo_haveUndo (nPos : ℕ) (e : CBlockIndex) :
    (setUndo nPos e).nStatus.haveUndo = true := by
  unfold setUndo
  split
  next hundo => rwa [BlockStatus.RaiseValidity_haveUndo]
  next => exact BlockStatus.RaiseValidity_haveUndo BLOCK_VALID_SCRIPTS

theorem writeUndo_spec (hash : uint256) :
    ((S.writeUndo N c).deref hash).nStatus.failed = S.failed hash ∧
      ((S.deref hash).nStatus.haveUndo = true →
        ((S.writeUndo N c).deref hash).nStatus.haveUndo = true) ∧
      (S.writeUndo N c).deref N.hashGenesisBlock = S.deref N.hashGenesisBlock := by
  unfold writeUndo
  split
  next => exact ⟨rfl, id, rfl⟩
  next hne =>
    refine ⟨?_, ?_, deref_edit_ne (Ne.symm hne)⟩
    · rcases deref_edit (T := S.toBlockTree) (f := setUndo (N.FindUndoPos S.attempts)) c hash
        with heq | ⟨-, heq⟩
      · rw [heq, TipState.failed]
      · rw [heq, setUndo_failed, TipState.failed]
    · intro hundo
      rcases deref_edit (T := S.toBlockTree) (f := setUndo (N.FindUndoPos S.attempts)) c hash
        with heq | ⟨-, heq⟩
      · rw [heq, hundo]
      · rw [heq, setUndo_haveUndo]

theorem writeUndo_self (hc : (S.entry c).isSome) (hne : c ≠ N.hashGenesisBlock) :
    ((S.writeUndo N c).deref c).nStatus.haveUndo = true := by
  rw [writeUndo, if_neg hne, deref_edit_self hc, setUndo_haveUndo]

theorem writeUndo_same : SameTree S.toBlockTree (S.writeUndo N c) := by
  unfold writeUndo
  split
  · exact SameTree.refl _
  · exact SameTree.edit (setUndo_fixed _) c

theorem writeUndo_chain : (S.writeUndo N c).chainActive = S.chainActive ∧
    (S.writeUndo N c).setBlockIndexCandidates = S.setBlockIndexCandidates := by
  unfold writeUndo
  split
  · exact ⟨rfl, rfl⟩
  · exact ⟨edit_chainActive, edit_setBlockIndexCandidates⟩

section
variable (h : Steady N T₀ S)
include h

theorem Steady.next (hT : Grounded N.hashGenesisBlock T₀)
    (hbranch : T₀.branch c = c :: S.chainActive) :
    (S.deref c).pprev = S.chainActive.head? ∧ S.hashBestBlock = ((S.deref c).pprev).getD 0 := by
  obtain ⟨tip, -, hchain, hbest⟩ := h.chain
  obtain ⟨below, hhead⟩ := T₀.branch_head tip
  have hprev : (S.deref c).pprev = some tip := by
    rw [(h.same c).pprev]
    cases hprev : (T₀.deref c).pprev with
    | none =>
      rw [branch_root hprev, hchain, hhead] at hbranch
      cases hbranch
    | some p =>
      rw [hT.branch_next hprev] at hbranch
      obtain ⟨below', hhead'⟩ := T₀.branch_head p
      have hcons := (cons.inj hbranch).2
      rw [hchain, hhead, hhead'] at hcons
      rw [(cons.inj hcons).1]
  refine ⟨?_, ?_⟩
  · rw [hprev, hchain, hhead, List.head?_cons]
  · rw [hprev, hbest, Option.getD_some]

theorem Steady.present (hlinked : T₀.Linked c) : (S.entry c).isSome := by
  refine Linked.isSome (T := S.toBlockTree) ?_
  rw [Linked, (h.same c).nChainTx]
  exact hlinked

theorem Steady.invalidBlockFound (hT : Grounded N.hashGenesisBlock T₀)
    (hbranch : T₀.branch c = c :: S.chainActive) (hlinked : T₀.Linked c) (n : ℕ) :
    Steady N T₀ { S with toBlockTree := S.InvalidBlockFound c, attempts := n } ∧
      Goes N T₀ S { S with toBlockTree := S.InvalidBlockFound c, attempts := n } := by
  have hmarks := InvalidBlockFound_marks (T := S.toBlockTree) (c := c)
  have hsteady := h.of_flagged hmarks.toFlagged fun hash hmem =>
    h.candidates hash ((mem_InvalidBlockFound (c := c)).mp hmem).1
  refine ⟨hsteady.tried n,
    .single (.ruleOut hmarks.chainActive rfl (fun hash => hmarks.failed hash) ?_)⟩
  intro b hb
  by_cases hbc : b = c
  · subst hbc
    exact .inr ⟨InvalidBlockFound_self (h.present hlinked), hT.not_mem_below hbranch⟩
  · exact .inl (mem_InvalidBlockFound.mpr ⟨hb, hbc⟩)

theorem Steady.connectTip (hT : Grounded N.hashGenesisBlock T₀) (hw : Works N)
    (hbranch : T₀.branch c = c :: S.chainActive) (hlinked : T₀.Linked c) :
    (∃ S', S.ConnectTip N c = (.ok, S') ∧ Steady N T₀ S' ∧ S'.chainActive = c :: S.chainActive ∧
      S'.setBlockIndexCandidates = S.setBlockIndexCandidates ∧
      (∀ hash, S'.failed hash = S.failed hash) ∧ S'.disconnected = S.disconnected) ∨
    ∃ S', S.ConnectTip N c = (.invalid, S') ∧ Steady N T₀ S' ∧ Goes N T₀ S S' ∧
      S'.failed c = true := by
  obtain ⟨hprev, hbest⟩ := h.next hT hbranch
  have hpresent := h.present hlinked
  rw [ConnectTip]
  rw [if_neg (not_not.mpr hprev), hw.read, if_neg (by simp)]
  rcases connectBlock_of_works hw hbest with haccept | hinvalid
  · left
    rw [haccept]
    rw [hw.flush, if_neg (by simp)]
    refine ⟨_, rfl, ⟨?_, ⟨c, hlinked, ?_, rfl⟩, ?_, ?_, ?_⟩, rfl, ?_, ?_, rfl⟩
    · exact h.same.trans writeUndo_same
    · exact hbranch.symm
    · intro hash hmem hne
      rcases mem_cons.mp hmem with rfl | hmem
      · exact writeUndo_self (S := S) hpresent hne
      · exact (writeUndo_spec hash).2.1 (h.undo hash hmem hne)
    · exact (congrArg (fun e : CBlockIndex => e.nStatus.haveUndo) (writeUndo_spec c).2.2).trans
        h.base
    · intro hash hmem
      exact h.candidates hash (writeUndo_chain.2 ▸ hmem)
    · exact writeUndo_chain.2
    · intro hash
      exact (writeUndo_spec hash).1
  · right
    rw [hinvalid]
    obtain ⟨hsteady, hgoes⟩ := h.invalidBlockFound hT hbranch hlinked (S.attempts + 1)
    exact ⟨_, rfl, hsteady, hgoes, InvalidBlockFound_self hpresent⟩

theorem Steady.prune (hchain : S.chainActive = c :: below)
    (hm : m ∈ S.setBlockIndexCandidates)
    (hle : T₀.rank N.toTreeNode c ≤ T₀.rank N.toTreeNode m) :
    ∃ T, S.PruneBlockIndexCandidates N.toTreeNode = some T ∧ T.chainActive = S.chainActive ∧
      T.mapBlockIndex = S.mapBlockIndex ∧
      ∀ hash, hash ∈ T.setBlockIndexCandidates ↔ hash ∈ S.setBlockIndexCandidates ∧
        T₀.rank N.toTreeNode c ≤ T₀.rank N.toTreeNode hash := by
  have hmem : ∀ hash, hash ∈ (S.setBlockIndexCandidates.filter fun pindex =>
      !(S.value_comp N.toTreeNode pindex c)) ↔ hash ∈ S.setBlockIndexCandidates ∧
        T₀.rank N.toTreeNode c ≤ T₀.rank N.toTreeNode hash := by
    intro hash
    rw [mem_filter, Bool.not_eq_true', not_value_comp_iff, h.same.rank, h.same.rank]
  have hleft : (S.setBlockIndexCandidates.filter fun pindex =>
      !(S.value_comp N.toTreeNode pindex c)).isEmpty = false := by
    rw [isEmpty_eq_false_iff_exists_mem]
    exact ⟨m, (hmem m).mpr ⟨hm, hle⟩⟩
  refine ⟨{ S.toBlockTree with setBlockIndexCandidates :=
    S.setBlockIndexCandidates.filter fun pindex => !(S.value_comp N.toTreeNode pindex c) },
    ?_, rfl, rfl, hmem⟩
  unfold PruneBlockIndexCandidates
  split
  next hnil => exact absurd (hchain.symm.trans hnil) (by simp)
  next tip below' hcons =>
    obtain ⟨rfl, -⟩ := cons.inj (hchain.symm.trans hcons)
    dsimp only
    rw [hleft, if_neg (by simp)]

end

theorem Steady.connectUpTo (rest : List uint256) (h : Steady N T₀ S)
    (hT : Grounded N.hashGenesisBlock T₀) (hw : Works N) (hlinked : T₀.Linked m)
    (hm : m ∈ S.setBlockIndexCandidates) (hbranch : T₀.branch m = rest.reverse ++ S.chainActive)
    (hsound : ∀ c ∈ rest, S.failed c = false) (nOldWork : uint256) :
    ∃ S', S.ConnectUpTo N (some nOldWork) rest = (.ok, S') ∧ Steady N T₀ S' ∧ Goes N T₀ S S' ∧
      (S'.chainActive = T₀.branch m ∨ nOldWork < S'.tipWork ∨
        ∃ c, T₀.Linked c ∧ S.failed c = false ∧ S'.failed c = true) := by
  induction rest generalizing S with
  | nil => exact ⟨S, rfl, h, .refl, .inl hbranch.symm⟩
  | cons c rest ih =>
    rw [reverse_cons, append_assoc, singleton_append] at hbranch
    have hc : c ∈ T₀.branch m := by
      rw [hbranch]
      simp
    have hclinked := hT.linked_of_mem hlinked hc
    have hcsound := hsound c mem_cons_self
    rw [ConnectUpTo]
    rcases h.connectTip hT hw (hT.branch_suffix hbranch) hclinked with
      ⟨S₁, hstep, hsteady, hchain, hcandidates, hfailed, hleft⟩ |
      ⟨S₁, hstep, hsteady, hgoes, hfailed⟩
    · obtain ⟨T, hprune, hchain', hmap, hmem⟩ :=
        hsteady.prune hchain (hcandidates ▸ hm) (hT.rank_le hc)
      rw [hstep]
      dsimp only
      rw [hprune]
      dsimp only
      have hsteady' : Steady N T₀ { S₁ with toBlockTree := T } :=
        hsteady.of_flagged (Marks.of_map hmap hchain').toFlagged fun hash hhash =>
          hsteady.candidates hash ((hmem hash).mp hhash).1
      have hfailed' : ∀ hash, TipState.failed { S₁ with toBlockTree := T } hash =
          S.failed hash := by
        intro hash
        rw [← hfailed hash, TipState.failed, deref_of_map hmap, TipState.failed]
      have hgoes : Goes N T₀ S { S₁ with toBlockTree := T } := by
        refine .single (.reach c hclinked ?_ ?_ ?_ ?_ ?_)
        · exact ne_true_of_eq_false hcsound
        · exact hchain'.trans hchain
        · exact congrArg (fun l : List uint256 => {hash | hash ∈ l}) hleft
        · exact Set.ext fun hash => iff_of_eq (congrArg (· = true) (hfailed' hash))
        · intro hash
          exact (hmem hash).trans (and_congr_left' (hcandidates ▸ Iff.rfl))
      by_cases hbetter : nOldWork < T.tipWork
      · rw [if_pos hbetter]
        exact ⟨_, rfl, hsteady', hgoes, .inr (.inl hbetter)⟩
      · rw [if_neg hbetter]
        obtain ⟨S', hrun, hsteady'', hgoes', hend⟩ := ih hsteady'
          ((hmem m).mpr ⟨hcandidates ▸ hm, hT.rank_le hc⟩)
          (hbranch.trans (congrArg (rest.reverse ++ ·) (hchain'.trans hchain).symm))
          (fun c' hc' => (hfailed' c').trans (hsound c' (mem_cons_of_mem c hc')))
        refine ⟨S', hrun, hsteady'', hgoes.trans hgoes', hend.imp id (Or.imp id ?_)⟩
        rintro ⟨c', hlinked', hbefore, hafter⟩
        exact ⟨c', hlinked', (hfailed' c').symm.trans hbefore, hafter⟩
    · rw [hstep]
      exact ⟨S₁, rfl, hsteady, hgoes, .inr (.inr ⟨c, hclinked, hcsound, hfailed⟩)⟩

/-! ## The best candidate -/

theorem testBranch_spec {T : BlockTree} (hT : Grounded N.hashGenesisBlock T₀)
    (hsame : SameTree T₀ T) (l : List uint256) (hl : ∀ c ∈ l, T₀.Linked c) :
    T.testBranch l ≠ .crash ∧
      (T.testBranch l = .usable → ∀ c ∈ l.takeWhile fun c => c ∉ T.chainActive,
        (T.deref c).nStatus.failed = false) ∧
      ∀ above p, T.testBranch l = .unusable above p →
        (T.deref p).nStatus.failed = true ∧ ∀ c ∈ above ++ [p], c ∉ T.chainActive := by
  induction l with
  | nil =>
    refine ⟨by simp [testBranch], ?_, by simp [testBranch]⟩
    rintro - c ⟨⟩
  | cons c below ih =>
    obtain ⟨hcrash, husable, hunusable⟩ := ih fun c' hc' => hl c' (mem_cons_of_mem c hc')
    have hlinked : (T.deref c).nChainTx ≠ 0 := by
      rw [(hsame c).nChainTx]
      exact hl c mem_cons_self
    have hdata : (T.deref c).nStatus.haveData = true := by
      rw [(hsame c).haveData]
      exact hT.data c (hl c mem_cons_self)
    rw [testBranch]
    by_cases hactive : c ∈ T.chainActive
    · rw [if_pos hactive]
      refine ⟨by simp, ?_, by simp⟩
      rintro - c' hc'
      rw [takeWhile_cons_of_neg (by simpa using hactive)] at hc'
      cases hc'
    · rw [if_neg hactive, if_neg (fun hzero => hlinked hzero.1)]
      by_cases hfailed : (T.deref c).nStatus.failed = true
      · rw [hfailed, hdata, if_pos (by rfl)]
        refine ⟨by simp, by simp, ?_⟩
        rintro above p ⟨⟩
        refine ⟨hfailed, ?_⟩
        intro c' hc'
        obtain rfl := mem_singleton.mp hc'
        exact hactive
      · rw [Bool.eq_false_iff.mpr hfailed, hdata, if_neg (by simp)]
        cases htest : T.testBranch below with
        | usable =>
          refine ⟨by simp, ?_, by simp⟩
          rintro - c' hc'
          rw [takeWhile_cons_of_pos (by simpa using hactive)] at hc'
          rcases mem_cons.mp hc' with rfl | hc'
          · exact Bool.eq_false_iff.mpr hfailed
          · exact husable htest c' hc'
        | crash => exact absurd htest hcrash
        | unusable above' p' =>
          refine ⟨by simp, by simp, ?_⟩
          rintro above p ⟨⟩
          obtain ⟨hp, hoff⟩ := hunusable above' p' htest
          refine ⟨hp, ?_⟩
          intro c' hc'
          rcases mem_cons.mp hc' with rfl | hc'
          · exact hactive
          · exact hoff c' hc'

/-- What the search for the best candidate finds. -/
structure Found (N : TipNode) (T₀ T : BlockTree) (m : uint256) : Prop where
  candidate : m ∈ T.setBlockIndexCandidates
  best : ∀ c ∈ T.setBlockIndexCandidates, T₀.rank N.toTreeNode c ≤ T₀.rank N.toTreeNode m
  sound : ∀ c ∈ (T₀.branch m).takeWhile fun c => c ∉ T.chainActive,
    (T.deref c).nStatus.failed = false

theorem Steady.removeChain {above : List uint256} {p : uint256} (h : Steady N T₀ S)
    (hp : (S.deref p).nStatus.failed = true) (hoff : ∀ c ∈ above ++ [p], c ∉ S.chainActive) :
    Steady N T₀ { S with toBlockTree := S.removeChain above p } ∧
      Goes N T₀ S { S with toBlockTree := S.removeChain above p } := by
  have hmarks := removeChain_marks above hp
  refine ⟨h.of_flagged hmarks.toFlagged fun hash hmem =>
      h.candidates hash (mem_removeChain.mp hmem).1,
    .single (.ruleOut hmarks.chainActive rfl (fun hash => hmarks.failed hash) ?_)⟩
  intro c hc
  by_cases hmem : c ∈ above ++ [p]
  · exact .inr ⟨removeChain_failed hp hmem (h.present (h.candidates c hc)), hoff c hmem⟩
  · exact .inl (mem_removeChain.mpr ⟨hc, hmem⟩)

theorem Steady.findMostWorkChain (h : Steady N T₀ S) (hT : Grounded N.hashGenesisBlock T₀) :
    ∃ T found, S.FindMostWorkChain N.toTreeNode = some (T, found) ∧
      Steady N T₀ { S with toBlockTree := T } ∧ Goes N T₀ S { S with toBlockTree := T } ∧
      T.chainActive = S.chainActive ∧ (found = none → T.setBlockIndexCandidates = []) ∧
      ∀ m, found = some m → Found N T₀ T m := by
  induction hlength : S.setBlockIndexCandidates.length using Nat.strong_induction_on
    generalizing S with
  | _ n ih =>
    obtain ⟨hnone, hbest⟩ := greatest_spec (N := N.toTreeNode) (T := S.toBlockTree)
      S.setBlockIndexCandidates
    rw [FindMostWorkChain]
    split
    next hgreatest =>
      exact ⟨_, none, rfl, h, .refl, rfl, fun _ => hnone.mp hgreatest, by simp⟩
    next m hgreatest =>
      have hm := mem_of_greatest hgreatest
      obtain ⟨hcrash, husable, hunusable⟩ := testBranch_spec hT h.same (S.branch m) (by
        rw [h.same.branch]
        exact fun c hc => hT.linked_of_mem (h.candidates m hm) hc)
      split
      next htest =>
        refine ⟨_, some m, rfl, h, .refl, rfl, by simp, ?_⟩
        rintro m' ⟨⟩
        refine ⟨hm, ?_, ?_⟩
        · intro c hc
          rw [← h.same.rank, ← h.same.rank]
          exact hbest m hgreatest c hc
        · rw [← h.same.branch]
          exact husable htest
      next htest => exact absurd htest hcrash
      next above p htest =>
        obtain ⟨hp, hoff⟩ := hunusable above p htest
        obtain ⟨hsteady, hgoes⟩ := h.removeChain hp hoff
        obtain ⟨T, found, hfind, hsteady', hgoes', hchain, hfound⟩ :=
          ih _ (hlength ▸ removeChain_lt hm htest) hsteady rfl
        exact ⟨T, found, hfind, hsteady', hgoes.trans hgoes',
          hchain.trans (removeChain_marks above hp).chainActive, hfound⟩

theorem Steady.activateBestChainStep (h : Steady N T₀ S) (hT : Grounded N.hashGenesisBlock T₀)
    (hw : Works N) (hfound : Found N T₀ S.toBlockTree m) :
    ∃ S', S.ActivateBestChainStep N m = (.ok, S') ∧ Steady N T₀ S' ∧ Goes N T₀ S S' ∧
      (S'.chainActive = T₀.branch m ∨ S.tipWork < S'.tipWork ∨
        ∃ c, T₀.Linked c ∧ S.failed c = false ∧ S'.failed c = true) := by
  have hm := h.candidates m hfound.candidate
  obtain ⟨tip, htip, hchain, -⟩ := h.chain
  -- the genesis block is on both branches, so that there is a fork
  have hgenesis : N.hashGenesisBlock ∈ S.chainActive := hchain ▸ hT.genesis_mem htip
  obtain ⟨fork, hfind⟩ : ∃ fork,
      (T₀.branch m).find? (fun pindex => pindex ∈ S.chainActive) = some fork := by
    rw [← Option.isSome_iff_exists, List.find?_isSome]
    exact ⟨_, hT.genesis_mem hm, by simpa using hgenesis⟩
  obtain ⟨hfork, next, below, hbranch, hnext⟩ := List.find?_eq_some_iff_append.mp hfind
  have hnext' : ∀ c ∈ next, decide (c ∉ S.chainActive) = true := by
    intro c hc
    simpa using hnext c hc
  have htake : (T₀.branch m).takeWhile (fun pindex => pindex ∉ S.chainActive) = next := by
    rw [hbranch, takeWhile_append_of_pos hnext',
      takeWhile_cons_of_neg (by simpa using hfork), append_nil]
  obtain ⟨above, rest, hsplit⟩ := append_of_mem (of_decide_eq_true hfork)
  obtain ⟨S₁, hdown, hsteady, hchain₁, hmap, hcandidates, hgoes⟩ := h.disconnectTo hT hw hsplit
  -- from the fork on the branches are one
  have hrest : rest = below := by
    have hone := hT.branch_suffix (hchain.symm.trans hsplit)
    exact (cons.inj (hone.symm.trans (hT.branch_suffix hbranch))).2
  obtain ⟨S', hup, hsteady', hgoes', hend⟩ := hsteady.connectUpTo next.reverse hT hw hm
    (hcandidates ▸ hfound.candidate)
    (by rw [reverse_reverse, hchain₁, hrest, hbranch])
    (by
      intro c hc
      rw [TipState.failed, deref_of_map hmap]
      exact hfound.sound c (htake ▸ mem_reverse.mp hc))
    S.tipWork
  refine ⟨S', ?_, hsteady', hgoes.trans hgoes', hend.imp id (Or.imp id ?_)⟩
  · have hold : (S.chainActive.head?.map fun tip => (S.deref tip).nChainWork) =
        some S.tipWork := by
      obtain ⟨below', hhead⟩ := T₀.branch_head tip
      rw [BlockTree.tipWork, hchain, hhead]
      rfl
    rw [ActivateBestChainStep, h.same.branch, hfind, hdown, htake, hold]
    exact hup
  · rintro ⟨c, hlinked, hbefore, hafter⟩
    refine ⟨c, hlinked, ?_, hafter⟩
    rw [← hbefore, TipState.failed, TipState.failed, deref_of_map hmap]

/-! ## All steps -/

theorem Steady.tipWork (h : Steady N T₀ S) (hchain : S.chainActive = tip :: below) :
    S.tipWork = (T₀.deref tip).nChainWork := by
  rw [BlockTree.tipWork, hchain]
  exact (h.same tip).nChainWork

/-- The loop has ended where nothing was left to go to, or on the best of what was left. -/
structure Ended (N : TipNode) (T₀ : BlockTree) (S : TipState) (r : Outcome × TipState) : Prop where
  ok : r.1 = .ok
  best : ∃ S₁, Goes N T₀ S S₁ ∧ Goes N T₀ S₁ r.2 ∧ (S₁.setBlockIndexCandidates = [] ∨
    ∃ m, (∀ c ∈ S₁.setBlockIndexCandidates, T₀.rank N.toTreeNode c ≤ T₀.rank N.toTreeNode m) ∧
      r.2.tipWork = (T₀.deref m).nChainWork)

theorem Steady.round (h : Steady N T₀ S) (hT : Grounded N.hashGenesisBlock T₀) (hw : Works N) :
    (∃ r, S.ActivateBestChain N = .inr r ∧ Ended N T₀ S r) ∨
      ∃ S', S.ActivateBestChain N = .inl S' ∧ Steady N T₀ S' ∧ Goes N T₀ S S' ∧
        (S.tipWork < S'.tipWork ∨ ∃ c, T₀.Linked c ∧ S.failed c = false ∧ S'.failed c = true) := by
  obtain ⟨T, found, hfind, hsteady, hgoes, hchain, hnone, hsome⟩ := h.findMostWorkChain hT
  rw [ActivateBestChain, hfind]
  cases found with
  | none => exact .inl ⟨_, rfl, rfl, _, hgoes, .refl, .inl (hnone rfl)⟩
  | some m =>
    have hfound := hsome m rfl
    dsimp only
    by_cases htip : T.chainActive.head? = some m
    · rw [if_pos htip]
      obtain ⟨below, hcons⟩ := List.head?_eq_some_iff.mp htip
      exact .inl ⟨_, rfl, rfl, _, hgoes, .refl, .inr ⟨m, hfound.best, hsteady.tipWork hcons⟩⟩
    · rw [if_neg htip]
      obtain ⟨S', hstep, hsteady', hgoes', hend⟩ := hsteady.activateBestChainStep hT hw hfound
      rw [hstep]
      dsimp only
      by_cases htip' : S'.chainActive.head? = some m
      · rw [if_pos htip', hw.flush, if_pos rfl]
        obtain ⟨below, hcons⟩ := List.head?_eq_some_iff.mp htip'
        exact .inl ⟨_, rfl, rfl, _, hgoes, hgoes', .inr ⟨m, hfound.best, hsteady'.tipWork hcons⟩⟩
      · rw [if_neg htip']
        refine .inr ⟨S', rfl, hsteady', hgoes.trans hgoes', ?_⟩
        rcases hend with hreached | hbetter | ⟨c, hlinked, hbefore, hafter⟩
        · obtain ⟨below, hhead⟩ := T₀.branch_head m
          exact absurd (by rw [hreached, hhead, List.head?_cons]) htip'
        · left
          obtain ⟨tip, -, hbranch, -⟩ := h.chain
          obtain ⟨below, hhead⟩ := T₀.branch_head tip
          have hcons := hbranch.trans hhead
          rw [h.tipWork hcons, ← hsteady.tipWork (hchain.trans hcons)]
          exact hbetter
        · refine .inr ⟨c, hlinked, ?_, hafter⟩
          by_contra hfailed
          have hfailed' := Goes.failed hgoes (Bool.not_eq_false _ ▸ hfailed)
          exact absurd (hfailed'.symm.trans hbefore) (by simp)

/-- The entries of the index. -/
def hashes (T₀ : BlockTree) : Finset uint256 := T₀.mapBlockIndex.keys.toFinset

theorem Linked.mem_hashes (h : T₀.Linked c) : c ∈ hashes T₀ := by
  rw [hashes, mem_toFinset, ← AList.mem_keys]
  exact AList.lookup_isSome.mp (Linked.isSome h)

/-- **The loop ends.**  Marks are never taken off, and a tip gets better only so often. -/
theorem Steady.returns (h : Steady N T₀ S) (hT : Grounded N.hashGenesisBlock T₀) (hw : Works N) :
    ∃ r, Loop.Returns (ActivateBestChain N) S r ∧ Ended N T₀ S r := by
  refine Loop.returns_of_climb (I := fun s => Steady N T₀ s ∧ Goes N T₀ S s)
    (fun s => ((hashes T₀).filter fun hash => s.failed hash = true).card)
    (fun s => ((hashes T₀).filter fun hash => (T₀.deref hash).nChainWork < s.tipWork).card)
    (hashes T₀).card (hashes T₀).card ?_ ?_ ⟨h, .refl⟩
  · rintro s ⟨hs, hgoes⟩
    rcases hs.round hT hw with ⟨r, hbody, hend⟩ | ⟨s', hbody, hs', hgoes', hclimb⟩
    · obtain ⟨S₁, hbefore, hafter, hbest⟩ := hend.best
      exact .inl ⟨r, hbody, hend.ok, S₁, hgoes.trans hbefore, hafter, hbest⟩
    · refine .inr ⟨s', hbody, ⟨hs', hgoes.trans hgoes'⟩, ?_⟩
      have hmarked : ((hashes T₀).filter fun hash => s.failed hash = true) ⊆
          (hashes T₀).filter fun hash => s'.failed hash = true :=
        Finset.monotone_filter_right _ fun hash _ => Goes.failed hgoes'
      rcases hclimb with hbetter | ⟨c, hlinked, hbefore, hafter⟩
      · refine .inr ⟨Finset.card_le_card hmarked, Finset.card_lt_card ?_⟩
        obtain ⟨tip, htip, hbranch, -⟩ := hs.chain
        obtain ⟨below, hhead⟩ := T₀.branch_head tip
        have hwork := hs.tipWork (hbranch.trans hhead)
        refine Finset.ssubset_iff_subset_ne.mpr ⟨?_, ?_⟩
        · exact Finset.monotone_filter_right _ fun hash _ hlt => BitVec.lt_trans hlt hbetter
        · -- the old tip is worse than the new one
          intro heq
          have hmem : tip ∈ (hashes T₀).filter fun hash =>
              (T₀.deref hash).nChainWork < s'.tipWork :=
            Finset.mem_filter.mpr ⟨Linked.mem_hashes htip, hwork ▸ hbetter⟩
          rw [← heq, Finset.mem_filter, hwork] at hmem
          exact BitVec.lt_irrefl _ hmem.2
      · refine .inl (Finset.card_lt_card (Finset.ssubset_iff_subset_ne.mpr ⟨hmarked, ?_⟩))
        intro heq
        have hmem : c ∈ (hashes T₀).filter fun hash => s'.failed hash = true :=
          Finset.mem_filter.mpr ⟨Linked.mem_hashes hlinked, hafter⟩
        rw [← heq, Finset.mem_filter, hbefore] at hmem
        exact absurd hmem.2 (by simp)
  · rintro s -
    exact ⟨Finset.card_filter_le _ _, Finset.card_filter_le _ _⟩

end

end TipState

end Divitae.BlockIndex
