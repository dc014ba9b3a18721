/-
# `Reprocess` — blocks are tried again

`ReprocessBlocks(n)`, which a lock on a transaction sets off: blocks that were rejected lately are
reconsidered, tips are disconnected, and the best chain becomes active again.

The loop over the tips runs from 0 *to* `n` and does not look at what became of a tip, so that it
takes off `n + 1` of them, unless one cannot be taken off when its turn comes.  The genesis block
never can: it has no undo data.
-/
import Divitae.BestChainRuns
import Divitae.Reconsider
import Mathlib.Data.BitVec

namespace Divitae.BlockIndex

open WayBack BlockTree List Option

namespace TipState

section
variable (N : TipNode)

/-- The loop of `DisconnectBlocksAndReprocess`. -/
def DisconnectBlocks : ℕ → TipState → Outcome × TipState
  | 0, S => (.ok, S)
  | rounds + 1, S =>
    match S.DisconnectTip N with
    | (.crash, S') => (.crash, S')
    | (_, S') => DisconnectBlocks rounds S'

def DisconnectBlocksAndReprocess (blocks : ℤ) (S : TipState) : Outcome × TipState :=
  DisconnectBlocks N (blocks + 1).toNat S

/-- Whether a block was rejected lately: a window twice as large as is usual for the blocks we
want to reset. -/
def recent (nBlocks : ℤ) (rejected : uint256 × ℤ) : Bool :=
  decide (N.GetTime rejected.1 - nBlocks * 60 * 5 < rejected.2)

/-- The loop over `mapRejectedBlocks`. -/
def ReconsiderBlocks (mapRejectedBlocks : List (uint256 × ℤ)) (nBlocks : ℤ) (S : TipState) :
    TipState :=
  { S with toBlockTree :=
      mapRejectedBlocks.foldl (fun T rejected =>
        if recent N nBlocks rejected && (T.entry rejected.1).isSome then
          ReconsiderBlock N T rejected.1
        else T) S.toBlockTree }

/-- `ReprocessBlocks`, if the best chain is active again after at most `fuel` rounds. -/
def ReprocessBlocks (mapRejectedBlocks : List (uint256 × ℤ)) (nBlocks : ℤ) (fuel : ℕ)
    (S : TipState) : Option (Outcome × TipState) :=
  match (S.ReconsiderBlocks N mapRejectedBlocks nBlocks).DisconnectBlocksAndReprocess N nBlocks with
  | (.crash, S') => some (.crash, S')
  | (_, S') => Loop.run (ActivateBestChain N) fuel S'

/-- The state after some rounds of `ActivateBestChain`. -/
def rounds : ℕ → TipState → TipState
  | 0, S => S
  | n + 1, S =>
    match S.ActivateBestChain N with
    | .inl S' => rounds n S'
    | .inr (_, S') => S'

end

section
variable (N : TipNode) (mapRejectedBlocks : List (uint256 × ℤ)) (nBlocks : ℤ) (S : TipState)

def replayed : TipState :=
  ((S.ReconsiderBlocks N mapRejectedBlocks nBlocks).DisconnectBlocksAndReprocess N nBlocks).2

/-- No more blocks are taken off than were asked for. -/
def TakesOff : Prop := (S.replayed N mapRejectedBlocks nBlocks).disconnected.length ≤ nBlocks.toNat

/-- The genesis block stays, as tips are disconnected and in every round after that. -/
def KeepsGenesis : Prop :=
  ∀ n, N.hashGenesisBlock ∉ (rounds N n (S.replayed N mapRejectedBlocks nBlocks)).disconnected

/-- It ends, and where no block that was disconnected has failed, on a tip of no less work. -/
def ComesBack : Prop :=
  ∃ fuel S', S.ReprocessBlocks N mapRejectedBlocks nBlocks fuel = some (.ok, S') ∧
    ((∀ hash ∈ S'.disconnected, S'.failed hash = false) → S.tipWork ≤ S'.tipWork)

/-! ## When it meets that -/

/-- A node between two calls: what `CheckBlockIndex` asserts of the index, what the active chain
is, and nothing disconnected so far. -/
structure AtRest : Prop where
  wellFormed : WellFormed N.toTreeNode S.toBlockTree
  root : ∀ hash e, S.entry hash = some e → (e.pprev = none ↔ hash = N.hashGenesisBlock)
  work : ∀ hash e q, S.entry hash = some e → S.prev e = some q → q.nChainWork < e.nChainWork
  transactions : ∀ hash, Linked S.toBlockTree hash →
    BLOCK_VALID_TRANSACTIONS ≤ (S.deref hash).nStatus.valid
  tip : ∃ tip, Linked S.toBlockTree tip ∧ S.chainActive = S.branch tip ∧ S.hashBestBlock = tip
  sound : ∀ hash ∈ S.chainActive, S.failed hash = false
  undo : ∀ hash ∈ S.chainActive,
    ((S.deref hash).nStatus.haveUndo = true ↔ hash ≠ N.hashGenesisBlock)
  candidates : ∀ hash ∈ S.setBlockIndexCandidates, Linked S.toBlockTree hash
  fresh : S.disconnected = []

/-- The loop comes to a tip that cannot be disconnected, or is not entered. -/
def Stops : Prop :=
  nBlocks < 0 ∨ ∃ i ≤ nBlocks.toNat, ∃ hash, S.chainActive[i]? = some hash ∧
    ¬ S.Disconnects N (S.attempts + i) hash

/-- What is linked, has not failed and is no worse than the tip is a candidate. -/
def Entered : Prop :=
  ∀ tip ∈ S.chainActive.head?, ∀ hash, Linked S.toBlockTree hash → S.failed hash = false →
    S.value_comp N.toTreeNode hash tip = false → hash ∈ S.setBlockIndexCandidates

/-- What is below a block rejected lately, and has failed, is worse than the tip. -/
def LeavesNoneOut : Prop :=
  ∀ tip ∈ S.chainActive.head?, ∀ rejected ∈ mapRejectedBlocks, recent N nBlocks rejected →
    ∀ hash ∈ S.branch rejected.1, hash ≠ rejected.1 → S.failed hash = true →
      S.value_comp N.toTreeNode hash tip = true

end

section
variable {N : TipNode} {mapRejectedBlocks : List (uint256 × ℤ)} {nBlocks : ℤ} {S S' : TipState}
  {T₀ : BlockTree} {outcome : Outcome} {tip hash : uint256} {below : List uint256}

theorem DisconnectTip_cases (hstep : S.DisconnectTip N = (outcome, S')) :
    (outcome = .ok ∧ ∃ tip, S.chainActive = tip :: S'.chainActive ∧ S.Disconnects N S.attempts tip ∧
      S'.disconnected = tip :: S.disconnected ∧ S'.attempts = S.attempts + 1 ∧
      S'.mapBlockIndex = S.mapBlockIndex) ∨
    (outcome ≠ .ok ∧ S'.toBlockTree = S.toBlockTree ∧ S'.disconnected = S.disconnected) := by
  rw [DisconnectTip] at hstep
  cases hchain : S.chainActive with
  | nil =>
    rw [hchain] at hstep
    cases hstep
    exact .inr ⟨by simp, rfl, rfl⟩
  | cons tip below =>
    simp only [hchain] at hstep
    cases hprev : (S.deref tip).pprev with
    | none =>
      rw [hprev] at hstep
      split_ifs at hstep <;> cases hstep <;> exact .inr ⟨by simp, rfl, rfl⟩
    | some pprev =>
      rw [hprev] at hstep
      split_ifs at hstep with hread hbest hundo hdisconnect hflush
      all_goals cases hstep
      · exact .inr ⟨by simp, rfl, rfl⟩
      · exact .inr ⟨by simp, rfl, rfl⟩
      · exact .inr ⟨by simp, rfl, rfl⟩
      · exact .inr ⟨by simp, rfl, rfl⟩
      · exact .inr ⟨by simp, rfl, rfl⟩
      · refine .inl ⟨rfl, tip, rfl, ⟨by simpa using hread, ?_, by simpa using hdisconnect,
          by simpa using hflush⟩, rfl, rfl, rfl⟩
        rw [GetUndoPos_eq_none] at hundo
        exact eq_true_of_ne_false hundo

theorem DisconnectBlocks_le (N : TipNode) (k : ℕ) (S : TipState) :
    (DisconnectBlocks N k S).2.disconnected.length ≤ S.disconnected.length + k := by
  induction k generalizing S with
  | zero => exact le_rfl
  | succ k ih =>
    rw [DisconnectBlocks]
    cases hstep : S.DisconnectTip N with
    | mk outcome S' =>
      have hone : S'.disconnected.length ≤ S.disconnected.length + 1 := by
        rcases DisconnectTip_cases hstep with ⟨-, tip, -, -, hleft, -⟩ | ⟨-, -, hleft⟩
        · rw [hleft, length_cons]
        · rw [hleft]
          exact Nat.le_succ _
      have hrest := ih S'
      cases outcome
      all_goals
        dsimp only
        omega

theorem DisconnectBlocks_lt {k i : ℕ} (hi : i < k) (htip : S.chainActive[i]? = some hash)
    (hfails : ¬ S.Disconnects N (S.attempts + i) hash) :
    (DisconnectBlocks N k S).2.disconnected.length < S.disconnected.length + k := by
  induction k generalizing S i with
  | zero => exact absurd hi (Nat.not_lt_zero i)
  | succ k ih =>
    rw [DisconnectBlocks]
    cases hstep : S.DisconnectTip N with
    | mk outcome S' =>
      rcases DisconnectTip_cases hstep with
        ⟨rfl, tip, hchain, hcan, hleft, hattempts, hmap⟩ | ⟨hnot, -, hleft⟩
      · dsimp only
        cases i with
        | zero =>
          -- this one could be disconnected
          rw [hchain, List.getElem?_cons_zero] at htip
          exact absurd (some.inj htip ▸ hcan) hfails
        | succ i =>
          rw [hchain, List.getElem?_cons_succ] at htip
          have hrest := ih (S := S') (Nat.lt_of_succ_lt_succ hi) htip (by
            rintro ⟨hread, hpresent, hundo, hflush⟩
            have hshift : S.attempts + (i + 1) = S'.attempts + i := by omega
            rw [hshift] at hfails
            exact hfails ⟨hread, deref_of_map hmap hash ▸ hpresent, hundo, hflush⟩)
          rw [hleft, length_cons] at hrest
          omega
      · have hrest := DisconnectBlocks_le N k S'
        have hsame := congrArg List.length hleft
        cases outcome
        · exact absurd rfl hnot
        all_goals
          dsimp only
          omega

theorem Steady.disconnectBlocks_all (h : Steady N T₀ S) (hT : Grounded N.hashGenesisBlock T₀)
    {k : ℕ} (hall : ∀ i < k, ∀ hash, S.chainActive[i]? = some hash →
      S.Disconnects N (S.attempts + i) hash) :
    (DisconnectBlocks N k S).2.disconnected.length = S.disconnected.length + k := by
  induction k generalizing S with
  | zero => rfl
  | succ k ih =>
    obtain ⟨tip, below, hchain⟩ := h.nonempty
    have hcan := hall 0 (Nat.succ_pos k) tip (by rw [hchain, List.getElem?_cons_zero])
    obtain ⟨S', hstep, hsteady, hbelow, hmap, -⟩ := h.disconnectTip hT hchain hcan
    rcases DisconnectTip_cases hstep with
      ⟨-, tip', hchain', -, hleft, hattempts, -⟩ | ⟨hnot, -⟩
    · have hrest := ih hsteady (by
        intro i hi hash htip
        have hshift : S'.attempts + i = S.attempts + (i + 1) := by omega
        rw [hshift]
        obtain ⟨hread, hpresent, hundo, hflush⟩ := hall (i + 1) (Nat.succ_lt_succ hi) hash
          (by rw [hchain', List.getElem?_cons_succ, htip])
        exact ⟨hread, (deref_of_map hmap hash).symm ▸ hpresent, hundo, hflush⟩)
      rw [DisconnectBlocks, hstep]
      rw [hrest, hleft, length_cons]
      omega
    · exact absurd rfl hnot

/-! ## The genesis block -/

/-- The genesis block has no undo data, and was not disconnected. -/
structure Spares (N : TipNode) (S : TipState) : Prop where
  base : (S.deref N.hashGenesisBlock).nStatus.haveUndo = false
  stays : N.hashGenesisBlock ∉ S.disconnected

theorem Spares.congr {T : BlockTree} {n : ℕ} {best : uint256} (h : Spares N S)
    (hundo : (T.deref N.hashGenesisBlock).nStatus.haveUndo =
      (S.deref N.hashGenesisBlock).nStatus.haveUndo) :
    Spares N { S with toBlockTree := T, attempts := n, hashBestBlock := best } :=
  ⟨hundo.trans h.base, h.stays⟩

section
variable (h : Spares N S)
include h

theorem Spares.disconnectTip : Spares N (S.DisconnectTip N).2 := by
  cases hstep : S.DisconnectTip N with
  | mk outcome S' =>
    rcases DisconnectTip_cases hstep with ⟨-, tip, -, hcan, hleft, -, hmap⟩ | ⟨-, htree, hleft⟩
    · refine ⟨?_, ?_⟩
      · rw [deref_of_map hmap]
        exact h.base
      · rw [hleft, mem_cons, not_or]
        refine ⟨?_, h.stays⟩
        rintro rfl
        exact absurd (hcan.present.symm.trans h.base) (by simp)
    · exact ⟨htree ▸ h.base, hleft ▸ h.stays⟩

theorem Spares.disconnectBlocks (k : ℕ) : Spares N (DisconnectBlocks N k S).2 := by
  induction k generalizing S with
  | zero => exact h
  | succ k ih =>
    have hstep := h.disconnectTip
    rw [DisconnectBlocks]
    cases htip : S.DisconnectTip N with
    | mk outcome S' =>
      rw [htip] at hstep
      cases outcome
      case crash => exact hstep
      all_goals exact ih hstep

theorem Spares.disconnectTo (pindexFork : Option uint256) :
    Spares N (S.DisconnectTo N pindexFork).2 := by
  induction hlength : S.chainActive.length using Nat.strong_induction_on generalizing S with
  | _ n ih =>
    have hstep := h.disconnectTip
    rw [DisconnectTo]
    split
    next => exact h
    next tip htip =>
      split
      next => exact h
      next =>
        split
        next S' hok =>
          rw [hok] at hstep
          obtain ⟨pindexDelete, hchain⟩ := DisconnectTip_shorter hok
          refine ih _ ?_ hstep rfl
          rw [← hlength, hchain]
          exact Nat.lt_succ_self _
        next outcome S' hnot hother =>
          rw [hother] at hstep
          exact hstep

theorem Spares.connectTip (pindexNew : uint256) :
    Spares N (S.ConnectTip N pindexNew).2 := by
  have hwrite : Spares N { S with
      toBlockTree := S.writeUndo N pindexNew
      attempts := S.attempts + 1
      hashBestBlock := pindexNew } :=
    h.congr (congrArg (fun e : CBlockIndex => e.nStatus.haveUndo) (writeUndo_spec pindexNew).2.2)
  rw [ConnectTip]
  split
  next => exact h.congr rfl
  next =>
    split
    next => exact h.congr rfl
    next =>
      split
      next => exact h.congr rfl
      next => exact h.congr (InvalidBlockFound_marks.haveUndo _)
      next => exact h.congr rfl
      next => exact h.congr rfl
      next =>
        split
        next => exact hwrite
        next => exact ⟨hwrite.base, hwrite.stays⟩

end

theorem PruneBlockIndexCandidates_map {N : TreeNode} {T T' : BlockTree}
    (h : T.PruneBlockIndexCandidates N = some T') : T'.mapBlockIndex = T.mapBlockIndex := by
  unfold PruneBlockIndexCandidates at h
  split at h
  · cases h
  · dsimp only at h
    split_ifs at h
    cases h
    rfl

theorem Spares.connectUpTo (h : Spares N S) (nOldWork : Option uint256) (l : List uint256) :
    Spares N (S.ConnectUpTo N nOldWork l).2 := by
  induction l generalizing S with
  | nil => exact h
  | cons c l ih =>
    have hstep := h.connectTip c
    rw [ConnectUpTo]
    cases htip : S.ConnectTip N c with
    | mk outcome S' =>
      rw [htip] at hstep
      cases outcome
      case ok =>
        dsimp only
        split
        next => exact hstep
        next T hprune =>
          have hpruned : Spares N { S' with toBlockTree := T } :=
            hstep.congr (by rw [deref_of_map (PruneBlockIndexCandidates_map hprune)])
          cases nOldWork with
          | none => exact hpruned
          | some nOldWork =>
            dsimp only
            split_ifs
            · exact hpruned
            · exact ih hpruned
      all_goals exact hstep

theorem giveUp_haveUndo (fFailedChain : Bool) (above : List uint256) (T : BlockTree) :
    ((above.foldl (giveUp fFailedChain) T).deref hash).nStatus.haveUndo =
      (T.deref hash).nStatus.haveUndo := by
  cases fFailedChain with
  | true => exact (giveUp_marks above T).1.haveUndo hash
  | false =>
    induction above generalizing T with
    | nil => rfl
    | cons c above ih =>
      rw [foldl_cons, ih, giveUp, if_neg (by simp)]
      rfl

theorem FindMostWorkChain_haveUndo {N : TreeNode} {T T' : BlockTree} {found : Option uint256}
    (h : T.FindMostWorkChain N = some (T', found)) :
    (T'.deref hash).nStatus.haveUndo = (T.deref hash).nStatus.haveUndo := by
  induction hlength : T.setBlockIndexCandidates.length using Nat.strong_induction_on
    generalizing T with
  | _ n ih =>
    rw [FindMostWorkChain] at h
    split at h
    next => cases h; rfl
    next m hbest =>
      split at h
      next => cases h; rfl
      next => cases h
      next above p htest =>
        have hrest := ih _ (hlength ▸ removeChain_lt (mem_of_greatest hbest) htest) h rfl
        exact hrest.trans (giveUp_haveUndo (T.deref p).nStatus.failed above T)

theorem Spares.activateBestChainStep (h : Spares N S) (m : uint256) :
    Spares N (S.ActivateBestChainStep N m).2 := by
  have hdown := h.disconnectTo ((S.branch m).find? fun pindex => pindex ∈ S.chainActive)
  rw [ActivateBestChainStep]
  cases hto : S.DisconnectTo N ((S.branch m).find? fun pindex => pindex ∈ S.chainActive) with
  | mk outcome S' =>
    rw [hto] at hdown
    cases outcome
    case ok => exact hdown.connectUpTo _ _
    all_goals exact hdown

theorem Spares.round (h : Spares N S) :
    (∀ S', S.ActivateBestChain N = .inl S' → Spares N S') ∧
      ∀ r, S.ActivateBestChain N = .inr r → Spares N r.2 := by
  rw [ActivateBestChain]
  split
  next => exact ⟨by simp, fun r hr => by cases hr; exact h⟩
  next T hfind =>
    have hfound : Spares N { S with toBlockTree := T } := h.congr (FindMostWorkChain_haveUndo hfind)
    exact ⟨by simp, fun r hr => by cases hr; exact hfound⟩
  next T m hfind =>
    have hfound : Spares N { S with toBlockTree := T } := h.congr (FindMostWorkChain_haveUndo hfind)
    have hstep := hfound.activateBestChainStep m
    dsimp only
    split_ifs
    · exact ⟨by simp, fun r hr => by cases hr; exact hfound⟩
    · cases hactivate : ActivateBestChainStep N { S with toBlockTree := T } m with
      | mk outcome S' =>
        rw [hactivate] at hstep
        cases outcome
        case ok =>
          dsimp only
          split_ifs
          · exact ⟨by simp, fun r hr => by cases hr; exact ⟨hstep.base, hstep.stays⟩⟩
          · exact ⟨by simp, fun r hr => by cases hr; exact ⟨hstep.base, hstep.stays⟩⟩
          · exact ⟨fun S'' hS => by cases hS; exact hstep, by simp⟩
        all_goals exact ⟨by simp, fun r hr => by cases hr; exact hstep⟩

theorem Spares.rounds (h : Spares N S) (n : ℕ) : Spares N (TipState.rounds N n S) := by
  induction n generalizing S with
  | zero => exact h
  | succ n ih =>
    rw [TipState.rounds]
    cases hround : S.ActivateBestChain N with
    | inl S' => exact ih (h.round.1 S' hround)
    | inr r => exact h.round.2 r hround

/-! ## At rest -/

section
variable (h : AtRest N S)
include h

theorem AtRest.grounded : Grounded N.hashGenesisBlock S.toBlockTree := by
  have hentry : ∀ hash p, (S.deref hash).pprev = some p → ∃ e q, S.entry hash = some e ∧
      S.deref hash = e ∧ S.entry p = some q ∧ S.deref p = q ∧ e.nHeight = q.nHeight + 1 ∧
      S.prev e = some q := by
    intro hash p hprev
    cases he : S.entry hash with
    | none =>
      rw [deref, he] at hprev
      cases hprev
    | some e =>
      have hderef : S.deref hash = e := by rw [deref, he, getD_some]
      rw [hderef] at hprev
      obtain ⟨q, hq, hheight, -⟩ := (h.wellFormed.placed hash e he).next p hprev
      exact ⟨e, q, rfl, hderef, hq, by rw [deref, hq, getD_some], hheight, prev_of_entry hprev hq⟩
  constructor
  · intro hash p hprev
    obtain ⟨e, q, -, he, -, hq, hheight, -⟩ := hentry hash p hprev
    rw [he, hq, hheight]
  · intro hash p hprev
    obtain ⟨e, q, hlook, he, -, hq, -, hpq⟩ := hentry hash p hprev
    rw [he, hq]
    exact h.work hash e q hlook hpq
  · rw [deref]
    cases hlook : S.entry N.hashGenesisBlock with
    | none => rfl
    | some e => exact (h.root _ e hlook).mpr rfl
  · intro hash hlinked hprev
    obtain ⟨e, he⟩ := isSome_iff_exists.mp hlinked.isSome
    rw [deref, he, getD_some] at hprev
    exact (h.root hash e he).mp hprev
  · intro hash p hlinked hprev
    obtain ⟨e, q, hlook, he, -, hq, -, hpq⟩ := hentry hash p hprev
    intro hzero
    rw [hq] at hzero
    rw [Linked, he, h.wellFormed.counted hash e hlook not_mem_nil,
      countOf_unready hpq hzero] at hlinked
    exact hlinked rfl
  · intro hash hlinked
    obtain ⟨e, he⟩ := isSome_iff_exists.mp hlinked.isSome
    have hderef : S.deref hash = e := by rw [deref, he, getD_some]
    by_contra hdata
    rw [hderef, Bool.not_eq_true] at hdata
    rw [Linked, hderef, h.wellFormed.nChainTx_nodata he hdata] at hlinked
    exact hlinked rfl

theorem AtRest.genesis_mem : N.hashGenesisBlock ∈ S.chainActive := by
  obtain ⟨tip, hlinked, hchain, -⟩ := h.tip
  rw [hchain]
  exact h.grounded.genesis_mem hlinked

theorem AtRest.base : (S.deref N.hashGenesisBlock).nStatus.haveUndo = false := by
  by_contra hundo
  exact (h.undo _ h.genesis_mem).mp (eq_true_of_ne_false hundo) rfl

theorem AtRest.steady : Steady N S.toBlockTree S where
  same := SameTree.refl _
  chain := h.tip
  undo hash hmem hne := (h.undo hash hmem).mpr hne
  base := h.base
  candidates := h.candidates

end

theorem ReconsiderBlocks_unmarks (mapRejectedBlocks : List (uint256 × ℤ)) (nBlocks : ℤ)
    (htip : S.chainActive.head? = some tip) :
    Unmarks S.toBlockTree (S.ReconsiderBlocks N mapRejectedBlocks nBlocks).toBlockTree := by
  rw [ReconsiderBlocks]
  generalize hT : S.toBlockTree = T
  rw [hT] at htip
  clear hT
  induction mapRejectedBlocks generalizing T with
  | nil => exact Unmarks.refl T
  | cons rejected l ih =>
    rw [foldl_cons]
    split_ifs with hcond
    · have hone := (ReconsiderBlock_spec (N := N) (Bool.and_eq_true_iff.mp hcond).2 htip).1
      exact hone.trans (ih _ (hone.chainActive ▸ htip))
    · exact ih T htip

theorem AtRest.reconsider_one (h : AtRest N S) {T : BlockTree} {pindex : uint256}
    (htip : S.chainActive.head? = some tip) (hunmarks : Unmarks S.toBlockTree T)
    (hpresent : (T.entry pindex).isSome)
    (hnone : ∀ hash ∈ S.branch pindex, hash ≠ pindex → S.failed hash = true →
      S.value_comp N.toTreeNode hash tip = true)
    (hall : ∀ hash, S.Linked hash → (T.deref hash).nStatus.failed = false →
      S.rank N.toTreeNode tip ≤ S.rank N.toTreeNode hash → hash ∈ T.setBlockIndexCandidates)
    (hash : uint256) (hlinked : S.Linked hash)
    (hafter : ((ReconsiderBlock N T pindex).deref hash).nStatus.failed = false)
    (hrank : S.rank N.toTreeNode tip ≤ S.rank N.toTreeNode hash) :
    hash ∈ (ReconsiderBlock N T pindex).setBlockIndexCandidates := by
  obtain ⟨hone, hspec⟩ := ReconsiderBlock_spec (N := N) hpresent
    (hunmarks.chainActive ▸ htip : T.chainActive.head? = some tip)
  by_cases hbefore : (T.deref hash).nStatus.failed = true
  · have hfailed := hunmarks.failed hash hbefore
    have hne : tip ≠ hash := by
      rintro rfl
      exact absurd (hfailed.symm.trans (h.sound tip (mem_of_mem_head? htip))) (by simp)
    have hbetter : Better N.toTreeNode S.toBlockTree tip hash :=
      ⟨hlinked, h.transactions hash hlinked,
        lt_of_le_of_ne hrank fun heq => hne (rank_injective _ _ heq)⟩
    rcases hspec hash hbefore hafter (hbetter.congr hunmarks) with hmem | ⟨hbelow, hother⟩
    · exact hmem
    · rw [hunmarks.same.branch] at hbelow
      have hworse := hnone hash hbelow hother hfailed
      exact absurd (value_comp_iff.mp hworse) (not_lt.mpr hrank)
  · exact hone.kept hash (hall hash hlinked (Bool.eq_false_iff.mpr hbefore) hrank)

theorem ReconsiderBlocks_entered (h : AtRest N S) (htip : S.chainActive.head? = some tip)
    (hentered : S.Entered N) (hnone : S.LeavesNoneOut N mapRejectedBlocks nBlocks)
    (hlinked : S.Linked hash)
    (hgood : (S.ReconsiderBlocks N mapRejectedBlocks nBlocks).failed hash = false)
    (hrank : S.rank N.toTreeNode tip ≤ S.rank N.toTreeNode hash) :
    hash ∈ (S.ReconsiderBlocks N mapRejectedBlocks nBlocks).setBlockIndexCandidates := by
  suffices hfold : ∀ (l : List (uint256 × ℤ)) (T : BlockTree),
      (∀ rejected ∈ l, rejected ∈ mapRejectedBlocks) → Unmarks S.toBlockTree T →
      (∀ hash, S.Linked hash → (T.deref hash).nStatus.failed = false →
        S.rank N.toTreeNode tip ≤ S.rank N.toTreeNode hash → hash ∈ T.setBlockIndexCandidates) →
      ∀ hash, S.Linked hash →
        ((l.foldl (fun T rejected =>
          if recent N nBlocks rejected && (T.entry rejected.1).isSome then
            ReconsiderBlock N T rejected.1
          else T) T).deref hash).nStatus.failed = false →
        S.rank N.toTreeNode tip ≤ S.rank N.toTreeNode hash →
        hash ∈ (l.foldl (fun T rejected =>
          if recent N nBlocks rejected && (T.entry rejected.1).isSome then
            ReconsiderBlock N T rejected.1
          else T) T).setBlockIndexCandidates by
    refine hfold mapRejectedBlocks S.toBlockTree (fun _ h => h) (Unmarks.refl _) ?_ hash hlinked
      hgood hrank
    intro hash hlinked hgood hrank
    exact hentered tip htip hash hlinked hgood (not_value_comp_iff.mpr hrank)
  intro l
  induction l with
  | nil => exact fun T _ _ hall => hall
  | cons rejected l ih =>
    intro T hsub hunmarks hall
    rw [foldl_cons]
    have hsub' : ∀ rejected ∈ l, rejected ∈ mapRejectedBlocks := fun r hr =>
      hsub r (mem_cons_of_mem rejected hr)
    by_cases hcond : (recent N nBlocks rejected && (T.entry rejected.1).isSome) = true
    · rw [if_pos hcond]
      obtain ⟨hrecent, hpresent⟩ := Bool.and_eq_true_iff.mp hcond
      have hone := (ReconsiderBlock_spec (N := N) hpresent
        (hunmarks.chainActive ▸ htip : T.chainActive.head? = some tip)).1
      exact ih _ hsub' (hunmarks.trans hone) (h.reconsider_one htip hunmarks hpresent
        (hnone tip htip rejected (hsub rejected mem_cons_self) hrecent) hall)
    · rw [if_neg hcond]
      exact ih T hsub' hunmarks hall

theorem AtRest.reconsidered (h : AtRest N S) :
    Steady N S.toBlockTree (S.ReconsiderBlocks N mapRejectedBlocks nBlocks) := by
  obtain ⟨tip, below, hchain⟩ := h.steady.nonempty
  have hunmarks := ReconsiderBlocks_unmarks (N := N) mapRejectedBlocks nBlocks
    (show S.chainActive.head? = some tip by rw [hchain, List.head?_cons])
  refine h.steady.of_flagged hunmarks.toFlagged ?_
  intro hash hmem
  rcases hunmarks.linked hash hmem with hmem | hlinked
  · exact h.candidates hash hmem
  · exact hlinked

/-! ## The three parts -/

/-- **The bound is kept only where the loop stops.** -/
theorem takesOff_iff (h : AtRest N S) :
    S.TakesOff N mapRejectedBlocks nBlocks ↔ S.Stops N nBlocks := by
  obtain ⟨tip, below, hchain⟩ := h.steady.nonempty
  have hunmarks := ReconsiderBlocks_unmarks (N := N) mapRejectedBlocks nBlocks
    (show S.chainActive.head? = some tip by rw [hchain, List.head?_cons])
  have hfresh : (S.ReconsiderBlocks N mapRejectedBlocks nBlocks).disconnected.length = 0 := by
    exact congrArg List.length h.fresh
  rw [TakesOff, replayed, DisconnectBlocksAndReprocess]
  by_cases hneg : nBlocks < 0
  · refine iff_of_true ?_ (.inl hneg)
    have hzero : (nBlocks + 1).toNat = 0 := by omega
    rw [hzero, DisconnectBlocks, hfresh]
    exact Nat.zero_le _
  · have hrounds : (nBlocks + 1).toNat = nBlocks.toNat + 1 := by omega
    rw [hrounds]
    constructor
    · intro hle
      refine .inr ?_
      by_contra hno
      push Not at hno
      have hall := h.reconsidered.disconnectBlocks_all (k := nBlocks.toNat + 1) h.grounded (by
        intro i hi hash htip
        have hcan := hno i (Nat.le_of_lt_succ hi) hash (hunmarks.chainActive ▸ htip)
        exact ⟨hcan.read, (hunmarks.haveUndo hash).trans hcan.present, hcan.undo, hcan.flush⟩)
      rw [hall, hfresh] at hle
      omega
    · rintro (hneg' | ⟨i, hi, hash, htip, hfails⟩)
      · exact absurd hneg' hneg
      · have htip' : (S.ReconsiderBlocks N mapRejectedBlocks nBlocks).chainActive[i]? = some hash :=
          hunmarks.chainActive.symm ▸ htip
        have hlt := DisconnectBlocks_lt (N := N) (k := nBlocks.toNat + 1) (Nat.lt_succ_of_le hi)
          htip' (by
            rintro ⟨hread, hpresent, hundo, hflush⟩
            exact hfails ⟨hread, (hunmarks.haveUndo hash).symm.trans hpresent, hundo, hflush⟩)
        rw [hfresh] at hlt
        omega

theorem AtRest.keepsGenesis (h : AtRest N S) : S.KeepsGenesis N mapRejectedBlocks nBlocks := by
  intro n
  have hsteady : Steady N S.toBlockTree (S.ReconsiderBlocks N mapRejectedBlocks nBlocks) :=
    h.reconsidered
  have hspares : Spares N (S.ReconsiderBlocks N mapRejectedBlocks nBlocks) := by
    refine ⟨hsteady.base, ?_⟩
    rw [ReconsiderBlocks]
    rw [h.fresh]
    exact not_mem_nil
  exact ((hspares.disconnectBlocks _).rounds n).stays

theorem Steady.disconnectBlocks (h : Steady N T₀ S) (hT : Grounded N.hashGenesisBlock T₀)
    (hw : Works N) (k : ℕ) :
    ∃ S', DisconnectBlocks N k S = (.ok, S') ∧ Steady N T₀ S' ∧ Goes N T₀ S S' := by
  induction k generalizing S with
  | zero => exact ⟨S, rfl, h, .refl⟩
  | succ k ih =>
    obtain ⟨tip, below, hchain⟩ := h.nonempty
    rw [DisconnectBlocks]
    by_cases hgenesis : tip = N.hashGenesisBlock
    · subst hgenesis
      obtain ⟨S', hrun, hsteady, hgoes⟩ := ih (h.tried (S.attempts + 1))
      refine ⟨S', ?_, hsteady, hgoes⟩
      rw [h.disconnectTip_genesis hw hchain]
      exact hrun
    · obtain ⟨S₁, hstep, hsteady, -, -, -, hgoes⟩ :=
        h.disconnectTip hT hchain (h.disconnects hw (hchain ▸ .head _) hgenesis _)
      obtain ⟨S', hrun, hsteady', hgoes'⟩ := ih hsteady
      refine ⟨S', ?_, hsteady', hgoes.trans hgoes'⟩
      rw [hstep]
      exact hrun

/-- **The way back.**  The old tip, or something better that was reached since, remains a
candidate, so that nothing worse is the best one. -/
theorem AtRest.comesBack (h : AtRest N S) (hw : Works N) (hentered : S.Entered N)
    (hnone : S.LeavesNoneOut N mapRejectedBlocks nBlocks) :
    S.ComesBack N mapRejectedBlocks nBlocks := by
  obtain ⟨tip, below, hchain⟩ := h.steady.nonempty
  have htip : S.chainActive.head? = some tip := by rw [hchain, List.head?_cons]
  have hunmarks := ReconsiderBlocks_unmarks (N := N) mapRejectedBlocks nBlocks htip
  have hsteady : Steady N S.toBlockTree (S.ReconsiderBlocks N mapRejectedBlocks nBlocks) :=
    h.reconsidered
  obtain ⟨S₁, hloop, hsteady₁, hgoes₁⟩ := hsteady.disconnectBlocks h.grounded hw (nBlocks + 1).toNat
  obtain ⟨⟨outcome, S'⟩, ⟨fuel, hrun⟩, hend⟩ := hsteady₁.returns h.grounded hw
  obtain rfl : outcome = .ok := hend.ok
  refine ⟨fuel, S', ?_, ?_⟩
  · rw [ReprocessBlocks, DisconnectBlocksAndReprocess, hloop]
    exact hrun
  · intro hsound
    obtain ⟨S₂, hbefore, hafter, hbest⟩ := hend.best
    have hsound₂ : S₂.view.Sound := Moves.sound hafter fun hash hmem hfailed =>
      absurd (hfailed.symm.trans (hsound hash hmem)) (by simp)
    -- the old tip is what the search can go back to
    have hreference : Reference (S.rank N.toTreeNode) {hash | S.Linked hash}
        (S.ReconsiderBlocks N mapRejectedBlocks nBlocks).view tip := by
      have hmem : tip ∈ S.chainActive := mem_of_mem_head? htip
      have hgood : (S.ReconsiderBlocks N mapRejectedBlocks nBlocks).failed tip = false := by
        by_contra hfailed
        have hfailed' := hunmarks.failed tip (eq_true_of_ne_false hfailed)
        exact absurd (hfailed'.symm.trans (h.sound tip hmem)) (by simp)
      have hlinked : S.Linked tip := by
        obtain ⟨tip', hlinked, hbranch, -⟩ := h.tip
        exact h.grounded.linked_of_mem hlinked (hbranch ▸ hmem)
      have hactive : tip ∈ (S.ReconsiderBlocks N mapRejectedBlocks nBlocks).chainActive :=
        hunmarks.chainActive.symm ▸ hmem
      refine ⟨?_, .inl hactive, ?_⟩
      · exact ReconsiderBlocks_entered h htip hentered hnone hlinked hgood le_rfl
      · intro hash hlinked hgood hrank
        exact ReconsiderBlocks_entered h htip hentered hnone hlinked
          (Bool.eq_false_iff.mpr hgood) hrank
    obtain ⟨r, hle, hr⟩ := moves_reference (hgoes₁.trans hbefore) hreference hsound₂
    rcases hbest with hempty | ⟨m, hmax, hwork⟩
    · exact absurd hr.candidate (by rw [view, hempty]; exact not_mem_nil)
    · rw [h.steady.tipWork hchain, hwork]
      exact work_le_of_rank_le (hle.trans (hmax r hr.candidate))

/-- **`ReprocessBlocks`.**  It takes off no more than it was asked to, and keeps the genesis block,
exactly where the loop comes to a tip that cannot be taken off; and it comes back to a chain of no
less work where the disk works and no block is left out of the candidates. -/
theorem reprocess_iff (mapRejectedBlocks : List (uint256 × ℤ)) (nBlocks : ℤ) (h : AtRest N S) :
    ((S.TakesOff N mapRejectedBlocks nBlocks ∧ S.KeepsGenesis N mapRejectedBlocks nBlocks) ↔
      S.Stops N nBlocks) ∧
    (Works N → S.Entered N → S.LeavesNoneOut N mapRejectedBlocks nBlocks →
      S.ComesBack N mapRejectedBlocks nBlocks) := by
  refine ⟨?_, h.comesBack⟩
  rw [takesOff_iff h]
  exact and_iff_left h.keepsGenesis

end

/-! ### One block above the genesis block -/

/-- A node whose disk works and whose blocks are valid; the hash of a header adds its bytes. -/
def steadyNode : TipNode where
  HashQuark bytes := BitVec.ofNat 256 ((bytes.map UInt8.toNat).sum + 1)
  Hash bytes := BitVec.ofNat 256 ((bytes.map UInt8.toNat).sum + 1)
  hashGenesisBlock := 671
  nLastPOWBlock := 0
  bnProofOfWorkLimit := 0
  fSkipProofOfWorkCheck := true
  ComputeNextStakeModifier _ _ := (0, false)
  address := ⟨BitVec.toNat, BitVec.toNat_injective⟩
  ReadBlockFromDisk _ _ := true
  DisconnectBlock _ _ := true
  CheckBlock _ _ := .accept
  ConnectBlock _ _ := .accept
  FindUndoPos _ := 0
  FlushStateToDisk _ := true
  GetTime _ := 0

def rootEntry : CBlockIndex where
  nChainWork := 2
  nTx := 1
  nChainTx := 1
  nStatus := { valid := 3, haveData := true }
  nVersion := 1
  nBits := 0x207fffff
  nSequenceId := 1

def nextEntry : CBlockIndex where
  pprev := some 671
  nHeight := 1
  nChainWork := 4
  nTx := 1
  nChainTx := 2
  nStatus := { valid := 5, haveData := true, haveUndo := true }
  nVersion := 1
  nBits := 0x207fffff
  nSequenceId := 2

def oneAbove : TipState where
  mapBlockIndex := (AList.insert 671 rootEntry ∅).insert 832 nextEntry
  setBlockIndexCandidates := [832]
  chainActive := [832, 671]
  hashBestBlock := 832

theorem oneAbove_entry {hash : uint256} {e : CBlockIndex} (h : oneAbove.entry hash = some e) :
    (hash = 832 ∧ e = nextEntry) ∨ (hash = 671 ∧ e = rootEntry) := by
  have hlook : ((AList.insert 671 rootEntry ∅ : AList fun _ : uint256 => CBlockIndex).insert 832
    nextEntry).lookup hash = some e := h
  by_cases hnext : hash = 832
  · subst hnext
    exact .inl ⟨rfl, (some.inj hlook).symm⟩
  · rw [AList.lookup_insert_ne hnext] at hlook
    by_cases hgenesis : hash = 671
    · subst hgenesis
      exact .inr ⟨rfl, (some.inj hlook).symm⟩
    · rw [AList.lookup_insert_ne hgenesis] at hlook
      cases hlook

theorem oneAbove_root : oneAbove.entry 671 = some rootEntry := rfl

theorem oneAbove_linked : oneAbove.Linked 832 :=
  show nextEntry.nChainTx ≠ 0 from nofun

theorem oneAbove_active {hash : uint256} (h : hash ∈ oneAbove.chainActive) :
    hash = 832 ∨ hash = 671 :=
  (mem_cons.mp h).imp id mem_singleton.mp

theorem oneAbove_wellFormed : WellFormed steadyNode.toTreeNode oneAbove.toBlockTree where
  sound := by
    intro hash e h
    rcases oneAbove_entry h with ⟨rfl, rfl⟩ | ⟨rfl, rfl⟩
    · exact ⟨by decide, by decide, by decide, by decide, fun _ => ⟨rfl, rfl, rfl⟩, by decide,
        fun _ => rfl, by decide, fun _ => by decide, nofun⟩
    · exact ⟨by decide, by decide, by decide, by decide, fun _ => ⟨rfl, rfl, rfl⟩, by decide,
        fun _ => rfl, by decide, fun _ => by decide, nofun⟩
  placed := by
    intro hash e h
    rcases oneAbove_entry h with ⟨rfl, rfl⟩ | ⟨rfl, rfl⟩
    · refine ⟨nofun, ?_⟩
      rintro p ⟨⟩
      exact ⟨rootEntry, oneAbove_root, rfl, by decide⟩
    · exact ⟨fun _ => ⟨rfl, by decide⟩, nofun⟩
  counted := by
    intro hash e h _
    rcases oneAbove_entry h with ⟨rfl, rfl⟩ | ⟨rfl, rfl⟩
    · rfl
    · rfl
  queued _ h := nomatch h
  unlinked := by
    intro hash e p q h _ hprev hq hzero
    rcases oneAbove_entry hq with ⟨rfl, rfl⟩ | ⟨rfl, rfl⟩
    · cases hzero
    · cases hzero
  waits _ _ h := nomatch h
  bounded := by
    intro hash e h
    rcases oneAbove_entry h with ⟨rfl, rfl⟩ | ⟨rfl, rfl⟩
    · decide
    · decide

theorem oneAbove_atRest : AtRest steadyNode oneAbove where
  wellFormed := oneAbove_wellFormed
  root := by
    intro hash e h
    rcases oneAbove_entry h with ⟨rfl, rfl⟩ | ⟨rfl, rfl⟩
    · exact iff_of_false nofun (by decide)
    · exact iff_of_true rfl rfl
  work := by
    intro hash e q h hprev
    rcases oneAbove_entry h with ⟨rfl, rfl⟩ | ⟨rfl, rfl⟩
    · obtain rfl : rootEntry = q := some.inj hprev
      decide
    · cases hprev
  transactions := by
    intro hash hlinked
    obtain ⟨e, he⟩ := isSome_iff_exists.mp hlinked.isSome
    rcases oneAbove_entry he with ⟨rfl, rfl⟩ | ⟨rfl, rfl⟩
    · decide
    · decide
  tip := ⟨832, oneAbove_linked, rfl, rfl⟩
  sound := by
    intro hash hmem
    rcases oneAbove_active hmem with rfl | rfl
    · rfl
    · rfl
  undo := by
    intro hash hmem
    rcases oneAbove_active hmem with rfl | rfl
    · exact iff_of_true rfl (by decide)
    · exact iff_of_false nofun (by decide)
  candidates := by
    intro hash hmem
    obtain rfl := mem_singleton.mp hmem
    exact oneAbove_linked
  fresh := rfl

theorem oneAbove_works : Works steadyNode where
  read _ _ := rfl
  undo _ _ := rfl
  flush _ := rfl
  check _ _ := .inl rfl
  connect _ _ := .inl rfl

/-- Asked for none, it takes one off. -/
theorem one_taken_off : AtRest steadyNode oneAbove ∧
    (oneAbove.replayed steadyNode [] 0).disconnected = [832] ∧
    ¬ (oneAbove.TakesOff steadyNode [] 0 ∧ oneAbove.KeepsGenesis steadyNode [] 0 ∧
      oneAbove.ComesBack steadyNode [] 0) := by
  have hone : (oneAbove.replayed steadyNode [] 0).disconnected = [832] := rfl
  refine ⟨oneAbove_atRest, hone, ?_⟩
  rintro ⟨htakes, -, -⟩
  rw [TakesOff, hone] at htakes
  exact absurd htakes (by decide)

/-- Asked for one, it stops at the genesis block and comes back. -/
theorem stops_at_genesis : oneAbove.TakesOff steadyNode [] 1 ∧
    oneAbove.KeepsGenesis steadyNode [] 1 ∧ oneAbove.ComesBack steadyNode [] 1 := by
  obtain ⟨hiff, hback⟩ := reprocess_iff [] 1 oneAbove_atRest
  obtain ⟨htakes, hkeeps⟩ := hiff.mpr (.inr ⟨1, by decide, 671, rfl, by
    intro hcan
    exact absurd hcan.present (by decide)⟩)
  refine ⟨htakes, hkeeps, hback oneAbove_works ?_ ?_⟩
  · rintro tip ⟨⟩ hash hlinked hgood hrank
    obtain ⟨e, he⟩ := isSome_iff_exists.mp hlinked.isSome
    rcases oneAbove_entry he with ⟨rfl, -⟩ | ⟨rfl, -⟩
    · exact mem_singleton_self _
    · exact absurd hrank (by decide)
  · intro tip _ rejected hmem
    exact nomatch hmem

end TipState

end Divitae.BlockIndex
