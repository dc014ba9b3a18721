/-
# `BestChain` — the active chain, and how the best one becomes active

    DisconnectTip           the tip is taken off
    ConnectTip              a block is put on it
    FindMostWorkChain       the best candidate whose branch has not failed
    ActivateBestChainStep   back to the fork, and up towards that candidate
    ActivateBestChain       steps, until the tip is the best candidate

The disk, the coins and the checks are the node's, and may answer differently each time a tip is
connected or disconnected.  The memory pool, the wallets, the callbacks, `pindexBestInvalid` and
the warnings about forks are left out.
-/
import Divitae.BlockTree
import Divitae.Lib.Loop

namespace Divitae.BlockIndex

/-- What a connection or disconnection comes to.  `invalid`: a rule is broken, as `state` says;
`error`: anything else that makes it fail; `crash`: an assertion does not hold. -/
inductive Outcome where
  | ok
  | invalid
  | error
  | crash
  deriving DecidableEq

/-- What the disk and the checks say at the `n`th connection or disconnection. -/
structure TipNode extends TreeNode where
  ReadBlockFromDisk : ℕ → uint256 → Bool
  /-- `DisconnectBlock`, where there is undo data -/
  DisconnectBlock : ℕ → uint256 → Bool
  CheckBlock : ℕ → uint256 → BlockVerdict
  /-- what `ConnectBlock` does behind `CheckBlock` and its assertion -/
  ConnectBlock : ℕ → uint256 → BlockVerdict
  /-- where the undo data of a block that is connected goes -/
  FindUndoPos : ℕ → ℕ
  FlushStateToDisk : ℕ → Bool
  /-- the clock, as a rejected block is looked at -/
  GetTime : uint256 → ℤ

structure TipState extends BlockTree where
  /-- `pcoinsTip->GetBestBlock()` -/
  hashBestBlock : uint256
  /-- tips connected or disconnected so far, or tried to be -/
  attempts : ℕ := 0
  /-- the blocks that were disconnected, the last one first -/
  disconnected : List uint256 := []

namespace BlockTree

section
variable (N : TreeNode) (T : BlockTree)

/-- `*pindex`. -/
def deref (pindex : uint256) : CBlockIndex := (T.entry pindex).getD {}

def branchUpTo : ℕ → uint256 → List uint256
  | 0, pindex => [pindex]
  | nHeight + 1, pindex =>
    match (T.deref pindex).pprev with
    | none => [pindex]
    | some pprev => pindex :: branchUpTo nHeight pprev

/-- A block and what is below it, down to the genesis block. -/
def branch (pindex : uint256) : List uint256 := T.branchUpTo (T.deref pindex).nHeight pindex

def GetAncestor (pindex : uint256) (nHeight : ℕ) : Option uint256 :=
  (T.branch pindex).find? fun pindexWalk => (T.deref pindexWalk).nHeight == nHeight

def tipWork : uint256 :=
  match T.chainActive with
  | [] => 0
  | tip :: _ => (T.deref tip).nChainWork

/-! ## Candidates -/

/-- `setBlockIndexCandidates.erase`. -/
def erase (pindex : uint256) : BlockTree :=
  { T with setBlockIndexCandidates := T.setBlockIndexCandidates.filter fun p => p != pindex }

def greatest : List uint256 → Option uint256
  | [] => none
  | pindex :: candidates =>
    match greatest candidates with
    | none => some pindex
    | some best => if T.value_comp N best pindex then some pindex else some best

inductive BranchTest where
  | usable
  /-- the assertion on `nChainTx` fails -/
  | crash
  /-- the first block that has failed or lacks its data, and the blocks above it -/
  | unusable (above : List uint256) (pindexTest : uint256)

/-- Check whether all blocks on the path between the currently active chain and the candidate
are valid. -/
def testBranch : List uint256 → BranchTest
  | [] => .usable
  | pindexTest :: below =>
    if pindexTest ∈ T.chainActive then .usable
    else if (T.deref pindexTest).nChainTx = 0 ∧ (T.deref pindexTest).nHeight ≠ 0 then .crash
    else if (T.deref pindexTest).nStatus.failed || !(T.deref pindexTest).nStatus.haveData then
      .unusable [] pindexTest
    else
      match testBranch below with
      | .unusable above pindexFailed => .unusable (pindexTest :: above) pindexFailed
      | test => test

/-- A block above one that has failed, or above one without data. -/
def giveUp (fFailedChain : Bool) (T : BlockTree) (pindexFailed : uint256) : BlockTree :=
  if fFailedChain then
    T.edit pindexFailed fun e => setFailed e.nStatus.failedValid true e
  else
    { T with mapBlocksUnlinked :=
        (((T.deref pindexFailed).pprev).getD 0, pindexFailed) :: T.mapBlocksUnlinked }

def removeChain (above : List uint256) (pindexTest : uint256) : BlockTree :=
  { above.foldl (giveUp (T.deref pindexTest).nStatus.failed) T with
    setBlockIndexCandidates :=
      T.setBlockIndexCandidates.filter fun p => !(above ++ [pindexTest]).contains p }

end

theorem mem_of_greatest {N : TreeNode} {T : BlockTree} {candidates : List uint256}
    {best : uint256} (h : T.greatest N candidates = some best) : best ∈ candidates := by
  induction candidates generalizing best with
  | nil => cases h
  | cons pindex candidates ih =>
    rw [greatest] at h
    cases hgreatest : T.greatest N candidates with
    | none =>
      rw [hgreatest] at h
      cases h
      exact .head _
    | some best' =>
      simp only [hgreatest] at h
      split at h
      · cases h
        exact .head _
      · cases h
        exact .tail _ (ih hgreatest)

theorem branch_head (T : BlockTree) (pindex : uint256) :
    ∃ below, T.branch pindex = pindex :: below := by
  rw [branch]
  cases (T.deref pindex).nHeight with
  | zero => exact ⟨[], rfl⟩
  | succ nHeight =>
    rw [branchUpTo]
    cases (T.deref pindex).pprev with
    | none => exact ⟨[], rfl⟩
    | some pprev => exact ⟨_, rfl⟩

theorem testBranch_head {T : BlockTree} {pindex pindexTest : uint256} {below above : List uint256}
    (h : T.testBranch (pindex :: below) = .unusable above pindexTest) :
    pindex ∈ above ++ [pindexTest] := by
  rw [testBranch] at h
  split_ifs at h with hactive hcrash hunusable
  · cases h
    exact List.mem_singleton_self pindex
  · cases hbelow : T.testBranch below with
    | usable => rw [hbelow] at h; cases h
    | crash => rw [hbelow] at h; cases h
    | unusable above' pindexFailed =>
      rw [hbelow] at h
      cases h
      exact .head _

theorem removeChain_lt {T : BlockTree} {pindexNew pindexTest : uint256} {above : List uint256}
    (hnew : pindexNew ∈ T.setBlockIndexCandidates)
    (h : T.testBranch (T.branch pindexNew) = .unusable above pindexTest) :
    (T.removeChain above pindexTest).setBlockIndexCandidates.length <
      T.setBlockIndexCandidates.length := by
  refine List.length_filter_lt_length_iff_exists.mpr ⟨pindexNew, hnew, ?_⟩
  obtain ⟨below, hbranch⟩ := T.branch_head pindexNew
  rw [hbranch] at h
  simp only [List.contains_iff_mem.mpr (testBranch_head h), Bool.not_true, Bool.false_eq_true,
    not_false_eq_true]

section
variable (N : TreeNode)

/-- Find the best candidate whose branch is usable; `none` where an assertion fails. -/
def FindMostWorkChain (T : BlockTree) : Option (BlockTree × Option uint256) :=
  match _hbest : T.greatest N T.setBlockIndexCandidates with
  | none => some (T, none)
  | some pindexNew =>
    match _htest : T.testBranch (T.branch pindexNew) with
    | .usable => some (T, some pindexNew)
    | .crash => none
    | .unusable above pindexTest => FindMostWorkChain (T.removeChain above pindexTest)
termination_by T.setBlockIndexCandidates.length
decreasing_by exact removeChain_lt (mem_of_greatest _hbest) _htest

variable (T : BlockTree)

/-- Delete all entries that are worse than the current tip; `none` where none is left. -/
def PruneBlockIndexCandidates : Option BlockTree :=
  match T.chainActive with
  | [] => none
  | tip :: _ =>
    let setBlockIndexCandidates :=
      T.setBlockIndexCandidates.filter fun pindex => !(T.value_comp N pindex tip)
    if setBlockIndexCandidates.isEmpty then none
    else some { T with setBlockIndexCandidates := setBlockIndexCandidates }

/-- `InvalidBlockFound`, where the block was not corrupted on its way. -/
def InvalidBlockFound (pindex : uint256) : BlockTree :=
  (T.edit pindex fun e => setFailed true e.nStatus.failedChild e).erase pindex

end

end BlockTree

namespace TipState

section
variable (N : TipNode) (S : TipState)

/-! ## Tips -/

/-- `DisconnectTip`.  `DisconnectBlock` begins with an assertion, and wants undo data. -/
def DisconnectTip : Outcome × TipState :=
  match S.chainActive with
  | [] => (.crash, S)
  | pindexDelete :: chainActive =>
    let S' := { S with attempts := S.attempts + 1 }
    if !N.ReadBlockFromDisk S.attempts pindexDelete then (.error, S')
    else if S.hashBestBlock ≠ pindexDelete then (.crash, S')
    else if (S.deref pindexDelete).GetUndoPos = none then (.error, S')
    else
      match (S.deref pindexDelete).pprev with
      | none => (.crash, S')
      | some pprev =>
        if !N.DisconnectBlock S.attempts pindexDelete then (.error, S')
        else if !N.FlushStateToDisk S.attempts then (.error, { S' with hashBestBlock := pprev })
        else
          (.ok, { S' with
            hashBestBlock := pprev
            chainActive := chainActive
            disconnected := pindexDelete :: S.disconnected })

/-- What `ConnectBlock` notes of undo data; the genesis block is connected without any. -/
def writeUndo (pindexNew : uint256) : BlockTree :=
  if pindexNew = N.hashGenesisBlock then S.toBlockTree
  else S.edit pindexNew (BlockTree.setUndo (N.FindUndoPos S.attempts))

/-- `ConnectBlock`; `none` where its assertion fails. -/
def ConnectBlock (pindexNew : uint256) : Option BlockVerdict :=
  match N.CheckBlock S.attempts pindexNew with
  | .accept =>
    if S.hashBestBlock ≠ ((S.deref pindexNew).pprev).getD 0 then none
    else some (N.ConnectBlock S.attempts pindexNew)
  | verdict => some verdict

/-- `ConnectTip`, the block taken from the disk. -/
def ConnectTip (pindexNew : uint256) : Outcome × TipState :=
  let S' := { S with attempts := S.attempts + 1 }
  if (S.deref pindexNew).pprev ≠ S.chainActive.head? then (.crash, S')
  else if !N.ReadBlockFromDisk S.attempts pindexNew then (.error, S')
  else
    match S.ConnectBlock N pindexNew with
    | none => (.crash, S')
    | some .invalid => (.invalid, { S' with toBlockTree := S.InvalidBlockFound pindexNew })
    | some .corrupt => (.invalid, S')
    | some .error => (.error, S')
    | some .accept =>
      let S' := { S' with toBlockTree := S.writeUndo N pindexNew, hashBestBlock := pindexNew }
      if !N.FlushStateToDisk S.attempts then (.error, S')
      else (.ok, { S' with chainActive := pindexNew :: S.chainActive })

end

theorem DisconnectTip_shorter {N : TipNode} {S S' : TipState} (h : S.DisconnectTip N = (.ok, S')) :
    ∃ pindexDelete, S.chainActive = pindexDelete :: S'.chainActive := by
  rw [DisconnectTip] at h
  cases hchain : S.chainActive with
  | nil => rw [hchain] at h; cases h
  | cons pindexDelete chainActive =>
    simp only [hchain] at h
    cases hprev : (S.deref pindexDelete).pprev with
    | none =>
      rw [hprev] at h
      split_ifs at h <;> cases h
    | some pprev =>
      rw [hprev] at h
      split_ifs at h <;> cases h
      exact ⟨pindexDelete, rfl⟩

section
variable (N : TipNode)

/-! ## Steps -/

/-- Disconnect active blocks which are no longer in the best chain. -/
def DisconnectTo (pindexFork : Option uint256) (S : TipState) : Outcome × TipState :=
  match S.chainActive.head? with
  | none => (.ok, S)
  | some tip =>
    if some tip = pindexFork then (.ok, S)
    else
      match _hstep : S.DisconnectTip N with
      | (.ok, S') => DisconnectTo pindexFork S'
      | (outcome, S') => (outcome, S')
termination_by S.chainActive.length
decreasing_by
  obtain ⟨pindexDelete, hchain⟩ := DisconnectTip_shorter _hstep
  rw [hchain]
  exact Nat.lt_succ_self _

/-- Connect new blocks, as long as the tip is not better than the old one; the source lists them
in batches of 32.  A block that is invalid ends the step well. -/
def ConnectUpTo (nOldWork : Option uint256) : TipState → List uint256 → Outcome × TipState
  | S, [] => (.ok, S)
  | S, pindexConnect :: vpindexToConnect =>
    match S.ConnectTip N pindexConnect with
    | (.invalid, S') => (.ok, S')
    | (.ok, S') =>
      match S'.PruneBlockIndexCandidates N.toTreeNode with
      | none => (.crash, S')
      | some T =>
        let S' := { S' with toBlockTree := T }
        match nOldWork with
        | none => (.ok, S')
        | some nOldWork =>
          if nOldWork < S'.tipWork then (.ok, S')
          else ConnectUpTo (some nOldWork) S' vpindexToConnect
    | (outcome, S') => (outcome, S')

variable (S : TipState)

def ActivateBestChainStep (pindexMostWork : uint256) : Outcome × TipState :=
  let branch := S.branch pindexMostWork
  match S.DisconnectTo N (branch.find? fun pindex => pindex ∈ S.chainActive) with
  | (.ok, S') =>
    S'.ConnectUpTo N (S.chainActive.head?.map fun tip => (S.deref tip).nChainWork)
      (branch.takeWhile fun pindex => pindex ∉ S.chainActive).reverse
  | (outcome, S') => (outcome, S')

/-- One round of `ActivateBestChain`: it goes on, or returns. -/
def ActivateBestChain : TipState ⊕ (Outcome × TipState) :=
  match S.FindMostWorkChain N.toTreeNode with
  | none => .inr (.crash, S)
  | some (T, none) => .inr (.ok, { S with toBlockTree := T })
  | some (T, some pindexMostWork) =>
    let S := { S with toBlockTree := T }
    -- Whether we have anything to do at all.
    if S.chainActive.head? = some pindexMostWork then .inr (.ok, S)
    else
      match S.ActivateBestChainStep N pindexMostWork with
      | (.ok, S') =>
        if S'.chainActive.head? = some pindexMostWork then
          .inr (if N.FlushStateToDisk S'.attempts then .ok else .error,
            { S' with attempts := S'.attempts + 1 })
        else .inl S'
      | (outcome, S') => .inr (outcome, S')

/-- `ReconsiderBlock`, one entry of the index. -/
def reconsiderEntry (pindex : uint256) (nHeight : ℕ) (T : BlockTree) (it : uint256) : BlockTree :=
  if !(T.deref it).nStatus.IsValid BLOCK_VALID_TRANSACTIONS ∧
      T.GetAncestor it nHeight = some pindex then
    let T' := T.edit it (BlockTree.setFailed false false)
    if (T'.deref it).nStatus.IsValid BLOCK_VALID_TRANSACTIONS ∧ (T'.deref it).nChainTx ≠ 0 ∧
        T'.chainActive.head?.any fun tip => T'.value_comp N.toTreeNode tip it then
      { T' with setBlockIndexCandidates := T'.setBlockIndexCandidates.insert it }
    else T'
  else T

def ReconsiderBlock (T : BlockTree) (pindex : uint256) : BlockTree :=
  -- Remove the invalidity flag from this block and all its descendants.
  let T' := T.mapBlockIndex.keys.foldl (reconsiderEntry N pindex (T.deref pindex).nHeight) T
  -- Remove the invalidity flag from all ancestors too.
  (T'.branch pindex).foldl (fun T pindex => T.edit pindex (BlockTree.setFailed false false)) T'

end

end TipState

end Divitae.BlockIndex
