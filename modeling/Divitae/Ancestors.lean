/-
# `Ancestors` — the skip list of the block index

Beside `pprev` an entry has a `pskip`, set by `BuildSkip` when the entry enters the index.
`GetAncestor` goes back by both.

    skipStep               a step of the index, with the skip pointer of an entry that enters
    Skipping               heights go on along `pprev`, one entry has none, every `pskip` leads
                           to the ancestor at its height, and what is on the active chain is
                           stored
    skipStep_skipping      so after every step
    GetAncestor_eq         and `GetAncestor` is `pprev` followed height by height
    LastCommonAncestor_spec
                           two entries go back to one that both come from

A chain the node turns to has the data of all its blocks: `FindMostWorkChain` takes no other.
-/
import Divitae.BlockTreeKept
import Divitae.Lib.SkipList

namespace Divitae.BlockIndex

open Option SkipList BlockTree

/-- Turn the lowest '1' bit in the binary representation of a number into a '0'. -/
def InvertLowestOne (n : ℕ) : ℕ := n &&& (n - 1)

/-- Compute what height to jump back to with the `pskip` pointer. -/
def GetSkipHeight (height : ℕ) : ℕ :=
  if height < 2 then 0
  -- Determine which height to jump back to. Any number strictly lower than height is acceptable
  else if height % 2 = 1 then InvertLowestOne (InvertLowestOne (height - 1)) + 1
  else InvertLowestOne height

theorem InvertLowestOne_le (n : ℕ) : InvertLowestOne n ≤ n - 1 := Nat.and_le_right

theorem GetSkipHeight_lt {height : ℕ} (h : 0 < height) : GetSkipHeight height < height := by
  have hone := InvertLowestOne_le height
  have htwo := InvertLowestOne_le (height - 1)
  have hthree := InvertLowestOne_le (InvertLowestOne (height - 1))
  unfold GetSkipHeight
  split_ifs <;> omega

/-- Whether `GetAncestor` follows `pskip`: only if pprev->pskip isn't better than
pskip->pprev. -/
def followsSkip (height heightWalk : ℕ) : Bool :=
  let heightSkip := GetSkipHeight heightWalk
  let heightSkipPrev := GetSkipHeight (heightWalk - 1)
  heightSkip == height ||
    (decide (height < heightSkip) &&
      !(decide (heightSkipPrev + 2 < heightSkip) && decide (height ≤ heightSkipPrev)))

theorem followsSkip_le {height heightWalk : ℕ} (h : followsSkip height heightWalk = true) :
    height ≤ GetSkipHeight heightWalk := by
  rcases Bool.or_eq_true_iff.mp h with heq | hlt
  · exact (eq_of_beq heq).ge
  · exact (of_decide_eq_true (Bool.and_eq_true_iff.mp hlt).1).le

/-- The index and the `pskip` of its entries. -/
structure SkipTree extends BlockTree where
  pskip : uint256 → Option uint256 := fun _ => none

namespace BlockTree

variable (T : BlockTree)

/-- `pindex->pprev`, for a pointer. -/
def pprev (pindex : uint256) : Option uint256 := (T.entry pindex).bind CBlockIndex.pprev

/-- `pindex->nHeight`. -/
def nHeight (pindex : uint256) : ℕ := ((T.entry pindex).getD {}).nHeight

/-- The entries. -/
def Known (pindex : uint256) : Prop := (T.entry pindex).isSome

/-- One entry comes from another, or is it. -/
def IsAncestor (pa pb : uint256) : Prop := ∃ n, SkipList.back T.pprev n pb = some pa

end BlockTree

namespace SkipTree

variable (N : TreeNode) (S : SkipTree)

/-- `CBlockIndex::GetAncestor`; `none` where it returns `NULL` or follows it. -/
def GetAncestor (pindex : uint256) (height : Int) : Option uint256 :=
  if (S.nHeight pindex : Int) < height ∨ height < 0 then none
  else
    SkipList.climb S.pprev S.pskip GetSkipHeight (followsSkip height.toNat) height.toNat
      (S.nHeight pindex) pindex (S.nHeight pindex)

def BuildSkip (pindex : uint256) : SkipTree :=
  match S.pprev pindex with
  | none => S
  | some pprev =>
    { S with
      pskip :=
        Function.update S.pskip pindex (S.GetAncestor pprev (GetSkipHeight (S.nHeight pindex))) }

/-- Find the last common ancestor two blocks have: both are brought to one height, and go back
from there.  `none` where the assertion fails or `NULL` is followed or returned. -/
def LastCommonAncestor (pa pb : uint256) : Option uint256 :=
  let raised : Option (uint256 × uint256) :=
    if S.nHeight pb < S.nHeight pa then (S.GetAncestor pa (S.nHeight pb)).map fun pa => (pa, pb)
    else if S.nHeight pa < S.nHeight pb then
      (S.GetAncestor pb (S.nHeight pa)).map fun pb => (pa, pb)
    else some (pa, pb)
  -- Eventually all chain branches meet at the genesis block.
  raised.bind fun p => SkipList.meet S.pprev (S.nHeight p.1) p.1 p.2

end SkipTree

/-- The block a step may enter into the index. -/
def BlockTree.TreeEvent.hash (N : TreeNode) : BlockTree.TreeEvent → Option uint256
  | .header hdr _ => some (hdr.toBlock.GetHash N)
  | .block blk _ _ => some (blk.GetHash N)
  | _ => none

/-- A step of the index; `AddToBlockIndex` builds the skip pointer of the entry it makes. -/
def skipStep (N : TreeNode) (S : SkipTree) (i : BlockTree.TreeEvent) : SkipTree :=
  let S' : SkipTree := ⟨BlockTree.treeStep N S.toBlockTree i, S.pskip⟩
  match i.hash N with
  | none => S'
  | some hash => if (S.entry hash).isSome then S' else S'.BuildSkip hash

def ChainStored (S : SkipTree) : BlockTree.TreeEvent → Prop
  | .chain _ chainActive =>
    ∀ hash ∈ chainActive, ∃ e, S.entry hash = some e ∧ e.nStatus.haveData = true
  | _ => True

namespace BlockTree

variable {N : TreeNode} {T T' T'' : BlockTree} {hash hash' : uint256} {e e' : CBlockIndex}
  {f : CBlockIndex → CBlockIndex} {queue : List uint256} {block : CBlock} {pos : CDiskBlockPos}
  {verdicts : Verdicts} {new : Option uint256}

/-! ## What a step leaves of an entry -/

/-- Its place in the tree, and its data if it has any. -/
structure SameLine (e e' : CBlockIndex) : Prop where
  pprev : e'.pprev = e.pprev
  nHeight : e'.nHeight = e.nHeight
  haveData : e.nStatus.haveData = true → e'.nStatus.haveData = true

theorem SameLine.refl (e : CBlockIndex) : SameLine e e := ⟨rfl, rfl, id⟩

theorem SameLine.trans {e e' e'' : CBlockIndex} (h : SameLine e e') (h' : SameLine e' e'') :
    SameLine e e'' :=
  ⟨h'.pprev.trans h.pprev, h'.nHeight.trans h.nHeight, fun hdata => h'.haveData (h.haveData hdata)⟩

/-- Every entry stays in line; at most `new` comes, behind another unless it is the genesis
block. -/
structure Grown (N : TreeNode) (new : Option uint256) (T T' : BlockTree) : Prop where
  kept : ∀ hash e, T.entry hash = some e → ∃ e', T'.entry hash = some e' ∧ SameLine e e'
  fresh : ∀ hash e', T'.entry hash = some e' → T.entry hash = none →
    some hash = new ∧ (e'.pprev = none → hash = N.hashGenesisBlock)
  chainActive : T'.chainActive = T.chainActive

theorem Grown.refl (T : BlockTree) : Grown N new T T where
  kept _ e h := ⟨e, h, SameLine.refl e⟩
  fresh _ e' h hnone := absurd (hnone.symm.trans h) (some_ne_none e').symm
  chainActive := rfl

theorem Grown.trans (h : Grown N new T T') (h' : Grown N new T' T'') : Grown N new T T'' := by
  refine ⟨?_, ?_, h'.chainActive.trans h.chainActive⟩
  · intro hash e hlook
    obtain ⟨e', hlook', hline⟩ := h.kept hash e hlook
    obtain ⟨e'', hlook'', hline'⟩ := h'.kept hash e' hlook'
    exact ⟨e'', hlook'', hline.trans hline'⟩
  · intro hash e'' hlook'' hnone
    cases hlook' : T'.entry hash with
    | none => exact h'.fresh hash e'' hlook'' hlook'
    | some e' =>
      obtain ⟨hnew, hroot⟩ := h.fresh hash e' hlook' hnone
      obtain ⟨e₂, hlook₂, hline⟩ := h'.kept hash e' hlook'
      obtain rfl : e'' = e₂ := some.inj (hlook''.symm.trans hlook₂)
      exact ⟨hnew, fun hprev => hroot (hline.pprev.symm.trans hprev)⟩

theorem Grown.congr (h : Grown N new T T') (hmap : T''.mapBlockIndex = T'.mapBlockIndex)
    (hchain : T''.chainActive = T'.chainActive) : Grown N new T T'' := by
  have hentry : ∀ hash, T''.entry hash = T'.entry hash := fun hash =>
    congrArg (AList.lookup hash) hmap
  refine ⟨?_, ?_, hchain.trans h.chainActive⟩
  · intro hash e hlook
    rw [hentry]
    exact h.kept hash e hlook
  · intro hash e' hlook
    rw [hentry] at hlook
    exact h.fresh hash e' hlook

theorem edit_chainActive : (T.edit hash f).chainActive = T.chainActive := by
  unfold edit
  split <;> rfl

theorem Grown.edit (h : ∀ e, T.entry hash = some e → SameLine e (f e)) :
    Grown N new T (T.edit hash f) := by
  obtain ⟨hto, hfrom⟩ := entry_edit_rel SameLine.refl h
  refine ⟨hto, ?_, edit_chainActive⟩
  intro hash' e' hlook hnone
  obtain ⟨e, he, -⟩ := hfrom hash' e' hlook
  exact absurd (hnone.symm.trans he) (some_ne_none e).symm

theorem grown_link (T : BlockTree) (hash : uint256) : Grown N new T (T.link N hash) :=
  (Grown.edit (f := fun e => { e with
    nChainTx := (((T.prev e).map CBlockIndex.nChainTx).getD 0 + e.nTx) % 2 ^ 32
    nSequenceId := T.nBlockSequenceId }) fun _ _ => ⟨rfl, rfl, id⟩).congr rfl rfl

theorem grown_linkAll (T : BlockTree) (queue : List uint256) :
    Grown N new T (linkAll N T queue) := by
  fun_induction linkAll N T queue with
  | case1 T => exact Grown.refl T
  | case2 T hash queue ih => exact (grown_link T hash).trans ih

theorem grown_ReceivedBlockTransactions (T : BlockTree) :
    Grown N new T (T.ReceivedBlockTransactions N block hash pos) := by
  have hreceived : Grown N new T (T.edit hash (received block pos)) := by
    refine Grown.edit ?_
    intro e _
    exact ⟨received_pprev, received_samePlace.nHeight, fun _ => received_haveData⟩
  unfold ReceivedBlockTransactions
  dsimp only
  split
  · exact hreceived.trans (grown_linkAll _ _)
  · split
    · exact hreceived.trans (grown_linkAll _ _)
    · split_ifs
      · exact hreceived.trans (grown_linkAll _ _)
      · exact hreceived.congr rfl rfl
      · exact hreceived

theorem grown_AcceptBlockData (T : BlockTree) :
    Grown N new T (T.AcceptBlockData N block verdicts pos) := by
  have hfailed : Grown N new T (T.edit (block.GetHash N)
      fun e => { e with nStatus := { e.nStatus with failedValid := true } }) :=
    Grown.edit fun _ _ => ⟨rfl, rfl, id⟩
  unfold AcceptBlockData
  dsimp only
  split
  · exact Grown.refl T
  · split
    · exact Grown.refl T
    · generalize (if block.vtx.isEmpty then BlockVerdict.invalid else verdicts.CheckBlock) = verdict
      cases verdict with
      | invalid => exact hfailed
      | corrupt => exact Grown.refl T
      | error => exact Grown.refl T
      | accept =>
        dsimp only
        split
        · exact grown_ReceivedBlockTransactions T
        · exact Grown.refl T

theorem grown_AddToBlockIndex (hlook : T.entry (block.GetHash N) = none)
    (haccepted : T.prevAccepted N block = true) :
    Grown N (some (block.GetHash N)) T (T.AddToBlockIndex N block) := by
  have hmap := AddToBlockIndex_mapBlockIndex (N := N) hlook
  refine ⟨?_, ?_, ?_⟩
  · intro hash e he
    have hne : hash ≠ block.GetHash N := by
      rintro rfl
      rw [hlook] at he
      cases he
    refine ⟨e, ?_, SameLine.refl e⟩
    unfold entry
    rw [hmap]
    exact (AList.lookup_insert_ne hne).trans he
  · intro hash e' he' hnone
    unfold entry at he'
    rw [hmap] at he'
    rcases eq_or_ne hash (block.GetHash N) with rfl | hne
    · rw [AList.lookup_insert] at he'
      cases he'
      refine ⟨rfl, ?_⟩
      intro hroot
      unfold prevAccepted at haccepted
      cases hprev : T.entry block.hashPrevBlock with
      | none =>
        rw [hprev, Bool.or_false] at haccepted
        exact eq_of_beq haccepted
      | some q =>
        rw [newEntry_next hprev] at hroot
        cases hroot
    · rw [AList.lookup_insert_ne hne] at he'
      exact absurd (hnone.symm.trans he') (some_ne_none e').symm
  · unfold AddToBlockIndex
    dsimp only
    rw [hlook]

theorem grown_AcceptBlockHeader (T : BlockTree) (block : CBlock) (verdicts : Verdicts) :
    Grown N (some (block.GetHash N)) T (T.AcceptBlockHeader N block verdicts).1 := by
  unfold AcceptBlockHeader
  cases hlook : T.entry (block.GetHash N) with
  | some e => exact Grown.refl T
  | none =>
    split_ifs with hchecks
    · simp only [Bool.and_eq_true] at hchecks
      exact grown_AddToBlockIndex hlook hchecks.1.2
    · exact Grown.refl T

theorem grown_AcceptBlock (T : BlockTree) :
    Grown N (some (block.GetHash N)) T (T.AcceptBlock N block verdicts pos) := by
  have hproven : ∀ T₁ : BlockTree, Grown N (some (block.GetHash N)) T T₁ →
      Grown N (some (block.GetHash N)) T (if (T₁.AcceptBlockHeader N block verdicts).2 then
        (T₁.AcceptBlockHeader N block verdicts).1.AcceptBlockData N block verdicts pos
        else (T₁.AcceptBlockHeader N block verdicts).1) := by
    intro T₁ hfirst
    have hheader := hfirst.trans (grown_AcceptBlockHeader T₁ block verdicts)
    split_ifs
    · exact hheader.trans (grown_AcceptBlockData _)
    · exact hheader
  unfold AcceptBlock
  split_ifs with hprev hwork hstake
  · exact Grown.refl T
  · exact Grown.refl T
  · cases verdicts.CheckProofOfStake with
    | none => exact Grown.refl T
    | some proof =>
      refine hproven _ ((Grown.refl T).congr (recordProof_mapBlockIndex _ proof).1 ?_)
      unfold recordProof
      cases T.mapProofOfStake (block.GetHash N) <;> rfl
  · exact hproven T (Grown.refl T)

/-- **What a step leaves.**  The active chain is another one only where the step says so. -/
theorem treeStep_grown (N : TreeNode) (T : BlockTree) (i : TreeEvent) :
    (∃ candidates chainActive, i = .chain candidates chainActive) ∨
      Grown N (i.hash N) T (treeStep N T i) := by
  cases i with
  | header header verdicts => exact .inr (grown_AcceptBlockHeader T header.toBlock verdicts)
  | block block verdicts pos => exact .inr (grown_AcceptBlock T)
  | figures hash figures => exact .inr (Grown.edit fun _ _ => ⟨rfl, rfl, id⟩)
  | undo hash nPos =>
    refine .inr (Grown.edit ?_)
    intro e _
    unfold setUndo
    split_ifs
    · exact ⟨rfl, rfl, fun hdata => by simpa using hdata⟩
    · exact ⟨rfl, rfl, fun hdata => by simpa using hdata⟩
  | mark hash failedValid failedChild => exact .inr (Grown.edit fun _ _ => ⟨rfl, rfl, id⟩)
  | chain candidates chainActive => exact .inl ⟨candidates, chainActive, rfl⟩

/-! ## Places in the tree -/

theorem known_iff : T.Known hash ↔ ∃ e, T.entry hash = some e := isSome_iff_exists

theorem pprev_of_entry (h : T.entry hash = some e) : T.pprev hash = e.pprev := by
  rw [pprev, h, bind_some]

theorem nHeight_of_entry (h : T.entry hash = some e) : T.nHeight hash = e.nHeight := by
  rw [nHeight, h, getD_some]

theorem WellFormed.grounded (h : WellFormed N T) :
    SkipList.Grounded T.pprev T.Known T.nHeight := by
  constructor
  · intro hash hknown hroot
    obtain ⟨e, he⟩ := known_iff.mp hknown
    rw [pprev_of_entry he] at hroot
    rw [nHeight_of_entry he]
    exact ((h.placed hash e he).root hroot).1
  · intro hash p hknown hp
    obtain ⟨e, he⟩ := known_iff.mp hknown
    rw [pprev_of_entry he] at hp
    obtain ⟨q, hq, hheight, -⟩ := (h.placed hash e he).next p hp
    rw [nHeight_of_entry he, nHeight_of_entry hq]
    exact ⟨known_iff.mpr ⟨q, hq⟩, hheight⟩

theorem Grown.place (h : Grown N new T T') (hknown : T.Known hash) :
    T'.Known hash ∧ T'.pprev hash = T.pprev hash ∧ T'.nHeight hash = T.nHeight hash := by
  obtain ⟨e, he⟩ := known_iff.mp hknown
  obtain ⟨e', he', hline⟩ := h.kept hash e he
  refine ⟨known_iff.mpr ⟨e', he'⟩, ?_, ?_⟩
  · rw [pprev_of_entry he, pprev_of_entry he', hline.pprev]
  · rw [nHeight_of_entry he, nHeight_of_entry he', hline.nHeight]

end BlockTree

/-! ## The skip list -/

namespace SkipTree

variable {N : TreeNode} {S : SkipTree} {i : BlockTree.TreeEvent} {x y hash p : uint256} {n : ℕ}

/-- Where `pskip` is to lead: to the ancestor at its height. -/
def SkipsRight (S : SkipTree) (x : uint256) : Prop :=
  S.pskip x = SkipList.back S.pprev (S.nHeight x - GetSkipHeight (S.nHeight x)) x

/-- What holds of the index and its skip list. -/
structure Skipping (N : TreeNode) (S : SkipTree) : Prop where
  wellFormed : BlockTree.WellFormed N S.toBlockTree
  rooted : ∀ hash e, S.entry hash = some e → e.pprev = none → hash = N.hashGenesisBlock
  skips : ∀ x, S.Known x → 0 < S.nHeight x → S.SkipsRight x
  stored : ∀ hash ∈ S.chainActive, ∃ e, S.entry hash = some e ∧ e.nStatus.haveData = true

theorem GetAncestor_of_skips (h : SkipList.Grounded S.pprev S.Known S.nHeight)
    (hskips : ∀ y, S.Known y → S.nHeight y ≤ S.nHeight x → 0 < S.nHeight y → S.SkipsRight y)
    (hx : S.Known x) (hn : n ≤ S.nHeight x) :
    S.GetAncestor x n = back S.pprev (S.nHeight x - n) x := by
  rw [GetAncestor, if_neg (by omega), Int.toNat_natCast]
  exact climb_eq_back h (fun _ => GetSkipHeight_lt) (fun _ _ => followsSkip_le) hskips hx
    hn (by omega)

/-- **`GetAncestor` is `pprev`, followed height by height.** -/
theorem Skipping.GetAncestor_eq (h : Skipping N S) (hx : S.Known x) (hn : n ≤ S.nHeight x) :
    S.GetAncestor x n = back S.pprev (S.nHeight x - n) x :=
  GetAncestor_of_skips h.wellFormed.grounded (fun y hy _ => h.skips y hy) hx hn

theorem skipping_empty (N : TreeNode) : Skipping N {} where
  wellFormed := wellFormed_empty N
  rooted _ _ h := nomatch h
  skips _ h := nomatch h
  stored _ h := nomatch h

/-! ### One step -/

theorem BuildSkip_toBlockTree (S : SkipTree) (pindex : uint256) :
    (S.BuildSkip pindex).toBlockTree = S.toBlockTree := by
  unfold BuildSkip
  split <;> rfl

theorem BuildSkip_pskip_ne (hne : x ≠ hash) : (S.BuildSkip hash).pskip x = S.pskip x := by
  unfold BuildSkip
  split
  · rfl
  · exact Function.update_of_ne hne _ _

theorem BuildSkip_pskip_self (h : S.pprev hash = some p) :
    (S.BuildSkip hash).pskip hash = S.GetAncestor p (GetSkipHeight (S.nHeight hash)) := by
  rw [BuildSkip, h]
  exact Function.update_self _ _ _

theorem skipStep_toBlockTree (N : TreeNode) (S : SkipTree) (i : BlockTree.TreeEvent) :
    (skipStep N S i).toBlockTree = treeStep N S.toBlockTree i := by
  unfold skipStep
  split
  · rfl
  · split
    · rfl
    · exact BuildSkip_toBlockTree _ _

theorem skipStep_pskip_old (hx : S.Known x) : (skipStep N S i).pskip x = S.pskip x := by
  unfold skipStep
  split
  · rfl
  · split
    · rfl
    next hash _ hnone =>
      refine BuildSkip_pskip_ne ?_
      rintro rfl
      exact hnone hx

theorem skipStep_pskip_new (hhash : i.hash N = some hash) (hnone : S.entry hash = none)
    (hprev : (skipStep N S i).pprev hash = some p) :
    (skipStep N S i).pskip hash =
      SkipTree.GetAncestor ⟨(skipStep N S i).toBlockTree, S.pskip⟩ p
        (GetSkipHeight ((skipStep N S i).nHeight hash)) := by
  rw [skipStep_toBlockTree] at hprev ⊢
  unfold skipStep
  rw [hhash]
  dsimp only
  rw [hnone, isSome_none, if_neg Bool.false_ne_true]
  exact BuildSkip_pskip_self (S := ⟨treeStep N S.toBlockTree i, S.pskip⟩) hprev

theorem skipStep_skips (hbefore : SkipList.Grounded S.pprev S.Known S.nHeight)
    (hskips : ∀ x, S.Known x → 0 < S.nHeight x → S.SkipsRight x)
    (hground : SkipList.Grounded (skipStep N S i).pprev (skipStep N S i).Known
      (skipStep N S i).nHeight)
    (hgrown : BlockTree.Grown N (i.hash N) S.toBlockTree (skipStep N S i).toBlockTree)
    (hx : (skipStep N S i).Known x) (hpos : 0 < (skipStep N S i).nHeight x) :
    (skipStep N S i).SkipsRight x := by
  have hold : ∀ {y}, S.Known y → 0 < (skipStep N S i).nHeight y →
      S.pskip y = back (skipStep N S i).pprev
        ((skipStep N S i).nHeight y - GetSkipHeight ((skipStep N S i).nHeight y)) y := by
    intro y hy hlow
    obtain ⟨-, -, hheight⟩ := hgrown.place hy
    have hback := hbefore.back_congr (fun z hz => (hgrown.place hz).2.1)
      (n := S.nHeight y - GetSkipHeight (S.nHeight y)) hy
    rw [hheight, hback]
    exact hskips y hy (hheight ▸ hlow)
  by_cases hknown : S.Known x
  · rw [SkipsRight, skipStep_pskip_old hknown]
    exact hold hknown hpos
  · -- the entry that came; those no higher than its predecessor were there
    have hnone : S.entry x = none := not_isSome_iff_eq_none.mp hknown
    obtain ⟨e, he⟩ := known_iff.mp hx
    obtain ⟨hnew, -⟩ := hgrown.fresh x e he hnone
    obtain ⟨p, hp, hpknown, hpheight⟩ := hground.step hx hpos
    have hlower : ∀ y, (skipStep N S i).Known y →
        (skipStep N S i).nHeight y ≤ (skipStep N S i).nHeight p → S.Known y := by
      intro y hy hle
      by_contra hgone
      obtain ⟨e', he'⟩ := known_iff.mp hy
      obtain ⟨hnew', -⟩ := hgrown.fresh y e' he' (not_isSome_iff_eq_none.mp hgone)
      obtain rfl : y = x := some.inj (hnew'.trans hnew.symm)
      omega
    have hshort := GetSkipHeight_lt hpos
    have hshorter : GetSkipHeight ((skipStep N S i).nHeight x) ≤ (skipStep N S i).nHeight p := by
      omega
    have hreached := GetAncestor_of_skips (S := ⟨(skipStep N S i).toBlockTree, S.pskip⟩) hground
      (fun y hy hle hlow => hold (hlower y hy hle) hlow) hpknown hshorter
    rw [SkipsRight, skipStep_pskip_new hnew.symm hnone hp, hreached,
      show (skipStep N S i).nHeight x - GetSkipHeight ((skipStep N S i).nHeight x) =
        (skipStep N S i).nHeight p - GetSkipHeight ((skipStep N S i).nHeight x) + 1 by omega,
      back, hp]
    rfl

/-- **What one step keeps.** -/
theorem skipStep_skipping (h : Skipping N S) (hmeets : BlockTree.Meets N S.toBlockTree i)
    (hchain : ChainStored S i) : Skipping N (skipStep N S i) := by
  have hwell : BlockTree.WellFormed N (skipStep N S i).toBlockTree := by
    rw [skipStep_toBlockTree]
    exact treeStep_wellFormed h.wellFormed hmeets
  rcases treeStep_grown N S.toBlockTree i with ⟨candidates, chainActive, rfl⟩ | hgrown
  · exact ⟨hwell, h.rooted, h.skips, hchain⟩
  · rw [← skipStep_toBlockTree] at hgrown
    refine ⟨hwell, ?_, ?_, ?_⟩
    · intro hash e' he' hroot
      cases he : S.entry hash with
      | none => exact (hgrown.fresh hash e' he' he).2 hroot
      | some e =>
        obtain ⟨e₂, he₂, hline⟩ := hgrown.kept hash e he
        obtain rfl : e' = e₂ := some.inj (he'.symm.trans he₂)
        exact h.rooted hash e he (hline.pprev.symm.trans hroot)
    · exact fun x => skipStep_skips h.wellFormed.grounded h.skips hwell.grounded hgrown
    · intro hash hmem
      rw [hgrown.chainActive] at hmem
      obtain ⟨e, he, hdata⟩ := h.stored hash hmem
      obtain ⟨e', he', hline⟩ := hgrown.kept hash e he
      exact ⟨e', he', hline.haveData hdata⟩

def StepMeets (N : TreeNode) (S : SkipTree) (i : BlockTree.TreeEvent) : Prop :=
  BlockTree.Meets N S.toBlockTree i ∧ ChainStored S i

/-- **So in every state reached.** -/
theorem run_skipping {is : List BlockTree.TreeEvent}
    (hrun : Run.Guarded (skipStep N) (StepMeets N) {} is) :
    Skipping N (is.foldl (skipStep N) {}) :=
  Run.run_inv (I := Skipping N) (fun _ _ h hmeets => skipStep_skipping h hmeets.1 hmeets.2)
    (skipping_empty N) hrun

def Reached (N : TreeNode) (S : SkipTree) : Prop :=
  ∃ is, Run.Guarded (skipStep N) (StepMeets N) {} is ∧ is.foldl (skipStep N) {} = S

theorem Reached.skipping (h : Reached N S) :
    Skipping N S := by
  obtain ⟨is, hrun, rfl⟩ := h
  exact run_skipping hrun

theorem Reached.step (h : Reached N S) (hmeets : StepMeets N S i) :
    Reached N (skipStep N S i) := by
  obtain ⟨is, hrun, rfl⟩ := h
  refine ⟨is ++ [i], (Run.guarded_append _ _ _).mpr ⟨hrun, hmeets, trivial⟩, ?_⟩
  rw [List.foldl_append, List.foldl_cons, List.foldl_nil]

/-! ## Common ancestors -/

theorem isAncestor_refl (x : uint256) : S.IsAncestor x x := ⟨0, rfl⟩

theorem isAncestor_trans (hxy : S.IsAncestor x y) (hyp : S.IsAncestor y p) : S.IsAncestor x p := by
  obtain ⟨m, hm⟩ := hyp
  obtain ⟨n, hn⟩ := hxy
  exact ⟨m + n, by rw [back_add, hm, bind_some, hn]⟩

section
variable (h : Skipping N S) (hx : S.Known x)
include h hx

theorem Skipping.lowered (hn : n ≤ S.nHeight x) :
    ∃ y, S.GetAncestor x n = some y ∧ S.Known y ∧ S.nHeight y = n ∧ S.IsAncestor y x := by
  obtain ⟨y, hback, hy, hheight⟩ :=
    h.wellFormed.grounded.back (n := S.nHeight x - n) hx (Nat.sub_le _ _)
  exact ⟨y, (h.GetAncestor_eq hx hn).trans hback, hy, by omega, _, hback⟩

theorem Skipping.one_root (hy : S.Known y)
    (hxroot : S.pprev x = none) (hyroot : S.pprev y = none) : x = y := by
  obtain ⟨e, he⟩ := known_iff.mp hx
  obtain ⟨e', he'⟩ := known_iff.mp hy
  rw [pprev_of_entry he] at hxroot
  rw [pprev_of_entry he'] at hyroot
  exact (h.rooted x e he hxroot).trans (h.rooted y e' he' hyroot).symm

/-- **Two entries have a common ancestor, and it is found.** -/
theorem Skipping.LastCommonAncestor_spec (hy : S.Known y) :
    ∃ z, S.LastCommonAncestor x y = some z ∧ S.Known z ∧ S.IsAncestor z x ∧ S.IsAncestor z y := by
  have hmeet : ∀ {x' y'}, S.Known x' → S.Known y' → S.nHeight x' = S.nHeight y' →
      ∃ z, meet S.pprev (S.nHeight x') x' y' = some z ∧ S.Known z ∧
        S.IsAncestor z x' ∧ S.IsAncestor z y' := by
    intro x' y' hx' hy' hsame
    obtain ⟨n, z, hz, hn, hback, hback', -⟩ := meet_spec h.wellFormed.grounded
      (fun _ _ => h.one_root) hx' hy' hsame (Nat.le_refl _)
    obtain ⟨z', hback₂, hknown, -⟩ := h.wellFormed.grounded.back hx' hn
    obtain rfl : z = z' := some.inj (hback.symm.trans hback₂)
    exact ⟨z, hz, hknown, ⟨n, hback⟩, ⟨n, hback'⟩⟩
  unfold LastCommonAncestor
  split_ifs with hhigh hlow
  · obtain ⟨x', hx', hknown, hheight, hfrom⟩ := h.lowered hx hhigh.le
    obtain ⟨z, hz, hzknown, hzx, hzy⟩ := hmeet hknown hy hheight
    rw [hx']
    exact ⟨z, hz, hzknown, isAncestor_trans hzx hfrom, hzy⟩
  · obtain ⟨y', hy', hknown, hheight, hfrom⟩ := h.lowered hy hlow.le
    obtain ⟨z, hz, hzknown, hzx, hzy⟩ := hmeet hx hknown hheight.symm
    rw [hy']
    exact ⟨z, hz, hzknown, hzx, isAncestor_trans hzy hfrom⟩
  · have hsame : S.nHeight x = S.nHeight y := by omega
    exact hmeet hx hy hsame

end

end SkipTree

end Divitae.BlockIndex
