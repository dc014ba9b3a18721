/-
# `CoinstakeInputs` — a coinstake's inputs against the block's ancestors

`AcceptBlock` asks of a proof-of-stake block whether its coinstake spends what an
ancestor has spent.  The block may be put on any block of the tree, but the coins are
those of the tip: what is not there any more is looked up in `mapStakeSpent`, and the
blocks between the parent and the active chain are read from disk.

The answer is right when a fork block spends an input, and when the tip has them all.
Otherwise one number has to do, the parent's height, to which the height an input was
spent at is compared: the parent itself passes, and so does not what an active block
beside the fork has spent, or an input that is not spent at all.
-/
import Divitae.StakeSpentRuns

namespace Divitae

open Run Window List Bool

/-! ## The check -/

/-- `chainActive.Contains`, of an index entry with what is behind it. -/
def activeContains (chainActive pindex : List HighBlock) : Bool :=
  !pindex.isEmpty && pindex.isSuffixOf chainActive

def CBlock.lists (block : CBlock) : List COutPoint :=
  block.vtx.flatMap fun tx => tx.vin.map CTxIn.prevout

/-- How the check ends; a fork block that cannot be read is an error of its own. -/
inductive InputVerdict where
  | passed
  | spent
  | notOnDisk
  deriving DecidableEq

/-- The walk down the fork, from the block that is added on to. -/
def forkWalk (chainActive : List HighBlock) (readable : HighBlock → Bool)
    (stakeIns : List COutPoint) : List HighBlock → InputVerdict
  | [] => .passed
  | last :: pprev =>
    if activeContains chainActive (last :: pprev) then .passed
    else if !readable last then .notOnDisk
    else if stakeIns.any fun out => decide (out ∈ last.1.lists) then .spent
    else forkWalk chainActive readable stakeIns pprev

/-- The inputs were spent below the parent, or the map does not know them. -/
def spentBelow (m : StakeSpent) (nHeight : Int) (txin : CTxIn) : Bool :=
  match m txin.prevout with
  | none => true
  | some nSpent => nSpent < nHeight

/-- The check of `AcceptBlock`, for a block on top of the head of `pindexPrev`. -/
def acceptStakeInputs (s : StakeChain) (readable : HighBlock → Bool) (block : CBlock)
    (pindexPrev : List HighBlock) : InputVerdict :=
  match block.vtx, pindexPrev with
  | _ :: tx :: _, parent :: _ =>
    if !tx.IsCoinStake then .passed -- IsProofOfStake
    else if !s.pcoinsTip.HaveInputs tx && tx.vin.any (spentBelow s.mapStakeSpent parent.2) then
      .spent
    else forkWalk s.blocks readable (tx.vin.map CTxIn.prevout) pindexPrev
  | _, _ => .passed

/-- The blocks that are not on the active chain, and those that are. -/
def forkSplit (chainActive : List HighBlock) : List HighBlock → List HighBlock × List HighBlock
  | [] => ([], [])
  | last :: pprev =>
    if activeContains chainActive (last :: pprev) then ([], last :: pprev)
    else (last :: (forkSplit chainActive pprev).1, (forkSplit chainActive pprev).2)

section
variable {chainActive : List HighBlock} {readable : HighBlock → Bool} {stakeIns : List COutPoint}

theorem forkSplit_append : ∀ pindexPrev : List HighBlock,
    (forkSplit chainActive pindexPrev).1 ++ (forkSplit chainActive pindexPrev).2 = pindexPrev
  | [] => rfl
  | last :: pprev => by
    rw [forkSplit]
    split
    · rfl
    · exact congrArg (last :: ·) (forkSplit_append pprev)

theorem forkSplit_shared : ∀ pindexPrev : List HighBlock,
    (forkSplit chainActive pindexPrev).2 <:+ chainActive
  | [] => nil_suffix
  | last :: pprev => by
    rw [forkSplit]
    split
    next hin => exact isSuffixOf_iff_suffix.mp ((and_eq_true _ _).mp hin).2
    · exact forkSplit_shared pprev

theorem forkWalk_eq : ∀ pindexPrev : List HighBlock,
    (∀ b ∈ (forkSplit chainActive pindexPrev).1, readable b = true) →
    forkWalk chainActive readable stakeIns pindexPrev =
      if ∃ out ∈ stakeIns, ∃ b ∈ (forkSplit chainActive pindexPrev).1, out ∈ b.1.lists then .spent
      else .passed
  | [], _ => by
    rw [if_neg]
    · rfl
    · rintro ⟨_, _, b, hb, _⟩
      cases hb
  | last :: pprev, hread => by
    rw [forkWalk, forkSplit]
    rw [forkSplit] at hread
    split
    · rw [if_neg]
      rintro ⟨_, _, b, hb, _⟩
      cases hb
    next hnot =>
      rw [if_neg hnot] at hread
      rw [hread last mem_cons_self, Bool.not_true, if_neg Bool.false_ne_true]
      have ih := forkWalk_eq pprev fun b hb => hread b (.tail _ hb)
      rw [ih]
      simp only [any_eq_true, decide_eq_true_eq, exists_mem_cons_iff]
      by_cases hhere : ∃ out ∈ stakeIns, out ∈ last.1.lists
      · obtain ⟨out, hout, hlast⟩ := hhere
        rw [if_pos ⟨out, hout, hlast⟩, if_pos ⟨out, hout, Or.inl hlast⟩]
      · rw [if_neg hhere]
        refine if_congr ⟨?_, ?_⟩ rfl rfl
        · rintro ⟨out, hout, hrest⟩
          exact ⟨out, hout, .inr hrest⟩
        · rintro ⟨out, hout, hlast | hrest⟩
          · exact absurd ⟨out, hout, hlast⟩ hhere
          · exact ⟨out, hout, hrest⟩

end

/-! ## What the claim is about -/

section
variable (s : StakeChain) (tx : CTransaction) (pindexPrev : List HighBlock)

/-- An input of the transaction has been spent by one of the blocks. -/
def SpentIn (blocks : List HighBlock) : Prop :=
  ∃ txin ∈ tx.vin, ∃ b ∈ blocks, txin.prevout ∈ b.1.spends

/-- An input is listed by one of the blocks: spent there, or named by a zerocoin spend. -/
def ListedIn (blocks : List HighBlock) : Prop :=
  ∃ txin ∈ tx.vin, ∃ b ∈ blocks, txin.prevout ∈ b.1.lists

/-- The map has each input as spent at the height or above. -/
def SpentFrom (nHeight : Int) : Prop :=
  ∀ txin ∈ tx.vin, ∃ nSpent, s.mapStakeSpent txin.prevout = some nSpent ∧ nHeight ≤ nSpent

/-- A verdict that is right about the ancestors. -/
structure RightVerdict (verdict : InputVerdict) : Prop where
  accepts : verdict = .passed → ¬ SpentIn tx pindexPrev
  rejects : verdict = .spent → SpentIn tx pindexPrev

/-- When the verdict is right.  A fork block spends an input; or the fork only lists one,
and the active ancestors spend one; or the fork has nothing to do with them, and the tip
has all inputs, or the active ancestors spend one exactly when not all were spent from the
parent's height on. -/
def Judgeable (nHeight : Int) : Prop :=
  SpentIn tx (forkSplit s.blocks pindexPrev).1 ∨
    (ListedIn tx (forkSplit s.blocks pindexPrev).1 ∧ SpentIn tx (forkSplit s.blocks pindexPrev).2) ∨
    (¬ ListedIn tx (forkSplit s.blocks pindexPrev).1 ∧
      (s.pcoinsTip.HaveInputs tx = true ∨
        (SpentIn tx (forkSplit s.blocks pindexPrev).2 ↔ ¬ SpentFrom s tx nHeight)))

end

section
variable {s : StakeChain} {tx : CTransaction} {pindexPrev : List HighBlock}

theorem spends_sub_lists {block : CBlock} {out : COutPoint} (h : out ∈ block.spends) :
    out ∈ block.lists := by
  obtain ⟨tx, htx, hout⟩ := mem_spends.mp h
  refine mem_flatMap.mpr ⟨tx, htx, ?_⟩
  unfold CTransaction.spends at hout
  split at hout
  · exact hout
  · cases hout

variable {blocks : List HighBlock}

theorem SpentIn.listed (h : SpentIn tx blocks) : ListedIn tx blocks := by
  obtain ⟨txin, hin, b, hb, hout⟩ := h
  exact ⟨txin, hin, b, hb, spends_sub_lists hout⟩

theorem spentIn_append {l l' : List HighBlock} :
    SpentIn tx (l ++ l') ↔ SpentIn tx l ∨ SpentIn tx l' := by
  constructor
  · rintro ⟨txin, hin, b, hb, hout⟩
    rcases mem_append.mp hb with hb | hb
    · exact .inl ⟨txin, hin, b, hb, hout⟩
    · exact .inr ⟨txin, hin, b, hb, hout⟩
  · rintro (⟨txin, hin, b, hb, hout⟩ | ⟨txin, hin, b, hb, hout⟩)
    · exact ⟨txin, hin, b, mem_append_left _ hb, hout⟩
    · exact ⟨txin, hin, b, mem_append_right _ hb, hout⟩

theorem takesCoins_of_coinStake (hcoin : tx.IsCoinStake = true)
    (hzero : tx.IsZerocoinSpend = false) :
    tx.IsCoinBase = false := by
  cases hbase : tx.IsCoinBase with
  | false => rfl
  | true =>
    unfold CTransaction.IsCoinBase at hbase
    split at hbase
    next txin hvin =>
      obtain ⟨hnull, hcontains⟩ := (and_eq_true _ _).mp hbase
      unfold CTransaction.IsCoinStake at hcoin
      rw [hvin] at hcoin
      split at hcoin
      next txin' _ _ _ _ hcons _ =>
        obtain ⟨rfl, -⟩ := cons.inj hcons
        rw [hnull] at hcoin
        -- a null first input of a coinstake is a zerocoin spend
        have hscript : txin.scriptSig.IsZerocoinSpend = true := by
          simp only [Bool.true_and, Bool.and_eq_true, Bool.not_eq_true',
            Bool.not_eq_false'] at hcoin
          exact hcoin.1
        unfold CTransaction.IsZerocoinSpend at hzero
        rw [hvin] at hzero
        have hhash : (txin.prevout.hash == 0) = true := by
          unfold COutPoint.IsNull at hnull
          simp only [and_eq_true] at hnull
          exact hnull.1
        dsimp only at hzero
        rw [hscript, hhash] at hzero
        cases hzero
      · cases hcoin
    · cases hbase

theorem not_spent_of_haveInputs (hs : s.Sound) (hcoin : tx.IsCoinStake = true)
    (hzero : tx.IsZerocoinSpend = false) (hhave : s.pcoinsTip.HaveInputs tx = true)
    (hblocks : blocks <:+ s.blocks) : ¬ SpentIn tx blocks := by
  rintro ⟨txin, hin, b, hb, hout⟩
  unfold CCoinsView.HaveInputs at hhave
  rw [takesCoins_of_coinStake hcoin hzero, hzero, Bool.false_or, Bool.false_or] at hhave
  have hlive := CCoinsView.live_of_available (all_eq_true.mp hhave txin hin)
  exact hs.unspent _ hlive b (hblocks.subset hb) hout

theorem spentFrom_iff {nHeight : Int} :
    tx.vin.any (spentBelow s.mapStakeSpent nHeight) = false ↔ SpentFrom s tx nHeight := by
  have hone : ∀ txin : CTxIn, spentBelow s.mapStakeSpent nHeight txin = false ↔
      ∃ nSpent, s.mapStakeSpent txin.prevout = some nSpent ∧ nHeight ≤ nSpent := by
    intro txin
    unfold spentBelow
    cases hm : s.mapStakeSpent txin.prevout with
    | none => exact ⟨nofun, fun ⟨_, hf, _⟩ => (nomatch hf)⟩
    | some nSpent =>
      rw [decide_eq_false_iff_not, not_lt]
      constructor
      · exact fun hle => ⟨nSpent, rfl, hle⟩
      · rintro ⟨k, hk, hle⟩
        exact Option.some.inj hk ▸ hle
  rw [any_eq_false]
  constructor
  · intro h txin hin
    exact (hone txin).mp (by simpa using h txin hin)
  · intro h txin hin
    rw [(hone txin).mpr (h txin hin)]
    exact false_ne_true

theorem acceptStakeInputs_eq {readable : HighBlock → Bool} {block : CBlock} {first : CTransaction}
    {rest : List CTransaction} {parent : HighBlock} {below : List HighBlock}
    (hvtx : block.vtx = first :: tx :: rest) (hcoin : tx.IsCoinStake = true)
    (hread : ∀ b ∈ (forkSplit s.blocks (parent :: below)).1, readable b = true) :
    (acceptStakeInputs s readable block (parent :: below) = .spent ∧
      (s.pcoinsTip.HaveInputs tx = false ∧ ¬ SpentFrom s tx parent.2 ∨
        ListedIn tx (forkSplit s.blocks (parent :: below)).1)) ∨
    (acceptStakeInputs s readable block (parent :: below) = .passed ∧
      (s.pcoinsTip.HaveInputs tx = true ∨ SpentFrom s tx parent.2) ∧
        ¬ ListedIn tx (forkSplit s.blocks (parent :: below)).1) := by
  unfold acceptStakeInputs
  rw [hvtx]
  dsimp only
  rw [hcoin, Bool.not_true, if_neg Bool.false_ne_true, forkWalk_eq _ hread]
  have hlisted : (∃ out ∈ tx.vin.map CTxIn.prevout,
      ∃ b ∈ (forkSplit s.blocks (parent :: below)).1, out ∈ b.1.lists) ↔
        ListedIn tx (forkSplit s.blocks (parent :: below)).1 := by
    constructor
    · rintro ⟨out, hout, hb⟩
      obtain ⟨txin, hin, rfl⟩ := mem_map.mp hout
      exact ⟨txin, hin, hb⟩
    · rintro ⟨txin, hin, hb⟩
      exact ⟨txin.prevout, mem_map_of_mem hin, hb⟩
  have hfork : (if ∃ out ∈ tx.vin.map CTxIn.prevout,
      ∃ b ∈ (forkSplit s.blocks (parent :: below)).1, out ∈ b.1.lists then InputVerdict.spent
      else .passed) = .spent ∧ ListedIn tx (forkSplit s.blocks (parent :: below)).1 ∨
    (if ∃ out ∈ tx.vin.map CTxIn.prevout,
      ∃ b ∈ (forkSplit s.blocks (parent :: below)).1, out ∈ b.1.lists then InputVerdict.spent
      else .passed) = .passed ∧ ¬ ListedIn tx (forkSplit s.blocks (parent :: below)).1 := by
    by_cases h : ∃ out ∈ tx.vin.map CTxIn.prevout,
      ∃ b ∈ (forkSplit s.blocks (parent :: below)).1, out ∈ b.1.lists
    · exact .inl ⟨if_pos h, hlisted.mp h⟩
    · exact .inr ⟨if_neg h, fun hl => h (hlisted.mpr hl)⟩
  cases hhave : s.pcoinsTip.HaveInputs tx with
  | true =>
    rw [Bool.not_true, Bool.false_and, if_neg Bool.false_ne_true]
    rcases hfork with ⟨hv, hl⟩ | ⟨hv, hl⟩
    · exact .inl ⟨hv, .inr hl⟩
    · exact .inr ⟨hv, .inl rfl, hl⟩
  | false =>
    rw [Bool.not_false, Bool.true_and]
    cases hany : tx.vin.any (spentBelow s.mapStakeSpent parent.2) with
    | true =>
      refine .inl ⟨if_pos rfl, .inl ⟨rfl, fun hfrom => ?_⟩⟩
      rw [spentFrom_iff.mpr hfrom] at hany
      cases hany
    | false =>
      rw [if_neg Bool.false_ne_true]
      rcases hfork with ⟨hv, hl⟩ | ⟨hv, hl⟩
      · exact .inl ⟨hv, .inr hl⟩
      · exact .inr ⟨hv, .inr (spentFrom_iff.mp hany), hl⟩

/-- **The verdict on a coinstake's inputs is right exactly when they are judgeable.** -/
theorem stake_inputs_judged_iff (s : StakeChain) (readable : HighBlock → Bool) (block : CBlock)
    (first tx : CTransaction) (rest : List CTransaction) (parent : HighBlock)
    (below : List HighBlock) (hs : s.Sound) (hvtx : block.vtx = first :: tx :: rest)
    (hcoin : tx.IsCoinStake = true) (hzero : tx.IsZerocoinSpend = false)
    (hread : ∀ b ∈ (forkSplit s.blocks (parent :: below)).1, readable b = true) :
    RightVerdict tx (parent :: below) (acceptStakeInputs s readable block (parent :: below)) ↔
      Judgeable s tx (parent :: below) parent.2 := by
  have hsplit : SpentIn tx (parent :: below) ↔
      SpentIn tx (forkSplit s.blocks (parent :: below)).1 ∨
        SpentIn tx (forkSplit s.blocks (parent :: below)).2 := by
    rw [← spentIn_append, forkSplit_append]
  have htip : s.pcoinsTip.HaveInputs tx = true →
      ¬ SpentIn tx (forkSplit s.blocks (parent :: below)).2 := fun hhave =>
    not_spent_of_haveInputs hs hcoin hzero hhave (forkSplit_shared _)
  have hlisted : SpentIn tx (forkSplit s.blocks (parent :: below)).1 →
      ListedIn tx (forkSplit s.blocks (parent :: below)).1 := SpentIn.listed
  unfold Judgeable
  rcases acceptStakeInputs_eq hvtx hcoin hread with ⟨hspent, hwhy⟩ | ⟨hpassed, hwhy, hnot⟩
  · have hright : RightVerdict tx (parent :: below) .spent ↔ SpentIn tx (parent :: below) :=
      ⟨fun h => h.rejects rfl, fun h => ⟨nofun, fun _ => h⟩⟩
    rw [hspent, hright, hsplit]
    rcases hwhy with ⟨hhave, hfrom⟩ | hlist
    · -- the map's answer
      rw [hhave]
      by_cases hlist : ListedIn tx (forkSplit s.blocks (parent :: below)).1
      · simp [hlist]
      · have hfork : ¬ SpentIn tx (forkSplit s.blocks (parent :: below)).1 :=
          fun h => hlist (hlisted h)
        simp [hlist, hfork, hfrom]
    · simp [hlist]
  · have hright : RightVerdict tx (parent :: below) .passed ↔ ¬ SpentIn tx (parent :: below) :=
      ⟨fun h => h.accepts rfl, fun h => ⟨fun _ => h, nofun⟩⟩
    have hfork : ¬ SpentIn tx (forkSplit s.blocks (parent :: below)).1 := fun h => hnot (hlisted h)
    rw [hpassed, hright, hsplit]
    rcases hwhy with hhave | hfrom
    · simp [hfork, hnot, hhave, htip hhave]
    · by_cases hhave : s.pcoinsTip.HaveInputs tx = true
      · simp [hfork, hnot, hhave, htip hhave]
      · simp [hfork, hnot, hhave, hfrom]

end

/-! ## On the tip, and beside it -/

/-- The chain of the examples with one more block, which stakes transaction 7. -/
def stakedTip : StakeChain :=
  chainStep lowChain (.connectTip (heightNode 999) (quietBlock (2 * COIN) [])
    (quietIndex 999) false)

def stakeAgain : CTransaction := ⟨401, 1, [⟨⟨7, 0⟩, [], 0⟩], [.empty, ⟨2 * COIN, []⟩], 0⟩

def stakeBlock (hash : uint256) (vtx : List CTransaction) : CBlock where
  hash := hash
  nVersion := 4
  hashPrevBlock := 50
  nTime := 1600000120
  vtx := emptyCoinBase :: vtx
  vchBlockSig := []

def forkOf (vtx : List CTransaction) : List HighBlock :=
  (stakeBlock 501 [], 1001) :: (stakeBlock 500 vtx, 1000) :: lowChain.blocks

theorem freshStake : FreshIds (quietBlock (2 * COIN) []) lowChain := by
  refine ⟨⟨by decide, by decide⟩, ?_⟩
  intro b hb out hout
  rw [(lowChain_spends b hb out hout).1]
  decide

theorem stakedTip_sound : stakedTip.Sound := chainStep_sound lowChain_sound freshStake

theorem stakedTip_remembers : stakedTip.RemembersSpent :=
  chainStep_remembers lowChain_sound lowChain_remembers freshStake

/-- A stake that the fork has spent is refused, and rightly. -/
theorem spent_on_fork_judged :
    RightVerdict stakeAgain (forkOf [stakeAgain])
      (acceptStakeInputs stakedTip (fun _ => true) (stakeBlock 502 [stakeAgain])
        (forkOf [stakeAgain])) :=
  (stake_inputs_judged_iff stakedTip (fun _ => true) (stakeBlock 502 [stakeAgain]) emptyCoinBase
    stakeAgain [] (stakeBlock 501 [], 1001) ((stakeBlock 500 [stakeAgain], 1000) :: lowChain.blocks)
    stakedTip_sound rfl (by decide) (by decide) (fun _ _ => rfl)).mpr (.inl
      ⟨⟨⟨7, 0⟩, [], 0⟩, by decide, (stakeBlock 500 [stakeAgain], 1000),
        by decide, by decide⟩)

/-- **Spent in the parent, and spent beside the fork.**  On the tip, which has just spent
transaction 7, a stake of it passes; on a fork that has not, it is refused. -/
theorem parent_spend_passes :
    (¬ ∀ (s : StakeChain) (readable : HighBlock → Bool) (block : CBlock) (first tx : CTransaction)
      (rest : List CTransaction) (parent : HighBlock) (below : List HighBlock), s.Sound →
      s.RemembersSpent → s.Height - MaxReorganizationDepth < parent.2 →
      block.vtx = first :: tx :: rest → tx.IsCoinStake = true → tx.IsZerocoinSpend = false →
      (∀ b ∈ (forkSplit s.blocks (parent :: below)).1, readable b = true) →
      acceptStakeInputs s readable block (parent :: below) = .passed →
      ¬ SpentIn tx (parent :: below)) ∧
    ¬ ∀ (s : StakeChain) (readable : HighBlock → Bool) (block : CBlock) (first tx : CTransaction)
      (rest : List CTransaction) (parent : HighBlock) (below : List HighBlock), s.Sound →
      s.RemembersSpent → s.Height - MaxReorganizationDepth < parent.2 →
      block.vtx = first :: tx :: rest → tx.IsCoinStake = true → tx.IsZerocoinSpend = false →
      (∀ b ∈ (forkSplit s.blocks (parent :: below)).1, readable b = true) →
      acceptStakeInputs s readable block (parent :: below) = .spent →
      SpentIn tx (parent :: below) := by
  constructor
  · intro hall
    refine hall stakedTip (fun _ => true) (stakeBlock 502 [stakeAgain]) emptyCoinBase stakeAgain []
      (quietBlock (2 * COIN) [], 1000) lowChain.blocks stakedTip_sound stakedTip_remembers
      (by decide) rfl (by decide) (by decide) (fun _ _ => rfl) (by decide)
      ⟨⟨⟨7, 0⟩, [], 0⟩, by decide, (quietBlock (2 * COIN) [], 1000), .head _, by decide⟩
  · intro hall
    obtain ⟨txin, hin, b, hb, hout⟩ := hall stakedTip (fun _ => true) (stakeBlock 502 [stakeAgain])
      emptyCoinBase stakeAgain [] (stakeBlock 501 [], 1001)
      ((stakeBlock 500 [], 1000) :: lowChain.blocks) stakedTip_sound stakedTip_remembers
      (by decide) rfl (by decide) (by decide) (fun _ _ => rfl) (by decide)
    have hnever : ∀ txin ∈ stakeAgain.vin,
        ∀ b ∈ forkOf [], txin.prevout ∉ b.1.spends := by decide
    exact hnever txin hin b hb hout

end Divitae
