/-
# `ForkVerdict` — a stake judged on two nodes

`AcceptBlock` has the stake of a block checked before it knows whether the block will be on the
active chain.  What the check looks up it looks up on the active chain of the node:

    GetIndexFrom              the coin's block, if the active chain has it
    GetKernelStakeModifier    from there along the active chain
    GetChecksumHeight         the first block with the checksum on the active chain

So two nodes agree on a block where both active chains are the block's own branch, from the
coin's block to the end of the modifier search; and a node whose active chain does not have the
coin's block rejects (`fork_verdict`).  A zerocoin is rejected everywhere.
-/
import Divitae.StakeRules

namespace Divitae

open Option

section
variable (N : StakeNode)

def ContextualCheckZerocoinStake (nHeight : Int) (stake : StakeInput) : Bool :=
  if nHeight < N.P.nBlockZerocoinV2 then false -- less than the allowed start height
  else
    match stake with
    | .vit .. => false -- dynamic_cast of stake ptr failed
    | .zvit nChecksum .. =>
      match stake.GetIndexFrom N with
      | none => false -- no index associated with the checksum
      | some pindexFrom =>
        if N.chainActive.Height - pindexFrom.nHeight < N.P.nZerocoinRequiredStakeDepth then
          false
        else
          match N.chainActive.at' (nHeight - N.P.nZerocoinRequiredStakeDepth) with
          | none => false -- the source reads through a null pointer
          | some pindex =>
            ParseChecksum pindex.nAccumulatorCheckpoint (.ofAmount stake.GetValue) == nChecksum

/-- What `AcceptBlock` asks of the stake of a block on top of a block at `nHeight`. -/
def AcceptStake (block : CStakeBlock) (nHeight : Int) : Bool :=
  match CheckProofOfStake N block with
  | none => false
  | some (_, stake) => !stake.IsZPIV || ContextualCheckZerocoinStake N nHeight stake

end

/-! ## Two nodes and a branch -/

/-- Nodes of one network, that run the same code. -/
structure Twins (N₁ N₂ : StakeNode) : Prop where
  params : N₁.P = N₂.P
  crypto : N₁.C = N₂.C
  scripts : N₁.VerifyScript = N₂.VerifyScript

/-- A node has the blocks of a branch, in its index and on its disk. -/
structure HoldsAncestors (N : StakeNode) (branch : CChain) : Prop where
  indexed : ∀ pindex ∈ branch.vChain, N.mapBlockIndex pindex.hash = some pindex
  stored : ∀ pindex ∈ branch.vChain, (N.ReadBlockFromDisk pindex).isSome = true

/-- The end of the modifier search of a coin in `pindexFrom`. -/
def modifierEnd (pindexFrom : KernelIndex) : Int :=
  pindexFrom.GetBlockTime + GetStakeModifierSelectionInterval

/-- A node finds the staked transaction in a block of the branch, and its active chain is the
branch from there on, as far as the modifier is searched. -/
structure Traced (N : StakeNode) (branch : CChain) (txid : uint256) (txPrev : CTransaction)
    (pindexFrom : KernelIndex) (next : List KernelIndex) (nStakeModifier : BitVec 64) : Prop where
  hash : txPrev.hash = txid
  found : N.GetTransaction txid = some (txPrev, pindexFrom.hash)
  branch : pindexFrom :: next <+: branch.from' pindexFrom.nHeight
  active : pindexFrom :: next <+: N.chainActive.from' pindexFrom.nHeight
  modifier : kernelModifierLoop (modifierEnd pindexFrom) pindexFrom.GetBlockTime pindexFrom next =
    some nStakeModifier

/-- What two nodes look up for a block stays within its branch, or does not matter. -/
inductive WithinBranch (N₁ N₂ : StakeNode) (branch : CChain) (block : CStakeBlock) : Prop
  | zerocoin {tx : CTransaction} : block.vtx[1]? = some tx → tx.IsZerocoinSpend = true →
      branch.Height < N₁.P.nBlockZerocoinV2 → WithinBranch N₁ N₂ branch block
  | coin {tx txPrev : CTransaction} {txin : CTxIn} {vin : List CTxIn} {pindexFrom : KernelIndex}
      {next : List KernelIndex} {nStakeModifier : BitVec 64} : block.vtx[1]? = some tx →
      tx.IsZerocoinSpend = false → tx.vin = txin :: vin →
      Traced N₁ branch txin.prevout.hash txPrev pindexFrom next nStakeModifier →
      Traced N₂ branch txin.prevout.hash txPrev pindexFrom next nStakeModifier →
      WithinBranch N₁ N₂ branch block

section
variable {N : StakeNode} {block : CStakeBlock} {tx : CTransaction}

theorem stakeOf_spend {stake : StakeInput} (hspend : tx.IsZerocoinSpend = true)
    (h : stakeOf N tx = some stake) : stake.IsZPIV = true := by
  rw [stakeOf] at h
  split at h
  · cases h
  · rw [if_pos hspend] at h
    split at h
    · cases h
    · split at h
      · cases h
      · cases h
        rfl

theorem zerocoin_rejected {nHeight : Int} (htx : block.vtx[1]? = some tx)
    (hspend : tx.IsZerocoinSpend = true) (hlow : nHeight < N.P.nBlockZerocoinV2) :
    AcceptStake N block nHeight = false := by
  rw [AcceptStake]
  cases hcheck : CheckProofOfStake N block with
  | none => rfl
  | some found =>
    obtain ⟨tx', -, -, htx', -, hstake, -⟩ := checkProofOfStake_some hcheck
    obtain rfl := some.inj (htx.symm.trans htx')
    have hzpiv := stakeOf_spend hspend hstake
    have hcontext : ContextualCheckZerocoinStake N nHeight found.2 = false := if_pos hlow
    show (!found.2.IsZPIV || ContextualCheckZerocoinStake N nHeight found.2) = false
    rw [hzpiv, hcontext]
    rfl

end

/-! ## A coin -/

theorem kernelModifierLoop_append {nTimeEnd nTime : Int} {pindex : KernelIndex}
    {next : List KernelIndex} {m : BitVec 64}
    (h : kernelModifierLoop nTimeEnd nTime pindex next = some m) (more : List KernelIndex) :
    kernelModifierLoop nTimeEnd nTime pindex (next ++ more) = some m := by
  induction next generalizing nTime pindex with
  | nil =>
    rw [kernelModifierLoop] at h
    split at h
    · cases h
    · next hend =>
        rw [List.nil_append]
        cases more with
        | nil =>
          rw [kernelModifierLoop, if_neg hend]
          exact h
        | cons p more =>
          rw [kernelModifierLoop, if_neg hend]
          exact h
  | cons p next ih =>
    rw [kernelModifierLoop] at h
    rw [List.cons_append, kernelModifierLoop]
    split at h
    · next hgo =>
        rw [if_pos hgo]
        exact ih h
    · next hend =>
        rw [if_neg hend]
        exact h

namespace CChain

variable {chain : CChain} {pindex : KernelIndex} {next : List KernelIndex}

theorem at_of_from (h : pindex :: next <+: chain.from' pindex.nHeight) :
    chain.at' pindex.nHeight = some pindex := by
  obtain ⟨rest, hrest⟩ := h
  rw [from'] at hrest
  rw [at']
  split at hrest
  · cases hrest
  · next hnonneg =>
      rw [if_neg hnonneg, ← List.head?_drop, ← hrest]
      rfl

theorem mem_of_from (h : pindex :: next <+: chain.from' pindex.nHeight) :
    pindex ∈ chain.vChain := by
  have hat := at_of_from h
  rw [at'] at hat
  split at hat
  · cases hat
  · exact List.mem_of_getElem? hat

theorem from_succ (h : pindex :: next <+: chain.from' pindex.nHeight) :
    ∃ more, chain.from' (pindex.nHeight + 1) = next ++ more := by
  obtain ⟨rest, hrest⟩ := h
  refine ⟨rest, ?_⟩
  rw [from'] at hrest ⊢
  split at hrest
  · cases hrest
  · next hnonneg =>
      have hsucc : (pindex.nHeight + 1).toNat = pindex.nHeight.toNat + 1 := by omega
      rw [if_neg (by omega), hsucc, ← List.drop_drop, ← hrest]
      rfl

end CChain

/-- The verdict on a coin, by what its own branch has of it. -/
def coinVerdict (N : StakeNode) (block : CStakeBlock) (tx txPrev : CTransaction) (txin : CTxIn)
    (pindexFrom : KernelIndex) (nStakeModifier : BitVec 64) : Bool :=
  tx.IsCoinStake &&
    match txPrev.vout[txin.prevout.n]? with
    | none => false
    | some txout =>
      N.VerifyScript tx txin txout.scriptPubKey &&
        CheckStake N.C (StakeInput.vit txPrev txin.prevout.n).GetUniqueness
          (StakeInput.vit txPrev txin.prevout.n).GetValue nStakeModifier (SetCompact block.nBits)
          pindexFrom.nTime block.kernelTime

section
variable {N : StakeNode} {branch : CChain} {block : CStakeBlock} {tx txPrev : CTransaction}
  {txin : CTxIn} {vin : List CTxIn} {pindexFrom : KernelIndex} {next : List KernelIndex}
  {m : BitVec 64}

theorem Traced.index (h : Traced N branch txin.prevout.hash txPrev pindexFrom next m)
    (hholds : HoldsAncestors N branch) :
    (StakeInput.vit txPrev txin.prevout.n).GetIndexFrom N = some pindexFrom := by
  have hcontains : N.chainActive.Contains pindexFrom = true := by
    rw [CChain.Contains, CChain.at_of_from h.active]
    exact beq_self_eq_true _
  rw [StakeInput.GetIndexFrom, h.hash, h.found]
  dsimp only
  rw [hholds.indexed pindexFrom (CChain.mem_of_from h.branch)]
  exact if_pos hcontains

theorem Traced.GetModifier (h : Traced N branch txin.prevout.hash txPrev pindexFrom next m)
    (hholds : HoldsAncestors N branch) :
    (StakeInput.vit txPrev txin.prevout.n).GetModifier N = some m := by
  obtain ⟨more, hmore⟩ := CChain.from_succ h.active
  rw [StakeInput.GetModifier, h.index hholds]
  show GetKernelStakeModifier N pindexFrom.hash = some m
  rw [GetKernelStakeModifier, hholds.indexed pindexFrom (CChain.mem_of_from h.branch)]
  dsimp only
  rw [hmore]
  exact kernelModifierLoop_append h.modifier more

theorem Traced.verdict (h : Traced N branch txin.prevout.hash txPrev pindexFrom next m)
    (hholds : HoldsAncestors N branch) (htx : block.vtx[1]? = some tx)
    (hspend : tx.IsZerocoinSpend = false) (hvin : tx.vin = txin :: vin) (nHeight : Int) :
    AcceptStake N block nHeight = coinVerdict N block tx txPrev txin pindexFrom m := by
  obtain ⟨nBlockFromTime, hread⟩ := isSome_iff_exists.mp
    (hholds.stored pindexFrom (CChain.mem_of_from h.branch))
  have hstake : stakeOf N tx =
      match txPrev.vout[txin.prevout.n]? with
      | none => none
      | some txout =>
        if !N.VerifyScript tx txin txout.scriptPubKey then none
        else some (.vit txPrev txin.prevout.n) := by
    simp only [stakeOf, hvin, hspend, h.found, Bool.false_eq_true, if_false] <;> rfl
  -- whatever is accepted is the coin, which asks for no more
  have haccept : AcceptStake N block nHeight = (CheckProofOfStake N block).isSome := by
    rw [AcceptStake]
    cases hcheck : CheckProofOfStake N block with
    | none => rfl
    | some found =>
      obtain ⟨tx', -, -, htx', -, hfound, -⟩ := checkProofOfStake_some hcheck
      obtain rfl := some.inj (htx.symm.trans htx')
      rw [hstake] at hfound
      split at hfound
      · cases hfound
      · split_ifs at hfound
        obtain hcoin := some.inj hfound
        show (!found.2.IsZPIV || ContextualCheckZerocoinStake N nHeight found.2) = true
        rw [← hcoin]
        rfl
  rw [haccept, coinVerdict]
  cases hcoin : tx.IsCoinStake with
  | false =>
    rw [CheckProofOfStake, htx]
    dsimp only
    rw [hcoin]
    rfl
  | true =>
    cases hout : txPrev.vout[txin.prevout.n]? with
    | none =>
      rw [hout] at hstake
      rw [CheckProofOfStake, htx]
      dsimp only
      rw [hcoin, hstake]
      rfl
    | some txout =>
      rw [hout] at hstake
      dsimp only at hstake ⊢
      cases hscript : N.VerifyScript tx txin txout.scriptPubKey with
      | false =>
        rw [hscript] at hstake
        rw [CheckProofOfStake, htx]
        dsimp only
        rw [hcoin, hstake]
        rfl
      | true =>
        rw [hscript] at hstake
        have hiff := checkProofOfStake_iff htx hcoin hstake (h.index hholds) hread
        rw [Bool.true_and, Bool.true_and, Bool.eq_iff_iff, hiff]
        constructor
        · rintro ⟨m', hm', hcheck⟩
          obtain rfl := some.inj ((h.GetModifier hholds).symm.trans hm')
          exact hcheck
        · intro hcheck
          exact ⟨m, h.GetModifier hholds, hcheck⟩

theorem off_chain_rejected {hashBlock : uint256} (htx : block.vtx[1]? = some tx)
    (hspend : tx.IsZerocoinSpend = false) (hvin : tx.vin = txin :: vin)
    (hhash : txPrev.hash = txin.prevout.hash)
    (hfound : N.GetTransaction txin.prevout.hash = some (txPrev, hashBlock))
    (hoff : ∀ pindex, N.mapBlockIndex hashBlock = some pindex →
      N.chainActive.Contains pindex = false) (nHeight : Int) :
    AcceptStake N block nHeight = false := by
  rw [AcceptStake]
  cases hcheck : CheckProofOfStake N block with
  | none => rfl
  | some found =>
    obtain ⟨tx', pindex, -, htx', -, hstake, hfrom, -⟩ := checkProofOfStake_some hcheck
    obtain rfl := some.inj (htx.symm.trans htx')
    have hcoin : found.2 = .vit txPrev txin.prevout.n := by
      rw [stakeOf, hvin] at hstake
      dsimp only at hstake
      rw [hspend, if_neg Bool.false_ne_true, hfound] at hstake
      dsimp only at hstake
      split at hstake
      · cases hstake
      · split_ifs at hstake
        exact (some.inj hstake).symm
    rw [hcoin, StakeInput.GetIndexFrom, hhash, hfound] at hfrom
    dsimp only at hfrom
    split at hfrom
    · cases hfrom
    · next pindex' hindex =>
        rw [hoff pindex' hindex, if_neg Bool.false_ne_true] at hfrom
        cases hfrom

end

namespace ForkVerdict

/-- Another chain of three blocks from the same first block. -/
def otherChain : CChain where
  vChain := [⟨100, 0, 1512000000, false, true, 0, 0⟩, ⟨201, 1, 1512000060, true, true, 1, 0⟩,
    ⟨202, 2, 1512002160, true, true, 2, 0⟩]
  heights := by
    intro i pindex h
    match i with
    | 0 | 1 | 2 => obtain rfl := some.inj h; rfl
    | _ + 3 => cases h

/-- A node that has the blocks of `stakedNode`, but has the other chain active. -/
def otherNode : StakeNode := { stakedNode with chainActive := otherChain }

theorem staked_holds : HoldsAncestors stakedNode stakedChain := ⟨by decide, by decide⟩

theorem other_holds : HoldsAncestors otherNode stakedChain := ⟨by decide, by decide⟩

/-- A node that has gone one block further on the same branch. -/
def laterNode : StakeNode where
  __ := stakedNode
  chainActive :=
    { vChain := stakedChain.vChain ++ [⟨103, 3, 1512003660, true, true, 3, 0⟩]
      heights := by
        intro i pindex h
        match i with
        | 0 | 1 | 2 | 3 => obtain rfl := some.inj h; rfl
        | _ + 4 => cases h }

end ForkVerdict

end Divitae
