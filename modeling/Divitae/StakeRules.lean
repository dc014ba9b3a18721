/-
# `StakeRules` — the rules of staking, produced and validated

`Stake` refuses a coin from a block less than `nStakeMinAge` old before it hashes;
`CheckProofOfStake` only hashes.  Both hash the same: at a time, a stake of one block meets
the target of `nBits` for the one if and only if it does for the other
(`stake_succeeds_iff`, `checkProofOfStake_iff`).  So an accepted block keeps the rules
exactly when the two tests of `Stake` hold of the block's time, and the modifier, which a
coin only has after the selection interval, leaves the rest of the hour open.
-/
import Divitae.StakeInput
import Divitae.Supply

namespace Divitae

open Option

/-- What `Stake` tests of the time before it hashes. -/
def OldEnough (nTimeBlockFrom nTime : BitVec 32) : Prop :=
  ¬ nTime < nTimeBlockFrom ∧ ¬ nTimeBlockFrom + nStakeMinAge > nTime

instance (nTimeBlockFrom nTime : BitVec 32) : Decidable (OldEnough nTimeBlockFrom nTime) :=
  inferInstanceAs (Decidable (_ ∧ _))

section
variable (N : StakeNode)

def MeetsTarget (stake : StakeInput) (nBits nTimeBlockFrom nTime : BitVec 32) : Prop :=
  ∃ nStakeModifier, stake.GetModifier N = some nStakeModifier ∧
    CheckStake N.C stake.GetUniqueness stake.GetValue nStakeModifier (SetCompact nBits)
      nTimeBlockFrom nTime = true

/-- The rules the producer keeps. -/
structure StakingRules (stake : StakeInput) (nBits nTimeBlockFrom nTime : BitVec 32) : Prop where
  age : OldEnough nTimeBlockFrom nTime
  kernel : MeetsTarget N stake nBits nTimeBlockFrom nTime

end

/-! ## The producer -/

section
variable {N : StakeNode} {stake : StakeInput} {nBits nTimeBlockFrom nTimeTx nTime : BitVec 32}
  {newBlock : Nat → Bool}

def tryTime (nTimeTx : BitVec 32) (i : Nat) : BitVec 32 :=
  nTimeTx + BitVec.ofNat 32 nHashDrift - BitVec.ofNat 32 i

theorem tryTime_toNat {i : Nat} (hi : i < nHashDrift) (hno : nTimeTx.toNat + nHashDrift < 2 ^ 32) :
    (tryTime nTimeTx i).toNat = nTimeTx.toNat + (nHashDrift - i) := by
  simp only [tryTime, nHashDrift, BitVec.toNat_sub, BitVec.toNat_add, BitVec.toNat_ofNat] at *
  omega

variable {ssUniqueID : List UInt8}

theorem stakeRounds_some {nValueIn : CAmount} {m : BitVec 64}
    {bnTarget h : uint256} {rounds : List Nat}
    (hfound : stakeRounds N ssUniqueID nValueIn m bnTarget nTimeBlockFrom nTimeTx newBlock rounds =
      some (nTime, h)) :
    ∃ i ∈ rounds, nTime = tryTime nTimeTx i ∧
      CheckStake N.C ssUniqueID nValueIn m bnTarget nTimeBlockFrom nTime = true := by
  induction rounds with
  | nil => cases hfound
  | cons i rounds ih =>
    rw [stakeRounds] at hfound
    split at hfound
    · cases hfound
    · dsimp only at hfound
      split at hfound
      next hcheck =>
        cases hfound
        exact ⟨i, .head _, rfl, hcheck⟩
      next =>
        obtain ⟨j, hj, hrest⟩ := ih hfound
        exact ⟨j, List.mem_cons_of_mem i hj, hrest⟩

theorem stakeRounds_isSome {nValueIn : CAmount} {m : BitVec 64}
    {bnTarget : uint256} {rounds : List Nat} {i : Nat} (hi : i ∈ rounds)
    (hcheck : CheckStake N.C ssUniqueID nValueIn m bnTarget nTimeBlockFrom (tryTime nTimeTx i) =
      true) :
    (stakeRounds N ssUniqueID nValueIn m bnTarget nTimeBlockFrom nTimeTx (fun _ => false)
      rounds).isSome = true := by
  induction rounds with
  | nil => cases hi
  | cons j rounds ih =>
    rw [stakeRounds, if_neg Bool.false_ne_true]
    dsimp only
    split
    · rfl
    next hmiss =>
      obtain rfl | hrest := List.mem_cons.mp hi
      · exact absurd hcheck hmiss
      · exact ih hrest

theorem stake_succeeds_iff :
    (Stake N stake nBits nTimeBlockFrom nTimeTx (fun _ => false)).isSome = true ↔
      OldEnough nTimeBlockFrom nTimeTx ∧
        ∃ i < nHashDrift, MeetsTarget N stake nBits nTimeBlockFrom (tryTime nTimeTx i) := by
  rw [Stake]
  constructor
  · intro hsome
    split at hsome
    · cases hsome
    next htime =>
      split at hsome
      · cases hsome
      next hage =>
        split at hsome
        · cases hsome
        next m hm =>
          obtain ⟨⟨t, h⟩, hfound⟩ := isSome_iff_exists.mp hsome
          obtain ⟨i, hi, rfl, hcheck⟩ := stakeRounds_some hfound
          exact ⟨⟨htime, hage⟩, i, List.mem_range.mp hi, m, hm, hcheck⟩
  · rintro ⟨⟨htime, hage⟩, i, hi, m, hm, hcheck⟩
    rw [if_neg htime, if_neg hage, hm]
    exact stakeRounds_isSome (List.mem_range.mpr hi) hcheck

theorem stake_keeps_rules {h : uint256} (hno : nTimeTx.toNat + nHashDrift < 2 ^ 32)
    (hfound : Stake N stake nBits nTimeBlockFrom nTimeTx newBlock = some (nTime, h)) :
    StakingRules N stake nBits nTimeBlockFrom nTime := by
  rw [Stake] at hfound
  split at hfound
  · cases hfound
  next htime =>
    split at hfound
    · cases hfound
    next hage =>
      split at hfound
      · cases hfound
      next m hm =>
        obtain ⟨i, hi, rfl, hcheck⟩ := stakeRounds_some hfound
        have hlater := tryTime_toNat (List.mem_range.mp hi) hno
        refine ⟨⟨?_, ?_⟩, m, hm, hcheck⟩
        · intro hlt
          rw [BitVec.lt_def] at htime hlt
          omega
        · intro hgt
          rw [gt_iff_lt, BitVec.lt_def] at hage hgt
          omega

end

section
variable {N : StakeNode} {block : CStakeBlock} {hashProofOfStake : uint256} {stake : StakeInput}
  {pindex : KernelIndex}

/-- The time of a block as the kernel hashes it. -/
def CStakeBlock.kernelTime (block : CStakeBlock) : BitVec 32 := BitVec.ofInt 32 block.nTime

theorem checkProofOfStake_some
    (hacc : CheckProofOfStake N block = some (hashProofOfStake, stake)) :
    ∃ tx pindex m, block.vtx[1]? = some tx ∧ tx.IsCoinStake = true ∧ stakeOf N tx = some stake ∧
      stake.GetIndexFrom N = some pindex ∧ (N.ReadBlockFromDisk pindex).isSome = true ∧
      stake.GetModifier N = some m ∧
      CheckStake N.C stake.GetUniqueness stake.GetValue m (SetCompact block.nBits) pindex.nTime
        block.kernelTime = true := by
  rw [CheckProofOfStake] at hacc
  split at hacc
  · cases hacc
  next tx htx =>
    split at hacc
    · cases hacc
    next hcoin =>
      split at hacc
      · cases hacc
      next stake' hstake =>
        split at hacc
        · cases hacc
        next pindex hfrom =>
          split at hacc
          · cases hacc
          next nBlockFromTime hread =>
            split at hacc
            · cases hacc
            next m hm =>
              dsimp only at hacc
              split at hacc
              next hcheck =>
                cases hacc
                obtain rfl := N.stored pindex nBlockFromTime hread
                exact ⟨tx, pindex, m, htx, by simpa using hcoin, hstake, hfrom, by rw [hread]; rfl,
                  hm, hcheck⟩
              · cases hacc

theorem checkProofOfStake_iff {tx : CTransaction} {nBlockFromTime : BitVec 32}
    (htx : block.vtx[1]? = some tx) (hcoin : tx.IsCoinStake = true)
    (hstake : stakeOf N tx = some stake) (hfrom : stake.GetIndexFrom N = some pindex)
    (hread : N.ReadBlockFromDisk pindex = some nBlockFromTime) :
    (CheckProofOfStake N block).isSome = true ↔
      MeetsTarget N stake block.nBits pindex.nTime block.kernelTime := by
  constructor
  · intro hsome
    obtain ⟨⟨h, stake'⟩, hacc⟩ := isSome_iff_exists.mp hsome
    obtain ⟨tx', pindex', m, htx', -, hstake', hfrom', -, hm, hcheck⟩ := checkProofOfStake_some hacc
    obtain rfl := some.inj (htx.symm.trans htx')
    obtain rfl := some.inj (hstake.symm.trans hstake')
    obtain rfl := some.inj (hfrom.symm.trans hfrom')
    exact ⟨m, hm, hcheck⟩
  · rintro ⟨m, hm, hcheck⟩
    obtain rfl := N.stored pindex nBlockFromTime hread
    have hcheck' : CheckStake N.C stake.GetUniqueness stake.GetValue m (SetCompact block.nBits)
        pindex.nTime (BitVec.ofInt 32 block.nTime) = true := hcheck
    simp only [CheckProofOfStake, htx, hcoin, hstake, hfrom, hread, hm, hcheck', Bool.not_true,
      Bool.false_eq_true, if_false, if_true, isSome_some]

/-- **An accepted block keeps the producer's rules exactly when its time passes the
producer's two tests.**  With that the producer, reading the same stake, would have found
a kernel of its own from each time old enough of which the block's is a round; and
whatever it finds keeps the rules. -/
theorem accepted_keeps_rules_iff (N : StakeNode) (block : CStakeBlock) (hashProofOfStake : uint256)
    (stake : StakeInput) (pindex : KernelIndex)
    (hacc : CheckProofOfStake N block = some (hashProofOfStake, stake))
    (hfrom : stake.GetIndexFrom N = some pindex) :
    (StakingRules N stake block.nBits pindex.nTime block.kernelTime ↔
      OldEnough pindex.nTime block.kernelTime) ∧
    (∀ nTimeTx, OldEnough pindex.nTime nTimeTx →
      (∃ i < nHashDrift, block.kernelTime = tryTime nTimeTx i) →
      (Stake N stake block.nBits pindex.nTime nTimeTx (fun _ => false)).isSome = true) ∧
    ∀ (nTimeTx nTime : BitVec 32) (newBlock : Nat → Bool) (h : uint256),
      nTimeTx.toNat + nHashDrift < 2 ^ 32 →
      Stake N stake block.nBits pindex.nTime nTimeTx newBlock = some (nTime, h) →
      StakingRules N stake block.nBits pindex.nTime nTime := by
  obtain ⟨tx, pindex', m, -, -, -, hfrom', -, hm, hcheck⟩ := checkProofOfStake_some hacc
  obtain rfl := some.inj (hfrom.symm.trans hfrom')
  have hkernel : MeetsTarget N stake block.nBits pindex.nTime block.kernelTime := ⟨m, hm, hcheck⟩
  refine ⟨⟨fun hrules => hrules.age, fun hage => ⟨hage, hkernel⟩⟩, ?_, ?_⟩
  · rintro nTimeTx hage ⟨i, hi, htime⟩
    exact stake_succeeds_iff.mpr ⟨hage, i, hi, htime ▸ hkernel⟩
  · intro nTimeTx nTime newBlock h hno hfound
    exact stake_keeps_rules hno hfound

end

/-! ## A coin of forty minutes -/

/-- The coin is in the first block, and the second one is 2100 seconds later. -/
def stakedChain : CChain where
  vChain := [⟨100, 0, 1512000000, false, true, 0, 0⟩, ⟨101, 1, 1512000060, true, true, 1, 0⟩,
    ⟨102, 2, 1512002160, true, true, 2, 0⟩]
  heights := by
    intro i pindex h
    match i with
    | 0 | 1 | 2 => obtain rfl := some.inj h; rfl
    | _ + 3 => cases h

def stakedCoin : CTransaction := ⟨7, 1, [⟨⟨6, 0⟩, [], 0xFFFFFFFF⟩], [⟨100 * COIN, [0x51]⟩], 0⟩

/-- A node that has the coin; its script is `OP_TRUE`. -/
def stakedNode : StakeNode where
  P := mainParams
  C := quietCrypto
  Z := quietZerocoin
  chainActive := stakedChain
  mapBlockIndex h := stakedChain.vChain.find? fun pindex => pindex.hash == h
  GetTransaction h := if h = 7 then some (stakedCoin, 101) else none
  VerifyScript _ txin scriptPubKey := txin.scriptSig.isEmpty && scriptPubKey == [0x51]
  ReadBlockFromDisk pindex := some pindex.nTime
  stored _ _ h := (some.inj h).symm

/-- A block at `nTime` that stakes the coin. -/
def stakingBlock (nTime : Int) : CStakeBlock where
  hash := 103
  nVersion := 4
  hashPrevBlock := 102
  nTime := nTime
  vtx := [⟨8, 1, [.null], [.empty], 0⟩,
    ⟨9, 1, [⟨⟨7, 0⟩, [], 0xFFFFFFFF⟩], [.empty, ⟨100 * COIN, [0x51]⟩], 0⟩]
  vchBlockSig := []
  nBits := 0x1d00ffff
  nAccumulatorCheckpoint := 0

theorem hour_old_keeps_rules :
    StakingRules stakedNode (.vit stakedCoin 0) 0x1d00ffff 1512000060 1512003660 :=
  (accepted_keeps_rules_iff stakedNode (stakingBlock 1512003660) 0 (.vit stakedCoin 0)
    ⟨101, 1, 1512000060, true, true, 1, 0⟩ (by decide) (by decide)).1.mpr
    (by decide)

/-- Forty minutes after the coin's block the validator accepts it. -/
theorem young_coin_accepted :
    ¬ (∀ (N : StakeNode) (block : CStakeBlock) (hashProofOfStake : uint256) (stake : StakeInput)
      (pindex : KernelIndex), CheckProofOfStake N block = some (hashProofOfStake, stake) →
      stake.GetIndexFrom N = some pindex →
      StakingRules N stake block.nBits pindex.nTime block.kernelTime) := by
  intro hall
  have hrules := hall stakedNode (stakingBlock 1512002460) 0 (.vit stakedCoin 0)
    ⟨101, 1, 1512000060, true, true, 1, 0⟩ (by decide) (by decide)
  exact absurd hrules.age (by decide)

end Divitae
