/-
# `NextWork` — the target of the next block

`GetNextWorkRequired`.  Up to the last block of the proof of work phase the target is the mean of
the last 24, made longer or shorter with the time these took; behind it each block moves the
target of the block before by the time between the two.

    readBlock     one block of the loop over the last 24
    workTarget    the target from the mean and the time
    stakeTarget   the one from the last target and the last spacing

A target is multiplied by a signed count of seconds, of which the product takes the lower 32 bits.

    StakeFits   the product of the last target and the factor of the last spacing does not wrap
    capped      what becomes of its quotient (`stakeTarget_toNat`)
    meanTarget  the running mean of the last 24 targets
    MeanFits    its sums do not wrap, and the loop computes it (`mean_foldl`)
-/
import Divitae.CompactBits

namespace Divitae.NextWork

open List

open Ranking (GetCompact)

/-- What is read of a `CBlockIndex`. -/
structure WorkBlock where
  nTime : BitVec 32
  nBits : BitVec 32

def WorkBlock.GetBlockTime (b : WorkBlock) : Int := b.nTime.toNat

def WorkBlock.target (b : WorkBlock) : uint256 := SetCompact b.nBits

/-- `ProofOfWorkLimit`, which `CRegTestParams` overrides. -/
def ProofOfWorkLimit : Network → uint256
  | .MAIN | .TESTNET => ~~~(0 : uint256) >>> 15
  | .REGTEST => ~~~(0 : uint256) >>> 1

def TargetSpacing : Network → Int
  | .MAIN | .TESTNET => 1 * 45
  | .REGTEST => 1 * 60

/-- The height of the first block of a chain; its last one is the genesis block. -/
def nHeight (chain : List WorkBlock) : Int := chain.length - 1

def PastBlocksMin : Int := 24

/-- A target times a signed number: of that the operator takes 32 bits. -/
def mulTarget (bnTarget : uint256) (n : Int) : uint256 :=
  bnTarget * (BitVec.ofInt 32 n).setWidth 256

/-! ## Proof of stake -/

/-- `~uint256(0) >> 24` -/
def bnTargetLimit : uint256 := ~~~(0 : uint256) >>> 24

def nTargetSpacing : Int := 45

def nInterval : Int := 45 * 40 / nTargetSpacing

def lastSpacing : List WorkBlock → Int
  | b :: prev :: _ => b.GetBlockTime - prev.GetBlockTime
  | _ => 0

def nActualSpacing (spacing : Int) : Int := if spacing < 0 then 1 else spacing

/-- What the target is multiplied by. -/
def stakeFactor (spacing : Int) : Int :=
  (nInterval - 1) * nTargetSpacing + nActualSpacing spacing + nActualSpacing spacing

def stakeTarget (bnTarget : uint256) (spacing : Int) : uint256 :=
  let bnNew :=
    mulTarget bnTarget (stakeFactor spacing) / BitVec.ofInt 256 ((nInterval + 1) * nTargetSpacing)
  if bnNew ≤ 0 ∨ bnTargetLimit < bnNew then bnTargetLimit else bnNew

/-! ## Proof of work -/

structure WorkLoop where
  CountBlocks : Int
  PastDifficultyAverage : uint256
  PastDifficultyAveragePrev : uint256
  LastBlockTime : Int
  nActualTimespan : Int

def WorkLoop.start : WorkLoop := ⟨0, 0, 0, 0, 0⟩

/-- The sum in the loop. -/
def WorkLoop.sum (s : WorkLoop) (b : WorkBlock) : uint256 :=
  mulTarget s.PastDifficultyAveragePrev (s.CountBlocks + 1) + b.target

def readBlock (s : WorkLoop) (b : WorkBlock) : WorkLoop :=
  let CountBlocks := s.CountBlocks + 1
  let average :=
    if CountBlocks ≤ PastBlocksMin then
      if CountBlocks = 1 then b.target else s.sum b / BitVec.ofInt 256 (CountBlocks + 1)
    else s.PastDifficultyAverage
  { CountBlocks := CountBlocks
    PastDifficultyAverage := average
    PastDifficultyAveragePrev :=
      if CountBlocks ≤ PastBlocksMin then average else s.PastDifficultyAveragePrev
    LastBlockTime := b.GetBlockTime
    nActualTimespan :=
      if 0 < s.LastBlockTime then s.nActualTimespan + (s.LastBlockTime - b.GetBlockTime)
      else s.nActualTimespan }

/-- The loop, at its round `i`: down to the genesis block, or for 24 rounds. -/
def readBlocks : Nat → List WorkBlock → WorkLoop → WorkLoop
  | _, [], s => s
  | i, b :: prev, s =>
    if 0 < nHeight (b :: prev) then
      if 24 < i then s else readBlocks (i + 1) prev (readBlock s b)
    else s

/-- The time the blocks took, from a third to three times what it should be. -/
def clampTimespan (nTargetTimespan nActualTimespan : Int) : Int :=
  let nActualTimespan :=
    if nActualTimespan < nTargetTimespan.tdiv 3 then nTargetTimespan.tdiv 3 else nActualTimespan
  if nTargetTimespan * 3 < nActualTimespan then nTargetTimespan * 3 else nActualTimespan

def workTarget (network : Network) (s : WorkLoop) : uint256 :=
  let nTargetTimespan := s.CountBlocks * TargetSpacing network
  let bnNew :=
    mulTarget s.PastDifficultyAverage (clampTimespan nTargetTimespan s.nActualTimespan) /
      BitVec.ofInt 256 nTargetTimespan
  if ProofOfWorkLimit network < bnNew then ProofOfWorkLimit network else bnNew

/-- A chain is given from `pindexLast` on. -/
def GetNextWorkRequired (P : CChainParams) (chain : List WorkBlock) : BitVec 32 :=
  match chain with
  | [] => GetCompact (ProofOfWorkLimit P.networkID)
  | last :: _ =>
    if nHeight chain = 0 ∨ nHeight chain < PastBlocksMin then
      GetCompact (ProofOfWorkLimit P.networkID)
    else if P.nLastPOWBlock < nHeight chain then
      GetCompact (stakeTarget last.target (lastSpacing chain))
    else GetCompact (workTarget P.networkID (readBlocks 1 chain .start))

/-- The target that the bits are read as. -/
def nextTarget (P : CChainParams) (chain : List WorkBlock) : Nat :=
  (SetCompact (GetNextWorkRequired P chain)).toNat

/-! ## The limits -/

theorem bnTargetLimit_toNat : bnTargetLimit.toNat = 2 ^ 232 - 1 := by decide

def readLimit : Nat := Truncate.trunc 8 2 (2 ^ 232 - 1)

theorem readLimit_eq : readLimit = 2 ^ 232 - 2 ^ 216 := rfl

theorem limit_toNat (network : Network) : (ProofOfWorkLimit network).toNat =
    if network = .REGTEST then 2 ^ 255 - 1 else 2 ^ 241 - 1 := by
  cases network <;> decide

theorem nextTarget_bits {P : CChainParams} {chain : List WorkBlock} {bnNew : uint256}
    (h : GetNextWorkRequired P chain = GetCompact bnNew) :
    nextTarget P chain = Truncate.trunc 8 2 bnNew.toNat := by
  rw [nextTarget, h, roundTrip]

theorem mulTarget_toNat (t : uint256) (k : Nat) :
    (mulTarget t k).toNat = t.toNat * (k % 2 ^ 32) % 2 ^ 256 := by
  have hfactor : (BitVec.ofInt 32 (k : Int)).toNat = k % 2 ^ 32 := by
    rw [BitVec.toNat_ofInt]
    omega
  rw [mulTarget, BitVec.toNat_mul, BitVec.toNat_setWidth, hfactor,
    Nat.mod_eq_of_lt (show k % 2 ^ 32 < 2 ^ 256 by omega)]

variable {t : uint256}

theorem mulTarget_exact {k : Nat} (hk : k < 2 ^ 32) (h : t.toNat * k < 2 ^ 256) :
    (mulTarget t k).toNat = t.toNat * k := by
  rw [mulTarget_toNat, Nat.mod_eq_of_lt hk, Nat.mod_eq_of_lt h]

theorem fits_of_exact {k : Nat} (ht : 0 < t.toNat)
    (h : (mulTarget t k).toNat = t.toNat * k) : k < 2 ^ 32 ∧ t.toNat * k < 2 ^ 256 := by
  refine ⟨?_, h ▸ (mulTarget t k).isLt⟩
  by_contra hlarge
  have hless : k % 2 ^ 32 < k := lt_of_lt_of_le (Nat.mod_lt k (by decide)) (not_lt.mp hlarge)
  have hmul : t.toNat * (k % 2 ^ 32) < t.toNat * k := Nat.mul_lt_mul_of_pos_left hless ht
  have hle := Nat.mod_le (t.toNat * (k % 2 ^ 32)) (2 ^ 256)
  rw [mulTarget_toNat] at h
  omega

/-! ## Proof of stake -/

/-- What becomes of a target of this size. -/
def capped (x : Nat) : Nat := if x = 0 ∨ 2 ^ 232 - 1 < x then 2 ^ 232 - 1 else x

/-- The factor as a natural number. -/
def factor (spacing : Int) : Nat := (stakeFactor spacing).toNat

theorem stakeFactor_eq (spacing : Int) :
    stakeFactor spacing = 1755 + 2 * nActualSpacing spacing := by
  rw [stakeFactor, nInterval, nTargetSpacing]
  omega

theorem nActualSpacing_nonneg (spacing : Int) : 0 ≤ nActualSpacing spacing := by
  rw [nActualSpacing]
  split_ifs with h
  · exact Int.one_nonneg
  · exact not_lt.mp h

theorem factor_cast (spacing : Int) : (factor spacing : Int) = stakeFactor spacing := by
  have hnonneg := nActualSpacing_nonneg spacing
  rw [factor, stakeFactor_eq]
  omega

/-- No product wraps. -/
def StakeFits (t : Nat) (spacing : Int) : Prop :=
  factor spacing < 2 ^ 32 ∧ t * factor spacing < 2 ^ 256

theorem stakeTarget_toNat {spacing : Int} (h : StakeFits t.toNat spacing) :
    (stakeTarget t spacing).toNat = capped (t.toNat * factor spacing / 1845) := by
  have hdiv : (mulTarget t (stakeFactor spacing) /
      BitVec.ofInt 256 ((nInterval + 1) * nTargetSpacing)).toNat =
      t.toNat * factor spacing / 1845 := by
    rw [← factor_cast, BitVec.toNat_udiv, mulTarget_exact h.1 h.2]
    rfl
  rw [stakeTarget, capped, ← hdiv]
  generalize mulTarget t (stakeFactor spacing) /
    BitVec.ofInt 256 ((nInterval + 1) * nTargetSpacing) = bnNew
  have hnone : bnNew ≤ 0 ↔ bnNew.toNat = 0 := by
    rw [BitVec.le_def]
    exact Nat.le_zero
  have hmore : bnTargetLimit < bnNew ↔ 2 ^ 232 - 1 < bnNew.toNat := by
    rw [BitVec.lt_def, bnTargetLimit_toNat]
  rw [apply_ite BitVec.toNat, bnTargetLimit_toNat]
  exact if_congr (or_congr hnone hmore) rfl rfl

theorem capped_pos (x : Nat) : 0 < capped x := by
  rw [capped]
  split_ifs with h
  · decide
  · exact Nat.pos_of_ne_zero fun hx => h (.inl hx)

theorem capped_le (x : Nat) : capped x ≤ 2 ^ 232 - 1 := by
  rw [capped]
  split_ifs with h
  · exact le_refl _
  · exact not_lt.mp fun hx => h (.inr hx)

theorem capped_mono {x y : Nat} (hx : 0 < x) (h : x ≤ y) : capped x ≤ capped y := by
  by_cases hy : 2 ^ 232 - 1 < y
  · rw [capped.eq_def y, if_pos (Or.inr hy)]
    exact capped_le x
  · rw [capped, capped, if_neg fun hor => hor.elim hx.ne' fun hlt => hy (lt_of_lt_of_le hlt h),
      if_neg fun hor => hor.elim (lt_of_lt_of_le hx h).ne' hy]
    exact h

/-! ## Proof of work -/

/-- The mean of `k` targets is `m`, and more follow. -/
def meanFrom : Nat → Nat → List Nat → Nat
  | _, m, [] => m
  | k, m, t :: ts => meanFrom (k + 1) ((m * (k + 1) + t) / (k + 2)) ts

def SumsFit : Nat → Nat → List Nat → Prop
  | _, _, [] => True
  | k, m, t :: ts =>
    m * (k + 1) + t < 2 ^ 256 ∧ SumsFit (k + 1) ((m * (k + 1) + t) / (k + 2)) ts

/-- The time behind a block at `lastTime`; a block at time 0 does not count. -/
def spanFrom : Int → List WorkBlock → Int
  | _, [] => 0
  | lastTime, b :: blocks =>
    (if 0 < lastTime then lastTime - b.GetBlockTime else 0) + spanFrom b.GetBlockTime blocks

def pastBlocks (chain : List WorkBlock) : List WorkBlock := chain.dropLast.take 24

/-- The running mean of their targets, the newest first. -/
def meanTarget (chain : List WorkBlock) : Nat :=
  match pastBlocks chain with
  | [] => 0
  | b :: blocks => meanFrom 1 b.target.toNat (blocks.map fun b => b.target.toNat)

/-- The sums of that mean stay below `2 ^ 256`. -/
def MeanFits (chain : List WorkBlock) : Prop :=
  match pastBlocks chain with
  | [] => True
  | b :: blocks => SumsFit 1 b.target.toNat (blocks.map fun b => b.target.toNat)

/-- The time the blocks took, within its bounds. -/
def pastTimespan (network : Network) (chain : List WorkBlock) : Int :=
  clampTimespan (24 * TargetSpacing network) (spanFrom 0 (pastBlocks chain))

/-- The sum in the loop does not wrap. -/
def SumExact (s : WorkLoop) (b : WorkBlock) : Prop :=
  s.CountBlocks = 0 ∨ ((s.sum b).toNat : Int) =
    s.PastDifficultyAveragePrev.toNat * (s.CountBlocks + 1) + b.target.toNat

theorem readBlocks_eq (chain : List WorkBlock) (i : Nat) (s : WorkLoop) :
    readBlocks i chain s = (chain.dropLast.take (25 - i)).foldl readBlock s := by
  induction chain generalizing i s with
  | nil =>
    rw [readBlocks, dropLast_nil, take_nil]
    rfl
  | cons b prev ih =>
    rw [readBlocks]
    cases prev with
    | nil =>
      have hheight : ¬ 0 < nHeight [b] := by
        rw [nHeight]
        exact lt_irrefl 0
      rw [if_neg hheight, dropLast_singleton, take_nil]
      rfl
    | cons b' prev =>
      have hheight : 0 < nHeight (b :: b' :: prev) := by
        rw [nHeight, length_cons, length_cons]
        omega
      rw [if_pos hheight, dropLast_cons_cons]
      split_ifs with hlast
      · rw [Nat.sub_eq_zero_of_le (by omega), take_zero]
        rfl
      · rw [show 25 - i = (25 - (i + 1)) + 1 by omega, take_succ_cons, foldl_cons]
        exact ih (i + 1) (readBlock s b)

theorem timespan_foldl (blocks : List WorkBlock) (s : WorkLoop) :
    (blocks.foldl readBlock s).nActualTimespan =
      s.nActualTimespan + spanFrom s.LastBlockTime blocks := by
  induction blocks generalizing s with
  | nil => exact (add_zero _).symm
  | cons b blocks ih =>
    rw [foldl_cons, ih, spanFrom]
    show (if 0 < s.LastBlockTime then _ else _) + _ = _
    split_ifs
    · exact add_assoc _ _ _
    · rw [zero_add]
      rfl

theorem count_foldl (blocks : List WorkBlock) (s : WorkLoop) :
    (blocks.foldl readBlock s).CountBlocks = s.CountBlocks + blocks.length := by
  induction blocks generalizing s with
  | nil => exact (add_zero _).symm
  | cons b blocks ih =>
    rw [foldl_cons, ih, length_cons]
    show s.CountBlocks + 1 + _ = _
    push_cast
    ring

theorem sumExact_iff {s : WorkLoop} {b : WorkBlock} {k : Nat} (hk : 0 < k) (hmany : k < 24)
    (hcount : s.CountBlocks = k) :
    SumExact s b ↔ s.PastDifficultyAveragePrev.toNat * (k + 1) + b.target.toNat < 2 ^ 256 := by
  have hsum : (s.sum b).toNat =
      (s.PastDifficultyAveragePrev.toNat * (k + 1) + b.target.toNat) % 2 ^ 256 := by
    have hcast : s.CountBlocks + 1 = ((k + 1 : Nat) : Int) := by rw [hcount]; rfl
    rw [WorkLoop.sum, BitVec.toNat_add, hcast, mulTarget_toNat,
      Nat.mod_eq_of_lt (show k + 1 < 2 ^ 32 by omega), Nat.mod_add_mod]
  rw [SumExact, hcount, hsum]
  constructor
  · rintro (hzero | hexact)
    · omega
    · have hlt := Nat.mod_lt
        (s.PastDifficultyAveragePrev.toNat * (k + 1) + b.target.toNat) (Nat.two_pow_pos 256)
      have hnat : (s.PastDifficultyAveragePrev.toNat * (k + 1) + b.target.toNat) % 2 ^ 256 =
          s.PastDifficultyAveragePrev.toNat * (k + 1) + b.target.toNat := by
        exact_mod_cast hexact
      rw [← hnat]
      exact hlt
  · intro hlt
    rw [Nat.mod_eq_of_lt hlt]
    exact .inr (by push_cast; ring)

/-- **The loop over the last blocks computes their mean**, as long as no sum wraps. -/
theorem mean_foldl {blocks : List WorkBlock} {s : WorkLoop} {k : Nat} (hk : 0 < k)
    (hmany : k + blocks.length ≤ 24) (hcount : s.CountBlocks = k)
    (hsame : s.PastDifficultyAveragePrev = s.PastDifficultyAverage) :
    let targets := blocks.map fun b => b.target.toNat
    let m := s.PastDifficultyAverage.toNat
    (Run.Guarded readBlock SumExact s blocks ↔ SumsFit k m targets) ∧
      (SumsFit k m targets →
        (blocks.foldl readBlock s).PastDifficultyAverage.toNat = meanFrom k m targets) := by
  induction blocks generalizing s k with
  | nil => exact ⟨Iff.rfl, fun _ => rfl⟩
  | cons b blocks ih =>
    rw [length_cons] at hmany
    have hexact := @sumExact_iff s b k hk (by omega) hcount
    rw [hsame] at hexact
    have hnext : (readBlock s b).PastDifficultyAverage =
        s.sum b / BitVec.ofInt 256 (s.CountBlocks + 1 + 1) := by
      show (if s.CountBlocks + 1 ≤ PastBlocksMin then _ else _) = _
      rw [hcount, PastBlocksMin, if_pos (by omega), if_neg (by omega)]
    have hnextSame : (readBlock s b).PastDifficultyAveragePrev =
        (readBlock s b).PastDifficultyAverage := by
      simp only [readBlock]
      exact if_pos (by rw [hcount, PastBlocksMin]; omega)
    have hnextCount : (readBlock s b).CountBlocks = ((k + 1 : Nat) : Int) := by
      show s.CountBlocks + 1 = _
      rw [hcount]
      rfl
    obtain ⟨hguard, hmean⟩ := @ih (readBlock s b) (k + 1) k.succ_pos (by omega) hnextCount hnextSame
    -- the mean with this block, where the sum is exact
    have hvalue : SumExact s b → (readBlock s b).PastDifficultyAverage.toNat =
        (s.PastDifficultyAverage.toNat * (k + 1) + b.target.toNat) / (k + 2) := by
      rintro (hzero | hsum)
      · rw [hcount] at hzero
        omega
      · rw [hsame, hcount] at hsum
        have hnat : (s.sum b).toNat =
            s.PastDifficultyAverage.toNat * (k + 1) + b.target.toNat := by
          exact_mod_cast hsum
        have hdivisor : (BitVec.ofInt 256 (s.CountBlocks + 1 + 1)).toNat = k + 2 := by
          rw [hcount, BitVec.toNat_ofInt]
          omega
        rw [hnext, BitVec.toNat_udiv, hnat, hdivisor]
    dsimp only
    rw [map_cons, Run.guarded_cons, SumsFit, meanFrom, foldl_cons]
    constructor
    · constructor
      · rintro ⟨hsum, hrest⟩
        rw [← hvalue hsum]
        exact ⟨hexact.mp hsum, hguard.mp hrest⟩
      · rintro ⟨hsum, hrest⟩
        have hs := hexact.mpr hsum
        rw [← hvalue hs] at hrest
        exact ⟨hs, hguard.mpr hrest⟩
    · rintro ⟨hsum, hrest⟩
      have hs := hexact.mpr hsum
      rw [← hvalue hs] at hrest ⊢
      exact hmean hrest

end Divitae.NextWork
