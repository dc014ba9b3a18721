/-
# `NextTarget` — when the next target is right

For a chain whose targets are positive and within the limit of the network:

    WorkOk        the next target is positive and within the limit of its phase, and no product or
                  sum wraps
    NeverSmaller  a longer last spacing gives no smaller target
    WorkFits      when the source gets the first right, by the last targets and times
    OrderFits     when the second

The factor of the proof of stake phase is unbounded, so the product with the last target wraps once
the chain has stood still for long enough; in the other phase a mean of 1 or 2 can become 0, and
the limit of the regression test network leaves no room for the sums.  A negative spacing counts
as one second, which is more than none; and a target of 1 becomes 0 and then the limit.
-/
import Divitae.NextWork

namespace Divitae.NextWork

open List Truncate

open Ranking (GetCompact)

section
variable (P : CChainParams) (chain : List WorkBlock)

/-- The limit alone is given for the first blocks. -/
def Early : Prop := nHeight chain < PastBlocksMin

/-- The block behind the chain is in the proof of stake phase. -/
def Staked : Prop := ¬ Early chain ∧ P.nLastPOWBlock < nHeight chain

instance : Decidable (Early chain) := inferInstanceAs (Decidable (_ < _))

instance : Decidable (Staked P chain) := inferInstanceAs (Decidable (_ ∧ _))

def lastTarget : uint256 :=
  match chain with
  | [] => 0
  | b :: _ => b.target

def phaseLimit : Nat :=
  if Staked P chain then bnTargetLimit.toNat else (ProofOfWorkLimit P.networkID).toNat

/-- The sums and products are those of the numbers. -/
def NoWrap : Prop :=
  if Early chain then True
  else if Staked P chain then
    ((mulTarget (lastTarget chain) (stakeFactor (lastSpacing chain))).toNat : Int) =
      (lastTarget chain).toNat * stakeFactor (lastSpacing chain)
  else
    let s := (pastBlocks chain).foldl readBlock .start
    let n := clampTimespan (s.CountBlocks * TargetSpacing P.networkID) s.nActualTimespan
    Run.Guarded readBlock SumExact .start (pastBlocks chain) ∧
      ((mulTarget s.PastDifficultyAverage n).toNat : Int) = s.PastDifficultyAverage.toNat * n

structure WorkOk : Prop where
  positive : 0 < nextTarget P chain
  within : nextTarget P chain ≤ phaseLimit P chain
  noWrap : NoWrap P chain

/-- Of two chains that differ in the last spacing, the longer one has no smaller target. -/
def NeverSmaller (chain' : List WorkBlock) : Prop :=
  Staked P chain → lastSpacing chain ≤ lastSpacing chain' → nextTarget P chain ≤ nextTarget P chain'

def WorkFits : Prop :=
  if Early chain then True
  else if Staked P chain then StakeFits (lastTarget chain).toNat (lastSpacing chain)
  else
    24 * TargetSpacing P.networkID ≤ meanTarget chain * pastTimespan P.networkID chain ∧
      (P.networkID = .REGTEST → MeanFits chain ∧
        meanTarget chain * pastTimespan P.networkID chain < 2 ^ 256)

/-- For a last target `t` and two spacings. -/
structure SpacingsFit (t : Nat) (spacing spacing' : Int) : Prop where
  one : t = 1 → 45 ≤ spacing' → 45 ≤ spacing
  negative : spacing < 0 → spacing' = 0 →
    min (t * 1757 / 1845) readLimit = min (t * 1755 / 1845) readLimit

def OrderFits (chain' : List WorkBlock) : Prop :=
  Staked P chain → lastSpacing chain ≤ lastSpacing chain' →
    SpacingsFit (lastTarget chain).toNat (lastSpacing chain) (lastSpacing chain')

end

/-! ## The phases -/

section
variable {P : CChainParams} {chain : List WorkBlock}

theorem GetNextWorkRequired_early (h : Early chain) :
    GetNextWorkRequired P chain = GetCompact (ProofOfWorkLimit P.networkID) := by
  cases chain with
  | nil => rfl
  | cons b prev =>
    exact if_pos (.inr h)

theorem GetNextWorkRequired_late (h : ¬ Early chain) :
    GetNextWorkRequired P chain =
      if P.nLastPOWBlock < nHeight chain then
        GetCompact (stakeTarget (lastTarget chain) (lastSpacing chain))
      else GetCompact (workTarget P.networkID (readBlocks 1 chain .start)) := by
  cases chain with
  | nil => exact absurd (show nHeight [] < PastBlocksMin by decide) h
  | cons b prev =>
    have hlate : ¬ (nHeight (b :: prev) = 0 ∨ nHeight (b :: prev) < PastBlocksMin) := by
      rintro (hzero | hearly)
      · exact h (show nHeight (b :: prev) < PastBlocksMin by rw [hzero]; decide)
      · exact h hearly
    rw [GetNextWorkRequired, if_neg hlate]
    rfl

theorem nextTarget_early (h : Early chain) :
    nextTarget P chain = trunc 8 2 (ProofOfWorkLimit P.networkID).toNat :=
  nextTarget_bits (GetNextWorkRequired_early h)

theorem nextTarget_staked (h : Staked P chain)
    (hfits : StakeFits (lastTarget chain).toNat (lastSpacing chain)) :
    nextTarget P chain = trunc 8 2
      (capped ((lastTarget chain).toNat * factor (lastSpacing chain) / 1845)) := by
  rw [← stakeTarget_toNat hfits]
  exact nextTarget_bits ((GetNextWorkRequired_late h.1).trans (if_pos h.2))

theorem nextTarget_worked (hearly : ¬ Early chain) (hstaked : ¬ Staked P chain) :
    nextTarget P chain = trunc 8 2
      (workTarget P.networkID ((pastBlocks chain).foldl readBlock .start)).toNat := by
  have hwork : ¬ P.nLastPOWBlock < nHeight chain := fun h => hstaked ⟨hearly, h⟩
  rw [pastBlocks, ← readBlocks_eq chain 1 .start]
  exact nextTarget_bits ((GetNextWorkRequired_late hearly).trans (if_neg hwork))

theorem trunc_pos {n : Nat} (h : 0 < n) : 0 < trunc 8 2 n :=
  Truncate.trunc_pos (by decide) (by decide) h

/-- **The first blocks.** -/
theorem workOk_early (h : Early chain) : WorkOk P chain := by
  refine ⟨?_, ?_, ?_⟩
  · rw [nextTarget_early h, limit_toNat]
    exact trunc_pos (by split_ifs <;> decide)
  · rw [nextTarget_early h, phaseLimit, if_neg fun hs => hs.1 h]
    exact trunc_le
  · rw [NoWrap, if_pos h]
    exact trivial

/-- **The proof of stake phase.** -/
theorem workOk_staked (h : Staked P chain) (ht : 0 < (lastTarget chain).toNat) :
    WorkOk P chain ↔ StakeFits (lastTarget chain).toNat (lastSpacing chain) := by
  constructor
  · intro hok
    have hexact := hok.noWrap
    rw [NoWrap, if_neg h.1, if_pos h, ← factor_cast] at hexact
    exact fits_of_exact ht (by exact_mod_cast hexact)
  · intro hfits
    refine ⟨?_, ?_, ?_⟩
    · rw [nextTarget_staked h hfits]
      exact trunc_pos (capped_pos _)
    · rw [nextTarget_staked h hfits, phaseLimit, if_pos h, bnTargetLimit_toNat]
      exact le_trans trunc_le (capped_le _)
    · rw [NoWrap, if_neg h.1, if_pos h, ← factor_cast, mulTarget_exact hfits.1 hfits.2,
        Nat.cast_mul]

/-! ## The proof of work phase -/

theorem pastBlocks_length (h : ¬ Early chain) : (pastBlocks chain).length = 24 := by
  have hheight : 24 ≤ nHeight chain := not_lt.mp h
  rw [nHeight] at hheight
  rw [pastBlocks, length_take, length_dropLast]
  omega

theorem mem_of_pastBlocks {b : WorkBlock} (h : b ∈ pastBlocks chain) : b ∈ chain :=
  dropLast_subset chain (mem_of_mem_take h)

theorem loop_end (h : ¬ Early chain) :
    let s := (pastBlocks chain).foldl readBlock .start
    (Run.Guarded readBlock SumExact .start (pastBlocks chain) ↔ MeanFits chain) ∧
      (MeanFits chain → s.PastDifficultyAverage.toNat = meanTarget chain) ∧
      s.CountBlocks = 24 ∧ s.nActualTimespan = spanFrom 0 (pastBlocks chain) := by
  have hlength := pastBlocks_length h
  have hcount := count_foldl (pastBlocks chain) .start
  have hspan := timespan_foldl (pastBlocks chain) .start
  rw [hlength] at hcount
  rw [MeanFits, meanTarget]
  cases hpast : pastBlocks chain with
  | nil =>
    rw [hpast] at hlength
    exact nomatch hlength
  | cons b blocks =>
    rw [hpast] at hcount hspan hlength
    obtain ⟨hguard, hmean⟩ := @mean_foldl blocks (readBlock .start b) 1 Nat.one_pos
      (by rw [length_cons] at hlength; omega) rfl rfl
    refine ⟨?_, hmean, hcount, hspan.trans (zero_add _)⟩
    rw [Run.guarded_cons]
    exact (and_iff_right (.inl rfl)).trans hguard

theorem sumsFit_of_le {limit : Nat} (hlimit : limit * 25 < 2 ^ 256) {targets : List Nat}
    {k m : Nat} (hmany : k + targets.length ≤ 24) (hm : m ≤ limit)
    (htargets : ∀ t ∈ targets, t ≤ limit) :
    SumsFit k m targets ∧ meanFrom k m targets ≤ limit := by
  induction targets generalizing k m with
  | nil => exact ⟨trivial, hm⟩
  | cons t targets ih =>
    rw [length_cons] at hmany
    have hsum : m * (k + 1) + t ≤ limit * (k + 2) := by
      have hmul := Nat.mul_le_mul_right (k + 1) hm
      have hlast := htargets t mem_cons_self
      rw [show k + 2 = (k + 1) + 1 from rfl, Nat.mul_succ]
      exact Nat.add_le_add hmul hlast
    have hroom : limit * (k + 2) ≤ limit * 25 := Nat.mul_le_mul_left limit (by omega)
    have hnext : (m * (k + 1) + t) / (k + 2) ≤ limit :=
      Nat.div_le_of_le_mul (by rw [Nat.mul_comm (k + 2)]; exact hsum)
    obtain ⟨hfits, hmean⟩ := @ih (k + 1) _ (by omega) hnext
      fun t' ht' => htargets t' (mem_cons_of_mem t ht')
    exact ⟨⟨lt_of_le_of_lt hsum (lt_of_le_of_lt hroom hlimit), hfits⟩, hmean⟩

theorem clampTimespan_bounds {least most span : Int} (hleast : most.tdiv 3 = least)
    (hle : least ≤ most * 3) :
    least ≤ clampTimespan most span ∧ clampTimespan most span ≤ most * 3 := by
  rw [clampTimespan, hleast]
  split_ifs <;> omega

theorem pastTimespan_bounds (network : Network) (chain : List WorkBlock) :
    0 ≤ pastTimespan network chain ∧ pastTimespan network chain ≤ 4320 := by
  cases network with
  | MAIN | TESTNET =>
    obtain ⟨hleast, hmost⟩ := @clampTimespan_bounds 360 (24 * TargetSpacing .MAIN)
      (spanFrom 0 (pastBlocks chain)) rfl (by decide)
    exact ⟨le_trans (by decide) hleast, le_trans hmost (by decide)⟩
  | REGTEST =>
    obtain ⟨hleast, hmost⟩ := @clampTimespan_bounds 480 (24 * TargetSpacing .REGTEST)
      (spanFrom 0 (pastBlocks chain)) rfl (by decide)
    exact ⟨le_trans (by decide) hleast, le_trans hmost (by decide)⟩

theorem meanFits_of_limit (hnetwork : P.networkID ≠ .REGTEST)
    (hchain : ∀ b ∈ chain, b.target.toNat ≤ (ProofOfWorkLimit P.networkID).toNat)
    (h : ¬ Early chain) :
    MeanFits chain ∧ meanTarget chain * pastTimespan P.networkID chain < 2 ^ 256 := by
  have hlength := pastBlocks_length h
  have hpast : ∀ b ∈ pastBlocks chain, b.target.toNat ≤ 2 ^ 241 - 1 := by
    intro b hb
    have hle := hchain b (mem_of_pastBlocks hb)
    rwa [limit_toNat, if_neg hnetwork] at hle
  have hmean : MeanFits chain ∧ meanTarget chain ≤ 2 ^ 241 - 1 := by
    rw [MeanFits, meanTarget]
    cases hblocks : pastBlocks chain with
    | nil => exact ⟨trivial, Nat.zero_le _⟩
    | cons b blocks =>
      rw [hblocks] at hpast hlength
      refine sumsFit_of_le (by decide) ?_ (hpast b mem_cons_self) fun t ht => ?_
      · rw [length_map]
        rw [length_cons] at hlength
        omega
      · obtain ⟨b', hb', rfl⟩ := mem_map.mp ht
        exact hpast b' (mem_cons_of_mem b hb')
  obtain ⟨hnonneg, hmost⟩ := pastTimespan_bounds P.networkID chain
  refine ⟨hmean.1, ?_⟩
  have hcast : (meanTarget chain : Int) ≤ ((2 ^ 241 - 1 : Nat) : Int) := Int.ofNat_le.mpr hmean.2
  calc (meanTarget chain : Int) * pastTimespan P.networkID chain
      ≤ ((2 ^ 241 - 1 : Nat) : Int) * 4320 := mul_le_mul hcast hmost hnonneg (by decide)
    _ < 2 ^ 256 := by decide

theorem workTarget_toNat {network : Network} {s : WorkLoop} {n d : Nat} (hd : 0 < d)
    (hd' : d < 2 ^ 256) (htimespan : s.CountBlocks * TargetSpacing network = d)
    (hn : clampTimespan d s.nActualTimespan = n)
    (hexact : (mulTarget s.PastDifficultyAverage n).toNat = s.PastDifficultyAverage.toNat * n) :
    (workTarget network s).toNat =
      min (s.PastDifficultyAverage.toNat * n / d) (ProofOfWorkLimit network).toNat := by
  have hdiv : (mulTarget s.PastDifficultyAverage n / BitVec.ofInt 256 d).toNat =
      s.PastDifficultyAverage.toNat * n / d := by
    have hdivisor : (BitVec.ofInt 256 (d : Int)).toNat = d := by
      rw [BitVec.toNat_ofInt]
      omega
    rw [BitVec.toNat_udiv, hexact, hdivisor]
  rw [workTarget, htimespan, hn, ← hdiv]
  generalize mulTarget s.PastDifficultyAverage n / BitVec.ofInt 256 (d : Int) = bnNew
  rw [apply_ite BitVec.toNat]
  split_ifs with h
  · exact (min_eq_right (BitVec.lt_def.mp h).le).symm
  · exact (min_eq_left (not_lt.mp fun hlt => h (BitVec.lt_def.mpr hlt))).symm

theorem workOk_worked (hearly : ¬ Early chain) (hstaked : ¬ Staked P chain)
    (hchain : ∀ b ∈ chain, b.target.toNat ≤ (ProofOfWorkLimit P.networkID).toNat) :
    WorkOk P chain ↔
      24 * TargetSpacing P.networkID ≤ meanTarget chain * pastTimespan P.networkID chain ∧
        (P.networkID = .REGTEST → MeanFits chain ∧
          meanTarget chain * pastTimespan P.networkID chain < 2 ^ 256) := by
  obtain ⟨hguard, hmean, hcount, hspan⟩ := loop_end hearly
  obtain ⟨hnonneg, hmost⟩ := pastTimespan_bounds P.networkID chain
  have hclamp : clampTimespan (24 * TargetSpacing P.networkID)
      ((pastBlocks chain).foldl readBlock .start).nActualTimespan =
      pastTimespan P.networkID chain := by
    rw [hspan, pastTimespan]
  have hnext := @nextTarget_worked P chain hearly hstaked
  have hnoWrap : NoWrap P chain ↔ MeanFits chain ∧
      ((mulTarget ((pastBlocks chain).foldl readBlock .start).PastDifficultyAverage
        (pastTimespan P.networkID chain)).toNat : Int) =
        ((pastBlocks chain).foldl readBlock .start).PastDifficultyAverage.toNat *
          pastTimespan P.networkID chain := by
    rw [NoWrap, if_neg hearly, if_neg hstaked]
    dsimp only
    rw [hguard, hcount, hclamp]
  obtain ⟨d, hd⟩ : ∃ d : Nat, 24 * TargetSpacing P.networkID = d ∧ 0 < d ∧ d < 2 ^ 256 := by
    cases P.networkID
    · exact ⟨1080, rfl, by decide, by decide⟩
    · exact ⟨1080, rfl, by decide, by decide⟩
    · exact ⟨1440, rfl, by decide, by decide⟩
  obtain ⟨hd, hd0, hd1⟩ := hd
  obtain ⟨n, hn⟩ := Int.eq_ofNat_of_zero_le hnonneg
  rw [hn] at hnoWrap hclamp hmost ⊢
  rw [hd] at hclamp ⊢
  have hnat : n ≤ 4320 := by exact_mod_cast hmost
  -- with exact sums and an exact product the target is the quotient, up to the limit
  have hvalue : MeanFits chain → meanTarget chain * n < 2 ^ 256 →
      NoWrap P chain ∧ nextTarget P chain = trunc 8 2
        (min (meanTarget chain * n / d) (ProofOfWorkLimit P.networkID).toNat) := by
    intro hfits hroom
    have hsame := hmean hfits
    have hexact := @mulTarget_exact
      ((pastBlocks chain).foldl readBlock .start).PastDifficultyAverage n (by omega)
      (hsame.symm ▸ hroom)
    refine ⟨hnoWrap.mpr ⟨hfits, ?_⟩, ?_⟩
    · rw [hexact, Nat.cast_mul]
    · rw [hnext, workTarget_toNat hd0 hd1 (by rw [hcount, hd]) hclamp hexact, hsame]
  constructor
  · intro hok
    obtain ⟨hfits, hproduct⟩ := hnoWrap.mp hok.noWrap
    have hroom : meanTarget chain * n < 2 ^ 256 := by
      rw [← hmean hfits]
      have hlt := (mulTarget ((pastBlocks chain).foldl readBlock .start).PastDifficultyAverage
        n).isLt
      have hnat' : (mulTarget ((pastBlocks chain).foldl readBlock .start).PastDifficultyAverage
          n).toNat =
          ((pastBlocks chain).foldl readBlock .start).PastDifficultyAverage.toNat * n := by
        exact_mod_cast hproduct
      rwa [← hnat']
    refine ⟨?_, fun _ => ⟨hfits, by exact_mod_cast hroom⟩⟩
    have hpositive := hok.positive
    rw [(hvalue hfits hroom).2] at hpositive
    have hquotient : 0 < meanTarget chain * n / d :=
      lt_of_lt_of_le hpositive (le_trans trunc_le (min_le_left _ _))
    exact_mod_cast (Nat.div_pos_iff.mp hquotient).2
  · rintro ⟨hlarge, hregtest⟩
    have hroom : MeanFits chain ∧ meanTarget chain * n < 2 ^ 256 := by
      by_cases hnetwork : P.networkID = .REGTEST
      · obtain ⟨hfits, hroom⟩ := hregtest hnetwork
        exact ⟨hfits, by exact_mod_cast hroom⟩
      · obtain ⟨hfits, hroom⟩ := meanFits_of_limit hnetwork hchain hearly
        rw [hn] at hroom
        exact ⟨hfits, by exact_mod_cast hroom⟩
    obtain ⟨hwrap, htarget⟩ := hvalue hroom.1 hroom.2
    have hquotient : 0 < meanTarget chain * n / d := Nat.div_pos (by exact_mod_cast hlarge) hd0
    refine ⟨?_, ?_, hwrap⟩
    · rw [htarget]
      refine trunc_pos (lt_min hquotient ?_)
      rw [limit_toNat]
      split_ifs <;> decide
    · rw [htarget, phaseLimit, if_neg hstaked]
      exact le_trans trunc_le (min_le_right _ _)

/-- **A target is right exactly where the numbers fit.** -/
theorem workOk_iff (hchain : ∀ b ∈ chain, 0 < b.target.toNat ∧
    b.target.toNat ≤ (ProofOfWorkLimit P.networkID).toNat) : WorkOk P chain ↔ WorkFits P chain := by
  rw [WorkFits]
  split_ifs with hearly hstaked
  · exact iff_of_true (workOk_early hearly) trivial
  · refine workOk_staked hstaked ?_
    cases chain with
    | nil => exact absurd (show nHeight [] < PastBlocksMin by decide) hearly
    | cons b prev => exact (hchain b mem_cons_self).1
  · exact workOk_worked hearly hstaked fun b hb => (hchain b hb).2

end

/-! ## The order of the targets -/

section
variable {t : Nat} {spacing spacing' : Int}

theorem factor_of_neg (h : spacing < 0) : factor spacing = 1757 := by
  rw [factor, stakeFactor_eq, nActualSpacing, if_pos h]
  rfl

theorem factor_of_nonneg (h : 0 ≤ spacing) : factor spacing = 1755 + 2 * spacing.toNat := by
  rw [factor, stakeFactor_eq, nActualSpacing, if_neg (not_lt.mpr h)]
  omega

theorem factor_ge (spacing : Int) : 1755 ≤ factor spacing := by
  rcases lt_or_ge spacing 0 with h | h
  · rw [factor_of_neg h]
    decide
  · rw [factor_of_nonneg h]
    exact Nat.le_add_right _ _

theorem factor_lt_iff : factor spacing < 1845 ↔ spacing < 45 := by
  rcases lt_or_ge spacing 0 with h | h
  · rw [factor_of_neg h]
    omega
  · rw [factor_of_nonneg h]
    omega

theorem factor_mono (h : spacing ≤ spacing') (hneg : spacing < 0 → spacing' ≠ 0) :
    factor spacing ≤ factor spacing' := by
  rcases lt_or_ge spacing 0 with hs | hs
  · rcases lt_or_ge spacing' 0 with hs' | hs'
    · rw [factor_of_neg hs, factor_of_neg hs']
    · have hne := hneg hs
      rw [factor_of_neg hs, factor_of_nonneg hs']
      omega
  · rw [factor_of_nonneg hs, factor_of_nonneg (le_trans hs h)]
    omega

theorem trunc_mono {m n : Nat} (h : m ≤ n) : trunc 8 2 m ≤ trunc 8 2 n :=
  Truncate.trunc_mono (by decide) (by decide) h

theorem trunc_readLimit : trunc 8 2 readLimit = readLimit := by
  rw [readLimit_eq]
  rfl

theorem trunc_capped {x : Nat} (hx : 0 < x) :
    trunc 8 2 (capped x) = trunc 8 2 (min x readLimit) := by
  rcases Nat.lt_or_ge x readLimit with hless | hmore
  · have hlow : x ≤ 2 ^ 232 - 1 := le_trans hless.le (by rw [readLimit_eq]; decide)
    rw [capped, if_neg fun h => h.elim hx.ne' (not_lt.mpr hlow), min_eq_left hless.le]
  · rw [min_eq_right hmore, trunc_readLimit]
    refine le_antisymm (trunc_mono (capped_le x)) ?_
    rw [← trunc_readLimit]
    refine trunc_mono ?_
    rw [capped]
    split_ifs
    · rw [readLimit_eq]
      decide
    · exact hmore

theorem lt_trunc_of_lt (h : t * 1755 / 1845 < t * 1757 / 1845) :
    t * 1755 / 1845 < trunc 8 2 (t * 1757 / 1845) := by
  have hhigh := Nat.lt_mul_div_succ (t * 1757) (show 0 < 1845 by decide)
  have hlow := Nat.mul_div_le (t * 1755) 1845
  have hmost := Nat.mul_div_le (t * 1757) 1845
  obtain ⟨x, hx⟩ : ∃ x, x = t * 1757 / 1845 := ⟨_, rfl⟩
  obtain ⟨y, hy⟩ : ∃ y, y = t * 1755 / 1845 := ⟨_, rfl⟩
  rw [← hx] at h hhigh hmost ⊢
  rw [← hy] at h hlow ⊢
  rcases Nat.lt_or_ge 2 (x.size / 8) with hlong | hshort
  · have hunit := @Truncate.unit_mul_le 8 2 x (by decide) (by decide) hlong
    have hcut := @Truncate.lt_trunc_add 8 2 x
    have hbyte : 2 ^ 8 ≤ 2 ^ (8 * lost 8 2 x) :=
      Nat.pow_le_pow_right (by decide) (by rw [lost]; omega)
    generalize 2 ^ (8 * lost 8 2 x) = unit at hunit hcut hbyte
    omega
  · rw [trunc_of_size hshort]
    exact h

/-- **The order is kept exactly where the spacings fit.** -/
theorem order_iff (ht : 0 < t) (hle : spacing ≤ spacing') (hfactor : factor spacing' < 2 ^ 32) :
    trunc 8 2 (capped (t * factor spacing / 1845)) ≤
        trunc 8 2 (capped (t * factor spacing' / 1845)) ↔
      SpacingsFit t spacing spacing' := by
  have hzero : ∀ spacing, t * factor spacing / 1845 = 0 → t = 1 ∧ spacing < 45 := by
    intro spacing hquotient
    have hless : t * factor spacing < 1845 := (Nat.div_eq_zero_iff_lt (by decide)).mp hquotient
    have hge := Nat.mul_le_mul_left t (factor_ge spacing)
    obtain rfl : t = 1 := by omega
    rw [one_mul] at hless
    exact ⟨rfl, factor_lt_iff.mp hless⟩
  constructor
  · intro horder
    constructor
    · -- a target of 1 becomes the limit for the shorter spacing only
      rintro rfl hlong
      by_contra hshort
      have hnone : 1 * factor spacing / 1845 = 0 := by
        rw [one_mul]
        exact Nat.div_eq_of_lt (factor_lt_iff.mpr (not_le.mp hshort))
      have hsome : 0 < 1 * factor spacing' / 1845 := by
        rw [one_mul]
        exact Nat.div_pos (not_lt.mp fun h => not_le.mpr (factor_lt_iff.mp h) hlong) (by decide)
      have hsmall : 1 * factor spacing' / 1845 < 2 ^ 32 :=
        lt_of_le_of_lt (Nat.div_le_self _ _) (by rwa [one_mul])
      rw [hnone, trunc_capped hsome] at horder
      have hlimit : trunc 8 2 (capped 0) = readLimit := rfl
      have hmin := le_trans (@Truncate.trunc_le 8 2 _)
        (min_le_left (1 * factor spacing' / 1845) readLimit)
      have hbound : readLimit < 2 ^ 32 := lt_of_le_of_lt (hlimit ▸ le_trans horder hmin) hsmall
      rw [readLimit_eq] at hbound
      exact absurd hbound (by decide)
    · rintro hneg rfl
      rw [factor_of_neg hneg, factor_of_nonneg (le_refl 0)] at horder
      have hquotient : t * 1755 / 1845 ≤ t * 1757 / 1845 :=
        Nat.div_le_div_right (Nat.mul_le_mul_left t (by decide))
      by_contra hdiffer
      have hless : t * 1755 / 1845 < t * 1757 / 1845 :=
        lt_of_le_of_ne hquotient fun heq => hdiffer (by rw [heq])
      have hcut := lt_trunc_of_lt hless
      have hroom : t * 1755 / 1845 < readLimit := by
        by_contra hmore
        have hmore := not_lt.mp hmore
        exact hdiffer (by rw [min_eq_right hmore, min_eq_right (le_trans hmore hquotient)])
      have hpos : 0 < t * 1755 / 1845 := by
        refine Nat.pos_of_ne_zero fun hnone => ?_
        obtain ⟨rfl, -⟩ := hzero 0 (by rw [factor_of_nonneg (le_refl 0)]; exact hnone)
        exact absurd hless (by decide)
      rw [trunc_capped (lt_trans hpos hless), show 1755 + 2 * (0 : Int).toNat = 1755 from rfl,
        trunc_capped hpos, min_eq_left hroom.le] at horder
      have hlow := le_trans horder trunc_le
      rcases le_total (t * 1757 / 1845) readLimit with hx | hx
      · rw [min_eq_left hx] at hlow
        exact not_lt.mpr hlow hcut
      · rw [min_eq_right hx, trunc_readLimit] at hlow
        exact not_lt.mpr hlow hroom
  · rintro ⟨hone, hnegative⟩
    by_cases hcross : spacing < 0 ∧ spacing' = 0
    · obtain ⟨hneg, rfl⟩ := hcross
      have hmin := hnegative hneg rfl
      rw [factor_of_neg hneg, factor_of_nonneg (le_refl 0)]
      show trunc 8 2 (capped (t * 1757 / 1845)) ≤ trunc 8 2 (capped (t * 1755 / 1845))
      have hlimit : 0 < readLimit := by
        rw [readLimit_eq]
        decide
      have hboth : 0 < t * 1757 / 1845 ↔ 0 < t * 1755 / 1845 := by
        constructor
        · intro h
          exact lt_of_lt_of_le (hmin ▸ lt_min h hlimit) (min_le_left _ _)
        · intro h
          exact lt_of_lt_of_le (hmin.symm ▸ lt_min h hlimit) (min_le_left _ _)
      rcases Nat.eq_zero_or_pos (t * 1755 / 1845) with hnone | hpos
      · have hnone' : t * 1757 / 1845 = 0 :=
          Nat.eq_zero_of_not_pos fun h => (hboth.mp h).ne' hnone
        rw [hnone, hnone']
      · rw [trunc_capped hpos, trunc_capped (hboth.mpr hpos), hmin]
    · have hfactors : factor spacing ≤ factor spacing' :=
        factor_mono hle fun hneg hnone => hcross ⟨hneg, hnone⟩
      have hquotient : t * factor spacing / 1845 ≤ t * factor spacing' / 1845 :=
        Nat.div_le_div_right (Nat.mul_le_mul_left t hfactors)
      rcases Nat.eq_zero_or_pos (t * factor spacing / 1845) with hnone | hpos
      · obtain ⟨rfl, hshort⟩ := hzero spacing hnone
        have hshort' : spacing' < 45 := not_le.mp fun h => not_le.mpr hshort (hone rfl h)
        have hnone' : 1 * factor spacing' / 1845 = 0 := by
          rw [one_mul]
          exact Nat.div_eq_of_lt (factor_lt_iff.mpr hshort')
        rw [hnone, hnone']
      · exact trunc_mono (capped_mono hpos hquotient)

end

/-! ## Another time of the last block -/

/-- The chain with its last block at this time. -/
def lastAt (nTime : BitVec 32) : List WorkBlock → List WorkBlock
  | [] => []
  | b :: prev => { b with nTime := nTime } :: prev

section
variable {P : CChainParams} {chain : List WorkBlock} {nTime : BitVec 32}

theorem lastAt_same : nHeight (lastAt nTime chain) = nHeight chain ∧
    lastTarget (lastAt nTime chain) = lastTarget chain := by
  cases chain <;> exact ⟨rfl, rfl⟩

theorem staked_lastAt : Staked P (lastAt nTime chain) ↔ Staked P chain := by
  rw [Staked, Staked, Early, Early, lastAt_same.1]

theorem targets_lastAt {ok : uint256 → Prop} (h : ∀ b ∈ chain, ok b.target) :
    ∀ b ∈ lastAt nTime chain, ok b.target := by
  cases chain with
  | nil => exact h
  | cons b prev =>
    intro b' hb'
    rcases mem_cons.mp hb' with rfl | hprev
    · exact h b mem_cons_self
    · exact h b' (mem_cons_of_mem b hprev)

/-- **When `GetNextWorkRequired` is right**, of a chain and the same with another last time. -/
theorem GetNextWorkRequired_iff (P : CChainParams) (chain : List WorkBlock) (nTime : BitVec 32)
    (hchain : ∀ b ∈ chain, 0 < b.target.toNat ∧
      b.target.toNat ≤ (ProofOfWorkLimit P.networkID).toNat) :
    (WorkOk P chain ∧ WorkOk P (lastAt nTime chain) ∧
        NeverSmaller P chain (lastAt nTime chain)) ↔
      WorkFits P chain ∧ WorkFits P (lastAt nTime chain) ∧
        OrderFits P chain (lastAt nTime chain) := by
  have hchain' : ∀ b ∈ lastAt nTime chain, 0 < b.target.toNat ∧
      b.target.toNat ≤ (ProofOfWorkLimit P.networkID).toNat :=
    @targets_lastAt chain nTime (fun t => 0 < t.toNat ∧
      t.toNat ≤ (ProofOfWorkLimit P.networkID).toNat) hchain
  rw [workOk_iff hchain, workOk_iff hchain']
  refine and_congr_right fun hfits => and_congr_right fun hfits' => ?_
  refine forall_congr' fun hstaked => forall_congr' fun hle => ?_
  have hstaked' := (@staked_lastAt P chain nTime).mpr hstaked
  rw [WorkFits, if_neg hstaked.1, if_pos hstaked] at hfits
  rw [WorkFits, if_neg hstaked'.1, if_pos hstaked'] at hfits'
  rw [nextTarget_staked hstaked hfits, nextTarget_staked hstaked' hfits', lastAt_same.2]
  refine order_iff ?_ hle hfits'.1
  cases chain with
  | nil => exact absurd (show nHeight [] < PastBlocksMin by decide) hstaked.1
  | cons b prev => exact (hchain b mem_cons_self).1

end

/-- Blocks at the limit of the proof of stake phase, the last one some time behind the others. -/
def stoodStill (seconds : Nat) : List WorkBlock :=
  ⟨BitVec.ofNat 32 (1000 + seconds), 0x1e00ffff⟩ :: List.replicate 210 ⟨1000, 0x1e00ffff⟩

theorem targets_stoodStill (seconds : Nat) : ∀ b ∈ stoodStill seconds, 0 < b.target.toNat ∧
    b.target.toNat ≤ (ProofOfWorkLimit .MAIN).toNat := by
  have htarget : (SetCompact 0x1e00ffff).toNat = readLimit := by
    rw [readLimit_eq]
    decide
  have hlimit : 0 < readLimit ∧ readLimit ≤ (ProofOfWorkLimit .MAIN).toNat := by
    rw [readLimit_eq, limit_toNat]
    decide
  intro b hb
  have hbits : b.nBits = 0x1e00ffff := by
    rcases mem_cons.mp hb with rfl | hb
    · rfl
    · rw [eq_of_mem_replicate hb]
  rw [WorkBlock.target, hbits, htarget]
  exact hlimit

/-- With a spacing of 45 seconds, and of a minute. -/
theorem stoodStill_minute :
    WorkOk mainParams (stoodStill 45) ∧ WorkOk mainParams (lastAt 1060 (stoodStill 45)) ∧
      NeverSmaller mainParams (stoodStill 45) (lastAt 1060 (stoodStill 45)) := by
  refine (GetNextWorkRequired_iff mainParams (stoodStill 45) 1060 (targets_stoodStill 45)).mpr
    ⟨?_, ?_, fun _ _ => ⟨fun _ _ => ?_, fun hneg => ?_⟩⟩
  · rw [WorkFits, if_neg (by decide +kernel), if_pos (by decide +kernel)]
    exact ⟨by decide +kernel, by decide +kernel⟩
  · rw [WorkFits, if_neg (by decide +kernel), if_pos (by decide +kernel)]
    exact ⟨by decide +kernel, by decide +kernel⟩
  · show 45 ≤ lastSpacing (stoodStill 45)
    decide +kernel
  · exact absurd hneg (by decide +kernel)

/-- After 97 days and some hours a second more wraps the product. -/
theorem stoodStill_wraps : ¬ ∀ (P : CChainParams) (chain : List WorkBlock) (nTime : BitVec 32),
    (∀ b ∈ chain, 0 < b.target.toNat ∧ b.target.toNat ≤ (ProofOfWorkLimit P.networkID).toNat) →
    WorkOk P chain ∧ WorkOk P (lastAt nTime chain) ∧ NeverSmaller P chain (lastAt nTime chain) := by
  intro h
  obtain ⟨-, -, hnever⟩ := h mainParams (stoodStill 8387858) 8388859 (targets_stoodStill 8387858)
  have hstaked : Staked mainParams (stoodStill 8387858) := by decide +kernel
  have hlonger : lastSpacing (stoodStill 8387858) ≤
      lastSpacing (lastAt 8388859 (stoodStill 8387858)) := by decide +kernel
  have hsmaller : nextTarget mainParams (lastAt 8388859 (stoodStill 8387858)) <
      nextTarget mainParams (stoodStill 8387858) := by decide +kernel
  exact absurd (hnever hstaked hlonger) (not_le.mpr hsmaller)

end Divitae.NextWork
