/-
# `SeeSaw` — what the masternodes get of a block

`GetSeeSaw` of `main.cpp` compares the coins behind the masternodes with the money supply, in a
chain of tests for the heights before 325000 and a finer one for the heights after it:

    nHeight < 325000     85 % up to a twentieth of the supply, down to 10 %
    nHeight > 325000     90 % up to a hundredth of the supply, down to 1 %

Both fall as the coins grow (`Lib.Tiers`).  Height 325000 is in neither of them, and there the
masternodes get all of the block (`seesaw_iff`).
-/
import Divitae.Lib.Tiers
import Divitae.Reward
import Mathlib.Algebra.Order.Ring.Int

namespace Divitae.SeeSaw

open Tiers

/-- An integer as an `int` holds it. -/
def wrap32 (n : Int) : Int := n.bmod (2 ^ 32)

/-- Bounds in thousandths of the money supply, shares in hundredths of the block value. -/
abbrev ShareTier := Tier Int Int

/-- The tests before height 325000. -/
def earlyTiers : List ShareTier :=
  [⟨0, 50, 85⟩, ⟨50, 100, 80⟩, ⟨100, 150, 75⟩, ⟨150, 200, 70⟩, ⟨200, 250, 65⟩, ⟨250, 300, 60⟩,
    ⟨300, 350, 55⟩, ⟨350, 400, 50⟩, ⟨400, 450, 45⟩, ⟨450, 500, 40⟩, ⟨500, 550, 35⟩,
    ⟨550, 600, 30⟩, ⟨600, 650, 25⟩, ⟨650, 700, 20⟩, ⟨700, 750, 15⟩]

/-- The tests after height 325000. -/
def lateTiers : List ShareTier :=
  [⟨0, 10, 90⟩, ⟨10, 20, 88⟩, ⟨20, 30, 87⟩, ⟨30, 40, 86⟩, ⟨40, 50, 85⟩, ⟨50, 60, 84⟩,
    ⟨60, 70, 83⟩, ⟨70, 80, 82⟩, ⟨80, 90, 81⟩, ⟨90, 100, 80⟩, ⟨100, 110, 79⟩, ⟨110, 120, 78⟩,
    ⟨120, 130, 77⟩, ⟨130, 140, 76⟩, ⟨140, 150, 75⟩, ⟨150, 160, 74⟩, ⟨160, 170, 73⟩,
    ⟨170, 180, 72⟩, ⟨180, 190, 71⟩, ⟨190, 200, 70⟩, ⟨200, 210, 69⟩, ⟨210, 220, 68⟩,
    ⟨220, 230, 67⟩, ⟨230, 240, 66⟩, ⟨240, 250, 65⟩, ⟨250, 260, 64⟩, ⟨260, 270, 63⟩,
    ⟨270, 280, 62⟩, ⟨280, 290, 61⟩, ⟨290, 300, 60⟩, ⟨300, 310, 59⟩, ⟨310, 320, 58⟩,
    ⟨320, 330, 57⟩, ⟨330, 340, 56⟩, ⟨340, 350, 55⟩, ⟨350, 363, 54⟩, ⟨363, 376, 53⟩,
    ⟨376, 389, 52⟩, ⟨389, 402, 51⟩, ⟨402, 415, 50⟩, ⟨415, 428, 49⟩, ⟨428, 441, 48⟩,
    ⟨441, 454, 47⟩, ⟨454, 467, 46⟩, ⟨467, 480, 45⟩, ⟨480, 493, 44⟩, ⟨493, 506, 43⟩,
    ⟨506, 519, 42⟩, ⟨519, 532, 41⟩, ⟨532, 545, 40⟩, ⟨545, 558, 39⟩, ⟨558, 571, 38⟩,
    ⟨571, 584, 37⟩, ⟨584, 597, 36⟩, ⟨597, 610, 35⟩, ⟨610, 623, 34⟩, ⟨623, 636, 33⟩,
    ⟨636, 649, 32⟩, ⟨649, 662, 31⟩, ⟨662, 675, 30⟩, ⟨675, 688, 29⟩, ⟨688, 701, 28⟩,
    ⟨701, 714, 27⟩, ⟨714, 727, 26⟩, ⟨727, 740, 25⟩, ⟨740, 753, 24⟩, ⟨753, 766, 23⟩,
    ⟨766, 779, 22⟩, ⟨779, 792, 21⟩, ⟨792, 805, 20⟩, ⟨805, 818, 19⟩, ⟨818, 831, 18⟩,
    ⟨831, 844, 17⟩, ⟨844, 857, 16⟩, ⟨857, 870, 15⟩, ⟨870, 883, 14⟩, ⟨883, 896, 13⟩,
    ⟨896, 909, 12⟩, ⟨909, 922, 11⟩, ⟨922, 935, 10⟩, ⟨935, 945, 9⟩, ⟨945, 961, 8⟩, ⟨961, 974, 7⟩,
    ⟨974, 987, 6⟩, ⟨987, 990, 5⟩]

/-- `ret = blockValue * share`, which cuts off what is not whole. -/
def part (blockValue : CAmount) (share : Int) : CAmount := (blockValue * share).tdiv 100

/-- The share of a chain of tests: each factor of the supply is an exact number of
thousandths. -/
def shareOf (tiers : List ShareTier) (rest : Int) (nMoneySupply mNodeCoins : CAmount) : Int :=
  pick (1000 * mNodeCoins) rest (tiers.map (Tier.map (nMoneySupply * ·)))

/-- `nMasternodeCount * 5000 * COIN`: the first product is an `int`. -/
def nodeCoins (nMasternodeCount : Int) : CAmount :=
  if nMasternodeCount ≠ 0 then wrap32 (nMasternodeCount * 5000) * COIN else 0

def GetSeeSaw (nMasternodeCount : Int) (nMoneySupply : CAmount) (nHeight : Int)
    (blockValue : CAmount) : CAmount :=
  let mNodeCoins := nodeCoins nMasternodeCount
  if mNodeCoins = 0 then 0
  else if nHeight < 325000 then part blockValue (shareOf earlyTiers 10 nMoneySupply mNodeCoins)
  else if nHeight > 325000 then part blockValue (shareOf lateTiers 1 nMoneySupply mNodeCoins)
  else blockValue

/-! ## The tables -/

/-- A chain of tests on the supply: the bounds grow from 0, the shares fall from 90 or less. -/
structure Table (tiers : List ShareTier) (rest : Int) : Prop where
  chained : Chained 0 tiers
  falling : Falling rest 90 tiers
  rest : 0 ≤ rest
  bounds : ∀ t ∈ tiers, 0 ≤ t.lower ∧ t.lower ≤ t.upper

theorem early_table : Table earlyTiers 10 := ⟨by decide, by decide, by decide, by decide⟩

theorem late_table : Table lateTiers 1 :=
  ⟨by decide +kernel, by decide +kernel, by decide, by decide +kernel⟩

section
variable {tiers : List ShareTier} {rest : Int} {nMoneySupply mNodeCoins : CAmount}

theorem Table.shareOf_bounds (h : Table tiers rest) :
    0 ≤ shareOf tiers rest nMoneySupply mNodeCoins ∧
      shareOf tiers rest nMoneySupply mNodeCoins ≤ 90 := by
  have hfalling := h.falling.map (nMoneySupply * ·)
  exact ⟨h.rest.trans (last_le_pick hfalling), pick_le_top hfalling⟩

theorem Table.shareOf_antitone (h : Table tiers rest) {fewer more : CAmount} (hpos : 0 < fewer)
    (hle : fewer ≤ more) :
    shareOf tiers rest nMoneySupply more ≤ shareOf tiers rest nMoneySupply fewer := by
  have hchained := h.chained.map (nMoneySupply * ·)
  have hfalling := h.falling.map (nMoneySupply * ·)
  refine pick_antitone hchained hfalling ?_ ?_
  · show nMoneySupply * 0 < 1000 * fewer
    rw [Int.mul_zero]
    exact Int.mul_pos (by decide) hpos
  · exact Int.mul_le_mul_of_nonneg_left hle (by decide)

theorem no_tier_below {supply coins lower upper : Int} (hneg : coins < 0) (hlower : 0 ≤ lower)
    (hupper : lower ≤ upper) :
    ¬ (1000 * coins ≤ supply * upper ∧ supply * lower < 1000 * coins) := by
  rintro ⟨hle, hlt⟩
  rcases Int.le_total 0 supply with hsupply | hsupply
  · have hpos := Int.mul_nonneg hsupply hlower
    omega
  · have hless : supply * upper ≤ supply * lower :=
      mul_le_mul_of_nonpos_left hupper hsupply
    omega

theorem Table.shareOf_neg (h : Table tiers rest) (hneg : mNodeCoins < 0) :
    shareOf tiers rest nMoneySupply mNodeCoins = rest := by
  refine pick_of_none ?_
  intro t ht
  obtain ⟨t', hmem, rfl⟩ := List.mem_map.mp ht
  obtain ⟨hlower, hupper⟩ := h.bounds t' hmem
  exact no_tier_below hneg hlower hupper

end

/-! ## The coins behind the masternodes -/

theorem wrap32_of_fits {n : Int} (hlo : -2 ^ 31 ≤ n) (hhi : n < 2 ^ 31) : wrap32 n = n :=
  Int.bmod_eq_of_le_mul_two (by push_cast; omega) (by push_cast; omega)

theorem wrap32_of_over {n : Int} (hlo : 2 ^ 31 ≤ n) (hhi : n < 2 ^ 32 + 2 ^ 31) :
    wrap32 n = n - 2 ^ 32 := by
  have hshift : wrap32 n = wrap32 (n - 2 ^ 32) := by
    unfold wrap32
    rw [← Int.sub_bmod_right n (2 ^ 32)]
    rfl
  rw [hshift]
  exact wrap32_of_fits (by omega) (by omega)

theorem nodeCoins_of_fits {c : Int} (hlo : 1 ≤ c) (hhi : c ≤ 429496) :
    nodeCoins c = c * 5000 * COIN := by
  unfold nodeCoins
  rw [if_pos (by omega), wrap32_of_fits (by omega) (by omega)]

theorem nodeCoins_neg {c : Int} (hlo : 429497 ≤ c) (hhi : c ≤ 858993) : nodeCoins c < 0 := by
  unfold nodeCoins
  rw [if_pos (by omega), wrap32_of_over (by omega) (by omega)]
  exact Int.mul_neg_of_neg_of_pos (by omega) (by decide)

theorem nodeCoins_pos {c : Int} (hlo : 1 ≤ c) (hhi : c ≤ 429496) : 0 < nodeCoins c := by
  rw [nodeCoins_of_fits hlo hhi]
  exact Int.mul_pos (by omega) (by decide)

theorem nodeCoins_mono {c c' : Int} (hlo : 1 ≤ c) (hle : c ≤ c') (hhi : c' ≤ 429496) :
    nodeCoins c ≤ nodeCoins c' := by
  rw [nodeCoins_of_fits hlo (hle.trans hhi), nodeCoins_of_fits (hlo.trans hle) hhi]
  exact Int.mul_le_mul_of_nonneg_right (by omega) (by decide)

theorem part_mono {blockValue : CAmount} (hpos : 0 < blockValue) {p q : Int} (hp : 0 ≤ p)
    (hle : p ≤ q) : part blockValue p ≤ part blockValue q := by
  unfold part
  rw [Int.tdiv_eq_ediv_of_nonneg (Int.mul_nonneg hpos.le hp),
    Int.tdiv_eq_ediv_of_nonneg (Int.mul_nonneg hpos.le (hp.trans hle))]
  exact Int.ediv_le_ediv (by decide) (Int.mul_le_mul_of_nonneg_left hle hpos.le)

theorem part_bound {blockValue : CAmount} (hpos : 0 < blockValue) {p : Int} (hp : 0 ≤ p)
    (hle : p ≤ 90) : 10 * part blockValue p ≤ 9 * blockValue ∧ part blockValue p < blockValue := by
  have hround : ∀ v q : Int, 0 < v → v * p ≤ v * 90 → q = v * p / 100 → 10 * q ≤ 9 * v ∧ q < v := by
    intro v q hv hmul hq
    omega
  refine hround blockValue _ hpos (Int.mul_le_mul_of_nonneg_left hle hpos.le) ?_
  exact Int.tdiv_eq_ediv_of_nonneg (Int.mul_nonneg hpos.le hp)

theorem nothing_bound {blockValue : Int} (hpos : 0 < blockValue) :
    10 * 0 ≤ 9 * blockValue ∧ 0 < blockValue := by
  omega

theorem exists_table {nHeight : Int} (hheight : nHeight ≠ 325000) :
    ∃ tiers rest, Table tiers rest ∧ ∀ (c : Int) (nMoneySupply blockValue : CAmount),
      GetSeeSaw c nMoneySupply nHeight blockValue =
        if nodeCoins c = 0 then 0
        else part blockValue (shareOf tiers rest nMoneySupply (nodeCoins c)) := by
  rcases Int.lt_or_gt_of_ne hheight with hearly | hlate
  · refine ⟨earlyTiers, 10, early_table, ?_⟩
    intro c nMoneySupply blockValue
    unfold GetSeeSaw
    dsimp only
    rw [if_pos hearly]
  · refine ⟨lateTiers, 1, late_table, ?_⟩
    intro c nMoneySupply blockValue
    unfold GetSeeSaw
    dsimp only
    have hnot : ¬ nHeight < 325000 := by omega
    rw [if_neg hnot, if_pos hlate]

/-- The share of up to `N` masternodes: less than the block value, nine tenths of it at most,
and no larger for more of them. -/
def SharesFall (nHeight N : Int) : Prop :=
  ∀ nMoneySupply blockValue : CAmount, 0 < blockValue →
    (∀ c, 0 ≤ c → c ≤ N →
      10 * GetSeeSaw c nMoneySupply nHeight blockValue ≤ 9 * blockValue ∧
        GetSeeSaw c nMoneySupply nHeight blockValue < blockValue) ∧
    ∀ c c', 1 ≤ c → c ≤ c' → c' ≤ N →
      GetSeeSaw c' nMoneySupply nHeight blockValue ≤ GetSeeSaw c nMoneySupply nHeight blockValue

theorem sharesFall_of_height {nHeight N : Int} (hheight : nHeight ≠ 325000) (hN : N ≤ 858993) :
    SharesFall nHeight N := by
  obtain ⟨tiers, rest, htable, hshare⟩ := exists_table hheight
  intro nMoneySupply blockValue hpos
  constructor
  · intro c _ _
    rw [hshare]
    split_ifs
    · exact nothing_bound hpos
    · obtain ⟨hlo, hhi⟩ := @Table.shareOf_bounds _ _ nMoneySupply (nodeCoins c) htable
      exact part_bound hpos hlo hhi
  · intro c c' hc hle hc'
    have hne : ∀ n, 1 ≤ n → n ≤ 858993 → nodeCoins n ≠ 0 := by
      intro n hn hn'
      rcases lt_or_ge 429496 n with hover | hfits
      · exact (nodeCoins_neg (by omega) hn').ne
      · exact (nodeCoins_pos hn hfits).ne'
    rw [hshare, hshare, if_neg (hne c hc (by omega)), if_neg (hne c' (by omega) (by omega))]
    refine part_mono hpos htable.shareOf_bounds.1 ?_
    rcases lt_or_ge 429496 c' with hover | hfits
    · -- the product has wrapped: what is left is the last share
      rw [htable.shareOf_neg (nodeCoins_neg (by omega) (by omega))]
      exact last_le_pick (htable.falling.map (nMoneySupply * ·))
    · exact htable.shareOf_antitone (nodeCoins_pos hc (by omega)) (nodeCoins_mono hc hle hfits)

/-- **The masternode share is bounded and falls, except at one height,** as long as the product
of the count has not wrapped all the way round. -/
theorem seesaw_iff (nHeight N : Int) :
    SharesFall nHeight N ↔ (1 ≤ N → nHeight ≠ 325000 ∧ N ≤ 858993) := by
  constructor
  · intro h hN
    have hheight : nHeight ≠ 325000 := by
      rintro rfl
      have hone := ((h 0 1 (by decide)).1 1 (by decide) hN).2
      revert hone
      decide
    refine ⟨hheight, ?_⟩
    by_contra hover
    have hmore := (h 1000000000000000 100 (by decide)).2 429497 858994 (by decide) (by decide)
      (by omega)
    -- the coins of 858994 masternodes wrap to 2704
    rcases Int.lt_or_gt_of_ne hheight with hearly | hlate
    · unfold GetSeeSaw at hmore
      dsimp only at hmore
      rw [if_pos hearly, if_pos hearly] at hmore
      revert hmore
      decide +kernel
    · have hnot : ¬ nHeight < 325000 := by omega
      unfold GetSeeSaw at hmore
      dsimp only at hmore
      rw [if_neg hnot, if_pos hlate, if_neg hnot, if_pos hlate] at hmore
      revert hmore
      decide +kernel
  · intro h
    rcases lt_or_ge 0 N with hsome | hnone
    · exact sharesFall_of_height (h hsome).1 (h hsome).2
    · intro nMoneySupply blockValue hpos
      constructor
      · intro c hc hcN
        obtain rfl : c = 0 := by omega
        exact nothing_bound hpos
      · intro c c' hc hle hc'
        omega

/-- **Height 325000.**  One masternode, a supply of 21 million coins: the masternodes get all
of a block of 27 coins. -/
theorem all_at_one_height :
    GetSeeSaw 1 (21000000 * COIN) 325000 (27 * COIN) = 27 * COIN ∧
      ¬ (10 * GetSeeSaw 1 (21000000 * COIN) 325000 (27 * COIN) ≤ 9 * (27 * COIN)) := by
  decide

end Divitae.SeeSaw
