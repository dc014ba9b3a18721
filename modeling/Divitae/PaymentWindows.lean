/-
# `PaymentWindows` — how often a proposal is paid

A proposal made for `n` payments gets an end block, and from its start and end two things are
computed: how many payments it says it has (`GetTotalPaymentCount`), and at which superblocks
`GetBudget` finds it in its window.  With a cycle of `c` blocks and the start in cycle `s`:

    nBlockEnd               c s + (c + 1) n, an `int`
    GetTotalPaymentCount    n + n / c
    superblocks k c         from the start, so k = s is one of them only if the start is k c,
                            to k = s + n - 1 + (n + 1) / c

The extra block for each payment is what makes the end late enough, and after `c` payments it is
a payment too many.
-/
import Divitae.Budget
import Mathlib.Data.Int.ConditionallyCompleteOrder
import Mathlib.Data.Int.Interval
import Mathlib.Data.Set.Card

namespace Divitae

open Wrap CBudgetProposalBroadcast

/-- The constructor of `CBudgetProposalBroadcast` that computes the end block. -/
def CBudgetProposalBroadcast.ofPaymentCount (P : CChainParams) (strProposalName strURL : List UInt8)
    (nPaymentCount : Int) (address : CScript) (nAmount : CAmount) (nBlockStart : Int)
    (nFeeTXHash : uint256) : CBudgetProposalBroadcast :=
  let nCycleStart := nBlockStart - nBlockStart.tmod (GetBudgetPaymentCycleBlocks P)
  { strProposalName, strURL, nTime := 0, nBlockStart
    nBlockEnd := wrap32 (nCycleStart + (GetBudgetPaymentCycleBlocks P + 1) * nPaymentCount)
    nAmount, address, nFeeTXHash }

/-- The height that `GetBudget` works for at a tip. -/
def nextSuperblock (P : CChainParams) (nHeight : Int) : Int :=
  nHeight - nHeight.tmod (GetBudgetPaymentCycleBlocks P) + GetBudgetPaymentCycleBlocks P

/-- `GetBudget`'s test of the start and the end. -/
def CBudgetProposalBroadcast.InWindow (P : CChainParams) (p : CBudgetProposalBroadcast)
    (nBlockStart : Int) : Prop :=
  p.nBlockStart ≤ nBlockStart ∧ nBlockStart + GetBudgetPaymentCycleBlocks P - 1 ≤ p.nBlockEnd

/-- The superblocks of the whole chain at which a proposal is in its window. -/
def CBudgetProposalBroadcast.superblocks (P : CChainParams) (p : CBudgetProposalBroadcast) :
    Set Int :=
  {nBlockStart | (∃ nHeight : Nat, nBlockStart = nextSuperblock P nHeight) ∧
    p.InWindow P nBlockStart}

/-! ## Cycles -/

section
variable {c start n s k : Int}

theorem isSuperblock_iff {P : CChainParams} {H : Int} :
    (∃ nHeight : Nat, H = nextSuperblock P nHeight) ↔
      ∃ k, 1 ≤ k ∧ H = GetBudgetPaymentCycleBlocks P * k := by
  have hc : 0 < GetBudgetPaymentCycleBlocks P := by
    unfold GetBudgetPaymentCycleBlocks
    split <;> decide
  constructor
  · rintro ⟨nHeight, rfl⟩
    refine ⟨(nHeight : Int) / GetBudgetPaymentCycleBlocks P + 1, ?_, ?_⟩
    · have := Int.ediv_nonneg (Int.natCast_nonneg nHeight) (Int.le_of_lt hc)
      omega
    · have hdiv := Int.mul_ediv_add_emod nHeight (GetBudgetPaymentCycleBlocks P)
      rw [nextSuperblock, Int.tmod_eq_emod_of_nonneg (Int.natCast_nonneg nHeight), Int.mul_add]
      omega
  · rintro ⟨k, hk, rfl⟩
    have hnonneg : 0 ≤ GetBudgetPaymentCycleBlocks P * (k - 1) :=
      Int.mul_nonneg (Int.le_of_lt hc) (by omega)
    refine ⟨(GetBudgetPaymentCycleBlocks P * (k - 1)).toNat, ?_⟩
    rw [nextSuperblock, Int.toNat_of_nonneg hnonneg, Int.tmod_eq_emod_of_nonneg hnonneg,
      Int.mul_emod_right]
    linarith [Int.mul_sub (GetBudgetPaymentCycleBlocks P) k 1]

theorem start_le_iff (hc : 0 < c) (hk : 1 ≤ k) :
    start ≤ c * k ↔
      (if start ≤ 0 then 1
        else if start.tmod c = 0 then start.tdiv c else start.tdiv c + 1) ≤ k := by
  have hstart := Int.mul_tdiv_add_tmod start c
  by_cases hneg : start ≤ 0
  · rw [if_pos hneg]
    have hle : c ≤ c * k := le_mul_of_one_le_right (Int.le_of_lt hc) hk
    exact iff_of_true (by omega) hk
  · have hpos : 0 < start := not_le.mp hneg
    rw [if_neg hneg]
    by_cases hzero : start.tmod c = 0
    · rw [if_pos hzero]
      rw [hzero, Int.add_zero] at hstart
      rw [← hstart, Int.mul_tdiv_cancel_left _ (Int.ne_of_gt hc)]
      exact Int.mul_le_mul_left hc
    · rw [if_neg hzero, Int.add_one_le_iff]
      have hrem : 0 < start.tmod c :=
        lt_of_le_of_ne (Int.tmod_nonneg c (Int.le_of_lt hpos)) (Ne.symm hzero)
      have hlt : start.tmod c < c := Int.tmod_lt_of_pos start hc
      constructor
      · intro hle
        exact (Int.mul_lt_mul_left hc).mp (by omega)
      · intro hlt'
        have hnext : c * (start.tdiv c + 1) ≤ c * k := (Int.mul_le_mul_left hc).mpr hlt'
        rw [Int.mul_add, Int.mul_one] at hnext
        omega

theorem le_end_iff (hc : 0 < c) :
    c * k + c - 1 ≤ c * s + (c + 1) * n ↔ k ≤ s + n - 1 + (n + 1) / c := by
  have hquot : k - s + 1 - n ≤ (n + 1) / c ↔ (k - s + 1 - n) * c ≤ n + 1 :=
    Int.le_ediv_iff_mul_le hc
  have hmul : (k - s + 1 - n) * c = c * k - c * s + c - c * n := by ring
  have hend : (c + 1) * n = c * n + n := by ring
  constructor
  · intro h
    have := hquot.mpr (by omega)
    omega
  · intro h
    have := hquot.mp (by omega)
    omega

theorem ncard_multiples (hc : 0 < c) (lo hi : Int) :
    (Set.image (c * ·) (Set.Icc lo hi)).ncard = (hi + 1 - lo).toNat := by
  have hinj : Function.Injective (c * · : Int → Int) := fun a b hab =>
    Int.eq_of_mul_eq_mul_left (Int.ne_of_gt hc) hab
  rw [Set.ncard_image_of_injective _ hinj, ← Finset.coe_Icc, Set.ncard_coe_finset, Int.card_Icc]

theorem blocks_lt (hsmall : c * c ≤ 2 ^ 31) (hn : 1 ≤ n) (hlt : n < c) :
    0 ≤ (c + 1) * n ∧ (c + 1) * n < 2 ^ 31 := by
  constructor
  · exact Int.mul_nonneg (by omega) (by omega)
  · have hle : (c + 1) * n ≤ (c + 1) * (c - 1) :=
      Int.mul_le_mul_of_nonneg_left (by omega) (by omega)
    have hsquare : (c + 1) * (c - 1) = c * c - 1 := by ring
    omega

theorem count_eq_iff (hc : 0 < c) (hsmall : c * c ≤ 2 ^ 31) (hn : 1 ≤ n) (hint : n < 2 ^ 31) :
    (wrap32 ((c + 1) * n)).tdiv c = n ↔ n < c := by
  have hblocks : (c + 1) * n = n + c * n := by ring
  constructor
  · intro hcount
    have hrem := Int.mul_tdiv_add_tmod (wrap32 ((c + 1) * n)) c
    rw [hcount] at hrem
    have hpos : 0 < c * n := Int.mul_pos hc (by omega)
    -- a register that wrapped is too low for the count
    have hexact : (c + 1) * n < 2 ^ 31 := by
      by_contra habove
      have hle := wrap32_le_of_above (not_lt.mp habove)
      have hlt : -c < (wrap32 ((c + 1) * n)).tmod c := Int.lt_tmod_of_pos _ hc
      have hnonneg : 0 ≤ (wrap32 ((c + 1) * n)).tmod c := by
        refine Int.tmod_nonneg c ?_
        have hcn : c ≤ c * n := le_mul_of_one_le_right (Int.le_of_lt hc) hn
        omega
      omega
    rw [wrap32_of_fits ⟨by omega, hexact⟩] at hrem
    have hlt := Int.tmod_lt_of_pos ((c + 1) * n) hc
    omega
  · intro hlt
    obtain ⟨hnonneg, hfits⟩ := blocks_lt hsmall hn hlt
    rw [wrap32_of_fits ⟨by omega, hfits⟩, Int.tdiv_eq_ediv_of_nonneg hnonneg, hblocks,
      Int.add_mul_ediv_left n n (Int.ne_of_gt hc), Int.ediv_eq_zero_of_lt (by omega) hlt,
      Int.zero_add]

end

/-! ## Counts -/

section
variable (P : CChainParams) (strProposalName strURL : List UInt8) (n : Int) (address : CScript)
  (nAmount : CAmount) (start : Int) (nFeeTXHash : uint256)

/-- The proposal says it has `n` payments, and there are `n` superblocks to pay it. -/
def PaidAsMade : Prop :=
  let p := CBudgetProposalBroadcast.ofPaymentCount P strProposalName strURL n address nAmount
    start nFeeTXHash
  (CBudgetProposal.ofBroadcast p).GetTotalPaymentCount P = n ∧ ((p.superblocks P).ncard : Int) = n

variable {P strProposalName strURL n address nAmount start nFeeTXHash}

/-- The number of the first superblock from the start on. -/
def firstCycle (c start : Int) : Int :=
  if start ≤ 0 then 1 else if start.tmod c = 0 then start.tdiv c else start.tdiv c + 1

theorem GetTotalPaymentCount_made :
    (CBudgetProposal.ofBroadcast (.ofPaymentCount P strProposalName strURL n address nAmount start
      nFeeTXHash)).GetTotalPaymentCount P =
      (wrap32 ((GetBudgetPaymentCycleBlocks P + 1) * n)).tdiv (GetBudgetPaymentCycleBlocks P) := by
  show (wrap32 (wrap32 (start - start.tmod _ + (GetBudgetPaymentCycleBlocks P + 1) * n) -
    (start - start.tmod _))).tdiv _ = _
  rw [wrap32_sub_wrap32_left, add_sub_cancel_left]

theorem tdiv_eq_firstCycle_iff {c : Int} (hc : 0 < c) :
    start.tdiv c = firstCycle c start ↔ 0 < start ∧ start.tmod c = 0 := by
  have hdiv := Int.mul_tdiv_add_tmod start c
  unfold firstCycle
  split_ifs with hneg hzero
  · refine iff_of_false ?_ fun h => absurd h.1 (not_lt.mpr hneg)
    intro hone
    have hrem := Int.lt_tmod_of_pos start hc
    rw [hone, Int.mul_one] at hdiv
    omega
  · exact iff_of_true rfl ⟨not_le.mp hneg, hzero⟩
  · exact iff_of_false (by omega) fun h => hzero h.2

theorem tdiv_add_one_eq_firstCycle_iff {c : Int} (hc : 0 < c) :
    start.tdiv c + 1 = firstCycle c start ↔ ¬ (0 < start ∧ start.tmod c = 0) ∧ -c < start := by
  have hdiv := Int.mul_tdiv_add_tmod start c
  unfold firstCycle
  split_ifs with hneg hzero
  · have hrem := Int.lt_tmod_of_pos start hc
    constructor
    · intro hquot
      have hnone : start.tdiv c = 0 := by omega
      rw [hnone, Int.mul_zero, Int.zero_add] at hdiv
      exact ⟨fun h => absurd h.1 (not_lt.mpr hneg), hdiv ▸ hrem⟩
    · rintro ⟨-, hlow⟩
      have hnone : start.tdiv c = 0 := by
        have hneg' := Int.tdiv_eq_zero_of_lt (show 0 ≤ -start by omega) (show -start < c by omega)
        rw [Int.neg_tdiv] at hneg'
        omega
      omega
  · exact iff_of_false (by omega) fun h => h.1 ⟨not_le.mp hneg, hzero⟩
  · exact iff_of_true rfl ⟨fun h => hzero h.2, by omega⟩

theorem ncard_superblocks (hc : 0 < GetBudgetPaymentCycleBlocks P)
    (hend : Fits32 (start - start.tmod (GetBudgetPaymentCycleBlocks P) +
      (GetBudgetPaymentCycleBlocks P + 1) * n)) :
    ((ofPaymentCount P strProposalName strURL n address nAmount start
      nFeeTXHash).superblocks P).ncard =
      (start.tdiv (GetBudgetPaymentCycleBlocks P) + n + (n + 1) / GetBudgetPaymentCycleBlocks P -
        firstCycle (GetBudgetPaymentCycleBlocks P) start).toNat := by
  let c := GetBudgetPaymentCycleBlocks P
  have hset : (ofPaymentCount P strProposalName strURL n address nAmount
      start nFeeTXHash).superblocks P =
        Set.image (c * ·) (Set.Icc (firstCycle c start) (start.tdiv c + n - 1 + (n + 1) / c)) := by
    have hcycle : start - start.tmod c = c * start.tdiv c := by
      have := Int.mul_tdiv_add_tmod start c
      omega
    have hwindow : ∀ k, 1 ≤ k → ((ofPaymentCount P strProposalName strURL
        n address nAmount start nFeeTXHash).InWindow P (c * k) ↔
          firstCycle c start ≤ k ∧ k ≤ start.tdiv c + n - 1 + (n + 1) / c) := by
      intro k hk
      show start ≤ c * k ∧ c * k + c - 1 ≤ wrap32 (start - start.tmod c + (c + 1) * n) ↔ _
      rw [wrap32_of_fits hend, hcycle, le_end_iff hc, start_le_iff hc hk, firstCycle]
    have hfirst : 1 ≤ firstCycle c start := by
      unfold firstCycle
      split_ifs with hneg hzero
      · exact le_rfl
      · by_contra hlow
        have hmul : c * start.tdiv c ≤ 0 :=
          Int.mul_nonpos_of_nonneg_of_nonpos (Int.le_of_lt hc) (by omega)
        omega
      · have hquot : 0 ≤ start.tdiv c := Int.tdiv_nonneg (by omega) (Int.le_of_lt hc)
        omega
    ext H
    show (∃ nHeight : Nat, H = nextSuperblock P nHeight) ∧ _ ↔ _
    rw [isSuperblock_iff]
    constructor
    · rintro ⟨⟨k, hk, rfl⟩, hin⟩
      exact ⟨k, (hwindow k hk).mp hin, rfl⟩
    · rintro ⟨k, hk, rfl⟩
      have hpos : 1 ≤ k := le_trans hfirst hk.1
      exact ⟨⟨k, hpos, rfl⟩, (hwindow k hpos).mpr hk⟩
  rw [hset, ncard_multiples hc]
  congr 1
  show start.tdiv c + n - 1 + (n + 1) / c + 1 - firstCycle c start =
    start.tdiv c + n + (n + 1) / c - firstCycle c start
  omega

theorem superblocks_of_above (hc : 0 < GetBudgetPaymentCycleBlocks P)
    (hend : 2 ^ 31 ≤ start - start.tmod (GetBudgetPaymentCycleBlocks P) +
      (GetBudgetPaymentCycleBlocks P + 1) * n)
    (hlow : start - start.tmod (GetBudgetPaymentCycleBlocks P) +
      (GetBudgetPaymentCycleBlocks P + 1) * n < 2 ^ 32) :
    (ofPaymentCount P strProposalName strURL n address nAmount start
      nFeeTXHash).superblocks P = ∅ := by
  rw [Set.eq_empty_iff_forall_notMem]
  rintro H ⟨hsuper, -, hin⟩
  obtain ⟨k, hk, rfl⟩ := isSuperblock_iff.mp hsuper
  have hpos := Int.mul_pos hc (show 0 < k by omega)
  have hwrap := wrap32_le_of_above hend
  have hlate : _ ≤ wrap32 (start - start.tmod (GetBudgetPaymentCycleBlocks P) +
    (GetBudgetPaymentCycleBlocks P + 1) * n) := hin
  omega

end

theorem cycleStart_fits {c start : Int} (hc : 0 < c) (hstart : Fits32 start) :
    -2 ^ 31 ≤ start - start.tmod c ∧ start - start.tmod c < 2 ^ 31 := by
  obtain ⟨hlow, hhigh⟩ := hstart
  have hdiv := Int.mul_tdiv_add_tmod start c
  rcases le_or_gt 0 start with hpos | hneg
  · have hrem := Int.tmod_nonneg c hpos
    have hquot := Int.mul_nonneg (Int.le_of_lt hc) (Int.tdiv_nonneg hpos (Int.le_of_lt hc))
    omega
  · have hrem := Int.tmod_nonneg c (show 0 ≤ -start by omega)
    rw [Int.neg_tmod] at hrem
    have hquot := Int.mul_nonneg (Int.le_of_lt hc)
      (Int.tdiv_nonneg (show 0 ≤ -start by omega) (Int.le_of_lt hc))
    rw [Int.neg_tdiv, Int.mul_neg] at hquot
    omega

theorem cyclesPaid_iff {c n start : Int} (hc : 0 < c) (hn : 1 ≤ n) (hlt : n < c) :
    ((start.tdiv c + n + (n + 1) / c - firstCycle c start).toNat : Int) = n ↔
      0 < start ∧ start.tmod c = 0 ∧ n + 1 < c ∨
        ¬ (0 < start ∧ start.tmod c = 0) ∧ -c < start ∧ n + 1 = c := by
  have hown : start.tdiv c = firstCycle c start ↔ 0 < start ∧ start.tmod c = 0 :=
    tdiv_eq_firstCycle_iff hc
  have hnext : start.tdiv c + 1 = firstCycle c start ↔
      ¬ (0 < start ∧ start.tmod c = 0) ∧ -c < start := tdiv_add_one_eq_firstCycle_iff hc
  rcases lt_or_eq_of_le (show n + 1 ≤ c by omega) with hless | hlast
  · have hzero : (n + 1) / c = 0 := Int.ediv_eq_zero_of_lt (by omega) hless
    constructor
    · intro hcount
      obtain ⟨hpos, hrem⟩ := hown.mp (by omega)
      exact .inl ⟨hpos, hrem, hless⟩
    · rintro (⟨hpos, hrem, -⟩ | ⟨-, -, hlast⟩)
      · have hfirst := hown.mpr ⟨hpos, hrem⟩
        omega
      · exact absurd hlast (Int.ne_of_lt hless)
  · have hone : (n + 1) / c = 1 := by
      rw [hlast]
      exact Int.ediv_self (Int.ne_of_gt hc)
    constructor
    · intro hcount
      obtain ⟨hnone, hlow⟩ := hnext.mp (by omega)
      exact .inr ⟨hnone, hlow, hlast⟩
    · rintro (⟨-, -, hless⟩ | ⟨hnone, hlow, -⟩)
      · exact absurd hlast (Int.ne_of_lt hless)
      · have hfirst := hnext.mpr ⟨hnone, hlow⟩
        omega

/-- **When a proposal is paid as often as it was made for.**  Its end block is an `int`, and
either its start is a superblock and it has less payments than a cycle has blocks, but for one;
or its start is none, of the first cycle or later, and it has one payment less than a cycle
has blocks. -/
theorem paidAsMade_iff (P : CChainParams) (strProposalName strURL : List UInt8) (n : Int)
    (address : CScript) (nAmount : CAmount) (start : Int) (nFeeTXHash : uint256)
    (hstart : Fits32 start) (hn : 1 ≤ n) (hint : n < 2 ^ 31) :
    let c := GetBudgetPaymentCycleBlocks P
    PaidAsMade P strProposalName strURL n address nAmount start nFeeTXHash ↔
      start - start.tmod c + (c + 1) * n < 2 ^ 31 ∧
        (0 < start ∧ start.tmod c = 0 ∧ n + 1 < c ∨
          ¬ (0 < start ∧ start.tmod c = 0) ∧ -c < start ∧ n + 1 = c) := by
  intro c
  have hcycle : 0 < c ∧ c * c ≤ 2 ^ 31 := by
    show 0 < GetBudgetPaymentCycleBlocks P ∧
      GetBudgetPaymentCycleBlocks P * GetBudgetPaymentCycleBlocks P ≤ 2 ^ 31
    unfold GetBudgetPaymentCycleBlocks
    split <;> decide
  obtain ⟨hc, hsmall⟩ := hcycle
  show _ = n ∧ _ ↔ _
  rw [GetTotalPaymentCount_made, count_eq_iff hc hsmall hn hint]
  by_cases hlt : n < c
  · obtain ⟨hnonneg, hfits⟩ := blocks_lt hsmall hn hlt
    have hround := cycleStart_fits hc hstart
    by_cases hend : start - start.tmod c + (c + 1) * n < 2 ^ 31
    · have hfitsEnd : Fits32 (start - start.tmod c + (c + 1) * n) := ⟨by omega, hend⟩
      rw [ncard_superblocks hc hfitsEnd]
      rw [cyclesPaid_iff hc hn hlt]
      exact ⟨fun hcount => ⟨hend, hcount.2⟩, fun hcount => ⟨hlt, hcount.2⟩⟩
    · have hlow : start - start.tmod c + (c + 1) * n < 2 ^ 32 := by omega
      rw [superblocks_of_above hc (not_lt.mp hend) hlow, Set.ncard_empty]
      refine iff_of_false (fun h => ?_) fun h => hend h.1
      have hnone : (0 : Int) = n := h.2
      omega
  · refine iff_of_false (fun h => hlt h.1) ?_
    rintro ⟨-, h⟩
    omega

/-- On the main network two payments from a superblock on. -/
theorem two_payments_paid :
    PaidAsMade mainParams [0x70] [0x75] 2 [OP_HASH160] (10 * COIN) 820800 0 :=
  (paidAsMade_iff mainParams [0x70] [0x75] 2 [OP_HASH160] (10 * COIN) 820800 0
    ⟨by decide, by decide⟩ (by decide) (by decide)).mpr (by decide)

/-- **A cycle of payments on a test network.**  The proposal says it has one payment more than it
was made for. -/
theorem cycle_of_payments_counted :
    let p := CBudgetProposalBroadcast.ofPaymentCount { mainParams with networkID := .TESTNET }
      [0x70] [0x75] 144 [OP_HASH160] (10 * COIN) 288 0
    (CBudgetProposal.ofBroadcast p).GetTotalPaymentCount
        { mainParams with networkID := .TESTNET } = 145 ∧
      ¬ PaidAsMade { mainParams with networkID := .TESTNET } [0x70] [0x75] 144 [OP_HASH160]
        (10 * COIN) 288 0 := by
  intro p
  have hcount : (CBudgetProposal.ofBroadcast p).GetTotalPaymentCount
      { mainParams with networkID := .TESTNET } = 145 := by decide
  exact ⟨hcount, fun h => absurd (hcount.symm.trans h.1) (by decide)⟩

end Divitae
