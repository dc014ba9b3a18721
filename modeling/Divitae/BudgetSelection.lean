/-
# `BudgetSelection` — the proposals that get into a budget

`GetBudget` sorts the proposals by their votes and hands the budget of a month out to those that
are eligible, first come, first served (`allot_eq`): who does not get the amount it asks for did
not fit into what the better-voted left.

The budget of a month is a tenth of the rewards of the tip's height, for a month of blocks:

    tip height 1       22000000 coins, the premine: the product passes 2 ^ 63 and is negative
    any other          at most 30 coins, and the product is exact
    the test network   7300 coins whatever the height

With a negative budget nothing is allotted, and nothing is more than there is.
-/
import Divitae.FinalizedPayouts
import Divitae.Lib.Greedy
import Divitae.PaymentWindows
import Divitae.BudgetCleanUp

namespace Divitae

open Wrap List

/-! ## The budget of a month -/

section
variable {P : CChainParams} {nHeight : Int}

theorem GetBlockValue_le_thirty (h : nHeight ≠ 1) (hnet : P.networkID ≠ .TESTNET) :
    GetBlockValue P nHeight ≤ 30 * COIN := by
  unfold GetBlockValue
  rw [if_neg h]
  split_ifs with _ _ _ _ _ htest
  · decide
  · decide
  · decide
  · decide
  · decide
  · exact absurd htest.1 hnet
  · exact le_refl (30 * COIN)

variable {env : BudgetEnv}

theorem GetTotalBudget_exact (htip : env.tipHeight = some nHeight)
    (h : nHeight ≠ 1) (hnet : P.networkID ≠ .TESTNET) :
    GetTotalBudget P env = (GetBlockValue P nHeight).tdiv 100 * 10 * 1920 * 30 ∧
      0 ≤ GetTotalBudget P env ∧ GetTotalBudget P env ≤ 172800 * COIN := by
  have hpos := GetBlockValue_pos P nHeight
  have hle := GetBlockValue_le_thirty h hnet
  have hdivPos : (0 : Int) ≤ (GetBlockValue P nHeight).tdiv 100 :=
    Int.tdiv_nonneg (Int.le_of_lt hpos) (by decide)
  have hdivLe : (GetBlockValue P nHeight).tdiv 100 ≤ (30000000 : Int) :=
    (Int.tdiv_le_tdiv (by decide) hle).trans (by decide)
  have hfits : Fits64 ((GetBlockValue P nHeight).tdiv 100 * 10 * 1920 * 30) := by
    constructor <;> omega
  have hexact : GetTotalBudget P env = (GetBlockValue P nHeight).tdiv 100 * 10 * 1920 * 30 := by
    rw [GetTotalBudget, htip]
    show (if P.networkID = .TESTNET then _ else _) = _
    rw [if_neg hnet, wrap64_of_fits hfits]
  rw [hexact]
  refine ⟨rfl, ?_, ?_⟩
  · show (0 : Int) ≤ _
    omega
  · show _ ≤ (172800 * 100000000 : Int)
    omega

theorem GetTotalBudget_premine (htip : env.tipHeight = some 1)
    (hnet : P.networkID ≠ .TESTNET) : GetTotalBudget P env < 0 := by
  rw [GetTotalBudget, htip]
  show (if P.networkID = .TESTNET then _
    else wrap64 ((GetBlockValue P 1).tdiv 100 * 10 * 1920 * 30)) < 0
  rw [if_neg hnet, GetBlockValue, if_pos rfl]
  decide

theorem GetTotalBudget_le (P : CChainParams) (env : BudgetEnv) :
    GetTotalBudget P env ≤ 172800 * COIN := by
  by_cases hnet : P.networkID = .TESTNET
  · unfold GetTotalBudget
    cases env.tipHeight with
    | none => exact show (0 : Int) ≤ 172800 * COIN by decide
    | some nHeight =>
      show (if P.networkID = .TESTNET then _ else _) ≤ _
      rw [if_pos hnet]
      decide
  · cases htip : env.tipHeight with
    | none =>
      rw [GetTotalBudget, htip]
      exact show (0 : Int) ≤ 172800 * COIN by decide
    | some nHeight =>
      by_cases hone : nHeight = 1
      · have hneg := GetTotalBudget_premine (hone ▸ htip) hnet
        exact (le_of_lt hneg).trans (by decide)
      · exact (GetTotalBudget_exact htip hone hnet).2.2

theorem GetTotalBudget_nonneg_iff (htip : env.tipHeight = some nHeight) :
    0 ≤ GetTotalBudget P env ↔ P.networkID = .TESTNET ∨ nHeight ≠ 1 := by
  by_cases hnet : P.networkID = .TESTNET
  · refine iff_of_true ?_ (.inl hnet)
    rw [GetTotalBudget, htip]
    show 0 ≤ if P.networkID = .TESTNET then _ else _
    rw [if_pos hnet]
    decide
  · by_cases hone : nHeight = 1
    · have hneg := GetTotalBudget_premine (hone ▸ htip) hnet
      exact iff_of_false (not_le.mpr hneg) fun h => h.elim hnet fun h => h hone
    · exact iff_of_true (GetTotalBudget_exact htip hone hnet).2.1 (.inr hone)

end

/-! ## First come, first served -/

/-- Yes votes less no votes. -/
def CBudgetProposal.netVotes (p : CBudgetProposal) : Int := (p.GetYeas : Int) - p.GetNays

/-- `IsValid` lets in what asks for ten coins or more and for no more than the budget of the
month that it was asked in. -/
def CBudgetProposal.AmountChecked (P : CChainParams) (p : CBudgetProposal) : Prop :=
  10 * COIN ≤ p.nAmount ∧ ∃ env : BudgetEnv, p.nAmount ≤ GetTotalBudget P env

theorem CBudgetProposal.AmountChecked.bounds {P : CChainParams} {p : CBudgetProposal}
    (h : p.AmountChecked P) :
    (1000000000 : Int) ≤ p.nAmount ∧ (17280000000000 : Int) ≥ p.nAmount := by
  obtain ⟨hlow, env, hhigh⟩ := h
  exact ⟨hlow, hhigh.trans (GetTotalBudget_le P env)⟩

theorem CBudgetProposal.netVotes_le_of_rank_le {p q : CBudgetProposal} (h : q.rank ≤ p.rank) :
    q.netVotes ≤ p.netVotes := by
  have hp := p.nFeeTXHash.isLt
  unfold CBudgetProposal.rank at h
  unfold CBudgetProposal.netVotes
  by_contra hlow
  have hgap : ((p.GetYeas : Int) - p.GetNays) + 1 ≤ (q.GetYeas : Int) - q.GetNays := by omega
  have hscaled := Int.mul_le_mul_of_nonneg_right hgap (show (0 : Int) ≤ 2 ^ 256 by decide)
  omega

namespace CleanUp

section
variable (C : Crypto) (P : CChainParams) (env : CleanUpEnv) (s : CleanUp)

/-- `GetBudget`'s first check: of the flag, the window, the votes and the age. -/
def Eligible (nBlockStart : Int) (hash : uint256) (p : CBudgetProposal) : Prop :=
  s.fValid hash = true ∧ p.nBlockStart ≤ nBlockStart ∧
    nBlockStart + GetBudgetPaymentCycleBlocks P - 1 ≤ p.nBlockEnd ∧
    p.netVotes > env.CountEnabled / 10 ∧ p.IsEstablished P env.toBudgetEnv = true

instance (nBlockStart : Int) (hash : uint256) (p : CBudgetProposal) :
    Decidable (s.Eligible P env nBlockStart hash p) :=
  inferInstanceAs (Decidable (s.fValid hash = true ∧ p.nBlockStart ≤ nBlockStart ∧
    nBlockStart + GetBudgetPaymentCycleBlocks P - 1 ≤ p.nBlockEnd ∧
    p.netVotes > env.CountEnabled / 10 ∧ p.IsEstablished P env.toBudgetEnv = true))

/-- What a proposal of the map asks for. -/
def asked (e : Sigma fun _ : uint256 => CBudgetProposal) : Int := e.2.nAmount

/-- The proposals of the map, once their votes have been looked at. -/
def counted : HashMap CBudgetProposal :=
  s.proposals.objects.mapValues fun p => p.CleanAndRemove C env.toBudgetEnv false

/-- Every proposal on file passed `IsValid`'s checks of its amount. -/
def AmountsChecked : Prop := ∀ hash p, s.proposals.objects.lookup hash = some p → p.AmountChecked P

/-- What `chosen` must be: in the order of the votes, within the budget, eligible, and such that
no eligible proposal is missing that would fit into what the better-voted leave. -/
structure BudgetSound (nHeight : Int) (chosen : List CBudgetProposal) : Prop where
  byVotes : chosen.Pairwise fun p q => q.netVotes ≤ p.netVotes
  within : (chosen.map fun p => p.nAmount).sum ≤ GetTotalBudget P env.toBudgetEnv
  eligible : ∀ p ∈ chosen, ∃ hash, (s.counted C env).lookup hash = some p ∧
    s.Eligible P env (nextSuperblock P nHeight) hash p
  maximal : ∀ hash p, (s.counted C env).lookup hash = some p →
    s.Eligible P env (nextSuperblock P nHeight) hash p → p ∉ chosen →
      ∃ better rest, chosen = better ++ rest ∧ (∀ q ∈ better, p.netVotes ≤ q.netVotes) ∧
        (∀ q ∈ rest, q.netVotes ≤ p.netVotes) ∧
        GetTotalBudget P env.toBudgetEnv < p.nAmount + (better.map fun q => q.nAmount).sum

end

section
variable {C : Crypto} {P : CChainParams} {env : CleanUpEnv} {s : CleanUp}

theorem allot_eq (nBlockStart used : Int) (l : List (Sigma fun _ : uint256 => CBudgetProposal))
    (hused : 0 ≤ used ∧ used ≤ 17280000000000) (hamounts : ∀ e ∈ l, e.2.AmountChecked P) :
    s.allot P env nBlockStart (nBlockStart + GetBudgetPaymentCycleBlocks P - 1) used l =
      (Greedy.serve asked (GetTotalBudget P env.toBudgetEnv) used
        (l.filter fun e => s.Eligible P env nBlockStart e.1 e.2)).map (·.2) := by
  induction l generalizing used with
  | nil => rfl
  | cons e rest ih =>
    obtain ⟨hash, p⟩ := e
    have hrest : ∀ e ∈ rest, e.2.AmountChecked P := fun e he =>
      hamounts e (.tail _ he)
    have hp : p.AmountChecked P := hamounts ⟨hash, p⟩ mem_cons_self
    obtain ⟨hlow, hhigh⟩ := hp.bounds
    obtain ⟨hzero, hcap⟩ := hused
    -- nothing wraps
    have hexact : wrap64 (p.nAmount + used) = p.nAmount + used :=
      wrap64_of_fits ⟨by omega, by omega⟩
    show (if s.Eligible P env nBlockStart hash p then
        if wrap64 (p.nAmount + used) ≤ GetTotalBudget P env.toBudgetEnv then
          p :: s.allot P env nBlockStart _ (wrap64 (used + p.nAmount)) rest
        else s.allot P env nBlockStart _ used rest
      else s.allot P env nBlockStart _ used rest) = _
    rw [Int.add_comm used, hexact]
    by_cases heligible : s.Eligible P env nBlockStart hash p
    · rw [if_pos heligible, filter_cons_of_pos (by simpa using heligible)]
      by_cases hfits : p.nAmount + used ≤ GetTotalBudget P env.toBudgetEnv
      · have hasked : asked ⟨hash, p⟩ + used ≤ GetTotalBudget P env.toBudgetEnv := hfits
        rw [if_pos hfits, Greedy.serve_cons_of_fits hasked, map_cons]
        have hnext : 0 ≤ p.nAmount + used ∧ p.nAmount + used ≤ 17280000000000 :=
          ⟨Int.add_nonneg (le_trans (by decide) hlow) hzero,
            hfits.trans (GetTotalBudget_le P env.toBudgetEnv)⟩
        rw [ih (p.nAmount + used) hnext hrest, Int.add_comm p.nAmount]
        rfl
      · have hasked : ¬ asked ⟨hash, p⟩ + used ≤ GetTotalBudget P env.toBudgetEnv := hfits
        rw [if_neg hfits, Greedy.serve_cons_of_not_fits hasked]
        exact ih used ⟨hzero, hcap⟩ hrest
    · rw [if_neg heligible, filter_cons_of_neg (by simpa using heligible)]
      exact ih used ⟨hzero, hcap⟩ hrest

/-- The proposals in the order of their ranks, and of those the eligible. -/
def candidates (C : Crypto) (P : CChainParams) (env : CleanUpEnv) (s : CleanUp) (nHeight : Int) :
    List (Sigma fun _ : uint256 => CBudgetProposal) :=
  (env.sort.sort (fun e => -(e.2.rank))
    ((s.counted C env).entries.insertionSort fun a b => a.1 ≤ b.1)).filter
      fun e => s.Eligible P env (nextSuperblock P nHeight) e.1 e.2

theorem mem_candidates {nHeight : Int} {e : Sigma fun _ : uint256 => CBudgetProposal} :
    e ∈ candidates C P env s nHeight ↔ (s.counted C env).lookup e.1 = some e.2 ∧
      s.Eligible P env (nextSuperblock P nHeight) e.1 e.2 := by
  unfold candidates
  rw [mem_filter, (env.sort.perm _ _).mem_iff, mem_insertionSort, decide_eq_true_eq]
  exact and_congr_left fun _ => (AList.mem_lookup_iff (s := s.counted C env)).symm

theorem candidates_byRank (nHeight : Int) :
    (candidates C P env s nHeight).Pairwise fun a b => b.2.netVotes ≤ a.2.netVotes := by
  refine (List.Pairwise.filter _ (env.sort.sorted _ _)).imp ?_
  intro a b hab
  exact CBudgetProposal.netVotes_le_of_rank_le (by omega)

theorem counted_amounts (h : s.AmountsChecked P) {hash : uint256} {p : CBudgetProposal}
    (hp : (s.counted C env).lookup hash = some p) : p.AmountChecked P := by
  rw [counted, HashMap.lookup_mapValues] at hp
  obtain ⟨q, hq, rfl⟩ := Option.map_eq_some_iff.mp hp
  exact h hash q hq

theorem GetBudget_eq (h : s.AmountsChecked P) (nHeight : Int) :
    (s.GetBudget C P { env with tipHeight := some nHeight }).2 =
      (Greedy.serve asked (GetTotalBudget P { env with tipHeight := some nHeight }.toBudgetEnv) 0
        (candidates C P { env with tipHeight := some nHeight } s nHeight)).map (·.2) := by
  let envAt : CleanUpEnv := { env with tipHeight := some nHeight }
  let counting : CleanUp :=
    { s with proposals := { s.proposals with objects := s.counted C envAt } }
  refine allot_eq (s := counting) (nextSuperblock P nHeight) 0 _ ⟨le_rfl, by decide⟩ ?_
  intro e he
  have hin : e ∈ (s.counted C envAt).entries := by
    rwa [(env.sort.perm _ _).mem_iff, mem_insertionSort] at he
  exact counted_amounts h (AList.mem_lookup_iff.mpr hin)

end

/-- **When a month's budget is sound.**  Not at a tip at height one, but on the test network: its
total is negative there. -/
theorem GetBudget_sound_iff (C : Crypto) (P : CChainParams) (env : CleanUpEnv) (s : CleanUp)
    (nHeight : Int) (hamounts : s.AmountsChecked P) :
    let envAt : CleanUpEnv := { env with tipHeight := some nHeight }
    s.BudgetSound C P envAt nHeight (s.GetBudget C P envAt).2 ↔
      P.networkID = .TESTNET ∨ nHeight ≠ 1 := by
  intro envAt
  have hcapIff : 0 ≤ GetTotalBudget P envAt.toBudgetEnv ↔ P.networkID = .TESTNET ∨ nHeight ≠ 1 :=
    GetTotalBudget_nonneg_iff rfl
  rw [GetBudget_eq hamounts, ← hcapIff]
  have hsub : (Greedy.serve asked (GetTotalBudget P envAt.toBudgetEnv) 0
      (candidates C P envAt s nHeight)).Sublist (candidates C P envAt s nHeight) :=
    Greedy.serve_sublist
  have hsum : ∀ l : List (Sigma fun _ : uint256 => CBudgetProposal),
      ((l.map (·.2)).map fun p => p.nAmount).sum = Greedy.handedOut asked l := by
    intro l
    rw [map_map]
    rfl
  constructor
  · intro h
    -- nothing asked for is negative
    have hnonneg : 0 ≤ Greedy.handedOut asked (Greedy.serve asked
        (GetTotalBudget P envAt.toBudgetEnv) 0 (candidates C P envAt s nHeight)) := by
      refine sum_nonneg fun x hx => ?_
      obtain ⟨e, he, rfl⟩ := mem_map.mp hx
      have hchecked := counted_amounts hamounts (mem_candidates.mp (hsub.subset he)).1
      exact le_trans (by decide) hchecked.bounds.1
    have hwithin := h.within
    rw [hsum] at hwithin
    exact hnonneg.trans hwithin
  · intro hcap
    refine ⟨?_, ?_, ?_, ?_⟩
    · exact pairwise_map.mpr ((candidates_byRank nHeight).sublist hsub)
    · rw [hsum]
      have htotal : 0 + Greedy.handedOut asked (Greedy.serve asked
          (GetTotalBudget P envAt.toBudgetEnv) 0 (candidates C P envAt s nHeight)) ≤
            GetTotalBudget P envAt.toBudgetEnv := Greedy.used_add_le hcap
      rwa [Int.zero_add] at htotal
    · intro p hp
      obtain ⟨e, he, rfl⟩ := mem_map.mp hp
      obtain ⟨hlookup, heligible⟩ := mem_candidates.mp (hsub.subset he)
      exact ⟨e.1, hlookup, heligible⟩
    · intro hash p hlookup heligible hout
      have hin : ⟨hash, p⟩ ∈ candidates C P envAt s nHeight :=
        mem_candidates.mpr ⟨hlookup, heligible⟩
      have hsorted : (candidates C P envAt s nHeight).Pairwise
          fun a b => b.2.netVotes ≤ a.2.netVotes := candidates_byRank nHeight
      have hleft : ⟨hash, p⟩ ∉ Greedy.serve asked (GetTotalBudget P envAt.toBudgetEnv) 0
          (candidates C P envAt s nHeight) :=
        fun hserved => hout (mem_map.mpr ⟨_, hserved, rfl⟩)
      obtain ⟨front, back, hsplit⟩ := append_of_mem hin
      rw [hsplit] at hsorted hleft ⊢
      obtain ⟨-, hbehind, hbefore⟩ := pairwise_append.mp hsorted
      refine ⟨(Greedy.serve asked (GetTotalBudget P envAt.toBudgetEnv) 0 front).map (·.2),
        (Greedy.serve asked (GetTotalBudget P envAt.toBudgetEnv)
          (0 + Greedy.handedOut asked (Greedy.serve asked (GetTotalBudget P envAt.toBudgetEnv) 0
            front)) (⟨hash, p⟩ :: back)).map (·.2), ?_, ?_, ?_, ?_⟩
      · rw [Greedy.serve_append, map_append]
      · intro q hq
        obtain ⟨e, he, rfl⟩ := mem_map.mp hq
        exact hbefore e (Greedy.serve_sublist.subset he) _ mem_cons_self
      · intro q hq
        obtain ⟨e, he, rfl⟩ := mem_map.mp hq
        rcases mem_cons.mp (Greedy.serve_sublist.subset he) with rfl | hback
        · exact le_rfl
        · exact (pairwise_cons.mp hbehind).1 e hback
      · have hmissed := Greedy.not_fits_of_left_out hleft
        rw [Int.zero_add] at hmissed
        rw [hsum]
        exact hmissed

/-- A tip on the main network, and a proposal on file. -/
theorem openCleanUp_sound :
    openCleanUp.BudgetSound CBudgetManager.oneSignatureCrypto mainParams
      { quietEnv with tipHeight := some 1000 } 1000
      (openCleanUp.GetBudget CBudgetManager.oneSignatureCrypto mainParams
        { quietEnv with tipHeight := some 1000 }).2 := by
  refine (GetBudget_sound_iff CBudgetManager.oneSignatureCrypto mainParams quietEnv openCleanUp
    1000 ?_).mpr (.inr (by decide))
  intro hash p hp
  have hone : hash = 0 ∧ p = CBudgetManager.openProposal := by
    by_cases hkey : hash = 0
    · subst hkey
      exact ⟨rfl, Option.some.inj (hp.symm.trans rfl)⟩
    · have hnone : openCleanUp.proposals.objects.lookup hash = none :=
        (dlookup_cons_ne _ _ hkey).trans rfl
      rw [hnone] at hp
      cases hp
  obtain ⟨-, rfl⟩ := hone
  exact ⟨by decide, CBudgetManager.ballotEnv, by decide⟩

/-- **At height one the budget is negative**, and nothing is already too much. -/
theorem premine_budget_unsound :
    ¬ openCleanUp.BudgetSound CBudgetManager.oneSignatureCrypto mainParams
      { quietEnv with tipHeight := some 1 } 1
      (openCleanUp.GetBudget CBudgetManager.oneSignatureCrypto mainParams
        { quietEnv with tipHeight := some 1 }).2 := by
  intro h
  have hwithin := h.within
  revert hwithin
  decide +kernel

section
variable {V Ω : Type} {K : VoteKind V Ω} {Q : Ω → Prop}

end

end CleanUp

end Divitae
