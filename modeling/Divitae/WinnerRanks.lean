/-
# `WinnerRanks` — who may vote on the payee of a height

A vote on the payee of a height is for the ten nodes that are ranked first at the height a
hundred blocks below.  `IsValid` turns a vote away when the rank of the voter is above ten.
A voter without a rank has the rank −1, which is not above ten; the node's own vote, in
`ProcessBlock`, is given up at −1.

    no rank at all          the block is not known
    no rank for a node      its protocol is too old, it was announced within the last hours
                            (with spork 8), or it is not enabled any more
-/
import Divitae.RankOrder
import Divitae.WinnerRuns

namespace Divitae

open Ranking ScoreSort

namespace PaymentEnv

variable (S : StdSort) (C : Crypto) (paymentEnforced : Bool) (env : PaymentEnv)

/-- What the ranks are computed from; `paymentEnforced` is spork 8. -/
def rankEnv : RankEnv where
  toNodeEnv := env.toNodeEnv
  blockHash := env.blockHash
  paymentEnforced := paymentEnforced

/-- The node with its own list ranking the voters. -/
def ranking : PaymentEnv :=
  { env with
    rank := fun vin nBlockHeight minProtocol =>
      (GetProsperitynodeRank S C (env.rankEnv paymentEnforced) env.nodes.vProsperitynodes
        nBlockHeight minProtocol true vin).1 }

/-- The node `mn` is one of those that are ranked. -/
structure Eligible (minProtocol : Int) (mn : CProsperitynode) : Prop where
  protocol : ¬ mn.protocolVersion < minProtocol
  age : paymentEnforced = true → ¬ env.adjustedTime - mn.sigTime < MN_WINNER_MINIMUM_AGE
  enabled : (mn.Check env.toNodeEnv false).IsEnabled = true

/-- The block is known and a node of this input is listed that is ranked. -/
def HasRank (vin : CTxIn) (nBlockHeight minProtocol : Int) : Prop :=
  (env.blockHash nBlockHeight).isSome = true ∧
    ∃ mn ∈ env.nodes.vProsperitynodes, mn.vin.prevout = vin.prevout ∧
      Eligible paymentEnforced env minProtocol mn

variable {S C paymentEnforced env} {vin : CTxIn} {nBlockHeight minProtocol : Int}

theorem visit_iff (mn : CProsperitynode) :
    ((rankScan C (env.rankEnv paymentEnforced) nBlockHeight minProtocol true).visit mn).2 = true ↔
      Eligible paymentEnforced env minProtocol mn := by
  show (if mn.protocolVersion < minProtocol then (mn, false)
    else if paymentEnforced && env.adjustedTime - mn.sigTime < MN_WINNER_MINIMUM_AGE then
      (mn, false)
    else if true then (mn.Check env.toNodeEnv false, (mn.Check env.toNodeEnv false).IsEnabled)
    else (mn, true)).2 = true ↔ _
  by_cases hprotocol : mn.protocolVersion < minProtocol
  · rw [if_pos hprotocol]
    exact ⟨nofun, fun h => absurd hprotocol h.protocol⟩
  rw [if_neg hprotocol]
  by_cases hage : (paymentEnforced && env.adjustedTime - mn.sigTime < MN_WINNER_MINIMUM_AGE) = true
  · rw [if_pos hage]
    obtain ⟨henforced, hyoung⟩ := Bool.and_eq_true_iff.mp hage
    exact ⟨nofun, fun h => absurd (of_decide_eq_true hyoung) (h.age henforced)⟩
  · rw [if_neg hage, if_pos rfl]
    constructor
    · intro henabled
      refine ⟨hprotocol, ?_, henabled⟩
      intro henforced hyoung
      exact hage (by simp [henforced, hyoung])
    · exact Eligible.enabled

variable (S C paymentEnforced env vin nBlockHeight minProtocol) in
theorem rank_cases :
    ((env.ranking S C paymentEnforced).rank vin nBlockHeight minProtocol = -1 ∧
        ¬ env.HasRank paymentEnforced vin nBlockHeight minProtocol) ∨
      (1 ≤ (env.ranking S C paymentEnforced).rank vin nBlockHeight minProtocol ∧
        env.HasRank paymentEnforced vin nBlockHeight minProtocol) := by
  show ((GetProsperitynodeRank S C (env.rankEnv paymentEnforced) env.nodes.vProsperitynodes
    nBlockHeight minProtocol true vin).1 = -1 ∧ _) ∨ (1 ≤ (GetProsperitynodeRank S C
      (env.rankEnv paymentEnforced) env.nodes.vProsperitynodes nBlockHeight minProtocol true
        vin).1 ∧ _)
  rw [GetProsperitynodeRank_eq]
  show ((if (env.blockHash nBlockHeight).isSome = true then _ else _) = -1 ∧ _) ∨
    (1 ≤ (if (env.blockHash nBlockHeight).isSome = true then _ else _) ∧ _)
  by_cases hknown : (env.blockHash nBlockHeight).isSome = true
  · rw [if_pos hknown]
    have hmem (mn : CProsperitynode) := @Scan.mem_inOrder CProsperitynode
      (rankScan C (env.rankEnv paymentEnforced) nBlockHeight minProtocol true)
      env.nodes.vProsperitynodes S mn
    rw [Scan.sortedScores_eq]
    rcases rankLoop_cases (fun txin => txin.prevout == vin.prevout)
      (((rankScan C (env.rankEnv paymentEnforced) nBlockHeight minProtocol true).inOrder
        env.nodes.vProsperitynodes S).map fun mn => (_, mn.vin)) (le_refl 0) with
      ⟨hnone, hall⟩ | ⟨hlt, s, hs, hfound⟩
    · refine .inl ⟨hnone, ?_⟩
      rintro ⟨-, mn, hmn, hvin, hranked⟩
      have hin := (hmem mn).mpr (List.mem_filter.mpr ⟨hmn, (visit_iff mn).mpr hranked⟩)
      have hmiss := hall _ (List.mem_map_of_mem hin)
      exact absurd hvin (beq_eq_false_iff_ne.mp hmiss)
    · refine .inr ⟨hlt, hknown, ?_⟩
      obtain ⟨mn, hin, rfl⟩ := List.mem_map.mp hs
      obtain ⟨hmn, hvisit⟩ := List.mem_filter.mp ((hmem mn).mp hin)
      exact ⟨mn, hmn, beq_iff_eq.mp hfound, (visit_iff mn).mp hvisit⟩
  · rw [if_neg hknown]
    exact .inl ⟨rfl, fun h => hknown h.1⟩

end PaymentEnv

/-- The voter is listed, and on an accepted protocol. -/
def CProsperitynodePaymentWinner.VoterListed (env : PaymentEnv)
    (w : CProsperitynodePaymentWinner) : Prop :=
  ∃ pmn, env.nodes.Find w.vinProsperitynode = some pmn ∧ ¬ pmn.protocolVersion < env.activeProtocol

theorem CProsperitynodePaymentWinner.IsValid_iff {env : PaymentEnv}
    {w : CProsperitynodePaymentWinner} :
    w.IsValid env = true ↔ w.VoterListed env ∧
      ¬ env.rank w.vinProsperitynode (w.nBlockHeight - 100) env.activeProtocol >
        MNPAYMENTS_SIGNATURES_TOTAL := by
  unfold IsValid VoterListed
  cases env.nodes.Find w.vinProsperitynode with
  | none => simp
  | some pmn => simp

/-- **Which votes are accepted without a rank.**  That a vote is accepted only from a node that
has a rank, one of the first ten, holds of every vote but those of listed nodes on an accepted
protocol that have none. -/
theorem accepted_ranked_iff (S : StdSort) (C : Crypto) (paymentEnforced : Bool) (env : PaymentEnv)
    (w : CProsperitynodePaymentWinner) :
    (w.IsValid (env.ranking S C paymentEnforced) = true →
      1 ≤ (env.ranking S C paymentEnforced).rank w.vinProsperitynode (w.nBlockHeight - 100)
          env.activeProtocol ∧
        (env.ranking S C paymentEnforced).rank w.vinProsperitynode (w.nBlockHeight - 100)
          env.activeProtocol ≤ MNPAYMENTS_SIGNATURES_TOTAL) ↔
      (w.VoterListed env →
        env.HasRank paymentEnforced w.vinProsperitynode (w.nBlockHeight - 100)
          env.activeProtocol) := by
  rw [CProsperitynodePaymentWinner.IsValid_iff]
  show (w.VoterListed env ∧ ¬ (env.ranking S C paymentEnforced).rank w.vinProsperitynode
    (w.nBlockHeight - 100) env.activeProtocol > MNPAYMENTS_SIGNATURES_TOTAL → _) ↔ _
  rcases PaymentEnv.rank_cases S C paymentEnforced env w.vinProsperitynode (w.nBlockHeight - 100)
    env.activeProtocol with ⟨hrank, hnone⟩ | ⟨hrank, hhas⟩
  · rw [hrank]
    constructor
    · intro h hlisted
      have hlow := (h ⟨hlisted, by decide⟩).1
      omega
    · intro h haccepted
      exact absurd (h haccepted.1) hnone
  · constructor
    · intro _ _
      exact hhas
    · rintro - ⟨-, hten⟩
      exact ⟨hrank, not_lt.mp hten⟩

/-- The listed node has not pinged for almost three hours. -/
def silentEnv : PaymentEnv :=
  { CProsperitynodePayments.votingEnv with
    time := 1700010000
    adjustedTime := 1700010000
    nodes := ⟨[tiedNode 0], fun _ => none, fun _ => none⟩ }

def silentVote : CProsperitynodePaymentWinner := ⟨(tiedNode 0).vin, 1005, [1], []⟩

/-- **A vote of a node that has no rank.**  It is not enabled any more, its rank is −1, and its
vote is accepted. -/
theorem unranked_vote_accepted :
    let env := silentEnv.ranking insertion middleBytesCrypto true
    silentVote.IsValid env = true ∧
      ¬ (1 ≤ env.rank silentVote.vinProsperitynode (silentVote.nBlockHeight - 100)
          env.activeProtocol ∧
        env.rank silentVote.vinProsperitynode (silentVote.nBlockHeight - 100) env.activeProtocol ≤
          MNPAYMENTS_SIGNATURES_TOTAL) := by
  decide +kernel

end Divitae
