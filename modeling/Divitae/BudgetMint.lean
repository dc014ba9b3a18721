/-
# `BudgetMint` — what a block of a budget height may create

At a height with a budget payment `IsBlockValueValid` accepts any value: "the value of
the block is evaluated in CheckBlock".  `CheckBlock` runs `IsBlockPayeeValid`, which
looks for outputs that must be there and bounds nothing.  So where the value check is
waived the bound on the mint is lost, as long as some block passes the payee check; and
one always does, except where the finalized budgets stall it: fewer than ten nodes, a
budget of other heights with more votes than those of this one, and spork 9 on.
-/
import Divitae.BlockPayee
import Divitae.Supply

namespace Divitae

open List Option TrxValidationStatus

/-! ## A transaction that pays everybody -/

def CFinalizedBudget.PaidBy (b : CFinalizedBudget) (tx : CTransaction)
    (nBlockHeight : Int) : Prop :=
  ∀ payment, b.paymentAt nBlockHeight = some payment → ⟨payment.nAmount, payment.payee⟩ ∈ tx.vout

namespace CFinalizedBudget

variable {b : CFinalizedBudget} {nBlockHeight : Int}

theorem paymentAt_of_covers (h : b.Covers nBlockHeight = true) :
    ∃ payment, b.paymentAt nBlockHeight = some payment := by
  unfold Covers at h
  simp only [Bool.and_eq_true, decide_eq_true_eq] at h
  obtain ⟨hstart, hend⟩ := h
  unfold GetBlockEnd at hend
  have hlow : ¬ nBlockHeight - b.nBlockStart < 0 := by omega
  have hhigh : ¬ nBlockHeight - b.nBlockStart > (b.vecBudgetPayments.length : Int) - 1 := by omega
  have hlt : (nBlockHeight - b.nBlockStart).toNat < b.vecBudgetPayments.length := by omega
  exact ⟨b.vecBudgetPayments[(nBlockHeight - b.nBlockStart).toNat], by
    rw [paymentAt]
    rw [if_neg hlow, if_neg hhigh, List.getElem?_eq_getElem hlt]⟩

theorem checkOutputs_InValid {payment : CTxBudgetPayment} :
    ∀ {vout : List CTxOut} {history : PaymentHistory} {status : TrxValidationStatus},
    (b.checkOutputs payment nBlockHeight vout history status).2 = .InValid →
    status = .InValid ∧ ⟨payment.nAmount, payment.payee⟩ ∉ vout
  | [], _, _, h => ⟨h, not_mem_nil⟩
  | out :: vout, history, status, h => by
    rw [checkOutputs] at h
    split at h
    · next hpays =>
        rcases hpaid : b.IsPaidAlready history payment.nProposalHash nBlockHeight with
          ⟨history', _ | _⟩
        · rw [hpaid] at h
          exact noConfusion (checkOutputs_InValid h).1
        · rw [hpaid] at h
          exact noConfusion h
    · next hpays =>
        obtain ⟨hstatus, hnot⟩ := checkOutputs_InValid h
        refine ⟨hstatus, fun hmem => ?_⟩
        rcases mem_cons.mp hmem with rfl | hmem
        · exact hpays ⟨rfl, rfl⟩
        · exact hnot hmem

theorem IsTransactionValid_of_paid (history : PaymentHistory) {tx : CTransaction}
    (hcovers : b.Covers nBlockHeight = true) (hpaid : b.PaidBy tx nBlockHeight) :
    (b.IsTransactionValid history tx nBlockHeight).2 ≠ .InValid := by
  obtain ⟨payment, hpayment⟩ := paymentAt_of_covers hcovers
  intro h
  rw [IsTransactionValid, hpayment] at h
  exact (checkOutputs_InValid h).2 (hpaid payment hpayment)

end CFinalizedBudget

namespace CBudgetManager

variable {env : BudgetEnv} {s : CBudgetManager} {nBlockHeight nCountThreshold : Int}
  {tx : CTransaction}

theorem checkBudgets_of_unheard (history : PaymentHistory) (status : TrxValidationStatus) :
    ∀ {budgets : List CFinalizedBudget} {fThreshold : Bool},
    (∀ b ∈ budgets, (b.GetVoteCount : Int) > nCountThreshold → b.Covers nBlockHeight = false) →
    checkBudgets tx nBlockHeight nCountThreshold budgets history status fThreshold =
      (history, if fThreshold || budgets.any (fun b => (b.GetVoteCount : Int) > nCountThreshold)
        then status else .VoteThreshold)
  | [], fThreshold, _ => by
    rw [checkBudgets, any_nil, Bool.or_false]
  | b :: budgets, fThreshold, hnone => by
    have hrest : ∀ b ∈ budgets, (b.GetVoteCount : Int) > nCountThreshold →
        b.Covers nBlockHeight = false := fun b hb => hnone b (.tail _ hb)
    rw [checkBudgets]
    by_cases hheard : (b.GetVoteCount : Int) > nCountThreshold
    · have hcovers := hnone b mem_cons_self hheard
      rw [if_pos hheard, hcovers, if_neg Bool.false_ne_true, checkBudgets_of_unheard _ _ hrest]
      simp only [any_cons, hheard, decide_true, Bool.true_or, Bool.or_true]
    · rw [if_neg hheard, checkBudgets_of_unheard _ _ hrest]
      simp only [any_cons, hheard, decide_false, Bool.false_or]

theorem checkBudgets_InValid : ∀ {budgets : List CFinalizedBudget},
    (∀ b ∈ budgets, b.PaidBy tx nBlockHeight) →
    ∀ {history : PaymentHistory} {status : TrxValidationStatus} {fThreshold : Bool},
    (checkBudgets tx nBlockHeight nCountThreshold budgets history status fThreshold).2 = .InValid →
    status = .InValid ∧
      ∀ b ∈ budgets, (b.GetVoteCount : Int) > nCountThreshold → b.Covers nBlockHeight = false
  | [], _, _, status, fThreshold, h => by
    cases fThreshold
    · exact noConfusion h
    · exact ⟨h, nofun⟩
  | b :: budgets, hpaid, history, status, fThreshold, h => by
    have hrest : ∀ b ∈ budgets, b.PaidBy tx nBlockHeight := fun b hb => hpaid b (.tail _ hb)
    rw [checkBudgets] at h
    by_cases hheard : (b.GetVoteCount : Int) > nCountThreshold
    · rw [if_pos hheard] at h
      cases hcovers : b.Covers nBlockHeight
      · rw [hcovers, if_neg Bool.false_ne_true] at h
        obtain ⟨hstatus, hall⟩ := checkBudgets_InValid hrest h
        exact ⟨hstatus, forall_mem_cons.mpr ⟨fun _ => hcovers, hall⟩⟩
      · -- this budget recognizes its payment
        have hvalid := CFinalizedBudget.IsTransactionValid_of_paid history hcovers
          (hpaid b mem_cons_self)
        rw [hcovers, if_pos rfl] at h
        rcases hb : b.IsTransactionValid history tx nBlockHeight with ⟨history', status'⟩
        rw [hb] at h hvalid
        cases status' with
        | InValid => exact absurd rfl hvalid
        | Valid => exact noConfusion h
        | DoublePayment => exact noConfusion (checkBudgets_InValid hrest h).1
        | VoteThreshold => exact noConfusion (checkBudgets_InValid hrest h).1
    · rw [if_neg hheard] at h
      obtain ⟨hstatus, hall⟩ := checkBudgets_InValid hrest h
      exact ⟨hstatus, forall_mem_cons.mpr ⟨fun h => absurd h hheard, hall⟩⟩

/-- Fewer than ten nodes, and a budget of other heights has more votes than those of this
one: the threshold is so high that no budget of this height is asked. -/
def Outvoted (env : BudgetEnv) (s : CBudgetManager) (nBlockHeight : Int) : Prop :=
  (env.CountEnabled : Int) / 10 = 0 ∧
    ∃ b ∈ s.finalizedBudgets, (b.GetVoteCount : Int) > s.highestCount nBlockHeight 0

theorem covers_le_highestCount {b : CFinalizedBudget} (hb : b ∈ s.finalizedBudgets)
    (hcovers : b.Covers nBlockHeight = true) (bar : Int) :
    (b.GetVoteCount : Int) ≤ s.highestCount nBlockHeight bar :=
  Highest.le_search (fun b : CFinalizedBudget => (b.GetVoteCount : Int))
    (mem_filter.mpr ⟨hb, hcovers⟩) _

theorem exists_of_lt_highestCount {bar : Int} (h : bar < s.highestCount nBlockHeight bar) :
    ∃ b ∈ s.finalizedBudgets, b.Covers nBlockHeight = true ∧
      (b.GetVoteCount : Int) = s.highestCount nBlockHeight bar := by
  obtain ⟨b, hb, hfound⟩ := Highest.exists_of_lt_search _ h
  obtain ⟨hmem, hcovers⟩ := mem_filter.mp hb
  exact ⟨b, hmem, hcovers, (congrArg Prod.fst hfound).symm⟩

section
variable (h : s.IsBudgetPaymentBlock env nBlockHeight = true)
include h

theorem fivePercent_lt_highestCount :
    (env.CountEnabled : Int) / 20 < s.highestCount nBlockHeight 0 := by
  have hlt : (env.CountEnabled : Int) / 20 < s.highestCount nBlockHeight (-1) := of_decide_eq_true h
  have hnonneg : (0 : Int) ≤ (env.CountEnabled : Int) / 20 := by omega
  obtain ⟨b, hmem, hcovers, hcount⟩ := exists_of_lt_highestCount
    (lt_trans (show (-1 : Int) < 0 by decide) (lt_of_le_of_lt hnonneg hlt))
  rw [← hcount] at hlt
  exact lt_of_lt_of_le hlt (covers_le_highestCount hmem hcovers 0)

theorem highestCount_pos :
    0 < s.highestCount nBlockHeight 0 := by
  have hlt := fivePercent_lt_highestCount h
  omega

end

section
variable (hblock : s.IsBudgetPaymentBlock env nBlockHeight = true)
include hblock

theorem IsTransactionValid_outvoted
    (houtvoted : s.Outvoted env nBlockHeight) (history : PaymentHistory) :
    s.IsTransactionValid env history tx nBlockHeight = (history, .InValid) := by
  have hguard := Int.not_lt.mpr (le_of_lt (fivePercent_lt_highestCount hblock))
  obtain ⟨hfew, b, hb, hheard⟩ := houtvoted
  have hnone : ∀ b ∈ s.finalizedBudgets, (b.GetVoteCount : Int) > s.highestCount nBlockHeight 0 →
      b.Covers nBlockHeight = false := by
    intro b hb h
    refine Bool.eq_false_iff.mpr fun hcovers => ?_
    exact absurd h (Int.not_lt.mpr (covers_le_highestCount hb hcovers 0))
  have hany : s.finalizedBudgets.any
      (fun b => (b.GetVoteCount : Int) > s.highestCount nBlockHeight 0) = true :=
    any_eq_true.mpr ⟨b, hb, decide_eq_true hheard⟩
  rw [IsTransactionValid]
  rw [if_neg hguard, hfew, Int.sub_zero, checkBudgets_of_unheard _ _ hnone, hany, Bool.or_true,
    if_pos rfl]

theorem IsTransactionValid_paid (hpaid : ∀ b ∈ s.finalizedBudgets, b.PaidBy tx nBlockHeight)
    (houtvoted : ¬ s.Outvoted env nBlockHeight) (history : PaymentHistory) :
    (s.IsTransactionValid env history tx nBlockHeight).2 ≠ .InValid := by
  have hguard := Int.not_lt.mpr (le_of_lt (fivePercent_lt_highestCount hblock))
  obtain ⟨top, htop, hcovers, hcount⟩ := exists_of_lt_highestCount (highestCount_pos hblock)
  intro h
  rw [IsTransactionValid] at h
  rw [if_neg hguard] at h
  obtain ⟨_, hnone⟩ := checkBudgets_InValid hpaid h
  -- the highest budget of the height is not heard, so the threshold is its own count
  have hunheard : ¬ (top.GetVoteCount : Int) >
      s.highestCount nBlockHeight 0 - (env.CountEnabled : Int) / 10 := by
    intro hheard
    rw [hnone top htop hheard] at hcovers
    exact Bool.noConfusion hcovers
  have hfew : (env.CountEnabled : Int) / 10 = 0 := by omega
  refine houtvoted ⟨hfew, ?_⟩
  rw [checkBudgets_of_unheard _ _ hnone, Bool.false_or, hfew, Int.sub_zero] at h
  cases hany : s.finalizedBudgets.any
      (fun b => (b.GetVoteCount : Int) > s.highestCount nBlockHeight 0) with
  | false =>
    rw [hany] at h
    exact noConfusion h
  | true =>
    obtain ⟨b, hb, hheard⟩ := any_eq_true.mp hany
    exact ⟨b, hb, of_decide_eq_true hheard⟩

end

end CBudgetManager

namespace CPaymentNode

variable (V : CPaymentNode)

/-- The height both checks give a block with this parent. -/
def heightAfter (hashPrevBlock : uint256) : Int :=
  match V.base.chainTip with
  | none => 0
  | some tip =>
    if tip.phashBlock = some hashPrevBlock then tip.nHeight + 1
    else
      match V.base.mapBlockIndex hashPrevBlock with
      | some nHeight => nHeight + 1
      | none => 0

/-! ## What the block owes -/

def masternodeDue : List CTxOut :=
  (V.base.chainTip.bind fun tip =>
    (V.masternodePayee (tip.nHeight + 1)).map fun payee =>
      ⟨V.GetMasternodePayment (tip.nHeight + 1) (GetBlockValue V.base.P (tip.nHeight + 1)),
        payee⟩).toList

def budgetDues (nBlockHeight : Int) : List CTxOut :=
  V.budget.finalizedBudgets.filterMap fun b =>
    (b.paymentAt nBlockHeight).map fun payment => ⟨payment.nAmount, payment.payee⟩

def prosperitynodeDues (nBlockHeight : Int) : List CTxOut :=
  match V.prosperitynodePayments.mapProsperitynodeBlocks nBlockHeight with
  | none => []
  | some b =>
    b.vecPayments.map fun payee =>
      ⟨b.requiredProsperitynodePayment V.base.P, payee.scriptPubKey⟩

/-- Every output the payee check may look for at a height. -/
def dues (nBlockHeight : Int) : List CTxOut :=
  V.masternodeDue ++ (V.budgetDues nBlockHeight ++ V.prosperitynodeDues nBlockHeight)

variable {V} {nBlockHeight : Int} {tx : CTransaction} {block : CBlock}

theorem checkMasternodePayment_of_due (htx : block.vtx[1]? = some tx)
    (hdue : ∀ out ∈ V.masternodeDue, out ∈ tx.vout) :
    V.checkMasternodePayment block = some true := by
  rw [checkMasternodePayment]
  split
  · rfl
  · cases htip : V.base.chainTip with
    | none => rfl
    | some tip =>
      dsimp only
      split
      · rfl
      · split
        · rfl
        · rw [htx, map_some]
          cases hpayee : V.masternodePayee (tip.nHeight + 1) with
          | none => rfl
          | some payee =>
            refine congrArg some (any_eq_true.mpr ?_)
            refine ⟨_, hdue ⟨V.GetMasternodePayment (tip.nHeight + 1)
              (GetBlockValue V.base.P (tip.nHeight + 1)), payee⟩ ?_, ?_⟩
            · unfold masternodeDue
              rw [htip, bind_some, hpayee]
              exact mem_singleton_self _
            · simp only [beq_self_eq_true, Bool.and_self]

theorem paidBy_of_dues (hdue : ∀ out ∈ V.budgetDues nBlockHeight, out ∈ tx.vout) :
    ∀ b ∈ V.budget.finalizedBudgets, b.PaidBy tx nBlockHeight := by
  intro b hb payment hpayment
  refine hdue _ (mem_filterMap.mpr ⟨b, hb, ?_⟩)
  rw [hpayment, map_some]

theorem checkProsperitynodePayment_of_dues
    (hdue : ∀ out ∈ V.prosperitynodeDues nBlockHeight, out ∈ tx.vout) :
    V.checkProsperitynodePayment tx nBlockHeight = true := by
  unfold checkProsperitynodePayment CProsperitynodePayments.IsTransactionValid
  refine Bool.or_eq_true_iff.mpr (.inl ?_)
  cases hb : V.prosperitynodePayments.mapProsperitynodeBlocks nBlockHeight with
  | none => rfl
  | some b =>
    rw [prosperitynodeDues, hb] at hdue
    rw [all_some, CProsperitynodeBlockPayees.IsTransactionValid]
    cases hbinding : b.vecPayments.filter
        (fun p => decide (p.nVotes ≥ MNPAYMENTS_SIGNATURES_REQUIRED)) with
    | nil => rfl
    | cons payee rest =>
      -- the first binding payee is paid what is required
      have hmem : payee ∈ b.vecPayments := (mem_filter.mp (hbinding ▸ mem_cons_self)).1
      have hout := hdue _ (mem_map_of_mem hmem)
      refine Bool.or_eq_true_iff.mpr (.inr (any_eq_true.mpr ⟨payee,
        .head _, any_eq_true.mpr ⟨_, hout, ?_⟩⟩))
      simp only [beq_self_eq_true, ge_iff_le, le_refl, decide_true, Bool.and_self]

/-- The budgets of the height are outvoted, and enforced. -/
def Stalled (V : CPaymentNode) (nBlockHeight : Int) : Prop :=
  V.base.IsSynced = true ∧ V.PaysBudget nBlockHeight = true ∧
    V.IsSporkActive SPORK_9_PROSPERITYNODE_BUDGET_ENFORCEMENT = true ∧
    V.budget.Outvoted V.env nBlockHeight

theorem AcceptsPayee_stalled (h : V.Stalled nBlockHeight) (block : CBlock) :
    V.AcceptsPayee block nBlockHeight = false := by
  obtain ⟨hsynced, hpays, hspork, houtvoted⟩ := h
  have hblock : V.budget.IsBudgetPaymentBlock V.env nBlockHeight = true :=
    (Bool.and_eq_true_iff.mp hpays).2
  rw [AcceptsPayee, IsBlockPayeeValid, hsynced]
  cases V.checkMasternodePayment block with
  | none => rfl
  | some fFound =>
    cases fFound with
    | false => rfl
    | true =>
      show Option.any _ (Option.bind _ _) = false
      generalize (if nBlockHeight > V.base.P.nLastPOWBlock then block.vtx[1]?
        else block.vtx[0]?) = txNew
      cases txNew with
      | none => rfl
      | some txNew =>
        rw [bind_some, if_pos hpays, CBudgetManager.IsTransactionValid_outvoted hblock houtvoted]
        dsimp only
        rw [if_pos ⟨rfl, hspork⟩]
        rfl

theorem AcceptsPayee_of_dues {tx₀ tx₁ : CTransaction} (h₀ : block.vtx[0]? = some tx₀)
    (h₁ : block.vtx[1]? = some tx₁) (hdues₀ : ∀ out ∈ V.dues nBlockHeight, out ∈ tx₀.vout)
    (hdues₁ : ∀ out ∈ V.dues nBlockHeight, out ∈ tx₁.vout) (hstalled : ¬ V.Stalled nBlockHeight) :
    V.AcceptsPayee block nBlockHeight = true := by
  have hpick : ∃ txNew, (if nBlockHeight > V.base.P.nLastPOWBlock then block.vtx[1]?
      else block.vtx[0]?) = some txNew ∧ ∀ out ∈ V.dues nBlockHeight, out ∈ txNew.vout := by
    split
    · exact ⟨tx₁, h₁, hdues₁⟩
    · exact ⟨tx₀, h₀, hdues₀⟩
  obtain ⟨txNew, htxNew, hdues⟩ := hpick
  have hprosperity : V.checkProsperitynodePayment txNew nBlockHeight = true :=
    checkProsperitynodePayment_of_dues fun out hout =>
      hdues out (mem_append_right _ (mem_append_right _ hout))
  have hbudgets : ∀ b ∈ V.budget.finalizedBudgets, b.PaidBy txNew nBlockHeight :=
    paidBy_of_dues fun out hout =>
      hdues out (mem_append_right _ (mem_append_left _ hout))
  rw [AcceptsPayee, IsBlockPayeeValid]
  cases hsynced : V.base.IsSynced with
  | false => rfl
  | true =>
    rw [Bool.not_true, if_neg Bool.false_ne_true, checkMasternodePayment_of_due h₁
      fun out hout => hdues₁ out (mem_append_left _ hout), bind_some,
      Bool.not_true, if_neg Bool.false_ne_true, htxNew, bind_some]
    cases hpays : V.PaysBudget nBlockHeight with
    | false =>
      rw [if_neg Bool.false_ne_true, hprosperity]
      rfl
    | true =>
      rw [if_pos rfl]
      have hblock := (Bool.and_eq_true_iff.mp hpays).2
      rcases hstatus : V.budget.IsTransactionValid V.env V.mapPayment_History txNew
        nBlockHeight with ⟨history, status⟩
      cases status with
      | Valid => rfl
      | InValid =>
        -- only outvoted budgets reject it, and then they are not enforced
        have houtvoted : V.budget.Outvoted V.env nBlockHeight := by
          by_contra hnot
          exact CBudgetManager.IsTransactionValid_paid hblock hbudgets hnot
            V.mapPayment_History (congrArg Prod.snd hstatus)
        have hspork : ¬ (TrxValidationStatus.InValid = .InValid ∧
            V.IsSporkActive SPORK_9_PROSPERITYNODE_BUDGET_ENFORCEMENT = true) :=
          fun h => hstalled ⟨hsynced, hpays, h.2, houtvoted⟩
        dsimp only
        rw [if_neg hspork, hprosperity]
        rfl
      | DoublePayment =>
        dsimp only
        rw [if_neg fun h => noConfusion h.1, hprosperity]
        rfl
      | VoteThreshold =>
        dsimp only
        rw [if_neg fun h => noConfusion h.1, hprosperity]
        rfl

/-! ## The bound -/

/-- The value check lets any value pass: without a tip, out of sync at the first heights
of a cycle, or in a budget block. -/
def Waived (V : CPaymentNode) (nBlockHeight : Int) : Prop :=
  V.base.chainTip = none ∨
    (V.base.IsSynced = false ∧ nBlockHeight.tmod (GetBudgetPaymentCycleBlocks V.base.P) < 100) ∨
    (V.base.IsSynced = true ∧ V.PaysBudget nBlockHeight = true)

theorem heightByPrev_node {tip : CBlockIndex} (htip : V.base.chainTip = some tip) (block : CBlock) :
    heightByPrev V.node.toCNode block tip = V.heightAfter block.hashPrevBlock := by
  rw [heightAfter, htip]
  rfl

theorem IsBlockValueValid_iff (block : CBlock) (nExpectedValue nMinted : CAmount) :
    IsBlockValueValid V.node block nExpectedValue nMinted = true ↔
      V.Waived (V.heightAfter block.hashPrevBlock) ∨ nMinted ≤ nExpectedValue := by
  have hle : (!decide (nMinted > nExpectedValue)) = true ↔ nMinted ≤ nExpectedValue := by
    rw [Bool.not_eq_true', decide_eq_false_iff_not]
    exact Int.not_lt
  cases htip : V.base.chainTip with
  | none =>
    have hnode : V.node.chainTip = none := htip
    rw [IsBlockValueValid, hnode]
    exact iff_of_true rfl (.inl (.inl htip))
  | some tip =>
    have hnode : V.node.chainTip = some tip := htip
    have hsome : V.base.chainTip ≠ none := fun h => some_ne_none tip (htip.symm.trans h)
    have hsync : V.node.IsSynced = V.base.IsSynced := rfl
    rw [IsBlockValueValid, hnode]
    dsimp only
    rw [heightByPrev_node htip, hsync]
    generalize V.heightAfter block.hashPrevBlock = nHeight
    have hbound : ¬ V.Waived nHeight →
        (nMinted ≤ nExpectedValue ↔ V.Waived nHeight ∨ nMinted ≤ nExpectedValue) :=
      fun hnot => ⟨.inr, fun h => h.resolve_left hnot⟩
    cases hsynced : V.base.IsSynced with
    | false =>
      rw [Bool.not_false, if_pos rfl]
      split
      · next hearly => exact iff_of_true rfl (.inl (.inr (.inl ⟨hsynced, hearly⟩)))
      · next hlate =>
          rw [hle]
          refine hbound ?_
          rintro (hnone | ⟨_, hearly⟩ | ⟨hcontra, _⟩)
          · exact hsome hnone
          · exact hlate hearly
          · exact Bool.false_ne_true (hsynced.symm.trans hcontra)
    | true =>
      have hunpaid : V.PaysBudget nHeight = false → ¬ V.Waived nHeight := by
        rintro hpays (hnone | ⟨hcontra, _⟩ | ⟨_, hcontra⟩)
        · exact hsome hnone
        · exact Bool.false_ne_true (hcontra.symm.trans hsynced)
        · exact Bool.false_ne_true (hpays.symm.trans hcontra)
      have hpays : V.PaysBudget nHeight =
          (Divitae.IsSporkActive V.node.sporks V.node.time SPORK_13_ENABLE_SUPERBLOCKS &&
            V.node.IsBudgetPaymentBlock nHeight) := rfl
      rw [Bool.not_true, if_neg Bool.false_ne_true]
      cases hspork : Divitae.IsSporkActive V.node.sporks V.node.time
          SPORK_13_ENABLE_SUPERBLOCKS with
      | false =>
        rw [Bool.not_false, if_pos rfl, decide_eq_true_iff]
        exact hbound (hunpaid (by rw [hpays, hspork, Bool.false_and]))
      | true =>
        rw [Bool.not_true, if_neg Bool.false_ne_true]
        cases hblock : V.node.IsBudgetPaymentBlock nHeight with
        | false =>
          rw [if_neg Bool.false_ne_true, hle]
          exact hbound (hunpaid (by rw [hpays, hblock, Bool.and_false]))
        | true =>
          rw [if_pos rfl]
          refine iff_of_true rfl (.inl (.inr (.inr ⟨hsynced, ?_⟩)))
          rw [hpays, hspork, hblock, Bool.and_self]

/-- The budget payment of a height: what the highest finalized budget pays, when the
node follows one there. -/
def scheduled (V : CPaymentNode) (nBlockHeight : Int) : CAmount :=
  if V.base.IsSynced && V.PaysBudget nBlockHeight then
    ((V.budget.payeeAndAmount nBlockHeight).map (·.2)).getD 0
  else 0

/-- Whatever block with this parent and time both checks accept, it creates no more than
the regular value and the budget payment. -/
def MintBounded (V : CPaymentNode) (hashPrevBlock : uint256) (nTime : Int)
    (nExpectedValue : CAmount) : Prop :=
  ∀ block : CBlock, block.hashPrevBlock = hashPrevBlock → block.nTime = nTime →
    ∀ nMinted : CAmount, IsBlockValueValid V.node block nExpectedValue nMinted = true →
      V.AcceptsPayee block (V.heightAfter hashPrevBlock) = true →
      nMinted ≤ nExpectedValue + V.scheduled (V.heightAfter hashPrevBlock)

theorem scheduled_of_unwaived (h : ¬ V.Waived nBlockHeight) : V.scheduled nBlockHeight = 0 := by
  refine if_neg fun hboth => h (.inr (.inr ?_))
  exact Bool.and_eq_true_iff.mp hboth

/-- A coin base and a coin stake that settle all dues, and the block of the two. -/
def settlingTx (V : CPaymentNode) (nBlockHeight : Int) (prevout : COutPoint) : CTransaction :=
  ⟨0, 1, [⟨prevout, [1, 1], 0⟩], .empty :: V.dues nBlockHeight, 0⟩

def settlingBlock (V : CPaymentNode) (hashPrevBlock : uint256) (nTime : Int) : CBlock :=
  ⟨0, 4, hashPrevBlock, nTime,
    [V.settlingTx (V.heightAfter hashPrevBlock) .SetNull,
      V.settlingTx (V.heightAfter hashPrevBlock) ⟨1, 0⟩], []⟩

/-- When do the value and payee checks bound what a block creates?  Where the value check
is not waived, and where the budgets stall. -/
theorem mintBounded_iff (V : CPaymentNode) (hashPrevBlock : uint256) (nTime : Int)
    (nExpectedValue : CAmount) :
    V.MintBounded hashPrevBlock nTime nExpectedValue ↔
      ¬ V.Waived (V.heightAfter hashPrevBlock) ∨ V.Stalled (V.heightAfter hashPrevBlock) := by
  constructor
  · intro hbounded
    by_contra hopen
    rw [not_or, not_not] at hopen
    obtain ⟨hwaived, hstalled⟩ := hopen
    have hdues (prevout : COutPoint) : ∀ out ∈ V.dues (V.heightAfter hashPrevBlock),
        out ∈ (V.settlingTx (V.heightAfter hashPrevBlock) prevout).vout :=
      fun out hout => .tail _ hout
    have hpayee : V.AcceptsPayee (V.settlingBlock hashPrevBlock nTime)
        (V.heightAfter hashPrevBlock) = true :=
      AcceptsPayee_of_dues rfl rfl (hdues _) (hdues _) hstalled
    have hle := hbounded (V.settlingBlock hashPrevBlock nTime) rfl rfl
      (nExpectedValue + V.scheduled (V.heightAfter hashPrevBlock) + 1)
      ((IsBlockValueValid_iff _ _ _).mpr (.inl hwaived)) hpayee
    exact absurd hle (Int.not_le.mpr (Int.lt_succ _))
  · rintro (hunwaived | hstalled) block rfl _ nMinted hvalue hpayee
    · rw [scheduled_of_unwaived hunwaived, Int.add_zero]
      exact ((IsBlockValueValid_iff _ _ _).mp hvalue).resolve_left hunwaived
    · rw [AcceptsPayee_stalled hstalled] at hpayee
      exact Bool.noConfusion hpayee

end CPaymentNode

/-! ### A block that creates a million coins

The tip is at 43199, ten prosperitynodes are enabled, and a finalized budget with two
votes pays ten coins at 43200. -/

def superblockEnv : BudgetEnv where
  fLiteMode := false
  isBlockchainSynced := true
  shutdownRequested := false
  time := 1700000000
  adjustedTime := 1700000000
  minProto := PROTOCOL_VERSION
  getTransaction _ := none
  inputAge _ := 0
  blockHeight _ := none
  chainHeight := 43199
  chainTime _ := none
  lockMain := true
  fFundamentalNode := false
  activeVin := .SetNull
  activePubKey := compressedKey 2
  nodes :=
    ⟨(List.range 10).map fun n => .ofBroadcast (announcement n 1600000000 []),
      fun _ => none, fun _ => none⟩
  activeProtocol := PROTOCOL_VERSION
  isSynced := true
  tipHeight := some 43199
  collateralValid _ _ := (true, none, 6)

def paidBudget : CFinalizedBudget where
  strBudgetName := [109]
  nBlockStart := 43200
  vecBudgetPayments := [⟨1, [1], 10 * COIN⟩]
  nFeeTXHash := 5
  nTime := 1600000000
  mapVotes :=
    (AList.singleton 1 ⟨true, ⟨⟨7, 1⟩, [], 0xFFFFFFFF⟩, 3, 1600000000, []⟩).insert 0
      ⟨true, ⟨⟨7, 0⟩, [], 0xFFFFFFFF⟩, 3, 1600000000, []⟩

def superblockNode : CPaymentNode where
  base :=
    { quietNode 43199 with
      sporks :=
        ⟨fun nSporkID => if nSporkID = SPORK_13_ENABLE_SUPERBLOCKS ∨
            nSporkID = SPORK_9_PROSPERITYNODE_BUDGET_ENFORCEMENT then
          some ⟨nSporkID, 1500000000, 1500000000, []⟩ else none, fun _ => none⟩ }
  env := superblockEnv
  budget :=
    { CBudgetManager.empty with budgets := ⟨AList.singleton 3 paidBudget, fun _ => false,
      fun _ => none, ∅⟩ }
  mapPayment_History _ := none
  prosperitynodePayments := .empty
  masternodePayments := ⟨[]⟩
  mapMNSporksActive _ := none
  GetSeeSaw _ blockValue := blockValue

/-- The stake of one coin that pays the budget, and a million coins to itself. -/
def superblock : CBlock :=
  { quietBlock 0 [] with
    vtx := [emptyCoinBase,
      ⟨201, 1, [⟨⟨7, 0⟩, [], 0⟩], [.empty, ⟨1000001 * COIN, []⟩, ⟨10 * COIN, [1]⟩], 0⟩] }

/-- The value of the height is one coin and the budget pays ten, yet the block is connected. -/
theorem superblock_mints_million :
    superblockNode.heightAfter 100 = 43200 ∧ paidBudget.Covers 43200 = true ∧
    superblockNode.scheduled 43200 = 10 * COIN ∧
    (∃ c, ConnectBlock superblockNode.node superblock (quietIndex 43199) (quietTip 43199) oneCoin
      false false = .ok c ∧ c.pindex.nMint = 1000010 * COIN) ∧
    ¬ superblockNode.MintBounded superblock.hashPrevBlock superblock.nTime
      (GetBlockValue mainParams 43199) := by
  refine ⟨by decide, by decide, by decide, ?_, ?_⟩
  · have hmint : (ConnectBlock superblockNode.node superblock (quietIndex 43199) (quietTip 43199)
        oneCoin false false).toOption.any (fun c => c.pindex.nMint == 1000010 * COIN) = true := by
      decide
    cases hc : ConnectBlock superblockNode.node superblock (quietIndex 43199) (quietTip 43199)
        oneCoin false false with
    | error e =>
      rw [hc] at hmint
      exact Bool.noConfusion hmint
    | ok c =>
      rw [hc] at hmint
      exact ⟨c, rfl, eq_of_beq hmint⟩
  · intro hbounded
    have hle := hbounded superblock rfl rfl (1000010 * COIN) (by decide) (by decide)
    exact absurd hle (by decide)

end Divitae
