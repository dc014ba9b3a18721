/-
# `BudgetRecord` — the record a budget check leaves

`CBudgetManager::IsTransactionValid` asks the finalized budgets that have the votes and cover the
height (`consulted`), one after the other.  A budget that finds its payment in the transaction
looks its proposal up in `mapPayment_History` and, where it is not there, writes it, so the
check itself makes the next check of the same block fail.

    consult_unfound    without a payment in the transaction nothing is written
    consult_written    with one, the proposal is in the record afterwards
    check_pure_iff     when a check leaves every verdict as it was, whatever is on record

`IsPaidAlready` says the record is "for checks with later blocks from this cycle".
-/
import Divitae.BudgetMint

namespace Divitae

namespace CFinalizedBudget

variable (b : CFinalizedBudget)

/-- The transaction has the output the budget looks for at a height. -/
def Finds (tx : CTransaction) (nBlockHeight : Int) : Prop :=
  ∃ payment, b.paymentAt nBlockHeight = some payment ∧ ⟨payment.nAmount, payment.payee⟩ ∈ tx.vout

/-- The proposal paid at the height is on record, and no payment of another cycle is. -/
def Settled (history : PaymentHistory) (nBlockHeight : Int) : Prop :=
  (∀ payment, b.paymentAt nBlockHeight = some payment → history payment.nProposalHash ≠ none) ∧
    ∀ hash nPaidBlockHeight, history hash = some nPaidBlockHeight → b.Covers nPaidBlockHeight = true

end CFinalizedBudget

namespace CBudgetManager

variable (env : BudgetEnv) (s : CBudgetManager)

def consulted (nBlockHeight : Int) : List CFinalizedBudget :=
  if s.highestCount nBlockHeight 0 < (env.CountEnabled : Int) / 20 then []
  else s.finalizedBudgets.filter fun b =>
    (b.GetVoteCount : Int) > s.highestCount nBlockHeight 0 - (env.CountEnabled : Int) / 10 &&
      b.Covers nBlockHeight

def consult (tx : CTransaction) (nBlockHeight : Int) :
    List CFinalizedBudget → PaymentHistory → TrxValidationStatus →
      PaymentHistory × TrxValidationStatus
  | [], history, status => (history, status)
  | b :: budgets, history, _ =>
    match b.IsTransactionValid history tx nBlockHeight with
    | (history, .Valid) => (history, .Valid)
    | (history, status) => consult tx nBlockHeight budgets history status

end CBudgetManager

theorem TrxValidationStatus.doublePayment_ne_valid : DoublePayment ≠ Valid := nofun

theorem TrxValidationStatus.inValid_ne_valid : InValid ≠ Valid := nofun

open TrxValidationStatus (doublePayment_ne_valid inValid_ne_valid)

/-! ## One budget -/

namespace CFinalizedBudget

variable {b : CFinalizedBudget} {history : PaymentHistory} {tx : CTransaction}
  {nBlockHeight : Int} {payment : CTxBudgetPayment}

/-- The record after the other cycles are taken out. -/
def thisCycle (b : CFinalizedBudget) (history : PaymentHistory) : PaymentHistory := fun hash =>
  (history hash).filter fun nPaidBlockHeight => b.Covers nPaidBlockHeight

theorem covers_iff (nPaidBlockHeight : Int) :
    (!(nPaidBlockHeight < b.nBlockStart || nPaidBlockHeight > b.GetBlockEnd)) =
      b.Covers nPaidBlockHeight := by
  unfold Covers
  rcases Int.lt_or_le nPaidBlockHeight b.nBlockStart with h | h
  · simp [h, Int.not_le.mpr h]
  · rcases Int.lt_or_le b.GetBlockEnd nPaidBlockHeight with h' | h'
    · simp [h, Int.not_lt.mpr h, h', Int.not_le.mpr h']
    · simp [h, Int.not_lt.mpr h, h', Int.not_lt.mpr h']

theorem IsPaidAlready_eq (nProposalHash : uint256) :
    b.IsPaidAlready history nProposalHash nBlockHeight =
      match b.thisCycle history nProposalHash with
      | none => (Function.update (b.thisCycle history) nProposalHash (some nBlockHeight), false)
      | some _ => (b.thisCycle history, true) := by
  unfold IsPaidAlready
  simp only [covers_iff]
  rfl

theorem thisCycle_eq_self
    (h : ∀ hash nPaidBlockHeight, history hash = some nPaidBlockHeight →
      b.Covers nPaidBlockHeight = true) : b.thisCycle history = history := by
  funext hash
  unfold thisCycle
  cases hhash : history hash with
  | none => rfl
  | some nPaidBlockHeight => rw [Option.filter_some, if_pos (h hash nPaidBlockHeight hhash)]

theorem thisCycle_some {hash : uint256} (h : history hash = some nBlockHeight)
    (hcovers : b.Covers nBlockHeight = true) : b.thisCycle history hash = some nBlockHeight := by
  unfold thisCycle
  rw [h, Option.filter_some, if_pos hcovers]

theorem thisCycle_cases (history : PaymentHistory) (hash : uint256) :
    b.thisCycle history hash = history hash ∨ b.thisCycle history hash = none := by
  unfold thisCycle
  cases history hash with
  | none => exact .inl rfl
  | some nPaidBlockHeight =>
    rw [Option.filter_some]
    split
    · exact .inl rfl
    · exact .inr rfl

theorem checkOutputs_unfound : ∀ {vout : List CTxOut} {status : TrxValidationStatus},
    ⟨payment.nAmount, payment.payee⟩ ∉ vout →
      b.checkOutputs payment nBlockHeight vout history status = (history, status)
  | [], _, _ => rfl
  | out :: vout, status, h => by
    have hne : ¬ (payment.payee = out.scriptPubKey ∧ payment.nAmount = out.nValue) := by
      rintro ⟨hpayee, hamount⟩
      refine h (List.mem_cons.mpr (.inl ?_))
      rw [hpayee, hamount]
    rw [checkOutputs, if_neg hne]
    exact checkOutputs_unfound fun hmem => h (.tail _ hmem)

theorem IsTransactionValid_unfound (h : ¬ b.Finds tx nBlockHeight) (history : PaymentHistory) :
    b.IsTransactionValid history tx nBlockHeight = (history, .InValid) := by
  unfold IsTransactionValid
  cases hpay : b.paymentAt nBlockHeight with
  | none => rfl
  | some payment => exact checkOutputs_unfound fun hmem => h ⟨payment, hpay, hmem⟩

variable {nPaidBlockHeight : Int}

theorem checkOutputs_recorded
    (hpaid : b.thisCycle history payment.nProposalHash = some nPaidBlockHeight)
    (hcycle : b.thisCycle history = history) :
    ∀ {vout : List CTxOut} {status : TrxValidationStatus},
    ⟨payment.nAmount, payment.payee⟩ ∈ vout →
      b.checkOutputs payment nBlockHeight vout history status = (history, .DoublePayment)
  | out :: vout, status, h => by
    rw [checkOutputs]
    by_cases hpays : payment.payee = out.scriptPubKey ∧ payment.nAmount = out.nValue
    · rw [if_pos hpays, IsPaidAlready_eq, hpaid, hcycle]
    · rw [if_neg hpays]
      refine checkOutputs_recorded hpaid hcycle ((List.mem_cons.mp h).resolve_left ?_)
      rintro rfl
      exact hpays ⟨rfl, rfl⟩

theorem IsTransactionValid_settled (hfinds : b.Finds tx nBlockHeight)
    (h : b.Settled history nBlockHeight) :
    b.IsTransactionValid history tx nBlockHeight = (history, .DoublePayment) := by
  obtain ⟨payment, hpay, hmem⟩ := hfinds
  obtain ⟨hrecorded, hcycle⟩ := h
  have hself := thisCycle_eq_self hcycle
  obtain ⟨nPaidBlockHeight, hpaid⟩ := Option.ne_none_iff_exists'.mp (hrecorded payment hpay)
  unfold IsTransactionValid
  rw [hpay]
  exact checkOutputs_recorded (hself.symm ▸ hpaid) hself hmem

theorem checkOutputs_found (hcovers : b.Covers nBlockHeight = true) :
    ∀ {vout : List CTxOut} {status : TrxValidationStatus},
      ⟨payment.nAmount, payment.payee⟩ ∈ vout →
        (b.checkOutputs payment nBlockHeight vout history status).1 =
          match b.thisCycle history payment.nProposalHash with
          | none => Function.update (b.thisCycle history) payment.nProposalHash (some nBlockHeight)
          | some _ => b.thisCycle history
  | out :: vout, status, h => by
    rw [checkOutputs]
    by_cases hpays : payment.payee = out.scriptPubKey ∧ payment.nAmount = out.nValue
    · rw [if_pos hpays, IsPaidAlready_eq]
      cases hpaid : b.thisCycle history payment.nProposalHash with
      | some nPaidBlockHeight => rfl
      | none =>
        dsimp only
        have hcycle : b.thisCycle (Function.update (b.thisCycle history) payment.nProposalHash
            (some nBlockHeight)) =
            Function.update (b.thisCycle history) payment.nProposalHash (some nBlockHeight) := by
          refine thisCycle_eq_self ?_
          intro hash nPaidBlockHeight hhash
          rcases eq_or_ne hash payment.nProposalHash with rfl | hne
          · rw [Function.update_self] at hhash
            exact Option.some.inj hhash ▸ hcovers
          · rw [Function.update_of_ne hne] at hhash
            unfold thisCycle at hhash
            exact (Option.filter_eq_some_iff.mp hhash).2
        by_cases hagain : ⟨payment.nAmount, payment.payee⟩ ∈ vout
        · rw [checkOutputs_recorded (hcycle.symm ▸ Function.update_self ..) hcycle hagain]
        · rw [checkOutputs_unfound hagain]
    · rw [if_neg hpays]
      refine checkOutputs_found hcovers ((List.mem_cons.mp h).resolve_left ?_)
      rintro rfl
      exact hpays ⟨rfl, rfl⟩

theorem IsTransactionValid_found (hcovers : b.Covers nBlockHeight = true)
    (hpay : b.paymentAt nBlockHeight = some payment)
    (hmem : ⟨payment.nAmount, payment.payee⟩ ∈ tx.vout) :
    (b.IsTransactionValid history tx nBlockHeight).1 =
      match b.thisCycle history payment.nProposalHash with
      | none => Function.update (b.thisCycle history) payment.nProposalHash (some nBlockHeight)
      | some _ => b.thisCycle history := by
  unfold IsTransactionValid
  rw [hpay]
  exact checkOutputs_found hcovers hmem

/-- Entries only go, or become payments of this height, and those stay. -/
def Moves (nBlockHeight : Int) (history history' : PaymentHistory) : Prop :=
  ∀ hash, (history' hash = history hash ∨ history' hash = none ∨
      history' hash = some nBlockHeight) ∧
    (history hash = some nBlockHeight → history' hash = some nBlockHeight)

theorem Moves.refl (history : PaymentHistory) : Moves nBlockHeight history history :=
  fun _ => ⟨.inl rfl, id⟩

theorem Moves.trans {history' history'' : PaymentHistory}
    (h : Moves nBlockHeight history history') (h' : Moves nBlockHeight history' history'') :
    Moves nBlockHeight history history'' := by
  intro hash
  obtain ⟨hto, hstay⟩ := h hash
  obtain ⟨hto', hstay'⟩ := h' hash
  refine ⟨?_, fun heq => hstay' (hstay heq)⟩
  rcases hto' with heq | hrest
  · rw [heq]
    exact hto
  · exact .inr hrest

theorem Moves.antisymm {history' : PaymentHistory} (h : Moves nBlockHeight history history')
    (h' : Moves nBlockHeight history' history) : history' = history := by
  funext hash
  obtain ⟨hto, hstay⟩ := h hash
  obtain ⟨hto', hstay'⟩ := h' hash
  rcases hto with heq | hnone | hhere
  · exact heq
  · rcases hto' with heq | heq | heq
    · exact heq.symm
    · rw [hnone, heq]
    · exact (hstay heq).trans heq.symm
  · exact hhere.trans (hstay' hhere).symm

theorem IsTransactionValid_moves (hcovers : b.Covers nBlockHeight = true) (tx : CTransaction)
    (history : PaymentHistory) :
    Moves nBlockHeight history (b.IsTransactionValid history tx nBlockHeight).1 := by
  by_cases hfinds : b.Finds tx nBlockHeight
  · obtain ⟨payment, hpay, hmem⟩ := hfinds
    rw [IsTransactionValid_found hcovers hpay hmem]
    have hcycle : Moves nBlockHeight history (b.thisCycle history) := by
      intro hash
      refine ⟨?_, fun heq => thisCycle_some heq hcovers⟩
      rcases thisCycle_cases (b := b) history hash with heq | heq
      · exact .inl heq
      · exact .inr (.inl heq)
    cases b.thisCycle history payment.nProposalHash with
    | some _ => exact hcycle
    | none =>
      refine hcycle.trans ?_
      dsimp only
      intro hash
      rcases eq_or_ne hash payment.nProposalHash with rfl | hne
      · rw [Function.update_self]
        exact ⟨.inr (.inr rfl), fun _ => rfl⟩
      · rw [Function.update_of_ne hne]
        exact ⟨.inl rfl, id⟩
  · rw [IsTransactionValid_unfound hfinds]
    exact Moves.refl history

theorem settled_of_unchanged (hcovers : b.Covers nBlockHeight = true)
    (hfinds : b.Finds tx nBlockHeight)
    (h : (b.IsTransactionValid history tx nBlockHeight).1 = history) :
    b.Settled history nBlockHeight := by
  obtain ⟨payment, hpay, hmem⟩ := hfinds
  rw [IsTransactionValid_found hcovers hpay hmem] at h
  cases hpaid : b.thisCycle history payment.nProposalHash with
  | none =>
    rw [hpaid] at h
    dsimp only at h
    have hhere := congrFun h payment.nProposalHash
    rw [Function.update_self] at hhere
    rw [thisCycle_some hhere.symm hcovers] at hpaid
    cases hpaid
  | some nPaidBlockHeight =>
    rw [hpaid] at h
    dsimp only at h
    rw [h] at hpaid
    refine ⟨?_, ?_⟩
    · intro payment' hpay'
      obtain rfl : payment = payment' := Option.some.inj (hpay.symm.trans hpay')
      rw [hpaid]
      exact Option.some_ne_none _
    · intro hash nPaid hhash
      rw [← h] at hhash
      exact (Option.filter_eq_some_iff.mp hhash).2

end CFinalizedBudget

/-! ## All of them -/

namespace CBudgetManager

variable {env : BudgetEnv} {s : CBudgetManager} {tx : CTransaction} {nBlockHeight : Int}
  {budgets : List CFinalizedBudget} {history : PaymentHistory} {status : TrxValidationStatus}

theorem consult_cons (b : CFinalizedBudget) (budgets : List CFinalizedBudget)
    (history : PaymentHistory) (status : TrxValidationStatus) :
    consult tx nBlockHeight (b :: budgets) history status =
      if (b.IsTransactionValid history tx nBlockHeight).2 = .Valid then
        b.IsTransactionValid history tx nBlockHeight
      else consult tx nBlockHeight budgets (b.IsTransactionValid history tx nBlockHeight).1
        (b.IsTransactionValid history tx nBlockHeight).2 := by
  rw [consult]
  rcases hb : b.IsTransactionValid history tx nBlockHeight with ⟨history', status'⟩
  cases status' <;> simp

theorem checkBudgets_eq (tx : CTransaction) (nBlockHeight nCountThreshold : Int) :
    ∀ (budgets : List CFinalizedBudget) (history : PaymentHistory) (status : TrxValidationStatus)
      (fThreshold : Bool),
      checkBudgets tx nBlockHeight nCountThreshold budgets history status fThreshold =
        ((consult tx nBlockHeight (budgets.filter fun b =>
            (b.GetVoteCount : Int) > nCountThreshold && b.Covers nBlockHeight) history status).1,
          if fThreshold || budgets.any (fun b => (b.GetVoteCount : Int) > nCountThreshold) then
            (consult tx nBlockHeight (budgets.filter fun b =>
              (b.GetVoteCount : Int) > nCountThreshold && b.Covers nBlockHeight) history status).2
          else .VoteThreshold)
  | [], history, status, fThreshold => by
    rw [checkBudgets, List.filter_nil, consult, List.any_nil, Bool.or_false]
  | b :: budgets, history, status, fThreshold => by
    have ih := checkBudgets_eq tx nBlockHeight nCountThreshold budgets
    by_cases hheard : (b.GetVoteCount : Int) > nCountThreshold
    · cases hcovers : b.Covers nBlockHeight with
      | false => simp [checkBudgets, hheard, hcovers, ih]
      | true =>
        rcases hb : b.IsTransactionValid history tx nBlockHeight with ⟨history', status'⟩
        cases status' <;>
          simp [checkBudgets, hheard, hcovers, consult_cons, hb, ih]
    · simp [checkBudgets, hheard, ih]

theorem IsTransactionValid_fst (env : BudgetEnv) (s : CBudgetManager) (history : PaymentHistory)
    (tx : CTransaction) (nBlockHeight : Int) :
    (s.IsTransactionValid env history tx nBlockHeight).1 =
      (consult tx nBlockHeight (s.consulted env nBlockHeight) history .InValid).1 := by
  unfold IsTransactionValid consulted
  dsimp only
  split_ifs
  · rfl
  · rw [checkBudgets_eq]

theorem IsTransactionValid_snd (hany : s.consulted env nBlockHeight ≠ [])
    (history : PaymentHistory) (tx : CTransaction) :
    (s.IsTransactionValid env history tx nBlockHeight).2 =
      (consult tx nBlockHeight (s.consulted env nBlockHeight) history .InValid).2 := by
  unfold consulted at hany ⊢
  unfold IsTransactionValid
  dsimp only
  split_ifs at hany ⊢ with hfew
  · exact absurd rfl hany
  · rw [checkBudgets_eq]
    obtain ⟨b, hb⟩ := List.exists_mem_of_ne_nil _ hany
    obtain ⟨hmem, hheard⟩ := List.mem_filter.mp hb
    have hsome : s.finalizedBudgets.any (fun b => (b.GetVoteCount : Int) >
        s.highestCount nBlockHeight 0 - (env.CountEnabled : Int) / 10) = true :=
      List.any_eq_true.mpr ⟨b, hmem, (Bool.and_eq_true_iff.mp hheard).1⟩
    rw [hsome]
    rfl

variable {b : CFinalizedBudget}

theorem covers_of_consulted (hb : b ∈ s.consulted env nBlockHeight) :
    b.Covers nBlockHeight = true := by
  unfold consulted at hb
  split_ifs at hb
  · cases hb
  · exact (Bool.and_eq_true_iff.mp (List.mem_filter.mp hb).2).2

/-! ### What is written -/

theorem consult_settled (h : ∀ b ∈ budgets, b.Finds tx nBlockHeight →
    b.Settled history nBlockHeight) (hstatus : status ≠ .Valid) :
    (consult tx nBlockHeight budgets history status).1 = history ∧
      (consult tx nBlockHeight budgets history status).2 ≠ .Valid := by
  induction budgets generalizing status with
  | nil => exact ⟨rfl, hstatus⟩
  | cons b budgets ih =>
    have htail : ∀ b ∈ budgets, b.Finds tx nBlockHeight → b.Settled history nBlockHeight :=
      fun b' hb' => h b' (List.mem_cons_of_mem b hb')
    rw [consult_cons]
    by_cases hfinds : b.Finds tx nBlockHeight
    · rw [CFinalizedBudget.IsTransactionValid_settled hfinds (h b List.mem_cons_self hfinds),
        if_neg doublePayment_ne_valid]
      exact ih htail doublePayment_ne_valid
    · rw [CFinalizedBudget.IsTransactionValid_unfound hfinds, if_neg inValid_ne_valid]
      exact ih htail inValid_ne_valid

section
variable (hcovers : ∀ b ∈ budgets, b.Covers nBlockHeight = true)
include hcovers

theorem consult_moves
    (tx : CTransaction) (history : PaymentHistory) (status : TrxValidationStatus) :
    CFinalizedBudget.Moves nBlockHeight history
      (consult tx nBlockHeight budgets history status).1 := by
  induction budgets generalizing history status with
  | nil => exact CFinalizedBudget.Moves.refl history
  | cons b budgets ih =>
    have hone := CFinalizedBudget.IsTransactionValid_moves (hcovers b List.mem_cons_self) tx history
    rw [consult_cons]
    split_ifs
    · exact hone
    · exact hone.trans (ih (fun b' hb' => hcovers b' (List.mem_cons_of_mem b hb')) _ _)

theorem settled_of_consult (h : (consult tx nBlockHeight budgets history status).1 = history) :
    ∀ b ∈ budgets, b.Finds tx nBlockHeight → b.Settled history nBlockHeight := by
  induction budgets generalizing status with
  | nil =>
    intro b hb
    cases hb
  | cons b budgets ih =>
    have htail : ∀ b ∈ budgets, b.Covers nBlockHeight = true :=
      fun b' hb' => hcovers b' (List.mem_cons_of_mem b hb')
    have hhead := hcovers b List.mem_cons_self
    have hone := CFinalizedBudget.IsTransactionValid_moves hhead tx history
    have hunchanged : (b.IsTransactionValid history tx nBlockHeight).1 = history := by
      rw [consult_cons] at h
      split_ifs at h
      · exact h
      · have hrest := consult_moves htail tx
          (b.IsTransactionValid history tx nBlockHeight).1
          (b.IsTransactionValid history tx nBlockHeight).2
        rw [h] at hrest
        exact hone.antisymm hrest
    have hsettled : b.Finds tx nBlockHeight → b.Settled history nBlockHeight := fun hfinds =>
      CFinalizedBudget.settled_of_unchanged hhead hfinds hunchanged
    have hnot : (b.IsTransactionValid history tx nBlockHeight).2 ≠ .Valid := by
      by_cases hfinds : b.Finds tx nBlockHeight
      · rw [CFinalizedBudget.IsTransactionValid_settled hfinds (hsettled hfinds)]
        exact doublePayment_ne_valid
      · rw [CFinalizedBudget.IsTransactionValid_unfound hfinds]
        exact inValid_ne_valid
    rw [consult_cons, if_neg hnot, hunchanged] at h
    intro b' hb'
    rcases List.mem_cons.mp hb' with rfl | hb'
    · exact hsettled
    · exact ih htail h b' hb'

end

/-- Everything on record at this height, but for one proposal. -/
def allBut (nProposalHash : uint256) (nBlockHeight : Int) : PaymentHistory :=
  Function.update (fun _ => some nBlockHeight) nProposalHash none

section
variable (hcovers : b.Covers nBlockHeight = true)
include hcovers

theorem settled_all :
    b.Settled (fun _ => some nBlockHeight) nBlockHeight := by
  refine ⟨fun _ _ => Option.some_ne_none _, ?_⟩
  intro hash nPaidBlockHeight h
  exact Option.some.inj h ▸ hcovers

theorem allBut_covers {nProposalHash hash : uint256}
    (h : allBut nProposalHash nBlockHeight hash = some nPaidBlockHeight) :
    b.Covers nPaidBlockHeight = true := by
  unfold allBut at h
  rcases eq_or_ne hash nProposalHash with rfl | hne
  · rw [Function.update_self] at h
    cases h
  · rw [Function.update_of_ne hne] at h
    exact Option.some.inj h ▸ hcovers

variable {payment : CTxBudgetPayment} {nProposalHash : uint256}

theorem settled_allBut (hpay : b.paymentAt nBlockHeight = some payment)
    (hne : payment.nProposalHash ≠ nProposalHash) :
    b.Settled (allBut nProposalHash nBlockHeight) nBlockHeight := by
  refine ⟨?_, fun _ _ => allBut_covers hcovers⟩
  intro payment' hpay'
  obtain rfl : payment = payment' := Option.some.inj (hpay.symm.trans hpay')
  unfold allBut
  rw [Function.update_of_ne hne]
  exact Option.some_ne_none _

theorem thisCycle_allBut (nProposalHash : uint256) :
    b.thisCycle (allBut nProposalHash nBlockHeight) = allBut nProposalHash nBlockHeight :=
  CFinalizedBudget.thisCycle_eq_self fun _ _ => allBut_covers hcovers

theorem consult_skip (hpay : b.paymentAt nBlockHeight = some payment)
    (hnot : ¬ (payment.nProposalHash = nProposalHash ∧ b.Finds tx nBlockHeight)) :
    ∃ status', consult tx nBlockHeight (b :: budgets) (allBut nProposalHash nBlockHeight) status =
      consult tx nBlockHeight budgets (allBut nProposalHash nBlockHeight) status' := by
  rw [consult_cons]
  by_cases hfinds : b.Finds tx nBlockHeight
  · rw [CFinalizedBudget.IsTransactionValid_settled hfinds
      (settled_allBut hcovers hpay fun heq => hnot ⟨heq, hfinds⟩), if_neg doublePayment_ne_valid]
    exact ⟨_, rfl⟩
  · rw [CFinalizedBudget.IsTransactionValid_unfound hfinds, if_neg inValid_ne_valid]
    exact ⟨_, rfl⟩

end

theorem update_allBut (nProposalHash : uint256) (nBlockHeight : Int) :
    Function.update (allBut nProposalHash nBlockHeight) nProposalHash (some nBlockHeight) =
      fun _ => some nBlockHeight := by
  unfold allBut
  rw [Function.update_idem]
  exact Function.update_eq_self nProposalHash fun _ => some nBlockHeight

section
variable (hcovers : ∀ b ∈ budgets, b.Covers nBlockHeight = true)
include hcovers

theorem consult_written
    (hfound : ∃ b ∈ budgets, ∃ payment, b.paymentAt nBlockHeight = some payment ∧
      payment.nProposalHash = nProposalHash ∧ ⟨payment.nAmount, payment.payee⟩ ∈ tx.vout) :
    (consult tx nBlockHeight budgets (allBut nProposalHash nBlockHeight) status).1 =
      fun _ => some nBlockHeight := by
  induction budgets generalizing status with
  | nil =>
    obtain ⟨b, hb, -⟩ := hfound
    cases hb
  | cons b budgets ih =>
    have hhead := hcovers b List.mem_cons_self
    have htail : ∀ b ∈ budgets, b.Covers nBlockHeight = true :=
      fun b' hb' => hcovers b' (List.mem_cons_of_mem b hb')
    obtain ⟨payment, hpay⟩ := CFinalizedBudget.paymentAt_of_covers hhead
    by_cases hhere : payment.nProposalHash = nProposalHash ∧ b.Finds tx nBlockHeight
    · -- the first that finds the missing proposal writes it
      obtain ⟨rfl, payment', hpay', hmem⟩ := hhere
      obtain rfl : payment = payment' := Option.some.inj (hpay.symm.trans hpay')
      have hwritten := @CFinalizedBudget.IsTransactionValid_found b
        (allBut payment.nProposalHash nBlockHeight) tx nBlockHeight payment hhead hpay hmem
      rw [thisCycle_allBut hhead, allBut, Function.update_self, ← allBut, update_allBut] at hwritten
      rw [consult_cons]
      split_ifs with hvalid
      · exact hwritten
      · rw [hwritten]
        exact (consult_settled (fun b' hb' _ => settled_all (htail b' hb')) hvalid).1
    · -- any other leaves the record, and the proposal is found further on
      obtain ⟨status', hskip⟩ := consult_skip hhead hpay hhere
      rw [hskip]
      refine ih htail ?_
      obtain ⟨b', hb', payment', hpay', heq, hmem⟩ := hfound
      rcases List.mem_cons.mp hb' with rfl | hb'
      · obtain rfl : payment = payment' := Option.some.inj (hpay.symm.trans hpay')
        exact absurd ⟨heq, payment, hpay, hmem⟩ hhere
      · exact ⟨b', hb', payment', hpay', heq, hmem⟩

theorem consult_accepts (hvout : tx.vout = [⟨payment.nAmount, payment.payee⟩])
    (hfound : ∃ b ∈ budgets, b.paymentAt nBlockHeight = some payment) :
    (consult tx nBlockHeight budgets (allBut payment.nProposalHash nBlockHeight) status).2 =
      .Valid := by
  induction budgets generalizing status with
  | nil =>
    obtain ⟨b, hb, -⟩ := hfound
    cases hb
  | cons b budgets ih =>
    have hhead := hcovers b List.mem_cons_self
    have htail : ∀ b ∈ budgets, b.Covers nBlockHeight = true :=
      fun b' hb' => hcovers b' (List.mem_cons_of_mem b hb')
    obtain ⟨payment', hpay'⟩ := CFinalizedBudget.paymentAt_of_covers hhead
    by_cases hhere : payment'.nProposalHash = payment.nProposalHash ∧ b.Finds tx nBlockHeight
    · obtain ⟨heq, payment'', hpay'', hmem⟩ := hhere
      obtain rfl : payment' = payment'' := Option.some.inj (hpay'.symm.trans hpay'')
      have hpays : payment'.payee = payment.payee ∧ payment'.nAmount = payment.nAmount := by
        rw [hvout] at hmem
        obtain ⟨hamount, hpayee⟩ := CTxOut.mk.inj (List.mem_singleton.mp hmem)
        exact ⟨hpayee, hamount⟩
      have hvalid : (b.IsTransactionValid (allBut payment.nProposalHash nBlockHeight) tx
          nBlockHeight).2 = .Valid := by
        unfold CFinalizedBudget.IsTransactionValid
        rw [hpay', hvout]
        dsimp only
        rw [CFinalizedBudget.checkOutputs, if_pos hpays, CFinalizedBudget.IsPaidAlready_eq,
          thisCycle_allBut hhead, heq, allBut, Function.update_self]
        rfl
      rw [consult_cons, if_pos hvalid]
      exact hvalid
    · obtain ⟨status', hskip⟩ := consult_skip hhead hpay' hhere
      rw [hskip]
      refine ih htail ?_
      obtain ⟨b', hb', hpay⟩ := hfound
      rcases List.mem_cons.mp hb' with rfl | hb'
      · obtain rfl : payment' = payment := Option.some.inj (hpay'.symm.trans hpay)
        refine absurd ⟨rfl, payment', hpay', ?_⟩ hhere
        rw [hvout]
        exact List.mem_singleton_self _
      · exact ⟨b', hb', hpay⟩

end

/-- A check of the transaction leaves its own verdict and that on any other as they were. -/
def Pure (env : BudgetEnv) (s : CBudgetManager) (history : PaymentHistory) (tx : CTransaction)
    (nBlockHeight : Int) : Prop :=
  let after := (s.IsTransactionValid env history tx nBlockHeight).1
  (s.IsTransactionValid env after tx nBlockHeight).2 =
      (s.IsTransactionValid env history tx nBlockHeight).2 ∧
    ∀ other nOtherHeight, (s.IsTransactionValid env after other nOtherHeight).2 =
      (s.IsTransactionValid env history other nOtherHeight).2

theorem pure_of_unchanged
    (h : (s.IsTransactionValid env history tx nBlockHeight).1 = history) :
    s.Pure env history tx nBlockHeight := by
  unfold Pure
  rw [h]
  exact ⟨rfl, fun _ _ => rfl⟩

/-- **When checking a transaction changes no verdict.**  Whatever is on record: exactly if it
carries no payment a budget consulted at the height looks for.  On one record it writes nothing
exactly if each such budget has its proposal there and nothing of another cycle. -/
theorem check_pure_iff (env : BudgetEnv) (s : CBudgetManager) (tx : CTransaction)
    (nBlockHeight : Int) :
    ((∀ history, s.Pure env history tx nBlockHeight) ↔
      ∀ b ∈ s.consulted env nBlockHeight, ¬ b.Finds tx nBlockHeight) ∧
    ∀ history, ((s.IsTransactionValid env history tx nBlockHeight).1 = history ↔
        ∀ b ∈ s.consulted env nBlockHeight, b.Finds tx nBlockHeight →
          b.Settled history nBlockHeight) ∧
      ((s.IsTransactionValid env history tx nBlockHeight).1 = history →
        s.Pure env history tx nBlockHeight) := by
  have hcovers : ∀ b ∈ s.consulted env nBlockHeight, b.Covers nBlockHeight = true :=
    fun b hb => covers_of_consulted hb
  have hone : ∀ history, (s.IsTransactionValid env history tx nBlockHeight).1 = history ↔
      ∀ b ∈ s.consulted env nBlockHeight, b.Finds tx nBlockHeight →
        b.Settled history nBlockHeight := by
    intro history
    rw [IsTransactionValid_fst]
    exact ⟨settled_of_consult hcovers, fun h => (consult_settled h inValid_ne_valid).1⟩
  refine ⟨⟨?_, ?_⟩, fun history => ⟨hone history, pure_of_unchanged⟩⟩
  · intro hpure b hb hfinds
    obtain ⟨payment, hpay, hmem⟩ := hfinds
    have hany : s.consulted env nBlockHeight ≠ [] := List.ne_nil_of_mem hb
    -- the payment alone is valid before the check and not after it
    let alone : CTransaction := { tx with vout := [⟨payment.nAmount, payment.payee⟩] }
    have hbefore : (s.IsTransactionValid env (allBut payment.nProposalHash nBlockHeight) alone
        nBlockHeight).2 = .Valid := by
      rw [IsTransactionValid_snd hany]
      exact consult_accepts hcovers rfl ⟨b, hb, hpay⟩
    have hafter : (s.IsTransactionValid env (allBut payment.nProposalHash nBlockHeight) tx
        nBlockHeight).1 = fun _ => some nBlockHeight := by
      rw [IsTransactionValid_fst]
      exact consult_written hcovers ⟨b, hb, payment, hpay, rfl, hmem⟩
    have hsame := (hpure (allBut payment.nProposalHash nBlockHeight)).2 alone nBlockHeight
    rw [hafter, hbefore, IsTransactionValid_snd hany] at hsame
    exact (consult_settled (fun b' hb' _ => settled_all (hcovers b' hb')) inValid_ne_valid).2 hsame
  · intro hnone history
    refine pure_of_unchanged ((hone history).mpr ?_)
    intro b hb hfinds
    exact absurd hfinds (hnone b hb)

end CBudgetManager

/-- The coin stake that pays the budget of height 43200. -/
def paysBudget : CTransaction :=
  ⟨201, 1, [⟨⟨7, 0⟩, [], 0⟩], [.empty, ⟨COIN, []⟩, ⟨10 * COIN, [1]⟩], 0⟩

/-- Valid at the first check, a double payment at the second. -/
theorem second_check_fails :
    ¬ ∀ (env : BudgetEnv) (s : CBudgetManager) (history : PaymentHistory) (tx : CTransaction)
      (nBlockHeight : Int), s.Pure env history tx nBlockHeight := by
  intro hall
  have htwice := (hall superblockEnv superblockNode.budget (fun _ => none) paysBudget 43200).1
  exact absurd htwice (by decide +kernel)

end Divitae
