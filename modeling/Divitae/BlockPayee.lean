/-
# `BlockPayee` — who must be paid in a block

`IsBlockPayeeValid` of `prosperitynode-payments.cpp` and what it asks: the finalized
budgets, the votes on the prosperitynode of a height and the masternode winners.  The
check stops at the first of these that decides:

    not synced                            accepted
    masternode winner known, unpaid       rejected
    budget block, payment found           accepted
    budget block, no payment              rejected, with spork 9 on
    otherwise                             by the prosperitynode payee, with spork 8 on

A budget that recognizes its payment records it in `mapPayment_History`, so the check
changes the node it runs on.
-/
import Divitae.Budget
import Divitae.ConnectBlock
import Divitae.Lib.Highest

namespace Divitae

inductive TrxValidationStatus where
  | InValid
  | Valid
  | DoublePayment
  | VoteThreshold
  deriving DecidableEq

/-- `mapPayment_History`: the heights proposals were paid at.  All finalized budgets
share it. -/
abbrev PaymentHistory := uint256 → Option Int

/-- The values of a `std::map`, as its iterator meets them. -/
def HashMap.inOrder {ν : Type} (m : HashMap ν) : List ν :=
  (m.entries.insertionSort fun a b => a.1 ≤ b.1).map (·.2)

theorem HashMap.mem_inOrder {ν : Type} {m : HashMap ν} {v : ν} :
    v ∈ HashMap.inOrder m ↔ ∃ k, ⟨k, v⟩ ∈ m.entries := by
  unfold HashMap.inOrder
  simp only [List.mem_map, List.mem_insertionSort]
  constructor
  · rintro ⟨e, he, rfl⟩
    exact ⟨e.1, he⟩
  · rintro ⟨k, hk⟩
    exact ⟨⟨k, v⟩, hk, rfl⟩

/-! ## Finalized budgets -/

namespace CFinalizedBudget

variable (b : CFinalizedBudget)

/-- The height is between `GetBlockStart()` and `GetBlockEnd()`. -/
def Covers (nBlockHeight : Int) : Bool :=
  nBlockHeight ≥ b.nBlockStart && nBlockHeight ≤ b.GetBlockEnd

/-- The payment of a height, if its index is one of the vector's. -/
def paymentAt (nBlockHeight : Int) : Option CTxBudgetPayment :=
  let nCurrentBudgetPayment := nBlockHeight - b.nBlockStart
  if nCurrentBudgetPayment < 0 then none
  else if nCurrentBudgetPayment > (b.vecBudgetPayments.length : Int) - 1 then none
  else b.vecBudgetPayments[nCurrentBudgetPayment.toNat]?

def GetPayeeAndAmount (nBlockHeight : Int) : Option (CScript × CAmount) :=
  (b.paymentAt nBlockHeight).map fun payment => (payment.payee, payment.nAmount)

/-- `IsPaidAlready`: the history without the payments at heights the budget does not
cover, and with this one if it is the first of its proposal. -/
def IsPaidAlready (history : PaymentHistory) (nProposalHash : uint256) (nBlockHeight : Int) :
    PaymentHistory × Bool :=
  let history : PaymentHistory := fun hash =>
    (history hash).filter fun nPaidBlockHeight =>
      !(nPaidBlockHeight < b.nBlockStart || nPaidBlockHeight > b.GetBlockEnd)
  match history nProposalHash with
  | none => (Function.update history nProposalHash (some nBlockHeight), false)
  | some _ => (history, true)

/-- The loop of `IsTransactionValid` over the outputs. -/
def checkOutputs (payment : CTxBudgetPayment) (nBlockHeight : Int) :
    List CTxOut → PaymentHistory → TrxValidationStatus → PaymentHistory × TrxValidationStatus
  | [], history, status => (history, status)
  | out :: vout, history, status =>
    if payment.payee = out.scriptPubKey ∧ payment.nAmount = out.nValue then
      match b.IsPaidAlready history payment.nProposalHash nBlockHeight with
      | (history, true) => (history, .DoublePayment)
      | (history, false) => checkOutputs payment nBlockHeight vout history .Valid
    else checkOutputs payment nBlockHeight vout history status

def IsTransactionValid (history : PaymentHistory) (txNew : CTransaction) (nBlockHeight : Int) :
    PaymentHistory × TrxValidationStatus :=
  match b.paymentAt nBlockHeight with
  | none => (history, .InValid)
  | some payment => b.checkOutputs payment nBlockHeight txNew.vout history .InValid

end CFinalizedBudget

namespace CBudgetManager

variable (env : BudgetEnv) (s : CBudgetManager)

/-- `mapFinalizedBudgets`, as its iterator meets them. -/
def finalizedBudgets : List CFinalizedBudget := HashMap.inOrder s.budgets.objects

/-- The loop that grabs the highest count of the budgets that cover a height. -/
def highestCount (nBlockHeight nHighestCount : Int) : Int :=
  (Highest.search (fun b : CFinalizedBudget => (b.GetVoteCount : Int))
    (s.finalizedBudgets.filter (·.Covers nBlockHeight)) (nHighestCount, none)).1

def IsBudgetPaymentBlock (nBlockHeight : Int) : Bool :=
  s.highestCount nBlockHeight (-1) > (env.CountEnabled : Int) / 20

/-- The loop of `IsTransactionValid` over the budgets. -/
def checkBudgets (txNew : CTransaction) (nBlockHeight nCountThreshold : Int) :
    List CFinalizedBudget → PaymentHistory → TrxValidationStatus → Bool →
      PaymentHistory × TrxValidationStatus
  | [], history, status, fThreshold => (history, if fThreshold then status else .VoteThreshold)
  | b :: budgets, history, status, fThreshold =>
    if (b.GetVoteCount : Int) > nCountThreshold then
      if b.Covers nBlockHeight then
        match b.IsTransactionValid history txNew nBlockHeight with
        | (history, .Valid) => (history, .Valid)
        | (history, status) =>
          checkBudgets txNew nBlockHeight nCountThreshold budgets history status true
      else checkBudgets txNew nBlockHeight nCountThreshold budgets history status true
    else checkBudgets txNew nBlockHeight nCountThreshold budgets history status fThreshold

def IsTransactionValid (history : PaymentHistory) (txNew : CTransaction) (nBlockHeight : Int) :
    PaymentHistory × TrxValidationStatus :=
  let nHighestCount := s.highestCount nBlockHeight 0
  if nHighestCount < (env.CountEnabled : Int) / 20 then (history, .InValid)
  else
    -- the highest budgets, give or take a tenth of the nodes
    let nCountThreshold := nHighestCount - (env.CountEnabled : Int) / 10
    checkBudgets txNew nBlockHeight nCountThreshold s.finalizedBudgets history .InValid false

/-- The payee and the amount `FillBlockPayee` finds for a height: the first of the
highest count. -/
def payeeAndAmount (nBlockHeight : Int) : Option (CScript × CAmount) :=
  (Highest.search (fun b : CFinalizedBudget => (b.GetVoteCount : Int))
    (s.finalizedBudgets.filter fun b =>
      b.Covers nBlockHeight && (b.GetPayeeAndAmount nBlockHeight).isSome) (0, none)).2.bind
    (·.GetPayeeAndAmount nBlockHeight)

end CBudgetManager

/-! ## Prosperitynodes -/

/-- `GetProsperitynodePayment`.  Both branches of the source behind the test network's
are the same, and the count is not used. -/
def GetProsperitynodePayment (P : CChainParams) (nHeight : Int) (blockValue : CAmount) : CAmount :=
  if P.networkID = .TESTNET ∧ nHeight < 200 then 0 else (blockValue * 3).tdiv 10

namespace CProsperitynodeBlockPayees

variable (P : CChainParams) (b : CProsperitynodeBlockPayees)

def GetPayee : Option CScript :=
  (Highest.search CProsperitynodePayee.nVotes b.vecPayments (-1, none)).2.map
    CProsperitynodePayee.scriptPubKey

def requiredProsperitynodePayment : CAmount :=
  GetProsperitynodePayment P b.nBlockHeight (GetBlockValue P b.nBlockHeight)

/-- `IsTransactionValid`: without a payee of six votes whichever chain is longest, with
some, one of them paid. -/
def IsTransactionValid (txNew : CTransaction) : Bool :=
  let binding := b.vecPayments.filter fun p => p.nVotes ≥ MNPAYMENTS_SIGNATURES_REQUIRED
  binding.isEmpty || binding.any fun payee =>
    txNew.vout.any fun out =>
      payee.scriptPubKey == out.scriptPubKey && out.nValue ≥ b.requiredProsperitynodePayment P

end CProsperitynodeBlockPayees

namespace CProsperitynodePayments

variable (P : CChainParams) (s : CProsperitynodePayments)

def GetBlockPayee (nBlockHeight : Int) : Option CScript :=
  (s.mapProsperitynodeBlocks nBlockHeight).bind CProsperitynodeBlockPayees.GetPayee

def IsTransactionValid (txNew : CTransaction) (nBlockHeight : Int) : Bool :=
  (s.mapProsperitynodeBlocks nBlockHeight).all (·.IsTransactionValid P txNew)

end CProsperitynodePayments

/-! ## Masternodes -/

def START_MASTERNODE_PAYMENTS : Int := 1511347576

def MN_SPORK_1_MASTERNODE_PAYMENTS_ENFORCEMENT : Int := 10000

/-- The defaults of `IsMNSporkActive`; spork 7 is given its id. -/
def mnSporkDefaults : List (Int × Int) :=
  [(10000, 1424217600), (10001, 978307200), (10002, 1424217600), (10004, 10000), (10006, 10006)]

/-- `IsMNSporkActive`, from the values in `mapMNSporksActive`. -/
def IsMNSporkActive (mapMNSporksActive : Int → Option Int) (now nMNSporkID : Int) : Bool :=
  let r := (mapMNSporksActive nMNSporkID).getD ((mnSporkDefaults.lookup nMNSporkID).getD 0)
  (if r = 0 then 4070908800 else r) < now

structure CMasternodePaymentWinner where
  nBlockHeight : Int
  payee : CScript
  deriving DecidableEq

structure CMasternodePayments where
  vWinning : List CMasternodePaymentWinner

def CMasternodePayments.GetBlockPayee (s : CMasternodePayments) (nBlockHeight : Int) :
    Option CScript :=
  (s.vWinning.find? fun winner => winner.nBlockHeight == nBlockHeight).map (·.payee)

/-! ## The check -/

/-- What the payee check reads of the node and writes to it. -/
structure CPaymentNode where
  base : CConnectNode
  /-- `mnodeman` and what counting it asks -/
  env : BudgetEnv
  budget : CBudgetManager
  mapPayment_History : PaymentHistory
  prosperitynodePayments : CProsperitynodePayments
  masternodePayments : CMasternodePayments
  mapMNSporksActive : Int → Option Int
  /-- `GetSeeSaw`, a table of doubles over the masternode count and the money supply -/
  GetSeeSaw : Int → CAmount → CAmount

namespace CPaymentNode

variable (V : CPaymentNode)

def IsSporkActive (nSporkID : Int) : Bool :=
  Divitae.IsSporkActive V.base.sporks V.base.time nSporkID

/-- `GetMasternodePayment`.  A reward is a whole number of coins, of which `.6` is exact. -/
def GetMasternodePayment (nHeight : Int) (blockValue : CAmount) : CAmount :=
  if V.base.P.networkID = .TESTNET ∧ nHeight < 200 then 0
  else if nHeight < 209467 then (blockValue * 6).tdiv 10
  else if nHeight < GetSporkValue V.base.sporks SPORK_22_REMOVE_SEESAW_BLOCK then
    V.GetSeeSaw nHeight ((blockValue * 6).tdiv 10)
  else (blockValue * 6).tdiv 10

/-- The masternode payee the second transaction must pay: nobody when no winner is known
for the height, or one with an empty script. -/
def masternodePayee (nHeight : Int) : Option CScript :=
  (V.masternodePayments.GetBlockPayee nHeight).filter (· != [])

/-- The masternode part; nothing where the source reads behind the end of `vtx`. -/
def checkMasternodePayment (block : CBlock) : Option Bool :=
  if !(block.nTime > START_MASTERNODE_PAYMENTS && Divitae.IsMNSporkActive V.mapMNSporksActive
      V.base.time MN_SPORK_1_MASTERNODE_PAYMENTS_ENFORCEMENT) then some true
  else
    match V.base.chainTip with
    | none => some true
    | some tip =>
      if tip.phashBlock ≠ some block.hashPrevBlock then some true
      else if V.base.IsInitialBlockDownload then some true
      else
        let masternodePaymentAmount :=
          V.GetMasternodePayment (tip.nHeight + 1) (GetBlockValue V.base.P (tip.nHeight + 1))
        block.vtx[1]?.map fun tx =>
          match V.masternodePayee (tip.nHeight + 1) with
          | none => true
          | some payee => tx.vout.any fun out =>
            out.nValue == masternodePaymentAmount && out.scriptPubKey == payee

/-- The prosperitynode part. -/
def checkProsperitynodePayment (txNew : CTransaction) (nBlockHeight : Int) : Bool :=
  V.prosperitynodePayments.IsTransactionValid V.base.P txNew nBlockHeight ||
    !V.IsSporkActive SPORK_8_PROSPERITYNODE_PAYMENT_ENFORCEMENT

/-- Budgets are paid and the height has one to pay. -/
def PaysBudget (nBlockHeight : Int) : Bool :=
  V.IsSporkActive SPORK_13_ENABLE_SUPERBLOCKS && V.budget.IsBudgetPaymentBlock V.env nBlockHeight

/-- `IsBlockPayeeValid`, with the history it leaves. -/
def IsBlockPayeeValid (block : CBlock) (nBlockHeight : Int) : Option (PaymentHistory × Bool) :=
  if !V.base.IsSynced then some (V.mapPayment_History, true)
  else
    (V.checkMasternodePayment block).bind fun fFound =>
    if !fFound then some (V.mapPayment_History, false)
    else
      (if nBlockHeight > V.base.P.nLastPOWBlock then block.vtx[1]? else block.vtx[0]?).bind
      fun txNew =>
      if V.PaysBudget nBlockHeight then
        match V.budget.IsTransactionValid V.env V.mapPayment_History txNew nBlockHeight with
        | (history, .Valid) => some (history, true)
        | (history, status) =>
          if status = .InValid ∧
              V.IsSporkActive SPORK_9_PROSPERITYNODE_BUDGET_ENFORCEMENT = true then
            some (history, false)
          else some (history, V.checkProsperitynodePayment txNew nBlockHeight)
      else some (V.mapPayment_History, V.checkProsperitynodePayment txNew nBlockHeight)

def AcceptsPayee (block : CBlock) (nBlockHeight : Int) : Bool :=
  (V.IsBlockPayeeValid block nBlockHeight).any (·.2)

/-- The node of the other checks, its questions about payments answered by this one. -/
def node : CConnectNode :=
  { V.base with
    IsBudgetPaymentBlock := V.budget.IsBudgetPaymentBlock V.env
    IsBlockPayeeValid := V.AcceptsPayee }

end CPaymentNode

end Divitae
