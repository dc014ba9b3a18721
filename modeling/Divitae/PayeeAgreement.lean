/-
# `PayeeAgreement` — the producer's payees before the validator

A coin stake that `FillBlockPayee` has filled in meets `IsBlockPayeeValid` in the same
state.  Both compute shares of a block value, but the producer takes the value of the
tip's height and the validator that of the height above it.  The prosperitynode's share
must be reached, the masternode's hit exactly, so the first fails where the value rises
(height 54000) and the second wherever it changes.  And in a budget block the producer
pays the budget alone while the validator still wants its masternode.
-/
import Divitae.BudgetMint
import Divitae.FillBlockPayee

namespace Divitae

open List TrxValidationStatus

/-! ## What the validator wants of a block on the tip -/

/-- The payees with enough votes to be binding. -/
def CProsperitynodeBlockPayees.Binding (b : CProsperitynodeBlockPayees) (payee : CScript) : Prop :=
  ∃ p ∈ b.vecPayments, MNPAYMENTS_SIGNATURES_REQUIRED ≤ p.nVotes ∧ p.scriptPubKey = payee

theorem CProsperitynodeBlockPayees.IsTransactionValid_iff (P : CChainParams)
    (b : CProsperitynodeBlockPayees) (tx : CTransaction) :
    b.IsTransactionValid P tx = true ↔
      (∀ payee, ¬ b.Binding payee) ∨
        ∃ out ∈ tx.vout, b.Binding out.scriptPubKey ∧
          b.requiredProsperitynodePayment P ≤ out.nValue := by
  unfold IsTransactionValid
  simp only [Bool.or_eq_true, List.isEmpty_iff, List.filter_eq_nil_iff, List.any_eq_true,
    List.mem_filter, decide_eq_true_eq, Bool.and_eq_true, beq_iff_eq, ge_iff_le]
  refine or_congr ?_ ?_
  · constructor
    · rintro hnone payee ⟨p, hp, hvotes, _⟩
      exact hnone p hp hvotes
    · intro hnone p hp hvotes
      exact hnone p.scriptPubKey ⟨p, hp, hvotes, rfl⟩
  · constructor
    · rintro ⟨p, ⟨hp, hvotes⟩, out, hout, hscript, hvalue⟩
      exact ⟨out, hout, ⟨p, hp, hvotes, hscript⟩, hvalue⟩
    · rintro ⟨out, hout, ⟨p, hp, hvotes, hscript⟩, hvalue⟩
      exact ⟨p, ⟨hp, hvotes⟩, out, hout, hscript, hvalue⟩

variable {payee : CScript} {b : CProsperitynodeBlockPayees}

theorem CProsperitynodeBlockPayees.GetPayee_binding
    (h : b.Binding payee) : ∃ top, b.GetPayee = some top ∧ b.Binding top := by
  obtain ⟨p, hp, hvotes, _⟩ := h
  have hle := Highest.le_search CProsperitynodePayee.nVotes hp ((-1 : Int), none)
  have hreq : MNPAYMENTS_SIGNATURES_REQUIRED ≤
      (Highest.search CProsperitynodePayee.nVotes b.vecPayments ((-1 : Int), none)).1 :=
    le_trans hvotes hle
  have hlt : (-1 : Int) <
      (Highest.search CProsperitynodePayee.nVotes b.vecPayments ((-1 : Int), none)).1 :=
    lt_of_lt_of_le (by decide) hreq
  obtain ⟨top, htop, hfound⟩ := Highest.exists_of_lt_search _ hlt
  rw [hfound] at hreq
  refine ⟨top.scriptPubKey, ?_, top, htop, hreq, rfl⟩
  rw [GetPayee, hfound, Option.map_some]

namespace CPaymentNode

variable (V : CPaymentNode) (tip : CBlockIndex)

/-- The masternode the validator enforces in a block of this time on top of the tip. -/
def enforcedMasternode (nTime : Int) : Option CScript :=
  if nTime > START_MASTERNODE_PAYMENTS ∧ Divitae.IsMNSporkActive V.mapMNSporksActive V.base.time
      MN_SPORK_1_MASTERNODE_PAYMENTS_ENFORCEMENT = true ∧ V.base.IsInitialBlockDownload = false then
    V.masternodePayee (tip.nHeight + 1)
  else none

/-- What it must be paid. -/
def masternodeAmount : CAmount :=
  V.GetMasternodePayment (tip.nHeight + 1) (GetBlockValue V.base.P (tip.nHeight + 1))

/-- The outputs pay a binding prosperitynode, if that is enforced and there is one. -/
def ProsperitynodePaid (nBlockHeight : Int) (vout : List CTxOut) : Prop :=
  V.IsSporkActive SPORK_8_PROSPERITYNODE_PAYMENT_ENFORCEMENT = true →
    ∀ b, V.prosperitynodePayments.mapProsperitynodeBlocks nBlockHeight = some b →
      (∀ payee, ¬ b.Binding payee) ∨
        ∃ out ∈ vout, b.Binding out.scriptPubKey ∧
          b.requiredProsperitynodePayment V.base.P ≤ out.nValue

/-- The budgets are satisfied by the transaction, or let it go on to the prosperitynodes. -/
def BudgetPaid (nBlockHeight : Int) (tx : CTransaction) : Prop :=
  let status := (V.budget.IsTransactionValid V.env V.mapPayment_History tx nBlockHeight).2
  status = .Valid ∨
    ((status = .InValid → V.IsSporkActive SPORK_9_PROSPERITYNODE_BUDGET_ENFORCEMENT = false) ∧
      V.ProsperitynodePaid nBlockHeight tx.vout)

variable {V tip} {block : CBlock} {tx : CTransaction}

theorem checkProsperitynodePayment_iff (nBlockHeight : Int) :
    V.checkProsperitynodePayment tx nBlockHeight = true ↔
      V.ProsperitynodePaid nBlockHeight tx.vout := by
  unfold checkProsperitynodePayment ProsperitynodePaid CProsperitynodePayments.IsTransactionValid
  cases V.IsSporkActive SPORK_8_PROSPERITYNODE_PAYMENT_ENFORCEMENT with
  | false => exact iff_of_true (Bool.or_true _) fun h => Bool.noConfusion h
  | true =>
    rw [Bool.not_true, Bool.or_false]
    cases V.prosperitynodePayments.mapProsperitynodeBlocks nBlockHeight with
    | none => exact iff_of_true rfl nofun
    | some b =>
      rw [Option.all_some, CProsperitynodeBlockPayees.IsTransactionValid_iff]
      constructor
      · rintro h _ b' hb'
        cases hb'
        exact h
      · intro h
        exact h rfl b rfl

theorem checkMasternodePayment_iff (htip : V.base.chainTip = some tip)
    (hprev : tip.phashBlock = some block.hashPrevBlock) (htx : block.vtx[1]? = some tx) :
    ∃ fFound, V.checkMasternodePayment block = some fFound ∧
      (fFound = true ↔ ∀ payee, V.enforcedMasternode tip block.nTime = some payee →
        ⟨V.masternodeAmount tip, payee⟩ ∈ tx.vout) := by
  rw [checkMasternodePayment, htip]
  dsimp only
  have hsame : ¬ tip.phashBlock ≠ some block.hashPrevBlock := fun h => h hprev
  rw [if_neg hsame]
  unfold enforcedMasternode
  by_cases htime : block.nTime > START_MASTERNODE_PAYMENTS
  · cases hspork : Divitae.IsMNSporkActive V.mapMNSporksActive V.base.time
      MN_SPORK_1_MASTERNODE_PAYMENTS_ENFORCEMENT with
    | false =>
      refine ⟨true, by rw [Bool.and_false, Bool.not_false, if_pos rfl], ?_⟩
      refine iff_of_true rfl fun payee h => ?_
      rw [if_neg fun h => Bool.false_ne_true h.2.1] at h
      cases h
    | true =>
      rw [decide_eq_true htime, Bool.and_self, Bool.not_true, if_neg Bool.false_ne_true]
      cases hibd : V.base.IsInitialBlockDownload with
      | true =>
        refine ⟨true, if_pos rfl, iff_of_true rfl fun payee h => ?_⟩
        rw [if_neg fun h => Bool.noConfusion h.2.2] at h
        cases h
      | false =>
        rw [if_neg Bool.false_ne_true, htx, Option.map_some, if_pos ⟨htime, rfl, rfl⟩]
        refine ⟨_, rfl, ?_⟩
        cases V.masternodePayee (tip.nHeight + 1) with
        | none => exact iff_of_true rfl (by simp)
        | some payee =>
          simp only [any_eq_true, Bool.and_eq_true, beq_iff_eq]
          constructor
          · rintro ⟨out, hout, hvalue, hscript⟩ payee' hpayee'
            cases hpayee'
            rw [masternodeAmount, ← hvalue, ← hscript]
            exact hout
          · intro h
            exact ⟨_, h payee rfl, rfl, rfl⟩
  · refine ⟨true, by rw [decide_eq_false htime, Bool.false_and, Bool.not_false, if_pos rfl], ?_⟩
    refine iff_of_true rfl fun payee h => ?_
    rw [if_neg fun h => htime h.1] at h
    cases h

theorem AcceptsPayee_iff (htip : V.base.chainTip = some tip)
    (hpos : V.base.P.nLastPOWBlock ≤ tip.nHeight)
    (hprev : tip.phashBlock = some block.hashPrevBlock) (htx : block.vtx[1]? = some tx) :
    V.AcceptsPayee block (tip.nHeight + 1) = true ↔
      V.base.IsSynced = false ∨
      ((∀ payee, V.enforcedMasternode tip block.nTime = some payee →
          ⟨V.masternodeAmount tip, payee⟩ ∈ tx.vout) ∧
        (if V.PaysBudget (tip.nHeight + 1) = true then V.BudgetPaid (tip.nHeight + 1) tx
          else V.ProsperitynodePaid (tip.nHeight + 1) tx.vout)) := by
  obtain ⟨fFound, hfound, hmasternode⟩ := checkMasternodePayment_iff htip hprev htx
  have hheight : tip.nHeight + 1 > V.base.P.nLastPOWBlock := Int.lt_add_one_of_le hpos
  rw [AcceptsPayee, IsBlockPayeeValid]
  cases hsynced : V.base.IsSynced with
  | false => exact iff_of_true rfl (.inl rfl)
  | true =>
    rw [or_iff_right (fun h : true = false => Bool.noConfusion h), ← hmasternode, hfound,
      Bool.not_true, if_neg Bool.false_ne_true, Option.bind_some]
    cases fFound with
    | false => exact iff_of_false Bool.false_ne_true fun h => Bool.false_ne_true h.1
    | true =>
      rw [Bool.not_true, if_neg Bool.false_ne_true, if_pos hheight, htx, Option.bind_some,
        eq_self, true_and]
      cases V.PaysBudget (tip.nHeight + 1) with
      | false =>
        rw [if_neg Bool.false_ne_true, if_neg Bool.false_ne_true, Option.any_some,
          checkProsperitynodePayment_iff]
      | true =>
        rw [if_pos rfl, if_pos rfl, BudgetPaid]
        rcases V.budget.IsTransactionValid V.env V.mapPayment_History tx
          (tip.nHeight + 1) with ⟨history, status⟩
        have hfall : ∀ s, s ≠ .Valid → s ≠ .InValid →
            (V.ProsperitynodePaid (tip.nHeight + 1) tx.vout ↔
              s = .Valid ∨ ((s = TrxValidationStatus.InValid →
                V.IsSporkActive SPORK_9_PROSPERITYNODE_BUDGET_ENFORCEMENT = false) ∧
                V.ProsperitynodePaid (tip.nHeight + 1) tx.vout)) := by
          intro s hvalid hinvalid
          rw [or_iff_right hvalid]
          exact ⟨fun h => ⟨fun h' => absurd h' hinvalid, h⟩, And.right⟩
        cases status with
        | Valid => exact iff_of_true rfl (.inl rfl)
        | InValid =>
          dsimp only
          rw [or_iff_right (fun h => noConfusion h)]
          cases V.IsSporkActive SPORK_9_PROSPERITYNODE_BUDGET_ENFORCEMENT with
          | false =>
            rw [if_neg fun h => Bool.false_ne_true h.2, Option.any_some,
              checkProsperitynodePayment_iff]
            exact ⟨fun h => ⟨fun _ => rfl, h⟩, And.right⟩
          | true =>
            rw [if_pos ⟨rfl, rfl⟩]
            exact iff_of_false Bool.false_ne_true fun h => Bool.noConfusion (h.1 rfl)
        | DoublePayment =>
          dsimp only
          rw [if_neg fun h => noConfusion h.1, Option.any_some, checkProsperitynodePayment_iff]
          exact hfall _ (fun h => noConfusion h) (fun h => noConfusion h)
        | VoteThreshold =>
          dsimp only
          rw [if_neg fun h => noConfusion h.1, Option.any_some, checkProsperitynodePayment_iff]
          exact hfall _ (fun h => noConfusion h) (fun h => noConfusion h)

end CPaymentNode

namespace CStakerNode

variable (V : CStakerNode) (tip : CBlockIndex) (IsMasternode : Bool)

/-! ## What the producer puts in -/

/-- The shares the producer pays, of the value of the tip's height. -/
def prosperitynodeShare : CAmount :=
  GetProsperitynodePayment V.base.P (tip.nHeight + 1) (GetBlockValue V.base.P tip.nHeight)

def masternodeShare : CAmount :=
  V.GetMasternodePayment (tip.nHeight + 1) (GetBlockValue V.base.P tip.nHeight)

def ownOutputs (tx : CTransaction) : List CTxOut :=
  takeFromLast (paidOut (V.nodePayments tip IsMasternode)) tx.vout

variable {V tip IsMasternode} {block : CBlock} {tx : CTransaction}

theorem mem_nodePayments {out : CTxOut} : out ∈ V.nodePayments tip IsMasternode ↔
    (∃ payee, V.fundamentalPayee (tip.nHeight + 1) = some payee ∧
      out = ⟨V.prosperitynodeShare tip, payee⟩) ∨
    (IsMasternode = true ∧ ∃ payee, V.masterPayee (tip.nHeight + 1) = some payee ∧
      out = ⟨V.masternodeShare tip, payee⟩) := by
  unfold nodePayments
  rw [mem_append]
  refine or_congr ?_ ?_
  · cases V.fundamentalPayee (tip.nHeight + 1) with
    | none => exact iff_of_false not_mem_nil fun ⟨_, h, _⟩ => (nomatch h)
    | some payee =>
      rw [Option.map_some, Option.toList_some, mem_singleton]
      constructor
      · intro h
        exact ⟨payee, rfl, h⟩
      · rintro ⟨_, hpayee, h⟩
        cases hpayee
        exact h
  · cases IsMasternode with
    | false => exact iff_of_false not_mem_nil fun h => Bool.false_ne_true h.1
    | true =>
      rw [if_pos rfl]
      cases V.masterPayee (tip.nHeight + 1) with
      | none => exact iff_of_false not_mem_nil fun ⟨_, _, h, _⟩ => (nomatch h)
      | some payee =>
        rw [Option.map_some, Option.toList_some, mem_singleton]
        constructor
        · intro h
          exact ⟨rfl, payee, rfl, h⟩
        · rintro ⟨_, _, hpayee, h⟩
          cases hpayee
          exact h

theorem mem_budgetPayment {out : CTxOut} {nHeight : Int} : out ∈ V.budgetPayment nHeight ↔
    V.budget.payeeAndAmount nHeight = some (out.scriptPubKey, out.nValue) := by
  unfold budgetPayment
  cases V.budget.payeeAndAmount nHeight with
  | none => exact iff_of_false not_mem_nil nofun
  | some p =>
    rw [Option.map_some, Option.toList_some, mem_singleton, Option.some_inj]
    constructor
    · rintro rfl
      rfl
    · rintro rfl
      rfl

theorem FillBlockPayee_stake (htip : V.base.chainTip = some tip) (tx : CTransaction)
    (IsMasternode : Bool) :
    V.FillBlockPayee tx true IsMasternode =
      if V.PaysBudget (tip.nHeight + 1) = true then
        { tx with vout := tx.vout ++ V.budgetPayment (tip.nHeight + 1) }
      else
        { tx with
          vout := V.ownOutputs tip IsMasternode tx ++ V.nodePayments tip IsMasternode } := by
  rw [FillBlockPayee, htip]
  rfl

theorem masterPayee_of_enforced {nTime : Int}
    (h : V.enforcedMasternode tip nTime = some payee) :
    V.masterPayee (tip.nHeight + 1) = some payee := by
  unfold CPaymentNode.enforcedMasternode CPaymentNode.masternodePayee at h
  split at h
  · rw [masterPayee, Option.eq_some_of_filter_eq_some h]
  · exact (nomatch h)

theorem fundamentalPayee_of_binding {nHeight : Int}
    (hb : V.prosperitynodePayments.mapProsperitynodeBlocks nHeight = some b)
    (h : b.Binding payee) : ∃ top, V.fundamentalPayee nHeight = some top ∧ b.Binding top := by
  obtain ⟨top, htop, hbinding⟩ := CProsperitynodeBlockPayees.GetPayee_binding h
  refine ⟨top, ?_, hbinding⟩
  rw [fundamentalPayee, CProsperitynodePayments.GetBlockPayee, hb, Option.bind_some, htop]

/-! ## Agreement -/

/-- At a height without budget payment: the masternode's share is the same on both
sides, or its payment is there by chance; and the prosperitynode's share suffices, or
one of the other outputs does. -/
structure NodesAgree (V : CStakerNode) (tip : CBlockIndex) (IsMasternode : Bool) (nTime : Int)
    (tx : CTransaction) : Prop where
  masternode : ∀ payee : CScript, V.enforcedMasternode tip nTime = some payee →
    (IsMasternode = true ∧ V.masternodeShare tip = V.masternodeAmount tip) ∨
    (V.fundamentalPayee (tip.nHeight + 1) = some payee ∧
      V.prosperitynodeShare tip = V.masternodeAmount tip) ∨
    ⟨V.masternodeAmount tip, payee⟩ ∈ V.ownOutputs tip IsMasternode tx
  prosperitynode : V.IsSporkActive SPORK_8_PROSPERITYNODE_PAYMENT_ENFORCEMENT = true →
    ∀ b : CProsperitynodeBlockPayees,
    V.prosperitynodePayments.mapProsperitynodeBlocks (tip.nHeight + 1) = some b →
    (∀ payee, ¬ b.Binding payee) ∨
    b.requiredProsperitynodePayment V.base.P ≤ V.prosperitynodeShare tip ∨
    (IsMasternode = true ∧ ∃ payee, V.masterPayee (tip.nHeight + 1) = some payee ∧
      b.Binding payee ∧ b.requiredProsperitynodePayment V.base.P ≤ V.masternodeShare tip) ∨
    ∃ out ∈ V.ownOutputs tip IsMasternode tx, b.Binding out.scriptPubKey ∧
      b.requiredProsperitynodePayment V.base.P ≤ out.nValue

/-- In a budget block: no masternode is enforced, or its payment is there by chance; and
the budgets are satisfied. -/
structure BudgetAgrees (V : CStakerNode) (tip : CBlockIndex) (nTime : Int) (tx : CTransaction) :
    Prop where
  masternode : ∀ payee : CScript, V.enforcedMasternode tip nTime = some payee →
    V.budget.payeeAndAmount (tip.nHeight + 1) = some (payee, V.masternodeAmount tip) ∨
    ⟨V.masternodeAmount tip, payee⟩ ∈ tx.vout
  budget : V.BudgetPaid (tip.nHeight + 1)
    { tx with vout := tx.vout ++ V.budgetPayment (tip.nHeight + 1) }

theorem masternode_iff (nTime : Int) :
    (∀ payee, V.enforcedMasternode tip nTime = some payee →
      ⟨V.masternodeAmount tip, payee⟩ ∈
        V.ownOutputs tip IsMasternode tx ++ V.nodePayments tip IsMasternode) ↔
    ∀ payee, V.enforcedMasternode tip nTime = some payee →
      (IsMasternode = true ∧ V.masternodeShare tip = V.masternodeAmount tip) ∨
      (V.fundamentalPayee (tip.nHeight + 1) = some payee ∧
        V.prosperitynodeShare tip = V.masternodeAmount tip) ∨
      ⟨V.masternodeAmount tip, payee⟩ ∈ V.ownOutputs tip IsMasternode tx := by
  refine forall₂_congr fun payee hpayee => ?_
  have hmaster := masterPayee_of_enforced hpayee
  rw [mem_append, mem_nodePayments]
  constructor
  · rintro (hown | ⟨payee', hpayee', hout⟩ | ⟨hmn, _, _, hout⟩)
    · exact .inr (.inr hown)
    · obtain ⟨hamount, rfl⟩ := CTxOut.mk.inj hout
      exact .inr (.inl ⟨hpayee', hamount.symm⟩)
    · exact .inl ⟨hmn, (CTxOut.mk.inj hout).1.symm⟩
  · rintro (⟨hmn, hamount⟩ | ⟨hpayee', hamount⟩ | hown)
    · exact .inr (.inr ⟨hmn, payee, hmaster, by rw [hamount]⟩)
    · exact .inr (.inl ⟨payee, hpayee', by rw [hamount]⟩)
    · exact .inl hown

theorem prosperitynode_iff :
    V.ProsperitynodePaid (tip.nHeight + 1)
      (V.ownOutputs tip IsMasternode tx ++ V.nodePayments tip IsMasternode) ↔
    (V.IsSporkActive SPORK_8_PROSPERITYNODE_PAYMENT_ENFORCEMENT = true →
      ∀ b, V.prosperitynodePayments.mapProsperitynodeBlocks (tip.nHeight + 1) = some b →
      (∀ payee, ¬ b.Binding payee) ∨
      b.requiredProsperitynodePayment V.base.P ≤ V.prosperitynodeShare tip ∨
      (IsMasternode = true ∧ ∃ payee, V.masterPayee (tip.nHeight + 1) = some payee ∧
        b.Binding payee ∧ b.requiredProsperitynodePayment V.base.P ≤ V.masternodeShare tip) ∨
      ∃ out ∈ V.ownOutputs tip IsMasternode tx, b.Binding out.scriptPubKey ∧
        b.requiredProsperitynodePayment V.base.P ≤ out.nValue) := by
  refine forall_congr' fun _ => forall₂_congr fun b hb => ?_
  constructor
  · rintro (hnone | ⟨out, hout, hbinding, hvalue⟩)
    · exact .inl hnone
    · rcases mem_append.mp hout with hown | hpayment
      · exact .inr (.inr (.inr ⟨out, hown, hbinding, hvalue⟩))
      · rcases mem_nodePayments.mp hpayment with ⟨_, _, rfl⟩ | ⟨hmn, payee, hpayee, rfl⟩
        · exact .inr (.inl hvalue)
        · exact .inr (.inr (.inl ⟨hmn, payee, hpayee, hbinding, hvalue⟩))
  · rintro (hnone | hshare | ⟨hmn, payee, hpayee, hbinding, hvalue⟩ | ⟨out, hown, hout⟩)
    · exact .inl hnone
    · by_cases hnone : ∀ payee, ¬ b.Binding payee
      · exact .inl hnone
      · rw [not_forall_not] at hnone
        obtain ⟨payee, hpayee⟩ := hnone
        obtain ⟨top, htop, hbinding⟩ := fundamentalPayee_of_binding hb hpayee
        exact .inr ⟨⟨V.prosperitynodeShare tip, top⟩,
          mem_append_right _ (mem_nodePayments.mpr (.inl ⟨top, htop, rfl⟩)),
          hbinding, hshare⟩
    · exact .inr ⟨⟨V.masternodeShare tip, payee⟩,
        mem_append_right _ (mem_nodePayments.mpr (.inr ⟨hmn, payee, hpayee, rfl⟩)),
        hbinding, hvalue⟩
    · exact .inr ⟨out, mem_append_left _ hown, hout⟩

end CStakerNode

/-! ### A masternode winner, at two heights -/

/-- A node whose tip is at `nHeight` and that knows the masternode winner of the next. -/
def winnerNode (nHeight : Int) : CStakerNode where
  base := quietNode nHeight
  env := superblockEnv
  budget := .empty
  mapPayment_History _ := none
  prosperitynodePayments := .empty
  masternodePayments := ⟨[⟨nHeight + 1, [7]⟩]⟩
  mapMNSporksActive _ := none
  GetSeeSaw _ blockValue := blockValue
  currentFundamentalNode := none
  currentMasterNode := none

/-- The stake of one coin with its reward of one coin, filled in, and its block. -/
def filledBlock (V : CStakerNode) : CBlock :=
  { quietBlock 0 [] with vtx :=
    [emptyCoinBase, V.FillBlockPayee (quietStake (2 * COIN)) true true] }

/-- The node of the superblock, with a masternode winner for its height. -/
def superblockWinnerNode : CStakerNode :=
  { superblockNode with
    masternodePayments := ⟨[⟨43200, [7]⟩]⟩
    currentFundamentalNode := none
    currentMasterNode := none }

end Divitae
