/-
# `CheckedBlock` — what `CheckBlock` leaves true

Inversion lemmas of the context-free checks, one for each function, for the proofs
about connecting a block: what a checked transaction pays out, what a checked zerocoin
spend redeems, and where the coin base and the coin stake of a proof-of-stake block
are.
-/
import Divitae.ConnectTotals

namespace Divitae

open List Bool

section
variable {N : CNode}

/-! ## Transactions -/

variable {tx : CTransaction}

theorem checkOutputs_ok {fZerocoinActive : Bool} :
    ∀ {vout : List CTxOut} {a : CAmount}, MoneyRange N.P a = true →
    checkOutputs N tx fZerocoinActive vout a = .ok () →
    (∀ out ∈ vout, 0 ≤ out.nValue) ∧ MoneyRange N.P (a + (vout.map CTxOut.nValue).sum) = true
  | [], a, ha, _ => ⟨nofun, by simpa using ha⟩
  | txout :: vout, a, ha, h => by
    simp only [checkOutputs, rejectIf_eq_ok, not_eq_false', decide_eq_false_iff_not] at h
    obtain ⟨_, hneg, _, hrange, _, hrest⟩ := h
    obtain ⟨hall, hsum⟩ := checkOutputs_ok hrange hrest
    refine ⟨fun out hout => ?_, ?_⟩
    · rcases mem_cons.mp hout with rfl | hout
      · exact Int.not_lt.mp hneg
      · exact hall out hout
    · rw [map_cons, sum_cons, ← Int.add_assoc]
      exact hsum

theorem checkZerocoinInputs_ok {fVerifySignature : Bool} :
    ∀ {vin : List CTxIn} {serials : List Int} {a r : CAmount} {v v' : Bool},
    checkZerocoinInputs N tx fVerifySignature vin serials a v = .ok (r, v') →
    r = a + ((vin.filter fun txin => txin.scriptSig.IsZerocoinSpend).map (spentAmount N.Z)).sum
  | [], _, a, r, v, v', h => by
    cases h
    simp
  | txin :: vin, serials, a, r, v, v', h => by
    cases hz : txin.scriptSig.IsZerocoinSpend
    · simp only [checkZerocoinInputs, hz, Bool.not_false, if_true] at h
      simp only [filter_cons, hz, false_eq_true, if_false]
      exact checkZerocoinInputs_ok h
    · simp only [checkZerocoinInputs, hz, Bool.not_true, Bool.false_eq_true, if_false] at h
      cases hs : N.Z.TxInToZerocoinSpend txin with
      | none =>
        rw [hs] at h
        cases h
      | some spend =>
        rw [hs] at h
        simp only [rejectIf_eq_ok] at h
        obtain ⟨_, _, _, _, _, hrest⟩ := h
        have hamount : spentAmount N.Z txin = spend.denomination.toAmount := by
          unfold spentAmount
          rw [hs]
        rw [checkZerocoinInputs_ok hrest]
        simp only [filter_cons, hz, if_true, map_cons, sum_cons, hamount]
        exact Int.add_assoc _ _ _

/-- What a checked transaction is. -/
structure CheckedTransaction (N : CNode) (fZerocoinActive : Bool) (tx : CTransaction) : Prop where
  vin_ne : tx.vin ≠ []
  outputs_nonneg : ∀ out ∈ tx.vout, 0 ≤ out.nValue
  valueOut : MoneyRange N.P tx.GetValueOut = true
  redeemed : fZerocoinActive = true → tx.IsZerocoinSpend = true → tx.IsCoinStake = false →
    tx.GetValueOut ≤
      ((tx.vin.filter fun txin => txin.scriptSig.IsZerocoinSpend).map (spentAmount N.Z)).sum
  spends_le : fZerocoinActive = true → tx.IsZerocoinSpend = true →
    tx.vin.length ≤ N.P.nMaxZerocoinSpendsPerTransaction
  vin_length_le : tx.vin.length ≤ MAX_ZEROCOIN_TX_SIZE

theorem not_spend_of_isCoinBase (h : tx.IsCoinBase = true) :
    tx.IsZerocoinSpend = false := by
  unfold CTransaction.IsCoinBase CTransaction.ContainsZerocoins at h
  split at h
  · simp only [and_eq_true, not_eq_true', or_eq_false_iff] at h
    exact h.2.1
  · cases h

theorem vin_length_le_ser (tx : CTransaction) : tx.vin.length ≤ tx.ser.length := by
  have hone : ∀ vin : List CTxIn, vin.length ≤ ((vin.map CTxIn.ser).flatten).length := by
    intro vin
    induction vin with
    | nil => exact Nat.le_refl 0
    | cons txin vin ih =>
      have hin : 1 ≤ txin.ser.length := by
        unfold CTxIn.ser COutPoint.ser serUint256
        simp only [length_append, leBytes_length]
        omega
      rw [map_cons, flatten_cons, length_append, length_cons]
      omega
  have := hone tx.vin
  unfold CTransaction.ser
  simp only [length_append]
  omega

theorem CheckTransaction_ok (hmax0 : 0 ≤ N.P.nMaxMoneyOut) {act : Bool}
    (h : CheckTransaction N tx act = .ok ()) : CheckedTransaction N act tx := by
  simp only [CheckTransaction, rejectIf_eq_ok, bind_eq_ok] at h
  obtain ⟨hvin, _, hsize, _, hout, _, _, hspend, _, hlast⟩ := h
  obtain ⟨hall, hsum⟩ := checkOutputs_ok (moneyRange_zero hmax0) hout
  refine ⟨fun hnil => ?_, hall, ?_, fun hact hz hstake => ?_, fun hact hz => ?_, ?_⟩
  · rw [hnil] at hvin
    exact Bool.noConfusion hvin
  · rw [Int.zero_add] at hsum
    exact hsum
  · rw [hact, hz] at hspend
    simp only [Bool.and_self, if_true, rejectIf_eq_ok] at hspend
    obtain ⟨_, hspend⟩ := hspend
    simp only [CheckZerocoinSpend, rejectIf_eq_ok, bind_eq_ok] at hspend
    obtain ⟨_, ⟨nTotalRedeemed, fValidated⟩, hinputs, hredeemed, _⟩ := hspend
    have htotal := checkZerocoinInputs_ok hinputs
    rw [hstake] at hredeemed
    simp only [Bool.not_false, Bool.true_and, decide_eq_false_iff_not] at hredeemed
    rw [Int.zero_add] at htotal
    rw [← htotal]
    exact Int.not_lt.mp hredeemed
  · have hbase : tx.IsCoinBase = false := by
      cases hbase : tx.IsCoinBase
      · rfl
      · rw [not_spend_of_isCoinBase hbase] at hz
        cases hz
    rw [hbase, hact, hz] at hlast
    simp only [Bool.false_eq_true, if_false, Bool.and_self, if_true, rejectIf_eq_ok,
      decide_eq_false_iff_not] at hlast
    exact Nat.not_lt.mp hlast.1
  · exact Nat.le_trans (vin_length_le_ser tx) (Nat.not_lt.mp (decide_eq_false_iff_not.mp hsize))

theorem checkTransactions_ok {act : Bool} : ∀ {vtx : List CTransaction} {serials : List Int},
    checkTransactions N act vtx serials = .ok () → ∀ tx ∈ vtx, CheckTransaction N tx act = .ok ()
  | [], _, _ => nofun
  | tx :: vtx, serials, h => by
    simp only [checkTransactions, bind_eq_ok] at h
    obtain ⟨_, htx, serials', _, hrest⟩ := h
    intro t ht
    rcases mem_cons.mp ht with rfl | ht
    · exact htx
    · exact checkTransactions_ok hrest t ht

/-! ## Blocks -/

/-- What every checked block is. -/
structure CheckedBlock (N : CNode) (block : CBlock) : Prop where
  head : ∃ coinBase rest, block.vtx = coinBase :: rest ∧ coinBase.IsCoinBase = true
  size : block.vtx.length ≤ MAX_BLOCK_SIZE_CURRENT
  checked : ∀ tx ∈ block.vtx,
    CheckedTransaction N (decide (N.P.nZerocoinStartTime < block.nTime)) tx

/-- The shape of a checked proof-of-stake block: an empty coin base, the coin stake,
and transactions that are neither. -/
structure StakeBlock (N : CNode) (block : CBlock) : Prop extends CheckedBlock N block where
  shape : ∃ coinBase coinStake rest, block.vtx = coinBase :: coinStake :: rest ∧
    coinBase.IsCoinBase = true ∧ coinBase.GetValueOut = 0 ∧ coinStake.IsCoinStake = true ∧
    coinStake.IsCoinBase = false ∧ ∀ tx ∈ rest, tx.IsCoinBase = false ∧ tx.IsCoinStake = false

theorem CheckBlock_ok (hmax0 : 0 ≤ N.P.nMaxMoneyOut) {block : CBlock} {pow merkle : Bool}
    (h : CheckBlock N block pow merkle = .ok ()) : CheckedBlock N block := by
  simp only [CheckBlock, rejectIf_eq_ok, bind_eq_ok] at h
  obtain ⟨_, _, _, _, hsize, hfirst, _, _, _, _, _, _, htxs, _⟩ := h
  simp only [or_eq_false_iff, decide_eq_false_iff_not] at hsize
  refine ⟨?_, Nat.not_lt.mp hsize.1.2,
    fun tx htx => CheckTransaction_ok hmax0 (checkTransactions_ok htxs tx htx)⟩
  cases hvtx : block.vtx with
  | nil =>
    rw [hvtx] at hfirst
    cases hfirst
  | cons coinBase rest =>
    rw [hvtx] at hfirst
    exact ⟨coinBase, rest, rfl, by simpa using hfirst⟩

theorem isEmpty_nValue {out : CTxOut} (h : out.IsEmpty = true) : out.nValue = 0 := by
  have := (and_eq_true _ _).mp h
  exact beq_iff_eq.mp this.1

theorem CheckBlock_stake (hmax0 : 0 ≤ N.P.nMaxMoneyOut) {block : CBlock} {pow merkle : Bool}
    (hpos : block.IsProofOfStake = true) (h : CheckBlock N block pow merkle = .ok ()) :
    StakeBlock N block := by
  refine ⟨CheckBlock_ok hmax0 h, ?_⟩
  simp only [CheckBlock, rejectIf_eq_ok, bind_eq_ok] at h
  obtain ⟨_, _, _, _, _, hfirst, hmany, hempty, hstakes, _⟩ := h
  rw [hpos] at hempty hstakes
  unfold CBlock.IsProofOfStake at hpos
  rcases hvtx : block.vtx with _ | ⟨coinBase, _ | ⟨coinStake, rest⟩⟩
  · rw [hvtx] at hpos
    cases hpos
  · rw [hvtx] at hpos
    cases hpos
  · rw [hvtx] at hpos hfirst hmany hempty hstakes
    simp only [List.head?_cons, Option.any_some, Bool.not_eq_false', Bool.true_and,
      tail_cons, drop_succ_cons, drop_zero, any_cons, and_eq_true,
      Bool.or_eq_false_iff] at hfirst hmany hempty hstakes
    refine ⟨coinBase, coinStake, rest, rfl, hfirst, ?_, hpos, hmany.1, fun tx htx => ?_⟩
    · obtain ⟨hone, hall⟩ := hempty
      obtain ⟨out, hout⟩ := length_eq_one_iff.mp (beq_iff_eq.mp hone)
      unfold CTransaction.GetValueOut
      rw [hout] at hall ⊢
      rw [map_singleton, sum_singleton]
      exact isEmpty_nValue (all_eq_true.mp hall out mem_cons_self)
    · have hbase := any_eq_false.mp hmany.2 tx htx
      have hstake := any_eq_false.mp hstakes tx htx
      exact ⟨not_eq_true _ ▸ hbase, not_eq_true _ ▸ hstake⟩

end

end Divitae
