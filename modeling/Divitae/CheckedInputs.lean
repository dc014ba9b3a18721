/-
# `CheckedInputs` — the inputs `CheckTransaction` lets pass

Three rules about inputs, and when each is in force:

    no outpoint twice      always; an input whose script is a zerocoin spend does not enter the
                           set, so that it and what comes behind it may name the same outpoint
    no null prevout        only once zerocoin is active, and not where the script is a spend
    not too many spends    only once zerocoin is active

The first leaves spends out because `CheckZerocoinSpend` checks their serials, but that runs on
zerocoin-spend transactions only: two spend scripts in an ordinary transaction are checked by
neither (`spends_named_twice`), and `UpdateCoins` then fails at the second.  What does hold of
every transaction that passes is `CheckTransaction_accepts`.
-/
import Divitae.MinedInOrder

namespace Divitae

open List

variable {N : CNode} {tx : CTransaction} {act : Bool} {vin : List CTxIn} {seen : List COutPoint}

theorem checkOutputs_moneyRange {vout : List CTxOut} {nValueOut : CAmount}
    (h : checkOutputs N tx act vout nValueOut = .ok ()) (hne : vout ≠ []) :
    (∀ out ∈ vout, MoneyRange N.P out.nValue = true) ∧
      MoneyRange N.P (nValueOut + (vout.map CTxOut.nValue).sum) = true := by
  induction vout generalizing nValueOut with
  | nil => exact absurd rfl hne
  | cons txout vout ih =>
    simp only [checkOutputs, rejectIf_eq_ok, Bool.not_eq_false', decide_eq_false_iff_not] at h
    obtain ⟨-, hneg, hhigh, htotal, -, hrest⟩ := h
    have hfirst : MoneyRange N.P txout.nValue = true := by
      simp only [MoneyRange, Bool.and_eq_true, decide_eq_true_eq]
      exact ⟨Int.not_lt.mp hneg, Int.not_lt.mp hhigh⟩
    rw [map_cons, sum_cons, ← Int.add_assoc]
    cases vout with
    | nil =>
      refine ⟨forall_mem_singleton.mpr hfirst, ?_⟩
      rw [map_nil, sum_nil, Int.add_zero]
      exact htotal
    | cons next vout =>
      obtain ⟨hall, hsum⟩ := ih hrest (cons_ne_nil next vout)
      exact ⟨forall_mem_cons.mpr ⟨hfirst, hall⟩, hsum⟩

theorem pairwise_of_hasDuplicateInputs (h : hasDuplicateInputs vin seen = false) :
    (vin.Pairwise fun earlier later =>
      earlier.scriptSig.IsZerocoinSpend = false → earlier.prevout ≠ later.prevout) ∧
      ∀ txin ∈ vin, txin.prevout ∉ seen := by
  induction vin generalizing seen with
  | nil => exact ⟨List.Pairwise.nil, nofun⟩
  | cons txin vin ih =>
    rw [hasDuplicateInputs, Bool.or_eq_false_iff] at h
    obtain ⟨hfirst, hrest⟩ := h
    obtain ⟨hpair, hnot⟩ := ih hrest
    have hnew : txin.prevout ∉ seen := by
      intro hmem
      rw [contains_iff_mem.mpr hmem] at hfirst
      cases hfirst
    -- the set only grows
    have hgrown : ∀ out ∈ seen, out ∈
        (if txin.scriptSig.IsZerocoinSpend then seen else txin.prevout :: seen) := by
      intro out hout
      split_ifs
      · exact hout
      · exact .tail _ hout
    refine ⟨pairwise_cons.mpr ⟨?_, hpair⟩, forall_mem_cons.mpr ⟨hnew, ?_⟩⟩
    · intro later hlater hordinary heq
      refine hnot later hlater ?_
      rw [hordinary, if_neg Bool.false_ne_true, heq]
      exact .head _
    · intro later hlater hmem
      exact hnot later hlater (hgrown _ hmem)

/-- **What `CheckTransaction` accepts.** -/
theorem CheckTransaction_accepts (h : CheckTransaction N tx act = .ok ()) :
    (∀ out ∈ tx.vout, MoneyRange N.P out.nValue = true) ∧
    MoneyRange N.P (tx.vout.map CTxOut.nValue).sum = true ∧
    (tx.vin.Pairwise fun earlier later =>
      earlier.scriptSig.IsZerocoinSpend = false → earlier.prevout ≠ later.prevout) ∧
    ((∀ txin ∈ tx.vin, txin.scriptSig.IsZerocoinSpend = false) →
      ∀ (view : CCoinsView) (nHeight : Int),
        (∀ txin ∈ tx.vin, ∃ o, (view.coins txin.prevout.hash).Holds txin.prevout.n o) →
        ∃ view' vprevout, UpdateCoins tx view nHeight = some (view', vprevout)) ∧
    (act = true → tx.IsCoinBase = false → tx.IsZerocoinSpend = false →
      ∀ txin ∈ tx.vin, txin.prevout.IsNull = true → txin.scriptSig.IsZerocoinSpend = true) ∧
    (act = true → tx.IsZerocoinSpend = true →
      tx.vin.length ≤ N.P.nMaxZerocoinSpendsPerTransaction) := by
  simp only [CheckTransaction, rejectIf_eq_ok, bind_eq_ok] at h
  obtain ⟨-, hvout, -, _, hout, -, _, -, hduplicates, hlast⟩ := h
  have hne : tx.vout ≠ [] := by
    intro hnil
    rw [hnil] at hvout
    cases hvout
  obtain ⟨hvalues, hsum⟩ := checkOutputs_moneyRange hout hne
  rw [Int.zero_add] at hsum
  refine ⟨hvalues, hsum, (pairwise_of_hasDuplicateInputs hduplicates).1, ?_, ?_, ?_⟩
  · intro hscripts view nHeight hheld
    have hdistinct := (distinct_of_hasDuplicateInputs hduplicates hscripts).1
    exact (UpdateCoins_some nHeight (fun _ => hdistinct) (fun _ => hheld)).2
  · intro hact hbase hspend txin hin hnull
    rw [hbase, hact, hspend] at hlast
    simp only [Bool.false_eq_true, if_false, Bool.and_false, Bool.and_true, rejectIf_eq_ok] at hlast
    have hone := any_eq_false.mp hlast.1 txin hin
    simpa [hnull] using hone
  · intro hact hspend
    have hbase : tx.IsCoinBase = false := by
      cases hbase : tx.IsCoinBase with
      | false => rfl
      | true =>
        rw [not_spend_of_isCoinBase hbase] at hspend
        cases hspend
    rw [hbase, hact, hspend] at hlast
    simp only [Bool.false_eq_true, if_false, Bool.and_self, if_true, rejectIf_eq_ok,
      decide_eq_false_iff_not] at hlast
    exact Nat.not_lt.mp hlast.1

/-! ## What passes -/

/-- An output of no value; its script is not empty. -/
def idleOut : CTxOut := ⟨0, [OP_RETURN]⟩

def plainTx : CTransaction := ⟨20, 1, [⟨⟨7, 0⟩, [], 0⟩, ⟨⟨7, 1⟩, [], 0⟩], [idleOut], 0⟩

theorem plainTx_accepted : CheckTransaction (quietNode 999).toCNode plainTx true = .ok () ∧
    MoneyRange mainParams (plainTx.vout.map CTxOut.nValue).sum = true ∧
    (true = true → plainTx.IsCoinBase = false → plainTx.IsZerocoinSpend = false →
      ∀ txin ∈ plainTx.vin, txin.prevout.IsNull = true →
        txin.scriptSig.IsZerocoinSpend = true) := by
  have hok : CheckTransaction (quietNode 999).toCNode plainTx true = .ok () := by decide
  obtain ⟨-, hsum, -, -, hnull, -⟩ := CheckTransaction_accepts hok
  exact ⟨hok, hsum, hnull⟩

/-- One outpoint twice; the scripts begin as zerocoin spends do. -/
def twiceTx : CTransaction :=
  ⟨21, 1, [⟨⟨7, 0⟩, [OP_ZEROCOINSPEND], 0⟩, ⟨⟨7, 0⟩, [OP_ZEROCOINSPEND], 0⟩], [idleOut], 0⟩

/-- The output that it names is there. -/
def coinSeven : CCoinsView :=
  ⟨fun hash => if hash = 7 then .FromTx ⟨7, 1, [⟨⟨6, 0⟩, [], 0⟩], [⟨COIN, []⟩], 0⟩ 5 else .null, 0⟩

/-- No previous output, and an ordinary script. -/
def nullTx : CTransaction := ⟨22, 1, [⟨⟨7, 0⟩, [], 0⟩, ⟨.SetNull, [], 0⟩], [idleOut], 0⟩

/-- No previous output, and a spend's script behind an ordinary input. -/
def mixedTx : CTransaction :=
  ⟨23, 1, [⟨⟨7, 0⟩, [], 0⟩, ⟨.SetNull, [OP_ZEROCOINSPEND], 0⟩], [idleOut], 0⟩

def eightSpends : CTransaction :=
  ⟨24, 1, List.replicate 8 ⟨⟨0, 0⟩, [OP_ZEROCOINSPEND], 0⟩, [idleOut], 0⟩

/-- **Spends named twice**, in an ordinary transaction; and what is asked only once zerocoin is
active. -/
theorem spends_named_twice :
    let N := (quietNode 999).toCNode
    ((∀ act, CheckTransaction N twiceTx act = .ok ()) ∧ twiceTx.IsZerocoinSpend = false ∧
      ¬(twiceTx.vin.map CTxIn.prevout).Nodup ∧ coinSeven.HaveInputs twiceTx = true ∧
      UpdateCoins twiceTx coinSeven 1000 = none) ∧
    (CheckTransaction N nullTx false = .ok () ∧ nullTx.IsCoinBase = false ∧
      nullTx.IsZerocoinSpend = false ∧ ∃ txin ∈ nullTx.vin, txin.prevout.IsNull = true) ∧
    (CheckTransaction N mixedTx true = .ok () ∧ mixedTx.IsCoinBase = false ∧
      mixedTx.IsZerocoinSpend = false ∧ ∃ txin ∈ mixedTx.vin, txin.prevout.IsNull = true) ∧
    (CheckTransaction N eightSpends false = .ok () ∧ eightSpends.IsZerocoinSpend = true ∧
      N.P.nMaxZerocoinSpendsPerTransaction <
        (eightSpends.vin.filter fun txin => txin.scriptSig.IsZerocoinSpend).length) := by
  refine ⟨⟨?_, by decide, by decide, by decide, by decide⟩,
    ⟨by decide, by decide, by decide, by decide⟩,
    ⟨by decide, by decide, by decide, by decide⟩,
    ⟨by decide +kernel, by decide, by decide⟩⟩
  intro act
  cases act with
  | false => decide
  | true => decide

end Divitae
