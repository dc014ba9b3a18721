/-
# `TransactionBounds` — what the checks read of a transaction

The checks look at the bytes of scripts by their position:

    `IsZerocoinSpend`       the first byte of the first input's script, where its hash is null
    `TxInToZerocoinSpend`   a spend's script, from its fifth byte on
    `TxOutToPublicCoin`     a mint's script, from its seventh byte on

They are asked before the checks that would exclude a transaction with shorter scripts.  Here
`CheckTransaction` is written with what it reads, and has no result where that is not there;
`Divitae.Validation` has it as it is otherwise (`computes_CheckTransaction`).  What must be there
is said read by read, for the reads that the checks before them let it come to.
-/
import Divitae.ConnectStages
import Divitae.Lib.Reading

namespace Divitae

namespace Bounds

open Reading Bool

/-! ## Reading transactions -/

/-- `CTransaction::IsZerocoinSpend`. -/
def IsZerocoinSpend (tx : CTransaction) : Option Bool :=
  match tx.vin with
  | [] => some false
  | txin :: _ =>
    if txin.prevout.hash = 0 then txin.scriptSig[0]?.map fun opcode => opcode == OP_ZEROCOINSPEND
    else some false

def ContainsZerocoins (tx : CTransaction) : Option Bool :=
  (IsZerocoinSpend tx).map fun spend => spend || tx.IsZerocoinMint

def IsCoinBase (tx : CTransaction) : Option Bool :=
  match tx.vin with
  | [txin] => if txin.prevout.IsNull then (ContainsZerocoins tx).map fun contains => !contains
      else some false
  | _ => some false

def BIGNUM_SIZE : Nat := 4

def SCRIPT_OFFSET : Nat := 6

/-- `TxInToZerocoinSpend`; the copied bytes need not hold a spend. -/
def TxInToZerocoinSpend (Z : Zerocoin) (txin : CTxIn) : Option (Option CoinSpend) :=
  if BIGNUM_SIZE ≤ txin.scriptSig.length then some (Z.TxInToZerocoinSpend txin) else none

/-- `TxOutToPublicCoin`; the value need not be a denomination. -/
def TxOutToPublicCoin (Z : Zerocoin) (txout : CTxOut) : Option (Option PublicCoin) :=
  if SCRIPT_OFFSET ≤ txout.scriptPubKey.length then some (Divitae.TxOutToPublicCoin Z txout)
  else none

/-! ## What must be there -/

/-- A first input whose previous hash is null has a byte in its script. -/
def FirstByte (tx : CTransaction) : Prop :=
  ∀ txin ∈ tx.vin.head?, txin.prevout.hash = 0 → txin.scriptSig ≠ []

/-- The same of an only input whose previous output is null. -/
def CoinBaseByte (tx : CTransaction) : Prop :=
  ∀ txin, tx.vin = [txin] → txin.prevout.IsNull → txin.scriptSig ≠ []

def SpendBytes (txin : CTxIn) : Prop :=
  txin.scriptSig.IsZerocoinSpend → BIGNUM_SIZE ≤ txin.scriptSig.length

def MintBytes (txout : CTxOut) : Prop :=
  txout.IsZerocoinMint → SCRIPT_OFFSET ≤ txout.scriptPubKey.length

section
variable {tx : CTransaction}

theorem IsZerocoinSpend_isSome : (IsZerocoinSpend tx).isSome ↔ FirstByte tx := by
  unfold IsZerocoinSpend FirstByte
  cases tx.vin with
  | nil => exact ⟨nofun, fun _ => rfl⟩
  | cons txin vin =>
    dsimp only
    by_cases hhash : txin.prevout.hash = 0
    · rw [if_pos hhash]
      cases hscript : txin.scriptSig with
      | nil =>
        refine ⟨nofun, fun h => absurd hscript (h txin rfl hhash)⟩
      | cons opcode script =>
        refine ⟨?_, fun _ => rfl⟩
        rintro - _ ⟨⟩ -
        rw [hscript]
        exact List.cons_ne_nil _ _
    · rw [if_neg hhash]
      refine ⟨?_, fun _ => rfl⟩
      rintro - _ ⟨⟩ hzero
      exact absurd hzero hhash

theorem IsZerocoinSpend_eq {spend : Bool} (h : IsZerocoinSpend tx = some spend) :
    spend = tx.IsZerocoinSpend := by
  unfold IsZerocoinSpend at h
  unfold CTransaction.IsZerocoinSpend
  cases hvin : tx.vin with
  | nil =>
    rw [hvin] at h
    exact (Option.some.inj h).symm
  | cons txin vin =>
    rw [hvin] at h
    dsimp only at h ⊢
    by_cases hhash : txin.prevout.hash = 0
    · rw [if_pos hhash] at h
      obtain ⟨opcode, hopcode, rfl⟩ := Option.map_eq_some_iff.mp h
      have hhead : txin.scriptSig.head? = some opcode := List.head?_eq_getElem?.trans hopcode
      unfold CScript.IsZerocoinSpend
      rw [hhead, hhash]
      rfl
    · have hne : (txin.prevout.hash == 0) = false := beq_eq_false_iff_ne.mpr hhash
      rw [if_neg hhash] at h
      rw [hne]
      exact (Option.some.inj h).symm

theorem IsCoinBase_isSome : (IsCoinBase tx).isSome ↔ CoinBaseByte tx := by
  unfold IsCoinBase CoinBaseByte
  split
  next txin hvin =>
    by_cases hnull : txin.prevout.IsNull = true
    · have hzero : txin.prevout.hash = 0 := by
        simp only [COutPoint.IsNull, and_eq_true, beq_iff_eq] at hnull
        exact hnull.1
      rw [if_pos hnull]
      unfold ContainsZerocoins
      rw [Option.isSome_map, Option.isSome_map, IsZerocoinSpend_isSome]
      unfold FirstByte
      rw [hvin]
      constructor
      · rintro h _ ⟨⟩ -
        exact h txin rfl hzero
      · rintro h _ ⟨⟩ -
        exact h txin rfl hnull
    · rw [if_neg hnull]
      refine ⟨?_, fun _ => rfl⟩
      rintro - txin' hvin' hnull'
      rw [hvin] at hvin'
      obtain ⟨rfl, -⟩ := List.cons.inj hvin'
      exact absurd hnull' hnull
  next hother =>
    refine ⟨?_, fun _ => rfl⟩
    rintro - txin hvin -
    exact absurd hvin (hother txin)

theorem IsCoinBase_eq {coinBase : Bool} (h : IsCoinBase tx = some coinBase) :
    coinBase = tx.IsCoinBase := by
  unfold IsCoinBase at h
  split at h
  next txin hvin =>
    unfold CTransaction.IsCoinBase
    rw [hvin]
    dsimp only
    by_cases hnull : txin.prevout.IsNull = true
    · rw [if_pos hnull] at h
      unfold ContainsZerocoins at h
      rw [Option.map_map] at h
      obtain ⟨spend, hspend, rfl⟩ := Option.map_eq_some_iff.mp h
      rw [IsZerocoinSpend_eq hspend, hnull]
      rfl
    · rw [if_neg hnull] at h
      cases h
      simp [hnull]
  next hother =>
    cases h
    unfold CTransaction.IsCoinBase
    split
    next txin hvin => exact absurd hvin (hother txin)
    · rfl

theorem FirstByte.coinBase (h : FirstByte tx) : CoinBaseByte tx := by
  intro txin hvin hnull
  simp only [COutPoint.IsNull, and_eq_true, beq_iff_eq] at hnull
  exact h txin (by rw [hvin]; rfl) hnull.1

variable {Z : Zerocoin}

theorem TxInToZerocoinSpend_isSome {txin : CTxIn} :
    (TxInToZerocoinSpend Z txin).isSome ↔ BIGNUM_SIZE ≤ txin.scriptSig.length := by
  unfold TxInToZerocoinSpend
  split_ifs with h
  · exact iff_of_true rfl h
  · exact iff_of_false false_ne_true h

theorem TxInToZerocoinSpend_eq {txin : CTxIn} {spend : Option CoinSpend}
    (h : TxInToZerocoinSpend Z txin = some spend) : spend = Z.TxInToZerocoinSpend txin := by
  unfold TxInToZerocoinSpend at h
  split_ifs at h
  exact (Option.some.inj h).symm

theorem TxOutToPublicCoin_isSome {txout : CTxOut} :
    (TxOutToPublicCoin Z txout).isSome ↔ SCRIPT_OFFSET ≤ txout.scriptPubKey.length := by
  unfold TxOutToPublicCoin
  split_ifs with h
  · exact iff_of_true rfl h
  · exact iff_of_false false_ne_true h

theorem TxOutToPublicCoin_eq {txout : CTxOut} {coin : Option PublicCoin}
    (h : TxOutToPublicCoin Z txout = some coin) : coin = Divitae.TxOutToPublicCoin Z txout := by
  unfold TxOutToPublicCoin at h
  split_ifs at h
  exact (Option.some.inj h).symm

end

/-! ## Outputs -/

section
variable (N : CNode) (tx : CTransaction) (fZerocoinActive : Bool)

/-- What `CheckTransaction` does with an output, from the value so far. -/
def readOutput (nValueOut : CAmount) (txout : CTxOut) : Reading String CAmount :=
  (if txout.IsEmpty then
    read (IsCoinBase tx) >>= fun coinBase =>
    reject (!coinBase && !tx.IsCoinStake) "CheckTransaction(): txout empty for user transaction"
  else pure ()) >>= fun _ =>
  reject (txout.nValue < 0) "bad-txns-vout-negative" >>= fun _ =>
  reject (N.P.nMaxMoneyOut < txout.nValue) "bad-txns-vout-toolarge" >>= fun _ =>
  reject (!MoneyRange N.P (nValueOut + txout.nValue)) "bad-txns-txouttotal-toolarge" >>= fun _ =>
  (if fZerocoinActive && txout.IsZerocoinMint then
    read (TxOutToPublicCoin N.Z txout) >>= fun coin =>
    reject (!coin.any N.Z.validate) "CheckTransaction() : invalid zerocoin mint"
  else pure ()) >>= fun _ =>
  pure (nValueOut + txout.nValue)

def checkOutput (nValueOut : CAmount) (txout : CTxOut) : Checked CAmount :=
  rejectIf (txout.IsEmpty && !tx.IsCoinBase && !tx.IsCoinStake)
    "CheckTransaction(): txout empty for user transaction" <|
  rejectIf (txout.nValue < 0) "bad-txns-vout-negative" <|
  rejectIf (N.P.nMaxMoneyOut < txout.nValue) "bad-txns-vout-toolarge" <|
  rejectIf (!MoneyRange N.P (nValueOut + txout.nValue)) "bad-txns-txouttotal-toolarge" <|
  rejectIf (fZerocoinActive && txout.IsZerocoinMint &&
      !((Divitae.TxOutToPublicCoin N.Z txout).any N.Z.validate))
    "CheckTransaction() : invalid zerocoin mint" <|
  .ok (nValueOut + txout.nValue)

/-- What must be there of an output. -/
structure OutputFound (nValueOut : CAmount) (txout : CTxOut) : Prop where
  /-- an empty one may be a coinbase's -/
  ofEmpty : txout.IsEmpty → CoinBaseByte tx
  /-- a mint of an amount in range -/
  mint : fZerocoinActive → 0 ≤ txout.nValue → txout.nValue ≤ N.P.nMaxMoneyOut →
    MoneyRange N.P (nValueOut + txout.nValue) → MintBytes txout

end

section
variable {N : CNode} {tx : CTransaction} {fZerocoinActive : Bool}

theorem computes_rejectIf {α : Type} {bad : Bool} {reason : String} {c : Reading String Unit}
    {k : Unit → Reading String α} {t : Checked α}
    (hc : Computes c (if bad then .error reason else .ok ())) (hk : Computes (k ()) t) :
    Computes (c >>= k) (rejectIf bad reason t) := by
  have hbind : rejectIf bad reason t =
      ((if bad then .error reason else .ok () : Checked Unit) >>= fun _ => t) := by
    cases bad <;> rfl
  rw [hbind]
  exact computes_bind hc fun _ _ => hk

theorem computes_emptyOutput (txout : CTxOut) (reason : String) :
    Computes (if txout.IsEmpty then
        read (IsCoinBase tx) >>= fun coinBase => reject (!coinBase && !tx.IsCoinStake) reason
      else pure ())
      (if (txout.IsEmpty && !tx.IsCoinBase && !tx.IsCoinStake) = true then .error reason
        else .ok ()) := by
  cases txout.IsEmpty with
  | false => exact computes_pure ()
  | true =>
    exact computes_read_bind (fun _ h => IsCoinBase_eq h) (computes_reject _ _)

theorem computes_mintOutput (txout : CTxOut) (reason : String) :
    Computes (if fZerocoinActive && txout.IsZerocoinMint then
        read (TxOutToPublicCoin N.Z txout) >>= fun coin => reject (!coin.any N.Z.validate) reason
      else pure ())
      (if (fZerocoinActive && txout.IsZerocoinMint &&
          !((Divitae.TxOutToPublicCoin N.Z txout).any N.Z.validate)) = true then .error reason
        else .ok ()) := by
  cases fZerocoinActive && txout.IsZerocoinMint with
  | false => exact computes_pure ()
  | true =>
    exact computes_read_bind (fun _ h => TxOutToPublicCoin_eq h) (computes_reject _ _)

theorem computes_readOutput (nValueOut : CAmount) (txout : CTxOut) :
    Computes (readOutput N tx fZerocoinActive nValueOut txout)
      (checkOutput N tx fZerocoinActive nValueOut txout) :=
  computes_rejectIf (computes_emptyOutput _ _) <|
  computes_rejectIf (computes_reject _ _) <|
  computes_rejectIf (computes_reject _ _) <|
  computes_rejectIf (computes_reject _ _) <|
  computes_rejectIf (computes_mintOutput _ _) (computes_pure _)

theorem not_empty_of_mint {txout : CTxOut} (h : txout.IsZerocoinMint = true) :
    txout.IsEmpty = false := by
  unfold CTxOut.IsZerocoinMint CScript.IsZerocoinMint at h
  unfold CTxOut.IsEmpty
  cases hscript : txout.scriptPubKey with
  | nil =>
    rw [hscript] at h
    cases h
  | cons opcode script => exact and_false _

theorem inBounds_readOutput (nValueOut : CAmount) (txout : CTxOut) :
    InBounds (readOutput N tx fZerocoinActive nValueOut txout) ↔
      OutputFound N tx fZerocoinActive nValueOut txout := by
  have hempty : InBounds (if txout.IsEmpty then
        read (IsCoinBase tx) >>= fun coinBase => reject (!coinBase && !tx.IsCoinStake)
          "CheckTransaction(): txout empty for user transaction"
      else pure ()) ↔ (txout.IsEmpty → CoinBaseByte tx) := by
    cases txout.IsEmpty with
    | false => exact iff_of_true (inBounds_pure ()) nofun
    | true =>
      rw [if_pos rfl, inBounds_read_bind fun _ h => IsCoinBase_eq h, IsCoinBase_isSome]
      exact ⟨fun h _ => h.1, fun h => ⟨h rfl, inBounds_reject _ _⟩⟩
  have hmint : InBounds (if fZerocoinActive && txout.IsZerocoinMint then
        read (TxOutToPublicCoin N.Z txout) >>= fun coin => reject (!coin.any N.Z.validate)
          "CheckTransaction() : invalid zerocoin mint"
      else pure ()) ↔ (fZerocoinActive → MintBytes txout) := by
    unfold MintBytes
    cases fZerocoinActive with
    | false => exact iff_of_true (inBounds_pure ()) nofun
    | true =>
      cases txout.IsZerocoinMint with
      | false => exact iff_of_true (inBounds_pure ()) nofun
      | true =>
        rw [if_pos (by rfl), inBounds_read_bind fun _ h => TxOutToPublicCoin_eq h,
          TxOutToPublicCoin_isSome]
        exact ⟨fun h _ _ => h.1, fun h => ⟨h rfl rfl, inBounds_reject _ _⟩⟩
  unfold readOutput
  rw [inBounds_bind (computes_emptyOutput _ _), hempty]
  simp only [inBounds_reject_bind, inBounds_bind (computes_mintOutput _ _), hmint]
  constructor
  · rintro ⟨hfirst, hrest⟩
    refine ⟨hfirst, ?_⟩
    intro hactive hnonneg hle hrange hmint
    refine (hrest () ?_ ?_ ?_ ?_).1 hactive hmint
    · rw [not_empty_of_mint hmint]
      rfl
    · exact decide_eq_false (not_lt.mpr hnonneg)
    · exact decide_eq_false (not_lt.mpr hle)
    · rw [hrange]
      rfl
  · rintro ⟨hfirst, hrest⟩
    refine ⟨hfirst, ?_⟩
    rintro _ - hnonneg hle hrange
    refine ⟨?_, fun _ _ => inBounds_pure _⟩
    intro hactive
    exact hrest hactive (not_lt.mp (of_decide_eq_false hnonneg))
      (not_lt.mp (of_decide_eq_false hle)) (by simpa using hrange)

theorem checkOutputs_eq (vout : List CTxOut) (nValueOut : CAmount) :
    Divitae.checkOutputs N tx fZerocoinActive vout nValueOut =
      (vout.foldlM (checkOutput N tx fZerocoinActive) nValueOut >>= fun _ => .ok ()) := by
  induction vout generalizing nValueOut with
  | nil => rfl
  | cons txout vout ih =>
    have hround (t : CAmount → Checked Unit) :
        (checkOutput N tx fZerocoinActive nValueOut txout >>= t) =
        rejectIf (txout.IsEmpty && !tx.IsCoinBase && !tx.IsCoinStake)
          "CheckTransaction(): txout empty for user transaction" (
        rejectIf (txout.nValue < 0) "bad-txns-vout-negative" (
        rejectIf (N.P.nMaxMoneyOut < txout.nValue) "bad-txns-vout-toolarge" (
        rejectIf (!MoneyRange N.P (nValueOut + txout.nValue)) "bad-txns-txouttotal-toolarge" (
        rejectIf (fZerocoinActive && txout.IsZerocoinMint &&
            !((Divitae.TxOutToPublicCoin N.Z txout).any N.Z.validate))
          "CheckTransaction() : invalid zerocoin mint" (t (nValueOut + txout.nValue)))))) := by
      simp only [checkOutput, rejectIf_bind]
      rfl
    rw [List.foldlM_cons, bind_assoc, hround, ← ih]
    rfl

end

/-! ## Spends -/

/-- The serials seen, the amount redeemed and whether a spend was seen. -/
abbrev SpendState := List Int × CAmount × Bool

section
variable (N : CNode) (tx : CTransaction) (fVerifySignature : Bool)

/-- What `CheckZerocoinSpend` does with an input. -/
def readSpend (st : SpendState) (txin : CTxIn) : Reading String SpendState :=
  if !txin.scriptSig.IsZerocoinSpend then pure st
  else
    read (TxInToZerocoinSpend N.Z txin) >>= fun spend =>
    match spend with
    | none => fail "CDataStream::read() : end of data"
    | some newSpend =>
      reject (newSpend.denomination == .ZQ_ERROR)
        "Zerocoinspend does not have the correct denomination" >>= fun _ =>
      reject (newSpend.denomination.toInt != txin.nSequence)
        "Zerocoinspend nSequence denomination does not match CoinSpend" >>= fun _ =>
      reject (newSpend.ptxHash != hashTxOut N tx.vout)
        "Zerocoinspend does not use the same txout that was used in the SoK" >>= fun _ =>
      reject (fVerifySignature && !N.Z.Verify newSpend)
        "CheckZerocoinSpend(): zerocoin spend did not verify" >>= fun _ =>
      reject (st.1.contains newSpend.coinSerialNumber)
        "Zerocoinspend serial is used twice in the same tx" >>= fun _ =>
      pure (newSpend.coinSerialNumber :: st.1, st.2.1 + newSpend.denomination.toAmount, true)

def checkSpend (st : SpendState) (txin : CTxIn) : Checked SpendState :=
  if !txin.scriptSig.IsZerocoinSpend then .ok st
  else
    match N.Z.TxInToZerocoinSpend txin with
    | none => .error "CDataStream::read() : end of data"
    | some newSpend =>
      rejectIf (newSpend.denomination == .ZQ_ERROR)
        "Zerocoinspend does not have the correct denomination" <|
      rejectIf (newSpend.denomination.toInt != txin.nSequence)
        "Zerocoinspend nSequence denomination does not match CoinSpend" <|
      rejectIf (newSpend.ptxHash != hashTxOut N tx.vout)
        "Zerocoinspend does not use the same txout that was used in the SoK" <|
      rejectIf (fVerifySignature && !N.Z.Verify newSpend)
        "CheckZerocoinSpend(): zerocoin spend did not verify" <|
      rejectIf (st.1.contains newSpend.coinSerialNumber)
        "Zerocoinspend serial is used twice in the same tx" <|
      .ok (newSpend.coinSerialNumber :: st.1, st.2.1 + newSpend.denomination.toAmount, true)

/-- More than two outputs are no mints, in a transaction that is no coin stake. -/
def overTwoOutputs : Bool :=
  2 < tx.vout.length && 2 < (tx.vout.filter fun out => !out.IsZerocoinMint).length &&
    !tx.IsCoinStake

def CheckZerocoinSpend : Reading String Unit :=
  reject (overTwoOutputs tx)
    "CheckZerocoinSpend(): over two non-mint outputs in a zerocoinspend transaction" >>= fun _ =>
  tx.vin.foldlM (readSpend N tx fVerifySignature) ([], 0, false) >>= fun st =>
  reject (!tx.IsCoinStake && st.2.1 < tx.GetValueOut)
    "Transaction spend more than was redeemed in zerocoins" >>= fun _ =>
  reject (!st.2.2) "CheckTransaction() : invalid zerocoin spend"

end

section
variable {N : CNode} {tx : CTransaction} {fVerifySignature : Bool}

theorem computes_readSpend (st : SpendState) (txin : CTxIn) :
    Computes (readSpend N tx fVerifySignature st txin)
      (checkSpend N tx fVerifySignature st txin) := by
  unfold readSpend checkSpend
  split_ifs with hspend
  · exact computes_pure st
  · refine computes_read_bind (fun _ h => TxInToZerocoinSpend_eq h) ?_
    cases N.Z.TxInToZerocoinSpend txin with
    | none => exact computes_fail _
    | some newSpend =>
      exact computes_rejectIf (computes_reject _ _) <|
        computes_rejectIf (computes_reject _ _) <|
        computes_rejectIf (computes_reject _ _) <|
        computes_rejectIf (computes_reject _ _) <|
        computes_rejectIf (computes_reject _ _) (computes_pure _)

theorem inBounds_readSpend (st : SpendState) (txin : CTxIn) :
    InBounds (readSpend N tx fVerifySignature st txin) ↔ SpendBytes txin := by
  unfold readSpend SpendBytes
  cases txin.scriptSig.IsZerocoinSpend with
  | false => exact iff_of_true (inBounds_pure _) (by simp)
  | true =>
    rw [if_neg (by decide), inBounds_read_bind fun _ h => TxInToZerocoinSpend_eq h,
      TxInToZerocoinSpend_isSome]
    refine ⟨fun h _ => h.1, fun h => ⟨h rfl, ?_⟩⟩
    cases N.Z.TxInToZerocoinSpend txin with
    | none => exact inBounds_fail _
    | some newSpend =>
      simp only [inBounds_reject_bind]
      exact fun _ _ _ _ _ => inBounds_pure _

theorem checkZerocoinInputs_eq (vin : List CTxIn) (st : SpendState) :
    checkZerocoinInputs N tx fVerifySignature vin st.1 st.2.1 st.2.2 =
      (vin.foldlM (checkSpend N tx fVerifySignature) st >>= fun st => .ok st.2) := by
  induction vin generalizing st with
  | nil => rfl
  | cons txin vin ih =>
    rw [List.foldlM_cons, bind_assoc]
    unfold checkZerocoinInputs checkSpend
    split_ifs with hspend
    · exact ih st
    · cases N.Z.TxInToZerocoinSpend txin with
      | none => rfl
      | some newSpend =>
        simp only [rejectIf_bind]
        rw [ih (newSpend.coinSerialNumber :: st.1, st.2.1 + newSpend.denomination.toAmount, true)]
        rfl

theorem computes_CheckZerocoinSpend : Computes (CheckZerocoinSpend N tx fVerifySignature)
    (Divitae.CheckZerocoinSpend N tx fVerifySignature) := by
  have hinputs := @checkZerocoinInputs_eq N tx fVerifySignature tx.vin ([], 0, false)
  unfold Divitae.CheckZerocoinSpend
  rw [hinputs, bind_assoc]
  refine computes_rejectIf (computes_reject _ _) ?_
  refine computes_bind (computes_foldlM computes_readSpend _ _) ?_
  intro st _
  exact computes_rejectIf (computes_reject _ _) (computes_reject _ _)

theorem inBounds_CheckZerocoinSpend : InBounds (CheckZerocoinSpend N tx fVerifySignature) ↔
    (overTwoOutputs tx = false → AtEach tx.vin fun before txin => ∀ st,
      before.foldlM (checkSpend N tx fVerifySignature) ([], 0, false) = .ok st →
        SpendBytes txin) := by
  unfold CheckZerocoinSpend
  rw [inBounds_reject_bind]
  refine imp_congr_right fun _ => ?_
  rw [inBounds_bind (computes_foldlM computes_readSpend _ _), inBounds_foldlM computes_readSpend]
  simp only [inBounds_readSpend, inBounds_reject_bind]
  exact ⟨fun h => h.1, fun h => ⟨h, fun _ _ _ => inBounds_reject _ _⟩⟩

end

/-! ## Transactions -/

section
variable (N : CNode) (tx : CTransaction) (fZerocoinActive : Bool)

/-- No signature verification during initial sync or for a tip over 24 hours old. -/
def verifiesSignature : Bool :=
  !N.IsInitialBlockDownload && N.chainTip.any fun tip => N.time - tip.nTime < 60 * 60 * 24

/-- There are more outputs with a spend's script than a transaction may have. -/
def tooManySpends : Bool :=
  fZerocoinActive && N.P.nMaxZerocoinSpendsPerTransaction <
    (tx.vout.filter fun out => out.scriptPubKey.IsZerocoinSpend).length

/-- What `CheckTransaction` does with a zerocoin spend. -/
def readSpends : Reading String Unit :=
  if fZerocoinActive then
    read (IsZerocoinSpend tx) >>= fun spend =>
    if spend then
      reject (tx.vin.any fun txin => !txin.scriptSig.IsZerocoinSpend)
        "CheckTransaction() : zerocoinspend contains inputs that are not zerocoins" >>= fun _ =>
      CheckZerocoinSpend N tx (verifiesSignature N)
    else pure ()
  else pure ()

def readKind : Reading String Unit :=
  read (IsCoinBase tx) >>= fun coinBase =>
  if coinBase then
    reject (tx.vin.any fun txin => txin.scriptSig.length < 2 || 150 < txin.scriptSig.length)
      "bad-cb-length"
  else
    (if fZerocoinActive then read (IsZerocoinSpend tx) else pure false) >>= fun spend =>
    if spend then
      reject (N.P.nMaxZerocoinSpendsPerTransaction < tx.vin.length) "bad-zerocoinspend"
    else
      reject (tx.vin.any fun txin =>
          txin.prevout.IsNull && fZerocoinActive && !txin.scriptSig.IsZerocoinSpend)
        "bad-txns-prevout-null"

def CheckTransaction : Reading String Unit :=
  reject tx.vin.isEmpty "bad-txns-vin-empty" >>= fun _ =>
  reject tx.vout.isEmpty "bad-txns-vout-empty" >>= fun _ =>
  reject (MAX_ZEROCOIN_TX_SIZE < tx.ser.length) "bad-txns-oversize" >>= fun _ =>
  tx.vout.foldlM (readOutput N tx fZerocoinActive) 0 >>= fun _ =>
  reject (tooManySpends N tx fZerocoinActive)
    "CheckTransaction() : there are more zerocoin spends than are allowed in one transaction"
    >>= fun _ =>
  readSpends N tx fZerocoinActive >>= fun _ =>
  reject (hasDuplicateInputs tx.vin []) "bad-txns-inputs-duplicate" >>= fun _ =>
  readKind N tx fZerocoinActive

/-- The transaction has inputs and outputs, and is not too large. -/
structure Sized : Prop where
  inputs : tx.vin.isEmpty = false
  outputs : tx.vout.isEmpty = false
  size : tx.ser.length ≤ MAX_ZEROCOIN_TX_SIZE

/-- Its outputs are in order. -/
structure OutputsPass : Prop where
  sized : Sized tx
  outputs : ∃ nValueOut, tx.vout.foldlM (checkOutput N tx fZerocoinActive) 0 = .ok nValueOut
  spends : tooManySpends N tx fZerocoinActive = false

/-- Its inputs are to be read as spends. -/
structure SpendsRead : Prop where
  outputs : OutputsPass N tx fZerocoinActive
  active : fZerocoinActive = true
  spend : tx.IsZerocoinSpend = true
  all : (tx.vin.any fun txin => !txin.scriptSig.IsZerocoinSpend) = false
  few : overTwoOutputs tx = false

/-- What must be there for `CheckTransaction`. -/
structure TransactionFound : Prop where
  outputs : Sized tx → AtEach tx.vout fun before txout => ∀ nValueOut,
    before.foldlM (checkOutput N tx fZerocoinActive) 0 = .ok nValueOut →
      OutputFound N tx fZerocoinActive nValueOut txout
  spend : OutputsPass N tx fZerocoinActive → fZerocoinActive = true → FirstByte tx
  inputs : SpendsRead N tx fZerocoinActive → AtEach tx.vin fun before txin => ∀ st,
    before.foldlM (checkSpend N tx (verifiesSignature N)) ([], 0, false) = .ok st → SpendBytes txin
  coinBase : OutputsPass N tx fZerocoinActive → fZerocoinActive = false →
    hasDuplicateInputs tx.vin [] = false → CoinBaseByte tx

end

section
variable {N : CNode} {tx : CTransaction} {fZerocoinActive : Bool}

/-- The part of `CheckTransaction` about spends, without its reads. -/
def checkSpends (N : CNode) (tx : CTransaction) (fZerocoinActive : Bool) : Checked Unit :=
  if fZerocoinActive && tx.IsZerocoinSpend then
    rejectIf (tx.vin.any fun txin => !txin.scriptSig.IsZerocoinSpend)
      "CheckTransaction() : zerocoinspend contains inputs that are not zerocoins" <|
    Divitae.CheckZerocoinSpend N tx (verifiesSignature N)
  else .ok ()

def checkKind (N : CNode) (tx : CTransaction) (fZerocoinActive : Bool) : Checked Unit :=
  if tx.IsCoinBase then
    rejectIf (tx.vin.any fun txin =>
        txin.scriptSig.length < 2 || 150 < txin.scriptSig.length) "bad-cb-length" (.ok ())
  else if fZerocoinActive && tx.IsZerocoinSpend then
    rejectIf (N.P.nMaxZerocoinSpendsPerTransaction < tx.vin.length) "bad-zerocoinspend" (.ok ())
  else
    rejectIf (tx.vin.any fun txin =>
        txin.prevout.IsNull && fZerocoinActive && !txin.scriptSig.IsZerocoinSpend)
      "bad-txns-prevout-null" (.ok ())

theorem computes_readSpends : Computes (readSpends N tx fZerocoinActive)
    (checkSpends N tx fZerocoinActive) := by
  unfold readSpends checkSpends
  cases fZerocoinActive with
  | false => exact computes_pure ()
  | true =>
    rw [if_pos rfl, Bool.true_and]
    refine computes_read_bind (fun _ h => IsZerocoinSpend_eq h) ?_
    split_ifs
    · exact computes_rejectIf (computes_reject _ _) computes_CheckZerocoinSpend
    · exact computes_pure ()

theorem computes_readKind : Computes (readKind N tx fZerocoinActive)
    (checkKind N tx fZerocoinActive) := by
  unfold readKind checkKind
  refine computes_read_bind (fun _ h => IsCoinBase_eq h) ?_
  cases tx.IsCoinBase with
  | true => exact computes_reject _ _
  | false =>
    cases fZerocoinActive with
    | false => exact computes_reject _ _
    | true =>
      simp only [Bool.false_eq_true, if_false, if_true, Bool.true_and]
      refine computes_read_bind (fun _ h => IsZerocoinSpend_eq h) ?_
      split_ifs
      · exact computes_reject _ _
      · exact computes_reject _ _

theorem computes_CheckTransaction : Computes (CheckTransaction N tx fZerocoinActive)
    (Divitae.CheckTransaction N tx fZerocoinActive) := by
  refine computes_rejectIf (computes_reject _ _) ?_
  refine computes_rejectIf (computes_reject _ _) ?_
  refine computes_rejectIf (computes_reject _ _) ?_
  rw [checkOutputs_eq, bind_assoc]
  refine computes_bind (computes_foldlM computes_readOutput _ _) ?_
  intro _ _
  refine computes_rejectIf (computes_reject _ _) ?_
  refine computes_bind computes_readSpends ?_
  intro _ _
  exact computes_rejectIf (computes_reject _ _) computes_readKind

theorem inBounds_readSpends : InBounds (readSpends N tx fZerocoinActive) ↔
    (fZerocoinActive = true → FirstByte tx) ∧
    (fZerocoinActive = true → tx.IsZerocoinSpend = true →
      (tx.vin.any fun txin => !txin.scriptSig.IsZerocoinSpend) = false →
      overTwoOutputs tx = false → AtEach tx.vin fun before txin => ∀ st,
        before.foldlM (checkSpend N tx (verifiesSignature N)) ([], 0, false) = .ok st →
          SpendBytes txin) := by
  unfold readSpends
  cases fZerocoinActive with
  | false => exact iff_of_true (inBounds_pure ()) ⟨nofun, nofun⟩
  | true =>
    rw [if_pos rfl, inBounds_read_bind fun _ h => IsZerocoinSpend_eq h, IsZerocoinSpend_isSome]
    simp only [true_implies]
    refine and_congr_right fun _ => ?_
    cases tx.IsZerocoinSpend with
    | false => exact iff_of_true (inBounds_pure ()) nofun
    | true =>
      rw [if_pos rfl, inBounds_reject_bind, inBounds_CheckZerocoinSpend]
      simp only [true_implies]

theorem inBounds_readKind (h : fZerocoinActive = true → FirstByte tx) :
    InBounds (readKind N tx fZerocoinActive) ↔ CoinBaseByte tx := by
  unfold readKind
  rw [inBounds_read_bind fun _ h => IsCoinBase_eq h, IsCoinBase_isSome]
  refine and_iff_left ?_
  split_ifs
  · exact inBounds_reject _ _
  · have hspend := IsZerocoinSpend_isSome.mpr (h ‹_›)
    rw [inBounds_read_bind fun _ h => IsZerocoinSpend_eq h]
    refine ⟨hspend, ?_⟩
    split_ifs
    · exact inBounds_reject _ _
    · exact inBounds_reject _ _
  · exact inBounds_reject _ _

/-- **`CheckTransaction` reads nothing out of bounds exactly where it finds what it reads.** -/
theorem inBounds_CheckTransaction :
    InBounds (CheckTransaction N tx fZerocoinActive) ↔ TransactionFound N tx fZerocoinActive := by
  unfold CheckTransaction
  simp only [inBounds_reject_bind, inBounds_bind (computes_foldlM computes_readOutput _ _),
    inBounds_foldlM computes_readOutput, inBounds_readOutput, inBounds_bind computes_readSpends,
    inBounds_readSpends]
  constructor
  · intro h
    have hsized (hs : Sized tx) := h hs.inputs hs.outputs (decide_eq_false (not_lt.mpr hs.size))
    refine ⟨fun hs => (hsized hs).1, ?_, ?_, ?_⟩
    · rintro ⟨hs, ⟨nValueOut, hvalue⟩, hfew⟩
      exact ((hsized hs).2 nValueOut hvalue hfew).1.1
    · rintro ⟨⟨hs, ⟨nValueOut, hvalue⟩, hfew⟩, hactive, hspend, hall, htwo⟩
      exact ((hsized hs).2 nValueOut hvalue hfew).1.2 hactive hspend hall htwo
    · rintro ⟨hs, ⟨nValueOut, hvalue⟩, hfew⟩ hactive hdouble
      subst hactive
      exact (@inBounds_readKind N tx false nofun).mp
        (((hsized hs).2 nValueOut hvalue hfew).2 () rfl hdouble)
  · intro h hinputs houtputs hsize
    have hs : Sized tx := ⟨hinputs, houtputs, not_lt.mp (of_decide_eq_false hsize)⟩
    refine ⟨h.outputs hs, ?_⟩
    intro nValueOut hvalue hfew
    have hpass : OutputsPass N tx fZerocoinActive := ⟨hs, ⟨nValueOut, hvalue⟩, hfew⟩
    refine ⟨⟨h.spend hpass, fun hactive hspend hall htwo =>
      h.inputs ⟨hpass, hactive, hspend, hall, htwo⟩⟩, ?_⟩
    intro _ _ hdouble
    refine (inBounds_readKind (h.spend hpass)).mpr ?_
    cases hactive : fZerocoinActive with
    | true => exact (h.spend hpass hactive).coinBase
    | false => exact h.coinBase hpass hactive hdouble

end

end Bounds

end Divitae
