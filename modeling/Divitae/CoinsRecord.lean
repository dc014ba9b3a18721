/-
# `CoinsRecord` — the record of a coin on disk

`CCoins::Serialize` and `Unserialize` with `CalcMaskSize`.  The header code holds the flags,
whether the first two outputs are there, and how many bytes of the mask are not zero; the mask
has a bit for every further output, up to the last byte that is not zero.

    readMask_reads     the reader stops at the byte where the writer did
    reads_coins        what comes back of a record, for any pattern of spent outputs

What comes back is the record after `Cleanup`: spent outputs at the end are not written.
-/
import Divitae.Undo
import Divitae.Lib.Mask
import Divitae.Validation

namespace Divitae.CCoins

open Codec Slots List Bool

section
variable (K : CurvePoints) (c : CCoins)

/-- `n < vout.size() && !vout[n].IsNull()` -/
def unspent (n : ℕ) : Bool :=
  match c.vout[n]? with
  | none => false
  | some txout => !txout.IsNull

/-- Byte `b` of the mask. -/
def chAvail (b : ℕ) : ℕ := Mask.pack (fun i => c.unspent (2 + b * 8 + i)) 8

/-- No output of byte `b` is left. -/
def fZero (b : ℕ) : Bool := (List.range 8).all fun i => !c.unspent (2 + b * 8 + i)

/-- `CalcMaskSize`: the bytes of the mask up to the last one used, and how many are not zero. -/
def CalcMaskSize : ℕ × ℕ :=
  (List.range ((c.vout.length + 5) / 8)).foldl
    (fun n b => if c.fZero b then n else (b + 1, n.2 + 1)) (0, 0)

/-- The header code, an `unsigned int`. -/
def nCode : ℕ :=
  (16 * (c.CalcMaskSize.2 - (if c.unspent 0 || c.unspent 1 then 0 else 1)) +
    (if c.fCoinBase then 1 else 0) + (if c.fCoinStake then 2 else 0) +
    (if c.unspent 0 then 4 else 0) + (if c.unspent 1 then 8 else 0)) % 2 ^ 32

/-- `Serialize`; the source asserts that an output is left. -/
def Serialize : List UInt8 :=
  serVersion c.nVersion ++ writeVar c.nCode ++
    (List.range c.CalcMaskSize.1).map (fun b => UInt8.ofNat (c.chAvail b)) ++
    ((c.vout.filter fun txout => !txout.IsNull).map (serCompressed K)).flatten ++
    serVersion c.nHeight

/-- The bytes of the mask, bit by bit. -/
def readMask (nMaskCode : ℕ) : Reader (List Bool) :=
  bind (Mask.collect (fun chAvail => chAvail != 0) nMaskCode) fun bytes =>
    pure (bytes.map fun chAvail => Mask.unpack chAvail.toNat 8).flatten

def readOutputs : List Bool → Reader (List CTxOut)
  | [] => pure []
  | false :: vAvail => bind (readOutputs vAvail) fun vout => pure (.null :: vout)
  | true :: vAvail =>
    bind (readCompressed K) fun txout =>
    bind (readOutputs vAvail) fun vout => pure (txout :: vout)

def Unserialize : Reader CCoins :=
  bind readVar fun nVersion =>
  bind readVar fun code =>
  let nCode := code % 2 ^ 32
  let fFirst := nCode / 4 % 2 == 1
  let fSecond := nCode / 8 % 2 == 1
  bind (readMask (nCode / 16 + (if fFirst || fSecond then 0 else 1))) fun vAvail =>
  bind (readOutputs K (fFirst :: fSecond :: vAvail)) fun vout =>
  bind readVar fun nHeight =>
    pure (Cleanup ⟨nCode % 2 == 1, nCode / 2 % 2 == 1, vout, (nHeight : ℕ), (nVersion : ℕ)⟩)

end

variable {K : CurvePoints} {c : CCoins}

/-! ## The mask -/

theorem unspent_eq (c : CCoins) (n : ℕ) : c.unspent n = !(c.output n).IsNull := by
  unfold unspent output slot
  rw [getD_eq_getElem?_getD]
  cases c.vout[n]? with
  | none => rfl
  | some txout => rfl

theorem unspent_of_length_le {n : ℕ} (h : c.vout.length ≤ n) : c.unspent n = false := by
  unfold unspent
  rw [List.getElem?_eq_none h]

theorem fZero_iff {b : ℕ} : c.fZero b = true ↔ ∀ i < 8, c.unspent (2 + b * 8 + i) = false := by
  unfold fZero
  simp

theorem chAvail_toNat (b : ℕ) : (UInt8.ofNat (c.chAvail b)).toNat = c.chAvail b := by
  exact Nat.mod_eq_of_lt (Mask.pack_lt _ 8)

theorem chAvail_ne_zero (b : ℕ) : (UInt8.ofNat (c.chAvail b) != 0) = !c.fZero b := by
  have hzero : UInt8.ofNat (c.chAvail b) = 0 ↔ c.fZero b = true := by
    rw [← UInt8.toNat_inj, chAvail_toNat, fZero_iff]
    exact Mask.pack_eq_zero_iff
  cases hz : c.fZero b with
  | true => simp [hzero.mpr hz]
  | false =>
    have hne : UInt8.ofNat (c.chAvail b) ≠ 0 := by
      intro h
      rw [hzero.mp h] at hz
      cases hz
    simpa using hne

theorem maskLoop_spec (c : CCoins) (k : ℕ) :
    ∃ nBytes, (List.range k).foldl
        (fun n b => if c.fZero b then n else (b + 1, n.2 + 1)) (0, 0) =
          (nBytes, (List.range nBytes).countP fun b => !c.fZero b) ∧
      nBytes ≤ k ∧ (∀ b, nBytes ≤ b → b < k → c.fZero b = true) ∧
      (∀ b, nBytes = b + 1 → c.fZero b = false) := by
  induction k with
  | zero =>
    refine ⟨0, rfl, Nat.le_refl 0, ?_, ?_⟩
    · intro b _ hb
      exact absurd hb (Nat.not_lt_zero b)
    · intro b hb
      cases hb
  | succ k ih =>
    obtain ⟨nBytes, hfold, hle, hzero, hlast⟩ := ih
    rw [range_succ, foldl_append, hfold]
    cases hk : c.fZero k with
    | true =>
      refine ⟨nBytes, by simp [hk], Nat.le_succ_of_le hle, ?_, hlast⟩
      intro b hb hlt
      rcases Nat.lt_succ_iff_lt_or_eq.mp hlt with hlt | rfl
      · exact hzero b hb hlt
      · exact hk
    | false =>
      refine ⟨k + 1, ?_, Nat.le_refl _, ?_, ?_⟩
      · have hgap : (List.range k).countP (fun b => !c.fZero b) =
            (List.range nBytes).countP fun b => !c.fZero b := by
          obtain ⟨d, rfl⟩ := Nat.exists_eq_add_of_le hle
          rw [range_add, countP_append, Nat.add_eq_left, countP_eq_zero]
          intro b hb
          obtain ⟨i, hi, rfl⟩ := mem_map.mp hb
          have hi : i < d := mem_range.mp hi
          simp [hzero (nBytes + i) (by omega) (by omega)]
        simp [hk, range_succ, countP_append, hgap]
      · intro b hb hlt
        omega
      · intro b hb
        obtain rfl : k = b := by omega
        exact hk

theorem CalcMaskSize_spec (c : CCoins) :
    c.CalcMaskSize.2 = (List.range c.CalcMaskSize.1).countP (fun b => !c.fZero b) ∧
      c.CalcMaskSize.1 ≤ (c.vout.length + 5) / 8 ∧
      (∀ n, 2 + 8 * c.CalcMaskSize.1 ≤ n → c.unspent n = false) ∧
      (∀ b, c.CalcMaskSize.1 = b + 1 → c.fZero b = false) := by
  obtain ⟨nBytes, hfold, hle, hzero, hlast⟩ := maskLoop_spec c ((c.vout.length + 5) / 8)
  have hsize : c.CalcMaskSize = (nBytes, (List.range nBytes).countP fun b => !c.fZero b) := hfold
  rw [hsize]
  refine ⟨rfl, hle, ?_, hlast⟩
  intro n hn
  rcases Nat.lt_or_ge n c.vout.length with hin | hout
  · have hbyte := fZero_iff.mp (hzero ((n - 2) / 8) (by omega) (by omega)) ((n - 2) % 8) (by omega)
    rwa [show 2 + (n - 2) / 8 * 8 + (n - 2) % 8 = n by omega] at hbyte
  · exact unspent_of_length_le hout

theorem bits_eq (c : CCoins) (k : ℕ) :
    ((List.range k).map fun b => (List.range 8).map fun i => c.unspent (2 + b * 8 + i)).flatten =
      (List.range (8 * k)).map fun i => c.unspent (2 + i) := by
  induction k with
  | zero => rfl
  | succ k ih =>
    rw [@List.range_succ k, map_append, flatten_append, ih, Nat.mul_succ,
      range_add,
      map_append]
    congr 1
    simp [Nat.mul_comm, Nat.add_assoc]

theorem readMask_reads (c : CCoins) :
    Reads (readMask c.CalcMaskSize.2)
      ((List.range c.CalcMaskSize.1).map fun b => UInt8.ofNat (c.chAvail b))
      ((List.range (8 * c.CalcMaskSize.1)).map fun i => c.unspent (2 + i)) := by
  obtain ⟨hcount, -, -, hlast⟩ := CalcMaskSize_spec c
  have hmarked : ((List.range c.CalcMaskSize.1).map fun b => UInt8.ofNat (c.chAvail b)).countP
      (fun chAvail => chAvail != 0) = c.CalcMaskSize.2 := by
    rw [hcount, countP_map]
    refine countP_congr ?_
    intro b _
    rw [Function.comp_apply, chAvail_ne_zero]
  rw [← hmarked]
  refine (Mask.reads_collect ?_).map ?_
  · intro hne
    obtain ⟨b, hb⟩ : ∃ b, c.CalcMaskSize.1 = b + 1 := by
      refine Nat.exists_eq_succ_of_ne_zero ?_
      intro h0
      rw [h0] at hne
      exact hne rfl
    have hbyte := hlast b hb
    simp only [hb, range_succ, map_append, map_cons, map_nil,
      getLast_append_singleton, chAvail_ne_zero, hbyte]
    rfl
  · rw [map_map, ← bits_eq]
    have hbits : ((fun chAvail : UInt8 => Mask.unpack chAvail.toNat 8) ∘
        fun b => UInt8.ofNat (c.chAvail b)) =
          fun b => (List.range 8).map fun i => c.unspent (2 + b * 8 + i) := by
      funext b
      rw [Function.comp_apply, chAvail_toNat]
      exact Mask.unpack_pack _ 8
    rw [hbits]
    exact Reads.pure _

/-! ## The outputs -/

/-- What is left of an amount that was compressed. -/
def storedValue (nValue : CAmount) : CAmount :=
  Wrap.wrap64 (DecompressAmount (CompressAmount (nValue % 2 ^ 64).toNat))

/-- What comes back of an output: a spent one holds nothing. -/
def storedOutput (txout : CTxOut) : CTxOut :=
  if txout.IsNull then .null else { txout with nValue := storedValue txout.nValue }

theorem storedValue_of_range {nValue : CAmount} (hlo : 0 ≤ nValue) (hhi : nValue ≤ 10 ^ 17) :
    storedValue nValue = nValue := amount_back hlo hhi

theorem CompressAmount_lt (n : ℕ) : CompressAmount n < 2 ^ 64 := by
  unfold CompressAmount
  split_ifs with h0
  · exact Nat.two_pow_pos 64
  · dsimp only
    split_ifs
    · exact Nat.mod_lt _ (Nat.two_pow_pos 64)
    · exact Nat.mod_lt _ (Nat.two_pow_pos 64)

theorem DecompressAmount_ne {x : ℕ} (h : x < 2 ^ 64) : DecompressAmount x ≠ 2 ^ 64 - 1 := by
  unfold DecompressAmount
  split_ifs with h0
  · decide
  · dsimp only
    rcases Nat.eq_zero_or_pos ((x - 1) % 10) with he | he
    · have hx : (x - 1) / 10 < 2 ^ 61 := by omega
      rw [he, pow_zero, mul_one, if_pos (by decide), Nat.mod_eq_of_lt (by omega)]
      omega
    · intro heq
      have heven : 2 ∣ 10 ^ ((x - 1) % 10) := (Dvd.intro 5 rfl).trans (dvd_pow_self 10 (by omega))
      have hdvd := heven.mul_left (if (x - 1) % 10 < 9 then (x - 1) / 10 / 9 * 10 +
        ((x - 1) / 10 % 9 + 1) else (x - 1) / 10 + 1)
      omega

theorem storedValue_ne (nValue : CAmount) : storedValue nValue ≠ -1 := by
  have hne := DecompressAmount_ne (CompressAmount_lt (nValue % 2 ^ 64).toNat)
  have hlt : DecompressAmount (CompressAmount (nValue % 2 ^ 64).toNat) < 2 ^ 64 := by
    unfold DecompressAmount
    split_ifs
    · exact Nat.two_pow_pos 64
    · exact Nat.mod_lt _ (Nat.two_pow_pos 64)
  intro heq
  have hmod : storedValue nValue % (2 ^ 64 : ℕ) =
      (DecompressAmount (CompressAmount (nValue % 2 ^ 64).toNat) : Int) % (2 ^ 64 : ℕ) := by
    unfold storedValue Wrap.wrap64
    exact Int.bmod_emod
  rw [heq] at hmod
  generalize DecompressAmount (CompressAmount (nValue % 2 ^ 64).toNat) = n at hne hlt hmod
  push_cast at hmod
  have hones : (18446744073709551615 : Int) = (n : Int) % 18446744073709551616 := hmod
  omega

attribute [irreducible] storedValue

theorem storedOutput_of_held {txout : CTxOut} (h : txout.IsNull = false) :
    storedOutput txout = ⟨storedValue txout.nValue, txout.scriptPubKey⟩ :=
  if_neg (by rw [h]; exact false_ne_true)

theorem isNull_storedOutput (txout : CTxOut) : (storedOutput txout).IsNull = txout.IsNull := by
  cases h : txout.IsNull with
  | true =>
    unfold storedOutput
    rw [h]
    rfl
  | false =>
    rw [storedOutput_of_held h]
    unfold CTxOut.IsNull
    simpa using storedValue_ne txout.nValue

theorem reads_outputs : ∀ l : List CTxOut,
    Reads (readOutputs K (l.map fun txout => !txout.IsNull))
      ((l.filter fun txout => !txout.IsNull).map (serCompressed K)).flatten (l.map storedOutput)
  | [] => Reads.pure []
  | txout :: l => by
    have ih := reads_outputs l
    cases hnull : txout.IsNull with
    | true =>
      have hback : storedOutput txout = .null := if_pos hnull
      simp only [map_cons, filter_cons, hnull, hback, Bool.not_true, false_eq_true, if_false]
      exact ih.map (Reads.pure _)
    | false =>
      have hback := storedOutput_of_held hnull
      simp only [map_cons, filter_cons, hnull, hback, Bool.not_false, if_true, flatten_cons]
      have hone : Reads (readCompressed K) (serCompressed K txout)
          { txout with nValue := storedValue txout.nValue } :=
        (Reads.var _).bind ((reads_script txout.scriptPubKey).map (by
          unfold storedValue
          exact Reads.pure _))
      exact hone.bind (ih.map (Reads.pure _))

/-- The outputs the mask has bits for, the first two with them. -/
def covered (c : CCoins) : List CTxOut := (List.range (2 + 8 * c.CalcMaskSize.1)).map c.output

theorem flags_covered (c : CCoins) :
    c.covered.map (fun txout => !txout.IsNull) =
      c.unspent 0 :: c.unspent 1 ::
        (List.range (8 * c.CalcMaskSize.1)).map fun i => c.unspent (2 + i) := by
  have hflag : ((fun txout : CTxOut => !txout.IsNull) ∘ c.output) = c.unspent := by
    funext n
    exact (unspent_eq c n).symm
  unfold covered
  rw [map_map, hflag, range_add, map_append, map_map]
  rfl

theorem filter_covered (c : CCoins) :
    c.covered.filter (fun txout => !txout.IsNull) = c.vout.filter fun txout => !txout.IsNull := by
  obtain ⟨-, -, hbeyond, -⟩ := CalcMaskSize_spec c
  have hcovered : c.covered = c.vout.take (2 + 8 * c.CalcMaskSize.1) ++
      List.replicate (2 + 8 * c.CalcMaskSize.1 - c.vout.length) .null := map_slot_range _ _
  have hpad : ∀ k, (List.replicate k CTxOut.null).filter (fun txout => !txout.IsNull) = [] := by
    intro k
    refine filter_eq_nil_iff.mpr ?_
    intro txout hmem
    obtain rfl := eq_of_mem_replicate hmem
    exact false_ne_true
  have hrest : (c.vout.drop (2 + 8 * c.CalcMaskSize.1)).filter (fun txout =>
    !txout.IsNull) = [] := by
    refine filter_eq_nil_iff.mpr ?_
    intro txout hmem
    obtain ⟨i, hi⟩ := mem_iff_getElem?.mp hmem
    rw [List.getElem?_drop] at hi
    have hspent := hbeyond (2 + 8 * c.CalcMaskSize.1 + i) (Nat.le_add_right _ _)
    rw [unspent_eq, output_eq_getElem hi] at hspent
    rw [hspent]
    exact false_ne_true
  have hsplit : c.vout.filter (fun txout => !txout.IsNull) =
      (c.vout.take (2 + 8 * c.CalcMaskSize.1)).filter (fun txout => !txout.IsNull) ++
        (c.vout.drop (2 + 8 * c.CalcMaskSize.1)).filter fun txout => !txout.IsNull := by
    rw [← filter_append, take_append_drop]
  rw [hcovered, filter_append, hpad, hsplit, hrest]

/-! ## The record -/

/-- What comes back of a record: spent outputs hold nothing, and none is at the end. -/
def stored (c : CCoins) : CCoins := Cleanup { c with vout := c.vout.map storedOutput }

theorem marks_stored (l : List CTxOut) : Marks CTxOut.IsNull .null (l.map storedOutput) := by
  intro txout hmem hnull
  obtain ⟨o, -, rfl⟩ := mem_map.mp hmem
  rw [isNull_storedOutput] at hnull
  exact if_pos hnull

theorem stored_tidy (c : CCoins) : c.stored.Tidy := tidy_Cleanup (marks_stored c.vout)

theorem stored_output (c : CCoins) (n : ℕ) : c.stored.output n = storedOutput (c.output n) := by
  have htrim : c.stored.output n = slot .null (c.vout.map storedOutput) n :=
    slot_trim (marks_stored _) n
  rw [htrim]
  exact slot_map rfl c.vout n

theorem stored_unspent (c : CCoins) (n : ℕ) : c.stored.unspent n = c.unspent n := by
  rw [unspent_eq, unspent_eq, stored_output, isNull_storedOutput]

theorem Cleanup_covered (c : CCoins) :
    Cleanup { c with vout := c.covered.map storedOutput } = c.stored := by
  refine Tidy.ext (tidy_Cleanup (marks_stored _)) (stored_tidy c) rfl rfl rfl rfl ?_
  intro n
  have htrim : (Cleanup { c with vout := c.covered.map storedOutput }).output n =
      slot .null (c.covered.map storedOutput) n := slot_trim (marks_stored _) n
  have hslot : slot .null (c.covered.map storedOutput) n = storedOutput (slot .null c.covered n) :=
    slot_map rfl _ n
  rw [htrim, hslot, stored_output]
  unfold covered
  rw [slot_map_range]
  split_ifs with hin
  · rfl
  · obtain ⟨-, -, hbeyond, -⟩ := CalcMaskSize_spec c
    have hspent := hbeyond n (Nat.not_lt.mp hin)
    rw [unspent_eq] at hspent
    have hnull : (c.output n).IsNull = true := by simpa using hspent
    exact (if_pos hnull).symm

theorem isPruned_iff (c : CCoins) : c.IsPruned = true ↔ ∀ n, c.unspent n = false := by
  constructor
  · intro h n
    unfold unspent
    cases hn : c.vout[n]? with
    | none => rfl
    | some txout =>
      have hnull := all_eq_true.mp h txout (mem_of_getElem? hn)
      simp [hnull]
  · intro h
    refine all_eq_true.mpr ?_
    intro txout hmem
    obtain ⟨n, hn⟩ := mem_iff_getElem?.mp hmem
    have hspent := h n
    unfold unspent at hspent
    rw [hn] at hspent
    simpa using hspent

/-! ## The header code -/

theorem CalcMaskSize_pos (hlive : c.IsPruned = false) (h0 : c.unspent 0 = false)
    (h1 : c.unspent 1 = false) : 0 < c.CalcMaskSize.2 := by
  obtain ⟨hcount, -, hbeyond, hlast⟩ := CalcMaskSize_spec c
  rcases Nat.eq_zero_or_pos c.CalcMaskSize.1 with hm | hm
  · have hpruned : c.IsPruned = true := by
      refine (isPruned_iff c).mpr ?_
      intro n
      match n with
      | 0 => exact h0
      | 1 => exact h1
      | n + 2 => exact hbeyond (n + 2) (by omega)
    rw [hlive] at hpruned
    cases hpruned
  · obtain ⟨b, hb⟩ := Nat.exists_eq_succ_of_ne_zero (Nat.pos_iff_ne_zero.mp hm)
    rw [hcount, countP_pos_iff]
    refine ⟨b, mem_range.mpr (by omega), ?_⟩
    rw [hlast b hb]
    rfl

theorem CalcMaskSize_le (c : CCoins) : c.CalcMaskSize.2 ≤ (c.vout.length + 5) / 8 := by
  obtain ⟨hcount, hle, -, -⟩ := CalcMaskSize_spec c
  have hnonzero := countP_le_length (p := fun b => !c.fZero b) (l := List.range c.CalcMaskSize.1)
  rw [length_range, ← hcount] at hnonzero
  exact Nat.le_trans hnonzero hle

theorem nCode_fields (hlive : c.IsPruned = false) (hlen : c.vout.length + 5 < 2 ^ 31) :
    (c.nCode % 2 == 1) = c.fCoinBase ∧ (c.nCode / 2 % 2 == 1) = c.fCoinStake ∧
      (c.nCode / 4 % 2 == 1) = c.unspent 0 ∧ (c.nCode / 8 % 2 == 1) = c.unspent 1 ∧
      c.nCode / 16 + (if c.unspent 0 || c.unspent 1 then 0 else 1) = c.CalcMaskSize.2 := by
  have hmask := CalcMaskSize_le c
  have hpos := CalcMaskSize_pos hlive
  have hcode : c.nCode = 16 * (c.CalcMaskSize.2 - (if c.unspent 0 || c.unspent 1 then 0 else 1)) +
      (if c.fCoinBase then 1 else 0) + (if c.fCoinStake then 2 else 0) +
      (if c.unspent 0 then 4 else 0) + (if c.unspent 1 then 8 else 0) :=
    Nat.mod_eq_of_lt (by split_ifs <;> omega)
  rw [hcode]
  cases h0 : c.unspent 0 <;> cases h1 : c.unspent 1 <;> cases c.fCoinBase <;> cases c.fCoinStake <;>
    simp [h0, h1] at hpos ⊢ <;> omega

theorem reads_signed {v : Int} (h : 0 ≤ v) :
    ∃ n : ℕ, Reads readVar (serVersion v) n ∧ (n : Int) = v := by
  obtain ⟨n, hn, hback⟩ := reads_version v
  refine ⟨n, hn, hback.trans ?_⟩
  unfold storedVersion
  split_ifs <;> omega

theorem reads_coins (hlive : c.IsPruned = false) (hversion : 0 ≤ c.nVersion)
    (hheight : 0 ≤ c.nHeight) (hlen : c.vout.length + 5 < 2 ^ 31) :
    Reads (Unserialize K) (c.Serialize K) c.stored := by
  obtain ⟨hbase, hstake, hfirst, hsecond, hcode⟩ := nCode_fields hlive hlen
  obtain ⟨nVersion, hreadVersion, hversion⟩ := reads_signed hversion
  obtain ⟨nHeight, hreadHeight, hheight⟩ := reads_signed hheight
  have hlt : c.nCode % 2 ^ 32 = c.nCode := Nat.mod_mod _ _
  have houtputs : Reads (readOutputs K (c.unspent 0 :: c.unspent 1 ::
      (List.range (8 * c.CalcMaskSize.1)).map fun i => c.unspent (2 + i)))
      ((c.vout.filter fun txout => !txout.IsNull).map (serCompressed K)).flatten
      (c.covered.map storedOutput) := by
    rw [← flags_covered, ← filter_covered]
    exact reads_outputs c.covered
  unfold Serialize
  rw [append_assoc, append_assoc, append_assoc]
  refine hreadVersion.bind ((Reads.var c.nCode).bind ?_)
  dsimp only
  rw [hlt, hbase, hstake, hfirst, hsecond, hcode]
  refine (readMask_reads c).bind (houtputs.bind (hreadHeight.map ?_))
  rw [hversion, hheight, Cleanup_covered]
  exact Reads.pure _

/-! ## When it is the same -/

/-- Every amount still held survives compression. -/
def AmountsKept (c : CCoins) : Prop :=
  ∀ txout ∈ c.vout, txout.IsNull = false → storedValue txout.nValue = txout.nValue

theorem stored_IsAvailable (c : CCoins) (n : ℕ) : c.stored.IsAvailable n = c.IsAvailable n := by
  have hsplit : ∀ d : CCoins,
      d.IsAvailable n = (!(d.output n).IsNull && !(d.output n).IsZerocoinMint) := by
    intro d
    unfold IsAvailable output slot
    rw [getD_eq_getElem?_getD]
    cases d.vout[n]? with
    | none => rfl
    | some txout => rfl
  rw [hsplit, hsplit, stored_output, isNull_storedOutput]
  cases h : (c.output n).IsNull with
  | true => rfl
  | false =>
    rw [storedOutput_of_held h]
    unfold CTxOut.IsZerocoinMint
    rfl

theorem stored_eq_iff (hlive : c.IsPruned = false) :
    Same c.stored c ↔ c.Tidy ∧ c.AmountsKept := by
  constructor
  · intro hsame
    have heq : c.stored = c := by
      rcases hsame with ⟨-, hpruned⟩ | heq
      · rw [hlive] at hpruned
        cases hpruned
      · exact heq
    refine ⟨heq ▸ stored_tidy c, ?_⟩
    intro txout hmem hheld
    obtain ⟨n, hn⟩ := mem_iff_getElem?.mp hmem
    have hout := stored_output c n
    rw [heq, output_eq_getElem hn] at hout
    rw [storedOutput_of_held hheld] at hout
    exact (congrArg CTxOut.nValue hout).symm
  · rintro ⟨htidy, hkept⟩
    refine .inr (Tidy.ext (stored_tidy c) htidy rfl rfl rfl rfl ?_)
    intro n
    rw [stored_output]
    cases hnull : (c.output n).IsNull with
    | true =>
      rw [(htidy.isNull_output n).mp hnull]
      rfl
    | false =>
      have hmem : c.output n ∈ c.vout := by
        unfold output slot at hnull ⊢
        rw [getD_eq_getElem?_getD] at hnull ⊢
        cases hn : c.vout[n]? with
        | none =>
          rw [hn] at hnull
          cases hnull
        | some txout => exact mem_of_getElem? hn
      rw [storedOutput_of_held hnull, hkept _ hmem hnull]

/-- **What a record is after a round trip**: its flags, version and height, the same outputs
available, and the same record exactly if it was tidy and its amounts survive.  The header code
is an `unsigned int` of sixteen times the mask bytes, which bounds the number of outputs. -/
theorem record_comes_back (K : CurvePoints) (c : CCoins) (hlive : c.IsPruned = false)
    (hversion : 0 ≤ c.nVersion) (hheight : 0 ≤ c.nHeight) (hlen : c.vout.length + 5 < 2 ^ 31) :
    ∃ back, Reads (Unserialize K) (c.Serialize K) back ∧
      (back.fCoinBase = c.fCoinBase ∧ back.fCoinStake = c.fCoinStake ∧
        back.nHeight = c.nHeight ∧ back.nVersion = c.nVersion) ∧
      (∀ n, back.unspent n = c.unspent n ∧ back.IsAvailable n = c.IsAvailable n) ∧
      (Same back c ↔ c.Tidy ∧ c.AmountsKept) ∧
      ((∀ txout ∈ c.vout, txout.IsNull = false → 0 ≤ txout.nValue ∧ txout.nValue ≤ 10 ^ 17) →
        c.AmountsKept) := by
  refine ⟨c.stored, reads_coins hlive hversion hheight hlen, ⟨rfl, rfl, rfl, rfl⟩, ?_,
    stored_eq_iff hlive, ?_⟩
  · intro n
    exact ⟨stored_unspent c n, stored_IsAvailable c n⟩
  · intro hrange txout hmem hheld
    obtain ⟨hlo, hhi⟩ := hrange txout hmem hheld
    exact storedValue_of_range hlo hhi

/-- A curve on which no key is valid. -/
def noKeys : CurvePoints where
  IsFullyValid _ := false
  Decompress _ := none
  decompress_compress _ _ _ _ h := nomatch h

/-- Eleven outputs, all but the first and the last spent. -/
def sparse : CCoins :=
  ⟨true, false, ⟨5000, [OP_RETURN]⟩ :: List.replicate 9 .null ++ [⟨7 * 10 ^ 8, []⟩], 120, 1⟩

theorem sparse_comes_back :
    ∃ back, Reads (Unserialize noKeys) (sparse.Serialize noKeys) back ∧
      (back.fCoinBase = true ∧ back.fCoinStake = false ∧ back.nHeight = 120 ∧ back.nVersion = 1) ∧
      (∀ n, back.unspent n = sparse.unspent n ∧ back.IsAvailable n = sparse.IsAvailable n) ∧
      (Same back sparse ↔ sparse.Tidy ∧ sparse.AmountsKept) ∧
      ((∀ txout ∈ sparse.vout, txout.IsNull = false →
        0 ≤ txout.nValue ∧ txout.nValue ≤ 10 ^ 17) → sparse.AmountsKept) :=
  record_comes_back noKeys sparse rfl (by decide) (by decide) (by decide)

/-- A spent output at the end. -/
def spentAtEnd : CCoins := ⟨false, false, [⟨5000, []⟩, .null], 120, 1⟩

/-- An amount above every range. -/
def tooMuch : CCoins := ⟨false, false, [⟨2 ^ 63 - 1, []⟩], 120, 1⟩

/-- These records come back as others. -/
theorem not_every_record_comes_back :
    (¬ ∃ back, Reads (Unserialize noKeys) (spentAtEnd.Serialize noKeys) back ∧
      Same back spentAtEnd) ∧
    (tooMuch.Tidy ∧ ¬ ∃ back, Reads (Unserialize noKeys) (tooMuch.Serialize noKeys) back ∧
      Same back tooMuch) := by
  have hwhat : ∀ c : CCoins, Reads (Unserialize noKeys) (c.Serialize noKeys) c.stored →
      ¬ Same c.stored c →
      ¬ ∃ back, Reads (Unserialize noKeys) (c.Serialize noKeys) back ∧ Same back c := by
    rintro c hstored hdiffer ⟨back, hback, hsame⟩
    have heq := (hback []).symm.trans (hstored [])
    obtain rfl : back = c.stored := (Prod.mk.inj (Option.some.inj heq)).1
    exact hdiffer hsame
  refine ⟨?_, ⟨rfl, ?_⟩, ?_⟩
  · refine hwhat spentAtEnd (reads_coins rfl (by decide) (by decide) (by decide)) ?_
    intro hsame
    have htidy := ((stored_eq_iff rfl).mp hsame).1
    have hlast := htidy.trimmed.last (cons_ne_nil _ _)
    cases hlast
  · intro txout hmem hnull
    obtain rfl := mem_singleton.mp hmem
    cases hnull
  · refine hwhat tooMuch (reads_coins rfl (by decide) (by decide) (by decide)) ?_
    intro hsame
    have hkept := ((stored_eq_iff rfl).mp hsame).2 _ mem_cons_self rfl
    unfold storedValue at hkept
    exact absurd hkept (by decide)

theorem maxMoney_le {P : CChainParams} (hP : P ∈ [mainParams, testNetParams, regTestParams]) :
    P.nMaxMoneyOut ≤ 10 ^ 17 := by
  revert hP P
  decide

/-- **An output comes back from its compressed form**: its amount, its script, and with a script
of a special form the bytes that `Decompress` makes it of. -/
theorem compressed_comes_back (K : CurvePoints) {P : CChainParams}
    (hP : P ∈ [mainParams, testNetParams, regTestParams]) (txout : CTxOut)
    (hrange : MoneyRange P txout.nValue = true) :
    Reads (readCompressed K) (serCompressed K txout) txout ∧
      DecompressAmount (CompressAmount txout.nValue.toNat) = txout.nValue.toNat ∧
      Reads (readScript K) (serScript K txout.scriptPubKey) txout.scriptPubKey ∧
      ∀ form, specialForm K txout.scriptPubKey = some form →
        ∃ b vch, form.compressed = b :: vch ∧ b.toNat < nSpecialScripts ∧
          GetSpecialSize b.toNat = vch.length ∧
          DecompressScript K b.toNat vch = txout.scriptPubKey := by
  obtain ⟨hlo, hmax⟩ : 0 ≤ txout.nValue ∧ txout.nValue ≤ P.nMaxMoneyOut := by
    simpa [MoneyRange] using hrange
  have hhi : txout.nValue ≤ 10 ^ 17 := hmax.trans (maxMoney_le hP)
  refine ⟨reads_compressed hlo hhi,
    (DecompressAmount_CompressAmount (Int.toNat_le.mpr hhi)).2, reads_script txout.scriptPubKey, ?_⟩
  intro form hform
  obtain ⟨hscript, hwf⟩ := specialForm_sound hform
  rw [← hscript]
  exact DecompressScript_compressed hwf

/-- Sixty coins to a key hash. -/
def toKeyHash : CTxOut := ⟨60 * COIN,
  [OP_DUP, OP_HASH160, 20] ++ List.replicate 20 0xAB ++ [OP_EQUALVERIFY, OP_CHECKSIG]⟩

theorem toKeyHash_comes_back :
    Reads (readCompressed noKeys) (serCompressed noKeys toKeyHash) toKeyHash ∧
      DecompressAmount (CompressAmount (60 * COIN).toNat) = (60 * COIN).toNat ∧
      Reads (readScript noKeys) (serScript noKeys toKeyHash.scriptPubKey) toKeyHash.scriptPubKey ∧
      ∀ form, specialForm noKeys toKeyHash.scriptPubKey = some form →
        ∃ b vch, form.compressed = b :: vch ∧ b.toNat < nSpecialScripts ∧
          GetSpecialSize b.toNat = vch.length ∧
          DecompressScript noKeys b.toNat vch = toKeyHash.scriptPubKey :=
  compressed_comes_back noKeys (P := mainParams) mem_cons_self toKeyHash (by decide)

end Divitae.CCoins
