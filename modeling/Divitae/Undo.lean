/-
# `Undo` — the undo file

`compressor.cpp`, `undo.h` and the vectors of `CBlockUndo`.  Outputs are written
compressed: an amount by its digits before the trailing zeros, a script of one of the
common forms by what distinguishes it.  The readers take `unsigned int` and `uint64_t`
as their residues.

    CompressAmount       inverse for every amount up to 10^17
    CScriptCompressor    inverse for every script
    CTxInUndo            an inverse only in part: the height loses its two top bits
                         and the sign of the version is dropped (`CTxInUndo.stored`)
-/
import Divitae.Coins
import Divitae.Lib.Codec

namespace Divitae

open Codec List Reads

/-! ## Sizes of vectors -/

/-- A fixed-width number, lowest byte first. -/
def readLE (k : Nat) : Reader Nat := bind (take k) fun bytes => pure (little bytes)

def MAX_SIZE : Nat := 0x02000000

def ReadCompactSize : Reader Nat :=
  bind byte fun chSize =>
  bind (if chSize.toNat < 253 then pure chSize.toNat
    else if chSize.toNat = 253 then
      bind (readLE 2) fun xSize => if xSize < 253 then fail else pure xSize
    else if chSize.toNat = 254 then
      bind (readLE 4) fun xSize => if xSize < 0x10000 then fail else pure xSize
    else bind (readLE 8) fun xSize => if xSize < 0x100000000 then fail else pure xSize)
    fun nSizeRet => if MAX_SIZE < nSizeRet then fail else pure nSizeRet

theorem little_leBytes : ∀ k n : Nat, little (leBytes k n) = n % 256 ^ k
  | 0, n => (Nat.mod_one n).symm
  | k + 1, n => by
    unfold leBytes little
    have hb : (UInt8.ofNat (n % 256)).toNat = n % 256 := by
      rw [UInt8.toNat_ofNat']
      omega
    rw [hb, little_leBytes k, Nat.pow_succ', Nat.mod_mul]

theorem reads_readLE {k n : Nat} (h : n < 256 ^ k) : Reads (readLE k) (leBytes k n) n := by
  have htake : Reads (take k) (leBytes k n) (leBytes k n) := by
    have := take (leBytes k n)
    rwa [leBytes_length] at this
  refine htake.map ?_
  rw [little_leBytes, Nat.mod_eq_of_lt h]
  exact pure n

theorem reads_compactSize {n : Nat} (h : n ≤ MAX_SIZE) :
    Reads ReadCompactSize (WriteCompactSize n) n := by
  have hn : n < 0x100000000 := Nat.lt_of_le_of_lt h (by decide)
  have hfinal : Reads (if MAX_SIZE < n then fail else pure n) [] n := by
    rw [if_neg (by omega)]
    exact pure n
  unfold WriteCompactSize
  rcases Nat.lt_or_ge n 253 with h1 | h1
  · rw [if_pos h1]
    have hb : (UInt8.ofNat n).toNat = n := by
      rw [UInt8.toNat_ofNat']
      omega
    refine (Reads.byte _).map ?_
    rw [hb, if_pos h1]
    exact (Reads.pure n).map hfinal
  · rw [if_neg (by omega)]
    rcases Nat.lt_or_ge 0xFFFF n with h2 | h2
    · rw [if_neg (by omega), if_pos (by omega)]
      refine (byte 254).bind ?_
      refine map ?_ hfinal
      exact (reads_readLE hn).map (by rw [if_neg (by omega)]; exact pure n)
    · rw [if_pos h2]
      refine (byte 253).bind ?_
      refine map ?_ hfinal
      exact (reads_readLE (k := 2) (by omega)).map (by rw [if_neg (by omega)]; exact pure n)

/-! ## Amounts -/

/-- Divide by ten as long as it goes, `k` times at most: quotient and exponent. -/
def stripZeros : Nat → Nat → Nat × Nat
  | 0, n => (n, 0)
  | k + 1, n =>
    if n % 10 = 0 then ((stripZeros k (n / 10)).1, (stripZeros k (n / 10)).2 + 1) else (n, 0)

/-- `CTxOutCompressor::CompressAmount`. -/
def CompressAmount (n : Nat) : Nat :=
  if n = 0 then 0
  else
    let (n, e) := stripZeros 9 n
    if e < 9 then (1 + (n / 10 * 9 + n % 10 - 1) * 10 + e) % 2 ^ 64
    else (1 + (n - 1) * 10 + 9) % 2 ^ 64

/-- `CTxOutCompressor::DecompressAmount`. -/
def DecompressAmount (x : Nat) : Nat :=
  if x = 0 then 0
  else
    let e := (x - 1) % 10
    let x := (x - 1) / 10
    let n := if e < 9 then x / 9 * 10 + (x % 9 + 1) else x + 1
    n * 10 ^ e % 2 ^ 64

theorem stripZeros_spec : ∀ k n : Nat, 0 < n →
    n = (stripZeros k n).1 * 10 ^ (stripZeros k n).2 ∧ 0 < (stripZeros k n).1 ∧
      (stripZeros k n).2 ≤ k ∧ ((stripZeros k n).2 < k → (stripZeros k n).1 % 10 ≠ 0)
  | 0, n, h => ⟨by simp [stripZeros], h, Nat.le_refl 0, fun hlt => absurd hlt (Nat.lt_irrefl 0)⟩
  | k + 1, n, h => by
    rcases Nat.eq_zero_or_pos (n % 10) with h0 | h0
    · have hpos : 0 < n / 10 := by omega
      obtain ⟨heq, hm, hle, hdigit⟩ := stripZeros_spec k (n / 10) hpos
      have hstep : stripZeros (k + 1) n =
          ((stripZeros k (n / 10)).1, (stripZeros k (n / 10)).2 + 1) := if_pos h0
      rw [hstep]
      refine ⟨?_, hm, by omega, fun hlt => hdigit (by omega)⟩
      have hn : n = n / 10 * 10 := by omega
      rw [Nat.pow_succ, ← Nat.mul_assoc, ← heq]
      exact hn
    · have hstep : stripZeros (k + 1) n = (n, 0) := if_neg (by omega)
      rw [hstep]
      exact ⟨by simp, h, Nat.zero_le _, fun _ => by omega⟩

theorem DecompressAmount_CompressAmount {n : Nat} (h : n ≤ 10 ^ 17) :
    CompressAmount n < 2 ^ 64 ∧ DecompressAmount (CompressAmount n) = n := by
  rcases Nat.eq_zero_or_pos n with rfl | hpos
  · exact ⟨by decide, rfl⟩
  obtain ⟨heq, hm, hle, hdigit⟩ := stripZeros_spec 9 n hpos
  unfold CompressAmount
  rw [if_neg (by omega)]
  rcases hs : stripZeros 9 n with ⟨m, e⟩
  rw [hs] at heq hm hle hdigit
  dsimp only at heq hm hle hdigit ⊢
  have hmn : m ≤ n := by
    rw [heq]
    exact Nat.le_mul_of_pos_right m (Nat.pow_pos (by omega))
  have hback : m * 10 ^ e % 2 ^ 64 = n := by
    rw [← heq]
    exact Nat.mod_eq_of_lt (by omega)
  rcases Nat.lt_or_ge e 9 with he | he
  · have hd := hdigit he
    rw [if_pos he, Nat.mod_eq_of_lt (by omega)]
    refine ⟨by omega, ?_⟩
    unfold DecompressAmount
    rw [if_neg (by omega)]
    have he' : (1 + (m / 10 * 9 + m % 10 - 1) * 10 + e - 1) % 10 = e := by omega
    have hx : (1 + (m / 10 * 9 + m % 10 - 1) * 10 + e - 1) / 10 = m / 10 * 9 + m % 10 - 1 := by
      omega
    have hm' : (m / 10 * 9 + m % 10 - 1) / 9 * 10 + ((m / 10 * 9 + m % 10 - 1) % 9 + 1) = m := by
      omega
    dsimp only
    rw [he', hx, if_pos he, hm', hback]
  · have he9 : e = 9 := by omega
    rw [if_neg (by omega), Nat.mod_eq_of_lt (by omega)]
    refine ⟨by omega, ?_⟩
    unfold DecompressAmount
    rw [if_neg (by omega)]
    have he' : (1 + (m - 1) * 10 + 9 - 1) % 10 = 9 := by omega
    have hx : (1 + (m - 1) * 10 + 9 - 1) / 10 = m - 1 := by omega
    have hm' : m - 1 + 1 = m := by omega
    dsimp only
    rw [he', hx, if_neg (by omega), hm', ← he9, hback]

/-! ## Scripts -/


/-- The points of the curve, as far as keys are compressed: a valid key in the long
form is found again from its first coordinate and the parity of the second. -/
structure CurvePoints where
  /-- `CPubKey::IsFullyValid` -/
  IsFullyValid : List UInt8 → Bool
  /-- `CPubKey::Decompress` -/
  Decompress : List UInt8 → Option (List UInt8)
  decompress_compress : ∀ x y : List UInt8, x.length = 32 → y.length = 32 →
    IsFullyValid (4 :: (x ++ y)) = true →
    Decompress ((if (y.getD 31 0).toNat % 2 = 0 then 2 else 3) :: x) = some (4 :: (x ++ y))

/-- The special forms, with the bytes that tell two scripts of one form apart. -/
inductive SpecialScript where
  | keyID (hash : List UInt8)
  | scriptID (hash : List UInt8)
  | pubKey (tag : UInt8) (x : List UInt8)
  | longKey (x y : List UInt8)

namespace SpecialScript

def script : SpecialScript → CScript
  | keyID h => [OP_DUP, OP_HASH160, 20] ++ h ++ [OP_EQUALVERIFY, OP_CHECKSIG]
  | scriptID h => [OP_HASH160, 20] ++ h ++ [OP_EQUAL]
  | pubKey tag x => [33, tag] ++ x ++ [OP_CHECKSIG]
  | longKey x y => [65, 4] ++ (x ++ y) ++ [OP_CHECKSIG]

/-- What `Compress` writes. -/
def compressed : SpecialScript → List UInt8
  | keyID h => 0 :: h
  | scriptID h => 1 :: h
  | pubKey tag x => tag :: x
  | longKey x y => (if (y.getD 31 0).toNat % 2 = 0 then 4 else 5) :: x

/-- The lengths and tags of the forms. -/
def WellFormed (K : CurvePoints) : SpecialScript → Prop
  | keyID h => h.length = 20
  | scriptID h => h.length = 20
  | pubKey tag x => (tag = 2 ∨ tag = 3) ∧ x.length = 32
  | longKey x y => x.length = 32 ∧ y.length = 32 ∧ K.IsFullyValid (4 :: (x ++ y)) = true

end SpecialScript

section
variable (K : CurvePoints)

/-- `IsToKeyID`, `IsToScriptID` and `IsToPubKey`, in this order. -/
def specialForm (script : CScript) : Option SpecialScript :=
  if script.length = 25 ∧ script.take 3 = [OP_DUP, OP_HASH160, 20] ∧
      script.drop 23 = [OP_EQUALVERIFY, OP_CHECKSIG] then
    some (.keyID ((script.drop 3).take 20))
  else if script.length = 23 ∧ script.take 2 = [OP_HASH160, 20] ∧ script.drop 22 = [OP_EQUAL] then
    some (.scriptID ((script.drop 2).take 20))
  else if script.length = 35 ∧ (script.take 2 = [33, 2] ∨ script.take 2 = [33, 3]) ∧
      script.drop 34 = [OP_CHECKSIG] then
    some (.pubKey (script.getD 1 0) ((script.drop 2).take 32))
  else if script.length = 67 ∧ script.take 2 = [65, 4] ∧ script.drop 66 = [OP_CHECKSIG] ∧
      K.IsFullyValid ((script.drop 1).take 65) = true then
    some (.longKey ((script.drop 2).take 32) ((script.drop 34).take 32))
  else none

def nSpecialScripts : Nat := 6

/-- `CScriptCompressor::Serialize`. -/
def serScript (script : CScript) : List UInt8 :=
  match specialForm K script with
  | some form => form.compressed
  | none => writeVar (script.length + nSpecialScripts) ++ script

def GetSpecialSize (nSize : Nat) : Nat := if nSize = 0 ∨ nSize = 1 then 20 else 32

/-- `Decompress`; a key that is on no curve leaves the script empty. -/
def DecompressScript (nSize : Nat) (vch : List UInt8) : CScript :=
  match nSize with
  | 0 => (SpecialScript.keyID vch).script
  | 1 => (SpecialScript.scriptID vch).script
  | 2 => (SpecialScript.pubKey 2 vch).script
  | 3 => (SpecialScript.pubKey 3 vch).script
  | n =>
    match K.Decompress (UInt8.ofNat (n - 2) :: vch) with
    | some pubkey => 65 :: (pubkey ++ [OP_CHECKSIG])
    | none => []

/-- `CScriptCompressor::Unserialize`. -/
def readScript : Reader CScript :=
  bind readVar fun nSize =>
    if nSize < nSpecialScripts then
      bind (take (GetSpecialSize nSize)) fun vch => pure (DecompressScript K nSize vch)
    else take (nSize - nSpecialScripts)

variable {K}

theorem cut_twice {l a c : List UInt8} {i k : Nat} (ha : l.take i = a) (hc : l.drop (i + k) = c) :
    l = a ++ (l.drop i).take k ++ c := by
  rw [← ha, ← hc, append_assoc, ← drop_drop, take_append_drop, take_append_drop]

variable {form : SpecialScript}

theorem specialForm_sound {script : CScript}
    (h : specialForm K script = some form) : form.script = script ∧ form.WellFormed K := by
  unfold specialForm at h
  split_ifs at h with h1 h2 h3 h4
  · cases h
    obtain ⟨hlen, hfront, hback⟩ := h1
    exact ⟨(cut_twice hfront hback).symm, by simp [SpecialScript.WellFormed, hlen]⟩
  · cases h
    obtain ⟨hlen, hfront, hback⟩ := h2
    exact ⟨(cut_twice hfront hback).symm, by simp [SpecialScript.WellFormed, hlen]⟩
  · cases h
    obtain ⟨hlen, hfront, hback⟩ := h3
    have htag : script.take 2 = [33, script.getD 1 0] ∧
        (script.getD 1 0 = 2 ∨ script.getD 1 0 = 3) := by
      match script, hlen, hfront with
      | a :: b :: _, _, hfront =>
        rcases hfront with hfront | hfront
        · obtain ⟨rfl, rfl⟩ : a = 33 ∧ b = 2 := by simpa using hfront
          exact ⟨rfl, .inl rfl⟩
        · obtain ⟨rfl, rfl⟩ : a = 33 ∧ b = 3 := by simpa using hfront
          exact ⟨rfl, .inr rfl⟩
    refine ⟨(cut_twice htag.1 hback).symm, htag.2, by simp [hlen]⟩
  · cases h
    obtain ⟨hlen, hfront, hback, hvalid⟩ := h4
    have hbody : (script.drop 2).take 64 =
        (script.drop 2).take 32 ++ (script.drop 34).take 32 := by
      rw [show (64 : Nat) = 32 + 32 from rfl, take_add, drop_drop]
    have hkey : (script.drop 1).take 65 = 4 :: (script.drop 2).take 64 := by
      match script, hlen, hfront with
      | _ :: b :: _, _, hfront =>
        have hb : b = 4 := by simpa using (cons.inj (cons.inj hfront).2).1
        simp [hb]
    refine ⟨?_, by simp [hlen], by simp [hlen], ?_⟩
    · show [65, 4] ++ ((script.drop 2).take 32 ++ (script.drop 34).take 32) ++
      [OP_CHECKSIG] = script
      rw [← hbody]
      exact (cut_twice hfront hback).symm
    · rw [← hbody, ← hkey]
      exact hvalid

theorem reads_tag {b : UInt8} (h : b.toNat < 128) : Reads readVar [b] b.toNat := by
  intro rest
  unfold readVar
  simp only [singleton_append, readVarFrom]
  rw [if_neg (by omega)]
  congr 2
  omega

theorem DecompressScript_compressed (hwf : form.WellFormed K) :
    ∃ b vch, form.compressed = b :: vch ∧ b.toNat < nSpecialScripts ∧
      GetSpecialSize b.toNat = vch.length ∧ DecompressScript K b.toNat vch = form.script := by
  cases form with
  | keyID hash => exact ⟨0, hash, rfl, by decide, hwf.symm, rfl⟩
  | scriptID hash => exact ⟨1, hash, rfl, by decide, hwf.symm, rfl⟩
  | pubKey tag x =>
    obtain ⟨rfl | rfl, hx⟩ := hwf
    · exact ⟨2, x, rfl, by decide, hx.symm, rfl⟩
    · exact ⟨3, x, rfl, by decide, hx.symm, rfl⟩
  | longKey x y =>
    obtain ⟨hx, hy, hvalid⟩ := hwf
    have hlaw := K.decompress_compress x y hx hy hvalid
    have hfound : ∀ {t : UInt8}, K.Decompress (t :: x) = some (4 :: (x ++ y)) →
        (match K.Decompress (t :: x) with
          | some pubkey => 65 :: (pubkey ++ [OP_CHECKSIG])
          | none => []) = (SpecialScript.longKey x y).script := by
      intro t ht
      rw [ht]
      rfl
    rw [SpecialScript.compressed]
    rcases Nat.mod_two_eq_zero_or_one (y.getD 31 0).toNat with hpar | hpar
    · rw [if_pos hpar] at hlaw ⊢
      exact ⟨4, x, rfl, by decide, hx.symm, hfound hlaw⟩
    · rw [if_neg (by omega)] at hlaw ⊢
      exact ⟨5, x, rfl, by decide, hx.symm, hfound hlaw⟩

theorem reads_special (hwf : form.WellFormed K) :
    Reads (readScript K) form.compressed form.script := by
  obtain ⟨b, vch, hform, hb, hsize, hback⟩ := DecompressScript_compressed hwf
  have htag : Reads readVar [b] b.toNat := reads_tag (Nat.lt_trans hb (by decide))
  rw [hform]
  refine htag.bind ?_
  rw [if_pos hb, hsize]
  refine (take vch).map ?_
  rw [hback]
  exact pure _

theorem reads_script (script : CScript) : Reads (readScript K) (serScript K script) script := by
  unfold serScript
  cases hform : specialForm K script with
  | some form =>
    obtain ⟨hscript, hwf⟩ := specialForm_sound hform
    have := reads_special hwf
    rwa [hscript] at this
  | none =>
    refine (var (script.length + nSpecialScripts)).bind ?_
    exact take script

end

/-! ## Outputs and undo records -/

section
variable (K : CurvePoints)

/-- `CTxOutCompressor`, writing. -/
def serCompressed (txout : CTxOut) : List UInt8 :=
  writeVar (CompressAmount (txout.nValue % 2 ^ 64).toNat) ++ serScript K txout.scriptPubKey

/-- `CTxOutCompressor`, reading. -/
def readCompressed : Reader CTxOut :=
  bind readVar fun nVal =>
  bind (readScript K) fun script => pure ⟨Wrap.wrap64 (DecompressAmount nVal), script⟩

/-- `VARINT` of a signed number: below 128 one digit is written, also of a negative one. -/
def serVersion (nVersion : Int) : List UInt8 :=
  if nVersion ≤ 127 then [UInt8.ofNat (nVersion % 128).toNat] else writeVar nVersion.toNat

/-- What is left of a version in the file. -/
def storedVersion (nVersion : Int) : Int := if nVersion ≤ 127 then nVersion % 128 else nVersion

/-- `CTxInUndo::Serialize`: height and flags in one `unsigned int`. -/
def CTxInUndo.ser (undo : CTxInUndo) : List UInt8 :=
  writeVar ((undo.nHeight * 4 + (if undo.fCoinBase then 2 else 0) +
      (if undo.fCoinStake then 1 else 0)) % 2 ^ 32).toNat ++
    (if undo.nHeight % 2 ^ 32 = 0 then [] else serVersion undo.nVersion) ++
    serCompressed K undo.txout

/-- `CTxInUndo::Unserialize`. -/
def readUndo : Reader CTxInUndo :=
  bind readVar fun nCode =>
  bind (if nCode / 4 = 0 then pure 0 else readVar) fun nVersion =>
  bind (readCompressed K) fun txout =>
    pure ⟨txout, nCode / 2 % 2 == 1, nCode % 2 == 1, (nCode / 4 : Nat), (nVersion : Nat)⟩

/-- `CTxUndo` and `CBlockUndo`: vectors behind their lengths. -/
def serBlockUndo (vtxundo : List (List CTxInUndo)) : List UInt8 :=
  WriteCompactSize vtxundo.length ++ (vtxundo.map fun vprevout =>
    WriteCompactSize vprevout.length ++ (vprevout.map (CTxInUndo.ser K)).flatten).flatten

def readBlockUndo : Reader (List (List CTxInUndo)) :=
  bind ReadCompactSize (many (bind ReadCompactSize (many (readUndo K))))

variable {K}

/-- What comes back of an undo record: an output that is not the last one has no
height, and then no version either. -/
def CTxInUndo.stored (undo : CTxInUndo) : CTxInUndo :=
  { undo with nVersion := if undo.nHeight = 0 then 0 else storedVersion undo.nVersion }

/-- Heights below 2^30 leave room for the flags, amounts are in range. -/
structure CTxInUndo.Fits (undo : CTxInUndo) : Prop where
  height_nonneg : 0 ≤ undo.nHeight
  height_lt : undo.nHeight < 2 ^ 30
  value_nonneg : 0 ≤ undo.txout.nValue
  value_le : undo.txout.nValue ≤ 10 ^ 17

theorem amount_back {v : Int} (hlo : 0 ≤ v) (hhi : v ≤ 10 ^ 17) :
    Wrap.wrap64 (DecompressAmount (CompressAmount (v % 2 ^ 64).toNat)) = v := by
  obtain ⟨_, hback⟩ := DecompressAmount_CompressAmount (n := (v % 2 ^ 64).toNat) (by omega)
  rw [hback, Int.toNat_of_nonneg (by omega), Int.emod_eq_of_lt hlo (by omega)]
  exact Wrap.wrap64_of_fits ⟨by omega, by omega⟩

theorem reads_compressed {txout : CTxOut} (hlo : 0 ≤ txout.nValue) (hhi : txout.nValue ≤ 10 ^ 17) :
    Reads (readCompressed K) (serCompressed K txout) txout := by
  refine (var _).bind ((reads_script txout.scriptPubKey).map ?_)
  rw [amount_back hlo hhi]
  exact pure _

theorem reads_version (nVersion : Int) :
    ∃ n : Nat, Reads readVar (serVersion nVersion) n ∧ (n : Int) = storedVersion nVersion := by
  unfold serVersion storedVersion
  rcases Int.lt_or_le 127 nVersion with h | h
  · rw [if_neg (by omega), if_neg (by omega)]
    exact ⟨_, var _, Int.toNat_of_nonneg (by omega)⟩
  · rw [if_pos h, if_pos h]
    have hb : (UInt8.ofNat (nVersion % 128).toNat).toNat = (nVersion % 128).toNat := by
      rw [UInt8.toNat_ofNat']
      omega
    refine ⟨_, ?_, Int.toNat_of_nonneg (by omega)⟩
    have := reads_tag (b := UInt8.ofNat (nVersion % 128).toNat) (by omega)
    rwa [hb] at this

theorem reads_undo {undo : CTxInUndo} (h : undo.Fits) :
    Reads (readUndo K) (undo.ser K) undo.stored := by
  obtain ⟨hlo, hhi, hvlo, hvhi⟩ := h
  obtain ⟨n, hn, hnv⟩ := reads_version undo.nVersion
  have hcode : ∃ nCode : Nat, ((undo.nHeight * 4 + (if undo.fCoinBase then 2 else 0) +
      (if undo.fCoinStake then 1 else 0)) % 2 ^ 32).toNat = nCode ∧
      ((nCode / 4 : Nat) : Int) = undo.nHeight ∧ (nCode / 2 % 2 == 1) = undo.fCoinBase ∧
      (nCode % 2 == 1) = undo.fCoinStake := by
    refine ⟨_, rfl, ?_, ?_, ?_⟩
    · cases undo.fCoinBase <;> cases undo.fCoinStake <;> simp <;> omega
    · cases undo.fCoinBase <;> cases undo.fCoinStake <;> simp <;> omega
    · cases undo.fCoinBase <;> cases undo.fCoinStake <;> simp <;> omega
  obtain ⟨nCode, hcode, hheight, hbase, hstake⟩ := hcode
  unfold CTxInUndo.ser CTxInUndo.stored
  rw [hcode, append_assoc]
  refine (var nCode).bind ?_
  have hfinish : ∀ v : Nat,
    (v : Int) = (if undo.nHeight = 0 then 0 else storedVersion undo.nVersion) →
      Reads (bind (readCompressed K) fun txout =>
        pure (⟨txout, nCode / 2 % 2 == 1, nCode % 2 == 1, (nCode / 4 : Nat),
          (v : Nat)⟩ : CTxInUndo))
        (serCompressed K undo.txout)
        { undo with nVersion := if undo.nHeight = 0 then 0 else storedVersion undo.nVersion } := by
    intro v hv
    refine (reads_compressed hvlo hvhi).map ?_
    rw [hheight, hbase, hstake, hv]
    exact pure _
  rcases Int.lt_or_le 0 undo.nHeight with hpos | hzero
  · rw [if_neg (by omega), if_neg (by omega)]
    refine hn.bind ?_
    exact hfinish n (by rw [if_neg (by omega)]; exact hnv)
  · rw [if_pos (by omega), if_pos (by omega)]
    refine (Reads.pure 0).bind ?_
    exact hfinish 0 (by rw [if_pos (by omega)]; rfl)

theorem reads_blockUndo {vtxundo : List (List CTxInUndo)} (hlen : vtxundo.length ≤ MAX_SIZE)
    (h : ∀ vprevout ∈ vtxundo, vprevout.length ≤ MAX_SIZE ∧ ∀ undo ∈ vprevout, undo.Fits) :
    Reads (readBlockUndo K) (serBlockUndo K vtxundo) (vtxundo.map (List.map CTxInUndo.stored)) := by
  refine (reads_compactSize hlen).bind (many fun vprevout hmem => ?_)
  obtain ⟨hsize, hfits⟩ := h vprevout hmem
  exact (reads_compactSize hsize).bind (many fun undo hundo => reads_undo (hfits undo hundo))

end

end Divitae
