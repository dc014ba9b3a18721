/-
# `Serialize` — bytes written for hashing and texts written for signing

What the program hashes is a serialization: integers lowest byte first, byte
vectors behind their length.  What it signs is a text: decimal numbers, and hashes
as hex digits, highest first.  Both are lists of bytes here.
-/
import Divitae.Lib.Decimal
import Divitae.ChainParams

namespace Divitae

abbrev uint160 := BitVec 160
abbrev uint256 := BitVec 256

instance : LawfulBEq uint256 := inferInstance

/-! ## Serialization -/

/-- The `k` low bytes of `n`, lowest first. -/
def leBytes : Nat → Nat → List UInt8
  | 0, _ => []
  | k + 1, n => UInt8.ofNat (n % 256) :: leBytes k (n / 256)

/-- A signed integer of `k` bytes, in two's complement. -/
def leInt (k : Nat) (z : Int) : List UInt8 := leBytes k (z % 2 ^ (8 * k)).toNat

def WriteCompactSize (n : Nat) : List UInt8 :=
  if n < 253 then [UInt8.ofNat n]
  else if n ≤ 0xFFFF then 253 :: leBytes 2 n
  else if n ≤ 0xFFFFFFFF then 254 :: leBytes 4 n
  else 255 :: leBytes 8 n

/-- A string or byte vector: its length, then its bytes. -/
def serString (s : List UInt8) : List UInt8 := WriteCompactSize s.length ++ s

@[simp] theorem leBytes_length : ∀ k n : Nat, (leBytes k n).length = k
  | 0, _ => rfl
  | k + 1, n => congrArg (· + 1) (leBytes_length k (n / 256))

theorem serString_inj {s t : List UInt8} (h : serString s = serString t) : s = t := by
  have hsize : ∀ n, (WriteCompactSize n).length =
      if n < 253 then 1 else if n ≤ 0xFFFF then 3 else if n ≤ 0xFFFFFFFF then 5 else 9 := by
    intro n
    unfold WriteCompactSize
    split_ifs <;> simp
  have htotal := congrArg List.length h
  simp only [serString, List.length_append, hsize] at htotal
  have hlen : s.length = t.length := by split_ifs at htotal <;> omega
  simp only [serString, hlen] at h
  exact List.append_cancel_left h

def hexDigit (d : Nat) : UInt8 := if d < 10 then UInt8.ofNat (48 + d) else UInt8.ofNat (87 + d)

/-- `base_uint::GetHex`, all digits, highest first. -/
def GetHex {w : Nat} (n : BitVec w) : List UInt8 :=
  (List.range (w / 4)).map fun i => hexDigit (n.toNat / 16 ^ (w / 4 - 1 - i) % 16)

theorem mem_GetHex_range {w : Nat} {n : BitVec w} {c : UInt8} (h : c ∈ GetHex n) :
    48 ≤ c.toNat ∧ c.toNat ≤ 102 := by
  obtain ⟨i, _, rfl⟩ := List.mem_map.mp h
  have hd : n.toNat / 16 ^ (w / 4 - 1 - i) % 16 < 16 := Nat.mod_lt _ (by omega)
  unfold hexDigit
  split_ifs <;> simp only [UInt8.toNat_ofNat'] <;> omega

end Divitae
