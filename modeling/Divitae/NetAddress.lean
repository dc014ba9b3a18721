/-
# `NetAddress` — network addresses and their text

`CNetAddr` is sixteen bytes; which kind of address they are is read off their
prefix.  The text of an address is asked of the system (`getnameinfo`, a parameter)
and written by the program when the system has none; the text of a service puts the
port behind a colon, and brackets around an address that may itself contain colons.
-/
import Divitae.Serialize

namespace Divitae

open List

structure CNetAddr where
  ip : List UInt8
  wf : ip.length = 16
  deriving DecidableEq

namespace CNetAddr

def pchIPv4 : List UInt8 := [0, 0, 0, 0, 0, 0, 0, 0, 0, 0, 0xff, 0xff]

theorem length_IPv4 : (pchIPv4 ++ [1, 2, 3, 4]).length = 16 := rfl

def pchOnionCat : List UInt8 := [0xFD, 0x87, 0xD8, 0x7E, 0xEB, 0x43]

variable (a : CNetAddr)

def IsIPv4 : Bool := a.ip.take 12 == pchIPv4

def IsTor : Bool := a.ip.take 6 == pchOnionCat

/-- `ip[15 - n]`. -/
def GetByte (n : Nat) : Nat := (a.ip.getD (15 - n) 0).toNat

end CNetAddr

/-- `pbase32`: `a`..`z`, then `2`..`7`. -/
def base32Digit (d : Nat) : UInt8 := if d < 26 then UInt8.ofNat (97 + d) else UInt8.ofNat (24 + d)

/-- `EncodeBase32` of ten bytes: eighty bits are sixteen digits, and no padding. -/
def EncodeBase32 (pch : List UInt8) : List UInt8 :=
  let enc := pch.foldl (fun acc b => 256 * acc + b.toNat) 0
  (List.range 16).map fun i => base32Digit (enc / 32 ^ (15 - i) % 32)

/-- `%x`. -/
def hexText (n : Nat) : List UInt8 := if n = 0 then [48] else (Nat.digits 16 n).reverse.map hexDigit

def joinWith (sep : UInt8) : List (List UInt8) → List UInt8
  | [] => []
  | [s] => s
  | s :: t :: l => s ++ sep :: joinWith sep (t :: l)

/-- The text `ToStringIP` writes itself: `%u.%u.%u.%u`, or eight `%x` with colons. -/
def CNetAddr.plainText (a : CNetAddr) : List UInt8 :=
  if a.IsIPv4 then joinWith 46 ([3, 2, 1, 0].map fun i => Decimal.ofNat (a.GetByte i))
  else
    joinWith 58 ([15, 13, 11, 9, 7, 5, 3, 1].map fun i =>
      hexText (a.GetByte i * 256 + a.GetByte (i - 1)))

section
variable (getnameinfo : CNetAddr → Option (List UInt8))

/-- `CNetAddr::ToStringIP`. -/
def ToStringIP (a : CNetAddr) : List UInt8 :=
  if a.IsTor then EncodeBase32 (a.ip.drop 6) ++ [46, 111, 110, 105, 111, 110] -- ".onion"
  else
    match getnameinfo a with
    | some name => name
    | none => a.plainText

structure CService where
  addr : CNetAddr
  port : Nat
  deriving DecidableEq

/-- What `ToStringIPPort` writes in front of the colon. -/
def CService.hostText (s : CService) : List UInt8 :=
  if s.addr.IsIPv4 || s.addr.IsTor then ToStringIP getnameinfo s.addr
  else [91] ++ ToStringIP getnameinfo s.addr ++ [93]

def CService.ToString (s : CService) : List UInt8 :=
  s.hostText getnameinfo ++ 58 :: Decimal.ofNat s.port

end

/-! ## The text is printable -/

/-- The letters above the control characters. -/
def Printable (c : UInt8) : Prop := 32 ≤ c.toNat

theorem printable_base32Digit {d : Nat} (hd : d < 32) : Printable (base32Digit d) := by
  unfold Printable base32Digit
  split_ifs <;> simp only [UInt8.toNat_ofNat'] <;> omega

theorem printable_hexDigit {d : Nat} (hd : d < 16) : Printable (hexDigit d) := by
  unfold Printable hexDigit
  split_ifs <;> simp only [UInt8.toNat_ofNat'] <;> omega

variable {c : UInt8}

theorem printable_hexText {n : Nat} (h : c ∈ hexText n) : Printable c := by
  unfold hexText at h
  split_ifs at h
  · rw [mem_singleton.mp h]
    unfold Printable
    decide
  · obtain ⟨d, hd, rfl⟩ := mem_map.mp h
    exact printable_hexDigit (Nat.digits_lt_base (by omega) (mem_reverse.mp hd))

theorem printable_ofNat {n : Nat} (h : c ∈ Decimal.ofNat n) : Printable c := by
  have := Decimal.mem_ofNat_range h
  unfold Printable
  omega

theorem printable_ofInt {z : Int} (h : c ∈ Decimal.ofInt z) : Printable c := by
  have := Decimal.mem_ofInt_range h
  unfold Printable
  omega

theorem printable_GetHex {w : Nat} {n : BitVec w} (h : c ∈ GetHex n) :
    Printable c := by
  have := mem_GetHex_range h
  unfold Printable
  omega

theorem printable_joinWith {sep : UInt8} (hsep : Printable sep) : ∀ {l : List (List UInt8)},
    (∀ s ∈ l, ∀ b ∈ s, Printable b) → ∀ b ∈ joinWith sep l, Printable b
  | [], _, _, hb => nomatch hb
  | [s], hl, b, hb => hl s mem_cons_self b hb
  | s :: t :: l, hl, b, hb => by
    rcases mem_append.mp hb with hb | hb
    · exact hl s mem_cons_self b hb
    · rcases mem_cons.mp hb with rfl | hb
      · exact hsep
      · exact printable_joinWith hsep (fun u hu => hl u (mem_cons_of_mem s hu)) b hb

theorem printable_plainText {a : CNetAddr} (h : c ∈ a.plainText) : Printable c := by
  unfold CNetAddr.plainText at h
  split_ifs at h
  · refine printable_joinWith (by unfold Printable; decide) (fun s hs b hb => ?_) c h
    obtain ⟨i, _, rfl⟩ := mem_map.mp hs
    exact printable_ofNat hb
  · refine printable_joinWith (by unfold Printable; decide) (fun s hs b hb => ?_) c h
    obtain ⟨i, _, rfl⟩ := mem_map.mp hs
    exact printable_hexText hb

/-- The system names an address in printable letters, when it names it. -/
def PrintableNames (getnameinfo : CNetAddr → Option (List UInt8)) : Prop :=
  ∀ a name, getnameinfo a = some name → ∀ c ∈ name, Printable c

section
variable {getnameinfo : CNetAddr → Option (List UInt8)} (hname : PrintableNames getnameinfo)
include hname

theorem printable_ToStringIP {a : CNetAddr}
    (h : c ∈ ToStringIP getnameinfo a) : Printable c := by
  unfold ToStringIP at h
  split_ifs at h
  · rcases mem_append.mp h with h | h
    · obtain ⟨i, _, rfl⟩ := mem_map.mp h
      exact printable_base32Digit (Nat.mod_lt _ (by omega))
    · have hall : ∀ b ∈ ([46, 111, 110, 105, 111, 110] : List UInt8), 32 ≤ b.toNat := by
        decide +kernel
      exact hall c h
  · cases hn : getnameinfo a with
    | some name =>
      rw [hn] at h
      exact hname a name hn c h
    | none =>
      rw [hn] at h
      exact printable_plainText h

theorem printable_ToString {s : CService}
    (h : c ∈ s.ToString getnameinfo) : Printable c := by
  rcases mem_append.mp h with h | h
  · unfold CService.hostText at h
    split_ifs at h
    · exact printable_ToStringIP hname h
    · simp only [mem_append, mem_singleton] at h
      rcases h with (rfl | h) | rfl
      · unfold Printable; decide
      · exact printable_ToStringIP hname h
      · unfold Printable; decide
  · rcases mem_cons.mp h with rfl | h
    · unfold Printable; decide
    · exact printable_ofNat h

end

end Divitae
