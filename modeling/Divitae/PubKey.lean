/-
# `PubKey` — public keys and signed messages

`CPubKey` keeps a fixed array whose meaningful length is read off its first byte
(`GetLen`); the structure below keeps the first byte and the bytes that count, so
that `operator==` of the source is equality here.

Elliptic curves and hash functions are code outside the program.  They are one
parameter, `Crypto`; what a result assumes of them is a named hypothesis on it.
What the program does with them — the magic prefix, recovery of the key from the
compact signature, comparison of key *IDs* — is translated:

    VerifyMessage K sig s   ⟺   the key recovered from (hash of magic ++ s, sig) has K's ID
-/
import Divitae.Serialize

namespace Divitae

/-- `CPubKey::GetLen`: the length announced by the first byte. -/
def GetLen (chHeader : UInt8) : Nat :=
  if chHeader = 2 ∨ chHeader = 3 then 33
  else if chHeader = 4 ∨ chHeader = 6 ∨ chHeader = 7 then 65
  else 0

/-- `CPubKey`: the header byte and the announced bytes after it. -/
structure CPubKey where
  header : UInt8
  rest : List UInt8
  wf : rest.length = GetLen header - 1
  deriving DecidableEq

namespace CPubKey

def size (k : CPubKey) : Nat := GetLen k.header

/-- `begin()` to `end()`. -/
def bytes (k : CPubKey) : List UInt8 := if k.size = 0 then [] else k.header :: k.rest

/-- `Invalidate()`. -/
def invalid : CPubKey := ⟨0xFF, [], by decide⟩

/-- `Set(pbegin, pend)`. -/
def ofBytes : List UInt8 → CPubKey
  | [] => invalid
  | c :: cs => if h : cs.length = GetLen c - 1 ∧ GetLen c ≠ 0 then ⟨c, cs, h.1⟩ else invalid

def IsValid (k : CPubKey) : Bool := 0 < k.size

theorem length_bytes (k : CPubKey) : k.bytes.length = k.size := by
  unfold bytes
  split
  · next h => simp [h]
  · next h =>
      have hwf := k.wf
      unfold size at h ⊢
      simp only [List.length_cons, hwf]
      omega

theorem bytes_inj {k k' : CPubKey} (hk : k.size ≠ 0) (h : k.bytes = k'.bytes) : k = k' := by
  have hk' : k'.size ≠ 0 := by
    rw [← length_bytes k', ← h, length_bytes]; exact hk
  simp only [bytes, if_neg hk, if_neg hk', List.cons.injEq] at h
  cases k; cases k'
  simp only [mk.injEq]
  exact h

end CPubKey

/-- A private key, as its 32 secret bytes. -/
abbrev CKey := List UInt8

/-- The cryptographic code the program calls. -/
structure Crypto where
  /-- double SHA-256 -/
  hash256 : List UInt8 → uint256
  /-- RIPEMD-160 of SHA-256 -/
  hash160 : List UInt8 → uint160
  /-- `CKey::GetPubKey` -/
  getPubKey : CKey → CPubKey
  /-- `CKey::SignCompact` -/
  signCompact : CKey → uint256 → Option (List UInt8)
  /-- `CPubKey::RecoverCompact` -/
  recoverCompact : uint256 → List UInt8 → Option CPubKey

/-- `strMessageMagic`: `DarkNet Signed Message:` and a newline. -/
def strMessageMagic : List UInt8 :=
  [68, 97, 114, 107, 78, 101, 116, 32, 83, 105, 103, 110, 101, 100, 32,
    77, 101, 115, 115, 97, 103, 101, 58, 10]

namespace Crypto

variable (C : Crypto)

/-- `CPubKey::GetID`. -/
def GetID (k : CPubKey) : uint160 := C.hash160 k.bytes

/-- The hash `SignMessage` signs and `VerifyMessage` checks. -/
def messageHash (strMessage : List UInt8) : uint256 :=
  C.hash256 (serString strMessageMagic ++ serString strMessage)

/-- `CObfuScationSigner::SignMessage`. -/
def SignMessage (strMessage : List UInt8) (key : CKey) : Option (List UInt8) :=
  C.signCompact key (C.messageHash strMessage)

/-- `CObfuScationSigner::VerifyMessage`. -/
def VerifyMessage (pubkey : CPubKey) (vchSig strMessage : List UInt8) : Bool :=
  match C.recoverCompact (C.messageHash strMessage) vchSig with
  | none => false -- Error recovering public key.
  | some pubkey2 => C.GetID pubkey2 == C.GetID pubkey

/-- A signer of the listed texts and of nothing else, under one public key: the
signature of a text is its number in the list.  Other byte strings hash to numbers
behind the list's, told apart by their first sixteen bytes. -/
def onTexts (pub : CPubKey) (texts : List (List UInt8)) : Crypto where
  hash256 bs :=
    let i := (texts.map fun t => serString strMessageMagic ++ serString t).findIdx (· == bs)
    BitVec.ofNat 256 (if i < texts.length then i
      else texts.length + bs.foldr (fun b acc => b.toNat + 256 * acc) 0 % 2 ^ 128)
  hash160 bs := BitVec.ofNat 160 (bs.foldl (fun a b => 256 * a + b.toNat) 0)
  getPubKey _ := pub
  signCompact _ h := if h.toNat < texts.length then some [UInt8.ofNat h.toNat] else none
  recoverCompact h vchSig :=
    if h.toNat < texts.length ∧ vchSig = [UInt8.ofNat h.toNat] then some pub else none

theorem onTexts_verify {pub k : CPubKey} {texts : List (List UInt8)} {vchSig s : List UInt8}
    (hlen : texts.length < 2 ^ 128) (h : (onTexts pub texts).VerifyMessage k vchSig s = true) :
    s ∈ texts := by
  let whole := fun t => serString strMessageMagic ++ serString t
  have hidx : (texts.map whole).findIdx (· == whole s) < texts.length := by
    by_contra hge
    have hnum : texts.length ≤ ((onTexts pub texts).messageHash s).toNat := by
      simp only [messageHash, onTexts, BitVec.toNat_ofNat]
      rw [if_neg hge, Nat.mod_eq_of_lt]
      · exact Nat.le_add_right _ _
      · have hmod : ∀ n : Nat, n % 2 ^ 128 < 2 ^ 128 := fun n => Nat.mod_lt _ (by omega)
        have := hmod ((whole s).foldr (fun b acc => b.toNat + 256 * acc) 0)
        omega
    have hnone : (onTexts pub texts).recoverCompact ((onTexts pub texts).messageHash s) vchSig
        = none := by
      simp only [onTexts] at hnum ⊢
      rw [if_neg]
      rintro ⟨hlt, _⟩
      omega
    rw [VerifyMessage, hnone] at h
    exact Bool.false_ne_true h
  obtain ⟨t, ht, heq⟩ : ∃ t ∈ texts, whole t = whole s := by simpa using hidx
  exact serString_inj (List.append_cancel_left heq) ▸ ht

end Crypto

end Divitae
