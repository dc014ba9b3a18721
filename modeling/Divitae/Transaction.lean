/-
# `Transaction` — outpoints, inputs, outputs, transactions

`primitives/transaction.h` and the script tests its methods use.  A transaction
carries its hash as a field, as the source's does (`GetHash()` returns the cached
`hash`): a result that needs distinct transactions to have distinct hashes says so.
Two fields of the source are left out because nothing modelled reads them:
`CTxIn::prevPubKey` and `CTxOut::nRounds`.
-/
import Divitae.Lib.Wrap
import Divitae.PubKey

namespace Divitae

/-! ## Scripts -/

abbrev CScript := List UInt8

def OP_RETURN : UInt8 := 0x6a
def OP_DUP : UInt8 := 0x76
def OP_EQUAL : UInt8 := 0x87
def OP_EQUALVERIFY : UInt8 := 0x88
def OP_HASH160 : UInt8 := 0xa9
def OP_CHECKSIG : UInt8 := 0xac
def OP_ZEROCOINMINT : UInt8 := 0xc1
def OP_ZEROCOINSPEND : UInt8 := 0xc2

namespace CScript

def IsZerocoinMint (script : CScript) : Bool := script.head? == some OP_ZEROCOINMINT

def IsZerocoinSpend (script : CScript) : Bool := script.head? == some OP_ZEROCOINSPEND

def IsUnspendable (script : CScript) : Bool := script.head? == some OP_RETURN

end CScript

/-- `GetScriptForDestination` of a `CKeyID`: pay to the hash of a public key. -/
def GetScriptForDestination (keyID : uint160) : CScript :=
  [OP_DUP, OP_HASH160, 20] ++ leBytes 20 keyID.toNat ++ [OP_EQUALVERIFY, OP_CHECKSIG]

/-! ## Inputs and outputs -/

structure COutPoint where
  hash : uint256
  n : Nat
  deriving DecidableEq

namespace COutPoint

def SetNull : COutPoint := ⟨0, 0xFFFFFFFF⟩

def IsNull (o : COutPoint) : Bool := o.hash == 0 && o.n == 0xFFFFFFFF

end COutPoint

structure CTxIn where
  prevout : COutPoint
  scriptSig : CScript
  nSequence : Nat
  deriving DecidableEq

/-- `CTxIn()`. -/
def CTxIn.null : CTxIn := ⟨.SetNull, [], 0xFFFFFFFF⟩

structure CTxOut where
  nValue : CAmount
  scriptPubKey : CScript
  deriving DecidableEq

namespace CTxOut

/-- `SetNull()`. -/
def null : CTxOut := ⟨-1, []⟩

/-- `SetEmpty()`. -/
def empty : CTxOut := ⟨0, []⟩

def IsNull (o : CTxOut) : Bool := o.nValue == -1

def IsEmpty (o : CTxOut) : Bool := o.nValue == 0 && o.scriptPubKey.isEmpty

def IsZerocoinMint (o : CTxOut) : Bool := o.scriptPubKey.IsZerocoinMint

end CTxOut

/-! ## Transactions -/

structure CTransaction where
  hash : uint256
  nVersion : Int
  vin : List CTxIn
  vout : List CTxOut
  nLockTime : Nat
  deriving DecidableEq

namespace CTransaction

variable (tx : CTransaction)

/-- Only the first input is looked at. -/
def IsZerocoinSpend : Bool :=
  match tx.vin with
  | [] => false
  | txin :: _ => txin.prevout.hash == 0 && txin.scriptSig.IsZerocoinSpend

def IsZerocoinMint : Bool := tx.vout.any CTxOut.IsZerocoinMint

def ContainsZerocoins : Bool := tx.IsZerocoinSpend || tx.IsZerocoinMint

def IsCoinBase : Bool :=
  match tx.vin with
  | [txin] => txin.prevout.IsNull && !tx.ContainsZerocoins
  | _ => false

/-- The coin stake transaction is marked with the first output empty. -/
def IsCoinStake : Bool :=
  match tx.vin, tx.vout with
  | txin :: _, txout :: _ :: _ =>
    !(txin.prevout.IsNull && !txin.scriptSig.IsZerocoinSpend) && txout.IsEmpty
  | _, _ => false

/-- `GetValueOut()`.  The source throws on a negative value or a wrap of the 64-bit
sum; both are excluded by `CheckTransaction` wherever the model calls it. -/
def GetValueOut : CAmount := (tx.vout.map CTxOut.nValue).sum

/-- Sum of the denominations of the spends: a spend carries its denomination in
`nSequence`.  The 64-bit accumulator is not range checked here. -/
def GetZerocoinSpent : CAmount :=
  if !tx.IsZerocoinSpend then 0
  else
    (tx.vin.filter (·.scriptSig.IsZerocoinSpend)).foldl
      (fun nValueOut txin => Wrap.wrap64 (nValueOut + txin.nSequence * COIN)) 0

end CTransaction

/-! ## What is hashed of them -/

def serUint256 (h : uint256) : List UInt8 := leBytes 32 h.toNat

def COutPoint.ser (o : COutPoint) : List UInt8 := serUint256 o.hash ++ leBytes 4 o.n

def CTxIn.ser (txin : CTxIn) : List UInt8 :=
  txin.prevout.ser ++ serString txin.scriptSig ++ leBytes 4 txin.nSequence

def CTxOut.ser (txout : CTxOut) : List UInt8 := leInt 8 txout.nValue ++ serString txout.scriptPubKey

def CTransaction.ser (tx : CTransaction) : List UInt8 :=
  leInt 4 tx.nVersion ++
    (WriteCompactSize tx.vin.length ++ (tx.vin.map CTxIn.ser).flatten) ++
    (WriteCompactSize tx.vout.length ++ (tx.vout.map CTxOut.ser).flatten) ++
    leBytes 4 tx.nLockTime

/-! ## Fees by size

Sizes are unsigned 64-bit integers, and what is multiplied with one or divided by one is so too. -/

/-- `CFeeRate`: satoshis for 1000 bytes. -/
structure CFeeRate where
  nSatoshisPerK : CAmount
  deriving DecidableEq

namespace CFeeRate

/-- The constructor from a fee and a size. -/
def ofFee (nFeePaid : CAmount) (nSize : Nat) : CFeeRate :=
  ⟨if 0 < nSize then Wrap.wrap64 (nFeePaid * 1000 % 2 ^ 64 / nSize) else 0⟩

def GetFee (rate : CFeeRate) (nSize : Nat) : CAmount :=
  let nFee := Wrap.wrap64 (rate.nSatoshisPerK * nSize % 2 ^ 64 / 1000)
  if nFee = 0 ∧ 0 < rate.nSatoshisPerK then rate.nSatoshisPerK else nFee

theorem GetFee_pos {rate : CFeeRate} (h : 0 < rate.nSatoshisPerK) (nSize : Nat) :
    0 < rate.GetFee nSize := by
  have hlo := Int.emod_nonneg (rate.nSatoshisPerK * nSize) (b := 2 ^ 64) (by decide)
  have hhi := Int.emod_lt_of_pos (rate.nSatoshisPerK * nSize) (b := 2 ^ 64) (by decide)
  have hquot : 0 ≤ Wrap.wrap64 (rate.nSatoshisPerK * nSize % 2 ^ 64 / 1000) := by
    rw [Wrap.wrap64_of_fits ⟨by omega, by omega⟩]
    omega
  unfold GetFee
  dsimp only
  split_ifs with hzero
  · exact h
  · exact lt_of_le_of_ne hquot fun hnull => hzero ⟨hnull.symm, h⟩

end CFeeRate

/-- `IsDust`: spending the output would cost more than a third of it. -/
def CTxOut.IsDust (txout : CTxOut) (minRelayTxFee : CFeeRate) : Bool :=
  txout.nValue < 3 * minRelayTxFee.GetFee (txout.ser.length + 148)

theorem CTxOut.pos_of_not_dust {txout : CTxOut} {rate : CFeeRate} (hrate : 0 < rate.nSatoshisPerK)
    (h : txout.IsDust rate = false) : 0 < txout.nValue := by
  have hfee := CFeeRate.GetFee_pos hrate (txout.ser.length + 148)
  have hcost := Int.not_lt.mp (of_decide_eq_false h)
  linarith

end Divitae
