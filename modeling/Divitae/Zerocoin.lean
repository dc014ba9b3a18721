/-
# `Zerocoin` — denominations, spends and mints

`libzerocoin/Denominations.cpp` in full.  Of the rest of `libzerocoin` the validation
code reads a few fields and asks a few yes-or-no questions; the questions (is the
proof valid, is the number prime, is the serial in range, what does the database
hold) are the fields of `Zerocoin`.
-/
import Divitae.Transaction

namespace Divitae

/-! ## Denominations -/

inductive CoinDenomination where
  | ZQ_ERROR
  | ZQ_ONE
  | ZQ_FIVE
  | ZQ_TEN
  | ZQ_FIFTY
  | ZQ_ONE_HUNDRED
  | ZQ_FIVE_HUNDRED
  | ZQ_ONE_THOUSAND
  | ZQ_FIVE_THOUSAND
  deriving DecidableEq, Repr

namespace CoinDenomination

def zerocoinDenomList : List CoinDenomination :=
  [ZQ_ONE, ZQ_FIVE, ZQ_TEN, ZQ_FIFTY, ZQ_ONE_HUNDRED, ZQ_FIVE_HUNDRED, ZQ_ONE_THOUSAND,
    ZQ_FIVE_THOUSAND]

/-- `ZerocoinDenominationToInt`, which is also the number behind the enumerator. -/
def toInt : CoinDenomination → Int
  | ZQ_ERROR => 0
  | ZQ_ONE => 1
  | ZQ_FIVE => 5
  | ZQ_TEN => 10
  | ZQ_FIFTY => 50
  | ZQ_ONE_HUNDRED => 100
  | ZQ_FIVE_HUNDRED => 500
  | ZQ_ONE_THOUSAND => 1000
  | ZQ_FIVE_THOUSAND => 5000

/-- `ZerocoinDenominationToAmount`. -/
def toAmount (d : CoinDenomination) : CAmount := COIN * d.toInt

/-- `IntToZerocoinDenomination`. -/
def ofInt (amount : Int) : CoinDenomination :=
  (zerocoinDenomList.find? fun d => d.toInt == amount).getD ZQ_ERROR

/-- `AmountToZerocoinDenomination`. -/
def ofAmount (amount : CAmount) : CoinDenomination :=
  if amount - COIN * amount.tdiv COIN = 0 then ofInt (amount.tdiv COIN) else ZQ_ERROR

theorem ofInt_toInt : ∀ d : CoinDenomination, ofInt d.toInt = d := by
  intro d
  cases d <;> rfl

theorem toInt_nonneg (d : CoinDenomination) : 0 ≤ d.toInt := by
  cases d <;> decide

end CoinDenomination

/-! ## Spends and mints -/

inductive SpendType where
  | SPEND
  | STAKE
  | MN_COLLATERAL
  | SIGN_MESSAGE
  deriving DecidableEq, Repr

/-- `libzerocoin::CoinSpend`, without its proofs. -/
structure CoinSpend where
  denomination : CoinDenomination
  accChecksum : Nat
  ptxHash : uint256
  coinSerialNumber : Int
  version : Nat
  spendType : SpendType
  deriving DecidableEq

def PUBKEY_VERSION : Nat := 2

/-- `libzerocoin::PublicCoin`. -/
structure PublicCoin where
  value : Int
  denomination : CoinDenomination
  deriving DecidableEq

/-- The zerocoin library and database. -/
structure Zerocoin where
  /-- `TxInToZerocoinSpend`; deserializing throws on bytes that hold no spend -/
  TxInToZerocoinSpend : CTxIn → Option CoinSpend
  /-- the number a mint's script carries -/
  mintValue : CScript → Int
  /-- `PublicCoin::validate` -/
  validate : PublicCoin → Bool
  /-- the accumulator of the checksum is known and the spend verifies against it -/
  Verify : CoinSpend → Bool
  HasValidSignature : CoinSpend → Bool
  /-- `HasValidSerial` with the parameters of version 1 or not -/
  HasValidSerial : Bool → CoinSpend → Bool
  /-- `zerocoinDB->ReadCoinSpend`, by serial number -/
  ReadCoinSpend : Int → Option uint256
  /-- `zerocoinDB->ReadCoinMint`, by value -/
  ReadCoinMint : Int → Option uint256

def TxOutToPublicCoin (Z : Zerocoin) (txout : CTxOut) : Option PublicCoin :=
  let denomination := CoinDenomination.ofAmount txout.nValue
  if denomination = .ZQ_ERROR then none
  else some ⟨Z.mintValue txout.scriptPubKey, denomination⟩

end Divitae
