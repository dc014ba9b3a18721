/-
# `CreateTransaction` — the wallet makes a payment

`SelectCoins` and `CreateTransaction` of `wallet.cpp`.  Each attempt makes the outputs to the
payees for the fee that is known, selects coins, gives back what is left as change, signs, and
looks what fee a transaction of this size needs; where that is more, it begins again with it.

    coin control, no split   one output for each payee; dust is refused
    otherwise                each amount in `nSplitBlock` parts, one without coin control
    prosperitynode           one output of `FN_MAGIC_AMOUNT`; the rest of the amount is burnt

What an attempt draws at random, the keys it reserves and the fee estimates are `PayingWallet`.
Amounts are integers: a sum that does not fit in 64 bits is undefined in the source.
-/
import Divitae.CoinSelection

namespace Divitae

/-! ## The wallet -/

inductive AvailableCoinsType where
  | ALL_COINS
  | ONLY_DENOMINATED
  | ONLY_NOT10000IFMN
  | ONLY_NONDENOMINATED_NOT10000IFMN
  | ONLY_10000
  | STAKABLE_COINS
  deriving DecidableEq

structure CCoinControl where
  /-- the script of `destChange`, where that is no `CNoDestination` -/
  destChange : Option CScript
  fSplitBlock : Bool
  nSplitBlock : Int
  setSelected : List COutPoint

/-- What a payment asks of the wallet and the node.  The first number is the attempt. -/
structure PayingWallet (P : CChainParams) where
  AvailableCoins : Option CCoinControl → AvailableCoinsType → Bool → WalletCoins P
  GetInputObfuscationRounds : WalletCoin → Int
  nZeromintPercentage : Int
  bSpendZeroConfChange : Bool
  /-- what the first, second and third selection of an attempt draw -/
  choices : Nat → Nat → SelectChoices
  /-- a set of coins is ordered by the places of the transactions in memory -/
  inOrder : Finset WalletCoin → List WalletCoin
  inOrder_once : ∀ setCoins, (inOrder setCoins).Nodup
  inOrder_all : ∀ setCoins, (inOrder setCoins).toFinset = setCoins
  /-- the script of the key that is reserved for the change -/
  reservedScript : Nat → CScript
  /-- `GetRandInt`, one more than the largest result being the second number plus 1 -/
  GetRandInt : Nat → (n : Nat) → Fin (n + 1)
  /-- the script that signs an input of a transaction with these inputs and outputs -/
  SignSignature : List COutPoint → List CTxOut → Nat → Option CScript
  fSendFreeTransactions : Bool
  /-- the priority is high enough for a free transaction of this size -/
  priorityEnough : Nat → Finset WalletCoin → Nat → Bool
  GetMinimumFee : Nat → CAmount
  minRelayTxFee : CFeeRate
  minRelayTxFee_pos : 0 < minRelayTxFee.nSatoshisPerK

def MAX_STANDARD_TX_SIZE : Nat := 100000
def MAX_FREE_TRANSACTION_CREATE_SIZE : Nat := 1000

section
variable {P : CChainParams} (W : PayingWallet P)

/-- A coin that is mixed often enough. -/
def PayingWallet.anonymized (coin : WalletCoin) : Bool :=
  !decide (W.GetInputObfuscationRounds coin < W.nZeromintPercentage)

/-- A coin of the denomination `v`, as long as the target is not passed by 0.1 and 100. -/
def takeDenominated (nTargetValue v : CAmount) (coins : List (CAmount × WalletCoin))
    (out : COutput) : List (CAmount × WalletCoin) :=
  if out.Value = v ∧ (coins.map Prod.fst).sum + out.Value < nTargetValue + COIN / 10 + 100 ∧
      W.anonymized out.coin = true then coins ++ [(out.Value, out.coin)]
  else coins

/-- The coins are enough, or not. -/
def CoinSelection.reaching (nTargetValue : CAmount) (coins : List (CAmount × WalletCoin)) :
    CoinSelection :=
  { CoinSelection.of coins with found := decide (nTargetValue ≤ (coins.map Prod.fst).sum) }

def SelectCoins (attempt : Nat) (nTargetValue : CAmount) (coinControl : Option CCoinControl)
    (coin_type : AvailableCoinsType) (useIX : Bool) : CoinSelection :=
  let vCoins := (W.AvailableCoins coinControl coin_type useIX).vCoins
  if coinControl.any fun control => !control.setSelected.isEmpty then
    .reaching nTargetValue
      ((vCoins.filter fun out => out.fSpendable &&
        (coin_type != .ONLY_DENOMINATED || W.anonymized out.coin)).map fun out =>
          (out.Value, out.coin))
  else if coin_type = .ONLY_DENOMINATED then
    .reaching nTargetValue
      (obfuScationDenominations.foldl
        (fun coins v => vCoins.foldl (takeDenominated W nTargetValue v) coins) [])
  else
    let first := SelectCoinsMinConf nTargetValue 1 6 (W.choices attempt 0) vCoins
    if first.found then first
    else
      let second := SelectCoinsMinConf nTargetValue 1 1 (W.choices attempt 1) vCoins
      if second.found || !W.bSpendZeroConfChange then second
      else SelectCoinsMinConf nTargetValue 0 1 (W.choices attempt 2) vCoins

/-! ## The outputs -/

/-- The parts of a payment; the last one has the remainder. -/
def splitOutputs (nSplitBlock : Int) (s : CScript × CAmount) : List CTxOut :=
  (List.range nSplitBlock.toNat).map fun i : Nat =>
    if (i : Int) = nSplitBlock - 1 then ⟨s.2.tdiv nSplitBlock + s.2.tmod nSplitBlock, s.1⟩
    else ⟨s.2.tdiv nSplitBlock, s.1⟩

/-- The outputs to the payees. -/
def payeeOutputs (vecSend : List (CScript × CAmount)) (coinControl : Option CCoinControl)
    (nTotalValue : CAmount) (IsFundamentalNodePayment : Bool) : Except String (List CTxOut) :=
  let nodeOutputs : List CTxOut := [⟨FN_MAGIC_AMOUNT, (vecSend.headD ([], 0)).1⟩]
  if coinControl.any fun control => !control.fSplitBlock then
    if IsFundamentalNodePayment then
      if nTotalValue < PROSPERITYNODE_AMOUNT then .error "" else .ok nodeOutputs
    else if vecSend.any fun s => CTxOut.IsDust ⟨s.2, s.1⟩ W.minRelayTxFee then
      .error "Transaction amount too small"
    else .ok (vecSend.map fun s => ⟨s.2, s.1⟩)
  else if IsFundamentalNodePayment then .ok nodeOutputs
  else .ok (vecSend.flatMap (splitOutputs (coinControl.elim 1 CCoinControl.nSplitBlock)))

/-- The change to a payee of its script, if there is one. -/
def combineChange (scriptChange : CScript) (nChange : CAmount) :
    List CTxOut → Option (List CTxOut)
  | [] => none
  | out :: vout =>
    if scriptChange = out.scriptPubKey then
      some ({ out with nValue := out.nValue + nChange } :: vout)
    else (combineChange scriptChange nChange vout).map (out :: ·)

/-- The change as an output of its own, or as a fee where it would be dust. -/
def insertChange (attempt : Nat) (newTxOut : CTxOut) (vout : List CTxOut) (nFeeRet : CAmount) :
    List CTxOut × CAmount :=
  if newTxOut.IsDust W.minRelayTxFee then (vout, nFeeRet + newTxOut.nValue)
  else (vout.insertIdx (W.GetRandInt attempt vout.length) newTxOut, nFeeRet)

def addChange (attempt : Nat) (coinControl : Option CCoinControl) (vout : List CTxOut)
    (nChange nFeeRet : CAmount) : List CTxOut × CAmount :=
  if 0 < nChange then
    match coinControl.bind CCoinControl.destChange with
    | some scriptChange =>
      match combineChange scriptChange nChange vout with
      | some vout => (vout, nFeeRet)
      | none => insertChange W attempt ⟨nChange, scriptChange⟩ vout nFeeRet
    | none => insertChange W attempt ⟨nChange, W.reservedScript attempt⟩ vout nFeeRet
  else (vout, nFeeRet)

/-! ## The transaction -/

/-- The inputs with their signatures. -/
def signInputs (outs : List COutPoint) (vout : List CTxOut) : Option (List CTxIn) :=
  outs.zipIdx.mapM fun out =>
    (W.SignSignature outs vout out.2).map fun scriptSig => ⟨out.1, scriptSig, 0xFFFFFFFF⟩

/-- `wtxNew` and `nFeeRet`, with the coins selected for it. -/
structure CreatedTransaction where
  setCoins : Finset WalletCoin
  vin : List CTxIn
  vout : List CTxOut
  nFeeRet : CAmount

inductive Attempt where
  | failed (strFailReason : String)
  | done (created : CreatedTransaction)
  /-- once more, with a larger fee -/
  | again (nFeeRet : CAmount)

def insufficientFunds (coin_type : AvailableCoinsType) (useIX : Bool) : String :=
  (match coin_type with
    | .ALL_COINS => "Insufficient funds."
    | .ONLY_NOT10000IFMN =>
      "Unable to locate enough funds for this transaction that are not equal 10000 DIVIT."
    | .ONLY_NONDENOMINATED_NOT10000IFMN =>
      "Unable to locate enough Obfuscation non-denominated funds for this transaction " ++
        "that are not equal 10000 DIVIT."
    | _ =>
      "Unable to locate enough Obfuscation denominated funds for this transaction. " ++
        "Obfuscation uses exact denominated amounts to send funds, " ++
        "you might simply need to anonymize some more coins.") ++
    if useIX then
      " SwiftX requires inputs with at least 6 confirmations, " ++
        "you might need to wait a few minutes and try again."
    else ""

/-- A payment, as it is asked for. -/
structure Payment where
  vecSend : List (CScript × CAmount)
  coinControl : Option CCoinControl
  coin_type : AvailableCoinsType
  useIX : Bool
  nFeePay : CAmount
  IsFundamentalNodePayment : Bool

variable (p : Payment)

/-- Whether the signed transaction will do. -/
def finishAttempt (attempt : Nat) (created : CreatedTransaction) : Attempt :=
  let nBytes := (CTransaction.ser ⟨0, 1, created.vin, created.vout, 0⟩).length
  if MAX_STANDARD_TX_SIZE ≤ nBytes then .failed "Transaction too large"
  else if W.fSendFreeTransactions && decide (nBytes ≤ MAX_FREE_TRANSACTION_CREATE_SIZE) &&
      W.priorityEnough attempt created.setCoins nBytes then .done created
  else
    let nFeeNeeded := max p.nFeePay (W.GetMinimumFee nBytes)
    if nFeeNeeded < W.minRelayTxFee.GetFee nBytes then
      .failed "Transaction too large for fee policy"
    else if nFeeNeeded ≤ created.nFeeRet then .done created
    else .again nFeeNeeded

def tryPayment (attempt : Nat) (nValue nFeeRet : CAmount) : Attempt :=
  match payeeOutputs W p.vecSend p.coinControl (nValue + nFeeRet) p.IsFundamentalNodePayment with
  | .error strFailReason => .failed strFailReason
  | .ok vout =>
    let coins := SelectCoins W attempt (nValue + nFeeRet) p.coinControl p.coin_type p.useIX
    if !coins.found then .failed (insufficientFunds p.coin_type p.useIX)
    else
      let nChange := coins.nValueRet - nValue - nFeeRet
      -- denominated coins are never changed
      let (nFeeRet, nChange) :=
        if p.coin_type = .ONLY_DENOMINATED then (nFeeRet + nChange, 0) else (nFeeRet, nChange)
      let (vout, nFeeRet) := addChange W attempt p.coinControl vout nChange nFeeRet
      let outs : List COutPoint := (W.inOrder coins.setCoinsRet).map fun coin =>
        ⟨coin.1.tx.hash, coin.2⟩
      match signInputs W outs vout with
      | none => .failed "Signing transaction failed"
      | some vin => finishAttempt W p attempt ⟨coins.setCoinsRet, vin, vout, nFeeRet⟩

/-- The loop; nothing where the fuel is used up. -/
def paymentLoop (nValue : CAmount) : Nat → Nat → CAmount → Option (Except String CreatedTransaction)
  | 0, _, _ => none
  | fuel + 1, attempt, nFeeRet =>
    match tryPayment W p attempt nValue nFeeRet with
    | .failed strFailReason => some (.error strFailReason)
    | .done created => some (.ok created)
    | .again nFeeRet => paymentLoop nValue fuel (attempt + 1) nFeeRet

/-- The amounts together; it is the sum so far that must not be negative. -/
def sumAmounts : List (CScript × CAmount) → CAmount → Option CAmount
  | [], nValue => if nValue < 0 then none else some nValue
  | s :: vecSend, nValue => if nValue < 0 then none else sumAmounts vecSend (nValue + s.2)

def CreateTransaction (fuel : Nat) : Option (Except String CreatedTransaction) :=
  let p := { p with nFeePay := if p.useIX && decide (p.nFeePay < CENT) then CENT else p.nFeePay }
  match (if p.vecSend.isEmpty then none else sumAmounts p.vecSend 0) with
  | none => some (.error "Transaction amounts must be positive")
  | some nValue => paymentLoop W p nValue fuel 0 (if 0 < p.nFeePay then p.nFeePay else 0)

end

end Divitae
