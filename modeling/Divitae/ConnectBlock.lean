/-
# `ConnectBlock` — applying a block to the coins

`CheckInputs`, `UpdateZDIVITSupply`, `IsBlockValueValid` and `ConnectBlock`.  The loop
over the transactions carries three totals; the block's value check looks at nothing
else:

    nValueOut    outputs of every transaction
    nValueIn     inputs, zerocoin spends at their denomination
    nFees        inputs less outputs of the ordinary transactions; each time the
                 total passes 2500 coins, 2500 coins are taken off it

They are 64-bit registers and wrap.
-/
import Divitae.Prosperitynode
import Divitae.Undo
import Divitae.Validation

namespace Divitae

open Wrap

/-- What connecting a block asks of the node besides the checks. -/
structure CConnectNode extends CNode where
  K : CurvePoints
  /-- `prosperitynodeSync.IsSynced()` -/
  IsSynced : Bool
  /-- `budget.IsBudgetPaymentBlock` -/
  IsBudgetPaymentBlock : Int → Bool
  GetP2SHSigOpCount : CTransaction → CCoinsView → Nat
  /-- the scripts of all inputs verify, at heights where they are checked -/
  scriptsVerify : CTransaction → CCoinsView → Bool
  ValidateAccumulatorCheckpoint : CBlock → CBlockIndex → Bool
  /-- supplies of the previous block after the one-time recalculation -/
  recalculated : CBlockIndex → CAmount × (CoinDenomination → Int)
  /-- disk and databases take what is written -/
  writesSucceed : Bool

section
variable (N : CConnectNode)

def ValidOutPoint (out : COutPoint) (nHeight : Int) : Bool :=
  !(N.P.nBlockEnforceInvalidUTXO ≤ nHeight && N.ContainsOutPoint out)

/-- The loop of `CheckInputs` over the inputs, from the value so far. -/
def checkInputValues (inputs : CCoinsView) (nSpendHeight : Int) :
    List CTxIn → CAmount → Checked CAmount
  | [], nValueIn => .ok nValueIn
  | txin :: vin, nValueIn =>
    let coins := inputs.coins txin.prevout.hash
    let nValue := (inputs.GetOutputFor txin).nValue
    rejectIf ((coins.fCoinBase || coins.fCoinStake) && nSpendHeight - coins.nHeight <
      N.P.nMaturity)
      "bad-txns-premature-spend-of-coinbase" <|
    rejectIf (!MoneyRange N.P nValue || !MoneyRange N.P (wrap64 (nValueIn + nValue)))
      "bad-txns-inputvalues-outofrange" <|
    checkInputValues inputs nSpendHeight vin (wrap64 (nValueIn + nValue))

def CheckInputs (tx : CTransaction) (inputs : CCoinsView) : Checked Unit :=
  if !tx.IsCoinBase && !tx.IsZerocoinSpend then
    rejectIf (!inputs.HaveInputs tx) "CheckInputs() : inputs unavailable" <|
    match N.mapBlockIndex inputs.hashBlock with
    | none => .error "mapBlockIndex.find(inputs.GetBestBlock())"
    | some nPrevHeight =>
      checkInputValues N inputs (nPrevHeight + 1) tx.vin 0 >>= fun nValueIn =>
      (if !tx.IsCoinStake then
        rejectIf (nValueIn < tx.GetValueOut) "bad-txns-in-belowout" <|
        let nTxFee := nValueIn - tx.GetValueOut
        let nTxFee := if nTxFee > PROSPERITYNODE_AMOUNT then nTxFee - PROSPERITYNODE_AMOUNT
          else nTxFee
        rejectIf (nTxFee < 0) "bad-txns-fee-negative" <|
        rejectIf (!MoneyRange N.P nTxFee) "bad-txns-fee-outofrange" (.ok ())
      else .ok ()) >>= fun _ =>
      rejectIf (!N.scriptsVerify tx inputs) "mandatory-script-verify-flag-failed" (.ok ())
  else .ok ()

/-! ## The loop over the transactions -/

structure ConnectState where
  view : CCoinsView
  nSigOps : Nat
  nFees : CAmount
  nValueIn : CAmount
  nValueOut : CAmount
  vtxundo : List (List CTxInUndo)
  vSpends : List (CoinSpend × uint256)
  vMints : List (PublicCoin × uint256)

def ContextualCheckZerocoinSpend (tx : CTransaction) (spend : CoinSpend) (pindex : CBlockIndex) :
    Bool :=
  let signed := N.Z.HasValidSignature spend &&
    spend.spendType == (if tx.IsCoinStake then SpendType.STAKE else SpendType.SPEND)
  let serialInBlockchain := ((N.Z.ReadCoinSpend spend.coinSerialNumber).bind
    N.IsTransactionInChain).isSome
  !(N.P.nBlockZerocoinV2 ≤ pindex.nHeight && !signed) && !serialInBlockchain &&
    !(N.P.nBlockEnforceSerialRange < pindex.nHeight &&
      !N.Z.HasValidSerial (spend.version < PUBKEY_VERSION) spend)

/-- The spends of a transaction: value and list so far to value and list behind it. -/
def connectSpends (tx : CTransaction) (pindex : CBlockIndex) :
    List CTxIn → CAmount → List (CoinSpend × uint256) →
      Checked (CAmount × List (CoinSpend × uint256))
  | [], nValueIn, vSpends => .ok (nValueIn, vSpends)
  | txIn :: vin, nValueIn, vSpends =>
    if !txIn.scriptSig.IsZerocoinSpend then connectSpends tx pindex vin nValueIn vSpends
    else
      match N.Z.TxInToZerocoinSpend txIn with
      | none => .error "CDataStream::read() : end of data"
      | some spend =>
        rejectIf (!ContextualCheckZerocoinSpend N tx spend pindex)
          "failed to add block with invalid zerocoinspend" <|
        connectSpends tx pindex vin (wrap64 (nValueIn + spend.denomination.toInt * COIN))
          (vSpends ++ [(spend, tx.hash)])

def ContextualCheckZerocoinMint (coin : PublicCoin) (pindex : CBlockIndex) : Bool :=
  !(N.P.nBlockZerocoinV2 ≤ pindex.nHeight && N.P.networkID != .TESTNET &&
    ((N.Z.ReadCoinMint coin.value).bind N.IsTransactionInChain).isSome)

/-- The mints of a transaction, checked and put behind the list so far. -/
def connectMints (tx : CTransaction) (pindex : CBlockIndex) :
    List CTxOut → List (PublicCoin × uint256) → Checked (List (PublicCoin × uint256))
  | [], vMints => .ok vMints
  | out :: vout, vMints =>
    if !out.IsZerocoinMint then connectMints tx pindex vout vMints
    else
      match TxOutToPublicCoin N.Z out with
      | none => .error "failed final check of zerocoinmint"
      | some coin =>
        rejectIf (!ContextualCheckZerocoinMint N coin pindex)
          "zerocoin mint failed contextual check" <|
        connectMints tx pindex vout (vMints ++ [(coin, tx.hash)])

/-- The branch of zerocoin spends, the coin stake of a zerocoin staker among them. -/
def connectZerocoinSpend (pindex : CBlockIndex) (tx : CTransaction) (st : ConnectState) :
    Checked ConnectState :=
  rejectIf ((N.IsTransactionInChain tx.hash).any fun nHeightTx =>
      !N.fVerifyingBlocks || nHeightTx < pindex.nHeight) "bad-txns-inputs-missingorspent" <|
  connectSpends N tx pindex tx.vin st.nValueIn st.vSpends >>= fun (nValueIn, vSpends) =>
  connectMints N tx pindex tx.vout st.vMints >>= fun vMints =>
  .ok { st with nValueIn := nValueIn, vSpends := vSpends, vMints := vMints }

/-- `nFees` after a transaction that pays `fee`. -/
def addFee (nFees fee : CAmount) : CAmount :=
  if wrap64 (nFees + fee) > PROSPERITYNODE_AMOUNT then
    wrap64 (nFees + fee) - PROSPERITYNODE_AMOUNT
  else wrap64 (nFees + fee)

def connectOrdinary (pindex : CBlockIndex) (tx : CTransaction) (st : ConnectState) :
    Checked ConnectState :=
  rejectIf (!st.view.HaveInputs tx) "bad-txns-inputs-missingorspent" <|
  rejectIf (tx.vin.any fun txin => !ValidOutPoint N txin.prevout pindex.nHeight)
    "bad-txns-invalid-inputs" <|
  connectMints N tx pindex tx.vout st.vMints >>= fun vMints =>
  let nSigOps := st.nSigOps + N.GetP2SHSigOpCount tx st.view
  rejectIf (MAX_BLOCK_SIGOPS_CURRENT < nSigOps) "bad-blk-sigops" <|
  let nFees :=
    if !tx.IsCoinStake then addFee st.nFees (st.view.GetValueIn tx - tx.GetValueOut) else st.nFees
  CheckInputs N tx st.view >>= fun _ =>
  .ok { st with
    nSigOps := nSigOps
    nFees := nFees
    nValueIn := wrap64 (st.nValueIn + st.view.GetValueIn tx)
    vMints := vMints }

/-- One round of the loop; the first transaction leaves no undo record. -/
def connectTx (block : CBlock) (pindex : CBlockIndex) (first : Bool) (tx : CTransaction)
    (st : ConnectState) : Checked ConnectState :=
  let st := { st with nSigOps := st.nSigOps + N.GetLegacySigOpCount tx }
  rejectIf (MAX_BLOCK_SIGOPS_CURRENT < st.nSigOps) "bad-blk-sigops" <|
  rejectIf (GetSporkValue N.sporks SPORK_20_ZEROCOIN_MAINTENANCE_MODE < block.nTime &&
      !N.IsInitialBlockDownload && tx.ContainsZerocoins)
    "ConnectBlock() : zerocoin transactions are currently in maintenance mode" <|
  (if tx.IsZerocoinSpend then connectZerocoinSpend N pindex tx st
    else if !tx.IsCoinBase then connectOrdinary N pindex tx st
    else .ok st) >>= fun st =>
  match UpdateCoins tx st.view pindex.nHeight with
  | none => .error "assert(ret)"
  | some (view, vprevout) =>
    .ok { st with
      view := view
      nValueOut := wrap64 (st.nValueOut + tx.GetValueOut)
      vtxundo := if first then st.vtxundo else st.vtxundo ++ [vprevout] }

def connectTxs (block : CBlock) (pindex : CBlockIndex) :
    Bool → List CTransaction → ConnectState → Checked ConnectState
  | _, [], st => .ok st
  | first, tx :: vtx, st =>
    connectTx N block pindex first tx st >>= connectTxs block pindex false vtx

/-! ## Zerocoin supply -/

/-- Denominations minted by the outputs from the `i`-th on, and whether all could be read. -/
def mintedDenominations (fFilterInvalid : Bool) (hash : uint256) :
    List CTxOut → Nat → List CoinDenomination × Bool
  | [], _ => ([], true)
  | txOut :: vout, i =>
    if fFilterInvalid && N.ContainsOutPoint ⟨hash, i⟩ then ([], true)
    else if !txOut.scriptPubKey.IsZerocoinMint then mintedDenominations fFilterInvalid
      hash vout (i + 1)
    else
      match TxOutToPublicCoin N.Z txOut with
      | none => ([], false)
      | some pubCoin =>
        let rest := mintedDenominations fFilterInvalid hash vout (i + 1)
        (pubCoin.denomination :: rest.1, rest.2)

/-- `BlockToZerocoinMintList`, the denominations. -/
def BlockToZerocoinMintList (fFilterInvalid : Bool) : List CTransaction → List CoinDenomination
  | [] => []
  | tx :: vtx =>
    if !tx.IsZerocoinMint then BlockToZerocoinMintList fFilterInvalid vtx
    else if fFilterInvalid && tx.vin.any fun txin => N.ContainsOutPoint txin.prevout then
      BlockToZerocoinMintList fFilterInvalid vtx
    else
      let minted := mintedDenominations N fFilterInvalid tx.hash tx.vout 0
      if minted.2 then minted.1 ++ BlockToZerocoinMintList fFilterInvalid vtx else minted.1

def ZerocoinSpendListFromBlock (fFilterInvalid : Bool) (vtx : List CTransaction) :
    List CoinDenomination :=
  (vtx.filter CTransaction.IsZerocoinSpend).flatMap fun tx =>
    (tx.vin.filter fun txin => txin.scriptSig.IsZerocoinSpend && !(fFilterInvalid &&
      (N.Z.TxInToZerocoinSpend txin).any fun spend => N.ContainsSerial spend.coinSerialNumber)).map
      fun txin => CoinDenomination.ofInt txin.nSequence

/-- Take the spends off the supply; it never falls below zero. -/
def spendSupply : List CoinDenomination → (CoinDenomination → Int) →
    Checked (CoinDenomination → Int)
  | [], supply => .ok supply
  | denom :: listSpends, supply =>
    rejectIf (denom == .ZQ_ERROR) "map::at" <|
    rejectIf (supply denom - 1 < 0)
      "Block contains zerocoins that spend more than are in the available supply to spend" <|
    spendSupply listSpends (Function.update supply denom (supply denom - 1))

def UpdateZDIVITSupply (block : CBlock) (pindex pprev : CBlockIndex) : Checked CBlockIndex :=
  let fFilterInvalid := decide (N.P.nBlockRecalculateAccumulators ≤ pindex.nHeight)
  let listMints := BlockToZerocoinMintList N fFilterInvalid block.vtx
  let listSpends := ZerocoinSpendListFromBlock N fFilterInvalid block.vtx
  let supply := if 3 < pprev.nVersion then pprev.mapZerocoinSupply else pindex.mapZerocoinSupply
  let supply := listMints.foldl
    (fun supply denom => Function.update supply denom (supply denom + 1)) supply
  spendSupply listSpends supply >>= fun supply =>
  .ok { pindex with mapZerocoinSupply := supply, vMintDenominationsInBlock := listMints }

/-! ## The value of the block -/

def IsBlockValueValid (block : CBlock) (nExpectedValue nMinted : CAmount) : Bool :=
  match N.chainTip with
  | none => true
  | some tip =>
    let nHeight := heightByPrev N.toCNode block tip
    if !N.IsSynced then
      if nHeight.tmod (GetBudgetPaymentCycleBlocks N.P) < 100 then true
      else !(nMinted > nExpectedValue)
    else if !IsSporkActive N.sporks N.time SPORK_13_ENABLE_SUPERBLOCKS then
      nMinted ≤ nExpectedValue
    else if N.IsBudgetPaymentBlock nHeight then true
    else !(nMinted > nExpectedValue)

/-- The two blocks of another chain that BIP30 exempts. -/
def fEnforceBIP30 (pindex : CBlockIndex) : Bool :=
  match pindex.phashBlock with
  | none => true
  | some hash =>
    !((pindex.nHeight == 91842 &&
        hash == 0x00000000000a4d0a398161ffc163c503763b1f4360639393e0e4c8e300e0caec#256) ||
      (pindex.nHeight == 91880 &&
        hash == 0x00000000000743f190a18c5577a3c2d2a1f610ae9601ac046a38084ccb7cd721#256))

/-- What `CBlockUndo::WriteToDisk` writes: the records, and a checksum over them and
the hash of the previous block. -/
def WriteToDisk (vtxundo : List (List CTxInUndo)) (hashBlock : uint256) : List UInt8 × uint256 :=
  (serBlockUndo N.K vtxundo, N.C.hash256 (serUint256 hashBlock ++ serBlockUndo N.K vtxundo))

/-- What a connected block leaves. -/
structure Connected where
  pindex : CBlockIndex
  view : CCoinsView
  vSpends : List (CoinSpend × uint256)
  vMints : List (PublicCoin × uint256)

def ConnectState.start (view : CCoinsView) : ConnectState := ⟨view, 0, 0, 0, 0, [], [], []⟩

/-- `ConnectBlock` from the proof-of-stake checks to the mint figure: the loop, the
zerocoin supply and the money supply. -/
def connectTotals (block : CBlock) (pindex pprev : CBlockIndex) (view : CCoinsView) :
    Checked (CBlockIndex × ConnectState) :=
  rejectIf (pindex.nHeight ≤ N.P.nLastPOWBlock && block.IsProofOfStake) "PoS-early" <|
  rejectIf (N.P.nLastPOWBlock < pindex.nHeight && block.IsProofOfWork) "PoW-ended" <|
  rejectIf (fEnforceBIP30 pindex && block.vtx.any fun tx => !(view.coins tx.hash).IsPruned)
    "bad-txns-BIP30" <|
  connectTxs N block pindex true block.vtx (.start view) >>= fun st =>
  let pprev :=
    if pindex.nHeight = N.P.nBlockRecalculateAccumulators + 1 then
      { pprev with
        nMoneySupply := (N.recalculated pprev).1
        mapZerocoinSupply := (N.recalculated pprev).2 }
    else pprev
  UpdateZDIVITSupply N block pindex pprev >>= fun pindex =>
  let nMoneySupply := wrap64 (wrap64 (pprev.nMoneySupply + st.nValueOut) - st.nValueIn)
  let nMint := wrap64 (wrap64 (nMoneySupply - pprev.nMoneySupply) + st.nFees)
  .ok ({ pindex with nMoneySupply := nMoneySupply, nMint := nMint }, st)

/-- `ConnectBlock` on the block after `pprev`: the checks that need no coins unless the
caller has made them, the totals, the value check and, unless only a check is wanted,
the writes.  PoW phase redistributed fees to miner, PoS stage destroys fees. -/
def ConnectBlock (block : CBlock) (pindex pprev : CBlockIndex) (view : CCoinsView)
    (fJustCheck fAlreadyChecked : Bool) : Checked Connected :=
  (if fAlreadyChecked then .ok ()
    else CheckBlock N.toCNode block (!fJustCheck) (!fJustCheck)) >>= fun _ =>
  rejectIf (pprev.phashBlock != some view.hashBlock)
    "assert(hashPrevBlock == view.GetBestBlock())" <|
  if block.hash = N.hashGenesisBlock then
    .ok ⟨pindex, view.SetBestBlock (pindex.phashBlock.getD 0), [], []⟩
  else
    connectTotals N block pindex pprev view >>= fun (pindex, st) =>
    let nExpectedMint := GetBlockValue N.P pprev.nHeight +
      (if block.IsProofOfWork then st.nFees else 0)
    rejectIf (!IsBlockValueValid N block nExpectedMint pindex.nMint) "bad-cb-amount" <|
    rejectIf (!N.ValidateAccumulatorCheckpoint block pindex) "bad-acc-checkpoint" <|
    if fJustCheck then .ok ⟨pindex, st.view, [], []⟩
    else
      rejectIf (!N.writesSucceed) "Failed to write undo data" <|
      let undo := pindex.undo.getD (WriteToDisk N st.vtxundo view.hashBlock)
      .ok ⟨{ pindex with undo := some undo },
        st.view.SetBestBlock (pindex.phashBlock.getD 0), st.vSpends, st.vMints⟩

end

end Divitae
