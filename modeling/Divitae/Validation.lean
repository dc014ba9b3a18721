/-
# `Validation` — the checks of transactions and blocks that need no coins

`CheckTransaction`, `CheckZerocoinSpend`, `CheckBlockHeader` and `CheckBlock` of
`main.cpp`.  A check fails with the text the source gives: the reject reason where
there is one, the log line otherwise.  What these functions ask of the rest of the
node is in `CNode`; the questions the model does not answer itself (scripts, proof of
work, Merkle trees, payees) are fields there.
-/
import Divitae.Reward
import Divitae.Spork
import Divitae.Zerocoin

namespace Divitae

abbrev Checked := Except String

/-- `if (bad) return state.DoS(.., reason);` -/
def rejectIf {α : Type} (bad : Bool) (reason : String) (rest : Checked α) : Checked α :=
  if bad then .error reason else rest

@[simp] theorem rejectIf_eq_ok {α : Type} {bad : Bool} {reason : String}
  {rest : Checked α} {a : α} : rejectIf bad reason rest = .ok a ↔ bad = false ∧ rest = .ok a := by
  cases bad
  · exact ⟨fun h => ⟨rfl, h⟩, fun h => h.2⟩
  · exact ⟨nofun, fun h => (nomatch h.1)⟩

theorem bind_eq_ok {α β : Type} {x : Checked α} {f : α → Checked β} {b : β} :
    x >>= f = .ok b ↔ ∃ a, x = .ok a ∧ f a = .ok b := by
  cases x with
  | error e => exact ⟨nofun, fun ⟨_, h, _⟩ => (nomatch h)⟩
  | ok a => exact ⟨fun h => ⟨a, rfl, h⟩, fun ⟨_, h, h'⟩ => by cases h; exact h'⟩

theorem exists_of_isOk {α : Type} {x : Checked α} (h : x.isOk = true) : ∃ a, x = .ok a := by
  cases x with
  | error e => cases h
  | ok a => exact ⟨a, rfl⟩

/-! ## Blocks and their index entries -/

structure CBlock where
  hash : uint256
  nVersion : Int
  hashPrevBlock : uint256
  nTime : Int
  vtx : List CTransaction
  vchBlockSig : List UInt8
  deriving DecidableEq

namespace CBlock

variable (block : CBlock)

def IsProofOfStake : Bool :=
  match block.vtx with
  | _ :: tx :: _ => tx.IsCoinStake
  | _ => false

def IsProofOfWork : Bool := !block.IsProofOfStake

/-- `GetSerializeSize`: the header has an accumulator checkpoint from version 4 on,
the block a signature when its second transaction is a coinstake. -/
def GetSerializeSize : Nat :=
  (if 3 < block.nVersion then 112 else 80) + (WriteCompactSize block.vtx.length).length +
    (block.vtx.map fun tx => tx.ser.length).sum +
    (if block.IsProofOfStake then (serString block.vchBlockSig).length else 0)

end CBlock

/-- `CBlockIndex`, as far as connecting a block reads and writes it.  `undo` is what
the undo file holds where `GetUndoPos` points: the serialization and its checksum. -/
structure CBlockIndex where
  phashBlock : Option uint256
  nHeight : Int
  nVersion : Int
  nTime : Int
  nAccumulatorCheckpoint : uint256
  nMint : CAmount
  nMoneySupply : CAmount
  mapZerocoinSupply : CoinDenomination → Int
  vMintDenominationsInBlock : List CoinDenomination
  undo : Option (List UInt8 × uint256)

/-! ## The node around the checks -/

/-- What the checks read of the node. -/
structure CNode where
  P : CChainParams
  C : Crypto
  Z : Zerocoin
  sporks : SporkState
  /-- `GetTime` -/
  time : Int
  adjustedTime : Int
  hashGenesisBlock : uint256
  fVerifyingBlocks : Bool
  IsInitialBlockDownload : Bool
  /-- `chainActive.Tip()` -/
  chainTip : Option CBlockIndex
  /-- heights in `mapBlockIndex` -/
  mapBlockIndex : uint256 → Option Int
  /-- `IsTransactionInChain`: the height of the transaction's block in the active chain -/
  IsTransactionInChain : uint256 → Option Int
  /-- swiftTX locks -/
  mapLockedInputs : COutPoint → Option uint256
  /-- `invalid_out` -/
  ContainsOutPoint : COutPoint → Bool
  ContainsSerial : Int → Bool
  CheckProofOfWork : CBlock → Bool
  /-- the header's Merkle root is that of the transactions, none of them repeated by a mutation -/
  merkleRootMatches : CBlock → Bool
  IsBlockPayeeValid : CBlock → Int → Bool
  GetLegacySigOpCount : CTransaction → Nat

def MAX_BLOCK_SIZE_CURRENT : Nat := 2000000
def MAX_BLOCK_SIZE_LEGACY : Nat := 1000000
def MAX_ZEROCOIN_TX_SIZE : Nat := 150000
def MAX_BLOCK_SIGOPS_CURRENT : Nat := MAX_BLOCK_SIZE_CURRENT / 50
def MAX_BLOCK_SIGOPS_LEGACY : Nat := MAX_BLOCK_SIZE_LEGACY / 50

section
variable (N : CNode)

/-- `chainActive.Height()`. -/
def CNode.chainHeight : Int :=
  match N.chainTip with
  | none => -1
  | some tip => tip.nHeight

def MoneyRange (P : CChainParams) (nValueOut : CAmount) : Bool :=
  0 ≤ nValueOut && nValueOut ≤ P.nMaxMoneyOut

/-! ## Transactions -/

/-- `SerializeHash` of a transaction with these outputs and nothing else. -/
def hashTxOut (vout : List CTxOut) : uint256 := N.C.hash256 (CTransaction.ser ⟨0, 1, [], vout, 0⟩)

/-- The loop of `CheckZerocoinSpend` over the inputs, from the serials seen and the
amount redeemed so far: the amount redeemed and whether a spend was seen. -/
def checkZerocoinInputs (tx : CTransaction) (fVerifySignature : Bool) :
    List CTxIn → List Int → CAmount → Bool → Checked (CAmount × Bool)
  | [], _, nTotalRedeemed, fValidated => .ok (nTotalRedeemed, fValidated)
  | txin :: vin, serials, nTotalRedeemed, fValidated =>
    if !txin.scriptSig.IsZerocoinSpend then
      checkZerocoinInputs tx fVerifySignature vin serials nTotalRedeemed fValidated
    else
      match N.Z.TxInToZerocoinSpend txin with
      | none => .error "CDataStream::read() : end of data"
      | some newSpend =>
        rejectIf (newSpend.denomination == .ZQ_ERROR)
          "Zerocoinspend does not have the correct denomination" <|
        rejectIf (newSpend.denomination.toInt != txin.nSequence)
          "Zerocoinspend nSequence denomination does not match CoinSpend" <|
        rejectIf (newSpend.ptxHash != hashTxOut N tx.vout)
          "Zerocoinspend does not use the same txout that was used in the SoK" <|
        rejectIf (fVerifySignature && !N.Z.Verify newSpend)
          "CheckZerocoinSpend(): zerocoin spend did not verify" <|
        rejectIf (serials.contains newSpend.coinSerialNumber)
          "Zerocoinspend serial is used twice in the same tx" <|
        checkZerocoinInputs tx fVerifySignature vin (newSpend.coinSerialNumber :: serials)
          (nTotalRedeemed + newSpend.denomination.toAmount) true

def CheckZerocoinSpend (tx : CTransaction) (fVerifySignature : Bool) : Checked Unit :=
  rejectIf (2 < tx.vout.length && 2 < (tx.vout.filter fun out => !out.IsZerocoinMint).length &&
      !tx.IsCoinStake)
    "CheckZerocoinSpend(): over two non-mint outputs in a zerocoinspend transaction" <|
  checkZerocoinInputs N tx fVerifySignature tx.vin [] 0 false >>=
    fun (nTotalRedeemed, fValidated) =>
  rejectIf (!tx.IsCoinStake && nTotalRedeemed < tx.GetValueOut)
    "Transaction spend more than was redeemed in zerocoins" <|
  rejectIf (!fValidated) "CheckTransaction() : invalid zerocoin spend" <|
  .ok ()

/-- The loop of `CheckTransaction` over the outputs, from the value so far. -/
def checkOutputs (tx : CTransaction) (fZerocoinActive : Bool) :
    List CTxOut → CAmount → Checked Unit
  | [], _ => .ok ()
  | txout :: vout, nValueOut =>
    rejectIf (txout.IsEmpty && !tx.IsCoinBase && !tx.IsCoinStake)
      "CheckTransaction(): txout empty for user transaction" <|
    rejectIf (txout.nValue < 0) "bad-txns-vout-negative" <|
    rejectIf (N.P.nMaxMoneyOut < txout.nValue) "bad-txns-vout-toolarge" <|
    rejectIf (!MoneyRange N.P (nValueOut + txout.nValue)) "bad-txns-txouttotal-toolarge" <|
    rejectIf (fZerocoinActive && txout.IsZerocoinMint &&
        !((TxOutToPublicCoin N.Z txout).any N.Z.validate))
      "CheckTransaction() : invalid zerocoin mint" <|
    checkOutputs tx fZerocoinActive vout (nValueOut + txout.nValue)

/-- The inputs that carry no zerocoin spend name different outputs, and none of the
others names an output before it. -/
def hasDuplicateInputs : List CTxIn → List COutPoint → Bool
  | [], _ => false
  | txin :: vin, vInOutPoints =>
    vInOutPoints.contains txin.prevout ||
      hasDuplicateInputs vin
        (if txin.scriptSig.IsZerocoinSpend then vInOutPoints else txin.prevout :: vInOutPoints)

def CheckTransaction (tx : CTransaction) (fZerocoinActive : Bool) : Checked Unit :=
  rejectIf tx.vin.isEmpty "bad-txns-vin-empty" <|
  rejectIf tx.vout.isEmpty "bad-txns-vout-empty" <|
  rejectIf (MAX_ZEROCOIN_TX_SIZE < tx.ser.length) "bad-txns-oversize" <|
  checkOutputs N tx fZerocoinActive tx.vout 0 >>= fun _ =>
  rejectIf (fZerocoinActive && N.P.nMaxZerocoinSpendsPerTransaction <
      (tx.vout.filter fun out => out.scriptPubKey.IsZerocoinSpend).length)
    "CheckTransaction() : there are more zerocoin spends than are allowed in one transaction" <|
  (if fZerocoinActive && tx.IsZerocoinSpend then
    rejectIf (tx.vin.any fun txin => !txin.scriptSig.IsZerocoinSpend)
      "CheckTransaction() : zerocoinspend contains inputs that are not zerocoins" <|
    -- no signature verification during initial sync or for a tip over 24 hours old
    let fVerifySignature := !N.IsInitialBlockDownload &&
      (N.chainTip.any fun tip => N.time - tip.nTime < 60 * 60 * 24)
    CheckZerocoinSpend N tx fVerifySignature
  else .ok ()) >>= fun _ =>
  rejectIf (hasDuplicateInputs tx.vin []) "bad-txns-inputs-duplicate" <|
  (if tx.IsCoinBase then
    rejectIf (tx.vin.any fun txin =>
        txin.scriptSig.length < 2 || 150 < txin.scriptSig.length) "bad-cb-length" (.ok ())
  else if fZerocoinActive && tx.IsZerocoinSpend then
    rejectIf (N.P.nMaxZerocoinSpendsPerTransaction < tx.vin.length) "bad-zerocoinspend" (.ok ())
  else
    rejectIf (tx.vin.any fun txin =>
        txin.prevout.IsNull && fZerocoinActive && !txin.scriptSig.IsZerocoinSpend)
      "bad-txns-prevout-null" (.ok ()))

/-! ## Blocks -/

def CheckBlockHeader (block : CBlock) (fCheckPOW : Bool) : Checked Unit :=
  rejectIf (fCheckPOW && !N.CheckProofOfWork block) "high-hash" <|
  if N.P.nZerocoinStartTime < block.nTime then
    rejectIf (block.nVersion < N.P.nZerocoinHeaderVersion) "block-version" (.ok ())
  else
    rejectIf (N.P.nZerocoinHeaderVersion ≤ block.nVersion) "block-version" (.ok ())

/-- The serials of a transaction's spends, put in front of those of the block so far. -/
def blockSerials : List CTxIn → List Int → Checked (List Int)
  | [], vBlockSerials => .ok vBlockSerials
  | txIn :: vin, vBlockSerials =>
    if !txIn.scriptSig.IsZerocoinSpend then blockSerials vin vBlockSerials
    else
      match N.Z.TxInToZerocoinSpend txIn with
      | none => .error "CDataStream::read() : end of data"
      | some spend =>
        rejectIf (vBlockSerials.contains spend.coinSerialNumber)
          "Double spending of zDIVIT serial" <|
        blockSerials vin (spend.coinSerialNumber :: vBlockSerials)

/-- The loop of `CheckBlock` over the transactions. -/
def checkTransactions (fZerocoinActive : Bool) : List CTransaction → List Int → Checked Unit
  | [], _ => .ok ()
  | tx :: vtx, vBlockSerials =>
    CheckTransaction N tx fZerocoinActive >>= fun _ =>
    (if tx.IsZerocoinSpend then blockSerials N tx.vin vBlockSerials
      else .ok vBlockSerials) >>= fun vBlockSerials =>
    checkTransactions fZerocoinActive vtx vBlockSerials

/-- The height a block has by its previous block, 0 when that is not known. -/
def heightByPrev (block : CBlock) (tip : CBlockIndex) : Int :=
  if tip.phashBlock = some block.hashPrevBlock then tip.nHeight + 1
  else
    match N.mapBlockIndex block.hashPrevBlock with
    | some nHeight => nHeight + 1
    | none => 0

def CheckBlock (block : CBlock) (fCheckPOW fCheckMerkleRoot : Bool) : Checked Unit :=
  CheckBlockHeader N block (block.IsProofOfWork && fCheckPOW) >>= fun _ =>
  rejectIf (N.adjustedTime + (if block.IsProofOfStake then 180 else 7200) < block.nTime)
    "time-too-new" <|
  rejectIf (fCheckMerkleRoot && !N.merkleRootMatches block) "bad-txnmrklroot" <|
  rejectIf (block.vtx.isEmpty || MAX_BLOCK_SIZE_CURRENT < block.vtx.length ||
      MAX_BLOCK_SIZE_CURRENT < block.GetSerializeSize) "bad-blk-length" <|
  rejectIf (!block.vtx.head?.any CTransaction.IsCoinBase) "bad-cb-missing" <|
  rejectIf (block.vtx.tail.any CTransaction.IsCoinBase) "bad-cb-multiple" <|
  rejectIf (block.IsProofOfStake && !block.vtx.head?.any fun tx =>
      tx.vout.length == 1 && tx.vout.all CTxOut.IsEmpty)
    "CheckBlock() : coinbase output not empty for proof-of-stake block" <|
  rejectIf (block.IsProofOfStake && (block.vtx.drop 2).any CTransaction.IsCoinStake)
    "CheckBlock() : more than one coinstake" <|
  rejectIf (IsSporkActive N.sporks N.time SPORK_3_SWIFTTX_BLOCK_FILTERING && block.vtx.any fun tx =>
      !tx.IsCoinBase && tx.vin.any fun txin =>
        (N.mapLockedInputs txin.prevout).any (· != tx.hash)) "conflicting-tx-ix" <|
  rejectIf (N.chainTip.any fun tip => heightByPrev N block tip != 0 &&
      !N.IsInitialBlockDownload && !N.IsBlockPayeeValid block (heightByPrev N block tip))
    "bad-cb-payee" <|
  let fZerocoinActive := decide (N.P.nZerocoinStartTime < block.nTime)
  checkTransactions N fZerocoinActive block.vtx [] >>= fun _ =>
  rejectIf ((if fZerocoinActive then MAX_BLOCK_SIGOPS_CURRENT else MAX_BLOCK_SIGOPS_LEGACY) <
      (block.vtx.map N.GetLegacySigOpCount).sum) "bad-blk-sigops" <|
  .ok ()

end

end Divitae
