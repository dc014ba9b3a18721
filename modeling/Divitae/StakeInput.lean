/-
# `StakeInput` — what is staked, and the two sides that hash it

A stake is an output of a transaction (`CVitStake`) or a zerocoin (`CZVitStake`).  Each
knows the block it is from, its value, a modifier later than that block and what makes
it unique.  The producer looks for a time at which the hash of these meets the target
(`Stake`); the validator builds the stake from the coinstake of a block and hashes once
(`CheckProofOfStake`).  `CheckStake` is common to both.
-/
import Divitae.Kernel

namespace Divitae

def nStakeMinAge : BitVec 32 := 1 * 60 * 60

/-- `CChain`.  `SetTip` fills `vChain` so that a block stands at its height. -/
structure CChain where
  vChain : List KernelIndex
  heights : ∀ (i : Nat) (pindex : KernelIndex),
    vChain[i]? = some pindex → pindex.nHeight = (i : Int)

namespace CChain

variable (chain : CChain)

/-- `operator[]`. -/
def at' (nHeight : Int) : Option KernelIndex :=
  if nHeight < 0 then none else chain.vChain[nHeight.toNat]?

def Height : Int := (chain.vChain.length : Int) - 1

def Contains (pindex : KernelIndex) : Bool := chain.at' pindex.nHeight == some pindex

def from' (nHeight : Int) : List KernelIndex :=
  if nHeight < 0 then [] else chain.vChain.drop nHeight.toNat

end CChain

/-- What staking reads of the node.  The block stored where an index entry points to is
the entry's. -/
structure StakeNode where
  P : CChainParams
  C : Crypto
  Z : Zerocoin
  chainActive : CChain
  mapBlockIndex : uint256 → Option KernelIndex
  GetTransaction : uint256 → Option (CTransaction × uint256) -- with the hash of its block
  /-- `VerifyScript` of an input of a transaction against the script it spends -/
  VerifyScript : CTransaction → CTxIn → CScript → Bool
  /-- `nTime` of the block `ReadBlockFromDisk` reads -/
  ReadBlockFromDisk : KernelIndex → Option (BitVec 32)
  stored : ∀ (pindex : KernelIndex) (nTime : BitVec 32),
    ReadBlockFromDisk pindex = some nTime → nTime = pindex.nTime

/-! ## The stakes -/

inductive StakeInput where
  /-- `CVitStake`: `txFrom`, `nPosition` -/
  | vit (txFrom : CTransaction) (nPosition : Nat)
  /-- `CZVitStake`: `nChecksum`, `fMint`, `denom`, `hashSerial` -/
  | zvit (nChecksum : BitVec 32) (fMint : Bool) (denom : CoinDenomination) (hashSerial : uint256)
  deriving DecidableEq

section
variable (N : StakeNode)

def ParseChecksum (nChecksum : uint256) (denomination : CoinDenomination) : BitVec 32 :=
  let pos := CoinDenomination.zerocoinDenomList.idxOf denomination
  if pos < 8 then (nChecksum >>> (32 * (7 - pos))).setWidth 32 else 0

/-- The search of `GetChecksumHeight` along the active chain; `nSkip` blocks are passed
over, since checkpoints only change every 10 blocks. -/
def checksumHeight (nChecksum : BitVec 32) (denomination : CoinDenomination) (nHeightTip : Int) :
    Nat → List KernelIndex → Int
  | _, [] => 0
  | nSkip + 1, _ :: next => checksumHeight nChecksum denomination nHeightTip nSkip next
  | 0, pindex :: next =>
    if ParseChecksum pindex.nAccumulatorCheckpoint denomination = nChecksum then pindex.nHeight
    else if pindex.nHeight.tmod 10 = 0 then
      if pindex.nHeight + 10 > nHeightTip then 0
      else checksumHeight nChecksum denomination nHeightTip 9 next
    else checksumHeight nChecksum denomination nHeightTip 0 next

def GetChecksumHeight (nChecksum : BitVec 32) (denomination : CoinDenomination) : Int :=
  checksumHeight nChecksum denomination N.chainActive.Height 0
    (N.chainActive.from' N.P.nZerocoinStartHeight)

/-- `GetChecksumHeightFromMint`.  The chain has to reach back that far. -/
def GetChecksumHeightFromMint (denom : CoinDenomination) : Int :=
  match N.chainActive.at' (N.chainActive.Height - N.P.nZerocoinRequiredStakeDepth) with
  | none => 0
  | some pindex => GetChecksumHeight N (ParseChecksum pindex.nAccumulatorCheckpoint denom) denom

/-- The loop of `GetKernelStakeModifier`, from a block whose modifier is of `nStakeModifierTime`
along the active chain behind it. -/
def kernelModifierLoop (nTimeEnd : Int) : Int → KernelIndex → List KernelIndex → Option (BitVec 64)
  | nStakeModifierTime, pindex, [] =>
    if nStakeModifierTime < nTimeEnd then none else some pindex.nStakeModifier
  | nStakeModifierTime, pindex, pindexNext :: next =>
    if nStakeModifierTime < nTimeEnd then
      kernelModifierLoop nTimeEnd
        (if pindexNext.fGeneratedStakeModifier then pindexNext.GetBlockTime else nStakeModifierTime)
        pindexNext next
    else some pindex.nStakeModifier

/-- The modifier about a selection interval later than the coin. -/
def GetKernelStakeModifier (hashBlockFrom : uint256) : Option (BitVec 64) :=
  match N.mapBlockIndex hashBlockFrom with
  | none => none -- block not indexed
  | some pindexFrom =>
    kernelModifierLoop (pindexFrom.GetBlockTime + GetStakeModifierSelectionInterval)
      pindexFrom.GetBlockTime pindexFrom (N.chainActive.from' (pindexFrom.nHeight + 1))

/-- The checkpoint of the first block more than 60 minutes after the block staked from. -/
def checkpointModifierLoop (nTimeBlockFrom : Int) : List KernelIndex → Option (BitVec 64)
  | [] => none
  | pindex :: next =>
    if pindex.GetBlockTime - nTimeBlockFrom > 60 * 60 then
      some (pindex.nAccumulatorCheckpoint.setWidth 64)
    else checkpointModifierLoop nTimeBlockFrom next

namespace StakeInput

def IsZPIV : StakeInput → Bool
  | vit .. => false
  | zvit .. => true

/-- `GetIndexFrom`: the block the coin was added to the chain in, or the first one with
the zerocoin's accumulator checksum. -/
def GetIndexFrom : StakeInput → Option KernelIndex
  | vit txFrom _ =>
    match N.GetTransaction txFrom.hash with
    | none => none
    | some (_, hashBlock) =>
      match N.mapBlockIndex hashBlock with
      | none => none
      | some pindex => if N.chainActive.Contains pindex then some pindex else none
  | zvit nChecksum fMint denom _ =>
    let nHeightChecksum :=
      if fMint then GetChecksumHeightFromMint N denom else GetChecksumHeight N nChecksum denom
    if nHeightChecksum < N.P.nZerocoinStartHeight ∨ nHeightChecksum > N.chainActive.Height then
      none
    else N.chainActive.at' nHeightChecksum

def GetValue : StakeInput → CAmount
  | vit txFrom nPosition => (txFrom.vout[nPosition]?).elim 0 CTxOut.nValue
  | zvit _ _ denom _ => denom.toInt * COIN

def GetModifier (stake : StakeInput) : Option (BitVec 64) :=
  match stake.GetIndexFrom N with
  | none => none
  | some pindex =>
    match stake with
    | vit .. => GetKernelStakeModifier N pindex.hash
    | zvit .. =>
      checkpointModifierLoop pindex.GetBlockTime (N.chainActive.from' pindex.nHeight)

/-- `GetUniqueness`: the outpoint, or the hash of the serial. -/
def GetUniqueness : StakeInput → List UInt8
  | vit txFrom nPosition => leBytes 4 nPosition ++ serUint256 txFrom.hash
  | zvit _ _ _ hashSerial => serUint256 hashSerial

/-- `CZVitStake(const CoinSpend&)`. -/
def ofSpend (C : Crypto) (spend : CoinSpend) : StakeInput :=
  .zvit (BitVec.ofNat 32 spend.accChecksum) false spend.denomination
    (C.hash256 (serUint256 (BitVec.ofNat 256 spend.coinSerialNumber.natAbs)))

end StakeInput

/-! ## The hash and its target -/

/-- `uint256::SetCompact`. -/
def SetCompact (nCompact : BitVec 32) : uint256 :=
  let nSize := (nCompact >>> 24).toNat
  let nWord := nCompact &&& 0x007fffff
  if nSize ≤ 3 then (nWord >>> (8 * (3 - nSize))).setWidth 256
  else nWord.setWidth 256 <<< (8 * (nSize - 3))

def stakeTargetHit (hashProofOfStake : uint256) (nValueIn : CAmount)
    (bnTargetPerCoinDay : uint256) :
    Bool :=
  let bnCoinDayWeight := (BitVec.ofInt 64 nValueIn).setWidth 256 / 100
  hashProofOfStake < bnCoinDayWeight * bnTargetPerCoinDay

/-- The hash `CheckStake` computes. -/
def kernelHash (C : Crypto) (ssUniqueID : List UInt8) (nStakeModifier : BitVec 64)
    (nTimeBlockFrom nTimeTx : BitVec 32) : uint256 :=
  C.hash256 (leBytes 8 nStakeModifier.toNat ++ leBytes 4 nTimeBlockFrom.toNat ++ ssUniqueID ++
    leBytes 4 nTimeTx.toNat)

def CheckStake (C : Crypto) (ssUniqueID : List UInt8) (nValueIn : CAmount)
    (nStakeModifier : BitVec 64) (bnTarget : uint256) (nTimeBlockFrom nTimeTx : BitVec 32) : Bool :=
  stakeTargetHit (kernelHash C ssUniqueID nStakeModifier nTimeBlockFrom nTimeTx) nValueIn bnTarget

def nHashDrift : Nat := 30

/-- The rounds of `Stake`: the time of round `i` is `nHashDrift - i` after `nTimeTx`.
A block that comes in ends them. -/
def stakeRounds (ssUniqueID : List UInt8) (nValueIn : CAmount) (nStakeModifier : BitVec 64)
    (bnTarget : uint256) (nTimeBlockFrom nTimeTx : BitVec 32) (newBlock : Nat → Bool) :
    List Nat → Option (BitVec 32 × uint256)
  | [] => none
  | i :: rounds =>
    if newBlock i then none -- new block came in, move on
    else
      let nTryTime := nTimeTx + BitVec.ofNat 32 nHashDrift - BitVec.ofNat 32 i
      if CheckStake N.C ssUniqueID nValueIn nStakeModifier bnTarget nTimeBlockFrom nTryTime then
        some (nTryTime, kernelHash N.C ssUniqueID nStakeModifier nTimeBlockFrom nTryTime)
      else
        stakeRounds ssUniqueID nValueIn nStakeModifier bnTarget nTimeBlockFrom nTimeTx newBlock
          rounds

/-- `Stake`: the time found and the proof-of-stake hash. -/
def Stake (stakeInput : StakeInput) (nBits nTimeBlockFrom nTimeTx : BitVec 32)
    (newBlock : Nat → Bool) : Option (BitVec 32 × uint256) :=
  if nTimeTx < nTimeBlockFrom then none -- nTime violation
  else if nTimeBlockFrom + nStakeMinAge > nTimeTx then none -- min age violation
  else
    match stakeInput.GetModifier N with
    | none => none -- failed to get kernel stake modifier
    | some nStakeModifier =>
      stakeRounds N stakeInput.GetUniqueness stakeInput.GetValue nStakeModifier
        (SetCompact nBits) nTimeBlockFrom nTimeTx newBlock (List.range nHashDrift)

/-- The stake `CheckProofOfStake` builds from a coinstake. -/
def stakeOf (tx : CTransaction) : Option StakeInput :=
  match tx.vin with
  | [] => none
  | txin :: _ =>
    if tx.IsZerocoinSpend then
      match N.Z.TxInToZerocoinSpend txin with
      | none => none
      | some spend =>
        if spend.spendType ≠ .STAKE then none -- wrong SpendType
        else some (.ofSpend N.C spend)
    else
      match N.GetTransaction txin.prevout.hash with
      | none => none -- read txPrev failed
      | some (txPrev, _) =>
        match txPrev.vout[txin.prevout.n]? with
        | none => none -- the source reads out of bounds
        | some txout =>
          if !N.VerifyScript tx txin txout.scriptPubKey then none
          else some (.vit txPrev txin.prevout.n)

/-- `CheckProofOfStake`: the proof-of-stake hash and the stake. -/
def CheckProofOfStake (block : CStakeBlock) : Option (uint256 × StakeInput) :=
  match block.vtx[1]? with
  | none => none
  | some tx =>
    if !tx.IsCoinStake then none
    else
      match stakeOf N tx with
      | none => none
      | some stake =>
        match stake.GetIndexFrom N with
        | none => none -- failed to find the block index
        | some pindex =>
          match N.ReadBlockFromDisk pindex with
          | none => none
          | some nBlockFromTime =>
            match stake.GetModifier N with
            | none => none
            | some nStakeModifier =>
              let nTxTime := BitVec.ofInt 32 block.nTime
              if CheckStake N.C stake.GetUniqueness stake.GetValue nStakeModifier
                  (SetCompact block.nBits) nBlockFromTime nTxTime then
                some (kernelHash N.C stake.GetUniqueness nStakeModifier nBlockFromTime
                  nTxTime, stake)
              else none

end

end Divitae
