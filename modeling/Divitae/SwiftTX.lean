/-
# `SwiftTX` — transaction locks

A request (`ix`) asks the network to lock the inputs of a transaction; the ten best
ranked prosperitynodes vote on it (`txlvote`), and six votes for the height of the lock
complete it.  The handlers share six maps,

    mapTxLockReq           requests whose transaction went into the memory pool
    mapTxLockReqRejected   requests whose transaction did not
    mapTxLockVote          every vote seen, under voter + transaction
    mapTxLocks             the locks: height, expiry and the votes received
    mapLockedInputs        for an outpoint the transaction it is locked to
    mapUnknownVotes        for a voter when it may vote on an unknown request again

and requests and votes may come in any order: the first one to name a transaction
creates its lock, a vote does so with height 0.  The memory pool, the ranks and the age
of an input are answers of the rest of the node.
-/
import Divitae.ProsperitynodePayments
import Divitae.Spork
import Mathlib.Data.List.AList

namespace Divitae

def SWIFTTX_SIGNATURES_REQUIRED : Int := 6
def SWIFTTX_SIGNATURES_TOTAL : Int := 10
def MIN_SWIFTTX_PROTO_VERSION : Int := 70103

def SPORK_2_SWIFTTX : Int := 10001
def SPORK_5_MAX_VALUE : Int := 10004

/-! ## The scripts a request may pay to -/

namespace CScript

def OP_PUSHDATA1 : UInt8 := 0x4c
def OP_PUSHDATA2 : UInt8 := 0x4d
def OP_PUSHDATA4 : UInt8 := 0x4e
def OP_INVALIDOPCODE : UInt8 := 0xff

/-- `GetOp`: the opcode read and what is left to read.  A push that runs over the end
gives `OP_INVALIDOPCODE`, with its header read. -/
def GetOp : CScript → UInt8 × CScript
  | [] => (OP_INVALIDOPCODE, [])
  | opcode :: pc =>
    if opcode ≤ OP_PUSHDATA4 then
      let nHeader :=
        if opcode < OP_PUSHDATA1 then 0
        else if opcode = OP_PUSHDATA1 then 1
        else if opcode = OP_PUSHDATA2 then 2
        else 4
      if pc.length < nHeader then (OP_INVALIDOPCODE, pc)
      else
        let nSize :=
          if opcode < OP_PUSHDATA1 then opcode.toNat
          else (pc.take nHeader).foldr (fun b n => n * 256 + b.toNat) 0
        let pc := pc.drop nHeader
        if pc.length < nSize then (OP_INVALIDOPCODE, pc) else (opcode, pc.drop nSize)
    else (opcode, pc)

/-- The loop of `IsNormalPaymentScript`: the third operation may be any. -/
def matchesOps : List (Option UInt8) → CScript → Bool
  | _, [] => true
  | [], _ :: _ => false
  | op :: ops, b :: pc =>
    let (opcode, rest) := GetOp (b :: pc)
    op.all (· == opcode) && matchesOps ops rest

def IsNormalPaymentScript (script : CScript) : Bool :=
  script.length == 25 &&
    matchesOps [some OP_DUP, some OP_HASH160, none, some OP_EQUALVERIFY, some OP_CHECKSIG] script

end CScript

/-! ## Votes and locks -/

structure CConsensusVote where
  vinProsperitynode : CTxIn
  txHash : uint256
  nBlockHeight : Int
  vchFundamentalNodeSignature : List UInt8
  deriving DecidableEq

structure CTransactionLock where
  nBlockHeight : Int
  txHash : uint256
  vecConsensusVotes : List CConsensusVote
  nExpiration : Int
  nTimeout : Int
  deriving DecidableEq

/-- `CTransaction()`. -/
def CTransaction.default : CTransaction := ⟨0, 1, [], [], 0⟩

inductive InvType where
  | MSG_TXLOCK_REQUEST
  | MSG_TXLOCK_VOTE
  deriving DecidableEq

/-- `std::map<uint256, ν>` where the source walks over it. -/
abbrev TxMap (ν : Type) := AList fun _ : uint256 => ν

structure SwiftTX where
  mapTxLockReq : uint256 → Option CTransaction
  mapTxLockReqRejected : uint256 → Option CTransaction
  mapTxLockVote : uint256 → Option CConsensusVote
  mapTxLocks : TxMap CTransactionLock
  mapLockedInputs : COutPoint → Option uint256
  mapUnknownVotes : TxMap Int
  relayed : List (InvType × uint256) -- what `RelayInv` was called with, newest first

/-- What the rest of the node answers while a message is worked on. -/
structure SwiftEnv extends NodeEnv where
  nodes : CProsperitynodeMan -- `mnodeman`
  rank : CTxIn → Int → Int → Int -- `GetProsperitynodeRank`
  sporks : SporkState
  mempoolAccepts : CTransaction → Bool -- the checks of `AcceptToMemoryPool` but the locks
  activeTxIn : CTxIn -- `activeProsperitynode.vin`
  activeKeys : Option (CKey × CPubKey) -- `SetKey(strFundamentalNodePrivKey)`

namespace CConsensusVote

variable (C : Crypto) (env : SwiftEnv) (v : CConsensusVote)

/-- Neither the height nor the signature is in it. -/
def GetHash : uint256 :=
  v.vinProsperitynode.prevout.hash + BitVec.ofNat 256 v.vinProsperitynode.prevout.n + v.txHash

def strMessage : List UInt8 := GetHex v.txHash ++ Decimal.ofInt v.nBlockHeight

def SignatureValid : Bool :=
  match env.nodes.Find v.vinProsperitynode with
  | none => false
  | some pmn =>
    C.VerifyMessage pmn.pubKeyProsperitynode v.vchFundamentalNodeSignature v.strMessage

/-- `Sign`: the vote with its signature, when that verifies. -/
def Sign : Option CConsensusVote :=
  match env.activeKeys with
  | none => none
  | some (key2, pubkey2) =>
    match C.SignMessage v.strMessage key2 with
    | none => none
    | some sig =>
      if C.VerifyMessage pubkey2 sig v.strMessage then
        some { v with vchFundamentalNodeSignature := sig }
      else none

end CConsensusVote

namespace CTransactionLock

variable (l : CTransactionLock)

def AddSignature (cv : CConsensusVote) : CTransactionLock :=
  { l with vecConsensusVotes := l.vecConsensusVotes ++ [cv] }

/-- Only signatures for the height of the lock count, and none as long as it has none. -/
def CountSignatures : Int :=
  if l.nBlockHeight = 0 then -1
  else (l.vecConsensusVotes.filter (·.nBlockHeight == l.nBlockHeight)).length

end CTransactionLock

/-- `IsIXTXValid`.  A transaction with an unknown input passes without the fee check. -/
def IsIXTXValid (env : SwiftEnv) (txCollateral : CTransaction) : Bool :=
  if txCollateral.vout.length < 1 then false
  else if txCollateral.nLockTime ≠ 0 then false
  else
    let sum (values : List CAmount) : CAmount :=
      values.foldl (fun n nValue => Wrap.wrap64 (n + nValue)) 0
    let nValueOut := sum (txCollateral.vout.map CTxOut.nValue)
    let nValueIn := sum (txCollateral.vin.map fun i =>
      match env.getTransaction i.prevout.hash with
      | some (tx2, _) => (tx2.vout[i.prevout.n]?).elim 0 CTxOut.nValue
      | none => 0)
    let missingTx := txCollateral.vin.any fun i => (env.getTransaction i.prevout.hash).isNone
    if nValueOut > Wrap.wrap64 (GetSporkValue env.sporks SPORK_5_MAX_VALUE * COIN) then false
    else if missingTx then true
    else !(Wrap.wrap64 (nValueIn - nValueOut) < 1000000) -- COIN * 0.01

namespace SwiftTX

def empty : SwiftTX := ⟨fun _ => none, fun _ => none, fun _ => none, ∅, fun _ => none, ∅, []⟩

variable (C : Crypto) (env : SwiftEnv) (s : SwiftTX)

/-! ## The locks -/

/-- The height `CreateNewLock` gives the lock of a transaction, three above its first
input; none when an input is too new.  The loop runs from the last input to the first,
so the first one's age is what is left in `nTxAge`. -/
def lockHeight (tx : CTransaction) : Option Int :=
  if tx.vin.any (env.inputAge · < 5) then none
  else some (env.chainHeight - (tx.vin.head?).elim 0 env.inputAge + 4)

/-- The lock both handlers make for a transaction that has none. -/
def newLock (txHash : uint256) (nBlockHeight : Int) : CTransactionLock where
  nBlockHeight := nBlockHeight
  txHash := txHash
  vecConsensusVotes := []
  nExpiration := env.time + 60 * 60
  nTimeout := env.time + 60 * 5

/-- `CreateNewLock`: the height returned, 0 when an input is too new. -/
def CreateNewLock (tx : CTransaction) : SwiftTX × Int :=
  match lockHeight env tx with
  | none => (s, 0)
  | some nBlockHeight =>
    let lock := (s.mapTxLocks.lookup tx.hash).elim (newLock env tx.hash nBlockHeight)
      fun lock => { lock with nBlockHeight := nBlockHeight }
    ({ s with mapTxLocks := s.mapTxLocks.insert tx.hash lock }, nBlockHeight)

/-- The lock of a transaction runs out now. -/
def expireLock (txHash : uint256) : SwiftTX :=
  match s.mapTxLocks.lookup txHash with
  | none => s
  | some lock =>
    { s with mapTxLocks := s.mapTxLocks.insert txHash { lock with nExpiration := env.time } }

/-- An input locked to another transaction, with that transaction: the first one. -/
def conflicting (tx : CTransaction) : Option uint256 :=
  (tx.vin.filterMap fun txin => s.mapLockedInputs txin.prevout).find? (· != tx.hash)

def CheckForConflictingLocks (tx : CTransaction) : SwiftTX × Bool :=
  match s.conflicting tx with
  | none => (s, false)
  | some txOther => ((s.expireLock env tx.hash).expireLock env txOther, true)

/-- Both handlers lock the inputs that are not locked yet. -/
def lockInputs (tx : CTransaction) (txHash : uint256) : SwiftTX :=
  { s with
    mapLockedInputs :=
      (tx.vin.map CTxIn.prevout).foldl (fun m o => mapInsert m o txHash) s.mapLockedInputs }

def RelayInv (type : InvType) (hash : uint256) : SwiftTX :=
  { s with relayed := (type, hash) :: s.relayed }

/-! ## `ix` -/

def AcceptToMemoryPool (tx : CTransaction) : Bool :=
  (s.conflicting tx).isNone && env.mempoolAccepts tx

def DoConsensusVote (tx : CTransaction) (nBlockHeight : Int) : SwiftTX :=
  if !env.fFundamentalNode then s
  else
    let n := env.rank env.activeTxIn nBlockHeight MIN_SWIFTTX_PROTO_VERSION
    if n = -1 then s
    else if n > SWIFTTX_SIGNATURES_TOTAL then s
    else
      match CConsensusVote.Sign C env ⟨env.activeTxIn, tx.hash, nBlockHeight, []⟩ with
      | none => s
      | some ctx =>
        if !ctx.SignatureValid C env then s
        else
          { s with
            mapTxLockVote := Function.update s.mapTxLockVote ctx.GetHash (some ctx) }.RelayInv
            .MSG_TXLOCK_VOTE ctx.GetHash

/-- `ix`, where the memory pool takes the transaction. -/
def acceptRequest (tx : CTransaction) (nBlockHeight : Int) : SwiftTX :=
  let s := (s.RelayInv .MSG_TXLOCK_REQUEST tx.hash).DoConsensusVote C env tx nBlockHeight
  { s with mapTxLockReq := mapInsert s.mapTxLockReq tx.hash tx }

/-- `ix`, where the memory pool refuses it. -/
def rejectRequest (tx : CTransaction) : SwiftTX :=
  let s := { s with mapTxLockReqRejected := mapInsert s.mapTxLockReqRejected tx.hash tx }
  let s := s.lockInputs tx tx.hash
  -- resolve conflicts, only with a complete lock
  if (s.mapTxLocks.lookup tx.hash).any (·.CountSignatures ≥ SWIFTTX_SIGNATURES_REQUIRED) then
    let (s, fConflict) := s.CheckForConflictingLocks env tx
    if !fConflict then { s with mapTxLockReq := mapInsert s.mapTxLockReq tx.hash tx } else s
  else s

/-- The checks `ix` makes before it works on a request. -/
def takesUp (tx : CTransaction) : Bool :=
  (s.mapTxLockReq tx.hash).isNone && (s.mapTxLockReqRejected tx.hash).isNone &&
    IsIXTXValid env tx &&
    tx.vout.all fun o => o.scriptPubKey.IsNormalPaymentScript || o.scriptPubKey.IsUnspendable

def ProcessTxLockRequest (tx : CTransaction) : SwiftTX :=
  if !s.takesUp env tx then s
  else
    let (s, nBlockHeight) := s.CreateNewLock env tx
    if s.AcceptToMemoryPool env tx then s.acceptRequest C env tx nBlockHeight
    else s.rejectRequest env tx

/-! ## `txlvote` -/

/-- What `ProcessConsensusVote` asks of a vote before it counts it. -/
def countable (ctx : CConsensusVote) : Bool :=
  let n := env.rank ctx.vinProsperitynode ctx.nBlockHeight MIN_SWIFTTX_PROTO_VERSION
  n != -1 && !(n > SWIFTTX_SIGNATURES_TOTAL) && ctx.SignatureValid C env

/-- The vote goes to the lock of its transaction, a new one of height 0 if need be. -/
def addVote (ctx : CConsensusVote) : SwiftTX :=
  { s with
    mapTxLocks :=
      s.mapTxLocks.insert ctx.txHash
        (((s.mapTxLocks.lookup ctx.txHash).getD (newLock env ctx.txHash 0)).AddSignature ctx) }

/-- `ProcessConsensusVote` with a complete lock.  `mapTxLockReq[ctx.txHash]` leaves an
empty transaction behind where there is no request. -/
def completeLock (txHash : uint256) : SwiftTX :=
  let tx := (s.mapTxLockReq txHash).getD .default
  let s := { s with mapTxLockReq := mapInsert s.mapTxLockReq txHash .default }
  let (s, fConflict) := s.CheckForConflictingLocks env tx
  if !fConflict then s.lockInputs tx txHash else s

def ProcessConsensusVote (ctx : CConsensusVote) : SwiftTX × Bool :=
  if !countable C env ctx then (s, false)
  else
    let s := s.addVote env ctx
    if (s.mapTxLocks.lookup ctx.txHash).any (·.CountSignatures ≥ SWIFTTX_SIGNATURES_REQUIRED) then
      (s.completeLock env ctx.txHash, true)
    else (s, true)

def GetAverageVoteTime (mapUnknownVotes : TxMap Int) : Int :=
  ((mapUnknownVotes.entries.map Sigma.snd).sum).tdiv mapUnknownVotes.entries.length

/-- Votes on unknown requests are let through at the rate of the rest of the network. -/
def limitUnknownVote (ctx : CConsensusVote) : SwiftTX × Bool :=
  let key := ctx.vinProsperitynode.prevout.hash
  let nNext := env.time + 60 * 10
  let m := if (s.mapUnknownVotes.lookup key).isNone then s.mapUnknownVotes.insert key nNext
    else s.mapUnknownVotes
  let t := (m.lookup key).getD 0
  if t > env.time ∧ t - GetAverageVoteTime m > 60 * 10 then ({ s with mapUnknownVotes := m }, false)
  else ({ s with mapUnknownVotes := m.insert key nNext }, true)

def ProcessTxLockVote (ctx : CConsensusVote) : SwiftTX :=
  if (s.mapTxLockVote ctx.GetHash).isSome then s
  else
    let s := { s with mapTxLockVote := mapInsert s.mapTxLockVote ctx.GetHash ctx }
    let (s, fProcessed) := s.ProcessConsensusVote C env ctx
    if !fProcessed then s
    else
      let (s, fRelay) :=
        if (s.mapTxLockReq ctx.txHash).isNone && (s.mapTxLockReqRejected ctx.txHash).isNone then
          s.limitUnknownVote env ctx
        else (s, true)
      if fRelay then s.RelayInv .MSG_TXLOCK_VOTE ctx.GetHash else s

/-! ## The clean-up -/

def expired (lock : CTransactionLock) : Bool := env.time > lock.nExpiration

/-- An expired lock leaves; with its request known, the inputs of the request are
unlocked and the request and its votes are forgotten. -/
def removeLock (s : SwiftTX) (key : uint256) (lock : CTransactionLock) : SwiftTX :=
  let s :=
    match s.mapTxLockReq lock.txHash with
    | none => s
    | some tx =>
      { s with
        mapLockedInputs :=
          (tx.vin.map CTxIn.prevout).foldl (fun m o => Function.update m o none) s.mapLockedInputs
        mapTxLockReq := Function.update s.mapTxLockReq lock.txHash none
        mapTxLockReqRejected := Function.update s.mapTxLockReqRejected lock.txHash none
        mapTxLockVote :=
          (lock.vecConsensusVotes.map CConsensusVote.GetHash).foldl
            (fun m h => Function.update m h none) s.mapTxLockVote }
  { s with mapTxLocks := s.mapTxLocks.erase key }

def CleanTransactionLocksList : SwiftTX :=
  if env.chainHeight = -1 then s -- no tip
  else
    (s.mapTxLocks.entries.filter fun it => expired env it.2).foldl
      (fun s it => s.removeLock it.1 it.2) s

end SwiftTX

/-- What can happen to the locks of a node. -/
inductive SwiftEvent where
  | ix (env : SwiftEnv) (tx : CTransaction)
  | txlvote (env : SwiftEnv) (ctx : CConsensusVote)
  | clean (env : SwiftEnv)

/-- `ProcessMessageSwiftTX` gets past its first lines. -/
def SwiftEnv.active (env : SwiftEnv) : Bool :=
  !env.fLiteMode && IsSporkActive env.sporks env.adjustedTime SPORK_2_SWIFTTX &&
    env.isBlockchainSynced

def swiftStep (C : Crypto) (s : SwiftTX) : SwiftEvent → SwiftTX
  | .ix env tx => if env.active then s.ProcessTxLockRequest C env tx else s
  | .txlvote env ctx => if env.active then s.ProcessTxLockVote C env ctx else s
  | .clean env => s.CleanTransactionLocksList env

end Divitae
