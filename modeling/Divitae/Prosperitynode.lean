/-
# `Prosperitynode` — announcements, pings and the list of prosperitynodes

A prosperitynode is announced by a broadcast (`fnb`): the outpoint of its collateral,
its address, the collateral key and the node key, signed by the collateral key.  The
list keeps one entry for each outpoint; pings (`fnp`) keep entries alive, the clean-up
drops dead ones.  The announcement is checked in three places,

    CheckAndUpdate              times, versions, the signature; updates a listed node
    IsVinAssociatedWithPubkey   the collateral transaction pays the collateral key
    CheckInputsAndAdd           the burn, the age of the input; appends to the list

and `ProcessMessage` calls them in that order.  What these functions ask of the rest of
the node — clocks, transactions by hash, the active chain — is the record `NodeEnv`.
-/
import Divitae.NetAddress
import Divitae.Transaction

namespace Divitae

def PROSPERITYNODE_AMOUNT : CAmount := 2500 * COIN
def FN_MAGIC_AMOUNT : CAmount := 12340000 -- 0.1234 * COIN

def PROSPERITYNODE_MIN_CONFIRMATIONS : Int := 15
def PROSPERITYNODE_MIN_MNP_SECONDS : Int := 10 * 60
def PROSPERITYNODE_MIN_MNB_SECONDS : Int := 5 * 60
def PROSPERITYNODE_EXPIRATION_SECONDS : Int := 120 * 60
def PROSPERITYNODE_REMOVAL_SECONDS : Int := 130 * 60
def PROSPERITYNODE_CHECK_SECONDS : Int := 5

def MIN_PEER_MNANNOUNCE : Int := 71024
def PROTOCOL_VERSION : Int := 71024

/-- Code outside the model that writes texts. -/
structure Texts where
  getnameinfo : CNetAddr → Option (List UInt8)
  scriptToString : CScript → List UInt8 -- `CScript::ToString`, a disassembly

def ascii (s : String) : List UInt8 := s.toList.map fun c => UInt8.ofNat c.toNat

def HexStr (s : List UInt8) : List UInt8 :=
  s.flatMap fun b => [hexDigit (b.toNat / 16), hexDigit (b.toNat % 16)]

def COutPoint.ToString (o : COutPoint) : List UInt8 :=
  ascii "COutPoint(" ++ GetHex o.hash ++ ascii ", " ++ Decimal.ofNat o.n ++ ascii ")"

def CTxIn.ToString (T : Texts) (txin : CTxIn) : List UInt8 :=
  ascii "CTxIn(" ++ txin.prevout.ToString ++
    (if txin.prevout.IsNull then
      if txin.scriptSig.IsZerocoinSpend then
        ascii ", zerocoinspend " ++ (HexStr txin.scriptSig).take 25 ++ ascii "..."
      else ascii ", coinbase " ++ HexStr txin.scriptSig
    else ascii ", scriptSig=" ++ (T.scriptToString txin.scriptSig).take 24) ++
    (if txin.nSequence ≠ 0xFFFFFFFF then ascii ", nSequence=" ++ Decimal.ofNat txin.nSequence
    else []) ++ ascii ")"

/-! ## Pings and nodes -/

structure CProsperitynodePing where
  vin : CTxIn
  blockHash : uint256
  sigTime : Int
  vchSig : List UInt8
  deriving DecidableEq

namespace CProsperitynodePing

/-- `*this == CProsperitynodePing()`: `operator==` compares input and block hash only. -/
def isDefault (p : CProsperitynodePing) : Bool := p.vin == CTxIn.null && p.blockHash == 0

def GetHash (C : Crypto) (p : CProsperitynodePing) : uint256 :=
  C.hash256 (p.vin.ser ++ leInt 8 p.sigTime)

def strMessage (T : Texts) (p : CProsperitynodePing) : List UInt8 :=
  p.vin.ToString T ++ GetHex p.blockHash ++ Decimal.ofInt p.sigTime

def VerifySignature (C : Crypto) (T : Texts) (p : CProsperitynodePing) (key : CPubKey) : Bool :=
  C.VerifyMessage key p.vchSig (p.strMessage T)

end CProsperitynodePing

/-- `CProsperitynode::state`. -/
inductive NodeState where
  | PRE_ENABLED
  | ENABLED
  | EXPIRED
  | OUTPOINT_SPENT
  | REMOVE
  | WATCHDOG_EXPIRED
  | POSE_BAN
  | VIN_SPENT
  | POS_ERROR
  deriving DecidableEq

structure CProsperitynode where
  vin : CTxIn
  addr : CService
  pubKeyCollateralAddress : CPubKey
  pubKeyProsperitynode : CPubKey
  sig : List UInt8
  sigTime : Int
  lastPing : CProsperitynodePing
  protocolVersion : Int
  activeState : NodeState
  lastTimeChecked : Int
  deriving DecidableEq

/-- The fields a broadcast carries over the wire. -/
structure CProsperitynodeBroadcast where
  vin : CTxIn
  addr : CService
  pubKeyCollateralAddress : CPubKey
  pubKeyProsperitynode : CPubKey
  sig : List UInt8
  sigTime : Int
  lastPing : CProsperitynodePing
  protocolVersion : Int
  deriving DecidableEq

/-- `CProsperitynode(const CProsperitynodeBroadcast&)`: a new node starts enabled. -/
def CProsperitynode.ofBroadcast (mnb : CProsperitynodeBroadcast) : CProsperitynode where
  vin := mnb.vin
  addr := mnb.addr
  pubKeyCollateralAddress := mnb.pubKeyCollateralAddress
  pubKeyProsperitynode := mnb.pubKeyProsperitynode
  sig := mnb.sig
  sigTime := mnb.sigTime
  lastPing := mnb.lastPing
  protocolVersion := mnb.protocolVersion
  activeState := .ENABLED
  lastTimeChecked := 0

/-- What the rest of the node answers while one message is processed. -/
structure NodeEnv where
  fLiteMode : Bool
  isBlockchainSynced : Bool
  shutdownRequested : Bool
  time : Int
  adjustedTime : Int
  minProto : Int -- `GetMinProsperitynodePaymentsProto()`
  getTransaction : uint256 → Option (CTransaction × uint256) -- with the hash of its block
  inputAge : CTxIn → Int
  blockHeight : uint256 → Option Int -- `mapBlockIndex`
  chainHeight : Int
  chainTime : Int → Option Int -- `chainActive[h]->GetBlockTime()`
  lockMain : Bool
  fFundamentalNode : Bool
  activeVin : COutPoint -- of `activeProsperitynode`
  activePubKey : CPubKey

namespace CProsperitynode

variable (env : NodeEnv) (mn : CProsperitynode)

def IsEnabled : Bool := mn.activeState == .ENABLED

def IsBroadcastedWithin (seconds : Int) : Bool := env.adjustedTime - mn.sigTime < seconds

/-- `now` is −1 where the source leaves the argument out. -/
def IsPingedWithin (seconds now : Int) : Bool :=
  let now := if now = -1 then env.adjustedTime else now
  if mn.lastPing.isDefault then false else now - mn.lastPing.sigTime < seconds

def Check (forceCheck : Bool) : CProsperitynode :=
  if env.shutdownRequested then mn
  else if !forceCheck && env.time - mn.lastTimeChecked < PROSPERITYNODE_CHECK_SECONDS then mn
  else
    let mn := { mn with lastTimeChecked := env.time }
    -- once spent, stop doing the checks
    if mn.activeState = .VIN_SPENT then mn
    else if !mn.IsPingedWithin env PROSPERITYNODE_REMOVAL_SECONDS (-1) then
      { mn with activeState := .REMOVE }
    else if !mn.IsPingedWithin env PROSPERITYNODE_EXPIRATION_SECONDS (-1) then
      { mn with activeState := .EXPIRED }
    else if mn.lastPing.sigTime - mn.sigTime < PROSPERITYNODE_MIN_MNP_SECONDS then
      { mn with activeState := .PRE_ENABLED }
    else { mn with activeState := .ENABLED }

end CProsperitynode

/-! ## The list -/

structure CProsperitynodeMan where
  vProsperitynodes : List CProsperitynode
  mapSeenProsperitynodeBroadcast : uint256 → Option CProsperitynodeBroadcast
  mapSeenProsperitynodePing : uint256 → Option CProsperitynodePing

/-- `std::map::insert`: an existing entry stays. -/
def mapInsert {κ ν : Type*} [DecidableEq κ] (m : κ → Option ν) (k : κ) (v : ν) : κ → Option ν :=
  if (m k).isSome then m else Function.update m k (some v)

theorem mapInsert_isSome {κ ν : Type*} [DecidableEq κ] (m : κ → Option ν) (k : κ) (v : ν) (o : κ) :
    (mapInsert m k v o).isSome = true ↔ (m o).isSome = true ∨ k = o := by
  unfold mapInsert
  by_cases hk : (m k).isSome = true
  · rw [if_pos hk]
    constructor
    · exact .inl
    · rintro (ho | rfl)
      · exact ho
      · exact hk
  · rw [if_neg hk]
    by_cases ho : o = k
    · subst ho
      simp
    · rw [Function.update_of_ne ho]
      simp [Ne.symm ho]

/-- The first element with `p`, replaced by what `f` makes of it. -/
def modifyFirst {α : Type*} (p : α → Bool) (f : α → α) : List α → List α
  | [] => []
  | a :: l => if p a then f a :: l else a :: modifyFirst p f l

namespace CProsperitynodeMan

def empty : CProsperitynodeMan := ⟨[], fun _ => none, fun _ => none⟩

variable (s : CProsperitynodeMan)

/-- `Find(const CTxIn&)`. -/
def Find (vin : CTxIn) : Option CProsperitynode :=
  s.vProsperitynodes.find? (·.vin.prevout == vin.prevout)

/-- Writing through the pointer `Find` returns. -/
def update (vin : CTxIn) (f : CProsperitynode → CProsperitynode) : CProsperitynodeMan :=
  { s with vProsperitynodes := modifyFirst (·.vin.prevout == vin.prevout) f s.vProsperitynodes }

def Add (mn : CProsperitynode) : CProsperitynodeMan :=
  if !mn.IsEnabled then s
  else
    match s.Find mn.vin with
    | none => { s with vProsperitynodes := s.vProsperitynodes ++ [mn] }
    | some _ => s

/-- `Remove`: the first entry with this very input. -/
def Remove (vin : CTxIn) : CProsperitynodeMan :=
  { s with vProsperitynodes := s.vProsperitynodes.eraseP (·.vin == vin) }

end CProsperitynodeMan

section
variable (C : Crypto) (T : Texts) (P : CChainParams) (env : NodeEnv)

/-- `CProsperitynodePing::CheckAndUpdate`: new state, result, ban score. -/
def CProsperitynodePing.CheckAndUpdate (s : CProsperitynodeMan) (ping : CProsperitynodePing)
    (fRequireEnabled fCheckSigTimeOnly : Bool) : CProsperitynodeMan × Bool × Nat :=
  if ping.sigTime > env.adjustedTime + 60 * 60 then (s, false, 1)
  else if ping.sigTime ≤ env.adjustedTime - 60 * 60 then (s, false, 1)
  else if fCheckSigTimeOnly then
    match s.Find ping.vin with
    | some pmn =>
      if ping.VerifySignature C T pmn.pubKeyProsperitynode then (s, true, 0) else (s, false, 33)
    | none => (s, true, 0)
  else
    match s.Find ping.vin with
    | none => (s, false, 0)
    | some pmn =>
      if pmn.protocolVersion < env.minProto then (s, false, 0)
      else if fRequireEnabled && !pmn.IsEnabled then (s, false, 0)
      else if pmn.IsPingedWithin env (PROSPERITYNODE_MIN_MNP_SECONDS - 60) ping.sigTime then
        (s, false, 0) -- arrived too early
      else if !ping.VerifySignature C T pmn.pubKeyProsperitynode then (s, false, 33)
      else
        match env.blockHeight ping.blockHash with
        | none => (s, false, 0) -- block hash is unknown
        | some nHeight =>
          if nHeight < env.chainHeight - 24 then (s, false, 0) -- block hash is too old
          else
            let updated := { pmn with lastPing := ping }.Check env true
            let hash := C.hash256 (leInt 8 pmn.sigTime ++
              serString pmn.pubKeyCollateralAddress.bytes)
            let s := s.update ping.vin fun _ => updated
            let s := { s with
              mapSeenProsperitynodeBroadcast :=
                match s.mapSeenProsperitynodeBroadcast hash with
                | none => s.mapSeenProsperitynodeBroadcast
                | some mnb =>
                  Function.update s.mapSeenProsperitynodeBroadcast hash
                    (some { mnb with lastPing := ping }) }
            (s, updated.IsEnabled, 0)

namespace CProsperitynodeBroadcast

variable (b : CProsperitynodeBroadcast)

def GetHash : uint256 := C.hash256 (leInt 8 b.sigTime ++ serString b.pubKeyCollateralAddress.bytes)

/-- Raw keys in the text. -/
def GetOldStrMessage : List UInt8 :=
  b.addr.ToString T.getnameinfo ++ Decimal.ofInt b.sigTime ++ b.pubKeyCollateralAddress.bytes ++
    b.pubKeyProsperitynode.bytes ++ Decimal.ofInt b.protocolVersion

/-- Key IDs in the text. -/
def GetNewStrMessage : List UInt8 :=
  b.addr.ToString T.getnameinfo ++ Decimal.ofInt b.sigTime ++
    GetHex (C.GetID b.pubKeyCollateralAddress) ++ GetHex (C.GetID b.pubKeyProsperitynode) ++
    Decimal.ofInt b.protocolVersion

def VerifySignature : Bool :=
  C.VerifyMessage b.pubKeyCollateralAddress b.sig (b.GetNewStrMessage C T) ||
    C.VerifyMessage b.pubKeyCollateralAddress b.sig (b.GetOldStrMessage T)

/-- The text `Sign` takes at a height of the active chain. -/
def signedText (chainHeight : Int) : List UInt8 :=
  if chainHeight < P.nBlockZerocoinV2 then b.GetOldStrMessage T else b.GetNewStrMessage C T

/-- `Sign`: stamps the broadcast with the time and signs it. -/
def Sign (chainHeight adjustedTime : Int) (keyCollateralAddress : CKey) :
    Option CProsperitynodeBroadcast :=
  let b := { b with sigTime := adjustedTime }
  match C.SignMessage (b.signedText C T P chainHeight) keyCollateralAddress with
  | none => none
  | some sig =>
    if C.VerifyMessage b.pubKeyCollateralAddress sig (b.signedText C T P chainHeight) then
      some { b with sig := sig }
    else none

end CProsperitynodeBroadcast

/-- `CProsperitynode::UpdateFromNewBroadcast` on the listed node `pmn`.  The ping the
broadcast carries is checked after the node has its new keys. -/
def UpdateFromNewBroadcast (s : CProsperitynodeMan) (pmn : CProsperitynode)
    (mnb : CProsperitynodeBroadcast) : CProsperitynodeMan × Bool :=
  if mnb.sigTime > pmn.sigTime then
    let s := s.update pmn.vin fun mn =>
      { mn with
        pubKeyProsperitynode := mnb.pubKeyProsperitynode
        pubKeyCollateralAddress := mnb.pubKeyCollateralAddress
        sigTime := mnb.sigTime
        sig := mnb.sig
        protocolVersion := mnb.protocolVersion
        addr := mnb.addr
        lastTimeChecked := 0 }
    let (s, fPing) :=
      if mnb.lastPing.isDefault then (s, true)
      else
        let r := mnb.lastPing.CheckAndUpdate C T env s false false
        (r.1, r.2.1)
    if fPing then
      let s := s.update pmn.vin fun mn => { mn with lastPing := mnb.lastPing }
      ({ s with
        mapSeenProsperitynodePing :=
          mapInsert s.mapSeenProsperitynodePing (mnb.lastPing.GetHash C) mnb.lastPing }, true)
    else (s, true)
  else (s, false)

def CProsperitynodeBroadcast.CheckAndUpdate (s : CProsperitynodeMan)
    (b : CProsperitynodeBroadcast) : CProsperitynodeMan × Bool × Nat :=
  if b.sigTime > env.adjustedTime + 60 * 60 then (s, false, 1)
  else if b.lastPing.isDefault then (s, false, 0)
  else
    let (_, fPing, nDos) := b.lastPing.CheckAndUpdate C T env s false true
    if !fPing then (s, false, nDos)
    else if b.protocolVersion < env.minProto then (s, false, nDos)
    else if (GetScriptForDestination (C.GetID b.pubKeyCollateralAddress)).length ≠ 25 then
      (s, false, 100)
    else if (GetScriptForDestination (C.GetID b.pubKeyProsperitynode)).length ≠ 25 then
      (s, false, 100)
    else if !b.vin.scriptSig.isEmpty then (s, false, nDos)
    else if !b.VerifySignature C T then
      (s, false, if b.protocolVersion < MIN_PEER_MNANNOUNCE then 0 else 100)
    else if (if P.networkID = .MAIN then b.addr.port ≠ 9765 else b.addr.port = 9765) then
      (s, false, nDos)
    else
      match s.Find b.vin with
      | none => (s, true, nDos) -- no such prosperitynode, nothing to update
      | some pmn =>
        if pmn.sigTime ≥ b.sigTime then (s, false, nDos)
        else if !pmn.IsEnabled then (s, true, nDos)
        else if pmn.pubKeyCollateralAddress = b.pubKeyCollateralAddress ∧
            !pmn.IsBroadcastedWithin env PROSPERITYNODE_MIN_MNB_SECONDS then
          let (s, fUpdated) := UpdateFromNewBroadcast C T env s pmn b
          (if fUpdated then s.update pmn.vin fun mn => mn.Check env false else s, true, nDos)
        else (s, true, nDos)

/-- `CObfuScationSigner::IsVinAssociatedWithPubkey`. -/
def IsVinAssociatedWithPubkey (vin : CTxIn) (pubkey : CPubKey) : Bool :=
  let payee2 := GetScriptForDestination (C.GetID pubkey)
  match env.getTransaction vin.prevout.hash with
  | none => false
  | some (tx, _) => tx.vout.any fun out =>
    out.nValue == FN_MAGIC_AMOUNT && out.scriptPubKey == payee2

/-- The value of an input whose transaction is found; the others are passed over. -/
def inputValue (getTransaction : uint256 → Option CTransaction) (txin : CTxIn) : CAmount :=
  match getTransaction txin.prevout.hash with
  | none => 0
  | some txPrev => (txPrev.vout.getD txin.prevout.n ⟨0, []⟩).nValue

/-- Inputs found less outputs. -/
def burned (getTransaction : uint256 → Option CTransaction) (tx : CTransaction) : CAmount :=
  (tx.vin.map (inputValue getTransaction)).sum - tx.GetValueOut

def CProsperitynodeBroadcast.CheckInputsAndAdd (s : CProsperitynodeMan)
    (b : CProsperitynodeBroadcast) : CProsperitynodeMan × Bool × Nat :=
  if env.fFundamentalNode && b.vin.prevout == env.activeVin &&
      b.pubKeyProsperitynode == env.activePubKey then (s, true, 0)
  else if b.lastPing.isDefault then (s, false, 0)
  else
    let (_, fPing, nDoS) := b.lastPing.CheckAndUpdate C T env s false true
    if !fPing then (s, false, nDoS)
    else if (s.Find b.vin).any CProsperitynode.IsEnabled then (s, true, nDoS)
    else
      -- if it's not enabled, remove old MN first and continue
      let s :=
        match s.Find b.vin with
        | none => s
        | some pmn => s.Remove pmn.vin
      let (tx2, hashBlock) := (env.getTransaction b.vin.prevout.hash).getD (⟨0, 1, [], [], 0⟩, 0)
      let forget (s : CProsperitynodeMan) : CProsperitynodeMan :=
        { s with
          mapSeenProsperitynodeBroadcast :=
            Function.update s.mapSeenProsperitynodeBroadcast (b.GetHash C) none }
      if !env.lockMain then (forget s, false, nDoS)
      else if burned (fun h => (env.getTransaction h).map Prod.fst) tx2 <
          PROSPERITYNODE_AMOUNT - FN_MAGIC_AMOUNT then (s, false, nDoS)
      else if env.inputAge b.vin < PROSPERITYNODE_MIN_CONFIRMATIONS then (forget s, false, nDoS)
      else if (match env.blockHeight hashBlock with
          | none => false
          | some nHeight =>
            (env.chainTime (nHeight + PROSPERITYNODE_MIN_CONFIRMATIONS - 1)).any
              (· > b.sigTime)) then (s, false, nDoS)
      else (s.Add (.ofBroadcast b), true, nDoS)

/-- `CProsperitynodeMan::ProcessMessage`, command `fnb`: new state and ban score. -/
def ProcessBroadcast (s : CProsperitynodeMan) (fnb : CProsperitynodeBroadcast) :
    CProsperitynodeMan × Nat :=
  if env.fLiteMode then (s, 0)
  else if !env.isBlockchainSynced then (s, 0)
  else if (s.mapSeenProsperitynodeBroadcast (fnb.GetHash C)).isSome then (s, 0) -- seen
  else
    let s := { s with
      mapSeenProsperitynodeBroadcast :=
        mapInsert s.mapSeenProsperitynodeBroadcast (fnb.GetHash C) fnb }
    let (s, fOk, nDoS) := fnb.CheckAndUpdate C T P env s
    if !fOk then (s, nDoS)
    else if !IsVinAssociatedWithPubkey C env fnb.vin fnb.pubKeyCollateralAddress then (s, 33)
    else
      let (s, fAdded, nDoS) := fnb.CheckInputsAndAdd C T env s
      (s, if fAdded then 0 else nDoS)

/-- `CProsperitynodeMan::ProcessMessage`, command `fnp`. -/
def ProcessPing (s : CProsperitynodeMan) (fnp : CProsperitynodePing) : CProsperitynodeMan × Nat :=
  if env.fLiteMode then (s, 0)
  else if !env.isBlockchainSynced then (s, 0)
  else if (s.mapSeenProsperitynodePing (fnp.GetHash C)).isSome then (s, 0) -- seen
  else
    let s := { s with
      mapSeenProsperitynodePing := mapInsert s.mapSeenProsperitynodePing (fnp.GetHash C) fnp }
    let (s, fOk, nDoS) := fnp.CheckAndUpdate C T env s true false
    (s, if fOk then 0 else nDoS)

/-- The test of `CheckAndRemove`. -/
def mustRemove (forceExpiredRemoval : Bool) (mn : CProsperitynode) : Bool :=
  mn.activeState == .REMOVE || mn.activeState == .VIN_SPENT ||
    (forceExpiredRemoval && mn.activeState == .EXPIRED) || mn.protocolVersion < env.minProto

/-- `CProsperitynodeMan::CheckAndRemove`.  A seen broadcast is forgotten with the
node it announced, or when its ping is old. -/
def CheckAndRemove (forceExpiredRemoval : Bool) (s : CProsperitynodeMan) : CProsperitynodeMan :=
  let nodes := s.vProsperitynodes.map (·.Check env false)
  let removed := nodes.filter (mustRemove env forceExpiredRemoval)
  let old (sigTime : Int) : Bool := sigTime < env.time - PROSPERITYNODE_REMOVAL_SECONDS * 2
  { vProsperitynodes := nodes.filter fun mn => !mustRemove env forceExpiredRemoval mn
    mapSeenProsperitynodeBroadcast := fun h =>
      (s.mapSeenProsperitynodeBroadcast h).filter fun b =>
        !(removed.any (·.vin == b.vin) || old b.lastPing.sigTime)
    mapSeenProsperitynodePing := fun h =>
      (s.mapSeenProsperitynodePing h).filter fun p => !old p.sigTime }

end

/-- What can happen to the list. -/
inductive NodeEvent where
  | fnb (env : NodeEnv) (b : CProsperitynodeBroadcast)
  | fnp (env : NodeEnv) (p : CProsperitynodePing)
  | cleanUp (env : NodeEnv) (forceExpiredRemoval : Bool)

def nodeStep (C : Crypto) (T : Texts) (P : CChainParams) (s : CProsperitynodeMan) :
    NodeEvent → CProsperitynodeMan
  | .fnb env b => (ProcessBroadcast C T P env s b).1
  | .fnp env p => (ProcessPing C T env s p).1
  | .cleanUp env force => CheckAndRemove env force s

def compressedKey (c : UInt8) : CPubKey := ⟨2, List.replicate 32 c, by simp [GetLen]⟩

/-- The system names no address; scripts are not shown. -/
def plainTexts : Texts := ⟨fun _ => none, fun _ => []⟩

/-- A node at 1.2.3.4:9765 backed by an output of one transaction. -/
def announcement (n : Nat) (sigTime : Int) (sig : List UInt8) : CProsperitynodeBroadcast where
  vin := ⟨⟨7, n⟩, [], 0xFFFFFFFF⟩
  addr := ⟨⟨[0, 0, 0, 0, 0, 0, 0, 0, 0, 0, 0xff, 0xff, 1, 2, 3, 4], by decide⟩, 9765⟩
  pubKeyCollateralAddress := compressedKey 1
  pubKeyProsperitynode := compressedKey 2
  sig := sig
  sigTime := sigTime
  lastPing := ⟨⟨⟨7, n⟩, [], 0xFFFFFFFF⟩, 9, 1700000000, []⟩
  protocolVersion := PROTOCOL_VERSION

end Divitae
