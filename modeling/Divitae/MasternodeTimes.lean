/-
# `MasternodeTimes` — when a masternode was last seen

The handlers of `masternodeman.cpp` for announcements (`dsee`) and pings (`dseep`), and
`CheckAndRemove`.  `lastTimeSeen` is written in four places:

    a listed node announces itself again     the adjusted time
    a ping                                   the adjusted time
    a ping that says stop                    0
    a new entry                              the time the message gives

The last one is not looked at: nothing bounds it, as the signing times are bounded in both
handlers.  `last_seen_iff` says which runs keep every entry's time in the past, and what then
becomes of a node that is no longer heard.
-/
import Divitae.Budget
import Divitae.Ranks

namespace Divitae.Masternodes

open List

open Ranking (MasternodeState MasternodeEnv MASTERNODE_EXPIRATION_SECONDS
  MASTERNODE_REMOVAL_SECONDS MASTERNODE_SCANNING_ERROR_THESHOLD)

def MASTERNODE_MIN_CONFIRMATIONS : Int := 15
def MASTERNODE_MIN_DSEEP_SECONDS : Int := 30 * 60
def MASTERNODE_MIN_DSEE_SECONDS : Int := 10 * 60

/-- The masternode with what its messages are judged by. -/
structure CMasternode extends Ranking.CMasternode where
  addr : CService
  pubkey : CPubKey
  pubkey2 : CPubKey
  sig : List UInt8
  sigTime : Int
  lastDseep : Int
  donationAddress : CScript
  donationPercentage : Int
  deriving DecidableEq

structure Dsee where
  vin : CTxIn
  addr : CService
  vchSig : List UInt8
  sigTime : Int
  pubkey : CPubKey
  pubkey2 : CPubKey
  count : Int
  lastUpdated : Int
  protocolVersion : Int
  donationAddress : CScript
  donationPercentage : Int

structure Dseep where
  vin : CTxIn
  vchSig : List UInt8
  sigTime : Int
  stop : Bool

/-- What the rest of the node answers while one message is processed. -/
structure ListEnv extends MasternodeEnv where
  fMNLiteMode : Bool
  IsInitialBlockDownload : Bool
  minProto : Int -- `GetMinMasternodePaymentsProto()`
  mainNet : Bool
  fMasterNode : Bool
  activeVin : CTxIn -- of `activeMasternode`
  activePubKey : CPubKey
  getTransaction : uint256 → Option (CTransaction × uint256) -- with the hash of its block
  acceptableEntry : CTxIn → Bool -- `AcceptableInputs` of what the announcement spends
  inputAge : CTxIn → Int
  blockHeight : uint256 → Option Int -- `mapBlockIndex`
  chainTime : Int → Option Int -- `chainActive[h]->GetBlockTime()`

section
variable (C : Crypto) (T : Texts) (env : ListEnv) (vMasternodes : List CMasternode)

/-- `Find(const CTxIn&)`. -/
def Find (vin : CTxIn) : Option CMasternode :=
  vMasternodes.find? fun mn => mn.vin.prevout == vin.prevout

/-- Writing through the pointer `Find` returns. -/
def write (vin : CTxIn) (mn : CMasternode) : List CMasternode :=
  modifyFirst (fun mn => mn.vin.prevout == vin.prevout) (fun _ => mn) vMasternodes

namespace CMasternode

variable (mn : CMasternode)

/-- `UpdateLastSeen(override)`. -/
def UpdateLastSeen (override : Int) : CMasternode :=
  { mn with lastTimeSeen := if override = 0 then env.adjustedTime else override }

def Disable : CMasternode := { mn with lastTimeSeen := 0 }

def Check : CMasternode := { mn with toCMasternode := mn.toCMasternode.Check env.toMasternodeEnv }

def UpdatedWithin (seconds : Int) : Bool :=
  mn.toCMasternode.UpdatedWithin env.toMasternodeEnv seconds

end CMasternode

/-! ## Announcements -/

def Dsee.strMessage (dsee : Dsee) : List UInt8 :=
  dsee.addr.ToString T.getnameinfo ++ Decimal.ofInt dsee.sigTime ++ dsee.pubkey.bytes ++
    dsee.pubkey2.bytes ++ Decimal.ofInt dsee.protocolVersion ++
    T.scriptToString dsee.donationAddress ++ Decimal.ofInt dsee.donationPercentage

/-- The checks an announcement passes before the list is searched. -/
def dseeHeard (dsee : Dsee) : Bool :=
  if env.fMNLiteMode then false
  else if env.IsInitialBlockDownload then false
  -- make sure signature isn't in the future (past is OK)
  else if dsee.sigTime > env.adjustedTime + 60 * 60 then false
  else if dsee.donationPercentage < 0 || dsee.donationPercentage > 100 then false
  else if dsee.protocolVersion < env.minProto then false
  else if (GetScriptForDestination (C.GetID dsee.pubkey)).length ≠ 25 then false
  else if (GetScriptForDestination (C.GetID dsee.pubkey2)).length ≠ 25 then false
  else if !dsee.vin.scriptSig.isEmpty then false
  else if !C.VerifyMessage dsee.pubkey dsee.vchSig (dsee.strMessage T) then false
  else if (if env.mainNet then dsee.addr.port ≠ 9765 else dsee.addr.port = 9765) then false
  else true

def refresh (pmn : CMasternode) (dsee : Dsee) : List CMasternode :=
  if dsee.count = -1 ∧ pmn.pubkey = dsee.pubkey ∧
      !pmn.UpdatedWithin env MASTERNODE_MIN_DSEE_SECONDS then
    let pmn := pmn.UpdateLastSeen env 0
    if pmn.sigTime < dsee.sigTime then -- take the newest entry
      let pmn : CMasternode := { pmn with
        pubkey2 := dsee.pubkey2
        sigTime := dsee.sigTime
        sig := dsee.vchSig
        protocolVersion := dsee.protocolVersion
        addr := dsee.addr
        donationAddress := dsee.donationAddress
        donationPercentage := dsee.donationPercentage }
      write vMasternodes dsee.vin (pmn.Check env)
    else write vMasternodes dsee.vin pmn
  else vMasternodes

/-- `CObfuScationSigner::IsMnVinAssociatedWithPubkey`. -/
def IsMnVinAssociatedWithPubkey (vin : CTxIn) (pubkey : CPubKey) : Option uint256 :=
  let payee2 := GetScriptForDestination (C.GetID pubkey)
  match env.getTransaction vin.prevout.hash with
  | none => none
  | some (tx, hashBlock) =>
    if tx.vout.any fun out => out.nValue == 5000 * COIN && out.scriptPubKey == payee2 then
      some hashBlock
    else none

/-- The entry an announcement makes, if the collateral is right. -/
def entryOf (dsee : Dsee) : Option CMasternode :=
  match IsMnVinAssociatedWithPubkey C env dsee.vin dsee.pubkey with
  | none => none
  | some blockHash =>
    if !env.acceptableEntry dsee.vin then none
    else if env.inputAge dsee.vin < MASTERNODE_MIN_CONFIRMATIONS then none
    else if (match env.blockHeight blockHash with
        | none => false
        | some nHeight =>
          (env.chainTime (nHeight + MASTERNODE_MIN_CONFIRMATIONS - 1)).any
            (· > dsee.sigTime)) then none
    else
      -- doesn't support multisig addresses
      let multisig := CScript.IsPayToScriptHash dsee.donationAddress
      let mn : CMasternode := {
        vin := dsee.vin
        activeState := .ENABLED
        lastTimeSeen := 0
        unitTest := false
        protocolVersion := dsee.protocolVersion
        nScanningErrorCount := 0
        addr := dsee.addr
        pubkey := dsee.pubkey
        pubkey2 := dsee.pubkey2
        sig := dsee.vchSig
        sigTime := dsee.sigTime
        lastDseep := 0
        donationAddress := if multisig then [] else dsee.donationAddress
        donationPercentage := if multisig then 0 else dsee.donationPercentage }
      some (mn.UpdateLastSeen env dsee.lastUpdated)

def Add (mn : CMasternode) : List CMasternode :=
  if !mn.IsEnabled then vMasternodes
  else
    match Find vMasternodes mn.vin with
    | none => vMasternodes ++ [mn]
    | some _ => vMasternodes

/-- Our own announcement, before we know our collateral. -/
def ownActivation (dsee : Dsee) : Bool :=
  env.fMasterNode && env.activeVin == CTxIn.null && dsee.pubkey2 == env.activePubKey

/-- `ProcessMessage`, command `dsee`. -/
def processDsee (dsee : Dsee) : List CMasternode :=
  if !dseeHeard C T env dsee then vMasternodes
  else
    match Find vMasternodes dsee.vin, ownActivation env dsee with
    | some pmn, false => refresh env vMasternodes pmn dsee
    | _, _ =>
      match entryOf C env dsee with
      | none => vMasternodes
      | some mn => Add vMasternodes mn

/-- An announcement that passes, of a node that is not listed. -/
def announces (dsee : Dsee) : Bool :=
  dseeHeard C T env dsee && (Find vMasternodes dsee.vin).isNone && (entryOf C env dsee).isSome

/-! ## Pings -/

def Dseep.strMessage (dseep : Dseep) (addr : CService) : List UInt8 :=
  addr.ToString T.getnameinfo ++ Decimal.ofInt dseep.sigTime ++
    Decimal.ofNat (if dseep.stop then 1 else 0)

/-- The listed node a ping comes from, if it passes. -/
def dseepHeard (dseep : Dseep) : Option CMasternode :=
  if env.fMNLiteMode then none
  else if env.IsInitialBlockDownload then none
  else if dseep.sigTime > env.adjustedTime + 60 * 60 then none
  else if dseep.sigTime ≤ env.adjustedTime - 60 * 60 then none
  else
    match Find vMasternodes dseep.vin with
    | none => none
    | some pmn =>
      if pmn.protocolVersion < env.minProto then none
      -- take this only if it's newer
      else if pmn.lastDseep ≥ dseep.sigTime then none
      else if !C.VerifyMessage pmn.pubkey2 dseep.vchSig (dseep.strMessage T pmn.addr) then none
      else some pmn

/-- `ProcessMessage`, command `dseep`. -/
def processDseep (dseep : Dseep) : List CMasternode :=
  match dseepHeard C T env vMasternodes dseep with
  | none => vMasternodes
  | some pmn =>
    let pmn : CMasternode := { pmn with lastDseep := dseep.sigTime }
    if !pmn.UpdatedWithin env MASTERNODE_MIN_DSEEP_SECONDS then
      if dseep.stop then write vMasternodes dseep.vin pmn.Disable
      else write vMasternodes dseep.vin ((pmn.UpdateLastSeen env 0).Check env)
    else write vMasternodes dseep.vin pmn

/-- A ping that says stop and is taken. -/
def stops (dseep : Dseep) : Bool :=
  dseep.stop && (dseepHeard C T env vMasternodes dseep).any fun pmn =>
    !pmn.UpdatedWithin env MASTERNODE_MIN_DSEEP_SECONDS

/-- The test of `CheckAndRemove`, behind `Check`. -/
def mustRemove (mn : CMasternode) : Bool :=
  (mn.Check env).activeState == .REMOVE || (mn.Check env).activeState == .VIN_SPENT

def CheckAndRemove : List CMasternode :=
  (vMasternodes.filter fun mn => !mustRemove env mn).map fun mn => mn.Check env

end

/-! ## Runs -/

/-- The list and the adjusted time. -/
structure MasternodeList where
  vMasternodes : List CMasternode
  now : Int

inductive ListEvent where
  | dsee (env : ListEnv) (msg : Dsee)
  | dseep (env : ListEnv) (ping : Dseep)
  | checkAndRemove (env : ListEnv)
  | time (adjustedTime : Int)

/-- The adjusted time at an event. -/
def ListEvent.now : ListEvent → Int
  | .dsee env _ => env.adjustedTime
  | .dseep env _ => env.adjustedTime
  | .checkAndRemove env => env.adjustedTime
  | .time adjustedTime => adjustedTime

/-- The outpoint a message is about. -/
def ListEvent.About (i : ListEvent) (o : COutPoint) : Prop :=
  match i with
  | .dsee _ msg => msg.vin.prevout = o
  | .dseep _ ping => ping.vin.prevout = o
  | .checkAndRemove _ => False
  | .time _ => False

def listStep (C : Crypto) (T : Texts) (s : MasternodeList) (i : ListEvent) : MasternodeList :=
  ⟨match i with
    | .dsee env msg => processDsee C T env s.vMasternodes msg
    | .dseep env ping => processDseep C T env s.vMasternodes ping
    | .checkAndRemove env => CheckAndRemove env s.vMasternodes
    | .time _ => s.vMasternodes, i.now⟩

/-- No node was seen behind the time. -/
def NoneAhead (vMasternodes : List CMasternode) (time : Int) : Prop :=
  ∀ mn ∈ vMasternodes, mn.lastTimeSeen ≤ time

/-- No node was seen in the future. -/
def SeenBefore (s : MasternodeList) : Prop := NoneAhead s.vMasternodes s.now

/-- A node no message is about from here on is not enabled once it is expired, and not listed
once it is to be removed. -/
def Forgets (C : Crypto) (T : Texts) (s : MasternodeList) (o : COutPoint) : Prop :=
  ∀ (rest : List ListEvent) (env : ListEnv), (∀ i ∈ rest, ¬ i.About o) → env.lockRecv = true →
    (s.now + MASTERNODE_EXPIRATION_SECONDS ≤ env.adjustedTime →
      ∀ mn ∈ CheckAndRemove env (rest.foldl (listStep C T) s).vMasternodes,
        mn.vin.prevout = o → mn.IsEnabled = false) ∧
    (s.now + MASTERNODE_REMOVAL_SECONDS ≤ env.adjustedTime →
      ∀ mn ∈ CheckAndRemove env (rest.foldl (listStep C T) s).vMasternodes, mn.vin.prevout ≠ o)

/-- Every node was seen before now, and is gone some time after it is heard of last. -/
def SeenAndForgotten (C : Crypto) (T : Texts) (s : MasternodeList) : Prop :=
  SeenBefore s ∧ ∀ o, Forgets C T s o

/-- The event finds and makes no entry behind its time. -/
def Timely (C : Crypto) (T : Texts) (s : MasternodeList) (i : ListEvent) : Prop :=
  match i with
  | .dsee env msg =>
    NoneAhead s.vMasternodes env.adjustedTime ∧
      (announces C T env s.vMasternodes msg = true → msg.lastUpdated ≠ 0 →
        msg.lastUpdated ≤ env.adjustedTime)
  | .dseep env ping =>
    NoneAhead s.vMasternodes env.adjustedTime ∧
      (stops C T env s.vMasternodes ping = true → 0 ≤ env.adjustedTime)
  | .checkAndRemove env =>
    ∀ mn ∈ s.vMasternodes, mustRemove env mn = false → mn.lastTimeSeen ≤ env.adjustedTime
  | .time adjustedTime => NoneAhead s.vMasternodes adjustedTime

/-! ## What a message can do -/

variable {P : CMasternode → Prop}

theorem forall_write {vMasternodes : List CMasternode} {vin : CTxIn}
    {pmn mn : CMasternode} (hfound : Find vMasternodes vin = some pmn) (hback : P mn → P pmn) :
    (∀ mn' ∈ write vMasternodes vin mn, P mn') ↔ P mn ∧ ∀ mn' ∈ vMasternodes, P mn' := by
  unfold Find at hfound
  unfold write
  induction vMasternodes with
  | nil => simp at hfound
  | cons first others ih =>
    cases hfirst : first.vin.prevout == vin.prevout with
    | true =>
      obtain rfl : first = pmn := by simpa [hfirst] using hfound
      simp only [modifyFirst, hfirst, if_true, forall_mem_cons]
      constructor
      · intro h
        exact ⟨h.1, hback h.1, h.2⟩
      · intro h
        exact ⟨h.1, h.2.2⟩
    | false =>
      have hrest : others.find? (fun mn => mn.vin.prevout == vin.prevout) = some pmn := by
        simpa [hfirst] using hfound
      have hothers := ih hrest
      simp only [modifyFirst, hfirst, Bool.false_eq_true, if_false, forall_mem_cons, hothers]
      constructor
      · intro h
        exact ⟨h.2.1, h.1, h.2.2⟩
      · intro h
        exact ⟨h.2.1, h.1, h.2.2⟩

theorem vin_of_Find {vMasternodes : List CMasternode} {vin : CTxIn} {pmn : CMasternode}
    (hfound : Find vMasternodes vin = some pmn) : pmn.vin.prevout = vin.prevout := by
  have h := List.find?_some hfound
  simpa using h

namespace CMasternode

variable (env : ListEnv) (mn : CMasternode)

@[simp] theorem Check_vin : (mn.Check env).vin = mn.vin :=
  Ranking.CMasternode.Check_vin env.toMasternodeEnv mn.toCMasternode

@[simp] theorem Check_lastTimeSeen : (mn.Check env).lastTimeSeen = mn.lastTimeSeen := by
  show (mn.toCMasternode.Check env.toMasternodeEnv).lastTimeSeen = mn.lastTimeSeen
  rw [Ranking.CMasternode.Check]
  split_ifs <;> rfl

@[simp] theorem Check_nScanningErrorCount :
    (mn.Check env).nScanningErrorCount = mn.nScanningErrorCount := by
  show (mn.toCMasternode.Check env.toMasternodeEnv).nScanningErrorCount = mn.nScanningErrorCount
  rw [Ranking.CMasternode.Check]
  split_ifs <;> rfl

theorem seen_of_not_UpdatedWithin {seconds : Int} (hseconds : 0 ≤ seconds)
    (h : mn.UpdatedWithin env seconds = false) : mn.lastTimeSeen ≤ env.adjustedTime := by
  have hle : seconds ≤ env.adjustedTime - mn.lastTimeSeen := by
    simpa [UpdatedWithin, Ranking.CMasternode.UpdatedWithin] using h
  omega

end CMasternode

section
variable {C : Crypto} {T : Texts} {env : ListEnv} {vMasternodes : List CMasternode}

/-- What an entry keeps when it is written. -/
structure SameNode (pmn mn : CMasternode) : Prop where
  vin : mn.vin = pmn.vin
  nScanningErrorCount : mn.nScanningErrorCount = pmn.nScanningErrorCount

variable (env vMasternodes) in
theorem refresh_cases (pmn : CMasternode) (msg : Dsee) :
    refresh env vMasternodes pmn msg = vMasternodes ∨
      ∃ mn, SameNode pmn mn ∧ pmn.lastTimeSeen ≤ env.adjustedTime ∧
        mn.lastTimeSeen = env.adjustedTime ∧
        refresh env vMasternodes pmn msg = write vMasternodes msg.vin mn := by
  by_cases hnew : msg.count = -1 ∧ pmn.pubkey = msg.pubkey ∧
      !pmn.UpdatedWithin env MASTERNODE_MIN_DSEE_SECONDS
  · right
    have hwithin : pmn.UpdatedWithin env MASTERNODE_MIN_DSEE_SECONDS = false := by
      simpa using hnew.2.2
    have hseen := pmn.seen_of_not_UpdatedWithin env (by decide) hwithin
    unfold refresh
    rw [if_pos hnew]
    dsimp only
    split
    · refine ⟨_, ⟨?_, ?_⟩, hseen, ?_, rfl⟩
      · rw [CMasternode.Check_vin]
        rfl
      · rw [CMasternode.Check_nScanningErrorCount]
        rfl
      · rw [CMasternode.Check_lastTimeSeen]
        rfl
    · exact ⟨pmn.UpdateLastSeen env 0, ⟨rfl, rfl⟩, hseen, rfl, rfl⟩
  · left
    unfold refresh
    rw [if_neg hnew]

variable {mn : CMasternode}

theorem entryOf_cases {msg : Dsee} (h : entryOf C env msg = some mn) :
    mn.vin = msg.vin ∧ mn.IsEnabled = true ∧ mn.nScanningErrorCount = 0 ∧
      mn.lastTimeSeen = if msg.lastUpdated = 0 then env.adjustedTime else msg.lastUpdated := by
  unfold entryOf at h
  split at h
  · cases h
  · dsimp only at h
    split_ifs at h
    · cases h
      exact ⟨rfl, rfl, rfl, rfl⟩
    · cases h
      exact ⟨rfl, rfl, rfl, rfl⟩

variable (C T env vMasternodes) in
theorem processDsee_cases (msg : Dsee) :
    (announces C T env vMasternodes msg = false ∧
      processDsee C T env vMasternodes msg = vMasternodes) ∨
    (announces C T env vMasternodes msg = false ∧ ∃ pmn mn,
      Find vMasternodes msg.vin = some pmn ∧ SameNode pmn mn ∧
      pmn.lastTimeSeen ≤ env.adjustedTime ∧ mn.lastTimeSeen = env.adjustedTime ∧
      processDsee C T env vMasternodes msg = write vMasternodes msg.vin mn) ∨
    (announces C T env vMasternodes msg = true ∧ ∃ mn,
      mn.vin = msg.vin ∧ mn.nScanningErrorCount = 0 ∧
      (mn.lastTimeSeen = if msg.lastUpdated = 0 then env.adjustedTime else msg.lastUpdated) ∧
      processDsee C T env vMasternodes msg = vMasternodes ++ [mn]) := by
  unfold processDsee announces
  cases hheard : dseeHeard C T env msg with
  | false => exact .inl ⟨rfl, rfl⟩
  | true =>
    cases hfound : Find vMasternodes msg.vin with
    | some pmn =>
      cases hown : ownActivation env msg with
      | false =>
        rcases refresh_cases env vMasternodes pmn msg with
          hsame | ⟨mn, hmn, hseen, htime, hwrite⟩
        · exact .inl ⟨rfl, by simpa using hsame⟩
        · exact .inr (.inl ⟨rfl, pmn, mn, rfl, hmn, hseen, htime, by simpa using hwrite⟩)
      | true =>
        refine .inl ⟨rfl, ?_⟩
        cases hentry : entryOf C env msg with
        | none => simp
        | some mn =>
          obtain ⟨hvin, henabled, -⟩ := entryOf_cases hentry
          simp [Add, henabled, hvin, hfound]
    | none =>
      cases hentry : entryOf C env msg with
      | none => exact .inl ⟨by simp, by simp⟩
      | some mn =>
        obtain ⟨hvin, henabled, hcount, htime⟩ := entryOf_cases hentry
        refine .inr (.inr ⟨by simp, mn, hvin, hcount, htime, ?_⟩)
        simp [Add, henabled, hvin, hfound]

variable (C T env vMasternodes) in
theorem processDseep_cases (ping : Dseep) :
    (stops C T env vMasternodes ping = false ∧
      processDseep C T env vMasternodes ping = vMasternodes) ∨
    (∃ pmn mn, Find vMasternodes ping.vin = some pmn ∧ SameNode pmn mn ∧
      processDseep C T env vMasternodes ping = write vMasternodes ping.vin mn ∧
      ((stops C T env vMasternodes ping = false ∧ mn.lastTimeSeen = pmn.lastTimeSeen) ∨
        (stops C T env vMasternodes ping = false ∧ pmn.lastTimeSeen ≤ env.adjustedTime ∧
          mn.lastTimeSeen = env.adjustedTime) ∨
        (stops C T env vMasternodes ping = true ∧ pmn.lastTimeSeen ≤ env.adjustedTime ∧
          mn.lastTimeSeen = 0))) := by
  unfold processDseep stops
  cases hheard : dseepHeard C T env vMasternodes ping with
  | none => exact .inl ⟨by simp, rfl⟩
  | some pmn =>
    right
    have hfound : Find vMasternodes ping.vin = some pmn := by
      unfold dseepHeard at hheard
      split_ifs at hheard
      split at hheard
      · cases hheard
      · rename_i pmn' hpmn'
        split_ifs at hheard
        cases hheard
        exact hpmn'
    let heard : CMasternode := { pmn with lastDseep := ping.sigTime }
    have hheardOf : heard.UpdatedWithin env MASTERNODE_MIN_DSEEP_SECONDS =
        pmn.UpdatedWithin env MASTERNODE_MIN_DSEEP_SECONDS := rfl
    dsimp only
    rw [hheardOf]
    cases hwithin : pmn.UpdatedWithin env MASTERNODE_MIN_DSEEP_SECONDS with
    | true => exact ⟨pmn, heard, hfound, ⟨rfl, rfl⟩, rfl, .inl ⟨by simp [hwithin], rfl⟩⟩
    | false =>
      have hseen := pmn.seen_of_not_UpdatedWithin env (by decide) hwithin
      cases hstop : ping.stop with
      | true =>
        exact ⟨pmn, heard.Disable, hfound, ⟨rfl, rfl⟩, rfl,
          .inr (.inr ⟨by simp [hwithin], hseen, rfl⟩)⟩
      | false =>
        refine ⟨pmn, (heard.UpdateLastSeen env 0).Check env, hfound, ⟨?_, ?_⟩, rfl,
          .inr (.inl ⟨by simp, hseen, ?_⟩)⟩
        · rw [CMasternode.Check_vin]
          rfl
        · rw [CMasternode.Check_nScanningErrorCount]
          rfl
        · rw [CMasternode.Check_lastTimeSeen]
          rfl

/-! ## The invariants -/

theorem listStep_forall {s : MasternodeList} {i : ListEvent}
    (hcheck : ∀ env mn, P mn → P (mn.Check env))
    (hwrite : ∀ pmn mn, SameNode pmn mn → i.About pmn.vin.prevout → P pmn → P mn)
    (hnew : ∀ mn, i.About mn.vin.prevout → mn.nScanningErrorCount = 0 → P mn)
    (h : ∀ mn ∈ s.vMasternodes, P mn) : ∀ mn ∈ (listStep C T s i).vMasternodes, P mn := by
  have hwritten : ∀ (vin : CTxIn) (pmn mn : CMasternode), i.About vin.prevout →
      Find s.vMasternodes vin = some pmn → SameNode pmn mn →
      ∀ mn' ∈ write s.vMasternodes vin mn, P mn' := by
    intro vin pmn mn habout hfound hmn
    have hpmn : P pmn := h pmn (mem_of_find?_eq_some hfound)
    rw [← vin_of_Find hfound] at habout
    exact (forall_write hfound fun _ => hpmn).mpr ⟨hwrite pmn mn hmn habout hpmn, h⟩
  cases i with
  | dsee env msg =>
    show ∀ mn ∈ processDsee C T env s.vMasternodes msg, P mn
    rcases processDsee_cases C T env s.vMasternodes msg
      with ⟨-, heq⟩ | ⟨-, pmn, mn, hfound, hmn, -, -, heq⟩ | ⟨-, mn, hvin, hcount, -, heq⟩
    · rw [heq]
      exact h
    · rw [heq]
      exact hwritten msg.vin pmn mn rfl hfound hmn
    · rw [heq, forall_mem_append, forall_mem_singleton]
      exact ⟨h, hnew mn (congrArg CTxIn.prevout hvin.symm) hcount⟩
  | dseep env ping =>
    show ∀ mn ∈ processDseep C T env s.vMasternodes ping, P mn
    rcases processDseep_cases C T env s.vMasternodes ping with ⟨-, heq⟩ | ⟨pmn, mn, hfound,
      hmn, heq, -⟩
    · rw [heq]
      exact h
    · rw [heq]
      exact hwritten ping.vin pmn mn rfl hfound hmn
  | checkAndRemove env =>
    intro mn hmem
    obtain ⟨mn', hmem', rfl⟩ := mem_map.mp hmem
    exact hcheck env mn' (h mn' (mem_of_mem_filter hmem'))
  | time adjustedTime => exact h

/-- No entry counts scanning errors: no message here counts one. -/
def NoScanningErrors (s : MasternodeList) : Prop :=
  ∀ mn ∈ s.vMasternodes, mn.nScanningErrorCount = 0

theorem noScanningErrors_step (s : MasternodeList) (i : ListEvent) (h : NoScanningErrors s) :
    NoScanningErrors (listStep C T s i) := by
  refine listStep_forall ?_ ?_ ?_ h
  · intro env mn hmn
    rw [CMasternode.Check_nScanningErrorCount]
    exact hmn
  · intro pmn mn hsame _ hpmn
    exact hsame.nScanningErrorCount.trans hpmn
  · intro mn _ hmn
    exact hmn

theorem unheard_step {o : COutPoint} {time : Int} (s : MasternodeList) (i : ListEvent)
    (h : ∀ mn ∈ s.vMasternodes, mn.vin.prevout = o → mn.lastTimeSeen ≤ time)
    (hi : ¬ i.About o) :
    ∀ mn ∈ (listStep C T s i).vMasternodes, mn.vin.prevout = o → mn.lastTimeSeen ≤ time := by
  refine listStep_forall ?_ ?_ ?_ h
  · intro env mn hmn hvin
    rw [CMasternode.Check_vin] at hvin
    rw [CMasternode.Check_lastTimeSeen]
    exact hmn hvin
  · intro pmn mn hsame habout _ hvin
    rw [← hsame.vin, hvin] at habout
    exact absurd habout hi
  · intro mn habout _ hvin
    rw [hvin] at habout
    exact absurd habout hi

theorem seenBefore_step (s : MasternodeList) (i : ListEvent) :
    SeenBefore (listStep C T s i) ↔ Timely C T s i := by
  cases i with
  | dsee env msg =>
    show NoneAhead (processDsee C T env s.vMasternodes msg) env.adjustedTime ↔
      NoneAhead s.vMasternodes env.adjustedTime ∧ _
    rcases processDsee_cases C T env s.vMasternodes msg
      with ⟨hnot, heq⟩ | ⟨hnot, pmn, mn, hfound, -, hseen, htime, heq⟩ |
        ⟨hnew, mn, -, -, htime, heq⟩
    · simp [heq, hnot]
    · have hwrite : NoneAhead (write s.vMasternodes msg.vin mn) env.adjustedTime ↔
          mn.lastTimeSeen ≤ env.adjustedTime ∧ NoneAhead s.vMasternodes env.adjustedTime :=
        forall_write hfound fun _ => hseen
      simp [heq, hnot, hwrite, htime]
    · have hentered : NoneAhead (s.vMasternodes ++ [mn]) env.adjustedTime ↔
          NoneAhead s.vMasternodes env.adjustedTime ∧ mn.lastTimeSeen ≤ env.adjustedTime := by
        unfold NoneAhead
        rw [forall_mem_append, forall_mem_singleton]
      rw [heq, hentered, htime]
      by_cases hzero : msg.lastUpdated = 0
      · simp [hzero]
      · simp [hzero, hnew]
  | dseep env ping =>
    show NoneAhead (processDseep C T env s.vMasternodes ping) env.adjustedTime ↔
      NoneAhead s.vMasternodes env.adjustedTime ∧ _
    rcases processDseep_cases C T env s.vMasternodes ping with ⟨hnot, heq⟩ | ⟨pmn, mn,
      hfound, -, heq, htime⟩
    · simp [heq, hnot]
    · have hback : mn.lastTimeSeen ≤ env.adjustedTime → pmn.lastTimeSeen ≤ env.adjustedTime := by
        rcases htime with ⟨-, hkept⟩ | ⟨-, hseen, -⟩ | ⟨-, hseen, -⟩
        · intro hmn
          exact hkept ▸ hmn
        · intro _
          exact hseen
        · intro _
          exact hseen
      have hwrite : NoneAhead (write s.vMasternodes ping.vin mn) env.adjustedTime ↔
          mn.lastTimeSeen ≤ env.adjustedTime ∧ NoneAhead s.vMasternodes env.adjustedTime :=
        forall_write hfound hback
      have hpmn : NoneAhead s.vMasternodes env.adjustedTime →
          pmn.lastTimeSeen ≤ env.adjustedTime :=
        fun h => h pmn (mem_of_find?_eq_some hfound)
      rw [heq, hwrite]
      rcases htime with ⟨hnot, hkept⟩ | ⟨hnot, -, hnow⟩ | ⟨hstop, -, hzero⟩
      · simp only [hnot, hkept, Bool.false_eq_true, false_implies, and_true]
        exact and_iff_right_of_imp hpmn
      · simp [hnot, hnow]
      · simp [hstop, hzero, and_comm]
  | checkAndRemove env =>
    show (∀ mn ∈ CheckAndRemove env s.vMasternodes, mn.lastTimeSeen ≤ env.adjustedTime) ↔ _
    unfold CheckAndRemove Timely
    rw [forall_mem_map]
    simp
  | time adjustedTime => exact Iff.rfl

section
variable (hlock : env.lockRecv = true) (hcount : mn.nScanningErrorCount = 0)
include hlock hcount

theorem mustRemove_of_unheard
    (hunheard : mn.lastTimeSeen + MASTERNODE_REMOVAL_SECONDS ≤ env.adjustedTime) :
    mustRemove env mn = true := by
  have hold : mn.toCMasternode.UpdatedWithin env.toMasternodeEnv MASTERNODE_REMOVAL_SECONDS
      = false := by
    simp only [Ranking.CMasternode.UpdatedWithin, decide_eq_false_iff_not]
    omega
  unfold mustRemove CMasternode.Check Ranking.CMasternode.Check
  by_cases hspent : mn.activeState = .VIN_SPENT
  · simp [hlock, hcount, hspent, MASTERNODE_SCANNING_ERROR_THESHOLD]
  · simp [hlock, hcount, hspent, hold, MASTERNODE_SCANNING_ERROR_THESHOLD]

theorem not_IsEnabled_of_unheard
    (hunheard : mn.lastTimeSeen + MASTERNODE_EXPIRATION_SECONDS ≤ env.adjustedTime) :
    (mn.Check env).IsEnabled = false := by
  have hold : mn.toCMasternode.UpdatedWithin env.toMasternodeEnv MASTERNODE_EXPIRATION_SECONDS
      = false := by
    simp only [Ranking.CMasternode.UpdatedWithin, decide_eq_false_iff_not]
    omega
  unfold CMasternode.Check Ranking.CMasternode.Check Ranking.CMasternode.IsEnabled
  by_cases hspent : mn.activeState = .VIN_SPENT
  · simp [hlock, hcount, hspent, MASTERNODE_SCANNING_ERROR_THESHOLD]
  · simp only [hlock, hcount, hspent, hold, MASTERNODE_SCANNING_ERROR_THESHOLD]
    split_ifs <;> simp_all

end

theorem forgets_of_seenBefore {s : MasternodeList} (hcounts : NoScanningErrors s)
    (hseen : SeenBefore s) (o : COutPoint) : Forgets C T s o := by
  intro rest env hrest hlock
  have hafter : NoScanningErrors (rest.foldl (listStep C T) s) ∧
      ∀ mn ∈ (rest.foldl (listStep C T) s).vMasternodes,
        mn.vin.prevout = o → mn.lastTimeSeen ≤ s.now := by
    have hunheard : Run.Guarded (listStep C T) (fun _ i => ¬ i.About o) s rest :=
      Run.guarded_of_forall hrest
    refine Run.run_inv (I := fun s' => NoScanningErrors s' ∧ ∀ mn ∈ s'.vMasternodes,
        mn.vin.prevout = o → mn.lastTimeSeen ≤ s.now) ?_ ⟨hcounts, ?_⟩ hunheard
    · intro s' i h hi
      exact ⟨noScanningErrors_step s' i h.1, unheard_step s' i h.2 hi⟩
    · intro mn hmem _
      exact hseen mn hmem
  constructor
  · intro hlate mn hmem hvin
    obtain ⟨mn', hmem', rfl⟩ := mem_map.mp hmem
    have hin := mem_of_mem_filter hmem'
    rw [CMasternode.Check_vin] at hvin
    have htime := hafter.2 mn' hin hvin
    exact not_IsEnabled_of_unheard hlock (hafter.1 mn' hin) (by omega)
  · intro hlate mn hmem hvin
    obtain ⟨mn', hmem', rfl⟩ := mem_map.mp hmem
    obtain ⟨hin, hkept⟩ := mem_filter.mp hmem'
    rw [CMasternode.Check_vin] at hvin
    have htime := hafter.2 mn' hin hvin
    have hremoved := mustRemove_of_unheard hlock (hafter.1 mn' hin) (by omega)
    simp [hremoved] at hkept

/-- An announcement of a node, whose message says it was last seen at `lastUpdated`. -/
def seenAt (lastUpdated : Int) : Dsee where
  vin := ⟨⟨7, 0⟩, [], 0xFFFFFFFF⟩
  addr := ⟨⟨CNetAddr.pchIPv4 ++ [1, 2, 3, 4], CNetAddr.length_IPv4⟩, 9765⟩
  vchSig := [0]
  sigTime := 1699999940
  pubkey := compressedKey 1
  pubkey2 := compressedKey 2
  count := -1
  lastUpdated := lastUpdated
  protocolVersion := PROTOCOL_VERSION
  donationAddress := []
  donationPercentage := 0

/-- One key, that signed the announcement. -/
def announcerCrypto : Crypto := .onTexts (compressedKey 1) [(seenAt 0).strMessage plainTexts]

/-- A synchronized node that knows the collateral. -/
def listEnv (adjustedTime : Int) : ListEnv where
  blockHash _ := none
  adjustedTime := adjustedTime
  lockRecv := true
  lockMain := true
  acceptableInputs _ := true
  fMNLiteMode := false
  IsInitialBlockDownload := false
  minProto := PROTOCOL_VERSION
  mainNet := true
  fMasterNode := false
  activeVin := .null
  activePubKey := compressedKey 3
  getTransaction hash :=
    if hash = 7 then
      some (⟨7, 1, [], [⟨5000 * COIN,
        GetScriptForDestination (announcerCrypto.GetID (compressedKey 1))⟩], 0⟩, 9)
    else none
  acceptableEntry _ := true
  inputAge _ := 100
  blockHeight hash := if hash = 9 then some 900 else none
  chainTime _ := some 1600000000

end

end Divitae.Masternodes
