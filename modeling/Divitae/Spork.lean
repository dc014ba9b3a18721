/-
# `Spork` — network parameters signed by one key

A spork is a number the holder of the spork key can change for the whole network.
A node learns a spork in three ways, and each writes the two maps differently:

    ProcessSpork       a peer's message      compares times, checks the signature,
                                             writes the active map and the database
    UpdateSpork        the `spork` command   signs, writes the active map
    LoadSporksFromDB   startup               writes the active map from the database

The signed text is the id, the value and the time, printed one after the other.
Times come from the clock and are arguments (`GetTime`, `GetAdjustedTime`).
-/
import Divitae.Lib.Run
import Divitae.PubKey

namespace Divitae

open Decimal

/-! ## The sporks in use -/

def SPORK_START : Int := 10001
def SPORK_END : Int := 10021

def SPORK_3_SWIFTTX_BLOCK_FILTERING : Int := 10002
def SPORK_8_PROSPERITYNODE_PAYMENT_ENFORCEMENT : Int := 10007
def SPORK_9_PROSPERITYNODE_BUDGET_ENFORCEMENT : Int := 10008
def SPORK_13_ENABLE_SUPERBLOCKS : Int := 10012
def SPORK_20_ZEROCOIN_MAINTENANCE_MODE : Int := 10019
def SPORK_22_REMOVE_SEESAW_BLOCK : Int := 10021

/-- Id, name and default value of every spork `GetSporkNameByID` knows. -/
def sporkTable : List (Int × String × Int) :=
  [(10001, "SPORK_2_SWIFTTX", 978307200),
    (10002, "SPORK_3_SWIFTTX_BLOCK_FILTERING", 1424217600),
    (10004, "SPORK_5_MAX_VALUE", 1000),
    (10006, "SPORK_7_PROSPERITYNODE_SCANNING", 978307200),
    (10007, "SPORK_8_PROSPERITYNODE_PAYMENT_ENFORCEMENT", 4070908800),
    (10008, "SPORK_9_PROSPERITYNODE_BUDGET_ENFORCEMENT", 4070908800),
    (10012, "SPORK_13_ENABLE_SUPERBLOCKS", 4070908800),
    (10013, "SPORK_14_NEW_PROTOCOL_ENFORCEMENT", 4070908800),
    (10014, "SPORK_15_NEW_PROTOCOL_ENFORCEMENT_2", 4070908800),
    (10015, "SPORK_16_NEW_PROTOCOL_ENFORCEMENT_3", 4070908800),
    (10016, "SPORK_17_NEW_PROTOCOL_ENFORCEMENT_4", 4070908800),
    (10017, "SPORK_18_NEW_PROTOCOL_ENFORCEMENT_5", 4070908800),
    (10018, "SPORK_19_PROSPERITYNODE_PAY_UPDATED_NODES", 4070908800),
    (10019, "SPORK_20_ZEROCOIN_MAINTENANCE_MODE", 4070908800),
    (10020, "SPORK_21_MASTERNODE_PAY_UPDATED_NODES", 4070908800),
    (10021, "SPORK_22_REMOVE_SEESAW_BLOCK", 9999999999)]

def GetSporkNameByID (id : Int) : String :=
  match sporkTable.find? (·.1 == id) with
  | some row => row.2.1
  | none => "Unknown"

/-- The ids with a name.  `"Unknown"` is the name of the others only. -/
def KnownSpork (id : Int) : Prop := GetSporkNameByID id ≠ "Unknown"

instance (id : Int) : Decidable (KnownSpork id) := inferInstanceAs (Decidable (_ ≠ _))

theorem KnownSpork.range {id : Int} (h : KnownSpork id) : SPORK_START ≤ id ∧ id ≤ SPORK_END := by
  unfold KnownSpork GetSporkNameByID at h
  cases hrow : sporkTable.find? (·.1 == id) with
  | none => simp [hrow] at h
  | some row =>
    have hid : row.1 = id := by simpa using List.find?_some hrow
    have hall : ∀ r ∈ sporkTable, SPORK_START ≤ r.1 ∧ r.1 ≤ SPORK_END := by decide
    rw [← hid]
    exact hall row (List.mem_of_find?_eq_some hrow)

/-! ## Messages -/

structure CSporkMessage where
  nSporkID : Int
  nValue : Int
  nTimeSigned : Int
  vchSig : List UInt8
  deriving DecidableEq

/-- Id, value and signing time. -/
abbrev SporkTriple := Int × Int × Int

/-- The text that is signed for a triple. -/
def SporkTriple.strMessage (t : SporkTriple) : List UInt8 :=
  Decimal.ofInt t.1 ++ Decimal.ofInt t.2.1 ++ Decimal.ofInt t.2.2

namespace CSporkMessage

def triple (m : CSporkMessage) : SporkTriple := (m.nSporkID, m.nValue, m.nTimeSigned)

def strMessage (m : CSporkMessage) : List UInt8 :=
  Decimal.ofInt m.nSporkID ++ Decimal.ofInt m.nValue ++ Decimal.ofInt m.nTimeSigned

end CSporkMessage

theorem SporkTriple.strMessage_inj {t u : SporkTriple} (h : t.strMessage = u.strMessage)
    (hid : (ofInt t.1).length = (ofInt u.1).length)
    (htime : (ofInt t.2.2).length = (ofInt u.2.2).length) : t = u := by
  obtain ⟨hfront, hback⟩ := List.append_inj' h htime
  obtain ⟨h1, h2⟩ := append_decimal_inj hfront hid
  exact Prod.ext h1 (Prod.ext (ofInt_inj h2) (ofInt_inj hback))

/-! ## Signatures -/

section
variable (C : Crypto) (P : CChainParams)

/-- The signature is by the key the network uses now. -/
def SignedByNewKey (m : CSporkMessage) : Bool :=
  C.VerifyMessage (CPubKey.ofBytes P.sporkKey) m.vchSig m.strMessage

def SignedByOldKey (m : CSporkMessage) : Bool :=
  C.VerifyMessage (CPubKey.ofBytes P.sporkKeyOld) m.vchSig m.strMessage

/-- `CSporkManager::CheckSignature`. -/
def CheckSignature (adjustedTime : Int) (spork : CSporkMessage) (fCheckSigner : Bool) : Bool :=
  let fValidWithNewKey := SignedByNewKey C P spork
  if fCheckSigner && !fValidWithNewKey && adjustedTime > P.NewSporkStart then false
  else if !fValidWithNewKey && adjustedTime < P.RejectOldSporkKey then SignedByOldKey C P spork
  else fValidWithNewKey

/-- `CSporkManager::Sign` with the key `strMasterPrivKey` decodes to, if it does. -/
def Sign (masterKey : Option CKey) (id value time : Int) : Option CSporkMessage :=
  match masterKey with
  | none => none -- Invalid private key.
  | some key2 =>
    let strMessage := SporkTriple.strMessage (id, value, time)
    match C.SignMessage strMessage key2 with
    | none => none -- Sign message failed
    | some vchSig =>
      if C.VerifyMessage (C.getPubKey key2) vchSig strMessage then
        some ⟨id, value, time, vchSig⟩
      else none -- Verify message failed

variable {C P} {m : CSporkMessage}

theorem CheckSignature_new {now : Int} {b : Bool}
    (h : SignedByNewKey C P m = true) : CheckSignature C P now m b = true := by
  simp [CheckSignature, h]

theorem CheckSignature_sound {now : Int} {b : Bool}
    (h : CheckSignature C P now m b = true) :
    SignedByNewKey C P m = true ∨ SignedByOldKey C P m = true := by
  simp only [CheckSignature] at h
  split at h
  · cases h
  · split at h
    · exact .inr h
    · exact .inl h

theorem Sign_triple {k : Option CKey} {id value time : Int}
    (h : Sign C k id value time = some m) : m.triple = (id, value, time) := by
  simp only [Sign] at h
  split at h
  · cases h
  · split at h
    · cases h
    · split at h
      · cases h; rfl
      · cases h

end

/-! ## The node's state and its three writers -/

structure SporkState where
  mapSporksActive : Int → Option CSporkMessage
  pSporkDB : Int → Option CSporkMessage

/-- A node that never ran: both maps empty. -/
def SporkState.fresh : SporkState := ⟨fun _ => none, fun _ => none⟩

/-- What `ProcessSpork` reads besides the message and the maps. -/
structure SporkEnv where
  fLiteMode : Bool
  hasTip : Bool -- `chainActive.Tip() != NULL`
  adjustedTime : Int

/-- The message gets past the early returns: it is about a spork in use and later
than the entry the node holds. -/
def SporkNews (env : SporkEnv) (s : SporkState) (spork : CSporkMessage) : Prop :=
  env.fLiteMode = false ∧ env.hasTip = true ∧ KnownSpork spork.nSporkID ∧
    ∀ a, s.mapSporksActive spork.nSporkID = some a → a.nTimeSigned < spork.nTimeSigned

section
variable (C : Crypto) (P : CChainParams)

/-- `ProcessSpork` on a `spork` message: the new state and the ban score. -/
def ProcessSpork (env : SporkEnv) (s : SporkState) (spork : CSporkMessage) : SporkState × Nat :=
  if env.fLiteMode then (s, 0)
  else if !env.hasTip then (s, 0)
  else if GetSporkNameByID spork.nSporkID = "Unknown" then (s, 0)
  else if (s.mapSporksActive spork.nSporkID).any (·.nTimeSigned ≥ spork.nTimeSigned) then (s, 0)
  else if spork.nTimeSigned ≥ P.NewSporkStart ∧ !CheckSignature C P env.adjustedTime spork true then
    (s, 100)
  else if !CheckSignature C P env.adjustedTime spork false then (s, 100)
  else
    ({ mapSporksActive := Function.update s.mapSporksActive spork.nSporkID (some spork)
       pSporkDB := Function.update s.pSporkDB spork.nSporkID (some spork) }, 0)

/-- `CSporkManager::UpdateSpork`. -/
def UpdateSpork (masterKey : Option CKey) (now : Int) (s : SporkState) (nSporkID nValue : Int) :
    SporkState × Bool :=
  match Sign C masterKey nSporkID nValue now with
  | some msg =>
    ({ s with mapSporksActive := Function.update s.mapSporksActive nSporkID (some msg) }, true)
  | none => (s, false)

/-- One round of the loop of `LoadSporksFromDB`. -/
def loadSpork (s : SporkState) (i : Int) : SporkState :=
  if GetSporkNameByID i = "Unknown" then s
  else
    match s.pSporkDB i with
    | none => s -- no previous value found in database
    | some spork =>
      { s with mapSporksActive := Function.update s.mapSporksActive spork.nSporkID (some spork) }

/-- `SPORK_START` to `SPORK_END`. -/
def sporkIDs : List Int :=
  (List.range (SPORK_END - SPORK_START + 1).toNat).map fun k : Nat => SPORK_START + k

def LoadSporksFromDB (s : SporkState) : SporkState := sporkIDs.foldl loadSpork s

/-- The process ends and starts again: memory is lost, the database is read back. -/
def restart (s : SporkState) : SporkState :=
  LoadSporksFromDB { s with mapSporksActive := fun _ => none }

/-- What can happen to the sporks of a node. -/
inductive SporkEvent where
  | receive (env : SporkEnv) (spork : CSporkMessage)
  | update (now nSporkID nValue : Int)
  | restart

def sporkStep (masterKey : Option CKey) (s : SporkState) : SporkEvent → SporkState
  | .receive env spork => (ProcessSpork C P env s spork).1
  | .update now nSporkID nValue => (UpdateSpork C masterKey now s nSporkID nValue).1
  | .restart => Divitae.restart s

end

/-- `GetSporkValue`: the active value, or the default. -/
def GetSporkValue (s : SporkState) (nSporkID : Int) : Int :=
  match s.mapSporksActive nSporkID with
  | some m => m.nValue
  | none =>
    match sporkTable.find? (·.1 == nSporkID) with
    | some row => row.2.2
    | none => -1

def IsSporkActive (s : SporkState) (now : Int) (nSporkID : Int) : Bool :=
  let r := GetSporkValue s nSporkID
  if r = -1 then false else r < now

section
variable {C : Crypto} {P : CChainParams} {k : Option CKey} {s : SporkState}

theorem ProcessSpork_cases (env : SporkEnv) (s : SporkState) (m : CSporkMessage) :
    (ProcessSpork C P env s m).1 = s ∨
    (SporkNews env s m ∧ CheckSignature C P env.adjustedTime m false = true ∧
      (ProcessSpork C P env s m).1 =
        { mapSporksActive := Function.update s.mapSporksActive m.nSporkID (some m)
          pSporkDB := Function.update s.pSporkDB m.nSporkID (some m) }) := by
  by_cases hlite : env.fLiteMode = true
  · exact .inl (by rw [ProcessSpork, if_pos hlite])
  by_cases htip : (!env.hasTip) = true
  · exact .inl (by rw [ProcessSpork, if_neg hlite, if_pos htip])
  by_cases hunk : GetSporkNameByID m.nSporkID = "Unknown"
  · exact .inl (by rw [ProcessSpork, if_neg hlite, if_neg htip, if_pos hunk])
  by_cases hseen : (s.mapSporksActive m.nSporkID).any (·.nTimeSigned ≥ m.nTimeSigned) = true
  · exact .inl (by rw [ProcessSpork, if_neg hlite, if_neg htip, if_neg hunk, if_pos hseen])
  by_cases hnew : m.nTimeSigned ≥ P.NewSporkStart ∧
      (!CheckSignature C P env.adjustedTime m true) = true
  · exact .inl (by
      rw [ProcessSpork, if_neg hlite, if_neg htip, if_neg hunk, if_neg hseen, if_pos hnew])
  by_cases hsig : (!CheckSignature C P env.adjustedTime m false) = true
  · exact .inl (by
      rw [ProcessSpork, if_neg hlite, if_neg htip, if_neg hunk, if_neg hseen, if_neg hnew,
        if_pos hsig])
  refine .inr ⟨⟨by simpa using hlite, by simpa using htip, hunk, ?_⟩, by simpa using hsig, ?_⟩
  · intro a ha
    simpa [ha] using hseen
  · rw [ProcessSpork, if_neg hlite, if_neg htip, if_neg hunk, if_neg hseen, if_neg hnew,
      if_neg hsig]

theorem ProcessSpork_news {env : SporkEnv} (hnews : SporkNews env s m)
    (hsig : SignedByNewKey C P m = true) :
    (ProcessSpork C P env s m).1 =
      { mapSporksActive := Function.update s.mapSporksActive m.nSporkID (some m)
        pSporkDB := Function.update s.pSporkDB m.nSporkID (some m) } := by
  obtain ⟨hlite, htip, hknown, hlate⟩ := hnews
  have hseen : ¬ (s.mapSporksActive m.nSporkID).any (·.nTimeSigned ≥ m.nTimeSigned) = true := by
    simpa [Option.any_eq_true] using hlate
  have hunk : ¬ GetSporkNameByID m.nSporkID = "Unknown" := hknown
  simp [ProcessSpork, hlite, htip, hunk, hseen, CheckSignature_new hsig]

theorem UpdateSpork_cases (now id v : Int) (s : SporkState) :
    (Sign C k id v now = none ∧ (UpdateSpork C k now s id v).1 = s) ∨
    ∃ m, Sign C k id v now = some m ∧ m.triple = (id, v, now) ∧
      (UpdateSpork C k now s id v).1 =
        { s with mapSporksActive := Function.update s.mapSporksActive id (some m) } := by
  cases hsign : Sign C k id v now with
  | none => exact .inl ⟨rfl, by simp [UpdateSpork, hsign]⟩
  | some m => exact .inr ⟨m, rfl, Sign_triple hsign, by simp [UpdateSpork, hsign]⟩

end

/-- The database files every message under its own id. -/
def DBKeyed (s : SporkState) : Prop := ∀ i m, s.pSporkDB i = some m → m.nSporkID = i

@[simp] theorem loadSpork_db (s : SporkState) (i : Int) :
    (loadSpork s i).pSporkDB = s.pSporkDB := by
  unfold loadSpork
  split_ifs
  · rfl
  · split <;> rfl

@[simp] theorem loadSporks_db (is : List Int) (s : SporkState) :
    (is.foldl loadSpork s).pSporkDB = s.pSporkDB := by
  induction is generalizing s with
  | nil => rfl
  | cons i is ih => simp [ih]

section
variable {s : SporkState} (hdb : DBKeyed s)
include hdb

theorem loadSpork_active (i id : Int) :
    (loadSpork s i).mapSporksActive id =
      if id = i ∧ KnownSpork i ∧ (s.pSporkDB i).isSome then s.pSporkDB i
      else s.mapSporksActive id := by
  by_cases hunk : GetSporkNameByID i = "Unknown"
  · have hk : ¬ KnownSpork i := fun h => h hunk
    rw [loadSpork, if_pos hunk, if_neg fun h => hk h.2.1]
  · have hk : KnownSpork i := hunk
    rw [loadSpork, if_neg hunk]
    cases hm : s.pSporkDB i with
    | none => simp
    | some m =>
      by_cases hid : id = i
      · simp [hdb i m hm, hid, hk]
      · simp [hdb i m hm, hid]

theorem loadSporks_active (is : List Int) (id : Int) :
    (is.foldl loadSpork s).mapSporksActive id =
      if id ∈ is ∧ KnownSpork id ∧ (s.pSporkDB id).isSome then s.pSporkDB id
      else s.mapSporksActive id := by
  induction is generalizing s with
  | nil => simp
  | cons i is ih =>
    have hdb' : DBKeyed (loadSpork s i) := by
      intro j m hj
      exact hdb j m (by simpa using hj)
    rw [List.foldl_cons, ih hdb', loadSpork_db, loadSpork_active hdb]
    by_cases hi : id = i
    · subst hi
      by_cases hk : KnownSpork id ∧ (s.pSporkDB id).isSome <;> simp [hk]
    · simp [hi]

theorem restart_active (id : Int) :
    (restart s).mapSporksActive id = if KnownSpork id then s.pSporkDB id else none := by
  have hmem : KnownSpork id → id ∈ sporkIDs := by
    intro h
    obtain ⟨hlo, hhi⟩ := h.range
    refine List.mem_map.mpr ⟨(id - SPORK_START).toNat, List.mem_range.mpr ?_, ?_⟩
    · unfold SPORK_START SPORK_END at *; omega
    · unfold SPORK_START at *; omega
  have hload := loadSporks_active (s := { s with mapSporksActive := fun _ => none }) hdb sporkIDs id
  refine hload.trans ?_
  by_cases hk : KnownSpork id
  · cases hm : s.pSporkDB id <;> simp [hk, hmem hk]
  · simp [hk]

end

@[simp] theorem restart_db (s : SporkState) : (restart s).pSporkDB = s.pSporkDB := loadSporks_db _ _

end Divitae
