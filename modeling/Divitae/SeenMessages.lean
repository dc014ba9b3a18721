/-
# `SeenMessages` — invalid messages and the seen maps

`ProcessMessage` of the prosperitynode list files a broadcast or a ping before it checks it,
under a hash that leaves out what is checked:

    fnb    sigTime, collateral key            not the address, the keys' signature, the ping
    fnp    input, sigTime                     not the block hash, the signature

An invalid message changes nothing in the list, but it stays filed, and the genuine one with its
hash is dropped as seen.  `effect_same_iff` says of any sequence of invalid messages that this is
all they can do.
-/
import Divitae.ProsperitynodeRuns

namespace Divitae.SeenMessages

def On (env : NodeEnv) : Prop := env.fLiteMode = false ∧ env.isBlockchainSynced = true

section
variable (C : Crypto) (T : Texts) (P : CChainParams)

/-- A broadcast with all that can be told from it and the key of its ping. -/
structure WellMadeBroadcast (env : NodeEnv) (s : CProsperitynodeMan)
    (b : CProsperitynodeBroadcast) : Prop where
  time : ¬ b.sigTime > env.adjustedTime + 60 * 60
  ping : b.lastPing.isDefault = false
  pingSigned : (b.lastPing.CheckAndUpdate C T env s false true).2.1 = true
  version : ¬ b.protocolVersion < env.minProto
  script : b.vin.scriptSig.isEmpty = true
  signed : b.VerifySignature C T = true
  port : ¬ (if P.networkID = .MAIN then b.addr.port ≠ 9765 else b.addr.port = 9765)

/-- A ping of this hour, signed by a listed node, on a block that is known and not too old. -/
structure WellMadePing (env : NodeEnv) (s : CProsperitynodeMan) (p : CProsperitynodePing) :
    Prop where
  future : ¬ p.sigTime > env.adjustedTime + 60 * 60
  past : ¬ p.sigTime ≤ env.adjustedTime - 60 * 60
  signed : ∃ pmn, s.Find p.vin = some pmn ∧ p.VerifySignature C T pmn.pubKeyProsperitynode = true
  block : ∃ nHeight, env.blockHeight p.blockHash = some nHeight ∧ ¬ nHeight < env.chainHeight - 24

/-- A message that is badly signed or malformed. -/
def Invalid (s : CProsperitynodeMan) (e : NodeEvent) : Prop :=
  match e with
  | .fnb env b => ¬ WellMadeBroadcast C T P env s b
  | .fnp env p => ¬ WellMadePing C T env s p
  | .cleanUp _ _ => False

/-- A message that has an effect on the list. -/
def Genuine (s : CProsperitynodeMan) (e : NodeEvent) : Prop :=
  match e with
  | .fnb env b => (nodeStep C T P s (.fnb env b)).vProsperitynodes ≠ s.vProsperitynodes
  | .fnp env p => (nodeStep C T P s (.fnp env p)).vProsperitynodes ≠ s.vProsperitynodes
  | .cleanUp _ _ => False

/-- The event files a broadcast under `h`. -/
def FilesBroadcast (h : uint256) (e : NodeEvent) : Prop :=
  match e with
  | .fnb env b => On env ∧ b.GetHash C = h
  | .fnp _ _ => False
  | .cleanUp _ _ => False

/-- The event files a ping under `h`. -/
def FilesPing (h : uint256) (e : NodeEvent) : Prop :=
  match e with
  | .fnb _ _ => False
  | .fnp env p => On env ∧ p.GetHash C = h
  | .cleanUp _ _ => False

/-- The event takes the entry of the message `e` in its seen map. -/
def Occupies (e i : NodeEvent) : Prop :=
  match e with
  | .fnb _ b => FilesBroadcast C (b.GetHash C) i
  | .fnp _ p => FilesPing C (p.GetHash C) i
  | .cleanUp _ _ => False

end

/-! ## What the checks read -/

/-- The list is the same; what is filed may not be. -/
def SameNodes (s s' : CProsperitynodeMan) : Prop := s'.vProsperitynodes = s.vProsperitynodes

/-- One answer, and lists that are the same. -/
structure SameResult {α : Type} (x x' : CProsperitynodeMan × α) : Prop where
  nodes : SameNodes x.1 x'.1
  result : x'.2 = x.2

section
variable {C : Crypto} {T : Texts} {P : CChainParams} {env : NodeEnv} {s s' : CProsperitynodeMan}

section
variable (h : SameNodes s s') (vin : CTxIn)
include h vin

theorem SameNodes.find : s'.Find vin = s.Find vin :=
  congrArg (List.find? _) h

theorem SameNodes.update
    (f : CProsperitynode → CProsperitynode) : SameNodes (s.update vin f) (s'.update vin f) :=
  congrArg (modifyFirst _ f) h

theorem SameNodes.remove :
    SameNodes (s.Remove vin) (s'.Remove vin) := congrArg (List.eraseP _) h

end

theorem SameNodes.add (h : SameNodes s s') (mn : CProsperitynode) :
    SameNodes (s.Add mn) (s'.Add mn) := by
  unfold CProsperitynodeMan.Add
  rw [h.find]
  split_ifs
  · exact h
  · cases s.Find mn.vin with
    | none => exact congrArg (· ++ [mn]) h
    | some _ => exact h

theorem SameResult.ite {α : Type} {c : Prop} [Decidable c] {x x' y y' : CProsperitynodeMan × α}
    (hx : SameResult x x') (hy : SameResult y y') :
    SameResult (if c then x else y) (if c then x' else y') := by
  by_cases hc : c
  · rw [if_pos hc, if_pos hc]
    exact hx
  · rw [if_neg hc, if_neg hc]
    exact hy

variable (C T env) in
theorem pingCheck_same (h : SameNodes s s') (p : CProsperitynodePing) (r t : Bool) :
    SameResult (p.CheckAndUpdate C T env s r t) (p.CheckAndUpdate C T env s' r t) := by
  unfold CProsperitynodePing.CheckAndUpdate
  rw [h.find]
  split_ifs
  · exact ⟨h, rfl⟩
  · exact ⟨h, rfl⟩
  · cases s.Find p.vin with
    | none => exact ⟨h, rfl⟩
    | some pmn =>
      dsimp only
      split_ifs
      · exact ⟨h, rfl⟩
      · exact ⟨h, rfl⟩
  · cases s.Find p.vin with
    | none => exact ⟨h, rfl⟩
    | some pmn =>
      dsimp only
      split_ifs
      · exact ⟨h, rfl⟩
      · exact ⟨h, rfl⟩
      · exact ⟨h, rfl⟩
      · exact ⟨h, rfl⟩
      · cases env.blockHeight p.blockHash with
        | none => exact ⟨h, rfl⟩
        | some nHeight =>
          dsimp only
          split_ifs
          · exact ⟨h, rfl⟩
          · exact ⟨h.update p.vin _, rfl⟩

/-- The listed node with what a newer broadcast says. -/
def renewed (b : CProsperitynodeBroadcast) (mn : CProsperitynode) : CProsperitynode :=
  { mn with
    pubKeyProsperitynode := b.pubKeyProsperitynode
    pubKeyCollateralAddress := b.pubKeyCollateralAddress
    sigTime := b.sigTime
    sig := b.sig
    protocolVersion := b.protocolVersion
    addr := b.addr
    lastTimeChecked := 0 }

/-- The ping a broadcast carries, checked on the renewed list. -/
def carriedPing (C : Crypto) (T : Texts) (env : NodeEnv) (s : CProsperitynodeMan)
    (b : CProsperitynodeBroadcast) : CProsperitynodeMan × Bool :=
  if b.lastPing.isDefault then (s, true)
  else
    ((b.lastPing.CheckAndUpdate C T env s false false).1,
      (b.lastPing.CheckAndUpdate C T env s false false).2.1)

/-- The renewed list, with the ping if it passed. -/
def keepPing (C : Crypto) (pmn : CProsperitynode) (b : CProsperitynodeBroadcast)
    (r : CProsperitynodeMan × Bool) : CProsperitynodeMan :=
  if r.2 then
    { r.1.update pmn.vin (fun mn => { mn with lastPing := b.lastPing }) with
      mapSeenProsperitynodePing :=
        mapInsert r.1.mapSeenProsperitynodePing (b.lastPing.GetHash C) b.lastPing }
  else r.1

theorem UpdateFromNewBroadcast_eq (s : CProsperitynodeMan) (pmn : CProsperitynode)
    (b : CProsperitynodeBroadcast) : UpdateFromNewBroadcast C T env s pmn b =
      if b.sigTime > pmn.sigTime then
        (keepPing C pmn b (carriedPing C T env (s.update pmn.vin (renewed b)) b), true)
      else (s, false) := by
  unfold UpdateFromNewBroadcast
  by_cases htime : b.sigTime > pmn.sigTime
  · rw [if_pos htime, if_pos htime]
    rw [keepPing]
    show (if (carriedPing C T env (s.update pmn.vin (renewed b)) b).2 then _ else _) = _
    split <;> rfl
  · rw [if_neg htime, if_neg htime]

variable (C T env) in
theorem update_same (h : SameNodes s s') (pmn : CProsperitynode) (b : CProsperitynodeBroadcast) :
    SameResult (UpdateFromNewBroadcast C T env s pmn b)
      (UpdateFromNewBroadcast C T env s' pmn b) := by
  rw [UpdateFromNewBroadcast_eq, UpdateFromNewBroadcast_eq]
  split_ifs with htime
  · refine ⟨?_, rfl⟩
    have hrenewed := h.update pmn.vin (renewed b)
    have hcarried : SameResult (carriedPing C T env (s.update pmn.vin (renewed b)) b)
        (carriedPing C T env (s'.update pmn.vin (renewed b)) b) := by
      have hping := pingCheck_same C T env hrenewed b.lastPing false false
      unfold carriedPing
      split_ifs
      · exact ⟨hrenewed, rfl⟩
      · exact ⟨hping.nodes, congrArg Prod.fst hping.result⟩
    unfold keepPing
    rw [hcarried.result]
    split_ifs
    · exact hcarried.nodes.update pmn.vin _
    · exact hcarried.nodes
  · exact ⟨h, rfl⟩

variable (C T P env) in
theorem broadcastCheck_same (h : SameNodes s s') (b : CProsperitynodeBroadcast) :
    SameResult (b.CheckAndUpdate C T P env s) (b.CheckAndUpdate C T P env s') := by
  have hping := (pingCheck_same C T env h b.lastPing false true).result
  rcases hx : b.lastPing.CheckAndUpdate C T env s false true with ⟨u, fPing, nDos⟩
  rcases hx' : b.lastPing.CheckAndUpdate C T env s' false true with ⟨u', fPing', nDos'⟩
  rw [hx, hx'] at hping
  cases hping
  unfold CProsperitynodeBroadcast.CheckAndUpdate
  rw [hx, hx', h.find]
  refine .ite ⟨h, rfl⟩ (.ite ⟨h, rfl⟩ (.ite ⟨h, rfl⟩ (.ite ⟨h, rfl⟩ (.ite ⟨h, rfl⟩ ?_))))
  refine .ite ⟨h, rfl⟩ (.ite ⟨h, rfl⟩ (.ite ⟨h, rfl⟩ (.ite ⟨h, rfl⟩ ?_)))
  cases s.Find b.vin with
  | none => exact ⟨h, rfl⟩
  | some pmn =>
    have hupdate := update_same C T env h pmn b
    refine .ite ⟨h, rfl⟩ (.ite ⟨h, rfl⟩ (.ite ⟨?_, rfl⟩ ⟨h, rfl⟩))
    show SameNodes (if (UpdateFromNewBroadcast C T env s pmn b).2 = true then _ else _)
      (if (UpdateFromNewBroadcast C T env s' pmn b).2 = true then _ else _)
    rw [hupdate.result]
    split_ifs
    · exact hupdate.nodes.update pmn.vin _
    · exact hupdate.nodes

variable (C T env) in
theorem inputsCheck_same (h : SameNodes s s') (b : CProsperitynodeBroadcast) :
    SameResult (b.CheckInputsAndAdd C T env s) (b.CheckInputsAndAdd C T env s') := by
  have hping := (pingCheck_same C T env h b.lastPing false true).result
  rcases hx : b.lastPing.CheckAndUpdate C T env s false true with ⟨u, fPing, nDos⟩
  rcases hx' : b.lastPing.CheckAndUpdate C T env s' false true with ⟨u', fPing', nDos'⟩
  rw [hx, hx'] at hping
  cases hping
  unfold CProsperitynodeBroadcast.CheckInputsAndAdd
  rw [hx, hx', h.find]
  refine .ite ⟨h, rfl⟩ (.ite ⟨h, rfl⟩ (.ite ⟨h, rfl⟩ (.ite ⟨h, rfl⟩ ?_)))
  cases s.Find b.vin with
  | none => exact .ite ⟨h, rfl⟩ (.ite ⟨h, rfl⟩ (.ite ⟨h, rfl⟩ (.ite ⟨h, rfl⟩ ⟨h.add _, rfl⟩)))
  | some pmn =>
    have hrest := h.remove pmn.vin
    exact .ite ⟨hrest, rfl⟩ (.ite ⟨hrest, rfl⟩ (.ite ⟨hrest, rfl⟩ (.ite ⟨hrest, rfl⟩
      ⟨hrest.add _, rfl⟩)))

/-! ## One message -/

def filedBroadcast (C : Crypto) (s : CProsperitynodeMan) (b : CProsperitynodeBroadcast) :
    CProsperitynodeMan :=
  { s with
    mapSeenProsperitynodeBroadcast := mapInsert s.mapSeenProsperitynodeBroadcast (b.GetHash C) b }

def filedPing (C : Crypto) (s : CProsperitynodeMan) (p : CProsperitynodePing) :
    CProsperitynodeMan :=
  { s with mapSeenProsperitynodePing := mapInsert s.mapSeenProsperitynodePing (p.GetHash C) p }

theorem broadcast_dropped (b : CProsperitynodeBroadcast)
    (h : ¬ On env ∨ (s.mapSeenProsperitynodeBroadcast (b.GetHash C)).isSome = true) :
    nodeStep C T P s (.fnb env b) = s := by
  show (ProcessBroadcast C T P env s b).1 = s
  unfold ProcessBroadcast
  by_cases hlite : env.fLiteMode = true
  · rw [if_pos hlite]
  · rw [if_neg hlite]
    by_cases hsync : env.isBlockchainSynced = true
    · have hseen := h.resolve_left (not_not_intro ⟨by simpa using hlite, hsync⟩)
      rw [if_neg (by simp [hsync]), if_pos hseen]
    · rw [if_pos (by simp [hsync])]

theorem ping_dropped (p : CProsperitynodePing)
    (h : ¬ On env ∨ (s.mapSeenProsperitynodePing (p.GetHash C)).isSome = true) :
    nodeStep C T P s (.fnp env p) = s := by
  show (ProcessPing C T env s p).1 = s
  unfold ProcessPing
  by_cases hlite : env.fLiteMode = true
  · rw [if_pos hlite]
  · rw [if_neg hlite]
    by_cases hsync : env.isBlockchainSynced = true
    · have hseen := h.resolve_left (not_not_intro ⟨by simpa using hlite, hsync⟩)
      rw [if_neg (by simp [hsync]), if_pos hseen]
    · rw [if_pos (by simp [hsync])]

/-- What a broadcast does once it is filed. -/
def heardBroadcast (C : Crypto) (T : Texts) (P : CChainParams) (env : NodeEnv)
    (s : CProsperitynodeMan) (b : CProsperitynodeBroadcast) : CProsperitynodeMan :=
  let r := b.CheckAndUpdate C T P env s
  if !r.2.1 then r.1
  else if !IsVinAssociatedWithPubkey C env b.vin b.pubKeyCollateralAddress then r.1
  else (b.CheckInputsAndAdd C T env r.1).1

theorem broadcast_heard (b : CProsperitynodeBroadcast) (hon : On env)
    (hnew : s.mapSeenProsperitynodeBroadcast (b.GetHash C) = none) :
    nodeStep C T P s (.fnb env b) = heardBroadcast C T P env (filedBroadcast C s b) b := by
  show (ProcessBroadcast C T P env s b).1 = _
  unfold ProcessBroadcast
  rw [if_neg (by simp [hon.1]), if_neg (by simp [hon.2]), if_neg (by simp [hnew])]
  unfold heardBroadcast filedBroadcast
  dsimp only
  split_ifs <;> rfl

theorem ping_heard (p : CProsperitynodePing) (hon : On env)
    (hnew : s.mapSeenProsperitynodePing (p.GetHash C) = none) :
    nodeStep C T P s (.fnp env p) = (p.CheckAndUpdate C T env (filedPing C s p) true false).1 := by
  show (ProcessPing C T env s p).1 = _
  unfold ProcessPing
  rw [if_neg (by simp [hon.1]), if_neg (by simp [hon.2]), if_neg (by simp [hnew])]
  rfl

theorem heardBroadcast_same (h : SameNodes s s') (b : CProsperitynodeBroadcast) :
    SameNodes (heardBroadcast C T P env s b) (heardBroadcast C T P env s' b) := by
  have hcheck := broadcastCheck_same C T P env h b
  have hinputs := inputsCheck_same C T env hcheck.nodes b
  unfold heardBroadcast
  dsimp only
  rw [hcheck.result]
  split_ifs
  · exact hcheck.nodes
  · exact hcheck.nodes
  · exact hinputs.nodes

/-! ## An invalid message -/

variable {b : CProsperitynodeBroadcast}

theorem broadcastCheck_invalid
    (h : ¬ WellMadeBroadcast C T P env s b) :
    (b.CheckAndUpdate C T P env s).1 = s ∧ (b.CheckAndUpdate C T P env s).2.1 = false := by
  have hfails (c : Prop) [Decidable c] (n : Nat) (y : CProsperitynodeMan × Bool × Nat)
      (hy : ¬ c → y.1 = s ∧ y.2.1 = false) :
      (if c then (s, false, n) else y).1 = s ∧ (if c then (s, false, n) else y).2.1 = false := by
    by_cases hc : c
    · rw [if_pos hc]
      exact ⟨rfl, rfl⟩
    · rw [if_neg hc]
      exact hy hc
  unfold CProsperitynodeBroadcast.CheckAndUpdate
  dsimp only
  refine hfails _ _ _ fun htime => hfails _ _ _ fun hping => hfails _ _ _ fun hsigned => ?_
  refine hfails _ _ _ fun hversion => hfails _ _ _ fun _ => hfails _ _ _ fun _ => ?_
  refine hfails _ _ _ fun hscript => hfails _ _ _ fun hsig => hfails _ _ _ fun hport => ?_
  refine absurd ?_ h
  exact ⟨htime, by simpa using hping, by simpa using hsigned, hversion, by simpa using hscript,
    by simpa using hsig, hport⟩

variable {p : CProsperitynodePing}

theorem pingCheck_invalid (h : ¬ WellMadePing C T env s p) :
    (p.CheckAndUpdate C T env s true false).1 = s := by
  have hstays (c : Prop) [Decidable c] (r : Bool × Nat) (y : CProsperitynodeMan × Bool × Nat)
      (hy : ¬ c → y.1 = s) : (if c then (s, r) else y).1 = s := by
    by_cases hc : c
    · rw [if_pos hc]
    · rw [if_neg hc]
      exact hy hc
  refine hstays _ _ _ fun hfuture => hstays _ _ _ fun hpast => ?_
  cases hfind : s.Find p.vin with
  | none => rfl
  | some pmn =>
    refine hstays _ _ _ fun _ => hstays _ _ _ fun _ => hstays _ _ _ fun _ => ?_
    refine hstays _ _ _ fun hsig => ?_
    cases hblock : env.blockHeight p.blockHash with
    | none => rfl
    | some nHeight =>
      refine hstays _ _ _ fun hold => absurd ?_ h
      exact ⟨hfuture, hpast, ⟨pmn, hfind, by simpa using hsig⟩, ⟨nHeight, hblock, hold⟩⟩

/-- What an invalid message leaves: the list, and one more hash filed. -/
structure Refused (C : Crypto) (e : NodeEvent) (s s' : CProsperitynodeMan) : Prop where
  nodes : SameNodes s s'
  broadcast : ∀ h, (s'.mapSeenProsperitynodeBroadcast h).isSome = true ↔
    (s.mapSeenProsperitynodeBroadcast h).isSome = true ∨ FilesBroadcast C h e
  ping : ∀ h, (s'.mapSeenProsperitynodePing h).isSome = true ↔
    (s.mapSeenProsperitynodePing h).isSome = true ∨ FilesPing C h e

theorem refused_of_dropped {e : NodeEvent} (hstep : nodeStep C T P s e = s)
    (hbroadcast : ∀ h, FilesBroadcast C h e → (s.mapSeenProsperitynodeBroadcast h).isSome = true)
    (hping : ∀ h, FilesPing C h e → (s.mapSeenProsperitynodePing h).isSome = true) :
    Refused C e s (nodeStep C T P s e) := by
  rw [hstep]
  refine ⟨rfl, ?_, ?_⟩
  · intro h
    exact ⟨.inl, fun hseen => hseen.elim id (hbroadcast h)⟩
  · intro h
    exact ⟨.inl, fun hseen => hseen.elim id (hping h)⟩

theorem refused_of_filedBroadcast (hon : On env)
    (hstep : nodeStep C T P s (.fnb env b) = filedBroadcast C s b) :
    Refused C (.fnb env b) s (nodeStep C T P s (.fnb env b)) := by
  rw [hstep]
  refine ⟨rfl, ?_, ?_⟩
  · intro h
    have hfiled := mapInsert_isSome s.mapSeenProsperitynodeBroadcast (b.GetHash C) b h
    simpa [FilesBroadcast, filedBroadcast, hon] using hfiled
  · intro h
    simp [FilesPing, filedBroadcast]

theorem refused_of_filedPing (hon : On env)
    (hstep : nodeStep C T P s (.fnp env p) = filedPing C s p) :
    Refused C (.fnp env p) s (nodeStep C T P s (.fnp env p)) := by
  rw [hstep]
  refine ⟨rfl, ?_, ?_⟩
  · intro h
    simp [FilesBroadcast, filedPing]
  · intro h
    have hfiled := mapInsert_isSome s.mapSeenProsperitynodePing (p.GetHash C) p h
    simpa [FilesPing, filedPing, hon] using hfiled

theorem WellMadeBroadcast.same (h : SameNodes s s')
    (hmade : WellMadeBroadcast C T P env s' b) : WellMadeBroadcast C T P env s b := by
  have hping := (pingCheck_same C T env h b.lastPing false true).result
  refine ⟨hmade.time, hmade.ping, ?_, hmade.version, hmade.script, hmade.signed, hmade.port⟩
  exact (congrArg Prod.fst hping).symm.trans hmade.pingSigned

theorem refused_step (e : NodeEvent) (h : Invalid C T P s e) :
    Refused C e s (nodeStep C T P s e) := by
  cases e with
  | cleanUp env force => exact h.elim
  | fnb env b =>
    by_cases hdrop : ¬ On env ∨ (s.mapSeenProsperitynodeBroadcast (b.GetHash C)).isSome = true
    · refine refused_of_dropped (broadcast_dropped b hdrop) ?_ fun _ hnever => hnever.elim
      rintro k ⟨hon, rfl⟩
      exact hdrop.resolve_left (not_not_intro hon)
    · obtain ⟨hon, hnew⟩ := not_or.mp hdrop
      have hmade : ¬ WellMadeBroadcast C T P env (filedBroadcast C s b) b := by
        intro hmade
        exact h (hmade.same (show SameNodes s (filedBroadcast C s b) from rfl))
      obtain ⟨hstate, hfails⟩ := broadcastCheck_invalid hmade
      refine refused_of_filedBroadcast (not_not.mp hon) ?_
      rw [broadcast_heard b (not_not.mp hon) (Option.not_isSome_iff_eq_none.mp hnew)]
      simp [heardBroadcast, hfails, hstate]
  | fnp env p =>
    by_cases hdrop : ¬ On env ∨ (s.mapSeenProsperitynodePing (p.GetHash C)).isSome = true
    · refine refused_of_dropped (ping_dropped p hdrop) (fun _ hnever => hnever.elim) ?_
      rintro k ⟨hon, rfl⟩
      exact hdrop.resolve_left (not_not_intro hon)
    · obtain ⟨hon, hnew⟩ := not_or.mp hdrop
      refine refused_of_filedPing (not_not.mp hon) ?_
      rw [ping_heard p (not_not.mp hon) (Option.not_isSome_iff_eq_none.mp hnew)]
      exact pingCheck_invalid fun hmade =>
        h ⟨hmade.future, hmade.past, hmade.signed, hmade.block⟩

theorem refused_run (es : List NodeEvent)
    (h : Run.Guarded (nodeStep C T P) (Invalid C T P) s es) :
    SameNodes s (es.foldl (nodeStep C T P) s) ∧
      (∀ k, ((es.foldl (nodeStep C T P) s).mapSeenProsperitynodeBroadcast k).isSome = true ↔
        (s.mapSeenProsperitynodeBroadcast k).isSome = true ∨ ∃ e ∈ es, FilesBroadcast C k e) ∧
      ∀ k, ((es.foldl (nodeStep C T P) s).mapSeenProsperitynodePing k).isSome = true ↔
        (s.mapSeenProsperitynodePing k).isSome = true ∨ ∃ e ∈ es, FilesPing C k e := by
  induction es generalizing s with
  | nil => exact ⟨rfl, fun k => by simp, fun k => by simp⟩
  | cons e es ih =>
    have hone := refused_step e h.1
    obtain ⟨hnodes, hbroadcast, hping⟩ := ih h.2
    refine ⟨hnodes.trans hone.nodes, ?_, ?_⟩
    · intro k
      rw [List.foldl_cons, hbroadcast, hone.broadcast]
      simp [or_assoc]
    · intro k
      rw [List.foldl_cons, hping, hone.ping]
      simp [or_assoc]

/-! ## A message afterwards -/

/-- How the manager treats the message `e`: it drops it when it does not work on it or has its
hash filed, and else lets `heard` work on the list. -/
structure Treats (C : Crypto) (T : Texts) (P : CChainParams) (e : NodeEvent) (on : Prop)
    (seen : CProsperitynodeMan → Prop) (heard : CProsperitynodeMan → CProsperitynodeMan) :
    Prop where
  drops : ∀ s, ¬ on ∨ seen s → nodeStep C T P s e = s
  hears : ∀ s, on → ¬ seen s → nodeStep C T P s e = heard s
  same : ∀ s s', SameNodes s s' → SameNodes (heard s) (heard s')

variable (C T P env) in
theorem broadcast_treats (b : CProsperitynodeBroadcast) :
    Treats C T P (.fnb env b) (On env)
      (fun s => (s.mapSeenProsperitynodeBroadcast (b.GetHash C)).isSome = true)
      (fun s => heardBroadcast C T P env (filedBroadcast C s b) b) where
  drops _ hdrop := broadcast_dropped b hdrop
  hears _ hon hnew := broadcast_heard b hon (Option.not_isSome_iff_eq_none.mp hnew)
  same s s' hnodes := by
    have hfiled : SameNodes (filedBroadcast C s b) (filedBroadcast C s' b) := hnodes
    exact heardBroadcast_same hfiled b

variable (C T P env) in
theorem ping_treats (p : CProsperitynodePing) :
    Treats C T P (.fnp env p) (On env)
      (fun s => (s.mapSeenProsperitynodePing (p.GetHash C)).isSome = true)
      (fun s => (p.CheckAndUpdate C T env (filedPing C s p) true false).1) where
  drops _ hdrop := ping_dropped p hdrop
  hears _ hon hnew := ping_heard p hon (Option.not_isSome_iff_eq_none.mp hnew)
  same s s' hnodes := by
    have hfiled : SameNodes (filedPing C s p) (filedPing C s' p) := hnodes
    exact (pingCheck_same C T env hfiled p true false).nodes

variable {e : NodeEvent} {on : Prop} {seen : CProsperitynodeMan → Prop}
  {heard : CProsperitynodeMan → CProsperitynodeMan} {taken : Prop}

theorem Treats.kept_iff (h : Treats C T P e on seen heard) (hnodes : SameNodes s s')
    (hseen : seen s' ↔ seen s ∨ taken)
    (heffect : (nodeStep C T P s e).vProsperitynodes ≠ s.vProsperitynodes) :
    (nodeStep C T P s' e).vProsperitynodes = (nodeStep C T P s e).vProsperitynodes ↔ ¬ taken := by
  obtain ⟨hon, hnew⟩ : on ∧ ¬ seen s := by
    by_contra hno
    have hdrop := h.drops s ((not_and_or.mp hno).imp_right not_not.mp)
    exact heffect (congrArg _ hdrop)
  constructor
  · intro hsame htaken
    rw [h.drops s' (.inr (hseen.mpr (.inr htaken)))] at hsame
    exact heffect (hsame.symm.trans hnodes)
  · intro hfree
    have hnew' : ¬ seen s' := fun hfiled => (hseen.mp hfiled).elim hnew hfree
    rw [h.hears s' hon hnew', h.hears s hon hnew]
    exact h.same s s' hnodes

end

/-- **What invalid messages can do.**  After any of them a message that has an effect on the
list has the same effect, exactly when none of them took its entry: none is of its kind, was
worked on and has its hash. -/
theorem effect_same_iff (C : Crypto) (T : Texts) (P : CChainParams) (s : CProsperitynodeMan)
    (bad : List NodeEvent) (e : NodeEvent)
    (hbad : Run.Guarded (nodeStep C T P) (Invalid C T P) s bad) (hgen : Genuine C T P s e) :
    (nodeStep C T P (bad.foldl (nodeStep C T P) s) e).vProsperitynodes =
        (nodeStep C T P s e).vProsperitynodes ↔
      ∀ i ∈ bad, ¬ Occupies C e i := by
  obtain ⟨hnodes, hbroadcast, hping⟩ := refused_run bad hbad
  have hnone : (∀ i ∈ bad, ¬ Occupies C e i) ↔ ¬ ∃ i ∈ bad, Occupies C e i := by
    push Not
    exact Iff.rfl
  rw [hnone]
  cases e with
  | cleanUp env force => exact hgen.elim
  | fnb env b => exact (broadcast_treats C T P env b).kept_iff hnodes (hbroadcast _) hgen
  | fnp env p => exact (ping_treats C T P env p).kept_iff hnodes (hping _) hgen

/-! ## Forged messages -/

/-- A minute and more after the ping the node announced itself with. -/
def pingEnv : NodeEnv := { announceEnv with time := 1700001000, adjustedTime := 1700001000 }

def nodePing (sigTime : Int) (vchSig : List UInt8) : CProsperitynodePing :=
  ⟨⟨⟨7, 0⟩, [], 0xFFFFFFFF⟩, 9, sigTime, vchSig⟩

/-- The node's key signed one ping. -/
def pingCrypto : Crypto :=
  .onTexts (compressedKey 2) [(nodePing 1700000900 []).strMessage plainTexts]

def listedNode : CProsperitynodeMan :=
  ⟨[.ofBroadcast (announcement 0 1690000000 [])], fun _ => none, fun _ => none⟩

theorem invalid_of_forged {C : Crypto} {T : Texts} {P : CChainParams} {env : NodeEnv}
    {s : CProsperitynodeMan} {pmn : CProsperitynode}
    (hfind : s.Find p.vin = some pmn)
    (hforged : p.VerifySignature C T pmn.pubKeyProsperitynode = false) :
    Invalid C T P s (.fnp env p) := by
  intro hmade
  obtain ⟨pmn', hfind', hsigned⟩ := hmade.signed
  obtain rfl : pmn = pmn' := Option.some.inj (hfind.symm.trans hfind')
  rw [hforged] at hsigned
  cases hsigned

theorem invalid_of_unsigned {C : Crypto} {T : Texts} {P : CChainParams} {env : NodeEnv}
    {s : CProsperitynodeMan} (h : b.VerifySignature C T = false) :
    Invalid C T P s (.fnb env b) := by
  intro hmade
  have hsigned := hmade.signed
  rw [h] at hsigned
  cases hsigned

/-- A forged broadcast of another second is in nobody's way. -/
theorem other_broadcast_harmless :
    (nodeStep twoAnnouncer plainTexts mainParams
        ([.fnb announceEnv (announcement 0 1700000001 [9])].foldl
          (nodeStep twoAnnouncer plainTexts mainParams) .empty)
        (.fnb announceEnv (announcement 0 1700000000 [0]))).vProsperitynodes =
      (nodeStep twoAnnouncer plainTexts mainParams .empty
        (.fnb announceEnv (announcement 0 1700000000 [0]))).vProsperitynodes := by
  refine (effect_same_iff twoAnnouncer plainTexts mainParams .empty
    [.fnb announceEnv (announcement 0 1700000001 [9])]
    (.fnb announceEnv (announcement 0 1700000000 [0])) ⟨?_, trivial⟩ ?_).mpr ?_
  · exact invalid_of_unsigned (by decide +kernel)
  · show (nodeStep twoAnnouncer plainTexts mainParams .empty
      (.fnb announceEnv (announcement 0 1700000000 [0]))).vProsperitynodes ≠ []
    decide +kernel
  · intro i hi
    obtain rfl := List.mem_singleton.mp hi
    rintro ⟨-, hhash⟩
    revert hhash
    decide +kernel

/-- **Forged copies that come first.**  A ping with a signature of nobody keeps the node's own
ping of that second out, and a broadcast with a bad signature keeps the node itself out. -/
theorem forged_copies_hide :
    (Run.Guarded (nodeStep pingCrypto plainTexts mainParams)
          (Invalid pingCrypto plainTexts mainParams) listedNode
          [.fnp pingEnv (nodePing 1700000900 [9])] ∧
        Genuine pingCrypto plainTexts mainParams listedNode
          (.fnp pingEnv (nodePing 1700000900 [0])) ∧
        (nodeStep pingCrypto plainTexts mainParams
            ([.fnp pingEnv (nodePing 1700000900 [9])].foldl
              (nodeStep pingCrypto plainTexts mainParams) listedNode)
            (.fnp pingEnv (nodePing 1700000900 [0]))).vProsperitynodes ≠
          (nodeStep pingCrypto plainTexts mainParams listedNode
            (.fnp pingEnv (nodePing 1700000900 [0]))).vProsperitynodes) ∧
      (Run.Guarded (nodeStep twoAnnouncer plainTexts mainParams)
          (Invalid twoAnnouncer plainTexts mainParams) .empty
          [.fnb announceEnv (announcement 0 1700000000 [9])] ∧
        Genuine twoAnnouncer plainTexts mainParams .empty
          (.fnb announceEnv (announcement 0 1700000000 [0])) ∧
        (nodeStep twoAnnouncer plainTexts mainParams
            ([.fnb announceEnv (announcement 0 1700000000 [9])].foldl
              (nodeStep twoAnnouncer plainTexts mainParams) .empty)
            (.fnb announceEnv (announcement 0 1700000000 [0]))).vProsperitynodes = []) := by
  refine ⟨⟨⟨?_, trivial⟩, ?_, ?_⟩, ⟨?_, trivial⟩, ?_, ?_⟩
  · exact invalid_of_forged (by decide +kernel :
      listedNode.Find (nodePing 1700000900 [9]).vin =
        some (.ofBroadcast (announcement 0 1690000000 []))) (by decide +kernel)
  · show (nodeStep pingCrypto plainTexts mainParams listedNode
      (.fnp pingEnv (nodePing 1700000900 [0]))).vProsperitynodes ≠ listedNode.vProsperitynodes
    decide +kernel
  · decide +kernel
  · exact invalid_of_unsigned (by decide +kernel)
  · show (nodeStep twoAnnouncer plainTexts mainParams .empty
      (.fnb announceEnv (announcement 0 1700000000 [0]))).vProsperitynodes ≠ []
    decide +kernel
  · decide +kernel

end Divitae.SeenMessages
