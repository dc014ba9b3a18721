/-
# `ObfuscationPool` — a mixing session on the serving node

`CObfuscationPool` of `obfuscation.cpp`, as the prosperitynode has it that serves the session.

    dsa         asks for a place in the session; the users are counted, not noted
    dsi         submits an entry, once there are as many users as the session takes
    dss         hands in signatures, at any time
    AddEntry    refuses for four reasons, and takes a user off each time
    Check       merges the entries when there are enough, and sends the transaction when all
                inputs are signed

Nobody asks who sends an entry: `sessionUsers` is taken down for whoever is refused.  A session
that remembers its users (`Session.counted`) tells when that is one of them.

`prevPubKey` is not part of a message, so on this node it is empty.  The checks before `AddEntry`,
and what comes of the collateral, are verdicts of the messages; the removal of single entries that
have expired is left out.
-/
import Divitae.Transaction

namespace Divitae.Obfuscation

open List

def GetMaxPoolTransactions : Network → ℕ
  | .MAIN => 3
  | .TESTNET => 2
  | .REGTEST => 2

/-- `POOL_STATUS_*`; a serving node is never in `ERROR` or `SUCCESS`. -/
inductive PoolStatus where
  | IDLE
  | QUEUE
  | ACCEPTING_ENTRIES
  | FINALIZE_TRANSACTION
  | SIGNING
  | TRANSMISSION
  deriving DecidableEq

inductive PoolMessage where
  | ERR_ALREADY_HAVE
  | ERR_DENOM
  | ERR_ENTRIES_FULL
  | ERR_INVALID_COLLATERAL
  | ERR_INVALID_INPUT
  | ERR_MODE
  | ERR_QUEUE_FULL
  | MSG_ENTRIES_ADDED
  deriving DecidableEq

structure CTxDSIn extends CTxIn where
  fHasSig : Bool := false
  deriving DecidableEq

structure CObfuScationEntry where
  sev : List CTxDSIn
  vout : List CTxOut

/-- A transaction as its signatures are checked: the other scripts are blanked. -/
structure Unsigned where
  vin : List (COutPoint × Nat)
  vout : List CTxOut
  deriving DecidableEq

structure CObfuscationPool where
  state : PoolStatus := .IDLE
  sessionDenom : Int := 0
  sessionUsers : Int := 0
  entries : List CObfuScationEntry := []
  /-- `finalTransaction` -/
  finalVin : List CTxIn := []
  finalVout : List CTxOut := []

/-- What a call of `Check` finds: the shuffles, and what comes of the transaction that is sent;
`none` where it cannot be signed for. -/
structure Chance where
  shuffleVin : List CTxIn → List CTxIn
  shuffleVout : List CTxOut → List CTxOut
  vin_perm : ∀ l, (shuffleVin l).Perm l
  vout_perm : ∀ l, (shuffleVout l).Perm l
  accepted : Option Bool

namespace CObfuscationPool

section
variable (network : Network) (p : CObfuscationPool)

def IsSessionReady : Bool := (GetMaxPoolTransactions network : Int) ≤ p.sessionUsers

/-- The inputs of all entries, in their order. -/
def inputs : List CTxDSIn := p.entries.flatMap CObfuScationEntry.sev

/-- The transaction `SignatureValid` puts together. -/
def merged : Unsigned :=
  ⟨p.inputs.map fun s => (s.prevout, s.nSequence), p.entries.flatMap CObfuScationEntry.vout⟩

def IsCompatibleWithSession (nDenom : Int) (collateralValid : Bool) :
    CObfuscationPool × Bool × Option PoolMessage :=
  if nDenom = 0 then (p, false, none)
  else if !collateralValid then (p, false, some .ERR_INVALID_COLLATERAL)
  else
    let p := if p.sessionUsers < 0 then { p with sessionUsers := 0 } else p
    if p.sessionUsers = 0 then
      ({ p with
        sessionDenom := nDenom
        sessionUsers := p.sessionUsers + 1
        state := .QUEUE }, true, none)
    else if (p.state ≠ .ACCEPTING_ENTRIES ∧ p.state ≠ .QUEUE) ∨ p.IsSessionReady network then
      (p, false, some (if p.IsSessionReady network then .ERR_QUEUE_FULL else .ERR_MODE))
    else if nDenom ≠ p.sessionDenom then (p, false, some .ERR_DENOM)
    else ({ p with sessionUsers := p.sessionUsers + 1 }, true, none)

/-- What `AddEntry` asks of an entry, in this order. -/
def refusal (newInput : List CTxIn) (nAmount : CAmount) (collateralValid : Bool) :
    Option PoolMessage :=
  if newInput.any fun txin => txin.prevout.IsNull || decide (nAmount < 0) then
    some .ERR_INVALID_INPUT
  else if !collateralValid then some .ERR_INVALID_COLLATERAL
  else if GetMaxPoolTransactions network ≤ p.entries.length then some .ERR_ENTRIES_FULL
  else if newInput.any fun txin => p.inputs.any fun s => s.toCTxIn == txin then
    some .ERR_ALREADY_HAVE
  else none

def AddEntry (newInput : List CTxIn) (nAmount : CAmount) (collateralValid : Bool)
    (newOutput : List CTxOut) : CObfuscationPool × Bool × PoolMessage :=
  match p.refusal network newInput nAmount collateralValid with
  | some errorID => ({ p with sessionUsers := p.sessionUsers - 1 }, false, errorID)
  | none =>
    ({ p with entries := p.entries ++ [⟨newInput.map fun txin => ⟨txin, false⟩, newOutput⟩] },
      true, .MSG_ENTRIES_ADDED)

def SignaturesComplete : Bool := p.inputs.all CTxDSIn.fHasSig

def CheckFinalTransaction (c : Chance) : CObfuscationPool :=
  match c.accepted with
  | none => p
  | some false => { state := .ACCEPTING_ENTRIES }
  | some true => {}

/-- The entries are merged and shuffled. -/
def finalize (c : Chance) : CObfuscationPool :=
  { p with
    state := .SIGNING
    finalVin := c.shuffleVin (p.inputs.map CTxDSIn.toCTxIn)
    finalVout := c.shuffleVout p.merged.vout }

/-- If entries is full, then move on to the next phase. -/
def proceed : CObfuscationPool :=
  if p.state = .ACCEPTING_ENTRIES ∧ GetMaxPoolTransactions network ≤ p.entries.length then
    { p with state := .FINALIZE_TRANSACTION }
  else p

/-- If we have all of the signatures, try to compile the transaction. -/
def transmit (c : Chance) : CObfuscationPool :=
  if p.state = .SIGNING ∧ p.SignaturesComplete then
    CheckFinalTransaction { p with state := .TRANSMISSION } c
  else p

def Check (c : Chance) : CObfuscationPool :=
  let p := p.proceed network
  let p := if p.state = .FINALIZE_TRANSACTION then p.finalize c else p
  p.transmit c

def CheckForCompleteQueue : CObfuscationPool :=
  if p.state = .QUEUE ∧ p.sessionUsers = GetMaxPoolTransactions network then
    { p with state := .ACCEPTING_ENTRIES }
  else p

end

/-! ### Signatures -/

/-- Of one outpoint, with one sequence number. -/
def Matches (newVin txin : CTxIn) : Prop :=
  txin.prevout = newVin.prevout ∧ txin.nSequence = newVin.nSequence

instance (newVin txin : CTxIn) : Decidable (Matches newVin txin) :=
  inferInstanceAs (Decidable (_ ∧ _))

section
variable (VerifyScript : CScript → CScript → Unsigned → ℕ → Bool)

/-- The input that `SignatureValid` finds: the last one that is the same, its script included. -/
def found (p : CObfuscationPool) (newVin : CTxIn) : Option ℕ :=
  ((p.inputs.zipIdx.filter fun s => s.1.toCTxIn == newVin).getLast?).map Prod.snd

def SignatureValid (p : CObfuscationPool) (newVin : CTxIn) : Bool :=
  match p.found newVin with
  | some n => VerifyScript newVin.scriptSig [] p.merged n
  | none => true

/-- `CObfuScationEntry::AddSig`, on its inputs. -/
def AddSig (newVin : CTxIn) : List CTxDSIn → Option (List CTxDSIn)
  | [] => none
  | s :: sev =>
    if Matches newVin s.toCTxIn then
      if s.fHasSig then none
      else some (⟨{ s.toCTxIn with scriptSig := newVin.scriptSig }, true⟩ :: sev)
    else (AddSig newVin sev).map fun sev => s :: sev

/-- The loop over the entries. -/
def addSigs (newVin : CTxIn) : List CObfuScationEntry → Option (List CObfuScationEntry)
  | [] => none
  | e :: entries =>
    match AddSig newVin e.sev with
    | some sev => some ({ e with sev := sev } :: entries)
    | none => (addSigs newVin entries).map fun entries => e :: entries

def AddScriptSig (p : CObfuscationPool) (newVin : CTxIn) : CObfuscationPool × Bool :=
  if p.inputs.any fun s => s.scriptSig == newVin.scriptSig then (p, false)
  else if !(SignatureValid VerifyScript p newVin) then (p, false)
  else
    let p := { p with
      finalVin := p.finalVin.map fun vin =>
        if Matches newVin vin then { vin with scriptSig := newVin.scriptSig } else vin }
    match addSigs newVin p.entries with
    | some entries => ({ p with entries := entries }, true)
    | none => (p, false)

/-- The signatures of one message, and whether one was added. -/
def addScriptSigs (p : CObfuscationPool) (sigs : List CTxIn) : CObfuscationPool × Bool :=
  sigs.foldl (fun r item =>
    let r' := AddScriptSig VerifyScript r.1 item
    (r'.1, r.2 || r'.2)) (p, false)

end

end CObfuscationPool

/-! ## Messages -/

inductive PoolEvent where
  /-- `recent`: with no session going, the last queue of this node is too recent -/
  | dsa (pfrom : ℕ) (recent : Bool) (nDenom : Int) (collateralValid : Bool)
  /-- `passes`: the outputs and the transaction they would make are in order -/
  | dsi (pfrom : ℕ) (passes : Bool) (vin : List CTxIn) (nAmount : CAmount)
      (collateralValid : Bool) (vout : List CTxOut) (c : Chance)
  | dss (sigs : List CTxIn) (c : Chance)
  /-- the timer: `CheckForCompleteQueue` -/
  | queue
  /-- the timer: the session has run out -/
  | timeout

/-- The pool, and the peers counted as users of the session. -/
structure Session extends CObfuscationPool where
  counted : List ℕ := []

section
variable (network : Network) (VerifyScript : CScript → CScript → Unsigned → ℕ → Bool)

/-- The entry of a message gets to `AddEntry`. -/
def reaches (p : CObfuscationPool) (passes : Bool) : Bool := p.IsSessionReady network && passes

def poolStep (p : CObfuscationPool) : PoolEvent → CObfuscationPool
  | .dsa _ recent nDenom collateralValid =>
    if p.sessionUsers = 0 ∧ recent then p
    else (p.IsCompatibleWithSession network nDenom collateralValid).1
  | .dsi _ passes vin nAmount collateralValid vout c =>
    if reaches network p passes then
      let (p, added, _) := p.AddEntry network vin nAmount collateralValid vout
      if added then p.Check network c else p
    else p
  | .dss sigs c =>
    let (p, success) := p.addScriptSigs VerifyScript sigs
    if success then p.Check network c else p
  | .queue => p.CheckForCompleteQueue network
  | .timeout => {}

/-- Who is counted after a message. -/
def countedStep (s : Session) (p' : CObfuscationPool) : PoolEvent → List ℕ
  | .dsa pfrom _ _ _ => if s.sessionUsers < p'.sessionUsers then pfrom :: s.counted else s.counted
  | .dsi pfrom _ _ _ _ _ _ =>
    if p'.sessionUsers < s.sessionUsers then s.counted.erase pfrom else s.counted
  | _ => s.counted

def step (s : Session) (e : PoolEvent) : Session :=
  let p' := poolStep network VerifyScript s.toCObfuscationPool e
  ⟨p', if p'.sessionUsers = 0 then [] else countedStep s p' e⟩

end

/-! ## Entries and users -/

structure Bounded (network : Network) (p : CObfuscationPool) : Prop where
  entries_le : (p.entries.length : Int) ≤ p.sessionUsers
  users_le : p.sessionUsers ≤ GetMaxPoolTransactions network

section
variable {network : Network} {VerifyScript : CScript → CScript → Unsigned → ℕ → Bool}
  {p p' : CObfuscationPool} {c : Chance}

theorem max_pos : 0 < GetMaxPoolTransactions network := by cases network <;> decide

/-- As many entries and users as before, or none. -/
def SameCounts (p p' : CObfuscationPool) : Prop :=
  p'.entries.length = p.entries.length ∧ p'.sessionUsers = p.sessionUsers ∨
    p'.entries = [] ∧ p'.sessionUsers = 0

theorem Bounded.same (h : Bounded network p) (hsame : SameCounts p p') : Bounded network p' := by
  have hpos := @max_pos network
  rcases hsame with ⟨hentries, husers⟩ | ⟨hentries, husers⟩
  · exact ⟨by rw [hentries, husers]; exact h.entries_le, husers ▸ h.users_le⟩
  · exact ⟨by rw [hentries, husers]; rfl, by omega⟩

theorem sameCounts_CheckFinalTransaction :
    SameCounts p (CObfuscationPool.CheckFinalTransaction p c) := by
  rw [CObfuscationPool.CheckFinalTransaction]
  split
  · exact .inl ⟨rfl, rfl⟩
  · exact .inr ⟨rfl, rfl⟩
  · exact .inr ⟨rfl, rfl⟩

theorem sameCounts_transmit : SameCounts p (p.transmit c) := by
  rw [CObfuscationPool.transmit]
  split_ifs
  · exact sameCounts_CheckFinalTransaction (p := { p with state := .TRANSMISSION })
  · exact .inl ⟨rfl, rfl⟩

theorem counts_proceed :
    (p.proceed network).entries = p.entries ∧
      (p.proceed network).sessionUsers = p.sessionUsers := by
  rw [CObfuscationPool.proceed]
  split_ifs <;> exact ⟨rfl, rfl⟩

theorem sameCounts_Check : SameCounts p (p.Check network c) := by
  obtain ⟨hentries, husers⟩ := @counts_proceed network p
  rw [CObfuscationPool.Check, SameCounts, ← hentries, ← husers]
  split_ifs
  · exact sameCounts_transmit (p := (p.proceed network).finalize c)
  · exact sameCounts_transmit

theorem length_addSigs {newVin : CTxIn} : ∀ {entries entries' : List CObfuScationEntry},
    CObfuscationPool.addSigs newVin entries = some entries' → entries'.length = entries.length
  | [], _, h => nomatch h
  | e :: entries, entries', h => by
    rw [CObfuscationPool.addSigs] at h
    split at h
    · rw [← Option.some.inj h, length_cons, length_cons]
    · obtain ⟨rest, hrest, rfl⟩ := Option.map_eq_some_iff.mp h
      rw [length_cons, length_cons, length_addSigs hrest]

variable (VerifyScript)

theorem counts_AddScriptSig (newVin : CTxIn) :
    (p.AddScriptSig VerifyScript newVin).1.entries.length = p.entries.length ∧
      (p.AddScriptSig VerifyScript newVin).1.sessionUsers = p.sessionUsers := by
  rw [CObfuscationPool.AddScriptSig]
  split_ifs
  · exact ⟨rfl, rfl⟩
  · exact ⟨rfl, rfl⟩
  dsimp only
  split
  next entries hentries => exact ⟨length_addSigs hentries, rfl⟩
  · exact ⟨rfl, rfl⟩

theorem fst_addScriptSigs (sigs : List CTxIn) : (p.addScriptSigs VerifyScript sigs).1 =
    sigs.foldl (fun p item => (p.AddScriptSig VerifyScript item).1) p :=
  (foldl_hom Prod.fst fun _ _ => rfl).symm

theorem counts_addScriptSigs (sigs : List CTxIn) :
    (p.addScriptSigs VerifyScript sigs).1.entries.length = p.entries.length ∧
      (p.addScriptSigs VerifyScript sigs).1.sessionUsers = p.sessionUsers := by
  rw [fst_addScriptSigs]
  induction sigs generalizing p with
  | nil => exact ⟨rfl, rfl⟩
  | cons item sigs ih =>
    obtain ⟨hlen, husers⟩ := counts_AddScriptSig (p := p) VerifyScript item
    rw [foldl_cons]
    exact ⟨ih.1.trans hlen, ih.2.trans husers⟩

/-- An entry that `AddEntry` refuses is of a user of the session, and there are fewer entries than
users. -/
def Meets (network : Network) (s : Session) : PoolEvent → Prop
  | .dsi pfrom passes vin nAmount collateralValid _ _ =>
    reaches network s.toCObfuscationPool passes = true →
    s.refusal network vin nAmount collateralValid ≠ none →
    pfrom ∈ s.counted ∧ (s.entries.length : Int) < s.sessionUsers
  | _ => True

/-- An entry that is rejected changes the number of users only if it is of one of them. -/
def OwnUsers (network : Network) (VerifyScript : CScript → CScript → Unsigned → ℕ → Bool)
    (s : Session) (e : PoolEvent) : Prop :=
  match e with
  | .dsi pfrom passes vin nAmount collateralValid _ _ =>
    ¬ (reaches network s.toCObfuscationPool passes = true ∧
      s.refusal network vin nAmount collateralValid = none) →
    (step network VerifyScript s e).sessionUsers ≠ s.sessionUsers → pfrom ∈ s.counted
  | _ => True

theorem bounded_dsa (h : Bounded network p) (recent : Bool) (nDenom : Int) (collateralValid : Bool)
    (pfrom : ℕ) :
    Bounded network
      (poolStep network VerifyScript p (.dsa pfrom recent nDenom collateralValid)) := by
  have hpos := @max_pos network
  have hentries := h.entries_le
  have husers := h.users_le
  have hnone : ¬ p.sessionUsers < 0 := by omega
  rw [poolStep]
  split_ifs
  · exact h
  rw [CObfuscationPool.IsCompatibleWithSession]
  dsimp only
  split_ifs with _ _ hfirst hmode _
  · exact h
  · exact h
  · exact ⟨by dsimp only; omega, by dsimp only; omega⟩
  · exact h
  · exact h
  · exact h
  · have hready : ¬ (GetMaxPoolTransactions network : Int) ≤ p.sessionUsers := by
      intro hfull
      exact hmode (.inr (decide_eq_true hfull))
    exact ⟨by dsimp only; omega, by dsimp only; omega⟩

theorem step_iff {s : Session} (e : PoolEvent) (h : Bounded network s.toCObfuscationPool) :
    Bounded network (step network VerifyScript s e).toCObfuscationPool ∧
      OwnUsers network VerifyScript s e ↔ Meets network s e := by
  cases e with
  | dsa pfrom recent nDenom collateralValid =>
    exact iff_of_true
      ⟨bounded_dsa VerifyScript h recent nDenom collateralValid pfrom, trivial⟩ trivial
  | dss sigs c =>
    refine iff_of_true ⟨?_, trivial⟩ trivial
    have hsigs := h.same (.inl (counts_addScriptSigs VerifyScript sigs))
    show Bounded network (poolStep network VerifyScript s.toCObfuscationPool (.dss sigs c))
    rw [poolStep]
    dsimp only
    split_ifs
    · exact hsigs.same sameCounts_Check
    · exact hsigs
  | queue =>
    refine iff_of_true ⟨h.same (.inl ?_), trivial⟩ trivial
    show (CObfuscationPool.CheckForCompleteQueue network _).entries.length = _ ∧
      (CObfuscationPool.CheckForCompleteQueue network _).sessionUsers = _
    rw [CObfuscationPool.CheckForCompleteQueue]
    split_ifs <;> exact ⟨rfl, rfl⟩
  | timeout => exact iff_of_true ⟨h.same (.inr ⟨rfl, rfl⟩), trivial⟩ trivial
  | dsi pfrom passes vin nAmount collateralValid vout c =>
    have hpool : (step network VerifyScript s
        (.dsi pfrom passes vin nAmount collateralValid vout c)).toCObfuscationPool =
        poolStep network VerifyScript s.toCObfuscationPool
          (.dsi pfrom passes vin nAmount collateralValid vout c) := rfl
    rw [Meets, OwnUsers, hpool, poolStep]
    cases hreach : reaches network s.toCObfuscationPool passes with
    | false =>
      exact iff_of_true ⟨h, fun _ hdiffer => absurd rfl hdiffer⟩ nofun
    | true =>
      rw [if_pos rfl, CObfuscationPool.AddEntry]
      cases hrefusal : s.refusal network vin nAmount collateralValid with
      | some errorID =>
        dsimp only
        rw [if_neg Bool.false_ne_true]
        constructor
        · rintro ⟨hbounded, hown⟩ _ _
          have hentries := hbounded.entries_le
          dsimp only at hentries
          refine ⟨hown (by simp) ?_, by omega⟩
          dsimp only
          omega
        · intro hmeets
          obtain ⟨hcounted, hless⟩ := hmeets rfl (by simp)
          have husers := h.users_le
          exact ⟨⟨by dsimp only; omega, by dsimp only; omega⟩, fun _ _ => hcounted⟩
      | none =>
        dsimp only
        refine iff_of_true
          ⟨Bounded.same ?_ sameCounts_Check, fun hnot => absurd ⟨rfl, rfl⟩ hnot⟩
          fun _ hsome => absurd rfl hsome
        have hready : (GetMaxPoolTransactions network : Int) ≤ s.sessionUsers :=
          of_decide_eq_true (Bool.and_eq_true_iff.mp hreach).1
        have hroom : ¬ GetMaxPoolTransactions network ≤ s.entries.length := by
          intro hfull
          rw [CObfuscationPool.refusal, if_pos hfull] at hrefusal
          split_ifs at hrefusal
        refine ⟨?_, h.users_le⟩
        show ((s.entries ++ [_]).length : Int) ≤ s.sessionUsers
        rw [length_append, length_singleton]
        omega

/-- **Entries and users.**  In a run there are never more entries than users, nor more of these
than the session takes, and nobody takes another's place off, exactly when every entry that is
refused is of a user, with fewer entries there than users. -/
theorem session_bounded_iff (network : Network)
    (VerifyScript : CScript → CScript → Unsigned → ℕ → Bool) (es : List PoolEvent) :
    Run.Throughout (step network VerifyScript) (fun s => Bounded network s.toCObfuscationPool) {}
        es ∧ Run.Guarded (step network VerifyScript) (OwnUsers network VerifyScript) {} es ↔
      Run.Guarded (step network VerifyScript) (Meets network) {} es := by
  have hrun : ∀ (es : List PoolEvent) (s : Session), Bounded network s.toCObfuscationPool →
      (Run.Throughout (step network VerifyScript) (fun s => Bounded network s.toCObfuscationPool) s
        es ∧ Run.Guarded (step network VerifyScript) (OwnUsers network VerifyScript) s es ↔
      Run.Guarded (step network VerifyScript) (Meets network) s es) := by
    intro es
    induction es with
    | nil =>
      intro s h
      exact iff_of_true ⟨(Run.throughout_nil s).mpr h, trivial⟩ trivial
    | cons e es ih =>
      intro s h
      rw [Run.throughout_cons, Run.guarded_cons, Run.guarded_cons]
      constructor
      · rintro ⟨⟨_, hrest⟩, hown, howns⟩
        have hnext := hrest [] nil_prefix
        exact ⟨(step_iff VerifyScript e h).mp ⟨hnext, hown⟩, (ih _ hnext).mp ⟨hrest, howns⟩⟩
      · rintro ⟨hmeets, hrest⟩
        obtain ⟨hnext, hown⟩ := (step_iff VerifyScript e h).mpr hmeets
        obtain ⟨hthrough, howns⟩ := (ih _ hnext).mpr hrest
        exact ⟨⟨h, hthrough⟩, hown, howns⟩
  exact hrun es {} ⟨le_rfl, Int.natCast_nonneg _⟩

end

/-- The shuffles leave everything where it is. -/
def unshuffled : Chance := ⟨id, id, fun _ => .refl _, fun _ => .refl _, some true⟩

/-- Two users submit their entries, and then a stranger one of its own. -/
def strangersEntry : List PoolEvent :=
  [.dsa 1 false 1 true, .dsa 2 false 1 true, .queue,
    .dsi 1 true [⟨⟨11, 0⟩, [], 0⟩] 5 true [⟨5, []⟩] unshuffled,
    .dsi 2 true [⟨⟨12, 0⟩, [], 0⟩] 5 true [⟨5, []⟩] unshuffled,
    .dsi 3 true [⟨⟨13, 0⟩, [], 0⟩] 5 true [⟨5, []⟩] unshuffled]

/-- **The stranger costs a user**, with two entries in the session. -/
theorem stranger_takes_user :
    ¬ (∀ es, Run.Throughout (step .TESTNET fun _ _ _ _ => true)
        (fun s => Bounded .TESTNET s.toCObfuscationPool) {} es) ∧
      ¬ (∀ es, Run.Guarded (step .TESTNET fun _ _ _ _ => true)
        (OwnUsers .TESTNET fun _ _ _ _ => true) {} es) := by
  constructor
  · intro hall
    have hend := hall strangersEntry _ (prefix_refl _)
    exact absurd hend.entries_le (by decide)
  · intro hall
    obtain ⟨_, _, _, _, _, hown, _⟩ := hall strangersEntry
    exact absurd (hown (by decide) (by decide)) (by decide)

end Divitae.Obfuscation
