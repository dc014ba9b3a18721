/-
# `SporkRuns` — what the active sporks are after any run

Two questions about `mapSporksActive` after an arbitrary sequence of received
messages, local issues and restarts.

*Authenticity.*  The signature covers the text, and one text is the text of many
triples: `10001 ++ 4070908800 ++ 1700000000` is also `10001 ++ 40 ++ 70908800…`.
A run keeps to the signed triples when no message splits a signed text at another
place (`NoResplit`, `active_sporks_signed`).

*Convergence.*  Receiving keeps the latest message whatever the order; issuing does
not look at the time of the entry it replaces and does not write the database, so a
restart forgets it.  Runs that avoid both (`KeepsUp`) end with the latest message
(`sporks_converge`).
-/
import Divitae.Spork
import Divitae.Lib.Latest

namespace Divitae

open List Function

variable {C : Crypto} {P : CChainParams}

/-! ## Authenticity -/

/-- Signatures by the spork keys, old or new, exist only on the texts of the triples
their holder signed. -/
def SporkKeyUnforgeable (C : Crypto) (P : CChainParams) (signed : Set SporkTriple) : Prop :=
  ∀ m : CSporkMessage, SignedByNewKey C P m = true ∨ SignedByOldKey C P m = true →
    ∃ t ∈ signed, t.strMessage = m.strMessage

/-- The message does not split a signed text at a place of its own: if its text is
signed, then for a triple whose id and time print as long as the message's. -/
def NoResplit (signed : Set SporkTriple) (m : CSporkMessage) : Prop :=
  ∀ t ∈ signed, t.strMessage = m.strMessage →
    ∃ u ∈ signed, u.strMessage = m.strMessage ∧
      (Decimal.ofInt u.1).length = (Decimal.ofInt m.nSporkID).length ∧
      (Decimal.ofInt u.2.2).length = (Decimal.ofInt m.nTimeSigned).length

/-- The condition on one step: news is not a re-split text, and what the node signs
itself is signed. -/
def GenuineStep (C : Crypto) (k : Option CKey) (signed : Set SporkTriple) (s : SporkState) :
    SporkEvent → Prop
  | .receive env m => SporkNews env s m → NoResplit signed m
  | .update now id v => (Sign C k id v now).isSome → (id, v, now) ∈ signed
  | .restart => True

/-- Every entry of either map is filed under its id and is a signed triple. -/
structure SporksSigned (signed : Set SporkTriple) (s : SporkState) : Prop where
  active : ∀ id m, s.mapSporksActive id = some m → m.nSporkID = id ∧ m.triple ∈ signed
  db : ∀ id m, s.pSporkDB id = some m → m.nSporkID = id ∧ m.triple ∈ signed

section
variable {signed : Set SporkTriple} {k : Option CKey}

theorem sporksSigned_fresh : SporksSigned signed .fresh := ⟨nofun, nofun⟩

variable {m : CSporkMessage}

theorem triple_mem_signed (hunf : SporkKeyUnforgeable C P signed) {now : Int}
    (hsig : CheckSignature C P now m false = true) (hsplit : NoResplit signed m) :
    m.triple ∈ signed := by
  obtain ⟨t, ht, htext⟩ := hunf m (CheckSignature_sound hsig)
  obtain ⟨u, hu, hutext, hid, htime⟩ := hsplit t ht htext
  have hum : u = m.triple := SporkTriple.strMessage_inj hutext hid htime
  exact hum ▸ hu

theorem signed_update {f : Int → Option CSporkMessage}
    (hf : ∀ id a, f id = some a → a.nSporkID = id ∧ a.triple ∈ signed) (hm : m.triple ∈ signed) :
    ∀ id a, Function.update f m.nSporkID (some m) id = some a →
      a.nSporkID = id ∧ a.triple ∈ signed := by
  intro id a ha
  by_cases hid : id = m.nSporkID
  · rw [hid, update_self] at ha
    cases ha
    exact ⟨hid.symm, hm⟩
  · rw [update_of_ne hid] at ha
    exact hf id a ha

theorem sporksSigned_step (hunf : SporkKeyUnforgeable C P signed) (s : SporkState)
    (e : SporkEvent) (hI : SporksSigned signed s) (hok : GenuineStep C k signed s e) :
    SporksSigned signed (sporkStep C P k s e) := by
  cases e with
  | receive env m =>
    simp only [sporkStep]
    rcases ProcessSpork_cases (C := C) (P := P) env s m with hsame | ⟨hnews, hsig, hrec⟩
    · rw [hsame]; exact hI
    · have hm := triple_mem_signed hunf hsig (hok hnews)
      rw [hrec]
      exact ⟨signed_update hI.active hm, signed_update hI.db hm⟩
  | update now id v =>
    simp only [sporkStep]
    rcases UpdateSpork_cases (C := C) (k := k) now id v s with ⟨_, hsame⟩ | ⟨m, hsign, htr, hrec⟩
    · rw [hsame]; exact hI
    · have hm : m.triple ∈ signed := by rw [htr]; exact hok (by simp [hsign])
      have hid : m.nSporkID = id := congrArg Prod.fst htr
      rw [hrec, ← hid]
      exact ⟨signed_update hI.active hm, hI.db⟩
  | restart =>
    have hdb : DBKeyed s := fun i m hm => (hI.db i m hm).1
    refine ⟨?_, by simpa [sporkStep] using hI.db⟩
    intro id m hm
    simp only [sporkStep, restart_active hdb] at hm
    split_ifs at hm
    exact hI.db id m hm

/-- **Authenticity.**  Over every run whose messages do not re-split a signed text,
each active entry is filed under its id and is exactly a signed triple. -/
theorem active_sporks_signed (C : Crypto) (P : CChainParams) (k : Option CKey)
    (signed : Set SporkTriple) (hunf : SporkKeyUnforgeable C P signed) (es : List SporkEvent)
    (hg : Run.Guarded (sporkStep C P k) (GenuineStep C k signed) .fresh es) :
    ∀ id m, (es.foldl (sporkStep C P k) .fresh).mapSporksActive id = some m →
      m.nSporkID = id ∧ m.triple ∈ signed :=
  (Run.run_inv (sporksSigned_step hunf) sporksSigned_fresh hg).active

end

/-! ### A signed text and its other reading -/

/-- A signer of the texts of some triples under the main network's key. -/
def sporkSigner (ts : List SporkTriple) : Crypto :=
  Crypto.onTexts (CPubKey.ofBytes mainParams.sporkKey) (ts.map SporkTriple.strMessage)

/-- The payment spork switched off, then on again eight months later. -/
def genuineTriples : List SporkTriple := [(10007, 4070908800, 1700000000), (10007, 0, 1720000000)]

def syncedEnv (now : Int) : SporkEnv := ⟨false, true, now⟩

theorem sporkSigner_unforgeable {ts : List SporkTriple} (hlen : ts.length < 2 ^ 128) :
    SporkKeyUnforgeable (sporkSigner ts) mainParams {t | t ∈ ts} := by
  intro m hm
  have hmem : m.strMessage ∈ ts.map SporkTriple.strMessage := by
    rcases hm with h | h <;> exact Crypto.onTexts_verify (by simpa using hlen) h
  obtain ⟨t, ht, htext⟩ := mem_map.mp hmem
  exact ⟨t, ht, htext⟩

/-- The later of the two genuine messages, then the earlier. -/
def genuineRun : List SporkEvent :=
  [.receive (syncedEnv 1720000100) ⟨10007, 0, 1720000000, [1]⟩,
    .receive (syncedEnv 1720000200) ⟨10007, 4070908800, 1700000000, [0]⟩]

theorem active_sporks_signed_genuine :
    ((genuineRun.foldl (sporkStep (sporkSigner genuineTriples) mainParams none)
      .fresh).mapSporksActive 10007 = some ⟨10007, 0, 1720000000, [1]⟩) ∧
    (10007, 0, 1720000000) ∈ {t | t ∈ genuineTriples} := by
  have hnosplit : ∀ m : CSporkMessage, m.triple ∈ genuineTriples →
      NoResplit {t | t ∈ genuineTriples} m := fun m hm t _ _ => ⟨m.triple, hm, rfl, rfl, rfl⟩
  have hguard : Run.Guarded (sporkStep (sporkSigner genuineTriples) mainParams none)
      (GenuineStep (sporkSigner genuineTriples) none {t | t ∈ genuineTriples}) .fresh genuineRun :=
    ⟨fun _ => hnosplit _ (by decide), fun _ => hnosplit _ (by decide), trivial⟩
  have hrun : (genuineRun.foldl (sporkStep (sporkSigner genuineTriples) mainParams none)
      .fresh).mapSporksActive 10007 = some ⟨10007, 0, 1720000000, [1]⟩ := by decide +kernel
  exact ⟨hrun, (active_sporks_signed (sporkSigner genuineTriples) mainParams none _
    (sporkSigner_unforgeable (by decide)) genuineRun hguard 10007 _ hrun).2⟩

/-- The signature of `(10007, 4070908800, 1700000000)` is good for
`(10007, 40, 709088001700000000)`: a node that hears the second reading first keeps it,
and its time outranks the genuine message that comes later. -/
theorem resplit_spork_outranks :
    SporkKeyUnforgeable (sporkSigner genuineTriples) mainParams {t | t ∈ genuineTriples} ∧
    ([SporkEvent.receive (syncedEnv 1700000100) ⟨10007, 40, 709088001700000000, [0]⟩,
        SporkEvent.receive (syncedEnv 1720000100) ⟨10007, 0, 1720000000, [1]⟩].foldl
      (sporkStep (sporkSigner genuineTriples) mainParams none) .fresh).mapSporksActive 10007
        = some ⟨10007, 40, 709088001700000000, [0]⟩ ∧
    (10007, 40, 709088001700000000) ∉ {t | t ∈ genuineTriples} := by
  refine ⟨sporkSigner_unforgeable (by decide), ?_, ?_⟩
  · decide +kernel
  · decide

/-! ## Convergence -/

section
variable (C : Crypto) (P : CChainParams) (k : Option CKey)

/-- The message signed by the current key that an event brings to the node, if it
brings one. -/
def obtained : SporkEvent → Option CSporkMessage
  | .receive _ m => if SignedByNewKey C P m then some m else none
  | .update now id v => Sign C k id v now
  | .restart => none

/-- What the node has obtained about one spork. -/
def obtainedFor (es : List SporkEvent) (id : Int) : Set CSporkMessage :=
  {m | m ∈ es.filterMap (obtained C P k) ∧ m.nSporkID = id}

/-- The condition on one step.  A message is heard by a node that takes part (or is
refused); an issue is by the current key and not earlier than the entry it replaces;
a restart finds the active entries in the database. -/
def KeepsUp (s : SporkState) : SporkEvent → Prop
  | .receive env m =>
    if SignedByNewKey C P m then env.fLiteMode = false ∧ env.hasTip = true
    else CheckSignature C P env.adjustedTime m false = false
  | .update now id v =>
    (∀ m, Sign C k id v now = some m → SignedByNewKey C P m = true) ∧
      ∀ a, s.mapSporksActive id = some a → a.nTimeSigned ≤ now
  | .restart => ∀ id, KnownSpork id → s.mapSporksActive id = s.pSporkDB id

/-- The active entry of every spork in use is the latest obtained so far. -/
structure HoldsLatest (past : List SporkEvent) (s : SporkState) : Prop where
  keyed : DBKeyed s
  latest : ∀ id, KnownSpork id →
    Latest.IsLatest CSporkMessage.nTimeSigned (obtainedFor C P k past id) (s.mapSporksActive id)

variable {C P k} {past : List SporkEvent} {e : SporkEvent}

theorem obtainedFor_none (h : obtained C P k e = none)
    (id : Int) : obtainedFor C P k (past ++ [e]) id = obtainedFor C P k past id := by
  simp [obtainedFor, filterMap_append, h]

theorem obtainedFor_other
    (h : obtained C P k e = some m) {id : Int} (hid : id ≠ m.nSporkID) :
    obtainedFor C P k (past ++ [e]) id = obtainedFor C P k past id := by
  ext a
  simp only [obtainedFor, filterMap_append, filterMap_cons, h, filterMap_nil,
    mem_append, mem_singleton, Set.mem_ofPred_eq]
  constructor
  · rintro ⟨ha | rfl, hai⟩
    · exact ⟨ha, hai⟩
    · exact absurd hai.symm hid
  · rintro ⟨ha, hai⟩
    exact ⟨.inl ha, hai⟩

theorem obtainedFor_self
    (h : obtained C P k e = some m) :
    obtainedFor C P k (past ++ [e]) m.nSporkID = insert m (obtainedFor C P k past m.nSporkID) := by
  ext a
  simp only [obtainedFor, filterMap_append, filterMap_cons, h, filterMap_nil,
    mem_append, mem_singleton, Set.mem_ofPred_eq, Set.mem_insert_iff]
  constructor
  · rintro ⟨ha | rfl, hai⟩
    · exact .inr ⟨ha, hai⟩
    · exact .inl rfl
  · rintro (rfl | ⟨ha, hai⟩)
    · exact ⟨.inr rfl, rfl⟩
    · exact ⟨.inl ha, hai⟩

theorem holdsLatest_fresh : HoldsLatest C P k [] .fresh :=
  ⟨nofun, fun id _ => by simp [obtainedFor, SporkState.fresh]⟩

theorem HoldsLatest.record {s s' : SporkState}
    (hI : HoldsLatest C P k past s) (he : obtained C P k e = some m)
    (hlate : ∀ a, s.mapSporksActive m.nSporkID = some a → a.nTimeSigned ≤ m.nTimeSigned)
    (hactive : s'.mapSporksActive = Function.update s.mapSporksActive m.nSporkID (some m))
    (hkeyed : DBKeyed s') : HoldsLatest C P k (past ++ [e]) s' := by
  refine ⟨hkeyed, fun id hknown => ?_⟩
  rw [hactive]
  by_cases hid : id = m.nSporkID
  · subst hid
    rw [update_self, obtainedFor_self he]
    exact (hI.latest _ hknown).take hlate
  · rw [update_of_ne hid, obtainedFor_other he hid]
    exact hI.latest id hknown

variable {s : SporkState}

theorem HoldsLatest.pass
    (hI : HoldsLatest C P k past s) (he : obtained C P k e = some m)
    (hold : KnownSpork m.nSporkID →
      ∃ a, s.mapSporksActive m.nSporkID = some a ∧ m.nTimeSigned ≤ a.nTimeSigned) :
    HoldsLatest C P k (past ++ [e]) s := by
  refine ⟨hI.keyed, fun id hknown => ?_⟩
  by_cases hid : id = m.nSporkID
  · subst hid
    obtain ⟨a, ha, hle⟩ := hold hknown
    have hlatest := hI.latest _ hknown
    rw [ha] at hlatest
    rw [ha, obtainedFor_self he]
    exact hlatest.keep hle
  · rw [obtainedFor_other he hid]
    exact hI.latest id hknown

theorem HoldsLatest.skip {s s' : SporkState}
    (hI : HoldsLatest C P k past s) (he : obtained C P k e = none)
    (hactive : ∀ id, KnownSpork id → s'.mapSporksActive id = s.mapSporksActive id)
    (hkeyed : DBKeyed s') : HoldsLatest C P k (past ++ [e]) s' := by
  refine ⟨hkeyed, fun id hknown => ?_⟩
  rw [hactive id hknown, obtainedFor_none he]
  exact hI.latest id hknown

theorem dbKeyed_update (h : DBKeyed s) (m : CSporkMessage) :
    DBKeyed ⟨Function.update s.mapSporksActive m.nSporkID (some m),
      Function.update s.pSporkDB m.nSporkID (some m)⟩ := by
  intro i a ha
  change Function.update s.pSporkDB m.nSporkID (some m) i = some a at ha
  by_cases hi : i = m.nSporkID
  · rw [hi, update_self] at ha
    cases ha
    exact hi.symm
  · rw [update_of_ne hi] at ha
    exact h i a ha

theorem holdsLatest_receive {env : SporkEnv}
    (hI : HoldsLatest C P k past s) (hok : KeepsUp C P k s (.receive env m)) :
    HoldsLatest C P k (past ++ [.receive env m]) (ProcessSpork C P env s m).1 := by
  by_cases hsig : SignedByNewKey C P m = true
  · simp only [KeepsUp, hsig, if_true] at hok
    have he : obtained C P k (.receive env m) = some m := by simp [obtained, hsig]
    by_cases hnews : SporkNews env s m
    · rw [ProcessSpork_news hnews hsig]
      exact hI.record he (fun a ha => (hnews.2.2.2 a ha).le) rfl (dbKeyed_update hI.keyed m)
    · rcases ProcessSpork_cases (C := C) (P := P) env s m with hsame | ⟨hnews', _⟩
      · rw [hsame]
        refine hI.pass he fun hknown => ?_
        by_contra hno
        refine hnews ⟨hok.1, hok.2, hknown, fun a ha => ?_⟩
        exact not_le.mp fun hle => hno ⟨a, ha, hle⟩
      · exact absurd hnews' hnews
  · rw [KeepsUp, if_neg hsig] at hok
    have he : obtained C P k (.receive env m) = none := by simp [obtained, hsig]
    rcases ProcessSpork_cases (C := C) (P := P) env s m with hsame | ⟨_, hcheck, _⟩
    · rw [hsame]
      exact hI.skip he (fun _ _ => rfl) hI.keyed
    · exact absurd hcheck (by simp [hok])

theorem holdsLatest_step (past : List SporkEvent) (s : SporkState) (e : SporkEvent)
    (hI : HoldsLatest C P k past s) (hok : KeepsUp C P k s e) :
    HoldsLatest C P k (past ++ [e]) (sporkStep C P k s e) := by
  cases e with
  | receive env m => exact holdsLatest_receive hI hok
  | update now id v =>
    simp only [sporkStep]
    rcases UpdateSpork_cases (C := C) (k := k) now id v s with
      ⟨hnone, hsame⟩ | ⟨m, hsign, htr, hrec⟩
    · rw [hsame]
      exact hI.skip hnone (fun _ _ => rfl) hI.keyed
    · have hid : m.nSporkID = id := congrArg Prod.fst htr
      have htime : m.nTimeSigned = now := congrArg (·.2.2) htr
      rw [hrec]
      refine hI.record hsign (fun a ha => ?_) (by rw [hid]) hI.keyed
      rw [htime]
      exact hok.2 a (hid ▸ ha)
  | restart =>
    refine hI.skip rfl (fun id hknown => ?_) fun i m hm => hI.keyed i m (by
      simpa [sporkStep] using hm)
    show (restart s).mapSporksActive id = s.mapSporksActive id
    rw [restart_active hI.keyed, if_pos hknown, hok id hknown]

theorem holdsLatest_run {es : List SporkEvent}
    (hg : Run.Guarded (sporkStep C P k) (KeepsUp C P k) .fresh es) :
    HoldsLatest C P k es (es.foldl (sporkStep C P k) .fresh) := by
  simpa using Run.run_hist_inv holdsLatest_step holdsLatest_fresh hg

/-- **Convergence.**  Two nodes that keep up and obtain the same messages, no two of
which give one spork two values at one time, end with the same value for every spork
in use: the one of the latest message. -/
theorem sporks_converge (C : Crypto) (P : CChainParams) (k₁ k₂ : Option CKey)
    (S : Finset CSporkMessage)
    (htie : ∀ m ∈ S, ∀ m' ∈ S, m.nSporkID = m'.nSporkID → m.nTimeSigned = m'.nTimeSigned →
      m.nValue = m'.nValue)
    (es₁ es₂ : List SporkEvent)
    (hS₁ : ∀ m, m ∈ es₁.filterMap (obtained C P k₁) ↔ m ∈ S)
    (hS₂ : ∀ m, m ∈ es₂.filterMap (obtained C P k₂) ↔ m ∈ S)
    (hg₁ : Run.Guarded (sporkStep C P k₁) (KeepsUp C P k₁) .fresh es₁)
    (hg₂ : Run.Guarded (sporkStep C P k₂) (KeepsUp C P k₂) .fresh es₂)
    (id : Int) (hid : KnownSpork id) :
    GetSporkValue (es₁.foldl (sporkStep C P k₁) .fresh) id =
      GetSporkValue (es₂.foldl (sporkStep C P k₂) .fresh) id ∧
    Latest.IsLatest CSporkMessage.nTimeSigned {m | m ∈ S ∧ m.nSporkID = id}
      ((es₁.foldl (sporkStep C P k₁) .fresh).mapSporksActive id) := by
  have h₁ := (holdsLatest_run hg₁).latest id hid
  have h₂ := (holdsLatest_run hg₂).latest id hid
  simp only [obtainedFor, hS₁] at h₁
  simp only [obtainedFor, hS₂] at h₂
  have hvalue := h₁.agree (f := CSporkMessage.nValue) h₂ fun m hm m' hm' hst =>
    htie m hm.1 m' hm'.1 (hm.2.trans hm'.2.symm) hst
  refine ⟨?_, h₁⟩
  unfold GetSporkValue
  generalize (es₁.foldl (sporkStep C P k₁) .fresh).mapSporksActive id = r₁ at hvalue
  generalize (es₂.foldl (sporkStep C P k₂) .fresh).mapSporksActive id = r₂ at hvalue
  cases r₁ with
  | none =>
    cases r₂ with
    | none => rfl
    | some b => cases hvalue
  | some a =>
    cases r₂ with
    | none => cases hvalue
    | some b => exact Option.some.inj hvalue

end

/-! ### A node that keeps up and one that does not -/

/-- The messages of `genuineTriples`, with their signatures. -/
def genuineSporks : List CSporkMessage :=
  [⟨10007, 4070908800, 1700000000, [0]⟩, ⟨10007, 0, 1720000000, [1]⟩]

/-- A peer hears the later message, restarts, hears the earlier one. -/
def peerRun : List SporkEvent :=
  [.receive (syncedEnv 1720000100) ⟨10007, 0, 1720000000, [1]⟩, .restart,
    .receive (syncedEnv 1720000200) ⟨10007, 4070908800, 1700000000, [0]⟩]

/-- The holder of the key issues both. -/
def issuerRun : List SporkEvent := [.update 1700000000 10007 4070908800, .update 1720000000 10007 0]

theorem sporks_converge_issued :
    GetSporkValue (peerRun.foldl (sporkStep (sporkSigner genuineTriples) mainParams none) .fresh)
        10007 =
      GetSporkValue (issuerRun.foldl
        (sporkStep (sporkSigner genuineTriples) mainParams (some [1])) .fresh) 10007 := by
  have hpeer : peerRun.filterMap (obtained (sporkSigner genuineTriples) mainParams none) =
      genuineSporks.reverse := by decide +kernel
  have hissuer : issuerRun.filterMap
      (obtained (sporkSigner genuineTriples) mainParams (some [1])) = genuineSporks := by
    decide +kernel
  have hsig : ∀ m ∈ genuineSporks,
      SignedByNewKey (sporkSigner genuineTriples) mainParams m = true := by decide +kernel
  have hnews : SporkNews (syncedEnv 1720000100) .fresh ⟨10007, 0, 1720000000, [1]⟩ :=
    ⟨rfl, rfl, by decide, nofun⟩
  have hheard := ProcessSpork_news (P := mainParams) hnews (hsig _ (by decide))
  have hissued : Sign (sporkSigner genuineTriples) (some [1]) 10007 4070908800 1700000000 =
      some ⟨10007, 4070908800, 1700000000, [0]⟩ := by decide +kernel
  have hissued' : Sign (sporkSigner genuineTriples) (some [1]) 10007 0 1720000000 =
      some ⟨10007, 0, 1720000000, [1]⟩ := by decide +kernel
  refine (sporks_converge (sporkSigner genuineTriples) mainParams none (some [1])
    genuineSporks.toFinset (by decide) peerRun issuerRun (by simp [hpeer]) (by simp [hissuer])
    ⟨?_, ?_, ?_, trivial⟩ ⟨⟨?_, nofun⟩, ⟨?_, ?_⟩, trivial⟩ 10007 (by decide)).1
  · rw [KeepsUp, if_pos (hsig ⟨10007, 0, 1720000000, [1]⟩ (by decide))]
    exact ⟨rfl, rfl⟩
  · intro id _
    simp only [sporkStep, hheard]
    rfl
  · rw [KeepsUp, if_pos (hsig ⟨10007, 4070908800, 1700000000, [0]⟩ (by decide))]
    exact ⟨rfl, rfl⟩
  · rintro m hm
    cases hm
    exact hsig _ (by decide)
  · rintro m hm
    cases hm
    exact hsig _ (by decide)
  · intro a ha
    simp only [sporkStep, UpdateSpork, hissued, update_self, Option.some.injEq] at ha
    subst ha
    decide

/-- The holder of the key issues both and restarts: its payment spork is back at the
default (off), while a peer that heard them holds the later one. -/
theorem issued_spork_lost_at_restart :
    [SporkEvent.update 1700000000 10007 4070908800, .update 1720000000 10007 0,
        .restart].filterMap (obtained (sporkSigner genuineTriples) mainParams (some [1])) =
      (genuineSporks.map fun m => SporkEvent.receive (syncedEnv 1720000100) m).filterMap
        (obtained (sporkSigner genuineTriples) mainParams none) ∧
    GetSporkValue ((genuineSporks.map fun m => SporkEvent.receive (syncedEnv 1720000100) m).foldl
      (sporkStep (sporkSigner genuineTriples) mainParams none) .fresh) 10007 = 0 ∧
    GetSporkValue ([SporkEvent.update 1700000000 10007 4070908800, .update 1720000000 10007 0,
      .restart].foldl (sporkStep (sporkSigner genuineTriples) mainParams (some [1])) .fresh) 10007
        = 4070908800 := by
  refine ⟨?_, ?_, ?_⟩ <;> decide +kernel

end Divitae
