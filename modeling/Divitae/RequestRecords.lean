/-
# `RequestRecords` — what is recorded as a request

`mapTxLockReq` has the requests under their hashes, but for one line: with a complete lock
`ProcessConsensusVote` reads `mapTxLockReq[ctx.txHash]`, and where the request is not there that
puts an empty transaction under the hash.

    a request that was taken        its entry, under its own hash
    a request the pool refused      none; six votes on it make one, of the empty transaction

No lock is complete before its request has come, so the empty entries never stand in the way of
a request that comes for the first time (`request_taken`); `requests_genuine_iff` says in which
runs there are none.
-/
import Divitae.LockedInputs

namespace Divitae
namespace SwiftTX

open Option

/-- Every entry is under its own hash. -/
def RequestsGenuine (s : SwiftTX) : Prop := ∀ h tx, s.mapTxLockReq h = some tx → tx.hash = h

/-- A request for the transaction has been taken up. -/
def Processed (C : Crypto) (past : List SwiftEvent) (h : uint256) : Prop :=
  ∃ pre env tx, pre ++ [.ix env tx] <+: past ∧ env.active = true ∧
    (pre.foldl (swiftStep C) empty).takesUp env tx = true ∧ tx.hash = h

/-- What `ix` asks of a transaction, the memory pool included. -/
def ValidRequest (s : SwiftTX) (env : SwiftEnv) (tx : CTransaction) : Prop :=
  IsIXTXValid env tx = true ∧
    (∀ o ∈ tx.vout, o.scriptPubKey.IsNormalPaymentScript || o.scriptPubKey.IsUnspendable) ∧
    s.AcceptToMemoryPool env tx = true

/-- The request is in the map and its inventory goes to the peers. -/
def TakesRequest (C : Crypto) (s : SwiftTX) (env : SwiftEnv) (tx : CTransaction) : Prop :=
  (swiftStep C s (.ix env tx)).mapTxLockReq tx.hash = some tx ∧
    ∃ own, (swiftStep C s (.ix env tx)).relayed = own ++ (.MSG_TXLOCK_REQUEST, tx.hash) :: s.relayed

/-- What the order of votes and requests must not matter for. -/
def RequestsRecorded (C : Crypto) (past : List SwiftEvent) : Prop :=
  (past.foldl (swiftStep C) empty).RequestsGenuine ∧
    ∀ env tx, ¬ Processed C past tx.hash → env.active = true →
      (past.foldl (swiftStep C) empty).ValidRequest env tx →
      (past.foldl (swiftStep C) empty).TakesRequest C env tx

/-- What a step must meet: no counted vote gives a lock its six votes while its request is not
in the map.  The empty transaction is under its own hash at 0. -/
def KeepsGenuine (C : Crypto) (s : SwiftTX) : SwiftEvent → Prop
  | .txlvote env ctx =>
    env.active = true → s.mapTxLockVote ctx.GetHash = none → countable C env ctx = true →
      s.completes ctx = true → (s.mapTxLockReq ctx.txHash).isSome ∨ ctx.txHash = 0
  | _ => True

section
variable {C : Crypto} {s s' : SwiftTX}

theorem requestsGenuine_takenUp (hs : RequestsGenuine s) {env : SwiftEnv} {tx : CTransaction}
    (h : TakenUp env s tx s') : RequestsGenuine s' := by
  intro k t ht
  by_cases hk : k = tx.hash
  · subst hk
    rw [(h.own t).mp (Or.inl ht)]
  · rw [(h.other k hk).1] at ht
    exact hs k t ht

theorem requestsGenuine_counted (hs : RequestsGenuine s) {ctx : CConsensusVote}
    (h : Counted s ctx s') : RequestsGenuine s' ↔
      (s.completes ctx = true → (s.mapTxLockReq ctx.txHash).isSome ∨ ctx.txHash = 0) := by
  constructor
  · intro hs' hcompletes
    cases hreq : s.mapTxLockReq ctx.txHash with
    | some tx => exact .inl rfl
    | none =>
      have hempty : s'.mapTxLockReq ctx.txHash = some .default :=
        (h.req ctx.txHash .default).mpr (.inr ⟨hcompletes, rfl, hreq, rfl⟩)
      exact .inr (hs' ctx.txHash .default hempty).symm
  · intro hok k t ht
    rcases (h.req k t).mp ht with hold | ⟨hcompletes, rfl, hnone, rfl⟩
    · exact hs k t hold
    · rcases hok hcompletes with hsome | hzero
      · rw [hnone] at hsome
        cases hsome
      · exact hzero.symm

theorem requestsGenuine_step (hfiled : Filed s) (hs : RequestsGenuine s) (e : SwiftEvent) :
    RequestsGenuine (swiftStep C s e) ↔ KeepsGenuine C s e := by
  have heffect := effect C hfiled.lock e
  generalize swiftStep C s e = s' at heffect
  cases heffect with
  | @ignored e h =>
    refine iff_of_true hs ?_
    cases e with
    | ix env tx => trivial
    | txlvote env ctx => exact fun hactive hnew => absurd ⟨hactive, hnew⟩ h
    | clean env => trivial
  | takenUp _ _ h => exact iff_of_true (requestsGenuine_takenUp hs h) trivial
  | uncounted _ _ hcount =>
    refine iff_of_true hs ?_
    intro _ _ hcount'
    exact absurd (hcount.symm.trans hcount') (by simp)
  | @counted env ctx _ hactive hnew hcount h =>
    have hnoted : RequestsGenuine (s.noted ctx) := hs
    rw [requestsGenuine_counted hnoted h]
    exact ⟨fun hok _ _ _ => hok, fun hok => hok hactive hnew hcount⟩
  | cleaned _ h =>
    refine iff_of_true ?_ trivial
    intro k t ht
    exact hs k t ((h.req k t).mp ht).1

/-! ## A request that comes for the first time -/

theorem Processed.mono {past past' : List SwiftEvent} {h : uint256} (hpast : past <+: past')
    (hp : Processed C past h) : Processed C past' h := by
  obtain ⟨pre, env, tx, hpre, hrest⟩ := hp
  exact ⟨pre, env, tx, hpre.trans hpast, hrest⟩

/-- Whatever the node has about a transaction, but votes, it has from a request. -/
structure FromRequests (C : Crypto) (past : List SwiftEvent) (s : SwiftTX) : Prop where
  filed : Filed s
  run : s = past.foldl (swiftStep C) empty
  req : ∀ h, (s.mapTxLockReq h).isSome → Processed C past h
  rejected : ∀ h, (s.mapTxLockReqRejected h).isSome → Processed C past h
  height : ∀ h n votes, s.tally h = some (n, votes) → n ≠ 0 → Processed C past h

theorem fromRequests_empty : FromRequests C [] empty where
  filed := filed_empty
  run := rfl
  req _ h := by cases h
  rejected _ h := by cases h
  height _ _ _ h := by cases h

variable {past : List SwiftEvent}

theorem FromRequests.completes (h : FromRequests C past s)
    {ctx : CConsensusVote} (hcompletes : s.completes ctx = true) : Processed C past ctx.txHash := by
  simp only [SwiftTX.completes, reached, Bool.and_eq_true, bne_iff_ne] at hcompletes
  obtain ⟨hheight, -⟩ := hcompletes
  cases htally : s.tally ctx.txHash with
  | none =>
    rw [voteTally, htally] at hheight
    exact absurd rfl hheight
  | some t =>
    rw [voteTally, htally] at hheight
    exact h.height ctx.txHash t.1 t.2 htally hheight

theorem fromRequests_step (past : List SwiftEvent) (s : SwiftTX) (e : SwiftEvent)
    (h : FromRequests C past s) (_ : True) : FromRequests C (past ++ [e]) (swiftStep C s e) := by
  have hfiled := filed_step C h.filed e
  have hrun : swiftStep C s e = (past ++ [e]).foldl (swiftStep C) empty := by
    rw [h.run, List.foldl_append]
    rfl
  have hmono : ∀ {k : uint256}, Processed C past k → Processed C (past ++ [e]) k :=
    Processed.mono (List.prefix_append past [e])
  have heffect := effect C h.filed.lock e
  generalize swiftStep C s e = s' at heffect hfiled hrun
  cases heffect with
  | ignored _ =>
    exact ⟨hfiled, hrun, fun k hk => hmono (h.req k hk), fun k hk => hmono (h.rejected k hk),
      fun k n votes htally hn => hmono (h.height k n votes htally hn)⟩
  | @takenUp env tx _ hactive htakes htaken =>
    have hown : Processed C (past ++ [.ix env tx]) tx.hash :=
      ⟨past, env, tx, List.prefix_refl _, hactive, h.run ▸ htakes, rfl⟩
    refine ⟨hfiled, hrun, ?_, ?_, ?_⟩
    · intro k hk
      by_cases hkey : k = tx.hash
      · exact hkey ▸ hown
      · rw [(htaken.other k hkey).1] at hk
        exact hmono (h.req k hk)
    · intro k hk
      by_cases hkey : k = tx.hash
      · exact hkey ▸ hown
      · rw [(htaken.other k hkey).2] at hk
        exact hmono (h.rejected k hk)
    · intro k n votes htally hn
      by_cases hkey : k = tx.hash
      · exact hkey ▸ hown
      · rw [htaken.tally, if_neg hkey] at htally
        exact hmono (h.height k n votes htally hn)
  | uncounted _ _ _ =>
    exact ⟨hfiled, hrun, fun k hk => hmono (h.req k hk), fun k hk => hmono (h.rejected k hk),
      fun k n votes htally hn => hmono (h.height k n votes htally hn)⟩
  | @counted env ctx _ _ _ _ hcounted =>
    refine ⟨hfiled, hrun, ?_, ?_, ?_⟩
    · intro k hk
      obtain ⟨t, ht⟩ := isSome_iff_exists.mp hk
      rcases (hcounted.req k t).mp ht with hold | ⟨hcompletes, rfl, -, -⟩
      · exact hmono (h.req k (isSome_iff_exists.mpr ⟨t, hold⟩))
      · exact hmono (h.completes hcompletes)
    · intro k hk
      rw [hcounted.rejected] at hk
      exact hmono (h.rejected k hk)
    · intro k n votes htally hn
      rw [hcounted.tally] at htally
      split at htally
      · next hkey =>
          -- the vote leaves the height as it was
          subst hkey
          cases htally
          cases hold : (s.noted ctx).tally ctx.txHash with
          | none =>
            rw [hold] at hn
            exact absurd rfl hn
          | some t =>
            rw [hold] at hn
            exact hmono (h.height ctx.txHash t.1 t.2 hold hn)
      · exact hmono (h.height k n votes htally hn)
  | cleaned _ hcleaned =>
    refine ⟨hfiled, hrun, ?_, ?_, ?_⟩
    · intro k hk
      obtain ⟨t, ht⟩ := isSome_iff_exists.mp hk
      exact hmono (h.req k (isSome_iff_exists.mpr ⟨t, ((hcleaned.req k t).mp ht).1⟩))
    · intro k hk
      obtain ⟨t, ht⟩ := isSome_iff_exists.mp hk
      exact hmono (h.rejected k (isSome_iff_exists.mpr ⟨t, ((hcleaned.rejected k t).mp ht).1⟩))
    · intro k n votes htally hn
      obtain ⟨l, hl, rfl, rfl⟩ := tally_eq_some.mp htally
      have hold : s.tally k = some (l.nBlockHeight, l.vecConsensusVotes) :=
        tally_eq_some.mpr ⟨l, ((hcleaned.lookup k l).mp hl).1, rfl, rfl⟩
      exact hmono (h.height k _ _ hold hn)

theorem fromRequests_run (C : Crypto) (past : List SwiftEvent) :
    FromRequests C past (past.foldl (swiftStep C) empty) := by
  have hguarded : Run.Guarded (swiftStep C) (fun _ _ => True) empty past :=
    Run.guarded_of_forall (p := fun _ => True) fun _ _ => trivial
  exact Run.run_hist_inv fromRequests_step (fromRequests_empty (C := C)) hguarded

theorem relayed_CreateNewLock (env : SwiftEnv) (s : SwiftTX) (tx : CTransaction) :
    (s.CreateNewLock env tx).1.relayed = s.relayed := by
  rw [CreateNewLock]
  cases lockHeight env tx <;> rfl

/-- **A request that comes for the first time is taken**, whatever votes there were. -/
theorem request_taken (h : FromRequests C past s) {env : SwiftEnv}
    {tx : CTransaction} (hnew : ¬ Processed C past tx.hash) (hactive : env.active = true)
    (hvalid : s.ValidRequest env tx) : s.TakesRequest C env tx := by
  obtain ⟨hix, hscripts, hpool⟩ := hvalid
  have hreq : s.mapTxLockReq tx.hash = none :=
    not_isSome_iff_eq_none.mp fun hsome => hnew (h.req tx.hash hsome)
  have hrejected : s.mapTxLockReqRejected tx.hash = none :=
    not_isSome_iff_eq_none.mp fun hsome => hnew (h.rejected tx.hash hsome)
  have htakes : s.takesUp env tx = true := by
    rw [takesUp, hreq, hrejected, hix, Bool.and_eq_true]
    exact ⟨rfl, List.all_eq_true.mpr hscripts⟩
  have hstep : swiftStep C s (.ix env tx) =
      (s.CreateNewLock env tx).1.acceptRequest C env tx (s.CreateNewLock env tx).2 := by
    rw [swiftStep, if_pos hactive, ProcessTxLockRequest, htakes]
    dsimp only
    rw [AcceptToMemoryPool_CreateNewLock, hpool]
    rfl
  -- what is asked of the maps before the entry is made
  let requested := (s.CreateNewLock env tx).1.RelayInv .MSG_TXLOCK_REQUEST tx.hash
  have hrequested : requested.mapTxLockReq = s.mapTxLockReq := (CreateNewLock_frame env s tx).1
  have hrelayed : requested.relayed = (.MSG_TXLOCK_REQUEST, tx.hash) :: s.relayed := by
    show (.MSG_TXLOCK_REQUEST, tx.hash) :: (s.CreateNewLock env tx).1.relayed = _
    rw [relayed_CreateNewLock]
  rw [TakesRequest, hstep]
  constructor
  · obtain ⟨hvoted, -⟩ := DoConsensusVote_frame C env requested tx (s.CreateNewLock env tx).2
    show mapInsert (requested.DoConsensusVote C env tx (s.CreateNewLock env tx).2).mapTxLockReq
      tx.hash tx tx.hash = some tx
    rw [hvoted, hrequested, mapInsert_apply, if_pos ⟨rfl, hreq⟩]
  · show ∃ own, (requested.DoConsensusVote C env tx (s.CreateNewLock env tx).2).relayed =
      own ++ (.MSG_TXLOCK_REQUEST, tx.hash) :: s.relayed
    rw [← hrelayed]
    rcases DoConsensusVote_cases C env requested tx (s.CreateNewLock env tx).2 with
      hvote | ⟨ctx, hvote⟩
    · exact ⟨[], congrArg SwiftTX.relayed hvote⟩
    · exact ⟨[(.MSG_TXLOCK_VOTE, ctx.GetHash)], congrArg SwiftTX.relayed hvote⟩

end

/-- **The requests are recorded throughout a run exactly when no vote completes the lock of a
transaction that is not in the map.** -/
theorem requests_genuine_iff (C : Crypto) (events : List SwiftEvent) :
    (∀ past, past <+: events → RequestsRecorded C past) ↔
      Run.Guarded (swiftStep C) (KeepsGenuine C) empty events := by
  have hgenuine : Run.Throughout (swiftStep C) RequestsGenuine empty events ↔
      Run.Guarded (swiftStep C) (KeepsGenuine C) empty events :=
    Run.guarded_iff (I := Filed) (fun _ e hs => filed_step C hs e)
      (fun _ e hfiled hs => requestsGenuine_step hfiled hs e) filed_empty (fun _ _ h => by cases h)
  rw [← hgenuine]
  constructor
  · intro hall past hpast
    exact (hall past hpast).1
  · intro hall past hpast
    refine ⟨hall past hpast, ?_⟩
    intro env tx hnew hactive hvalid
    exact request_taken (fromRequests_run C past) hnew hactive hvalid

/-- The pool refuses the request; six votes on it come after it. -/
def refusedThenVoted : List SwiftEvent := .ix (lockEnv false) payment :: sixVotes

/-- **Votes on a refused request.**  The sixth leaves an empty transaction under its hash. -/
theorem votes_record_nothing :
    ¬ (∀ (C : Crypto) (events : List SwiftEvent) (past : List SwiftEvent), past <+: events →
      RequestsRecorded C past) := by
  intro hall
  have hempty : (refusedThenVoted.foldl (swiftStep paymentCrypto) empty).mapTxLockReq 170 =
      some .default := by decide +kernel
  have hhash := (hall paymentCrypto refusedThenVoted refusedThenVoted
    (List.prefix_refl _)).1 170 .default hempty
  revert hhash
  decide

end SwiftTX
end Divitae
