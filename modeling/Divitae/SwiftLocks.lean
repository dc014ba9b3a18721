/-
# `SwiftLocks` — what each message does to the locks

A lock is looked at through its tally, the height and the votes: expiry times move when
locks cancel out, tallies do not.  Of the maps, three questions matter,

    Known s h tx          `tx` is the request for `h`, accepted or rejected
    s.tally h             the height and the votes of the lock of `h`
    s.mapLockedInputs o   what the outpoint is locked to

and for each handler a lemma answers each of them after it.  `Voted` is the condition
of the whole: six prosperitynodes, each counted once, voted for the height of the lock.
-/
import Divitae.SwiftTX

namespace Divitae

open List Function AList

section
variable {κ ν : Type*} [DecidableEq κ]

theorem mapInsert_apply (m : κ → Option ν) (k : κ) (v : ν) (o : κ) :
    mapInsert m k v o = if o = k ∧ m k = none then some v else m o := by
  rw [mapInsert]
  by_cases hk : (m k).isSome
  · have hne : m k ≠ none := Option.isSome_iff_ne_none.mp hk
    rw [if_pos hk, if_neg fun h => hne h.2]
  · have hnone : m k = none := Option.not_isSome_iff_eq_none.mp hk
    rw [if_neg hk, update_apply]
    simp [hnone]

theorem foldl_mapInsert_apply (l : List κ) (m : κ → Option ν) (v : ν) (o : κ) :
    l.foldl (fun m o => mapInsert m o v) m o = if o ∈ l ∧ m o = none then some v else m o := by
  induction l generalizing m with
  | nil => simp
  | cons k l ih =>
    rw [foldl_cons, ih, mapInsert_apply]
    by_cases hok : o = k
    · subst hok
      cases hm : m o <;> simp
    · simp [hok]

theorem foldl_update_none_apply (l : List κ) (m : κ → Option ν) (o : κ) :
    l.foldl (fun m o => Function.update m o none) m o = if o ∈ l then none else m o := by
  induction l generalizing m with
  | nil => simp
  | cons k l ih =>
    rw [foldl_cons, ih, update_apply]
    by_cases hok : o = k
    · simp [hok]
    · simp [hok]

end

/-- The outpoints a transaction spends. -/
def CTransaction.outpoints (tx : CTransaction) : List COutPoint := tx.vin.map CTxIn.prevout

namespace SwiftTX

/-! ## Tallies -/

/-- Height and votes of the lock of a transaction. -/
def tally (s : SwiftTX) (h : uint256) : Option (Int × List CConsensusVote) :=
  (s.mapTxLocks.lookup h).map fun l => (l.nBlockHeight, l.vecConsensusVotes)

def heldVotes (s : SwiftTX) (h : uint256) : List CConsensusVote := (s.tally h).elim [] Prod.snd

/-- The prosperitynodes that voted for a height, each one once. -/
def signers (nBlockHeight : Int) (votes : List CConsensusVote) : List COutPoint :=
  ((votes.filter (·.nBlockHeight == nBlockHeight)).map (·.vinProsperitynode.prevout)).dedup

/-- Enough prosperitynodes voted for the height of a lock that has one. -/
def Complete (nBlockHeight : Int) (votes : List CConsensusVote) : Prop :=
  nBlockHeight ≠ 0 ∧ SWIFTTX_SIGNATURES_REQUIRED ≤ (signers nBlockHeight votes).length

def Voted (s : SwiftTX) (h : uint256) : Prop :=
  ∃ n votes, s.tally h = some (n, votes) ∧ Complete n votes

/-- What the code takes for a complete lock: every vote for its height counts. -/
def reached (nBlockHeight : Int) (votes : List CConsensusVote) : Bool :=
  nBlockHeight != 0 &&
    SWIFTTX_SIGNATURES_REQUIRED ≤ (votes.filter (·.nBlockHeight == nBlockHeight)).length

theorem CountSignatures_eq (l : CTransactionLock) :
    decide (l.CountSignatures ≥ SWIFTTX_SIGNATURES_REQUIRED) =
      reached l.nBlockHeight l.vecConsensusVotes := by
  rw [CTransactionLock.CountSignatures, reached]
  by_cases hzero : l.nBlockHeight = 0
  · simp [hzero, SWIFTTX_SIGNATURES_REQUIRED]
  · simp [hzero]

theorem lookup_any_count (s : SwiftTX) (h : uint256) :
    (s.mapTxLocks.lookup h).any (·.CountSignatures ≥ SWIFTTX_SIGNATURES_REQUIRED) =
      (s.tally h).any fun t => reached t.1 t.2 := by
  rw [tally, Option.any_map]
  simp only [CountSignatures_eq]

variable {votes : List CConsensusVote} {n : Int}

theorem reached_of_complete (h : Complete n votes) :
    reached n votes = true := by
  obtain ⟨hn, hsigners⟩ := h
  have hle : (signers n votes).length ≤ (votes.filter (·.nBlockHeight == n)).length := by
    rw [signers, ← length_map (f := fun v : CConsensusVote => v.vinProsperitynode.prevout)]
    exact (dedup_sublist _).length_le
  simp only [reached, Bool.and_eq_true, bne_iff_ne, decide_eq_true_eq]
  exact ⟨hn, by omega⟩

theorem complete_of_reached
    (hnodup : (votes.map (·.vinProsperitynode.prevout)).Nodup) (h : reached n votes = true) :
    Complete n votes := by
  simp only [reached, Bool.and_eq_true, bne_iff_ne, decide_eq_true_eq] at h
  refine ⟨h.1, ?_⟩
  have hsub : ((votes.filter (·.nBlockHeight == n)).map (·.vinProsperitynode.prevout)).Nodup :=
    hnodup.sublist ((filter_sublist).map _)
  rw [signers, hsub.dedup, length_map]
  exact h.2

theorem Complete.append (h : Complete n votes)
    (more : List CConsensusVote) : Complete n (votes ++ more) := by
  obtain ⟨hn, hsigners⟩ := h
  refine ⟨hn, hsigners.trans ?_⟩
  have hsub : signers n votes ⊆ signers n (votes ++ more) := by
    intro o ho
    simp only [signers, mem_dedup, filter_append, map_append, mem_append] at ho ⊢
    exact .inl ho
  exact_mod_cast (subperm_of_subset (nodup_dedup _) hsub).length_le

/-! ## Requests -/

/-- `tx` is what the node holds as the request for `h`. -/
def Known (s : SwiftTX) (h : uint256) (tx : CTransaction) : Prop :=
  s.mapTxLockReq h = some tx ∨ s.mapTxLockReqRejected h = some tx

/-- No outpoint of `tx` is locked to anything but `h`. -/
def Free (s : SwiftTX) (h : uint256) (tx : CTransaction) : Prop :=
  ∀ o ∈ tx.outpoints, s.mapLockedInputs o = none ∨ s.mapLockedInputs o = some h

/-- Every outpoint of `tx` is locked to `h`. -/
def LockedTo (s : SwiftTX) (h : uint256) (tx : CTransaction) : Prop :=
  ∀ o ∈ tx.outpoints, s.mapLockedInputs o = some h

theorem conflicting_eq_none (s : SwiftTX) (tx : CTransaction) :
    s.conflicting tx = none ↔ s.Free tx.hash tx := by
  simp only [conflicting, List.find?_eq_none, mem_filterMap, Free, CTransaction.outpoints, mem_map]
  constructor
  · rintro h o ⟨txin, hin, rfl⟩
    cases hlocked : s.mapLockedInputs txin.prevout with
    | none => exact .inl rfl
    | some h' =>
      have := h h' ⟨txin, hin, hlocked⟩
      exact .inr (by simpa using this)
  · rintro h h' ⟨txin, hin, hlocked⟩
    have hfree := h txin.prevout ⟨txin, hin, rfl⟩
    rw [hlocked] at hfree
    simpa using hfree

/-- Two states that differ in expiry times and relayed messages at most. -/
structure Agree (s s' : SwiftTX) : Prop where
  req : s'.mapTxLockReq = s.mapTxLockReq
  rejected : s'.mapTxLockReqRejected = s.mapTxLockReqRejected
  vote : s'.mapTxLockVote = s.mapTxLockVote
  locked : s'.mapLockedInputs = s.mapLockedInputs
  tally : s'.tally = s.tally
  txHash : ∀ h, (s'.mapTxLocks.lookup h).map CTransactionLock.txHash =
    (s.mapTxLocks.lookup h).map CTransactionLock.txHash

theorem Agree.refl (s : SwiftTX) : Agree s s := ⟨rfl, rfl, rfl, rfl, rfl, fun _ => rfl⟩

theorem Agree.trans {s s' s'' : SwiftTX} (h : Agree s s') (h' : Agree s' s'') : Agree s s'' where
  req := h'.req.trans h.req
  rejected := h'.rejected.trans h.rejected
  vote := h'.vote.trans h.vote
  locked := h'.locked.trans h.locked
  tally := h'.tally.trans h.tally
  txHash k := (h'.txHash k).trans (h.txHash k)

section
variable (env : SwiftEnv) (s : SwiftTX)
include env s

theorem agree_expireLock (h : uint256) :
    Agree s (s.expireLock env h) := by
  rw [expireLock]
  cases hlock : s.mapTxLocks.lookup h with
  | none => exact Agree.refl s
  | some lock =>
    refine ⟨rfl, rfl, rfl, rfl, ?_, ?_⟩
    · funext k
      by_cases hk : k = h
      · subst hk
        simp [tally, hlock]
      · simp [tally, lookup_insert_ne hk]
    · intro k
      by_cases hk : k = h
      · subst hk
        simp [hlock]
      · simp [lookup_insert_ne hk]

theorem agree_CheckForConflictingLocks (tx : CTransaction) :
    Agree s (s.CheckForConflictingLocks env tx).1 := by
  rw [CheckForConflictingLocks]
  cases s.conflicting tx with
  | none => exact Agree.refl s
  | some other => exact (agree_expireLock env s tx.hash).trans (agree_expireLock env _ other)

theorem CheckForConflictingLocks_snd (tx : CTransaction) :
    (s.CheckForConflictingLocks env tx).2 = (s.conflicting tx).isSome := by
  rw [CheckForConflictingLocks]
  cases s.conflicting tx <;> rfl

end

theorem lockInputs_apply (s : SwiftTX) (tx : CTransaction) (h : uint256) (o : COutPoint) :
    (s.lockInputs tx h).mapLockedInputs o =
      if o ∈ tx.outpoints ∧ s.mapLockedInputs o = none then some h else s.mapLockedInputs o :=
  foldl_mapInsert_apply _ _ _ _

/-! ## A request -/

section
variable (C : Crypto) (env : SwiftEnv) (s : SwiftTX) (tx : CTransaction)

/-- Height and votes of the lock of a request, once it is taken up. -/
def requestTally : Option (Int × List CConsensusVote) :=
  match lockHeight env tx with
  | none => s.tally tx.hash
  | some n => some (n, s.heldVotes tx.hash)

/-- The votes that came before the request complete its lock. -/
def RequestVoted : Prop := ∃ n votes, s.requestTally env tx = some (n, votes) ∧ Complete n votes

theorem tally_CreateNewLock (h : uint256) :
    (s.CreateNewLock env tx).1.tally h =
      if h = tx.hash then s.requestTally env tx else s.tally h := by
  rw [CreateNewLock, requestTally]
  cases lockHeight env tx with
  | none =>
    by_cases hh : h = tx.hash
    · rw [if_pos hh, hh]
    · rw [if_neg hh]
  | some n =>
    by_cases hh : h = tx.hash
    · rw [if_pos hh, hh]
      simp only [tally, heldVotes, lookup_insert]
      cases s.mapTxLocks.lookup tx.hash <;> rfl
    · rw [if_neg hh]
      simp only [tally, lookup_insert_ne hh]

variable {h : uint256}

theorem txHash_CreateNewLock (hkeyed : ∀ h l, s.mapTxLocks.lookup h = some l → l.txHash = h)
    {l : CTransactionLock}
    (hl : (s.CreateNewLock env tx).1.mapTxLocks.lookup h = some l) : l.txHash = h := by
  rw [CreateNewLock] at hl
  cases hheight : lockHeight env tx with
  | none =>
    rw [hheight] at hl
    exact hkeyed h l hl
  | some n =>
    rw [hheight] at hl
    by_cases hh : h = tx.hash
    · subst hh
      simp only [lookup_insert, Option.some.injEq] at hl
      subst hl
      cases hold : s.mapTxLocks.lookup tx.hash with
      | none => rfl
      | some old => exact hkeyed tx.hash old hold
    · simp only [lookup_insert_ne hh] at hl
      exact hkeyed h l hl

theorem DoConsensusVote_cases (n : Int) :
    s.DoConsensusVote C env tx n = s ∨ ∃ ctx : CConsensusVote,
      s.DoConsensusVote C env tx n =
        { s with
          mapTxLockVote := Function.update s.mapTxLockVote ctx.GetHash (some ctx) }.RelayInv
          .MSG_TXLOCK_VOTE ctx.GetHash := by
  rw [DoConsensusVote]
  split
  · exact .inl rfl
  · dsimp only
    split
    · exact .inl rfl
    · split
      · exact .inl rfl
      · cases CConsensusVote.Sign C env ⟨env.activeTxIn, tx.hash, n, []⟩ with
        | none => exact .inl rfl
        | some ctx =>
          dsimp only
          split
          · exact .inl rfl
          · exact .inr ⟨ctx, rfl⟩

theorem DoConsensusVote_frame (n : Int) :
    (s.DoConsensusVote C env tx n).mapTxLockReq = s.mapTxLockReq ∧
      (s.DoConsensusVote C env tx n).mapTxLockReqRejected = s.mapTxLockReqRejected ∧
      (s.DoConsensusVote C env tx n).mapTxLocks = s.mapTxLocks ∧
      (s.DoConsensusVote C env tx n).mapLockedInputs = s.mapLockedInputs ∧
      ∀ x, (s.mapTxLockVote x).isSome →
        ((s.DoConsensusVote C env tx n).mapTxLockVote x).isSome := by
  rcases DoConsensusVote_cases C env s tx n with h | ⟨ctx, h⟩
  · rw [h]
    exact ⟨rfl, rfl, rfl, rfl, fun _ hx => hx⟩
  · rw [h]
    refine ⟨rfl, rfl, rfl, rfl, ?_⟩
    intro x hx
    show (Function.update s.mapTxLockVote ctx.GetHash (some ctx) x).isSome
    rw [update_apply]
    split
    · rfl
    · exact hx

theorem CreateNewLock_frame :
    (s.CreateNewLock env tx).1.mapTxLockReq = s.mapTxLockReq ∧
      (s.CreateNewLock env tx).1.mapTxLockReqRejected = s.mapTxLockReqRejected ∧
      (s.CreateNewLock env tx).1.mapTxLockVote = s.mapTxLockVote ∧
      (s.CreateNewLock env tx).1.mapLockedInputs = s.mapLockedInputs := by
  rw [CreateNewLock]
  cases lockHeight env tx <;> exact ⟨rfl, rfl, rfl, rfl⟩

/-- What a request that is taken up leaves behind.  The memory pool reads the locked
inputs as they were before. -/
structure TakenUp (s' : SwiftTX) : Prop where
  own : ∀ t, s'.Known tx.hash t ↔ t = tx
  other : ∀ h, h ≠ tx.hash → s'.mapTxLockReq h = s.mapTxLockReq h ∧
    s'.mapTxLockReqRejected h = s.mapTxLockReqRejected h
  tally : ∀ h, s'.tally h = if h = tx.hash then s.requestTally env tx else s.tally h
  locked : ∀ o, s'.mapLockedInputs o =
    if s.AcceptToMemoryPool env tx = false ∧ o ∈ tx.outpoints ∧ s.mapLockedInputs o = none then
      some tx.hash else s.mapLockedInputs o
  vote : ∀ x, (s.mapTxLockVote x).isSome → (s'.mapTxLockVote x).isSome
  txHash : ∀ h, (s'.mapTxLocks.lookup h).map CTransactionLock.txHash =
    ((s.CreateNewLock env tx).1.mapTxLocks.lookup h).map CTransactionLock.txHash

variable {env s tx}

theorem TakenUp.known {s' : SwiftTX} (h : TakenUp env s tx s') {k : uint256} (hk : k ≠ tx.hash)
    (t : CTransaction) : s'.Known k t ↔ s.Known k t := by
  rw [Known, (h.other k hk).1, (h.other k hk).2, Known]

theorem takenUp_accept (hreq : s.mapTxLockReq tx.hash = none)
    (hrej : s.mapTxLockReqRejected tx.hash = none) (hpool : s.AcceptToMemoryPool env tx = true)
    (n : Int) : TakenUp env s tx ((s.CreateNewLock env tx).1.acceptRequest C env tx n) := by
  obtain ⟨hcreq, hcrej, hcvote, hclocked⟩ := CreateNewLock_frame env s tx
  obtain ⟨hdreq, hdrej, hdlocks, hdlocked, hdvote⟩ := DoConsensusVote_frame C env
    ((s.CreateNewLock env tx).1.RelayInv .MSG_TXLOCK_REQUEST tx.hash) tx n
  have hreq' (h : uint256) : ((s.CreateNewLock env tx).1.acceptRequest C env tx n).mapTxLockReq h =
      if h = tx.hash ∧ s.mapTxLockReq tx.hash = none then some tx else s.mapTxLockReq h := by
    rw [← hcreq, ← mapInsert_apply]
    simp only [acceptRequest, hdreq]
    rfl
  have hrej' : ((s.CreateNewLock env tx).1.acceptRequest C env tx n).mapTxLockReqRejected =
      s.mapTxLockReqRejected := by
    rw [← hcrej]
    simp only [acceptRequest, hdrej]
    rfl
  refine ⟨?_, ?_, ?_, ?_, ?_, ?_⟩
  · intro t
    rw [Known, hreq', hrej', if_pos ⟨rfl, hreq⟩, hrej]
    simp [eq_comm]
  · intro h hh
    rw [hreq', hrej', if_neg fun hand => hh hand.1]
    exact ⟨rfl, rfl⟩
  · intro h
    rw [← tally_CreateNewLock]
    simp only [SwiftTX.tally, acceptRequest, hdlocks]
    rfl
  · intro o
    rw [if_neg (by simp [hpool])]
    simp only [acceptRequest, hdlocked]
    show (s.CreateNewLock env tx).1.mapLockedInputs o = _
    rw [hclocked]
  · intro x hx
    rw [← hcvote] at hx
    exact hdvote x hx
  · intro h
    simp only [acceptRequest, hdlocks]
    rfl

def rejected (s : SwiftTX) (tx : CTransaction) : SwiftTX :=
  { s with
    mapTxLockReqRejected := mapInsert s.mapTxLockReqRejected tx.hash tx }.lockInputs tx tx.hash

theorem rejectRequest_cases (env : SwiftEnv) (s : SwiftTX) (tx : CTransaction) :
    ∃ s', Agree (s.rejected tx) s' ∧ (s.rejectRequest env tx = s' ∨
      s.rejectRequest env tx =
        { s' with mapTxLockReq := mapInsert s'.mapTxLockReq tx.hash tx }) := by
  have hagree := agree_CheckForConflictingLocks env (s.rejected tx) tx
  rw [rejectRequest]
  dsimp only
  split
  · refine ⟨_, hagree, ?_⟩
    split
    · exact .inr rfl
    · exact .inl rfl
  · exact ⟨s.rejected tx, Agree.refl _, .inl rfl⟩

theorem takenUp_reject (hreq : s.mapTxLockReq tx.hash = none)
    (hrej : s.mapTxLockReqRejected tx.hash = none) (hpool : s.AcceptToMemoryPool env tx = false) :
    TakenUp env s tx ((s.CreateNewLock env tx).1.rejectRequest env tx) := by
  obtain ⟨hcreq, hcrej, hcvote, hclocked⟩ := CreateNewLock_frame env s tx
  obtain ⟨s', hagree, hs'⟩ := rejectRequest_cases env (s.CreateNewLock env tx).1 tx
  have hreq' : s'.mapTxLockReq = s.mapTxLockReq := hagree.req.trans hcreq
  have hrej' : s'.mapTxLockReqRejected = mapInsert s.mapTxLockReqRejected tx.hash tx := by
    rw [hagree.rejected, ← hcrej]
    rfl
  -- the two outcomes differ in the accepted request only
  have hrest (u : SwiftTX)
      (hureq : u.mapTxLockReq = s'.mapTxLockReq ∨
        u.mapTxLockReq = mapInsert s'.mapTxLockReq tx.hash tx)
      (hurej : u.mapTxLockReqRejected = s'.mapTxLockReqRejected)
      (hulocks : u.mapTxLocks = s'.mapTxLocks) (hulocked : u.mapLockedInputs = s'.mapLockedInputs)
      (huvote : u.mapTxLockVote = s'.mapTxLockVote) : TakenUp env s tx u := by
    have hown : u.mapTxLockReq tx.hash = none ∨ u.mapTxLockReq tx.hash = some tx := by
      rcases hureq with h | h
      · exact .inl (by rw [h, hreq', hreq])
      · exact .inr (by rw [h, hreq', mapInsert_apply, if_pos ⟨rfl, hreq⟩])
    refine ⟨?_, ?_, ?_, ?_, ?_, ?_⟩
    · intro t
      rw [Known, hurej, hrej', mapInsert_apply, if_pos ⟨rfl, hrej⟩]
      rcases hown with h | h
      · simp [h, eq_comm]
      · simp [h, eq_comm]
    · intro h hh
      have hureq' : u.mapTxLockReq h = s.mapTxLockReq h := by
        rcases hureq with hu | hu
        · rw [hu, hreq']
        · rw [hu, hreq', mapInsert_apply, if_neg fun hand => hh hand.1]
      rw [hureq', hurej, hrej', mapInsert_apply, if_neg fun hand => hh hand.1]
      exact ⟨rfl, rfl⟩
    · intro h
      have htally := congrFun hagree.tally h
      rw [← tally_CreateNewLock]
      simp only [SwiftTX.tally, hulocks] at htally ⊢
      exact htally
    · intro o
      rw [hulocked, hagree.locked, rejected, lockInputs_apply]
      rw [hclocked]
      simp [hpool]
    · intro x hx
      rw [huvote, hagree.vote]
      show ((s.CreateNewLock env tx).1.mapTxLockVote x).isSome
      rw [hcvote]
      exact hx
    · intro h
      rw [hulocks]
      exact hagree.txHash h
  rcases hs' with hs' | hs'
  · rw [hs']
    exact hrest s' (.inl rfl) rfl rfl rfl rfl
  · rw [hs']
    exact hrest _ (.inr rfl) rfl rfl rfl rfl

theorem AcceptToMemoryPool_CreateNewLock :
    (s.CreateNewLock env tx).1.AcceptToMemoryPool env tx = s.AcceptToMemoryPool env tx := by
  rw [AcceptToMemoryPool, AcceptToMemoryPool, conflicting, conflicting,
    (CreateNewLock_frame env s tx).2.2.2]

theorem takenUp (htakes : s.takesUp env tx = true) :
    TakenUp env s tx (s.ProcessTxLockRequest C env tx) := by
  have hfresh : s.mapTxLockReq tx.hash = none ∧ s.mapTxLockReqRejected tx.hash = none := by
    simp only [takesUp, Bool.and_eq_true, Option.isNone_iff_eq_none] at htakes
    exact htakes.1.1
  obtain ⟨hreq, hrej⟩ := hfresh
  rw [ProcessTxLockRequest, htakes]
  show TakenUp env s tx (if (s.CreateNewLock env tx).1.AcceptToMemoryPool env tx then
    (s.CreateNewLock env tx).1.acceptRequest C env tx (s.CreateNewLock env tx).2
    else (s.CreateNewLock env tx).1.rejectRequest env tx)
  rw [AcceptToMemoryPool_CreateNewLock]
  cases hpool : s.AcceptToMemoryPool env tx with
  | true => exact takenUp_accept C hreq hrej hpool _
  | false => exact takenUp_reject hreq hrej hpool

theorem ProcessTxLockRequest_ignored (h : s.takesUp env tx = false) :
    s.ProcessTxLockRequest C env tx = s := by
  rw [ProcessTxLockRequest, h]
  rfl

end

/-! ## A vote -/

section
variable (C : Crypto) (env : SwiftEnv) (s : SwiftTX) (ctx : CConsensusVote)

def voteTally : Int × List CConsensusVote :=
  let t := (s.tally ctx.txHash).getD (0, [])
  (t.1, t.2 ++ [ctx])

/-- With this vote the code takes the lock for complete. -/
def completes : Bool := reached (s.voteTally ctx).1 (s.voteTally ctx).2

/-- What a vote leaves behind once it is counted. -/
structure Counted (s' : SwiftTX) : Prop where
  req : ∀ h t, s'.mapTxLockReq h = some t ↔ s.mapTxLockReq h = some t ∨
    (s.completes ctx = true ∧ h = ctx.txHash ∧ s.mapTxLockReq h = none ∧ t = .default)
  rejected : s'.mapTxLockReqRejected = s.mapTxLockReqRejected
  tally : ∀ h, s'.tally h = if h = ctx.txHash then some (s.voteTally ctx) else s.tally h
  locked : ∀ o h, s'.mapLockedInputs o = some h ↔ s.mapLockedInputs o = some h ∨
    (s.completes ctx = true ∧ s.mapLockedInputs o = none ∧ h = ctx.txHash ∧
      ∃ tx, s.mapTxLockReq ctx.txHash = some tx ∧ s.Free tx.hash tx ∧ o ∈ tx.outpoints)
  vote : s'.mapTxLockVote = s.mapTxLockVote
  txHash : (∀ h l, s.mapTxLocks.lookup h = some l → l.txHash = h) →
    ∀ h l, s'.mapTxLocks.lookup h = some l → l.txHash = h

variable {s s' s'' ctx}

theorem Counted.agree (h : Counted s ctx s') (h' : Agree s' s'') : Counted s ctx s'' where
  req k t := by rw [h'.req]; exact h.req k t
  rejected := h'.rejected.trans h.rejected
  tally k := by rw [h'.tally]; exact h.tally k
  locked o k := by rw [h'.locked]; exact h.locked o k
  vote := h'.vote.trans h.vote
  txHash hkeyed k l hl := by
    have hmap := h'.txHash k
    rw [hl] at hmap
    obtain ⟨l', hl', heq⟩ := Option.map_eq_some_iff.mp hmap.symm
    rw [← h.txHash hkeyed k l' hl', heq]

variable (s ctx)

theorem tally_addVote (h : uint256) :
    (s.addVote env ctx).tally h = if h = ctx.txHash then some (s.voteTally ctx) else s.tally h := by
  by_cases hh : h = ctx.txHash
  · rw [if_pos hh, hh]
    simp only [addVote, tally, lookup_insert, voteTally]
    cases s.mapTxLocks.lookup ctx.txHash <;> rfl
  · rw [if_neg hh]
    simp only [addVote, tally, lookup_insert_ne hh]

theorem txHash_addVote (hkeyed : ∀ h l, s.mapTxLocks.lookup h = some l → l.txHash = h)
    {l : CTransactionLock} (hl : (s.addVote env ctx).mapTxLocks.lookup h = some l) :
    l.txHash = h := by
  rw [addVote] at hl
  by_cases hh : h = ctx.txHash
  · subst hh
    simp only [lookup_insert, Option.some.injEq] at hl
    subst hl
    cases hold : s.mapTxLocks.lookup ctx.txHash with
    | none => rfl
    | some old => exact hkeyed ctx.txHash old hold
  · simp only [lookup_insert_ne hh] at hl
    exact hkeyed h l hl

theorem counted_addVote (hcomp : s.completes ctx = false) : Counted s ctx (s.addVote env ctx) where
  req h t := by simp [hcomp, addVote]
  rejected := rfl
  tally := tally_addVote env s ctx
  locked o h := by simp [hcomp, addVote]
  vote := rfl
  txHash hkeyed _ _ hl := txHash_addVote env s ctx hkeyed hl

/-- `mapTxLockReq[h]`: an empty transaction where there is no request. -/
def withRequest (s : SwiftTX) (h : uint256) : SwiftTX :=
  { s with mapTxLockReq := mapInsert s.mapTxLockReq h .default }

theorem completeLock_none (s : SwiftTX) (hreq : s.mapTxLockReq h = none) :
    s.completeLock env h = s.withRequest h := by
  rw [completeLock, hreq]
  rfl

variable {tx : CTransaction}

theorem completeLock_free (s : SwiftTX)
    (hreq : s.mapTxLockReq h = some tx) (hfree : s.Free tx.hash tx) :
    s.completeLock env h = (s.withRequest h).lockInputs tx h := by
  have hconf : (s.withRequest h).conflicting tx = none :=
    (conflicting_eq_none (s.withRequest h) tx).mpr hfree
  have hcheck : (s.withRequest h).CheckForConflictingLocks env tx = (s.withRequest h, false) := by
    rw [CheckForConflictingLocks, hconf]
  rw [completeLock, hreq]
  show (if !((s.withRequest h).CheckForConflictingLocks env tx).2 then
    ((s.withRequest h).CheckForConflictingLocks env tx).1.lockInputs tx h
    else ((s.withRequest h).CheckForConflictingLocks env tx).1) = _
  rw [hcheck]
  rfl

theorem completeLock_conflict (s : SwiftTX)
    (hreq : s.mapTxLockReq h = some tx) (hfree : ¬ s.Free tx.hash tx) :
    Agree (s.withRequest h) (s.completeLock env h) := by
  have hsome : ((s.withRequest h).CheckForConflictingLocks env tx).2 = true := by
    rw [CheckForConflictingLocks_snd, Option.isSome_iff_ne_none]
    intro hnone
    exact hfree ((conflicting_eq_none (s.withRequest h) tx).mp hnone)
  have heq : s.completeLock env h = ((s.withRequest h).CheckForConflictingLocks env tx).1 := by
    rw [completeLock, hreq]
    show (if !((s.withRequest h).CheckForConflictingLocks env tx).2 then _ else _) = _
    rw [hsome]
    rfl
  rw [heq]
  exact agree_CheckForConflictingLocks env (s.withRequest h) tx

theorem withRequest_of_some {s : SwiftTX}
    (hreq : s.mapTxLockReq h = some tx) : s.withRequest h = s := by
  rw [withRequest, mapInsert, if_pos (by rw [hreq]; rfl)]

theorem counted_completeLock (hcomp : s.completes ctx = true) :
    Counted s ctx ((s.addVote env ctx).completeLock env ctx.txHash) := by
  have hkeyed {s' : SwiftTX} (hagree : Agree (s.addVote env ctx) s')
      (hkeyed : ∀ h l, s.mapTxLocks.lookup h = some l → l.txHash = h) (h : uint256)
      (l : CTransactionLock) (hl : s'.mapTxLocks.lookup h = some l) : l.txHash = h := by
    have hmap := hagree.txHash h
    rw [hl] at hmap
    obtain ⟨l', hl', heq⟩ := Option.map_eq_some_iff.mp hmap.symm
    rw [← heq]
    exact txHash_addVote env s ctx hkeyed hl'
  cases hreq : s.mapTxLockReq ctx.txHash with
  | none =>
    -- an empty transaction takes the place of the request, and it has no inputs
    rw [completeLock_none env (s.addVote env ctx) hreq]
    refine ⟨?_, rfl, tally_addVote env s ctx, ?_, rfl, ?_⟩
    · intro h t
      show mapInsert s.mapTxLockReq ctx.txHash .default h = some t ↔ _
      rw [mapInsert_apply]
      by_cases hh : h = ctx.txHash
      · simp [hh, hreq, hcomp, eq_comm]
      · simp [hh]
    · intro o h
      simp [hreq, withRequest, addVote]
    · intro hk h l hl
      exact txHash_addVote env s ctx hk hl
  | some tx =>
    have hwith : (s.addVote env ctx).withRequest ctx.txHash = s.addVote env ctx :=
      withRequest_of_some hreq
    have hreqs (h : uint256) (t : CTransaction) : s.mapTxLockReq h = some t ↔
        s.mapTxLockReq h = some t ∨ (s.completes ctx = true ∧ h = ctx.txHash ∧
          s.mapTxLockReq h = none ∧ t = .default) := by
      refine ⟨.inl, ?_⟩
      rintro (h | ⟨-, rfl, hnone, -⟩)
      · exact h
      · rw [hreq] at hnone
        exact absurd hnone (by simp)
    by_cases hfree : s.Free tx.hash tx
    · rw [completeLock_free env (s.addVote env ctx) hreq hfree, hwith]
      refine ⟨hreqs, rfl, tally_addVote env s ctx, ?_, rfl, ?_⟩
      · intro o h
        rw [lockInputs_apply]
        show (if o ∈ tx.outpoints ∧ s.mapLockedInputs o = none then some ctx.txHash
          else s.mapLockedInputs o) = some h ↔ _
        by_cases hnone : s.mapLockedInputs o = none
        · by_cases ho : o ∈ tx.outpoints
          · simp [hnone, hcomp, hreq, hfree, ho, eq_comm]
          · simp [hnone, hreq, ho]
        · simp [hnone]
      · intro hk h l hl
        exact txHash_addVote env s ctx hk hl
    · have hagree := completeLock_conflict env (s.addVote env ctx) hreq hfree
      rw [hwith] at hagree
      refine ⟨?_, hagree.rejected, ?_, ?_, hagree.vote, hkeyed hagree⟩
      · intro h t
        rw [hagree.req]
        exact hreqs h t
      · intro h
        rw [hagree.tally]
        exact tally_addVote env s ctx h
      · intro o h
        rw [hagree.locked]
        refine ⟨.inl, ?_⟩
        rintro (h | ⟨-, -, -, tx', htx', hfree', -⟩)
        · exact h
        · rw [hreq, Option.some.injEq] at htx'
          subst htx'
          exact absurd hfree' hfree

theorem counted (h : countable C env ctx = true) :
    (s.ProcessConsensusVote C env ctx).2 = true ∧
      Counted s ctx (s.ProcessConsensusVote C env ctx).1 := by
  have hreached : ((s.addVote env ctx).mapTxLocks.lookup ctx.txHash).any
      (·.CountSignatures ≥ SWIFTTX_SIGNATURES_REQUIRED) = s.completes ctx := by
    rw [lookup_any_count, tally_addVote, if_pos rfl]
    rfl
  have heq : s.ProcessConsensusVote C env ctx =
      if s.completes ctx = true then ((s.addVote env ctx).completeLock env ctx.txHash, true)
      else (s.addVote env ctx, true) := by
    rw [ProcessConsensusVote, h, ← hreached]
    rfl
  rw [heq]
  cases hcomp : s.completes ctx with
  | false => exact ⟨rfl, counted_addVote env s ctx hcomp⟩
  | true =>
    exact ⟨rfl, counted_completeLock env s ctx hcomp⟩

def noted (s : SwiftTX) (ctx : CConsensusVote) : SwiftTX :=
  { s with mapTxLockVote := mapInsert s.mapTxLockVote ctx.GetHash ctx }

theorem ProcessTxLockVote_seen (h : (s.mapTxLockVote ctx.GetHash).isSome = true) :
    s.ProcessTxLockVote C env ctx = s := by
  rw [ProcessTxLockVote, if_pos h]

/-- What a processed vote does besides: its rate is limited, and it is relayed. -/
def passOn (env : SwiftEnv) (s : SwiftTX) (ctx : CConsensusVote) : SwiftTX :=
  let r := if (s.mapTxLockReq ctx.txHash).isNone && (s.mapTxLockReqRejected ctx.txHash).isNone then
    s.limitUnknownVote env ctx else (s, true)
  if r.2 then r.1.RelayInv .MSG_TXLOCK_VOTE ctx.GetHash else r.1

theorem agree_passOn : Agree s (s.passOn env ctx) := by
  have hlimit : Agree s (s.limitUnknownVote env ctx).1 := by
    rw [limitUnknownVote]
    split <;> split <;> exact ⟨rfl, rfl, rfl, rfl, rfl, fun _ => rfl⟩
  have hrelay (u : SwiftTX) : Agree u (u.RelayInv .MSG_TXLOCK_VOTE ctx.GetHash) :=
    ⟨rfl, rfl, rfl, rfl, rfl, fun _ => rfl⟩
  have hpass (r : SwiftTX × Bool) (hr : Agree s r.1) :
      Agree s (if r.2 then r.1.RelayInv .MSG_TXLOCK_VOTE ctx.GetHash else r.1) := by
    split
    · exact hr.trans (hrelay _)
    · exact hr
  refine hpass _ ?_
  split
  · exact hlimit
  · exact Agree.refl s

section
variable (hnew : s.mapTxLockVote ctx.GetHash = none)
include hnew

theorem ProcessTxLockVote_new :
    s.ProcessTxLockVote C env ctx =
      if ((s.noted ctx).ProcessConsensusVote C env ctx).2 = false then
        ((s.noted ctx).ProcessConsensusVote C env ctx).1
      else ((s.noted ctx).ProcessConsensusVote C env ctx).1.passOn env ctx := by
  rw [ProcessTxLockVote, hnew]
  show (if !((s.noted ctx).ProcessConsensusVote C env ctx).2 then _ else _) = _
  cases ((s.noted ctx).ProcessConsensusVote C env ctx).2 <;> rfl

theorem ProcessTxLockVote_uncounted
    (h : countable C env ctx = false) : s.ProcessTxLockVote C env ctx = s.noted ctx := by
  rw [ProcessTxLockVote_new C env s ctx hnew, ProcessConsensusVote, h]
  rfl

theorem ProcessTxLockVote_counted (h : countable C env ctx = true) :
    Counted (s.noted ctx) ctx (s.ProcessTxLockVote C env ctx) := by
  obtain ⟨hproc, hcounted⟩ := counted C env (s.noted ctx) ctx h
  rw [ProcessTxLockVote_new C env s ctx hnew, hproc]
  exact hcounted.agree (agree_passOn env _ ctx)

end

end

/-! ## The clean-up -/

section
variable (env : SwiftEnv)

/-- The lock of `h` has run out. -/
def Expired (s : SwiftTX) (h : uint256) : Prop :=
  ∃ l, s.mapTxLocks.lookup h = some l ∧ expired env l = true

/-- The clean-up unlocks the outpoint: a request with an expired lock spends it. -/
def Released (s : SwiftTX) (o : COutPoint) : Prop :=
  ∃ h tx, s.Expired env h ∧ s.mapTxLockReq h = some tx ∧ o ∈ tx.outpoints

/-- What the clean-up leaves of a state. -/
structure Cleaned (s s' : SwiftTX) : Prop where
  req : ∀ h t, s'.mapTxLockReq h = some t ↔ s.mapTxLockReq h = some t ∧ ¬ s.Expired env h
  rejected : ∀ h t, s'.mapTxLockReqRejected h = some t ↔
    s.mapTxLockReqRejected h = some t ∧ ¬ (s.Expired env h ∧ (s.mapTxLockReq h).isSome)
  locked : ∀ o h, s'.mapLockedInputs o = some h ↔ s.mapLockedInputs o = some h ∧ ¬ s.Released env o
  lookup : ∀ h l, s'.mapTxLocks.lookup h = some l ↔
    s.mapTxLocks.lookup h = some l ∧ expired env l = false
  vote : ∀ x, (s.mapTxLockVote x).isSome → (s'.mapTxLockVote x).isSome ∨
    ∃ h l v, s.mapTxLocks.lookup h = some l ∧ expired env l = true ∧
      (s.mapTxLockReq h).isSome ∧ v ∈ l.vecConsensusVotes ∧ v.GetHash = x

section
variable {s : SwiftTX} {key : uint256} {lock : CTransactionLock}

theorem removeLock_unrequested (hkeyed : lock.txHash = key) (hreq : s.mapTxLockReq key = none) :
    s.removeLock key lock = { s with mapTxLocks := s.mapTxLocks.erase key } := by
  rw [removeLock, hkeyed, hreq]

theorem removeLock_requested (hkeyed : lock.txHash = key) {tx : CTransaction}
    (hreq : s.mapTxLockReq key = some tx) :
    s.removeLock key lock =
      { s with
        mapLockedInputs :=
          tx.outpoints.foldl (fun m o => Function.update m o none) s.mapLockedInputs
        mapTxLockReq := Function.update s.mapTxLockReq key none
        mapTxLockReqRejected := Function.update s.mapTxLockReqRejected key none
        mapTxLockVote :=
          (lock.vecConsensusVotes.map CConsensusVote.GetHash).foldl
            (fun m h => Function.update m h none) s.mapTxLockVote
        mapTxLocks := s.mapTxLocks.erase key } := by
  rw [removeLock, hkeyed, hreq]
  rfl

theorem removeLock_lookup (h : uint256) :
    (s.removeLock key lock).mapTxLocks.lookup h =
      if h = key then none else s.mapTxLocks.lookup h := by
  have hlocks : (s.removeLock key lock).mapTxLocks = s.mapTxLocks.erase key := by
    rw [removeLock]
    cases s.mapTxLockReq lock.txHash <;> rfl
  rw [hlocks]
  by_cases hh : h = key
  · rw [if_pos hh, hh, lookup_erase]
  · rw [if_neg hh, lookup_erase_ne hh]

section
variable (hkeyed : lock.txHash = key)
include hkeyed

theorem removeLock_req (h : uint256) :
    (s.removeLock key lock).mapTxLockReq h = if h = key then none else s.mapTxLockReq h := by
  cases hreq : s.mapTxLockReq key with
  | none =>
    rw [removeLock_unrequested hkeyed hreq]
    by_cases hh : h = key
    · rw [if_pos hh, hh, hreq]
    · rw [if_neg hh]
  | some tx =>
    rw [removeLock_requested hkeyed hreq]
    exact update_apply ..

theorem removeLock_rejected (h : uint256) :
    (s.removeLock key lock).mapTxLockReqRejected h =
      if h = key ∧ (s.mapTxLockReq h).isSome then none else s.mapTxLockReqRejected h := by
  cases hreq : s.mapTxLockReq key with
  | none =>
    rw [removeLock_unrequested hkeyed hreq, if_neg]
    rintro ⟨rfl, hsome⟩
    rw [hreq] at hsome
    exact Bool.false_ne_true hsome
  | some tx =>
    rw [removeLock_requested hkeyed hreq]
    show Function.update s.mapTxLockReqRejected key none h = _
    by_cases hh : h = key
    · simp [hh, hreq]
    · simp [hh]

theorem removeLock_locked (o : COutPoint) (h : uint256) :
    (s.removeLock key lock).mapLockedInputs o = some h ↔ s.mapLockedInputs o = some h ∧
      ¬ ∃ tx, s.mapTxLockReq key = some tx ∧ o ∈ tx.outpoints := by
  cases hreq : s.mapTxLockReq key with
  | none =>
    rw [removeLock_unrequested hkeyed hreq]
    simp
  | some tx =>
    rw [removeLock_requested hkeyed hreq]
    show tx.outpoints.foldl (fun m o => Function.update m o none) s.mapLockedInputs o = some h ↔ _
    rw [foldl_update_none_apply]
    by_cases ho : o ∈ tx.outpoints
    · simp [ho]
    · simp [ho]

theorem removeLock_vote {x : uint256}
    (hx : (s.mapTxLockVote x).isSome) : ((s.removeLock key lock).mapTxLockVote x).isSome ∨
      (s.mapTxLockReq key).isSome ∧ x ∈ lock.vecConsensusVotes.map CConsensusVote.GetHash := by
  cases hreq : s.mapTxLockReq key with
  | none =>
    rw [removeLock_unrequested hkeyed hreq]
    exact .inl hx
  | some tx =>
    rw [removeLock_requested hkeyed hreq]
    show ((lock.vecConsensusVotes.map CConsensusVote.GetHash).foldl
      (fun m h => Function.update m h none) s.mapTxLockVote x).isSome ∨ _
    rw [foldl_update_none_apply]
    by_cases hmem : x ∈ lock.vecConsensusVotes.map CConsensusVote.GetHash
    · exact .inr ⟨rfl, hmem⟩
    · rw [if_neg hmem]
      exact .inl hx

end

end

theorem foldl_removeLock (ls : List (Sigma fun _ : uint256 => CTransactionLock))
    (hnodup : (ls.map Sigma.fst).Nodup) (hkeyed : ∀ it ∈ ls, it.2.txHash = it.1) (s : SwiftTX) :
    let s' := ls.foldl (fun s it => s.removeLock it.1 it.2) s
    (∀ h, s'.mapTxLockReq h = if h ∈ ls.map Sigma.fst then none else s.mapTxLockReq h) ∧
      (∀ h, s'.mapTxLockReqRejected h =
        if h ∈ ls.map Sigma.fst ∧ (s.mapTxLockReq h).isSome then none
        else s.mapTxLockReqRejected h) ∧
      (∀ o h, s'.mapLockedInputs o = some h ↔ s.mapLockedInputs o = some h ∧
        ¬ ∃ it ∈ ls, ∃ tx, s.mapTxLockReq it.1 = some tx ∧ o ∈ tx.outpoints) ∧
      (∀ h, s'.mapTxLocks.lookup h = if h ∈ ls.map Sigma.fst then none else s.mapTxLocks.lookup h) ∧
      (∀ x, (s.mapTxLockVote x).isSome → (s'.mapTxLockVote x).isSome ∨
        ∃ it ∈ ls, (s.mapTxLockReq it.1).isSome ∧ x ∈ it.2.vecConsensusVotes.map
          CConsensusVote.GetHash) := by
  induction ls generalizing s with
  | nil => simp
  | cons it ls ih =>
    rw [map_cons, nodup_cons] at hnodup
    obtain ⟨hfresh, hnodup⟩ := hnodup
    have hit : it.2.txHash = it.1 := hkeyed it mem_cons_self
    obtain ⟨hreq, hrej, hlocked, hlookup, hvote⟩ := ih hnodup
      (fun it' h => hkeyed it' (mem_cons_of_mem it h)) (s.removeLock it.1 it.2)
    have hother (it' : Sigma fun _ : uint256 => CTransactionLock) (h : it' ∈ ls) :
        (s.removeLock it.1 it.2).mapTxLockReq it'.1 = s.mapTxLockReq it'.1 := by
      rw [removeLock_req hit, if_neg]
      intro heq
      exact hfresh (heq ▸ mem_map_of_mem h)
    intro s'
    refine ⟨?_, ?_, ?_, ?_, ?_⟩
    · intro h
      rw [show s'.mapTxLockReq h = _ from hreq h, removeLock_req hit]
      by_cases hh : h = it.1
      · simp [hh]
      · simp only [hh, if_false, map_cons, mem_cons, false_or]
    · intro h
      rw [show s'.mapTxLockReqRejected h = _ from hrej h, removeLock_req hit,
        removeLock_rejected hit]
      by_cases hh : h = it.1
      · simp [hh, hfresh]
      · simp only [hh, if_false, false_and, map_cons, mem_cons, false_or]
    · intro o h
      rw [show s'.mapLockedInputs o = some h ↔ _ from hlocked o h, removeLock_locked hit]
      constructor
      · rintro ⟨⟨hsome, hnot⟩, hrest⟩
        refine ⟨hsome, ?_⟩
        rintro ⟨it', hmem, tx, htx, ho⟩
        rcases mem_cons.mp hmem with rfl | hmem
        · exact hnot ⟨tx, htx, ho⟩
        · exact hrest ⟨it', hmem, tx, (hother it' hmem).trans htx, ho⟩
      · rintro ⟨hsome, hnot⟩
        refine ⟨⟨hsome, ?_⟩, ?_⟩
        · rintro ⟨tx, htx, ho⟩
          exact hnot ⟨it, .head _, tx, htx, ho⟩
        · rintro ⟨it', hmem, tx, htx, ho⟩
          exact hnot ⟨it', mem_cons_of_mem it hmem, tx, (hother it' hmem).symm.trans htx, ho⟩
    · intro h
      rw [show s'.mapTxLocks.lookup h = _ from hlookup h, removeLock_lookup]
      by_cases hh : h = it.1
      · simp [hh]
      · simp only [hh, if_false, map_cons, mem_cons, false_or]
    · intro x hx
      rcases removeLock_vote hit hx with hkept | ⟨hsome, hmem⟩
      · rcases hvote x hkept with hkept | ⟨it', hmem, hsome, hx'⟩
        · exact .inl hkept
        · exact .inr ⟨it', mem_cons_of_mem it hmem, hother it' hmem ▸ hsome, hx'⟩
      · exact .inr ⟨it, .head _, hsome, hmem⟩

theorem cleaned {s : SwiftTX} (htip : env.chainHeight ≠ -1)
    (hkeyed : ∀ h l, s.mapTxLocks.lookup h = some l → l.txHash = h) :
    Cleaned env s (s.CleanTransactionLocksList env) := by
  have hmem (it : Sigma fun _ : uint256 => CTransactionLock) :
      it ∈ s.mapTxLocks.entries.filter (fun it => expired env it.2) ↔
        s.mapTxLocks.lookup it.1 = some it.2 ∧ expired env it.2 = true := by
    obtain ⟨k, l⟩ := it
    rw [mem_filter]
    exact and_congr_left fun _ => mem_lookup_iff.symm
  have hkeys (h : uint256) :
      h ∈ (s.mapTxLocks.entries.filter fun it => expired env it.2).map Sigma.fst ↔
        s.Expired env h := by
    rw [mem_map]
    constructor
    · rintro ⟨it, hit, rfl⟩
      exact ⟨it.2, (hmem it).mp hit⟩
    · rintro ⟨l, hl⟩
      exact ⟨⟨h, l⟩, (hmem ⟨h, l⟩).mpr hl, rfl⟩
  have hnodup : ((s.mapTxLocks.entries.filter fun it => expired env it.2).map Sigma.fst).Nodup :=
    (s.mapTxLocks.nodupKeys.sublist filter_sublist)
  obtain ⟨hreq, hrej, hlocked, hlookup, hvote⟩ := foldl_removeLock _ hnodup
    (fun it hit => hkeyed it.1 it.2 ((hmem it).mp hit).1) s
  rw [CleanTransactionLocksList, if_neg htip]
  refine ⟨?_, ?_, ?_, ?_, ?_⟩
  · intro h t
    rw [hreq]
    by_cases hexp : s.Expired env h
    · rw [if_pos ((hkeys h).mpr hexp)]
      simp [hexp]
    · rw [if_neg fun hin => hexp ((hkeys h).mp hin)]
      simp [hexp]
  · intro h t
    rw [hrej]
    by_cases hexp : s.Expired env h ∧ (s.mapTxLockReq h).isSome
    · rw [if_pos ⟨(hkeys h).mpr hexp.1, hexp.2⟩]
      simp [hexp]
    · rw [if_neg fun hin => hexp ⟨(hkeys h).mp hin.1, hin.2⟩]
      simp only [hexp, not_false_eq_true, and_true]
  · intro o h
    rw [hlocked]
    refine and_congr_right fun _ => not_congr ?_
    constructor
    · rintro ⟨it, hit, tx, htx, ho⟩
      exact ⟨it.1, tx, ⟨it.2, (hmem it).mp hit⟩, htx, ho⟩
    · rintro ⟨h', tx, ⟨l, hl⟩, htx, ho⟩
      exact ⟨⟨h', l⟩, (hmem ⟨h', l⟩).mpr hl, tx, htx, ho⟩
  · intro h l
    rw [hlookup]
    by_cases hexp : s.Expired env h
    · rw [if_pos ((hkeys h).mpr hexp)]
      obtain ⟨l', hl', hexp'⟩ := hexp
      constructor
      · intro hnone
        exact absurd hnone (by simp)
      · rintro ⟨hl, hnot⟩
        rw [hl', Option.some.injEq] at hl
        rw [← hl, hexp'] at hnot
        exact absurd hnot (by simp)
    · rw [if_neg fun hin => hexp ((hkeys h).mp hin)]
      refine ⟨fun hl => ⟨hl, ?_⟩, fun hl => hl.1⟩
      cases hl' : expired env l with
      | false => rfl
      | true => exact absurd ⟨l, hl, hl'⟩ hexp
  · intro x hx
    rcases hvote x hx with hkept | ⟨it, hit, hsome, hmem'⟩
    · exact .inl hkept
    · obtain ⟨v, hv, hvx⟩ := mem_map.mp hmem'
      obtain ⟨hl, hexp⟩ := (hmem it).mp hit
      exact .inr ⟨it.1, it.2, v, hl, hexp, hsome, hv, hvx⟩

end

def Ignored (s : SwiftTX) : SwiftEvent → Prop
  | .ix env tx => ¬ (env.active = true ∧ s.takesUp env tx = true)
  | .txlvote env ctx => ¬ (env.active = true ∧ s.mapTxLockVote ctx.GetHash = none)
  | .clean env => env.chainHeight = -1

/-- What each event can do, one constructor for each way through the handlers. -/
inductive Effect (C : Crypto) (s : SwiftTX) : SwiftEvent → SwiftTX → Prop
  | ignored {e : SwiftEvent} (h : s.Ignored e) : Effect C s e s
  | takenUp {env : SwiftEnv} {tx : CTransaction} {s' : SwiftTX} (hactive : env.active = true)
      (htakes : s.takesUp env tx = true) (h : TakenUp env s tx s') : Effect C s (.ix env tx) s'
  | uncounted {env : SwiftEnv} {ctx : CConsensusVote} (hactive : env.active = true)
      (hnew : s.mapTxLockVote ctx.GetHash = none) (hcount : countable C env ctx = false) :
      Effect C s (.txlvote env ctx) (s.noted ctx)
  | counted {env : SwiftEnv} {ctx : CConsensusVote} {s' : SwiftTX} (hactive : env.active = true)
      (hnew : s.mapTxLockVote ctx.GetHash = none) (hcount : countable C env ctx = true)
      (h : Counted (s.noted ctx) ctx s') : Effect C s (.txlvote env ctx) s'
  | cleaned {env : SwiftEnv} {s' : SwiftTX} (htip : env.chainHeight ≠ -1)
      (h : Cleaned env s s') : Effect C s (.clean env) s'

theorem effect (C : Crypto) {s : SwiftTX}
    (hkeyed : ∀ h l, s.mapTxLocks.lookup h = some l → l.txHash = h) (e : SwiftEvent) :
    Effect C s e (swiftStep C s e) := by
  cases e with
  | ix env tx =>
    rw [swiftStep]
    by_cases hactive : env.active = true
    · rw [if_pos hactive]
      cases htakes : s.takesUp env tx with
      | true => exact .takenUp hactive htakes (takenUp C htakes)
      | false =>
        rw [ProcessTxLockRequest_ignored C htakes]
        refine .ignored ?_
        rintro ⟨-, h⟩
        exact Bool.false_ne_true (htakes.symm.trans h)
    · rw [if_neg hactive]
      exact .ignored fun h => hactive h.1
  | txlvote env ctx =>
    rw [swiftStep]
    by_cases hactive : env.active = true
    · rw [if_pos hactive]
      cases hseen : s.mapTxLockVote ctx.GetHash with
      | some v =>
        rw [ProcessTxLockVote_seen C env s ctx (by rw [hseen]; rfl)]
        refine .ignored ?_
        rintro ⟨-, h⟩
        rw [hseen] at h
        exact absurd h (by simp)
      | none =>
        cases hcount : countable C env ctx with
        | true =>
          exact .counted hactive hseen hcount (ProcessTxLockVote_counted C env s ctx hseen hcount)
        | false =>
          rw [ProcessTxLockVote_uncounted C env s ctx hseen hcount]
          exact .uncounted hactive hseen hcount
    · rw [if_neg hactive]
      exact .ignored fun h => hactive h.1
  | clean env =>
    rw [swiftStep]
    by_cases htip : env.chainHeight = -1
    · rw [CleanTransactionLocksList, if_pos htip]
      exact .ignored htip
    · exact .cleaned htip (cleaned env htip hkeyed)

/-! ## What holds whatever the events are -/

/-- Locks and requests are filed under their transaction.  The empty transaction that
stands for a missing request has no inputs. -/
structure Filed (s : SwiftTX) : Prop where
  lock : ∀ h l, s.mapTxLocks.lookup h = some l → l.txHash = h
  known : ∀ h t, s.Known h t → t.hash = h ∨ t.outpoints = []
  one : ∀ h t t', s.mapTxLockReq h = some t → s.mapTxLockReqRejected h = some t' →
    t = t' ∨ t.outpoints = []

theorem filed_empty : Filed empty where
  lock _ _ h := by simp [empty] at h
  known _ _ h := by simp [Known, empty] at h
  one _ _ _ h := by simp [empty] at h

theorem filed_step (C : Crypto) {s : SwiftTX} (hs : Filed s) (e : SwiftEvent) :
    Filed (swiftStep C s e) := by
  have heffect := effect C hs.lock e
  generalize swiftStep C s e = s' at heffect
  cases heffect with
  | ignored _ => exact hs
  | @takenUp env tx _ _ htakes h =>
    refine ⟨?_, ?_, ?_⟩
    · intro k l hl
      have hmap := h.txHash k
      rw [hl] at hmap
      obtain ⟨l', hl', heq⟩ := Option.map_eq_some_iff.mp hmap.symm
      rw [← heq]
      exact txHash_CreateNewLock env s tx hs.lock hl'
    · intro k t ht
      by_cases hk : k = tx.hash
      · subst hk
        exact .inl (by rw [(h.own t).mp ht])
      · exact hs.known k t ((h.known hk t).mp ht)
    · intro k t t' ht ht'
      by_cases hk : k = tx.hash
      · subst hk
        exact .inl (((h.own t).mp (.inl ht)).trans ((h.own t').mp (.inr ht')).symm)
      · rw [(h.other k hk).1] at ht
        rw [(h.other k hk).2] at ht'
        exact hs.one k t t' ht ht'
  | uncounted _ _ _ => exact ⟨hs.lock, hs.known, hs.one⟩
  | @counted env ctx _ _ _ _ h =>
    refine ⟨h.txHash hs.lock, ?_, ?_⟩
    · rintro k t (ht | ht)
      · rcases (h.req k t).mp ht with ht | ⟨-, -, -, rfl⟩
        · exact hs.known k t (.inl ht)
        · exact .inr rfl
      · rw [h.rejected] at ht
        exact hs.known k t (.inr ht)
    · intro k t t' ht ht'
      rw [h.rejected] at ht'
      rcases (h.req k t).mp ht with ht | ⟨-, -, -, rfl⟩
      · exact hs.one k t t' ht ht'
      · exact .inr rfl
  | @cleaned env _ _ h =>
    refine ⟨?_, ?_, ?_⟩
    · intro k l hl
      exact hs.lock k l ((h.lookup k l).mp hl).1
    · rintro k t (ht | ht)
      · exact hs.known k t (.inl ((h.req k t).mp ht).1)
      · exact hs.known k t (.inr ((h.rejected k t).mp ht).1)
    · intro k t t' ht ht'
      exact hs.one k t t' ((h.req k t).mp ht).1 ((h.rejected k t').mp ht').1

/-- No two votes held for different transactions have the same hash. -/
def HashesApart (s : SwiftTX) : Prop :=
  ∀ h l v h' l' v', s.mapTxLocks.lookup h = some l → v ∈ l.vecConsensusVotes →
    s.mapTxLocks.lookup h' = some l' → v' ∈ l'.vecConsensusVotes → v.GetHash = v'.GetHash → h = h'

/-- What a clean-up may meet. -/
def CleansApart (s : SwiftTX) : SwiftEvent → Prop
  | .clean _ => s.HashesApart
  | _ => True

/-- No prosperitynode votes twice on a transaction: the votes of a lock are seen votes,
and the hash of a vote tells its voter from the others on the same transaction. -/
def VotesOnce (s : SwiftTX) : Prop :=
  ∀ h n votes, s.tally h = some (n, votes) →
    (votes.map (·.vinProsperitynode.prevout)).Nodup ∧
      ∀ v ∈ votes, v.txHash = h ∧ (s.mapTxLockVote v.GetHash).isSome

theorem votesOnce_empty : VotesOnce empty := by
  intro h n votes htally
  simp [empty, tally] at htally

theorem tally_eq_some {s : SwiftTX} :
    s.tally h = some (n, votes) ↔
      ∃ l, s.mapTxLocks.lookup h = some l ∧ l.nBlockHeight = n ∧ l.vecConsensusVotes = votes := by
  rw [tally, Option.map_eq_some_iff]
  simp only [Prod.mk.injEq]

theorem requestTally_votes {env : SwiftEnv} {s : SwiftTX} {tx : CTransaction}
    (h : s.requestTally env tx = some (n, votes)) :
    votes = [] ∨ ∃ m, s.tally tx.hash = some (m, votes) := by
  rw [requestTally] at h
  cases hheight : lockHeight env tx with
  | none =>
    rw [hheight] at h
    exact .inr ⟨n, h⟩
  | some m =>
    rw [hheight] at h
    cases h
    rw [heldVotes]
    cases htally : s.tally tx.hash with
    | none => exact .inl rfl
    | some t => exact .inr ⟨t.1, rfl⟩

theorem VotesOnce.counted {s : SwiftTX} (hs : VotesOnce s) (k : uint256) :
    (((s.tally k).getD (0, [])).2.map (·.vinProsperitynode.prevout)).Nodup ∧
      ∀ v ∈ ((s.tally k).getD (0, [])).2, v.txHash = k ∧ (s.mapTxLockVote v.GetHash).isSome := by
  cases htally : s.tally k with
  | none => exact ⟨nodup_nil, fun v hv => absurd hv (by simp)⟩
  | some t => exact hs k t.1 t.2 htally

theorem votesOnce_append {s : SwiftTX} {ctx : CConsensusVote}
    (hnodup : (votes.map (·.vinProsperitynode.prevout)).Nodup)
    (hvotes : ∀ v ∈ votes, v.txHash = ctx.txHash ∧ (s.mapTxLockVote v.GetHash).isSome)
    (hnew : s.mapTxLockVote ctx.GetHash = none) :
    ((votes ++ [ctx]).map (·.vinProsperitynode.prevout)).Nodup := by
  rw [map_append, nodup_append]
  refine ⟨hnodup, nodup_singleton _, ?_⟩
  intro o ho o' ho' heq
  obtain ⟨v, hv, rfl⟩ := mem_map.mp ho
  rw [map_singleton, mem_singleton] at ho'
  -- the same voter on the same transaction: the vote was seen before
  have hhash : v.GetHash = ctx.GetHash := by
    rw [CConsensusVote.GetHash, CConsensusVote.GetHash, (hvotes v hv).1, heq, ho']
  have hsome := (hvotes v hv).2
  rw [hhash, hnew] at hsome
  exact Bool.false_ne_true hsome

theorem votesOnce_step (C : Crypto) {s : SwiftTX} (hfiled : Filed s) (hs : VotesOnce s)
    {e : SwiftEvent} (hapart : s.CleansApart e) : VotesOnce (swiftStep C s e) := by
  have heffect := effect C hfiled.lock e
  generalize swiftStep C s e = s' at heffect
  cases heffect with
  | ignored _ => exact hs
  | @takenUp env tx _ _ htakes h =>
    intro k n votes htally
    have hseen (m : Int) (hold : s.tally k = some (m, votes)) :
        (votes.map (·.vinProsperitynode.prevout)).Nodup ∧
          ∀ v ∈ votes, v.txHash = k ∧ (s'.mapTxLockVote v.GetHash).isSome := by
      obtain ⟨hnodup, hvotes⟩ := hs k m votes hold
      exact ⟨hnodup, fun v hv => ⟨(hvotes v hv).1, h.vote _ (hvotes v hv).2⟩⟩
    rw [h.tally] at htally
    by_cases hk : k = tx.hash
    · rw [if_pos hk] at htally
      rcases requestTally_votes htally with rfl | ⟨m, hm⟩
      · exact ⟨nodup_nil, fun v hv => absurd hv (by simp)⟩
      · exact hseen m (hk ▸ hm)
    · rw [if_neg hk] at htally
      exact hseen n htally
  | @uncounted env ctx _ hnew _ =>
    intro k n votes htally
    obtain ⟨hnodup, hvotes⟩ := hs k n votes htally
    refine ⟨hnodup, fun v hv => ⟨(hvotes v hv).1, ?_⟩⟩
    show (mapInsert s.mapTxLockVote ctx.GetHash ctx v.GetHash).isSome
    rw [mapInsert_apply]
    split
    · rfl
    · exact (hvotes v hv).2
  | @counted env ctx _ _ hnew _ h =>
    have hseen (x : uint256) (hx : (s.mapTxLockVote x).isSome) : (s'.mapTxLockVote x).isSome := by
      rw [h.vote]
      show (mapInsert s.mapTxLockVote ctx.GetHash ctx x).isSome
      rw [mapInsert_apply]
      split
      · rfl
      · exact hx
    intro k n votes htally
    rw [h.tally] at htally
    by_cases hk : k = ctx.txHash
    · subst hk
      rw [if_pos rfl] at htally
      obtain ⟨-, hvotes⟩ := Prod.mk.inj (Option.some.inj htally)
      have hctx : (s'.mapTxLockVote ctx.GetHash).isSome := by
        rw [h.vote]
        show (mapInsert s.mapTxLockVote ctx.GetHash ctx ctx.GetHash).isSome
        rw [mapInsert_apply, if_pos ⟨rfl, hnew⟩]
        rfl
      obtain ⟨hnodup, hcounted⟩ := hs.counted ctx.txHash
      rw [← hvotes]
      refine ⟨votesOnce_append hnodup hcounted hnew, ?_⟩
      intro v hv
      rcases mem_append.mp hv with hv | hv
      · exact ⟨(hcounted v hv).1, hseen _ (hcounted v hv).2⟩
      · rw [mem_singleton] at hv
        subst hv
        exact ⟨rfl, hctx⟩
    · rw [if_neg hk] at htally
      obtain ⟨hnodup, hvotes⟩ := hs k n votes htally
      exact ⟨hnodup, fun v hv => ⟨(hvotes v hv).1, hseen _ (hvotes v hv).2⟩⟩
  | @cleaned env _ _ h =>
    intro k n votes htally
    obtain ⟨l, hl, rfl, rfl⟩ := tally_eq_some.mp htally
    obtain ⟨hold, hfresh⟩ := (h.lookup k l).mp hl
    obtain ⟨hnodup, hvotes⟩ := hs k _ _ (tally_eq_some.mpr ⟨l, hold, rfl, rfl⟩)
    refine ⟨hnodup, fun v hv => ⟨(hvotes v hv).1, ?_⟩⟩
    rcases h.vote _ (hvotes v hv).2 with hkept | ⟨k', l', v', hl', hexp, -, hv', hhash⟩
    · exact hkept
    · have hkk := hapart k' l' v' k l v hl' hv' hold hv hhash
      subst hkk
      rw [hold, Option.some.injEq] at hl'
      rw [hl', hexp] at hfresh
      exact absurd hfresh (by simp)

end SwiftTX
end Divitae
