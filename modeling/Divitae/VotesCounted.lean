/-
# `VotesCounted` — votes on a lock, good and bad

A `txlvote` is filed under its hash, voter + transaction, before its rank and its signature are
looked at.  Two things follow for the votes of a lock:

    no prosperitynode is counted twice        `countsOnce`
    a bad vote hides the good one behind it   `votes_counted_iff`

The first holds in every run: what a lock holds has been filed, and stays filed as long as it
is held.  For the second the run is put beside the run without the votes that fail; the two hold
the same votes as long as no good vote meets a hash that a failing one has filed.
-/
import Divitae.Lib.Beside
import Divitae.LockedInputs

namespace Divitae
namespace SwiftTX

open List

/-! ## Each voter once -/

/-- Every lock with a height counts the prosperitynodes that voted for it. -/
def CountsOnce (s : SwiftTX) : Prop :=
  ∀ h l, s.mapTxLocks.lookup h = some l → l.nBlockHeight ≠ 0 →
    l.CountSignatures = (signers l.nBlockHeight l.vecConsensusVotes).length

/-- The lock of `h` holds the vote. -/
def Holds (s : SwiftTX) (h : uint256) (v : CConsensusVote) : Prop :=
  ∃ n votes, s.tally h = some (n, votes) ∧ v ∈ votes

theorem hashesApart_of_holds {s : SwiftTX}
    (h : ∀ k v k' v', s.Holds k v → s.Holds k' v' → v.GetHash = v'.GetHash → k = k') :
    HashesApart s := by
  intro k l v k' l' v' hl hv hl' hv' hhash
  exact h k v k' v' ⟨_, _, tally_eq_some.mpr ⟨l, hl, rfl, rfl⟩, hv⟩
    ⟨_, _, tally_eq_some.mpr ⟨l', hl', rfl, rfl⟩, hv'⟩ hhash

theorem HashesApart.holds {s : SwiftTX} (h : HashesApart s) {k k' : uint256}
    {v v' : CConsensusVote} (hv : s.Holds k v) (hv' : s.Holds k' v')
    (hhash : v.GetHash = v'.GetHash) : k = k' := by
  obtain ⟨n, votes, htally, hmem⟩ := hv
  obtain ⟨n', votes', htally', hmem'⟩ := hv'
  obtain ⟨l, hl, -, rfl⟩ := tally_eq_some.mp htally
  obtain ⟨l', hl', -, rfl⟩ := tally_eq_some.mp htally'
  exact h k l v k' l' v' hl hmem hl' hmem' hhash

theorem holds_step (C : Crypto) {s : SwiftTX} (hfiled : Filed s) (e : SwiftEvent) {h : uint256}
    {v : CConsensusVote} (hv : (swiftStep C s e).Holds h v) :
    s.Holds h v ∨
      (s.mapTxLockVote v.GetHash = none ∧ ∃ env, e = .txlvote env v ∧ h = v.txHash) := by
  have heffect := effect C hfiled.lock e
  generalize swiftStep C s e = s' at heffect hv
  obtain ⟨n, votes, htally, hmem⟩ := hv
  cases heffect with
  | ignored _ => exact .inl ⟨n, votes, htally, hmem⟩
  | @takenUp env tx _ _ _ htaken =>
    left
    rw [htaken.tally] at htally
    by_cases hh : h = tx.hash
    · rw [if_pos hh] at htally
      rcases requestTally_votes htally with rfl | ⟨m, hm⟩
      · cases hmem
      · exact ⟨m, votes, hh ▸ hm, hmem⟩
    · rw [if_neg hh] at htally
      exact ⟨n, votes, htally, hmem⟩
  | uncounted _ _ _ => exact .inl ⟨n, votes, htally, hmem⟩
  | @counted env ctx _ _ hnew _ hcounted =>
    rw [hcounted.tally] at htally
    by_cases hh : h = ctx.txHash
    · rw [if_pos hh] at htally
      cases htally
      rcases mem_append.mp hmem with hold | hlast
      · left
        cases hbefore : (s.noted ctx).tally ctx.txHash with
        | none =>
          rw [hbefore] at hold
          cases hold
        | some t =>
          rw [hbefore] at hold
          exact ⟨t.1, t.2, hh ▸ hbefore, hold⟩
      · right
        obtain rfl := mem_singleton.mp hlast
        exact ⟨hnew, env, rfl, hh⟩
    · rw [if_neg hh] at htally
      exact .inl ⟨n, votes, htally, hmem⟩
  | cleaned _ hcleaned =>
    left
    obtain ⟨l, hl, rfl, rfl⟩ := tally_eq_some.mp htally
    exact ⟨_, _, tally_eq_some.mpr ⟨l, ((hcleaned.lookup h l).mp hl).1, rfl, rfl⟩, hmem⟩

/-- What holds of the votes after any events. -/
structure Sound (s : SwiftTX) : Prop where
  filed : Filed s
  once : VotesOnce s
  apart : HashesApart s

theorem Sound.seen {s : SwiftTX} (hs : Sound s) {h : uint256} {v : CConsensusVote}
    (hv : s.Holds h v) : v.txHash = h ∧ (s.mapTxLockVote v.GetHash).isSome := by
  obtain ⟨n, votes, htally, hmem⟩ := hv
  exact (hs.once h n votes htally).2 v hmem

theorem sound_empty : Sound empty where
  filed := filed_empty
  once := votesOnce_empty
  apart := by
    intro h l v h' l' v' hl
    cases hl

theorem sound_step (C : Crypto) (s : SwiftTX) (e : SwiftEvent) (hs : Sound s) :
    Sound (swiftStep C s e) where
  filed := filed_step C hs.filed e
  once := by
    refine votesOnce_step C hs.filed hs.once ?_
    cases e with
    | ix env tx => trivial
    | txlvote env ctx => trivial
    | clean env => exact hs.apart
  apart := by
    refine hashesApart_of_holds ?_
    intro h v h' v' hv hv' hhash
    rcases holds_step C hs.filed e hv with hold | ⟨hnew, env, he, hkey⟩
    · rcases holds_step C hs.filed e hv' with hold' | ⟨hnew', -⟩
      · exact hs.apart.holds hold hold' hhash
      · -- a vote that is held has been filed
        have hseen := (hs.seen hold).2
        rw [hhash, hnew'] at hseen
        cases hseen
    · rcases holds_step C hs.filed e hv' with hold' | ⟨-, env', he', hkey'⟩
      · have hseen := (hs.seen hold').2
        rw [← hhash, hnew] at hseen
        cases hseen
      · obtain ⟨-, rfl⟩ := SwiftEvent.txlvote.inj (he.symm.trans he')
        exact hkey.trans hkey'.symm

theorem Sound.countsOnce {s : SwiftTX} (hs : Sound s) : CountsOnce s := by
  intro h l hl hheight
  have hnodup := (hs.once h _ _ (tally_eq_some.mpr ⟨l, hl, rfl, rfl⟩)).1
  have hsub : ((l.vecConsensusVotes.filter (·.nBlockHeight == l.nBlockHeight)).map
      (·.vinProsperitynode.prevout)).Nodup := hnodup.sublist ((filter_sublist).map _)
  unfold CTransactionLock.CountSignatures signers
  rw [if_neg hheight, hsub.dedup, length_map]

/-- **No prosperitynode is counted twice,** whatever the events are. -/
theorem countsOnce (C : Crypto) (events : List SwiftEvent) :
    Run.Throughout (swiftStep C) CountsOnce empty events := by
  intro past _
  have hany : Run.Guarded (swiftStep C) (fun _ _ => True) empty past :=
    Run.guarded_of_forall (p := fun _ => True) fun _ _ => trivial
  have hsound : Sound (past.foldl (swiftStep C) empty) :=
    Run.run_inv (fun s e hs _ => sound_step C s e hs) sound_empty hany
  exact hsound.countsOnce

/-! ## What the filed votes are read for -/

/-- The node with other votes filed. -/
def withVotes (s : SwiftTX) (m : uint256 → Option CConsensusVote) : SwiftTX :=
  { s with mapTxLockVote := m }

@[simp] theorem withVotes_self (s : SwiftTX) : s.withVotes s.mapTxLockVote = s := rfl

section
variable (s : SwiftTX) (m : uint256 → Option CConsensusVote)
include s m

@[simp] theorem withVotes_vote :
    (s.withVotes m).mapTxLockVote = m := rfl

@[simp] theorem withVotes_tally :
    (s.withVotes m).tally = s.tally := rfl

end

section
variable (C : Crypto) (env : SwiftEnv) (s : SwiftTX) (m : uint256 → Option CConsensusVote)

/-- The vote this node casts on a request. -/
def castVote (tx : CTransaction) (nBlockHeight : Int) : Option CConsensusVote :=
  if !env.fFundamentalNode then none
  else if env.rank env.activeTxIn nBlockHeight MIN_SWIFTTX_PROTO_VERSION = -1 then none
  else if env.rank env.activeTxIn nBlockHeight MIN_SWIFTTX_PROTO_VERSION >
      SWIFTTX_SIGNATURES_TOTAL then none
  else
    match CConsensusVote.Sign C env ⟨env.activeTxIn, tx.hash, nBlockHeight, []⟩ with
    | none => none
    | some ctx => if !ctx.SignatureValid C env then none else some ctx

/-- It is filed, over what was there. -/
def fileOwn (m : uint256 → Option CConsensusVote) :
    Option CConsensusVote → uint256 → Option CConsensusVote
  | none => m
  | some ctx => Function.update m ctx.GetHash (some ctx)

def ownVote : SwiftEvent → Option CConsensusVote
  | .ix env tx =>
    if env.active && s.takesUp env tx && (s.CreateNewLock env tx).1.AcceptToMemoryPool env tx then
      castVote C env tx (s.CreateNewLock env tx).2
    else none
  | .txlvote _ _ => none
  | .clean _ => none

theorem ownVote_ix (tx : CTransaction) : s.ownVote C (.ix env tx) =
    if env.active && s.takesUp env tx && (s.CreateNewLock env tx).1.AcceptToMemoryPool env tx then
      castVote C env tx (s.CreateNewLock env tx).2
    else none := rfl

theorem CreateNewLock_withVotes (tx : CTransaction) :
    (s.withVotes m).CreateNewLock env tx =
      ((s.CreateNewLock env tx).1.withVotes m, (s.CreateNewLock env tx).2) := by
  unfold CreateNewLock
  cases lockHeight env tx <;> rfl

theorem expireLock_withVotes (h : uint256) :
    (s.withVotes m).expireLock env h = (s.expireLock env h).withVotes m := by
  have hlocks : (s.withVotes m).mapTxLocks = s.mapTxLocks := rfl
  unfold expireLock
  rw [hlocks]
  cases s.mapTxLocks.lookup h <;> rfl

section
variable (tx : CTransaction)
include tx

theorem CheckForConflictingLocks_withVotes :
    (s.withVotes m).CheckForConflictingLocks env tx =
      ((s.CheckForConflictingLocks env tx).1.withVotes m,
        (s.CheckForConflictingLocks env tx).2) := by
  have hsame : (s.withVotes m).conflicting tx = s.conflicting tx := rfl
  unfold CheckForConflictingLocks
  rw [hsame]
  cases s.conflicting tx with
  | none => rfl
  | some txOther => simp only [expireLock_withVotes]

theorem rejectRequest_withVotes :
    (s.withVotes m).rejectRequest env tx = (s.rejectRequest env tx).withVotes m := by
  have hrejected : (s.withVotes m).rejected tx = (s.rejected tx).withVotes m := rfl
  have hlocks : ((s.rejected tx).withVotes m).mapTxLocks = (s.rejected tx).mapTxLocks := rfl
  have heq (u : SwiftTX) : u.rejectRequest env tx =
      if ((u.rejected tx).mapTxLocks.lookup tx.hash).any
          (·.CountSignatures ≥ SWIFTTX_SIGNATURES_REQUIRED) then
        if !((u.rejected tx).CheckForConflictingLocks env tx).2 then
          { ((u.rejected tx).CheckForConflictingLocks env tx).1 with
            mapTxLockReq := mapInsert
              ((u.rejected tx).CheckForConflictingLocks env tx).1.mapTxLockReq tx.hash tx }
        else ((u.rejected tx).CheckForConflictingLocks env tx).1
      else u.rejected tx := rfl
  rw [heq, heq, hrejected, CheckForConflictingLocks_withVotes, hlocks]
  split_ifs <;> rfl

theorem DoConsensusVote_eq (n : Int) :
    s.DoConsensusVote C env tx n =
      match castVote C env tx n with
      | none => s
      | some ctx =>
        (s.withVotes (fileOwn s.mapTxLockVote (some ctx))).RelayInv .MSG_TXLOCK_VOTE
          ctx.GetHash := by
  unfold DoConsensusVote castVote
  dsimp only
  split_ifs with hnode hunknown hlow
  · rfl
  · rfl
  · rfl
  · cases CConsensusVote.Sign C env ⟨env.activeTxIn, tx.hash, n, []⟩ with
    | none => rfl
    | some ctx =>
      cases hvalid : ctx.SignatureValid C env with
      | false => simp [hvalid]
      | true =>
        simp only [hvalid, Bool.not_true, Bool.false_eq_true, if_false]
        rfl

theorem DoConsensusVote_withVotes (n : Int) :
    (s.withVotes m).DoConsensusVote C env tx n =
      (s.DoConsensusVote C env tx n).withVotes (fileOwn m (castVote C env tx n)) := by
  rw [DoConsensusVote_eq, DoConsensusVote_eq]
  cases castVote C env tx n <;> rfl

theorem ix_withVotes :
    swiftStep C (s.withVotes m) (.ix env tx) =
      (swiftStep C s (.ix env tx)).withVotes (fileOwn m (s.ownVote C (.ix env tx))) := by
  have htakes : (s.withVotes m).takesUp env tx = s.takesUp env tx := rfl
  have hpool (u : SwiftTX) : (u.withVotes m).AcceptToMemoryPool env tx =
      u.AcceptToMemoryPool env tx := rfl
  have haccept (u : SwiftTX) (n : Int) : (u.withVotes m).acceptRequest C env tx n =
      (u.acceptRequest C env tx n).withVotes (fileOwn m (castVote C env tx n)) := by
    have hrelay : (u.withVotes m).RelayInv .MSG_TXLOCK_REQUEST tx.hash =
        (u.RelayInv .MSG_TXLOCK_REQUEST tx.hash).withVotes m := rfl
    unfold acceptRequest
    rw [hrelay, DoConsensusVote_withVotes]
    rfl
  have hstep (u : SwiftTX) : swiftStep C u (.ix env tx) =
      if env.active then u.ProcessTxLockRequest C env tx else u := rfl
  rw [hstep, hstep, ownVote_ix]
  cases hactive : env.active with
  | false => simp [fileOwn]
  | true =>
    unfold ProcessTxLockRequest
    rw [htakes, CreateNewLock_withVotes]
    cases htaken : s.takesUp env tx with
    | false => simp [fileOwn]
    | true =>
      dsimp only
      rw [hpool]
      cases haccepted : (s.CreateNewLock env tx).1.AcceptToMemoryPool env tx with
      | true => simp [haccept]
      | false => simp [rejectRequest_withVotes, fileOwn]

end

theorem ownVote_withVotes (e : SwiftEvent) : (s.withVotes m).ownVote C e = s.ownVote C e := by
  cases e with
  | ix env tx =>
    have htakes : (s.withVotes m).takesUp env tx = s.takesUp env tx := rfl
    have hpool (u : SwiftTX) : (u.withVotes m).AcceptToMemoryPool env tx =
        u.AcceptToMemoryPool env tx := rfl
    rw [ownVote_ix, ownVote_ix, htakes, CreateNewLock_withVotes]
    rw [hpool]
  | txlvote env ctx => rfl
  | clean env => rfl

theorem completeLock_withVotes (h : uint256) :
    (s.withVotes m).completeLock env h = (s.completeLock env h).withVotes m := by
  have hreq (u : SwiftTX) (m' : uint256 → Option CConsensusVote) :
      (u.withVotes m').withRequest h = (u.withRequest h).withVotes m' := rfl
  have heq (u : SwiftTX) : u.completeLock env h =
      if !((u.withRequest h).CheckForConflictingLocks env
          ((u.mapTxLockReq h).getD .default)).2 then
        ((u.withRequest h).CheckForConflictingLocks env
          ((u.mapTxLockReq h).getD .default)).1.lockInputs ((u.mapTxLockReq h).getD .default) h
      else ((u.withRequest h).CheckForConflictingLocks env
          ((u.mapTxLockReq h).getD .default)).1 := rfl
  have hmap : (s.withVotes m).mapTxLockReq = s.mapTxLockReq := rfl
  rw [heq, heq, hreq, hmap, CheckForConflictingLocks_withVotes]
  split_ifs <;> rfl

theorem ProcessConsensusVote_withVotes (ctx : CConsensusVote) :
    (s.withVotes m).ProcessConsensusVote C env ctx =
      ((s.ProcessConsensusVote C env ctx).1.withVotes m, (s.ProcessConsensusVote C env ctx).2) := by
  have hadd : (s.withVotes m).addVote env ctx = (s.addVote env ctx).withVotes m := rfl
  have hlocks : ((s.addVote env ctx).withVotes m).mapTxLocks = (s.addVote env ctx).mapTxLocks := rfl
  have heq (u : SwiftTX) : u.ProcessConsensusVote C env ctx =
      if !countable C env ctx then (u, false)
      else if ((u.addVote env ctx).mapTxLocks.lookup ctx.txHash).any
          (·.CountSignatures ≥ SWIFTTX_SIGNATURES_REQUIRED) then
        ((u.addVote env ctx).completeLock env ctx.txHash, true)
      else (u.addVote env ctx, true) := rfl
  rw [heq, heq, hadd, hlocks, completeLock_withVotes]
  split_ifs <;> rfl

theorem passOn_withVotes (ctx : CConsensusVote) :
    (s.withVotes m).passOn env ctx = (s.passOn env ctx).withVotes m := by
  have hlimit : (s.withVotes m).limitUnknownVote env ctx =
      ((s.limitUnknownVote env ctx).1.withVotes m, (s.limitUnknownVote env ctx).2) := by
    have hmap : (s.withVotes m).mapUnknownVotes = s.mapUnknownVotes := rfl
    unfold limitUnknownVote
    rw [hmap]
    dsimp only
    split_ifs <;> rfl
  have hmaps : (s.withVotes m).mapTxLockReq = s.mapTxLockReq ∧
      (s.withVotes m).mapTxLockReqRejected = s.mapTxLockReqRejected := ⟨rfl, rfl⟩
  unfold passOn
  rw [hlimit, hmaps.1, hmaps.2]
  dsimp only
  split_ifs <;> rfl

theorem ProcessTxLockVote_withVotes (ctx : CConsensusVote)
    (hnew : s.mapTxLockVote ctx.GetHash = none) (hnew' : m ctx.GetHash = none) :
    (s.withVotes m).ProcessTxLockVote C env ctx =
      (s.ProcessTxLockVote C env ctx).withVotes (mapInsert m ctx.GetHash ctx) := by
  have hnoted : (s.withVotes m).noted ctx =
      (s.noted ctx).withVotes (mapInsert m ctx.GetHash ctx) := rfl
  rw [ProcessTxLockVote_new C env _ ctx hnew', ProcessTxLockVote_new C env s ctx hnew, hnoted,
    ProcessConsensusVote_withVotes]
  split_ifs
  · rfl
  · exact passOn_withVotes env _ _ ctx

/-- The hashes of `l` are forgotten. -/
def forget (m : uint256 → Option CConsensusVote) (l : List uint256) :
    uint256 → Option CConsensusVote := l.foldl (fun m h => Function.update m h none) m

theorem removeLock_withVotes (key : uint256) (lock : CTransactionLock) :
    ∃ l, (∀ m, (s.withVotes m).removeLock key lock =
        (s.removeLock key lock).withVotes (forget m l)) ∧
      ∀ x ∈ l, x ∈ lock.vecConsensusVotes.map CConsensusVote.GetHash := by
  have hmap (m : uint256 → Option CConsensusVote) :
      (s.withVotes m).mapTxLockReq = s.mapTxLockReq := rfl
  unfold removeLock
  cases hreq : s.mapTxLockReq lock.txHash with
  | none =>
    refine ⟨[], ?_, fun x hx => absurd hx (by simp)⟩
    intro m
    rw [hmap, hreq]
    rfl
  | some tx =>
    refine ⟨lock.vecConsensusVotes.map CConsensusVote.GetHash, ?_, fun x hx => hx⟩
    intro m
    rw [hmap, hreq]
    rfl

theorem foldl_removeLock_withVotes (ls : List (Sigma fun _ : uint256 => CTransactionLock)) :
    ∀ s : SwiftTX, ∃ l, (∀ m, ls.foldl (fun s it => s.removeLock it.1 it.2) (s.withVotes m) =
        (ls.foldl (fun s it => s.removeLock it.1 it.2) s).withVotes (forget m l)) ∧
      ∀ x ∈ l, ∃ it ∈ ls, x ∈ it.2.vecConsensusVotes.map CConsensusVote.GetHash := by
  induction ls with
  | nil => exact fun s => ⟨[], fun m => rfl, fun x hx => absurd hx (by simp)⟩
  | cons it ls ih =>
    intro s
    obtain ⟨l, hl, hheld⟩ := removeLock_withVotes s it.1 it.2
    obtain ⟨l', hl', hheld'⟩ := ih (s.removeLock it.1 it.2)
    refine ⟨l ++ l', ?_, ?_⟩
    · intro m
      rw [foldl_cons, foldl_cons, hl, hl']
      unfold forget
      rw [foldl_append]
    · intro x hx
      rcases mem_append.mp hx with hx | hx
      · exact ⟨it, .head _, hheld x hx⟩
      · obtain ⟨it', hmem, hx'⟩ := hheld' x hx
        exact ⟨it', mem_cons_of_mem it hmem, hx'⟩

theorem clean_withVotes : ∃ l, (∀ m, swiftStep C (s.withVotes m) (.clean env) =
      (swiftStep C s (.clean env)).withVotes (forget m l)) ∧
    ∀ x ∈ l, ∃ h v, s.Holds h v ∧ v.GetHash = x := by
  have hstep (u : SwiftTX) : swiftStep C u (.clean env) =
      if env.chainHeight = -1 then u
      else (u.mapTxLocks.entries.filter fun it => expired env it.2).foldl
        (fun u it => u.removeLock it.1 it.2) u := rfl
  by_cases htip : env.chainHeight = -1
  · refine ⟨[], ?_, fun x hx => absurd hx (by simp)⟩
    intro m
    rw [hstep, hstep, if_pos htip, if_pos htip]
    rfl
  · obtain ⟨l, hl, hheld⟩ := foldl_removeLock_withVotes
      (s.mapTxLocks.entries.filter fun it => expired env it.2) s
    refine ⟨l, ?_, ?_⟩
    · intro m
      rw [hstep, hstep, if_neg htip, if_neg htip]
      exact hl m
    · intro x hx
      obtain ⟨it, hit, hx⟩ := hheld x hx
      obtain ⟨v, hv, rfl⟩ := mem_map.mp hx
      have hlock : s.mapTxLocks.lookup it.1 = some it.2 :=
        AList.mem_lookup_iff.mpr (mem_of_mem_filter hit)
      exact ⟨it.1, v, ⟨_, _, tally_eq_some.mpr ⟨it.2, hlock, rfl, rfl⟩, hv⟩, rfl⟩

end

/-! ## With the failing votes and without them -/

section
variable (C : Crypto)

/-- The vote does not pass: its rank is too low, or its signature is not the node's. -/
def fails : SwiftEvent → Bool
  | .ix _ _ => false
  | .txlvote env ctx => !countable C env ctx
  | .clean _ => false

/-- The hashes that are filed because of failing votes only: until this node files its own. -/
def filedByFailing (s : SwiftTX) (e : SwiftEvent) (taken : uint256 → Prop) (x : uint256) : Prop :=
  match e with
  | .ix env tx => taken x ∧ ∀ ctx, s.ownVote C (.ix env tx) = some ctx → ctx.GetHash ≠ x
  | .txlvote env ctx =>
    taken x ∨ (env.active = true ∧ countable C env ctx = false ∧
      s.mapTxLockVote ctx.GetHash = none ∧ ctx.GetHash = x)
  | .clean _ => taken x

/-- One event, with the failing votes and without them. -/
abbrev twoNodes : Beside.Pair SwiftTX uint256 → SwiftEvent → Beside.Pair SwiftTX uint256 :=
  Beside.step (swiftStep C) (fails C) (filedByFailing C)

/-- The event is no good vote whose hash only failing votes have filed. -/
def Unhidden (p : Beside.Pair SwiftTX uint256) (e : SwiftEvent) : Prop :=
  match e with
  | .ix _ _ => True
  | .txlvote env ctx => env.active = true → countable C env ctx = true → ¬ p.taken ctx.GetHash
  | .clean _ => True

/-- The locks have the same heights and hold the same votes. -/
def SameTally (s u : SwiftTX) : Prop := s.tally = u.tally

/-- The nodes differ in the votes that are filed, and there by what failing votes have filed. -/
structure Alike (p : Beside.Pair SwiftTX uint256) : Prop where
  node : p.node = p.other.withVotes p.node.mapTxLockVote
  filed : ∀ x, (p.node.mapTxLockVote x).isSome = true ↔
    (p.other.mapTxLockVote x).isSome = true ∨ p.taken x
  taken : ∀ x, p.taken x → p.other.mapTxLockVote x = none
  sound : Sound p.other

end

section
variable {C : Crypto} {p : Beside.Pair SwiftTX uint256}

theorem Alike.sameTally (h : Alike p) : SameTally p.node p.other := by
  unfold SameTally
  rw [h.node, withVotes_tally]

theorem fileOwn_isSome (m : uint256 → Option CConsensusVote) (own : Option CConsensusVote)
    (x : uint256) : (fileOwn m own x).isSome = true ↔
      (m x).isSome = true ∨ ∃ ctx, own = some ctx ∧ ctx.GetHash = x := by
  cases own with
  | none => simp [fileOwn]
  | some ctx =>
    by_cases hx : x = ctx.GetHash
    · simp [fileOwn, hx]
    · simp [fileOwn, Function.update_of_ne hx, Ne.symm hx]

theorem forget_apply (m : uint256 → Option CConsensusVote) (l : List uint256) (x : uint256) :
    forget m l x = if x ∈ l then none else m x := foldl_update_none_apply l m x

theorem alike_ix (h : Alike p) (env : SwiftEnv) (tx : CTransaction) :
    Alike (twoNodes C p (.ix env tx)) := by
  have hnode := ix_withVotes C env p.other p.node.mapTxLockVote tx
  rw [← h.node] at hnode
  have hother := ix_withVotes C env p.other p.other.mapTxLockVote tx
  rw [withVotes_self] at hother
  have hown : p.node.ownVote C (.ix env tx) = p.other.ownVote C (.ix env tx) := by
    rw [h.node]
    exact ownVote_withVotes C p.other p.node.mapTxLockVote (.ix env tx)
  have hnodeVote : (swiftStep C p.node (.ix env tx)).mapTxLockVote =
      fileOwn p.node.mapTxLockVote (p.other.ownVote C (.ix env tx)) := by
    rw [hnode, withVotes_vote]
  have hotherVote : (swiftStep C p.other (.ix env tx)).mapTxLockVote =
      fileOwn p.other.mapTxLockVote (p.other.ownVote C (.ix env tx)) := by
    rw [hother, withVotes_vote]
  refine ⟨?_, ?_, ?_, ?_⟩
  · show swiftStep C p.node (.ix env tx) =
      (swiftStep C p.other (.ix env tx)).withVotes (swiftStep C p.node (.ix env tx)).mapTxLockVote
    rw [hnodeVote]
    exact hnode
  · intro x
    show ((swiftStep C p.node (.ix env tx)).mapTxLockVote x).isSome = true ↔
      ((swiftStep C p.other (.ix env tx)).mapTxLockVote x).isSome = true ∨
        (p.taken x ∧ ∀ ctx, p.node.ownVote C (.ix env tx) = some ctx → ctx.GetHash ≠ x)
    rw [hnodeVote, hotherVote, fileOwn_isSome, fileOwn_isSome, h.filed, hown]
    by_cases hx : ∃ ctx, p.other.ownVote C (.ix env tx) = some ctx ∧ ctx.GetHash = x
    · simp only [hx, or_true, true_or]
    · have hfree : ∀ ctx, p.other.ownVote C (.ix env tx) = some ctx → ctx.GetHash ≠ x :=
        fun ctx hctx heq => hx ⟨ctx, hctx, heq⟩
      simp only [hx, or_false]
      constructor
      · rintro (hseen | htaken)
        · exact .inl hseen
        · exact .inr ⟨htaken, hfree⟩
      · rintro (hseen | htaken)
        · exact .inl hseen
        · exact .inr htaken.1
  · intro x htaken
    obtain ⟨hbefore, hfree⟩ : p.taken x ∧
        ∀ ctx, p.node.ownVote C (.ix env tx) = some ctx → ctx.GetHash ≠ x := htaken
    show (swiftStep C p.other (.ix env tx)).mapTxLockVote x = none
    rw [hotherVote, ← Option.not_isSome_iff_eq_none, fileOwn_isSome]
    rintro (hseen | ⟨ctx, hctx, hx⟩)
    · rw [h.taken x hbefore] at hseen
      cases hseen
    · exact hfree ctx (hown.trans hctx) hx
  · exact sound_step C p.other (.ix env tx) h.sound

theorem alike_clean (h : Alike p) (env : SwiftEnv) : Alike (twoNodes C p (.clean env)) := by
  obtain ⟨l, hl, hheld⟩ := clean_withVotes C env p.other
  have hnode := hl p.node.mapTxLockVote
  rw [← h.node] at hnode
  have hother := hl p.other.mapTxLockVote
  rw [withVotes_self] at hother
  have hnodeVote : (swiftStep C p.node (.clean env)).mapTxLockVote =
      forget p.node.mapTxLockVote l := by rw [hnode, withVotes_vote]
  have hotherVote : (swiftStep C p.other (.clean env)).mapTxLockVote =
      forget p.other.mapTxLockVote l := by rw [hother, withVotes_vote]
  -- what the clean-up forgets was held, so no failing vote filed it
  have hfree : ∀ x, p.taken x → x ∉ l := by
    intro x htaken hx
    obtain ⟨k, v, hv, rfl⟩ := hheld x hx
    have hseen := (h.sound.seen hv).2
    rw [h.taken _ htaken] at hseen
    cases hseen
  refine ⟨?_, ?_, ?_, ?_⟩
  · show swiftStep C p.node (.clean env) =
      (swiftStep C p.other (.clean env)).withVotes (swiftStep C p.node (.clean env)).mapTxLockVote
    rw [hnodeVote]
    exact hnode
  · intro x
    show ((swiftStep C p.node (.clean env)).mapTxLockVote x).isSome = true ↔
      ((swiftStep C p.other (.clean env)).mapTxLockVote x).isSome = true ∨ p.taken x
    rw [hnodeVote, hotherVote, forget_apply, forget_apply]
    by_cases hx : x ∈ l
    · have hnot : ¬ p.taken x := fun htaken => hfree x htaken hx
      simp [hx, hnot]
    · rw [if_neg hx, if_neg hx]
      exact h.filed x
  · intro x htaken
    show (swiftStep C p.other (.clean env)).mapTxLockVote x = none
    rw [hotherVote, forget_apply, if_neg (hfree x htaken)]
    exact h.taken x htaken
  · exact sound_step C p.other (.clean env) h.sound

variable {ctx : CConsensusVote} {env : SwiftEnv}

theorem txlvote_seen {s : SwiftTX}
    (h : env.active = false ∨ (s.mapTxLockVote ctx.GetHash).isSome = true) :
    swiftStep C s (.txlvote env ctx) = s := by
  have hstep : swiftStep C s (.txlvote env ctx) =
      if env.active then s.ProcessTxLockVote C env ctx else s := rfl
  rw [hstep]
  rcases h with hoff | hseen
  · simp [hoff]
  · rw [ProcessTxLockVote_seen C env s ctx hseen, ite_self]

theorem txlvote_new {s : SwiftTX}
    (hactive : env.active = true) :
    swiftStep C s (.txlvote env ctx) = s.ProcessTxLockVote C env ctx := if_pos hactive

section
variable (h : Alike p)
include h

theorem Alike.stay {q : Beside.Pair SwiftTX uint256} (hnode : q.node = p.node)
    (hother : q.other = p.other) (htaken : ∀ x, q.taken x ↔ p.taken x) : Alike q := by
  refine ⟨?_, ?_, ?_, ?_⟩
  · rw [hnode, hother]
    exact h.node
  · intro x
    rw [hnode, hother, htaken]
    exact h.filed x
  · intro x hx
    rw [hother]
    exact h.taken x ((htaken x).mp hx)
  · rw [hother]
    exact h.sound

theorem alike_failing (hactive : env.active = true) (hcount : countable C env ctx = false)
    (hnode : p.node.mapTxLockVote ctx.GetHash = none)
    (hother : p.other.mapTxLockVote ctx.GetHash = none) :
    Alike (twoNodes C p (.txlvote env ctx)) := by
  have hstep : swiftStep C p.node (.txlvote env ctx) = p.node.noted ctx := by
    rw [txlvote_new hactive, ProcessTxLockVote_uncounted C env p.node ctx hnode hcount]
  have hstay : (twoNodes C p (.txlvote env ctx)).other = p.other := by
    show (if fails C (.txlvote env ctx) = true then p.other else _) = p.other
    rw [if_pos (by simp [fails, hcount])]
  have hfiled : ∀ x, (twoNodes C p (.txlvote env ctx)).taken x ↔ p.taken x ∨ ctx.GetHash = x := by
    intro x
    show (p.taken x ∨ (env.active = true ∧ countable C env ctx = false ∧
      p.node.mapTxLockVote ctx.GetHash = none ∧ ctx.GetHash = x)) ↔ _
    simp [hactive, hcount, hnode]
  refine ⟨?_, ?_, ?_, ?_⟩
  · rw [hstay]
    show swiftStep C p.node (.txlvote env ctx) =
      p.other.withVotes (swiftStep C p.node (.txlvote env ctx)).mapTxLockVote
    rw [hstep]
    exact congrArg (fun s => s.noted ctx) h.node
  · intro x
    rw [hstay, hfiled]
    show ((swiftStep C p.node (.txlvote env ctx)).mapTxLockVote x).isSome = true ↔ _
    rw [hstep]
    show (mapInsert p.node.mapTxLockVote ctx.GetHash ctx x).isSome = true ↔ _
    rw [mapInsert_isSome, h.filed, or_assoc]
  · intro x hx
    rw [hstay]
    rcases (hfiled x).mp hx with htaken | rfl
    · exact h.taken x htaken
    · exact hother
  · rw [hstay]
    exact h.sound

theorem alike_good (hactive : env.active = true) (hcount : countable C env ctx = true)
    (hnode : p.node.mapTxLockVote ctx.GetHash = none)
    (hother : p.other.mapTxLockVote ctx.GetHash = none) :
    Alike (twoNodes C p (.txlvote env ctx)) := by
  have hboth (m : uint256 → Option CConsensusVote) (hm : m ctx.GetHash = none) :
      swiftStep C (p.other.withVotes m) (.txlvote env ctx) =
        (swiftStep C p.other (.txlvote env ctx)).withVotes (mapInsert m ctx.GetHash ctx) := by
    rw [txlvote_new hactive, txlvote_new hactive,
      ProcessTxLockVote_withVotes C env p.other m ctx hother hm]
  have hstep := hboth p.node.mapTxLockVote hnode
  rw [← h.node] at hstep
  have hvote : (swiftStep C p.other (.txlvote env ctx)).mapTxLockVote =
      mapInsert p.other.mapTxLockVote ctx.GetHash ctx := by
    have hself := hboth p.other.mapTxLockVote hother
    rw [withVotes_self] at hself
    rw [hself, withVotes_vote]
  have hmoves : (twoNodes C p (.txlvote env ctx)).other =
      swiftStep C p.other (.txlvote env ctx) := by
    show (if fails C (.txlvote env ctx) = true then p.other else _) = _
    rw [if_neg (by simp [fails, hcount])]
  have htaken : ∀ x, (twoNodes C p (.txlvote env ctx)).taken x ↔ p.taken x := by
    intro x
    show (p.taken x ∨ (env.active = true ∧ countable C env ctx = false ∧ _)) ↔ _
    simp [hcount]
  have hfree : ¬ p.taken ctx.GetHash := by
    intro htaken
    have hseen := (h.filed ctx.GetHash).mpr (.inr htaken)
    rw [hnode] at hseen
    cases hseen
  refine ⟨?_, ?_, ?_, ?_⟩
  · rw [hmoves]
    show swiftStep C p.node (.txlvote env ctx) =
      (swiftStep C p.other (.txlvote env ctx)).withVotes
        (swiftStep C p.node (.txlvote env ctx)).mapTxLockVote
    rw [hstep, withVotes_vote]
  · intro x
    rw [hmoves, htaken]
    show ((swiftStep C p.node (.txlvote env ctx)).mapTxLockVote x).isSome = true ↔ _
    rw [hstep, withVotes_vote, hvote, mapInsert_isSome, mapInsert_isSome, h.filed]
    exact or_right_comm
  · intro x hx
    have hx := (htaken x).mp hx
    rw [hmoves, hvote, ← Option.not_isSome_iff_eq_none, mapInsert_isSome]
    rintro (hseen | rfl)
    · rw [h.taken x hx] at hseen
      cases hseen
    · exact hfree hx
  · rw [hmoves]
    exact sound_step C p.other _ h.sound

theorem alike_txlvote (env : SwiftEnv) (ctx : CConsensusVote)
    (hok : Unhidden C p (.txlvote env ctx)) : Alike (twoNodes C p (.txlvote env ctx)) := by
  -- a vote that both nodes drop
  have hdrop (hnode : env.active = false ∨ (p.node.mapTxLockVote ctx.GetHash).isSome = true)
      (hother : fails C (.txlvote env ctx) = true ∨ env.active = false ∨
        (p.other.mapTxLockVote ctx.GetHash).isSome = true) :
      Alike (twoNodes C p (.txlvote env ctx)) := by
    refine h.stay (txlvote_seen hnode) ?_ ?_
    · show (if fails C (.txlvote env ctx) = true then p.other else _) = p.other
      rcases hother with hfails | hother
      · rw [if_pos hfails]
      · rw [txlvote_seen hother, ite_self]
    · intro x
      show (p.taken x ∨ (env.active = true ∧ countable C env ctx = false ∧
        p.node.mapTxLockVote ctx.GetHash = none ∧ ctx.GetHash = x)) ↔ _
      rcases hnode with hoff | hseen
      · simp [hoff]
      · simp [Option.ne_none_iff_isSome.mpr hseen]
  cases hactive : env.active with
  | false => exact hdrop (.inl hactive) (.inr (.inl hactive))
  | true =>
    cases hother : p.other.mapTxLockVote ctx.GetHash with
    | some v =>
      have hseen : (p.other.mapTxLockVote ctx.GetHash).isSome = true := by rw [hother]; rfl
      exact hdrop (.inr ((h.filed _).mpr (.inl hseen))) (.inr (.inr hseen))
    | none =>
      cases hnode : p.node.mapTxLockVote ctx.GetHash with
      | some v =>
        -- only failing votes filed it, so this one fails as well
        have hseen : (p.node.mapTxLockVote ctx.GetHash).isSome = true := by rw [hnode]; rfl
        have htaken : p.taken ctx.GetHash := by
          rcases (h.filed _).mp hseen with hboth | htaken
          · rw [hother] at hboth
            cases hboth
          · exact htaken
        refine hdrop (.inr hseen) (.inl ?_)
        cases hcount : countable C env ctx with
        | false => simp [fails, hcount]
        | true => exact absurd htaken (hok hactive hcount)
      | none =>
        cases hcount : countable C env ctx with
        | false => exact alike_failing h hactive hcount hnode hother
        | true => exact alike_good h hactive hcount hnode hother

theorem alike_step (e : SwiftEvent) (hok : Unhidden C p e) :
    Alike (twoNodes C p e) := by
  cases e with
  | ix env tx => exact alike_ix h env tx
  | txlvote env ctx => exact alike_txlvote h env ctx hok
  | clean env => exact alike_clean h env

theorem apart_of_hidden (e : SwiftEvent) (hnot : ¬ Unhidden C p e) :
    ¬ SameTally (twoNodes C p e).node (twoNodes C p e).other := by
  cases e with
  | ix env tx => exact absurd trivial hnot
  | clean env => exact absurd trivial hnot
  | txlvote env ctx =>
    have hhidden : env.active = true ∧ countable C env ctx = true ∧ p.taken ctx.GetHash := by
      by_contra hno
      refine hnot ?_
      intro hactive hcount htaken
      exact hno ⟨hactive, hcount, htaken⟩
    obtain ⟨hactive, hcount, htaken⟩ := hhidden
    have hstay : (twoNodes C p (.txlvote env ctx)).node = p.node :=
      txlvote_seen (.inr ((h.filed _).mpr (.inr htaken)))
    have hmoves : (twoNodes C p (.txlvote env ctx)).other =
        p.other.ProcessTxLockVote C env ctx := by
      show (if fails C (.txlvote env ctx) = true then p.other else _) = _
      rw [if_neg (by simp [fails, hcount]), txlvote_new hactive]
    have hcounted := ProcessTxLockVote_counted C env p.other ctx (h.taken _ htaken) hcount
    intro hsame
    have htally := congrFun hsame ctx.txHash
    rw [hstay, hmoves, hcounted.tally, if_pos rfl, h.sameTally] at htally
    -- the vote would be held twice over
    have hlonger : (p.other.voteTally ctx).2 = (p.other.voteTally ctx).2 ++ [ctx] := by
      have hvotes : (p.other.tally ctx.txHash).getD (0, []) = p.other.voteTally ctx := by
        rw [htally]
        rfl
      conv_lhs => rw [voteTally, hvotes]
    simp at hlonger

end

end

/-- **Every node is counted once, and the failing votes change nothing, exactly when no good
vote comes after a failing one with its hash.**  What is compared is what the locks hold after
every event, with the failing votes and without them. -/
theorem votes_counted_iff (C : Crypto) (events : List SwiftEvent) :
    (Run.Throughout (swiftStep C) CountsOnce empty events ∧
      Beside.SameThroughout (swiftStep C) (fails C) SameTally empty empty events) ↔
      Run.Guarded (twoNodes C) (Unhidden C) ⟨empty, empty, fun _ => False⟩ events := by
  have hstart : Alike ⟨empty, empty, fun _ => False⟩ := by
    refine ⟨rfl, ?_, ?_, sound_empty⟩
    · intro x
      simp
    · intro x hx
      exact hx.elim
  have hiff : Beside.SameThroughout (swiftStep C) (fails C) SameTally empty empty events ↔
      Run.Guarded (twoNodes C) (Unhidden C) ⟨empty, empty, fun _ => False⟩ events := by
    refine Beside.same_iff ?_ ?_ ?_ hstart
    · intro p h
      exact h.sameTally
    · intro p e h hok
      exact alike_step h e hok
    · intro p e h hnot
      exact apart_of_hidden h e hnot
  constructor
  · intro h
    exact hiff.mp h.2
  · intro h
    exact ⟨countsOnce C events, hiff.mpr h⟩

/-- A vote of the first prosperitynode on the payment with a signature that is not its own. -/
def forgedVote : CConsensusVote := { paymentVote 0 with vchFundamentalNodeSignature := [9] }

/-- **A forged vote silences the node it names.**  Its own vote comes after the forged one and
is dropped as seen; without the forged one it is counted. -/
theorem forged_vote_hides :
    ¬ (Run.Throughout (swiftStep paymentCrypto) CountsOnce empty
          [.ix (lockEnv true) payment, .txlvote (lockEnv true) forgedVote,
            .txlvote (lockEnv true) (paymentVote 0)] ∧
        Beside.SameThroughout (swiftStep paymentCrypto) (fails paymentCrypto) SameTally empty empty
          [.ix (lockEnv true) payment, .txlvote (lockEnv true) forgedVote,
            .txlvote (lockEnv true) (paymentVote 0)]) ∧
      ([.ix (lockEnv true) payment, .txlvote (lockEnv true) forgedVote,
          .txlvote (lockEnv true) (paymentVote 0)].foldl (swiftStep paymentCrypto)
        empty).tally 170 = some (994, []) ∧
      ([.ix (lockEnv true) payment, .txlvote (lockEnv true) (paymentVote 0)].foldl
        (swiftStep paymentCrypto) empty).tally 170 = some (994, [paymentVote 0]) := by
  have hforged : ([.ix (lockEnv true) payment, .txlvote (lockEnv true) forgedVote,
      .txlvote (lockEnv true) (paymentVote 0)].foldl (swiftStep paymentCrypto) empty).tally 170 =
        some (994, []) := by decide +kernel
  have halone : ([.ix (lockEnv true) payment, .txlvote (lockEnv true) (paymentVote 0)].foldl
      (swiftStep paymentCrypto) empty).tally 170 = some (994, [paymentVote 0]) := by decide +kernel
  have hrest : Beside.without (fails paymentCrypto)
      [.ix (lockEnv true) payment, .txlvote (lockEnv true) forgedVote,
        .txlvote (lockEnv true) (paymentVote 0)] =
      [.ix (lockEnv true) payment, .txlvote (lockEnv true) (paymentVote 0)] := by
    have hfails : fails paymentCrypto (.txlvote (lockEnv true) forgedVote) = true := by
      decide +kernel
    have hpasses : fails paymentCrypto (.txlvote (lockEnv true) (paymentVote 0)) = false := by
      decide +kernel
    have hix : fails paymentCrypto (.ix (lockEnv true) payment) = false := rfl
    simp [Beside.without, hfails, hpasses, hix]
  refine ⟨?_, hforged, halone⟩
  rintro ⟨-, h⟩
  have hsame := congrFun (h _ (prefix_refl _)) 170
  cases hsame

end SwiftTX
end Divitae
