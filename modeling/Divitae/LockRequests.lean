/-
# `LockRequests` — when a voted request has its inputs locked

A request and the votes on it may come in any order, and what locks the inputs is the
vote that completes the lock.  `RequestsLocked` is what the order should not matter for,

    the request for `h` is known, six prosperitynodes voted for the height of its lock
    ⟹ every outpoint the request spends is locked to `h`

`requests_locked_iff` says which steps keep it.  The load-bearing one is a request that
comes when its votes are already there: `ix` takes note of the complete lock but does
not lock, so the inputs have to be locked before.  The other three are a vote on a
request one of whose inputs is locked to another transaction (the two cancel out), a
vote on a request that is known as a rejected one only, and a clean-up that releases an
input the request shares with an expired one.
-/
import Divitae.LockedInputs

namespace Divitae
namespace SwiftTX

/-- Every known request that is voted has its inputs locked to it. -/
def RequestsLocked (s : SwiftTX) : Prop := ∀ h tx, s.Known h tx → s.Voted h → s.LockedTo h tx

/-- With this vote the lock has its six prosperitynodes. -/
def VoteCompletes (s : SwiftTX) (ctx : CConsensusVote) : Prop :=
  Complete (s.voteTally ctx).1 (s.voteTally ctx).2

/-- What a step must meet. -/
def KeepsLocked (C : Crypto) (s : SwiftTX) : SwiftEvent → Prop
  | .ix env tx =>
    env.active = true → s.takesUp env tx = true → s.RequestVoted env tx →
      if s.AcceptToMemoryPool env tx then s.LockedTo tx.hash tx else s.Free tx.hash tx
  | .txlvote env ctx =>
    env.active = true → s.mapTxLockVote ctx.GetHash = none → countable C env ctx = true →
      s.VoteCompletes ctx → ∀ tx, s.Known ctx.txHash tx →
        if s.mapTxLockReq ctx.txHash = some tx then s.Free ctx.txHash tx
        else s.LockedTo ctx.txHash tx
  | .clean env =>
    env.chainHeight ≠ -1 → ∀ h tx, s.Known h tx → s.Voted h → ¬ s.Expired env h →
      ∀ o ∈ tx.outpoints, ¬ s.Released env o

theorem requestsLocked_empty : RequestsLocked empty := by
  rintro h tx (hreq | hrej)
  · exact absurd hreq (by simp [empty])
  · exact absurd hrej (by simp [empty])

section
variable {C : Crypto} {s s' : SwiftTX}

theorem keepsLocked_of_ignored {e : SwiftEvent} (h : s.Ignored e) : KeepsLocked C s e := by
  cases e with
  | ix env tx => exact fun hactive htakes => absurd ⟨hactive, htakes⟩ h
  | txlvote env ctx => exact fun hactive hnew => absurd ⟨hactive, hnew⟩ h
  | clean env => exact fun htip => absurd h htip

theorem requestsLocked_takenUp (hs : RequestsLocked s) {env : SwiftEnv} {tx : CTransaction}
    (hactive : env.active = true) (htakes : s.takesUp env tx = true) (h : TakenUp env s tx s') :
    RequestsLocked s' ↔ KeepsLocked C s (.ix env tx) := by
  constructor
  · intro hs' _ _ hvoted
    have hall : s'.LockedTo tx.hash tx :=
      hs' tx.hash tx ((h.own tx).mpr rfl) (h.voted_own.mpr hvoted)
    cases hpool : s.AcceptToMemoryPool env tx with
    | true =>
      intro o ho
      have hlocked := hall o ho
      rw [h.locked, if_neg (by simp [hpool])] at hlocked
      exact hlocked
    | false =>
      intro o ho
      have hlocked := hall o ho
      rw [h.locked] at hlocked
      split at hlocked
      · next hnew => exact .inl hnew.2.2
      · exact .inr hlocked
  · intro hok k t ht hvoted o ho
    rw [h.locked]
    by_cases hk : k = tx.hash
    · subst hk
      obtain rfl := (h.own t).mp ht
      have hlocks := hok hactive htakes (h.voted_own.mp hvoted)
      cases hpool : s.AcceptToMemoryPool env t with
      | true =>
        rw [hpool, if_pos rfl] at hlocks
        rw [if_neg (by simp)]
        exact hlocks o ho
      | false =>
        rw [hpool, if_neg Bool.false_ne_true] at hlocks
        rcases hlocks o ho with hnone | hsome
        · rw [if_pos ⟨rfl, ho, hnone⟩]
        · rw [if_neg (by simp [hsome])]
          exact hsome
    · have hlocked := hs k t ((h.known hk t).mp ht) ((h.voted hk).mp hvoted) o ho
      rw [if_neg (by simp [hlocked])]
      exact hlocked

theorem Counted.voted_own {ctx : CConsensusVote} (h : Counted s ctx s') :
    s'.Voted ctx.txHash ↔ s.VoteCompletes ctx := by
  rw [Voted, h.tally, if_pos rfl]
  constructor
  · rintro ⟨n, votes, htally, hcomplete⟩
    rw [Option.some.injEq] at htally
    rw [VoteCompletes, htally]
    exact hcomplete
  · intro hcomplete
    exact ⟨_, _, rfl, hcomplete⟩

theorem requestsLocked_counted (hfiled : Filed s) (hs : RequestsLocked s) {ctx : CConsensusVote}
    (h : Counted s ctx s') : RequestsLocked s' ↔
      (s.VoteCompletes ctx → ∀ tx, s.Known ctx.txHash tx →
        if s.mapTxLockReq ctx.txHash = some tx then s.Free ctx.txHash tx
        else s.LockedTo ctx.txHash tx) := by
  constructor
  · intro hs' hcomplete tx htx
    have hall : s'.LockedTo ctx.txHash tx :=
      hs' ctx.txHash tx (h.known htx) (h.voted_own.mpr hcomplete)
    split
    · intro o ho
      rcases (h.locked o ctx.txHash).mp (hall o ho) with hold | ⟨-, hnone, -, -⟩
      · exact .inr hold
      · exact .inl hnone
    · next hreq =>
        intro o ho
        rcases (h.locked o ctx.txHash).mp (hall o ho) with hold | ⟨-, -, -, tx', hreq', -, ho'⟩
        · exact hold
        · -- a request that is accepted and rejected is the same one
          rcases hfiled.one ctx.txHash tx' tx hreq' (htx.resolve_left hreq) with rfl | hnil
          · exact absurd hreq' hreq
          · rw [hnil] at ho'
            exact absurd ho' (by simp)
  · intro hok k t ht hvoted o ho
    have hknown : s.Known k t := by
      rcases ht with ht | ht
      · rcases (h.req k t).mp ht with ht | ⟨-, -, -, rfl⟩
        · exact .inl ht
        · exact absurd ho (by simp [CTransaction.outpoints, CTransaction.default])
      · rw [h.rejected] at ht
        exact .inr ht
    rw [h.locked]
    by_cases hk : k = ctx.txHash
    · subst hk
      have hcomplete := h.voted_own.mp hvoted
      have hlocks := hok hcomplete t hknown
      split at hlocks
      · next hreq =>
          have hhash : t.hash = ctx.txHash := by
            refine (hfiled.known ctx.txHash t hknown).resolve_right ?_
            intro hnil
            rw [hnil] at ho
            exact absurd ho (by simp)
          rcases hlocks o ho with hnone | hsome
          · exact .inr ⟨reached_of_complete hcomplete, hnone, rfl, t, hreq, hhash ▸ hlocks, ho⟩
          · exact .inl hsome
      · exact .inl (hlocks o ho)
    · have hvoted' : s.Voted k := by
        rw [Voted, h.tally, if_neg hk] at hvoted
        exact hvoted
      exact .inl (hs k t hknown hvoted' o ho)

theorem requestsLocked_cleaned (hs : RequestsLocked s) {env : SwiftEnv}
    (htip : env.chainHeight ≠ -1) (h : Cleaned env s s') :
    RequestsLocked s' ↔ KeepsLocked C s (.clean env) := by
  constructor
  · intro hs' _ k t ht hvoted hfresh o ho
    have ht' : s'.Known k t := by
      rcases ht with ht | ht
      · exact .inl ((h.req k t).mpr ⟨ht, hfresh⟩)
      · exact .inr ((h.rejected k t).mpr ⟨ht, fun hand => hfresh hand.1⟩)
    exact ((h.locked o k).mp (hs' k t ht' (h.voted.mpr ⟨hvoted, hfresh⟩) o ho)).2
  · intro hok k t ht hvoted o ho
    obtain ⟨hvoted, hfresh⟩ := h.voted.mp hvoted
    have ht' : s.Known k t := by
      rcases ht with ht | ht
      · exact .inl ((h.req k t).mp ht).1
      · exact .inr ((h.rejected k t).mp ht).1
    exact (h.locked o k).mpr ⟨hs k t ht' hvoted o ho, hok htip k t ht' hvoted hfresh o ho⟩

end

/-- **What one event does to the locks of voted requests.** -/
theorem requestsLocked_step (C : Crypto) {s : SwiftTX} (hfiled : Filed s) (hs : RequestsLocked s)
    (e : SwiftEvent) : RequestsLocked (swiftStep C s e) ↔ KeepsLocked C s e := by
  have heffect := effect C hfiled.lock e
  generalize swiftStep C s e = s' at heffect
  cases heffect with
  | ignored h => exact iff_of_true hs (keepsLocked_of_ignored h)
  | takenUp hactive htakes h => exact requestsLocked_takenUp hs hactive htakes h
  | uncounted _ _ hcount =>
    refine iff_of_true hs ?_
    intro _ _ hcount'
    exact absurd (hcount.symm.trans hcount') (by simp)
  | @counted env ctx _ hactive hnew hcount h =>
    have hfiled' : Filed (s.noted ctx) := ⟨hfiled.lock, hfiled.known, hfiled.one⟩
    rw [requestsLocked_counted hfiled' hs h]
    exact ⟨fun hok _ _ _ => hok, fun hok => hok hactive hnew hcount⟩
  | cleaned htip h => exact requestsLocked_cleaned hs htip h

/-- **Voted requests have their inputs locked throughout a run exactly when each step
keeps them so**, in whatever order requests and votes arrive. -/
theorem requests_locked_iff (C : Crypto) (events : List SwiftEvent) :
    Run.Throughout (swiftStep C) RequestsLocked empty events ↔
      Run.Guarded (swiftStep C) (KeepsLocked C) empty events :=
  Run.guarded_iff (I := Filed) (fun _ e hs => filed_step C hs e)
    (fun _ e hfiled hs => requestsLocked_step C hfiled hs e) filed_empty requestsLocked_empty

/-- The six votes come first, the request after them. -/
def votesFirst : List SwiftEvent := sixVotes ++ [.ix (lockEnv true) payment]

theorem early_votes_lock_nothing :
    ¬ (∀ (C : Crypto) (events : List SwiftEvent),
      Run.Throughout (swiftStep C) RequestsLocked empty events) ∧
      (votesFirst.foldl (swiftStep paymentCrypto) empty).mapLockedInputs ⟨5, 0⟩ = none := by
  have hnone : (votesFirst.foldl (swiftStep paymentCrypto) empty).mapLockedInputs
    ⟨5, 0⟩ = none := by
    decide +kernel
  have hreq : (votesFirst.foldl (swiftStep paymentCrypto) empty).mapTxLockReq 170 =
      some payment := by decide +kernel
  have htally : (votesFirst.foldl (swiftStep paymentCrypto) empty).tally 170 =
      some (994, (List.range 6).map paymentVote) := by decide +kernel
  have hcomplete : Complete 994 ((List.range 6).map paymentVote) := ⟨by decide, by decide +kernel⟩
  refine ⟨?_, hnone⟩
  intro hall
  have hlocked := hall paymentCrypto votesFirst votesFirst (List.prefix_refl _) 170 payment
    (.inl hreq) ⟨994, _, htally, hcomplete⟩ ⟨5, 0⟩ (by simp [payment, CTransaction.outpoints])
  rw [hnone] at hlocked
  exact absurd hlocked (by simp)

end SwiftTX
end Divitae
