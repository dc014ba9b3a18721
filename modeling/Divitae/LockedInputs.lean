/-
# `LockedInputs` — which locks are backed by votes

`mapLockedInputs` is read by the memory pool and by the block checks: an entry keeps
every other transaction from spending the outpoint.  `CheckForConflictingLocks` takes
an entry for a complete lock ("two complete conflicting locks").  That is `Backed`,

    an entry names a known transaction that spends the outpoint,
    and six prosperitynodes voted for the lock of that transaction

Votes keep it.  Two paths do not: a request the memory pool refuses locks its inputs at
once, and the clean-up unlocks by the accepted requests only, so what a refused request
locked stays locked when its lock is gone.  `locks_backed_iff` says of any run that
these two are all that can go wrong.
-/
import Divitae.SwiftLocks

namespace Divitae
namespace SwiftTX

/-- Every locked outpoint is spent by the request it is locked to, and six
prosperitynodes voted for that. -/
def Backed (s : SwiftTX) : Prop :=
  ∀ o h, s.mapLockedInputs o = some h →
    (∃ tx, s.Known h tx ∧ tx.hash = h ∧ o ∈ tx.outpoints) ∧ s.Voted h

/-- What a step must meet: a refused request finds its inputs locked or its votes already
there, and a clean-up releases what the locks that leave have locked. -/
def KeepsBacked (s : SwiftTX) : SwiftEvent → Prop
  | .ix env tx =>
    env.active = true → s.takesUp env tx = true → s.AcceptToMemoryPool env tx = false →
      (∀ o ∈ tx.outpoints, s.mapLockedInputs o ≠ none) ∨ s.RequestVoted env tx
  | .txlvote _ _ => True
  | .clean env =>
    env.chainHeight ≠ -1 → ∀ o h, s.mapLockedInputs o = some h → s.Expired env h → s.Released env o

theorem backed_empty : Backed empty := by
  intro o h hlocked
  exact absurd hlocked (by simp [empty])

theorem keepsBacked_of_ignored {s : SwiftTX} {e : SwiftEvent} (h : s.Ignored e) :
    s.KeepsBacked e := by
  cases e with
  | ix env tx => exact fun hactive htakes => absurd ⟨hactive, htakes⟩ h
  | txlvote env ctx => trivial
  | clean env => exact fun htip => absurd h htip

variable {env : SwiftEnv} {k : uint256} {tx : CTransaction}

theorem TakenUp.voted {s s' : SwiftTX}
    (h : TakenUp env s tx s') (hk : k ≠ tx.hash) : s'.Voted k ↔ s.Voted k := by
  rw [Voted, Voted, h.tally, if_neg hk]

theorem TakenUp.voted_own {s s' : SwiftTX}
    (h : TakenUp env s tx s') : s'.Voted tx.hash ↔ s.RequestVoted env tx := by
  rw [Voted, RequestVoted, h.tally, if_pos rfl]

variable {ctx : CConsensusVote}

theorem Counted.voted {s s' : SwiftTX} (h : Counted s ctx s')
    (hvoted : s.Voted k) : s'.Voted k := by
  obtain ⟨n, votes, htally, hcomplete⟩ := hvoted
  by_cases hk : k = ctx.txHash
  · subst hk
    refine ⟨n, votes ++ [ctx], ?_, hcomplete.append [ctx]⟩
    rw [h.tally, if_pos rfl, voteTally, htally]
    rfl
  · refine ⟨n, votes, ?_, hcomplete⟩
    rw [h.tally, if_neg hk]
    exact htally

theorem Counted.known {s s' : SwiftTX} (h : Counted s ctx s')
    {t : CTransaction} (ht : s.Known k t) : s'.Known k t := by
  rcases ht with ht | ht
  · exact .inl ((h.req k t).mpr (.inl ht))
  · refine .inr ?_
    rw [h.rejected]
    exact ht

theorem Cleaned.voted {s s' : SwiftTX} (h : Cleaned env s s') :
    s'.Voted k ↔ s.Voted k ∧ ¬ s.Expired env k := by
  constructor
  · rintro ⟨n, votes, htally, hcomplete⟩
    obtain ⟨l, hl, rfl, rfl⟩ := tally_eq_some.mp htally
    obtain ⟨hold, hfresh⟩ := (h.lookup k l).mp hl
    refine ⟨⟨_, _, tally_eq_some.mpr ⟨l, hold, rfl, rfl⟩, hcomplete⟩, ?_⟩
    rintro ⟨l', hl', hexp⟩
    rw [hold, Option.some.injEq] at hl'
    rw [hl', hexp] at hfresh
    exact Bool.false_ne_true hfresh.symm
  · rintro ⟨⟨n, votes, htally, hcomplete⟩, hfresh⟩
    obtain ⟨l, hl, rfl, rfl⟩ := tally_eq_some.mp htally
    refine ⟨_, _, tally_eq_some.mpr ⟨l, (h.lookup k l).mpr ⟨hl, ?_⟩, rfl, rfl⟩, hcomplete⟩
    cases hexp : expired env l with
    | false => rfl
    | true => exact absurd ⟨l, hl, hexp⟩ hfresh

theorem not_known_of_takesUp {s : SwiftTX} {tx t : CTransaction}
    (h : s.takesUp env tx = true) : ¬ s.Known tx.hash t := by
  simp only [takesUp, Bool.and_eq_true, Option.isNone_iff_eq_none] at h
  obtain ⟨⟨⟨hreq, hrej⟩, -⟩, -⟩ := h
  rintro (ht | ht)
  · rw [hreq] at ht
    exact absurd ht (by simp)
  · rw [hrej] at ht
    exact absurd ht (by simp)

section
variable {C : Crypto} {s s' : SwiftTX}

theorem backed_takenUp (hs : Backed s)
    (hactive : env.active = true) (htakes : s.takesUp env tx = true) (h : TakenUp env s tx s') :
    Backed s' ↔ s.KeepsBacked (.ix env tx) := by
  constructor
  · intro hs' _ _ hpool
    by_cases hall : ∀ o ∈ tx.outpoints, s.mapLockedInputs o ≠ none
    · exact .inl hall
    · push Not at hall
      obtain ⟨o, ho, hnone⟩ := hall
      have hlocked : s'.mapLockedInputs o = some tx.hash := by
        rw [h.locked, if_pos ⟨hpool, ho, hnone⟩]
      exact .inr (h.voted_own.mp (hs' o tx.hash hlocked).2)
  · intro hok o k hlocked
    rw [h.locked] at hlocked
    split at hlocked
    · next hnew =>
        obtain ⟨hpool, ho, hnone⟩ := hnew
        rw [Option.some.injEq] at hlocked
        subst hlocked
        refine ⟨⟨tx, (h.own tx).mpr rfl, rfl, ho⟩, h.voted_own.mpr ?_⟩
        exact (hok hactive htakes hpool).resolve_left fun hall => hall o ho hnone
    · obtain ⟨⟨t, ht, hhash, ho⟩, hvoted⟩ := hs o k hlocked
      have hk : k ≠ tx.hash := fun heq => not_known_of_takesUp htakes (heq ▸ ht)
      exact ⟨⟨t, (h.known hk t).mpr ht, hhash, ho⟩, (h.voted hk).mpr hvoted⟩

theorem backed_counted (hfiled : Filed s) (hs : Backed s)
    (h : Counted s ctx s') (honce : VotesOnce s') : Backed s' := by
  intro o k hlocked
  rcases (h.locked o k).mp hlocked with hold | ⟨hcomp, -, rfl, tx, hreq, -, ho⟩
  · obtain ⟨⟨t, ht, hhash, ho⟩, hvoted⟩ := hs o k hold
    exact ⟨⟨t, h.known ht, hhash, ho⟩, h.voted hvoted⟩
  · have hhash : tx.hash = ctx.txHash := by
      refine (hfiled.known ctx.txHash tx (.inl hreq)).resolve_right ?_
      intro hnil
      rw [hnil] at ho
      exact absurd ho (by simp)
    have htally : s'.tally ctx.txHash = some (s.voteTally ctx) := by rw [h.tally, if_pos rfl]
    exact ⟨⟨tx, h.known (.inl hreq), hhash, ho⟩,
      _, _, htally, complete_of_reached (honce _ _ _ htally).1 hcomp⟩

theorem backed_cleaned (hs : Backed s) (htip : env.chainHeight ≠ -1)
    (h : Cleaned env s s') : Backed s' ↔ s.KeepsBacked (.clean env) := by
  constructor
  · intro hs' _ o k hlocked hexp
    by_contra hkept
    have hvoted := (hs' o k ((h.locked o k).mpr ⟨hlocked, hkept⟩)).2
    exact (h.voted.mp hvoted).2 hexp
  · intro hok o k hlocked
    obtain ⟨hold, hkept⟩ := (h.locked o k).mp hlocked
    have hfresh : ¬ s.Expired env k := fun hexp => hkept (hok htip o k hold hexp)
    obtain ⟨⟨t, ht, hhash, ho⟩, hvoted⟩ := hs o k hold
    refine ⟨⟨t, ?_, hhash, ho⟩, h.voted.mpr ⟨hvoted, hfresh⟩⟩
    rcases ht with ht | ht
    · exact .inl ((h.req k t).mpr ⟨ht, hfresh⟩)
    · exact .inr ((h.rejected k t).mpr ⟨ht, fun hand => hfresh hand.1⟩)

end

/-- **What one event does to the backing of the locks.** -/
theorem backed_step (C : Crypto) {s : SwiftTX} (hfiled : Filed s) (honce : VotesOnce s)
    (hs : Backed s) {e : SwiftEvent} (hapart : s.CleansApart e) :
    Backed (swiftStep C s e) ↔ s.KeepsBacked e := by
  have heffect := effect C hfiled.lock e
  have honce' := votesOnce_step C hfiled honce hapart
  generalize swiftStep C s e = s' at heffect honce'
  cases heffect with
  | ignored h => exact iff_of_true hs (keepsBacked_of_ignored h)
  | takenUp hactive htakes h => exact backed_takenUp hs hactive htakes h
  | uncounted _ _ _ => exact iff_of_true hs trivial
  | counted _ _ _ h =>
    refine iff_of_true (backed_counted ?_ ?_ h honce') trivial
    · exact ⟨hfiled.lock, hfiled.known, hfiled.one⟩
    · exact hs
  | cleaned htip h => exact backed_cleaned hs htip h

/-- **The locks are backed throughout a run exactly when each step keeps them so.** -/
theorem locks_backed_iff (C : Crypto) (events : List SwiftEvent)
    (hapart : Run.Guarded (swiftStep C) CleansApart empty events) :
    Run.Throughout (swiftStep C) Backed empty events ↔
      Run.Guarded (swiftStep C) KeepsBacked empty events := by
  refine Run.guarded_iff_under (I := fun s => Filed s ∧ VotesOnce s) ?_ ?_
    ⟨filed_empty, votesOnce_empty⟩ backed_empty hapart
  · rintro s e ⟨hfiled, honce⟩ - hclean -
    exact ⟨filed_step C hfiled e, votesOnce_step C hfiled honce hclean⟩
  · rintro s e ⟨hfiled, honce⟩ hs hclean
    exact backed_step C hfiled honce hs hclean

/-! ## A node and its messages -/

/-- A synchronized node at height 1000 with six prosperitynodes of rank one, all of the
same key; what is spent is ten blocks old.  `fPool` is what its memory pool says. -/
def lockEnv (fPool : Bool) : SwiftEnv where
  fLiteMode := false
  isBlockchainSynced := true
  shutdownRequested := false
  time := 1700000000
  adjustedTime := 1700000000
  minProto := PROTOCOL_VERSION
  getTransaction _ := none
  inputAge _ := 10
  blockHeight _ := none
  chainHeight := 1000
  chainTime _ := none
  lockMain := true
  fFundamentalNode := false
  activeVin := .SetNull
  activePubKey := compressedKey 2
  nodes :=
    ⟨(List.range 6).map fun n => .ofBroadcast (announcement n 1600000000 []), fun _ => none,
      fun _ => none⟩
  rank _ _ _ := 1
  sporks := .fresh
  mempoolAccepts _ := fPool
  activeTxIn := .null
  activeKeys := none

/-- A payment of ten coins out of the first output of transaction 5. -/
def payment : CTransaction :=
  ⟨170, 1, [⟨⟨5, 0⟩, [], 0xFFFFFFFF⟩], [⟨10 * COIN, GetScriptForDestination 0⟩], 0⟩

/-- The vote of the `n`-th prosperitynode on the payment, for the height of its lock. -/
def paymentVote (n : Nat) : CConsensusVote := ⟨⟨⟨7, n⟩, [], 0xFFFFFFFF⟩, 170, 994, [0]⟩

/-- The prosperitynodes' key signs for the payment at height 994 and for nothing else. -/
def paymentCrypto : Crypto := Crypto.onTexts (compressedKey 2) [(paymentVote 0).strMessage]

def sixVotes : List SwiftEvent :=
  (List.range 6).map fun n => .txlvote (lockEnv true) (paymentVote n)

theorem request_and_votes_backed :
    Run.Throughout (swiftStep paymentCrypto) Backed empty
        (.ix (lockEnv true) payment :: sixVotes) ∧
      ((SwiftEvent.ix (lockEnv true) payment :: sixVotes).foldl (swiftStep paymentCrypto)
        empty).mapLockedInputs ⟨5, 0⟩ = some 170 := by
  refine ⟨(locks_backed_iff paymentCrypto _ ?_).mpr ?_, by decide +kernel⟩
  · exact ⟨trivial, trivial, trivial, trivial, trivial, trivial, trivial, trivial⟩
  · refine ⟨?_, trivial, trivial, trivial, trivial, trivial, trivial, trivial⟩
    intro _ _ hrefused
    have htaken : empty.AcceptToMemoryPool (lockEnv true) payment = true := by decide +kernel
    exact absurd (htaken.symm.trans hrefused) (by simp)

theorem refused_request_locks :
    ¬ (∀ (C : Crypto) (events : List SwiftEvent),
      Run.Throughout (swiftStep C) Backed empty events) ∧
      (swiftStep paymentCrypto empty (.ix (lockEnv false) payment)).mapLockedInputs ⟨5, 0⟩ =
        some 170 ∧
      (swiftStep paymentCrypto empty (.ix (lockEnv false) payment)).heldVotes 170 = [] := by
  have hlocked : (swiftStep paymentCrypto empty (.ix (lockEnv false) payment)).mapLockedInputs
      ⟨5, 0⟩ = some 170 := by decide +kernel
  have hvotes : (swiftStep paymentCrypto empty (.ix (lockEnv false) payment)).heldVotes
    170 = [] := by
    decide +kernel
  refine ⟨?_, hlocked, hvotes⟩
  intro hall
  obtain ⟨-, n, votes, htally, -, hsigners⟩ := hall paymentCrypto [.ix (lockEnv false) payment] _
    (List.prefix_refl _) ⟨5, 0⟩ 170 hlocked
  have hnil : votes = [] := by
    exact (congrArg (Option.elim · [] Prod.snd) htally).symm
  subst hnil
  exact absurd hsigners (by simp [signers, SWIFTTX_SIGNATURES_REQUIRED])

end SwiftTX
end Divitae
