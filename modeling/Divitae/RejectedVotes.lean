/-
# `RejectedVotes` — what a rejected vote leaves behind

Two runs over the same later events, one after a rejected `fnw` and one without it, are
compared by their counted votes.  A message can be turned away at several places:

    before `CanVote`            the state is the one before
    by `CanVote`                the state is the one before
    after `CanVote`             the height is remembered for the voter's key

`CanVote` answers and remembers in one call, and the signature is looked at behind it.  So
whoever sends an unsigned triple in a prosperitynode's name makes its own vote for that
height "already voted" (`silenced`).  All the message touches is one key of
`mapProsperitynodesLastVote`: votes under the other keys fare as without it
(`AgreeBut.run`).
-/
import Divitae.WinnerRuns

namespace Divitae

open Function

/-- Under some public key every text has a signature: what a key pair is. -/
def Crypto.CanSign (C : Crypto) : Prop :=
  ∃ pub, ∀ strMessage, ∃ sig, C.VerifyMessage pub sig strMessage = true

namespace CProsperitynodePayments

variable {C : Crypto} {T : Texts} {s s' : CProsperitynodePayments} {env : PaymentEnv}
  {nVersion : Int} {w : CProsperitynodePaymentWinner}

def Rejected (C : Crypto) (T : Texts) (env : PaymentEnv) (s : CProsperitynodePayments)
    (nVersion : Int) (w : CProsperitynodePaymentWinner) : Prop :=
  ¬ (Remembered C env s nVersion w ∧ Genuine C T env w)

theorem ProcessWinner_of_not_remembered (h : ¬ Remembered C env s nVersion w) :
    s.ProcessWinner C T env nVersion w = s := by
  rcases ProcessWinner_ends C T env s nVersion w with ⟨-, heq⟩ | ⟨hr, -⟩ | ⟨hr, -⟩
  · exact heq
  · exact absurd hr h
  · exact absurd hr h

theorem ProcessWinner_of_remembered (h : Remembered C env s nVersion w)
    (hrej : Rejected C T env s nVersion w) :
    s.ProcessWinner C T env nVersion w = s.remember w := by
  rcases ProcessWinner_ends C T env s nVersion w with ⟨hr, -⟩ | ⟨-, -, heq⟩ | ⟨hr, hg, -⟩
  · exact absurd h hr
  · exact heq
  · exact absurd ⟨hr, hg⟩ hrej

theorem ProcessWinner_of_genuine (h : Remembered C env s nVersion w) (hg : Genuine C T env w) :
    s.ProcessWinner C T env nVersion w = (s.remember w).add C w := by
  rcases ProcessWinner_ends C T env s nVersion w with ⟨hr, -⟩ | ⟨-, hno, -⟩ | ⟨-, -, heq⟩
  · exact absurd h hr
  · exact absurd hg hno
  · exact heq

/-! ## The other voters -/

/-- The states differ at most in the height remembered under one key. -/
structure AgreeBut (k : uint256) (s s' : CProsperitynodePayments) : Prop where
  same : SameVotes s s'
  last : s'.nLastBlockHeight = s.nLastBlockHeight
  others : ∀ k', k' ≠ k → s'.mapProsperitynodesLastVote k' = s.mapProsperitynodesLastVote k'

/-- The event is a vote under the key. -/
def VoteUnder (k : uint256) : WinnerEvent → Prop
  | .fnw _ _ w => voteKey w.vinProsperitynode.prevout = k
  | _ => False

variable {k : uint256}

theorem AgreeBut.seenVote (h : AgreeBut k s s') (hash : uint256) :
    s'.seenVote hash = s.seenVote hash := by
  show List.any _ _ = List.any _ _
  rw [h.same.1]

theorem AgreeBut.remembered (h : AgreeBut k s s')
    (hk : voteKey w.vinProsperitynode.prevout ≠ k) :
    Remembered C env s' nVersion w ↔ Remembered C env s nVersion w := by
  have hlast : s'.lastVote w.vinProsperitynode.prevout = s.lastVote w.vinProsperitynode.prevout :=
    h.others _ hk
  constructor
  · rintro ⟨h₁, h₂, h₃, h₄, h₅, h₆, h₇⟩
    exact ⟨h₁, h₂, h₃, h₄, (h.seenVote _).symm.trans h₅, h₆, hlast ▸ h₇⟩
  · rintro ⟨h₁, h₂, h₃, h₄, h₅, h₆, h₇⟩
    exact ⟨h₁, h₂, h₃, h₄, (h.seenVote _).trans h₅, h₆, hlast ▸ h₇⟩

theorem agreeBut_remember (s : CProsperitynodePayments) (w : CProsperitynodePaymentWinner) :
    AgreeBut (voteKey w.vinProsperitynode.prevout) s (s.remember w) :=
  ⟨⟨rfl, rfl⟩, rfl, fun _ hk => update_of_ne hk _ _⟩

theorem AgreeBut.remember (h : AgreeBut k s s') :
    AgreeBut k (s.remember w) (s'.remember w) := by
  refine ⟨h.same, h.last, ?_⟩
  intro k' hk'
  show Function.update _ _ _ k' = Function.update _ _ _ k'
  by_cases hw : k' = voteKey w.vinProsperitynode.prevout
  · rw [hw, update_self, update_self]
  · rw [update_of_ne hw, update_of_ne hw]
    exact h.others k' hk'

theorem AgreeBut.add (h : AgreeBut k s s') : AgreeBut k (s.add C w) (s'.add C w) := by
  obtain ⟨⟨hvotes, hblocks⟩, hlast, hothers⟩ := h
  refine ⟨⟨?_, ?_⟩, hlast, hothers⟩
  · show _ :: _ = _ :: _
    rw [hvotes]
  · show Function.update _ _ _ = Function.update _ _ _
    rw [hblocks]

theorem AgreeBut.processWinner (h : AgreeBut k s s')
    (hk : voteKey w.vinProsperitynode.prevout ≠ k) :
    AgreeBut k (s.ProcessWinner C T env nVersion w) (s'.ProcessWinner C T env nVersion w) := by
  rcases ProcessWinner_ends C T env s nVersion w with ⟨hr, heq⟩ | ⟨hr, hg, heq⟩ | ⟨hr, hg, heq⟩
  · rw [heq, ProcessWinner_of_not_remembered (mt (h.remembered hk).mp hr)]
    exact h
  · rw [heq, ProcessWinner_of_remembered ((h.remembered hk).mpr hr) fun hc => hg hc.2]
    exact h.remember
  · rw [heq, ProcessWinner_of_genuine ((h.remembered hk).mpr hr) hg]
    exact h.remember.add

theorem AgreeBut.processBlock {nBlockHeight : Int} (h : AgreeBut k s s') :
    AgreeBut k (s.ProcessBlock C T env nBlockHeight) (s'.ProcessBlock C T env nBlockHeight) := by
  rw [ProcessBlock, ProcessBlock]
  dsimp only
  rw [h.last]
  split_ifs
  · exact h
  · exact h
  · exact h
  · exact h
  · cases newWinner C T env nBlockHeight with
    | none => exact h
    | some v =>
      dsimp only
      rw [AddWinningProsperitynode_eq, AddWinningProsperitynode_eq, h.seenVote]
      cases ((env.blockHash (v.nBlockHeight - 100)).isSome && !s.seenVote (v.GetHash C)) with
      | true => exact ⟨h.add.same, rfl, h.others⟩
      | false => exact h

theorem AgreeBut.clean (h : AgreeBut k s s') :
    AgreeBut k (s.CleanPaymentList env) (s'.CleanPaymentList env) := by
  rw [CleanPaymentList, CleanPaymentList]
  cases env.tipHeight with
  | none => exact h
  | some nHeight =>
    refine ⟨⟨?_, ?_⟩, h.last, h.others⟩
    · dsimp only
      rw [h.same.1]
    · dsimp only
      rw [h.same.1, h.same.2]

theorem AgreeBut.step {e : WinnerEvent} (h : AgreeBut k s s')
    (he : ¬ VoteUnder k e) : AgreeBut k (winnerStep C T s e) (winnerStep C T s' e) := by
  cases e with
  | fnw env nVersion w => exact h.processWinner he
  | newBlock env nBlockHeight => exact h.processBlock
  | cleanUp env => exact h.clean
  | restart => exact ⟨h.same, rfl, fun _ _ => rfl⟩

theorem AgreeBut.run (later : List WinnerEvent) :
    ∀ {s s' : CProsperitynodePayments}, AgreeBut k s s' → (∀ e ∈ later, ¬ VoteUnder k e) →
      AgreeBut k (later.foldl (winnerStep C T) s) (later.foldl (winnerStep C T) s') := by
  induction later with
  | nil =>
    intro s s' h _
    exact h
  | cons e later ih =>
    intro s s' h hlater
    exact ih (h.step (hlater e List.mem_cons_self)) fun e' he' =>
      hlater e' (List.mem_cons_of_mem e he')

/-! ## The voter itself -/

/-- So late that no stored vote is kept. -/
def farTip (votes : List (uint256 × CProsperitynodePaymentWinner)) (nLimit : Int) : Int :=
  votes.foldr (fun v n => max (v.2.nBlockHeight + nLimit + 1) n) 0

theorem farTip_le {votes : List (uint256 × CProsperitynodePaymentWinner)} (nLimit : Int)
    {v : uint256 × CProsperitynodePaymentWinner} (hv : v ∈ votes) :
    v.2.nBlockHeight + nLimit + 1 ≤ farTip votes nLimit := by
  induction votes with
  | nil => simp at hv
  | cons u rest ih =>
    rcases List.mem_cons.mp hv with rfl | hrest
    · exact le_max_left _ _
    · exact le_max_of_le_right (ih hrest)

theorem clean_all (env : PaymentEnv) (s : CProsperitynodePayments) :
    ∃ env' : PaymentEnv, ∀ s' : CProsperitynodePayments, SameVotes s s' →
      (s'.CleanPaymentList env').mapProsperitynodePayeeVotes = [] ∧
        (s'.CleanPaymentList env').mapProsperitynodesLastVote = s'.mapProsperitynodesLastVote := by
  let nLimit : Int := max (env.nodes.vProsperitynodes.length * 5 / 4 : Nat) 1000
  refine ⟨{ env with tipHeight := some (farTip s.mapProsperitynodePayeeVotes nLimit) }, ?_⟩
  intro s' hsame
  refine ⟨?_, rfl⟩
  show List.filter _ s'.mapProsperitynodePayeeVotes = []
  rw [hsame.1, List.filter_eq_nil_iff]
  intro v hv
  have hfar := farTip_le nLimit hv
  have hold : farTip s.mapProsperitynodePayeeVotes nLimit - v.2.nBlockHeight > nLimit := by omega
  show ¬ (!decide (_ > nLimit)) = true
  rw [decide_eq_true hold]
  exact Bool.false_ne_true

theorem nFirstBlock_le (env : PaymentEnv) (nHeight : Int) : env.nFirstBlock nHeight ≤ nHeight := by
  have hle : 4 * nHeight - 5 * (env.nodes.CountEnabled env.toNodeEnv env.minProto : Int) ≤
      nHeight * 4 := by omega
  calc env.nFirstBlock nHeight ≤ (nHeight * 4).tdiv 4 := Int.tdiv_le_tdiv (by decide) hle
    _ = nHeight := Int.mul_tdiv_cancel nHeight (by decide)

section
variable (hsign : C.CanSign) (h : Remembered C env s nVersion w)
include hsign h

theorem own_vote :
    ∃ (env' : PaymentEnv) (v : CProsperitynodePaymentWinner),
      v.vinProsperitynode = w.vinProsperitynode ∧ v.nBlockHeight = w.nBlockHeight ∧
        Genuine C T env' v ∧
        ∀ s' : CProsperitynodePayments, s'.mapProsperitynodePayeeVotes = [] →
          s'.lastVote w.vinProsperitynode.prevout ≠ some w.nBlockHeight →
            Remembered C env' s' nVersion v := by
  obtain ⟨pub, hpub⟩ := hsign
  obtain ⟨sig, hsig⟩ := hpub (w.strMessage T)
  have hvalid := h.valid
  rw [CProsperitynodePaymentWinner.IsValid] at hvalid
  cases hfind : env.nodes.Find w.vinProsperitynode with
  | none => simp [hfind] at hvalid
  | some pmn =>
    have hvin : (pmn.vin.prevout == w.vinProsperitynode.prevout) = true :=
      List.find?_some (p := fun mn : CProsperitynode =>
        mn.vin.prevout == w.vinProsperitynode.prevout) hfind
    let pmn' : CProsperitynode := { pmn with pubKeyProsperitynode := pub }
    let env' : PaymentEnv :=
      { env with
        nodes := { env.nodes with vProsperitynodes := [pmn'] }
        tipHeight := some w.nBlockHeight
        blockHash := fun _ => some 0 }
    have hfind' : env'.nodes.Find w.vinProsperitynode = some pmn' := List.find?_cons_of_pos hvin
    refine ⟨env', { w with vchSig := sig }, rfl, rfl, ⟨?_, rfl⟩, ?_⟩
    · unfold CProsperitynodePaymentWinner.SignatureValid
      rw [hfind']
      exact hsig
    · intro s' hempty hlast
      refine ⟨h.synced, h.notLite, h.version, ⟨w.nBlockHeight, rfl, nFirstBlock_le env' _, ?_⟩,
        ?_, ?_, hlast⟩
      · show w.nBlockHeight ≤ w.nBlockHeight + 20
        omega
      · show List.any _ _ = false
        rw [hempty]
        rfl
      · rw [CProsperitynodePaymentWinner.IsValid]
        rw [hfind']
        simpa only [hfind] using hvalid

/-- **Silenced.**  After a message that was remembered and not counted, the votes are cleaned
up and the node votes for that height: without the message it is counted, with it not. -/
theorem silenced :
    ∃ later : List WinnerEvent,
      ¬ SameVotes (later.foldl (winnerStep C T) s)
        (later.foldl (winnerStep C T) (s.remember w)) := by
  obtain ⟨far, hfar⟩ := clean_all env s
  obtain ⟨env', v, hvin, hheight, hgenuine, hcounts⟩ := own_vote (T := T) hsign h
  refine ⟨[.cleanUp far, .fnw env' nVersion v], ?_⟩
  show ¬ SameVotes ((s.CleanPaymentList far).ProcessWinner C T env' nVersion v)
    (((s.remember w).CleanPaymentList far).ProcessWinner C T env' nVersion v)
  obtain ⟨hempty, hlast⟩ := hfar s ⟨rfl, rfl⟩
  obtain ⟨hempty', hlast'⟩ := hfar (s.remember w) ⟨rfl, rfl⟩
  -- without the message: counted
  have hcount : Remembered C env' (s.CleanPaymentList far) nVersion v := by
    refine hcounts _ hempty ?_
    rw [lastVote, hlast]
    exact h.other
  -- with it: already voted
  have hrefuse : ¬ Remembered C env' ((s.remember w).CleanPaymentList far) nVersion v := by
    intro hr
    refine hr.other ?_
    rw [lastVote, hlast', hvin, hheight]
    exact update_self _ _ _
  rw [ProcessWinner_of_genuine hcount hgenuine, ProcessWinner_of_not_remembered hrefuse]
  rintro ⟨hvotes, -⟩
  rw [hempty'] at hvotes
  exact List.cons_ne_nil _ _ hvotes.symm

end

/-- **Rejected votes and the later ones.**  A rejected vote changes the outcome of no later
run exactly when it was turned away before its height was remembered; and it never changes
the outcome of a run without votes under its key. -/
theorem rejected_vote_harmless_iff (C : Crypto) (T : Texts) (hsign : C.CanSign)
    (s : CProsperitynodePayments) (env : PaymentEnv) (nVersion : Int)
    (w : CProsperitynodePaymentWinner) (hrej : Rejected C T env s nVersion w) :
    ((∀ later : List WinnerEvent,
        SameVotes (later.foldl (winnerStep C T) s)
          ((WinnerEvent.fnw env nVersion w :: later).foldl (winnerStep C T) s)) ↔
      ¬ Remembered C env s nVersion w) ∧
    ∀ later : List WinnerEvent,
      (∀ e ∈ later, ¬ VoteUnder (voteKey w.vinProsperitynode.prevout) e) →
        SameVotes (later.foldl (winnerStep C T) s)
          ((WinnerEvent.fnw env nVersion w :: later).foldl (winnerStep C T) s) := by
  have hcons : ∀ later : List WinnerEvent,
      (WinnerEvent.fnw env nVersion w :: later).foldl (winnerStep C T) s =
        later.foldl (winnerStep C T) (s.ProcessWinner C T env nVersion w) := fun _ => rfl
  simp only [hcons]
  by_cases hr : Remembered C env s nVersion w
  · rw [ProcessWinner_of_remembered hr hrej]
    constructor
    · refine iff_of_false ?_ (not_not.mpr hr)
      intro hall
      obtain ⟨later, hdiff⟩ := silenced (T := T) hsign hr
      exact hdiff (hall later)
    · intro later hlater
      exact ((agreeBut_remember s w).run later hlater).same
  · rw [ProcessWinner_of_not_remembered hr]
    exact ⟨iff_of_true (fun _ => ⟨rfl, rfl⟩) hr, fun _ _ => ⟨rfl, rfl⟩⟩

/-! ## An unsigned vote, for example -/

/-- Only the empty signature verifies, under the one node key. -/
def emptySigCrypto : Crypto where
  hash256 := oneKeyCrypto.hash256
  hash160 _ := 0
  getPubKey _ := compressedKey 2
  signCompact _ _ := some []
  recoverCompact _ sig := if sig = [] then some (compressedKey 2) else none

def unsignedVote : CProsperitynodePaymentWinner := ⟨⟨⟨7, 0⟩, [], 0xFFFFFFFF⟩, 1005, [9], [1]⟩

theorem emptySigCrypto_canSign : emptySigCrypto.CanSign :=
  ⟨compressedKey 2, fun _ => ⟨[], by simp [Crypto.VerifyMessage, emptySigCrypto]⟩⟩

theorem unsignedVote_rejected :
    Rejected emptySigCrypto plainTexts votingEnv empty PROTOCOL_VERSION unsignedVote := by
  rintro ⟨-, hsig, -⟩
  exact absurd hsig (by decide +kernel)

theorem rejected_vote_harmless_other_voters :
    SameVotes (([] : List WinnerEvent).foldl (winnerStep emptySigCrypto plainTexts) empty)
      (([.fnw votingEnv PROTOCOL_VERSION unsignedVote]).foldl
        (winnerStep emptySigCrypto plainTexts) empty) :=
  (rejected_vote_harmless_iff emptySigCrypto plainTexts emptySigCrypto_canSign empty votingEnv
    PROTOCOL_VERSION unsignedVote unsignedVote_rejected).2 [] (by simp)

theorem unsigned_vote_silences :
    ¬ (∀ (C : Crypto) (T : Texts) (s : CProsperitynodePayments) (env : PaymentEnv)
        (nVersion : Int) (w : CProsperitynodePaymentWinner), Rejected C T env s nVersion w →
        ∀ later : List WinnerEvent,
          SameVotes (later.foldl (winnerStep C T) s)
            ((WinnerEvent.fnw env nVersion w :: later).foldl (winnerStep C T) s)) := by
  intro hall
  obtain ⟨hvotes, -⟩ := hall emptySigCrypto plainTexts empty votingEnv PROTOCOL_VERSION unsignedVote
    unsignedVote_rejected [voteFor 1005 [1]]
  have hlen := congrArg List.length hvotes
  exact absurd hlen (by decide +kernel)

end CProsperitynodePayments

end Divitae
