/-
# `WinnerRuns` — how often one prosperitynode votes on a height

`mapProsperitynodeBlocks` holds numbers, not voters; the voters are in
`mapProsperitynodePayeeVotes`, and the numbers of a height count its entries there
(`Tallied`, whatever the run).  So "one vote each" is a property of the stored votes:
no two of one height are by one node (`OneVoteEach`).

The only guard is `CanVote`, and it compares with the *last* height the node voted at.
A node that votes for a height, then for another, then for the first again with a new
payee is counted twice there; so is one that votes again after a restart.  A run has
one vote each throughout exactly when none of its steps is such a vote.
-/
import Divitae.ProsperitynodePayments

namespace Divitae

open List

variable {C : Crypto} {T : Texts}

namespace CProsperitynodePayments

/-- The nodes behind the stored votes for a height. -/
def votersAt (s : CProsperitynodePayments) (h : Int) : List COutPoint :=
  (s.mapProsperitynodePayeeVotes.filter (·.2.nBlockHeight == h)).map (·.2.vinProsperitynode.prevout)

/-- The votes `mapProsperitynodeBlocks[h]` gives a payee. -/
def votesAt (s : CProsperitynodePayments) (h : Int) (payee : CScript) : Int :=
  match s.mapProsperitynodeBlocks h with
  | none => 0
  | some b => ((b.vecPayments.filter (·.scriptPubKey == payee)).map (·.nVotes)).sum

/-- The stored votes for a height and a payee. -/
def storedFor (s : CProsperitynodePayments) (h : Int) (payee : CScript) : Nat :=
  s.mapProsperitynodePayeeVotes.countP fun w => w.2.nBlockHeight == h && w.2.payee == payee

/-- The numbers of every height count the stored votes. -/
def Tallied (s : CProsperitynodePayments) : Prop :=
  ∀ h payee, s.votesAt h payee = s.storedFor h payee

/-- Each node has at most one vote among those counted for a height. -/
def OneVoteEach (s : CProsperitynodePayments) : Prop := ∀ h, (s.votersAt h).Nodup

def add (C : Crypto) (s : CProsperitynodePayments) (w : CProsperitynodePaymentWinner) :
    CProsperitynodePayments :=
  { s with
    mapProsperitynodePayeeVotes := (w.GetHash C, w) :: s.mapProsperitynodePayeeVotes
    mapProsperitynodeBlocks :=
      Function.update s.mapProsperitynodeBlocks w.nBlockHeight
        (some (((s.mapProsperitynodeBlocks w.nBlockHeight).getD ⟨w.nBlockHeight, []⟩).AddPayee
          w.payee 1)) }

/-- Two states with the same counted votes. -/
def SameVotes (s s' : CProsperitynodePayments) : Prop :=
  s'.mapProsperitynodePayeeVotes = s.mapProsperitynodePayeeVotes ∧
    s'.mapProsperitynodeBlocks = s.mapProsperitynodeBlocks

section
variable {s s' : CProsperitynodePayments} {env : PaymentEnv} {w : CProsperitynodePaymentWinner}

theorem SameVotes.tallied (h : SameVotes s s') (ht : s.Tallied) : s'.Tallied := by
  intro k payee
  have := ht k payee
  simpa only [votesAt, storedFor, h.1, h.2] using this

theorem SameVotes.oneVoteEach (h : SameVotes s s') : s'.OneVoteEach ↔ s.OneVoteEach := by
  simp only [OneVoteEach, votersAt, h.1]

/-! ## Counting one vote -/

theorem votes_addVotes (payeeIn payee : CScript) (l : List CProsperitynodePayee) :
    (((addVotes payeeIn 1 l).filter (·.scriptPubKey == payee)).map (·.nVotes)).sum =
      ((l.filter (·.scriptPubKey == payee)).map (·.nVotes)).sum +
        if payeeIn = payee then 1 else 0 := by
  induction l with
  | nil =>
    by_cases h : payeeIn = payee
    · simp [addVotes, h]
    · simp [addVotes, h]
  | cons p rest ih =>
    by_cases hp : p.scriptPubKey = payeeIn
    · simp only [addVotes, hp, if_true, filter_cons]
      by_cases h : payeeIn = payee
      · simp [h, add_right_comm]
      · simp [h]
    · simp only [addVotes, hp, if_false, filter_cons]
      by_cases h : p.scriptPubKey = payee
      · simp [h, ih, add_assoc]
      · simp [h, ih]

theorem votesAt_add (h : Int) (payee : CScript) :
    (s.add C w).votesAt h payee =
      s.votesAt h payee + if w.nBlockHeight = h ∧ w.payee = payee then 1 else 0 := by
  by_cases hh : w.nBlockHeight = h
  · subst hh
    simp only [votesAt, add, Function.update_self, CProsperitynodeBlockPayees.AddPayee,
      votes_addVotes, true_and]
    cases s.mapProsperitynodeBlocks w.nBlockHeight with
    | none => simp
    | some b => simp
  · have hne : h ≠ w.nBlockHeight := Ne.symm hh
    simp [votesAt, add, Function.update_of_ne hne, hh]

theorem storedFor_add (h : Int) (payee : CScript) :
    (s.add C w).storedFor h payee =
      s.storedFor h payee + if w.nBlockHeight = h ∧ w.payee = payee then 1 else 0 := by
  simp only [storedFor, add, countP_cons, Bool.and_eq_true, beq_iff_eq]

theorem Tallied.add (ht : s.Tallied) : (s.add C w).Tallied := by
  intro h payee
  rw [votesAt_add, storedFor_add, ht h payee]
  split_ifs <;> simp

theorem votersAt_add (h : Int) :
    (s.add C w).votersAt h =
      if w.nBlockHeight = h then w.vinProsperitynode.prevout :: s.votersAt h
      else s.votersAt h := by
  by_cases hh : w.nBlockHeight = h
  · simp [votersAt, CProsperitynodePayments.add, hh]
  · simp [votersAt, CProsperitynodePayments.add, hh]

theorem oneVoteEach_add (hs : s.OneVoteEach) :
    (s.add C w).OneVoteEach ↔ w.vinProsperitynode.prevout ∉ s.votersAt w.nBlockHeight := by
  constructor
  · intro h
    have hnodup := h w.nBlockHeight
    rw [votersAt_add, if_pos rfl] at hnodup
    exact (nodup_cons.mp hnodup).1
  · intro hnew h
    rw [votersAt_add]
    split_ifs with hh
    · subst hh
      exact nodup_cons.mpr ⟨hnew, hs w.nBlockHeight⟩
    · exact hs h

/-! ## The steps -/

theorem AddWinningProsperitynode_eq (C : Crypto) (env : PaymentEnv) (s : CProsperitynodePayments)
    (w : CProsperitynodePaymentWinner) :
    s.AddWinningProsperitynode C env w =
      if (env.blockHash (w.nBlockHeight - 100)).isSome && !s.seenVote (w.GetHash C) then
        (s.add C w, true)
      else (s, false) := by
  unfold AddWinningProsperitynode
  cases hb : env.blockHash (w.nBlockHeight - 100) with
  | none => simp
  | some hash =>
    by_cases hseen : s.seenVote (w.GetHash C)
    · simp [hseen]
    · simp [hseen, CProsperitynodePayments.add]

/-- A received vote passes every check but `CanVote`. -/
def Acceptable (C : Crypto) (T : Texts) (env : PaymentEnv) (s : CProsperitynodePayments)
    (nVersion : Int) (w : CProsperitynodePaymentWinner) : Prop :=
  env.isBlockchainSynced = true ∧ env.fLiteMode = false ∧ env.activeProtocol ≤ nVersion ∧
    (∃ nHeight, env.tipHeight = some nHeight ∧ env.nFirstBlock nHeight ≤ w.nBlockHeight ∧
      w.nBlockHeight ≤ nHeight + 20) ∧
    s.seenVote (w.GetHash C) = false ∧ w.IsValid env = true ∧ w.SignatureValid C T env = true ∧
    (env.blockHash (w.nBlockHeight - 100)).isSome = true

/-- The last height remembered for the key of an outpoint. -/
def lastVote (s : CProsperitynodePayments) (o : COutPoint) : Option Int :=
  s.mapProsperitynodesLastVote (voteKey o)

/-- The message gets as far as `CanVote`, and `CanVote` answers yes. -/
structure Remembered (C : Crypto) (env : PaymentEnv) (s : CProsperitynodePayments)
    (nVersion : Int) (w : CProsperitynodePaymentWinner) : Prop where
  synced : env.isBlockchainSynced = true
  notLite : env.fLiteMode = false
  version : env.activeProtocol ≤ nVersion
  window : ∃ nHeight, env.tipHeight = some nHeight ∧ env.nFirstBlock nHeight ≤ w.nBlockHeight ∧
    w.nBlockHeight ≤ nHeight + 20
  unseen : s.seenVote (w.GetHash C) = false
  valid : w.IsValid env = true
  other : s.lastVote w.vinProsperitynode.prevout ≠ some w.nBlockHeight

/-- What is left of a message after `CanVote`: a signature and a known block. -/
def Genuine (C : Crypto) (T : Texts) (env : PaymentEnv) (w : CProsperitynodePaymentWinner) :
    Prop :=
  w.SignatureValid C T env = true ∧ (env.blockHash (w.nBlockHeight - 100)).isSome = true

/-- The state once `CanVote` has answered yes. -/
def remember (s : CProsperitynodePayments) (w : CProsperitynodePaymentWinner) :
    CProsperitynodePayments :=
  { s with
    mapProsperitynodesLastVote :=
      Function.update s.mapProsperitynodesLastVote (voteKey w.vinProsperitynode.prevout)
        (some w.nBlockHeight) }

theorem CanVote_of_ne (h : s.lastVote w.vinProsperitynode.prevout ≠ some w.nBlockHeight) :
    s.CanVote w.vinProsperitynode.prevout w.nBlockHeight = (s.remember w, true) :=
  if_neg h

/-- **The three ends of a message**: nothing, a height remembered, a vote counted. -/
theorem ProcessWinner_ends (C : Crypto) (T : Texts) (env : PaymentEnv)
    (s : CProsperitynodePayments) (nVersion : Int) (w : CProsperitynodePaymentWinner) :
    (¬ Remembered C env s nVersion w ∧ s.ProcessWinner C T env nVersion w = s) ∨
      (Remembered C env s nVersion w ∧ ¬ Genuine C T env w ∧
        s.ProcessWinner C T env nVersion w = s.remember w) ∨
      (Remembered C env s nVersion w ∧ Genuine C T env w ∧
        s.ProcessWinner C T env nVersion w = (s.remember w).add C w) := by
  rw [ProcessWinner]
  by_cases hsync : env.isBlockchainSynced = true
  case neg => exact .inl ⟨fun h => hsync h.synced, if_pos (by simpa using hsync)⟩
  rw [if_neg (by simpa using hsync)]
  by_cases hlite : env.fLiteMode = true
  case pos => exact .inl ⟨fun h => Bool.noConfusion (hlite.symm.trans h.notLite), if_pos hlite⟩
  rw [if_neg hlite]
  by_cases hversion : nVersion < env.activeProtocol
  case pos => exact .inl ⟨fun h => absurd hversion (not_lt.mpr h.version), if_pos hversion⟩
  rw [if_neg hversion]
  cases htip : env.tipHeight with
  | none => exact .inl ⟨fun ⟨_, _, _, ⟨_, h, _⟩, _, _, _⟩ => by simp [htip] at h, rfl⟩
  | some nHeight =>
    dsimp only
    by_cases hseen : s.seenVote (w.GetHash C) = true
    case pos => exact .inl ⟨fun h => Bool.noConfusion (hseen.symm.trans h.unseen), if_pos hseen⟩
    rw [if_neg hseen]
    by_cases hrange : w.nBlockHeight < env.nFirstBlock nHeight ∨ w.nBlockHeight > nHeight + 20
    case pos =>
      refine .inl ⟨fun h => ?_, if_pos hrange⟩
      obtain ⟨n, hn, hlow, hhigh⟩ := h.window
      obtain rfl : nHeight = n := Option.some.inj (htip.symm.trans hn)
      omega
    rw [if_neg hrange]
    by_cases hvalid : w.IsValid env = true
    case neg => exact .inl ⟨fun h => hvalid h.valid, if_pos (by simpa using hvalid)⟩
    rw [if_neg (by simpa using hvalid)]
    by_cases hlast : s.lastVote w.vinProsperitynode.prevout = some w.nBlockHeight
    case pos =>
      have hcan : s.CanVote w.vinProsperitynode.prevout w.nBlockHeight = (s, false) := if_pos hlast
      rw [hcan]
      exact .inl ⟨fun h => h.other hlast, rfl⟩
    have hrem : Remembered C env s nVersion w :=
      ⟨hsync, by simpa using hlite, not_lt.mp hversion,
        ⟨nHeight, htip, by omega, by omega⟩, Bool.eq_false_iff.mpr hseen, hvalid, hlast⟩
    rw [CanVote_of_ne hlast]
    rw [if_neg (by simp)]
    by_cases hsig : w.SignatureValid C T env = true
    case neg =>
      exact .inr (.inl ⟨hrem, fun h => hsig h.1, if_pos (by simpa using hsig)⟩)
    rw [if_neg (by simpa using hsig), AddWinningProsperitynode_eq]
    have hunseen : (s.remember w).seenVote (w.GetHash C) = false := hrem.unseen
    by_cases hblock : (env.blockHash (w.nBlockHeight - 100)).isSome = true
    · exact .inr (.inr ⟨hrem, ⟨hsig, hblock⟩, by rw [if_pos (by simp [hblock, hunseen])]⟩)
    · exact .inr (.inl ⟨hrem, fun h => hblock h.2, by rw [if_neg (by simp [hblock])]⟩)

theorem ProcessWinner_cases (C : Crypto) (T : Texts) (env : PaymentEnv)
    (s : CProsperitynodePayments) (nVersion : Int) (w : CProsperitynodePaymentWinner) :
    (Acceptable C T env s nVersion w ∧
        s.lastVote w.vinProsperitynode.prevout ≠ some w.nBlockHeight ∧
        SameVotes (s.add C w) (s.ProcessWinner C T env nVersion w)) ∨
      (¬ (Acceptable C T env s nVersion w ∧
          s.lastVote w.vinProsperitynode.prevout ≠ some w.nBlockHeight) ∧
        SameVotes s (s.ProcessWinner C T env nVersion w)) := by
  rcases ProcessWinner_ends C T env s nVersion w with ⟨hr, heq⟩ | ⟨hr, hg, heq⟩ | ⟨hr, hg, heq⟩
  · rw [heq]
    refine .inr ⟨fun h => hr ?_, rfl, rfl⟩
    obtain ⟨⟨hsync, hlite, hversion, hwindow, hseen, hvalid, -⟩, hlast⟩ := h
    exact ⟨hsync, hlite, hversion, hwindow, hseen, hvalid, hlast⟩
  · rw [heq]
    exact .inr ⟨fun h => hg h.1.2.2.2.2.2.2, rfl, rfl⟩
  · rw [heq]
    exact .inl ⟨⟨hr.synced, hr.notLite, hr.version, hr.window, hr.unseen, hr.valid, hg⟩, hr.other,
      rfl, rfl⟩

/-- The vote this node casts for a height, when `ProcessBlock` gets as far as counting it. -/
def OwnVote (C : Crypto) (T : Texts) (env : PaymentEnv) (s : CProsperitynodePayments)
    (nBlockHeight : Int) (w : CProsperitynodePaymentWinner) : Prop :=
  env.fFundamentalNode = true ∧
    env.rank env.activeTxIn (nBlockHeight - 100) env.activeProtocol ≠ -1 ∧
    env.rank env.activeTxIn (nBlockHeight - 100) env.activeProtocol ≤ MNPAYMENTS_SIGNATURES_TOTAL ∧
    s.nLastBlockHeight < nBlockHeight ∧ newWinner C T env nBlockHeight = some w ∧
    (env.blockHash (w.nBlockHeight - 100)).isSome = true ∧ s.seenVote (w.GetHash C) = false

theorem ProcessBlock_cases (C : Crypto) (T : Texts) (env : PaymentEnv)
    (s : CProsperitynodePayments) (nBlockHeight : Int) :
    (∃ w, OwnVote C T env s nBlockHeight w ∧
        SameVotes (s.add C w) (s.ProcessBlock C T env nBlockHeight)) ∨
      ((¬ ∃ w, OwnVote C T env s nBlockHeight w) ∧
        SameVotes s (s.ProcessBlock C T env nBlockHeight)) := by
  have same : SameVotes s s := ⟨rfl, rfl⟩
  rw [ProcessBlock]
  by_cases hnode : env.fFundamentalNode = true
  case neg =>
    rw [if_pos (by simpa using hnode)]
    exact .inr ⟨fun ⟨_, h⟩ => hnode h.1, same⟩
  rw [if_neg (by simpa using hnode)]
  by_cases hunknown : env.rank env.activeTxIn (nBlockHeight - 100) env.activeProtocol = -1
  case pos =>
    rw [if_pos hunknown]
    exact .inr ⟨fun ⟨_, h⟩ => h.2.1 hunknown, same⟩
  rw [if_neg hunknown]
  by_cases hrank : env.rank env.activeTxIn (nBlockHeight - 100) env.activeProtocol >
      MNPAYMENTS_SIGNATURES_TOTAL
  case pos =>
    rw [if_pos hrank]
    exact .inr ⟨fun ⟨_, h⟩ => absurd h.2.2.1 (not_le.mpr hrank), same⟩
  rw [if_neg hrank]
  by_cases hlast : nBlockHeight ≤ s.nLastBlockHeight
  case pos =>
    rw [if_pos hlast]
    exact .inr ⟨fun ⟨_, h⟩ => absurd h.2.2.2.1 (not_lt.mpr hlast), same⟩
  rw [if_neg hlast]
  cases hw : newWinner C T env nBlockHeight with
  | none => exact .inr ⟨fun ⟨_, h⟩ => by simp [OwnVote, hw] at h, same⟩
  | some w =>
    dsimp only
    rw [AddWinningProsperitynode_eq]
    by_cases hadd : ((env.blockHash (w.nBlockHeight - 100)).isSome &&
        !s.seenVote (w.GetHash C)) = true
    · rw [if_pos hadd]
      simp only [Bool.and_eq_true, Bool.not_eq_true'] at hadd
      exact .inl ⟨w, ⟨hnode, hunknown, not_lt.mp hrank, not_le.mp hlast, hw, hadd⟩, rfl, rfl⟩
    · rw [if_neg hadd]
      refine .inr ⟨?_, same⟩
      rintro ⟨v, h⟩
      obtain ⟨-, -, -, -, hv, hblock, hseen⟩ := h
      obtain rfl : w = v := Option.some.inj (hw.symm.trans hv)
      simp [hblock, hseen] at hadd

theorem OwnVote.unique {nBlockHeight : Int} {v : CProsperitynodePaymentWinner}
    (hw : OwnVote C T env s nBlockHeight w) (hv : OwnVote C T env s nBlockHeight v) : w = v :=
  Option.some.inj (hw.2.2.2.2.1.symm.trans hv.2.2.2.2.1)

theorem CleanPaymentList_votes (env : PaymentEnv) (s : CProsperitynodePayments) :
    ∃ old : Int → Bool,
      (s.CleanPaymentList env).mapProsperitynodePayeeVotes =
          s.mapProsperitynodePayeeVotes.filter (fun w => !old w.2.nBlockHeight) ∧
        (s.CleanPaymentList env).mapProsperitynodeBlocks = fun h =>
          if s.mapProsperitynodePayeeVotes.any fun w =>
            old w.2.nBlockHeight && w.2.nBlockHeight == h then none
          else s.mapProsperitynodeBlocks h := by
  unfold CleanPaymentList
  cases env.tipHeight with
  | none => exact ⟨fun _ => false, by simp, by simp⟩
  | some nHeight => exact ⟨fun h => nHeight - h > _, rfl, rfl⟩

theorem Tallied.clean (ht : s.Tallied) : (s.CleanPaymentList env).Tallied := by
  obtain ⟨old, hvotes, hblocks⟩ := CleanPaymentList_votes env s
  intro h payee
  rw [storedFor, votesAt, hvotes, hblocks, countP_filter]
  dsimp only
  split_ifs with hdrop
  · obtain ⟨w, -, hw⟩ := any_eq_true.mp hdrop
    simp only [Bool.and_eq_true, beq_iff_eq] at hw
    obtain ⟨hold, rfl⟩ := hw
    have hnone : s.mapProsperitynodePayeeVotes.countP (fun v =>
        (v.2.nBlockHeight == w.2.nBlockHeight && v.2.payee == payee) &&
          !old v.2.nBlockHeight) = 0 := by
      rw [countP_eq_zero]
      rintro v - hv
      simp only [Bool.and_eq_true, beq_iff_eq, Bool.not_eq_true'] at hv
      rw [hv.1.1, hold] at hv
      exact Bool.noConfusion hv.2
    simp [hnone]
  · have hkeep : s.mapProsperitynodePayeeVotes.countP (fun v =>
        (v.2.nBlockHeight == h && v.2.payee == payee) && !old v.2.nBlockHeight) =
        s.storedFor h payee := by
      refine countP_congr fun v hv => ?_
      simp only [Bool.and_eq_true, beq_iff_eq, Bool.not_eq_true', and_iff_left_iff_imp]
      rintro ⟨rfl, -⟩
      by_contra hold
      refine hdrop (any_eq_true.mpr ⟨v, hv, ?_⟩)
      simpa using hold
    rw [hkeep]
    exact ht h payee

theorem OneVoteEach.clean (hs : s.OneVoteEach) : (s.CleanPaymentList env).OneVoteEach := by
  obtain ⟨old, hvotes, -⟩ := CleanPaymentList_votes env s
  intro h
  have hsub : (((s.CleanPaymentList env).mapProsperitynodePayeeVotes).filter
      (·.2.nBlockHeight == h)).Sublist
        (s.mapProsperitynodePayeeVotes.filter (·.2.nBlockHeight == h)) := by
    rw [hvotes]
    exact filter_sublist.filter _
  exact (hs h).sublist (hsub.map _)

theorem tallied_empty : empty.Tallied := by
  intro h payee
  rfl

theorem oneVoteEach_empty : empty.OneVoteEach := by
  intro h
  exact nodup_nil

end

theorem winnerStep_tallied (s : CProsperitynodePayments) (e : WinnerEvent) (ht : s.Tallied) :
    (winnerStep C T s e).Tallied := by
  cases e with
  | fnw env nVersion w =>
    rcases ProcessWinner_cases C T env s nVersion w with ⟨-, -, h⟩ | ⟨-, h⟩
    · exact h.tallied ht.add
    · exact h.tallied ht
  | newBlock env nBlockHeight =>
    rcases ProcessBlock_cases C T env s nBlockHeight with ⟨w, -, h⟩ | ⟨-, h⟩
    · exact h.tallied ht.add
    · exact h.tallied ht
  | cleanUp env => exact ht.clean
  | restart => exact SameVotes.tallied ⟨rfl, rfl⟩ ht

/-- The step counts no second vote of a node for a height: a received vote that would be
counted, and the vote of this node itself, is by a node without one at that height. -/
def NoSecondVote (C : Crypto) (T : Texts) (s : CProsperitynodePayments) : WinnerEvent → Prop
  | .fnw env nVersion w =>
    Acceptable C T env s nVersion w →
      s.lastVote w.vinProsperitynode.prevout ≠ some w.nBlockHeight →
        w.vinProsperitynode.prevout ∉ s.votersAt w.nBlockHeight
  | .newBlock env nBlockHeight =>
    ∀ w, OwnVote C T env s nBlockHeight w → w.vinProsperitynode.prevout ∉ s.votersAt w.nBlockHeight
  | .cleanUp _ => True
  | .restart => True

theorem winnerStep_oneVoteEach (s : CProsperitynodePayments) (e : WinnerEvent)
    (hs : s.OneVoteEach) : (winnerStep C T s e).OneVoteEach ↔ NoSecondVote C T s e := by
  cases e with
  | fnw env nVersion w =>
    rcases ProcessWinner_cases C T env s nVersion w with ⟨hok, hlast, h⟩ | ⟨hno, h⟩
    · show (s.ProcessWinner C T env nVersion w).OneVoteEach ↔ _
      rw [h.oneVoteEach, oneVoteEach_add hs]
      exact ⟨fun hnew _ _ => hnew, fun hnew => hnew hok hlast⟩
    · exact ⟨fun _ hok hlast => absurd ⟨hok, hlast⟩ hno, fun _ => h.oneVoteEach.mpr hs⟩
  | newBlock env nBlockHeight =>
    rcases ProcessBlock_cases C T env s nBlockHeight with ⟨w, hw, h⟩ | ⟨hno, h⟩
    · show (s.ProcessBlock C T env nBlockHeight).OneVoteEach ↔ _
      rw [h.oneVoteEach, oneVoteEach_add hs]
      constructor
      · intro hnew v hv
        obtain rfl := hw.unique hv
        exact hnew
      · intro hnew
        exact hnew w hw
    · exact ⟨fun _ w hw => absurd ⟨w, hw⟩ hno, fun _ => h.oneVoteEach.mpr hs⟩
  | cleanUp env => exact ⟨fun _ => trivial, fun _ => hs.clean⟩
  | restart => exact ⟨fun _ => trivial, fun _ => hs⟩

/-- **One vote each.**  In every run the numbers of `mapProsperitynodeBlocks` count stored
votes, and no node has two of them at one height throughout exactly when no step counts a
second vote. -/
theorem one_vote_each_iff (C : Crypto) (T : Texts) (events : List WinnerEvent) :
    Run.Throughout (winnerStep C T) Tallied empty events ∧
      (Run.Throughout (winnerStep C T) OneVoteEach empty events ↔
        Run.Guarded (winnerStep C T) (NoSecondVote C T) empty events) := by
  constructor
  · intro past _
    exact Run.run_inv (fun s e ht (_ : True) => winnerStep_tallied s e ht) tallied_empty
      (Run.guarded_of_forall (p := fun _ => True) fun _ _ => trivial)
  · exact Run.guarded_iff (I := fun _ => True) (fun _ _ _ => trivial)
      (fun s e _ hs => winnerStep_oneVoteEach s e hs) trivial oneVoteEach_empty

/-! ## Three votes of one node, for example -/

/-- A hash of the first bytes; every signature is by the one node key. -/
def oneKeyCrypto : Crypto where
  hash256 s := BitVec.ofNat 256 ((s.take 16).foldl (fun n b => n * 256 + b.toNat) 0)
  hash160 _ := 0
  getPubKey _ := compressedKey 2
  signCompact _ _ := some []
  recoverCompact _ _ := some (compressedKey 2)

/-- A synchronized node at height 1000 whose list holds one prosperitynode, of rank one. -/
def votingEnv : PaymentEnv where
  fLiteMode := false
  isBlockchainSynced := true
  shutdownRequested := false
  time := 1700000000
  adjustedTime := 1700000000
  minProto := PROTOCOL_VERSION
  getTransaction _ := none
  inputAge _ := 0
  blockHeight _ := none
  chainHeight := 1000
  chainTime _ := none
  lockMain := true
  fFundamentalNode := false
  activeVin := .SetNull
  activePubKey := compressedKey 2
  nodes := ⟨[.ofBroadcast (announcement 0 1600000000 [])], fun _ => none, fun _ => none⟩
  activeProtocol := PROTOCOL_VERSION
  tipHeight := some 1000
  rank _ _ _ := 1
  blockHash h := if h < 1000 then some 5 else none
  activeTxIn := ⟨.SetNull, [], 0xFFFFFFFF⟩
  isBudgetPaymentBlock _ := false
  nextInQueue _ := none
  activeKeys := none

def voteFor (nBlockHeight : Int) (payee : CScript) : WinnerEvent :=
  .fnw votingEnv PROTOCOL_VERSION ⟨⟨⟨7, 0⟩, [], 0xFFFFFFFF⟩, nBlockHeight, payee, []⟩

/-- Going to the next height and back, the node votes twice for 1005. -/
def thereAndBackVotes : List WinnerEvent := [voteFor 1005 [1], voteFor 1006 [1], voteFor 1005 [2]]

theorem node_votes_twice :
    ¬ (∀ (C : Crypto) (T : Texts) (events : List WinnerEvent),
        Run.Throughout (winnerStep C T) OneVoteEach empty events) ∧
      (thereAndBackVotes.foldl (winnerStep oneKeyCrypto plainTexts) empty).votersAt 1005 =
        [⟨7, 0⟩, ⟨7, 0⟩] := by
  have htwice : (thereAndBackVotes.foldl (winnerStep oneKeyCrypto plainTexts) empty).votersAt 1005 =
      [⟨7, 0⟩, ⟨7, 0⟩] := by decide +kernel
  refine ⟨?_, htwice⟩
  intro hall
  have hnodup := hall oneKeyCrypto plainTexts thereAndBackVotes thereAndBackVotes
    (prefix_refl _) 1005
  rw [htwice] at hnodup
  simp at hnodup

end CProsperitynodePayments

end Divitae
