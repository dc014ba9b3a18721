/-
# `ForgedVotes` — a forged copy that comes first

A budget vote is filtered by a hash that leaves its signature out, and the hash is
filed before the signature is checked.  Anybody can take a vote, spoil the signature
and send the copy: the copy is refused, but its hash, which is the hash of the genuine
vote, stays behind, and the genuine vote is then taken for a repetition.

So whether a genuine vote that the tally would take is counted depends on the messages
before it in one way only: no vote message of the same hash, signature good or bad, was
worked on while its voter was listed (`genuine_vote_counted_iff`).
-/
import Divitae.Budget

namespace Divitae

namespace VoteKind

variable {V Ω : Type} (K : VoteKind V Ω) (C : Crypto)

def HandlerOn (env : BudgetEnv) : Prop := env.fLiteMode = false ∧ env.isBlockchainSynced = true

/-- A vote by a listed node, correctly signed by its key. -/
def Genuine (env : BudgetEnv) (vote : V) : Prop :=
  HandlerOn env ∧ K.SignatureValid C env vote true = true

/-- The object of the vote is known and its tally takes the vote. -/
def Admissible (env : BudgetEnv) (s : Ballots V Ω) (vote : V) : Prop :=
  ∃ obj, s.objects.lookup (K.object vote) = some obj ∧
    (K.AddOrUpdateVote C env (K.mapVotes obj) vote).2 = true

/-- The vote is the one filed for its voter. -/
def Counted (s : Ballots V Ω) (vote : V) : Prop :=
  ∃ obj, s.objects.lookup (K.object vote) = some obj ∧
    (K.mapVotes obj).lookup (K.voter C vote) = some vote

section
variable {K} {C} {env : BudgetEnv} {s : Ballots V Ω} {vote : V}

theorem Genuine.find (h : K.Genuine C env vote) : (env.nodes.Find (K.vin vote)).isSome = true := by
  have hsig := h.2
  rw [SignatureValid] at hsig
  cases hfind : env.nodes.Find (K.vin vote) with
  | none => simp [hfind] at hsig
  | some pmn => rfl

theorem AddOrUpdateVote_eq {m : HashMap V} (h : (K.AddOrUpdateVote C env m vote).2 = true) :
    (K.AddOrUpdateVote C env m vote).1 = m.insert (K.voter C vote) vote ∧
      m.lookup (K.voter C vote) ≠ some vote := by
  rw [AddOrUpdateVote] at h ⊢
  by_cases hold : (m.lookup (K.voter C vote)).any (K.keepsOut · vote) = true
  · rw [if_pos hold] at h
    exact absurd h (by simp)
  rw [if_neg hold] at h ⊢
  constructor
  · by_cases hahead : K.nTime vote > env.time + 60 * 60
    · rw [if_pos hahead] at h
      exact absurd h (by simp)
    · rw [if_neg hahead]
  · intro hsame
    rw [hsame] at hold
    simp [keepsOut, BUDGET_VOTE_UPDATE_MIN] at hold

theorem Admissible.not_counted (h : K.Admissible C env s vote) : ¬ K.Counted C s vote := by
  obtain ⟨obj, hobj, hadd⟩ := h
  rintro ⟨obj', hobj', hfiled⟩
  obtain rfl : obj = obj' := Option.some.inj (hobj.symm.trans hobj')
  exact (AddOrUpdateVote_eq hadd).2 hfiled

theorem Update_counted (h : K.Admissible C env s vote) (pfrom : Bool) :
    K.Counted C (K.Update C env s vote pfrom).1 vote := by
  obtain ⟨obj, hobj, hadd⟩ := h
  refine ⟨K.withVotes obj (K.AddOrUpdateVote C env (K.mapVotes obj) vote).1, ?_, ?_⟩
  · rw [Update, hobj]
    exact AList.lookup_insert _
  · rw [K.mapVotes_withVotes, (AddOrUpdateVote_eq hadd).1]
    exact AList.lookup_insert _

theorem ProcessVote_counted_iff (hgen : K.Genuine C env (K.received vote))
    (hadm : K.Admissible C env s (K.received vote)) :
    K.Counted C (K.ProcessVote C env s vote) (K.received vote) ↔
      s.seenVotes (K.GetHash C (K.received vote)) = none := by
  rw [ProcessVote, if_neg (by simp [hgen.1.1]), if_neg (by simp [hgen.1.2])]
  dsimp only
  cases hseen : s.seenVotes (K.GetHash C (K.received vote)) with
  | some u =>
    exact iff_of_false hadm.not_counted (by simp)
  | none =>
    rw [if_neg (by simp)]
    obtain ⟨pmn, hfind⟩ := Option.isSome_iff_exists.mp hgen.find
    rw [hfind]
    rw [if_neg (by simp [hgen.2])]
    refine iff_of_true ?_ rfl
    have hfiled : K.Admissible C env
        { s with
          seenVotes := mapInsert s.seenVotes (K.GetHash C (K.received vote)) (K.received vote) }
        (K.received vote) := hadm
    exact Update_counted hfiled true

/-! ## What files a hash -/

/-- The message makes the handler file the hash `h`, whatever its signature. -/
def Files (K : VoteKind V Ω) (C : Crypto) (h : uint256) (env : BudgetEnv) (vote : V) : Prop :=
  HandlerOn env ∧ K.GetHash C (K.received vote) = h ∧
    (env.nodes.Find (K.vin (K.received vote))).isSome = true

theorem seen_Update (K : VoteKind V Ω) (C : Crypto) (env : BudgetEnv) (s : Ballots V Ω)
    (vote : V) (pfrom : Bool) :
    (K.Update C env s vote pfrom).1.seenVotes = s.seenVotes ∧
      (K.Update C env s vote pfrom).1.seenObjects = s.seenObjects := by
  rw [Update]
  cases s.objects.lookup (K.object vote) with
  | none =>
    split_ifs
    · exact ⟨rfl, rfl⟩
    · exact ⟨rfl, rfl⟩
  | some obj => exact ⟨rfl, rfl⟩

theorem seen_CheckOrphanVotes (s : Ballots V Ω) :
    (K.CheckOrphanVotes C env s).seenVotes = s.seenVotes ∧
      (K.CheckOrphanVotes C env s).seenObjects = s.seenObjects := by
  rw [CheckOrphanVotes]
  generalize s.orphanVotes.entries = l
  induction l generalizing s with
  | nil => exact ⟨rfl, rfl⟩
  | cons it l ih =>
    obtain ⟨hvotes, hobjects⟩ := seen_Update K C env s it.2 false
    rw [List.foldl_cons, (ih _).1, (ih _).2]
    dsimp only
    split_ifs
    · exact ⟨hvotes, hobjects⟩
    · exact ⟨hvotes, hobjects⟩

theorem seenVotes_ProcessVote (s : Ballots V Ω) (vote : V) (h : uint256) :
    (K.ProcessVote C env s vote).seenVotes h = none ↔
      s.seenVotes h = none ∧ ¬ K.Files C h env vote := by
  have kept (hno : ¬ K.Files C h env vote) :
      s.seenVotes h = none ↔ s.seenVotes h = none ∧ ¬ K.Files C h env vote := by
    simp [hno]
  rw [ProcessVote]
  by_cases hlite : env.fLiteMode = true
  · rw [if_pos hlite]
    exact kept fun hf => by simp [hf.1.1] at hlite
  rw [if_neg hlite]
  by_cases hsync : env.isBlockchainSynced = true
  case neg =>
    rw [if_pos (by simpa using hsync)]
    exact kept fun hf => hsync hf.1.2
  rw [if_neg (by simpa using hsync)]
  by_cases hseen : (s.seenVotes (K.GetHash C (K.received vote))).isSome = true
  · rw [if_pos hseen]
    constructor
    · intro hnone
      refine ⟨hnone, ?_⟩
      rintro ⟨-, rfl, -⟩
      simp [hnone] at hseen
    · intro hboth
      exact hboth.1
  rw [if_neg hseen]
  cases hfind : env.nodes.Find (K.vin (K.received vote)) with
  | none => exact kept fun hf => Bool.noConfusion (hfind ▸ hf.2.2)
  | some pmn =>
    have hon : HandlerOn env := ⟨by simpa using hlite, hsync⟩
    have hfiled : mapInsert s.seenVotes (K.GetHash C (K.received vote)) (K.received vote) h =
        none ↔ s.seenVotes h = none ∧ ¬ K.Files C h env vote := by
      rw [mapInsert, if_neg hseen]
      by_cases hh : K.GetHash C (K.received vote) = h
      · subst hh
        rw [Function.update_self]
        exact iff_of_false (by simp) fun hno => hno.2 ⟨hon, rfl, by simp [hfind]⟩
      · rw [Function.update_of_ne (Ne.symm hh)]
        exact kept fun hf => hh hf.2.1
    split_ifs
    · exact hfiled
    · rw [(seen_Update _ _ _ _ _ _).1]
      exact hfiled

end

end VoteKind

namespace CBudgetManager

variable {C : Crypto} {P : CChainParams}

/-- The event files a hash of a proposal vote. -/
def FilesVote (C : Crypto) (h : uint256) : BudgetEvent → Prop
  | .fvote env vote => CBudgetVote.kind.Files C h env vote
  | _ => False

/-- The event files a hash of a finalized budget vote. -/
def FilesBudgetVote (C : Crypto) (h : uint256) : BudgetEvent → Prop
  | .fbvote env vote => CFinalizedBudgetVote.kind.Files C h env vote
  | _ => False

theorem seenVotes_ProcessProposal (env : BudgetEnv) (s : CBudgetManager)
    (b : CBudgetProposalBroadcast) :
    (s.ProcessProposal C P env b).proposals.seenVotes = s.proposals.seenVotes ∧
      (s.ProcessProposal C P env b).budgets.seenVotes = s.budgets.seenVotes := by
  have hadd (s : CBudgetManager) (p : CBudgetProposal) :
      (s.AddProposal C P env p).proposals.seenVotes = s.proposals.seenVotes ∧
        (s.AddProposal C P env p).budgets = s.budgets := by
    rw [AddProposal]
    dsimp only
    split_ifs <;> exact ⟨rfl, rfl⟩
  rw [ProcessProposal]
  dsimp only
  split_ifs
  · exact ⟨rfl, rfl⟩
  · exact ⟨rfl, rfl⟩
  · exact ⟨rfl, rfl⟩
  · exact ⟨rfl, rfl⟩
  · exact ⟨rfl, rfl⟩
  · exact ⟨rfl, rfl⟩
  · simp only [CheckOrphanVotes, (VoteKind.seen_CheckOrphanVotes _).1]
    rw [(hadd _ _).1, (hadd _ _).2]
    exact ⟨rfl, rfl⟩

theorem seenVotes_ProcessFinalizedBudget (env : BudgetEnv) (s : CBudgetManager)
    (b : CFinalizedBudgetBroadcast) :
    (s.ProcessFinalizedBudget C P env b).proposals.seenVotes = s.proposals.seenVotes ∧
      (s.ProcessFinalizedBudget C P env b).budgets.seenVotes = s.budgets.seenVotes := by
  have hadd (s : CBudgetManager) (p : CFinalizedBudget) :
      (s.AddFinalizedBudget C P env p).budgets.seenVotes = s.budgets.seenVotes ∧
        (s.AddFinalizedBudget C P env p).proposals = s.proposals := by
    rw [AddFinalizedBudget]
    dsimp only
    split_ifs <;> exact ⟨rfl, rfl⟩
  rw [ProcessFinalizedBudget]
  dsimp only
  split_ifs
  · exact ⟨rfl, rfl⟩
  · exact ⟨rfl, rfl⟩
  · exact ⟨rfl, rfl⟩
  · exact ⟨rfl, rfl⟩
  · exact ⟨rfl, rfl⟩
  · exact ⟨rfl, rfl⟩
  · simp only [CheckOrphanVotes, (VoteKind.seen_CheckOrphanVotes _).1]
    rw [(hadd _ _).1, (hadd _ _).2]
    exact ⟨rfl, rfl⟩

theorem seenVotes_step (s : CBudgetManager) (e : BudgetEvent) (h : uint256) :
    ((budgetStep C P s e).proposals.seenVotes h = none ↔
        s.proposals.seenVotes h = none ∧ ¬ FilesVote C h e) ∧
      ((budgetStep C P s e).budgets.seenVotes h = none ↔
        s.budgets.seenVotes h = none ∧ ¬ FilesBudgetVote C h e) := by
  cases e with
  | fprop env b =>
    have hkept := seenVotes_ProcessProposal (C := C) (P := P) env s b
    simp [budgetStep, hkept.1, hkept.2, FilesVote, FilesBudgetVote]
  | fvote env vote =>
    refine ⟨VoteKind.seenVotes_ProcessVote s.proposals vote h, ?_⟩
    simp [budgetStep, FilesBudgetVote]
  | fbs env b =>
    have hkept := seenVotes_ProcessFinalizedBudget (C := C) (P := P) env s b
    simp [budgetStep, hkept.1, hkept.2, FilesVote, FilesBudgetVote]
  | fbvote env vote =>
    refine ⟨?_, VoteKind.seenVotes_ProcessVote s.budgets vote h⟩
    simp [budgetStep, FilesVote]
  | checkOrphanVotes env =>
    simp [budgetStep, CheckOrphanVotes, (VoteKind.seen_CheckOrphanVotes _).1, FilesVote,
      FilesBudgetVote]

theorem seenVotes_run (s : CBudgetManager) (es : List BudgetEvent) (h : uint256) :
    ((es.foldl (budgetStep C P) s).proposals.seenVotes h = none ↔
        s.proposals.seenVotes h = none ∧ ∀ e ∈ es, ¬ FilesVote C h e) ∧
      ((es.foldl (budgetStep C P) s).budgets.seenVotes h = none ↔
        s.budgets.seenVotes h = none ∧ ∀ e ∈ es, ¬ FilesBudgetVote C h e) := by
  induction es generalizing s with
  | nil => simp
  | cons e es ih =>
    obtain ⟨hvote, hbudget⟩ := ih (budgetStep C P s e)
    obtain ⟨hvote', hbudget'⟩ := seenVotes_step (C := C) (P := P) s e h
    rw [List.foldl_cons, hvote, hbudget, hvote', hbudget']
    simp [and_assoc]

/-- **Forged copies.**  From any state that has not seen it, and after any messages, a
genuine vote that the tally then takes is counted exactly when none of the messages made
the handler file its hash: no vote with the same hash came while its voter was listed. -/
theorem genuine_vote_counted_iff (C : Crypto) (P : CChainParams) (s : CBudgetManager)
    (es : List BudgetEvent) (env : BudgetEnv) :
    (∀ vote : CBudgetVote,
      s.proposals.seenVotes (CBudgetVote.kind.GetHash C (CBudgetVote.kind.received vote)) = none →
      CBudgetVote.kind.Genuine C env (CBudgetVote.kind.received vote) →
      CBudgetVote.kind.Admissible C env (es.foldl (budgetStep C P) s).proposals
        (CBudgetVote.kind.received vote) →
      (CBudgetVote.kind.Counted C
          (budgetStep C P (es.foldl (budgetStep C P) s) (.fvote env vote)).proposals
          (CBudgetVote.kind.received vote) ↔
        ∀ e ∈ es, ¬ FilesVote C (CBudgetVote.kind.GetHash C (CBudgetVote.kind.received vote)) e)) ∧
    (∀ vote : CFinalizedBudgetVote,
      s.budgets.seenVotes
        (CFinalizedBudgetVote.kind.GetHash C (CFinalizedBudgetVote.kind.received vote)) = none →
      CFinalizedBudgetVote.kind.Genuine C env (CFinalizedBudgetVote.kind.received vote) →
      CFinalizedBudgetVote.kind.Admissible C env (es.foldl (budgetStep C P) s).budgets
        (CFinalizedBudgetVote.kind.received vote) →
      (CFinalizedBudgetVote.kind.Counted C
          (budgetStep C P (es.foldl (budgetStep C P) s) (.fbvote env vote)).budgets
          (CFinalizedBudgetVote.kind.received vote) ↔
        ∀ e ∈ es, ¬ FilesBudgetVote C
          (CFinalizedBudgetVote.kind.GetHash C (CFinalizedBudgetVote.kind.received vote)) e)) := by
  constructor
  · intro vote hfresh hgen hadm
    show CBudgetVote.kind.Counted C
      (CBudgetVote.kind.ProcessVote C env (es.foldl (budgetStep C P) s).proposals vote) _ ↔ _
    rw [VoteKind.ProcessVote_counted_iff hgen hadm, (seenVotes_run s es _).1]
    simp [hfresh]
  · intro vote hfresh hgen hadm
    show CFinalizedBudgetVote.kind.Counted C
      (CFinalizedBudgetVote.kind.ProcessVote C env (es.foldl (budgetStep C P) s).budgets vote) _ ↔ _
    rw [VoteKind.ProcessVote_counted_iff hgen hadm, (seenVotes_run s es _).2]
    simp [hfresh]

/-! ## One node and its votes, for example -/

/-- The signature `[1]` is by the node key; hashes are not told apart. -/
def oneSignatureCrypto : Crypto where
  hash256 _ := 0
  hash160 _ := 0
  getPubKey _ := compressedKey 2
  signCompact _ _ := some [1]
  recoverCompact _ sig := if sig = [1] then some (compressedKey 2) else none

/-- A synchronized node whose list holds two prosperitynodes. -/
def ballotEnv : BudgetEnv where
  fLiteMode := false
  isBlockchainSynced := true
  shutdownRequested := false
  time := 1700000000
  adjustedTime := 1700000000
  minProto := PROTOCOL_VERSION
  getTransaction _ := none
  inputAge _ := 0
  blockHeight _ := none
  chainHeight := 1000
  chainTime _ := none
  lockMain := true
  fFundamentalNode := false
  activeVin := .SetNull
  activePubKey := compressedKey 2
  nodes :=
    ⟨[.ofBroadcast (announcement 0 1600000000 []), .ofBroadcast (announcement 1 1600000000 [])],
      fun _ => none, fun _ => none⟩
  activeProtocol := PROTOCOL_VERSION
  isSynced := true
  tipHeight := some 1000
  collateralValid _ _ := (true, none, 6)

/-- A vote of a listed node on the object of hash 0, with some signature. -/
def yesVote (vchSig : List UInt8) : CBudgetVote :=
  ⟨true, ⟨⟨7, 0⟩, [], 0xFFFFFFFF⟩, 0, VOTE_YES, 1700000000, vchSig⟩

def budgetVote (vchSig : List UInt8) : CFinalizedBudgetVote :=
  ⟨true, ⟨⟨7, 0⟩, [], 0xFFFFFFFF⟩, 0, 1700000000, vchSig⟩

def sentProposal : CBudgetProposalBroadcast := ⟨[112], [], 0, 43200, 86400, 10 * COIN, [1], 5⟩

def openProposal : CBudgetProposal := .ofBroadcast sentProposal

def openBudget : CFinalizedBudget := .ofBroadcast ⟨[109], 43200, [⟨0, [1], 10 * COIN⟩], 5⟩

/-- A proposal and a finalized budget are known, nothing is voted. -/
def openBallots : CBudgetManager where
  proposals := ⟨AList.singleton 0 openProposal, fun _ => false, fun _ => none, ∅⟩
  budgets := ⟨AList.singleton 0 openBudget, fun _ => false, fun _ => none, ∅⟩
  vecImmatureBudgetProposals := []
  vecImmatureFinalizedBudgets := []

theorem first_votes_counted :
    CBudgetVote.kind.Counted oneSignatureCrypto
        (budgetStep oneSignatureCrypto mainParams openBallots
          (.fvote ballotEnv (yesVote [1]))).proposals (yesVote [1]) ∧
      CFinalizedBudgetVote.kind.Counted oneSignatureCrypto
        (budgetStep oneSignatureCrypto mainParams openBallots
          (.fbvote ballotEnv (budgetVote [1]))).budgets (budgetVote [1]) := by
  have hboth := genuine_vote_counted_iff oneSignatureCrypto mainParams openBallots [] ballotEnv
  constructor
  · exact (hboth.1 (yesVote [1]) rfl ⟨⟨rfl, rfl⟩, by decide +kernel⟩
      ⟨openProposal, rfl, by decide +kernel⟩).mpr (by simp)
  · exact (hboth.2 (budgetVote [1]) rfl ⟨⟨rfl, rfl⟩, by decide +kernel⟩
      ⟨openBudget, rfl, by decide +kernel⟩).mpr (by simp)

/-- A copy with a spoilt signature, sent first, keeps the genuine vote out. -/
theorem forged_copy_hides_vote :
    ¬ (∀ (C : Crypto) (P : CChainParams) (s : CBudgetManager) (es : List BudgetEvent)
        (env : BudgetEnv) (vote : CBudgetVote),
        s.proposals.seenVotes (CBudgetVote.kind.GetHash C (CBudgetVote.kind.received vote)) = none →
        (∀ e ∈ es, ∃ copy, e = .fvote env copy ∧ copy.vin = vote.vin ∧
          CBudgetVote.kind.SignatureValid C env copy true = false) →
        CBudgetVote.kind.Genuine C env (CBudgetVote.kind.received vote) →
        CBudgetVote.kind.Admissible C env (es.foldl (budgetStep C P) s).proposals
          (CBudgetVote.kind.received vote) →
        CBudgetVote.kind.Counted C
          (budgetStep C P (es.foldl (budgetStep C P) s) (.fvote env vote)).proposals
          (CBudgetVote.kind.received vote)) := by
  intro hall
  have hcounted := hall oneSignatureCrypto mainParams openBallots [.fvote ballotEnv (yesVote [])]
    ballotEnv (yesVote [1]) rfl
    (by
      intro e he
      obtain rfl := List.mem_singleton.mp he
      exact ⟨yesVote [], rfl, rfl, by decide +kernel⟩)
    ⟨⟨rfl, rfl⟩, by decide +kernel⟩ ⟨openProposal, rfl, by decide +kernel⟩
  obtain ⟨obj, hobj, hfiled⟩ := hcounted
  -- the copy has left the tally as it was, and the vote does not get that far
  obtain rfl : openProposal = obj := Option.some.inj hobj
  have hnone : none = some (yesVote [1]) := hfiled
  cases hnone

end CBudgetManager

end Divitae
