/-
# `OrphanVotes` — votes that arrive before their object

Proposals, finalized budgets and votes on them come in any order.  A vote on an unknown
object should wait for it, but `mapOrphanProsperitynodeBudgetVotes` and its sibling are
keyed by the hash of the *object*: there is one place for all the early votes on it, and
a node that is not synced does not even use that one.

Over a run of accepted messages the manager is two families of desks
(`desk_run_proposals`, `desk_run_budgets`), so `desk_complete_iff` says which orders
lose a vote that matters.
-/
import Divitae.BallotDesk
import Divitae.ForgedVotes

namespace Divitae

namespace CBudgetManager

open List Option CBudgetVote Desk

variable {C : Crypto} {P : CChainParams}

/-- A proposal with the time its collateral gives it. -/
def settled (C : Crypto) (env : BudgetEnv) (b : CBudgetProposalBroadcast) : CBudgetProposal :=
  .ofBroadcast { b with nTime := (env.collateralValid b.nFeeTXHash (b.GetHash C)).2.1.getD b.nTime }

def settledBudget (C : Crypto) (env : BudgetEnv) (b : CFinalizedBudgetBroadcast) :
    CFinalizedBudget :=
  { CFinalizedBudget.ofBroadcast b with
    nTime := (env.collateralValid b.nFeeTXHash (b.GetHash C)).2.1.getD 0 }

/-- What an event is to the proposals, and to the finalized budgets. -/
def proposalEvent (C : Crypto) : BudgetEvent → BallotEvent CBudgetVote CBudgetProposal
  | .fprop env b => .object env (b.GetHash C) (settled C env b)
  | .fvote env vote => .vote env (CBudgetVote.kind.received vote)
  | .fbs env _ => .check env
  | .fbvote env _ => .idle env
  | .checkOrphanVotes env => .check env

def budgetEvent (C : Crypto) : BudgetEvent → BallotEvent CFinalizedBudgetVote CFinalizedBudget
  | .fprop env _ => .check env
  | .fvote env _ => .idle env
  | .fbs env b => .object env (b.GetHash C) (settledBudget C env b)
  | .fbvote env vote => .vote env (CFinalizedBudgetVote.kind.received vote)
  | .checkOrphanVotes env => .check env

/-- The message passes the checks of its handler. -/
def Accepted (C : Crypto) (P : CChainParams) : BudgetEvent → Prop
  | .fprop env b =>
    VoteKind.HandlerOn env ∧ (env.collateralValid b.nFeeTXHash (b.GetHash C)).1 = true ∧
      ((settled C env b).IsValid C P env).2 = true
  | .fvote env vote => CBudgetVote.kind.Genuine C env (CBudgetVote.kind.received vote)
  | .fbs env b =>
    VoteKind.HandlerOn env ∧ (env.collateralValid b.nFeeTXHash (b.GetHash C)).1 = true ∧
      ((settledBudget C env b).IsValid C P env).2 = true
  | .fbvote env vote =>
    CFinalizedBudgetVote.kind.Genuine C env (CFinalizedBudgetVote.kind.received vote)
  | .checkOrphanVotes _ => True

/-- The messages of a run, in their order, are valid. -/
structure ValidOrder (C : Crypto) (P : CChainParams) (es : List BudgetEvent) : Prop where
  accepted : ∀ e ∈ es, Accepted C P e
  proposals : Sound CBudgetVote.kind C (es.map (proposalEvent C))
  budgets : Sound CFinalizedBudgetVote.kind C (es.map (budgetEvent C))

theorem Sound.prefix {V Ω : Type} {K : VoteKind V Ω} {l l' : List (BallotEvent V Ω)}
    (h : Sound K C (l ++ l')) : Sound K C l where
  clock := (pairwise_append.mp h.clock).1
  ahead e he := h.ahead e (mem_append_left l' he)
  apart v hv w hw := by
    refine h.apart v ?_ w ?_
    · rw [filterMap_append]
      exact mem_append_left _ hv
    · rw [filterMap_append]
      exact mem_append_left _ hw
  votesOnce := by
    have hnodup := h.votesOnce
    rw [filterMap_append, map_append] at hnodup
    exact (nodup_append.mp hnodup).1
  objectsOnce := by
    have hnodup := h.objectsOnce
    rw [filterMap_append] at hnodup
    exact (nodup_append.mp hnodup).1

theorem ValidOrder.prefix {es es' : List BudgetEvent} (h : ValidOrder C P (es ++ es')) :
    ValidOrder C P es where
  accepted e he := h.accepted e (mem_append_left es' he)
  proposals := Sound.prefix (map_append ▸ h.proposals)
  budgets := Sound.prefix (map_append ▸ h.budgets)

theorem unvoted_proposals (es : List BudgetEvent) :
    Unvoted kind (es.map (proposalEvent C)) := by
  intro env hash obj hmem
  obtain ⟨e, -, he⟩ := mem_map.mp hmem
  cases e with
  | fprop env' b =>
    simp only [proposalEvent, BallotEvent.object.injEq] at he
    rw [← he.2.2]
    rfl
  | fvote env' vote => cases he
  | fbs env' b => cases he
  | fbvote env' vote => cases he
  | checkOrphanVotes env' => cases he

theorem unvoted_budgets (es : List BudgetEvent) :
    Unvoted CFinalizedBudgetVote.kind (es.map (budgetEvent C)) := by
  intro env hash obj hmem
  obtain ⟨e, -, he⟩ := mem_map.mp hmem
  cases e with
  | fbs env' b =>
    simp only [budgetEvent, BallotEvent.object.injEq] at he
    rw [← he.2.2]
    rfl
  | fvote env' vote => cases he
  | fprop env' b => cases he
  | fbvote env' vote => cases he
  | checkOrphanVotes env' => cases he

/-! ## One message at the desks -/

theorem settled_IsValid (env : BudgetEnv) (b : CBudgetProposalBroadcast) :
    ((settled C env b).IsValid C P env).1 = settled C env b := by
  have htime : { settled C env b with
      nTime := (env.collateralValid (settled C env b).nFeeTXHash
        ((settled C env b).GetHash C)).2.1.getD (settled C env b).nTime } = settled C env b := by
    show CBudgetProposal.mk { b with nTime := _ } ∅ = CBudgetProposal.mk { b with nTime := _ } ∅
    congr 2
    show (env.collateralValid b.nFeeTXHash (b.GetHash C)).2.1.getD
      ((env.collateralValid b.nFeeTXHash (b.GetHash C)).2.1.getD b.nTime) = _
    cases (env.collateralValid b.nFeeTXHash (b.GetHash C)).2.1 with
    | none => rfl
    | some t => rfl
  rw [CBudgetProposal.IsValid]
  dsimp only
  split_ifs
  · rfl
  · rfl
  · rfl
  · rfl
  · rfl
  · exact htime
  · exact htime
  · exact htime
  · cases env.tipHeight with
    | none => exact htime
    | some nHeight => exact htime

theorem settledBudget_IsValid (env : BudgetEnv) (b : CFinalizedBudgetBroadcast) :
    ((settledBudget C env b).IsValid C P env).1 = settledBudget C env b := by
  have htime : { settledBudget C env b with
      nTime := (env.collateralValid (settledBudget C env b).nFeeTXHash
        ((settledBudget C env b).GetHash C)).2.1.getD (settledBudget C env b).nTime } =
      settledBudget C env b := by
    show CFinalizedBudget.mk b _ ∅ = CFinalizedBudget.mk b _ ∅
    congr 1
    show (env.collateralValid b.nFeeTXHash (b.GetHash C)).2.1.getD
      ((env.collateralValid b.nFeeTXHash (b.GetHash C)).2.1.getD 0) = _
    cases (env.collateralValid b.nFeeTXHash (b.GetHash C)).2.1 with
    | none => rfl
    | some t => rfl
  rw [CFinalizedBudget.IsValid]
  dsimp only
  split_ifs
  · rfl
  · rfl
  · rfl
  · rfl
  · rfl
  · rfl
  · rfl
  · exact htime
  · cases env.tipHeight with
    | none => exact htime
    | some nHeight => exact htime

variable {env : BudgetEnv}

theorem ProcessProposal_accepted {s : CBudgetManager}
    {b : CBudgetProposalBroadcast} (h : Accepted C P (.fprop env b))
    (hseen : s.proposals.seenObjects (b.GetHash C) = false)
    (hnew : s.proposals.objects.lookup (b.GetHash C) = none) :
    s.ProcessProposal C P env b =
      { s with
        proposals := { s.proposals with
          seenObjects := Function.update s.proposals.seenObjects (b.GetHash C) true
          objects := s.proposals.objects.insert (b.GetHash C) (settled C env b) } }.CheckOrphanVotes
        C env := by
  obtain ⟨⟨hlite, hsync⟩, hcollateral, hvalid⟩ := h
  rw [ProcessProposal, if_neg (by simp [hlite]), if_neg (by simp [hsync]), if_neg (by simp [hseen])]
  dsimp only
  rw [if_neg (by simp [hcollateral])]
  show (if (!((settled C env b).IsValid C P env).2) = true then _ else _) = _
  rw [if_neg (by simp [hvalid])]
  refine congrArg (fun s => CheckOrphanVotes C env s) ?_
  show AddProposal C P env _ ((settled C env b).IsValid C P env).1 = _
  rw [settled_IsValid, AddProposal]
  dsimp only
  rw [if_neg (by simp [hvalid]), settled_IsValid]
  show (if (s.proposals.objects.lookup (b.GetHash C)).isSome = true then _ else _) = _
  rw [if_neg (by simp [hnew])]
  rfl

variable {b : CFinalizedBudgetBroadcast}

theorem ProcessFinalizedBudget_accepted {s : CBudgetManager}
    (h : Accepted C P (.fbs env b))
    (hseen : s.budgets.seenObjects (b.GetHash C) = false)
    (hnew : s.budgets.objects.lookup (b.GetHash C) = none) :
    s.ProcessFinalizedBudget C P env b =
      { s with
        budgets := { s.budgets with
          seenObjects := Function.update s.budgets.seenObjects (b.GetHash C) true
          objects := s.budgets.objects.insert (b.GetHash C)
            (settledBudget C env b) } }.CheckOrphanVotes C env := by
  obtain ⟨⟨hlite, hsync⟩, hcollateral, hvalid⟩ := h
  rw [ProcessFinalizedBudget, if_neg (by simp [hlite]), if_neg (by simp [hsync]),
    if_neg (by simp [hseen])]
  dsimp only
  rw [if_neg (by simp [hcollateral])]
  show (if (!((settledBudget C env b).IsValid C P env).2) = true then _ else _) = _
  rw [if_neg (by simp [hvalid])]
  refine congrArg (fun s => CheckOrphanVotes C env s) ?_
  show AddFinalizedBudget C P env _ ((settledBudget C env b).IsValid C P env).1 = _
  rw [settledBudget_IsValid, AddFinalizedBudget]
  dsimp only
  rw [if_neg (by simp [hvalid]), settledBudget_IsValid]
  show (if (s.budgets.objects.lookup (b.GetHash C)).isSome = true then _ else _) = _
  rw [if_neg (by simp [hnew])]
  rfl

section
variable {V Ω : Type} {K : VoteKind V Ω}

theorem desk_arrival {s : Ballots V Ω} (hs : OrphansFiled K s)
    (hash : uint256) (obj : Ω) (seen : uint256 → Bool) (o : uint256) :
    (K.CheckOrphanVotes C env
        { s with seenObjects := seen, objects := s.objects.insert hash obj }).desk o =
      step K C o (s.desk o) (.object env hash obj) := by
  have hfiled : OrphansFiled K
      { s with seenObjects := seen, objects := s.objects.insert hash obj } := hs
  rw [desk_CheckOrphanVotes C env hfiled, step]
  by_cases ho : hash = o
  · subst ho
    rw [if_pos rfl]
    simp [Ballots.desk]
  · rw [if_neg ho]
    simp [Ballots.desk, AList.lookup_insert_ne (Ne.symm ho)]

theorem desk_ProcessVote {s : Ballots V Ω} {vote : V}
    (h : K.Genuine C env (K.received vote))
    (hnew : s.seenVotes (K.GetHash C (K.received vote)) = none) (o : uint256) :
    (K.ProcessVote C env s vote).desk o = step K C o (s.desk o) (.vote env (K.received vote)) := by
  obtain ⟨pmn, hfind⟩ := isSome_iff_exists.mp h.find
  rw [VoteKind.ProcessVote, if_neg (by simp [h.1.1]), if_neg (by simp [h.1.2])]
  rw [if_neg (by simp [hnew]), hfind]
  rw [if_neg (by simp [h.2]), desk_Update]
  rfl

variable {o : uint256}

theorem desk_step_filed {d : Desk V Ω}
    (hd : ∀ v, d.orphan = some v → K.object v = o) (e : BallotEvent V Ω) :
    ∀ v, (step K C o d e).orphan = some v → K.object v = o := by
  have hcheck (env : BudgetEnv) (d : Desk V Ω) (hd : ∀ v, d.orphan = some v → K.object v = o) :
      ∀ v, (d.check K C env).orphan = some v → K.object v = o := by
    intro v hv
    obtain ⟨object, orphan⟩ := d
    cases object with
    | none => exact hd v hv
    | some obj =>
      cases orphan with
      | none => exact hd v hv
      | some w =>
        simp only [check] at hv
        split_ifs at hv
        obtain rfl : w = v := some.inj hv
        exact hd w rfl
  intro v hv
  cases e with
  | object env hash obj =>
    refine hcheck env _ ?_ v hv
    split_ifs
    · exact hd
    · exact hd
  | vote env w =>
    rw [step] at hv
    split_ifs at hv with ho
    · rw [vote] at hv
      cases hobj : d.object with
      | none =>
        rw [hobj] at hv
        split_ifs at hv
        · obtain rfl : w = v := some.inj hv
          exact ho
        · exact hd v hv
      | some obj =>
        rw [hobj] at hv
        exact hd v hv
    · exact hd v hv
  | check env => exact hcheck env d hd v hv
  | idle env => exact hd v hv

theorem desk_foldl_filed (o : uint256) (es : List (BallotEvent V Ω)) (d : Desk V Ω)
    (hd : ∀ v, d.orphan = some v → K.object v = o) :
    ∀ v, (es.foldl (step K C o) d).orphan = some v → K.object v = o := by
  induction es generalizing d with
  | nil => exact hd
  | cons e es ih => exact ih _ (desk_step_filed hd e)

end

theorem seenObjects_ProcessVote {V Ω : Type} {K : VoteKind V Ω}
    (s : Ballots V Ω) (vote : V) : (K.ProcessVote C env s vote).seenObjects = s.seenObjects := by
  rw [VoteKind.ProcessVote]
  dsimp only
  cases env.nodes.Find (K.vin (K.received vote)) with
  | none => split_ifs <;> rfl
  | some pmn =>
    dsimp only
    split_ifs
    · rfl
    · rfl
    · rfl
    · rfl
    · exact (VoteKind.seen_Update _ _ _ _ _ _).2

/-! ## The run -/

/-- What a valid run has done so far: each half of the manager is its family of desks, and
the objects seen are those that came. -/
structure DeskRun (C : Crypto) (es : List BudgetEvent) (s : CBudgetManager) : Prop where
  proposals : ∀ o, s.proposals.desk o =
    (es.map (proposalEvent C)).foldl (Desk.step CBudgetVote.kind C o) ⟨none, none⟩
  budgets : ∀ o, s.budgets.desk o =
    (es.map (budgetEvent C)).foldl (Desk.step CFinalizedBudgetVote.kind C o) ⟨none, none⟩
  seenProposals : ∀ h, s.proposals.seenObjects h = true →
    h ∈ (es.map (proposalEvent C)).filterMap BallotEvent.hash?
  seenBudgets : ∀ h, s.budgets.seenObjects h = true →
    h ∈ (es.map (budgetEvent C)).filterMap BallotEvent.hash?

theorem DeskRun.filed {es : List BudgetEvent} {s : CBudgetManager} (h : DeskRun C es s) :
    OrphansFiled kind s.proposals ∧ OrphansFiled CFinalizedBudgetVote.kind s.budgets := by
  constructor
  · intro o v hv
    refine desk_foldl_filed (C := C) o (es.map (proposalEvent C)) ⟨none, none⟩ (by simp) v ?_
    rw [← h.proposals o]
    exact hv
  · intro o v hv
    refine desk_foldl_filed (C := C) o (es.map (budgetEvent C)) ⟨none, none⟩ (by simp) v ?_
    rw [← h.budgets o]
    exact hv

theorem desk_unknown {V Ω : Type} {K : VoteKind V Ω} {l : List (BallotEvent V Ω)}
    (ho : o ∉ l.filterMap BallotEvent.hash?) :
    (l.foldl (step K C o) ⟨none, none⟩).object = none := by
  rw [desk_before l]
  intro e he
  by_contra harr
  refine ho (mem_filterMap.mpr ⟨e, he, ?_⟩)
  simpa [BallotEvent.arrives] using harr

theorem hash_new {V Ω : Type} {l : List (BallotEvent V Ω)} {e : BallotEvent V Ω} {h : uint256}
    (hnodup : ((l ++ [e]).filterMap BallotEvent.hash?).Nodup) (he : e.hash? = some h) :
    h ∉ l.filterMap BallotEvent.hash? := by
  intro hmem
  rw [filterMap_append] at hnodup
  refine (nodup_append.mp hnodup).2.2 h hmem h ?_ rfl
  simp [he]

theorem vote_new {V Ω : Type} {K : VoteKind V Ω} {l : List (BallotEvent V Ω)}
    {e : BallotEvent V Ω} {v : V}
    (hnodup : (((l ++ [e]).filterMap BallotEvent.vote?).map (K.GetHash C)).Nodup)
    (he : e.vote? = some v) :
    ∀ u ∈ l.filterMap BallotEvent.vote?, K.GetHash C u ≠ K.GetHash C v := by
  intro u hu heq
  rw [filterMap_append, map_append] at hnodup
  refine (nodup_append.mp hnodup).2.2 _ (mem_map_of_mem hu) (K.GetHash C v) ?_ heq
  simp [he]

theorem unseen_of_new {V Ω : Type} {K : VoteKind V Ω} {l : List (BallotEvent V Ω)}
    {b : Ballots V Ω}
    (hdesk : ∀ o, b.desk o = l.foldl (step K C o) ⟨none, none⟩)
    (hseen : ∀ h, b.seenObjects h = true → h ∈ l.filterMap BallotEvent.hash?)
    (ho : o ∉ l.filterMap BallotEvent.hash?) :
    b.seenObjects o = false ∧ b.objects.lookup o = none := by
  constructor
  · by_contra hno
    exact ho (hseen o (by simpa using hno))
  · exact (congrArg object (hdesk o)).trans (desk_unknown ho)

section
variable {es : List BudgetEvent} {s : CBudgetManager}

theorem DeskRun.concat {e : BudgetEvent} {s' : CBudgetManager} (h : DeskRun C es s)
    (hp : ∀ o, s'.proposals.desk o = step kind C o (s.proposals.desk o) (proposalEvent C e))
    (hb : ∀ o, s'.budgets.desk o =
      step CFinalizedBudgetVote.kind C o (s.budgets.desk o) (budgetEvent C e))
    (hsp : ∀ h, s'.proposals.seenObjects h = true →
      s.proposals.seenObjects h = true ∨ (proposalEvent C e).hash? = some h)
    (hsb : ∀ h, s'.budgets.seenObjects h = true →
      s.budgets.seenObjects h = true ∨ (budgetEvent C e).hash? = some h) :
    DeskRun C (es ++ [e]) s' := by
  refine ⟨?_, ?_, ?_, ?_⟩
  · intro o
    rw [hp o, h.proposals o, map_append, foldl_append]
    rfl
  · intro o
    rw [hb o, h.budgets o, map_append, foldl_append]
    rfl
  · intro k hk
    rw [map_append, filterMap_append, mem_append]
    rcases hsp k hk with hold | hnew
    · exact .inl (h.seenProposals k hold)
    · exact .inr (by simp [hnew])
  · intro k hk
    rw [map_append, filterMap_append, mem_append]
    rcases hsb k hk with hold | hnew
    · exact .inl (h.seenBudgets k hold)
    · exact .inr (by simp [hnew])

theorem DeskRun.fprop {b : CBudgetProposalBroadcast} (h : DeskRun C es s)
    (hacc : Accepted C P (.fprop env b))
    (hnew : b.GetHash C ∉ (es.map (proposalEvent C)).filterMap BallotEvent.hash?) :
    DeskRun C (es ++ [.fprop env b]) (budgetStep C P s (.fprop env b)) := by
  obtain ⟨hseen, hfile⟩ := unseen_of_new h.proposals h.seenProposals hnew
  have hstep := ProcessProposal_accepted hacc hseen hfile
  refine h.concat ?_ ?_ ?_ ?_
  · intro o
    simp only [budgetStep, hstep]
    exact desk_arrival h.filed.1 _ _ _ o
  · intro o
    simp only [budgetStep, hstep]
    exact desk_CheckOrphanVotes C env h.filed.2 o
  · intro k hk
    simp only [budgetStep, hstep, CheckOrphanVotes, (VoteKind.seen_CheckOrphanVotes _).2,
      Function.update_apply] at hk
    split_ifs at hk with heq
    · exact .inr (congrArg some heq.symm)
    · exact .inl hk
  · intro k hk
    simp only [budgetStep, hstep, CheckOrphanVotes, (VoteKind.seen_CheckOrphanVotes _).2] at hk
    exact .inl hk

theorem DeskRun.fbs (h : DeskRun C es s)
    (hacc : Accepted C P (.fbs env b))
    (hnew : b.GetHash C ∉ (es.map (budgetEvent C)).filterMap BallotEvent.hash?) :
    DeskRun C (es ++ [.fbs env b]) (budgetStep C P s (.fbs env b)) := by
  obtain ⟨hseen, hfile⟩ := unseen_of_new h.budgets h.seenBudgets hnew
  have hstep := ProcessFinalizedBudget_accepted hacc hseen hfile
  refine h.concat ?_ ?_ ?_ ?_
  · intro o
    simp only [budgetStep, hstep]
    exact desk_CheckOrphanVotes C env h.filed.1 o
  · intro o
    simp only [budgetStep, hstep]
    exact desk_arrival h.filed.2 _ _ _ o
  · intro k hk
    simp only [budgetStep, hstep, CheckOrphanVotes, (VoteKind.seen_CheckOrphanVotes _).2] at hk
    exact .inl hk
  · intro k hk
    simp only [budgetStep, hstep, CheckOrphanVotes, (VoteKind.seen_CheckOrphanVotes _).2,
      Function.update_apply] at hk
    split_ifs at hk with heq
    · exact .inr (congrArg some heq.symm)
    · exact .inl hk

theorem DeskRun.fvote {vote : CBudgetVote} (h : DeskRun C es s)
    (hacc : Accepted C P (.fvote env vote))
    (hnew : s.proposals.seenVotes (kind.GetHash C (kind.received vote)) = none) :
    DeskRun C (es ++ [.fvote env vote]) (budgetStep C P s (.fvote env vote)) := by
  refine h.concat (fun o => desk_ProcessVote hacc hnew o) (fun _ => rfl) ?_ (fun _ hk => .inl hk)
  intro k hk
  simp only [budgetStep, seenObjects_ProcessVote] at hk
  exact .inl hk

theorem DeskRun.fbvote {vote : CFinalizedBudgetVote} (h : DeskRun C es s)
    (hacc : Accepted C P (.fbvote env vote))
    (hnew : s.budgets.seenVotes
      (CFinalizedBudgetVote.kind.GetHash C (CFinalizedBudgetVote.kind.received vote)) = none) :
    DeskRun C (es ++ [.fbvote env vote]) (budgetStep C P s (.fbvote env vote)) := by
  refine h.concat (fun _ => rfl) (fun o => desk_ProcessVote hacc hnew o) (fun _ hk => .inl hk) ?_
  intro k hk
  simp only [budgetStep, seenObjects_ProcessVote] at hk
  exact .inl hk

theorem DeskRun.checkOrphanVotes (P : CChainParams) (h : DeskRun C es s) :
    DeskRun C (es ++ [.checkOrphanVotes env]) (budgetStep C P s (.checkOrphanVotes env)) := by
  refine h.concat (desk_CheckOrphanVotes C env h.filed.1) (desk_CheckOrphanVotes C env h.filed.2)
    ?_ ?_
  · intro k hk
    simp only [budgetStep, CheckOrphanVotes, (VoteKind.seen_CheckOrphanVotes _).2] at hk
    exact .inl hk
  · intro k hk
    simp only [budgetStep, CheckOrphanVotes, (VoteKind.seen_CheckOrphanVotes _).2] at hk
    exact .inl hk

end

theorem deskRun (es : List BudgetEvent) (h : ValidOrder C P es) :
    DeskRun C es (es.foldl (budgetStep C P) empty) := by
  induction es using List.reverseRecOn with
  | nil =>
    exact ⟨fun _ => rfl, fun _ => rfl, nofun, nofun⟩
  | append_singleton es e ih =>
    have hs := ih h.prefix
    have hacc := h.accepted e (by simp)
    have hprop := h.proposals
    have hbud := h.budgets
    rw [map_append, map_singleton] at hprop hbud
    have hrun := seenVotes_run (C := C) (P := P) empty es
    rw [foldl_append]
    cases e with
    | fprop env b => exact hs.fprop hacc (hash_new hprop.objectsOnce rfl)
    | fbs env b => exact hs.fbs hacc (hash_new hbud.objectsOnce rfl)
    | fvote env vote =>
      refine hs.fvote hacc ((hrun _).1.mpr ⟨rfl, ?_⟩)
      intro e he hfiles
      cases e with
      | fvote env' vote' =>
        refine vote_new hprop.votesOnce rfl (kind.received vote') ?_ hfiles.2.1
        exact mem_filterMap.mpr ⟨_, mem_map_of_mem he, rfl⟩
      | fprop env' b => exact hfiles
      | fbs env' b => exact hfiles
      | fbvote env' vote' => exact hfiles
      | checkOrphanVotes env' => exact hfiles
    | fbvote env vote =>
      refine hs.fbvote hacc ((hrun _).2.mpr ⟨rfl, ?_⟩)
      intro e he hfiles
      cases e with
      | fbvote env' vote' =>
        refine vote_new hbud.votesOnce rfl (CFinalizedBudgetVote.kind.received vote') ?_ hfiles.2.1
        exact mem_filterMap.mpr ⟨_, mem_map_of_mem he, rfl⟩
      | fprop env' b => exact hfiles
      | fbs env' b => exact hfiles
      | fvote env' vote' => exact hfiles
      | checkOrphanVotes env' => exact hfiles
    | checkOrphanVotes env => exact hs.checkOrphanVotes P

/-! ## Which orders lose votes -/

section
variable {V Ω : Type} (K : VoteKind V Ω) (C : Crypto)

/-- The vote of the voter `k` in the tally of `o`. -/
def tally (s : Ballots V Ω) (o k : uint256) : Option V :=
  (s.objects.lookup o).bind fun obj => (K.mapVotes obj).lookup k

/-- Every object that came is known, and its tally holds the latest of all the votes of
each voter on it. -/
def TallyComplete (s : Ballots V Ω) (es : List (BallotEvent V Ω)) : Prop :=
  ∀ o ∈ es.filterMap BallotEvent.hash?, (s.objects.lookup o).isSome = true ∧
    ∀ k, Latest.IsLatest K.nTime {v | v ∈ votesOn K o es ∧ K.voter C v = k} (tally K s o k)

/-- Every lost vote is superseded by a later vote of the same voter on the same object. -/
def NoVoteLost (es : List (BallotEvent V Ω)) : Prop :=
  ∀ o ∈ es.filterMap BallotEvent.hash?, ∀ v, Lost K o es v →
    ∃ w ∈ votesOn K o es, K.voter C w = K.voter C v ∧ K.nTime v < K.nTime w

/-- The same votes and the same objects, in whatever order. -/
def SameBallots (es es' : List (BallotEvent V Ω)) : Prop :=
  (es.filterMap BallotEvent.vote?).Perm (es'.filterMap BallotEvent.vote?) ∧
    (es.filterMap BallotEvent.hash?).Perm (es'.filterMap BallotEvent.hash?)

variable {K} {C} {s s' : Ballots V Ω} {es es' : List (BallotEvent V Ω)}

theorem tallyComplete_iff (h : Sound K C es) (hun : Unvoted K es)
    (hdesk : ∀ o, s.desk o = es.foldl (step K C o) ⟨none, none⟩) :
    TallyComplete K C s es ↔ NoVoteLost K C es := by
  refine forall₂_congr fun o ho => ?_
  obtain ⟨obj, hrun, hiff⟩ := desk_complete_iff h hun ho
  have hobj : s.objects.lookup o = some obj := congrArg object ((hdesk o).trans hrun)
  rw [← hiff, hobj]
  simp only [tally, hobj, isSome_some, true_and, bind_some]

theorem TallyComplete.same (h : Sound K C es) (hs : TallyComplete K C s es)
    (hs' : TallyComplete K C s' es') (hsame : SameBallots es es')
    (ho : o ∈ es.filterMap BallotEvent.hash?) (k : uint256) : tally K s o k = tally K s' o k := by
  have hvotes : ∀ v, v ∈ votesOn K o es' ↔ v ∈ votesOn K o es := by
    intro v
    rw [mem_votesOn, mem_votesOn, hsame.1.mem_iff]
  have hlatest := (hs o ho).2 k
  have hlatest' := (hs' o (hsame.2.mem_iff.mp ho)).2 k
  simp only [hvotes] at hlatest'
  have hagree := hlatest.agree (f := id) hlatest' ?_
  · simpa using hagree
  · rintro v ⟨hv, hvk⟩ w ⟨hw, hwk⟩ htie
    by_contra hne
    have hv' := mem_votesOn.mp hv
    have hw' := mem_votesOn.mp hw
    have := h.apart v hv'.1 w hw'.1 (hv'.2.trans hw'.2.symm) (hvk.trans hwk.symm) hne
    simp only [BUDGET_VOTE_UPDATE_MIN] at this
    omega

end

/-- Hashes that add the bytes up; every signature is by the node key. -/
def summingCrypto : Crypto where
  hash256 s := BitVec.ofNat 256 (s.foldl (fun n b => n + b.toNat) s.length)
  hash160 _ := 0
  getPubKey _ := compressedKey 2
  signCompact _ _ := some []
  recoverCompact _ _ := some (compressedKey 2)

/-- The vote of the `n`-th listed node for the proposal. -/
def voteOfNode (n : Nat) : CBudgetVote :=
  ⟨true, ⟨⟨7, n⟩, [], 0xFFFFFFFF⟩, sentProposal.GetHash summingCrypto, VOTE_YES, 1700000000, []⟩

def proposalFirst : List BudgetEvent :=
  [.fprop ballotEnv sentProposal, .fvote ballotEnv (voteOfNode 0), .fvote ballotEnv (voteOfNode 1),
    .checkOrphanVotes ballotEnv]

def votesFirst : List BudgetEvent :=
  [.fvote ballotEnv (voteOfNode 0), .fvote ballotEnv (voteOfNode 1), .fprop ballotEnv sentProposal,
    .checkOrphanVotes ballotEnv]

theorem validOrder_twoVotes {es : List BudgetEvent} (hes : es = proposalFirst ∨ es = votesFirst) :
    ValidOrder summingCrypto mainParams es := by
  have hprop : Accepted summingCrypto mainParams (.fprop ballotEnv sentProposal) :=
    ⟨⟨rfl, rfl⟩, rfl, by decide +kernel⟩
  have hvote0 : Accepted summingCrypto mainParams (.fvote ballotEnv (voteOfNode 0)) :=
    ⟨⟨rfl, rfl⟩, by decide +kernel⟩
  have hvote1 : Accepted summingCrypto mainParams (.fvote ballotEnv (voteOfNode 1)) :=
    ⟨⟨rfl, rfl⟩, by decide +kernel⟩
  have hcheck : Accepted summingCrypto mainParams (.checkOrphanVotes ballotEnv) := trivial
  have hmem : ∀ e ∈ es, e = .fprop ballotEnv sentProposal ∨ e = .fvote ballotEnv (voteOfNode 0) ∨
      e = .fvote ballotEnv (voteOfNode 1) ∨ e = .checkOrphanVotes ballotEnv := by
    intro e he
    rcases hes with rfl | rfl
    · simpa [proposalFirst] using he
    · simp only [votesFirst, mem_cons, not_mem_nil, or_false] at he
      tauto
  refine ⟨?_, ⟨?_, ?_, ?_, ?_, ?_⟩, ⟨?_, ?_, ?_, ?_, ?_⟩⟩
  · intro e he
    rcases hmem e he with rfl | rfl | rfl | rfl
    · exact hprop
    · exact hvote0
    · exact hvote1
    · exact hcheck
  · rcases hes with rfl | rfl
    · simp [proposalFirst, proposalEvent, BallotEvent.env]
    · simp [votesFirst, proposalEvent, BallotEvent.env]
  · intro e he v hv
    obtain ⟨a, ha, rfl⟩ := mem_map.mp he
    rcases hmem a ha with rfl | rfl | rfl | rfl
    · cases hv
    · cases hv
      decide
    · cases hv
      decide
    · cases hv
  · rcases hes with rfl | rfl
    · decide +kernel
    · decide +kernel
  · rcases hes with rfl | rfl
    · decide +kernel
    · decide +kernel
  · rcases hes with rfl | rfl
    · decide +kernel
    · decide +kernel
  · rcases hes with rfl | rfl
    · simp [proposalFirst, budgetEvent, BallotEvent.env]
    · simp [votesFirst, budgetEvent, BallotEvent.env]
  · intro e he v hv
    obtain ⟨a, ha, rfl⟩ := mem_map.mp he
    rcases hmem a ha with rfl | rfl | rfl | rfl
    · cases hv
    · cases hv
    · cases hv
    · cases hv
  · rcases hes with rfl | rfl
    · decide +kernel
    · decide +kernel
  · rcases hes with rfl | rfl
    · decide +kernel
    · decide +kernel
  · rcases hes with rfl | rfl
    · decide +kernel
    · decide +kernel

end CBudgetManager

end Divitae
