/-
# `BallotDesk` — what the manager holds for one object

Whatever happens to the other objects, the part of `Ballots` that belongs to one
object moves on its own: the object with its tally, and at most one vote that waits for
it.  That part is its desk; a vote on the object, the arrival of the object and a check
of the orphan votes each act on the desk alone (`desk_Update`, `desk_CheckOrphanVotes`).

The desk explains which votes are lost.  Before the object arrives there is one place
for all of its votes, and each new one takes it (`held`).  After the arrival every vote
meets the tally, which keeps the latest vote of each voter.  So the tally ends with the
latest of all votes exactly when each lost vote is superseded (`desk_complete_iff`).
-/
import Divitae.Budget
import Divitae.Lib.Latest
import Mathlib.Data.List.TakeWhile

namespace Divitae

open List Option Ballots AList

structure Desk (V Ω : Type) where
  object : Option Ω
  orphan : Option V

def Ballots.desk {V Ω : Type} (s : Ballots V Ω) (o : uint256) : Desk V Ω :=
  ⟨s.objects.lookup o, s.orphanVotes.lookup o⟩

/-- What can happen to one half of the manager. -/
inductive BallotEvent (V Ω : Type) where
  | object (env : BudgetEnv) (hash : uint256) (obj : Ω)
  | vote (env : BudgetEnv) (v : V)
  | check (env : BudgetEnv)
  | idle (env : BudgetEnv)

variable {V Ω : Type}

namespace BallotEvent

def env : BallotEvent V Ω → BudgetEnv
  | object env _ _ => env
  | vote env _ => env
  | check env => env
  | idle env => env

def hash? : BallotEvent V Ω → Option uint256
  | object _ hash _ => some hash
  | _ => none

def arrives (o : uint256) (e : BallotEvent V Ω) : Bool := e.hash? == some o

def vote? : BallotEvent V Ω → Option V
  | vote _ v => some v
  | _ => none

end BallotEvent

namespace Desk

variable (K : VoteKind V Ω) (C : Crypto)

def vote (env : BudgetEnv) (v : V) (d : Desk V Ω) : Desk V Ω :=
  match d.object with
  | none => if env.isSynced then ⟨none, some v⟩ else d
  | some obj => ⟨some (K.withVotes obj (K.AddOrUpdateVote C env (K.mapVotes obj) v).1), d.orphan⟩

/-- The vote that waits, if any, is tried again. -/
def check (env : BudgetEnv) (d : Desk V Ω) : Desk V Ω :=
  match d.object, d.orphan with
  | some obj, some v =>
    let (mapVotes, fAdded) := K.AddOrUpdateVote C env (K.mapVotes obj) v
    ⟨some (K.withVotes obj mapVotes), if fAdded then none else some v⟩
  | _, _ => d

/-- One event at the desk of `o`. -/
def step (o : uint256) (d : Desk V Ω) : BallotEvent V Ω → Desk V Ω
  | .object env hash obj => (if hash = o then ⟨some obj, d.orphan⟩ else d).check K C env
  | .vote env v => if K.object v = o then d.vote K C env v else d
  | .check env => d.check K C env
  | .idle _ => d

end Desk

/-! ## The manager is a family of desks -/

section
variable {K : VoteKind V Ω} {C : Crypto} {env : BudgetEnv}

theorem desk_Update (s : Ballots V Ω) (v : V) (o : uint256) :
    (K.Update C env s v true).1.desk o =
      if K.object v = o then (s.desk o).vote K C env v else s.desk o := by
  rw [VoteKind.Update]
  by_cases ho : K.object v = o
  · subst ho
    rw [if_pos rfl, Desk.vote]
    cases hobj : s.objects.lookup (K.object v) with
    | none =>
      simp only [desk, hobj, Bool.true_and]
      split_ifs
      · simp [hobj]
      · simp [hobj]
    | some obj => simp [desk, hobj]
  · rw [if_neg ho]
    have hne : o ≠ K.object v := Ne.symm ho
    cases s.objects.lookup (K.object v) with
    | none =>
      split_ifs
      · simp [desk, lookup_insert_ne hne]
      · rfl
    | some obj => simp [desk, lookup_insert_ne hne]

variable {v : V}

theorem desk_tryOrphan (C : Crypto) (env : BudgetEnv) (s : Ballots V Ω) {k : uint256}
    (hv : K.object v = k)
    (hk : s.orphanVotes.lookup k = some v) (o : uint256) :
    (if (K.Update C env s v false).2 then
        { (K.Update C env s v false).1 with
          orphanVotes := (K.Update C env s v false).1.orphanVotes.erase k }
      else (K.Update C env s v false).1).desk o =
      if k = o then (s.desk o).check K C env else s.desk o := by
  subst hv
  rw [VoteKind.Update]
  by_cases ho : K.object v = o
  · subst ho
    rw [if_pos rfl, Desk.check]
    cases hobj : s.objects.lookup (K.object v) with
    | none => simp [desk, hobj, hk]
    | some obj =>
      simp only [desk, hobj, hk]
      split_ifs
      · simp
      · simp [hk]
  · rw [if_neg ho]
    have hne : o ≠ K.object v := Ne.symm ho
    cases s.objects.lookup (K.object v) with
    | none => simp [desk]
    | some obj =>
      dsimp only
      split_ifs
      · simp [desk, lookup_insert_ne hne, lookup_erase_ne hne]
      · simp [desk, lookup_insert_ne hne]

theorem desk_tryOrphans (l : List (Sigma fun _ : uint256 => V)) (hnodup : l.NodupKeys)
    (s : Ballots V Ω)
    (hl : ∀ it ∈ l, K.object it.2 = it.1 ∧ s.orphanVotes.lookup it.1 = some it.2)
    (o : uint256) :
    (l.foldl (fun s it =>
        if (K.Update C env s it.2 false).2 then
          { (K.Update C env s it.2 false).1 with
            orphanVotes := (K.Update C env s it.2 false).1.orphanVotes.erase it.1 }
        else (K.Update C env s it.2 false).1) s).desk o =
      if o ∈ l.keys then (s.desk o).check K C env else s.desk o := by
  induction l generalizing s with
  | nil => simp
  | cons it l ih =>
    obtain ⟨hnot, hrest⟩ := nodupKeys_cons.mp hnodup
    obtain ⟨hobj, hlook⟩ := hl it mem_cons_self
    rw [foldl_cons, ih hrest]
    · rw [desk_tryOrphan C env s hobj hlook]
      simp only [keys_cons, mem_cons]
      by_cases ho : it.1 = o
      · subst ho
        simp [hnot]
      · simp [ho, Ne.symm ho]
    · intro it' hit'
      obtain ⟨hobj', hlook'⟩ := hl it' (mem_cons_of_mem it hit')
      refine ⟨hobj', ?_⟩
      have hne : it.1 ≠ it'.1 := by
        intro heq
        exact hnot (heq ▸ mem_keys_of_mem hit')
      have hdesk := desk_tryOrphan C env s hobj hlook it'.1
      rw [if_neg hne] at hdesk
      exact (congrArg Desk.orphan hdesk).trans hlook'

/-- Every orphan vote is filed under its object. -/
def OrphansFiled (K : VoteKind V Ω) (s : Ballots V Ω) : Prop :=
  ∀ o v, s.orphanVotes.lookup o = some v → K.object v = o

theorem desk_CheckOrphanVotes (C : Crypto) (env : BudgetEnv) {s : Ballots V Ω}
    (hs : OrphansFiled K s) (o : uint256) :
    (K.CheckOrphanVotes C env s).desk o = (s.desk o).check K C env := by
  have hentries : ∀ it ∈ s.orphanVotes.entries,
      K.object it.2 = it.1 ∧ s.orphanVotes.lookup it.1 = some it.2 := by
    intro it hit
    have hlook : s.orphanVotes.lookup it.1 = some it.2 := mem_lookup_iff.mpr hit
    exact ⟨hs it.1 it.2 hlook, hlook⟩
  refine (desk_tryOrphans _ s.orphanVotes.nodupKeys s hentries o).trans ?_
  split_ifs with hmem
  · rfl
  · have hnone : s.orphanVotes.lookup o = none :=
      lookup_eq_none.mpr hmem
    cases hobj : s.objects.lookup o with
    | none => simp [Desk.check, desk, hnone, hobj]
    | some obj => simp [Desk.check, desk, hnone, hobj]

end

/-! ## Early votes, late votes, lost votes -/

section
variable (K : VoteKind V Ω)

/-- The votes on `o`, in order. -/
def votesOn (o : uint256) (es : List (BallotEvent V Ω)) : List V :=
  es.filterMap fun e => e.vote?.filter (K.object · = o)

/-- The part before `o` arrives, and the part from then on. -/
def before (o : uint256) (es : List (BallotEvent V Ω)) : List (BallotEvent V Ω) :=
  es.takeWhile fun e => !e.arrives o

def after (o : uint256) (es : List (BallotEvent V Ω)) : List (BallotEvent V Ω) :=
  es.dropWhile fun e => !e.arrives o

/-- The vote that waits for `o` when it arrives: the last one before, of those that came
while the node was synced. -/
def held (o : uint256) (es : List (BallotEvent V Ω)) : Option V :=
  (votesOn K o ((before o es).filter fun e => e.env.isSynced)).getLast?

/-- The vote comes before its object and is not the one held. -/
def Lost (o : uint256) (es : List (BallotEvent V Ω)) (v : V) : Prop :=
  v ∈ votesOn K o (before o es) ∧ held K o es ≠ some v

variable (C : Crypto)

/-- Valid votes and objects, each once: the clock does not go back, no vote is ahead of
it, votes of one voter on one object are far enough apart, and hashes tell the votes and
the objects apart. -/
structure Sound (es : List (BallotEvent V Ω)) : Prop where
  clock : es.Pairwise fun e e' => e.env.time ≤ e'.env.time
  ahead : ∀ e ∈ es, ∀ v, e.vote? = some v → K.nTime v ≤ e.env.time + 60 * 60
  apart : ∀ v ∈ es.filterMap BallotEvent.vote?, ∀ w ∈ es.filterMap BallotEvent.vote?,
    K.object v = K.object w → K.voter C v = K.voter C w → v ≠ w →
      K.nTime v + BUDGET_VOTE_UPDATE_MIN ≤ K.nTime w ∨
        K.nTime w + BUDGET_VOTE_UPDATE_MIN ≤ K.nTime v
  votesOnce : ((es.filterMap BallotEvent.vote?).map (K.GetHash C)).Nodup
  objectsOnce : (es.filterMap BallotEvent.hash?).Nodup

/-- Objects arrive without votes. -/
def Unvoted (es : List (BallotEvent V Ω)) : Prop :=
  ∀ env hash obj, BallotEvent.object env hash obj ∈ es → K.mapVotes obj = ∅

variable {K} {C} {o : uint256} {es : List (BallotEvent V Ω)}

theorem mem_votesOn :
    v ∈ votesOn K o es ↔ v ∈ es.filterMap BallotEvent.vote? ∧ K.object v = o := by
  simp only [votesOn, mem_filterMap, filter_eq_some_iff, decide_eq_true_eq]
  constructor
  · rintro ⟨e, he, hv, ho⟩
    exact ⟨⟨e, he, hv⟩, ho⟩
  · rintro ⟨⟨e, he, hv⟩, ho⟩
    exact ⟨e, he, hv, ho⟩

variable {env : BudgetEnv}

theorem votesOn_cons_vote (ho : K.object v = o) :
    votesOn K o (.vote env v :: es) = v :: votesOn K o es :=
  filterMap_cons_some (by simpa [BallotEvent.vote?] using ho)

theorem votesOn_cons_other {e : BallotEvent V Ω} (he : ∀ v, e.vote? = some v → K.object v ≠ o) :
    votesOn K o (e :: es) = votesOn K o es := by
  refine filterMap_cons_none ?_
  cases hv : e.vote? with
  | none => rfl
  | some v => simpa using he v hv

theorem votesOn_synced_cons_other {e : BallotEvent V Ω}
    (he : ∀ v, e.vote? = some v → e.env.isSynced = true → K.object v ≠ o) :
    votesOn K o ((e :: es).filter fun e => e.env.isSynced) =
      votesOn K o (es.filter fun e => e.env.isSynced) := by
  by_cases hsync : e.env.isSynced = true
  · rw [filter_cons_of_pos (by exact hsync)]
    exact votesOn_cons_other fun v hv => he v hv hsync
  · rw [filter_cons_of_neg (by exact hsync)]

theorem before_append_after (o : uint256) (es : List (BallotEvent V Ω)) :
    before o es ++ after o es = es := takeWhile_append_dropWhile

theorem held_mem (h : held K o es = some v) : v ∈ votesOn K o (before o es) := by
  have hmem := mem_of_getLast? h
  rw [mem_votesOn] at hmem ⊢
  refine ⟨?_, hmem.2⟩
  obtain ⟨e, he, hv⟩ := mem_filterMap.mp hmem.1
  exact mem_filterMap.mpr ⟨e, mem_of_mem_filter he, hv⟩

theorem Sound.not_both (h : Sound K C es) (hearly : v ∈ votesOn K o (before o es)) :
    v ∉ votesOn K o (after o es) := by
  intro hlate
  have hnodup := h.votesOnce.of_map
  rw [← before_append_after o es, filterMap_append] at hnodup
  exact (nodup_append.mp hnodup).2.2 v (mem_votesOn.mp hearly).1 v (mem_votesOn.mp hlate).1 rfl

/-! ## The desk over a run -/

theorem desk_before (l : List (BallotEvent V Ω)) (hl : ∀ e ∈ l, e.arrives o = false)
    (w : Option V) :
    l.foldl (Desk.step K C o) ⟨none, w⟩ =
      ⟨none, ((votesOn K o (l.filter fun e => e.env.isSynced)).getLast?).or w⟩ := by
  induction l generalizing w with
  | nil => simp [votesOn]
  | cons e l ih =>
    have hrest : ∀ e ∈ l, e.arrives o = false := fun e he => hl e (.tail _ he)
    -- an event that is no vote on the object leaves the place as it is
    have skip (hvote : ∀ v, e.vote? = some v → e.env.isSynced = true → K.object v ≠ o)
        (hstep : Desk.step K C o ⟨none, w⟩ e = ⟨none, w⟩) :
        (e :: l).foldl (Desk.step K C o) ⟨none, w⟩ =
          ⟨none, ((votesOn K o ((e :: l).filter fun e => e.env.isSynced)).getLast?).or w⟩ := by
      rw [foldl_cons, hstep, votesOn_synced_cons_other hvote]
      exact ih hrest w
    cases e with
    | object env hash obj =>
      have hne : ¬ hash = o := by
        simpa [BallotEvent.arrives, BallotEvent.hash?] using hl _ mem_cons_self
      refine skip nofun ?_
      rw [Desk.step, if_neg hne]
      rfl
    | check env => exact skip nofun rfl
    | idle env => exact skip nofun rfl
    | vote env v =>
      by_cases ho : K.object v = o
      case neg =>
        refine skip (fun u hu _ => ?_) ?_
        · obtain rfl : v = u := some.inj hu
          exact ho
        · rw [Desk.step, if_neg ho]
      by_cases hsync : env.isSynced = true
      case neg =>
        refine skip (fun u _ hs => absurd hs hsync) ?_
        rw [Desk.step, if_pos ho, Desk.vote, if_neg hsync]
      have hvotes : votesOn K o
          ((BallotEvent.vote env v :: l).filter fun e => e.env.isSynced) =
            v :: votesOn K o (l.filter fun e => e.env.isSynced) := by
        rw [filter_cons_of_pos (by exact hsync)]
        exact votesOn_cons_vote ho
      rw [foldl_cons, Desk.step, if_pos ho, Desk.vote, if_pos hsync, ih hrest, hvotes,
        List.getLast?_cons]
      cases (votesOn K o (l.filter fun e => e.env.isSynced)).getLast? with
      | none => rfl
      | some u => rfl

theorem AddOrUpdateVote_latest {m : HashMap V} {k : uint256} {S : Set V}
    (hm : Latest.IsLatest K.nTime S (m.lookup k)) (hahead : K.nTime v ≤ env.time + 60 * 60)
    (hapart : K.voter C v = k → ∀ w ∈ S, w ≠ v →
      K.nTime v + BUDGET_VOTE_UPDATE_MIN ≤ K.nTime w ∨
        K.nTime w + BUDGET_VOTE_UPDATE_MIN ≤ K.nTime v) :
    Latest.IsLatest K.nTime (if K.voter C v = k then insert v S else S)
      ((K.AddOrUpdateVote C env m v).1.lookup k) := by
  rw [VoteKind.AddOrUpdateVote, if_neg (show ¬ K.nTime v > env.time + 60 * 60 from
    not_lt.mpr hahead)]
  by_cases hk : K.voter C v = k
  · subst hk
    rw [if_pos rfl]
    cases hold : m.lookup (K.voter C v) with
    | none =>
      rw [if_neg (by simp)]
      rw [hold] at hm
      exact (lookup_insert m).symm ▸ hm.take nofun
    | some w =>
      rw [hold] at hm
      by_cases hout : K.keepsOut w v = true
      · rw [if_pos (by simpa using hout)]
        rw [hold]
        refine hm.keep ?_
        by_cases hwv : w = v
        · rw [hwv]
        · simp only [VoteKind.keepsOut, Bool.or_eq_true, decide_eq_true_eq] at hout
          have := hapart rfl w hm.1 hwv
          simp only [BUDGET_VOTE_UPDATE_MIN] at this hout
          omega
      · rw [if_neg (by simpa using hout)]
        refine (lookup_insert m).symm ▸ hm.take ?_
        rintro a ⟨⟩
        simp only [VoteKind.keepsOut, Bool.or_eq_true, decide_eq_true_eq, not_or] at hout
        omega
  · rw [if_neg hk]
    split_ifs
    · exact hm
    · rw [lookup_insert_ne (Ne.symm hk)]
      exact hm

theorem setOf_insert_voter (S : Set V) (v : V) (k : uint256) :
    {w | w ∈ insert v S ∧ K.voter C w = k} =
      if K.voter C v = k then insert v {w | w ∈ S ∧ K.voter C w = k}
      else {w | w ∈ S ∧ K.voter C w = k} := by
  ext w
  by_cases hk : K.voter C v = k
  · rw [if_pos hk]
    constructor
    · rintro ⟨rfl | hw, hv⟩
      · exact .inl rfl
      · exact .inr ⟨hw, hv⟩
    · rintro (rfl | hw)
      · exact ⟨.inl rfl, hk⟩
      · exact ⟨.inr hw.1, hw.2⟩
  · rw [if_neg hk]
    constructor
    · rintro ⟨rfl | hw, hv⟩
      · exact absurd hv hk
      · exact ⟨hw, hv⟩
    · rintro ⟨hw, hv⟩
      exact ⟨.inr hw, hv⟩

theorem desk_after (l : List (BallotEvent V Ω)) (hl : ∀ e ∈ l, e.arrives o = false) (obj : Ω)
    (S : Set V) (hS : ∀ v ∈ S, K.object v = o)
    (hahead : ∀ e ∈ l, ∀ v, e.vote? = some v → K.nTime v ≤ e.env.time + 60 * 60)
    (hapart : ∀ v, (v ∈ S ∨ v ∈ votesOn K o l) → ∀ w, (w ∈ S ∨ w ∈ votesOn K o l) →
      K.voter C v = K.voter C w → v ≠ w →
      K.nTime v + BUDGET_VOTE_UPDATE_MIN ≤ K.nTime w ∨
        K.nTime w + BUDGET_VOTE_UPDATE_MIN ≤ K.nTime v)
    (hobj : ∀ k, Latest.IsLatest K.nTime {v | v ∈ S ∧ K.voter C v = k}
      ((K.mapVotes obj).lookup k)) :
    ∃ obj', l.foldl (Desk.step K C o) ⟨some obj, none⟩ = ⟨some obj', none⟩ ∧
      ∀ k, Latest.IsLatest K.nTime {v | (v ∈ S ∨ v ∈ votesOn K o l) ∧ K.voter C v = k}
        ((K.mapVotes obj').lookup k) := by
  induction l generalizing obj S with
  | nil =>
    refine ⟨obj, rfl, ?_⟩
    intro k
    simpa [votesOn] using hobj k
  | cons e l ih =>
    have hrest : ∀ e ∈ l, e.arrives o = false := fun e he => hl e (.tail _ he)
    have hahead' : ∀ e ∈ l, ∀ v, e.vote? = some v → K.nTime v ≤ e.env.time + 60 * 60 :=
      fun e he => hahead e (.tail _ he)
    -- an event that is no vote on the object leaves the desk and the votes as they are
    have skip (hvotes : votesOn K o (e :: l) = votesOn K o l)
        (hstep : Desk.step K C o ⟨some obj, none⟩ e = ⟨some obj, none⟩) :
        ∃ obj', (e :: l).foldl (Desk.step K C o) ⟨some obj, none⟩ = ⟨some obj', none⟩ ∧
          ∀ k, Latest.IsLatest K.nTime
            {v | (v ∈ S ∨ v ∈ votesOn K o (e :: l)) ∧ K.voter C v = k}
            ((K.mapVotes obj').lookup k) := by
      rw [foldl_cons, hstep, hvotes]
      exact ih hrest obj S hS hahead' (hvotes ▸ hapart) hobj
    cases e with
    | object env hash obj₁ =>
      have hne : ¬ hash = o := by
        simpa [BallotEvent.arrives, BallotEvent.hash?] using hl _ mem_cons_self
      refine skip (votesOn_cons_other nofun) ?_
      rw [Desk.step, if_neg hne]
      rfl
    | check env => exact skip (votesOn_cons_other nofun) rfl
    | idle env => exact skip (votesOn_cons_other nofun) rfl
    | vote env v =>
      by_cases ho : K.object v = o
      case neg =>
        refine skip (votesOn_cons_other fun u hu => ?_) ?_
        · obtain rfl : v = u := some.inj hu
          exact ho
        · rw [Desk.step, if_neg ho]
      have hvotes : votesOn K o (.vote env v :: l) = v :: votesOn K o l := votesOn_cons_vote ho
      have hset : ∀ w, (w ∈ insert v S ∨ w ∈ votesOn K o l) ↔
          (w ∈ S ∨ w ∈ votesOn K o (.vote env v :: l)) := by
        intro w
        rw [hvotes, Set.mem_insert_iff, mem_cons]
        tauto
      have hstep : Desk.step K C o ⟨some obj, none⟩ (.vote env v) =
          ⟨some (K.withVotes obj (K.AddOrUpdateVote C env (K.mapVotes obj) v).1), none⟩ := by
        rw [Desk.step, if_pos ho]
        rfl
      have hS' : ∀ w ∈ insert v S, K.object w = o := by
        intro w hw
        rcases Set.mem_insert_iff.mp hw with rfl | hw
        · exact ho
        · exact hS w hw
      have hobj' : ∀ k, Latest.IsLatest K.nTime {w | w ∈ insert v S ∧ K.voter C w = k}
          ((K.mapVotes (K.withVotes obj
            (K.AddOrUpdateVote C env (K.mapVotes obj) v).1)).lookup k) := by
        intro k
        rw [K.mapVotes_withVotes, setOf_insert_voter]
        refine AddOrUpdateVote_latest (hobj k) (hahead _ mem_cons_self v rfl) ?_
        rintro rfl w hw hne
        exact hapart v (by simp [hvotes]) w (.inl hw.1) hw.2.symm (Ne.symm hne)
      obtain ⟨obj', hrun, htally⟩ := ih hrest _ (insert v S) hS' hahead'
        (fun a ha b hb => hapart a ((hset a).mp ha) b ((hset b).mp hb)) hobj'
      refine ⟨obj', ?_, ?_⟩
      · rw [foldl_cons, hstep]
        exact hrun
      · intro k
        simpa only [hset] using htally k

theorem Sound.arrival (h : Sound K C es) (harr : o ∈ es.filterMap BallotEvent.hash?) :
    ∃ env obj rest, after o es = .object env o obj :: rest ∧ ∀ e ∈ rest, e.arrives o = false := by
  cases hafter : after o es with
  | nil =>
    obtain ⟨e, he, hhash⟩ := mem_filterMap.mp harr
    have hall := dropWhile_eq_nil_iff.mp hafter e he
    simp [BallotEvent.arrives, hhash] at hall
  | cons e rest =>
    have hhead := List.head?_dropWhile_not (fun e : BallotEvent V Ω => !e.arrives o) es
    rw [show es.dropWhile _ = e :: rest from hafter] at hhead
    have he : e.hash? = some o := by simpa [BallotEvent.arrives] using hhead
    have hrest : ∀ e ∈ rest, e.arrives o = false := by
      intro e' he'
      by_contra harr'
      have he'' : e'.hash? = some o := by simpa [BallotEvent.arrives] using harr'
      have hnodup := h.objectsOnce
      rw [← before_append_after o es, hafter, filterMap_append, filterMap_cons_some he] at hnodup
      have hcons := (nodup_append.mp hnodup).2.1
      exact (nodup_cons.mp hcons).1 (mem_filterMap.mpr ⟨e', he', he''⟩)
    cases e with
    | object env hash obj =>
      obtain rfl : hash = o := some.inj he
      exact ⟨env, obj, rest, rfl, hrest⟩
    | vote env v => cases he
    | check env => cases he
    | idle env => cases he

theorem AddOrUpdateVote_empty (h : K.nTime v ≤ env.time + 60 * 60) :
    K.AddOrUpdateVote C env ∅ v = ((∅ : HashMap V).insert (K.voter C v) v, true) := by
  rw [VoteKind.AddOrUpdateVote, if_neg (by simp), if_neg (not_lt.mpr h)]

theorem Sound.meets (h : Sound K C es) {obj : Ω} {rest : List (BallotEvent V Ω)}
    (hes : es = before o es ++ .object env o obj :: rest) (hunvoted : K.mapVotes obj = ∅) :
    ∃ obj', Desk.step K C o ⟨none, held K o es⟩ (.object env o obj) = ⟨some obj', none⟩ ∧
      ∀ k, Latest.IsLatest K.nTime {v | v ∈ {v | held K o es = some v} ∧ K.voter C v = k}
        ((K.mapVotes obj').lookup k) := by
  rw [Desk.step, if_pos rfl]
  cases hheld : held K o es with
  | none =>
    refine ⟨obj, rfl, ?_⟩
    intro k
    simp [hunvoted]
  | some v =>
    have hahead : K.nTime v ≤ env.time + 60 * 60 := by
      obtain ⟨hmem, -⟩ := mem_votesOn.mp (held_mem hheld)
      obtain ⟨e, he, hv⟩ := mem_filterMap.mp hmem
      have hclock := h.clock
      rw [hes, pairwise_append] at hclock
      have hle : e.env.time ≤ env.time := hclock.2.2 e he _ mem_cons_self
      have hown := h.ahead e (by rw [hes]; exact mem_append_left _ he) v hv
      omega
    refine ⟨K.withVotes obj ((∅ : HashMap V).insert (K.voter C v) v), ?_, ?_⟩
    · simp only [Desk.check, hunvoted, AddOrUpdateVote_empty hahead, if_true]
    · intro k
      rw [K.mapVotes_withVotes]
      by_cases hk : K.voter C v = k
      · subst hk
        rw [lookup_insert]
        refine ⟨⟨rfl, rfl⟩, ?_⟩
        rintro w ⟨hw, -⟩
        obtain rfl : v = w := some.inj hw
        exact le_rfl
      · rw [lookup_insert_ne (Ne.symm hk), lookup_empty, Latest.isLatest_none]
        refine Set.eq_empty_of_forall_notMem ?_
        rintro w ⟨hw, hwk⟩
        obtain rfl : v = w := some.inj hw
        exact hk hwk

section
variable (h : Sound K C es) (hun : Unvoted K es) (harr : o ∈ es.filterMap BallotEvent.hash?)
include h hun harr

/-- **A run at one desk.**  The tally ends with the latest of each voter among the votes
after the object and the one held for it. -/
theorem desk_run :
    ∃ obj, es.foldl (Desk.step K C o) ⟨none, none⟩ = ⟨some obj, none⟩ ∧
      ∀ k, Latest.IsLatest K.nTime
        {v | (held K o es = some v ∨ v ∈ votesOn K o (after o es)) ∧ K.voter C v = k}
        ((K.mapVotes obj).lookup k) := by
  obtain ⟨env, obj, rest, hafter, hrest⟩ := h.arrival harr
  have hes : es = before o es ++ .object env o obj :: rest := by
    rw [← hafter]
    exact (before_append_after o es).symm
  have hbefore : ∀ e ∈ before o es, e.arrives o = false := by
    intro e he
    simpa using mem_takeWhile_imp he
  have hunvoted : K.mapVotes obj = ∅ := hun env o obj (by rw [hes]; simp)
  have hvotes : votesOn K o (after o es) = votesOn K o rest := by
    rw [hafter]
    exact votesOn_cons_other nofun
  obtain ⟨obj', hstep, htally⟩ := h.meets hes hunvoted
  have hmem : ∀ v, (v ∈ {v | held K o es = some v} ∨ v ∈ votesOn K o rest) →
      v ∈ es.filterMap BallotEvent.vote? ∧ K.object v = o := by
    rintro v (hv | hv)
    · have hv' := mem_votesOn.mp (held_mem hv)
      refine ⟨?_, hv'.2⟩
      rw [hes, filterMap_append]
      exact mem_append_left _ hv'.1
    · rw [← hvotes] at hv
      have hv' := mem_votesOn.mp hv
      refine ⟨?_, hv'.2⟩
      rw [← before_append_after o es, filterMap_append]
      exact mem_append_right _ hv'.1
  obtain ⟨obj'', hrun, hlatest⟩ := desk_after (C := C) rest hrest obj' {v | held K o es = some v}
    (fun v hv => (hmem v (.inl hv)).2)
    (fun e he => h.ahead e (by rw [hes]; exact mem_append_right _ (.tail _ he)))
    (fun v hv w hw hvoter hne => h.apart v (hmem v hv).1 w (hmem w hw).1
      ((hmem v hv).2.trans (hmem w hw).2.symm) hvoter hne)
    htally
  refine ⟨obj'', ?_, ?_⟩
  · have hplace := desk_before (K := K) (C := C) (before o es) hbefore none
    rw [or_none] at hplace
    have hfold : es.foldl (Desk.step K C o) ⟨none, none⟩ =
        (before o es ++ .object env o obj :: rest).foldl (Desk.step K C o) ⟨none, none⟩ :=
      congrArg _ hes
    rw [hfold, foldl_append, foldl_cons, hplace]
    exact (congrArg (fun d => rest.foldl (Desk.step K C o) d) hstep).trans hrun
  · intro k
    rw [hvotes]
    exact hlatest k

/-- **No vote lost.**  At the desk of an object that arrived, the tally holds the latest of
all votes on it exactly when each lost vote is superseded by a later one of its voter. -/
theorem desk_complete_iff :
    ∃ obj, es.foldl (Desk.step K C o) ⟨none, none⟩ = ⟨some obj, none⟩ ∧
      ((∀ k, Latest.IsLatest K.nTime {v | v ∈ votesOn K o es ∧ K.voter C v = k}
          ((K.mapVotes obj).lookup k)) ↔
        ∀ v, Lost K o es v →
          ∃ w ∈ votesOn K o es, K.voter C w = K.voter C v ∧ K.nTime v < K.nTime w) := by
  obtain ⟨obj, hrun, htally⟩ := desk_run h hun harr
  refine ⟨obj, hrun, ?_⟩
  have hsplit : votesOn K o es = votesOn K o (before o es) ++ votesOn K o (after o es) := by
    rw [votesOn, votesOn, votesOn, ← filterMap_append, before_append_after]
  -- the votes that were offered to the tally are all but the lost ones
  have hoffered : ∀ v, (held K o es = some v ∨ v ∈ votesOn K o (after o es)) ↔
      v ∈ votesOn K o es ∧ ¬ Lost K o es v := by
    intro v
    rw [hsplit, mem_append]
    constructor
    · rintro (hv | hv)
      · exact ⟨.inl (held_mem hv), fun hlost => hlost.2 hv⟩
      · exact ⟨.inr hv, fun hlost => h.not_both hlost.1 hv⟩
    · rintro ⟨hv | hv, hkept⟩
      · left
        by_contra hheld
        exact hkept ⟨hv, hheld⟩
      · exact .inr hv
  have hbyVoter : ∀ k, (Latest.IsLatest K.nTime {v | v ∈ votesOn K o es ∧ K.voter C v = k}
      ((K.mapVotes obj).lookup k) ↔
        ∀ v, (v ∈ votesOn K o es ∧ K.voter C v = k) → Lost K o es v →
          ∃ w, (w ∈ votesOn K o es ∧ K.voter C w = k) ∧ K.nTime v < K.nTime w) := by
    intro k
    rw [(htally k).superset_iff]
    · constructor
      · intro hsup v hv hlost
        refine hsup v hv ?_
        rintro ⟨hv', -⟩
        exact ((hoffered v).mp hv').2 hlost
      · intro hsup v hv hmissed
        refine hsup v hv ?_
        by_contra hkept
        exact hmissed ⟨(hoffered v).mpr ⟨hv.1, hkept⟩, hv.2⟩
    · rintro v ⟨hv, hk⟩
      exact ⟨((hoffered v).mp hv).1, hk⟩
    · exact (finite_toSet (votesOn K o es)).subset fun v hv => hv.1
    · rintro v ⟨hv, hvk⟩ w ⟨hw, hwk⟩ htie
      by_contra hne
      have hv' := mem_votesOn.mp hv
      have hw' := mem_votesOn.mp hw
      have := h.apart v hv'.1 w hw'.1 (hv'.2.trans hw'.2.symm) (hvk.trans hwk.symm) hne
      simp only [BUDGET_VOTE_UPDATE_MIN] at this
      omega
  constructor
  · intro hall v hlost
    have hv : v ∈ votesOn K o es := by
      rw [hsplit]
      exact mem_append_left _ hlost.1
    obtain ⟨w, hw, hlt⟩ := (hbyVoter (K.voter C v)).mp (hall _) v ⟨hv, rfl⟩ hlost
    exact ⟨w, hw.1, hw.2, hlt⟩
  · intro hsup k
    refine (hbyVoter k).mpr ?_
    rintro v ⟨-, rfl⟩ hlost
    obtain ⟨w, hw, hvoter, hlt⟩ := hsup v hlost
    exact ⟨w, ⟨hw, hvoter⟩, hlt⟩

end

end

end Divitae
