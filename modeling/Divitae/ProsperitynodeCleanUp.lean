/-
# `ProsperitynodeCleanUp` — what the clean-up of the prosperitynodes leaves

`CheckAndRemove` goes over the list and six maps with iterators and erases on the way:

    the list          nodes that are spent, removed, expired or outdated; with each, the
                      broadcasts seen of it, here and in `prosperitynodeSync`, and that it has
                      been asked for
    three maps        who asked us, whom we asked, which nodes we asked for: by time
    seen broadcasts   by the time of their ping, here and in `prosperitynodeSync`
    seen pings        by their time

That a node has been asked for is forgotten with the node, however recent it is:

    "allow us to ask for this prosperitynode again if we see another ping"

In the pass over the seen broadcasts the iterator has moved on when the hash for `mapSeenSyncMNB` is
taken through it, so what that map loses is the next broadcast of the pass.
-/
import Divitae.Lib.Keyed
import Divitae.ProsperitynodeRuns

namespace Divitae

open List Keyed

/-- What `CProsperitynodeMan` keeps, and the map of `prosperitynodeSync` that is kept in step; the
entries of a map stand in the order of its iterator. -/
structure NodeRecords where
  vProsperitynodes : List CProsperitynode
  mapSeenProsperitynodeBroadcast : AList fun _ : uint256 => CProsperitynodeBroadcast
  mapSeenProsperitynodePing : AList fun _ : uint256 => CProsperitynodePing
  mAskedUsForProsperitynodeList : AList fun _ : CNetAddr => Int
  mWeAskedForProsperitynodeList : AList fun _ : CNetAddr => Int
  mWeAskedForProsperitynodeListEntry : AList fun _ : COutPoint => Int
  mapSeenSyncMNB : AList fun _ : uint256 => Int

namespace NodeRecords

section
variable (C : Crypto) (env : NodeEnv) (s : NodeRecords)

/-- The list and what has been seen, without the rest. -/
def toMan : CProsperitynodeMan where
  vProsperitynodes := s.vProsperitynodes
  mapSeenProsperitynodeBroadcast := s.mapSeenProsperitynodeBroadcast.lookup
  mapSeenProsperitynodePing := s.mapSeenProsperitynodePing.lookup

def outOfDate (sigTime : Int) : Bool := sigTime < env.time - PROSPERITYNODE_REMOVAL_SECONDS * 2

/-- Erase all of the broadcasts we've seen from this vin. -/
def forgetBroadcasts (vin : CTxIn) : NodeRecords :=
  s.mapSeenProsperitynodeBroadcast.entries.foldl
    (fun s it3 =>
      if it3.2.vin == vin then
        { s with
          mapSeenSyncMNB := s.mapSeenSyncMNB.erase it3.1
          mapSeenProsperitynodeBroadcast := s.mapSeenProsperitynodeBroadcast.erase it3.1 }
      else s)
    s

/-- What goes with a node that is taken off the list. -/
def forget (vin : CTxIn) : NodeRecords :=
  let s := s.forgetBroadcasts vin
  -- allow us to ask for this prosperitynode again if we see another ping
  { s with
    mWeAskedForProsperitynodeListEntry :=
      Keyed.sweep (fun out _ => out == vin.prevout) s.mWeAskedForProsperitynodeListEntry }

/-- The loop over the nodes: those that stay, and the records without the others. -/
def removeNodes (forceExpiredRemoval : Bool) :
    List CProsperitynode → NodeRecords → List CProsperitynode × NodeRecords
  | [], s => ([], s)
  | it :: rest, s =>
    if mustRemove env forceExpiredRemoval it then
      removeNodes forceExpiredRemoval rest (s.forget it.vin)
    else
      let left := removeNodes forceExpiredRemoval rest s
      (it :: left.1, left.2)

/-- The pass over the seen broadcasts, `mapSeenProsperitynodeBroadcast` and `mapSeenSyncMNB`.  With
nothing behind the one that is erased the iterator is at the end, and `pastEnd` is what is read
there for a hash. -/
def expireBroadcasts (pastEnd : uint256) :
    List (Sigma fun _ : uint256 => CProsperitynodeBroadcast) →
      (AList fun _ : uint256 => CProsperitynodeBroadcast) → (AList fun _ : uint256 => Int) →
      (AList fun _ : uint256 => CProsperitynodeBroadcast) × AList fun _ : uint256 => Int
  | [], seen, seenSync => (seen, seenSync)
  | it3 :: rest, seen, seenSync =>
    if outOfDate env it3.2.lastPing.sigTime then
      expireBroadcasts pastEnd rest (seen.erase it3.1)
        (seenSync.erase (rest.head?.elim pastEnd fun next => next.2.GetHash C))
    else expireBroadcasts pastEnd rest seen seenSync

/-- `CProsperitynodeMan::CheckAndRemove`. -/
def CheckAndRemove (pastEnd : uint256) (forceExpiredRemoval : Bool) : NodeRecords :=
  let nodes := s.vProsperitynodes.map (·.Check env false)
  -- remove inactive and outdated
  let (left, s) := removeNodes env forceExpiredRemoval nodes s
  let (seen, seenSync) := expireBroadcasts C env pastEnd s.mapSeenProsperitynodeBroadcast.entries
    s.mapSeenProsperitynodeBroadcast s.mapSeenSyncMNB
  { vProsperitynodes := left
    mAskedUsForProsperitynodeList :=
      Keyed.sweep (fun _ t => t < env.time) s.mAskedUsForProsperitynodeList
    mWeAskedForProsperitynodeList :=
      Keyed.sweep (fun _ t => t < env.time) s.mWeAskedForProsperitynodeList
    mWeAskedForProsperitynodeListEntry :=
      Keyed.sweep (fun _ t => t < env.time) s.mWeAskedForProsperitynodeListEntry
    mapSeenProsperitynodeBroadcast := seen
    mapSeenSyncMNB := seenSync
    mapSeenProsperitynodePing :=
      Keyed.sweep (fun _ fnp => outOfDate env fnp.sigTime) s.mapSeenProsperitynodePing }

end

/-! ## Nodes that are forgotten -/

/-- `s'` is `s` without what it knew of these inputs; the rest of it is as it was. -/
structure Forgotten (vins : List CTxIn) (s s' : NodeRecords) : Prop where
  broadcast : ∀ h fnb, s'.mapSeenProsperitynodeBroadcast.lookup h = some fnb ↔
    s.mapSeenProsperitynodeBroadcast.lookup h = some fnb ∧ fnb.vin ∉ vins
  sync : ∀ h n, s'.mapSeenSyncMNB.lookup h = some n ↔ s.mapSeenSyncMNB.lookup h = some n ∧
    ∀ fnb, s.mapSeenProsperitynodeBroadcast.lookup h = some fnb → fnb.vin ∉ vins
  entry : ∀ out t, s'.mWeAskedForProsperitynodeListEntry.lookup out = some t ↔
    s.mWeAskedForProsperitynodeListEntry.lookup out = some t ∧ ∀ vin ∈ vins, vin.prevout ≠ out
  ping : s'.mapSeenProsperitynodePing = s.mapSeenProsperitynodePing
  askedUs : s'.mAskedUsForProsperitynodeList = s.mAskedUsForProsperitynodeList
  weAsked : s'.mWeAskedForProsperitynodeList = s.mWeAskedForProsperitynodeList

variable {C : Crypto} {env : NodeEnv} {s s' s'' : NodeRecords} {vin : CTxIn} {vins : List CTxIn}

theorem forgotten_nil (s : NodeRecords) : Forgotten [] s s := by
  refine ⟨?_, ?_, ?_, rfl, rfl, rfl⟩ <;> simp

theorem Forgotten.cons (h : Forgotten [vin] s s') (h' : Forgotten vins s' s'') :
    Forgotten (vin :: vins) s s'' where
  broadcast hash fnb := by
    rw [h'.broadcast, h.broadcast, mem_singleton, mem_cons, not_or, and_assoc]
  sync hash n := by
    rw [h'.sync, h.sync, and_assoc]
    refine and_congr_right fun _ => ?_
    constructor
    · rintro ⟨hone, hmore⟩ fnb hfnb
      have hfirst := hone fnb hfnb
      rw [mem_cons, not_or]
      exact ⟨fun heq => hfirst (mem_singleton.mpr heq),
        hmore fnb ((h.broadcast hash fnb).mpr ⟨hfnb, hfirst⟩)⟩
    · intro hall
      refine ⟨fun fnb hfnb => ?_, fun fnb hfnb => ?_⟩
      · rw [mem_singleton]
        exact (not_or.mp (mt mem_cons.mpr (hall fnb hfnb))).1
      · exact (not_or.mp (mt mem_cons.mpr (hall fnb ((h.broadcast hash fnb).mp hfnb).1))).2
  entry out t := by
    rw [h'.entry, h.entry, forall_mem_singleton, forall_mem_cons, and_assoc]
  ping := h'.ping.trans h.ping
  askedUs := h'.askedUs.trans h.askedUs
  weAsked := h'.weAsked.trans h.weAsked

theorem forgetBroadcasts_eq (s : NodeRecords) (vin : CTxIn) :
    s.forgetBroadcasts vin =
      { s with
        mapSeenSyncMNB := eraseAll (fun e => e.1)
          (s.mapSeenProsperitynodeBroadcast.entries.filter fun e => e.2.vin == vin)
          s.mapSeenSyncMNB
        mapSeenProsperitynodeBroadcast :=
          sweep (fun _ fnb => fnb.vin == vin) s.mapSeenProsperitynodeBroadcast } := by
  have hloop : ∀ (entries : List (Sigma fun _ : uint256 => CProsperitynodeBroadcast))
      (s : NodeRecords),
      entries.foldl (fun s it3 =>
        if it3.2.vin == vin then
          { s with
            mapSeenSyncMNB := s.mapSeenSyncMNB.erase it3.1
            mapSeenProsperitynodeBroadcast := s.mapSeenProsperitynodeBroadcast.erase it3.1 }
        else s) s =
      { s with
        mapSeenSyncMNB := eraseAll (fun e => e.1)
          (entries.filter fun e => e.2.vin == vin) s.mapSeenSyncMNB
        mapSeenProsperitynodeBroadcast := entries.foldl
          (fun m e => if e.2.vin == vin then m.erase e.1 else m)
            s.mapSeenProsperitynodeBroadcast } := by
    intro entries
    induction entries with
    | nil => exact fun s => rfl
    | cons it3 rest ih =>
      intro s
      rw [foldl_cons, foldl_cons, ih]
      split_ifs with hvin
      · rw [filter_cons, if_pos hvin]
        rfl
      · rw [filter_cons, if_neg hvin]
  exact hloop _ s

theorem forget_forgotten (s : NodeRecords) (vin : CTxIn) : Forgotten [vin] s (s.forget vin) := by
  rw [forget, forgetBroadcasts_eq]
  refine ⟨?_, ?_, ?_, rfl, rfl, rfl⟩
  · intro h fnb
    have hvin : (fnb.vin == vin) = false ↔ fnb.vin ∉ [vin] := by simp
    exact lookup_sweep_eq_some.trans (and_congr_right fun _ => hvin)
  · intro h n
    refine lookup_eraseAll_eq_some.trans (and_comm.trans (and_congr_right fun _ => ?_))
    constructor
    · intro hnot fnb hfnb hvin
      refine hnot (mem_map.mpr ⟨⟨h, fnb⟩, mem_filter.mpr ?_, rfl⟩)
      exact ⟨mem_entries_iff.mpr hfnb, beq_iff_eq.mpr (mem_singleton.mp hvin)⟩
    · rintro hall hmem
      obtain ⟨⟨h', fnb⟩, hfilter, rfl⟩ := mem_map.mp hmem
      obtain ⟨hentry, hvin⟩ := mem_filter.mp hfilter
      exact hall fnb (mem_entries_iff.mp hentry) (mem_singleton.mpr (beq_iff_eq.mp hvin))
  · intro out t
    have hout : (out == vin.prevout) = false ↔ ∀ vin' ∈ [vin], vin'.prevout ≠ out := by
      rw [forall_mem_singleton, beq_eq_false_iff_ne, ne_comm]
    exact lookup_sweep_eq_some.trans (and_congr_right fun _ => hout)

def removed (env : NodeEnv) (forceExpiredRemoval : Bool) (nodes : List CProsperitynode) :
    List CTxIn :=
  (nodes.filter (mustRemove env forceExpiredRemoval)).map (·.vin)

/-- **The loop over the nodes.** -/
theorem removeNodes_spec (forceExpiredRemoval : Bool) (nodes : List CProsperitynode)
    (s : NodeRecords) :
    (removeNodes env forceExpiredRemoval nodes s).1 =
        nodes.filter (fun mn => !mustRemove env forceExpiredRemoval mn) ∧
      Forgotten (removed env forceExpiredRemoval nodes) s
        (removeNodes env forceExpiredRemoval nodes s).2 := by
  induction nodes generalizing s with
  | nil => exact ⟨rfl, forgotten_nil s⟩
  | cons it rest ih =>
    rw [removeNodes, removed]
    split_ifs with hremove
    · obtain ⟨hleft, hforgotten⟩ := ih (s.forget it.vin)
      rw [filter_cons_of_neg (by simp [hremove]), filter_cons_of_pos hremove, map_cons]
      exact ⟨hleft, (forget_forgotten s it.vin).cons hforgotten⟩
    · obtain ⟨hleft, hforgotten⟩ := ih s
      rw [filter_cons_of_pos (by simp [hremove]), filter_cons_of_neg hremove]
      exact ⟨congrArg (it :: ·) hleft, hforgotten⟩

section
variable {pastEnd : uint256} {entries : List (Sigma fun _ : uint256 => CProsperitynodeBroadcast)}
  {seen : AList fun _ : uint256 => CProsperitynodeBroadcast}
  {seenSync : AList fun _ : uint256 => Int}

theorem expireBroadcasts_seen :
    (expireBroadcasts C env pastEnd entries seen seenSync).1 =
      entries.foldl (fun m e => if outOfDate env e.2.lastPing.sigTime then m.erase e.1 else m)
        seen := by
  induction entries generalizing seen seenSync with
  | nil => rfl
  | cons it3 rest ih =>
    rw [expireBroadcasts, foldl_cons]
    split_ifs
    · exact ih
    · exact ih

theorem expireBroadcasts_sync {h : uint256} {n : Int}
    (hafter : (expireBroadcasts C env pastEnd entries seen seenSync).2.lookup h = some n) :
    seenSync.lookup h = some n := by
  induction entries generalizing seen seenSync with
  | nil => exact hafter
  | cons it3 rest ih =>
    rw [expireBroadcasts] at hafter
    split_ifs at hafter
    · exact (lookup_erase_cases (ih hafter)).2
    · exact ih hafter

theorem expireBroadcasts_quiet
    (hquiet : ∀ e ∈ entries, outOfDate env e.2.lastPing.sigTime = false) :
    (expireBroadcasts C env pastEnd entries seen seenSync).2 = seenSync := by
  induction entries generalizing seen seenSync with
  | nil => rfl
  | cons it3 rest ih =>
    rw [expireBroadcasts, hquiet it3 mem_cons_self, if_neg Bool.false_ne_true]
    exact ih fun e he => hquiet e (mem_cons_of_mem it3 he)

end

/-! ## The clean-up -/

/-- A node that stays. -/
structure Allowed (env : NodeEnv) (forceExpiredRemoval : Bool) (mn : CProsperitynode) : Prop where
  not_removed : mn.activeState ≠ .REMOVE
  not_spent : mn.activeState ≠ .VIN_SPENT
  not_expired : forceExpiredRemoval = true → mn.activeState ≠ .EXPIRED
  protocol : env.minProto ≤ mn.protocolVersion

theorem allowed_iff {forceExpiredRemoval : Bool} {mn : CProsperitynode} :
    mustRemove env forceExpiredRemoval mn = false ↔ Allowed env forceExpiredRemoval mn := by
  rw [mustRemove]
  simp only [Bool.or_eq_false_iff, Bool.and_eq_false_imp, beq_eq_false_iff_ne,
    decide_eq_false_iff_not, not_lt]
  constructor
  · rintro ⟨⟨⟨hremoved, hspent⟩, hexpired⟩, hprotocol⟩
    exact ⟨hremoved, hspent, hexpired, hprotocol⟩
  · rintro ⟨hremoved, hspent, hexpired, hprotocol⟩
    exact ⟨⟨⟨hremoved, hspent⟩, hexpired⟩, hprotocol⟩

/-- The inputs of the nodes a clean-up takes off the list. -/
def erasedVins (env : NodeEnv) (forceExpiredRemoval : Bool) (s : NodeRecords) : List CTxIn :=
  removed env forceExpiredRemoval (s.vProsperitynodes.map (·.Check env false))

/-- What a clean-up leaves.  Of `mapSeenSyncMNB` it says what becomes of the broadcasts of erased
nodes, and what becomes of the others while no broadcast is out of date. -/
structure CleanedUp (env : NodeEnv) (forceExpiredRemoval : Bool) (s s' : NodeRecords) : Prop where
  nodes : s'.vProsperitynodes = (s.vProsperitynodes.map (·.Check env false)).filter fun mn =>
    !mustRemove env forceExpiredRemoval mn
  allowed : ∀ mn ∈ s'.vProsperitynodes, Allowed env forceExpiredRemoval mn
  broadcasts : ∀ h fnb, s'.mapSeenProsperitynodeBroadcast.lookup h = some fnb ↔
    s.mapSeenProsperitynodeBroadcast.lookup h = some fnb ∧
      fnb.vin ∉ erasedVins env forceExpiredRemoval s ∧
      outOfDate env fnb.lastPing.sigTime = false
  sync_erased : ∀ h fnb, s.mapSeenProsperitynodeBroadcast.lookup h = some fnb →
    fnb.vin ∈ erasedVins env forceExpiredRemoval s → s'.mapSeenSyncMNB.lookup h = none
  sync_kept : (∀ h fnb, s.mapSeenProsperitynodeBroadcast.lookup h = some fnb →
      fnb.vin ∉ erasedVins env forceExpiredRemoval s →
      outOfDate env fnb.lastPing.sigTime = false) →
    ∀ h n, s'.mapSeenSyncMNB.lookup h = some n ↔ s.mapSeenSyncMNB.lookup h = some n ∧
      ∀ fnb, s.mapSeenProsperitynodeBroadcast.lookup h = some fnb →
        fnb.vin ∉ erasedVins env forceExpiredRemoval s
  askedUs : ∀ addr t, s'.mAskedUsForProsperitynodeList.lookup addr = some t ↔
    s.mAskedUsForProsperitynodeList.lookup addr = some t ∧ env.time ≤ t
  weAsked : ∀ addr t, s'.mWeAskedForProsperitynodeList.lookup addr = some t ↔
    s.mWeAskedForProsperitynodeList.lookup addr = some t ∧ env.time ≤ t
  weAskedEntry : ∀ out t, s'.mWeAskedForProsperitynodeListEntry.lookup out = some t ↔
    s.mWeAskedForProsperitynodeListEntry.lookup out = some t ∧ env.time ≤ t ∧
      ∀ vin ∈ erasedVins env forceExpiredRemoval s, vin.prevout ≠ out
  pings : ∀ h fnp, s'.mapSeenProsperitynodePing.lookup h = some fnp ↔
    s.mapSeenProsperitynodePing.lookup h = some fnp ∧ outOfDate env fnp.sigTime = false

theorem lookup_sweep_time {κ : Type} [DecidableEq κ] {m : AList fun _ : κ => Int} {k : κ} {t : Int}
    (time : Int) : (sweep (fun _ t => t < time) m).lookup k = some t ↔
      m.lookup k = some t ∧ time ≤ t := by
  refine lookup_sweep_eq_some.trans (and_congr_right fun _ => ?_)
  rw [decide_eq_false_iff_not, not_lt]

theorem CheckAndRemove_seen (C : Crypto) (env : NodeEnv) (pastEnd : uint256)
    (forceExpiredRemoval : Bool) (s : NodeRecords) :
    (s.CheckAndRemove C env pastEnd forceExpiredRemoval).vProsperitynodes =
        (s.vProsperitynodes.map (·.Check env false)).filter
          (fun mn => !mustRemove env forceExpiredRemoval mn) ∧
      (∀ h fnb, (s.CheckAndRemove C env pastEnd
          forceExpiredRemoval).mapSeenProsperitynodeBroadcast.lookup h = some fnb ↔
        s.mapSeenProsperitynodeBroadcast.lookup h = some fnb ∧
          fnb.vin ∉ erasedVins env forceExpiredRemoval s ∧
          outOfDate env fnb.lastPing.sigTime = false) ∧
      ∀ h fnp, (s.CheckAndRemove C env pastEnd
          forceExpiredRemoval).mapSeenProsperitynodePing.lookup h = some fnp ↔
        s.mapSeenProsperitynodePing.lookup h = some fnp ∧ outOfDate env fnp.sigTime = false := by
  obtain ⟨hleft, hforgotten⟩ := @removeNodes_spec env forceExpiredRemoval
    (s.vProsperitynodes.map (·.Check env false)) s
  rw [CheckAndRemove]
  generalize removeNodes env forceExpiredRemoval (s.vProsperitynodes.map (·.Check env false)) s =
    left at hleft hforgotten ⊢
  obtain ⟨nodes, s'⟩ := left
  dsimp only at hleft hforgotten ⊢
  have hseen : (expireBroadcasts C env pastEnd s'.mapSeenProsperitynodeBroadcast.entries
      s'.mapSeenProsperitynodeBroadcast s'.mapSeenSyncMNB).1 =
      sweep (fun _ fnb => outOfDate env fnb.lastPing.sigTime)
        s'.mapSeenProsperitynodeBroadcast := expireBroadcasts_seen
  refine ⟨hleft, ?_, ?_⟩
  · intro h fnb
    rw [hseen, lookup_sweep_eq_some, hforgotten.broadcast, and_assoc]
    rfl
  · intro h fnp
    rw [lookup_sweep_eq_some, hforgotten.ping]

/-- **The clean-up**, from any state. -/
theorem CheckAndRemove_cleanedUp (C : Crypto) (env : NodeEnv) (pastEnd : uint256)
    (forceExpiredRemoval : Bool) (s : NodeRecords) :
    CleanedUp env forceExpiredRemoval s (s.CheckAndRemove C env pastEnd forceExpiredRemoval) := by
  obtain ⟨hnodes, hbroadcasts, hpings⟩ := CheckAndRemove_seen C env pastEnd forceExpiredRemoval s
  obtain ⟨hleft, hforgotten⟩ := @removeNodes_spec env forceExpiredRemoval
    (s.vProsperitynodes.map (·.Check env false)) s
  rw [CheckAndRemove] at hnodes hbroadcasts hpings ⊢
  generalize removeNodes env forceExpiredRemoval (s.vProsperitynodes.map (·.Check env false)) s =
    left at hleft hforgotten hnodes hbroadcasts hpings ⊢
  obtain ⟨nodes, s'⟩ := left
  dsimp only at hleft hforgotten hnodes hbroadcasts hpings ⊢
  constructor
  case nodes => exact hnodes
  case allowed =>
    intro mn hmn
    rw [hleft, mem_filter, Bool.not_eq_true', allowed_iff] at hmn
    exact hmn.2
  case broadcasts => exact hbroadcasts
  case sync_erased =>
    intro h fnb hfnb hvin
    cases hafter : (expireBroadcasts C env pastEnd s'.mapSeenProsperitynodeBroadcast.entries
      s'.mapSeenProsperitynodeBroadcast s'.mapSeenSyncMNB).2.lookup h with
    | none => rfl
    | some n =>
      have hbefore := (hforgotten.sync h n).mp (expireBroadcasts_sync hafter)
      exact absurd hvin (hbefore.2 fnb hfnb)
  case sync_kept =>
    intro hquiet h n
    rw [expireBroadcasts_quiet, hforgotten.sync]
    · rfl
    · rintro ⟨h', fnb⟩ hentry
      obtain ⟨hfnb, hvin⟩ := (hforgotten.broadcast h' fnb).mp (Keyed.mem_entries_iff.mp hentry)
      exact hquiet h' fnb hfnb hvin
  case askedUs =>
    intro addr t
    rw [lookup_sweep_time, hforgotten.askedUs]
  case weAsked =>
    intro addr t
    rw [lookup_sweep_time, hforgotten.weAsked]
  case weAskedEntry =>
    intro out t
    rw [lookup_sweep_time, hforgotten.entry, and_assoc, and_comm (b := env.time ≤ t)]
    rfl
  case pings => exact hpings

theorem CheckAndRemove_toMan (C : Crypto) (env : NodeEnv) (pastEnd : uint256)
    (forceExpiredRemoval : Bool) (s : NodeRecords) :
    (s.CheckAndRemove C env pastEnd forceExpiredRemoval).toMan =
      Divitae.CheckAndRemove env forceExpiredRemoval s.toMan := by
  obtain ⟨hnodes, hbroadcasts, hpings⟩ := CheckAndRemove_seen C env pastEnd forceExpiredRemoval s
  rw [toMan, Divitae.CheckAndRemove, CProsperitynodeMan.mk.injEq]
  refine ⟨hnodes, ?_, ?_⟩
  · funext hash
    refine Option.ext fun fnb => (hbroadcasts hash fnb).trans ?_
    rw [Option.filter_eq_some_iff]
    refine and_congr_right fun _ => ?_
    rw [Bool.not_eq_true', Bool.or_eq_false_iff]
    refine and_congr ?_ Iff.rfl
    rw [erasedVins, removed, List.mem_map, List.any_eq_false]
    simp only [toMan, beq_iff_eq, not_exists, not_and]
  · funext hash
    refine Option.ext fun fnp => (hpings hash fnp).trans ?_
    rw [Option.filter_eq_some_iff, Bool.not_eq_true']
    rfl

/-- A clean-up after which what was seen of other nodes, and whom we asked for, is there until it is
over. -/
structure ForgetsByTime (env : NodeEnv) (forceExpiredRemoval : Bool) (s s' : NodeRecords) :
    Prop where
  allowed : ∀ mn ∈ s'.vProsperitynodes, Allowed env forceExpiredRemoval mn
  broadcasts : ∀ h fnb, s'.mapSeenProsperitynodeBroadcast.lookup h = some fnb ↔
    s.mapSeenProsperitynodeBroadcast.lookup h = some fnb ∧
      fnb.vin ∉ erasedVins env forceExpiredRemoval s ∧
      outOfDate env fnb.lastPing.sigTime = false
  sync_erased : ∀ h fnb, s.mapSeenProsperitynodeBroadcast.lookup h = some fnb →
    fnb.vin ∈ erasedVins env forceExpiredRemoval s → s'.mapSeenSyncMNB.lookup h = none
  sync_others : ∀ h, (∀ fnb, s.mapSeenProsperitynodeBroadcast.lookup h = some fnb →
      fnb.vin ∉ erasedVins env forceExpiredRemoval s ∧ outOfDate env fnb.lastPing.sigTime = false) →
    s'.mapSeenSyncMNB.lookup h = s.mapSeenSyncMNB.lookup h
  askedUs : ∀ addr t, s'.mAskedUsForProsperitynodeList.lookup addr = some t ↔
    s.mAskedUsForProsperitynodeList.lookup addr = some t ∧ env.time ≤ t
  weAsked : ∀ addr t, s'.mWeAskedForProsperitynodeList.lookup addr = some t ↔
    s.mWeAskedForProsperitynodeList.lookup addr = some t ∧ env.time ≤ t
  weAskedEntry : ∀ out t, s'.mWeAskedForProsperitynodeListEntry.lookup out = some t ↔
    s.mWeAskedForProsperitynodeListEntry.lookup out = some t ∧ env.time ≤ t
  pings : ∀ h fnp, s'.mapSeenProsperitynodePing.lookup h = some fnp ↔
    s.mapSeenProsperitynodePing.lookup h = some fnp ∧ outOfDate env fnp.sigTime = false

/-- One node, whose input has been spent, and for which we have asked a moment ago. -/
def askedForSpent : NodeRecords where
  vProsperitynodes :=
    [{ CProsperitynode.ofBroadcast (announcement 0 1700000000 []) with activeState := .VIN_SPENT }]
  mapSeenProsperitynodeBroadcast := ∅
  mapSeenProsperitynodePing := ∅
  mAskedUsForProsperitynodeList := ∅
  mWeAskedForProsperitynodeList := ∅
  mWeAskedForProsperitynodeListEntry := AList.insert ⟨7, 0⟩ 1700001000 ∅
  mapSeenSyncMNB := ∅

/-- The entry of the node goes with it, 500 seconds before its time. -/
theorem asked_entry_forgotten :
    ¬ (∀ (C : Crypto) (env : NodeEnv) (pastEnd : uint256) (forceExpiredRemoval : Bool)
        (s : NodeRecords), ForgetsByTime env forceExpiredRemoval s
          (s.CheckAndRemove C env pastEnd forceExpiredRemoval)) := by
  intro hall
  have h := (hall twoAnnouncer announceEnv 0 false askedForSpent).weAskedEntry ⟨7, 0⟩ 1700001000
  have hthere : askedForSpent.mWeAskedForProsperitynodeListEntry.lookup ⟨7, 0⟩ =
      some 1700001000 := by decide +kernel
  have hgone : (askedForSpent.CheckAndRemove twoAnnouncer announceEnv 0
      false).mWeAskedForProsperitynodeListEntry.lookup ⟨7, 0⟩ = none := by decide +kernel
  have hkept := h.mpr ⟨hthere, by decide⟩
  rw [hgone] at hkept
  exact absurd hkept (by simp)

end NodeRecords

end Divitae
