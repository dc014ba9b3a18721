/-
# `BlocksInFlight` — the blocks asked of peers

What `main.cpp` keeps of the blocks in flight: the map from a block to the node asked and its
place in that node's list, the lists and their lengths, and the number of all entries whose
headers were validated.  A `list<QueuedBlock>::iterator` is the address of the list's node.

    Sorted             map and lists name the same blocks, each once
    in_flight_iff      the runs in which all three agree throughout

`FinalizeNode` takes a node's entries out of the map and leaves the counter as it is: what
was validated and still in flight stays counted for good.
-/
import Divitae.Serialize
import Divitae.Lib.Keyed
import Divitae.Lib.Run

namespace Divitae.Download

open List Option Keyed

abbrev NodeId := ℕ

structure QueuedBlock where
  hash : uint256
  /-- Optional. -/
  pindex : Option uint256
  /-- Time of "getdata" request in microseconds. -/
  nTime : Int
  nValidatedQueuedBefore : Int
  fValidatedHeaders : Bool
  deriving DecidableEq

/-- `CNodeState`, as far as these functions use it. -/
structure CNodeState where
  fCurrentlyConnected : Bool := false
  nMisbehavior : Int := 0
  fSyncStarted : Bool := false
  nStallingSince : Int := 0
  /-- each entry at the address of its list node -/
  vBlocksInFlight : List (ℕ × QueuedBlock) := []
  nBlocksInFlight : Int := 0
  fPreferredDownload : Bool := false

structure DownloadState where
  mapNodeState : AList fun _ : NodeId => CNodeState := ∅
  mapBlocksInFlight : AList fun _ : uint256 => NodeId × ℕ := ∅
  nQueuedValidatedHeaders : Int := 0
  nPreferredDownload : Int := 0
  nSyncStarted : Int := 0
  /-- the next address given to a list node -/
  nextAddress : ℕ := 0

namespace DownloadState

variable (s : DownloadState)

def InitializeNode (nodeid : NodeId) : DownloadState :=
  match s.mapNodeState.lookup nodeid with
  | some _ => s
  | none => { s with mapNodeState := s.mapNodeState.insert nodeid {} }

/-- `FinalizeNode`.  Without a state the pointer followed is `NULL`. -/
def FinalizeNode (nodeid : NodeId) : DownloadState :=
  match s.mapNodeState.lookup nodeid with
  | none => s
  | some state =>
    { s with
      nSyncStarted := s.nSyncStarted - (if state.fSyncStarted then 1 else 0)
      mapBlocksInFlight :=
        Keyed.eraseAll (fun entry => entry.2.hash) state.vBlocksInFlight s.mapBlocksInFlight
      nPreferredDownload := s.nPreferredDownload - (if state.fPreferredDownload then 1 else 0)
      mapNodeState := s.mapNodeState.erase nodeid }

def MarkBlockAsReceived (hash : uint256) : DownloadState :=
  match s.mapBlocksInFlight.lookup hash with
  | none => s
  | some (nodeid, it) =>
    match s.mapNodeState.lookup nodeid with
    | none => s
    | some state =>
      match state.vBlocksInFlight.find? fun entry => entry.1 == it with
      | none => s
      | some (_, entry) =>
        { s with
          nQueuedValidatedHeaders :=
            s.nQueuedValidatedHeaders - (if entry.fValidatedHeaders then 1 else 0)
          mapNodeState := s.mapNodeState.insert nodeid { state with
            vBlocksInFlight := state.vBlocksInFlight.filter fun entry => !(entry.1 == it)
            nBlocksInFlight := state.nBlocksInFlight - 1
            nStallingSince := 0 }
          mapBlocksInFlight := s.mapBlocksInFlight.erase hash }

/-- `MarkBlockAsInFlight`, behind `MarkBlockAsReceived`. -/
def queueBlock (nodeid : NodeId) (hash : uint256) (pindex : Option uint256) (now : Int) :
    DownloadState :=
  match s.mapNodeState.lookup nodeid with
  | none => s
  | some state =>
    let newentry : QueuedBlock := ⟨hash, pindex, now, s.nQueuedValidatedHeaders, pindex.isSome⟩
    { s with
      nQueuedValidatedHeaders :=
        s.nQueuedValidatedHeaders + (if newentry.fValidatedHeaders then 1 else 0)
      mapNodeState := s.mapNodeState.insert nodeid { state with
        vBlocksInFlight := state.vBlocksInFlight ++ [(s.nextAddress, newentry)]
        nBlocksInFlight := state.nBlocksInFlight + 1 }
      mapBlocksInFlight := s.mapBlocksInFlight.insert hash (nodeid, s.nextAddress)
      nextAddress := s.nextAddress + 1 }

/-- `MarkBlockAsInFlight`; the node must have a state. -/
def MarkBlockAsInFlight (nodeid : NodeId) (hash : uint256) (pindex : Option uint256) (now : Int) :
    DownloadState :=
  match s.mapNodeState.lookup nodeid with
  | none => s
  | some _ => (s.MarkBlockAsReceived hash).queueBlock nodeid hash pindex now

def validated (l : List (ℕ × QueuedBlock)) : Int := l.countP fun entry => entry.2.fValidatedHeaders

def validatedInFlight : Int :=
  (s.mapNodeState.entries.map fun n => validated n.2.vBlocksInFlight).sum

end DownloadState

inductive Call where
  | InitializeNode (nodeid : NodeId)
  | FinalizeNode (nodeid : NodeId)
  | MarkBlockAsReceived (hash : uint256)
  | MarkBlockAsInFlight (nodeid : NodeId) (hash : uint256) (pindex : Option uint256) (now : Int)

def callStep (s : DownloadState) : Call → DownloadState
  | .InitializeNode nodeid => s.InitializeNode nodeid
  | .FinalizeNode nodeid => s.FinalizeNode nodeid
  | .MarkBlockAsReceived hash => s.MarkBlockAsReceived hash
  | .MarkBlockAsInFlight nodeid hash pindex now => s.MarkBlockAsInFlight nodeid hash pindex now

namespace DownloadState

variable {s : DownloadState} {nodeid : NodeId} {hash : uint256} {state state' : CNodeState}

theorem validated_insert (hlook : s.mapNodeState.lookup nodeid = some state)
    (state' : CNodeState) :
    ((s.mapNodeState.insert nodeid state').entries.map
        fun n => validated n.2.vBlocksInFlight).sum =
      s.validatedInFlight - validated state.vBlocksInFlight + validated state'.vBlocksInFlight := by
  have hsplit := sum_erase (m := s.mapNodeState) (fun n => validated n.2.vBlocksInFlight) hlook
  have hafter : ((s.mapNodeState.insert nodeid state').entries.map
      fun n => validated n.2.vBlocksInFlight).sum =
        validated state'.vBlocksInFlight +
          ((s.mapNodeState.erase nodeid).entries.map fun n =>
            validated n.2.vBlocksInFlight).sum := rfl
  unfold validatedInFlight
  rw [hafter, hsplit]
  show _ = validated state.vBlocksInFlight + _ - validated state.vBlocksInFlight + _
  omega

theorem validated_append (l : List (ℕ × QueuedBlock)) (entry : ℕ × QueuedBlock) :
    validated (l ++ [entry]) = validated l + (if entry.2.fValidatedHeaders then 1 else 0) := by
  unfold validated
  rw [countP_append, countP_singleton, Nat.cast_add]
  split <;> rfl

variable {l : List (ℕ × QueuedBlock)}

theorem cut_at (hnodup : (l.map Prod.fst).Nodup) {it : ℕ}
    {entry : QueuedBlock} (hmem : (it, entry) ∈ l) :
    l.find? (fun e => e.1 == it) = some (it, entry) ∧
      ∃ l₁ l₂, l = l₁ ++ (it, entry) :: l₂ ∧ l.filter (fun e => !(e.1 == it)) = l₁ ++ l₂ := by
  obtain ⟨l₁, l₂, rfl⟩ := append_of_mem hmem
  rw [map_append, map_cons] at hnodup
  have hout : ∀ e ∈ l₁ ++ l₂, (e.1 == it) = false := by
    intro e he
    refine beq_eq_false_iff_ne.mpr ?_
    rintro rfl
    have hmiddle := (nodup_middle.mp hnodup)
    refine (nodup_cons.mp hmiddle).1 ?_
    rw [← map_append]
    exact mem_map.mpr ⟨e, he, rfl⟩
  have hleft : ∀ e ∈ l₁, (e.1 == it) = false := fun e he => hout e (mem_append_left l₂ he)
  have hright : ∀ e ∈ l₂, (e.1 == it) = false := fun e he => hout e (mem_append_right l₁ he)
  constructor
  · rw [List.find?_append, List.find?_eq_none.mpr, none_or, List.find?_cons_of_pos]
    · exact beq_self_eq_true it
    · intro e he
      rw [hleft e he]
      exact Bool.false_ne_true
  · refine ⟨l₁, l₂, rfl, ?_⟩
    rw [filter_append, filter_cons_of_neg (by simp), filter_eq_self.mpr, filter_eq_self.mpr]
    · intro e he
      rw [hright e he]
      rfl
    · intro e he
      rw [hleft e he]
      rfl

/-- Map and lists name the same blocks; addresses are given once. -/
structure Sorted (s : DownloadState) : Prop where
  listed : ∀ hash nodeid it, s.mapBlocksInFlight.lookup hash = some (nodeid, it) →
    ∃ state entry, s.mapNodeState.lookup nodeid = some state ∧ (it, entry) ∈ state.vBlocksInFlight ∧
      entry.hash = hash
  mapped : ∀ nodeid state it entry, s.mapNodeState.lookup nodeid = some state →
    (it, entry) ∈ state.vBlocksInFlight → s.mapBlocksInFlight.lookup entry.hash = some (nodeid, it)
  lengths : ∀ nodeid state, s.mapNodeState.lookup nodeid = some state →
    state.nBlocksInFlight = state.vBlocksInFlight.length
  nodup : ∀ nodeid state, s.mapNodeState.lookup nodeid = some state →
    (state.vBlocksInFlight.map Prod.fst).Nodup
  fresh : ∀ nodeid state it entry, s.mapNodeState.lookup nodeid = some state →
    (it, entry) ∈ state.vBlocksInFlight → it < s.nextAddress

/-- What is counted and no longer in flight. -/
def lost (s : DownloadState) : Int := s.nQueuedValidatedHeaders - s.validatedInFlight

theorem sorted_start : Sorted {} where
  listed _ _ _ h := nomatch h
  mapped _ _ _ _ h := nomatch h
  lengths _ _ h := nomatch h
  nodup _ _ h := nomatch h
  fresh _ _ _ _ h := nomatch h

theorem InitializeNode_sorted (h : Sorted s) :
    Sorted (s.InitializeNode nodeid) ∧ (s.InitializeNode nodeid).lost = s.lost := by
  unfold InitializeNode
  cases hlook : s.mapNodeState.lookup nodeid with
  | some state => exact ⟨h, rfl⟩
  | none =>
    have hcases : ∀ {n : NodeId} {state : CNodeState},
        (s.mapNodeState.insert nodeid {}).lookup n = some state →
          state = {} ∨ s.mapNodeState.lookup n = some state := by
      intro n state hn
      rcases lookup_insert_cases hn with ⟨-, heq⟩ | ⟨-, hold⟩
      · exact .inl heq
      · exact .inr hold
    refine ⟨⟨?_, ?_, ?_, ?_, ?_⟩, ?_⟩
    · intro hash n it hmap
      obtain ⟨state, entry, hn, hmem, hhash⟩ := h.listed hash n it hmap
      have hne : n ≠ nodeid := by
        rintro rfl
        rw [hlook] at hn
        cases hn
      exact ⟨state, entry, (AList.lookup_insert_ne hne).trans hn, hmem, hhash⟩
    · intro n state it entry hn hmem
      rcases hcases hn with rfl | hold
      · cases hmem
      · exact h.mapped n state it entry hold hmem
    · intro n state hn
      rcases hcases hn with rfl | hold
      · rfl
      · exact h.lengths n state hold
    · intro n state hn
      rcases hcases hn with rfl | hold
      · exact nodup_nil
      · exact h.nodup n state hold
    · intro n state it entry hn hmem
      rcases hcases hn with rfl | hold
      · cases hmem
      · exact h.fresh n state it entry hold hmem
    · have hsum := sum_insert (b := ({} : CNodeState))
        (fun n : Sigma fun _ : NodeId => CNodeState => validated n.2.vBlocksInFlight) hlook
      unfold lost validatedInFlight
      rw [hsum]
      show _ - (0 + _) = _
      rw [zero_add]

theorem FinalizeNode_sorted (h : Sorted s) : Sorted (s.FinalizeNode nodeid) := by
  unfold FinalizeNode
  cases hlook : s.mapNodeState.lookup nodeid with
  | none => exact h
  | some state =>
    refine ⟨?_, ?_, ?_, ?_, ?_⟩
    · intro hash n it hmap
      obtain ⟨hout, hold⟩ := lookup_eraseAll_eq_some.mp hmap
      obtain ⟨state', entry, hn, hmem, hhash⟩ := h.listed hash n it hold
      have hne : n ≠ nodeid := by
        rintro rfl
        obtain rfl : state = state' := some.inj (hlook.symm.trans hn)
        exact hout (mem_map.mpr ⟨(it, entry), hmem, hhash⟩)
      exact ⟨state', entry, (AList.lookup_erase_ne hne).trans hn, hmem, hhash⟩
    · intro n state' it entry hn hmem
      obtain ⟨hne, hold⟩ := lookup_erase_cases hn
      have hmap := h.mapped n state' it entry hold hmem
      refine lookup_eraseAll_eq_some.mpr ⟨?_, hmap⟩
      intro hin
      obtain ⟨⟨it', entry'⟩, hmem', hhash⟩ := mem_map.mp hin
      have hmap' := h.mapped nodeid state it' entry' hlook hmem'
      rw [show entry'.hash = entry.hash from hhash, hmap] at hmap'
      exact hne (congrArg Prod.fst (some.inj hmap'))
    · intro n state' hn
      exact h.lengths n state' (lookup_erase_cases hn).2
    · intro n state' hn
      exact h.nodup n state' (lookup_erase_cases hn).2
    · intro n state' it entry hn hmem
      exact h.fresh n state' it entry (lookup_erase_cases hn).2 hmem

theorem lost_FinalizeNode (hlook : s.mapNodeState.lookup nodeid = some state) :
    (s.FinalizeNode nodeid).lost = s.lost + validated state.vBlocksInFlight := by
  have hsum := sum_erase (m := s.mapNodeState) (fun n => validated n.2.vBlocksInFlight) hlook
  have hafter : s.FinalizeNode nodeid = { s with
      nSyncStarted := s.nSyncStarted - (if state.fSyncStarted then 1 else 0)
      mapBlocksInFlight :=
        eraseAll (fun entry => entry.2.hash) state.vBlocksInFlight s.mapBlocksInFlight
      nPreferredDownload := s.nPreferredDownload - (if state.fPreferredDownload then 1 else 0)
      mapNodeState := s.mapNodeState.erase nodeid } := by
    unfold FinalizeNode
    rw [hlook]
  rw [hafter]
  unfold lost validatedInFlight
  rw [hsum]
  dsimp only
  omega

/-! ### A block comes -/

/-- A node's state, an entry of its list gone. -/
def without (state : CNodeState) (left : List (ℕ × QueuedBlock)) : CNodeState :=
  { state with
    vBlocksInFlight := left
    nBlocksInFlight := state.nBlocksInFlight - 1
    nStallingSince := 0 }

/-- The entry of a block in flight, and what stands before and behind it. -/
structure InList (s : DownloadState) (hash : uint256) (n : NodeId) (it : ℕ) (state : CNodeState)
    (entry : QueuedBlock) (l₁ l₂ : List (ℕ × QueuedBlock)) : Prop where
  place : s.mapBlocksInFlight.lookup hash = some (n, it)
  node : s.mapNodeState.lookup n = some state
  named : entry.hash = hash
  found : state.vBlocksInFlight.find? (fun e => e.1 == it) = some (it, entry)
  list : state.vBlocksInFlight = l₁ ++ (it, entry) :: l₂
  others : state.vBlocksInFlight.filter (fun e => !(e.1 == it)) = l₁ ++ l₂

section
variable {n : NodeId} {it : ℕ} {entry : QueuedBlock} {l₁ l₂ : List (ℕ × QueuedBlock)}

section
variable (hin : InList s hash n it state entry l₁ l₂)
include hin

theorem InList.sub {e : ℕ × QueuedBlock}
    (he : e ∈ l₁ ++ l₂) : e ∈ state.vBlocksInFlight := by
  rw [hin.list]
  rcases mem_append.mp he with he | he
  · exact mem_append_left _ he
  · exact mem_append_right _ (.tail _ he)

theorem InList.nodup (h : Sorted s) :
    it ∉ (l₁ ++ l₂).map Prod.fst ∧ ((l₁ ++ l₂).map Prod.fst).Nodup := by
  have hnodup := h.nodup n state hin.node
  rw [hin.list, map_append, map_cons] at hnodup
  have hmiddle := nodup_cons.mp (nodup_middle.mp hnodup)
  rw [← map_append] at hmiddle
  exact hmiddle

variable {n' : NodeId}

theorem InList.listed (h : Sorted s) {hash' : uint256}
    {it' : ℕ}
    (hmap : (s.mapBlocksInFlight.erase hash).lookup hash' = some (n', it')) :
    ∃ state₂ entry₂, (s.mapNodeState.insert n (without state (l₁ ++ l₂))).lookup n' = some state₂ ∧
      (it', entry₂) ∈ state₂.vBlocksInFlight ∧ entry₂.hash = hash' := by
  obtain ⟨hne, hold⟩ := lookup_erase_cases hmap
  obtain ⟨state₂, entry₂, hn₂, hmem₂, hhash₂⟩ := h.listed hash' n' it' hold
  rcases eq_or_ne n' n with rfl | hn'
  · obtain rfl : state = state₂ := some.inj (hin.node.symm.trans hn₂)
    refine ⟨without state (l₁ ++ l₂), entry₂, AList.lookup_insert _, ?_, hhash₂⟩
    rw [hin.list] at hmem₂
    rcases mem_append.mp hmem₂ with hl | hl
    · exact mem_append_left l₂ hl
    · rcases mem_cons.mp hl with heq | hl
      · cases heq
        exact absurd (hhash₂.symm.trans hin.named) hne
      · exact mem_append_right l₁ hl
  · exact ⟨state₂, entry₂, (AList.lookup_insert_ne hn').trans hn₂, hmem₂, hhash₂⟩

theorem InList.elsewhere (h : Sorted s)
    {it' : ℕ} {state' : CNodeState} {entry' : QueuedBlock}
    (hn : s.mapNodeState.lookup n' = some state') (hmem : (it', entry') ∈ state'.vBlocksInFlight)
    (hplace : (n', it') ≠ (n, it)) :
    (s.mapBlocksInFlight.erase hash).lookup entry'.hash = some (n', it') := by
  have hold := h.mapped n' state' it' entry' hn hmem
  have hne : entry'.hash ≠ hash := by
    intro heq
    rw [heq, hin.place] at hold
    exact hplace (some.inj hold).symm
  exact (AList.lookup_erase_ne hne).trans hold

theorem InList.mapped (h : Sorted s)
    {it' : ℕ} {state' : CNodeState} {entry' : QueuedBlock}
    (hn : (s.mapNodeState.insert n (without state (l₁ ++ l₂))).lookup n' = some state')
    (hmem : (it', entry') ∈ state'.vBlocksInFlight) :
    (s.mapBlocksInFlight.erase hash).lookup entry'.hash = some (n', it') := by
  rcases lookup_insert_cases hn with ⟨rfl, rfl⟩ | ⟨hne, hold⟩
  · refine hin.elsewhere h hin.node (hin.sub hmem) ?_
    intro heq
    obtain ⟨-, rfl⟩ := Prod.mk.inj heq
    exact (hin.nodup h).1 (mem_map.mpr ⟨(it', entry'), hmem, rfl⟩)
  · refine hin.elsewhere h hold hmem ?_
    intro heq
    exact hne (congrArg Prod.fst heq)

theorem InList.lengths (h : Sorted s) :
    state.nBlocksInFlight - 1 = ((l₁ ++ l₂).length : Int) := by
  have hlen := h.lengths n state hin.node
  rw [hin.list, length_append, length_cons] at hlen
  rw [hlen, length_append]
  omega

theorem InList.validated :
    DownloadState.validated state.vBlocksInFlight =
      DownloadState.validated (l₁ ++ l₂) + (if entry.fValidatedHeaders then 1 else 0) := by
  rw [hin.list]
  unfold DownloadState.validated
  rw [countP_append, countP_cons, countP_append]
  split_ifs <;> omega

theorem InList.received :
    s.MarkBlockAsReceived hash = { s with
      nQueuedValidatedHeaders :=
        s.nQueuedValidatedHeaders - (if entry.fValidatedHeaders then 1 else 0)
      mapNodeState := s.mapNodeState.insert n (without state (l₁ ++ l₂))
      mapBlocksInFlight := s.mapBlocksInFlight.erase hash } := by
  unfold MarkBlockAsReceived
  rw [hin.place]
  dsimp only
  rw [hin.node]
  dsimp only
  rw [hin.found]
  rw [hin.others]
  rfl

end

end

theorem MarkBlockAsReceived_sorted (h : Sorted s) :
    Sorted (s.MarkBlockAsReceived hash) ∧ (s.MarkBlockAsReceived hash).lost = s.lost ∧
      (s.MarkBlockAsReceived hash).mapBlocksInFlight.lookup hash = none ∧
      (s.MarkBlockAsReceived hash).nextAddress = s.nextAddress := by
  cases hmap : s.mapBlocksInFlight.lookup hash with
  | none =>
    have hsame : s.MarkBlockAsReceived hash = s := by
      unfold MarkBlockAsReceived
      rw [hmap]
    rw [hsame]
    exact ⟨h, rfl, hmap, rfl⟩
  | some place =>
    obtain ⟨n, it⟩ := place
    obtain ⟨state, entry, hn, hmem, hhash⟩ := h.listed hash n it hmap
    obtain ⟨hfound, l₁, l₂, hlist, hothers⟩ := cut_at (h.nodup n state hn) hmem
    have hin : InList s hash n it state entry l₁ l₂ := ⟨hmap, hn, hhash, hfound, hlist, hothers⟩
    rw [hin.received]
    refine ⟨⟨?_, ?_, ?_, ?_, ?_⟩, ?_, AList.lookup_erase _ _, rfl⟩
    · exact fun _ _ _ hmap' => hin.listed h hmap'
    · exact fun _ _ _ _ hn' hmem' => hin.mapped h hn' hmem'
    · intro n' state' hn'
      rcases lookup_insert_cases hn' with ⟨-, rfl⟩ | ⟨-, hold⟩
      · exact hin.lengths h
      · exact h.lengths n' state' hold
    · intro n' state' hn'
      rcases lookup_insert_cases hn' with ⟨-, rfl⟩ | ⟨-, hold⟩
      · exact (hin.nodup h).2
      · exact h.nodup n' state' hold
    · intro n' state' it' entry' hn' hmem'
      rcases lookup_insert_cases hn' with ⟨-, rfl⟩ | ⟨-, hold⟩
      · exact h.fresh n state it' entry' hn (hin.sub hmem')
      · exact h.fresh n' state' it' entry' hold hmem'
    · have hsum := validated_insert hn (without state (l₁ ++ l₂))
      unfold lost validatedInFlight
      rw [hsum, hin.validated]
      show _ - (if _ then _ else _) - (_ - _ + validated (l₁ ++ l₂)) = _
      unfold validatedInFlight
      omega

theorem queueBlock_sorted (h : Sorted s) (hfree : s.mapBlocksInFlight.lookup hash = none)
    (pindex : Option uint256) (now : Int) :
    Sorted (s.queueBlock nodeid hash pindex now) ∧
      (s.queueBlock nodeid hash pindex now).lost = s.lost := by
  unfold queueBlock
  cases hlook : s.mapNodeState.lookup nodeid with
  | none => exact ⟨h, rfl⟩
  | some state =>
    dsimp only
    refine ⟨⟨?_, ?_, ?_, ?_, ?_⟩, ?_⟩
    · intro hash' n it hmap
      rcases lookup_insert_cases hmap with ⟨rfl, hplace⟩ | ⟨hne, hold⟩
      · cases hplace
        exact ⟨_, _, AList.lookup_insert _, mem_append_right _ mem_cons_self, rfl⟩
      · obtain ⟨state₂, entry₂, hn₂, hmem₂, hhash₂⟩ := h.listed hash' n it hold
        rcases eq_or_ne n nodeid with rfl | hn
        · obtain rfl : state = state₂ := some.inj (hlook.symm.trans hn₂)
          exact ⟨_, entry₂, AList.lookup_insert _, mem_append_left _ hmem₂, hhash₂⟩
        · exact ⟨state₂, entry₂, (AList.lookup_insert_ne hn).trans hn₂, hmem₂, hhash₂⟩
    · intro n state₂ it entry hn hmem
      have hkeep : ∀ {state₃ : CNodeState}, s.mapNodeState.lookup n = some state₃ →
          (it, entry) ∈ state₃.vBlocksInFlight →
          (s.mapBlocksInFlight.insert hash (nodeid, s.nextAddress)).lookup entry.hash =
            some (n, it) := by
        intro state₃ hn₃ hmem₃
        have hold := h.mapped n state₃ it entry hn₃ hmem₃
        have hne : entry.hash ≠ hash := by
          intro heq
          rw [heq, hfree] at hold
          cases hold
        exact (AList.lookup_insert_ne hne).trans hold
      rcases lookup_insert_cases hn with ⟨rfl, rfl⟩ | ⟨-, hold⟩
      · rcases mem_append.mp hmem with hmem | hmem
        · exact hkeep hlook hmem
        · obtain ⟨rfl, rfl⟩ := Prod.mk.inj (mem_singleton.mp hmem)
          exact AList.lookup_insert _
      · exact hkeep hold hmem
    · intro n state₂ hn
      rcases lookup_insert_cases hn with ⟨rfl, rfl⟩ | ⟨-, hold⟩
      · show state.nBlocksInFlight + 1 = ((state.vBlocksInFlight ++ [_]).length : Int)
        rw [h.lengths n state hlook, length_append, length_singleton, Nat.cast_add, Nat.cast_one]
      · exact h.lengths n state₂ hold
    · intro n state₂ hn
      rcases lookup_insert_cases hn with ⟨rfl, rfl⟩ | ⟨-, hold⟩
      · show ((state.vBlocksInFlight ++ [_]).map Prod.fst).Nodup
        rw [map_append, map_cons, map_nil]
        refine (h.nodup n state hlook).append (nodup_singleton _) ?_
        intro it hin hit
        obtain rfl := mem_singleton.mp hit
        obtain ⟨⟨it', entry⟩, hmem, heq⟩ := mem_map.mp hin
        have hlt := h.fresh n state it' entry hlook hmem
        exact absurd heq (Nat.ne_of_lt hlt)
      · exact h.nodup n state₂ hold
    · intro n state₂ it entry hn hmem
      rcases lookup_insert_cases hn with ⟨rfl, rfl⟩ | ⟨-, hold⟩
      · rcases mem_append.mp hmem with hmem | hmem
        · exact Nat.lt_succ_of_lt (h.fresh n state it entry hlook hmem)
        · obtain ⟨rfl, -⟩ := Prod.mk.inj (mem_singleton.mp hmem)
          exact Nat.lt_succ_self _
      · exact Nat.lt_succ_of_lt (h.fresh n state₂ it entry hold hmem)
    · have hsum := validated_insert hlook { state with
        vBlocksInFlight := state.vBlocksInFlight ++
          [(s.nextAddress, ⟨hash, pindex, now, s.nQueuedValidatedHeaders, pindex.isSome⟩)]
        nBlocksInFlight := state.nBlocksInFlight + 1 }
      rw [validated_append] at hsum
      dsimp only at hsum
      unfold lost
      show _ + _ - ((s.mapNodeState.insert nodeid _).entries.map _).sum = _
      rw [hsum]
      omega

theorem MarkBlockAsInFlight_sorted (h : Sorted s) (pindex : Option uint256) (now : Int) :
    Sorted (s.MarkBlockAsInFlight nodeid hash pindex now) ∧
      (s.MarkBlockAsInFlight nodeid hash pindex now).lost = s.lost := by
  unfold MarkBlockAsInFlight
  cases s.mapNodeState.lookup nodeid with
  | none => exact ⟨h, rfl⟩
  | some state =>
    obtain ⟨hsorted, hlost, hfree, -⟩ := @MarkBlockAsReceived_sorted s hash h
    obtain ⟨hsorted', hlost'⟩ := @queueBlock_sorted _ nodeid hash hsorted hfree pindex now
    exact ⟨hsorted', hlost'.trans hlost⟩

/-! ## Runs -/

theorem callStep_sorted (h : Sorted s) (i : Call) : Sorted (callStep s i) := by
  cases i with
  | InitializeNode nodeid => exact (InitializeNode_sorted h).1
  | FinalizeNode nodeid => exact FinalizeNode_sorted h
  | MarkBlockAsReceived hash => exact (MarkBlockAsReceived_sorted h).1
  | MarkBlockAsInFlight nodeid hash pindex now => exact (MarkBlockAsInFlight_sorted h pindex now).1

/-- No node goes while a block with validated headers is in flight from it. -/
def NothingPending (s : DownloadState) : Call → Prop
  | .FinalizeNode nodeid => ∀ state, s.mapNodeState.lookup nodeid = some state →
      ∀ entry ∈ state.vBlocksInFlight, entry.2.fValidatedHeaders = false
  | _ => True

theorem validated_eq_zero_iff :
    validated l = 0 ↔ ∀ entry ∈ l, entry.2.fValidatedHeaders = false := by
  unfold validated
  rw [Int.natCast_eq_zero, countP_eq_zero]
  simp only [Bool.not_eq_true]

theorem lost_step_iff (h : Sorted s) (hlost : s.lost = 0) (i : Call) :
    (callStep s i).lost = 0 ↔ NothingPending s i := by
  cases i with
  | InitializeNode nodeid => exact iff_of_true ((InitializeNode_sorted h).2.trans hlost) trivial
  | MarkBlockAsReceived hash =>
    exact iff_of_true ((MarkBlockAsReceived_sorted h).2.1.trans hlost) trivial
  | MarkBlockAsInFlight nodeid hash pindex now =>
    exact iff_of_true ((MarkBlockAsInFlight_sorted h pindex now).2.trans hlost) trivial
  | FinalizeNode nodeid =>
    show (s.FinalizeNode nodeid).lost = 0 ↔ ∀ state, s.mapNodeState.lookup nodeid = some state → _
    cases hlook : s.mapNodeState.lookup nodeid with
    | none =>
      have hsame : s.FinalizeNode nodeid = s := by
        unfold FinalizeNode
        rw [hlook]
      rw [hsame]
      refine iff_of_true hlost ?_
      intro state hstate
      cases hstate
    | some state =>
      rw [lost_FinalizeNode hlook, hlost, zero_add, validated_eq_zero_iff]
      constructor
      · intro hall state' hstate
        cases hstate
        exact hall
      · intro hall
        exact hall state rfl

/-- Map, lists and counters say the same. -/
structure Agrees (s : DownloadState) : Prop where
  pairs : ∀ hash nodeid, (∃ it, s.mapBlocksInFlight.lookup hash = some (nodeid, it)) ↔
    ∃ state, s.mapNodeState.lookup nodeid = some state ∧
      ∃ entry ∈ state.vBlocksInFlight, entry.2.hash = hash
  lengths : ∀ nodeid state, s.mapNodeState.lookup nodeid = some state →
    state.nBlocksInFlight = state.vBlocksInFlight.length
  counter : s.nQueuedValidatedHeaders = s.validatedInFlight

theorem agrees_iff (h : Sorted s) : Agrees s ↔ s.lost = 0 := by
  unfold lost
  constructor
  · intro hagrees
    rw [hagrees.counter, sub_self]
  · intro hlost
    refine ⟨?_, h.lengths, by omega⟩
    intro hash nodeid
    constructor
    · rintro ⟨it, hmap⟩
      obtain ⟨state, entry, hn, hmem, hhash⟩ := h.listed hash nodeid it hmap
      exact ⟨state, hn, (it, entry), hmem, hhash⟩
    · rintro ⟨state, hn, ⟨it, entry⟩, hmem, rfl⟩
      exact ⟨it, h.mapped nodeid state it entry hn hmem⟩

/-- **When the books agree**: throughout the runs in which no node goes while a block with
validated headers is in flight from it, and in no others. -/
theorem in_flight_iff (calls : List Call) :
    Run.Throughout callStep Agrees {} calls ↔ Run.Guarded callStep NothingPending {} calls := by
  refine Run.guarded_iff (I := Sorted) (fun s i hs => callStep_sorted hs i) ?_ sorted_start ?_
  · intro s i hs hagrees
    rw [agrees_iff (callStep_sorted hs i)]
    exact lost_step_iff hs ((agrees_iff hs).mp hagrees) i
  · exact (agrees_iff sorted_start).mpr rfl

/-- A peer is asked for a block of known header, and goes. -/
def goneWhileAsked : List Call :=
  [.InitializeNode 1, .MarkBlockAsInFlight 1 7 (some 7) 0, .FinalizeNode 1]

theorem counter_keeps_gone : ¬ ∀ calls : List Call, Run.Throughout callStep Agrees {} calls := by
  intro hall
  have hend := (hall goneWhileAsked goneWhileAsked prefix_rfl).counter
  exact absurd hend (by decide)

end DownloadState

end Divitae.Download
