/-
# `BlockDownload` — which blocks to ask a peer for

`FindNextBlocksToDownload` goes up from the last block both sides have, towards the best one
the peer has announced, and takes what is neither stored nor in flight.  It reads the blocks
in batches, each found by `GetAncestor` and collected backwards, and returns from within a
batch when it has enough, when it meets a block that has failed, or behind the window.

    ProcessBlockAvailability   the best block known of the peer
    visit                      one block of a batch
    fetchRound                 one batch
    run_fetchRound             the batches are one walk over the peer's chain
    Scanned                    what a walk takes
    blocks_to_download         what is returned, and when it is nothing

Nothing is returned also where `count` is zero, where the peer has no chain with as much work
as the active one, and behind a block that has failed, whatever is missing there.  Heights are
far below 2³¹, where `nWindowEnd` would come round.
-/
import Divitae.Ancestors
import Divitae.BlocksInFlight
import Divitae.LoadBlockIndex
import Divitae.Lib.Loop

namespace Divitae.BlockIndex

open List Option Loop

open Download (NodeId DownloadState)

/-- Size of the "block download window": how far ahead of our current height do we fetch? -/
def BLOCK_DOWNLOAD_WINDOW : ℕ := 1024

/-- What `CNodeState` says of the blocks of a peer. -/
structure PeerBlocks where
  /-- The best known block we know this peer has announced. -/
  pindexBestKnownBlock : Option uint256 := none
  /-- The hash of the last unknown block this peer has announced. -/
  hashLastUnknownBlock : uint256 := 0
  /-- The last full block we both have. -/
  pindexLastCommonBlock : Option uint256 := none

/-- What `FindNextBlocksToDownload` leaves. -/
structure Fetched where
  state : PeerBlocks
  vBlocks : List uint256
  /-- `none` is -1 -/
  nodeStaller : Option NodeId

/-- The variables of its loop. -/
structure Fetching extends Fetched where
  waitingfor : Option NodeId := none

namespace BlockTree

variable (T : BlockTree)

/-- `pindex->nChainWork`. -/
def nChainWork (pindex : uint256) : uint256 := ((T.entry pindex).getD {}).nChainWork

/-- `chainActive[nHeight]`. -/
def chainAt (nHeight : ℕ) : Option uint256 := T.chainActive.reverse[nHeight]?

/-- Check whether the last unknown block a peer advertized is not yet known. -/
def ProcessBlockAvailability (state : PeerBlocks) : PeerBlocks :=
  if state.hashLastUnknownBlock = 0 then state
  else
    match T.entry state.hashLastUnknownBlock with
    | none => state
    | some itOld =>
      if itOld.nChainWork = 0 then state
      else
        { state with
          pindexBestKnownBlock :=
            match state.pindexBestKnownBlock with
            | none => some state.hashLastUnknownBlock
            | some pindexBest =>
              if T.nChainWork pindexBest ≤ itOld.nChainWork then
                some state.hashLastUnknownBlock
              else some pindexBest
          hashLastUnknownBlock := 0 }

/-- A block whose data is neither stored nor on its way. -/
def Missing (D : DownloadState) (pindex : uint256) : Prop :=
  (∃ e, T.entry pindex = some e ∧ e.nStatus.haveData = false) ∧
    D.mapBlocksInFlight.lookup pindex = none

end BlockTree

section
variable (S : SkipTree) (D : DownloadState) (nodeid : NodeId) (count : BitVec 32)

def toFetch (nMaxHeight nHeight size : ℕ) : ℕ :=
  (min ((nMaxHeight : Int) - nHeight) (max (count - BitVec.ofNat 32 size).toInt 128)).toNat

def visit (nWindowEnd : ℕ) (f : Fetching) (pindex : uint256) : Fetching ⊕ Fetching :=
  let e := (S.entry pindex).getD {}
  -- We consider the chain that this peer is on invalid.
  if !e.nStatus.IsValid BLOCK_VALID_TREE then .inr f
  else if e.nStatus.haveData then
    .inl (if e.nChainTx ≠ 0 then
      { f with state := { f.state with pindexLastCommonBlock := some pindex } } else f)
  else
    match D.mapBlocksInFlight.lookup pindex with
    | none =>
      -- The block is not already downloaded, and not yet in flight.
      if nWindowEnd < e.nHeight then
        -- We reached the end of the window.
        .inr (if f.vBlocks.length = 0 ∧ f.waitingfor ≠ some nodeid then
          { f with nodeStaller := f.waitingfor } else f)
      else
        let f := { f with vBlocks := f.vBlocks ++ [pindex] }
        if f.vBlocks.length = count.toNat then .inr f else .inl f
    | some (node, _) =>
      -- This is the first already-in-flight block.
      .inl (if f.waitingfor = none then { f with waitingfor := some node } else f)

/-- One round of the outer loop; `none` is a `NULL` that is followed. -/
def fetchRound (best : uint256) (nWindowEnd nMaxHeight : ℕ) :
    uint256 × Fetching → (uint256 × Fetching) ⊕ Option Fetching
  | (pindexWalk, f) =>
    if ¬ S.nHeight pindexWalk < nMaxHeight then .inr (some f)
    else
      let nToFetch := toFetch count nMaxHeight (S.nHeight pindexWalk) f.vBlocks.length
      match S.GetAncestor best (S.nHeight pindexWalk + nToFetch : ℕ) with
      | none => .inr none
      | some pindexWalk =>
        match SkipList.trail S.pprev (nToFetch - 1) pindexWalk [] with
        | none => .inr none
        | some vToFetch =>
          match Loop.forEach (visit S D nodeid count nWindowEnd) f vToFetch with
          | .inl f => .inl (pindexWalk, f)
          | .inr f => .inr (some f)

/-- The last block both sides have: bootstrap quickly by guessing a parent of our best tip is
the forking point, and go back enough to be on the peer's chain. -/
def lastCommon (state : PeerBlocks) (best : uint256) : Option uint256 :=
  let guess :=
    match state.pindexLastCommonBlock with
    | some pindex => some pindex
    | none => S.chainAt (min (S.nHeight best) (S.chainActive.length - 1))
  guess.bind fun pindex => S.LastCommonAncestor pindex best

/-- Update `pindexLastCommonBlock` and add not-in-flight missing successors to `vBlocks`, until
it has at most `count` entries.  `none` where `NULL` is followed or an assertion fails. -/
def FindNextBlocksToDownload (state : PeerBlocks) (vBlocks : List uint256)
    (nodeStaller : Option NodeId) : Option Fetched :=
  if count = 0 then some ⟨state, vBlocks, nodeStaller⟩
  else
    -- Make sure pindexBestKnownBlock is up to date, we'll need it.
    let state := S.ProcessBlockAvailability state
    match state.pindexBestKnownBlock with
    | none => some ⟨state, vBlocks, nodeStaller⟩
    | some best =>
      match S.chainActive with
      | [] => none
      | tip :: _ =>
        -- This peer has nothing interesting.
        if S.nChainWork best < S.nChainWork tip then some ⟨state, vBlocks, nodeStaller⟩
        else
          match lastCommon S state best with
          | none => none
          | some fork =>
            let state := { state with pindexLastCommonBlock := some fork }
            if fork = best then some ⟨state, vBlocks, nodeStaller⟩
            else
              let nWindowEnd := S.nHeight fork + BLOCK_DOWNLOAD_WINDOW
              let nMaxHeight := min (S.nHeight best) (nWindowEnd + 1)
              (Loop.run (fetchRound S D nodeid count best nWindowEnd nMaxHeight)
                (nMaxHeight + 1) (fork, ⟨⟨state, vBlocks, nodeStaller⟩, none⟩)).join.map
                  Fetching.toFetched

end

/-! ## One block -/

section
variable {N : TreeNode} {S : SkipTree} {D : DownloadState} {nodeid : NodeId} {count : BitVec 32}
  {nWindowEnd nMaxHeight : ℕ} {f f' : Fetching} {pindex best fork x : uint256} {l : List uint256}
  {line : ℕ → uint256} {state : PeerBlocks}

/-- A block with which the peer's chain is invalid. -/
def Failed (T : BlockTree) (pindex : uint256) : Prop :=
  ((T.entry pindex).getD {}).nStatus.IsValid BLOCK_VALID_TREE = false

/-- What goes on with a state of the loop: the best block of the peer, and the last common one
unless `pindex` is it now. -/
structure SamePeer (pindex : uint256) (f f' : Fetching) : Prop where
  best : f'.state.pindexBestKnownBlock = f.state.pindexBestKnownBlock
  last : f'.state.pindexLastCommonBlock = f.state.pindexLastCommonBlock ∨
    f'.state.pindexLastCommonBlock = some pindex

/-- What a visit comes to. -/
inductive Visited (S : SkipTree) (D : DownloadState) (count : BitVec 32) (nWindowEnd : ℕ)
    (f : Fetching) (pindex : uint256) : Fetching ⊕ Fetching → Prop
  /-- The chain is invalid. -/
  | failed (hfailed : Failed S.toBlockTree pindex) : Visited S D count nWindowEnd f pindex (.inr f)
  /-- The block is there, or on its way. -/
  | passed {f' : Fetching} (hpeer : SamePeer pindex f f') (hblocks : f'.vBlocks = f.vBlocks)
      (hnot : ¬ S.Missing D pindex) : Visited S D count nWindowEnd f pindex (.inl f')
  /-- It is behind the window. -/
  | beyond {f' : Fetching} (hpeer : SamePeer pindex f f') (hblocks : f'.vBlocks = f.vBlocks)
      (hbeyond : nWindowEnd < S.nHeight pindex) : Visited S D count nWindowEnd f pindex (.inr f')
  /-- It is taken, and more may be. -/
  | taken {f' : Fetching} (hpeer : SamePeer pindex f f')
      (hblocks : f'.vBlocks = f.vBlocks ++ [pindex]) (hmissing : S.Missing D pindex)
      (hwithin : S.nHeight pindex ≤ nWindowEnd) (hfew : f'.vBlocks.length ≠ count.toNat) :
      Visited S D count nWindowEnd f pindex (.inl f')
  /-- It is the last one taken. -/
  | filled {f' : Fetching} (hpeer : SamePeer pindex f f')
      (hblocks : f'.vBlocks = f.vBlocks ++ [pindex]) (hmissing : S.Missing D pindex)
      (hwithin : S.nHeight pindex ≤ nWindowEnd) (hfull : f'.vBlocks.length = count.toNat) :
      Visited S D count nWindowEnd f pindex (.inr f')

theorem SamePeer.of_state (h : f'.state = f.state) : SamePeer pindex f f' :=
  ⟨congrArg PeerBlocks.pindexBestKnownBlock h, .inl (congrArg PeerBlocks.pindexLastCommonBlock h)⟩

theorem visit_visited (S : SkipTree) (D : DownloadState) (nodeid : NodeId) (count : BitVec 32)
    (nWindowEnd : ℕ) (f : Fetching) (pindex : uint256) :
    Visited S D count nWindowEnd f pindex (visit S D nodeid count nWindowEnd f pindex) := by
  unfold visit
  dsimp only
  cases hvalid : ((S.entry pindex).getD {}).nStatus.IsValid BLOCK_VALID_TREE with
  | false =>
    exact .failed hvalid
  | true =>
    rw [Bool.not_true, if_neg Bool.false_ne_true]
    have hentry : S.entry pindex = some ((S.entry pindex).getD {}) := by
      cases hlook : S.entry pindex with
      | some e => rfl
      | none =>
        rw [hlook] at hvalid
        cases hvalid
    cases hdata : ((S.entry pindex).getD {}).nStatus.haveData with
    | true =>
      rw [if_pos rfl]
      have hnot : ¬ S.Missing D pindex := by
        rintro ⟨⟨e, he, hnodata⟩, -⟩
        rw [he, getD_some, hnodata] at hdata
        cases hdata
      split_ifs
      · exact .passed ⟨rfl, .inr rfl⟩ rfl hnot
      · exact .passed (SamePeer.of_state rfl) rfl hnot
    | false =>
      rw [if_neg Bool.false_ne_true]
      cases hflight : D.mapBlocksInFlight.lookup pindex with
      | some node =>
        have hnot : ¬ S.Missing D pindex := by
          intro h
          rw [h.2] at hflight
          cases hflight
        dsimp only
        split_ifs
        · exact .passed (SamePeer.of_state rfl) rfl hnot
        · exact .passed (SamePeer.of_state rfl) rfl hnot
      | none =>
        dsimp only
        split_ifs with hbeyond hstalled hfull
        · exact .beyond (SamePeer.of_state rfl) rfl hbeyond
        · exact .beyond (SamePeer.of_state rfl) rfl hbeyond
        · exact .filled (SamePeer.of_state rfl) rfl ⟨⟨_, hentry, hdata⟩, hflight⟩
            (Nat.le_of_not_lt hbeyond) hfull
        · exact .taken (SamePeer.of_state rfl) rfl ⟨⟨_, hentry, hdata⟩, hflight⟩
            (Nat.le_of_not_lt hbeyond) hfull

/-! ## A walk -/

/-- What a walk over `l` leaves of `f`, ended or not. -/
structure Scanned (S : SkipTree) (D : DownloadState) (count : BitVec 32) (nWindowEnd : ℕ)
    (f : Fetching) (l : List uint256) (f' : Fetching) : Prop where
  best : f'.state.pindexBestKnownBlock = f.state.pindexBestKnownBlock
  last : f'.state.pindexLastCommonBlock = f.state.pindexLastCommonBlock ∨
    ∃ pindex ∈ l, f'.state.pindexLastCommonBlock = some pindex
  added : ∃ new, f'.vBlocks = f.vBlocks ++ new ∧ new.Sublist l ∧
    ∀ pindex ∈ new, S.Missing D pindex ∧ S.nHeight pindex ≤ nWindowEnd
  few : f.vBlocks.length < count.toNat → f'.vBlocks.length ≤ count.toNat
  nothing : f'.vBlocks = [] → ∀ pindex ∈ l, S.nHeight pindex ≤ nWindowEnd → S.Missing D pindex →
    ∃ bad ∈ l, S.nHeight bad ≤ S.nHeight pindex ∧ Failed S.toBlockTree bad

theorem Scanned.ended {new : List uint256} (hpeer : SamePeer pindex f f')
    (hblocks : f'.vBlocks = f.vBlocks ++ new) (hsub : new.Sublist (pindex :: l))
    (hnew : ∀ p ∈ new, S.Missing D p ∧ S.nHeight p ≤ nWindowEnd)
    (hfew : f.vBlocks.length < count.toNat → f'.vBlocks.length ≤ count.toNat)
    (hnothing : f'.vBlocks = [] → ∀ p ∈ pindex :: l, S.nHeight p ≤ nWindowEnd → S.Missing D p →
      ∃ bad ∈ pindex :: l, S.nHeight bad ≤ S.nHeight p ∧ Failed S.toBlockTree bad) :
    Scanned S D count nWindowEnd f (pindex :: l) f' where
  best := hpeer.best
  last := hpeer.last.imp_right fun h => ⟨pindex, .head _, h⟩
  added := ⟨new, hblocks, hsub, hnew⟩
  few := hfew
  nothing := hnothing

theorem Scanned.cons {new : List uint256} {f₁ : Fetching} (h : Scanned S D count nWindowEnd f₁ l f')
    (hpeer : SamePeer pindex f f₁) (hblocks : f₁.vBlocks = f.vBlocks ++ new)
    (hsub : new.Sublist [pindex]) (hnew : ∀ p ∈ new, S.Missing D p ∧ S.nHeight p ≤ nWindowEnd)
    (hfew : f.vBlocks.length < count.toNat → f₁.vBlocks.length < count.toNat)
    (hnot : new = [] → ¬ S.Missing D pindex) :
    Scanned S D count nWindowEnd f (pindex :: l) f' := by
  obtain ⟨rest, hrest, hrestsub, hrestnew⟩ := h.added
  refine ⟨h.best.trans hpeer.best, ?_, ?_, fun hlt => h.few (hfew hlt), ?_⟩
  · rcases h.last with hlast | ⟨p, hp, hlast⟩
    · rcases hpeer.last with hsame | hhere
      · exact .inl (hlast.trans hsame)
      · exact .inr ⟨pindex, .head _, hlast.trans hhere⟩
    · exact .inr ⟨p, mem_cons_of_mem pindex hp, hlast⟩
  · refine ⟨new ++ rest, by rw [hrest, hblocks, append_assoc], hsub.append hrestsub, ?_⟩
    intro p hp
    rcases mem_append.mp hp with hp | hp
    · exact hnew p hp
    · exact hrestnew p hp
  · intro hnone p hp hwithin hmissing
    rcases mem_cons.mp hp with rfl | hp
    · rw [hrest, hblocks, append_eq_nil_iff, append_eq_nil_iff] at hnone
      exact absurd hmissing (hnot hnone.1.2)
    · obtain ⟨bad, hbad, hlow, hfailed⟩ := h.nothing hnone p hp hwithin hmissing
      exact ⟨bad, mem_cons_of_mem pindex hbad, hlow, hfailed⟩

/-- The state a walk leaves, whether it ended or not. -/
def outcome : Fetching ⊕ Fetching → Fetching := Sum.elim id id

/-- **What a walk up a chain takes.** -/
theorem forEach_scanned (hsorted : l.Pairwise fun a b => S.nHeight a < S.nHeight b)
    (f : Fetching) :
    Scanned S D count nWindowEnd f l
      (outcome (forEach (visit S D nodeid count nWindowEnd) f l)) := by
  induction l generalizing f with
  | nil =>
    refine ⟨rfl, .inl rfl, ⟨[], (append_nil _).symm, List.Sublist.refl [], ?_⟩, fun h => h.le, ?_⟩
    · exact nofun
    · exact nofun
  | cons pindex l ih =>
    obtain ⟨habove, hsorted⟩ := pairwise_cons.mp hsorted
    have hlowest : ∀ p ∈ pindex :: l, S.nHeight pindex ≤ S.nHeight p := by
      intro p hp
      rcases mem_cons.mp hp with rfl | hp
      · exact Nat.le_refl _
      · exact (habove p hp).le
    have hvisited := visit_visited S D nodeid count nWindowEnd f pindex
    generalize hvisit : visit S D nodeid count nWindowEnd f pindex = r at hvisited
    cases hvisited with
    | failed hfailed =>
      rw [forEach_inr hvisit]
      refine Scanned.ended (SamePeer.of_state rfl) (append_nil _).symm (nil_sublist _)
        (nofun) (fun h => h.le) ?_
      intro _ p hp _ _
      exact ⟨pindex, .head _, hlowest p hp, hfailed⟩
    | passed hpeer hblocks hnot =>
      rw [forEach_inl hvisit]
      refine (ih hsorted _).cons hpeer (hblocks.trans (append_nil _).symm)
        (nil_sublist _) (nofun) ?_ fun _ => hnot
      rw [hblocks]
      exact id
    | beyond hpeer hblocks hbeyond =>
      rw [forEach_inr hvisit]
      refine Scanned.ended hpeer (hblocks.trans (append_nil _).symm) (nil_sublist _) (nofun) ?_ ?_
      · show f.vBlocks.length < count.toNat → List.length _ ≤ count.toNat
        intro hlt
        exact (congrArg List.length hblocks).le.trans hlt.le
      · intro _ p hp hwithin
        have := hlowest p hp
        omega
    | taken hpeer hblocks hmissing hwithin hfew =>
      rw [forEach_inl hvisit]
      refine (ih hsorted _).cons hpeer hblocks (List.Sublist.refl _) ?_ ?_ ?_
      · intro p hp
        obtain rfl := mem_singleton.mp hp
        exact ⟨hmissing, hwithin⟩
      · have hlen := congrArg List.length hblocks
        rw [length_append, length_singleton] at hlen
        omega
      · exact fun h => absurd h (cons_ne_nil _ _)
    | filled hpeer hblocks hmissing hwithin hfull =>
      rw [forEach_inr hvisit]
      refine Scanned.ended hpeer hblocks (singleton_sublist.mpr mem_cons_self) ?_
        (fun _ => hfull.le) ?_
      · intro p hp
        obtain rfl := mem_singleton.mp hp
        exact ⟨hmissing, hwithin⟩
      · intro hnone
        have hblocks' := hblocks.symm.trans hnone
        exact absurd hblocks' (append_ne_nil_of_right_ne_nil _ (cons_ne_nil _ _))

theorem toFetch_pos {nHeight size : ℕ} (h : nHeight < nMaxHeight) :
    0 < toFetch count nMaxHeight nHeight size := by
  unfold toFetch
  omega

theorem toFetch_le {nHeight size : ℕ} :
    nHeight + toFetch count nMaxHeight nHeight size ≤ max nHeight nMaxHeight := by
  unfold toFetch
  omega

theorem fetchRound_eq (D : DownloadState) (nodeid : NodeId) (count : BitVec 32) (nWindowEnd : ℕ)
    (h : SkipTree.Skipping N S) (hknown : S.Known best)
    (hline : SkipList.Lineage S.pprev S.Known S.nHeight best line)
    (hmax : nMaxHeight ≤ S.nHeight best) {lo : ℕ} (hlo : lo < nMaxHeight) (f : Fetching) :
    ∃ n, 0 < n ∧ lo + n ≤ nMaxHeight ∧
      fetchRound S D nodeid count best nWindowEnd nMaxHeight (line lo, f) =
        match forEach (visit S D nodeid count nWindowEnd) f ((List.range' (lo + 1) n).map line) with
        | .inl f => .inl (line (lo + n), f)
        | .inr f => .inr (some f) := by
  have hheight : S.nHeight (line lo) = lo := hline.height_eq lo (by omega)
  refine ⟨toFetch count nMaxHeight lo f.vBlocks.length, toFetch_pos hlo, ?_, ?_⟩
  · have := @toFetch_le count nMaxHeight lo f.vBlocks.length
    omega
  · have hpos := @toFetch_pos count nMaxHeight lo f.vBlocks.length hlo
    have hle := @toFetch_le count nMaxHeight lo f.vBlocks.length
    rw [fetchRound, hheight, if_neg (not_not.mpr hlo)]
    dsimp only
    generalize toFetch count nMaxHeight lo f.vBlocks.length = n at hpos hle ⊢
    have hreach : S.GetAncestor best (lo + n : ℕ) = some (line (lo + n)) :=
      (h.GetAncestor_eq hknown (by omega)).trans (hline.behind (lo + n) (by omega))
    have hbatch : SkipList.trail S.pprev (n - 1) (line (lo + n)) [] =
        some ((List.range' (lo + 1) n).map line) := by
      have htrail := @SkipList.trail_eq _ S.pprev line (lo + 1) (n - 1)
        (fun i _ hi => hline.prev i (by omega)) []
      rw [show lo + 1 + (n - 1) = lo + n by omega, show n - 1 + 1 = n by omega,
        append_nil] at htrail
      exact htrail
    rw [hreach]
    dsimp only
    rw [hbatch]

/-- **The batches are one walk** over the peer's chain, up to where it ends or the walk does. -/
theorem run_fetchRound (D : DownloadState) (nodeid : NodeId) (count : BitVec 32) (nWindowEnd : ℕ)
    (h : SkipTree.Skipping N S) (hknown : S.Known best)
    (hline : SkipList.Lineage S.pprev S.Known S.nHeight best line)
    (hmax : nMaxHeight ≤ S.nHeight best) {lo fuel : ℕ} (hlo : lo ≤ nMaxHeight)
    (hfuel : nMaxHeight < lo + fuel) (f : Fetching) :
    run (fetchRound S D nodeid count best nWindowEnd nMaxHeight) fuel (line lo, f) =
      some (some (outcome (forEach (visit S D nodeid count nWindowEnd) f
        ((List.range' (lo + 1) (nMaxHeight - lo)).map line)))) := by
  induction fuel generalizing lo f with
  | zero => omega
  | succ fuel ih =>
    rcases Nat.eq_or_lt_of_le hlo with rfl | hlt
    · rw [Nat.sub_self]
      refine run_inr ?_ fuel
      rw [fetchRound, hline.height_eq lo (by omega), if_pos (Nat.lt_irrefl lo)]
      rfl
    · obtain ⟨n, hpos, hle, hround⟩ := fetchRound_eq D nodeid count nWindowEnd h hknown
        hline hmax hlt f
      have hsplit : List.range' (lo + 1) (nMaxHeight - lo) =
          List.range' (lo + 1) n ++ List.range' (lo + n + 1) (nMaxHeight - (lo + n)) := by
        rw [show lo + n + 1 = lo + 1 + n by omega, range'_append_1]
        congr 1
        omega
      rw [hsplit, map_append, forEach_append]
      cases hbatch : forEach (visit S D nodeid count nWindowEnd) f
          ((List.range' (lo + 1) n).map line) with
      | inr f' =>
        rw [hbatch] at hround
        exact run_inr hround fuel
      | inl f' =>
        rw [hbatch] at hround
        rw [run_inl hround, ih hle (by omega)]

/-! ## What is returned -/

/-- The pointers kept of a peer are those of entries. -/
structure PeerBlocks.Points (T : BlockTree) (state : PeerBlocks) : Prop where
  best : ∀ b, state.pindexBestKnownBlock = some b → T.Known b
  last : ∀ b, state.pindexLastCommonBlock = some b → T.Known b

theorem ProcessBlockAvailability_points {T : BlockTree} (h : state.Points T) :
    (T.ProcessBlockAvailability state).Points T := by
  unfold BlockTree.ProcessBlockAvailability
  split_ifs with hknown
  · exact h
  · split
    · exact h
    next itOld hlook =>
      split_ifs
      · exact h
      · refine ⟨?_, h.last⟩
        have hannounced : T.Known state.hashLastUnknownBlock :=
          BlockTree.known_iff.mpr ⟨itOld, hlook⟩
        intro b hb
        split at hb
        · cases hb
          exact hannounced
        next pindexBest hbest =>
          split_ifs at hb
          · cases hb
            exact hannounced
          · obtain rfl := some.inj hb
            exact h.best pindexBest hbest

/-- The download window on the chain of `best`, from `fork` on. -/
def InWindow (T : BlockTree) (fork best b : uint256) : Prop :=
  T.IsAncestor b best ∧ T.nHeight fork < T.nHeight b ∧
    T.nHeight b ≤ T.nHeight fork + BLOCK_DOWNLOAD_WINDOW

/-- The peer has no chain with as much work as the active one. -/
def Uninteresting (T : BlockTree) (state : PeerBlocks) : Prop :=
  ∀ best, state.pindexBestKnownBlock = some best →
    ∃ tip rest, T.chainActive = tip :: rest ∧ T.nChainWork best < T.nChainWork tip

/-- A block on the way from `fork` to `b`, or `b`, has failed. -/
def FailedBelow (T : BlockTree) (fork b : uint256) : Prop :=
  ∃ bad e, T.IsAncestor bad b ∧ T.nHeight fork < T.nHeight bad ∧ T.entry bad = some e ∧
    e.nStatus.failed = true

/-- From where to where a peer's blocks are looked through. -/
def Between (S : SkipTree) (state : PeerBlocks) (fork best : uint256) : Prop :=
  (S.ProcessBlockAvailability state).pindexBestKnownBlock = some best ∧
    lastCommon S (S.ProcessBlockAvailability state) best = some fork ∧ S.IsAncestor fork best

/-- What `FindNextBlocksToDownload` returns of a peer's blocks, and when it is nothing. -/
structure WellChosen (S : SkipTree) (D : DownloadState) (count : BitVec 32) (state : PeerBlocks)
    (r : Fetched) : Prop where
  points : r.state.Points S.toBlockTree
  few : r.vBlocks.length ≤ count.toNat
  distinct : r.vBlocks.Nodup
  ascending : r.vBlocks.Pairwise fun a b => S.nHeight a < S.nHeight b
  missing : ∀ b ∈ r.vBlocks, S.Missing D b
  inactive : ∀ b ∈ r.vBlocks, b ∉ S.chainActive
  within : ∀ b ∈ r.vBlocks, ∃ fork best, Between S state fork best ∧
    InWindow S.toBlockTree fork best b
  nothing : r.vBlocks = [] → count = 0 ∨
    Uninteresting S.toBlockTree (S.ProcessBlockAvailability state) ∨
      ∃ fork best, Between S state fork best ∧ ∀ b, InWindow S.toBlockTree fork best b →
        S.Missing D b → FailedBelow S.toBlockTree fork b

theorem WellChosen.empty {r : Fetched} (hpoints : r.state.Points S.toBlockTree)
    (hnone : r.vBlocks = [])
    (hreason : count = 0 ∨ Uninteresting S.toBlockTree (S.ProcessBlockAvailability state) ∨
      ∃ fork best, Between S state fork best ∧ ∀ b, InWindow S.toBlockTree fork best b →
        S.Missing D b → FailedBelow S.toBlockTree fork b) :
    WellChosen S D count state r := by
  refine ⟨hpoints, ?_, ?_, ?_, ?_, ?_, ?_, fun _ => hreason⟩
  · rw [hnone]
    exact Nat.zero_le _
  · rw [hnone]
    exact nodup_nil
  · rw [hnone]
    exact List.Pairwise.nil
  · rw [hnone]
    exact nofun
  · rw [hnone]
    exact nofun
  · rw [hnone]
    exact nofun

/-! ## The walk over the window -/

theorem lastCommon_spec (h : SkipTree.Skipping N S) (hactive : S.chainActive ≠ [])
    (hpoints : state.Points S.toBlockTree) (hbest : S.Known best) :
    ∃ fork, lastCommon S state best = some fork ∧ S.Known fork ∧ S.IsAncestor fork best := by
  have hguess : ∃ guess, (match state.pindexLastCommonBlock with
      | some pindex => some pindex
      | none => S.chainAt (min (S.nHeight best) (S.chainActive.length - 1))) = some guess ∧
      S.Known guess := by
    cases hlast : state.pindexLastCommonBlock with
    | some pindex => exact ⟨pindex, rfl, hpoints.last pindex hlast⟩
    | none =>
      have hlen := length_pos_iff.mpr hactive
      have hlt : min (S.nHeight best) (S.chainActive.length - 1) <
          S.chainActive.reverse.length := by
        rw [length_reverse]
        omega
      refine ⟨_, List.getElem?_eq_getElem hlt, ?_⟩
      obtain ⟨e, he, -⟩ := h.stored _ (mem_reverse.mp (getElem_mem hlt))
      exact BlockTree.known_iff.mpr ⟨e, he⟩
  obtain ⟨guess, hguess, hknown⟩ := hguess
  obtain ⟨fork, hfork, hforkknown, -, hancestor⟩ := h.LastCommonAncestor_spec hknown hbest
  refine ⟨fork, ?_, hforkknown, hancestor⟩
  unfold lastCommon
  rw [hguess]
  exact hfork

section
variable (hline : SkipList.Lineage S.pprev S.Known S.nHeight best line)
  (hmax : nMaxHeight ≤ S.nHeight best)
include hline hmax

theorem mem_walk {lo : ℕ} {b : uint256}
    (hb : b ∈ (List.range' (lo + 1) (nMaxHeight - lo)).map line) :
    line (S.nHeight b) = b ∧ S.Known b ∧ S.IsAncestor b best ∧ lo < S.nHeight b ∧
      S.nHeight b ≤ nMaxHeight := by
  obtain ⟨n, hn, rfl⟩ := mem_map.mp hb
  have hrange := mem_range'_1.mp hn
  have hheight := hline.height_eq n (by omega)
  rw [hheight]
  exact ⟨rfl, hline.mem n (by omega), ⟨_, hline.behind n (by omega)⟩, by omega, by omega⟩

theorem walk_sorted (lo : ℕ) :
    ((List.range' (lo + 1) (nMaxHeight - lo)).map line).Pairwise
      fun a b => S.nHeight a < S.nHeight b := by
  refine pairwise_map.mpr ?_
  refine (pairwise_lt_range' (s := lo + 1) (n := nMaxHeight - lo)).imp_of_mem ?_
  intro m n hm hn hlt
  have hmrange := mem_range'_1.mp hm
  have hnrange := mem_range'_1.mp hn
  rw [hline.height_eq m (by omega), hline.height_eq n (by omega)]
  exact hlt

end

theorem Failed.entry (h : SkipTree.Skipping N S) (hknown : S.Known pindex)
    (hfailed : Failed S.toBlockTree pindex) :
    ∃ e, S.entry pindex = some e ∧ e.nStatus.failed = true := by
  obtain ⟨e, he⟩ := BlockTree.known_iff.mp hknown
  refine ⟨e, he, ?_⟩
  have htree := (h.wellFormed.sound pindex e he).tree
  rw [Failed, he, getD_some, BlockStatus.IsValid, decide_eq_true htree, Bool.and_true] at hfailed
  simpa using hfailed

theorem run_scanned (D : DownloadState) (nodeid : NodeId) (count : BitVec 32) (nWindowEnd : ℕ)
    (h : SkipTree.Skipping N S) (hbest : S.Known best)
    (hline : SkipList.Lineage S.pprev S.Known S.nHeight best line)
    (hancestor : S.IsAncestor fork best) (hmax : nMaxHeight ≤ S.nHeight best)
    (hstart : S.nHeight fork ≤ nMaxHeight) (f : Fetching) :
    ∃ f', run (fetchRound S D nodeid count best nWindowEnd nMaxHeight) (nMaxHeight + 1)
        (fork, f) = some (some f') ∧
      Scanned S D count nWindowEnd f
        ((List.range' (S.nHeight fork + 1) (nMaxHeight - S.nHeight fork)).map line) f' := by
  obtain ⟨n, hback⟩ := hancestor
  have hat := hline.eq_of_back h.wellFormed.grounded hbest hback
  have hrun := run_fetchRound D nodeid count nWindowEnd h hbest hline hmax hstart
    (show nMaxHeight < S.nHeight fork + (nMaxHeight + 1) by omega) f
  rw [hat] at hrun
  exact ⟨_, hrun, forEach_scanned (walk_sorted hline hmax _) f⟩

/-- **The walk over the window chooses well.** -/
theorem Scanned.wellChosen (h : SkipTree.Skipping N S) (hcount : count ≠ 0)
    (hbetween : Between S state fork best) (hbest : S.Known best)
    (hfork : S.Known fork) (hline : SkipList.Lineage S.pprev S.Known S.nHeight best line)
    (hmax : nMaxHeight = min (S.nHeight best) (S.nHeight fork + BLOCK_DOWNLOAD_WINDOW + 1))
    (hannounced : f.state.pindexBestKnownBlock = some best)
    (hlastcommon : f.state.pindexLastCommonBlock = some fork) (hempty : f.vBlocks = [])
    (hscanned : Scanned S D count (S.nHeight fork + BLOCK_DOWNLOAD_WINDOW) f
      ((List.range' (S.nHeight fork + 1) (nMaxHeight - S.nHeight fork)).map line) f') :
    WellChosen S D count state f'.toFetched := by
  have hle : nMaxHeight ≤ S.nHeight best := hmax ▸ min_le_left _ _
  obtain ⟨new, hnew, hsub, hgood⟩ := hscanned.added
  rw [hempty, nil_append] at hnew
  have hsorted := (walk_sorted hline hle (S.nHeight fork)).sublist hsub
  refine ⟨⟨?_, ?_⟩, ?_, ?_, ?_, ?_, ?_, ?_, ?_⟩
  · intro b hb
    rw [hscanned.best, hannounced] at hb
    cases hb
    exact hbest
  · intro b hb
    rcases hscanned.last with hlast | ⟨p, hp, hlast⟩
    · rw [hlast, hlastcommon] at hb
      cases hb
      exact hfork
    · rw [hlast] at hb
      cases hb
      exact (mem_walk hline hle hp).2.1
  · refine hscanned.few ?_
    rw [hempty, length_nil]
    exact Nat.pos_of_ne_zero fun hzero => hcount (BitVec.eq_of_toNat_eq hzero)
  · rw [hnew]
    exact hsorted.imp fun hlt heq => absurd (heq ▸ hlt) (Nat.lt_irrefl _)
  · rw [hnew]
    exact hsorted
  · rw [hnew]
    exact fun b hb => (hgood b hb).1
  · rw [hnew]
    intro b hb hmem
    obtain ⟨⟨e, he, hnodata⟩, -⟩ := (hgood b hb).1
    obtain ⟨e', he', hdata⟩ := h.stored b hmem
    obtain rfl : e = e' := some.inj (he.symm.trans he')
    exact Bool.false_ne_true (hnodata.symm.trans hdata)
  · rw [hnew]
    intro b hb
    obtain ⟨-, -, hancestor, hlow, -⟩ := mem_walk hline hle (hsub.subset hb)
    exact ⟨fork, best, hbetween, hancestor, hlow, (hgood b hb).2⟩
  · intro hnone
    refine .inr (.inr ⟨fork, best, hbetween, ?_⟩)
    rintro b ⟨hancestor, hlow, hhigh⟩ hmissing
    obtain ⟨n, hback⟩ := hancestor
    have hat := hline.eq_of_back h.wellFormed.grounded hbest hback
    have hheight := h.wellFormed.grounded.height_back hbest hback
    have hwalk : b ∈ (List.range' (S.nHeight fork + 1) (nMaxHeight - S.nHeight fork)).map line :=
      mem_map.mpr ⟨S.nHeight b, mem_range'_1.mpr (by omega), hat⟩
    obtain ⟨bad, hbad, hbelow, hfailed⟩ := hscanned.nothing hnone b hwalk hhigh hmissing
    obtain ⟨hbadat, hbadknown, -, hbadlow, -⟩ := mem_walk hline hle hbad
    obtain ⟨e, he, hefailed⟩ := hfailed.entry h hbadknown
    have hunder := hline.between hbelow (by omega)
    rw [hat, hbadat] at hunder
    exact ⟨bad, e, ⟨_, hunder⟩, hbadlow, he, hefailed⟩

/-- **What is returned in every state of the index and of a peer.** -/
theorem FindNextBlocksToDownload_spec (h : SkipTree.Skipping N S) (hactive : S.chainActive ≠ [])
    (D : DownloadState) (nodeid : NodeId) (count : BitVec 32)
    (hpoints : state.Points S.toBlockTree) (nodeStaller : Option NodeId) :
    ∃ r, FindNextBlocksToDownload S D nodeid count state [] nodeStaller = some r ∧
      WellChosen S D count state r := by
  unfold FindNextBlocksToDownload
  dsimp only
  split
  case isTrue hzero => exact ⟨_, rfl, WellChosen.empty hpoints rfl (.inl hzero)⟩
  case isFalse hcount =>
    have hprocessed := ProcessBlockAvailability_points hpoints
    cases hannounced : (S.ProcessBlockAvailability state).pindexBestKnownBlock with
    | none =>
      refine ⟨_, rfl, WellChosen.empty hprocessed rfl (.inr (.inl ?_))⟩
      intro best hbest
      rw [hannounced] at hbest
      cases hbest
    | some best =>
      have hbest := hprocessed.best best hannounced
      obtain ⟨fork, hfork, hknown, hancestor⟩ := lastCommon_spec h hactive hprocessed hbest
      have hbetween : Between S state fork best := ⟨hannounced, hfork, hancestor⟩
      cases hchain : S.chainActive with
      | nil => exact absurd hchain hactive
      | cons tip rest =>
        dsimp only
        split
        case isTrue hless =>
          refine ⟨_, rfl, WellChosen.empty hprocessed rfl (.inr (.inl ?_))⟩
          intro best' hbest'
          obtain rfl := some.inj (hannounced.symm.trans hbest')
          exact ⟨tip, rest, hchain, hless⟩
        case isFalse =>
          rw [hfork]
          dsimp only
          split
          case isTrue hsame =>
            -- the peer's best block is the last one both have: there is no window
            refine ⟨_, rfl, WellChosen.empty ⟨?_, ?_⟩ rfl (.inr (.inr ?_))⟩
            · exact fun b hb => hprocessed.best b (hannounced.trans hb)
            · intro b hb
              cases hb
              exact hknown
            · refine ⟨fork, best, hbetween, ?_⟩
              rintro b ⟨⟨n, hback⟩, hlow, -⟩ -
              have hheight := h.wellFormed.grounded.height_back hbest hback
              rw [hsame] at hlow
              omega
          case isFalse =>
            obtain ⟨line, hline⟩ := h.wellFormed.grounded.lineage hbest
            have hle : S.nHeight fork ≤ S.nHeight best := by
              obtain ⟨n, hback⟩ := hancestor
              have := h.wellFormed.grounded.height_back hbest hback
              omega
            have hstart : S.nHeight fork ≤
                min (S.nHeight best) (S.nHeight fork + BLOCK_DOWNLOAD_WINDOW + 1) :=
              le_min hle (by omega)
            obtain ⟨f', hrun, hscanned⟩ := run_scanned D nodeid count
              (S.nHeight fork + BLOCK_DOWNLOAD_WINDOW) h hbest hline hancestor
              (min_le_left _ _) hstart _
            rw [hrun]
            exact ⟨_, rfl, hscanned.wellChosen h hcount hbetween hbest hknown hline rfl rfl rfl rfl⟩

/-- **The blocks to download**, in every state the index can come to: few, in order, all of
them missing, and none only for a reason. -/
theorem blocks_to_download (h : SkipTree.Reached N S) (hactive : S.chainActive ≠ [])
    (D : DownloadState) (nodeid : NodeId) (count : BitVec 32)
    (hpoints : state.Points S.toBlockTree) (nodeStaller : Option NodeId) :
    ∃ r, FindNextBlocksToDownload S D nodeid count state [] nodeStaller = some r ∧
      WellChosen S D count state r :=
  FindNextBlocksToDownload_spec h.skipping hactive D nodeid count hpoints nodeStaller

end

/-! ### Two blocks and two headers -/

def plainBlock (hashPrevBlock : uint256) (nBits : BitVec 32) : CBlock where
  nVersion := 1
  hashPrevBlock := hashPrevBlock
  hashMerkleRoot := 0
  nTime := 0
  nBits := nBits
  nNonce := 0
  nAccumulatorCheckpoint := 0
  vtx := [⟨0, 1, [], [], 0⟩]
  prevout_lt := genesis.prevout_lt

open BlockTree

/-- The genesis block is active; behind it comes 673, with work. -/
def onGenesis : SkipTree :=
  ⟨{ withGenesis with setBlockIndexCandidates := [], chainActive := [2] }, fun _ => none⟩

def workedTree : BlockTree :=
  ((onGenesis.AddToBlockIndex stakeNode (plainBlock 2 0x207fffff)).edit 673
    (received (plainBlock 2 0x207fffff) ⟨0, 300⟩)).link stakeNode 673

theorem step_worked : skipStep stakeNode onGenesis
    (.block (plainBlock 2 0x207fffff) (allGood 0) ⟨0, 300⟩) =
      (⟨workedTree, fun _ => none⟩ : SkipTree).BuildSkip 673 := by
  have hloop : treeStep stakeNode onGenesis.toBlockTree
      (.block (plainBlock 2 0x207fffff) (allGood 0) ⟨0, 300⟩) = linkAll stakeNode
        ((onGenesis.AddToBlockIndex stakeNode (plainBlock 2 0x207fffff)).edit 673
          (received (plainBlock 2 0x207fffff) ⟨0, 300⟩)) [673] := rfl
  have htree : treeStep stakeNode onGenesis.toBlockTree
      (.block (plainBlock 2 0x207fffff) (allGood 0) ⟨0, 300⟩) = workedTree := by
    rw [hloop, linkAll_single rfl]
    rfl
  unfold skipStep
  rw [htree]
  rfl

/-- 673 is active; 4 is a header beside it with less work, 165 one behind it. -/
def headersTree : SkipTree :=
  [.chain [] [673, 2], .header (plainBlock 2 0).toCBlockHeader (allGood 0),
    .header (plainBlock 673 0).toCBlockHeader (allGood 0)].foldl (skipStep stakeNode)
      ((⟨workedTree, fun _ => none⟩ : SkipTree).BuildSkip 673)

/-- 165 has failed. -/
def failedTree : SkipTree := skipStep stakeNode headersTree (.mark 165 true false)

theorem onGenesis_reached : SkipTree.Reached stakeNode onGenesis := by
  have hgenesis : skipStep stakeNode {} (.block genesis (allGood 0) ⟨0, 8⟩) =
      ⟨withGenesis, fun _ => none⟩ := by
    unfold skipStep
    rw [step_genesis]
    rfl
  have hstart : SkipTree.Reached stakeNode {} := ⟨[], trivial, rfl⟩
  have hfirst := hstart.step (i := .block genesis (allGood 0) ⟨0, 8⟩)
    ⟨(firstBlocks_guarded 0).1, trivial⟩
  rw [hgenesis] at hfirst
  refine hfirst.step (i := .chain [] [2]) ⟨trivial, ?_⟩
  intro hash hmem
  obtain rfl := mem_singleton.mp hmem
  exact ⟨_, rfl, rfl⟩

theorem headersTree_reached : SkipTree.Reached stakeNode headersTree := by
  have hworked := onGenesis_reached.step
    (i := .block (plainBlock 2 0x207fffff) (allGood 0) ⟨0, 300⟩)
    ⟨⟨⟨by decide, fun h => absurd h (by decide), fun e he =>
      absurd (show none = some e from he) (by simp)⟩, by decide⟩, trivial⟩
  rw [step_worked] at hworked
  have hactive := hworked.step (i := .chain [] [673, 2]) ⟨trivial, by
    intro hash hmem
    rcases mem_cons.mp hmem with rfl | hmem
    · exact ⟨_, rfl, rfl⟩
    · obtain rfl := mem_singleton.mp hmem
      exact ⟨_, rfl, rfl⟩⟩
  have hbeside := hactive.step (i := .header (plainBlock 2 0).toCBlockHeader (allGood 0))
    ⟨⟨by decide, fun h => absurd h (by decide), fun e he =>
      absurd (show none = some e from he) (by simp)⟩, trivial⟩
  exact hbeside.step (i := .header (plainBlock 673 0).toCBlockHeader (allGood 0))
    ⟨⟨by decide, fun h => absurd h (by decide), fun e he =>
      absurd (show none = some e from he) (by simp)⟩, trivial⟩

theorem failedTree_reached : SkipTree.Reached stakeNode failedTree :=
  headersTree_reached.step ⟨trivial, trivial⟩

def announcing (best : uint256) : PeerBlocks := { pindexBestKnownBlock := some best }

/-- The header behind the tip is asked for. -/
theorem header_to_download : ∃ r,
    FindNextBlocksToDownload headersTree {} 1 16 (announcing 165) [] none = some r ∧
      WellChosen headersTree {} 16 (announcing 165) r := by
  refine blocks_to_download headersTree_reached (by decide +kernel) {} 1 16 ⟨?_, ?_⟩ none
  · intro b hb
    cases hb
    exact BlockTree.known_iff.mpr ⟨_, rfl⟩
  · exact nofun

/-- Where nothing is returned, nothing in the window is missing, or it is stalled. -/
def MissesNothing (S : SkipTree) (D : DownloadState) (nodeid : NodeId) (count : BitVec 32)
    (state : PeerBlocks) : Prop :=
  ∀ r, FindNextBlocksToDownload S D nodeid count state [] none = some r → r.vBlocks = [] →
    ∀ fork best, Between S state fork best →
      (∀ b, InWindow S.toBlockTree fork best b → ¬ S.Missing D b) ∨ r.nodeStaller ≠ none

theorem not_missesNothing {S : SkipTree} {D : DownloadState} {nodeid : NodeId}
    {count : BitVec 32} {best : uint256} (fork : uint256)
    (hnone : (FindNextBlocksToDownload S D nodeid count (announcing best) [] none).map
      (fun r => (r.vBlocks, r.nodeStaller)) = some ([], none))
    (hfork : lastCommon S (announcing best) best = some fork) (hbehind : S.pprev best = some fork)
    (hlow : S.nHeight best = S.nHeight fork + 1) (hmissing : S.Missing D best) :
    ¬ MissesNothing S D nodeid count (announcing best) := by
  intro hall
  obtain ⟨r, hr, hfound⟩ := map_eq_some_iff.mp hnone
  have hancestor : S.IsAncestor fork best := ⟨1, by rw [SkipList.back, hbehind]; rfl⟩
  have hwindow : InWindow S.toBlockTree fork best best := by
    refine ⟨SkipTree.isAncestor_refl best, by omega, ?_⟩
    rw [hlow]
    exact Nat.add_le_add_left (by decide) _
  rcases hall r hr (congrArg Prod.fst hfound) fork best ⟨rfl, hfork, hancestor⟩ with hnot | hstalled
  · exact hnot best hwindow hmissing
  · exact hstalled (congrArg Prod.snd hfound)

/-- A missing block is left where none is wanted, where its chain has less work than the
active one, and where it has failed. -/
theorem missing_left : SkipTree.Reached stakeNode headersTree ∧
    SkipTree.Reached stakeNode failedTree ∧
    ¬ MissesNothing headersTree {} 1 0 (announcing 165) ∧
    ¬ MissesNothing headersTree {} 1 16 (announcing 4) ∧
    ¬ MissesNothing failedTree {} 1 16 (announcing 165) := by
  have hmissing : headersTree.Missing {} 165 := ⟨⟨_, rfl, rfl⟩, rfl⟩
  refine ⟨headersTree_reached, failedTree_reached, ?_, ?_, ?_⟩
  · exact not_missesNothing 673 (by decide +kernel) (by decide +kernel) (by decide +kernel)
      (by decide +kernel) hmissing
  · exact not_missesNothing 2 (by decide +kernel) (by decide +kernel) (by decide +kernel)
      (by decide +kernel) ⟨⟨_, rfl, rfl⟩, rfl⟩
  · refine not_missesNothing 673 (by decide +kernel) (by decide +kernel) (by decide +kernel)
      (by decide +kernel) ?_
    obtain ⟨⟨e, he, hnodata⟩, hflight⟩ := hmissing
    have hmarked : failedTree.entry 165 = some (setFailed true false e) := by
      have hedit := @entry_edit_self headersTree.toBlockTree 165 (setFailed true false)
      rw [he] at hedit
      exact hedit
    exact ⟨⟨_, hmarked, hnodata⟩, hflight⟩

end Divitae.BlockIndex
