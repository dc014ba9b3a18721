/-
# `RankAgreement` — the rank of a node and the node of a rank

`GetProsperitynodeRank` says which place a node has, `GetProsperitynodeByRank` which node has a
place.  Both sort the scores of the nodes of the list that pass a filter, and the filters are
written twice:

                                     the rank    the node of a rank
    protocol too old                 left out    left out
    announced within the last hours  left out    kept                 (with spork 8)
    not enabled                      left out    left out             (if asked for)

A node that was just announced takes a place in the one vector and none in the other.
-/
import Divitae.Lib.SortPart
import Divitae.RankOrder

namespace Divitae.Ranking

open ScoreSort List

/-- The node was just announced, and has no rank yet. -/
def JustAnnounced (env : RankEnv) (mn : CProsperitynode) : Bool :=
  env.paymentEnforced && env.adjustedTime - mn.sigTime < MN_WINNER_MINIMUM_AGE

section
variable (S : StdSort) (C : Crypto) (env : RankEnv) (nBlockHeight minProtocol : Int)
  (fOnlyActive : Bool)

/-- The node that has the rank of `v`, asked for after the rank, is `v`. -/
def HasOwnRank (nodes : List CProsperitynode) (v : CProsperitynode) : Prop :=
  let r := GetProsperitynodeRank S C env nodes nBlockHeight minProtocol fOnlyActive v.vin
  1 ≤ r.1 →
    (GetProsperitynodeByRank S C env r.2 nBlockHeight minProtocol fOnlyActive r.1).1.map
      CProsperitynode.vin = some v.vin

variable {S C env nBlockHeight minProtocol fOnlyActive}

theorem visit_rank (mn : CProsperitynode) :
    ((rankScan C env nBlockHeight minProtocol fOnlyActive).visit mn).2 =
      (!JustAnnounced env mn &&
        ((byRankScan C env nBlockHeight minProtocol fOnlyActive).visit mn).2) := by
  show (if mn.protocolVersion < minProtocol then (mn, false)
    else if JustAnnounced env mn then (mn, false)
    else if fOnlyActive then _ else (mn, true)).2 = (!JustAnnounced env mn &&
      (if mn.protocolVersion < minProtocol then (mn, false) else
        if fOnlyActive then _ else (mn, true)).2)
  by_cases hprotocol : mn.protocolVersion < minProtocol
  · rw [if_pos hprotocol, if_pos hprotocol, Bool.and_false]
  · rw [if_neg hprotocol, if_neg hprotocol]
    cases JustAnnounced env mn <;> rfl

theorem eligible_rank (nodes : List CProsperitynode) :
    (rankScan C env nBlockHeight minProtocol fOnlyActive).eligible nodes =
      ((byRankScan C env nBlockHeight minProtocol fOnlyActive).eligible nodes).filter
        fun mn => !JustAnnounced env mn := by
  rw [Scan.eligible, Scan.eligible, filter_filter]
  exact filter_congr fun mn _ => visit_rank mn

theorem visit_visit (mn : CProsperitynode) :
    (byRankScan C env nBlockHeight minProtocol fOnlyActive).visit
        ((rankScan C env nBlockHeight minProtocol fOnlyActive).visit mn).1 =
      (byRankScan C env nBlockHeight minProtocol fOnlyActive).visit mn := by
  unfold rankScan byRankScan
  dsimp only
  by_cases hold : mn.protocolVersion < minProtocol
  · rw [if_pos hold, if_pos hold]
  by_cases hyoung : (env.paymentEnforced &&
      env.adjustedTime - mn.sigTime < MN_WINNER_MINIMUM_AGE) = true
  · rw [if_neg hold, if_pos hyoung]
  by_cases hactive : fOnlyActive = true
  · have hchecked : ¬ (mn.Check env.toNodeEnv false).protocolVersion < minProtocol := by
      rwa [Check_protocolVersion]
    rw [if_neg hold, if_neg hyoung, if_pos hactive, if_pos hactive]
    dsimp only
    rw [if_neg hchecked, Check_Check, if_neg hold]
  · rw [if_neg hold, if_neg hyoung, if_neg hactive, if_neg hactive]

theorem byRank_after_rank (nodes : List CProsperitynode) (vin : CTxIn) (nRank : Int) :
    GetProsperitynodeByRank S C env
        (GetProsperitynodeRank S C env nodes nBlockHeight minProtocol fOnlyActive vin).2
        nBlockHeight minProtocol fOnlyActive nRank =
      GetProsperitynodeByRank S C env nodes nBlockHeight minProtocol fOnlyActive nRank := by
  rw [GetProsperitynodeRank]
  cases env.blockHash nBlockHeight with
  | none => rfl
  | some hash =>
    have hmap : ((rankScan C env nBlockHeight minProtocol fOnlyActive).visited nodes).map
        (byRankScan C env nBlockHeight minProtocol fOnlyActive).visit =
          nodes.map (byRankScan C env nBlockHeight minProtocol fOnlyActive).visit := by
      rw [Scan.visited, map_map]
      exact map_congr_left fun mn _ => visit_visit mn
    have hscored : (byRankScan C env nBlockHeight minProtocol fOnlyActive).scored
        ((rankScan C env nBlockHeight minProtocol fOnlyActive).visited nodes) =
          (byRankScan C env nBlockHeight minProtocol fOnlyActive).scored nodes := by
      rw [Scan.scored, hmap, Scan.scored]
    have hvisited : (byRankScan C env nBlockHeight minProtocol fOnlyActive).visited
        ((rankScan C env nBlockHeight minProtocol fOnlyActive).visited nodes) =
          (byRankScan C env nBlockHeight minProtocol fOnlyActive).visited nodes := by
      have hfirst := congrArg (List.map Prod.fst) hmap
      rwa [map_map, map_map] at hfirst
    have hfind : (byRankScan C env nBlockHeight minProtocol fOnlyActive).find
        ((rankScan C env nBlockHeight minProtocol fOnlyActive).visited nodes) =
          (byRankScan C env nBlockHeight minProtocol fOnlyActive).find nodes := by
      funext txin
      exact congrArg (List.find? _) hvisited
    unfold GetProsperitynodeByRank Scan.sortedScores
    dsimp only
    rw [hscored, hvisited, hfind]

/-! ## One list, two vectors -/

section
variable (L : NodeVector CProsperitynode.vin) {v : CProsperitynode}

theorem rank_of_not_eligible (hv : v ∈ L.nodes)
    (hout : v ∉ (rankScan C env nBlockHeight minProtocol fOnlyActive).eligible L.nodes) :
    (GetProsperitynodeRank S C env L.nodes nBlockHeight minProtocol fOnlyActive v.vin).1 = -1 := by
  rw [GetProsperitynodeRank_eq]
  split
  · rcases rankLoop_cases (fun txin => txin.prevout == v.vin.prevout)
      ((rankScan C env nBlockHeight minProtocol fOnlyActive).sortedScores S L.nodes)
      (le_refl 0) with ⟨hnone, -⟩ | ⟨-, s, hs, hfound⟩
    · exact hnone
    · rw [Scan.sortedScores_eq] at hs
      obtain ⟨mn, hmn, rfl⟩ := mem_map.mp hs
      have hmn := Scan.mem_inOrder.mp hmn
      obtain rfl : mn = v := inj_on_of_nodup_map L.once (mem_of_mem_filter hmn) hv
        (beq_iff_eq.mp hfound)
      exact absurd hmn hout
  · rfl

section
variable (hknown : (env.blockHash nBlockHeight).isSome = true)
include hknown

theorem hasOwnRank_iff
    (hv : v ∈ (rankScan C env nBlockHeight minProtocol fOnlyActive).eligible L.nodes) :
    HasOwnRank S C env nBlockHeight minProtocol fOnlyActive L.nodes v ↔
      ((byRankScan C env nBlockHeight minProtocol fOnlyActive).inOrder L.nodes S)[
        ((rankScan C env nBlockHeight minProtocol fOnlyActive).inOrder L.nodes S).idxOf v]? =
          some v := by
  have hrank : (GetProsperitynodeRank S C env L.nodes nBlockHeight minProtocol fOnlyActive
      v.vin).1 =
        (((rankScan C env nBlockHeight minProtocol fOnlyActive).inOrder L.nodes S).idxOf v : Int) +
          1 := by
    rw [GetProsperitynodeRank_eq, if_pos hknown]
    exact Scan.rank_eq (K := rankScan C env nBlockHeight minProtocol fOnlyActive) L
      (fun vin txin => txin.prevout == vin.prevout) (fun txin => beq_self_eq_true txin.prevout)
      (fun _ _ h => beq_iff_eq.mp h) hv
  have hnode := Scan.byRank_eq (K := byRankScan C env nBlockHeight minProtocol fOnlyActive) (S := S)
    L (((rankScan C env nBlockHeight minProtocol fOnlyActive).inOrder L.nodes S).idxOf v)
  unfold HasOwnRank
  dsimp only
  rw [byRank_after_rank, hrank]
  have hpos : (1 : Int) ≤
      ((rankScan C env nBlockHeight minProtocol fOnlyActive).inOrder L.nodes S).idxOf v + 1 := by
    omega
  refine (imp_iff_right hpos).trans ?_
  show Option.map CProsperitynode.vin ((byRankLoop _ 0 _).bind _) = _ ↔ _
  rw [hnode]
  cases hplace : ((byRankScan C env nBlockHeight minProtocol fOnlyActive).inOrder L.nodes S)[
      ((rankScan C env nBlockHeight minProtocol fOnlyActive).inOrder L.nodes S).idxOf v]? with
  | none => simp
  | some mn =>
    have hmn := Scan.mem_inOrder.mp (mem_of_getElem? hplace)
    have hvin : ((byRankScan C env nBlockHeight minProtocol fOnlyActive).visit mn).1.vin =
        mn.vin := (byRankScan C env nBlockHeight minProtocol fOnlyActive).visit_vin mn
    simp only [Option.map_some, Option.some.injEq, hvin]
    constructor
    · intro hsame
      exact inj_on_of_nodup_map L.once (mem_of_mem_filter hmn)
        (mem_of_mem_filter hv) (congrArg CTxIn.prevout hsame)
    · intro hsame
      rw [hsame]

theorem ranks_right_iff :
    (∀ v ∈ L.nodes, HasOwnRank S C env nBlockHeight minProtocol fOnlyActive L.nodes v) ↔
      (rankScan C env nBlockHeight minProtocol fOnlyActive).inOrder L.nodes S <+:
        (byRankScan C env nBlockHeight minProtocol fOnlyActive).inOrder L.nodes S := by
  have hnodup : ((rankScan C env nBlockHeight minProtocol fOnlyActive).inOrder L.nodes S).Nodup :=
    descending_perm.nodup_iff.mpr ((L.once.of_map _).filter _)
  rw [prefix_iff_getElem?]
  constructor
  · intro hall i hi
    have hv := Scan.mem_inOrder.mp (getElem_mem hi)
    have hplace := (hasOwnRank_iff L hknown hv).mp (hall _ (mem_of_mem_filter hv))
    rwa [hnodup.idxOf_getElem i hi] at hplace
  · intro hplaces v hv
    by_cases hranked : v ∈ (rankScan C env nBlockHeight minProtocol fOnlyActive).eligible L.nodes
    · refine (hasOwnRank_iff L hknown hranked).mpr ?_
      have hlt := idxOf_lt_length_of_mem (Scan.mem_inOrder (S := S).mpr hranked)
      rw [hplaces _ hlt, getElem_idxOf hlt]
    · intro hpos
      have hnone := rank_of_not_eligible (S := S) L hv hranked
      have hpos' : 1 ≤ (GetProsperitynodeRank S C env L.nodes nBlockHeight minProtocol
        fOnlyActive v.vin).1 := hpos
      omega

end

end

end

/-- **When the node of a node's rank is that node**, for every node of the list and whatever the
sort makes of equal scores: the block is not known, so that there are no ranks; or none of the
nodes that are looked up was just announced; or all that were score lower than all that were
not, and of those no two have one score. -/
theorem rank_agrees_iff (C : Crypto) (env : RankEnv) (nBlockHeight minProtocol : Int)
    (fOnlyActive : Bool) (L : NodeVector CProsperitynode.vin) :
    (∀ S, ∀ v ∈ L.nodes, HasOwnRank S C env nBlockHeight minProtocol fOnlyActive L.nodes v) ↔
      let eligible := (byRankScan C env nBlockHeight minProtocol fOnlyActive).eligible L.nodes
      let score := fun mn : CProsperitynode =>
        compactScore C (env.blockHash nBlockHeight) mn.vin.prevout
      env.blockHash nBlockHeight = none ∨
        (∀ mn ∈ eligible, JustAnnounced env mn = false) ∨
        (Untied score (eligible.filter fun mn => !JustAnnounced env mn) ∧
          ∀ a ∈ eligible, ∀ b ∈ eligible, JustAnnounced env a = false →
            JustAnnounced env b = true → score b < score a) := by
  cases hblock : env.blockHash nBlockHeight with
  | none =>
    refine iff_of_true ?_ (.inl rfl)
    intro S v hv hpos
    have hrank := GetProsperitynodeRank_eq S C env nBlockHeight minProtocol fOnlyActive L.nodes
      v.vin
    rw [hblock] at hrank
    have hneg := hrank.trans (if_neg Bool.false_ne_true)
    have hpos' : 1 ≤ (GetProsperitynodeRank S C env L.nodes nBlockHeight minProtocol
      fOnlyActive v.vin).1 := hpos
    omega
  | some hash =>
    have hknown : (env.blockHash nBlockHeight).isSome = true := by
      rw [hblock]
      rfl
    have hnodup : ((byRankScan C env nBlockHeight minProtocol fOnlyActive).eligible
        L.nodes).Nodup := (L.once.of_map _).filter _
    have hprefix := @part_prefix_iff _
      (fun mn : CProsperitynode => compactScore C (env.blockHash nBlockHeight) mn.vin.prevout) _
      hnodup fun mn => !JustAnnounced env mn
    rw [← eligible_rank] at hprefix
    simp only [ranks_right_iff L hknown]
    refine hprefix.trans ?_
    rw [hblock, eligible_rank]
    simp only [Option.some_ne_none, false_or, filter_eq_self, Bool.not_eq_true', Bool.not_eq_false']

/-- The second node of the examples, announced an hour ago. -/
def youngNode : CProsperitynode := { tiedNode 1 with sigTime := 1699996400 }

/-- **A node just announced in front of another.**  It has no rank, so the other has rank one,
but the node of rank one is the one just announced. -/
theorem just_announced_takes_rank :
    let nodes := [youngNode, tiedNode 0]
    (GetProsperitynodeRank insertion middleBytesCrypto tiedEnv nodes 900 PROTOCOL_VERSION true
        (tiedNode 0).vin).1 = 1 ∧
      ¬ HasOwnRank insertion middleBytesCrypto tiedEnv 900 PROTOCOL_VERSION true nodes
        (tiedNode 0) := by
  unfold HasOwnRank
  decide +kernel

end Divitae.Ranking
