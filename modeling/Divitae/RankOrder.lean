/-
# `RankOrder` — ranks and the order of the list

Each of the functions is judged by permuting the vector.  Where no two of the scored nodes
have one score, nothing that is read off depends on the order; where two have, the nodes
trade places in the list and with that in the outcome:

    the ranks          untied scores
    the node of a rank untied scores
    the winner         one node with the highest score, or none above zero
-/
import Divitae.Ranks

namespace Divitae.Ranking

open ScoreSort List

/-- A vector of nodes: each collateral is listed once. -/
structure NodeVector {ν : Type} (vin : ν → CTxIn) where
  nodes : List ν
  once : (nodes.map fun mn => (vin mn).prevout).Nodup

/-- The same for every order of the vector. -/
def OrderFree {ν β : Type} {vin : ν → CTxIn} (f : List ν → β) (L : NodeVector vin) : Prop :=
  ∀ L' : NodeVector vin, L'.nodes.Perm L.nodes → f L'.nodes = f L.nodes

/-- The highest score, if it is one that counts, is that of a single node. -/
def OneHighest {α : Type} (score : α → Int) (l : List α) : Prop :=
  ∀ a ∈ l, ∀ b ∈ l, score a = score b → 0 < score a → (∀ c ∈ l, score c ≤ score a) → a = b

section
variable {α : Type} {score : α → Int} {vin : α → CTxIn} {found : CTxIn → Bool} {a : α}

theorem rankLoop_eq [DecidableEq α] (hfound : found (vin a) = true) {l : List α}
    (hother : ∀ b ∈ l, found (vin b) = true → b = a) (ha : a ∈ l) (rank : Int) :
    rankLoop found rank (l.map fun mn => (score mn, vin mn)) = rank + l.idxOf a + 1 := by
  induction l generalizing rank with
  | nil => exact nomatch ha
  | cons b rest ih =>
    rw [map_cons, rankLoop]
    rcases eq_or_ne b a with rfl | hne
    · rw [if_pos hfound, idxOf_cons_self]
      exact (congrArg (· + 1) (add_zero rank)).symm
    · have hb : ¬(found (vin b) = true) := fun h => hne (hother b mem_cons_self h)
      rw [if_neg hb, ih (fun c hc => hother c (mem_cons_of_mem b hc))
        ((mem_cons.mp ha).resolve_left hne.symm), idxOf_cons_ne _ hne]
      push_cast
      ring

theorem rankLoop_cases (found : CTxIn → Bool) (l : List (Int × CTxIn)) {rank : Int}
    (hrank : 0 ≤ rank) :
    (rankLoop found rank l = -1 ∧ ∀ s ∈ l, found s.2 = false) ∨
      (rank < rankLoop found rank l ∧ ∃ s ∈ l, found s.2 = true) := by
  induction l generalizing rank with
  | nil => exact .inl ⟨rfl, nofun⟩
  | cons s rest ih =>
    cases hs : found s.2 with
    | true =>
      refine .inr ⟨?_, s, .head _, hs⟩
      rw [rankLoop, if_pos hs]
      omega
    | false =>
      rw [rankLoop, if_neg (by simp [hs])]
      rcases ih (show 0 ≤ rank + 1 by omega) with ⟨hnone, hall⟩ | ⟨hlt, t, ht, hfound⟩
      · exact .inl ⟨hnone, forall_mem_cons.mpr ⟨hs, hall⟩⟩
      · exact .inr ⟨by omega, t, mem_cons_of_mem s ht, hfound⟩

theorem byRankLoop_of_le {nRank : Int} (l : List (Int × CTxIn)) (rank : Int) (h : nRank ≤ rank) :
    byRankLoop nRank rank l = none := by
  induction l generalizing rank with
  | nil => rfl
  | cons s rest ih =>
    rw [byRankLoop, if_neg (by omega)]
    exact ih (rank + 1) (by omega)

theorem byRankLoop_eq (l : List (Int × CTxIn)) (rank : Int) (i : Nat) :
    byRankLoop (rank + i + 1) rank l = (l[i]?).map Prod.snd := by
  induction l generalizing rank i with
  | nil => rfl
  | cons s rest ih =>
    rw [byRankLoop]
    cases i with
    | zero => exact if_pos (by push_cast; ring)
    | succ i =>
      rw [if_neg (by push_cast; omega), List.getElem?_cons_succ, ← ih (rank + 1) i]
      refine congrArg (byRankLoop · (rank + 1) rest) ?_
      push_cast
      ring

end

/-! ## Scans -/

namespace Scan

variable {ν : Type} (K : Scan ν) (nodes : List ν)

def eligible : List ν := nodes.filter fun mn => (K.visit mn).2

def scoreOf (mn : ν) : Int := K.score (K.vin mn).prevout

def inOrder (S : StdSort) : List ν := descending S K.scoreOf (K.eligible nodes)

section
variable {K nodes} {S : StdSort} {a b : ν} {nodes' : List ν}

theorem scored_eq : K.scored nodes = (K.eligible nodes).map fun mn => (K.visit mn).1 := by
  rw [scored, eligible, filter_map, map_map]
  rfl

theorem scoreOf_visit (mn : ν) : K.scoreOf (K.visit mn).1 = K.scoreOf mn := by
  rw [scoreOf, scoreOf, K.visit_vin]

theorem sortedScores_eq :
    K.sortedScores S nodes = (K.inOrder nodes S).map fun mn => (K.scoreOf mn, K.vin mn) := by
  have hentry : ∀ mn, ((K.scoreOf (K.visit mn).1, K.vin (K.visit mn).1) : Int × CTxIn) =
      (K.scoreOf mn, K.vin mn) := by
    intro mn
    rw [scoreOf_visit, K.visit_vin]
  have hscores : ((K.scored nodes).map fun mn => (K.score (K.vin mn).prevout, K.vin mn)) =
      (K.eligible nodes).map fun mn => (K.scoreOf mn, K.vin mn) := by
    rw [scored_eq, map_map]
    exact map_congr_left fun mn _ => hentry mn
  rw [sortedScores, hscores, descending_map]
  rfl

theorem eligible_perm (h : nodes'.Perm nodes) : (K.eligible nodes').Perm (K.eligible nodes) :=
  h.filter _

theorem mem_inOrder : a ∈ K.inOrder nodes S ↔ a ∈ K.eligible nodes := mem_descending

theorem inOrder_of_perm (huntied : Untied K.scoreOf (K.eligible nodes)) (h : nodes'.Perm nodes) :
    K.inOrder nodes' S = K.inOrder nodes S := descending_of_perm huntied (eligible_perm h)

theorem inOrder_swap [DecidableEq ν] (ha : a ∈ K.eligible nodes) (hb : b ∈ K.eligible nodes)
    (htie : K.scoreOf a = K.scoreOf b) :
    K.inOrder (nodes.map (Equiv.swap a b)) S = (K.inOrder nodes S).map (Equiv.swap a b) := by
  have hvisit : ((fun mn => (K.visit mn).2) ∘ Equiv.swap a b) = fun mn => (K.visit mn).2 := by
    funext c
    rw [Function.comp_apply]
    by_cases hca : c = a
    · rw [hca, Equiv.swap_apply_left, (mem_filter.mp ha).2, (mem_filter.mp hb).2]
    · by_cases hcb : c = b
      · rw [hcb, Equiv.swap_apply_right, (mem_filter.mp ha).2, (mem_filter.mp hb).2]
      · rw [Equiv.swap_apply_of_ne_of_ne hca hcb]
  have heligible : K.eligible (nodes.map (Equiv.swap a b)) =
      (K.eligible nodes).map (Equiv.swap a b) := by
    rw [eligible, filter_map, hvisit]
    rfl
  rw [inOrder, heligible, descending_swap htie]
  rfl

end

/-! ## A vector -/

section
variable {K} {S : StdSort} (L : NodeVector K.vin) {a b : ν}

theorem vector_inj (ha : a ∈ L.nodes) (hb : b ∈ L.nodes)
    (h : (K.vin a).prevout = (K.vin b).prevout) : a = b :=
  inj_on_of_nodup_map L.once ha hb h

theorem vector_nodup : L.nodes.Nodup := L.once.of_map _

def swapped [DecidableEq ν] (ha : a ∈ L.nodes) (hb : b ∈ L.nodes) : NodeVector K.vin where
  nodes := L.nodes.map (Equiv.swap a b)
  once := ((map_swap_perm (vector_nodup L) ha hb).map _).nodup_iff.mpr L.once

theorem find_visited {mn : ν} (hmn : mn ∈ L.nodes) :
    K.find L.nodes (K.vin mn) = some (K.visit mn).1 := by
  have hsame : ((K.vin (K.visit mn).1).prevout == (K.vin mn).prevout) = true := by
    rw [K.visit_vin]
    exact beq_self_eq_true _
  rw [find, visited, List.find?_map]
  have hfirst : L.nodes.find? ((fun mn' => (K.vin mn').prevout == (K.vin mn).prevout) ∘
      fun mn' => (K.visit mn').1) = some mn := by
    have hsome : (L.nodes.find? ((fun mn' => (K.vin mn').prevout == (K.vin mn).prevout) ∘
        fun mn' => (K.visit mn').1)).isSome := by
      rw [List.find?_isSome]
      exact ⟨mn, hmn, hsame⟩
    obtain ⟨found, hfound⟩ := Option.isSome_iff_exists.mp hsome
    have htest := List.find?_some hfound
    have hprevout : (K.vin (K.visit found).1).prevout = (K.vin mn).prevout := beq_iff_eq.mp htest
    rw [K.visit_vin] at hprevout
    rw [hfound, vector_inj L (mem_of_find?_eq_some hfound) hmn hprevout]
  rw [hfirst]
  rfl

theorem byRank_eq (i : Nat) :
    (byRankLoop (i + 1) 0 (K.sortedScores S L.nodes)).bind (K.find L.nodes) =
      ((K.inOrder L.nodes S)[i]?).map fun mn => (K.visit mn).1 := by
  have hloop := byRankLoop_eq (K.sortedScores S L.nodes) 0 i
  rw [zero_add] at hloop
  rw [hloop, sortedScores_eq, List.getElem?_map]
  cases hmn : (K.inOrder L.nodes S)[i]? with
  | none => rfl
  | some mn =>
    have hmem : mn ∈ K.eligible L.nodes := mem_inOrder.mp (mem_of_getElem? hmn)
    exact find_visited L (mem_filter.mp hmem).1

theorem highest_of_first {rest : List ν} (ha : (K.visit a).2 = true) (hpos : 0 < K.scoreOf a)
    (hmax : ∀ c ∈ K.eligible (a :: rest), K.scoreOf c ≤ K.scoreOf a) :
    K.highest (a :: rest) = some (K.visit a).1 := by
  have heligible : K.eligible (a :: rest) = a :: K.eligible rest := filter_cons_of_pos ha
  rw [highest, scored_eq, heligible, map_cons, Highest.search]
  have hscore : K.score (K.vin (K.visit a).1).prevout = K.scoreOf a := scoreOf_visit a
  rw [if_pos (by rw [hscore]; exact hpos)]
  rcases Highest.search_found (fun mn => K.score (K.vin mn).prevout)
    ((K.eligible rest).map fun mn => (K.visit mn).1)
    (K.score (K.vin (K.visit a).1).prevout, some (K.visit a).1) with hstart | ⟨b, hb, hlt, -⟩
  · rw [hstart]
  · obtain ⟨c, hc, rfl⟩ := mem_map.mp hb
    have hle : K.scoreOf c ≤ K.scoreOf a := hmax c (heligible ▸ mem_cons_of_mem a hc)
    change K.score (K.vin (K.visit a).1).prevout < K.scoreOf (K.visit c).1 at hlt
    rw [scoreOf_visit, hscore] at hlt
    omega

theorem highest_spec (nodes : List ν) :
    (K.highest nodes = none ∧ ∀ c ∈ K.eligible nodes, K.scoreOf c ≤ 0) ∨
      ∃ a ∈ K.eligible nodes, K.highest nodes = some (K.visit a).1 ∧ 0 < K.scoreOf a ∧
        ∀ c ∈ K.eligible nodes, K.scoreOf c ≤ K.scoreOf a := by
  have hle : ∀ c ∈ K.eligible nodes, K.scoreOf c ≤
      (Highest.search (fun mn => K.score (K.vin mn).prevout) (K.scored nodes) (0, none)).1 := by
    intro c hc
    rw [← scoreOf_visit c]
    refine Highest.le_search (fun mn => K.score (K.vin mn).prevout) ?_ (0, none)
    rw [scored_eq]
    exact mem_map.mpr ⟨c, hc, rfl⟩
  rcases Highest.search_found (fun mn => K.score (K.vin mn).prevout) (K.scored nodes)
    ((0, none) : Int × Option ν) with hstart | ⟨b, hb, hlt, hfound⟩
  · left
    rw [hstart] at hle
    exact ⟨by rw [highest, hstart], hle⟩
  · right
    rw [scored_eq] at hb
    obtain ⟨a, ha, rfl⟩ := mem_map.mp hb
    have hscore : K.score (K.vin (K.visit a).1).prevout = K.scoreOf a := scoreOf_visit a
    rw [hfound] at hle
    simp only [hscore] at hle hlt
    exact ⟨a, ha, by rw [highest, hfound], hlt, hle⟩

variable [DecidableEq ν] (found : CTxIn → CTxIn → Bool)

section
variable (hself : ∀ txin, found txin txin = true)
  (hprevout : ∀ txin txin', found txin txin' = true → txin'.prevout = txin.prevout)
include hself hprevout

theorem rank_eq (ha : a ∈ K.eligible L.nodes) :
    rankLoop (found (K.vin a)) 0 (K.sortedScores S L.nodes) =
      (K.inOrder L.nodes S).idxOf a + 1 := by
  have honly : ∀ c ∈ K.inOrder L.nodes S, found (K.vin a) (K.vin c) = true → c = a := by
    intro c hc h
    exact vector_inj L (mem_filter.mp (mem_inOrder.mp hc)).1 (mem_filter.mp ha).1 (hprevout _ _ h)
  rw [sortedScores_eq, rankLoop_eq (hself _) honly (mem_inOrder.mpr ha), zero_add]

/-- **The ranks do not depend on the order exactly where the scores are untied.** -/
theorem ranks_free_iff :
    OrderFree (fun nodes txin => rankLoop (found txin) 0 (K.sortedScores S nodes)) L ↔
      Untied K.scoreOf (K.eligible L.nodes) := by
  constructor
  · intro hfree a ha b hb htie
    have hamem : a ∈ L.nodes := (mem_filter.mp ha).1
    have hbmem : b ∈ L.nodes := (mem_filter.mp hb).1
    have hperm : (swapped L hamem hbmem).nodes.Perm L.nodes :=
      map_swap_perm (vector_nodup L) hamem hbmem
    have hsame := congrFun (hfree (swapped L hamem hbmem) hperm) (K.vin a)
    change rankLoop _ 0 (K.sortedScores S (swapped L hamem hbmem).nodes) =
      rankLoop _ 0 (K.sortedScores S L.nodes) at hsame
    rw [rank_eq (swapped L hamem hbmem) found hself hprevout ((eligible_perm hperm).mem_iff.mpr ha),
      rank_eq L found hself hprevout ha] at hsame
    have horder : K.inOrder (swapped L hamem hbmem).nodes S =
        (K.inOrder L.nodes S).map (Equiv.swap a b) := inOrder_swap ha hb htie
    rw [horder, idxOf_map_swap] at hsame
    have hindex : (K.inOrder L.nodes S).idxOf b = (K.inOrder L.nodes S).idxOf a := by omega
    exact ((idxOf_inj (mem_inOrder.mpr hb)).mp hindex).symm
  · intro huntied L' hperm
    funext txin
    change rankLoop _ 0 (K.sortedScores S L'.nodes) = rankLoop _ 0 (K.sortedScores S L.nodes)
    rw [sortedScores_eq, sortedScores_eq, inOrder_of_perm huntied hperm]

theorem known_ranks_free_iff (blockHash : Option uint256) :
    OrderFree (fun nodes txin => if blockHash.isSome then
        rankLoop (found txin) 0 (K.sortedScores S nodes) else -1) L ↔
      blockHash = none ∨ Untied K.scoreOf (K.eligible L.nodes) := by
  cases blockHash with
  | none => exact ⟨fun _ => .inl rfl, fun _ L' _ => rfl⟩
  | some hash =>
    refine (ranks_free_iff L found hself hprevout).trans ?_
    exact ⟨fun h => .inr h, fun h => h.resolve_left (Option.some_ne_none hash)⟩

end

/-- **The node of a rank does not depend on the order exactly where the scores are untied.** -/
theorem byRank_free_iff :
    OrderFree (fun nodes nRank => (byRankLoop nRank 0 (K.sortedScores S nodes)).bind
      (K.find nodes)) L ↔ Untied K.scoreOf (K.eligible L.nodes) := by
  constructor
  · intro hfree a ha b hb htie
    have hamem : a ∈ L.nodes := (mem_filter.mp ha).1
    have hbmem : b ∈ L.nodes := (mem_filter.mp hb).1
    have hperm : (swapped L hamem hbmem).nodes.Perm L.nodes :=
      map_swap_perm (vector_nodup L) hamem hbmem
    have horder : K.inOrder (swapped L hamem hbmem).nodes S =
        (K.inOrder L.nodes S).map (Equiv.swap a b) := inOrder_swap ha hb htie
    obtain ⟨i, hi⟩ := List.getElem?_of_mem (mem_inOrder (S := S).mpr ha)
    have hsame := congrFun (hfree (swapped L hamem hbmem) hperm) ((i : Int) + 1)
    change (byRankLoop _ 0 (K.sortedScores S (swapped L hamem hbmem).nodes)).bind
      (K.find (swapped L hamem hbmem).nodes) =
        (byRankLoop _ 0 (K.sortedScores S L.nodes)).bind (K.find L.nodes) at hsame
    rw [byRank_eq, byRank_eq, horder, List.getElem?_map, hi] at hsame
    have hnode : (K.visit b).1 = (K.visit a).1 := by
      rw [← Equiv.swap_apply_left a b]
      exact Option.some.inj hsame
    have hvin : K.vin b = K.vin a := by rw [← K.visit_vin b, hnode, K.visit_vin]
    exact (vector_inj L hbmem hamem (congrArg CTxIn.prevout hvin)).symm
  · intro huntied L' hperm
    funext nRank
    change (byRankLoop nRank 0 (K.sortedScores S L'.nodes)).bind (K.find L'.nodes) =
      (byRankLoop nRank 0 (K.sortedScores S L.nodes)).bind (K.find L.nodes)
    rcases le_or_gt nRank 0 with hlow | hpos
    · rw [byRankLoop_of_le _ 0 hlow, byRankLoop_of_le _ 0 hlow]
      rfl
    · obtain ⟨i, rfl⟩ : ∃ i : Nat, nRank = i + 1 := ⟨(nRank - 1).toNat, by omega⟩
      rw [byRank_eq, byRank_eq, inOrder_of_perm huntied hperm]

/-- **The winner does not depend on the order exactly where one node has the highest score.** -/
theorem highest_free_iff :
    OrderFree K.highest L ↔ OneHighest K.scoreOf (K.eligible L.nodes) := by
  constructor
  · intro hfree a ha b hb htie hpos hmax
    obtain ⟨hamem, havisit⟩ := mem_filter.mp ha
    obtain ⟨hbmem, hbvisit⟩ := mem_filter.mp hb
    -- either of the two may stand first
    have hwins : ∀ c ∈ L.nodes, (K.visit c).2 = true → 0 < K.scoreOf c →
        (∀ d ∈ K.eligible L.nodes, K.scoreOf d ≤ K.scoreOf c) →
        K.highest L.nodes = some (K.visit c).1 := by
      intro c hc hvisit hcpos hcmax
      have hperm : (c :: L.nodes.erase c).Perm L.nodes := (perm_cons_erase hc).symm
      rw [← hfree ⟨c :: L.nodes.erase c, (hperm.map _).nodup_iff.mpr L.once⟩ hperm]
      refine highest_of_first hvisit hcpos ?_
      intro d hd
      exact hcmax d ((eligible_perm hperm).mem_iff.mp hd)
    have hawins := hwins a hamem havisit hpos hmax
    have hbwins := hwins b hbmem hbvisit (htie ▸ hpos) fun d hd => htie ▸ hmax d hd
    have hnode : (K.visit a).1 = (K.visit b).1 := Option.some.inj (hawins.symm.trans hbwins)
    have hvin : K.vin a = K.vin b := by rw [← K.visit_vin a, hnode, K.visit_vin]
    exact vector_inj L hamem hbmem (congrArg CTxIn.prevout hvin)
  · intro hone L' hperm
    have hmem : ∀ c, c ∈ K.eligible L'.nodes ↔ c ∈ K.eligible L.nodes :=
      fun c => (eligible_perm hperm).mem_iff
    rcases highest_spec (K := K) L.nodes with ⟨hnone, hlow⟩ | ⟨a, ha, hwins, hpos, hmax⟩
    · rcases highest_spec (K := K) L'.nodes with ⟨hnone', -⟩ | ⟨b, hb, -, hpos', -⟩
      · rw [hnone, hnone']
      · exact absurd (hlow b ((hmem b).mp hb)) (not_le.mpr hpos')
    · rcases highest_spec (K := K) L'.nodes with ⟨-, hlow'⟩ | ⟨b, hb, hwins', -, hmax'⟩
      · exact absurd (hlow' a ((hmem a).mpr ha)) (not_le.mpr hpos)
      · have htie : K.scoreOf a = K.scoreOf b :=
          le_antisymm (hmax' a ((hmem a).mpr ha)) (hmax b ((hmem b).mp hb))
        rw [hwins, hwins', hone a ha b ((hmem b).mp hb) htie hpos hmax]

end

end Scan

/-! ## The functions of the managers -/

section
variable (S : StdSort) (C : Crypto) (env : RankEnv) (menv : MasternodeEnv)
  (nBlockHeight minProtocol : Int) (fOnlyActive : Bool)

theorem GetProsperitynodeRank_eq (nodes : List CProsperitynode) (vin : CTxIn) :
    (GetProsperitynodeRank S C env nodes nBlockHeight minProtocol fOnlyActive vin).1 =
      if (env.blockHash nBlockHeight).isSome then
        rankLoop (fun txin => txin.prevout == vin.prevout) 0
          ((rankScan C env nBlockHeight minProtocol fOnlyActive).sortedScores S nodes)
      else -1 := by
  rw [GetProsperitynodeRank]
  cases env.blockHash nBlockHeight <;> rfl

theorem GetMasternodeRank_eq (nodes : List CMasternode) (vin : CTxIn) :
    (GetMasternodeRank S C menv nodes nBlockHeight minProtocol fOnlyActive vin).1 =
      if (menv.blockHash nBlockHeight).isSome then
        rankLoop (fun txin => txin == vin) 0
          ((masternodeScan C menv nBlockHeight minProtocol fOnlyActive).sortedScores S nodes)
      else -1 := by
  rw [GetMasternodeRank]
  cases menv.blockHash nBlockHeight <;> rfl

theorem prosperitynode_ranks_free_iff (L : NodeVector CProsperitynode.vin) :
    OrderFree (fun nodes vin =>
        (GetProsperitynodeRank S C env nodes nBlockHeight minProtocol fOnlyActive vin).1) L ↔
      env.blockHash nBlockHeight = none ∨
        Untied (fun mn => compactScore C (env.blockHash nBlockHeight) mn.vin.prevout)
          ((rankScan C env nBlockHeight minProtocol fOnlyActive).eligible L.nodes) := by
  simp only [GetProsperitynodeRank_eq]
  exact Scan.known_ranks_free_iff (K := rankScan C env nBlockHeight minProtocol fOnlyActive) L
    (fun vin txin => txin.prevout == vin.prevout) (fun txin => beq_self_eq_true txin.prevout)
    (fun _ _ h => beq_iff_eq.mp h) (env.blockHash nBlockHeight)

theorem masternode_ranks_free_iff (L : NodeVector CMasternode.vin) :
    OrderFree (fun nodes vin =>
        (GetMasternodeRank S C menv nodes nBlockHeight minProtocol fOnlyActive vin).1) L ↔
      menv.blockHash nBlockHeight = none ∨
        Untied (fun mn => lowScore C (menv.blockHash nBlockHeight) mn.vin.prevout)
          ((masternodeScan C menv nBlockHeight minProtocol fOnlyActive).eligible L.nodes) := by
  simp only [GetMasternodeRank_eq]
  exact Scan.known_ranks_free_iff (K := masternodeScan C menv nBlockHeight minProtocol fOnlyActive)
    L (fun vin txin => txin == vin) (fun txin => beq_self_eq_true txin)
    (fun _ _ h => congrArg CTxIn.prevout (beq_iff_eq.mp h)) (menv.blockHash nBlockHeight)

/-- **When ranks, ranked nodes and winners do not depend on the order of the lists**, for
both managers, whatever sorts the scores. -/
theorem order_free_iff (L : NodeVector CProsperitynode.vin) (M : NodeVector CMasternode.vin) :
    (OrderFree (fun nodes vin =>
          (GetProsperitynodeRank S C env nodes nBlockHeight minProtocol fOnlyActive vin).1) L ↔
        env.blockHash nBlockHeight = none ∨
          Untied (fun mn => compactScore C (env.blockHash nBlockHeight) mn.vin.prevout)
            ((rankScan C env nBlockHeight minProtocol fOnlyActive).eligible L.nodes)) ∧
      (OrderFree (fun nodes nRank =>
          (GetProsperitynodeByRank S C env nodes nBlockHeight minProtocol fOnlyActive nRank).1) L ↔
        Untied (fun mn => compactScore C (env.blockHash nBlockHeight) mn.vin.prevout)
          ((byRankScan C env nBlockHeight minProtocol fOnlyActive).eligible L.nodes)) ∧
      (OrderFree (fun nodes =>
          (GetCurrentFundamentalNode C env nodes nBlockHeight minProtocol).1) L ↔
        OneHighest (fun mn => compactScore C (env.blockHash nBlockHeight) mn.vin.prevout)
          ((currentScan C env nBlockHeight minProtocol).eligible L.nodes)) ∧
      (OrderFree (fun nodes vin =>
          (GetMasternodeRank S C menv nodes nBlockHeight minProtocol fOnlyActive vin).1) M ↔
        menv.blockHash nBlockHeight = none ∨
          Untied (fun mn => lowScore C (menv.blockHash nBlockHeight) mn.vin.prevout)
            ((masternodeScan C menv nBlockHeight minProtocol fOnlyActive).eligible M.nodes)) ∧
      (OrderFree (fun nodes nRank =>
          (GetMasternodeByRank S C menv nodes nBlockHeight minProtocol fOnlyActive nRank).1) M ↔
        Untied (fun mn => lowScore C (menv.blockHash nBlockHeight) mn.vin.prevout)
          ((masternodeScan C menv nBlockHeight minProtocol fOnlyActive).eligible M.nodes)) ∧
      (OrderFree (fun nodes =>
          (GetCurrentMasterNode C menv nodes nBlockHeight minProtocol).1) M ↔
        OneHighest (fun mn => lowScore C (menv.blockHash nBlockHeight) mn.vin.prevout)
          ((currentMasternodeScan C menv nBlockHeight minProtocol).eligible M.nodes)) := by
  refine ⟨prosperitynode_ranks_free_iff S C env nBlockHeight minProtocol fOnlyActive L, ?_, ?_,
    masternode_ranks_free_iff S C menv nBlockHeight minProtocol fOnlyActive M, ?_, ?_⟩
  · exact Scan.byRank_free_iff (K := byRankScan C env nBlockHeight minProtocol fOnlyActive) L
  · exact Scan.highest_free_iff (K := currentScan C env nBlockHeight minProtocol) L
  · exact Scan.byRank_free_iff (K := masternodeScan C menv nBlockHeight minProtocol fOnlyActive) M
  · exact Scan.highest_free_iff (K := currentMasternodeScan C menv nBlockHeight minProtocol) M

end

/-! ## Two nodes with one score -/

/-- A hash that tells long texts apart in its middle bytes only. -/
def middleBytesCrypto : Crypto where
  hash256 bs :=
    if bs.length ≤ 32 then 0
    else BitVec.ofNat 256 (2 ^ 100 + 2 ^ 40 * bs.foldl (fun n b => n + b.toNat) 0 + 5)
  hash160 _ := 0
  getPubKey _ := .ofBytes []
  signCompact _ _ := none
  recoverCompact _ _ := none

def tiedEnv : RankEnv where
  fLiteMode := false
  isBlockchainSynced := true
  shutdownRequested := false
  time := 1700000000
  adjustedTime := 1700000000
  minProto := PROTOCOL_VERSION
  getTransaction _ := none
  inputAge _ := 0
  blockHeight _ := none
  chainHeight := 1000
  chainTime _ := none
  lockMain := true
  fFundamentalNode := false
  activeVin := .SetNull
  activePubKey := .ofBytes []
  blockHash h := if h < 1000 then some 5 else none
  paymentEnforced := true

def tiedMasternodeEnv : MasternodeEnv where
  blockHash h := if h < 1000 then some 5 else none
  adjustedTime := 1700000000
  lockRecv := true
  lockMain := true
  acceptableInputs _ := true

/-- Listed for a long time and pinged a minute ago. -/
def tiedNode (n : Nat) : CProsperitynode where
  vin := ⟨⟨7, n⟩, [], 0xFFFFFFFF⟩
  addr := ⟨⟨CNetAddr.pchIPv4 ++ [1, 2, 3, 4], CNetAddr.length_IPv4⟩, 9999⟩
  pubKeyCollateralAddress := .ofBytes []
  pubKeyProsperitynode := .ofBytes []
  sig := []
  sigTime := 1690000000
  lastPing := ⟨⟨⟨7, n⟩, [], 0xFFFFFFFF⟩, 5, 1699999940, []⟩
  protocolVersion := PROTOCOL_VERSION
  activeState := .ENABLED
  lastTimeChecked := 0

def tiedMasternode (n : Nat) : CMasternode where
  vin := ⟨⟨7, n⟩, [], 0xFFFFFFFF⟩
  activeState := .ENABLED
  lastTimeSeen := 1699999940
  unitTest := false
  protocolVersion := PROTOCOL_VERSION
  nScanningErrorCount := 0

/-- **Two nodes of different scores and one number.**  Whichever the list has first is ranked
first and wins, though the other may be the one further away. -/
theorem tied_by_order :
    CalculateScore middleBytesCrypto (some 5) ⟨7, 0⟩ <
        CalculateScore middleBytesCrypto (some 5) ⟨7, 1⟩ ∧
      (let nodes := [tiedNode 0, tiedNode 1];
        (GetProsperitynodeRank insertion middleBytesCrypto tiedEnv nodes 900 PROTOCOL_VERSION true
            (tiedNode 0).vin).1 = 1 ∧
          (GetProsperitynodeByRank insertion middleBytesCrypto tiedEnv nodes 900 PROTOCOL_VERSION
            true 1).1 = some { tiedNode 0 with lastTimeChecked := 1700000000 } ∧
          (GetCurrentFundamentalNode middleBytesCrypto tiedEnv nodes 900 PROTOCOL_VERSION).1 =
            some { tiedNode 0 with lastTimeChecked := 1700000000 }) ∧
      (let nodes := [tiedNode 1, tiedNode 0];
        (GetProsperitynodeRank insertion middleBytesCrypto tiedEnv nodes 900 PROTOCOL_VERSION true
            (tiedNode 0).vin).1 = 2 ∧
          (GetProsperitynodeByRank insertion middleBytesCrypto tiedEnv nodes 900 PROTOCOL_VERSION
            true 1).1 = some { tiedNode 1 with lastTimeChecked := 1700000000 } ∧
          (GetCurrentFundamentalNode middleBytesCrypto tiedEnv nodes 900 PROTOCOL_VERSION).1 =
            some { tiedNode 1 with lastTimeChecked := 1700000000 }) ∧
      (let nodes := [tiedMasternode 0, tiedMasternode 1];
        (GetMasternodeRank insertion middleBytesCrypto tiedMasternodeEnv nodes 900 PROTOCOL_VERSION
            true (tiedMasternode 0).vin).1 = 1 ∧
          (GetCurrentMasterNode middleBytesCrypto tiedMasternodeEnv nodes 900
            PROTOCOL_VERSION).1 = some (tiedMasternode 0)) ∧
      (let nodes := [tiedMasternode 1, tiedMasternode 0];
        (GetMasternodeRank insertion middleBytesCrypto tiedMasternodeEnv nodes 900 PROTOCOL_VERSION
            true (tiedMasternode 0).vin).1 = 2 ∧
          (GetCurrentMasterNode middleBytesCrypto tiedMasternodeEnv nodes 900
            PROTOCOL_VERSION).1 = some (tiedMasternode 1)) := by
  decide +kernel

end Divitae.Ranking
