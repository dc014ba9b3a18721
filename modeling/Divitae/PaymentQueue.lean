/-
# `PaymentQueue` — the next node to be paid

`GetNextProsperitynodeInQueueForPayment` filters the list, sorts what is left by the time since
the last payment, and of the first tenth returns the node of the highest score:

    the pool       enabled, of the payments' version, not scheduled, not too new, and with an
                   input as old as there are nodes
    too few        less than a third of the enabled nodes: once more, without "too new"
    the window     the first tenth of the nodes in the pool, and at least one
    the scores     of the block a hundred before the height; 0 if it is not known

A score of 0 beats nobody, so without the block nobody is returned (`next_in_queue`).
-/
import Divitae.BlockPayee
import Divitae.RankOrder

namespace Divitae.Ranking

open ScoreSort List

structure QueueEnv extends RankEnv where
  payments : CProsperitynodePayments -- `prosperitynodePayments`
  tipHeight : Option Int -- `chainActive.Tip()`
  chain : List (Int × Int) -- the heights and times of its blocks, from the tip on
  inputAgeCache : COutPoint → Int × Int -- `cacheInputAge` and `cacheInputAgeBlock`

/-- A whole number of some power of two, as a double holds it: 53 bits, ties to even. -/
def roundDouble (m : Int) : Int :=
  let unit := 2 ^ (m.natAbs.log2 + 1 - 53)
  let q := m.natAbs / unit
  let r := m.natAbs % unit
  let q := if 2 * r > unit ∨ (2 * r = unit ∧ q % 2 = 1) then q + 1 else q
  m.sign * (q * unit : Nat)

/-- `2.6` is this number of 2 ^ -51. -/
def twoPointSix : Int := 5854679515581645

/-- `sigTime + (nMnCount * 2.6 * 60) > now`, in doubles, in units of 2 ^ -51. -/
def tooNew (sigTime nMnCount now : Int) : Bool :=
  let cycle := roundDouble (roundDouble (nMnCount * twoPointSix) * 60)
  roundDouble (roundDouble (sigTime * 2 ^ 51) + cycle) > roundDouble (now * 2 ^ 51)

/-! ## What is asked of a node -/

section
variable (C : Crypto) (env : QueueEnv) (s : CProsperitynodeMan) (mn : CProsperitynode)

/-- `CountEnabled()`. -/
def nMnCount : Int := s.CountEnabled env.toNodeEnv env.minProto

def mnpayee : CScript := GetScriptForDestination (C.GetID mn.pubKeyCollateralAddress)

/-- The payee of one of the next blocks, but for the one at `nNotBlockHeight`. -/
def IsScheduled (nNotBlockHeight : Int) : Bool :=
  if !env.lockMain then false
  else
    match env.tipHeight with
    | none => false
    | some nHeight =>
      (List.range 9).any fun i =>
        nHeight + i != nNotBlockHeight &&
          (env.payments.mapProsperitynodeBlocks (nHeight + i)).any fun b =>
            b.GetPayee == some (mnpayee C mn)

def GetProsperitynodeInputAge : Int :=
  match env.tipHeight with
  | none => 0
  | some nHeight =>
    let (cacheInputAge, cacheInputAgeBlock) :=
      if (env.inputAgeCache mn.vin.prevout).1 = 0 then (env.inputAge mn.vin, nHeight)
      else env.inputAgeCache mn.vin.prevout
    cacheInputAge + (nHeight - cacheInputAgeBlock)

/-- A number that tells the nodes apart. -/
def nodeNumber : Int := (GetCompact (C.hash256 (mn.vin.ser ++ leInt 8 mn.sigTime))).toNat

/-- The loop of `GetLastPaid` over the chain. -/
def lastPaidLoop (nMnCount nOffset : Int) : Int → List (Int × Int) → Int
  | _, [] => 0
  | n, (nHeight, nTime) :: rest =>
    if nHeight ≤ 0 then 0
    else if n ≥ nMnCount then 0
    else if (env.payments.mapProsperitynodeBlocks nHeight).any
        (·.HasPayeeWithVotes (mnpayee C mn) 2) then nTime + nOffset
    else lastPaidLoop nMnCount nOffset (n + 1) rest

def GetLastPaid : Int :=
  lastPaidLoop C env mn (5 * nMnCount env s / 4) (nodeNumber C mn % 150) 0 env.chain

/-- Less than thirty days are in seconds, more are told apart by the node. -/
def SecondsSincePayment : Int :=
  let sec := env.adjustedTime - GetLastPaid C env s mn
  let month := 60 * 60 * 24 * 30
  if sec < month then sec else month + nodeNumber C mn

/-! ## The queue -/

variable (S : StdSort) (nBlockHeight : Int) (fFilterSigTime : Bool)

/-- What a node must be to be paid. -/
structure MayBePaid : Prop where
  enabled : mn.IsEnabled = true
  protocol : env.minProto ≤ mn.protocolVersion
  unscheduled : IsScheduled C env mn nBlockHeight = false
  notNew : fFilterSigTime = true → tooNew mn.sigTime (nMnCount env s) env.adjustedTime = false
  inputAge : nMnCount env s ≤ GetProsperitynodeInputAge env mn

/-- The loop that fills the vector. -/
def queueScan : Scan CProsperitynode where
  vin := CProsperitynode.vin
  score o := (CalculateScore C (env.blockHash (nBlockHeight - 100)) o).toNat
  visit mn :=
    let mn := mn.Check env.toNodeEnv false
    (mn,
      if !mn.IsEnabled then false
      else if mn.protocolVersion < env.minProto then false
      else if IsScheduled C env mn nBlockHeight then false
      else if fFilterSigTime && tooNew mn.sigTime (nMnCount env s) env.adjustedTime then false
      else if GetProsperitynodeInputAge env mn < nMnCount env s then false
      else true)
  visit_vin mn := Check_vin env.toNodeEnv mn false

def pool : List CProsperitynode :=
  (queueScan C env s nBlockHeight fFilterSigTime).scored s.vProsperitynodes

/-- `vecProsperitynodeLastPaid`, sorted high to low. -/
def vecProsperitynodeLastPaid : List (Int × CTxIn) :=
  descending S Prod.fst
    ((pool C env s nBlockHeight fFilterSigTime).map fun mn =>
      (SecondsSincePayment C env s mn, mn.vin))

/-- The loop over the tenth of the network that was not paid for longest. -/
def tenthLoop (find : CTxIn → Option CProsperitynode) (score : CProsperitynode → Int)
    (nTenthNetwork : Int) :
    Int → Int × Option CProsperitynode → List (Int × CTxIn) → Option CProsperitynode
  | _, best, [] => best.2
  | nCountTenth, best, entry :: rest =>
    match find entry.2 with
    | none => best.2
    | some pmn =>
      let best := if best.1 < score pmn then (score pmn, some pmn) else best
      if nCountTenth + 1 ≥ nTenthNetwork then best.2
      else tenthLoop find score nTenthNetwork (nCountTenth + 1) best rest

/-- The node, and how many were in the vector. -/
def GetNextProsperitynodeInQueueForPayment (fFilterSigTime : Bool) :
    Option CProsperitynode × Nat :=
  let K := queueScan C env s nBlockHeight fFilterSigTime
  let vec := vecProsperitynodeLastPaid C env s S nBlockHeight fFilterSigTime
  if fFilterSigTime ∧ (vec.length : Int) < (nMnCount env s).tdiv 3 then
    GetNextProsperitynodeInQueueForPayment false
  else
    (tenthLoop (K.find s.vProsperitynodes) (fun pmn => K.score pmn.vin.prevout)
      ((nMnCount env s).tdiv 10) 0 (0, none) vec, vec.length)
termination_by fFilterSigTime.toNat
decreasing_by simp_all

end

/-! ## The window -/

section
variable (S : StdSort) (C : Crypto) (env : QueueEnv) (s : CProsperitynodeMan) (nBlockHeight : Int)
  (fFilterSigTime : Bool)

/-- How many nodes are looked at. -/
def windowSize : Nat := (max 1 ((nMnCount env s).tdiv 10)).toNat

/-- The nodes of the pool that were not paid for longest. -/
def window : List CProsperitynode :=
  (descending S (SecondsSincePayment C env s) (pool C env s nBlockHeight fFilterSigTime)).take
    (windowSize env s)

def scoreAt (mn : CProsperitynode) : Int :=
  (CalculateScore C (env.blockHash (nBlockHeight - 100)) mn.vin.prevout).toNat

/-- Whether "too new" counts: not if it leaves less than a third of the enabled nodes. -/
def filterUsed : Bool :=
  fFilterSigTime &&
    !decide (((pool C env s nBlockHeight true).length : Int) < (nMnCount env s).tdiv 3)

variable {S C env s nBlockHeight fFilterSigTime} {mn : CProsperitynode}

theorem mem_pool (h : mn ∈ pool C env s nBlockHeight fFilterSigTime) :
    MayBePaid C env s mn nBlockHeight fFilterSigTime ∧
      ∃ v ∈ s.vProsperitynodes, mn = v.Check env.toNodeEnv false := by
  obtain ⟨visited, hvisited, rfl⟩ := mem_map.mp h
  obtain ⟨hin, hpass⟩ := mem_filter.mp hvisited
  obtain ⟨v, hv, rfl⟩ := mem_map.mp hin
  refine ⟨?_, v, hv, rfl⟩
  show MayBePaid C env s (v.Check env.toNodeEnv false) nBlockHeight fFilterSigTime
  change (if _ then false else if _ then false else if _ then false else if _ then false
    else if _ then false else true) = true at hpass
  split_ifs at hpass with henabled hprotocol hscheduled hnew hage
  refine ⟨by simpa using henabled, not_lt.mp hprotocol, by simpa using hscheduled, ?_,
    not_lt.mp hage⟩
  intro hfilter
  simpa [hfilter] using hnew

theorem find_pool (honce : (s.vProsperitynodes.map fun mn => mn.vin.prevout).Nodup)
    (h : mn ∈ pool C env s nBlockHeight fFilterSigTime) :
    (queueScan C env s nBlockHeight fFilterSigTime).find s.vProsperitynodes mn.vin = some mn := by
  obtain ⟨-, v, hv, rfl⟩ := mem_pool h
  let K := queueScan C env s nBlockHeight fFilterSigTime
  let L : NodeVector K.vin := ⟨s.vProsperitynodes, honce⟩
  have hfound : K.find L.nodes (K.vin v) = some (K.visit v).1 := Scan.find_visited L hv
  rw [Check_vin]
  exact hfound

theorem vecProsperitynodeLastPaid_eq :
    vecProsperitynodeLastPaid C env s S nBlockHeight fFilterSigTime =
      (descending S (SecondsSincePayment C env s) (pool C env s nBlockHeight fFilterSigTime)).map
        fun mn => (SecondsSincePayment C env s mn, mn.vin) := by
  rw [vecProsperitynodeLastPaid, descending_map]
  rfl

theorem tenthLoop_eq {find : CTxIn → Option CProsperitynode} {score : CProsperitynode → Int}
    {sec : CProsperitynode → Int} (nTenthNetwork : Int) (l : List CProsperitynode)
    (hfind : ∀ mn ∈ l, find mn.vin = some mn) (nCountTenth : Int)
    (best : Int × Option CProsperitynode) :
    tenthLoop find score nTenthNetwork nCountTenth best (l.map fun mn => (sec mn, mn.vin)) =
      (Highest.search score (l.take (max 1 (nTenthNetwork - nCountTenth)).toNat) best).2 := by
  induction l generalizing nCountTenth best with
  | nil => simp [tenthLoop, Highest.search]
  | cons mn l ih =>
    have hrest : ∀ mn ∈ l, find mn.vin = some mn := fun mn' hmn' =>
      hfind mn' (mem_cons_of_mem mn hmn')
    rw [map_cons, tenthLoop, hfind mn mem_cons_self]
    dsimp only
    by_cases hlast : nCountTenth + 1 ≥ nTenthNetwork
    · have hone : (max 1 (nTenthNetwork - nCountTenth)).toNat = 1 := by omega
      rw [if_pos hlast, hone]
      rfl
    · have hsucc : (max 1 (nTenthNetwork - nCountTenth)).toNat =
          (max 1 (nTenthNetwork - (nCountTenth + 1))).toNat + 1 := by omega
      rw [if_neg hlast, ih hrest, hsucc, take_succ_cons]
      rfl

theorem GetNextProsperitynodeInQueueForPayment_eq
    (honce : (s.vProsperitynodes.map fun mn => mn.vin.prevout).Nodup) :
    GetNextProsperitynodeInQueueForPayment C env s S nBlockHeight fFilterSigTime =
      let filter := filterUsed C env s nBlockHeight fFilterSigTime
      ((Highest.search (scoreAt C env nBlockHeight) (window S C env s nBlockHeight filter)
        (0, none)).2, (pool C env s nBlockHeight filter).length) := by
  have hlength : ∀ filter, (vecProsperitynodeLastPaid C env s S nBlockHeight filter).length =
      (pool C env s nBlockHeight filter).length := by
    intro filter
    rw [vecProsperitynodeLastPaid_eq, length_map, descending_perm.length_eq]
  -- what a call does that does not fall back
  have hloop : ∀ filter, tenthLoop
      ((queueScan C env s nBlockHeight filter).find s.vProsperitynodes)
      (fun pmn => (queueScan C env s nBlockHeight filter).score pmn.vin.prevout)
      ((nMnCount env s).tdiv 10) 0 (0, none)
      (vecProsperitynodeLastPaid C env s S nBlockHeight filter) =
        (Highest.search (scoreAt C env nBlockHeight) (window S C env s nBlockHeight filter)
          (0, none)).2 := by
    intro filter
    rw [vecProsperitynodeLastPaid_eq, tenthLoop_eq, Int.sub_zero]
    · rfl
    · intro mn hmn
      exact find_pool honce (mem_descending.mp hmn)
  cases fFilterSigTime with
  | false =>
    rw [GetNextProsperitynodeInQueueForPayment, if_neg (by simp), hloop, hlength]
    rfl
  | true =>
    rw [GetNextProsperitynodeInQueueForPayment]
    rw [hlength]
    by_cases hfew : ((pool C env s nBlockHeight true).length : Int) < (nMnCount env s).tdiv 3
    · have hused : filterUsed C env s nBlockHeight true = false := by simp [filterUsed, hfew]
      rw [if_pos ⟨rfl, hfew⟩, hused, GetNextProsperitynodeInQueueForPayment, if_neg (by simp),
        hloop, hlength]
    · have hused : filterUsed C env s nBlockHeight true = true := by
        simp only [filterUsed, decide_eq_false hfew]
        rfl
      rw [if_neg (fun h => hfew h.2), hused, hloop]

theorem unpaid_longer_lt
    (h : mn ∈ window S C env s nBlockHeight fFilterSigTime) :
    ((pool C env s nBlockHeight fFilterSigTime).filter fun other =>
      SecondsSincePayment C env s mn < SecondsSincePayment C env s other).length <
        windowSize env s := by
  obtain ⟨front, back, hsplit⟩ := append_of_mem h
  have hparts := take_append_drop (windowSize env s)
    (descending S (SecondsSincePayment C env s) (pool C env s nBlockHeight fFilterSigTime))
  change window S C env s nBlockHeight fFilterSigTime ++ _ = _ at hparts
  rw [hsplit, append_assoc] at hparts
  have hsorted : (descending S (SecondsSincePayment C env s)
      (pool C env s nBlockHeight fFilterSigTime)).Pairwise fun a b =>
        SecondsSincePayment C env s b ≤ SecondsSincePayment C env s a := descending_sorted
  have hperm : (descending S (SecondsSincePayment C env s)
      (pool C env s nBlockHeight fFilterSigTime)).Perm
        (pool C env s nBlockHeight fFilterSigTime) := descending_perm
  rw [← hparts] at hsorted
  -- those behind were paid later
  have hbehind := (pairwise_append.mp hsorted).2.1
  have hrest := (pairwise_cons.mp hbehind).1
  have hcount : ((pool C env s nBlockHeight fFilterSigTime).filter fun other =>
      SecondsSincePayment C env s mn < SecondsSincePayment C env s other).length =
        (front.filter fun other =>
          SecondsSincePayment C env s mn < SecondsSincePayment C env s other).length := by
    rw [← (hperm.filter _).length_eq, ← hparts, filter_append, length_append]
    have hnone : ((mn :: back) ++ List.drop (windowSize env s) (descending S
        (SecondsSincePayment C env s) (pool C env s nBlockHeight fFilterSigTime))).filter
          (fun other => SecondsSincePayment C env s mn < SecondsSincePayment C env s other) =
        [] := by
      rw [filter_eq_nil_iff]
      intro other hother
      rcases mem_cons.mp hother with rfl | hlater
      · simp
      · simpa using hrest other hlater
    rw [hnone]
    rfl
  have hfront : (front.filter fun other =>
      SecondsSincePayment C env s mn < SecondsSincePayment C env s other).length ≤
        front.length := length_filter_le ..
  have hwindow : (window S C env s nBlockHeight fFilterSigTime).length ≤ windowSize env s :=
    length_take_le _ _
  rw [hsplit, length_append, length_cons] at hwindow
  omega

end

/-- **The next node to be paid.**  It passed every test, too new apart where that left too few;
less nodes than the window holds were unpaid for longer; and none in the window scores higher.
There is none exactly when nobody in the window has a score. -/
theorem next_in_queue (S : StdSort) (C : Crypto) (env : QueueEnv) (s : CProsperitynodeMan)
    (nBlockHeight : Int) (fFilterSigTime : Bool)
    (honce : (s.vProsperitynodes.map fun mn => mn.vin.prevout).Nodup) :
    let filter := filterUsed C env s nBlockHeight fFilterSigTime
    let result := GetNextProsperitynodeInQueueForPayment C env s S nBlockHeight fFilterSigTime
    result.2 = (pool C env s nBlockHeight filter).length ∧
      (window S C env s nBlockHeight filter).length =
        min (windowSize env s) (pool C env s nBlockHeight filter).length ∧
      (∀ mn, result.1 = some mn →
        MayBePaid C env s mn nBlockHeight filter ∧
          (∃ v ∈ s.vProsperitynodes, mn = v.Check env.toNodeEnv false) ∧
          ((pool C env s nBlockHeight filter).filter fun other =>
            SecondsSincePayment C env s mn < SecondsSincePayment C env s other).length <
              windowSize env s ∧
          ∀ other ∈ window S C env s nBlockHeight filter,
            scoreAt C env nBlockHeight other ≤ scoreAt C env nBlockHeight mn) ∧
      (result.1 = none ↔
        ∀ mn ∈ window S C env s nBlockHeight filter, scoreAt C env nBlockHeight mn = 0) := by
  intro filter result
  have hresult : result = ((Highest.search (scoreAt C env nBlockHeight)
      (window S C env s nBlockHeight filter) (0, none)).2,
        (pool C env s nBlockHeight filter).length) :=
    GetNextProsperitynodeInQueueForPayment_eq honce
  rw [hresult]
  have hhighest : ∀ other ∈ window S C env s nBlockHeight filter,
      scoreAt C env nBlockHeight other ≤ (Highest.search (scoreAt C env nBlockHeight)
        (window S C env s nBlockHeight filter) (0, none)).1 := fun other hother =>
    Highest.le_search _ hother _
  have hfound := Highest.search_found (scoreAt C env nBlockHeight)
    (window S C env s nBlockHeight filter) (0, none)
  generalize Highest.search (scoreAt C env nBlockHeight)
    (window S C env s nBlockHeight filter) (0, none) = best at hhighest hfound ⊢
  have hscore : ∀ mn, 0 ≤ scoreAt C env nBlockHeight mn := fun mn => Int.natCast_nonneg _
  have hlength : (window S C env s nBlockHeight filter).length =
      min (windowSize env s) (pool C env s nBlockHeight filter).length := by
    rw [window, length_take, descending_perm.length_eq]
  rcases hfound with rfl | ⟨a, ha, hpos, rfl⟩
  · refine ⟨rfl, hlength, nofun, iff_of_true rfl fun mn hmn => ?_⟩
    exact le_antisymm (hhighest mn hmn) (hscore mn)
  · refine ⟨rfl, hlength, ?_, iff_of_false nofun fun hall => ?_⟩
    · intro mn hmn
      obtain rfl : a = mn := Option.some.inj hmn
      obtain ⟨hmay, hlisted⟩ := mem_pool (mem_descending.mp (mem_of_mem_take ha))
      exact ⟨hmay, hlisted, unpaid_longer_lt ha, hhighest⟩
    · exact absurd (hall a ha) (Int.ne_of_gt hpos)

def queueEnv : QueueEnv :=
  { tiedEnv with
    payments := ⟨0, [], fun _ => none, fun _ => none⟩
    tipHeight := some 1000
    chain := []
    inputAgeCache := fun _ => (100, 1000) }

def queueList : CProsperitynodeMan := ⟨[tiedNode 0], fun _ => none, fun _ => none⟩

/-- It is found, if the block a hundred before the height is known. -/
theorem one_node_in_queue :
    (GetNextProsperitynodeInQueueForPayment middleBytesCrypto queueEnv queueList insertion 1000
      true).1 ≠ none := by
  intro hnone
  have hzero := (next_in_queue insertion middleBytesCrypto queueEnv queueList 1000 true
    (by decide)).2.2.2.mp hnone
  revert hzero
  decide +kernel

/-- **The block is not known.**  A node may be paid, and nobody is returned. -/
theorem unknown_block_pays_nobody :
    (pool middleBytesCrypto queueEnv queueList 1200 true).length = 1 ∧
      (nMnCount queueEnv queueList).tdiv 3 ≤ 1 ∧
      (GetNextProsperitynodeInQueueForPayment middleBytesCrypto queueEnv queueList insertion 1200
        true).1 = none := by
  refine ⟨by decide +kernel, by decide +kernel, ?_⟩
  decide +kernel

end Divitae.Ranking
