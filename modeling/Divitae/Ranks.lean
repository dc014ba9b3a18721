/-
# `Ranks` — the ranks of the nodes of a list

Both list managers score their nodes against a block hash, sort the scores and read ranks
off the outcome.  A score is a number of 256 bits; what is compared is made of a few of them:

    prosperitynodes   `GetCompact`, the length and the three leading bytes
    masternodes       the four lowest bytes

The sort is by these numbers and nothing else, so that of two nodes with one number either
may come first, as the list has it.
-/
import Divitae.Lib.Highest
import Divitae.Lib.ScoreSort
import Divitae.Prosperitynode

namespace Divitae.Ranking

open ScoreSort

def MN_WINNER_MINIMUM_AGE : Int := 8000 -- in seconds

/-- `uint256::GetCompact(false)`. -/
def GetCompact (n : uint256) : BitVec 32 :=
  let bits := if n = 0 then 0 else n.toNat.log2 + 1
  let nSize := (bits + 7) / 8
  let nCompact : BitVec 32 :=
    if nSize ≤ 3 then ((n.setWidth 64) <<< (8 * (3 - nSize))).setWidth 32
    else (n >>> (8 * (nSize - 3))).setWidth 32
  -- the bit of the sign is kept free
  if nCompact &&& 0x00800000 ≠ 0 then (nCompact >>> 8) ||| BitVec.ofNat 32 ((nSize + 1) <<< 24)
  else nCompact ||| BitVec.ofNat 32 (nSize <<< 24)

/-- The text of `CalculateScore` of either kind of node.  The further away from the hash of
the block the better. -/
def CalculateScore (C : Crypto) (blockHash : Option uint256) (prevout : COutPoint) : uint256 :=
  match blockHash with
  | none => 0
  | some hash =>
    let aux := prevout.hash + BitVec.ofNat 256 prevout.n
    let hash2 := C.hash256 (serUint256 hash)
    let hash3 := C.hash256 (serUint256 hash ++ serUint256 aux)
    if hash3 > hash2 then hash3 - hash2 else hash2 - hash3

/-- What prosperitynodes are compared by. -/
def compactScore (C : Crypto) (blockHash : Option uint256) (prevout : COutPoint) : Int :=
  (GetCompact (CalculateScore C blockHash prevout)).toNat

/-- What masternodes are compared by: `memcpy` to an `unsigned int`. -/
def lowScore (C : Crypto) (blockHash : Option uint256) (prevout : COutPoint) : Int :=
  ((CalculateScore C blockHash prevout).setWidth 32).toNat

/-! ## The loops -/

/-- A loop over the nodes: what it makes of a node, and whether the node is scored. -/
structure Scan (ν : Type) where
  vin : ν → CTxIn
  score : COutPoint → Int
  visit : ν → ν × Bool
  visit_vin : ∀ mn, vin (visit mn).1 = vin mn

namespace Scan

variable {ν : Type} (K : Scan ν) (S : StdSort) (nodes : List ν)

def visited : List ν := nodes.map fun mn => (K.visit mn).1

def scored : List ν := ((nodes.map K.visit).filter (·.2)).map (·.1)

def sortedScores : List (Int × CTxIn) :=
  descending S Prod.fst ((K.scored nodes).map fun mn => (K.score (K.vin mn).prevout, K.vin mn))

/-- `Find`. -/
def find (vin : CTxIn) : Option ν :=
  (K.visited nodes).find? fun mn => (K.vin mn).prevout == vin.prevout

/-- The loop that looks for the highest score. -/
def highest : Option ν :=
  (Highest.search (fun mn => K.score (K.vin mn).prevout) (K.scored nodes) (0, none)).2

end Scan

def rankLoop (found : CTxIn → Bool) : Int → List (Int × CTxIn) → Int
  | _, [] => -1
  | rank, s :: rest => if found s.2 then rank + 1 else rankLoop found (rank + 1) rest

def byRankLoop (nRank : Int) : Int → List (Int × CTxIn) → Option CTxIn
  | _, [] => none
  | rank, s :: rest => if rank + 1 = nRank then some s.2 else byRankLoop nRank (rank + 1) rest

/-! ## Prosperitynodes -/

structure RankEnv extends NodeEnv where
  blockHash : Int → Option uint256 -- `GetBlockHash`
  paymentEnforced : Bool -- `SPORK_8_PROSPERITYNODE_PAYMENT_ENFORCEMENT`

section
variable (env : NodeEnv) (mn : CProsperitynode)
include env mn

theorem Check_vin (forceCheck : Bool) :
    (mn.Check env forceCheck).vin = mn.vin := by
  rw [CProsperitynode.Check]
  dsimp only
  split_ifs <;> rfl

theorem Check_protocolVersion (forceCheck : Bool) :
    (mn.Check env forceCheck).protocolVersion = mn.protocolVersion := by
  rw [CProsperitynode.Check]
  dsimp only
  split_ifs <;> rfl

theorem Check_Check :
    (mn.Check env false).Check env false = mn.Check env false := by
  have hsecond : ∀ mn' : CProsperitynode, mn'.lastTimeChecked = env.time →
      mn'.Check env false = mn' := by
    intro mn' htime
    have hrecent : env.time - mn'.lastTimeChecked < PROSPERITYNODE_CHECK_SECONDS := by
      rw [htime, sub_self]
      decide
    unfold CProsperitynode.Check
    split_ifs with hshutdown hskip
    · rfl
    · rfl
    all_goals exact absurd (by simp [hrecent]) hskip
  by_cases hshutdown : env.shutdownRequested = true
  · have hstays : ∀ mn' : CProsperitynode, mn'.Check env false = mn' := fun _ => if_pos hshutdown
    rw [hstays, hstays]
  by_cases hskip : (!false && env.time - mn.lastTimeChecked < PROSPERITYNODE_CHECK_SECONDS) = true
  · have hstays : mn.Check env false = mn := (if_neg hshutdown).trans (if_pos hskip)
    rw [hstays, hstays]
  · refine hsecond _ ?_
    unfold CProsperitynode.Check
    rw [if_neg hshutdown, if_neg hskip]
    dsimp only
    split_ifs <;> rfl

end

section
variable (S : StdSort) (C : Crypto) (env : RankEnv) (nodes : List CProsperitynode)
  (nBlockHeight minProtocol : Int) (fOnlyActive : Bool)

/-- The loop of `GetProsperitynodeRank`. -/
def rankScan : Scan CProsperitynode where
  vin := CProsperitynode.vin
  score := compactScore C (env.blockHash nBlockHeight)
  visit mn :=
    if mn.protocolVersion < minProtocol then (mn, false)
    else if env.paymentEnforced && env.adjustedTime - mn.sigTime < MN_WINNER_MINIMUM_AGE then
      (mn, false) -- just activated
    else if fOnlyActive then
      let mn := mn.Check env.toNodeEnv false
      (mn, mn.IsEnabled)
    else (mn, true)
  visit_vin mn := by
    split_ifs
    · rfl
    · rfl
    · exact Check_vin env.toNodeEnv mn false
    · rfl

/-- The loop of `GetProsperitynodeByRank`, which does not look at the age. -/
def byRankScan : Scan CProsperitynode where
  vin := CProsperitynode.vin
  score := compactScore C (env.blockHash nBlockHeight)
  visit mn :=
    if mn.protocolVersion < minProtocol then (mn, false)
    else if fOnlyActive then
      let mn := mn.Check env.toNodeEnv false
      (mn, mn.IsEnabled)
    else (mn, true)
  visit_vin mn := by
    split_ifs
    · rfl
    · exact Check_vin env.toNodeEnv mn false
    · rfl

/-- The loop of `GetCurrentFundamentalNode`. -/
def currentScan : Scan CProsperitynode where
  vin := CProsperitynode.vin
  score := compactScore C (env.blockHash nBlockHeight)
  visit mn :=
    let mn := mn.Check env.toNodeEnv false
    (mn, !(mn.protocolVersion < minProtocol || !mn.IsEnabled))
  visit_vin mn := Check_vin env.toNodeEnv mn false

/-- The rank, and the nodes as they are left. -/
def GetProsperitynodeRank (vin : CTxIn) : Int × List CProsperitynode :=
  match env.blockHash nBlockHeight with
  | none => (-1, nodes)
  | some _ =>
    let K := rankScan C env nBlockHeight minProtocol fOnlyActive
    (rankLoop (fun txin => txin.prevout == vin.prevout) 0 (K.sortedScores S nodes), K.visited nodes)

def GetProsperitynodeByRank (nRank : Int) : Option CProsperitynode × List CProsperitynode :=
  let K := byRankScan C env nBlockHeight minProtocol fOnlyActive
  ((byRankLoop nRank 0 (K.sortedScores S nodes)).bind (K.find nodes), K.visited nodes)

def GetCurrentFundamentalNode : Option CProsperitynode × List CProsperitynode :=
  let K := currentScan C env nBlockHeight minProtocol
  (K.highest nodes, K.visited nodes)

end

/-! ## Masternodes -/

def MASTERNODE_EXPIRATION_SECONDS : Int := 65 * 60
def MASTERNODE_REMOVAL_SECONDS : Int := 70 * 60
def MASTERNODE_SCANNING_ERROR_THESHOLD : Int := 6

inductive MasternodeState where
  | ENABLED
  | EXPIRED
  | VIN_SPENT
  | REMOVE
  | POS_ERROR
  deriving DecidableEq

structure CMasternode where
  vin : CTxIn
  activeState : MasternodeState
  lastTimeSeen : Int
  unitTest : Bool
  protocolVersion : Int
  nScanningErrorCount : Int
  deriving DecidableEq

structure MasternodeEnv where
  blockHash : Int → Option uint256 -- `GetBlockHashMN`
  adjustedTime : Int
  lockRecv : Bool
  lockMain : Bool
  acceptableInputs : CTxIn → Bool -- `AcceptableInputs` of a transaction that spends it

namespace CMasternode

variable (env : MasternodeEnv) (mn : CMasternode)

def IsEnabled : Bool := mn.activeState == .ENABLED

def UpdatedWithin (seconds : Int) : Bool := env.adjustedTime - mn.lastTimeSeen < seconds

def Check : CMasternode :=
  if !env.lockRecv then mn
  else if mn.nScanningErrorCount ≥ MASTERNODE_SCANNING_ERROR_THESHOLD then
    { mn with activeState := .POS_ERROR }
  -- once spent, stop doing the checks
  else if mn.activeState = .VIN_SPENT then mn
  else if !mn.UpdatedWithin env MASTERNODE_REMOVAL_SECONDS then { mn with activeState := .REMOVE }
  else if !mn.UpdatedWithin env MASTERNODE_EXPIRATION_SECONDS then
    { mn with activeState := .EXPIRED }
  else if !mn.unitTest && !env.lockMain then mn
  else if !mn.unitTest && !env.acceptableInputs mn.vin then { mn with activeState := .VIN_SPENT }
  else { mn with activeState := .ENABLED }

theorem Check_vin : (mn.Check env).vin = mn.vin := by
  rw [Check]
  split_ifs <;> rfl

end CMasternode

section
variable (S : StdSort) (C : Crypto) (env : MasternodeEnv) (nodes : List CMasternode)
  (nBlockHeight minProtocol : Int) (fOnlyActive : Bool)

/-- The loop of `GetMasternodeRank` and of `GetMasternodeByRank`. -/
def masternodeScan : Scan CMasternode where
  vin := CMasternode.vin
  score := lowScore C (env.blockHash nBlockHeight)
  visit mn :=
    if mn.protocolVersion < minProtocol then (mn, false)
    else if fOnlyActive then
      let mn := mn.Check env
      (mn, mn.IsEnabled)
    else (mn, true)
  visit_vin mn := by
    split_ifs
    · rfl
    · exact CMasternode.Check_vin env mn
    · rfl

/-- The loop of `GetCurrentMasterNode`. -/
def currentMasternodeScan : Scan CMasternode where
  vin := CMasternode.vin
  score := lowScore C (env.blockHash nBlockHeight)
  visit mn :=
    let mn := mn.Check env
    (mn, !(mn.protocolVersion < minProtocol || !mn.IsEnabled))
  visit_vin mn := CMasternode.Check_vin env mn

/-- Here the whole input is looked for. -/
def GetMasternodeRank (vin : CTxIn) : Int × List CMasternode :=
  match env.blockHash nBlockHeight with
  | none => (-1, nodes)
  | some _ =>
    let K := masternodeScan C env nBlockHeight minProtocol fOnlyActive
    (rankLoop (fun txin => txin == vin) 0 (K.sortedScores S nodes), K.visited nodes)

def GetMasternodeByRank (nRank : Int) : Option CMasternode × List CMasternode :=
  let K := masternodeScan C env nBlockHeight minProtocol fOnlyActive
  ((byRankLoop nRank 0 (K.sortedScores S nodes)).bind (K.find nodes), K.visited nodes)

def GetCurrentMasterNode : Option CMasternode × List CMasternode :=
  let K := currentMasternodeScan C env nBlockHeight minProtocol
  (K.highest nodes, K.visited nodes)

end

end Divitae.Ranking
