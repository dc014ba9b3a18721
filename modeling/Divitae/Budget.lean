/-
# `Budget` — proposals, finalized budgets and the votes on them

Prosperitynodes vote on two kinds of objects: proposals (`fprop`, voted on by `fvote`)
and finalized budgets (`fbs`, voted on by `fbvote`).  The two halves of the manager
work alike, so a half is one record, `Ballots`, and a kind of vote says which fields
of it the handlers read (`VoteKind`):

                 objects               seen votes                        orphan votes
    proposals    mapProposals          mapSeenProsperitynodeBudgetVotes  mapOrphanProsperitynode…
    budgets      mapFinalizedBudgets   mapSeenFinalizedBudgetVotes
    mapOrphanFinalizedBudgetVotes

A vote is filed under the hash of the voter's outpoint, a seen vote under a hash of
the vote without its signature, and an orphan vote, whose object is not known yet,
under the hash of the object.
-/
import Divitae.ProsperitynodePayments
import Divitae.Reward
import Mathlib.Data.List.AList

namespace Divitae

def VOTE_ABSTAIN : Int := 0
def VOTE_YES : Int := 1
def VOTE_NO : Int := 2

def BUDGET_VOTE_UPDATE_MIN : Int := 60 * 60

def CScript.IsPayToScriptHash (script : CScript) : Bool :=
  script.length == 23 && script[0]? == some OP_HASH160 && script[1]? == some 0x14 &&
    script[22]? == some OP_EQUAL

def COutPoint.GetHash (C : Crypto) (o : COutPoint) : uint256 := C.hash256 o.ser

/-- `std::map<uint256, ν>`. -/
abbrev HashMap (ν : Type) := AList fun _ : uint256 => ν

/-! ## The objects -/

structure CBudgetVote where
  fValid : Bool
  vin : CTxIn
  nProposalHash : uint256
  nVote : Int
  nTime : Int
  vchSig : List UInt8
  deriving DecidableEq

structure CFinalizedBudgetVote where
  fValid : Bool
  vin : CTxIn
  nBudgetHash : uint256
  nTime : Int
  vchSig : List UInt8
  deriving DecidableEq

structure CTxBudgetPayment where
  nProposalHash : uint256
  payee : CScript
  nAmount : CAmount
  deriving DecidableEq

def CTxBudgetPayment.ser (p : CTxBudgetPayment) : List UInt8 :=
  serString p.payee ++ leInt 8 p.nAmount ++ serUint256 p.nProposalHash

/-- A proposal as it is sent: without the votes. -/
structure CBudgetProposalBroadcast where
  strProposalName : List UInt8
  strURL : List UInt8
  nTime : Int
  nBlockStart : Int
  nBlockEnd : Int
  nAmount : CAmount
  address : CScript
  nFeeTXHash : uint256
  deriving DecidableEq

structure CBudgetProposal extends CBudgetProposalBroadcast where
  mapVotes : HashMap CBudgetVote

/-- A finalized budget as it is sent. -/
structure CFinalizedBudgetBroadcast where
  strBudgetName : List UInt8
  nBlockStart : Int
  vecBudgetPayments : List CTxBudgetPayment
  nFeeTXHash : uint256
  deriving DecidableEq

structure CFinalizedBudget extends CFinalizedBudgetBroadcast where
  nTime : Int
  mapVotes : HashMap CFinalizedBudgetVote

/-- What the rest of the node answers while the budget is worked on. -/
structure BudgetEnv extends NodeEnv where
  nodes : CProsperitynodeMan -- `mnodeman`
  activeProtocol : Int
  isSynced : Bool -- `prosperitynodeSync.IsSynced()`
  tipHeight : Option Int
  /-- `IsBudgetCollateralValid` of a fee transaction and the hash it must commit to:
  the answer, the block time it found and the confirmations. -/
  collateralValid : uint256 → uint256 → Bool × Option Int × Int

namespace CBudgetProposal

/-- `CBudgetProposal(const CBudgetProposalBroadcast&)`. -/
def ofBroadcast (b : CBudgetProposalBroadcast) : CBudgetProposal := { b with mapVotes := ∅ }

variable (C : Crypto) (P : CChainParams) (env : BudgetEnv) (p : CBudgetProposal)

def countVotes (nVote : Int) : Nat :=
  p.mapVotes.entries.countP fun v => v.2.nVote == nVote && v.2.fValid

def GetYeas : Nat := p.countVotes VOTE_YES
def GetNays : Nat := p.countVotes VOTE_NO
end CBudgetProposal

def CBudgetProposalBroadcast.GetHash (C : Crypto) (p : CBudgetProposalBroadcast) : uint256 :=
  C.hash256 (serString p.strProposalName ++ serString p.strURL ++ leInt 4 p.nBlockStart ++
    leInt 4 p.nBlockEnd ++ leInt 8 p.nAmount ++ serString p.address)

def CFinalizedBudgetBroadcast.GetHash (C : Crypto) (b : CFinalizedBudgetBroadcast) : uint256 :=
  C.hash256 (serString b.strBudgetName ++ leInt 4 b.nBlockStart ++
    (WriteCompactSize b.vecBudgetPayments.length ++
      (b.vecBudgetPayments.map CTxBudgetPayment.ser).flatten))

/-- `CBudgetManager::GetTotalBudget`: a tenth of a month of rewards, in a signed 64-bit number.
With the reward of block 1, the premine, it wraps. -/
def GetTotalBudget (P : CChainParams) (env : BudgetEnv) : CAmount :=
  match env.tipHeight with
  | none => 0
  | some nHeight =>
    if P.networkID = .TESTNET then ((500 * COIN).tdiv 100 * 10) * 146
    else Wrap.wrap64 (((GetBlockValue P nHeight).tdiv 100 * 10) * 1920 * 30)

/-- `mnodeman.CountEnabled(ActiveProtocol())`. -/
def BudgetEnv.CountEnabled (env : BudgetEnv) : Nat :=
  env.nodes.CountEnabled env.toNodeEnv env.activeProtocol

namespace CBudgetProposal

variable (C : Crypto) (P : CChainParams) (env : BudgetEnv) (p : CBudgetProposal)

/-- The subtraction is of `int`s. -/
def GetTotalPaymentCount : Int :=
  let nBlockStartCycle := p.nBlockStart - p.nBlockStart.tmod (GetBudgetPaymentCycleBlocks P)
  (Wrap.wrap32 (p.nBlockEnd - nBlockStartCycle)).tdiv (GetBudgetPaymentCycleBlocks P)

/-- `IsValid`.  The collateral, once found in a block, also sets the time. -/
def IsValid : CBudgetProposal × Bool :=
  if (p.GetNays : Int) - p.GetYeas > env.CountEnabled / 10 then (p, false) -- active removal
  else if p.nBlockStart < 0 then (p, false)
  else if p.nBlockEnd < p.nBlockStart then (p, false)
  else if p.nAmount < 10 * COIN then (p, false)
  else if p.address = [] then (p, false)
  else
    let (fCollateral, nTime, _) := env.collateralValid p.nFeeTXHash (p.GetHash C)
    let p := { p with nTime := nTime.getD p.nTime }
    if !fCollateral then (p, false)
    else if p.address.IsPayToScriptHash then (p, false)
    else if p.nAmount > GetTotalBudget P env then (p, false)
    else
      match env.tipHeight with
      | none => (p, true)
      | some nHeight =>
        let nProposalEnd := p.nBlockStart + GetBudgetPaymentCycleBlocks P * p.GetTotalPaymentCount P
        (p, !(nProposalEnd < nHeight))

end CBudgetProposal

namespace CFinalizedBudget

/-- `CFinalizedBudget(const CFinalizedBudgetBroadcast&)`. -/
def ofBroadcast (b : CFinalizedBudgetBroadcast) : CFinalizedBudget :=
  { b with nTime := 0, mapVotes := ∅ }

variable (C : Crypto) (P : CChainParams) (env : BudgetEnv) (b : CFinalizedBudget)

def GetBlockEnd : Int := b.nBlockStart + ((b.vecBudgetPayments.length : Int) - 1)

def GetVoteCount : Nat := b.mapVotes.entries.length

/-- The sum in a signed 64-bit register. -/
def GetTotalPayout : CAmount :=
  (b.vecBudgetPayments.map CTxBudgetPayment.nAmount).foldl
    (fun ret nAmount => Wrap.wrap64 (ret + nAmount)) 0

def IsValid : CFinalizedBudget × Bool :=
  let nCycle := GetBudgetPaymentCycleBlocks P
  if b.nBlockStart.tmod nCycle ≠ 0 then (b, false)
  else if b.GetBlockEnd - b.nBlockStart > 100 then (b, false)
  else if b.vecBudgetPayments.length > 100 then (b, false)
  else if b.strBudgetName = [] then (b, false)
  else if b.nBlockStart = 0 then (b, false)
  else if b.nFeeTXHash = 0 then (b, false)
  else if b.GetTotalPayout > GetTotalBudget P env then (b, false)
  else
    let (fCollateral, nTime, _) := env.collateralValid b.nFeeTXHash (b.GetHash C)
    let b := { b with nTime := nTime.getD b.nTime }
    if !fCollateral then (b, false)
    else
      match env.tipHeight with
      | none => (b, true)
      | some nHeight =>
        -- budgets are obsolete two cycles before the current one
        let nBlockStart := nHeight - nHeight.tmod nCycle + nCycle
        (b, !(b.GetBlockEnd < nBlockStart - 2 * nCycle))

end CFinalizedBudget

/-! ## Votes -/

/-- How the handlers read a vote of type `V` on an object of type `Ω`. -/
structure VoteKind (V Ω : Type) where
  received : V → V -- `fValid = true`
  vin : V → CTxIn
  object : V → uint256
  nTime : V → Int
  vchSig : V → List UInt8
  hashed : V → List UInt8 -- what `GetHash` hashes
  strMessage : V → List UInt8
  mapVotes : Ω → HashMap V
  withVotes : Ω → HashMap V → Ω
  mapVotes_withVotes : ∀ obj m, mapVotes (withVotes obj m) = m
  withVotes_mapVotes : ∀ obj, withVotes obj (mapVotes obj) = obj

def CBudgetVote.kind : VoteKind CBudgetVote CBudgetProposal where
  received v := { v with fValid := true }
  vin v := v.vin
  object v := v.nProposalHash
  nTime v := v.nTime
  vchSig v := v.vchSig
  hashed v := v.vin.ser ++ serUint256 v.nProposalHash ++ leInt 4 v.nVote ++ leInt 8 v.nTime
  strMessage v :=
    v.vin.prevout.ToStringShort ++ GetHex v.nProposalHash ++ Decimal.ofInt v.nVote ++
      Decimal.ofInt v.nTime
  mapVotes p := p.mapVotes
  withVotes p m := { p with mapVotes := m }
  mapVotes_withVotes _ _ := rfl
  withVotes_mapVotes _ := rfl

def CFinalizedBudgetVote.kind : VoteKind CFinalizedBudgetVote CFinalizedBudget where
  received v := { v with fValid := true }
  vin v := v.vin
  object v := v.nBudgetHash
  nTime v := v.nTime
  vchSig v := v.vchSig
  hashed v := v.vin.ser ++ serUint256 v.nBudgetHash ++ leInt 8 v.nTime
  strMessage v := v.vin.prevout.ToStringShort ++ GetHex v.nBudgetHash ++ Decimal.ofInt v.nTime
  mapVotes b := b.mapVotes
  withVotes b m := { b with mapVotes := m }
  mapVotes_withVotes _ _ := rfl
  withVotes_mapVotes _ := rfl

/-- One half of the manager. -/
structure Ballots (V Ω : Type) where
  objects : HashMap Ω
  seenObjects : uint256 → Bool
  seenVotes : uint256 → Option V
  orphanVotes : HashMap V

def Ballots.empty {V Ω : Type} : Ballots V Ω := ⟨∅, fun _ => false, fun _ => none, ∅⟩

namespace VoteKind

variable {V Ω : Type} (K : VoteKind V Ω) (C : Crypto) (env : BudgetEnv)

def GetHash (vote : V) : uint256 := C.hash256 (K.hashed vote)

/-- The key of a vote in `mapVotes`. -/
def voter (vote : V) : uint256 := (K.vin vote).prevout.GetHash C

def SignatureValid (vote : V) (fSignatureCheck : Bool) : Bool :=
  match env.nodes.Find (K.vin vote) with
  | none => false
  | some pmn =>
    if !fSignatureCheck then true
    else C.VerifyMessage pmn.pubKeyProsperitynode (K.vchSig vote) (K.strMessage vote)

/-- The vote a voter has keeps a new one out: the new one is older, or too soon. -/
def keepsOut (existing vote : V) : Bool :=
  K.nTime existing > K.nTime vote || K.nTime vote - K.nTime existing < BUDGET_VOTE_UPDATE_MIN

def AddOrUpdateVote (mapVotes : HashMap V) (vote : V) : HashMap V × Bool :=
  let hash := K.voter C vote
  if (mapVotes.lookup hash).any (K.keepsOut · vote) then (mapVotes, false)
  else if K.nTime vote > env.time + 60 * 60 then (mapVotes, false) -- too far ahead
  else (mapVotes.insert hash vote, true)

/-- `UpdateProposal` and `UpdateFinalizedBudget`; a vote from a peer on an unknown object
becomes its orphan vote. -/
def Update (s : Ballots V Ω) (vote : V) (pfrom : Bool) : Ballots V Ω × Bool :=
  match s.objects.lookup (K.object vote) with
  | none =>
    if pfrom && env.isSynced then
      ({ s with orphanVotes := s.orphanVotes.insert (K.object vote) vote }, false)
    else (s, false)
  | some obj =>
    let (mapVotes, fAdded) := K.AddOrUpdateVote C env (K.mapVotes obj) vote
    ({ s with objects := s.objects.insert (K.object vote) (K.withVotes obj mapVotes) }, fAdded)

/-- One half of `CheckOrphanVotes`. -/
def CheckOrphanVotes (s : Ballots V Ω) : Ballots V Ω :=
  s.orphanVotes.entries.foldl
    (fun s it =>
      let (s, fAdded) := K.Update C env s it.2 false
      if fAdded then { s with orphanVotes := s.orphanVotes.erase it.1 } else s) s

/-- The commands `fvote` and `fbvote`. -/
def ProcessVote (s : Ballots V Ω) (vote : V) : Ballots V Ω :=
  if env.fLiteMode then s
  else if !env.isBlockchainSynced then s
  else
    let vote := K.received vote
    if (s.seenVotes (K.GetHash C vote)).isSome then s
    else
      match env.nodes.Find (K.vin vote) with
      | none => s -- unknown prosperitynode
      | some _ =>
        let s := { s with seenVotes := mapInsert s.seenVotes (K.GetHash C vote) vote }
        if !K.SignatureValid C env vote true then s
        else (K.Update C env s vote true).1

end VoteKind

/-! ## The manager -/

structure CBudgetManager where
  proposals : Ballots CBudgetVote CBudgetProposal
  budgets : Ballots CFinalizedBudgetVote CFinalizedBudget
  vecImmatureBudgetProposals : List CBudgetProposalBroadcast
  vecImmatureFinalizedBudgets : List CFinalizedBudgetBroadcast

namespace CBudgetManager

def empty : CBudgetManager := ⟨.empty, .empty, [], []⟩

variable (C : Crypto) (P : CChainParams) (env : BudgetEnv) (s : CBudgetManager)

def CheckOrphanVotes : CBudgetManager :=
  { s with
    proposals := CBudgetVote.kind.CheckOrphanVotes C env s.proposals
    budgets := CFinalizedBudgetVote.kind.CheckOrphanVotes C env s.budgets }

def AddProposal (budgetProposal : CBudgetProposal) : CBudgetManager :=
  let (budgetProposal, fValid) := budgetProposal.IsValid C P env
  if !fValid then s
  else if (s.proposals.objects.lookup (budgetProposal.GetHash C)).isSome then s
  else
    { s with
      proposals := { s.proposals with
        objects := s.proposals.objects.insert (budgetProposal.GetHash C) budgetProposal } }

def AddFinalizedBudget (finalizedBudget : CFinalizedBudget) : CBudgetManager :=
  let (finalizedBudget, fValid) := finalizedBudget.IsValid C P env
  if !fValid then s
  else if (s.budgets.objects.lookup (finalizedBudget.GetHash C)).isSome then s
  else
    { s with
      budgets := { s.budgets with
        objects := s.budgets.objects.insert (finalizedBudget.GetHash C) finalizedBudget } }

/-- Command `fprop`. -/
def ProcessProposal (b : CBudgetProposalBroadcast) : CBudgetManager :=
  if env.fLiteMode then s
  else if !env.isBlockchainSynced then s
  else if s.proposals.seenObjects (b.GetHash C) then s
  else
    let (fCollateral, nTime, nConf) := env.collateralValid b.nFeeTXHash (b.GetHash C)
    let b := { b with nTime := nTime.getD b.nTime }
    if !fCollateral then
      if nConf ≥ 1 then
        { s with vecImmatureBudgetProposals := s.vecImmatureBudgetProposals ++ [b] }
      else s
    else
      let s := { s with
        proposals := { s.proposals with
          seenObjects := Function.update s.proposals.seenObjects (b.GetHash C) true } }
      let (budgetProposal, fValid) := (CBudgetProposal.ofBroadcast b).IsValid C P env
      if !fValid then s
      else (s.AddProposal C P env budgetProposal).CheckOrphanVotes C env

/-- Command `fbs`. -/
def ProcessFinalizedBudget (b : CFinalizedBudgetBroadcast) : CBudgetManager :=
  if env.fLiteMode then s
  else if !env.isBlockchainSynced then s
  else if s.budgets.seenObjects (b.GetHash C) then s
  else
    let (fCollateral, nTime, nConf) := env.collateralValid b.nFeeTXHash (b.GetHash C)
    if !fCollateral then
      if nConf ≥ 1 then
        { s with vecImmatureFinalizedBudgets := s.vecImmatureFinalizedBudgets ++ [b] }
      else s
    else
      let s := { s with
        budgets := { s.budgets with
          seenObjects := Function.update s.budgets.seenObjects (b.GetHash C) true } }
      let budget := CFinalizedBudget.ofBroadcast b
      let (finalizedBudget, fValid) := { budget with nTime := nTime.getD 0 }.IsValid C P env
      if !fValid then s
      else (s.AddFinalizedBudget C P env finalizedBudget).CheckOrphanVotes C env

end CBudgetManager

/-- What can happen to the budget. -/
inductive BudgetEvent where
  | fprop (env : BudgetEnv) (b : CBudgetProposalBroadcast)
  | fvote (env : BudgetEnv) (vote : CBudgetVote)
  | fbs (env : BudgetEnv) (b : CFinalizedBudgetBroadcast)
  | fbvote (env : BudgetEnv) (vote : CFinalizedBudgetVote)
  | checkOrphanVotes (env : BudgetEnv)

def budgetStep (C : Crypto) (P : CChainParams) (s : CBudgetManager) :
    BudgetEvent → CBudgetManager
  | .fprop env b => s.ProcessProposal C P env b
  | .fvote env vote =>
    { s with proposals := CBudgetVote.kind.ProcessVote C env s.proposals vote }
  | .fbs env b => s.ProcessFinalizedBudget C P env b
  | .fbvote env vote =>
    { s with budgets := CFinalizedBudgetVote.kind.ProcessVote C env s.budgets vote }
  | .checkOrphanVotes env => s.CheckOrphanVotes C env

end Divitae
