/-
# `ProsperitynodePayments` — votes on who is paid at a height

For each height ten prosperitynodes, drawn by rank, name the payee of the block.  A
vote (`fnw`) is a signed triple of voter, height and payee; a payee with six votes is
binding.  The class keeps three maps,

    mapProsperitynodePayeeVotes   every counted vote, under a hash without the signature
    mapProsperitynodeBlocks       for each height the payees and how many votes each has
    mapProsperitynodesLastVote    for each voter the last height it voted at

and only the first two survive a restart.  The last one is what `CanVote` reads.
-/
import Divitae.Prosperitynode

namespace Divitae

def MNPAYMENTS_SIGNATURES_REQUIRED : Int := 6
def MNPAYMENTS_SIGNATURES_TOTAL : Int := 10

def COutPoint.ToStringShort (o : COutPoint) : List UInt8 :=
  GetHex o.hash ++ ascii "-" ++ Decimal.ofNat o.n

structure CProsperitynodePaymentWinner where
  vinProsperitynode : CTxIn
  nBlockHeight : Int
  payee : CScript
  vchSig : List UInt8
  deriving DecidableEq

namespace CProsperitynodePaymentWinner

variable (C : Crypto) (T : Texts) (w : CProsperitynodePaymentWinner)

def GetHash : uint256 :=
  C.hash256 (serString w.payee ++ leInt 4 w.nBlockHeight ++ w.vinProsperitynode.prevout.ser)

def strMessage : List UInt8 :=
  w.vinProsperitynode.prevout.ToStringShort ++ Decimal.ofInt w.nBlockHeight ++
    T.scriptToString w.payee

/-- `Sign`: the winner with its signature, when that verifies. -/
def Sign (keyProsperitynode : CKey) (pubKeyProsperitynode : CPubKey) :
    Option CProsperitynodePaymentWinner :=
  match C.SignMessage (w.strMessage T) keyProsperitynode with
  | none => none
  | some sig =>
    if C.VerifyMessage pubKeyProsperitynode sig (w.strMessage T) then
      some { w with vchSig := sig }
    else none

end CProsperitynodePaymentWinner

structure CProsperitynodePayee where
  scriptPubKey : CScript
  nVotes : Int
  deriving DecidableEq

/-- The loop of `AddPayee`: the first entry of the payee is raised, a new payee goes last. -/
def addVotes (payeeIn : CScript) (nIncrement : Int) :
    List CProsperitynodePayee → List CProsperitynodePayee
  | [] => [⟨payeeIn, nIncrement⟩]
  | payee :: rest =>
    if payee.scriptPubKey = payeeIn then
      { payee with nVotes := payee.nVotes + nIncrement } :: rest
    else payee :: addVotes payeeIn nIncrement rest

structure CProsperitynodeBlockPayees where
  nBlockHeight : Int
  vecPayments : List CProsperitynodePayee
  deriving DecidableEq

namespace CProsperitynodeBlockPayees

variable (b : CProsperitynodeBlockPayees)

def AddPayee (payeeIn : CScript) (nIncrement : Int) : CProsperitynodeBlockPayees :=
  { b with vecPayments := addVotes payeeIn nIncrement b.vecPayments }

def HasPayeeWithVotes (payee : CScript) (nVotesReq : Int) : Bool :=
  b.vecPayments.any fun p => p.nVotes ≥ nVotesReq && p.scriptPubKey == payee

end CProsperitynodeBlockPayees

structure CProsperitynodePayments where
  nLastBlockHeight : Int
  mapProsperitynodePayeeVotes : List (uint256 × CProsperitynodePaymentWinner)
  mapProsperitynodeBlocks : Int → Option CProsperitynodeBlockPayees
  mapProsperitynodesLastVote : uint256 → Option Int

/-- `CProsperitynodeMan::CountEnabled`.  `Check` changes neither keys nor versions, and
nothing else of a node is read after it where this is called. -/
def CProsperitynodeMan.CountEnabled (s : CProsperitynodeMan) (env : NodeEnv)
    (protocolVersion : Int) : Nat :=
  (s.vProsperitynodes.map (·.Check env false)).countP fun mn =>
    !(mn.protocolVersion < protocolVersion) && mn.IsEnabled

/-- What the rest of the node answers while the payments are worked on. -/
structure PaymentEnv extends NodeEnv where
  nodes : CProsperitynodeMan -- `mnodeman`
  activeProtocol : Int
  tipHeight : Option Int -- when `cs_main` is free and there is a tip
  rank : CTxIn → Int → Int → Int -- `GetProsperitynodeRank`
  blockHash : Int → Option uint256 -- `GetBlockHash`
  activeTxIn : CTxIn -- `activeProsperitynode.vin`
  isBudgetPaymentBlock : Int → Bool
  nextInQueue : Int → Option CProsperitynode -- `GetNextProsperitynodeInQueueForPayment`
  activeKeys : Option (CKey × CPubKey) -- `SetKey(strFundamentalNodePrivKey)`

namespace PaymentEnv

variable (env : PaymentEnv)

/-- `nHeight - mnodeman.CountEnabled() * 1.25`, a double cut off to an `int`. -/
def nFirstBlock (nHeight : Int) : Int :=
  (4 * nHeight - 5 * env.nodes.CountEnabled env.toNodeEnv env.minProto).tdiv 4

end PaymentEnv

namespace CProsperitynodePaymentWinner

variable (C : Crypto) (T : Texts) (env : PaymentEnv) (w : CProsperitynodePaymentWinner)

def IsValid : Bool :=
  match env.nodes.Find w.vinProsperitynode with
  | none => false
  | some pmn =>
    if pmn.protocolVersion < env.activeProtocol then false
    else
      let n := env.rank w.vinProsperitynode (w.nBlockHeight - 100) env.activeProtocol
      if n > MNPAYMENTS_SIGNATURES_TOTAL then false else true

def SignatureValid : Bool :=
  match env.nodes.Find w.vinProsperitynode with
  | some pmn => C.VerifyMessage pmn.pubKeyProsperitynode w.vchSig (w.strMessage T)
  | none => false

end CProsperitynodePaymentWinner

namespace CProsperitynodePayments

def empty : CProsperitynodePayments := ⟨0, [], fun _ => none, fun _ => none⟩

variable (C : Crypto) (T : Texts) (env : PaymentEnv) (s : CProsperitynodePayments)

/-- `mapProsperitynodePayeeVotes.count`. -/
def seenVote (hash : uint256) : Bool := s.mapProsperitynodePayeeVotes.any (·.1 == hash)

/-- The key of `mapProsperitynodesLastVote`. -/
def voteKey (outProsperitynode : COutPoint) : uint256 :=
  outProsperitynode.hash + BitVec.ofNat 256 outProsperitynode.n

def CanVote (outProsperitynode : COutPoint) (nBlockHeight : Int) :
    CProsperitynodePayments × Bool :=
  if s.mapProsperitynodesLastVote (voteKey outProsperitynode) = some nBlockHeight then (s, false)
  else
    -- record this prosperitynode voted
    ({ s with
      mapProsperitynodesLastVote :=
        Function.update s.mapProsperitynodesLastVote (voteKey outProsperitynode)
          (some nBlockHeight) }, true)

def AddWinningProsperitynode (winnerIn : CProsperitynodePaymentWinner) :
    CProsperitynodePayments × Bool :=
  match env.blockHash (winnerIn.nBlockHeight - 100) with
  | none => (s, false)
  | some _ =>
    if s.seenVote (winnerIn.GetHash C) then (s, false)
    else
      let blockPayees :=
        (s.mapProsperitynodeBlocks winnerIn.nBlockHeight).getD ⟨winnerIn.nBlockHeight, []⟩
      ({ s with
        mapProsperitynodePayeeVotes :=
          (winnerIn.GetHash C, winnerIn) :: s.mapProsperitynodePayeeVotes
        mapProsperitynodeBlocks :=
          Function.update s.mapProsperitynodeBlocks winnerIn.nBlockHeight
            (some (blockPayees.AddPayee winnerIn.payee 1)) }, true)

/-- `ProcessMessageProsperitynodePayments`, command `fnw`, from a peer of version `nVersion`. -/
def ProcessWinner (nVersion : Int) (winner : CProsperitynodePaymentWinner) :
    CProsperitynodePayments :=
  if !env.isBlockchainSynced then s
  else if env.fLiteMode then s
  else if nVersion < env.activeProtocol then s
  else
    match env.tipHeight with
    | none => s
    | some nHeight =>
      if s.seenVote (winner.GetHash C) then s -- already seen
      else if winner.nBlockHeight < env.nFirstBlock nHeight ∨
          winner.nBlockHeight > nHeight + 20 then s -- winner out of range
      else if !winner.IsValid env then s
      else
        let (s, fCanVote) := s.CanVote winner.vinProsperitynode.prevout winner.nBlockHeight
        if !fCanVote then s -- prosperitynode already voted
        else if !winner.SignatureValid C T env then s
        else (s.AddWinningProsperitynode C env winner).1

/-- The vote this node itself casts for a height, signed.  In a budget payment block, and
with nobody to pay, the winner keeps its default height and payee. -/
def newWinner (nBlockHeight : Int) : Option CProsperitynodePaymentWinner :=
  let winner : CProsperitynodePaymentWinner := ⟨env.activeTxIn, 0, [], []⟩
  let winner :=
    if env.isBudgetPaymentBlock nBlockHeight then winner
    else
      match env.nextInQueue nBlockHeight with
      | none => winner
      | some pmn =>
        { winner with
          nBlockHeight := nBlockHeight
          payee := GetScriptForDestination (C.GetID pmn.pubKeyCollateralAddress) }
  match env.activeKeys with
  | none => none
  | some (key, pubKey) => winner.Sign C T key pubKey

def ProcessBlock (nBlockHeight : Int) : CProsperitynodePayments :=
  if !env.fFundamentalNode then s
  else
    let n := env.rank env.activeTxIn (nBlockHeight - 100) env.activeProtocol
    if n = -1 then s
    else if n > MNPAYMENTS_SIGNATURES_TOTAL then s
    else if nBlockHeight ≤ s.nLastBlockHeight then s
    else
      match newWinner C T env nBlockHeight with
      | none => s
      | some winner =>
        let (s, fAdded) := s.AddWinningProsperitynode C env winner
        if fAdded then { s with nLastBlockHeight := nBlockHeight } else s

def CleanPaymentList : CProsperitynodePayments :=
  match env.tipHeight with
  | none => s
  | some nHeight =>
    -- keep up to five cycles for historical sake
    let nLimit : Int := max (env.nodes.vProsperitynodes.length * 5 / 4 : Nat) 1000
    let old (w : uint256 × CProsperitynodePaymentWinner) : Bool :=
      nHeight - w.2.nBlockHeight > nLimit
    { s with
      mapProsperitynodePayeeVotes := s.mapProsperitynodePayeeVotes.filter fun w => !old w
      mapProsperitynodeBlocks := fun h =>
        if s.mapProsperitynodePayeeVotes.any fun w => old w && w.2.nBlockHeight == h then none
        else s.mapProsperitynodeBlocks h }

/-- What `fnpayments.dat` brings back: the two maps that are serialized. -/
def reload : CProsperitynodePayments :=
  { empty with
    mapProsperitynodePayeeVotes := s.mapProsperitynodePayeeVotes
    mapProsperitynodeBlocks := s.mapProsperitynodeBlocks }

end CProsperitynodePayments

/-- What can happen to the votes. -/
inductive WinnerEvent where
  | fnw (env : PaymentEnv) (nVersion : Int) (winner : CProsperitynodePaymentWinner)
  | newBlock (env : PaymentEnv) (nBlockHeight : Int)
  | cleanUp (env : PaymentEnv)
  | restart

def winnerStep (C : Crypto) (T : Texts) (s : CProsperitynodePayments) :
    WinnerEvent → CProsperitynodePayments
  | .fnw env nVersion winner => s.ProcessWinner C T env nVersion winner
  | .newBlock env nBlockHeight => s.ProcessBlock C T env nBlockHeight
  | .cleanUp env => s.CleanPaymentList env
  | .restart => s.reload

end Divitae
