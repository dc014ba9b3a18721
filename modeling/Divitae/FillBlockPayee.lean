/-
# `FillBlockPayee` — the payments a producer puts into its transaction

`FillBlockPayee` of `prosperitynode-payments.cpp`, with the two functions it hands the
transaction to.  At a height with a budget payment only the budget is paid; elsewhere
the prosperitynode and, if asked for, the masternode of the height are.  A node that
holds no winner for the height pays the one it would elect itself.
-/
import Divitae.BlockPayee

namespace Divitae

/-- What filling in the payees asks of the node besides. -/
structure CStakerNode extends CPaymentNode where
  /-- the collateral key of `mnodeman.GetCurrentFundamentalNode(1)` -/
  currentFundamentalNode : Option CPubKey
  /-- the key of `m_nodeman.GetCurrentMasterNode(1)` -/
  currentMasterNode : Option CPubKey

namespace CStakerNode

variable (V : CStakerNode)

/-- The prosperitynode that is paid, `payee`. -/
def fundamentalPayee (nHeight : Int) : Option CScript :=
  match V.prosperitynodePayments.GetBlockPayee nHeight with
  | some payee => some payee
  | none => V.currentFundamentalNode.map fun key => GetScriptForDestination (V.base.C.GetID key)

/-- The masternode that is paid, `mn_payee`. -/
def masterPayee (nHeight : Int) : Option CScript :=
  match V.masternodePayments.GetBlockPayee nHeight with
  | some payee => some payee
  | none => V.currentMasterNode.map fun key => GetScriptForDestination (V.base.C.GetID key)

/-- The outputs that are added on top of `tip`: both amounts are shares of the value of
the tip's own height. -/
def nodePayments (tip : CBlockIndex) (IsMasternode : Bool) : List CTxOut :=
  let blockValue := GetBlockValue V.base.P tip.nHeight
  let prosperitynodePayment := GetProsperitynodePayment V.base.P (tip.nHeight + 1) blockValue
  let masternodepayment := V.GetMasternodePayment (tip.nHeight + 1) blockValue
  ((V.fundamentalPayee (tip.nHeight + 1)).map fun payee =>
    (⟨prosperitynodePayment, payee⟩ : CTxOut)).toList ++
  (if IsMasternode then
    ((V.masterPayee (tip.nHeight + 1)).map fun payee =>
      (⟨masternodepayment, payee⟩ : CTxOut)).toList
  else [])

/-- Take an amount off the last output, `vout[i - 1].nValue -= ..`. -/
def takeFromLast (nAmount : CAmount) (vout : List CTxOut) : List CTxOut :=
  vout.modify (vout.length - 1) fun out => { out with nValue := out.nValue - nAmount }

def setFirst (nAmount : CAmount) (vout : List CTxOut) : List CTxOut :=
  vout.modify 0 fun out => { out with nValue := nAmount }

def paidOut (payments : List CTxOut) : CAmount := (payments.map CTxOut.nValue).sum

/-- `CProsperitynodePayments::FillBlockPayee`.  A coin stake pays out of its last output,
a coin base out of its first, and loses the outputs behind that. -/
def fillNodePayees (tip : CBlockIndex) (txNew : CTransaction) (fProofOfStake IsMasternode : Bool) :
    CTransaction :=
  let blockValue := GetBlockValue V.base.P tip.nHeight
  if !fProofOfStake && V.base.P.networkID == .TESTNET then
    { txNew with vout := setFirst blockValue txNew.vout }
  else
    let payments := V.nodePayments tip IsMasternode
    if fProofOfStake then
      { txNew with vout := takeFromLast (paidOut payments) txNew.vout ++ payments }
    else if payments = [] then { txNew with vout := setFirst blockValue txNew.vout }
    else
      { txNew with
        vout := { txNew.vout.headD .null with nValue := blockValue - paidOut payments } ::
          payments }

/-- The output of the budget payment at a height. -/
def budgetPayment (nHeight : Int) : List CTxOut :=
  ((V.budget.payeeAndAmount nHeight).map fun p => (⟨p.2, p.1⟩ : CTxOut)).toList

/-- `CBudgetManager::FillBlockPayee`.  The payment comes on top of the reward. -/
def fillBudgetPayee (tip : CBlockIndex) (txNew : CTransaction) (fProofOfStake : Bool) :
    CTransaction :=
  let payment := V.budgetPayment (tip.nHeight + 1)
  if fProofOfStake then { txNew with vout := txNew.vout ++ payment }
  else
    let vout := setFirst (GetBlockValue V.base.P tip.nHeight) txNew.vout
    if payment = [] then { txNew with vout := vout }
    else { txNew with vout := vout.take 1 ++ payment }

def FillBlockPayee (txNew : CTransaction) (fProofOfStake IsMasternode : Bool) : CTransaction :=
  match V.base.chainTip with
  | none => txNew
  | some tip =>
    if V.PaysBudget (tip.nHeight + 1) then V.fillBudgetPayee tip txNew fProofOfStake
    else V.fillNodePayees tip txNew fProofOfStake IsMasternode

end CStakerNode

end Divitae
