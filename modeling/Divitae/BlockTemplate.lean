/-
# `BlockTemplate` — the transactions a new block takes from the pool

`CreateNewBlock` of `miner.cpp`, from the coins it starts with to the transactions it has taken.
It goes through the pool twice:

    addCandidate   a transaction whose inputs are all coins goes into a queue; one that takes an
                   output of the pool is an orphan, and waits for the transactions it depends on
    selectNext     the front of the queue goes into the block, or is left out; the orphans that
                   have waited for it alone then go into the queue

The queue is a heap by priority, and by fee once the space for priorities is used up.  Priorities
are floating point numbers: their type and what is asked of them are parameters.  The source's
pointer to an orphan is the hash of its transaction here.  The coin base and the coin stake, which
stand before the transactions of the pool, are made elsewhere.
-/
import Divitae.Lib.Heaps
import Divitae.MemPool

namespace Divitae

/-! ## Priorities -/

structure TxPriority (Double : Type) where
  dPriority : Double
  feeRate : CFeeRate
  tx : CTransaction

/-- `COrphan`: a transaction with the pool transactions it waits for. -/
structure COrphan (Double : Type) where
  ptx : CTransaction
  setDependsOn : List uint256
  feeRate : CFeeRate
  dPriority : Double

/-- What the miner asks of the node besides. -/
structure CMinerNode (Double : Type) extends CMempoolNode where
  zero : Double
  less : Double → Double → Bool
  same : Double → Double → Bool
  /-- the priority of a transaction, with its size and its delta -/
  dPriority : CTransaction → CCoinsView → Double
  /-- `AllowFree` of a priority -/
  AllowFreeAt : Double → Bool
  /-- the priority delta of `ApplyDeltas` is not above 0 -/
  noPriorityDelta : uint256 → Bool
  nFeeDelta : uint256 → CAmount
  IsFinalTx : CTransaction → Int → Bool
  minRelayTxFee : CFeeRate
  /-- `-blockmaxsize`, `-blockprioritysize` and `-blockminsize` -/
  blockmaxsize : UInt32
  blockprioritysize : UInt32
  blockminsize : UInt32

variable {Double : Type}

section
variable (N : CMinerNode Double)

def TxPriorityCompare (byFee : Bool) (a b : TxPriority Double) : Bool :=
  if byFee then
    if a.feeRate = b.feeRate then N.less a.dPriority b.dPriority
    else a.feeRate.nSatoshisPerK < b.feeRate.nSatoshisPerK
  else if N.same a.dPriority b.dPriority then a.feeRate.nSatoshisPerK < b.feeRate.nSatoshisPerK
  else N.less a.dPriority b.dPriority

/-- Between 1K and 1K less than a block may have. -/
def CMinerNode.nBlockMaxSize : Nat :=
  max 1000 (min (MAX_BLOCK_SIZE_CURRENT - 1000) N.blockmaxsize.toNat)

def CMinerNode.nBlockPrioritySize : Nat := min N.nBlockMaxSize N.blockprioritysize.toNat

def CMinerNode.nBlockMinSize : Nat := min N.nBlockMaxSize N.blockminsize.toNat

structure Candidates (Double : Type) where
  vOrphan : List (COrphan Double)
  mapDependers : uint256 → List uint256
  vecPriority : List (TxPriority Double)

/-- What the loop over the inputs has found: the transactions to wait for, if there are any, and
the value so far. -/
structure InputScan where
  porphan : Option (List uint256)
  mapDependers : uint256 → List uint256
  nTotalIn : CAmount

/-- The loop over the inputs, with `fMissingInputs`.  An input that is nowhere takes the orphan
with it. -/
def scanInputs (pool : CTxMemPool) (view : CCoinsView) (tx : CTransaction) :
    List CTxIn → InputScan → InputScan × Bool
  | [], s => (s, false)
  | txin :: vin, s =>
    if tx.IsZerocoinSpend then
      scanInputs pool view tx vin { s with nTotalIn := tx.GetZerocoinSpent }
    else if !view.HasCoins txin.prevout.hash then
      match pool.mapTx.lookup txin.prevout.hash with
      | none => ({ s with porphan := none }, true)
      | some parent =>
        scanInputs pool view tx vin
          { porphan := some ((s.porphan.getD []).insert txin.prevout.hash)
            mapDependers := Function.update s.mapDependers txin.prevout.hash
              (s.mapDependers txin.prevout.hash ++ [tx.hash])
            nTotalIn := Wrap.wrap64
              (s.nTotalIn + (parent.tx.vout.getD txin.prevout.n .null).nValue) }
    else if N.ContainsOutPoint txin.prevout then (s, true)
    else
      scanInputs pool view tx vin
        { s with nTotalIn := Wrap.wrap64 (s.nTotalIn + (view.GetOutputFor txin).nValue) }

/-- One transaction of the pool. -/
def addCandidate (pool : CTxMemPool) (view : CCoinsView) (nHeight : Int) (c : Candidates Double)
    (tx : CTransaction) : Candidates Double :=
  if tx.IsCoinBase || tx.IsCoinStake || !N.IsFinalTx tx nHeight then c
  else if GetSporkValue N.sporks SPORK_20_ZEROCOIN_MAINTENANCE_MODE < N.adjustedTime &&
      tx.ContainsZerocoins then c
  else
    let (s, fMissingInputs) := scanInputs N pool view tx tx.vin ⟨none, c.mapDependers, 0⟩
    if fMissingInputs then
      -- the orphan of an invalid input stays in the list, with nothing filled in
      { c with
        vOrphan := c.vOrphan ++ (s.porphan.map fun deps => ⟨tx, deps, ⟨0⟩, N.zero⟩).toList
        mapDependers := s.mapDependers }
    else
      let dPriority := N.dPriority tx view
      let feeRate := CFeeRate.ofFee
        (Wrap.wrap64 (s.nTotalIn + N.nFeeDelta tx.hash - tx.GetValueOut)) tx.ser.length
      match s.porphan with
      | some deps =>
        { c with
          vOrphan := c.vOrphan ++ [⟨tx, deps, feeRate, dPriority⟩]
          mapDependers := s.mapDependers }
      | none =>
        { c with
          vecPriority := c.vecPriority ++ [⟨dPriority, feeRate, tx⟩]
          mapDependers := s.mapDependers }

/-! ## The selection -/

structure MinerState (Double : Type) where
  vecPriority : List (TxPriority Double)
  vOrphan : List (COrphan Double)
  view : CCoinsView
  vtx : List CTransaction
  vTxFees : List CAmount
  vTxSigOps : List Nat
  nBlockSize : Nat
  nBlockSigOps : Nat
  nFees : CAmount
  fSortedByFee : Bool
  vBlockSerials : List Int
  vTxSerials : List Int

/-- The mark of version 2 is in the first four bits. -/
def ExtractVersionFromSerial (bnSerial : Int) : Nat :=
  if bnSerial.natAbs % 2 ^ 256 / 2 ^ 252 = 0xf then PUBKEY_VERSION else 1

/-- The serials of the spends, put behind `vTxSerials` up to the first that is not valid or is
there already, and whether there is one.  Nothing where an input cannot be read. -/
def collectSerials (vBlockSerials : List Int) : List CTxIn → List Int → Option (Bool × List Int)
  | [], vTxSerials => some (false, vTxSerials)
  | txIn :: vin, vTxSerials =>
    if !txIn.scriptSig.IsZerocoinSpend then collectSerials vBlockSerials vin vTxSerials
    else
      match N.Z.TxInToZerocoinSpend txIn with
      | none => none
      | some spend =>
        let bnSerial := spend.coinSerialNumber
        let fUseV1Params : Bool := ExtractVersionFromSerial bnSerial < PUBKEY_VERSION
        if !N.Z.HasValidSerial fUseV1Params spend || vBlockSerials.contains bnSerial ||
            vTxSerials.contains bnSerial then some (true, vTxSerials)
        else collectSerials vBlockSerials vin (vTxSerials ++ [bnSerial])

/-- Whether the transaction is a zerocoin spend that is left out, and `vTxSerials` behind it. -/
def checkDoubleSerial (tx : CTransaction) (s : MinerState Double) : Option (Bool × List Int) :=
  if tx.IsZerocoinSpend then
    if (N.IsTransactionInChain tx.hash).isSome then some (true, s.vTxSerials)
    else collectSerials N s.vBlockSerials tx.vin s.vTxSerials
  else some (false, s.vTxSerials)

/-- The collateral that a prosperitynode burns is no fee. -/
def recordedFee (inputs : CCoinsView) (tx : CTransaction) : CAmount :=
  let nTxFees := Wrap.wrap64 (inputs.GetValueIn tx - tx.GetValueOut)
  if PROSPERITYNODE_AMOUNT < nTxFees then nTxFees - PROSPERITYNODE_AMOUNT else nTxFees

variable (H : Heaps (TxPriority Double))

/-- One transaction that depends on the one with this hash, which is in the block now. -/
def releaseOrphan (fSortedByFee : Bool) (hash : uint256)
    (q : List (COrphan Double) × List (TxPriority Double)) (id : uint256) :
    List (COrphan Double) × List (TxPriority Double) :=
  match q.1.find? fun porphan => porphan.ptx.hash == id with
  | none => q
  | some porphan =>
    if porphan.setDependsOn.isEmpty then q
    else
      let deps := porphan.setDependsOn.erase hash
      (q.1.map fun o => if o.ptx.hash = id then { o with setDependsOn := deps } else o,
        if deps.isEmpty then
          H.push_heap (TxPriorityCompare N fSortedByFee)
            (q.2 ++ [⟨porphan.dPriority, porphan.feeRate, porphan.ptx⟩])
        else q.2)

/-- The transaction goes into the block.  Nothing where `UpdateCoins` would not return. -/
def addToBlock (mapDependers : uint256 → List uint256) (nHeight : Int) (tx : CTransaction)
    (nTxSigOps : Nat) (s : MinerState Double) : Option (MinerState Double) :=
  match UpdateCoins tx s.view nHeight with
  | none => none
  | some (view, _) =>
    let nTxFees := recordedFee s.view tx
    let q := (mapDependers tx.hash).foldl (releaseOrphan N H s.fSortedByFee tx.hash)
      (s.vOrphan, s.vecPriority)
    some
      { s with
        vecPriority := q.2
        vOrphan := q.1
        view
        vtx := s.vtx ++ [tx]
        vTxFees := s.vTxFees ++ [nTxFees]
        vTxSigOps := s.vTxSigOps ++ [nTxSigOps]
        nBlockSize := s.nBlockSize + tx.ser.length
        nBlockSigOps := s.nBlockSigOps + nTxSigOps
        nFees := Wrap.wrap64 (s.nFees + nTxFees)
        vBlockSerials := s.vBlockSerials ++ s.vTxSerials }

/-- Once past the priority size, or out of transactions of high priority, it goes by fee. -/
def sortByFee (dPriority : Double) (nTxSize : Nat) (s : MinerState Double) : MinerState Double :=
  if !s.fSortedByFee &&
      (N.nBlockPrioritySize ≤ s.nBlockSize + nTxSize || !N.AllowFreeAt dPriority) then
    { s with
      fSortedByFee := true
      vecPriority := H.make_heap (TxPriorityCompare N true) s.vecPriority }
  else s

/-- The transaction that was at the front of the queue. -/
def considerTx (mapDependers : uint256 → List uint256) (nHeight : Int) (front : TxPriority Double)
    (s : MinerState Double) : Option (MinerState Double) :=
  let tx := front.tx
  let nTxSize := tx.ser.length
  let nTxSigOps := N.GetLegacySigOpCount tx
  if N.nBlockMaxSize ≤ s.nBlockSize + nTxSize then some s
  else if MAX_BLOCK_SIGOPS_CURRENT ≤ s.nBlockSigOps + nTxSigOps then some s
  else if !tx.IsZerocoinSpend && s.fSortedByFee && N.noPriorityDelta tx.hash &&
      N.nFeeDelta tx.hash ≤ 0 && front.feeRate.nSatoshisPerK < N.minRelayTxFee.nSatoshisPerK &&
      N.nBlockMinSize ≤ s.nBlockSize + nTxSize then some s
  else
    let s := sortByFee N H front.dPriority nTxSize s
    if !s.view.HaveInputs tx then some s
    else
      match checkDoubleSerial N tx s with
      | none => none
      | some (fDoubleSerial, vTxSerials) =>
        let s := { s with vTxSerials }
        let nTxSigOps := nTxSigOps + N.GetP2SHSigOpCount tx s.view
        if fDoubleSerial then some s
        else if MAX_BLOCK_SIGOPS_CURRENT ≤ s.nBlockSigOps + nTxSigOps then some s
        else if !(N.CheckInputs tx s.view).isOk then some s
        else addToBlock N H mapDependers nHeight tx nTxSigOps s

/-- One round of the loop; it ends when the queue is empty. -/
def selectNext (mapDependers : uint256 → List uint256) (nHeight : Int) (s : MinerState Double) :
    Option (MinerState Double) :=
  match H.takeFront (TxPriorityCompare N s.fSortedByFee) s.vecPriority with
  | none => some s
  | some (front, rest) => considerTx N H mapDependers nHeight front { s with vecPriority := rest }

/-- The loop.  A transaction comes to the front of the queue once, so the number of candidates is
enough rounds (`CreateNewBlock_done`). -/
def selectAll (mapDependers : uint256 → List uint256) (nHeight : Int) :
    Nat → MinerState Double → Option (MinerState Double)
  | 0, s => some s
  | rounds + 1, s =>
    (selectNext N H mapDependers nHeight s).bind (selectAll mapDependers nHeight rounds)

def MinerState.start (c : Candidates Double) (view : CCoinsView) : MinerState Double where
  vecPriority := H.make_heap (TxPriorityCompare N (N.nBlockPrioritySize ≤ 0)) c.vecPriority
  vOrphan := c.vOrphan
  view := view
  vtx := []
  vTxFees := []
  vTxSigOps := []
  nBlockSize := 1000
  nBlockSigOps := 100
  nFees := 0
  fSortedByFee := N.nBlockPrioritySize ≤ 0
  vBlockSerials := []
  vTxSerials := []

/-- `CreateNewBlock`, with the pool and the coins of the tip: what it has taken from the pool. -/
def CreateNewBlock (mempool : CTxMemPool) (pcoinsTip : CCoinsView) : Option (MinerState Double) :=
  let nHeight := N.chainHeight + 1
  let c := mempool.txs.foldl (addCandidate N mempool pcoinsTip nHeight) ⟨[], fun _ => [], []⟩
  selectAll N H c.mapDependers nHeight (c.vecPriority.length + c.vOrphan.length)
    (.start N H c pcoinsTip)

end

end Divitae
