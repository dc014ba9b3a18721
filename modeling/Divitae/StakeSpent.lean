/-
# `StakeSpent` — the inputs spent lately, and the chain they were spent on

`mapStakeSpent` remembers what the blocks of the active chain have spent, and when.  A
connected block puts its inputs in and drops what is too old; a disconnected one takes
its inputs out.  The map is in memory only: a node that starts has none, and fills it by
connecting the last blocks once more in `VerifyDB`, which disconnects them from a scratch
view first.  That way back and forth goes through `ConnectBlock` and `DisconnectBlock`,
so through the map of the running node.
-/
import Divitae.ConnectTotals
import Divitae.DisconnectBlock

namespace Divitae

/-- `nMaxReorganizationDepth`, on every network. -/
def MaxReorganizationDepth : Nat := 100

/-! ## The map -/

/-- `map<COutPoint, int>`. -/
abbrev StakeSpent := COutPoint → Option Int

namespace StakeSpent

/-- `insert` keeps an entry that is there. -/
def insert (m : StakeSpent) (out : COutPoint) (nHeight : Int) : StakeSpent :=
  fun o => if o = out then some ((m out).getD nHeight) else m o

def erase (m : StakeSpent) (out : COutPoint) : StakeSpent := fun o => if o = out then none else m o

/-- `delete old entries`. -/
def deleteOld (m : StakeSpent) (nHeight : Int) : StakeSpent :=
  fun o => (m o).filter fun nSpent => !(nSpent < nHeight - MaxReorganizationDepth)

end StakeSpent

/-- The inputs `ConnectBlock` enters in the map. -/
def CBlock.spends (block : CBlock) : List COutPoint :=
  (block.vtx.filter takesCoins).flatMap fun tx => tx.vin.map CTxIn.prevout

/-- What `ConnectBlock` does to the map. -/
def StakeSpent.connect (m : StakeSpent) (block : CBlock) (nHeight : Int) : StakeSpent :=
  (block.spends.foldl (fun m out => m.insert out nHeight) m).deleteOld nHeight

/-! ## Blocks on and off the chain -/

structure ChainEntry where
  block : CBlock
  pindex : CBlockIndex

/-- The active chain, the tip first, with `pcoinsTip` and the map. -/
structure StakeChain where
  chainActive : List ChainEntry
  pcoinsTip : CCoinsView
  mapStakeSpent : StakeSpent

section
variable (N : CDisconnectNode)

/-- `ConnectBlock` with the map.  Nothing before the writes touches it, and a genesis
block returns before them. -/
def connectSpent (block : CBlock) (pindex pprev : CBlockIndex) (view : CCoinsView)
    (m : StakeSpent) (fAlreadyChecked : Bool) : Checked (Connected × StakeSpent) :=
  ConnectBlock N.toCConnectNode block pindex pprev view false fAlreadyChecked >>= fun c =>
  .ok (c, if block.hash = N.hashGenesisBlock then m else m.connect block pindex.nHeight)

/-- The inputs the loop of `DisconnectBlock` has restored when it ends or fails. -/
def restoredInputs (pindex : CBlockIndex) :
    List (CTransaction × List CTxInUndo) → CCoinsView → List COutPoint
  | [], _ => []
  | (tx, vprevout) :: rest, view =>
    match disconnectTxs N pindex ((tx, vprevout) :: rest) view with
    | .error _ => restoredInputs pindex rest view
    | .ok _ =>
      (if takesCoins tx then tx.vin.map CTxIn.prevout else []) ++ restoredInputs pindex rest view

/-- The inputs `DisconnectBlock` takes out of the map; the loop starts when the undo data
could be read and are of the block. -/
def erasedInputs (block : CBlock) (pindex pprev : CBlockIndex) (view : CCoinsView) :
    List COutPoint :=
  if pindex.phashBlock != some view.hashBlock then []
  else
    match pindex.undo.bind fun undo => ReadFromDisk N undo (pprev.phashBlock.getD 0) with
    | none => []
    | some vtxundo =>
      if vtxundo.length + 1 != block.vtx.length then []
      else restoredInputs N pindex (block.vtx.zip ([] :: vtxundo)) view

/-- The map `DisconnectBlock` leaves, also when it fails. -/
def disconnectSpent (block : CBlock) (pindex pprev : CBlockIndex) (view : CCoinsView)
    (m : StakeSpent) : StakeSpent :=
  (erasedInputs N block pindex pprev view).foldl StakeSpent.erase m

/-- `ConnectTip`.  An index entry is one higher than the one before it, and the genesis
block has none before it. -/
def ConnectTip (block : CBlock) (pindexNew : CBlockIndex) (fAlreadyChecked : Bool)
    (s : StakeChain) : StakeChain :=
  match s.chainActive with
  | [] => s
  | tip :: _ =>
    -- assert(pindexNew->pprev == chainActive.Tip())
    if pindexNew.nHeight ≠ tip.pindex.nHeight + 1 ∨ block.hash = N.hashGenesisBlock then s
    else
      match connectSpent N block pindexNew tip.pindex s.pcoinsTip s.mapStakeSpent
        fAlreadyChecked with
      | .error _ => s
      | .ok (c, m) => ⟨⟨block, c.pindex⟩ :: s.chainActive, c.view, m⟩

/-- `DisconnectTip`.  The view is thrown away when `DisconnectBlock` fails or is unclean. -/
def DisconnectTip (s : StakeChain) : StakeChain :=
  match s.chainActive with
  | tip :: prev :: rest =>
    let m := disconnectSpent N tip.block tip.pindex prev.pindex s.pcoinsTip s.mapStakeSpent
    match DisconnectBlock N tip.block tip.pindex prev.pindex s.pcoinsTip with
    | .ok (view, true) => ⟨prev :: rest, view, m⟩
    | _ => { s with mapStakeSpent := m }
  | _ => s

/-! ## `VerifyDB` -/

/-- How `VerifyDB` is called, and what it meets besides the blocks. -/
structure VerifyCall where
  nCheckLevel : Int
  nCheckDepth : Int
  /-- `ReadBlockFromDisk` -/
  readable : CBlockIndex → Bool
  /-- the coins of both views fit in `nCoinCacheSize` when the block is reached -/
  cacheFits : CBlockIndex → Bool
  /-- `ShutdownRequested()` behind the block -/
  shutdown : CBlockIndex → Bool

/-- The way back: the scratch view, the map, the blocks disconnected with the lowest
first, whether `pindex == pindexState`, and that there is no `pindexFailure`. -/
structure VerifyBack where
  coins : CCoinsView
  mapStakeSpent : StakeSpent
  undone : List ChainEntry
  atState : Bool
  fClean : Bool

variable (V : VerifyCall)

def undoReadable (pindex pprev : CBlockIndex) : Bool :=
  pindex.undo.all fun undo => (ReadFromDisk N undo (pprev.phashBlock.getD 0)).isSome

/-- One block of the way back; `false` for an error. -/
def verifyBlock (nCheckLevel : Int) (entry : ChainEntry) (pprev : CBlockIndex) (back : VerifyBack) :
    VerifyBack × Bool :=
  if !V.readable entry.pindex then (back, false)
  else if 1 ≤ nCheckLevel ∧ (CheckBlock N.toCNode entry.block true true).isOk = false then
    (back, false)
  else if 2 ≤ nCheckLevel ∧ undoReadable N entry.pindex pprev = false then (back, false)
  else if 3 ≤ nCheckLevel ∧ back.atState = true ∧ V.cacheFits entry.pindex = true then
    let m := disconnectSpent N entry.block entry.pindex pprev back.coins back.mapStakeSpent
    match DisconnectBlock N entry.block entry.pindex pprev back.coins with
    | .error _ => ({ back with mapStakeSpent := m }, false)
    | .ok (coins, fClean) => (⟨coins, m, entry :: back.undone, true, back.fClean && fClean⟩, true)
  else ({ back with atState := false }, true)

/-- The way back, and what `VerifyDB` returns if it ends there. -/
def verifyBack (nCheckLevel nStopHeight : Int) :
    List ChainEntry → VerifyBack → VerifyBack × Option Bool
  | entry :: prev :: rest, back =>
    if entry.pindex.nHeight < nStopHeight then (back, none)
    else
      match verifyBlock N V nCheckLevel entry prev.pindex back with
      | (back, false) => (back, some false)
      | (back, true) =>
        if V.shutdown entry.pindex then (back, some true)
        else verifyBack nCheckLevel nStopHeight (prev :: rest) back
  | _, back => (back, none)

/-- The way forth.  The blocks still to come are on the chain all the time. -/
def verifyForth : List ChainEntry → List ChainEntry → CCoinsView → StakeSpent →
    (List ChainEntry × StakeSpent) × Bool
  | [], chain, _, m => ((chain, m), true)
  | entry :: undone, chain, coins, m =>
    match chain.head? with
    | none => ((undone.reverse ++ entry :: chain, m), false)
    | some prev =>
      if !V.readable entry.pindex then ((undone.reverse ++ entry :: chain, m), false)
      else
        match connectSpent N entry.block entry.pindex prev.pindex coins m false with
        | .error _ => ((undone.reverse ++ entry :: chain, m), false)
        | .ok (c, m) => verifyForth undone (⟨entry.block, c.pindex⟩ :: chain) c.view m

/-- The height of the last block of the chain. -/
def StakeChain.Height (s : StakeChain) : Int :=
  s.chainActive.head?.elim (-1) fun e => e.pindex.nHeight

/-- The way back of `VerifyDB`. -/
def wayBack (s : StakeChain) : VerifyBack × Option Bool :=
  let nCheckDepth := if V.nCheckDepth ≤ 0 then 1000000000 else V.nCheckDepth
  let nCheckDepth := if nCheckDepth > s.Height then s.Height else nCheckDepth
  verifyBack N V (max 0 (min 4 V.nCheckLevel)) (s.Height - nCheckDepth) s.chainActive
    ⟨s.pcoinsTip, s.mapStakeSpent, [], true, true⟩

/-- `VerifyDB`, on the chain and the coins of the tip. -/
def VerifyDB (s : StakeChain) : StakeChain × Bool :=
  match wayBack N V s with
  | (back, some fVerified) => ({ s with mapStakeSpent := back.mapStakeSpent }, fVerified)
  | (back, none) =>
    if !back.fClean then ({ s with mapStakeSpent := back.mapStakeSpent }, false)
    else if 4 ≤ V.nCheckLevel then
      let forth := verifyForth N V back.undone (s.chainActive.drop back.undone.length) back.coins
        back.mapStakeSpent
      ({ s with chainActive := forth.1.1, mapStakeSpent := forth.1.2 }, forth.2)
    else ({ s with mapStakeSpent := back.mapStakeSpent }, true)

end

inductive ChainEvent where
  | connectTip (N : CDisconnectNode) (block : CBlock) (pindexNew : CBlockIndex)
      (fAlreadyChecked : Bool)
  | disconnectTip (N : CDisconnectNode)
  /-- the node starts on the chain it had: `LoadBlockIndex`, `VerifyDB` -/
  | startUp (N : CDisconnectNode) (V : VerifyCall)
  /-- `verifychain` -/
  | verifyChain (N : CDisconnectNode) (V : VerifyCall)

/-- The node as it starts: the map is empty. -/
def StakeChain.loaded (s : StakeChain) : StakeChain := { s with mapStakeSpent := fun _ => none }

def chainStep (s : StakeChain) : ChainEvent → StakeChain
  | .connectTip N block pindexNew fAlreadyChecked => ConnectTip N block pindexNew fAlreadyChecked s
  | .disconnectTip N => DisconnectTip N s
  | .startUp N V => (VerifyDB N V s.loaded).1
  | .verifyChain N V => (VerifyDB N V s).1

end Divitae
