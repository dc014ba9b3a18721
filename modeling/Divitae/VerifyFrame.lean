/-
# `VerifyFrame` — a verification leaves its traces

`VerifyDB` takes the last blocks off a scratch view and, at level 4, puts them on again.  It
uses the `DisconnectBlock` and `ConnectBlock` of the running node, and only the coins they work
on are scratch.  On the way back a block takes out of the node what it had entered:

    serials   out of the zerocoin database, and the wallet's own are unspent again
    coins     out of the zerocoin database
    inputs    out of `mapStakeSpent`

On the way forth `ConnectBlock` does all it does for a new block.  Both callers of `VerifyDB`
have set `fVerifyingBlocks`, so checksums are not erased on the way back.

`VerifyDB` checks "for inconsistencies during memory-only disconnect of tip blocks", so the
databases, `mapStakeSpent` and the wallet should be behind it what they were before.  Up to
level 2 they are.  From level 3 on the blocks that come off take out what they had entered, and
it comes back only with the blocks that are connected again:

    level 3, or a shutdown, or an error    none is
    level 4 to the end                     all are, but the wallet's coins stay unspent, and
                                           `mapStakeSpent` loses what is old for the last block

So a call keeps everything exactly when the last word on each record is what was there
(`Restored`).
-/
import Divitae.ConnectFrame
import Divitae.StakeSpentRuns

namespace Divitae

open Records Option ZerocoinWallet WalletNews

/-- What `DisconnectBlock` takes out besides the coins. -/
structure Undone where
  serials : List Int
  coins : List Int
  inputs : List COutPoint

section
variable (N : CDisconnectNode)

/-- The serials the loop of `DisconnectBlock` has erased when it ends or fails, in that
order. -/
def erasedSpends (pindex : CBlockIndex) :
    List (CTransaction × List CTxInUndo) → CCoinsView → List Int
  | [], _ => []
  | (tx, _) :: rest, view =>
    match disconnectTxs N pindex rest view with
    | .error _ => erasedSpends pindex rest view
    | .ok _ => erasedSpends pindex rest view ++ (erasedBy N tx).1

/-- What `DisconnectBlock` takes out, also when it fails. -/
def undoneBy (block : CBlock) (pindex pprev : CBlockIndex) (view : CCoinsView) : Undone where
  serials := erasedSpends N pindex (undoneTxs N block pindex pprev view) view
  coins := (erasedZerocoins N block pindex pprev view).2
  inputs := erasedInputs N block pindex pprev view

end

/-! ## The way back -/

def CSupplyNode.verifying (M : CSupplyNode) : CSupplyNode := { M with fVerifyingBlocks := true }

namespace PersistentState

/-- What is taken out leaves the node. -/
def undo (w : PersistentState) (u : Undone) : PersistentState :=
  { w with
    zerocoinDB := ⟨erase w.zerocoinDB.coinSpends u.serials, erase w.zerocoinDB.coinMints u.coins⟩
    mapStakeSpent := u.inputs.foldl StakeSpent.erase w.mapStakeSpent
    wallet := w.wallet.map fun wallet =>
      u.serials.foldl
        (fun wallet bnSerial =>
          if wallet.IsMyZerocoinSpend bnSerial then wallet.SetMintUnspent bnSerial else wallet)
        wallet }

/-- The way back: the scratch view, what the blocks have taken out, the blocks disconnected
with the lowest first, whether `pindex == pindexState`, and that there is no `pindexFailure`. -/
structure VerifyBack where
  coins : CCoinsView
  taken : List Undone
  undone : List uint256
  atState : Bool
  fClean : Bool

section
variable (M : CSupplyNode) (V : VerifyCall)

/-- One block of the way back; `false` for an error. -/
def verifyBlock (nCheckLevel : Int) (hash : uint256) (entry pprev : ChainEntry)
    (back : VerifyBack) :
    VerifyBack × Bool :=
  if !V.readable entry.pindex then (back, false)
  else if 1 ≤ nCheckLevel ∧ (CheckBlock M.toCNode entry.block true true).isOk = false then
    (back, false)
  else if 2 ≤ nCheckLevel ∧
      undoReadable M.toCDisconnectNode entry.pindex pprev.pindex = false then
    (back, false)
  else if 3 ≤ nCheckLevel ∧ back.atState = true ∧ V.cacheFits entry.pindex = true then
    let taken := back.taken ++
      [undoneBy M.toCDisconnectNode entry.block entry.pindex pprev.pindex back.coins]
    match DisconnectBlock M.toCDisconnectNode entry.block entry.pindex pprev.pindex back.coins with
    | .error _ => ({ back with taken := taken }, false)
    | .ok (coins, fClean) =>
      (⟨coins, taken, hash :: back.undone, true, back.fClean && fClean⟩, true)
  else ({ back with atState := false }, true)

/-- The way back, and what `VerifyDB` returns if it ends there. -/
def verifyBack (nCheckLevel nStopHeight : Int) :
    List (uint256 × ChainEntry) → VerifyBack → VerifyBack × Option Bool
  | (hash, entry) :: pprev :: rest, back =>
    if entry.pindex.nHeight < nStopHeight then (back, none)
    else
      match verifyBlock M V nCheckLevel hash entry pprev.2 back with
      | (back, false) => (back, some false)
      | (back, true) =>
        if V.shutdown entry.pindex then (back, some true)
        else verifyBack nCheckLevel nStopHeight (pprev :: rest) back
  | _, back => (back, none)

end

variable (M : CSupplyNode) (V : VerifyCall) (w : PersistentState)

def entries : List (uint256 × ChainEntry) :=
  w.chainActive.filterMap fun hash => (w.mapBlockIndex hash).map fun entry => (hash, entry)

/-- The way back of `VerifyDB`. -/
def wayBack (coinsview : CCoinsView) : VerifyBack × Option Bool :=
  let nCheckDepth := if V.nCheckDepth ≤ 0 then 1000000000 else V.nCheckDepth
  let nCheckDepth := if nCheckDepth > w.Height then w.Height else nCheckDepth
  verifyBack M V (max 0 (min 4 V.nCheckLevel)) (w.Height - nCheckDepth) w.entries
    ⟨coinsview, [], [], true, true⟩

/-! ## The way forth -/

def viewBehind (block : CBlock) (hash hashPrev : uint256) (view : CCoinsView) : CCoinsView :=
  match w.mapBlockIndex hash, w.mapBlockIndex hashPrev with
  | some entry, some pprev =>
    if block.hash = M.hashGenesisBlock then
      view.SetBestBlock (entry.pindex.phashBlock.getD 0)
    else
      match connectLoop (w.node M) block entry.pindex pprev.pindex view false false with
      | .error _ => view
      | .ok st => st.view.SetBestBlock (entry.pindex.phashBlock.getD 0)
  | _, _ => view

/-- The way forth, from the block with hash `hashPrev` on. -/
def verifyForth : List uint256 → uint256 → CCoinsView → PersistentState → PersistentState × Bool
  | [], _, _, w => (w, true)
  | hash :: undone, hashPrev, coins, w =>
    match w.mapBlockIndex hash with
    | none => (w, false)
    | some entry =>
      if !V.readable entry.pindex then (w, false)
      else
        match w.ConnectBlock M entry.block (.indexed hash) hashPrev coins false false with
        | (w', false) => (w', false)
        | (w', true) => verifyForth undone hash (w.viewBehind M entry.block hash hashPrev coins) w'

/-- Where the way forth begins: `pindexState`, if blocks were disconnected at level 4 and nothing
has stopped `VerifyDB`. -/
def wayForth (coinsview : CCoinsView) : Option uint256 :=
  match w.wayBack M V coinsview with
  | (_, some _) => none
  | (back, none) =>
    if back.fClean = true ∧ 4 ≤ V.nCheckLevel then
      (w.entries.drop back.undone.length).head?.map Prod.fst
    else none

/-- `VerifyDB`, with the node verifying. -/
def verify (coinsview : CCoinsView) : PersistentState × Bool :=
  let back := w.wayBack M V coinsview
  let behind := back.1.taken.foldl undo w
  match w.wayForth M V coinsview with
  | some hashState => verifyForth M V back.1.undone hashState back.1.coins behind
  | none => (behind, back.2.getD back.1.fClean)

/-- `CVerifyDB::VerifyDB`. -/
def VerifyDB (coinsview : CCoinsView) : PersistentState × Bool := w.verify M.verifying V coinsview

end PersistentState

open Overwrites Records

/-! ## What a block records on the way forth -/

/-- What `ConnectBlock` tells the wallet, writes to the databases, and enters in
`mapStakeSpent`. -/
structure Redone where
  news : List WalletNews
  spends : List (Int × uint256)
  mints : List (Int × uint256)
  checksums : List (Nat × Int)
  connected : List (CBlock × Int)

def Redone.none : Redone := ⟨[], [], [], [], []⟩

namespace PersistentState

def redo (w : PersistentState) (r : Redone) : PersistentState :=
  { w with
    mapStakeSpent := r.connected.foldl (fun m b => m.connect b.1 b.2) w.mapStakeSpent
    zerocoinDB := ⟨write w.zerocoinDB.coinSpends r.spends, write w.zerocoinDB.coinMints r.mints⟩
    accumulatorValues := write w.accumulatorValues r.checksums
    wallet := w.wallet.map fun wallet => r.news.foldl ZerocoinWallet.told wallet }

section
variable (M : CSupplyNode) (w : PersistentState)

/-- The writes that go through. -/
def redoneWrites (block : CBlock) (nHeight : Int) : Redone :=
  if !M.WriteUndo || !M.WriteCoinSpendBatch then .none
  else if !M.WriteCoinMintBatch then { Redone.none with spends := block.coinSpends M.Z }
  else
    { news := []
      spends := block.coinSpends M.Z
      mints := block.coinMints M.Z
      checksums := if w.Height < M.P.nBlockZerocoinV2 then [] else M.checksums block
      connected := if M.fTxIndex && !M.WriteTxIndex then [] else [(block, nHeight)] }

/-- The mints of the block, as the wallet is told of them. -/
def redoneNews (block : CBlock) (nHeight : Int) : List WalletNews :=
  (BlockToZerocoinMints (w.node M) (M.P.nBlockRecalculateAccumulators ≤ nHeight) block.vtx).map
    (WalletNews.seen (w.seed M) nHeight)

/-- What is recorded behind the recalculation. -/
def redoneFrom (block : CBlock) (ptr : PIndex) (pindex pprev : CBlockIndex) (st : ConnectState) :
    Redone :=
  let news := w.redoneNews M block pindex.nHeight
  match UpdateZDIVITSupply (w.node M) block pindex pprev with
  | .error _ => { Redone.none with news := news }
  | .ok counted =>
    let tracked := trackSupply counted pprev st
    if !w.valueChecks M block tracked pprev st then { Redone.none with news := news }
    else
      { ((w.tellWallet M block pindex.nHeight).set ptr block tracked).redoneWrites M block
          pindex.nHeight with news := news }

def redoneBehind (block : CBlock) (ptr : PIndex) (hashPrev : uint256) (nHeight : Int)
    (st : ConnectState) : Redone :=
  let w := w.recalculated M nHeight
  match w.get ptr, w.mapBlockIndex hashPrev with
  | some pindex, some pprev => w.redoneFrom M block ptr pindex pprev.pindex st
  | _, _ => .none

/-- What `ConnectBlock` records, also when it fails. -/
def redoneBy (block : CBlock) (ptr : PIndex) (hashPrev : uint256) (view : CCoinsView) : Redone :=
  match w.get ptr, w.mapBlockIndex hashPrev with
  | some pindex, some pprev =>
    if block.hash = M.hashGenesisBlock then .none
    else
      match connectLoop (w.node M) block pindex pprev.pindex view false false with
      | .error _ => .none
      | .ok st => w.redoneBehind M block ptr hashPrev pindex.nHeight st
  | _, _ => .none

/-- What the way forth records. -/
def redoneForth (V : VerifyCall) : List uint256 → uint256 → CCoinsView →
    PersistentState → List Redone
  | [], _, _, _ => []
  | hash :: undone, hashPrev, coins, w =>
    match w.mapBlockIndex hash with
    | none => []
    | some entry =>
      if !V.readable entry.pindex then []
      else
        w.redoneBy M entry.block (.indexed hash) hashPrev coins ::
          match w.ConnectBlock M entry.block (.indexed hash) hashPrev coins false false with
          | (_, false) => []
          | (w', true) => redoneForth V undone hash
            (w.viewBehind M entry.block hash hashPrev coins) w'

/-- What `VerifyDB` takes out. -/
def takenOut (V : VerifyCall) (coinsview : CCoinsView) : List Undone :=
  (w.wayBack M.verifying V coinsview).1.taken

/-- What it records again. -/
def recordedAgain (V : VerifyCall) (coinsview : CCoinsView) : List Redone :=
  let back := w.wayBack M.verifying V coinsview
  match w.wayForth M.verifying V coinsview with
  | some hashState =>
    redoneForth M.verifying V back.1.undone hashState back.1.coins (back.1.taken.foldl undo w)
  | none => []

end

/-- The records of `w'` are those of `w`. -/
structure SameRecords (w w' : PersistentState) : Prop where
  mapStakeSpent : w'.mapStakeSpent = w.mapStakeSpent
  zerocoinDB : w'.zerocoinDB = w.zerocoinDB
  accumulatorValues : w'.accumulatorValues = w.accumulatorValues
  wallet : w'.wallet = w.wallet

/-- An entry of `mapStakeSpent` behind the blocks that are connected again. -/
def entryBehind (out : COutPoint) (entry : Option Int)
    (connected : List (CBlock × Int)) : Option Int :=
  connected.foldl
    (fun entry b => (entry.or (if out ∈ b.1.spends then some b.2 else none)).filter fun nSpent =>
      !(nSpent < b.2 - MaxReorganizationDepth)) entry

/-- The last word on each record is what was there. -/
structure Restored (w : PersistentState) (us : List Undone) (rs : List Redone) : Prop where
  serials : ∀ bnSerial ∈ us.flatMap Undone.serials,
    bnSerial ∉ (rs.flatMap Redone.spends).map Prod.fst →
    w.zerocoinDB.coinSpends bnSerial = none
  spends : ∀ e ∈ lasts Prod.fst (rs.flatMap Redone.spends), w.zerocoinDB.coinSpends e.1 = some e.2
  coins : ∀ bnValue ∈ us.flatMap Undone.coins, bnValue ∉ (rs.flatMap Redone.mints).map Prod.fst →
    w.zerocoinDB.coinMints bnValue = none
  mints : ∀ e ∈ lasts Prod.fst (rs.flatMap Redone.mints), w.zerocoinDB.coinMints e.1 = some e.2
  checksums : ∀ e ∈ lasts Prod.fst (rs.flatMap Redone.checksums), w.accumulatorValues e.1 = some e.2
  inputs : ∀ out, entryBehind out
    (if out ∈ us.flatMap Undone.inputs then none else w.mapStakeSpent out)
      (rs.flatMap Redone.connected) = w.mapStakeSpent out
  generates : ∀ wallet, w.wallet = some wallet → ∀ n ∈ rs.flatMap Redone.news, ¬ wallet.Generates n
  wallet : ∀ wallet, w.wallet = some wallet →
    ∀ n ∈ lasts WalletNews.key
      ((us.flatMap Undone.serials).map WalletNews.unspent ++ rs.flatMap Redone.news), wallet.Known n

/-! ## The records of a block -/

namespace SameRecords

variable {a b c : PersistentState}

theorem refl (a : PersistentState) : SameRecords a a := ⟨rfl, rfl, rfl, rfl⟩

theorem trans (hab : SameRecords a b) (hbc : SameRecords b c) : SameRecords a c :=
  ⟨hbc.mapStakeSpent.trans hab.mapStakeSpent, hbc.zerocoinDB.trans hab.zerocoinDB,
    hbc.accumulatorValues.trans hab.accumulatorValues, hbc.wallet.trans hab.wallet⟩

theorem redo (h : SameRecords a b) (r : Redone) : SameRecords (a.redo r) (b.redo r) := by
  refine ⟨?_, ?_, ?_, ?_⟩
  · show r.connected.foldl _ b.mapStakeSpent = r.connected.foldl _ a.mapStakeSpent
    rw [h.mapStakeSpent]
  · show ZerocoinDB.mk (write b.zerocoinDB.coinSpends _) (write b.zerocoinDB.coinMints _) = _
    rw [h.zerocoinDB]
    rfl
  · show write b.accumulatorValues _ = write a.accumulatorValues _
    rw [h.accumulatorValues]
  · show b.wallet.map _ = a.wallet.map _
    rw [h.wallet]

theorem foldl_redo (h : SameRecords a b) (rs : List Redone) :
    SameRecords (rs.foldl PersistentState.redo a) (rs.foldl PersistentState.redo b) := by
  induction rs generalizing a b with
  | nil => exact h
  | cons r rs ih => exact ih (h.redo r)

end SameRecords

section
variable {M : CSupplyNode} {w : PersistentState} {block : CBlock} {ptr : PIndex}
  {hashPrev : uint256} {st : ConnectState}

theorem redo_none (w : PersistentState) : SameRecords (w.redo .none) w := by
  refine ⟨rfl, rfl, rfl, ?_⟩
  show w.wallet = w.wallet.map fun wallet => wallet
  rw [map_id']

theorem redo_news (r : Redone) (news : List WalletNews) :
    SameRecords (w.redo { r with news := news })
      (({ w with wallet := w.wallet.map fun wallet => news.foldl told wallet } :
        PersistentState).redo { r with news := [] }) := by
  refine ⟨rfl, rfl, rfl, ?_⟩
  show (w.wallet.map _).map (fun wallet => wallet) = w.wallet.map _
  rw [map_id']

theorem DatabaseChecksums_redo (M : CSupplyNode) (s : PersistentState) (block : CBlock) :
    (s.DatabaseChecksums M block).accumulatorValues = write s.accumulatorValues
      (if s.Height < M.P.nBlockZerocoinV2 then [] else M.checksums block) := by
  rw [DatabaseChecksums]
  split_ifs <;> rfl

theorem connectWrites_redo (s : PersistentState) (nHeight : Int) (hqueues : Queues M.Z block st) :
    SameRecords (s.redo (s.redoneWrites M block nHeight))
      (s.connectWrites M block nHeight st).1 := by
  rw [redoneWrites, connectWrites]
  cases M.WriteUndo with
  | false => exact redo_none s
  | true =>
  cases M.WriteCoinSpendBatch with
  | false => exact redo_none s
  | true =>
  cases M.WriteCoinMintBatch with
  | false =>
    refine ⟨rfl, ?_, rfl, (redo_none s).wallet⟩
    rw [ZerocoinDB.WriteCoinSpendBatch, hqueues.spends]
    rfl
  | true =>
    have hrest : ∀ t : PersistentState,
      (t.DatabaseChecksums M block).mapStakeSpent = t.mapStakeSpent ∧
        (t.DatabaseChecksums M block).zerocoinDB = t.zerocoinDB ∧
        (t.DatabaseChecksums M block).wallet = t.wallet := by
      intro t
      rw [DatabaseChecksums]
      split_ifs <;> exact ⟨rfl, rfl, rfl⟩
    obtain ⟨hspent, hdb, hwallet⟩ := hrest { s with zerocoinDB :=
      (s.zerocoinDB.WriteCoinSpendBatch st.vSpends).WriteCoinMintBatch st.vMints }
    have hsums := DatabaseChecksums_redo M { s with zerocoinDB :=
      (s.zerocoinDB.WriteCoinSpendBatch st.vSpends).WriteCoinMintBatch st.vMints } block
    have hbatches : (s.zerocoinDB.WriteCoinSpendBatch st.vSpends).WriteCoinMintBatch st.vMints =
        ⟨write s.zerocoinDB.coinSpends (block.coinSpends M.Z),
          write s.zerocoinDB.coinMints (block.coinMints M.Z)⟩ := by
      rw [ZerocoinDB.WriteCoinMintBatch, ZerocoinDB.WriteCoinSpendBatch, hqueues.spends,
        hqueues.mints]
    cases M.fTxIndex && !M.WriteTxIndex with
    | true => exact ⟨hspent, hdb.trans hbatches, hsums, hwallet.trans (redo_none s).wallet⟩
    | false =>
      exact ⟨congrArg (StakeSpent.connect · block nHeight) hspent, hdb.trans hbatches, hsums,
        hwallet.trans (redo_none s).wallet⟩

theorem tellWallet_redo (M : CSupplyNode) (w : PersistentState) (block : CBlock) (nHeight : Int) :
    w.tellWallet M block nHeight =
      { w with
        wallet := w.wallet.map fun wallet =>
          (w.redoneNews M block nHeight).foldl told wallet } := by
  rw [tellWallet]
  congr 2
  funext wallet
  exact recordMints_eq_told _ _ _ _

theorem set_same (w : PersistentState) (ptr : PIndex) (block : CBlock) (pindex : CBlockIndex) :
    SameRecords w (w.set ptr block pindex) := by
  obtain ⟨-, hspent, hdb, hsums, hwallet⟩ := set_rest w ptr block pindex
  exact ⟨hspent, hdb, hsums, hwallet⟩

theorem told_redo (M : CSupplyNode) (w : PersistentState) (block : CBlock) (ptr : PIndex)
    (pindex : CBlockIndex) (nHeight : Int) (r : Redone) (hnews : r.news = []) :
    SameRecords (w.redo { r with news := w.redoneNews M block nHeight })
      (((w.tellWallet M block nHeight).set ptr block pindex).redo r) := by
  have hr : { r with news := [] } = r := by
    rw [← hnews]
  refine (redo_news r (w.redoneNews M block nHeight)).trans ?_
  rw [hr, ← tellWallet_redo]
  exact (set_same _ ptr block pindex).redo r

theorem redoneWrites_news (s : PersistentState) (nHeight : Int) :
    (s.redoneWrites M block nHeight).news = [] := by
  rw [redoneWrites]
  split_ifs <;> rfl

theorem connectFrom_redo (pindex pprev : CBlockIndex) (hqueues : Queues M.Z block st) :
    SameRecords (w.redo (w.redoneFrom M block ptr pindex pprev st))
      (w.connectFrom M block ptr pindex pprev false st).1 := by
  rw [redoneFrom, connectFrom]
  cases UpdateZDIVITSupply (w.node M) block pindex pprev with
  | error reason => exact (told_redo M w block ptr _ pindex.nHeight .none rfl).trans (redo_none _)
  | ok counted =>
    dsimp only
    cases w.valueChecks M block (trackSupply counted pprev st) pprev st with
    | false => exact (told_redo M w block ptr _ pindex.nHeight .none rfl).trans (redo_none _)
    | true =>
      have htold := told_redo M w block ptr (trackSupply counted pprev st) pindex.nHeight
        (((w.tellWallet M block pindex.nHeight).set ptr block
          (trackSupply counted pprev st)).redoneWrites M block pindex.nHeight)
        (redoneWrites_news _ _)
      exact htold.trans (connectWrites_redo _ pindex.nHeight hqueues)

theorem recalculated_same (M : CSupplyNode) (w : PersistentState) (nHeight : Int) :
    SameRecords w (w.recalculated M nHeight) := by
  obtain ⟨-, hspent, hdb, hsums, hwallet⟩ := recalculated_rest M w nHeight
  exact ⟨hspent, hdb, hsums, hwallet⟩

/-- **`ConnectBlock` records what is redone.** -/
theorem ConnectBlock_redo (M : CSupplyNode) (w : PersistentState) (block : CBlock) (ptr : PIndex)
    (hashPrev : uint256) (view : CCoinsView) :
    SameRecords (w.redo (w.redoneBy M block ptr hashPrev view))
      (w.ConnectBlock M block ptr hashPrev view false false).1 := by
  rw [redoneBy, PersistentState.ConnectBlock]
  cases w.get ptr with
  | none => exact redo_none w
  | some pindex =>
  cases w.mapBlockIndex hashPrev with
  | none => exact redo_none w
  | some pprev =>
  dsimp only
  split_ifs with hgenesis
  · exact redo_none w
  cases hloop : connectLoop (w.node M) block pindex pprev.pindex view false false with
  | error reason => exact redo_none w
  | ok st =>
    have hqueues : Queues M.Z block st := connectLoop_queues (N := w.node M) ⟨rfl, rfl⟩ hloop
    dsimp only
    rw [redoneBehind, connectBehind]
    have hsame := recalculated_same M w pindex.nHeight
    cases (w.recalculated M pindex.nHeight).get ptr with
    | none => exact (redo_none w).trans hsame
    | some pindex₁ =>
      cases (w.recalculated M pindex.nHeight).mapBlockIndex hashPrev with
      | none => exact (redo_none w).trans hsame
      | some pprev₁ =>
        exact (hsame.redo _).trans (connectFrom_redo pindex₁ pprev₁.pindex hqueues)

end

theorem verifyForth_redo (M : CSupplyNode) (V : VerifyCall) : ∀ (undone : List uint256)
    (hashPrev : uint256) (coins : CCoinsView) (w : PersistentState),
    SameRecords ((redoneForth M V undone hashPrev coins w).foldl redo w)
      (verifyForth M V undone hashPrev coins w).1
  | [], _, _, w => .refl w
  | hash :: undone, hashPrev, coins, w => by
    rw [redoneForth, verifyForth]
    cases w.mapBlockIndex hash with
    | none => exact .refl w
    | some entry =>
    dsimp only
    cases V.readable entry.pindex with
    | false => exact .refl w
    | true =>
      have hblock := ConnectBlock_redo M w entry.block (.indexed hash) hashPrev coins
      cases hcall : w.ConnectBlock M entry.block (.indexed hash) hashPrev coins false false with
      | mk w' fConnected =>
      rw [hcall] at hblock
      cases fConnected with
      | false => exact hblock
      | true =>
        exact (hblock.foldl_redo _).trans (verifyForth_redo M V undone hash
          (w.viewBehind M entry.block hash hashPrev coins) w')

theorem VerifyDB_redo (M : CSupplyNode) (V : VerifyCall) (w : PersistentState)
    (coinsview : CCoinsView) :
    SameRecords ((w.recordedAgain M V coinsview).foldl redo
        ((w.takenOut M V coinsview).foldl undo w))
      (w.VerifyDB M V coinsview).1 := by
  rw [VerifyDB, verify, recordedAgain, takenOut]
  cases w.wayForth M.verifying V coinsview with
  | none => exact .refl _
  | some hashState => exact verifyForth_redo M.verifying V _ hashState _ _

/-! ## Record by record -/

theorem foldl_undo_zerocoinDB (us : List Undone) : ∀ w : PersistentState,
    (us.foldl undo w).zerocoinDB = ⟨erase w.zerocoinDB.coinSpends (us.flatMap Undone.serials),
      erase w.zerocoinDB.coinMints (us.flatMap Undone.coins)⟩ := by
  induction us with
  | nil =>
    intro w
    show w.zerocoinDB = ⟨erase _ [], erase _ []⟩
    rw [erase_nil, erase_nil]
  | cons u us ih =>
    intro w
    show (us.foldl undo (w.undo u)).zerocoinDB = _
    rw [ih, List.flatMap_cons, List.flatMap_cons, ← erase_erase, ← erase_erase]
    rfl

theorem foldl_undo_mapStakeSpent (us : List Undone) : ∀ w : PersistentState,
    (us.foldl undo w).mapStakeSpent =
      (us.flatMap Undone.inputs).foldl StakeSpent.erase w.mapStakeSpent := by
  induction us with
  | nil => exact fun w => rfl
  | cons u us ih =>
    intro w
    show (us.foldl undo (w.undo u)).mapStakeSpent = _
    rw [ih, List.flatMap_cons, List.foldl_append]
    rfl

theorem foldl_undo_accumulatorValues (us : List Undone) : ∀ w : PersistentState,
    (us.foldl undo w).accumulatorValues = w.accumulatorValues := by
  induction us with
  | nil => exact fun w => rfl
  | cons u us ih => exact fun w => ih (w.undo u)

theorem undo_wallet (w : PersistentState) (u : Undone) : (w.undo u).wallet =
    w.wallet.map fun wallet =>
      (u.serials.map WalletNews.unspent).foldl told wallet := by
  show w.wallet.map _ = _
  congr 1
  funext wallet
  rw [List.foldl_map]
  rfl

theorem foldl_undo_wallet (us : List Undone) : ∀ w : PersistentState,
    (us.foldl undo w).wallet = w.wallet.map fun wallet =>
      ((us.flatMap Undone.serials).map WalletNews.unspent).foldl told wallet := by
  induction us with
  | nil =>
    intro w
    exact map_id'.symm
  | cons u us ih =>
    intro w
    show (us.foldl undo (w.undo u)).wallet = _
    rw [ih, undo_wallet, map_map, List.flatMap_cons, List.map_append]
    congr 1
    funext wallet
    exact (List.foldl_append).symm

section
variable (rs : List Redone)
include rs

theorem foldl_redo_zerocoinDB : ∀ w : PersistentState,
    (rs.foldl redo w).zerocoinDB = ⟨write w.zerocoinDB.coinSpends (rs.flatMap Redone.spends),
      write w.zerocoinDB.coinMints (rs.flatMap Redone.mints)⟩ := by
  induction rs with
  | nil => exact fun w => rfl
  | cons r rs ih =>
    intro w
    show (rs.foldl redo (w.redo r)).zerocoinDB = _
    rw [ih, List.flatMap_cons, List.flatMap_cons, write_append, write_append]
    rfl

theorem foldl_redo_accumulatorValues : ∀ w : PersistentState,
    (rs.foldl redo w).accumulatorValues =
      write w.accumulatorValues (rs.flatMap Redone.checksums) := by
  induction rs with
  | nil => exact fun w => rfl
  | cons r rs ih =>
    intro w
    show (rs.foldl redo (w.redo r)).accumulatorValues = _
    rw [ih, List.flatMap_cons, write_append]
    rfl

theorem foldl_redo_mapStakeSpent (out : COutPoint) : ∀ w : PersistentState,
    (rs.foldl redo w).mapStakeSpent out =
      entryBehind out (w.mapStakeSpent out) (rs.flatMap Redone.connected) := by
  have hblocks : ∀ (connected : List (CBlock × Int)) (m : StakeSpent),
      connected.foldl (fun m b => m.connect b.1 b.2) m out = entryBehind out (m out) connected := by
    intro connected
    induction connected with
    | nil => exact fun m => rfl
    | cons b connected ih =>
      intro m
      show connected.foldl (fun m b => m.connect b.1 b.2) (m.connect b.1 b.2) out = _
      rw [ih, StakeSpent.connect_apply]
      rfl
  induction rs with
  | nil => exact fun w => rfl
  | cons r rs ih =>
    intro w
    show (rs.foldl redo (w.redo r)).mapStakeSpent out = _
    rw [ih, List.flatMap_cons, entryBehind, entryBehind, List.foldl_append]
    congr 1
    exact hblocks r.connected w.mapStakeSpent

theorem foldl_redo_wallet : ∀ w : PersistentState,
    (rs.foldl redo w).wallet = w.wallet.map fun wallet =>
      (rs.flatMap Redone.news).foldl told wallet := by
  induction rs with
  | nil =>
    intro w
    exact map_id'.symm
  | cons r rs ih =>
    intro w
    show (rs.foldl redo (w.redo r)).wallet = _
    rw [ih, List.flatMap_cons]
    show (w.wallet.map _).map _ = _
    rw [map_map]
    congr 1
    funext wallet
    rw [List.foldl_append]
    rfl

end

theorem redone_same_iff (w : PersistentState) (us : List Undone) (rs : List Redone) :
    SameRecords w (rs.foldl redo (us.foldl undo w)) ↔ Restored w us rs := by
  have hdb : (rs.foldl redo (us.foldl undo w)).zerocoinDB =
      ⟨write (erase w.zerocoinDB.coinSpends (us.flatMap Undone.serials)) (rs.flatMap Redone.spends),
        write (erase w.zerocoinDB.coinMints (us.flatMap Undone.coins))
          (rs.flatMap Redone.mints)⟩ := by
    rw [foldl_redo_zerocoinDB, foldl_undo_zerocoinDB]
  have hsums : (rs.foldl redo (us.foldl undo w)).accumulatorValues =
      write w.accumulatorValues (rs.flatMap Redone.checksums) := by
    rw [foldl_redo_accumulatorValues, foldl_undo_accumulatorValues]
  have hspent : ∀ out, (rs.foldl redo (us.foldl undo w)).mapStakeSpent out = entryBehind out
      (if out ∈ us.flatMap Undone.inputs then none else w.mapStakeSpent out)
        (rs.flatMap Redone.connected) := by
    intro out
    rw [foldl_redo_mapStakeSpent, foldl_undo_mapStakeSpent, StakeSpent.foldl_erase]
  have hwallet : (rs.foldl redo (us.foldl undo w)).wallet = w.wallet.map fun wallet =>
      ((us.flatMap Undone.serials).map WalletNews.unspent ++ rs.flatMap Redone.news).foldl
        told wallet := by
    rw [foldl_redo_wallet, foldl_undo_wallet, map_map]
    congr 1
    funext wallet
    exact (List.foldl_append).symm
  have hunspent : ∀ (wallet : ZerocoinWallet) (l : List Int), ∀ n ∈ l.map WalletNews.unspent,
      ¬ wallet.Generates n := by
    intro wallet l n hn
    obtain ⟨bnSerial, -, rfl⟩ := List.mem_map.mp hn
    exact fun h => h
  constructor
  · rintro ⟨hs, hz, ha, hw⟩
    rw [hdb] at hz
    rw [hsums] at ha
    rw [hwallet] at hw
    obtain ⟨hserials, hspends⟩ := write_erase_eq_self_iff.mp (congrArg ZerocoinDB.coinSpends hz)
    obtain ⟨hcoins, hmints⟩ := write_erase_eq_self_iff.mp (congrArg ZerocoinDB.coinMints hz)
    have htold : ∀ wallet, w.wallet = some wallet →
        ((us.flatMap Undone.serials).map WalletNews.unspent ++ rs.flatMap Redone.news).foldl
          told wallet = wallet := by
      intro wallet h
      rw [h] at hw
      exact some.inj hw
    refine ⟨hserials, hspends, hcoins, hmints, write_eq_self_iff.mp ha, ?_, ?_, ?_⟩
    · intro out
      rw [← hspent, hs]
    · intro wallet h n hn
      exact ((told_eq_self_iff wallet _).mp (htold wallet h)).1 n (List.mem_append_right _ hn)
    · intro wallet h
      exact ((told_eq_self_iff wallet _).mp (htold wallet h)).2
  · rintro ⟨hserials, hspends, hcoins, hmints, hchecksums, hinputs, hgenerates, hknown⟩
    refine ⟨?_, ?_, ?_, ?_⟩
    · funext out
      rw [hspent, hinputs]
    · rw [hdb, write_erase_eq_self_iff.mpr ⟨hserials, hspends⟩,
        write_erase_eq_self_iff.mpr ⟨hcoins, hmints⟩]
    · rw [hsums, write_eq_self_iff.mpr hchecksums]
    · rw [hwallet]
      cases h : w.wallet with
      | none => rfl
      | some wallet =>
        refine congrArg some ((told_eq_self_iff wallet _).mpr ⟨?_, hknown wallet h⟩)
        intro n hn
        rcases List.mem_append.mp hn with hn | hn
        · exact hunspent wallet _ n hn
        · exact hgenerates wallet h n hn

section
open ZerocoinChain (zerocoinNode firstSpend)

/-- The block with the spend of serial 5, as `ConnectBlock` has left it. -/
def spentEntry : ChainEntry where
  block := firstSpend
  pindex :=
    { quietTip 1000001 with
      phashBlock := some 101
      undo := some ([3, 1, 20, 1, 9, 6, 0, 1, 128, 243, 145, 4, 1, 9, 7, 1], 0) }

/-- The coins behind it: the coin of the spend has moved on. -/
def spentCoins : CCoinsView where
  coins txid :=
    if txid = 8 then ⟨false, false, [⟨COIN, []⟩], 5, 1⟩
    else if txid = 300 then .null
    else
      match firstSpend.vtx.find? fun tx => tx.hash == txid with
      | some tx => CCoins.FromTx tx 1000001
      | none => .null
  hashBlock := 101

def spentState : PersistentState where
  mapBlockIndex hash :=
    if hash = 101 then some spentEntry
    else if hash = 100 then some ⟨⟨100, 5, 0, 1700000000, [], []⟩, quietTip 1000000⟩
    else none
  chainActive := [101, 100]
  mapStakeSpent _ := none
  zerocoinDB := ⟨fun bnSerial => if bnSerial = 5 then some 300 else none, fun _ => none⟩
  accumulatorValues _ := none
  wallet := none

def spentNode : CSupplyNode :=
  { supplyNode with
    toCZerocoinNode := { zerocoinNode true 101 1000001 with
      mapBlockIndex := fun hash =>
        if hash = 101 then some 1000001 else if hash = 100 then some 1000000 else none } }

/-- `verifychain`, with or without a request to shut down. -/
def verifychain (fShutdown : Bool) : VerifyCall where
  nCheckLevel := 4
  nCheckDepth := 6
  readable _ := true
  cacheFits _ := true
  shutdown _ := fShutdown

end

end PersistentState

end Divitae
