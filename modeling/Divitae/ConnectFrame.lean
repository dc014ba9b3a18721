/-
# `ConnectFrame` — a call that connects nothing leaves something

"Nothing before this point should actually store to disk (or even memory)": a call of
`ConnectBlock` that only checks, and one that fails, should leave the state as it was.  A
call that fails before the end of the loop over the transactions does.  Behind the loop
the wallet is told of the mints, and the supplies of the entry are written, whatever comes
of the call; and a write to a database that fails comes after writes that have gone
through.  So a call from behind the loop leaves the state as it was exactly when what it
writes is there already (`Stands`):

    recalculation   the entries of the chain have the numbers it finds
    entry           the block's entry has the numbers it gets
    wallet          the mints of the wallet's are recorded, and none is from the pool
    writes          serials and mints written before the failure are recorded
-/
import Divitae.ConnectEffects
import Divitae.MintRuns
import Divitae.WalletNews

namespace Divitae

open Overwrites Records Wrap Option Function

/-- The supply and accumulator fields of an entry. -/
structure Figures where
  nMoneySupply : CAmount
  mapZerocoinSupply : CoinDenomination → Int
  vMintDenominationsInBlock : List CoinDenomination
  nMint : CAmount
  nAccumulatorCheckpoint : uint256

def CBlockIndex.figures (pindex : CBlockIndex) : Figures :=
  ⟨pindex.nMoneySupply, pindex.mapZerocoinSupply, pindex.vMintDenominationsInBlock, pindex.nMint,
    pindex.nAccumulatorCheckpoint⟩

namespace PersistentState

def figures (w : PersistentState) (hash : uint256) : Option Figures :=
  (w.mapBlockIndex hash).map fun entry => entry.pindex.figures

/-- The state `w'` has what `w` had. -/
structure Kept (w w' : PersistentState) : Prop where
  mapStakeSpent : w'.mapStakeSpent = w.mapStakeSpent
  zerocoinDB : w'.zerocoinDB = w.zerocoinDB
  accumulatorValues : w'.accumulatorValues = w.accumulatorValues
  wallet : w'.wallet = w.wallet
  figures : ∀ hash, w'.figures hash = w.figures hash

/-! ## When it is -/

/-- The entry `pindex` has the numbers that the one the call works on, `pindex₁`, gets
behind the loop. -/
structure EntryStands (N : CConnectNode) (block : CBlock) (pindex₁ pprev₁ : CBlockIndex)
    (st : ConnectState) (pindex : CBlockIndex) : Prop where
  mints : pindex.vMintDenominationsInBlock = BlockToZerocoinMintList N
    (N.P.nBlockRecalculateAccumulators ≤ pindex₁.nHeight) block.vtx
  supply : pindex.mapZerocoinSupply = (supplyInPlace N block pindex₁ pprev₁).mapZerocoinSupply
  money : pindex.nMoneySupply =
    if (UpdateZDIVITSupply N block pindex₁ pprev₁).isOk then
      wrap64 (wrap64 (pprev₁.nMoneySupply + st.nValueOut) - st.nValueIn)
    else pindex₁.nMoneySupply
  minted : pindex.nMint =
    if (UpdateZDIVITSupply N block pindex₁ pprev₁).isOk then
      wrap64 (wrap64 (pindex.nMoneySupply - pprev₁.nMoneySupply) + st.nFees)
    else pindex₁.nMint

/-- The wallet is told nothing new. -/
def WalletStands (seed : MintSeed) (nHeight : Int) (wallet : ZerocoinWallet)
    (listMints : List BlockMint) : Prop :=
  (∀ m ∈ listMints, ¬ ZerocoinWallet.FromPool seed wallet m) ∧
    ∀ m ∈ lasts BlockMint.value listMints, ZerocoinWallet.Recorded nHeight wallet m

/-- The batches written before the one that fails are recorded. -/
structure WritesStand (M : CSupplyNode) (w : PersistentState) (block : CBlock) : Prop where
  spends : ∀ e ∈ lasts Prod.fst (block.coinSpends M.Z), w.zerocoinDB.coinSpends e.1 = some e.2
  mints : M.WriteCoinMintBatch = true →
    ∀ e ∈ lasts Prod.fst (block.coinMints M.Z), w.zerocoinDB.coinMints e.1 = some e.2
  checksums : M.WriteCoinMintBatch = true → M.P.nBlockZerocoinV2 ≤ w.Height →
    ∀ e ∈ lasts Prod.fst (M.checksums block), w.accumulatorValues e.1 = some e.2

/-- What a call from behind the loop writes is there already. -/
structure Stands (M : CSupplyNode) (w : PersistentState) (block : CBlock) (ptr : PIndex)
    (hashPrev : uint256) (pindex : CBlockIndex) (fJustCheck : Bool) (st : ConnectState) : Prop where
  recalculation : ∀ hash, ptr ≠ .indexed hash →
    (w.recalculated M pindex.nHeight).figures hash = w.figures hash
  entry : ∀ hash, ptr = .indexed hash → ∀ pindex₁ pprev₁,
    (w.recalculated M pindex.nHeight).get ptr = some pindex₁ →
    (w.recalculated M pindex.nHeight).mapBlockIndex hashPrev = some pprev₁ →
      EntryStands (w.node M) block pindex₁ pprev₁.pindex st pindex
  wallet : ∀ wallet, w.wallet = some wallet →
    WalletStands (w.seed M) pindex.nHeight wallet
      (BlockToZerocoinMints (w.node M) (M.P.nBlockRecalculateAccumulators ≤
        pindex.nHeight) block.vtx)
  writes : fJustCheck = false → M.WriteUndo = true → M.WriteCoinSpendBatch = true →
    ∀ pindex₁ pprev₁ counted, (w.recalculated M pindex.nHeight).get ptr = some pindex₁ →
      (w.recalculated M pindex.nHeight).mapBlockIndex hashPrev = some pprev₁ →
      UpdateZDIVITSupply (w.node M) block pindex₁ pprev₁.pindex = .ok counted →
      w.valueChecks M block (trackSupply counted pprev₁.pindex st) pprev₁.pindex st = true →
        WritesStand M w block

/-- The condition on a call: it does not get behind the loop, or what it writes there is
there already. -/
def Harmless (M : CSupplyNode) (w : PersistentState) (block : CBlock) (ptr : PIndex)
    (hashPrev : uint256) (view : CCoinsView) (fJustCheck fAlreadyChecked : Bool) : Prop :=
  block.hash ≠ M.hashGenesisBlock → ∀ pindex pprev st, w.get ptr = some pindex →
    w.mapBlockIndex hashPrev = some pprev →
    connectLoop (w.node M) block pindex pprev.pindex view fJustCheck fAlreadyChecked = .ok st →
      Stands M w block ptr hashPrev pindex fJustCheck st

/-! ## The recalculation -/

/-- The entries are the same but for the numbers that are recalculated. -/
def Refigured (entry entry' : ChainEntry) : Prop :=
  entry' = ⟨entry.block, { entry.pindex with
    nMoneySupply := entry'.pindex.nMoneySupply
    mapZerocoinSupply := entry'.pindex.mapZerocoinSupply
    vMintDenominationsInBlock := entry'.pindex.vMintDenominationsInBlock }⟩

def RefiguredAt (index index' : uint256 → Option ChainEntry) (hash : uint256) : Prop :=
  (index hash = none ∧ index' hash = none) ∨
    ∃ entry entry', index hash = some entry ∧ index' hash = some entry' ∧ Refigured entry entry'

theorem Refigured.refl (entry : ChainEntry) : Refigured entry entry := rfl

theorem Refigured.trans {a b c : ChainEntry} (hab : Refigured a b) (hbc : Refigured b c) :
    Refigured a c := by
  rw [hab] at hbc
  exact hbc

theorem RefiguredAt.of_eq {index index' : uint256 → Option ChainEntry} {hash : uint256}
    (h : index' hash = index hash) : RefiguredAt index index' hash := by
  cases hentry : index hash with
  | none => exact .inl ⟨hentry, h.trans hentry⟩
  | some entry => exact .inr ⟨entry, entry, hentry, h.trans hentry, .refl entry⟩

theorem RefiguredAt.trans {a b c : uint256 → Option ChainEntry} {hash : uint256}
    (hab : RefiguredAt a b hash) (hbc : RefiguredAt b c hash) : RefiguredAt a c hash := by
  rcases hab with ⟨ha, hb⟩ | ⟨entry, entry', ha, hb, h⟩
  · rcases hbc with ⟨-, hc⟩ | ⟨e, -, he, -, -⟩
    · exact .inl ⟨ha, hc⟩
    · rw [hb] at he
      cases he
  · rcases hbc with ⟨hnone, -⟩ | ⟨e, e', he, hc, h'⟩
    · rw [hb] at hnone
      cases hnone
    · obtain rfl : entry' = e := some.inj (hb.symm.trans he)
      exact .inr ⟨entry, e', ha, hc, h.trans h'⟩

theorem RefiguredAt.update {index : uint256 → Option ChainEntry} {first : uint256}
    {entry entry' : ChainEntry} (hentry : index first = some entry) (h : Refigured entry entry')
    (hash : uint256) : RefiguredAt index (Function.update index first (some entry')) hash := by
  rcases eq_or_ne hash first with rfl | hne
  · exact .inr ⟨entry, entry', hentry, update_self _ _ _, h⟩
  · exact .of_eq (update_of_ne hne _ _)

theorem recalculate_refigures (N : CConnectNode) (index : uint256 → Option ChainEntry) :
    ∀ (chain : List uint256) (hash : uint256), RefiguredAt index (recalculate N index chain) hash
  | [], _ => .of_eq rfl
  | first :: below, hash => by
    have hbelow := recalculate_refigures N index below
    rw [recalculate]
    split
    case h_2 => exact hbelow hash
    case h_1 entry prev hentry _ =>
      split_ifs
      · exact hbelow hash
      · refine (hbelow hash).trans (.update hentry ?_ hash)
        rfl

theorem RecalculateVITSupply_refigures (M : CSupplyNode) (index : uint256 → Option ChainEntry) :
    ∀ (chain : List uint256) (hash : uint256),
      RefiguredAt index (RecalculateVITSupply M index chain).1 hash
  | [], _ => .of_eq rfl
  | first :: below, hash => by
    have hbelow := RecalculateVITSupply_refigures M index below
    rw [RecalculateVITSupply]
    dsimp only
    split
    case h_1 => exact hbelow hash
    case h_2 entry hentry =>
      split_ifs
      · exact hbelow hash
      · refine (hbelow hash).trans (.update hentry ?_ hash)
        rfl
      · refine (hbelow hash).trans (.update hentry ?_ hash)
        rfl

variable {M : CSupplyNode} {w : PersistentState} {block : CBlock} {ptr : PIndex}
  {hashPrev : uint256} {fJustCheck : Bool} {st : ConnectState}

theorem recalculated_refigures (M : CSupplyNode) (w : PersistentState) (nHeight : Int)
    (hash : uint256) :
    RefiguredAt w.mapBlockIndex (w.recalculated M nHeight).mapBlockIndex hash := by
  rw [recalculated]
  split_ifs
  · exact (recalculate_refigures M.toCConnectNode w.mapBlockIndex w.chainActive hash).trans
      (RecalculateVITSupply_refigures M _ w.chainActive hash)
  · exact .of_eq rfl

theorem recalculated_rest (M : CSupplyNode) (w : PersistentState) (nHeight : Int) :
    (w.recalculated M nHeight).chainActive = w.chainActive ∧
    (w.recalculated M nHeight).mapStakeSpent = w.mapStakeSpent ∧
    (w.recalculated M nHeight).zerocoinDB = w.zerocoinDB ∧
    (w.recalculated M nHeight).accumulatorValues = w.accumulatorValues ∧
    (w.recalculated M nHeight).wallet = w.wallet := by
  rw [recalculated]
  split_ifs <;> exact ⟨rfl, rfl, rfl, rfl, rfl⟩

variable {pindex : CBlockIndex}

theorem get_recalculated (h : w.get ptr = some pindex) (nHeight : Int) :
    ∃ pindex₁, (w.recalculated M nHeight).get ptr = some pindex₁ ∧
      pindex₁.nHeight = pindex.nHeight ∧ pindex₁.nMint = pindex.nMint ∧
      pindex₁.nAccumulatorCheckpoint = pindex.nAccumulatorCheckpoint := by
  cases ptr with
  | dummy p =>
    obtain rfl : p = pindex := some.inj h
    exact ⟨p, rfl, rfl, rfl, rfl⟩
  | indexed hash =>
    obtain ⟨entry, hentry, rfl⟩ := map_eq_some_iff.mp h
    rcases recalculated_refigures M w nHeight hash with ⟨hnone, -⟩ | ⟨e, e', he, he', hfig⟩
    · rw [hentry] at hnone
      cases hnone
    · obtain rfl : entry = e := some.inj (hentry.symm.trans he)
      refine ⟨e'.pindex, ?_, ?_, ?_, ?_⟩
      · show ((w.recalculated M nHeight).mapBlockIndex hash).map ChainEntry.pindex = _
        rw [he']
        rfl
      · rw [hfig]
      · rw [hfig]
      · rw [hfig]

theorem prev_recalculated {pprev : ChainEntry} (h : w.mapBlockIndex hashPrev = some pprev)
    (nHeight : Int) : ∃ pprev₁,
      (w.recalculated M nHeight).mapBlockIndex hashPrev = some pprev₁ := by
  rcases recalculated_refigures M w nHeight hashPrev with ⟨hnone, -⟩ | ⟨e, e', he, he', hfig⟩
  · rw [h] at hnone
    cases hnone
  · exact ⟨e', he'⟩

theorem connectWrites_rest (M : CSupplyNode) (s : PersistentState) (block : CBlock) (nHeight : Int)
    (st : ConnectState) :
    (s.connectWrites M block nHeight st).1.mapBlockIndex = s.mapBlockIndex ∧
    (s.connectWrites M block nHeight st).1.wallet = s.wallet ∧
    ((s.connectWrites M block nHeight st).2 = false →
      (s.connectWrites M block nHeight st).1.mapStakeSpent = s.mapStakeSpent) := by
  have hsums : ∀ t : PersistentState,
    (t.DatabaseChecksums M block).mapBlockIndex = t.mapBlockIndex ∧
      (t.DatabaseChecksums M block).wallet = t.wallet ∧
      (t.DatabaseChecksums M block).mapStakeSpent = t.mapStakeSpent := by
    intro t
    rw [DatabaseChecksums]
    split_ifs <;> exact ⟨rfl, rfl, rfl⟩
  rw [connectWrites]
  split_ifs
  · exact ⟨rfl, rfl, fun _ => rfl⟩
  · exact ⟨rfl, rfl, fun _ => rfl⟩
  · exact ⟨rfl, rfl, fun _ => rfl⟩
  · obtain ⟨hindex, hwallet, hspent⟩ := hsums _
    exact ⟨hindex, hwallet, fun _ => hspent⟩
  · obtain ⟨hindex, hwallet, hspent⟩ := hsums _
    exact ⟨hindex, hwallet, by simp⟩

theorem DatabaseChecksums_kept_iff (M : CSupplyNode) (s : PersistentState) (block : CBlock) :
    (s.DatabaseChecksums M block).zerocoinDB = s.zerocoinDB ∧
    ((s.DatabaseChecksums M block).accumulatorValues = s.accumulatorValues ↔
      (M.P.nBlockZerocoinV2 ≤ s.Height →
        ∀ e ∈ lasts Prod.fst (M.checksums block), s.accumulatorValues e.1 = some e.2)) := by
  rw [DatabaseChecksums]
  split_ifs with hheight
  · exact ⟨rfl, fun _ hle => absurd hle (not_le.mpr hheight), fun _ => rfl⟩
  · refine ⟨rfl, ?_⟩
    rw [write_eq_self_iff]
    exact ⟨fun h _ => h, fun h => h (not_lt.mp hheight)⟩

/-- The loop has queued the serials and the coins of the block. -/
structure Queues (Z : Zerocoin) (block : CBlock) (st : ConnectState) : Prop where
  spends : (st.vSpends.map fun p => (p.1.coinSerialNumber, p.2)) = block.coinSpends Z
  mints : (st.vMints.map fun p => (p.1.value, p.2)) = block.coinMints Z

theorem connectWrites_kept_iff {s : PersistentState} {nHeight : Int} (hqueues : Queues M.Z block st)
    (hfail : (s.connectWrites M block nHeight st).2 = false) :
    ((s.connectWrites M block nHeight st).1.zerocoinDB = s.zerocoinDB ∧
      (s.connectWrites M block nHeight st).1.accumulatorValues = s.accumulatorValues) ↔
      (M.WriteUndo = true → M.WriteCoinSpendBatch = true → WritesStand M s block) := by
  rw [connectWrites] at hfail ⊢
  cases hundo : M.WriteUndo with
  | false => exact ⟨by simp, fun _ => ⟨rfl, rfl⟩⟩
  | true =>
  cases hspend : M.WriteCoinSpendBatch with
  | false => exact ⟨by simp, fun _ => ⟨rfl, rfl⟩⟩
  | true =>
  have hbatch : write s.zerocoinDB.coinSpends (block.coinSpends M.Z) =
    s.zerocoinDB.coinSpends ↔ _ :=
    write_eq_self_iff
  cases hmint : M.WriteCoinMintBatch with
  | false =>
    rw [ZerocoinDB.WriteCoinSpendBatch, hqueues.spends]
    constructor
    · rintro ⟨h, -⟩ - -
      refine ⟨hbatch.mp (congrArg ZerocoinDB.coinSpends h), ?_, ?_⟩
      · intro hm
        rw [hmint] at hm
        cases hm
      · intro hm
        rw [hmint] at hm
        cases hm
    · intro h
      rw [hbatch.mpr (h rfl rfl).spends]
      exact ⟨rfl, rfl⟩
  | true =>
  have hmints : write s.zerocoinDB.coinMints (block.coinMints M.Z) = s.zerocoinDB.coinMints ↔ _ :=
    write_eq_self_iff
  cases hindex : M.fTxIndex && !M.WriteTxIndex with
  | false =>
    rw [hundo, hspend, hmint, hindex] at hfail
    cases hfail
  | true =>
    obtain ⟨hdb, hsums⟩ := DatabaseChecksums_kept_iff M
      { s with zerocoinDB :=
        (s.zerocoinDB.WriteCoinSpendBatch st.vSpends).WriteCoinMintBatch st.vMints } block
    show ((PersistentState.DatabaseChecksums M
        { s with zerocoinDB :=
          (s.zerocoinDB.WriteCoinSpendBatch st.vSpends).WriteCoinMintBatch st.vMints }
        block).zerocoinDB = s.zerocoinDB ∧ (PersistentState.DatabaseChecksums M
        { s with zerocoinDB :=
          (s.zerocoinDB.WriteCoinSpendBatch st.vSpends).WriteCoinMintBatch st.vMints }
        block).accumulatorValues = s.accumulatorValues) ↔ _
    rw [hdb, hsums, ZerocoinDB.WriteCoinSpendBatch, ZerocoinDB.WriteCoinMintBatch, hqueues.spends,
      hqueues.mints]
    constructor
    · rintro ⟨h, hchecksums⟩ - -
      exact ⟨hbatch.mp (congrArg ZerocoinDB.coinSpends h), fun _ => hmints.mp
        (congrArg ZerocoinDB.coinMints h), fun _ => hchecksums⟩
    · intro h
      have hstand := h rfl rfl
      refine ⟨?_, hstand.checksums hmint⟩
      rw [hbatch.mpr hstand.spends, hmints.mpr (hstand.mints hmint)]

/-- What the call makes of the entry. -/
def leftEntry (N : CConnectNode) (block : CBlock) (pindex pprev : CBlockIndex) (st : ConnectState) :
    CBlockIndex :=
  match UpdateZDIVITSupply N block pindex pprev with
  | .error _ => supplyInPlace N block pindex pprev
  | .ok counted => trackSupply counted pprev st

theorem leftEntry_height (N : CConnectNode) (block : CBlock) (pindex pprev : CBlockIndex)
    (st : ConnectState) : (leftEntry N block pindex pprev st).nHeight = pindex.nHeight := by
  rw [leftEntry]
  cases h : UpdateZDIVITSupply N block pindex pprev with
  | error _ => rfl
  | ok counted =>
    rw [← supplyInPlace_of_ok h]
    rfl

theorem leftEntry_figures_iff {N : CConnectNode} {pindex pindex₁ pprev₁ : CBlockIndex}
    (hcheckpoint : pindex₁.nAccumulatorCheckpoint = pindex.nAccumulatorCheckpoint) :
    (leftEntry N block pindex₁ pprev₁ st).figures = pindex.figures ↔
      EntryStands N block pindex₁ pprev₁ st pindex := by
  rw [leftEntry, CBlockIndex.figures, CBlockIndex.figures, Figures.mk.injEq]
  cases h : UpdateZDIVITSupply N block pindex₁ pprev₁ with
  | error reason =>
    constructor
    · rintro ⟨hmoney, hsupply, hmints, hminted, -⟩
      refine ⟨hmints.symm, hsupply.symm, ?_, ?_⟩
      · rw [h]
        exact hmoney.symm
      · rw [h]
        exact hminted.symm
    · rintro ⟨hmints, hsupply, hmoney, hminted⟩
      rw [h] at hmoney hminted
      exact ⟨hmoney.symm, hsupply.symm, hmints.symm, hminted.symm, hcheckpoint⟩
  | ok counted =>
    obtain rfl := supplyInPlace_of_ok h
    constructor
    · rintro ⟨hmoney, hsupply, hmints, hminted, -⟩
      refine ⟨hmints.symm, hsupply.symm, ?_, ?_⟩
      · rw [h]
        exact hmoney.symm
      · rw [h, ← hmoney]
        exact hminted.symm
    · rintro ⟨hmints, hsupply, hmoney, hminted⟩
      rw [h] at hmoney hminted
      refine ⟨hmoney.symm, hsupply.symm, hmints.symm, ?_, hcheckpoint⟩
      rw [hmoney] at hminted
      exact hminted.symm

theorem tellWallet_kept_iff (M : CSupplyNode) (w : PersistentState) (block : CBlock)
    (nHeight : Int) :
    (w.tellWallet M block nHeight).wallet = w.wallet ↔
      ∀ wallet, w.wallet = some wallet →
        WalletStands (w.seed M) nHeight wallet (BlockToZerocoinMints (w.node M)
          (M.P.nBlockRecalculateAccumulators ≤ nHeight) block.vtx) := by
  show w.wallet.map _ = w.wallet ↔ _
  cases hwallet : w.wallet with
  | none => exact ⟨nofun, fun _ => rfl⟩
  | some wallet =>
    have hiff := ZerocoinWallet.recordMints_eq_self_iff (w.seed M) nHeight wallet
      (BlockToZerocoinMints (w.node M) (M.P.nBlockRecalculateAccumulators ≤ nHeight) block.vtx)
    constructor
    · rintro h wallet' ⟨⟩
      exact hiff.mp (some.inj h)
    · intro h
      exact congrArg some (hiff.mpr (h wallet rfl))

/-! ## The call -/

theorem Height_congr {w w' : PersistentState} (hchain : w'.chainActive = w.chainActive)
    (hheight : ∀ hash, (w'.mapBlockIndex hash).map (fun e => e.pindex.nHeight) =
      (w.mapBlockIndex hash).map fun e => e.pindex.nHeight) : w'.Height = w.Height := by
  have helim : ∀ o : Option ChainEntry, (o.elim (-1) fun tip => tip.pindex.nHeight) =
      (o.map fun e => e.pindex.nHeight).getD (-1) := by
    intro o
    cases o <;> rfl
  rw [Height, Height, hchain, helim, helim]
  cases w.chainActive.head? with
  | none => rfl
  | some hash => exact congrArg (Option.getD · (-1)) (hheight hash)

theorem set_rest (w : PersistentState) (ptr : PIndex) (block : CBlock) (pindex : CBlockIndex) :
    (w.set ptr block pindex).chainActive = w.chainActive ∧
    (w.set ptr block pindex).mapStakeSpent = w.mapStakeSpent ∧
    (w.set ptr block pindex).zerocoinDB = w.zerocoinDB ∧
    (w.set ptr block pindex).accumulatorValues = w.accumulatorValues ∧
    (w.set ptr block pindex).wallet = w.wallet := by
  cases ptr <;> exact ⟨rfl, rfl, rfl, rfl, rfl⟩

theorem set_figures_iff {w : PersistentState} (w₁ : PersistentState) (block : CBlock)
    (left : CBlockIndex)
    (hptr : w.get ptr = some pindex) :
    (∀ hash, (w₁.set ptr block left).figures hash = w.figures hash) ↔
      (∀ hash, ptr ≠ .indexed hash → w₁.figures hash = w.figures hash) ∧
        ∀ hash, ptr = .indexed hash → left.figures = pindex.figures := by
  cases ptr with
  | dummy p =>
    refine ⟨fun h => ⟨fun hash _ => h hash, nofun⟩, ?_⟩
    rintro ⟨h, -⟩ hash
    exact h hash nofun
  | indexed own =>
    obtain ⟨entry, hentry, rfl⟩ := map_eq_some_iff.mp hptr
    have hown : (w₁.set (.indexed own) block left).figures own = some left.figures := by
      show (Function.update w₁.mapBlockIndex own (some ⟨block, left⟩) own).map _ = _
      rw [update_self]
      rfl
    have hother : ∀ hash, hash ≠ own →
        (w₁.set (.indexed own) block left).figures hash = w₁.figures hash := by
      intro hash hne
      show (Function.update w₁.mapBlockIndex own (some ⟨block, left⟩) hash).map _ = _
      rw [update_of_ne hne]
      rfl
    have hold : w.figures own = some entry.pindex.figures := by
      rw [figures, hentry]
      rfl
    constructor
    · intro h
      refine ⟨fun hash hne => ?_, ?_⟩
      · have hne' : hash ≠ own := fun heq => hne (heq ▸ rfl)
        rw [← hother hash hne']
        exact h hash
      · intro _ _
        exact some.inj (hown.symm.trans ((h own).trans hold))
    · rintro ⟨hothers, hself⟩ hash
      rcases eq_or_ne hash own with rfl | hne
      · rw [hown, hold, hself hash rfl]
      · rw [hother hash hne]
        exact hothers hash fun heq => hne (PIndex.indexed.inj heq).symm

def Writes (M : CSupplyNode) (w : PersistentState) (block : CBlock) (pindex pprev : CBlockIndex)
    (fJustCheck : Bool) (st : ConnectState) : Prop :=
  fJustCheck = false ∧ ∃ counted, UpdateZDIVITSupply (w.node M) block pindex pprev = .ok counted ∧
    w.valueChecks M block (trackSupply counted pprev st) pprev st = true

theorem connectFrom_ends (M : CSupplyNode) (w : PersistentState) (block : CBlock) (ptr : PIndex)
    (pindex pprev : CBlockIndex) (fJustCheck : Bool) (st : ConnectState) :
    (¬ Writes M w block pindex pprev fJustCheck st ∧
      (w.connectFrom M block ptr pindex pprev fJustCheck st).1 =
        (w.tellWallet M block pindex.nHeight).set ptr block
          (leftEntry (w.node M) block pindex pprev st)) ∨
    (Writes M w block pindex pprev fJustCheck st ∧
      w.connectFrom M block ptr pindex pprev fJustCheck st =
        ((w.tellWallet M block pindex.nHeight).set ptr block
          (leftEntry (w.node M) block pindex pprev st)).connectWrites M block
            pindex.nHeight st) := by
  rw [connectFrom, leftEntry, Writes]
  cases hsupply : UpdateZDIVITSupply (w.node M) block pindex pprev with
  | error reason => exact .inl ⟨by rintro ⟨-, _, ⟨⟩, -⟩, rfl⟩
  | ok counted =>
    dsimp only
    cases hvalue : w.valueChecks M block (trackSupply counted pprev st) pprev st with
    | false =>
      refine .inl ⟨?_, rfl⟩
      rintro ⟨-, counted', hsame, hvalue'⟩
      obtain rfl := Except.ok.inj hsame
      rw [hvalue] at hvalue'
      cases hvalue'
    | true =>
      cases fJustCheck with
      | true => exact .inl ⟨by rintro ⟨⟨⟩, -⟩, rfl⟩
      | false => exact .inr ⟨⟨rfl, counted, rfl, hvalue⟩, rfl⟩

theorem WritesStand.congr {w w' : PersistentState} (hdb : w'.zerocoinDB = w.zerocoinDB)
    (hsums : w'.accumulatorValues = w.accumulatorValues) (hheight : w'.Height = w.Height) :
    WritesStand M w' block ↔ WritesStand M w block := by
  constructor
  · rintro ⟨hspends, hmints, hchecksums⟩
    rw [hdb] at hspends hmints
    rw [hsums, hheight] at hchecksums
    exact ⟨hspends, hmints, hchecksums⟩
  · rintro ⟨hspends, hmints, hchecksums⟩
    rw [← hdb] at hspends hmints
    rw [← hsums, ← hheight] at hchecksums
    exact ⟨hspends, hmints, hchecksums⟩

theorem connectLoop_queues {N : CConnectNode} {pindex pprev : CBlockIndex} {view : CCoinsView}
    {fAlreadyChecked : Bool} (hread : SameReading M.Z N.Z)
    (h : connectLoop N block pindex pprev view fJustCheck fAlreadyChecked = .ok st) :
    Queues M.Z block st := by
  simp only [connectLoop, rejectIf_eq_ok, bind_eq_ok] at h
  obtain ⟨⟨⟩, -, -, -, -, -, htxs⟩ := h
  obtain ⟨hspends, hmints, -, -⟩ := connectTxs_queued htxs
  refine ⟨?_, ?_⟩
  · have hkeys : block.coinSpends N.Z = block.coinSpends M.Z :=
      congrFun (hread.blockKeys .serial) block
    rw [← hkeys]
    exact hspends
  · have hkeys : block.coinMints N.Z = block.coinMints M.Z := congrFun (hread.blockKeys .coin) block
    rw [← hkeys]
    exact hmints

/-- The state behind the checks, with the entry written and the wallet told. -/
def checked (M : CSupplyNode) (w : PersistentState) (block : CBlock) (ptr : PIndex)
    (pindex pprev : CBlockIndex) (st : ConnectState) : PersistentState :=
  (w.tellWallet M block pindex.nHeight).set ptr block (leftEntry (w.node M) block pindex pprev st)

theorem recalculated_node (M : CSupplyNode) (w : PersistentState) (nHeight : Int) :
    (w.recalculated M nHeight).node M = w.node M ∧ (w.recalculated M nHeight).seed M =
      w.seed M := by
  obtain ⟨-, -, hdb, -, -⟩ := recalculated_rest M w nHeight
  rw [node, node, seed, seed, hdb]
  exact ⟨rfl, rfl⟩

theorem checked_kept_iff (block : CBlock) (st : ConnectState) {pindex pindex₁ : CBlockIndex}
    {pprev₁ : ChainEntry}
    (hptr : w.get ptr = some pindex)
    (hptr₁ : (w.recalculated M pindex.nHeight).get ptr = some pindex₁)
    (hprev₁ : (w.recalculated M pindex.nHeight).mapBlockIndex hashPrev = some pprev₁)
    (hheight : pindex₁.nHeight = pindex.nHeight)
    (hcheckpoint : pindex₁.nAccumulatorCheckpoint = pindex.nAccumulatorCheckpoint) :
    ((∀ hash, ((w.recalculated M pindex.nHeight).checked M block ptr pindex₁ pprev₁.pindex
        st).figures hash = w.figures hash) ∧
      ((w.recalculated M pindex.nHeight).checked M block ptr pindex₁ pprev₁.pindex st).wallet =
        w.wallet) ↔
    (∀ hash, ptr ≠ .indexed hash →
      (w.recalculated M pindex.nHeight).figures hash = w.figures hash) ∧
    (∀ hash, ptr = .indexed hash → ∀ pindex₁ pprev₁,
      (w.recalculated M pindex.nHeight).get ptr = some pindex₁ →
      (w.recalculated M pindex.nHeight).mapBlockIndex hashPrev = some pprev₁ →
        EntryStands (w.node M) block pindex₁ pprev₁.pindex st pindex) ∧
    ∀ wallet, w.wallet = some wallet → WalletStands (w.seed M) pindex.nHeight wallet
      (BlockToZerocoinMints (w.node M) (M.P.nBlockRecalculateAccumulators ≤ pindex.nHeight)
        block.vtx) := by
  obtain ⟨-, -, -, -, hwallet⟩ := recalculated_rest M w pindex.nHeight
  obtain ⟨hnode, hseed⟩ := recalculated_node M w pindex.nHeight
  have hfigures := set_figures_iff ((w.recalculated M pindex.nHeight).tellWallet M block
    pindex₁.nHeight) block (leftEntry (w.node M) block pindex₁ pprev₁.pindex st) hptr
  have htold := tellWallet_kept_iff M (w.recalculated M pindex.nHeight) block pindex₁.nHeight
  obtain ⟨-, -, -, -, hset⟩ := set_rest ((w.recalculated M pindex.nHeight).tellWallet M block
    pindex₁.nHeight) ptr block (leftEntry (w.node M) block pindex₁ pprev₁.pindex st)
  rw [hwallet, hnode, hseed, hheight] at htold
  rw [checked, hnode, hset, hheight, htold, ← and_assoc]
  rw [hheight] at hfigures
  refine and_congr_left fun _ => hfigures.trans (and_congr_right fun _ => ?_)
  constructor
  · intro h hash heq pindex' pprev' hp hpp
    obtain rfl : pindex₁ = pindex' := some.inj (hptr₁.symm.trans hp)
    obtain rfl : pprev₁ = pprev' := some.inj (hprev₁.symm.trans hpp)
    exact (leftEntry_figures_iff hcheckpoint).mp (h hash heq)
  · intro h hash heq
    exact (leftEntry_figures_iff hcheckpoint).mpr (h hash heq pindex₁ pprev₁ hptr₁ hprev₁)

theorem checked_height {pindex₁ pprev₁ : CBlockIndex} {nHeight : Int}
    (hptr₁ : (w.recalculated M nHeight).get ptr = some pindex₁) :
    ((w.recalculated M nHeight).checked M block ptr pindex₁ pprev₁ st).Height = w.Height := by
  obtain ⟨hchain, -, -, -, -⟩ := recalculated_rest M w nHeight
  refine Height_congr ?_ fun hash => ?_
  · rw [checked, (set_rest _ ptr block _).1]
    exact hchain
  have hsame : ((w.recalculated M nHeight).mapBlockIndex hash).map (fun e => e.pindex.nHeight) =
      (w.mapBlockIndex hash).map fun e => e.pindex.nHeight := by
    rcases recalculated_refigures M w nHeight hash with ⟨hnone, hnone'⟩ | ⟨e, e', he, he', hfig⟩
    · rw [hnone, hnone']
    · rw [he, he', hfig]
      rfl
  rw [← hsame]
  cases ptr with
  | dummy p => rfl
  | indexed own =>
    show (Function.update (w.recalculated M nHeight).mapBlockIndex own _ hash).map _ = _
    rcases eq_or_ne hash own with rfl | hne
    · obtain ⟨entry, hentry, rfl⟩ := map_eq_some_iff.mp hptr₁
      rw [update_self, hentry]
      exact congrArg some (leftEntry_height _ block entry.pindex pprev₁ st)
    · rw [update_of_ne hne]

/-- **Behind the loop the state is kept exactly when what is written is there.** -/
theorem connectBehind_kept_iff {pprev : ChainEntry}
    (hptr : w.get ptr = some pindex) (hprev : w.mapBlockIndex hashPrev = some pprev)
    (hqueues : Queues M.Z block st)
    (hends : fJustCheck = true ∨
      (w.connectBehind M block ptr hashPrev pindex.nHeight fJustCheck st).2 = false) :
    Kept w (w.connectBehind M block ptr hashPrev pindex.nHeight fJustCheck st).1 ↔
      Stands M w block ptr hashPrev pindex fJustCheck st := by
  obtain ⟨pindex₁, hptr₁, hheight, -, hcheckpoint⟩ := get_recalculated (M := M) hptr pindex.nHeight
  obtain ⟨pprev₁, hprev₁⟩ := prev_recalculated (M := M) hprev pindex.nHeight
  obtain ⟨-, hspent, hdb, hsums, -⟩ := recalculated_rest M w pindex.nHeight
  obtain ⟨hnode, -⟩ := recalculated_node M w pindex.nHeight
  have hthree := checked_kept_iff block st hptr hptr₁ hprev₁ hheight hcheckpoint
  rw [connectBehind, hptr₁, hprev₁] at hends ⊢
  dsimp only at hends ⊢
  rcases connectFrom_ends M (w.recalculated M pindex.nHeight) block ptr pindex₁ pprev₁.pindex
    fJustCheck st with ⟨hno, hres⟩ | ⟨hyes, hres⟩
  · -- the call ends before the writes
    have hnowrite : fJustCheck = false → M.WriteUndo = true → M.WriteCoinSpendBatch = true →
        ∀ pindex₁ pprev₁ counted, (w.recalculated M pindex.nHeight).get ptr = some pindex₁ →
          (w.recalculated M pindex.nHeight).mapBlockIndex hashPrev = some pprev₁ →
          UpdateZDIVITSupply (w.node M) block pindex₁ pprev₁.pindex = .ok counted →
          w.valueChecks M block (trackSupply counted pprev₁.pindex st) pprev₁.pindex st = true →
            WritesStand M w block := by
      intro hfj _ _ pindex' pprev' counted hp hpp hcounted hvalue
      obtain rfl : pindex₁ = pindex' := some.inj (hptr₁.symm.trans hp)
      obtain rfl : pprev₁ = pprev' := some.inj (hprev₁.symm.trans hpp)
      refine absurd ⟨hfj, counted, ?_, ?_⟩ hno
      · rw [hnode]
        exact hcounted
      · rw [valueChecks, hnode]
        exact hvalue
    obtain ⟨-, hspent', hdb', hsums', -⟩ := set_rest ((w.recalculated M pindex.nHeight).tellWallet M
      block pindex₁.nHeight) ptr block
      (leftEntry ((w.recalculated M pindex.nHeight).node M) block pindex₁ pprev₁.pindex st)
    rw [hres]
    constructor
    · rintro ⟨-, -, -, hwallet, hfigures⟩
      obtain ⟨hrecalculation, hentry, hwallet⟩ := hthree.mp ⟨hfigures, hwallet⟩
      exact ⟨hrecalculation, hentry, hwallet, hnowrite⟩
    · rintro ⟨hrecalculation, hentry, hwallet, -⟩
      obtain ⟨hfigures, hwallet⟩ := hthree.mpr ⟨hrecalculation, hentry, hwallet⟩
      exact ⟨hspent'.trans hspent, hdb'.trans hdb, hsums'.trans hsums, hwallet, hfigures⟩
  · -- a write fails
    obtain ⟨hfj, counted, hcounted, hvalue⟩ := hyes
    rw [hres] at hends ⊢
    have hfail := hends.resolve_left fun h => Bool.false_ne_true (hfj.symm.trans h)
    obtain ⟨hindex', hwallet', hspent'⟩ := connectWrites_rest M
      ((w.recalculated M pindex.nHeight).checked M block ptr pindex₁ pprev₁.pindex st) block
      pindex₁.nHeight st
    have hwrites := connectWrites_kept_iff hqueues hfail
    obtain ⟨-, hspent₁, hdb₁, hsums₁, -⟩ := set_rest ((w.recalculated M pindex.nHeight).tellWallet M
      block pindex₁.nHeight) ptr block
      (leftEntry ((w.recalculated M pindex.nHeight).node M) block pindex₁ pprev₁.pindex st)
    have hstand : WritesStand M
        ((w.recalculated M pindex.nHeight).checked M block ptr pindex₁ pprev₁.pindex st) block ↔
        WritesStand M w block :=
      WritesStand.congr (hdb₁.trans hdb) (hsums₁.trans hsums) (checked_height hptr₁)
    have hfigures' : ∀ hash, (((w.recalculated M pindex.nHeight).checked M block ptr pindex₁
        pprev₁.pindex st).connectWrites M block pindex₁.nHeight st).1.figures hash =
        ((w.recalculated M pindex.nHeight).checked M block ptr pindex₁ pprev₁.pindex st).figures
          hash := by
      intro hash
      rw [figures, figures, hindex']
    constructor
    · rintro ⟨-, hkeptdb, hkeptsums, hwallet, hfigures⟩
      obtain ⟨hrecalculation, hentry, hwallet⟩ := hthree.mp
        ⟨fun hash => (hfigures' hash).symm.trans (hfigures hash), hwallet'.symm.trans hwallet⟩
      refine ⟨hrecalculation, hentry, hwallet, ?_⟩
      intro _ hundo hspends pindex' pprev' counted' _ _ _ _
      exact hstand.mp (hwrites.mp ⟨hkeptdb.trans (hdb₁.trans hdb).symm,
        hkeptsums.trans (hsums₁.trans hsums).symm⟩ hundo hspends)
    · rintro ⟨hrecalculation, hentry, hwallet, hwritten⟩
      obtain ⟨hfigures, hwallet⟩ := hthree.mpr ⟨hrecalculation, hentry, hwallet⟩
      obtain ⟨hkeptdb, hkeptsums⟩ := hwrites.mpr fun hundo hspends => hstand.mpr
        (hwritten hfj hundo hspends pindex₁ pprev₁ counted hptr₁ hprev₁ (hnode ▸ hcounted) (by
          exact hvalue))
      exact ⟨(hspent' hfail).trans (hspent₁.trans hspent), hkeptdb.trans (hdb₁.trans hdb),
        hkeptsums.trans (hsums₁.trans hsums), hwallet'.trans hwallet,
        fun hash => (hfigures' hash).trans (hfigures hash)⟩

theorem Kept.refl (w : PersistentState) : Kept w w := ⟨rfl, rfl, rfl, rfl, fun _ => rfl⟩

/-- **A call that only checks, or fails, keeps the state exactly when it does not get behind
the loop or finds there what it writes.** -/
theorem ConnectBlock_kept_iff (M : CSupplyNode) (w : PersistentState) (block : CBlock)
    (ptr : PIndex) (hashPrev : uint256) (view : CCoinsView) (fJustCheck fAlreadyChecked : Bool)
    (hends : fJustCheck = true ∨
      (w.ConnectBlock M block ptr hashPrev view fJustCheck fAlreadyChecked).2 = false) :
    Kept w (w.ConnectBlock M block ptr hashPrev view fJustCheck fAlreadyChecked).1 ↔
      Harmless M w block ptr hashPrev view fJustCheck fAlreadyChecked := by
  rw [PersistentState.ConnectBlock] at hends ⊢
  rw [Harmless]
  cases hptr : w.get ptr with
  | none => exact ⟨fun _ _ pindex pprev st h => (by cases h), fun _ => .refl w⟩
  | some pindex =>
  cases hprev : w.mapBlockIndex hashPrev with
  | none => exact ⟨fun _ _ pindex pprev st _ h => (by cases h), fun _ => .refl w⟩
  | some pprev =>
  rw [hptr, hprev] at hends
  dsimp only at hends ⊢
  by_cases hgenesis : block.hash = M.hashGenesisBlock
  · rw [if_pos hgenesis]
    exact ⟨fun _ h => absurd hgenesis h, fun _ => .refl w⟩
  rw [if_neg hgenesis] at hends ⊢
  cases hloop : connectLoop (w.node M) block pindex pprev.pindex view fJustCheck
    fAlreadyChecked with
  | error reason =>
    refine ⟨?_, fun _ => .refl w⟩
    rintro - - pindex' pprev' st ⟨⟩ ⟨⟩ hok
    rw [hloop] at hok
    cases hok
  | ok st =>
    rw [hloop] at hends
    have hqueues : Queues M.Z block st := connectLoop_queues (N := w.node M) ⟨rfl, rfl⟩ hloop
    refine (connectBehind_kept_iff hptr hprev hqueues hends).trans ?_
    constructor
    · rintro h - pindex' pprev' st' ⟨⟩ ⟨⟩ hok
      rw [hloop] at hok
      obtain rfl := Except.ok.inj hok
      exact h
    · intro h
      exact h hgenesis pindex pprev st rfl rfl hloop

/-! ## Mints, for example -/

section
open ZerocoinChain (zerocoinNode zerocoinBlock lastByteZerocoin mintBlock mintOf mintStart)

def supplyNode : CSupplyNode :=
  { zerocoinNode true 100 1000000 with
    Z := lastByteZerocoin
    prevValue := fun _ => 0
    InvalidAmountFiltered := 0
    GetInvalidUTXOValue := 0
    checksums := fun _ => []
    seed := ⟨fun nCount => (nCount, 7000 + nCount), 0, fun _ => 0, fun _ => false⟩ }

/-- A wallet that could mint coin 1. -/
def onePool : ZerocoinWallet where
  mapSerialHashes := ⟨[], List.nodup_nil⟩
  mapPendingSpends _ := none
  deterministicMints _ := none
  deterministicOrphans _ := none
  zerocoinMints _ := none
  mintPool := [(1, 1)]
  nCountLastUsed := 0

def beforeBlock (block : CBlock) : PersistentState where
  mapBlockIndex hash :=
    if hash = 100 then some ⟨⟨100, 5, 0, 1700000000, [], []⟩, quietTip 1000000⟩
    else if hash = 101 then
      some ⟨block, { quietTip 1000001 with
        phashBlock := some 101
        mapZerocoinSupply := fun _ => 0 }⟩
    else none
  chainActive := [100]
  mapStakeSpent _ := none
  zerocoinDB := ⟨fun _ => none, fun _ => none⟩
  accumulatorValues _ := none
  wallet := some onePool

/-- As `TestBlockValidity` does it. -/
def testBlock (block : CBlock) : PersistentState × Bool :=
  (beforeBlock block).ConnectBlock supplyNode block
    (.dummy { quietTip 1000001 with phashBlock := none }) 100 mintStart.pcoinsTip true false

/-- As `ConnectTip` does it. -/
def tryBlock (block : CBlock) : PersistentState × Bool :=
  (beforeBlock block).ConnectBlock supplyNode block (.indexed 101) 100
    mintStart.pcoinsTip false false

def plainBlock : CBlock := zerocoinBlock 101 100 1700000060 7 []

theorem ConnectBlock_kept_plain : Kept (beforeBlock plainBlock) (testBlock plainBlock).1 := by
  refine (ConnectBlock_kept_iff supplyNode (beforeBlock plainBlock) plainBlock
    (.dummy { quietTip 1000001 with phashBlock := none }) 100 mintStart.pcoinsTip true false
    (.inl rfl)).mpr ?_
  rintro - pindex pprev st ⟨⟩ - -
  refine ⟨fun _ _ => rfl, nofun, ?_, nofun⟩
  rintro wallet ⟨⟩
  exact ⟨nofun, nofun⟩

def twoMints : CBlock := mintBlock [mintOf 1, mintOf 2]

/-- The stake pays too much. -/
def overpaid : CBlock :=
  { twoMints with
    vtx := twoMints.vtx.map fun tx =>
      if tx.IsCoinStake then { tx with vout := [.empty, ⟨1000000 * COIN, []⟩] } else tx }

/-- A block that is only checked takes the wallet's coin from the pool, and one that pays too
much leaves its mints in the supply of its entry. -/
theorem ConnectBlock_not_kept :
    ¬ (∀ (M : CSupplyNode) (w : PersistentState) (block : CBlock) (ptr : PIndex)
        (hashPrev : uint256) (view : CCoinsView) (fJustCheck fAlreadyChecked : Bool),
        (fJustCheck = true ∨
          (w.ConnectBlock M block ptr hashPrev view fJustCheck fAlreadyChecked).2 = false) →
          Kept w (w.ConnectBlock M block ptr hashPrev view fJustCheck fAlreadyChecked).1) ∧
      (testBlock twoMints).1.wallet.map ZerocoinWallet.mintPool = some [] ∧
      (tryBlock overpaid).2 = false ∧
      ((tryBlock overpaid).1.figures 101).map (fun figures => figures.mapZerocoinSupply .ZQ_ONE) =
        some 1002 := by
  have hpool : (testBlock twoMints).1.wallet.map ZerocoinWallet.mintPool = some [] := by
    decide +kernel
  refine ⟨?_, hpool, by decide +kernel, by decide +kernel⟩
  intro hall
  have hkept : Kept (beforeBlock twoMints) (testBlock twoMints).1 :=
    hall supplyNode (beforeBlock twoMints) twoMints
      (.dummy { quietTip 1000001 with phashBlock := none }) 100 mintStart.pcoinsTip true false
      (.inl rfl)
  rw [hkept.wallet] at hpool
  exact absurd hpool (by decide)

end

end PersistentState

end Divitae
