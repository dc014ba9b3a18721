/-
# `SupplyCounts` — mints less spends

What the supplies are measured by: the denominations the transactions of a block mint and
spend (`CBlock.minted`, `CBlock.spent`), and their difference over the blocks of a chain
(`supplyOf`).  `UpdateZDIVITSupply` and the recalculation keep to it for blocks whose mints
and spends can be read and name their denomination (`Proper`), where nothing is on the
lists of invalid outputs and serials (`Unlisted`).
-/
import Divitae.MintRuns
import Divitae.ZerocoinSupply

namespace Divitae

open List Bool Function

/-! ## What is counted -/

def CTransaction.minted (Z : Zerocoin) (tx : CTransaction) : List CoinDenomination :=
  (tx.vout.filter CTxOut.IsZerocoinMint).filterMap fun txout =>
    (TxOutToPublicCoin Z txout).map PublicCoin.denomination

def CTransaction.spent (Z : Zerocoin) (tx : CTransaction) : List CoinDenomination :=
  if tx.IsZerocoinSpend then
    (tx.vin.filter fun txin => txin.scriptSig.IsZerocoinSpend).filterMap fun txin =>
      (Z.TxInToZerocoinSpend txin).map CoinSpend.denomination
  else []

def CBlock.minted (Z : Zerocoin) (block : CBlock) : List CoinDenomination :=
  block.vtx.flatMap (CTransaction.minted Z)

def CBlock.spent (Z : Zerocoin) (block : CBlock) : List CoinDenomination :=
  block.vtx.flatMap (CTransaction.spent Z)

/-- Mints less spends of a denomination over blocks. -/
def supplyOf (Z : Zerocoin) (blocks : List CBlock) (denom : CoinDenomination) : Int :=
  (blocks.map fun block =>
    ((block.minted Z).count denom : Int) - (block.spent Z).count denom).sum

theorem supplyOf_cons (Z : Zerocoin) (block : CBlock) (blocks : List CBlock)
    (denom : CoinDenomination) :
    supplyOf Z (block :: blocks) denom =
      supplyOf Z blocks denom + (block.minted Z).count denom - (block.spent Z).count denom := by
  rw [supplyOf, map_cons, sum_cons]
  show _ = (blocks.map fun b =>
    ((b.minted Z).count denom : Int) - (b.spent Z).count denom).sum + _ - _
  omega

/-- Mints can be read, and spends can and name their denomination. -/
structure Proper (Z : Zerocoin) (block : CBlock) : Prop where
  mints : ∀ tx ∈ block.vtx, ∀ txout ∈ tx.vout, txout.IsZerocoinMint = true →
    (TxOutToPublicCoin Z txout).isSome = true
  spends : ∀ tx ∈ block.vtx, tx.IsZerocoinSpend = true → ∀ txin ∈ tx.vin,
    txin.scriptSig.IsZerocoinSpend = true → ∃ spend, Z.TxInToZerocoinSpend txin = some spend ∧
      CoinDenomination.ofInt txin.nSequence = spend.denomination

/-- Nothing of the block is on the lists of invalid outputs and serials. -/
structure Unlisted (N : CNode) (block : CBlock) : Prop where
  inputs : ∀ tx ∈ block.vtx, ∀ txin ∈ tx.vin, N.ContainsOutPoint txin.prevout = false
  outputs : ∀ tx ∈ block.vtx, ∀ n, N.ContainsOutPoint ⟨tx.hash, n⟩ = false
  serials : ∀ tx ∈ block.vtx, ∀ txin ∈ tx.vin, ∀ spend,
    N.Z.TxInToZerocoinSpend txin = some spend → N.ContainsSerial spend.coinSerialNumber = false

section
variable {N : CConnectNode} {Z : Zerocoin} {block : CBlock} {fFilterInvalid : Bool}

def Unfiltered (N : CConnectNode) (fFilterInvalid : Bool) (block : CBlock) : Prop :=
  fFilterInvalid = true → Unlisted N.toCNode block

theorem minted_of_not_mint {tx : CTransaction} (h : tx.IsZerocoinMint = false) :
    tx.minted Z = [] := by
  have hnone : tx.vout.filter CTxOut.IsZerocoinMint = [] := by
    rw [filter_eq_nil_iff]
    intro out hout
    rw [CTransaction.IsZerocoinMint, any_eq_false] at h
    exact h out hout
  rw [CTransaction.minted, hnone]
  rfl

theorem mintedDenominations_eq (hmint : TxOutToPublicCoin N.Z = TxOutToPublicCoin Z)
    {hash : uint256} (hout : fFilterInvalid = true → ∀ n, N.ContainsOutPoint ⟨hash, n⟩ = false) :
    ∀ {vout : List CTxOut} {i : Nat},
    (∀ txout ∈ vout, txout.IsZerocoinMint = true → (TxOutToPublicCoin Z txout).isSome = true) →
    mintedDenominations N fFilterInvalid hash vout i =
      ((vout.filter CTxOut.IsZerocoinMint).filterMap fun txout =>
        (TxOutToPublicCoin Z txout).map PublicCoin.denomination, true)
  | [], _, _ => rfl
  | txout :: vout, i, hread => by
    have hrest : mintedDenominations N fFilterInvalid hash vout (i + 1) = _ :=
      mintedDenominations_eq hmint hout fun o ho => hread o (mem_cons_of_mem txout ho)
    have hlisted : ¬ (fFilterInvalid && N.ContainsOutPoint ⟨hash, i⟩) = true := by
      intro hboth
      obtain ⟨hf, hc⟩ := (and_eq_true _ _).mp hboth
      rw [hout hf i] at hc
      exact false_ne_true hc
    rw [mintedDenominations, if_neg hlisted, filter_cons]
    cases hz : txout.IsZerocoinMint with
    | false =>
      have hz' : txout.scriptPubKey.IsZerocoinMint = false := hz
      rw [hz', hrest]
      rfl
    | true =>
      have hz' : txout.scriptPubKey.IsZerocoinMint = true := hz
      obtain ⟨coin, hcoin⟩ := Option.isSome_iff_exists.mp (hread txout mem_cons_self hz)
      rw [hz', if_pos rfl, filterMap_cons, hmint, hcoin, hrest]
      rfl

theorem BlockToZerocoinMintList_eq (hmint : TxOutToPublicCoin N.Z = TxOutToPublicCoin Z)
    (hin : fFilterInvalid = true → ∀ tx ∈ block.vtx, ∀ txin ∈ tx.vin,
      N.ContainsOutPoint txin.prevout = false)
    (hout : fFilterInvalid = true → ∀ tx ∈ block.vtx, ∀ n, N.ContainsOutPoint ⟨tx.hash, n⟩ = false)
    (hread : ∀ tx ∈ block.vtx, ∀ txout ∈ tx.vout, txout.IsZerocoinMint = true →
      (TxOutToPublicCoin Z txout).isSome = true) :
    BlockToZerocoinMintList N fFilterInvalid block.vtx = block.minted Z := by
  rw [CBlock.minted]
  generalize block.vtx = vtx at hin hout hread
  induction vtx with
  | nil => rfl
  | cons tx vtx ih =>
    have hrest := ih (fun hf t ht => hin hf t (mem_cons_of_mem tx ht))
      (fun hf t ht => hout hf t (mem_cons_of_mem tx ht))
      fun t ht => hread t (mem_cons_of_mem tx ht)
    rw [BlockToZerocoinMintList, flatMap_cons]
    cases hz : tx.IsZerocoinMint with
    | false =>
      rw [minted_of_not_mint hz, hrest]
      rfl
    | true =>
      have hany : ¬ (fFilterInvalid && tx.vin.any fun txin => N.ContainsOutPoint txin.prevout) =
          true := by
        intro hboth
        obtain ⟨hf, hc⟩ := (and_eq_true _ _).mp hboth
        obtain ⟨txin, htxin, hc⟩ := any_eq_true.mp hc
        rw [hin hf tx mem_cons_self txin htxin] at hc
        exact false_ne_true hc
      have htx := mintedDenominations_eq hmint (fun hf n => hout hf tx mem_cons_self n)
        (i := 0) (hread tx mem_cons_self)
      rw [if_neg (by simp), if_neg hany]
      rw [htx, if_pos rfl, hrest]
      rfl

theorem ZerocoinSpendListFromBlock_eq (hproper : Proper Z block)
    (hlist : Unfiltered N fFilterInvalid block) :
    ZerocoinSpendListFromBlock N fFilterInvalid block.vtx = block.spent Z := by
  have hone : ∀ tx ∈ block.vtx, (if tx.IsZerocoinSpend = true then
      (tx.vin.filter fun txin => txin.scriptSig.IsZerocoinSpend && !(fFilterInvalid &&
        (N.Z.TxInToZerocoinSpend txin).any fun spend =>
          N.ContainsSerial spend.coinSerialNumber)).map
        (fun txin => CoinDenomination.ofInt txin.nSequence) else []) = tx.spent Z := by
    intro tx htx
    rw [CTransaction.spent]
    cases hspend : tx.IsZerocoinSpend with
    | false => rfl
    | true =>
      have hfilter : (tx.vin.filter fun txin => txin.scriptSig.IsZerocoinSpend &&
          !(fFilterInvalid && (N.Z.TxInToZerocoinSpend txin).any fun spend =>
            N.ContainsSerial spend.coinSerialNumber)) =
          tx.vin.filter fun txin => txin.scriptSig.IsZerocoinSpend := by
        refine filter_congr fun txin htxin => ?_
        cases hf : fFilterInvalid with
        | false => simp
        | true =>
          cases hs : N.Z.TxInToZerocoinSpend txin with
          | none => simp
          | some spend => simp [(hlist hf).serials tx htx txin htxin spend hs]
      rw [hfilter, ← filterMap_eq_map]
      refine filterMap_congr fun txin htxin => ?_
      obtain ⟨hmem, hz⟩ := mem_filter.mp htxin
      obtain ⟨spend, hs, hdenom⟩ := hproper.spends tx htx hspend txin hmem hz
      rw [hs]
      exact congrArg some hdenom
  rw [ZerocoinSpendListFromBlock, CBlock.spent]
  generalize block.vtx = vtx at hone
  induction vtx with
  | nil => rfl
  | cons tx vtx ih =>
    have hrest := ih fun t ht => hone t (mem_cons_of_mem tx ht)
    have htx := hone tx mem_cons_self
    rw [filter_cons, flatMap_cons, ← htx, ← hrest]
    cases tx.IsZerocoinSpend with
    | false => rfl
    | true => rfl

theorem coin_reading (hread : SameReading Z N.Z) : TxOutToPublicCoin N.Z = TxOutToPublicCoin Z := by
  funext out
  rw [TxOutToPublicCoin, TxOutToPublicCoin, hread.mint]

theorem mintList_eq (hread : SameReading Z N.Z) (hproper : Proper Z block)
    (hlist : Unfiltered N fFilterInvalid block) :
    BlockToZerocoinMintList N fFilterInvalid block.vtx = block.minted Z :=
  BlockToZerocoinMintList_eq (coin_reading hread) (fun hf => (hlist hf).inputs)
    (fun hf => (hlist hf).outputs) hproper.mints

/-! ## The arithmetic -/

section
variable (l : List CoinDenomination) (supply : CoinDenomination → Int) (denom : CoinDenomination)
include l supply denom

theorem foldl_add :
    l.foldl (fun supply d => Function.update supply d (supply d + 1)) supply denom =
      supply denom + l.count denom := by
  induction l generalizing supply with
  | nil => exact (Int.add_zero _).symm
  | cons d l ih =>
    rw [foldl_cons, ih]
    rcases eq_or_ne denom d with rfl | hne
    · rw [update_self, count_cons_self]
      omega
    · rw [update_of_ne hne, count_cons_of_ne hne.symm]

theorem foldl_sub :
    l.foldl (fun supply d => Function.update supply d (supply d - 1)) supply denom =
      supply denom - l.count denom := by
  induction l generalizing supply with
  | nil => exact (Int.sub_zero _).symm
  | cons d l ih =>
    rw [foldl_cons, ih]
    rcases eq_or_ne denom d with rfl | hne
    · rw [update_self, count_cons_self]
      omega
    · rw [update_of_ne hne, count_cons_of_ne hne.symm]

end

theorem spendSupply_ok : ∀ {l : List CoinDenomination} {supply supply' : CoinDenomination → Int},
    spendSupply l supply = .ok supply' → ∀ denom,
      supply' denom = supply denom - l.count denom ∧ (0 ≤ supply denom → 0 ≤ supply' denom)
  | [], supply, _, h, denom => by
    cases h
    exact ⟨(Int.sub_zero _).symm, id⟩
  | d :: l, supply, supply', h, denom => by
    simp only [spendSupply, rejectIf_eq_ok] at h
    obtain ⟨-, hleft, h⟩ := h
    have hnonneg : 0 ≤ supply d - 1 := by simpa using hleft
    obtain ⟨heq, hkeep⟩ := spendSupply_ok h denom
    rcases eq_or_ne denom d with rfl | hne
    · rw [update_self] at heq hkeep
      rw [count_cons_self]
      exact ⟨by omega, fun _ => hkeep hnonneg⟩
    · rw [update_of_ne hne] at heq hkeep
      rw [count_cons_of_ne hne.symm]
      exact ⟨heq, hkeep⟩

theorem UpdateZDIVITSupply_counts {pindex pprev pindex' : CBlockIndex} (hread : SameReading Z N.Z)
    (hproper : Proper Z block)
    (hlist : Unfiltered N (decide (N.P.nBlockRecalculateAccumulators ≤ pindex.nHeight)) block)
    (h : UpdateZDIVITSupply N block pindex pprev = .ok pindex') {denom : CoinDenomination}
    {base : Int}
    (hbase : (if 3 < pprev.nVersion then pprev.mapZerocoinSupply else pindex.mapZerocoinSupply)
      denom = base) (hnonneg : 0 ≤ base) :
    pindex'.mapZerocoinSupply denom =
      base + (block.minted Z).count denom - (block.spent Z).count denom ∧
      0 ≤ pindex'.mapZerocoinSupply denom := by
  simp only [UpdateZDIVITSupply, bind_eq_ok] at h
  obtain ⟨supply, hspend, h⟩ := h
  cases h
  rw [mintList_eq hread hproper hlist, ZerocoinSpendListFromBlock_eq hproper hlist] at hspend
  obtain ⟨heq, hkeep⟩ := spendSupply_ok hspend denom
  rw [foldl_add, hbase] at heq hkeep
  exact ⟨heq, hkeep (by omega)⟩

theorem recalculatedSupply_counts (hread : SameReading Z N.Z) (hproper : Proper Z block)
    (hlist : Unlisted N.toCNode block) (supply : CoinDenomination → Int)
      (denom : CoinDenomination) :
    recalculatedSupply N block supply denom =
      supply denom + (block.minted Z).count denom - (block.spent Z).count denom := by
  rw [recalculatedSupply, mintList_eq hread hproper fun _ => hlist,
    ZerocoinSpendListFromBlock_eq hproper fun _ => hlist]
  exact foldl_sub _ _ _

end

/-! ## What the loop has read -/

section
variable {N : CConnectNode} {Z : Zerocoin} {tx : CTransaction} {pindex : CBlockIndex}
  {block : CBlock}

theorem connectMints_readable : ∀ {vout : List CTxOut} {l l' : List (PublicCoin × uint256)},
    connectMints N tx pindex vout l = .ok l' →
    ∀ txout ∈ vout, txout.IsZerocoinMint = true → (TxOutToPublicCoin N.Z txout).isSome = true
  | [], _, _, _, _, hmem, _ => nomatch hmem
  | out :: vout, l, l', h, txout, hmem, hz => by
    rw [connectMints] at h
    cases hfirst : out.IsZerocoinMint with
    | false =>
      rw [hfirst] at h
      rcases mem_cons.mp hmem with rfl | hmem
      · rw [hz] at hfirst
        cases hfirst
      · exact connectMints_readable h txout hmem hz
    | true =>
      rw [hfirst] at h
      cases hs : TxOutToPublicCoin N.Z out with
      | none =>
        rw [hs] at h
        cases h
      | some coin =>
        rw [hs] at h
        obtain ⟨-, h⟩ := rejectIf_eq_ok.mp h
        rcases mem_cons.mp hmem with rfl | hmem
        · rw [hs]
          rfl
        · exact connectMints_readable h txout hmem hz

theorem connectSpends_readable : ∀ {vin : List CTxIn} {a v : CAmount}
    {l l' : List (CoinSpend × uint256)}, connectSpends N tx pindex vin a l = .ok (v, l') →
    ∀ txin ∈ vin, txin.scriptSig.IsZerocoinSpend = true →
      (N.Z.TxInToZerocoinSpend txin).isSome = true
  | [], _, _, _, _, _, _, hmem, _ => nomatch hmem
  | first :: vin, a, v, l, l', h, txin, hmem, hz => by
    rw [connectSpends] at h
    cases hfirst : first.scriptSig.IsZerocoinSpend with
    | false =>
      rw [hfirst] at h
      rcases mem_cons.mp hmem with rfl | hmem
      · rw [hz] at hfirst
        cases hfirst
      · exact connectSpends_readable h txin hmem hz
    | true =>
      rw [hfirst] at h
      cases hs : N.Z.TxInToZerocoinSpend first with
      | none =>
        rw [hs] at h
        cases h
      | some spend =>
        rw [hs] at h
        obtain ⟨-, h⟩ := rejectIf_eq_ok.mp h
        rcases mem_cons.mp hmem with rfl | hmem
        · rw [hs]
          rfl
        · exact connectSpends_readable h txin hmem hz

theorem connectTx_readable {first : Bool} {st st' : ConnectState}
    (h : connectTx N block pindex first tx st = .ok st') :
    (∀ txout ∈ tx.vout, txout.IsZerocoinMint = true →
        (TxOutToPublicCoin N.Z txout).isSome = true) ∧
      (tx.IsZerocoinSpend = true → ∀ txin ∈ tx.vin, txin.scriptSig.IsZerocoinSpend = true →
        (N.Z.TxInToZerocoinSpend txin).isSome = true) := by
  cases (connectTx_queues h).2 with
  | coinBase hspend hbase =>
    refine ⟨?_, fun hf => by cases hspend.symm.trans hf⟩
    intro txout hmem hz
    have hnone := not_mint_of_isCoinBase hbase
    rw [CTransaction.IsZerocoinMint, any_eq_false] at hnone
    exact absurd hz (hnone txout hmem)
  | ordinary hspend _ _ hmints =>
    exact ⟨connectMints_readable hmints, fun hf => by cases hspend.symm.trans hf⟩
  | spend _ hspends hmints =>
    exact ⟨connectMints_readable hmints, fun _ => connectSpends_readable hspends⟩

theorem connectTxs_readable : ∀ {vtx : List CTransaction} {first : Bool} {st st' : ConnectState},
    connectTxs N block pindex first vtx st = .ok st' → ∀ tx ∈ vtx,
      (∀ txout ∈ tx.vout, txout.IsZerocoinMint = true →
        (TxOutToPublicCoin N.Z txout).isSome = true) ∧
      (tx.IsZerocoinSpend = true → ∀ txin ∈ tx.vin, txin.scriptSig.IsZerocoinSpend = true →
        (N.Z.TxInToZerocoinSpend txin).isSome = true)
  | [], _, _, _, _, _, hmem => nomatch hmem
  | t :: vtx, first, st, st', h, tx, hmem => by
    simp only [connectTxs, bind_eq_ok] at h
    obtain ⟨mid, hmid, hrest⟩ := h
    rcases mem_cons.mp hmem with rfl | hmem
    · exact connectTx_readable hmid
    · exact connectTxs_readable hrest tx hmem

/-- The spends of the block name the denominations of their coins. -/
def NamesDenominations (Z : Zerocoin) (block : CBlock) : Prop :=
  ∀ tx ∈ block.vtx, tx.IsZerocoinSpend = true → ∀ txin ∈ tx.vin,
    txin.scriptSig.IsZerocoinSpend = true → ∀ spend, Z.TxInToZerocoinSpend txin = some spend →
      CoinDenomination.ofInt txin.nSequence = spend.denomination

theorem checkZerocoinInputs_names {N : CNode} {fVerifySignature : Bool} :
    ∀ {vin : List CTxIn} {serials : List Int} {a r : CAmount} {v v' : Bool},
    checkZerocoinInputs N tx fVerifySignature vin serials a v = .ok (r, v') →
    ∀ txin ∈ vin, txin.scriptSig.IsZerocoinSpend = true → ∀ spend,
      N.Z.TxInToZerocoinSpend txin = some spend →
        CoinDenomination.ofInt txin.nSequence = spend.denomination
  | [], _, _, _, _, _, _, _, hmem, _, _, _ => nomatch hmem
  | first :: vin, serials, a, r, v, v', h, txin, hmem, hz, spend, hs => by
    rw [checkZerocoinInputs] at h
    cases hfirst : first.scriptSig.IsZerocoinSpend with
    | false =>
      rw [hfirst] at h
      rcases mem_cons.mp hmem with rfl | hmem
      · rw [hz] at hfirst
        cases hfirst
      · exact checkZerocoinInputs_names h txin hmem hz spend hs
    | true =>
      rw [hfirst] at h
      cases hread : N.Z.TxInToZerocoinSpend first with
      | none =>
        rw [hread] at h
        cases h
      | some newSpend =>
        rw [hread] at h
        simp only [Bool.not_true, Bool.false_eq_true, if_false, rejectIf_eq_ok] at h
        obtain ⟨-, hseq, -, -, -, h⟩ := h
        rcases mem_cons.mp hmem with rfl | hmem
        · obtain rfl : newSpend = spend := Option.some.inj (hread.symm.trans hs)
          have heq : newSpend.denomination.toInt = txin.nSequence := by simpa using hseq
          rw [← heq]
          exact CoinDenomination.ofInt_toInt _
        · exact checkZerocoinInputs_names h txin hmem hz spend hs

theorem CheckBlock_names {N : CNode} {pow merkle : Bool}
    (h : CheckBlock N block pow merkle = .ok ()) (hactive : N.P.nZerocoinStartTime < block.nTime) :
    NamesDenominations N.Z block := by
  simp only [CheckBlock, rejectIf_eq_ok, bind_eq_ok] at h
  obtain ⟨_, _, _, _, _, _, _, _, _, _, _, _, htxs, _⟩ := h
  intro tx htx hspend txin hmem hz spend hs
  have hcheck := checkTransactions_ok htxs tx htx
  rw [decide_eq_true hactive] at hcheck
  simp only [CheckTransaction, rejectIf_eq_ok, bind_eq_ok, hspend, Bool.and_self, if_true] at hcheck
  obtain ⟨_, _, _, _, _, _, _, ⟨_, hcheck⟩, _, _⟩ := hcheck
  simp only [CheckZerocoinSpend, rejectIf_eq_ok, bind_eq_ok] at hcheck
  obtain ⟨_, ⟨r, v⟩, hinputs, _⟩ := hcheck
  exact checkZerocoinInputs_names hinputs txin hmem hz spend hs

end

/-! ## The chain -/

/-- Every entry of the chain has the numbers of the blocks up to it, none below zero. -/
def Counts (Z : Zerocoin) (B : uint256 → CBlock) (index : uint256 → Option ChainEntry)
    (chain : List uint256) : Prop :=
  ∀ hash below, (hash :: below) <:+ chain → ∃ entry, index hash = some entry ∧
    ∀ denom, denom ≠ .ZQ_ERROR →
      entry.pindex.mapZerocoinSupply denom = supplyOf Z ((hash :: below).map B) denom ∧
        0 ≤ entry.pindex.mapZerocoinSupply denom

/-- The entries are of one block, and their numbers are the same. -/
structure Alike (entry entry' : ChainEntry) : Prop where
  block : entry'.block = entry.block
  height : entry'.pindex.nHeight = entry.pindex.nHeight
  version : entry'.pindex.nVersion = entry.pindex.nVersion
  supply : ∀ denom, denom ≠ .ZQ_ERROR →
    entry'.pindex.mapZerocoinSupply denom = entry.pindex.mapZerocoinSupply denom

theorem Alike.refl (entry : ChainEntry) : Alike entry entry := ⟨rfl, rfl, rfl, fun _ _ => rfl⟩

/-- A known entry has one like it. -/
def AlikeAt (index index' : uint256 → Option ChainEntry) (hash : uint256) : Prop :=
  (index hash = none ∧ index' hash = none) ∨
    ∃ entry entry', index hash = some entry ∧ index' hash = some entry' ∧ Alike entry entry'

theorem AlikeAt.of_eq {index index' : uint256 → Option ChainEntry} {hash : uint256}
    (h : index' hash = index hash) : AlikeAt index index' hash := by
  cases hentry : index hash with
  | none => exact .inl ⟨hentry, h.trans hentry⟩
  | some entry => exact .inr ⟨entry, entry, hentry, h.trans hentry, .refl entry⟩

theorem AlikeAt.of_some {index index' : uint256 → Option ChainEntry} {hash : uint256}
    {entry : ChainEntry} (h : AlikeAt index index' hash) (hentry : index hash = some entry) :
    ∃ entry', index' hash = some entry' ∧ Alike entry entry' := by
  rcases h with ⟨hnone, -⟩ | ⟨e, e', he, he', halike⟩
  · rw [hentry] at hnone
    cases hnone
  · obtain rfl : entry = e := Option.some.inj (hentry.symm.trans he)
    exact ⟨e', he', halike⟩

theorem AlikeAt.of_some' {index index' : uint256 → Option ChainEntry} {hash : uint256}
    {entry' : ChainEntry} (h : AlikeAt index index' hash) (hentry : index' hash = some entry') :
    ∃ entry, index hash = some entry ∧ Alike entry entry' := by
  rcases h with ⟨-, hnone⟩ | ⟨e, e', he, he', halike⟩
  · rw [hentry] at hnone
    cases hnone
  · obtain rfl : entry' = e' := Option.some.inj (hentry.symm.trans he')
    exact ⟨e, he, halike⟩

section
variable {Z : Zerocoin} {B : uint256 → CBlock} {index index' : uint256 → Option ChainEntry}
  {chain : List uint256}

theorem Counts.alike (h : Counts Z B index chain)
    (halike : ∀ hash ∈ chain, AlikeAt index index' hash) :
    Counts Z B index' chain := by
  intro hash below hsuffix
  obtain ⟨entry, hentry, hcount⟩ := h hash below hsuffix
  obtain ⟨entry', hentry', hlike⟩ := (halike hash (hsuffix.subset mem_cons_self)).of_some hentry
  refine ⟨entry', hentry', ?_⟩
  intro denom hdenom
  rw [hlike.supply denom hdenom]
  exact hcount denom hdenom

theorem Counts.suffix {below : List uint256} (h : Counts Z B index chain)
    (hsuffix : below <:+ chain) :
    Counts Z B index below := fun hash rest hrest => h hash rest (hrest.trans hsuffix)

/-- **The recalculation finds the numbers it finds there**, when nothing of the chain is on
the lists. -/
theorem recalculate_alike {N : CConnectNode} (hread : SameReading Z N.Z)
    (hblocks : ∀ hash entry, index hash = some entry → entry.block = B hash) :
    ∀ {chain : List uint256}, Counts Z B index chain → (∀ hash ∈ chain, Proper Z (B hash)) →
    (∀ hash ∈ chain, ∀ entry, index hash = some entry →
      N.P.nZerocoinStartHeight ≤ entry.pindex.nHeight → Unlisted N.toCNode entry.block) →
    ∀ hash, AlikeAt index (recalculate N index chain) hash
  | [], _, _, _, _ => .of_eq rfl
  | first :: below, hcounts, hproper, hlist, hash => by
    have hbelow := recalculate_alike hread hblocks
      (hcounts.suffix (suffix_cons first below))
      (fun h hh => hproper h (mem_cons_of_mem first hh))
      (fun h hh => hlist h (mem_cons_of_mem first hh))
    obtain ⟨entry, hentry, hcount⟩ := hcounts first below suffix_rfl
    obtain ⟨entry₁, hentry₁, hlike⟩ := (hbelow first).of_some hentry
    rw [recalculate]
    rw [hentry₁]
    cases hprev : below.head?.bind (recalculate N index below) with
    | none => exact hbelow hash
    | some prev₁ =>
      dsimp only
      by_cases hstart : entry₁.pindex.nHeight < N.P.nZerocoinStartHeight
      · rw [if_pos hstart]
        exact hbelow hash
      rw [if_neg hstart]
      rcases eq_or_ne hash first with rfl | hne
      case inr =>
        have hother := hbelow hash
        rw [AlikeAt, update_of_ne hne]
        exact hother
      refine .inr ⟨entry, _, hentry, update_self _ _ _,
        ⟨hlike.block, hlike.height, hlike.version, ?_⟩⟩
      intro denom hdenom
      -- the previous entry counts the blocks below
      cases hlow : below with
      | nil =>
        rw [hlow] at hprev
        cases hprev
      | cons second rest =>
        rw [hlow] at hprev
        have hprev : recalculate N index (second :: rest) second = some prev₁ := hprev
        have hsuffix : (second :: rest) <:+ (hash :: below) := hlow ▸ suffix_cons hash below
        obtain ⟨prev, hprev₀, hprevCount⟩ := hcounts second rest hsuffix
        obtain ⟨prev₂, hprev₂, hprevLike⟩ := (hbelow second).of_some hprev₀
        rw [hlow, hprev] at hprev₂
        obtain rfl : prev₁ = prev₂ := Option.some.inj hprev₂
        have hblock : entry₁.block = B hash := hlike.block.trans (hblocks hash entry hentry)
        have hunlisted : Unlisted N.toCNode (B hash) := by
          have hl := hlist hash mem_cons_self entry hentry
          rw [hblocks hash entry hentry] at hl
          rw [hlike.height] at hstart
          exact hl (not_lt.mp hstart)
        show recalculatedSupply N entry₁.block prev₁.pindex.mapZerocoinSupply denom = _
        rw [hblock, recalculatedSupply_counts hread
          (hproper hash mem_cons_self) hunlisted,
          hprevLike.supply denom hdenom, (hprevCount denom hdenom).1,
          (hcount denom hdenom).1, hlow, map_cons, map_cons, map_cons,
          supplyOf_cons Z (B hash)]

end

end Divitae
