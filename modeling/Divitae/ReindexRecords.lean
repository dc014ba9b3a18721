/-
# `ReindexRecords` — a database made anew, and one kept from the start

Reindexing reads the blocks again and connecting has read them once; both write the same
for a block (`ActiveBlock.recorded`), and how the writes are batched makes no difference
(`reindexFrom_ok`).  So the two databases differ in two places only: in what the wiping has
left, and in what the blocks below the start height have brought.

    Survives m h    what `WipeCoins` leaves under `h`: the record, unless `h` is the hash
                    of a transaction that some record names
    reindex_iff     the two agree exactly where that is what the low blocks brought
-/
import Divitae.Lib.Keyed
import Divitae.ZerocoinReindex

namespace Divitae

open Records List

/-! ## The stores -/

/-- A pair as it is stored, under the hash of the number. -/
def hashed (GetHash : Int → uint256) (e : Int × uint256) : uint256 × uint256 := (GetHash e.1, e.2)

def CoinRecords.store (r : CoinRecords) (kind : ZerocoinKey) : Store uint256 uint256 :=
  fun h => (r.of kind).lookup h

def CoinInfo.pairs (GetHash : Int → uint256) (info : CoinInfo) :
    ZerocoinKey → List (uint256 × uint256)
  | .serial => (info.vSpendInfo.map spendKey).map (hashed GetHash)
  | .coin => (info.vMintInfo.map mintKey).map (hashed GetHash)

section
variable {GetHash : Int → uint256} {info info' more : CoinInfo} {kind : ZerocoinKey}

theorem pairs_none : CoinInfo.none.pairs GetHash kind = [] := by
  cases kind <;> rfl

theorem pairs_append :
    (info.append info').pairs GetHash kind = info.pairs GetHash kind ++
      info'.pairs GetHash kind := by
  cases kind with
  | serial => simp [CoinInfo.pairs, CoinInfo.append]
  | coin => simp [CoinInfo.pairs, CoinInfo.append]

theorem lookup_writeBatch (m : HashMap uint256) (batch : List (Int × uint256)) :
    (fun h => (writeBatch GetHash m batch).lookup h) =
      write (fun h => m.lookup h) (batch.map (hashed GetHash)) := by
  induction batch generalizing m with
  | nil => rfl
  | cons e batch ih =>
    have hinsert : (fun h => (m.insert (GetHash e.1) e.2).lookup h) =
        Function.update (fun h => m.lookup h) (GetHash e.1) (some e.2) := by
      funext h
      rcases eq_or_ne h (GetHash e.1) with rfl | hne
      · rw [AList.lookup_insert, Function.update_self]
      · rw [AList.lookup_insert_ne hne, Function.update_of_ne hne]
    show (fun h => (writeBatch GetHash (m.insert (GetHash e.1) e.2) batch).lookup h) = _
    rw [ih, hinsert]
    rfl

theorem store_writes (r : CoinRecords) (kind : ZerocoinKey) :
    ((r.WriteCoinSpendBatch GetHash info.vSpendInfo).WriteCoinMintBatch GetHash
      info.vMintInfo).store kind = write (r.store kind) (info.pairs GetHash kind) := by
  cases kind with
  | serial => exact lookup_writeBatch r.spends (info.vSpendInfo.map spendKey)
  | coin => exact lookup_writeBatch r.mints (info.vMintInfo.map mintKey)

/-- A record is left by the wiping unless its key is among the transactions. -/
def Survives (m : HashMap uint256) (h : uint256) : Option uint256 :=
  if h ∈ m.entries.map fun e => e.2 then none else m.lookup h

theorem lookup_WipeCoins (m : HashMap uint256) (h : uint256) :
    (WipeCoins m).lookup h = Survives m h := by
  have herased : (Keyed.eraseAll id (m.entries.map fun e => e.2) m).lookup h =
      if h ∈ (m.entries.map fun e => e.2).map id then none else m.lookup h :=
    Keyed.lookup_eraseAll
  rw [map_id] at herased
  exact herased

end

/-! ## The loop -/

section
variable {GetHash : Int → uint256} {Z : Zerocoin} {D : ReindexDisk} {info : CoinInfo}
  {nHeight : Nat} {r r' : CoinRecords} {kind : ZerocoinKey}

/-- The block is recorded to the same effect as `e.2`. -/
def Recorded (GetHash : Int → uint256) (Z : Zerocoin) (e : CBlock × CoinInfo) : Prop :=
  ∃ info, recordBlock Z e.1.vtx = .ok info ∧
    ∀ kind, SameWrites (info.pairs GetHash kind) (e.2.pairs GetHash kind)

theorem flushCoins_ok (h : flushCoins GetHash D nHeight info r = (r', .ok ()))
    (kind : ZerocoinKey) :
    r'.store kind = write (r.store kind) (info.pairs GetHash kind) := by
  rw [flushCoins] at h
  split_ifs at h
  · cases h
  · cases h
  · obtain rfl := congrArg Prod.fst h
    exact store_writes r kind

variable {entries : List (CBlock × CoinInfo)}

/-- **The batches make no difference**: where the loop ends without an error, everything
has been written. -/
theorem reindexFrom_ok
    (hrecorded : ∀ e ∈ entries, Recorded GetHash Z e)
    (h : reindexFrom GetHash Z D nHeight (entries.map Prod.fst) info r = (r', .ok ()))
    (kind : ZerocoinKey) :
    r'.store kind = write (r.store kind)
      (info.pairs GetHash kind ++ entries.flatMap fun e => e.2.pairs GetHash kind) := by
  induction entries generalizing nHeight info r with
  | nil =>
    rw [flatMap_nil, append_nil]
    exact flushCoins_ok h kind
  | cons e entries ih =>
    obtain ⟨more, hmore, hsame⟩ := hrecorded e mem_cons_self
    have hrest : ∀ e ∈ entries, Recorded GetHash Z e := fun e he =>
      hrecorded e (.tail _ he)
    -- the block's own writes, behind those that are due already
    have hboth : SameWrites ((info.append more).pairs GetHash kind)
        (info.pairs GetHash kind ++ e.2.pairs GetHash kind) := by
      rw [pairs_append]
      exact (SameWrites.refl _).append (hsame kind)
    rw [flatMap_cons, ← append_assoc, write_append, ← hboth]
    rw [map_cons, reindexFrom, hmore] at h
    dsimp only at h
    split_ifs at h with hread hflush
    · cases h
    · cases hdue : flushCoins GetHash D nHeight (info.append more) r with
      | mk mid done =>
        cases done with
        | error _ =>
          rw [hdue] at h
          cases h
        | ok _ =>
          rw [hdue] at h
          rw [ih hrest h, flushCoins_ok hdue kind, pairs_none, nil_append]
    · rw [ih hrest h, write_append]

/-- Every block can be read, and every batch written. -/
structure ReindexDisk.Works (D : ReindexDisk) (blocks : List CBlock) : Prop where
  reads : ∀ block ∈ blocks, D.ReadBlockFromDisk block = true
  writesSpends : ∀ nHeight, D.WriteCoinSpendBatch nHeight = true
  writesMints : ∀ nHeight, D.WriteCoinMintBatch nHeight = true

theorem reindexFrom_works
    (hrecorded : ∀ e ∈ entries, Recorded GetHash Z e) (hworks : D.Works (entries.map Prod.fst)) :
    (reindexFrom GetHash Z D nHeight (entries.map Prod.fst) info r).2 = .ok () := by
  have hflush : ∀ nHeight info r, ∃ r', flushCoins GetHash D nHeight info r = (r', .ok ()) := by
    intro nHeight info r
    rw [flushCoins, hworks.writesSpends, hworks.writesMints]
    simp
  induction entries generalizing nHeight info r with
  | nil =>
    obtain ⟨r', hr'⟩ := hflush nHeight info r
    rw [map_nil, reindexFrom, hr']
  | cons e entries ih =>
    obtain ⟨more, hmore, -⟩ := hrecorded e mem_cons_self
    have hread : D.ReadBlockFromDisk e.1 = true := hworks.reads e.1 mem_cons_self
    have hrest : ∀ nHeight info r,
        (reindexFrom GetHash Z D nHeight (entries.map Prod.fst) info r).2 = .ok () := by
      intro nHeight info r
      refine ih (fun e he => hrecorded e (.tail _ he)) ⟨?_, ?_, ?_⟩
      · intro block hblock
        exact hworks.reads block (.tail _ hblock)
      · exact hworks.writesSpends
      · exact hworks.writesMints
    obtain ⟨mid, hmid⟩ := hflush nHeight (info.append more) r
    rw [map_cons, reindexFrom, hread, hmore]
    simp only [Bool.not_true, Bool.false_eq_true, if_false, hmid]
    split_ifs
    · exact hrest _ _ _
    · exact hrest _ _ _

end

/-! ## What connecting has queued -/

section
variable {N : CConnectNode} {tx : CTransaction} {pindex : CBlockIndex}

theorem connectSpends_recorded {vin : List CTxIn} {v v' : CAmount}
    {l l' : List (CoinSpend × uint256)} (h : connectSpends N tx pindex vin v l = .ok (v', l')) :
    ∃ spends, recordSerials N.Z.TxInToZerocoinSpend tx.hash vin = .ok spends ∧
      l' = l ++ spends := by
  induction vin generalizing v l with
  | nil =>
    cases h
    exact ⟨[], rfl, (append_nil _).symm⟩
  | cons txin vin ih =>
    rw [connectSpends] at h
    rw [recordSerials]
    cases hz : txin.scriptSig.IsZerocoinSpend with
    | false =>
      rw [hz] at h
      exact ih h
    | true =>
      rw [hz] at h
      cases hs : N.Z.TxInToZerocoinSpend txin with
      | none =>
        rw [hs] at h
        cases h
      | some spend =>
        rw [hs] at h
        obtain ⟨-, h⟩ := rejectIf_eq_ok.mp h
        obtain ⟨spends, hspends, hl⟩ := ih h
        refine ⟨(spend, tx.hash) :: spends, ?_, ?_⟩
        · show (recordSerials _ _ vin >>= fun rest => _) = _
          rw [hspends]
          rfl
        · rw [hl, append_assoc]
          rfl

variable {vout : List CTxOut}

theorem connectMints_recorded {l l' : List (PublicCoin × uint256)}
    (h : connectMints N tx pindex vout l = .ok l') :
    l' = l ++ recordMints (TxOutToPublicCoin N.Z) tx.hash vout := by
  induction vout generalizing l with
  | nil =>
    cases h
    exact (append_nil _).symm
  | cons out vout ih =>
    rw [connectMints] at h
    rw [recordMints]
    cases hz : out.IsZerocoinMint with
    | false =>
      rw [hz] at h
      exact ih h
    | true =>
      rw [hz] at h
      cases hs : TxOutToPublicCoin N.Z out with
      | none =>
        rw [hs] at h
        cases h
      | some coin =>
        rw [hs] at h
        obtain ⟨-, h⟩ := rejectIf_eq_ok.mp h
        rw [ih h, append_assoc]
        rfl

variable {txid : uint256} {read : CTxOut → Option PublicCoin}

theorem recordMints_none
    (h : ∀ out ∈ vout, out.IsZerocoinMint = false) : recordMints read txid vout = [] := by
  induction vout with
  | nil => rfl
  | cons out vout ih =>
    rw [recordMints, h out mem_cons_self]
    exact ih fun o ho => h o (.tail _ ho)

theorem recordMints_of_not_mint
    (h : tx.IsZerocoinMint = false) : recordMints read txid tx.vout = [] := by
  rw [CTransaction.IsZerocoinMint, any_eq_false] at h
  exact recordMints_none fun out hout => Bool.eq_false_iff.mpr (h out hout)

theorem recordTx_eq (Z : Zerocoin) (tx : CTransaction) : recordTx Z tx =
    (if tx.IsZerocoinSpend then recordSerials Z.TxInToZerocoinSpend tx.hash tx.vin else .ok []) >>=
      fun spends => .ok ⟨spends, recordMints (TxOutToPublicCoin Z) tx.hash tx.vout⟩ := by
  rw [recordTx]
  cases hmint : tx.IsZerocoinMint with
  | true => rfl
  | false =>
    rw [recordMints_of_not_mint hmint]
    rfl

theorem recordTx_of_isCoinBase {Z : Zerocoin} (h : tx.IsCoinBase = true) :
    recordTx Z tx = .ok .none := by
  rw [recordTx_eq, not_spend_of_isCoinBase h, recordMints_of_not_mint (not_mint_of_isCoinBase h)]
  rfl

variable {block : CBlock}

theorem connectTx_recorded {first : Bool} {st st' : ConnectState}
    (h : connectTx N block pindex first tx st = .ok st') :
    ∃ info, recordTx N.Z tx = .ok info ∧ st'.vSpends = st.vSpends ++ info.vSpendInfo ∧
      st'.vMints = st.vMints ++ info.vMintInfo := by
  cases (connectTx_queues h).2 with
  | coinBase _ hbase hspends hmints =>
    rw [hspends, hmints]
    exact ⟨.none, recordTx_of_isCoinBase hbase, (append_nil _).symm, (append_nil _).symm⟩
  | ordinary hspend hbase hspends hmints =>
    rw [recordTx_eq, hspends, hspend]
    exact ⟨⟨[], recordMints (TxOutToPublicCoin N.Z) tx.hash tx.vout⟩, rfl, (append_nil _).symm,
      connectMints_recorded hmints⟩
  | spend hspend hspends hmints =>
    obtain ⟨spends, hrecord, hl⟩ := connectSpends_recorded hspends
    refine ⟨⟨spends, recordMints (TxOutToPublicCoin N.Z) tx.hash tx.vout⟩, ?_, hl,
      connectMints_recorded hmints⟩
    rw [recordTx_eq, hspend, if_pos rfl, hrecord]
    rfl

end

/-! ## The rounds of a transaction -/

section
variable {GetHash : Int → uint256} {Z : Zerocoin} {tx : CTransaction} {info : CoinInfo}

theorem recordSerials_name {read : CTxIn → Option CoinSpend} {vin : List CTxIn}
    {spends : List (CoinSpend × uint256)} (h : recordSerials read txid vin = .ok spends) :
    ∀ e ∈ spends, e.2 = txid := by
  induction vin generalizing spends with
  | nil =>
    cases h
    exact nofun
  | cons txin vin ih =>
    rw [recordSerials] at h
    split_ifs at h
    · exact ih h
    · cases hs : read txin with
      | none =>
        rw [hs] at h
        cases h
      | some spend =>
        rw [hs] at h
        simp only [bind_eq_ok] at h
        obtain ⟨rest, hrest, h⟩ := h
        cases h
        intro e he
        rcases mem_cons.mp he with rfl | he
        · rfl
        · exact ih hrest e he

theorem recordMints_name {read : CTxOut → Option PublicCoin} :
    ∀ e ∈ recordMints read txid vout, e.2 = txid := by
  induction vout with
  | nil => exact nofun
  | cons out vout ih =>
    rw [recordMints]
    split_ifs
    · exact ih
    · intro e he
      rcases mem_cons.mp he with rfl | he
      · rfl
      · exact ih e he

theorem recordTx_name (h : recordTx Z tx = .ok info) (kind : ZerocoinKey) :
    ∀ e ∈ info.pairs GetHash kind, e.2 = tx.hash := by
  rw [recordTx_eq, bind_eq_ok] at h
  obtain ⟨spends, hspends, h⟩ := h
  cases h
  intro e he
  cases kind with
  | serial =>
    obtain ⟨p, hp, rfl⟩ := mem_map.mp he
    obtain ⟨q, hq, rfl⟩ := mem_map.mp hp
    split_ifs at hspends
    · exact recordSerials_name hspends q hq
    · cases hspends
      exact nomatch hq
  | coin =>
    obtain ⟨p, hp, rfl⟩ := mem_map.mp he
    obtain ⟨q, hq, rfl⟩ := mem_map.mp hp
    exact recordMints_name q hq

/-- What `n` rounds record. -/
def CoinInfo.repeated (info : CoinInfo) : Nat → CoinInfo
  | 0 => .none
  | n + 1 => info.append (info.repeated n)

theorem pairs_repeated (n : Nat) (kind : ZerocoinKey) :
    (info.repeated n).pairs GetHash kind =
      (List.replicate n (info.pairs GetHash kind)).flatten := by
  induction n with
  | zero => exact pairs_none
  | succ n ih =>
    rw [CoinInfo.repeated, pairs_append, ih]
    rfl

theorem recordRounds_eq (hbase : tx.IsCoinBase = false) (h : recordTx Z tx = .ok info)
    (vin : List CTxIn) : recordRounds Z tx vin = .ok (info.repeated vin.length) := by
  have hround : (if tx.ContainsZerocoins then recordTx Z tx else .ok .none) = .ok info := by
    cases hz : tx.ContainsZerocoins with
    | true => exact h
    | false =>
      obtain ⟨hspend, hmint⟩ := Bool.or_eq_false_iff.mp hz
      rw [recordTx_eq, hspend, recordMints_of_not_mint hmint] at h
      exact h
  induction vin with
  | nil => rfl
  | cons txin vin ih =>
    rw [recordRounds, hbase, hround, ih]
    rfl

theorem recordRounds_same (GetHash : Int → uint256) (h : recordTx Z tx = .ok info)
    (hvin : tx.vin ≠ []) :
    ∃ rounds, recordRounds Z tx tx.vin = .ok rounds ∧
      ∀ kind, SameWrites (rounds.pairs GetHash kind) (info.pairs GetHash kind) := by
  obtain ⟨txin, vin, hcons⟩ := exists_cons_of_ne_nil hvin
  cases hbase : tx.IsCoinBase with
  | true =>
    obtain rfl : CoinInfo.none = info := Except.ok.inj ((recordTx_of_isCoinBase hbase).symm.trans h)
    refine ⟨.none, ?_, fun kind => .refl _⟩
    rw [hcons, recordRounds, hbase]
    rfl
  | false =>
    refine ⟨info.repeated (vin.length + 1), ?_, ?_⟩
    · rw [hcons]
      exact recordRounds_eq hbase h (txin :: vin)
    · intro kind
      rw [pairs_repeated]
      exact .repeated (recordTx_name h kind) vin.length

variable {vtx : List CTransaction}

/-- **Connecting and reading again**: both write the same for the transactions of a block. -/
theorem connectTxs_recorded (GetHash : Int → uint256) {N : CConnectNode}
    {pindex : CBlockIndex}
    {first : Bool} {st st' : ConnectState}
    (h : connectTxs N block pindex first vtx st = .ok st') (hvin : ∀ tx ∈ vtx, tx.vin ≠ []) :
    ∃ read info : CoinInfo, recordBlock N.Z vtx = .ok read ∧
      st'.vSpends = st.vSpends ++ info.vSpendInfo ∧ st'.vMints = st.vMints ++ info.vMintInfo ∧
      ∀ kind, SameWrites (read.pairs GetHash kind) (info.pairs GetHash kind) := by
  induction vtx generalizing first st with
  | nil =>
    cases h
    exact ⟨.none, .none, rfl, (append_nil _).symm, (append_nil _).symm, fun kind => .refl _⟩
  | cons tx vtx ih =>
    simp only [connectTxs, bind_eq_ok] at h
    obtain ⟨mid, hmid, hrest⟩ := h
    obtain ⟨one, hone, hspends, hmints⟩ := connectTx_recorded hmid
    obtain ⟨rounds, hrounds, hsame⟩ := recordRounds_same GetHash hone (hvin tx mem_cons_self)
    obtain ⟨read, info, hread, hspends', hmints', hsame'⟩ :=
      ih hrest fun t ht => hvin t (.tail _ ht)
    refine ⟨rounds.append read, one.append info, ?_, ?_, ?_, ?_⟩
    · rw [recordBlock, hrounds, hread]
      rfl
    · rw [hspends', hspends, append_assoc]
      rfl
    · rw [hmints', hmints, append_assoc]
      rfl
    · intro kind
      rw [pairs_append, pairs_append]
      exact (hsame kind).append (hsame' kind)

theorem recordBlock_of_coinBase (h : ∀ tx ∈ vtx, tx.IsCoinBase = true) :
    recordBlock Z vtx = .ok .none := by
  induction vtx with
  | nil => rfl
  | cons tx vtx ih =>
    have hrounds : recordRounds Z tx tx.vin = .ok .none := by
      cases tx.vin with
      | nil => rfl
      | cons txin vin =>
        rw [recordRounds, h tx mem_cons_self]
        rfl
    rw [recordBlock, hrounds, ih fun t ht => h t (mem_cons_of_mem _ ht)]
    rfl

end

/-! ## The chain -/

section
variable {GetHash : Int → uint256} {Z : Zerocoin} {kind : ZerocoinKey}

/-- What connecting has queued for a block. -/
def ActiveBlock.info (b : ActiveBlock Z) : CoinInfo := ⟨b.c.vSpends, b.c.vMints⟩

theorem recordTx_congr {Z' : Zerocoin} (h : SameReading Z Z') : recordTx Z' = recordTx Z := by
  have hcoin : TxOutToPublicCoin Z' = TxOutToPublicCoin Z := by
    funext out
    rw [TxOutToPublicCoin, TxOutToPublicCoin, h.mint]
  funext tx
  rw [recordTx, recordTx, h.spend, hcoin]

theorem recordBlock_congr {Z' : Zerocoin} (h : SameReading Z Z') (vtx : List CTransaction) :
    recordBlock Z' vtx = recordBlock Z vtx := by
  have hrounds : ∀ tx vin, recordRounds Z' tx vin = recordRounds Z tx vin := by
    intro tx vin
    induction vin with
    | nil => rfl
    | cons txin vin ih => rw [recordRounds, recordRounds, ih, recordTx_congr h]
  induction vtx with
  | nil => rfl
  | cons tx vtx ih => rw [recordBlock, recordBlock, ih, hrounds]

theorem vin_ne_of_CheckBlock {N : CNode}
    (h : CheckBlock N block true true = .ok ()) :
    ∀ tx ∈ block.vtx, tx.vin ≠ [] := by
  simp only [CheckBlock, rejectIf_eq_ok, bind_eq_ok] at h
  obtain ⟨_, _, _, _, _, _, _, _, _, _, _, _, htxs, _⟩ := h
  intro tx htx hnil
  have hcheck := checkTransactions_ok htxs tx htx
  simp only [CheckTransaction, rejectIf_eq_ok] at hcheck
  rw [hnil] at hcheck
  cases hcheck.1

theorem ActiveBlock.recorded (b : ActiveBlock Z) : Recorded GetHash Z (b.block, b.info) := by
  obtain ⟨N, pindex, pprev, view, fAlreadyChecked, hreading, hgenesis, h⟩ := b.connected
  obtain ⟨N', hcheck⟩ := b.checked
  obtain ⟨pindex', st, -, -, htotals, hc⟩ := ConnectBlock_ok hgenesis h
  obtain ⟨read, info, hread, hspends, hmints, hsame⟩ :=
    connectTxs_recorded GetHash (connectTotals_parts htotals).1 (vin_ne_of_CheckBlock hcheck)
  rw [recordBlock_congr hreading] at hread
  have hinfo : b.info = info := by
    have hleft : b.info = ⟨st.vSpends, st.vMints⟩ := by
      rw [ActiveBlock.info, hc]
    rw [hleft, hspends, hmints]
    rfl
  refine ⟨read, hread, fun kind => ?_⟩
  rw [hinfo]
  exact hsame kind

def ActiveChain.entries (chain : ActiveChain Z) : List (CBlock × CoinInfo) :=
  (chain.genesis, .none) :: chain.above.map fun b => (b.block, b.info)

theorem entries_blocks (chain : ActiveChain Z) : chain.entries.map Prod.fst = chain.blocks := by
  show chain.genesis :: (chain.above.map _).map Prod.fst = chain.genesis :: chain.above.map _
  rw [map_map]
  rfl

theorem entries_recorded (chain : ActiveChain Z) : ∀ e ∈ chain.entries, Recorded GetHash Z e := by
  intro e he
  rcases mem_cons.mp he with rfl | he
  · exact ⟨.none, recordBlock_of_coinBase chain.coinBase, fun kind => .refl _⟩
  · obtain ⟨b, -, rfl⟩ := mem_map.mp he
    exact b.recorded

/-- The pairs of a kind that the blocks bring. -/
def brought (GetHash : Int → uint256) (kind : ZerocoinKey) (entries : List (CBlock × CoinInfo)) :
    List (uint256 × uint256) :=
  entries.flatMap fun e => e.2.pairs GetHash kind

/-- The transaction that the last of these blocks to bring the key brings it with. -/
def lastName (GetHash : Int → uint256) (kind : ZerocoinKey) (entries : List (CBlock × CoinInfo)) :
    Store uint256 uint256 :=
  write (fun _ => none) (brought GetHash kind entries)

theorem connected_store (chain : ActiveChain Z) (kind : ZerocoinKey) :
    (chain.connectedRecords GetHash).store kind = lastName GetHash kind chain.entries := by
  have hfold : ∀ (above : List (ActiveBlock Z)) (r : CoinRecords),
      (above.foldl (connectCoins GetHash) r).store kind =
        write (r.store kind) (brought GetHash kind (above.map fun b => (b.block, b.info))) := by
    intro above
    induction above with
    | nil => exact fun r => rfl
    | cons b above ih =>
      intro r
      have hone : (connectCoins GetHash r b).store kind =
          write (r.store kind) (b.info.pairs GetHash kind) := @store_writes GetHash b.info r kind
      rw [foldl_cons, ih, hone, ← write_append]
      rfl
  have hempty : CoinRecords.empty.store kind = fun _ => none := by
    cases kind <;> rfl
  rw [ActiveChain.connectedRecords, hfold, hempty, lastName, ActiveChain.entries, brought, brought,
    flatMap_cons, pairs_none, nil_append]

/-- The entries below `Zerocoin_StartHeight`. -/
def belowStart {α : Type} (P : CChainParams) (chain : List α) : List α :=
  if P.nZerocoinStartHeight < 0 then chain else chain.take P.nZerocoinStartHeight.toNat

theorem belowStart_append_fromStart {α : Type} (P : CChainParams) (chain : List α) :
    belowStart P chain ++ fromStart P chain = chain := by
  rw [belowStart, fromStart]
  split_ifs
  · exact append_nil chain
  · exact take_append_drop _ chain

theorem fromStart_map {α β : Type} (P : CChainParams) (f : α → β) (chain : List α) :
    fromStart P (chain.map f) = (fromStart P chain).map f := by
  rw [fromStart, fromStart]
  split_ifs
  · rfl
  · exact (map_drop ..).symm

variable {P : CChainParams}

theorem fromStart_subset {α : Type} {chain : List α} {a : α}
    (h : a ∈ fromStart P chain) : a ∈ chain := by
  rw [← belowStart_append_fromStart P chain]
  exact mem_append_right _ h

theorem reindex_store {D : ReindexDisk} (chain : ActiveChain Z)
    {r r' : CoinRecords} (h : ReindexZerocoinDB GetHash Z D P chain.blocks r = (r', .ok ()))
    (kind : ZerocoinKey) :
    r'.store kind =
      write (Survives (r.of kind)) (brought GetHash kind (fromStart P chain.entries)) := by
  rw [ReindexZerocoinDB, ← entries_blocks, fromStart_map] at h
  have hstore := reindexFrom_ok (fun e he => entries_recorded chain e (fromStart_subset he)) h kind
  rw [pairs_none, nil_append] at hstore
  have hwiped : CoinRecords.store ⟨WipeCoins r.spends, WipeCoins r.mints⟩ kind =
      Survives (r.of kind) := by
    funext hash
    cases kind with
    | serial => exact lookup_WipeCoins r.spends hash
    | coin => exact lookup_WipeCoins r.mints hash
  rw [hstore, hwiped]
  rfl

theorem reindex_works (GetHash : Int → uint256) (D : ReindexDisk) (P : CChainParams)
    (chain : ActiveChain Z) (prior : CoinRecords) (hworks : D.Works chain.blocks) :
    (ReindexZerocoinDB GetHash Z D P chain.blocks prior).2 = .ok () := by
  rw [ReindexZerocoinDB, ← entries_blocks, fromStart_map]
  refine reindexFrom_works (fun e he => entries_recorded chain e (fromStart_subset he)) ⟨?_, ?_, ?_⟩
  · intro block hblock
    rw [← fromStart_map, entries_blocks] at hblock
    exact hworks.reads block (fromStart_subset hblock)
  · exact hworks.writesSpends
  · exact hworks.writesMints

theorem connected_split (GetHash : Int → uint256) (P : CChainParams) (chain : ActiveChain Z)
    (kind : ZerocoinKey) : (chain.connectedRecords GetHash).store kind =
      write (lastName GetHash kind (belowStart P chain.entries))
        (brought GetHash kind (fromStart P chain.entries)) := by
  rw [connected_store, lastName, lastName, ← write_append, brought, brought, brought,
    ← flatMap_append, belowStart_append_fromStart]

theorem reindex_same_below {D : ReindexDisk} {chain : ActiveChain Z}
    {prior : CoinRecords} {h : uint256}
    (hok : (ReindexZerocoinDB GetHash Z D P chain.blocks prior).2 = .ok ())
    (hsame : (ReindexZerocoinDB GetHash Z D P chain.blocks prior).1.store kind =
      (chain.connectedRecords GetHash).store kind)
    (hnot : h ∉ (brought GetHash kind (fromStart P chain.entries)).map Prod.fst) :
    Survives (prior.of kind) h = lastName GetHash kind (belowStart P chain.entries) h := by
  have hboth := congrFun hsame h
  rwa [reindex_store chain (Prod.ext rfl hok), connected_split GetHash P, write_of_not_mem hnot,
    write_of_not_mem hnot] at hboth

/-- **Where reindexing leaves what connecting leaves.**  It ends without an error where the
disks work.  It has then made the database of the connected blocks exactly where, under the
keys that no block from the start height on brings, the wiping has left what the blocks
below the start height have brought. -/
theorem reindex_iff (GetHash : Int → uint256) {Z : Zerocoin} (D : ReindexDisk) (P : CChainParams)
    (chain : ActiveChain Z) (prior : CoinRecords) :
    (D.Works chain.blocks → (ReindexZerocoinDB GetHash Z D P chain.blocks prior).2 = .ok ()) ∧
    ((ReindexZerocoinDB GetHash Z D P chain.blocks prior).2 = .ok () →
      ((∀ kind, (ReindexZerocoinDB GetHash Z D P chain.blocks prior).1.store kind =
          (chain.connectedRecords GetHash).store kind) ↔
        ∀ kind h, h ∉ (brought GetHash kind (fromStart P chain.entries)).map Prod.fst →
          Survives (prior.of kind) h = lastName GetHash kind (belowStart P chain.entries) h)) := by
  constructor
  · exact reindex_works GetHash D P chain prior
  · intro hok
    constructor
    · intro hsame kind h hnot
      exact reindex_same_below hok (hsame kind) hnot
    · intro hlow kind
      rw [reindex_store chain (Prod.ext rfl hok), connected_split GetHash P]
      funext h
      by_cases hmem : h ∈ (brought GetHash kind (fromStart P chain.entries)).map Prod.fst
      · exact write_agree hmem _ _
      · rw [write_of_not_mem hmem, write_of_not_mem hmem]
        exact hlow kind h hmem

end

/-! ### A record of an abandoned branch -/

/-- What connecting the block of the examples leaves. -/
def quietConnected : Connected :=
  match ConnectBlock (quietNode 999) (quietBlock (2 * COIN) []) (quietIndex 999) (quietTip 999)
    oneCoin false false with
  | .ok c => c
  | .error _ => ⟨quietIndex 999, oneCoin, [], []⟩

theorem quietConnected_ok : ConnectBlock (quietNode 999) (quietBlock (2 * COIN) [])
    (quietIndex 999) (quietTip 999) oneCoin false false = .ok quietConnected := by
  have hok : (ConnectBlock (quietNode 999) (quietBlock (2 * COIN) []) (quietIndex 999)
      (quietTip 999) oneCoin false false).isOk = true := by
    decide +kernel
  rw [quietConnected]
  cases hc : ConnectBlock (quietNode 999) (quietBlock (2 * COIN) []) (quietIndex 999)
      (quietTip 999) oneCoin false false with
  | ok c => rfl
  | error e =>
    rw [hc] at hok
    cases hok

def quietActive : ActiveBlock quietZerocoin where
  block := quietBlock (2 * COIN) []
  c := quietConnected
  connected := ⟨quietNode 999, quietIndex 999, quietTip 999, oneCoin, false, ⟨rfl, rfl⟩,
    (by decide : (101 : uint256) ≠ 0), quietConnected_ok⟩
  checked := ⟨(quietNode 999).toCNode, by decide +kernel⟩

/-- A chain beyond the start height whose blocks hold no zerocoins. -/
def quietChain : ActiveChain quietZerocoin where
  genesis := ⟨100, 1, 0, 1500000000, [emptyCoinBase], []⟩
  coinBase := by
    intro tx htx
    rw [mem_singleton.mp htx]
    rfl
  above := List.replicate 209470 quietActive

theorem quietChain_brings (GetHash : Int → uint256) (kind : ZerocoinKey) :
    ∀ e ∈ quietChain.entries, e.2.pairs GetHash kind = [] := by
  intro e he
  rcases mem_cons.mp he with rfl | he
  · exact pairs_none
  · obtain ⟨b, hb, rfl⟩ := mem_map.mp he
    obtain rfl : b = quietActive := eq_of_mem_replicate hb
    have hqueued := ConnectBlock_queued (by decide : (101 : uint256) ≠ 0) quietConnected_ok
    cases kind with
    | serial =>
      show (quietConnected.vSpends.map spendKey).map (hashed GetHash) = []
      rfl
    | coin =>
      show (quietConnected.vMints.map mintKey).map (hashed GetHash) = []
      rfl

def staleRecords : CoinRecords := ⟨AList.singleton 9 5, ∅⟩

def workingDisk : ReindexDisk := ⟨fun _ => true, fun _ => true, fun _ => true⟩

/-- The record is found under its key, not under its transaction, and so it is not wiped. -/
theorem stale_record_kept :
    ¬ (∀ (GetHash : Int → uint256) (Z : Zerocoin) (D : ReindexDisk) (P : CChainParams)
        (chain : ActiveChain Z) (prior : CoinRecords), D.Works chain.blocks →
        ∀ kind, (ReindexZerocoinDB GetHash Z D P chain.blocks prior).1.store kind =
          (chain.connectedRecords GetHash).store kind) := by
  intro hall
  let GetHash : Int → uint256 := fun n => BitVec.ofInt 256 n
  have hworks : workingDisk.Works quietChain.blocks := ⟨fun _ _ => rfl, fun _ => rfl, fun _ => rfl⟩
  have hok := reindex_works GetHash workingDisk mainParams quietChain staleRecords hworks
  have hsame := hall GetHash quietZerocoin workingDisk mainParams quietChain staleRecords hworks
  have hnone : ∀ entries, (∀ e ∈ entries, e ∈ quietChain.entries) →
      brought GetHash .serial entries = [] := by
    intro entries hsub
    rw [brought, flatMap_eq_nil_iff]
    exact fun e he => quietChain_brings GetHash .serial e (hsub e he)
  have hfrom : brought GetHash .serial (fromStart mainParams quietChain.entries) = [] :=
    hnone _ fun e he => fromStart_subset he
  have hbelow : brought GetHash .serial (belowStart mainParams quietChain.entries) = [] := by
    refine hnone _ fun e he => ?_
    rw [← belowStart_append_fromStart mainParams quietChain.entries]
    exact mem_append_left _ he
  have hnot : (9 : uint256) ∉
      (brought GetHash .serial (fromStart mainParams quietChain.entries)).map Prod.fst := by
    rw [hfrom]
    exact not_mem_nil
  have hstale := reindex_same_below hok (hsame .serial) hnot
  rw [lastName, hbelow] at hstale
  have hthere : Survives (staleRecords.of .serial) 9 = some 5 := by decide +kernel
  rw [hthere] at hstale
  cases hstale

end Divitae
