/-
# `CheckBounds` — what the checks read of a block

`CheckBlock` asks of each transaction whether it is a coinbase before anything has looked at its
scripts, and the payee check reads the second transaction: for the masternode payment, and above
the last proof-of-work height, whatever kind of block it is.

    BlockFound     the bytes of the coinbases, up to a second one
                   the transactions the payee check looks at
                   what each transaction is read for, up to one that is rejected

`CheckBlock` reads nothing out of bounds exactly where it finds these (`inBounds_CheckBlock`).  A
coinbase without a script is read out of bounds, and so is a block of one transaction above the
last proof-of-work height.
-/
import Divitae.BudgetMint
import Divitae.TransactionBounds

namespace Divitae

namespace Bounds

open Reading List

/-! ## The payee -/

section
variable (V : CPaymentNode) (block : CBlock)

/-- The masternode payment is looked for. -/
structure LooksForMasternode (tip : CBlockIndex) : Prop where
  time : START_MASTERNODE_PAYMENTS < block.nTime
  enforced : IsMNSporkActive V.mapMNSporksActive V.base.time
    MN_SPORK_1_MASTERNODE_PAYMENTS_ENFORCEMENT = true
  here : V.base.chainTip = some tip
  prev : tip.phashBlock = some block.hashPrevBlock
  download : V.base.IsInitialBlockDownload = false

/-- What must be there for `IsBlockPayeeValid`. -/
structure PayeeFound (nBlockHeight : Int) : Prop where
  first : V.base.IsSynced = true → 0 < block.vtx.length
  second : V.base.IsSynced = true →
    (∃ tip, LooksForMasternode V block tip) ∨ V.base.P.nLastPOWBlock < nBlockHeight →
      1 < block.vtx.length

end

section
variable {V : CPaymentNode} {block : CBlock} {nBlockHeight : Int}

theorem at_isSome {α : Type} {l : List α} {i : Nat} : (l[i]?).isSome ↔ i < l.length := by
  simp

theorem checkMasternodePayment_isSome : (V.checkMasternodePayment block).isSome ↔
    ((∃ tip, LooksForMasternode V block tip) → 1 < block.vtx.length) := by
  unfold CPaymentNode.checkMasternodePayment
  by_cases hon : (decide (block.nTime > START_MASTERNODE_PAYMENTS) &&
      IsMNSporkActive V.mapMNSporksActive V.base.time
        MN_SPORK_1_MASTERNODE_PAYMENTS_ENFORCEMENT) = true
  · rw [hon, if_neg (by decide)]
    obtain ⟨htime, henforced⟩ := Bool.and_eq_true_iff.mp hon
    cases htip : V.base.chainTip with
    | none =>
      refine iff_of_true rfl ?_
      rintro ⟨tip, hlooks⟩
      cases htip.symm.trans hlooks.here
    | some tip =>
      dsimp only
      by_cases hprev : tip.phashBlock = some block.hashPrevBlock
      · rw [if_neg (not_not.mpr hprev)]
        cases hdownload : V.base.IsInitialBlockDownload with
        | true =>
          refine iff_of_true rfl ?_
          rintro ⟨tip', hlooks⟩
          cases hdownload.symm.trans hlooks.download
        | false =>
          have hlooks : LooksForMasternode V block tip :=
            ⟨of_decide_eq_true htime, henforced, htip, hprev, hdownload⟩
          rw [if_neg Bool.false_ne_true, Option.isSome_map, at_isSome]
          exact ⟨fun h _ => h, fun h => h ⟨tip, hlooks⟩⟩
      · rw [if_pos hprev]
        refine iff_of_true rfl ?_
        rintro ⟨tip', hlooks⟩
        obtain rfl := Option.some.inj (htip.symm.trans hlooks.here)
        exact absurd hlooks.prev hprev
  · rw [Bool.eq_false_iff.mpr hon, if_pos (by decide)]
    refine iff_of_true rfl ?_
    rintro ⟨tip, hlooks⟩
    exact absurd (Bool.and_eq_true_iff.mpr ⟨decide_eq_true hlooks.time, hlooks.enforced⟩) hon

theorem length_of_missed (h : V.checkMasternodePayment block = some false) :
    1 < block.vtx.length := by
  unfold CPaymentNode.checkMasternodePayment at h
  split at h
  · cases h
  · split at h
    · cases h
    · split at h
      · cases h
      · split at h
        · cases h
        · obtain ⟨tx, htx, -⟩ := Option.map_eq_some_iff.mp h
          exact at_isSome.mp (Option.isSome_iff_exists.mpr ⟨tx, htx⟩)

theorem payeeOf_isSome :
    (V.IsBlockPayeeValid block nBlockHeight).isSome ↔ (V.base.IsSynced = true →
      V.checkMasternodePayment block ≠ none ∧
      (V.checkMasternodePayment block = some true →
        (if nBlockHeight > V.base.P.nLastPOWBlock then 1 else 0) < block.vtx.length)) := by
  unfold CPaymentNode.IsBlockPayeeValid
  cases V.base.IsSynced with
  | false => exact iff_of_true rfl (by simp)
  | true =>
    rw [if_neg (by decide)]
    cases V.checkMasternodePayment block with
    | none => exact ⟨by simp, fun h => absurd rfl (h rfl).1⟩
    | some fFound =>
      cases fFound with
      | false => exact iff_of_true rfl fun _ => ⟨Option.some_ne_none _, by simp⟩
      | true =>
        have hat : (if nBlockHeight > V.base.P.nLastPOWBlock then block.vtx[1]?
              else block.vtx[0]?).isSome ↔
            (if nBlockHeight > V.base.P.nLastPOWBlock then 1 else 0) < block.vtx.length := by
          split_ifs
          · exact at_isSome
          · exact at_isSome
        rw [Option.bind_some, if_neg (by decide)]
        refine Iff.trans ?_ (hat.trans ⟨fun h _ => ⟨Option.some_ne_none _, fun _ => h⟩,
          fun h => (h rfl).2 rfl⟩)
        cases (if nBlockHeight > V.base.P.nLastPOWBlock then block.vtx[1]? else block.vtx[0]?) with
        | none => exact Iff.rfl
        | some txNew =>
          refine iff_of_true ?_ rfl
          rw [Option.bind_some]
          split
          · split
            · rfl
            · split <;> rfl
          · rfl

/-- **The payee check reads nothing out of bounds exactly where it finds its transactions.** -/
theorem inBounds_IsBlockPayeeValid :
    (V.IsBlockPayeeValid block nBlockHeight).isSome ↔ PayeeFound V block nBlockHeight := by
  rw [payeeOf_isSome]
  have hmasternode := @checkMasternodePayment_isSome V block
  constructor
  · intro h
    refine ⟨?_, ?_⟩
    · intro hsynced
      obtain ⟨hsome, htrue⟩ := h hsynced
      cases hpaid : V.checkMasternodePayment block with
      | none => exact absurd hpaid hsome
      | some fFound =>
        cases fFound with
        | false => exact Nat.lt_of_succ_lt (length_of_missed hpaid)
        | true => exact Nat.lt_of_le_of_lt (Nat.zero_le _) (htrue hpaid)
    · rintro hsynced (hlooks | hheight)
      · exact hmasternode.mp (Option.isSome_iff_ne_none.mpr (h hsynced).1) hlooks
      · cases hpaid : V.checkMasternodePayment block with
        | none => exact absurd hpaid (h hsynced).1
        | some fFound =>
          cases fFound with
          | false => exact length_of_missed hpaid
          | true =>
            have hlength := (h hsynced).2 hpaid
            rw [if_pos hheight] at hlength
            exact hlength
  · intro h hsynced
    refine ⟨?_, ?_⟩
    · exact Option.isSome_iff_ne_none.mp
        (hmasternode.mpr fun hlooks => h.second hsynced (.inl hlooks))
    · intro _
      split_ifs with hheight
      · exact h.second hsynced (.inr hheight)
      · exact h.first hsynced

end

/-! ## Blocks -/

section
variable (N : CNode) (fZerocoinActive : Bool)

/-- What `CheckBlock` does with an input of a spend, from the serials of the block so far. -/
def readSerial (vBlockSerials : List Int) (txIn : CTxIn) : Reading String (List Int) :=
  if !txIn.scriptSig.IsZerocoinSpend then pure vBlockSerials
  else
    read (TxInToZerocoinSpend N.Z txIn) >>= fun spend =>
    match spend with
    | none => fail "CDataStream::read() : end of data"
    | some spend =>
      reject (vBlockSerials.contains spend.coinSerialNumber) "Double spending of zDIVIT serial"
        >>= fun _ =>
      pure (spend.coinSerialNumber :: vBlockSerials)

def checkSerial (vBlockSerials : List Int) (txIn : CTxIn) : Checked (List Int) :=
  if !txIn.scriptSig.IsZerocoinSpend then .ok vBlockSerials
  else
    match N.Z.TxInToZerocoinSpend txIn with
    | none => .error "CDataStream::read() : end of data"
    | some spend =>
      rejectIf (vBlockSerials.contains spend.coinSerialNumber) "Double spending of zDIVIT serial" <|
      .ok (spend.coinSerialNumber :: vBlockSerials)

/-- What `CheckBlock` does with a transaction. -/
def readTransaction (vBlockSerials : List Int) (tx : CTransaction) : Reading String (List Int) :=
  CheckTransaction N tx fZerocoinActive >>= fun _ =>
  read (IsZerocoinSpend tx) >>= fun spend =>
  if spend then tx.vin.foldlM (readSerial N) vBlockSerials else pure vBlockSerials

def checkTransaction (vBlockSerials : List Int) (tx : CTransaction) : Checked (List Int) :=
  Divitae.CheckTransaction N tx fZerocoinActive >>= fun _ =>
  if tx.IsZerocoinSpend then tx.vin.foldlM (checkSerial N) vBlockSerials else .ok vBlockSerials

/-- What must be there for a transaction of a block: for its checks, and then for the serials. -/
structure BlockTransactionFound (vBlockSerials : List Int) (tx : CTransaction) : Prop where
  checks : TransactionFound N tx fZerocoinActive
  spend : Divitae.CheckTransaction N tx fZerocoinActive = .ok () → FirstByte tx
  inputs : Divitae.CheckTransaction N tx fZerocoinActive = .ok () → tx.IsZerocoinSpend = true →
    AtEach tx.vin fun before txIn => ∀ serials,
      before.foldlM (checkSerial N) vBlockSerials = .ok serials → SpendBytes txIn

end

section
variable {N : CNode} {fZerocoinActive : Bool}

section
variable (vBlockSerials : List Int)
include vBlockSerials

theorem computes_readSerial (txIn : CTxIn) :
    Computes (readSerial N vBlockSerials txIn) (checkSerial N vBlockSerials txIn) := by
  unfold readSerial checkSerial
  split_ifs
  · exact computes_pure _
  · refine computes_read_bind (fun _ h => TxInToZerocoinSpend_eq h) ?_
    cases N.Z.TxInToZerocoinSpend txIn with
    | none => exact computes_fail _
    | some spend => exact computes_rejectIf (computes_reject _ _) (computes_pure _)

theorem inBounds_readSerial (txIn : CTxIn) :
    InBounds (readSerial N vBlockSerials txIn) ↔ SpendBytes txIn := by
  unfold readSerial SpendBytes
  cases txIn.scriptSig.IsZerocoinSpend with
  | false => exact iff_of_true (inBounds_pure _) (by simp)
  | true =>
    rw [if_neg (by decide), inBounds_read_bind fun _ h => TxInToZerocoinSpend_eq h,
      TxInToZerocoinSpend_isSome]
    refine ⟨fun h _ => h.1, fun h => ⟨h rfl, ?_⟩⟩
    cases N.Z.TxInToZerocoinSpend txIn with
    | none => exact inBounds_fail _
    | some spend =>
      rw [inBounds_reject_bind]
      exact fun _ => inBounds_pure _

theorem computes_readTransaction (tx : CTransaction) :
    Computes (readTransaction N fZerocoinActive vBlockSerials tx)
      (checkTransaction N fZerocoinActive vBlockSerials tx) := by
  refine computes_bind computes_CheckTransaction ?_
  intro _ _
  refine computes_read_bind (fun _ h => IsZerocoinSpend_eq h) ?_
  split_ifs
  · exact computes_foldlM computes_readSerial _ _
  · exact computes_pure _

theorem inBounds_readTransaction (tx : CTransaction) :
    InBounds (readTransaction N fZerocoinActive vBlockSerials tx) ↔
      BlockTransactionFound N fZerocoinActive vBlockSerials tx := by
  unfold readTransaction
  rw [inBounds_bind computes_CheckTransaction, inBounds_CheckTransaction,
    inBounds_read_bind fun _ h => IsZerocoinSpend_eq h, IsZerocoinSpend_isSome]
  have hserials : InBounds (if tx.IsZerocoinSpend then tx.vin.foldlM (readSerial N) vBlockSerials
        else pure vBlockSerials) ↔ (tx.IsZerocoinSpend = true →
      AtEach tx.vin fun before txIn => ∀ serials,
        before.foldlM (checkSerial N) vBlockSerials = .ok serials → SpendBytes txIn) := by
    split_ifs with hspend
    · simp only [inBounds_foldlM computes_readSerial, inBounds_readSerial, hspend, true_implies]
    · exact iff_of_true (inBounds_pure _) fun h => absurd h hspend
  rw [hserials]
  constructor
  · rintro ⟨hchecks, hrest⟩
    exact ⟨hchecks, fun hpass => (hrest () hpass).1, fun hpass => (hrest () hpass).2⟩
  · intro h
    exact ⟨h.checks, fun _ hpass => ⟨h.spend hpass, h.inputs hpass⟩⟩

end

end

section
variable (V : CPaymentNode) (block : CBlock) (fCheckPOW fCheckMerkleRoot : Bool)

/-- A transaction has an input that is locked by another one. -/
def conflictsWithLock (tx : CTransaction) : Bool :=
  tx.vin.any fun txin => (V.node.mapLockedInputs txin.prevout).any (· != tx.hash)

/-- The checks in front of the transactions. -/
def checkFront : Checked Unit :=
  CheckBlockHeader V.node.toCNode block (block.IsProofOfWork && fCheckPOW) >>= fun _ =>
  rejectIf (V.node.adjustedTime + (if block.IsProofOfStake then 180 else 7200) < block.nTime)
    "time-too-new" <|
  rejectIf (fCheckMerkleRoot && !V.node.merkleRootMatches block) "bad-txnmrklroot" <|
  rejectIf (block.vtx.isEmpty || MAX_BLOCK_SIZE_CURRENT < block.vtx.length ||
      MAX_BLOCK_SIZE_CURRENT < block.GetSerializeSize) "bad-blk-length" (.ok ())

/-- The first transaction is a coinbase, the others are not. -/
def readCoinBases : Reading String Unit :=
  read block.vtx[0]? >>= fun first =>
  read (IsCoinBase first) >>= fun coinBase =>
  reject (!coinBase) "bad-cb-missing" >>= fun _ =>
  block.vtx.tail.foldlM (fun _ tx =>
    read (IsCoinBase tx) >>= fun coinBase => reject coinBase "bad-cb-multiple") ()

/-- What a proof-of-stake block must be. -/
def readStake : Reading String Unit :=
  if block.IsProofOfStake then
    read block.vtx[0]? >>= fun first =>
    reject (first.vout.length != 1 || !first.vout.all CTxOut.IsEmpty)
      "CheckBlock() : coinbase output not empty for proof-of-stake block" >>= fun _ =>
    read block.vtx[1]? >>= fun second =>
    reject (!second.IsCoinStake) "CheckBlock() : second tx is not coinstake" >>= fun _ =>
    reject ((block.vtx.drop 2).any CTransaction.IsCoinStake)
      "CheckBlock() : more than one coinstake"
  else pure ()

/-- The swiftTX scan. -/
def readLocks : Reading String Unit :=
  if Divitae.IsSporkActive V.node.sporks V.node.time SPORK_3_SWIFTTX_BLOCK_FILTERING then
    block.vtx.foldlM (fun _ tx =>
      read (IsCoinBase tx) >>= fun coinBase =>
      reject (!coinBase && conflictsWithLock V tx) "conflicting-tx-ix") ()
  else pure ()

/-- The payee is looked at. -/
def readPayee : Reading String Unit :=
  match V.node.chainTip with
  | none => pure ()
  | some tip =>
    if heightByPrev V.node.toCNode block tip != 0 && !V.node.IsInitialBlockDownload then
      read (V.IsBlockPayeeValid block (heightByPrev V.node.toCNode block tip)) >>= fun valid =>
      reject (!valid.2) "bad-cb-payee"
    else pure ()

def CheckBlock : Reading String Unit :=
  total (checkFront V block fCheckPOW fCheckMerkleRoot) >>= fun _ =>
  readCoinBases block >>= fun _ =>
  readStake block >>= fun _ =>
  readLocks V block >>= fun _ =>
  readPayee V block >>= fun _ =>
  let fZerocoinActive := decide (V.node.P.nZerocoinStartTime < block.nTime)
  block.vtx.foldlM (readTransaction V.node.toCNode fZerocoinActive) [] >>= fun _ =>
  reject ((if fZerocoinActive then MAX_BLOCK_SIGOPS_CURRENT else MAX_BLOCK_SIGOPS_LEGACY) <
    (block.vtx.map V.node.GetLegacySigOpCount).sum) "bad-blk-sigops"

end

/-! ## The block, stage by stage -/

section
variable (V : CPaymentNode) (block : CBlock) (fCheckPOW fCheckMerkleRoot : Bool)

def checkCoinBases : Checked Unit :=
  rejectIf (!block.vtx.head?.any CTransaction.IsCoinBase) "bad-cb-missing" <|
  rejectIf (block.vtx.tail.any CTransaction.IsCoinBase) "bad-cb-multiple" (.ok ())

def checkStake : Checked Unit :=
  rejectIf (block.IsProofOfStake && !block.vtx.head?.any fun tx =>
      tx.vout.length == 1 && tx.vout.all CTxOut.IsEmpty)
    "CheckBlock() : coinbase output not empty for proof-of-stake block" <|
  rejectIf (block.IsProofOfStake && (block.vtx.drop 2).any CTransaction.IsCoinStake)
    "CheckBlock() : more than one coinstake" (.ok ())

def checkLocks : Checked Unit :=
  rejectIf (Divitae.IsSporkActive V.node.sporks V.node.time SPORK_3_SWIFTTX_BLOCK_FILTERING &&
    block.vtx.any fun tx => !tx.IsCoinBase && conflictsWithLock V tx) "conflicting-tx-ix" (.ok ())

def checkPayee : Checked Unit :=
  rejectIf (V.node.chainTip.any fun tip => heightByPrev V.node.toCNode block tip != 0 &&
      !V.node.IsInitialBlockDownload &&
      !V.AcceptsPayee block (heightByPrev V.node.toCNode block tip))
    "bad-cb-payee" (.ok ())

/-- The payee check is asked, about a height. -/
structure PayeeAsked (tip : CBlockIndex) : Prop where
  front : checkFront V block fCheckPOW fCheckMerkleRoot = .ok ()
  coinBases : checkCoinBases block = .ok ()
  stake : checkStake block = .ok ()
  locks : checkLocks V block = .ok ()
  here : V.node.chainTip = some tip
  height : heightByPrev V.node.toCNode block tip ≠ 0
  download : V.node.IsInitialBlockDownload = false

/-- The checks come to the transactions. -/
structure TransactionsChecked : Prop where
  front : checkFront V block fCheckPOW fCheckMerkleRoot = .ok ()
  coinBases : checkCoinBases block = .ok ()
  stake : checkStake block = .ok ()
  locks : checkLocks V block = .ok ()
  payee : checkPayee V block = .ok ()

/-- What must be there for `CheckBlock`. -/
structure BlockFound : Prop where
  /-- the byte of the first transaction -/
  first : checkFront V block fCheckPOW fCheckMerkleRoot = .ok () →
    ∀ first ∈ block.vtx.head?, CoinBaseByte first
  /-- those of the others, up to a second coinbase -/
  others : checkFront V block fCheckPOW fCheckMerkleRoot = .ok () →
    block.vtx.head?.any CTransaction.IsCoinBase = true →
    AtEach block.vtx.tail fun before tx => before.any CTransaction.IsCoinBase = false →
      CoinBaseByte tx
  /-- the transactions the payee check looks at -/
  payee : ∀ tip, PayeeAsked V block fCheckPOW fCheckMerkleRoot tip →
    PayeeFound V block (heightByPrev V.node.toCNode block tip)
  /-- what is read of the transactions, up to one that is rejected -/
  transactions : TransactionsChecked V block fCheckPOW fCheckMerkleRoot →
    AtEach block.vtx fun before tx => ∀ serials,
      before.foldlM (checkTransaction V.node.toCNode
        (decide (V.node.P.nZerocoinStartTime < block.nTime))) [] = .ok serials →
      BlockTransactionFound V.node.toCNode (decide (V.node.P.nZerocoinStartTime < block.nTime))
        serials tx

end

section
variable {V : CPaymentNode} {block : CBlock} {fCheckPOW fCheckMerkleRoot : Bool}

section
variable (q : Bool → CTransaction → Bool) (reason : String) (vtx : List CTransaction)
include q reason vtx

theorem computes_scan :
    Computes (vtx.foldlM (fun _ tx =>
        read (IsCoinBase tx) >>= fun coinBase => reject (q coinBase tx) reason) ())
      (if (vtx.any fun tx => q tx.IsCoinBase tx) = true then .error reason else .ok ()) := by
  rw [← foldlM_reject]
  refine computes_foldlM ?_ _ _
  intro _ tx
  exact computes_read_bind (fun _ h => IsCoinBase_eq h) (computes_reject _ _)

theorem inBounds_scan :
    InBounds (vtx.foldlM (fun _ tx =>
        read (IsCoinBase tx) >>= fun coinBase => reject (q coinBase tx) reason) ()) ↔
      AtEach vtx fun before tx => (before.any fun tx => q tx.IsCoinBase tx) = false →
        CoinBaseByte tx := by
  have hround : ∀ (s : Unit) (tx : CTransaction), Computes
      (read (IsCoinBase tx) >>= fun coinBase => reject (q coinBase tx) reason)
      (if q tx.IsCoinBase tx = true then .error reason else .ok ()) := fun _ tx =>
    computes_read_bind (fun _ h => IsCoinBase_eq h) (computes_reject _ _)
  have hin (tx : CTransaction) : InBounds
      (read (IsCoinBase tx) >>= fun coinBase => reject (q coinBase tx) reason) ↔
        CoinBaseByte tx := by
    rw [inBounds_read_bind fun _ h => IsCoinBase_eq h, IsCoinBase_isSome]
    exact and_iff_left (inBounds_reject _ _)
  rw [inBounds_foldlM hround]
  simp only [hin, foldlM_reject]
  refine atEach_congr ?_
  intro before tx
  cases before.any fun tx => q tx.IsCoinBase tx with
  | true => exact ⟨nofun, nofun⟩
  | false => exact ⟨fun h _ => h () rfl, fun h _ _ => h rfl⟩

end

theorem computes_readCoinBases (hne : block.vtx ≠ []) :
    Computes (readCoinBases block) (checkCoinBases block) := by
  obtain ⟨first, rest, hvtx⟩ := exists_cons_of_ne_nil hne
  unfold readCoinBases checkCoinBases
  rw [hvtx]
  refine computes_read_bind (a := first) (fun _ h => (Option.some.inj h).symm) ?_
  refine computes_read_bind (fun _ h => IsCoinBase_eq h) ?_
  refine computes_rejectIf (computes_reject _ _) ?_
  exact computes_scan (fun coinBase _ => coinBase) _ _

theorem inBounds_readCoinBases (hne : block.vtx ≠ []) : InBounds (readCoinBases block) ↔
    (∀ first ∈ block.vtx.head?, CoinBaseByte first) ∧
    (block.vtx.head?.any CTransaction.IsCoinBase = true →
      AtEach block.vtx.tail fun before tx => before.any CTransaction.IsCoinBase = false →
        CoinBaseByte tx) := by
  obtain ⟨first, rest, hvtx⟩ := exists_cons_of_ne_nil hne
  unfold readCoinBases
  rw [hvtx]
  rw [inBounds_read_bind (o := (first :: rest)[0]?) (a := first) fun _ h =>
      (Option.some.inj h).symm,
    inBounds_read_bind fun _ h => IsCoinBase_eq h, IsCoinBase_isSome, inBounds_reject_bind]
  have hscan := inBounds_scan (fun coinBase _ => coinBase) "bad-cb-multiple" rest
  rw [tail_cons, hscan]
  constructor
  · rintro ⟨-, hfirst, hrest⟩
    refine ⟨?_, ?_⟩
    · rintro _ ⟨⟩
      exact hfirst
    · intro hcoinBase
      refine hrest ?_
      have hcoinBase : first.IsCoinBase = true := hcoinBase
      rw [hcoinBase]
      rfl
  · rintro ⟨hfirst, hrest⟩
    refine ⟨rfl, hfirst first rfl, ?_⟩
    intro hcoinBase
    exact hrest (by simpa using hcoinBase)

theorem stake_shape (h : block.IsProofOfStake = true) :
    ∃ first second rest, block.vtx = first :: second :: rest ∧ second.IsCoinStake = true := by
  unfold CBlock.IsProofOfStake at h
  split at h
  next first second rest hvtx => exact ⟨first, second, rest, hvtx, h⟩
  · cases h

theorem computes_readStake : Computes (readStake block) (checkStake block) := by
  unfold readStake checkStake
  cases hstake : block.IsProofOfStake with
  | false => exact computes_pure ()
  | true =>
    obtain ⟨first, second, rest, hvtx, hsecond⟩ := stake_shape hstake
    have hempty : (first.vout.length != 1 || !first.vout.all CTxOut.IsEmpty) =
        !((first :: second :: rest).head?.any fun tx =>
          tx.vout.length == 1 && tx.vout.all CTxOut.IsEmpty) :=
      (Bool.not_and _ _).symm
    rw [hvtx, if_pos rfl, Bool.true_and, Bool.true_and, ← hempty]
    refine computes_read_bind (a := first) (fun _ h => (Option.some.inj h).symm) ?_
    refine computes_rejectIf (computes_reject _ _) ?_
    refine computes_read_bind (a := second) (fun _ h => (Option.some.inj h).symm) ?_
    rw [hsecond]
    exact fun r hr => computes_reject _ _ r hr

theorem inBounds_readStake : InBounds (readStake block) := by
  unfold readStake
  cases hstake : block.IsProofOfStake with
  | false => exact inBounds_pure ()
  | true =>
    obtain ⟨first, second, rest, hvtx, hsecond⟩ := stake_shape hstake
    rw [hvtx, if_pos rfl,
      inBounds_read_bind (o := (first :: second :: rest)[0]?) (a := first) fun _ h =>
        (Option.some.inj h).symm, inBounds_reject_bind,
      inBounds_read_bind (o := (first :: second :: rest)[1]?) (a := second) fun _ h =>
        (Option.some.inj h).symm, inBounds_reject_bind]
    exact ⟨rfl, fun _ => ⟨rfl, fun _ => inBounds_reject _ _⟩⟩

theorem computes_readLocks : Computes (readLocks V block) (checkLocks V block) := by
  unfold readLocks checkLocks
  cases Divitae.IsSporkActive V.node.sporks V.node.time SPORK_3_SWIFTTX_BLOCK_FILTERING with
  | false => exact computes_pure ()
  | true =>
    rw [if_pos rfl, Bool.true_and]
    exact computes_scan (fun coinBase tx => !coinBase && conflictsWithLock V tx) _ _

theorem inBounds_readLocks (h : ∀ tx ∈ block.vtx, CoinBaseByte tx) :
    InBounds (readLocks V block) := by
  unfold readLocks
  split_ifs
  · refine (inBounds_scan (fun coinBase tx => !coinBase && conflictsWithLock V tx) _ _).mpr ?_
    intro before tx after hvtx _
    refine h tx ?_
    rw [hvtx]
    exact mem_append_right before mem_cons_self
  · exact inBounds_pure ()

theorem AcceptsPayee_eq {nHeight : Int} {valid : PaymentHistory × Bool}
    (h : V.IsBlockPayeeValid block nHeight = some valid) :
    valid.2 = V.AcceptsPayee block nHeight := by
  unfold CPaymentNode.AcceptsPayee
  rw [h]
  rfl

theorem computes_readPayee : Computes (readPayee V block) (checkPayee V block) := by
  unfold readPayee checkPayee
  cases V.node.chainTip with
  | none => exact computes_pure ()
  | some tip =>
    rw [Option.any_some]
    dsimp only
    cases (heightByPrev V.node.toCNode block tip != 0 && !V.node.IsInitialBlockDownload) with
    | false => exact computes_pure ()
    | true =>
      intro r hr
      cases hvalid : V.IsBlockPayeeValid block (heightByPrev V.node.toCNode block tip) with
      | none =>
        rw [hvalid] at hr
        cases hr
      | some valid =>
        rw [hvalid] at hr
        rw [← AcceptsPayee_eq hvalid]
        exact (Option.some.inj hr).symm

theorem inBounds_readPayee : InBounds (readPayee V block) ↔
    ∀ tip, V.node.chainTip = some tip → heightByPrev V.node.toCNode block tip ≠ 0 →
      V.node.IsInitialBlockDownload = false →
      PayeeFound V block (heightByPrev V.node.toCNode block tip) := by
  unfold readPayee
  cases V.node.chainTip with
  | none => exact iff_of_true (inBounds_pure ()) nofun
  | some tip =>
    dsimp only
    cases hheight : heightByPrev V.node.toCNode block tip != 0 with
    | false =>
      refine iff_of_true (inBounds_pure ()) ?_
      rintro _ ⟨⟩ hne
      exact absurd (bne_iff_ne.mpr hne) (Bool.eq_false_iff.mp hheight)
    | true =>
      cases V.node.IsInitialBlockDownload with
      | true => exact iff_of_true (inBounds_pure ()) nofun
      | false =>
        rw [if_pos (by rfl), inBounds_read_last fun _ => inBounds_reject _ _,
          inBounds_IsBlockPayeeValid]
        constructor
        · rintro h _ ⟨⟩ - -
          exact h
        · intro h
          exact h tip rfl (bne_iff_ne.mp hheight) rfl

theorem front_ne (h : checkFront V block fCheckPOW fCheckMerkleRoot = .ok ()) : block.vtx ≠ [] := by
  intro hnil
  obtain ⟨_, -, h⟩ := bind_eq_ok.mp h
  simp only [rejectIf_eq_ok, hnil] at h
  cases h.2.2.1

theorem coinBase_bytes (hcoinBases : checkCoinBases block = .ok ())
    (hfirst : ∀ first ∈ block.vtx.head?, CoinBaseByte first)
    (hothers : AtEach block.vtx.tail fun before tx =>
      before.any CTransaction.IsCoinBase = false → CoinBaseByte tx) :
    ∀ tx ∈ block.vtx, CoinBaseByte tx := by
  unfold checkCoinBases at hcoinBases
  simp only [rejectIf_eq_ok] at hcoinBases
  obtain ⟨-, hmultiple, -⟩ := hcoinBases
  intro tx htx
  cases hvtx : block.vtx with
  | nil =>
    rw [hvtx] at htx
    cases htx
  | cons first rest =>
    rw [hvtx] at htx hfirst hothers hmultiple
    rcases mem_cons.mp htx with rfl | hrest
    · exact hfirst tx rfl
    · obtain ⟨before, after, hsplit⟩ := append_of_mem hrest
      refine hothers before tx after hsplit ?_
      rw [tail_cons, hsplit, any_append, Bool.or_eq_false_iff] at hmultiple
      exact hmultiple.1

theorem inBounds_afterFront (hne : block.vtx ≠ []) :
    InBounds (readCoinBases block >>= fun _ => readStake block >>= fun _ =>
      readLocks V block >>= fun _ => readPayee V block >>= fun _ =>
      block.vtx.foldlM (readTransaction V.node.toCNode
        (decide (V.node.P.nZerocoinStartTime < block.nTime))) [] >>= fun _ =>
      reject ((if decide (V.node.P.nZerocoinStartTime < block.nTime) then MAX_BLOCK_SIGOPS_CURRENT
          else MAX_BLOCK_SIGOPS_LEGACY) < (block.vtx.map V.node.GetLegacySigOpCount).sum)
        "bad-blk-sigops") ↔
    InBounds (readCoinBases block) ∧ (checkCoinBases block = .ok () → checkStake block = .ok () →
      InBounds (readLocks V block) ∧ (checkLocks V block = .ok () →
        InBounds (readPayee V block) ∧ (checkPayee V block = .ok () →
          AtEach block.vtx fun before tx => ∀ serials,
            before.foldlM (checkTransaction V.node.toCNode
              (decide (V.node.P.nZerocoinStartTime < block.nTime))) [] = .ok serials →
            BlockTransactionFound V.node.toCNode
              (decide (V.node.P.nZerocoinStartTime < block.nTime)) serials tx))) := by
  have hunit {P : Unit → Prop} {t : Checked Unit} :
      (∀ a, t = .ok a → P a) ↔ (t = .ok () → P ()) := ⟨fun h => h (), fun h _ => h⟩
  rw [inBounds_bind (computes_readCoinBases hne), hunit, inBounds_bind computes_readStake, hunit,
    inBounds_bind computes_readLocks, hunit, inBounds_bind computes_readPayee, hunit,
    inBounds_bind (computes_foldlM computes_readTransaction _ _),
    inBounds_foldlM computes_readTransaction]
  simp only [inBounds_readTransaction, inBounds_readStake, true_and]
  refine and_congr_right fun _ => imp_congr_right fun _ => imp_congr_right fun _ =>
    and_congr_right fun _ => imp_congr_right fun _ => and_congr_right fun _ =>
    imp_congr_right fun _ => and_iff_left ?_
  exact fun _ _ => inBounds_reject _ _

/-- **`CheckBlock` reads nothing out of bounds exactly where it finds what it reads.** -/
theorem inBounds_CheckBlock : InBounds (CheckBlock V block fCheckPOW fCheckMerkleRoot) ↔
    BlockFound V block fCheckPOW fCheckMerkleRoot := by
  unfold CheckBlock
  rw [inBounds_bind (computes_total _)]
  constructor
  · rintro ⟨-, hrest⟩
    have hafter (hfront : checkFront V block fCheckPOW fCheckMerkleRoot = .ok ()) :=
      (inBounds_afterFront (front_ne hfront)).mp (hrest () hfront)
    have hbases (hfront : checkFront V block fCheckPOW fCheckMerkleRoot = .ok ()) :=
      (inBounds_readCoinBases (front_ne hfront)).mp (hafter hfront).1
    refine ⟨fun hfront => (hbases hfront).1, fun hfront => (hbases hfront).2, ?_, ?_⟩
    · intro tip h
      exact inBounds_readPayee.mp
        (((hafter h.front).2 h.coinBases h.stake).2 h.locks).1 tip h.here h.height h.download
    · intro h
      exact (((hafter h.front).2 h.coinBases h.stake).2 h.locks).2 h.payee
  · intro h
    refine ⟨inBounds_total _, ?_⟩
    rintro _ hfront
    have hne := front_ne hfront
    refine (inBounds_afterFront hne).mpr
      ⟨(inBounds_readCoinBases hne).mpr ⟨h.first hfront, h.others hfront⟩, ?_⟩
    intro hcoinBases hstake
    have hbases := hcoinBases
    unfold checkCoinBases at hbases
    simp only [rejectIf_eq_ok, Bool.not_eq_false'] at hbases
    refine ⟨inBounds_readLocks (coinBase_bytes hcoinBases (h.first hfront)
      (h.others hfront hbases.1)), ?_⟩
    intro hlocks
    refine ⟨inBounds_readPayee.mpr fun tip hhere hheight hdownload =>
      h.payee tip ⟨hfront, hcoinBases, hstake, hlocks, hhere, hheight, hdownload⟩, ?_⟩
    intro hpayee
    exact h.transactions ⟨hfront, hcoinBases, hstake, hlocks, hpayee⟩

theorem blockSerials_eq {N : CNode} (vin : List CTxIn) (vBlockSerials : List Int) :
    blockSerials N vin vBlockSerials = vin.foldlM (checkSerial N) vBlockSerials := by
  induction vin generalizing vBlockSerials with
  | nil => rfl
  | cons txIn vin ih =>
    rw [foldlM_cons]
    unfold blockSerials checkSerial
    split_ifs
    · exact ih vBlockSerials
    · cases N.Z.TxInToZerocoinSpend txIn with
      | none => rfl
      | some spend =>
        dsimp only
        rw [rejectIf_bind, ih]
        rfl

theorem checkTransactions_eq {N : CNode} {fZerocoinActive : Bool} (vtx : List CTransaction)
    (vBlockSerials : List Int) :
    checkTransactions N fZerocoinActive vtx vBlockSerials =
      (vtx.foldlM (checkTransaction N fZerocoinActive) vBlockSerials >>= fun _ => .ok ()) := by
  induction vtx generalizing vBlockSerials with
  | nil => rfl
  | cons tx vtx ih =>
    rw [foldlM_cons, bind_assoc]
    unfold checkTransactions checkTransaction
    rw [bind_assoc, blockSerials_eq]
    simp only [ih]
    rfl

theorem CheckBlock_eq : Divitae.CheckBlock V.node.toCNode block fCheckPOW fCheckMerkleRoot =
    (checkFront V block fCheckPOW fCheckMerkleRoot >>= fun _ => checkCoinBases block >>= fun _ =>
      checkStake block >>= fun _ => checkLocks V block >>= fun _ => checkPayee V block >>= fun _ =>
      block.vtx.foldlM (checkTransaction V.node.toCNode
        (decide (V.node.P.nZerocoinStartTime < block.nTime))) [] >>= fun _ =>
      rejectIf ((if decide (V.node.P.nZerocoinStartTime < block.nTime) then MAX_BLOCK_SIGOPS_CURRENT
          else MAX_BLOCK_SIGOPS_LEGACY) < (block.vtx.map V.node.GetLegacySigOpCount).sum)
        "bad-blk-sigops" (.ok ())) := by
  unfold Divitae.CheckBlock checkFront checkCoinBases checkStake checkLocks checkPayee
  simp only [checkTransactions_eq, bind_assoc, rejectIf_bind]
  rfl

/-- **What `CheckBlock` comes to without a read out of bounds is what it is modelled as.** -/
theorem computes_CheckBlock : Computes (CheckBlock V block fCheckPOW fCheckMerkleRoot)
    (Divitae.CheckBlock V.node.toCNode block fCheckPOW fCheckMerkleRoot) := by
  rw [CheckBlock_eq]
  refine computes_bind (computes_total _) ?_
  rintro _ hfront
  refine computes_bind (computes_readCoinBases (front_ne hfront)) fun _ _ => ?_
  refine computes_bind computes_readStake fun _ _ => ?_
  refine computes_bind computes_readLocks fun _ _ => ?_
  refine computes_bind computes_readPayee fun _ _ => ?_
  refine computes_bind (computes_foldlM computes_readTransaction _ _) fun _ _ => ?_
  exact computes_reject _ _

end

/-- **The checks stay in bounds exactly where they find what they read**: the bytes and the
transactions at the reads that they come to. -/
theorem checks_in_bounds_iff (V : CPaymentNode) (N : CNode) (block : CBlock)
    (fCheckPOW fCheckMerkleRoot : Bool) (nBlockHeight : Int) (tx : CTransaction)
    (fZerocoinActive : Bool) (txin : CTxIn) (txout : CTxOut) :
    (InBounds (CheckBlock V block fCheckPOW fCheckMerkleRoot) ↔
      BlockFound V block fCheckPOW fCheckMerkleRoot) ∧
    (InBounds (CheckTransaction N tx fZerocoinActive) ↔ TransactionFound N tx fZerocoinActive) ∧
    ((V.IsBlockPayeeValid block nBlockHeight).isSome ↔ PayeeFound V block nBlockHeight) ∧
    ((IsZerocoinSpend tx).isSome ↔ FirstByte tx) ∧
    ((IsCoinBase tx).isSome ↔ CoinBaseByte tx) ∧
    ((TxInToZerocoinSpend N.Z txin).isSome ↔ BIGNUM_SIZE ≤ txin.scriptSig.length) ∧
    ((TxOutToPublicCoin N.Z txout).isSome ↔ SCRIPT_OFFSET ≤ txout.scriptPubKey.length) :=
  ⟨inBounds_CheckBlock, inBounds_CheckTransaction, inBounds_IsBlockPayeeValid,
    IsZerocoinSpend_isSome, IsCoinBase_isSome, TxInToZerocoinSpend_isSome,
    TxOutToPublicCoin_isSome⟩

/-! ## A coinbase without a script

A peer sends a block of proof of stake whose first transaction has an input without a previous
output and without a script. -/

def bareCoinBase : CTransaction := ⟨200, 1, [⟨.SetNull, [], 0⟩], [.empty], 0⟩

def bareBlock : CBlock := { quietBlock COIN [] with vtx := [bareCoinBase, quietStake COIN] }

/-- Its first byte is looked at before anything rejects the block. -/
theorem bare_script_read :
    ¬ (∀ (V : CPaymentNode) (block : CBlock) (fCheckPOW fCheckMerkleRoot : Bool),
        Reading.InBounds (CheckBlock V block fCheckPOW fCheckMerkleRoot)) := by
  intro hall
  have hfound := inBounds_CheckBlock.mp (hall superblockNode bareBlock true true)
  have hfront : checkFront superblockNode bareBlock true true = .ok () := by decide +kernel
  exact hfound.first hfront bareCoinBase rfl _ rfl rfl rfl

end Bounds

end Divitae
