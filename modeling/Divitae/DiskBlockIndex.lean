/-
# `DiskBlockIndex` — an entry of the block index on disk

`CDiskBlockIndex` of `chain.h`, byte for byte: the file positions behind the flags that
announce them, the stake of a proof-of-stake block, the zerocoin figures from header
version 4 on.

    stored               what reading leaves of an entry
    reads_diskBlockIndex it is read back from what was written
-/
import Divitae.BlockTree
import Divitae.Undo

namespace Divitae.BlockIndex

open Codec List Reads

/-- `nStatus`, the bits together. -/
def statusBits (s : BlockStatus) : ℕ :=
  s.valid + 8 * s.haveData.toNat + 16 * s.haveUndo.toNat + 32 * s.failedValid.toNat +
    64 * s.failedChild.toNat

def statusOfBits (n : ℕ) : BlockStatus where
  valid := n % 8
  haveData := n / 8 % 2 == 1
  haveUndo := n / 16 % 2 == 1
  failedValid := n / 32 % 2 == 1
  failedChild := n / 64 % 2 == 1

theorem statusOfBits_statusBits {s : BlockStatus} (h : s.valid < 8) :
    statusOfBits (statusBits s) = s := by
  obtain ⟨valid, haveData, haveUndo, failedValid, failedChild⟩ := s
  dsimp only at h
  unfold statusOfBits statusBits
  simp only [BlockStatus.mk.injEq]
  cases haveData <;> cases haveUndo <;> cases failedValid <;> cases failedChild <;>
    (simp only [Bool.toNat_true, Bool.toNat_false, beq_iff_eq, beq_eq_false_iff_ne, ne_eq]; omega)

/-! ## Pieces -/

/-- An integer of fixed width. -/
def serWord {w : ℕ} (k : ℕ) (b : BitVec w) : List UInt8 := leBytes k b.toNat

def readWord (k w : ℕ) : Reader (BitVec w) := bind (readLE k) fun n => pure (BitVec.ofNat w n)

theorem reads_word {k w : ℕ} (h : 2 ^ w ≤ 256 ^ k) (b : BitVec w) :
    Reads (readWord k w) (serWord k b) b := by
  have hlt : b.toNat < 256 ^ k := Nat.lt_of_lt_of_le b.isLt h
  refine (reads_readLE hlt).map ?_
  rw [BitVec.ofNat_toNat, BitVec.setWidth_eq]
  exact pure b

theorem reads_uint256 (h : uint256) : Reads (readWord 32 256) (serUint256 h) h :=
  reads_word (k := 32) (by decide) h

def readOutPoint : Reader COutPoint :=
  bind (readWord 32 256) fun hash => bind (readLE 4) fun n => pure ⟨hash, n⟩

theorem reads_outPoint {o : COutPoint} (h : o.n < 2 ^ 32) : Reads readOutPoint o.ser o := by
  refine (reads_uint256 o.hash).bind ?_
  exact (reads_readLE (k := 4) h).map (pure o)

/-- `Serialize(CoinDenomination)`. -/
def serDenomination (denom : CoinDenomination) : List UInt8 := leInt 4 denom.toInt

/-- `Unserialize(CoinDenomination&)`. -/
def readDenomination : Reader CoinDenomination :=
  bind (readWord 4 32) fun f => pure (CoinDenomination.ofInt f.toInt)

theorem reads_denomination (denom : CoinDenomination) :
    Reads readDenomination (serDenomination denom) denom := by
  have hbytes : serDenomination denom = serWord 4 (BitVec.ofInt 32 denom.toInt) := by
    cases denom <;> rfl
  have hback : (BitVec.ofInt 32 denom.toInt).toInt = denom.toInt := by
    cases denom <;> rfl
  rw [hbytes]
  refine (reads_word (by decide) _).map ?_
  rw [hback, CoinDenomination.ofInt_toInt]
  exact pure denom

/-- `Serialize` of a vector. -/
def serDenominations (l : List CoinDenomination) : List UInt8 :=
  WriteCompactSize l.length ++ (l.map serDenomination).flatten

def readDenominations : Reader (List CoinDenomination) :=
  bind ReadCompactSize fun nSize => many readDenomination nSize

theorem reads_denominations {l : List CoinDenomination} (h : l.length ≤ MAX_SIZE) :
    Reads readDenominations (serDenominations l) l := by
  have hall : Reads (many readDenomination l.length) (l.map serDenomination).flatten (l.map id) :=
    many fun denom _ => reads_denomination denom
  rw [map_id] at hall
  exact (reads_compactSize h).bind hall

/-! ## The supply -/

namespace SupplyMap

/-- The keys a map may have, in their order. -/
def enumerators : List CoinDenomination := .ZQ_ERROR :: CoinDenomination.zerocoinDenomList

/-- The items of a map, in the order of their keys. -/
def items (m : SupplyMap) : List (CoinDenomination × BitVec 64) :=
  enumerators.filterMap fun denom => (m denom).map fun n => (denom, n)

/-- `std::map::insert`: what is there stays. -/
def insert (m : SupplyMap) (item : CoinDenomination × BitVec 64) : SupplyMap :=
  if (m item.1).isSome then m else Function.update m item.1 (some item.2)

theorem foldl_insert {m acc : SupplyMap} {keys : List CoinDenomination} (hkeys : keys.Nodup)
    (hnone : ∀ denom ∈ keys, acc denom = none) (denom : CoinDenomination) :
    (keys.filterMap fun d => (m d).map fun n => (d, n)).foldl insert acc denom =
      if denom ∈ keys then m denom else acc denom := by
  induction keys generalizing acc with
  | nil => rfl
  | cons key keys ih =>
    obtain ⟨hnot, hrest⟩ := nodup_cons.mp hkeys
    have hfree : acc key = none := hnone key mem_cons_self
    cases hkey : m key with
    | none =>
      rw [filterMap_cons_none (by simp [hkey])]
      rw [ih hrest fun d hd => hnone d (mem_cons_of_mem key hd)]
      rcases eq_or_ne denom key with rfl | hne
      · simp [hnot, hkey, hfree]
      · simp [hne]
    | some n =>
      rw [filterMap_cons_some (b := (key, n)) (by simp [hkey]), foldl_cons]
      have hinsert : insert acc (key, n) = Function.update acc key (some n) := by
        simp [insert, hfree]
      rw [hinsert, ih hrest]
      · rcases eq_or_ne denom key with rfl | hne
        · simp [hnot, hkey]
        · simp [hne]
      · intro d hd
        have hne : d ≠ key := by
          rintro rfl
          exact hnot hd
        rw [Function.update_of_ne hne]
        exact hnone d (mem_cons_of_mem key hd)

theorem foldl_items (m : SupplyMap) : m.items.foldl insert (fun _ => none) = m := by
  funext denom
  have hall : denom ∈ enumerators := by cases denom <;> decide
  exact (foldl_insert (by decide) (fun _ _ => rfl) denom).trans (if_pos hall)

end SupplyMap

/-- `Serialize` of a map. -/
def serSupply (m : SupplyMap) : List UInt8 :=
  WriteCompactSize m.items.length ++
    (m.items.map fun item => serDenomination item.1 ++ serWord 8 item.2).flatten

def readSupply : Reader SupplyMap :=
  bind ReadCompactSize fun nSize =>
  bind (many (bind readDenomination fun denom => bind (readWord 8 64) fun n =>
    pure (denom, n)) nSize)
    fun items => pure (items.foldl SupplyMap.insert fun _ => none)

theorem reads_supply (m : SupplyMap) : Reads readSupply (serSupply m) m := by
  have hsize : m.items.length ≤ MAX_SIZE := Nat.le_trans (length_filterMap_le _ _) (by decide)
  have hitem : ∀ item ∈ m.items, Reads
      (bind readDenomination fun denom => bind (readWord 8 64) fun n => pure (denom, n))
      (serDenomination item.1 ++ serWord 8 item.2) (id item) := by
    intro item _
    refine (reads_denomination item.1).bind ?_
    exact (reads_word (by decide) item.2).map (pure item)
  have hall := many hitem
  rw [map_id] at hall
  refine (reads_compactSize hsize).bind (hall.map ?_)
  rw [SupplyMap.foldl_items]
  exact pure m

/-! ## Entries -/

def CLIENT_VERSION : ℕ := 1000000 * 4 + 10000 * 5 + 100 * 0 + 1 * 0

structure CDiskBlockIndex extends CBlockIndex where
  hashPrev : uint256 := 0
  hashNext : uint256 := 0

namespace CDiskBlockIndex

/-- `CDiskBlockIndex(CBlockIndex*)`. -/
def ofEntry (pindex : CBlockIndex) : CDiskBlockIndex :=
  { pindex with hashPrev := pindex.pprev.getD 0 }

variable (d : CDiskBlockIndex)

def serStatus : List UInt8 :=
  writeVar d.nHeight ++ (writeVar (statusBits d.nStatus) ++ writeVar d.nTx)

def serPositions : List UInt8 :=
  (if d.nStatus.haveData || d.nStatus.haveUndo then writeVar d.nFile else []) ++
    ((if d.nStatus.haveData then writeVar d.nDataPos else []) ++
      (if d.nStatus.haveUndo then writeVar d.nUndoPos else []))

def serFigures : List UInt8 :=
  serWord 8 d.nMint ++ (serWord 8 d.nMoneySupply ++ (serWord 4 d.nFlags ++
    serWord 8 d.nStakeModifier))

def serStake : List UInt8 :=
  if d.IsProofOfStake then d.prevoutStake.ser ++ serWord 4 d.nStakeTime else []

def serHeader : List UInt8 :=
  serWord 4 d.nVersion ++ (serUint256 d.hashPrev ++ (serUint256 d.hashNext ++
    (serUint256 d.hashMerkleRoot ++ (serWord 4 d.nTime ++ (serWord 4 d.nBits ++
      serWord 4 d.nNonce)))))

def serZerocoin : List UInt8 :=
  if hasCheckpoint d.nVersion then
    serUint256 d.nAccumulatorCheckpoint ++ (serSupply d.mapZerocoinSupply ++
      serDenominations d.vMintDenominationsInBlock)
  else []

/-- `SerializationOp`, writing.  The version at the front is the stream's. -/
def ser : List UInt8 :=
  writeVar CLIENT_VERSION ++ (d.serStatus ++ (d.serPositions ++ (d.serFigures ++ (d.serStake ++
    (d.serHeader ++ d.serZerocoin)))))

end CDiskBlockIndex

/-! ### Reading

Each piece is read into the entry that is there so far; what is not announced stays as the
constructor has it. -/

def readStatus (d : CDiskBlockIndex) : Reader CDiskBlockIndex :=
  bind readVar fun nHeight =>
  bind readVar fun nStatus =>
  bind readVar fun nTx =>
  pure { d with nHeight := nHeight, nStatus := statusOfBits nStatus, nTx := nTx }

def readPositions (d : CDiskBlockIndex) : Reader CDiskBlockIndex :=
  bind (if d.nStatus.haveData || d.nStatus.haveUndo then readVar else pure d.nFile) fun nFile =>
  bind (if d.nStatus.haveData then readVar else pure d.nDataPos) fun nDataPos =>
  bind (if d.nStatus.haveUndo then readVar else pure d.nUndoPos) fun nUndoPos =>
  pure { d with nFile := nFile, nDataPos := nDataPos, nUndoPos := nUndoPos }

def readFigures (d : CDiskBlockIndex) : Reader CDiskBlockIndex :=
  bind (readWord 8 64) fun nMint =>
  bind (readWord 8 64) fun nMoneySupply =>
  bind (readWord 4 32) fun nFlags =>
  bind (readWord 8 64) fun nStakeModifier =>
  pure { d with
    nMint := nMint
    nMoneySupply := nMoneySupply
    nFlags := nFlags
    nStakeModifier := nStakeModifier }

def readStake (d : CDiskBlockIndex) : Reader CDiskBlockIndex :=
  if d.IsProofOfStake then
    bind readOutPoint fun prevoutStake =>
    bind (readWord 4 32) fun nStakeTime =>
    pure { d with prevoutStake := prevoutStake, nStakeTime := nStakeTime }
  else pure { d with prevoutStake := .SetNull, nStakeTime := 0, hashProofOfStake := 0 }

def readHeader (d : CDiskBlockIndex) : Reader CDiskBlockIndex :=
  bind (readWord 4 32) fun nVersion =>
  bind (readWord 32 256) fun hashPrev =>
  bind (readWord 32 256) fun hashNext =>
  bind (readWord 32 256) fun hashMerkleRoot =>
  bind (readWord 4 32) fun nTime =>
  bind (readWord 4 32) fun nBits =>
  bind (readWord 4 32) fun nNonce =>
  pure { d with
    nVersion := nVersion
    hashPrev := hashPrev
    hashNext := hashNext
    hashMerkleRoot := hashMerkleRoot
    nTime := nTime
    nBits := nBits
    nNonce := nNonce }

def readZerocoin (d : CDiskBlockIndex) : Reader CDiskBlockIndex :=
  if hasCheckpoint d.nVersion then
    bind (readWord 32 256) fun nAccumulatorCheckpoint =>
    bind readSupply fun mapZerocoinSupply =>
    bind readDenominations fun vMintDenominationsInBlock =>
    pure { d with
      nAccumulatorCheckpoint := nAccumulatorCheckpoint
      mapZerocoinSupply := mapZerocoinSupply
      vMintDenominationsInBlock := vMintDenominationsInBlock }
  else pure d

/-- `SerializationOp`, reading, into a `CDiskBlockIndex()`. -/
def readDiskBlockIndex : Reader CDiskBlockIndex :=
  bind readVar fun _ =>
  bind (readStatus {}) fun d =>
  bind (readPositions d) fun d =>
  bind (readFigures d) fun d =>
  bind (readStake d) fun d =>
  bind (readHeader d) fun d =>
  readZerocoin d

namespace CDiskBlockIndex

variable (d : CDiskBlockIndex)

/-- What reading leaves of an entry: the hash of the stake is not among what is written. -/
def stored : CDiskBlockIndex where
  nHeight := d.nHeight
  nStatus := d.nStatus
  nTx := d.nTx
  nFile := if d.nStatus.haveData || d.nStatus.haveUndo then d.nFile else 0
  nDataPos := if d.nStatus.haveData then d.nDataPos else 0
  nUndoPos := if d.nStatus.haveUndo then d.nUndoPos else 0
  nMint := d.nMint
  nMoneySupply := d.nMoneySupply
  nFlags := d.nFlags
  nStakeModifier := d.nStakeModifier
  prevoutStake := if d.IsProofOfStake then d.prevoutStake else .SetNull
  nStakeTime := if d.IsProofOfStake then d.nStakeTime else 0
  nVersion := d.nVersion
  hashPrev := d.hashPrev
  hashNext := d.hashNext
  hashMerkleRoot := d.hashMerkleRoot
  nTime := d.nTime
  nBits := d.nBits
  nNonce := d.nNonce
  nAccumulatorCheckpoint := if hasCheckpoint d.nVersion then d.nAccumulatorCheckpoint else 0
  mapZerocoinSupply := if hasCheckpoint d.nVersion then d.mapZerocoinSupply else noSupply
  vMintDenominationsInBlock := if hasCheckpoint d.nVersion then d.vMintDenominationsInBlock else []

variable {d}

/-! Each piece, read into any entry. -/

section
variable {acc : CDiskBlockIndex}

theorem reads_status (hvalid : d.nStatus.valid < 8) : Reads (readStatus acc) d.serStatus
    { acc with nHeight := d.nHeight, nStatus := d.nStatus, nTx := d.nTx } := by
  refine (var d.nHeight).bind ((var (statusBits d.nStatus)).bind ?_)
  refine (var d.nTx).map ?_
  rw [statusOfBits_statusBits hvalid]
  exact pure _

theorem reads_positions (hstatus : acc.nStatus = d.nStatus) :
    Reads (readPositions acc) d.serPositions { acc with
      nFile := if d.nStatus.haveData || d.nStatus.haveUndo then d.nFile else acc.nFile
      nDataPos := if d.nStatus.haveData then d.nDataPos else acc.nDataPos
      nUndoPos := if d.nStatus.haveUndo then d.nUndoPos else acc.nUndoPos } := by
  have hflag : ∀ (b : Bool) (n m : ℕ), Reads (if b then readVar else pure m)
      (if b then writeVar n else []) (if b then n else m) := by
    intro b n m
    cases b
    · exact pure m
    · exact var n
  unfold readPositions
  rw [hstatus]
  refine (hflag _ d.nFile acc.nFile).bind ((hflag _ d.nDataPos acc.nDataPos).bind ?_)
  exact (hflag _ d.nUndoPos acc.nUndoPos).map (pure _)

theorem reads_figures : Reads (readFigures acc) d.serFigures { acc with
    nMint := d.nMint
    nMoneySupply := d.nMoneySupply
    nFlags := d.nFlags
    nStakeModifier := d.nStakeModifier } := by
  refine (reads_word (by decide) d.nMint).bind ?_
  refine (reads_word (by decide) d.nMoneySupply).bind ?_
  refine (reads_word (by decide) d.nFlags).bind ?_
  exact (reads_word (by decide) d.nStakeModifier).map (pure _)

theorem reads_stake (hflags : acc.nFlags = d.nFlags) (hproof : acc.hashProofOfStake = 0)
    (hprevout : d.prevoutStake.n < 2 ^ 32) : Reads (readStake acc) d.serStake { acc with
      prevoutStake := if d.IsProofOfStake then d.prevoutStake else .SetNull
      nStakeTime := if d.IsProofOfStake then d.nStakeTime else 0
      hashProofOfStake := 0 } := by
  have hstake : acc.IsProofOfStake = d.IsProofOfStake := by
    unfold CBlockIndex.IsProofOfStake
    rw [hflags]
  unfold readStake serStake
  rw [hstake]
  cases d.IsProofOfStake
  · exact pure _
  · refine (reads_outPoint hprevout).bind ((reads_word (by decide) d.nStakeTime).map ?_)
    rw [← hproof]
    exact pure _

theorem reads_header : Reads (readHeader acc) d.serHeader { acc with
    nVersion := d.nVersion
    hashPrev := d.hashPrev
    hashNext := d.hashNext
    hashMerkleRoot := d.hashMerkleRoot
    nTime := d.nTime
    nBits := d.nBits
    nNonce := d.nNonce } := by
  refine (reads_word (by decide) d.nVersion).bind ?_
  refine (reads_uint256 d.hashPrev).bind ?_
  refine (reads_uint256 d.hashNext).bind ?_
  refine (reads_uint256 d.hashMerkleRoot).bind ?_
  refine (reads_word (by decide) d.nTime).bind ?_
  refine (reads_word (by decide) d.nBits).bind ?_
  exact (reads_word (by decide) d.nNonce).map (pure _)

theorem reads_zerocoin (hversion : acc.nVersion = d.nVersion)
    (hmints : d.vMintDenominationsInBlock.length ≤ MAX_SIZE) :
    Reads (readZerocoin acc) d.serZerocoin { acc with
      nAccumulatorCheckpoint :=
        if hasCheckpoint d.nVersion then d.nAccumulatorCheckpoint else acc.nAccumulatorCheckpoint
      mapZerocoinSupply :=
        if hasCheckpoint d.nVersion then d.mapZerocoinSupply else acc.mapZerocoinSupply
      vMintDenominationsInBlock :=
        if hasCheckpoint d.nVersion then d.vMintDenominationsInBlock
        else acc.vMintDenominationsInBlock } := by
  have hcheckpoint : hasCheckpoint acc.nVersion = hasCheckpoint d.nVersion :=
    congrArg hasCheckpoint hversion
  unfold readZerocoin serZerocoin
  rw [hcheckpoint]
  cases hasCheckpoint d.nVersion
  · exact pure _
  · refine (reads_uint256 d.nAccumulatorCheckpoint).bind ?_
    refine (reads_supply d.mapZerocoinSupply).bind ?_
    exact (reads_denominations hmints).map (pure _)

end

/-- **An entry is read back as `stored`.** -/
theorem reads_diskBlockIndex (hvalid : d.nStatus.valid < 8) (hprevout : d.prevoutStake.n < 2 ^ 32)
    (hmints : d.vMintDenominationsInBlock.length ≤ MAX_SIZE) :
    Reads readDiskBlockIndex d.ser d.stored := by
  refine (var CLIENT_VERSION).bind ?_
  refine (reads_status hvalid).bind ?_
  refine (reads_positions ?_).bind ?_
  · rfl
  refine reads_figures.bind ?_
  refine (reads_stake ?_ ?_ hprevout).bind ?_
  · rfl
  · rfl
  refine reads_header.bind ?_
  refine reads_zerocoin ?_ hmints
  rfl

end CDiskBlockIndex

end Divitae.BlockIndex
