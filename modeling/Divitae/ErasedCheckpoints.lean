/-
# `ErasedCheckpoints` — what erasing checkpoints takes from the base below them

`EraseCheckpoints` erases the accumulator values of a range of blocks, for the accumulators to be
made again from the block below the range, whose own values have to stay:

    "Keep a list of checkpoints from the previous block so that we don't delete them"

The list holds the 32-bit checksums of that block.  What is looked up in it, however, is the
256-bit checkpoint that is being deleted, and not the checksum:

    eraseCheckpoints_eq    the range loses the checksums of each checkpoint that is not itself
                           one of the numbers in the list
    keeps_base_iff         the base keeps its values exactly when no other checkpoint of the
                           range shares a checksum with it
-/
import Divitae.AccumulatedMints

namespace Divitae

open Records

/-- The checksums of a checkpoint, denomination by denomination. -/
def checksumsOf (nCheckpoint : uint256) : List (BitVec 32) :=
  CoinDenomination.zerocoinDenomList.map (ParseChecksum nCheckpoint)

theorem AccumulatorMap.Load_kept {db db' : Store (BitVec 32) Int} {nCheckpoint : uint256}
    (h : ∀ nChecksum ∈ checksumsOf nCheckpoint, db' nChecksum = db nChecksum)
    {m m' : AccumulatorMap} (hload : m.Load db nCheckpoint = some m') :
    ∃ m'', m.Load db' nCheckpoint = some m'' ∧ ∀ denom ∈ CoinDenomination.zerocoinDenomList,
      m''.mapAccumulators denom = m'.mapAccumulators denom := by
  have hdenom : ∀ denom ∈ CoinDenomination.zerocoinDenomList,
      db' (ParseChecksum nCheckpoint denom) = db (ParseChecksum nCheckpoint denom) :=
    fun denom hmem => h _ (List.mem_map_of_mem hmem)
  rw [Load] at hload
  split_ifs at hload with hall
  cases hload
  have hall' : (CoinDenomination.zerocoinDenomList.all fun denom =>
      (db' (ParseChecksum nCheckpoint denom)).isSome) = true := by
    rw [List.all_eq_true] at hall ⊢
    intro denom hmem
    rw [hdenom denom hmem]
    exact hall denom hmem
  refine ⟨_, if_pos hall', ?_⟩
  intro denom hmem
  show (db' (ParseChecksum nCheckpoint denom)).getD 0 =
    (db (ParseChecksum nCheckpoint denom)).getD 0
  rw [hdenom denom hmem]

namespace AccumulatorChain

section
variable (M : CAccumulatorNode) (s : AccumulatorChain)

/-! ## The range -/

/-- So many blocks from a height on, as far as the chain goes. -/
def blocksFrom : Nat → Int → List ChainEntry
  | 0, _ => []
  | n + 1, nHeight =>
    match s.at' nHeight with
    | none => []
    | some entry => entry :: blocksFrom n (nHeight + 1)

def erasedRange (nStartHeight nEndHeight : Int) : List ChainEntry :=
  s.blocksFrom ((min s.Height nEndHeight - nStartHeight).toNat + 1) nStartHeight

/-- What a checkpoint loses, when the checksums of the base are `base`. -/
def lostWith (base : List (BitVec 32)) (nCheckpoint : uint256) : List (BitVec 32) :=
  if base.any fun nChecksum => nChecksum.setWidth 256 == nCheckpoint then []
  else (checksumsOf nCheckpoint).filter M.EraseAccumulatorValue

variable {M s}

theorem foldl_EraseChecksum (ks : List (BitVec 32)) (db : Store (BitVec 32) Int) :
    ks.foldl (EraseChecksum M) db = erase db (ks.filter M.EraseAccumulatorValue) := by
  induction ks generalizing db with
  | nil => exact (erase_nil db).symm
  | cons k ks ih =>
    rw [List.foldl_cons, ih, EraseChecksum]
    split_ifs with h
    · rw [erase_erase, List.filter_cons_of_pos h, List.singleton_append]
    · rw [List.filter_cons_of_neg h]

/-- **What the range loses.** -/
theorem eraseCheckpoints_eq (base : List (BitVec 32)) (n : Nat) (nHeight : Int)
    (db : Store (BitVec 32) Int) :
    eraseCheckpoints M s base n nHeight db =
      erase db ((s.blocksFrom n nHeight).flatMap fun entry =>
        lostWith M base entry.pindex.nAccumulatorCheckpoint) := by
  induction n generalizing nHeight db with
  | zero => exact (erase_nil db).symm
  | succ n ih =>
    rw [eraseCheckpoints, blocksFrom]
    cases hat : s.at' nHeight with
    | none => exact (erase_nil db).symm
    | some entry =>
      show eraseCheckpoints M s base n (nHeight + 1) _ = _
      rw [ih, List.flatMap_cons, ← erase_erase]
      congr 1
      rw [lostWith]
      split_ifs with h
      · exact (erase_nil db).symm
      · rw [← foldl_EraseChecksum, checksumsOf, List.foldl_map]

/-! ## The base -/

/-- After the checkpoints of a range are erased, only checksums that are not in the checkpoint
below have gone, and it loads as before. -/
structure KeepsBase (s : AccumulatorChain) (prev : ChainEntry) (db : Store (BitVec 32) Int) :
    Prop where
  removed : ∀ nChecksum, s.accumulatorValues nChecksum ≠ none → db nChecksum = none →
    nChecksum ∉ checksumsOf prev.pindex.nAccumulatorCheckpoint
  loadable : ∀ m m' : AccumulatorMap,
    m.Load s.accumulatorValues prev.pindex.nAccumulatorCheckpoint = some m' →
    ∃ m'', m.Load db prev.pindex.nAccumulatorCheckpoint = some m'' ∧
      ∀ denom ∈ CoinDenomination.zerocoinDenomList,
        m''.mapAccumulators denom = m'.mapAccumulators denom

/-- A checkpoint of the range does no harm to the base: as a number it is one of the base's
checksums, or what it shares with the base has no value or cannot be erased. -/
def Harmless (M : CAccumulatorNode) (s : AccumulatorChain) (base : List (BitVec 32))
    (nCheckpoint : uint256) : Prop :=
  (∃ nChecksum ∈ base, nChecksum.setWidth 256 = nCheckpoint) ∨
    ∀ nChecksum ∈ checksumsOf nCheckpoint, nChecksum ∈ base →
      s.accumulatorValues nChecksum = none ∨ M.EraseAccumulatorValue nChecksum = false

instance (base : List (BitVec 32)) (nCheckpoint : uint256) :
    Decidable (Harmless M s base nCheckpoint) :=
  @instDecidableOr _ _ (List.decidableBEx _ _) (List.decidableBAll _ _)

theorem harmless_iff {base : List (BitVec 32)} {nCheckpoint : uint256} :
    Harmless M s base nCheckpoint ↔
      ∀ nChecksum ∈ lostWith M base nCheckpoint, nChecksum ∈ base →
        s.accumulatorValues nChecksum = none := by
  have hguard : (base.any fun nChecksum => nChecksum.setWidth 256 == nCheckpoint) = true ↔
      ∃ nChecksum ∈ base, nChecksum.setWidth 256 = nCheckpoint := by
    rw [List.any_eq_true]
    exact exists_congr fun _ => and_congr_right fun _ => beq_iff_eq
  rw [Harmless, lostWith, ← hguard]
  split_ifs with h
  · exact iff_of_true (.inl h) nofun
  · rw [or_iff_right h]
    constructor
    · intro hall nChecksum hlost hbase
      obtain ⟨hmem, herase⟩ := List.mem_filter.mp hlost
      refine (hall nChecksum hmem hbase).resolve_right ?_
      rw [herase]
      exact fun hfalse => Bool.noConfusion hfalse
    · intro hall nChecksum hmem hbase
      cases herase : M.EraseAccumulatorValue nChecksum with
      | false => exact .inr rfl
      | true => exact .inl (hall nChecksum (List.mem_filter.mpr ⟨hmem, herase⟩) hbase)

theorem keepsBase_erase_iff {prev : ChainEntry} (lost : List (BitVec 32)) :
    KeepsBase s prev (erase s.accumulatorValues lost) ↔
      ∀ nChecksum ∈ lost, nChecksum ∈ checksumsOf prev.pindex.nAccumulatorCheckpoint →
        s.accumulatorValues nChecksum = none := by
  constructor
  · intro h nChecksum hlost hbase
    by_contra hvalue
    exact h.removed nChecksum hvalue (erase_of_mem hlost) hbase
  · intro h
    refine ⟨?_, ?_⟩
    · intro nChecksum hvalue hgone hbase
      by_cases hlost : nChecksum ∈ lost
      · exact hvalue (h nChecksum hlost hbase)
      · exact hvalue ((erase_of_not_mem hlost).symm.trans hgone)
    · intro m m' hload
      refine AccumulatorMap.Load_kept ?_ hload
      intro nChecksum hbase
      by_cases hlost : nChecksum ∈ lost
      · rw [erase_of_mem hlost, h nChecksum hlost hbase]
      · exact erase_of_not_mem hlost

theorem EraseCheckpoints_some {nStartHeight nEndHeight : Int} {prev : ChainEntry}
    {db : Store (BitVec 32) Int} (hprev : s.at' (nStartHeight - 1) = some prev)
    (hdb : s.EraseCheckpoints M nStartHeight nEndHeight = some db) :
    db = erase s.accumulatorValues ((s.erasedRange nStartHeight nEndHeight).flatMap fun entry =>
      lostWith M (checksumsOf prev.pindex.nAccumulatorCheckpoint)
        entry.pindex.nAccumulatorCheckpoint) := by
  rw [EraseCheckpoints] at hdb
  split_ifs at hdb
  rw [hprev] at hdb
  exact (Option.some.inj hdb).symm.trans (eraseCheckpoints_eq _ _ _ _)

end

/-- **The base below an erased range keeps its values exactly when every checkpoint of the range
is harmless to it.** -/
theorem keeps_base_iff (M : CAccumulatorNode) (s : AccumulatorChain) (nStartHeight nEndHeight : Int)
    (prev : ChainEntry) (db : Store (BitVec 32) Int)
    (hprev : s.at' (nStartHeight - 1) = some prev)
    (hdb : s.EraseCheckpoints M nStartHeight nEndHeight = some db) :
    KeepsBase s prev db ↔ ∀ entry ∈ s.erasedRange nStartHeight nEndHeight,
      Harmless M s (checksumsOf prev.pindex.nAccumulatorCheckpoint)
        entry.pindex.nAccumulatorCheckpoint := by
  rw [EraseCheckpoints_some hprev hdb, keepsBase_erase_iff]
  constructor
  · intro h entry hentry
    rw [harmless_iff]
    exact fun nChecksum hlost => h nChecksum (List.mem_flatMap.mpr ⟨entry, hentry, hlost⟩)
  · intro h nChecksum hlost
    obtain ⟨entry, hentry, hlost⟩ := List.mem_flatMap.mp hlost
    exact harmless_iff.mp (h entry hentry) nChecksum hlost

/-! ## An accumulator that has not changed -/

/-- From height 30 on every block has the checkpoint of height 30. -/
def sameSince (nHeight : Int) : ChainEntry where
  block := quietBlock COIN []
  pindex :=
    { quietTip nHeight with
      nAccumulatorCheckpoint :=
        if nHeight < 30 then 0 else (fiveIn [.ZQ_ONE]).GetCheckpoint productParams }

def sameStart : AccumulatorChain where
  chainActive := downFrom sameSince 35
  pcoinsTip := oneCoin
  accumulatorValues nChecksum :=
    if nChecksum = 5 then some 5 else if nChecksum = 1 then some 1 else none

theorem at_sameStart {nHeight : Int} {k : Nat} (hheight : nHeight = k) (hk : k ≤ 35) :
    sameStart.at' nHeight = some (sameSince nHeight) := by
  have hfalling : Segment.Falling heightOf sameStart.chainActive := falling_downFrom fun _ => rfl
  have hmem : sameSince k ∈ sameStart.chainActive := mem_downFrom.mpr ⟨k, hk, rfl⟩
  rw [hheight]
  exact at_of_mem hfalling hmem

/-- Nothing is taken from a base without accumulators. -/
theorem first_checkpoint_erased :
    ∃ db, sameStart.EraseCheckpoints mintingNode 30 35 = some db ∧
      KeepsBase sameStart (sameSince 29) db := by
  have hsome : (sameStart.EraseCheckpoints mintingNode 30 35).isSome := by decide +kernel
  obtain ⟨db, hdb⟩ := Option.isSome_iff_exists.mp hsome
  exact ⟨db, hdb, (keeps_base_iff mintingNode sameStart 30 35 (sameSince 29) db
    (@at_sameStart 29 29 rfl (by decide)) hdb).mpr (by decide +kernel)⟩

/-- The five blocks above the base have its own checkpoint, so it loses everything. -/
theorem base_erased :
    ¬ (∀ (M : CAccumulatorNode) (s : AccumulatorChain) (nStartHeight nEndHeight : Int)
        (prev : ChainEntry) (db : Store (BitVec 32) Int),
        s.at' (nStartHeight - 1) = some prev →
        s.EraseCheckpoints M nStartHeight nEndHeight = some db → KeepsBase s prev db) ∧
      ((fiveIn []).Load sameStart.accumulatorValues
        (sameSince 30).pindex.nAccumulatorCheckpoint).isSome ∧
      ∀ db, sameStart.EraseCheckpoints mintingNode 31 35 = some db →
        (fiveIn []).Load db (sameSince 30).pindex.nAccumulatorCheckpoint = none := by
  have hsome : (sameStart.EraseCheckpoints mintingNode 31 35).isSome := by decide +kernel
  obtain ⟨db, hdb⟩ := Option.isSome_iff_exists.mp hsome
  have hprev : sameStart.at' (31 - 1) = some (sameSince 30) := @at_sameStart 30 30 rfl (by decide)
  have hgone : db 5 = none := by
    rw [EraseCheckpoints_some hprev hdb]
    exact erase_of_mem (by decide +kernel)
  refine ⟨?_, by decide +kernel, ?_⟩
  · intro hall
    have hkept := hall mintingNode sameStart 31 35 (sameSince 30) db hprev hdb
    exact hkept.removed 5 (by decide) hgone (by decide +kernel)
  · intro db' hdb'
    obtain rfl := Option.some.inj (hdb.symm.trans hdb')
    have hone : ParseChecksum (sameSince 30).pindex.nAccumulatorCheckpoint .ZQ_ONE = 5 := by
      decide +kernel
    rw [AccumulatorMap.Load, if_neg]
    rw [List.all_eq_true]
    intro hall
    have hread := hall .ZQ_ONE (by decide)
    rw [hone, hgone] at hread
    exact Bool.false_ne_true hread

end AccumulatorChain

end Divitae
