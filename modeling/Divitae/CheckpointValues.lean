/-
# `CheckpointValues` — a checkpoint and the accumulators behind it

A checkpoint packs eight checksums of 32 bits, and `Load` looks each of them up in the database.
Loading gives back the checkpoint it started from for two reasons:

    joinChecksums_checksumsOf    packing what was parsed gives the checkpoint again
    Valued A db                  every value of the database lies under its own checksum

The database starts empty and is only written by `AddAccumulatorChecksum`, under the checksum of
the value, so it is `Valued` after any run.  A step of the chain is such a run
(`accumulatorStep_values`).
-/
import Divitae.ErasedCheckpoints

namespace Divitae

open Records List

namespace AccumulatorMap

theorem shift_append (nCheckpoint : uint256) (n : Nat) :
    (nCheckpoint >>> (32 * (n + 1))) <<< 32 |||
        ((nCheckpoint >>> (32 * n)).setWidth 32).setWidth 256 =
      nCheckpoint >>> (32 * n) := by
  ext i hi
  by_cases hlow : i < 32
  · simp [hlow]
  · have hsame : 32 * (n + 1) + (i - 32) = 32 * n + i := by omega
    simp [hlow, hsame]

theorem joinChecksums_first (nCheckpoint : uint256) {k : Nat} (hk : k ≤ 8) :
    joinChecksums ((List.range k).map fun i => (nCheckpoint >>> (32 * (7 - i))).setWidth 32) =
      nCheckpoint >>> (32 * (8 - k)) := by
  induction k with
  | zero =>
    ext i hi
    simp [joinChecksums]
  | succ k ih =>
    have hprev : 8 - k = 7 - k + 1 := by omega
    have hnext : 8 - (k + 1) = 7 - k := by omega
    rw [range_succ, map_append, map_singleton, joinChecksums_concat, ih (by omega), hprev, hnext]
    exact shift_append nCheckpoint (7 - k)

theorem joinChecksums_checksumsOf (nCheckpoint : uint256) :
    joinChecksums (checksumsOf nCheckpoint) = nCheckpoint := by
  have hall := joinChecksums_first nCheckpoint (le_refl 8)
  exact hall

end AccumulatorMap

/-! ## The values of the database -/

/-- What is done to the accumulator values: `AddAccumulatorChecksum` of a value at the height of
the chain, `EraseChecksum` where the database can, and a new start with `-reindex`. -/
inductive ValueEvent where
  | addChecksum (nHeight : Int) (bnValue : Int)
  | eraseChecksum (nChecksum : BitVec 32)
  | reindex

section
variable (P : CChainParams) (A : AccumulatorParams)

def AddAccumulatorChecksum (nHeight : Int) (nChecksum : BitVec 32) (bnValue : Int)
    (db : Store (BitVec 32) Int) : Store (BitVec 32) Int :=
  if P.nBlockZerocoinV2 ≤ nHeight then write db [(nChecksum, bnValue)] else db

def valueStep (db : Store (BitVec 32) Int) : ValueEvent → Store (BitVec 32) Int
  | .addChecksum nHeight bnValue =>
    AddAccumulatorChecksum P nHeight (A.GetChecksum bnValue) bnValue db
  | .eraseChecksum nChecksum => erase db [nChecksum]
  | .reindex => fun _ => none

/-- The database behind some events, from an empty one. -/
def valuesAfter (events : List ValueEvent) : Store (BitVec 32) Int :=
  events.foldl (valueStep P A) fun _ => none

/-- A run of the database leads from the one to the other. -/
def RunsTo (db db' : Store (BitVec 32) Int) : Prop :=
  ∃ events : List ValueEvent, db' = events.foldl (valueStep P A) db

end

/-- Every value lies under its own checksum. -/
def Valued (A : AccumulatorParams) (db : Store (BitVec 32) Int) : Prop :=
  ∀ nChecksum bnValue, db nChecksum = some bnValue → A.GetChecksum bnValue = nChecksum

section
variable {P : CChainParams} {A : AccumulatorParams} {db db' db'' : Store (BitVec 32) Int}

theorem Valued.step (h : Valued A db) (e : ValueEvent) : Valued A (valueStep P A db e) := by
  intro nChecksum bnValue hread
  cases e with
  | addChecksum nHeight bnNew =>
    rw [valueStep, AddAccumulatorChecksum] at hread
    split_ifs at hread
    · rcases write_eq_some hread with hmem | hread
      · obtain ⟨rfl, rfl⟩ := Prod.mk.inj (mem_singleton.mp hmem)
        rfl
      · exact h nChecksum bnValue hread
    · exact h nChecksum bnValue hread
  | eraseChecksum nErased => exact h nChecksum bnValue (erase_eq_some.mp hread).2
  | reindex => exact absurd hread (by simp [valueStep])

theorem RunsTo.valued (h : RunsTo P A db db') (hdb : Valued A db) : Valued A db' := by
  obtain ⟨events, rfl⟩ := h
  exact Run.run_inv (fun _ e hvalued _ => hvalued.step e) hdb
    (Run.guarded_of_forall (p := fun _ => True) fun _ _ => trivial)

theorem valued_after (events : List ValueEvent) : Valued A (valuesAfter P A events) :=
  RunsTo.valued ⟨events, rfl⟩ fun _ _ h => absurd h (by simp)

theorem Valued.load_checkpoint (h : Valued A db) {nCheckpoint : uint256} (m : AccumulatorMap)
    (hvalues : ∀ nChecksum ∈ checksumsOf nCheckpoint, (db nChecksum).isSome) :
    ∃ m', m.Load db nCheckpoint = some m' ∧ m'.GetCheckpoint A = nCheckpoint := by
  have hall : (CoinDenomination.zerocoinDenomList.all fun denom =>
      (db (ParseChecksum nCheckpoint denom)).isSome) = true := by
    rw [all_eq_true]
    exact fun denom hmem => hvalues _ (mem_map_of_mem hmem)
  refine ⟨_, if_pos hall, ?_⟩
  have hsums : CoinDenomination.zerocoinDenomList.map (fun denom =>
      A.GetChecksum ((db (ParseChecksum nCheckpoint denom)).getD 0)) = checksumsOf nCheckpoint := by
    refine map_congr_left ?_
    intro denom hmem
    obtain ⟨bnValue, hread⟩ := Option.isSome_iff_exists.mp (hvalues _ (mem_map_of_mem hmem))
    rw [hread, Option.getD_some]
    exact h _ bnValue hread
  rw [AccumulatorMap.GetCheckpoint, hsums, AccumulatorMap.joinChecksums_checksumsOf]

/-! ## The chain runs the database -/

theorem RunsTo.refl (db : Store (BitVec 32) Int) : RunsTo P A db db := ⟨[], rfl⟩

theorem RunsTo.trans (h : RunsTo P A db db') (h' : RunsTo P A db' db'') : RunsTo P A db db'' := by
  obtain ⟨events, rfl⟩ := h
  obtain ⟨events', rfl⟩ := h'
  exact ⟨events ++ events', (foldl_append).symm⟩

theorem runsTo_erase (ks : List (BitVec 32)) (db : Store (BitVec 32) Int) :
    RunsTo P A db (erase db ks) := by
  induction ks generalizing db with
  | nil =>
    exact RunsTo.refl db
  | cons k ks ih =>
    have hfirst : RunsTo P A db (erase db [k]) := ⟨[.eraseChecksum k], rfl⟩
    have hboth := hfirst.trans (ih (erase db [k]))
    rw [erase_erase, singleton_append] at hboth
    exact hboth

namespace AccumulatorChain

variable {M : CAccumulatorNode} {s : AccumulatorChain} {nHeight : Int}

theorem runsTo_DatabaseChecksums (m : AccumulatorMap) (db : Store (BitVec 32) Int) :
    RunsTo P A db (s.DatabaseChecksums P A m db) := by
  rw [DatabaseChecksums]
  split_ifs with hV2
  · have hadd : ∀ (denoms : List CoinDenomination) (db : Store (BitVec 32) Int),
        RunsTo P A db (write db (denoms.map fun denom =>
          (A.GetChecksum (m.mapAccumulators denom), m.mapAccumulators denom))) := by
      intro denoms
      induction denoms with
      | nil => exact fun db => RunsTo.refl db
      | cons denom denoms ih =>
        intro db
        refine RunsTo.trans ⟨[.addChecksum s.Height (m.mapAccumulators denom)], ?_⟩ (ih _)
        rw [foldl_cons, foldl_nil, valueStep, AddAccumulatorChecksum, if_pos hV2]
        rfl
    exact hadd _ db
  · exact RunsTo.refl db

theorem runsTo_EraseCheckpoints {nStartHeight nEndHeight : Int}
    (h : s.EraseCheckpoints M nStartHeight nEndHeight = some db) :
    RunsTo P A s.accumulatorValues db := by
  rw [EraseCheckpoints] at h
  split_ifs at h
  cases hprev : s.at' (nStartHeight - 1) with
  | none =>
    rw [hprev] at h
    exact absurd h (by simp)
  | some prev =>
    rw [hprev] at h
    rw [← Option.some.inj h, eraseCheckpoints_eq]
    exact runsTo_erase _ _

theorem runsTo_InitializeAccumulators :
    RunsTo P A s.accumulatorValues (s.InitializeAccumulators P A M nHeight).1 := by
  rw [InitializeAccumulators]
  dsimp only
  split
  · exact RunsTo.refl _
  split
  · -- the height at which everything is made again
    split
    · exact RunsTo.refl _
    split
    · exact RunsTo.refl _
    next db herase => exact runsTo_EraseCheckpoints herase
  split
  · split <;> exact RunsTo.refl _
  split
  · exact RunsTo.refl _
  split
  · exact RunsTo.refl _
  split <;> exact RunsTo.refl _

theorem runsTo_CalculateAccumulatorCheckpoint :
    RunsTo P A s.accumulatorValues (s.CalculateAccumulatorCheckpoint P A M nHeight).1 := by
  have hdb := @runsTo_InitializeAccumulators P A M s nHeight
  rw [CalculateAccumulatorCheckpoint]
  split
  next db hinit =>
    rw [hinit] at hdb
    exact hdb
  next db nHeightCheckpoint m hinit =>
    rw [hinit] at hdb
    dsimp only
    split
    · exact hdb
    · split_ifs
      · exact hdb
      · exact hdb

theorem runsTo_ValidateAccumulatorCheckpoint (nCheckpoint : uint256) (prev : ChainEntry) :
    RunsTo P A s.accumulatorValues
      (s.ValidateAccumulatorCheckpoint P A M nHeight nCheckpoint prev).1 := by
  have hdb := @runsTo_CalculateAccumulatorCheckpoint P A M s nHeight
  rw [ValidateAccumulatorCheckpoint]
  split
  · exact RunsTo.refl _
  split
  · split
    next db hcalc =>
      rw [hcalc] at hdb
      exact hdb
    next db nCalculated m hcalc =>
      rw [hcalc] at hdb
      split
      · exact hdb
      · exact hdb
  split <;> exact RunsTo.refl _

theorem TipOutcome.values {block : CBlock} {nCheckpoint : uint256} {s' : AccumulatorChain}
    (h : TipOutcome P A M s block nCheckpoint s') :
    RunsTo P A s.accumulatorValues s'.accumulatorValues := by
  have hvalidated {tip : ChainEntry} {db : Store (BitVec 32) Int} {m : Option AccumulatorMap}
      (hvalid : s.ValidateAccumulatorCheckpoint P A M (tip.pindex.nHeight + 1) nCheckpoint tip =
        (db, m)) : RunsTo P A s.accumulatorValues db := by
    have hdb := @runsTo_ValidateAccumulatorCheckpoint P A M s (tip.pindex.nHeight + 1)
      nCheckpoint tip
    rw [hvalid] at hdb
    exact hdb
  cases h with
  | unchanged => exact RunsTo.refl _
  | unwritten tip rest db m hchain hvalid => exact hvalidated hvalid
  | written tip rest db m hchain hvalid =>
    exact (hvalidated hvalid).trans (runsTo_DatabaseChecksums m db)
  | connected tip rest db m entry view hchain hvalid hheight hcheckpoint =>
    exact (hvalidated hvalid).trans (runsTo_DatabaseChecksums m db)

/-- **A step of the chain runs the database.** -/
theorem accumulatorStep_values (P : CChainParams) (A : AccumulatorParams) (s : AccumulatorChain)
    (e : AccumulatorEvent) :
    RunsTo P A s.accumulatorValues (accumulatorStep P A s e).accumulatorValues := by
  cases e with
  | connectTip M block nCheckpoint pindexNew fAlreadyChecked =>
    exact (ConnectTip_outcome P A M s block nCheckpoint pindexNew fAlreadyChecked).values
  | disconnectTip M =>
    rw [accumulatorStep, DisconnectTip_eq.2]
    exact runsTo_erase _ _

/-- Of each checkpoint whose values are in the database a map can be loaded, and that map has this
checkpoint. -/
def Loads (A : AccumulatorParams) (s : AccumulatorChain) : Prop :=
  ∀ (m : AccumulatorMap) (nCheckpoint : uint256),
    (∀ nChecksum ∈ checksumsOf nCheckpoint, (s.accumulatorValues nChecksum).isSome) →
      ∃ m', m.Load s.accumulatorValues nCheckpoint = some m' ∧ m'.GetCheckpoint A = nCheckpoint

/-- **Checkpoints load again**, whatever blocks are connected and disconnected. -/
theorem chain_loads (h : Valued A s.accumulatorValues) (es : List AccumulatorEvent) :
    Run.Throughout (accumulatorStep P A) (Loads A) s es := by
  have hvalued : Run.Throughout (accumulatorStep P A)
      (fun s => Valued A s.accumulatorValues) s es :=
    Run.throughout_of_guarded (fun s e hs _ => (accumulatorStep_values P A s e).valued hs) h
      (Run.guarded_of_forall (p := fun _ => True) fun _ _ => trivial)
  exact fun past hpast m _ => (hvalued past hpast).load_checkpoint m

theorem same_loads :
    Run.Throughout (accumulatorStep testNetParams productParams) (Loads productParams) sameStart
      [.disconnectTip mintingNode] := by
  refine chain_loads ?_ _
  intro nChecksum bnValue hread
  simp only [sameStart] at hread
  split_ifs at hread with hfive hone
  · cases hread
    subst hfive
    decide
  · cases hread
    subst hone
    decide

end AccumulatorChain

end

/-- **A checkpoint and its accumulators.**  Each checksum of the checkpoint of a map is that of
its accumulator, and a map loaded from a checkpoint whose values are in the database has that
checkpoint, whatever has been done to the database before. -/
theorem checkpoint_round_trip (P : CChainParams) (A : AccumulatorParams)
    (events : List ValueEvent) (m : AccumulatorMap) (nCheckpoint : uint256) :
    (∀ denom ∈ CoinDenomination.zerocoinDenomList,
        ParseChecksum (m.GetCheckpoint A) denom = A.GetChecksum (m.mapAccumulators denom)) ∧
      ((∀ denom ∈ CoinDenomination.zerocoinDenomList,
          (valuesAfter P A events (ParseChecksum nCheckpoint denom)).isSome) →
        ∃ m', m.Load (valuesAfter P A events) nCheckpoint = some m' ∧
          m'.GetCheckpoint A = nCheckpoint) := by
  constructor
  · exact fun denom hdenom => AccumulatorMap.parse_GetCheckpoint A m hdenom
  · intro hvalues
    refine (valued_after events).load_checkpoint m ?_
    intro nChecksum hmem
    obtain ⟨denom, hdenom, rfl⟩ := mem_map.mp hmem
    exact hvalues denom hdenom

open AccumulatorChain in
/-- Two values added at the start of version 2. -/
theorem five_loaded :
    ∃ m', (fiveIn []).Load (valuesAfter testNetParams productParams
        [.addChecksum 999999999 5, .addChecksum 999999999 1])
        ((fiveIn [.ZQ_ONE]).GetCheckpoint productParams) = some m' ∧
      m'.GetCheckpoint productParams = (fiveIn [.ZQ_ONE]).GetCheckpoint productParams :=
  (checkpoint_round_trip testNetParams productParams
    [.addChecksum 999999999 5, .addChecksum 999999999 1] (fiveIn [])
    ((fiveIn [.ZQ_ONE]).GetCheckpoint productParams)).2 (by decide +kernel)

end Divitae
