/-
# `OrphanTxs` — transactions whose inputs are not there yet

`main.cpp`, `mapOrphanTransactions`.  An orphan waits until the transactions it spends from
come; `mapOrphanTransactionsByPrev` finds the orphans of one that came.

    AddOrphanTx            enters an orphan under each of its inputs
    EraseOrphanTx          takes it out again, input for input
    EraseOrphansFor        those of a peer that is gone
    LimitOrphanTxSize      random ones, until at most so many are left

    InStep                 the second map is the index of the first, and has no empty set
    orphanStep_inStep      kept by each of them
    orphans_in_step        so after any sequence of them; and how many `LimitOrphanTxSize` leaves

Two inputs of one orphan may spend from one transaction: its hash enters one set twice, and is
taken out of a set that may be gone already.
-/
import Divitae.Transaction
import Divitae.Lib.Buckets
import Mathlib.Data.List.MinMax

namespace Divitae

open Buckets List

structure COrphanTx where
  tx : CTransaction
  /-- a `NodeId` -/
  fromPeer : Int

structure OrphanTxs where
  mapOrphanTransactions : AList fun _ : uint256 => COrphanTx := ∅
  mapOrphanTransactionsByPrev : AList fun _ : uint256 => Finset uint256 := ∅

/-- The transactions that a transaction spends from, one for each input. -/
def CTransaction.prevHashes (tx : CTransaction) : List uint256 :=
  tx.vin.map fun txin => txin.prevout.hash

namespace OrphanTxs

section
variable (P : OrphanTxs)

/-- `mapOrphanTransactions.size()`. -/
def size : ℕ := P.mapOrphanTransactions.entries.length

def AddOrphanTx (tx : CTransaction) (peer : Int) : OrphanTxs × Bool :=
  if (P.mapOrphanTransactions.lookup tx.hash).isSome then (P, false)
  -- Ignore big transactions, to avoid a send-big-orphans memory exhaustion attack.
  else if 5000 < tx.ser.length then (P, false)
  else
    (⟨P.mapOrphanTransactions.insert tx.hash ⟨tx, peer⟩,
      enterAll P.mapOrphanTransactionsByPrev tx.prevHashes tx.hash⟩, true)

def EraseOrphanTx (hash : uint256) : OrphanTxs :=
  match P.mapOrphanTransactions.lookup hash with
  | none => P
  | some it =>
    ⟨P.mapOrphanTransactions.erase hash,
      leaveAll P.mapOrphanTransactionsByPrev it.tx.prevHashes hash⟩

/-- The iterator moves on before its orphan is erased. -/
def EraseOrphansFor (peer : Int) : OrphanTxs :=
  P.mapOrphanTransactions.entries.foldl
    (fun P e => if e.2.fromPeer == peer then P.EraseOrphanTx e.2.tx.hash else P) P

/-- The first orphan whose hash is not below a random one, or else the first of all. -/
def evicted (randomhash : uint256) : Option uint256 :=
  let keys := P.mapOrphanTransactions.entries.map Sigma.fst
  match (keys.filter fun hash => randomhash ≤ hash).argmin BitVec.toNat with
  | some hash => some hash
  | none => keys.argmin BitVec.toNat

end

variable {P : OrphanTxs} {hash prev randomhash : uint256} {o : COrphanTx} {tx : CTransaction}
  {peer : Int}

theorem evicted_isSome (h : P.evicted randomhash = some hash) :
    (P.mapOrphanTransactions.lookup hash).isSome := by
  have hmem : hash ∈ P.mapOrphanTransactions.entries.map Sigma.fst := by
    unfold evicted at h
    dsimp only at h
    split at h
    next found hfound =>
      cases h
      exact mem_of_mem_filter (argmin_mem hfound)
    · exact argmin_mem h
  exact AList.lookup_isSome.mpr hmem

theorem evicted_ne_none (h : 0 < P.size) : P.evicted randomhash ≠ none := by
  unfold evicted
  dsimp only
  split
  · exact Option.some_ne_none _
  · intro hnone
    have hempty := map_eq_nil_iff.mp (argmin_eq_none.mp hnone)
    rw [size, hempty] at h
    exact absurd h (Nat.lt_irrefl 0)

theorem size_EraseOrphanTx (h : (P.mapOrphanTransactions.lookup hash).isSome) :
    (P.EraseOrphanTx hash).size + 1 = P.size := by
  obtain ⟨o, ho⟩ := Option.isSome_iff_exists.mp h
  have hkey : hash ∈ P.mapOrphanTransactions.entries.keys := AList.lookup_isSome.mp h
  obtain ⟨b, l₁, l₂, -, hsplit, herase⟩ := exists_of_kerase hkey
  rw [EraseOrphanTx, ho]
  show (List.kerase hash P.mapOrphanTransactions.entries).length + 1 =
    P.mapOrphanTransactions.entries.length
  rw [herase, hsplit, length_append, length_append, length_cons]
  omega

/-- Evict a random orphan, as long as there are too many; with the number of them. -/
def LimitOrphanTxSize (GetRandHash : ℕ → uint256) (nMaxOrphans nEvicted : ℕ) (P : OrphanTxs) :
    OrphanTxs × ℕ :=
  if nMaxOrphans < P.size then
    match h : P.evicted (GetRandHash nEvicted) with
    | none => (P, nEvicted)
    | some hash => LimitOrphanTxSize GetRandHash nMaxOrphans (nEvicted + 1) (P.EraseOrphanTx hash)
  else (P, nEvicted)
termination_by P.size
decreasing_by
  have := size_EraseOrphanTx (evicted_isSome h)
  omega

/-! ## Both maps -/

/-- The second map is the index of the first. -/
structure InStep (P : OrphanTxs) : Prop where
  keyed : ∀ hash o, P.mapOrphanTransactions.lookup hash = some o → o.tx.hash = hash
  indexed : ∀ prev hash, hash ∈ bucket P.mapOrphanTransactionsByPrev prev ↔
    ∃ o, P.mapOrphanTransactions.lookup hash = some o ∧ prev ∈ o.tx.prevHashes
  tidy : Tidy P.mapOrphanTransactionsByPrev

theorem inStep_empty : InStep {} where
  keyed _ _ h := nomatch h
  indexed prev hash := by
    constructor
    · intro h
      exact absurd h (Finset.notMem_empty hash)
    · rintro ⟨o, h, -⟩
      cases h
  tidy _ _ h := nomatch h

theorem InStep.AddOrphanTx (h : InStep P) : InStep (P.AddOrphanTx tx peer).1 := by
  unfold OrphanTxs.AddOrphanTx
  split_ifs with hknown hbig
  · exact h
  · exact h
  · have hnew : P.mapOrphanTransactions.lookup tx.hash = none :=
      Option.not_isSome_iff_eq_none.mp hknown
    refine ⟨?_, ?_, h.tidy.enterAll⟩
    · intro hash o ho
      rcases eq_or_ne hash tx.hash with rfl | hne
      · rw [AList.lookup_insert] at ho
        cases ho
        rfl
      · rw [AList.lookup_insert_ne hne] at ho
        exact h.keyed hash o ho
    · intro prev hash
      rw [mem_bucket_enterAll, h.indexed prev hash]
      rcases eq_or_ne hash tx.hash with rfl | hne
      · rw [AList.lookup_insert, hnew]
        simp
      · rw [AList.lookup_insert_ne hne]
        simp [hne]

theorem InStep.EraseOrphanTx (h : InStep P) (hash : uint256) : InStep (P.EraseOrphanTx hash) := by
  unfold OrphanTxs.EraseOrphanTx
  cases hfound : P.mapOrphanTransactions.lookup hash with
  | none => exact h
  | some it =>
    refine ⟨?_, ?_, h.tidy.leaveAll⟩
    · intro hash' o ho
      rcases eq_or_ne hash' hash with rfl | hne
      · rw [AList.lookup_erase] at ho
        cases ho
      · rw [AList.lookup_erase_ne hne] at ho
        exact h.keyed hash' o ho
    · intro prev hash'
      rw [mem_bucket_leaveAll, h.indexed prev hash']
      rcases eq_or_ne hash' hash with rfl | hne
      · -- all its inputs have been gone through
        rw [AList.lookup_erase, hfound]
        simp
      · rw [AList.lookup_erase_ne hne]
        simp [hne]

theorem InStep.EraseOrphansFor (h : InStep P) (peer : Int) :
    InStep (P.EraseOrphansFor peer) := by
  unfold OrphanTxs.EraseOrphansFor
  generalize P.mapOrphanTransactions.entries = entries
  induction entries generalizing P with
  | nil => exact h
  | cons e entries ih =>
    rw [foldl_cons]
    split_ifs
    · exact ih (h.EraseOrphanTx _)
    · exact ih h

theorem InStep.LimitOrphanTxSize (h : InStep P) (GetRandHash : ℕ → uint256)
    (nMaxOrphans nEvicted : ℕ) :
    InStep (P.LimitOrphanTxSize GetRandHash nMaxOrphans nEvicted).1 := by
  fun_induction OrphanTxs.LimitOrphanTxSize GetRandHash nMaxOrphans nEvicted P with
  | case1 => exact h
  | case2 nEvicted P hmany hash hchosen ih => exact ih (h.EraseOrphanTx hash)
  | case3 => exact h

theorem LimitOrphanTxSize_spec (P : OrphanTxs) (GetRandHash : ℕ → uint256)
    (nMaxOrphans nEvicted : ℕ) :
    (P.LimitOrphanTxSize GetRandHash nMaxOrphans nEvicted).1.size = min P.size nMaxOrphans ∧
      (P.LimitOrphanTxSize GetRandHash nMaxOrphans nEvicted).2 =
        nEvicted + (P.size - nMaxOrphans) := by
  fun_induction LimitOrphanTxSize GetRandHash nMaxOrphans nEvicted P with
  | case1 nEvicted P hmany hnone => exact absurd hnone (evicted_ne_none (by omega))
  | case2 nEvicted P hmany hash hchosen ih =>
    obtain ⟨hsize, hcount⟩ := ih
    have hless := size_EraseOrphanTx (evicted_isSome hchosen)
    exact ⟨by omega, by omega⟩
  | case3 nEvicted P hfew =>
    have hmin : min P.size nMaxOrphans = P.size := Nat.min_eq_left (by omega)
    exact ⟨hmin.symm, by omega⟩

/-! ## Any sequence -/

inductive OrphanEvent where
  | add (tx : CTransaction) (peer : Int)
  | erase (hash : uint256)
  | eraseFor (peer : Int)
  | limit (GetRandHash : ℕ → uint256) (nMaxOrphans : ℕ)
  /-- `UnloadBlockIndex` -/
  | unload

def orphanStep (P : OrphanTxs) : OrphanEvent → OrphanTxs
  | .add tx peer => (P.AddOrphanTx tx peer).1
  | .erase hash => P.EraseOrphanTx hash
  | .eraseFor peer => P.EraseOrphansFor peer
  | .limit GetRandHash nMaxOrphans => (P.LimitOrphanTxSize GetRandHash nMaxOrphans 0).1
  | .unload => {}

theorem orphanStep_inStep (h : InStep P) (i : OrphanEvent) : InStep (orphanStep P i) := by
  cases i with
  | add tx peer => exact h.AddOrphanTx
  | erase hash => exact h.EraseOrphanTx hash
  | eraseFor peer => exact h.EraseOrphansFor peer
  | limit GetRandHash nMaxOrphans => exact h.LimitOrphanTxSize GetRandHash nMaxOrphans 0
  | unload => exact inStep_empty

theorem run_inStep (is : List OrphanEvent) : InStep (is.foldl orphanStep {}) :=
  Run.run_inv (I := InStep) (fun _ i h _ => orphanStep_inStep h i) inStep_empty
    (Run.guarded_of_forall (p := fun _ => True) fun _ _ => trivial)

/-- **The orphans and their index**, after any sequence of calls. -/
theorem orphans_in_step (is : List OrphanEvent) :
    let P := is.foldl orphanStep {}
    (∀ prev hash, (∃ s, P.mapOrphanTransactionsByPrev.lookup prev = some s ∧ hash ∈ s) ↔
      ∃ o, P.mapOrphanTransactions.lookup hash = some o ∧ ∃ txin ∈ o.tx.vin,
        txin.prevout.hash = prev) ∧
    (∀ prev s, P.mapOrphanTransactionsByPrev.lookup prev = some s → s ≠ ∅) ∧
    ∀ GetRandHash nMaxOrphans,
      (P.LimitOrphanTxSize GetRandHash nMaxOrphans 0).1.size ≤ nMaxOrphans := by
  have hstep := run_inStep is
  refine ⟨?_, ?_, ?_⟩
  · intro prev hash
    rw [← mem_bucket, hstep.indexed prev hash]
    simp only [CTransaction.prevHashes, mem_map]
  · intro prev s hs
    exact (hstep.tidy prev s hs).ne_empty
  · intro GetRandHash nMaxOrphans
    rw [(LimitOrphanTxSize_spec _ GetRandHash nMaxOrphans 0).1]
    exact Nat.min_le_right _ _

end OrphanTxs

end Divitae
