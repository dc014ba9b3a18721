/-
# `OverlappingLocks` — what an expired lock takes with it

`CleanTransactionLocksList` goes through the locks in the order of the map, and where one has
expired and its request is known it erases every outpoint the request spends from
`mapLockedInputs`, whatever transaction the outpoint is locked to:

    locked to the transaction of the lock        the entry goes with its lock
    locked to another transaction                the other one's entry goes
    erased by an expired lock before             nothing is there any more

A refused request locks its inputs to itself (`rejectRequest`), so a request that shares an input
with an accepted one is enough.  `erases_own_iff` says when a pass erases nobody else's entries.
-/
import Divitae.RequestRecords

namespace Divitae
namespace SwiftTX

open List

abbrev FiledLock := Sigma fun _ : uint256 => CTransactionLock

/-- The recorded request of the lock spends the outpoint. -/
def Spends (s : SwiftTX) (it : FiledLock) (o : COutPoint) : Prop :=
  ∃ tx, s.mapTxLockReq it.2.txHash = some tx ∧ o ∈ tx.outpoints

/-- What the removal of a lock erases was locked to its transaction. -/
def RemovesOwn (s : SwiftTX) (it : FiledLock) : Prop :=
  ∀ o h, s.mapLockedInputs o = some h →
    (s.removeLock it.1 it.2).mapLockedInputs o = none → h = it.2.txHash

/-- The locks a pass removes, in the order of the map. -/
def expiredLocks (env : SwiftEnv) (s : SwiftTX) : List FiledLock :=
  s.mapTxLocks.entries.filter fun it => expired env it.2

/-- Each removal of the pass erases its own entries only, and what is locked to a transaction
whose lock stays is locked to it after the pass. -/
def ErasesOwn (env : SwiftEnv) (s : SwiftTX) : Prop :=
  env.chainHeight ≠ -1 →
    Run.Guarded (fun s (it : FiledLock) => s.removeLock it.1 it.2) RemovesOwn s
        (s.expiredLocks env) ∧
      ∀ o h, s.mapLockedInputs o = some h → (∀ it ∈ s.expiredLocks env, it.2.txHash ≠ h) →
        (s.CleanTransactionLocksList env).mapLockedInputs o = some h

/-- An outpoint that requests of these locks spend is locked to the first of them, if at all. -/
def LockedToFirst (s : SwiftTX) (locks : List FiledLock) : Prop :=
  ∀ o pre it post, locks = pre ++ it :: post → s.Spends it o → (∀ it' ∈ pre, ¬ s.Spends it' o) →
    s.mapLockedInputs o = none ∨ s.mapLockedInputs o = some it.2.txHash

/-! ## One removal -/

section
variable {s : SwiftTX} {it it' : FiledLock} {o : COutPoint}

theorem mapTxLockReq_removeLock (s : SwiftTX) (it : FiledLock) (h : uint256) :
    (s.removeLock it.1 it.2).mapTxLockReq h =
      if h = it.2.txHash then none else s.mapTxLockReq h := by
  rw [removeLock]
  cases hreq : s.mapTxLockReq it.2.txHash with
  | none =>
    by_cases hh : h = it.2.txHash
    · rw [if_pos hh, hh, hreq]
    · rw [if_neg hh]
  | some tx => exact Function.update_apply ..

theorem mapLockedInputs_removeLock (h : s.Spends it o) :
    (s.removeLock it.1 it.2).mapLockedInputs o = none := by
  obtain ⟨tx, hreq, ho⟩ := h
  rw [removeLock, hreq]
  show tx.outpoints.foldl (fun m o => Function.update m o none) s.mapLockedInputs o = none
  rw [foldl_update_none_apply, if_pos ho]

theorem mapLockedInputs_removeLock_other (h : ¬ s.Spends it o) :
    (s.removeLock it.1 it.2).mapLockedInputs o = s.mapLockedInputs o := by
  rw [removeLock]
  cases hreq : s.mapTxLockReq it.2.txHash with
  | none => rfl
  | some tx =>
    show tx.outpoints.foldl (fun m o => Function.update m o none) s.mapLockedInputs o = _
    rw [foldl_update_none_apply, if_neg fun ho => h ⟨tx, hreq, ho⟩]

theorem spends_removeLock :
    (s.removeLock it.1 it.2).Spends it' o ↔ s.Spends it' o ∧ it'.2.txHash ≠ it.2.txHash := by
  rw [Spends, mapTxLockReq_removeLock]
  split
  · next hh =>
      refine iff_of_false ?_ fun h => h.2 hh
      rintro ⟨tx, hreq, -⟩
      cases hreq
  · next hh => exact (and_iff_left hh).symm

theorem Spends.of_txHash (h : s.Spends it o) (hh : it.2.txHash = it'.2.txHash) :
    s.Spends it' o := by
  obtain ⟨tx, hreq, ho⟩ := h
  exact ⟨tx, hh ▸ hreq, ho⟩

theorem removesOwn_iff : s.RemovesOwn it ↔ ∀ o, s.Spends it o →
    s.mapLockedInputs o = none ∨ s.mapLockedInputs o = some it.2.txHash := by
  constructor
  · intro hown o hspends
    cases hlocked : s.mapLockedInputs o with
    | none => exact .inl rfl
    | some h =>
      have hh := hown o h hlocked (mapLockedInputs_removeLock hspends)
      exact .inr (congrArg some hh)
  · intro hfirst o h hlocked hgone
    by_cases hspends : s.Spends it o
    · rcases hfirst o hspends with hnone | hsome
      · cases hlocked.symm.trans hnone
      · exact Option.some.inj (hlocked.symm.trans hsome)
    · rw [mapLockedInputs_removeLock_other hspends, hlocked] at hgone
      cases hgone

end

/-- **What one removal leaves to the rest of the pass.** -/
theorem lockedToFirst_cons (s : SwiftTX) (it : FiledLock) (locks : List FiledLock) :
    s.LockedToFirst (it :: locks) ↔
      s.RemovesOwn it ∧ (s.removeLock it.1 it.2).LockedToFirst locks := by
  rw [removesOwn_iff]
  constructor
  · intro hfirst
    refine ⟨fun o hspends => ?_, fun o pre x post hlocks hspends hnone => ?_⟩
    · exact hfirst o [] it locks rfl hspends nofun
    · obtain ⟨hspends, hother⟩ := spends_removeLock.mp hspends
      by_cases hit : s.Spends it o
      · exact .inl (mapLockedInputs_removeLock hit)
      · rw [mapLockedInputs_removeLock_other hit]
        refine hfirst o (it :: pre) x post (congrArg (it :: ·) hlocks) hspends ?_
        intro y hy
        rcases mem_cons.mp hy with rfl | hy
        · exact hit
        · intro hyspends
          refine hnone y hy (spends_removeLock.mpr ⟨hyspends, ?_⟩)
          exact fun hh => hit (hyspends.of_txHash hh)
  · rintro ⟨hown, hrest⟩ o pre x post hlocks hspends hnone
    cases pre with
    | nil =>
      obtain ⟨rfl, rfl⟩ := cons.inj hlocks
      exact hown o hspends
    | cons y pre =>
      obtain ⟨rfl, rfl⟩ := cons.inj hlocks
      have hit : ¬ s.Spends it o := hnone it mem_cons_self
      rw [← mapLockedInputs_removeLock_other hit]
      refine hrest o pre x post rfl (spends_removeLock.mpr ⟨hspends, ?_⟩) ?_
      · exact fun hh => hit (hspends.of_txHash hh)
      · intro y hy hyspends
        exact hnone y (mem_cons_of_mem it hy) (spends_removeLock.mp hyspends).1

theorem removals_own_iff (s : SwiftTX) (locks : List FiledLock) :
    Run.Guarded (fun s (it : FiledLock) => s.removeLock it.1 it.2) RemovesOwn s locks ↔
      s.LockedToFirst locks := by
  induction locks generalizing s with
  | nil =>
    refine iff_of_true trivial ?_
    intro o pre it post hlocks
    exact absurd hlocks (by simp)
  | cons it locks ih => rw [Run.guarded_cons, ih, lockedToFirst_cons]

theorem locked_kept {s : SwiftTX} {locks : List FiledLock} {o : COutPoint} {h : uint256}
    (hown : Run.Guarded (fun s (it : FiledLock) => s.removeLock it.1 it.2) RemovesOwn s locks)
    (hlocked : s.mapLockedInputs o = some h) (hother : ∀ it ∈ locks, it.2.txHash ≠ h) :
    (locks.foldl (fun s it => s.removeLock it.1 it.2) s).mapLockedInputs o = some h := by
  induction locks generalizing s with
  | nil => exact hlocked
  | cons it locks ih =>
    obtain ⟨hit, hrest⟩ := hown
    refine ih hrest ?_ fun x hx => hother x (mem_cons_of_mem it hx)
    by_cases hspends : s.Spends it o
    · have hh := hit o h hlocked (mapLockedInputs_removeLock hspends)
      exact absurd hh.symm (hother it mem_cons_self)
    · exact (mapLockedInputs_removeLock_other hspends).trans hlocked

/-- **A pass erases its own entries exactly when each outpoint that requests of expired locks
spend is locked to the first of them, or to none.** -/
theorem erases_own_iff (env : SwiftEnv) (s : SwiftTX) :
    s.ErasesOwn env ↔ (env.chainHeight ≠ -1 → s.LockedToFirst (s.expiredLocks env)) := by
  refine forall_congr' fun htip => ?_
  rw [removals_own_iff]
  refine and_iff_left_of_imp fun hfirst o h hlocked hother => ?_
  rw [CleanTransactionLocksList, if_neg htip]
  exact locked_kept ((removals_own_iff s _).mpr hfirst) hlocked hother

/-- The node half an hour, or a little more than an hour, after the payment. -/
def laterEnv (fPool : Bool) (seconds : Int) : SwiftEnv :=
  { lockEnv fPool with time := 1700000000 + seconds, adjustedTime := 1700000000 + seconds }

/-- Another payment out of the same output. -/
def otherPayment : CTransaction := { payment with hash := 171 }

/-- The payment is accepted; half an hour later the other one is refused. -/
def sharedInput : List SwiftEvent :=
  [.ix (lockEnv true) payment, .ix (laterEnv false 1800) otherPayment]

/-- **The lock of the payment runs out.**  The input was locked to the other payment, whose lock
has half an hour to go, and is free. -/
theorem shared_input_released :
    ¬ (∀ (env : SwiftEnv) (s : SwiftTX), s.ErasesOwn env) ∧
      (sharedInput.foldl (swiftStep paymentCrypto) empty).mapLockedInputs ⟨5, 0⟩ = some 171 ∧
      ((sharedInput ++ [SwiftEvent.clean (laterEnv true 3660)]).foldl (swiftStep paymentCrypto)
        empty).mapLockedInputs ⟨5, 0⟩ = none := by
  have hlocked : (sharedInput.foldl (swiftStep paymentCrypto) empty).mapLockedInputs ⟨5, 0⟩ =
      some 171 := by decide +kernel
  have hgone : ((sharedInput ++ [SwiftEvent.clean (laterEnv true 3660)]).foldl
      (swiftStep paymentCrypto) empty).mapLockedInputs ⟨5, 0⟩ = none := by decide +kernel
  refine ⟨fun hall => ?_, hlocked, hgone⟩
  have hkept := (hall (laterEnv true 3660) (sharedInput.foldl (swiftStep paymentCrypto) empty)
    (by decide)).2 ⟨5, 0⟩ 171 hlocked (by decide +kernel)
  cases hkept.symm.trans hgone

end SwiftTX
end Divitae
