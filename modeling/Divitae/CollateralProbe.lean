/-
# `CollateralProbe` — what a masternode's collateral is tried with

`CMasternode::Check` of `masternode.cpp` sends a transaction that takes the collateral through
`AcceptableInputs`, the rules of the pool without the scripts.  It pays 19999.99 coins, and the
collateral of a masternode is 5000 coins (`IsMnVinAssociatedWithPubkey`), so `CheckInputs`
refuses it for every collateral there is: the masternode is marked VIN_SPENT, which sticks.

The branches before the probe stick as well:

    scanning errors     POS_ERROR, though the masternode is not seen any more
    VIN_SPENT           nothing, though the masternode is not seen any more

`checks_judge_iff` says which calls leave the state the masternode should have.
-/
import Divitae.MemPoolRuns
import Divitae.Ranks

namespace Divitae

open Bool

/-! ## The probe -/

/-- `AcceptableInputs`, where fees matter (`isDSTX` is false). -/
def AcceptableInputs (N : CMempoolNode) (pool : CTxMemPool) (pcoinsTip : CCoinsView)
    (tx : CTransaction) (fLimitFree fRejectInsaneFee : Bool) : Checked Unit :=
  rejectIf (!(CheckTransaction N.toCNode tx (N.P.nZerocoinStartHeight ≤ N.chainHeight)).isOk)
    "AcceptableInputs: : CheckTransaction failed" <|
  rejectIf tx.IsCoinBase "coinbase" <|
  rejectIf (pool.contains tx.hash) "already in the memory pool" <|
  rejectIf (tx.vin.any fun txin => (N.mapLockedInputs txin.prevout).any (· != tx.hash))
    "tx-lock-conflict" <|
  rejectIf (!tx.IsZerocoinSpend &&
      tx.vin.any fun txin => (pool.mapNextTx.lookup txin.prevout).isSome)
    "conflicts with in-memory transactions" <|
  let view := CCoinsViewMemPool pcoinsTip pool
  rejectIf (view.HasCoins tx.hash) "already have it" <|
  inputsExist N view tx.vin >>= fun _ =>
  rejectIf (!view.HaveInputs tx) "bad-txns-inputs-spent" <|
  let nValueIn := view.GetValueIn tx
  rejectIf (MAX_TX_SIGOPS_CURRENT < N.GetLegacySigOpCount tx + N.GetP2SHSigOpCount tx view)
    "bad-txns-too-many-sigops" <|
  let nFees := Wrap.wrap64 (nValueIn - tx.GetValueOut)
  let nFees :=
    if PROSPERITYNODE_AMOUNT - 1 * COIN < nFees then nFees - PROSPERITYNODE_AMOUNT else nFees
  let entry : CTxMemPoolEntry := ⟨tx, nFees, N.time, N.chainHeight⟩
  let nSize := entry.GetTxSize
  rejectIf (fLimitFree && nFees < N.GetMinRelayFee tx nSize && !tx.IsZerocoinSpend)
    "insufficient fee" <|
  rejectIf (N.relaypriority && nFees < N.GetFee nSize && !N.AllowFree tx view)
    "insufficient priority" <|
  rejectIf (fLimitFree && nFees < N.GetFee nSize && !tx.IsZerocoinSpend && N.freeLimitReached)
    "rate limited free transaction" <|
  rejectIf (fRejectInsaneFee && N.GetFee nSize * 10000 < nFees) "AcceptableInputs: : insane fees" <|
  -- `fScriptChecks` is false
  CheckInputs { N.toCConnectNode with scriptsVerify := fun _ _ => true } tx view

/-- `19999.99 * COIN`, which is exact as a number of satoshis. -/
def probeValue : CAmount := 1999999000000

/-- The transaction `Check` tries the collateral with. -/
def probe (C : Crypto) (collateralPubKey : CScript) (vin : CTxIn) : CTransaction :=
  let vout : List CTxOut := [⟨probeValue, collateralPubKey⟩]
  ⟨C.hash256 (CTransaction.ser ⟨0, 1, [vin], vout, 0⟩), 1, [vin], vout, 0⟩

/-- What one call of `Check` finds. -/
structure CheckEnv where
  node : CMempoolNode
  mempool : CTxMemPool
  pcoinsTip : CCoinsView
  collateralPubKey : CScript -- of `obfuScationPool`
  lockRecv : Bool
  lockMain : Bool

namespace CheckEnv

variable (E : CheckEnv)

/-- The node as `Check` asks it. -/
def toMasternodeEnv : Ranking.MasternodeEnv where
  blockHash _ := none
  adjustedTime := E.node.adjustedTime
  lockRecv := E.lockRecv
  lockMain := E.lockMain
  acceptableInputs vin :=
    (AcceptableInputs E.node E.mempool E.pcoinsTip (probe E.node.C E.collateralPubKey vin)
      false false).isOk

/-- The height a transaction would be mined at that is made now. -/
def nSpendHeight : Int := E.node.chainHeight + 1

/-- The input takes an output of 5000 coins of the chain that is not spent, is mature, and is
taken by no transaction of the pool. -/
structure Collateral (vin : CTxIn) : Prop where
  coins : ∃ scriptPubKey, (E.pcoinsTip.coins vin.prevout.hash).Holds vin.prevout.n
    ⟨5000 * COIN, scriptPubKey⟩
  confirmed : E.mempool.mapTx.lookup vin.prevout.hash = none
  mature : ((E.pcoinsTip.coins vin.prevout.hash).fCoinBase = true ∨
      (E.pcoinsTip.coins vin.prevout.hash).fCoinStake = true) →
    E.node.P.nMaturity ≤ E.nSpendHeight - (E.pcoinsTip.coins vin.prevout.hash).nHeight
  unspent : E.mempool.mapNextTx.lookup vin.prevout = none

end CheckEnv

/-! ## Calls -/

/-- A call of `Check`, and what messages have made of the masternode by then. -/
structure CheckEvent where
  env : CheckEnv
  lastTimeSeen : Int
  nScanningErrorCount : Int

open Ranking (CMasternode MasternodeState MASTERNODE_EXPIRATION_SECONDS
  MASTERNODE_REMOVAL_SECONDS MASTERNODE_SCANNING_ERROR_THESHOLD)

namespace CheckEvent

variable (i : CheckEvent) (mn : CMasternode)

def found : CMasternode :=
  { mn with lastTimeSeen := i.lastTimeSeen, nScanningErrorCount := i.nScanningErrorCount }

/-- The masternode was seen so many seconds ago at most. -/
def SeenWithin (seconds : Int) : Prop := i.env.node.adjustedTime - i.lastTimeSeen < seconds

instance (seconds : Int) : Decidable (i.SeenWithin seconds) := Int.decLt ..

/-- The call leaves the state that the collateral and the time ask for. -/
structure Judges (after : CMasternode) : Prop where
  enabled : i.env.Collateral after.vin → i.SeenWithin MASTERNODE_EXPIRATION_SECONDS →
    after.activeState = .ENABLED
  removed : ¬ i.SeenWithin MASTERNODE_REMOVAL_SECONDS → after.activeState = .REMOVE

/-- The call goes behind the branches that stick. -/
def GoesOn : Prop :=
  i.env.lockRecv = true ∧ i.nScanningErrorCount < MASTERNODE_SCANNING_ERROR_THESHOLD ∧
    mn.activeState ≠ .VIN_SPENT

/-- The call does not change the masternode: one of the locks is taken. -/
def LeftAlone : Prop :=
  i.env.lockRecv = false ∨ i.GoesOn mn ∧ mn.unitTest = false ∧ i.env.lockMain = false

/-- When a call judges: with a collateral that is there and in time, only where the probe is not
made, and where the masternode is not seen any more, only behind the branches that stick. -/
structure Fair : Prop where
  collateral : i.env.Collateral mn.vin → i.SeenWithin MASTERNODE_EXPIRATION_SECONDS →
    i.GoesOn mn ∧ mn.unitTest = true ∨ i.LeftAlone mn ∧ mn.activeState = .ENABLED
  unseen : ¬ i.SeenWithin MASTERNODE_REMOVAL_SECONDS →
    i.GoesOn mn ∨ i.env.lockRecv = false ∧ mn.activeState = .REMOVE

end CheckEvent

def checkStep (mn : CMasternode) (i : CheckEvent) : CMasternode :=
  (i.found mn).Check i.env.toMasternodeEnv

section
variable {N : CMempoolNode} {pool : CTxMemPool} {view : CCoinsView} {vin : CTxIn}

theorem probe_not_spend (C : Crypto) (collateralPubKey : CScript) (hvin : vin.scriptSig = []) :
    (probe C collateralPubKey vin).IsZerocoinSpend = false := by
  show (vin.prevout.hash == 0 && vin.scriptSig.IsZerocoinSpend) = false
  rw [hvin]
  exact and_false _

theorem checkInputValues_one {inputs : CCoinsView} {nSpendHeight nValueIn : CAmount}
    (h : checkInputValues N.toCConnectNode inputs nSpendHeight [vin] 0 = .ok nValueIn) :
    nValueIn = Wrap.wrap64 (inputs.GetOutputFor vin).nValue := by
  simp only [checkInputValues, rejectIf_eq_ok] at h
  obtain ⟨-, -, h⟩ := h
  rw [Int.zero_add] at h
  exact (Except.ok.inj h).symm

/-- **The collateral never covers the probe.** -/
theorem AcceptableInputs_probe {pcoinsTip : CCoinsView} {collateralPubKey scriptPubKey : CScript}
    {fLimitFree fRejectInsaneFee : Bool} (hvin : vin.scriptSig = [])
    (hcoins : (pcoinsTip.coins vin.prevout.hash).Holds vin.prevout.n ⟨5000 * COIN, scriptPubKey⟩)
    (hconfirmed : pool.mapTx.lookup vin.prevout.hash = none) :
    (AcceptableInputs N pool pcoinsTip (probe N.C collateralPubKey vin) fLimitFree
      fRejectInsaneFee).isOk = false := by
  refine eq_false_iff.mpr fun hok => ?_
  obtain ⟨u, h⟩ := exists_of_isOk hok
  simp only [AcceptableInputs, rejectIf_eq_ok, bind_eq_ok] at h
  obtain ⟨-, hbase, -, -, -, -, -, -, -, -, -, -, -, -, h⟩ := h
  have hspend := @probe_not_spend vin N.C collateralPubKey hvin
  have hstake : (probe N.C collateralPubKey vin).IsCoinStake = false := rfl
  simp only [CheckInputs, hbase, hspend, hstake, Bool.not_false, Bool.and_self, if_true,
    rejectIf_eq_ok] at h
  obtain ⟨-, h⟩ := h
  split at h
  · cases h
  · simp only [bind_eq_ok, rejectIf_eq_ok, decide_eq_false_iff_not] at h
    obtain ⟨nValueIn, hvalue, -, ⟨hbelow, -⟩, -⟩ := h
    -- one input of 5000 coins, one output of 19999.99 coins
    have hheld : ((CCoinsViewMemPool pcoinsTip pool).coins vin.prevout.hash).Holds vin.prevout.n
        ⟨5000 * COIN, scriptPubKey⟩ := (CTxMemPool.holds_of_absent hconfirmed).mpr hcoins
    have hin : nValueIn = Wrap.wrap64 (5000 * COIN) := by
      rw [checkInputValues_one hvalue, CCoinsView.GetOutputFor,
        CCoins.output_eq_getElem hheld.there]
    have hout : (probe N.C collateralPubKey vin).GetValueOut = probeValue := Int.add_zero probeValue
    rw [hin, hout] at hbelow
    exact hbelow (by decide)

end

/-! ## Which calls judge -/

section
variable {i : CheckEvent} {mn : CMasternode}

theorem checkStep_vin : (checkStep mn i).vin = mn.vin := CMasternode.Check_vin ..

theorem found_UpdatedWithin (seconds : Int) :
    (i.found mn).UpdatedWithin i.env.toMasternodeEnv seconds = decide (i.SeenWithin seconds) := rfl

theorem seenWithin_removal (h : i.SeenWithin MASTERNODE_EXPIRATION_SECONDS) :
    i.SeenWithin MASTERNODE_REMOVAL_SECONDS := by
  have hless : MASTERNODE_EXPIRATION_SECONDS < MASTERNODE_REMOVAL_SECONDS := by decide
  exact Int.lt_trans h hless

theorem lockRecv_free (h : i.env.lockRecv = true) :
    ¬ (!i.env.toMasternodeEnv.lockRecv) = true := by
  show ¬ (!i.env.lockRecv) = true
  rw [h]
  decide

theorem checkStep_locked (h : i.env.lockRecv = false) :
    (checkStep mn i).activeState = mn.activeState := by
  rw [checkStep, CMasternode.Check, if_pos (by rw [CheckEnv.toMasternodeEnv, h]; rfl)]
  rfl

theorem checkStep_stuck (hlock : i.env.lockRecv = true) (h : ¬ i.GoesOn mn) :
    (checkStep mn i).activeState = .POS_ERROR ∨ (checkStep mn i).activeState = .VIN_SPENT := by
  rw [checkStep, CMasternode.Check, if_neg (lockRecv_free hlock)]
  by_cases herrors : (i.found mn).nScanningErrorCount ≥ MASTERNODE_SCANNING_ERROR_THESHOLD
  · left
    rw [if_pos herrors]
  · right
    have hspent : (i.found mn).activeState = .VIN_SPENT := by
      by_contra hnot
      exact h ⟨hlock, Int.not_le.mp herrors, hnot⟩
    rw [if_neg herrors, if_pos hspent]
    exact hspent

theorem checkStep_goesOn (h : i.GoesOn mn) :
    checkStep mn i =
      if ¬ i.SeenWithin MASTERNODE_REMOVAL_SECONDS then
        { i.found mn with activeState := .REMOVE }
      else if ¬ i.SeenWithin MASTERNODE_EXPIRATION_SECONDS then
        { i.found mn with activeState := .EXPIRED }
      else if !mn.unitTest && !i.env.lockMain then i.found mn
      else if !mn.unitTest && !i.env.toMasternodeEnv.acceptableInputs mn.vin then
        { i.found mn with activeState := .VIN_SPENT }
      else { i.found mn with activeState := .ENABLED } := by
  obtain ⟨hlock, herrors, hspent⟩ := h
  have herrors' : ¬ (i.found mn).nScanningErrorCount ≥ MASTERNODE_SCANNING_ERROR_THESHOLD :=
    Int.not_le.mpr herrors
  have hspent' : ¬ (i.found mn).activeState = .VIN_SPENT := hspent
  rw [checkStep, CMasternode.Check, if_neg (lockRecv_free hlock), if_neg herrors', if_neg hspent']
  simp only [found_UpdatedWithin, not_eq_true', decide_eq_false_iff_not]
  rfl

theorem checkStep_removed (h : i.GoesOn mn) (hunseen : ¬ i.SeenWithin MASTERNODE_REMOVAL_SECONDS) :
    (checkStep mn i).activeState = .REMOVE := by
  rw [checkStep_goesOn h, if_pos hunseen]

theorem checkStep_collateral (h : i.GoesOn mn) (hvin : mn.vin.scriptSig = [])
    (hcollateral : i.env.Collateral mn.vin) (hseen : i.SeenWithin MASTERNODE_EXPIRATION_SECONDS) :
    (checkStep mn i).activeState =
      if mn.unitTest then .ENABLED else if i.env.lockMain then .VIN_SPENT else mn.activeState := by
  obtain ⟨scriptPubKey, hcoins⟩ := hcollateral.coins
  have hrefused : i.env.toMasternodeEnv.acceptableInputs mn.vin = false :=
    AcceptableInputs_probe hvin hcoins hcollateral.confirmed
  rw [checkStep_goesOn h, if_neg (not_not_intro (seenWithin_removal hseen)),
    if_neg (not_not_intro hseen), hrefused]
  cases mn.unitTest with
  | true => rfl
  | false =>
    cases i.env.lockMain with
    | true => rfl
    | false => rfl

theorem judges_iff (hvin : mn.vin.scriptSig = []) :
    i.Judges (checkStep mn i) ↔ i.Fair mn := by
  have hvinstep : (checkStep mn i).vin = mn.vin := checkStep_vin
  constructor
  · rintro ⟨henabled, hremoved⟩
    rw [hvinstep] at henabled
    refine ⟨?_, ?_⟩
    · intro hcollateral hseen
      have hstate := henabled hcollateral hseen
      cases hlock : i.env.lockRecv with
      | false =>
        rw [checkStep_locked hlock] at hstate
        exact .inr ⟨.inl hlock, hstate⟩
      | true =>
        by_cases hgoes : i.GoesOn mn
        · rw [checkStep_collateral hgoes hvin hcollateral hseen] at hstate
          split_ifs at hstate with hunit hmain
          · exact .inl ⟨hgoes, hunit⟩
          · exact .inr ⟨.inr ⟨hgoes, eq_false_iff.mpr hunit, eq_false_iff.mpr hmain⟩, hstate⟩
        · rcases checkStep_stuck hlock hgoes with hstuck | hstuck <;>
            · rw [hstuck] at hstate
              cases hstate
    · intro hunseen
      have hstate := hremoved hunseen
      cases hlock : i.env.lockRecv with
      | false =>
        rw [checkStep_locked hlock] at hstate
        exact .inr ⟨rfl, hstate⟩
      | true =>
        by_contra hnot
        have hgoes : ¬ i.GoesOn mn := fun hgoes => hnot (.inl hgoes)
        rcases checkStep_stuck hlock hgoes with hstuck | hstuck <;>
          · rw [hstuck] at hstate
            cases hstate
  · rintro ⟨hcollateral, hunseen⟩
    refine ⟨?_, ?_⟩
    · rw [hvinstep]
      intro hcoins hseen
      rcases hcollateral hcoins hseen with ⟨hgoes, hunit⟩ | ⟨hlock | ⟨hgoes, hunit, hmain⟩, hstate⟩
      · rw [checkStep_collateral hgoes hvin hcoins hseen, if_pos hunit]
      · rw [checkStep_locked hlock, hstate]
      · rw [checkStep_collateral hgoes hvin hcoins hseen, hunit, hmain, hstate]
        rfl
    · intro hnot
      rcases hunseen hnot with hgoes | ⟨hlock, hstate⟩
      · exact checkStep_removed hgoes hnot
      · rw [checkStep_locked hlock, hstate]

end

namespace CollateralProbe

/-- Output 0 of transaction 7 is the collateral. -/
def collateralCoin : CCoinsView where
  coins hash :=
    if hash = 7 then .FromTx ⟨7, 1, [⟨⟨6, 0⟩, [], 0⟩], [⟨5000 * COIN, [OP_DUP]⟩], 0⟩ 5
    else .null
  hashBlock := 0

def timely (lastTimeSeen : Int) : CheckEvent where
  env :=
    { node := poolNode
      mempool := .empty
      pcoinsTip := collateralCoin
      collateralPubKey := [OP_DUP]
      lockRecv := true
      lockMain := true }
  lastTimeSeen := lastTimeSeen
  nScanningErrorCount := 0

def masternode (activeState : MasternodeState) : CMasternode :=
  ⟨⟨⟨7, 0⟩, [], 0xFFFFFFFF⟩, activeState, 0, false, 70000, 0⟩

theorem masternode_collateral :
    (timely 1600000040).env.Collateral (masternode .ENABLED).vin :=
  ⟨⟨[OP_DUP], rfl, ⟨rfl, rfl, rfl⟩⟩, rfl, fun h => absurd h (by decide), rfl⟩

end CollateralProbe

end Divitae
