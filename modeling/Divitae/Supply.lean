/-
# `Supply` — what an accepted proof-of-stake block can create

`IsBlockValueValid` compares the reward of the previous height with one 64-bit figure:

    nMint = created + nFees

where `created` is the exact sum of outputs less inputs and `nFees` what the fee
register has accumulated.  The register lags behind the real fees by 2500 coins for
each rebate, and zerocoin spends are not in it at all.  So the figure is

    unbacked - given       (`given` the rebates)    bounds the creation as long as it
                                                    does not wrap
    stakeGain - leak       (`leak` rebates and      bounds the staker's gain by the
                            zerocoin fees)          reward plus the leak
-/
import Divitae.CheckedBlock

namespace Divitae

open Wrap List Bool

/-! ## The setting -/

/-- The parameters are those of one of the networks. -/
def IsNetwork (P : CChainParams) : Prop := P = mainParams ∨ P = testNetParams ∨ P = regTestParams

theorem IsNetwork.max_nonneg {P : CChainParams} (h : IsNetwork P) : 0 ≤ P.nMaxMoneyOut := by
  rcases h with rfl | rfl | rfl <;> decide

theorem IsNetwork.max_fits {P : CChainParams} (h : IsNetwork P) :
    2 * P.nMaxMoneyOut < 2 ^ 63 := by
  rcases h with rfl | rfl | rfl <;> decide

/-- A proof-of-stake block at a height without budget payment, on a synced node; a
caller that says it has checked the block has done so. -/
structure OrdinaryStakeBlock (N : CConnectNode) (block : CBlock)
    (fAlreadyChecked : Bool) : Prop where
  network : IsNetwork N.P
  stake : block.IsProofOfStake = true
  notGenesis : block.hash ≠ N.hashGenesisBlock
  checked : fAlreadyChecked = true → ∃ pow merkle, CheckBlock N.toCNode block pow merkle = .ok ()
  synced : N.IsSynced = true
  noBudget : ∃ tip, N.chainTip = some tip ∧
    N.IsBudgetPaymentBlock (heightByPrev N.toCNode block tip) = false

section
variable {N : CConnectNode} {block : CBlock} {pindex pprev : CBlockIndex} {view : CCoinsView}
  {fJustCheck fAlreadyChecked : Bool}

/-- `ConnectBlock` takes the block. -/
def Accepts (N : CConnectNode) (block : CBlock) (pindex pprev : CBlockIndex) (view : CCoinsView)
    (fJustCheck fAlreadyChecked : Bool) : Prop :=
  ∃ c, ConnectBlock N block pindex pprev view fJustCheck fAlreadyChecked = .ok c

/-- Everything but the value check lets the block pass. -/
structure OnlyValueLeft (N : CConnectNode) (block : CBlock) (pindex pprev : CBlockIndex)
    (view : CCoinsView) (fJustCheck fAlreadyChecked : Bool) (pindex' : CBlockIndex)
    (st : ConnectState) : Prop where
  checkBlock : fAlreadyChecked = true ∨
    CheckBlock N.toCNode block (!fJustCheck) (!fJustCheck) = .ok ()
  bestBlock : pprev.phashBlock = some view.hashBlock
  totals : connectTotals N block pindex pprev view = .ok (pindex', st)
  checkpoint : N.ValidateAccumulatorCheckpoint block pindex' = true
  writes : fJustCheck = true ∨ N.writesSucceed = true

section
variable (hb : OrdinaryStakeBlock N block fAlreadyChecked)
include hb

theorem valueValid_iff (limit nMint : CAmount) :
    IsBlockValueValid N block limit nMint = true ↔ nMint ≤ limit := by
  obtain ⟨tip, htip, hbudget⟩ := hb.noBudget
  unfold IsBlockValueValid
  rw [htip]
  simp only [hb.synced, hbudget, Bool.not_true, Bool.false_eq_true, if_false]
  split_ifs
  · exact decide_eq_true_iff
  · rw [Bool.not_eq_true', decide_eq_false_iff_not]
    exact Int.not_lt

theorem accepts_iff :
    Accepts N block pindex pprev view fJustCheck fAlreadyChecked ↔
      ∃ pindex' st, OnlyValueLeft N block pindex pprev view fJustCheck fAlreadyChecked pindex' st ∧
        pindex'.nMint ≤ GetBlockValue N.P pprev.nHeight := by
  have hwork : block.IsProofOfWork = false := by
    unfold CBlock.IsProofOfWork
    rw [hb.stake]
    rfl
  have hlimit : ∀ nFees : CAmount, GetBlockValue N.P pprev.nHeight +
      (if block.IsProofOfWork = true then nFees else 0) = GetBlockValue N.P pprev.nHeight := by
    intro nFees
    rw [hwork]
    exact Int.add_zero _
  unfold Accepts ConnectBlock
  simp only [bind_eq_ok, rejectIf_eq_ok, if_neg hb.notGenesis, hlimit, not_eq_false',
    valueValid_iff hb, bne_eq_false_iff_eq]
  constructor
  · rintro ⟨c, _, hcheck, hbest, ⟨pindex', st⟩, htotals, hmint, hcheckpoint, hc⟩
    refine ⟨pindex', st, ⟨?_, hbest, htotals, hcheckpoint, ?_⟩, hmint⟩
    · cases fAlreadyChecked
      · exact .inr hcheck
      · exact .inl rfl
    · cases fJustCheck
      · simp only [false_eq_true, if_false, rejectIf_eq_ok, not_eq_false'] at hc
        exact .inr hc.1
      · exact .inl rfl
  · rintro ⟨pindex', st, hleft, hmint⟩
    have hcheck : (if fAlreadyChecked = true then Except.ok ()
        else CheckBlock N.toCNode block (!fJustCheck) (!fJustCheck)) = Except.ok () := by
      rcases hleft.checkBlock with h | h
      · rw [if_pos h]
      · rw [h, ite_self]
    cases fJustCheck
    · have hwrites : N.writesSucceed = true := hleft.writes.resolve_left false_ne_true
      simp only [rejectIf, hwrites, Bool.not_true, Bool.false_eq_true, if_false]
      exact ⟨_, (), hcheck, hleft.bestBlock, (pindex', st), hleft.totals, hmint,
        hleft.checkpoint, rfl⟩
    · exact ⟨_, (), hcheck, hleft.bestBlock, (pindex', st), hleft.totals, hmint,
        hleft.checkpoint, rfl⟩

end

variable {st : ConnectState} {pindex' : CBlockIndex}

section
variable (hb : OrdinaryStakeBlock N block fAlreadyChecked)
  (h : OnlyValueLeft N block pindex pprev view fJustCheck fAlreadyChecked pindex' st)
include hb h

theorem OnlyValueLeft.stakeBlock :
    StakeBlock N.toCNode block := by
  rcases h.checkBlock with h | h
  · obtain ⟨pow, merkle, hc⟩ := hb.checked h
    exact CheckBlock_stake hb.network.max_nonneg hb.stake hc
  · exact CheckBlock_stake hb.network.max_nonneg hb.stake h

theorem OnlyValueLeft.sums :
    Totals N block pindex view pindex' st :=
  connectTotals_ok hb.network.max_nonneg hb.network.max_fits h.totals

end

/-! ## The steps of a proof-of-stake block -/

/-- What the fee register gives back: 2500 coins each time it passes them. -/
def given (Z : Zerocoin) (steps : List TxStep) : Int :=
  rebates PROSPERITYNODE_AMOUNT 0 (fees Z steps)

/-- What the zerocoin spends other than the coin stake pay less than they redeem. -/
def zerocoinFees (Z : Zerocoin) (steps : List TxStep) : Int :=
  ((steps.filter fun s => s.1.IsZerocoinSpend && !s.1.IsCoinStake).map fun s => -gain Z s).sum

def stakeGain (Z : Zerocoin) : List TxStep → Int
  | _ :: s :: _ => gain Z s
  | _ => 0

/-- The fees and burns that the mint figure does not see. -/
def leak (Z : Zerocoin) (steps : List TxStep) : Int := given Z steps + zerocoinFees Z steps

theorem unbacked_rest (Z : Zerocoin) : ∀ {steps : List TxStep},
    (∀ s ∈ steps, s.1.IsCoinBase = false ∧ s.1.IsCoinStake = false) →
    unbacked Z steps = -zerocoinFees Z steps
  | [], _ => rfl
  | s :: steps, h => by
    obtain ⟨hbase, hstake⟩ := h s mem_cons_self
    have ih := unbacked_rest Z fun t ht => h t (mem_cons_of_mem s ht)
    unfold unbacked zerocoinFees at ih ⊢
    rw [filter_cons, filter_cons]
    unfold paysFee at ih ⊢
    rw [hbase, hstake]
    cases s.1.IsZerocoinSpend
    · simpa using ih
    · simp only [Bool.not_true, Bool.false_and, Bool.not_false, Bool.and_self, if_true,
        map_cons, sum_cons, ih]
      omega

theorem unbacked_eq (hblock : StakeBlock N.toCNode block)
    (hrun : ConnectRun N pindex.nHeight true block.vtx (.start view) st) :
    unbacked N.Z (blockSteps block pindex view) =
      stakeGain N.Z (blockSteps block pindex view) -
        zerocoinFees N.Z (blockSteps block pindex view) := by
  obtain ⟨coinBase, coinStake, rest, hvtx, hbase, hzero, hstake, hnotBase, hrest⟩ := hblock.shape
  have hfst : (blockSteps block pindex view).map Prod.fst = block.vtx := hrun.steps_fst
  rw [hvtx] at hfst
  match hsteps : blockSteps block pindex view with
  | [] =>
    rw [hsteps] at hfst
    cases hfst
  | [_] =>
    rw [hsteps] at hfst
    cases hfst
  | s₀ :: s₁ :: steps =>
    rw [hsteps] at hfst
    obtain ⟨h₀, hfst⟩ := cons.inj hfst
    obtain ⟨h₁, hfst⟩ := cons.inj hfst
    have hnot : ∀ s ∈ steps, s.1.IsCoinBase = false ∧ s.1.IsCoinStake = false := by
      intro s hs
      exact hrest s.1 (hfst ▸ mem_map_of_mem hs)
    have hspend : coinBase.IsZerocoinSpend = false := not_spend_of_isCoinBase hbase
    have hgain : gain N.Z s₀ = 0 := by
      unfold gain exactIn
      rw [h₀, hspend, hbase, hzero]
      rfl
    have htail := unbacked_rest N.Z hnot
    unfold unbacked zerocoinFees paysFee at htail ⊢
    simp only [filter_cons, h₀, h₁, hspend, hbase, hstake, hnotBase, Bool.not_true,
      Bool.not_false, Bool.and_false, Bool.false_and, Bool.and_true, if_true,
      Bool.false_eq_true, if_false, map_cons, sum_cons, hgain, stakeGain]
    rw [htail]
    omega

/-! ## Both sides of the value check -/

theorem nMint_eq (hb : OrdinaryStakeBlock N block fAlreadyChecked)
    (h : OnlyValueLeft N block pindex pprev view fJustCheck fAlreadyChecked pindex' st) :
    pindex'.nMint = wrap64 (unbacked N.Z (blockSteps block pindex view) -
      given N.Z (blockSteps block pindex view)) := by
  have hsums := h.sums hb
  have hnFees : st.nFees = wrap64 ((fees N.Z (blockSteps block pindex view)).sum -
      given N.Z (blockSteps block pindex view)) := by
    rw [hsums.run.nFees]
    have hfold := foldl_rebate (a := PROSPERITYNODE_AMOUNT) (by decide)
      (fees N.Z (blockSteps block pindex view)) 0 ⟨by decide, by decide⟩
    rwa [Int.zero_add] at hfold
  rw [hsums.nMint, created_eq, hnFees, wrap64_add_wrap64_right]
  congr 1
  exact sub_add_sub_cancel _ _ _

end

/-! ### A node with nothing in its way

Databases are empty, signatures and scripts verify, and the script of a zerocoin spend
is a serial number of two bytes behind the opcode, the coin always of denomination 1. -/

def quietZerocoin : Zerocoin where
  TxInToZerocoinSpend txin :=
    match txin.scriptSig with
    | [_, lo, hi] => some ⟨.ZQ_ONE, 0, 0, lo.toNat + 256 * hi.toNat, 1, .SPEND⟩
    | _ => none
  mintValue _ := 0
  validate _ := true
  Verify _ := true
  HasValidSignature _ := true
  HasValidSerial _ _ := true
  ReadCoinSpend _ := none
  ReadCoinMint _ := none

def quietCrypto : Crypto where
  hash256 _ := 0
  hash160 _ := 0
  getPubKey _ := .ofBytes []
  signCompact _ _ := none
  recoverCompact _ _ := none

theorem noCurve_none (x y : List UInt8) (_ : x.length = 32) (_ : y.length = 32)
    (h : false = true) : none = some (4 :: (x ++ y)) := by
  cases h

def noCurve : CurvePoints where
  IsFullyValid _ := false
  Decompress _ := none
  decompress_compress := noCurve_none

/-- A tip of hash 100 with a supply of 1000 zerocoins of each denomination. -/
def quietTip (nHeight : Int) : CBlockIndex where
  phashBlock := some 100
  nHeight := nHeight
  nVersion := 4
  nTime := 1600000000
  nAccumulatorCheckpoint := 0
  nMint := 0
  nMoneySupply := 0
  mapZerocoinSupply _ := 1000
  vMintDenominationsInBlock := []
  undo := none

def quietNode (nHeight : Int) : CConnectNode where
  P := mainParams
  C := quietCrypto
  Z := quietZerocoin
  sporks := .fresh
  time := 1600000100
  adjustedTime := 1600000100
  hashGenesisBlock := 0
  fVerifyingBlocks := false
  IsInitialBlockDownload := false
  chainTip := some (quietTip nHeight)
  mapBlockIndex hash := if hash = 100 then some nHeight else none
  IsTransactionInChain _ := none
  mapLockedInputs _ := none
  ContainsOutPoint _ := false
  ContainsSerial _ := false
  CheckProofOfWork _ := true
  merkleRootMatches _ := true
  IsBlockPayeeValid _ _ := true
  GetLegacySigOpCount _ := 1
  K := noCurve
  IsSynced := true
  IsBudgetPaymentBlock _ := false
  GetP2SHSigOpCount _ _ := 0
  scriptsVerify _ _ := true
  ValidateAccumulatorCheckpoint _ _ := true
  recalculated pprev := (pprev.nMoneySupply, pprev.mapZerocoinSupply)
  writesSucceed := true

def quietIndex (nHeight : Int) : CBlockIndex :=
  { quietTip nHeight with phashBlock := some 101, nHeight := nHeight + 1 }

def emptyCoinBase : CTransaction := ⟨200, 1, [⟨.SetNull, [1, 1], 0⟩], [.empty], 0⟩

/-- A stake of transaction 7 that pays `nValue`. -/
def quietStake (nValue : CAmount) : CTransaction :=
  ⟨201, 1, [⟨⟨7, 0⟩, [], 0⟩], [.empty, ⟨nValue, []⟩], 0⟩

def quietBlock (nValue : CAmount) (rest : List CTransaction) : CBlock where
  hash := 101
  nVersion := 4
  hashPrevBlock := 100
  nTime := 1600000060
  vtx := emptyCoinBase :: quietStake nValue :: rest
  vchBlockSig := []

def oneCoin : CCoinsView where
  coins txid := if txid = 7 then ⟨false, false, [⟨COIN, []⟩], 5, 1⟩ else .null
  hashBlock := 100

theorem quietBlock_ordinary (nHeight : Int) (nValue : CAmount) (rest : List CTransaction) :
    OrdinaryStakeBlock (quietNode nHeight) (quietBlock nValue rest) false where
  network := .inl rfl
  stake := rfl
  notGenesis := (by decide : (101 : uint256) ≠ 0)
  checked h := by cases h
  synced := rfl
  noBudget := ⟨_, rfl, rfl⟩

end Divitae
