/-
# `CoinstakeReward` — what a coinstake creates, and what the block may

The wallet adds the value of the new block's height to the credit of its coinstake.
`ConnectBlock` lets a block mint the value of the height below (`nExpectedMint`):

    coin        creates GetBlockValue(tip + 1) and what rounds before have left in nCredit
    zerocoin    creates three coins, whatever the credit
    allowed     GetBlockValue(tip)

The value rises once, on top of block 53999, and there every coin creates too much.  A round that
meets its kernel but makes no outputs leaves its value and its reward to the next one
(`coinstake_created_le_iff`).
-/
import Divitae.StakeOutputs

namespace Divitae

open CStakerNode List

section
variable {nBits : BitVec 32} {IsMasternode : Bool}

/-- The loop comes to `r` behind the rounds `before`, and `tx` is what it returns. -/
def BuiltBy (nBits : BitVec 32) (IsMasternode : Bool) (before : List StakeRound) (r : StakeRound)
    (tx : CTransaction) : Prop :=
  ∃ s txNew, afterRounds nBits IsMasternode .start before = some s ∧
    r.turn nBits IsMasternode s = .found txNew ∧ r.finish txNew = some tx

variable {rounds : List StakeRound}

theorem stakeLoop_iff {s : StakeLoop} {r : StakeRound}
    {txNew : CTransaction} :
    stakeLoop nBits IsMasternode s rounds = some (r, txNew) ↔
      ∃ before after s', rounds = before ++ r :: after ∧
        afterRounds nBits IsMasternode s before = some s' ∧
        r.turn nBits IsMasternode s' = .found txNew := by
  induction rounds generalizing s with
  | nil =>
    refine iff_of_false nofun ?_
    rintro ⟨before, after, -, hsplit, -⟩
    simp at hsplit
  | cons first rounds ih =>
    rw [stakeLoop]
    constructor
    · intro h
      cases hturn : first.turn nBits IsMasternode s with
      | next s' =>
        rw [hturn] at h
        obtain ⟨before, after, s'', rfl, hbefore, hfound⟩ := ih.mp h
        exact ⟨first :: before, after, s'', rfl, afterRounds_cons.mpr ⟨s', hturn, hbefore⟩, hfound⟩
      | failed =>
        rw [hturn] at h
        cases h
      | found txNew' =>
        rw [hturn] at h
        cases h
        exact ⟨[], rounds, s, rfl, rfl, hturn⟩
    · rintro ⟨before, after, s', hsplit, hbefore, hfound⟩
      cases before with
      | nil =>
        obtain ⟨rfl, rfl⟩ := cons.inj hsplit
        cases hbefore
        rw [hfound]
      | cons head before =>
        obtain ⟨rfl, rfl⟩ := cons.inj hsplit
        obtain ⟨m, hturn, hrest⟩ := afterRounds_cons.mp hbefore
        rw [hturn]
        exact ih.mpr ⟨before, after, s', rfl, hrest, hfound⟩

variable {tx : CTransaction}

theorem CreateCoinStake_iff :
    CreateCoinStake nBits IsMasternode rounds = some tx ↔
      ∃ before r after, rounds = before ++ r :: after ∧ BuiltBy nBits IsMasternode before r tx := by
  rw [CreateCoinStake]
  constructor
  · intro h
    cases hloop : stakeLoop nBits IsMasternode .start rounds with
    | none =>
      rw [hloop] at h
      cases h
    | some found =>
      rw [hloop] at h
      obtain ⟨before, after, s, hsplit, hbefore, hfound⟩ := stakeLoop_iff.mp hloop
      exact ⟨before, found.1, after, hsplit, s, found.2, hbefore, hfound, h⟩
  · rintro ⟨before, r, after, hsplit, s, txNew, hbefore, hfound, hfinish⟩
    rw [stakeLoop_iff.mpr ⟨before, after, s, hsplit, hbefore, hfound⟩]
    exact hfinish

theorem afterRounds_concat {s s' : StakeLoop} {r : StakeRound}
    (h : afterRounds nBits IsMasternode s (rounds ++ [r]) = some s') :
    ∃ m, afterRounds nBits IsMasternode s rounds = some m ∧
      r.turn nBits IsMasternode m = .next s' := by
  induction rounds generalizing s with
  | nil =>
    obtain ⟨m, hturn, hrest⟩ := afterRounds_cons.mp h
    cases hrest
    exact ⟨s, rfl, hturn⟩
  | cons first rounds ih =>
    obtain ⟨m, hturn, hrest⟩ := afterRounds_cons.mp h
    obtain ⟨m', hbefore, hlast⟩ := ih hrest
    exact ⟨m', afterRounds_cons.mpr ⟨m, hturn, hbefore⟩, hlast⟩

end

/-! ## What rounds leave in the credit -/

namespace StakeRound

variable {r : StakeRound} {nBits : BitVec 32}

/-- The outputs can be made, which does not depend on the total. -/
def makesOutputs (r : StakeRound) : Bool := (r.CreateTxOuts 0).isSome

theorem CreateTxOuts_of_coin {txFrom : CTransaction} {nPosition : Nat} {txout : CTxOut}
    {scriptPubKey : CScript} {nTotal : CAmount} (hstake : r.stakeInput = .vit txFrom nPosition)
    (hout : txFrom.vout[nPosition]? = some txout)
    (hscript : r.stakeScript txout.scriptPubKey = some scriptPubKey) :
    r.CreateTxOuts nTotal =
      some (if r.splits nTotal then [⟨0, scriptPubKey⟩, ⟨0, scriptPubKey⟩]
        else [⟨0, scriptPubKey⟩]) := by
  rw [CreateTxOuts, hstake]
  dsimp only
  rw [hout]
  dsimp only
  rw [hscript]
  split_ifs <;> rfl

theorem CreateTxOuts_isSome (nTotal : CAmount) :
    (r.CreateTxOuts nTotal).isSome = r.makesOutputs := by
  rw [makesOutputs]
  cases hstake : r.stakeInput with
  | vit txFrom nPosition =>
    simp only [CreateTxOuts, hstake]
    split
    · rfl
    · split
      · rfl
      · split_ifs <;> rfl
  | zvit =>
    simp only [CreateTxOuts, hstake]

theorem value_pos (h : r.kernelFound nBits = true) : 0 < r.stakeInput.GetValue := by
  refine lt_of_le_of_ne r.value_nonneg ?_
  intro hzero
  have hmiss : ∀ hash target : uint256, stakeTargetHit hash 0 target = false := by
    intro hash target
    have hweight : (BitVec.ofInt 64 (0 : Int)).setWidth 256 / 100 = 0#256 := rfl
    rw [stakeTargetHit, hweight, BitVec.zero_mul]
    exact decide_eq_false (BitVec.not_lt_zero)
  rw [kernelFound] at h
  split at h
  · cases h
  · split_ifs at h
    split at h
    · cases h
    · next hfound =>
        rw [Stake] at hfound
        split at hfound
        · cases hfound
        · split at hfound
          · cases hfound
          · split at hfound
            · cases hfound
            · obtain ⟨-, -, -, hcheck⟩ := stakeRounds_some hfound
              rw [CheckStake, ← hzero, hmiss] at hcheck
              cases hcheck

end StakeRound

/-- The last of the rounds that met its kernel. -/
def lastKernel (nBits : BitVec 32) (rounds : List StakeRound) : Option StakeRound :=
  (rounds.filter fun r => r.kernelFound nBits).getLast?

section
variable {nBits : BitVec 32} {IsMasternode : Bool} {rounds : List StakeRound} {r : StakeRound}

theorem lastKernel_concat_found (h : r.kernelFound nBits = true) :
    lastKernel nBits (rounds ++ [r]) = some r := by
  have hone : [r].filter (fun r => r.kernelFound nBits) = [r] := by simp [h]
  rw [lastKernel, filter_append, hone]
  exact List.getLast?_concat

theorem lastKernel_concat_missed (h : r.kernelFound nBits = false) :
    lastKernel nBits (rounds ++ [r]) = lastKernel nBits rounds := by
  have hnone : [r].filter (fun r => r.kernelFound nBits) = [] := by simp [h]
  rw [lastKernel, filter_append, hnone, append_nil, lastKernel]

theorem credit_left {s : StakeLoop}
    (h : afterRounds nBits IsMasternode .start rounds = some s) :
    (s.nCredit = 0 ∧ ∀ w, lastKernel nBits rounds = some w → w.makesOutputs = true) ∨
      ∃ w ∈ rounds, lastKernel nBits rounds = some w ∧ w.makesOutputs = false ∧
        0 < w.stakeInput.GetValue ∧ w.stakeInput.GetValue + w.nReward ≤ s.nCredit := by
  induction rounds using List.reverseRecOn generalizing s with
  | nil =>
    cases h
    exact .inl ⟨rfl, fun w hw => nomatch hw⟩
  | append_singleton rounds r ih =>
    obtain ⟨m, hm, hturn⟩ := afterRounds_concat h
    rcases StakeRound.turn_next hturn with hnext | ⟨vout, hready, -, rfl⟩
    · rcases StakeRound.layOut_next hnext with ⟨hmissed, rfl⟩ | ⟨hfound, hnone, rfl⟩
      · rw [lastKernel_concat_missed hmissed]
        rcases ih hm with hclear | ⟨w, hw, hleft⟩
        · exact .inl hclear
        · exact .inr ⟨w, mem_append_left _ hw, hleft⟩
      · -- this round's own credit is what is left
        have hnever : r.makesOutputs = false := by
          rw [← StakeRound.CreateTxOuts_isSome (r.credit m), hnone]
          rfl
        have hkept := (afterRounds_kept StakeLoop.start_kept hm).nCredit
        refine .inr ⟨r, mem_append_right _ (mem_singleton_self r),
          lastKernel_concat_found hfound, hnever, StakeRound.value_pos hfound, ?_⟩
        show r.stakeInput.GetValue + r.nReward ≤ m.nCredit + r.stakeInput.GetValue + r.nReward
        rw [Int.add_assoc]
        exact Int.le_add_of_nonneg_left hkept
    · obtain ⟨hfound, outs, houts, -⟩ := StakeRound.layOut_ready hready
      refine .inl ⟨rfl, fun w hw => ?_⟩
      rw [lastKernel_concat_found hfound] at hw
      cases hw
      rw [← StakeRound.CreateTxOuts_isSome (r.credit m), houts]
      rfl

end

/-! ## What a coinstake creates -/

namespace StakeRound

variable {r : StakeRound} {nBits : BitVec 32} {IsMasternode : Bool} {s : StakeLoop}

theorem kept_total (hs : s.Kept) : (s.vout.map CTxOut.nValue).sum = 0 := by
  rcases hs.vout with hstart | hnone
  · rw [hstart]
    rfl
  · rw [hnone]
    rfl

theorem newMints_total (stake : StakeInput) (hzpiv : stake.IsZPIV = true) :
    (stake.newMints.map CoinDenomination.toAmount).sum = stake.GetValue + 3 * COIN := by
  cases stake with
  | vit txFrom nPosition => cases hzpiv
  | zvit nChecksum fMint denom hashSerial =>
    cases denom <;> rfl

section
variable {vout : List CTxOut} (hs : s.Kept) (h : r.layOut nBits s = .ready vout)
include hs h

theorem ready_total :
    (vout.map CTxOut.nValue).sum =
      if r.stakeInput.IsZPIV then r.stakeInput.GetValue + 3 * COIN else r.credit s := by
  obtain ⟨front, last, hlaid⟩ := laidAs_of_ready hs h
  cases hzpiv : r.stakeInput.IsZPIV with
  | true =>
    obtain ⟨outs, rfl, hvalues⟩ := hlaid.mints hzpiv
    rw [hlaid.split, append_assoc, map_append, sum_append, kept_total hs, hvalues,
      newMints_total _ hzpiv]
    exact Int.zero_add _
  | false => exact hlaid.credit hzpiv

theorem filled_total (hnobudget : r.node.payments.PaysBudget (r.node.tip.nHeight + 1) = false) :
    (r.filled IsMasternode vout).GetValueOut = (vout.map CTxOut.nValue).sum := by
  obtain ⟨front, last, hlaid⟩ := laidAs_of_ready hs h
  have hfilled : (r.filled IsMasternode vout).vout =
      takeFromLast (paidOut (r.node.payments.nodePayments r.node.tip IsMasternode)) vout ++
        r.node.payments.nodePayments r.node.tip IsMasternode := by
    rw [filled, FillBlockPayee, r.node.chainTip]
    dsimp only
    rw [hnobudget, if_neg Bool.false_ne_true, fillNodePayees, if_neg (by simp)]
    rfl
  rw [CTransaction.GetValueOut, hfilled, hlaid.split]
  exact total_kept

end

theorem finish_vout {txNew tx : CTransaction} (h : r.finish txNew = some tx) :
    tx.vout = txNew.vout := by
  rw [finish] at h
  split at h
  · split_ifs at h
    · obtain ⟨scriptSig, -, rfl⟩ := Option.map_eq_some_iff.mp h
      rfl
    · cases h
      rfl
  · cases h

end StakeRound

theorem coinstake_created {nBits : BitVec 32} {IsMasternode : Bool} {before : List StakeRound}
    {r : StakeRound} (hbuilt : BuiltBy nBits IsMasternode before r tx)
    (hnobudget : r.node.payments.PaysBudget (r.node.tip.nHeight + 1) = false) :
    r.kernelFound nBits = true ∧
      ∃ s, afterRounds nBits IsMasternode .start before = some s ∧
        tx.GetValueOut - r.stakeInput.GetValue =
          if r.stakeInput.IsZPIV then 3 * COIN else s.nCredit + r.nReward := by
  obtain ⟨s, txNew, hbefore, hfound, hfinish⟩ := hbuilt
  have hs := afterRounds_kept StakeLoop.start_kept hbefore
  obtain ⟨vout, hready, hvout⟩ := StakeRound.turn_found hfound
  refine ⟨(StakeRound.layOut_ready hready).1, s, hbefore, ?_⟩
  have htotal : tx.GetValueOut = (vout.map CTxOut.nValue).sum := by
    rw [CTransaction.GetValueOut, StakeRound.finish_vout hfinish, hvout]
    exact StakeRound.filled_total hs hready hnobudget
  have hcoin : ∀ a b c : Int, a + b + c - b = a + c := by
    intro a b c
    omega
  rw [htotal, StakeRound.ready_total hs hready]
  cases r.stakeInput.IsZPIV with
  | true => exact add_sub_cancel_left _ _
  | false => exact hcoin _ _ _

/-! ## What the block may -/

theorem GetBlockValue_le_two_succ (P : CChainParams) {nHeight : Int} (h : 2 ≤ nHeight) :
    GetBlockValue P nHeight ≤ 2 * GetBlockValue P (nHeight + 1) := by
  rw [GetBlockValue_of_two_le P h, GetBlockValue_of_two_le P (Int.le_add_one h)]
  split_ifs <;> first | decide | omega

theorem five_le_GetBlockValue (P : CChainParams) {nHeight : Int} (h : 54000 ≤ nHeight) :
    5 * COIN ≤ GetBlockValue P nHeight := by
  rw [GetBlockValue_of_two_le P (by omega)]
  split_ifs <;> first | decide | omega

theorem StakeRound.tip_of_zerocoin {r : StakeRound} {nBits : BitVec 32}
    (hzpiv : r.stakeInput.IsZPIV = true) (hfound : r.kernelFound nBits = true) :
    r.node.kernel.P.nZerocoinStartHeight ≤ r.node.tip.nHeight := by
  rw [← r.node.height]
  cases hstake : r.stakeInput with
  | vit txFrom nPosition =>
    rw [hstake] at hzpiv
    cases hzpiv
  | zvit nChecksum fMint denom hashSerial =>
    rw [kernelFound, hstake, StakeInput.GetIndexFrom] at hfound
    by_contra hlow
    rw [if_pos (by omega)] at hfound
    cases hfound

theorem IsNetwork.zerocoin_late {P : CChainParams} (h : IsNetwork P) :
    54000 ≤ P.nZerocoinStartHeight ∧ P.nLastPOWBlock = 200 := by
  rcases h with rfl | rfl | rfl <;> decide

/-- **What is created against what is allowed.**  On a proof-of-stake tip, with no budget payment
to make: a zerocoin creates no more than the block may, and a coin exactly if the reward does not
rise above the tip and the last round before that met its kernel, if any, could make its
outputs. -/
theorem coinstake_created_le_iff (P : CChainParams) (hnet : IsNetwork P) (tip : CBlockIndex)
    (htip : P.nLastPOWBlock ≤ tip.nHeight) (nBits : BitVec 32) (IsMasternode : Bool)
    (before : List StakeRound) (r : StakeRound) (tx : CTransaction)
    (hsame : ∀ q ∈ before ++ [r], q.node.kernel.P = P ∧ q.node.tip = tip)
    (hnobudget : r.node.payments.PaysBudget (tip.nHeight + 1) = false)
    (hbuilt : BuiltBy nBits IsMasternode before r tx) :
    tx.GetValueOut - r.stakeInput.GetValue ≤ GetBlockValue P tip.nHeight ↔
      r.stakeInput.IsZPIV = true ∨
        (tip.nHeight ≠ 53999 ∧ ∀ w, lastKernel nBits before = some w → w.makesOutputs = true) := by
  obtain ⟨hlate, hpow⟩ := hnet.zerocoin_late
  have hheight : 200 ≤ tip.nHeight := by omega
  have hreward : ∀ q ∈ before ++ [r], q.nReward = GetBlockValue P (tip.nHeight + 1) := by
    intro q hq
    obtain ⟨hP, hsametip⟩ := hsame q hq
    rw [StakeRound.nReward, q.node.height, hP, hsametip]
  obtain ⟨hP, hrtip⟩ := hsame r (mem_append_right _ (mem_singleton_self r))
  rw [← hrtip] at hnobudget
  obtain ⟨hfound, s, hbefore, hcreated⟩ := coinstake_created hbuilt hnobudget
  rw [hcreated]
  cases hzpiv : r.stakeInput.IsZPIV with
  | true =>
    refine iff_of_true ?_ (.inl rfl)
    have hstart := StakeRound.tip_of_zerocoin hzpiv hfound
    rw [hP, hrtip] at hstart
    have hthree : (3 : Int) * COIN ≤ 5 * COIN := by decide
    exact hthree.trans (five_le_GetBlockValue P (by omega))
  | false =>
    rw [if_neg Bool.false_ne_true, hreward r (mem_append_right _ (mem_singleton_self r))]
    have hrise := GetBlockValue_succ_le_iff P (show 2 ≤ tip.nHeight by omega)
    rcases credit_left hbefore with ⟨hclear, hlast⟩ | ⟨w, hw, hlast, hnever, hvalue, hleft⟩
    · rw [hclear, Int.zero_add, hrise]
      constructor
      · intro hne
        exact .inr ⟨hne, hlast⟩
      · rintro (hcoin | ⟨hne, -⟩)
        · cases hcoin
        · exact hne
    · -- twice the reward and more is created
      refine iff_of_false ?_ ?_
      · have htwo := GetBlockValue_le_two_succ P (show 2 ≤ tip.nHeight by omega)
        rw [hreward w (mem_append_left _ hw)] at hleft
        have hmore : ∀ a b c v : Int, 0 < v → a ≤ 2 * b → v + b ≤ c → ¬ c + b ≤ a := by
          intro a b c v hv hab hvb
          omega
        exact hmore _ _ _ _ hvalue htwo hleft
      · rintro (hcoin | ⟨-, hall⟩)
        · cases hcoin
        · rw [hall w hlast] at hnever
          cases hnever

/-! ### A coin of 100 coins on the chain of even blocks -/

namespace StakeOutputs

def hundredCoins : StakeInput := .vit evenCoin 0

variable {n : Nat}

theorem hundredCoins_from (h : 1 ≤ n) :
    hundredCoins.GetIndexFrom (evenKernel n) = some (evenIndex 1) := by
  have hindex : (evenKernel n).mapBlockIndex 1 = some (evenIndex 1) := if_pos h
  have hat : (evenKernel n).chainActive.at' (evenIndex 1).nHeight = some (evenIndex 1) :=
    evenChain_at h
  have hcontains : (evenKernel n).chainActive.Contains (evenIndex 1) = true := by
    rw [CChain.Contains, hat]
    exact beq_self_eq_true _
  have htx : (evenKernel n).GetTransaction evenCoin.hash = some (evenCoin, 1) := rfl
  rw [hundredCoins, StakeInput.GetIndexFrom, htx]
  dsimp only
  rw [hindex]
  exact if_pos hcontains

theorem hundredCoins_modifier (h : 2 ≤ n) :
    hundredCoins.GetModifier (evenKernel n) = some (evenIndex 2).nStakeModifier := by
  have hindex : (evenKernel n).mapBlockIndex (evenIndex 1).hash = some (evenIndex 1) :=
    if_pos (show 1 ≤ n by omega)
  have hfrom : (evenKernel n).chainActive.from' ((evenIndex 1).nHeight + 1) =
      evenIndex 2 :: (List.range' 3 (n - 2)).map evenIndex := by
    have hcount : n + 1 - 2 = n - 2 + 1 := by omega
    show (evenChain n).from' ((2 : Nat) : Int) = _
    rw [evenChain_from, hcount, range'_succ]
    rfl
  have hinterval : ((evenIndex 1).GetBlockTime : Int) <
      (evenIndex 1).GetBlockTime + GetStakeModifierSelectionInterval := by decide
  have hlate : ¬ ((evenIndex 2).GetBlockTime : Int) <
      (evenIndex 1).GetBlockTime + GetStakeModifierSelectionInterval := by decide
  rw [StakeInput.GetModifier, hundredCoins_from (by omega)]
  show GetKernelStakeModifier (evenKernel n) (evenIndex 1).hash = _
  rw [GetKernelStakeModifier, hindex]
  dsimp only
  rw [hfrom, kernelModifierLoop, if_pos hinterval]
  show kernelModifierLoop _ (evenIndex 2).GetBlockTime (evenIndex 2) _ = _
  cases (List.range' 3 (n - 2)).map evenIndex with
  | nil =>
    rw [kernelModifierLoop, if_neg hlate]
  | cons next rest =>
    rw [kernelModifierLoop, if_neg hlate]

theorem hundredCoins_built (hlong : 10 ≤ n) (hsmall : n ≤ 300200)
    (h : 0 ≤ hundredCoins.GetValue) {before : List StakeRound} {left c : CAmount}
    (hbefore : afterRounds 0x1d00ffff false .start before = some ⟨[.empty], left⟩)
    (hcredit : (evenRound n hundredCoins h).credit ⟨[.empty], left⟩ = c)
    (hc : c = 101 * COIN ∨ c = 130 * COIN ∨ c = 170 * COIN) :
    ∃ tx, BuiltBy 0x1d00ffff false before (evenRound n hundredCoins h) tx := by
  have hkernel := evenRound_kernel (Nat.le_refl 1) (by omega) hlong hsmall h
    (hundredCoins_from (by omega)) (hundredCoins_modifier (by omega)) (by decide)
  have hscript : (evenRound n hundredCoins h).stakeScript
      (CScript.pushData (compressedKey 1).bytes ++ [OP_CHECKSIG]) =
        some (CScript.pushData (compressedKey 1).bytes ++ [OP_CHECKSIG]) := by
    have hsolver : Solver (CScript.pushData (compressedKey 1).bytes ++ [OP_CHECKSIG]) =
        some (.TX_PUBKEY, (compressedKey 1).bytes) := by decide
    rw [StakeRound.stakeScript, hsolver]
  have hwhole : (evenRound n hundredCoins h).splits c = false := by
    show decide (c.tdiv 2 > Wrap.wrap64 ((2000 : BitVec 64).toNat * COIN)) = false
    rcases hc with rfl | rfl | rfl <;> decide
  have houts : (evenRound n hundredCoins h).CreateTxOuts c =
      some [⟨0, CScript.pushData (compressedKey 1).bytes ++ [OP_CHECKSIG]⟩] := by
    rw [StakeRound.CreateTxOuts_of_coin rfl rfl hscript, hwhole]
    rfl
  have hready : (evenRound n hundredCoins h).layOut 0x1d00ffff ⟨[.empty], left⟩ =
      .ready [.empty, ⟨c, CScript.pushData (compressedKey 1).bytes ++ [OP_CHECKSIG]⟩] := by
    have hsize : ¬ (mutableTransaction []
        [.empty, ⟨c, CScript.pushData (compressedKey 1).bytes ++ [OP_CHECKSIG]⟩]).ser.length ≥
          DEFAULT_BLOCK_MAX_SIZE / 5 := by
      rcases hc with rfl | rfl | rfl <;> decide
    rw [StakeRound.layOut, hkernel, hcredit, houts]
    exact if_neg (t := .failed) hsize
  have hturn : ∃ txNew, (evenRound n hundredCoins h).turn 0x1d00ffff false ⟨[.empty], left⟩ =
      .found txNew ∧ ∃ tx, (evenRound n hundredCoins h).finish txNew = some tx := by
    rw [StakeRound.turn, hready]
    exact ⟨_, rfl, _, rfl⟩
  obtain ⟨txNew, hfound, tx, hfinish⟩ := hturn
  exact ⟨tx, ⟨[.empty], left⟩, txNew, hbefore, hfound, hfinish⟩

theorem evenRound_credit (n : Nat) (h : 0 ≤ hundredCoins.GetValue) :
    (evenRound n hundredCoins h).credit .start = 100 * COIN + GetBlockValue mainParams (n + 1) := by
  have hreward : (evenRound n hundredCoins h).nReward = GetBlockValue mainParams (n + 1) := by
    show GetBlockValue mainParams ((evenChain n).Height + 1) = _
    rw [evenChain_height]
  rw [StakeRound.credit, hreward]
  rfl

theorem evenRound_same (n : Nat) (h : 0 ≤ hundredCoins.GetValue) :
    ∀ q ∈ ([] : List StakeRound) ++ [evenRound n hundredCoins h],
      q.node.kernel.P = mainParams ∧ q.node.tip = quietTip n := by
  intro q hq
  obtain rfl := mem_singleton.mp hq
  exact ⟨rfl, rfl⟩

theorem hundredCoins_created {h : 0 ≤ hundredCoins.GetValue}
    (hbuilt : BuiltBy 0x1d00ffff false [] (evenRound n hundredCoins h) tx)
    (hnobudget : (evenNode n).payments.PaysBudget (n + 1) = false) :
    tx.GetValueOut - hundredCoins.GetValue = GetBlockValue mainParams (n + 1) := by
  obtain ⟨-, s, hbefore, hcreated⟩ := coinstake_created hbuilt hnobudget
  cases hbefore
  have hreward : (evenRound n hundredCoins h).nReward = GetBlockValue mainParams (n + 1) := by
    show GetBlockValue mainParams ((evenChain n).Height + 1) = _
    rw [evenChain_height]
  rw [hreward] at hcreated
  exact hcreated.trans (Int.zero_add _)

/-- On top of block 300 no more is created than is allowed. -/
theorem allowed_on_300 : ∃ tx : CTransaction,
    BuiltBy 0x1d00ffff false [] (evenRound 300 hundredCoins (by decide)) tx ∧
      tx.GetValueOut - hundredCoins.GetValue ≤ GetBlockValue mainParams 300 := by
  obtain ⟨tx, hbuilt⟩ := @hundredCoins_built 300 (by decide) (by decide) (by decide) [] 0 _ rfl
    (evenRound_credit 300 (by decide)) (.inl (by decide))
  exact ⟨tx, hbuilt, (coinstake_created_le_iff mainParams (.inl rfl) (quietTip 300) (by decide)
    0x1d00ffff false [] (evenRound 300 hundredCoins (by decide)) tx
    (evenRound_same 300 (by decide)) (by decide +kernel) hbuilt).mpr
      (.inr ⟨by decide, fun w hw => nomatch hw⟩)⟩

/-- **The reward rises.**  On top of block 53999 the coinstake creates 30 coins, and the block may
mint one. -/
theorem refused_on_53999 :
    ¬ (∀ (P : CChainParams) (tip : CBlockIndex) (nBits : BitVec 32) (IsMasternode : Bool)
      (before : List StakeRound) (r : StakeRound) (tx : CTransaction), IsNetwork P →
      P.nLastPOWBlock ≤ tip.nHeight →
      (∀ q ∈ before ++ [r], q.node.kernel.P = P ∧ q.node.tip = tip) →
      r.node.payments.PaysBudget (tip.nHeight + 1) = false →
      BuiltBy nBits IsMasternode before r tx →
      tx.GetValueOut - r.stakeInput.GetValue ≤ GetBlockValue P tip.nHeight) := by
  intro hall
  have hat : ∀ n : Nat, n = 53999 → False := by
    intro n hn
    have hvalue : GetBlockValue mainParams (n + 1) = 30 * COIN := by
      rw [hn]
      decide
    have hlimit : GetBlockValue mainParams n = 1 * COIN := by
      rw [hn]
      decide
    have hnobudget : (evenNode n).payments.PaysBudget (n + 1) = false := by
      rw [hn]
      decide +kernel
    obtain ⟨tx, hbuilt⟩ := @hundredCoins_built n (by omega) (by omega) (by decide) [] 0 _ rfl
      (evenRound_credit n (by decide)) (.inr (.inl (by rw [hvalue]; decide)))
    have htip : mainParams.nLastPOWBlock ≤ (quietTip n).nHeight := by
      show (200 : Int) ≤ n
      omega
    have hle : tx.GetValueOut - hundredCoins.GetValue ≤ GetBlockValue mainParams n :=
      hall mainParams (quietTip n) 0x1d00ffff false [] (evenRound n hundredCoins (by decide)) tx
        (.inl rfl) htip (evenRound_same n (by decide)) hnobudget hbuilt
    rw [hundredCoins_created hbuilt hnobudget, hvalue, hlimit] at hle
    exact absurd hle (by decide)
  exact hat 53999 rfl

end StakeOutputs

end Divitae
