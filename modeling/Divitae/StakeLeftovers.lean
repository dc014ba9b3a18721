/-
# `StakeLeftovers` — what failed rounds leave in a coinstake

`CreateCoinStake` keeps one list of outputs and one credit for all its rounds.  A round that
fails behind its kernel leaves them as they are by then:

    CreateTxOuts fails      its value and its reward stay in nCredit
    CreateTxIn fails        all is cleared, the empty first output too

A later round that succeeds pays out the one and misses the other (`coinstake_whole_iff`).  A
zerocoin is minted anew, whatever the credit; the budget's payment comes on top of either.
-/
import Divitae.CoinstakeReward

namespace Divitae

open CStakerNode List StakeRound

/-! ## The coinstake of one stake -/

namespace StakeRound

variable (r : StakeRound)

/-- What is paid for the stake: the reward of the block, or the reward mints. -/
def reward : CAmount :=
  if r.stakeInput.IsZPIV then (List.replicate 3 CoinDenomination.ZQ_ONE.toAmount).sum
  else r.nReward

theorem rewardMints_total :
    (List.replicate 3 CoinDenomination.ZQ_ONE.toAmount).sum = 3 * COIN := by decide

/-- A coinstake of this round's stake and of nothing else. -/
structure WholeStake (tx : CTransaction) : Prop where
  input : ∃ hashTxOut txin scriptSig, r.CreateTxIn hashTxOut = some txin ∧
    tx.vin = [{ txin with scriptSig := scriptSig }]
  marked : ∃ out, tx.vout.head? = some out ∧ out.IsEmpty = true
  total : tx.GetValueOut = r.stakeInput.GetValue + r.reward

/-- What the budget is paid in this round. -/
def budgetPaid : CAmount :=
  if r.node.payments.PaysBudget (r.node.tip.nHeight + 1) then
    paidOut (r.node.payments.budgetPayment (r.node.tip.nHeight + 1))
  else 0

end StakeRound

/-- The values and the rewards of the rounds that met their kernel. -/
def leftCredit (nBits : BitVec 32) (rounds : List StakeRound) : CAmount :=
  ((rounds.filter fun q => q.kernelFound nBits).map fun q =>
    q.stakeInput.GetValue + q.nReward).sum

/-- Nothing of the rounds before gets into the coinstake of `r`, and nothing of the budget: none
of them came as far as `CreateTxIn`, and there is nothing in the credit of a coin. -/
structure NothingLeft (nBits : BitVec 32) (before : List StakeRound) (r : StakeRound) : Prop where
  early : ∀ q ∈ before, q.kernelFound nBits = true → q.makesOutputs = false
  credit : (if r.stakeInput.IsZPIV then 0 else leftCredit nBits before) + r.budgetPaid = 0

/-! ## Rounds that are passed over -/

section
variable {nBits : BitVec 32} {IsMasternode : Bool} {r : StakeRound} {s s' : StakeLoop}
variable {rounds : List StakeRound}

theorem StakeRound.turn_next_cases (h : r.turn nBits IsMasternode s = .next s') :
    (r.kernelFound nBits = false ∧ s' = s) ∨
      (r.kernelFound nBits = true ∧ r.makesOutputs = false ∧
        s' = ⟨s.vout, s.nCredit + (r.stakeInput.GetValue + r.nReward)⟩) ∨
      (r.kernelFound nBits = true ∧ r.makesOutputs = true ∧ s' = ⟨[], 0⟩) := by
  rcases turn_next h with hnext | ⟨vout, hready, -, rfl⟩
  · rcases layOut_next hnext with ⟨hmissed, rfl⟩ | ⟨hfound, hnone, rfl⟩
    · exact .inl ⟨hmissed, rfl⟩
    · refine .inr (.inl ⟨hfound, ?_, ?_⟩)
      · rw [← StakeRound.CreateTxOuts_isSome (r.credit s), hnone]
        rfl
      · rw [credit, Int.add_assoc]
  · obtain ⟨hfound, outs, houts, -⟩ := layOut_ready hready
    refine .inr (.inr ⟨hfound, ?_, rfl⟩)
    rw [← StakeRound.CreateTxOuts_isSome (r.credit s), houts]
    rfl

theorem leftCredit_cons_found (h : r.kernelFound nBits = true) :
    leftCredit nBits (r :: rounds) =
      r.stakeInput.GetValue + r.nReward + leftCredit nBits rounds := by
  rw [leftCredit, filter_cons, if_pos h, map_cons, sum_cons, leftCredit]

theorem leftCredit_cons_missed (h : r.kernelFound nBits = false) :
    leftCredit nBits (r :: rounds) = leftCredit nBits rounds := by
  rw [leftCredit, filter_cons, if_neg (by simp [h]), leftCredit]

section
variable (h : afterRounds nBits IsMasternode s rounds = some s')
include h

theorem afterRounds_early
    (hearly : ∀ q ∈ rounds, q.kernelFound nBits = true → q.makesOutputs = false) :
    s' = ⟨s.vout, s.nCredit + leftCredit nBits rounds⟩ := by
  induction rounds generalizing s with
  | nil =>
    obtain rfl := Option.some.inj h
    exact congrArg (StakeLoop.mk s.vout) (Int.add_zero s.nCredit).symm
  | cons r rounds ih =>
    obtain ⟨m, hturn, hrest⟩ := afterRounds_cons.mp h
    have hs' := ih hrest fun q hq => hearly q (mem_cons_of_mem r hq)
    rcases turn_next_cases hturn with ⟨hmissed, rfl⟩ | ⟨hfound, -, rfl⟩ | ⟨hfound, hmakes, -⟩
    · rw [leftCredit_cons_missed hmissed]
      exact hs'
    · rw [leftCredit_cons_found hfound, ← Int.add_assoc]
      exact hs'
    · rw [hearly r mem_cons_self hfound] at hmakes
      cases hmakes

theorem afterRounds_cleared (hclear : s.vout = [] ∨
      ∃ q ∈ rounds, q.kernelFound nBits = true ∧ q.makesOutputs = true) : s'.vout = [] := by
  induction rounds generalizing s with
  | nil =>
    cases h
    rcases hclear with hnone | ⟨q, hq, -⟩
    · exact hnone
    · cases hq
  | cons r rounds ih =>
    obtain ⟨m, hturn, hrest⟩ := afterRounds_cons.mp h
    refine ih hrest ?_
    rcases hclear with hnone | ⟨q, hq, hfound, hmakes⟩
    · left
      rcases turn_next_cases hturn with ⟨-, rfl⟩ | ⟨-, -, rfl⟩ | ⟨-, -, rfl⟩
      · exact hnone
      · exact hnone
      · rfl
    · rcases mem_cons.mp hq with rfl | hlater
      · left
        rcases turn_next_cases hturn with ⟨hmissed, -⟩ | ⟨-, hfails, -⟩ | ⟨-, -, rfl⟩
        · rw [hfound] at hmissed
          cases hmissed
        · rw [hmakes] at hfails
          cases hfails
        · rfl
      · exact .inr ⟨q, hlater, hfound, hmakes⟩

end

end

namespace StakeRound

variable {r : StakeRound} {nBits : BitVec 32} {IsMasternode : Bool} {s : StakeLoop}

theorem stakeScript_ne_nil {kernel scriptPubKey : CScript}
    (h : r.stakeScript kernel = some scriptPubKey) : scriptPubKey ≠ [] := by
  have hparse : Solver [] = none := rfl
  rw [stakeScript] at h
  split at h
  · cases h
  · next hsolver =>
      cases h
      rintro rfl
      cases hsolver
  · obtain ⟨pubkey, -, rfl⟩ := Option.map_eq_some_iff.mp h
    simp

theorem CreateTxOuts_scripts {nTotal : CAmount} {outs : List CTxOut}
    (h : r.CreateTxOuts nTotal = some outs) :
    outs ≠ [] ∧ ∀ out ∈ outs, out.scriptPubKey ≠ [] := by
  cases hstake : r.stakeInput with
  | vit txFrom nPosition =>
    rw [CreateTxOuts, hstake] at h
    dsimp only at h
    split at h
    · cases h
    · split at h
      · cases h
      · next hscript =>
          have hmade := stakeScript_ne_nil hscript
          split_ifs at h <;>
            · cases h
              simpa using hmade
  | zvit nChecksum fMint denom hashSerial =>
    rw [CreateTxOuts, hstake] at h
    obtain ⟨hlength, hmint⟩ := mintOuts_mint h
    refine ⟨?_, ?_⟩
    · rintro rfl
      cases hlength
    · intro out hout hnone
      have := hmint out hout
      rw [hnone] at this
      cases this

variable {vout : List CTxOut}

theorem ready_first_script (h : r.layOut nBits s = .ready vout)
    (hclear : s.vout = []) : ∃ out rest, vout = out :: rest ∧ out.scriptPubKey ≠ [] := by
  obtain ⟨outs, houts, hscripts⟩ := ready_scripts h
  obtain ⟨hsome, hall⟩ := CreateTxOuts_scripts houts
  rw [hclear, nil_append] at hscripts
  cases outs with
  | nil => exact absurd rfl hsome
  | cons made outs =>
    cases vout with
    | nil => cases hscripts
    | cons out rest =>
      have hscript : out.scriptPubKey = made.scriptPubKey := (cons.inj hscripts).1
      refine ⟨out, rest, rfl, ?_⟩
      rw [hscript]
      exact hall made mem_cons_self

theorem ready_marked (h : r.layOut nBits s = .ready vout)
    (hstart : s.vout = [.empty]) : ∃ out rest, vout = .empty :: out :: rest := by
  obtain ⟨-, outs, houts, hset⟩ := layOut_ready h
  obtain ⟨hsome, -⟩ := CreateTxOuts_scripts houts
  rw [hstart] at hset
  cases outs with
  | nil => exact absurd rfl hsome
  | cons made outs =>
    split_ifs at hset
    · cases hset
      exact ⟨made, outs, rfl⟩
    · cases outs with
      | nil =>
        cases hset
        exact ⟨_, [], rfl⟩
      | cons made' outs =>
        cases outs <;>
          · cases hset
            exact ⟨_, _, rfl⟩

/-! ## The payees -/

theorem filled_cons (r : StakeRound) (IsMasternode : Bool) (out out' : CTxOut)
    (rest : List CTxOut) :
    ∃ more, (r.filled IsMasternode (out :: out' :: rest)).vout = out :: more := by
  rw [filled, FillBlockPayee, r.node.chainTip]
  dsimp only
  split_ifs
  · exact ⟨_, rfl⟩
  · rw [fillNodePayees, if_neg (by simp)]
    exact ⟨_, rfl⟩

theorem filled_first_script (r : StakeRound) (IsMasternode : Bool)
    {out : CTxOut} {rest : List CTxOut} (h : vout = out :: rest) :
    ∃ out' more, (r.filled IsMasternode vout).vout = out' :: more ∧
      out'.scriptPubKey = out.scriptPubKey := by
  subst h
  cases rest with
  | cons out' rest =>
    obtain ⟨more, hmore⟩ := filled_cons r IsMasternode out out' rest
    exact ⟨out, more, hmore, rfl⟩
  | nil =>
    rw [filled, FillBlockPayee, r.node.chainTip]
    dsimp only
    split_ifs
    · exact ⟨out, _, rfl, rfl⟩
    · rw [fillNodePayees, if_neg (by simp)]
      exact ⟨_, _, rfl, rfl⟩

section
variable (hs : s.Kept) (h : r.layOut nBits s = .ready vout)
include hs h

theorem filled_total_budget :
    (r.filled IsMasternode vout).GetValueOut = (vout.map CTxOut.nValue).sum + r.budgetPaid := by
  rw [budgetPaid]
  cases hbudget : r.node.payments.PaysBudget (r.node.tip.nHeight + 1) with
  | false =>
    rw [if_neg Bool.false_ne_true, Int.add_zero]
    exact filled_total hs h hbudget
  | true =>
    have hfilled : (r.filled IsMasternode vout).vout =
        vout ++ r.node.payments.budgetPayment (r.node.tip.nHeight + 1) := by
      rw [filled, FillBlockPayee, r.node.chainTip]
      dsimp only
      rw [if_pos hbudget]
      rfl
    rw [if_pos rfl, CTransaction.GetValueOut, hfilled, map_append, sum_append]
    rfl

theorem ready_paid (nPaid : CAmount) :
    (vout.map CTxOut.nValue).sum + nPaid =
      r.stakeInput.GetValue + r.reward +
        ((if r.stakeInput.IsZPIV then 0 else s.nCredit) + nPaid) := by
  have hmints : ∀ a b d : Int, a + b + d = a + b + (0 + d) := by
    intro a b d
    rw [Int.zero_add]
  have hcoin : ∀ a b c d : Int, a + b + c + d = b + c + (a + d) := by
    intro a b c d
    omega
  rw [ready_total hs h, reward, rewardMints_total, credit]
  cases r.stakeInput.IsZPIV with
  | true =>
    rw [if_pos rfl, if_pos rfl, if_pos rfl]
    exact hmints _ _ _
  | false =>
    rw [if_neg Bool.false_ne_true, if_neg Bool.false_ne_true, if_neg Bool.false_ne_true]
    exact hcoin _ _ _ _

end

theorem turn_found_input {txNew : CTransaction}
    (h : r.turn nBits IsMasternode s = .found txNew) :
    ∃ hashTxOut txin, r.CreateTxIn hashTxOut = some txin ∧ txNew.vin = [txin] := by
  unfold turn at h
  cases hlaid : r.layOut nBits s with
  | next s'' =>
    rw [hlaid] at h
    cases h
  | failed =>
    rw [hlaid] at h
    cases h
  | ready vout =>
    rw [hlaid] at h
    dsimp only at h
    split at h
    · cases h
    · next txin hin =>
        split_ifs at h
        obtain rfl := StakeTurn.found.inj h
        exact ⟨_, txin, hin, rfl⟩

theorem finish_input {txNew tx : CTransaction} {txin : CTxIn} (h : r.finish txNew = some tx)
    (hin : txNew.vin = [txin]) : ∃ scriptSig, tx.vin = [{ txin with scriptSig := scriptSig }] := by
  rw [finish, hin] at h
  dsimp only at h
  split_ifs at h
  · obtain ⟨scriptSig, -, rfl⟩ := Option.map_eq_some_iff.mp h
    exact ⟨scriptSig, rfl⟩
  · cases h
    exact ⟨txin.scriptSig, hin⟩

end StakeRound

/-- **A coinstake of one stake.**  A coinstake that is returned has one input, the stake of its
round.  It begins with the empty output and pays the stake's value and one reward exactly if
nothing of the rounds before it, or of the budget, gets into it. -/
theorem coinstake_whole_iff (nBits : BitVec 32) (IsMasternode : Bool)
    (before : List StakeRound) (r : StakeRound) (tx : CTransaction)
    (hbuilt : BuiltBy nBits IsMasternode before r tx) :
    r.WholeStake tx ↔ NothingLeft nBits before r := by
  obtain ⟨s, txNew, hbefore, hfound, hfinish⟩ := hbuilt
  have hs := afterRounds_kept StakeLoop.start_kept hbefore
  obtain ⟨vout, hready, hvout⟩ := StakeRound.turn_found hfound
  have htx : tx.vout = (r.filled IsMasternode vout).vout :=
    (StakeRound.finish_vout hfinish).trans hvout
  have htotal : tx.GetValueOut = (vout.map CTxOut.nValue).sum + r.budgetPaid := by
    rw [CTransaction.GetValueOut, htx]
    exact StakeRound.filled_total_budget hs hready
  have hsum := htotal.trans (StakeRound.ready_paid hs hready r.budgetPaid)
  have hcredit : ∀ left : CAmount, tx.GetValueOut = r.stakeInput.GetValue + r.reward + left →
      (tx.GetValueOut = r.stakeInput.GetValue + r.reward ↔ left = 0) := by
    intro left hleft
    rw [hleft]
    exact ⟨fun h => by simpa using h, fun h => by rw [h, Int.add_zero]⟩
  have hearly : (∀ q ∈ before, q.kernelFound nBits = true → q.makesOutputs = false) →
      (s.vout = [.empty] ∧ s.nCredit = leftCredit nBits before) := by
    intro hall
    rw [afterRounds_early hbefore hall]
    exact ⟨rfl, Int.zero_add _⟩
  constructor
  · intro hwhole
    have hall : ∀ q ∈ before, q.kernelFound nBits = true → q.makesOutputs = false := by
      intro q hq hkernel
      by_contra hmakes
      -- the outputs were cleared, and the first one has a script
      have hclear := afterRounds_cleared hbefore
        (.inr ⟨q, hq, hkernel, Bool.eq_true_of_not_eq_false hmakes⟩)
      obtain ⟨out, rest, hfirst, hscript⟩ := StakeRound.ready_first_script hready hclear
      obtain ⟨out', more, hfilled, hsame⟩ := StakeRound.filled_first_script r IsMasternode hfirst
      obtain ⟨marker, hhead, hempty⟩ := hwhole.marked
      rw [htx, hfilled] at hhead
      cases hhead
      have hnone := (Bool.and_eq_true_iff.mp hempty).2
      rw [hsame, List.isEmpty_iff] at hnone
      exact hscript hnone
    refine ⟨hall, ?_⟩
    rw [← (hearly hall).2]
    exact (hcredit _ hsum).mp hwhole.total
  · rintro ⟨hall, hzero⟩
    obtain ⟨hstart, hleft⟩ := hearly hall
    refine ⟨?_, ?_, ?_⟩
    · obtain ⟨hashTxOut, txin, hin, hvin⟩ := StakeRound.turn_found_input hfound
      obtain ⟨scriptSig, hsigned⟩ := StakeRound.finish_input hfinish hvin
      exact ⟨hashTxOut, txin, scriptSig, hin, hsigned⟩
    · obtain ⟨out, rest, rfl⟩ := StakeRound.ready_marked hready hstart
      obtain ⟨more, hmore⟩ := StakeRound.filled_cons r IsMasternode .empty out rest
      refine ⟨.empty, ?_, rfl⟩
      rw [htx, hmore]
      rfl
    · refine (hcredit _ hsum).mpr ?_
      rw [hleft]
      exact hzero

namespace StakeLeftovers

open StakeOutputs

/-- On top of block 300 a coin is staked in the first round. -/
theorem hundredCoins_whole : ∃ tx : CTransaction,
    BuiltBy 0x1d00ffff false [] (evenRound 300 hundredCoins (by decide)) tx ∧
      (evenRound 300 hundredCoins (by decide)).WholeStake tx := by
  obtain ⟨tx, hbuilt⟩ := @hundredCoins_built 300 (by decide) (by decide) (by decide) [] 0 _ rfl
    (evenRound_credit 300 (by decide)) (.inl (by decide))
  exact ⟨tx, hbuilt, (coinstake_whole_iff 0x1d00ffff false []
    (evenRound 300 hundredCoins (by decide)) tx hbuilt).mpr
      ⟨fun q hq => (nomatch hq), by decide⟩⟩

/-- The wallet has no new zerocoin to give. -/
def mintless (n : Nat) : StakeRound :=
  { evenRound n tenCoins (by decide) with CreateZPIVOutPut := fun _ => none }

theorem mintless_left {start n : Nat} (hstart : mainParams.nZerocoinStartHeight = start)
    (hn : n = start + 200) (hsmall : start ≤ 300000) :
    afterRounds 0x1d00ffff false .start [mintless n] =
      some ⟨[.empty], 0 + tenCoins.GetValue + GetBlockValue mainParams (n + 1)⟩ := by
  have hfirst : (start : Int) = 209467 := hstart.symm
  have hvalue : 0 ≤ tenCoins.GetValue := by decide
  have hhit : stakeTargetHit 0 tenCoins.GetValue (SetCompact 0x1d00ffff) = true := by decide
  have hkernel : (mintless n).kernelFound 0x1d00ffff = true :=
    evenRound_kernel (by omega) (by omega) (by omega) (by omega) hvalue
      (tenCoins_from hstart hn) (tenCoins_modifier hstart hn hsmall) hhit
  have hreward : (mintless n).nReward = GetBlockValue mainParams (n + 1) := by
    show GetBlockValue mainParams ((evenChain n).Height + 1) = _
    rw [evenChain_height]
  have hlaid : (mintless n).layOut 0x1d00ffff .start =
      .next ⟨[.empty], 0 + tenCoins.GetValue + (mintless n).nReward⟩ := by
    rw [layOut, hkernel]
    rfl
  have hturn : (mintless n).turn 0x1d00ffff false .start =
      .next ⟨[.empty], 0 + tenCoins.GetValue + GetBlockValue mainParams (n + 1)⟩ := by
    rw [turn, hlaid, hreward]
  exact afterRounds_cons.mpr ⟨_, hturn, rfl⟩

/-- **What failed is paid out.**  On top of block 209667 of the main network a zerocoin of ten
coins meets its kernel and cannot be minted anew; the coin of 100 coins behind it is staked for
170 coins, 40 too many. -/
theorem zerocoin_left_behind :
    ¬ (∀ (nBits : BitVec 32) (IsMasternode : Bool) (before : List StakeRound) (r : StakeRound)
      (tx : CTransaction), BuiltBy nBits IsMasternode before r tx → r.WholeStake tx) := by
  intro hall
  have hat : ∀ n : Nat, n = 209667 → False := by
    intro n hn
    have hvalue : GetBlockValue mainParams (n + 1) = 30 * COIN := by
      rw [hn]
      decide
    have hleft := @mintless_left 209467 n rfl hn (by decide)
    have hcoin : (evenRound n hundredCoins (by decide)).stakeInput.IsZPIV = false := rfl
    have hreward : (evenRound n hundredCoins (by decide)).nReward = 30 * COIN := by
      rw [← hvalue]
      show GetBlockValue mainParams ((evenChain n).Height + 1) = _
      rw [evenChain_height]
    have hcredit : (evenRound n hundredCoins (by decide)).credit
        ⟨[.empty], 0 + tenCoins.GetValue + GetBlockValue mainParams (n + 1)⟩ = 170 * COIN := by
      have hsum : 0 + tenCoins.GetValue + 30 * COIN + hundredCoins.GetValue + 30 * COIN =
          170 * COIN := by decide
      rw [StakeRound.credit, hreward, hvalue]
      exact hsum
    have hnobudget : (evenNode n).payments.PaysBudget (n + 1) = false := by
      rw [hn]
      decide
    obtain ⟨tx, hbuilt⟩ := @hundredCoins_built n (by omega) (by omega) (by decide) [mintless n] _ _
      hleft hcredit (.inr (.inr rfl))
    have htotal := (hall _ _ _ _ _ hbuilt).total
    obtain ⟨-, s, hbefore, hcreated⟩ := coinstake_created hbuilt hnobudget
    obtain rfl := Option.some.inj (hleft.symm.trans hbefore)
    have hwhole : tx.GetValueOut - hundredCoins.GetValue = 30 * COIN := by
      rw [StakeRound.reward, hcoin, if_neg Bool.false_ne_true, hreward] at htotal
      exact sub_eq_of_eq_add' htotal
    have hmore : tx.GetValueOut - hundredCoins.GetValue = 70 * COIN := by
      have hsum : 0 + tenCoins.GetValue + 30 * COIN + 30 * COIN = 70 * COIN := by decide
      rw [hcoin, if_neg Bool.false_ne_true, hreward, hvalue] at hcreated
      exact hcreated.trans hsum
    rw [hmore] at hwhole
    exact absurd hwhole (by decide)
  exact hat 209667 rfl

end StakeLeftovers

end Divitae
