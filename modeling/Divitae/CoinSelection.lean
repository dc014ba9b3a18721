/-
# `CoinSelection` — which coins are spent

To pay an amount the wallet first looks among the coins whose value is none of the fixed
denominations, then among all of them.  With the eligible coins below the target and a cent,
`vValue`, and the smallest of the others, `coinLowestLarger`,

    exact             a coin of the value
    all of `vValue`   where they are worth the target together
    the larger coin   where they are worth less, or where it is the better choice
    a part of them    the best one that a random search comes across

The order of the coins and the bits of the search are drawn at random: `SelectChoices`.

`Tally` holds of the search whatever the bits are: what is included is worth `nTotal`, and the
best part so far is worth `nBest`, which is no less than the target.
-/
import Divitae.Supply
import Divitae.Lib.Flags
import Divitae.Lib.Loop

namespace Divitae

open List Bool Flags

/-! ## The coins of a wallet -/

/-- What is read of a transaction of the wallet. -/
structure CWalletTx where
  tx : CTransaction
  /-- `IsFromMe(ISMINE_ALL)` -/
  fFromMe : Bool
  deriving DecidableEq

/-- `pair<const CWalletTx*, unsigned int>`. -/
abbrev WalletCoin := CWalletTx × Nat

structure COutput where
  tx : CWalletTx
  i : Nat
  nDepth : Int
  fSpendable : Bool
  inRange : i < tx.tx.vout.length

def WalletCoin.value (coin : WalletCoin) : CAmount := (coin.1.tx.vout[coin.2]?).elim 0 CTxOut.nValue

namespace COutput

def coin (out : COutput) : WalletCoin := (out.tx, out.i)

def Value (out : COutput) : CAmount := (out.tx.tx.vout.get ⟨out.i, out.inRange⟩).nValue

theorem value_coin (out : COutput) : out.coin.value = out.Value := by
  rw [WalletCoin.value, coin, List.getElem?_eq_getElem out.inRange]
  rfl

end COutput

/-- What `AvailableCoins` hands over: each output of the wallet at most once. -/
structure WalletCoins (P : CChainParams) where
  vCoins : List COutput
  once : (vCoins.map COutput.coin).Nodup
  inRange : ∀ out ∈ vCoins, MoneyRange P out.Value = true

def obfuScationDenominations : List CAmount :=
  [10000 * COIN + 10000000, 1000 * COIN + 1000000, 100 * COIN + 100000, 10 * COIN + 10000,
    1 * COIN + 1000, 10000000 + 100]

def IsDenominatedAmount (nInputAmount : CAmount) : Bool :=
  obfuScationDenominations.contains nInputAmount

def less_then_denom (out1 out2 : COutput) : Bool :=
  !IsDenominatedAmount out1.Value && IsDenominatedAmount out2.Value

/-- What is drawn at random, and where the sorts leave equal elements. -/
structure SelectChoices where
  /-- `random_shuffle`, and `sort` with `less_then_denom` -/
  order : List COutput → List COutput
  order_perm : ∀ vCoins, (order vCoins).Perm vCoins
  order_sorted : ∀ vCoins,
    (order vCoins).Pairwise fun out1 out2 => less_then_denom out2 out1 = false
  /-- `sort` from the largest value down -/
  falling : List (CAmount × WalletCoin) → List (CAmount × WalletCoin)
  falling_perm : ∀ vValue, (falling vValue).Perm vValue
  falling_sorted : ∀ vValue, (falling vValue).Pairwise fun c1 c2 => c2.1 ≤ c1.1
  /-- `insecure_rand() & 1` of a search, in a round, for a coin -/
  insecure_rand : Nat → Nat → Nat → Bool

/-! ## The random search -/

structure SubsetSearch where
  vfIncluded : List Bool
  nTotal : CAmount
  fReachedTarget : Bool
  vfBest : List Bool
  nBest : CAmount

section
variable (vValue : List (CAmount × WalletCoin)) (nTargetValue : CAmount)

/-- A coin is put in; it is taken out again where the target is reached. -/
def includeCoin (i : Nat) (coin : CAmount × WalletCoin) (s : SubsetSearch) : SubsetSearch :=
  let nTotal := s.nTotal + coin.1
  let vfIncluded := s.vfIncluded.set i true
  if nTargetValue ≤ nTotal then
    { vfIncluded := vfIncluded.set i false
      nTotal := nTotal - coin.1
      fReachedTarget := true
      vfBest := if nTotal < s.nBest then vfIncluded else s.vfBest
      nBest := if nTotal < s.nBest then nTotal else s.nBest }
  else { s with vfIncluded := vfIncluded, nTotal := nTotal }

/-- One `i` of a pass: the first one draws, the second one takes what is left. -/
def tryCoin (nPass : Nat) (bits : Nat → Bool) (s : SubsetSearch) (i : Nat) : SubsetSearch :=
  match vValue[i]? with
  | none => s
  | some coin =>
    if (if nPass = 0 then bits i else !s.vfIncluded.getD i false) then
      includeCoin nTargetValue i coin s
    else s

def subsetPass (nPass : Nat) (bits : Nat → Bool) (s : SubsetSearch) : SubsetSearch :=
  (List.range vValue.length).foldl (tryCoin vValue nTargetValue nPass bits) s

def subsetRound (bits : Nat → Bool) (s : SubsetSearch) : SubsetSearch :=
  let s := { s with
    vfIncluded := List.replicate vValue.length false
    nTotal := 0
    fReachedTarget := false }
  let s := subsetPass vValue nTargetValue 0 bits s
  if s.fReachedTarget then s else subsetPass vValue nTargetValue 1 bits s

/-- The rounds from `nRep` on. -/
def subsetRounds (bits : Nat → Nat → Bool) : Nat → Nat → SubsetSearch → SubsetSearch
  | 0, _, s => s
  | iterations + 1, nRep, s =>
    if s.nBest = nTargetValue then s
    else subsetRounds bits iterations (nRep + 1) (subsetRound vValue nTargetValue (bits nRep) s)

/-- `ApproximateBestSubset`: `vfBest` and `nBest`. -/
def ApproximateBestSubset (nTotalLower : CAmount) (bits : Nat → Nat → Bool) (iterations : Nat) :
    List Bool × CAmount :=
  let s := subsetRounds vValue nTargetValue bits iterations 0
    { vfIncluded := []
      nTotal := 0
      fReachedTarget := false
      vfBest := List.replicate vValue.length true
      nBest := nTotalLower }
  (s.vfBest, s.nBest)

end

/-! ## The selection -/

/-- `numeric_limits<CAmount>::max()`. -/
def maxCAmount : CAmount := 2 ^ 63 - 1

/-- The return value, and the two results by reference. -/
structure CoinSelection where
  found : Bool
  setCoinsRet : Finset WalletCoin
  nValueRet : CAmount

/-- The coins put in one by one. -/
def CoinSelection.of (coins : List (CAmount × WalletCoin)) : CoinSelection where
  found := true
  setCoinsRet := (coins.map Prod.snd).toFinset
  nValueRet := (coins.map Prod.fst).sum

structure CoinScan where
  vValue : List (CAmount × WalletCoin)
  nTotalLower : CAmount
  /-- with `NULL` for the coin there is none -/
  coinLowestLarger : CAmount × Option WalletCoin

section
variable (nTargetValue : CAmount) (nConfMine nConfTheirs : Int)

/-- It may be spent and has enough confirmations. -/
def Eligible (out : COutput) : Bool :=
  out.fSpendable && decide (¬ out.nDepth < if out.tx.fFromMe then nConfMine else nConfTheirs)

/-- The loop over the coins; a coin of the value ends it. -/
def scanCoin (tryDenom : Nat) (s : CoinScan) (out : COutput) : CoinScan ⊕ CAmount × WalletCoin :=
  if !out.fSpendable then .inl s
  else if out.nDepth < if out.tx.fFromMe then nConfMine else nConfTheirs then .inl s
  else
    let n := out.Value
    if tryDenom = 0 ∧ IsDenominatedAmount n then .inl s
    else if n = nTargetValue then .inr (n, out.coin)
    else if n < nTargetValue + CENT then
      .inl { s with vValue := s.vValue ++ [(n, out.coin)], nTotalLower := s.nTotalLower + n }
    else if n < s.coinLowestLarger.1 then .inl { s with coinLowestLarger := (n, some out.coin) }
    else .inl s

/-- The ways a round over the coins ends. -/
inductive ScanEnd where
  | selected (coins : List (CAmount × WalletCoin))
  | nothing
  | approximate (s : CoinScan)

/-- One `tryDenom`.  There is no larger coin when it begins. -/
def scanRound (tryDenom : Nat) (vCoins : List COutput) : ScanEnd :=
  match Loop.forEach (scanCoin nTargetValue nConfMine nConfTheirs tryDenom)
      ⟨[], 0, (maxCAmount, none)⟩ vCoins with
  | .inr coin => .selected [coin]
  | .inl s =>
    if s.nTotalLower = nTargetValue then .selected s.vValue
    else if s.nTotalLower < nTargetValue then
      match s.coinLowestLarger.2 with
      | none => .nothing
      | some coin => .selected [(s.coinLowestLarger.1, coin)]
    else .approximate s

/-- The search for the target; where it is not met exactly, another one for a cent more. -/
def bestSubset (choices : SelectChoices) (s : CoinScan) : List Bool × CAmount :=
  let vValue := choices.falling s.vValue
  let best := ApproximateBestSubset vValue nTargetValue s.nTotalLower (choices.insecure_rand 0) 1000
  if best.2 ≠ nTargetValue ∧ nTargetValue + CENT ≤ s.nTotalLower then
    ApproximateBestSubset vValue (nTargetValue + CENT) s.nTotalLower (choices.insecure_rand 1) 1000
  else best

/-- The choice between what the search found and the larger coin. -/
def approximateCoins (choices : SelectChoices) (s : CoinScan) : List (CAmount × WalletCoin) :=
  let best := bestSubset nTargetValue choices s
  let chosen := Flags.chosen best.1 (choices.falling s.vValue)
  match s.coinLowestLarger.2 with
  | none => chosen
  | some coin =>
    if (best.2 ≠ nTargetValue ∧ best.2 < nTargetValue + CENT) ∨ s.coinLowestLarger.1 ≤ best.2 then
      [(s.coinLowestLarger.1, coin)]
    else chosen

def SelectCoinsMinConf (choices : SelectChoices) (vCoins : List COutput) : CoinSelection :=
  let vCoins := choices.order vCoins
  match scanRound nTargetValue nConfMine nConfTheirs 0 vCoins with
  | .selected coins => .of coins
  | .approximate s => .of (approximateCoins nTargetValue choices s)
  | .nothing =>
    match scanRound nTargetValue nConfMine nConfTheirs 1 vCoins with
    | .selected coins => .of coins
    | .approximate s => .of (approximateCoins nTargetValue choices s)
    | .nothing => ⟨false, ∅, 0⟩

end

/-! ## The search, whatever the bits -/

/-- What is included is worth the total, and the best part reaches the target. -/
structure Tally (vValue : List (CAmount × WalletCoin)) (nTargetValue : CAmount) (s : SubsetSearch) :
    Prop where
  length : s.vfIncluded.length = vValue.length
  included : s.nTotal = Flags.total Prod.fst s.vfIncluded vValue
  best : s.nBest = Flags.total Prod.fst s.vfBest vValue
  reaches : nTargetValue ≤ s.nBest

section
variable {vValue : List (CAmount × WalletCoin)} {nTargetValue : CAmount} {s : SubsetSearch}
  {i : Nat} {coin : CAmount × WalletCoin}

theorem Tally.includeCoin (h : Tally vValue nTargetValue s) (hcoin : vValue[i]? = some coin)
    (hout : s.vfIncluded[i]? = some false) :
    Tally vValue nTargetValue (includeCoin nTargetValue i coin s) := by
  have hsum : s.nTotal + coin.1 = total Prod.fst (s.vfIncluded.set i true) vValue := by
    rw [h.included, total_set hout hcoin]
  rw [Divitae.includeCoin]
  split_ifs with hreached hbetter
  · exact ⟨by rw [set_back hout]; exact h.length,
      by rw [set_back hout, Int.add_sub_cancel]; exact h.included, hsum, hreached⟩
  · exact ⟨by rw [set_back hout]; exact h.length,
      by rw [set_back hout, Int.add_sub_cancel]; exact h.included, h.best, h.reaches⟩
  · exact ⟨by rw [length_set]; exact h.length, hsum, h.best, h.reaches⟩

theorem flag_includeCoin {j : Nat} (h : i ≠ j) :
    (includeCoin nTargetValue i coin s).vfIncluded[j]? = s.vfIncluded[j]? := by
  rw [includeCoin]
  split_ifs <;> simp only [List.getElem?_set_ne h]

/-- The first pass has not come to the coins from `i` on. -/
def Untried (i : Nat) (s : SubsetSearch) : Prop :=
  ∀ j, i ≤ j → j < s.vfIncluded.length → s.vfIncluded[j]? = some false

theorem Tally.firstPass (h : Tally vValue nTargetValue s) (hnone : Untried 0 s)
    (bits : Nat → Bool) :
    Tally vValue nTargetValue (subsetPass vValue nTargetValue 0 bits s) := by
  refine (Loop.foldl_range_inv (I := fun i s => Tally vValue nTargetValue s ∧ Untried i s)
    ?_ ⟨h, hnone⟩).1
  rintro i s hi ⟨hs, huntried⟩
  have hlater : Untried (i + 1) s := fun j hj => huntried j (Nat.le_of_succ_le hj)
  rw [tryCoin, List.getElem?_eq_getElem hi]
  rw [if_pos (Eq.refl 0)]
  split_ifs
  · have hout := huntried i (Nat.le_refl i) (hs.length ▸ hi)
    have hnext := hs.includeCoin (List.getElem?_eq_getElem hi) hout
    refine ⟨hnext, fun j hj hlt => ?_⟩
    rw [flag_includeCoin (Nat.ne_of_lt hj)]
    exact huntried j (Nat.le_of_succ_le hj) (by rw [hs.length, ← hnext.length]; exact hlt)
  · exact ⟨hs, hlater⟩

theorem Tally.secondPass (h : Tally vValue nTargetValue s) (bits : Nat → Bool) :
    Tally vValue nTargetValue (subsetPass vValue nTargetValue 1 bits s) := by
  refine Loop.foldl_range_inv (I := fun _ s => Tally vValue nTargetValue s) ?_ h
  intro i s hi hs
  have hlt : i < s.vfIncluded.length := hs.length ▸ hi
  rw [tryCoin, List.getElem?_eq_getElem hi]
  rw [if_neg Nat.one_ne_zero]
  split_ifs with hflag
  · refine hs.includeCoin (List.getElem?_eq_getElem hi) ?_
    rw [getD_eq_getElem?_getD, List.getElem?_eq_getElem hlt] at hflag
    rw [List.getElem?_eq_getElem hlt]
    simpa using hflag
  · exact hs

/-- The best part is right; what is included is cleared in each round. -/
structure BestKnown (vValue : List (CAmount × WalletCoin)) (nTargetValue : CAmount)
    (s : SubsetSearch) : Prop where
  best : s.nBest = Flags.total Prod.fst s.vfBest vValue
  reaches : nTargetValue ≤ s.nBest

theorem BestKnown.subsetRound (h : BestKnown vValue nTargetValue s) (bits : Nat → Bool) :
    BestKnown vValue nTargetValue (subsetRound vValue nTargetValue bits s) := by
  have hcleared : Tally vValue nTargetValue { s with
      vfIncluded := List.replicate vValue.length false
      nTotal := 0
      fReachedTarget := false } :=
    ⟨length_replicate, total_none vValue |>.symm, h.best, h.reaches⟩
  have hfirst := hcleared.firstPass (fun j _ hlt => by
    rw [length_replicate] at hlt
    rw [List.getElem?_replicate_of_lt hlt]) bits
  rw [Divitae.subsetRound]
  split_ifs
  · exact ⟨hfirst.best, hfirst.reaches⟩
  · have hsecond := hfirst.secondPass bits
    exact ⟨hsecond.best, hsecond.reaches⟩

theorem BestKnown.subsetRounds (h : BestKnown vValue nTargetValue s) (bits : Nat → Nat → Bool)
    (iterations nRep : Nat) :
    BestKnown vValue nTargetValue (subsetRounds vValue nTargetValue bits iterations nRep s) := by
  induction iterations generalizing nRep s with
  | zero => exact h
  | succ iterations ih =>
    rw [Divitae.subsetRounds]
    split_ifs
    · exact h
    · exact ih (h.subsetRound (bits nRep)) (nRep + 1)

/-- **The search.**  What it finds is worth `nBest`, and that reaches the target. -/
theorem ApproximateBestSubset_spec {nTotalLower : CAmount}
    (hlower : nTotalLower = (vValue.map Prod.fst).sum) (hreach : nTargetValue ≤ nTotalLower)
    (bits : Nat → Nat → Bool) (iterations : Nat) :
    let best := ApproximateBestSubset vValue nTargetValue nTotalLower bits iterations
    best.2 = total Prod.fst best.1 vValue ∧ nTargetValue ≤ best.2 := by
  have hstart : BestKnown vValue nTargetValue
      ⟨[], 0, false, List.replicate vValue.length true, nTotalLower⟩ :=
    ⟨hlower.trans (total_all vValue).symm, hreach⟩
  have hend := hstart.subsetRounds bits iterations 0
  exact ⟨hend.best, hend.reaches⟩

end

/-! ## The scan -/

section
variable {nTargetValue : CAmount} {nConfMine nConfTheirs : Int} {tryDenom : Nat}

/-- A coin the scan looks at. -/
def LookedAt (nConfMine nConfTheirs : Int) (tryDenom : Nat) (out : COutput) : Bool :=
  Eligible nConfMine nConfTheirs out && !(tryDenom == 0 && IsDenominatedAmount out.Value)

def valued (out : COutput) : CAmount × WalletCoin := (out.Value, out.coin)

structure Scanned (nTargetValue : CAmount) (nConfMine nConfTheirs : Int) (tryDenom : Nat)
    (past : List COutput) (s : CoinScan) : Prop where
  lower : s.vValue = (past.filter fun out =>
    LookedAt nConfMine nConfTheirs tryDenom out && decide (out.Value < nTargetValue + CENT)).map
      valued
  total : s.nTotalLower = (s.vValue.map Prod.fst).sum
  larger : ∀ coin, s.coinLowestLarger.2 = some coin →
    ∃ out ∈ past, LookedAt nConfMine nConfTheirs tryDenom out = true ∧
      nTargetValue + CENT ≤ out.Value ∧ valued out = (s.coinLowestLarger.1, coin)
  noLarger : s.coinLowestLarger.2 = none → s.coinLowestLarger.1 = maxCAmount ∧
    ∀ out ∈ past, LookedAt nConfMine nConfTheirs tryDenom out = true →
      out.Value < nTargetValue + CENT ∨ maxCAmount ≤ out.Value

variable {past : List COutput} {out : COutput}

section
variable {s : CoinScan} (h : Scanned nTargetValue nConfMine nConfTheirs tryDenom past s)
include h

theorem Scanned.pass (hnot : LookedAt nConfMine nConfTheirs tryDenom out = true →
      nTargetValue + CENT ≤ out.Value ∧ s.coinLowestLarger.1 ≤ out.Value) :
    Scanned nTargetValue nConfMine nConfTheirs tryDenom (past ++ [out]) s where
  lower := by
    have hout : (LookedAt nConfMine nConfTheirs tryDenom out &&
        decide (out.Value < nTargetValue + CENT)) = false := by
      cases hlooked : LookedAt nConfMine nConfTheirs tryDenom out with
      | false => rfl
      | true => simp [(hnot hlooked).1]
    rw [h.lower, filter_append, filter_cons_of_neg (by simp [hout]), filter_nil, append_nil]
  total := h.total
  larger := by
    intro coin hcoin
    obtain ⟨first, hmem, hfirst⟩ := h.larger coin hcoin
    exact ⟨first, mem_append_left _ hmem, hfirst⟩
  noLarger := by
    intro hnone
    obtain ⟨hmax, hall⟩ := h.noLarger hnone
    refine ⟨hmax, fun first hfirst hlooked => ?_⟩
    rcases mem_append.mp hfirst with hpast | hself
    · exact hall first hpast hlooked
    · obtain rfl := mem_singleton.mp hself
      exact .inr (hmax ▸ (hnot hlooked).2)

section
variable (hlooked : LookedAt nConfMine nConfTheirs tryDenom out = true)
include hlooked

theorem Scanned.add (hless : out.Value < nTargetValue + CENT) :
    Scanned nTargetValue nConfMine nConfTheirs tryDenom (past ++ [out])
      { s with vValue := s.vValue ++ [valued out], nTotalLower := s.nTotalLower + out.Value } where
  lower := by
    rw [h.lower, filter_append, filter_cons_of_pos (by simp [hlooked, hless]),
      filter_nil, map_append]
    rfl
  total := by
    rw [map_append, sum_append, h.total]
    simp [valued]
  larger := by
    intro coin hcoin
    obtain ⟨first, hmem, hfirst⟩ := h.larger coin hcoin
    exact ⟨first, mem_append_left _ hmem, hfirst⟩
  noLarger := by
    intro hnone
    obtain ⟨hmax, hall⟩ := h.noLarger hnone
    refine ⟨hmax, fun first hfirst hlooked' => ?_⟩
    rcases mem_append.mp hfirst with hpast | hself
    · exact hall first hpast hlooked'
    · obtain rfl := mem_singleton.mp hself
      exact .inl hless

theorem Scanned.larger_one (hmore : nTargetValue + CENT ≤ out.Value) :
    Scanned nTargetValue nConfMine nConfTheirs tryDenom (past ++ [out])
      { s with coinLowestLarger := (out.Value, some out.coin) } where
  lower := by
    rw [h.lower, filter_append,
      filter_cons_of_neg (by simp [Int.not_lt.mpr hmore]), filter_nil, append_nil]
  total := h.total
  larger := by
    intro coin hcoin
    refine ⟨out, mem_append_right _ mem_cons_self, hlooked, hmore, ?_⟩
    rw [← Option.some.inj hcoin]
    rfl
  noLarger := nofun

end

end

theorem scanCoin_spec {s : CoinScan} (out : COutput)
    (h : Scanned nTargetValue nConfMine nConfTheirs tryDenom past s) :
    (∃ s', scanCoin nTargetValue nConfMine nConfTheirs tryDenom s out = .inl s' ∧
        Scanned nTargetValue nConfMine nConfTheirs tryDenom (past ++ [out]) s') ∨
      scanCoin nTargetValue nConfMine nConfTheirs tryDenom s out = .inr (valued out) ∧
        LookedAt nConfMine nConfTheirs tryDenom out = true ∧ out.Value = nTargetValue := by
  rw [scanCoin]
  by_cases hspend : out.fSpendable = true
  swap
  · rw [if_pos (by simpa using hspend)]
    exact .inl ⟨s, rfl, h.pass fun hlooked => by simp [LookedAt, Eligible, hspend] at hlooked⟩
  rw [if_neg (by simpa using hspend)]
  by_cases hdepth : out.nDepth < if out.tx.fFromMe then nConfMine else nConfTheirs
  · rw [if_pos hdepth]
    refine .inl ⟨s, rfl, h.pass fun hlooked => ?_⟩
    rw [LookedAt, Eligible, decide_eq_false (not_not.mpr hdepth)] at hlooked
    simp at hlooked
  have heligible : Eligible nConfMine nConfTheirs out = true := by
    rw [Eligible, hspend, decide_eq_true hdepth]
    rfl
  rw [if_neg hdepth]
  by_cases hdenom : tryDenom = 0 ∧ IsDenominatedAmount out.Value = true
  · rw [if_pos hdenom]
    exact .inl ⟨s, rfl, h.pass fun hlooked => by simp [LookedAt, hdenom.1, hdenom.2] at hlooked⟩
  have hlooked : LookedAt nConfMine nConfTheirs tryDenom out = true := by
    rw [LookedAt, heligible, Bool.true_and, Bool.not_eq_true', Bool.and_eq_false_iff]
    by_cases htry : tryDenom = 0
    · exact .inr (by simpa [htry] using hdenom)
    · exact .inl (by simpa using htry)
  rw [if_neg hdenom]
  split_ifs with hexact hless hlowest
  · exact .inr ⟨rfl, hlooked, hexact⟩
  · exact .inl ⟨_, rfl, h.add hlooked hless⟩
  · exact .inl ⟨_, rfl, h.larger_one hlooked (Int.not_lt.mp hless)⟩
  · exact .inl ⟨s, rfl, h.pass fun _ => ⟨Int.not_lt.mp hless, Int.not_lt.mp hlowest⟩⟩

theorem scan_spec (vCoins : List COutput) :
    (∃ s, Loop.forEach (scanCoin nTargetValue nConfMine nConfTheirs tryDenom)
        ⟨[], 0, (maxCAmount, none)⟩ vCoins = .inl s ∧
        Scanned nTargetValue nConfMine nConfTheirs tryDenom vCoins s) ∨
      ∃ coin, Loop.forEach (scanCoin nTargetValue nConfMine nConfTheirs tryDenom)
        ⟨[], 0, (maxCAmount, none)⟩ vCoins = .inr coin ∧ ∃ out ∈ vCoins,
          LookedAt nConfMine nConfTheirs tryDenom out = true ∧ out.Value = nTargetValue ∧
          coin = valued out := by
  have hstart : Scanned nTargetValue nConfMine nConfTheirs tryDenom []
      ⟨[], 0, (maxCAmount, none)⟩ :=
    ⟨rfl, rfl, nofun, fun _ => ⟨rfl, nofun⟩⟩
  refine Loop.forEach_inv ?_ hstart
  intro past out hmem s hs
  rcases scanCoin_spec out hs with hgo | ⟨hret, hlooked, hvalue⟩
  · exact .inl hgo
  · exact .inr ⟨_, hret, out, hmem, hlooked, hvalue, rfl⟩

/-- Coins of the list, each once, that may be spent and reach the target. -/
structure Selects (nTargetValue : CAmount) (nConfMine nConfTheirs : Int) (vCoins : List COutput)
    (coins : List (CAmount × WalletCoin)) : Prop where
  source : ∀ coin ∈ coins, ∃ out ∈ vCoins, Eligible nConfMine nConfTheirs out = true ∧
    coin = valued out
  once : (coins.map Prod.snd).Nodup
  reaches : nTargetValue ≤ (coins.map Prod.fst).sum

variable {vCoins : List COutput} {coins : List (CAmount × WalletCoin)} {s : CoinScan}

theorem eligible_of_looked
    (h : LookedAt nConfMine nConfTheirs tryDenom out = true) :
    Eligible nConfMine nConfTheirs out = true :=
  (and_eq_true_iff.mp h).1

theorem le_of_cent_le {nValue : CAmount} (h : nTargetValue + CENT ≤ nValue) :
    nTargetValue ≤ nValue :=
  Int.le_trans (Int.le_add_of_nonneg_right (by decide)) h

theorem selects_single (hmem : out ∈ vCoins)
    (hlooked : LookedAt nConfMine nConfTheirs tryDenom out = true)
    (hreach : nTargetValue ≤ out.Value) :
    Selects nTargetValue nConfMine nConfTheirs vCoins [valued out] where
  source := by
    intro coin hcoin
    obtain rfl := mem_singleton.mp hcoin
    exact ⟨out, hmem, eligible_of_looked hlooked, rfl⟩
  once := nodup_singleton _
  reaches := by
    rw [map_singleton, sum_singleton]
    exact hreach

section
variable (h : Scanned nTargetValue nConfMine nConfTheirs tryDenom vCoins s)
include h

theorem Scanned.selects_larger {coin : WalletCoin} (hcoin : s.coinLowestLarger.2 = some coin) :
    Selects nTargetValue nConfMine nConfTheirs vCoins [(s.coinLowestLarger.1, coin)] := by
  obtain ⟨out, hmem, hlooked, hmore, hvalued⟩ := h.larger coin hcoin
  rw [← hvalued]
  exact selects_single hmem hlooked (le_of_cent_le hmore)

theorem Scanned.selects_part
    (honce : (vCoins.map COutput.coin).Nodup) {vValue : List (CAmount × WalletCoin)}
    (hperm : vValue.Perm s.vValue) (hsub : coins.Sublist vValue)
    (hreach : nTargetValue ≤ (coins.map Prod.fst).sum) :
    Selects nTargetValue nConfMine nConfTheirs vCoins coins where
  source := by
    intro coin hcoin
    have hin := hperm.mem_iff.mp (hsub.subset hcoin)
    rw [h.lower] at hin
    obtain ⟨out, hout, rfl⟩ := mem_map.mp hin
    obtain ⟨hmem, hlooked⟩ := mem_filter.mp hout
    exact ⟨out, hmem, eligible_of_looked (and_eq_true_iff.mp hlooked).1, rfl⟩
  once := by
    have hlower : (s.vValue.map Prod.snd).Nodup := by
      rw [h.lower, map_map]
      exact honce.sublist (filter_sublist.map COutput.coin)
    exact ((hperm.map Prod.snd).nodup_iff.mpr hlower).sublist (hsub.map Prod.snd)
  reaches := hreach

theorem Scanned.selects_all
    (honce : (vCoins.map COutput.coin).Nodup) (hreach : nTargetValue ≤ s.nTotalLower) :
    Selects nTargetValue nConfMine nConfTheirs vCoins s.vValue :=
  h.selects_part honce (List.Perm.refl _) (List.Sublist.refl _) (h.total ▸ hreach)

theorem Scanned.bestSubset (hreach : nTargetValue ≤ s.nTotalLower) (choices : SelectChoices) :
    let best := bestSubset nTargetValue choices s
    best.2 = Flags.total Prod.fst best.1 (choices.falling s.vValue) ∧ nTargetValue ≤ best.2 := by
  have hlower : s.nTotalLower = ((choices.falling s.vValue).map Prod.fst).sum := by
    rw [h.total, ((choices.falling_perm s.vValue).map Prod.fst).sum_eq]
  rw [Divitae.bestSubset]
  split_ifs with hagain
  · have hspec := ApproximateBestSubset_spec hlower hagain.2 (choices.insecure_rand 1) 1000
    exact ⟨hspec.1, le_of_cent_le hspec.2⟩
  · exact ApproximateBestSubset_spec hlower hreach (choices.insecure_rand 0) 1000

/-- **The choice between the search and the larger coin.** -/
theorem Scanned.selects_approximate
    (honce : (vCoins.map COutput.coin).Nodup) (hreach : nTargetValue ≤ s.nTotalLower)
    (choices : SelectChoices) :
    Selects nTargetValue nConfMine nConfTheirs vCoins
      (approximateCoins nTargetValue choices s) := by
  obtain ⟨hsum, hle⟩ := h.bestSubset hreach choices
  have hchosen : Selects nTargetValue nConfMine nConfTheirs vCoins
      (chosen (Divitae.bestSubset nTargetValue choices s).1 (choices.falling s.vValue)) := by
    refine h.selects_part honce (choices.falling_perm s.vValue) (chosen_sublist _ _) ?_
    rw [hsum] at hle
    exact hle
  rw [approximateCoins]
  cases hcoin : s.coinLowestLarger.2 with
  | none => exact hchosen
  | some coin =>
    split_ifs
    · exact h.selects_larger hcoin
    · exact hchosen

end

theorem scanRound_spec (honce : (vCoins.map COutput.coin).Nodup) :
    match scanRound nTargetValue nConfMine nConfTheirs tryDenom vCoins with
    | .selected coins => Selects nTargetValue nConfMine nConfTheirs vCoins coins
    | .approximate s => Scanned nTargetValue nConfMine nConfTheirs tryDenom vCoins s ∧
        nTargetValue ≤ s.nTotalLower
    | .nothing => ∃ s, Scanned nTargetValue nConfMine nConfTheirs tryDenom vCoins s ∧
        s.nTotalLower < nTargetValue ∧ s.coinLowestLarger.2 = none := by
  rw [scanRound]
  rcases @scan_spec nTargetValue nConfMine nConfTheirs tryDenom vCoins with
    ⟨s, hscan, hs⟩ | ⟨coin, hscan, out, hmem, hlooked, hvalue, rfl⟩
  · rw [hscan]
    dsimp only
    split_ifs with hall hless
    · exact hs.selects_all honce (Int.le_of_eq hall.symm)
    · cases hcoin : s.coinLowestLarger.2 with
      | none => exact ⟨s, hs, hless, hcoin⟩
      | some coin => exact hs.selects_larger hcoin
    · exact ⟨hs, Int.not_lt.mp hless⟩
  · rw [hscan]
    exact selects_single hmem hlooked (Int.le_of_eq hvalue.symm)

theorem Scanned.too_little (h : Scanned nTargetValue nConfMine nConfTheirs 1 vCoins s)
    (hfits : ∀ out ∈ vCoins, out.Value < maxCAmount) (hnone : s.coinLowestLarger.2 = none) :
    s.nTotalLower = ((vCoins.filter (Eligible nConfMine nConfTheirs)).map COutput.Value).sum := by
  have hsame : (vCoins.filter fun out => LookedAt nConfMine nConfTheirs 1 out &&
      decide (out.Value < nTargetValue + CENT)) =
        vCoins.filter (Eligible nConfMine nConfTheirs) := by
    refine filter_congr fun out hmem => ?_
    have hlooked : LookedAt nConfMine nConfTheirs 1 out = Eligible nConfMine nConfTheirs out := by
      exact and_true _
    rw [hlooked]
    cases heligible : Eligible nConfMine nConfTheirs out with
    | false => rfl
    | true =>
      rcases (h.noLarger hnone).2 out hmem (hlooked.trans heligible) with hless | hmax
      · exact decide_eq_true hless
      · exact absurd (hfits out hmem) (Int.not_lt.mpr hmax)
  rw [h.total, h.lower, hsame, map_map]
  rfl

theorem CoinSelection.worth (honce : (coins.map Prod.snd).Nodup)
    (hvalue : ∀ c ∈ coins, WalletCoin.value c.2 = c.1) :
    ∑ coin ∈ (CoinSelection.of coins).setCoinsRet, WalletCoin.value coin =
      (CoinSelection.of coins).nValueRet := by
  show ∑ coin ∈ (coins.map Prod.snd).toFinset, WalletCoin.value coin = (coins.map Prod.fst).sum
  rw [sum_toFinset _ honce, map_map]
  congr 1
  exact map_congr_left hvalue

theorem Selects.of (h : Selects nTargetValue nConfMine nConfTheirs vCoins coins) :
    (∀ coin ∈ (CoinSelection.of coins).setCoinsRet,
        ∃ out ∈ vCoins, Eligible nConfMine nConfTheirs out = true ∧ out.coin = coin) ∧
      ∑ coin ∈ (CoinSelection.of coins).setCoinsRet, WalletCoin.value coin =
        (CoinSelection.of coins).nValueRet ∧
      nTargetValue ≤ (CoinSelection.of coins).nValueRet := by
  refine ⟨?_, CoinSelection.worth h.once fun c hc => ?_, h.reaches⟩
  · intro coin hcoin
    obtain ⟨c, hc, rfl⟩ := mem_map.mp (mem_toFinset.mp hcoin)
    obtain ⟨out, hmem, heligible, rfl⟩ := h.source c hc
    exact ⟨out, hmem, heligible, rfl⟩
  · obtain ⟨out, -, -, rfl⟩ := h.source c hc
    exact out.value_coin

theorem SelectCoinsMinConf_found {P : CChainParams} (wallet : WalletCoins P)
    (choices : SelectChoices)
    (h : (SelectCoinsMinConf nTargetValue nConfMine nConfTheirs choices wallet.vCoins).found =
      true) :
    let selection := SelectCoinsMinConf nTargetValue nConfMine nConfTheirs choices wallet.vCoins
    (∀ coin ∈ selection.setCoinsRet,
        ∃ out ∈ wallet.vCoins, Eligible nConfMine nConfTheirs out = true ∧ out.coin = coin) ∧
      ∑ coin ∈ selection.setCoinsRet, WalletCoin.value coin = selection.nValueRet ∧
      nTargetValue ≤ selection.nValueRet := by
  have hperm := choices.order_perm wallet.vCoins
  have honce : ((choices.order wallet.vCoins).map COutput.coin).Nodup :=
    (hperm.map COutput.coin).nodup_iff.mpr wallet.once
  have hgood : ∀ coins,
      Selects nTargetValue nConfMine nConfTheirs (choices.order wallet.vCoins) coins →
      (∀ coin ∈ (CoinSelection.of coins).setCoinsRet,
        ∃ out ∈ wallet.vCoins, Eligible nConfMine nConfTheirs out = true ∧ out.coin = coin) ∧
      ∑ coin ∈ (CoinSelection.of coins).setCoinsRet, WalletCoin.value coin =
        (CoinSelection.of coins).nValueRet ∧
      nTargetValue ≤ (CoinSelection.of coins).nValueRet := by
    intro coins hsel
    obtain ⟨hsource, hrest⟩ := hsel.of
    refine ⟨fun coin hcoin => ?_, hrest⟩
    obtain ⟨out, hmem, hout⟩ := hsource coin hcoin
    exact ⟨out, hperm.mem_iff.mp hmem, hout⟩
  have hzero := @scanRound_spec nTargetValue nConfMine nConfTheirs 0 _ honce
  have hone := @scanRound_spec nTargetValue nConfMine nConfTheirs 1 _ honce
  intro selection
  have hfound : selection.found = true := h
  have hdef : selection =
      SelectCoinsMinConf nTargetValue nConfMine nConfTheirs choices wallet.vCoins := rfl
  rw [SelectCoinsMinConf] at hdef
  cases hround : scanRound nTargetValue nConfMine nConfTheirs 0 (choices.order wallet.vCoins) with
  | selected coins =>
    rw [hround] at hzero hdef
    rw [hdef]
    exact hgood coins hzero
  | approximate s =>
    rw [hround] at hzero hdef
    rw [hdef]
    exact hgood _ (hzero.1.selects_approximate honce hzero.2 choices)
  | nothing =>
    rw [hround] at hdef
    cases hagain : scanRound nTargetValue nConfMine nConfTheirs 1 (choices.order wallet.vCoins) with
    | selected coins =>
      rw [hagain] at hone hdef
      rw [hdef]
      exact hgood coins hone
    | approximate s =>
      rw [hagain] at hone hdef
      rw [hdef]
      exact hgood _ (hone.1.selects_approximate honce hone.2 choices)
    | nothing =>
      rw [hagain] at hdef
      rw [hdef] at hfound
      cases hfound

theorem SelectCoinsMinConf_not_found {P : CChainParams} (hnet : IsNetwork P)
    (wallet : WalletCoins P) (choices : SelectChoices)
    (h : (SelectCoinsMinConf nTargetValue nConfMine nConfTheirs choices wallet.vCoins).found =
      false) :
    ((wallet.vCoins.filter (Eligible nConfMine nConfTheirs)).map COutput.Value).sum <
      nTargetValue := by
  have hmax : P.nMaxMoneyOut < maxCAmount := by
    rcases hnet with hP | hP | hP <;> rw [hP] <;> decide
  have hperm := choices.order_perm wallet.vCoins
  have honce : ((choices.order wallet.vCoins).map COutput.coin).Nodup :=
    (hperm.map COutput.coin).nodup_iff.mpr wallet.once
  have hone := @scanRound_spec nTargetValue nConfMine nConfTheirs 1 _ honce
  rw [SelectCoinsMinConf] at h
  cases hround : scanRound nTargetValue nConfMine nConfTheirs 0 (choices.order wallet.vCoins) with
  | selected coins =>
    rw [hround] at h
    cases h
  | approximate s =>
    rw [hround] at h
    cases h
  | nothing =>
    rw [hround] at h
    cases hagain : scanRound nTargetValue nConfMine nConfTheirs 1 (choices.order wallet.vCoins) with
    | selected coins =>
      rw [hagain] at h
      cases h
    | approximate s =>
      rw [hagain] at h
      cases h
    | nothing =>
      rw [hagain] at hone
      obtain ⟨s, hs, hless, hnone⟩ := hone
      have hfits : ∀ out ∈ choices.order wallet.vCoins, out.Value < maxCAmount := by
        intro out hmem
        have hrange := wallet.inRange out (hperm.mem_iff.mp hmem)
        rw [MoneyRange, and_eq_true, decide_eq_true_eq, decide_eq_true_eq] at hrange
        exact Int.lt_of_le_of_lt hrange.2 hmax
      rw [hs.too_little hfits hnone, ((hperm.filter _).map COutput.Value).sum_eq] at hless
      exact hless

/-- **Coin selection.**  Whatever is drawn, what is selected are eligible coins of the wallet that
are worth `nValueRet`, and no less than the target; where nothing is, all the eligible coins are
worth less. -/
theorem SelectCoinsMinConf_spec {P : CChainParams} (hnet : IsNetwork P) (wallet : WalletCoins P)
    (choices : SelectChoices) (nTargetValue : CAmount) (nConfMine nConfTheirs : Int) :
    let selection := SelectCoinsMinConf nTargetValue nConfMine nConfTheirs choices wallet.vCoins
    (selection.found = true →
      (∀ coin ∈ selection.setCoinsRet,
        ∃ out ∈ wallet.vCoins, Eligible nConfMine nConfTheirs out = true ∧ out.coin = coin) ∧
      ∑ coin ∈ selection.setCoinsRet, WalletCoin.value coin = selection.nValueRet ∧
      nTargetValue ≤ selection.nValueRet) ∧
    (selection.found = false →
      ((wallet.vCoins.filter (Eligible nConfMine nConfTheirs)).map COutput.Value).sum <
        nTargetValue) :=
  ⟨SelectCoinsMinConf_found wallet choices, SelectCoinsMinConf_not_found hnet wallet choices⟩

end

/-! ## A wallet of two coins -/

namespace CoinSelection

theorem not_less_then_denom {out1 out2 : COutput}
    (h : IsDenominatedAmount out1.Value = false ∨ IsDenominatedAmount out2.Value = true) :
    less_then_denom out2 out1 = false := by
  rcases h with h | h <;> simp [less_then_denom, h]

/-- The order that the wallet has them in, and first passes that take everything. -/
def plainChoices : SelectChoices where
  order vCoins := vCoins.filter (fun out => IsDenominatedAmount out.Value == false) ++
    vCoins.filter fun out => !(IsDenominatedAmount out.Value == false)
  order_perm vCoins := filter_append_perm _ vCoins
  order_sorted vCoins := by
    refine pairwise_append.mpr ⟨?_, ?_, ?_⟩
    · refine (pairwise_of_forall fun _ _ => trivial).imp_of_mem ?_
      intro out1 out2 h1 _ (_ : True)
      exact not_less_then_denom (.inl (by simpa using (mem_filter.mp h1).2))
    · refine (pairwise_of_forall fun _ _ => trivial).imp_of_mem ?_
      intro out1 out2 _ h2 (_ : True)
      exact not_less_then_denom (.inr (by simpa using (mem_filter.mp h2).2))
    · intro out1 h1 out2 _
      exact not_less_then_denom (.inl (by simpa using (mem_filter.mp h1).2))
  falling vValue := vValue.mergeSort fun c1 c2 => decide (c2.1 ≤ c1.1)
  falling_perm vValue := mergeSort_perm vValue _
  falling_sorted vValue := by
    have htrans : ∀ a b c : CAmount × WalletCoin, decide (b.1 ≤ a.1) = true →
        decide (c.1 ≤ b.1) = true → decide (c.1 ≤ a.1) = true := by
      intro a b c hab hbc
      rw [decide_eq_true_eq] at hab hbc ⊢
      exact Int.le_trans hbc hab
    have htotal : ∀ a b : CAmount × WalletCoin,
        (decide (b.1 ≤ a.1) || decide (a.1 ≤ b.1)) = true := by
      intro a b
      rw [or_eq_true, decide_eq_true_eq, decide_eq_true_eq]
      exact Int.le_total _ _
    exact (pairwise_mergeSort htrans htotal vValue).imp of_decide_eq_true
  insecure_rand _ _ _ := true

def twoCoinsTx : CWalletTx :=
  ⟨⟨7, 1, [⟨⟨6, 0⟩, [], 0xFFFFFFFF⟩], [⟨5 * COIN, [0x51]⟩, ⟨2 * COIN, [0x51]⟩], 0⟩, true⟩

def twoCoins : WalletCoins mainParams where
  vCoins := [⟨twoCoinsTx, 0, 8, true, by decide⟩, ⟨twoCoinsTx, 1, 8, true, by decide⟩]
  once := by decide
  inRange := by decide

/-- For three coins it is the larger one. -/
theorem five_for_three :
    let selection := SelectCoinsMinConf (3 * COIN) 1 6 plainChoices twoCoins.vCoins
    ∑ coin ∈ selection.setCoinsRet, WalletCoin.value coin = selection.nValueRet ∧
      3 * COIN ≤ selection.nValueRet :=
  ((SelectCoinsMinConf_spec (.inl rfl) twoCoins plainChoices (3 * COIN) 1 6).1 (by decide)).2

end CoinSelection

end Divitae
