/-
# `StakeOutputs` — what the payments leave of a coinstake

On a coinstake `FillBlockPayee` adds the payments behind the outputs and takes them off the one
that was last.  Which one that is, the stake decides:

    coin                the only output, of all of the credit
    coin that is split  the second output, of half of the credit
    zerocoin            the last of the new zerocoins, of one coin

A coin can give up what it has.  A zerocoin's amount is its denomination: it can give up
nothing, and the source takes the payments off it all the same (`stake_outputs_kept_iff`).
-/
import Divitae.CreateCoinStake
import Divitae.PayeeAgreement
import Divitae.StakeRules

namespace Divitae

open CStakerNode List Option CTxOut

section
variable {front payments : List CTxOut} {last : CTxOut}

theorem takeFromLast_append (nAmount : CAmount) :
    takeFromLast nAmount (front ++ [last]) =
      front ++ [{ last with nValue := last.nValue - nAmount }] := by
  induction front with
  | nil => rfl
  | cons out front ih =>
    rw [takeFromLast] at ih ⊢
    have hlength : (out :: front ++ [last]).length - 1 = (front ++ [last]).length - 1 + 1 := by
      simp
    rw [hlength, cons_append, modify_succ_cons, ih]
    rfl

theorem total_kept :
    ((takeFromLast (paidOut payments) (front ++ [last]) ++ payments).map nValue).sum =
      ((front ++ [last]).map nValue).sum := by
  have hsums : ∀ a b c : Int, a + (b - c) + c = a + b := by
    intro a b c
    omega
  rw [takeFromLast_append]
  simp only [map_append, sum_append, map_cons, map_nil, sum_cons, sum_nil, Int.add_zero]
  exact hsums _ _ (paidOut payments)

theorem nonneg_kept_iff (hfront : ∀ out ∈ front, 0 ≤ out.nValue)
    (hpayments : ∀ out ∈ payments, 0 ≤ out.nValue) :
    (∀ out ∈ takeFromLast (paidOut payments) (front ++ [last]) ++ payments, 0 ≤ out.nValue) ↔
      paidOut payments ≤ last.nValue := by
  rw [takeFromLast_append]
  constructor
  · intro h
    have hlast := h { last with nValue := last.nValue - paidOut payments } (by simp)
    exact Int.le_of_sub_nonneg hlast
  · intro h out hout
    rcases mem_append.mp hout with hkept | hadded
    · rcases mem_append.mp hkept with hin | hlast
      · exact hfront out hin
      · obtain rfl := mem_singleton.mp hlast
        exact Int.sub_nonneg_of_le h
    · exact hpayments out hadded

end

/-! ## The payments -/

namespace SeeSaw

theorem part_nonneg {blockValue share : Int} (hvalue : 0 ≤ blockValue) (hshare : 0 ≤ share) :
    0 ≤ part blockValue share :=
  Int.tdiv_nonneg (Int.mul_nonneg hvalue hshare) (by decide)

theorem GetSeeSaw_nonneg {nMasternodeCount nHeight : Int} {nMoneySupply blockValue : CAmount}
    (hvalue : 0 ≤ blockValue) : 0 ≤ GetSeeSaw nMasternodeCount nMoneySupply nHeight blockValue := by
  unfold GetSeeSaw
  dsimp only
  split_ifs
  · exact Int.le_refl 0
  · exact part_nonneg hvalue early_table.shareOf_bounds.1
  · exact part_nonneg hvalue late_table.shareOf_bounds.1
  · exact hvalue

end SeeSaw

namespace CWalletNode

variable (W : CWalletNode)

theorem tenths_nonneg {blockValue : Int} (k : Nat) (hvalue : 0 ≤ blockValue) :
    0 ≤ (blockValue * k).tdiv 10 :=
  Int.tdiv_nonneg (Int.mul_nonneg hvalue (Int.natCast_nonneg k)) (by decide)

theorem masternodePayment_nonneg (nHeight : Int) {blockValue : CAmount} (hvalue : 0 ≤ blockValue) :
    0 ≤ W.payments.GetMasternodePayment nHeight blockValue := by
  have hshare : 0 ≤ (blockValue * 6).tdiv 10 := tenths_nonneg 6 hvalue
  unfold CPaymentNode.GetMasternodePayment
  split_ifs
  · exact Int.le_refl 0
  · exact hshare
  · rw [W.seesaw]
    exact SeeSaw.GetSeeSaw_nonneg hshare
  · exact hshare

theorem prosperitynodePayment_nonneg (P : CChainParams) (nHeight : Int) {blockValue : CAmount}
    (hvalue : 0 ≤ blockValue) : 0 ≤ GetProsperitynodePayment P nHeight blockValue := by
  unfold GetProsperitynodePayment
  split_ifs
  · exact Int.le_refl 0
  · exact tenths_nonneg 3 hvalue

theorem nodePayments_nonneg (tip : CBlockIndex) (IsMasternode : Bool) :
    ∀ out ∈ W.payments.nodePayments tip IsMasternode, 0 ≤ out.nValue := by
  intro out hout
  have hvalue : 0 ≤ GetBlockValue W.payments.base.P tip.nHeight :=
    Int.le_of_lt (GetBlockValue_pos ..)
  rcases mem_append.mp hout with hprosperity | hmaster
  · obtain ⟨payee, -, rfl⟩ := map_eq_some_iff.mp (mem_toList.mp hprosperity)
    exact prosperitynodePayment_nonneg _ _ hvalue
  · cases IsMasternode with
    | false => cases hmaster
    | true =>
      obtain ⟨payee, -, rfl⟩ := map_eq_some_iff.mp (mem_toList.mp hmaster)
      exact W.masternodePayment_nonneg _ hvalue

end CWalletNode

/-! ## The outputs of a stake -/

namespace StakeRound

variable (r : StakeRound) (s : StakeLoop)

/-- The amount of the output that is last when the payees are filled in. -/
def lastValue : CAmount :=
  match r.stakeInput with
  | .vit .. =>
    if r.splits (r.credit s) ∧ s.vout ≠ [] then r.credit s - halfCredit (r.credit s)
    else r.credit s
  | .zvit .. => CoinDenomination.ZQ_ONE.toAmount

/-- The payments can be taken off the stake. -/
def CanGiveUp (nPaid : CAmount) : Prop :=
  match r.stakeInput with
  | .vit .. => nPaid ≤ r.lastValue s
  | .zvit .. => nPaid = 0

instance (nPaid : CAmount) : Decidable (r.CanGiveUp s nPaid) :=
  match h : r.stakeInput with
  | .vit .. => decidable_of_iff (nPaid ≤ r.lastValue s) (by rw [CanGiveUp, h])
  | .zvit .. => decidable_of_iff (nPaid = 0) (by rw [CanGiveUp, h])

/-- What filling in the payees is to leave of the outputs: their total, no negative amount, and
at every new zerocoin its denomination. -/
structure KeepsStake (before after : List CTxOut) : Prop where
  total : (after.map CTxOut.nValue).sum = (before.map CTxOut.nValue).sum
  nonneg : ∀ out ∈ after, 0 ≤ out.nValue
  mints : ((after.drop s.vout.length).take r.stakeInput.newMints.length).map CTxOut.nValue =
    r.stakeInput.newMints.map CoinDenomination.toAmount

/-- The outputs of a stake: those before the last, and the last. -/
structure LaidAs (vout front : List CTxOut) (last : CTxOut) : Prop where
  split : vout = front ++ [last]
  front_nonneg : ∀ out ∈ front, 0 ≤ out.nValue
  last_value : last.nValue = r.lastValue s
  credit : r.stakeInput.IsZPIV = false → (vout.map CTxOut.nValue).sum = r.credit s
  mints : r.stakeInput.IsZPIV = true → ∃ outs, front = s.vout ++ outs ∧
    (outs ++ [last]).map CTxOut.nValue = r.stakeInput.newMints.map CoinDenomination.toAmount

variable {r s}

theorem halfCredit_nonneg {nCredit : CAmount} (h : 0 ≤ nCredit) : 0 ≤ halfCredit nCredit :=
  Int.mul_nonneg (Int.tdiv_nonneg (Int.tdiv_nonneg h (by decide)) (by decide)) (by decide)

variable {outs : List CTxOut} {i : Nat} {denominations : List CoinDenomination}

theorem mintOuts_values
    (h : r.mintOuts i denominations = some outs) :
    outs.map nValue = denominations.map CoinDenomination.toAmount := by
  induction denominations generalizing i outs with
  | nil =>
    cases h
    rfl
  | cons denomination rest ih =>
    rw [mintOuts] at h
    cases hcoin : r.CreateZPIVOutPut i with
    | none =>
      rw [hcoin] at h
      cases h
    | some pubCoin =>
      rw [hcoin] at h
      obtain ⟨outs', houts', rfl⟩ := map_eq_some_iff.mp h
      rw [map_cons, map_cons, ih houts']
      rfl

theorem toAmount_nonneg (d : CoinDenomination) : 0 ≤ d.toAmount :=
  Int.mul_nonneg (by decide) d.toInt_nonneg

theorem kept_nonneg (hs : s.Kept) : ∀ out ∈ s.vout, 0 ≤ out.nValue := by
  intro out hout
  rcases hs.vout with hstart | hnone
  · rw [hstart] at hout
    obtain rfl := mem_singleton.mp hout
    exact Int.le_refl 0
  · rw [hnone] at hout
    cases hout

theorem laidAs_of_zerocoin (hs : s.Kept) (hzpiv : r.stakeInput.IsZPIV = true)
    (houts : r.CreateTxOuts (r.credit s) = some outs) :
    ∃ front last, r.LaidAs s (s.vout ++ outs) front last := by
  cases hstake : r.stakeInput with
  | vit txFrom nPosition =>
    rw [hstake] at hzpiv
    cases hzpiv
  | zvit nChecksum fMint denom hashSerial =>
    rw [CreateTxOuts, hstake] at houts
    have hvalues := mintOuts_values houts
    -- there are four of them, and the last is of one coin
    obtain ⟨a, b, c, d, rfl⟩ : ∃ a b c d, outs = [a, b, c, d] := by
      have hlength : outs.length = 4 := by
        have := congrArg List.length hvalues
        simpa [StakeInput.newMints] using this
      match outs, hlength with
      | [a, b, c, d], _ => exact ⟨a, b, c, d, rfl⟩
    have hmem : ∀ out ∈ [a, b, c, d], 0 ≤ out.nValue := by
      intro out hout
      have hin := mem_map_of_mem (f := nValue) hout
      rw [hvalues] at hin
      obtain ⟨denomination, -, hvalue⟩ := mem_map.mp hin
      rw [← hvalue]
      exact toAmount_nonneg denomination
    refine ⟨s.vout ++ [a, b, c], d, ?_, ?_, ?_, ?_, ?_⟩
    · simp
    · intro out hout
      rcases mem_append.mp hout with hbefore | hmint
      · exact kept_nonneg hs out hbefore
      · exact hmem out (mem_append_left [d] hmint)
    · rw [lastValue, hstake]
      have hlast := congrArg List.getLast? hvalues
      simpa [StakeInput.newMints] using hlast
    · intro hcoin
      rw [hzpiv] at hcoin
      cases hcoin
    · intro _
      refine ⟨[a, b, c], rfl, ?_⟩
      rw [hstake]
      exact hvalues

theorem CreateTxOuts_coin {nTotal : CAmount}
    (hcoin : r.stakeInput.IsZPIV = false) (h : r.CreateTxOuts nTotal = some outs) :
    ∃ scriptPubKey, outs =
      if r.splits nTotal then [⟨0, scriptPubKey⟩, ⟨0, scriptPubKey⟩] else [⟨0, scriptPubKey⟩] := by
  cases hstake : r.stakeInput with
  | zvit =>
    rw [hstake] at hcoin
    cases hcoin
  | vit txFrom nPosition =>
    rw [CreateTxOuts, hstake] at h
    dsimp only at h
    split at h
    · cases h
    · split at h
      · cases h
      · next scriptPubKey _ =>
          refine ⟨scriptPubKey, ?_⟩
          split_ifs at h ⊢ with hsplit <;> exact (some.inj h).symm

theorem lastValue_coin (hcoin : r.stakeInput.IsZPIV = false) :
    r.lastValue s =
      if r.splits (r.credit s) ∧ s.vout ≠ [] then r.credit s - halfCredit (r.credit s)
      else r.credit s := by
  cases hstake : r.stakeInput with
  | zvit =>
    rw [hstake] at hcoin
    cases hcoin
  | vit txFrom nPosition => rw [lastValue, hstake]

variable {front : List CTxOut} {last : CTxOut}

theorem laidAs_coin (hcoin : r.stakeInput.IsZPIV = false)
    (hfront : ∀ out ∈ front, 0 ≤ out.nValue) (hlast : last.nValue = r.lastValue s)
    (htotal : (front.map nValue).sum + last.nValue = r.credit s) :
    r.LaidAs s (front ++ [last]) front last where
  split := rfl
  front_nonneg := hfront
  last_value := hlast
  credit _ := by
    rw [map_append, sum_append, map_singleton, sum_singleton]
    exact htotal
  mints h := by
    rw [hcoin] at h
    cases h

theorem laidAs_of_coin (hs : s.Kept) (hcoin : r.stakeInput.IsZPIV = false)
    {outs vout : List CTxOut} (houts : r.CreateTxOuts (r.credit s) = some outs)
    (hset : setAmounts (r.credit s) (s.vout ++ outs) = some vout) :
    ∃ front last, r.LaidAs s vout front last := by
  have hcredit : 0 ≤ r.credit s := Int.le_of_lt (r.credit_pos hs)
  have hlast := @lastValue_coin r s hcoin
  have hempty : ∀ {script : CScript}, ∀ out ∈ [(⟨0, script⟩ : CTxOut)], 0 ≤ out.nValue := by
    intro script out hout
    obtain rfl := mem_singleton.mp hout
    exact Int.le_refl 0
  obtain ⟨scriptPubKey, rfl⟩ := CreateTxOuts_coin hcoin houts
  rcases hs.vout with hstart | hnone
  · rw [hstart] at hset hlast
    cases hsplit : r.splits (r.credit s) with
    | true =>
      -- half of the credit in the first, the rest in the last
      rw [hsplit] at hset hlast
      rw [if_pos ⟨rfl, cons_ne_nil _ _⟩] at hlast
      cases hset
      have hfront : ∀ out ∈ [empty, ⟨halfCredit (r.credit s), scriptPubKey⟩],
          0 ≤ out.nValue := by
        intro out hout
        rcases mem_cons.mp hout with rfl | hhalf
        · exact Int.le_refl 0
        · obtain rfl := mem_singleton.mp hhalf
          exact halfCredit_nonneg hcredit
      have hsum : ∀ a b : Int, 0 + (a + 0) + (b - a) = b := by
        intro a b
        omega
      exact ⟨[.empty, ⟨halfCredit (r.credit s), scriptPubKey⟩],
        ⟨r.credit s - halfCredit (r.credit s), scriptPubKey⟩,
        laidAs_coin hcoin hfront hlast.symm (hsum (halfCredit (r.credit s)) (r.credit s))⟩
    | false =>
      rw [hsplit] at hset hlast
      rw [if_neg (by simp)] at hlast
      cases hset
      exact ⟨[.empty], ⟨r.credit s, scriptPubKey⟩,
        laidAs_coin hcoin hempty hlast.symm (Int.zero_add _)⟩
  · rw [hnone] at hset hlast
    rw [if_neg (fun h => h.2 rfl)] at hlast
    cases hsplit : r.splits (r.credit s) with
    | true =>
      rw [hsplit] at hset
      cases hset
      exact ⟨[⟨0, scriptPubKey⟩], ⟨r.credit s, scriptPubKey⟩,
        laidAs_coin hcoin hempty hlast.symm (Int.zero_add _)⟩
    | false =>
      -- there is no second output to set
      rw [hsplit] at hset
      cases hset

variable {vout : List CTxOut} {nBits : BitVec 32}

theorem laidAs_of_ready (hs : s.Kept)
    (h : r.layOut nBits s = .ready vout) : ∃ front last, r.LaidAs s vout front last := by
  obtain ⟨-, outs, houts, hset⟩ := layOut_ready h
  cases hzpiv : r.stakeInput.IsZPIV with
  | true =>
    rw [hzpiv] at hset
    cases hset
    exact laidAs_of_zerocoin hs hzpiv houts
  | false =>
    rw [hzpiv] at hset
    exact laidAs_of_coin hs hzpiv houts hset

/-! ## Which of them are zerocoins -/

theorem stakeScript_not_mint {kernel scriptPubKey : CScript}
    (h : r.stakeScript kernel = some scriptPubKey) : scriptPubKey.IsZerocoinMint = false := by
  have hhead : ∀ {script : CScript}, script.IsZerocoinMint = true →
      ∃ rest, script = OP_ZEROCOINMINT :: rest := by
    intro script hmint
    cases script with
    | nil => cases hmint
    | cons opcode rest =>
      obtain rfl := some.inj (eq_of_beq hmint)
      exact ⟨rest, rfl⟩
  rw [stakeScript] at h
  split at h
  · cases h
  · next vch hsolver =>
      cases h
      by_contra hmint
      obtain ⟨rest, rfl⟩ := hhead (Bool.eq_true_of_not_eq_false hmint)
      cases hsolver
  · obtain ⟨pubkey, -, rfl⟩ := map_eq_some_iff.mp h
    have hlength := CPubKey.length_bytes pubkey
    have hsize : pubkey.size = 0 ∨ pubkey.size = 33 ∨ pubkey.size = 65 := by
      unfold CPubKey.size GetLen
      split_ifs <;> simp
    rw [← hlength] at hsize
    have hshort : pubkey.bytes.length < 0x4c := by omega
    rw [CScript.pushData, if_pos hshort]
    rcases hsize with hsize | hsize | hsize <;>
      · rw [hsize]
        rfl

theorem setAmounts_scripts {nCredit : CAmount} {laid vout : List CTxOut}
    (h : setAmounts nCredit laid = some vout) :
    vout.map scriptPubKey = laid.map scriptPubKey := by
  unfold setAmounts at h
  split at h
  · cases h
    rfl
  · cases h
    rfl
  · cases h

theorem mintOuts_mint
    (h : r.mintOuts i denominations = some outs) :
    outs.length = denominations.length ∧ ∀ out ∈ outs, out.scriptPubKey.IsZerocoinMint = true := by
  refine ⟨by simpa using congrArg List.length (mintOuts_values h), ?_⟩
  induction denominations generalizing i outs with
  | nil =>
    cases h
    intro out hout
    cases hout
  | cons denomination rest ih =>
    rw [mintOuts] at h
    cases hcoin : r.CreateZPIVOutPut i with
    | none =>
      rw [hcoin] at h
      cases h
    | some pubCoin =>
      rw [hcoin] at h
      obtain ⟨outs', houts', rfl⟩ := map_eq_some_iff.mp h
      intro out hout
      rcases mem_cons.mp hout with rfl | hrest
      · rfl
      · exact ih houts' out hrest

theorem CreateTxOuts_mint {nTotal : CAmount}
    (h : r.CreateTxOuts nTotal = some outs) :
    (r.stakeInput.newMints = [] ∧ ∀ out ∈ outs, out.scriptPubKey.IsZerocoinMint = false) ∨
      (outs.length = r.stakeInput.newMints.length ∧
        ∀ out ∈ outs, out.scriptPubKey.IsZerocoinMint = true) := by
  cases hstake : r.stakeInput with
  | vit txFrom nPosition =>
    refine .inl ⟨rfl, ?_⟩
    rw [CreateTxOuts, hstake] at h
    dsimp only at h
    split at h
    · cases h
    · split at h
      · cases h
      · next hscript =>
          have hnot := stakeScript_not_mint hscript
          split_ifs at h <;>
            · cases h
              simpa using hnot
  | zvit =>
    rw [CreateTxOuts, hstake] at h
    exact .inr (mintOuts_mint h)

theorem ready_scripts
    (h : r.layOut nBits s = .ready vout) :
    ∃ outs, r.CreateTxOuts (r.credit s) = some outs ∧
      vout.map scriptPubKey = (s.vout ++ outs).map scriptPubKey := by
  obtain ⟨-, outs, houts, hset⟩ := layOut_ready h
  refine ⟨outs, houts, ?_⟩
  split_ifs at hset
  · cases hset
    rfl
  · exact setAmounts_scripts hset

theorem ready_mints (hs : s.Kept)
    (h : r.layOut nBits s = .ready vout) {out : CTxOut} (hi : vout[i]? = some out) :
    out.IsZerocoinMint = true ↔
      s.vout.length ≤ i ∧ i < s.vout.length + r.stakeInput.newMints.length := by
  obtain ⟨outs, houts, hscripts⟩ := ready_scripts h
  -- the output that was made at this place has the same script
  have hsame : ∃ made, (s.vout ++ outs)[i]? = some made ∧
      made.scriptPubKey = out.scriptPubKey := by
    have hmap := congrArg (fun l => l[i]?) hscripts
    simp only [List.getElem?_map, hi, map_some] at hmap
    exact map_eq_some_iff.mp hmap.symm
  obtain ⟨made, hmade, hscript⟩ := hsame
  show out.scriptPubKey.IsZerocoinMint = true ↔ _
  rw [← hscript]
  rcases Nat.lt_or_ge i s.vout.length with hbefore | hbehind
  · rw [List.getElem?_append_left hbefore] at hmade
    have hempty : made = .empty := by
      rcases hs.vout with hstart | hnone
      · rw [hstart] at hmade
        exact mem_singleton.mp (mem_of_getElem? hmade)
      · rw [hnone] at hmade
        cases hmade
    rw [hempty]
    exact iff_of_false (by decide) (fun h => absurd h.1 (Nat.not_le.mpr hbefore))
  · rw [List.getElem?_append_right hbehind] at hmade
    have hmem := mem_of_getElem? hmade
    have hlt := (List.getElem?_eq_some_iff.mp hmade).1
    rcases CreateTxOuts_mint houts with ⟨hnone, hnot⟩ | ⟨hlength, hall⟩
    · rw [hnone, length_nil, hnot made hmem]
      exact iff_of_false (by decide) (fun h => absurd h.2 (Nat.not_lt.mpr hbehind))
    · exact iff_of_true (hall made hmem) ⟨hbehind, by omega⟩

theorem zerocoin_kept_iff
    (hzpiv : r.stakeInput.IsZPIV = true) (hlaid : r.LaidAs s vout front last)
    (payments : List CTxOut) :
    ((((takeFromLast (paidOut payments) vout ++ payments).drop s.vout.length).take
        r.stakeInput.newMints.length).map nValue =
      r.stakeInput.newMints.map CoinDenomination.toAmount) ↔ paidOut payments = 0 := by
  obtain ⟨outs, rfl, hvalues⟩ := hlaid.mints hzpiv
  have hlength : r.stakeInput.newMints.length = (outs ++ [last]).length := by
    simpa using (congrArg List.length hvalues).symm
  rw [hlaid.split, takeFromLast_append, append_assoc, append_assoc, drop_left,
    ← append_assoc, take_left' (by rw [hlength]; simp), ← hvalues]
  simp only [map_append, map_cons, map_nil, append_cancel_left_eq, cons.injEq, and_true]
  constructor
  · intro h
    have hzero : ∀ a b : Int, a - b = a → b = 0 := by
      intro a b hab
      omega
    exact hzero _ _ h
  · intro h
    rw [h, Int.sub_zero]

theorem kept_iff_of_laidAs {vout payments : List CTxOut}
    (hlaid : r.LaidAs s vout front last) (hpayments : ∀ out ∈ payments, 0 ≤ out.nValue) :
    r.KeepsStake s vout (takeFromLast (paidOut payments) vout ++ payments) ↔
      r.CanGiveUp s (paidOut payments) := by
  have hsplit := hlaid.split
  have hnonneg := @nonneg_kept_iff front payments last hlaid.front_nonneg hpayments
  rw [← hsplit, hlaid.last_value] at hnonneg
  have htotal := @total_kept front payments last
  rw [← hsplit] at htotal
  cases hstake : r.stakeInput with
  | vit txFrom nPosition =>
    rw [CanGiveUp, hstake]
    rw [← hnonneg]
    refine ⟨fun h => h.nonneg, fun h => ⟨htotal, h, ?_⟩⟩
    rw [hstake]
    rfl
  | zvit =>
    have hzpiv : r.stakeInput.IsZPIV = true := by
      rw [hstake]
      rfl
    have hmints := zerocoin_kept_iff hzpiv hlaid payments
    have hlast : 0 ≤ r.lastValue s := by
      rw [lastValue, hstake]
      exact toAmount_nonneg _
    rw [CanGiveUp, hstake]
    constructor
    · intro h
      exact hmints.mp h.mints
    · intro h
      refine ⟨htotal, hnonneg.mpr ?_, hmints.mpr h⟩
      rw [h]
      exact hlast

end StakeRound

/-- **The stake and its payments.**  In every round that fills in the payees, behind any rounds:
the zerocoins among the outputs are the new ones of the stake, and the payments leave the stake
whole exactly if it can give them up. -/
theorem stake_outputs_kept_iff (nBits : BitVec 32) (IsMasternode : Bool) (rounds : List StakeRound)
    (s : StakeLoop) (r : StakeRound) (vout : List CTxOut)
    (hrun : afterRounds nBits IsMasternode .start rounds = some s)
    (hready : r.layOut nBits s = .ready vout) :
    let payments := r.node.payments.nodePayments r.node.tip IsMasternode
    let txNew := r.node.payments.fillNodePayees r.node.tip (mutableTransaction [] vout) true
      IsMasternode
    (∀ i out, vout[i]? = some out → (out.IsZerocoinMint = true ↔
      s.vout.length ≤ i ∧ i < s.vout.length + r.stakeInput.newMints.length)) ∧
    (r.KeepsStake s vout txNew.vout ↔ r.CanGiveUp s (paidOut payments)) := by
  intro payments txNew
  have hs := afterRounds_kept StakeLoop.start_kept hrun
  have hfilled : txNew.vout = takeFromLast (paidOut payments) vout ++ payments := by
    show (fillNodePayees _ _ _ true _).vout = _
    rfl
  refine ⟨fun i out hi => StakeRound.ready_mints hs hready hi, ?_⟩
  obtain ⟨front, last, hlaid⟩ := StakeRound.laidAs_of_ready hs hready
  exact StakeRound.kept_iff_of_laidAs hlaid (r.node.nodePayments_nonneg r.node.tip IsMasternode)

/-! ### A coin and a zerocoin on a chain of even blocks -/

namespace StakeOutputs

/-- The blocks are 4000 seconds apart. -/
def evenIndex (i : Nat) : KernelIndex :=
  ⟨BitVec.ofNat 256 i, i, BitVec.ofNat 32 (1000000000 + 4000 * i), true, true, BitVec.ofNat 64 i, 0⟩

def evenChain (n : Nat) : CChain where
  vChain := (List.range (n + 1)).map evenIndex
  heights := by
    intro i pindex h
    obtain ⟨j, hj, rfl⟩ := map_eq_some_iff.mp (List.getElem?_map (f := evenIndex) ▸ h)
    obtain ⟨hlt, rfl⟩ := List.getElem?_eq_some_iff.mp hj
    rw [getElem_range]
    rfl

def evenCoin : CTransaction :=
  ⟨7, 1, [⟨⟨6, 0⟩, [], 0xFFFFFFFF⟩],
    [⟨100 * COIN, CScript.pushData (compressedKey 1).bytes ++ [OP_CHECKSIG]⟩], 0⟩

def evenKernel (n : Nat) : StakeNode where
  P := mainParams
  C := quietCrypto
  Z := quietZerocoin
  chainActive := evenChain n
  mapBlockIndex h := if h.toNat ≤ n then some (evenIndex h.toNat) else none
  GetTransaction h := if h = 7 then some (evenCoin, 1) else none
  VerifyScript _ _ _ := true
  ReadBlockFromDisk pindex := some pindex.nTime
  stored := stakedNode.stored

/-- A prosperitynode is to be paid. -/
def evenNode (n : Nat) : CWalletNode where
  kernel := evenKernel n
  payments :=
    { winnerNode n with
      GetSeeSaw := SeeSaw.GetSeeSaw 0 0
      currentFundamentalNode := some (compressedKey 1) }
  tip := quietTip n
  chainTip := rfl
  height := by
    show ((List.map evenIndex (List.range (n + 1))).length : Int) - 1 = n
    simp
  params := rfl
  nMasternodeCount := 0
  nMoneySupply := 0
  seesaw := rfl
  nStakeSplitThreshold := 2000
  GetKey _ := none

def evenRound (n : Nat) (stakeInput : StakeInput) (h : 0 ≤ stakeInput.GetValue) : StakeRound where
  node := evenNode n
  stakeInput := stakeInput
  value_nonneg := h
  stopped := false
  GetAdjustedTime := BitVec.ofNat 32 (1000000000 + 4000 * (n + 1))
  newBlock _ := false
  CreateZPIVOutPut i := some [UInt8.ofNat i]
  MintToTxIn _ := none
  MarkSpent _ := true
  SignSignature _ := some []
  UpdateState _ := true

/-- The coin gives up what is paid on top of block 10. -/
theorem coin_kept :
    ((evenRound 10 (.vit evenCoin 0) (by decide)).KeepsStake .start
      [.empty, ⟨101 * COIN, CScript.pushData (compressedKey 1).bytes ++ [OP_CHECKSIG]⟩]
      ((evenNode 10).payments.fillNodePayees (quietTip 10) (mutableTransaction []
        [.empty, ⟨101 * COIN, CScript.pushData (compressedKey 1).bytes ++ [OP_CHECKSIG]⟩])
        true true).vout) :=
  (stake_outputs_kept_iff 0x1d00ffff true [] .start (evenRound 10 (.vit evenCoin 0) (by decide))
    [.empty, ⟨101 * COIN, CScript.pushData (compressedKey 1).bytes ++ [OP_CHECKSIG]⟩] rfl
    (by decide)).2.mpr (by decide)

theorem evenChain_at {n i : Nat} (h : i ≤ n) : (evenChain n).at' i = some (evenIndex i) := by
  have hnot : ¬ (i : Int) < 0 := by omega
  show (List.map evenIndex (List.range (n + 1)))[i]? = _
  rw [List.getElem?_map, List.getElem?_range (by omega)]
  rfl

theorem evenChain_from (n i : Nat) :
    (evenChain n).from' i = (List.range' i (n + 1 - i)).map evenIndex := by
  have hnot : ¬ (i : Int) < 0 := by omega
  show (List.map evenIndex (List.range (n + 1))).drop i = _
  rw [← map_drop, range_eq_range', drop_range', Nat.mul_one, Nat.zero_add]

theorem evenChain_height (n : Nat) : (evenChain n).Height = n := (evenNode n).height

theorem evenTime_toNat (h : i ≤ 300201) :
    (BitVec.ofNat 32 (1000000000 + 4000 * i)).toNat = 1000000000 + 4000 * i := by
  rw [BitVec.toNat_ofNat, Nat.mod_eq_of_lt (by omega)]

theorem evenIndex_time (h : i ≤ 300201) :
    (evenIndex i).GetBlockTime = 1000000000 + 4000 * i := by
  show ((BitVec.ofNat 32 (1000000000 + 4000 * i)).toNat : Int) = _
  rw [evenTime_toNat h]
  omega

theorem evenChain_median {n : Nat} (hlong : 10 ≤ n) (hsmall : n ≤ 300200) :
    (evenKernel n).chainActive.GetMedianTimePast ≤ 1000000000 + 4000 * n := by
  have hblocks : (evenKernel n).chainActive.from'
      (max 0 ((evenKernel n).chainActive.Height - 10)) =
        (List.range' (n - 10) 11).map evenIndex := by
    have hheight : max 0 ((evenChain n).Height - 10) = ((n - 10 : Nat) : Int) := by
      rw [evenChain_height]
      omega
    have hcount : n + 1 - (n - 10) = 11 := by omega
    show (evenChain n).from' (max 0 ((evenChain n).Height - 10)) = _
    rw [hheight, evenChain_from, hcount]
  rw [CChain.GetMedianTimePast, hblocks]
  set times := ((List.range' (n - 10) 11).map evenIndex).map KernelIndex.GetBlockTime
  have hlength : (times.insertionSort (· ≤ ·)).length = 11 := by
    rw [length_insertionSort]
    simp [times]
  have hmem : ∀ t ∈ times, t ≤ 1000000000 + 4000 * n := by
    intro t ht
    obtain ⟨pindex, hpindex, rfl⟩ := mem_map.mp ht
    obtain ⟨i, hi, rfl⟩ := mem_map.mp hpindex
    have hle : i ≤ n := by
      have := (mem_range'_1.mp hi).2
      omega
    rw [evenIndex_time (by omega)]
    omega
  refine hmem _ ((mem_insertionSort (· ≤ ·)).mp ?_)
  rw [getD_eq_getElem _ _ (by rw [hlength]; decide)]
  exact getElem_mem _

theorem evenStake_found {n i : Nat} {stake : StakeInput} {m : BitVec 64} (hi : i ≤ n)
    (hsmall : n ≤ 300200) (hmod : stake.GetModifier (evenKernel n) = some m)
    (hhit : stakeTargetHit 0 stake.GetValue (SetCompact 0x1d00ffff) = true) :
    Stake (evenKernel n) stake 0x1d00ffff (evenIndex i).nTime
        (BitVec.ofNat 32 (1000000000 + 4000 * (n + 1))) (fun _ => false) =
      some (tryTime (BitVec.ofNat 32 (1000000000 + 4000 * (n + 1))) 0, 0) := by
  have htime : ¬ BitVec.ofNat 32 (1000000000 + 4000 * (n + 1)) < (evenIndex i).nTime := by
    show ¬ BitVec.ofNat 32 _ < BitVec.ofNat 32 (1000000000 + 4000 * i)
    rw [BitVec.lt_def, evenTime_toNat (by omega), evenTime_toNat (by omega)]
    omega
  have hage : ¬ (evenIndex i).nTime + nStakeMinAge >
      BitVec.ofNat 32 (1000000000 + 4000 * (n + 1)) := by
    show ¬ BitVec.ofNat 32 (1000000000 + 4000 * i) + BitVec.ofNat 32 3600 > _
    have hhour : (BitVec.ofNat 32 3600).toNat = 3600 := rfl
    rw [gt_iff_lt, BitVec.lt_def, BitVec.toNat_add, evenTime_toNat (by omega), hhour,
      evenTime_toNat (by omega), Nat.mod_eq_of_lt (by omega)]
    omega
  have hcheck : CheckStake (evenKernel n).C stake.GetUniqueness stake.GetValue m
      (SetCompact 0x1d00ffff) (evenIndex i).nTime
      (tryTime (BitVec.ofNat 32 (1000000000 + 4000 * (n + 1))) 0) = true := hhit
  rw [Stake, if_neg htime, if_neg hage, hmod]
  show stakeRounds _ _ _ _ _ _ _ _ (0 :: (List.range 30).tail) = _
  rw [stakeRounds, if_neg Bool.false_ne_true]
  exact if_pos hcheck

theorem evenRound_kernel {n i : Nat} {stake : StakeInput} {m : BitVec 64} (hpos : 1 ≤ i)
    (hi : i ≤ n) (hlong : 10 ≤ n) (hsmall : n ≤ 300200) (h : 0 ≤ stake.GetValue)
    (hfrom : stake.GetIndexFrom (evenKernel n) = some (evenIndex i))
    (hmod : stake.GetModifier (evenKernel n) = some m)
    (hhit : stakeTargetHit 0 stake.GetValue (SetCompact 0x1d00ffff) = true) :
    (evenRound n stake h).kernelFound 0x1d00ffff = true := by
  have hmedian := evenChain_median hlong hsmall
  have hheight : ¬ (evenIndex i).nHeight < 1 := by
    show ¬ (i : Int) < 1
    omega
  have htime := @evenTime_toNat (n + 1) (by omega)
  have hindex : (evenRound n stake h).stakeInput.GetIndexFrom (evenRound n stake h).node.kernel =
    some (evenIndex i) := hfrom
  rw [StakeRound.kernelFound, hindex]
  dsimp only
  rw [if_neg hheight]
  have hstake : Stake (evenRound n stake h).node.kernel (evenRound n stake h).stakeInput 0x1d00ffff
      (evenIndex i).nTime (evenRound n stake h).GetAdjustedTime (evenRound n stake h).newBlock = _ :=
    evenStake_found hi hsmall hmod hhit
  rw [hstake]
  show decide ((evenKernel n).chainActive.GetMedianTimePast < _) = true
  rw [decide_eq_true_eq, tryTime_toNat (by decide) (by rw [htime, nHashDrift]; omega), htime,
    nHashDrift]
  omega

def tenCoins : StakeInput := .zvit 0 true .ZQ_TEN 5

section
variable {start n : Nat} (hstart : mainParams.nZerocoinStartHeight = start) (hn : n = start + 200)
include hstart hn

theorem tenCoins_from : tenCoins.GetIndexFrom (evenKernel n) = some (evenIndex start) := by
  have hat : (evenKernel n).chainActive.at' start = some (evenIndex start) :=
    evenChain_at (by omega)
  have hheight : (evenKernel n).chainActive.Height = n := evenChain_height n
  have hfirst : (evenKernel n).P.nZerocoinStartHeight = start := hstart
  have hdepth : (evenKernel n).chainActive.Height -
      (evenKernel n).P.nZerocoinRequiredStakeDepth = start := by
    have hrequired : (evenKernel n).P.nZerocoinRequiredStakeDepth = 200 := rfl
    omega
  have hfrom : (evenKernel n).chainActive.from' start =
      evenIndex start :: (List.range' (start + 1) 200).map evenIndex := by
    have hcount : n + 1 - start = 200 + 1 := by omega
    show (evenChain n).from' start = _
    rw [evenChain_from, hcount, range'_succ]
    rfl
  have hmint : GetChecksumHeightFromMint (evenKernel n) .ZQ_TEN = start := by
    rw [GetChecksumHeightFromMint, hdepth, hat]
    show checksumHeight _ _ _ 0 ((evenKernel n).chainActive.from' _) = _
    rw [hfirst, hfrom, checksumHeight, if_pos rfl]
    rfl
  have hin : ¬ ((start : Int) < (evenKernel n).P.nZerocoinStartHeight ∨
      (start : Int) > (evenKernel n).chainActive.Height) := by
    omega
  rw [tenCoins, StakeInput.GetIndexFrom]
  rw [if_pos rfl, hmint, if_neg hin]
  exact hat

theorem tenCoins_modifier (hsmall : start ≤ 300000) :
    tenCoins.GetModifier (evenKernel n) = some 0 := by
  have hfrom : (evenKernel n).chainActive.from' (evenIndex start).nHeight =
      evenIndex start :: evenIndex (start + 1) :: (List.range' (start + 2) 199).map evenIndex := by
    have hcount : n + 1 - start = 199 + 1 + 1 := by omega
    show (evenChain n).from' start = _
    rw [evenChain_from, hcount, range'_succ, range'_succ]
    rfl
  have hfirst := @evenIndex_time start (by omega)
  have hnext := @evenIndex_time (start + 1) (by omega)
  rw [StakeInput.GetModifier, tenCoins_from hstart hn]
  show checkpointModifierLoop _ ((evenKernel n).chainActive.from' _) = _
  rw [hfrom, checkpointModifierLoop, if_neg (by rw [hfirst]; omega), checkpointModifierLoop,
    if_pos (by rw [hfirst, hnext]; omega)]
  rfl

theorem tenCoins_ready (hsmall : start ≤ 300000) (h : 0 ≤ tenCoins.GetValue) :
    (evenRound n tenCoins h).layOut 0x1d00ffff .start =
      .ready (.empty :: [(CoinDenomination.ZQ_TEN, 0), (.ZQ_ONE, 1), (.ZQ_ONE, 2),
        (.ZQ_ONE, 3)].map fun p => StakeRound.mintOut p.1 [p.2]) := by
  have hfirst : (start : Int) = 209467 := hstart.symm
  have hkernel := evenRound_kernel (by omega) (by omega) (by omega) (by omega) h
    (tenCoins_from hstart hn) (tenCoins_modifier hstart hn hsmall) (by decide)
  rw [StakeRound.layOut, hkernel]
  rfl

end

/-- **A zerocoin gives up what it does not have.**  On top of block 209667 of the main network a
zerocoin of ten coins is staked; the prosperitynode's 9 coins are taken off the last of its new
zerocoins, of one coin. -/
theorem zerocoin_not_kept :
    ¬ (∀ (nBits : BitVec 32) (IsMasternode : Bool) (rounds : List StakeRound) (s : StakeLoop)
      (r : StakeRound) (vout : List CTxOut),
      afterRounds nBits IsMasternode .start rounds = some s → r.layOut nBits s = .ready vout →
        r.KeepsStake s vout (r.node.payments.fillNodePayees r.node.tip (mutableTransaction [] vout)
          true IsMasternode).vout) := by
  intro hall
  have hkept := hall 0x1d00ffff true [] .start (evenRound 209667 tenCoins (by decide)) _ rfl
    (@tenCoins_ready 209467 _ rfl rfl (by decide) (by decide))
  have hmints := hkept.mints
  revert hmints
  decide

end StakeOutputs

end Divitae
