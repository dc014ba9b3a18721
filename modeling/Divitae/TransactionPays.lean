/-
# `TransactionPays` — what a payment pays

    SelectCoins_found     the coins selected are worth `nValueIn`, and that is enough
    payeeOutputs_paid     the outputs to the payees are what is due to each script
    addChange_paid        change goes to one script or into the fee, and none of it is dust
    CreateTransaction_pays

What is due of an ordinary payment is what is asked for, in parts or not, so what the inputs are
worth and the outputs are not is the fee that is returned.  Of a prosperitynode payment only
`FN_MAGIC_AMOUNT` is due: the rest of the amount is burnt, and the fee returned does not count it.
-/
import Divitae.CreateTransaction

namespace Divitae

open List Bool WalletCoin CoinSelection

/-! ## What a payment is about -/

/-- The outputs to scripts of a kind are worth. -/
def paidWhere (kind : CScript → Bool) (vout : List CTxOut) : CAmount :=
  ((vout.filter fun out => kind out.scriptPubKey).map CTxOut.nValue).sum

/-- The amounts for scripts of a kind. -/
def askedWhere (kind : CScript → Bool) (vecSend : List (CScript × CAmount)) : CAmount :=
  ((vecSend.filter fun s => kind s.1).map Prod.snd).sum

namespace Payment

variable (p : Payment)

/-- Coin control without a split: the outputs are looked at for dust. -/
def plain : Bool := p.coinControl.any fun control => !control.fSplitBlock

def due : List (CScript × CAmount) :=
  if p.IsFundamentalNodePayment then [((p.vecSend.headD ([], 0)).1, FN_MAGIC_AMOUNT)]
  else p.vecSend

/-- The part of the amount that nobody gets. -/
def burnt : CAmount := (p.vecSend.map Prod.snd).sum - (p.due.map Prod.snd).sum

def payees : List CTxOut :=
  if p.IsFundamentalNodePayment then [⟨FN_MAGIC_AMOUNT, (p.vecSend.headD ([], 0)).1⟩]
  else if p.plain then p.vecSend.map fun s => ⟨s.2, s.1⟩
  else p.vecSend.flatMap (splitOutputs (p.coinControl.elim 1 CCoinControl.nSplitBlock))

/-- A payment that is split is split into one part at least. -/
def Splits : Prop :=
  ∀ control, p.coinControl = some control → control.fSplitBlock = true → 1 ≤ control.nSplitBlock

theorem Splits.parts {p : Payment} (h : p.Splits) (hplain : p.plain = false) :
    1 ≤ p.coinControl.elim 1 CCoinControl.nSplitBlock := by
  cases hcontrol : p.coinControl with
  | none => exact Int.le_refl 1
  | some control =>
    refine h control hcontrol ?_
    unfold plain at hplain
    rw [hcontrol] at hplain
    exact not_eq_false' _ ▸ hplain

end Payment

/-! ## The coins -/

section
variable {P : CChainParams} {W : PayingWallet P} {nTargetValue : CAmount}

def ofDenomination (vCoins : List COutput) (v : CAmount) : List (CAmount × WalletCoin) :=
  (vCoins.filter fun out => out.Value == v).map fun out => (out.Value, out.coin)

theorem foldl_takeDenominated (v : CAmount) (vCoins : List COutput)
    (coins : List (CAmount × WalletCoin)) :
    ∃ new, vCoins.foldl (takeDenominated W nTargetValue v) coins = coins ++ new ∧
      List.Sublist new (ofDenomination vCoins v) := by
  induction vCoins generalizing coins with
  | nil => exact ⟨[], (append_nil coins).symm, List.Sublist.refl _⟩
  | cons out vCoins ih =>
    obtain ⟨new, hnew, hsub⟩ := ih (takeDenominated W nTargetValue v coins out)
    have hmore : List.Sublist (ofDenomination vCoins v) (ofDenomination (out :: vCoins) v) :=
      ((sublist_cons_self out vCoins).filter _).map _
    unfold takeDenominated at hnew
    split_ifs at hnew with htaken
    · refine ⟨(out.Value, out.coin) :: new, ?_, ?_⟩
      · rw [foldl_cons]
        unfold takeDenominated
        rw [if_pos htaken]
        exact hnew.trans (append_assoc _ _ _)
      · unfold ofDenomination
        rw [filter_cons, if_pos (beq_iff_eq.mpr htaken.1), map_cons]
        exact hsub.cons_cons _
    · refine ⟨new, ?_, hsub.trans hmore⟩
      rw [foldl_cons]
      unfold takeDenominated
      rw [if_neg htaken]
      exact hnew

theorem foldl_denominations (vCoins : List COutput) (ds : List CAmount)
    (coins : List (CAmount × WalletCoin)) :
    ∃ new, ds.foldl (fun coins v => vCoins.foldl (takeDenominated W nTargetValue v) coins) coins =
        coins ++ new ∧
      List.Sublist new (ds.flatMap (ofDenomination vCoins)) := by
  induction ds generalizing coins with
  | nil => exact ⟨[], (append_nil coins).symm, List.Sublist.refl _⟩
  | cons v ds ih =>
    obtain ⟨first, hfirst, hsub⟩ := @foldl_takeDenominated P W nTargetValue v vCoins coins
    obtain ⟨rest, hrest, hsub'⟩ := ih (coins ++ first)
    refine ⟨first ++ rest, ?_, ?_⟩
    · rw [foldl_cons, hfirst, hrest, append_assoc]
    · rw [flatMap_cons]
      exact hsub.append hsub'

section
variable {vCoins : List COutput} (honce : (vCoins.map COutput.coin).Nodup)
include honce

theorem worth_of_outputs :
    ((vCoins.map fun out => (out.Value, out.coin)).map Prod.snd).Nodup ∧
      ∀ c ∈ vCoins.map fun out => (out.Value, out.coin), value c.2 = c.1 := by
  refine ⟨?_, fun c hc => ?_⟩
  · rw [map_map]
    exact honce
  · obtain ⟨out, -, rfl⟩ := mem_map.mp hc
    exact out.value_coin

theorem worth_of_denominations {ds : List CAmount} (hds : ds.Nodup) :
    ((ds.flatMap (ofDenomination vCoins)).map Prod.snd).Nodup ∧
      ∀ c ∈ ds.flatMap (ofDenomination vCoins), value c.2 = c.1 ∧ c.1 ∈ ds := by
  have hvalue : ∀ v, ∀ c ∈ ofDenomination vCoins v, value c.2 = c.1 ∧ c.1 = v := by
    intro v c hc
    obtain ⟨out, hout, rfl⟩ := mem_map.mp hc
    exact ⟨out.value_coin, beq_iff_eq.mp (mem_filter.mp hout).2⟩
  induction ds with
  | nil => exact ⟨nodup_nil, nofun⟩
  | cons v ds ih =>
    obtain ⟨hnot, hrest⟩ := nodup_cons.mp hds
    obtain ⟨hnodup, hworth⟩ := ih hrest
    rw [flatMap_cons]
    refine ⟨?_, fun c hc => ?_⟩
    · rw [map_append, nodup_append']
      refine ⟨(worth_of_outputs ((filter_sublist.map _).nodup honce)).1, hnodup, ?_⟩
      -- a coin has one value, and so one denomination
      intro coin hfirst hlater
      obtain ⟨c, hc, rfl⟩ := mem_map.mp hfirst
      obtain ⟨c', hc', hsame⟩ := mem_map.mp hlater
      obtain ⟨hworth₁, hv⟩ := hvalue v c hc
      obtain ⟨hworth₂, hmem⟩ := hworth c' hc'
      rw [hsame, hworth₁, hv] at hworth₂
      rw [← hworth₂] at hmem
      exact hnot hmem
    · rcases mem_append.mp hc with hc | hc
      · obtain ⟨hworth₁, hv⟩ := hvalue v c hc
        exact ⟨hworth₁, hv ▸ .head _⟩
      · exact ⟨(hworth c hc).1, mem_cons_of_mem v (hworth c hc).2⟩

end

theorem CoinSelection.reaching_found {coins : List (CAmount × WalletCoin)}
    (honce : (coins.map Prod.snd).Nodup) (hvalue : ∀ c ∈ coins, value c.2 = c.1)
    (h : (reaching nTargetValue coins).found = true) :
    ∑ coin ∈ (reaching nTargetValue coins).setCoinsRet, value coin =
        (reaching nTargetValue coins).nValueRet ∧
      nTargetValue ≤ (reaching nTargetValue coins).nValueRet :=
  ⟨worth honce hvalue, of_decide_eq_true h⟩

variable {attempt : Nat} {coinControl : Option CCoinControl}

/-- **The coins of a payment** are worth `nValueRet`, and that is enough. -/
theorem SelectCoins_found
    {coin_type : AvailableCoinsType} {useIX : Bool}
    (h : (SelectCoins W attempt nTargetValue coinControl coin_type useIX).found = true) :
    ∑ coin ∈ (SelectCoins W attempt nTargetValue coinControl coin_type useIX).setCoinsRet,
        value coin =
        (SelectCoins W attempt nTargetValue coinControl coin_type useIX).nValueRet ∧
      nTargetValue ≤
        (SelectCoins W attempt nTargetValue coinControl coin_type useIX).nValueRet := by
  unfold SelectCoins at h ⊢
  generalize W.AvailableCoins coinControl coin_type useIX = wallet at h ⊢
  dsimp only at h ⊢
  split at h
  next hselected =>
    rw [if_pos hselected]
    obtain ⟨honce, hvalue⟩ := worth_of_outputs ((filter_sublist.map _).nodup wallet.once)
    exact reaching_found honce hvalue h
  next hselected =>
    rw [if_neg hselected]
    split at h
    next hdenominated =>
      rw [if_pos hdenominated]
      obtain ⟨new, hnew, hsub⟩ :=
        @foldl_denominations P W nTargetValue wallet.vCoins obfuScationDenominations []
      obtain ⟨honce, hvalue⟩ :=
        worth_of_denominations wallet.once (show obfuScationDenominations.Nodup by decide)
      rw [nil_append] at hnew
      rw [hnew] at h ⊢
      exact reaching_found ((hsub.map _).nodup honce) (fun c hc => (hvalue c (hsub.subset hc)).1) h
    next hdenominated =>
      rw [if_neg hdenominated]
      split at h
      next hfirst =>
        rw [if_pos hfirst]
        exact (SelectCoinsMinConf_found wallet _ hfirst).2
      next hfirst =>
        rw [if_neg hfirst]
        split at h
        next hsecond =>
          rw [if_pos hsecond]
          exact (SelectCoinsMinConf_found wallet _ h).2
        next hsecond =>
          rw [if_neg hsecond]
          exact (SelectCoinsMinConf_found wallet _ h).2

end

/-! ## The outputs to the payees -/

section
variable {kind : CScript → Bool} {vout vout' : List CTxOut} {out : CTxOut}

theorem paidWhere_append :
    paidWhere kind (vout ++ vout') = paidWhere kind vout + paidWhere kind vout' := by
  unfold paidWhere
  rw [filter_append, map_append, sum_append]

theorem paidWhere_cons : paidWhere kind (out :: vout) =
    (if kind out.scriptPubKey then out.nValue else 0) + paidWhere kind vout := by
  unfold paidWhere
  rw [filter_cons]
  split_ifs
  · rw [map_cons, sum_cons]
  · rw [Int.zero_add]

variable {vecSend : List (CScript × CAmount)}

theorem askedWhere_cons {s : CScript × CAmount} :
    askedWhere kind (s :: vecSend) = (if kind s.1 then s.2 else 0) + askedWhere kind vecSend := by
  unfold askedWhere
  rw [filter_cons]
  split_ifs
  · rw [map_cons, sum_cons]
  · rw [Int.zero_add]

theorem paidWhere_all : paidWhere (fun _ => true) vout = (vout.map CTxOut.nValue).sum := by
  unfold paidWhere
  rw [filter_true]

theorem askedWhere_all :
    askedWhere (fun _ => true) vecSend = (vecSend.map Prod.snd).sum := by
  unfold askedWhere
  rw [filter_true]

theorem paidWhere_replicate (n : Nat) : paidWhere kind (List.replicate n out) =
    if kind out.scriptPubKey then n * out.nValue else 0 := by
  induction n with
  | zero =>
    rw [Int.natCast_zero, Int.zero_mul, ite_self]
    rfl
  | succ n ih =>
    rw [replicate_succ, paidWhere_cons, ih]
    split_ifs
    · push_cast
      ring
    · rfl

theorem paidWhere_split {nSplitBlock : Int} (hparts : 1 ≤ nSplitBlock) (s : CScript × CAmount) :
    paidWhere kind (splitOutputs nSplitBlock s) = if kind s.1 then s.2 else 0 := by
  obtain ⟨n, rfl⟩ : ∃ n : Nat, nSplitBlock = (n : Int) + 1 := ⟨(nSplitBlock - 1).toNat, by omega⟩
  have hsplit : splitOutputs ((n : Int) + 1) s =
      List.replicate n ⟨s.2.tdiv (n + 1), s.1⟩ ++ [⟨s.2.tdiv (n + 1) + s.2.tmod (n + 1), s.1⟩] := by
    unfold splitOutputs
    have hlength : ((n : Int) + 1).toNat = n + 1 := by omega
    rw [hlength, range_succ, map_append, map_singleton, if_pos (by omega)]
    congr 1
    refine eq_replicate_iff.mpr ⟨by rw [length_map, length_range], ?_⟩
    intro out hout
    obtain ⟨i, hi, rfl⟩ := mem_map.mp hout
    rw [if_neg]
    have hlt := mem_range.mp hi
    omega
  rw [hsplit, paidWhere_append, paidWhere_replicate, paidWhere_cons]
  split_ifs
  · have hdivision := Int.mul_tdiv_add_tmod s.2 ((n : Int) + 1)
    show (n : Int) * s.2.tdiv (n + 1) + (s.2.tdiv (n + 1) + s.2.tmod (n + 1) + 0) = s.2
    linarith
  · rfl

theorem paidWhere_flatMap_split {nSplitBlock : Int} (hparts : 1 ≤ nSplitBlock)
    (vecSend : List (CScript × CAmount)) :
    paidWhere kind (vecSend.flatMap (splitOutputs nSplitBlock)) = askedWhere kind vecSend := by
  induction vecSend with
  | nil => rfl
  | cons s vecSend ih =>
    rw [flatMap_cons, paidWhere_append, paidWhere_split hparts, ih, askedWhere_cons]

theorem paidWhere_map (vecSend : List (CScript × CAmount)) :
    paidWhere kind (vecSend.map fun s => ⟨s.2, s.1⟩) = askedWhere kind vecSend := by
  induction vecSend with
  | nil => rfl
  | cons s vecSend ih => rw [map_cons, paidWhere_cons, ih, askedWhere_cons]

theorem Payment.payees_paid {p : Payment} (hsplits : p.Splits) :
    paidWhere kind p.payees = askedWhere kind p.due := by
  unfold Payment.payees Payment.due
  split_ifs with hnode hplain
  · rw [paidWhere_cons, askedWhere_cons]
    rfl
  · exact paidWhere_map p.vecSend
  · exact paidWhere_flatMap_split (hsplits.parts (not_eq_true _ ▸ hplain)) p.vecSend

end

section
variable {P : CChainParams} {W : PayingWallet P} {p : Payment} {kind : CScript → Bool}
  {vout vout' : List CTxOut} {nChange nFeeRet nFeeRet' : CAmount}

theorem payeeOutputs_paid {nTotalValue : CAmount} (h : payeeOutputs W p.vecSend p.coinControl
      nTotalValue p.IsFundamentalNodePayment = .ok vout) :
    vout = p.payees ∧ (p.plain = true → p.IsFundamentalNodePayment = false →
      ∀ out ∈ vout, out.IsDust W.minRelayTxFee = false) := by
  unfold payeeOutputs at h
  unfold Payment.payees Payment.plain
  split at h
  next hplain =>
    split at h
    next hnode =>
      rw [hnode, if_pos rfl]
      split at h
      · cases h
      · exact ⟨(Except.ok.inj h).symm, nofun⟩
    next hnode =>
      rw [not_eq_true] at hnode
      rw [hnode, if_neg Bool.false_ne_true, if_pos hplain]
      split at h
      · cases h
      next hdust =>
        obtain rfl := Except.ok.inj h
        refine ⟨rfl, fun _ _ out hout => ?_⟩
        obtain ⟨s, hs, rfl⟩ := mem_map.mp hout
        rw [not_eq_true, any_eq_false] at hdust
        exact not_eq_true _ ▸ hdust s hs
  next hplain =>
    split at h
    next hnode =>
      rw [hnode, if_pos rfl]
      exact ⟨(Except.ok.inj h).symm, nofun⟩
    next hnode =>
      rw [not_eq_true] at hnode
      rw [hnode, if_neg Bool.false_ne_true, if_neg hplain]
      exact ⟨(Except.ok.inj h).symm, fun hyes => absurd hyes hplain⟩

/-! ## The change -/

variable {scriptChange : CScript}

theorem combineChange_paid
    (h : combineChange scriptChange nChange vout = some vout') :
    (∀ kind, paidWhere kind vout' =
        paidWhere kind vout + if kind scriptChange then nChange else 0) ∧
      (0 < nChange → ∀ rate : CFeeRate, (∀ out ∈ vout, out.IsDust rate = false) →
        ∀ out ∈ vout', out.IsDust rate = false) := by
  induction vout generalizing vout' with
  | nil => cases h
  | cons out vout ih =>
    rw [combineChange] at h
    split at h
    next hscript =>
      cases h
      refine ⟨fun kind => ?_, fun hpos rate hclean o ho => ?_⟩
      · rw [paidWhere_cons, paidWhere_cons, hscript]
        split_ifs
        · ring
        · rw [Int.add_zero]
      · rcases mem_cons.mp ho with rfl | ho
        · have hwas := hclean out mem_cons_self
          have hsize : (CTxOut.ser { out with nValue := out.nValue + nChange }).length =
              out.ser.length := by
            simp only [CTxOut.ser, length_append, leInt, leBytes_length]
          unfold CTxOut.IsDust at hwas ⊢
          rw [hsize]
          rw [decide_eq_false_iff_not] at hwas ⊢
          exact fun hless => hwas (Int.lt_trans (Int.lt_add_of_pos_right out.nValue hpos) hless)
        · exact hclean o (mem_cons_of_mem out ho)
    next hscript =>
      obtain ⟨rest, hrest, rfl⟩ := Option.map_eq_some_iff.mp h
      obtain ⟨hpaid, hdust⟩ := ih hrest
      refine ⟨fun kind => ?_, fun hpos rate hclean o ho => ?_⟩
      · rw [paidWhere_cons, paidWhere_cons, hpaid kind, Int.add_assoc]
      · rcases mem_cons.mp ho with rfl | ho
        · exact hclean o mem_cons_self
        · exact hdust hpos rate (fun o ho => hclean o (mem_cons_of_mem out ho)) o ho

theorem paidWhere_insertIdx (out : CTxOut) (n : Fin (vout.length + 1)) :
    paidWhere kind (vout.insertIdx n out) =
      paidWhere kind vout + if kind out.scriptPubKey then out.nValue else 0 := by
  have hperm : (vout.insertIdx n out).Perm (out :: vout) :=
    perm_insertIdx out vout (Nat.le_of_lt_succ n.isLt)
  have hsum : paidWhere kind (vout.insertIdx n out) = paidWhere kind (out :: vout) :=
    ((hperm.filter _).map _).sum_eq
  rw [hsum, paidWhere_cons, Int.add_comm]

/-- What becomes of the change: so much of it goes to a script, and the rest into the fee. -/
structure ChangeGoes (W : PayingWallet P) (vout vout' : List CTxOut)
    (nChange nFeeRet nFeeRet' : CAmount) : Prop where
  paid : ∃ given scriptChange, 0 ≤ given ∧ given + nFeeRet' = nChange + nFeeRet ∧
    ∀ kind, paidWhere kind vout' = paidWhere kind vout + if kind scriptChange then given else 0
  noDust : (∀ out ∈ vout, out.IsDust W.minRelayTxFee = false) →
    ∀ out ∈ vout', out.IsDust W.minRelayTxFee = false

theorem insertChange_goes (hpos : 0 < nChange)
    (h : insertChange W attempt ⟨nChange, scriptChange⟩ vout nFeeRet = (vout', nFeeRet')) :
    ChangeGoes W vout vout' nChange nFeeRet nFeeRet' := by
  unfold insertChange at h
  split at h
  next hdust =>
    cases h
    refine ⟨⟨0, scriptChange, Int.le_refl 0, ?_, fun kind => ?_⟩, fun hclean => hclean⟩
    · show 0 + (nFeeRet + nChange) = nChange + nFeeRet
      ring
    · rw [ite_self, Int.add_zero]
  next hdust =>
    cases h
    refine ⟨⟨nChange, scriptChange, Int.le_of_lt hpos, rfl, fun kind => ?_⟩, fun hclean o ho => ?_⟩
    · exact paidWhere_insertIdx _ _
    · rcases eq_or_mem_of_mem_insertIdx ho with rfl | ho
      · exact not_eq_true _ ▸ hdust
      · exact hclean o ho

/-- **Change is given back or is part of the fee.** -/
theorem addChange_paid (hchange : 0 ≤ nChange)
    (h : addChange W attempt coinControl vout nChange nFeeRet = (vout', nFeeRet')) :
    ChangeGoes W vout vout' nChange nFeeRet nFeeRet' := by
  unfold addChange at h
  split at h
  next hpos =>
    split at h
    next scriptChange hscript =>
      split at h
      next combined hcombine =>
        cases h
        obtain ⟨hpaid, hdust⟩ := combineChange_paid hcombine
        exact ⟨⟨nChange, scriptChange, hchange, rfl, hpaid⟩, hdust hpos W.minRelayTxFee⟩
      next hnone => exact insertChange_goes hpos h
    next hnone => exact insertChange_goes hpos h
  next hpos =>
    cases h
    have hzero : nChange = 0 := Int.le_antisymm (Int.not_lt.mp hpos) hchange
    refine ⟨⟨0, [], Int.le_refl 0, by rw [hzero], fun kind => ?_⟩, fun hclean => hclean⟩
    rw [ite_self, Int.add_zero]

/-! ## An attempt -/

theorem prevout_signInputs {outs : List COutPoint} {vin : List CTxIn}
    (h : signInputs W outs vout = some vin) : vin.map CTxIn.prevout = outs := by
  have hlist : ∀ (l : List (COutPoint × Nat)) (vin : List CTxIn),
      (l.mapM fun out => (W.SignSignature outs vout out.2).map fun scriptSig =>
        (⟨out.1, scriptSig, 0xFFFFFFFF⟩ : CTxIn)) = some vin →
      vin.map CTxIn.prevout = l.map Prod.fst := by
    intro l
    induction l with
    | nil =>
      intro vin h
      cases h
      rfl
    | cons out l ih =>
      intro vin h
      rw [mapM_cons] at h
      obtain ⟨first, hfirst, h⟩ := Option.bind_eq_some_iff.mp h
      obtain ⟨rest, hrest, h⟩ := Option.bind_eq_some_iff.mp h
      cases h
      obtain ⟨scriptSig, -, rfl⟩ := Option.map_eq_some_iff.mp hfirst
      rw [map_cons, map_cons, ih rest hrest]
  rw [hlist _ vin h]
  exact zipIdx_map_fst 0 outs

/-- What is created pays the payment. -/
structure Pays (W : PayingWallet P) (p : Payment) (created : CreatedTransaction) : Prop where
  /-- the inputs are the coins that were selected -/
  inputs : created.vin.map CTxIn.prevout =
    (W.inOrder created.setCoins).map fun coin => ⟨coin.1.tx.hash, coin.2⟩
  /-- what they are worth and the outputs are not is the fee, and what is burnt -/
  conserved : ∑ coin ∈ created.setCoins, WalletCoin.value coin -
    (created.vout.map CTxOut.nValue).sum = created.nFeeRet + p.burnt
  /-- a script gets what is due to it, and one of them the change besides -/
  paid : ∃ nChange scriptChange, 0 ≤ nChange ∧ ∀ script,
    paidWhere (· == script) created.vout =
      askedWhere (· == script) p.due + if scriptChange = script then nChange else 0
  /-- no output is dust, unless the outputs to the payees are not looked at and one of them is -/
  noDust : (p.plain = true ∧ p.IsFundamentalNodePayment = false ∨
      ∀ out ∈ p.payees, out.IsDust W.minRelayTxFee = false) →
    ∀ out ∈ created.vout, 0 < out.nValue ∧ out.IsDust W.minRelayTxFee = false

theorem finishAttempt_done {made created : CreatedTransaction}
    (h : finishAttempt W p attempt made = .done created) : created = made := by
  unfold finishAttempt at h
  dsimp only at h
  split at h
  · cases h
  split at h
  · exact (Attempt.done.inj h).symm
  split at h
  · cases h
  split at h
  · exact (Attempt.done.inj h).symm
  · cases h

variable {created : CreatedTransaction}

/-- **An attempt that will do pays the payment.** -/
theorem tryPayment_pays {nValue : CAmount}
    (hsplits : p.Splits) (hvalue : nValue = (p.vecSend.map Prod.snd).sum)
    (h : tryPayment W p attempt nValue nFeeRet = .done created) : Pays W p created := by
  unfold tryPayment at h
  cases houtputs : payeeOutputs W p.vecSend p.coinControl (nValue + nFeeRet)
      p.IsFundamentalNodePayment with
  | error e =>
    rw [houtputs] at h
    cases h
  | ok payees =>
    obtain ⟨rfl, hclean⟩ := payeeOutputs_paid houtputs
    rw [houtputs] at h
    dsimp only at h
    split at h
    · cases h
    next hfound =>
      rw [not_eq_true', not_eq_false] at hfound
      obtain ⟨hworth, henough⟩ := SelectCoins_found hfound
      generalize SelectCoins W attempt (nValue + nFeeRet) p.coinControl p.coin_type p.useIX =
        coins at hfound hworth henough h
      -- what is left over is not negative, and denominated coins leave it all to the fee
      have hover : ∃ nFeeRet' nChange', (if p.coin_type = .ONLY_DENOMINATED then
          (nFeeRet + (coins.nValueRet - nValue - nFeeRet), 0)
          else (nFeeRet, coins.nValueRet - nValue - nFeeRet)) = (nFeeRet', nChange') ∧
          0 ≤ nChange' ∧ nChange' + nFeeRet' = coins.nValueRet - nValue := by
        have hleft : 0 ≤ coins.nValueRet - nValue - nFeeRet := by linarith
        split_ifs
        · exact ⟨_, _, rfl, Int.le_refl 0, by ring⟩
        · exact ⟨_, _, rfl, hleft, by ring⟩
      obtain ⟨nFeeRet₁, nChange₁, hsplit, hchange, hsum⟩ := hover
      rw [hsplit] at h
      cases hadd : addChange W attempt p.coinControl p.payees nChange₁ nFeeRet₁ with
      | mk vout nFeeRet₂ =>
        rw [hadd] at h
        obtain ⟨⟨given, scriptChange, hgiven, hgoes, hpaid⟩, hdust⟩ := addChange_paid hchange hadd
        split at h
        · cases h
        next vin hsign =>
          obtain rfl := finishAttempt_done h
          refine ⟨prevout_signInputs hsign, ?_, ⟨given, scriptChange, hgiven, ?_⟩, ?_⟩
          · have hall := hpaid fun _ => true
            rw [paidWhere_all, Payment.payees_paid hsplits, askedWhere_all, if_pos rfl] at hall
            rw [hworth, hall]
            unfold Payment.burnt
            rw [← hvalue]
            linarith
          · intro script
            rw [← Payment.payees_paid hsplits]
            refine (hpaid _).trans ?_
            congr 1
            simp only [beq_iff_eq]
          · intro hcond out hout
            have hnot : out.IsDust W.minRelayTxFee = false := by
              rcases hcond with ⟨hplain, hordinary⟩ | hpayees
              · exact hdust (hclean hplain hordinary) out hout
              · exact hdust hpayees out hout
            exact ⟨CTxOut.pos_of_not_dust W.minRelayTxFee_pos hnot, hnot⟩

theorem paymentLoop_done {nValue : CAmount} {fuel attempt : Nat}
    (h : paymentLoop W p nValue fuel attempt nFeeRet = some (.ok created)) :
    ∃ attempt nFeeRet, tryPayment W p attempt nValue nFeeRet = .done created := by
  induction fuel generalizing attempt nFeeRet with
  | zero => cases h
  | succ fuel ih =>
    rw [paymentLoop] at h
    split at h
    · cases h
    next made hmade =>
      obtain rfl := Except.ok.inj (Option.some.inj h)
      exact ⟨attempt, nFeeRet, hmade⟩
    · exact ih h

theorem sumAmounts_eq {nValue total : CAmount}
    (h : sumAmounts vecSend nValue = some total) : total = nValue + (vecSend.map Prod.snd).sum := by
  induction vecSend generalizing nValue with
  | nil =>
    rw [sumAmounts] at h
    split at h
    · cases h
    · rw [← Option.some.inj h]
      exact (Int.add_zero nValue).symm
  | cons s vecSend ih =>
    rw [sumAmounts] at h
    split at h
    · cases h
    · rw [ih h, map_cons, sum_cons, Int.add_assoc]

end

/-- **What a payment pays.**  However many attempts there are, and whatever the wallet draws. -/
theorem CreateTransaction_pays {P : CChainParams} (W : PayingWallet P) (p : Payment)
    (hsplits : p.Splits) (fuel : Nat) (created : CreatedTransaction)
    (h : CreateTransaction W p fuel = some (.ok created)) : Pays W p created := by
  unfold CreateTransaction at h
  dsimp only at h
  split at h
  · cases h
  next nValue hvalue =>
    split at hvalue
    · cases hvalue
    · have hsum := sumAmounts_eq hvalue
      rw [Int.zero_add] at hsum
      obtain ⟨attempt, nFeeRet, hdone⟩ := paymentLoop_done h
      -- the fee that is asked for is no matter here
      obtain ⟨hinputs, hconserved, hpaid, hdust⟩ :=
        tryPayment_pays (p := { p with
          nFeePay := if p.useIX && decide (p.nFeePay < CENT) then CENT else p.nFeePay })
          hsplits hsum hdone
      exact ⟨hinputs, hconserved, hpaid, hdust⟩

namespace PayingWallet

/-! ### A payment for a prosperitynode -/

def savedTx : CWalletTx := ⟨⟨7, 1, [⟨⟨6, 0⟩, [], 0xFFFFFFFF⟩], [⟨3000 * COIN, [0x51]⟩], 0⟩, true⟩

/-- A wallet with one coin, whose signatures are empty. -/
noncomputable def savings : PayingWallet mainParams where
  AvailableCoins _ _ _ :=
    { vCoins := [⟨savedTx, 0, 8, true, by decide⟩]
      once := by decide
      inRange := by decide }
  GetInputObfuscationRounds _ := 0
  nZeromintPercentage := 10
  bSpendZeroConfChange := true
  choices _ _ := CoinSelection.plainChoices
  inOrder setCoins := if setCoins = {(savedTx, 0)} then [(savedTx, 0)] else setCoins.toList
  inOrder_once setCoins := by
    split_ifs
    · exact nodup_singleton _
    · exact setCoins.nodup_toList
  inOrder_all setCoins := by
    split_ifs with h
    · rw [h]
      rfl
    · exact setCoins.toList_toFinset
  reservedScript _ := [0x53]
  GetRandInt _ _ := 0
  SignSignature _ _ _ := some []
  fSendFreeTransactions := false
  priorityEnough _ _ _ := false
  GetMinimumFee _ := 20000
  minRelayTxFee := ⟨10000⟩
  minRelayTxFee_pos := by decide

def nodePayment : Payment where
  vecSend := [([0x52], 2500 * COIN)]
  coinControl := none
  coin_type := .ALL_COINS
  useIX := false
  nFeePay := 0
  IsFundamentalNodePayment := true

/-- The second attempt has the fee. -/
def nodeCreated : CreatedTransaction where
  setCoins := {(savedTx, 0)}
  vin := [⟨⟨7, 0⟩, [], 0xFFFFFFFF⟩]
  vout := [⟨500 * COIN - 20000, [0x53]⟩, ⟨FN_MAGIC_AMOUNT, [0x52]⟩]
  nFeeRet := 20000

theorem CreateTransaction_nodePayment :
    CreateTransaction savings nodePayment 2 = some (.ok nodeCreated) :=
  rfl

theorem nodeCreated_pays : Pays savings nodePayment nodeCreated :=
  CreateTransaction_pays savings nodePayment nofun 2 nodeCreated CreateTransaction_nodePayment

/-- The inputs have 2500 more than the outputs and the fee, and the payee does not have them. -/
theorem nodeCreated_not_all_fee :
    CreateTransaction savings nodePayment 2 = some (.ok nodeCreated) ∧
      ∑ coin ∈ nodeCreated.setCoins, WalletCoin.value coin -
          (nodeCreated.vout.map CTxOut.nValue).sum ≠ nodeCreated.nFeeRet ∧
      paidWhere (· == [0x52]) nodeCreated.vout ≠ askedWhere (· == [0x52]) nodePayment.vecSend :=
  ⟨CreateTransaction_nodePayment, by decide, by decide⟩

end PayingWallet

end Divitae
