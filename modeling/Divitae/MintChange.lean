/-
# `MintChange` — the mints that are selected, and the change they give

    IsChange   what `getChange` makes of an amount
    Settled    a map of coins that are held, with the number of coins in its change
    MintsSelected    a selection of different unused mints with at least the target
    Exact      one with the target, of at most so many mints

`minimizeChange` either keeps the map it is given or settles another one with fewer coins in the
change, so `calculateChange` settles one on every path (`ends_calculateChange`).  A map without
coins in its change is not used, so what is used is above the target.
-/
import Divitae.SelectedMints

namespace Divitae

open CoinDenomination Fuel List Function DenomMap

/-! ## Change -/

/-- The change of an amount: all whole coins of it, and none of a negative one. -/
structure IsChange (amount : CAmount) (change : DenomMap) : Prop where
  given : Ends (fun fuel => getChange fuel amount) (· = change)
  nonneg : ∀ d ∈ zerocoinDenomList, 0 ≤ change d
  all : amount < totalOf change + COIN
  within : totalOf change ≤ amount ∨ ∀ d ∈ zerocoinDenomList, change d = 0

theorem number_le_totalOf {m : DenomMap} (hm : ∀ d ∈ zerocoinDenomList, 0 ≤ m d) :
    getNumberOfCoinsUsed m ≤ totalOf m :=
  Change.number_le hm fun _ hd => toAmount_pos hd

theorem IsChange.pos {amount : CAmount} {change : DenomMap} (h : IsChange amount change)
    (hcoins : getNumberOfCoinsUsed change ≠ 0) :
    0 < amount ∧ 0 < getNumberOfCoinsUsed change ∧ totalOf change ≤ amount := by
  have hnumber : 0 < getNumberOfCoinsUsed change :=
    lt_of_le_of_ne (Change.number_nonneg h.nonneg) (Ne.symm hcoins)
  rcases h.within with hwithin | hnone
  · have hle := number_le_totalOf h.nonneg
    exact ⟨lt_of_lt_of_le hnumber (le_trans hle hwithin), hnumber, hwithin⟩
  · have hzero : getNumberOfCoinsUsed change = getNumberOfCoinsUsed zero :=
      Change.number_congr hnone
    exact absurd (hzero.trans (by decide)) hcoins

/-- What the loops of `getChange` keep, with these denominations to come. -/
structure Changing (amount : CAmount) (coins : List CoinDenomination) (s : Spending) : Prop where
  known : ∀ d ∈ coins, d ∈ zerocoinDenomList
  nonneg : ∀ d ∈ zerocoinDenomList, 0 ≤ s.mapUsed d
  left : s.nRemainingValue = amount - totalOf s.mapUsed
  within : 0 ≤ s.nRemainingValue ∨ ∀ d ∈ zerocoinDenomList, s.mapUsed d = 0
  low : ZQ_ONE ∉ coins → s.nRemainingValue < COIN

theorem inc_nonneg {m : DenomMap} {d : CoinDenomination}
    (h : ∀ d ∈ zerocoinDenomList, 0 ≤ m d) : ∀ d' ∈ zerocoinDenomList, 0 ≤ m.inc d d' := by
  intro d' hd'
  rw [inc, update_apply]
  split_ifs with heq
  · exact le_trans (h d (heq ▸ hd')) (Int.le_add_one (le_refl _))
  · exact h d' hd'

theorem ends_getChange (amount : CAmount) :
    Ends (fun fuel => getChange fuel amount) (IsChange amount) := by
  have hloop : Ends (fun fuel => zerocoinDenomList.reverse.foldlM (fun s coin =>
        doWhile (Spending.canChange coin)
          (fun s => if Spending.canChange coin s then s.use coin else s) fuel s)
        ⟨.zero, amount⟩) (Changing amount []) := by
    refine ends_foldlM (fun coin coins s hs => ?_)
      ⟨by decide, fun _ _ => le_refl 0, ?_, .inr fun _ _ => rfl, fun h => absurd (by decide) h⟩
    · have hcoin := hs.known coin mem_cons_self
      refine (@ends_while _ _ _ (Changing amount (coin :: coins))
        (fun s => s.nRemainingValue.toNat) (fun s hs hcan => ?_) s hs).mono ?_
      · have hfits : coin.toAmount ≤ s.nRemainingValue := of_decide_eq_true hcan
        have hpos := toAmount_pos hcoin
        refine ⟨⟨hs.known, inc_nonneg hs.nonneg, ?_, .inl (sub_nonneg.mpr hfits), fun hone => ?_⟩,
          ?_⟩
        · show s.nRemainingValue - coin.toAmount = amount - totalOf (s.mapUsed.inc coin)
          rw [totalOf_inc hcoin, hs.left]
          ring
        · exact lt_of_le_of_lt (sub_le_self _ hpos.le) (hs.low hone)
        · exact (Int.toNat_lt_toNat (lt_of_lt_of_le hpos hfits)).mpr (sub_lt_self _ hpos)
      · rintro s ⟨hs, hcan⟩
        have hless : s.nRemainingValue < coin.toAmount := not_le.mp (of_decide_eq_false hcan)
        refine ⟨fun d hd => hs.known d (mem_cons_of_mem coin hd), hs.nonneg, hs.left,
          hs.within, fun hone => ?_⟩
        by_cases hlast : ZQ_ONE = coin
        · rw [← hlast] at hless
          exact hless
        · exact hs.low fun hmem => (mem_cons.mp hmem).elim hlast hone
    · rw [totalOf_zero, sub_zero]
  have hknown := (Ends.map (R := fun change => ∃ s, Changing amount [] s ∧ s.mapUsed = change) hloop
    fun s hs => ⟨s, hs, rfl⟩).known
  refine hknown.mono ?_
  rintro _ ⟨⟨s, hs, rfl⟩, hgiven⟩
  have hlow := hs.low not_mem_nil
  have hleft := hs.left
  exact ⟨hgiven, hs.nonneg, by linarith, hs.within.imp (fun h => by linarith) id⟩

/-! ## Coins above the target -/

/-- The map of `u` has no more than is held, and the amounts go with it. -/
structure Holds (held : DenomMap) (nValueTarget : CAmount) (u : CoinsUsed) : Prop where
  fits : ∀ d ∈ zerocoinDenomList, 0 ≤ u.mapOfDenomsUsed d ∧ u.mapOfDenomsUsed d ≤ held d
  amount : u.AmountUsed = totalOf u.mapOfDenomsUsed
  left : u.nRemainingValue = nValueTarget - u.AmountUsed

section
variable {held : DenomMap} {nValueTarget : CAmount} {u : CoinsUsed} {denom : CoinDenomination}

theorem holds_start (hheld : ∀ d ∈ zerocoinDenomList, 0 ≤ held d) :
    Holds held nValueTarget (.start nValueTarget) :=
  ⟨fun d hd => ⟨le_refl 0, hheld d hd⟩, totalOf_zero.symm, (sub_zero _).symm⟩

theorem Holds.use (hu : Holds held nValueTarget u) (hdenom : denom ∈ zerocoinDenomList)
    (hless : u.mapOfDenomsUsed denom < held denom) : Holds held nValueTarget (u.use denom) := by
  refine ⟨fun d hd => ?_, ?_, ?_⟩
  · refine ⟨inc_nonneg (fun d hd => (hu.fits d hd).1) d hd, ?_⟩
    show u.mapOfDenomsUsed.inc denom d ≤ held d
    rw [inc, update_apply]
    split_ifs with heq
    · rw [heq]
      exact hless
    · exact (hu.fits d hd).2
  · show u.AmountUsed + denom.toAmount = totalOf (u.mapOfDenomsUsed.inc denom)
    rw [totalOf_inc hdenom, hu.amount]
  · show u.nRemainingValue - denom.toAmount = nValueTarget - (u.AmountUsed + denom.toAmount)
    rw [hu.left, sub_sub]

def unspent (held : DenomMap) (denom : CoinDenomination) (u : CoinsUsed) : Nat :=
  (held denom - u.mapOfDenomsUsed denom).toNat

theorem unspent_use (hless : u.mapOfDenomsUsed denom < held denom) :
    unspent held denom (u.use denom) < unspent held denom u := by
  refine (Int.toNat_lt_toNat (sub_pos.mpr hless)).mpr ?_
  show held denom - u.mapOfDenomsUsed.inc denom denom < held denom - u.mapOfDenomsUsed denom
  rw [inc, update_self]
  exact sub_lt_sub_left (Int.lt_succ _) _

theorem ends_usedBelow (nextToMaxDenom : CoinDenomination)
    (hheld : ∀ d ∈ zerocoinDenomList, 0 ≤ held d) :
    Ends (fun fuel => usedBelow fuel nextToMaxDenom nValueTarget held)
      (Holds held nValueTarget) := by
  refine (@ends_foldlM _ _ _ (fun coins u => (∀ d ∈ coins, d ∈ zerocoinDenomList) ∧
    Holds held nValueTarget u) ?_ _ _ ⟨by decide, holds_start hheld⟩).mono fun _ h => h.2
  rintro denom coins u ⟨hknown, hu⟩
  have hdenom := hknown denom mem_cons_self
  have hrest : ∀ d ∈ coins, d ∈ zerocoinDenomList := fun d hd => hknown d (mem_cons_of_mem denom hd)
  split_ifs
  · refine (@ends_while _ _ _ (Holds held nValueTarget) (unspent held denom) (fun u hu hcan => ?_) u
      hu).mono fun u hu => ⟨hrest, hu.1⟩
    have hless := of_decide_eq_true (Bool.and_eq_true_iff.mp hcan).2
    exact ⟨hu.use hdenom hless, unspent_use hless⟩
  · exact ends_pure ⟨hrest, hu⟩

theorem holds_fillUp (hu : Holds held nValueTarget u) :
    Holds held nValueTarget
      ((Loop.forEach (CoinsUsed.fillUp held) u zerocoinDenomList).elim id id) := by
  have hstep : ∀ (past : List CoinDenomination) denom, denom ∈ zerocoinDenomList → ∀ u,
      Holds held nValueTarget u →
      (∃ u', CoinsUsed.fillUp held u denom = .inl u' ∧ Holds held nValueTarget u') ∨
        ∃ u', CoinsUsed.fillUp held u denom = .inr u' ∧ Holds held nValueTarget u' := by
    intro _ denom hdenom u hu
    have hmore : Holds held nValueTarget
        (if u.nRemainingValue < denom.toAmount ∧ u.mapOfDenomsUsed denom < held denom then
          u.use denom else u) := by
      split_ifs with hcan
      · exact hu.use hdenom hcan.2
      · exact hu
    rw [CoinsUsed.fillUp]
    generalize (if u.nRemainingValue < denom.toAmount ∧ u.mapOfDenomsUsed denom < held denom then
      u.use denom else u) = u' at hmore ⊢
    split_ifs
    · exact .inr ⟨u', rfl, hmore⟩
    · exact .inl ⟨u', rfl, hmore⟩
  rcases @Loop.forEach_inv _ _ _ _ u (fun _ => Holds held nValueTarget)
    (Holds held nValueTarget) [] _ hstep hu with ⟨u', hend, hu'⟩ | ⟨u', hend, hu'⟩
  · rw [hend]
    exact hu'
  · rw [hend]
    exact hu'

theorem ends_removeOverlap {o : Overlap}
    (hfits : ∀ d ∈ zerocoinDenomList, 0 ≤ o.mapOfDenomsUsed d ∧ o.mapOfDenomsUsed d ≤ held d)
    (hamount : o.AmountUsed = totalOf o.mapOfDenomsUsed) :
    Ends (fun fuel => removeOverlap fuel o) fun o' =>
      (∀ d ∈ zerocoinDenomList, 0 ≤ o'.mapOfDenomsUsed d ∧ o'.mapOfDenomsUsed d ≤ held d) ∧
        o'.AmountUsed = totalOf o'.mapOfDenomsUsed := by
  refine (@ends_foldlM _ _ _ (fun (coins : List CoinDenomination) (o : Overlap) =>
    (∀ d ∈ coins, d ∈ zerocoinDenomList) ∧
    (∀ d ∈ zerocoinDenomList, 0 ≤ o.mapOfDenomsUsed d ∧ o.mapOfDenomsUsed d ≤ held d) ∧
    o.AmountUsed = totalOf o.mapOfDenomsUsed) ?_ _ _
    ⟨fun _ hd => hd, hfits, hamount⟩).mono fun _ h => h.2
  rintro denom coins o ⟨hknown, hfits, hamount⟩
  have hdenom := hknown denom mem_cons_self
  refine (@ends_while _ _ _ (fun (o : Overlap) =>
    (∀ d ∈ zerocoinDenomList, 0 ≤ o.mapOfDenomsUsed d ∧ o.mapOfDenomsUsed d ≤ held d) ∧
    o.AmountUsed = totalOf o.mapOfDenomsUsed) (fun o => (o.mapOfDenomsUsed denom).toNat) ?_ o
    ⟨hfits, hamount⟩).mono fun o h => ⟨fun d hd => hknown d (mem_cons_of_mem denom hd), h.1⟩
  rintro o ⟨hfits, hamount⟩ hboth
  have hused := (Bool.and_eq_true_iff.mp hboth).2
  have hpos : 0 < o.mapOfDenomsUsed denom :=
    lt_of_le_of_ne (hfits denom hdenom).1 (Ne.symm (bne_iff_ne.mp hused))
  refine ⟨⟨fun d hd => ?_, ?_⟩, ?_⟩
  · show 0 ≤ o.mapOfDenomsUsed.dec denom d ∧ o.mapOfDenomsUsed.dec denom d ≤ held d
    rw [dec, update_apply]
    split_ifs with heq
    · rw [heq]
      exact ⟨Int.le_sub_one_of_lt hpos,
        le_trans (sub_le_self _ Int.one_nonneg) (hfits denom hdenom).2⟩
    · exact hfits d hd
  · show o.AmountUsed - denom.toAmount = totalOf (o.mapOfDenomsUsed.dec denom)
    rw [totalOf_dec hdenom, hamount]
  · refine (Int.toNat_lt_toNat hpos).mpr ?_
    show o.mapOfDenomsUsed.dec denom denom < o.mapOfDenomsUsed denom
    rw [dec, update_self]
    exact sub_one_lt _

/-- A map of coins that are held, and the number of coins in its change. -/
structure Settled (held : DenomMap) (nValueTarget : CAmount) (nChangeCount : Int) (m : DenomMap) :
    Prop where
  fits : ∀ d ∈ zerocoinDenomList, 0 ≤ m d ∧ m d ≤ held d
  change : ∃ change, IsChange (totalOf m - nValueTarget) change ∧
    nChangeCount = getNumberOfCoinsUsed change

/-- **`minimizeChange` keeps the map, or settles another.** -/
theorem ends_minimizeChange (nMaxNumberOfSpends nChangeCount : Int)
    (nextToMaxDenom : CoinDenomination) (saved : DenomMap)
    (hheld : ∀ d ∈ zerocoinDenomList, 0 ≤ held d) :
    Ends (fun fuel => minimizeChange fuel nMaxNumberOfSpends nChangeCount nextToMaxDenom
        nValueTarget held saved) fun new =>
      new = (nChangeCount, saved) ∨ Settled held nValueTarget new.1 new.2 := by
  refine (ends_usedBelow nextToMaxDenom hheld).bind fun below hbelow => ?_
  have hu := holds_fillUp hbelow
  generalize (Loop.forEach (CoinsUsed.fillUp held) below zerocoinDenomList).elim id id = u at hu ⊢
  refine (ends_getChange (u.AmountUsed - nValueTarget)).bind fun mapAltChange _ => ?_
  refine (@ends_removeOverlap held ⟨u.mapOfDenomsUsed, mapAltChange, u.AmountUsed⟩ hu.fits
    hu.amount).bind ?_
  rintro o ⟨hfits, hamount⟩
  rw [hamount]
  refine (ends_getSpendCoins_exact hfits).bind ?_
  rintro m ⟨hm, hsame⟩
  refine (ends_getChange (totalOf o.mapOfDenomsUsed - nValueTarget)).bind fun change hchange => ?_
  split_ifs
  · exact ends_pure (.inr ⟨hm, change, hsame ▸ hchange, rfl⟩)
  · exact ends_pure (.inl rfl)

theorem ends_usedFromTop {coins : List CoinDenomination}
    (hknown : ∀ d ∈ coins, d ∈ zerocoinDenomList)
    (hstart : ∀ d ∈ coins, u.mapOfDenomsUsed d = 0) (hnodup : coins.Nodup)
    (hu : Holds held nValueTarget u) :
    Ends (fun fuel => usedFromTop fuel held coins u) (Holds held nValueTarget) := by
  induction coins generalizing u with
  | nil => exact ends_pure hu
  | cons denom coins ih =>
    obtain ⟨hnot, hrest⟩ := nodup_cons.mp hnodup
    have hdenom := hknown denom mem_cons_self
    -- the body is entered with a coin to spend, or with none of the denomination
    have hbody : ∀ u' : CoinsUsed, (Holds held nValueTarget u' ∧
        ∀ d ∈ coins, u'.mapOfDenomsUsed d = 0) →
        (held denom ≠ 0 → u'.mapOfDenomsUsed denom < held denom) →
        held denom ≠ 0 → Holds held nValueTarget (u'.use denom) ∧
          ∀ d ∈ coins, (u'.use denom).mapOfDenomsUsed d = 0 := by
      rintro u' ⟨hu', hzero⟩ hless hsome
      refine ⟨hu'.use hdenom (hless hsome), fun d hd => ?_⟩
      exact (update_of_ne (ne_of_mem_of_not_mem hd hnot) _ _).trans (hzero d hd)
    refine Ends.bind (P := fun u' => Holds held nValueTarget u' ∧
      ∀ d ∈ coins, u'.mapOfDenomsUsed d = 0) ?_ ?_
    · refine ends_doWhile (I := fun u' => (Holds held nValueTarget u' ∧
          ∀ d ∈ coins, u'.mapOfDenomsUsed d = 0) ∧
          (held denom ≠ 0 → u'.mapOfDenomsUsed denom < held denom))
        (unspent held denom) ?_ ?_ ⟨⟨hu, fun d hd => hstart d (mem_cons_of_mem denom hd)⟩,
          fun hsome => ?_⟩
      · rintro u' ⟨hu', hless⟩ hon
        split_ifs at hon ⊢ with hcan
        · have hmore := of_decide_eq_true (Bool.and_eq_true_iff.mp hon).2
          exact ⟨⟨hbody u' hu' hless hcan.1, fun _ => hmore⟩, unspent_use (hless hcan.1)⟩
        · obtain ⟨hpos, hmore⟩ := Bool.and_eq_true_iff.mp hon
          have hsome : 0 < held denom :=
            lt_of_le_of_lt (hu'.1.fits denom hdenom).1 (of_decide_eq_true hmore)
          exact absurd ⟨hsome.ne', of_decide_eq_true hpos⟩ hcan
      · rintro u' ⟨hu', hless⟩ -
        split_ifs with hcan
        · exact hbody u' hu' hless hcan.1
        · exact hu'
      · rw [hstart denom mem_cons_self]
        exact lt_of_le_of_ne (le_trans (hu.fits denom hdenom).1 (hu.fits denom hdenom).2)
          (Ne.symm hsome)
    · rintro u' ⟨hu', hzero⟩
      split_ifs
      · exact ends_pure hu'
      · exact ih (fun d hd => hknown d (mem_cons_of_mem denom hd)) hzero hrest hu'

/-- **`calculateChange` settles a map.** -/
theorem ends_calculateChange (nMaxNumberOfSpends : Int) (fMinimizeChange : Bool)
    (hheld : ∀ d ∈ zerocoinDenomList, 0 ≤ held d) :
    Ends (fun fuel => calculateChange fuel nMaxNumberOfSpends fMinimizeChange nValueTarget held)
      fun new => Settled held nValueTarget new.1 new.2 := by
  simp only [calculateChange]
  cases hone : zerocoinDenomList.find? fun denom =>
      decide (nValueTarget < denom.toAmount) && held denom != 0 with
  | some denom =>
    -- one coin is enough
    have hdenom := mem_of_find?_eq_some hone
    have hfound := @List.find?_some _ _ _ _ hone
    obtain ⟨-, hsome⟩ := Bool.and_eq_true_iff.mp hfound
    have hless : (CoinsUsed.start nValueTarget).mapOfDenomsUsed denom < held denom :=
      lt_of_le_of_ne (hheld denom hdenom) (Ne.symm (bne_iff_ne.mp hsome))
    have hu := (@holds_start held nValueTarget hheld).use hdenom hless
    have hamount : totalOf (zero.inc denom) = denom.toAmount := by
      rw [totalOf_inc hdenom, totalOf_zero, zero_add]
    refine (ends_getChange (denom.toAmount - nValueTarget)).bind fun change hchange => ?_
    have hsettled : Settled held nValueTarget (getNumberOfCoinsUsed change)
        (zero.inc denom) :=
      ⟨hu.fits, change, hamount.symm ▸ hchange, rfl⟩
    split_ifs
    · refine (ends_minimizeChange nMaxNumberOfSpends (getNumberOfCoinsUsed change)
        (getNextLowerDenomHeld denom held) (zero.inc denom) hheld).bind ?_
      rintro new hnew
      split_ifs with hfewer
      · refine ends_pure (hnew.resolve_left fun hsame => ?_)
        rw [hsame] at hfewer
        exact lt_irrefl _ hfewer
      · exact ends_pure hsettled
    · exact ends_pure hsettled
  | none =>
    refine (ends_usedFromTop (fun d hd => mem_reverse.mp hd) (fun _ _ => rfl)
      denom_chain.nodup (holds_start hheld)).bind fun u hu => ?_
    refine (ends_getChange (u.AmountUsed - nValueTarget)).bind fun change hchange => ?_
    have hsettled : Settled held nValueTarget (getNumberOfCoinsUsed change) u.mapOfDenomsUsed :=
      ⟨hu.fits, change, hu.amount ▸ hchange, rfl⟩
    refine (ends_minimizeChange nMaxNumberOfSpends (getNumberOfCoinsUsed change)
      (getMaxDenomHeld held) u.mapOfDenomsUsed hheld).bind fun new hnew => ?_
    split_ifs
    · exact ends_pure hsettled
    · rcases hnew with rfl | hnew
      · exact ends_pure hsettled
      · exact ends_pure hnew

end

/-! ## The selection -/

def valueOf (mints : List CMintMeta) : CAmount := (mints.map fun mint => mint.denom.toAmount).sum

/-- Different unused mints with at least the target, and the number of coins in the change. -/
structure MintsSelected (listMints : List CMintMeta) (nValueTarget : CAmount) (r : MintSelection) :
    Prop where
  distinct : r.vSelectedMints.Subperm (unusedMints listMints)
  value : valueOf r.vSelectedMints = r.nSelectedValue
  enough : nValueTarget ≤ r.nSelectedValue
  exact : r.nSelectedValue = nValueTarget → r.nCoinsReturned = 0
  change : r.nSelectedValue ≠ nValueTarget →
    ∃ change, IsChange (r.nSelectedValue - nValueTarget) change ∧
      totalOf change ≤ r.nSelectedValue - nValueTarget ∧
      r.nCoinsReturned = getNumberOfCoinsUsed change

/-- Different unused mints of the target, not more than the maximum. -/
def IsExact (listMints : List CMintMeta) (nValueTarget : CAmount) (nMaxNumberOfSpends : Int)
    (mints : List CMintMeta) : Prop :=
  mints.Subperm (unusedMints listMints) ∧ (mints.length : Int) ≤ nMaxNumberOfSpends ∧
    valueOf mints = nValueTarget

section
variable {listMints : List CMintMeta} {held : DenomMap} {nValueTarget : CAmount}

theorem ends_selectWithChange (nSelectedValue : CAmount) (nMaxNumberOfSpends nNeededSpends : Int)
    (fMinimizeChange : Bool) (hheld : ∀ d ∈ zerocoinDenomList, held d = unusedHeld listMints d) :
    Ends (fun fuel => selectWithChange fuel nValueTarget nSelectedValue nMaxNumberOfSpends
        fMinimizeChange listMints held nNeededSpends) fun r =>
      r.vSelectedMints ≠ [] → MintsSelected listMints nValueTarget r := by
  refine (ends_calculateChange nMaxNumberOfSpends fMinimizeChange fun d hd => ?_).bind ?_
  · rw [hheld d hd]
    exact unusedHeld_nonneg
  rintro ⟨nCoinsReturned, m⟩ ⟨hfits, change, hchange, hcount⟩
  split_ifs with hnone
  · exact ends_pure fun h => absurd rfl h
  · obtain ⟨hpos, -, hwithin⟩ := hchange.pos (hcount ▸ hnone)
    have hm : ∀ d ∈ zerocoinDenomList, 0 ≤ m d ∧ m d ≤ unusedHeld listMints d :=
      fun d hd => hheld d hd ▸ hfits d hd
    refine (ends_getSpends hm).bind ?_
    rintro _ rfl
    refine ends_pure fun _ => ⟨pick_subperm denom_chain.nodup, ?_, (sub_pos.mp hpos).le,
      fun hsame => absurd hsame (sub_pos.mp hpos).ne', fun _ => ⟨change, hchange, hwithin, hcount⟩⟩
    exact (pick_value _ fun d hd => hm d (mem_reverse.mp hd)).1.trans Change.total_reverse

/-- **What is selected.** -/
theorem SelectMintsFromList_spec (nValueTarget nSelectedValue : CAmount)
    (nMaxNumberOfSpends : Int) (fMinimizeChange : Bool) (listMints : List CMintMeta)
    (mapOfDenomsHeld : DenomMap)
    (hheld : ∀ d ∈ zerocoinDenomList, mapOfDenomsHeld d = unusedHeld listMints d) :
    Ends (fun fuel => SelectMintsFromList fuel nValueTarget nSelectedValue nMaxNumberOfSpends
        fMinimizeChange listMints mapOfDenomsHeld) fun r =>
      (r.vSelectedMints ≠ [] → MintsSelected listMints nValueTarget r) ∧
        ((∃ mints, IsExact listMints nValueTarget nMaxNumberOfSpends mints) →
          IsExact listMints nValueTarget nMaxNumberOfSpends r.vSelectedMints) := by
  obtain ⟨hideal, hexact⟩ := @getIdealSpends_spec listMints nValueTarget
  simp only [SelectMintsFromList]
  generalize hm : getIdealSpends nValueTarget listMints = ideal at hideal hexact ⊢
  have hheld0 : ∀ d ∈ zerocoinDenomList.reverse, 0 ≤ unusedHeld listMints d :=
    fun _ _ => unusedHeld_nonneg
  -- an exact set of mints gives an exact map, so the greedy one is exact with no more mints
  have hgreedy : ∀ mints, IsExact listMints nValueTarget nMaxNumberOfSpends mints →
      ideal.2 = true ∧ getNumberOfCoinsUsed ideal.1 ≤ nMaxNumberOfSpends := by
    rintro mints ⟨hdistinct, hmany, hvalue⟩
    obtain ⟨used, hused, htotal, hnumber⟩ := denoms_of_mints hdistinct
    obtain ⟨hsame, hfew⟩ := @Change.greedy_exact _ toAmount (unusedHeld listMints) used
      zerocoinDenomList.reverse nValueTarget _ denom_chain
      (fun d hd => (hused d (mem_reverse.mp hd)).2)
      (fun d hd => (hused d (mem_reverse.mp hd)).1)
      (Change.total_reverse.trans (htotal.trans hvalue))
    rw [Change.total_reverse] at hsame
    rw [Change.number_reverse, Change.number_reverse, ← Change.number_congr hideal] at hfew
    exact ⟨hexact.mpr hsame, le_trans hfew (le_trans hnumber hmany)⟩
  have hfits : ∀ d ∈ zerocoinDenomList, 0 ≤ ideal.1 d ∧ ideal.1 d ≤ unusedHeld listMints d := by
    intro d hd
    rw [hideal d hd]
    exact Change.greedy_bounds denom_chain.nodup hheld0 d (mem_reverse.mpr hd)
  split_ifs with hcan
  · refine (ends_getSpends hfits).bind ?_
    rintro _ rfl
    obtain ⟨hvalue, hlength⟩ := @pick_value listMints ideal.1 zerocoinDenomList.reverse
      fun d hd => hfits d (mem_reverse.mp hd)
    rw [Change.total_reverse] at hvalue
    rw [Change.number_reverse] at hlength
    have htotal : totalOf ideal.1 = nValueTarget :=
      (Change.total_congr hideal).trans (hexact.mp hcan)
    split_ifs with hmany
    · refine ends_pure ⟨fun _ => ?_, ?_⟩
      · exact ⟨pick_subperm denom_chain.nodup, hvalue, htotal.ge, fun _ => rfl,
          fun hother => absurd htotal hother⟩
      · rintro ⟨mints, hmints⟩
        exact ⟨pick_subperm denom_chain.nodup, hlength ▸ (hgreedy mints hmints).2,
          hvalue.trans htotal⟩
    · refine (ends_selectWithChange _ nMaxNumberOfSpends _ fMinimizeChange hheld).mono
        fun r hr => ⟨hr, ?_⟩
      rintro ⟨mints, hmints⟩
      refine absurd ?_ hmany
      have hle := (hgreedy mints hmints).2
      have hpos : 0 ≤ nMaxNumberOfSpends := le_trans (Int.natCast_nonneg _) hmints.2.1
      rw [sizeOfMax, if_neg (not_lt.mpr hpos), hlength]
      exact hle
  · refine (ends_selectWithChange _ nMaxNumberOfSpends _ fMinimizeChange hheld).mono
      fun r hr => ⟨hr, ?_⟩
    rintro ⟨mints, hmints⟩
    exact absurd (hgreedy mints hmints).1 hcan

end

namespace MintChange

def mintOf (hashPubcoin : Int) (denom : CoinDenomination) (isUsed : Bool) : CMintMeta :=
  ⟨100, hashPubcoin, hashPubcoin, 0, 2, denom, 1, isUsed, false, true⟩

def wallet : List CMintMeta :=
  [mintOf 1 .ZQ_FIVE false, mintOf 2 .ZQ_ONE false, mintOf 3 .ZQ_ONE true, mintOf 4 .ZQ_TEN false]

/-- Seven need the ten, as one of the ones is used. -/
theorem seven_of_wallet :
    Ends (fun fuel => SelectMintsFromList fuel (7 * COIN) 0 4 true wallet (unusedHeld wallet))
      fun r => (r.vSelectedMints ≠ [] → MintsSelected wallet (7 * COIN) r) ∧
        ((∃ mints, IsExact wallet (7 * COIN) 4 mints) →
          IsExact wallet (7 * COIN) 4 r.vSelectedMints) :=
  SelectMintsFromList_spec (7 * COIN) 0 4 true wallet (unusedHeld wallet) fun _ _ => rfl

example : (SelectMintsFromList 6 (7 * COIN) 0 4 true wallet (unusedHeld wallet)).map
    (fun r => (r.vSelectedMints, r.nSelectedValue, r.nCoinsReturned)) =
      some ([mintOf 4 .ZQ_TEN false], 10 * COIN, 3) := by
  decide +kernel

end MintChange

end Divitae
