/-
# `SelectedMints` — what the selection of mints guarantees

The loops of `Divitae.MintSelection` end, and:

    getSpendCoins, getIdealSpends  take the greedy choice of the coins that are held
    getSpends                      as many different mints of each denomination as the map says
    getChange                      all whole coins of an amount
    minimizeChange, calculateChange  a map of coins that are held, and the number of coins in the
                                     change above the target

The denominations divide each other, so the greedy choice is exact whenever a choice is.
-/
import Divitae.MintSelection

namespace Divitae

open CoinDenomination Fuel List Bool Function Change DenomMap Spending

abbrev totalOf (m : DenomMap) : CAmount := Change.total toAmount m zerocoinDenomList

theorem denomList_nodup : zerocoinDenomList.Nodup := by decide

theorem denom_chain : Change.Chain toAmount zerocoinDenomList.reverse :=
  ⟨by decide, by decide, by decide⟩

theorem toAmount_pos {d : CoinDenomination} (h : d ∈ zerocoinDenomList) : 0 < d.toAmount :=
  denom_chain.pos d (mem_reverse.mpr h)

section
variable {m : DenomMap} {d d' : CoinDenomination}

theorem totalOf_inc (h : d ∈ zerocoinDenomList) : totalOf (m.inc d) = totalOf m + d.toAmount := by
  rw [inc, totalOf, total_update h denomList_nodup]
  ring

theorem totalOf_dec (h : d ∈ zerocoinDenomList) : totalOf (m.dec d) = totalOf m - d.toAmount := by
  rw [dec, totalOf, total_update h denomList_nodup]
  ring

theorem totalOf_zero : totalOf zero = 0 := by decide

end

section
variable {held : DenomMap} {coin : CoinDenomination} {s : Spending}

theorem ends_spendCoin (hcoin : 0 < coin.toAmount) (hstart : s.mapUsed coin = 0)
    (hheld : 0 ≤ held coin) :
    Ends (fun fuel => doWhile (canSpend held coin)
        (fun s => if canSpend held coin s then s.use coin else s) fuel s)
      fun s' =>
        let k := take coin.toAmount (held coin) s.nRemainingValue
        s' = ⟨Function.update s.mapUsed coin k, s.nRemainingValue - k * coin.toAmount⟩ := by
  -- after some rounds `j` coins are taken
  refine (@ends_while _ _ _ (fun s' => ∃ j, 0 ≤ j ∧ j ≤ held coin ∧
      (j = 0 ∨ j * coin.toAmount ≤ s.nRemainingValue) ∧
      s' = ⟨Function.update s.mapUsed coin j, s.nRemainingValue - j * coin.toAmount⟩)
    (fun s' => (held coin - s'.mapUsed coin).toNat) ?_ s ?_).mono ?_
  · rintro _ ⟨j, hj, hjheld, -, rfl⟩ hcan
    rw [canSpend, and_eq_true, decide_eq_true_iff, decide_eq_true_iff] at hcan
    obtain ⟨hfits, hless⟩ := hcan
    dsimp only at hfits hless
    rw [update_self] at hless
    refine ⟨⟨j + 1, by linarith, hless, .inr ?_, ?_⟩, ?_⟩
    · rw [add_mul, one_mul]
      linarith
    · rw [use, inc]
      dsimp only
      rw [update_self, update_idem, add_mul, one_mul, sub_sub]
    · rw [use, inc]
      dsimp only
      rw [update_self, update_self]
      refine (Int.toNat_lt_toNat ?_).mpr ?_ <;> linarith
  · refine ⟨0, le_refl 0, hheld, .inl rfl, ?_⟩
    rw [zero_mul, sub_zero, ← hstart, update_eq_self]
  · rintro _ ⟨⟨j, hj, hjheld, hfits, rfl⟩, hcan⟩
    have hmost : s.nRemainingValue - j * coin.toAmount < coin.toAmount ∨ held coin ≤ j := by
      rw [canSpend, and_eq_false_iff, decide_eq_false_iff_not, decide_eq_false_iff_not] at hcan
      dsimp only at hcan
      rw [update_self] at hcan
      exact hcan.imp not_le.mp not_lt.mp
    rw [← eq_take hcoin hj hjheld hfits hmost]

variable {coins : List CoinDenomination}

theorem ends_spendCoins (hnodup : coins.Nodup)
    (hcoins : ∀ d ∈ coins, 0 < d.toAmount) (hheld : ∀ d ∈ coins, 0 ≤ held d)
    (hstart : ∀ d ∈ coins, s.mapUsed d = 0) :
    Ends (fun fuel => coins.foldlM (fun s coin => doWhile (canSpend held coin)
        (fun s => if canSpend held coin s then s.use coin else s) fuel s) s)
      fun s' => ∀ d, s'.mapUsed d =
        if d ∈ coins then greedy toAmount held coins s.nRemainingValue d
        else s.mapUsed d := by
  induction coins generalizing s with
  | nil => exact ends_pure fun d => (if_neg not_mem_nil).symm
  | cons coin coins ih =>
    obtain ⟨hnot, hrest⟩ := nodup_cons.mp hnodup
    refine (ends_spendCoin (hcoins coin mem_cons_self) (hstart coin mem_cons_self)
      (hheld coin mem_cons_self)).bind ?_
    rintro _ rfl
    refine (ih hrest (fun d hd => hcoins d (mem_cons_of_mem coin hd))
      (fun d hd => hheld d (mem_cons_of_mem coin hd)) fun d hd => ?_).mono ?_
    · dsimp only
      rw [update_of_ne (ne_of_mem_of_not_mem hd hnot)]
      exact hstart d (mem_cons_of_mem coin hd)
    · intro s' hs' d
      rw [hs' d, greedy]
      by_cases hd : d = coin
      · rw [hd, if_neg hnot, if_pos mem_cons_self, update_self]
        exact update_self _ _ _
      · dsimp only
        rw [update_of_ne hd, update_of_ne hd]
        exact if_congr (by rw [mem_cons, or_iff_right hd]) rfl rfl

theorem ends_getSpendCoins (nValueTarget : CAmount)
    (hheld : ∀ d ∈ zerocoinDenomList, 0 ≤ held d) :
    Ends (fun fuel => getSpendCoins fuel nValueTarget held) fun m =>
      ∀ d ∈ zerocoinDenomList,
        m d = greedy toAmount held zerocoinDenomList.reverse nValueTarget d := by
  refine Ends.map (@ends_spendCoins held ⟨.zero, nValueTarget⟩ zerocoinDenomList.reverse
    denom_chain.nodup denom_chain.pos (fun d hd => hheld d (mem_reverse.mp hd))
    fun _ _ => rfl) fun s hs d hd => ?_
  rw [hs d, if_pos (mem_reverse.mpr hd)]

/-- **An amount that some of the coins have is met.** -/
theorem ends_getSpendCoins_exact {used : DenomMap}
    (hused : ∀ d ∈ zerocoinDenomList, 0 ≤ used d ∧ used d ≤ held d) :
    Ends (fun fuel => getSpendCoins fuel (totalOf used) held) fun m =>
      (∀ d ∈ zerocoinDenomList, 0 ≤ m d ∧ m d ≤ held d) ∧ totalOf m = totalOf used := by
  have hheld : ∀ d ∈ zerocoinDenomList, 0 ≤ held d :=
    fun d hd => le_trans (hused d hd).1 (hused d hd).2
  refine (ends_getSpendCoins (totalOf used) hheld).mono fun m hm => ⟨fun d hd => ?_, ?_⟩
  · rw [hm d hd]
    exact greedy_bounds denom_chain.nodup (fun d hd => hheld d (mem_reverse.mp hd)) d
      (mem_reverse.mpr hd)
  · have hexact := (@Change.greedy_exact _ toAmount held used zerocoinDenomList.reverse
      (totalOf used) _ denom_chain (fun d hd => (hused d (mem_reverse.mp hd)).2)
      (fun d hd => (hused d (mem_reverse.mp hd)).1) total_reverse).1
    rw [total_reverse] at hexact
    exact (total_congr hm).trans hexact

end

/-! ## The mints of a list -/

def unusedMints (listMints : List CMintMeta) : List CMintMeta :=
  listMints.filter fun mint => !mint.isUsed

/-- Those of one denomination. -/
def mintsOf (listMints : List CMintMeta) (coin : CoinDenomination) : List CMintMeta :=
  listMints.filter fun mint => !mint.isUsed && decide (coin = mint.denom)

/-- How many there are of each. -/
def unusedHeld (listMints : List CMintMeta) : DenomMap :=
  fun coin => (mintsOf listMints coin).length

section
variable {mint : CMintMeta} {listMints : List CMintMeta} {coin : CoinDenomination}

theorem mintsOf_cons_used (h : mint.isUsed = true) :
    mintsOf (mint :: listMints) coin = mintsOf listMints coin :=
  filter_cons_of_neg (by rw [h]; exact false_ne_true)

theorem mintsOf_cons_other (h : coin ≠ mint.denom) :
    mintsOf (mint :: listMints) coin = mintsOf listMints coin :=
  filter_cons_of_neg (by rw [decide_eq_false h, Bool.and_false]; exact Bool.false_ne_true)

theorem mintsOf_cons_self (h : mint.isUsed = false) :
    mintsOf (mint :: listMints) mint.denom = mint :: mintsOf listMints mint.denom :=
  filter_cons_of_pos (by rw [h, decide_eq_true rfl]; rfl)

theorem unusedHeld_congr {listMints' : List CMintMeta}
    (h : mintsOf listMints coin = mintsOf listMints' coin) :
    unusedHeld listMints coin = unusedHeld listMints' coin := by
  rw [unusedHeld, h, ← unusedHeld]

theorem unusedHeld_nonneg : 0 ≤ unusedHeld listMints coin := Int.natCast_nonneg _

theorem idealMint_unused {s s' : Spending} (hused : mint.isUsed = false)
    (hs : (if coin.toAmount ≤ s.nRemainingValue ∧ coin = mint.denom then s.use coin else s) = s') :
    idealMint coin s mint = if s'.nRemainingValue < coin.toAmount then .inr s' else .inl s' := by
  rw [idealMint, hused, if_neg Bool.false_ne_true]
  subst hs
  rfl

theorem idealMints (hcoin : 0 < coin.toAmount) (s : Spending) :
    let k := take coin.toAmount (unusedHeld listMints coin) s.nRemainingValue
    (Loop.forEach (idealMint coin) s listMints).elim id id =
      ⟨Function.update s.mapUsed coin (s.mapUsed coin + k),
        s.nRemainingValue - k * coin.toAmount⟩ := by
  have hstop : ∀ (s : Spending) (listMints : List CMintMeta), s.nRemainingValue < coin.toAmount →
      s = ⟨Function.update s.mapUsed coin (s.mapUsed coin +
          take coin.toAmount (unusedHeld listMints coin) s.nRemainingValue),
        s.nRemainingValue -
          take coin.toAmount (unusedHeld listMints coin) s.nRemainingValue * coin.toAmount⟩ := by
    intro s listMints hless
    rw [take_of_lt hcoin hless, add_zero, update_eq_self, zero_mul, sub_zero]
  dsimp only
  induction listMints generalizing s with
  | nil =>
    have hnone : take coin.toAmount (unusedHeld [] coin) s.nRemainingValue = 0 :=
      le_antisymm (take_le (le_refl 0)) (take_nonneg _ _ _)
    rw [hnone, add_zero, update_eq_self, zero_mul, sub_zero]
    rfl
  | cons mint listMints ih =>
    cases hused : mint.isUsed with
    | true =>
      have hbody : idealMint coin s mint = .inl s := by rw [idealMint, hused, if_pos rfl]
      rw [Loop.forEach_inl hbody, ih s, unusedHeld_congr (mintsOf_cons_used hused)]
    | false =>
      by_cases hless : s.nRemainingValue < coin.toAmount
      · -- the coin does not fit any more
        have hbody : idealMint coin s mint = .inr s := by
          rw [idealMint_unused hused (if_neg fun h => absurd hless (not_lt.mpr h.1)), if_pos hless]
        rw [Loop.forEach_inr hbody]
        exact hstop s _ hless
      · have hfits := not_lt.mp hless
        by_cases hdenom : coin = mint.denom
        · have hheld : unusedHeld (mint :: listMints) coin =
              ((mintsOf listMints coin).length + 1 : Nat) := by
            rw [unusedHeld, hdenom, mintsOf_cons_self hused, length_cons]
          have hone : ∀ k, (⟨Function.update s.mapUsed coin (s.mapUsed coin + (k + 1)),
                s.nRemainingValue - (k + 1) * coin.toAmount⟩ : Spending) =
              ⟨Function.update (s.use coin).mapUsed coin ((s.use coin).mapUsed coin + k),
                (s.use coin).nRemainingValue - k * coin.toAmount⟩ := by
            intro k
            rw [use, inc]
            dsimp only
            rw [update_self, update_idem, add_mul, one_mul, add_comm k 1,
              add_assoc, sub_sub, add_comm (k * _)]
          rw [hheld, take_succ hcoin hfits, hone]
          by_cases hlast : (s.use coin).nRemainingValue < coin.toAmount
          · have hbody : idealMint coin s mint = .inr (s.use coin) := by
              rw [idealMint_unused hused (if_pos ⟨hfits, hdenom⟩), if_pos hlast]
            rw [Loop.forEach_inr hbody]
            exact hstop (s.use coin) listMints hlast
          · have hbody : idealMint coin s mint = .inl (s.use coin) := by
              rw [idealMint_unused hused (if_pos ⟨hfits, hdenom⟩), if_neg hlast]
            rw [Loop.forEach_inl hbody]
            exact ih (s.use coin)
        · have hbody : idealMint coin s mint = .inl s := by
            rw [idealMint_unused hused (if_neg fun h => hdenom h.2), if_neg hless]
          rw [Loop.forEach_inl hbody, ih s, unusedHeld_congr (mintsOf_cons_other hdenom)]

theorem idealCoins (hnodup : coins.Nodup)
    (hcoins : ∀ d ∈ coins, 0 < d.toAmount) (s : Spending) (hstart : ∀ d ∈ coins, s.mapUsed d = 0) :
    let s' := coins.foldl (fun s coin => (Loop.forEach (idealMint coin) s listMints).elim id id) s
    let m := greedy toAmount (unusedHeld listMints) coins s.nRemainingValue
    (∀ d, s'.mapUsed d = if d ∈ coins then m d else s.mapUsed d) ∧
      s'.nRemainingValue = s.nRemainingValue - total toAmount m coins := by
  induction coins generalizing s with
  | nil => exact ⟨fun d => (if_neg not_mem_nil).symm, (sub_zero _).symm⟩
  | cons coin coins ih =>
    obtain ⟨hnot, hrest⟩ := nodup_cons.mp hnodup
    rw [foldl_cons, idealMints (hcoins coin mem_cons_self),
      hstart coin mem_cons_self, zero_add, greedy]
    generalize take coin.toAmount (unusedHeld listMints coin) s.nRemainingValue = k
    obtain ⟨hmap, hvalue⟩ := ih hrest (fun d hd => hcoins d (mem_cons_of_mem coin hd))
      ⟨Function.update s.mapUsed coin k, s.nRemainingValue - k * coin.toAmount⟩ fun d hd => by
        dsimp only
        rw [update_of_ne (ne_of_mem_of_not_mem hd hnot)]
        exact hstart d (mem_cons_of_mem coin hd)
    refine ⟨fun d => ?_, ?_⟩
    · rw [hmap d]
      by_cases hd : d = coin
      · rw [hd, if_neg hnot, if_pos mem_cons_self, update_self]
        exact update_self _ _ _
      · dsimp only
        rw [update_of_ne hd, update_of_ne hd]
        exact if_congr (by rw [mem_cons, or_iff_right hd]) rfl rfl
    · have hother : ∀ (m : DenomMap), ∀ d ∈ coins, Function.update m coin k d = m d :=
        fun m d hd => update_of_ne (ne_of_mem_of_not_mem hd hnot) _ _
      rw [hvalue, total_cons, update_self, total_congr (hother _), sub_sub]

theorem getIdealSpends_spec (nValueTarget : CAmount) :
    let m := greedy toAmount (unusedHeld listMints) zerocoinDenomList.reverse nValueTarget
    (∀ d ∈ zerocoinDenomList, (getIdealSpends nValueTarget listMints).1 d = m d) ∧
      ((getIdealSpends nValueTarget listMints).2 = true ↔ totalOf m = nValueTarget) := by
  obtain ⟨hmap, hvalue⟩ := @idealCoins listMints zerocoinDenomList.reverse denom_chain.nodup
    denom_chain.pos ⟨.zero, nValueTarget⟩ fun _ _ => rfl
  refine ⟨fun d hd => (hmap d).trans (if_pos (mem_reverse.mpr hd)), ?_⟩
  rw [getIdealSpends]
  rw [hvalue, total_reverse, beq_iff_eq, sub_eq_zero, eq_comm]

end

/-! ## The mints of a map -/

/-- As many of each denomination as the map says. -/
def pick (listMints : List CMintMeta) (m : DenomMap) (coins : List CoinDenomination) :
    List CMintMeta :=
  coins.flatMap fun coin => (mintsOf listMints coin).take (m coin).toNat

section
variable {mint : CMintMeta} {listMints : List CMintMeta} {coin : CoinDenomination} {m : DenomMap}

theorem spendMints {n : Nat} (s : Spends) (hs : s.mapOfDenomsUsed coin = n)
    (hn : n ≤ (mintsOf listMints coin).length) :
    listMints.foldl (spendMint coin) s =
      ⟨s.vSelectedMints ++ (mintsOf listMints coin).take n,
        s.nCoinsSpentValue + n * coin.toAmount, Function.update s.mapOfDenomsUsed coin 0⟩ := by
  induction listMints generalizing s n with
  | nil =>
    obtain rfl : n = 0 := Nat.le_zero.mp hn
    have hmap : Function.update s.mapOfDenomsUsed coin 0 = s.mapOfDenomsUsed := by
      rw [← Nat.cast_zero, ← hs, update_eq_self]
    rw [hmap, Nat.cast_zero, zero_mul, add_zero, take_zero, append_nil]
    rfl
  | cons mint listMints ih =>
    rw [foldl_cons]
    by_cases hused : mint.isUsed = true
    · rw [mintsOf_cons_used hused] at hn ⊢
      rw [spendMint, if_pos hused]
      exact ih s hs hn
    by_cases hdenom : coin = mint.denom
    · rw [hdenom, mintsOf_cons_self (eq_false_iff.mpr hused), ← hdenom] at hn ⊢
      cases n with
      | zero =>
        rw [spendMint, if_neg hused, if_neg fun h => h.2 hs]
        exact ih s hs (Nat.zero_le _)
      | succ n =>
        have hmore : s.mapOfDenomsUsed coin ≠ 0 := by
          rw [hs]
          exact Int.natCast_ne_zero.mpr n.succ_ne_zero
        have hless : s.mapOfDenomsUsed.dec coin coin = n := by
          rw [dec, update_self, hs, Nat.cast_succ, add_sub_cancel_right]
        rw [spendMint, if_neg hused, if_pos ⟨hdenom, hmore⟩, ih _ hless (Nat.le_of_succ_le_succ hn)]
        rw [dec, update_idem, take_succ_cons, append_assoc,
          Nat.cast_succ, add_mul, one_mul, add_assoc, add_comm coin.toAmount]
        rfl
    · rw [mintsOf_cons_other hdenom] at hn ⊢
      rw [spendMint, if_neg hused, if_neg fun h => hdenom h.1]
      exact ih s hs hn

/-- **The loops of `getSpends` end** where the map has no more than the list. -/
theorem ends_getSpends
    (hm : ∀ d ∈ zerocoinDenomList, 0 ≤ m d ∧ m d ≤ unusedHeld listMints d) :
    Ends (fun fuel => getSpends fuel listMints m) fun spends =>
      spends = (pick listMints m zerocoinDenomList.reverse, totalOf m) := by
  have hloop : ∀ (coins : List CoinDenomination) (s : Spends), coins.Nodup →
      (∀ d ∈ coins, 0 ≤ m d ∧ m d ≤ unusedHeld listMints d) →
      (∀ d ∈ coins, s.mapOfDenomsUsed d = m d) →
      Ends (fun fuel => coins.foldlM (fun s coin => doWhile (fun s => s.mapOfDenomsUsed coin != 0)
          (fun s => listMints.foldl (spendMint coin) s) fuel s) s)
        fun s' => s'.vSelectedMints = s.vSelectedMints ++ pick listMints m coins ∧
          s'.nCoinsSpentValue = s.nCoinsSpentValue + total toAmount m coins := by
    intro coins
    induction coins with
    | nil => exact fun s _ _ _ => ends_pure ⟨(append_nil _).symm, (add_zero _).symm⟩
    | cons coin coins ih =>
      intro s hnodup hcoins hs
      obtain ⟨hnot, hrest⟩ := nodup_cons.mp hnodup
      obtain ⟨hnonneg, hheld⟩ := hcoins coin mem_cons_self
      have hcast : ((m coin).toNat : Int) = m coin := Int.toNat_of_nonneg hnonneg
      have hpass := @spendMints listMints coin (m coin).toNat s
        ((hs coin mem_cons_self).trans hcast.symm) (Int.toNat_le.mpr hheld)
      have hzero : (listMints.foldl (spendMint coin) s).mapOfDenomsUsed coin = 0 := by
        rw [hpass]
        exact update_self _ _ _
      refine (@ends_doWhile _ _ _ (· = s) (· = listMints.foldl (spendMint coin) s) (fun _ => 0)
        ?_ ?_ s rfl).bind ?_
      · rintro _ rfl hon
        rw [hzero] at hon
        exact nomatch hon
      · rintro _ rfl -
        rfl
      · rintro _ rfl
        rw [hpass]
        refine (ih _ hrest (fun d hd => hcoins d (mem_cons_of_mem coin hd)) fun d hd => ?_).mono ?_
        · rw [← hs d (mem_cons_of_mem coin hd)]
          exact update_of_ne (ne_of_mem_of_not_mem hd hnot) _ _
        · rintro s' ⟨hmints, hvalue⟩
          rw [hmints, hvalue, hcast, total_cons, append_assoc, add_assoc]
          exact ⟨rfl, rfl⟩
  refine Ends.map (hloop _ ⟨[], 0, m⟩ denom_chain.nodup
    (fun d hd => hm d (mem_reverse.mp hd)) fun _ _ => rfl) fun s hs => ?_
  rw [hs.1, hs.2, total_reverse, nil_append, zero_add]

theorem denom_of_mem (h : mint ∈ mintsOf listMints coin) : coin = mint.denom := by
  have hpred := of_mem_filter h
  rw [and_eq_true, decide_eq_true_iff] at hpred
  exact hpred.2

/-- **Different unused mints are picked.** -/
theorem pick_subperm (hnodup : coins.Nodup) :
    (pick listMints m coins).Subperm (unusedMints listMints) := by
  have hcount : ∀ mint, (pick listMints m coins).count mint ≤
      if mint.denom ∈ coins then (mintsOf listMints mint.denom).count mint else 0 := by
    intro mint
    induction coins with
    | nil => exact Nat.zero_le _
    | cons coin coins ih =>
      obtain ⟨hnot, hrest⟩ := nodup_cons.mp hnodup
      have htail := ih hrest
      have hhead : ((mintsOf listMints coin).take (m coin).toNat).count mint ≤
          (mintsOf listMints coin).count mint := (take_sublist _ _).count_le _
      rw [pick, flatMap_cons, count_append, ← pick]
      by_cases hdenom : coin = mint.denom
      · rw [← hdenom, if_neg hnot] at htail
        rw [← hdenom, if_pos mem_cons_self]
        exact (Nat.add_le_add hhead htail).trans (Nat.le_of_eq (Nat.add_zero _))
      · have hnone : (mintsOf listMints coin).count mint = 0 :=
          count_eq_zero.mpr fun hmem => hdenom (denom_of_mem hmem)
        have hmem : mint.denom ∈ coin :: coins ↔ mint.denom ∈ coins := by
          rw [mem_cons, or_iff_right (Ne.symm hdenom)]
        rw [if_congr hmem rfl rfl]
        exact (Nat.add_le_add (hhead.trans hnone.le) htail).trans (Nat.le_of_eq (Nat.zero_add _))
  refine subperm_ext_iff.mpr fun mint _ => (hcount mint).trans ?_
  have hsub : (mintsOf listMints mint.denom).Sublist (unusedMints listMints) :=
    monotone_filter_right _ fun mint h => (and_eq_true_iff.mp h).1
  split_ifs
  · exact hsub.count_le _
  · exact Nat.zero_le _

theorem pick_value (coins : List CoinDenomination)
    (hm : ∀ d ∈ coins, 0 ≤ m d ∧ m d ≤ unusedHeld listMints d) :
    ((pick listMints m coins).map fun mint => mint.denom.toAmount).sum =
        total toAmount m coins ∧
      ((pick listMints m coins).length : Int) = number m coins := by
  induction coins with
  | nil => exact ⟨rfl, rfl⟩
  | cons coin coins ih =>
    obtain ⟨hvalue, hlength⟩ := ih fun d hd => hm d (mem_cons_of_mem coin hd)
    obtain ⟨hnonneg, hheld⟩ := hm coin mem_cons_self
    have htake : (((mintsOf listMints coin).take (m coin).toNat).length : Int) = m coin := by
      rw [length_take, Nat.min_eq_left (Int.toNat_le.mpr hheld), Int.toNat_of_nonneg hnonneg]
    have hsame : ((mintsOf listMints coin).take (m coin).toNat).map
        (fun mint => mint.denom.toAmount) =
        List.replicate ((mintsOf listMints coin).take (m coin).toNat).length coin.toAmount := by
      refine map_eq_replicate_iff.mpr fun mint hmint => ?_
      rw [← denom_of_mem (mem_of_mem_take hmint)]
    rw [pick, flatMap_cons, ← pick, map_append, sum_append, hvalue, hsame,
      sum_replicate, nsmul_eq_mul, htake, length_append, Nat.cast_add, htake, hlength,
      total_cons, number_cons]
    exact ⟨rfl, rfl⟩

theorem denoms_of_mints {mints : List CMintMeta} (hmints : mints.Subperm (unusedMints listMints)) :
    ∃ m : DenomMap, (∀ d ∈ zerocoinDenomList, 0 ≤ m d ∧ m d ≤ unusedHeld listMints d) ∧
      totalOf m = (mints.map fun mint => mint.denom.toAmount).sum ∧
      getNumberOfCoinsUsed m ≤ mints.length := by
  refine ⟨fun d => (mints.filter fun mint => decide (d = mint.denom)).length, fun d _ => ⟨?_, ?_⟩,
    ?_⟩
  · exact Int.natCast_nonneg _
  · have hle := (hmints.filter fun mint => decide (d = mint.denom)).length_le
    rw [unusedMints, filter_filter] at hle
    refine Int.ofNat_le.mpr (hle.trans (Nat.le_of_eq ?_))
    rw [mintsOf]
    exact congrArg List.length (filter_congr fun mint _ => and_comm _ _)
  · clear hmints
    induction mints with
    | nil => exact ⟨totalOf_zero, le_refl _⟩
    | cons mint mints ih =>
      obtain ⟨hvalue, hnumber⟩ := ih
      generalize hrest : (fun d => ((mints.filter fun mint => decide (d = mint.denom)).length :
        Int)) = rest at hvalue hnumber
      have hinc : (fun d => (((mint :: mints).filter fun mint =>
          decide (d = mint.denom)).length : Int)) = inc rest mint.denom := by
        funext d
        rw [inc, ← hrest]
        by_cases hd : d = mint.denom
        · rw [filter_cons, if_pos (decide_eq_true hd), hd, update_self, length_cons, Nat.cast_succ]
        · rw [filter_cons, if_neg fun h => hd (of_decide_eq_true h), update_of_ne hd]
      rw [hinc, map_cons, sum_cons, ← hvalue, length_cons, Nat.cast_succ]
      by_cases hknown : mint.denom ∈ zerocoinDenomList
      · rw [totalOf_inc hknown, getNumberOfCoinsUsed, inc,
          number_update hknown denomList_nodup]
        rw [getNumberOfCoinsUsed] at hnumber
        exact ⟨add_comm _ _, by linarith⟩
      · have hother : ∀ d ∈ zerocoinDenomList, inc rest mint.denom d = rest d :=
          fun d hd => update_of_ne (ne_of_mem_of_not_mem hd hknown) _ _
        have hnone : mint.denom.toAmount = 0 := by
          revert hknown
          cases mint.denom <;> decide
        rw [totalOf, total_congr hother, hnone, zero_add, getNumberOfCoinsUsed, number_congr hother]
        rw [getNumberOfCoinsUsed] at hnumber
        exact ⟨rfl, by linarith⟩

end

end Divitae
