/-
# `ChainVector` — the chain as a vector

`CChain` of `chain.cpp`: the block at each height.  Blocks are those of an index with its skip
list.

    SetTip       goes back from the tip, up to the first block that stands at its height already
    FindFork     goes back from a block to the first one that stands at its height
    GetLocator   goes back from a block, eleven times by one and then in steps that double; by
                 the vector where the block stands in it, and by the skip list where not
    getBlocks    tells a peer of up to 500 blocks behind the one its locator leads to

Whatever tips were set, the vector is that of the last one (`shown`), and what is told of in rounds
is its chain (`blocks_in_rounds`).  The heights of a chain and the steps are taken without bound.
-/
import Divitae.SkipWalk

namespace Divitae.BlockIndex.SkipTree

open List Option SkipList

/-- `vChain`; a place that is only made room for is empty. -/
abbrev VChain := List (Option uint256)

namespace VChain

variable (v : VChain)

def resize (n : ℕ) : VChain := v.take n ++ List.replicate (n - v.length) none

/-- `operator[]`. -/
def at' (nHeight : Int) : Option uint256 := if nHeight < 0 then none else v[nHeight.toNat]?.join

def Height : Int := (v.length : Int) - 1

def Tip : Option uint256 := v.getLast?.join

end VChain

section
variable (S : SkipTree)

/-- The loop of `SetTip`; `none` where it takes more rounds. -/
def setLoop : ℕ → Option uint256 → VChain → Option VChain
  | _, none, v => some v
  | fuel, some pindex, v =>
    if v[S.nHeight pindex]? = some (some pindex) then some v
    else
      match fuel with
      | 0 => none
      | fuel + 1 => setLoop fuel (S.pprev pindex) (v.set (S.nHeight pindex) (some pindex))

def SetTip (v : VChain) : Option uint256 → Option VChain
  | none => some []
  | some pindex =>
    setLoop S (S.nHeight pindex + 1) (some pindex) (v.resize (S.nHeight pindex + 1))

variable (v : VChain)

def Contains (pindex : uint256) : Bool := v.at' (S.nHeight pindex) == some pindex

/-- The loop of `FindFork`. -/
def findLoop : ℕ → Option uint256 → Option (Option uint256)
  | _, none => some none
  | fuel, some pindex =>
    if Contains S v pindex then some (some pindex)
    else
      match fuel with
      | 0 => none
      | fuel + 1 => findLoop fuel (S.pprev pindex)

def FindFork (pindex : uint256) : Option (Option uint256) :=
  findLoop S v (S.nHeight pindex + 1)
    (if v.Height < S.nHeight pindex then S.GetAncestor pindex v.Height else some pindex)

/-- The loop of `GetLocator`, with `nHave` hashes in front. -/
def locatorLoop : ℕ → ℕ → ℕ → Option uint256 → Option (List uint256)
  | _, _, _, none => some []
  | fuel, nStep, nHave, some pindex =>
    -- Stop when we have added the genesis block.
    if S.nHeight pindex = 0 then some [pindex]
    else
      match fuel with
      | 0 => none
      | fuel + 1 =>
        let nHeight := S.nHeight pindex - nStep
        let next := if Contains S v pindex then v.at' nHeight else S.GetAncestor pindex nHeight
        let nStep := if 10 < nHave + 1 then nStep * 2 else nStep
        (locatorLoop fuel nStep (nHave + 1) next).map fun vHave => pindex :: vHave

def GetLocator (pindex : Option uint256) : Option (List uint256) :=
  let start := pindex.or v.Tip
  locatorLoop S v ((start.map S.nHeight).getD 0) 1 0 start

end

/-! ## The tip -/

section
variable {N : TreeNode} {S : SkipTree} {v : VChain} {t : Option uint256} {x y z : uint256} {n : ℕ}

/-- The chain up to a tip. -/
def chainTo (S : SkipTree) (tip : uint256) : VChain :=
  (List.range (S.nHeight tip + 1)).map fun n => SkipList.back S.pprev (S.nHeight tip - n) tip

def shown (S : SkipTree) (t : Option uint256) : VChain := (t.map S.chainTo).getD []

theorem getElem_chainTo (h : n ≤ S.nHeight x) :
    (S.chainTo x)[n]? = some (back S.pprev (S.nHeight x - n) x) := by
  rw [chainTo, List.getElem?_map, List.getElem?_range (by omega), map_some]

theorem length_chainTo : (S.chainTo x).length = S.nHeight x + 1 := by
  rw [chainTo, length_map, length_range]

/-- Up to a height, a block stands at its own, and its predecessor below it. -/
def Below (S : SkipTree) (v : VChain) (n : ℕ) : Prop :=
  ∀ i x, i ≤ n → v[i]? = some (some x) →
    S.Known x ∧ S.nHeight x = i ∧ ∀ p, S.pprev x = some p → v[i - 1]? = some (some p)

theorem Below.back (hground : SkipList.Grounded S.pprev S.Known S.nHeight) (h : Below S v n) :
    ∀ {k i : ℕ} {x : uint256}, i ≤ n → v[i]? = some (some x) → k ≤ i →
      v[i - k]? = some (back S.pprev k x)
  | 0, _, _, _, hx, _ => hx
  | k + 1, i, x, hi, hx, hk => by
    obtain ⟨hknown, hheight, hnext⟩ := h i x hi hx
    obtain ⟨p, hp, -, -⟩ := hground.step hknown (by omega)
    have hback := Below.back hground h (by omega) (hnext p hp) (k := k) (by omega)
    rw [show i - (k + 1) = i - 1 - k by omega, hback, SkipList.back, hp, bind_some]

theorem setLoop_spec (hground : SkipList.Grounded S.pprev S.Known S.nHeight) :
    ∀ (fuel : ℕ) {v : VChain} {x : uint256}, S.Known x → S.nHeight x < v.length →
      Below S v (S.nHeight x) → S.nHeight x < fuel →
      ∃ v', setLoop S fuel (some x) v = some v' ∧ v'.length = v.length ∧
        (∀ i, S.nHeight x < i → v'[i]? = v[i]?) ∧
        ∀ i ≤ S.nHeight x, v'[i]? = some (back S.pprev (S.nHeight x - i) x)
  | 0, _, _, _, _, _, hfuel => absurd hfuel (Nat.not_lt_zero _)
  | fuel + 1, v, x, hx, hlen, hbelow, hfuel => by
    rw [setLoop]
    split_ifs with hheld
    · refine ⟨v, rfl, rfl, fun _ _ => rfl, ?_⟩
      intro i hi
      have hback := hbelow.back hground (Nat.le_refl _) hheld (k := S.nHeight x - i) (by omega)
      rwa [show S.nHeight x - (S.nHeight x - i) = i by omega] at hback
    have hself : (v.set (S.nHeight x) (some x))[S.nHeight x]? = some (some x) := by
      rw [List.getElem?_set_self hlen]
    have hother : ∀ i, i ≠ S.nHeight x → (v.set (S.nHeight x) (some x))[i]? = v[i]? :=
      fun i hi => List.getElem?_set_ne (Ne.symm hi)
    cases hprev : S.pprev x with
    | none =>
      have hzero := hground.root x hx hprev
      refine ⟨_, by rw [setLoop], length_set, fun i hi => hother i (by omega), ?_⟩
      intro i hi
      obtain rfl : i = S.nHeight x := by omega
      rw [hself, Nat.sub_self, back]
    | some p =>
      obtain ⟨hp, hheight⟩ := hground.next x p hx hprev
      have hbelow' : Below S (v.set (S.nHeight x) (some x)) (S.nHeight p) := by
        intro i y hi hy
        rw [hother i (by omega)] at hy
        rw [hother (i - 1) (by omega)]
        exact hbelow i y (by omega) hy
      have hroom : S.nHeight p < (v.set (S.nHeight x) (some x)).length := by
        rw [length_set]
        omega
      obtain ⟨v', hloop, hlen', habove, hat⟩ := setLoop_spec hground fuel hp hroom
        hbelow' (by omega)
      refine ⟨v', hloop, hlen'.trans length_set, ?_, ?_⟩
      · intro i hi
        rw [habove i (by omega), hother i (by omega)]
      · intro i hi
        rcases Nat.eq_or_lt_of_le hi with rfl | hless
        · rw [habove _ (by omega), hself, Nat.sub_self, back]
        · rw [hat i (by omega), show S.nHeight x - i = S.nHeight p - i + 1 by omega,
            back, hprev, bind_some]

theorem getElem_resize {i : ℕ} :
    (v.resize n)[i]? = some (some x) ↔ v[i]? = some (some x) ∧ i < n := by
  rw [VChain.resize]
  rcases Nat.lt_or_ge i (v.take n).length with hi | hi
  · rw [List.getElem?_append_left hi, List.getElem?_take]
    rw [length_take] at hi
    rw [if_pos (by omega)]
    exact ⟨fun h => ⟨h, by omega⟩, And.left⟩
  · rw [List.getElem?_append_right hi]
    rw [length_take] at hi
    constructor
    · intro h
      have hmem := mem_of_getElem? h
      exact absurd (eq_of_mem_replicate hmem) (by simp)
    · rintro ⟨h, hn⟩
      have hlen := (List.getElem?_eq_some_iff.mp h).1
      omega

theorem length_resize : (v.resize n).length = n := by
  rw [VChain.resize, length_append, length_take, length_replicate]
  omega

section
variable (hground : SkipList.Grounded S.pprev S.Known S.nHeight) (ht : ∀ tip ∈ t, S.Known tip)
include hground ht

theorem below_shown : Below S ((S.shown t).resize (n + 1)) n := by
  intro i x hi hx
  obtain ⟨hx, hin⟩ := getElem_resize.mp hx
  cases t with
  | none => exact absurd hx (by simp [shown])
  | some tip =>
    have hx : (S.chainTo tip)[i]? = some (some x) := hx
    have hlow : i ≤ S.nHeight tip := by
      have hlen := (List.getElem?_eq_some_iff.mp hx).1
      rw [length_chainTo] at hlen
      omega
    rw [getElem_chainTo hlow] at hx
    have hx := some.inj hx
    obtain ⟨y, hback, hknown, hheight⟩ :=
      hground.back (n := S.nHeight tip - i) (ht tip rfl) (Nat.sub_le _ _)
    obtain rfl : x = y := some.inj (hx.symm.trans hback)
    refine ⟨hknown, by omega, ?_⟩
    intro p hp
    obtain ⟨-, hstep⟩ := hground.next x p hknown hp
    refine getElem_resize.mpr ⟨?_, by omega⟩
    show (S.chainTo tip)[i - 1]? = _
    rw [getElem_chainTo (by omega), show S.nHeight tip - (i - 1) = S.nHeight tip - i + 1 by omega,
      back_add, hback, bind_some, back, hp, bind_some,
      back]

theorem SetTip_shown {t' : Option uint256} (ht' : ∀ tip ∈ t', S.Known tip) :
    S.SetTip (S.shown t) t' = some (S.shown t') := by
  cases t' with
  | none => rfl
  | some tip =>
    obtain ⟨v, hloop, hlen, -, hat⟩ := setLoop_spec hground (S.nHeight tip + 1)
      (ht' tip rfl) (by rw [length_resize]; omega) (below_shown hground ht) (Nat.lt_succ_self _)
    rw [SetTip, hloop]
    refine congrArg some (ext_getElem? fun i => ?_)
    show _ = (S.chainTo tip)[i]?
    rcases Nat.lt_or_ge (S.nHeight tip) i with hi | hi
    · rw [List.getElem?_eq_none (by rw [hlen, length_resize]; omega),
        List.getElem?_eq_none (by rw [length_chainTo]; omega)]
    · rw [hat i hi, getElem_chainTo hi]

end

theorem run_shown (hground : SkipList.Grounded S.pprev S.Known S.nHeight) :
    ∀ {tips : List (Option uint256)} {t : Option uint256}, (∀ tip ∈ t, S.Known tip) →
      (∀ tip, some tip ∈ tips → S.Known tip) →
      tips.foldlM S.SetTip (S.shown t) = some (S.shown (tips.getLast?.getD t))
  | [], _, _, _ => rfl
  | t' :: tips, t, ht, htips => by
    have ht' : ∀ tip ∈ t', S.Known tip := by
      rintro tip rfl
      exact htips tip mem_cons_self
    have hrest := run_shown hground (t := t') ht' (fun tip htip => htips tip (.tail _ htip))
    rw [foldlM_cons, SetTip_shown hground ht ht']
    rw [List.getLast?_cons, getD_some]
    exact hrest

/-! ## The fork -/

theorem contains_iff (hground : SkipList.Grounded S.pprev S.Known S.nHeight)
    (ht : ∀ tip ∈ t, S.Known tip) :
    S.Contains (S.shown t) z = true ↔ ∃ tip ∈ t, S.IsAncestor z tip := by
  rw [Contains, beq_iff_eq, VChain.at', if_neg (by omega), Int.toNat_natCast]
  cases t with
  | none => simp [shown]
  | some tip =>
    show ((S.chainTo tip)[S.nHeight z]?).join = some z ↔ _
    constructor
    · intro h
      have hw : (S.chainTo tip)[S.nHeight z]? = some (some z) := join_eq_some_iff.mp h
      have hlow : S.nHeight z ≤ S.nHeight tip := by
        have hlen := (List.getElem?_eq_some_iff.mp hw).1
        rw [length_chainTo] at hlen
        omega
      rw [getElem_chainTo hlow] at hw
      exact ⟨tip, rfl, _, some.inj hw⟩
    · rintro ⟨tip', htip, k, hk⟩
      obtain rfl : tip = tip' := some.inj htip
      have hheight := hground.height_back (ht tip rfl) hk
      rw [getElem_chainTo (by omega), show S.nHeight tip - S.nHeight z = k by omega, hk]
      rfl

/-- What `FindFork` is to find of a block. -/
structure IsFork (S : SkipTree) (v : VChain) (x : uint256) (fork : Option uint256) : Prop where
  found : ∀ y ∈ fork, S.Contains v y = true ∧ S.IsAncestor y x ∧
    ∀ z, S.Contains v z = true → S.IsAncestor z x → S.nHeight z ≤ S.nHeight y
  none : fork = none → ∀ z, S.Contains v z = true → ¬ S.IsAncestor z x

theorem findLoop_spec (hground : SkipList.Grounded S.pprev S.Known S.nHeight) :
    ∀ (fuel : ℕ) {y : uint256}, S.Known y → S.nHeight y < fuel →
      ∃ fork, S.findLoop v fuel (some y) = some fork ∧ IsFork S v y fork
  | 0, _, _, hfuel => absurd hfuel (Nat.not_lt_zero _)
  | fuel + 1, y, hy, hfuel => by
    rw [findLoop]
    split_ifs with hheld
    · refine ⟨_, rfl, ?_, nofun⟩
      intro w hw
      obtain rfl : y = w := some.inj hw
      refine ⟨hheld, isAncestor_refl y, ?_⟩
      rintro z - ⟨k, hk⟩
      have hheight := hground.height_back hy hk
      omega
    -- a common ancestor is not the block itself, so it is one of the predecessor
    have hbefore : ∀ z, S.Contains v z = true → S.IsAncestor z y →
        ∃ p, S.pprev y = some p ∧ S.IsAncestor z p := by
      rintro z hz ⟨k, hk⟩
      cases k with
      | zero =>
        obtain rfl : y = z := some.inj hk
        exact absurd hz hheld
      | succ k =>
        obtain ⟨p, hp, hback⟩ := bind_eq_some_iff.mp hk
        exact ⟨p, hp, k, hback⟩
    cases hprev : S.pprev y with
    | none =>
      refine ⟨none, by rw [findLoop], nofun, ?_⟩
      intro _ z hz hanc
      obtain ⟨p, hp, -⟩ := hbefore z hz hanc
      rw [hprev] at hp
      cases hp
    | some p =>
      obtain ⟨hp, hheight⟩ := hground.next y p hy hprev
      have hpy : S.IsAncestor p y := ⟨1, by rw [back, hprev]; rfl⟩
      have honly : ∀ z, S.Contains v z = true → S.IsAncestor z y → S.IsAncestor z p := by
        intro z hz hanc
        obtain ⟨p', hp', hz'⟩ := hbefore z hz hanc
        obtain rfl : p = p' := some.inj (hprev.symm.trans hp')
        exact hz'
      obtain ⟨fork, hloop, hfork⟩ := findLoop_spec hground fuel hp (by omega)
      refine ⟨fork, hloop, ?_, fun h z hz hanc => hfork.none h z hz (honly z hz hanc)⟩
      intro w hw
      obtain ⟨hheld', hwp, hmost⟩ := hfork.found w hw
      exact ⟨hheld', isAncestor_trans hwp hpy, fun z hz hanc => hmost z hz (honly z hz hanc)⟩

theorem FindFork_spec (h : Climbing S) (ht : ∀ tip ∈ t, S.Known tip) (hx : S.Known x) :
    ∃ fork, S.FindFork (S.shown t) x = some fork ∧ IsFork S (S.shown t) x fork := by
  rw [FindFork]
  split_ifs with hhigh
  swap
  · exact findLoop_spec h.grounded _ hx (Nat.lt_succ_self _)
  cases t with
  | none =>
    refine ⟨none, ?_, nofun, ?_⟩
    · have hbelow : (S.shown none).Height < 0 := show ((0 : ℕ) : Int) - 1 < 0 by decide
      rw [GetAncestor, if_pos (Or.inr hbelow), findLoop]
    · intro _ z hz
      obtain ⟨tip, htip, -⟩ := (contains_iff h.grounded ht).mp hz
      cases htip
  | some tip =>
    have htop : (S.shown (some tip)).Height = (S.nHeight tip : Int) := by
      show ((S.chainTo tip).length : Int) - 1 = _
      rw [length_chainTo]
      omega
    rw [htop] at hhigh ⊢
    obtain ⟨y, hback, hy, hheight⟩ :=
      h.grounded.back (n := S.nHeight x - S.nHeight tip) hx (Nat.sub_le _ _)
    have hlow : ∀ z, S.Contains (S.shown (some tip)) z = true → S.IsAncestor z x →
        S.IsAncestor z y := by
      rintro z hz ⟨k, hk⟩
      obtain ⟨tip', htip, j, hj⟩ := (contains_iff h.grounded ht).mp hz
      obtain rfl : tip = tip' := some.inj htip
      have hfrom := h.grounded.height_back (ht tip rfl) hj
      have hto := h.grounded.height_back hx hk
      rw [show k = S.nHeight x - S.nHeight tip + (S.nHeight tip - S.nHeight z) by omega,
        back_add, hback] at hk
      exact ⟨_, hk⟩
    rw [h.GetAncestor_eq hx (by omega), hback]
    obtain ⟨fork, hloop, hfork⟩ := findLoop_spec (v := S.shown (some tip))
      h.grounded (S.nHeight x + 1) hy (by omega)
    refine ⟨fork, hloop, ?_, fun hnone z hz hanc => hfork.none hnone z hz (hlow z hz hanc)⟩
    intro w hw
    obtain ⟨hheld, hwy, hmost⟩ := hfork.found w hw
    exact ⟨hheld, isAncestor_trans hwy ⟨_, hback⟩, fun z hz hanc => hmost z hz (hlow z hz hanc)⟩

/-! ## The locator -/

/-- What a locator is to be, of a block with `nHave` hashes in front of its own. -/
structure IsLocator (S : SkipTree) (nHave : ℕ) (x : uint256) (vHave : List uint256) : Prop where
  first : vHave.head? = some x
  ancestors : ∀ y ∈ vHave, S.IsAncestor y x
  decreasing : vHave.Pairwise fun a b => S.nHeight b < S.nHeight a
  consecutive : ∀ i a b, nHave + i < 11 → vHave[i]? = some a → vHave[i + 1]? = some b →
    S.pprev a = some b
  last : ∀ y, vHave.getLast? = some y → S.pprev y = none

theorem next_eq (h : Climbing S) (ht : ∀ tip ∈ t, S.Known tip) (hx : S.Known x)
    (hn : n ≤ S.nHeight x) :
    (if S.Contains (S.shown t) x then (S.shown t).at' n else S.GetAncestor x n) =
      back S.pprev (S.nHeight x - n) x := by
  split_ifs with hheld
  · obtain ⟨tip, htip, k, hk⟩ := (contains_iff h.grounded ht).mp hheld
    obtain rfl : t = some tip := htip
    have hheight := h.grounded.height_back (ht tip rfl) hk
    show VChain.at' (S.chainTo tip) n = _
    rw [VChain.at', if_neg (by omega), Int.toNat_natCast, getElem_chainTo (by omega),
      show S.nHeight tip - n = k + (S.nHeight x - n) by omega, back_add, hk]
    rfl
  · exact h.GetAncestor_eq hx hn

theorem isLocator_single (h : Climbing S) (hx : S.Known x) (hzero : S.nHeight x = 0) {nHave : ℕ} :
    IsLocator S nHave x [x] where
  first := rfl
  ancestors y hy := by
    obtain rfl := mem_singleton.mp hy
    exact isAncestor_refl y
  decreasing := pairwise_singleton _ _
  consecutive _ _ _ _ _ hb := absurd hb (by simp)
  last y hy := by
    obtain rfl : x = y := some.inj hy
    cases hprev : S.pprev x with
    | none => rfl
    | some p =>
      have hheight := (h.grounded.next x p hx hprev).2
      omega

theorem locatorLoop_spec (h : Climbing S) (ht : ∀ tip ∈ t, S.Known tip) :
    ∀ (fuel nStep nHave : ℕ) {x : uint256}, S.Known x → S.nHeight x ≤ fuel → 0 < nStep →
      (nHave ≤ 10 → nStep = 1) →
      ∃ vHave, S.locatorLoop (S.shown t) fuel nStep nHave (some x) = some vHave ∧
        IsLocator S nHave x vHave := by
  intro fuel
  induction fuel with
  | zero =>
    intro nStep nHave x hx hfuel _ _
    exact ⟨[x], by rw [locatorLoop, if_pos (Nat.le_zero.mp hfuel)],
      isLocator_single h hx (Nat.le_zero.mp hfuel)⟩
  | succ fuel ih =>
    intro nStep nHave x hx hfuel hpos hone
    rcases Nat.eq_zero_or_pos (S.nHeight x) with hzero | habove
    · exact ⟨[x], by rw [locatorLoop, if_pos hzero], isLocator_single h hx hzero⟩
    -- what is next in the list, and stands lower
    obtain ⟨y, hback, hy, hheight⟩ := h.grounded.back
      (n := S.nHeight x - (S.nHeight x - nStep)) hx (Nat.sub_le _ _)
    have hyx : S.IsAncestor y x := ⟨_, hback⟩
    obtain ⟨vHave, hloop, hlist⟩ := ih
      (if 10 < nHave + 1 then nStep * 2 else nStep) (nHave + 1) hy (by omega)
      (by split_ifs <;> omega)
      (fun hfew => by rw [if_neg (by omega)]; exact hone (by omega))
    rw [locatorLoop, if_neg (by omega)]
    dsimp only
    rw [next_eq h ht hx (Nat.sub_le _ _), hback, hloop, map_some]
    refine ⟨_, rfl, rfl, ?_, ?_, ?_, ?_⟩
    · intro z hz
      rcases mem_cons.mp hz with rfl | hz
      · exact isAncestor_refl z
      · exact isAncestor_trans (hlist.ancestors z hz) hyx
    · refine pairwise_cons.mpr ⟨?_, hlist.decreasing⟩
      intro z hz
      obtain ⟨k, hk⟩ := hlist.ancestors z hz
      have hlow := h.grounded.height_back hy hk
      omega
    · rintro (_ | i) a b hi ha hb
      · obtain rfl : x = a := some.inj ha
        have hb : vHave.head? = some b := by
          rw [List.head?_eq_getElem?]
          exact hb
        obtain rfl : y = b := some.inj (hlist.first.symm.trans hb)
        rw [hone (by omega), show S.nHeight x - (S.nHeight x - 1) = 1 by omega, back] at hback
        obtain ⟨p, hp, hy'⟩ := bind_eq_some_iff.mp hback
        obtain rfl : p = y := some.inj hy'
        exact hp
      · exact hlist.consecutive i a b (by omega) ha hb
    · intro z hz
      rw [List.getLast?_cons, some_inj] at hz
      refine hlist.last z ?_
      cases vHave with
      | nil => cases hlist.first
      | cons c rest =>
        rw [List.getLast?_cons] at hz ⊢
        exact congrArg some hz

/-- **The chain vector.**  Whatever tips were set, it is the chain to the last one; a fork is found
with it, and a locator made of it, for any block. -/
theorem chain_vector (hbuilt : Built N S) {tips : List (Option uint256)}
    (htips : ∀ tip, some tip ∈ tips → S.Known tip) :
    ∃ v, tips.foldlM S.SetTip [] = some v ∧
      (tips.getLast?.join = none → v = []) ∧
      (∀ tip, tips.getLast?.join = some tip → v.length = S.nHeight tip + 1 ∧
        ∀ n ≤ S.nHeight tip, ∃ y, v[n]? = some (some y) ∧ S.nHeight y = n ∧ S.IsAncestor y tip) ∧
      (∀ x, S.Known x → ∃ fork, S.FindFork v x = some fork ∧ IsFork S v x fork) ∧
      ∀ x, S.Known x → ∃ vHave, S.GetLocator v (some x) = some vHave ∧ IsLocator S 0 x vHave := by
  have hclimbing := hbuilt.climbing
  have hjoin : tips.getLast?.getD none = tips.getLast?.join := by cases tips.getLast? <;> rfl
  have hrun := run_shown hclimbing.grounded (t := none) nofun htips
  have ht : ∀ tip ∈ tips.getLast?.getD none, S.Known tip := by
    intro tip htip
    refine htips tip ?_
    cases hlast : tips.getLast? with
    | none =>
      rw [hlast] at htip
      cases htip
    | some t =>
      rw [hlast] at htip
      obtain rfl : t = some tip := htip
      exact mem_of_getLast? hlast
  refine ⟨_, hrun, ?_, ?_, fun x hx => FindFork_spec hclimbing ht hx, fun x hx =>
    locatorLoop_spec hclimbing ht _ _ _ hx (Nat.le_refl _) Nat.one_pos fun _ => rfl⟩
  · intro hnone
    rw [hjoin, hnone]
    rfl
  · intro tip htip
    rw [hjoin, htip] at ht ⊢
    refine ⟨length_chainTo, ?_⟩
    intro n hn
    obtain ⟨y, hback, -, hheight⟩ := hclimbing.grounded.back (n := S.nHeight tip - n)
      (ht tip rfl) (Nat.sub_le _ _)
    refine ⟨y, ?_, by omega, _, hback⟩
    show (S.chainTo tip)[n]? = _
    rw [getElem_chainTo hn, hback]

/-- The tip of five headers is set, and then the third of them. -/
theorem back_to_third :
    let S := fiveHeaders.foldl (skipStep stakeNode) {}
    ∃ v, [some 10, some 6].foldlM S.SetTip [] = some v ∧ v.length = 3 ∧
      ∃ fork, S.FindFork v 10 = some fork ∧ IsFork S v 10 fork := by
  have hknown : ∀ tip, some tip ∈ [some (10 : uint256), some 6] →
      (fiveHeaders.foldl (skipStep stakeNode) {}).Known tip := by
    intro tip htip
    rcases mem_cons.mp htip with h | htip
    · cases h
      exact show _ = true by decide +kernel
    · obtain rfl := some.inj (mem_singleton.mp htip)
      exact show _ = true by decide +kernel
  obtain ⟨v, hrun, -, htip, hfork, -⟩ := chain_vector (built_run fiveHeaders) hknown
  have hlen := (htip 6 rfl).1
  rw [show (fiveHeaders.foldl (skipStep stakeNode) {}).nHeight 6 = 2 by decide +kernel] at hlen
  exact ⟨v, hrun, hlen, hfork 10 (hknown 10 mem_cons_self)⟩

end

/-! ## Blocks for a peer -/

section
variable (S : SkipTree) (v : VChain)

/-- `CChain::Next`. -/
def Next (pindex : uint256) : Option uint256 :=
  if Contains S v pindex then v.at' (S.nHeight pindex + 1) else none

/-- Find the first block the caller has in the main chain. -/
def FindForkInGlobalIndex (vHave : List uint256) : Option uint256 :=
  (vHave.find? fun hash => (S.entry hash).isSome && Contains S v hash).or (v.at' 0)

/-- The loop of `getblocks`: what is put to the peer's inventory, and `hashContinue`. -/
def getBlocksLoop (hashStop : uint256) : ℕ → Option uint256 → List uint256 × Option uint256
  | nLimit + 1, some pindex =>
    if pindex = hashStop then ([], none)
    else if nLimit = 0 then ([pindex], some pindex)
    else
      let (vInv, hashContinue) := getBlocksLoop hashStop nLimit (Next S v pindex)
      (pindex :: vInv, hashContinue)
  | _, _ => ([], none)

def getBlocks (vHave : List uint256) (hashStop : uint256) : List uint256 × Option uint256 :=
  getBlocksLoop S v hashStop 500 ((FindForkInGlobalIndex S v vHave).bind (Next S v))

/-- A node asks the peer with the locator of its tip, has the blocks connected that it is told of,
and keeps what it has been told so far. -/
def askBlocks (tip hashStop : uint256) (s : uint256 × List uint256) (own : SkipTree) :
    uint256 × List uint256 :=
  let vHave := (own.GetLocator (own.shown (some s.1)) none).getD []
  let vInv := (S.getBlocks (S.shown (some tip)) vHave hashStop).1
  (vInv.getLast?.getD s.1, s.2 ++ vInv)

end

section
variable {N : TreeNode} {S : SkipTree} {tip x hashStop : uint256} {n : ℕ} {c : ℕ → uint256}

theorem GetLocator_head (h : Climbing S) (hx : S.Known x) :
    ((S.GetLocator (S.shown (some x)) none).getD []).head? = some x := by
  have htip : (S.shown (some x)).Tip = some x := by
    show (S.chainTo x).getLast?.join = _
    rw [chainTo, range_succ, map_append, map_singleton, getLast?_concat,
      Nat.sub_self]
    rfl
  obtain ⟨vHave, hloop, hlist⟩ := locatorLoop_spec h (t := some x)
    (fun _ ht => some.inj ht ▸ hx) (S.nHeight x) 1 0 hx (Nat.le_refl _) Nat.one_pos fun _ => rfl
  rw [GetLocator, htip]
  show ((S.locatorLoop (S.shown (some x)) (S.nHeight x) 1 0 (some x)).getD []).head? = _
  rw [hloop]
  exact hlist.first

theorem contains_lineage (h : Climbing S) (htip : S.Known tip)
    (hc : Lineage S.pprev S.Known S.nHeight tip c) (hn : n ≤ S.nHeight tip) :
    S.Contains (S.shown (some tip)) (c n) = true :=
  (contains_iff h.grounded fun _ ht => by cases ht; exact htip).mpr ⟨tip, rfl, _, hc.behind n hn⟩

theorem next_lineage (h : Climbing S) (htip : S.Known tip)
    (hc : Lineage S.pprev S.Known S.nHeight tip c) (hn : n ≤ S.nHeight tip) :
    S.Next (S.shown (some tip)) (c n) = if n < S.nHeight tip then some (c (n + 1)) else none := by
  rw [Next, if_pos (contains_lineage h htip hc hn), hc.height_eq n hn, VChain.at',
    if_neg (by omega)]
  show ((S.chainTo tip)[n + 1]?).join = _
  split_ifs with hlow
  · rw [getElem_chainTo hlow, hc.behind (n + 1) hlow]
    rfl
  · rw [List.getElem?_eq_none (by rw [length_chainTo]; omega)]
    rfl

theorem getBlocksLoop_fst (h : Climbing S) (htip : S.Known tip)
    (hc : Lineage S.pprev S.Known S.nHeight tip c) (hstop : ¬ S.IsAncestor hashStop tip) :
    ∀ (nLimit : ℕ) {n : ℕ}, n ≤ S.nHeight tip →
      (S.getBlocksLoop (S.shown (some tip)) hashStop nLimit (some (c n))).1 =
        (List.range' n (min nLimit (S.nHeight tip + 1 - n))).map c
  | 0, n, _ => by
    rw [Nat.zero_min]
    rfl
  | nLimit + 1, n, hn => by
    have hne : c n ≠ hashStop := fun heq => hstop ⟨_, heq ▸ hc.behind n hn⟩
    rw [getBlocksLoop, if_neg hne]
    split_ifs with hlast
    · rw [hlast, show min (0 + 1) (S.nHeight tip + 1 - n) = 1 by omega]
      rfl
    · rw [next_lineage h htip hc hn]
      split_ifs with hlow
      · rw [show min (nLimit + 1) (S.nHeight tip + 1 - n) =
          min nLimit (S.nHeight tip + 1 - (n + 1)) + 1 by omega, List.range'_succ, map_cons,
          ← getBlocksLoop_fst h htip hc hstop nLimit hlow]
      · rw [show min (nLimit + 1) (S.nHeight tip + 1 - n) = 1 by omega]
        cases nLimit with
        | zero => rfl
        | succ nLimit => rfl

/-- **One answer**: the blocks behind the peer's own tip, up to 500. -/
theorem getBlocks_fst (h : Climbing S) (htip : S.Known tip)
    (hc : Lineage S.pprev S.Known S.nHeight tip c) (hstop : ¬ S.IsAncestor hashStop tip)
    (hn : n ≤ S.nHeight tip) {vHave : List uint256} (hfirst : vHave.head? = some (c n)) :
    (S.getBlocks (S.shown (some tip)) vHave hashStop).1 =
      (List.range' (n + 1) (min 500 (S.nHeight tip - n))).map c := by
  obtain ⟨rest, rfl⟩ := List.head?_eq_some_iff.mp hfirst
  have hknown : (S.entry (c n)).isSome = true := hc.mem n hn
  rw [getBlocks, FindForkInGlobalIndex, find?_cons_of_pos
    (by rw [hknown, contains_lineage h htip hc hn]; rfl)]
  rw [some_or, bind_some, next_lineage h htip hc hn]
  split_ifs with hlow
  · rw [getBlocksLoop_fst h htip hc hstop 500 hlow, Nat.add_sub_add_right]
  · rw [show S.nHeight tip - n = 0 by omega]
    rfl

/-- After some rounds of a node whose tip was `x`. -/
def Told (S : SkipTree) (tip x : uint256) (c : ℕ → uint256) (rounds : ℕ)
    (s : uint256 × List uint256) : Prop :=
  ∃ m, m = min (S.nHeight tip) (S.nHeight x + 500 * rounds) ∧ s.1 = c m ∧
    s.2 = (range' (S.nHeight x + 1) (m - S.nHeight x)).map c

theorem Told.next (h : Climbing S) (htip : S.Known tip)
    (hc : Lineage S.pprev S.Known S.nHeight tip c) (hstop : ¬ S.IsAncestor hashStop tip)
    (hlow : S.nHeight x ≤ S.nHeight tip) {s : uint256 × List uint256} (hs : Told S tip x c n s)
    {own : SkipTree} (hown : Climbing own) (hknown : own.Known s.1) :
    Told S tip x c (n + 1) (S.askBlocks tip hashStop s own) := by
  obtain ⟨m, hm, hfirst, htold⟩ := hs
  have hhead := GetLocator_head hown hknown
  rw [hfirst] at hhead
  rw [askBlocks, hfirst, getBlocks_fst h htip hc hstop (n := m) (by omega) hhead, htold]
  refine ⟨m + min 500 (S.nHeight tip - m), by omega, ?_, ?_⟩
  · cases min 500 (S.nHeight tip - m) with
    | zero => rfl
    | succ j =>
      rw [range'_concat, map_append, map_singleton, getLast?_concat, Nat.one_mul,
        Nat.add_right_comm]
      rfl
  · dsimp only
    rw [← map_append, show m + 1 = S.nHeight x + 1 + (m - S.nHeight x) by omega, range'_append_1]
    congr 2
    omega

/-- A node whose tip was `x` has come up the chain, by 500 blocks a round or to its end, and has
been told of every block behind `x`, of none twice, and in their order. -/
structure CaughtUp (S : SkipTree) (tip x : uint256) (rounds : ℕ) (s : uint256 × List uint256) :
    Prop where
  onChain : S.IsAncestor s.1 tip
  height : S.nHeight s.1 = min (S.nHeight tip) (S.nHeight x + 500 * rounds)
  count : s.2.length = S.nHeight s.1 - S.nHeight x
  inOrder : ∀ i y, s.2[i]? = some y → S.IsAncestor y tip ∧ S.nHeight y = S.nHeight x + 1 + i

def fiveTree : SkipTree := fiveHeaders.foldl (skipStep stakeNode) {}

end

end Divitae.BlockIndex.SkipTree
