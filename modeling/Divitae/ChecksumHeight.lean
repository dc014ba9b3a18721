/-
# `ChecksumHeight` — the search that skips ten blocks at a time

A zerocoin stake stands at the first block whose checkpoint has the checksum of its
accumulator.  `GetChecksumHeight` looks at the blocks one by one up to a height that is a
multiple of ten, and from there on at every tenth one.

    Carries              a block of the chain whose checkpoint has the checksum
    ChangesEveryTen      the checkpoints change at multiples of ten only
    plainChecksumHeight  the search block by block

Behind a multiple of ten nine blocks have its checkpoint, so a search that passes over them
(`Leap.leap`) finds what the plain one does; and where fewer than ten are left there is
nothing more to find.
-/
import Divitae.StakeRules
import Divitae.Lib.Leap

namespace Divitae

open List

namespace CChain

variable (chain : CChain)

/-- The checkpoint of the active block at a height has the checksum. -/
def Carries (nChecksum : BitVec 32) (denomination : CoinDenomination) (nHeight : Int) : Prop :=
  ∃ pindex, chain.at' nHeight = some pindex ∧
    ParseChecksum pindex.nAccumulatorCheckpoint denomination = nChecksum

def ChangesEveryTen : Prop :=
  ∀ nHeight pprev pindex, chain.at' nHeight = some pprev → chain.at' (nHeight + 1) = some pindex →
    pindex.nAccumulatorCheckpoint ≠ pprev.nAccumulatorCheckpoint → (nHeight + 1) % 10 = 0

end CChain

def carries (nChecksum : BitVec 32) (denomination : CoinDenomination) (pindex : KernelIndex) :
    Bool :=
  ParseChecksum pindex.nAccumulatorCheckpoint denomination == nChecksum

/-- The height of the first block with the checksum, 0 if there is none. -/
def plainChecksumHeight (nChecksum : BitVec 32) (denomination : CoinDenomination)
    (next : List KernelIndex) : Int :=
  ((next.find? (carries nChecksum denomination)).map KernelIndex.nHeight).getD 0

/-! ## Blocks one above the other -/

/-- Blocks of consecutive heights, from a height on. -/
def StandFrom (nHeight : Int) (next : List KernelIndex) : Prop :=
  ∀ (i : Nat) pindex, next[i]? = some pindex → pindex.nHeight = nHeight + i

namespace StandFrom

variable {nHeight : Int} {pindex : KernelIndex} {next before : List KernelIndex}

theorem head (h : StandFrom nHeight (pindex :: next)) : pindex.nHeight = nHeight := by
  have hzero := h 0 pindex rfl
  rwa [Int.natCast_zero, Int.add_zero] at hzero

theorem tail (h : StandFrom nHeight (pindex :: next)) : StandFrom (nHeight + 1) next := by
  intro i q hq
  rw [h (i + 1) q hq]
  push_cast
  ring

end StandFrom

namespace CChain

variable {chain : CChain} {nHeight : Int}

section
variable (h : 0 ≤ nHeight)
include h

theorem at_nonneg : chain.at' nHeight = chain.vChain[nHeight.toNat]? :=
  if_neg (Int.not_lt.mpr h)

theorem getElem_from (i : Nat) :
    (chain.from' nHeight)[i]? = chain.at' (nHeight + i) := by
  have hto : (nHeight + i).toNat = nHeight.toNat + i := by omega
  rw [from', if_neg (Int.not_lt.mpr h), List.getElem?_drop, at_nonneg (by omega), hto]

theorem from_stands : StandFrom nHeight (chain.from' nHeight) := by
  intro i pindex hat
  rw [getElem_from h, at_nonneg (by omega)] at hat
  rw [chain.heights _ _ hat]
  omega

theorem length_from :
    ((chain.from' nHeight).length : Int) = max 0 (chain.Height + 1 - nHeight) := by
  rw [from', if_neg (Int.not_lt.mpr h), length_drop, Height]
  omega

end

theorem ChangesEveryTen.same (hten : chain.ChangesEveryTen) {pfirst : KernelIndex}
    (hfirst : chain.at' nHeight = some pfirst) {n : Nat}
    (hnone : ∀ k : Nat, 1 ≤ k → k ≤ n → (nHeight + k) % 10 ≠ 0) {pindex : KernelIndex}
    (hat : chain.at' (nHeight + n) = some pindex) :
    pindex.nAccumulatorCheckpoint = pfirst.nAccumulatorCheckpoint := by
  induction n generalizing pindex with
  | zero =>
    rw [Int.natCast_zero, Int.add_zero, hfirst] at hat
    rw [Option.some.inj hat]
  | succ n ih =>
    have hstart : 0 ≤ nHeight := by
      by_contra hneg
      rw [at', if_pos (Int.not_le.mp hneg)] at hfirst
      exact absurd hfirst (by simp)
    obtain ⟨pprev, hprev⟩ : ∃ pprev, chain.at' (nHeight + n) = some pprev := by
      rw [at_nonneg (by omega)] at hat ⊢
      have hlt := (List.getElem?_eq_some_iff.mp hat).1
      exact ⟨_, List.getElem?_eq_getElem (by omega)⟩
    have hsame := ih (fun k hk hle => hnone k hk (Nat.le_succ_of_le hle)) hprev
    have hnext : chain.at' (nHeight + n + 1) = some pindex := by
      rw [← hat]
      push_cast
      ring_nf
    rw [← hsame]
    by_contra hchange
    refine hnone (n + 1) (Nat.succ_le_succ (Nat.zero_le n)) (Nat.le_refl _) ?_
    have hmultiple := hten _ _ _ hprev hnext hchange
    push_cast
    rw [← Int.add_assoc]
    exact hmultiple

theorem ChangesEveryTen.passable (hten : chain.ChangesEveryTen) (nChecksum : BitVec 32)
    (denomination : CoinDenomination) (h : 0 ≤ nHeight) :
    Leap.Passable (carries nChecksum denomination)
      (fun pindex => decide (pindex.nHeight.tmod 10 = 0)) 9 (chain.from' nHeight) := by
  intro before a after hsplit hwide ha b hb
  obtain ⟨i, hi, hat⟩ := getElem_of_mem hb
  have hlast : (chain.from' nHeight)[before.length + 1 + i]? = some b := by
    rw [hsplit, List.getElem?_append_right (by omega), Nat.add_assoc, Nat.add_sub_cancel_left,
      Nat.add_comm 1 i, List.getElem?_cons_succ, ← hat, getElem_take]
    exact List.getElem?_eq_getElem _
  have hself : (chain.from' nHeight)[before.length]? = some a := by
    rw [hsplit, List.getElem?_append_right (Nat.le_refl _), Nat.sub_self]
    rfl
  have hheight := from_stands h _ _ hself
  rw [getElem_from h] at hself hlast
  have hmultiple : a.nHeight.tmod 10 = 0 := of_decide_eq_true hwide
  have hnine : i < 9 := by
    rw [length_take] at hi
    omega
  have hsame := hten.same hself (n := i + 1) (fun k hk hle => by
    rw [Int.tmod_eq_emod_of_nonneg (by omega)] at hmultiple
    omega) (by rw [← hlast]; push_cast; ring_nf)
  rw [carries, hsame]
  exact ha

end CChain

/-! ## The two searches -/

section
variable {nChecksum : BitVec 32} {denomination : CoinDenomination} {nHeightTip : Int}

theorem checksumHeight_leaps {nHeight : Int} {nSkip : Nat} {next : List KernelIndex}
    (hstand : StandFrom nHeight next) (htip : next ≠ [] → nHeight + next.length = nHeightTip + 1) :
    checksumHeight nChecksum denomination nHeightTip nSkip next =
      ((Leap.leap (carries nChecksum denomination)
        (fun pindex => decide (pindex.nHeight.tmod 10 = 0)) 9 nSkip next).map
          KernelIndex.nHeight).getD 0 := by
  induction next generalizing nHeight nSkip with
  | nil => rw [checksumHeight, Leap.leap]; rfl
  | cons pindex next ih =>
    have hend := htip (cons_ne_nil _ _)
    rw [length_cons] at hend
    have hrest : next ≠ [] → nHeight + 1 + next.length = nHeightTip + 1 := by
      intro _
      push_cast at hend
      omega
    cases nSkip with
    | succ nSkip =>
      exact ih hstand.tail hrest
    | zero =>
      rw [checksumHeight, Leap.leap]
      by_cases hcarries : carries nChecksum denomination pindex = true
      · rw [if_pos hcarries, if_pos (beq_iff_eq.mp hcarries)]
        rfl
      · rw [if_neg hcarries, if_neg fun h => hcarries (beq_iff_eq.mpr h)]
        by_cases hten : pindex.nHeight.tmod 10 = 0
        · rw [if_pos hten, if_pos (decide_eq_true hten)]
          split_ifs with hshort
          · -- fewer than ten are left
            have hfew : next.length ≤ 9 := by
              rw [hstand.head] at hshort
              push_cast at hend
              omega
            rw [Leap.leap_short hfew]
            rfl
          · exact ih hstand.tail hrest
        · rw [if_neg hten, if_neg (by simpa using hten)]
          exact ih hstand.tail hrest

variable {N : StakeNode}

/-- **Nothing is lost.** -/
theorem GetChecksumHeight_plain (hstart : 0 ≤ N.P.nZerocoinStartHeight)
    (hten : N.chainActive.ChangesEveryTen) :
    GetChecksumHeight N nChecksum denomination =
      plainChecksumHeight nChecksum denomination
        (N.chainActive.from' N.P.nZerocoinStartHeight) := by
  have htip : N.chainActive.from' N.P.nZerocoinStartHeight ≠ [] →
      N.P.nZerocoinStartHeight + (N.chainActive.from' N.P.nZerocoinStartHeight).length =
        N.chainActive.Height + 1 := by
    intro hne
    have hlen := @CChain.length_from N.chainActive _ hstart
    have hpos := length_pos_iff.mpr hne
    omega
  rw [GetChecksumHeight, checksumHeight_leaps (CChain.from_stands hstart) htip,
    Leap.leap_eq_find (hten.passable _ _ hstart) fun b hb => absurd hb (by simp)]
  rfl

theorem plainChecksumHeight_spec {chain : CChain} {nHeight : Int} (h : 0 ≤ nHeight) :
    (plainChecksumHeight nChecksum denomination (chain.from' nHeight) = 0 ∧
        ∀ n, nHeight ≤ n → ¬ chain.Carries nChecksum denomination n) ∨
      ∃ n, plainChecksumHeight nChecksum denomination (chain.from' nHeight) = n ∧ nHeight ≤ n ∧
        chain.Carries nChecksum denomination n ∧
        ∀ m, nHeight ≤ m → m < n → ¬ chain.Carries nChecksum denomination m := by
  cases hfind : (chain.from' nHeight).find? (carries nChecksum denomination) with
  | none =>
    refine .inl ⟨by rw [plainChecksumHeight, hfind]; rfl, ?_⟩
    rintro n hn ⟨pindex, hat, hsum⟩
    have hmem : (chain.from' nHeight)[(n - nHeight).toNat]? = some pindex := by
      rw [CChain.getElem_from h, ← hat]
      congr 1
      omega
    have hnot := List.find?_eq_none.mp hfind pindex (mem_of_getElem? hmem)
    exact hnot (beq_iff_eq.mpr hsum)
  | some pindex =>
    obtain ⟨hsum, i, hi, hat, hless⟩ := List.find?_eq_some_iff_getElem.mp hfind
    have hself : (chain.from' nHeight)[i]? = some pindex := by
      rw [List.getElem?_eq_getElem hi, hat]
    have hheight := CChain.from_stands h i pindex hself
    rw [CChain.getElem_from h, ← hheight] at hself
    refine .inr ⟨pindex.nHeight, by rw [plainChecksumHeight, hfind]; rfl, by omega,
      ⟨pindex, hself, beq_iff_eq.mp hsum⟩, ?_⟩
    rintro m hm hlt ⟨q, hq, hsum'⟩
    have hbefore : (m - nHeight).toNat < i := by omega
    have hmem : (chain.from' nHeight)[(m - nHeight).toNat]? = some q := by
      rw [CChain.getElem_from h, ← hq]
      congr 1
      omega
    have hnot := hless _ hbefore
    rw [List.getElem?_eq_getElem (by omega)] at hmem
    rw [Option.some.inj hmem] at hnot
    simp [carries, hsum'] at hnot

/-- **The height of a checksum.**  On a chain whose checkpoints change every ten blocks only, it
is that of the first block with the checksum from the start height on, and 0 exactly when there
is none. -/
theorem GetChecksumHeight_first (hnet : IsNetwork N.P) (hten : N.chainActive.ChangesEveryTen)
    (nChecksum : BitVec 32) (denomination : CoinDenomination) :
    (GetChecksumHeight N nChecksum denomination = 0 ↔
      ∀ n, N.P.nZerocoinStartHeight ≤ n → ¬ N.chainActive.Carries nChecksum denomination n) ∧
    ∀ n, N.P.nZerocoinStartHeight ≤ n → N.chainActive.Carries nChecksum denomination n →
      (∀ m, N.P.nZerocoinStartHeight ≤ m → m < n →
        ¬ N.chainActive.Carries nChecksum denomination m) →
      GetChecksumHeight N nChecksum denomination = n := by
  have hstart : 0 < N.P.nZerocoinStartHeight := by
    rcases hnet with hP | hP | hP <;> rw [hP] <;> decide
  rw [GetChecksumHeight_plain (Int.le_of_lt hstart) hten]
  rcases @plainChecksumHeight_spec nChecksum denomination N.chainActive _ (Int.le_of_lt hstart)
    with ⟨hzero, hnone⟩ | ⟨n, hn, hle, hat, hless⟩
  · refine ⟨⟨fun _ => hnone, fun _ => hzero⟩, ?_⟩
    intro n hle hat
    exact absurd hat (hnone n hle)
  · refine ⟨⟨fun hzero => ?_, fun hnone => absurd hat (hnone n hle)⟩, ?_⟩
    · omega
    · intro n' hle' hat' hless'
      rw [hn]
      rcases lt_trichotomy n n' with hlt | heq | hgt
      · exact absurd hat (hless' n hle hlt)
      · exact heq
      · exact absurd hat' (hless n' hle' hgt)

end

/-! ## One checkpoint behind the start height -/

namespace ChecksumHeight

def countedIndex (i : Nat) : KernelIndex :=
  ⟨BitVec.ofNat 256 i, i, 1615212209, true, true, 0, if i < 209470 then 0 else 7⟩

/-- The checkpoint comes at 209470 and stays. -/
def countedChain (n : Nat) : CChain where
  vChain := (List.range n).map countedIndex
  heights := by
    intro i pindex h
    obtain ⟨j, hj, rfl⟩ := Option.map_eq_some_iff.mp (List.getElem?_map (f := countedIndex) ▸ h)
    obtain ⟨hlt, rfl⟩ := List.getElem?_eq_some_iff.mp hj
    rw [getElem_range]
    rfl

def countedNode (n : Nat) : StakeNode := { stakedNode with chainActive := countedChain n }

variable {n : Nat}

theorem counted_at {nHeight : Int} {pindex : KernelIndex} :
    (countedChain n).at' nHeight = some pindex ↔
      0 ≤ nHeight ∧ nHeight < n ∧ pindex = countedIndex nHeight.toNat := by
  rw [CChain.at']
  split_ifs with hneg
  · simp only [false_iff]
    omega
  · rw [countedChain, List.getElem?_map, Option.map_eq_some_iff]
    constructor
    · rintro ⟨i, hi, rfl⟩
      obtain ⟨hlt, rfl⟩ := List.getElem?_eq_some_iff.mp hi
      rw [length_range] at hlt
      exact ⟨by omega, by omega, by rw [getElem_range]⟩
    · rintro ⟨h, hlt, rfl⟩
      exact ⟨_, List.getElem?_range (by omega), rfl⟩

theorem counted_ten : (countedChain n).ChangesEveryTen := by
  intro nHeight pprev pindex hprev hindex hchange
  obtain ⟨h, -, rfl⟩ := counted_at.mp hprev
  obtain ⟨-, -, rfl⟩ := counted_at.mp hindex
  rw [countedIndex, countedIndex] at hchange
  split_ifs at hchange
  all_goals first | omega | exact absurd rfl hchange

theorem counted_carries {nHeight : Int} :
    (countedChain n).Carries 7 .ZQ_FIVE_THOUSAND nHeight ↔ 209470 ≤ nHeight ∧ nHeight < n := by
  have hnone : ParseChecksum 0 .ZQ_FIVE_THOUSAND ≠ 7 := by decide
  have hsum : ParseChecksum 7 .ZQ_FIVE_THOUSAND = 7 := by decide
  constructor
  · rintro ⟨pindex, hat, hcarries⟩
    obtain ⟨h, hlt, rfl⟩ := counted_at.mp hat
    rw [countedIndex] at hcarries
    split_ifs at hcarries with hless
    · exact absurd hcarries hnone
    · exact ⟨by omega, hlt⟩
  · rintro ⟨hle, hlt⟩
    refine ⟨_, counted_at.mpr ⟨by omega, hlt, rfl⟩, ?_⟩
    rw [countedIndex]
    rw [if_neg (by omega)]
    exact hsum

/-- The search finds it three blocks above the start height. -/
theorem found_at_209470 :
    GetChecksumHeight (countedNode 209490) 7 .ZQ_FIVE_THOUSAND = 209470 :=
  (GetChecksumHeight_first (.inl rfl) counted_ten 7 .ZQ_FIVE_THOUSAND).2 209470 (by decide)
    (counted_carries.mpr ⟨by decide, by decide⟩) fun m _ hlt hcarries =>
      absurd (counted_carries.mp hcarries).1 (Int.not_le.mpr hlt)

end ChecksumHeight

end Divitae
