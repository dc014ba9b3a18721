/-
# `AccumulatorRuns` — the values of the active checkpoints are in the database

    Held s      every checksum in the checkpoint of an active block, from the start of
                version 2 on, has its value in the database
    Spares      the disconnection erases no checksum that stays on the chain

A connection keeps `Held`: it takes the checkpoint of the block before, or writes the values
of its own.  A disconnection erases by comparing with one block, denomination by denomination.
It keeps `Held` exactly where it spares the blocks that stay, and they are not spared when
two denominations come to share a value, or when the block itself stays after all.
-/
import Divitae.AccumulatorDB
import Divitae.LiveOutputs
import Divitae.Reorg

namespace Divitae

open Records

namespace AccumulatorMap

theorem joinChecksums_concat (l : List (BitVec 32)) (c : BitVec 32) :
    joinChecksums (l ++ [c]) = joinChecksums l <<< 32 ||| c.setWidth 256 := by
  rw [joinChecksums, List.foldl_append]
  rfl

theorem joinChecksums_shift (before after : List (BitVec 32)) (c : BitVec 32)
    (hlength : (before ++ c :: after).length ≤ 8) :
    (joinChecksums (before ++ c :: after) >>> (32 * after.length)).setWidth 32 = c := by
  induction after using List.reverseRecOn with
  | nil =>
    rw [joinChecksums_concat]
    ext i hi
    simp
  | append_singleton after d ih =>
    have hshort : (before ++ c :: after).length ≤ 8 := by
      simp only [List.length_append, List.length_cons, List.length_nil] at hlength ⊢
      omega
    have hassoc : before ++ c :: (after ++ [d]) = (before ++ c :: after) ++ [d] := by
      simp
    rw [hassoc, joinChecksums_concat]
    refine Eq.trans ?_ (ih hshort)
    have hlen : (after ++ [d]).length = after.length + 1 := List.length_append
    simp only [List.length_append, List.length_cons, List.length_nil] at hlength
    ext i hi
    have hbelow : 32 * (after.length + 1) + i < 256 := by omega
    have hover : ¬ 32 * (after.length + 1) + i < 32 := by omega
    have hprev : 32 * (after.length + 1) + i - 32 = 32 * after.length + i := by omega
    have hd : d.getLsbD (32 * (after.length + 1) + i) = false := BitVec.getLsbD_of_ge d _ (by omega)
    rw [hlen]
    simp only [BitVec.getElem_setWidth, BitVec.getLsbD_ushiftRight, BitVec.getLsbD_or,
      BitVec.getLsbD_shiftLeft, BitVec.getLsbD_setWidth, hbelow, hover, hprev, hd, decide_true,
      decide_false, Bool.true_and, Bool.not_false, Bool.and_false, Bool.or_false]

theorem parse_GetCheckpoint (A : AccumulatorParams) (m : AccumulatorMap) {denom : CoinDenomination}
    (hdenom : denom ∈ CoinDenomination.zerocoinDenomList) :
    ParseChecksum (m.GetCheckpoint A) denom = A.GetChecksum (m.mapAccumulators denom) := by
  rw [GetCheckpoint]
  cases denom with
  | ZQ_ERROR => exact absurd hdenom (by decide)
  | ZQ_ONE => exact joinChecksums_shift [] _ _ (by simp)
  | ZQ_FIVE => exact joinChecksums_shift [_] [_, _, _, _, _, _] _ (by simp)
  | ZQ_TEN => exact joinChecksums_shift [_, _] [_, _, _, _, _] _ (by simp)
  | ZQ_FIFTY => exact joinChecksums_shift [_, _, _] [_, _, _, _] _ (by simp)
  | ZQ_ONE_HUNDRED => exact joinChecksums_shift [_, _, _, _] [_, _, _] _ (by simp)
  | ZQ_FIVE_HUNDRED => exact joinChecksums_shift [_, _, _, _, _] [_, _] _ (by simp)
  | ZQ_ONE_THOUSAND => exact joinChecksums_shift [_, _, _, _, _, _] [_] _ (by simp)
  | ZQ_FIVE_THOUSAND => exact joinChecksums_shift [_, _, _, _, _, _, _] [] _ (by simp)

end AccumulatorMap

/-! ## The invariant -/

namespace AccumulatorChain

section
variable (P : CChainParams) (A : AccumulatorParams)

/-- The database has a value for every checksum of the block's checkpoint that is not zero. -/
def Holds (db : Store (BitVec 32) Int) (entry : ChainEntry) : Prop :=
  P.nBlockZerocoinV2 ≤ entry.pindex.nHeight → ∀ denom ∈ CoinDenomination.zerocoinDenomList,
    ParseChecksum entry.pindex.nAccumulatorCheckpoint denom ≠ 0 →
    ∃ bnValue, db (ParseChecksum entry.pindex.nAccumulatorCheckpoint denom) = some bnValue ∧
      A.GetChecksum bnValue = ParseChecksum entry.pindex.nAccumulatorCheckpoint denom

def Held (s : AccumulatorChain) : Prop :=
  ∀ entry ∈ s.chainActive, Holds P A s.accumulatorValues entry

/-- The heights go down by one from the tip, which is at the start of version 2 or above. -/
structure Standing (s : AccumulatorChain) : Prop where
  steps : s.chainActive.IsChain fun entry below => entry.pindex.nHeight = below.pindex.nHeight + 1
  reached : P.nBlockZerocoinV2 ≤ s.Height

end

section
variable {P : CChainParams} {A : AccumulatorParams} {M : CAccumulatorNode} {s : AccumulatorChain}
  {db : Store (BitVec 32) Int} {entry tip : ChainEntry} {rest : List ChainEntry} {nHeight : Int}
  {nAccumulatorCheckpoint : uint256} {m : AccumulatorMap}

theorem Holds.write (h : Holds P A db entry) (m : AccumulatorMap) :
    Holds P A (Records.write db (m.checksums A)) entry := by
  intro hheight denom hdenom hne
  obtain ⟨bnValue, hvalue, hsum⟩ := h hheight denom hdenom hne
  by_cases hnew : ParseChecksum entry.pindex.nAccumulatorCheckpoint denom ∈
      (m.checksums A).map Prod.fst
  · obtain ⟨bnNew, hmem, hread⟩ := write_mem db hnew
    obtain ⟨_, -, heq⟩ := List.mem_map.mp hmem
    obtain ⟨hfst, hsnd⟩ := Prod.mk.inj heq
    exact ⟨bnNew, hread, hsnd ▸ hfst⟩
  · exact ⟨bnValue, (write_of_not_mem hnew).trans hvalue, hsum⟩

theorem holds_of_checkpoint (db : Store (BitVec 32) Int) (m : AccumulatorMap)
    (h : entry.pindex.nAccumulatorCheckpoint = m.GetCheckpoint A) :
    Holds P A (Records.write db (m.checksums A)) entry := by
  intro _ denom hdenom _
  rw [h, AccumulatorMap.parse_GetCheckpoint A m hdenom]
  have hkey : A.GetChecksum (m.mapAccumulators denom) ∈ (m.checksums A).map Prod.fst := by
    rw [AccumulatorMap.checksums, List.map_map]
    exact List.mem_map.mpr ⟨denom, hdenom, rfl⟩
  obtain ⟨bnValue, hmem, hread⟩ := write_mem db hkey
  obtain ⟨_, -, heq⟩ := List.mem_map.mp hmem
  obtain ⟨hfst, hsnd⟩ := Prod.mk.inj heq
  exact ⟨bnValue, hread, hsnd ▸ hfst⟩

theorem holds_of_zero (h : entry.pindex.nAccumulatorCheckpoint = 0) : Holds P A db entry := by
  intro _ denom _ hne
  rw [h] at hne
  exact absurd (by cases denom <;> rfl) hne

theorem Holds.same {below : ChainEntry} (h : Holds P A db below)
    (hbelow : P.nBlockZerocoinV2 ≤ below.pindex.nHeight)
    (hsame : entry.pindex.nAccumulatorCheckpoint = below.pindex.nAccumulatorCheckpoint) :
    Holds P A db entry := by
  intro _ denom hdenom hne
  rw [hsame] at hne ⊢
  exact h hbelow denom hdenom hne

theorem holds_erase_iff (h : Holds P A db entry) (ks : List (BitVec 32)) :
    Holds P A (erase db ks) entry ↔ ∀ nChecksum ∈ ks, nChecksum ≠ 0 →
      P.nBlockZerocoinV2 ≤ entry.pindex.nHeight → ∀ denom ∈ CoinDenomination.zerocoinDenomList,
        ParseChecksum entry.pindex.nAccumulatorCheckpoint denom ≠ nChecksum := by
  constructor
  · intro herased nChecksum hmem hne hheight denom hdenom heq
    obtain ⟨bnValue, hread, -⟩ := herased hheight denom hdenom (heq ▸ hne)
    rw [heq] at hread
    exact (erase_eq_some.mp hread).1 hmem
  · intro hspared hheight denom hdenom hne
    obtain ⟨bnValue, hvalue, hsum⟩ := h hheight denom hdenom hne
    refine ⟨bnValue, (erase_of_not_mem ?_).trans hvalue, hsum⟩
    intro hmem
    exact hspared _ hmem hne hheight denom hdenom rfl

/-! ## A block connected -/

theorem at_below (hchain : s.chainActive = tip :: rest)
    (hheight : nHeight = tip.pindex.nHeight + 1) :
    s.at' (nHeight - 1) = some tip := by
  rw [at', hchain, hheight, Int.add_sub_cancel]
  exact List.find?_cons_of_pos (beq_self_eq_true _)

theorem recalculate_lt (hnet : IsNetwork P) :
    P.nBlockRecalculateAccumulators < P.nBlockZerocoinV2 := by
  rcases hnet with rfl | rfl | rfl <;> decide

section
variable (hheight : nHeight ≠ P.nBlockRecalculateAccumulators)
include hheight

theorem initialize_db :
    (s.InitializeAccumulators P A M nHeight).1 = s.accumulatorValues := by
  rw [InitializeAccumulators]
  dsimp only
  rw [if_neg hheight]
  split
  · rfl
  · split
    · split <;> rfl
    · split
      · rfl
      · split
        · rfl
        · split <;> rfl

theorem calculate_db :
    (s.CalculateAccumulatorCheckpoint P A M nHeight).1 = s.accumulatorValues := by
  have hdb := @initialize_db P A M s nHeight hheight
  rw [CalculateAccumulatorCheckpoint]
  split
  next db hinit =>
    rw [hinit] at hdb
    exact hdb
  next db nHeightCheckpoint m hinit =>
    rw [hinit] at hdb
    dsimp only
    split
    · exact hdb
    · split_ifs
      · exact hdb
      · exact hdb

end

theorem validate_db (hnet : IsNetwork P) :
    (s.ValidateAccumulatorCheckpoint P A M nHeight nAccumulatorCheckpoint tip).1 =
      s.accumulatorValues := by
  rw [ValidateAccumulatorCheckpoint]
  by_cases hV2 : nHeight < P.nBlockZerocoinV2
  · rw [if_pos hV2]
  rw [if_neg hV2]
  by_cases hten : nHeight.tmod 10 = 0
  · have hheight : nHeight ≠ P.nBlockRecalculateAccumulators := by
      have hlt := recalculate_lt hnet
      omega
    have hdb := @calculate_db P A M s nHeight hheight
    rw [if_pos hten]
    split
    next db hcalc =>
      rw [hcalc] at hdb
      exact hdb
    next db nCheckpointCalculated m hcalc =>
      rw [hcalc] at hdb
      split_ifs
      · exact hdb
      · exact hdb
  · rw [if_neg hten]
    split_ifs
    · rfl
    · rfl

section
variable (hchain : s.chainActive = tip :: rest) (hheight : nHeight = tip.pindex.nHeight + 1)
include hchain hheight

theorem calculate_checkpoint
    (h : s.CalculateAccumulatorCheckpoint P A M nHeight = (db, some (nAccumulatorCheckpoint, m))) :
    nAccumulatorCheckpoint = tip.pindex.nAccumulatorCheckpoint ∨
      nAccumulatorCheckpoint = m.GetCheckpoint A := by
  rw [CalculateAccumulatorCheckpoint] at h
  split at h
  · cases h
  · dsimp only at h
    split at h
    · cases h
    · rw [at_below hchain hheight] at h
      split_ifs at h
      · cases h
        exact .inl rfl
      · cases h
        exact .inr rfl

theorem validate_checkpoint (hV2 : P.nBlockZerocoinV2 ≤ nHeight)
    (h : s.ValidateAccumulatorCheckpoint P A M nHeight nAccumulatorCheckpoint tip = (db, some m)) :
    nAccumulatorCheckpoint = tip.pindex.nAccumulatorCheckpoint ∨
      nAccumulatorCheckpoint = m.GetCheckpoint A := by
  rw [ValidateAccumulatorCheckpoint] at h
  rw [if_neg (not_lt.mpr hV2)] at h
  by_cases hten : nHeight.tmod 10 = 0
  · rw [if_pos hten] at h
    split at h
    · cases h
    next db' nCheckpointCalculated m' hcalc =>
      split_ifs at h with hsame
      · cases h
      · cases h
        rw [← not_not.mp hsame]
        exact calculate_checkpoint hchain hheight hcalc
  · rw [if_neg hten] at h
    split_ifs at h with hsame
    · cases h
    · exact .inl (not_not.mp hsame)

end

theorem ConnectBlock_checkpoint {N : CConnectNode} {block : CBlock} {pindex pprev : CBlockIndex}
    {view : CCoinsView} {fAlreadyChecked : Bool} {c : Connected}
    (hgenesis : block.hash ≠ N.hashGenesisBlock)
    (h : ConnectBlock N block pindex pprev view false fAlreadyChecked = .ok c) :
    c.pindex.nAccumulatorCheckpoint = pindex.nAccumulatorCheckpoint := by
  obtain ⟨pindex', st, -, -, htotals, rfl⟩ := ConnectBlock_ok hgenesis h
  exact (connectTotals_parts htotals).2.2.2

theorem Standing.tip_reached (h : Standing P s) (hchain : s.chainActive = tip :: rest) :
    P.nBlockZerocoinV2 ≤ tip.pindex.nHeight := by
  have hreached := h.reached
  rw [Height, hchain] at hreached
  exact hreached

/-- What a call of `ConnectTip` leaves: everything as it was, what the validation of the
checkpoint left, the values of its accumulators as well, or the block on the chain. -/
inductive TipOutcome (P : CChainParams) (A : AccumulatorParams) (M : CAccumulatorNode)
    (s : AccumulatorChain) (block : CBlock) (nCheckpoint : uint256) : AccumulatorChain → Prop
  | unchanged : TipOutcome P A M s block nCheckpoint s
  | unwritten (tip : ChainEntry) (rest : List ChainEntry) (db : Store (BitVec 32) ℤ)
      (m : Option AccumulatorMap) (hchain : s.chainActive = tip :: rest)
      (hvalid : s.ValidateAccumulatorCheckpoint P A M (tip.pindex.nHeight + 1) nCheckpoint tip =
        (db, m)) :
      TipOutcome P A M s block nCheckpoint { s with accumulatorValues := db }
  | written (tip : ChainEntry) (rest : List ChainEntry) (db : Store (BitVec 32) ℤ)
      (m : AccumulatorMap) (hchain : s.chainActive = tip :: rest)
      (hvalid : s.ValidateAccumulatorCheckpoint P A M (tip.pindex.nHeight + 1) nCheckpoint tip =
        (db, some m)) :
      TipOutcome P A M s block nCheckpoint
        { s with accumulatorValues := s.DatabaseChecksums P A m db }
  | connected (tip : ChainEntry) (rest : List ChainEntry) (db : Store (BitVec 32) ℤ)
      (m : AccumulatorMap) (entry : ChainEntry) (view : CCoinsView)
      (hchain : s.chainActive = tip :: rest)
      (hvalid : s.ValidateAccumulatorCheckpoint P A M (tip.pindex.nHeight + 1) nCheckpoint tip =
        (db, some m))
      (hheight : entry.pindex.nHeight = tip.pindex.nHeight + 1)
      (hcheckpoint : entry.pindex.nAccumulatorCheckpoint =
        if 3 < block.nVersion then nCheckpoint else 0) :
      TipOutcome P A M s block nCheckpoint
        ⟨entry :: s.chainActive, view, s.DatabaseChecksums P A m db⟩

variable (P A M s) in
theorem ConnectTip_outcome (block : CBlock) (nAccumulatorCheckpoint : uint256)
    (pindexNew : CBlockIndex) (fAlreadyChecked : Bool) :
    TipOutcome P A M s block nAccumulatorCheckpoint
      (s.ConnectTip P A M block nAccumulatorCheckpoint pindexNew fAlreadyChecked) := by
  rw [ConnectTip]
  split
  next => exact .unchanged
  next tip rest hchain =>
    by_cases hassert : pindexNew.nHeight ≠ tip.pindex.nHeight + 1 ∨ block.hash = M.hashGenesisBlock
    · rw [if_pos hassert]
      exact .unchanged
    obtain ⟨hheight, hgenesis⟩ := not_or.mp hassert
    have hheight : pindexNew.nHeight = tip.pindex.nHeight + 1 := not_not.mp hheight
    rw [if_neg hassert]
    dsimp only
    split
    next => exact .unchanged
    next c hc =>
      rw [hheight]
      split
      next db hvalid => exact .unwritten _ _ _ _ hchain hvalid
      next db m hvalid =>
        split
        · exact .unwritten _ _ _ _ hchain hvalid
        split
        · exact .written _ _ _ _ hchain hvalid
        · have hcheckpoint := @ConnectBlock_checkpoint (connectNode P M) _ _ _ _ _ _ hgenesis hc
          exact .connected _ _ _ _ _ _ hchain hvalid ((ConnectBlock_nHeight hc).trans hheight)
            hcheckpoint

section
variable (hnet : IsNetwork P) (hstanding : Standing P s)
include hnet hstanding

theorem ConnectTip_cases (block : CBlock)
    (nAccumulatorCheckpoint : uint256) (pindexNew : CBlockIndex) (fAlreadyChecked : Bool) :
    s.ConnectTip P A M block nAccumulatorCheckpoint pindexNew fAlreadyChecked = s ∨
      ∃ m : AccumulatorMap,
        s.ConnectTip P A M block nAccumulatorCheckpoint pindexNew fAlreadyChecked =
            { s with accumulatorValues := write s.accumulatorValues (m.checksums A) } ∨
          ∃ tip rest entry view, s.chainActive = tip :: rest ∧
            s.ConnectTip P A M block nAccumulatorCheckpoint pindexNew fAlreadyChecked =
              ⟨entry :: s.chainActive, view, write s.accumulatorValues (m.checksums A)⟩ ∧
            entry.pindex.nHeight = tip.pindex.nHeight + 1 ∧
            (entry.pindex.nAccumulatorCheckpoint = 0 ∨
              entry.pindex.nAccumulatorCheckpoint = tip.pindex.nAccumulatorCheckpoint ∨
              entry.pindex.nAccumulatorCheckpoint = m.GetCheckpoint A) := by
  have hdatabase (m : AccumulatorMap) : s.DatabaseChecksums P A m s.accumulatorValues =
      write s.accumulatorValues (m.checksums A) := if_pos hstanding.reached
  have hvalidated {tip : ChainEntry} {nHeight db m}
      (h : s.ValidateAccumulatorCheckpoint P A M nHeight nAccumulatorCheckpoint tip = (db, m)) :
      db = s.accumulatorValues :=
    (congrArg Prod.fst h).symm.trans (validate_db hnet)
  have houtcome := ConnectTip_outcome P A M s block nAccumulatorCheckpoint pindexNew fAlreadyChecked
  generalize s.ConnectTip P A M block nAccumulatorCheckpoint pindexNew fAlreadyChecked = s' at *
  cases houtcome with
  | unchanged => exact .inl rfl
  | unwritten tip rest db m hchain hvalid =>
    obtain rfl := hvalidated hvalid
    exact .inl rfl
  | written tip rest db m hchain hvalid =>
    obtain rfl := hvalidated hvalid
    rw [hdatabase]
    exact .inr ⟨m, .inl rfl⟩
  | connected tip rest db m entry view hchain hvalid hheight hcheckpoint =>
    obtain rfl := hvalidated hvalid
    rw [hdatabase]
    refine .inr ⟨m, .inr ⟨tip, rest, entry, view, hchain, rfl, hheight, ?_⟩⟩
    have htip := hstanding.tip_reached hchain
    rw [hcheckpoint]
    by_cases hversion : 3 < block.nVersion
    · rw [if_pos hversion]
      exact .inr (validate_checkpoint hchain rfl (by omega) hvalid)
    · exact .inl (if_neg hversion)

/-- **A connection keeps the values.** -/
theorem connect_held (hheld : Held P A s)
    (block : CBlock) (nAccumulatorCheckpoint : uint256) (pindexNew : CBlockIndex)
    (fAlreadyChecked : Bool) :
    Held P A (s.ConnectTip P A M block nAccumulatorCheckpoint pindexNew fAlreadyChecked) := by
  rcases @ConnectTip_cases P A M s hnet hstanding block nAccumulatorCheckpoint pindexNew
    fAlreadyChecked with hsame | ⟨m, hwritten | ⟨tip, rest, entry, view, hchain, hon, -, hfrom⟩⟩
  · rw [hsame]
    exact hheld
  · rw [hwritten]
    intro entry hentry
    exact (hheld entry hentry).write m
  · rw [hon]
    intro e he
    rcases List.mem_cons.mp he with rfl | he
    · rcases hfrom with hzero | hbelow | hnew
      · exact holds_of_zero hzero
      · have htip : tip ∈ s.chainActive := by
          rw [hchain]
          exact .head _
        exact ((hheld tip htip).write m).same (hstanding.tip_reached hchain) hbelow
      · exact holds_of_checkpoint s.accumulatorValues m hnew
    · exact (hheld e he).write m

theorem connect_standing (block : CBlock)
    (nAccumulatorCheckpoint : uint256) (pindexNew : CBlockIndex) (fAlreadyChecked : Bool) :
    Standing P (s.ConnectTip P A M block nAccumulatorCheckpoint pindexNew fAlreadyChecked) := by
  rcases @ConnectTip_cases P A M s hnet hstanding block nAccumulatorCheckpoint pindexNew
    fAlreadyChecked with hsame | ⟨m, hwritten | ⟨tip, rest, entry, view, hchain, hon, hheight, -⟩⟩
  · rw [hsame]
    exact hstanding
  · rw [hwritten]
    exact ⟨hstanding.steps, hstanding.reached⟩
  · rw [hon]
    refine ⟨?_, ?_⟩
    · have hsteps := hstanding.steps
      rw [hchain] at hsteps ⊢
      exact List.isChain_cons_cons.mpr ⟨hheight, hsteps⟩
    · have htip := hstanding.tip_reached hchain
      show P.nBlockZerocoinV2 ≤ entry.pindex.nHeight
      omega

end

/-! ## A block disconnected -/

variable (P M s)

/-- The blocks that are on the chain after `DisconnectTip`: the tip goes only if it is
disconnected cleanly. -/
def staying : List ChainEntry :=
  match s.chainActive with
  | tip :: prev :: rest =>
    match DisconnectBlock (disconnectNode P M fun nErase nPrevious =>
        (EraseAccumulatorValues M nErase nPrevious).2) tip.block tip.pindex prev.pindex
          s.pcoinsTip with
    | .ok (_, true) => prev :: rest
    | _ => tip :: prev :: rest
  | chain => chain

/-- What `DisconnectTip` erases. -/
def erasedTip : List (BitVec 32) :=
  match s.chainActive with
  | tip :: prev :: _ => erasedValues P M tip.block tip.pindex prev.pindex s.pcoinsTip
  | _ => []

/-- No checksum that is erased, but 0, is in the checkpoint of a block that stays. -/
def Spares : Prop :=
  ∀ nChecksum ∈ erasedTip P M s, nChecksum ≠ 0 → ∀ entry ∈ staying P M s,
    P.nBlockZerocoinV2 ≤ entry.pindex.nHeight → ∀ denom ∈ CoinDenomination.zerocoinDenomList,
      ParseChecksum entry.pindex.nAccumulatorCheckpoint denom ≠ nChecksum

variable {P M s}

theorem DisconnectTip_eq : (s.DisconnectTip P M).chainActive = staying P M s ∧
    (s.DisconnectTip P M).accumulatorValues = erase s.accumulatorValues (erasedTip P M s) := by
  obtain ⟨chainActive, pcoinsTip, accumulatorValues⟩ := s
  rw [DisconnectTip, staying, erasedTip]
  rcases chainActive with _ | ⟨tip, _ | ⟨prev, rest⟩⟩
  · exact ⟨rfl, (erase_nil _).symm⟩
  · exact ⟨rfl, (erase_nil _).symm⟩
  · dsimp only
    generalize DisconnectBlock (disconnectNode P M fun nErase nPrevious =>
      (EraseAccumulatorValues M nErase nPrevious).2) tip.block tip.pindex prev.pindex pcoinsTip =
      result
    rcases result with _ | ⟨view, _ | _⟩
    · exact ⟨rfl, rfl⟩
    · exact ⟨rfl, rfl⟩
    · exact ⟨rfl, rfl⟩

theorem staying_sub : ∀ entry ∈ staying P M s, entry ∈ s.chainActive := by
  intro entry hentry
  rw [staying] at hentry
  split at hentry
  next tip prev rest hchain =>
    rw [hchain]
    split at hentry
    · exact List.mem_cons_of_mem tip hentry
    · exact hentry
  next => exact hentry

/-- **A disconnection keeps the values exactly where it spares them.** -/
theorem disconnect_held_iff (hheld : Held P A s) :
    Held P A (s.DisconnectTip P M) ↔ Spares P M s := by
  obtain ⟨hchain, hvalues⟩ := @DisconnectTip_eq P M s
  rw [Held, hchain, hvalues]
  constructor
  · intro h nChecksum hmem hne entry hentry
    have hentryHeld := hheld entry (staying_sub entry hentry)
    exact (holds_erase_iff hentryHeld _).mp (h entry hentry) nChecksum hmem hne
  · intro h entry hentry
    refine (holds_erase_iff (hheld entry (staying_sub entry hentry)) _).mpr ?_
    intro nChecksum hmem hne
    exact h nChecksum hmem hne entry hentry

theorem disconnect_standing (hstanding : Standing P s) (habove : P.nBlockZerocoinV2 < s.Height) :
    Standing P (s.DisconnectTip P M) := by
  have hsame : ∀ db, Standing P { s with accumulatorValues := db } := fun db =>
    ⟨hstanding.steps, hstanding.reached⟩
  rw [DisconnectTip]
  split
  next tip prev rest hchain =>
    split
    next view _ =>
      have hsteps := hstanding.steps
      rw [hchain] at hsteps
      obtain ⟨hbelow, hrest⟩ := List.isChain_cons_cons.mp hsteps
      refine ⟨hrest, ?_⟩
      have htip : P.nBlockZerocoinV2 < tip.pindex.nHeight := by
        rwa [Height, hchain] at habove
      show P.nBlockZerocoinV2 ≤ prev.pindex.nHeight
      omega
    next => exact hsame _
  next => exact hstanding

end

/-! ## Runs -/

section
variable (P : CChainParams)

/-- What is disconnected is above the start of version 2. -/
def AboveV2 (s : AccumulatorChain) : AccumulatorEvent → Prop
  | .connectTip .. => True
  | .disconnectTip _ => P.nBlockZerocoinV2 < s.Height

/-- A disconnection spares the blocks that stay. -/
def Sparing (s : AccumulatorChain) : AccumulatorEvent → Prop
  | .connectTip .. => True
  | .disconnectTip M => Spares P M s

variable {P}

end

/-! ## A coin minted twice, for example

The test network takes the same coin again in another denomination.  The accumulators of both
denominations then have one value, and one checksum. -/

/-- Coins are multiplied, and a checksum is the value. -/
def productParams : AccumulatorParams where
  accumulatorBase _ := 1
  increment _ bnValue bnCoin := bnValue * bnCoin
  GetChecksum bnValue := BitVec.ofInt 32 bnValue
  mapCheckpoints := []

/-- Coin 5 is in the accumulators of these denominations. -/
def fiveIn (denoms : List CoinDenomination) : AccumulatorMap :=
  ⟨false, fun denom => if denom ∈ denoms then 5 else 1⟩

/-- A block of the test network; coin 5 has been minted with denomination 1 long ago, and at
height 1000000015 it is minted with denomination 5. -/
def mintedTwice (nHeight : Int) : ChainEntry where
  block :=
    { quietBlock COIN [] with
      hash := 100
      vtx := if nHeight = 1000000015 then
          [⟨300, 1, [⟨⟨9, 0⟩, [], 0⟩], [⟨5 * COIN, [OP_ZEROCOINMINT]⟩], 0⟩]
        else [] }
  pindex :=
    { quietTip nHeight with nAccumulatorCheckpoint :=
      (fiveIn [.ZQ_ONE]).GetCheckpoint productParams }

def mintedStart : AccumulatorChain where
  chainActive := (List.range 20).map fun i => mintedTwice (1000000029 - i)
  pcoinsTip := oneCoin
  accumulatorValues nChecksum :=
    if nChecksum = 5 then some 5 else if nChecksum = 1 then some 1 else none

def mintingNode : CAccumulatorNode where
  toCDisconnectNode :=
    { quietDisconnectNode with
      toCConnectNode :=
        { quietNode 1000000029 with Z := { quietZerocoin with mintValue := fun _ => 5 } } }
  fTxIndex := false
  ShutdownRequested := false
  ReadBlockFromDisk _ := true
  EraseAccumulatorValue _ := true
  WriteUndo := true
  WriteCoinSpendBatch := true
  WriteCoinMintBatch := true
  WriteTxIndex := true

/-- The next block has the coin in both accumulators. -/
def bothMinted : AccumulatorEvent :=
  .connectTip mintingNode (quietBlock COIN [])
    ((fiveIn [.ZQ_ONE, .ZQ_FIVE]).GetCheckpoint productParams)
    { quietTip 1000000030 with phashBlock := some 101 } true

theorem mintedStart_standing : Standing testNetParams mintedStart :=
  ⟨by decide +kernel, by decide +kernel⟩

theorem mintedStart_held : Held testNetParams productParams mintedStart := by
  intro entry hentry
  obtain ⟨i, -, rfl⟩ := List.mem_map.mp hentry
  intro _ denom hdenom _
  have hparse : ParseChecksum (mintedTwice (1000000029 - i)).pindex.nAccumulatorCheckpoint denom =
      productParams.GetChecksum ((fiveIn [.ZQ_ONE]).mapAccumulators denom) :=
    AccumulatorMap.parse_GetCheckpoint productParams (fiveIn [.ZQ_ONE]) hdenom
  rw [hparse]
  refine ⟨(fiveIn [.ZQ_ONE]).mapAccumulators denom, ?_, rfl⟩
  cases denom <;> rfl

end AccumulatorChain

end Divitae
