/-
# `CheckpointCache` — the checkpoint of a new block, from the cache

`CreateNewBlock` keeps the checkpoint it put into a block last, under the hash of the block ten
below the last multiple of ten and up to the next one (`first`).  A reorganisation changes the
hash.

    below V2        the checkpoint is that of the block before, whatever is computed there
    a calculation   that fails leaves the key of the one before it, and so does the branch
                    below V2: only the checkpoint is replaced

Where neither leaves a key behind (`Keyed`), what the cache has is what a calculation gives: that
reads only blocks below the one whose hash is the key, and the checkpoint of the block before,
which is the same for ten blocks (`Level`).  `Due` says what was computed under a key, on any chain
so far; two chains give the same (`due_unique`) where a hash stands for one chain and a checksum
for one value (`Unambiguous`).
-/
import Divitae.AccumulatedMints

namespace Divitae

open List

structure CheckpointCache where
  first : Int
  hashBlock : uint256
  nCheckpoint : uint256

/-- The active chain, with `pCheckpointCache`. -/
structure MinerChain where
  chain : AccumulatorChain
  cache : CheckpointCache

inductive MinerEvent where
  | chain (e : AccumulatorEvent)
  | restart
  | createNewBlock (M : CAccumulatorNode) (fZerocoinActive : Bool)

namespace AccumulatorChain

/-- `CalculateAccumulatorCheckpoint` at any height. -/
def checkpointAt (P : CChainParams) (A : AccumulatorParams) (M : CAccumulatorNode)
    (s : AccumulatorChain) (nHeight : Int) : Option uint256 :=
  if nHeight < P.nBlockZerocoinV2 then some 0
  else if nHeight % 10 ≠ 0 then
    (s.at' (nHeight - 1)).map fun prev => prev.pindex.nAccumulatorCheckpoint
  else (s.CalculateAccumulatorCheckpoint P A M nHeight).2.map Prod.fst

end AccumulatorChain

namespace MinerChain

open AccumulatorChain AccumulatorMap

section
variable (P : CChainParams) (A : AccumulatorParams) (M : CAccumulatorNode)
  (fZerocoinActive : Bool) (s : MinerChain)

/-- The cache does not have the checkpoint of this height. -/
def Stale (nHeight : Int) (last : ChainEntry) : Prop :=
  s.cache.first ≤ nHeight ∨ s.cache.hashBlock ≠ last.block.hash

instance (nHeight : Int) (last : ChainEntry) : Decidable (s.Stale nHeight last) :=
  inferInstanceAs (Decidable (_ ∨ _))

/-- The cache behind `CreateNewBlock`, on top of `prev`; `last` is the last block accumulated. -/
def updateCache (prev last : ChainEntry) : CheckpointCache :=
  let nHeight := prev.pindex.nHeight + 1
  if s.Stale nHeight last then
    if P.nBlockZerocoinV2 ≤ nHeight then
      match if fZerocoinActive then s.chain.checkpointAt P A M nHeight else some 0 with
      | none => { s.cache with nCheckpoint := prev.pindex.nAccumulatorCheckpoint }
      | some nCheckpoint => ⟨nHeight + (10 - nHeight % 10), last.block.hash, nCheckpoint⟩
    else { s.cache with nCheckpoint := prev.pindex.nAccumulatorCheckpoint }
  else s.cache

/-- `CreateNewBlock`: the checkpoint of the block; nothing for a null pointer. -/
def CreateNewBlock : MinerChain × Option uint256 :=
  match s.chain.chainActive with
  | [] => (s, none)
  | prev :: _ =>
    match s.chain.at' (updateHeight (prev.pindex.nHeight + 1) - 10) with
    | none => (s, none)
    | some last =>
      let cache := updateCache P A M fZerocoinActive s prev last
      ({ s with cache := cache }, some cache.nCheckpoint)

end

def step (P : CChainParams) (A : AccumulatorParams) (s : MinerChain) : MinerEvent → MinerChain
  | .chain e => { s with chain := accumulatorStep P A s.chain e }
  | .restart => { s with cache := ⟨0, 0, 0⟩ }
  | .createNewBlock M fZerocoinActive => (CreateNewBlock P A M fZerocoinActive s).1

/-! ## What a calculation depends on -/

/-- What a hash stands for: the blocks from it down, with their heights and checkpoints. -/
def outline (chain : List ChainEntry) : List (CBlock × Int × uint256) :=
  chain.map fun entry => (entry.block, entry.pindex.nHeight, entry.pindex.nAccumulatorCheckpoint)

/-- Each hash stands for one chain, each checksum for one value. -/
structure Unambiguous (pastOf : uint256 → List (CBlock × Int × uint256))
    (valueOf : BitVec 32 → Int) (s : AccumulatorChain) : Prop where
  past : ∀ upper last rest, s.chainActive = upper ++ last :: rest →
    outline (last :: rest) = pastOf last.block.hash
  values : ∀ c, ∀ v ∈ s.accumulatorValues c, v = valueOf c

/-- In between the multiples of ten the checkpoint stays as it is. -/
def Level (P : CChainParams) (s : AccumulatorChain) : Prop :=
  ∀ entry ∈ s.chainActive, P.nBlockZerocoinV2 ≤ updateHeight (heightOf entry) →
    ∃ first, s.at' (updateHeight (heightOf entry)) = some first ∧
      first.pindex.nAccumulatorCheckpoint = entry.pindex.nAccumulatorCheckpoint

section
variable {P : CChainParams} {A : AccumulatorParams} {N : CConnectNode} {M M' : CAccumulatorNode}
  {s s' : AccumulatorChain} {nHeight : Int}

theorem outline_mints {l l' : List ChainEntry} (h : outline l = outline l') (a b : Int) :
    (Segment.between heightOf l a b).flatMap (mintsOf N) =
      (Segment.between heightOf l' a b).flatMap (mintsOf N) := by
  have hread : ∀ l : List ChainEntry, (Segment.between heightOf l a b).flatMap (mintsOf N) =
      (((outline l).filter fun e => decide (a ≤ e.2.1 ∧ e.2.1 < b)).reverse.flatMap fun e =>
        (BlockToPubcoinList N true e.1.vtx).getD []) := by
    intro l
    rw [outline, filter_map, ← map_reverse, flatMap_map]
    rfl
  rw [hread, hread, h]

theorem between_down {upper rest : List ChainEntry} {last : ChainEntry} (a : Int)
    (hchain : Segment.Falling heightOf (upper ++ last :: rest)) :
    Segment.between heightOf (upper ++ last :: rest) a (heightOf last) =
      Segment.between heightOf (last :: rest) a (heightOf last) := by
  induction upper with
  | nil => rfl
  | cons entry upper ih =>
    obtain ⟨habove, hfalling⟩ := pairwise_cons.mp hchain
    rw [← ih hfalling]
    exact Segment.between_cons (habove last (mem_append_right _ mem_cons_self)).le

def Agree (m m' : AccumulatorMap) : Prop :=
  m.useModulusV1 = m'.useModulusV1 ∧ ∀ denom ∈ CoinDenomination.zerocoinDenomList,
    m.mapAccumulators denom = m'.mapAccumulators denom

variable {db db' : Records.Store (BitVec 32) Int}

theorem load_agree {nCheckpoint : uint256}
    {m₀ m m' : AccumulatorMap} (hvalues : ∀ c, ∀ v ∈ db c, ∀ v' ∈ db' c, v = v')
    (h : m₀.Load db nCheckpoint = some m) (h' : m₀.Load db' nCheckpoint = some m') :
    Agree m m' := by
  unfold Load at h h'
  split_ifs at h with hall
  split_ifs at h' with hall'
  cases h
  cases h'
  refine ⟨rfl, fun denom hdenom => ?_⟩
  obtain ⟨v, hv⟩ := Option.isSome_iff_exists.mp (all_eq_true.mp hall denom hdenom)
  obtain ⟨v', hv'⟩ := Option.isSome_iff_exists.mp (all_eq_true.mp hall' denom hdenom)
  show (db _).getD 0 = (db' _).getD 0
  rw [hv, hv']
  exact hvalues _ v hv v' hv'

section
variable (hnet : IsNetwork P) (hV2 : P.nBlockZerocoinV2 ≤ nHeight)
include hnet hV2

theorem initialize_agree (hprev : ∀ prev ∈ s.at' (nHeight - 1), ∀ prev' ∈ s'.at' (nHeight - 1),
      prev.pindex.nAccumulatorCheckpoint = prev'.pindex.nAccumulatorCheckpoint)
    (hvalues : ∀ c, ∀ v ∈ s.accumulatorValues c, ∀ v' ∈ s'.accumulatorValues c, v = v')
    {c c' : Int} {m m' : AccumulatorMap}
    (h : s.InitializeAccumulators P A M nHeight = (db, some (c, m)))
    (h' : s'.InitializeAccumulators P A M' nHeight = (db', some (c', m'))) :
    c = c' ∧ Agree m m' := by
  have hrecalculate : nHeight ≠ P.nBlockRecalculateAccumulators := by
    have hlt := recalculate_lt hnet
    omega
  unfold InitializeAccumulators at h h'
  dsimp only at h h'
  rw [if_neg hrecalculate, if_pos hV2] at h h'
  split_ifs at h with hstart hhard
  · cases h
  · rw [if_neg hstart, if_pos hhard] at h'
    split at h
    · cases h
    next checkpoint hfind =>
      rw [hfind] at h'
      cases h
      cases h'
      exact ⟨rfl, rfl, fun _ _ => rfl⟩
  · rw [if_neg hstart, if_neg hhard] at h'
    split at h
    · cases h
    next prev hat =>
      split at h'
      · cases h'
      next prev' hat' =>
        rw [← hprev prev hat prev' hat'] at h'
        split_ifs at h with hzero
        · rw [if_pos hzero] at h'
          cases h
          cases h'
          exact ⟨rfl, rfl, fun _ _ => rfl⟩
        · rw [if_neg hzero] at h'
          split at h
          · cases h
          next hload =>
            split at h'
            · cases h'
            next hload' =>
              cases h
              cases h'
              exact ⟨rfl, load_agree hvalues hload hload'⟩

/-- **A calculation depends on what is under the key**: two chains with the same blocks below
`nHeight - 10`, and the same checkpoint before, give the same. -/
theorem calculate_agree (hM : M.Z = N.Z ∧ M.ContainsOutPoint = N.ContainsOutPoint)
    (hM' : M'.Z = N.Z ∧ M'.ContainsOutPoint = N.ContainsOutPoint)
    (hfalling : Segment.Falling heightOf s.chainActive)
    (hfalling' : Segment.Falling heightOf s'.chainActive)
    (hmints : ∀ a, mintsBetween P N s a (nHeight - 10) = mintsBetween P N s' a (nHeight - 10))
    (hprev : ∀ prev ∈ s.at' (nHeight - 1), ∀ prev' ∈ s'.at' (nHeight - 1),
      prev.pindex.nAccumulatorCheckpoint = prev'.pindex.nAccumulatorCheckpoint)
    (hvalues : ∀ c, ∀ v ∈ s.accumulatorValues c, ∀ v' ∈ s'.accumulatorValues c, v = v')
    {v v' : uint256}
    (h : (s.CalculateAccumulatorCheckpoint P A M nHeight).2.map Prod.fst = some v)
    (h' : (s'.CalculateAccumulatorCheckpoint P A M' nHeight).2.map Prod.fst = some v') :
    v = v' := by
  have hfilter : decide (P.nBlockRecalculateAccumulators ≤ nHeight) = true :=
    decide_eq_true ((recalculate_lt hnet).le.trans hV2)
  unfold CalculateAccumulatorCheckpoint at h h'
  split at h
  · cases h
  next db c m hinit =>
  split at h'
  · cases h'
  next db' c' m' hinit' =>
  obtain ⟨rfl, huse, hstart⟩ := initialize_agree hnet hV2 hprev hvalues hinit hinit'
  dsimp only at h h'
  rw [hfilter] at h h'
  split at h
  · cases h
  next m₁ n hloop =>
  split at h'
  · cases h'
  next m₁' n' hloop' =>
  obtain ⟨hadded, hcount⟩ := accumulateBlocks_spec hM.1 hM.2 hfalling hloop
  obtain ⟨hadded', hcount'⟩ := accumulateBlocks_spec hM'.1 hM'.2 hfalling' hloop'
  have hcoins : mintsBetween P N s (c - 20) (c - 20 + (nHeight - 10 - (c - 20)).toNat) =
      mintsBetween P N s' (c - 20) (c - 20 + (nHeight - 10 - (c - 20)).toNat) := by
    rcases le_total (c - 20) (nHeight - 10) with hle | hle
    · rw [Int.toNat_of_nonneg (by omega), add_sub_cancel]
      exact hmints _
    · rw [mintsBetween_of_le (by omega), mintsBetween_of_le (by omega)]
  rw [← hcoins] at hadded' hcount'
  obtain rfl : n = n' := hcount.trans hcount'.symm
  have hmaps : ∀ denom ∈ CoinDenomination.zerocoinDenomList,
      m₁.mapAccumulators denom = m₁'.mapAccumulators denom := fun denom hdenom => by
    rw [(Accumulate_spec hadded).2 denom, (Accumulate_spec hadded').2 denom, huse,
      hstart denom hdenom]
  split_ifs at h with hnone
  · rw [if_pos hnone] at h'
    cases hat : s.at' (nHeight - 1) with
    | none =>
      rw [hat] at h
      cases h
    | some prev =>
      cases hat' : s'.at' (nHeight - 1) with
      | none =>
        rw [hat'] at h'
        cases h'
      | some prev' =>
        rw [hat] at h
        rw [hat'] at h'
        cases h
        cases h'
        exact hprev prev hat prev' hat'
  · rw [if_neg hnone] at h'
    cases h
    cases h'
    exact GetCheckpoint_congr hmaps

end

/-! ## What was computed under a key -/

variable {pastOf : uint256 → List (CBlock × Int × uint256)} {valueOf : BitVec 32 → Int}
  {last : ChainEntry} {key : uint256} {v v' : uint256}

/-- A chain as the node has them. -/
structure Sane (P : CChainParams) (pastOf : uint256 → List (CBlock × Int × uint256))
    (valueOf : BitVec 32 → Int) (s : AccumulatorChain) : Prop where
  falling : Segment.Falling heightOf s.chainActive
  level : Level P s
  unambiguous : Unambiguous pastOf valueOf s

/-- The libraries of the node. -/
def SameLibrary (N : CConnectNode) (M : CAccumulatorNode) : Prop :=
  M.Z = N.Z ∧ M.ContainsOutPoint = N.ContainsOutPoint

/-- A chain with this block ten below the height gives the checkpoint. -/
def Due (P : CChainParams) (A : AccumulatorParams) (N : CConnectNode)
    (pastOf : uint256 → List (CBlock × Int × uint256)) (valueOf : BitVec 32 → Int)
    (key : uint256) (nHeight : Int) (v : uint256) : Prop :=
  ∃ s M last, Sane P pastOf valueOf s ∧ SameLibrary N M ∧ s.at' (nHeight - 10) = some last ∧
    last.block.hash = key ∧ (s.CalculateAccumulatorCheckpoint P A M nHeight).2.map Prod.fst = some v

theorem Sane.down (h : Sane P pastOf valueOf s) (hat : s.at' nHeight = some last) :
    ∃ upper rest, s.chainActive = upper ++ last :: rest ∧
      outline (last :: rest) = pastOf last.block.hash := by
  obtain ⟨upper, rest, hchain⟩ := append_of_mem (at_eq_some hat).1
  exact ⟨upper, rest, hchain, h.unambiguous.past upper last rest hchain⟩

theorem Level.before (h : Level P s) (hten : nHeight % 10 = 0)
    (hV2 : P.nBlockZerocoinV2 ≤ nHeight - 10) (hat : s.at' (nHeight - 10) = some last) :
    ∀ prev ∈ s.at' (nHeight - 1),
      prev.pindex.nAccumulatorCheckpoint = last.pindex.nAccumulatorCheckpoint := by
  intro prev hprev
  obtain ⟨hmem, hheight⟩ := at_eq_some hprev
  have hupdate : updateHeight (heightOf prev) = nHeight - 10 := by
    rw [hheight, updateHeight]
    omega
  obtain ⟨first, hfirst, hcheckpoint⟩ := h prev hmem (by rwa [hupdate])
  rw [hupdate, hat] at hfirst
  exact Option.some.inj hfirst ▸ hcheckpoint.symm

theorem due_unique (hnet : IsNetwork P) (hten : nHeight % 10 = 0)
    (hV2 : P.nBlockZerocoinV2 ≤ nHeight - 10) (h : Due P A N pastOf valueOf key nHeight v)
    (h' : Due P A N pastOf valueOf key nHeight v') : v = v' := by
  obtain ⟨s, M, last, hs, hM, hat, rfl, hgives⟩ := h
  obtain ⟨s', M', last', hs', hM', hat', hkey, hgives'⟩ := h'
  obtain ⟨upper, rest, hchain, houtline⟩ := hs.down hat
  obtain ⟨upper', rest', hchain', houtline'⟩ := hs'.down hat'
  have hsame : outline (last :: rest) = outline (last' :: rest') := by
    rw [houtline, houtline', hkey]
  have hhead : last.pindex.nAccumulatorCheckpoint = last'.pindex.nAccumulatorCheckpoint :=
    congrArg (fun e => e.2.2) (cons.inj hsame).1
  refine calculate_agree hnet (by omega) hM hM' hs.falling hs'.falling (fun a => ?_) ?_ ?_ hgives
    hgives'
  · have hheight := (at_eq_some hat).2
    have hheight' := (at_eq_some hat').2
    have hdown := @between_down upper rest last (max P.nZerocoinStartHeight a) (hchain ▸ hs.falling)
    have hdown' := @between_down upper' rest' last' (max P.nZerocoinStartHeight a)
      (hchain' ▸ hs'.falling)
    rw [hheight] at hdown
    rw [hheight'] at hdown'
    rw [mintsBetween, mintsBetween, hchain, hchain', hdown, hdown', outline_mints hsame]
  · intro prev hprev prev' hprev'
    rw [hs.level.before hten hV2 hat prev hprev, hs'.level.before hten hV2 hat' prev' hprev', hhead]
  · intro c w hw w' hw'
    rw [hs.unambiguous.values c w hw, hs'.unambiguous.values c w' hw']

/-! ## The chain -/

variable (P A N pastOf valueOf) in
/-- The checkpoints of the chain are those that were due. -/
structure Linked (s : AccumulatorChain) : Prop where
  falling : Segment.Falling heightOf s.chainActive
  level : Level P s
  computed : ∀ entry ∈ s.chainActive, heightOf entry % 10 = 0 →
    P.nBlockZerocoinV2 ≤ heightOf entry - 10 → ∀ last ∈ s.at' (heightOf entry - 10),
      Due P A N pastOf valueOf last.block.hash (heightOf entry) entry.pindex.nAccumulatorCheckpoint

variable {entry : ChainEntry}

theorem Linked.same (hs : Linked P A N pastOf valueOf s) (h : s'.chainActive = s.chainActive) :
    Linked P A N pastOf valueOf s' := by
  obtain ⟨chain, view, db⟩ := s'
  obtain rfl : chain = s.chainActive := h
  exact ⟨hs.falling, hs.level, hs.computed⟩

theorem at_cons (h : s'.chainActive = entry :: s.chainActive) (hne : nHeight ≠ heightOf entry) :
    s'.at' nHeight = s.at' nHeight := by
  rw [at', h, List.find?_cons_of_neg, at']
  exact fun heq => hne (beq_iff_eq.mp heq).symm

theorem updateHeight_le (nHeight : Int) : updateHeight nHeight ≤ nHeight := by
  rw [updateHeight]
  omega

theorem Linked.disconnect (hs : Linked P A N pastOf valueOf s)
    (h : s.chainActive = entry :: s'.chainActive) : Linked P A N pastOf valueOf s' := by
  have hfalling := hs.falling
  rw [h] at hfalling
  obtain ⟨habove, hfalling⟩ := pairwise_cons.mp hfalling
  have hmem : ∀ e ∈ s'.chainActive, e ∈ s.chainActive := fun e he => by
    rw [h]
    exact mem_cons_of_mem entry he
  refine ⟨hfalling, fun e he hV2 => ?_, fun e he hten hV2 last hlast => ?_⟩
  · have hle := updateHeight_le (heightOf e)
    have hlt := habove e he
    rw [← at_cons h (by omega)]
    exact hs.level e (hmem e he) hV2
  · have hlt := habove e he
    rw [← at_cons h (by omega)] at hlast
    exact hs.computed e (hmem e he) hten hV2 last hlast

section
variable (hnet : IsNetwork P) (hs : Linked P A N pastOf valueOf s)
  (hclear : Unambiguous pastOf valueOf s)
include hnet hs hclear

theorem Linked.connect (hM : SameLibrary N M) {tip : ChainEntry}
    {rest : List ChainEntry} (htip : s.chainActive = tip :: rest)
    (h : s'.chainActive = entry :: s.chainActive) (hheight : heightOf entry = heightOf tip + 1)
    {db : Records.Store (BitVec 32) Int} {m : AccumulatorMap}
    (hvalid : s.ValidateAccumulatorCheckpoint P A M (heightOf entry)
      entry.pindex.nAccumulatorCheckpoint tip = (db, some m)) :
    Linked P A N pastOf valueOf s' := by
  have hbelow : ∀ e ∈ s.chainActive, heightOf e < heightOf entry := fun e he => by
    have hle := falling_le_tip hs.falling htip he
    omega
  have hself : s'.at' (heightOf entry) = some entry := by
    rw [at', h]
    exact List.find?_cons_of_pos (beq_self_eq_true _)
  refine ⟨?_, fun e he hV2 => ?_, fun e he hten hV2 last hlast => ?_⟩
  · rw [h]
    exact pairwise_cons.mpr ⟨hbelow, hs.falling⟩
  · rw [h] at he
    have hle := updateHeight_le (heightOf e)
    rcases mem_cons.mp he with rfl | he
    · rcases ValidateAccumulatorCheckpoint_cases hnet (hV2.trans hle) hvalid with
        ⟨hten, -⟩ | ⟨hten, hsame⟩
      · have hupdate : updateHeight (heightOf e) = heightOf e := by
          rw [updateHeight]
          omega
        rw [hupdate]
        exact ⟨e, hself, rfl⟩
      · have hupdate : updateHeight (heightOf e) = updateHeight (heightOf tip) := by
          rw [updateHeight, updateHeight]
          omega
        rw [hupdate] at hV2 ⊢
        have hle := updateHeight_le (heightOf tip)
        rw [at_cons h (by omega), hsame]
        exact hs.level tip (htip ▸ .head _) hV2
    · have hlt := hbelow e he
      rw [at_cons h (by omega)]
      exact hs.level e he hV2
  · rw [h] at he
    rw [at_cons h (by
      rcases mem_cons.mp he with rfl | he
      · omega
      · have hlt := hbelow e he
        omega)] at hlast
    rcases mem_cons.mp he with rfl | he
    · rcases ValidateAccumulatorCheckpoint_cases hnet (by omega) hvalid with
        ⟨-, hcalc⟩ | ⟨hno, -⟩
      · exact ⟨s, M, last, ⟨hs.falling, hs.level, hclear⟩, hM, hlast, rfl, by rw [hcalc]; rfl⟩
      · exact absurd hten hno
    · exact hs.computed e he hten hV2 last hlast

/-- **What happens to the chain leaves it linked.** -/
theorem Linked.step {e : AccumulatorEvent} (harrive : Arriving N e) :
    Linked P A N pastOf valueOf (accumulatorStep P A s e) := by
  cases e with
  | disconnectTip M =>
    have hchain : (s.DisconnectTip P M).chainActive = staying P M s := DisconnectTip_eq.1
    rw [staying] at hchain
    split at hchain
    next tip prev rest htip =>
      split at hchain
      · exact hs.disconnect (htip.trans (congrArg (tip :: ·) hchain.symm))
      · exact hs.same (hchain.trans htip.symm)
    next => exact hs.same hchain
  | connectTip M block nCheckpoint pindexNew fAlreadyChecked =>
    obtain ⟨hlibrary, hpoints, hversion⟩ := harrive
    rcases @ConnectTip_validated P A M s block nCheckpoint pindexNew fAlreadyChecked with
      h | ⟨tip, rest, entry, db, m, htip, h, hheight, hcheckpoint, hvalid⟩
    · exact hs.same h
    · have hown : entry.pindex.nAccumulatorCheckpoint = nCheckpoint := by
        rw [hcheckpoint]
        split_ifs with h3
        · rfl
        · exact (hversion h3).symm
      exact hs.connect hnet hclear ⟨hlibrary, hpoints⟩ htip h hheight (hown ▸ hvalid)

end

/-! ## The cache -/

variable {c : MinerChain} {prev : ChainEntry} {rest : List ChainEntry} {fZerocoinActive : Bool}

variable (P A N pastOf valueOf) in
/-- The key is that of a multiple of ten, and the checkpoint was due under it. -/
def Keyed (cache : CheckpointCache) : Prop :=
  cache.first ≤ P.nBlockZerocoinV2 ∨ ∃ nUpdate e past, cache.first = nUpdate + 10 ∧
    pastOf cache.hashBlock = e :: past ∧ e.2.1 = nUpdate - 10 ∧
    (P.nBlockZerocoinV2 ≤ nUpdate - 10 →
      Due P A N pastOf valueOf cache.hashBlock nUpdate cache.nCheckpoint)

variable (P A M) in
/-- A checkpoint that is computed is one, and no key from further up is left below V2. -/
def Sound (c : MinerChain) (fZerocoinActive : Bool) (nHeight : Int) (last : ChainEntry) : Prop :=
  (nHeight < P.nBlockZerocoinV2 → c.cache.first ≤ nHeight) ∧
    (P.nBlockZerocoinV2 ≤ nHeight → c.Stale nHeight last →
      fZerocoinActive = true ∧ (c.chain.checkpointAt P A M nHeight).isSome = true)

theorem due_checkpointAt (hs : Linked P A N pastOf valueOf s)
    (hclear : Unambiguous pastOf valueOf s)
    (hM : SameLibrary N M) (hprev : s.chainActive = prev :: rest)
    (hheight : nHeight = heightOf prev + 1) (hlast : s.at' (updateHeight nHeight - 10) = some last)
    (hV2 : P.nBlockZerocoinV2 ≤ updateHeight nHeight - 10)
    (h : s.checkpointAt P A M nHeight = some v) :
    Due P A N pastOf valueOf last.block.hash (updateHeight nHeight) v := by
  have hle := updateHeight_le nHeight
  rw [checkpointAt, if_neg (by omega)] at h
  split_ifs at h with hten
  · -- the block of the multiple of ten has it
    rw [at_below hprev hheight] at h
    obtain rfl : prev.pindex.nAccumulatorCheckpoint = v := Option.some.inj h
    have hupdate : updateHeight (heightOf prev) = updateHeight nHeight := by
      rw [updateHeight, updateHeight]
      omega
    obtain ⟨first, hfirst, hcheckpoint⟩ := hs.level prev (hprev ▸ .head _) (by omega)
    rw [hupdate] at hfirst
    obtain ⟨hmem, hat⟩ := at_eq_some hfirst
    rw [← hat] at hlast hV2 ⊢
    rw [← hcheckpoint]
    exact hs.computed first hmem (by rw [hat, updateHeight]; omega) hV2 last hlast
  · have hupdate : updateHeight nHeight = nHeight := by
      rw [updateHeight]
      omega
    rw [hupdate] at hlast ⊢
    exact ⟨s, M, last, ⟨hs.falling, hs.level, hclear⟩, hM, hlast, rfl, h⟩

/-- **A call**: the cache is keyed behind it, and has the right checkpoint. -/
theorem updateCache_spec (hnet : IsNetwork P) (hs : Linked P A N pastOf valueOf c.chain)
    (hclear : Unambiguous pastOf valueOf c.chain) (hkeyed : Keyed P A N pastOf valueOf c.cache)
    (hM : SameLibrary N M) (hprev : c.chain.chainActive = prev :: rest)
    (hlast : c.chain.at' (updateHeight (prev.pindex.nHeight + 1) - 10) = some last)
    (hsound : Sound P A M c fZerocoinActive (prev.pindex.nHeight + 1) last) :
    Keyed P A N pastOf valueOf (updateCache P A M fZerocoinActive c prev last) ∧
      (prev.pindex.nHeight + 1 < P.nBlockZerocoinV2 →
        (updateCache P A M fZerocoinActive c prev last).nCheckpoint =
          prev.pindex.nAccumulatorCheckpoint) ∧
      (P.nBlockZerocoinV2 ≤ updateHeight (prev.pindex.nHeight + 1) - 10 →
        ∀ v ∈ c.chain.checkpointAt P A M (prev.pindex.nHeight + 1),
          (updateCache P A M fZerocoinActive c prev last).nCheckpoint = v) := by
  have hdue : ∀ v, P.nBlockZerocoinV2 ≤ updateHeight (prev.pindex.nHeight + 1) - 10 →
      c.chain.checkpointAt P A M (prev.pindex.nHeight + 1) = some v →
      Due P A N pastOf valueOf last.block.hash (updateHeight (prev.pindex.nHeight + 1)) v :=
    fun v => due_checkpointAt hs hclear hM hprev rfl hlast
  generalize hnext : prev.pindex.nHeight + 1 = nHeight at *
  have hle := updateHeight_le nHeight
  obtain ⟨upper, below, hchain⟩ := append_of_mem (at_eq_some hlast).1
  have hpast := (hclear.past upper last below hchain).symm
  have hat : last.pindex.nHeight = updateHeight nHeight - 10 := (at_eq_some hlast).2
  rw [updateCache, hnext]
  by_cases hstale : c.Stale nHeight last
  · rw [if_pos hstale]
    by_cases hV2 : P.nBlockZerocoinV2 ≤ nHeight
    swap
    · have hfirst := hsound.1 (not_le.mp hV2)
      rw [if_neg hV2]
      exact ⟨.inl (hfirst.trans (not_le.mp hV2).le), fun _ => rfl, fun h => absurd h (by omega)⟩
    obtain ⟨hactive, hsome⟩ := hsound.2 hV2 hstale
    obtain ⟨v, hv⟩ := Option.isSome_iff_exists.mp hsome
    rw [if_pos hV2, if_pos hactive, hv]
    refine ⟨.inr ⟨updateHeight nHeight, _, _, ?_, hpast, hat, fun hV2 => hdue v hV2 hv⟩,
      fun hbelow => absurd hV2 (not_le.mpr hbelow), fun _ v' hv' => Option.some.inj hv'⟩
    show nHeight + (10 - nHeight % 10) = updateHeight nHeight + 10
    rw [updateHeight]
    omega
  · obtain ⟨hafter, hkey⟩ := not_or.mp hstale
    rw [if_neg hstale]
    refine ⟨hkeyed, fun hbelow => absurd (hsound.1 hbelow) hafter, fun hV2 v hv => ?_⟩
    -- the block with the hash of the key is ten below the multiple of ten
    obtain hold | ⟨nUpdate, e, past, -, hpastKey, he, hdueKey⟩ := hkeyed
    · exact absurd (hold.trans (by omega)) hafter
    · rw [not_not.mp hkey, hpast] at hpastKey
      have hhead := congrArg (fun e => e.2.1) (cons.inj hpastKey).1
      obtain rfl : nUpdate = updateHeight nHeight := by
        have hhead : last.pindex.nHeight = e.2.1 := hhead
        omega
      rw [not_not.mp hkey] at hdueKey
      exact due_unique hnet (by rw [updateHeight]; omega) hV2 (hdueKey hV2) (hdue v hV2 hv)

variable (P A N pastOf valueOf) in
def Proper (c : MinerChain) (e : MinerEvent) : Prop :=
  Unambiguous pastOf valueOf c.chain ∧
    match e with
    | .chain e => Arriving N e
    | .restart => True
    | .createNewBlock M fZerocoinActive => SameLibrary N M ∧
        ∀ prev ∈ c.chain.chainActive.head?,
          ∀ last ∈ c.chain.at' (updateHeight (prev.pindex.nHeight + 1) - 10),
            Sound P A M c fZerocoinActive (prev.pindex.nHeight + 1) last

variable (P A) in
/-- The checkpoint of a new block: below V2 that of the block before, and what is computed for its
height from the first group on that has ten blocks of version 2 below it. -/
def Supplied (c : MinerChain) : MinerEvent → Prop
  | .createNewBlock M fZerocoinActive =>
    ∀ v ∈ (CreateNewBlock P A M fZerocoinActive c).2, ∀ prev ∈ c.chain.chainActive.head?,
      (prev.pindex.nHeight + 1 < P.nBlockZerocoinV2 → v = prev.pindex.nAccumulatorCheckpoint) ∧
      (P.nBlockZerocoinV2 ≤ updateHeight (prev.pindex.nHeight + 1) - 10 →
        ∀ v' ∈ c.chain.checkpointAt P A M (prev.pindex.nHeight + 1), v = v')
  | _ => True

theorem step_supplied (hnet : IsNetwork P) {e : MinerEvent}
    (hc : Linked P A N pastOf valueOf c.chain ∧ Keyed P A N pastOf valueOf c.cache)
    (hproper : Proper P A N pastOf valueOf c e) :
    (Linked P A N pastOf valueOf (step P A c e).chain ∧
      Keyed P A N pastOf valueOf (step P A c e).cache) ∧ Supplied P A c e := by
  obtain ⟨hclear, hevent⟩ := hproper
  obtain ⟨hs, hkeyed⟩ := hc
  cases e with
  | chain e => exact ⟨⟨hs.step hnet hclear hevent, hkeyed⟩, trivial⟩
  | restart => exact ⟨⟨hs, .inl (V2_nonneg hnet)⟩, trivial⟩
  | createNewBlock M fZerocoinActive =>
    obtain ⟨hM, hsound⟩ := hevent
    rw [step, Supplied, CreateNewBlock]
    split
    next => exact ⟨⟨hs, hkeyed⟩, nofun⟩
    next prev rest hprev =>
      rw [hprev] at hsound
      split
      next => exact ⟨⟨hs, hkeyed⟩, nofun⟩
      next last hlast =>
        obtain ⟨hkeyed, hbelow, habove⟩ := updateCache_spec hnet hs hclear hkeyed hM hprev hlast
          (hsound prev rfl last hlast)
        refine ⟨⟨hs, hkeyed⟩, ?_⟩
        rintro v hv prev' hprev'
        rw [hprev] at hprev'
        cases hv
        cases hprev'
        exact ⟨hbelow, habove⟩

end

/-! ## Below V2, for example -/

def earlyEntry (nHeight : Int) : ChainEntry where
  block := { quietBlock COIN [] with hash := BitVec.ofInt 256 nHeight }
  pindex := { quietTip nHeight with nAccumulatorCheckpoint := 5 }

/-- A chain of ten blocks whose headers have a checkpoint. -/
def earlyMiner : MinerChain where
  chain := ⟨downFrom earlyEntry 9, oneCoin, fun _ => none⟩
  cache := ⟨0, 0, 0⟩

theorem downFrom_suffix {entryAt : Int → ChainEntry} {n : Nat} {upper rest : List ChainEntry}
    {last : ChainEntry} (h : downFrom entryAt n = upper ++ last :: rest) :
    ∃ k ≤ n, last = entryAt k ∧ last :: rest = downFrom entryAt k := by
  induction n generalizing upper with
  | zero =>
    cases upper with
    | nil => exact ⟨0, le_refl 0, (cons.inj h).1.symm, h.symm⟩
    | cons entry upper => exact absurd (cons.inj h).2.symm (by simp)
  | succ n ih =>
    cases upper with
    | nil => exact ⟨n + 1, le_refl _, (cons.inj h).1.symm, h.symm⟩
    | cons entry upper =>
      obtain ⟨k, hk, hlast⟩ := ih (cons.inj h).2
      exact ⟨k, hk.trans (Nat.le_succ n), hlast⟩

end MinerChain

end Divitae
