/-
# `BlockHashCache` — the block hash that nodes are ranked with

`GetBlockHash` and `GetBlockHashMN` walk back from the tip of the active chain and keep what
they find in a map by height.  Nothing is ever taken out of these maps, not when a block is
disconnected either.

    hashUnder chain k    the hash at the height that the number `k` stands for: the height
                         before it, or the tip's for a number below zero
    Unforgotten          what was first found under the number is there still

A number that was asked for before is answered with what was found then, so that the answer
is the active chain's exactly where that is `Unforgotten`.
-/
import Divitae.Lib.Memo
import Divitae.Coins

namespace Divitae.Ranking

open List

/-- The hashes of the active chain, from the tip to the genesis block, and the two maps. -/
structure ChainNode where
  chainActive : List uint256
  mapCacheBlockHashes : Int → Option uint256
  mapCacheBlockHashesMN : Int → Option uint256

/-- `nHeight` of the tip. -/
def Height (chain : List uint256) : Int := chain.length - 1

/-- The loop, `n` blocks behind the tip.  It stops at the genesis block. -/
def readBack (nBlocksAgo : Int) : Int → List uint256 → Option uint256
  | _, [] => none
  | _, [_] => none
  | n, hash :: prev :: rest =>
    if n ≥ nBlocksAgo then some hash else readBack nBlocksAgo (n + 1) (prev :: rest)

/-- Zero stands for the height of the tip. -/
def cacheKey (chain : List uint256) (nBlockHeight : Int) : Int :=
  if nBlockHeight = 0 then Height chain else nBlockHeight

/-- The text that both functions share, over the map of the one or the other. -/
def cachedBlockHash (chain : List uint256) (cache : Int → Option uint256) (nBlockHeight : Int) :
    Option uint256 × (Int → Option uint256) :=
  if chain.isEmpty then (none, cache)
  else
    let nBlockHeight := cacheKey chain nBlockHeight
    match cache nBlockHeight with
    | some hash => (some hash, cache)
    | none =>
      if Height chain = 0 ∨ Height chain + 1 < nBlockHeight then (none, cache)
      else
        let nBlocksAgo := if nBlockHeight > 0 then Height chain + 1 - nBlockHeight else 0
        match readBack nBlocksAgo 0 chain with
        | some hash => (some hash, Function.update cache nBlockHeight (some hash))
        | none => (none, cache)

namespace ChainNode

variable (N : ChainNode)

def GetBlockHash (nBlockHeight : Int) : Option uint256 × ChainNode :=
  let found := cachedBlockHash N.chainActive N.mapCacheBlockHashes nBlockHeight
  (found.1, { N with mapCacheBlockHashes := found.2 })

def GetBlockHashMN (nBlockHeight : Int) : Option uint256 × ChainNode :=
  let found := cachedBlockHash N.chainActive N.mapCacheBlockHashesMN nBlockHeight
  (found.1, { N with mapCacheBlockHashesMN := found.2 })

/-- `SetTip` of a block on top of the tip. -/
def connect (hash : uint256) : ChainNode := { N with chainActive := hash :: N.chainActive }

/-- `SetTip` of the block before the tip. -/
def disconnect : ChainNode :=
  match N.chainActive with
  | _ :: prev :: rest => { N with chainActive := prev :: rest }
  | _ => N

def start (tip : uint256) (behind : List uint256) : ChainNode :=
  ⟨tip :: behind, fun _ => none, fun _ => none⟩

end ChainNode

/-- Whose hash is asked for. -/
inductive RankedKind where
  | prosperitynode
  | masternode
  deriving DecidableEq

def RankedKind.ask (N : ChainNode) (nBlockHeight : Int) : RankedKind → Option uint256 × ChainNode
  | .prosperitynode => N.GetBlockHash nBlockHeight
  | .masternode => N.GetBlockHashMN nBlockHeight

def RankedKind.cache (N : ChainNode) : RankedKind → Int → Option uint256
  | .prosperitynode => N.mapCacheBlockHashes
  | .masternode => N.mapCacheBlockHashesMN

inductive ChainEvent where
  | connect (hash : uint256)
  | disconnect
  | ask (kind : RankedKind) (nBlockHeight : Int)

def chainStep (N : ChainNode) : ChainEvent → ChainNode
  | .connect hash => N.connect hash
  | .disconnect => N.disconnect
  | .ask kind nBlockHeight => (kind.ask N nBlockHeight).2

def chainRun (tip : uint256) (behind : List uint256) (es : List ChainEvent) : ChainNode :=
  es.foldl chainStep (.start tip behind)

/-! ## What the active chain says -/

/-- The hash that the number stands for, the genesis block's left out. -/
def hashUnder (chain : List uint256) (k : Int) : Option uint256 :=
  let nHeight := if k > 0 then k - 1 else Height chain
  if nHeight < 1 then none else chain.reverse[nHeight.toNat]?

/-- The hash at the height that corresponds to `nBlockHeight`. -/
def chainHash (chain : List uint256) (nBlockHeight : Int) : Option uint256 :=
  hashUnder chain (cacheKey chain nBlockHeight)

/-- The questions of the run, each with the chain it was asked over. -/
def asked (kind : RankedKind) : ChainNode → List ChainEvent → List (List uint256 × Int)
  | _, [] => []
  | N, .connect hash :: es => asked kind (N.connect hash) es
  | N, .disconnect :: es => asked kind N.disconnect es
  | N, .ask kind' nBlockHeight :: es =>
    let later := asked kind (kind'.ask N nBlockHeight).2 es
    if kind' = kind then (N.chainActive, cacheKey N.chainActive nBlockHeight) :: later else later

/-- What was first found under the number of the height is there still. -/
def Unforgotten (kind : RankedKind) (tip : uint256) (behind : List uint256)
    (es : List ChainEvent) (nBlockHeight : Int) : Prop :=
  let chain := (chainRun tip behind es).chainActive
  ∀ hash, Memo.first hashUnder (asked kind (.start tip behind) es) (cacheKey chain nBlockHeight) =
    some hash → chainHash chain nBlockHeight = some hash

section
variable {chain : List uint256} {cache : Int → Option uint256} {k nBlockHeight : Int}

theorem readBack_eq (chain : List uint256) {n nBlocksAgo : Int} (hn : n ≤ nBlocksAgo) :
    readBack nBlocksAgo n chain =
      if (nBlocksAgo - n).toNat + 1 < chain.length then chain[(nBlocksAgo - n).toNat]?
      else none := by
  induction chain generalizing n with
  | nil => rfl
  | cons hash behind ih =>
    cases behind with
    | nil => exact (if_neg (by simp)).symm
    | cons prev rest =>
      rw [readBack]
      rcases eq_or_lt_of_le hn with rfl | hlt
      · rw [if_pos le_rfl, sub_self]
        rfl
      · have hnext : (nBlocksAgo - n).toNat = (nBlocksAgo - (n + 1)).toNat + 1 := by omega
        rw [if_neg (not_le.mpr hlt), ih (Int.add_one_le_of_lt hlt), hnext]
        simp only [length_cons, List.getElem?_cons_succ, Nat.add_lt_add_iff_right]

theorem readBack_hashUnder (hchain : chain ≠ []) :
    (if Height chain = 0 ∨ Height chain + 1 < k then none
      else readBack (if k > 0 then Height chain + 1 - k else 0) 0 chain) = hashUnder chain k := by
  have hlength : (chain.length : Int) = Height chain + 1 := by rw [Height]; omega
  have hpos : 0 < chain.length := length_pos_of_ne_nil hchain
  rw [hashUnder]
  rcases le_or_gt k 0 with hlow | hk
  · have hback := readBack_eq chain (le_refl 0)
    rw [if_neg (not_lt.mpr hlow), if_neg (not_lt.mpr hlow), hback]
    by_cases hgenesis : Height chain = 0
    · rw [if_pos (Or.inl hgenesis), if_pos (by omega)]
    · rw [if_neg (by omega), if_pos (by omega), if_neg (by omega)]
      exact (List.getElem?_reverse' (by omega)).symm
  · rw [if_pos hk, if_pos hk]
    by_cases hout : Height chain + 1 < k
    · rw [if_pos (Or.inr hout), if_neg (by omega)]
      exact (List.getElem?_eq_none (by rw [length_reverse]; omega)).symm
    · have hago : 0 ≤ Height chain + 1 - k := by omega
      have hback := readBack_eq chain hago
      rw [hback]
      by_cases hfirst : k = 1
      · rw [if_pos (show k - 1 < 1 by omega)]
        split_ifs with _ hshort
        · rfl
        · omega
        · rfl
      · rw [if_neg (by omega), if_pos (by omega), if_neg (by omega)]
        exact (List.getElem?_reverse' (by omega)).symm

theorem cachedBlockHash_eq (hchain : chain ≠ []) :
    cachedBlockHash chain cache nBlockHeight =
      Memo.ask hashUnder chain cache (cacheKey chain nBlockHeight) := by
  have hempty : ¬(chain.isEmpty = true) := fun h => hchain (isEmpty_iff.mp h)
  rw [cachedBlockHash, if_neg hempty, Memo.ask, ← readBack_hashUnder hchain]
  simp only
  cases cache (cacheKey chain nBlockHeight) with
  | some hash => rfl
  | none =>
    by_cases hout : Height chain = 0 ∨ Height chain + 1 < cacheKey chain nBlockHeight
    · simp only [if_pos hout]
    · simp only [if_neg hout]
      cases readBack _ 0 chain <;> rfl

end

/-! ## Runs -/

section
variable {kind : RankedKind} {N : ChainNode} {tip : uint256} {behind : List uint256}
  {es : List ChainEvent}

theorem asked_append (es' : List ChainEvent) :
    asked kind N (es ++ es') = asked kind N es ++ asked kind (es.foldl chainStep N) es' := by
  induction es generalizing N with
  | nil => rfl
  | cons e es ih =>
    cases e with
    | connect hash => exact ih
    | disconnect => exact ih
    | ask kind' nBlockHeight =>
      rw [cons_append, asked, asked]
      split_ifs with hkind
      · exact congrArg (_ :: ·) ih
      · exact ih

theorem chainStep_nonempty (hN : N.chainActive ≠ []) (e : ChainEvent) :
    (chainStep N e).chainActive ≠ [] := by
  cases e with
  | connect hash => exact cons_ne_nil hash N.chainActive
  | disconnect =>
    rw [chainStep, ChainNode.disconnect]
    split
    · exact cons_ne_nil _ _
    · exact hN
  | ask kind' nBlockHeight => cases kind' <;> exact hN

theorem chainRun_nonempty : (chainRun tip behind es).chainActive ≠ [] := by
  induction es using List.reverseRecOn with
  | nil => exact cons_ne_nil tip behind
  | append_singleton es e ih =>
    rw [chainRun, foldl_append]
    exact chainStep_nonempty ih e

theorem ask_eq (nBlockHeight : Int) (hN : N.chainActive ≠ []) :
    (kind.ask N nBlockHeight).1 =
        (Memo.ask hashUnder N.chainActive (kind.cache N) (cacheKey N.chainActive nBlockHeight)).1 ∧
      ∀ kind', kind'.cache (kind.ask N nBlockHeight).2 =
        if kind = kind' then
          (Memo.ask hashUnder N.chainActive (kind.cache N) (cacheKey N.chainActive nBlockHeight)).2
        else kind'.cache N := by
  rw [← cachedBlockHash_eq hN]
  constructor
  · cases kind <;> rfl
  · intro kind'
    cases kind <;> cases kind' <;> rfl

theorem cache_eq_table :
    kind.cache (chainRun tip behind es) =
      Memo.table hashUnder (asked kind (.start tip behind) es) := by
  induction es using List.reverseRecOn with
  | nil => cases kind <;> rfl
  | append_singleton es e ih =>
    have hrun : chainRun tip behind (es ++ [e]) = chainStep (chainRun tip behind es) e :=
      foldl_append
    rw [hrun, asked_append]
    change _ = Memo.table hashUnder (_ ++ asked kind (chainRun tip behind es) [e])
    cases e with
    | connect hash =>
      rw [asked, asked, append_nil, ← ih]
      cases kind <;> rfl
    | disconnect =>
      rw [asked, asked, append_nil, ← ih, chainStep, ChainNode.disconnect]
      split <;> cases kind <;> rfl
    | ask kind' nBlockHeight =>
      have hN : (chainRun tip behind es).chainActive ≠ [] := chainRun_nonempty
      have hask : kind.cache (kind'.ask (chainRun tip behind es) nBlockHeight).2 = _ :=
        (ask_eq nBlockHeight hN).2 kind
      rw [chainStep, hask, asked, asked]
      split_ifs with hkind
      · subst hkind
        rw [Memo.table_concat, ← ih]
      · rw [append_nil, ih]

theorem ask_run (nBlockHeight : Int) :
    (kind.ask (chainRun tip behind es) nBlockHeight).1 =
      (Memo.ask hashUnder (chainRun tip behind es).chainActive
        (Memo.table hashUnder (asked kind (.start tip behind) es))
        (cacheKey (chainRun tip behind es).chainActive nBlockHeight)).1 := by
  rw [(ask_eq nBlockHeight chainRun_nonempty).1, cache_eq_table]

end

/-- **The answer is the active chain's exactly where what was first found is there still**,
in every state and for every height.  Two nodes on one chain that have forgotten nothing
agree. -/
theorem block_hash_current_iff (kind : RankedKind) (tip : uint256) (behind : List uint256)
    (es : List ChainEvent) (nBlockHeight : Int) :
    ((kind.ask (chainRun tip behind es) nBlockHeight).1 =
        chainHash (chainRun tip behind es).chainActive nBlockHeight ↔
      Unforgotten kind tip behind es nBlockHeight) ∧
    ∀ tip' behind' es',
      (chainRun tip' behind' es').chainActive = (chainRun tip behind es).chainActive →
      Unforgotten kind tip behind es nBlockHeight →
      Unforgotten kind tip' behind' es' nBlockHeight →
        (kind.ask (chainRun tip' behind' es') nBlockHeight).1 =
          (kind.ask (chainRun tip behind es) nBlockHeight).1 := by
  have hiff : ∀ tip behind es,
      (kind.ask (chainRun tip behind es) nBlockHeight).1 =
          chainHash (chainRun tip behind es).chainActive nBlockHeight ↔
        Unforgotten kind tip behind es nBlockHeight := by
    intro tip behind es
    rw [ask_run]
    exact Memo.ask_table_iff
  refine ⟨hiff tip behind es, ?_⟩
  intro tip' behind' es' hchain h h'
  rw [(hiff tip behind es).mpr h, (hiff tip' behind' es').mpr h', hchain]

/-- Two nodes on one chain; the first asked before it left another branch. -/
theorem block_hash_current_iff_fork :
    (RankedKind.prosperitynode.ask
        (chainRun 10 [1, 0] [.ask .prosperitynode 2, .disconnect, .connect 12, .connect 13]) 2).1 =
      (RankedKind.prosperitynode.ask (chainRun 13 [12, 1, 0] []) 2).1 :=
  (block_hash_current_iff .prosperitynode 13 [12, 1, 0] [] 2).2 10 [1, 0]
    [.ask .prosperitynode 2, .disconnect, .connect 12, .connect 13] rfl
    (by intro hash hfirst; exact nomatch hfirst)
    (by intro hash hfirst; exact hfirst)

/-- **The hash of a block that was disconnected.**  The first node asked for the block after
the tip, then a block took the place of that tip; the second node only ever saw the new one. -/
theorem stale_block_hash :
    let es : List ChainEvent := [.ask .prosperitynode 3, .disconnect, .connect 12]
    (chainRun 10 [1, 0] es).chainActive = [12, 1, 0] ∧
      chainHash [12, 1, 0] 3 = some 12 ∧
      (RankedKind.prosperitynode.ask (chainRun 10 [1, 0] es) 3).1 = some 10 ∧
      (RankedKind.prosperitynode.ask (chainRun 12 [1, 0] []) 3).1 = some 12 := by
  refine ⟨rfl, ?_, ?_, ?_⟩ <;> decide

end Divitae.Ranking
