/-
# `StakeModifier` — the modifier is a function of the chain, but for one address

Two processes index the same chain, in any order and among any other blocks.  Every
block of the chain finds its candidates in `mapBlockIndex`, whose entries never change
once they are there, so what a process knows besides the chain does not matter:

    indexed N        each entry continues the entry of its `pprev`, with the modifier
                     `ComputeNextStakeModifier` gives for it
    compute_congr    the modifier reads `mapBlockIndex` at the chain's own hashes only
    branch_unique    so the entries of equal chains are equal

all for one address of the literal.  The first block's modifier *is* that address:
`modifiers_agree_iff` says that two processes agree on a chain exactly when the literal
lies at the same address in both, or the chain is a genesis block.
-/
import Divitae.Kernel

namespace Divitae

open List KernelIndex

section
variable {C : Crypto} {P : CChainParams}

/-- The pointers of a chain lead into the index: each block's hash is that of the chain
from the block on. -/
def Linked (N : KernelProcess) : Branch → Prop
  | [] => True
  | pindex :: pprev => N.mapBlockIndex pindex.hash = some (pindex :: pprev) ∧ Linked N pprev

/-! ## What the modifier reads of the index -/

variable {N N' : KernelProcess} {items : List (Int × uint256)}

theorem selectLoop_congr (fModifierV2 : Bool) (selected : List uint256)
    (nStop : Int) (nPrev : BitVec 64)
    (h : ∀ item ∈ items, N.mapBlockIndex item.2 = N'.mapBlockIndex item.2)
    (best : Option (uint256 × KernelIndex)) :
    selectLoop C N fModifierV2 selected nStop nPrev items best =
      selectLoop C N' fModifierV2 selected nStop nPrev items best := by
  induction items generalizing best with
  | nil => rfl
  | cons item rest ih =>
    have hrest := fun best => ih (fun i hi => h i (mem_cons_of_mem item hi)) best
    rw [selectLoop, selectLoop, h item mem_cons_self]
    simp only [hrest]

section
variable (h : ∀ item ∈ items, N.mapBlockIndex item.2 = N'.mapBlockIndex item.2)
include h

theorem Select_congr (selected : List uint256)
    (nStop : Int) (nPrev : BitVec 64) :
    SelectBlockFromCandidates C P N items selected nStop nPrev =
      SelectBlockFromCandidates C P N' items selected nStop nPrev := by
  have hfirst : (items.head?.bind fun item => (N.mapBlockIndex item.2).bind List.head?) =
      items.head?.bind fun item => (N'.mapBlockIndex item.2).bind List.head? := by
    cases items with
    | nil => rfl
    | cons item rest =>
      show (N.mapBlockIndex item.2).bind List.head? = (N'.mapBlockIndex item.2).bind List.head?
      rw [h item mem_cons_self]
  rw [SelectBlockFromCandidates, SelectBlockFromCandidates, hfirst]
  simp only [selectLoop_congr _ _ _ _ h]

theorem selectRounds_congr (nPrev : BitVec 64)
    (rounds : List Nat) (nStop : Int) (nNew : BitVec 64) (selected : List uint256) :
    selectRounds C P N items nPrev rounds nStop nNew selected =
      selectRounds C P N' items nPrev rounds nStop nNew selected := by
  induction rounds generalizing nStop nNew selected with
  | nil => rfl
  | cons nRound rounds ih =>
    rw [selectRounds, selectRounds, Select_congr h]
    simp only [ih]

end

theorem sortedCandidates_hash {nStart : Int} {pindexPrev : Branch} {item : Int × uint256}
    (h : item ∈ sortedCandidates nStart pindexPrev) :
    ∃ pindex ∈ pindexPrev, pindex.hash = item.2 := by
  rw [sortedCandidates, mem_insertionSort, mem_reverse, mem_map] at h
  obtain ⟨pindex, hmem, rfl⟩ := h
  exact ⟨pindex, ( takeWhile_prefix _).subset hmem, rfl⟩

/-- **What is read.**  Besides the literal, the chain itself and the index at its hashes. -/
theorem compute_congr (hliteral : N.literal = N'.literal)
    {pindexPrev : Branch}
    (h : ∀ pindex ∈ pindexPrev, N.mapBlockIndex pindex.hash = N'.mapBlockIndex pindex.hash) :
    ComputeNextStakeModifier C P N pindexPrev = ComputeNextStakeModifier C P N' pindexPrev := by
  have hitems (nStart : Int) : ∀ item ∈ sortedCandidates nStart pindexPrev,
      N.mapBlockIndex item.2 = N'.mapBlockIndex item.2 := by
    intro item hitem
    obtain ⟨pindex, hmem, hhash⟩ := sortedCandidates_hash hitem
    rw [← hhash]
    exact h pindex hmem
  cases pindexPrev with
  | nil => rfl
  | cons prev rest =>
    simp only [ComputeNextStakeModifier, hliteral, selectRounds_congr (hitems _)]

/-! ## What a process has indexed -/

/-- The entry continues the chain behind it, with the modifier computed for it. -/
def Continues (C : Crypto) (P : CChainParams) (N : KernelProcess) (pindex : KernelIndex)
    (pprev : Branch) : Prop :=
  match pprev with
  | [] => pindex.nHeight = 0 ∧ pindex.nStakeModifier = 0 ∧ pindex.fGeneratedStakeModifier = false
  | prev :: _ =>
    pindex.nHeight = prev.nHeight + 1 ∧
      pindex.nStakeModifier = (ComputeNextStakeModifier C P N pprev).nStakeModifier ∧
      pindex.fGeneratedStakeModifier =
        (ComputeNextStakeModifier C P N pprev).fGeneratedStakeModifier

/-- Every pointer of the index leads back to a block without `pprev`, through entries of
the index. -/
def Indexed (C : Crypto) (P : CChainParams) (N : KernelProcess) : Prop :=
  ∀ h branch, N.mapBlockIndex h = some branch →
    ∃ pindex pprev, branch = pindex :: pprev ∧ pindex.hash = h ∧ Continues C P N pindex pprev ∧
      Linked N pprev

variable {branch : Branch} {pindex : KernelIndex}

theorem Linked.mem {N : KernelProcess} (h : Linked N branch)
    (hmem : pindex ∈ branch) : (N.mapBlockIndex pindex.hash).isSome := by
  induction branch with
  | nil => exact absurd hmem (by simp)
  | cons e rest ih =>
    obtain ⟨hhead, hrest⟩ := h
    rcases mem_cons.mp hmem with rfl | hmem
    · rw [hhead]
      rfl
    · exact ih hrest hmem

theorem Linked.agree (h : Linked N branch)
    (h' : Linked N' branch) (hmem : pindex ∈ branch) :
    N.mapBlockIndex pindex.hash = N'.mapBlockIndex pindex.hash := by
  induction branch with
  | nil => exact absurd hmem (by simp)
  | cons e rest ih =>
    rcases mem_cons.mp hmem with rfl | hmem
    · exact h.1.trans h'.1.symm
    · exact ih h.2 h'.2 hmem

theorem Indexed.linked {N : KernelProcess} (hN : Indexed C P N) {h : uint256}
    (hb : N.mapBlockIndex h = some branch) : Linked N branch := by
  obtain ⟨pindex, pprev, rfl, rfl, -, hlinked⟩ := hN h branch hb
  exact ⟨hb, hlinked⟩

theorem Linked.mono
    (hmono : ∀ h branch, N.mapBlockIndex h = some branch → N'.mapBlockIndex h = some branch) :
    ∀ {branch : Branch}, Linked N branch → Linked N' branch
  | [], _ => trivial
  | _ :: _, ⟨hhead, hrest⟩ => ⟨hmono _ _ hhead, Linked.mono hmono hrest⟩

theorem compute_mono (hliteral : N.literal = N'.literal)
    (hmono : ∀ h branch, N.mapBlockIndex h = some branch → N'.mapBlockIndex h = some branch)
    (hlinked : Linked N branch) :
    ComputeNextStakeModifier C P N' branch = ComputeNextStakeModifier C P N branch := by
  refine compute_congr hliteral.symm ?_
  intro pindex hmem
  obtain ⟨b, hb⟩ := Option.isSome_iff_exists.mp (hlinked.mem hmem)
  rw [hb, hmono _ _ hb]

theorem Continues.mono {pprev : Branch}
    (h : Continues C P N pindex pprev) (hlinked : Linked N pprev)
    (hliteral : N.literal = N'.literal)
    (hmono : ∀ h branch, N.mapBlockIndex h = some branch → N'.mapBlockIndex h = some branch) :
    Continues C P N' pindex pprev := by
  cases pprev with
  | nil => exact h
  | cons prev rest =>
    rw [Continues, compute_mono hliteral hmono hlinked]
    exact h

theorem indexed_empty (literal : BitVec 64) : Indexed C P ⟨literal, fun _ => none⟩ :=
  fun _ _ h => absurd h (by simp)

/-- The index with a pointer filed under a hash. -/
def KernelProcess.file (N : KernelProcess) (h : uint256) (branch : Branch) : KernelProcess :=
  { N with mapBlockIndex := Function.update N.mapBlockIndex h (some branch) }

theorem file_apply (N : KernelProcess) (h : uint256) (branch : Branch) (k : uint256) :
    (N.file h branch).mapBlockIndex k = if k = h then some branch else N.mapBlockIndex k :=
  Function.update_apply _ _ _ _

theorem file_mono {N : KernelProcess} {h : uint256} (hfresh : N.mapBlockIndex h = none)
    (branch : Branch) (k : uint256) (b : Branch) (hb : N.mapBlockIndex k = some b) :
    (N.file h branch).mapBlockIndex k = some b := by
  rw [file_apply, if_neg]
  · exact hb
  · rintro rfl
    rw [hfresh] at hb
    exact absurd hb (by simp)

theorem Indexed.file {N : KernelProcess} (hN : Indexed C P N)
    {pprev : Branch} (hfresh : N.mapBlockIndex pindex.hash = none)
    (hcont : Continues C P N pindex pprev) (hlinked : Linked N pprev) :
    Indexed C P (N.file pindex.hash (pindex :: pprev)) := by
  have hmono := file_mono hfresh (pindex :: pprev)
  intro h branch hb
  by_cases hh : h = pindex.hash
  · subst hh
    have hself : branch = pindex :: pprev := by
      rw [file_apply, if_pos rfl, Option.some.injEq] at hb
      exact hb.symm
    exact ⟨pindex, pprev, hself, rfl, hcont.mono hlinked rfl hmono, hlinked.mono hmono⟩
  · have hold : N.mapBlockIndex h = some branch := by
      rw [file_apply, if_neg hh] at hb
      exact hb
    obtain ⟨e, rest, rfl, rfl, hcont', hlinked'⟩ := hN h branch hold
    exact ⟨e, rest, rfl, rfl, hcont'.mono hlinked' rfl hmono, hlinked'.mono hmono⟩

theorem indexed_add {N : KernelProcess} (hN : Indexed C P N) (block : CStakeBlock) :
    Indexed C P (AddToBlockIndex C P N block) ∧
      (AddToBlockIndex C P N block).literal = N.literal := by
  rw [AddToBlockIndex]
  cases hdup : N.mapBlockIndex block.hash with
  | some b => exact ⟨hN, rfl⟩
  | none =>
    rw [if_neg (by simp)]
    refine ⟨?_, rfl⟩
    cases hprev : N.mapBlockIndex block.hashPrevBlock with
    | none =>
      have hcont : Continues C P N (ofBlock block) [] := ⟨rfl, rfl, rfl⟩
      exact hN.file hdup hcont trivial
    | some pprev =>
      obtain ⟨prev, rest, rfl, -⟩ := hN _ pprev hprev
      have hcont : Continues C P N
          { ofBlock block with
            nHeight := prev.nHeight + 1
            nStakeModifier := (ComputeNextStakeModifier C P N (prev :: rest)).nStakeModifier
            fGeneratedStakeModifier :=
              (ComputeNextStakeModifier C P N (prev :: rest)).fGeneratedStakeModifier }
          (prev :: rest) := ⟨rfl, rfl, rfl⟩
      exact hN.file hdup hcont (hN.linked hprev)

theorem indexed_blocks (literal : BitVec 64) (blocks : List CStakeBlock) :
    Indexed C P (indexBlocks C P literal blocks) ∧
      (indexBlocks C P literal blocks).literal = literal := by
  have hkeep : ∀ (N : KernelProcess) (block : CStakeBlock),
      Indexed C P N ∧ N.literal = literal → True →
      Indexed C P (AddToBlockIndex C P N block) ∧ (AddToBlockIndex C P N block).literal =
        literal := by
    rintro N block ⟨hN, hliteral⟩ -
    obtain ⟨hadd, hsame⟩ := indexed_add hN block
    exact ⟨hadd, hsame.trans hliteral⟩
  exact Run.run_inv hkeep ⟨indexed_empty literal, rfl⟩
    (Run.guarded_of_forall (p := fun _ => True) fun _ _ => trivial)

/-! ## Two processes -/

/-- The block an entry is for. -/
def KernelIndex.block (pindex : KernelIndex) : uint256 × BitVec 32 × Bool × uint256 :=
  (pindex.hash, pindex.nTime, pindex.fProofOfStake, pindex.nAccumulatorCheckpoint)

/-- The same blocks in the same order. -/
def SameBlocks (branch branch' : Branch) : Prop :=
  branch.map KernelIndex.block = branch'.map KernelIndex.block

/-- **Equal chains have equal entries**, for one address of the literal. -/
theorem branch_unique (hN : Indexed C P N) (hN' : Indexed C P N')
    (hliteral : N.literal = N'.literal) {h h' : uint256} {branch branch' : Branch}
    (hb : N.mapBlockIndex h = some branch) (hb' : N'.mapBlockIndex h' = some branch')
    (hsame : SameBlocks branch branch') : branch = branch' := by
  induction branch generalizing h h' branch' with
  | nil => exact (map_eq_nil_iff.mp hsame.symm).symm
  | cons pindex pprev ih =>
    obtain ⟨e, rest, heq, rfl, hcont, hlinked⟩ := hN h _ hb
    obtain ⟨rfl, rfl⟩ := cons.inj heq
    obtain ⟨e', rest', rfl, rfl, hcont', hlinked'⟩ := hN' h' _ hb'
    obtain ⟨hblock, hrest⟩ := cons.inj hsame
    have hpprev : pprev = rest' := by
      cases pprev with
      | nil => exact (map_eq_nil_iff.mp hrest.symm).symm
      | cons prev more =>
        cases rest' with
        | nil => exact absurd hrest (by simp)
        | cons prev' more' => exact ih hlinked.1 hlinked'.1 hrest
    subst hpprev
    have hentry : pindex.nHeight = e'.nHeight ∧ pindex.nStakeModifier = e'.nStakeModifier ∧
        pindex.fGeneratedStakeModifier = e'.fGeneratedStakeModifier := by
      cases pprev with
      | nil =>
        obtain ⟨hheight, hmod, hgen⟩ := hcont
        obtain ⟨hheight', hmod', hgen'⟩ := hcont'
        exact ⟨hheight.trans hheight'.symm, hmod.trans hmod'.symm, hgen.trans hgen'.symm⟩
      | cons prev more =>
        have hnext : ComputeNextStakeModifier C P N (prev :: more) =
            ComputeNextStakeModifier C P N' (prev :: more) :=
          compute_congr hliteral fun e hmem => hlinked.agree hlinked' hmem
        obtain ⟨hheight, hmod, hgen⟩ := hcont
        obtain ⟨hheight', hmod', hgen'⟩ := hcont'
        exact ⟨hheight.trans hheight'.symm, hmod.trans (hnext ▸ hmod'.symm),
          hgen.trans (hnext ▸ hgen'.symm)⟩
    obtain ⟨hheight, hmod, hgen⟩ := hentry
    simp only [block, Prod.mk.injEq] at hblock
    obtain ⟨hhash, htime, hpos, hacc⟩ := hblock
    exact congrArg (· :: pprev) (KernelIndex.ext hhash hheight htime hpos hgen hmod hacc)

theorem Indexed.last {N : KernelProcess} (hN : Indexed C P N) {h : uint256}
    (hb : N.mapBlockIndex h = some branch) :
    ∃ genesis, branch.drop (branch.length - 1) = [genesis] ∧ genesis.nHeight = 0 := by
  induction branch generalizing h with
  | nil =>
    obtain ⟨pindex, pprev, heq, -⟩ := hN h _ hb
    exact absurd heq (by simp)
  | cons pindex pprev ih =>
    obtain ⟨e, rest, heq, rfl, hcont, hlinked⟩ := hN h _ hb
    obtain ⟨rfl, rfl⟩ := cons.inj heq
    cases pprev with
    | nil => exact ⟨pindex, rfl, hcont.1⟩
    | cons prev more =>
      obtain ⟨genesis, hlast, hzero⟩ := ih hlinked.1
      exact ⟨genesis, hlast, hzero⟩

theorem compute_first {N : KernelProcess} {genesis : KernelIndex} (hzero : genesis.nHeight = 0) :
    ComputeNextStakeModifier C P N [genesis] = ⟨true, N.literal, true⟩ := by
  rw [ComputeNextStakeModifier, if_pos hzero]

/-- `ComputeNextStakeModifier` for every block of the chain: its argument is the chain
behind the block, from the tip's `pprev` back to none at all. -/
def SameModifiers (C : Crypto) (P : CChainParams) (N N' : KernelProcess)
    (branch branch' : Branch) : Prop :=
  ∀ k, ComputeNextStakeModifier C P N (branch.tail.drop k) =
    ComputeNextStakeModifier C P N' (branch'.tail.drop k)

end

/-- **Two processes that hold the same chain compute the same modifiers for it exactly
when the literal has the same address in both, or the chain is a genesis block.** -/
theorem modifiers_agree_iff (C : Crypto) (P : CChainParams) (literal literal' : BitVec 64)
    (blocks blocks' : List CStakeBlock) (h h' : uint256) (branch branch' : Branch)
    (hb : (indexBlocks C P literal blocks).mapBlockIndex h = some branch)
    (hb' : (indexBlocks C P literal' blocks').mapBlockIndex h' = some branch')
    (hsame : SameBlocks branch branch') :
    SameModifiers C P (indexBlocks C P literal blocks) (indexBlocks C P literal' blocks')
        branch branch' ↔
      literal = literal' ∨ branch.length = 1 := by
  obtain ⟨hN, hlit⟩ := indexed_blocks (C := C) (P := P) literal blocks
  obtain ⟨hN', hlit'⟩ := indexed_blocks (C := C) (P := P) literal' blocks'
  generalize indexBlocks C P literal blocks = N at *
  generalize indexBlocks C P literal' blocks' = N' at *
  constructor
  · intro hall
    obtain ⟨pindex, pprev, rfl, rfl, -, hlinked⟩ := hN h _ hb
    obtain ⟨pindex', pprev', rfl, rfl, -, hlinked'⟩ := hN' h' _ hb'
    have hlen : pprev.length = pprev'.length := by
      have hboth := congrArg List.length hsame
      simpa using hboth
    cases pprev with
    | nil => exact .inr rfl
    | cons prev more =>
      cases pprev' with
      | nil => exact absurd hlen (by simp)
      | cons prev' more' =>
        -- the block after the genesis block gets the literal's address
        obtain ⟨genesis, hlast, hzero⟩ := hN.last hlinked.1
        obtain ⟨genesis', hlast', hzero'⟩ := hN'.last hlinked'.1
        have hfirst : ComputeNextStakeModifier C P N [genesis] =
            ComputeNextStakeModifier C P N' [genesis'] := by
          rw [← hlast, ← hlast', ← hlen]
          exact hall _
        rw [compute_first hzero, compute_first hzero', NextModifier.mk.injEq] at hfirst
        exact .inl (hlit.symm.trans (hfirst.2.1.trans hlit'))
  · rintro (rfl | hone) k
    · obtain rfl := branch_unique hN hN' (hlit.trans hlit'.symm) hb hb' hsame
      refine compute_congr (hlit.trans hlit'.symm) ?_
      intro pindex hmem
      exact (hN.linked hb).agree (hN'.linked hb') (mem_of_mem_tail (mem_of_mem_drop hmem))
    · have hone' : branch'.length = 1 := by
        have hboth := congrArg List.length hsame
        simp only [length_map] at hboth
        exact hboth.symm.trans hone
      obtain ⟨e, rfl⟩ := length_eq_one_iff.mp hone
      obtain ⟨e', rfl⟩ := length_eq_one_iff.mp hone'
      rw [tail_cons, tail_cons, drop_nil]
      rfl

/-! ## A chain of two blocks -/

def genesisBlock : CStakeBlock := ⟨⟨100, 1, 0, 1500000000, [], []⟩, 0, 0⟩
def firstBlock : CStakeBlock := ⟨⟨101, 1, 100, 1500000060, [], []⟩, 0, 0⟩
def otherFirstBlock : CStakeBlock := ⟨⟨102, 1, 100, 1500000070, [], []⟩, 0, 0⟩

/-- The entries of the first two, where the literal is at `literal`. -/
def firstBranch (literal : BitVec 64) : Branch :=
  [⟨101, 1, 1500000060, false, true, literal, 0⟩, ⟨100, 0, 1500000000, false, false, 0, 0⟩]

def noTextCrypto : Crypto := Crypto.onTexts CPubKey.invalid []

theorem forks_known_agree :
    SameModifiers noTextCrypto mainParams
      (indexBlocks noTextCrypto mainParams 0x4f1000 [genesisBlock, firstBlock])
      (indexBlocks noTextCrypto mainParams 0x4f1000 [genesisBlock, otherFirstBlock, firstBlock])
      (firstBranch 0x4f1000) (firstBranch 0x4f1000) :=
  (modifiers_agree_iff noTextCrypto mainParams 0x4f1000 0x4f1000 [genesisBlock, firstBlock]
    [genesisBlock, otherFirstBlock, firstBlock] 101 101 (firstBranch 0x4f1000)
    (firstBranch 0x4f1000) (by decide) (by decide) rfl).mpr (.inl rfl)

/-- The same program loaded at two places. -/
theorem address_decides_modifier :
    ¬ (∀ (C : Crypto) (P : CChainParams) (literal literal' : BitVec 64)
      (blocks blocks' : List CStakeBlock) (h h' : uint256) (branch branch' : Branch),
      (indexBlocks C P literal blocks).mapBlockIndex h = some branch →
      (indexBlocks C P literal' blocks').mapBlockIndex h' = some branch' →
      SameBlocks branch branch' →
      SameModifiers C P (indexBlocks C P literal blocks) (indexBlocks C P literal' blocks')
        branch branch') ∧
      (indexBlocks noTextCrypto mainParams 0x4f1000 [genesisBlock, firstBlock]).mapBlockIndex 101 =
        some (firstBranch 0x4f1000) ∧
      (indexBlocks noTextCrypto mainParams 0x55d8a3e2f1000 [genesisBlock, firstBlock]).mapBlockIndex
        101 = some (firstBranch 0x55d8a3e2f1000) := by
  have hb : (indexBlocks noTextCrypto mainParams 0x4f1000 [genesisBlock, firstBlock]).mapBlockIndex
      101 = some (firstBranch 0x4f1000) := by decide
  have hb' : (indexBlocks noTextCrypto mainParams 0x55d8a3e2f1000
      [genesisBlock, firstBlock]).mapBlockIndex 101 = some (firstBranch 0x55d8a3e2f1000) := by
    decide
  refine ⟨?_, hb, hb'⟩
  intro hall
  have hsame := hall noTextCrypto mainParams 0x4f1000 0x55d8a3e2f1000 [genesisBlock, firstBlock]
    [genesisBlock, firstBlock] 101 101 _ _ hb hb' rfl 0
  have hlit : (0x4f1000 : BitVec 64) = 0x55d8a3e2f1000 := congrArg NextModifier.nStakeModifier hsame
  exact absurd hlit (by decide)

end Divitae
