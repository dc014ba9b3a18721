/-
# `FilePositions` — positions in the block files

`FindBlockPos`, where the position is not known, and `FindUndoPos`, with their `unsigned int`.
A file is left when a block would not fit in:

    nSize + nAddSize ≥ MAX_BLOCKFILE_SIZE

and the sum may begin again at 0.  Then the block seems to fit, its range goes beyond 2^32, and
`nSize` is less than before: what is given out next lies in what was given out already
(`sizes_wrap`).  An undo file is never left, and `nUndoSize` begins again in the same way.
As long as no sum does (`Within`), all ranges are apart (`positions_apart`).

A block as large as a file fits in none, and the search for one does not end.

A file has a number of ℕ: there is an element of `vinfoBlockFile` for it.  What is written to
the files is in `BlockFiles`, where blocks are small and sizes are of ℕ; there `FindBlockPos`
does the same (`FindBlockPos_small`).
-/
import Divitae.BlockFiles
import Divitae.Lib.Carve
import Divitae.Lib.Slots

namespace Divitae.FilePositions

open Carve List

def MAX_BLOCKFILE_SIZE : BitVec 32 := 0x8000000
def BLOCKFILE_CHUNK_SIZE : BitVec 32 := 0x1000000
def UNDOFILE_CHUNK_SIZE : BitVec 32 := 0x100000

structure CBlockFileInfo where
  nBlocks : BitVec 32 := 0
  nSize : BitVec 32 := 0
  nUndoSize : BitVec 32 := 0
  nHeightFirst : BitVec 32 := 0
  nHeightLast : BitVec 32 := 0
  nTimeFirst : BitVec 64 := 0
  nTimeLast : BitVec 64 := 0
deriving DecidableEq

namespace CBlockFileInfo

variable (info : CBlockFileInfo)

/-- update statistics (does not update nSize) -/
def AddBlock (nHeightIn : BitVec 32) (nTimeIn : BitVec 64) : CBlockFileInfo :=
  { info with
    nBlocks := info.nBlocks + 1
    nHeightFirst :=
      if info.nBlocks = 0 ∨ nHeightIn < info.nHeightFirst then nHeightIn else info.nHeightFirst
    nTimeFirst := if info.nBlocks = 0 ∨ nTimeIn < info.nTimeFirst then nTimeIn else info.nTimeFirst
    nHeightLast := if info.nHeightLast < nHeightIn then nHeightIn else info.nHeightLast
    nTimeLast := if info.nTimeLast < nTimeIn then nTimeIn else info.nTimeLast }

/-- The block does not fit into the file. -/
def full (nAddSize : BitVec 32) : Bool := decide (MAX_BLOCKFILE_SIZE ≤ info.nSize + nAddSize)

end CBlockFileInfo

structure FileState where
  vinfoBlockFile : List CBlockFileInfo := []
  nLastBlockFile : ℕ := 0
  setDirtyFileInfo : List ℕ := []

structure CDiskBlockPos where
  nFile : ℕ
  nPos : BitVec 32

/-- The bytes that `AllocateFileRange` is to make, if another chunk is needed. -/
def missing (chunk nPos nNewSize : BitVec 32) : Option (BitVec 32) :=
  let nOldChunks := (nPos + chunk - 1) / chunk
  let nNewChunks := (nNewSize + chunk - 1) / chunk
  if nOldChunks < nNewChunks then some (nNewChunks * chunk - nPos) else none

/-- The loop of `FindBlockPos` over the files from the last one on.  Behind them come new ones;
`none` where none of them is large enough. -/
def leave (nAddSize : BitVec 32) : List CBlockFileInfo → ℕ → Option ℕ
  | [], nFile => if ({} : CBlockFileInfo).full nAddSize then none else some nFile
  | info :: infos, nFile =>
    if info.full nAddSize then leave nAddSize infos (nFile + 1) else some nFile

namespace FileState

variable (S : FileState)

/-- `vinfoBlockFile[nFile]`. -/
def info (nFile : ℕ) : CBlockFileInfo := S.vinfoBlockFile.getD nFile {}

/-- `vinfoBlockFile.resize(nFile + 1)`, when it is shorter. -/
def resized (nFile : ℕ) : List CBlockFileInfo :=
  S.vinfoBlockFile ++ List.replicate (nFile + 1 - S.vinfoBlockFile.length) ⟨0, 0, 0, 0, 0, 0, 0⟩

/-- `FindBlockPos`; `none` where it does not return, no position where the disk is full. -/
def FindBlockPos (nAddSize nHeight : BitVec 32) (nTime : BitVec 64)
    (CheckDiskSpace : BitVec 32 → Bool) : Option (FileState × Option CDiskBlockPos) :=
  (leave nAddSize (S.vinfoBlockFile.drop S.nLastBlockFile) S.nLastBlockFile).map fun nFile =>
    let nPos := (S.info nFile).nSize
    let info := { (S.info nFile).AddBlock nHeight nTime with nSize := nPos + nAddSize }
    let S' := { S with vinfoBlockFile := (S.resized nFile).set nFile info, nLastBlockFile := nFile }
    if (missing BLOCKFILE_CHUNK_SIZE nPos info.nSize).all CheckDiskSpace then
      ({ S' with setDirtyFileInfo := S'.setDirtyFileInfo.insert nFile }, some ⟨nFile, nPos⟩)
    -- "out of disk space"
    else (S', none)

/-- `FindUndoPos`; `none` where there is no such file. -/
def FindUndoPos (nFile : ℕ) (nAddSize : BitVec 32) (CheckDiskSpace : BitVec 32 → Bool) :
    Option (FileState × Option CDiskBlockPos) :=
  if nFile < S.vinfoBlockFile.length then
    let nPos := (S.info nFile).nUndoSize
    let info := { S.info nFile with nUndoSize := nPos + nAddSize }
    let S' :=
      { S with
        vinfoBlockFile := S.vinfoBlockFile.set nFile info
        setDirtyFileInfo := S.setDirtyFileInfo.insert nFile }
    if (missing UNDOFILE_CHUNK_SIZE nPos info.nUndoSize).all CheckDiskSpace then
      some (S', some ⟨nFile, nPos⟩)
    -- "out of disk space"
    else some (S', none)
  else none

end FileState

/-! ## Runs -/

inductive FileKind where
  | blk
  | rev
deriving DecidableEq

inductive FileCall where
  | block (nAddSize nHeight : BitVec 32) (nTime : BitVec 64) (CheckDiskSpace : BitVec 32 → Bool)
  | undo (nFile : ℕ) (nAddSize : BitVec 32) (CheckDiskSpace : BitVec 32 → Bool)

/-- The files, and the ranges handed out, the last one first. -/
structure Desk extends FileState where
  given : List (Range (FileKind × ℕ)) := []

/-- What a call leaves, and the range it hands out. -/
def Desk.take (D : Desk) (kind : FileKind) (nAddSize : BitVec 32) :
    Option (FileState × Option CDiskBlockPos) → Desk
  | none => D
  | some (S, none) => ⟨S, D.given⟩
  | some (S, some pos) => ⟨S, ⟨(kind, pos.nFile), pos.nPos.toNat, nAddSize.toNat⟩ :: D.given⟩

def deskStep (D : Desk) : FileCall → Desk
  | .block nAddSize nHeight nTime CheckDiskSpace =>
    D.take .blk nAddSize (D.FindBlockPos nAddSize nHeight nTime CheckDiskSpace)
  | .undo nFile nAddSize CheckDiskSpace =>
    D.take .rev nAddSize (D.FindUndoPos nFile nAddSize CheckDiskSpace)

/-- The recorded size of a file. -/
def FileState.used (S : FileState) : FileKind × ℕ → ℕ
  | (.blk, nFile) => (S.info nFile).nSize.toNat
  | (.rev, nFile) => (S.info nFile).nUndoSize.toNat

/-- The size of the file that is taken does not begin again at 0. -/
def Within (D : Desk) : FileCall → Prop
  | .block nAddSize _ _ _ =>
    ∀ nFile, D.nLastBlockFile ≤ nFile →
      (∀ before, D.nLastBlockFile ≤ before → before < nFile →
        (D.info before).full nAddSize = true) →
      (D.info nFile).full nAddSize = false →
      (D.info nFile).nSize.toNat + nAddSize.toNat < 2 ^ 32
  | .undo nFile nAddSize _ =>
    nFile < D.vinfoBlockFile.length ∧ (D.info nFile).nUndoSize.toNat + nAddSize.toNat < 2 ^ 32

/-- The numbers of the block files handed out, the last one first. -/
def Desk.fileNumbers (D : Desk) : List ℕ :=
  (D.given.filter fun r => r.key.1 = .blk).map fun r => r.key.2

/-- Ranges of one file do not overlap and are within its recorded size, and the numbers of the
block files do not go back. -/
structure WellGiven (D : Desk) : Prop where
  carved : Carved D.used D.given
  order : D.fileNumbers.Pairwise fun later earlier => earlier ≤ later
  last : ∀ nFile ∈ D.fileNumbers, nFile ≤ D.nLastBlockFile

variable {S S' : FileState} {D : Desk} {nAddSize nHeight : BitVec 32} {nTime : BitVec 64}
  {CheckDiskSpace : BitVec 32 → Bool} {nFile n : ℕ} {pos : Option CDiskBlockPos}
  {infos : List CBlockFileInfo}

/-! ## One call -/

theorem leave_spec (h : leave nAddSize infos n = some nFile) :
    n ≤ nFile ∧ (∀ before, n ≤ before → before < nFile →
      (infos.getD (before - n) {}).full nAddSize = true) ∧
      (infos.getD (nFile - n) {}).full nAddSize = false := by
  induction infos generalizing n with
  | nil =>
    unfold leave at h
    split_ifs at h with hfull
    cases h
    refine ⟨Nat.le_refl _, ?_, Bool.eq_false_iff.mpr hfull⟩
    intro before hle hlt
    omega
  | cons info infos ih =>
    unfold leave at h
    split_ifs at h with hfull
    · obtain ⟨hle, hbefore, hfits⟩ := ih h
      refine ⟨by omega, ?_, ?_⟩
      · intro before hle' hlt
        rcases Nat.eq_or_lt_of_le hle' with rfl | hgt
        · rw [Nat.sub_self]
          exact hfull
        · rw [show before - n = before - (n + 1) + 1 by omega]
          exact hbefore before hgt hlt
      · rw [show nFile - n = nFile - (n + 1) + 1 by omega]
        exact hfits
    · cases h
      refine ⟨Nat.le_refl _, ?_, ?_⟩
      · intro before hle hlt
        omega
      · rw [Nat.sub_self]
        exact Bool.eq_false_iff.mpr hfull

theorem getD_drop (S : FileState) (h : n ≤ nFile) :
    (S.vinfoBlockFile.drop n).getD (nFile - n) {} = S.info nFile := by
  rw [FileState.info, getD_eq_getElem?_getD, List.getElem?_drop, getD_eq_getElem?_getD,
    show n + (nFile - n) = nFile by omega]

theorem resized_getD (S : FileState) (nFile n : ℕ) :
    (S.resized nFile).getD n {} = S.info n := by
  rw [FileState.resized, FileState.info]
  rcases Nat.lt_or_ge n S.vinfoBlockFile.length with hlt | hge
  · rw [getD_append _ _ _ _ hlt]
  · rw [getD_append_right _ _ _ _ hge, getD_eq_default _ _ hge,
      getD_eq_getElem?_getD]
    exact List.getElem?_getD_replicate_default_eq ..

theorem lt_resized (S : FileState) (nFile : ℕ) : nFile < (S.resized nFile).length := by
  rw [FileState.resized, length_append, length_replicate]
  omega

/-- **What `FindBlockPos` does**: one file gets larger, no earlier than the last one. -/
theorem FindBlockPos_spec
    (h : S.FindBlockPos nAddSize nHeight nTime CheckDiskSpace = some (S', pos)) :
    ∃ nFile, S.nLastBlockFile ≤ nFile ∧ S'.nLastBlockFile = nFile ∧
      (∀ before, S.nLastBlockFile ≤ before → before < nFile →
        (S.info before).full nAddSize = true) ∧
      (S.info nFile).full nAddSize = false ∧
      (∀ n, S'.info n = if n = nFile then
        { (S.info nFile).AddBlock nHeight nTime with nSize := (S.info nFile).nSize + nAddSize }
        else S.info n) ∧
      (pos = none ∨ pos = some ⟨nFile, (S.info nFile).nSize⟩) := by
  obtain ⟨nFile, hleave, hresult⟩ := Option.map_eq_some_iff.mp h
  obtain ⟨hle, hbefore, hfits⟩ := leave_spec hleave
  rw [getD_drop S hle] at hfits
  have hpassed : ∀ before, S.nLastBlockFile ≤ before → before < nFile →
      (S.info before).full nAddSize = true := by
    intro before hfrom hlt
    rw [← getD_drop S hfrom]
    exact hbefore before hfrom hlt
  have hinfo : ∀ n, ((S.resized nFile).set nFile
      { (S.info nFile).AddBlock nHeight nTime with
        nSize := (S.info nFile).nSize + nAddSize }).getD n {} = if n = nFile then
        { (S.info nFile).AddBlock nHeight nTime with nSize := (S.info nFile).nSize + nAddSize }
        else S.info n := by
    intro n
    rw [← resized_getD S nFile n]
    exact Slots.slot_set (lt_resized S nFile) _ n
  dsimp only at hresult
  split_ifs at hresult
  · cases hresult
    exact ⟨nFile, hle, rfl, hpassed, hfits, hinfo, .inr rfl⟩
  · cases hresult
    exact ⟨nFile, hle, rfl, hpassed, hfits, hinfo, .inl rfl⟩

/-- **What `FindUndoPos` does.** -/
theorem FindUndoPos_spec (h : S.FindUndoPos nFile nAddSize CheckDiskSpace = some (S', pos)) :
    S'.nLastBlockFile = S.nLastBlockFile ∧
      (∀ n, S'.info n = if n = nFile then
        { S.info nFile with nUndoSize := (S.info nFile).nUndoSize + nAddSize } else S.info n) ∧
      (pos = none ∨ pos = some ⟨nFile, (S.info nFile).nUndoSize⟩) := by
  unfold FileState.FindUndoPos at h
  dsimp only at h
  split_ifs at h with hfile
  · cases h
    exact ⟨rfl, Slots.slot_set hfile _, .inr rfl⟩
  · cases h
    exact ⟨rfl, Slots.slot_set hfile _, .inl rfl⟩

theorem toNat_add_of_lt {a b : BitVec 32} (h : a.toNat + b.toNat < 2 ^ 32) :
    (a + b).toNat = a.toNat + b.toNat := by
  rw [BitVec.toNat_add, Nat.mod_eq_of_lt h]

theorem used_mono {info : CBlockFileInfo}
    (hinfo : ∀ n, S'.info n = if n = nFile then info else S.info n)
    (hsize : (S.info nFile).nSize.toNat ≤ info.nSize.toNat)
    (hundo : (S.info nFile).nUndoSize.toNat ≤ info.nUndoSize.toNat) (k : FileKind × ℕ) :
    S.used k ≤ S'.used k := by
  obtain ⟨kind, n⟩ := k
  cases kind with
  | blk =>
    rw [FileState.used, FileState.used, hinfo n]
    split_ifs with heq
    · subst heq
      exact hsize
    · exact Nat.le_refl _
  | rev =>
    rw [FileState.used, FileState.used, hinfo n]
    split_ifs with heq
    · subst heq
      exact hundo
    · exact Nat.le_refl _

/-! ## One step -/

theorem deskStep_block (D : Desk) (h : WellGiven D)
    (hwithin : Within D (.block nAddSize nHeight nTime CheckDiskSpace)) :
    WellGiven (deskStep D (.block nAddSize nHeight nTime CheckDiskSpace)) ∧
      D.nLastBlockFile ≤
        (deskStep D (.block nAddSize nHeight nTime CheckDiskSpace)).nLastBlockFile := by
  unfold deskStep
  dsimp only
  cases hfind : D.FindBlockPos nAddSize nHeight nTime CheckDiskSpace with
  | none => exact ⟨h, Nat.le_refl _⟩
  | some r =>
    obtain ⟨S', pos⟩ := r
    obtain ⟨nFile, hle, hlast, hbefore, hfits, hinfo, hpos⟩ := FindBlockPos_spec hfind
    have hsum := toNat_add_of_lt (hwithin nFile hle hbefore hfits)
    have hmark := used_mono hinfo (by dsimp only; omega) (Nat.le_refl _)
    have hend : D.used (.blk, nFile) + nAddSize.toNat ≤ S'.used (.blk, nFile) := by
      rw [FileState.used, FileState.used, hinfo nFile, if_pos rfl]
      exact hsum.ge
    have hsteady : D.nLastBlockFile ≤ S'.nLastBlockFile := hlast ▸ hle
    refine ⟨?_, by rcases hpos with rfl | rfl <;> exact hsteady⟩
    rcases hpos with rfl | rfl
    · exact ⟨h.carved.grow hmark, h.order, fun n hn => Nat.le_trans (h.last n hn) hsteady⟩
    · have hcarved := h.carved.cut hmark hend
      refine ⟨hcarved, ?_, ?_⟩
      · refine pairwise_cons.mpr ⟨?_, h.order⟩
        intro n hn
        exact Nat.le_trans (h.last n hn) hle
      · intro n hn
        rcases mem_cons.mp hn with rfl | hn
        · exact hlast.ge
        · exact Nat.le_trans (h.last n hn) hsteady

theorem deskStep_undo (D : Desk) (h : WellGiven D)
    (hwithin : Within D (.undo nFile nAddSize CheckDiskSpace)) :
    WellGiven (deskStep D (.undo nFile nAddSize CheckDiskSpace)) ∧
      D.nLastBlockFile ≤ (deskStep D (.undo nFile nAddSize CheckDiskSpace)).nLastBlockFile := by
  unfold deskStep
  dsimp only
  cases hfind : D.FindUndoPos nFile nAddSize CheckDiskSpace with
  | none => exact ⟨h, Nat.le_refl _⟩
  | some r =>
    obtain ⟨S', pos⟩ := r
    obtain ⟨hlast, hinfo, hpos⟩ := FindUndoPos_spec hfind
    have hsum := toNat_add_of_lt hwithin.2
    have hmark := used_mono hinfo (Nat.le_refl _) (by dsimp only; omega)
    have hend : D.used (.rev, nFile) + nAddSize.toNat ≤ S'.used (.rev, nFile) := by
      rw [FileState.used, FileState.used, hinfo nFile, if_pos rfl]
      exact hsum.ge
    refine ⟨?_, by rcases hpos with rfl | rfl <;> exact hlast.ge⟩
    rcases hpos with rfl | rfl
    · exact ⟨h.carved.grow hmark, h.order, fun n hn => Nat.le_trans (h.last n hn) hlast.ge⟩
    · have hcarved := h.carved.cut hmark hend
      exact ⟨hcarved, h.order, fun n hn => Nat.le_trans (h.last n hn) hlast.ge⟩

/-- **What one call keeps**, as long as no size begins again at 0. -/
theorem deskStep_wellGiven {i : FileCall} (h : WellGiven D) (hwithin : Within D i) :
    WellGiven (deskStep D i) ∧ D.nLastBlockFile ≤ (deskStep D i).nLastBlockFile := by
  cases i with
  | block nAddSize nHeight nTime CheckDiskSpace => exact deskStep_block D h hwithin
  | undo nFile nAddSize CheckDiskSpace => exact deskStep_undo D h hwithin

theorem wellGiven_start (S : FileState) : WellGiven ⟨S, []⟩ where
  carved := carved_nil _
  order := List.Pairwise.nil
  last _ h := nomatch h

/-- Ranges of one file have no byte in common, each ends no later than the recorded size, and
the numbers of the block files have not gone back, nor `nLastBlockFile`. -/
def PositionsApart (S : FileState) (D : Desk) : Prop :=
  (D.given.Pairwise fun r r' => r.key = r'.key → ∀ n, (r.pos ≤ n ∧ n < r.pos + r.size) →
    ¬(r'.pos ≤ n ∧ n < r'.pos + r'.size)) ∧
  (∀ r ∈ D.given, r.pos + r.size ≤ D.used r.key) ∧
  (D.fileNumbers.Pairwise fun later earlier => earlier ≤ later) ∧
  S.nLastBlockFile ≤ D.nLastBlockFile

/-- **Whatever was handed out is apart, and lies in its file**: from any files on, over any
calls whose sizes stay within. -/
theorem positions_apart {is : List FileCall} (hrun : Run.Guarded deskStep Within ⟨S, []⟩ is) :
    PositionsApart S (is.foldl deskStep ⟨S, []⟩) := by
  have hkept := Run.run_inv (I := fun D : Desk => WellGiven D ∧ S.nLastBlockFile ≤ D.nLastBlockFile)
    (fun D i h hok => by
      obtain ⟨hgiven, hle⟩ := deskStep_wellGiven h.1 hok
      exact ⟨hgiven, Nat.le_trans h.2 hle⟩)
    ⟨wellGiven_start S, Nat.le_refl _⟩ hrun
  obtain ⟨hgiven, hlast⟩ := hkept
  refine ⟨?_, hgiven.carved.below, hgiven.order, hlast⟩
  exact hgiven.carved.apart.imp fun hapart hkey n => hapart.not_both hkey

/-! ### Sizes that stay within, and sizes that do not -/

theorem within_block (hsmall : nAddSize.toNat ≤ 2 ^ 31)
    (hfiles : ∀ info ∈ D.vinfoBlockFile, info.nSize.toNat < 2 ^ 31) :
    Within D (.block nAddSize nHeight nTime CheckDiskSpace) := by
  intro nFile _ _ _
  have hsize : (D.info nFile).nSize.toNat < 2 ^ 31 := by
    rw [FileState.info, getD_eq_getElem?_getD]
    cases hget : D.vinfoBlockFile[nFile]? with
    | none => exact Nat.two_pow_pos 31
    | some info => exact hfiles info (mem_of_getElem? hget)
  omega

/-- A block, its undo data, and a block the first file has no room for. -/
def twoFiles : List FileCall :=
  [.block 1000 0 0 fun _ => true, .undo 0 200 fun _ => true, .block 0x7ffff00 1 0 fun _ => true,
    .undo 0 50 fun _ => true]

theorem twoFiles_apart :
    Run.Guarded deskStep Within ⟨{}, []⟩ twoFiles ∧
      (twoFiles.foldl deskStep ⟨{}, []⟩).given =
        [⟨(.rev, 0), 200, 50⟩, ⟨(.blk, 1), 0, 0x7ffff00⟩, ⟨(.rev, 0), 0, 200⟩,
          ⟨(.blk, 0), 0, 1000⟩] ∧
      PositionsApart {} (twoFiles.foldl deskStep ⟨{}, []⟩) := by
  have hrun : Run.Guarded deskStep Within ⟨{}, []⟩ twoFiles :=
    ⟨within_block (by decide) (by decide), ⟨by decide, by decide⟩,
      within_block (by decide) (by decide), ⟨by decide, by decide⟩, trivial⟩
  exact ⟨hrun, rfl, positions_apart hrun⟩

/-- 1000 bytes, and then so many that `nSize` begins again and comes to 500. -/
def wrappedSize : List FileCall :=
  [.block 1000 0 0 fun _ => true, .block 0xfffffe0c 1 0 fun _ => true, .block 100 2 0 fun _ => true]

/-- Twice 2 GiB of undo data in one file, and then a little more. -/
def wrappedUndoSize : List FileCall :=
  [.block 1000 0 0 fun _ => true, .undo 0 0x80000000 fun _ => true,
    .undo 0 0x80000000 fun _ => true, .undo 0 100 fun _ => true]

/-- **A size that begins again at 0** gives out bytes anew. -/
theorem sizes_wrap : ¬PositionsApart {} (wrappedSize.foldl deskStep ⟨{}, []⟩) ∧
    ¬PositionsApart {} (wrappedUndoSize.foldl deskStep ⟨{}, []⟩) := by
  have hgiven : (wrappedSize.foldl deskStep ⟨{}, []⟩).given =
      [⟨(.blk, 0), 500, 100⟩, ⟨(.blk, 0), 1000, 0xfffffe0c⟩, ⟨(.blk, 0), 0, 1000⟩] := rfl
  have hundo : (wrappedUndoSize.foldl deskStep ⟨{}, []⟩).given =
      [⟨(.rev, 0), 0, 100⟩, ⟨(.rev, 0), 0x80000000, 0x80000000⟩, ⟨(.rev, 0), 0, 0x80000000⟩,
        ⟨(.blk, 0), 0, 1000⟩] := rfl
  constructor
  · rintro ⟨hapart, -⟩
    rw [hgiven] at hapart
    have hfirst := (pairwise_cons.mp hapart).1 ⟨(.blk, 0), 0, 1000⟩ (by simp)
    exact hfirst rfl 500 (by decide) (by decide)
  · rintro ⟨hapart, -⟩
    rw [hundo] at hapart
    have hfirst := (pairwise_cons.mp hapart).1 ⟨(.rev, 0), 0, 0x80000000⟩ (by simp)
    exact hfirst rfl 0 (by decide) (by decide)

/-! ## Blocks that are small -/

/-- One state, with the sizes of the files as numbers. -/
structure SameFiles (S : FileState) (N : BlockStore.ChainNode) : Prop where
  infos : N.vinfoBlockFile = S.vinfoBlockFile.map fun info =>
    ⟨info.nSize.toNat, info.nUndoSize.toNat⟩
  last : N.nLastBlockFile = S.nLastBlockFile

theorem full_iff {info : CBlockFileInfo} (h : info.nSize.toNat + nAddSize.toNat < 2 ^ 32) :
    info.full nAddSize =
      decide (BlockStore.MAX_BLOCKFILE_SIZE ≤ info.nSize.toNat + nAddSize.toNat) := by
  refine decide_eq_decide.mpr ?_
  rw [BitVec.le_def, toNat_add_of_lt h]
  rfl

theorem leave_eq (hsmall : nAddSize.toNat < BlockStore.MAX_BLOCKFILE_SIZE)
    (hsums : ∀ info ∈ infos, info.nSize.toNat + nAddSize.toNat < 2 ^ 32) :
    leave nAddSize infos n = some (n + (infos.takeWhile fun info =>
      decide (BlockStore.MAX_BLOCKFILE_SIZE ≤ info.nSize.toNat + nAddSize.toNat)).length) := by
  induction infos generalizing n with
  | nil =>
    have hfits : ({} : CBlockFileInfo).full nAddSize = false := by
      rw [full_iff (by show 0 + nAddSize.toNat < 2 ^ 32; omega)]
      exact decide_eq_false (by show ¬_ ≤ 0 + nAddSize.toNat; omega)
    rw [leave, if_neg (Bool.eq_false_iff.mp hfits)]
    rfl
  | cons info infos ih =>
    obtain ⟨hfirst, hrest⟩ := forall_mem_cons.mp hsums
    rw [leave, full_iff hfirst, takeWhile_cons]
    split_ifs with hfull
    · rw [ih hrest, length_cons]
      congr 1
      omega
    · rfl

variable {N : BlockStore.ChainNode}

theorem SameFiles.info (h : SameFiles S N) (n : ℕ) :
    N.info n = ⟨(S.info n).nSize.toNat, (S.info n).nUndoSize.toNat⟩ := by
  rw [BlockStore.ChainNode.info, FileState.info, h.infos]
  exact getD_map _ {} fun info : CBlockFileInfo =>
    (⟨info.nSize.toNat, info.nUndoSize.toNat⟩ : BlockStore.CBlockFileInfo)

theorem FindBlockPos_eq
    (hfile : leave nAddSize (S.vinfoBlockFile.drop S.nLastBlockFile) S.nLastBlockFile = some nFile)
    (hspace : ∀ n, CheckDiskSpace n = true) :
    S.FindBlockPos nAddSize nHeight nTime CheckDiskSpace =
      some (⟨(S.resized nFile).set nFile
        { (S.info nFile).AddBlock nHeight nTime with nSize := (S.info nFile).nSize + nAddSize },
        nFile, S.setDirtyFileInfo.insert nFile⟩, some ⟨nFile, (S.info nFile).nSize⟩) := by
  have hspaces : ∀ n,
      (missing BLOCKFILE_CHUNK_SIZE n (n + nAddSize)).all CheckDiskSpace = true := by
    intro n
    cases missing BLOCKFILE_CHUNK_SIZE n (n + nAddSize) with
    | none => rfl
    | some n => exact hspace n
  rw [FileState.FindBlockPos, hfile, Option.map_some]
  rw [if_pos (hspaces _)]

/-- **`FindBlockPos` on numbers**: for a block smaller than a file, as long as no sum begins
again at 0, the file is the same and so are the sizes. -/
theorem FindBlockPos_small (h : SameFiles S N)
    (hsmall : nAddSize.toNat < BlockStore.MAX_BLOCKFILE_SIZE)
    (hsums : ∀ info ∈ S.vinfoBlockFile, info.nSize.toNat + nAddSize.toNat < 2 ^ 32)
    (hspace : ∀ n, CheckDiskSpace n = true) :
    ∃ S' pos, S.FindBlockPos nAddSize nHeight nTime CheckDiskSpace = some (S', some pos) ∧
      pos.nFile = BlockStore.fileFor N nAddSize.toNat ∧
      pos.nPos.toNat = (N.info pos.nFile).nSize ∧
      SameFiles S' (BlockStore.FindBlockPos N nAddSize.toNat).1 := by
  have hfile : leave nAddSize (S.vinfoBlockFile.drop S.nLastBlockFile) S.nLastBlockFile =
      some (BlockStore.fileFor N nAddSize.toNat) := by
    rw [leave_eq hsmall fun info hinfo => hsums info (mem_of_mem_drop hinfo),
      BlockStore.fileFor, BlockStore.fullFiles, h.infos, h.last, ← map_drop,
      takeWhile_map, length_map]
    rfl
  have hsum : (S.info (BlockStore.fileFor N nAddSize.toNat)).nSize.toNat + nAddSize.toNat <
      2 ^ 32 := by
    rw [FileState.info, getD_eq_getElem?_getD]
    cases hget : S.vinfoBlockFile[BlockStore.fileFor N nAddSize.toNat]? with
    | none =>
      show 0 + nAddSize.toNat < 2 ^ 32
      omega
    | some info => exact hsums info (mem_of_getElem? hget)
  refine ⟨_, _, FindBlockPos_eq hfile hspace, rfl, ?_, ?_⟩
  · rw [h.info]
  · refine ⟨?_, rfl⟩
    rw [BlockStore.FindBlockPos, BlockStore.ChainNode.setInfo]
    rw [map_set, FileState.resized, map_append, map_replicate, BlockStore.resized,
      h.infos, length_map, h.info, toNat_add_of_lt hsum]
    rfl

end Divitae.FilePositions
