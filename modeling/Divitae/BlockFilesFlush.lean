/-
# `BlockFilesFlush` — storing a block, and flushing

The block goes where its file ends, and the entry points there.  The flush is the one with an
order to prove: the sizes of the files, upwards; then the entries of the index, which end
within these sizes; then the coins, whose block has its chain in the index.
-/
import Divitae.BlockFilesKept
import Mathlib.Data.List.GetD

namespace Divitae.BlockStore

open List Function ChainDisk

open FileLog (Intact Written readAt)
open Crash (Along)

section
variable {u : Prop} {genesis hash : uint256} {N : ChainNode} {D : ChainDisk}
  {entry : CDiskBlockIndex} {f : ℕ} {i : CBlockFileInfo}

/-- A function keeps what it should, at its writes and at its end. -/
def Keeps (u : Prop) (genesis : uint256) (D : ChainDisk) (r : Wrote) : Prop :=
  Along ChainDisk.write (DiskKept u genesis) D r.2 ∧
    Kept u genesis r.1 (r.2.foldl ChainDisk.write D)

theorem Kept.keeps (h : Kept u genesis N D) : Keeps u genesis D (N, []) := ⟨h.disk, h⟩

theorem Keeps.andThen {r : Wrote} {next : ChainNode → Wrote} (h : Keeps u genesis D r)
    (hnext : ∀ D', Kept u genesis r.1 D' → Keeps u genesis D' (next r.1)) :
    Keeps u genesis D (r.andThen next) := by
  obtain ⟨halong, hkept⟩ := hnext _ h.2
  refine ⟨h.1.append halong, ?_⟩
  rw [Wrote.andThen, foldl_append]
  exact hkept

theorem setDirty_map (N : ChainNode) (hash : uint256) (entry : CDiskBlockIndex) :
    (N.setDirty hash entry).mapBlockIndex = Function.update N.mapBlockIndex hash (some entry) := rfl

theorem Kept.setDirty (h : Kept u genesis N D) (hentry : EntryKept u genesis D N.info hash entry)
    (hoff : hash ∉ N.chainActive) : Kept u genesis (N.setDirty hash entry) D := by
  refine { h with entries := ?_, saved := ?_, active := h.active.update_off hoff _ }
  · intro a e he
    rw [setDirty_map] at he
    rcases eq_or_ne a hash with rfl | hne
    · rw [update_self] at he
      cases he
      exact hentry
    · rw [update_of_ne hne] at he
      exact h.entries a e he
  · intro a e he hdata hchild
    rw [setDirty_map] at he
    rcases eq_or_ne a hash with rfl | hne
    · exact .inl mem_insert_self
    · rw [update_of_ne hne] at he
      exact (h.saved a e he hdata hchild).imp_left mem_insert_of_mem

theorem setInfo_info (hf : f < N.vinfoBlockFile.length) (i : CBlockFileInfo) :
    (N.setInfo f i).info = Function.update N.info f i := by
  funext f'
  show (N.vinfoBlockFile.set f i).getD f' {} = _
  rw [getD_eq_getElem?_getD, List.getElem?_set]
  rcases eq_or_ne f' f with rfl | hne
  · rw [if_pos rfl, if_pos hf, update_self]
    rfl
  · rw [if_neg hne.symm, update_of_ne hne]
    exact (getD_eq_getElem?_getD ..).symm

theorem Kept.setInfo (h : Kept u genesis N D) (hf : f < N.vinfoBlockFile.length)
    (hsize : (N.info f).nSize ≤ i.nSize) (hundo : u → (N.info f).nUndoSize ≤ i.nUndoSize) :
    Kept u genesis (N.setInfo f i) D := by
  have hinfo : (N.setInfo f i).info = Function.update N.info f i := setInfo_info hf i
  have hgrown : Grown u N.info (N.setInfo f i).info := by
    rw [hinfo]
    exact Grown.update hsize hundo
  have hlen : (N.setInfo f i).vinfoBlockFile.length = N.vinfoBlockFile.length := length_set
  refine { h with entries := ?_, sizes := h.sizes.trans hgrown, clean := ?_, lastIn := ?_
                  known := ?_, filled := ?_ }
  · intro a e he
    exact (h.entries a e he).mono hgrown
  · intro f' hf'
    have hne : f' ≠ f := fun heq => hf' (heq ▸ mem_insert_self)
    rw [hinfo, update_of_ne hne]
    exact h.clean f' fun hmem => hf' (mem_insert_of_mem hmem)
  · rw [hlen]
    exact h.lastIn
  · intro f' hf'
    rw [hlen]
    exact h.known f' hf'
  · intro f' hf'
    rw [hlen] at hf'
    exact (h.filled f' hf').imp_left mem_insert_of_mem

/-! ## A block is stored -/

section
variable (nAddSize : ℕ)

theorem fileFor_le (h : N.nLastBlockFile < N.vinfoBlockFile.length) :
    fileFor N nAddSize ≤ N.vinfoBlockFile.length := by
  have htake : (fullFiles N nAddSize).length ≤ (N.vinfoBlockFile.drop N.nLastBlockFile).length :=
    (takeWhile_sublist _).length_le
  rw [length_drop] at htake
  rw [fileFor]
  omega

theorem resized_length (n : ℕ) : (resized N n).length = max N.vinfoBlockFile.length (n + 1) := by
  rw [resized, length_append, length_replicate]
  omega

theorem resized_getD (n f : ℕ) : (resized N n).getD f {} = N.info f := by
  rw [resized, ChainNode.info]
  rcases Nat.lt_or_ge f N.vinfoBlockFile.length with hlt | hge
  · rw [getD_append _ _ _ _ hlt]
  · rw [getD_append_right _ _ _ _ hge, getD_eq_default _ _ hge]
    rw [getD_eq_getElem?_getD, List.getElem?_replicate]
    split_ifs <;> rfl

theorem FindBlockPos_kept (h : Kept u genesis N D) :
    Kept u genesis (FindBlockPos N nAddSize).1 D := by
  set nFile := fileFor N nAddSize with hnFile
  have hle : nFile ≤ N.vinfoBlockFile.length := fileFor_le nAddSize h.lastIn
  have hlast : N.nLastBlockFile ≤ nFile := Nat.le_add_right _ _
  set N₁ : ChainNode :=
    { N with vinfoBlockFile := resized N nFile, nLastBlockFile := nFile } with hN₁
  set i : CBlockFileInfo := { N.info nFile with nSize := (N.info nFile).nSize + nAddSize } with hi
  have hlen : N₁.vinfoBlockFile.length = max N.vinfoBlockFile.length (nFile + 1) :=
    resized_length nFile
  have hin : nFile < N₁.vinfoBlockFile.length := by
    omega
  have hinfo₁ : N₁.info = N.info := by
    funext f
    exact resized_getD nFile f
  have hinfo : (N₁.setInfo nFile i).info = Function.update N.info nFile i := by
    rw [setInfo_info hin, hinfo₁]
  have hgrown : Grown u N.info (N₁.setInfo nFile i).info := by
    rw [hinfo]
    exact Grown.update (Nat.le_add_right _ _) fun _ => le_rfl
  have hlen' : (N₁.setInfo nFile i).vinfoBlockFile.length =
      max N.vinfoBlockFile.length (nFile + 1) :=
    (length_set ..).trans hlen
  refine { h with entries := ?_, sizes := h.sizes.trans hgrown, clean := ?_
                  last := h.last.trans hlast, lastIn := ?_, known := ?_, filled := ?_ }
  · intro a e he
    exact (h.entries a e he).mono hgrown
  · intro f hf
    have hne : f ≠ nFile := fun heq => hf (heq ▸ mem_insert_self)
    show D.info f = (N₁.setInfo nFile i).info f
    rw [hinfo, update_of_ne hne]
    exact h.clean f fun hmem => hf (mem_insert_of_mem hmem)
  · show nFile < (N₁.setInfo nFile i).vinfoBlockFile.length
    omega
  · intro f hf
    have hbefore : f < N.vinfoBlockFile.length := h.known f hf
    show f < (N₁.setInfo nFile i).vinfoBlockFile.length
    omega
  · intro f hf
    replace hf : f < (N₁.setInfo nFile i).vinfoBlockFile.length := hf
    rcases eq_or_ne f nFile with rfl | hne
    · exact .inl mem_insert_self
    · have hbefore : f < N.vinfoBlockFile.length := by omega
      exact (h.filled f hbefore).imp_left mem_insert_of_mem

theorem FindBlockPos_info :
    ((FindBlockPos N nAddSize).1.info (fileFor N nAddSize)).nSize =
      (N.info (fileFor N nAddSize)).nSize + nAddSize := by
  have hin : fileFor N nAddSize < (resized N (fileFor N nAddSize)).length := by
    rw [resized_length]
    omega
  show ((ChainNode.setInfo { N with vinfoBlockFile := resized N (fileFor N nAddSize)
                                    nLastBlockFile := fileFor N nAddSize } _ _).info _).nSize = _
  rw [setInfo_info hin, update_self]

theorem allocated_above (info : ℕ → CBlockFileInfo) (chunk f n : ℕ) {w : FileWrite} :
    (w ∈ allocated chunk f (info f).nSize n → w.Above fun f => (info f).nSize) ∧
      (w ∈ allocated chunk f (info f).nUndoSize n → w.Above fun f => (info f).nUndoSize) := by
  constructor
  all_goals
    intro hw
    rw [allocated] at hw
    split_ifs at hw with hmore
    · obtain rfl := mem_singleton.mp hw
      exact le_rfl
    · exact nomatch hw

theorem FindBlockPos_above {w : DiskWrite} (hw : w ∈ (FindBlockPos N nAddSize).2) :
    WritesAbove u N.info w := by
  rcases mem_append.mp hw with hw | hw
  · obtain ⟨-, -, hw⟩ := mem_flatMap.mp hw
    rcases mem_cons.mp hw with rfl | hw
    · exact le_rfl
    · obtain rfl := mem_singleton.mp hw
      exact fun _ => le_rfl
  · obtain ⟨w', hw', rfl⟩ := mem_map.mp hw
    exact (allocated_above N.info _ _ _).1 hw'

end

theorem foldl_blk (ws : List DiskWrite) (w : FileWrite) (D : ChainDisk) :
    ((ws ++ [DiskWrite.blk w]).foldl write D).blk = w :: (ws.foldl write D).blk := by
  rw [foldl_append]
  rfl

theorem foldl_rev (ws : List DiskWrite) (w : FileWrite) (D : ChainDisk) :
    ((ws ++ [DiskWrite.rev w]).foldl write D).rev = w :: (ws.foldl write D).rev := by
  rw [foldl_append]
  rfl

theorem storeBlock_keeps (h : Kept u genesis N D) (nBlockSize : ℕ) (hoff : hash ∉ N.chainActive)
    (hundo : entry.nStatus.haveUndo = false) :
    Keeps u genesis D (storeBlock N hash entry nBlockSize) := by
  set nFile := fileFor N (nBlockSize + 8) with hnFile
  set w : FileWrite := .record nFile (N.info nFile).nSize 8 nBlockSize hash with hw
  have habove : ∀ w' ∈ (storeBlock N hash entry nBlockSize).2, WritesAbove u N.info w' := by
    intro w' hw'
    rcases mem_append.mp hw' with hw' | hw'
    · exact FindBlockPos_above _ hw'
    · obtain rfl := mem_singleton.mp hw'
      exact ⟨le_rfl, Nat.succ_pos 7⟩
  obtain ⟨halong, hkept⟩ := h.writes habove
  refine ⟨halong, (FindBlockPos_kept (nBlockSize + 8) hkept).setDirty ?_ hoff⟩
  have hread : readAt ((storeBlock N hash entry nBlockSize).2.foldl write D).blk nFile
      ((N.info nFile).nSize + 8) = some (hash, nBlockSize) := by
    show readAt ((_ ++ [DiskWrite.blk w]).foldl write D).blk _ _ = _
    rw [foldl_blk]
    exact FileLog.readAt_record _ _ _ _ _ _
  have hend : ((FindBlockPos N (nBlockSize + 8)).1.info nFile).nSize =
      (N.info nFile).nSize + (nBlockSize + 8) := FindBlockPos_info _
  exact
    { data := fun _ => ⟨nBlockSize, hread, by
        show (N.info nFile).nSize + 8 + nBlockSize ≤
          ((FindBlockPos N (nBlockSize + 8)).1.info nFile).nSize
        omega⟩
      placed := fun _ => Nat.succ_pos _
      level := by
        intro _ hfailed
        rw [received, BlockStatus.RaiseValidity_failed] at hfailed
        rw [received, BlockStatus.RaiseValidity_valid hfailed]
        exact le_max_right _ _
      first := fun _ => (BlockStatus.RaiseValidity_haveUndo _).trans hundo
      undoData := fun _ => BlockStatus.RaiseValidity_haveData _
      undo := fun hun => by simp [received, hundo] at hun
      undoIntact := fun _ hun => by simp [received, hundo] at hun }

/-! ## A flush -/

/-- What the writes of a flush keep, up to the last one: the chain that the coins on disk
belong to is one of the node's chains, and is on disk as well. -/
structure Flushing (u : Prop) (genesis : uint256) (N : ChainNode) (D : ChainDisk) : Prop where
  disk : DiskKept u genesis D
  sizes : Grown u D.info N.info
  chain : ∀ a, D.hashBestChain = some a → ∃ rest,
    Linked genesis N.mapBlockIndex (a :: rest) ∧ Linked genesis D.entry (a :: rest)

def sizeWrites (N : ChainNode) (fs : List ℕ) : List DiskWrite :=
  fs.map fun f => .WriteBlockFileInfo f (N.info f)

def entryWrites (N : ChainNode) (ids : List uint256) : List DiskWrite :=
  ids.filterMap fun a => (N.mapBlockIndex a).map fun e => .WriteBlockIndex a e

theorem Flushing.sizeWrites (h : Flushing u genesis N D) {fs : List ℕ}
    (hsorted : fs.Pairwise (· < ·))
    (hbelow : ∀ f ∈ fs, ∀ f' < f, f' ∈ fs ∨ f' ≤ D.last ∨ D.has f') :
    Along write (Flushing u genesis N) D (sizeWrites N fs) := by
  induction fs generalizing D with
  | nil => exact h
  | cons f fs ih =>
    obtain ⟨hleast, hsorted⟩ := pairwise_cons.mp hsorted
    have hfirst : ∀ f' < f, f' ≤ D.last ∨ D.has f' := by
      intro f' hf'
      refine (hbelow f mem_cons_self f' hf').resolve_left ?_
      intro hmem
      rcases mem_cons.mp hmem with rfl | hmem
      · exact absurd hf' (lt_irrefl f')
      · exact absurd hf' (hleast f' hmem).asymm
    have hnext : Flushing u genesis N (D.write (.WriteBlockFileInfo f (N.info f))) := by
      refine ⟨h.disk.blockFileInfo (h.sizes f).1 (h.sizes f).2 hfirst, ?_, h.chain⟩
      intro f'
      rw [write_info]
      rcases eq_or_ne f' f with rfl | hne
      · rw [update_self]
        exact ⟨le_rfl, fun _ => le_rfl⟩
      · rw [update_of_ne hne]
        exact h.sizes f'
    refine ⟨h, ih hnext hsorted ?_⟩
    intro f₁ hf₁ f₂ hlt
    rw [write_has]
    rcases hbelow f₁ (mem_cons_of_mem f hf₁) f₂ hlt with hmem | hlast | hhas
    · rcases mem_cons.mp hmem with rfl | hmem
      · exact .inr (.inr (.inl rfl))
      · exact .inl hmem
    · exact .inr (.inl hlast)
    · exact .inr (.inr (.inr hhas))

theorem Flushing.entryWrites (h : Flushing u genesis N D) (hsizes : D.info = N.info)
    (hentries : ∀ a e, N.mapBlockIndex a = some e → EntryKept u genesis D N.info a e)
    (ids : List uint256) :
    Along write (Flushing u genesis N) D (entryWrites N ids) := by
  have halong : Along write (fun D' => Flushing u genesis N D' ∧ D'.info = N.info ∧
      ∀ a e, N.mapBlockIndex a = some e → EntryKept u genesis D' N.info a e) D
      (BlockStore.entryWrites N ids) := by
    refine Crash.along_of_kept ⟨h, hsizes, hentries⟩ ?_
    rintro D' w hw ⟨hD', hsizes', hentries'⟩
    obtain ⟨a, -, hwrite⟩ := mem_filterMap.mp hw
    obtain ⟨e, he, rfl⟩ := Option.map_eq_some_iff.mp hwrite
    have hlinked : ∀ b, D'.hashBestChain = some b → ∃ rest,
        Linked genesis N.mapBlockIndex (b :: rest) ∧
          Linked genesis (Function.update D'.entry a (some e)) (b :: rest) := by
      intro b hb
      obtain ⟨rest, hnode, hdisk⟩ := hD'.chain b hb
      exact ⟨rest, hnode, he ▸ hdisk.update hnode a⟩
    refine ⟨⟨hD'.disk.blockIndex (hsizes' ▸ hentries' a e he) ?_, hD'.sizes, ?_⟩, hsizes', ?_⟩
    · intro b hb
      obtain ⟨rest, -, hdisk⟩ := hlinked b hb
      exact ⟨rest, hdisk⟩
    · intro b hb
      rw [write_entry]
      exact hlinked b hb
    · intro b e' he'
      exact (hentries' b e' he').files rfl rfl
  exact halong.mono fun _ h' => h'.1

theorem sizeWrites_rest (fs : List ℕ) (D : ChainDisk) :
    ((sizeWrites N fs).foldl write D).blockIndex = D.blockIndex ∧
      ((sizeWrites N fs).foldl write D).blk = D.blk ∧
      ((sizeWrites N fs).foldl write D).rev = D.rev ∧
      ((sizeWrites N fs).foldl write D).hashBestChain = D.hashBestChain ∧
      ((sizeWrites N fs).foldl write D).last = D.last := by
  refine Crash.foldl_of_kept (P := fun D' : ChainDisk => D'.blockIndex = D.blockIndex ∧
    D'.blk = D.blk ∧ D'.rev = D.rev ∧ D'.hashBestChain = D.hashBestChain ∧ D'.last = D.last)
    ⟨rfl, rfl, rfl, rfl, rfl⟩ ?_
  intro D' w hw hD'
  obtain ⟨f, -, rfl⟩ := mem_map.mp hw
  exact hD'

theorem entryWrites_rest (ids : List uint256) (D : ChainDisk) :
    ((entryWrites N ids).foldl write D).blockFileInfo = D.blockFileInfo ∧
      ((entryWrites N ids).foldl write D).blk = D.blk ∧
      ((entryWrites N ids).foldl write D).rev = D.rev ∧
      ((entryWrites N ids).foldl write D).hashBestChain = D.hashBestChain ∧
      ((entryWrites N ids).foldl write D).last = D.last := by
  refine Crash.foldl_of_kept (P := fun D' : ChainDisk => D'.blockFileInfo = D.blockFileInfo ∧
    D'.blk = D.blk ∧ D'.rev = D.rev ∧ D'.hashBestChain = D.hashBestChain ∧ D'.last = D.last)
    ⟨rfl, rfl, rfl, rfl, rfl⟩ ?_
  intro D' w hw hD'
  obtain ⟨a, -, hwrite⟩ := mem_filterMap.mp hw
  obtain ⟨e, -, rfl⟩ := Option.map_eq_some_iff.mp hwrite
  exact hD'

theorem sizeWrites_info (fs : List ℕ) (D : ChainDisk) (f : ℕ) :
    ((sizeWrites N fs).foldl write D).info f = (if f ∈ fs then N.info f else D.info f) ∧
      (((sizeWrites N fs).foldl write D).has f ↔ f ∈ fs ∨ D.has f) := by
  induction fs generalizing D with
  | nil => exact ⟨rfl, (or_iff_right not_mem_nil).symm⟩
  | cons a fs ih =>
    obtain ⟨hinfo, hhas⟩ := ih (D.write (.WriteBlockFileInfo a (N.info a)))
    rw [write_info] at hinfo
    rw [write_has] at hhas
    constructor
    · refine hinfo.trans ?_
      rcases eq_or_ne f a with rfl | hne
      · rw [update_self, ite_self, if_pos mem_cons_self]
      · rw [update_of_ne hne]
        refine if_congr ?_ rfl rfl
        rw [mem_cons, or_iff_right hne]
    · refine hhas.trans ?_
      rw [mem_cons, ← or_assoc, or_comm (a := f ∈ fs)]

theorem entryWrites_entry (ids : List uint256) (D : ChainDisk) (a : uint256) :
    ((entryWrites N ids).foldl write D).entry a =
      if a ∈ ids then (N.mapBlockIndex a).or (D.entry a) else D.entry a := by
  induction ids generalizing D with
  | nil => rfl
  | cons b ids ih =>
    have hrest : a ≠ b → (a ∈ ids ↔ a ∈ b :: ids) := by
      intro hne
      rw [mem_cons, or_iff_right hne]
    cases hb : N.mapBlockIndex b with
    | none =>
      have hskip : entryWrites N (b :: ids) = entryWrites N ids := by
        rw [entryWrites, filterMap_cons, hb]
        rfl
      rw [hskip, ih]
      rcases eq_or_ne a b with rfl | hne
      · rw [hb, Option.none_or, ite_self, ite_self]
      · exact if_congr (hrest hne) rfl rfl
    | some e =>
      have hwrite : entryWrites N (b :: ids) = .WriteBlockIndex b e :: entryWrites N ids := by
        rw [entryWrites, filterMap_cons, hb]
        rfl
      rw [hwrite, foldl_cons, ih, write_entry]
      rcases eq_or_ne a b with rfl | hne
      · rw [update_self, hb, Option.some_or, Option.some_or, ite_self, if_pos mem_cons_self]
      · rw [update_of_ne hne]
        exact if_congr (hrest hne) rfl rfl

/-! ### The whole flush -/

theorem dirtyFiles_sorted (N : ChainNode) : (dirtyFiles N).Pairwise (· < ·) :=
  pairwise_lt_range.filter _

theorem mem_dirtyFiles :
    f ∈ dirtyFiles N ↔ f < N.vinfoBlockFile.length ∧ f ∈ N.setDirtyFileInfo := by
  rw [dirtyFiles, mem_filter, mem_range, decide_eq_true_eq]

theorem mem_dirtyEntries {address : uint256 → ℕ} :
    hash ∈ dirtyEntries N address ↔ hash ∈ N.setDirtyBlockIndex :=
  (perm_insertionSort _ _).mem_iff

/-- When the sizes have been written the database has those of the node. -/
theorem NodeKept.sizes_written (h : NodeKept u genesis N D) :
    ((sizeWrites N (dirtyFiles N)).foldl write D).info = N.info := by
  funext f
  rw [(sizeWrites_info (dirtyFiles N) D f).1]
  split_ifs with hmem
  · rfl
  · by_cases hdirty : f ∈ N.setDirtyFileInfo
    · -- a file that is not there has no sizes, neither here nor there
      have hout : N.vinfoBlockFile.length ≤ f :=
        Nat.not_lt.mp fun hlt => hmem (mem_dirtyFiles.mpr ⟨hlt, hdirty⟩)
      have hhas : ¬ D.has f := fun hhas => absurd (h.known f hhas) (Nat.not_lt.mpr hout)
      rw [D.info_of_not_has hhas]
      exact (getD_eq_default _ _ hout).symm
    · exact h.clean f hdirty

/-- The disk once the sizes, and perhaps the entries, have been written. -/
structure WrittenOut (N : ChainNode) (D D' : ChainDisk) : Prop where
  blk : D'.blk = D.blk
  rev : D'.rev = D.rev
  best : D'.hashBestChain = D.hashBestChain
  info : D'.info = N.info
  has : ∀ f, D'.has f ↔ f ∈ dirtyFiles N ∨ D.has f
  grown : D.last ≤ D'.last
  last : D'.last ≤ N.nLastBlockFile

theorem NodeKept.sizesOut (h : NodeKept u genesis N D) (hchain : ∀ a, D.hashBestChain = some a →
      ∃ rest, Linked genesis N.mapBlockIndex (a :: rest) ∧ Linked genesis D.entry (a :: rest)) :
    Along write (Flushing u genesis N) D (fileWrites N) ∧
      WrittenOut N D ((fileWrites N).foldl write D) ∧
      ((fileWrites N).foldl write D).entry = D.entry := by
  have hsizes : Along write (Flushing u genesis N) D (sizeWrites N (dirtyFiles N)) := by
    refine Flushing.sizeWrites ⟨h.disk, h.sizes, hchain⟩ (dirtyFiles_sorted N) ?_
    intro f hf f' hlt
    have hin : f' < N.vinfoBlockFile.length := hlt.trans (mem_dirtyFiles.mp hf).1
    exact (h.filled f' hin).imp_left fun hdirty => mem_dirtyFiles.mpr ⟨hin, hdirty⟩
  set D₁ := (sizeWrites N (dirtyFiles N)).foldl write D with hD₁
  obtain ⟨hindex, hblk, hrev, hbest, hlast⟩ := sizeWrites_rest (N := N) (dirtyFiles N) D
  have hle : D₁.last ≤ N.nLastBlockFile := hlast.trans_le h.last
  have hentry : D₁.entry = D.entry := funext fun a => congrArg (List.lookup a) hindex
  have hhas : ∀ f, D₁.has f ↔ f ∈ dirtyFiles N ∨ D.has f :=
    fun f => (sizeWrites_info (dirtyFiles N) D f).2
  by_cases hnil : dirtyFiles N = []
  · have hwrites : fileWrites N = sizeWrites N (dirtyFiles N) := by
      rw [fileWrites, if_pos hnil, append_nil, BlockStore.sizeWrites]
    rw [hwrites]
    exact ⟨hsizes, ⟨hblk, hrev, hbest, h.sizes_written, hhas, hlast.ge, hle⟩, hentry⟩
  · have hwrites : fileWrites N =
        sizeWrites N (dirtyFiles N) ++ [.WriteLastBlockFile N.nLastBlockFile] := by
      rw [fileWrites, if_neg hnil, BlockStore.sizeWrites]
    rw [hwrites, foldl_append]
    refine ⟨hsizes.append ?_, ⟨hblk, hrev, hbest, h.sizes_written, hhas, h.last, le_rfl⟩, hentry⟩
    exact ⟨hsizes.last, hsizes.last.disk.lastBlockFile hle, hsizes.last.sizes, hsizes.last.chain⟩

variable {D' : ChainDisk}

theorem WrittenOut.entryWrites (h : WrittenOut N D D') (ids : List uint256) :
    WrittenOut N D ((entryWrites N ids).foldl write D') := by
  obtain ⟨hinfos, hblk, hrev, hbest, hlast⟩ := entryWrites_rest (N := N) ids D'
  refine ⟨hblk.trans h.blk, hrev.trans h.rev, hbest.trans h.best, ?_, ?_, ?_, ?_⟩
  · rw [← h.info]
    funext f
    exact congrArg (fun l => (List.lookup f l).getD {}) hinfos
  · intro f
    rw [← h.has f, ChainDisk.has, hinfos]
    rfl
  · exact hlast ▸ h.grown
  · exact hlast ▸ h.last

/-- What the index on disk has then. -/
def IndexOut (N : ChainNode) (D D' : ChainDisk) : Prop :=
  ∀ a, D'.entry a =
    if a ∈ N.setDirtyBlockIndex then (N.mapBlockIndex a).or (D.entry a) else D.entry a

section
variable (h : NodeKept u genesis N D)
include h

theorem NodeKept.allOut (hchain : ∀ a, D.hashBestChain = some a →
      ∃ rest, Linked genesis N.mapBlockIndex (a :: rest) ∧ Linked genesis D.entry (a :: rest))
    (address : uint256 → ℕ) :
    Along write (Flushing u genesis N) D (fileWrites N ++ indexWrites N address) ∧
      WrittenOut N D ((fileWrites N ++ indexWrites N address).foldl write D) ∧
      IndexOut N D ((fileWrites N ++ indexWrites N address).foldl write D) := by
  obtain ⟨halong, hout, hentry⟩ := h.sizesOut hchain
  have hentries : ∀ a e, N.mapBlockIndex a = some e →
      EntryKept u genesis ((fileWrites N).foldl write D) N.info a e :=
    fun a e he => (h.entries a e he).files hout.blk hout.rev
  have hindex : indexWrites N address = entryWrites N (dirtyEntries N address) := rfl
  rw [foldl_append, hindex]
  refine ⟨halong.append (Flushing.entryWrites halong.last hout.info hentries _),
    hout.entryWrites _, ?_⟩
  intro a
  rw [entryWrites_entry, hentry]
  exact if_congr mem_dirtyEntries rfl rfl

theorem NodeKept.chainOut (hindex : IndexOut N D D') :
    Linked genesis D'.entry N.chainActive := by
  refine h.active.congr ?_
  intro a ha
  obtain ⟨e, he, hc⟩ := h.active.mem ha
  have hfailed : e.nStatus.failed = false := (BlockStatus.IsValid_iff.mp hc.valid).1
  have hchild : e.nStatus.failedChild = false := (Bool.or_eq_false_iff.mp hfailed).2
  rw [hindex, he, Option.some_or]
  split_ifs with hdirty
  · rfl
  · exact (h.saved a e he hc.data hchild).resolve_left hdirty

theorem NodeKept.cleaned
    (hdisk : DiskKept u genesis D')
    (hout : WrittenOut N D D') (hindex : IndexOut N D D') :
    NodeKept u genesis { N with setDirtyFileInfo := [], setDirtyBlockIndex := [] } D' where
  disk := hdisk
  entries a e he := (h.entries a e he).files hout.blk hout.rev
  sizes := by
    rw [hout.info]
    exact Grown.refl N.info
  clean f _ := congrFun hout.info f
  last := hout.last
  lastIn := h.lastIn
  known := by
    intro f hf
    exact ((hout.has f).mp hf).elim (fun hmem => (mem_dirtyFiles.mp hmem).1) (h.known f)
  filled := by
    intro f hf
    rcases h.filled f hf with hdirty | hlast | hhas
    · exact .inr (.inr ((hout.has f).mpr (.inl (mem_dirtyFiles.mpr ⟨hf, hdirty⟩))))
    · exact .inr (.inl (hlast.trans hout.grown))
    · exact .inr (.inr ((hout.has f).mpr (.inr hhas)))
  saved := by
    intro a e he hdata hchild
    have hold : a ∈ N.setDirtyBlockIndex ∨ D.entry a = some e := h.saved a e he hdata hchild
    refine .inr ((hindex a).trans ?_)
    split_ifs with hdirty
    · exact congrArg (fun o => o.or (D.entry a)) he
    · exact hold.resolve_left hdirty
  active := h.active
  best := h.best

theorem NodeKept.batchWrite (hlinked : Linked genesis D.entry N.chainActive)
    (hnone : N.chainActive = [] → D.hashBestChain = none) :
    Kept u genesis N (D.write (.BatchWrite N.bestBlock)) := by
  cases hbest : N.bestBlock with
  | none =>
    have hnil : N.chainActive = [] := List.head?_eq_none_iff.mp (h.best.symm.trans hbest)
    refine { h with behind := ?_ }
    intro a ha
    exact nomatch (hnone hnil).symm.trans ha
  | some b =>
    obtain ⟨rest, hrest⟩ := List.head?_eq_some_iff.mp (h.best.symm.trans hbest)
    have hchain : Linked genesis D.entry (b :: rest) := hrest ▸ hlinked
    refine
      { h with
        disk := h.disk.batchWrite ?_
        entries := fun a e he => (h.entries a e he).files rfl rfl
        behind := ?_ }
    · intro a ha
      obtain rfl : b = a := Option.some.inj ha
      exact ⟨rest, hchain⟩
    · intro a ha
      obtain rfl : b = a := Option.some.inj ha
      exact ⟨rest, hrest ▸ suffix_refl _, hchain⟩

/-- **The order of the flush.**  Whatever the coins on disk belong to, as long as it is one of
the node's chains, a flush that comes leaves the disk kept at each of its writes; afterwards the
coins are those of the tip. -/
theorem NodeKept.flush {mode : FlushStateMode} {call : FlushCall}
    (hdue : call.due mode = true)
    (hchain : ∀ a, D.hashBestChain = some a → ∃ rest,
      Linked genesis N.mapBlockIndex (a :: rest) ∧ Linked genesis D.entry (a :: rest))
    (hnone : N.chainActive = [] → D.hashBestChain = none) :
    Keeps u genesis D (FlushStateToDisk N mode call) := by
  obtain ⟨halong, hout, hindex⟩ := h.allOut hchain call.address
  have hclean := h.cleaned halong.last.disk hout hindex
  have hkept := hclean.batchWrite (h.chainOut hindex) fun hnil => hout.best.trans (hnone hnil)
  rw [FlushStateToDisk, if_pos hdue]
  refine ⟨(halong.mono fun _ h' => h'.disk).append ⟨halong.last.disk, hkept.disk⟩, ?_⟩
  rw [foldl_append]
  exact hkept

end

theorem Kept.flush (h : Kept u genesis N D) (mode : FlushStateMode) (call : FlushCall) :
    Keeps u genesis D (FlushStateToDisk N mode call) := by
  by_cases hdue : call.due mode = true
  · refine h.toNodeKept.flush hdue ?_ ?_
    · intro a ha
      obtain ⟨rest, hsuffix, hlinked⟩ := h.behind a ha
      exact ⟨rest, h.active.suffix hsuffix, hlinked⟩
    · intro hnil
      refine Option.eq_none_iff_forall_ne_some.mpr ?_
      intro a ha
      obtain ⟨rest, hsuffix, -⟩ := h.behind a ha
      rw [hnil] at hsuffix
      exact absurd (suffix_nil.mp hsuffix) (cons_ne_nil a rest)
  · rw [FlushStateToDisk, if_neg hdue]
    exact h.keeps

end

end Divitae.BlockStore
