/-
# `BlockFilesKept` — what the disk has, whenever the power fails

    EntryKept      an entry of the index has its data, and its undo data, in the files
    Linked         a chain of entries from a tip down to the genesis block, all connected
    DiskKept       of the disk alone, at every point of every operation
    Kept           of the node and the disk, between operations

The sizes carry the argument: what an entry points to ends below the size its file has in the
database, these are no larger than the sizes the node has, and the node writes above the
latter only.  An undo file's size is an `unsigned int` that is never checked; where it has
wrapped, undo data are written over older ones.  What needs it not to is stated under `u`.
-/
import Divitae.BlockFiles

namespace Divitae.BlockStore

open List Function

open FileLog (Intact Written readAt)

/-! ## Entries and chains -/

/-- What an entry says of the files is so, for files of these sizes. -/
structure EntryKept (u : Prop) (genesis : uint256) (D : ChainDisk) (info : ℕ → CBlockFileInfo)
    (hash : uint256) (entry : CDiskBlockIndex) : Prop where
  data : entry.nStatus.haveData = true →
    Intact D.blk (fun f => (info f).nSize) entry.nFile entry.nDataPos hash
  placed : entry.nStatus.haveData = true → 0 < entry.nDataPos
  level : entry.nStatus.haveData = true → entry.nStatus.failed = false →
    BLOCK_VALID_TRANSACTIONS ≤ entry.nStatus.valid
  first : hash = genesis → entry.nStatus.haveUndo = false
  undoData : entry.nStatus.haveUndo = true → entry.nStatus.haveData = true
  undo : entry.nStatus.haveUndo = true →
    ∃ p, Written D.rev entry.nFile p hash ∧ entry.nUndoPos = u32 p
  undoIntact : u → entry.nStatus.haveUndo = true →
    Intact D.rev (fun f => (info f).nUndoSize) entry.nFile entry.nUndoPos hash

/-- The entry of a block that has been connected.  The genesis block, and it alone, has no
block before it, and no undo data. -/
structure HasConnected (genesis hash : uint256) (entry : CDiskBlockIndex) : Prop where
  data : entry.nStatus.haveData = true
  valid : entry.nStatus.IsValid BLOCK_VALID_TRANSACTIONS = true
  undo : hash ≠ genesis → entry.nStatus.haveUndo = true
  first : hash = genesis ↔ entry.hashPrev = none

/-- The tip first, each block with its entry and the block before it. -/
def Linked (genesis : uint256) (look : uint256 → Option CDiskBlockIndex) : List uint256 → Prop
  | [] => True
  | hash :: rest =>
    (∃ entry, look hash = some entry ∧ HasConnected genesis hash entry ∧
      entry.hashPrev = rest.head?) ∧
    hash ∉ rest ∧ Linked genesis look rest

/-- No size has shrunk. -/
def Grown (u : Prop) (info info' : ℕ → CBlockFileInfo) : Prop :=
  ∀ f, (info f).nSize ≤ (info' f).nSize ∧ (u → (info f).nUndoSize ≤ (info' f).nUndoSize)

/-- The write leaves what is below the sizes. -/
def WritesAbove (u : Prop) (info : ℕ → CBlockFileInfo) : DiskWrite → Prop
  | .blk w => w.Above fun f => (info f).nSize
  | .rev w => u → w.Above fun f => (info f).nUndoSize
  | _ => False

section
variable {u : Prop} {genesis hash : uint256} {D : ChainDisk} {info info' : ℕ → CBlockFileInfo}
  {entry entry' : CDiskBlockIndex} {look look' : uint256 → Option CDiskBlockIndex}
  {chain : List uint256}

theorem Grown.refl (info : ℕ → CBlockFileInfo) : Grown u info info :=
  fun _ => ⟨le_rfl, fun _ => le_rfl⟩

theorem Grown.trans {info'' : ℕ → CBlockFileInfo} (h : Grown u info info')
    (h' : Grown u info' info'') : Grown u info info'' :=
  fun f => ⟨(h f).1.trans (h' f).1, fun hu => ((h f).2 hu).trans ((h' f).2 hu)⟩

theorem Grown.update {f : ℕ} {i : CBlockFileInfo} (hsize : (info f).nSize ≤ i.nSize)
    (hundo : u → (info f).nUndoSize ≤ i.nUndoSize) : Grown u info (Function.update info f i) := by
  intro f'
  rcases eq_or_ne f' f with rfl | hne
  · rw [update_self]
    exact ⟨hsize, hundo⟩
  · rw [update_of_ne hne]
    exact ⟨le_rfl, fun _ => le_rfl⟩

variable {w : DiskWrite}

theorem WritesAbove.mono (h : WritesAbove u info' w) (hle : Grown u info info') :
    WritesAbove u info w := by
  match w, h with
  | .blk (.record file start lead len val), h => exact ⟨(hle file).1.trans h.1, h.2⟩
  | .blk (.zeros file start len), h => exact (hle file).1.trans h
  | .blk (.truncate file n), h => exact (hle file).1.trans h
  | .rev (.record file start lead len val), h =>
    exact fun hu => ⟨((hle file).2 hu).trans (h hu).1, (h hu).2⟩
  | .rev (.zeros file start len), h => exact fun hu => ((hle file).2 hu).trans (h hu)
  | .rev (.truncate file n), h => exact fun hu => ((hle file).2 hu).trans (h hu)

section
variable (h : EntryKept u genesis D info hash entry)
include h

theorem EntryKept.mono (hle : Grown u info info') :
    EntryKept u genesis D info' hash entry where
  data hdata := (h.data hdata).mono (hle entry.nFile).1
  placed := h.placed
  level := h.level
  first := h.first
  undoData := h.undoData
  undo := h.undo
  undoIntact hu hundo := (h.undoIntact hu hundo).mono ((hle entry.nFile).2 hu)

theorem EntryKept.write
    (hw : WritesAbove u info w) : EntryKept u genesis (D.write w) info hash entry := by
  match w, hw with
  | .blk w, hw => exact { h with data := fun hdata => (h.data hdata).cons hw }
  | .rev w, hw =>
    refine { h with undo := ?_, undoIntact := fun hu hundo => (h.undoIntact hu hundo).cons (hw hu) }
    intro hundo
    obtain ⟨p, hwritten, hp⟩ := h.undo hundo
    exact ⟨p, hwritten.cons w, hp⟩

theorem EntryKept.files {D' : ChainDisk}
    (hblk : D'.blk = D.blk) (hrev : D'.rev = D.rev) :
    EntryKept u genesis D' info hash entry where
  data hdata := hblk ▸ h.data hdata
  placed := h.placed
  level := h.level
  first := h.first
  undoData := h.undoData
  undo hundo := hrev ▸ h.undo hundo
  undoIntact hu hundo := hrev ▸ h.undoIntact hu hundo

theorem EntryKept.status {s : BlockStatus}
    (hdata : s.haveData = entry.nStatus.haveData) (hundo : s.haveUndo = entry.nStatus.haveUndo)
    (hlevel : s.failed = false → entry.nStatus.failed = false ∧ entry.nStatus.valid ≤ s.valid) :
    EntryKept u genesis D info hash { entry with nStatus := s } where
  data h' := h.data (hdata ▸ h')
  placed h' := h.placed (hdata ▸ h')
  level h' hfailed := (h.level (hdata ▸ h') (hlevel hfailed).1).trans (hlevel hfailed).2
  first h' := hundo.trans (h.first h')
  undoData h' := hdata.trans (h.undoData (hundo ▸ h'))
  undo h' := h.undo (hundo ▸ h')
  undoIntact hu h' := h.undoIntact hu (hundo ▸ h')

end

theorem entryKept_of_no_data (hdata : entry.nStatus.haveData = false)
    (hundo : entry.nStatus.haveUndo = false) : EntryKept u genesis D info hash entry where
  data h := nomatch hdata.symm.trans h
  placed h := nomatch hdata.symm.trans h
  level h := nomatch hdata.symm.trans h
  first _ := hundo
  undoData h := nomatch hundo.symm.trans h
  undo h := nomatch hundo.symm.trans h
  undoIntact _ h := nomatch hundo.symm.trans h

/-! ### Chains -/

section
variable (h : Linked genesis look chain)
include h

theorem Linked.mem (hmem : hash ∈ chain) :
    ∃ entry, look hash = some entry ∧ HasConnected genesis hash entry := by
  induction chain with
  | nil => exact nomatch hmem
  | cons a rest ih =>
    obtain ⟨⟨entry, hlook, hc, -⟩, -, hrest⟩ := h
    rcases mem_cons.mp hmem with rfl | hmem
    · exact ⟨entry, hlook, hc⟩
    · exact ih hrest hmem

theorem Linked.congr (heq : ∀ a ∈ chain, look' a = look a) :
    Linked genesis look' chain := by
  induction chain with
  | nil => trivial
  | cons a rest ih =>
    obtain ⟨⟨entry, hlook, hc, hprev⟩, hnot, hrest⟩ := h
    refine ⟨⟨entry, (heq a mem_cons_self).trans hlook, hc, hprev⟩, hnot, ih hrest ?_⟩
    exact fun b hb => heq b (mem_cons_of_mem a hb)

theorem Linked.update_off (hoff : hash ∉ chain)
    (e : Option CDiskBlockIndex) : Linked genesis (Function.update look hash e) chain := by
  refine h.congr ?_
  intro a ha
  have hne : a ≠ hash := ne_of_mem_of_not_mem ha hoff
  exact update_of_ne hne e look

theorem Linked.update (h' : Linked genesis look' chain)
    (hash : uint256) : Linked genesis (Function.update look hash (look' hash)) chain := by
  induction chain with
  | nil => trivial
  | cons a rest ih =>
    obtain ⟨hentry, hnot, hrest⟩ := h
    obtain ⟨hentry', -, hrest'⟩ := h'
    refine ⟨?_, hnot, ih hrest hrest'⟩
    rcases eq_or_ne a hash with rfl | hne
    · rw [update_self]
      exact hentry'
    · rw [update_of_ne hne]
      exact hentry

theorem Linked.suffix {c : List uint256} (hc : c <:+ chain) :
    Linked genesis look c := by
  induction chain with
  | nil =>
    obtain rfl := suffix_nil.mp hc
    trivial
  | cons a rest ih =>
    rcases suffix_cons_iff.mp hc with rfl | hc
    · exact h
    · exact ih h.2.2 hc

theorem Linked.nodup : chain.Nodup := by
  induction chain with
  | nil => exact nodup_nil
  | cons a rest ih => exact nodup_cons.mpr ⟨h.2.1, ih h.2.2⟩

theorem Linked.genesis_mem (hne : chain ≠ []) :
    genesis ∈ chain := by
  induction chain with
  | nil => exact absurd rfl hne
  | cons a rest ih =>
    obtain ⟨⟨entry, -, hc, hprev⟩, -, hrest⟩ := h
    cases rest with
    | nil =>
      obtain rfl : a = genesis := hc.first.mpr hprev
      exact .head _
    | cons b rest => exact mem_cons_of_mem a (ih hrest (cons_ne_nil b rest))

theorem Linked.off_of_next (hne : chain ≠ [])
    (hlook : look hash = some entry) (hprev : entry.hashPrev = chain.head?) : hash ∉ chain := by
  intro hmem
  cases chain with
  | nil => exact hne rfl
  | cons tip rest =>
    -- further down, each block before another one is below the tip, hence not the tip
    have hbelow : ∀ c, Linked genesis look c → tip ∉ c.tail → hash ∉ c := by
      intro c hc htip hmem
      induction c with
      | nil => exact nomatch hmem
      | cons a rest ih =>
        obtain ⟨⟨e, he, -, heprev⟩, -, hrest⟩ := hc
        rcases mem_cons.mp hmem with rfl | hmem
        · obtain rfl := Option.some.inj (hlook.symm.trans he)
          have htop : rest.head? = some tip := heprev.symm.trans hprev
          exact htip (mem_of_mem_head? htop)
        · exact ih hrest (fun h' => htip (mem_of_mem_tail h')) hmem
    exact hbelow (tip :: rest) h h.2.1 hmem

end

theorem SetTip_of_linked {n : ℕ} (h : Linked genesis look (hash :: chain))
    (hlen : chain.length < n) : SetTip look n hash = hash :: chain := by
  induction chain generalizing hash n with
  | nil =>
    obtain ⟨⟨entry, hlook, -, hprev⟩, -, -⟩ := h
    obtain ⟨m, rfl⟩ := Nat.exists_eq_succ_of_ne_zero (Nat.ne_of_gt hlen)
    have hnone : entry.hashPrev = none := hprev
    simp only [SetTip, hlook, hnone]
  | cons a rest ih =>
    obtain ⟨⟨entry, hlook, -, hprev⟩, -, hrest⟩ := h
    obtain ⟨m, rfl⟩ := Nat.exists_eq_succ_of_ne_zero (Nat.ne_of_gt (Nat.zero_lt_of_lt hlen))
    have hsome : entry.hashPrev = some a := hprev
    have hnext : SetTip look m a = a :: rest := ih hrest (Nat.lt_of_succ_lt_succ hlen)
    simp only [SetTip, hlook, hsome, hnext]

end

/-! ## The disk alone -/

namespace ChainDisk

variable (D : ChainDisk)

def has (f : ℕ) : Prop := (D.blockFileInfo.lookup f).isSome

theorem write_entry (hash : uint256) (e : CDiskBlockIndex) :
    (D.write (.WriteBlockIndex hash e)).entry = Function.update D.entry hash (some e) := by
  funext h
  show List.lookup h ((hash, e) :: D.blockIndex) = _
  rcases eq_or_ne h hash with rfl | hne
  · rw [update_self, lookup_cons_self]
  · rw [update_of_ne hne, lookup_cons, beq_false_of_ne hne]
    rfl

theorem write_lookup (f f' : ℕ) (i : CBlockFileInfo) :
    (D.write (.WriteBlockFileInfo f i)).blockFileInfo.lookup f' =
      if f' = f then some i else D.blockFileInfo.lookup f' := by
  show List.lookup f' ((f, i) :: D.blockFileInfo) = _
  rcases eq_or_ne f' f with rfl | hne
  · rw [if_pos rfl, lookup_cons_self]
  · rw [if_neg hne, lookup_cons, beq_false_of_ne hne]

theorem write_info (f : ℕ) (i : CBlockFileInfo) :
    (D.write (.WriteBlockFileInfo f i)).info = Function.update D.info f i := by
  funext f'
  show (List.lookup f' (D.write (.WriteBlockFileInfo f i)).blockFileInfo).getD {} = _
  rw [write_lookup]
  rcases eq_or_ne f' f with rfl | hne
  · rw [if_pos rfl, update_self]
    rfl
  · rw [if_neg hne, update_of_ne hne]
    rfl

theorem write_has (f f' : ℕ) (i : CBlockFileInfo) :
    (D.write (.WriteBlockFileInfo f i)).has f' ↔ f' = f ∨ D.has f' := by
  rw [has, write_lookup]
  rcases eq_or_ne f' f with rfl | hne
  · rw [if_pos rfl]
    exact iff_of_true rfl (.inl rfl)
  · rw [if_neg hne]
    exact (or_iff_right hne).symm

theorem info_of_not_has {f : ℕ} (h : ¬ D.has f) : D.info f = {} := by
  show (D.blockFileInfo.lookup f).getD {} = {}
  rw [Option.not_isSome_iff_eq_none.mp h]
  rfl

end ChainDisk

/-- What holds of the disk whenever the power fails. -/
structure DiskKept (u : Prop) (genesis : uint256) (D : ChainDisk) : Prop where
  entries : ∀ hash entry, D.entry hash = some entry → EntryKept u genesis D D.info hash entry
  /-- no gap in the sizes -/
  files : ∀ f f', D.has f → f' < f → f' ≤ D.last ∨ D.has f'
  chain : ∀ hash, D.hashBestChain = some hash → ∃ rest, Linked genesis D.entry (hash :: rest)

section
variable {u : Prop} {genesis hash : uint256} {D : ChainDisk} {entry : CDiskBlockIndex} {f : ℕ}

section
variable (h : DiskKept u genesis D)
include h

theorem DiskKept.file (hw : WritesAbove u D.info w) :
    DiskKept u genesis (D.write w) := by
  have hentry : ∀ a e, D.entry a = some e →
      EntryKept u genesis (D.write w) D.info a e := fun a e he => (h.entries a e he).write hw
  match w, hw with
  | .blk w, hw => exact ⟨hentry, h.files, h.chain⟩
  | .rev w, hw => exact ⟨hentry, h.files, h.chain⟩

theorem DiskKept.blockFileInfo {i : CBlockFileInfo}
    (hsize : (D.info f).nSize ≤ i.nSize) (hundo : u → (D.info f).nUndoSize ≤ i.nUndoSize)
    (hbelow : ∀ f' < f, f' ≤ D.last ∨ D.has f') :
    DiskKept u genesis (D.write (.WriteBlockFileInfo f i)) := by
  refine ⟨?_, ?_, h.chain⟩
  · intro a e he
    rw [ChainDisk.write_info]
    exact ((h.entries a e he).mono (Grown.update hsize hundo)).files rfl rfl
  · intro f₁ f₂ hf₁ hlt
    rw [ChainDisk.write_has] at hf₁ ⊢
    have hbefore : f₂ ≤ D.last ∨ D.has f₂ := by
      rcases hf₁ with rfl | hf₁
      · exact hbelow f₂ hlt
      · exact h.files f₁ f₂ hf₁ hlt
    exact hbefore.imp_right .inr

theorem DiskKept.lastBlockFile (hle : D.last ≤ f) :
    DiskKept u genesis (D.write (.WriteLastBlockFile f)) := by
  refine ⟨?_, ?_, h.chain⟩
  · intro a e he
    exact (h.entries a e he).files rfl rfl
  · intro f₁ f₂ hf₁ hlt
    exact (h.files f₁ f₂ hf₁ hlt).imp_left fun h' => h'.trans hle

theorem DiskKept.blockIndex (hentry : EntryKept u genesis D D.info hash entry)
    (hchain : ∀ a, D.hashBestChain = some a → ∃ rest,
      Linked genesis (Function.update D.entry hash (some entry)) (a :: rest)) :
    DiskKept u genesis (D.write (.WriteBlockIndex hash entry)) := by
  refine ⟨?_, h.files, ?_⟩
  · intro a e he
    rw [ChainDisk.write_entry] at he
    rcases eq_or_ne a hash with rfl | hne
    · rw [update_self] at he
      cases he
      exact hentry.files rfl rfl
    · rw [update_of_ne hne] at he
      exact (h.entries a e he).files rfl rfl
  · intro a ha
    rw [ChainDisk.write_entry]
    exact hchain a ha

theorem DiskKept.batchWrite {best : Option uint256}
    (hchain : ∀ a, best = some a → ∃ rest, Linked genesis D.entry (a :: rest)) :
    DiskKept u genesis (D.write (.BatchWrite best)) := by
  cases best with
  | none => exact h
  | some b =>
    refine ⟨fun a e he => (h.entries a e he).files rfl rfl, h.files, ?_⟩
    intro a ha
    exact hchain a ha

end

end

/-- What holds between operations, but for the block that the coins on disk belong to. -/
structure NodeKept (u : Prop) (genesis : uint256) (N : ChainNode) (D : ChainDisk) : Prop where
  disk : DiskKept u genesis D
  entries : ∀ hash entry, N.mapBlockIndex hash = some entry →
    EntryKept u genesis D N.info hash entry
  sizes : Grown u D.info N.info
  clean : ∀ f, f ∉ N.setDirtyFileInfo → D.info f = N.info f
  last : D.last ≤ N.nLastBlockFile
  lastIn : N.nLastBlockFile < N.vinfoBlockFile.length
  known : ∀ f, D.has f → f < N.vinfoBlockFile.length
  filled : ∀ f < N.vinfoBlockFile.length, f ∈ N.setDirtyFileInfo ∨ f ≤ D.last ∨ D.has f
  saved : ∀ hash entry, N.mapBlockIndex hash = some entry → entry.nStatus.haveData = true →
    entry.nStatus.failedChild = false →
    hash ∈ N.setDirtyBlockIndex ∨ D.entry hash = some entry
  active : Linked genesis N.mapBlockIndex N.chainActive
  best : N.bestBlock = N.chainActive.head?

/-- The coins on disk are those of a block of the active chain, and the index on disk has that
block and those before it. -/
def Behind (genesis : uint256) (N : ChainNode) (D : ChainDisk) : Prop :=
  ∀ hash, D.hashBestChain = some hash →
    ∃ rest, (hash :: rest) <:+ N.chainActive ∧ Linked genesis D.entry (hash :: rest)

structure Kept (u : Prop) (genesis : uint256) (N : ChainNode) (D : ChainDisk) : Prop
    extends NodeKept u genesis N D where
  behind : Behind genesis N D

section
variable {u : Prop} {genesis hash : uint256} {N : ChainNode} {D : ChainDisk}
  {entry : CDiskBlockIndex} {f : ℕ} {ws : List DiskWrite}

theorem write_rest {info : ℕ → CBlockFileInfo} (hw : WritesAbove u info w) :
    (D.write w).blockFileInfo = D.blockFileInfo ∧ (D.write w).lastBlockFile = D.lastBlockFile ∧
      (D.write w).blockIndex = D.blockIndex ∧ (D.write w).hashBestChain = D.hashBestChain := by
  match w, hw with
  | .blk w, hw => exact ⟨rfl, rfl, rfl, rfl⟩
  | .rev w, hw => exact ⟨rfl, rfl, rfl, rfl⟩

theorem Kept.write (h : Kept u genesis N D) (hw : WritesAbove u N.info w) :
    Kept u genesis N (D.write w) := by
  obtain ⟨hinfo, hlast, hindex, hbest⟩ := write_rest (D := D) hw
  have hinfo' : (D.write w).info = D.info := by
    funext f
    exact congrArg (fun l => (List.lookup f l).getD {}) hinfo
  have hhas : (D.write w).has = D.has := by
    funext f
    exact congrArg (fun l => (List.lookup f l).isSome = true) hinfo
  have hlast' : (D.write w).last = D.last := congrArg (fun l => Option.getD l 0) hlast
  have hentry : (D.write w).entry = D.entry := by
    funext a
    exact congrArg (List.lookup a) hindex
  exact
    { disk := h.disk.file (hw.mono h.sizes)
      entries := fun a e he => (h.entries a e he).write hw
      sizes := by rw [hinfo']; exact h.sizes
      clean := by rw [hinfo']; exact h.clean
      last := by rw [hlast']; exact h.last
      lastIn := h.lastIn
      known := by rw [hhas]; exact h.known
      filled := by rw [hlast', hhas]; exact h.filled
      saved := by rw [hentry]; exact h.saved
      active := h.active
      best := h.best
      behind := by
        rw [Behind, hbest, hentry]
        exact h.behind }

theorem Kept.writes (h : Kept u genesis N D) (hws : ∀ w ∈ ws, WritesAbove u N.info w) :
    Crash.Along ChainDisk.write (DiskKept u genesis) D ws ∧
      Kept u genesis N (ws.foldl ChainDisk.write D) := by
  have halong : Crash.Along ChainDisk.write (Kept u genesis N) D ws := by
    refine Crash.along_of_kept h ?_
    intro D' w hw hD'
    exact hD'.write (hws w hw)
  exact ⟨halong.mono fun _ h' => h'.disk, halong.last⟩

end

end Divitae.BlockStore
