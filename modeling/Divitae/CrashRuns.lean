/-
# `CrashRuns` — the coins on disk never run ahead of the files

Each operation of the node keeps `Kept`, and `DiskKept` at every one of its writes; switching
the node on over a disk that has `DiskKept` gives `Kept` again.  So whatever the node was doing
when the power failed, the coins on disk name a block whose chain is in the index, and whose
blocks and undo data were written, and starting up finds that chain.
-/
import Divitae.BlockFilesFlush

namespace Divitae.BlockStore

open List Option Bool Function

open FileLog (Intact Written readAt)
open Crash (Along)

section
variable {u : Prop} {genesis hash : uint256} {N : ChainNode} {D : ChainDisk}
  {entry : CDiskBlockIndex} {f : ℕ}

/-! ## Blocks that come in -/

theorem AddToBlockIndex_kept (h : Kept u genesis N D) (hash : uint256) (hashPrev : Option uint256) :
    Kept u genesis (AddToBlockIndex N hash hashPrev) D := by
  unfold AddToBlockIndex
  cases hlook : N.mapBlockIndex hash with
  | some e => exact h
  | none =>
    refine h.setDirty (entryKept_of_no_data (BlockStatus.RaiseValidity_haveData _)
      (BlockStatus.RaiseValidity_haveUndo _)) ?_
    intro hmem
    obtain ⟨e, he, -⟩ := h.active.mem hmem
    exact nomatch hlook.symm.trans he

theorem AcceptBlockHeader_kept {call : BlockCall} {N' : ChainNode} (h : Kept u genesis N D)
    (hN' : AcceptBlockHeader genesis N call = some N') : Kept u genesis N' D := by
  unfold AcceptBlockHeader at hN'
  cases hlook : N.mapBlockIndex call.hash with
  | some e =>
    rw [hlook, ite_none_left_eq_some] at hN'
    exact some.inj hN'.2 ▸ h
  | none =>
    simp only [hlook, ite_none_left_eq_some] at hN'
    obtain ⟨-, hN'⟩ := hN'
    split_ifs at hN' with hgenesis
    · exact some.inj hN' ▸ AddToBlockIndex_kept h _ _
    · cases hprev : N.mapBlockIndex call.hashPrev with
      | none => simp [hprev] at hN'
      | some prev =>
        simp only [hprev, ite_none_left_eq_some] at hN'
        exact some.inj hN'.2 ▸ AddToBlockIndex_kept h _ _

section
variable (h : Kept u genesis N D) (hlook : N.mapBlockIndex hash = some entry)
include h hlook

theorem Kept.off_of_no_data (hdata : entry.nStatus.haveData = false) : hash ∉ N.chainActive := by
  intro hmem
  obtain ⟨e, he, hc⟩ := h.active.mem hmem
  obtain rfl := some.inj (hlook.symm.trans he)
  exact nomatch hdata.symm.trans hc.data

theorem Kept.setFailed (hoff : hash ∉ N.chainActive) :
    Kept u genesis
      (N.setDirty hash { entry with nStatus := { entry.nStatus with failedValid := true } }) D := by
  refine h.setDirty ((h.entries hash entry hlook).status rfl rfl ?_) hoff
  intro hfailed
  exact nomatch (or_eq_false_iff.mp hfailed).1

end

theorem AcceptBlock_keeps (h : Kept u genesis N D) (call : BlockCall) :
    Keeps u genesis D (AcceptBlock genesis N call) := by
  unfold AcceptBlock
  cases hheader : (AcceptBlockHeader genesis N call).filter fun _ =>
    prevAccepted genesis N call with
  | none => exact h.keeps
  | some N' =>
    have hN' : Kept u genesis N' D := AcceptBlockHeader_kept h (filter_eq_some_iff.mp hheader).1
    cases hlook : N'.mapBlockIndex call.hash with
    | none => simpa only [hlook] using hN'.keeps
    | some e =>
      simp only [hlook]
      by_cases hdata : e.nStatus.haveData = true
      · rw [if_pos hdata]
        exact hN'.keeps
      · rw [if_neg hdata]
        have hoff : call.hash ∉ N'.chainActive := hN'.off_of_no_data hlook (eq_false_iff.mpr hdata)
        cases call.checked with
        | accept =>
          split_ifs
          · refine storeBlock_keeps hN' _ hoff (eq_false_iff.mpr ?_)
            exact fun hundo => hdata ((hN'.entries _ e hlook).undoData hundo)
          · exact hN'.keeps
        | invalid => exact (hN'.setFailed hlook hoff).keeps
        | corrupt => exact hN'.keeps
        | error => exact hN'.keeps

/-! ## The tip -/

/-- The undo data of the block fit in the undo file: its size stays an `unsigned int`. -/
def UndoFits (N : ChainNode) (hash : uint256) (nUndoSize : ℕ) : Prop :=
  ∀ entry, N.mapBlockIndex hash = some entry →
    (N.info entry.nFile).nUndoSize + (nUndoSize + 40) < 2 ^ 32

instance (N : ChainNode) (hash : uint256) (nUndoSize : ℕ) : Decidable (UndoFits N hash nUndoSize) :=
  decidable_of_iff ((N.mapBlockIndex hash).all fun entry =>
      decide ((N.info entry.nFile).nUndoSize + (nUndoSize + 40) < 2 ^ 32)) (by
    rw [Option.all_eq_true]
    exact forall₂_congr fun _ _ => decide_eq_true_iff)

/-- The entry of the block, ready for the block to become the tip. -/
def Ready (genesis : uint256) (N : ChainNode) (hash : uint256) (prev : Option uint256) : Prop :=
  ∃ entry, N.mapBlockIndex hash = some entry ∧ HasConnected genesis hash entry ∧
    entry.hashPrev = prev

theorem u32_of_lt {n : ℕ} (h : n < 2 ^ 32) : u32 n = n := Nat.mod_eq_of_lt h

theorem Kept.file_lt (h : Kept u genesis N D) (hlook : N.mapBlockIndex hash = some entry)
    (hdata : entry.nStatus.haveData = true) : entry.nFile < N.vinfoBlockFile.length := by
  have hentry : EntryKept u genesis D N.info hash entry := h.entries hash entry hlook
  obtain ⟨len, -, hend⟩ := hentry.data hdata
  by_contra hge
  have hnone : N.info entry.nFile = {} := getD_eq_default _ _ (Nat.not_lt.mp hge)
  have hpos : 0 < entry.nDataPos := hentry.placed hdata
  have hsize : entry.nDataPos + len ≤ (N.info entry.nFile).nSize := hend
  rw [hnone] at hsize
  exact absurd hsize (Nat.not_le.mpr (Nat.add_pos_left hpos len))

theorem IsValid_of_raised {s : BlockStatus} (hs : s.failed = false) :
    (s.RaiseValidity BLOCK_VALID_SCRIPTS).IsValid BLOCK_VALID_TRANSACTIONS = true := by
  refine BlockStatus.IsValid_iff.mpr ⟨(BlockStatus.RaiseValidity_failed _).trans hs, ?_⟩
  rw [BlockStatus.RaiseValidity_valid hs]
  exact le_max_of_le_right (by decide)

section
variable (h : Kept u genesis N D) (hlook : N.mapBlockIndex hash = some entry)
  (hoff : hash ∉ N.chainActive) (hdata : entry.nStatus.haveData = true)
  (hfailed : entry.nStatus.failed = false) (hne : hash ≠ genesis)
include h hlook hoff hdata hfailed hne

theorem newUndo_keeps (hundo : entry.nStatus.haveUndo = false) (nUndoSize : ℕ)
    (hfits : u → UndoFits N hash nUndoSize) :
    Keeps u genesis D (writeUndo N hash entry nUndoSize) := by
  set nPos := (N.info entry.nFile).nUndoSize with hnPos
  set w : FileWrite := .record entry.nFile nPos 8 (nUndoSize + 32) hash with hw
  have hbranch : (!entry.nStatus.haveUndo) = true := by rw [hundo]; rfl
  rw [writeUndo, if_pos hbranch]
  set ws : List DiskWrite := (FindUndoPos N entry.nFile (nUndoSize + 40)).2 ++ [.rev w] with hws
  have habove : ∀ w' ∈ ws, WritesAbove u N.info w' := by
    intro w' hw'
    rcases mem_append.mp hw' with hw' | hw'
    · obtain ⟨w'', hw'', rfl⟩ := mem_map.mp hw'
      exact fun _ => (allocated_above N.info _ _ _).2 hw''
    · obtain rfl := mem_singleton.mp hw'
      exact fun _ => ⟨le_rfl, Nat.succ_pos 7⟩
  obtain ⟨halong, hkept⟩ := h.writes habove
  have hsum : u → u32 (nPos + (nUndoSize + 40)) = nPos + (nUndoSize + 40) :=
    fun hu => u32_of_lt (hfits hu entry hlook)
  have hin : entry.nFile < N.vinfoBlockFile.length := h.file_lt hlook hdata
  have hsized : Kept u genesis (FindUndoPos N entry.nFile (nUndoSize + 40)).1
      (ws.foldl ChainDisk.write D) := by
    refine hkept.setInfo hin le_rfl ?_
    intro hu
    exact (Nat.le_add_right _ _).trans_eq (hsum hu).symm
  have hend : ((FindUndoPos N entry.nFile (nUndoSize + 40)).1.info entry.nFile).nUndoSize =
      u32 (nPos + (nUndoSize + 40)) := by
    show ((N.setInfo entry.nFile _).info entry.nFile).nUndoSize = _
    rw [setInfo_info hin, update_self]
  have hread : readAt (ws.foldl ChainDisk.write D).rev entry.nFile (nPos + 8) =
      some (hash, nUndoSize + 32) := by
    rw [hws, foldl_rev]
    exact FileLog.readAt_record _ _ _ _ _ _
  have hold : EntryKept u genesis (ws.foldl ChainDisk.write D)
      (FindUndoPos N entry.nFile (nUndoSize + 40)).1.info hash entry :=
        hsized.entries hash entry hlook
  have hdata' := BlockStatus.RaiseValidity_haveData (s := { entry.nStatus with haveUndo := true })
    BLOCK_VALID_SCRIPTS
  refine ⟨halong, hsized.setDirty ?_ hoff⟩
  exact
    { data := fun _ => hold.data hdata
      placed := fun _ => hold.placed hdata
      level := fun _ hf => (BlockStatus.IsValid_iff.mp (IsValid_of_raised
        (s := { entry.nStatus with haveUndo := true }) hfailed)).2
      first := fun heq => absurd heq hne
      undoData := fun _ => hdata'.trans hdata
      undo := fun _ => ⟨nPos + 8, FileLog.written_of_readAt hread, rfl⟩
      undoIntact := by
        intro hu _
        have hsum' := hsum hu
        have hpos : u32 (nPos + 8) = nPos + 8 := u32_of_lt (by have := hfits hu entry hlook; omega)
        rw [hpos]
        refine ⟨nUndoSize + 32, hread, ?_⟩
        show nPos + 8 + (nUndoSize + 32) ≤
          ((FindUndoPos N entry.nFile (nUndoSize + 40)).1.info entry.nFile).nUndoSize
        omega }

theorem writeUndo_keeps (hprev : entry.hashPrev ≠ none)
    (nUndoSize : ℕ) (hfits : u → UndoFits N hash nUndoSize) :
    Keeps u genesis D (writeUndo N hash entry nUndoSize) ∧
      (writeUndo N hash entry nUndoSize).1.chainActive = N.chainActive ∧
      Ready genesis (writeUndo N hash entry nUndoSize).1 hash entry.hashPrev := by
  have hentry : EntryKept u genesis D N.info hash entry := h.entries hash entry hlook
  have hfirst : hash = genesis ↔ entry.hashPrev = none := iff_of_false hne hprev
  cases hundo : entry.nStatus.haveUndo with
  | false =>
    refine ⟨newUndo_keeps h hlook hoff hdata hfailed hne hundo nUndoSize hfits, ?_⟩
    rw [writeUndo, if_pos (by rw [hundo]; rfl)]
    refine ⟨rfl, _, update_self .., ?_, rfl⟩
    exact
      { data := (BlockStatus.RaiseValidity_haveData _).trans hdata
        valid := IsValid_of_raised (s := { entry.nStatus with haveUndo := true }) hfailed
        undo := fun _ => BlockStatus.RaiseValidity_haveUndo _
        first := hfirst }
  | true =>
    have hskip : ¬ (!entry.nStatus.haveUndo) = true := by rw [hundo]; decide
    rw [writeUndo, if_neg hskip]
    by_cases hscripts : entry.nStatus.IsValid BLOCK_VALID_SCRIPTS = true
    · rw [if_neg (by rw [hscripts]; decide)]
      refine ⟨h.keeps, rfl, entry, hlook, ⟨hdata, ?_, fun _ => hundo, hfirst⟩, rfl⟩
      have hlevel : BLOCK_VALID_SCRIPTS ≤ entry.nStatus.valid :=
        (BlockStatus.IsValid_iff.mp hscripts).2
      exact BlockStatus.IsValid_iff.mpr ⟨hfailed, (by decide : (3 : ℕ) ≤ 5).trans hlevel⟩
    · rw [if_pos (by simpa using hscripts)]
      refine ⟨Kept.keeps (h.setDirty (hentry.status ?_ ?_ ?_) hoff), rfl, _,
        update_self .., ?_, rfl⟩
      · exact BlockStatus.RaiseValidity_haveData _
      · exact BlockStatus.RaiseValidity_haveUndo _
      · exact fun _ => ⟨hfailed, BlockStatus.le_RaiseValidity _⟩
      · exact
          { data := (BlockStatus.RaiseValidity_haveData _).trans hdata
            valid := IsValid_of_raised hfailed
            undo := fun _ => (BlockStatus.RaiseValidity_haveUndo _).trans hundo
            first := hfirst }

end

theorem Kept.advance (h : Kept u genesis N D) (hoff : hash ∉ N.chainActive)
    (hready : Ready genesis N hash N.chainActive.head?) (mode : FlushStateMode) (call : FlushCall) :
    Keeps u genesis D
      ((FlushStateToDisk { N with bestBlock := some hash } mode call).andThen fun N' =>
        ({ N' with chainActive := hash :: N'.chainActive }, [])) := by
  obtain ⟨e, he, hc, hprev⟩ := hready
  have hnext : Kept u genesis
    { N with bestBlock := some hash, chainActive := hash :: N.chainActive } D :=
    { h with
      active := ⟨⟨e, he, hc, hprev⟩, hoff, h.active⟩
      best := rfl
      behind := by
        intro a ha
        obtain ⟨rest, hsuffix, hlinked⟩ := h.behind a ha
        exact ⟨rest, hsuffix.trans (suffix_cons hash N.chainActive), hlinked⟩ }
  have hsame : (FlushStateToDisk { N with bestBlock := some hash } mode call).andThen (fun N' =>
      ({ N' with chainActive := hash :: N'.chainActive }, [])) =
        FlushStateToDisk { N with bestBlock := some hash, chainActive := hash :: N.chainActive }
          mode call := by
    rw [Wrote.andThen, append_nil]
    unfold FlushStateToDisk
    split_ifs <;> rfl
  rw [hsame]
  exact hnext.flush mode call

theorem Keeps.andThen_assoc (r : Wrote) (f g : ChainNode → Wrote) :
    (r.andThen f).andThen g = r.andThen fun N' => (f N').andThen g := by
  simp [Wrote.andThen]

section
variable (h : Kept u genesis N D)
include h

theorem ConnectTip_keeps (D' : ChainDisk) (call : ConnectCall)
    (flush : FlushCall) (hempty : N.chainActive = [] → call.hash = genesis)
    (hfits : u → call.hash ≠ genesis → UndoFits N call.hash call.nUndoSize) :
    Keeps u genesis D (ConnectTip genesis N D' call flush) := by
  unfold ConnectTip
  cases hlook : N.mapBlockIndex call.hash with
  | none => exact h.keeps
  | some e =>
    simp only
    by_cases hguard : (e.nStatus.haveData && !e.nStatus.failed &&
        decide (e.hashPrev = N.chainActive.head?)) = true
    case neg =>
      rw [if_pos (by rw [eq_false_iff.mpr hguard]; rfl)]
      exact h.keeps
    rw [if_neg (by rw [hguard]; decide)]
    obtain ⟨⟨hdata, hfailed⟩, hprev⟩ :
        (e.nStatus.haveData = true ∧ e.nStatus.failed = false) ∧
          e.hashPrev = N.chainActive.head? := by
      simpa using hguard
    have hoff : call.hash ∉ N.chainActive := by
      intro hmem
      exact h.active.off_of_next (ne_nil_of_mem hmem) hlook hprev hmem
    by_cases hread : (call.given || ReadBlockFromDisk D' call.hash e) = true
    case neg =>
      rw [if_pos (by rw [eq_false_iff.mpr hread]; rfl)]
      exact h.keeps
    rw [if_neg (by rw [hread]; decide)]
    cases call.checked with
    | invalid => exact (h.setFailed hlook hoff).keeps
    | corrupt => exact h.keeps
    | error => exact h.keeps
    | accept =>
      rw [connected, Keeps.andThen_assoc]
      by_cases hgenesis : call.hash = genesis
      · have hnil : N.chainActive = [] := by
          by_contra hne
          exact hoff (hgenesis ▸ h.active.genesis_mem hne)
        have hnone : e.hashPrev = none := by rw [hprev, hnil]; rfl
        have hentry : EntryKept u genesis D N.info call.hash e := h.entries _ e hlook
        rw [if_pos hgenesis]
        refine Keeps.andThen h.keeps ?_
        intro D'' hD''
        refine hD''.advance hoff ⟨e, hlook, ?_, hprev⟩ _ _
        exact ⟨hdata, BlockStatus.IsValid_iff.mpr ⟨hfailed, hentry.level hdata hfailed⟩,
          fun hne => absurd hgenesis hne, iff_of_true hgenesis hnone⟩
      · have hne : N.chainActive ≠ [] := fun hnil => hgenesis (hempty hnil)
        have hsome : e.hashPrev ≠ none := by
          rw [hprev]
          exact fun hnone => hne (List.head?_eq_none_iff.mp hnone)
        rw [if_neg hgenesis]
        obtain ⟨hkeeps, hchain, hready⟩ := writeUndo_keeps h hlook hoff hdata hfailed hgenesis
          hsome call.nUndoSize fun hu => hfits hu hgenesis
        refine hkeeps.andThen ?_
        intro D'' hD''
        exact hD''.advance (hchain ▸ hoff) (hchain ▸ hprev ▸ hready) _ _

theorem DisconnectTip_keeps (flush : FlushCall) :
    Keeps u genesis D (DisconnectTip N D flush) := by
  unfold DisconnectTip
  cases hactive : N.chainActive with
  | nil => exact h.keeps
  | cons tip chain =>
    have hlinked : Linked genesis N.mapBlockIndex (tip :: chain) := hactive ▸ h.active
    obtain ⟨⟨e, hlook, -, hprev⟩, -, hrest⟩ := hlinked
    simp only [hlook]
    by_cases hread : (ReadBlockFromDisk D tip e && ReadUndoFromDisk D tip e) = true
    case neg =>
      rw [if_pos (by rw [eq_false_iff.mpr hread]; rfl)]
      exact h.keeps
    rw [if_neg (by rw [hread]; decide)]
    cases hbefore : e.hashPrev with
    | none => exact h.keeps
    | some hashPrev =>
      have hhead : chain.head? = some hashPrev := hprev.symm.trans hbefore
      have hback : NodeKept u genesis
          { N with bestBlock := some hashPrev, chainActive := chain } D :=
        { h.toNodeKept with
          active := hrest
          best := hhead.symm }
      have hsame : (FlushStateToDisk { N with bestBlock := some hashPrev } .FLUSH_STATE_ALWAYS
          flush).andThen (fun N' => ({ N' with chainActive := chain }, [])) =
            FlushStateToDisk { N with bestBlock := some hashPrev, chainActive := chain }
              .FLUSH_STATE_ALWAYS flush := by
        rw [Wrote.andThen, append_nil]
        rfl
      show Keeps u genesis D ((FlushStateToDisk { N with bestBlock := some hashPrev }
        .FLUSH_STATE_ALWAYS flush).andThen fun N' => ({ N' with chainActive := chain }, []))
      rw [hsame]
      refine hback.flush rfl ?_ ?_
      · -- the coins on disk may still be those of the old tip
        intro a ha
        obtain ⟨rest, hsuffix, hdisk⟩ := h.behind a ha
        exact ⟨rest, h.active.suffix hsuffix, hdisk⟩
      · intro hnil
        have hnil' : chain = [] := hnil
        rw [hnil'] at hhead
        cases hhead

theorem markFailedChild_kept (hash : uint256) :
    Kept u genesis (markFailedChild N hash) D := by
  unfold markFailedChild
  cases hlook : N.mapBlockIndex hash with
  | none => exact h
  | some e =>
    simp only
    split_ifs with hmem
    · exact h
    · refine { h with entries := ?_, saved := ?_, active := h.active.update_off hmem _ }
      · intro a e' he'
        change Function.update N.mapBlockIndex hash _ a = some e' at he'
        rcases eq_or_ne a hash with rfl | hne
        · rw [update_self] at he'
          cases he'
          refine (h.entries a e hlook).status rfl rfl ?_
          intro hfailed
          exact nomatch (or_eq_false_iff.mp hfailed).2
        · rw [update_of_ne hne] at he'
          exact h.entries a e' he'
      · intro a e' he' hdata hchild
        change Function.update N.mapBlockIndex hash _ a = some e' at he'
        rcases eq_or_ne a hash with rfl | hne
        · rw [update_self] at he'
          cases he'
          exact nomatch hchild
        · rw [update_of_ne hne] at he'
          exact h.saved a e' he' hdata hchild

theorem InitBlockIndex_keeps (hnil : N.chainActive = []) (nBlockSize : ℕ)
    (flush : FlushCall) : Keeps u genesis D (InitBlockIndex genesis N D nBlockSize flush) := by
  have hadded : Kept u genesis (AddToBlockIndex N genesis none) D := AddToBlockIndex_kept h _ _
  have hchain : (AddToBlockIndex N genesis none).chainActive = [] := by
    rw [← hnil]
    unfold AddToBlockIndex
    split <;> rfl
  unfold InitBlockIndex
  cases hlook : (AddToBlockIndex N genesis none).mapBlockIndex genesis with
  | none =>
    simp only [hlook]
    exact hadded.keeps
  | some e =>
    simp only [hlook]
    have hundo : e.nStatus.haveUndo = false := (hadded.entries genesis e hlook).first rfl
    have hoff : genesis ∉ (AddToBlockIndex N genesis none).chainActive := by
      rw [hchain]
      exact not_mem_nil
    have hstored := storeBlock_keeps hadded nBlockSize hoff hundo
    refine (hstored.andThen ?_).andThen ?_
    · intro D' hD'
      exact ConnectTip_keeps hD' D _ flush (fun _ => rfl) fun _ hne => absurd rfl hne
    · intro D' hD'
      exact hD'.flush _ _

end

/-! ## Starting up -/

/-- What the operation needs of the undo file, for the undo data to stay. -/
def opFits (genesis : uint256) (N : ChainNode) (_ : ChainDisk) : ChainOp → Prop
  | .ConnectTip call _ => call.hash ≠ genesis → UndoFits N call.hash call.nUndoSize
  | _ => True

theorem chainAct_keeps (h : Kept u genesis N D) (op : ChainOp) (hfits : u → opFits genesis N D op) :
    Keeps u genesis D (chainAct genesis N D op) := by
  cases hactive : N.chainActive with
  | nil =>
    cases op with
    | InitBlockIndex nBlockSize flush =>
      simp only [chainAct, hactive]
      exact InitBlockIndex_keeps h hactive _ _
    | _ =>
      simp only [chainAct, hactive]
      exact h.keeps
  | cons tip chain =>
    cases op with
    | InitBlockIndex nBlockSize flush =>
      simp only [chainAct, hactive]
      exact h.keeps
    | AcceptBlockHeader call =>
      simp only [chainAct, hactive]
      cases hheader : AcceptBlockHeader genesis N call with
      | none => exact h.keeps
      | some N' => exact (AcceptBlockHeader_kept h hheader).keeps
    | AcceptBlock call =>
      simp only [chainAct, hactive]
      exact AcceptBlock_keeps h call
    | ConnectTip call flush =>
      simp only [chainAct, hactive]
      exact ConnectTip_keeps h D call flush (fun hnil => nomatch hactive.symm.trans hnil) hfits
    | DisconnectTip flush =>
      simp only [chainAct, hactive]
      exact DisconnectTip_keeps h flush
    | FindMostWorkChain failedChild =>
      simp only [chainAct, hactive]
      refine Kept.keeps ?_
      refine List.foldlRecOn (motive := fun N' => Kept u genesis N' D) failedChild _ h ?_
      intro N' hN' a _
      exact markFailedChild_kept hN' a
    | FlushStateToDisk mode flush =>
      simp only [chainAct, hactive]
      exact h.flush mode flush

theorem moreFiles_getD {infos : List (ℕ × CBlockFileInfo)} {n nFile : ℕ} (k : ℕ) :
    (k < (moreFiles infos n nFile).length →
      ∃ i, infos.lookup (nFile + k) = some i ∧ (moreFiles infos n nFile).getD k {} = i) ∧
    (k < n → (∀ j ≤ k, (infos.lookup (nFile + j)).isSome) →
      k < (moreFiles infos n nFile).length) := by
  induction n generalizing nFile k with
  | zero => exact ⟨fun h => absurd h (Nat.not_lt_zero k), fun h => absurd h (Nat.not_lt_zero k)⟩
  | succ n ih =>
    cases hlook : infos.lookup nFile with
    | none =>
      have hnil : moreFiles infos (n + 1) nFile = [] := by simp only [moreFiles, hlook]
      rw [hnil]
      refine ⟨fun h => absurd h (Nat.not_lt_zero k), ?_⟩
      intro _ hall
      have hfirst := hall 0 (Nat.zero_le k)
      rw [Nat.add_zero, hlook] at hfirst
      exact nomatch hfirst
    | some i =>
      have hcons : moreFiles infos (n + 1) nFile = i :: moreFiles infos n (nFile + 1) := by
        simp only [moreFiles, hlook]
      rw [hcons]
      cases k with
      | zero => exact ⟨fun _ => ⟨i, hlook, rfl⟩, fun _ _ => Nat.succ_pos _⟩
      | succ k =>
        obtain ⟨hread, hlong⟩ := @ih (nFile + 1) k
        have hshift : ∀ j, nFile + 1 + j = nFile + (j + 1) := fun j => by omega
        rw [hshift] at hread
        refine ⟨fun hk => hread (Nat.lt_of_succ_lt_succ hk), ?_⟩
        intro hk hall
        refine Nat.succ_lt_succ (hlong (Nat.lt_of_succ_lt_succ hk) ?_)
        intro j hj
        rw [hshift]
        exact hall (j + 1) (Nat.succ_le_succ hj)

theorem length_le_of_lookup {α β : Type*} [BEq α] [LawfulBEq α] {l : List (α × β)} {ks : List α}
    (hks : ks.Nodup) (hall : ∀ k ∈ ks, (l.lookup k).isSome) : ks.length ≤ l.length := by
  have hsub : ks ⊆ l.map Prod.fst := by
    intro k hk
    obtain ⟨p, hp, heq⟩ := lookup_isSome_iff.mp (hall k hk)
    exact mem_map.mpr ⟨p, hp, (eq_of_beq heq).symm⟩
  have hle : ks.length ≤ (l.map Prod.fst).length := (subperm_of_subset hks hsub).length_le
  rwa [length_map] at hle

theorem LoadBlockIndexDB_info (h : DiskKept u genesis D) :
    (LoadBlockIndexDB D).info = D.info ∧
      (∀ f, D.has f → f < (LoadBlockIndexDB D).vinfoBlockFile.length) ∧
      ∀ f < (LoadBlockIndexDB D).vinfoBlockFile.length, f ≤ D.last ∨ D.has f := by
  set first := (List.range (D.last + 1)).map D.info with hfirst
  set more := moreFiles D.blockFileInfo D.blockFileInfo.length (D.last + 1) with hmore
  have hlenFirst : first.length = D.last + 1 := by
    rw [hfirst, length_map, length_range]
  have hlen : (LoadBlockIndexDB D).vinfoBlockFile.length = D.last + 1 + more.length := by
    show (first ++ more).length = _
    rw [length_append, hlenFirst]
  -- beyond the last file, those there are
  have hthere : ∀ k, D.has (D.last + 1 + k) → k < more.length := by
    intro k hk
    have hbelow : ∀ j ≤ k, D.has (D.last + 1 + j) := by
      intro j hj
      rcases Nat.lt_or_eq_of_le hj with hlt | rfl
      · refine (h.files _ (D.last + 1 + j) hk (by omega)).resolve_left ?_
        omega
      · exact hk
    have hfuel : k < D.blockFileInfo.length := by
      have hnodup : ((List.range (k + 1)).map fun j => D.last + 1 + j).Nodup :=
        nodup_range.map fun i j hij => by simpa using hij
      have hle := length_le_of_lookup (l := D.blockFileInfo) hnodup (by
        intro f hf
        obtain ⟨j, hj, rfl⟩ := mem_map.mp hf
        exact hbelow j (Nat.lt_succ_iff.mp (mem_range.mp hj)))
      rw [length_map, length_range] at hle
      exact hle
    exact (moreFiles_getD k).2 hfuel hbelow
  refine ⟨?_, ?_, ?_⟩
  · funext f
    show (first ++ more).getD f {} = D.info f
    rcases Nat.lt_or_ge f (D.last + 1) with hlt | hge
    · rw [getD_append _ _ _ _ (hlenFirst ▸ hlt), hfirst, getD_eq_getElem?_getD,
        List.getElem?_map, List.getElem?_range hlt]
      rfl
    · rw [getD_append_right _ _ _ _ (hlenFirst ▸ hge), hlenFirst]
      obtain ⟨k, rfl⟩ := Nat.exists_eq_add_of_le hge
      rw [Nat.add_sub_cancel_left]
      by_cases hk : k < more.length
      · obtain ⟨i, hlook, hread⟩ := (moreFiles_getD k).1 hk
        rw [hread]
        show i = (D.blockFileInfo.lookup (D.last + 1 + k)).getD {}
        rw [hlook]
        rfl
      · rw [getD_eq_default _ _ (Nat.not_lt.mp hk)]
        exact (D.info_of_not_has fun hhas => hk (hthere k hhas)).symm
  · intro f hf
    by_contra hge
    obtain ⟨k, rfl⟩ := Nat.exists_eq_add_of_le (show D.last + 1 ≤ f by omega)
    have := hthere k hf
    omega
  · intro f hf
    rcases Nat.lt_or_ge f (D.last + 1) with hlt | hge
    · exact .inl (Nat.lt_succ_iff.mp hlt)
    · obtain ⟨k, rfl⟩ := Nat.exists_eq_add_of_le hge
      obtain ⟨i, hlook, -⟩ := (moreFiles_getD k).1 (show k < more.length by omega)
      refine .inr ?_
      rw [ChainDisk.has, hlook]
      rfl

theorem loadedIndex_of_entry (hentry : D.entry hash = some entry) :
    loadedIndex D hash = some entry := by
  rw [loadedIndex, hentry]

theorem LoadBlockIndexDB_chain (h : DiskKept u genesis D) (hbest : D.hashBestChain = some hash) :
    ∃ rest, (LoadBlockIndexDB D).chainActive = hash :: rest ∧
      Linked genesis D.entry (hash :: rest) ∧
      Linked genesis (loadedIndex D) (hash :: rest) := by
  obtain ⟨rest, hlinked⟩ := h.chain hash hbest
  have hloaded : Linked genesis (loadedIndex D) (hash :: rest) := by
    refine hlinked.congr ?_
    intro a ha
    obtain ⟨e, he, -⟩ := hlinked.mem ha
    rw [loadedIndex_of_entry he, he]
  refine ⟨rest, ?_, hlinked, hloaded⟩
  have hlen : (hash :: rest).length ≤ D.blockIndex.length := by
    refine length_le_of_lookup hlinked.nodup ?_
    intro a ha
    obtain ⟨e, he, -⟩ := hlinked.mem ha
    exact isSome_iff_exists.mpr ⟨e, he⟩
  have hactive : (LoadBlockIndexDB D).chainActive =
      SetTip (loadedIndex D) D.blockIndex.length hash := by
    rw [LoadBlockIndexDB, hbest]
  rw [hactive]
  exact SetTip_of_linked hloaded hlen

variable {info : ℕ → CBlockFileInfo}

theorem ReadBlockFromDisk_of_kept
    (h : EntryKept u genesis D info hash entry) (hdata : entry.nStatus.haveData = true) :
    ReadBlockFromDisk D hash entry = true := by
  obtain ⟨len, hread, -⟩ := h.data hdata
  rw [ReadBlockFromDisk, hdata, hread]
  exact decide_eq_true rfl

theorem ReadUndoFromDisk_of_kept (hu : u)
    (h : EntryKept u genesis D info hash entry) (hundo : entry.nStatus.haveUndo = true) :
    ReadUndoFromDisk D hash entry = true := by
  obtain ⟨len, hread, -⟩ := h.undoIntact hu hundo
  rw [ReadUndoFromDisk, hundo, hread]
  exact decide_eq_true rfl

theorem LoadBlockIndexDB_kept (h : DiskKept u genesis D) :
    Kept u genesis (LoadBlockIndexDB D) D := by
  obtain ⟨hinfo, hknown, hfilled⟩ := LoadBlockIndexDB_info h
  have hsome : ∀ a e, loadedIndex D a = some e → D.entry a = some e ∨ e = .null := by
    intro a e he
    cases hentry : D.entry a with
    | some e' =>
      rw [loadedIndex_of_entry hentry] at he
      exact .inl he
    | none =>
      rw [loadedIndex, hentry, ite_none_right_eq_some] at he
      exact .inr (some.inj he.2).symm
  exact
    { disk := h
      entries := by
        intro a e he
        rw [hinfo]
        rcases hsome a e he with hentry | rfl
        · exact h.entries a e hentry
        · exact entryKept_of_no_data rfl rfl
      sizes := by
        rw [hinfo]
        exact Grown.refl D.info
      clean := fun f _ => (congrFun hinfo f).symm
      last := le_rfl
      lastIn := by
        show D.last < (_ ++ _ : List CBlockFileInfo).length
        rw [length_append, length_map, length_range]
        omega
      known := hknown
      filled := fun f hf => .inr (hfilled f hf)
      saved := by
        intro a e he hdata _
        rcases hsome a e he with hentry | rfl
        · exact .inr hentry
        · exact nomatch hdata
      active := by
        cases hbest : D.hashBestChain with
        | none =>
          rw [LoadBlockIndexDB, hbest]
          trivial
        | some hash =>
          obtain ⟨rest, hactive, -, hloaded⟩ := LoadBlockIndexDB_chain h hbest
          rw [hactive]
          exact hloaded
      best := by
        cases hbest : D.hashBestChain with
        | none => rw [LoadBlockIndexDB, hbest]; rfl
        | some hash =>
          obtain ⟨rest, hactive, -, -⟩ := LoadBlockIndexDB_chain h hbest
          rw [hactive]
          exact hbest
      behind := by
        intro hash hbest
        obtain ⟨rest, hactive, hlinked, -⟩ := LoadBlockIndexDB_chain h hbest
        exact ⟨rest, hactive ▸ suffix_refl _, hlinked⟩ }

/-! ## Every run -/

theorem diskKept_empty (u : Prop) (genesis : uint256) : DiskKept u genesis {} where
  entries _ _ h := nomatch h
  files _ _ h := nomatch h
  chain _ h := nomatch h

/-- **What every run keeps**, with the undo data in place where they have always fitted. -/
theorem run_kept (u : Prop) (genesis : uint256) (es : List (Crash.Event ChainOp))
    (hfits : u → Crash.Meets (chainMachine genesis) (opFits genesis) {} es) :
    DiskKept u genesis (Crash.run (chainMachine genesis) {} es).2 := by
  have hok : Crash.Meets (chainMachine genesis) (fun N D op =>
    u → opFits genesis N D op) {} es := by
    by_cases hu : u
    · exact (hfits hu).mono fun _ _ hfit _ => hfit
    · refine Run.Guarded.mono ?_ (Crash.meets_true (K := chainMachine genesis) {} es)
      exact fun _ _ _ hu' => absurd hu' hu
  have hrun := Crash.run_inv (K := chainMachine genesis) (I := Kept u genesis)
    (J := DiskKept u genesis) (fun N D op hN hfit => chainAct_keeps hN op hfit)
    (fun D hD => LoadBlockIndexDB_kept hD) (diskKept_empty u genesis) hok
  exact hrun.disk

/-- What the coins on disk need of the files and of the index: starting up finds the chain of
their block, all of it is in the index, each of its blocks has been connected and can be read,
and for each but the genesis block undo data were written. -/
def WrittenBefore (genesis : uint256) (D : ChainDisk) : Prop :=
  ∀ hashBlock, D.hashBestChain = some hashBlock →
    ∃ rest, (LoadBlockIndexDB D).chainActive = hashBlock :: rest ∧
      Linked genesis D.entry (hashBlock :: rest) ∧
      ∀ hash ∈ hashBlock :: rest, ∃ entry, D.entry hash = some entry ∧
        ReadBlockFromDisk D hash entry = true ∧
        (hash ≠ genesis → ∃ p, Written D.rev entry.nFile p hash ∧ entry.nUndoPos = u32 p)

end

/-- **The coins on disk never run ahead.**  Whatever the node has done, and wherever the power
has failed, what the coins on disk need was written; and where the undo files have never grown
past what an `unsigned int` counts, all of it can be read back. -/
theorem coins_behind_files (genesis : uint256) (es : List (Crash.Event ChainOp)) :
    WrittenBefore genesis (Crash.run (chainMachine genesis) {} es).2 ∧
      (Crash.Meets (chainMachine genesis) (opFits genesis) {} es →
        VerifyFiles (Crash.run (chainMachine genesis) {} es).2
          (LoadBlockIndexDB (Crash.run (chainMachine genesis) {} es).2) = true) := by
  set D := (Crash.run (chainMachine genesis) {} es).2 with hD
  constructor
  · intro hashBlock hbest
    have hkept : DiskKept False genesis D := run_kept False genesis es False.elim
    obtain ⟨rest, hactive, hlinked, -⟩ := LoadBlockIndexDB_chain hkept hbest
    refine ⟨rest, hactive, hlinked, ?_⟩
    intro hash hmem
    obtain ⟨e, he, hc⟩ := hlinked.mem hmem
    have hentry : EntryKept False genesis D D.info hash e := hkept.entries hash e he
    exact ⟨e, he, ReadBlockFromDisk_of_kept hentry hc.data, fun hne => hentry.undo (hc.undo hne)⟩
  · intro hmeets
    have hkept : DiskKept True genesis D := run_kept True genesis es fun _ => hmeets
    cases hbest : D.hashBestChain with
    | none =>
      have hnil : (LoadBlockIndexDB D).chainActive = [] := by rw [LoadBlockIndexDB, hbest]
      rw [VerifyFiles, hnil]
      rfl
    | some hashBlock =>
      obtain ⟨rest, hactive, hlinked, -⟩ := LoadBlockIndexDB_chain hkept hbest
      rw [VerifyFiles, hactive]
      refine all_eq_true.mpr ?_
      intro hash hmem
      obtain ⟨e, he, hc⟩ := hlinked.mem hmem
      have hentry : EntryKept True genesis D D.info hash e := hkept.entries hash e he
      have hloaded : (LoadBlockIndexDB D).mapBlockIndex hash = some e := loadedIndex_of_entry he
      simp only [hloaded]
      by_cases hgenesis : hash = genesis
      · rw [hc.first.mp hgenesis]
        rfl
      · rw [ReadBlockFromDisk_of_kept hentry hc.data,
          ReadUndoFromDisk_of_kept trivial hentry (hc.undo hgenesis)]
        exact or_true _

/-- No cache is too large, and no write is due. -/
def noFlush : FlushCall := ⟨false, false, fun _ => 0⟩

/-- A node that starts, connects a block, and loses power in the first flush after. -/
def firstBlocks : List (Crash.Event ChainOp) :=
  [.act (.InitBlockIndex 200 noFlush), .act (.AcceptBlock ⟨2, 1, 300, true, .accept⟩),
    .act (.ConnectTip ⟨2, .accept, 50, true⟩ noFlush),
    .crash (.FlushStateToDisk .FLUSH_STATE_ALWAYS noFlush) 3]

theorem coins_behind_files_first :
    WrittenBefore 1 (Crash.run (chainMachine 1) {} firstBlocks).2 ∧
      VerifyFiles (Crash.run (chainMachine 1) {} firstBlocks).2
        (LoadBlockIndexDB (Crash.run (chainMachine 1) {} firstBlocks).2) = true := by
  have hfits : Crash.Meets (chainMachine 1) (opFits 1) {} firstBlocks := by
    refine ⟨trivial, trivial, ?_, trivial, trivial⟩
    exact fun _ => (by decide +kernel : UndoFits _ _ _)
  exact ⟨(coins_behind_files 1 firstBlocks).1, (coins_behind_files 1 firstBlocks).2 hfits⟩

/-- The genesis block is connected without undo data. -/
theorem genesis_without_undo :
    ¬ ∀ (genesis : uint256) (es : List (Crash.Event ChainOp)) (hash : uint256),
      hash ∈ (LoadBlockIndexDB (Crash.run (chainMachine genesis) {} es).2).chainActive →
        ∃ nFile p, Written (Crash.run (chainMachine genesis) {} es).2.rev nFile p hash := by
  intro h
  obtain ⟨nFile, p, start, lead, len, hmem, -⟩ :=
    h 1 [.act (.InitBlockIndex 200 noFlush)] 1 (by decide +kernel)
  exact nomatch hmem

/-- Eleven large blocks whose undo data come to more than four gigabytes. -/
def largeUndo : List (Crash.Event ChainOp) :=
  .act (.InitBlockIndex 200 noFlush) :: (List.range 11).flatMap fun k =>
    [.act (.AcceptBlock ⟨BitVec.ofNat 256 (k + 2), BitVec.ofNat 256 (k + 1), 2000000,
      true, .accept⟩),
      .act (.ConnectTip ⟨BitVec.ofNat 256 (k + 2), .accept, 450000000, true⟩ noFlush)]

/-- The size of the undo file has wrapped, and undo data are gone. -/
theorem undo_overwritten :
    VerifyFiles (Crash.run (chainMachine 1) {} largeUndo).2
      (Crash.run (chainMachine 1) {} largeUndo).1 = false := by
  decide +kernel

end Divitae.BlockStore
