/-
# `LoadBlockIndex` — the block index after a restart

`CBlockTreeDB::LoadBlockIndexGuts` reads the entries in the order of the database's keys and
copies their fields; `LoadBlockIndexDB` goes over them by height and computes the work and
the count of transactions again.

    restored, relinked   what becomes of an entry in the one and in the other
    loadBlockIndex_eq    the index after both, entry by entry
    block_index_restored_iff
                         which entries come back

The hash of a stake is copied but never was written, and the zerocoin figures are written
from header version 4 on: those two are lost.  An entry at a height of the proof-of-work
period must meet the target it names, or nothing is loaded at all.
-/
import Divitae.BlockTreeKept
import Divitae.DiskBlockIndex

namespace Divitae.BlockIndex

open List Option CDiskBlockIndex

abbrev BlockMap := AList fun _ : uint256 => CBlockIndex

/-! ## Writing and reading the database -/

/-- The entries under their hashes, in the order of the keys' bytes. -/
def BlockTree.cursor (T : BlockTree) : List (List UInt8) :=
  (T.mapBlockIndex.entries.mergeSort fun a b => decide (serUint256 a.1 ≤ serUint256 b.1)).map
    fun item => (CDiskBlockIndex.ofEntry item.2).ser

def CDiskBlockIndex.GetBlockHash (N : TreeNode) (d : CDiskBlockIndex) : uint256 :=
  CBlockHeader.GetHash N
    ⟨d.nVersion, d.hashPrev, d.hashMerkleRoot, d.nTime, d.nBits, d.nNonce, d.nAccumulatorCheckpoint⟩

def InsertBlockIndex (mapBlockIndex : BlockMap) (hash : uint256) : BlockMap :=
  if hash = 0 then mapBlockIndex
  else
    match mapBlockIndex.lookup hash with
    | some _ => mapBlockIndex
    | none => mapBlockIndex.insert hash {}

/-- "Construct block index object". -/
def copyDisk (diskindex : CDiskBlockIndex) (pindexNew : CBlockIndex) : CBlockIndex :=
  { pindexNew with
    pprev := if diskindex.hashPrev = 0 then none else some diskindex.hashPrev
    nHeight := diskindex.nHeight
    nFile := diskindex.nFile
    nDataPos := diskindex.nDataPos
    nUndoPos := diskindex.nUndoPos
    nVersion := diskindex.nVersion
    hashMerkleRoot := diskindex.hashMerkleRoot
    nTime := diskindex.nTime
    nBits := diskindex.nBits
    nNonce := diskindex.nNonce
    nStatus := diskindex.nStatus
    nTx := diskindex.nTx
    nAccumulatorCheckpoint := diskindex.nAccumulatorCheckpoint
    mapZerocoinSupply := diskindex.mapZerocoinSupply
    vMintDenominationsInBlock := diskindex.vMintDenominationsInBlock
    nMint := diskindex.nMint
    nMoneySupply := diskindex.nMoneySupply
    nFlags := diskindex.nFlags
    nStakeModifier := diskindex.nStakeModifier
    prevoutStake := diskindex.prevoutStake
    nStakeTime := diskindex.nStakeTime
    hashProofOfStake := diskindex.hashProofOfStake }

/-- One record of `LoadBlockIndexGuts`. -/
def loadRecord (N : TreeNode) (mapBlockIndex : BlockMap) (value : List UInt8) : Option BlockMap :=
  match readDiskBlockIndex value with
  | none => none -- Deserialize or I/O error
  | some (diskindex, _) =>
    let hash := diskindex.GetBlockHash N
    if hash = 0 then none -- `InsertBlockIndex` gives no entry to write to
    else
      let mapBlockIndex := InsertBlockIndex
        (InsertBlockIndex (InsertBlockIndex mapBlockIndex hash) diskindex.hashPrev)
        diskindex.hashNext
      let pindexNew := copyDisk diskindex ((mapBlockIndex.lookup hash).getD {})
      if decide (pindexNew.nHeight ≤ N.nLastPOWBlock) && !CheckProofOfWork N hash pindexNew.nBits
      then none
      else some (mapBlockIndex.insert hash pindexNew)

def LoadBlockIndexGuts (N : TreeNode) (records : List (List UInt8)) : Option BlockMap :=
  records.foldlM (loadRecord N) ∅

/-- `vSortedByHeight`: by height, and by place in memory. -/
def sortedByHeight (N : TreeNode) (mapBlockIndex : BlockMap) : List uint256 :=
  (mapBlockIndex.entries.mergeSort fun a b =>
    a.2.nHeight < b.2.nHeight ||
      (a.2.nHeight == b.2.nHeight && N.address a.1 ≤ N.address b.1)).map Sigma.fst

/-- The count of an entry, and whether its data waits for that of its predecessor. -/
def chainTx (T : BlockTree) (e : CBlockIndex) : ℕ × Bool :=
  if e.nStatus.haveData then
    match T.prev e with
    | some pprev =>
      if pprev.nChainTx ≠ 0 then ((pprev.nChainTx + e.nTx) % 2 ^ 32, false) else (0, true)
    | none => (e.nTx, false)
  else (e.nChainTx, false)

/-- One round over `vSortedByHeight`. -/
def chainEntry (T : BlockTree) (pindex : uint256) : BlockTree :=
  match T.entry pindex with
  | none => T
  | some e =>
    let (nChainTx, unlinked) := chainTx T e
    let T' := T.edit pindex fun e => { e with
      nChainWork := ((T.prev e).map CBlockIndex.nChainWork).getD 0 + GetBlockProof e.nBits
      nChainTx := nChainTx }
    { T' with
      mapBlocksUnlinked :=
        if unlinked then (e.pprev.getD 0, pindex) :: T.mapBlocksUnlinked else T.mapBlocksUnlinked
      setBlockIndexCandidates :=
        if e.nStatus.IsValid BLOCK_VALID_TRANSACTIONS && (nChainTx != 0 || e.pprev.isNone) then
          T.setBlockIndexCandidates.insert pindex
        else T.setBlockIndexCandidates }

/-- `LoadBlockIndexDB`, as far as it fills the index. -/
def LoadBlockIndexDB (N : TreeNode) (records : List (List UInt8)) : Option BlockTree :=
  (LoadBlockIndexGuts N records).map fun mapBlockIndex =>
    (sortedByHeight N mapBlockIndex).foldl chainEntry { mapBlockIndex := mapBlockIndex }

/-! ## One record -/

/-- What `LoadBlockIndexGuts` makes of an entry. -/
def restored (e : CBlockIndex) : CBlockIndex := copyDisk (CDiskBlockIndex.ofEntry e).stored {}

/-- What `LoadBlockIndexDB` makes of it. -/
def relinked (e : CBlockIndex) : CBlockIndex :=
  { restored e with nChainWork := e.nChainWork, nChainTx := e.nChainTx }

def Passes (N : TreeNode) (hash : uint256) (e : CBlockIndex) : Prop :=
  e.nHeight ≤ N.nLastPOWBlock → CheckProofOfWork N hash e.nBits = true

section
variable {N : TreeNode} {T : BlockTree} {hash : uint256} {e : CBlockIndex} {m : BlockMap}

open BlockTree

theorem hashPrev_ne_zero (h : Standing N T) (hlook : T.entry hash = some e) {p : uint256}
    (hp : e.pprev = some p) : p ≠ 0 := by
  obtain ⟨q, hq, -⟩ := (h.placed hash e hlook).next p hp
  exact (h.sound p q hq).nonzero

theorem stored_hash (h : BlockTree.Sound N hash e) :
    (ofEntry e).stored.GetBlockHash N = hash := by
  rw [← h.key]
  refine GetHash_eq rfl rfl rfl rfl rfl rfl ?_
  intro hversion
  exact if_pos hversion

/-- The entry of the predecessor, if it is not there yet. -/
def withPrev (m : BlockMap) (e : CBlockIndex) : BlockMap :=
  match e.pprev with
  | none => m
  | some p => InsertBlockIndex m p

theorem loadRecord_eq (h : Standing N T) (hlook : T.entry hash = some e) :
    (¬ Passes N hash e → loadRecord N m (ofEntry e).ser = none) ∧
    (Passes N hash e → loadRecord N m (ofEntry e).ser =
      some ((withPrev (InsertBlockIndex m hash) e).insert hash
        (copyDisk (ofEntry e).stored
          (((withPrev (InsertBlockIndex m hash) e).lookup hash).getD {})))) := by
  have hs := h.sound hash e hlook
  have hread : readDiskBlockIndex (ofEntry e).ser =
      some ((ofEntry e).stored, []) := by
    have hreads := reads_diskBlockIndex (d := ofEntry e) hs.valid_lt hs.prevout_lt hs.mints_le []
    rwa [append_nil] at hreads
  have hprev : InsertBlockIndex (InsertBlockIndex (InsertBlockIndex m hash)
      (ofEntry e).stored.hashPrev) (ofEntry e).stored.hashNext =
        withPrev (InsertBlockIndex m hash) e := by
    have hnext : ∀ m' : BlockMap, InsertBlockIndex m' 0 = m' := fun m' => if_pos rfl
    show InsertBlockIndex (InsertBlockIndex (InsertBlockIndex m hash) (e.pprev.getD 0)) 0 = _
    unfold withPrev
    cases e.pprev with
    | none => exact hnext _
    | some p => rfl
  have hstep : loadRecord N m (ofEntry e).ser =
      if decide (e.nHeight ≤ N.nLastPOWBlock) && !CheckProofOfWork N hash e.nBits then none
      else some ((withPrev (InsertBlockIndex m hash) e).insert hash
        (copyDisk (ofEntry e).stored
          (((withPrev (InsertBlockIndex m hash) e).lookup hash).getD {}))) := by
    unfold loadRecord
    rw [hread]
    dsimp only
    rw [stored_hash hs, if_neg hs.nonzero, hprev]
    rfl
  rw [hstep]
  unfold Passes
  constructor
  · intro hno
    rw [Classical.not_imp] at hno
    rw [if_pos]
    rw [Bool.and_eq_true, decide_eq_true_eq, Bool.not_eq_true']
    exact ⟨hno.1, Bool.eq_false_iff.mpr hno.2⟩
  · intro hyes
    rw [if_neg]
    rw [Bool.and_eq_true, decide_eq_true_eq, Bool.not_eq_true', not_and]
    intro hlow
    rw [hyes hlow]
    exact Bool.false_ne_true ∘ Eq.symm

/-! ## All records -/

/-- The map once the entries of `done` are read: what else is there is named by them only. -/
structure Filled (T : BlockTree) (done : List uint256) (m : BlockMap) : Prop where
  loaded : ∀ hash ∈ done, m.lookup hash = (T.entry hash).map restored
  named : ∀ hash, hash ∉ done →
    m.lookup hash = none ∨ (m.lookup hash = some {} ∧ (T.entry hash).isSome = true)

variable {done : List uint256}

theorem InsertBlockIndex_filled (h : Filled T done m)
    (hknown : (T.entry hash).isSome = true) : Filled T done (InsertBlockIndex m hash) := by
  unfold InsertBlockIndex
  split_ifs
  · exact h
  · cases hlook : m.lookup hash with
    | some _ => exact h
    | none =>
      have hnot : hash ∉ done := by
        intro hmem
        have hloaded := h.loaded hash hmem
        rw [hlook] at hloaded
        cases hentry : T.entry hash with
        | none =>
          rw [hentry] at hknown
          cases hknown
        | some e =>
          rw [hentry] at hloaded
          cases hloaded
      constructor
      · intro hash' hmem
        have hne : hash' ≠ hash := by
          rintro rfl
          exact hnot hmem
        exact (AList.lookup_insert_ne hne).trans (h.loaded hash' hmem)
      · intro hash' hmem
        rcases eq_or_ne hash' hash with rfl | hne
        · exact .inr ⟨AList.lookup_insert m, hknown⟩
        · dsimp only
          rw [AList.lookup_insert_ne hne]
          exact h.named hash' hmem

/-- **One record more.** -/
theorem loadRecord_filled (hstanding : Standing N T) (h : Filled T done m)
    (hlook : T.entry hash = some e) (hnew : hash ∉ done) (hpasses : Passes N hash e) :
    ∃ m', loadRecord N m (ofEntry e).ser = some m' ∧ Filled T (done ++ [hash]) m' := by
  have hself : Filled T done (InsertBlockIndex m hash) :=
    InsertBlockIndex_filled h (by rw [hlook]; rfl)
  have hprev : Filled T done (withPrev (InsertBlockIndex m hash) e) := by
    unfold withPrev
    cases hp : e.pprev with
    | none => exact hself
    | some p =>
      obtain ⟨q, hq, -⟩ := (hstanding.placed hash e hlook).next p hp
      exact InsertBlockIndex_filled hself (by rw [hq]; rfl)
  have hfresh : ((withPrev (InsertBlockIndex m hash) e).lookup hash).getD {} = {} := by
    rcases hprev.named hash hnew with hnone | ⟨hsome, -⟩
    · rw [hnone, getD_none]
    · rw [hsome, getD_some]
  refine ⟨_, (loadRecord_eq hstanding hlook).2 hpasses, ?_, ?_⟩
  · intro hash' hmem
    rw [hfresh]
    rcases eq_or_ne hash' hash with rfl | hne
    · rw [AList.lookup_insert, hlook]
      rfl
    · rw [AList.lookup_insert_ne hne]
      refine hprev.loaded hash' ((mem_append.mp hmem).resolve_right ?_)
      intro hin
      exact hne (mem_singleton.mp hin)
  · intro hash' hmem
    rw [mem_append, not_or, mem_singleton] at hmem
    rw [AList.lookup_insert_ne hmem.2]
    exact hprev.named hash' hmem.1

/-- **All records**, if none is refused. -/
theorem records_filled (hstanding : Standing N T) :
    ∀ {items : List (Sigma fun _ : uint256 => CBlockIndex)} {done : List uint256} {m : BlockMap},
      (done ++ items.map Sigma.fst).Nodup → (∀ item ∈ items, T.entry item.1 = some item.2) →
      (∀ item ∈ items, Passes N item.1 item.2) → Filled T done m →
      ∃ m', (items.map fun item => (ofEntry item.2).ser).foldlM (loadRecord N) m =
        some m' ∧ Filled T (done ++ items.map Sigma.fst) m'
  | [], done, m, _, _, _, h => ⟨m, rfl, by rw [map_nil, append_nil]; exact h⟩
  | item :: items, done, m, hnodup, hitems, hpasses, h => by
    have hnew : item.1 ∉ done := by
      intro hmem
      exact disjoint_of_nodup_append hnodup hmem mem_cons_self
    obtain ⟨m', hload, hfilled⟩ := loadRecord_filled hstanding h (hitems item mem_cons_self)
      hnew (hpasses item mem_cons_self)
    have hsplit : done ++ (item :: items).map Sigma.fst =
        done ++ [item.1] ++ items.map Sigma.fst := by
      rw [map_cons, append_assoc, singleton_append]
    rw [hsplit] at hnodup ⊢
    obtain ⟨m'', hrest, hfilled'⟩ := records_filled hstanding hnodup
      (fun i hi => hitems i (mem_cons_of_mem item hi))
      (fun i hi => hpasses i (mem_cons_of_mem item hi)) hfilled
    refine ⟨m'', ?_, hfilled'⟩
    rw [map_cons, foldlM_cons, hload]
    exact hrest

theorem records_refused (hstanding : Standing N T) :
    ∀ {items : List (Sigma fun _ : uint256 => CBlockIndex)} {m : BlockMap},
      (∀ item ∈ items, T.entry item.1 = some item.2) → ¬ (∀ item ∈ items, Passes N item.1 item.2) →
      (items.map fun item => (ofEntry item.2).ser).foldlM (loadRecord N) m = none
  | [], _, _, hrefused => absurd (nofun) hrefused
  | item :: items, m, hitems, hrefused => by
    have hlook := hitems item mem_cons_self
    rw [map_cons, foldlM_cons]
    by_cases hhead : Passes N item.1 item.2
    · rw [(loadRecord_eq hstanding hlook).2 hhead]
      refine records_refused hstanding (fun i hi => hitems i (mem_cons_of_mem item hi)) ?_
      intro hrest
      refine hrefused ?_
      intro i hi
      rcases mem_cons.mp hi with rfl | hi
      · exact hhead
      · exact hrest i hi
    · rw [(loadRecord_eq hstanding hlook).1 hhead]
      rfl

theorem mem_cursor_items {item : Sigma fun _ : uint256 => CBlockIndex}
    {le : (Sigma fun _ : uint256 => CBlockIndex) → (Sigma fun _ : uint256 => CBlockIndex) → Bool} :
    item ∈ T.mapBlockIndex.entries.mergeSort le ↔ T.entry item.1 = some item.2 := by
  rw [mem_mergeSort]
  exact Keyed.mem_entries_iff

/-- **`LoadBlockIndexGuts` of a written index**: each entry restored, or nothing. -/
theorem LoadBlockIndexGuts_eq (hstanding : Standing N T) :
    (¬ (∀ hash e, T.entry hash = some e → Passes N hash e) → LoadBlockIndexGuts N T.cursor = none) ∧
    ((∀ hash e, T.entry hash = some e → Passes N hash e) →
      ∃ m, LoadBlockIndexGuts N T.cursor = some m ∧
        ∀ hash, m.lookup hash = (T.entry hash).map restored) := by
  constructor
  · intro hrefused
    refine records_refused hstanding (fun item hitem => mem_cursor_items.mp hitem) ?_
    intro hall
    refine hrefused ?_
    intro hash e hlook
    exact hall ⟨hash, e⟩ (mem_cursor_items.mpr hlook)
  · intro hpasses
    let items := T.mapBlockIndex.entries.mergeSort fun a b =>
      decide (serUint256 a.1 ≤ serUint256 b.1)
    have hperm : (items.map Sigma.fst).Perm (T.mapBlockIndex.entries.map Sigma.fst) :=
      (mergeSort_perm _ _).map _
    have hnodup : ([] ++ items.map Sigma.fst).Nodup := hperm.nodup_iff.mpr T.mapBlockIndex.nodupKeys
    have hstart : Filled T [] ∅ := ⟨nofun, fun _ _ => .inl (AList.lookup_empty _)⟩
    obtain ⟨m, hm, hfilled⟩ := records_filled hstanding hnodup
      (fun item hitem => mem_cursor_items.mp hitem)
      (fun item hitem => hpasses item.1 item.2 (mem_cursor_items.mp hitem)) hstart
    refine ⟨m, hm, ?_⟩
    intro hash
    cases hlook : T.entry hash with
    | some e =>
      have hmem : hash ∈ [] ++ items.map Sigma.fst :=
        mem_map.mpr ⟨⟨hash, e⟩, mem_cursor_items.mpr hlook, rfl⟩
      rw [hfilled.loaded hash hmem, hlook]
    | none =>
      have hnot : hash ∉ [] ++ items.map Sigma.fst := by
        intro hmem
        obtain ⟨item, hitem, rfl⟩ := mem_map.mp hmem
        rw [mem_cursor_items.mp hitem] at hlook
        cases hlook
      rcases hfilled.named hash hnot with hnone | ⟨-, hsome⟩
      · exact hnone
      · rw [hlook] at hsome
        cases hsome

/-! ## By height -/

/-- The index once the entries of `done` have their work and their count. -/
def Chained (T : BlockTree) (done : List uint256) (S : BlockTree) : Prop :=
  ∀ hash, S.entry hash = (T.entry hash).map (if hash ∈ done then relinked else restored)

theorem restored_pprev (h : Standing N T) (hlook : T.entry hash = some e) :
    (restored e).pprev = e.pprev := by
  show (if e.pprev.getD 0 = 0 then none else some (e.pprev.getD 0)) = e.pprev
  cases hp : e.pprev with
  | none => rfl
  | some p => exact if_neg (hashPrev_ne_zero h hlook hp)

/-- **One entry more**, its predecessor among those done. -/
theorem chainEntry_chained {S : BlockTree} (h : WellFormed N T)
    (hS : Chained T done S) (hlook : T.entry hash = some e) (hnew : hash ∉ done)
    (hprev : ∀ p, e.pprev = some p → p ∈ done) :
    Chained T (done ++ [hash]) (chainEntry S hash) := by
  have hself : S.entry hash = some (restored e) := by
    rw [hS hash, hlook, if_neg hnew, map_some]
  have hpprev := restored_pprev h.toStanding hlook
  have hprevS : S.prev (restored e) = (T.prev e).map relinked := by
    unfold BlockTree.prev
    rw [hpprev]
    cases hp : e.pprev with
    | none => rfl
    | some p =>
      show S.entry p = (T.entry p).map relinked
      rw [hS p, if_pos (hprev p hp)]
  have hwork : ((S.prev (restored e)).map CBlockIndex.nChainWork).getD 0 +
      GetBlockProof (restored e).nBits = e.nChainWork := by
    rw [hprevS]
    cases hp : e.pprev with
    | none =>
      rw [prev_of_root hp, ((h.placed hash e hlook).root hp).2]
      exact BitVec.zero_add _
    | some p =>
      obtain ⟨q, hq, -, hqwork⟩ := (h.placed hash e hlook).next p hp
      rw [prev_of_entry hp hq, hqwork]
      rfl
  have hcount : (chainTx S (restored e)).1 = e.nChainTx := by
    rw [h.counted hash e hlook not_mem_nil]
    unfold chainTx countOf
    rw [hprevS]
    show (if e.nStatus.haveData then _ else ((0 : ℕ), false)).1 = _
    cases hdata : e.nStatus.haveData with
    | false => rfl
    | true =>
      cases T.prev e with
      | none => rfl
      | some q =>
        show (if q.nChainTx ≠ 0 then ((q.nChainTx + e.nTx) % 2 ^ 32, false) else (0, true)).1 =
          if q.nChainTx ≠ 0 then (q.nChainTx + e.nTx) % 2 ^ 32 else 0
        split_ifs <;> rfl
  have hmade : (chainEntry S hash).entry hash = some (relinked e) := by
    have hedit : ∀ f : CBlockIndex → CBlockIndex,
      (S.edit hash f).entry hash = some (f (restored e)) := by
      intro f
      rw [entry_edit_self, hself, map_some]
    unfold chainEntry
    rw [hself]
    refine (hedit _).trans ?_
    rw [hwork, hcount]
    rfl
  intro hash'
  rcases eq_or_ne hash' hash with rfl | hne
  · rw [hmade, hlook, if_pos (mem_append_right done mem_cons_self), map_some]
  · have hother : (chainEntry S hash).entry hash' = S.entry hash' := by
      unfold chainEntry
      rw [hself]
      exact entry_edit_ne hne
    rw [hother, hS hash']
    have hiff : hash' ∈ done ++ [hash] ↔ hash' ∈ done := by
      rw [mem_append, mem_singleton, or_iff_left hne]
    simp only [hiff]

/-- **All entries**, in an order in which each comes after its predecessor. -/
theorem chainEntries_chained (h : WellFormed N T) :
    ∀ {hashes done : List uint256} {S : BlockTree}, (done ++ hashes).Nodup →
      (∀ hash ∈ hashes, ∃ e, T.entry hash = some e) →
      (∀ pre hash post, done ++ hashes = pre ++ hash :: post → ∀ e p, T.entry hash = some e →
        e.pprev = some p → p ∈ pre) →
      Chained T done S → Chained T (done ++ hashes) (hashes.foldl chainEntry S)
  | [], done, S, _, _, _, hS => by
    rw [append_nil]
    exact hS
  | hash :: hashes, done, S, hnodup, hknown, hafter, hS => by
    have hnew : hash ∉ done := by
      intro hmem
      exact disjoint_of_nodup_append hnodup hmem mem_cons_self
    obtain ⟨e, hlook⟩ := hknown hash mem_cons_self
    have hstep := chainEntry_chained h hS hlook hnew
      fun p hp => hafter done hash hashes rfl e p hlook hp
    have hsplit : done ++ hash :: hashes = done ++ [hash] ++ hashes := by
      rw [append_assoc, singleton_append]
    rw [hsplit] at hnodup hafter ⊢
    exact chainEntries_chained h hnodup (fun x hx => hknown x (mem_cons_of_mem hash hx))
      hafter hstep

theorem sortedByHeight_spec (h : WellFormed N T)
    (hm : ∀ hash, m.lookup hash = (T.entry hash).map restored) :
    (sortedByHeight N m).Nodup ∧
    (∀ hash, hash ∈ sortedByHeight N m ↔ ∃ e, T.entry hash = some e) ∧
    (∀ pre hash post, sortedByHeight N m = pre ++ hash :: post → ∀ e p, T.entry hash = some e →
      e.pprev = some p → p ∈ pre) := by
  let le : (Sigma fun _ : uint256 => CBlockIndex) → (Sigma fun _ : uint256 => CBlockIndex) → Bool :=
    fun a b => a.2.nHeight < b.2.nHeight ||
      (a.2.nHeight == b.2.nHeight && N.address a.1 ≤ N.address b.1)
  have hle : ∀ {a b}, le a b = true → a.2.nHeight ≤ b.2.nHeight := by
    intro a b hab
    simp only [le, Bool.or_eq_true, Bool.and_eq_true, decide_eq_true_eq, beq_iff_eq] at hab
    omega
  have hsorted : (m.entries.mergeSort le).Pairwise fun a b => le a b = true := by
    refine pairwise_mergeSort ?_ ?_ _
    · intro a b c hab hbc
      simp only [le, Bool.or_eq_true, Bool.and_eq_true, decide_eq_true_eq, beq_iff_eq] at hab hbc ⊢
      omega
    · intro a b
      simp only [le, Bool.or_eq_true, Bool.and_eq_true, decide_eq_true_eq, beq_iff_eq]
      omega
  have hmem : ∀ {item : Sigma fun _ : uint256 => CBlockIndex}, item ∈ m.entries.mergeSort le ↔
      m.lookup item.1 = some item.2 := by
    intro item
    rw [mem_mergeSort]
    exact Keyed.mem_entries_iff
  have hiff : ∀ hash, hash ∈ sortedByHeight N m ↔ ∃ e, T.entry hash = some e := by
    intro hash
    constructor
    · intro hin
      obtain ⟨item, hitem, rfl⟩ := mem_map.mp hin
      have hlook := hmem.mp hitem
      rw [hm] at hlook
      obtain ⟨e, he, -⟩ := map_eq_some_iff.mp hlook
      exact ⟨e, he⟩
    · rintro ⟨e, he⟩
      refine mem_map.mpr ⟨⟨hash, restored e⟩, hmem.mpr ?_, rfl⟩
      rw [hm, he, map_some]
  refine ⟨?_, hiff, ?_⟩
  · have hperm : (sortedByHeight N m).Perm (m.entries.map Sigma.fst) :=
      (mergeSort_perm _ _).map _
    exact hperm.nodup_iff.mpr m.nodupKeys
  · intro pre hash post hsplit e p hlook hp
    obtain ⟨q, hq, hheight, -⟩ := (h.placed hash e hlook).next p hp
    have hin : p ∈ pre ++ hash :: post := by
      rw [← hsplit]
      exact (hiff p).mpr ⟨q, hq⟩
    rcases mem_append.mp hin with hpre | hrest
    · exact hpre
    · exfalso
      obtain ⟨before, after, hitems, hbefore, hafter⟩ := map_eq_append_iff.mp hsplit
      obtain ⟨item, rest, rfl, hitem, hpost⟩ := map_eq_cons_iff.mp hafter
      have hitemHeight : item.2.nHeight = e.nHeight := by
        have hlook' := hmem.mp (hitems ▸ mem_append_right before mem_cons_self)
        rw [hitem, hm, hlook, map_some] at hlook'
        rw [← some.inj hlook']
        rfl
      have hafterItem : ∀ {x}, x ∈ rest → item.2.nHeight ≤ x.2.nHeight := by
        intro x hx
        rw [hitems] at hsorted
        exact hle (rel_of_pairwise_cons (pairwise_append.mp hsorted).2.1 hx)
      rcases mem_cons.mp hrest with rfl | hin
      · obtain rfl : e = q := some.inj (hlook.symm.trans hq)
        omega
      · rw [← hpost] at hin
        obtain ⟨x, hx, rfl⟩ := mem_map.mp hin
        have hlook' := hmem.mp (hitems ▸ mem_append_right before (mem_cons_of_mem item hx))
        rw [hm, hq, map_some] at hlook'
        have hxHeight : x.2.nHeight = q.nHeight := by
          rw [← some.inj hlook']
          rfl
        have := hafterItem hx
        omega

/-- **The index after a restart**: each entry relinked, or nothing. -/
theorem loadBlockIndex_eq (h : WellFormed N T) :
    (¬ (∀ hash e, T.entry hash = some e → Passes N hash e) → LoadBlockIndexDB N T.cursor = none) ∧
    ((∀ hash e, T.entry hash = some e → Passes N hash e) →
      ∃ S, LoadBlockIndexDB N T.cursor = some S ∧
        ∀ hash, S.entry hash = (T.entry hash).map relinked) := by
  obtain ⟨hrefused, hloaded⟩ := LoadBlockIndexGuts_eq (N := N) h.toStanding
  constructor
  · intro hno
    unfold LoadBlockIndexDB
    rw [hrefused hno, map_none]
  · intro hyes
    obtain ⟨m, hguts, hm⟩ := hloaded hyes
    obtain ⟨hnodup, hkeys, hafter⟩ := sortedByHeight_spec h hm
    have hstart : Chained T [] { mapBlockIndex := m } := by
      intro hash
      exact hm hash
    have hend : Chained T ([] ++ sortedByHeight N m) _ := chainEntries_chained h hnodup
      (fun hash hmem => (hkeys hash).mp hmem) hafter hstart
    refine ⟨_, by unfold LoadBlockIndexDB; rw [hguts, map_some], ?_⟩
    intro hash
    rw [hend hash, nil_append]
    cases hlook : T.entry hash with
    | none => rfl
    | some e => rw [if_pos ((hkeys hash).mpr ⟨e, hlook⟩)]

/-! ## What comes back -/

/-- The fields of an entry that later validation reads. -/
structure SameEntry (e e' : CBlockIndex) : Prop where
  header : e'.GetBlockHeader = e.GetBlockHeader
  pprev : e'.pprev = e.pprev
  nHeight : e'.nHeight = e.nHeight
  nStatus : e'.nStatus = e.nStatus
  nTx : e'.nTx = e.nTx
  blockPos : e'.GetBlockPos = e.GetBlockPos
  undoPos : e'.GetUndoPos = e.GetUndoPos
  hashProofOfStake : e'.hashProofOfStake = e.hashProofOfStake
  prevoutStake : e'.prevoutStake = e.prevoutStake
  nStakeTime : e'.nStakeTime = e.nStakeTime
  nStakeModifier : e'.nStakeModifier = e.nStakeModifier
  nFlags : e'.nFlags = e.nFlags
  nMint : e'.nMint = e.nMint
  nMoneySupply : e'.nMoneySupply = e.nMoneySupply
  mapZerocoinSupply : e'.mapZerocoinSupply = e.mapZerocoinSupply
  vMintDenominationsInBlock : e'.vMintDenominationsInBlock = e.vMintDenominationsInBlock
  nChainWork : e'.nChainWork = e.nChainWork
  nChainTx : e'.nChainTx = e.nChainTx

/-- The index is written and loaded, and the entry is there again. -/
def ComesBack (N : TreeNode) (T : BlockTree) (hash : uint256) (e : CBlockIndex) : Prop :=
  ∃ S e', LoadBlockIndexDB N T.cursor = some S ∧ S.entry hash = some e' ∧ SameEntry e e'

/-- What is not written is as the constructor has it. -/
structure NothingLost (e : CBlockIndex) : Prop where
  proof : e.IsProofOfStake = true → e.hashProofOfStake = 0
  supply : hasCheckpoint e.nVersion = false →
    e.mapZerocoinSupply = noSupply ∧ e.vMintDenominationsInBlock = []

section
variable (h : WellFormed N T) (hlook : T.entry hash = some e)
include h hlook

theorem sameEntry_relinked_iff :
    SameEntry e (relinked e) ↔ NothingLost e := by
  have hs := h.sound hash e hlook
  have hpprev : (relinked e).pprev = e.pprev := restored_pprev h.toStanding hlook
  have hsupply : (relinked e).mapZerocoinSupply =
      if hasCheckpoint e.nVersion then e.mapZerocoinSupply else noSupply := rfl
  have hmints : (relinked e).vMintDenominationsInBlock =
      if hasCheckpoint e.nVersion then e.vMintDenominationsInBlock else [] := rfl
  constructor
  · intro hsame
    constructor
    · intro _
      exact hsame.hashProofOfStake.symm
    · intro hversion
      have h1 := hsame.mapZerocoinSupply
      have h2 := hsame.vMintDenominationsInBlock
      rw [hsupply, hversion, if_neg Bool.false_ne_true] at h1
      rw [hmints, hversion, if_neg Bool.false_ne_true] at h2
      exact ⟨h1.symm, h2.symm⟩
  · intro hkept
    have hcheckpoint : (relinked e).nAccumulatorCheckpoint = e.nAccumulatorCheckpoint := by
      show (if hasCheckpoint e.nVersion then e.nAccumulatorCheckpoint else 0) = _
      cases hversion : hasCheckpoint e.nVersion with
      | true => rfl
      | false => exact (hs.checkpoint hversion).symm
    have hproof : (relinked e).hashProofOfStake = e.hashProofOfStake := by
      cases hstake : e.IsProofOfStake with
      | true => exact (hkept.proof hstake).symm
      | false => exact (hs.stakeless hstake).2.2.symm
    have hprevout : (relinked e).prevoutStake = e.prevoutStake := by
      show (if e.IsProofOfStake then e.prevoutStake else .SetNull) = _
      cases hstake : e.IsProofOfStake with
      | true => rfl
      | false => exact (hs.stakeless hstake).1.symm
    have htime : (relinked e).nStakeTime = e.nStakeTime := by
      show (if e.IsProofOfStake then e.nStakeTime else 0) = _
      cases hstake : e.IsProofOfStake with
      | true => rfl
      | false => exact (hs.stakeless hstake).2.1.symm
    have hheader : (relinked e).GetBlockHeader = e.GetBlockHeader := by
      unfold CBlockIndex.GetBlockHeader
      rw [hpprev, hcheckpoint]
      rfl
    have hblockPos : (relinked e).GetBlockPos = e.GetBlockPos := by
      show (if e.nStatus.haveData then
        some (CDiskBlockPos.mk (if e.nStatus.haveData || e.nStatus.haveUndo then e.nFile else 0)
          (if e.nStatus.haveData then e.nDataPos else 0)) else none) = _
      unfold CBlockIndex.GetBlockPos
      cases e.nStatus.haveData <;> rfl
    have hundoPos : (relinked e).GetUndoPos = e.GetUndoPos := by
      show (if e.nStatus.haveUndo then
        some (CDiskBlockPos.mk (if e.nStatus.haveData || e.nStatus.haveUndo then e.nFile else 0)
          (if e.nStatus.haveUndo then e.nUndoPos else 0)) else none) = _
      unfold CBlockIndex.GetUndoPos
      cases e.nStatus.haveUndo
      · rfl
      · rw [Bool.or_true]
        rfl
    refine ⟨hheader, hpprev, rfl, rfl, rfl, hblockPos, hundoPos, hproof, hprevout, htime, rfl, rfl,
      rfl, rfl, ?_, ?_, rfl, rfl⟩
    · rw [hsupply]
      cases hversion : hasCheckpoint e.nVersion with
      | true => rfl
      | false => exact (hkept.supply hversion).1.symm
    · rw [hmints]
      cases hversion : hasCheckpoint e.nVersion with
      | true => rfl
      | false => exact (hkept.supply hversion).2.symm

theorem comesBack_iff :
    ComesBack N T hash e ↔ (∀ hash e, T.entry hash = some e → Passes N hash e) ∧ NothingLost e := by
  obtain ⟨hrefused, hloaded⟩ := loadBlockIndex_eq h
  constructor
  · rintro ⟨S, e', hS, he', hsame⟩
    have hpasses : ∀ hash e, T.entry hash = some e → Passes N hash e := by
      by_contra hno
      rw [hrefused hno] at hS
      cases hS
    refine ⟨hpasses, (sameEntry_relinked_iff h hlook).mp ?_⟩
    obtain ⟨S', hS', hentries⟩ := hloaded hpasses
    obtain rfl : S = S' := some.inj (hS.symm.trans hS')
    rw [hentries, hlook, map_some] at he'
    cases he'
    exact hsame
  · rintro ⟨hpasses, hkept⟩
    obtain ⟨S, hS, hentries⟩ := hloaded hpasses
    refine ⟨S, relinked e, hS, ?_, (sameEntry_relinked_iff h hlook).mpr hkept⟩
    rw [hentries, hlook, map_some]

end

theorem run_wellFormed {is : List TreeEvent}
    (hrun : Run.Guarded (treeStep N) (BlockTree.Meets N) {} is) :
    WellFormed N (is.foldl (treeStep N) {}) :=
  Run.run_inv (I := WellFormed N) (fun _ _ h hmeets => treeStep_wellFormed h hmeets)
    (wellFormed_empty N) hrun

/-- **The entries that come back.**  In every state reached, those of which nothing is lost,
as long as no entry is refused. -/
theorem block_index_restored_iff {is : List TreeEvent}
    (hrun : Run.Guarded (treeStep N) (BlockTree.Meets N) {} is)
    (hlook : (is.foldl (treeStep N) {}).entry hash = some e) :
    ComesBack N (is.foldl (treeStep N) {}) hash e ↔
      (∀ hash e, (is.foldl (treeStep N) {}).entry hash = some e → Passes N hash e) ∧
        NothingLost e :=
  comesBack_iff (run_wellFormed hrun) hlook

end

/-! ### A proof-of-stake block -/

/-- A network without proof of work; the hash of a header adds its bytes. -/
def stakeNode : TreeNode where
  HashQuark bytes := BitVec.ofNat 256 ((bytes.map UInt8.toNat).sum + 1)
  Hash bytes := BitVec.ofNat 256 ((bytes.map UInt8.toNat).sum + 1)
  hashGenesisBlock := 2
  nLastPOWBlock := 0
  bnProofOfWorkLimit := 0
  fSkipProofOfWorkCheck := true
  ComputeNextStakeModifier _ _ := (0, false)
  address := ⟨BitVec.toNat, fun _ _ h => BitVec.eq_of_toNat_eq h⟩

def allGood (proof : uint256) : BlockTree.Verdicts where
  CheckBlockHeader := true
  ContextualCheckBlockHeader := true
  CheckWork := true
  CheckProofOfStake := some proof
  CheckBlock := .accept
  stored := true

def genesis : CBlock where
  nVersion := 1
  hashPrevBlock := 0
  hashMerkleRoot := 0
  nTime := 0
  nBits := 0
  nNonce := 0
  nAccumulatorCheckpoint := 0
  vtx := [⟨0, 1, [], [], 0⟩]
  prevout_lt := by
    intro tx htx txin hin
    obtain rfl := mem_singleton.mp htx
    cases hin

def staked : CBlock where
  nVersion := 4
  hashPrevBlock := 2
  hashMerkleRoot := 0
  nTime := 0
  nBits := 0
  nNonce := 0
  nAccumulatorCheckpoint := 0
  vtx := [⟨0, 1, [], [], 0⟩, ⟨1, 1, [⟨⟨9, 0⟩, [], 0⟩], [⟨0, []⟩, ⟨5, []⟩], 0⟩]
  prevout_lt := by
    intro tx htx txin hin
    rcases mem_cons.mp htx with rfl | htx
    · cases hin
    · obtain rfl := mem_singleton.mp htx
      obtain rfl := mem_singleton.mp hin
      decide

def firstBlocks (proof : uint256) : List BlockTree.TreeEvent :=
  [.block genesis (allGood 0) ⟨0, 8⟩, .block staked (allGood proof) ⟨0, 300⟩]

open BlockTree

theorem linkAll_single {N : TreeNode} {T : BlockTree} {pindex : uint256}
    (h : T.waiting pindex = []) : linkAll N T [pindex] = T.link N pindex := by
  rw [linkAll, h, nil_append, linkAll]

theorem entry_link_self {N : TreeNode} {T : BlockTree} {pindex : uint256} {e : CBlockIndex}
    (h : T.entry pindex = some e) : (T.link N pindex).entry pindex = some { e with
      nChainTx := (((T.prev e).map CBlockIndex.nChainTx).getD 0 + e.nTx) % 2 ^ 32
      nSequenceId := T.nBlockSequenceId } := by
  have hedit : (T.edit pindex fun e => { e with
      nChainTx := (((T.prev e).map CBlockIndex.nChainTx).getD 0 + e.nTx) % 2 ^ 32
      nSequenceId := T.nBlockSequenceId }).entry pindex = _ := entry_edit_self
  rw [h, map_some] at hedit
  exact hedit

def withGenesis : BlockTree :=
  ((({} : BlockTree).AddToBlockIndex stakeNode genesis).edit 2 (received genesis ⟨0, 8⟩)).link
    stakeNode 2

theorem step_genesis :
    treeStep stakeNode {} (.block genesis (allGood 0) ⟨0, 8⟩) = withGenesis := by
  have hloop : treeStep stakeNode {} (.block genesis (allGood 0) ⟨0, 8⟩) = linkAll stakeNode
      ((({} : BlockTree).AddToBlockIndex stakeNode genesis).edit 2 (received genesis ⟨0, 8⟩)) [2] :=
    rfl
  rw [hloop, linkAll_single rfl]
  rfl

theorem firstBlocks_guarded (proof : uint256) :
    Run.Guarded (treeStep stakeNode) (BlockTree.Meets stakeNode) {} (firstBlocks proof) := by
  refine ⟨⟨⟨by decide, fun _ => rfl, nofun⟩, by decide⟩, ?_, trivial⟩
  rw [step_genesis]
  refine ⟨⟨by decide, ?_, ?_⟩, by decide⟩
  · intro hgenesis
    exact absurd hgenesis (by decide)
  · intro e he
    exact absurd (show none = some e from he) (by simp)

set_option maxRecDepth 4000 in
theorem firstBlocks_entry (proof : uint256) :
    ∃ e, ((firstBlocks proof).foldl (treeStep stakeNode) {}).entry 7 = some e ∧
      e.IsProofOfStake = true ∧ e.hashProofOfStake = proof ∧ hasCheckpoint e.nVersion = true := by
  have hrun : (firstBlocks proof).foldl (treeStep stakeNode) {} =
      treeStep stakeNode withGenesis (.block staked (allGood proof) ⟨0, 300⟩) := by
    unfold firstBlocks
    rw [foldl_cons, step_genesis, foldl_cons, foldl_nil]
  have hloop : treeStep stakeNode withGenesis (.block staked (allGood proof) ⟨0, 300⟩) =
      linkAll stakeNode
        (((withGenesis.recordProof 7 proof).AddToBlockIndex stakeNode staked).edit 7
          (received staked ⟨0, 300⟩)) [7] := rfl
  have hadded : ((withGenesis.recordProof 7 proof).AddToBlockIndex stakeNode staked).entry 7 =
      some (newEntry stakeNode (withGenesis.recordProof 7 proof) staked) := by
    exact AList.lookup_insert _
  have hreceived : (((withGenesis.recordProof 7 proof).AddToBlockIndex stakeNode staked).edit 7
      (received staked ⟨0, 300⟩)).entry 7 = some (received staked ⟨0, 300⟩
        (newEntry stakeNode (withGenesis.recordProof 7 proof) staked)) := by
    rw [entry_edit_self, hadded, map_some]
  obtain ⟨q, hq⟩ : ∃ q, (withGenesis.recordProof 7 proof).entry staked.hashPrevBlock = some q :=
    ⟨_, rfl⟩
  have hhash : staked.GetHash stakeNode = 7 := by decide
  have hrecorded : (withGenesis.recordProof 7 proof).mapProofOfStake 7 = some proof := rfl
  have hproof : (newEntry stakeNode (withGenesis.recordProof 7 proof) staked).hashProofOfStake =
      proof := by
    show (if (CBlockIndex.ofBlock staked).IsProofOfStake then
      ((withGenesis.recordProof 7 proof).mapProofOfStake (staked.GetHash stakeNode)).getD 0
      else (0 : uint256)) = proof
    rfl
  have hversion : (newEntry stakeNode (withGenesis.recordProof 7 proof) staked).nVersion = 4 := by
    rfl
  rw [hrun, hloop, linkAll_single rfl]
  refine ⟨_, entry_link_self hreceived, ?_, hproof, ?_⟩
  · refine bne_iff_ne.mpr ?_
    exact or_stake_and (newEntry stakeNode (withGenesis.recordProof 7 proof) staked).nFlags
  · show hasCheckpoint (newEntry stakeNode (withGenesis.recordProof 7 proof) staked).nVersion = true
    rfl

theorem stakeNode_passes (hash : uint256) (e : CBlockIndex) : Passes stakeNode hash e := by
  intro _
  rfl

theorem staked_comes_back :
    ∃ e, ((firstBlocks 0).foldl (treeStep stakeNode) {}).entry 7 = some e ∧
      ComesBack stakeNode ((firstBlocks 0).foldl (treeStep stakeNode) {}) 7 e := by
  obtain ⟨e, hlook, -, hproof, hversion⟩ := firstBlocks_entry 0
  refine ⟨e, hlook, (block_index_restored_iff (firstBlocks_guarded 0) hlook).mpr ⟨?_, ?_, ?_⟩⟩
  · intro hash e _
    exact stakeNode_passes hash e
  · intro _
    exact hproof
  · intro hno
    rw [hversion] at hno
    cases hno

/-- The hash of a stake does not come back. -/
theorem proof_of_stake_lost : ¬ ∀ (N : TreeNode) (is : List TreeEvent) (hash : uint256)
    (e : CBlockIndex), Run.Guarded (treeStep N) (BlockTree.Meets N) {} is →
      (is.foldl (treeStep N) {}).entry hash = some e →
      ComesBack N (is.foldl (treeStep N) {}) hash e := by
  intro hall
  obtain ⟨e, hlook, hstake, hproof, -⟩ := firstBlocks_entry 5
  have hrun := firstBlocks_guarded 5
  have hback := hall stakeNode (firstBlocks 5) 7 e hrun hlook
  have hnothing := ((comesBack_iff (run_wellFormed hrun) hlook).mp hback).2
  have hzero : (5 : uint256) = 0 := hproof.symm.trans (hnothing.proof hstake)
  exact absurd hzero (by decide)

end Divitae.BlockIndex
