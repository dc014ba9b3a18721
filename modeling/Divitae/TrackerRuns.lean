/-
# `TrackerRuns` — what is spent, and what is listed as unused

A run of the tracker goes through its operations in any order.  Beside the tracker it keeps, for
each serial, the spend that was recorded last, until that is taken back, or is found gone from
the memory pool or in the chain:

    LastSpends   the tracker and these spends
    Correct      what a step must not do: list a mint whose spend is in the pool as unused, or
                 touch the pending spends of other mints when it clears one
    Safe         the steps for which the source gets that right

It does not for others.  `SetPubcoinUsed` inserts into the map of pending spends, so a second
spend of a mint is not noted while the first one is there; `RemovePending` erases the first serial
with a transaction, whose ever it is; and a mint that is found orphaned becomes unused, pending
or not.

    Fits         the places a mint is at have its one serial, and are used while it is spent
    Noted        every last spend is pending, and all places fit
-/
import Divitae.Tracker

namespace Divitae

open CzDIVITTracker List Option Bool Function SortedMap

/-- The serial that belongs to a coin; no two coins have the same. -/
abbrev SerialOf := Int ↪ Int

/-- A mint for the database, with its coin. -/
structure DeterministicEntry (serialOf : SerialOf) where
  hashPubcoin : Int
  dMint : CDeterministicMint
  paired : dMint.hashSerial = serialOf hashPubcoin

structure ZerocoinEntry (serialOf : SerialOf) where
  hashPubcoin : Int
  mint : CZerocoinMint
  paired : mint.serialNumber = serialOf hashPubcoin

structure MetaEntry (serialOf : SerialOf) where
  mint : CMintMeta
  paired : mint.hashSerial = serialOf mint.hashPubcoin

/-- The operations of the tracker. -/
inductive TrackerEvent (serialOf : SerialOf) where
  | AddDeterministic (e : DeterministicEntry serialOf) (isNew isArchived : Bool)
  | AddZerocoin (e : ZerocoinEntry serialOf) (isNew isArchived : Bool)
  | Archive (e : MetaEntry serialOf)
  | UnArchive (hashPubcoin : Int) (isDeterministic : Bool)
  | UpdateZerocoinMint (e : ZerocoinEntry serialOf)
  | UpdateState (e : MetaEntry serialOf)
  | SetPubcoinUsed (hashPubcoin : Int) (txid : uint256)
  | SetPubcoinNotUsed (hashPubcoin : Int)
  | RemovePending (txid : uint256)
  | ListMints (N : TrackerNode) (fUnusedOnly fMatureOnly fUpdateStatus : Bool)
  | GetMints (N : TrackerNode) (fConfirmedOnly : Bool)
  | Clear

structure LastSpends where
  tracker : CzDIVITTracker
  lastSpend : Int → Option uint256

namespace LastSpends

variable {serialOf : SerialOf} (hashStake : Int → uint256) (s : LastSpends)

def new : LastSpends := ⟨.new, fun _ => none⟩

/-- A spend that is no longer waited for. -/
def forget (gone : Int → uint256 → Bool) : Int → Option uint256 :=
  fun hashSerial => (s.lastSpend hashSerial).filter fun txid => !gone hashSerial txid

/-- It is not in the pool any more, or the serial is spent in the chain. -/
def Gone (N : TrackerNode) (hashSerial : Int) (txid : uint256) : Bool :=
  !N.mempool txid || (N.ReadCoinSpend hashSerial).isSome

def step (s : LastSpends) : TrackerEvent serialOf → LastSpends
  | .AddDeterministic e isNew isArchived =>
    { s with tracker := s.tracker.AddDeterministic e.hashPubcoin e.dMint isNew isArchived }
  | .AddZerocoin e isNew isArchived =>
    { s with tracker := s.tracker.AddZerocoin hashStake e.hashPubcoin e.mint isNew isArchived }
  | .Archive e => { s with tracker := s.tracker.Archive e.mint }
  | .UnArchive hashPubcoin isDeterministic =>
    { s with tracker := s.tracker.UnArchive hashStake hashPubcoin isDeterministic }
  | .UpdateZerocoinMint e =>
    { s with tracker := s.tracker.UpdateZerocoinMint e.hashPubcoin e.mint }
  | .UpdateState e => { s with tracker := s.tracker.UpdateState e.mint }
  | .SetPubcoinUsed hashPubcoin txid =>
    { tracker := s.tracker.SetPubcoinUsed hashPubcoin txid
      lastSpend :=
        match s.tracker.GetMetaFromPubcoin hashPubcoin with
        | none => s.lastSpend
        | some mint => Function.update s.lastSpend mint.hashSerial (some txid) }
  | .SetPubcoinNotUsed hashPubcoin =>
    { tracker := s.tracker.SetPubcoinNotUsed hashPubcoin
      lastSpend :=
        match s.tracker.GetMetaFromPubcoin hashPubcoin with
        | none => s.lastSpend
        | some mint => Function.update s.lastSpend mint.hashSerial none }
  | .RemovePending txid =>
    { tracker := s.tracker.RemovePending txid
      lastSpend := s.forget fun _ txid' => txid' == txid }
  | .ListMints N fUnusedOnly fMatureOnly fUpdateStatus =>
    { tracker := (s.tracker.ListMints N hashStake fUnusedOnly fMatureOnly fUpdateStatus).1
      lastSpend := if fUpdateStatus then s.forget (Gone N) else s.lastSpend }
  | .GetMints .. => s
  | .Clear => { s with tracker := { s.tracker with mapSerialHashes := .empty } }

/-- No mint of the list is unused while the pool has its last spend. -/
def NoneUnused (N : TrackerNode) (listed : List CMintMeta) : Prop :=
  ∀ mint ∈ listed, mint.isUsed = false → ∀ txid, s.lastSpend mint.hashSerial = some txid →
    N.mempool txid = false

/-- The pending spends of these serials stay. -/
def Stays (t t' : CzDIVITTracker) (serials : Int → Prop) : Prop :=
  ∀ hashSerial, serials hashSerial →
    t'.mapPendingSpends.get hashSerial = t.mapPendingSpends.get hashSerial

/-- The mint is updated, and its pending spend is gone. -/
def Cleared (t : CzDIVITTracker) (N : TrackerNode) (hashSerial : Int) : Prop :=
  ∃ mint ∈ t.mints, mint.isArchived = false ∧ mint.hashSerial = hashSerial ∧
    ∃ txid, t.mapPendingSpends.get hashSerial = some txid ∧ Gone N hashSerial txid = true

def Correct (s : LastSpends) : TrackerEvent serialOf → Prop
  | .SetPubcoinNotUsed hashPubcoin =>
    Stays s.tracker (s.tracker.SetPubcoinNotUsed hashPubcoin) fun hashSerial =>
      ∀ mint, s.tracker.GetMetaFromPubcoin hashPubcoin = some mint → mint.hashSerial ≠ hashSerial
  | .RemovePending txid =>
    Stays s.tracker (s.tracker.RemovePending txid) fun hashSerial =>
      s.tracker.mapPendingSpends.get hashSerial ≠ some txid
  | .ListMints N fUnusedOnly fMatureOnly fUpdateStatus =>
    let listed := s.tracker.ListMints N hashStake fUnusedOnly fMatureOnly fUpdateStatus
    s.NoneUnused N listed.2 ∧ Stays s.tracker listed.1 fun hashSerial =>
      ¬ (fUpdateStatus = true ∧ Cleared (s.tracker.toList hashStake fUpdateStatus) N hashSerial)
  | .GetMints N fConfirmedOnly => s.NoneUnused N (s.tracker.GetMints N fConfirmedOnly)
  | _ => True

/-! ## The steps that do it right -/

/-- The one record that the database has of the mint is of its kind, and not archived. -/
def OneRecord (t : CzDIVITTracker) (mint : CMintMeta) : Prop :=
  t.deterministicOrphans.get mint.hashPubcoin = none ∧
    t.zerocoinOrphans.get mint.hashPubcoin = none ∧
    if mint.isDeterministic then
      t.deterministicMints.get mint.hashPubcoin ≠ none ∧ t.zerocoinMints.get mint.hashPubcoin = none
    else
      t.zerocoinMints.get mint.hashPubcoin ≠ none ∧ t.deterministicMints.get mint.hashPubcoin = none

/-- A mint is not entered as unused while it has a pending spend. -/
def MayEnter (t : CzDIVITTracker) (hashSerial : Int) (isUsed : Bool) : Prop :=
  t.mapPendingSpends.get hashSerial = none ∨ isUsed = true

def Orphaned (N : TrackerNode) (mint : CMintMeta) : Prop :=
  ¬ (mint.nHeight ≠ 0 ∧ (N.ReadCoinMint mint.hashPubcoin).isSome) ∧
    N.mempool (withTxid N mint).txid = false ∧
    ∃ isCoinStake hashBlock,
      mintTransaction N (withTxid N mint).txid = some (isCoinStake, hashBlock) ∧
      N.blockActive hashBlock = some false

/-- Before a serial whose pending spend goes, the others with the same transaction go. -/
def GoInOrder (N : TrackerNode) (t : CzDIVITTracker) : Prop :=
  ∀ hashSerial, Cleared t N hashSerial → ∀ first < hashSerial,
    t.mapPendingSpends.get first = t.mapPendingSpends.get hashSerial →
    0 < first ∧ Cleared t N first

def Safe (s : LastSpends) : TrackerEvent serialOf → Prop
  | .AddDeterministic e _ _ => MayEnter s.tracker e.dMint.hashSerial e.dMint.isUsed
  | .AddZerocoin e _ _ => MayEnter s.tracker e.mint.serialNumber e.mint.isUsed
  | .UpdateZerocoinMint e => MayEnter s.tracker e.mint.serialNumber e.mint.isUsed
  | .UpdateState e => MayEnter s.tracker e.mint.hashSerial e.mint.isUsed
  | .SetPubcoinUsed hashPubcoin txid =>
    ∀ mint, s.tracker.GetMetaFromPubcoin hashPubcoin = some mint →
      (s.tracker.mapPendingSpends.get mint.hashSerial = none ∨
        s.tracker.mapPendingSpends.get mint.hashSerial = some txid) ∧ OneRecord s.tracker mint
  | .ListMints N _ _ fUpdateStatus =>
    fUpdateStatus = true →
      GoInOrder N (s.tracker.addFromDatabase hashStake) ∧
      ∀ mint ∈ (s.tracker.addFromDatabase hashStake).mints, mint.isArchived = false →
        ∀ txid, s.tracker.mapPendingSpends.get mint.hashSerial = some txid →
          N.mempool txid = true → ¬ Orphaned N mint
  | _ => True

/-! ## The places of a mint -/

/-- The serial is the coin's, and it is used if it is spent. -/
def Fits (serialOf : SerialOf) (lastSpend : Int → Option uint256) (hashPubcoin hashSerial : Int)
    (isUsed : Bool) : Prop :=
  hashSerial = serialOf hashPubcoin ∧ (lastSpend hashSerial ≠ none → isUsed = true)

structure Placed (serialOf : SerialOf) (lastSpend : Int → Option uint256) (t : CzDIVITTracker) :
    Prop where
  metas : ∀ hashSerial mint, t.mapSerialHashes.get hashSerial = some mint →
    mint.hashSerial = hashSerial ∧
      Fits serialOf lastSpend mint.hashPubcoin mint.hashSerial mint.isUsed
  deterministic : ∀ hashPubcoin dMint, t.deterministicMints.get hashPubcoin = some dMint →
    Fits serialOf lastSpend hashPubcoin dMint.hashSerial dMint.isUsed
  deterministicOrphan : ∀ hashPubcoin dMint,
    t.deterministicOrphans.get hashPubcoin = some dMint →
    Fits serialOf lastSpend hashPubcoin dMint.hashSerial dMint.isUsed
  zerocoin : ∀ hashPubcoin mint, t.zerocoinMints.get hashPubcoin = some mint →
    Fits serialOf lastSpend hashPubcoin mint.serialNumber mint.isUsed
  zerocoinOrphan : ∀ hashPubcoin mint, t.zerocoinOrphans.get hashPubcoin = some mint →
    Fits serialOf lastSpend hashPubcoin mint.serialNumber mint.isUsed

structure Noted (serialOf : SerialOf) (s : LastSpends) : Prop where
  placed : Placed serialOf s.lastSpend s.tracker
  pending : ∀ hashSerial txid, s.lastSpend hashSerial = some txid →
    s.tracker.mapPendingSpends.get hashSerial = some txid

section
variable {g g' : Int → Option uint256} {t : CzDIVITTracker} {h : Int} {mint : CMintMeta}
  {dMint : CDeterministicMint} {zMint : CZerocoinMint}

variable {isUsed : Bool}

theorem Fits.mono {hashPubcoin hashSerial : Int}
    (hless : ∀ hashSerial, g' hashSerial ≠ none → g hashSerial ≠ none)
    (hfits : Fits serialOf g hashPubcoin hashSerial isUsed) :
    Fits serialOf g' hashPubcoin hashSerial isUsed :=
  ⟨hfits.1, fun hspent => hfits.2 (hless _ hspent)⟩

theorem Placed.mono (hless : ∀ hashSerial, g' hashSerial ≠ none → g hashSerial ≠ none)
    (hp : Placed serialOf g t) : Placed serialOf g' t where
  metas σ m hm := ⟨(hp.metas σ m hm).1, (hp.metas σ m hm).2.mono hless⟩
  deterministic h d hd := (hp.deterministic h d hd).mono hless
  deterministicOrphan h d hd := (hp.deterministicOrphan h d hd).mono hless
  zerocoin h m hm := (hp.zerocoin h m hm).mono hless
  zerocoinOrphan h m hm := (hp.zerocoinOrphan h m hm).mono hless

section
variable (hp : Placed serialOf g t)
include hp

theorem Placed.setMeta (hfits : Fits serialOf g mint.hashPubcoin mint.hashSerial mint.isUsed) :
    Placed serialOf g (t.setMeta mint) where
  metas σ m hm := by
    rw [CzDIVITTracker.setMeta, get_put] at hm
    split_ifs at hm with hσ
    · cases hm
      exact ⟨hσ.symm, hfits⟩
    · exact hp.metas σ m hm
  deterministic := hp.deterministic
  deterministicOrphan := hp.deterministicOrphan
  zerocoin := hp.zerocoin
  zerocoinOrphan := hp.zerocoinOrphan

theorem Placed.putDeterministic (hfits : Fits serialOf g h dMint.hashSerial dMint.isUsed) :
    Placed serialOf g { t with deterministicMints := t.deterministicMints.put h dMint } where
  metas := hp.metas
  deterministic h' d hd := by
    rw [get_put] at hd
    split_ifs at hd with heq
    · cases hd
      rw [heq]
      exact hfits
    · exact hp.deterministic h' d hd
  deterministicOrphan := hp.deterministicOrphan
  zerocoin := hp.zerocoin
  zerocoinOrphan := hp.zerocoinOrphan

theorem Placed.putZerocoin (hfits : Fits serialOf g h zMint.serialNumber zMint.isUsed) :
    Placed serialOf g { t with zerocoinMints := t.zerocoinMints.put h zMint } where
  metas := hp.metas
  deterministic := hp.deterministic
  deterministicOrphan := hp.deterministicOrphan
  zerocoin h' m hm := by
    rw [get_put] at hm
    split_ifs at hm with heq
    · cases hm
      rw [heq]
      exact hfits
    · exact hp.zerocoin h' m hm
  zerocoinOrphan := hp.zerocoinOrphan

end

theorem get_of_erase {β : Type} {m : SortedMap Int β} {h h' : Int} {b : β}
    (hb : (m.erase h).get h' = some b) : m.get h' = some b := by
  rw [get_erase] at hb
  split_ifs at hb
  exact hb

section
variable (hp : Placed serialOf g t)
include hp

theorem Placed.archiveMeta (hashSerial : Int) :
    Placed serialOf g (t.archiveMeta hashSerial) := by
  rw [CzDIVITTracker.archiveMeta]
  cases hget : t.mapSerialHashes.get hashSerial with
  | none => exact hp
  | some mint =>
    obtain ⟨hserial, hfits⟩ := hp.metas hashSerial mint hget
    rw [← hserial]
    exact @Placed.setMeta serialOf g t { mint with isArchived := true } hp hfits

theorem Placed.Archive (mint : CMintMeta) :
    Placed serialOf g (t.Archive mint) := by
  have hp' := hp.archiveMeta mint.hashSerial
  rw [CzDIVITTracker.Archive]
  cases hzero : (t.archiveMeta mint.hashSerial).zerocoinMints.get mint.hashPubcoin with
  | some zMint =>
    refine ⟨hp'.metas, hp'.deterministic, hp'.deterministicOrphan,
      fun h m hm => hp'.zerocoin h m (get_of_erase hm), fun h m hm => ?_⟩
    rw [get_put] at hm
    split_ifs at hm with heq
    · cases hm
      rw [heq]
      exact hp'.zerocoin _ _ hzero
    · exact hp'.zerocoinOrphan h m hm
  | none =>
    cases hdet : (t.archiveMeta mint.hashSerial).deterministicMints.get mint.hashPubcoin with
    | none => exact hp'
    | some dMint =>
      refine ⟨hp'.metas, fun h m hm => hp'.deterministic h m (get_of_erase hm),
        fun h m hm => ?_, hp'.zerocoin, hp'.zerocoinOrphan⟩
      rw [get_put] at hm
      split_ifs at hm with heq
      · cases hm
        rw [heq]
        exact hp'.deterministic _ _ hdet
      · exact hp'.deterministicOrphan h m hm

theorem Placed.AddDeterministic
    (hfits : Fits serialOf g h dMint.hashSerial dMint.isUsed) (isNew isArchived : Bool) :
    Placed serialOf g (t.AddDeterministic h dMint isNew isArchived) := by
  have hmeta := @Placed.setMeta serialOf g t (metaOfDeterministic h dMint isArchived) hp hfits
  rw [CzDIVITTracker.AddDeterministic]
  split_ifs
  · exact hmeta.putDeterministic hfits
  · exact hmeta

theorem Placed.AddZerocoin
    (hfits : Fits serialOf g h zMint.serialNumber zMint.isUsed) (isNew isArchived : Bool) :
    Placed serialOf g (t.AddZerocoin hashStake h zMint isNew isArchived) := by
  have hmeta := @Placed.setMeta serialOf g t (metaOfZerocoin hashStake h zMint isArchived) hp hfits
  rw [CzDIVITTracker.AddZerocoin]
  split_ifs
  · exact hmeta.putZerocoin hfits
  · exact hmeta

theorem Placed.UnarchiveDeterministicMint
    (hfits : Fits serialOf g h dMint.hashSerial dMint.isUsed) :
    Placed serialOf g (t.UnarchiveDeterministicMint h dMint) := by
  have hput := hp.putDeterministic hfits
  exact ⟨hput.metas, hput.deterministic,
    fun h d hd => hput.deterministicOrphan h d (get_of_erase hd), hput.zerocoin,
    hput.zerocoinOrphan⟩

theorem Placed.UnarchiveZerocoinMint (hfits : Fits serialOf g h zMint.serialNumber zMint.isUsed) :
    Placed serialOf g (t.UnarchiveZerocoinMint h zMint) := by
  have hput := hp.putZerocoin hfits
  exact ⟨hput.metas, hput.deterministic, hput.deterministicOrphan, hput.zerocoin,
    fun h m hm => hput.zerocoinOrphan h m (get_of_erase hm)⟩

theorem Placed.UnArchive (h : Int) (isDeterministic : Bool) :
    Placed serialOf g (t.UnArchive hashStake h isDeterministic) := by
  rw [CzDIVITTracker.UnArchive]
  split_ifs
  · cases hdet : t.deterministicOrphans.get h with
    | none => exact hp
    | some dMint =>
      have hfits := hp.deterministicOrphan h dMint hdet
      exact (hp.UnarchiveDeterministicMint hfits).AddDeterministic hfits false false
  · cases hzero : t.zerocoinOrphans.get h with
    | none => exact hp
    | some mint =>
      have hfits := hp.zerocoinOrphan h mint hzero
      exact (hp.UnarchiveZerocoinMint hfits).AddZerocoin hashStake hfits false false

theorem Placed.UpdateZerocoinMint (hfits : Fits serialOf g h zMint.serialNumber zMint.isUsed) :
    Placed serialOf g (t.UpdateZerocoinMint h zMint) := by
  rw [CzDIVITTracker.UpdateZerocoinMint]
  cases hget : t.mapSerialHashes.get zMint.serialNumber with
  | none => exact hp
  | some known =>
    obtain ⟨hserial, hknown, -⟩ := hp.metas _ _ hget
    rw [← hserial]
    refine (@Placed.setMeta serialOf g t { known with
      isUsed := zMint.isUsed
      denom := zMint.denomination
      nHeight := zMint.nHeight } hp ⟨hknown, fun hspent => ?_⟩).putZerocoin hfits
    exact hfits.2 (hserial ▸ hspent)

section
variable (hfits : Fits serialOf g mint.hashPubcoin mint.hashSerial mint.isUsed)
include hfits

theorem Placed.writeDeterministic (hd : dMint.hashSerial = serialOf mint.hashPubcoin) :
    Placed serialOf g (t.writeDeterministic mint dMint) := by
  refine Placed.setMeta (hp.putDeterministic ⟨hd, fun hspent => ?_⟩) hfits
  exact hfits.2 (hfits.1.trans hd.symm ▸ hspent)

theorem Placed.UpdateState :
    Placed serialOf g (t.UpdateState mint) := by
  rw [CzDIVITTracker.UpdateState]
  by_cases hkind : mint.isDeterministic = true
  · rw [if_pos hkind]
    cases hdet : t.deterministicMints.get mint.hashPubcoin with
    | some dMint => exact hp.writeDeterministic hfits (hp.deterministic _ _ hdet).1
    | none =>
      split_ifs
      · exact hp
      · cases horphan : t.deterministicOrphans.get mint.hashPubcoin with
        | none => exact hp
        | some dMint =>
          have hd := hp.deterministicOrphan _ _ horphan
          exact (hp.UnarchiveDeterministicMint hd).writeDeterministic hfits hd.1
  · rw [if_neg hkind]
    cases hzero : t.zerocoinMints.get mint.hashPubcoin with
    | none => exact hp
    | some zMint =>
      have hz := (hp.zerocoin _ _ hzero).1
      refine Placed.setMeta (hp.putZerocoin ⟨hz, fun hspent => ?_⟩) hfits
      exact hfits.2 (hfits.1.trans hz.symm ▸ hspent)

end

theorem Placed.addFromDatabase :
    Placed serialOf g (t.addFromDatabase hashStake) := by
  have hzero : Placed serialOf g (t.zerocoinMints.entries.foldl
      (fun t e => t.AddZerocoin hashStake e.1 e.2 false false) t) := by
    refine @Run.run_inv _ _ _ (fun _ e => Fits serialOf g e.1 e.2.serialNumber e.2.isUsed)
      (Placed serialOf g) ?_ _ _ hp
      (Run.guarded_of_forall fun e he => hp.zerocoin e.1 e.2 (mem_entries_iff.mp he))
    intro t' e ht' he
    exact ht'.AddZerocoin hashStake he false false
  refine @Run.run_inv _ _ _ (fun _ e => Fits serialOf g e.1 e.2.hashSerial e.2.isUsed)
    (Placed serialOf g) ?_ _ _ hzero
    (Run.guarded_of_forall fun e he =>
      hzero.deterministic e.1 e.2 (mem_entries_iff.mp he))
  intro t' e ht' he
  exact ht'.AddDeterministic he false false

end

end

/-! ## The pending spends stay -/

section
variable (t : CzDIVITTracker)

@[simp] theorem pending_AddDeterministic (h : Int) (dMint : CDeterministicMint)
    (isNew isArchived : Bool) :
    (t.AddDeterministic h dMint isNew isArchived).mapPendingSpends = t.mapPendingSpends := by
  rw [CzDIVITTracker.AddDeterministic]
  split_ifs <;> rfl

@[simp] theorem pending_AddZerocoin (h : Int) (mint : CZerocoinMint) (isNew isArchived : Bool) :
    (t.AddZerocoin hashStake h mint isNew isArchived).mapPendingSpends = t.mapPendingSpends := by
  rw [CzDIVITTracker.AddZerocoin]
  split_ifs <;> rfl

@[simp] theorem pending_Archive (mint : CMintMeta) :
    (t.Archive mint).mapPendingSpends = t.mapPendingSpends := by
  have hmeta : (t.archiveMeta mint.hashSerial).mapPendingSpends = t.mapPendingSpends := by
    rw [archiveMeta]
    split <;> rfl
  rw [CzDIVITTracker.Archive]
  split
  · exact hmeta
  · split <;> exact hmeta

@[simp] theorem pending_UnArchive (h : Int) (isDeterministic : Bool) :
    (t.UnArchive hashStake h isDeterministic).mapPendingSpends = t.mapPendingSpends := by
  rw [CzDIVITTracker.UnArchive]
  split
  · split
    · rfl
    · exact pending_AddDeterministic _ _ _ _ _
  · split
    · rfl
    · exact pending_AddZerocoin hashStake _ _ _ _ _

@[simp] theorem pending_UpdateZerocoinMint (h : Int) (mint : CZerocoinMint) :
    (t.UpdateZerocoinMint h mint).mapPendingSpends = t.mapPendingSpends := by
  rw [CzDIVITTracker.UpdateZerocoinMint]
  split <;> rfl

@[simp] theorem pending_UpdateState (mint : CMintMeta) :
    (t.UpdateState mint).mapPendingSpends = t.mapPendingSpends := by
  rw [CzDIVITTracker.UpdateState]
  split
  · split
    · rfl
    · split
      · rfl
      · split <;> rfl
  · split <;> rfl

theorem pending_addFromDatabase :
    (t.addFromDatabase hashStake).mapPendingSpends = t.mapPendingSpends := by
  have hfold : ∀ {ι : Type} (f : CzDIVITTracker → ι → CzDIVITTracker) (l : List ι) t',
      (∀ t e, (f t e).mapPendingSpends = t.mapPendingSpends) →
      (l.foldl f t').mapPendingSpends = t'.mapPendingSpends := by
    intro ι f l
    induction l with
    | nil => exact fun t' _ => rfl
    | cons e l ih => exact fun t' hf => (ih _ hf).trans (hf t' e)
  rw [CzDIVITTracker.addFromDatabase, hfold _ _ _ fun t e => pending_AddDeterministic t _ _ _ _,
    hfold _ _ _ fun t e => pending_AddZerocoin hashStake t _ _ _ _]

variable {hashSerial : Int}

theorem pending_RemovePending {txid : uint256}
    (h : t.mapPendingSpends.findKey (· == txid) ≠ some hashSerial) :
    (t.RemovePending txid).mapPendingSpends.get hashSerial = t.mapPendingSpends.get hashSerial := by
  rw [CzDIVITTracker.RemovePending]
  cases hfind : t.mapPendingSpends.findKey (· == txid) with
  | none => rfl
  | some first =>
    have hne : hashSerial ≠ first := fun heq => h (hfind.trans (congrArg some heq.symm))
    dsimp only
    split_ifs
    · exact get_erase_ne hne
    · rfl

theorem RemovePending_shrinks {txid txid' : uint256}
    (h : (t.RemovePending txid).mapPendingSpends.get hashSerial = some txid') :
    t.mapPendingSpends.get hashSerial = some txid' := by
  rw [CzDIVITTracker.RemovePending] at h
  cases hfind : t.mapPendingSpends.findKey (· == txid) with
  | none =>
    rw [hfind] at h
    exact h
  | some first =>
    rw [hfind] at h
    dsimp only at h
    split_ifs at h
    · exact get_of_erase h
    · exact h

variable {t}

theorem stays_RemovePending {txid : uint256}
    (h : t.mapPendingSpends.get hashSerial ≠ some txid) :
    (t.RemovePending txid).mapPendingSpends.get hashSerial = t.mapPendingSpends.get hashSerial := by
  refine pending_RemovePending t fun hfind => ?_
  obtain ⟨txid', hget, htxid⟩ := findKey_some hfind
  exact h (hget.trans (congrArg some (beq_iff_eq.mp htxid)))

variable {g : Int → Option uint256}

theorem Placed.of_pending (hp : Placed serialOf g t)
    (pending : SortedMap Int uint256) :
    Placed serialOf g { t with mapPendingSpends := pending } :=
  ⟨hp.metas, hp.deterministic, hp.deterministicOrphan, hp.zerocoin, hp.zerocoinOrphan⟩

theorem Placed.RemovePending (hp : Placed serialOf g t)
    (txid : uint256) : Placed serialOf g (t.RemovePending txid) := by
  rw [CzDIVITTracker.RemovePending]
  cases t.mapPendingSpends.findKey (· == txid) with
  | none => exact hp
  | some first =>
    dsimp only
    split_ifs
    · exact hp.of_pending _
    · exact hp

end

/-! ## A spend is recorded, or taken back -/

section
variable {g : Int → Option uint256} {t : CzDIVITTracker} {mint : CMintMeta} {h : Int}
  {txid : uint256}

theorem meta_of_pubcoin (hp : Placed serialOf g t) (hget : t.GetMetaFromPubcoin h = some mint) :
    mint.hashPubcoin = h ∧ t.mapSerialHashes.get mint.hashSerial = some mint ∧
      mint.hashSerial = serialOf h := by
  have hfound := @List.find?_some _ _ _ _ hget
  have hpub : mint.hashPubcoin = h := beq_iff_eq.mp hfound
  obtain ⟨⟨σ, m⟩, hmem, rfl⟩ := mem_map.mp (mem_of_find?_eq_some hget)
  have hat := mem_entries_iff.mp hmem
  obtain ⟨rfl, hfits⟩ := hp.metas σ m hat
  exact ⟨hpub, hat, hpub ▸ hfits.1⟩

/-- All places of the coin are used. -/
structure UsedAt (serialOf : SerialOf) (t : CzDIVITTracker) (h : Int) : Prop where
  metas : ∀ mint, t.mapSerialHashes.get (serialOf h) = some mint → mint.isUsed = true
  deterministic : ∀ dMint, t.deterministicMints.get h = some dMint → dMint.isUsed = true
  deterministicOrphan : ∀ dMint, t.deterministicOrphans.get h = some dMint → dMint.isUsed = true
  zerocoin : ∀ zMint, t.zerocoinMints.get h = some zMint → zMint.isUsed = true
  zerocoinOrphan : ∀ zMint, t.zerocoinOrphans.get h = some zMint → zMint.isUsed = true

theorem Fits.record {h' hashSerial : Int}
    (hfits : Fits serialOf g h' hashSerial isUsed) (hused : h' = h → isUsed = true) :
    Fits serialOf (Function.update g (serialOf h) (some txid)) h' hashSerial isUsed := by
  refine ⟨hfits.1, fun hspent => ?_⟩
  by_cases hh : h' = h
  · exact hused hh
  · have hne : hashSerial ≠ serialOf h :=
      fun heq => hh (serialOf.injective (hfits.1.symm.trans heq))
    rw [update_of_ne hne] at hspent
    exact hfits.2 hspent

theorem Placed.record (hp : Placed serialOf g t) (hused : UsedAt serialOf t h) :
    Placed serialOf (Function.update g (serialOf h) (some txid)) t where
  metas σ m hm := by
    obtain ⟨hσ, hfits⟩ := hp.metas σ m hm
    refine ⟨hσ, hfits.record fun hh => hused.metas m ?_⟩
    rw [← hh, ← hfits.1, hσ]
    exact hm
  deterministic h' d hd :=
    (hp.deterministic h' d hd).record fun hh => hused.deterministic d (hh ▸ hd)
  deterministicOrphan h' d hd :=
    (hp.deterministicOrphan h' d hd).record fun hh => hused.deterministicOrphan d (hh ▸ hd)
  zerocoin h' m hm := (hp.zerocoin h' m hm).record fun hh => hused.zerocoin m (hh ▸ hm)
  zerocoinOrphan h' m hm :=
    (hp.zerocoinOrphan h' m hm).record fun hh => hused.zerocoinOrphan m (hh ▸ hm)

theorem usedAt_UpdateState (hone : OneRecord t mint) (hserial : mint.hashSerial = serialOf h)
    (hpub : mint.hashPubcoin = h) :
    UsedAt serialOf (t.UpdateState { mint with isUsed := true }) h := by
  obtain ⟨hdo, hzo, hkind⟩ := hone
  rw [hpub] at hdo hzo hkind
  rw [CzDIVITTracker.UpdateState]
  by_cases hdet : mint.isDeterministic = true
  · rw [if_pos hdet] at hkind ⊢
    obtain ⟨hd, hz⟩ := hkind
    rw [hpub]
    cases hget : t.deterministicMints.get h with
    | none => exact absurd hget hd
    | some dMint =>
      refine ⟨fun m hm => ?_, fun d hd' => ?_, fun d hd' => ?_, fun m hm => ?_, fun m hm => ?_⟩
      · rw [← hserial] at hm
        exact (some.inj (get_put_self.symm.trans hm)) ▸ rfl
      · rw [← hpub] at hd'
        exact (some.inj (get_put_self.symm.trans hd')) ▸ rfl
      · exact absurd (hdo.symm.trans hd') (by simp)
      · exact absurd (hz.symm.trans hm) (by simp)
      · exact absurd (hzo.symm.trans hm) (by simp)
  · rw [if_neg hdet] at hkind ⊢
    obtain ⟨hz, hd⟩ := hkind
    rw [hpub]
    cases hget : t.zerocoinMints.get h with
    | none => exact absurd hget hz
    | some zMint =>
      refine ⟨fun m hm => ?_, fun d hd' => ?_, fun d hd' => ?_, fun m hm => ?_, fun m hm => ?_⟩
      · rw [← hserial] at hm
        exact (some.inj (get_put_self.symm.trans hm)) ▸ rfl
      · exact absurd (hd.symm.trans hd') (by simp)
      · exact absurd (hdo.symm.trans hd') (by simp)
      · rw [← hpub] at hm
        exact (some.inj (get_put_self.symm.trans hm)) ▸ rfl
      · exact absurd (hzo.symm.trans hm) (by simp)

end

/-! ## The status of a mint -/

section
variable {N : TrackerNode} {t : CzDIVITTracker} {mint : CMintMeta}

theorem withTxid_same : (withTxid N mint).hashSerial = mint.hashSerial ∧
    (withTxid N mint).hashPubcoin = mint.hashPubcoin := by
  rw [withTxid]
  split_ifs <;> exact ⟨rfl, rfl⟩

theorem transactionStatus_same (isUsed : Bool) :
    (transactionStatus N mint isUsed).1.hashSerial = mint.hashSerial ∧
      (transactionStatus N mint isUsed).1.hashPubcoin = mint.hashPubcoin := by
  rw [transactionStatus]
  cases N.mempool mint.txid with
  | true => exact ⟨rfl, rfl⟩
  | false =>
    rw [if_neg Bool.false_ne_true]
    cases mintTransaction N mint.txid with
    | none => exact ⟨rfl, rfl⟩
    | some found =>
      dsimp only
      split_ifs <;> exact ⟨rfl, rfl⟩

theorem mintStatus_same (isUsed : Bool) :
    (mintStatus N mint isUsed).1.hashSerial = mint.hashSerial ∧
      (mintStatus N mint isUsed).1.hashPubcoin = mint.hashPubcoin := by
  rw [mintStatus]
  split_ifs
  · exact ⟨rfl, rfl⟩
  · exact ⟨rfl, rfl⟩
  · obtain ⟨hserial, hpub⟩ := @transactionStatus_same N (withTxid N mint) isUsed
    exact ⟨hserial.trans withTxid_same.1, hpub.trans withTxid_same.2⟩

theorem withTxid_isArchived : (withTxid N mint).isArchived = mint.isArchived := by
  rw [withTxid]
  split_ifs <;> rfl

theorem transactionStatus_kept
    (h : (transactionStatus N mint isUsed).2 = false) :
    (transactionStatus N mint isUsed).1.isArchived = mint.isArchived := by
  rw [transactionStatus] at h ⊢
  cases hpool : N.mempool mint.txid with
  | true =>
    rw [hpool, if_pos rfl] at h
    exact nomatch h
  | false =>
    rw [hpool, if_neg Bool.false_ne_true] at h
    rw [if_neg Bool.false_ne_true]
    cases hfound : mintTransaction N mint.txid with
    | none =>
      rw [hfound] at h
      exact nomatch h
    | some found =>
      rw [hfound] at h
      dsimp only at h ⊢
      split_ifs at h ⊢
      rfl

theorem mintStatus_kept (h : (mintStatus N mint isUsed).2 = false) :
    (mintStatus N mint isUsed).1.isArchived = mint.isArchived := by
  rw [mintStatus] at h ⊢
  split_ifs at h ⊢
  · rfl
  · exact (transactionStatus_kept h).trans withTxid_isArchived

theorem withTxid_isUsed : (withTxid N mint).isUsed = mint.isUsed := by
  rw [withTxid]
  split_ifs <;> rfl

theorem mintStatus_used (horphaned : ¬ Orphaned N mint) (hused : mint.isUsed = true) :
    (mintStatus N mint true).1.isArchived = true ∨ (mintStatus N mint true).1.isUsed = true := by
  rw [mintStatus]
  split_ifs with hkept hlost
  · exact .inr hused
  · exact .inl rfl
  · have hnew : ¬ (mint.nHeight ≠ 0 ∧ (N.ReadCoinMint mint.hashPubcoin).isSome) :=
      fun h => hkept ⟨h.1, h.2, hused.symm⟩
    rw [transactionStatus]
    cases hpool : N.mempool (withTxid N mint).txid with
    | true => exact .inr (withTxid_isUsed.trans hused)
    | false =>
      rw [if_neg Bool.false_ne_true]
      cases hfound : mintTransaction N (withTxid N mint).txid with
      | none => exact .inl rfl
      | some found =>
        dsimp only
        rw [if_neg fun hoff => horphaned ⟨hnew, hpool, found.1, found.2, hfound, hoff⟩]
        split_ifs
        · exact .inr rfl
        · exact .inr (withTxid_isUsed.trans hused)

theorem pendingSpend_used {txid : uint256}
    (hget : t.mapPendingSpends.get mint.hashSerial = some txid) (hpool : N.mempool txid = true) :
    ((t.pendingSpend N mint).2 || isConfirmedSpend N mint) = true := by
  rw [pendingSpend, hget]
  dsimp only
  cases hconfirmed : isConfirmedSpend N mint with
  | true => exact or_true _
  | false =>
    rw [hpool, if_neg (by decide)]
    rfl

theorem pendingSpend_stays (hfirst : ∀ txid, t.mapPendingSpends.get mint.hashSerial = some txid →
      Gone N mint.hashSerial txid = true →
      t.mapPendingSpends.findKey (· == txid) = some mint.hashSerial)
    (hstays : mint.hashSerial = hashSerial → ∀ txid,
      t.mapPendingSpends.get hashSerial = some txid → Gone N hashSerial txid = false) :
    (t.pendingSpend N mint).1.mapPendingSpends.get hashSerial =
      t.mapPendingSpends.get hashSerial := by
  rw [pendingSpend]
  cases hget : t.mapPendingSpends.get mint.hashSerial with
  | none => rfl
  | some txid =>
    dsimp only
    split_ifs with hgone
    · refine pending_RemovePending t fun hfind => ?_
      have hself := (hfirst txid hget hgone).symm.trans hfind
      cases hself
      have hnot := hstays rfl txid hget
      exact absurd (hnot.symm.trans hgone) (by decide)
    · rfl

theorem pendingSpend_shrinks {txid : uint256}
    (h : (t.pendingSpend N mint).1.mapPendingSpends.get hashSerial = some txid) :
    t.mapPendingSpends.get hashSerial = some txid := by
  rw [pendingSpend] at h
  cases hget : t.mapPendingSpends.get mint.hashSerial with
  | none =>
    rw [hget] at h
    exact h
  | some txid' =>
    rw [hget] at h
    dsimp only at h
    split_ifs at h
    · exact RemovePending_shrinks t h
    · exact h

variable {g : Int → Option uint256}

theorem Placed.pendingSpend (hp : Placed serialOf g t) :
    Placed serialOf g (t.pendingSpend N mint).1 := by
  rw [CzDIVITTracker.pendingSpend]
  cases t.mapPendingSpends.get mint.hashSerial with
  | none => exact hp
  | some txid =>
    dsimp only
    split_ifs
    · exact hp.RemovePending txid
    · exact hp

theorem pending_UpdateStatusInternal :
    (t.UpdateStatusInternal N mint).1.mapPendingSpends =
      (t.pendingSpend N mint).1.mapPendingSpends := by
  rw [UpdateStatusInternal]
  split_ifs
  · exact pending_Archive _ _
  · rfl

theorem Placed.UpdateStatusInternal (hp : Placed serialOf g t) :
    Placed serialOf g (t.UpdateStatusInternal N mint).1 := by
  rw [CzDIVITTracker.UpdateStatusInternal]
  split_ifs
  · exact hp.pendingSpend.Archive _
  · exact hp.pendingSpend

end

/-! ## The loop of `ListMints` -/

section
variable {N : TrackerNode} {fUnusedOnly fMatureOnly : Bool} {l : MintList} {mint : CMintMeta}

theorem insert_same : (l.insert N fUnusedOnly fMatureOnly mint).tracker = l.tracker ∧
    (l.insert N fUnusedOnly fMatureOnly mint).vOverWrite = l.vOverWrite := by
  rw [MintList.insert]
  split_ifs <;> exact ⟨rfl, rfl⟩

theorem mem_insert {m : CMintMeta}
    (h : m ∈ (l.insert N fUnusedOnly fMatureOnly mint).setMints) : m ∈ l.setMints ∨ m = mint := by
  rw [MintList.insert] at h
  split_ifs at h
  · exact .inl h
  · exact .inl h
  · exact .inl h
  · exact (mem_append.mp h).imp id mem_singleton.mp

def visit (N : TrackerNode) (t : CzDIVITTracker) (mint : CMintMeta) : CzDIVITTracker :=
  if mint.isArchived then t else (t.UpdateStatusInternal N mint).1

/-- A pending spend that is cleared is found first by its transaction. -/
def FoundFirst (N : TrackerNode) (t : CzDIVITTracker) (mint : CMintMeta) : Prop :=
  mint.isArchived = false → ∀ txid, t.mapPendingSpends.get mint.hashSerial = some txid →
    Gone N mint.hashSerial txid = true →
    t.mapPendingSpends.findKey (· == txid) = some mint.hashSerial

variable {t : CzDIVITTracker}

theorem visit_shrinks {txid : uint256}
    (h : (visit N t mint).mapPendingSpends.get hashSerial = some txid) :
    t.mapPendingSpends.get hashSerial = some txid := by
  rw [visit] at h
  split_ifs at h
  · exact h
  · rw [pending_UpdateStatusInternal] at h
    exact pendingSpend_shrinks h

theorem visit_clears (hfirst : FoundFirst N t mint)
    (hopen : mint.isArchived = false) (hpos : 0 < mint.hashSerial) {txid : uint256}
    (h : (visit N t mint).mapPendingSpends.get mint.hashSerial = some txid) :
    Gone N mint.hashSerial txid = false := by
  have hget := visit_shrinks h
  refine Bool.eq_false_iff.mpr fun hgone => ?_
  have hclear : (!N.mempool txid || isConfirmedSpend N mint) = true := hgone
  rw [visit, hopen, if_neg Bool.false_ne_true, pending_UpdateStatusInternal, pendingSpend, hget]
    at h
  dsimp only at h
  rw [if_pos hclear, CzDIVITTracker.RemovePending, hfirst hopen txid hget hgone] at h
  dsimp only at h
  rw [if_pos hpos, get_erase_self] at h
  exact nomatch h

theorem guarded_of_inOrder {t₀ : CzDIVITTracker}
    (hserial : ∀ hashSerial mint, t₀.mapSerialHashes.get hashSerial = some mint →
      mint.hashSerial = hashSerial) (horder : GoInOrder N t₀) :
    Run.Guarded (visit N) (FoundFirst N) t₀ t₀.mints := by
  have hsorted : t₀.mints.Pairwise fun a b => a.hashSerial < b.hashSerial := by
    refine pairwise_map.mpr (t₀.mapSerialHashes.sorted.imp_of_mem fun ha hb hless => ?_)
    rw [hserial _ _ (mem_entries_iff.mp ha), hserial _ _ (mem_entries_iff.mp hb)]
    exact hless
  have hloop : ∀ (rest before : List CMintMeta) (t : CzDIVITTracker), t₀.mints = before ++ rest →
      (∀ hashSerial txid, t.mapPendingSpends.get hashSerial = some txid →
        t₀.mapPendingSpends.get hashSerial = some txid) →
      (∀ m ∈ before, m.isArchived = false → 0 < m.hashSerial → ∀ txid,
        t.mapPendingSpends.get m.hashSerial = some txid → Gone N m.hashSerial txid = false) →
      Run.Guarded (visit N) (FoundFirst N) t rest := by
    intro rest
    induction rest with
    | nil => exact fun _ _ _ _ _ => trivial
    | cons m rest ih =>
      intro before t hmints hshrinks hbefore
      have hfirst : FoundFirst N t m := by
        intro hopen txid hget hgone
        refine findKey_eq_some hget (beq_self_eq_true txid) ?_
        intro first hless txid' hget'
        refine beq_eq_false_iff_ne.mpr ?_
        rintro rfl
        have hm : m ∈ t₀.mints := hmints ▸ mem_append_right before mem_cons_self
        have hcleared : Cleared t₀ N m.hashSerial :=
          ⟨m, hm, hopen, rfl, txid', hshrinks _ _ hget, hgone⟩
        obtain ⟨hpos, m', hm', hopen', rfl, txid, hget'', hgone'⟩ := horder _ hcleared first hless
          ((hshrinks _ _ hget').trans (hshrinks _ _ hget).symm)
        obtain rfl := some.inj ((hshrinks _ _ hget').symm.trans hget'')
        rw [hmints] at hm' hsorted
        rcases mem_append.mp hm' with hin | hin
        · cases (hbefore m' hin hopen' hpos _ hget').symm.trans hgone'
        · rcases mem_cons.mp hin with rfl | hlater
          · exact lt_irrefl _ hless
          · have hmore :=
              (pairwise_cons.mp (pairwise_append.mp hsorted).2.1).1 m' hlater
            exact lt_asymm hless hmore
      have happend : t₀.mints = (before ++ [m]) ++ rest := by
        rw [hmints, append_assoc]
        rfl
      refine ⟨hfirst, ih (before ++ [m]) (visit N t m) happend
        (fun _ _ hget => hshrinks _ _ (visit_shrinks hget)) ?_⟩
      intro m' hm' hopen' hpos txid hget
      rcases mem_append.mp hm' with hin | hself
      · exact hbefore m' hin hopen' hpos txid (visit_shrinks hget)
      · obtain rfl := mem_singleton.mp hself
        exact visit_clears hfirst hopen' hpos hget
  exact hloop t₀.mints [] t₀ rfl (fun _ _ hget => hget) (by simp)

variable {s : LastSpends} {t₀ : CzDIVITTracker}

/-- What the loop keeps, from the tracker `t₀` on. -/
structure Listing (serialOf : SerialOf) (s : LastSpends) (N : TrackerNode) (t₀ : CzDIVITTracker)
    (l : MintList) : Prop where
  placed : Placed serialOf (s.forget (Gone N)) l.tracker
  stays : Stays t₀ l.tracker fun hashSerial => ¬ Cleared t₀ N hashSerial
  shrinks : ∀ hashSerial txid, l.tracker.mapPendingSpends.get hashSerial = some txid →
    t₀.mapPendingSpends.get hashSerial = some txid
  written : ∀ m ∈ l.vOverWrite,
    Fits serialOf (s.forget (Gone N)) m.hashPubcoin m.hashSerial m.isUsed
  right : s.NoneUnused N l.setMints

variable {gone : Int → uint256 → Bool}

theorem forget_eq_some {txid : uint256} :
    s.forget gone hashSerial = some txid ↔
      s.lastSpend hashSerial = some txid ∧ gone hashSerial txid = false := by
  rw [forget, filter_eq_some_iff, not_eq_true']

theorem forget_le (hashSerial : Int)
    (h : s.forget gone hashSerial ≠ none) : s.lastSpend hashSerial ≠ none := by
  obtain ⟨txid, htxid⟩ := ne_none_iff_exists'.mp h
  rw [(forget_eq_some.mp htxid).1]
  exact some_ne_none txid

theorem Listing.used (hl : Listing serialOf s N t₀ l)
    (hpending : ∀ hashSerial txid, s.lastSpend hashSerial = some txid →
      t₀.mapPendingSpends.get hashSerial = some txid)
    (hfits : Fits serialOf s.lastSpend mint.hashPubcoin mint.hashSerial mint.isUsed)
    (horphaned : ∀ txid, t₀.mapPendingSpends.get mint.hashSerial = some txid →
      N.mempool txid = true → ¬ Orphaned N mint) {txid : uint256}
    (hlast : s.lastSpend mint.hashSerial = some txid) (hpool : N.mempool txid = true) :
    (l.tracker.UpdateStatusInternal N mint).2.1.isArchived = true ∨
      (l.tracker.UpdateStatusInternal N mint).2.1.isUsed = true := by
  have hnoted := hpending _ _ hlast
  have hused : ((l.tracker.pendingSpend N mint).2 || isConfirmedSpend N mint) = true := by
    cases hconfirmed : isConfirmedSpend N mint with
    | true => exact or_true _
    | false =>
      have hgone : Gone N mint.hashSerial txid = false := by
        rw [Gone, hpool]
        exact hconfirmed
      have hnot : ¬ Cleared t₀ N mint.hashSerial := by
        rintro ⟨-, -, -, -, txid', hget, hgone'⟩
        obtain rfl := some.inj (hnoted.symm.trans hget)
        exact absurd (hgone.symm.trans hgone') (by decide)
      have hget := (hl.stays _ hnot).trans hnoted
      rw [← hconfirmed]
      exact pendingSpend_used hget hpool
  have hstatus := mintStatus_used (horphaned txid hnoted hpool)
    (hfits.2 (hlast ▸ some_ne_none txid))
  rw [UpdateStatusInternal, hused]
  exact hstatus

/-- **One mint of the loop.** -/
theorem Listing.listMint (hl : Listing serialOf s N t₀ l) (ht₀ : Placed serialOf s.lastSpend t₀)
    (hpending : ∀ hashSerial txid, s.lastSpend hashSerial = some txid →
      t₀.mapPendingSpends.get hashSerial = some txid)
    (hmem : mint ∈ t₀.mints) (hfirst : FoundFirst N l.tracker mint)
    (horphaned : mint.isArchived = false → ∀ txid,
      t₀.mapPendingSpends.get mint.hashSerial = some txid → N.mempool txid = true →
      ¬ Orphaned N mint) :
    Listing serialOf s N t₀ (listMint N fUnusedOnly fMatureOnly true l mint) ∧
      (listMint N fUnusedOnly fMatureOnly true l mint).tracker = visit N l.tracker mint := by
  rw [CzDIVITTracker.listMint, visit]
  by_cases harchived : mint.isArchived = true
  · rw [if_pos harchived, if_pos harchived]
    exact ⟨hl, rfl⟩
  have hopen : mint.isArchived = false := eq_false_iff.mpr harchived
  rw [if_neg harchived, if_neg harchived, if_neg (by decide)]
  obtain ⟨⟨σ, m⟩, hentry, rfl⟩ := mem_map.mp hmem
  have hfits := (ht₀.metas σ m (mem_entries_iff.mp hentry)).2
  have hused := fun txid => @Listing.used serialOf N l m s t₀ hl hpending hfits
    (horphaned hopen) txid
  obtain ⟨hserial, hpub⟩ :=
    @mintStatus_same N m ((l.tracker.pendingSpend N m).2 || isConfirmedSpend N m)
  have hplaced := @Placed.UpdateStatusInternal serialOf N l.tracker m _ hl.placed
  have hpend := @pending_UpdateStatusInternal N l.tracker m
  have hstays : Stays t₀ (l.tracker.UpdateStatusInternal N m).1
      fun hashSerial => ¬ Cleared t₀ N hashSerial := by
    intro hashSerial hnot
    rw [hpend, ← hl.stays hashSerial hnot]
    refine pendingSpend_stays (hfirst hopen) ?_
    rintro rfl txid hget
    refine eq_false_iff.mpr fun hgone => hnot ?_
    exact ⟨m, hmem, hopen, rfl, txid, hl.shrinks _ _ hget, hgone⟩
  have hshrinks : ∀ hashSerial txid,
      (l.tracker.UpdateStatusInternal N m).1.mapPendingSpends.get hashSerial = some txid →
      t₀.mapPendingSpends.get hashSerial = some txid := by
    intro hashSerial txid hget
    rw [hpend] at hget
    exact hl.shrinks _ _ (pendingSpend_shrinks hget)
  have hserial' : (l.tracker.UpdateStatusInternal N m).2.1.hashSerial = m.hashSerial := hserial
  have hpub' : (l.tracker.UpdateStatusInternal N m).2.1.hashPubcoin = m.hashPubcoin := hpub
  rcases hstatus : l.tracker.UpdateStatusInternal N m with ⟨tracker, m', updated⟩
  rw [hstatus] at hused hplaced hstays hshrinks hserial' hpub'
  have hright : m'.isArchived = false → ∀ l' : MintList, l'.setMints = l.setMints →
      s.NoneUnused N (l'.insert N fUnusedOnly fMatureOnly m').setMints := by
    intro hopen' l' hl' m'' hmem'' hunused txid hlast
    rcases mem_insert hmem'' with hin | rfl
    · exact hl.right m'' (hl' ▸ hin) hunused txid hlast
    · refine eq_false_iff.mpr fun hpool => ?_
      rw [hserial'] at hlast
      rcases hused txid hlast hpool with hyes | hyes
      · exact absurd (hopen'.symm.trans hyes) (by decide)
      · exact absurd (hunused.symm.trans hyes) (by decide)
  have hnew : m'.isArchived = false →
      Fits serialOf (s.forget (Gone N)) m'.hashPubcoin m'.hashSerial m'.isUsed := by
    intro hopen'
    rw [hserial', hpub']
    refine ⟨hfits.1, fun hspent => ?_⟩
    obtain ⟨txid, hlast⟩ := ne_none_iff_exists'.mp hspent
    obtain ⟨hlast, hgone⟩ := forget_eq_some.mp hlast
    have hpool : N.mempool txid = true := by
      rw [Gone, or_eq_false_iff] at hgone
      simpa using hgone.1
    rcases hused txid hlast hpool with hyes | hyes
    · exact absurd (hopen'.symm.trans hyes) (by decide)
    · exact hyes
  cases updated with
  | true =>
    dsimp only
    split_ifs with hnow
    · exact ⟨⟨hplaced, hstays, hshrinks, hl.written, hl.right⟩, rfl⟩
    · have hopen' := eq_false_iff.mpr hnow
      obtain ⟨htracker, hover⟩ := @insert_same N fUnusedOnly fMatureOnly
        { l with tracker := tracker, vOverWrite := l.vOverWrite ++ [m'] } m'
      refine ⟨⟨htracker ▸ hplaced, htracker ▸ hstays, htracker ▸ hshrinks, ?_,
        hright hopen' _ rfl⟩, htracker⟩
      rw [hover]
      intro m'' hmem''
      rcases mem_append.mp hmem'' with hin | hself
      · exact hl.written m'' hin
      · exact mem_singleton.mp hself ▸ hnew hopen'
  | false =>
    have hkept : m'.isArchived = m.isArchived := by
      have hsame : (mintStatus N m ((l.tracker.pendingSpend N m).2 ||
          isConfirmedSpend N m)) = (m', false) := congrArg Prod.snd hstatus
      have := @mintStatus_kept N m ((l.tracker.pendingSpend N m).2 || isConfirmedSpend N m)
        (congrArg Prod.snd hsame)
      rw [hsame] at this
      exact this
    have hopen' := hkept.trans hopen
    obtain ⟨htracker, hover⟩ := @insert_same N fUnusedOnly fMatureOnly
      { l with tracker := tracker } m'
    refine ⟨⟨htracker ▸ hplaced, htracker ▸ hstays, htracker ▸ hshrinks, ?_,
      hright hopen' _ rfl⟩, htracker⟩
    rw [hover]
    exact hl.written

/-- **The loop.** -/
theorem Listing.loop (ht₀ : Placed serialOf s.lastSpend t₀)
    (hpending : ∀ hashSerial txid, s.lastSpend hashSerial = some txid →
      t₀.mapPendingSpends.get hashSerial = some txid)
    (horphaned : ∀ mint ∈ t₀.mints, mint.isArchived = false → ∀ txid,
      t₀.mapPendingSpends.get mint.hashSerial = some txid → N.mempool txid = true →
      ¬ Orphaned N mint) {mints : List CMintMeta} (hmem : ∀ mint ∈ mints, mint ∈ t₀.mints)
    (hl : Listing serialOf s N t₀ l)
    (hfirst : Run.Guarded (visit N) (FoundFirst N) l.tracker mints) :
    Listing serialOf s N t₀
      (mints.foldl (CzDIVITTracker.listMint N fUnusedOnly fMatureOnly true) l) := by
  induction mints generalizing l with
  | nil => exact hl
  | cons mint mints ih =>
    have hmint := hmem mint mem_cons_self
    obtain ⟨hnow, hlater⟩ := hfirst
    obtain ⟨hl', hvisit⟩ := @Listing.listMint serialOf N fUnusedOnly fMatureOnly l mint s t₀ hl
      ht₀ hpending hmint hnow (horphaned mint hmint)
    rw [← hvisit] at hlater
    exact ih (fun m hm => hmem m (mem_cons_of_mem mint hm)) hl' hlater

theorem Placed.overWrite {g : Int → Option uint256} {mints : List CMintMeta}
    (hp : Placed serialOf g t)
    (hfits : ∀ m ∈ mints, Fits serialOf g m.hashPubcoin m.hashSerial m.isUsed) :
    Placed serialOf g (mints.foldl CzDIVITTracker.UpdateState t) ∧
      (mints.foldl CzDIVITTracker.UpdateState t).mapPendingSpends = t.mapPendingSpends := by
  refine @Run.run_inv _ _ _
    (fun _ m => Fits serialOf g m.hashPubcoin m.hashSerial m.isUsed)
    (fun t' => Placed serialOf g t' ∧ t'.mapPendingSpends = t.mapPendingSpends) ?_ _ _ ⟨hp, rfl⟩
    (Run.guarded_of_forall hfits)
  rintro t' m ⟨hp', hsame⟩ hm
  exact ⟨hp'.UpdateState hm, (pending_UpdateState t' m).trans hsame⟩

theorem listed_of_noUpdate :
    (t.ListMints N hashStake fUnusedOnly fMatureOnly false).1 = t ∧
      ∀ m ∈ (t.ListMints N hashStake fUnusedOnly fMatureOnly false).2, m ∈ t.mints := by
  have hloop : ∀ mints : List CMintMeta, (∀ m ∈ mints, m ∈ t.mints) →
      let l := mints.foldl (CzDIVITTracker.listMint N fUnusedOnly fMatureOnly false) ⟨t, [], []⟩
      l.tracker = t ∧ l.vOverWrite = [] ∧ ∀ m ∈ l.setMints, m ∈ t.mints := by
    intro mints hmints
    refine @Run.run_inv _ _ _ (fun _ m => m ∈ t.mints)
      (fun l : MintList => l.tracker = t ∧ l.vOverWrite = [] ∧ ∀ m ∈ l.setMints, m ∈ t.mints)
      ?_ _ _ ⟨rfl, rfl, nofun⟩ (Run.guarded_of_forall hmints)
    rintro l m ⟨htracker, hover, hset⟩ hm
    rw [CzDIVITTracker.listMint]
    split_ifs
    · exact ⟨htracker, hover, hset⟩
    · obtain ⟨htracker', hover'⟩ := @insert_same N fUnusedOnly fMatureOnly l m
      refine ⟨htracker'.trans htracker, hover'.trans hover, fun m' hm' => ?_⟩
      rcases mem_insert hm' with hin | rfl
      · exact hset m' hin
      · exact hm
    · contradiction
  obtain ⟨htracker, hover, hset⟩ := hloop t.mints fun _ hm => hm
  refine ⟨?_, hset⟩
  show List.foldl CzDIVITTracker.UpdateState _ (MintList.vOverWrite _) = t
  rw [CzDIVITTracker.toList, if_neg Bool.false_ne_true, hover]
  exact htracker

end

/-! ## A step -/

section
variable {s : LastSpends} {N : TrackerNode} {fUnusedOnly fMatureOnly : Bool}

section
variable (hs : Noted serialOf s)
include hs

theorem Noted.enter {hashPubcoin hashSerial : Int}
    (hpaired : hashSerial = serialOf hashPubcoin) (henter : MayEnter s.tracker hashSerial isUsed) :
    Fits serialOf s.lastSpend hashPubcoin hashSerial isUsed := by
  refine ⟨hpaired, fun hspent => henter.resolve_left fun hnone => ?_⟩
  obtain ⟨txid, hlast⟩ := ne_none_iff_exists'.mp hspent
  exact nomatch hnone.symm.trans (hs.pending _ _ hlast)

theorem Noted.noneUnused {listed : List CMintMeta}
    (hlisted : ∀ m ∈ listed, m ∈ s.tracker.mints) : s.NoneUnused N listed := by
  intro m hm hunused txid hlast
  obtain ⟨⟨σ, mint⟩, hentry, rfl⟩ := mem_map.mp (hlisted m hm)
  obtain ⟨-, -, hused⟩ := hs.placed.metas σ mint (mem_entries_iff.mp hentry)
  have hspent : s.lastSpend mint.hashSerial ≠ none := by
    rw [hlast]
    exact some_ne_none txid
  cases hunused.symm.trans (hused hspent)

theorem Noted.update (hsafe : Safe hashStake s
      (.ListMints N fUnusedOnly fMatureOnly true : TrackerEvent serialOf)) :
    let t₀ := s.tracker.addFromDatabase hashStake
    let listed := s.tracker.ListMints N hashStake fUnusedOnly fMatureOnly true
    Placed serialOf (s.forget (Gone N)) listed.1 ∧
      (Stays t₀ listed.1 fun hashSerial => ¬ Cleared t₀ N hashSerial) ∧
      s.NoneUnused N listed.2 := by
  intro t₀ listed
  obtain ⟨horder, horphaned⟩ := hsafe rfl
  have ht₀ : Placed serialOf s.lastSpend t₀ := hs.placed.addFromDatabase hashStake
  have hsame : t₀.mapPendingSpends = s.tracker.mapPendingSpends :=
    pending_addFromDatabase hashStake s.tracker
  have hl : Listing serialOf s N t₀ ⟨t₀, [], []⟩ :=
    ⟨ht₀.mono forget_le, fun _ _ => rfl, fun _ _ hget => hget, nofun, nofun⟩
  have hend := @Listing.loop serialOf N fUnusedOnly fMatureOnly _ s t₀ ht₀
    (hsame ▸ hs.pending) (hsame ▸ horphaned) t₀.mints (fun _ hm => hm) hl
    (guarded_of_inOrder (fun σ m hm => (ht₀.metas σ m hm).1) horder)
  obtain ⟨hplaced, hpending⟩ := hend.placed.overWrite hend.written
  refine ⟨hplaced, fun hashSerial hnot => ?_, hend.right⟩
  rw [← hend.stays hashSerial hnot]
  exact congrArg (get · hashSerial) hpending

theorem Noted.setUsed (hashPubcoin : Int) (txid : uint256)
    (hsafe : Safe hashStake s (.SetPubcoinUsed hashPubcoin txid : TrackerEvent serialOf)) :
    Noted serialOf
      (LastSpends.step hashStake s (.SetPubcoinUsed hashPubcoin txid : TrackerEvent serialOf)) := by
  rw [LastSpends.step, CzDIVITTracker.SetPubcoinUsed]
  cases hget : s.tracker.GetMetaFromPubcoin hashPubcoin with
  | none => exact hs
  | some mint =>
    obtain ⟨hnone, hone⟩ := hsafe mint hget
    obtain ⟨hpub, -, hserial⟩ := meta_of_pubcoin hs.placed hget
    have hp := hs.placed.of_pending (s.tracker.mapPendingSpends.add mint.hashSerial txid)
    have hfits : Fits serialOf s.lastSpend mint.hashPubcoin mint.hashSerial true :=
      ⟨hpub.symm ▸ hserial, fun _ => rfl⟩
    have hwritten := @Placed.UpdateState serialOf s.lastSpend _ { mint with isUsed := true } hp
      hfits
    refine ⟨?_, fun hashSerial txid' hlast => ?_⟩
    · have hall := @Placed.record serialOf _ _ _ txid hwritten
        (usedAt_UpdateState hone hserial hpub)
      rw [← hserial] at hall
      exact hall
    · dsimp only at hlast ⊢
      rw [pending_UpdateState]
      rw [update_apply] at hlast
      rcases hnone with hnone | hsame
      · rw [add_of_none hnone, get_put]
        split_ifs at hlast ⊢
        · exact hlast
        · exact hs.pending hashSerial txid' hlast
      · rw [add_of_some (hsame ▸ rfl)]
        split_ifs at hlast with heq
        · rw [heq]
          exact hsame.trans hlast
        · exact hs.pending hashSerial txid' hlast

theorem Noted.setNotUsed (hashPubcoin : Int) :
    Noted serialOf
      (LastSpends.step hashStake s (.SetPubcoinNotUsed hashPubcoin : TrackerEvent serialOf)) := by
  rw [LastSpends.step, CzDIVITTracker.SetPubcoinNotUsed]
  cases hget : s.tracker.GetMetaFromPubcoin hashPubcoin with
  | none => exact hs
  | some mint =>
    obtain ⟨hpub, -, hserial⟩ := meta_of_pubcoin hs.placed hget
    have hless : ∀ hashSerial,
        Function.update s.lastSpend mint.hashSerial none hashSerial ≠ none →
        s.lastSpend hashSerial ≠ none := by
      intro hashSerial hspent
      rw [update_apply] at hspent
      split_ifs at hspent
      · exact absurd rfl hspent
      · exact hspent
    have hp := (hs.placed.mono hless).of_pending (s.tracker.mapPendingSpends.erase mint.hashSerial)
    have hfits : Fits serialOf (Function.update s.lastSpend mint.hashSerial none)
        mint.hashPubcoin mint.hashSerial false :=
      ⟨hpub.symm ▸ hserial, fun hspent => absurd (update_self _ _ _) hspent⟩
    refine ⟨@Placed.UpdateState serialOf _ _ { mint with isUsed := false } hp hfits,
      fun hashSerial txid hlast => ?_⟩
    dsimp only at hlast ⊢
    rw [pending_UpdateState, get_erase]
    rw [update_apply] at hlast
    split_ifs at hlast ⊢
    exact hs.pending hashSerial txid hlast

section
variable (i : TrackerEvent serialOf) (hsafe : Safe hashStake s i)
include i hsafe

/-- **What a safe step does right.** -/
theorem Noted.correct : Correct hashStake s i := by
  cases i with
  | AddDeterministic | AddZerocoin | Archive | UnArchive | UpdateZerocoinMint | UpdateState
  | SetPubcoinUsed | Clear => exact trivial
  | SetPubcoinNotUsed hashPubcoin =>
    intro hashSerial hother
    rw [CzDIVITTracker.SetPubcoinNotUsed]
    cases hget : s.tracker.GetMetaFromPubcoin hashPubcoin with
    | none => rfl
    | some mint =>
      rw [pending_UpdateState]
      exact get_erase_ne (Ne.symm (hother mint hget))
  | RemovePending txid => exact fun hashSerial hother => stays_RemovePending hother
  | ListMints N fUnusedOnly fMatureOnly fUpdateStatus =>
    cases fUpdateStatus with
    | false =>
      obtain ⟨hsame, hlisted⟩ := @listed_of_noUpdate hashStake N fUnusedOnly fMatureOnly s.tracker
      exact ⟨hs.noneUnused hlisted, fun _ _ => by rw [hsame]⟩
    | true =>
      obtain ⟨-, hstays, hright⟩ := hs.update hashStake hsafe
      refine ⟨hright, fun hashSerial hnot => ?_⟩
      rw [hstays hashSerial fun hcleared => hnot ⟨rfl, hcleared⟩, pending_addFromDatabase]
  | GetMints N fConfirmedOnly => exact hs.noneUnused fun m hm => mem_of_mem_filter hm

/-- **What a safe step keeps.** -/
theorem Noted.step : Noted serialOf (LastSpends.step hashStake s i) := by
  obtain ⟨hp, hpending⟩ := hs
  have hs : Noted serialOf s := ⟨hp, hpending⟩
  cases i with
  | AddDeterministic e isNew isArchived =>
    refine ⟨hp.AddDeterministic (hs.enter e.paired hsafe) isNew isArchived, ?_⟩
    exact (pending_AddDeterministic s.tracker e.hashPubcoin e.dMint isNew isArchived).symm ▸
      hpending
  | AddZerocoin e isNew isArchived =>
    refine ⟨hp.AddZerocoin hashStake (hs.enter e.paired hsafe) isNew isArchived, ?_⟩
    exact (pending_AddZerocoin hashStake s.tracker e.hashPubcoin e.mint isNew isArchived).symm ▸
      hpending
  | Archive e => exact ⟨hp.Archive e.mint, (pending_Archive s.tracker e.mint).symm ▸ hpending⟩
  | UnArchive hashPubcoin isDeterministic =>
    refine ⟨hp.UnArchive hashStake hashPubcoin isDeterministic, ?_⟩
    exact (pending_UnArchive hashStake s.tracker hashPubcoin isDeterministic).symm ▸ hpending
  | UpdateZerocoinMint e =>
    refine ⟨hp.UpdateZerocoinMint (hs.enter e.paired hsafe), ?_⟩
    exact (pending_UpdateZerocoinMint s.tracker e.hashPubcoin e.mint).symm ▸ hpending
  | UpdateState e =>
    exact ⟨hp.UpdateState (hs.enter e.paired hsafe),
      (pending_UpdateState s.tracker e.mint).symm ▸ hpending⟩
  | SetPubcoinUsed hashPubcoin txid => exact hs.setUsed hashStake hashPubcoin txid hsafe
  | SetPubcoinNotUsed hashPubcoin => exact hs.setNotUsed hashStake hashPubcoin
  | RemovePending txid =>
    refine ⟨(hp.mono forget_le).RemovePending txid, fun hashSerial txid' hlast => ?_⟩
    have hkept : s.forget (fun _ txid' => txid' == txid) hashSerial = some txid' := hlast
    obtain ⟨hlast, hother⟩ := forget_eq_some.mp hkept
    have hget := hpending hashSerial txid' hlast
    refine (stays_RemovePending fun heq => ?_).trans hget
    exact (beq_eq_false_iff_ne.mp hother) (some.inj (hget.symm.trans heq))
  | ListMints N fUnusedOnly fMatureOnly fUpdateStatus =>
    cases fUpdateStatus with
    | false =>
      have hsame := (@listed_of_noUpdate hashStake N fUnusedOnly fMatureOnly s.tracker).1
      constructor
      · show Placed serialOf s.lastSpend (CzDIVITTracker.ListMints _ _ _ _ _ _).1
        rw [hsame]
        exact hp
      · show ∀ hashSerial txid, _ →
          (CzDIVITTracker.ListMints _ _ _ _ _ _).1.mapPendingSpends.get hashSerial = _
        rw [hsame]
        exact hpending
    | true =>
      obtain ⟨hplaced, hstays, -⟩ := hs.update hashStake hsafe
      refine ⟨hplaced, fun hashSerial txid hlast => ?_⟩
      have hkept : s.forget (Gone N) hashSerial = some txid := hlast
      obtain ⟨hlast, hkept⟩ := forget_eq_some.mp hkept
      have hget := hpending hashSerial txid hlast
      rw [← pending_addFromDatabase hashStake] at hget
      refine (hstays hashSerial ?_).trans hget
      rintro ⟨-, -, -, -, txid', hget', hgone⟩
      obtain rfl := some.inj (hget.symm.trans hget')
      cases hkept.symm.trans hgone
  | GetMints N fConfirmedOnly => exact hs
  | Clear =>
    exact ⟨⟨fun _ _ h => (by cases h), hp.deterministic, hp.deterministicOrphan, hp.zerocoin,
      hp.zerocoinOrphan⟩, hpending⟩

end

end

end

theorem noted_new : Noted serialOf new := by
  refine ⟨⟨?_, ?_, ?_, ?_, ?_⟩, ?_⟩ <;> exact nofun

end LastSpends

open LastSpends in
/-- **The pending spends are right in every run of safe steps.** -/
theorem CzDIVITTracker_runs {serialOf : SerialOf} (hashStake : Int → uint256)
    (is : List (TrackerEvent serialOf))
    (hsafe : Run.Guarded (step hashStake) (Safe hashStake) new is) :
    Run.Guarded (step hashStake) (Correct hashStake) new is :=
  Run.guarded_of_inv (fun _ i hs h => hs.step hashStake i h)
    (fun _ i hs h => hs.correct hashStake i h) noted_new hsafe

namespace TrackerRuns

open LastSpends

/-- A coin is its own serial here. -/
def sameSerial : SerialOf := ⟨id, injective_id⟩

def coin : CDeterministicMint := ⟨2, 1, 0, 7, 7, 3, 10, .ZQ_ONE, false⟩

/-- A node with one transaction in its pool, and mints that are in the chain. -/
def poolOf (txid : uint256) : TrackerNode where
  mempool t := t == txid
  ReadCoinMint _ := some 3
  ReadCoinSpend _ := none
  IsInitialBlockDownload := false
  GetTransaction _ := some (false, 5)
  blockActive _ := some true
  chainHeight := 100
  nMintRequiredConfirmations := 20
  mapMaturity _ := 50

def spendOnce : List (TrackerEvent sameSerial) :=
  [.AddDeterministic ⟨7, coin, rfl⟩ true false, .SetPubcoinUsed 7 100,
    .ListMints (poolOf 100) true false true]

theorem safe_spendOnce : Run.Guarded (step fun _ => 0) (Safe fun _ => 0) new spendOnce := by
  refine ⟨.inl rfl, fun mint hget => ?_, fun _ => ⟨fun hashSerial hcleared => ?_, ?_⟩, trivial⟩
  · have hmeta : some (metaOfDeterministic 7 coin false) = some mint := hget
    cases hmeta
    exact ⟨.inl rfl, rfl, rfl, some_ne_none _, rfl⟩
  · obtain ⟨mint, hmem, -, rfl, txid, hget, hgone⟩ := hcleared
    obtain rfl := mem_singleton.mp hmem
    cases hget
    exact nomatch hgone
  · rintro mint - - txid - - ⟨-, -, isCoinStake, hashBlock, -, hoff⟩
    exact nomatch hoff

theorem spendOnce_correct : Run.Guarded (step fun _ => 0) (Correct fun _ => 0) new spendOnce :=
  CzDIVITTracker_runs (fun _ => 0) spendOnce safe_spendOnce

/-- A second spend is recorded while the first one is there; then the first leaves the pool. -/
def spendTwice : List (TrackerEvent sameSerial) :=
  [.AddDeterministic ⟨7, coin, rfl⟩ true false, .SetPubcoinUsed 7 100, .SetPubcoinUsed 7 200,
    .ListMints (poolOf 200) true false true]

theorem spendTwice_listed : ¬ ∀ (serialOf : SerialOf) (hashStake : Int → uint256)
    (is : List (TrackerEvent serialOf)),
    Run.Guarded (step hashStake) (Correct hashStake) new is := by
  intro h
  obtain ⟨-, -, -, ⟨hlisted, -⟩, -⟩ := h sameSerial (fun _ => 0) spendTwice
  have hpool := hlisted { metaOfDeterministic 7 coin false with isUsed := false }
    (.head _) rfl 200 rfl
  exact nomatch hpool

end TrackerRuns

end Divitae
