/-
# `WalletMints` — a mint of the wallet's own, edited

The tracker has one entry a serial, and finds an entry by its serial or its coin.  An edit of
a mint that keeps both (`touch`) writes the entry, and the record of its coin in the database
if there is one.  Two edits of one coin are one edit (`touch_touch`), edits of different coins
do not see each other (`touch_comm`), and an edit changes nothing exactly when tracker and
record are as it makes them (`touch_eq_self_iff`).
-/
import Mathlib.Data.List.Find
import Divitae.ZerocoinWallet

namespace Divitae

open Records List Function MintMap

namespace MintMap

variable {l : MintMap} {mint mint' m : CMintMeta}

theorem ext_entries {l l' : MintMap} (h : l.entries = l'.entries) : l = l' := by
  cases l
  cases l'
  cases h
  rfl

theorem set_entries (h : m ∈ l.entries) (hserial : mint.hashSerial = m.hashSerial) :
    (l.set mint).entries = l.entries.map (replaced mint) := by
  have hmem : mint.hashSerial ∈ l.entries.map CMintMeta.hashSerial :=
    mem_map.mpr ⟨m, h, hserial.symm⟩
  rw [set, dif_pos hmem]

theorem unique (hm : m ∈ l.entries) (hmint : mint ∈ l.entries)
    (hserial : m.hashSerial = mint.hashSerial) : m = mint :=
  inj_on_of_nodup_map l.nodup hm hmint hserial

theorem replaced_replaced (h : mint'.hashSerial = mint.hashSerial) :
    replaced mint' (replaced mint m) = replaced mint' m := by
  rcases eq_or_ne m.hashSerial mint.hashSerial with hm | hm
  · rw [replaced.eq_1 mint m, if_pos hm, replaced, if_pos h.symm, replaced,
    if_pos (hm.trans h.symm)]
  · rw [replaced.eq_1 mint m, if_neg hm]

theorem replaced_comm (h : mint'.hashSerial ≠ mint.hashSerial) :
    replaced mint' (replaced mint m) = replaced mint (replaced mint' m) := by
  rw [replaced, serial_replaced, replaced.eq_1 mint (replaced mint' m), serial_replaced]
  rw [replaced, replaced]
  split_ifs with h₁ h₂ h₂
  · exact absurd (h₁.symm.trans h₂) h
  · rfl
  · rfl
  · rfl

theorem set_set (hm : m ∈ l.entries) (h : mint.hashSerial = m.hashSerial)
    (h' : mint'.hashSerial = m.hashSerial) : (l.set mint).set mint' = l.set mint' := by
  have hmem : replaced mint m ∈ (l.set mint).entries := by
    rw [set_entries hm h]
    exact mem_map_of_mem hm
  refine ext_entries ?_
  rw [set_entries hmem (h'.trans (serial_replaced mint m).symm), set_entries hm h,
    set_entries hm h', map_map]
  exact map_congr_left fun _ _ => replaced_replaced (h'.trans h.symm)

theorem set_comm {m' : CMintMeta} (hm : m ∈ l.entries) (h : mint.hashSerial = m.hashSerial)
    (hm' : m' ∈ l.entries) (h' : mint'.hashSerial = m'.hashSerial)
    (hne : mint'.hashSerial ≠ mint.hashSerial) :
    (l.set mint).set mint' = (l.set mint').set mint := by
  have hmem' : replaced mint m' ∈ (l.set mint).entries := by
    rw [set_entries hm h]
    exact mem_map_of_mem hm'
  have hmem : replaced mint' m ∈ (l.set mint').entries := by
    rw [set_entries hm' h']
    exact mem_map_of_mem hm
  refine ext_entries ?_
  rw [set_entries hmem' (h'.trans (serial_replaced mint m').symm), set_entries hm h,
    set_entries hmem (h.trans (serial_replaced mint' m).symm), set_entries hm' h',
    map_map, map_map]
  exact map_congr_left fun _ _ => replaced_comm hne

theorem set_self (hm : m ∈ l.entries) : l.set m = l := by
  refine ext_entries ?_
  rw [set_entries hm rfl]
  refine (map_congr_left fun m' hm' => ?_).trans (map_id _)
  rw [replaced]
  split_ifs with h
  · exact (unique hm' hm h).symm
  · rfl

end MintMap

/-- An edit of a mint that leaves alone what the mint is found by and the flags that say where
its record is. -/
structure MintEdit where
  edit : CMintMeta → CMintMeta
  serial : ∀ m, (edit m).hashSerial = m.hashSerial
  coin : ∀ m, (edit m).hashPubcoin = m.hashPubcoin
  deterministic : ∀ m, (edit m).isDeterministic = m.isDeterministic
  archived : ∀ m, (edit m).isArchived = m.isArchived

namespace MintEdit

/-- The mint as a block has it: height and transaction. -/
def seen (nHeight : Int) (txid : uint256) : MintEdit where
  edit m := { m with nHeight := nHeight, txid := txid }
  serial _ := rfl
  coin _ := rfl
  deterministic _ := rfl
  archived _ := rfl

def unused : MintEdit where
  edit m := { m with isUsed := false }
  serial _ := rfl
  coin _ := rfl
  deterministic _ := rfl
  archived _ := rfl

def andThen (e e' : MintEdit) : MintEdit where
  edit m := e'.edit (e.edit m)
  serial m := (e'.serial _).trans (e.serial m)
  coin m := (e'.coin _).trans (e.coin m)
  deterministic m := (e'.deterministic _).trans (e.deterministic m)
  archived m := (e'.archived _).trans (e.archived m)

end MintEdit

namespace ZerocoinWallet

variable {w : ZerocoinWallet} {mint : CMintMeta} {nHeight : Int} {v : Int}

/-! ## What the database holds of one coin -/

/-- The records of a coin: the deterministic mint, the archived one, any other. -/
structure CoinRecords where
  deterministic : Option CDeterministicMint
  orphan : Option CDeterministicMint
  other : Option CZerocoinMint

def recordsOf (w : ZerocoinWallet) (v : Int) : CoinRecords :=
  ⟨w.deterministicMints v, w.deterministicOrphans v, w.zerocoinMints v⟩

def setRecords (w : ZerocoinWallet) (v : Int) (r : CoinRecords) : ZerocoinWallet :=
  { w with
    deterministicMints := Function.update w.deterministicMints v r.deterministic
    deterministicOrphans := Function.update w.deterministicOrphans v r.orphan
    zerocoinMints := Function.update w.zerocoinMints v r.other }

/-- A mint as `UpdateState` writes it. -/
def writtenTo (mint : CMintMeta) (dMint : CDeterministicMint) : CDeterministicMint :=
  { dMint with
    txid := mint.txid
    nHeight := mint.nHeight
    isUsed := mint.isUsed
    denom := mint.denom
    hashStake := mint.hashStake }

/-- What `UpdateState` makes of the records of the coin, if it goes through. -/
def nextRecords (mint : CMintMeta) (r : CoinRecords) : Option CoinRecords :=
  if mint.isDeterministic then
    match r.deterministic, r.orphan with
    | some dMint, _ => some { r with deterministic := some (writtenTo mint dMint) }
    | none, some dMint =>
      if mint.isArchived then some ⟨some (writtenTo mint dMint), none, r.other⟩ else none
    | none, none => none
  else
    r.other.map fun zMint => { r with
      other := some { zMint with
        txid := mint.txid
        nHeight := mint.nHeight
        isUsed := mint.isUsed
        denomination := mint.denom } }

def written (w : ZerocoinWallet) (mint : CMintMeta) (r : CoinRecords) : ZerocoinWallet :=
  { w.setRecords mint.hashPubcoin r with mapSerialHashes := w.mapSerialHashes.set mint }

theorem UpdateState_eq (w : ZerocoinWallet) (mint : CMintMeta) :
    w.UpdateState mint =
      match nextRecords mint (w.recordsOf mint.hashPubcoin) with
      | none => w
      | some r => w.written mint r := by
  rw [UpdateState, nextRecords]
  cases hdet : mint.isDeterministic with
  | true =>
    rw [if_pos rfl, if_pos rfl, recordsOf]
    cases hd : w.deterministicMints mint.hashPubcoin with
    | some dMint =>
      simp only [written, setRecords, WriteDeterministicMint, writtenTo, update_eq_self]
    | none =>
      cases ho : w.deterministicOrphans mint.hashPubcoin with
      | none =>
        cases mint.isArchived <;> rfl
      | some dMint =>
        cases harch : mint.isArchived with
        | false => rfl
        | true =>
          simp only [Bool.not_true, Bool.false_eq_true, if_false, if_true, written,
            setRecords, Unarchive, WriteDeterministicMint, writtenTo, update_idem,
            update_eq_self]
  | false =>
    rw [if_neg Bool.false_ne_true, if_neg Bool.false_ne_true, recordsOf]
    cases hz : w.zerocoinMints mint.hashPubcoin with
    | none => rfl
    | some zMint =>
      simp only [Option.map_some, written, setRecords, WriteZerocoinMint, update_eq_self]

theorem nextRecords_over {a b : CMintMeta} {r r' : CoinRecords}
    (hdet : b.isDeterministic = a.isDeterministic) (harch : b.isArchived = a.isArchived)
    (h : nextRecords a r = some r') : nextRecords b r' = nextRecords b r := by
  rw [nextRecords] at h
  rw [nextRecords, nextRecords, hdet, harch]
  cases hd : a.isDeterministic with
  | true =>
    rw [hd, if_pos rfl] at h
    rw [if_pos rfl, if_pos rfl]
    cases hr : r.deterministic with
    | some dMint =>
      rw [hr] at h
      cases h
      rfl
    | none =>
      rw [hr] at h
      cases ho : r.orphan with
      | none =>
        rw [ho] at h
        cases h
      | some dMint =>
        rw [ho] at h
        split_ifs at h with ha
        cases h
        dsimp only
        rw [if_pos ha]
        rfl
  | false =>
    rw [hd, if_neg Bool.false_ne_true] at h
    rw [if_neg Bool.false_ne_true, if_neg Bool.false_ne_true]
    cases hz : r.other with
    | none =>
      rw [hz] at h
      cases h
    | some zMint =>
      rw [hz] at h
      cases h
      rfl

theorem isSome_nextRecords (mint : CMintMeta) (r : CoinRecords) : (nextRecords mint r).isSome =
    if mint.isDeterministic then r.deterministic.isSome || r.orphan.isSome && mint.isArchived
    else r.other.isSome := by
  rw [nextRecords]
  cases mint.isDeterministic with
  | true =>
    rw [if_pos rfl, if_pos rfl]
    cases r.deterministic with
    | some dMint => rfl
    | none =>
      cases r.orphan with
      | none => rfl
      | some dMint => cases mint.isArchived <;> rfl
  | false =>
    rw [if_neg Bool.false_ne_true, if_neg Bool.false_ne_true, Option.isSome_map]

theorem isSome_edit (e : MintEdit) (mint : CMintMeta) (r : CoinRecords) :
    (nextRecords (e.edit mint) r).isSome = (nextRecords mint r).isSome := by
  rw [isSome_nextRecords, isSome_nextRecords, e.deterministic, e.archived]

/-! ## A mint that is tracked -/

def touch (w : ZerocoinWallet) (v : Int) (e : MintEdit) : ZerocoinWallet :=
  match w.GetMetaFromPubcoin v with
  | none => w
  | some mint => w.UpdateState (e.edit mint)

theorem GetMetaFromPubcoin_mem (h : w.GetMetaFromPubcoin v = some mint) :
    mint ∈ w.mapSerialHashes.entries ∧ mint.hashPubcoin = v :=
  ⟨mem_of_find?_eq_some h, by simpa using List.find?_some h⟩

theorem find_replaced {l : MintMap} {mint : CMintMeta} (hmem : mint ∈ l.entries) (e : MintEdit)
    (p : CMintMeta → Bool) (hp : p (e.edit mint) = p mint) : (l.set (e.edit mint)).entries.find? p =
      (l.entries.find? p).map (replaced (e.edit mint)) := by
  rw [set_entries hmem (e.serial mint), List.find?_map]
  congr 1
  refine List.find?_congr fun m hm => ?_
  show p (replaced (e.edit mint) m) = p m
  rw [replaced]
  split_ifs with h
  · rw [unique hm hmem (h.trans (e.serial mint)), hp]
  · rfl

theorem touch_none (h : w.GetMetaFromPubcoin v = none) (e : MintEdit) : w.touch v e = w := by
  rw [touch, h]

theorem touch_cases (h : w.GetMetaFromPubcoin v = some mint) (e : MintEdit) :
    (nextRecords (e.edit mint) (w.recordsOf v) = none ∧ w.touch v e = w) ∨
      ∃ r, nextRecords (e.edit mint) (w.recordsOf v) = some r ∧
        w.touch v e = w.written (e.edit mint) r := by
  obtain ⟨-, rfl⟩ := GetMetaFromPubcoin_mem h
  rw [touch, h]
  dsimp only
  rw [UpdateState_eq, e.coin]
  cases nextRecords (e.edit mint) (w.recordsOf mint.hashPubcoin) with
  | none => exact .inl ⟨rfl, rfl⟩
  | some r => exact .inr ⟨r, rfl, rfl⟩

theorem recordsOf_written_self (w : ZerocoinWallet) (mint : CMintMeta) (r : CoinRecords) :
    (w.written mint r).recordsOf mint.hashPubcoin = r := by
  simp only [recordsOf, written, setRecords, update_self]

theorem recordsOf_written_of_ne (w : ZerocoinWallet) (mint : CMintMeta) (r : CoinRecords)
    (h : v ≠ mint.hashPubcoin) : (w.written mint r).recordsOf v = w.recordsOf v := by
  simp only [recordsOf, written, setRecords, update_of_ne h]

theorem written_written (a b : CMintMeta) (hmem : mint ∈ w.mapSerialHashes.entries)
    (ha : a.hashSerial = mint.hashSerial) (hb : b.hashSerial = mint.hashSerial)
    (hcoin : a.hashPubcoin = b.hashPubcoin) (r r' : CoinRecords) :
    (w.written a r).written b r' = w.written b r' := by
  simp only [written, setRecords, hcoin, update_idem, set_set hmem ha hb]

theorem written_comm (a b : CMintMeta) {mint' : CMintMeta} (hmem : mint ∈ w.mapSerialHashes.entries)
    (ha : a.hashSerial = mint.hashSerial) (hmem' : mint' ∈ w.mapSerialHashes.entries)
    (hb : b.hashSerial = mint'.hashSerial) (hserial : b.hashSerial ≠ a.hashSerial)
    (hcoin : a.hashPubcoin ≠ b.hashPubcoin) (r r' : CoinRecords) :
    (w.written a r).written b r' = (w.written b r').written a r := by
  simp only [written, setRecords, set_comm hmem ha hmem' hb hserial]
  rw [update_comm hcoin, update_comm hcoin, update_comm hcoin]

theorem touch_find (w : ZerocoinWallet) (v : Int) (e : MintEdit) (p : CMintMeta → Bool)
    (hp : ∀ m, p (e.edit m) = p m) :
    ((w.touch v e).mapSerialHashes.entries.find? p = w.mapSerialHashes.entries.find? p ∧
        w.touch v e = w) ∨
      ∃ mint, w.GetMetaFromPubcoin v = some mint ∧
        (w.touch v e).mapSerialHashes.entries.find? p =
          (w.mapSerialHashes.entries.find? p).map (replaced (e.edit mint)) := by
  cases h : w.GetMetaFromPubcoin v with
  | none =>
    rw [touch_none h]
    exact .inl ⟨rfl, rfl⟩
  | some mint =>
    rcases touch_cases h e with ⟨-, hsame⟩ | ⟨r, -, hw⟩
    · rw [hsame]
      exact .inl ⟨rfl, rfl⟩
    · rw [hw]
      exact .inr ⟨mint, rfl, find_replaced (GetMetaFromPubcoin_mem h).1 e p (hp mint)⟩

theorem touch_touch (w : ZerocoinWallet) (v : Int) (e e' : MintEdit) :
    (w.touch v e).touch v e' = w.touch v (e.andThen e') := by
  cases h : w.GetMetaFromPubcoin v with
  | none => rw [touch_none h, touch_none h, touch_none h]
  | some mint =>
    obtain ⟨hmem, hcoin⟩ := GetMetaFromPubcoin_mem h
    have hsome : (nextRecords ((e.andThen e').edit mint) (w.recordsOf v)).isSome =
        (nextRecords (e.edit mint) (w.recordsOf v)).isSome := isSome_edit e' (e.edit mint) _
    rcases touch_cases h e with ⟨hnone, hsame⟩ | ⟨r, hr, hw⟩
    · -- no record to write to, for either
      rw [hsame]
      rcases touch_cases h (e.andThen e') with ⟨-, hboth⟩ | ⟨r', hr', -⟩
      · rw [hboth]
        rcases touch_cases h e' with ⟨-, hlater⟩ | ⟨r', hr', -⟩
        · exact hlater
        · have hsome' := isSome_edit e' mint (w.recordsOf v)
          rw [hr', ← isSome_edit e, hnone] at hsome'
          cases hsome'
      · rw [hr', hnone] at hsome
        cases hsome
    -- behind the first write the coin has the mint as it was put in
    have hfound : (w.touch v e).GetMetaFromPubcoin v = some (e.edit mint) := by
      have hp : ∀ m, ((e.edit m).hashPubcoin == v) = (m.hashPubcoin == v) := fun m => by
        rw [e.coin]
      rw [hw]
      show (w.mapSerialHashes.set (e.edit mint)).entries.find? _ = _
      rw [find_replaced hmem e (fun m => m.hashPubcoin == v) (hp mint)]
      show (w.GetMetaFromPubcoin v).map _ = _
      rw [h]
      exact congrArg some (if_pos (e.serial mint).symm)
    have hrecords : (w.touch v e).recordsOf v = r := by
      rw [hw, ← hcoin, ← e.coin mint]
      exact recordsOf_written_self w (e.edit mint) r
    have hnext : nextRecords (e'.edit (e.edit mint)) r =
        nextRecords ((e.andThen e').edit mint) (w.recordsOf v) :=
      nextRecords_over (e'.deterministic _) (e'.archived _) hr
    rw [hr] at hsome
    rcases touch_cases h (e.andThen e') with ⟨hnone, -⟩ | ⟨r', hr', hdirect⟩
    · rw [hnone] at hsome
      cases hsome
    rcases touch_cases hfound e' with ⟨hnone, -⟩ | ⟨r'', hr'', hlater⟩
    · rw [hrecords, hnext, hr'] at hnone
      cases hnone
    rw [hrecords, hnext, hr'] at hr''
    obtain rfl : r' = r'' := Option.some.inj hr''
    rw [hlater, hdirect, hw]
    exact written_written (e.edit mint) (e'.edit (e.edit mint)) hmem (e.serial mint)
      ((e'.serial _).trans (e.serial mint)) (e'.coin _).symm r r'

theorem touch_other (w : ZerocoinWallet) {v u : Int} (h : v ≠ u) (e : MintEdit) :
    (w.touch v e).GetMetaFromPubcoin u = w.GetMetaFromPubcoin u ∧
      (w.touch v e).recordsOf u = w.recordsOf u := by
  cases hv : w.GetMetaFromPubcoin v with
  | none =>
    rw [touch_none hv]
    exact ⟨rfl, rfl⟩
  | some mint =>
    obtain ⟨hmem, hcoin⟩ := GetMetaFromPubcoin_mem hv
    rcases touch_cases hv e with ⟨-, hsame⟩ | ⟨r, hr, hw⟩
    · rw [hsame]
      exact ⟨rfl, rfl⟩
    rw [hw]
    refine ⟨?_, recordsOf_written_of_ne w (e.edit mint) r ?_⟩
    · show (w.mapSerialHashes.set (e.edit mint)).entries.find? _ = w.GetMetaFromPubcoin u
      rw [find_replaced hmem e (fun m => m.hashPubcoin == u) (by rw [e.coin])]
      show (w.GetMetaFromPubcoin u).map _ = _
      cases hu : w.GetMetaFromPubcoin u with
      | none => rfl
      | some mint' =>
        obtain ⟨hmem', hcoin'⟩ := GetMetaFromPubcoin_mem hu
        refine congrArg some (if_neg ?_)
        intro hserial
        have heq : mint' = mint := unique hmem' hmem (hserial.trans (e.serial mint))
        rw [heq, hcoin] at hcoin'
        exact h hcoin'
    · rw [e.coin, hcoin]
      exact h.symm

theorem touch_comm (w : ZerocoinWallet) {v u : Int} (h : v ≠ u) (e e' : MintEdit) :
    (w.touch v e).touch u e' = (w.touch u e').touch v e := by
  obtain ⟨hmetaU, hrecordsU⟩ := touch_other w h e
  obtain ⟨hmetaV, hrecordsV⟩ := touch_other w h.symm e'
  cases hv : w.GetMetaFromPubcoin v with
  | none =>
    rw [hv] at hmetaV
    rw [touch_none hv, touch_none hmetaV]
  | some mint =>
    cases hu : w.GetMetaFromPubcoin u with
    | none =>
      rw [hu] at hmetaU
      rw [touch_none hu, touch_none hmetaU]
    | some mint' =>
      rw [hu] at hmetaU
      rw [hv] at hmetaV
      obtain ⟨hmem, hcoin⟩ := GetMetaFromPubcoin_mem hv
      obtain ⟨hmem', hcoin'⟩ := GetMetaFromPubcoin_mem hu
      have hserial : (e'.edit mint').hashSerial ≠ (e.edit mint).hashSerial := by
        rw [e.serial, e'.serial]
        intro heq
        have hsame : mint' = mint := unique hmem' hmem heq
        rw [hsame, hcoin] at hcoin'
        exact h hcoin'
      -- what one writes is read off the state without the other
      have hthen := touch_cases hmetaU e'
      have hthen' := touch_cases hmetaV e
      rw [hrecordsU] at hthen
      rw [hrecordsV] at hthen'
      rcases touch_cases hv e with ⟨hrv, hwv⟩ | ⟨r, hrv, hwv⟩
      · rcases hthen' with ⟨-, hlast⟩ | ⟨r, hr, -⟩
        · rw [hlast, hwv]
        · rw [hrv] at hr
          cases hr
      rcases touch_cases hu e' with ⟨hru, hwu⟩ | ⟨r', hru, hwu⟩
      · rcases hthen with ⟨-, hlast⟩ | ⟨r', hr, -⟩
        · rw [hlast, hwu]
        · rw [hru] at hr
          cases hr
      rcases hthen with ⟨hnone, -⟩ | ⟨r₁, hr₁, hlast⟩
      · rw [hru] at hnone
        cases hnone
      rcases hthen' with ⟨hnone, -⟩ | ⟨r₂, hr₂, hlast'⟩
      · rw [hrv] at hnone
        cases hnone
      obtain rfl : r' = r₁ := Option.some.inj (hru.symm.trans hr₁)
      obtain rfl : r = r₂ := Option.some.inj (hrv.symm.trans hr₂)
      rw [hlast, hlast', hwv, hwu]
      refine written_comm (e.edit mint) (e'.edit mint') hmem (e.serial mint) hmem'
        (e'.serial mint') hserial ?_ r r'
      rw [e.coin, e'.coin, hcoin, hcoin']
      exact h

/-- The mint is as the edit makes it, and so is its record, if there is one to write to. -/
def Fixed (e : MintEdit) (w : ZerocoinWallet) (v : Int) : Prop :=
  ∀ mint, w.GetMetaFromPubcoin v = some mint →
    nextRecords mint (w.recordsOf v) = none ∨
      e.edit mint = mint ∧ nextRecords mint (w.recordsOf v) = some (w.recordsOf v)

theorem touch_eq_self_iff (e : MintEdit) (w : ZerocoinWallet) (v : Int) :
    w.touch v e = w ↔ Fixed e w v := by
  rw [Fixed]
  cases h : w.GetMetaFromPubcoin v with
  | none =>
    rw [touch_none h]
    exact ⟨nofun, fun _ => rfl⟩
  | some mint =>
    obtain ⟨hmem, hcoin⟩ := GetMetaFromPubcoin_mem h
    have hsome := isSome_edit e mint (w.recordsOf v)
    constructor
    · rintro hsame mint' ⟨⟩
      rcases touch_cases h e with ⟨hnone, -⟩ | ⟨r, hr, hw⟩
      · left
        rw [hnone] at hsome
        exact Option.not_isSome_iff_eq_none.mp fun h => Bool.false_ne_true (hsome.trans h)
      · right
        rw [hsame] at hw
        have hfound : w.GetMetaFromPubcoin v = some (e.edit mint) := by
          rw [hw]
          show (w.mapSerialHashes.set (e.edit mint)).entries.find? _ = _
          rw [find_replaced hmem e (fun m => m.hashPubcoin == v) (by rw [e.coin])]
          show (w.GetMetaFromPubcoin v).map _ = _
          rw [h]
          exact congrArg some (if_pos (e.serial mint).symm)
        have heq : e.edit mint = mint := Option.some.inj (hfound.symm.trans h)
        have hrecords : w.recordsOf v = r := by
          have hself := recordsOf_written_self w (e.edit mint) r
          rw [← hw, e.coin, hcoin] at hself
          exact hself
        rw [heq] at hr
        exact ⟨heq, hr.trans (congrArg some hrecords.symm)⟩
    · intro hall
      rcases touch_cases h e with ⟨-, hsame⟩ | ⟨r, hr, hw⟩
      · exact hsame
      rcases hall mint rfl with hnone | ⟨heq, hrecords⟩
      · rw [hr, hnone] at hsome
        cases hsome
      · rw [heq] at hr hw
        obtain rfl := Option.some.inj (hr.symm.trans hrecords)
        rw [hw, written, set_self hmem, hcoin]
        simp only [setRecords, recordsOf, update_eq_self]

theorem touch_pool (w : ZerocoinWallet) (v : Int) (e : MintEdit) :
    (w.touch v e).mintPool = w.mintPool ∧
      ∀ u, (w.touch v e).GetMetaFromPubcoin u = none ↔ w.GetMetaFromPubcoin u = none := by
  cases h : w.GetMetaFromPubcoin v with
  | none =>
    rw [touch_none h]
    exact ⟨rfl, fun _ => Iff.rfl⟩
  | some mint =>
    rcases touch_cases h e with ⟨-, hsame⟩ | ⟨r, -, hw⟩
    · rw [hsame]
      exact ⟨rfl, fun _ => Iff.rfl⟩
    · rw [hw]
      refine ⟨rfl, fun u => ?_⟩
      show (w.mapSerialHashes.set (e.edit mint)).entries.find? _ = none ↔ _
      rw [find_replaced (GetMetaFromPubcoin_mem h).1 e (fun m => m.hashPubcoin == u)
        (by rw [e.coin])]
      exact Option.map_eq_none_iff

end ZerocoinWallet

end Divitae
