/-
# `BlockTreeKept` — what holds of every block index

The work and the count of transactions of an entry are not written to disk; they are those
of its predecessor and its own, in every state.

    Sound     what an entry says of itself, filed under its hash
    Placed    its height and work follow those of its predecessor
    Linking   all of it, in the rounds of the loop of `ReceivedBlockTransactions`: the
              counts are right but for the entries of the queue
    linkAll_wellFormed, treeStep_wellFormed
              at the end of the loop none is left, and so after every step

The count of an entry is zero until its data and those of its predecessors are there.  The
loop goes by a count that is not zero, so the counts must not come round to zero:
`transactions` stays below 2³².
-/
import Divitae.BlockTree
import Divitae.Lib.Keyed

namespace Divitae.BlockIndex.BlockTree

open List CBlockIndex

variable {N : TreeNode} {T : BlockTree} {hash hash' : uint256} {e e' q : CBlockIndex}
  {f : CBlockIndex → CBlockIndex} {queue : List uint256}

/-! ## Edits -/

theorem edit_eq (h : T.entry hash = some e) :
    T.edit hash f = { T with mapBlockIndex := T.mapBlockIndex.insert hash (f e) } := by
  simp only [edit, show T.mapBlockIndex.lookup hash = some e from h]

theorem edit_eq_self (h : T.entry hash = none) : T.edit hash f = T := by
  simp only [edit, show T.mapBlockIndex.lookup hash = none from h]

theorem entry_edit_self : (T.edit hash f).entry hash = (T.entry hash).map f := by
  cases h : T.entry hash with
  | none => rw [edit_eq_self h, h, Option.map_none]
  | some e =>
    rw [edit_eq h]
    exact AList.lookup_insert _

theorem entry_edit_ne (hne : hash' ≠ hash) : (T.edit hash f).entry hash' = T.entry hash' := by
  cases h : T.entry hash with
  | none => rw [edit_eq_self h]
  | some e =>
    rw [edit_eq h]
    exact AList.lookup_insert_ne hne

theorem entry_edit_eq_some (h : T.entry hash = some e) :
    (T.edit hash f).entry hash' = some e' ↔
      (hash' = hash ∧ e' = f e) ∨ (hash' ≠ hash ∧ T.entry hash' = some e') := by
  rcases eq_or_ne hash' hash with rfl | hne
  · rw [entry_edit_self, h]
    constructor
    · intro heq
      exact .inl ⟨rfl, (Option.some.inj heq).symm⟩
    · rintro (⟨-, rfl⟩ | ⟨hne, -⟩)
      · rfl
      · exact absurd rfl hne
  · rw [entry_edit_ne hne]
    constructor
    · intro heq
      exact .inr ⟨hne, heq⟩
    · rintro (⟨heq, -⟩ | ⟨-, heq⟩)
      · exact absurd heq hne
      · exact heq

@[simp] theorem edit_mapBlocksUnlinked :
    (T.edit hash f).mapBlocksUnlinked = T.mapBlocksUnlinked := by
  unfold edit; split <;> rfl

/-! ## Totals over the entries -/

/-- A total over the entries. -/
def total (size : CBlockIndex → ℕ) (T : BlockTree) : ℕ :=
  (T.mapBlockIndex.entries.map fun e => size e.2).sum

/-- The total over the entries but one. -/
def totalBut (size : CBlockIndex → ℕ) (hash : uint256) (T : BlockTree) : ℕ :=
  ((T.mapBlockIndex.erase hash).entries.map fun e => size e.2).sum

section
variable (size : CBlockIndex → ℕ) (h : T.entry hash = some e)
include size h

theorem total_eq :
    total size T = size e + totalBut size hash T :=
  Keyed.sum_erase (m := T.mapBlockIndex) (fun s => size s.2) h

theorem total_edit :
    total size (T.edit hash f) = size (f e) + totalBut size hash T := by
  rw [edit_eq h]
  rfl

end

/-- The transactions up to a height. -/
def upTo (T : BlockTree) (nHeight : ℕ) : ℕ :=
  total (fun e => if e.nHeight ≤ nHeight then e.nTx else 0) T

theorem upTo_le_transactions (T : BlockTree) (nHeight : ℕ) : T.upTo nHeight ≤ T.transactions := by
  refine sum_le_sum ?_
  intro s _
  dsimp only
  split_ifs
  · exact Nat.le_refl _
  · exact Nat.zero_le _

section
variable (h : T.entry hash = some e)
include h

theorem upTo_add_le {nHeight : ℕ} (hheight : e.nHeight = nHeight + 1) :
    T.upTo nHeight + e.nTx ≤ T.upTo e.nHeight := by
  have hrest : totalBut (fun e => if e.nHeight ≤ nHeight then e.nTx else 0) hash T ≤
      totalBut (fun e' => if e'.nHeight ≤ e.nHeight then e'.nTx else 0) hash T := by
    refine sum_le_sum ?_
    intro s _
    show (if s.2.nHeight ≤ nHeight then s.2.nTx else 0) ≤
      if s.2.nHeight ≤ e.nHeight then s.2.nTx else 0
    split_ifs <;> omega
  unfold upTo
  rw [total_eq _ h, total_eq _ h, if_neg (by omega), if_pos (Nat.le_refl _)]
  omega

theorem nTx_le_upTo : e.nTx ≤ T.upTo e.nHeight := by
  unfold upTo
  rw [total_eq _ h, if_pos (Nat.le_refl _)]
  omega

theorem upTo_edit_ge (hheight : (f e).nHeight = e.nHeight)
    (hle : e.nTx ≤ (f e).nTx) (nHeight : ℕ) : T.upTo nHeight ≤ (T.edit hash f).upTo nHeight := by
  unfold upTo
  rw [total_eq _ h, total_edit _ h, hheight]
  split_ifs <;> omega

end

/-! ## The invariant -/

/-- What an entry says of itself. -/
structure Sound (N : TreeNode) (hash : uint256) (e : CBlockIndex) : Prop where
  key : e.GetBlockHeader.GetHash N = hash
  nonzero : hash ≠ 0
  tree : BLOCK_VALID_TREE ≤ e.nStatus.valid
  valid_lt : e.nStatus.valid < 8
  stakeless : e.IsProofOfStake = false →
    e.prevoutStake = .SetNull ∧ e.nStakeTime = 0 ∧ e.hashProofOfStake = 0
  prevout_lt : e.prevoutStake.n < 2 ^ 32
  checkpoint : hasCheckpoint e.nVersion = false → e.nAccumulatorCheckpoint = 0
  mints_le : e.vMintDenominationsInBlock.length ≤ 0x02000000
  data : e.nStatus.haveData = true → 0 < e.nTx
  nodata : e.nStatus.haveData = false → e.nTx = 0

/-- Height and work go on from the predecessor. -/
structure Placed (T : BlockTree) (e : CBlockIndex) : Prop where
  root : e.pprev = none → e.nHeight = 0 ∧ e.nChainWork = GetBlockProof e.nBits
  next : ∀ p, e.pprev = some p → ∃ q, T.entry p = some q ∧ e.nHeight = q.nHeight + 1 ∧
    e.nChainWork = q.nChainWork + GetBlockProof e.nBits

/-- The count of an entry, from that of its predecessor. -/
def countOf (T : BlockTree) (e : CBlockIndex) : ℕ :=
  if e.nStatus.haveData then
    match (T.prev e).map CBlockIndex.nChainTx with
    | none => e.nTx
    | some nChainTx => if nChainTx ≠ 0 then (nChainTx + e.nTx) % 2 ^ 32 else 0
  else 0

/-- The predecessors of an entry have their data, if it has any. -/
def Ready (T : BlockTree) (e : CBlockIndex) : Prop := ∀ q, T.prev e = some q → q.nChainTx ≠ 0

/-- Every entry is in its place. -/
structure Standing (N : TreeNode) (T : BlockTree) : Prop where
  sound : ∀ hash e, T.entry hash = some e → Sound N hash e
  placed : ∀ hash e, T.entry hash = some e → Placed T e

/-- The index while the entries of `queue` await their count. -/
structure Linking (N : TreeNode) (T : BlockTree) (queue : List uint256) : Prop
    extends Standing N T where
  counted : ∀ hash e, T.entry hash = some e → hash ∉ queue → e.nChainTx = T.countOf e
  queued : ∀ hash ∈ queue, ∃ e, T.entry hash = some e ∧ e.nStatus.haveData = true ∧
    (e.nChainTx = 0 ∨ e.nChainTx = T.countOf e) ∧ T.Ready e
  unlinked : ∀ hash e p q, T.entry hash = some e → e.nStatus.haveData = true →
    e.pprev = some p → T.entry p = some q → q.nChainTx = 0 → (p, hash) ∈ T.mapBlocksUnlinked
  waits : ∀ p hash, (p, hash) ∈ T.mapBlocksUnlinked → ∃ e q, T.entry hash = some e ∧
    e.nStatus.haveData = true ∧ e.pprev = some p ∧ T.entry p = some q ∧ q.nChainTx = 0
  bounded : ∀ hash e, T.entry hash = some e → e.nChainTx ≤ T.upTo e.nHeight

/-- No entry awaits its count. -/
abbrev WellFormed (N : TreeNode) (T : BlockTree) : Prop := Linking N T []

theorem wellFormed_empty (N : TreeNode) : WellFormed N {} where
  sound _ _ h := nomatch h
  placed _ _ h := nomatch h
  counted _ _ h := nomatch h
  queued _ h := nomatch h
  unlinked _ _ _ _ h := nomatch h
  waits _ _ h := nomatch h
  bounded _ _ h := nomatch h

theorem Linking.congr {T' : BlockTree} (h : Linking N T queue)
    (hmap : T'.mapBlockIndex = T.mapBlockIndex)
    (hwaits : T'.mapBlocksUnlinked = T.mapBlocksUnlinked) : Linking N T' queue := by
  obtain ⟨m, c, u, a, n, s⟩ := T
  obtain ⟨m', c', u', a', n', s'⟩ := T'
  obtain rfl : m' = m := hmap
  obtain rfl : u' = u := hwaits
  refine ⟨⟨h.sound, ?_⟩, h.counted, h.queued, h.unlinked, h.waits, h.bounded⟩
  intro hash e hlook
  exact ⟨(h.placed hash e hlook).root, (h.placed hash e hlook).next⟩

theorem prev_of_root (h : e.pprev = none) : T.prev e = none := by
  simp only [prev, h, Option.bind_none]

theorem prev_of_entry {p : uint256} (hp : e.pprev = some p) (hq : T.entry p = some q) :
    T.prev e = some q := by
  simp only [prev, hp, Option.bind_some, hq]

theorem countOf_nodata (h : e.nStatus.haveData = false) : T.countOf e = 0 := by
  simp [countOf, h]

theorem countOf_root (hdata : e.nStatus.haveData = true) (h : T.prev e = none) :
    T.countOf e = e.nTx := by
  simp [countOf, hdata, h]

theorem countOf_unready (h : T.prev e = some q) (hzero : q.nChainTx = 0) : T.countOf e = 0 := by
  simp [countOf, h, hzero]

theorem countOf_next (hdata : e.nStatus.haveData = true) (h : T.prev e = some q)
    (hne : q.nChainTx ≠ 0) : T.countOf e = (q.nChainTx + e.nTx) % 2 ^ 32 := by
  simp [countOf, hdata, h, hne]

theorem Linking.nChainTx_nodata (h : Linking N T queue) (hlook : T.entry hash = some e)
    (hdata : e.nStatus.haveData = false) : e.nChainTx = 0 := by
  by_cases hmem : hash ∈ queue
  · obtain ⟨e', hlook', hdata', -⟩ := h.queued hash hmem
    obtain rfl : e = e' := Option.some.inj (hlook.symm.trans hlook')
    exact absurd hdata' (by simp [hdata])
  · rw [h.counted hash e hlook hmem, countOf_nodata hdata]

/-! ## Edits that leave the links -/

/-- The place of an entry, which no edit changes. -/
structure SamePlace (e e' : CBlockIndex) : Prop where
  pprev : e'.pprev = e.pprev
  nHeight : e'.nHeight = e.nHeight
  nChainWork : e'.nChainWork = e.nChainWork
  nBits : e'.nBits = e.nBits

/-- What other entries read of one, and what its own count is made of. -/
structure SameLinks (e e' : CBlockIndex) : Prop extends SamePlace e e' where
  nTx : e'.nTx = e.nTx
  nChainTx : e'.nChainTx = e.nChainTx
  haveData : e'.nStatus.haveData = e.nStatus.haveData

theorem SamePlace.refl (e : CBlockIndex) : SamePlace e e := ⟨rfl, rfl, rfl, rfl⟩

theorem SameLinks.refl (e : CBlockIndex) : SameLinks e e := ⟨SamePlace.refl e, rfl, rfl, rfl⟩

theorem entry_edit_rel {R : CBlockIndex → CBlockIndex → Prop} (hrefl : ∀ e, R e e)
    (hf : ∀ e, T.entry hash = some e → R e (f e)) :
    (∀ hash' e, T.entry hash' = some e → ∃ e', (T.edit hash f).entry hash' = some e' ∧ R e e') ∧
    (∀ hash' e', (T.edit hash f).entry hash' = some e' → ∃ e, T.entry hash' = some e ∧ R e e') := by
  constructor
  · intro hash' e hlook
    rcases eq_or_ne hash' hash with rfl | hne
    · exact ⟨f e, by rw [entry_edit_self, hlook]; rfl, hf e hlook⟩
    · exact ⟨e, by rw [entry_edit_ne hne, hlook], hrefl e⟩
  · intro hash' e' hlook
    rcases eq_or_ne hash' hash with rfl | hne
    · rw [entry_edit_self] at hlook
      obtain ⟨e, he, rfl⟩ := Option.map_eq_some_iff.mp hlook
      exact ⟨e, he, hf e he⟩
    · rw [entry_edit_ne hne] at hlook
      exact ⟨e', hlook, hrefl e'⟩

theorem Standing.edit (h : Standing N T)
    (hsound : ∀ e, T.entry hash = some e → Sound N hash e → Sound N hash (f e))
    (hplace : ∀ e, T.entry hash = some e → SamePlace e (f e)) : Standing N (T.edit hash f) := by
  obtain ⟨hto, hfrom⟩ := entry_edit_rel SamePlace.refl hplace
  constructor
  · intro hash' e' hlook
    rcases eq_or_ne hash' hash with rfl | hne
    · rw [entry_edit_self] at hlook
      obtain ⟨e, he, rfl⟩ := Option.map_eq_some_iff.mp hlook
      exact hsound e he (h.sound _ e he)
    · rw [entry_edit_ne hne] at hlook
      exact h.sound hash' e' hlook
  · intro hash' e' hlook
    obtain ⟨e, he, hsame⟩ := hfrom hash' e' hlook
    have hplaced := h.placed hash' e he
    constructor
    · intro hroot
      rw [hsame.nHeight, hsame.nChainWork, hsame.nBits]
      exact hplaced.root (hsame.pprev.symm.trans hroot)
    · intro p hp
      obtain ⟨q, hq, hheight, hwork⟩ := hplaced.next p (hsame.pprev.symm.trans hp)
      obtain ⟨q', hq', hsame'⟩ := hto p q hq
      refine ⟨q', hq', ?_, ?_⟩
      · rw [hsame.nHeight, hsame'.nHeight, hheight]
      · rw [hsame.nChainWork, hsame'.nChainWork, hsame.nBits, hwork]

/-- **An edit that leaves the links keeps the index in order.** -/
theorem Linking.edit (h : Linking N T queue)
    (hsound : ∀ e, T.entry hash = some e → Sound N hash e → Sound N hash (f e))
    (hlinks : ∀ e, T.entry hash = some e → SameLinks e (f e)) :
    Linking N (T.edit hash f) queue := by
  obtain ⟨hto, hfrom⟩ := entry_edit_rel SameLinks.refl hlinks
  have hcount : ∀ {e e' : CBlockIndex}, SameLinks e e' →
      (T.edit hash f).countOf e' = T.countOf e := by
    intro e e' hsame
    have hprev : ((T.edit hash f).prev e').map nChainTx =
        (T.prev e).map nChainTx := by
      unfold prev
      rw [hsame.pprev]
      cases e.pprev with
      | none => rfl
      | some p =>
        show ((T.edit hash f).entry p).map nChainTx = (T.entry p).map nChainTx
        cases hp : T.entry p with
        | none =>
          cases hp' : (T.edit hash f).entry p with
          | none => rfl
          | some q' =>
            obtain ⟨q, hq, -⟩ := hfrom p q' hp'
            exact absurd (hp.symm.trans hq) (by simp)
        | some q =>
          obtain ⟨q', hq', hq⟩ := hto p q hp
          rw [hq', Option.map_some, Option.map_some, hq.nChainTx]
    unfold countOf
    rw [hsame.haveData, hsame.nTx, hprev]
  have hup : ∀ nHeight, (T.edit hash f).upTo nHeight = T.upTo nHeight := by
    intro nHeight
    cases hlook : T.entry hash with
    | none => rw [edit_eq_self hlook]
    | some e =>
      have hsame := hlinks e hlook
      unfold upTo
      rw [total_eq _ hlook, total_edit _ hlook, hsame.nHeight, hsame.nTx]
  refine ⟨h.toStanding.edit hsound fun e he => (hlinks e he).toSamePlace, ?_, ?_, ?_, ?_, ?_⟩
  · intro hash' e' hlook hmem
    obtain ⟨e, he, hsame⟩ := hfrom hash' e' hlook
    rw [hsame.nChainTx, hcount hsame]
    exact h.counted hash' e he hmem
  · intro hash' hmem
    obtain ⟨e, he, hdata, hown, hready⟩ := h.queued hash' hmem
    obtain ⟨e', he', hsame⟩ := hto hash' e he
    refine ⟨e', he', hsame.haveData.trans hdata, ?_, ?_⟩
    · rw [hsame.nChainTx, hcount hsame]
      exact hown
    · intro q' hq'
      obtain ⟨p, hp, hlook'⟩ := Option.bind_eq_some_iff.mp hq'
      obtain ⟨q, hq, hsame'⟩ := hfrom p q' hlook'
      rw [hsame'.nChainTx]
      exact hready q (prev_of_entry (hsame.pprev.symm.trans hp) hq)
  · intro hash' e' p q' hlook hdata hp hq' hzero
    obtain ⟨e, he, hsame⟩ := hfrom hash' e' hlook
    obtain ⟨q, hq, hsame'⟩ := hfrom p q' hq'
    rw [edit_mapBlocksUnlinked]
    exact h.unlinked hash' e p q he (hsame.haveData.symm.trans hdata) (hsame.pprev.symm.trans hp) hq
      (hsame'.nChainTx.symm.trans hzero)
  · intro p hash' hmem
    rw [edit_mapBlocksUnlinked] at hmem
    obtain ⟨e, q, he, hdata, hp, hq, hzero⟩ := h.waits p hash' hmem
    obtain ⟨e', he', hsame⟩ := hto hash' e he
    obtain ⟨q', hq', hsame'⟩ := hto p q hq
    exact ⟨e', q', he', hsame.haveData.trans hdata, hsame.pprev.trans hp, hq',
      hsame'.nChainTx.trans hzero⟩
  · intro hash' e' hlook
    obtain ⟨e, he, hsame⟩ := hfrom hash' e' hlook
    rw [hsame.nChainTx, hsame.nHeight, hup]
    exact h.bounded hash' e he

/-! ## The loop -/

theorem Standing.pprev_ne (h : Standing N T) (hlook : T.entry hash = some e) :
    e.pprev ≠ some hash := by
  intro hp
  obtain ⟨q, hq, hheight, -⟩ := (h.placed hash e hlook).next hash hp
  obtain rfl : e = q := Option.some.inj (hlook.symm.trans hq)
  omega

theorem prev_edit_ne (hne : e.pprev ≠ some hash) : (T.edit hash f).prev e = T.prev e := by
  unfold prev
  cases hp : e.pprev with
  | none => rfl
  | some p =>
    have hpne : p ≠ hash := by
      rintro rfl
      exact hne hp
    exact entry_edit_ne hpne

theorem Linking.next_count (h : Linking N T queue) (hfew : T.transactions < 2 ^ 32)
    (hlook : T.entry hash = some e) (hdata : e.nStatus.haveData = true) (hready : T.Ready e) :
    (((T.prev e).map nChainTx).getD 0 + e.nTx) % 2 ^ 32 = T.countOf e ∧
      T.countOf e ≠ 0 ∧ T.countOf e ≤ T.upTo e.nHeight := by
  have hpos : 0 < e.nTx := (h.sound hash e hlook).data hdata
  have htotal := T.upTo_le_transactions e.nHeight
  cases hp : e.pprev with
  | none =>
    have hprev : T.prev e = none := prev_of_root hp
    have hown := nTx_le_upTo hlook
    rw [hprev, countOf_root hdata hprev, Option.map_none, Option.getD_none, Nat.zero_add,
      Nat.mod_eq_of_lt (by omega)]
    exact ⟨rfl, by omega, hown⟩
  | some p =>
    obtain ⟨q, hq, hheight, -⟩ := (h.placed hash e hlook).next p hp
    have hprev : T.prev e = some q := prev_of_entry hp hq
    have hne : q.nChainTx ≠ 0 := hready q hprev
    have hbelow := h.bounded p q hq
    have hsum := upTo_add_le hlook hheight
    rw [hprev, countOf_next hdata hprev hne, Option.map_some, Option.getD_some,
      Nat.mod_eq_of_lt (by omega)]
    exact ⟨rfl, by omega, by omega⟩

/-- The entry that a round of the loop gives its count. -/
def counting (T : BlockTree) (e : CBlockIndex) : CBlockIndex := { e with
  nChainTx := (((T.prev e).map CBlockIndex.nChainTx).getD 0 + e.nTx) % 2 ^ 32
  nSequenceId := T.nBlockSequenceId }

/-- What a round finds: the entry it takes, whose count is now its own. -/
structure Round (T : BlockTree) (hash : uint256) (e : CBlockIndex) : Prop where
  look : T.entry hash = some e
  count : (T.counting e).nChainTx = T.countOf e
  pos : T.countOf e ≠ 0
  pprev_ne : e.pprev ≠ some hash

section
variable {x : CBlockIndex} {p c : uint256}

theorem entry_link_iff (h : Round T hash e) :
    (T.link N hash).entry hash' = some x ↔
      (hash' = hash ∧ x = T.counting e) ∨ (hash' ≠ hash ∧ T.entry hash' = some x) :=
  entry_edit_eq_some h.look

theorem Round.self (h : Round T hash e) : (T.link N hash).entry hash = some (T.counting e) :=
  (entry_link_iff h).mpr (.inl ⟨rfl, rfl⟩)

theorem Round.other (h : Round T hash e) (hne : hash' ≠ hash) (hx : T.entry hash' = some x) :
    (T.link N hash).entry hash' = some x :=
  (entry_link_iff h).mpr (.inr ⟨hne, hx⟩)

theorem prev_link_ne (hne : x.pprev ≠ some hash) : (T.link N hash).prev x = T.prev x :=
  prev_edit_ne hne

theorem Round.prev_child (h : Round T hash e) (hp : x.pprev = some hash) :
    (T.link N hash).prev x = some (T.counting e) := prev_of_entry hp h.self

theorem countOf_link_ne (hne : x.pprev ≠ some hash) : (T.link N hash).countOf x = T.countOf x := by
  unfold countOf
  rw [prev_link_ne hne]

theorem Round.countOf_self (h : Round T hash e) :
    (T.link N hash).countOf (T.counting e) = T.countOf e :=
  countOf_link_ne (x := T.counting e) h.pprev_ne

theorem Round.countOf_child (h : Round T hash e) (hp : x.pprev = some hash)
    (hsame : e.nChainTx = T.countOf e) : (T.link N hash).countOf x = T.countOf x := by
  unfold countOf
  rw [h.prev_child hp, prev_of_entry hp h.look, Option.map_some, Option.map_some, h.count, hsame]

theorem Round.ready (h : Round T hash e) (hready : x.pprev ≠ some hash → T.Ready x) :
    (T.link N hash).Ready x := by
  intro q hq
  by_cases hp : x.pprev = some hash
  · obtain rfl : T.counting e = q := Option.some.inj ((h.prev_child hp).symm.trans hq)
    rw [h.count]
    exact h.pos
  · exact hready hp q ((prev_link_ne hp).symm.trans hq)

/-! ### What a round keeps -/

section
variable (h : Linking N T (hash :: queue)) (hround : Round T hash e)
include h hround

theorem Linking.link_counted
    (hown : e.nChainTx = 0 ∨ e.nChainTx = T.countOf e) (hx : (T.link N hash).entry hash' = some x)
    (hmem : hash' ∉ queue ++ T.waiting hash) : x.nChainTx = (T.link N hash).countOf x := by
  rw [mem_append, not_or] at hmem
  obtain ⟨hqueue, hwaiting⟩ := hmem
  rcases (entry_link_iff hround).mp hx with ⟨rfl, rfl⟩ | ⟨hne, hx'⟩
  · rw [hround.count, hround.countOf_self]
  · have hbefore : x.nChainTx = T.countOf x := by
      refine h.counted hash' x hx' ?_
      rw [mem_cons, not_or]
      exact ⟨hne, hqueue⟩
    rw [hbefore]
    by_cases hp : x.pprev = some hash
    · cases hxdata : x.nStatus.haveData with
      | false => rw [countOf_nodata hxdata, countOf_nodata hxdata]
      | true =>
        rcases hown with hzero | hsame
        · have hlinked : (hash, hash') ∈ T.mapBlocksUnlinked :=
            h.unlinked hash' x hash e hx' hxdata hp hround.look hzero
          refine absurd (mem_map.mpr ⟨(hash, hash'), ?_, rfl⟩) hwaiting
          exact mem_filter.mpr ⟨hlinked, beq_self_eq_true hash⟩
        · exact (hround.countOf_child hp hsame).symm
    · exact (countOf_link_ne hp).symm

theorem Linking.link_queued
    (hdata : e.nStatus.haveData = true) (hown : e.nChainTx = 0 ∨ e.nChainTx = T.countOf e)
    (hready : T.Ready e) (hqueue : hash' ∈ queue) :
    ∃ x, (T.link N hash).entry hash' = some x ∧ x.nStatus.haveData = true ∧
      (x.nChainTx = 0 ∨ x.nChainTx = (T.link N hash).countOf x) ∧ (T.link N hash).Ready x := by
  obtain ⟨x, hx, hxdata, hxown, hxready⟩ := h.queued hash' (mem_cons_of_mem hash hqueue)
  rcases eq_or_ne hash' hash with rfl | hne
  · refine ⟨T.counting e, hround.self, hdata, .inr ?_, hround.ready fun _ => hready⟩
    rw [hround.count, hround.countOf_self]
  · refine ⟨x, hround.other hne hx, hxdata, ?_, hround.ready fun _ => hxready⟩
    refine hxown.imp id ?_
    intro hxcount
    rw [hxcount]
    by_cases hp : x.pprev = some hash
    · have hne0 : e.nChainTx ≠ 0 := hxready e (prev_of_entry hp hround.look)
      exact (hround.countOf_child hp (hown.resolve_left hne0)).symm
    · exact (countOf_link_ne hp).symm

theorem Linking.link_waited (hwaiting : hash' ∈ T.waiting hash) :
    ∃ x, (T.link N hash).entry hash' = some x ∧ x.nStatus.haveData = true ∧
      (x.nChainTx = 0 ∨ x.nChainTx = (T.link N hash).countOf x) ∧ (T.link N hash).Ready x := by
  obtain ⟨⟨p, c⟩, hlink, rfl⟩ := mem_map.mp hwaiting
  obtain ⟨hlinked, hp⟩ := mem_filter.mp hlink
  obtain rfl : p = hash := eq_of_beq hp
  obtain ⟨x, q, hx, hxdata, hxp, hq, hzero⟩ := h.waits p c hlinked
  have hne : c ≠ p := by
    rintro rfl
    exact h.pprev_ne hx hxp
  have hxprev : T.prev x = some q := prev_of_entry hxp hq
  refine ⟨x, hround.other hne hx, hxdata, .inl ?_, hround.ready fun hnot => absurd hxp hnot⟩
  have hout : c ∉ p :: queue := by
    intro hin
    obtain ⟨x', hx', -, -, hready'⟩ := h.queued c hin
    obtain rfl : x = x' := Option.some.inj (hx.symm.trans hx')
    exact hready' q hxprev hzero
  exact (h.counted c x hx hout).trans (countOf_unready hxprev hzero)

end

theorem Round.uncounted (h : Round T hash e) (hq : (T.link N hash).entry p = some q)
    (hzero : q.nChainTx = 0) : p ≠ hash ∧ T.entry p = some q := by
  rcases (entry_link_iff h).mp hq with ⟨-, rfl⟩ | hother
  · exact absurd (h.count.symm.trans hzero) h.pos
  · exact hother

section
variable (h : Linking N T (hash :: queue)) (hround : Round T hash e)
include h hround

theorem Linking.link_unlinked
    (hx : (T.link N hash).entry c = some x) (hxdata : x.nStatus.haveData = true)
    (hxp : x.pprev = some p) (hq : (T.link N hash).entry p = some q) (hzero : q.nChainTx = 0) :
    (p, c) ∈ (T.link N hash).mapBlocksUnlinked := by
  obtain ⟨hpne, hq'⟩ := hround.uncounted hq hzero
  refine mem_filter.mpr ⟨?_, by simpa using hpne⟩
  rcases (entry_link_iff hround).mp hx with ⟨rfl, rfl⟩ | ⟨-, hx'⟩
  · exact h.unlinked c e p q hround.look hxdata hxp hq' hzero
  · exact h.unlinked c x p q hx' hxdata hxp hq' hzero

theorem Linking.link_waits (hmem : (p, c) ∈ (T.link N hash).mapBlocksUnlinked) :
    ∃ x q, (T.link N hash).entry c = some x ∧ x.nStatus.haveData = true ∧ x.pprev = some p ∧
      (T.link N hash).entry p = some q ∧ q.nChainTx = 0 := by
  obtain ⟨hlinked, hp⟩ := mem_filter.mp hmem
  have hpne : p ≠ hash := by simpa using hp
  obtain ⟨x, q, hx, hxdata, hxp, hq, hzero⟩ := h.waits p c hlinked
  rcases eq_or_ne c hash with rfl | hne
  · obtain rfl : e = x := Option.some.inj (hround.look.symm.trans hx)
    exact ⟨T.counting e, q, hround.self, hxdata, hxp, hround.other hpne hq, hzero⟩
  · exact ⟨x, q, hround.other hne hx, hxdata, hxp, hround.other hpne hq, hzero⟩

end

theorem Round.upTo (h : Round T hash e) (nHeight : ℕ) :
    (T.link N hash).upTo nHeight = T.upTo nHeight := by
  have hedit : (T.edit hash T.counting).upTo nHeight = T.upTo nHeight := by
    unfold BlockTree.upTo
    rw [total_eq _ h.look, total_edit _ h.look]
    rfl
  exact hedit

end

/-- **One round**: the entry taken has its count, and what waited for it is in the queue. -/
theorem Linking.link (h : Linking N T (hash :: queue)) (hfew : T.transactions < 2 ^ 32) :
    Linking N (T.link N hash) (queue ++ T.waiting hash) := by
  obtain ⟨e, hlook, hdata, hown, hready⟩ := h.queued hash mem_cons_self
  obtain ⟨hcount, hpos, hle⟩ := h.next_count hfew hlook hdata hready
  have hround : Round T hash e := ⟨hlook, hcount, hpos, h.pprev_ne hlook⟩
  have hstanding : Standing N (T.edit hash T.counting) := h.toStanding.edit
    (fun e _ hs => ⟨hs.key, hs.nonzero, hs.tree, hs.valid_lt, hs.stakeless, hs.prevout_lt,
      hs.checkpoint, hs.mints_le, hs.data, hs.nodata⟩) fun _ _ => ⟨rfl, rfl, rfl, rfl⟩
  refine ⟨⟨hstanding.sound, ?_⟩, ?_, ?_, ?_, ?_, ?_⟩
  · intro hash' x hx
    exact ⟨(hstanding.placed hash' x hx).root, (hstanding.placed hash' x hx).next⟩
  · intro hash' x hx hmem
    exact h.link_counted hround hown hx hmem
  · intro hash' hmem
    rcases mem_append.mp hmem with hqueue | hwaiting
    · exact h.link_queued hround hdata hown hready hqueue
    · exact h.link_waited hround hwaiting
  · intro c x p q hx hxdata hxp hq hzero
    exact h.link_unlinked hround hx hxdata hxp hq hzero
  · intro p c hmem
    exact h.link_waits hround hmem
  · intro hash' x hx
    rw [hround.upTo]
    rcases (entry_link_iff hround).mp hx with ⟨rfl, rfl⟩ | ⟨-, hx'⟩
    · rw [hround.count]
      exact hle
    · exact h.bounded hash' x hx'

theorem transactions_link (hlook : T.entry hash = some e) :
    (T.link N hash).transactions = T.transactions := by
  have hedit := total_edit (f := fun e => { e with
    nChainTx := (((T.prev e).map nChainTx).getD 0 + e.nTx) % 2 ^ 32
    nSequenceId := T.nBlockSequenceId }) nTx hlook
  exact hedit.trans (total_eq nTx hlook).symm

/-- **The whole loop.** -/
theorem linkAll_wellFormed (h : Linking N T queue) (hfew : T.transactions < 2 ^ 32) :
    WellFormed N (linkAll N T queue) := by
  fun_induction linkAll N T queue with
  | case1 T => exact h
  | case2 T hash queue ih =>
    obtain ⟨e, hlook, -⟩ := h.queued hash mem_cons_self
    refine ih (h.link hfew) ?_
    rw [transactions_link hlook]
    exact hfew

/-! ## Data arrives -/

section
variable {block : CBlock} {pos : CDiskBlockPos}

@[simp] theorem received_pprev : (received block pos e).pprev = e.pprev := by
  unfold received; split <;> rfl

@[simp] theorem received_haveData : (received block pos e).nStatus.haveData = true := by
  unfold received; split <;> simp [CBlockIndex.SetProofOfStake]

theorem received_nChainTx : (received block pos e).nChainTx = 0 := by
  unfold received; split <;> rfl

theorem received_samePlace : SamePlace e (received block pos e) := by
  unfold received
  split <;> exact ⟨rfl, rfl, rfl, rfl⟩

theorem or_stake_and (nFlags : BitVec 32) :
    (nFlags ||| BLOCK_PROOF_OF_STAKE) &&& BLOCK_PROOF_OF_STAKE ≠ 0 := by
  intro h
  have hbit := congrArg (fun b => b.getLsbD 0) h
  simp [BLOCK_PROOF_OF_STAKE] at hbit

theorem RaiseValidity_lt {s : BlockStatus} {n : ℕ} (hs : s.valid < 8) (hn : n < 8) :
    (s.RaiseValidity n).valid < 8 := by
  unfold BlockStatus.RaiseValidity
  split_ifs
  · exact hs
  · exact hn
  · exact hs

theorem Sound.received (h : Sound N hash e) (hvtx : block.vtx ≠ []) :
    Sound N hash (received block pos e) := by
  have hsize : 0 < block.vtx.length := length_pos_iff.mpr hvtx
  have hlevel : BLOCK_VALID_TREE ≤
      (({ e.nStatus with haveData := true } : BlockStatus).RaiseValidity
        BLOCK_VALID_TRANSACTIONS).valid :=
    Nat.le_trans h.tree (BlockStatus.le_RaiseValidity (s := { e.nStatus with haveData := true }) _)
  have hlt : (({ e.nStatus with haveData := true } : BlockStatus).RaiseValidity
      BLOCK_VALID_TRANSACTIONS).valid < 8 := RaiseValidity_lt h.valid_lt (by decide)
  unfold BlockTree.received
  split
  · refine ⟨h.key, h.nonzero, hlevel, hlt, ?_, h.prevout_lt, h.checkpoint, h.mints_le,
      fun _ => hsize, ?_⟩
    · intro hpos
      simp only [CBlockIndex.IsProofOfStake, CBlockIndex.SetProofOfStake,
        bne_eq_false_iff_eq] at hpos
      exact absurd hpos (or_stake_and e.nFlags)
    · intro hdata
      simp at hdata
  · refine ⟨h.key, h.nonzero, hlevel, hlt, h.stakeless, h.prevout_lt, h.checkpoint, h.mints_le,
      fun _ => hsize, ?_⟩
    intro hdata
    simp at hdata

theorem data_received (block : CBlock) (pos : CDiskBlockPos) (h : WellFormed N T)
    (hlook : T.entry hash = some e)
    (hdata : e.nStatus.haveData = false) (hvtx : block.vtx ≠ []) :
    Standing N (T.edit hash (received block pos)) ∧
    (∀ hash' x, hash' ≠ hash → T.entry hash' = some x →
      x.nChainTx = (T.edit hash (received block pos)).countOf x) ∧
    (∀ hash' x, (T.edit hash (received block pos)).entry hash' = some x →
      x.nChainTx ≤ (T.edit hash (received block pos)).upTo x.nHeight) := by
  have hzero : e.nChainTx = 0 := h.nChainTx_nodata hlook hdata
  have hself : (T.edit hash (received block pos)).entry hash = some (received block pos e) := by
    rw [entry_edit_self, hlook, Option.map_some]
  refine ⟨?_, ?_, ?_⟩
  · exact h.toStanding.edit (fun e _ hs => hs.received hvtx) fun e _ => received_samePlace
  · intro hash' x hne hx
    rw [h.counted hash' x hx not_mem_nil]
    unfold countOf
    by_cases hp : x.pprev = some hash
    · rw [prev_of_entry hp hlook, prev_of_entry hp hself, Option.map_some, Option.map_some, hzero,
        received_nChainTx]
    · rw [prev_edit_ne hp]
  · intro hash' x hx
    have hup := upTo_edit_ge (f := received block pos) hlook received_samePlace.nHeight
      (by rw [(h.sound hash e hlook).nodata hdata]; exact Nat.zero_le _)
    rcases (entry_edit_eq_some hlook).mp hx with ⟨-, rfl⟩ | ⟨-, hx'⟩
    · rw [received_nChainTx]
      exact Nat.zero_le _
    · exact Nat.le_trans (h.bounded hash' x hx') (hup x.nHeight)

theorem transactions_received (block : CBlock) (pos : CDiskBlockPos) (h : WellFormed N T)
    (hlook : T.entry hash = some e)
    (hdata : e.nStatus.haveData = false) :
    (T.edit hash (received block pos)).transactions = T.transactions + block.vtx.length := by
  have hbefore : T.transactions = e.nTx + totalBut nTx hash T := total_eq nTx hlook
  have hafter : (T.edit hash (received block pos)).transactions =
      (received block pos e).nTx + totalBut nTx hash T := total_edit nTx hlook
  have hsize : (received block pos e).nTx = block.vtx.length := by
    unfold received; split <;> rfl
  rw [hafter, hbefore, hsize, (h.sound hash e hlook).nodata hdata]
  omega

theorem entry_received_self (hlook : T.entry hash = some e) :
    (T.edit hash (received block pos)).entry hash = some (received block pos e) := by
  rw [entry_edit_self, hlook, Option.map_some]

theorem prev_received (block : CBlock) (pos : CDiskBlockPos) (h : WellFormed N T)
    (hlook : T.entry hash = some e) :
    (T.edit hash (received block pos)).prev (received block pos e) = T.prev e := by
  have hpself : (received block pos e).pprev ≠ some hash := by
    rw [received_pprev]
    exact h.pprev_ne hlook
  rw [prev_edit_ne hpself]
  unfold prev
  rw [received_pprev]

variable {p : uint256}

theorem received_waits (block : CBlock) (pos : CDiskBlockPos) (h : WellFormed N T)
    (hlook : T.entry hash = some e) (hdata : e.nStatus.haveData = false)
    (hmem : (p, hash') ∈ T.mapBlocksUnlinked) :
    ∃ x q, (T.edit hash (received block pos)).entry hash' = some x ∧ x.nStatus.haveData = true ∧
      x.pprev = some p ∧ (T.edit hash (received block pos)).entry p = some q ∧
      q.nChainTx = 0 := by
  obtain ⟨x, q, hx, hxdata, hxp, hq, hzero⟩ := h.waits p hash' hmem
  have hne : hash' ≠ hash := by
    rintro rfl
    obtain rfl : e = x := Option.some.inj (hlook.symm.trans hx)
    exact absurd hxdata (by simp [hdata])
  rcases eq_or_ne p hash with rfl | hpne
  · exact ⟨x, _, (entry_edit_ne hne).trans hx, hxdata, hxp, entry_received_self hlook,
      received_nChainTx⟩
  · exact ⟨x, q, (entry_edit_ne hne).trans hx, hxdata, hxp, (entry_edit_ne hpne).trans hq, hzero⟩

theorem received_unlinked (h : WellFormed N T) (hlook : T.entry hash = some e)
    (hdata : e.nStatus.haveData = false) {x : CBlockIndex}
    (hx : T.entry hash' = some x) (hxdata : x.nStatus.haveData = true) (hxp : x.pprev = some p)
    (hq : (T.edit hash (received block pos)).entry p = some q) (hzero : q.nChainTx = 0) :
    (p, hash') ∈ T.mapBlocksUnlinked := by
  rcases (entry_edit_eq_some hlook).mp hq with ⟨rfl, -⟩ | ⟨-, hq'⟩
  · exact h.unlinked hash' x p e hx hxdata hxp hlook (h.nChainTx_nodata hlook hdata)
  · exact h.unlinked hash' x p q hx hxdata hxp hq' hzero

theorem received_linkAll (block : CBlock) (pos : CDiskBlockPos) (h : WellFormed N T)
    (hlook : T.entry hash = some e) (hdata : e.nStatus.haveData = false) (hvtx : block.vtx ≠ [])
    (hfew : T.transactions + block.vtx.length < 2 ^ 32) (hready : T.Ready e) :
    WellFormed N (linkAll N (T.edit hash (received block pos)) [hash]) := by
  obtain ⟨hstanding, hcounted, hbounded⟩ := data_received block pos h hlook hdata hvtx
  have htotal := transactions_received block pos h hlook hdata
  refine linkAll_wellFormed ⟨hstanding, ?_, ?_, ?_, ?_, hbounded⟩ (by rw [htotal]; exact hfew)
  · intro hash' x hx hmem
    have hne : hash' ≠ hash := fun heq => hmem (mem_singleton.mpr heq)
    exact hcounted hash' x hne ((entry_edit_ne hne).symm.trans hx)
  · intro hash' hmem
    obtain rfl : hash' = hash := mem_singleton.mp hmem
    refine ⟨_, entry_received_self hlook, received_haveData, .inl received_nChainTx, ?_⟩
    intro q hq
    exact hready q ((prev_received block pos h hlook).symm.trans hq)
  · intro hash' x p q hx hxdata hxp hq hzero
    rw [edit_mapBlocksUnlinked]
    rcases (entry_edit_eq_some hlook).mp hx with ⟨rfl, rfl⟩ | ⟨hne, hx'⟩
    · have hq' : T.prev e = some q :=
        (prev_received block pos h hlook).symm.trans (prev_of_entry hxp hq)
      exact absurd hzero (hready q hq')
    · exact received_unlinked h hlook hdata hx' hxdata hxp hq hzero
  · intro p hash' hmem
    rw [edit_mapBlocksUnlinked] at hmem
    exact received_waits block pos h hlook hdata hmem

theorem received_waiting (block : CBlock) (pos : CDiskBlockPos) (h : WellFormed N T)
    (hlook : T.entry hash = some e) (hdata : e.nStatus.haveData = false) (hvtx : block.vtx ≠ [])
    (hp : e.pprev = some p) (hq : T.entry p = some q) (hzero : q.nChainTx = 0) :
    WellFormed N { T.edit hash (received block pos) with
      mapBlocksUnlinked := (p, hash) :: (T.edit hash (received block pos)).mapBlocksUnlinked } := by
  obtain ⟨hstanding, hcounted, hbounded⟩ := data_received block pos h hlook hdata hvtx
  have hprevq : T.prev e = some q := prev_of_entry hp hq
  have hpne : p ≠ hash := by
    rintro rfl
    exact h.pprev_ne hlook hp
  refine ⟨⟨hstanding.sound, ?_⟩, ?_, ?_, ?_, ?_, hbounded⟩
  · intro hash' x hx
    exact ⟨(hstanding.placed hash' x hx).root, (hstanding.placed hash' x hx).next⟩
  · intro hash' x hx _
    rcases (entry_edit_eq_some hlook).mp hx with ⟨rfl, rfl⟩ | ⟨hne, hx'⟩
    · have hnone := countOf_unready ((prev_received block pos h hlook).trans
        hprevq) hzero
      exact received_nChainTx.trans hnone.symm
    · exact hcounted hash' x hne hx'
  · intro hash' hmem
    exact nomatch hmem
  · intro hash' x p' q' hx hxdata hxp hq' hzero'
    rcases (entry_edit_eq_some hlook).mp hx with ⟨rfl, rfl⟩ | ⟨hne, hx'⟩
    · obtain rfl : p = p' := by
        rw [received_pprev, hp] at hxp
        exact Option.some.inj hxp
      exact .head _
    · rw [edit_mapBlocksUnlinked]
      exact .tail _ (received_unlinked h hlook hdata hx' hxdata hxp hq' hzero')
  · intro p' hash' hmem
    rw [edit_mapBlocksUnlinked] at hmem
    rcases mem_cons.mp hmem with heq | hmem
    · cases heq
      exact ⟨_, q, entry_received_self hlook, received_haveData, by rw [received_pprev, hp],
        (entry_edit_ne hpne).trans hq, hzero⟩
    · exact received_waits block pos h hlook hdata hmem

/-- **The data of a block enters**, its predecessor not having failed. -/
theorem ReceivedBlockTransactions_wellFormed (h : WellFormed N T) (hlook : T.entry hash = some e)
    (hdata : e.nStatus.haveData = false) (hvtx : block.vtx ≠ [])
    (hfew : T.transactions + block.vtx.length < 2 ^ 32)
    (hprev : ∀ q, T.prev e = some q → q.nStatus.failed = false) :
    WellFormed N (T.ReceivedBlockTransactions N block hash pos) := by
  have hready := received_linkAll block pos h hlook hdata hvtx hfew
  have hpprev : ((T.edit hash (received block pos)).entry hash).bind (fun e => e.pprev) =
      e.pprev := by
    rw [entry_received_self hlook, Option.bind_some, received_pprev]
  unfold ReceivedBlockTransactions
  dsimp only
  rw [hpprev]
  cases hp : e.pprev with
  | none =>
    refine hready ?_
    intro q hq
    rw [prev_of_root hp] at hq
    cases hq
  | some p =>
    obtain ⟨q, hq, -⟩ := (h.placed hash e hlook).next p hp
    have hpne : p ≠ hash := by
      rintro rfl
      exact h.pprev_ne hlook hp
    have hq' : (T.edit hash (received block pos)).entry p = some q := (entry_edit_ne hpne).trans hq
    have hprevq : T.prev e = some q := prev_of_entry hp hq
    dsimp only
    rw [hq']
    dsimp only
    by_cases hzero : q.nChainTx = 0
    · have hvalid : q.nStatus.IsValid BLOCK_VALID_TREE = true :=
        BlockStatus.IsValid_iff.mpr ⟨hprev q hprevq, (h.sound p q hq).tree⟩
      rw [if_neg (by simp [hzero]), if_pos hvalid]
      exact received_waiting block pos h hlook hdata hvtx hp hq hzero
    · rw [if_pos hzero]
      refine hready ?_
      intro q' hq'
      obtain rfl : q = q' := Option.some.inj (hprevq.symm.trans hq')
      exact hzero

end

/-! ## Headers enter -/

section
variable {block : CBlock}

theorem wellFormed_insert (h : WellFormed N T) (hnone : T.entry hash = none)
    (hsound : Sound N hash e) (hplaced : Placed T e) (hdata : e.nStatus.haveData = false)
    (hcount : e.nChainTx = 0) :
    WellFormed N { T with mapBlockIndex := T.mapBlockIndex.insert hash e } := by
  let T' : BlockTree := { T with mapBlockIndex := T.mapBlockIndex.insert hash e }
  have hself : T'.entry hash = some e := AList.lookup_insert _
  have hother : ∀ {hash' : uint256}, hash' ≠ hash → T'.entry hash' = T.entry hash' :=
    fun hne => AList.lookup_insert_ne hne
  have hknown : ∀ {p : uint256} {q : CBlockIndex}, T.entry p = some q → p ≠ hash := by
    rintro p q hq rfl
    rw [hnone] at hq
    cases hq
  have hcases : ∀ {hash' : uint256} {x : CBlockIndex}, T'.entry hash' = some x →
      (hash' = hash ∧ x = e) ∨ (hash' ≠ hash ∧ T.entry hash' = some x) := by
    intro hash' x hx
    rcases eq_or_ne hash' hash with rfl | hne
    · exact .inl ⟨rfl, (Option.some.inj (hself.symm.trans hx)).symm⟩
    · exact .inr ⟨hne, (hother hne).symm.trans hx⟩
  have hfrom : ∀ {x : CBlockIndex}, Placed T x → ∀ {p : uint256} {q : CBlockIndex},
      x.pprev = some p → T'.entry p = some q → T.entry p = some q := by
    intro x hx p q hp hq
    obtain ⟨q', hq', -⟩ := hx.next p hp
    rcases hcases hq with ⟨rfl, -⟩ | ⟨-, hq''⟩
    · exact absurd rfl (hknown hq')
    · exact hq''
  have hplace : ∀ {hash' : uint256} {x : CBlockIndex}, T'.entry hash' = some x → Placed T x := by
    intro hash' x hx
    rcases hcases hx with ⟨-, rfl⟩ | ⟨-, hx'⟩
    · exact hplaced
    · exact h.placed hash' x hx'
  refine ⟨⟨?_, ?_⟩, ?_, ?_, ?_, ?_, ?_⟩
  · intro hash' x hx
    rcases hcases hx with ⟨rfl, rfl⟩ | ⟨-, hx'⟩
    · exact hsound
    · exact h.sound hash' x hx'
  · intro hash' x hx
    refine ⟨(hplace hx).root, ?_⟩
    intro p hp
    obtain ⟨q, hq, hrest⟩ := (hplace hx).next p hp
    exact ⟨q, (hother (hknown hq)).trans hq, hrest⟩
  · intro hash' x hx _
    rcases hcases hx with ⟨-, rfl⟩ | ⟨-, hx'⟩
    · rw [hcount, countOf_nodata hdata]
    · rw [h.counted hash' x hx' not_mem_nil]
      have hprev : prev T' x = T.prev x := by
        unfold prev
        cases hp : x.pprev with
        | none => rfl
        | some p =>
          obtain ⟨q, hq, -⟩ := (h.placed hash' x hx').next p hp
          exact hother (hknown hq)
      have hsame : countOf T' x = T.countOf x := by
        unfold countOf
        rw [hprev]
      exact hsame.symm
  · intro hash' hmem
    exact nomatch hmem
  · intro hash' x p q hx hxdata hp hq hzero
    rcases hcases hx with ⟨-, rfl⟩ | ⟨-, hx'⟩
    · exact absurd hxdata (by simp [hdata])
    · exact h.unlinked hash' x p q hx' hxdata hp (hfrom (hplace hx) hp hq) hzero
  · intro p hash' hmem
    obtain ⟨x, q, hx, hxdata, hp, hq, hzero⟩ := h.waits p hash' hmem
    exact ⟨x, q, (hother (hknown hx)).trans hx, hxdata, hp, (hother (hknown hq)).trans hq, hzero⟩
  · intro hash' x hx
    rcases hcases hx with ⟨-, rfl⟩ | ⟨-, hx'⟩
    · rw [hcount]
      exact Nat.zero_le _
    · have hsum : upTo T' x.nHeight = _ := Keyed.sum_insert (b := e)
        (fun s => if s.2.nHeight ≤ x.nHeight then s.2.nTx else 0) hnone
      have hbound := h.bounded hash' x hx'
      refine Nat.le_trans hbound ?_
      rw [hsum]
      exact Nat.le_add_left _ _

theorem newEntry_root (hprev : T.entry block.hashPrevBlock = none) :
    T.newEntry N block = { ofBlock block with
      nChainWork := GetBlockProof block.nBits
      nStatus := { valid := BLOCK_VALID_TREE } } := by
  have hwork : (0 : uint256) + GetBlockProof block.nBits = GetBlockProof block.nBits :=
    BitVec.zero_add _
  unfold newEntry
  rw [hprev]
  show { ofBlock block with
    nChainWork := (0 : uint256) + GetBlockProof block.nBits
    nStatus := BlockStatus.RaiseValidity {} BLOCK_VALID_TREE } = _
  rw [hwork]
  rfl

theorem newEntry_next (hprev : T.entry block.hashPrevBlock = some q) :
    T.newEntry N block =
      { T.succeed N (block.GetHash N) (ofBlock block) block.hashPrevBlock q with
        nChainWork := q.nChainWork + GetBlockProof block.nBits
        nStatus := { valid := BLOCK_VALID_TREE } } := by
  have hlook : T.prev (T.succeed N (block.GetHash N) (ofBlock block)
      block.hashPrevBlock q) = some q := hprev
  unfold newEntry
  rw [hprev]
  dsimp only
  rw [hlook]
  rfl

theorem GetHash_eq {header header' : CBlockHeader} (hversion : header'.nVersion = header.nVersion)
    (hprev : header'.hashPrevBlock = header.hashPrevBlock)
    (hroot : header'.hashMerkleRoot = header.hashMerkleRoot) (htime : header'.nTime = header.nTime)
    (hbits : header'.nBits = header.nBits) (hnonce : header'.nNonce = header.nNonce)
    (hcheckpoint : hasCheckpoint header.nVersion = true →
      header'.nAccumulatorCheckpoint = header.nAccumulatorCheckpoint) :
    header'.GetHash N = header.GetHash N := by
  unfold CBlockHeader.GetHash
  rw [hversion, hprev, hroot, htime, hbits, hnonce]
  cases hv : hasCheckpoint header.nVersion with
  | false => rfl
  | true => rw [hcheckpoint hv]

theorem stake_of_flags (nFlags : BitVec 32) (fEntropy fGenerated : Bool) :
    (nFlags ||| (if fEntropy then BLOCK_STAKE_ENTROPY else 0) |||
      (if fGenerated then BLOCK_STAKE_MODIFIER else 0)) &&& BLOCK_PROOF_OF_STAKE =
        nFlags &&& BLOCK_PROOF_OF_STAKE := by
  have hentropy : (if fEntropy then BLOCK_STAKE_ENTROPY else 0) &&& BLOCK_PROOF_OF_STAKE = 0 := by
    cases fEntropy <;> decide
  have hgenerated :
      (if fGenerated then BLOCK_STAKE_MODIFIER else 0) &&& BLOCK_PROOF_OF_STAKE = 0 := by
    cases fGenerated <;> decide
  rw [BitVec.and_or_distrib_right, BitVec.and_or_distrib_right, hentropy, hgenerated]
  simp

theorem ofBlock_IsProofOfStake :
    (ofBlock block).IsProofOfStake = block.IsProofOfStake := by
  show ((if block.IsProofOfStake then BLOCK_PROOF_OF_STAKE else 0) &&& BLOCK_PROOF_OF_STAKE != 0) =
    block.IsProofOfStake
  cases block.IsProofOfStake <;> rfl

theorem stake_mem {tx : CTransaction} (h : block.stake = some tx) : tx ∈ block.vtx := by
  unfold CBlock.stake at h
  split at h
  · rename_i tx₀ tx₁ rest hvtx
    split_ifs at h
    cases h
    rw [hvtx]
    exact mem_cons_of_mem _ mem_cons_self
  · cases h

theorem ofBlock_prevout_lt : (ofBlock block).prevoutStake.n < 2 ^ 32 := by
  have hnull : COutPoint.SetNull.n < 2 ^ 32 := by decide
  unfold ofBlock
  cases hstake : block.stake with
  | none => exact hnull
  | some tx =>
    dsimp only
    cases hin : tx.vin.head? with
    | none => exact hnull
    | some txin => exact block.prevout_lt tx (stake_mem hstake) txin (mem_of_mem_head? hin)

theorem ofBlock_stakeless (h : block.IsProofOfStake = false) :
    (ofBlock block).prevoutStake = .SetNull ∧
      (ofBlock block).nStakeTime = 0 ∧
      (ofBlock block).hashProofOfStake = 0 := by
  have hstake : block.stake = none := Option.isNone_iff_eq_none.mp (by
    rw [← Option.not_isSome]
    exact congrArg (!·) h)
  unfold ofBlock
  rw [hstake, h]
  exact ⟨rfl, rfl, rfl⟩

theorem sound_of_block (block : CBlock) {hash : uint256} (hkey : e.GetBlockHeader.GetHash N = hash)
    (hnonzero : hash ≠ 0) (hstatus : e.nStatus = { valid := BLOCK_VALID_TREE })
    (hstake : e.IsProofOfStake = block.IsProofOfStake)
    (hprevout : e.prevoutStake = (ofBlock block).prevoutStake)
    (htime : e.nStakeTime = (ofBlock block).nStakeTime)
    (hproof : block.IsProofOfStake = false → e.hashProofOfStake = 0)
    (hcheckpoint : hasCheckpoint e.nVersion = false → e.nAccumulatorCheckpoint = 0)
    (hmints : e.vMintDenominationsInBlock = []) (htx : e.nTx = 0) : Sound N hash e := by
  refine ⟨hkey, hnonzero, ?_, ?_, ?_, ?_, hcheckpoint, ?_, ?_, ?_⟩
  · rw [hstatus]
  · rw [hstatus]
    decide
  · intro hpos
    have hblock : block.IsProofOfStake = false := hstake.symm.trans hpos
    obtain ⟨hnull, hzero, -⟩ := ofBlock_stakeless hblock
    exact ⟨hprevout.trans hnull, htime.trans hzero, hproof hblock⟩
  · rw [hprevout]
    exact ofBlock_prevout_lt
  · rw [hmints]
    exact Nat.zero_le _
  · intro hdata
    rw [hstatus] at hdata
    cases hdata
  · intro _
    exact htx

/-- **A header enters**, its predecessor in the index, or none named. -/
theorem AddToBlockIndex_wellFormed (h : WellFormed N T) (hnonzero : block.GetHash N ≠ 0)
    (hprev : T.entry block.hashPrevBlock = none → block.hashPrevBlock = 0) :
    WellFormed N (T.AddToBlockIndex N block) := by
  have hcheckpoint : hasCheckpoint block.nVersion = false →
      (ofBlock block).nAccumulatorCheckpoint = 0 := by
    intro hversion
    unfold ofBlock
    simp [hversion]
  have htaken : hasCheckpoint block.nVersion = true →
      (ofBlock block).nAccumulatorCheckpoint = block.nAccumulatorCheckpoint := by
    intro hversion
    unfold ofBlock
    simp [hversion]
  unfold AddToBlockIndex
  dsimp only
  cases hlook : T.entry (block.GetHash N) with
  | some e => exact h
  | none =>
    refine Linking.congr (T := { T with
      mapBlockIndex := T.mapBlockIndex.insert (block.GetHash N) (T.newEntry N block) }) ?_ rfl rfl
    cases hpprev : T.entry block.hashPrevBlock with
    | none =>
      have hnew := newEntry_root (N := N) hpprev
      refine wellFormed_insert h hlook ?_ ?_ ?_ ?_
      · rw [hnew]
        refine sound_of_block block ?_ hnonzero rfl ofBlock_IsProofOfStake rfl rfl
          (fun hpos => (ofBlock_stakeless hpos).2.2) hcheckpoint rfl rfl
        exact GetHash_eq rfl (hprev hpprev).symm rfl rfl rfl rfl htaken
      · rw [hnew]
        refine ⟨fun _ => ⟨rfl, rfl⟩, ?_⟩
        intro p hp
        cases hp
      · rw [hnew]
      · rw [hnew]
        rfl
    | some q =>
      have hnew := newEntry_next (N := N) hpprev
      refine wellFormed_insert h hlook ?_ ?_ ?_ ?_
      · rw [hnew]
        refine sound_of_block block ?_ hnonzero rfl ?_ rfl rfl ?_ hcheckpoint rfl rfl
        · exact GetHash_eq rfl rfl rfl rfl rfl rfl htaken
        · rw [← ofBlock_IsProofOfStake]
          exact congrArg (· != 0) (stake_of_flags (ofBlock block).nFlags _ _)
        · intro hpos
          show (if (ofBlock block).IsProofOfStake then _ else _) = (0 : uint256)
          rw [ofBlock_IsProofOfStake, hpos]
          exact (ofBlock_stakeless hpos).2.2
      · rw [hnew]
        refine ⟨?_, ?_⟩
        · intro hp
          cases hp
        · intro p hp
          obtain rfl : block.hashPrevBlock = p := Option.some.inj hp
          exact ⟨q, hpprev, rfl, rfl⟩
      · rw [hnew]
      · rw [hnew]
        rfl

theorem AddToBlockIndex_mapBlockIndex (hlook : T.entry (block.GetHash N) = none) :
    (T.AddToBlockIndex N block).mapBlockIndex =
      T.mapBlockIndex.insert (block.GetHash N) (T.newEntry N block) := by
  unfold AddToBlockIndex
  dsimp only
  rw [hlook]

theorem newEntry_hashPrevBlock (hprev : T.entry block.hashPrevBlock = none →
    block.hashPrevBlock = 0) :
    (T.newEntry N block).pprev.getD 0 = block.hashPrevBlock := by
  cases hpprev : T.entry block.hashPrevBlock with
  | none =>
    rw [newEntry_root hpprev]
    exact (hprev hpprev).symm
  | some q =>
    rw [newEntry_next hpprev]
    rfl

theorem newEntry_nTx : (T.newEntry N block).nTx = 0 := by
  unfold newEntry
  cases T.entry block.hashPrevBlock <;> rfl

end

/-! ## Steps -/

/-- What is asked of a header: its hash is not zero, the genesis block names no predecessor,
and the header already filed under its hash names the same one. -/
structure HeaderMeets (N : TreeNode) (T : BlockTree) (header : CBlockHeader) : Prop where
  nonzero : header.GetHash N ≠ 0
  genesis : header.GetHash N = N.hashGenesisBlock → header.hashPrevBlock = 0
  filed : ∀ e, T.entry (header.GetHash N) = some e → e.pprev.getD 0 = header.hashPrevBlock

/-- What is asked of a step: its header is as it should be, and the index holds fewer than
2³² transactions. -/
def Meets (N : TreeNode) (T : BlockTree) : TreeEvent → Prop
  | .header header _ => HeaderMeets N T header
  | .block block _ _ =>
    HeaderMeets N T block.toCBlockHeader ∧ T.transactions + block.vtx.length < 2 ^ 32
  | _ => True

section
variable {block : CBlock} {pos : CDiskBlockPos} {verdicts : Verdicts}

theorem hashPrevBlock_known (h : T.prevAccepted N block = true)
    (hgenesis : block.GetHash N = N.hashGenesisBlock → block.hashPrevBlock = 0) :
    T.entry block.hashPrevBlock = none → block.hashPrevBlock = 0 := by
  intro hnone
  unfold prevAccepted at h
  rw [hnone, Bool.or_false] at h
  exact hgenesis (eq_of_beq h)

/-- What `AcceptBlockHeader` leaves: an index in order, which has what it had. -/
structure HeaderKept (N : TreeNode) (T T' : BlockTree) (block : CBlock) : Prop where
  wellFormed : WellFormed N T'
  transactions : T'.transactions = T.transactions
  kept : ∀ p q, T.entry p = some q → T'.entry p = some q
  filed : ∀ e, T'.entry (block.GetHash N) = some e → e.pprev.getD 0 = block.hashPrevBlock

theorem AcceptBlockHeader_kept (block : CBlock) (verdicts : Verdicts) (h : WellFormed N T)
    (hheader : HeaderMeets N T block.toCBlockHeader) :
    HeaderKept N T (T.AcceptBlockHeader N block verdicts).1 block := by
  have hsame : HeaderKept N T T block := ⟨h, rfl, fun _ _ hq => hq, hheader.filed⟩
  unfold AcceptBlockHeader
  cases hlook : T.entry (block.GetHash N) with
  | some e => exact hsame
  | none =>
    split_ifs with hchecks
    · simp only [Bool.and_eq_true] at hchecks
      have hknown := hashPrevBlock_known hchecks.1.2 hheader.genesis
      have hmap := AddToBlockIndex_mapBlockIndex (N := N) hlook
      refine ⟨AddToBlockIndex_wellFormed h hheader.nonzero hknown, ?_, ?_, ?_⟩
      · have hsum := Keyed.sum_insert (b := T.newEntry N block)
          (fun s : Sigma fun _ : uint256 => CBlockIndex => s.2.nTx) hlook
        rw [newEntry_nTx, Nat.zero_add] at hsum
        unfold transactions
        rw [hmap]
        exact hsum
      · intro p q hq
        have hne : p ≠ block.GetHash N := by
          rintro rfl
          rw [hlook] at hq
          cases hq
        unfold entry
        rw [hmap]
        exact (AList.lookup_insert_ne hne).trans hq
      · intro e he
        unfold entry at he
        rw [hmap, AList.lookup_insert] at he
        cases he
        exact newEntry_hashPrevBlock hknown
    · exact hsame

theorem edit_failed_wellFormed (h : WellFormed N T) (failedValid failedChild : Bool) :
    WellFormed N (T.edit hash (setFailed failedValid failedChild)) :=
  h.edit (fun _ _ hs => ⟨hs.key, hs.nonzero, hs.tree, hs.valid_lt, hs.stakeless, hs.prevout_lt,
    hs.checkpoint, hs.mints_le, hs.data, hs.nodata⟩) fun _ _ =>
      ⟨⟨rfl, rfl, rfl, rfl⟩, rfl, rfl, rfl⟩

theorem AcceptBlockData_wellFormed (h : WellFormed N T)
    (hfew : T.transactions + block.vtx.length < 2 ^ 32)
    (hprev : ∀ e q, T.entry (block.GetHash N) = some e → T.prev e = some q →
      q.nStatus.failed = false) :
    WellFormed N (T.AcceptBlockData N block verdicts pos) := by
  unfold AcceptBlockData
  dsimp only
  cases hlook : T.entry (block.GetHash N) with
  | none => exact h
  | some e =>
    dsimp only
    cases hdata : e.nStatus.haveData with
    | true => exact h
    | false =>
      rw [if_neg Bool.false_ne_true]
      have hfailed : WellFormed N (T.edit (block.GetHash N)
          fun e => { e with nStatus := { e.nStatus with failedValid := true } }) :=
        h.edit (fun _ _ hs => ⟨hs.key, hs.nonzero, hs.tree, hs.valid_lt, hs.stakeless,
          hs.prevout_lt, hs.checkpoint, hs.mints_le, hs.data, hs.nodata⟩)
          fun _ _ => ⟨⟨rfl, rfl, rfl, rfl⟩, rfl, rfl, rfl⟩
      cases hvtx : block.vtx with
      | nil => exact hfailed
      | cons tx rest =>
        rw [isEmpty_cons, if_neg Bool.false_ne_true]
        cases verdicts.CheckBlock with
        | invalid => exact hfailed
        | corrupt => exact h
        | error => exact h
        | accept =>
          split_ifs
          · refine ReceivedBlockTransactions_wellFormed h hlook hdata ?_ hfew ?_
            · rw [hvtx]
              exact cons_ne_nil tx rest
            · intro q hq
              exact hprev e q hlook hq
          · exact h

theorem recordProof_mapBlockIndex (hash proof : uint256) :
    (T.recordProof hash proof).mapBlockIndex = T.mapBlockIndex ∧
      (T.recordProof hash proof).mapBlocksUnlinked = T.mapBlocksUnlinked := by
  unfold recordProof
  cases T.mapProofOfStake hash <;> exact ⟨rfl, rfl⟩

/-- **A block is offered.** -/
theorem AcceptBlock_wellFormed (h : WellFormed N T) (hheader : HeaderMeets N T block.toCBlockHeader)
    (hfew : T.transactions + block.vtx.length < 2 ^ 32) :
    WellFormed N (T.AcceptBlock N block verdicts pos) := by
  have hproven : ∀ T₁ : BlockTree, T₁.mapBlockIndex = T.mapBlockIndex →
      T₁.mapBlocksUnlinked = T.mapBlocksUnlinked → T.prevAccepted N block = true →
      WellFormed N (if (T₁.AcceptBlockHeader N block verdicts).2 then
        (T₁.AcceptBlockHeader N block verdicts).1.AcceptBlockData N block verdicts pos
        else (T₁.AcceptBlockHeader N block verdicts).1) := by
    intro T₁ hmap hwaits haccepted
    have hentry : ∀ p, T₁.entry p = T.entry p := fun p => congrArg (AList.lookup p) hmap
    have htotal : T₁.transactions = T.transactions := by
      unfold transactions
      rw [hmap]
    have hheader₁ : HeaderMeets N T₁ block.toCBlockHeader :=
      ⟨hheader.nonzero, hheader.genesis, fun e he => hheader.filed e ((hentry _).symm.trans he)⟩
    have hkept := AcceptBlockHeader_kept block verdicts (h.congr hmap hwaits) hheader₁
    split_ifs
    · refine AcceptBlockData_wellFormed hkept.wellFormed ?_ ?_
      · rw [hkept.transactions, htotal]
        exact hfew
      · intro e q he hq
        obtain ⟨p, hp, hlook⟩ := Option.bind_eq_some_iff.mp hq
        have hname : p = block.hashPrevBlock := by
          have hfiled := hkept.filed e he
          rw [hp] at hfiled
          exact hfiled
        rcases Bool.or_eq_true_iff.mp haccepted with hgenesis | hbefore
        · have hzero : p = 0 := hname.trans (hheader.genesis (eq_of_beq hgenesis))
          exact absurd hzero (hkept.wellFormed.sound p q hlook).nonzero
        · cases hprev : T.entry block.hashPrevBlock with
          | none =>
            rw [hprev] at hbefore
            cases hbefore
          | some q₀ =>
            rw [hprev] at hbefore
            have hstill := hkept.kept p q₀ (by rw [hentry, hname, hprev])
            obtain rfl : q₀ = q := Option.some.inj (hstill.symm.trans hlook)
            simpa using hbefore
    · exact hkept.wellFormed
  unfold AcceptBlock
  cases haccepted : T.prevAccepted N block with
  | false => exact h
  | true =>
    rw [Bool.not_true, if_neg Bool.false_ne_true]
    split_ifs with hwork hstake
    · exact h
    · cases verdicts.CheckProofOfStake with
      | none => exact h
      | some proof =>
        obtain ⟨hmap, hwaits⟩ := recordProof_mapBlockIndex (T := T) (block.GetHash N) proof
        exact hproven _ hmap hwaits haccepted
    · exact hproven T rfl rfl haccepted

/-- **What one step keeps.** -/
theorem treeStep_wellFormed {i : TreeEvent} (h : WellFormed N T) (hmeets : Meets N T i) :
    WellFormed N (treeStep N T i) := by
  cases i with
  | header header verdicts =>
    exact (AcceptBlockHeader_kept header.toBlock verdicts h hmeets).wellFormed
  | block block verdicts pos => exact AcceptBlock_wellFormed h hmeets.1 hmeets.2
  | figures hash figures =>
    exact h.edit (fun _ _ hs => ⟨hs.key, hs.nonzero, hs.tree, hs.valid_lt, hs.stakeless,
      hs.prevout_lt, hs.checkpoint, figures.mints_le, hs.data, hs.nodata⟩)
      fun _ _ => ⟨⟨rfl, rfl, rfl, rfl⟩, rfl, rfl, rfl⟩
  | undo hash nPos =>
    refine h.edit ?_ ?_
    · intro e _ hs
      have hlt : ∀ {s : BlockStatus}, s.valid = e.nStatus.valid →
          BLOCK_VALID_TREE ≤ (s.RaiseValidity BLOCK_VALID_SCRIPTS).valid ∧
            (s.RaiseValidity BLOCK_VALID_SCRIPTS).valid < 8 := by
        intro s hvalid
        refine ⟨Nat.le_trans hs.tree (hvalid ▸ BlockStatus.le_RaiseValidity _), ?_⟩
        exact RaiseValidity_lt (hvalid ▸ hs.valid_lt) (by decide)
      unfold setUndo
      split_ifs
      · obtain ⟨htree, hvalid⟩ := hlt (s := e.nStatus) rfl
        refine ⟨hs.key, hs.nonzero, htree, hvalid, hs.stakeless, hs.prevout_lt, hs.checkpoint,
          hs.mints_le, ?_, ?_⟩
        · intro hdata
          exact hs.data (by simpa using hdata)
        · intro hdata
          exact hs.nodata (by simpa using hdata)
      · obtain ⟨htree, hvalid⟩ := hlt (s := { e.nStatus with haveUndo := true }) rfl
        refine ⟨hs.key, hs.nonzero, htree, hvalid, hs.stakeless, hs.prevout_lt, hs.checkpoint,
          hs.mints_le, ?_, ?_⟩
        · intro hdata
          exact hs.data (by simpa using hdata)
        · intro hdata
          exact hs.nodata (by simpa using hdata)
    · intro e _
      unfold setUndo
      split_ifs
      · exact ⟨⟨rfl, rfl, rfl, rfl⟩, rfl, rfl, by simp⟩
      · exact ⟨⟨rfl, rfl, rfl, rfl⟩, rfl, rfl, by simp⟩
  | mark hash failedValid failedChild => exact edit_failed_wellFormed h failedValid failedChild
  | chain setBlockIndexCandidates chainActive => exact h.congr rfl rfl

end

end Divitae.BlockIndex.BlockTree
