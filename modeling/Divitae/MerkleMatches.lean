/-
# `MerkleMatches` — what a partial tree from a peer can report

A partial tree may come from anyone: its bits, its hashes and the number of transactions are what
the sender says.  A visit reads a `Piece` off them, whatever they are (`extract_visit`).  Where its
hash is that of a node of the block, so are those below (`found_places`), each at a place of the
block.  Nothing asks that the two children of a node differ, so the end of a level may be there
twice, and a transaction below it reported twice.

    found     the hashes that are reported
    places    the transactions of the block they are, by position
-/
import Divitae.PartialMerkleTree

namespace Divitae.PartialMerkle

open MerkleRoot List Merkle

/-- What is read from a node on. -/
inductive Piece : ℕ → Type
  | hidden {height : ℕ} (hash : uint256) : Piece height
  | leaf (hash : uint256) (isMatch : Bool) : Piece 0
  /-- the right child is beyond the end -/
  | single {height : ℕ} (left : Piece height) : Piece (height + 1)
  | node {height : ℕ} (left right : Piece height) : Piece (height + 1)

namespace Piece

def hash (C : Crypto) : {height : ℕ} → Piece height → uint256
  | _, hidden hash => hash
  | _, leaf hash _ => hash
  | _, single left => hashPair C (left.hash C) (left.hash C)
  | _, node left right => hashPair C (left.hash C) (right.hash C)

/-- The pairs that are hashed. -/
def hashed (C : Crypto) : {height : ℕ} → Piece height → List (uint256 × uint256)
  | _, hidden _ => []
  | _, leaf _ _ => []
  | _, single left => (left.hash C, left.hash C) :: left.hashed C
  | _, node left right => (left.hash C, right.hash C) :: (left.hashed C ++ right.hashed C)

def found : {height : ℕ} → Piece height → List uint256
  | _, hidden _ => []
  | _, leaf hash isMatch => if isMatch then [hash] else []
  | _, single left => left.found
  | _, node left right => left.found ++ right.found

/-- The matches as positions in a block of `n` transactions, for a piece that is its node at `pos`:
where the block has no right child, the one in the piece is the left one again. -/
def places (n : ℕ) : {height : ℕ} → Piece height → ℕ → List ℕ
  | _, hidden _, _ => []
  | _, leaf _ isMatch, pos => if isMatch then [pos] else []
  | _, single left, pos => left.places n (pos * 2)
  | height + 1, node left right, pos => left.places n (pos * 2) ++
      right.places n (if pos * 2 + 1 < CalcTreeWidth n height then pos * 2 + 1 else pos * 2)

end Piece

/-- The visit of `TraverseAndExtract`, as a piece and what is left. -/
def visit (nTransactions : ℕ) : (height pos : ℕ) → List Bool → List uint256 →
    Piece height × List Bool × List uint256
  | 0, _, fParentOfMatch :: bits, hash :: hashes => (.leaf hash fParentOfMatch, bits, hashes)
  | _ + 1, _, false :: bits, hash :: hashes => (.hidden hash, bits, hashes)
  | height + 1, pos, true :: bits, hashes =>
    let (left, bits, hashes) := visit nTransactions height (pos * 2) bits hashes
    if pos * 2 + 1 < CalcTreeWidth nTransactions height then
      let (right, bits, hashes) := visit nTransactions height (pos * 2 + 1) bits hashes
      (.node left right, bits, hashes)
    else (.single left, bits, hashes)
  | _, _, bits, hashes => (.hidden 0, bits.tail, hashes)

namespace CPartialMerkleTree

def piece (t : CPartialMerkleTree) : Piece (treeHeight t.nTransactions) :=
  (visit t.nTransactions (treeHeight t.nTransactions) 0 t.vBits t.vHash).1

/-- The matches of a tree, as positions in a block of `n` transactions. -/
def places (t : CPartialMerkleTree) (n : ℕ) : List ℕ := t.piece.places n 0

end CPartialMerkleTree

section
variable {C : Crypto} {vTxid : List uint256}

/-- **A visit reads a piece**: its hash, and its matches. -/
theorem extract_visit (n height pos : ℕ) (s : Extraction) :
    let v := visit n height pos s.bits s.hashes
    let r := TraverseAndExtract C n height pos s
    r.1 = v.1.hash C ∧ r.2.vMatch = s.vMatch ++ v.1.found ∧ r.2.bits = v.2.1 ∧
      r.2.hashes = v.2.2 := by
  induction height generalizing pos s with
  | zero =>
    obtain ⟨bits, hashes, vMatch, fBad⟩ := s
    match bits, hashes with
    | [], _ => exact ⟨rfl, (append_nil _).symm, rfl, rfl⟩
    | _ :: _, [] => exact ⟨rfl, (append_nil _).symm, rfl, rfl⟩
    | true :: _, _ :: _ => exact ⟨rfl, rfl, rfl, rfl⟩
    | false :: _, _ :: _ => exact ⟨rfl, (append_nil _).symm, rfl, rfl⟩
  | succ height ih =>
    obtain ⟨bits, hashes, vMatch, fBad⟩ := s
    match bits, hashes with
    | [], _ => exact ⟨rfl, (append_nil _).symm, rfl, rfl⟩
    | false :: _, [] => exact ⟨rfl, (append_nil _).symm, rfl, rfl⟩
    | false :: _, _ :: _ => exact ⟨rfl, (append_nil _).symm, rfl, rfl⟩
    | true :: bits, hashes =>
      obtain ⟨hhash, hfound, hbits, hhashes⟩ := ih (pos * 2) ⟨bits, hashes, vMatch, fBad⟩
      simp only [TraverseAndExtract, visit]
      split_ifs with hright
      · obtain ⟨hhash', hfound', hbits', hhashes'⟩ := ih (pos * 2 + 1)
          (TraverseAndExtract C n height (pos * 2) ⟨bits, hashes, vMatch, fBad⟩).2
        rw [hbits, hhashes] at hhash' hfound' hbits' hhashes'
        refine ⟨congrArg₂ (hashPair C) hhash hhash', ?_, hbits', hhashes'⟩
        rw [hfound', hfound, append_assoc]
        rfl
      · exact ⟨congrArg₂ (hashPair C) hhash hhash, hfound, hbits, hhashes⟩

theorem pair_mem {height pos : ℕ} (hheight : height < treeHeight vTxid.length)
    (hpos : pos < CalcTreeWidth vTxid.length (height + 1)) :
    (CalcHash C vTxid height (pos * 2), if pos * 2 + 1 < CalcTreeWidth vTxid.length height then
      CalcHash C vTxid height (pos * 2 + 1) else CalcHash C vTxid height (pos * 2)) ∈
      hashed (hashPair C) vTxid := by
  have hwide : ∀ j < height + 1, 1 < ((above (hashPair C))^[j] vTxid).length := by
    intro j hj
    rw [length_level]
    exact (treeHeight_spec vTxid.length).2 j (by omega)
  have hleft : pos * 2 < CalcTreeWidth vTxid.length height := by
    rw [width_succ] at hpos
    omega
  have hlevel := (level_at (k := height) fun j hj => hwide j (by omega)).1
  refine hashed_subset hlevel (pairs_subset (hwide height (by omega))
    (mem_of_getElem? (i := pos) ?_))
  rw [getElem?_pairs, getElem?_level hleft]
  split_ifs with hright
  · rw [getElem?_level hright]
    rfl
  · rw [List.getElem?_eq_none (by rw [length_level]; exact Nat.not_lt.mp hright)]
    rfl

/-- **A piece with the hash of a node** reports transactions of the block, at its places. -/
theorem found_places {ps : List (uint256 × uint256)} (hps : Merkle.NoCollision (hashPair C) ps)
    (hblock : hashed (hashPair C) vTxid ⊆ ps) {height : ℕ} (t : Piece height) {pos : ℕ}
    (hheight : height ≤ treeHeight vTxid.length) (hpos : pos < CalcTreeWidth vTxid.length height)
    (hpiece : t.hashed C ⊆ ps) (hhash : t.hash C = CalcHash C vTxid height pos) :
    t.found = (t.places vTxid.length pos).map (vTxid.getD · 0) ∧
      ∀ p ∈ t.places vTxid.length pos, p < vTxid.length := by
  induction t generalizing pos with
  | hidden hash => exact ⟨rfl, nofun⟩
  | leaf hash isMatch =>
    have hlt := lt_width.mp hpos
    rw [pow_zero, mul_one] at hlt
    cases isMatch with
    | false => exact ⟨rfl, nofun⟩
    | true =>
      exact ⟨congrArg (fun hash => [hash]) hhash, fun p hp => mem_singleton.mp hp ▸ hlt⟩
  | @single height left ih =>
    have hleft : pos * 2 < CalcTreeWidth vTxid.length height := by
      rw [width_succ] at hpos
      omega
    have hpair := hps _ (hpiece mem_cons_self) _ (hblock (pair_mem hheight hpos)) hhash
    exact ih (by omega) hleft (fun p hp => hpiece (.tail _ hp)) (Prod.mk.inj hpair).1
  | @node height left right ihl ihr =>
    have hleft : pos * 2 < CalcTreeWidth vTxid.length height := by
      rw [width_succ] at hpos
      omega
    have hpair := hps _ (hpiece mem_cons_self) _ (hblock (pair_mem hheight hpos)) hhash
    obtain ⟨hlhash, hrhash⟩ := Prod.mk.inj hpair
    obtain ⟨hfound, hlt⟩ := ihl (by omega) hleft
      (fun p hp => hpiece (.tail _ (mem_append_left _ hp))) hlhash
    have hrpiece : right.hashed C ⊆ ps := fun p hp =>
      hpiece (.tail _ (mem_append_right _ hp))
    have hrfound : right.found = (right.places vTxid.length
        (if pos * 2 + 1 < CalcTreeWidth vTxid.length height then pos * 2 + 1
          else pos * 2)).map (vTxid.getD · 0) ∧
        ∀ p ∈ right.places vTxid.length
          (if pos * 2 + 1 < CalcTreeWidth vTxid.length height then pos * 2 + 1 else pos * 2),
          p < vTxid.length := by
      split_ifs with hright
      · exact ihr (by omega) hright hrpiece (hrhash.trans (if_pos hright))
      · exact ihr (by omega) hleft hrpiece (hrhash.trans (if_neg hright))
    refine ⟨?_, ?_⟩
    · rw [Piece.found, Piece.places, map_append, hfound, hrfound.1]
    · intro p hp
      rcases mem_append.mp hp with hp | hp
      · exact hlt p hp
      · exact hrfound.2 p hp

theorem places_sublist_iff {l : List uint256} (hl : l.Nodup) {ps : List ℕ}
    (hps : ∀ p ∈ ps, p < l.length) :
    (ps.map (l.getD · 0)).Sublist l ↔ ps.Pairwise (· < ·) := by
  obtain ⟨qs, rfl⟩ : ∃ qs : List (Fin l.length), qs.map Fin.val = ps :=
    ⟨ps.attach.map fun p => ⟨p.1, hps p.1 p.2⟩, by
      rw [map_map]
      exact attach_map_subtype_val ps⟩
  have hget : (qs.map Fin.val).map (l.getD · 0) = qs.map fun q => l[q] := by
    rw [map_map]
    exact map_congr_left fun q _ => getD_eq_getElem _ _ q.2
  rw [hget, pairwise_map]
  constructor
  · intro hsub
    obtain ⟨is, hsame, his⟩ := sublist_eq_map_getElem hsub
    have hinj : Function.Injective fun q : Fin l.length => l[q] := fun q q' h =>
      Fin.ext ((hl.getElem_inj_iff).mp h)
    rw [map_injective_iff.mpr hinj hsame]
    exact his
  · exact map_getElem_sublist

end

/-- **What a tree reports.**  Where a tree has the height and the root of a block, its matches are
transactions of the block, in their order and each once, exactly when its places are. -/
theorem matches_in_block_iff (C : Crypto) (vtx : List CTransaction) (t : CPartialMerkleTree)
    (hdistinct : (vtx.map CTransaction.hash).Nodup)
    (hheight : treeHeight t.nTransactions = treeHeight vtx.length)
    (hroot : (ExtractMatches C t).1 = (BuildMerkleTree C vtx).1)
    (hnull : (BuildMerkleTree C vtx).1 ≠ 0)
    (hcollision : Merkle.NoCollision (hashPair C)
      (Merkle.hashed (hashPair C) (vtx.map CTransaction.hash) ++ t.piece.hashed C)) :
    (ExtractMatches C t).2.Sublist (vtx.map CTransaction.hash) ↔
      (t.places vtx.length).Pairwise (· < ·) := by
  have hne : vtx ≠ [] := by
    rintro rfl
    exact hnull root_of_nil
  have hlength : (vtx.map CTransaction.hash).length = vtx.length := length_map _
  obtain ⟨hhash, hfound, -, -⟩ := extract_visit (C := C) t.nTransactions
    (treeHeight t.nTransactions) 0 ⟨t.vBits, t.vHash, [], t.fBad⟩
  -- a tree that is refused has the null hash
  have hextract : (TraverseAndExtract C t.nTransactions (treeHeight t.nTransactions) 0
        ⟨t.vBits, t.vHash, [], t.fBad⟩).1 = (BuildMerkleTree C vtx).1 ∧
      (ExtractMatches C t).2 = (TraverseAndExtract C t.nTransactions
        (treeHeight t.nTransactions) 0 ⟨t.vBits, t.vHash, [], t.fBad⟩).2.vMatch := by
    rw [← hroot] at hnull ⊢
    revert hnull
    rw [ExtractMatches]
    dsimp only
    split_ifs <;> intro hnull <;> first | exact absurd rfl hnull | exact ⟨rfl, rfl⟩
  have hpos : 0 < CalcTreeWidth (vtx.map CTransaction.hash).length
      (treeHeight t.nTransactions) := by
    rw [lt_width, Nat.zero_mul, hlength]
    exact length_pos_iff.mpr hne
  have hnode : t.piece.hash C = CalcHash C (vtx.map CTransaction.hash)
      (treeHeight t.nTransactions) 0 := by
    refine (hhash.symm.trans hextract.1).trans ?_
    rw [hheight, CalcHash_root hne]
  obtain ⟨hplaces, hlt⟩ := found_places hcollision (subset_append_left _ _) t.piece
    (by rw [hheight, hlength]) hpos (subset_append_right _ _) hnode
  have hmatches : (ExtractMatches C t).2 =
      (t.places vtx.length).map ((vtx.map CTransaction.hash).getD · 0) := by
    rw [hextract.2, hfound, nil_append, CPartialMerkleTree.places, ← hlength]
    exact hplaces
  rw [hmatches]
  exact places_sublist_iff hdistinct (hlength ▸ hlt)

theorem treeHeight_eq {n height : ℕ} (htop : CalcTreeWidth n height ≤ 1)
    (hbelow : ∀ k < height, 1 < CalcTreeWidth n k) : treeHeight n = height := by
  obtain ⟨htop', hbelow'⟩ := treeHeight_spec n
  refine Nat.le_antisymm (Nat.not_lt.mp fun hlt => ?_) (Nat.not_lt.mp fun hlt => ?_)
  · exact absurd (hbelow' _ hlt) (Nat.not_lt.mpr htop)
  · exact absurd (hbelow _ hlt) (Nat.not_lt.mpr htop')

def threeTxs : List CTransaction := [hashedTx 1, hashedTx 2, hashedTx 3]

/-- A tree for four transactions, the last there twice.  The second time it is matched, the first
time it may be. -/
def fourLeaves (isMatch : Bool) : CPartialMerkleTree :=
  ⟨4, [true, false, true, isMatch, true], [hashPair sideBySide 1 2, 3, 3], false⟩

theorem height_three : treeHeight 3 = 2 := treeHeight_eq (by decide) (by decide)

theorem height_four : treeHeight 4 = 2 := treeHeight_eq (by decide) (by decide)

theorem extract_fourLeaves (isMatch : Bool) : ExtractMatches sideBySide (fourLeaves isMatch) =
    ((BuildMerkleTree sideBySide threeTxs).1, if isMatch then [3, 3] else [3]) := by
  dsimp only [fourLeaves]
  cases isMatch <;> decide +kernel

theorem root_three_ne : (BuildMerkleTree sideBySide threeTxs).1 ≠ 0 := by
  decide +kernel

theorem fourLeaves_no_collision (isMatch : Bool) : Merkle.NoCollision (hashPair sideBySide)
    (hashed (hashPair sideBySide) (threeTxs.map CTransaction.hash) ++
      (fourLeaves isMatch).piece.hashed sideBySide) := by
  have hblock : hashed (hashPair sideBySide) [1, 2, 3] = [(1, 2), (3, 3),
      (hashPair sideBySide 1 2, hashPair sideBySide 3 3)] := by
    rw [hashed_eq (by decide), hashed_eq (by decide), hashed_short (by decide)]
    rfl
  have hpiece : (fourLeaves isMatch).piece.hashed sideBySide =
      [(hashPair sideBySide 1 2, hashPair sideBySide 3 3), (3, 3)] := by
    rw [CPartialMerkleTree.piece]
    dsimp only [fourLeaves]
    rw [height_four]
    cases isMatch <;> rfl
  change Merkle.NoCollision _ (hashed (hashPair sideBySide) [1, 2, 3] ++ _)
  rw [hblock, hpiece]
  decide +kernel

/-- Matched once, where the block has no such leaf. -/
theorem fourLeaves_once :
    (ExtractMatches sideBySide (fourLeaves false)).2.Sublist (threeTxs.map CTransaction.hash) ↔
      ((fourLeaves false).places threeTxs.length).Pairwise (· < ·) :=
  matches_in_block_iff sideBySide threeTxs (fourLeaves false) (by decide)
    (height_four.trans height_three.symm) (congrArg Prod.fst (extract_fourLeaves false))
    root_three_ne (fourLeaves_no_collision false)

/-- **The last transaction is reported twice.** -/
theorem fourLeaves_twice :
    ¬ ∀ (vtx : List CTransaction) (t : CPartialMerkleTree), (vtx.map CTransaction.hash).Nodup →
      treeHeight t.nTransactions = treeHeight vtx.length →
      (ExtractMatches sideBySide t).1 = (BuildMerkleTree sideBySide vtx).1 →
      (BuildMerkleTree sideBySide vtx).1 ≠ 0 →
      Merkle.NoCollision (hashPair sideBySide)
        (Merkle.hashed (hashPair sideBySide) (vtx.map CTransaction.hash) ++
          t.piece.hashed sideBySide) →
      (ExtractMatches sideBySide t).2.Sublist (vtx.map CTransaction.hash) := by
  intro hall
  have hsub := hall threeTxs (fourLeaves true) (by decide) (height_four.trans height_three.symm)
    (congrArg Prod.fst (extract_fourLeaves true)) root_three_ne (fourLeaves_no_collision true)
  rw [extract_fourLeaves] at hsub
  exact absurd hsub (by decide)

end Divitae.PartialMerkle
