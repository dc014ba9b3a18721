/-
# `PartialMerkleTree` — the part of a merkle tree that a filtered block comes with

`CPartialMerkleTree` of `merkleblock.cpp`: one bit for each node that is visited, with a matched
transaction below it or not, and the hash of each where the visit stops.

    CalcHash             the node at a height and position, from the transactions
    TraverseAndBuild     the bits and the hashes
    TraverseAndExtract   reads them again, for the root and the matched hashes

`ExtractMatches` takes no more than 33333 transactions.  What it has not used yet of `vBits` and
`vHash` is part of the state, in place of the two counters.
-/
import Divitae.BlockFiles
import Divitae.DiskBlockIndex
import Divitae.MerkleRoot

namespace Divitae.PartialMerkle

open Codec MerkleRoot List
open BlockIndex (readWord reads_uint256)

structure CPartialMerkleTree where
  nTransactions : ℕ
  vBits : List Bool
  vHash : List uint256
  fBad : Bool

def CalcTreeWidth (nTransactions height : ℕ) : ℕ := (nTransactions + 2 ^ height - 1) / 2 ^ height

theorem lt_width {n height pos : ℕ} : pos < CalcTreeWidth n height ↔ pos * 2 ^ height < n := by
  have hpos := Nat.two_pow_pos height
  rw [CalcTreeWidth, Nat.lt_div_iff_mul_lt hpos]
  omega

theorem width_succ (n height : ℕ) :
    CalcTreeWidth n (height + 1) = (CalcTreeWidth n height + 1) / 2 := by
  have hpos := Nat.two_pow_pos height
  rw [CalcTreeWidth, CalcTreeWidth, ← Nat.add_div_right _ hpos, Nat.div_div_eq_div_mul, pow_succ]
  congr 1
  omega

/-- The loop that calculates the height of the tree. -/
def heightLoop (nTransactions nHeight : ℕ) : ℕ :=
  if 1 < CalcTreeWidth nTransactions nHeight then heightLoop nTransactions (nHeight + 1)
  else nHeight
termination_by nTransactions - 2 ^ nHeight
decreasing_by
  rename_i hwidth
  have hlt := lt_width.mp hwidth
  have hpos := Nat.two_pow_pos nHeight
  omega

def treeHeight (nTransactions : ℕ) : ℕ := heightLoop nTransactions 0

theorem heightLoop_spec (n nHeight : ℕ) (h : ∀ k < nHeight, 1 < CalcTreeWidth n k) :
    CalcTreeWidth n (heightLoop n nHeight) ≤ 1 ∧
      ∀ k < heightLoop n nHeight, 1 < CalcTreeWidth n k := by
  fun_induction heightLoop n nHeight with
  | case1 nHeight hwidth ih =>
    refine ih fun k hk => ?_
    rcases Nat.lt_succ_iff_lt_or_eq.mp hk with hlt | rfl
    · exact h k hlt
    · exact hwidth
  | case2 nHeight hwidth => exact ⟨Nat.not_lt.mp hwidth, h⟩

theorem treeHeight_spec (n : ℕ) : CalcTreeWidth n (treeHeight n) ≤ 1 ∧
    ∀ k < treeHeight n, 1 < CalcTreeWidth n k :=
  heightLoop_spec n 0 fun _ hk => absurd hk (Nat.not_lt_zero _)

section
variable (C : Crypto)

def CalcHash (vTxid : List uint256) : ℕ → ℕ → uint256
  | 0, pos => vTxid.getD pos 0
  | height + 1, pos =>
    let left := CalcHash vTxid height (pos * 2)
    let right := if pos * 2 + 1 < CalcTreeWidth vTxid.length height then
      CalcHash vTxid height (pos * 2 + 1) else left
    hashPair C left right

/-- The transactions below a node, each with whether it is matched. -/
def below (txs : List (uint256 × Bool)) (height pos : ℕ) : List (uint256 × Bool) :=
  (txs.drop (pos * 2 ^ height)).take (2 ^ height)

def fParentOfMatch (txs : List (uint256 × Bool)) (height pos : ℕ) : Bool :=
  (below txs height pos).any Prod.snd

/-- What is pushed to `vBits` and to `vHash`. -/
def TraverseAndBuild (txs : List (uint256 × Bool)) : ℕ → ℕ → List Bool × List uint256
  | 0, pos => ([fParentOfMatch txs 0 pos], [CalcHash C (txs.map Prod.fst) 0 pos])
  | height + 1, pos =>
    if !fParentOfMatch txs (height + 1) pos then
      ([false], [CalcHash C (txs.map Prod.fst) (height + 1) pos])
    else
      let (bits, hashes) := TraverseAndBuild txs height (pos * 2)
      if pos * 2 + 1 < CalcTreeWidth txs.length height then
        let (bits', hashes') := TraverseAndBuild txs height (pos * 2 + 1)
        (true :: (bits ++ bits'), hashes ++ hashes')
      else (true :: bits, hashes)

/-- `CPartialMerkleTree(vTxid, vMatch)`. -/
def build (vTxid : List uint256) (vMatch : List Bool) : CPartialMerkleTree :=
  let (vBits, vHash) := TraverseAndBuild C (vTxid.zip vMatch) (treeHeight vTxid.length) 0
  ⟨vTxid.length, vBits, vHash, false⟩

/-- What is left of the bits and hashes, and what was found. -/
structure Extraction where
  bits : List Bool
  hashes : List uint256
  vMatch : List uint256
  fBad : Bool

/-- Use the stored hash; `isMatch`: of a matched transaction. -/
def Extraction.storedHash (s : Extraction) (isMatch : Bool) : uint256 × Extraction :=
  match s.hashes with
  | [] => (0, { s with fBad := true })
  | hash :: hashes =>
    (hash, { s with
      hashes := hashes
      vMatch := if isMatch then s.vMatch ++ [hash] else s.vMatch })

def TraverseAndExtract (nTransactions : ℕ) : ℕ → ℕ → Extraction → uint256 × Extraction
  | 0, _, s =>
    match s.bits with
    | [] => (0, { s with fBad := true })
    | fParentOfMatch :: bits => { s with bits := bits }.storedHash fParentOfMatch
  | height + 1, pos, s =>
    match s.bits with
    | [] => (0, { s with fBad := true })
    | false :: bits => { s with bits := bits }.storedHash false
    | true :: bits =>
      let (left, s) := TraverseAndExtract nTransactions height (pos * 2) { s with bits := bits }
      if pos * 2 + 1 < CalcTreeWidth nTransactions height then
        let (right, s) := TraverseAndExtract nTransactions height (pos * 2 + 1) s
        (hashPair C left right, s)
      else (hashPair C left left, s)

/-- The root, or null, and `vMatch`. -/
def ExtractMatches (t : CPartialMerkleTree) : uint256 × List uint256 :=
  if t.nTransactions = 0 then (0, [])
  else if BlockStore.MAX_BLOCK_SIZE_CURRENT / 60 < t.nTransactions then (0, [])
  else if t.nTransactions < t.vHash.length then (0, [])
  else if t.vBits.length < t.vHash.length then (0, [])
  else
    let (hashMerkleRoot, s) := TraverseAndExtract C t.nTransactions (treeHeight t.nTransactions) 0
      ⟨t.vBits, t.vHash, [], t.fBad⟩
    if s.fBad then (0, s.vMatch)
    else if (t.vBits.length - s.bits.length + 7) / 8 ≠ (t.vBits.length + 7) / 8 then (0, s.vMatch)
    else if !s.hashes.isEmpty then (0, s.vMatch)
    else (hashMerkleRoot, s.vMatch)

end

/-! ## On the wire -/

/-- Eight bits in a byte, the lowest first. -/
def packBits (vBits : List Bool) : List UInt8 :=
  (List.range ((vBits.length + 7) / 8)).map fun i =>
    UInt8.ofNat (Nat.ofBits fun p : Fin 8 => vBits.getD (8 * i + p) false)

def unpackBits (vBytes : List UInt8) : List Bool :=
  (List.range (vBytes.length * 8)).map fun p => (vBytes.getD (p / 8) 0).toNat.testBit (p % 8)

def CPartialMerkleTree.ser (t : CPartialMerkleTree) : List UInt8 :=
  leBytes 4 t.nTransactions ++ (WriteCompactSize t.vHash.length ++
    ((t.vHash.map serUint256).flatten ++ serString (packBits t.vBits)))

def readPartialMerkleTree : Reader CPartialMerkleTree :=
  bind (readLE 4) fun nTransactions =>
  bind ReadCompactSize fun nHashes =>
  bind (many (readWord 32 256) nHashes) fun vHash =>
  bind ReadCompactSize fun nBytes =>
  bind (take nBytes) fun vBytes => pure ⟨nTransactions, unpackBits vBytes, vHash, false⟩

/-- The bits that fill up the last byte. -/
def padding (vBits : List Bool) : List Bool :=
  List.replicate ((vBits.length + 7) / 8 * 8 - vBits.length) false

theorem unpackBits_packBits (vBits : List Bool) :
    unpackBits (packBits vBits) = vBits ++ padding vBits := by
  have hlength : (packBits vBits).length = (vBits.length + 7) / 8 := by
    rw [packBits, length_map, length_range]
  refine ext_getElem ?_ ?_
  · rw [unpackBits, length_map, length_range, hlength, length_append, padding,
      length_replicate]
    omega
  intro p hp _
  have hpadded : (vBits ++ padding vBits)[p] = vBits.getD p false := by
    rcases Nat.lt_or_ge p vBits.length with hlt | hge
    · rw [getElem_append_left hlt, getD_eq_getElem _ _ hlt]
    · rw [getElem_append_right hge, getD_eq_default _ _ hge]
      exact getElem_replicate _
  rw [unpackBits, length_map, length_range, hlength] at hp
  have hbyte : p / 8 < (vBits.length + 7) / 8 := by omega
  have hget : (packBits vBits).getD (p / 8) 0 =
      UInt8.ofNat (Nat.ofBits fun q : Fin 8 => vBits.getD (8 * (p / 8) + q) false) := by
    rw [getD_eq_getElem _ _ (by rw [hlength]; exact hbyte)]
    simp only [packBits, getElem_map, getElem_range]
  have hbound : Nat.ofBits (fun q : Fin 8 => vBits.getD (8 * (p / 8) + q) false) < 2 ^ 8 :=
    Nat.ofBits_lt_two_pow _
  simp only [unpackBits, getElem_map, getElem_range, hpadded, hget]
  rw [UInt8.toNat_ofNat', Nat.mod_eq_of_lt hbound,
    Nat.testBit_ofBits_lt _ _ (Nat.mod_lt p (by decide))]
  exact congrArg (vBits.getD · false) (Nat.div_add_mod p 8)

theorem reads_tree {t : CPartialMerkleTree} (hn : t.nTransactions < 2 ^ 32)
    (hhashes : t.vHash.length ≤ MAX_SIZE) (hbits : t.vBits.length ≤ MAX_SIZE) :
    Reads readPartialMerkleTree t.ser
      ⟨t.nTransactions, t.vBits ++ padding t.vBits, t.vHash, false⟩ := by
  have hbytes : (packBits t.vBits).length ≤ MAX_SIZE := by
    rw [packBits, length_map, length_range]
    omega
  refine (reads_readLE (k := 4) hn).bind ((reads_compactSize hhashes).bind (Reads.bind
    (a := t.vHash) ?_ ((reads_compactSize hbytes).bind ((Reads.take _).map ?_))))
  · have hmany : Reads (many (readWord 32 256) t.vHash.length) (t.vHash.map serUint256).flatten
        (t.vHash.map id) := Reads.many fun h _ => reads_uint256 h
    rwa [map_id] at hmany
  · rw [unpackBits_packBits]
    exact Reads.pure _

/-! ## What is built -/

section
variable {C : Crypto} {txs : List (uint256 × Bool)}

/-- The hashes of the matched transactions. -/
def matched (txs : List (uint256 × Bool)) : List uint256 := (txs.filter Prod.snd).map Prod.fst

theorem below_succ (height pos : ℕ) : below txs (height + 1) pos =
    below txs height (pos * 2) ++ below txs height (pos * 2 + 1) := by
  have hhalf : pos * 2 ^ (height + 1) = pos * 2 * 2 ^ height := by
    ring
  rw [below, below, below, hhalf, Nat.pow_succ, Nat.mul_two, take_add, drop_drop, Nat.succ_mul]

variable {height pos : ℕ}

theorem below_beyond (h : ¬ pos < CalcTreeWidth txs.length height) :
    below txs height pos = [] := by
  rw [below, drop_eq_nil_of_le (Nat.not_lt.mp fun hlt => h (lt_width.mpr hlt)), take_nil]

theorem matched_append (txs txs' : List (uint256 × Bool)) :
    matched (txs ++ txs') = matched txs ++ matched txs' := by
  rw [matched, filter_append, map_append]
  rfl

theorem matched_none (h : fParentOfMatch txs height pos = false) :
    matched (below txs height pos) = [] := by
  rw [matched, filter_eq_nil_iff.mpr (any_eq_false.mp h), map_nil]

/-- **What is built is extracted**: a visit to a node gives its hash and the matched hashes below
it, and leaves what follows. -/
theorem extract_build (height pos : ℕ) (bits : List Bool) (hashes found : List uint256)
    (fBad : Bool) :
    TraverseAndExtract C txs.length height pos
        ⟨(TraverseAndBuild C txs height pos).1 ++ bits,
          (TraverseAndBuild C txs height pos).2 ++ hashes, found, fBad⟩ =
      (CalcHash C (txs.map Prod.fst) height pos,
        ⟨bits, hashes, found ++ matched (below txs height pos), fBad⟩) := by
  induction height generalizing pos bits hashes found with
  | zero =>
    have hone : below txs 0 pos = (txs[pos]?).toList := by
      rw [below, pow_zero, mul_one, take_one, List.head?_drop]
    cases htx : txs[pos]? with
    | none =>
      have hnone : fParentOfMatch txs 0 pos = false := by rw [fParentOfMatch, hone, htx]; rfl
      rw [matched_none hnone, append_nil]
      simp only [TraverseAndBuild, TraverseAndExtract, Extraction.storedHash, cons_append,
        nil_append, hnone, Bool.false_eq_true, if_false]
    | some tx =>
      have hbit : fParentOfMatch txs 0 pos = tx.2 := by
        rw [fParentOfMatch, hone, htx]
        exact Bool.or_false _
      have hhash : CalcHash C (txs.map Prod.fst) 0 pos = tx.1 := by
        rw [CalcHash, getD_eq_getElem?_getD, List.getElem?_map, htx]
        rfl
      have hmatched : matched (below txs 0 pos) = if tx.2 then [tx.1] else [] := by
        rw [hone, htx, matched, Option.toList_some, filter_singleton]
        cases tx.2 <;> rfl
      simp only [TraverseAndBuild, TraverseAndExtract, Extraction.storedHash, cons_append,
        nil_append, hbit, hhash, hmatched]
      cases tx.2
      · rw [if_neg Bool.false_ne_true, if_neg Bool.false_ne_true, append_nil]
      · rfl
  | succ height ih =>
    rw [TraverseAndBuild]
    cases hparent : fParentOfMatch txs (height + 1) pos with
    | false =>
      rw [matched_none hparent, append_nil]
      rfl
    | true =>
      rw [Bool.not_true, if_neg Bool.false_ne_true, below_succ, matched_append, ← append_assoc]
      split_ifs with hright
      · simp only [TraverseAndExtract, cons_append, append_assoc, ih, if_pos hright]
        rw [CalcHash, length_map, if_pos hright]
      · simp only [TraverseAndExtract, cons_append, ih, if_neg hright]
        rw [CalcHash, length_map, if_neg hright, below_beyond hright]
        exact congrArg (fun found => (_, Extraction.mk bits hashes found fBad)) (append_nil _).symm

theorem length_build (hpos : pos < CalcTreeWidth txs.length height) :
    (TraverseAndBuild C txs height pos).2.length ≤ (below txs height pos).length ∧
      (TraverseAndBuild C txs height pos).2.length ≤ (TraverseAndBuild C txs height pos).1.length ∧
      (TraverseAndBuild C txs height pos).1.length < 2 ^ (height + 1) := by
  have hsome : ∀ {height pos : ℕ}, pos < CalcTreeWidth txs.length height →
      1 ≤ (below txs height pos).length := by
    intro height pos hpos
    have hlt := lt_width.mp hpos
    have hpow := Nat.two_pow_pos height
    rw [below, length_take, length_drop]
    omega
  induction height generalizing pos with
  | zero => exact ⟨hsome hpos, le_rfl, (by decide : 1 < 2)⟩
  | succ height ih =>
    have hleft : pos * 2 < CalcTreeWidth txs.length height := by
      rw [width_succ] at hpos
      omega
    have hpow : 2 ^ (height + 1 + 1) = 2 ^ (height + 1) + 2 ^ (height + 1) := by
      rw [pow_succ _ (height + 1), mul_two]
    have hone : 2 ≤ 2 ^ (height + 1) := by
      have := Nat.two_pow_pos height
      omega
    obtain ⟨hl, hl', hl''⟩ := ih hleft
    have hbelow := congrArg List.length (@below_succ txs height pos)
    rw [length_append] at hbelow
    have hhere := hsome hpos
    rw [TraverseAndBuild]
    split_ifs with hparent hright
    · exact ⟨hhere, le_rfl, by simp only [length_singleton]; omega⟩
    · obtain ⟨hr, hr', hr''⟩ := ih hright
      simp only [length_cons, length_append]
      omega
    · simp only [length_cons]
      omega

end

section
variable {C : Crypto}

theorem length_level (vTxid : List uint256) (height : ℕ) :
    ((Merkle.above (hashPair C))^[height] vTxid).length = CalcTreeWidth vTxid.length height := by
  induction height with
  | zero => rw [CalcTreeWidth, pow_zero, Nat.add_sub_cancel, Nat.div_one]; rfl
  | succ height ih => rw [Function.iterate_succ_apply', Merkle.length_above, ih, width_succ]

theorem getElem?_level {vTxid : List uint256}
    (hpos : pos < CalcTreeWidth vTxid.length height) :
    ((Merkle.above (hashPair C))^[height] vTxid)[pos]? = some (CalcHash C vTxid height pos) := by
  induction height generalizing pos with
  | zero =>
    have hlt := lt_width.mp hpos
    rw [pow_zero, mul_one] at hlt
    rw [CalcHash, Function.iterate_zero_apply, getD_eq_getElem _ _ hlt]
    exact List.getElem?_eq_getElem hlt
  | succ height ih =>
    have hleft : pos * 2 < CalcTreeWidth vTxid.length height := by
      rw [width_succ] at hpos
      omega
    rw [Function.iterate_succ_apply', Merkle.getElem?_above, ih hleft, CalcHash]
    split_ifs with hright
    · rw [ih hright]
      rfl
    · rw [List.getElem?_eq_none (by rw [length_level]; exact Nat.not_lt.mp hright)]
      rfl

theorem CalcHash_root {vtx : List CTransaction} (hne : vtx ≠ []) :
    CalcHash C (vtx.map CTransaction.hash) (treeHeight vtx.length) 0 =
      (BuildMerkleTree C vtx).1 := by
  have hlength : (vtx.map CTransaction.hash).length = vtx.length := length_map _
  obtain ⟨htop, hlevels⟩ := treeHeight_spec vtx.length
  rw [← hlength] at htop hlevels ⊢
  have hroot := (Merkle.level_at (H := hashPair C) (l := vtx.map CTransaction.hash) fun j hj => by
    rw [length_level]
    exact hlevels j hj).2
  have hpos : 0 < CalcTreeWidth (vtx.map CTransaction.hash).length
      (treeHeight (vtx.map CTransaction.hash).length) := by
    rw [lt_width, Nat.zero_mul, hlength]
    exact length_pos_iff.mpr hne
  rw [BuildMerkleTree_eq, ← hroot, Merkle.root_short (by rw [length_level]; exact htop),
    List.head?_eq_getElem?, getElem?_level hpos]
  rfl

end

/-! ## The round trip -/

section
variable {C : Crypto} {vTxid : List uint256} {vMatch : List Bool}

/-- What `ExtractMatches` gives of a tree that is read off `bytes`. -/
def extractFrom (C : Crypto) (bytes : List UInt8) : Option (uint256 × List uint256) :=
  (readPartialMerkleTree bytes).map fun r => ExtractMatches C r.1

theorem length_built (hne : vTxid ≠ []) (hmatch : vMatch.length = vTxid.length) :
    (build C vTxid vMatch).vHash.length ≤ vTxid.length ∧
      (build C vTxid vMatch).vHash.length ≤ (build C vTxid vMatch).vBits.length ∧
      (build C vTxid vMatch).vBits.length ≤ 4 * vTxid.length := by
  have hzip : (vTxid.zip vMatch).length = vTxid.length := by
    rw [length_zip, hmatch, Nat.min_self]
  have hpos := length_pos_iff.mpr hne
  have htop : 0 < CalcTreeWidth (vTxid.zip vMatch).length (treeHeight vTxid.length) := by
    rw [lt_width, Nat.zero_mul, hzip]
    exact hpos
  obtain ⟨hhashes, hless, hbits⟩ := length_build (C := C) htop
  have hbelow : (below (vTxid.zip vMatch) (treeHeight vTxid.length) 0).length ≤ vTxid.length := by
    rw [below, length_take, length_drop, hzip]
    omega
  refine ⟨hhashes.trans hbelow, hless, ?_⟩
  show (TraverseAndBuild C (vTxid.zip vMatch) (treeHeight vTxid.length) 0).1.length ≤ _
  cases hheight : treeHeight vTxid.length with
  | zero =>
    rw [hheight] at hbits
    omega
  | succ height =>
    -- one level below the top there are two nodes
    have hwide := (treeHeight_spec vTxid.length).2 height (by omega)
    rw [lt_width, one_mul] at hwide
    rw [hheight, pow_succ, pow_succ] at hbits
    omega

theorem reads_built (rest : List UInt8) (hne : vTxid ≠ []) (hmatch : vMatch.length = vTxid.length)
    (hmax : vTxid.length ≤ 2 ^ 20) :
    extractFrom C ((build C vTxid vMatch).ser ++ rest) = some (ExtractMatches C
      { build C vTxid vMatch with
        vBits := (build C vTxid vMatch).vBits ++ padding (build C vTxid vMatch).vBits }) := by
  obtain ⟨hhashes, hless, hbits⟩ := length_built (C := C) hne hmatch
  have hn : (build C vTxid vMatch).nTransactions = vTxid.length := rfl
  rw [extractFrom, reads_tree (by omega) (by rw [MAX_SIZE]; omega) (by rw [MAX_SIZE]; omega)]
  rfl

/-- **Round trip.**  Built from the transactions of a block, written and read again, a partial tree
gives the merkle root of the block and the matched hashes in their order. -/
theorem partial_tree_comes_back (C : Crypto) (vtx : List CTransaction) (vMatch : List Bool)
    (rest : List UInt8) (hne : vtx ≠ []) (hmatch : vMatch.length = vtx.length)
    (hmax : vtx.length ≤ BlockStore.MAX_BLOCK_SIZE_CURRENT / 60) :
    extractFrom C ((build C (vtx.map CTransaction.hash) vMatch).ser ++ rest) =
      some ((BuildMerkleTree C vtx).1, matched ((vtx.map CTransaction.hash).zip vMatch)) := by
  have hlength : (vtx.map CTransaction.hash).length = vtx.length := length_map _
  have hids : vtx.map CTransaction.hash ≠ [] := fun hnil => hne (map_eq_nil_iff.mp hnil)
  have hbounds : vtx.length ≤ 33333 := hmax
  rw [reads_built rest hids (hmatch.trans hlength.symm) (by omega)]
  obtain ⟨hhashes, hless, -⟩ := length_built (C := C) hids (hmatch.trans hlength.symm)
  have hzip : ((vtx.map CTransaction.hash).zip vMatch).length = vtx.length := by
    rw [length_zip, hmatch, hlength, Nat.min_self]
  have hfst : ((vtx.map CTransaction.hash).zip vMatch).map Prod.fst = vtx.map CTransaction.hash :=
    map_fst_zip (by rw [hmatch, hlength])
  set t := build C (vtx.map CTransaction.hash) vMatch with ht
  have hn : t.nTransactions = vtx.length := hlength
  have hextract : TraverseAndExtract C vtx.length (treeHeight vtx.length) 0
      ⟨t.vBits ++ padding t.vBits, t.vHash, [], false⟩ =
      ((BuildMerkleTree C vtx).1,
        ⟨padding t.vBits, [], matched ((vtx.map CTransaction.hash).zip vMatch), false⟩) := by
    have hall : below ((vtx.map CTransaction.hash).zip vMatch) (treeHeight vtx.length) 0 =
        (vtx.map CTransaction.hash).zip vMatch := by
      have htop := (treeHeight_spec vtx.length).1
      have hone : ¬ 1 < CalcTreeWidth vtx.length (treeHeight vtx.length) := Nat.not_lt.mpr htop
      rw [lt_width, one_mul] at hone
      rw [below, Nat.zero_mul, drop_zero, take_of_length_le (by omega)]
    have hbuilt := @extract_build C ((vtx.map CTransaction.hash).zip vMatch)
      (treeHeight vtx.length) 0 (padding t.vBits) [] [] false
    rw [hzip, hfst, hall, CalcHash_root hne, append_nil, nil_append] at hbuilt
    rw [← hbuilt, ht, build, hlength]
  have hpos := length_pos_iff.mpr hne
  rw [ExtractMatches, if_neg (by dsimp only; omega), if_neg (by rw [hn]; exact Nat.not_lt.mpr hmax),
    if_neg (by dsimp only; omega), if_neg (by rw [length_append]; dsimp only; omega)]
  rw [hn, show t.fBad = false from rfl, hextract]
  dsimp only
  rw [if_neg Bool.false_ne_true, if_neg, if_neg (by decide)]
  rw [padding, length_append, length_replicate, not_not]
  omega

theorem three_come_back :
    extractFrom sideBySide ((build sideBySide [1, 2, 3] [false, true, true]).ser ++ []) =
      some ((BuildMerkleTree sideBySide [hashedTx 1, hashedTx 2, hashedTx 3]).1, [2, 3]) :=
  partial_tree_comes_back sideBySide [hashedTx 1, hashedTx 2, hashedTx 3] [false, true, true] []
    (cons_ne_nil _ _) rfl (by decide)

theorem large_refused (rest : List UInt8) (hmatch : vMatch.length = vTxid.length)
    (hlarge : BlockStore.MAX_BLOCK_SIZE_CURRENT / 60 < vTxid.length)
    (hmax : vTxid.length ≤ 2 ^ 20) :
    extractFrom C ((build C vTxid vMatch).ser ++ rest) = some (0, []) := by
  have hpos : 0 < vTxid.length := Nat.zero_lt_of_lt hlarge
  have hn : (build C vTxid vMatch).nTransactions = vTxid.length := rfl
  rw [reads_built rest (length_pos_iff.mp hpos) hmatch hmax, ExtractMatches]
  rw [hn, if_neg (by omega), if_pos hlarge]

/-- **Of more than 33333 transactions nothing comes back.** -/
theorem large_tree_lost :
    ¬ ∀ (vtx : List CTransaction) (vMatch : List Bool), vtx ≠ [] → vMatch.length = vtx.length →
      extractFrom sideBySide ((build sideBySide (vtx.map CTransaction.hash) vMatch).ser ++ []) =
        some ((BuildMerkleTree sideBySide vtx).1,
          matched ((vtx.map CTransaction.hash).zip vMatch)) := by
  intro hall
  have hlength : ∀ {α : Type} (a : α), (List.replicate 33334 a).length = 33334 := fun _ =>
    length_replicate
  have h := hall (List.replicate 33334 (hashedTx 0)) (List.replicate 33334 true)
    (cons_ne_nil _ _) ((hlength _).trans (hlength _).symm)
  rw [map_replicate, large_refused [] ((hlength _).trans (hlength _).symm)
    (by rw [hlength]; decide) (by rw [hlength]; decide)] at h
  have hmatched := (Prod.mk.inj (Option.some.inj h)).2
  rw [zip_replicate', matched, filter_replicate_of_pos rfl, map_replicate] at hmatched
  exact absurd hmatched.symm (cons_ne_nil _ _)

end

end Divitae.PartialMerkle
