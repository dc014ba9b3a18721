/-
# `MerkleRoot` — the tree over the transactions of a block

`BuildMerkleTree` hashes the hashes of the transactions in pairs, level by level, into one
vector; the root is its last entry.  Where it would pair the last node of a level with itself
and the level already ends with two equal nodes it reports the list as mutated, and
`CheckBlock` refuses such a block as it refuses a wrong root:

    other root            bad-txnmrklroot
    mutated               bad-txns-duplicate
    no transactions       bad-blk-length
-/
import Divitae.Lib.Merkle
import Divitae.Transaction

namespace Divitae.MerkleRoot

open List Merkle CTransaction

/-- `Hash` of two hashes, one after the other. -/
def hashPair (C : Crypto) (a b : uint256) : uint256 := C.hash256 (serUint256 a ++ serUint256 b)

/-- The loop over the levels.  `level` is the part of `vMerkleTree` from `j` on. -/
def levelLoop (C : Crypto) (level vMerkleTree : List uint256) (mutated : Bool) :
    List uint256 × Bool :=
  if 1 < level.length then
    let next := Merkle.above (hashPair C) level
    levelLoop C next (vMerkleTree ++ next) (mutated || Merkle.endsTwice level)
  else (vMerkleTree, mutated)
termination_by level.length
decreasing_by
  rw [Merkle.length_above]
  omega

/-- The root, and whether the list is mutated. -/
def BuildMerkleTree (C : Crypto) (vtx : List CTransaction) : uint256 × Bool :=
  let hashes := vtx.map CTransaction.hash
  let (vMerkleTree, mutated) := levelLoop C hashes hashes false
  (vMerkleTree.getLast?.getD 0, mutated)

structure CMerkleBlock where
  hashMerkleRoot : uint256
  vtx : List CTransaction

/-- What `CheckBlock` asks of the root, and that there are transactions. -/
def CheckMerkleRoot (C : Crypto) (block : CMerkleBlock) : Except String Unit :=
  let (hashMerkleRoot2, mutated) := BuildMerkleTree C block.vtx
  if block.hashMerkleRoot ≠ hashMerkleRoot2 then .error "bad-txnmrklroot"
  else if mutated then .error "bad-txns-duplicate"
  else if block.vtx.isEmpty then .error "bad-blk-length"
  else .ok ()

/-- The nodes above the transactions. -/
def innerNodes (C : Crypto) (vtx : List CTransaction) : List uint256 :=
  Merkle.inner (hashPair C) (vtx.map CTransaction.hash)

/-- No two of the pairs that the trees hash have one hash. -/
def NoCollision (C : Crypto) (vtx vtx' : List CTransaction) : Prop :=
  Merkle.NoCollision (hashPair C) (Merkle.hashed (hashPair C) (vtx.map CTransaction.hash) ++
    Merkle.hashed (hashPair C) (vtx'.map CTransaction.hash))

section
variable {C : Crypto}

theorem levelLoop_eq (level vMerkleTree : List uint256) (mutated : Bool) :
    levelLoop C level vMerkleTree mutated =
      (vMerkleTree ++ inner (hashPair C) level, mutated || Merkle.mutated (hashPair C) level) := by
  rw [levelLoop, Merkle.mutated]
  split_ifs with hlevel
  · rw [levelLoop_eq, inner_eq hlevel, append_assoc, Bool.or_assoc]
  · rw [inner_short (Nat.not_lt.mp hlevel), append_nil, Bool.or_false]
termination_by level.length
decreasing_by
  rw [length_above]
  omega

theorem BuildMerkleTree_eq (vtx : List CTransaction) :
    BuildMerkleTree C vtx =
      ((root (hashPair C) (vtx.map hash)).getD 0, Merkle.mutated (hashPair C) (vtx.map hash)) := by
  rw [BuildMerkleTree, levelLoop_eq, Bool.false_or]
  simp only [getLast?_inner]

theorem root_of_ne_nil {l : List uint256} (hl : l ≠ []) :
    ∃ a, root (hashPair C) l = some a := by
  rw [← getLast?_inner, ← Option.isSome_iff_exists, List.getLast?_isSome]
  exact fun hnil => hl (append_eq_nil_iff.mp hnil).1

theorem same_hashes {vtx vtx' : List CTransaction} (hne : vtx ≠ []) (hne' : vtx' ≠ [])
    (hroot : (BuildMerkleTree C vtx).1 = (BuildMerkleTree C vtx').1)
    (hmutated : (BuildMerkleTree C vtx).2 = false)
    (hmutated' : (BuildMerkleTree C vtx').2 = false)
    (hleaves : ∀ tx ∈ vtx, tx.hash ∉ innerNodes C vtx')
    (hleaves' : ∀ tx ∈ vtx', tx.hash ∉ innerNodes C vtx)
    (hcollision : NoCollision C vtx vtx') :
    vtx.map hash = vtx'.map hash := by
  rw [BuildMerkleTree_eq, BuildMerkleTree_eq] at hroot
  rw [BuildMerkleTree_eq] at hmutated hmutated'
  obtain ⟨a, ha⟩ := root_of_ne_nil (C := C) fun hnil => hne (map_eq_nil_iff.mp hnil)
  obtain ⟨a', ha'⟩ := root_of_ne_nil (C := C) fun hnil => hne' (map_eq_nil_iff.mp hnil)
  change (root _ _).getD 0 = (root _ _).getD 0 at hroot
  rw [ha, ha', Option.getD_some, Option.getD_some] at hroot
  refine eq_of_root_eq hcollision ?_ ?_ hmutated hmutated' ha (hroot ▸ ha')
  · intro hash hhash
    obtain ⟨tx, htx, rfl⟩ := mem_map.mp hhash
    exact hleaves tx htx
  · intro hash hhash
    obtain ⟨tx, htx, rfl⟩ := mem_map.mp hhash
    exact hleaves' tx htx

theorem root_of_nil : (BuildMerkleTree C []).1 = 0 := by
  rw [BuildMerkleTree_eq, map_nil, root_short (l := []) (Nat.zero_le 1)]
  rfl

/-- **One root, one list of hashes.**  Two lists that are not reported and have one root have
the same hashes, or one of them is empty and the root is the null hash. -/
theorem merkle_root_inj (vtx vtx' : List CTransaction)
    (hroot : (BuildMerkleTree C vtx).1 = (BuildMerkleTree C vtx').1)
    (hmutated : (BuildMerkleTree C vtx).2 = false)
    (hmutated' : (BuildMerkleTree C vtx').2 = false)
    (hleaves : ∀ tx ∈ vtx, tx.hash ∉ innerNodes C vtx')
    (hleaves' : ∀ tx ∈ vtx', tx.hash ∉ innerNodes C vtx)
    (hcollision : NoCollision C vtx vtx') :
    vtx.map CTransaction.hash = vtx'.map CTransaction.hash ∨
      (vtx = [] ∨ vtx' = []) ∧ (BuildMerkleTree C vtx).1 = 0 := by
  rcases eq_or_ne vtx [] with rfl | hne
  · exact .inr ⟨.inl rfl, root_of_nil⟩
  · rcases eq_or_ne vtx' [] with rfl | hne'
    · exact .inr ⟨.inr rfl, hroot.trans root_of_nil⟩
    · exact .inl (same_hashes hne hne' hroot hmutated hmutated' hleaves hleaves' hcollision)

/-- A hash that puts two numbers side by side. -/
def sideBySide : Crypto where
  hash256 bs := BitVec.ofNat 256 (2 ^ 64 + bs.foldl (fun n b => n * 3 + b.toNat) 0)
  hash160 _ := 0
  getPubKey _ := .ofBytes []
  signCompact _ _ := none
  recoverCompact _ _ := none

def hashedTx (hash : uint256) : CTransaction := ⟨hash, 1, [], [], 0⟩

theorem hashed_two : hashed (hashPair sideBySide) [1, 2] = [(1, 2)] := by
  rw [hashed_eq (by decide), hashed_short (by decide)]
  rfl

theorem merkle_root_inj_two :
    let vtx := [hashedTx 1, hashedTx 2]
    vtx.map CTransaction.hash = vtx.map CTransaction.hash ∨
      (vtx = [] ∨ vtx = []) ∧ (BuildMerkleTree sideBySide vtx).1 = 0 := by
  have hmutated : (BuildMerkleTree sideBySide [hashedTx 1, hashedTx 2]).2 = false := by
    rw [BuildMerkleTree_eq]
    rw [Merkle.mutated, if_pos (by decide), Merkle.mutated_short (by decide)]
    rfl
  have hinner : innerNodes sideBySide [hashedTx 1, hashedTx 2] = [hashPair sideBySide 1 2] := by
    change (Merkle.hashed (hashPair sideBySide) [1, 2]).map _ = _
    rw [hashed_two]
    rfl
  have hleaves : ∀ tx ∈ [hashedTx 1, hashedTx 2],
      tx.hash ∉ innerNodes sideBySide [hashedTx 1, hashedTx 2] := by
    rw [hinner]
    decide +kernel
  refine merkle_root_inj [hashedTx 1, hashedTx 2] [hashedTx 1, hashedTx 2] rfl hmutated hmutated
    hleaves hleaves ?_
  change Merkle.NoCollision _ (Merkle.hashed (hashPair sideBySide) [1, 2] ++
    Merkle.hashed (hashPair sideBySide) [1, 2])
  rw [hashed_two]
  intro p hp q hq _
  have hone : ∀ p ∈ [((1 : uint256), (2 : uint256)), (1, 2)], p = (1, 2) := by
    intro p hp
    rcases mem_cons.mp hp with h | h
    · exact h
    · exact mem_singleton.mp h
  rw [hone p hp, hone q hq]

/-- **The root of no transactions is that of one whose hash was never made**: `CTransaction()`
has the null hash.  Neither list is reported, no pair is hashed. -/
theorem root_of_nothing :
    (BuildMerkleTree sideBySide []).1 = (BuildMerkleTree sideBySide [hashedTx 0]).1 ∧
      (BuildMerkleTree sideBySide []).2 = false ∧
      (BuildMerkleTree sideBySide [hashedTx 0]).2 = false ∧
      (∀ tx ∈ [hashedTx 0], tx.hash ∉ innerNodes sideBySide []) ∧
      NoCollision sideBySide [] [hashedTx 0] ∧
      [].map CTransaction.hash ≠ [hashedTx 0].map CTransaction.hash := by
  have hnone : ([].map CTransaction.hash).length ≤ 1 := Nat.zero_le 1
  have hone : ([hashedTx 0].map CTransaction.hash).length ≤ 1 := Nat.le_refl 1
  refine ⟨?_, ?_, ?_, ?_, ?_, (cons_ne_nil _ _).symm⟩
  · rw [BuildMerkleTree_eq, BuildMerkleTree_eq, Merkle.root_short hnone, Merkle.root_short hone]
    rfl
  · rw [BuildMerkleTree_eq, Merkle.mutated_short hnone]
  · rw [BuildMerkleTree_eq, Merkle.mutated_short hone]
  · rw [innerNodes, Merkle.inner_short hnone]
    exact fun _ _ => not_mem_nil
  · rw [NoCollision, Merkle.hashed_short hnone, Merkle.hashed_short hone]
    exact nofun

theorem CheckMerkleRoot_ok {block : CMerkleBlock} (h : CheckMerkleRoot C block = .ok ()) :
    block.hashMerkleRoot = (BuildMerkleTree C block.vtx).1 ∧
      (BuildMerkleTree C block.vtx).2 = false ∧ block.vtx ≠ [] := by
  rw [CheckMerkleRoot] at h
  dsimp only at h
  split_ifs at h with hroot hmutated hempty
  exact ⟨not_not.mp hroot, Bool.eq_false_iff.mpr hmutated,
    fun hnil => hempty (isEmpty_iff.mpr hnil)⟩

/-- **The transactions of a block cannot be changed under its root**: two blocks with one root
that `CheckBlock` lets through have the same hashes. -/
theorem CheckMerkleRoot_inj {block block' : CMerkleBlock}
    (hblock : CheckMerkleRoot C block = .ok ()) (hblock' : CheckMerkleRoot C block' = .ok ())
    (hroot : block.hashMerkleRoot = block'.hashMerkleRoot)
    (hleaves : ∀ tx ∈ block.vtx, tx.hash ∉ innerNodes C block'.vtx)
    (hleaves' : ∀ tx ∈ block'.vtx, tx.hash ∉ innerNodes C block.vtx)
    (hcollision : NoCollision C block.vtx block'.vtx) :
    block.vtx.map hash = block'.vtx.map hash := by
  obtain ⟨hmatch, hmutated, hne⟩ := CheckMerkleRoot_ok hblock
  obtain ⟨hmatch', hmutated', hne'⟩ := CheckMerkleRoot_ok hblock'
  have hsame : (BuildMerkleTree C block.vtx).1 = (BuildMerkleTree C block'.vtx).1 := by
    rw [← hmatch, ← hmatch', hroot]
  exact same_hashes hne hne' hsame hmutated hmutated' hleaves hleaves' hcollision

end

end Divitae.MerkleRoot
