/-
# `Coins` — the unspent outputs of a transaction, and the view of them all

`coins.h` and `coins.cpp`.  A coin is a transaction reduced to its flags, height,
version and outputs; a spent output is null and nulls at the end are dropped.  A view
answers every transaction id.  The caches of the source (fresh and dirty entries over
a base view) do not show in the answers and are left out: an id the source finds no
entry for is answered with the empty coin here, which the source cannot tell apart,
for it looks at outputs only through `IsAvailable`, `IsPruned` and `operator==`.
-/
import Divitae.Lib.Slots
import Divitae.Transaction

namespace Divitae

open Slots List

/-- `CTxInUndo`: the output spent and, when it was the last one of its transaction,
what else the coin held. -/
structure CTxInUndo where
  txout : CTxOut
  fCoinBase : Bool
  fCoinStake : Bool
  nHeight : Int
  nVersion : Int
  deriving DecidableEq

/-! ## Coins -/

structure CCoins where
  fCoinBase : Bool
  fCoinStake : Bool
  vout : List CTxOut
  nHeight : Int
  nVersion : Int
  deriving DecidableEq

namespace CCoins

variable (c : CCoins)

/-- `CCoins()`, and what `Clear()` leaves. -/
def null : CCoins := ⟨false, false, [], 0, 0⟩

/-- Remove spent outputs at the end. -/
def Cleanup : CCoins := { c with vout := c.vout.rdropWhile CTxOut.IsNull }

def ClearUnspendable : CCoins :=
  Cleanup { c with
    vout := c.vout.map fun txout => if txout.scriptPubKey.IsUnspendable then .null else txout }

def FromTx (tx : CTransaction) (nHeightIn : Int) : CCoins :=
  ClearUnspendable
    { fCoinBase := tx.IsCoinBase
      fCoinStake := tx.IsCoinStake
      vout := tx.vout
      nHeight := nHeightIn
      nVersion := tx.nVersion }

def IsPruned : Bool := c.vout.all CTxOut.IsNull

/-- A mint is no output an ordinary input can take. -/
def IsAvailable (nPos : Nat) : Bool :=
  match c.vout[nPos]? with
  | none => false
  | some txout => !txout.IsNull && !txout.IsZerocoinMint

/-- `Spend`: what is left and what undoes it, or nothing when the output is not there. -/
def Spend (n : Nat) : Option (CCoins × CTxInUndo) :=
  match c.vout[n]? with
  | none => none
  | some txout =>
    if txout.IsNull then none
    else
      let left := Cleanup { c with vout := c.vout.set n .null }
      if left.vout.isEmpty then
        some (left, ⟨txout, c.fCoinBase, c.fCoinStake, c.nHeight, c.nVersion⟩)
      else some (left, ⟨txout, false, false, 0, 0⟩)

/-- `operator==`: empty coins are always equal. -/
def Same (a b : CCoins) : Prop := (a.IsPruned = true ∧ b.IsPruned = true) ∨ a = b

instance (a b : CCoins) : Decidable (Same a b) := inferInstanceAs (Decidable (_ ∨ _))

/-- Output `n` as far as the coin still holds it. -/
def output (n : Nat) : CTxOut := slot .null c.vout n

/-- No null at the end, and a null output has nothing else in it: so is every coin
`Cleanup` leaves behind, as long as outputs have no negative value. -/
structure Tidy : Prop where
  trimmed : Trimmed CTxOut.IsNull c.vout
  canonical : Marks CTxOut.IsNull .null c.vout

variable {c}

theorem isNull_null : CTxOut.null.IsNull = true := rfl

theorem Same.rfl' : Same c c := .inr rfl

theorem Same.trans {a b e : CCoins} (h : Same a b) (h' : Same b e) : Same a e := by
  rcases h with ⟨ha, hb⟩ | rfl
  · rcases h' with ⟨_, he⟩ | rfl
    · exact .inl ⟨ha, he⟩
    · exact .inl ⟨ha, hb⟩
  · exact h'

theorem Tidy.null : Tidy null := ⟨rdropWhile_nil _, nofun⟩

theorem tidy_Cleanup (h : Marks CTxOut.IsNull .null c.vout) : Tidy c.Cleanup :=
  ⟨trimmed_trim _, h.trim⟩

theorem Tidy.isPruned_iff (h : Tidy c) : c.IsPruned = true ↔ c.vout = [] := by
  constructor
  · intro hp
    rw [← h.trimmed]
    exact rdropWhile_eq_nil_iff.mpr fun o ho => all_eq_true.mp hp o ho
  · intro hv
    unfold IsPruned
    rw [hv]
    rfl

theorem Tidy.isPruned_iff_output (h : Tidy c) : c.IsPruned = true ↔ ∀ i, c.output i = .null := by
  rw [h.isPruned_iff]
  exact h.trimmed.eq_nil_iff isNull_null

theorem output_eq_getElem {n : Nat} {o : CTxOut} (h : c.vout[n]? = some o) : c.output n = o := by
  unfold output slot
  rw [getD_eq_getElem?_getD, h]
  rfl

theorem Tidy.isNull_output (h : Tidy c) (n : Nat) :
    (c.output n).IsNull = true ↔ c.output n = .null := by
  constructor
  · intro hn
    unfold output slot at hn ⊢
    rw [getD_eq_getElem?_getD] at hn ⊢
    cases ho : c.vout[n]? with
    | none => rfl
    | some o =>
      rw [ho] at hn
      exact h.canonical o (mem_of_getElem? ho) hn
  · intro hn
    rw [hn]
    rfl

theorem Tidy.ext {a b : CCoins} (ha : Tidy a) (hb : Tidy b) (hbase : a.fCoinBase = b.fCoinBase)
    (hstake : a.fCoinStake = b.fCoinStake) (hheight : a.nHeight = b.nHeight)
    (hversion : a.nVersion = b.nVersion) (hout : ∀ i, a.output i = b.output i) : a = b := by
  have hv : a.vout = b.vout := ha.trimmed.ext isNull_null hb.trimmed hout
  cases a
  cases b
  simp_all

end CCoins

/-! ## The view -/

structure CCoinsView where
  coins : uint256 → CCoins
  hashBlock : uint256

namespace CCoinsView

variable (view : CCoinsView)

/-- `ModifyCoins`, the change and the cleaning when the modifier goes out of scope. -/
def ModifyCoins (txid : uint256) (f : CCoins → CCoins) : CCoinsView :=
  { view with coins := Function.update view.coins txid (f (view.coins txid)).Cleanup }

def SetBestBlock (hash : uint256) : CCoinsView := { view with hashBlock := hash }

def HaveInputs (tx : CTransaction) : Bool :=
  tx.IsCoinBase || tx.IsZerocoinSpend ||
    tx.vin.all fun txin => (view.coins txin.prevout.hash).IsAvailable txin.prevout.n

/-- `GetOutputFor`; the source asserts that the output is available. -/
def GetOutputFor (txin : CTxIn) : CTxOut := (view.coins txin.prevout.hash).output txin.prevout.n

def GetValueIn (tx : CTransaction) : CAmount :=
  if tx.IsCoinBase then 0
  else if tx.IsZerocoinSpend then tx.GetZerocoinSpent
  else
    tx.vin.foldl (fun nResult txin => Wrap.wrap64 (nResult + (view.GetOutputFor txin).nValue)) 0

/-- The same best block, and coins the source's `==` does not tell apart. -/
def Same (v w : CCoinsView) : Prop :=
  v.hashBlock = w.hashBlock ∧ ∀ txid, CCoins.Same (v.coins txid) (w.coins txid)

/-- Every coin is tidy: each change goes through `Cleanup`. -/
def Tidy : Prop := ∀ txid, (view.coins txid).Tidy

variable {view}

@[simp] theorem coins_ModifyCoins (txid : uint256) (f : CCoins → CCoins) (g : uint256) :
    (view.ModifyCoins txid f).coins g =
      if g = txid then (f (view.coins txid)).Cleanup else view.coins g := by
  by_cases h : g = txid
  · rw [if_pos h, h]
    exact Function.update_self ..
  · rw [if_neg h]
    exact Function.update_of_ne h ..

end CCoinsView

/-- The inputs of `UpdateCoins`, first to last; nothing when `assert(ret)` would fail. -/
def spendInputs : List CTxIn → CCoinsView → Option (CCoinsView × List CTxInUndo)
  | [], view => some (view, [])
  | txin :: vin, view =>
    match (view.coins txin.prevout.hash).Spend txin.prevout.n with
    | none => none
    | some (left, undo) =>
      match spendInputs vin (view.ModifyCoins txin.prevout.hash fun _ => left) with
      | none => none
      | some (view, vprevout) => some (view, undo :: vprevout)

/-- `UpdateCoins`: the new view and the undo information of the transaction. -/
def UpdateCoins (tx : CTransaction) (inputs : CCoinsView) (nHeight : Int) :
    Option (CCoinsView × List CTxInUndo) :=
  let spent :=
    if !tx.IsCoinBase && !tx.IsZerocoinSpend then spendInputs tx.vin inputs
    else some (inputs, [])
  match spent with
  | none => none
  | some (inputs, vprevout) =>
    some (inputs.ModifyCoins tx.hash fun _ => .FromTx tx nHeight, vprevout)

end Divitae
