/-
# `MinedInOrder` — the transactions of the pool, one after the other in a block

    Unconflicted pool view spent   no two transactions of the pool take an output or spend a
                                   serial in common, what an ordinary one takes is there, and
                                   no serial is among those `spent`
    InOrder pool [] txs            transactions of the pool, each behind those it depends on
    Mines view spent txs           each finds its inputs in the coins behind the ones before
                                   it, and spends no serial that is spent by then

`Unconflicted.mines` leads from the first two to the third.  What is carried along the list is
`Ready`: the inputs of what is still to come are coins, or outputs of what comes before them.
-/
import Divitae.MemPoolRuns
import Divitae.ZerocoinDB

namespace Divitae

open List

/-- The serials a transaction spends. -/
def CTransaction.serials (Z : Zerocoin) (tx : CTransaction) : List Int :=
  (tx.coinSpends Z).map Prod.fst

section
variable {c : CCoins} {n : Nat} {o : CTxOut} {view : CCoinsView} {tx : CTransaction}

theorem CCoins.Holds.spends (h : c.Holds n o) : ∃ left undo, c.Spend n = some (left, undo) := by
  have hnull : ¬ o.IsNull = true := by
    rw [h.spendable.notNull]
    exact Bool.false_ne_true
  unfold CCoins.Spend
  rw [h.there]
  dsimp only
  split_ifs
  · exact ⟨_, _, rfl⟩
  · exact ⟨_, _, rfl⟩

theorem spendInputs_some {vin : List CTxIn} (hdistinct : (vin.map CTxIn.prevout).Nodup)
    (hheld : ∀ txin ∈ vin, ∃ o, (view.coins txin.prevout.hash).Holds txin.prevout.n o) :
    ∃ view' vprevout, spendInputs vin view = some (view', vprevout) := by
  induction vin generalizing view with
  | nil => exact ⟨view, [], rfl⟩
  | cons txin vin ih =>
    obtain ⟨hfirst, hrest⟩ := nodup_cons.mp hdistinct
    obtain ⟨o, ho⟩ := hheld txin mem_cons_self
    obtain ⟨left, undo, hspend⟩ := ho.spends
    have hnext : ∀ t ∈ vin, ∃ o, ((view.ModifyCoins txin.prevout.hash fun _ => left).coins
        t.prevout.hash).Holds t.prevout.n o := by
      intro t ht
      obtain ⟨o', ho'⟩ := hheld t (.tail _ ht)
      have hone : spendInputs [txin] view =
          some (view.ModifyCoins txin.prevout.hash fun _ => left, [undo]) := by
        simp only [spendInputs, hspend]
      refine ⟨o', spendInputs_holds hone ?_ ho'⟩
      intro first hmem heq
      obtain rfl := mem_singleton.mp hmem
      exact hfirst (heq ▸ mem_map_of_mem ht)
    obtain ⟨view', vprevout, hlast⟩ := ih hrest hnext
    refine ⟨view', undo :: vprevout, ?_⟩
    simp only [spendInputs, hspend, hlast]

theorem UpdateCoins_some (nHeight : Int) (hdistinct : tx.IsZerocoinSpend = false →
      (tx.vin.map CTxIn.prevout).Nodup)
    (hheld : tx.IsZerocoinSpend = false → ∀ txin ∈ tx.vin,
      ∃ o, (view.coins txin.prevout.hash).Holds txin.prevout.n o) :
    view.HaveInputs tx = true ∧
      ∃ view' vprevout, UpdateCoins tx view nHeight = some (view', vprevout) := by
  cases hspend : tx.IsZerocoinSpend with
  | true =>
    refine ⟨?_, ?_⟩
    · simp [CCoinsView.HaveInputs, hspend]
    · simp [UpdateCoins, hspend]
  | false =>
    obtain ⟨mid, undo, hmid⟩ := spendInputs_some (hdistinct hspend) (hheld hspend)
    refine ⟨?_, ?_⟩
    · have hall : (tx.vin.all fun txin =>
          (view.coins txin.prevout.hash).IsAvailable txin.prevout.n) = true := by
        refine all_eq_true.mpr ?_
        intro txin hin
        obtain ⟨o, ho⟩ := hheld hspend txin hin
        exact ho.isAvailable
      rw [CCoinsView.HaveInputs, hall, Bool.or_true]
    · cases hbase : tx.IsCoinBase with
      | true => simp [UpdateCoins, hbase]
      | false => simp [UpdateCoins, hbase, hspend, hmid]

end

/-! ## The pool -/

namespace CTxMemPool

/-- No transaction of the pool is in conflict with another one or with the chain. -/
structure Unconflicted (Z : Zerocoin) (pool : CTxMemPool) (view : CCoinsView) (spent : List Int) :
    Prop where
  /-- two ordinary transactions take no common output -/
  outpoints : ∀ tx ∈ pool.txs, ∀ tx' ∈ pool.txs, tx.IsZerocoinSpend = false →
    tx'.IsZerocoinSpend = false → ∀ txin ∈ tx.vin, ∀ txin' ∈ tx'.vin,
      txin.prevout = txin'.prevout → tx = tx'
  /-- what an ordinary transaction takes is an output of the pool or an unspent coin -/
  unspent : ∀ tx ∈ pool.txs, tx.IsZerocoinSpend = false → ∀ txin ∈ tx.vin,
    ∃ o, pool.Finds view txin.prevout o
  /-- two transactions spend no common serial -/
  serials : ∀ tx ∈ pool.txs, ∀ tx' ∈ pool.txs, ∀ k ∈ tx.serials Z, k ∈ tx'.serials Z → tx = tx'
  /-- no serial is spent on the chain -/
  fresh : ∀ tx ∈ pool.txs, ∀ k ∈ tx.serials Z, k ∉ spent

/-- Transactions of the pool, behind those before them, each behind all of the pool that it
takes an output of. -/
def InOrder (pool : CTxMemPool) : List CTransaction → List CTransaction → Prop
  | _, [] => True
  | earlier, tx :: rest =>
    tx ∈ pool.txs ∧ tx ∉ earlier ∧
      (tx.IsZerocoinSpend = false → ∀ txin ∈ tx.vin, ∀ parent ∈ pool.txs,
        parent.hash = txin.prevout.hash → parent ∈ earlier) ∧
      InOrder pool (tx :: earlier) rest

end CTxMemPool

/-- The transactions go into a block one by one: each finds its inputs, and none of its serials
is spent. -/
def Mines (Z : Zerocoin) (nHeight : Int) : CCoinsView → List Int → List CTransaction → Prop
  | _, _, [] => True
  | view, spent, tx :: rest =>
    view.HaveInputs tx = true ∧ (∀ k ∈ tx.serials Z, k ∉ spent) ∧
      ∃ view' vprevout, UpdateCoins tx view nHeight = some (view', vprevout) ∧
        Mines Z nHeight view' (tx.serials Z ++ spent) rest

namespace CTxMemPool

variable {Z : Zerocoin} {pool : CTxMemPool} {view view' : CCoinsView} {spent : List Int}
  {earlier txs : List CTransaction} {tx : CTransaction}

section
variable (h : WellLinked pool)
include h

theorem WellLinked.same {tx tx' : CTransaction} (htx : tx ∈ pool.txs)
    (htx' : tx' ∈ pool.txs) (hhash : tx.hash = tx'.hash) : tx = tx' := by
  obtain ⟨hash, entry, hlook, rfl⟩ := mem_txs.mp htx
  obtain ⟨hash', entry', hlook', rfl⟩ := mem_txs.mp htx'
  obtain rfl : hash = hash' := (h.named hlook).symm.trans (hhash.trans (h.named hlook'))
  rw [Option.some.inj (hlook.symm.trans hlook')]

theorem WellLinked.takes (htx : tx ∈ pool.txs)
    (hspend : tx.IsZerocoinSpend = false) {n : Nat} {txin : CTxIn} (hin : tx.vin[n]? = some txin) :
    pool.Takes ⟨tx.hash, n⟩ txin.prevout := by
  obtain ⟨hash, entry, hlook, rfl⟩ := mem_txs.mp htx
  rw [h.named hlook]
  exact ⟨entry, hlook, hspend, txin, hin, rfl⟩

theorem WellLinked.outpoints : ∀ tx ∈ pool.txs, ∀ tx' ∈ pool.txs,
    tx.IsZerocoinSpend = false → tx'.IsZerocoinSpend = false → ∀ txin ∈ tx.vin,
      ∀ txin' ∈ tx'.vin, txin.prevout = txin'.prevout → tx = tx' := by
  intro tx htx tx' htx' hspend hspend' txin hin txin' hin' hout
  obtain ⟨i, hi⟩ := List.getElem?_of_mem hin
  obtain ⟨j, hj⟩ := List.getElem?_of_mem hin'
  have hone := h.takes htx hspend hi
  have hother := h.takes htx' hspend' hj
  rw [hout] at hone
  exact h.same htx htx' (congrArg CInPoint.ptx (h.unique hone hother))

theorem WellLinked.distinct (htx : tx ∈ pool.txs)
    (hspend : tx.IsZerocoinSpend = false) : (tx.vin.map CTxIn.prevout).Nodup := by
  refine nodup_iff_getElem?_ne_getElem?.mpr ?_
  intro i j hij hj heq
  rw [length_map] at hj
  have hi : i < tx.vin.length := hij.trans hj
  rw [List.getElem?_map, List.getElem?_map, List.getElem?_eq_getElem hi,
    List.getElem?_eq_getElem hj] at heq
  have hout : tx.vin[i].prevout = tx.vin[j].prevout := Option.some.inj heq
  have hone := h.takes htx hspend (List.getElem?_eq_getElem hi)
  have hother := h.takes htx hspend (List.getElem?_eq_getElem hj)
  rw [hout] at hone
  have hsame : i = j := congrArg CInPoint.n (h.unique hone hother)
  omega

end

/-! ## Along the list -/

/-- What an ordinary transaction that is still to come takes is a coin, or an output of one that
comes before it. -/
def Ready (pool : CTxMemPool) (view : CCoinsView) (earlier : List CTransaction) : Prop :=
  ∀ tx ∈ pool.txs, tx ∉ earlier → tx.IsZerocoinSpend = false → ∀ txin ∈ tx.vin, ∃ o,
    ((view.coins txin.prevout.hash).Holds txin.prevout.n o ∧
        ∀ parent ∈ pool.txs, parent.hash = txin.prevout.hash → parent ∈ earlier) ∨
      o.Spendable ∧ ∃ parent ∈ pool.txs, parent ∉ earlier ∧ parent.hash = txin.prevout.hash ∧
        parent.vout[txin.prevout.n]? = some o

theorem Unconflicted.ready (hlinked : WellLinked pool) (h : Unconflicted Z pool view spent) :
    Ready pool view [] := by
  intro tx htx _ hspend txin hin
  obtain ⟨o, hfinds⟩ := h.unspent tx htx hspend txin hin
  refine ⟨o, ?_⟩
  cases hparent : pool.mapTx.lookup txin.prevout.hash with
  | none =>
    refine .inl ⟨(holds_of_absent hparent).mp hfinds, ?_⟩
    intro parent hmem hhash
    obtain ⟨hash, entry, hlook, rfl⟩ := mem_txs.mp hmem
    rw [← hhash, hlinked.named hlook, hlook] at hparent
    cases hparent
  | some entry =>
    obtain ⟨hout, hspendable⟩ := (holds_of_lookup hparent).mp hfinds
    exact .inr ⟨hspendable, entry.tx, mem_txs.mpr ⟨_, entry, hparent, rfl⟩, not_mem_nil,
      hlinked.named hparent, hout⟩

theorem Ready.mined {nHeight : Int} {vprevout : List CTxInUndo} (hlinked : WellLinked pool)
    (hready : Ready pool view earlier) (htx : tx ∈ pool.txs) (hnew : tx ∉ earlier)
    (hup : UpdateCoins tx view nHeight = some (view', vprevout)) :
    Ready pool view' (tx :: earlier) := by
  intro t ht hlater hspend txin hin
  have hne : tx ≠ t := by
    rintro rfl
    exact hlater mem_cons_self
  -- the transaction takes nothing that the other one takes
  have hnot : ∀ mine ∈ tx.vin, mine.prevout ≠ txin.prevout := by
    intro mine hmine heq
    cases hz : tx.IsZerocoinSpend with
    | true => exact hlinked.apart tx htx hz t ht hspend txin hin (heq ▸ mem_map_of_mem hmine)
    | false => exact hne (hlinked.outpoints tx htx t ht hz hspend mine hmine txin hin heq)
  obtain ⟨o, ⟨hheld, hbehind⟩ | ⟨hspendable, parent, hparent, hcoming, hhash, hout⟩⟩ :=
    hready t ht (fun h => hlater (.tail _ h)) hspend txin hin
  · refine ⟨o, .inl ⟨UpdateCoins_holds hup hnot ?_ hheld.spendable (.inl hheld), ?_⟩⟩
    · intro hhash
      exact absurd (hbehind tx htx hhash) hnew
    · intro parent hparent hhash
      exact .tail _ (hbehind parent hparent hhash)
  · refine ⟨o, ?_⟩
    rcases eq_or_ne parent tx with rfl | hother
    · refine .inl ⟨UpdateCoins_holds hup hnot (fun _ => hout) hspendable (.inr hhash), ?_⟩
      intro other hmem hsame
      rw [hlinked.same hmem hparent (hsame.trans hhash.symm)]
      exact .head _
    · refine .inr ⟨hspendable, parent, hparent, ?_, hhash, hout⟩
      intro hmem
      rcases mem_cons.mp hmem with heq | hmem
      · exact hother heq
      · exact hcoming hmem

/-- **The pool can be mined.**  In every order in which the parents come first the transactions
find their inputs, and no serial is spent twice. -/
theorem Unconflicted.mines (hlinked : WellLinked pool) (h : Unconflicted Z pool view spent)
    (nHeight : Int) {txs : List CTransaction} (horder : InOrder pool [] txs) :
    Mines Z nHeight view spent txs := by
  have hrun : ∀ (txs earlier : List CTransaction) (view : CCoinsView) (gone : List Int),
      Ready pool view earlier → InOrder pool earlier txs →
      (∀ k ∈ gone, k ∈ spent ∨ ∃ t ∈ earlier, t ∈ pool.txs ∧ k ∈ t.serials Z) →
      Mines Z nHeight view gone txs := by
    intro txs
    induction txs with
    | nil => exact fun _ _ _ _ _ _ => trivial
    | cons tx txs ih =>
      intro earlier view gone hready horder hgone
      obtain ⟨htx, hnew, hparents, hrest⟩ := horder
      have hheld : tx.IsZerocoinSpend = false → ∀ txin ∈ tx.vin,
          ∃ o, (view.coins txin.prevout.hash).Holds txin.prevout.n o := by
        intro hspend txin hin
        obtain ⟨o, ⟨hheld, -⟩ | ⟨-, parent, hparent, hcoming, hhash, -⟩⟩ :=
          hready tx htx hnew hspend txin hin
        · exact ⟨o, hheld⟩
        · exact absurd (hparents hspend txin hin parent hparent hhash) hcoming
      obtain ⟨hhave, view', vprevout, hup⟩ :=
        UpdateCoins_some nHeight (fun hspend => hlinked.distinct htx hspend) hheld
      refine ⟨hhave, ?_, view', vprevout, hup, ?_⟩
      · intro k hk hmem
        rcases hgone k hmem with hchain | ⟨t, hearlier, ht, hkt⟩
        · exact h.fresh tx htx k hk hchain
        · exact hnew (h.serials tx htx t ht k hk hkt ▸ hearlier)
      · refine ih (tx :: earlier) view' _ (hready.mined hlinked htx hnew hup) hrest ?_
        intro k hk
        rcases mem_append.mp hk with hk | hk
        · exact .inr ⟨tx, .head _, htx, hk⟩
        · rcases hgone k hk with hchain | ⟨t, hearlier, ht⟩
          · exact .inl hchain
          · exact .inr ⟨t, .tail _ hearlier, ht⟩
  exact hrun txs [] view spent (h.ready hlinked) horder fun k hk => .inl hk

end CTxMemPool

end Divitae
