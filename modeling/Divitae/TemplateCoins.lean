/-
# `TemplateCoins` — the coins while a block is put together

    Reflects pool tip view vtx   `view` is the coins of the tip behind the pool transactions `vtx`

What is live in such a view is the output that the pool shows over the tip (`source`), of a
transaction that is in the block already or of none of the pool (`mined`), and nothing in the block
takes it (`spent`).  With `parents` these are kept by each transaction that is new in the block
(`Reflects.mine`).
-/
import Divitae.BlockTemplate
import Divitae.UnminedPool

namespace Divitae

open Slots CTxMemPool List CCoinsView

/-! ## What is live is as it was -/

section
variable {c left : CCoins} {m n : Nat}

theorem CCoins.output_of_cleanup (h : (c.Cleanup.output m).IsNull = false) :
    c.Cleanup.output m = c.output m := by
  have hprefix : c.vout.rdropWhile CTxOut.IsNull <+: c.vout := rdropWhile_prefix _ _
  show slot .null (c.vout.rdropWhile CTxOut.IsNull) m = slot .null c.vout m
  have hshort : (slot .null (c.vout.rdropWhile CTxOut.IsNull) m).IsNull = false := h
  unfold slot at hshort ⊢
  rcases Nat.lt_or_ge m (c.vout.rdropWhile CTxOut.IsNull).length with hlt | hge
  · rw [getD_eq_getElem _ _ hlt, hprefix.getElem hlt,
      getD_eq_getElem _ _ (Nat.lt_of_lt_of_le hlt hprefix.length_le)]
  · rw [getD_eq_default _ _ hge] at hshort
    cases hshort

theorem CCoins.output_of_spend {undo : CTxInUndo} (h : c.Spend n = some (left, undo))
    (hm : (left.output m).IsNull = false) : left.output m = c.output m := by
  have hne : m ≠ n := ((CCoins.Spend_live h).2 m hm).1
  have hleft : left = Cleanup { c with vout := c.vout.set n .null } := by
    unfold Spend at h
    split at h
    · cases h
    · split at h
      · cases h
      · dsimp only at h
        split at h
        · cases h
          rfl
        · cases h
          rfl
  subst hleft
  rw [output_of_cleanup hm]
  unfold output slot
  rw [getD_eq_getElem?_getD, getD_eq_getElem?_getD, List.getElem?_set_ne hne.symm]

variable {view view' : CCoinsView} {out : COutPoint} {tx : CTransaction} {nHeight : Int}

/-- The output that the view holds there. -/
def CCoinsView.outputAt (view : CCoinsView) (out : COutPoint) : CTxOut :=
  (view.coins out.hash).output out.n

theorem outputAt_ModifyCoins {txid : uint256}
    (hlive : (view.ModifyCoins txid fun _ => c).Live out) :
    (view.ModifyCoins txid fun _ => c).outputAt out =
      if out.hash = txid then c.output out.n else view.outputAt out := by
  unfold CCoinsView.Live at hlive
  unfold outputAt
  rw [coins_ModifyCoins] at hlive ⊢
  split_ifs at hlive ⊢
  · exact CCoins.output_of_cleanup hlive
  · rfl

variable {vprevout : List CTxInUndo}

theorem spendInputs_outputAt {vin : List CTxIn}
    (h : spendInputs vin view = some (view', vprevout)) (hlive : view'.Live out) :
    view'.outputAt out = view.outputAt out := by
  induction vin generalizing view vprevout with
  | nil =>
    cases h
    rfl
  | cons txin vin ih =>
    rw [spendInputs] at h
    split at h
    · cases h
    next left undo hspend =>
      split at h
      · cases h
      next mid rest hrest =>
        cases h
        have hmid := ((spendInputs_live hrest).1 out hlive).1
        rw [ih hrest, outputAt_ModifyCoins hmid]
        split_ifs with heq
        · have hleft : (left.output out.n).IsNull = false := by
            rcases live_modify hmid with ⟨-, hlive⟩ | ⟨hne, -⟩
            · exact hlive
            · exact absurd heq hne
          rw [CCoins.output_of_spend hspend hleft]
          unfold outputAt
          rw [heq]
        · rfl

theorem UpdateCoins_outputAt
    (h : UpdateCoins tx view nHeight = some (view', vprevout)) (hlive : view'.Live out) :
    view'.outputAt out =
      if out.hash = tx.hash then (CCoins.FromTx tx nHeight).output out.n
      else view.outputAt out := by
  have hspent : ∃ mid : CCoinsView, view' = mid.ModifyCoins tx.hash (fun _ => .FromTx tx nHeight) ∧
      (mid.Live out → mid.outputAt out = view.outputAt out) := by
    unfold UpdateCoins at h
    dsimp only at h
    split at h
    · cases h
    next mid vprevout' hmid =>
      cases h
      refine ⟨mid, rfl, fun hlive => ?_⟩
      split at hmid
      · exact spendInputs_outputAt hmid hlive
      · cases hmid
        rfl
  obtain ⟨mid, rfl, hmid⟩ := hspent
  rw [outputAt_ModifyCoins hlive]
  split_ifs with heq
  · rfl
  · rcases live_modify hlive with ⟨heq', -⟩ | ⟨-, hsame⟩
    · exact absurd heq' heq
    · exact hmid hsame

end

/-! ## The view behind the transactions taken -/

/-- The pool over the coins of the tip. -/
structure Reflects (pool : CTxMemPool) (tip view : CCoinsView) (vtx : List CTransaction) :
    Prop where
  source : ∀ out, view.Live out → view.outputAt out = (CCoinsViewMemPool tip pool).outputAt out
  mined : ∀ out, view.Live out → ∀ parent ∈ pool.txs, parent.hash = out.hash → parent ∈ vtx
  parents : ∀ tx ∈ vtx, ∀ out ∈ tx.spends, ∀ parent ∈ pool.txs, parent.hash = out.hash →
    parent ∈ vtx
  spent : ∀ tx ∈ vtx, ∀ out ∈ tx.spends, ¬ view.Live out

section
variable {pool : CTxMemPool} {tip view view' : CCoinsView} {vtx : List CTransaction}
  {tx : CTransaction} {nHeight : Int}

theorem CTxMemPool.Unmined.named (h : pool.Unmined tip) {t t' : CTransaction} (ht : t ∈ pool.txs)
    (ht' : t' ∈ pool.txs) (hhash : t.hash = t'.hash) : t = t' := by
  obtain ⟨hash, entry, hlook, rfl⟩ := mem_txs.mp ht
  obtain ⟨hash', entry', hlook', rfl⟩ := mem_txs.mp ht'
  obtain rfl : hash = hash' :=
    (h hash entry hlook).1.symm.trans (hhash.trans (h hash' entry' hlook').1)
  rw [Option.some.inj (hlook.symm.trans hlook')]

theorem CTxMemPool.Unmined.lookup (h : pool.Unmined tip) (htx : tx ∈ pool.txs) :
    ∃ entry, pool.mapTx.lookup tx.hash = some entry ∧ entry.tx = tx := by
  obtain ⟨hash, entry, hlook, rfl⟩ := mem_txs.mp htx
  exact ⟨entry, (h hash entry hlook).1.symm ▸ hlook, rfl⟩

theorem CTxMemPool.Unmined.reflects (h : pool.Unmined tip) : Reflects pool tip tip [] where
  source out hlive := by
    have habsent : pool.mapTx.lookup out.hash = none := by
      cases hlook : pool.mapTx.lookup out.hash with
      | none => rfl
      | some entry => exact absurd hlive ((h out.hash entry hlook).2 out.n)
    have hkept : (tip.coins out.hash).IsPruned = false := by
      cases hp : (tip.coins out.hash).IsPruned with
      | false => rfl
      | true => exact absurd hlive (not_live_of_isPruned hp)
    have hcoins : (CCoinsViewMemPool tip pool).coins out.hash = tip.coins out.hash := by
      rw [coins_CCoinsViewMemPool, habsent]
      rw [hkept, if_neg Bool.false_ne_true]
    unfold outputAt
    rw [hcoins]
  mined out hlive parent hparent hhash := by
    obtain ⟨entry, hlook, rfl⟩ := h.lookup hparent
    exact absurd (hhash ▸ hlive) ((h entry.tx.hash entry hlook).2 out.n)
  parents tx htx := nomatch htx
  spent tx htx := nomatch htx

section
variable (h : Reflects pool tip view vtx)
include h

/-- **One more transaction of the pool.** -/
theorem Reflects.mine (hpool : pool.Unmined tip)
    (htx : tx ∈ pool.txs) (hnew : tx ∉ vtx)
    (hup : UpdateCoins tx view nHeight = some (view', vprevout)) :
    Reflects pool tip view' (vtx ++ [tx]) := by
  obtain ⟨hlive', hspends⟩ := UpdateCoins_live hup
  have hself : ∀ t ∈ pool.txs, t.hash = tx.hash → t = tx := fun t ht => hpool.named ht htx
  -- what the transaction takes is of no pool transaction that is still to come
  have hbefore : ∀ out ∈ tx.spends, ∀ parent ∈ pool.txs, parent.hash = out.hash → parent ∈ vtx :=
    fun out hout => h.mined out (hspends out hout)
  refine ⟨fun out hlive => ?_, fun out hlive parent hparent hhash => ?_,
    fun t ht out hout parent hparent hhash => ?_, fun t ht out hout hlive => ?_⟩
  · rw [UpdateCoins_outputAt hup hlive]
    split_ifs with heq
    · obtain ⟨entry, hlook, hmine⟩ := hpool.lookup htx
      unfold outputAt
      rw [heq, coins_of_lookup hlook, hmine]
      rfl
    · rcases hlive' out hlive with heq' | ⟨hview, -⟩
      · exact absurd heq' heq
      · exact h.source out hview
  · rcases hlive' out hlive with heq | ⟨hview, -⟩
    · have hmine := hself parent hparent (hhash.trans heq)
      exact mem_append_right vtx (mem_singleton.mpr hmine)
    · exact mem_append_left [tx] (h.mined out hview parent hparent hhash)
  · refine mem_append_left [tx] ?_
    rcases mem_append.mp ht with ht | ht
    · exact h.parents t ht out hout parent hparent hhash
    · rw [mem_singleton.mp ht] at hout
      exact hbefore out hout parent hparent hhash
  · -- an output of the transaction itself is taken by none before it, and not by itself
    have hown : out.hash = tx.hash → tx ∈ vtx := by
      intro heq
      rcases mem_append.mp ht with ht | ht
      · exact h.parents t ht out hout tx htx heq.symm
      · rw [mem_singleton.mp ht] at hout
        exact hbefore out hout tx htx heq.symm
    rcases hlive' out hlive with heq | ⟨hview, hnot⟩
    · exact hnew (hown heq)
    · rcases mem_append.mp ht with ht | ht
      · exact h.spent t ht out hout hview
      · rw [mem_singleton.mp ht] at hout
        exact hnot hout

theorem Reflects.GetOutputFor (hspend : tx.IsZerocoinSpend = false)
    (hbase : tx.IsCoinBase = false) (hhave : view.HaveInputs tx = true) :
    ∀ txin ∈ tx.vin, view.GetOutputFor txin = (CCoinsViewMemPool tip pool).GetOutputFor txin := by
  intro txin hin
  rw [CCoinsView.HaveInputs, hspend, hbase, Bool.false_or, Bool.false_or] at hhave
  have havail := all_eq_true.mp hhave txin hin
  exact h.source txin.prevout (live_of_available havail)

theorem Reflects.recordedFee (hbase : tx.IsCoinBase = false)
    (hhave : view.HaveInputs tx = true) :
    recordedFee view tx = recordedFee (CCoinsViewMemPool tip pool) tx := by
  have hvalue : view.GetValueIn tx = (CCoinsViewMemPool tip pool).GetValueIn tx := by
    unfold CCoinsView.GetValueIn
    rw [hbase]
    cases hspend : tx.IsZerocoinSpend with
    | true => rfl
    | false =>
      have hsame := h.GetOutputFor hspend hbase hhave
      simp only [Bool.false_eq_true, if_false]
      exact foldl_ext _ _ 0 fun value txin hin => by rw [hsame txin hin]
  unfold Divitae.recordedFee
  rw [hvalue]

end

end

end Divitae
