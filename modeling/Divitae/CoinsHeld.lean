/-
# `CoinsHeld` — an output that stays

    c.Holds n o   output `n` of the coin is `o`, and an ordinary input can take it

Connecting a block leaves such an output where it is unless a transaction of the block
takes it or has its id; a clean disconnection leaves it unless it is an output of the block
itself, and then it is the one the block made.
-/
import Divitae.LiveOutputs

namespace Divitae

open Slots List Bool

/-- An ordinary input can take the output. -/
structure CTxOut.Spendable (o : CTxOut) : Prop where
  notNull : o.IsNull = false
  notMint : o.IsZerocoinMint = false
  spendable : o.scriptPubKey.IsUnspendable = false

/-! ## One coin -/

namespace CCoins

variable {c left : CCoins} {n m : Nat} {o : CTxOut} {tx : CTransaction} {nHeight : Int}

structure Holds (c : CCoins) (n : Nat) (o : CTxOut) : Prop where
  there : c.vout[n]? = some o
  spendable : o.Spendable

theorem Holds.isAvailable (h : c.Holds n o) : c.IsAvailable n = true := by
  rw [IsAvailable, h.there]
  show (!o.IsNull && !o.IsZerocoinMint) = true
  rw [h.spendable.notNull, h.spendable.notMint]
  rfl

theorem Holds.not_isPruned (h : c.Holds n o) : c.IsPruned = false := by
  cases hp : c.IsPruned with
  | false => rfl
  | true =>
    have hnull := all_eq_true.mp hp o (mem_of_getElem? h.there)
    rw [h.spendable.notNull] at hnull
    cases hnull

theorem holds_of_isAvailable (h : c.IsAvailable n = true)
    (hscript : (c.output n).scriptPubKey.IsUnspendable = false) : c.Holds n (c.output n) := by
  rw [IsAvailable] at h
  cases hout : c.vout[n]? with
  | none =>
    rw [hout] at h
    cases h
  | some txout =>
    rw [hout] at h
    obtain ⟨hnull, hmint⟩ := (and_eq_true _ _).mp h
    rw [output_eq_getElem hout] at hscript ⊢
    exact ⟨hout, not_eq_true' _ ▸ hnull, not_eq_true' _ ▸ hmint, hscript⟩

theorem Holds.cleanup (h : c.Holds n o) : c.Cleanup.Holds n o := by
  refine ⟨?_, h.spendable⟩
  have hthere := h.there
  rw [← rdropWhile_append_rtakeWhile (p := CTxOut.IsNull) (l := c.vout)] at hthere
  rcases Nat.lt_or_ge n (c.vout.rdropWhile CTxOut.IsNull).length with hlt | hge
  · rwa [List.getElem?_append_left hlt] at hthere
  · rw [List.getElem?_append_right hge] at hthere
    have hnull := mem_rtakeWhile_imp (mem_of_getElem? hthere)
    rw [h.spendable.notNull] at hnull
    cases hnull

theorem holds_of_cleanup (h : c.Cleanup.Holds n o) : c.Holds n o := by
  refine ⟨?_, h.spendable⟩
  have hthere : (c.vout.rdropWhile CTxOut.IsNull)[n]? = some o := h.there
  rw [← rdropWhile_append_rtakeWhile (p := CTxOut.IsNull) (l := c.vout),
    List.getElem?_append_left (List.getElem?_eq_some_iff.mp hthere).1]
  exact hthere

theorem Holds.clearUnspendable (h : c.Holds n o) : c.ClearUnspendable.Holds n o := by
  refine Holds.cleanup ⟨?_, h.spendable⟩
  rw [List.getElem?_map, h.there]
  show some (if o.scriptPubKey.IsUnspendable then CTxOut.null else o) = some o
  rw [h.spendable.spendable]
  rfl

theorem holds_of_clearUnspendable (h : c.ClearUnspendable.Holds n o) : c.Holds n o := by
  have hmap : (c.vout.map fun txout =>
      if txout.scriptPubKey.IsUnspendable then CTxOut.null else txout)[n]? = some o :=
    (holds_of_cleanup h).there
  refine ⟨?_, h.spendable⟩
  rw [List.getElem?_map, Option.map_eq_some_iff] at hmap
  obtain ⟨txout, hout, heq⟩ := hmap
  split_ifs at heq
  · rw [← heq] at h
    exact nomatch h.spendable.notNull
  · rw [hout, heq]

theorem holds_FromTx_iff : (FromTx tx nHeight).Holds n o ↔ tx.vout[n]? = some o ∧ o.Spendable := by
  constructor
  · intro h
    exact ⟨(holds_of_clearUnspendable h).there, h.spendable⟩
  · rintro ⟨hout, hspendable⟩
    exact Holds.clearUnspendable ⟨hout, hspendable⟩

theorem Holds.spend {undo : CTxInUndo} (h : c.Holds n o) (hspend : c.Spend m = some (left, undo))
    (hne : m ≠ n) : left.Holds n o := by
  have hleft : left = Cleanup { c with vout := c.vout.set m .null } := by
    rw [Spend] at hspend
    cases hout : c.vout[m]? with
    | none =>
      rw [hout] at hspend
      cases hspend
    | some txout =>
      rw [hout] at hspend
      dsimp only at hspend
      split_ifs at hspend
      · cases hspend
        rfl
      · cases hspend
        rfl
  rw [hleft]
  refine Holds.cleanup ⟨?_, h.spendable⟩
  rw [List.getElem?_set_ne hne]
  exact h.there

theorem Holds.restoreCoin {undo : CTxInUndo} (h : c.Holds n o)
    (hclean : (restoreCoin c m undo).2 = true) : (restoreCoin c m undo).1.Holds n o := by
  rw [Divitae.restoreCoin] at hclean ⊢
  dsimp only at hclean ⊢
  rw [and_eq_true, beq_iff_eq, h.not_isPruned] at hclean
  obtain ⟨hfresh, havail⟩ := hclean
  rw [hfresh] at havail ⊢
  have hne : m ≠ n := by
    rintro rfl
    rw [if_neg Bool.false_ne_true, h.isAvailable] at havail
    cases havail
  refine ⟨?_, h.spendable⟩
  show (put .null c.vout m undo.txout)[n]? = some o
  rw [put, List.getElem?_set_ne hne]
  split_ifs
  · rw [List.getElem?_append_left (List.getElem?_eq_some_iff.mp h.there).1]
    exact h.there
  · exact h.there

end CCoins

/-! ## A block on top -/

section
variable {view view' : CCoinsView} {out : COutPoint} {o : CTxOut} {tx : CTransaction}
  {nHeight : Int}

theorem holds_ModifyCoins {txid : uint256} {c : CCoins}
    (h : if out.hash = txid then c.Holds out.n o else (view.coins out.hash).Holds out.n o) :
    ((view.ModifyCoins txid fun _ => c).coins out.hash).Holds out.n o := by
  rw [CCoinsView.coins_ModifyCoins]
  split_ifs at h ⊢
  · exact h.cleanup
  · exact h

variable {vprevout : List CTxInUndo}

theorem spendInputs_holds {vin : List CTxIn}
    (h : spendInputs vin view = some (view', vprevout)) (hnot : ∀ txin ∈ vin, txin.prevout ≠ out)
    (hheld : (view.coins out.hash).Holds out.n o) : (view'.coins out.hash).Holds out.n o := by
  induction vin generalizing view vprevout with
  | nil =>
    cases h
    exact hheld
  | cons txin vin ih =>
    rw [spendInputs] at h
    cases hspend : (view.coins txin.prevout.hash).Spend txin.prevout.n with
    | none =>
      rw [hspend] at h
      cases h
    | some p =>
      obtain ⟨left, undo⟩ := p
      rw [hspend] at h
      dsimp only at h
      cases hrest : spendInputs vin (view.ModifyCoins txin.prevout.hash fun _ => left) with
      | none =>
        rw [hrest] at h
        cases h
      | some q =>
        obtain ⟨last, rest⟩ := q
        rw [hrest] at h
        cases h
        refine ih hrest (fun t ht => hnot t (.tail _ ht)) ?_
        refine holds_ModifyCoins ?_
        split_ifs with heq
        · refine CCoins.Holds.spend (heq ▸ hheld) hspend ?_
          intro hn
          refine hnot txin mem_cons_self ?_
          obtain ⟨hash, n⟩ := out
          obtain rfl : hash = txin.prevout.hash := heq
          obtain rfl : txin.prevout.n = n := hn
          rfl
        · exact hheld

theorem UpdateCoins_holds
    (h : UpdateCoins tx view nHeight = some (view', vprevout))
    (hnot : ∀ txin ∈ tx.vin, txin.prevout ≠ out) (hout : tx.hash = out.hash →
      tx.vout[out.n]? = some o)
    (hspendable : o.Spendable)
    (hheld : (view.coins out.hash).Holds out.n o ∨ tx.hash = out.hash) :
    (view'.coins out.hash).Holds out.n o := by
  have hmade : ∀ mid : CCoinsView, ((view.coins out.hash).Holds out.n o →
      (mid.coins out.hash).Holds out.n o) →
      ((mid.ModifyCoins tx.hash fun _ => .FromTx tx nHeight).coins out.hash).Holds out.n o := by
    intro mid hmid
    refine holds_ModifyCoins ?_
    split_ifs with heq
    · exact CCoins.holds_FromTx_iff.mpr ⟨hout heq.symm, hspendable⟩
    · exact hmid (hheld.resolve_right fun h => heq h.symm)
  rw [UpdateCoins] at h
  cases htakes : takesCoins tx with
  | true =>
    rw [show (!tx.IsCoinBase && !tx.IsZerocoinSpend) = true from htakes] at h
    simp only [if_true] at h
    cases hspend : spendInputs tx.vin view with
    | none =>
      rw [hspend] at h
      cases h
    | some p =>
      obtain ⟨mid, undo⟩ := p
      rw [hspend] at h
      cases h
      exact hmade mid (spendInputs_holds hspend hnot)
  | false =>
    rw [show (!tx.IsCoinBase && !tx.IsZerocoinSpend) = false from htakes] at h
    cases h
    exact hmade view id

variable {N : CConnectNode} {block : CBlock} {pindex pprev : CBlockIndex}

theorem connectTxs_holds {vtx : List CTransaction} {first : Bool} {st st' : ConnectState}
    (h : connectTxs N block pindex first vtx st = .ok st')
    (hnot : ∀ tx ∈ vtx, ∀ txin ∈ tx.vin, txin.prevout ≠ out)
    (hout : ∀ tx ∈ vtx, tx.hash = out.hash → tx.vout[out.n]? = some o) (hspendable : o.Spendable)
    (hheld : (st.view.coins out.hash).Holds out.n o ∨ ∃ tx ∈ vtx, tx.hash = out.hash) :
    (st'.view.coins out.hash).Holds out.n o := by
  induction vtx generalizing first st with
  | nil =>
    cases h
    rcases hheld with hheld | ⟨tx, htx, -⟩
    · exact hheld
    · exact nomatch htx
  | cons tx vtx ih =>
    simp only [connectTxs, bind_eq_ok] at h
    obtain ⟨mid, hmid, hrest⟩ := h
    obtain ⟨vprevout, hup⟩ := connectTx_updates hmid
    have hfirst : (st.view.coins out.hash).Holds out.n o ∨ tx.hash = out.hash →
        (mid.view.coins out.hash).Holds out.n o :=
      UpdateCoins_holds hup (hnot tx mem_cons_self) (hout tx mem_cons_self) hspendable
    refine ih hrest (fun t ht => hnot t (.tail _ ht)) (fun t ht => hout t (.tail _ ht)) ?_
    rcases hheld with hheld | ⟨t, ht, heq⟩
    · exact .inl (hfirst (.inl hheld))
    · rcases mem_cons.mp ht with rfl | ht
      · exact .inl (hfirst (.inr heq))
      · exact .inr ⟨t, ht, heq⟩

section
variable {fAlreadyChecked : Bool} {c : Connected} (hgenesis : block.hash ≠ N.hashGenesisBlock)
include hgenesis

/-- **An output that a connected block leaves.** -/
theorem ConnectBlock_holds
    (h : ConnectBlock N block pindex pprev view false fAlreadyChecked = .ok c)
    (hnot : ∀ tx ∈ block.vtx, ∀ txin ∈ tx.vin, txin.prevout ≠ out)
    (hout : ∀ tx ∈ block.vtx, tx.hash = out.hash → tx.vout[out.n]? = some o)
    (hspendable : o.Spendable)
    (hheld : (view.coins out.hash).Holds out.n o ∨ ∃ tx ∈ block.vtx, tx.hash = out.hash) :
    (c.view.coins out.hash).Holds out.n o := by
  obtain ⟨pindex', st, -, -, htotals, rfl⟩ := ConnectBlock_ok hgenesis h
  exact connectTxs_holds (connectTotals_parts htotals).1 hnot hout hspendable hheld

/-- Where BIP30 is enforced the ids of the block have no coins. -/
theorem ConnectBlock_BIP30 (hbip30 : fEnforceBIP30 pindex = true)
    (h : ConnectBlock N block pindex pprev view false fAlreadyChecked = .ok c) :
    ∀ tx ∈ block.vtx, (view.coins tx.hash).IsPruned = true := by
  obtain ⟨pindex', st, -, -, htotals, -⟩ := ConnectBlock_ok hgenesis h
  exact (connectTotals_parts htotals).2.1 hbip30

end

end

/-! ## A block off again -/

section
variable {N : CDisconnectNode} {block : CBlock} {pindex pprev : CBlockIndex}
  {view view' : CCoinsView} {out : COutPoint} {o : CTxOut}

theorem restoreInputs_holds {l : List (CTxIn × CTxInUndo)}
    (hclean : (restoreInputs l view).2 = true)
    (hheld : (view.coins out.hash).Holds out.n o) :
    ((restoreInputs l view).1.coins out.hash).Holds out.n o := by
  induction l with
  | nil => exact hheld
  | cons p rest ih =>
    obtain ⟨txin, undo⟩ := p
    have hboth : ((restoreInputs rest view).2 && (restoreCoin
        ((restoreInputs rest view).1.coins txin.prevout.hash) txin.prevout.n undo).2) = true :=
      hclean
    obtain ⟨hrest, hone⟩ := (and_eq_true _ _).mp hboth
    have hmid := ih hrest
    refine holds_ModifyCoins (c := (restoreCoin
      ((restoreInputs rest view).1.coins txin.prevout.hash) txin.prevout.n undo).1) ?_
    split_ifs with heq
    · rw [heq] at hmid
      exact hmid.restoreCoin hone
    · exact hmid

theorem outsMatch_holds {c : CCoins} {tx : CTransaction} {nHeight : Int} {n : Nat}
    (hmatch : outsMatch c tx nHeight = true) (hheld : c.Holds n o) : tx.vout[n]? = some o := by
  have hclear := hheld.clearUnspendable
  rw [outsMatch, decide_eq_true_eq] at hmatch
  have hvout : ∀ d : CCoins, (if (CCoins.FromTx tx nHeight).nVersion < 0 then
      { d with nVersion := (CCoins.FromTx tx nHeight).nVersion } else d).vout = d.vout := by
    intro d
    split_ifs <;> rfl
  rcases hmatch with ⟨hpruned, -⟩ | hsame
  · rw [CCoins.IsPruned, hvout] at hpruned
    cases hclear.not_isPruned.symm.trans hpruned
  · have hthere : (CCoins.FromTx tx nHeight).vout[n]? = some o := by
      rw [← hsame, hvout]
      exact hclear.there
    exact (CCoins.holds_FromTx_iff.mp ⟨hthere, hheld.spendable⟩).1

theorem disconnectTx_holds {tx : CTransaction}
    (h : disconnectTx N pindex tx vprevout view = .ok (view', true))
    (hheld : (view.coins out.hash).Holds out.n o) :
    tx.hash = out.hash ∧ tx.vout[out.n]? = some o ∨ (view'.coins out.hash).Holds out.n o := by
  simp only [disconnectTx, bind_eq_ok] at h
  obtain ⟨_, -, _, -, h⟩ := h
  rcases eq_or_ne out.hash tx.hash with heq | hne
  · -- the coin of the transaction itself
    refine .inl ⟨heq.symm, ?_⟩
    have hmatch : outsMatch (view.coins tx.hash) tx pindex.nHeight = true := by
      split_ifs at h
      · obtain ⟨-, h⟩ := rejectIf_eq_ok.mp h
        exact ((and_eq_true _ _).mp (Prod.mk.inj (Except.ok.inj h)).2).1
      · exact (Prod.mk.inj (Except.ok.inj h)).2
    rw [heq] at hheld
    exact outsMatch_holds hmatch hheld
  · refine .inr ?_
    have hcleared : ((view.ModifyCoins tx.hash fun _ => CCoins.null).coins out.hash).Holds
        out.n o := by
      refine holds_ModifyCoins ?_
      rw [if_neg hne]
      exact hheld
    split_ifs at h
    · obtain ⟨-, h⟩ := rejectIf_eq_ok.mp h
      obtain ⟨rfl, hclean⟩ := Prod.mk.inj (Except.ok.inj h)
      exact restoreInputs_holds ((and_eq_true _ _).mp hclean).2 hcleared
    · obtain ⟨rfl, -⟩ := Prod.mk.inj (Except.ok.inj h)
      exact hcleared

theorem disconnectTxs_holds {l : List (CTransaction × List CTxInUndo)}
    (h : disconnectTxs N pindex l view = .ok (view', true))
    (hheld : (view.coins out.hash).Holds out.n o) :
    (∃ p ∈ l, p.1.hash = out.hash ∧ p.1.vout[out.n]? = some o) ∨
      (view'.coins out.hash).Holds out.n o := by
  induction l generalizing view' with
  | nil =>
    cases h
    exact .inr hheld
  | cons p rest ih =>
    obtain ⟨tx, vprevout⟩ := p
    simp only [disconnectTxs, bind_eq_ok] at h
    obtain ⟨⟨mid, fClean⟩, hrest, ⟨last, fine⟩, htx, h⟩ := h
    obtain ⟨rfl, hboth⟩ := Prod.mk.inj (Except.ok.inj h)
    obtain ⟨rfl, rfl⟩ := (and_eq_true _ _).mp hboth
    rcases ih hrest with ⟨p, hp, hmade⟩ | hmid
    · exact .inl ⟨p, .tail _ hp, hmade⟩
    · rcases disconnectTx_holds htx hmid with hmade | hlast
      · exact .inl ⟨(tx, vprevout), .head _, hmade⟩
      · exact .inr hlast

/-- **An output that a clean disconnection leaves.** -/
theorem DisconnectBlock_holds (h : DisconnectBlock N block pindex pprev view = .ok (view', true))
    (hheld : (view.coins out.hash).Holds out.n o) :
    (∃ tx ∈ block.vtx, tx.hash = out.hash ∧ tx.vout[out.n]? = some o) ∨
      (view'.coins out.hash).Holds out.n o := by
  simp only [DisconnectBlock, rejectIf_eq_ok] at h
  obtain ⟨-, h⟩ := h
  cases hundo : pindex.undo with
  | none =>
    rw [hundo] at h
    cases h
  | some undo =>
    rw [hundo] at h
    dsimp only at h
    cases hread : ReadFromDisk N undo (pprev.phashBlock.getD 0) with
    | none =>
      rw [hread] at h
      cases h
    | some vtxundo =>
      rw [hread] at h
      simp only [rejectIf_eq_ok, bind_eq_ok] at h
      obtain ⟨-, ⟨last, fClean⟩, hdisc, -, h⟩ := h
      obtain ⟨rfl, rfl⟩ := Prod.mk.inj (Except.ok.inj h)
      rcases disconnectTxs_holds hdisc hheld with ⟨p, hp, hmade⟩ | hlast
      · exact .inl ⟨p.1, (of_mem_zip hp).1, hmade⟩
      · exact .inr hlast

end

end Divitae
