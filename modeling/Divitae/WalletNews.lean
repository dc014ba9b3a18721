/-
# `WalletNews` — when what the chain tells the wallet is news

The wallet is told of two things: a mint in a block that is connected, and a spend in a block
that is disconnected.  Told of a mint that it tracks it records height and transaction; a mint
from the pool it starts to track.  Told of a spend it takes the mint back as unused.

    unspent   by the serial
    seen      by the coin

What is told last of a serial and of a coin counts, and the two do not interfere: the wallet is
as it was exactly when nothing came from the pool and the last word on each serial and coin is
what is there already (`told_eq_self_iff`).
-/
import Divitae.Lib.Overwrites
import Divitae.WalletMints

namespace Divitae

open Overwrites Records List Function

/-- What the wallet is told. -/
inductive WalletNews where
  | unspent (bnSerial : Int)
  | seen (seed : MintSeed) (nHeight : Int) (m : BlockMint)

namespace WalletNews

/-- Serials and coins are told apart. -/
def key : WalletNews → Int ⊕ Int
  | unspent bnSerial => .inl bnSerial
  | seen _ _ m => .inr m.value

end WalletNews

namespace ZerocoinWallet

variable {w : ZerocoinWallet} {v u : Int}

/-- The wallet is told, as `DisconnectBlock` and `UpdateZDIVITSupply` do it. -/
def told (w : ZerocoinWallet) : WalletNews → ZerocoinWallet
  | .unspent bnSerial => if w.IsMyZerocoinSpend bnSerial then w.SetMintUnspent bnSerial else w
  | .seen seed nHeight m =>
    if w.IsMyMint m.value then w.UpdateMint seed m.value nHeight m.txid m.denomination else w

theorem recordMints_eq_told (seed : MintSeed) (nHeight : Int) (w : ZerocoinWallet)
    (l : List BlockMint) :
    w.recordMints seed nHeight l = (l.map (WalletNews.seen seed nHeight)).foldl told w := by
  rw [foldl_map]
  rfl

/-! ## A spend -/

/-- The coin of a serial. -/
def coinOf (w : ZerocoinWallet) (bnSerial : Int) : Option Int :=
  (w.Get bnSerial).map CMintMeta.hashPubcoin

/-- The serial that a coin is tracked under. -/
def serialOf (w : ZerocoinWallet) (v : Int) : Option Int :=
  (w.GetMetaFromPubcoin v).map CMintMeta.hashSerial

/-- The spend of a serial is no longer pending. -/
def forget (w : ZerocoinWallet) : Option Int → ZerocoinWallet
  | none => w
  | some bnSerial =>
    { w with mapPendingSpends := Function.update w.mapPendingSpends bnSerial none }

theorem forget_touch (w : ZerocoinWallet) (o : Option Int) (v : Int) (e : MintEdit) :
    (w.forget o).touch v e = (w.touch v e).forget o := by
  cases o with
  | none => rfl
  | some bnSerial =>
    have hmeta : (w.forget (some bnSerial)).GetMetaFromPubcoin v = w.GetMetaFromPubcoin v := rfl
    rw [touch, touch, hmeta]
    cases w.GetMetaFromPubcoin v with
    | none => rfl
    | some mint =>
      dsimp only
      have hkept : (w.forget (some bnSerial)).recordsOf = w.recordsOf := rfl
      rw [UpdateState_eq, UpdateState_eq, hkept]
      cases nextRecords (e.edit mint) (w.recordsOf (e.edit mint).hashPubcoin) with
      | none => rfl
      | some r => rfl

theorem forget_forget (w : ZerocoinWallet) (o : Option Int) :
    (w.forget o).forget o = w.forget o := by
  cases o with
  | none => rfl
  | some bnSerial =>
    show { w with mapPendingSpends := Function.update (Function.update _ _ _) _ _ } = _
    rw [update_idem]
    rfl

theorem forget_comm (w : ZerocoinWallet) (o o' : Option Int) :
    (w.forget o).forget o' = (w.forget o').forget o := by
  cases o with
  | none => rfl
  | some a =>
    cases o' with
    | none => rfl
    | some b =>
      rcases eq_or_ne a b with rfl | hne
      · rfl
      · show { w with mapPendingSpends := Function.update (Function.update _ _ _) _ _ } = _
        rw [update_comm hne]
        rfl

theorem touch_found {β : Type} (w : ZerocoinWallet) (v : Int) (e : MintEdit) (p : CMintMeta → Bool)
    (hp : ∀ m, p (e.edit m) = p m) (f : CMintMeta → β) (hf : ∀ m, f (e.edit m) = f m) :
    ((w.touch v e).mapSerialHashes.entries.find? p).map f =
      (w.mapSerialHashes.entries.find? p).map f := by
  rcases touch_find w v e p hp with ⟨hsame, -⟩ | ⟨mint, hmint, hfind⟩
  · rw [hsame]
  · obtain ⟨hmem, -⟩ := GetMetaFromPubcoin_mem hmint
    rw [hfind]
    cases hm : w.mapSerialHashes.entries.find? p with
    | none => rfl
    | some m =>
      have hin : m ∈ w.mapSerialHashes.entries := mem_of_find?_eq_some hm
      refine congrArg some ?_
      rw [MintMap.replaced]
      split_ifs with h
      · rw [hf, MintMap.unique hin hmem (h.trans (e.serial mint))]
      · rfl

theorem coinOf_touch (w : ZerocoinWallet) (v : Int) (e : MintEdit) (bnSerial : Int) :
    (w.touch v e).coinOf bnSerial = w.coinOf bnSerial :=
  touch_found w v e (fun m => m.hashSerial == bnSerial) (fun m => by rw [e.serial])
    CMintMeta.hashPubcoin e.coin

theorem serialOf_touch (w : ZerocoinWallet) (v : Int) (e : MintEdit) (u : Int) :
    (w.touch v e).serialOf u = w.serialOf u :=
  touch_found w v e (fun m => m.hashPubcoin == u) (fun m => by rw [e.coin]) CMintMeta.hashSerial
    e.serial

theorem coinOf_forget (w : ZerocoinWallet) (o : Option Int) (bnSerial : Int) :
    (w.forget o).coinOf bnSerial = w.coinOf bnSerial := by
  cases o <;> rfl

theorem serialOf_forget (w : ZerocoinWallet) (o : Option Int) (v : Int) :
    (w.forget o).serialOf v = w.serialOf v := by
  cases o <;> rfl

/-- A coin is not spent, and none of its spends is pending. -/
def unuse (w : ZerocoinWallet) (v : Int) : ZerocoinWallet :=
  (w.forget (w.serialOf v)).touch v .unused

theorem SetPubcoinNotUsed_eq (w : ZerocoinWallet) (v : Int) :
    w.SetPubcoinNotUsed v = w.unuse v := by
  rw [SetPubcoinNotUsed, unuse, serialOf]
  cases h : w.GetMetaFromPubcoin v with
  | none => exact (touch_none h .unused).symm
  | some mint =>
    have hmeta : (w.forget ((some mint).map CMintMeta.hashSerial)).GetMetaFromPubcoin v =
      some mint := h
    rw [touch, hmeta]
    rfl

theorem SetMintUnspent_eq (w : ZerocoinWallet) (bnSerial : Int) :
    w.SetMintUnspent bnSerial = (w.coinOf bnSerial).elim w w.unuse := by
  rw [SetMintUnspent, coinOf]
  cases w.Get bnSerial with
  | none => rfl
  | some mint => exact SetPubcoinNotUsed_eq w mint.hashPubcoin

theorem told_unspent (w : ZerocoinWallet) (bnSerial : Int) :
    w.told (.unspent bnSerial) = w.SetMintUnspent bnSerial := by
  rw [told, IsMyZerocoinSpend, SetMintUnspent]
  cases w.Get bnSerial <;> rfl

theorem touch_swap (w : ZerocoinWallet) (v u : Int) {e e' : MintEdit}
    (h : e.andThen e' = e'.andThen e) :
    (w.touch v e).touch u e' = (w.touch u e').touch v e := by
  rcases eq_or_ne v u with rfl | hne
  · rw [touch_touch, touch_touch, h]
  · exact touch_comm w hne e e'

theorem unuse_touch (w : ZerocoinWallet) (v u : Int) {e : MintEdit}
    (h : MintEdit.andThen .unused e = e.andThen .unused) :
    (w.unuse v).touch u e = (w.touch u e).unuse v := by
  calc (w.unuse v).touch u e
      = ((w.forget (w.serialOf v)).touch u e).touch v .unused := touch_swap _ v u h
    _ = ((w.touch u e).forget (w.serialOf v)).touch v .unused := by rw [forget_touch]
    _ = (w.touch u e).unuse v := by rw [unuse, serialOf_touch]

theorem unuse_forget (w : ZerocoinWallet) (v : Int) (o : Option Int) :
    (w.forget o).unuse v = (w.unuse v).forget o := by
  rw [unuse, serialOf_forget, forget_comm, forget_touch, unuse]

theorem unuse_comm (w : ZerocoinWallet) (v u : Int) :
    (w.unuse v).unuse u = (w.unuse u).unuse v := by
  have hserial : ∀ u v, (w.unuse v).serialOf u = w.serialOf u := by
    intro u v
    rw [unuse, serialOf_touch, serialOf_forget]
  calc (w.unuse v).unuse u
      = ((w.unuse v).forget (w.serialOf u)).touch u .unused := by rw [unuse, hserial]
    _ = ((w.forget (w.serialOf u)).unuse v).touch u .unused := by rw [unuse_forget]
    _ = (w.unuse u).unuse v := unuse_touch _ v u rfl

theorem unuse_unuse (w : ZerocoinWallet) (v : Int) : (w.unuse v).unuse v = w.unuse v := by
  have hserial : (w.unuse v).serialOf v = w.serialOf v := by
    rw [unuse, serialOf_touch, serialOf_forget]
  calc (w.unuse v).unuse v
      = (((w.forget (w.serialOf v)).touch v .unused).forget (w.serialOf v)).touch v .unused := by
        rw [unuse, hserial, unuse]
    _ = (((w.forget (w.serialOf v)).forget (w.serialOf v)).touch v .unused).touch v .unused := by
        rw [← forget_touch (w.forget (w.serialOf v))]
    _ = (w.forget (w.serialOf v)).touch v .unused := by
        rw [forget_forget, touch_touch]
        rfl

/-- Told of what it tracks. -/
def tracked (w : ZerocoinWallet) : WalletNews → ZerocoinWallet
  | .unspent bnSerial => w.SetMintUnspent bnSerial
  | .seen _ nHeight m => w.touch m.value (.seen nHeight m.txid)

theorem coinOf_tracked (w : ZerocoinWallet) (n : WalletNews) (bnSerial : Int) :
    (w.tracked n).coinOf bnSerial = w.coinOf bnSerial := by
  cases n with
  | seen seed nHeight m => exact coinOf_touch w m.value _ bnSerial
  | unspent other =>
    show (w.SetMintUnspent other).coinOf bnSerial = _
    rw [SetMintUnspent_eq]
    cases w.coinOf other with
    | none => rfl
    | some v => exact (coinOf_touch _ v .unused bnSerial).trans (coinOf_forget w _ bnSerial)

theorem tracked_unspent_seen (w : ZerocoinWallet) (bnSerial : Int) (seed : MintSeed) (nHeight : Int)
    (m : BlockMint) : (w.tracked (.unspent bnSerial)).tracked (.seen seed nHeight m) =
      (w.tracked (.seen seed nHeight m)).tracked (.unspent bnSerial) := by
  have hcoin := coinOf_tracked w (.seen seed nHeight m) bnSerial
  show (w.SetMintUnspent bnSerial).touch m.value (.seen nHeight m.txid) =
    (w.tracked (.seen seed nHeight m)).SetMintUnspent bnSerial
  rw [SetMintUnspent_eq, SetMintUnspent_eq, hcoin]
  cases w.coinOf bnSerial with
  | none => rfl
  | some v => exact unuse_touch w v m.value rfl

theorem overwriting_tracked : Overwriting tracked WalletNews.key where
  again w a b h := by
    cases a with
    | unspent bnSerial =>
      cases b with
      | seen seed nHeight m => cases h
      | unspent other =>
        obtain rfl : bnSerial = other := Sum.inl.inj h
        have hcoin := coinOf_tracked w (.unspent bnSerial) bnSerial
        show (w.tracked (.unspent bnSerial)).SetMintUnspent bnSerial = w.SetMintUnspent bnSerial
        rw [SetMintUnspent_eq, hcoin]
        show (w.coinOf bnSerial).elim (w.SetMintUnspent bnSerial)
          (w.SetMintUnspent bnSerial).unuse = _
        rw [SetMintUnspent_eq]
        cases w.coinOf bnSerial with
        | none => rfl
        | some v => exact unuse_unuse w v
    | seen seed nHeight m =>
      cases b with
      | unspent bnSerial => cases h
      | seen seed' nHeight' m' =>
        have hcoin : m.value = m'.value := Sum.inr.inj h
        show (w.touch m.value _).touch m'.value _ = w.touch m'.value _
        rw [hcoin, touch_touch]
        rfl
  comm w a b h := by
    cases a with
    | unspent bnSerial =>
      cases b with
      | seen seed nHeight m => exact tracked_unspent_seen w bnSerial seed nHeight m
      | unspent other =>
        have hcoin := coinOf_tracked w (.unspent bnSerial) other
        have hcoin' := coinOf_tracked w (.unspent other) bnSerial
        show (w.tracked (.unspent bnSerial)).SetMintUnspent other =
          (w.tracked (.unspent other)).SetMintUnspent bnSerial
        rw [SetMintUnspent_eq, SetMintUnspent_eq, hcoin, hcoin']
        show (w.coinOf other).elim (w.SetMintUnspent bnSerial)
          (w.SetMintUnspent bnSerial).unuse =
          (w.coinOf bnSerial).elim (w.SetMintUnspent other) (w.SetMintUnspent other).unuse
        rw [SetMintUnspent_eq, SetMintUnspent_eq]
        cases w.coinOf bnSerial with
        | none => rfl
        | some v =>
          cases w.coinOf other with
          | none => rfl
          | some u => exact unuse_comm w v u
    | seen seed nHeight m =>
      cases b with
      | unspent bnSerial => exact (tracked_unspent_seen w bnSerial seed nHeight m).symm
      | seen seed' nHeight' m' =>
        have hcoin : m.value ≠ m'.value := fun heq => h (congrArg Sum.inr heq)
        exact touch_comm w hcoin _ _

/-! ## What is there already -/

/-- The tracked mint has this height and transaction, and so has its record, if there is one
to write to. -/
def Recorded (nHeight : Int) (w : ZerocoinWallet) (m : BlockMint) : Prop :=
  ∀ mint, w.GetMetaFromPubcoin m.value = some mint →
    nextRecords mint (w.recordsOf m.value) = none ∨
      mint.nHeight = nHeight ∧ mint.txid = m.txid ∧
        nextRecords mint (w.recordsOf m.value) = some (w.recordsOf m.value)

/-- The coin of the serial is not marked as spent, and no spend of it is pending. -/
def Unmarked (w : ZerocoinWallet) (bnSerial : Int) : Prop :=
  ∀ v, w.coinOf bnSerial = some v → ∀ mint, w.GetMetaFromPubcoin v = some mint →
    w.mapPendingSpends mint.hashSerial = none ∧
      (nextRecords mint (w.recordsOf v) = none ∨
        mint.isUsed = false ∧ nextRecords mint (w.recordsOf v) = some (w.recordsOf v))

theorem touch_seen_eq_self_iff (nHeight : Int) (w : ZerocoinWallet) (m : BlockMint) :
    w.touch m.value (.seen nHeight m.txid) = w ↔ Recorded nHeight w m := by
  have hseen : ∀ mint : CMintMeta, (MintEdit.seen nHeight m.txid).edit mint = mint ↔
      mint.nHeight = nHeight ∧ mint.txid = m.txid := by
    intro mint
    constructor
    · intro heq
      rw [← heq]
      exact ⟨rfl, rfl⟩
    · rintro ⟨rfl, htxid⟩
      show { mint with nHeight := mint.nHeight, txid := m.txid } = mint
      rw [← htxid]
  refine (touch_eq_self_iff (.seen nHeight m.txid) w m.value).trans ?_
  refine forall₂_congr fun mint _ => or_congr_right ?_
  rw [hseen, and_assoc]

theorem touch_unused_eq_self_iff (w : ZerocoinWallet) (v : Int) : w.touch v .unused = w ↔
    ∀ mint, w.GetMetaFromPubcoin v = some mint → nextRecords mint (w.recordsOf v) = none ∨
      mint.isUsed = false ∧ nextRecords mint (w.recordsOf v) = some (w.recordsOf v) := by
  have hunused : ∀ mint : CMintMeta, MintEdit.unused.edit mint = mint ↔ mint.isUsed = false := by
    intro mint
    constructor
    · intro heq
      rw [← heq]
      rfl
    · intro h
      show { mint with isUsed := false } = mint
      rw [← h]
  refine (touch_eq_self_iff .unused w v).trans ?_
  refine forall₂_congr fun mint _ => or_congr_right ?_
  rw [hunused]

theorem forget_eq_self_iff (w : ZerocoinWallet) (bnSerial : Int) :
    w.forget (some bnSerial) = w ↔ w.mapPendingSpends bnSerial = none := by
  constructor
  · intro heq
    rw [← heq]
    exact update_self _ _ _
  · intro h
    show { w with mapPendingSpends := _ } = w
    rw [← h, update_eq_self]

theorem unuse_eq_self_iff (w : ZerocoinWallet) (v : Int) : w.unuse v = w ↔
    ∀ mint, w.GetMetaFromPubcoin v = some mint → w.mapPendingSpends mint.hashSerial = none ∧
      (nextRecords mint (w.recordsOf v) = none ∨
        mint.isUsed = false ∧ nextRecords mint (w.recordsOf v) = some (w.recordsOf v)) := by
  have htouch := touch_unused_eq_self_iff w v
  rw [unuse, serialOf]
  cases hmint : w.GetMetaFromPubcoin v with
  | none =>
    exact ⟨nofun, fun _ => touch_none hmint .unused⟩
  | some mint =>
    rw [hmint] at htouch
    rw [Option.map_some, forget_touch]
    constructor
    · rintro heq mint' ⟨⟩
      -- the pending spends are those the edit leaves
      have hpending : w.mapPendingSpends mint.hashSerial = none := by
        rw [← heq]
        exact update_self _ _ _
      refine ⟨hpending, ?_⟩
      rw [← forget_touch, (forget_eq_self_iff w mint.hashSerial).mpr hpending] at heq
      exact htouch.mp heq mint rfl
    · intro hall
      rw [htouch.mpr fun mint' h => (hall mint' h).2]
      exact (forget_eq_self_iff w mint.hashSerial).mpr (hall mint rfl).1

/-- What is told is there already. -/
def Known (w : ZerocoinWallet) : WalletNews → Prop
  | .unspent bnSerial => Unmarked w bnSerial
  | .seen _ nHeight m => Recorded nHeight w m

theorem tracked_eq_self_iff (w : ZerocoinWallet) (n : WalletNews) :
    w.tracked n = w ↔ w.Known n := by
  cases n with
  | seen seed nHeight m => exact touch_seen_eq_self_iff nHeight w m
  | unspent bnSerial =>
    show w.SetMintUnspent bnSerial = w ↔ Unmarked w bnSerial
    rw [SetMintUnspent_eq, Unmarked]
    cases hcoin : w.coinOf bnSerial with
    | none => exact ⟨nofun, fun _ => rfl⟩
    | some v =>
      refine (unuse_eq_self_iff w v).trans ⟨?_, fun h => h v rfl⟩
      rintro h v' ⟨⟩
      exact h

/-! ## The pool -/

/-- The mint is one of the pool, and `SetMintSeen` generates it. -/
def FromPool (seed : MintSeed) (w : ZerocoinWallet) (m : BlockMint) : Prop :=
  w.GetMetaFromPubcoin m.value = none ∧
    ∃ p, w.mintPool.find? (fun p => p.1 == m.value) = some p ∧ (seed.SeedToZPIV p.2).1 = m.value

/-- The wallet is told of a mint from its pool. -/
def Generates (w : ZerocoinWallet) : WalletNews → Prop
  | .unspent _ => False
  | .seen seed _ m => FromPool seed w m

theorem told_eq_tracked {n : WalletNews} (h : ¬ w.Generates n) : w.told n = w.tracked n := by
  cases n with
  | unspent bnSerial => exact told_unspent w bnSerial
  | seen seed nHeight m =>
    rw [told, IsMyMint, tracked, touch, UpdateMint]
    cases hmeta : w.GetMetaFromPubcoin m.value with
    | some mint => rfl
    | none =>
      cases hpool : w.mintPool.find? fun p => p.1 == m.value with
      | none =>
        split_ifs <;> rfl
      | some p =>
        have hother : (seed.SeedToZPIV p.2).1 ≠ m.value := fun heq => h ⟨hmeta, p, hpool, heq⟩
        dsimp only
        rw [SetMintSeen]
        rw [if_pos hother]
        split_ifs <;> rfl

theorem told_pool_lt {n : WalletNews} (h : w.Generates n) :
    (w.told n).mintPool.length < w.mintPool.length := by
  cases n with
  | unspent bnSerial => exact h.elim
  | seen seed nHeight m =>
    obtain ⟨hmeta, p, hpool, heq⟩ := h
    have hin : p ∈ w.mintPool := mem_of_find?_eq_some hpool
    have hp : (p.1 == m.value) = true :=
      List.find?_some (p := fun p : Int × Nat => p.1 == m.value) hpool
    have hmine : w.IsMyMint m.value = true := by
      rw [IsMyMint, hmeta]
      exact any_eq_true.mpr ⟨p, hin, hp⟩
    rw [told, if_pos hmine, UpdateMint, hmeta, hpool]
    dsimp only
    rw [SetMintSeen]
    rw [if_neg (not_not.mpr heq)]
    refine lt_of_le_of_ne (length_filter_le _ _) ?_
    intro hall
    have hkept := length_filter_eq_length_iff.mp hall p hin
    rw [bne, hp] at hkept
    cases hkept

theorem tracked_pool (w : ZerocoinWallet) (n : WalletNews) : (w.tracked n).mintPool = w.mintPool ∧
    ∀ u, (w.tracked n).GetMetaFromPubcoin u = none ↔ w.GetMetaFromPubcoin u = none := by
  have hforget : ∀ o, (w.forget o).mintPool = w.mintPool ∧
      ∀ u, (w.forget o).GetMetaFromPubcoin u = w.GetMetaFromPubcoin u := by
    intro o
    cases o <;> exact ⟨rfl, fun _ => rfl⟩
  cases n with
  | seen seed nHeight m => exact touch_pool w m.value _
  | unspent bnSerial =>
    show (w.SetMintUnspent bnSerial).mintPool = _ ∧ ∀ u,
      (w.SetMintUnspent bnSerial).GetMetaFromPubcoin
      u = none ↔ _
    rw [SetMintUnspent_eq]
    cases w.coinOf bnSerial with
    | none => exact ⟨rfl, fun _ => Iff.rfl⟩
    | some v =>
      obtain ⟨hpool, hmeta⟩ := touch_pool (w.forget (w.serialOf v)) v .unused
      obtain ⟨hpool', hmeta'⟩ := hforget (w.serialOf v)
      refine ⟨hpool.trans hpool', fun u => ?_⟩
      rw [← hmeta']
      exact hmeta u

theorem generates_tracked (w : ZerocoinWallet) (n n' : WalletNews) :
    (w.tracked n).Generates n' ↔ w.Generates n' := by
  cases n' with
  | unspent bnSerial => exact Iff.rfl
  | seen seed nHeight m =>
    obtain ⟨hpool, hmeta⟩ := tracked_pool w n
    show FromPool seed (w.tracked n) m ↔ FromPool seed w m
    rw [FromPool, FromPool, hpool, hmeta]

theorem foldl_told_eq_tracked {l : List WalletNews} (h : ∀ n ∈ l, ¬ w.Generates n) :
    l.foldl told w = l.foldl tracked w := by
  induction l generalizing w with
  | nil => rfl
  | cons a l ih =>
    show l.foldl told (w.told a) = l.foldl tracked (w.tracked a)
    rw [told_eq_tracked (h a mem_cons_self)]
    refine ih fun n hn => ?_
    rw [generates_tracked]
    exact h n (mem_cons_of_mem a hn)

theorem foldl_told_pool {l : List WalletNews} : ∀ {w : ZerocoinWallet},
    (l.foldl told w).mintPool.length ≤ w.mintPool.length ∧
      ((∃ n ∈ l, w.Generates n) → (l.foldl told w).mintPool.length < w.mintPool.length) := by
  induction l with
  | nil => exact ⟨le_refl _, fun ⟨n, hn, _⟩ => nomatch hn⟩
  | cons a l ih =>
    intro w
    obtain ⟨hle, hlt⟩ := @ih (w.told a)
    rcases Classical.em (w.Generates a) with hfirst | hfirst
    · have hshort := told_pool_lt hfirst
      exact ⟨hle.trans hshort.le, fun _ => hle.trans_lt hshort⟩
    · have hpool : (w.told a).mintPool = w.mintPool := by
        rw [told_eq_tracked hfirst]
        exact (tracked_pool w a).1
      rw [hpool] at hle hlt
      refine ⟨hle, ?_⟩
      rintro ⟨n, hn, hfrom⟩
      refine hlt ⟨n, ?_, ?_⟩
      · rcases mem_cons.mp hn with rfl | hn
        · exact absurd hfrom hfirst
        · exact hn
      · rw [told_eq_tracked hfirst, generates_tracked]
        exact hfrom

/-- **The wallet is told nothing new exactly when nothing comes from the pool, and the last
word on each serial and coin is what is there.** -/
theorem told_eq_self_iff (w : ZerocoinWallet) (l : List WalletNews) : l.foldl told w = w ↔
    (∀ n ∈ l, ¬ w.Generates n) ∧ ∀ n ∈ lasts WalletNews.key l, w.Known n := by
  have hlasts : l.foldl tracked w = w ↔ ∀ n ∈ lasts WalletNews.key l, w.Known n := by
    rw [overwriting_tracked.foldl_eq_self_iff]
    exact forall₂_congr fun n _ => tracked_eq_self_iff w n
  constructor
  · intro hsame
    have hnone : ∀ n ∈ l, ¬ w.Generates n := by
      intro n hn hfrom
      have hlt := foldl_told_pool.2 ⟨n, hn, hfrom⟩
      rw [hsame] at hlt
      exact lt_irrefl _ hlt
    rw [foldl_told_eq_tracked hnone] at hsame
    exact ⟨hnone, hlasts.mp hsame⟩
  · rintro ⟨hnone, hknown⟩
    rw [foldl_told_eq_tracked hnone]
    exact hlasts.mpr hknown

theorem recordMints_eq_self_iff (seed : MintSeed) (nHeight : Int) (w : ZerocoinWallet)
    (l : List BlockMint) : w.recordMints seed nHeight l = w ↔
      (∀ m ∈ l, ¬ FromPool seed w m) ∧ ∀ m ∈ lasts BlockMint.value l, Recorded nHeight w m := by
  have hkeys : lasts WalletNews.key (l.map (WalletNews.seen seed nHeight)) =
      (lasts BlockMint.value l).map (WalletNews.seen seed nHeight) :=
    lasts_map Sum.inr_injective (fun m : BlockMint =>
      (rfl : (WalletNews.seen seed nHeight m).key = Sum.inr m.value)) l
  rw [recordMints_eq_told, told_eq_self_iff, hkeys, forall_mem_map, forall_mem_map]
  exact Iff.rfl

end ZerocoinWallet

end Divitae
