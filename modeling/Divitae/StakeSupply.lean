/-
# `StakeSupply` — no stake block creates more than its reward, up to one overflow

The mint figure is the wrap of `unbacked - given`, and `given` takes nothing from the
bound: as long as `unbacked` fits the register, `created ≤ unbacked - given`.  From
the zerocoin start time on it does fit, because a zerocoin spend other than the coin
stake then pays at most what it redeems.  Before that nothing compares the two, and
923 spends of 10^8 coins each take the figure past 2^63 and back below zero.
-/
import Divitae.Supply

namespace Divitae

open Wrap List

theorem created_le_of_fits {u f g limit : Int} (hlimit : 0 ≤ limit) (hg : 0 ≤ g)
    (hgf : f < 2 ^ 63 → g ≤ f) (hu : u < 2 ^ 63) (hcheck : wrap64 (u - g) ≤ limit) :
    u - f ≤ limit := by
  rcases Int.lt_or_le f (2 ^ 63) with hf | hf
  · have hle := hgf hf
    rcases Int.lt_or_le (u - g) (-2 ^ 63) with hlow | hlow
    · omega
    · rw [wrap64_of_fits ⟨hlow, by omega⟩] at hcheck
      omega
  · omega

/-! ## Zerocoin after its start -/

theorem toAmount_nonneg (d : CoinDenomination) : (0 : Int) ≤ d.toAmount := by
  cases d <;> decide

theorem spentAmount_nonneg (Z : Zerocoin) (txin : CTxIn) : 0 ≤ spentAmount Z txin := by
  unfold spentAmount
  split
  · exact Int.le_refl 0
  · exact toAmount_nonneg _

theorem redeemed_nonneg (Z : Zerocoin) (vin : List CTxIn) :
    0 ≤ ((vin.filter fun txin => txin.scriptSig.IsZerocoinSpend).map (spentAmount Z)).sum := by
  refine sum_nonneg fun v hv => ?_
  obtain ⟨txin, _, rfl⟩ := mem_map.mp hv
  exact spentAmount_nonneg Z txin

section
variable {N : CConnectNode} {block : CBlock} {pindex pprev pindex' : CBlockIndex}
  {view : CCoinsView} {fJustCheck fAlreadyChecked : Bool} {st : ConnectState}

theorem gain_le (hrun : ConnectRun N pindex.nHeight true block.vtx (.start view) st) {act : Bool}
    {s : TxStep} (hs : s ∈ blockSteps block pindex view)
    (hchecked : CheckedTransaction N.toCNode act s.1) :
    gain N.Z s ≤ N.P.nMaxMoneyOut := by
  have hout : s.1.GetValueOut ≤ N.P.nMaxMoneyOut := by
    have := hchecked.valueOut
    simp only [MoneyRange, Bool.and_eq_true, decide_eq_true_eq] at this
    exact this.2
  have hin : 0 ≤ exactIn N.Z s.2 s.1 := by
    cases hspend : s.1.IsZerocoinSpend
    · cases hbase : s.1.IsCoinBase
      · have htakes : takesCoins s.1 = true := by
          unfold takesCoins
          rw [hspend, hbase]
          rfl
        have hrange := (hrun.inputs s hs htakes).2
        simp only [MoneyRange, Bool.and_eq_true, decide_eq_true_eq] at hrange
        exact hrange.1
      · unfold exactIn
        rw [hspend, hbase]
        exact Int.le_refl 0
    · unfold exactIn
      rw [hspend]
      exact redeemed_nonneg N.Z s.1.vin
  exact Int.le_trans (Int.sub_le_self _ hin) hout

section
variable (hb : OrdinaryStakeBlock N block fAlreadyChecked)
  (h : OnlyValueLeft N block pindex pprev view fJustCheck fAlreadyChecked pindex' st)
include hb h

theorem checked_of_step {s : TxStep} (hs : s ∈ blockSteps block pindex view) :
    CheckedTransaction N.toCNode (decide (N.P.nZerocoinStartTime < block.nTime)) s.1 := by
  refine (h.stakeBlock hb).checked s.1 ?_
  have hfst : (blockSteps block pindex view).map Prod.fst = block.vtx := (h.sums hb).run.steps_fst
  rw [← hfst]
  exact mem_map_of_mem hs

theorem zerocoinFees_nonneg (hactive : N.P.nZerocoinStartTime < block.nTime) :
    0 ≤ zerocoinFees N.Z (blockSteps block pindex view) := by
  refine sum_nonneg fun v hv => ?_
  obtain ⟨s, hs, rfl⟩ := mem_map.mp hv
  obtain ⟨hmem, hkind⟩ := mem_filter.mp hs
  obtain ⟨hspend, hstake⟩ := (Bool.and_eq_true _ _).mp hkind
  have hredeemed := (checked_of_step hb h hmem).redeemed (decide_eq_true hactive) hspend
    (by simpa using hstake)
  refine Int.neg_nonneg_of_nonpos ?_
  unfold gain exactIn
  rw [hspend]
  exact Int.sub_nonpos_of_le hredeemed

theorem stakeGain_le :
    stakeGain N.Z (blockSteps block pindex view) ≤ N.P.nMaxMoneyOut := by
  rcases hsteps : blockSteps block pindex view with _ | ⟨s₀, _ | ⟨s₁, steps⟩⟩
  · exact hb.network.max_nonneg
  · exact hb.network.max_nonneg
  · have hmem : s₁ ∈ blockSteps block pindex view := by
      rw [hsteps]
      exact mem_cons_of_mem _ mem_cons_self
    exact gain_le (h.sums hb).run hmem (checked_of_step hb h hmem)

theorem unbacked_fits (hactive : N.P.nZerocoinStartTime < block.nTime) :
    unbacked N.Z (blockSteps block pindex view) < 2 ^ 63 := by
  have hzero := zerocoinFees_nonneg hb h hactive
  have hstake : stakeGain N.Z (blockSteps block pindex view) ≤ N.P.nMaxMoneyOut := stakeGain_le hb h
  have hsum := unbacked_eq (h.stakeBlock hb) (h.sums hb).run
  have hmax := hb.network.max_fits
  have hmax0 := hb.network.max_nonneg
  have : ∀ u g z m : Int, u = g - z → 0 ≤ z → g ≤ m → 0 ≤ m → 2 * m < 2 ^ 63 → u < 2 ^ 63 := by
    intro u g z m _ _ _ _ _
    omega
  exact this _ _ _ _ hsum hzero hstake hmax0 hmax

end

end

/-! ### A stake of one coin -/

/-- The spend of serial `i`. -/
def richSpend (i : Nat) : CTransaction :=
  ⟨BitVec.ofNat 256 (1000 + i), 1,
    [⟨.SetNull, [OP_ZEROCOINSPEND, UInt8.ofNat (i % 256), UInt8.ofNat (i / 256)], 1⟩],
    [⟨100000000 * COIN, [1]⟩], 0⟩

def richSpends : Nat → List CTransaction
  | 0 => []
  | n + 1 => richSpend n :: richSpends n

theorem richSpend_gain (i : Nat) (view : CCoinsView) :
    gain quietZerocoin (richSpend i, view) = 99999999 * COIN := rfl

theorem CheckTransaction_richSpend (i : Nat) :
    CheckTransaction (quietNode 999).toCNode (richSpend i) false = .ok () := by
  rfl

theorem richSpend_serial {i : Nat} (hi : i < 65536) :
    ((UInt8.ofNat (i % 256)).toNat : Int) + 256 * (UInt8.ofNat (i / 256)).toNat = i := by
  rw [UInt8.toNat_ofNat', UInt8.toNat_ofNat']
  omega

variable {n : Nat}

theorem checkTransactions_richSpends (hn : n ≤ 1000) {seen : List Int}
    (hseen : ∀ s ∈ seen, (n : Int) ≤ s) :
    checkTransactions (quietNode 999).toCNode false (richSpends n) seen = .ok () := by
  induction n generalizing seen with
  | zero => rfl
  | succ n ih =>
    have hfresh : seen.contains (n : Int) = false := by
      rw [contains_eq_any_beq, any_eq_false]
      intro s hs heq
      have hle := hseen s hs
      have : (n : Int) = s := by simpa using heq
      omega
    have hserials : blockSerials (quietNode 999).toCNode (richSpend n).vin seen =
        .ok ((n : Int) :: seen) := by
      show rejectIf (seen.contains (((UInt8.ofNat (n % 256)).toNat : Int) +
        256 * (UInt8.ofNat (n / 256)).toNat)) _ (.ok (_ :: seen)) = _
      rw [richSpend_serial (by omega), hfresh]
      rfl
    have hrest : ∀ s ∈ (n : Int) :: seen, (n : Int) ≤ s := by
      intro s hs
      rcases mem_cons.mp hs with rfl | hs
      · exact Int.le_refl _
      · exact Int.le_trans (by omega) (hseen s hs)
    show ((CheckTransaction _ (richSpend n) false) >>= fun _ =>
      (blockSerials (quietNode 999).toCNode (richSpend n).vin seen >>= fun seen =>
        checkTransactions (quietNode 999).toCNode false (richSpends n) seen)) = _
    rw [CheckTransaction_richSpend, hserials]
    exact ih (by omega) hrest

theorem connectTxs_richSpends (nValue : CAmount) (rest : List CTransaction) :
    ∀ {n : Nat} {st : ConnectState}, st.nSigOps + n ≤ MAX_BLOCK_SIGOPS_CURRENT →
    ∃ st', connectTxs (quietNode 999) (quietBlock nValue rest) (quietIndex 999) false
      (richSpends n) st = .ok st'
  | 0, st, _ => ⟨st, rfl⟩
  | n + 1, st, hops => by
    have hone : (decide (MAX_BLOCK_SIGOPS_CURRENT < st.nSigOps + 1)) = false :=
      decide_eq_false (by omega)
    have hstep : ∃ mid, connectTx (quietNode 999) (quietBlock nValue rest) (quietIndex 999) false
        (richSpend n) st = .ok mid ∧ mid.nSigOps = st.nSigOps + 1 := by
      refine ⟨_, rejectIf_eq_ok.mpr ⟨hone, rfl⟩, rfl⟩
    obtain ⟨mid, hmid, hnext⟩ := hstep
    have hroom : mid.nSigOps + n ≤ MAX_BLOCK_SIGOPS_CURRENT := by omega
    obtain ⟨st', hst'⟩ := connectTxs_richSpends nValue rest hroom
    exact ⟨st', bind_eq_ok.mpr ⟨mid, hmid, hst'⟩⟩

theorem mem_richSpends {tx : CTransaction} (h : tx ∈ richSpends n) :
    ∃ i < n, tx = richSpend i := by
  induction n with
  | zero => cases h
  | succ n ih =>
    rcases mem_cons.mp h with rfl | h
    · exact ⟨n, Nat.lt_succ_self n, rfl⟩
    · obtain ⟨i, hi, heq⟩ := ih h
      exact ⟨i, Nat.lt_succ_of_lt hi, heq⟩

theorem any_richSpends {p : CTransaction → Bool} (h : ∀ i < n, p (richSpend i) = false) :
    (richSpends n).any p = false := by
  refine any_eq_false.mpr fun tx htx => ?_
  obtain ⟨i, hi, rfl⟩ := mem_richSpends htx
  exact Bool.not_eq_true _ ▸ h i hi

theorem sum_richSpends {f : CTransaction → Nat} {k : Nat} (h : ∀ i, f (richSpend i) = k) (n : Nat) :
    ((richSpends n).map f).sum = n * k := by
  induction n with
  | zero => exact (Nat.zero_mul k).symm
  | succ n ih =>
    show f (richSpend n) + ((richSpends n).map f).sum = _
    rw [ih, h, Nat.succ_mul, Nat.add_comm]

theorem length_richSpends (n : Nat) : (richSpends n).length = n := by
  induction n with
  | zero => rfl
  | succ n ih => exact congrArg (· + 1) ih

/-- A stake that gains nothing, and `n` spends behind it. -/
def richBlock (n : Nat) : CBlock := quietBlock COIN (richSpends n)

theorem richBlock_size (hn : n ≤ 1000) :
    (richBlock n).GetSerializeSize ≤ MAX_BLOCK_SIZE_CURRENT := by
  have hrest : ((richSpends n).map fun tx => tx.ser.length).sum = n * 64 :=
    sum_richSpends (fun i => rfl) n
  have hprefix : (WriteCompactSize ((richSpends n).length + 2)).length ≤ 9 := by
    unfold WriteCompactSize
    split_ifs <;> simp
  have hcoinBase : emptyCoinBase.ser.length = 62 := rfl
  have hcoinStake : (quietStake COIN).ser.length = 69 := rfl
  have htotal : (richBlock n).GetSerializeSize = 112 +
      (WriteCompactSize ((richSpends n).length + 2)).length + (emptyCoinBase.ser.length +
        ((quietStake COIN).ser.length +
          ((richSpends n).map fun tx => tx.ser.length).sum)) + 1 := rfl
  unfold MAX_BLOCK_SIZE_CURRENT
  omega

theorem CheckBlock_richBlock (hn : n ≤ 1000) :
    CheckBlock (quietNode 999).toCNode (richBlock n) true true = .ok () := by
  have hsigops : ((richBlock n).vtx.map (quietNode 999).GetLegacySigOpCount).sum = 1 +
    (1 + n * 1) :=
    congrArg (fun k => 1 + (1 + k)) (sum_richSpends (fun _ => rfl) n)
  have hlength : (richBlock n).vtx.length = n + 2 := congrArg (· + 2) (length_richSpends n)
  have hbase : (richBlock n).vtx.tail.any CTransaction.IsCoinBase = false :=
    any_richSpends fun _ _ => rfl
  have hstake : ((richBlock n).vtx.drop 2).any CTransaction.IsCoinStake = false :=
    any_richSpends fun _ _ => rfl
  have hlocks : ((richBlock n).vtx.any fun tx => !tx.IsCoinBase &&
      tx.vin.any fun txin =>
        ((quietNode 999).mapLockedInputs txin.prevout).any (· != tx.hash)) = false :=
    any_richSpends fun _ _ => rfl
  have htxs : checkTransactions (quietNode 999).toCNode false (richBlock n).vtx [] = .ok () :=
    checkTransactions_richSpends hn nofun
  simp only [CheckBlock, bind_eq_ok, rejectIf_eq_ok]
  refine ⟨(), rfl, rfl, rfl, ?_, rfl, hbase, rfl, ?_, ?_, rfl, (), htxs, ?_, trivial⟩
  · rw [hlength, decide_eq_false (Nat.not_lt.mpr (richBlock_size hn)), decide_eq_false]
    · rfl
    · unfold MAX_BLOCK_SIZE_CURRENT
      omega
  · rw [hstake]
    rfl
  · rw [hlocks, Bool.and_false]
  · rw [hsigops]
    refine decide_eq_false ?_
    show ¬ 20000 < _
    omega

theorem spendSupply_replicate (n : Nat) (supply : CoinDenomination → Int) (h : n ≤ supply .ZQ_ONE) :
    ∃ supply', spendSupply (List.replicate n .ZQ_ONE) supply = .ok supply' := by
  induction n generalizing supply with
  | zero => exact ⟨supply, rfl⟩
  | succ n ih =>
    have hleft : Function.update supply .ZQ_ONE (supply .ZQ_ONE - 1) .ZQ_ONE =
        supply .ZQ_ONE - 1 := Function.update_self ..
    push_cast at h
    obtain ⟨supply', hs⟩ := ih (Function.update supply .ZQ_ONE (supply .ZQ_ONE - 1))
      (by rw [hleft]; omega)
    refine ⟨supply', rejectIf_eq_ok.mpr ⟨rfl, rejectIf_eq_ok.mpr ⟨?_, hs⟩⟩⟩
    exact decide_eq_false (by omega)

theorem UpdateZDIVITSupply_richBlock (hn : n ≤ 1000) :
    ∃ pindex', UpdateZDIVITSupply (quietNode 999) (richBlock n) (quietIndex 999) (quietTip 999) =
      .ok pindex' := by
  have hmints : BlockToZerocoinMintList (quietNode 999) false (richBlock n).vtx = [] := by
    induction n with
    | zero => rfl
    | succ n ih => exact ih (by omega)
  have hspends : ZerocoinSpendListFromBlock (quietNode 999) false (richBlock n).vtx =
      List.replicate n .ZQ_ONE := by
    clear hmints
    induction n with
    | zero => rfl
    | succ n ih => exact congrArg (CoinDenomination.ZQ_ONE :: ·) (ih (by omega))
  obtain ⟨supply', hs⟩ := spendSupply_replicate n (fun _ => 1000) (by omega)
  refine ⟨_, bind_eq_ok.mpr ⟨supply', ?_, rfl⟩⟩
  show spendSupply (ZerocoinSpendListFromBlock (quietNode 999) false (richBlock n).vtx)
    ((BlockToZerocoinMintList (quietNode 999) false (richBlock n).vtx).foldl _ _) = _
  rw [hspends, hmints]
  exact hs

theorem connectTotals_richBlock (hn : n ≤ 1000) :
    ∃ pindex' st, connectTotals (quietNode 999) (richBlock n) (quietIndex 999) (quietTip 999)
      oneCoin = .ok (pindex', st) := by
  have hbip : ((richBlock n).vtx.any fun tx => !(oneCoin.coins tx.hash).IsPruned) = false := by
    refine any_richSpends fun i hi => ?_
    have hne : (richSpend i).hash ≠ 7 := by
      intro heq
      have := congrArg BitVec.toNat heq
      rw [show (richSpend i).hash = BitVec.ofNat 256 (1000 + i) from rfl, BitVec.toNat_ofNat,
        Nat.mod_eq_of_lt (by omega)] at this
      exact absurd this (by show ¬ 1000 + i = 7; omega)
    show (!(if (richSpend i).hash = 7 then _ else CCoins.null).IsPruned) = false
    rw [if_neg hne]
    rfl
  obtain ⟨pindex', hsupply⟩ := UpdateZDIVITSupply_richBlock hn
  have hloop : ∃ st, connectTxs (quietNode 999) (richBlock n) (quietIndex 999) true
      (richBlock n).vtx (.start oneCoin) = .ok st := by
    have htwo : ∃ mid, connectTx (quietNode 999) (richBlock n) (quietIndex 999) true emptyCoinBase
        (.start oneCoin) >>= connectTx (quietNode 999) (richBlock n) (quietIndex 999) false
          (quietStake COIN) = .ok mid ∧ mid.nSigOps = 2 := ⟨_, rfl, rfl⟩
    obtain ⟨mid, hmid, hops⟩ := htwo
    obtain ⟨fst, hfst, hsnd⟩ := bind_eq_ok.mp hmid
    have hroom : mid.nSigOps + n ≤ MAX_BLOCK_SIGOPS_CURRENT := by
      show _ ≤ 40000
      omega
    obtain ⟨st, hst⟩ := connectTxs_richSpends COIN (richSpends n) hroom
    exact ⟨st, bind_eq_ok.mpr ⟨fst, hfst, bind_eq_ok.mpr ⟨mid, hsnd, hst⟩⟩⟩
  obtain ⟨st, hst⟩ := hloop
  exact ⟨_, st, rejectIf_eq_ok.mpr ⟨rfl, rejectIf_eq_ok.mpr ⟨rfl, rejectIf_eq_ok.mpr ⟨hbip,
    bind_eq_ok.mpr ⟨st, hst, bind_eq_ok.mpr ⟨pindex', hsupply, rfl⟩⟩⟩⟩⟩⟩

theorem created_richSteps (n : Nat) (view : CCoinsView) :
    created quietZerocoin (txSteps 1000 (richSpends n) view) = n * (99999999 * COIN) := by
  induction n generalizing view with
  | zero => rfl
  | succ n ih =>
    show gain quietZerocoin (richSpend n, view) +
      created quietZerocoin (txSteps 1000 (richSpends n) _) = _
    rw [ih, richSpend_gain]
    push_cast
    ring

theorem fees_richSteps (n : Nat) (view : CCoinsView) :
    fees quietZerocoin (txSteps 1000 (richSpends n) view) = [] := by
  induction n generalizing view with
  | zero => rfl
  | succ n ih => exact ih _

theorem blockSteps_richBlock (n : Nat) : ∃ mid view,
    blockSteps (richBlock n) (quietIndex 999) oneCoin =
      (emptyCoinBase, oneCoin) :: (quietStake COIN, mid) :: txSteps 1000 (richSpends n) view ∧
    gain quietZerocoin (quietStake COIN, mid) = 0 := ⟨_, _, rfl, rfl⟩

theorem created_richBlock (n : Nat) :
    created quietZerocoin (blockSteps (richBlock n) (quietIndex 999) oneCoin) =
      n * (99999999 * COIN) := by
  obtain ⟨mid, view, hsteps, hstake⟩ := blockSteps_richBlock n
  rw [hsteps]
  show 0 + (gain quietZerocoin (quietStake COIN, mid) +
    created quietZerocoin (txSteps 1000 (richSpends n) view)) = _
  rw [hstake, created_richSteps, Int.zero_add, Int.zero_add]

theorem fees_richBlock (n : Nat) :
    fees quietZerocoin (blockSteps (richBlock n) (quietIndex 999) oneCoin) = [] := by
  obtain ⟨mid, view, hsteps, _⟩ := blockSteps_richBlock n
  rw [hsteps]
  exact fees_richSteps n view

end Divitae
