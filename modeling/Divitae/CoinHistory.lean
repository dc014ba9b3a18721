/-
# `CoinHistory` — one coin through a block and back

A block changes the coins one at a time, so what it does to the coin of one transaction
id is a list of events: outputs spent, and now and then the coin made anew by a
transaction of that id.  Taking the events back, last to first, gives for a coin that
had outputs before the block one of three results:

    spent to the last output       all of it back but the coinstake flag and the sign
                                   of the version
    made anew while it had some    nothing
    anything else                  the coin as it was

Only the events up to the first that makes the coin anew matter, because taking that
one back clears the coin.
-/
import Divitae.DisconnectBlock

namespace Divitae

open Slots List

inductive CoinEvent where
  | spend (n : Nat) (undo : CTxInUndo)
  | create (tx : CTransaction)

/-- The events lead from the first coin to the second; the records of the spends are
those that come back from the undo file. -/
inductive Leads (nHeight : Int) : CCoins → List CoinEvent → CCoins → Prop
  | nil {c : CCoins} : Leads nHeight c [] c
  | spend {c left c' : CCoins} {n : Nat} {undo : CTxInUndo} {es : List CoinEvent} :
      c.Spend n = some (left, undo) → Leads nHeight left es c' →
      Leads nHeight c (.spend n undo.stored :: es) c'
  | create {c c' : CCoins} {tx : CTransaction} {es : List CoinEvent} :
      Leads nHeight (.FromTx tx nHeight) es c' → Leads nHeight c (.create tx :: es) c'

theorem Leads.append {nHeight : Int} {c c' c'' : CCoins} {es es' : List CoinEvent}
    (h : Leads nHeight c es c') (h' : Leads nHeight c' es' c'') :
    Leads nHeight c (es ++ es') c'' := by
  induction h with
  | nil => exact h'
  | spend hspend _ ih => exact .spend hspend (ih h')
  | create _ ih => exact .create (ih h')

/-- `DisconnectBlock` on one coin. -/
def takeBack (nHeight : Int) : List CoinEvent → CCoins → CCoins × Bool
  | [], c => (c, true)
  | .spend n undo :: es, c =>
    let later := takeBack nHeight es c
    let restored := restoreCoin later.1 n undo
    (restored.1.Cleanup, later.2 && restored.2)
  | .create tx :: es, c =>
    let later := takeBack nHeight es c
    (.null, later.2 && outsMatch later.1 tx nHeight)

theorem takeBack_append (nHeight : Int) (es es' : List CoinEvent) (c : CCoins) :
    takeBack nHeight (es ++ es') c =
      ((takeBack nHeight es (takeBack nHeight es' c).1).1,
        (takeBack nHeight es' c).2 && (takeBack nHeight es (takeBack nHeight es' c).1).2) := by
  induction es with
  | nil => exact Prod.ext rfl (Bool.and_true _).symm
  | cons e es ih =>
    cases e with
    | spend n undo => simp only [cons_append, takeBack, ih, Bool.and_assoc]
    | create tx => simp only [cons_append, takeBack, ih, Bool.and_assoc]

/-! ## Spending and putting back -/

namespace CCoins

variable {c left : CCoins} {n : Nat} {undo : CTxInUndo}

theorem Spend_eq (hc : c.Tidy) (h : c.Spend n = some (left, undo)) :
    (c.output n).IsNull = false ∧ undo.txout = c.output n ∧ left.Tidy ∧
      (∀ m, left.output m = if m = n then .null else c.output m) ∧
      left.fCoinBase = c.fCoinBase ∧ left.fCoinStake = c.fCoinStake ∧ left.nHeight = c.nHeight ∧
      left.nVersion = c.nVersion ∧
      undo = if left.IsPruned then
        ⟨c.output n, c.fCoinBase, c.fCoinStake, c.nHeight, c.nVersion⟩
      else ⟨c.output n, false, false, 0, 0⟩ := by
  unfold Spend at h
  cases hout : c.vout[n]? with
  | none =>
    rw [hout] at h
    cases h
  | some txout =>
    rw [hout] at h
    dsimp only at h
    have hn : n < c.vout.length := (List.getElem?_eq_some_iff.mp hout).1
    have htxout : c.output n = txout := output_eq_getElem hout
    have hmarks : Marks CTxOut.IsNull .null (c.vout.set n .null) := by
      intro o ho hnull
      rcases mem_or_eq_of_mem_set ho with ho | ho
      · exact hc.canonical o ho hnull
      · exact ho
    have htidy : Tidy (Cleanup { c with vout := c.vout.set n .null }) := tidy_Cleanup hmarks
    have houtputs : ∀ m, (Cleanup { c with vout := c.vout.set n .null }).output m =
        if m = n then .null else c.output m := by
      intro m
      show slot .null ((c.vout.set n .null).rdropWhile CTxOut.IsNull) m = _
      rw [slot_trim hmarks, slot_set hn]
      rfl
    have hempty : (Cleanup { c with vout := c.vout.set n .null }).vout.isEmpty =
        (Cleanup { c with vout := c.vout.set n .null }).IsPruned := by
      rw [Bool.eq_iff_iff, List.isEmpty_iff, htidy.isPruned_iff]
    cases hnull : txout.IsNull with
    | true =>
      rw [hnull] at h
      cases h
    | false =>
      rw [hnull, hempty] at h
      rw [htxout]
      cases hpruned : (Cleanup { c with vout := c.vout.set n .null }).IsPruned with
      | true =>
        rw [hpruned] at h
        cases h
        exact ⟨hnull, rfl, htidy, houtputs, rfl, rfl, rfl, rfl, by rw [hpruned]; rfl⟩
      | false =>
        rw [hpruned] at h
        cases h
        exact ⟨hnull, rfl, htidy, houtputs, rfl, rfl, rfl, rfl, by rw [hpruned]; rfl⟩

/-- What comes back of a coin spent to the last output. -/
def lossy (c : CCoins) : CCoins :=
  { c with fCoinStake := false, nVersion := storedVersion c.nVersion }

theorem tidy_lossy (h : c.Tidy) : c.lossy.Tidy := ⟨h.trimmed, h.canonical⟩

theorem lossy_eq_iff : c.lossy = c ↔ c.fCoinStake = false ∧ 0 ≤ c.nVersion := by
  have hversion : storedVersion c.nVersion = c.nVersion ↔ 0 ≤ c.nVersion := by
    unfold storedVersion
    split <;> omega
  constructor
  · intro h
    have hstake : c.lossy.fCoinStake = c.fCoinStake := congrArg CCoins.fCoinStake h
    have hstored : c.lossy.nVersion = c.nVersion := congrArg CCoins.nVersion h
    exact ⟨hstake.symm, hversion.mp hstored⟩
  · rintro ⟨hstake, hpos⟩
    cases c
    simp only [lossy, hversion.mpr hpos]
    exact congrArg (fun b => CCoins.mk _ b _ _ _) hstake.symm

theorem put_back {d : CCoins} (hc : c.Tidy) (hd : Marks CTxOut.IsNull .null d.vout)
    (hothers : ∀ m, m ≠ n → d.output m = c.output m) (hbase : d.fCoinBase = c.fCoinBase)
    (hstake : d.fCoinStake = c.fCoinStake) (hheight : d.nHeight = c.nHeight)
    (hversion : d.nVersion = c.nVersion) :
    Cleanup { d with vout := put .null d.vout n (c.output n) } = c := by
  have hmarks : Marks CTxOut.IsNull .null (put .null d.vout n (c.output n)) :=
    hd.put n fun hnull => (hc.isNull_output n).mp hnull
  refine Tidy.ext (tidy_Cleanup hmarks) hc hbase hstake hheight hversion fun i => ?_
  show slot .null ((put .null d.vout n (c.output n)).rdropWhile CTxOut.IsNull) i = _
  rw [slot_trim hmarks, slot_put]
  split_ifs with hi
  · rw [hi]
  · exact hothers i hi

end CCoins

/-! ## The three results -/

/-- The outputs spent before the coin is made anew. -/
def takenBy : List CoinEvent → List Nat
  | [] => []
  | .spend n _ :: es => n :: takenBy es
  | .create _ :: _ => []

/-- Every output the coin has is spent before it is made anew. -/
def UsedUp (c : CCoins) (es : List CoinEvent) : Prop := ∀ n, c.output n ≠ .null → n ∈ takenBy es

def Remade (es : List CoinEvent) : Prop := ∃ tx, CoinEvent.create tx ∈ es

/-- What a clean way back makes of a coin. -/
structure TakenBack (c : CCoins) (es : List CoinEvent) (d : CCoins) : Prop where
  pruned : c.IsPruned = true → d.IsPruned = true
  usedUp : c.IsPruned = false → UsedUp c es → d = c.lossy
  remade : c.IsPruned = false → ¬ UsedUp c es → Remade es → d.IsPruned = true
  kept : c.IsPruned = false → ¬ UsedUp c es → ¬ Remade es → d = c

variable {es : List CoinEvent}

theorem UsedUp.pruned {c : CCoins} (hc : c.Tidy) (htaken : takenBy es = [])
    (h : UsedUp c es) : c.IsPruned = true := by
  refine hc.isPruned_iff_output.mpr fun i => ?_
  by_contra hne
  have := h i hne
  rw [htaken] at this
  cases this

theorem restore_last {c d : CCoins} {n : Nat} (hc : c.Tidy)
    (hothers : ∀ m, m ≠ n → c.output m = .null) (hd : d.IsPruned = true)
    (hfine : (restoreCoin d n (CTxInUndo.stored
      ⟨c.output n, c.fCoinBase, c.fCoinStake, c.nHeight, c.nVersion⟩)).2 = true) :
    (restoreCoin d n (CTxInUndo.stored
      ⟨c.output n, c.fCoinBase, c.fCoinStake, c.nHeight, c.nVersion⟩)).1.Cleanup = c.lossy := by
  have hfresh : (c.nHeight != 0) = true := by
    have := ((Bool.and_eq_true _ _).mp hfine).1
    rw [hd, beq_true] at this
    exact this
  have hheight : c.nHeight ≠ 0 := by simpa using hfresh
  have hblank : ∀ m, m ≠ n → slot CTxOut.null [] m = c.lossy.output m :=
    fun m hm => (hothers m hm).symm
  unfold restoreCoin CTxInUndo.stored
  simp only [hfresh, if_true, if_neg hheight]
  exact CCoins.put_back (d := ⟨c.fCoinBase, false, [], c.nHeight, storedVersion c.nVersion⟩)
    (CCoins.tidy_lossy hc) nofun hblank rfl rfl rfl rfl

theorem restore_other {c d : CCoins} {n : Nat} (hc : c.Tidy) (hd : d.Tidy)
    (hothers : ∀ m, m ≠ n → d.output m = c.output m) (hbase : d.fCoinBase = c.fCoinBase)
    (hstake : d.fCoinStake = c.fCoinStake) (hheight : d.nHeight = c.nHeight)
    (hversion : d.nVersion = c.nVersion) :
    (restoreCoin d n (CTxInUndo.stored ⟨c.output n, false, false, 0, 0⟩)).1.Cleanup = c :=
  CCoins.put_back hc hd.canonical hothers hbase hstake hheight hversion

theorem usedUp_spend_iff {c left : CCoins} {n : Nat} {u : CTxInUndo}
    (houtputs : ∀ m, left.output m = if m = n then CTxOut.null else c.output m) :
    UsedUp c (.spend n u :: es) ↔ UsedUp left es := by
  constructor
  · intro h m hm
    rw [houtputs] at hm
    have hne : m ≠ n := fun heq => hm (if_pos heq)
    rw [if_neg hne] at hm
    exact (mem_cons.mp (h m hm)).resolve_left hne
  · intro h m hm
    rcases eq_or_ne m n with rfl | hne
    · exact .head _
    · refine .tail _ (h m ?_)
      rw [houtputs, if_neg hne]
      exact hm

theorem remade_spend_iff {n : Nat} {u : CTxInUndo} :
    Remade (.spend n u :: es) ↔ Remade es := by
  constructor
  · rintro ⟨tx, htx⟩
    exact ⟨tx, (mem_cons.mp htx).resolve_left nofun⟩
  · rintro ⟨tx, htx⟩
    exact ⟨tx, .tail _ htx⟩

theorem takeBack_ok {nHeight : Int} {c c' d : CCoins}
    (h : Leads nHeight c es c') (hc : c.Tidy) (hback : takeBack nHeight es c' = (d, true)) :
    TakenBack c es d := by
  induction h generalizing d with
  | nil =>
    cases hback
    refine ⟨id, fun hp hused => ?_, fun _ _ hre => ?_, fun _ _ _ => rfl⟩
    · rw [hused.pruned hc rfl] at hp
      cases hp
    · obtain ⟨_, hmem⟩ := hre
      cases hmem
  | @create c c' tx es _ _ =>
    obtain ⟨rfl, _⟩ := Prod.mk.inj hback
    refine ⟨fun _ => rfl, fun hp hused => ?_, fun _ _ _ => rfl, fun _ _ hre => ?_⟩
    · rw [hused.pruned hc rfl] at hp
      cases hp
    · exact absurd ⟨tx, .head _⟩ hre
  | @spend c left c' n undo es hspend _ ih =>
    obtain ⟨hthere, htxout, htidy, houtputs, hbase, hstake, hheight, hversion, hundo⟩ :=
      CCoins.Spend_eq hc hspend
    obtain ⟨hd, hok⟩ := Prod.mk.inj hback
    obtain ⟨hlater, hfine⟩ := (Bool.and_eq_true _ _).mp hok
    have hleft : TakenBack left es (takeBack nHeight es c').1 := ih htidy (Prod.ext rfl hlater)
    have hunpruned : c.IsPruned = false := by
      cases hp : c.IsPruned
      · rfl
      · rw [hc.isPruned_iff_output.mp hp n] at hthere
        cases hthere
    have hused : UsedUp c (.spend n undo.stored :: es) ↔ UsedUp left es := usedUp_spend_iff houtputs
    have hremade : Remade (.spend n undo.stored :: es) ↔ Remade es := remade_spend_iff
    have hothers : ∀ m, m ≠ n → left.output m = c.output m := by
      intro m hm
      rw [houtputs, if_neg hm]
    have hsome : ¬ UsedUp left es → left.IsPruned = false := by
      intro hu
      cases hp : left.IsPruned
      · rfl
      · exact absurd (fun m hm => absurd (htidy.isPruned_iff_output.mp hp m) hm) hu
    refine ⟨fun hp => absurd (hp.symm.trans hunpruned) Bool.noConfusion, fun _ hu => ?_,
      fun _ hu hre => ?_, fun _ hu hre => ?_⟩
    · rw [← hd]
      cases hpruned : left.IsPruned with
      | true =>
        rw [hpruned, if_pos rfl] at hundo
        have hblank : ∀ m, m ≠ n → c.output m = .null := by
          intro m hm
          rw [← hothers m hm]
          exact htidy.isPruned_iff_output.mp hpruned m
        rw [hundo] at hfine ⊢
        exact restore_last hc hblank (hleft.pruned hpruned) hfine
      | false =>
        rw [hpruned, if_neg Bool.false_ne_true] at hundo
        rw [hundo, hleft.usedUp hpruned (hused.mp hu)]
        exact restore_other (CCoins.tidy_lossy hc) (CCoins.tidy_lossy htidy) hothers hbase rfl
          hheight (congrArg storedVersion hversion)
    · -- the rest was made anew over it, so nothing can be put back cleanly
      have hpruned := hsome fun h => hu (hused.mpr h)
      have hgone := hleft.remade hpruned (fun h => hu (hused.mpr h)) (hremade.mp hre)
      rw [hpruned, if_neg Bool.false_ne_true] at hundo
      rw [hundo] at hfine
      have := ((Bool.and_eq_true _ _).mp hfine).1
      rw [hgone] at this
      cases this
    · have hpruned := hsome fun h => hu (hused.mpr h)
      have hkept := hleft.kept hpruned (fun h => hu (hused.mpr h)) fun h => hre (hremade.mpr h)
      rw [hpruned, if_neg Bool.false_ne_true] at hundo
      rw [← hd, hundo, hkept]
      exact restore_other hc htidy hothers hbase hstake hheight hversion

theorem TakenBack.same_iff {c d : CCoins} (h : TakenBack c es d) :
    CCoins.Same d c ↔ (c.IsPruned = false → (Remade es → UsedUp c es) ∧
      (UsedUp c es → c.fCoinStake = false ∧ 0 ≤ c.nVersion)) := by
  cases hp : c.IsPruned with
  | true => exact ⟨nofun, fun _ => .inl ⟨h.pruned hp, hp⟩⟩
  | false =>
    have hsame : CCoins.Same d c ↔ d = c := by
      constructor
      · rintro (⟨_, hc⟩ | heq)
        · rw [hp] at hc
          cases hc
        · exact heq
      · exact .inr
    rw [hsame]
    rcases Classical.em (UsedUp c es) with hu | hu
    · rw [h.usedUp hp hu, CCoins.lossy_eq_iff]
      exact ⟨fun hl _ => ⟨fun _ => hu, fun _ => hl⟩, fun hc => (hc rfl).2 hu⟩
    · rcases Classical.em (Remade es) with hre | hre
      · have hgone := h.remade hp hu hre
        constructor
        · intro heq
          rw [heq, hp] at hgone
          cases hgone
        · exact fun hc => absurd ((hc rfl).1 hre) hu
      · exact ⟨fun _ _ => ⟨fun h' => absurd h' hre, fun h' => absurd h' hu⟩,
          fun _ => h.kept hp hu hre⟩

end Divitae
