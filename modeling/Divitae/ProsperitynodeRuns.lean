/-
# `ProsperitynodeRuns` — what backs a listed prosperitynode

The rules that decide who is paid read the list by outpoint and collateral key, so the
list is followed through its *keys*: the pairs (outpoint, collateral key).  What one
event can do to them:

    fnp, clean-up     a sublist                                     (`ProcessPing_keys`,
                                                                     `CheckAndRemove_keys`)
    fnb               a sublist, or a sublist and one new outpoint,
                      whose transaction pays the key and burned     (`ProcessBroadcast_keys`)

`ProcessBroadcast` asks for *some* output of the collateral transaction that pays the
key; the index in the outpoint is not looked at.  Where the broadcasts name the output
themselves (`HonestCollateral`), each listed node has a burn of its own
(`listed_nodes_backed`).
-/
import Divitae.Prosperitynode

namespace Divitae

open List CProsperitynodeMan

variable {C : Crypto} {T : Texts} {P : CChainParams} {env : NodeEnv}

/-! ## Keys -/

abbrev NodeKey := COutPoint × CPubKey

def CProsperitynode.key (mn : CProsperitynode) : NodeKey :=
  (mn.vin.prevout, mn.pubKeyCollateralAddress)

def CProsperitynodeMan.keys (s : CProsperitynodeMan) : List NodeKey :=
  s.vProsperitynodes.map CProsperitynode.key

theorem Check_key (mn : CProsperitynode) (force : Bool) : (mn.Check env force).key = mn.key := by
  unfold CProsperitynode.Check
  simp only
  split_ifs <;> rfl

theorem modifyFirst_map {α β : Type*} {p : α → Bool} {f : α → α} {g : α → β} :
    ∀ {l : List α}, (∀ a, l.find? p = some a → g (f a) = g a) → (modifyFirst p f l).map g = l.map g
  | [], _ => rfl
  | a :: l, h => by
    cases hp : p a with
    | true =>
      have ha : g (f a) = g a := h a (by simp [hp])
      simp [modifyFirst, hp, ha]
    | false =>
      have hl := modifyFirst_map (l := l) fun b hb => h b (by simpa [hp] using hb)
      simp [modifyFirst, hp, hl]

namespace CProsperitynodeMan

variable {s : CProsperitynodeMan} {vin : CTxIn}

theorem update_keys {f : CProsperitynode → CProsperitynode}
    (h : ∀ mn, s.Find vin = some mn → (f mn).key = mn.key) : (s.update vin f).keys = s.keys :=
  modifyFirst_map h

theorem Find_prevout {mn : CProsperitynode} (h : s.Find vin = some mn) :
    mn.vin.prevout = vin.prevout := by
  simpa using List.find?_some h

theorem Find_none_notMem (h : s.Find vin = none) :
    ∀ k ∈ s.keys, k.1 ≠ vin.prevout := by
  intro k hk heq
  obtain ⟨mn, hmn, rfl⟩ := mem_map.mp hk
  exact List.find?_eq_none.mp h mn hmn (by simpa [CProsperitynode.key] using heq)

theorem Remove_keys (vin : CTxIn) : (s.Remove vin).keys.Sublist s.keys :=
  List.Sublist.map _ (eraseP_sublist)

theorem Add_keys (s : CProsperitynodeMan) (mn : CProsperitynode) :
    (s.Add mn).keys = s.keys ∨
      (∀ k ∈ s.keys, k.1 ≠ mn.vin.prevout) ∧ (s.Add mn).keys = s.keys ++ [mn.key] := by
  unfold Add
  split_ifs
  · exact .inl rfl
  · cases hfind : s.Find mn.vin with
    | none => exact .inr ⟨Find_none_notMem hfind, by simp [keys]⟩
    | some _ => exact .inl rfl

end CProsperitynodeMan

/-! ## What one event does to the keys -/

theorem ping_keys (env : NodeEnv) (s : CProsperitynodeMan) (ping : CProsperitynodePing)
    (r t : Bool) :
    (ping.CheckAndUpdate C T env s r t).1.keys = s.keys := by
  unfold CProsperitynodePing.CheckAndUpdate
  split_ifs
  · rfl
  · rfl
  · cases s.Find ping.vin with
    | none => rfl
    | some pmn => simp only; split_ifs <;> rfl
  · cases hfind : s.Find ping.vin with
    | none => rfl
    | some pmn =>
      simp only
      split_ifs
      any_goals rfl
      cases env.blockHeight ping.blockHash with
      | none => rfl
      | some nHeight =>
        simp only
        split_ifs
        · rfl
        · refine (update_keys fun mn hmn => ?_)
          rw [hfind] at hmn
          cases hmn
          exact Check_key _ true

theorem ProcessPing_keys (s : CProsperitynodeMan) (fnp : CProsperitynodePing) :
    (ProcessPing C T env s fnp).1.keys = s.keys := by
  unfold ProcessPing
  split_ifs
  · rfl
  · rfl
  · rfl
  · exact ping_keys env _ fnp true false

variable {x : CProsperitynodeMan × Bool × Nat}

theorem reject_keys {s : CProsperitynodeMan} {c : Prop} [Decidable c] {r : Bool × Nat}
    (h : x.1.keys = s.keys) :
    (if c then (s, r) else x).1.keys = s.keys := by
  split
  · rfl
  · exact h

theorem setLastPing_keys (s : CProsperitynodeMan) (vin : CTxIn) (p : CProsperitynodePing)
    (m : uint256 → Option CProsperitynodePing) :
    keys { s.update vin (fun mn => { mn with lastPing := p }) with
      mapSeenProsperitynodePing := m } = s.keys :=
  modifyFirst_map (f := fun mn : CProsperitynode => { mn with lastPing := p }) fun _ _ => rfl

theorem UpdateFromNewBroadcast_keys {s : CProsperitynodeMan} {pmn : CProsperitynode}
    {mnb : CProsperitynodeBroadcast} (hfind : s.Find pmn.vin = some pmn)
    (hkey : pmn.pubKeyCollateralAddress = mnb.pubKeyCollateralAddress) :
    (UpdateFromNewBroadcast C T env s pmn mnb).1.keys = s.keys := by
  unfold UpdateFromNewBroadcast
  by_cases htime : mnb.sigTime > pmn.sigTime
  · rw [if_pos htime]
    set s₁ := s.update pmn.vin _ with hs₁
    have hkeys₁ : s₁.keys = s.keys := update_keys fun mn hmn => by
      rw [hfind] at hmn
      cases hmn
      exact Prod.ext rfl hkey.symm
    cases hdef : mnb.lastPing.isDefault with
    | true => exact (setLastPing_keys s₁ pmn.vin mnb.lastPing _).trans hkeys₁
    | false =>
      have hkeys₂ := ping_keys (C := C) (T := T) env s₁ mnb.lastPing false false
      rcases hping : mnb.lastPing.CheckAndUpdate C T env s₁ false false with ⟨s₂, fPing, nDoS⟩
      rw [hping] at hkeys₂
      cases fPing with
      | true =>
        simp only [Bool.false_eq_true, if_false, hping, if_true]
        exact (setLastPing_keys s₂ pmn.vin mnb.lastPing _).trans (hkeys₂.trans hkeys₁)
      | false =>
        simp only [Bool.false_eq_true, if_false, hping]
        exact hkeys₂.trans hkeys₁
  · rw [if_neg htime]

theorem broadcast_check_keys (env : NodeEnv) (s : CProsperitynodeMan)
    (b : CProsperitynodeBroadcast) :
    (b.CheckAndUpdate C T P env s).1.keys = s.keys := by
  have hupdate : ∀ pmn, s.Find b.vin = some pmn →
      pmn.pubKeyCollateralAddress = b.pubKeyCollateralAddress →
      (UpdateFromNewBroadcast C T env s pmn b).1.keys = s.keys := by
    intro pmn hfind hkey
    have hvin := CProsperitynodeMan.Find_prevout hfind
    refine UpdateFromNewBroadcast_keys ?_ hkey
    rw [← hfind, CProsperitynodeMan.Find, CProsperitynodeMan.Find, hvin]
  rcases hping : b.lastPing.CheckAndUpdate C T env s false true with ⟨s', fPing, nDos⟩
  iterate 9 refine reject_keys ?_
  cases hfind : s.Find b.vin with
  | none => rfl
  | some pmn =>
    refine reject_keys (reject_keys ?_)
    by_cases hsame : pmn.pubKeyCollateralAddress = b.pubKeyCollateralAddress ∧
        (!pmn.IsBroadcastedWithin env PROSPERITYNODE_MIN_MNB_SECONDS) = true
    · rw [if_pos hsame]
      have hkeys := hupdate pmn hfind hsame.1
      rcases hup : UpdateFromNewBroadcast C T env s pmn b with ⟨s₂, fUpdated⟩
      rw [hup] at hkeys
      cases fUpdated with
      | true => exact (update_keys fun mn _ => Check_key mn false).trans hkeys
      | false => exact hkeys
    · rw [if_neg hsame]

theorem CheckAndRemove_keys (s : CProsperitynodeMan) (force : Bool) :
    (CheckAndRemove env force s).keys.Sublist s.keys := by
  have hmap : (s.vProsperitynodes.map (·.Check env false)).map CProsperitynode.key = s.keys := by
    rw [map_map]
    exact map_congr_left fun mn _ => Check_key mn false
  rw [← hmap]
  exact List.Sublist.map _ filter_sublist

/-- The transactions an environment finds, without their blocks. -/
def NodeEnv.txs (env : NodeEnv) : uint256 → Option CTransaction :=
  fun h => (env.getTransaction h).map Prod.fst

/-- A broadcast leaves a sublist of the keys, or appends one outpoint not among them whose
transaction burned the amount. -/
inductive KeysAfter (env : NodeEnv) (b : CProsperitynodeBroadcast) (ks : List NodeKey) :
    List NodeKey → Prop where
  | fewer {ks' : List NodeKey} : ks'.Sublist ks → KeysAfter env b ks ks'
  | listed {ks' : List NodeKey} {tx : CTransaction} : ks'.Sublist ks →
      (∀ k ∈ ks', k.1 ≠ b.vin.prevout) → env.txs b.vin.prevout.hash = some tx →
      PROSPERITYNODE_AMOUNT - FN_MAGIC_AMOUNT ≤ burned env.txs tx →
      KeysAfter env b ks (ks' ++ [(b.vin.prevout, b.pubKeyCollateralAddress)])

theorem ite_keys {Q : List NodeKey → Prop} {s : CProsperitynodeMan} {c : Prop} [Decidable c]
    {r : Bool × Nat} (hs : Q s.keys)
    (hx : ¬ c → Q x.1.keys) : Q (if c then (s, r) else x).1.keys := by
  by_cases hc : c
  · rw [if_pos hc]; exact hs
  · rw [if_neg hc]; exact hx hc

variable {b : CProsperitynodeBroadcast}

theorem CheckInputsAndAdd_keys {s : CProsperitynodeMan}
    {tx : CTransaction} {hashBlock : uint256}
    (htx : env.getTransaction b.vin.prevout.hash = some (tx, hashBlock)) :
    KeysAfter env b s.keys (b.CheckInputsAndAdd C T env s).1.keys := by
  have hself : KeysAfter env b s.keys s.keys := .fewer (List.Sublist.refl _)
  rcases hping : b.lastPing.CheckAndUpdate C T env s false true with ⟨s', fPing, nDoS⟩
  refine ite_keys hself fun _ => ite_keys hself fun _ => ite_keys hself fun _ =>
    ite_keys hself fun _ => ?_
  have hadded : ∀ (s₁ : CProsperitynodeMan) (t : CTransaction), s₁.keys.Sublist s.keys →
      env.txs b.vin.prevout.hash = some t →
      PROSPERITYNODE_AMOUNT - FN_MAGIC_AMOUNT ≤ burned env.txs t →
      KeysAfter env b s.keys (s₁.Add (.ofBroadcast b)).keys := by
    intro s₁ t hsub ht hburn
    rcases s₁.Add_keys (.ofBroadcast b) with hsame | ⟨hnew, hadd⟩
    · rw [hsame]; exact .fewer hsub
    · rw [hadd]
      exact .listed hsub hnew ht hburn
  cases s.Find b.vin with
  | none =>
    exact ite_keys hself fun _ => ite_keys hself fun hburn => ite_keys hself fun _ =>
      ite_keys hself fun _ => hadded s _ (List.Sublist.refl _)
        (by simp [NodeEnv.txs, htx]) (not_lt.mp hburn)
  | some pmn =>
    have hsub : (s.Remove pmn.vin).keys.Sublist s.keys := CProsperitynodeMan.Remove_keys pmn.vin
    have hfewer : KeysAfter env b s.keys (s.Remove pmn.vin).keys := .fewer hsub
    exact ite_keys hfewer fun _ => ite_keys hfewer fun hburn => ite_keys hfewer fun _ =>
      ite_keys hfewer fun _ => hadded (s.Remove pmn.vin) _ hsub
        (by simp [NodeEnv.txs, htx]) (not_lt.mp hburn)

/-- **What a broadcast can do to the list.** -/
theorem ProcessBroadcast_keys (env : NodeEnv) (s : CProsperitynodeMan)
    (b : CProsperitynodeBroadcast) :
    (ProcessBroadcast C T P env s b).1.keys = s.keys ∨
      IsVinAssociatedWithPubkey C env b.vin b.pubKeyCollateralAddress = true ∧
        KeysAfter env b s.keys (ProcessBroadcast C T P env s b).1.keys := by
  unfold ProcessBroadcast
  by_cases hlite : env.fLiteMode = true
  · rw [if_pos hlite]; exact .inl rfl
  by_cases hsync : (!env.isBlockchainSynced) = true
  · rw [if_neg hlite, if_pos hsync]; exact .inl rfl
  by_cases hseen : (s.mapSeenProsperitynodeBroadcast (b.GetHash C)).isSome = true
  · rw [if_neg hlite, if_neg hsync, if_pos hseen]; exact .inl rfl
  rw [if_neg hlite, if_neg hsync, if_neg hseen]
  set s₀ : CProsperitynodeMan := { s with
    mapSeenProsperitynodeBroadcast :=
      mapInsert s.mapSeenProsperitynodeBroadcast (b.GetHash C) b } with hs₀
  have hkeys := broadcast_check_keys (C := C) (T := T) (P := P) env s₀ b
  dsimp only
  rcases hcheck : b.CheckAndUpdate C T P env s₀ with ⟨s₁, fOk, nDoS⟩
  rw [hcheck] at hkeys
  change s₁.keys = s.keys at hkeys
  cases fOk with
  | false => exact .inl hkeys
  | true =>
    by_cases hassoc : IsVinAssociatedWithPubkey C env b.vin b.pubKeyCollateralAddress = true
    · refine .inr ⟨hassoc, ?_⟩
      simp only [hassoc, Bool.not_true, Bool.false_eq_true, if_false]
      cases htx : env.getTransaction b.vin.prevout.hash with
      | none => simp [IsVinAssociatedWithPubkey, htx] at hassoc
      | some r =>
        obtain ⟨tx, hashBlock⟩ := r
        exact hkeys ▸ CheckInputsAndAdd_keys (C := C) (T := T) (s := s₁) htx
    · simp only [hassoc, Bool.not_true, Bool.false_eq_true, if_false]
      exact .inl hkeys

/-! ## Backing -/

/-- The output the outpoint names has the collateral value and pays the key, and no other
output of its transaction has that value. -/
structure PaysCollateral (C : Crypto) (tx : CTransaction) (k : NodeKey) : Prop where
  output : ∃ out, tx.vout[k.1.n]? = some out ∧ out.nValue = FN_MAGIC_AMOUNT ∧
    out.scriptPubKey = GetScriptForDestination (C.GetID k.2)
  alone : ∀ (m : Nat) out, tx.vout[m]? = some out → out.nValue = FN_MAGIC_AMOUNT → m = k.1.n

/-- A key is backed: its transaction exists, pays it and burned the amount for it. -/
def Backed (C : Crypto) (ledger : uint256 → Option CTransaction) (k : NodeKey) : Prop :=
  ∃ tx, ledger k.1.hash = some tx ∧ PaysCollateral C tx k ∧
    PROSPERITYNODE_AMOUNT - FN_MAGIC_AMOUNT ≤ burned ledger tx

/-- Transactions are found in one ledger: a hash names one transaction at all times. -/
def ReadsLedger (ledger : uint256 → Option CTransaction) : NodeEvent → Prop
  | .fnb env _ => ∀ h tx, env.txs h = some tx → ledger h = some tx
  | _ => True

/-- A broadcast that passes for associated with its transaction names the one output of
the collateral value itself. -/
def HonestCollateral (C : Crypto) (ledger : uint256 → Option CTransaction) : NodeEvent → Prop
  | .fnb env b =>
    IsVinAssociatedWithPubkey C env b.vin b.pubKeyCollateralAddress = true →
      ∀ tx, ledger b.vin.prevout.hash = some tx →
        PaysCollateral C tx (b.vin.prevout, b.pubKeyCollateralAddress)
  | _ => True

structure ListBacked (C : Crypto) (ledger : uint256 → Option CTransaction)
    (s : CProsperitynodeMan) : Prop where
  backed : ∀ k ∈ s.keys, Backed C ledger k
  apart : s.keys.Pairwise fun a b => a.1 ≠ b.1

section
variable {ledger found : uint256 → Option CTransaction}

theorem burned_mono (hsub : ∀ h tx, found h = some tx → ledger h = some tx)
    (hval : ∀ h tx, ledger h = some tx → ∀ out ∈ tx.vout, 0 ≤ out.nValue) (tx : CTransaction) :
    burned found tx ≤ burned ledger tx := by
  have hinput : ∀ txin : CTxIn, inputValue found txin ≤ inputValue ledger txin := by
    intro txin
    unfold inputValue
    cases hf : found txin.prevout.hash with
    | some txPrev => rw [hsub _ _ hf]
    | none =>
      cases hl : ledger txin.prevout.hash with
      | none => exact le_rfl
      | some txPrev =>
        simp only [getD_eq_getElem?_getD]
        cases hout : txPrev.vout[txin.prevout.n]? with
        | none => exact le_rfl
        | some out => exact hval _ _ hl out (mem_of_getElem? hout)
  have hsum : (tx.vin.map (inputValue found)).sum ≤ (tx.vin.map (inputValue ledger)).sum :=
    sum_le_sum fun txin _ => hinput txin
  exact sub_le_sub_right hsum _

theorem Backed.hash_ne {k k' : NodeKey} (h : Backed C ledger k) (h' : Backed C ledger k')
    (hne : k.1 ≠ k'.1) : k.1.hash ≠ k'.1.hash := by
  intro hhash
  obtain ⟨tx, htx, hpays, _⟩ := h
  obtain ⟨tx', htx', hpays', _⟩ := h'
  have heq : tx = tx' := Option.some.inj (htx.symm.trans (hhash ▸ htx'))
  subst heq
  obtain ⟨out, hout, hmagic, _⟩ := hpays.output
  have hn : k.1.n = k'.1.n := hpays'.alone k.1.n out hout hmagic
  refine hne ?_
  cases hk : k.1; cases hk' : k'.1
  rw [hk, hk'] at hhash hn
  exact COutPoint.mk.injEq .. ▸ ⟨hhash, hn⟩

theorem ListBacked.fewer {s s' : CProsperitynodeMan} (h : ListBacked C ledger s)
    (hsub : s'.keys.Sublist s.keys) : ListBacked C ledger s' :=
  ⟨fun k hk => h.backed k (hsub.subset hk), h.apart.sublist hsub⟩

section
variable (hval : ∀ h tx, ledger h = some tx → ∀ out ∈ tx.vout, 0 ≤ out.nValue)
include hval

theorem listBacked_broadcast
    {s : CProsperitynodeMan} (hI : ListBacked C ledger s)
    (hreads : ReadsLedger ledger (.fnb env b)) (hhonest : HonestCollateral C ledger (.fnb env b)) :
    ListBacked C ledger (ProcessBroadcast C T P env s b).1 := by
  rcases ProcessBroadcast_keys (C := C) (T := T) (P := P) env s b with
    hsame | ⟨hassoc, hafter⟩
  · exact hI.fewer (hsame ▸ List.Sublist.refl _)
  · generalize hk : (ProcessBroadcast C T P env s b).1.keys = ks at hafter
    cases hafter with
    | fewer hsub => exact hI.fewer (hk ▸ hsub)
    | listed hsub hnew htx hburn =>
      have hledger := hreads _ _ htx
      have hbacked : Backed C ledger (b.vin.prevout, b.pubKeyCollateralAddress) :=
        ⟨_, hledger, hhonest hassoc _ hledger, hburn.trans (burned_mono hreads hval _)⟩
      refine ⟨fun k hmem => ?_, ?_⟩
      · rw [hk] at hmem
        rcases mem_append.mp hmem with hmem | hmem
        · exact hI.backed k (hsub.subset hmem)
        · exact mem_singleton.mp hmem ▸ hbacked
      · rw [hk]
        refine pairwise_append.mpr ⟨hI.apart.sublist hsub, pairwise_singleton _ _, ?_⟩
        intro k hmem k' hmem'
        rw [mem_singleton.mp hmem']
        exact hnew k hmem

theorem listBacked_step (s : CProsperitynodeMan) (e : NodeEvent) (hI : ListBacked C ledger s)
    (hok : ReadsLedger ledger e ∧ HonestCollateral C ledger e) :
    ListBacked C ledger (nodeStep C T P s e) := by
  cases e with
  | fnb env b => exact listBacked_broadcast hval hI hok.1 hok.2
  | fnp env p => exact hI.fewer (ProcessPing_keys s p ▸ List.Sublist.refl _)
  | cleanUp env force => exact hI.fewer (CheckAndRemove_keys s force)

end

/-- **One burn, one payee.**  In every state reached by broadcasts that name their own
collateral, pings and clean-ups: every listed node is backed, and no two by one
transaction. -/
theorem listed_nodes_backed (C : Crypto) (T : Texts) (P : CChainParams)
    (ledger : uint256 → Option CTransaction)
    (hval : ∀ h tx, ledger h = some tx → ∀ out ∈ tx.vout, 0 ≤ out.nValue)
    (es : List NodeEvent) (hreads : ∀ e ∈ es, ReadsLedger ledger e)
    (hhonest : ∀ e ∈ es, HonestCollateral C ledger e) :
    (∀ mn ∈ (es.foldl (nodeStep C T P) .empty).vProsperitynodes, Backed C ledger mn.key) ∧
    (es.foldl (nodeStep C T P) .empty).vProsperitynodes.Pairwise fun a b =>
      a.vin.prevout.hash ≠ b.vin.prevout.hash := by
  have hstart : ListBacked C ledger .empty := ⟨nofun, List.Pairwise.nil⟩
  have hguard : Run.Guarded (nodeStep C T P)
      (fun _ e => ReadsLedger ledger e ∧ HonestCollateral C ledger e) .empty es :=
    Run.guarded_of_forall fun e he => ⟨hreads e he, hhonest e he⟩
  have hI := Run.run_inv (listBacked_step hval) hstart hguard
  have hbacked : ∀ mn ∈ (es.foldl (nodeStep C T P) .empty).vProsperitynodes,
      Backed C ledger mn.key := fun mn hmn => hI.backed _ (mem_map_of_mem hmn)
  refine ⟨hbacked, ?_⟩
  have hapart := pairwise_map.mp hI.apart
  exact hapart.imp_of_mem fun ha hb hne => (hbacked _ ha).hash_ne (hbacked _ hb) hne

end

/-! ### One burn, announced once and twice -/

/-- Signs the announcements for output 0 and, later, for output 1. -/
def twoAnnouncer : Crypto :=
  Crypto.onTexts (compressedKey 1) [(announcement 0 1700000000 []).GetOldStrMessage plainTexts,
    (announcement 1 1700000400 []).GetOldStrMessage plainTexts]

/-- Burns 2500 coins less its one output, the collateral. -/
def collateralTx : CTransaction :=
  ⟨7, 1, [⟨⟨8, 0⟩, [], 0xFFFFFFFF⟩],
    [⟨FN_MAGIC_AMOUNT, GetScriptForDestination (twoAnnouncer.GetID (compressedKey 1))⟩], 0⟩

def fundingTx : CTransaction := ⟨8, 1, [], [⟨PROSPERITYNODE_AMOUNT, []⟩], 0⟩

def twoTxLedger (h : uint256) : Option CTransaction :=
  if h = 7 then some collateralTx else if h = 8 then some fundingTx else none

def announceEnv : NodeEnv where
  fLiteMode := false
  isBlockchainSynced := true
  shutdownRequested := false
  time := 1700000500
  adjustedTime := 1700000500
  minProto := 71020
  getTransaction h := (twoTxLedger h).map fun tx => (tx, 5)
  inputAge _ := 20
  blockHeight _ := some 100
  chainHeight := 120
  chainTime _ := some 1690000000
  lockMain := true
  fFundamentalNode := false
  activeVin := .SetNull
  activePubKey := .invalid

theorem listed_node_backed_once :
    ([NodeEvent.fnb announceEnv (announcement 0 1700000000 [0])].foldl
      (nodeStep twoAnnouncer plainTexts mainParams) .empty).keys = [(⟨7, 0⟩, compressedKey 1)] ∧
    Backed twoAnnouncer twoTxLedger (⟨7, 0⟩, compressedKey 1) := by
  have hkeys : ([NodeEvent.fnb announceEnv (announcement 0 1700000000 [0])].foldl
      (nodeStep twoAnnouncer plainTexts mainParams) .empty).keys
        = [(⟨7, 0⟩, compressedKey 1)] := by decide +kernel
  have hledger : ∀ h tx, twoTxLedger h = some tx → tx = collateralTx ∨ tx = fundingTx := by
    intro h tx htx
    unfold twoTxLedger at htx
    split_ifs at htx
    · exact .inl (Option.some.inj htx).symm
    · exact .inr (Option.some.inj htx).symm
  have hpays : PaysCollateral twoAnnouncer collateralTx (⟨7, 0⟩, compressedKey 1) := by
    refine ⟨⟨_, rfl, rfl, rfl⟩, fun m out hout _ => ?_⟩
    cases m with
    | zero => rfl
    | succ m => exact absurd hout (by simp [collateralTx])
  have hall := (listed_nodes_backed twoAnnouncer plainTexts mainParams twoTxLedger ?_
    [NodeEvent.fnb announceEnv (announcement 0 1700000000 [0])] ?_ ?_).1
  · obtain ⟨mn, hmn, hkey⟩ := mem_map.mp (hkeys ▸ mem_singleton_self _ :
      ((⟨7, 0⟩, compressedKey 1) : NodeKey) ∈ CProsperitynodeMan.keys _)
    exact ⟨hkeys, hkey ▸ hall mn hmn⟩
  · intro h tx htx out hout
    rcases hledger h tx htx with rfl | rfl
    · rw [mem_singleton.mp hout]; decide
    · rw [mem_singleton.mp hout]; decide
  · intro e he
    rw [mem_singleton.mp he]
    intro h tx htx
    simpa [NodeEnv.txs, announceEnv, Option.map_map, Function.comp_def] using htx
  · intro e he
    rw [mem_singleton.mp he]
    intro _ tx htx
    cases htx
    exact hpays

/-- The transaction has one output.  Announced for it and then for an output 1 that does
not exist, it backs two nodes. -/
theorem one_burn_backs_two :
    ([NodeEvent.fnb announceEnv (announcement 0 1700000000 [0]),
        .fnb announceEnv (announcement 1 1700000400 [1])].foldl
      (nodeStep twoAnnouncer plainTexts mainParams) .empty).keys =
        [(⟨7, 0⟩, compressedKey 1), (⟨7, 1⟩, compressedKey 1)] ∧
    (twoTxLedger 7).map (fun tx => tx.vout.length) = some 1 := by
  refine ⟨?_, ?_⟩ <;> decide +kernel

end Divitae
