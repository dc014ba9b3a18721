/-
# `PoolConflicts` — what the pool keeps apart, and what it does not

Two transactions that take one output do not meet in the pool: `mapNextTx` is asked when one is
offered, and when a block takes the output the other one goes.  Serials are looked up in the
chain only:

    offered to the pool    a serial that another transaction of the pool spends is not refused
    a block connected      a transaction that spends a serial of the block stays, if it is not
                           itself in the block
    a block disconnected   its spends come back; nothing else can have their serials

So the pool is free of conflicts throughout a run in which no such pair meets (`Untaken`) and the
node finds the transactions recorded with the serials it looks up (`Located`).  The miner, unlike
the pool, does compare the serials of the transactions it picks.
-/
import Divitae.MinedInOrder
import Divitae.SerialRuns

namespace Divitae

open CTxMemPool List CTransaction

/-! ## The pool beside the chain -/

/-- The pool, the coins and the blocks of the active chain, the tip first. -/
structure PooledChain extends PoolState where
  chainActive : List CBlock

namespace PooledChain

variable (Z : Zerocoin) (s : PooledChain)

/-- The serials spent on the chain, with the transactions that spend them. -/
def spends : List (Int × uint256) := s.chainActive.flatMap (CBlock.coinSpends Z)

def spent : List Int := (s.spends Z).map Prod.fst

/-- The chain behind an event. -/
def nextChain : PoolEvent → List CBlock
  | .connectTip N block pindexNew pprev fAlreadyChecked =>
    match ConnectBlock N block pindexNew pprev s.pcoinsTip false fAlreadyChecked with
    | .ok _ => block :: s.chainActive
    | .error _ => s.chainActive
  | .disconnectTip N _ block pindexDelete pprev _ =>
    match DisconnectBlock N block pindexDelete pprev s.pcoinsTip with
    | .ok (_, true) => s.chainActive.tail
    | _ => s.chainActive
  | _ => s.chainActive

def step (e : PoolEvent) : PooledChain := ⟨poolStep s.toPoolState e, s.nextChain e⟩

def start (view : CCoinsView) (chain : List CBlock) : PooledChain := ⟨.start view, chain⟩

/-- No conflict, and so the pool can be mined. -/
def Minable : Prop :=
  Unconflicted Z s.mempool s.pcoinsTip (s.spent Z) ∧
    ∀ nHeight txs, InOrder s.mempool [] txs → Mines Z nHeight s.pcoinsTip (s.spent Z) txs

/-- What is the same in every step or promised by the callers: scripts are read alike, the block
that is disconnected is the tip, and a block that is not checked again has passed `CheckBlock`
before. -/
def Promised (U : Set CTransaction) (e : PoolEvent) : Prop :=
  Meets U s.toPoolState e ∧
    match e with
    | .accept N _ _ _ _ => SameReading Z N.Z
    | .connectTip N block _ _ fAlreadyChecked => SameReading Z N.Z ∧
        (fAlreadyChecked = true → ∃ (N' : CNode) (pow merkle : Bool),
          SameReading Z N'.Z ∧ CheckBlock N' block pow merkle = .ok ())
    | .disconnectTip _ _ block _ _ _ => s.chainActive.head? = some block
    | .lockInputs _ => True

/-- Of a serial of the chain the node finds the transaction it is recorded with. -/
def Looks (N : CNode) (keys : List (Int × uint256)) : Prop :=
  ∀ k ∈ keys.map Prod.fst, k ∈ s.spent Z → ¬ NotInBlockchain N N.Z.ReadCoinSpend k

/-- The serials that are looked up are found. -/
def Located : PoolEvent → Prop
  | .accept N tx _ _ _ => s.Looks Z N.toCNode (tx.coinSpends Z)
  | .connectTip N block _ _ _ => s.Looks Z N.toCNode (block.coinSpends Z)
  | _ => True

/-- No other transaction of the pool spends a serial of the one that comes in, or of the block. -/
def Untaken : PoolEvent → Prop
  | .accept _ tx _ _ _ =>
    ∀ t ∈ s.mempool.txs, t ≠ tx → ∀ k ∈ t.serials Z, k ∉ tx.serials Z
  | .connectTip _ block _ _ _ =>
    ∀ t ∈ s.mempool.txs, t ∉ block.vtx → ∀ k ∈ t.serials Z, k ∉ (block.coinSpends Z).map Prod.fst
  | _ => True

end PooledChain

/-! ## What is looked up -/

section
variable {N : CMempoolNode} {tx : CTransaction} {pool pool' : CTxMemPool} {view : CCoinsView}
  {Z : Zerocoin}

theorem checkSpends_new {tip : CBlockIndex} {vin : List CTxIn}
    (h : checkSpends N tx tip vin = .ok ()) (txid : uint256) :
    ∀ e ∈ inputSerials N.Z txid vin, NotInBlockchain N.toCNode N.Z.ReadCoinSpend e.1 := by
  induction vin with
  | nil => exact nofun
  | cons txin vin ih =>
    rw [checkSpends] at h
    cases hz : txin.scriptSig.IsZerocoinSpend with
    | false =>
      rw [hz] at h
      rw [inputSerials_skip vin hz]
      exact ih h
    | true =>
      rw [hz] at h
      cases hs : N.Z.TxInToZerocoinSpend txin with
      | none =>
        rw [hs] at h
        cases h
      | some spend =>
        rw [hs] at h
        obtain ⟨hcheck, hrest⟩ := rejectIf_eq_ok.mp h
        rw [inputSerials_cons vin hz hs]
        intro e he
        rcases mem_cons.mp he with rfl | he
        · exact contextual_spend (by simpa using hcheck)
        · exact ih hrest e he

variable {fLimitFree fRejectInsaneFee ignoreFees : Bool}

theorem AcceptToMemoryPool_new
    (h : AcceptToMemoryPool N pool view tx fLimitFree fRejectInsaneFee ignoreFees = .ok pool') :
    ∀ e ∈ tx.coinSpends N.Z, NotInBlockchain N.toCNode N.Z.ReadCoinSpend e.1 := by
  intro e he
  cases hspend : tx.IsZerocoinSpend with
  | false =>
    rw [coinSpends, hspend] at he
    cases he
  | true =>
    rw [coinSpends, hspend, if_pos rfl] at he
    simp only [AcceptToMemoryPool, rejectIf_eq_ok] at h
    obtain ⟨-, -, -, -, -, -, -, -, h⟩ := h
    cases htip : N.chainTip with
    | none =>
      rw [htip] at h
      cases h
    | some tip =>
      rw [htip] at h
      simp only [bind_eq_ok] at h
      obtain ⟨_, hinputs, -⟩ := h
      rw [acceptInputs, hspend, if_pos rfl] at hinputs
      obtain ⟨-, hinputs⟩ := rejectIf_eq_ok.mp hinputs
      obtain ⟨_, hchecked, -⟩ := bind_eq_ok.mp hinputs
      exact checkSpends_new hchecked tx.hash e he

theorem SameReading.coinSpends {Z' : Zerocoin} (h : SameReading Z Z') (tx : CTransaction) :
    tx.coinSpends Z' = tx.coinSpends Z :=
  congrFun (h.keys .serial) tx

variable {block : CBlock}

theorem mem_serials_iff {k : Int} :
    k ∈ (block.coinSpends Z).map Prod.fst ↔ ∃ tx ∈ block.vtx, k ∈ tx.serials Z := by
  unfold CBlock.coinSpends serials
  rw [map_flatMap]
  exact mem_flatMap

theorem serials_apart (h : ((block.coinSpends Z).map Prod.fst).Nodup)
    {tx tx' : CTransaction} (htx : tx ∈ block.vtx) (htx' : tx' ∈ block.vtx) {k : Int}
    (hk : k ∈ tx.serials Z) (hk' : k ∈ tx'.serials Z) : tx = tx' := by
  unfold CBlock.coinSpends at h
  rw [map_flatMap] at h
  obtain ⟨-, hpairs⟩ := nodup_flatMap.mp h
  have : Std.Symm (Function.onFun List.Disjoint fun tx : CTransaction =>
      (tx.coinSpends Z).map Prod.fst) := ⟨fun _ _ hd => hd.symm⟩
  by_contra hne
  exact hpairs.forall htx htx' hne hk hk'

end

/-! ## Steps -/

namespace PooledChain

/-- What the steps keep. -/
structure Kept (U : Set CTransaction) (Z : Zerocoin) (s : PooledChain) : Prop where
  sound : SoundPool U s.toPoolState
  serials : ∀ tx ∈ s.mempool.txs, ∀ tx' ∈ s.mempool.txs, ∀ k ∈ tx.serials Z,
    k ∈ tx'.serials Z → tx = tx'
  fresh : ∀ tx ∈ s.mempool.txs, ∀ k ∈ tx.serials Z, k ∉ s.spent Z
  once : (s.spent Z).Nodup

variable {U : Set CTransaction} {Z : Zerocoin} {s : PooledChain}

theorem Kept.unconflicted (h : Kept U Z s) :
    Unconflicted Z s.mempool s.pcoinsTip (s.spent Z) where
  outpoints := h.sound.linked.outpoints
  unspent tx htx hspend txin hin := by
    obtain ⟨hash, entry, hlook, rfl⟩ := mem_txs.mp htx
    exact h.sound.backed.finds hlook hspend hin
  serials := h.serials
  fresh := h.fresh

theorem Kept.minable (h : Kept U Z s) : s.Minable Z :=
  ⟨h.unconflicted, fun nHeight _ horder => h.unconflicted.mines h.sound.linked nHeight horder⟩

theorem Kept.fewer (h : Kept U Z s) {s' : PooledChain} (hsound : SoundPool U s'.toPoolState)
    (hsub : ∀ tx ∈ s'.mempool.txs, tx ∈ s.mempool.txs) (hchain : s'.chainActive = s.chainActive) :
    Kept U Z s' := by
  have hspent : s'.spent Z = s.spent Z := by
    unfold spent spends
    rw [hchain]
  refine ⟨hsound, ?_, ?_, ?_⟩
  · intro tx htx tx' htx'
    exact h.serials tx (hsub tx htx) tx' (hsub tx' htx')
  · intro tx htx k hk
    rw [hspent]
    exact h.fresh tx (hsub tx htx) k hk
  · rw [hspent]
    exact h.once

/-- **A transaction is offered.** -/
theorem Kept.accept {N : CMempoolNode} {tx : CTransaction}
    (h : Kept U Z s)
    (hsound : SoundPool U
      (poolStep s.toPoolState (.accept N tx fLimitFree fRejectInsaneFee ignoreFees)))
    (hreading : SameReading Z N.Z) (hlooks : s.Looks Z N.toCNode (tx.coinSpends Z))
    (huntaken : s.Untaken Z (.accept N tx fLimitFree fRejectInsaneFee ignoreFees)) :
    Kept U Z (s.step (.accept N tx fLimitFree fRejectInsaneFee ignoreFees)) := by
  cases hres : AcceptToMemoryPool N s.mempool s.pcoinsTip tx fLimitFree fRejectInsaneFee
      ignoreFees with
  | error e =>
    refine h.fewer hsound ?_ rfl
    have hsame : (poolStep s.toPoolState (.accept N tx fLimitFree fRejectInsaneFee ignoreFees)) =
        s.toPoolState := by
      rw [poolStep, hres]
    intro t ht
    exact hsame ▸ ht
  | ok pool =>
    obtain ⟨entry, hpool, haccepted⟩ := AcceptToMemoryPool_ok hres
    have hnext : poolStep s.toPoolState (.accept N tx fLimitFree fRejectInsaneFee ignoreFees) =
        { s.toPoolState with mempool := pool } := by
      rw [poolStep, hres]
    have htxs : ∀ t ∈ (s.step (.accept N tx fLimitFree fRejectInsaneFee ignoreFees)).mempool.txs,
        t = tx ∨ t ∈ s.mempool.txs := by
      intro t ht
      have ht : t ∈ pool.txs := by
        have hmem : t ∈ (poolStep s.toPoolState
          (.accept N tx fLimitFree fRejectInsaneFee ignoreFees)).mempool.txs := ht
        rw [hnext] at hmem
        exact hmem
      rw [hpool, addUnchecked_txs haccepted.new, haccepted.mine] at ht
      exact mem_cons.mp ht
    have hpair : ∀ t ∈ s.mempool.txs, ∀ k ∈ t.serials Z, k ∈ tx.serials Z → t = tx := by
      intro t ht k hk hk'
      by_contra hne
      exact huntaken t ht hne k hk hk'
    refine ⟨hsound, ?_, ?_, h.once⟩
    · intro a ha b hb k hka hkb
      rcases htxs a ha with rfl | hold
      · rcases htxs b hb with rfl | hold
        · rfl
        · exact (hpair b hold k hkb hka).symm
      · rcases htxs b hb with rfl | hold'
        · exact hpair a hold k hka hkb
        · exact h.serials a hold b hold' k hka hkb
    · intro a ha k hk hspent
      rcases htxs a ha with rfl | ha
      · obtain ⟨e, he, rfl⟩ := mem_map.mp hk
        have hnew := AcceptToMemoryPool_new hres e (hreading.coinSpends a ▸ he)
        exact hlooks e.1 hk hspent hnew
      · exact h.fresh a ha k hk hspent

/-- **A block is connected.** -/
theorem Kept.connected {N : CConnectNode} {pindexNew pprev : CBlockIndex}
    {fAlreadyChecked : Bool} (h : Kept U Z s)
    (hsound : SoundPool U
      (poolStep s.toPoolState (.connectTip N block pindexNew pprev fAlreadyChecked)))
    (hgenesis : block.hash ≠ N.hashGenesisBlock) (hreading : SameReading Z N.Z)
    (hchecked : fAlreadyChecked = true → ∃ (N' : CNode) (pow merkle : Bool),
      SameReading Z N'.Z ∧ CheckBlock N' block pow merkle = .ok ())
    (hlooks : s.Looks Z N.toCNode (block.coinSpends Z))
    (huntaken : s.Untaken Z (.connectTip N block pindexNew pprev fAlreadyChecked)) :
    Kept U Z (s.step (.connectTip N block pindexNew pprev fAlreadyChecked)) := by
  cases hc : ConnectBlock N block pindexNew pprev s.pcoinsTip false fAlreadyChecked with
  | error e =>
    refine h.fewer hsound ?_ ?_
    · have hsame : (poolStep s.toPoolState
          (.connectTip N block pindexNew pprev fAlreadyChecked)) = s.toPoolState := by
        rw [poolStep, hc]
      intro t ht
      exact hsame ▸ ht
    · show s.nextChain (.connectTip N block pindexNew pprev fAlreadyChecked) = s.chainActive
      rw [nextChain, hc]
  | ok c =>
    have hmined : Mined s.mempool block.vtx (s.mempool.removeForBlock block.vtx []).1 :=
      removeForBlock_mined h.sound.linked block.vtx
    have hpool : (s.step (.connectTip N block pindexNew pprev fAlreadyChecked)).mempool =
        (s.mempool.removeForBlock block.vtx []).1 := by
      show (poolStep s.toPoolState
        (.connectTip N block pindexNew pprev fAlreadyChecked)).mempool = _
      rw [poolStep, hc]
    have hchain : (s.step (.connectTip N block pindexNew pprev fAlreadyChecked)).chainActive =
        block :: s.chainActive := by
      show s.nextChain (.connectTip N block pindexNew pprev fAlreadyChecked) = _
      rw [nextChain, hc]
    have hspent : (s.step (.connectTip N block pindexNew pprev fAlreadyChecked)).spent Z =
        (block.coinSpends Z).map Prod.fst ++ s.spent Z := by
      unfold spent spends
      rw [hchain, flatMap_cons, map_append]
    obtain ⟨-, -, hserials, -, hflag⟩ := ConnectBlock_queued hgenesis hc
    have hblock : block.coinSpends N.Z = block.coinSpends Z :=
      congrFun (hreading.blockKeys .serial) block
    rw [hblock] at hserials
    -- the serials of the block are apart, and new on the chain
    have hnodup : ((block.coinSpends Z).map Prod.fst).Nodup := by
      rcases hflag with hflag | hcheck
      · obtain ⟨N', pow, merkle, hN', hcheck⟩ := hchecked hflag
        have hsame : block.coinSpends N'.Z = block.coinSpends Z :=
          congrFun (hN'.blockKeys .serial) block
        have hnodup := CheckBlock_serials hcheck
        exact hsame ▸ hnodup
      · have hnodup := CheckBlock_serials hcheck
        exact hblock ▸ hnodup
    have hnew : ∀ k ∈ (block.coinSpends Z).map Prod.fst, k ∉ s.spent Z := by
      intro k hk hmem
      obtain ⟨e, he, rfl⟩ := mem_map.mp hk
      exact hlooks e.1 hk hmem (hserials e he)
    have hsub : ∀ t ∈ (s.step (.connectTip N block pindexNew pprev fAlreadyChecked)).mempool.txs,
        t ∈ s.mempool.txs ∧ t ∉ block.vtx := by
      intro t ht
      rw [hpool] at ht
      refine ⟨hmined.sub.txs t ht, ?_⟩
      intro hmem
      obtain ⟨hash, entry, hlook, rfl⟩ := mem_txs.mp ht
      have hgone := hmined.gone entry.tx hmem
      rw [hmined.linked.named hlook, hlook] at hgone
      cases hgone
    refine ⟨hsound, ?_, ?_, ?_⟩
    · intro tx htx tx' htx'
      exact h.serials tx (hsub tx htx).1 tx' (hsub tx' htx').1
    · intro tx htx k hk hmem
      obtain ⟨hpooled, hnot⟩ := hsub tx htx
      rw [hspent] at hmem
      rcases mem_append.mp hmem with hmem | hmem
      · exact huntaken tx hpooled hnot k hk hmem
      · exact h.fresh tx hpooled k hk hmem
    · rw [hspent]
      exact nodup_append'.mpr ⟨hnodup, h.once, fun k hk hmem => hnew k hk hmem⟩

/-- **A block is disconnected.**  What comes back are its own spends. -/
theorem Kept.disconnected {N : CDisconnectNode} {M : CTxMemPool → CMempoolNode}
    {pindexDelete pprev : CBlockIndex} {cached : uint256 → Bool} (h : Kept U Z s)
    (hsound : SoundPool U
      (poolStep s.toPoolState (.disconnectTip N M block pindexDelete pprev cached)))
    (htip : s.chainActive.head? = some block) :
    Kept U Z (s.step (.disconnectTip N M block pindexDelete pprev cached)) := by
  have hcases : (s.step (.disconnectTip N M block pindexDelete pprev cached)) = s ∨
      (s.step (.disconnectTip N M block pindexDelete pprev cached)).chainActive =
          s.chainActive.tail ∧
        ∀ t ∈ (s.step (.disconnectTip N M block pindexDelete pprev cached)).mempool.txs,
          t ∈ block.vtx ∨ t ∈ s.mempool.txs := by
    unfold step nextChain poolStep
    dsimp only
    rcases DisconnectBlock N block pindexDelete pprev s.pcoinsTip with _ | ⟨view, _ | _⟩
    · exact .inl rfl
    · exact .inl rfl
    · refine .inr ⟨rfl, ?_⟩
      intro t ht
      exact resurrect_from t (removeCoinbaseSpends_sub.txs t ht)
  rcases hcases with hsame | ⟨hchain, hfrom⟩
  · rw [hsame]
    exact h
  obtain ⟨rest, hrest⟩ : ∃ rest, s.chainActive = block :: rest := by
    cases hs : s.chainActive with
    | nil =>
      rw [hs] at htip
      cases htip
    | cons tip rest =>
      rw [hs] at htip
      obtain rfl : tip = block := Option.some.inj htip
      exact ⟨rest, rfl⟩
  have hspent : s.spent Z = (block.coinSpends Z).map Prod.fst ++
      (s.step (.disconnectTip N M block pindexDelete pprev cached)).spent Z := by
    unfold spent spends
    rw [hchain, hrest, flatMap_cons, map_append]
    rfl
  have hsound : SoundPool U
      (s.step (.disconnectTip N M block pindexDelete pprev cached)).toPoolState := hsound
  generalize s.step (.disconnectTip N M block pindexDelete pprev cached) = s'
    at hsound hchain hfrom hspent ⊢
  have honce := h.once
  rw [hspent] at honce
  obtain ⟨hblock, honce', hapart⟩ := nodup_append'.mp honce
  -- a transaction of the pool has no serial of the block
  have hfree : ∀ t ∈ s.mempool.txs, ∀ tx ∈ block.vtx, ∀ k ∈ t.serials Z, k ∉ tx.serials Z := by
    intro t ht tx htx k hk hk'
    refine h.fresh t ht k hk ?_
    rw [hspent]
    exact mem_append_left _ (mem_serials_iff.mpr ⟨tx, htx, hk'⟩)
  refine ⟨hsound, ?_, ?_, honce'⟩
  · intro a ha b hb k hka hkb
    rcases hfrom a ha with hina | hina
    · rcases hfrom b hb with hinb | hinb
      · exact serials_apart hblock hina hinb hka hkb
      · exact absurd hka (hfree b hinb a hina k hkb)
    · rcases hfrom b hb with hinb | hinb
      · exact absurd hkb (hfree a hina b hinb k hka)
      · exact h.serials a hina b hinb k hka hkb
  · intro a ha k hk hmem
    rcases hfrom a ha with hina | hina
    · exact hapart (mem_serials_iff.mpr ⟨a, hina, hk⟩) hmem
    · refine h.fresh a hina k hk ?_
      rw [hspent]
      exact mem_append_right _ hmem

/-- **One step keeps the pool free of conflicts.** -/
theorem Kept.step (hU : Set.InjOn hash U) {e : PoolEvent} (h : Kept U Z s)
    (hpromised : s.Promised Z U e) (hlocated : s.Located Z e) (huntaken : s.Untaken Z e) :
    Kept U Z (s.step e) := by
  obtain ⟨hmeets, hrest⟩ := hpromised
  have hsound : SoundPool U (poolStep s.toPoolState e) := poolStep_sound hU h.sound hmeets
  cases e with
  | accept N tx fLimitFree fRejectInsaneFee ignoreFees =>
    exact h.accept hsound hrest hlocated huntaken
  | connectTip N block pindexNew pprev fAlreadyChecked =>
    exact h.connected hsound hmeets.2.1 hrest.1 hrest.2 hlocated huntaken
  | disconnectTip N M block pindexDelete pprev cached =>
    exact h.disconnected hsound hrest
  | lockInputs txLock =>
    have hthins : Thins s.mempool (s.mempool.removeConflicts txLock []).1 :=
      removeConflicts_thins h.sound.linked
    exact h.fewer hsound hthins.sub.txs rfl

/-- **The pool can be mined throughout a run** in which serials are located and no two spends of
one serial meet. -/
theorem pool_minable {U : Set CTransaction} (hU : Set.InjOn CTransaction.hash U) (Z : Zerocoin)
    (view : CCoinsView) (chain : List CBlock) (honce : ((start view chain).spent Z).Nodup)
    (es : List PoolEvent)
    (hpromised : Run.Guarded step (fun s e => s.Promised Z U e) (start view chain) es)
    (hapart : Run.Guarded step (fun s e => s.Located Z e ∧ s.Untaken Z e) (start view chain) es) :
    Run.Throughout step (fun s => s.Minable Z) (start view chain) es := by
  have hstart : Kept U Z (start view chain) := by
    have hnone : ∀ tx, tx ∉ (start view chain).mempool.txs := fun _ => not_mem_nil
    refine ⟨⟨linked_empty, backed_empty, ?_⟩, ?_, ?_, honce⟩
    · exact fun tx htx => absurd htx (hnone tx)
    · exact fun tx htx => absurd htx (hnone tx)
    · exact fun tx htx => absurd htx (hnone tx)
  have hkept : Run.Throughout step (Kept U Z) (start view chain) es := by
    refine Run.throughout_of_guarded ?_ hstart (hpromised.and hapart)
    rintro s e h ⟨hpromised, hlocated, huntaken⟩
    exact h.step hU hpromised hlocated huntaken
  exact fun past hpast => (hkept past hpast).minable

/-! ## One serial twice, for example -/

/-- The zerocoin of `redemption`, redeemed to somebody else. -/
def otherRedemption : CTransaction := { redemption with hash := 302, vout := [⟨COIN, [2]⟩] }

def offer (tx : CTransaction) : PoolEvent := .accept poolNode tx true false false

theorem redemption_taken :
    ((start oneCoin []).step (offer redemption)).mempool.txs = [redemption] := by
  decide +kernel

theorem offer_promised {s : PooledChain} {tx : CTransaction} (hcoins : s.pcoinsTip = oneCoin)
    (hknown : tx ∈ U) (hapart : Apart (tx :: s.mempool.txs)) :
    s.Promised quietZerocoin U (offer tx) :=
  ⟨⟨hknown, hapart, hcoins ▸ poolNode_finds _⟩, ⟨rfl, rfl⟩⟩

/-- A redemption and a payment do not get in each other's way. -/
theorem redemption_and_payment :
    Run.Throughout step (fun s => s.Minable quietZerocoin) (start oneCoin [])
      [offer redemption, offer payment] := by
  have hids : Set.InjOn CTransaction.hash {redemption, payment} := by
    rintro a (rfl | rfl) b (rfl | rfl) hhash
    · rfl
    · cases hhash
    · cases hhash
    · rfl
  refine pool_minable hids quietZerocoin oneCoin [] nodup_nil _
    ⟨offer_promised rfl (.inl rfl) ?_, offer_promised rfl (.inr rfl) ?_, trivial⟩
    ⟨⟨?_, ?_⟩, ⟨?_, ?_⟩, trivial⟩
  · intro z hz hspend other hother hordinary
    obtain rfl := mem_singleton.mp hz
    obtain rfl := mem_singleton.mp hother
    exact nomatch hspend.symm.trans hordinary
  · rw [redemption_taken]
    unfold Apart
    decide
  · exact nofun
  · exact nofun
  · exact nofun
  · exact fun t _ _ k _ => not_mem_nil

/-- Both redemptions are taken. -/
theorem serial_twice_in_pool :
    ¬ (∀ (U : Set CTransaction), Set.InjOn CTransaction.hash U → ∀ (Z : Zerocoin)
        (view : CCoinsView) (chain : List CBlock), ((start view chain).spent Z).Nodup →
        ∀ es : List PoolEvent,
          Run.Guarded step (fun s e => s.Promised Z U e) (start view chain) es →
          Run.Guarded step (fun s e => s.Located Z e) (start view chain) es →
          Run.Throughout step (fun s => s.Minable Z) (start view chain) es) := by
  intro hall
  have hids : Set.InjOn CTransaction.hash {redemption, otherRedemption} := by
    rintro a (rfl | rfl) b (rfl | rfl) hhash
    · rfl
    · cases hhash
    · cases hhash
    · rfl
  have hspends (txs : List CTransaction) (h : ∀ tx ∈ txs, tx.IsZerocoinSpend = true) :
      Apart txs := by
    intro z _ _ other hother hordinary
    exact nomatch (h other hother).symm.trans hordinary
  have hminable := hall {redemption, otherRedemption} hids quietZerocoin oneCoin [] nodup_nil
    [offer redemption, offer otherRedemption]
    ⟨offer_promised rfl (.inl rfl) (hspends _ (by decide)),
      offer_promised rfl (.inr rfl) (hspends _ (by rw [redemption_taken]; decide)), trivial⟩
    ⟨nofun, nofun, trivial⟩
    [offer redemption, offer otherRedemption] (prefix_refl _)
  have hboth : ((start oneCoin []).step (offer redemption) |>.step
      (offer otherRedemption)).mempool.txs = [otherRedemption, redemption] := by
    decide +kernel
  have hserials := hminable.1.serials
  rw [foldl_cons, foldl_cons, foldl_nil, hboth] at hserials
  have hsame := hserials redemption (by simp) otherRedemption (by simp) 1 (by decide) (by decide)
  exact absurd (congrArg CTransaction.hash hsame) (by decide)

end PooledChain

end Divitae
