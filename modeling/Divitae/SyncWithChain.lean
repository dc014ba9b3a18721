/-
# `SyncWithChain` — the pool of future mints is caught up with the chain

`SyncWithChain` looks for the coins of the pool in the zerocoin database, in rounds.  A mint that
is recorded there is put into the tracker and taken out of the pool (`SetMintSeen`), and the next
round generates the twenty mints behind the last count that was used.  Rounds follow as long as
one ends with `found`:

    no transaction        `found` is cleared, the next mint is looked at
    no such mint in it    the round is broken off, with `found` cleared
    no block known        `pindex` is null
    any other             `found` is set, and `SetMintSeen` called, whatever comes of it

`GetTransaction` leaves `hashBlock` unset for a transaction of the memory pool.  The wallet is
locked where `seedMaster` is 0: then no mint is generated, and the coins that `SetMintSeen` makes
of a count are those of the seed 0.  A coin is the key of the pool, and is not met twice in a
round: `setChecked` is left out, and so are the transactions of the wallet.

Of the mints of a round, those in the tracker and those that `SetMintSeen` takes (`Seen`) leave the
pool; every other one stays as it is (`Visited`).

With a seed, the rounds end, and leave no recorded mint behind, if and only if each recorded mint
they meet is one of the two: each round but the last puts a coin into the tracker, and there are
finitely many coins.

A locked wallet takes none.  All its rounds meet the same mints, so what the first one finds
decides: if it ends with `found` there is no last one (`settles`).
-/
import Divitae.Lib.Loop
import Divitae.ZerocoinWallet

namespace Divitae

open List List.Subset

/-- `HasPubcoinHash`. -/
def ZerocoinWallet.HasPubcoin (w : ZerocoinWallet) (hashPubcoin : Int) : Bool :=
  (w.GetMetaFromPubcoin hashPubcoin).isSome

/-- `mintPool.Remove`. -/
def ZerocoinWallet.removeFromPool (w : ZerocoinWallet) (hashPubcoin : Int) : ZerocoinWallet :=
  { w with mintPool := w.mintPool.filter fun p => p.1 != hashPubcoin }

/-- What becomes of looking for a coin. -/
inductive CoinLookUp where
  | unrecorded
  | unfetched
  | unmatched
  | unplaced
  | found (nHeight : Int) (txHash : uint256) (denomination : CoinDenomination)

structure CSyncNode where
  Z : Zerocoin
  /-- the seed is `seedMaster` -/
  seed : MintSeed
  /-- `seedMaster` is not 0 -/
  unlocked : Bool
  ShutdownRequested : Bool
  /-- the transaction, and the height of `hashBlock` where the index has it -/
  GetTransaction : uint256 → Option (CTransaction × Option Int)
  /-- `List`: the pool by counts, which is a stable sort -/
  listPool : List (Int × Nat) → List (Int × Nat)
  listPool_perm : ∀ pool, (listPool pool).Perm pool
  listPool_filter : ∀ p pool, listPool (pool.filter p) = (listPool pool).filter p
  fGenerateMintPool : Bool

/-- The variables of a round. -/
structure SyncState where
  wallet : ZerocoinWallet
  nLastCountUsed : Nat
  found : Bool

namespace CSyncNode

variable (E : CSyncNode)

/-- The mint of a count, if the pool has none of this count; `map::insert` keeps what is there. -/
def addCount (pool : List (Int × Nat)) (i : Nat) : List (Int × Nat) :=
  let bnValue := (E.seed.SeedToZPIV i).1
  if pool.any fun p => p.2 == i then pool
  else if pool.any fun p => p.1 == bnValue then pool
  else pool ++ [(bnValue, i)]

/-- `GenerateMintPool`, with the arithmetic of `uint32_t`. -/
def GenerateMintPool (w : ZerocoinWallet) : ZerocoinWallet :=
  if !E.unlocked || E.ShutdownRequested then w
  else
    let n := (w.nCountLastUsed + 1) % 2 ^ 32
    let nStop := (n + 20) % 2 ^ 32
    { w with mintPool := (List.range' n (nStop - n)).foldl E.addCount w.mintPool }

def refill (w : ZerocoinWallet) : ZerocoinWallet :=
  if E.fGenerateMintPool then E.GenerateMintPool w else w

/-! ## A round -/

/-- The denomination of the mint in its transaction. -/
def findMint (bnValue : Int) (tx : CTransaction) : Option CoinDenomination :=
  (((tx.vout.filter CTxOut.IsZerocoinMint).filterMap (TxOutToPublicCoin E.Z)).find? fun pubcoin =>
    pubcoin.value == bnValue).bind fun pubcoin =>
      if pubcoin.denomination = .ZQ_ERROR then none else some pubcoin.denomination

def lookUp (bnValue : Int) : CoinLookUp :=
  match E.Z.ReadCoinMint bnValue with
  | none => .unrecorded
  | some txHash =>
    match E.GetTransaction txHash with
    | none => .unfetched
    | some (tx, nHeight) =>
      match E.findMint bnValue tx with
      | none => .unmatched
      | some denomination =>
        match nHeight with
        | none => .unplaced
        | some nHeight => .found nHeight txHash denomination

/-- One mint of the pool.  What returns is the wallet, or nothing for the null pointer. -/
def visitMint (s : SyncState) (pMint : Int × Nat) : SyncState ⊕ Option ZerocoinWallet :=
  if E.ShutdownRequested then .inr (some s.wallet)
  else if s.wallet.HasPubcoin pMint.1 then
    .inl { s with wallet := s.wallet.removeFromPool pMint.1 }
  else
    let nLastCountUsed := max pMint.2 s.nLastCountUsed
    match E.lookUp pMint.1 with
    | .unrecorded => .inl s
    | .unfetched => .inl { s with found := false, nLastCountUsed := nLastCountUsed }
    | .unmatched => .inr (some s.wallet)
    | .unplaced => .inr none
    | .found nHeight txHash denomination =>
      let wallet := s.wallet.SetMintSeen E.seed pMint.1 nHeight txHash denomination pMint.2
      .inl
        { wallet := { wallet with nCountLastUsed := max nLastCountUsed wallet.nCountLastUsed }
          nLastCountUsed := nLastCountUsed
          found := true }

/-- A round, from the wallet and `nLastCountUsed`. -/
def syncRound (st : ZerocoinWallet × Nat) :
    (ZerocoinWallet × Nat) ⊕ Option ZerocoinWallet :=
  let wallet := E.refill st.1
  match Loop.forEach E.visitMint ⟨wallet, st.2, false⟩ (E.listPool wallet.mintPool) with
  | .inr r => .inr r
  | .inl s => if s.found then .inl (s.wallet, s.nLastCountUsed) else .inr (some s.wallet)

/-- `SyncWithChain` ends, with this wallet or at the null pointer. -/
def SyncWithChain (w : ZerocoinWallet) (r : Option ZerocoinWallet) : Prop :=
  Loop.Returns E.syncRound (w, 0) r

end CSyncNode

def MintMap.Paired (serialOf : Int ↪ Int) (l : MintMap) : Prop :=
  ∀ mint ∈ l.entries, mint.hashSerial = serialOf mint.hashPubcoin

namespace MintMap

variable {serialOf : Int ↪ Int} {l : MintMap} {mint : CMintMeta} {v : Int}

def HasCoin (l : MintMap) (v : Int) : Prop := ∃ mint ∈ l.entries, mint.hashPubcoin = v

theorem coin_replaced (hmint : mint.hashSerial = serialOf mint.hashPubcoin) {m : CMintMeta}
    (hm : m.hashSerial = serialOf m.hashPubcoin) :
    (replaced mint m).hashPubcoin = m.hashPubcoin := by
  rw [replaced]
  split_ifs with h
  · exact serialOf.injective (by rw [← hmint, ← hm, h])
  · rfl

section
variable (hl : l.Paired serialOf) (hmint : mint.hashSerial = serialOf mint.hashPubcoin)
include hl hmint

theorem paired_set :
    (l.set mint).Paired serialOf := by
  intro m hm
  rw [set] at hm
  split_ifs at hm with h
  · obtain ⟨m₀, hm₀, rfl⟩ := mem_map.mp hm
    rw [serial_replaced, coin_replaced hmint (hl m₀ hm₀), hl m₀ hm₀]
  · rcases mem_append.mp hm with hm | hm
    · exact hl m hm
    · exact mem_singleton.mp hm ▸ hmint

theorem hasCoin_set :
    (l.set mint).HasCoin v ↔ l.HasCoin v ∨ v = mint.hashPubcoin := by
  rw [set]
  split_ifs with h
  · obtain ⟨m₁, hm₁, hserial⟩ := mem_map.mp h
    have hcoin : m₁.hashPubcoin = mint.hashPubcoin :=
      serialOf.injective (by rw [← hl m₁ hm₁, ← hmint, hserial])
    constructor
    · rintro ⟨m, hm, rfl⟩
      obtain ⟨m₀, hm₀, rfl⟩ := mem_map.mp hm
      exact .inl ⟨m₀, hm₀, (coin_replaced hmint (hl m₀ hm₀)).symm⟩
    · rintro (⟨m, hm, rfl⟩ | rfl)
      · exact ⟨_, mem_map_of_mem hm, coin_replaced hmint (hl m hm)⟩
      · exact ⟨_, mem_map_of_mem hm₁, (coin_replaced hmint (hl m₁ hm₁)).trans hcoin⟩
  · constructor
    · rintro ⟨m, hm, rfl⟩
      rcases mem_append.mp hm with hm | hm
      · exact .inl ⟨m, hm, rfl⟩
      · exact .inr (by rw [mem_singleton.mp hm])
    · rintro (⟨m, hm, rfl⟩ | rfl)
      · exact ⟨m, mem_append_left _ hm, rfl⟩
      · exact ⟨mint, mem_append_right _ mem_cons_self, rfl⟩

end

end MintMap

def ZerocoinWallet.Tracks (w : ZerocoinWallet) (v : Int) : Prop := w.mapSerialHashes.HasCoin v

theorem ZerocoinWallet.hasPubcoin_iff {w : ZerocoinWallet} {v : Int} :
    w.HasPubcoin v = true ↔ w.Tracks v := by
  rw [HasPubcoin, GetMetaFromPubcoin, List.find?_isSome]
  simp only [beq_iff_eq]
  rfl

namespace CSyncNode

variable (E : CSyncNode) {serialOf : Int ↪ Int} {w w' : ZerocoinWallet} {p : Int × Nat}
  {s s' : SyncState} {st : ZerocoinWallet × Nat} {r : Option ZerocoinWallet}

/-! ## A mint that is visited -/

def Recorded (bnValue : Int) : Prop := E.Z.ReadCoinMint bnValue ≠ none

def Found (bnValue : Int) : Prop :=
  ∃ nHeight txHash denomination, E.lookUp bnValue = .found nHeight txHash denomination

/-- The mint is found, and is the seed's: `SetMintSeen` takes it. -/
def Seen (p : Int × Nat) : Prop := E.Found p.1 ∧ (E.seed.SeedToZPIV p.2).1 = p.1

def Leaves (w : ZerocoinWallet) (p : Int × Nat) : Prop := w.Tracks p.1 ∨ E.Seen p

/-- What a visit makes of the wallet. -/
structure Visited (p : Int × Nat) (w w' : ZerocoinWallet) : Prop where
  tracks : ∀ v, w'.Tracks v ↔ w.Tracks v ∨ (v = p.1 ∧ E.Seen p)
  left : E.Leaves w p → w'.mintPool = w.mintPool.filter fun q => q.1 != p.1
  stays : ¬ E.Leaves w p → w'.mintPool = w.mintPool

def OwnSerials (serialOf : Int ↪ Int) : Prop :=
  ∀ n, (E.seed.SeedToZPIV n).2 = serialOf (E.seed.SeedToZPIV n).1

/-- A visit that leads on to the next mint. -/
structure Goes (serialOf : Int ↪ Int) (p : Int × Nat) (s s' : SyncState) : Prop where
  visited : E.Visited p s.wallet s'.wallet
  paired : s'.wallet.mapSerialHashes.Paired serialOf
  found : (s.wallet.Tracks p.1 ∧ s'.found = s.found) ∨ (¬ s.wallet.Tracks p.1 ∧
    ((E.lookUp p.1 = .unrecorded ∧ s'.found = s.found) ∨
      (E.lookUp p.1 = .unfetched ∧ s'.found = false) ∨ (E.Found p.1 ∧ s'.found = true)))

def Ends (p : Int × Nat) (s : SyncState) (r : Option ZerocoinWallet) : Prop :=
  (E.ShutdownRequested = true ∧ r = some s.wallet) ∨
    (¬ s.wallet.Tracks p.1 ∧ ((E.lookUp p.1 = .unmatched ∧ r = some s.wallet) ∨
      (E.lookUp p.1 = .unplaced ∧ r = none)))

variable {E}

theorem visited_same (htracked : ¬ w.Tracks p.1) (hseen : ¬ E.Seen p) : E.Visited p w w where
  tracks _ := (or_iff_left fun h => hseen h.2).symm
  left h := absurd h (not_or.mpr ⟨htracked, hseen⟩)
  stays _ := rfl

theorem visited_tracked (h : w.Tracks p.1) : E.Visited p w (w.removeFromPool p.1) where
  tracks _ := (or_iff_left_of_imp fun hv => hv.1 ▸ h).symm
  left _ := rfl
  stays hstays := absurd (.inl h) hstays

theorem visited_seen (hserials : E.OwnSerials serialOf) (hw : w.mapSerialHashes.Paired serialOf)
    (htracked : ¬ w.Tracks p.1) {nHeight : Int} {txHash : uint256}
    {denomination : CoinDenomination}
    (hlookUp : E.lookUp p.1 = .found nHeight txHash denomination) :
    E.Visited p w (w.SetMintSeen E.seed p.1 nHeight txHash denomination p.2) ∧
      (w.SetMintSeen E.seed p.1 nHeight txHash denomination p.2).mapSerialHashes.Paired
        serialOf := by
  rw [ZerocoinWallet.SetMintSeen]
  split_ifs with hcoin
  · exact ⟨visited_same htracked fun hseen => hcoin hseen.2, hw⟩
  · have hcoin := not_not.mp hcoin
    have hserial := hcoin ▸ hserials p.2
    refine ⟨⟨fun v => ?_, fun _ => rfl, fun h => absurd (.inr ⟨⟨_, _, _, hlookUp⟩, hcoin⟩) h⟩,
      MintMap.paired_set hw hserial⟩
    refine (MintMap.hasCoin_set hw hserial).trans (or_congr Iff.rfl ?_)
    exact (and_iff_left ⟨⟨_, _, _, hlookUp⟩, hcoin⟩).symm

/-- **A visit**, by what the lookup finds. -/
theorem visitMint_cases (hserials : E.OwnSerials serialOf) (p : Int × Nat)
    (hw : s.wallet.mapSerialHashes.Paired serialOf) :
    (∃ s', E.visitMint s p = .inl s' ∧ E.ShutdownRequested = false ∧ E.Goes serialOf p s s') ∨
      ∃ r, E.visitMint s p = .inr r ∧ E.Ends p s r := by
  rw [visitMint]
  split_ifs with hshutdown htracked
  · exact .inr ⟨_, rfl, .inl ⟨hshutdown, rfl⟩⟩
  · have htracked := ZerocoinWallet.hasPubcoin_iff.mp htracked
    exact .inl ⟨_, rfl, eq_false_of_ne_true hshutdown, visited_tracked htracked, hw,
      .inl ⟨htracked, rfl⟩⟩
  · have hno : ¬ s.wallet.Tracks p.1 := fun h => htracked (ZerocoinWallet.hasPubcoin_iff.mpr h)
    have hunseen : ¬ E.Found p.1 → E.Visited p s.wallet s.wallet :=
      fun h => visited_same hno fun hseen => h hseen.1
    cases hlookUp : E.lookUp p.1 with
    | unrecorded =>
      exact .inl ⟨_, rfl, eq_false_of_ne_true hshutdown, hunseen (by simp [Found, hlookUp]), hw,
        .inr ⟨hno, .inl ⟨hlookUp, rfl⟩⟩⟩
    | unfetched =>
      exact .inl ⟨_, rfl, eq_false_of_ne_true hshutdown, hunseen (by simp [Found, hlookUp]), hw,
        .inr ⟨hno, .inr (.inl ⟨hlookUp, rfl⟩)⟩⟩
    | unmatched => exact .inr ⟨_, rfl, .inr ⟨hno, .inl ⟨hlookUp, rfl⟩⟩⟩
    | unplaced => exact .inr ⟨_, rfl, .inr ⟨hno, .inr ⟨hlookUp, rfl⟩⟩⟩
    | found nHeight txHash denomination =>
      obtain ⟨hvisited, hpaired⟩ := visited_seen hserials hw hno hlookUp
      exact .inl ⟨_, rfl, eq_false_of_ne_true hshutdown,
        ⟨hvisited.tracks, hvisited.left, hvisited.stays⟩, hpaired,
        .inr ⟨hno, .inr (.inr ⟨⟨_, _, _, hlookUp⟩, rfl⟩)⟩⟩

/-! ## The pool is filled up -/

/-- What the counts add to the pool. -/
structure Filled (E : CSyncNode) (pool pool' : List (Int × Nat)) : Prop where
  sub : pool ⊆ pool'
  nodup : (pool.map Prod.fst).Nodup → (pool'.map Prod.fst).Nodup
  new : ∀ q ∈ pool', q ∈ pool ∨ ∃ n < 2 ^ 32, (E.seed.SeedToZPIV n).1 = q.1

theorem Filled.refl (pool : List (Int × Nat)) : Filled E pool pool :=
  ⟨List.Subset.refl _, id, fun _ hq => .inl hq⟩

theorem Filled.trans {pool pool' pool'' : List (Int × Nat)} (h : Filled E pool pool')
    (h' : Filled E pool' pool'') : Filled E pool pool'' where
  sub := List.Subset.trans h.sub h'.sub
  nodup := h'.nodup ∘ h.nodup
  new q hq := (h'.new q hq).elim (h.new q) .inr

theorem filled_addCount (pool : List (Int × Nat)) {i : Nat} (hi : i < 2 ^ 32) :
    Filled E pool (E.addCount pool i) := by
  rw [addCount]
  split_ifs with hcount hcoin
  · exact Filled.refl pool
  · exact Filled.refl pool
  · refine ⟨subset_append_left _ _, fun hnodup => ?_, fun q hq => ?_⟩
    · rw [map_append, map_singleton, nodup_append]
      refine ⟨hnodup, nodup_singleton _, ?_⟩
      rintro a ha b hb rfl
      obtain ⟨q, hq, rfl⟩ := mem_map.mp ha
      exact hcoin (any_eq_true.mpr ⟨q, hq, beq_iff_eq.mpr (mem_singleton.mp hb)⟩)
    · rcases mem_append.mp hq with hq | hq
      · exact .inl hq
      · exact .inr ⟨i, hi, by rw [mem_singleton.mp hq]⟩

theorem filled_refill (w : ZerocoinWallet) : Filled E w.mintPool (E.refill w).mintPool := by
  rw [refill, GenerateMintPool]
  split_ifs
  · exact Filled.refl _
  · refine List.foldlRecOn _ _ (Filled.refl w.mintPool) fun pool hpool i hi =>
      hpool.trans (filled_addCount pool ?_)
    have hi := mem_range'_1.mp hi
    have hstop := Nat.mod_lt ((w.nCountLastUsed + 1) % 2 ^ 32 + 20) (Nat.two_pow_pos 32)
    omega
  · exact Filled.refl _

theorem refill_map (E : CSyncNode) (w : ZerocoinWallet) :
    (E.refill w).mapSerialHashes = w.mapSerialHashes := by
  rw [refill, GenerateMintPool]
  split_ifs <;> rfl

theorem refill_locked (h : E.unlocked = false) (w : ZerocoinWallet) : E.refill w = w := by
  rw [refill, GenerateMintPool, h, ite_eq_right_iff]
  exact fun _ => if_pos rfl

theorem lookUp_unrecorded {v : Int} : E.lookUp v = .unrecorded ↔ ¬ E.Recorded v := by
  rw [Recorded, not_not, lookUp]
  repeat' split
  all_goals simp_all

theorem recorded_of_lookUp {v : Int} {o : CoinLookUp} (h : E.lookUp v = o)
    (ho : o ≠ .unrecorded) : E.Recorded v := by
  by_contra hun
  exact ho (h.symm.trans (lookUp_unrecorded.mpr hun))

/-! ## Rounds -/

theorem syncRound_inv {K : ZerocoinWallet → Prop} {G : Option ZerocoinWallet → Prop}
    (hstart : K (E.refill st.1))
    (hvisit : ∀ q ∈ (E.refill st.1).mintPool, ∀ s, K s.wallet →
      (∃ s', E.visitMint s q = .inl s' ∧ K s'.wallet) ∨ ∃ r, E.visitMint s q = .inr r ∧ G r)
    (hend : ∀ w', K w' → G (some w')) :
    (∃ st', E.syncRound st = .inl st' ∧ K st'.1) ∨ ∃ r, E.syncRound st = .inr r ∧ G r := by
  have hround := @Loop.forEach_inv _ _ _ E.visitMint ⟨E.refill st.1, st.2, false⟩
    (fun _ s => K s.wallet) G [] (E.listPool (E.refill st.1).mintPool)
    (fun _ q hq => hvisit q ((E.listPool_perm _).mem_iff.mp hq)) hstart
  simp only [syncRound]
  rcases hround with ⟨s, hall, hs⟩ | ⟨r, hreturned, hr⟩
  · rw [hall]
    by_cases hfound : s.found = true
    · exact .inl ⟨_, if_pos hfound, hs⟩
    · exact .inr ⟨_, if_neg hfound, hend _ hs⟩
  · rw [hreturned]
    exact .inr ⟨r, rfl, hr⟩

/-- The wallet's maps. -/
structure Owned (serialOf : Int ↪ Int) (w : ZerocoinWallet) : Prop where
  paired : w.mapSerialHashes.Paired serialOf
  nodup : (w.mintPool.map Prod.fst).Nodup

theorem Owned.refill (h : Owned serialOf w) : Owned serialOf (E.refill w) :=
  ⟨refill_map E w ▸ h.paired, (filled_refill w).nodup h.nodup⟩

theorem Goes.owned {q : Int × Nat} (h : E.Goes serialOf q s s') (hs : Owned serialOf s.wallet) :
    Owned serialOf s'.wallet := by
  refine ⟨h.paired, ?_⟩
  by_cases hleaves : E.Leaves s.wallet q
  · rw [h.visited.left hleaves]
    exact hs.nodup.sublist (filter_sublist.map _)
  · rw [h.visited.stays hleaves]
    exact hs.nodup

theorem owned_enters (hserials : E.OwnSerials serialOf) (hw : Owned serialOf w)
    (henters : Loop.Enters E.syncRound (w, 0) st) : Owned serialOf st.1 := by
  induction henters with
  | here => exact hw
  | next _ hbody ih =>
    have hround := @syncRound_inv E _ (Owned serialOf) (fun _ => True) ih.refill ?_
      fun _ _ => trivial
    rcases hround with ⟨st', hnext, hst'⟩ | ⟨r, hlast, -⟩
    · obtain rfl := Sum.inl.inj (hnext.symm.trans hbody)
      exact hst'
    · rw [hlast] at hbody
      cases hbody
    · intro q _ s hs
      rcases visitMint_cases hserials q hs.paired with ⟨s', hvisit, -, hgoes⟩ | ⟨r, hvisit, -⟩
      · exact .inl ⟨s', hvisit, hgoes.owned hs⟩
      · exact .inr ⟨r, hvisit, trivial⟩

/-! ## A wallet with a seed -/

/-- The recorded mints of the pool can be taken. -/
def Ready (w : ZerocoinWallet) : Prop :=
  ∀ p ∈ (E.refill w).mintPool, E.Recorded p.1 → E.ShutdownRequested = false ∧ E.Leaves w p

/-- In a round: some mints have been visited. -/
structure Catching (serialOf : Int ↪ Int) (w : ZerocoinWallet) (past : List (Int × Nat))
    (s : SyncState) : Prop where
  paired : s.wallet.mapSerialHashes.Paired serialOf
  tracks : ∀ v, w.Tracks v → s.wallet.Tracks v
  seen : ∀ p ∈ past, E.Seen p → s.wallet.Tracks p.1
  pool : s.wallet.mintPool ⊆ (E.refill w).mintPool
  left : ∀ p ∈ past, E.Leaves w p → ∀ q ∈ s.wallet.mintPool, q.1 ≠ p.1
  found : s.found = true → ∃ p ∈ past, E.Seen p ∧ ¬ w.Tracks p.1

/-- At its end. -/
structure Caught (serialOf : Int ↪ Int) (w w' : ZerocoinWallet) : Prop where
  paired : w'.mapSerialHashes.Paired serialOf
  tracks : ∀ v, w.Tracks v → w'.Tracks v
  recorded : ∀ p ∈ (E.refill w).mintPool, E.Recorded p.1 → w'.Tracks p.1
  pool : ∀ q ∈ w'.mintPool, q ∈ (E.refill w).mintPool ∧ ¬ E.Recorded q.1

variable {past : List (Int × Nat)}

theorem Visited.sub (h : E.Visited p w w') : w'.mintPool ⊆ w.mintPool := by
  by_cases hleaves : E.Leaves w p
  · rw [h.left hleaves]
    exact filter_subset_self _
  · rw [h.stays hleaves]
    exact refl _

theorem Catching.visit (hready : E.Ready w) (hp : p ∈ (E.refill w).mintPool)
    (hs : E.Catching serialOf w past s) (h : E.Goes serialOf p s s') :
    E.Catching serialOf w (past ++ [p]) s' := by
  have hsub := h.visited.sub
  have hmono : ∀ v, s.wallet.Tracks v → s'.wallet.Tracks v :=
    fun v hv => (h.visited.tracks v).mpr (.inl hv)
  refine ⟨h.paired, fun v hv => hmono v (hs.tracks v hv), ?_,
    List.Subset.trans hsub hs.pool, ?_, fun hfound => ?_⟩
  · rintro q hq hseen
    rcases mem_append.mp hq with hq | hq
    · exact hmono _ (hs.seen q hq hseen)
    · obtain rfl := mem_singleton.mp hq
      exact (h.visited.tracks _).mpr (.inr ⟨rfl, hseen⟩)
  · rintro q hq hleaves q' hq'
    rcases mem_append.mp hq with hq | hq
    · exact hs.left q hq hleaves q' (hsub hq')
    · obtain rfl := mem_singleton.mp hq
      rw [h.visited.left (hleaves.imp_left (hs.tracks _))] at hq'
      exact bne_iff_ne.mp (mem_filter.mp hq').2
  · have hbefore : s.found = true → ∃ q ∈ past ++ [p], E.Seen q ∧ ¬ w.Tracks q.1 :=
      fun hfound => by
        obtain ⟨q, hq, hseen⟩ := hs.found hfound
        exact ⟨q, mem_append_left _ hq, hseen⟩
    rcases h.found with ⟨-, heq⟩ | ⟨huntracked, ⟨-, heq⟩ | ⟨-, heq⟩ | ⟨⟨_, _, _, hlookUp⟩, -⟩⟩
    · exact hbefore (heq ▸ hfound)
    · exact hbefore (heq ▸ hfound)
    · exact absurd (heq.symm.trans hfound) Bool.false_ne_true
    · -- it is recorded, so it leaves, and it was not in the tracker
      have hno : ¬ w.Tracks p.1 := fun hv => huntracked (hs.tracks _ hv)
      have hrecorded : E.Recorded p.1 := recorded_of_lookUp hlookUp nofun
      exact ⟨p, mem_append_right _ mem_cons_self, (hready p hp hrecorded).2.resolve_left hno, hno⟩

/-- **A round**, in which the recorded mints can be taken. -/
theorem syncRound_caught (hserials : E.OwnSerials serialOf)
    (hw : st.1.mapSerialHashes.Paired serialOf) (hready : E.Ready st.1) :
    ∃ w', E.Caught serialOf st.1 w' ∧ (E.syncRound st = .inr (some w') ∨
      ∃ n, E.syncRound st = .inl (w', n) ∧
        ∃ p ∈ (E.refill st.1).mintPool, w'.Tracks p.1 ∧ ¬ st.1.Tracks p.1) := by
  have hmem : ∀ p, p ∈ E.listPool (E.refill st.1).mintPool ↔ p ∈ (E.refill st.1).mintPool :=
    fun p => (E.listPool_perm _).mem_iff
  have hround := @Loop.forEach_inv _ _ _ E.visitMint ⟨E.refill st.1, st.2, false⟩
    (E.Catching serialOf st.1) (fun r => ∃ w', r = some w' ∧ E.Caught serialOf st.1 w') []
    (E.listPool (E.refill st.1).mintPool) ?_ ?_
  · rw [nil_append] at hround
    rcases hround with ⟨s, hall, hs⟩ | ⟨r, hreturned, w', rfl, hcaught⟩
    · have hcaught : E.Caught serialOf st.1 s.wallet := by
        refine ⟨hs.paired, hs.tracks, fun p hp hrecorded => ?_, fun q hq => ⟨hs.pool hq, ?_⟩⟩
        · exact (hready p hp hrecorded).2.elim (hs.tracks _) (hs.seen p ((hmem p).mpr hp))
        · intro hrecorded
          exact hs.left q ((hmem q).mpr (hs.pool hq)) (hready q (hs.pool hq) hrecorded).2 q hq rfl
      refine ⟨s.wallet, hcaught, ?_⟩
      simp only [syncRound, hall]
      split_ifs with hfound
      · obtain ⟨p, hp, hseen, hno⟩ := hs.found hfound
        exact .inr ⟨_, rfl, p, (hmem p).mp hp, hs.seen p hp hseen, hno⟩
      · exact .inl rfl
    · exact ⟨w', hcaught, .inl (by simp only [syncRound, hreturned])⟩
  · intro past p hp s hs
    have hp := (hmem p).mp hp
    rcases visitMint_cases hserials p hs.paired with ⟨s', hvisit, -, hgoes⟩ | ⟨r, hvisit, hends⟩
    · exact .inl ⟨s', hvisit, hs.visit hready hp hgoes⟩
    · refine .inr ⟨r, hvisit, ?_⟩
      rcases hends with ⟨hshutdown, rfl⟩ | ⟨huntracked, hlookUp⟩
      · -- nothing of the pool is recorded
        have hnone : ∀ q ∈ (E.refill st.1).mintPool, ¬ E.Recorded q.1 := fun q hq hrecorded =>
          Bool.false_ne_true ((hready q hq hrecorded).1.symm.trans hshutdown)
        exact ⟨_, rfl, hs.paired, hs.tracks, fun q hq hrecorded => absurd hrecorded (hnone q hq),
          fun q hq => ⟨hs.pool hq, hnone q (hs.pool hq)⟩⟩
      · -- such a mint would be recorded, and could not be taken
        exfalso
        have hrecorded : E.Recorded p.1 := hlookUp.elim
          (fun h => recorded_of_lookUp h.1 nofun) fun h => recorded_of_lookUp h.1 nofun
        rcases (hready p hp hrecorded).2 with htracked | ⟨⟨_, _, _, hfound⟩, -⟩
        · exact huntracked (hs.tracks _ htracked)
        · rw [hfound] at hlookUp
          rcases hlookUp with ⟨h, -⟩ | ⟨h, -⟩ <;> cases h
  · refine ⟨?_, fun v hv => ?_, nofun, refl _,
      nofun, fun hfound => absurd hfound Bool.false_ne_true⟩
    · rwa [refill_map]
    · rwa [ZerocoinWallet.Tracks, refill_map]

/-- The coins that there are. -/
def Known (E : CSyncNode) (w : ZerocoinWallet) : Set Int :=
  Prod.fst '' {p | p ∈ w.mintPool} ∪ (fun n => (E.seed.SeedToZPIV n).1) '' Set.Iio (2 ^ 32)

theorem known_finite (E : CSyncNode) (w : ZerocoinWallet) : (E.Known w).Finite :=
  ((finite_toSet _).image _).union ((Set.finite_Iio _).image _)

/-- **The rounds end**, each but the last with a coin more in the tracker. -/
theorem SyncWithChain_ends (hserials : E.OwnSerials serialOf)
    (hw : w.mapSerialHashes.Paired serialOf)
    (hready : ∀ st, Loop.Enters E.syncRound (w, 0) st → E.Ready st.1) :
    ∃ r, E.SyncWithChain w r ∧ ∃ w', r = some w' ∧ ∀ q ∈ w'.mintPool, ¬ E.Recorded q.1 := by
  classical
  let tracked (st : ZerocoinWallet × Nat) : Finset Int :=
    (E.known_finite w).toFinset.filter st.1.Tracks
  refine @Loop.returns_of_climb _ _ E.syncRound (w, 0)
    (fun st => Loop.Enters E.syncRound (w, 0) st ∧ st.1.mapSerialHashes.Paired serialOf ∧
      ∀ p ∈ st.1.mintPool, p.1 ∈ E.Known w) _ (fun st => (tracked st).card) (fun _ => 0)
    (E.known_finite w).toFinset.card 0 ?_ ?_ ⟨.here, hw, fun p hp => .inl ⟨p, hp, rfl⟩⟩
  · rintro st ⟨henters, hpaired, hknown⟩
    have hfilled : ∀ p ∈ (E.refill st.1).mintPool, p.1 ∈ E.Known w := fun p hp =>
      ((filled_refill st.1).new p hp).elim (hknown p) fun ⟨n, hn, hcoin⟩ =>
        .inr ⟨n, hn, hcoin⟩
    obtain ⟨w', hcaught, hlast | ⟨n, hnext, p, hp, hnew, hold⟩⟩ :=
      syncRound_caught hserials hpaired (hready st henters)
    · exact .inl ⟨_, hlast, w', rfl, fun q hq => (hcaught.pool q hq).2⟩
    · refine .inr ⟨_, hnext, ⟨henters.next hnext, hcaught.paired,
        fun q hq => hfilled q (hcaught.pool q hq).1⟩, .inl (Finset.card_lt_card ?_)⟩
      have hmem := (E.known_finite w).mem_toFinset.mpr (hfilled p hp)
      refine Finset.ssubset_iff_subset_ne.mpr
        ⟨Finset.monotone_filter_right _ fun v _ => hcaught.tracks v, fun heq => ?_⟩
      have hin : p.1 ∈ tracked st := heq.symm ▸ Finset.mem_filter.mpr ⟨hmem, hnew⟩
      exact hold (Finset.mem_filter.mp hin).2
  · exact fun st _ => ⟨Finset.card_filter_le _ _, le_refl 0⟩

theorem SyncWithChain_tracks (hserials : E.OwnSerials serialOf) (hw : Owned serialOf w)
    (hready : ∀ st, Loop.Enters E.syncRound (w, 0) st → E.Ready st.1)
    (h : E.SyncWithChain w (some w')) (henters : Loop.Enters E.syncRound (w, 0) st)
    (hp : p ∈ (E.refill st.1).mintPool) (hrecorded : E.Recorded p.1) : w'.Tracks p.1 := by
  refine @Loop.returns_inv _ _ E.syncRound st (some w')
    (fun st => Loop.Enters E.syncRound (w, 0) st ∧ st.1.mapSerialHashes.Paired serialOf ∧
      (st.1.Tracks p.1 ∨ p ∈ (E.refill st.1).mintPool))
    (fun r => ∀ w', r = some w' → w'.Tracks p.1) ?_
    ⟨henters, (owned_enters hserials hw henters).paired, .inr hp⟩
    (henters.returns h) w' rfl
  rintro st ⟨henters, hpaired, hmet⟩
  obtain ⟨w'', hcaught, hround⟩ := syncRound_caught hserials hpaired (hready st henters)
  have htracks : w''.Tracks p.1 :=
    hmet.elim (hcaught.tracks p.1) fun hp => hcaught.recorded p hp hrecorded
  rcases hround with hlast | ⟨n, hnext, -⟩
  · exact .inr ⟨_, hlast, fun w' hw' => Option.some.inj hw' ▸ htracks⟩
  · exact .inl ⟨_, hnext, henters.next hnext, hcaught.paired, .inl htracks⟩

theorem SyncWithChain_keeps (hserials : E.OwnSerials serialOf) (hst : Owned serialOf st.1)
    (hp : p ∈ (E.refill st.1).mintPool)
    (hkept : E.ShutdownRequested = true ∨ ¬ E.Leaves st.1 p)
    (h : Loop.Returns E.syncRound st (some w')) : p ∈ w'.mintPool := by
  let Keeps (w : ZerocoinWallet) : Prop := Owned serialOf w ∧ p ∈ w.mintPool ∧
    (E.ShutdownRequested = true ∨ ¬ E.Leaves w p)
  have hrefill : ∀ w, (E.Leaves (E.refill w) p ↔ E.Leaves w p) := fun w => by
    rw [Leaves, Leaves, ZerocoinWallet.Tracks, refill_map, ZerocoinWallet.Tracks]
  refine @Loop.returns_inv _ _ E.syncRound st (some w') (fun st => Keeps (E.refill st.1))
    (fun r => ∀ w', r = some w' → p ∈ w'.mintPool) (fun st hst => ?_)
    ⟨hst.refill, hp, hkept.imp_right (mt (hrefill _).mp)⟩ h w' rfl
  have hround := syncRound_inv (K := Keeps) (G := fun r => ∀ w', r = some w' → p ∈ w'.mintPool)
    hst ?_ fun w hw _ heq => Option.some.inj heq ▸ hw.2.1
  rcases hround with ⟨st', hnext, hst'⟩ | hlast
  · exact .inl ⟨st', hnext, hst'.1.refill, (filled_refill _).sub hst'.2.1,
      hst'.2.2.imp_right (mt (hrefill _).mp)⟩
  · exact .inr hlast
  · rintro q hq s ⟨howned, hmem, hleaves⟩
    rcases visitMint_cases hserials q howned.paired with
      ⟨s', hvisit, hshutdown, hgoes⟩ | ⟨r, hvisit, hends⟩
    · have hno : ¬ E.Leaves s.wallet p :=
        hleaves.resolve_left fun h => Bool.false_ne_true (hshutdown.symm.trans h)
      -- the pool has one count of the coin
      have hne : E.Leaves s.wallet q → p.1 ≠ q.1 := fun hq' heq => by
        obtain rfl := inj_on_of_nodup_map hst.1.nodup hst.2.1 hq heq
        exact hno hq'
      refine .inl ⟨s', hvisit, hgoes.owned howned, ?_, .inr fun hgone => ?_⟩
      · by_cases hq' : E.Leaves s.wallet q
        · rw [hgoes.visited.left hq']
          exact mem_filter.mpr ⟨hmem, bne_iff_ne.mpr (hne hq')⟩
        · rwa [hgoes.visited.stays hq']
      · refine hno (hgone.imp_left fun htracked => ?_)
        rcases (hgoes.visited.tracks p.1).mp htracked with h | ⟨heq, hseen⟩
        · exact h
        · exact absurd heq (hne (.inr hseen))
    · refine .inr ⟨r, hvisit, ?_⟩
      rintro w' rfl
      rcases hends with ⟨-, heq⟩ | ⟨-, ⟨-, heq⟩ | ⟨-, heq⟩⟩
      · exact Option.some.inj heq ▸ hmem
      · exact Option.some.inj heq ▸ hmem
      · cases heq

/-! ## A locked wallet -/

/-- The round is the last, from `found` on. -/
def settles : List CoinLookUp → Bool → Bool
  | [], found => !found
  | .unrecorded :: l, found => settles l found
  | .unfetched :: l, _ => settles l false
  | .unmatched :: _, _ => true
  | .unplaced :: _, _ => false
  | .found .. :: l, _ => settles l true

/-- What is found of the mints that are not in the tracker. -/
def lookUps (E : CSyncNode) (w : ZerocoinWallet) (l : List (Int × Nat)) : List CoinLookUp :=
  (l.filter fun p => !w.HasPubcoin p.1).map fun p => E.lookUp p.1

/-- The wallets of its rounds differ in tracked mints of the pool. -/
structure Same (serialOf : Int ↪ Int) (w w' : ZerocoinWallet) : Prop where
  paired : w'.mapSerialHashes.Paired serialOf
  tracks : ∀ v, w'.Tracks v ↔ w.Tracks v
  sub : w'.mintPool ⊆ w.mintPool
  pool : (w'.mintPool.filter fun p => !w.HasPubcoin p.1) =
    w.mintPool.filter fun p => !w.HasPubcoin p.1

variable {w₁ : ZerocoinWallet}

theorem Same.visit (h : Same serialOf w s.wallet) (hseen : ¬ E.Seen p)
    (hgoes : E.Goes serialOf p s s') : Same serialOf w s'.wallet := by
  refine ⟨hgoes.paired, fun v => ?_, List.Subset.trans hgoes.visited.sub h.sub, ?_⟩
  · rw [hgoes.visited.tracks, or_iff_left fun hv => hseen hv.2, h.tracks]
  · by_cases htracked : w.Tracks p.1
    · rw [hgoes.visited.left (Or.inl ((h.tracks _).mpr htracked)), filter_filter, ← h.pool]
      refine filter_congr fun q _ => ?_
      by_cases hq : q.1 = p.1
      · rw [hq, ZerocoinWallet.hasPubcoin_iff.mpr htracked]
        rfl
      · rw [bne_iff_ne.mpr hq, Bool.and_true]
    · rw [hgoes.visited.stays fun hleaves => hleaves.elim (mt (h.tracks _).mp htracked) hseen,
        h.pool]

section
variable (hserials : E.OwnSerials serialOf)
include hserials

theorem forEach_settles (hshutdown : E.ShutdownRequested = false)
    (hs : Same serialOf w s.wallet) {l : List (Int × Nat)} (hl : ∀ p ∈ l, ¬ E.Seen p) :
    (∃ s', Loop.forEach E.visitMint s l = .inl s' ∧ Same serialOf w s'.wallet ∧
        settles (E.lookUps w l) s.found = !s'.found) ∨
      ∃ r, Loop.forEach E.visitMint s l = .inr r ∧ settles (E.lookUps w l) s.found = r.isSome := by
  induction l generalizing s with
  | nil => exact .inl ⟨s, rfl, hs, rfl⟩
  | cons p l ih =>
    have htracks : w.HasPubcoin p.1 = true ↔ s.wallet.Tracks p.1 :=
      ZerocoinWallet.hasPubcoin_iff.trans (hs.tracks p.1).symm
    have hpast : s.wallet.Tracks p.1 → E.lookUps w (p :: l) = E.lookUps w l := fun h => by
      rw [lookUps, filter_cons, htracks.mpr h]
      rfl
    have hnext : ¬ s.wallet.Tracks p.1 →
        E.lookUps w (p :: l) = E.lookUp p.1 :: E.lookUps w l := fun h => by
      rw [lookUps, filter_cons, eq_false_of_ne_true (mt htracks.mp h)]
      rfl
    rcases visitMint_cases hserials p hs.paired with ⟨s', hvisit, -, hgoes⟩ | ⟨r, hvisit, hends⟩
    · have hsettles : settles (E.lookUps w (p :: l)) s.found =
          settles (E.lookUps w l) s'.found := by
        rcases hgoes.found with ⟨htracked, heq⟩ |
          ⟨huntracked, ⟨hlookUp, heq⟩ | ⟨hlookUp, heq⟩ | ⟨⟨_, _, _, hlookUp⟩, heq⟩⟩
        · rw [hpast htracked, heq]
        all_goals rw [hnext huntracked, hlookUp, heq, settles]
      rw [Loop.forEach_inl hvisit, hsettles]
      exact ih (hs.visit (hl p mem_cons_self) hgoes) fun q hq => hl q (mem_cons_of_mem p hq)
    · refine .inr ⟨r, Loop.forEach_inr hvisit l, ?_⟩
      rcases hends with ⟨hrequested, -⟩ | ⟨huntracked, ⟨hlookUp, rfl⟩ | ⟨hlookUp, rfl⟩⟩
      · exact absurd (hshutdown.symm.trans hrequested) Bool.false_ne_true
      · rw [hnext huntracked, hlookUp, settles, Option.isSome_some]
      · rw [hnext huntracked, hlookUp, settles, Option.isSome_none]

/-- **All rounds of a locked wallet are alike.** -/
theorem syncRound_settles (hshutdown : E.ShutdownRequested = false) (hlocked : E.unlocked = false)
    (hunseen : ∀ p ∈ w.mintPool, ¬ E.Seen p) (hst : Same serialOf w st.1) :
    (∃ st', E.syncRound st = .inl st' ∧ Same serialOf w st'.1 ∧
        settles (E.lookUps w (E.listPool w.mintPool)) false = false) ∨
      ∃ r, E.syncRound st = .inr r ∧
        settles (E.lookUps w (E.listPool w.mintPool)) false = r.isSome := by
  have hlookUps : E.lookUps w (E.listPool st.1.mintPool) = E.lookUps w (E.listPool w.mintPool) := by
    rw [lookUps, lookUps, ← E.listPool_filter, ← E.listPool_filter, hst.pool]
  have hmints := @forEach_settles E serialOf w ⟨st.1, st.2, false⟩ hserials hshutdown hst
    (E.listPool st.1.mintPool) fun p hp => hunseen p (hst.sub ((E.listPool_perm _).mem_iff.mp hp))
  simp only [syncRound, refill_locked hlocked]
  rw [← hlookUps]
  rcases hmints with ⟨s', hall, hs', hsettles⟩ | ⟨r, hreturned, hsettles⟩
  · rw [hall, hsettles]
    cases hfound : s'.found with
    | true => exact .inl ⟨_, if_pos hfound, hs', rfl⟩
    | false => exact .inr ⟨some s'.wallet, if_neg (by rw [hfound]; exact Bool.false_ne_true), rfl⟩
  · rw [hreturned]
    exact .inr ⟨r, rfl, hsettles⟩

/-- **A locked wallet** ends its rounds if a shutdown is requested, or in the first one. -/
theorem SyncWithChain_locked (hw : w.mapSerialHashes.Paired serialOf) (hlocked : E.unlocked = false)
    (hunseen : ∀ p ∈ w.mintPool, ¬ E.Seen p) :
    (∃ w', E.SyncWithChain w (some w')) ↔ E.ShutdownRequested = true ∨
      settles (E.lookUps w (E.listPool w.mintPool)) false = true := by
  have hself : Same serialOf w w := ⟨hw, fun _ => Iff.rfl, refl _, rfl⟩
  cases hshutdown : E.ShutdownRequested with
  | true =>
    refine iff_of_true ?_ (.inl rfl)
    have hround : E.syncRound (w, 0) = .inr (some w) := by
      simp only [syncRound, refill_locked hlocked]
      cases E.listPool w.mintPool with
      | nil => rfl
      | cons p l => rw [Loop.forEach_inr (by rw [visitMint, if_pos hshutdown])]
    exact ⟨w, (Loop.returns_inr hround).mpr rfl⟩
  | false =>
    have hround := fun st => @syncRound_settles E serialOf w st
    constructor
    · rintro ⟨w', hreturns⟩
      refine .inr ?_
      by_contra hloops
      have hnone := @Loop.returns_inv _ _ E.syncRound (w, 0) (some w')
        (fun st => Same serialOf w st.1) (fun r => r.isSome = false) (fun st hst => ?_)
        hself hreturns
      · exact Bool.false_ne_true hnone.symm
      · rcases hround st hserials hshutdown hlocked hunseen hst with
          ⟨st', hnext, hst', -⟩ | ⟨r, hlast, hr⟩
        · exact .inl ⟨st', hnext, hst'⟩
        · exact .inr ⟨r, hlast, hr.symm.trans (eq_false_of_ne_true hloops)⟩
    · rintro (hrequested | hsettles)
      · cases hrequested
      · rcases hround (w, 0) hserials hshutdown hlocked hunseen hself with
          ⟨_, -, -, hloops⟩ | ⟨r, hlast, hr⟩
        · exact absurd (hloops.symm.trans hsettles) Bool.false_ne_true
        · obtain ⟨w', rfl⟩ := Option.isSome_iff_exists.mp (hr.symm.trans hsettles)
          exact ⟨w', (Loop.returns_inr hlast).mpr rfl⟩

end

/-- The call ends.  A wallet with a seed has each recorded mint of its rounds in the tracker then,
and not in the pool. -/
def Synced (E : CSyncNode) (w : ZerocoinWallet) : Prop :=
  ∃ w', E.SyncWithChain w (some w') ∧ (E.unlocked = true →
    ∀ st, Loop.Enters E.syncRound (w, 0) st → ∀ p ∈ (E.refill st.1).mintPool, E.Recorded p.1 →
      w'.HasPubcoin p.1 = true ∧ p.1 ∉ w'.mintPool.map Prod.fst)

/-- **Caught up with the chain**: with a seed, where the recorded mints of each round can be taken;
without one, where the mints of the pool settle it.  The coins of the seed 0 are not in the
pool. -/
theorem SyncWithChain_synced_iff (hserials : E.OwnSerials serialOf) (hw : Owned serialOf w)
    (hzero : E.unlocked = false → ∀ p ∈ w.mintPool, (E.seed.SeedToZPIV p.2).1 ≠ p.1) :
    E.Synced w ↔
      (E.unlocked = true → ∀ st, Loop.Enters E.syncRound (w, 0) st → E.Ready st.1) ∧
      (E.unlocked = false → E.ShutdownRequested = true ∨
        settles (E.lookUps w (E.listPool w.mintPool)) false = true) := by
  cases hunlocked : E.unlocked with
  | false =>
    have hlocked := SyncWithChain_locked hserials hw.paired hunlocked fun p hp hseen =>
      hzero hunlocked p hp hseen.2
    constructor
    · rintro ⟨w', hreturns, -⟩
      exact ⟨nofun, fun _ => hlocked.mp ⟨w', hreturns⟩⟩
    · rintro ⟨-, hsettles⟩
      obtain ⟨w', hreturns⟩ := hlocked.mpr (hsettles rfl)
      exact ⟨w', hreturns, fun h => absurd (hunlocked.symm.trans h) Bool.false_ne_true⟩
  | true =>
    constructor
    · rintro ⟨w', hreturns, hclean⟩
      refine ⟨fun _ st henters p hp hrecorded => ?_, nofun⟩
      by_contra hnot
      have hkept := SyncWithChain_keeps hserials (owned_enters hserials hw henters) hp ?_
        (henters.returns hreturns)
      · exact (hclean hunlocked st henters p hp hrecorded).2 (mem_map_of_mem hkept)
      · cases hshutdown : E.ShutdownRequested with
        | true => exact .inl rfl
        | false => exact .inr fun hleaves => hnot ⟨hshutdown, hleaves⟩
    · rintro ⟨hready, -⟩
      obtain ⟨r, hreturns, w', rfl, hpool⟩ := SyncWithChain_ends hserials hw.paired (hready rfl)
      refine ⟨w', hreturns, fun _ st henters p hp hrecorded => ⟨?_, fun hin => ?_⟩⟩
      · exact ZerocoinWallet.hasPubcoin_iff.mpr
          (SyncWithChain_tracks hserials hw (hready rfl) hreturns henters hp hrecorded)
      · obtain ⟨q, hq, hcoin⟩ := mem_map.mp hin
        exact hpool q hq (hcoin ▸ hrecorded)

end CSyncNode

/-! ## For example -/

def lockedNode : CSyncNode where
  Z :=
    { TxInToZerocoinSpend := fun _ => none
      mintValue := fun _ => 7
      validate := fun _ => true
      Verify := fun _ => true
      HasValidSignature := fun _ => true
      HasValidSerial := fun _ _ => true
      ReadCoinSpend := fun _ => none
      ReadCoinMint := fun v => if v = 7 then some 70 else none }
  seed := ⟨fun n => (n + 100, n + 100), 0, fun _ => 0, fun _ => false⟩
  unlocked := false
  ShutdownRequested := false
  GetTransaction _ := some (⟨70, 1, [], [⟨COIN, [OP_ZEROCOINMINT]⟩], 0⟩, some 500)
  listPool := id
  listPool_perm _ := List.Perm.refl _
  listPool_filter _ _ := rfl
  fGenerateMintPool := true

def lockedWallet : ZerocoinWallet where
  mapSerialHashes := ⟨[], nodup_nil⟩
  mapPendingSpends _ := none
  deterministicMints _ := none
  deterministicOrphans _ := none
  zerocoinMints _ := none
  mintPool := [(7, 1)]
  nCountLastUsed := 1

/-- The rounds of the locked wallet go on as soon as the mint is in the chain. -/
theorem lockedWallet_synced_iff :
    lockedNode.Synced lockedWallet ↔
      (lockedNode.unlocked = true → ∀ st,
        Loop.Enters lockedNode.syncRound (lockedWallet, 0) st → lockedNode.Ready st.1) ∧
      (lockedNode.unlocked = false → lockedNode.ShutdownRequested = true ∨
        CSyncNode.settles
          (lockedNode.lookUps lockedWallet (lockedNode.listPool lockedWallet.mintPool)) false =
          true) :=
  CSyncNode.SyncWithChain_synced_iff
    (show lockedNode.OwnSerials (Function.Embedding.refl Int) from fun _ => rfl)
    ⟨nofun, nodup_singleton _⟩
    fun _ p hp => by
      rw [mem_singleton.mp hp]
      decide

theorem lockedWallet_loops (r : Option ZerocoinWallet) :
    ¬ lockedNode.SyncWithChain lockedWallet r := by
  have hfirst : lockedNode.syncRound (lockedWallet, 0) = .inl (lockedWallet, 1) := rfl
  have hsecond : lockedNode.syncRound (lockedWallet, 1) = .inl (lockedWallet, 1) := rfl
  rw [CSyncNode.SyncWithChain, Loop.returns_inl hfirst]
  exact Loop.not_returns_of_stays hsecond r

/-- It does not end. -/
theorem lockedWallet_not_synced : ¬ lockedNode.Synced lockedWallet := by
  rintro ⟨w', hreturns, -⟩
  exact lockedWallet_loops _ hreturns

end Divitae
