/-
# `CoinsCache` — the caches over the coin database

`CCoinsViewCache` of `coins.cpp`.  A cache lies over another one or over a base view, and pulls
up what it is asked for.  Only the uppermost cache is worked on; `Flush` writes its entries to
what it lies over with `BatchWrite`, and clears it.

The coins in a cache and in a base have been through `Cleanup`, which a modifier does when it
goes out of scope and reading from disk does too.

Whatever is asked of a stack of caches and done to it, the uppermost cache answers as a plain
map of unpruned coins would that has seen the same modifications, no assertion fails on the way,
and when all caches are flushed the base is that map.

One thing has to be kept to.  Coins without outputs are equal for the source whatever else they
hold, and a cache may still hold what is left of them when the map has nothing; so a modification
must not make anything of it (`CoinsOp.Regular`).
-/
import Mathlib.Data.List.AList
import Divitae.Coins
import Divitae.Lib.WriteBack

namespace Divitae

open WriteBack Function AList

namespace CCoins

theorem Cleanup_Cleanup (c : CCoins) : c.Cleanup.Cleanup = c.Cleanup :=
  congrArg (fun vout => { c with vout := vout }) (List.rdropWhile_idempotent CTxOut.IsNull c.vout)

end CCoins

abbrev CleanCoins := { c : CCoins // c.Cleanup = c }

def CCoins.cleaned (c : CCoins) : CleanCoins := ⟨c.Cleanup, c.Cleanup_Cleanup⟩

/-- `CCoins()`. -/
def CleanCoins.null : CleanCoins := ⟨.null, rfl⟩

def CleanCoins.IsPruned (c : CleanCoins) : Bool := c.1.IsPruned

/-- The coins with the flags `DIRTY` and `FRESH`. -/
abbrev CCoinsCacheEntry := Entry CleanCoins

abbrev CCoinsMap := AList fun _ : uint256 => CCoinsCacheEntry

/-- A base view.  It may answer with pruned coins, and need not write what is not dirty. -/
structure CCoinsBase (σ : Type) where
  GetCoins : σ → uint256 → Option CleanCoins
  BatchWrite : σ → CCoinsMap → uint256 → σ
  written : ∀ s mapCoins hashBlock,
    (∀ txid entry, mapCoins.lookup txid = some entry → entry.dirty = false →
      seen CleanCoins.IsPruned (some entry.val) = seen CleanCoins.IsPruned (GetCoins s txid)) →
    ∀ txid, seen CleanCoins.IsPruned (GetCoins (BatchWrite s mapCoins hashBlock) txid) =
      settled CleanCoins.IsPruned (mapCoins.lookup txid) (GetCoins s txid)

/-- A new entry for what the parent has answered.  It is fresh when the parent does not have
the coins, or only a pruned entry. -/
def entryOf (fetched : Option CleanCoins) : CCoinsCacheEntry :=
  match fetched with
  | none => ⟨.null, false, true⟩
  | some coins => ⟨coins, false, coins.IsPruned⟩

/-! ## One cache -/

structure CCoinsViewCache where
  cacheCoins : CCoinsMap
  hashBlock : uint256

namespace CCoinsViewCache

/-- `CCoinsViewCache(baseIn)`. -/
def new : CCoinsViewCache := ⟨∅, 0⟩

variable (cache : CCoinsViewCache)

/-- The entry, and its flags, behind a modification: the modifier has gone out of scope. -/
def modified (txid : uint256) (entry : CCoinsCacheEntry) (f : CCoins → CCoins) : CCoinsViewCache :=
  let coins := (f entry.val.1).cleaned
  { cache with
    cacheCoins :=
      if entry.fresh && coins.IsPruned then cache.cacheCoins.erase txid
      else cache.cacheCoins.insert txid ⟨coins, true, entry.fresh⟩ }

/-- One round of `BatchWrite`, on the entries of this cache; `none` where the assertion fails. -/
def batchWriteEntry (cacheCoins : CCoinsMap) (txid : uint256) (it : CCoinsCacheEntry) :
    Option CCoinsMap :=
  -- Ignore non-dirty entries (optimization).
  if !it.dirty then some cacheCoins
  else
    match cacheCoins.lookup txid with
    | none =>
      if it.val.IsPruned then some cacheCoins
      -- if the grandparent did have it, we would have pulled it in at first GetCoins
      else if it.fresh then some (cacheCoins.insert txid ⟨it.val, true, true⟩)
      else none
    | some itUs =>
      if itUs.fresh && it.val.IsPruned then some (cacheCoins.erase txid)
      else some (cacheCoins.insert txid ⟨it.val, true, itUs.fresh⟩)

def BatchWrite (mapCoins : CCoinsMap) (hashBlockIn : uint256) : Option CCoinsViewCache :=
  (mapCoins.entries.foldlM (fun cacheCoins it => batchWriteEntry cacheCoins it.1 it.2)
    cache.cacheCoins).map fun cacheCoins => ⟨cacheCoins, hashBlockIn⟩

/-- What `Flush` leaves. -/
def cleared : CCoinsViewCache := { cache with cacheCoins := ∅ }

end CCoinsViewCache

/-! ## A stack of caches -/

/-- The caches, the uppermost first, and the base. -/
structure CoinsStack (σ : Type) where
  layers : List CCoinsViewCache
  base : σ

section
variable {σ : Type} (B : CCoinsBase σ)

/-- `FetchCoins` of the uppermost cache, and what `GetCoins` answers. -/
def FetchCoins (base : σ) (txid : uint256) :
    List CCoinsViewCache → List CCoinsViewCache × Option CleanCoins
  | [] => ([], B.GetCoins base txid)
  | cache :: below =>
    match cache.cacheCoins.lookup txid with
    | some entry => (cache :: below, some entry.val)
    | none =>
      match FetchCoins base txid below with
      | (below, none) => (cache :: below, none)
      | (below, some coins) =>
        ({ cache with cacheCoins :=
          cache.cacheCoins.insert txid (entryOf (some coins)) } :: below,
          some coins)

/-- `Flush` of the uppermost `n` caches, one after the other. -/
def flushLayers (base : σ) : Nat → List CCoinsViewCache → Option (List CCoinsViewCache × σ)
  | 0, layers => some (layers, base)
  | _ + 1, [] => some ([], base)
  | _ + 1, [cache] => some ([cache.cleared], B.BatchWrite base cache.cacheCoins cache.hashBlock)
  | n + 1, cache :: parent :: below =>
    match parent.BatchWrite cache.cacheCoins cache.hashBlock with
    | none => none
    | some parent =>
      (flushLayers base n (parent :: below)).map fun flushed =>
        (cache.cleared :: flushed.1, flushed.2)

namespace CoinsStack

def start (base : σ) : CoinsStack σ := ⟨[.new], base⟩

variable (s : CoinsStack σ)

def GetCoins (txid : uint256) : CoinsStack σ × Option CleanCoins :=
  let fetched := FetchCoins B s.base txid s.layers
  ({ s with layers := fetched.1 }, fetched.2)

def HaveCoins (txid : uint256) : CoinsStack σ × Bool :=
  let fetched := s.GetCoins B txid
  (fetched.1, fetched.2.any fun coins => !coins.1.vout.isEmpty)

/-- `ModifyCoins`, with what is done to the coins before the modifier goes out of scope. -/
def ModifyCoins (txid : uint256) (f : CCoins → CCoins) : CoinsStack σ :=
  match s.layers with
  | [] => s
  | cache :: below =>
    match cache.cacheCoins.lookup txid with
    | some entry => { s with layers := cache.modified txid entry f :: below }
    | none =>
      let fetched := FetchCoins B s.base txid below
      { s with layers := cache.modified txid (entryOf fetched.2) f :: fetched.1 }

def SetBestBlock (hashBlockIn : uint256) : CoinsStack σ :=
  match s.layers with
  | [] => s
  | cache :: below => { s with layers := { cache with hashBlock := hashBlockIn } :: below }

def push : CoinsStack σ := { s with layers := .new :: s.layers }

def Flush (n : Nat) : Option (CoinsStack σ) :=
  (flushLayers B s.base n s.layers).map fun flushed => ⟨flushed.1, flushed.2⟩

/-- The uppermost cache is deleted; if there was one only a new one takes its place. -/
def pop : CoinsStack σ :=
  match s.layers with
  | _ :: cache :: below => { s with layers := cache :: below }
  | _ => { s with layers := [.new] }

end CoinsStack

inductive CoinsOp where
  | getCoins (txid : uint256)
  | haveCoins (txid : uint256)
  | modifyCoins (txid : uint256) (f : CCoins → CCoins)
  | setBestBlock (hashBlockIn : uint256)
  | push
  /-- the uppermost `n` caches -/
  | flush (n : Nat)
  /-- the uppermost cache, which is deleted then -/
  | flushAndPop

def coinsStep (s : CoinsStack σ) : CoinsOp → Option (CoinsStack σ)
  | .getCoins txid => some (s.GetCoins B txid).1
  | .haveCoins txid => some (s.HaveCoins B txid).1
  | .modifyCoins txid f => some (s.ModifyCoins B txid f)
  | .setBestBlock hashBlockIn => some (s.SetBestBlock hashBlockIn)
  | .push => some s.push
  | .flush n => s.Flush B n
  | .flushAndPop => (s.Flush B 1).map CoinsStack.pop

/-- A run; `none` when an assertion fails on the way. -/
def coinsRun (s : CoinsStack σ) (ops : List CoinsOp) : Option (CoinsStack σ) :=
  ops.foldlM (coinsStep B) s

end

/-- `CCoinsViewDB`, its records. -/
structure CCoinsViewDB where
  coins : uint256 → Option CleanCoins
  hashBestChain : uint256

namespace CCoinsViewDB

def BatchWriteCoins (batch : uint256 → Option CleanCoins) (hash : uint256) (coins : CleanCoins) :
    uint256 → Option CleanCoins :=
  Function.update batch hash (if coins.IsPruned then none else some coins)

def BatchWrite (db : CCoinsViewDB) (mapCoins : CCoinsMap) (hashBlock : uint256) : CCoinsViewDB where
  coins :=
    mapCoins.entries.foldl
      (fun batch it => if it.2.dirty then BatchWriteCoins batch it.1 it.2.val else batch) db.coins
  hashBestChain := if hashBlock ≠ 0 then hashBlock else db.hashBestChain

end CCoinsViewDB

/-! ## The plain map -/

/-- Unpruned coins by transaction. -/
abbrev CoinsMap := uint256 → Option CCoins

/-- What there is of coins. -/
def unpruned (coins : Option CleanCoins) : Option CCoins :=
  (seen CleanCoins.IsPruned coins).map Subtype.val

def coinsMapStep (m : CoinsMap) : CoinsOp → CoinsMap
  | .modifyCoins txid f =>
    Function.update m txid (unpruned (some (f ((m txid).getD .null)).cleaned))
  | _ => m

/-- A modification that makes the same of coins that are equal. -/
def CoinsOp.Regular : CoinsOp → Prop
  | .modifyCoins _ f => ∀ a b, CCoins.Same a b → CCoins.Same (f a) (f b)
  | _ => True

/-- What the caches have of a transaction, the uppermost first. -/
def column (layers : List CCoinsViewCache) (txid : uint256) : Column CleanCoins :=
  layers.map fun cache => cache.cacheCoins.lookup txid

section
variable {σ : Type} {B : CCoinsBase σ}

theorem column_length (layers : List CCoinsViewCache) (txid : uint256) :
    (column layers txid).length = layers.length := List.length_map _

theorem FetchCoins_spec (B : CCoinsBase σ) (base : σ) (txid : uint256) :
    ∀ layers : List CCoinsViewCache,
      (FetchCoins B base txid layers).2 = look (column layers txid) (B.GetCoins base txid) ∧
      column (FetchCoins B base txid layers).1 txid =
        fill CleanCoins.IsPruned (column layers txid) (B.GetCoins base txid) ∧
      ∀ other, other ≠ txid → column (FetchCoins B base txid layers).1 other = column layers other
  | [] => ⟨rfl, rfl, fun _ _ => rfl⟩
  | cache :: below => by
    obtain ⟨hlook, hfill, hother⟩ := FetchCoins_spec B base txid below
    have hcolumn : column (cache :: below) txid =
        cache.cacheCoins.lookup txid :: column below txid := rfl
    rw [FetchCoins, hcolumn]
    cases hentry : cache.cacheCoins.lookup txid with
    | some entry =>
      rw [hcolumn, hentry]
      exact ⟨rfl, rfl, fun _ _ => rfl⟩
    | none =>
      cases hfetched : FetchCoins B base txid below with
      | mk below' answer =>
      rw [hfetched] at hlook hfill hother
      cases answer with
      | none =>
        refine ⟨hlook, ?_, fun other hne => congrArg _ (hother other hne)⟩
        show cache.cacheCoins.lookup txid :: column below' txid =
          (look (column below txid) _).map _ :: fill _ (column below txid) _
        rw [hentry, hfill, ← hlook]
        rfl
      | some coins =>
        refine ⟨hlook, ?_, fun other hne => ?_⟩
        · show (cache.cacheCoins.insert txid _).lookup txid :: column below' txid =
            (look (column below txid) _).map _ :: fill _ (column below txid) _
          rw [lookup_insert, hfill, ← hlook]
          rfl
        · show (cache.cacheCoins.insert txid _).lookup other :: column below' other = _
          rw [lookup_insert_ne hne, hother other hne]
          rfl

theorem modified_lookup (cache : CCoinsViewCache) (txid : uint256) (entry : CCoinsCacheEntry)
    (f : CCoins → CCoins) :
    (cache.modified txid entry f).cacheCoins.lookup txid =
        put CleanCoins.IsPruned entry (f entry.val.1).cleaned ∧
      ∀ other, other ≠ txid →
        (cache.modified txid entry f).cacheCoins.lookup other = cache.cacheCoins.lookup other := by
  rw [CCoinsViewCache.modified, put]
  split_ifs
  · exact ⟨lookup_erase txid _, fun other hne => lookup_erase_ne hne⟩
  · exact ⟨lookup_insert _, fun other hne => lookup_insert_ne hne⟩

theorem ModifyCoins_spec (s : CoinsStack σ) (txid : uint256) (f : CCoins → CCoins) :
    (s.ModifyCoins B txid f).base = s.base ∧
    ((s.ModifyCoins B txid f).layers ≠ [] ↔ s.layers ≠ []) ∧
    column (s.ModifyCoins B txid f).layers txid =
      write CleanCoins.IsPruned .null (fun c => (f c.1).cleaned) (column s.layers txid)
        (B.GetCoins s.base txid) ∧
    ∀ other, other ≠ txid →
      column (s.ModifyCoins B txid f).layers other = column s.layers other := by
  obtain ⟨layers, base⟩ := s
  cases layers with
  | nil => exact ⟨rfl, Iff.rfl, rfl, fun _ _ => rfl⟩
  | cons cache below =>
    obtain ⟨hlook, hfill, hother⟩ := FetchCoins_spec B base txid below
    rw [CoinsStack.ModifyCoins]
    dsimp only
    have hcolumn : column (cache :: below) txid =
        cache.cacheCoins.lookup txid :: column below txid := rfl
    rw [hcolumn]
    cases hentry : cache.cacheCoins.lookup txid with
    | some entry =>
      obtain ⟨hown, hothers⟩ := modified_lookup cache txid entry f
      refine ⟨rfl, Iff.intro (fun _ => List.cons_ne_nil _ _) fun _ =>
        List.cons_ne_nil _ _, ?_, ?_⟩
      · show (cache.modified txid entry f).cacheCoins.lookup txid :: column below txid = _
        rw [hown]
        rfl
      · intro other hne
        show (cache.modified txid entry f).cacheCoins.lookup other :: column below other = _
        rw [hothers other hne]
        rfl
    | none =>
      dsimp only
      rw [hlook]
      have hstart : entryOf (look (column below txid) (B.GetCoins base txid)) =
          ((look (column below txid) (B.GetCoins base txid)).map
            (pulled CleanCoins.IsPruned)).getD ⟨.null, false, true⟩ := by
        cases look (column below txid) (B.GetCoins base txid) <;> rfl
      obtain ⟨hown, hothers⟩ := modified_lookup cache txid
        (((look (column below txid) (B.GetCoins base txid)).map
          (pulled CleanCoins.IsPruned)).getD ⟨.null, false, true⟩) f
      refine ⟨rfl, Iff.intro (fun _ => List.cons_ne_nil _ _) fun _ =>
        List.cons_ne_nil _ _, ?_, ?_⟩
      · show (cache.modified txid _ f).cacheCoins.lookup txid :: column _ txid = _
        rw [hstart, hown, hfill]
        rfl
      · intro other hne
        show (cache.modified txid _ f).cacheCoins.lookup other :: column _ other = _
        rw [hstart, hothers other hne, hother other hne]
        rfl

/-! ## Writing down -/

theorem batchWriteEntry_spec (cacheCoins : CCoinsMap) (txid : uint256) (it : CCoinsCacheEntry)
    {us : Option CCoinsCacheEntry}
    (h : merge CleanCoins.IsPruned (some it) (cacheCoins.lookup txid) = some us) :
    ∃ cacheCoins', CCoinsViewCache.batchWriteEntry cacheCoins txid it = some cacheCoins' ∧
      cacheCoins'.lookup txid = us ∧
      ∀ other, other ≠ txid → cacheCoins'.lookup other = cacheCoins.lookup other := by
  rw [CCoinsViewCache.batchWriteEntry]
  cases hdirty : it.dirty with
  | false =>
    rw [merge_clean hdirty] at h
    exact ⟨cacheCoins, rfl, Option.some.inj h, fun _ _ => rfl⟩
  | true =>
    cases hus : cacheCoins.lookup txid with
    | none =>
      rw [hus, merge, hdirty] at h
      cases hgone : it.val.IsPruned with
      | true =>
        rw [hgone] at h
        exact ⟨cacheCoins, rfl, hus.trans (Option.some.inj h), fun _ _ => rfl⟩
      | false =>
        rw [hgone] at h
        cases hfresh : it.fresh with
        | false =>
          rw [hfresh] at h
          cases h
        | true =>
          rw [hfresh] at h
          exact ⟨_, rfl, (lookup_insert _).trans (Option.some.inj h),
            fun other hne => lookup_insert_ne hne⟩
    | some itUs =>
      rw [hus, merge, hdirty] at h
      dsimp only
      cases hboth : itUs.fresh && it.val.IsPruned with
      | true =>
        rw [hboth] at h
        exact ⟨_, rfl, (lookup_erase txid _).trans (Option.some.inj h),
          fun other hne => lookup_erase_ne hne⟩
      | false =>
        rw [hboth] at h
        exact ⟨_, rfl, (lookup_insert _).trans (Option.some.inj h),
          fun other hne => lookup_insert_ne hne⟩

theorem batchWriteLoop_spec : ∀ (l : List (Sigma fun _ : uint256 => CCoinsCacheEntry))
    (cacheCoins : CCoinsMap), l.NodupKeys →
    (∀ txid, ∃ us, merge CleanCoins.IsPruned (l.dlookup txid) (cacheCoins.lookup txid) = some us) →
    ∃ cacheCoins', l.foldlM (fun cacheCoins it =>
        CCoinsViewCache.batchWriteEntry cacheCoins it.1 it.2) cacheCoins = some cacheCoins' ∧
      ∀ txid, merge CleanCoins.IsPruned (l.dlookup txid) (cacheCoins.lookup txid) =
        some (cacheCoins'.lookup txid)
  | [], cacheCoins, _, _ => ⟨cacheCoins, rfl, fun _ => rfl⟩
  | ⟨key, it⟩ :: l, cacheCoins, hnodup, hmerge => by
    obtain ⟨hnew, hl⟩ := List.nodupKeys_cons.mp hnodup
    obtain ⟨us, hus⟩ := hmerge key
    rw [List.dlookup_cons_eq] at hus
    obtain ⟨mid, hstep, hown, hother⟩ := batchWriteEntry_spec cacheCoins key it hus
    -- the key does not come again
    have hnone : l.dlookup key = none := List.dlookup_eq_none.mpr hnew
    have hrest : ∀ txid, ∃ us,
        merge CleanCoins.IsPruned (l.dlookup txid) (mid.lookup txid) = some us := by
      intro txid
      rcases eq_or_ne txid key with rfl | hne
      · rw [hnone]
        exact ⟨_, rfl⟩
      · obtain ⟨us', hus'⟩ := hmerge txid
        rw [List.dlookup_cons_ne _ _ hne] at hus'
        rw [hother txid hne]
        exact ⟨us', hus'⟩
    obtain ⟨last, hloop, hlast⟩ := batchWriteLoop_spec l mid hl hrest
    refine ⟨last, ?_, fun txid => ?_⟩
    · rw [List.foldlM_cons, hstep]
      exact hloop
    · rcases eq_or_ne txid key with rfl | hne
      · have hsame := hlast txid
        rw [hnone] at hsame
        rw [List.dlookup_cons_eq, hus, ← Option.some.inj hsame, hown]
      · rw [List.dlookup_cons_ne _ _ hne, ← hother txid hne]
        exact hlast txid

theorem BatchWrite_spec (cache : CCoinsViewCache) (mapCoins : CCoinsMap) (hashBlockIn : uint256)
    (hmerge : ∀ txid, ∃ us,
      merge CleanCoins.IsPruned (mapCoins.lookup txid) (cache.cacheCoins.lookup txid) = some us) :
    ∃ cache', cache.BatchWrite mapCoins hashBlockIn = some cache' ∧
      ∀ txid, merge CleanCoins.IsPruned (mapCoins.lookup txid) (cache.cacheCoins.lookup txid) =
        some (cache'.cacheCoins.lookup txid) := by
  obtain ⟨cacheCoins', hloop, hlast⟩ :=
    batchWriteLoop_spec mapCoins.entries cache.cacheCoins mapCoins.nodupKeys hmerge
  refine ⟨⟨cacheCoins', hashBlockIn⟩, ?_, hlast⟩
  rw [CCoinsViewCache.BatchWrite, hloop]
  rfl

def SoundLayers (B : CCoinsBase σ) (layers : List CCoinsViewCache) (base : σ) : Prop :=
  ∀ txid, Sound CleanCoins.IsPruned (column layers txid) (B.GetCoins base txid)

/-- What is seen of a transaction. -/
def shown (B : CCoinsBase σ) (layers : List CCoinsViewCache) (base : σ) (txid : uint256) :
    Option CleanCoins :=
  seen CleanCoins.IsPruned (look (column layers txid) (B.GetCoins base txid))

theorem empty_lookup (cache : CCoinsViewCache) (txid : uint256) :
    cache.cleared.cacheCoins.lookup txid = none := lookup_empty txid

/-- **Flushing does not show.** -/
theorem flushLayers_spec (B : CCoinsBase σ) : ∀ (n : Nat)
    (layers : List CCoinsViewCache) (base : σ),
    SoundLayers B layers base →
    ∃ layers' base', flushLayers B base n layers = some (layers', base') ∧
      SoundLayers B layers' base' ∧ layers'.length = layers.length ∧
      (∀ txid, shown B layers' base' txid = shown B layers base txid) ∧
      (layers.length ≤ n → ∀ txid, ∀ o ∈ column layers' txid, o = none)
  | 0, layers, base, h => by
    refine ⟨layers, base, rfl, h, rfl, fun _ => rfl, ?_⟩
    intro hlen txid o ho
    obtain rfl := List.length_eq_zero_iff.mp (Nat.le_zero.mp hlen)
    exact nomatch ho
  | n + 1, [], base, h =>
    ⟨[], base, rfl, h, rfl, fun _ => rfl, nofun⟩
  | n + 1, [cache], base, h => by
    have hempty : ∀ txid, ∀ o ∈ column [cache.cleared] txid, o = none := by
      intro txid o ho
      obtain rfl := List.mem_singleton.mp ho
      exact empty_lookup cache txid
    have hwritten := B.written base cache.cacheCoins cache.hashBlock (by
      intro txid entry hentry hclean
      have hcolumn := h txid
      have heq : column [cache] txid = [some entry] := congrArg (fun o => [o]) hentry
      rw [heq] at hcolumn
      exact hcolumn.1.clean hclean)
    refine ⟨[cache.cleared], B.BatchWrite base cache.cacheCoins cache.hashBlock, rfl,
      fun txid => sound_of_empty (hempty txid), rfl, fun txid => ?_, fun _ => hempty⟩
    rw [shown, look_of_empty (hempty txid), hwritten txid]
    exact Sound.settled (h txid)
  | n + 1, cache :: parent :: below, base, h => by
    have hmerge : ∀ txid, ∃ us, merge CleanCoins.IsPruned (cache.cacheCoins.lookup txid)
        (parent.cacheCoins.lookup txid) = some us := by
      intro txid
      obtain ⟨us, hus, -, -⟩ := Sound.merge (h txid)
      exact ⟨us, hus⟩
    obtain ⟨parent', hwrite, hlookup⟩ :=
      BatchWrite_spec parent cache.cacheCoins cache.hashBlock hmerge
    have hbelow : ∀ txid, Sound CleanCoins.IsPruned (column (parent' :: below) txid)
          (B.GetCoins base txid) ∧
        shown B (parent' :: below) base txid = shown B (cache :: parent :: below) base txid := by
      intro txid
      obtain ⟨us, hus, hsound, hseen⟩ := Sound.merge (h txid)
      have heq : parent'.cacheCoins.lookup txid = us :=
        Option.some.inj ((hlookup txid).symm.trans hus)
      have hcolumn : column (parent' :: below) txid = us :: column below txid :=
        congrArg (· :: column below txid) heq
      rw [shown, hcolumn]
      exact ⟨hsound, hseen⟩
    obtain ⟨layers', base', hflush, hsound, hlen, hshown, hall⟩ :=
      flushLayers_spec B n (parent' :: below) base fun txid => (hbelow txid).1
    have hcolumn : ∀ txid, column (cache.cleared :: layers') txid = none :: column layers' txid :=
      fun txid => congrArg (· :: column layers' txid) (empty_lookup cache txid)
    refine ⟨cache.cleared :: layers', base', ?_, fun txid => ?_, ?_, fun txid => ?_, ?_⟩
    · rw [flushLayers, hwrite]
      dsimp only
      rw [hflush]
      rfl
    · rw [hcolumn]
      exact hsound txid
    · exact congrArg (· + 1) hlen
    · rw [shown, hcolumn]
      exact (hshown txid).trans (hbelow txid).2
    · intro hle txid o ho
      rcases List.mem_cons.mp ho with rfl | ho
      · rfl
      · exact hall (Nat.le_of_succ_le_succ hle) txid o ho

/-! ## The invariant -/

/-- The stack shows the map. -/
structure Shows (B : CCoinsBase σ) (s : CoinsStack σ) (m : CoinsMap) : Prop where
  layers : s.layers ≠ []
  sound : SoundLayers B s.layers s.base
  seen : ∀ txid, (shown B s.layers s.base txid).map Subtype.val = m txid

theorem Shows.start (B : CCoinsBase σ) (base : σ) :
    Shows B (.start base) fun txid => unpruned (B.GetCoins base txid) where
  layers := List.cons_ne_nil _ _
  sound _ := trivial
  seen _ := rfl

variable {m : CoinsMap} {s : CoinsStack σ}

theorem Shows.fetched (h : Shows B s m) (txid : uint256) :
    Shows B (s.GetCoins B txid).1 m := by
  obtain ⟨-, hfill, hother⟩ := FetchCoins_spec B s.base txid s.layers
  have hcolumn : ∀ other, column (s.GetCoins B txid).1.layers other = column s.layers other ∨
      (other = txid ∧ column (s.GetCoins B txid).1.layers other =
        fill CleanCoins.IsPruned (column s.layers txid) (B.GetCoins s.base txid)) := by
    intro other
    rcases eq_or_ne other txid with rfl | hne
    · exact .inr ⟨rfl, hfill⟩
    · exact .inl (hother other hne)
  refine ⟨?_, fun other => ?_, fun other => ?_⟩
  · intro hnil
    have hlen : (column (s.GetCoins B txid).1.layers txid).length = (column s.layers txid).length :=
      (congrArg List.length hfill).trans (length_fill CleanCoins.IsPruned _ _)
    rw [column_length, column_length, hnil] at hlen
    exact h.layers (List.length_eq_zero_iff.mp hlen.symm)
  · rcases hcolumn other with hsame | ⟨rfl, hfilled⟩
    · rw [hsame]
      exact h.sound other
    · rw [hfilled]
      exact (h.sound other).fill
  · rw [← h.seen other, shown, shown]
    rcases hcolumn other with hsame | ⟨rfl, hfilled⟩
    · rw [hsame]
      rfl
    · rw [hfilled]
      exact congrArg (fun v => (WriteBack.seen CleanCoins.IsPruned v).map Subtype.val)
        (look_fill CleanCoins.IsPruned _ _)

theorem same_unpruned (v : Option CleanCoins) :
    CCoins.Same (v.getD .null).1 ((unpruned v).getD .null) := by
  cases v with
  | none => exact .rfl'
  | some c =>
    cases hgone : c.IsPruned with
    | true =>
      have hnone : unpruned (some c) = none := congrArg _ (seen_gone hgone)
      rw [hnone]
      exact .inl ⟨hgone, rfl⟩
    | false =>
      have hsome : unpruned (some c) = some c.1 := congrArg _ (seen_some hgone)
      rw [hsome]
      exact .rfl'

theorem IsPruned_cleaned {c : CCoins} (h : c.IsPruned = true) : c.cleaned.IsPruned = true := by
  have hnil : c.vout.rdropWhile CTxOut.IsNull = [] :=
    List.rdropWhile_eq_nil_iff.mpr fun o ho => List.all_eq_true.mp h o ho
  show (c.vout.rdropWhile CTxOut.IsNull).all CTxOut.IsNull = true
  rw [hnil]
  rfl

theorem unpruned_cleaned {a b : CCoins} (h : CCoins.Same a b) :
    unpruned (some a.cleaned) = unpruned (some b.cleaned) := by
  rcases h with ⟨ha, hb⟩ | rfl
  · rw [unpruned, seen_gone (IsPruned_cleaned ha), unpruned, seen_gone (IsPruned_cleaned hb)]
  · rfl

theorem Shows.modified (h : Shows B s m) (txid : uint256)
    {f : CCoins → CCoins} (hf : (CoinsOp.modifyCoins txid f).Regular) :
    Shows B (s.ModifyCoins B txid f) (coinsMapStep m (.modifyCoins txid f)) := by
  obtain ⟨hbase, hlayers, hown, hother⟩ := ModifyCoins_spec (B := B) s txid f
  refine ⟨hlayers.mpr h.layers, fun other => ?_, fun other => ?_⟩
  · rw [hbase]
    rcases eq_or_ne other txid with rfl | hne
    · rw [hown]
      exact (h.sound other).write _ _
    · rw [hother other hne]
      exact h.sound other
  · rw [shown, hbase]
    rcases eq_or_ne other txid with rfl | hne
    · have hcolumn : column s.layers other ≠ [] := by
        intro hnil
        have hlen := column_length s.layers other
        rw [hnil] at hlen
        exact h.layers (List.length_eq_zero_iff.mp hlen.symm)
      rw [hown, (h.sound other).look_write hcolumn]
      show unpruned (some _) = Function.update m other _ other
      rw [update_self, ← h.seen other]
      exact unpruned_cleaned (hf _ _ (same_unpruned _))
    · rw [hother other hne]
      show _ = Function.update m txid _ other
      rw [update_of_ne hne]
      exact h.seen other

theorem Shows.setBestBlock (h : Shows B s m)
    (hashBlockIn : uint256) : Shows B (s.SetBestBlock hashBlockIn) m := by
  obtain ⟨layers, base⟩ := s
  cases layers with
  | nil => exact absurd rfl h.layers
  | cons cache below => exact ⟨List.cons_ne_nil _ _, h.sound, h.seen⟩

theorem column_new (cache : CCoinsViewCache) (hempty : cache.cacheCoins = ∅)
    (layers : List CCoinsViewCache) (txid : uint256) :
    column (cache :: layers) txid = none :: column layers txid := by
  show cache.cacheCoins.lookup txid :: column layers txid = _
  rw [hempty, lookup_empty]

theorem Shows.pushed (h : Shows B s m) : Shows B s.push m where
  layers := List.cons_ne_nil _ _
  sound txid := by
    show Sound _ (column (.new :: s.layers) txid) _
    exact h.sound txid
  seen txid := by
    show (shown B (.new :: s.layers) s.base txid).map _ = _
    exact h.seen txid

theorem Shows.flushed (h : Shows B s m) (n : Nat) :
    ∃ s', s.Flush B n = some s' ∧ Shows B s' m ∧
      (s.layers.length ≤ n → ∀ txid, unpruned (B.GetCoins s'.base txid) = m txid) := by
  obtain ⟨layers', base', hflush, hsound, hlen, hshown, hall⟩ :=
    flushLayers_spec B n s.layers s.base h.sound
  have hsame : ∀ txid, (shown B layers' base' txid).map Subtype.val = m txid := by
    intro txid
    rw [hshown]
    exact h.seen txid
  refine ⟨⟨layers', base'⟩, ?_, ⟨?_, hsound, hsame⟩, fun hle txid => ?_⟩
  · rw [CoinsStack.Flush, hflush]
    rfl
  · rintro rfl
    exact h.layers (List.length_eq_zero_iff.mp hlen.symm)
  · have hbase := hsame txid
    rw [shown, look_of_empty (hall hle txid)] at hbase
    exact hbase

theorem flushLayers_head {base base' : σ} {n : Nat} {cache : CCoinsViewCache}
    {below layers' : List CCoinsViewCache}
    (h : flushLayers B base (n + 1) (cache :: below) = some (layers', base')) :
    ∃ below', layers' = cache.cleared :: below' := by
  cases below with
  | nil =>
    cases h
    exact ⟨[], rfl⟩
  | cons parent below =>
    rw [flushLayers] at h
    cases hwrite : parent.BatchWrite cache.cacheCoins cache.hashBlock with
    | none =>
      rw [hwrite] at h
      cases h
    | some parent' =>
      rw [hwrite] at h
      obtain ⟨flushed, -, heq⟩ := Option.map_eq_some_iff.mp h
      cases heq
      exact ⟨flushed.1, rfl⟩

theorem Shows.popped (h : Shows B s m) :
    ∃ s', (s.Flush B 1).map CoinsStack.pop = some s' ∧ Shows B s' m := by
  obtain ⟨⟨layers', base'⟩, hflush, hshows, -⟩ := h.flushed 1
  refine ⟨_, congrArg (Option.map CoinsStack.pop) hflush, ?_⟩
  -- the uppermost cache has no entries
  have hhead : ∃ cache below, layers' = cache :: below ∧ cache.cacheCoins = ∅ := by
    obtain ⟨flushed, hlayers, heq⟩ := Option.map_eq_some_iff.mp hflush
    obtain ⟨rfl, -⟩ := CoinsStack.mk.inj heq
    cases hs : s.layers with
    | nil => exact absurd hs h.layers
    | cons cache below =>
      rw [hs] at hlayers
      obtain ⟨below', hbelow⟩ := flushLayers_head (B := B) (n := 0) hlayers
      exact ⟨cache.cleared, below', hbelow, rfl⟩
  obtain ⟨cache, below, rfl, hempty⟩ := hhead
  have hcolumn := column_new cache hempty below
  have hsound : ∀ txid, Sound CleanCoins.IsPruned (column below txid) (B.GetCoins base' txid) := by
    intro txid
    have hbefore := hshows.sound txid
    rw [hcolumn] at hbefore
    exact hbefore
  have hseen : ∀ txid, (shown B below base' txid).map Subtype.val = m txid := by
    intro txid
    have hbefore := hshows.seen txid
    rw [shown, hcolumn] at hbefore
    exact hbefore
  cases below with
  | cons cache' below => exact ⟨List.cons_ne_nil _ _, hsound, hseen⟩
  | nil =>
    refine ⟨List.cons_ne_nil _ _, fun txid => ?_, fun txid => ?_⟩
    · exact trivial
    · exact hseen txid

/-! ## Every run -/

theorem Shows.step (h : Shows B s m) {op : CoinsOp}
    (hop : op.Regular) : ∃ s', coinsStep B s op = some s' ∧ Shows B s' (coinsMapStep m op) := by
  cases op with
  | getCoins txid => exact ⟨_, rfl, h.fetched txid⟩
  | haveCoins txid => exact ⟨_, rfl, h.fetched txid⟩
  | modifyCoins txid f => exact ⟨_, rfl, h.modified txid hop⟩
  | setBestBlock hashBlockIn => exact ⟨_, rfl, h.setBestBlock hashBlockIn⟩
  | push => exact ⟨_, rfl, h.pushed⟩
  | flush n =>
    obtain ⟨s', hflush, hs', -⟩ := h.flushed n
    exact ⟨s', hflush, hs'⟩
  | flushAndPop => exact h.popped

theorem Shows.run (h : Shows B s m) {ops : List CoinsOp}
    (hops : ∀ op ∈ ops, op.Regular) :
    ∃ s', coinsRun B s ops = some s' ∧ Shows B s' (ops.foldl coinsMapStep m) := by
  induction ops generalizing s m with
  | nil => exact ⟨s, rfl, h⟩
  | cons op ops ih =>
    obtain ⟨mid, hstep, hmid⟩ := h.step (hops op List.mem_cons_self)
    obtain ⟨s', hrun, hs'⟩ := ih hmid fun op' hop' => hops op' (List.mem_cons_of_mem op hop')
    refine ⟨s', ?_, hs'⟩
    rw [coinsRun, List.foldlM_cons, hstep]
    exact hrun

theorem isEmpty_vout (c : CleanCoins) : (!c.1.vout.isEmpty) = !c.IsPruned := by
  have htrim : c.1.vout.rdropWhile CTxOut.IsNull = c.1.vout := congrArg CCoins.vout c.2
  congr 1
  rw [Bool.eq_iff_iff, List.isEmpty_iff]
  constructor
  · intro hnil
    show c.1.vout.all CTxOut.IsNull = true
    rw [hnil]
    rfl
  · intro hgone
    rw [← htrim]
    exact List.rdropWhile_eq_nil_iff.mpr fun o ho => List.all_eq_true.mp hgone o ho

theorem Shows.answers (h : Shows B s m) (txid : uint256) :
    unpruned (s.GetCoins B txid).2 = m txid ∧ (s.HaveCoins B txid).2 = (m txid).isSome := by
  obtain ⟨hlook, -, -⟩ := FetchCoins_spec B s.base txid s.layers
  have hget : unpruned (s.GetCoins B txid).2 = m txid := by
    rw [← h.seen txid, shown, ← hlook]
    rfl
  refine ⟨hget, ?_⟩
  rw [← hget]
  show (s.GetCoins B txid).2.any (fun coins => !coins.1.vout.isEmpty) = _
  cases (s.GetCoins B txid).2 with
  | none => rfl
  | some c =>
    show (!c.1.vout.isEmpty) =
      ((WriteBack.seen CleanCoins.IsPruned (some c)).map Subtype.val).isSome
    rw [isEmpty_vout]
    cases hgone : c.IsPruned with
    | true =>
      rw [seen_gone hgone]
      rfl
    | false =>
      rw [seen_some hgone]
      rfl

/-- **The uppermost cache answers as the plain map, and the base is the map when all caches are
flushed.** -/
theorem caches_are_a_map (B : CCoinsBase σ) (base : σ) (ops : List CoinsOp)
    (hops : ∀ op ∈ ops, op.Regular) :
    ∃ s, coinsRun B (.start base) ops = some s ∧
      (∀ txid, unpruned (s.GetCoins B txid).2 =
          ops.foldl coinsMapStep (fun txid => unpruned (B.GetCoins base txid)) txid ∧
        (s.HaveCoins B txid).2 =
          (ops.foldl coinsMapStep (fun txid => unpruned (B.GetCoins base txid)) txid).isSome) ∧
      ∃ s', s.Flush B s.layers.length = some s' ∧
        ∀ txid, unpruned (B.GetCoins s'.base txid) =
          ops.foldl coinsMapStep (fun txid => unpruned (B.GetCoins base txid)) txid := by
  obtain ⟨s, hrun, hs⟩ := (Shows.start B base).run hops
  obtain ⟨s', hflush, -, hall⟩ := hs.flushed s.layers.length
  exact ⟨s, hrun, hs.answers, s', hflush, hall (le_refl _)⟩

/-! ## The view -/

/-- What an operation does to the view that a stack of caches stands for. -/
def coinsViewStep (view : CCoinsView) : CoinsOp → CCoinsView
  | .modifyCoins txid f => view.ModifyCoins txid f
  | .setBestBlock hashBlockIn => view.SetBestBlock hashBlockIn
  | _ => view

/-- The map has what the view has. -/
def MapOf (m : CoinsMap) (view : CCoinsView) : Prop :=
  ∀ txid, m txid = if (view.coins txid).IsPruned then none else some (view.coins txid)

variable {view : CCoinsView}

theorem MapOf.same (h : MapOf m view) (txid : uint256) :
    CCoins.Same ((m txid).getD .null) (view.coins txid) := by
  rw [h txid]
  cases hgone : (view.coins txid).IsPruned with
  | true => exact .inl ⟨rfl, hgone⟩
  | false => exact .rfl'

theorem MapOf.step (h : MapOf m view) {op : CoinsOp}
    (hop : op.Regular) : MapOf (coinsMapStep m op) (coinsViewStep view op) := by
  cases op with
  | modifyCoins txid f =>
    intro other
    show Function.update m txid _ other =
      if (Function.update view.coins txid _ other).IsPruned then
      none else some (Function.update view.coins txid _ other)
    rcases eq_or_ne other txid with rfl | hne
    · rw [update_self, update_self, unpruned_cleaned (hop _ _ (h.same other))]
      show (WriteBack.seen CleanCoins.IsPruned (some (f (view.coins other)).cleaned)).map _ = _
      cases hgone : (f (view.coins other)).cleaned.IsPruned with
      | true =>
        rw [seen_gone hgone]
        exact (if_pos hgone).symm
      | false =>
        rw [seen_some hgone]
        exact (if_neg fun h => Bool.false_ne_true (hgone.symm.trans h)).symm
    · rw [update_of_ne hne, update_of_ne hne]
      exact h other
  | getCoins _ => exact h
  | haveCoins _ => exact h
  | setBestBlock _ => exact h
  | push => exact h
  | flush _ => exact h
  | flushAndPop => exact h

theorem MapOf.run (h : MapOf m view) {ops : List CoinsOp}
    (hops : ∀ op ∈ ops, op.Regular) :
    MapOf (ops.foldl coinsMapStep m) (ops.foldl coinsViewStep view) := by
  induction ops generalizing m view with
  | nil => exact h
  | cons op ops ih =>
    exact ih (h.step (hops op List.mem_cons_self)) fun op' hop' =>
      hops op' (List.mem_cons_of_mem op hop')

/-- **The caches refine the view** that the transactions are checked against: whatever is done to
a stack of caches, the uppermost one has the coins of the view with the same modifications. -/
theorem caches_refine_view (B : CCoinsBase σ) (base : σ) (view : CCoinsView)
    (hview : MapOf (fun txid => unpruned (B.GetCoins base txid)) view) (ops : List CoinsOp)
    (hops : ∀ op ∈ ops, op.Regular) :
    ∃ s, coinsRun B (.start base) ops = some s ∧ ∀ txid,
      CCoins.Same ((s.GetCoins B txid).2.getD .null).1
        ((ops.foldl coinsViewStep view).coins txid) := by
  obtain ⟨s, hrun, hs⟩ := (Shows.start B base).run hops
  refine ⟨s, hrun, fun txid => ?_⟩
  have hsame := same_unpruned (s.GetCoins B txid).2
  rw [(hs.answers txid).1] at hsame
  exact hsame.trans ((hview.run hops).same txid)

end

/-! ## The coin database -/

theorem batchLoop_spec (txid : uint256) : ∀ (l : List (Sigma fun _ : uint256 => CCoinsCacheEntry))
    (batch : uint256 → Option CleanCoins), l.NodupKeys →
    seen CleanCoins.IsPruned (l.foldl (fun batch it =>
        if it.2.dirty then CCoinsViewDB.BatchWriteCoins batch it.1 it.2.val else batch)
          batch txid) =
      settled CleanCoins.IsPruned (l.dlookup txid) (batch txid)
  | [], _, _ => rfl
  | ⟨key, it⟩ :: l, batch, hnodup => by
    obtain ⟨hnew, hl⟩ := List.nodupKeys_cons.mp hnodup
    have hnone : l.dlookup key = none := List.dlookup_eq_none.mpr hnew
    refine (batchLoop_spec txid l _ hl).trans ?_
    rcases eq_or_ne txid key with rfl | hne
    · rw [hnone, List.dlookup_cons_eq]
      show seen _ ((if it.dirty then CCoinsViewDB.BatchWriteCoins batch txid it.val
        else batch) txid) =
        if it.dirty then seen _ (some it.val) else seen _ (batch txid)
      cases it.dirty with
      | false => rfl
      | true =>
        show seen _ (Function.update batch txid _ txid) = seen _ (some it.val)
        rw [update_self]
        cases hgone : it.val.IsPruned with
        | true => exact (seen_gone hgone).symm
        | false => rfl
    · rw [List.dlookup_cons_ne _ _ hne]
      refine congrArg (settled CleanCoins.IsPruned (l.dlookup txid)) ?_
      show (if it.dirty then CCoinsViewDB.BatchWriteCoins batch key it.val else batch) txid = _
      split_ifs
      · exact update_of_ne hne _ _
      · rfl

def CCoinsViewDB.view : CCoinsBase CCoinsViewDB where
  GetCoins db txid := db.coins txid
  BatchWrite := CCoinsViewDB.BatchWrite
  written db mapCoins _ _ txid := batchLoop_spec txid mapCoins.entries db.coins mapCoins.nodupKeys

def oneCoinDB : CCoinsViewDB where
  coins txid := if txid = 7 then some ⟨⟨false, false, [⟨COIN, []⟩], 5, 1⟩, rfl⟩ else none
  hashBestChain := 100

/-- Two caches; the coin is spent in the upper one, and another one is made. -/
def spendInSecond : List CoinsOp :=
  [.push, .modifyCoins 7 fun _ => .null, .modifyCoins 8 fun _ => ⟨false, false, [⟨COIN, []⟩], 6, 1⟩,
    .flush 1]

theorem caches_are_a_map_two :
    ∃ s, coinsRun CCoinsViewDB.view (.start oneCoinDB) spendInSecond = some s ∧
      (∀ txid, unpruned (s.GetCoins CCoinsViewDB.view txid).2 =
          spendInSecond.foldl coinsMapStep (fun txid => unpruned (oneCoinDB.coins txid)) txid ∧
        (s.HaveCoins CCoinsViewDB.view txid).2 =
          (spendInSecond.foldl coinsMapStep (fun txid => unpruned (oneCoinDB.coins txid))
            txid).isSome) ∧
      ∃ s', s.Flush CCoinsViewDB.view s.layers.length = some s' ∧
        ∀ txid, unpruned (s'.base.coins txid) =
          spendInSecond.foldl coinsMapStep (fun txid => unpruned (oneCoinDB.coins txid)) txid := by
  refine caches_are_a_map CCoinsViewDB.view oneCoinDB spendInSecond ?_
  intro op hop
  simp only [spendInSecond, List.mem_cons, List.not_mem_nil, or_false] at hop
  rcases hop with rfl | rfl | rfl | rfl
  · exact trivial
  · exact fun _ _ _ => .rfl'
  · exact fun _ _ _ => .rfl'
  · exact trivial

/-- The view that has the one coin. -/
def oneCoinView : CCoinsView where
  coins txid := if txid = 7 then ⟨false, false, [⟨COIN, []⟩], 5, 1⟩ else .null
  hashBlock := 100

theorem caches_refine_view_two :
    ∃ s, coinsRun CCoinsViewDB.view (.start oneCoinDB) spendInSecond = some s ∧ ∀ txid,
      CCoins.Same ((s.GetCoins CCoinsViewDB.view txid).2.getD .null).1
        ((spendInSecond.foldl coinsViewStep oneCoinView).coins txid) := by
  refine caches_refine_view CCoinsViewDB.view oneCoinDB oneCoinView ?_ spendInSecond ?_
  · intro txid
    rcases eq_or_ne txid 7 with rfl | hne
    · rfl
    · show unpruned (if txid = 7 then _ else none) =
        if (if txid = 7 then _ else CCoins.null).IsPruned then none else _
      rw [if_neg hne, if_neg hne]
      rfl
  · simp [spendInSecond, CoinsOp.Regular, CCoins.Same.rfl']

/-- The coin is spent and an output is added again, with no height given. -/
def spendAndAdd : List CoinsOp :=
  [.modifyCoins 7 fun c => { c with vout := [] }, .modifyCoins 7 fun c =>
    { c with vout := [⟨COIN, []⟩] }]

/-- The cache still knows the height of the coin that was spent, the map does not. -/
theorem cache_remembers_height :
    ¬ (∀ (σ : Type) (B : CCoinsBase σ) (base : σ) (ops : List CoinsOp),
        ∃ s, coinsRun B (.start base) ops = some s ∧ ∀ txid, unpruned (s.GetCoins B txid).2 =
          ops.foldl coinsMapStep (fun txid => unpruned (B.GetCoins base txid)) txid) ∧
      ((coinsRun CCoinsViewDB.view (.start oneCoinDB) spendAndAdd).bind fun s =>
        (unpruned (s.GetCoins CCoinsViewDB.view 7).2).map CCoins.nHeight) = some 5 ∧
      (spendAndAdd.foldl coinsMapStep (fun txid => unpruned (oneCoinDB.coins txid)) 7).map
        CCoins.nHeight = some 0 := by
  have hcache : ((coinsRun CCoinsViewDB.view (.start oneCoinDB) spendAndAdd).bind fun s =>
      (unpruned (s.GetCoins CCoinsViewDB.view 7).2).map CCoins.nHeight) = some 5 := by
    decide +kernel
  have hmap : (spendAndAdd.foldl coinsMapStep (fun txid => unpruned (oneCoinDB.coins txid)) 7).map
      CCoins.nHeight = some 0 := by
    decide +kernel
  refine ⟨?_, hcache, hmap⟩
  intro hall
  obtain ⟨s, hrun, hanswers⟩ := hall CCoinsViewDB CCoinsViewDB.view oneCoinDB spendAndAdd
  rw [hrun] at hcache
  have hsame := congrArg (Option.map CCoins.nHeight) (hanswers 7)
  have hheights : some (5 : Int) = some 0 := hcache.symm.trans (hsame.trans hmap)
  exact absurd hheights (by decide)

end Divitae
