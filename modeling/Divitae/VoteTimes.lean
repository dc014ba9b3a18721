/-
# `VoteTimes` — the votes of one node, in any order

`AddOrUpdateVote` files a vote unless the vote its voter already has keeps it out: the new one is
older, or came too soon after.  The times are signed 64-bit numbers that the voter chose, and so
is their difference, which wraps.  With the time of the new vote less the time of the old one, as
whole numbers:

    below 0                  kept out, as older
    below one hour           kept out, as too soon
    up to 2 ^ 63             filed
    from 2 ^ 63              the difference is negative: kept out, as too soon

`ends_newest_iff` is for both kinds of votes and every order in which they can arrive.
-/
import Divitae.Budget
import Divitae.Lib.Latest

namespace Divitae.VoteKind

open Wrap Latest List

section
variable {V Ω : Type} (K : VoteKind V Ω) (C : Crypto)

/-- `keepsOut`, of registers. -/
def keepsOut64 (existing vote : V) : Bool :=
  K.nTime existing > K.nTime vote ||
    wrap64 (K.nTime vote - K.nTime existing) < BUDGET_VOTE_UPDATE_MIN

/-- `AddOrUpdateVote`, of registers, at the time `now`. -/
def AddOrUpdateVote64 (now : Int) (mapVotes : HashMap V) (vote : V) : HashMap V × Bool :=
  let hash := K.voter C vote
  if (mapVotes.lookup hash).any (K.keepsOut64 · vote) then (mapVotes, false)
  else if K.nTime vote > now + 60 * 60 then (mapVotes, false) -- too far ahead
  else (mapVotes.insert hash vote, true)

/-- Votes are fed to an object one after the other, each at its own time. -/
def feed (obj : Ω) (arrivals : List (Int × V)) : Ω :=
  arrivals.foldl
    (fun obj a => K.withVotes obj (K.AddOrUpdateVote64 C a.1 (K.mapVotes obj) a.2).1) obj

/-- The two times are an hour apart or more. -/
def Apart (v w : V) : Prop :=
  K.nTime v + BUDGET_VOTE_UPDATE_MIN ≤ K.nTime w ∨ K.nTime w + BUDGET_VOTE_UPDATE_MIN ≤ K.nTime v

/-- In whatever order the votes arrive, the newest is what the node has in the end, and no other
node has another vote. -/
def EndsNewest (obj : Ω) (votes : List V) (newest : V) : Prop :=
  ∀ arrivals : List (Int × V), (arrivals.map Prod.snd).Perm votes →
    (∀ a ∈ arrivals, K.nTime a.2 ≤ a.1 + 60 * 60) →
    (K.mapVotes (K.feed C obj arrivals)).lookup (K.voter C newest) = some newest ∧
      ∀ k ≠ K.voter C newest,
        (K.mapVotes (K.feed C obj arrivals)).lookup k = (K.mapVotes obj).lookup k

/-- No vote that the newest can meet is too old for the difference of their times. -/
def InReach (existing : Option V) (votes : List V) (newest : V) : Prop :=
  match existing with
  | none => ∀ v ∈ votes, K.nTime newest - K.nTime v < 2 ^ 63
  | some e =>
    e = newest ∨ BUDGET_VOTE_UPDATE_MIN ≤ K.nTime newest - K.nTime e ∧
      K.nTime newest - K.nTime e < 2 ^ 63

variable {K C}

instance : Std.Symm K.Apart := ⟨fun _ _ => Or.symm⟩

theorem wrap64_far {z : Int} (hlo : 2 ^ 63 ≤ z) (hhi : z < 2 ^ 64) : wrap64 z < 0 := by
  unfold wrap64
  rw [Int.bmod_def]
  omega

theorem keepsOut64_iff {e v : V} (he : Fits64 (K.nTime e)) (hv : Fits64 (K.nTime v)) :
    K.keepsOut64 e v = true ↔
      ¬ (BUDGET_VOTE_UPDATE_MIN ≤ K.nTime v - K.nTime e ∧ K.nTime v - K.nTime e < 2 ^ 63) := by
  obtain ⟨helo, hehi⟩ := he
  obtain ⟨hvlo, hvhi⟩ := hv
  simp only [keepsOut64, Bool.or_eq_true, decide_eq_true_eq]
  simp only [BUDGET_VOTE_UPDATE_MIN]
  rcases lt_or_ge (K.nTime v - K.nTime e) (2 ^ 63) with hnear | hfar
  · rcases lt_or_ge (K.nTime v) (K.nTime e) with holder | hnewer
    · exact iff_of_true (.inl holder) fun h => by omega
    · have hwrap : wrap64 (K.nTime v - K.nTime e) = K.nTime v - K.nTime e :=
        wrap64_of_fits ⟨by omega, hnear⟩
      rw [hwrap]
      constructor
      · intro h
        omega
      · intro h
        omega
  · have hwrap : wrap64 (K.nTime v - K.nTime e) < 0 := wrap64_far hfar (by omega)
    exact iff_of_true (.inr (by omega)) fun h => by omega

theorem AddOrUpdateVote64_lookup {now : Int} {m : HashMap V} {v : V}
    (hahead : K.nTime v ≤ now + 60 * 60) :
    (K.AddOrUpdateVote64 C now m v).1.lookup (K.voter C v) =
      offer K.keepsOut64 (m.lookup (K.voter C v)) v := by
  rw [AddOrUpdateVote64, if_neg (not_lt.mpr hahead), offer]
  split
  · rfl
  · exact AList.lookup_insert m

theorem AddOrUpdateVote64_lookup_ne {now : Int} {m : HashMap V} {v : V} {k : uint256}
    (hk : k ≠ K.voter C v) : (K.AddOrUpdateVote64 C now m v).1.lookup k = m.lookup k := by
  rw [AddOrUpdateVote64]
  split_ifs
  · rfl
  · rfl
  · exact AList.lookup_insert_ne hk

theorem feed_lookup {k : uint256} (arrivals : List (Int × V)) (obj : Ω)
    (hvoter : ∀ a ∈ arrivals, K.voter C a.2 = k)
    (hahead : ∀ a ∈ arrivals, K.nTime a.2 ≤ a.1 + 60 * 60) :
    (K.mapVotes (K.feed C obj arrivals)).lookup k =
        (arrivals.map Prod.snd).foldl (offer K.keepsOut64) ((K.mapVotes obj).lookup k) ∧
      ∀ k' ≠ k, (K.mapVotes (K.feed C obj arrivals)).lookup k' = (K.mapVotes obj).lookup k' := by
  induction arrivals generalizing obj with
  | nil => exact ⟨rfl, fun k' _ => rfl⟩
  | cons a arrivals ih =>
    obtain ⟨hentry, hothers⟩ := ih
      (K.withVotes obj (K.AddOrUpdateVote64 C a.1 (K.mapVotes obj) a.2).1)
      (fun b hb => hvoter b (mem_cons_of_mem a hb))
      (fun b hb => hahead b (mem_cons_of_mem a hb))
    have ha := hvoter a mem_cons_self
    rw [K.mapVotes_withVotes] at hentry hothers
    constructor
    · refine hentry.trans ?_
      rw [← ha, AddOrUpdateVote64_lookup (hahead a mem_cons_self)]
      rfl
    · intro k' hk'
      exact (hothers k' hk').trans (AddOrUpdateVote64_lookup_ne (ha.symm ▸ hk'))

theorem endsNewest_iff_perm {obj : Ω} {votes : List V} {newest : V}
    (hsame : ∀ v ∈ votes, K.voter C v = K.voter C newest) :
    K.EndsNewest C obj votes newest ↔ ∀ l : List V, l.Perm votes →
      l.foldl (offer K.keepsOut64) ((K.mapVotes obj).lookup (K.voter C newest)) = some newest := by
  constructor
  · intro hends l hl
    have hmap : (l.map fun v => (K.nTime v, v)).map Prod.snd = l := by
      rw [map_map]
      exact map_id l
    have hahead : ∀ a ∈ l.map fun v => (K.nTime v, v), K.nTime a.2 ≤ a.1 + 60 * 60 := by
      intro a ha
      obtain ⟨v, -, rfl⟩ := mem_map.mp ha
      dsimp only
      omega
    have hvoter : ∀ a ∈ l.map fun v => (K.nTime v, v), K.voter C a.2 = K.voter C newest := by
      intro a ha
      obtain ⟨v, hv, rfl⟩ := mem_map.mp ha
      exact hsame v (hl.mem_iff.mp hv)
    have hfold := (feed_lookup _ obj hvoter hahead).1
    rw [hmap] at hfold
    exact hfold.symm.trans (hends _ (hmap.symm ▸ hl) hahead).1
  · intro hall arrivals harrivals hahead
    have hvoter : ∀ a ∈ arrivals, K.voter C a.2 = K.voter C newest := by
      intro a ha
      exact hsame a.2 (harrivals.mem_iff.mp (mem_map_of_mem ha))
    obtain ⟨hentry, hothers⟩ := feed_lookup arrivals obj hvoter hahead
    exact ⟨hentry.trans (hall _ harrivals), hothers⟩

/-! ## Every order -/

section
variable {votes : List V} {newest : V}

theorem older_of_apart (hapart : votes.Pairwise K.Apart) (hmem : newest ∈ votes)
    (hnewest : ∀ v ∈ votes, K.nTime v ≤ K.nTime newest) {v : V} (hv : v ∈ votes)
    (hne : v ≠ newest) : K.nTime v + BUDGET_VOTE_UPDATE_MIN ≤ K.nTime newest := by
  have hle := hnewest v hv
  have hpair : K.Apart v newest := hapart.forall hv hmem hne
  rcases hpair with h | h
  · exact h
  · simp only [BUDGET_VOTE_UPDATE_MIN] at h ⊢
    omega

theorem not_ends_newest {e : V} {l : List V} (hout : K.keepsOut64 e newest = true)
    (he : e ≠ newest) (hl : newest ∉ l) :
    (newest :: l).foldl (offer K.keepsOut64) (some e) ≠ some newest := by
  rw [foldl_cons, offer_some, if_pos hout]
  intro hlast
  have hcases : l.foldl (offer K.keepsOut64) (some e) = some e ∨
      ∃ b ∈ l, l.foldl (offer K.keepsOut64) (some e) = some b := foldl_offer_cases (some e)
  rcases hcases with hsame | ⟨b, hb, hlate⟩
  · exact he (Option.some_injective V (hsame.symm.trans hlast))
  · exact hl (Option.some_injective V (hlate.symm.trans hlast) ▸ hb)

theorem ends_newest_of {I : Option V → Prop} {l : List V} {r : Option V}
    (hfits : ∀ v ∈ votes, Fits64 (K.nTime v)) (hmem : newest ∈ votes)
    (hnewest : ∀ v ∈ votes, K.nTime v ≤ K.nTime newest) (hl : l.Perm votes) (hr : I r)
    (hnear : ∀ e, I (some e) → Fits64 (K.nTime e) ∧
      BUDGET_VOTE_UPDATE_MIN ≤ K.nTime newest - K.nTime e ∧ K.nTime newest - K.nTime e < 2 ^ 63)
    (hstep : ∀ r, I r → ∀ v ∈ votes, v ≠ newest → I (offer K.keepsOut64 r v)) :
    l.foldl (offer K.keepsOut64) r = some newest := by
  refine foldl_offer_taken (hl.mem_iff.mpr hmem) hr ?_ ?_ ?_
  · intro r hr
    cases r with
    | none => rfl
    | some e =>
      obtain ⟨he, hnewer⟩ := hnear e hr
      have hfiled : ¬ K.keepsOut64 e newest = true := fun hout =>
        (keepsOut64_iff he (hfits newest hmem)).mp hout hnewer
      rw [offer_some, if_neg hfiled]
  · intro r hr v hv
    exact hstep r hr v (hl.mem_iff.mp hv)
  · intro v hv
    have hv := hl.mem_iff.mp hv
    refine (keepsOut64_iff (hfits newest hmem) (hfits v hv)).mpr ?_
    have hle := hnewest v hv
    simp only [BUDGET_VOTE_UPDATE_MIN]
    omega

theorem once_of_apart {rest : List V} {v : V} (hapart : votes.Pairwise K.Apart)
    (hfirst : (v :: rest).Perm votes) : v ∉ rest := by
  intro hin
  have hpairs : (v :: rest).Pairwise K.Apart := (hfirst.pairwise_iff fun h => Or.symm h).mpr hapart
  have hself : K.Apart v v := (pairwise_cons.mp hpairs).1 v hin
  simp only [Apart, BUDGET_VOTE_UPDATE_MIN] at hself
  omega

theorem ends_newest_none
    (hfits : ∀ v ∈ votes, Fits64 (K.nTime v)) (hapart : votes.Pairwise K.Apart)
    (hmem : newest ∈ votes) (hnewest : ∀ v ∈ votes, K.nTime v ≤ K.nTime newest) :
    (∀ l : List V, l.Perm votes → l.foldl (offer K.keepsOut64) none = some newest) ↔
      ∀ v ∈ votes, K.nTime newest - K.nTime v < 2 ^ 63 := by
  obtain ⟨s, t, hst⟩ := append_of_mem hmem
  have hfirst : (newest :: (s ++ t)).Perm votes := hst.symm ▸ perm_middle.symm
  have honce : newest ∉ s ++ t := once_of_apart hapart hfirst
  constructor
  · intro hall v hv
    by_contra hfar
    have hne : v ≠ newest := by
      rintro rfl
      omega
    have hrest : v ∈ s ++ t := (mem_cons.mp (hfirst.mem_iff.mpr hv)).resolve_left hne
    obtain ⟨s', t', hst'⟩ := append_of_mem hrest
    -- first the old vote, then the newest
    have hswapped : (v :: newest :: (s' ++ t')).Perm votes := by
      refine ((List.Perm.swap newest v _).trans ?_).trans hfirst
      rw [hst']
      exact perm_middle.symm.cons newest
    refine not_ends_newest ?_ hne ?_ (hall _ hswapped)
    · refine (keepsOut64_iff (hfits v hv) (hfits newest hmem)).mpr ?_
      exact fun hnear => hfar hnear.2
    · intro hin
      refine honce (hst'.symm ▸ ?_)
      rcases mem_append.mp hin with hin | hin
      · exact mem_append_left _ hin
      · exact mem_append_right _ (mem_cons_of_mem v hin)
  · intro hnear l hl
    refine ends_newest_of (I := fun r => ∀ e, r = some e → e ∈ votes ∧ e ≠ newest)
      hfits hmem hnewest hl nofun ?_ ?_
    · intro e he
      obtain ⟨hin, hne⟩ := he e rfl
      have := older_of_apart hapart hmem hnewest hin hne
      exact ⟨hfits e hin, by omega, hnear e hin⟩
    · intro r hr v hv hne e he
      rw [offer] at he
      split at he
      · exact hr e he
      · cases he
        exact ⟨hv, hne⟩

theorem ends_newest_some {e : V}
    (hfits : ∀ v ∈ votes, Fits64 (K.nTime v)) (hapart : votes.Pairwise K.Apart)
    (hmem : newest ∈ votes) (hnewest : ∀ v ∈ votes, K.nTime v ≤ K.nTime newest)
    (he : Fits64 (K.nTime e)) :
    (∀ l : List V, l.Perm votes → l.foldl (offer K.keepsOut64) (some e) = some newest) ↔
      e = newest ∨ BUDGET_VOTE_UPDATE_MIN ≤ K.nTime newest - K.nTime e ∧
        K.nTime newest - K.nTime e < 2 ^ 63 := by
  obtain ⟨s, t, hst⟩ := append_of_mem hmem
  have hfirst : (newest :: (s ++ t)).Perm votes := hst.symm ▸ perm_middle.symm
  have honce : newest ∉ s ++ t := once_of_apart hapart hfirst
  constructor
  · intro hall
    by_contra hfar
    obtain ⟨hne, hfar⟩ := not_or.mp hfar
    exact not_ends_newest ((keepsOut64_iff he (hfits newest hmem)).mpr hfar) hne honce
      (hall _ hfirst)
  · rintro (rfl | hnear) l hl
    · refine foldl_offer_kept ?_
      intro v hv
      have hv := hl.mem_iff.mp hv
      refine (keepsOut64_iff he (hfits v hv)).mpr ?_
      have hle := hnewest v hv
      simp only [BUDGET_VOTE_UPDATE_MIN]
      omega
    · refine ends_newest_of (I := fun r => ∃ w, r = some w ∧ Fits64 (K.nTime w) ∧
          K.nTime e ≤ K.nTime w ∧ BUDGET_VOTE_UPDATE_MIN ≤ K.nTime newest - K.nTime w)
        hfits hmem hnewest hl ⟨e, rfl, he, le_rfl, hnear.1⟩ ?_ ?_
      · rintro w ⟨_, ⟨⟩, hw, hlater, hgap⟩
        exact ⟨hw, hgap, by omega⟩
      · rintro r ⟨w, rfl, hw, hlater, hgap⟩ v hv hne
        by_cases hout : K.keepsOut64 w v = true
        · exact ⟨w, by rw [offer_some, if_pos hout], hw, hlater, hgap⟩
        · have hfiled := not_not.mp fun h => hout ((keepsOut64_iff hw (hfits v hv)).mpr h)
          have hgap' := older_of_apart hapart hmem hnewest hv hne
          simp only [BUDGET_VOTE_UPDATE_MIN] at hfiled hgap' ⊢
          exact ⟨v, by rw [offer_some, if_neg hout], hfits v hv, by omega, by omega⟩

end

end

/-- **The votes of one node in any order.**  The newest is what is left of them, whatever the
order, exactly when the node's entry was missing and no vote is 2 ^ 63 seconds older than the
newest, or the entry was the newest itself, or older by an hour and less than 2 ^ 63 seconds. -/
theorem ends_newest_iff {V Ω : Type} (K : VoteKind V Ω) (C : Crypto) (obj : Ω) (votes : List V)
    (newest : V) (hsame : ∀ v ∈ votes, (K.vin v).prevout = (K.vin newest).prevout)
    (hfits : ∀ v ∈ votes, Fits64 (K.nTime v))
    (hstored : ∀ e, (K.mapVotes obj).lookup (K.voter C newest) = some e → Fits64 (K.nTime e))
    (hapart : votes.Pairwise K.Apart) (hmem : newest ∈ votes)
    (hnewest : ∀ v ∈ votes, K.nTime v ≤ K.nTime newest) :
    K.EndsNewest C obj votes newest ↔
      K.InReach ((K.mapVotes obj).lookup (K.voter C newest)) votes newest := by
  rw [endsNewest_iff_perm fun v hv => congrArg (COutPoint.GetHash C) (hsame v hv)]
  cases hentry : (K.mapVotes obj).lookup (K.voter C newest) with
  | none => exact ends_newest_none hfits hapart hmem hnewest
  | some e => exact ends_newest_some hfits hapart hmem hnewest (hstored e hentry)

def yesAt (nTime : Int) : CBudgetVote := ⟨true, ⟨⟨7, 0⟩, [], 0xFFFFFFFF⟩, 1, VOTE_YES, nTime, []⟩

def unvotedProposal : CBudgetProposal :=
  .ofBroadcast ⟨[0x70], [0x75], 1700000000, 43200, 129600, 10 * COIN, [OP_HASH160], 2⟩

/-- Votes an hour apart arrive in either order. -/
theorem hour_apart_ends_newest :
    CBudgetVote.kind.EndsNewest (Crypto.onTexts (compressedKey 2) []) unvotedProposal
      [yesAt 1700003600, yesAt 1700000000] (yesAt 1700003600) := by
  refine (ends_newest_iff CBudgetVote.kind (Crypto.onTexts (compressedKey 2) []) unvotedProposal
    [yesAt 1700003600, yesAt 1700000000] (yesAt 1700003600) ?_ ?_ ?_ ?_ ?_ ?_).mpr ?_
  · simp [yesAt, CBudgetVote.kind]
  · simp [yesAt, CBudgetVote.kind, Fits64]
  · intro e he
    cases he
  · simp [Apart, yesAt, CBudgetVote.kind, BUDGET_VOTE_UPDATE_MIN]
  · simp
  · simp [yesAt, CBudgetVote.kind]
  · show ∀ v ∈ [yesAt 1700003600, yesAt 1700000000], (1700003600 : Int) - v.nTime < 2 ^ 63
    simp [yesAt]

/-- **A vote with the least time there is.**  It is the first of the node and is filed, and then
it keeps out the vote of today: the difference of their times is negative. -/
theorem ancient_vote_stays :
    let C := Crypto.onTexts (compressedKey 2) []
    let K := CBudgetVote.kind
    [yesAt 1700000000, yesAt (-2 ^ 63)].Pairwise K.Apart ∧
      (K.mapVotes (K.feed C unvotedProposal
        [(1700000000, yesAt (-2 ^ 63)), (1700000000, yesAt 1700000000)])).lookup
          (K.voter C (yesAt 1700000000)) = some (yesAt (-2 ^ 63)) := by
  constructor
  · simp [Apart, yesAt, CBudgetVote.kind, BUDGET_VOTE_UPDATE_MIN]
  · decide +kernel

end Divitae.VoteKind
