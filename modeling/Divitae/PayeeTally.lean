/-
# `PayeeTally` — the two maps of the payment votes agree

`mapProsperitynodePayeeVotes` has the votes and `mapProsperitynodeBlocks` their numbers, by
height and payee.  Insertion writes to both; the clean-up goes by the height of a vote alone,
so that it drops all the votes of a height or none.
-/
import Divitae.ProsperitynodePayments

namespace Divitae

open List Bool CProsperitynodePayee

/-- The votes of the first entry of the payee, as the linear search of `AddPayee` finds it. -/
def heldIn (payee : CScript) : List CProsperitynodePayee → Int
  | [] => 0
  | p :: rest => if p.scriptPubKey = payee then p.nVotes else heldIn payee rest

/-- The votes that `mapProsperitynodeBlocks` holds at the height for the payee. -/
def votesHeld (s : CProsperitynodePayments) (h : Int) (payee : CScript) : Int :=
  match s.mapProsperitynodeBlocks h with
  | none => 0
  | some b => heldIn payee b.vecPayments

/-- The winners in `mapProsperitynodePayeeVotes` for the height and the payee. -/
def winnersFor (s : CProsperitynodePayments) (h : Int) (payee : CScript) : Nat :=
  s.mapProsperitynodePayeeVotes.countP fun w =>
    decide (w.2.nBlockHeight = h) && decide (w.2.payee = payee)

inductive VoteOp where
  | AddWinningProsperitynode (env : PaymentEnv) (winnerIn : CProsperitynodePaymentWinner)
  | CleanPaymentList (env : PaymentEnv)

def voteStep (C : Crypto) (s : CProsperitynodePayments) : VoteOp → CProsperitynodePayments
  | .AddWinningProsperitynode env winnerIn => (s.AddWinningProsperitynode C env winnerIn).1
  | .CleanPaymentList env => s.CleanPaymentList env

section
variable {payee : CScript} {n : Int} {l : List CProsperitynodePayee}

theorem heldIn_addVotes (payeeIn : CScript) (n : Int) (l : List CProsperitynodePayee) :
    heldIn payee (addVotes payeeIn n l) = heldIn payee l + if payeeIn = payee then n else 0 := by
  induction l with
  | nil =>
    show (if payeeIn = payee then n else 0) = 0 + _
    rw [zero_add]
  | cons p rest ih =>
    rw [addVotes]
    split_ifs with hsame hpayee hpayee
    · obtain rfl : p.scriptPubKey = payee := hsame.trans hpayee
      show (if p.scriptPubKey = p.scriptPubKey then p.nVotes + n else _) =
        (if p.scriptPubKey = p.scriptPubKey then p.nVotes else _) + n
      rw [if_pos rfl, if_pos rfl]
    · have hother : p.scriptPubKey ≠ payee := fun h => hpayee (hsame.symm.trans h)
      show (if p.scriptPubKey = payee then _ else heldIn payee rest) =
        (if p.scriptPubKey = payee then _ else heldIn payee rest) + 0
      rw [if_neg hother, if_neg hother, add_zero]
    · have hother : p.scriptPubKey ≠ payee := fun h => hsame (h.trans hpayee.symm)
      show (if p.scriptPubKey = payee then _ else heldIn payee (addVotes payeeIn n rest)) =
        (if p.scriptPubKey = payee then _ else heldIn payee rest) + n
      rw [if_neg hother, if_neg hother, ih, if_pos hpayee]
    · rw [if_neg hpayee, add_zero] at ih
      show (if p.scriptPubKey = payee then _ else heldIn payee (addVotes payeeIn n rest)) =
        (if p.scriptPubKey = payee then _ else heldIn payee rest) + 0
      rw [ih, add_zero]

theorem addVotes_scripts (payeeIn : CScript) (n : Int) (l : List CProsperitynodePayee) :
    (addVotes payeeIn n l).map scriptPubKey =
      l.map scriptPubKey ++ if payeeIn ∈ l.map scriptPubKey then [] else [payeeIn] := by
  induction l with
  | nil => rfl
  | cons p rest ih =>
    rw [addVotes]
    split_ifs with hsame hmem hmem
    · exact (append_nil _).symm
    · exact absurd (hsame ▸ .head _) hmem
    · have hrest : payeeIn ∈ rest.map scriptPubKey :=
        (mem_cons.mp hmem).resolve_left fun h => hsame h.symm
      rw [if_pos hrest] at ih
      exact congrArg (p.scriptPubKey :: ·) ih
    · have hrest : payeeIn ∉ rest.map scriptPubKey := fun h =>
        hmem (.tail _ h)
      rw [if_neg hrest] at ih
      exact congrArg (p.scriptPubKey :: ·) ih

theorem addVotes_nodup (payeeIn : CScript) (n : Int)
    (h : (l.map scriptPubKey).Nodup) :
    ((addVotes payeeIn n l).map scriptPubKey).Nodup := by
  rw [addVotes_scripts]
  split_ifs with hmem
  · rwa [append_nil]
  · refine h.append (nodup_singleton payeeIn) ?_
    intro a ha hin
    obtain rfl := mem_singleton.mp hin
    exact hmem ha

end

/-! ## Both maps -/

/-- The numbers are those of the votes, each vote is kept under one key and each payee has one
entry at a height. -/
structure Tallied (s : CProsperitynodePayments) : Prop where
  keys : (s.mapProsperitynodePayeeVotes.map Prod.fst).Nodup
  once : ∀ h b, s.mapProsperitynodeBlocks h = some b →
    (b.vecPayments.map CProsperitynodePayee.scriptPubKey).Nodup
  votes : ∀ h payee, votesHeld s h payee = winnersFor s h payee

section
variable {C : Crypto} {s : CProsperitynodePayments}

theorem tallied_empty : Tallied CProsperitynodePayments.empty where
  keys := nodup_nil
  once _ _ hb := nomatch hb
  votes _ _ := rfl

theorem Tallied.add (hs : Tallied s) (env : PaymentEnv) (winnerIn : CProsperitynodePaymentWinner) :
    Tallied (s.AddWinningProsperitynode C env winnerIn).1 := by
  rw [CProsperitynodePayments.AddWinningProsperitynode]
  cases env.blockHash (winnerIn.nBlockHeight - 100) with
  | none => exact hs
  | some blockHash =>
    simp only
    split_ifs with hseen
    · exact hs
    set b :=
      (s.mapProsperitynodeBlocks winnerIn.nBlockHeight).getD ⟨winnerIn.nBlockHeight, []⟩ with hb
    have hbefore : ∀ payee,
        heldIn payee b.vecPayments = votesHeld s winnerIn.nBlockHeight payee := by
      intro payee
      rw [hb, votesHeld]
      cases s.mapProsperitynodeBlocks winnerIn.nBlockHeight <;> rfl
    have honce : (b.vecPayments.map scriptPubKey).Nodup := by
      cases hblock : s.mapProsperitynodeBlocks winnerIn.nBlockHeight with
      | none =>
        rw [hb, hblock]
        exact nodup_nil
      | some b' =>
        rw [hb, hblock]
        exact hs.once _ b' hblock
    refine ⟨?_, ?_, ?_⟩
    · refine nodup_cons.mpr ⟨?_, hs.keys⟩
      intro hmem
      obtain ⟨w, hw, hkey⟩ := mem_map.mp hmem
      exact hseen (any_eq_true.mpr ⟨w, hw, beq_iff_eq.mpr hkey⟩)
    · intro h b' hb'
      rcases eq_or_ne h winnerIn.nBlockHeight with rfl | hne
      · change Function.update s.mapProsperitynodeBlocks _ _ _ = some b' at hb'
        rw [Function.update_self] at hb'
        cases hb'
        exact addVotes_nodup winnerIn.payee 1 honce
      · change Function.update s.mapProsperitynodeBlocks _ _ _ = some b' at hb'
        rw [Function.update_of_ne hne] at hb'
        exact hs.once h b' hb'
    · intro h payee
      have hcount : winnersFor { s with
          mapProsperitynodePayeeVotes :=
            (winnerIn.GetHash C, winnerIn) :: s.mapProsperitynodePayeeVotes } h payee =
          winnersFor s h payee +
            if decide (winnerIn.nBlockHeight = h) && decide (winnerIn.payee = payee) then 1
            else 0 :=
        countP_cons
      show votesHeld _ h payee = ((winnersFor { s with
        mapProsperitynodePayeeVotes :=
          (winnerIn.GetHash C, winnerIn) :: s.mapProsperitynodePayeeVotes } h payee : Nat) : Int)
      rw [hcount, Nat.cast_add, ← hs.votes h payee]
      rcases eq_or_ne h winnerIn.nBlockHeight with rfl | hne
      · have hheld := @heldIn_addVotes payee winnerIn.payee 1 b.vecPayments
        rw [hbefore payee] at hheld
        simpa [votesHeld, CProsperitynodeBlockPayees.AddPayee] using hheld
      · simp [votesHeld, Function.update_of_ne hne, hne.symm]

section
variable {env : PaymentEnv} {nHeight h : Int}

/-- The test of the clean-up. -/
def oldAt (env : PaymentEnv) (nHeight : Int) (w : uint256 × CProsperitynodePaymentWinner) : Bool :=
  let nLimit : Int := max (env.nodes.vProsperitynodes.length * 5 / 4 : Nat) 1000
  decide (nHeight - w.2.nBlockHeight > nLimit)

theorem CleanPaymentList_of_tip (htip : env.tipHeight = some nHeight) :
    s.CleanPaymentList env =
      { s with
        mapProsperitynodePayeeVotes :=
          s.mapProsperitynodePayeeVotes.filter fun w => !oldAt env nHeight w
        mapProsperitynodeBlocks := fun h =>
          if s.mapProsperitynodePayeeVotes.any fun w => oldAt env nHeight w && w.2.nBlockHeight == h
          then none else s.mapProsperitynodeBlocks h } := by
  rw [CProsperitynodePayments.CleanPaymentList, htip]
  rfl

theorem oldAt_congr {w w' : uint256 × CProsperitynodePaymentWinner}
    (hheight : w.2.nBlockHeight = w'.2.nBlockHeight) :
    oldAt env nHeight w = oldAt env nHeight w' := by
  rw [oldAt, oldAt, hheight]

section
variable (htip : env.tipHeight = some nHeight) (payee : CScript)
include htip payee

theorem winnersFor_dropped
    {w : uint256 × CProsperitynodePaymentWinner} (hold : oldAt env nHeight w = true) :
    winnersFor (s.CleanPaymentList env) w.2.nBlockHeight payee = 0 := by
  rw [CleanPaymentList_of_tip htip]
  refine countP_eq_zero.mpr ?_
  intro w' hw' hmatch
  obtain ⟨hheight, -⟩ := and_eq_true_iff.mp hmatch
  obtain ⟨-, hnew⟩ := mem_filter.mp hw'
  rw [oldAt_congr (of_decide_eq_true hheight), hold] at hnew
  exact nomatch hnew

theorem winnersFor_kept (hnew : ∀ w ∈ s.mapProsperitynodePayeeVotes, w.2.nBlockHeight = h →
      oldAt env nHeight w = false) :
    winnersFor (s.CleanPaymentList env) h payee = winnersFor s h payee := by
  rw [CleanPaymentList_of_tip htip, winnersFor, winnersFor, countP_filter]
  refine countP_congr ?_
  intro w hw
  refine ⟨fun hmatch => (and_eq_true_iff.mp hmatch).1, fun hmatch => ?_⟩
  obtain ⟨hheight, -⟩ := and_eq_true_iff.mp hmatch
  refine and_eq_true_iff.mpr ⟨hmatch, ?_⟩
  rw [hnew w hw (of_decide_eq_true hheight)]
  rfl

end

theorem Tallied.clean (hs : Tallied s) (env : PaymentEnv) : Tallied (s.CleanPaymentList env) := by
  cases htip : env.tipHeight with
  | none =>
    rw [CProsperitynodePayments.CleanPaymentList, htip]
    exact hs
  | some nHeight =>
    have hclean := CleanPaymentList_of_tip (s := s) htip
    refine ⟨?_, ?_, ?_⟩
    · rw [hclean]
      exact hs.keys.sublist (filter_sublist.map Prod.fst)
    · intro h b hb
      rw [hclean] at hb
      obtain ⟨-, hb⟩ := Option.ite_none_left_eq_some.mp hb
      exact hs.once h b hb
    · intro h payee
      by_cases hdrop : ∃ w ∈ s.mapProsperitynodePayeeVotes,
          oldAt env nHeight w = true ∧ w.2.nBlockHeight = h
      · obtain ⟨w, hw, hold, rfl⟩ := hdrop
        rw [winnersFor_dropped htip payee hold, votesHeld, hclean]
        have hany : (s.mapProsperitynodePayeeVotes.any fun w' =>
            oldAt env nHeight w' && w'.2.nBlockHeight == w.2.nBlockHeight) = true :=
          any_eq_true.mpr ⟨w, hw, and_eq_true_iff.mpr ⟨hold, beq_iff_eq.mpr rfl⟩⟩
        simp only [hany]
        rfl
      · have hnew : ∀ w ∈ s.mapProsperitynodePayeeVotes, w.2.nBlockHeight = h →
            oldAt env nHeight w = false :=
          fun w hw hheight => eq_false_iff.mpr fun hold => hdrop ⟨w, hw, hold, hheight⟩
        rw [winnersFor_kept htip payee hnew, ← hs.votes h payee, votesHeld, votesHeld, hclean]
        have hany : (s.mapProsperitynodePayeeVotes.any fun w =>
            oldAt env nHeight w && w.2.nBlockHeight == h) = false := by
          refine any_eq_false.mpr ?_
          intro w hw hmatch
          obtain ⟨hold, hheight⟩ := and_eq_true_iff.mp hmatch
          exact hdrop ⟨w, hw, hold, beq_iff_eq.mp hheight⟩
        simp only [hany]
        rfl

end

theorem Tallied.step (hs : Tallied s) (op : VoteOp) : Tallied (voteStep C s op) := by
  cases op with
  | AddWinningProsperitynode env winnerIn => exact hs.add env winnerIn
  | CleanPaymentList env => exact hs.clean env

theorem Tallied.run (hs : Tallied s) (ops : List VoteOp) : Tallied (ops.foldl (voteStep C) s) := by
  induction ops generalizing s with
  | nil => exact hs
  | cons op ops ih => exact ih (hs.step op)

end

/-- **The numbers are those of the votes**, at every height and for every payee, whatever has
been added and cleaned up; and there is one entry that holds them. -/
theorem votes_tallied (C : Crypto) (ops : List VoteOp) (h : Int) (payee : CScript) :
    votesHeld (ops.foldl (voteStep C) .empty) h payee =
        winnersFor (ops.foldl (voteStep C) .empty) h payee ∧
      ∀ b, (ops.foldl (voteStep C) .empty).mapProsperitynodeBlocks h = some b →
        (b.vecPayments.map CProsperitynodePayee.scriptPubKey).Nodup := by
  have hrun : Tallied (ops.foldl (voteStep C) .empty) := tallied_empty.run ops
  exact ⟨hrun.votes h payee, hrun.once h⟩

end Divitae
