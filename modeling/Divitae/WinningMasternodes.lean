/-
# `WinningMasternodes` — the winners the masternodes are paid by

The holder of one key declares which masternode a height pays and to which script (`mnw`).
A node keeps one winner for each height:

    first declared     taken over
    higher score       takes the place of the one kept
    same or lower      left out
    hash seen before   ignored before any of this

The score is of the hash of the collateral transaction; the hash of a declaration is made of
its height and that same hash.  Neither knows the output of that transaction, nor the script.

A run over arrivals is an election with a seat for each height (`Kept`): what is kept at a
height is the first of the highest scores among the declarations that are heard.  There is
never more than one winner for a height.  Which one it is depends on the order as far as the
election does:

    two payees for one input        whichever is declared first
    two outputs of one transaction  whichever is declared first
-/
import Divitae.BlockPayee
import Divitae.Lib.Election

namespace Divitae.Winning

open List Option

structure CMasternodePaymentWinner where
  nBlockHeight : Int
  payee : CScript
  vin : CTxIn
  score : Nat -- 64 bits
  vchSig : List UInt8
  deriving DecidableEq

/-- What declarations are judged by. -/
structure WinnerNet where
  C : Crypto
  T : Texts
  HashQuark : List UInt8 → uint256
  strPubKey : CPubKey -- of the network
  blockHash : Int → Option uint256 -- `GetBlockHashMN`

/-- `a > b ? a - b : b - a`. -/
def distance (a b : uint256) : uint256 := if a > b then a - b else b - a

section
variable (N : WinnerNet)

def CMasternodePaymentWinner.GetHash (winner : CMasternodePaymentWinner) : uint256 :=
  distance winner.vin.prevout.hash (N.HashQuark (leInt 4 winner.nBlockHeight))

/-- `CMasternodePayments::CalculateScore`; `Get64` takes the low word. -/
def CalculateScore (blockHash : uint256) (vin : CTxIn) : Nat :=
  let n2 := N.HashQuark (serUint256 blockHash)
  let n3 := N.HashQuark (serUint256 vin.prevout.hash)
  ((distance n3 n2).setWidth 64).toNat

def CheckSignature (winner : CMasternodePaymentWinner) : Bool :=
  let strMessage := winner.vin.ToString N.T ++ Decimal.ofInt winner.nBlockHeight ++
    N.T.scriptToString winner.payee
  N.C.VerifyMessage N.strPubKey winner.vchSig strMessage

end

structure CMasternodePayments where
  vWinning : List CMasternodePaymentWinner
  mapSeenMasternodeVotes : uint256 → Option CMasternodePaymentWinner

/-- The loop of `AddWinningMasternode`: the vector, whether the height was found and whether
the winner took a place. -/
def mergeWinner (winnerIn : CMasternodePaymentWinner) :
    List CMasternodePaymentWinner → List CMasternodePaymentWinner × Bool × Bool
  | [] => ([], false, false)
  | winner :: rest =>
    if winner.nBlockHeight = winnerIn.nBlockHeight then
      if winner.score < winnerIn.score then
        ({ winner with
          score := winnerIn.score
          vin := winnerIn.vin
          payee := winnerIn.payee
          vchSig := winnerIn.vchSig } :: rest, true, true)
      else
        let (rest, _, taken) := mergeWinner winnerIn rest
        (winner :: rest, true, taken)
    else
      let (rest, foundBlock, taken) := mergeWinner winnerIn rest
      (winner :: rest, foundBlock, taken)

namespace CMasternodePayments

variable (N : WinnerNet) (s : CMasternodePayments)

def empty : CMasternodePayments := ⟨[], fun _ => none⟩

def AddWinningMasternode (winnerIn : CMasternodePaymentWinner) : CMasternodePayments × Bool :=
  match N.blockHash (winnerIn.nBlockHeight - 576) with
  | none => (s, false)
  | some blockHash =>
    let winnerIn := { winnerIn with score := CalculateScore N blockHash winnerIn.vin }
    let seen := mapInsert s.mapSeenMasternodeVotes (winnerIn.GetHash N) winnerIn
    match mergeWinner winnerIn s.vWinning with
    | (vWinning, _, true) => (⟨vWinning, seen⟩, true)
    | (vWinning, false, false) => (⟨vWinning ++ [winnerIn], seen⟩, true)
    | (_, true, false) => (s, false)

/-- The declaration is for a height near that of the tip, its input is final and the holder
of the key signed it. -/
def Acceptable (nHeight : Int) (winner : CMasternodePaymentWinner) : Bool :=
  !(winner.nBlockHeight < nHeight - 10 || winner.nBlockHeight > nHeight + 20) &&
    winner.vin.nSequence == 0xFFFFFFFF && CheckSignature N winner

/-- `mnw` of `ProcessMessageMasternodePayments`. -/
def ProcessWinner (fInitialDownload : Bool) (tipHeight : Option Int)
    (winner : CMasternodePaymentWinner) : CMasternodePayments :=
  if fInitialDownload then s
  else
    match tipHeight with
    | none => s
    | some nHeight =>
      let hash := winner.GetHash N
      if (s.mapSeenMasternodeVotes hash).isSome then s -- seen vote
      else if !Acceptable N nHeight winner then s
      else
        let s := { s with
          mapSeenMasternodeVotes := mapInsert s.mapSeenMasternodeVotes hash winner }
        (s.AddWinningMasternode N winner).1

/-- The clean-up drops one old winner, if there is one. -/
def CleanPaymentList (tipHeight : Option Int) (nMasternodes : Nat) : CMasternodePayments :=
  match tipHeight with
  | none => s
  | some nHeight =>
    let nLimit : Int := max (nMasternodes * 2 : Nat) 1000
    { s with vWinning := s.vWinning.eraseP fun winner => nHeight - winner.nBlockHeight > nLimit }

def GetWinningMasternode (nBlockHeight : Int) : Option CTxIn :=
  (s.vWinning.find? fun winner => winner.nBlockHeight == nBlockHeight).map (·.vin)

/-- The vector as the check of a block reads it. -/
def forBlocks : Divitae.CMasternodePayments :=
  ⟨s.vWinning.map fun winner => ⟨winner.nBlockHeight, winner.payee⟩⟩

end CMasternodePayments

/-! ## Runs -/

inductive WinnerEvent where
  | mnw (fInitialDownload : Bool) (tipHeight : Option Int) (winner : CMasternodePaymentWinner)
  | cleanUp (tipHeight : Option Int) (nMasternodes : Nat)

def winnerStep (N : WinnerNet) (s : CMasternodePayments) : WinnerEvent → CMasternodePayments
  | .mnw fInitialDownload tipHeight winner => s.ProcessWinner N fInitialDownload tipHeight winner
  | .cleanUp tipHeight nMasternodes => s.CleanPaymentList tipHeight nMasternodes

def winnerRun (N : WinnerNet) (es : List WinnerEvent) : CMasternodePayments :=
  es.foldl (winnerStep N) .empty

/-- A valid declaration and the height of the tip it arrives at. -/
structure Arrival (N : WinnerNet) where
  nHeight : Int
  winner : CMasternodePaymentWinner
  acceptable : CMasternodePayments.Acceptable N nHeight winner = true

/-- The arrivals in their order. -/
def arrivalRun {N : WinnerNet} (es : List (Arrival N)) : CMasternodePayments :=
  winnerRun N (es.map fun e => .mnw false (some e.nHeight) e.winner)

/-- Winner and payee of every height. -/
def SameWinners (s s' : CMasternodePayments) : Prop :=
  ∀ nBlockHeight, s.GetWinningMasternode nBlockHeight = s'.GetWinningMasternode nBlockHeight ∧
    s.forBlocks.GetBlockPayee nBlockHeight = s'.forBlocks.GetBlockPayee nBlockHeight

/-- What of a declaration counts. -/
def winnerRules (N : WinnerNet) : Election.Rules CMasternodePaymentWinner uint256 Int where
  key winner := winner.GetHash N
  seat winner :=
    if (N.blockHash (winner.nBlockHeight - 576)).isSome then some winner.nBlockHeight else none
  score winner :=
    match N.blockHash (winner.nBlockHeight - 576) with
    | none => 0
    | some blockHash => CalculateScore N blockHash winner.vin

open Election

def winnerAt (l : List CMasternodePaymentWinner) (h : Int) : Option CMasternodePaymentWinner :=
  l.find? fun winner => winner.nBlockHeight == h

def OncePerHeight (l : List CMasternodePaymentWinner) : Prop :=
  (l.map CMasternodePaymentWinner.nBlockHeight).Nodup

/-! ## The loop -/

section
variable {l before after : List CMasternodePaymentWinner} {w x : CMasternodePaymentWinner} {h : Int}

theorem mergeWinner_absent (hl : ∀ x ∈ l, x.nBlockHeight ≠ w.nBlockHeight) :
    mergeWinner w l = (l, false, false) := by
  induction l with
  | nil => rfl
  | cons x rest ih =>
    rw [mergeWinner, if_neg (hl x mem_cons_self), ih fun y hy => hl y (mem_cons_of_mem x hy)]

theorem mergeWinner_present (hx : x.nBlockHeight = w.nBlockHeight)
    (hbefore : ∀ y ∈ before, y.nBlockHeight ≠ w.nBlockHeight)
    (hafter : ∀ y ∈ after, y.nBlockHeight ≠ w.nBlockHeight) :
    mergeWinner w (before ++ x :: after) =
      if x.score < w.score then (before ++ w :: after, true, true)
      else (before ++ x :: after, true, false) := by
  induction before with
  | nil =>
    rw [nil_append, mergeWinner, if_pos hx]
    split_ifs with hscore
    · rw [hx]
      rfl
    · rw [mergeWinner_absent hafter]
  | cons y before ih =>
    rw [cons_append, mergeWinner, if_neg (hbefore y mem_cons_self),
      ih fun z hz => hbefore z (mem_cons_of_mem y hz)]
    split_ifs <;> rfl

theorem winnerAt_append (l l' : List CMasternodePaymentWinner) :
    winnerAt (l ++ l') h = (winnerAt l h).or (winnerAt l' h) := List.find?_append

theorem winnerAt_cons : winnerAt (x :: l) h =
    if x.nBlockHeight = h then some x else winnerAt l h := by
  rw [winnerAt, List.find?_cons]
  by_cases hx : x.nBlockHeight = h
  · rw [beq_iff_eq.mpr hx, if_pos hx]
  · rw [beq_eq_false_iff_ne.mpr hx, if_neg hx]
    rfl

theorem winnerAt_eq_none : winnerAt l h = none ↔ ∀ x ∈ l, x.nBlockHeight ≠ h := by
  rw [winnerAt, List.find?_eq_none]
  refine forall₂_congr fun x _ => ?_
  rw [beq_iff_eq]

theorem winnerAt_split (hl : OncePerHeight l) (hx : winnerAt l h = some x) :
    ∃ before after, l = before ++ x :: after ∧ x.nBlockHeight = h ∧
      (∀ y ∈ before, y.nBlockHeight ≠ h) ∧ ∀ y ∈ after, y.nBlockHeight ≠ h := by
  obtain ⟨hmatch, before, after, rfl, hbefore⟩ := List.find?_eq_some_iff_append.mp hx
  have hheight : x.nBlockHeight = h := beq_iff_eq.mp hmatch
  refine ⟨before, after, rfl, hheight, ?_, ?_⟩
  · intro y hy hyh
    have hno := hbefore y hy
    rw [Bool.not_eq_true', beq_eq_false_iff_ne] at hno
    exact hno hyh
  · intro y hy hyh
    rw [OncePerHeight, map_append, map_cons] at hl
    have hnotin := (nodup_cons.mp (nodup_append.mp hl).2.1).1
    exact hnotin (mem_map.mpr ⟨y, hy, hyh.trans hheight.symm⟩)

end

/-! ## One declaration -/

section
variable {N : WinnerNet} {s : CMasternodePayments} {w : CMasternodePaymentWinner}

/-- The declaration with the score it is given. -/
def scored (N : WinnerNet) (w : CMasternodePaymentWinner) : CMasternodePaymentWinner :=
  { w with score := (winnerRules N).score w }

theorem seat_of_unknown (h : N.blockHash (w.nBlockHeight - 576) = none) :
    (winnerRules N).seat w = none := by
  show (if (N.blockHash (w.nBlockHeight - 576)).isSome then _ else none) = none
  rw [h]
  rfl

variable {blockHash : uint256}

section
variable (h : N.blockHash (w.nBlockHeight - 576) = some blockHash)
include h

theorem seat_of_known :
    (winnerRules N).seat w = some w.nBlockHeight := by
  show (if (N.blockHash (w.nBlockHeight - 576)).isSome then _ else none) = _
  rw [h]
  rfl

theorem scored_of_known :
    scored N w = { w with score := CalculateScore N blockHash w.vin } := by
  have hscore : (winnerRules N).score w = CalculateScore N blockHash w.vin := by
    show (match N.blockHash (w.nBlockHeight - 576) with
      | none => 0
      | some blockHash => CalculateScore N blockHash w.vin) = _
    rw [h]
  rw [scored, hscore]

end

/-- What `AddWinningMasternode` makes of a height's winner. -/
def takes (N : WinnerNet) (w : CMasternodePaymentWinner) :
    Option CMasternodePaymentWinner → CMasternodePaymentWinner
  | none => scored N w
  | some x => if x.score < (scored N w).score then scored N w else x

theorem AddWinningMasternode_vWinning (hs : OncePerHeight s.vWinning)
    (hknown : N.blockHash (w.nBlockHeight - 576) = some blockHash) :
    OncePerHeight (s.AddWinningMasternode N w).1.vWinning ∧
      ∀ h, winnerAt (s.AddWinningMasternode N w).1.vWinning h =
        if w.nBlockHeight = h then some (takes N w (winnerAt s.vWinning h))
        else winnerAt s.vWinning h := by
  rw [CMasternodePayments.AddWinningMasternode, hknown]
  simp only [← scored_of_known hknown]
  cases hat : winnerAt s.vWinning w.nBlockHeight with
  | none =>
    have habsent : ∀ x ∈ s.vWinning, x.nBlockHeight ≠ (scored N w).nBlockHeight :=
      winnerAt_eq_none.mp hat
    rw [mergeWinner_absent habsent]
    constructor
    · show OncePerHeight (s.vWinning ++ [scored N w])
      rw [OncePerHeight, map_append]
      refine hs.append (nodup_singleton _) ?_
      intro h hh hin
      obtain ⟨x, hx, rfl⟩ := mem_map.mp hh
      exact habsent x hx (mem_singleton.mp hin)
    · intro h
      rw [winnerAt_append, winnerAt_cons]
      by_cases hh : w.nBlockHeight = h
      · rw [if_pos (show (scored N w).nBlockHeight = h from hh), if_pos hh, ← hh, hat]
        rfl
      · rw [if_neg (show ¬(scored N w).nBlockHeight = h from hh), if_neg hh]
        exact or_none
  | some x =>
    obtain ⟨before, after, hl, hx, hbefore, hafter⟩ := winnerAt_split hs hat
    have hmerge : mergeWinner (scored N w) s.vWinning =
        if x.score < (scored N w).score then (before ++ scored N w :: after, true, true)
        else (before ++ x :: after, true, false) := by
      rw [hl]
      exact mergeWinner_present hx hbefore hafter
    rw [hmerge]
    by_cases hscore : x.score < (scored N w).score
    · rw [if_pos hscore]
      have hheights : (before ++ scored N w :: after).map
          CMasternodePaymentWinner.nBlockHeight =
          s.vWinning.map CMasternodePaymentWinner.nBlockHeight := by
        rw [hl, map_append, map_append, map_cons, map_cons, hx]
        rfl
      constructor
      · show OncePerHeight (before ++ scored N w :: after)
        rw [OncePerHeight, hheights]
        exact hs
      · intro h
        rw [winnerAt_append, winnerAt_cons]
        by_cases hh : w.nBlockHeight = h
        · have hnone : winnerAt before h = none :=
            winnerAt_eq_none.mpr fun y hy => hh ▸ hbefore y hy
          rw [if_pos (show (scored N w).nBlockHeight = h from hh), if_pos hh, hnone, ← hh, hat,
            takes, if_pos hscore]
          rfl
        · rw [if_neg (show ¬(scored N w).nBlockHeight = h from hh), if_neg hh, hl,
            winnerAt_append, winnerAt_cons, if_neg (hx ▸ hh)]
    · rw [if_neg hscore]
      constructor
      · exact hs
      · intro h
        by_cases hh : w.nBlockHeight = h
        · rw [if_pos hh, ← hh, hat, takes, if_neg hscore]
        · rw [if_neg hh]

theorem ProcessWinner_eq (nHeight : Int) :
    s.ProcessWinner N false (some nHeight) w =
      if (s.mapSeenMasternodeVotes (w.GetHash N)).isSome then s
      else if !CMasternodePayments.Acceptable N nHeight w then s
      else
        (CMasternodePayments.AddWinningMasternode N { s with
          mapSeenMasternodeVotes := mapInsert s.mapSeenMasternodeVotes (w.GetHash N) w } w).1 := rfl

theorem AddWinningMasternode_seen (hseen : (s.mapSeenMasternodeVotes (w.GetHash N)).isSome)
    (k : uint256) : ((s.AddWinningMasternode N w).1.mapSeenMasternodeVotes k).isSome ↔
      (s.mapSeenMasternodeVotes k).isSome := by
  rw [CMasternodePayments.AddWinningMasternode]
  cases N.blockHash (w.nBlockHeight - 576) with
  | none => exact Iff.rfl
  | some blockHash =>
    have hinsert : (mapInsert s.mapSeenMasternodeVotes (w.GetHash N)
        { w with score := CalculateScore N blockHash w.vin } k).isSome ↔
        (s.mapSeenMasternodeVotes k).isSome :=
      (mapInsert_isSome _ _ _ _).trans ⟨fun h => h.elim id fun h => h ▸ hseen, .inl⟩
    simp only
    split
    · exact hinsert
    · exact hinsert
    · exact Iff.rfl

end

/-! ## Runs -/

section
variable {N : WinnerNet} {s : CMasternodePayments}

theorem winnerStep_once (hs : OncePerHeight s.vWinning)
    (e : WinnerEvent) : OncePerHeight (winnerStep N s e).vWinning := by
  cases e with
  | cleanUp tipHeight nMasternodes =>
    cases tipHeight with
    | none => exact hs
    | some nHeight => exact hs.sublist ((eraseP_sublist).map _)
  | mnw fInitialDownload tipHeight winner =>
    have hadd : ∀ s' : CMasternodePayments, s'.vWinning = s.vWinning →
        OncePerHeight (s'.AddWinningMasternode N winner).1.vWinning := by
      intro s' hsame
      cases hknown : N.blockHash (winner.nBlockHeight - 576) with
      | none =>
        rw [CMasternodePayments.AddWinningMasternode, hknown]
        exact hsame ▸ hs
      | some blockHash => exact (AddWinningMasternode_vWinning (hsame ▸ hs) hknown).1
    cases fInitialDownload with
    | true => exact hs
    | false =>
      cases tipHeight with
      | none => exact hs
      | some nHeight =>
        rw [winnerStep, ProcessWinner_eq]
        split_ifs
        · exact hs
        · exact hs
        · exact hadd _ rfl

/-- **There is at most one winner for a height**, whatever arrives and is cleaned up. -/
theorem winnerRun_once (es : List WinnerEvent) : OncePerHeight (winnerRun N es).vWinning := by
  induction es using List.reverseRecOn with
  | nil => exact nodup_nil
  | append_singleton es e ih =>
    rw [winnerRun, foldl_append]
    exact winnerStep_once ih e

theorem arrivalRun_concat (es : List (Arrival N)) (e : Arrival N) :
    arrivalRun (es ++ [e]) = (arrivalRun es).ProcessWinner N false (some e.nHeight) e.winner := by
  rw [arrivalRun, winnerRun, map_append, foldl_append]
  rfl

/-- What has arrived, as an election. -/
structure Kept (N : WinnerNet) (l : List CMasternodePaymentWinner) (s : CMasternodePayments) :
    Prop where
  once : OncePerHeight s.vWinning
  seen : ∀ k, (s.mapSeenMasternodeVotes k).isSome ↔ ∃ w ∈ l, w.GetHash N = k
  won : ∀ h, winnerAt s.vWinning h = (elected (winnerRules N) l h).map (scored N)

theorem Kept.arrive {l : List CMasternodePaymentWinner}
    (hs : Kept N l s) (e : Arrival N) :
    Kept N (l ++ [e.winner]) (s.ProcessWinner N false (some e.nHeight) e.winner) := by
  have hmem : ∀ k, (∃ w ∈ l ++ [e.winner], w.GetHash N = k) ↔
      (∃ w ∈ l, w.GetHash N = k) ∨ k = e.winner.GetHash N := by
    intro k
    constructor
    · rintro ⟨w, hw, rfl⟩
      rcases mem_append.mp hw with hw | hw
      · exact .inl ⟨w, hw, rfl⟩
      · exact .inr (mem_singleton.mp hw ▸ rfl)
    · rintro (⟨w, hw, rfl⟩ | rfl)
      · exact ⟨w, mem_append_left _ hw, rfl⟩
      · exact ⟨e.winner, mem_append_right l mem_cons_self, rfl⟩
  have hheard : ((heard (winnerRules N) l).any fun w =>
      (winnerRules N).key w == (winnerRules N).key e.winner) = true ↔
      (s.mapSeenMasternodeVotes (e.winner.GetHash N)).isSome :=
    (heard_any l _).trans (hs.seen _).symm
  rw [ProcessWinner_eq]
  by_cases hseen : (s.mapSeenMasternodeVotes (e.winner.GetHash N)).isSome
  · rw [if_pos hseen]
    refine ⟨hs.once, ?_, ?_⟩
    · intro k
      rw [hmem, ← hs.seen]
      exact ⟨.inl, fun h => h.elim id fun h => h ▸ hseen⟩
    · intro h
      rw [elected_concat, if_pos (hheard.mpr hseen)]
      exact hs.won h
  · have hacceptable : ¬((!CMasternodePayments.Acceptable N e.nHeight e.winner) = true) := by
      rw [e.acceptable]
      exact Bool.false_ne_true
    rw [if_neg hseen, if_neg hacceptable]
    set s' : CMasternodePayments := { s with
      mapSeenMasternodeVotes :=
        mapInsert s.mapSeenMasternodeVotes (e.winner.GetHash N) e.winner } with hs'
    have hseen' : ∀ k,
        ((s'.AddWinningMasternode N e.winner).1.mapSeenMasternodeVotes k).isSome ↔
          ∃ w ∈ l ++ [e.winner], w.GetHash N = k := by
      intro k
      have hinsert : (s'.mapSeenMasternodeVotes (e.winner.GetHash N)).isSome :=
        (mapInsert_isSome _ _ _ _).mpr (.inr rfl)
      rw [AddWinningMasternode_seen hinsert, hmem, ← hs.seen]
      exact (mapInsert_isSome _ _ _ _).trans (or_congr_right eq_comm)
    have hnew : ¬(((heard (winnerRules N) l).any fun w =>
        (winnerRules N).key w == (winnerRules N).key e.winner) = true) :=
      fun h => hseen (hheard.mp h)
    cases hknown : N.blockHash (e.winner.nBlockHeight - 576) with
    | none =>
      have hsame : (s'.AddWinningMasternode N e.winner).1.vWinning = s.vWinning := by
        rw [CMasternodePayments.AddWinningMasternode, hknown]
      refine ⟨hsame ▸ hs.once, hseen', ?_⟩
      intro h
      have hseat : ¬((winnerRules N).seat e.winner = some h) := by
        rw [seat_of_unknown hknown]
        exact (some_ne_none h).symm
      rw [hsame, elected_concat, if_neg hnew, if_neg hseat]
      exact hs.won h
    | some blockHash =>
      obtain ⟨honce, hwon⟩ := AddWinningMasternode_vWinning (s := s') hs.once hknown
      refine ⟨honce, hseen', ?_⟩
      intro h
      rw [hwon h, elected_concat, if_neg hnew, seat_of_known hknown]
      by_cases hh : e.winner.nBlockHeight = h
      · rw [if_pos hh, if_pos (congrArg some hh)]
        have hbefore : winnerAt s'.vWinning h =
            (elected (winnerRules N) l h).map (scored N) := hs.won h
        rw [hbefore]
        cases elected (winnerRules N) l h with
        | none => rfl
        | some w =>
          rw [map_some, takes]
          show some (if (winnerRules N).score w < (winnerRules N).score e.winner then _ else _) = _
          simp only
          split_ifs <;> rfl
      · rw [if_neg hh, if_neg fun h' => hh (some.inj h')]
        exact hs.won h

theorem kept_run (es : List (Arrival N)) : Kept N (es.map (·.winner)) (arrivalRun es) := by
  induction es using List.reverseRecOn with
  | nil =>
    refine ⟨nodup_nil, ?_, fun h => rfl⟩
    intro k
    constructor
    · intro h
      exact nomatch h
    · rintro ⟨w, hw, -⟩
      exact nomatch hw
  | append_singleton es e ih =>
    rw [arrivalRun_concat, map_append]
    exact ih.arrive e

/-- What declarations that can win a height must agree on. -/
def paid (w : CMasternodePaymentWinner) : CTxIn × CScript := (w.vin, w.payee)

theorem sameWinners_iff (es es' : List (Arrival N)) :
    SameWinners (arrivalRun es') (arrivalRun es) ↔
      ∀ h, (elected (winnerRules N) (es'.map (·.winner)) h).map paid =
        (elected (winnerRules N) (es.map (·.winner)) h).map paid := by
  have hread : ∀ (es : List (Arrival N)) (h : Int),
      (arrivalRun es).GetWinningMasternode h =
          ((elected (winnerRules N) (es.map (·.winner)) h).map paid).map Prod.fst ∧
        (arrivalRun es).forBlocks.GetBlockPayee h =
          ((elected (winnerRules N) (es.map (·.winner)) h).map paid).map Prod.snd := by
    intro es h
    have hwon : (arrivalRun es).vWinning.find? (fun winner => winner.nBlockHeight == h) = _ :=
      (kept_run es).won h
    constructor
    · rw [CMasternodePayments.GetWinningMasternode, hwon, Option.map_map, Option.map_map]
      rfl
    · rw [Divitae.CMasternodePayments.GetBlockPayee, CMasternodePayments.forBlocks,
        List.find?_map, Option.map_map]
      have hwon' : (arrivalRun es).vWinning.find?
          ((fun winner : Divitae.CMasternodePaymentWinner => winner.nBlockHeight == h) ∘
            fun winner => ⟨winner.nBlockHeight, winner.payee⟩) = _ := hwon
      rw [hwon', Option.map_map, Option.map_map]
      rfl
  refine forall_congr' fun h => ?_
  rw [(hread es' h).1, (hread es' h).2, (hread es h).1, (hread es h).2]
  constructor
  · rintro ⟨hvin, hpayee⟩
    cases h' : (elected (winnerRules N) (es'.map (·.winner)) h).map paid with
    | none =>
      rw [h'] at hvin
      exact (map_eq_none_iff.mp hvin.symm).symm
    | some p' =>
      cases h : (elected (winnerRules N) (es.map (·.winner)) _).map paid with
      | none =>
        rw [h', h] at hvin
        exact nomatch hvin
      | some p =>
        rw [h', h] at hvin hpayee
        exact congrArg some (Prod.ext (some.inj hvin) (some.inj hpayee))
  · intro hsame
    rw [hsame]
    exact ⟨rfl, rfl⟩

theorem exists_arrivals (es : List (Arrival N)) (l : List CMasternodePaymentWinner)
    (hl : ∀ w ∈ l, w ∈ es.map (·.winner)) :
    ∃ es' : List (Arrival N), es'.map (·.winner) = l := by
  induction l with
  | nil => exact ⟨[], rfl⟩
  | cons w rest ih =>
    obtain ⟨e, -, he⟩ := mem_map.mp (hl w mem_cons_self)
    obtain ⟨es', hes'⟩ := ih fun x hx => hl x (mem_cons_of_mem w hx)
    exact ⟨e :: es', by rw [map_cons, he, hes']⟩

/-- **One winner for a height, and when it does not depend on the order.**  The declarations
are valid where they arrive; the heights of the tip they arrive at may differ from one order
to the other. -/
theorem winners_order_free_iff (N : WinnerNet) :
    (∀ es : List WinnerEvent, OncePerHeight (winnerRun N es).vWinning) ∧
      ∀ es : List (Arrival N),
        (∀ es' : List (Arrival N), (es'.map (·.winner)).Perm (es.map (·.winner)) →
            SameWinners (arrivalRun es') (arrivalRun es)) ↔
          Decided (winnerRules N) paid (es.map (·.winner)) := by
  refine ⟨winnerRun_once, ?_⟩
  intro es
  rw [← elected_free_iff]
  constructor
  · intro hfree l hl h
    obtain ⟨es', rfl⟩ := exists_arrivals es l fun w hw => hl.mem_iff.mp hw
    exact (sameWinners_iff es es').mp (hfree es' hl) h
  · intro hfree es' hperm
    exact (sameWinners_iff es es').mpr fun h => hfree _ hperm h

end

/-! ## Two payees for one input -/

/-- Signatures are the signed hash, hashes are sums. -/
def plainSigner : Crypto where
  hash256 bs := BitVec.ofNat 256 (bs.foldl (fun n b => n + b.toNat) 0)
  hash160 _ := 0
  getPubKey _ := .ofBytes []
  signCompact _ h := some (serUint256 h)
  recoverCompact h vchSig := if vchSig = serUint256 h then some (.ofBytes []) else none

def plainNet : WinnerNet where
  C := plainSigner
  T := ⟨fun _ => none, fun script => script⟩
  HashQuark bs := BitVec.ofNat 256 (bs.foldl (fun n b => n + b.toNat) 0)
  strPubKey := .ofBytes []
  blockHash h := if h < 1000 then some 5 else none

/-- Declared for height 1005, with the signature of the holder of the key. -/
def declaration (payee : CScript) : CMasternodePaymentWinner :=
  let vin : CTxIn := ⟨⟨7, 0⟩, [], 0xFFFFFFFF⟩
  let strMessage := vin.ToString plainNet.T ++ Decimal.ofInt 1005 ++ payee
  ⟨1005, payee, vin, 0, serUint256 (plainSigner.messageHash strMessage)⟩

theorem declaration_acceptable :
    CMasternodePayments.Acceptable plainNet 1000 (declaration [1]) = true ∧
      CMasternodePayments.Acceptable plainNet 1000 (declaration [2]) = true := by
  decide +kernel

def declared : Arrival plainNet × Arrival plainNet :=
  (⟨1000, declaration [1], declaration_acceptable.1⟩,
    ⟨1000, declaration [2], declaration_acceptable.2⟩)

/-- **The payee of a height depends on the order**: one input is declared with two scripts. -/
theorem payee_by_order :
    (arrivalRun [declared.1, declared.2]).forBlocks.GetBlockPayee 1005 = some [1] ∧
      (arrivalRun [declared.2, declared.1]).forBlocks.GetBlockPayee 1005 = some [2] ∧
      ¬∀ (N : WinnerNet) (es es' : List (Arrival N)),
        (es'.map (·.winner)).Perm (es.map (·.winner)) →
          SameWinners (arrivalRun es') (arrivalRun es) := by
  have hfirst : (arrivalRun [declared.1, declared.2]).forBlocks.GetBlockPayee 1005 = some [1] := by
    decide +kernel
  have hsecond : (arrivalRun [declared.2, declared.1]).forBlocks.GetBlockPayee 1005 = some [2] := by
    decide +kernel
  refine ⟨hfirst, hsecond, ?_⟩
  intro hfree
  have hsame := (hfree plainNet [declared.1, declared.2] [declared.2, declared.1]
    (List.Perm.swap _ _ _) 1005).2
  rw [hfirst, hsecond] at hsame
  exact absurd hsame (by decide)

end Divitae.Winning
