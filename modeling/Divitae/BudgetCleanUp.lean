/-
# `BudgetCleanUp` — the clean-up of the budget

`CheckAndRemove` looks at every finalized budget and every proposal again, and votes on
the way for a budget that matches what the node would propose itself.  Then it overwrites
both maps with temporary ones.  The lines that would have filled those are commented out,
so that both maps are empty afterwards.

    CarriesIf        every valid object is kept, with a vote of each of its voters
    CheckAndRemove   nothing is left

A vote on a finalized budget carries a flag, and `CleanAndRemove` clears it where the node of the
vote is no longer listed.  `GetVoteCount`, which the three functions that decide on a budget
payment compare, is the size of the map:

    IsBudgetPaymentBlock    the highest count against a twentieth of the nodes
    FillBlockPayee          the payment of the highest count
    IsTransactionValid      the highest count, and each count against a tenth less

A clean-up takes no vote out of the map, so a vote counts for as long as its budget is there.
-/
import Divitae.BlockPayee
import Divitae.ForgedVotes
import Divitae.Lib.ScoreSort

namespace Divitae

open ScoreSort List HashMap

/-- What the clean-up asks of the node besides. -/
structure CleanUpEnv extends BudgetEnv where
  strBudgetMode : String
  /-- what `rand()` returns for the finalized budget of this hash -/
  rand : uint256 → Nat
  /-- `CScript::ToString` -/
  scriptText : CScript → List UInt8
  /-- `SetKey` and `Sign` with the key of the node; nothing where they fail -/
  signMessage : List UInt8 → Option (List UInt8)
  /-- `std::sort` -/
  sort : StdSort

/-- The manager with the flags that only the clean-up reads, by the keys of the maps. -/
structure CleanUp extends CBudgetManager where
  fAutoChecked : uint256 → Bool -- of a finalized budget
  fValid : uint256 → Bool -- of a proposal

section
variable {ν : Type} (m : HashMap ν)

/-- The keys of a `std::map`, as its iterator meets them. -/
def HashMap.keysInOrder : List uint256 := m.keys.insertionSort fun a b => a ≤ b

/-- A loop that changes the values in place. -/
def HashMap.mapValues (f : ν → ν) : HashMap ν where
  entries := m.entries.map fun e => ⟨e.1, f e.2⟩
  nodupKeys := by
    show ((m.entries.map fun e => (⟨e.1, f e.2⟩ : Sigma fun _ : uint256 => ν)).map Sigma.fst).Nodup
    rw [map_map]
    exact m.nodupKeys

theorem HashMap.lookup_mapValues (f : ν → ν) (k : uint256) :
    AList.lookup k (m.mapValues f) = (m.lookup k).map f := by
  show List.dlookup k (m.entries.map fun e => (⟨e.1, f e.2⟩ : Sigma fun _ : uint256 => ν)) =
    (List.dlookup k m.entries).map f
  induction m.entries with
  | nil => rfl
  | cons e rest ih =>
    obtain ⟨k', v⟩ := e
    by_cases hk : k = k'
    · subst hk
      rw [map_cons, dlookup_cons_eq, dlookup_cons_eq]
      rfl
    · rw [map_cons, dlookup_cons_ne _ _ hk, dlookup_cons_ne _ _ hk, ih]

end

/-! ## The budget the node would propose -/

namespace CBudgetProposal

variable (C : Crypto) (P : CChainParams) (env : BudgetEnv) (p : CBudgetProposal)

/-- The votes of nodes that are gone no longer count. -/
def CleanAndRemove (fSignatureCheck : Bool) : CBudgetProposal :=
  { p with
    mapVotes := HashMap.mapValues p.mapVotes fun vote =>
      { vote with fValid := CBudgetVote.kind.SignatureValid C env vote fSignatureCheck } }

/-- Proposals must be at least a day old to make it into a budget. -/
def IsEstablished : Bool :=
  if P.networkID = .MAIN then p.nTime < env.time - 60 * 60 * 24 else p.nTime < env.time - 60 * 5

/-- What `sortProposalsByVotes` compares: the votes, and where they tie the fee transaction. -/
def rank : Int := ((p.GetYeas : Int) - p.GetNays) * 2 ^ 256 + p.nFeeTXHash.toNat

end CBudgetProposal

namespace CleanUp

variable (C : Crypto) (P : CChainParams) (env : CleanUpEnv) (s : CleanUp)

/-- The loop of `GetBudget` that hands out the money, `nBudgetAllocated` of it so far, in signed
64-bit numbers. -/
def allot (nBlockStart nBlockEnd : Int) : CAmount →
    List (Sigma fun _ : uint256 => CBudgetProposal) →
    List CBudgetProposal
  | _, [] => []
  | nBudgetAllocated, ⟨hash, p⟩ :: rest =>
    if s.fValid hash ∧ p.nBlockStart ≤ nBlockStart ∧ nBlockEnd ≤ p.nBlockEnd ∧
        (p.GetYeas : Int) - p.GetNays > env.CountEnabled / 10 ∧ p.IsEstablished P env.toBudgetEnv
    then
      if Wrap.wrap64 (p.nAmount + nBudgetAllocated) ≤ GetTotalBudget P env.toBudgetEnv then
        p :: allot nBlockStart nBlockEnd (Wrap.wrap64 (nBudgetAllocated + p.nAmount)) rest
      else allot nBlockStart nBlockEnd nBudgetAllocated rest
    else allot nBlockStart nBlockEnd nBudgetAllocated rest

/-- `GetBudget`: the votes of every proposal are looked at first. -/
def GetBudget : CleanUp × List CBudgetProposal :=
  let objects := s.proposals.objects.mapValues fun p => p.CleanAndRemove C env.toBudgetEnv false
  let s := { s with proposals := { s.proposals with objects := objects } }
  match env.tipHeight with
  | none => (s, [])
  | some nHeight =>
    let nCycle := GetBudgetPaymentCycleBlocks P
    let nBlockStart := nHeight - nHeight.tmod nCycle + nCycle
    let nBlockEnd := nBlockStart + nCycle - 1
    let vBudgetPorposalsSort :=
      env.sort.sort (fun e => -(e.2.rank)) (objects.entries.insertionSort fun a b => a.1 ≤ b.1)
    (s, s.allot P env nBlockStart nBlockEnd 0 vBudgetPorposalsSort)

/-- Only vote for exact matches. -/
def exactMatch (vecBudgetPayments : List CTxBudgetPayment)
    (vBudgetProposals : List CBudgetProposal) : Bool :=
  !vBudgetProposals.isEmpty && vBudgetProposals.length == vecBudgetPayments.length &&
    (vecBudgetPayments.zip vBudgetProposals).all fun (payment, p) =>
      payment.nProposalHash == p.GetHash C &&
        env.scriptText payment.payee == env.scriptText p.address && payment.nAmount == p.nAmount

/-- `SubmitVote`; the vote is also relayed. -/
def SubmitVote (b : CFinalizedBudget) : CleanUp :=
  let vote : CFinalizedBudgetVote :=
    ⟨true, ⟨env.activeVin, [], 0xFFFFFFFF⟩, b.GetHash C, env.adjustedTime, []⟩
  match env.signMessage (CFinalizedBudgetVote.kind.strMessage vote) with
  | none => s
  | some vchSig =>
    let vote := { vote with vchSig := vchSig }
    let (budgets, fAdded) := CFinalizedBudgetVote.kind.Update C env.toBudgetEnv s.budgets vote false
    if fAdded then
      { s with
        budgets := { budgets with
          seenVotes :=
            mapInsert budgets.seenVotes (CFinalizedBudgetVote.kind.GetHash C vote) vote } }
    else { s with budgets := budgets }

/-- `AutoCheck` of the finalized budget that has this key. -/
def AutoCheck (hash : uint256) (b : CFinalizedBudget) : CleanUp :=
  match env.tipHeight with
  | none => s
  | some _ =>
    if !env.fFundamentalNode || s.fAutoChecked hash then s
    else if env.rand hash % 4 ≠ 0 then s -- spread out the voting activity
    else
      let s := { s with fAutoChecked := Function.update s.fAutoChecked hash true }
      if env.strBudgetMode ≠ "auto" then s
      else
        let (s, vBudgetProposals) := s.GetBudget C P env
        if exactMatch C env b.vecBudgetPayments vBudgetProposals then s.SubmitVote C env b else s

/-- One round of the loop over the finalized budgets. -/
def checkBudget (s : CleanUp) (hash : uint256) : CleanUp :=
  match s.budgets.objects.lookup hash with
  | none => s
  | some b =>
    let (b, fValid) := b.IsValid C P env.toBudgetEnv
    let s := { s with budgets := { s.budgets with objects := s.budgets.objects.insert hash b } }
    if fValid then s.AutoCheck C P env hash b else s

/-- One round of the loop over the proposals. -/
def checkProposal (s : CleanUp) (hash : uint256) : CleanUp :=
  match s.proposals.objects.lookup hash with
  | none => s
  | some p =>
    let (p, fValid) := p.IsValid C P env.toBudgetEnv
    { s with
      proposals := { s.proposals with objects := s.proposals.objects.insert hash p }
      fValid := Function.update s.fValid hash fValid }

def checked : CleanUp :=
  let s := s.budgets.objects.keysInOrder.foldl (checkBudget C P env) s
  s.proposals.objects.keysInOrder.foldl (checkProposal C P env) s

/-- `CheckAndRemove`.  The maps that are swapped in have not been filled. -/
def CheckAndRemove : CleanUp :=
  let s := s.checked C P env
  let tmpMapFinalizedBudgets : HashMap CFinalizedBudget := ∅
  let tmpMapProposals : HashMap CBudgetProposal := ∅
  { s with
    budgets := { s.budgets with objects := tmpMapFinalizedBudgets }
    proposals := { s.proposals with objects := tmpMapProposals } }

end CleanUp

namespace VoteKind

variable {V Ω : Type} {K : VoteKind V Ω} {C : Crypto} {env : BudgetEnv}

variable {I : HashMap Ω → Prop}

end VoteKind

/-! ## What is carried over -/

section
variable {V Ω : Type} (K : VoteKind V Ω)

/-- Every voter of the one object has a vote on the other, the same or a later one. -/
def SameVoters (obj obj' : Ω) : Prop :=
  ∀ voter vote, (K.mapVotes obj).lookup voter = some vote →
    ∃ vote', (K.mapVotes obj').lookup voter = some vote' ∧ K.nTime vote ≤ K.nTime vote'

/-- Every object that passes the test is kept, with its votes. -/
def CarriesIf (valid : Ω → Bool) (m m' : HashMap Ω) : Prop :=
  ∀ hash obj, m.lookup hash = some obj → valid obj = true →
    ∃ obj', m'.lookup hash = some obj' ∧ SameVoters K obj obj'

end

namespace CleanUp

variable {C : Crypto} {P : CChainParams} {env : CleanUpEnv} {s : CleanUp}

/-- The clean-up does what it is for: valid proposals and valid finalized budgets stay, with
their votes. -/
def CleansUp (C : Crypto) (P : CChainParams) (env : CleanUpEnv) (s s' : CleanUp) : Prop :=
  CarriesIf CBudgetVote.kind (fun p => (p.IsValid C P env.toBudgetEnv).2) s.proposals.objects
      s'.proposals.objects ∧
    CarriesIf CFinalizedBudgetVote.kind (fun b => (b.IsValid C P env.toBudgetEnv).2)
      s.budgets.objects s'.budgets.objects

theorem carriesIf_empty {V Ω : Type} {K : VoteKind V Ω} {valid : Ω → Bool} {m : HashMap Ω} :
    CarriesIf K valid m ∅ ↔ ∀ hash obj, m.lookup hash = some obj → valid obj = false := by
  constructor
  · intro hcarries hash obj hobj
    cases hvalid : valid obj with
    | false => rfl
    | true =>
      obtain ⟨obj', hobj', -⟩ := hcarries hash obj hobj hvalid
      cases hobj'
  · intro hnone hash obj hobj hvalid
    rw [hnone hash obj hobj] at hvalid
    cases hvalid

/-- **The clean-up keeps the valid entries exactly where there are none.** -/
theorem CheckAndRemove_keeps_iff (C : Crypto) (P : CChainParams) (env : CleanUpEnv) (s : CleanUp) :
    CleansUp C P env s (s.CheckAndRemove C P env) ↔
      (∀ hash p, s.proposals.objects.lookup hash = some p →
        (p.IsValid C P env.toBudgetEnv).2 = false) ∧
      (∀ hash b, s.budgets.objects.lookup hash = some b →
        (b.IsValid C P env.toBudgetEnv).2 = false) := by
  show CarriesIf _ _ _ ∅ ∧ CarriesIf _ _ _ ∅ ↔ _
  rw [carriesIf_empty, carriesIf_empty]

/-! ## Both are lost, for example -/

/-- A node that has a proposal and a finalized budget, and does not vote. -/
def openCleanUp : CleanUp :=
  { CBudgetManager.openBallots with
    fAutoChecked := fun _ => false
    fValid := fun _ => true }

def quietEnv : CleanUpEnv :=
  { CBudgetManager.ballotEnv with
    strBudgetMode := ""
    rand := fun _ => 0
    scriptText := id
    signMessage := fun _ => none
    sort := insertion }

/-- The proposal is valid, and the clean-up drops it. -/
theorem valid_entries_dropped :
    ¬ (∀ (C : Crypto) (P : CChainParams) (env : CleanUpEnv) (s : CleanUp),
        CleansUp C P env s (s.CheckAndRemove C P env)) := by
  intro hall
  have hproposals := (hall CBudgetManager.oneSignatureCrypto mainParams quietEnv openCleanUp).1
  have hvalid : (CBudgetManager.openProposal.IsValid CBudgetManager.oneSignatureCrypto mainParams
      CBudgetManager.ballotEnv).2 = true := by
    decide +kernel
  obtain ⟨p, hp, -⟩ := hproposals 0 CBudgetManager.openProposal rfl hvalid
  -- the map is empty
  cases (AList.lookup_empty 0).symm.trans hp

end CleanUp

/-- The node of the vote is listed, and enabled once it has been checked. -/
def BudgetEnv.VoterEnabled (env : BudgetEnv) (vote : CFinalizedBudgetVote) : Bool :=
  (env.nodes.Find vote.vin).any fun mn => (mn.Check env.toNodeEnv false).IsEnabled

namespace CFinalizedBudget

variable (C : Crypto) (env : BudgetEnv) (b : CFinalizedBudget)

/-- The flags are set again; the votes stay in the map. -/
def CleanAndRemove (fSignatureCheck : Bool) : CFinalizedBudget :=
  { b with
    mapVotes := HashMap.mapValues b.mapVotes fun vote =>
      { vote with fValid := CFinalizedBudgetVote.kind.SignatureValid C env vote fSignatureCheck } }

/-- The budget with the votes of enabled nodes alone. -/
def withoutStale : CFinalizedBudget :=
  { b with
    mapVotes :=
      ⟨b.mapVotes.entries.filter fun e => env.VoterEnabled e.2,
        b.mapVotes.nodupKeys.sublist filter_sublist⟩ }

variable {C env b}

theorem voters_cleanAndRemove {envAt : BudgetEnv} (fSignatureCheck : Bool) :
    (∀ e ∈ (b.CleanAndRemove C env fSignatureCheck).mapVotes.entries,
        envAt.VoterEnabled e.2 = true) ↔
      ∀ e ∈ b.mapVotes.entries, envAt.VoterEnabled e.2 = true := by
  show (∀ e ∈ b.mapVotes.entries.map _, _) ↔ _
  rw [forall_mem_map]
  exact Iff.rfl

theorem GetVoteCount_withoutStale_iff :
    b.GetVoteCount = (b.withoutStale env).GetVoteCount ↔
      ∀ e ∈ b.mapVotes.entries, env.VoterEnabled e.2 = true := by
  show b.mapVotes.entries.length = (b.mapVotes.entries.filter _).length ↔ _
  rw [eq_comm, length_filter_eq_length_iff]

end CFinalizedBudget

namespace CBudgetManager

variable (C : Crypto) (env : BudgetEnv) (s : CBudgetManager)

/-- The loop of `NewBlock` over the finalized budgets. -/
def cleanFinalizedBudgets (fSignatureCheck : Bool) : CBudgetManager :=
  { s with
    budgets := { s.budgets with
      objects := s.budgets.objects.mapValues fun b => b.CleanAndRemove C env fSignatureCheck } }

/-- Clean-ups one after the other, each with the node list of its time. -/
def cleaned (passes : List (BudgetEnv × Bool)) : CBudgetManager :=
  passes.foldl (fun s pass => s.cleanFinalizedBudgets C pass.1 pass.2) s

/-- What is counted on any finalized budget are votes of nodes that are enabled. -/
def CountsEnabled : Prop :=
  ∀ b ∈ s.finalizedBudgets, b.GetVoteCount = (b.withoutStale env).GetVoteCount

/-- Every vote on file is of a node that is enabled. -/
def AllEnabled : Prop :=
  ∀ b ∈ s.finalizedBudgets, ∀ e ∈ b.mapVotes.entries, env.VoterEnabled e.2 = true

variable {C env s}

theorem mem_finalizedBudgets_mapValues {f : CFinalizedBudget → CFinalizedBudget}
    {m : HashMap CFinalizedBudget} {b : CFinalizedBudget} :
    b ∈ inOrder (m.mapValues f) ↔ ∃ a ∈ inOrder m, f a = b := by
  rw [mem_inOrder]
  constructor
  · rintro ⟨k, hk⟩
    obtain ⟨e, he, heq⟩ := mem_map.mp hk
    obtain ⟨rfl, rfl⟩ := Sigma.mk.inj heq
    exact ⟨e.2, mem_inOrder.mpr ⟨e.1, he⟩, rfl⟩
  · rintro ⟨a, ha, rfl⟩
    obtain ⟨k, hk⟩ := mem_inOrder.mp ha
    exact ⟨k, mem_map.mpr ⟨⟨k, a⟩, hk, rfl⟩⟩

theorem allEnabled_cleanFinalizedBudgets {envAt : BudgetEnv} (fSignatureCheck : Bool) :
    (s.cleanFinalizedBudgets C envAt fSignatureCheck).AllEnabled env ↔ s.AllEnabled env := by
  constructor
  · intro h b hb
    have hin : b.CleanAndRemove C envAt fSignatureCheck ∈
        (s.cleanFinalizedBudgets C envAt fSignatureCheck).finalizedBudgets :=
      mem_finalizedBudgets_mapValues.mpr ⟨b, hb, rfl⟩
    exact (CFinalizedBudget.voters_cleanAndRemove fSignatureCheck).mp (h _ hin)
  · intro h b hb
    obtain ⟨a, ha, rfl⟩ := mem_finalizedBudgets_mapValues.mp hb
    exact (CFinalizedBudget.voters_cleanAndRemove fSignatureCheck).mpr (h a ha)

theorem allEnabled_cleaned (passes : List (BudgetEnv × Bool)) :
    (s.cleaned C passes).AllEnabled env ↔ s.AllEnabled env := by
  induction passes generalizing s with
  | nil => exact Iff.rfl
  | cons pass passes ih => exact ih.trans (allEnabled_cleanFinalizedBudgets pass.2)

theorem countsEnabled_iff_allEnabled : s.CountsEnabled env ↔ s.AllEnabled env :=
  forall₂_congr fun _ _ => CFinalizedBudget.GetVoteCount_withoutStale_iff

end CBudgetManager

open CBudgetManager in
/-- **When only votes of enabled nodes are counted.**  Whatever clean-ups there were: the three
functions count votes of enabled nodes alone exactly when the node of every vote on file is
listed and enabled. -/
theorem counts_enabled_iff (C : Crypto) (env : BudgetEnv) (s : CBudgetManager)
    (passes : List (BudgetEnv × Bool)) :
    (s.cleaned C passes).CountsEnabled env ↔ s.AllEnabled env :=
  countsEnabled_iff_allEnabled.trans (allEnabled_cleaned passes)

open CBudgetManager in
/-- **A node votes and leaves the list.**  Its vote still makes the height a budget block. -/
theorem gone_vote_counted :
    let s := budgetStep oneSignatureCrypto mainParams openBallots
      (.fbvote ballotEnv (budgetVote [1]))
    let later := { ballotEnv with nodes := ⟨[], fun _ => none, fun _ => none⟩ }
    s.CountsEnabled ballotEnv ∧ ¬ s.CountsEnabled later ∧
      s.IsBudgetPaymentBlock later 43200 = true := by
  unfold CountsEnabled
  decide +kernel

end Divitae
