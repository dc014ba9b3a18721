/-
# `MasternodeRemoval` — taking a node off the list

Both managers take the entry with an input off their list by a loop over the list with an
iterator, and leave the loop where they erase.  They differ in one line:

    CProsperitynodeMan::Remove   an entry with another input is passed, `++it`
    CMasternodeMan::Remove       the iterator stays on it

so the one loop erases the first entry with the input, wherever it is
(`CProsperitynodeMan.remove_returns`), and the other looks at the head of the list for ever unless
that is the entry (`remove_entry_iff`).
-/
import Divitae.Lib.Loop
import Divitae.MasternodeTimes

namespace Divitae

/-! ## The loop -/

section
variable {α : Type} (p : α → Bool) (advance : Nat → Nat)

/-- One round: the position of the iterator and the list.  Where the entry is not the one
asked for, the iterator moves by `advance`. -/
def eraseRound : Nat × List α → (Nat × List α) ⊕ List α
  | (it, entries) =>
    match entries[it]? with
    | none => .inr entries -- `end()`
    | some entry =>
      if p entry then .inr (entries.eraseIdx it) -- `erase(it); break;`
      else .inl (advance it, entries)

variable {p advance} {entries : List α}

theorem eraseRound_end : eraseRound p advance (entries.length, entries) = .inr entries := by
  rw [eraseRound, List.getElem?_eq_none (Nat.le_refl _)]

theorem eraseRound_at {front back : List α} {entry : α} :
    eraseRound p advance (front.length, front ++ entry :: back) =
      if p entry then .inr (front ++ back)
      else .inl (advance front.length, front ++ entry :: back) := by
  have hat : (front ++ entry :: back)[front.length]? = some entry := by
    rw [List.getElem?_append_right (Nat.le_refl _), Nat.sub_self]
    rfl
  rw [eraseRound, hat]
  rw [List.eraseIdx_append_of_length_le (Nat.le_refl _), Nat.sub_self]
  rfl

theorem eraseRound_returns (front back : List α) (left : List α) :
    Loop.Returns (eraseRound p (· + 1)) (front.length, front ++ back) left ↔
      front ++ back.eraseP p = left := by
  induction back generalizing front with
  | nil =>
    rw [List.append_nil, List.eraseP_nil, List.append_nil]
    exact Loop.returns_inr eraseRound_end
  | cons entry back ih =>
    cases hentry : p entry with
    | true =>
      rw [List.eraseP_cons_of_pos hentry]
      exact Loop.returns_inr (eraseRound_at.trans (if_pos hentry))
    | false =>
      have hround : eraseRound p (· + 1) (front.length, front ++ entry :: back) =
          .inl (front.length + 1, front ++ entry :: back) :=
        eraseRound_at.trans (if_neg (by simp [hentry]))
      rw [Loop.returns_inl hround, List.eraseP_cons_of_neg (by simp [hentry])]
      have hnext := ih (front ++ [entry])
      rw [List.length_append, List.append_assoc, List.append_assoc] at hnext
      exact hnext

theorem eraseRound_id_returns (entries left : List α) :
    Loop.Returns (eraseRound p id) (0, entries) left ↔
      (∀ entry ∈ entries.head?, p entry = true) ∧ entries.tail = left := by
  cases entries with
  | nil =>
    have hround : eraseRound p id (0, ([] : List α)) = .inr [] := rfl
    rw [Loop.returns_inr hround]
    exact (and_iff_right nofun).symm
  | cons entry back =>
    have hround : eraseRound p id (0, entry :: back) =
        if p entry then .inr back else .inl (0, entry :: back) :=
      @eraseRound_at _ p id [] back entry
    cases hentry : p entry with
    | true =>
      rw [if_pos hentry] at hround
      rw [Loop.returns_inr hround]
      refine (and_iff_right ?_).symm
      rintro _ ⟨⟩
      exact hentry
    | false =>
      rw [if_neg (by simp [hentry])] at hround
      refine iff_of_false (Loop.not_returns_of_stays hround left) ?_
      rintro ⟨hhead, -⟩
      exact Bool.noConfusion (hentry.symm.trans (hhead entry rfl))

end

/-! ## The two managers -/

/-- `CProsperitynodeMan::Remove`, its loop. -/
def CProsperitynodeMan.removeRound (vin : CTxIn) :
    Nat × List CProsperitynode → (Nat × List CProsperitynode) ⊕ List CProsperitynode :=
  eraseRound (fun mn => mn.vin == vin) (· + 1)

theorem CProsperitynodeMan.remove_returns (s : CProsperitynodeMan) (vin : CTxIn)
    (left : List CProsperitynode) :
    Loop.Returns (removeRound vin) (0, s.vProsperitynodes) left ↔
      (s.Remove vin).vProsperitynodes = left :=
  eraseRound_returns [] s.vProsperitynodes left

namespace Masternodes

/-- `CMasternodeMan::Remove`, its loop. -/
def removeRound (vin : CTxIn) :
    Nat × List CMasternode → (Nat × List CMasternode) ⊕ List CMasternode :=
  eraseRound (fun mn => mn.vin == vin) id

/-- `Remove` ends, and has taken off the entry with the input and no other. -/
def RemovesEntry (vMasternodes : List CMasternode) (vin : CTxIn) : Prop :=
  ∃ left, Loop.Returns (removeRound vin) (0, vMasternodes) left ∧
    left = vMasternodes.eraseP fun mn => mn.vin == vin

/-- **When an entry is taken off.**  When the list is empty, or the entry is its first. -/
theorem remove_entry_iff (vMasternodes : List CMasternode) (vin : CTxIn) :
    RemovesEntry vMasternodes vin ↔ ∀ mn ∈ vMasternodes.head?, mn.vin = vin := by
  have hhead : (∀ mn ∈ vMasternodes.head?, (mn.vin == vin) = true) ↔
      ∀ mn ∈ vMasternodes.head?, mn.vin = vin := by
    simp only [beq_iff_eq]
  rw [← hhead]
  constructor
  · rintro ⟨left, hleft, -⟩
    exact ((eraseRound_id_returns vMasternodes left).mp hleft).1
  · intro hfirst
    refine ⟨vMasternodes.tail, (eraseRound_id_returns _ _).mpr ⟨hfirst, rfl⟩, ?_⟩
    cases vMasternodes with
    | nil => rfl
    | cons mn rest =>
      exact (@List.eraseP_cons_of_pos _ mn rest (fun mn => mn.vin == vin) (hfirst mn rfl)).symm

/-- The entry of a node whose collateral is an output of transaction 7. -/
def listedNode (n : Nat) : CMasternode where
  vin := ⟨⟨7, n⟩, [], 0xFFFFFFFF⟩
  activeState := .ENABLED
  lastTimeSeen := 1700000000
  unitTest := false
  protocolVersion := PROTOCOL_VERSION
  nScanningErrorCount := 0
  addr := ⟨⟨CNetAddr.pchIPv4 ++ [1, 2, 3, 4], CNetAddr.length_IPv4⟩, 9765⟩
  pubkey := compressedKey 1
  pubkey2 := compressedKey 2
  sig := []
  sigTime := 1699999940
  lastDseep := 0
  donationAddress := []
  donationPercentage := 0

/-- **The second of two entries.**  The loop stays on the first one. -/
theorem second_entry_stuck :
    ¬ (∀ (vMasternodes : List CMasternode) (vin : CTxIn), RemovesEntry vMasternodes vin) := by
  intro hall
  obtain ⟨left, hleft, -⟩ := hall [listedNode 1, listedNode 2] (listedNode 2).vin
  have hfirst := ((eraseRound_id_returns _ left).mp hleft).1 (listedNode 1) rfl
  revert hfirst
  decide

end Masternodes
end Divitae
