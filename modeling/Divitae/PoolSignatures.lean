/-
# `PoolSignatures` — signatures of a mixing session

`AddScriptSig` drops a signature that an input has already, and looks with `SignatureValid` for the
input that is the same as the one handed in, its script included.  So none is found, and nothing is
verified (`AddScriptSig_unchecked`).  Then the signature is written to every input of the final
transaction with that outpoint and sequence number, and to the first of the entries.

    SignedRight    the inputs that are marked have a signature that verifies, and the final
                   transaction has it too
    ItemMeets      what is asked of a signature that is handed in

`scriptOf` is the script an input has to satisfy.
-/
import Divitae.ObfuscationPool

namespace Divitae.Obfuscation

open CObfuscationPool List CObfuScationEntry

/-- Marked, with the signature handed in. -/
def signed (newVin : CTxIn) (s : CTxDSIn) : CTxDSIn :=
  ⟨{ s.toCTxIn with scriptSig := newVin.scriptSig }, true⟩

section
variable (network : Network) (VerifyScript : CScript → CScript → Unsigned → ℕ → Bool)
  (scriptOf : COutPoint → CScript) (p : CObfuscationPool)

def SignedRight : Prop :=
  ∀ n s, p.inputs[n]? = some s → s.fHasSig = true →
    VerifyScript s.scriptSig (scriptOf s.prevout) p.merged n = true ∧
      ∃ vin ∈ p.finalVin, Matches s.toCTxIn vin ∧ vin.scriptSig = s.scriptSig

/-- No input of its outpoint and number is signed yet, and for the first one there is it verifies,
and is in the final transaction. -/
def ItemMeets (newVin : CTxIn) : Prop :=
  (∀ s ∈ p.inputs, Matches newVin s.toCTxIn → s.fHasSig = false) ∧
    ∀ n ∈ p.inputs.findIdx? fun s => decide (Matches newVin s.toCTxIn),
      VerifyScript newVin.scriptSig (scriptOf newVin.prevout) p.merged n = true ∧
        ∃ vin ∈ p.finalVin, Matches newVin vin

/-- Signatures are handed in as they should be, unless they are there; and an entry that is added
leaves those verified that are there. -/
def SigMeets (p : CObfuscationPool) : PoolEvent → Prop
  | .dsi _ passes vin nAmount collateralValid vout _ =>
    reaches network p passes = true → p.refusal network vin nAmount collateralValid = none →
    ∀ n s, p.inputs[n]? = some s → s.fHasSig = true →
      VerifyScript s.scriptSig (scriptOf s.prevout)
        ⟨p.merged.vin ++ vin.map fun txin => (txin.prevout, txin.nSequence),
          p.merged.vout ++ vout⟩ n = true
  | .dss sigs _ =>
    Run.Guarded (fun p item => (p.AddScriptSig VerifyScript item).1)
      (fun p item => (∃ s ∈ p.inputs, s.scriptSig = item.scriptSig) ∨
        ItemMeets VerifyScript scriptOf p item) p sigs
  | _ => True

end

section
variable {network : Network} {V : CScript → CScript → Unsigned → ℕ → Bool}
  {scriptOf : COutPoint → CScript} {p p' : CObfuscationPool} {c : Chance} {newVin : CTxIn}

/-! ## One signature -/

theorem AddSig_some : ∀ {sev sev' : List CTxDSIn}, AddSig newVin sev = some sev' →
    ∃ k s, sev[k]? = some s ∧ Matches newVin s.toCTxIn ∧
      (∀ j < k, ∀ x, sev[j]? = some x → ¬ Matches newVin x.toCTxIn) ∧
      sev' = sev.set k (signed newVin s)
  | [], _, h => nomatch h
  | s :: sev, sev', h => by
    rw [AddSig] at h
    split_ifs at h with hmatch _
    · exact ⟨0, s, rfl, hmatch, fun j hj => absurd hj (Nat.not_lt_zero j), (Option.some.inj h).symm⟩
    · obtain ⟨rest, hrest, rfl⟩ := Option.map_eq_some_iff.mp h
      obtain ⟨k, s', hs', hmatch', hfirst, rfl⟩ := AddSig_some hrest
      refine ⟨k + 1, s', hs', hmatch', ?_, rfl⟩
      rintro (_ | j) hj x hx
      · obtain rfl : s = x := Option.some.inj hx
        exact hmatch
      · exact hfirst j (by omega) x hx

theorem AddSig_none : ∀ {sev : List CTxDSIn}, AddSig newVin sev = none →
    (∀ s ∈ sev, Matches newVin s.toCTxIn → s.fHasSig = false) →
    ∀ s ∈ sev, ¬ Matches newVin s.toCTxIn
  | [], _, _, s, hs => nomatch hs
  | s :: sev, h, hunsigned, x, hx => by
    rw [AddSig] at h
    split_ifs at h with hmatch hsig
    · rw [hunsigned s mem_cons_self hmatch] at hsig
      cases hsig
    · rcases mem_cons.mp hx with rfl | hx
      · exact hmatch
      · exact AddSig_none (Option.map_eq_none_iff.mp h) (fun s hs => hunsigned s (.tail _ hs)) x hx

theorem addSigs_some : ∀ {entries entries' : List CObfuScationEntry},
    addSigs newVin entries = some entries' →
    (∀ s ∈ entries.flatMap sev, Matches newVin s.toCTxIn → s.fHasSig = false) →
    entries'.flatMap vout = entries.flatMap vout ∧
      ∃ k s, (entries.flatMap sev)[k]? = some s ∧
        Matches newVin s.toCTxIn ∧
        (∀ j < k, ∀ x, (entries.flatMap sev)[j]? = some x → ¬ Matches newVin x.toCTxIn) ∧
        entries'.flatMap sev = (entries.flatMap sev).set k (signed newVin s)
  | [], _, h, _ => nomatch h
  | e :: entries, entries', h, hunsigned => by
    rw [addSigs] at h
    rw [flatMap_cons, flatMap_cons]
    split at h
    next sev hsev =>
      cases h
      obtain ⟨k, s, hs, hmatch, hfirst, rfl⟩ := AddSig_some hsev
      have hk : k < e.sev.length := (List.getElem?_eq_some_iff.mp hs).1
      refine ⟨rfl, k, s, by rwa [List.getElem?_append_left hk], hmatch, ?_, ?_⟩
      · intro j hj x hx
        rw [List.getElem?_append_left (by omega)] at hx
        exact hfirst j hj x hx
      · rw [flatMap_cons, set_append_left _ _ hk]
    next hnone =>
      obtain ⟨rest, hrest, rfl⟩ := Option.map_eq_some_iff.mp h
      have hno := AddSig_none hnone fun s hs =>
        hunsigned s (mem_flatMap.mpr ⟨e, .head _, hs⟩)
      obtain ⟨hvout, k, s, hs, hmatch, hfirst, hset⟩ := addSigs_some hrest fun s hs => by
        refine hunsigned s ?_
        exact mem_append_right _ hs
      rw [flatMap_cons, flatMap_cons, hvout, hset]
      refine ⟨rfl, e.sev.length + k, s, ?_, hmatch, ?_, ?_⟩
      · rw [List.getElem?_append_right (Nat.le_add_right _ _), Nat.add_sub_cancel_left]
        exact hs
      · intro j hj x hx
        rcases Nat.lt_or_ge j e.sev.length with hlow | hhigh
        · rw [List.getElem?_append_left hlow] at hx
          exact hno x (mem_of_getElem? hx)
        · rw [List.getElem?_append_right hhigh] at hx
          exact hfirst _ (by omega) x hx
      · rw [set_append_right _ _ (Nat.le_add_right _ _), Nat.add_sub_cancel_left]

theorem SignedRight.congr (h : SignedRight V scriptOf p) (hentries : p'.entries = p.entries)
    (hfinal : p'.finalVin = p.finalVin) : SignedRight V scriptOf p' := by
  rw [SignedRight, inputs, merged, inputs, hentries, hfinal]
  exact h

theorem signedRight_empty (h : p.entries = []) : SignedRight V scriptOf p := by
  intro n s hs
  rw [inputs, h] at hs
  cases hs

theorem SignedRight.addScriptSig (h : SignedRight V scriptOf p)
    (hmeets : (∃ s ∈ p.inputs, s.scriptSig = newVin.scriptSig) ∨ ItemMeets V scriptOf p newVin) :
    SignedRight V scriptOf (p.AddScriptSig V newVin).1 := by
  rw [AddScriptSig]
  split_ifs with hdrop
  · exact h
  · exact h
  rcases hmeets with ⟨s, hs, hsame⟩ | ⟨hunsigned, hfound⟩
  · have hsome : (p.inputs.any fun s => s.scriptSig == newVin.scriptSig) = true :=
      any_eq_true.mpr ⟨s, hs, beq_iff_eq.mpr hsame⟩
    exact absurd hsome hdrop
  -- what is signed has another outpoint or number, so its place in the final transaction stays
  have hkept : ∀ s ∈ p.inputs, s.fHasSig = true →
      (∃ vin ∈ p.finalVin, Matches s.toCTxIn vin ∧ vin.scriptSig = s.scriptSig) →
      ∃ vin ∈ p.finalVin.map fun vin =>
          if Matches newVin vin then { vin with scriptSig := newVin.scriptSig } else vin,
        Matches s.toCTxIn vin ∧ vin.scriptSig = s.scriptSig := by
    rintro s hs hsig ⟨vin, hvin, hmatch, hscript⟩
    refine ⟨vin, mem_map.mpr ⟨vin, hvin, if_neg ?_⟩, hmatch, hscript⟩
    intro hnew
    have hother := hunsigned s hs ⟨hmatch.1.symm.trans hnew.1, hmatch.2.symm.trans hnew.2⟩
    rw [hsig] at hother
    cases hother
  dsimp only
  split
  next entries hadd =>
    obtain ⟨hvout, k, s, hs, hmatch, hfirst, hset⟩ := addSigs_some hadd hunsigned
    have hs : p.inputs[k]? = some s := hs
    have hk : k < p.inputs.length := (List.getElem?_eq_some_iff.mp hs).1
    have hsame : (signed newVin s).prevout = p.inputs[k].prevout ∧
        (signed newVin s).nSequence = p.inputs[k].nSequence := by
      rw [(List.getElem?_eq_some_iff.mp hs).2]
      exact ⟨rfl, rfl⟩
    have hmerged : ({ p with entries := entries } : CObfuscationPool).merged = p.merged := by
      rw [merged, merged, inputs, inputs, hvout, hset, map_set, hsame.1, hsame.2]
      exact congrArg (Unsigned.mk · _)
        ((congrArg _ (getElem_map fun s : CTxDSIn => (s.prevout, s.nSequence)).symm).trans
          (set_getElem_self (by rwa [length_map])))
    have hidx : (p.inputs.findIdx? fun s => decide (Matches newVin s.toCTxIn)) = some k := by
      rw [List.findIdx?_eq_some_iff_getElem]
      refine ⟨hk, ?_, ?_⟩
      · rw [(List.getElem?_eq_some_iff.mp hs).2]
        exact decide_eq_true hmatch
      · intro j hj
        rw [decide_eq_true_eq]
        exact hfirst j hj _ (List.getElem?_eq_getElem (hj.trans hk))
    obtain ⟨hverify, vin, hvin, hvmatch⟩ := hfound k hidx
    intro n s' hs' hsig
    show V _ _ (({ p with entries := entries } : CObfuscationPool).merged) n = true ∧ _
    rw [hmerged]
    have hs' : (p.inputs.set k (signed newVin s))[n]? = some s' := hset ▸ hs'
    rcases eq_or_ne k n with rfl | hne
    · rw [List.getElem?_set_self hk] at hs'
      cases hs'
      refine ⟨?_, { vin with scriptSig := newVin.scriptSig },
        mem_map.mpr ⟨vin, hvin, if_pos hvmatch⟩, ⟨hvmatch.1.trans hmatch.1.symm,
          hvmatch.2.trans hmatch.2.symm⟩, rfl⟩
      show V newVin.scriptSig (scriptOf s.prevout) _ _ = true
      rw [hmatch.1]
      exact hverify
    · rw [List.getElem?_set_ne hne] at hs'
      obtain ⟨hold, hcarried⟩ := h n s' hs' hsig
      exact ⟨hold, hkept s' (mem_of_getElem? hs') hsig hcarried⟩
  next _ =>
    intro n s' hs' hsig
    obtain ⟨hold, hcarried⟩ := h n s' hs' hsig
    exact ⟨hold, hkept s' (mem_of_getElem? hs') hsig hcarried⟩

/-! ## Whole messages -/

theorem SignedRight.addScriptSigs (h : SignedRight V scriptOf p) {sigs : List CTxIn}
    (hmeets : SigMeets network V scriptOf p (.dss sigs c)) :
    SignedRight V scriptOf (p.addScriptSigs V sigs).1 := by
  rw [fst_addScriptSigs]
  exact Run.run_inv (I := SignedRight V scriptOf)
    (fun _ _ h hmeets => h.addScriptSig hmeets) h hmeets

theorem SignedRight.check (h : SignedRight V scriptOf p) :
    SignedRight V scriptOf (p.Check network c) := by
  have hproceed : SignedRight V scriptOf (p.proceed network) := by
    rw [proceed]
    split_ifs
    · exact h.congr rfl rfl
    · exact h
  have hfinalize : SignedRight V scriptOf ((p.proceed network).finalize c) := by
    intro n s hs hsig
    refine ⟨(hproceed n s hs hsig).1, s.toCTxIn, ?_, ⟨rfl, rfl⟩, rfl⟩
    exact (c.vin_perm _).mem_iff.mpr (mem_map_of_mem (mem_of_getElem? hs))
  have htransmit : ∀ {p : CObfuscationPool}, SignedRight V scriptOf p →
      SignedRight V scriptOf (p.transmit c) := by
    intro p h
    rw [transmit]
    split_ifs
    · rw [CheckFinalTransaction]
      split
      · exact h.congr rfl rfl
      · exact signedRight_empty rfl
      · exact signedRight_empty rfl
    · exact h
  rw [Check]
  split_ifs
  · exact htransmit hfinalize
  · exact htransmit hproceed

theorem SignedRight.poolStep {e : PoolEvent} (h : SignedRight V scriptOf p)
    (hmeets : SigMeets network V scriptOf p e) :
    SignedRight V scriptOf (poolStep network V p e) := by
  cases e with
  | dsa pfrom recent nDenom collateralValid =>
    rw [Obfuscation.poolStep]
    split_ifs
    · exact h
    rw [IsCompatibleWithSession]
    dsimp only
    split_ifs <;> exact h.congr rfl rfl
  | dsi pfrom passes vin nAmount collateralValid vout c =>
    rw [Obfuscation.poolStep]
    split_ifs with hreach
    · rw [AddEntry]
      cases hrefusal : p.refusal network vin nAmount collateralValid with
      | some errorID => exact h.congr rfl rfl
      | none =>
        refine SignedRight.check (p := { p with entries := p.entries ++ [_] }) ?_
        intro n s hs hsig
        have hinputs : ∀ e, ({ p with entries := p.entries ++ [e] } :
            CObfuscationPool).inputs = p.inputs ++ e.sev := by
          intro e
          rw [inputs, flatMap_append, flatMap_singleton]
          rfl
        have hmerged : ∀ e, ({ p with entries := p.entries ++ [e] } :
            CObfuscationPool).merged = ⟨p.merged.vin ++ e.sev.map fun s =>
              (s.prevout, s.nSequence), p.merged.vout ++ e.vout⟩ := by
          intro e
          rw [merged, hinputs, map_append, flatMap_append, flatMap_singleton]
          rfl
        rw [hinputs] at hs
        rcases Nat.lt_or_ge n p.inputs.length with hlow | hhigh
        · rw [List.getElem?_append_left hlow] at hs
          rw [hmerged, map_map]
          exact ⟨hmeets hreach hrefusal n s hs hsig, (h n s hs hsig).2⟩
        · rw [List.getElem?_append_right hhigh] at hs
          obtain ⟨txin, -, rfl⟩ := mem_map.mp (mem_of_getElem? hs)
          cases hsig
    · exact h
  | dss sigs c =>
    have hsigs := h.addScriptSigs hmeets
    rw [Obfuscation.poolStep]
    dsimp only
    split_ifs
    · exact hsigs.check
    · exact hsigs
  | queue =>
    rw [Obfuscation.poolStep, CheckForCompleteQueue]
    split_ifs
    · exact h.congr rfl rfl
    · exact h
  | timeout => exact signedRight_empty rfl

end

/-- **Signatures of a session.**  Where signatures are handed in as they should be, what is marked
verifies and is in the final transaction, throughout. -/
theorem signed_inputs_verify (network : Network) (V : CScript → CScript → Unsigned → ℕ → Bool)
    (scriptOf : COutPoint → CScript) (es : List PoolEvent)
    (hmeets : Run.Guarded (poolStep network V) (SigMeets network V scriptOf) {} es) :
    Run.Throughout (poolStep network V) (SignedRight V scriptOf) {} es :=
  Run.throughout_of_guarded (fun _ _ h hmeets => h.poolStep hmeets) (signedRight_empty rfl) hmeets

/-- Two users submit an input each, and `sigs` are handed in. -/
def twoSign (sigs : List CTxIn) : List PoolEvent :=
  [.dsa 1 false 1 true, .dsa 2 false 1 true, .queue,
    .dsi 1 true [⟨⟨11, 0⟩, [], 0⟩] 5 true [⟨5, []⟩] { unshuffled with accepted := none },
    .dsi 2 true [⟨⟨12, 0⟩, [], 0⟩] 5 true [⟨5, []⟩] { unshuffled with accepted := none },
    .dss sigs { unshuffled with accepted := none }]

/-- Both inputs are of the script `1`, which every constant satisfies. -/
theorem both_signed :
    Run.Throughout (poolStep .TESTNET fun _ scriptPubKey _ _ => scriptPubKey == [0x51])
      (SignedRight (fun _ scriptPubKey _ _ => scriptPubKey == [0x51]) fun _ => [0x51]) {}
      (twoSign [⟨⟨11, 0⟩, [0x51], 0⟩, ⟨⟨12, 0⟩, [0x52], 0⟩]) := by
  refine signed_inputs_verify .TESTNET _ _ _ ⟨trivial, trivial, trivial, ?_, ?_, ?_, trivial⟩
  · rintro - - n s hs -
    cases hs
  · rintro - - (_ | n) s hs hsig
    · cases hs
      cases hsig
    · cases hs
  · exact ⟨.inr ⟨by decide, by decide⟩, .inr ⟨by decide, by decide⟩, trivial⟩

/-- **A garbage signature is taken** for an input that has to be signed with a key. -/
theorem garbage_is_signed :
    ¬ ∀ es, Run.Throughout (poolStep .TESTNET fun _ scriptPubKey _ _ => scriptPubKey == [])
      (SignedRight (fun _ scriptPubKey _ _ => scriptPubKey == [])
        fun _ => [0x76, 0xa9, 0x14] ++ List.replicate 20 0 ++ [0x88, 0xac]) {} es := by
  intro hall
  have hend := hall (twoSign [⟨⟨11, 0⟩, [0x51], 0⟩]) _ (prefix_refl _)
  exact absurd (hend 0 _ rfl (by decide)).1 (by decide)

end Divitae.Obfuscation
