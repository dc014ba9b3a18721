/-
# `BroadcastSignature` — what the signature of a broadcast binds

The text of a broadcast, in either format, is

    host : port time K N version         K, N raw keys (old) or 40 hex digits (new)

with nothing between the pieces behind the colon, and without the outpoint.  Reading it
back: the last colon ends the host; in the old format the header byte of `K` is no
printable letter, so it ends port and time, and `N` ends where its header says.

    old b₁ = old b₂  ⟺  host, port ++ time, N, version agree         (`old_text_iff`)
    new b₁ = new b₂  ⟺  host and the whole rest agree                 (`new_text_iff`)
    old b₁ ≠ new b₂                                                    (`old_ne_new`)

`signature_binds_iff` says exactly for which pairs of broadcasts a signature made for
one is good for the other.
-/
import Divitae.Lib.Split
import Divitae.Prosperitynode

namespace Divitae

open CProsperitynodeBroadcast List Decimal

variable {C : Crypto} {T : Texts} {P : CChainParams} {b₁ b₂ : CProsperitynodeBroadcast}

/-! ## The texts, taken apart -/

theorem bytes_head {k : CPubKey} (hk : k.size ≠ 0) :
    ∃ cs, k.bytes = k.header :: cs ∧ ¬ Printable k.header := by
  refine ⟨k.rest, if_neg hk, ?_⟩
  have hlen : GetLen k.header ≠ 0 := hk
  unfold GetLen at hlen
  unfold Printable
  split_ifs at hlen with h h'
  · rcases h with h | h <;> rw [h] <;> decide
  · rcases h' with h | h | h <;> rw [h] <;> decide
  · exact absurd rfl hlen

theorem key_version_inj {k k' : CPubKey} {v v' : Int}
    (h : k.bytes ++ ofInt v = k'.bytes ++ ofInt v') :
    k.bytes = k'.bytes ∧ v = v' := by
  have hmixed : ∀ {j j' : CPubKey} {w w' : Int}, j.size ≠ 0 → j'.size = 0 →
      j.bytes ++ ofInt w ≠ j'.bytes ++ ofInt w' := by
    intro j j' w w' hj hj' heq
    obtain ⟨cs, hcs, hprint⟩ := bytes_head hj
    have hmem : j.header ∈ ofInt w' := by
      have hnil : j'.bytes = [] := if_pos hj'
      rw [hnil, nil_append, hcs] at heq
      rw [← heq]
      exact .head _
    exact hprint (printable_ofInt hmem)
  by_cases hk : k.size = 0
  · by_cases hk' : k'.size = 0
    · have hnil : k.bytes = [] := if_pos hk
      have hnil' : k'.bytes = [] := if_pos hk'
      rw [hnil, hnil'] at h ⊢
      exact ⟨rfl, ofInt_inj h⟩
    · exact absurd h.symm (hmixed hk' hk)
  · by_cases hk' : k'.size = 0
    · exact absurd h (hmixed hk hk')
    · have hhead : k.header = k'.header := by
        simp only [CPubKey.bytes, if_neg hk, if_neg hk', cons_append, cons.injEq] at h
        exact h.1
      have hlen : k.bytes.length = k'.bytes.length := by
        rw [CPubKey.length_bytes, CPubKey.length_bytes, CPubKey.size, CPubKey.size, hhead]
      obtain ⟨hbytes, hver⟩ := append_inj h hlen
      exact ⟨hbytes, ofInt_inj hver⟩

/-- Port and time, as the text runs them together. -/
def clockText (b : CProsperitynodeBroadcast) : List UInt8 :=
  Decimal.ofNat b.addr.port ++ Decimal.ofInt b.sigTime

theorem front_text (T : Texts) (b : CProsperitynodeBroadcast) :
    b.addr.ToString T.getnameinfo ++ ofInt b.sigTime =
      b.addr.hostText T.getnameinfo ++ 58 :: clockText b := by
  simp [CService.ToString, clockText]

theorem colon_notMem_clockText (b : CProsperitynodeBroadcast) : (58 : UInt8) ∉ clockText b := by
  intro h
  rcases mem_append.mp h with h | h
  · exact absurd (mem_ofNat_range h).2 (by decide)
  · exact absurd (mem_ofInt_range h).2 (by decide)

theorem printable_front (hname : PrintableNames T.getnameinfo) (b : CProsperitynodeBroadcast) :
    ∀ c ∈ b.addr.ToString T.getnameinfo ++ ofInt b.sigTime, Printable c := by
  intro c hc
  rcases mem_append.mp hc with hc | hc
  · exact printable_ToString hname hc
  · exact printable_ofInt hc

theorem old_text_iff (hname : PrintableNames T.getnameinfo)
    (hK : b₁.pubKeyCollateralAddress.size ≠ 0)
    (hkey : b₂.pubKeyCollateralAddress = b₁.pubKeyCollateralAddress) :
    b₁.GetOldStrMessage T = b₂.GetOldStrMessage T ↔
      b₁.addr.hostText T.getnameinfo = b₂.addr.hostText T.getnameinfo ∧
      clockText b₁ = clockText b₂ ∧
      b₁.pubKeyProsperitynode.bytes = b₂.pubKeyProsperitynode.bytes ∧
      b₁.protocolVersion = b₂.protocolVersion := by
  obtain ⟨cs, hcs, hprint⟩ := bytes_head hK
  constructor
  · intro h
    simp only [GetOldStrMessage, hkey, hcs] at h
    obtain ⟨hfront, hback⟩ := Split.append_inj_of_class hprint hprint (printable_front hname b₁)
      (printable_front hname b₂) (by simpa using h)
    rw [front_text, front_text] at hfront
    obtain ⟨hhost, hclock⟩ := Split.append_cons_inj_last (colon_notMem_clockText b₁)
      (colon_notMem_clockText b₂) hfront
    have hrest := append_cancel_left (cons.inj hback).2
    exact ⟨hhost, hclock, key_version_inj hrest⟩
  · rintro ⟨hhost, hclock, hnode, hver⟩
    simp only [GetOldStrMessage, front_text, hhost, hclock, hnode, hver, hkey]

/-- What the new format writes behind the host. -/
def newTail (C : Crypto) (b : CProsperitynodeBroadcast) : List UInt8 :=
  clockText b ++ GetHex (C.GetID b.pubKeyCollateralAddress) ++
    GetHex (C.GetID b.pubKeyProsperitynode) ++ Decimal.ofInt b.protocolVersion

theorem new_text (C : Crypto) (T : Texts) (b : CProsperitynodeBroadcast) :
    b.GetNewStrMessage C T = b.addr.hostText T.getnameinfo ++ 58 :: newTail C b := by
  simp only [GetNewStrMessage, front_text, newTail, append_assoc, cons_append]

theorem colon_notMem_newTail (C : Crypto) (b : CProsperitynodeBroadcast) :
    (58 : UInt8) ∉ newTail C b := by
  have hhex : ∀ {w : Nat} (n : BitVec w), (58 : UInt8) ∉ GetHex n := by
    intro w n h
    obtain ⟨i, _, hi⟩ := mem_map.mp h
    have hd : n.toNat / 16 ^ (w / 4 - 1 - i) % 16 < 16 := Nat.mod_lt _ (by omega)
    revert hi
    generalize n.toNat / 16 ^ (w / 4 - 1 - i) % 16 = d at hd
    interval_cases d <;> decide
  intro h
  simp only [newTail, mem_append] at h
  rcases h with ((h | h) | h) | h
  · exact colon_notMem_clockText b h
  · exact hhex _ h
  · exact hhex _ h
  · exact absurd (mem_ofInt_range h).2 (by decide)

theorem new_text_iff :
    b₁.GetNewStrMessage C T = b₂.GetNewStrMessage C T ↔
      b₁.addr.hostText T.getnameinfo = b₂.addr.hostText T.getnameinfo ∧
      newTail C b₁ = newTail C b₂ := by
  rw [new_text, new_text]
  constructor
  · exact Split.append_cons_inj_last (colon_notMem_newTail C b₁) (colon_notMem_newTail C b₂)
  · rintro ⟨hhost, htail⟩
    rw [hhost, htail]

theorem old_ne_new (hname : PrintableNames T.getnameinfo)
    (hK : b₁.pubKeyCollateralAddress.size ≠ 0) :
    b₁.GetOldStrMessage T ≠ b₂.GetNewStrMessage C T := by
  intro h
  obtain ⟨cs, hcs, hprint⟩ := bytes_head hK
  have hmem : b₁.pubKeyCollateralAddress.header ∈ b₂.GetNewStrMessage C T := by
    rw [← h]
    simp [GetOldStrMessage, hcs]
  refine hprint ?_
  simp only [GetNewStrMessage, mem_append] at hmem
  rcases hmem with (((h | h) | h) | h) | h
  · exact printable_ToString hname h
  · exact printable_ofInt h
  · exact printable_GetHex h
  · exact printable_GetHex h
  · exact printable_ofInt h

/-! ## Which broadcasts share a signature -/

/-- The broadcasts differ in a field the node list uses. -/
def Differs (b₁ b₂ : CProsperitynodeBroadcast) : Prop :=
  b₁.vin.prevout ≠ b₂.vin.prevout ∨ b₁.addr ≠ b₂.addr ∨ b₁.sigTime ≠ b₂.sigTime ∨
    b₁.pubKeyCollateralAddress ≠ b₂.pubKeyCollateralAddress ∨
    b₁.pubKeyProsperitynode ≠ b₂.pubKeyProsperitynode ∨ b₁.protocolVersion ≠ b₂.protocolVersion

/-- The fields of two broadcasts print alike under one collateral key: the outpoint is not
printed, port and time are printed as one run of digits, and behind them the old format
shows node key and version, the new format forty hex digits for each key and the version. -/
structure PrintAlike (C : Crypto) (T : Texts) (oldFormat : Prop)
    (b₁ b₂ : CProsperitynodeBroadcast) : Prop where
  collateral : b₂.pubKeyCollateralAddress = b₁.pubKeyCollateralAddress
  host : b₁.addr.hostText T.getnameinfo = b₂.addr.hostText T.getnameinfo
  old : oldFormat → clockText b₁ = clockText b₂ ∧
    b₁.pubKeyProsperitynode.bytes = b₂.pubKeyProsperitynode.bytes ∧
    b₁.protocolVersion = b₂.protocolVersion
  new : ¬ oldFormat → newTail C b₁ = newTail C b₂

theorem printAlike_iff (hname : PrintableNames T.getnameinfo) {chainHeight : Int}
    (hK : b₁.pubKeyCollateralAddress.size ≠ 0) :
    PrintAlike C T (chainHeight < P.nBlockZerocoinV2) b₁ b₂ ↔
      b₂.pubKeyCollateralAddress = b₁.pubKeyCollateralAddress ∧
      (b₁.signedText C T P chainHeight = b₂.GetNewStrMessage C T ∨
        b₁.signedText C T P chainHeight = b₂.GetOldStrMessage T) := by
  unfold signedText
  by_cases hold : chainHeight < P.nBlockZerocoinV2
  · rw [if_pos hold]
    constructor
    · intro h
      exact ⟨h.collateral, .inr ((old_text_iff hname hK h.collateral).mpr ⟨h.host, h.old hold⟩)⟩
    · rintro ⟨hkey, h | h⟩
      · exact absurd h (old_ne_new hname hK)
      · obtain ⟨hhost, hrest⟩ := (old_text_iff hname hK hkey).mp h
        exact ⟨hkey, hhost, fun _ => hrest, fun hn => absurd hold hn⟩
  · rw [if_neg hold]
    constructor
    · intro h
      exact ⟨h.collateral, .inl (new_text_iff.mpr ⟨h.host, h.new hold⟩)⟩
    · rintro ⟨hkey, h | h⟩
      · obtain ⟨hhost, htail⟩ := new_text_iff.mp h
        exact ⟨hkey, hhost, fun hn => absurd hn hold, fun _ => htail⟩
      · exact absurd h.symm (old_ne_new hname (by rw [hkey]; exact hK))

theorem Sign_verifies {b₀ : CProsperitynodeBroadcast} {chainHeight now : Int} {key : CKey}
    (h : b₀.Sign C T P chainHeight now key = some b₁) :
    C.VerifyMessage b₁.pubKeyCollateralAddress b₁.sig (b₁.signedText C T P chainHeight) = true := by
  simp only [CProsperitynodeBroadcast.Sign] at h
  split at h
  · cases h
  · split at h
    · next hver =>
        cases h
        exact hver
    · cases h

/-- **What a signature binds.**  `b₁` is signed by its collateral key.  The signature is
refused for every `b₂` that differs from it exactly when `b₂` does not print like `b₁`. -/
theorem signature_binds_iff (C : Crypto) (T : Texts) (P : CChainParams) (chainHeight now : Int)
    (key : CKey) (b₀ b₁ b₂ : CProsperitynodeBroadcast)
    (hsign : b₀.Sign C T P chainHeight now key = some b₁)
    (hvalid : b₁.pubKeyCollateralAddress.IsValid = true)
    (hname : PrintableNames T.getnameinfo)
    (hunf : ∀ t ∈ [b₂.GetNewStrMessage C T, b₂.GetOldStrMessage T],
      C.VerifyMessage b₂.pubKeyCollateralAddress b₁.sig t = true →
        t = b₁.signedText C T P chainHeight ∧
          C.GetID b₂.pubKeyCollateralAddress = C.GetID b₁.pubKeyCollateralAddress)
    (hcoll : C.GetID b₂.pubKeyCollateralAddress = C.GetID b₁.pubKeyCollateralAddress →
      b₁.pubKeyCollateralAddress.bytes = b₂.pubKeyCollateralAddress.bytes) :
    (Differs b₁ b₂ → VerifySignature C T { b₂ with sig := b₁.sig } = false) ↔
      ¬ (Differs b₁ b₂ ∧ PrintAlike C T (chainHeight < P.nBlockZerocoinV2) b₁ b₂) := by
  have hK : b₁.pubKeyCollateralAddress.size ≠ 0 := by
    have : 0 < b₁.pubKeyCollateralAddress.size := by simpa [CPubKey.IsValid] using hvalid
    omega
  have haccept : VerifySignature C T { b₂ with sig := b₁.sig } = true ↔
      PrintAlike C T (chainHeight < P.nBlockZerocoinV2) b₁ b₂ := by
    rw [printAlike_iff hname hK]
    have hkeys : ∀ t ∈ [b₂.GetNewStrMessage C T, b₂.GetOldStrMessage T],
        C.VerifyMessage b₂.pubKeyCollateralAddress b₁.sig t = true →
          b₂.pubKeyCollateralAddress = b₁.pubKeyCollateralAddress ∧
            b₁.signedText C T P chainHeight = t := by
      intro t ht hver
      obtain ⟨htext, hid⟩ := hunf t ht hver
      exact ⟨(CPubKey.bytes_inj hK (hcoll hid)).symm, htext.symm⟩
    constructor
    · intro h
      rcases Bool.or_eq_true_iff.mp h with h | h
      · obtain ⟨hkey, htext⟩ := hkeys _ mem_cons_self h
        exact ⟨hkey, .inl htext⟩
      · obtain ⟨hkey, htext⟩ := hkeys _ (mem_cons_of_mem _ mem_cons_self) h
        exact ⟨hkey, .inr htext⟩
    · rintro ⟨hkey, htext⟩
      have hver := Sign_verifies hsign
      rw [← hkey] at hver
      refine Bool.or_eq_true_iff.mpr ?_
      rcases htext with htext | htext
      · exact .inl (htext ▸ hver)
      · exact .inr (htext ▸ hver)
  rw [not_and, ← haccept, Bool.not_eq_true]

/-- A signer of the announcement for output 0 and of nothing else. -/
def announcer : Crypto :=
  Crypto.onTexts (compressedKey 1) [(announcement 0 1700000000 []).GetOldStrMessage plainTexts]

theorem announcement_signed :
    (announcement 0 0 []).Sign announcer plainTexts mainParams 1000000 1700000000 [1] =
      some (announcement 0 1700000000 [0]) := by decide +kernel

/-- The signature is not good for another time. -/
theorem signature_binds_time :
    VerifySignature announcer plainTexts
      { announcement 0 1700000001 [] with sig := (announcement 0 1700000000 [0]).sig } = false := by
  refine (signature_binds_iff announcer plainTexts mainParams 1000000 1700000000 [1]
    (announcement 0 0 []) (announcement 0 1700000000 [0]) (announcement 0 1700000001 [])
    announcement_signed (by decide) nofun ?_ (fun _ => rfl)).mpr ?_
    (.inr (.inr (.inl (by decide))))
  · intro t _ hver
    have hmem := Crypto.onTexts_verify (by decide) hver
    exact ⟨mem_singleton.mp hmem, rfl⟩
  · rintro ⟨_, halike⟩
    exact absurd (halike.old (by decide)).1 (by decide +kernel)

/-- The signature made for output 0 is good for output 1. -/
theorem signature_good_for_other_output :
    (announcement 0 0 []).Sign announcer plainTexts mainParams 1000000 1700000000 [1] =
      some (announcement 0 1700000000 [0]) ∧
    Differs (announcement 0 1700000000 [0]) (announcement 1 1700000000 []) ∧
    VerifySignature announcer plainTexts
      { announcement 1 1700000000 [] with sig := (announcement 0 1700000000 [0]).sig } = true := by
  refine ⟨by decide +kernel, .inl (by decide), by decide +kernel⟩

end Divitae
