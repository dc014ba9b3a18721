/-
# `NodeDraw` — a node at random

`FindRandomNotInVec` counts the enabled nodes, takes off the number of exclusions and draws below
that.  Then it counts the draw down over the nodes that are enabled and not excluded.  With `E`
such nodes and `m` the difference:

    m = 0                no node, even if an exclusion is not of an enabled node and so 0 < E
    0 < m                0 and 1 are both the first, and m - 1 the last that is drawn
    m below zero         unsigned: the draw is any `int`, and most are past the last node

Since `m ≤ E`, the last node is never drawn where there are two or more.
-/
import Divitae.ProsperitynodePayments
import Divitae.RankOrder

namespace Divitae.Ranking

open Wrap List

section
variable {α : Type} (wanted : α → Bool)

/-- The loop over a list that counts a number down at each element that is wanted. -/
def countdown : Int → List α → Option α
  | _, [] => none
  | rand, a :: l =>
    if wanted a then if rand - 1 < 1 then some a else countdown (rand - 1) l
    else countdown rand l

variable {wanted}

theorem countdown_eq (rand : Int) (l : List α) :
    countdown wanted rand l = (l.filter wanted)[(rand - 1).toNat]? := by
  induction l generalizing rand with
  | nil => simp [countdown]
  | cons a l ih =>
    rw [countdown]
    cases ha : wanted a with
    | false =>
      rw [if_neg Bool.false_ne_true, filter_cons_of_neg (by simp [ha])]
      exact ih rand
    | true =>
      rw [if_pos rfl, filter_cons_of_pos ha]
      by_cases hlast : rand - 1 < 1
      · have hzero : (rand - 1).toNat = 0 := by omega
        rw [if_pos hlast, hzero]
        rfl
      · have hsucc : (rand - 1).toNat = (rand - 1 - 1).toNat + 1 := by omega
        rw [if_neg hlast, hsucc, List.getElem?_cons_succ]
        exact ih (rand - 1)

end

/-! ## The draw -/

/-- `GetRand`, of the first random number in its range. -/
def GetRand (nMax nRand : Nat) : Nat := if nMax = 0 then 0 else nRand % nMax

/-- `GetRandInt`: the argument becomes unsigned, and the number an `int`. -/
def GetRandInt (nMax : Int) (nRand : Nat) : Int := wrap32 (GetRand (nMax % 2 ^ 64).toNat nRand)

def accepted (protocolVersion : Int) (mn : CProsperitynode) : Bool :=
  !(mn.protocolVersion < protocolVersion) && mn.IsEnabled

def excluded (vecToExclude : List CTxIn) (mn : CProsperitynode) : Bool :=
  vecToExclude.any fun usedVin => mn.vin.prevout == usedVin.prevout

section
variable (env : NodeEnv) (s : CProsperitynodeMan) (vecToExclude : List CTxIn)
  (protocolVersion : Int)

/-- What `CountEnabled` leaves of the list. -/
def checked : List CProsperitynode := s.vProsperitynodes.map (·.Check env false)

/-- The version asked for; without one, that of the payments. -/
def askedVersion : Int := if protocolVersion = -1 then env.minProto else protocolVersion

/-- `FindRandomNotInVec`; `nRand` is what the random source gives. -/
def FindRandomNotInVec (nRand : Nat) : Option CProsperitynode :=
  let protocolVersion := askedVersion env protocolVersion
  let nCountEnabled : Int := s.CountEnabled env protocolVersion
  -- `int` less `size_t`
  let nLeft := (nCountEnabled - vecToExclude.length) % 2 ^ 64
  if nLeft < 1 then none
  else
    countdown (fun mn => accepted protocolVersion mn && !excluded vecToExclude mn)
      (GetRandInt (wrap32 nLeft) nRand) (checked env s)

/-- The nodes that may be drawn: enabled, of the version asked for, and not excluded. -/
def drawable : List CProsperitynode :=
  (checked env s).filter fun mn =>
    accepted (askedVersion env protocolVersion) mn && !excluded vecToExclude mn

/-- What the draw is for. -/
structure DrawsFairly : Prop where
  none_iff : ∀ nRand, FindRandomNotInVec env s vecToExclude protocolVersion nRand = none ↔
    drawable env s vecToExclude protocolVersion = []
  allowed : ∀ nRand mn, FindRandomNotInVec env s vecToExclude protocolVersion nRand = some mn →
    mn.IsEnabled = true ∧ excluded vecToExclude mn = false
  reached : ∀ mn ∈ drawable env s vecToExclude protocolVersion,
    ∃ nRand, FindRandomNotInVec env s vecToExclude protocolVersion nRand = some mn

variable {env s vecToExclude protocolVersion}

theorem FindRandomNotInVec_eq (nRand : Nat) :
    FindRandomNotInVec env s vecToExclude protocolVersion nRand =
      let nLeft := ((s.CountEnabled env (askedVersion env protocolVersion) : Int) -
        vecToExclude.length) % 2 ^ 64
      if nLeft < 1 then none
      else (drawable env s vecToExclude protocolVersion)[
        (GetRandInt (wrap32 nLeft) nRand - 1).toNat]? := by
  unfold FindRandomNotInVec
  dsimp only
  split
  · rfl
  · exact countdown_eq _ _

section
variable (honce : (s.vProsperitynodes.map fun mn => mn.vin.prevout).Nodup)
include honce

theorem checked_once :
    ((checked env s).map fun mn => mn.vin.prevout).Nodup := by
  have hkeys : (checked env s).map (fun mn => mn.vin.prevout) =
      s.vProsperitynodes.map fun mn => mn.vin.prevout := by
    rw [checked, map_map]
    exact map_congr_left fun mn _ => congrArg CTxIn.prevout (Check_vin env mn false)
  exact hkeys.symm ▸ honce

theorem countEnabled_le_drawable :
    s.CountEnabled env (askedVersion env protocolVersion) ≤
      (drawable env s vecToExclude protocolVersion).length + vecToExclude.length := by
  let version := askedVersion env protocolVersion
  let acceptedNodes := (checked env s).filter (accepted version)
  have hcount : s.CountEnabled env version = acceptedNodes.length := countP_eq_length_filter
  have hdrawable : drawable env s vecToExclude protocolVersion =
      acceptedNodes.filter fun mn => !excluded vecToExclude mn := by
    rw [filter_filter]
    exact filter_congr fun mn _ => Bool.and_comm ..
  -- an excluded node is named by an exclusion, and no two by one
  have hexcluded : (acceptedNodes.filter (excluded vecToExclude)).length ≤
      vecToExclude.length := by
    have hnodup : ((acceptedNodes.filter (excluded vecToExclude)).map
        fun mn => mn.vin.prevout).Nodup :=
      (checked_once honce).sublist ((filter_sublist.trans filter_sublist).map _)
    have hsubset : (acceptedNodes.filter (excluded vecToExclude)).map (fun mn => mn.vin.prevout) ⊆
        vecToExclude.map CTxIn.prevout := by
      intro o ho
      obtain ⟨mn, hmn, rfl⟩ := mem_map.mp ho
      obtain ⟨usedVin, hused, hkey⟩ := any_eq_true.mp (mem_filter.mp hmn).2
      exact mem_map.mpr ⟨usedVin, hused, (beq_iff_eq.mp hkey).symm⟩
    have hle := (hnodup.subperm hsubset).length_le
    rwa [length_map, length_map] at hle
  have hparts := length_eq_length_filter_add (l := acceptedNodes) (excluded vecToExclude)
  rw [hcount, hdrawable]
  omega

end

theorem FindRandomNotInVec_mem {nRand : Nat} {mn : CProsperitynode}
    (h : FindRandomNotInVec env s vecToExclude protocolVersion nRand = some mn) :
    mn ∈ drawable env s vecToExclude protocolVersion := by
  rw [FindRandomNotInVec_eq] at h
  dsimp only at h
  split at h
  · cases h
  · exact mem_of_getElem? h

theorem mem_drawable {mn : CProsperitynode}
    (h : mn ∈ drawable env s vecToExclude protocolVersion) :
    mn.IsEnabled = true ∧ excluded vecToExclude mn = false := by
  have hpass := (mem_filter.mp h).2
  simp only [accepted, Bool.and_eq_true, Bool.not_eq_true'] at hpass
  exact ⟨hpass.1.2, hpass.2⟩

/-! ## What is left -/

theorem draw_of_eq (h : s.CountEnabled env (askedVersion env protocolVersion) =
    vecToExclude.length) (nRand : Nat) :
    FindRandomNotInVec env s vecToExclude protocolVersion nRand = none := by
  rw [FindRandomNotInVec_eq, h, sub_self]
  rfl

theorem draw_of_lt {k : Nat} (hk : s.CountEnabled env (askedVersion env protocolVersion) =
    vecToExclude.length + k) (hpos : 0 < k) (hsmall : k < 2 ^ 31) (nRand : Nat) :
    FindRandomNotInVec env s vecToExclude protocolVersion nRand =
      (drawable env s vecToExclude protocolVersion)[nRand % k - 1]? := by
  have hdiff : ((s.CountEnabled env (askedVersion env protocolVersion) : Int) -
      vecToExclude.length) % 2 ^ 64 = k := by
    push_cast
    omega
  have hmod := Nat.mod_lt nRand hpos
  have hdraw : GetRandInt (wrap32 k) nRand = (nRand % k : Nat) := by
    have hkeep : wrap32 (k : Int) = k := wrap32_of_fits ⟨by omega, by omega⟩
    have harg : ((k : Int) % 2 ^ 64).toNat = k := by omega
    rw [hkeep, GetRandInt, harg, GetRand, if_neg (by omega)]
    exact wrap32_of_fits ⟨by omega, by omega⟩
  have hindex : (((nRand % k : Nat) : Int) - 1).toNat = nRand % k - 1 := by omega
  rw [FindRandomNotInVec_eq]
  rw [hdiff, if_neg (by omega), hdraw, hindex]

theorem draw_of_gt (h : s.CountEnabled env (askedVersion env protocolVersion) <
    vecToExclude.length) (hexclude : vecToExclude.length < 2 ^ 31) :
    FindRandomNotInVec env s vecToExclude protocolVersion (2 ^ 31 - 1) = none := by
  have hfew : (drawable env s vecToExclude protocolVersion).length ≤
      s.CountEnabled env (askedVersion env protocolVersion) := by
    have hsub : (drawable env s vecToExclude protocolVersion).length ≤
        (checked env s).countP (accepted (askedVersion env protocolVersion)) := by
      rw [drawable, ← countP_eq_length_filter]
      refine countP_mono_left fun mn _ hmn => ?_
      exact (Bool.and_eq_true_iff.mp hmn).1
    exact hsub
  rw [FindRandomNotInVec_eq]
  generalize s.CountEnabled env (askedVersion env protocolVersion) = n at h hfew ⊢
  have hleft : ((n : Int) - vecToExclude.length) % 2 ^ 64 =
      2 ^ 64 + n - vecToExclude.length := by omega
  have harg : wrap32 (2 ^ 64 + n - vecToExclude.length) = n - vecToExclude.length := by
    unfold wrap32
    rw [Int.bmod_def]
    omega
  have hdraw : GetRandInt (n - vecToExclude.length) (2 ^ 31 - 1) = 2 ^ 31 - 1 := by
    have hrange : (((n : Int) - vecToExclude.length) % 2 ^ 64).toNat > 2 ^ 31 - 1 := by omega
    rw [GetRandInt, GetRand, if_neg (by omega), Nat.mod_eq_of_lt hrange]
    exact wrap32_of_fits ⟨by decide, by decide⟩
  rw [hleft, if_neg (by omega), harg, hdraw]
  exact List.getElem?_eq_none (by omega)

end

/-- **When a node is drawn fairly.**  There is none to draw, or there is one and the number of
enabled nodes is one more than the number of exclusions. -/
theorem drawsFairly_iff (env : NodeEnv) (s : CProsperitynodeMan) (vecToExclude : List CTxIn)
    (protocolVersion : Int)
    (honce : (s.vProsperitynodes.map fun mn => mn.vin.prevout).Nodup)
    (hnodes : s.vProsperitynodes.length < 2 ^ 31) (hexclude : vecToExclude.length < 2 ^ 31) :
    DrawsFairly env s vecToExclude protocolVersion ↔
      drawable env s vecToExclude protocolVersion = [] ∨
        (drawable env s vecToExclude protocolVersion).length = 1 ∧
          s.CountEnabled env (askedVersion env protocolVersion) = vecToExclude.length + 1 := by
  have hle : s.CountEnabled env (askedVersion env protocolVersion) ≤
      (drawable env s vecToExclude protocolVersion).length + vecToExclude.length :=
    countEnabled_le_drawable honce
  have hcount : s.CountEnabled env (askedVersion env protocolVersion) < 2 ^ 31 := by
    have hlist : s.CountEnabled env (askedVersion env protocolVersion) ≤
        (checked env s).length := countP_le_length
    rw [checked, length_map] at hlist
    omega
  have hallowed : ∀ nRand mn,
      FindRandomNotInVec env s vecToExclude protocolVersion nRand = some mn →
        mn.IsEnabled = true ∧ excluded vecToExclude mn = false := fun _ _ h =>
    mem_drawable (FindRandomNotInVec_mem h)
  constructor
  · intro h
    by_cases hempty : drawable env s vecToExclude protocolVersion = []
    · exact .inl hempty
    refine .inr ?_
    rcases Nat.lt_trichotomy (s.CountEnabled env (askedVersion env protocolVersion))
      vecToExclude.length with hless | hsame | hmore
    · exact absurd ((h.none_iff _).mp (draw_of_gt hless hexclude)) hempty
    · exact absurd ((h.none_iff 0).mp (draw_of_eq hsame 0)) hempty
    · obtain ⟨k, hk, hpos⟩ : ∃ k, s.CountEnabled env (askedVersion env protocolVersion) =
          vecToExclude.length + k ∧ 0 < k := ⟨_, by omega, Nat.sub_pos_of_lt hmore⟩
      -- the last one must be drawn as well
      obtain ⟨nRand, hdraw⟩ := h.reached _ (getLast_mem hempty)
      rw [draw_of_lt hk hpos (by omega), ← List.getLast?_eq_some_getLast hempty,
        List.getLast?_eq_getElem?] at hdraw
      have hnodup : (drawable env s vecToExclude protocolVersion).Nodup :=
        ((checked_once honce).of_map _).filter _
      have hlength := length_pos_iff.mpr hempty
      have hmod := Nat.mod_lt nRand hpos
      have hindex := (List.getElem?_inj (by omega) hnodup).mp hdraw
      omega
  · rintro (hempty | ⟨hone, hcountOne⟩)
    · refine ⟨fun nRand => iff_of_true ?_ hempty, hallowed, ?_⟩
      · cases hdraw : FindRandomNotInVec env s vecToExclude protocolVersion nRand with
        | none => rfl
        | some mn =>
          have hin := FindRandomNotInVec_mem hdraw
          rw [hempty] at hin
          cases hin
      · intro mn hmn
        rw [hempty] at hmn
        cases hmn
    · obtain ⟨only, honly⟩ := length_eq_one_iff.mp hone
      have hdraw : ∀ nRand,
          FindRandomNotInVec env s vecToExclude protocolVersion nRand = some only := by
        intro nRand
        rw [draw_of_lt hcountOne (by decide) (by decide), honly, Nat.mod_one]
        rfl
      refine ⟨fun nRand => ?_, hallowed, ?_⟩
      · rw [hdraw, honly]
        exact iff_of_false (by simp) (by simp)
      · intro mn hmn
        rw [honly, mem_singleton] at hmn
        exact ⟨0, hmn ▸ hdraw 0⟩

def listOf (nodes : List CProsperitynode) : CProsperitynodeMan :=
  ⟨nodes, fun _ => none, fun _ => none⟩

/-- The only node there is. -/
theorem one_node_drawn :
    DrawsFairly tiedEnv.toNodeEnv (listOf [tiedNode 0]) [] PROTOCOL_VERSION :=
  (drawsFairly_iff tiedEnv.toNodeEnv (listOf [tiedNode 0]) [] PROTOCOL_VERSION (by decide)
    (by decide) (by decide)).mpr (.inr ⟨by decide, by decide⟩)

/-- **Two nodes, nothing excluded.**  Whatever is drawn, it is the first. -/
theorem second_node_never_drawn :
    (drawable tiedEnv.toNodeEnv (listOf [tiedNode 0, tiedNode 1]) [] PROTOCOL_VERSION).map
        (fun mn => mn.vin.prevout.n) = [0, 1] ∧
      ∀ nRand, (FindRandomNotInVec tiedEnv.toNodeEnv (listOf [tiedNode 0, tiedNode 1]) []
        PROTOCOL_VERSION nRand).map (fun mn => mn.vin.prevout.n) = some 0 := by
  refine ⟨by decide, fun nRand => ?_⟩
  have htwo : (listOf [tiedNode 0, tiedNode 1]).CountEnabled tiedEnv.toNodeEnv
      (askedVersion tiedEnv.toNodeEnv PROTOCOL_VERSION) = ([] : List CTxIn).length + 2 := by decide
  rw [draw_of_lt htwo (by decide) (by decide)]
  have hzero : nRand % 2 - 1 = 0 := by omega
  rw [hzero]
  decide

end Divitae.Ranking
