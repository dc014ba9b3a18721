/-
# `Lib.WriteBack` — one key in a stack of write-back caches

A stack of caches over a base: a value is looked for in the caches, the uppermost first, and
then in the base.  A value may be gone, and then it is as good as none (`seen`).  What a cache
has of a key carries two flags:

    dirty   it may differ from what is below
    fresh   below there is nothing

What is not fresh has been pulled up through all caches below it, so the cache below has an
entry too (`Fits`).  With that the entry can be merged down: a dirty entry that the cache below
has nothing for is fresh, and may be put there as it is; one that is gone may be dropped
together with the entry below, if that one is fresh.

Only one key is looked at here: its entries in the caches, the uppermost first, are a column.
-/
import Mathlib.Data.Option.Basic
import Mathlib.Data.List.Basic

namespace WriteBack

variable {α : Type*}

structure Entry (α : Type*) where
  val : α
  dirty : Bool
  fresh : Bool

abbrev Column (α : Type*) := List (Option (Entry α))

/-- The first entry, or what the base has. -/
def look : Column α → Option α → Option α
  | [], b => b
  | some e :: _, _ => some e.val
  | none :: rest, b => look rest b

/-- There is an entry at the top, or no cache at all. -/
def Present : Column α → Prop
  | [] => True
  | top :: _ => top.isSome = true

section
variable (gone : α → Bool)

/-- What there is of a value. -/
def seen (v : Option α) : Option α := v.filter fun a => !gone a

/-! ## Operations -/

def pulled (v : α) : Entry α := ⟨v, false, gone v⟩

/-- A value is pulled up to the top. -/
def fill : Column α → Option α → Column α
  | [], _ => []
  | some e :: rest, _ => some e :: rest
  | none :: rest, b => (look rest b).map (pulled gone) :: fill rest b

/-- What is put over an entry; nothing if it is gone and there is nothing below. -/
def put (e : Entry α) (v : α) : Option (Entry α) :=
  if e.fresh && gone v then none else some ⟨v, true, e.fresh⟩

/-- The value is replaced at the top, where it is pulled up first; `null` stands for nothing. -/
def write (null : α) (g : α → α) : Column α → Option α → Column α
  | [], _ => []
  | some e :: rest, _ => put gone e (g e.val) :: rest
  | none :: rest, b =>
    let e := ((look rest b).map (pulled gone)).getD ⟨null, false, true⟩
    put gone e (g e.val) :: fill gone rest b

/-- The entry of a cache goes into the cache below, which has `us`; `none` where it must not
happen. -/
def merge : Option (Entry α) → Option (Entry α) → Option (Option (Entry α))
  | none, us => some us
  | some e, us =>
    if !e.dirty then some us
    else
      match us with
      | none =>
        if gone e.val then some none
        else if e.fresh then some (some ⟨e.val, true, true⟩)
        else none
      | some p =>
        if p.fresh && gone e.val then some none else some (some ⟨e.val, true, p.fresh⟩)

/-! ## What entries say -/

/-- The flags of an entry are right about what is below. -/
structure Fits (e : Entry α) (rest : Column α) (b : Option α) : Prop where
  fresh : e.fresh = true → seen gone (look rest b) = none
  clean : e.dirty = false → seen gone (some e.val) = seen gone (look rest b)
  present : e.fresh = false → Present rest

def Sound : Column α → Option α → Prop
  | [], _ => True
  | none :: rest, b => Sound rest b
  | some e :: rest, b => Fits gone e rest b ∧ Sound rest b

end

variable {gone : α → Bool} {col rest : Column α} {b : Option α} {v : α}

theorem seen_gone (h : gone v = true) : seen gone (some v) = none := by
  show (if (!gone v) = true then some v else none) = none
  rw [h]
  rfl

theorem seen_some (h : gone v = false) : seen gone (some v) = some v := by
  show (if (!gone v) = true then some v else none) = some v
  rw [h]
  rfl

theorem sound_of_empty (h : ∀ o ∈ col, o = none) : Sound gone col b := by
  induction col with
  | nil => exact trivial
  | cons o rest ih =>
    obtain rfl : o = none := h o List.mem_cons_self
    exact ih fun o' ho' => h o' (.tail _ ho')

theorem look_of_empty (h : ∀ o ∈ col, o = none) : look col b = b := by
  induction col with
  | nil => rfl
  | cons o rest ih =>
    obtain rfl : o = none := h o List.mem_cons_self
    exact ih fun o' ho' => h o' (.tail _ ho')

/-! ## Pulling up -/

theorem look_fill (gone : α → Bool) (col : Column α) (b : Option α) :
    look (fill gone col b) b = look col b := by
  induction col with
  | nil => rfl
  | cons o rest ih =>
    cases o with
    | some e => rfl
    | none =>
      show look ((look rest b).map (pulled gone) :: fill gone rest b) b = look rest b
      cases hlook : look rest b with
      | none => exact ih.trans hlook
      | some v => rfl

theorem length_fill (gone : α → Bool) (col : Column α) (b : Option α) :
    (fill gone col b).length = col.length := by
  induction col with
  | nil => rfl
  | cons o rest ih =>
    cases o with
    | some e => rfl
    | none => exact congrArg (· + 1) ih

theorem present_fill (h : look col b = some v) : Present (fill gone col b) := by
  cases col with
  | nil => exact trivial
  | cons o rest =>
    cases o with
    | some e => exact rfl
    | none =>
      have hrest : look rest b = some v := h
      show ((look rest b).map (pulled gone)).isSome = true
      rw [hrest]
      rfl

theorem fits_pulled (gone : α → Bool) (h : look rest b = some v) : Fits gone (pulled gone v)
    (fill gone rest b) b where
  fresh hgone := by
    rw [look_fill, h]
    exact seen_gone hgone
  clean _ := by
    rw [look_fill, h]
    rfl
  present _ := present_fill h

theorem Sound.fill (h : Sound gone col b) : Sound gone (fill gone col b) b := by
  induction col with
  | nil => exact trivial
  | cons o rest ih =>
    cases o with
    | some e => exact h
    | none =>
      have hrest : Sound gone (WriteBack.fill gone rest b) b := ih h
      show Sound gone ((look rest b).map (pulled gone) :: WriteBack.fill gone rest b) b
      cases hlook : look rest b with
      | none => exact hrest
      | some v => exact ⟨fits_pulled gone hlook, hrest⟩

/-! ## Writing -/

variable {e : Entry α}

theorem look_put (h : e.fresh = true → seen gone (look rest b) = none) (v : α) :
    seen gone (look (put gone e v :: rest) b) = seen gone (some v) := by
  rw [put]
  cases hfresh : e.fresh with
  | false => rfl
  | true =>
    cases hgone : gone v with
    | false => rfl
    | true => exact (h hfresh).trans (seen_gone hgone).symm

theorem sound_put (hfresh : e.fresh = true → seen gone (look rest b) = none)
    (hpresent : e.fresh = false → Present rest) (hrest : Sound gone rest b) (v : α) :
    Sound gone (put gone e v :: rest) b := by
  rw [put]
  cases he : e.fresh && gone v with
  | true => exact hrest
  | false => exact ⟨⟨hfresh, nofun, hpresent⟩, hrest⟩

theorem fits_start (gone : α → Bool) (null : α) (rest : Column α) (b : Option α) :
    ((((look rest b).map (pulled gone)).getD ⟨null, false, true⟩).fresh = true →
        seen gone (look (fill gone rest b) b) = none) ∧
      ((((look rest b).map (pulled gone)).getD ⟨null, false, true⟩).fresh = false →
        Present (fill gone rest b)) ∧
      (((look rest b).map (pulled gone)).getD ⟨null, false, true⟩).val =
        (look rest b).getD null := by
  cases hlook : look rest b with
  | none =>
    refine ⟨fun _ => ?_, nofun, rfl⟩
    rw [look_fill, hlook]
    rfl
  | some v =>
    obtain ⟨hfresh, -, hpresent⟩ := fits_pulled gone hlook
    exact ⟨hfresh, hpresent, rfl⟩

/-- **What is written is seen.** -/
theorem Sound.look_write (h : Sound gone col b) (hne : col ≠ []) (null : α) (g : α → α) :
    seen gone (look (write gone null g col b) b) =
      seen gone (some (g ((look col b).getD null))) := by
  cases col with
  | nil => exact absurd rfl hne
  | cons o rest =>
    cases o with
    | some e => exact look_put h.1.fresh (g e.val)
    | none =>
      obtain ⟨hfresh, -, hval⟩ := fits_start gone null rest b
      refine (look_put hfresh _).trans ?_
      rw [hval]
      rfl

theorem Sound.write (h : Sound gone col b) (null : α) (g : α → α) :
    Sound gone (write gone null g col b) b := by
  cases col with
  | nil => exact trivial
  | cons o rest =>
    cases o with
    | some e => exact sound_put h.1.fresh h.1.present h.2 (g e.val)
    | none =>
      obtain ⟨hfresh, hpresent, -⟩ := fits_start gone null rest b
      exact sound_put hfresh hpresent (Sound.fill h) _

theorem merge_clean {us : Option (Entry α)} (hdirty : e.dirty = false) :
    merge gone (some e) us = some us := by
  show (if (!e.dirty) = true then some us else _) = some us
  rw [hdirty]
  rfl

/-- **An entry that fits can be merged, and nothing is seen of it.** -/
theorem Sound.merge {o us : Option (Entry α)} (h : Sound gone (o :: us :: rest) b) :
    ∃ us', merge gone o us = some us' ∧ Sound gone (us' :: rest) b ∧
      seen gone (look (us' :: rest) b) = seen gone (look (o :: us :: rest) b) := by
  cases o with
  | none => exact ⟨us, rfl, h, rfl⟩
  | some e =>
    obtain ⟨⟨hfresh, hclean, hpresent⟩, hrest⟩ := h
    cases hdirty : e.dirty with
    | false => exact ⟨us, merge_clean hdirty, hrest, (hclean hdirty).symm⟩
    | true =>
      cases us with
      | none =>
        -- with no entry below this one is fresh
        have he : e.fresh = true := by
          cases hf : e.fresh with
          | true => rfl
          | false => exact absurd (hpresent hf) Bool.false_ne_true
        have hbelow : seen gone (look rest b) = none := hfresh he
        cases hgone : gone e.val with
        | true =>
          refine ⟨none, ?_, hrest, hbelow.trans (seen_gone hgone).symm⟩
          rw [WriteBack.merge, hdirty, hgone]
          rfl
        | false =>
          refine ⟨some ⟨e.val, true, true⟩, ?_, ⟨⟨fun _ => hbelow, nofun, nofun⟩, hrest⟩, rfl⟩
          rw [WriteBack.merge, hdirty, hgone, he]
          rfl
      | some p =>
        obtain ⟨⟨hpfresh, -, hppresent⟩, hbelow⟩ := hrest
        have hput : WriteBack.merge gone (some e) (some p) = some (put gone p e.val) := by
          rw [WriteBack.merge, hdirty, put]
          cases p.fresh && gone e.val <;> rfl
        exact ⟨put gone p e.val, hput, sound_put hpfresh hppresent hbelow e.val,
          look_put hpfresh e.val⟩

/-- What the lowest cache has goes into the base: what it has changed, at least. -/
def settled (gone : α → Bool) (o : Option (Entry α)) (b : Option α) : Option α :=
  match o with
  | none => seen gone b
  | some e => if e.dirty then seen gone (some e.val) else seen gone b

theorem Sound.settled {o : Option (Entry α)} (h : Sound gone [o] b) :
    settled gone o b = seen gone (look [o] b) := by
  cases o with
  | none => rfl
  | some e =>
    rw [WriteBack.settled]
    cases hdirty : e.dirty with
    | true => rfl
    | false => exact (h.1.clean hdirty).symm

end WriteBack
