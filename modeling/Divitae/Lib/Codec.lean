/-
# `Lib.Codec` — reading back what was written

A reader takes a value off the front of a byte list, or fails.  `Reads r bytes a`
says that `r` reads `a` off `bytes` whatever follows, so statements about pieces put
together to statements about the whole, in the order the pieces are written
(`Reads.bind`, `Reads.many`).

The variable-length integers are those of base 128 with the highest digit first,
where one is taken off all digits but the last: every number has one encoding.
-/
import Mathlib.Algebra.Group.Nat.Defs
import Mathlib.Data.List.Basic

namespace Codec

open List

abbrev Reader (α : Type) := List UInt8 → Option (α × List UInt8)

variable {α β : Type}

def bind (r : Reader α) (f : α → Reader β) : Reader β := fun bytes =>
  match r bytes with
  | none => none
  | some (a, rest) => f a rest

def pure (a : α) : Reader α := fun bytes => some (a, bytes)

def fail : Reader α := fun _ => none

def byte : Reader UInt8
  | [] => none
  | b :: rest => some (b, rest)

/-- The next `k` bytes. -/
def take (k : Nat) : Reader (List UInt8) := fun bytes =>
  if bytes.length < k then none else some (bytes.take k, bytes.drop k)

/-- `k` values, one after the other. -/
def many (r : Reader α) : Nat → Reader (List α)
  | 0 => pure []
  | k + 1 => bind r fun a => bind (many r k) fun rest => pure (a :: rest)

/-- `r` reads `a` off `bytes`, and leaves what follows. -/
def Reads (r : Reader α) (bytes : List UInt8) (a : α) : Prop :=
  ∀ rest, r (bytes ++ rest) = some (a, rest)

theorem Reads.pure (a : α) : Reads (pure a) [] a := fun _ => rfl

theorem Reads.bind {r : Reader α} {f : α → Reader β} {bytes bytes' : List UInt8} {a : α} {b : β}
    (h : Reads r bytes a) (h' : Reads (f a) bytes' b) : Reads (bind r f) (bytes ++ bytes') b := by
  intro rest
  unfold Codec.bind
  rw [append_assoc, h]
  exact h' rest

theorem Reads.map {r : Reader α} {bytes : List UInt8} {a : α} {f : α → Reader β} {b : β}
    (h : Reads r bytes a) (h' : Reads (f a) [] b) : Reads (Codec.bind r f) bytes b := by
  have := h.bind h'
  rwa [append_nil] at this

theorem Reads.byte (b : UInt8) : Reads byte [b] b := fun _ => rfl

theorem Reads.take (bytes : List UInt8) : Reads (take bytes.length) bytes bytes := by
  intro rest
  unfold Codec.take
  rw [if_neg (by simp)]
  simp

theorem Reads.many {r : Reader β} {write : α → List UInt8} {back : α → β} :
    ∀ {l : List α}, (∀ a ∈ l, Reads r (write a) (back a)) →
      Reads (many r l.length) (l.map write).flatten (l.map back)
  | [], _ => Reads.pure []
  | a :: l, h => by
    have hhead : Reads r (write a) (back a) := h a mem_cons_self
    have htail : Reads (Codec.many r l.length) (l.map write).flatten (l.map back) :=
      Reads.many fun b hb => h b (mem_cons_of_mem a hb)
    exact hhead.bind (htail.map (Reads.pure _))

/-- `k` bytes as a number, lowest first. -/
def little : List UInt8 → Nat
  | [] => 0
  | b :: bytes => b.toNat + 256 * little bytes

/-! ## Variable length, highest digit first -/

/-- The digits before the last one, each marked; at most `k` of them. -/
def varHead : Nat → Nat → List UInt8
  | 0, _ => []
  | k + 1, n =>
    if n ≤ 127 then []
    else
      let m := n / 128 - 1
      varHead k m ++ [UInt8.ofNat (m % 128 + 128)]

/-- All digits; a number has fewer of them than its value. -/
def writeVar (n : Nat) : List UInt8 := varHead n n ++ [UInt8.ofNat (n % 128)]

/-- Continue reading with the number so far. -/
def readVarFrom (n : Nat) : Reader Nat
  | [] => none
  | b :: rest =>
    let m := n * 128 + b.toNat % 128
    if 128 ≤ b.toNat then readVarFrom (m + 1) rest else some (m, rest)

def readVar : Reader Nat := readVarFrom 0

theorem readVarFrom_varHead : ∀ {k n : Nat}, n < 128 ^ (k + 1) → ∀ rest : List UInt8,
    readVarFrom 0 (varHead k n ++ rest) = readVarFrom (n / 128) rest
  | 0, n, h, rest => by
    have hn : n / 128 = 0 := Nat.div_eq_of_lt (by simpa using h)
    rw [hn]
    rfl
  | k + 1, n, h, rest => by
    unfold varHead
    rcases Nat.lt_or_ge n 128 with hlt | hge
    · rw [if_pos (by omega), Nat.div_eq_of_lt hlt]
      rfl
    · rw [if_neg (by omega)]
      have hm : n / 128 - 1 < 128 ^ (k + 1) := by
        have : n / 128 < 128 ^ (k + 1) := Nat.div_lt_of_lt_mul (by rw [← Nat.pow_succ']; exact h)
        omega
      have hb : (UInt8.ofNat ((n / 128 - 1) % 128 + 128)).toNat = (n / 128 - 1) % 128 + 128 := by
        rw [UInt8.toNat_ofNat']
        omega
      have hpos : 1 ≤ n / 128 := (Nat.one_le_div_iff (by omega)).mpr hge
      rw [append_assoc, readVarFrom_varHead hm]
      simp only [singleton_append, readVarFrom, hb]
      rw [if_pos (by omega)]
      congr 1
      omega

theorem Reads.var (n : Nat) : Reads readVar (writeVar n) n := by
  intro rest
  have hn : n < 128 ^ (n + 1) :=
    Nat.lt_of_lt_of_le (Nat.lt_pow_self (by decide)) (Nat.pow_le_pow_right (by decide) (by omega))
  unfold readVar writeVar
  rw [append_assoc, readVarFrom_varHead hn]
  have hb : (UInt8.ofNat (n % 128)).toNat = n % 128 := by
    rw [UInt8.toNat_ofNat']
    omega
  simp only [singleton_append, readVarFrom, hb]
  rw [if_neg (by omega)]
  congr 2
  omega

end Codec
