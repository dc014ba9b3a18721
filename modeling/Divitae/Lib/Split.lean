/-
# `Lib.Split` — where a concatenation can be cut

Two pieces written one after the other can be told apart when something marks the
cut: a class of letters the first piece keeps to and the second does not start with
(`append_inj_of_class`), or a separator the second piece does not contain
(`append_cons_inj_last`).
-/
import Mathlib.Data.List.Basic

namespace Split

open List

variable {α : Type*}

theorem append_inj_of_class {p : α → Prop} {c c' : α} {y y' : List α} (hc : ¬ p c) (hc' : ¬ p c') :
    ∀ {x x' : List α}, (∀ a ∈ x, p a) → (∀ a ∈ x', p a) → x ++ c :: y = x' ++ c' :: y' →
      x = x' ∧ c :: y = c' :: y'
  | [], [], _, _, h => ⟨rfl, h⟩
  | [], b :: _, _, hx', h => by
    have hcb : c = b := (cons.inj h).1
    exact absurd (hcb ▸ hx' b mem_cons_self) hc
  | a :: _, [], hx, _, h => by
    have hac : a = c' := (cons.inj h).1
    exact absurd (hac ▸ hx a mem_cons_self) hc'
  | a :: x, b :: x', hx, hx', h => by
    obtain ⟨hab, htail⟩ := cons.inj h
    obtain ⟨hxx, hrest⟩ := append_inj_of_class hc hc'
      (fun d hd => hx d (mem_cons_of_mem a hd))
      (fun d hd => hx' d (mem_cons_of_mem b hd)) htail
    exact ⟨by rw [hab, hxx], hrest⟩

theorem append_cons_inj_last {x x' y y' : List α} {c : α} (hy : c ∉ y) (hy' : c ∉ y')
    (h : x ++ c :: y = x' ++ c :: y') : x = x' ∧ y = y' := by
  have hrev := congrArg List.reverse h
  simp only [reverse_append, reverse_cons, append_assoc, singleton_append] at hrev
  have hne : ∀ {z : List α}, c ∉ z → ∀ a ∈ z.reverse, a ≠ c := by
    rintro z hz a ha rfl
    exact hz (mem_reverse.mp ha)
  obtain ⟨hback, hfront⟩ := append_inj_of_class (p := (· ≠ c)) (fun hc => hc rfl)
    (fun hc => hc rfl) (hne hy) (hne hy') hrev
  exact ⟨reverse_injective (cons.inj hfront).2, reverse_injective hback⟩

end Split
