import Mathlib.Algebra.Group.Action.Defs
import Mathlib.Algebra.Order.BigOperators.Group.Finset

open Finset

variable {α : Type}

def load (s : Finset α) (w : α → ℕ) (p : α → Bool) : ℕ := ∑ x ∈ s, if p x then w x else 0

section load

variable {s t : Finset α} {w : α → ℕ} {p q : α → Bool} {a : α} {c : ℕ}

theorem load_le (h : ∀ x ∈ s, w x ≤ c) : load s w p ≤ s.card * c := by
  unfold load
  refine (sum_le_card_nsmul s _ c fun x hx => ?_).trans_eq (smul_eq_mul _ _)
  split
  · exact h x hx
  · exact Nat.zero_le c

variable [DecidableEq α]

theorem load_change (h : ∀ x ∈ s, x ∉ t → q x = true → p x = true) (ht : ∀ x ∈ t, w x ≤ c) :
    load s w q ≤ load s w p + t.card * c := by
  have hsum : load s w q ≤ load s w p + ∑ x ∈ s, if x ∈ t then c else 0 := by
    unfold load
    rw [← sum_add_distrib]
    refine sum_le_sum fun x hx => ?_
    by_cases hxt : x ∈ t
    · have := ht x hxt
      simp only [hxt, if_true]
      split <;> omega
    · have := h x hx hxt
      cases hq : q x with
      | false => simp
      | true => simp [this hq]
  have hcard : (∑ x ∈ s, if x ∈ t then c else 0) ≤ t.card * c := by
    rw [← sum_filter, sum_const, smul_eq_mul]
    refine Nat.mul_le_mul_right c (card_le_card fun x hx => ?_)
    exact (mem_filter.mp hx).2
  omega

theorem load_drop (ha : a ∈ s) (hp : p a = true) (hq : q a = false)
    (h : ∀ x ∈ s, x ≠ a → x ∉ t → q x = true → p x = true) (ht : ∀ x ∈ t, w x ≤ c) :
    load s w q + w a ≤ load s w p + t.card * c := by
  have hsplit (r : α → Bool) : load s w r = load (s.erase a) w r + if r a then w a else 0 :=
    (sum_erase_add s _ ha).symm
  have hrest := load_change (s := s.erase a)
    (fun x hx => h x (mem_of_mem_erase hx) (ne_of_mem_erase hx)) ht
  rw [hsplit q, hsplit p, hp, hq, if_pos rfl, if_neg Bool.false_ne_true]
  omega

end load
