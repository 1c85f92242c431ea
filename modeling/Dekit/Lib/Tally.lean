import Mathlib.Algebra.Order.Ring.Int
import Mathlib.Data.Finset.Card

def tally {α : Type} [DecidableEq α] (s : Finset α) (p : α → Bool) : ℤ :=
  (s.filter (fun x => p x = true)).card

section tally

variable {α : Type} [DecidableEq α] {s : Finset α} {p q : α → Bool} {a : α}

@[simp]
theorem tally_empty : tally ∅ p = 0 := rfl

theorem tally_congr (h : ∀ x ∈ s, p x = q x) : tally s p = tally s q := by
  unfold tally
  rw [Finset.filter_congr fun x hx => by rw [h x hx]]

theorem tally_insert (h : a ∉ s) : tally (insert a s) p = tally s p + (p a).toInt := by
  unfold tally
  cases hp : p a <;> simp [Finset.filter_insert, hp, h]

theorem tally_erase (h : a ∈ s) : tally (s.erase a) p = tally s p - (p a).toInt := by
  have hi := tally_insert (p := p) (Finset.notMem_erase a s)
  rw [Finset.insert_erase h] at hi
  omega

theorem tally_change (h : a ∈ s) (hpq : ∀ x ∈ s, x ≠ a → p x = q x) :
    tally s q = tally s p + (q a).toInt - (p a).toInt := by
  have he : tally (s.erase a) p = tally (s.erase a) q :=
    tally_congr fun x hx => hpq x (Finset.mem_of_mem_erase hx) (Finset.ne_of_mem_erase hx)
  rw [tally_erase h, tally_erase h] at he
  omega

theorem tally_pos_iff : 0 < tally s p ↔ ∃ x ∈ s, p x = true := by
  simp [tally, Finset.card_pos, Finset.Nonempty]

end tally
