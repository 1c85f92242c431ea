import Mathlib.Data.Finset.Lattice.Fold
import Mathlib.Order.Lattice.Nat
import Dekit.Lib.Dag

/-! Work in a dependency graph, where each element waits for all that requires it: the heaviest chain bounds
how long it all takes, and how much of that is left when an element's turn comes. -/

namespace CriticalPath

variable {α : Type} {w : α → ℕ} {next : α → Finset α} {rank : α → ℕ} {s : Finset α} {n : ℕ} {x y : α}

/-- An element's own weight and the heaviest chain of what it requires. -/
def chain (w : α → ℕ) (next : α → Finset α) : ℕ → α → ℕ
  | 0, _ => 0
  | n + 1, x => w x + (next x).sup (chain w next n)

def total (w : α → ℕ) (next : α → Finset α) (s : Finset α) (n : ℕ) : ℕ := s.sup (chain w next n)

def slack (w : α → ℕ) (next : α → Finset α) (s : Finset α) (n : ℕ) (x : α) : ℕ :=
  total w next s n - (next x).sup (chain w next n)

theorem chain_stable (hrank : ∀ x, ∀ y ∈ next x, rank y < rank x) (h : rank x < n) :
    chain w next (n + 1) x = chain w next n x := by
  induction n generalizing x with
  | zero => omega
  | succ n ih =>
    have hsup : (next x).sup (chain w next (n + 1)) = (next x).sup (chain w next n) := by
      refine Finset.sup_congr rfl fun y hy => ih ?_
      have hlt := hrank x y hy
      omega
    rw [chain, hsup, chain]

theorem chain_eq (hrank : ∀ x, ∀ y ∈ next x, rank y < rank x) (h : rank x < n) :
    w x + (next x).sup (chain w next n) = chain w next n x := chain_stable hrank h

theorem slack_le : slack w next s n x ≤ total w next s n := Nat.sub_le _ _

theorem weight_le_slack (hrank : ∀ x, ∀ y ∈ next x, rank y < rank x) (hx : x ∈ s) (h : rank x < n) :
    w x ≤ slack w next s n x := by
  have hle : chain w next n x ≤ total w next s n := Finset.le_sup hx
  have heq := chain_eq (w := w) hrank h
  unfold slack
  omega

theorem slack_next (hrank : ∀ x, ∀ y ∈ next x, rank y < rank x) (hx : x ∈ s) (hy : x ∈ next y) (h : rank x < n) :
    slack w next s n y + w x ≤ slack w next s n x := by
  have hle : chain w next n x ≤ total w next s n := Finset.le_sup hx
  have heq := chain_eq (w := w) hrank h
  have hbelow : chain w next n x ≤ (next y).sup (chain w next n) := Finset.le_sup hy
  unfold slack
  omega

end CriticalPath
