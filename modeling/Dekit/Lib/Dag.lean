import Mathlib.Data.Finset.Card
import Mathlib.Data.Finset.Filter
import Mathlib.Logic.Relation
import Mathlib.Order.WellFounded

namespace Dag

open Relation
open scoped Classical

variable {α : Type} {r q : α → α → Prop} {a b x y : α}

def Acyclic (r : α → α → Prop) : Prop := ∀ a, ¬ TransGen r a a

theorem Acyclic.mono (h : Acyclic r) (hq : ∀ x y, q x y → r x y) : Acyclic q :=
  fun a ha => h a (ha.lift id hq)

theorem Acyclic.swap (h : Acyclic r) : Acyclic (fun x y => r y x) :=
  fun a ha => h a (transGen_swap.mp ha)

theorem Acyclic.not_self (h : Acyclic r) : ¬ r a a := fun ha => h a (.single ha)

def insertPair (r : α → α → Prop) (a b : α) (x y : α) : Prop := r x y ∨ x = a ∧ y = b

theorem transGen_insertPair (h : TransGen (insertPair r a b) x y) :
    TransGen r x y ∨ ReflTransGen r x a ∧ ReflTransGen r b y := by
  induction h with
  | single h =>
    rcases h with h | ⟨rfl, rfl⟩
    · exact .inl (.single h)
    · exact .inr ⟨.refl, .refl⟩
  | @tail y z _ h ih =>
    rcases h with h | ⟨rfl, rfl⟩
    · rcases ih with ih | ⟨ha, hb⟩
      · exact .inl (ih.tail h)
      · exact .inr ⟨ha, hb.tail h⟩
    · rcases ih with ih | ⟨ha, _⟩
      · exact .inr ⟨ih.to_reflTransGen, .refl⟩
      · exact .inr ⟨ha, .refl⟩

theorem Acyclic.insertPair (h : Acyclic r) (hab : ¬ ReflTransGen r b a) :
    Acyclic (insertPair r a b) := by
  intro x hx
  rcases transGen_insertPair hx with hx | ⟨ha, hb⟩
  · exact h x hx
  · exact hab (hb.trans ha)

theorem reach_of_apart {S : α → Prop} (hq : ∀ x y, q x y → r x y ∨ S x)
    (hap : ∀ x, S x → ¬ ReflTransGen r a x) (h : ReflTransGen q a b) : ReflTransGen r a b := by
  induction h with
  | refl => exact .refl
  | tail _ hxy ih =>
    rcases hq _ _ hxy with hxy | hx
    · exact ih.tail hxy
    · exact absurd ih (hap _ hx)

noncomputable def rank (r : α → α → Prop) (s : Finset α) (x : α) : ℕ :=
  (s.filter (fun y => TransGen r y x)).card

theorem rank_le (s : Finset α) : rank r s x ≤ s.card := Finset.card_filter_le _ _

theorem rank_lt {s : Finset α} (hs : ∀ x y, r x y → x ∈ s) (h : Acyclic r) (hab : r a b) :
    rank r s a < rank r s b := by
  apply Finset.card_lt_card
  refine Finset.ssubset_iff_subset_ne.mpr ⟨fun y hy => ?_, fun he => ?_⟩
  · simp only [Finset.mem_filter] at hy ⊢
    exact ⟨hy.1, hy.2.tail hab⟩
  · have ha : a ∈ s.filter (fun y => TransGen r y b) :=
      Finset.mem_filter.mpr ⟨hs a b hab, .single hab⟩
    rw [← he] at ha
    exact h a (Finset.mem_filter.mp ha).2

theorem wellFounded {s : Finset α} (hs : ∀ x y, r x y → x ∈ s) (h : Acyclic r) : WellFounded r :=
  Subrelation.wf (fun hab => rank_lt hs h hab) (InvImage.wf (rank r s) Nat.lt_wfRel.wf)

theorem wellFounded_swap {s : Finset α} (hs : ∀ x y, r x y → y ∈ s) (h : Acyclic r) :
    WellFounded (fun x y => r y x) :=
  wellFounded (fun x y hxy => hs y x hxy) h.swap

theorem fueled {β : Type} {s : Finset α} (hs : ∀ x y, r x y → x ∈ s) (h : Acyclic r) (F : (α → β) → α → β)
    (hF : ∀ f g x, (∀ y, r y x → f y = g y) → F f x = F g x) {run : ℕ → α → β}
    (hrun : ∀ n x, run (n + 1) x = F (run n) x) (n : ℕ) (x : α) (hn : rank r s x < n) : run (n + 1) x = run n x := by
  induction n generalizing x with
  | zero => omega
  | succ n ih =>
    rw [hrun (n + 1), hrun n]
    refine hF _ _ x fun y hy => ih y ?_
    have hlt := rank_lt hs h hy
    omega

end Dag
