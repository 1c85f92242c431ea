import Mathlib.Data.List.Nodup
import Mathlib.Tactic.Common

/-! Folds whose every step changes what is at one key, and that at all of them. -/

namespace Pointwise

variable {σ κ β : Type} [DecidableEq κ] {ks : List κ}

theorem foldl_view (view : σ → κ → β) (f : κ → β → β) (step : σ → κ → σ)
    (hstep : ∀ s k x, view (step s k) x = if x = k then f k (view s x) else view s x) (hks : ks.Nodup) (s : σ) (x : κ) :
    view (ks.foldl step s) x = if x ∈ ks then f x (view s x) else view s x := by
  induction ks generalizing s with
  | nil => simp
  | cons k ks ih =>
    obtain ⟨hk, hks⟩ := List.nodup_cons.mp hks
    rw [List.foldl_cons, ih hks, hstep]
    by_cases hx : x = k
    · subst hx
      rw [if_neg hk, if_pos rfl, if_pos List.mem_cons_self]
    · rw [if_neg hx]
      simp only [List.mem_cons, hx, false_or]

theorem foldlM_view (view : σ → κ → β) (f : κ → β → β) (guard : κ → β → Prop) (step : σ → κ → Option σ)
    (hstep : ∀ s k, guard k (view s k) →
      ∃ s', step s k = some s' ∧ ∀ x, view s' x = if x = k then f k (view s x) else view s x)
    (hks : ks.Nodup) (s : σ) (hguard : ∀ k ∈ ks, guard k (view s k)) :
    ∃ s', ks.foldlM step s = some s' ∧ ∀ x, view s' x = if x ∈ ks then f x (view s x) else view s x := by
  induction ks generalizing s with
  | nil => exact ⟨s, rfl, fun x => by simp⟩
  | cons k ks ih =>
    obtain ⟨hk, hks⟩ := List.nodup_cons.mp hks
    obtain ⟨hhere, hrest⟩ := List.forall_mem_cons.mp hguard
    obtain ⟨s₁, hs₁, hview₁⟩ := hstep s k hhere
    have hother (x : κ) (hx : x ∈ ks) : view s₁ x = view s x := by
      rw [hview₁, if_neg]
      rintro rfl
      exact hk hx
    obtain ⟨s', hs', hview⟩ := ih hks s₁ fun x hx => by rw [hother x hx]; exact hrest x hx
    refine ⟨s', ?_, fun x => ?_⟩
    · rw [List.foldlM_cons, hs₁]
      exact hs'
    · rw [hview, hview₁]
      by_cases hx : x = k
      · subst hx
        rw [if_neg hk, if_pos rfl, if_pos List.mem_cons_self]
      · rw [if_neg hx]
        simp only [List.mem_cons, hx, false_or]

end Pointwise
