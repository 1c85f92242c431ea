import Mathlib.Data.List.Basic

/-! What the parts of a computation that may fail came to, when the whole of it did not. -/

namespace Result

variable {ε α β : Type} {x : Except ε α} {f : α → Except ε β} {g : α → β} {b : β} {l : List α}

theorem bind_ok : (x >>= f) = .ok b ↔ ∃ a, x = .ok a ∧ f a = .ok b := by
  cases x with
  | error err => simp [bind, Except.bind]
  | ok a => simp [bind, Except.bind]

theorem map_ok : x.map g = .ok b ↔ ∃ a, x = .ok a ∧ g a = b := by
  cases x with
  | error err => simp [Except.map]
  | ok a => simp [Except.map]

theorem forM_ok {check : α → Except ε Unit} : l.forM check = .ok () ↔ ∀ a ∈ l, check a = .ok () := by
  induction l with
  | nil => simp [pure, Except.pure]
  | cons a l ih =>
    have hcons : (a :: l).forM check = (check a >>= fun _ => l.forM check) := rfl
    rw [hcons, bind_ok, List.forall_mem_cons]
    constructor
    · rintro ⟨_, ha, hl⟩
      exact ⟨ha, ih.mp hl⟩
    · rintro ⟨ha, hl⟩
      exact ⟨(), ha, ih.mpr hl⟩

theorem foldlM_cons_ok {step : β → α → Except ε β} {a : α} {b' : β} :
    (a :: l).foldlM step b = .ok b' ↔ ∃ c, step b a = .ok c ∧ l.foldlM step c = .ok b' := by
  rw [List.foldlM_cons, bind_ok]

theorem foldlM_nil_ok {step : β → α → Except ε β} {b' : β} : ([] : List α).foldlM step b = .ok b' ↔ b' = b :=
  ⟨fun h => (Except.ok.inj h).symm, fun h => congrArg _ h.symm⟩

end Result
