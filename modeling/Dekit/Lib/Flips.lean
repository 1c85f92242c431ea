import Mathlib.Order.WellFounded

/-! A condition that an element meets when it is wanted and all it depends on meet theirs and are well:
where nothing that ends becomes well again, each element meets its condition at most once. -/

namespace Flips

/-- Whether an element has met its condition, and still does. -/
inductive Phase where
  | before
  | during
  | after
deriving DecidableEq

variable {α : Type} {dep : α → α → Prop} {wants ok ended ok' ended' : α → Prop} {p : α → Phase} {met : α → Bool}

/-- What met its condition had all it depends on, and what does no longer has lost one of them for good. -/
structure Once (dep : α → α → Prop) (wants ok ended : α → Prop) (p : α → Phase) : Prop where
  wanted : ∀ x, p x ≠ .before → wants x
  held : ∀ x d, p x ≠ .before → dep x d → p d = .after ∨ p d = .during ∧ (ok d ∨ ended d)
  lost : ∀ x, p x = .after → ∃ d, dep x d ∧ (p d = .after ∨ p d = .during ∧ ended d ∧ ¬ ok d)

/-- The phases once it is known who meets the condition. -/
def advance (met : α → Bool) (p : α → Phase) (x : α) : Phase :=
  if met x then .during
  else match p x with
    | .before => .before
    | .during | .after => .after

theorem advance_during {x : α} : advance met p x = .during ↔ met x = true := by
  unfold advance
  cases met x with
  | true => simp
  | false => cases p x <;> simp

theorem advance_before {x : α} : advance met p x = .before ↔ met x = false ∧ p x = .before := by
  unfold advance
  cases met x with
  | true => simp
  | false => cases p x <;> simp

theorem advance_after {x : α} : advance met p x = .after ↔ met x = false ∧ p x ≠ .before := by
  unfold advance
  cases met x with
  | true => simp
  | false => cases p x <;> simp

namespace Once

theorem start : Once dep wants ok ended fun _ => .before where
  wanted _ h := absurd rfl h
  held _ _ h := absurd rfl h
  lost _ h := by cases h

theorem change (h : Once dep wants ok ended p) (hheld : ∀ d, p d = .during → ok d ∨ ended d → ok' d ∨ ended' d)
    (hlost : ∀ d, p d = .during → ended d → ¬ ok d → ended' d ∧ ¬ ok' d) : Once dep wants ok' ended' p where
  wanted := h.wanted
  held x d hx hd := (h.held x d hx hd).imp_right fun ⟨hp, ho⟩ => ⟨hp, hheld d hp ho⟩
  lost x hx := by
    obtain ⟨d, hd, ho⟩ := h.lost x hx
    exact ⟨d, hd, ho.imp_right fun ⟨hp, hov, hok⟩ => ⟨hp, hlost d hp hov hok⟩⟩

theorem unmet (hwf : WellFounded fun a b => dep b a) (h : Once dep wants ok ended p)
    (hmet : ∀ x d, met x = true → dep x d → met d = true ∧ ok d) (x : α) (hx : p x = .after) : met x = false := by
  induction x using hwf.induction with
  | _ x ih =>
    by_contra hm
    rw [Bool.not_eq_false] at hm
    obtain ⟨d, hd, ho⟩ := h.lost x hx
    obtain ⟨hmd, hok⟩ := hmet x d hm hd
    rcases ho with ha | ⟨-, -, hnot⟩
    · rw [ih d hd ha] at hmd
      cases hmd
    · exact hnot hok

theorem advance (hwf : WellFounded fun a b => dep b a) (h : Once dep wants ok ended p)
    (hmet : ∀ x, met x = true ↔ wants x ∧ ∀ d, dep x d → met d = true ∧ ok d) :
    Once dep wants ok ended (advance met p) where
  wanted x hx := by
    by_cases hm : met x = true
    · exact ((hmet x).mp hm).1
    · refine h.wanted x fun hp => hx (advance_before.mpr ⟨by simpa using hm, hp⟩)
  held x d hx hd := by
    have hunmet := h.unmet hwf fun x d hm => ((hmet x).mp hm).2 d
    by_cases hm : met x = true
    · obtain ⟨hmd, hok⟩ := ((hmet x).mp hm).2 d hd
      exact .inr ⟨advance_during.mpr hmd, .inl hok⟩
    · have hp : p x ≠ .before := fun hp => hx (advance_before.mpr ⟨by simpa using hm, hp⟩)
      rcases h.held x d hp hd with ha | ⟨hdur, ho⟩
      · exact .inl (advance_after.mpr ⟨hunmet d ha, by simp [ha]⟩)
      · by_cases hmd : met d = true
        · exact .inr ⟨advance_during.mpr hmd, ho⟩
        · exact .inl (advance_after.mpr ⟨by simpa using hmd, by simp [hdur]⟩)
  lost x hx := by
    obtain ⟨hm, hp⟩ := advance_after.mp hx
    have hunmet := h.unmet hwf fun x d hm => ((hmet x).mp hm).2 d
    -- It is wanted, so it does not meet its condition for want of another.
    have hsome : ∃ d, dep x d ∧ ¬ (met d = true ∧ ok d) := by
      by_contra hall
      have hall : ∀ d, dep x d → met d = true ∧ ok d := fun d hd => by_contra fun hn => hall ⟨d, hd, hn⟩
      rw [(hmet x).mpr ⟨h.wanted x hp, hall⟩] at hm
      cases hm
    obtain ⟨d, hd, hnot⟩ := hsome
    refine ⟨d, hd, ?_⟩
    rcases h.held x d hp hd with ha | ⟨hdur, ho⟩
    · exact .inl (advance_after.mpr ⟨hunmet d ha, by simp [ha]⟩)
    · by_cases hmd : met d = true
      · have hok : ¬ ok d := fun hok => hnot ⟨hmd, hok⟩
        exact .inr ⟨advance_during.mpr hmd, ho.resolve_left hok, hok⟩
      · exact .inl (advance_after.mpr ⟨by simpa using hmd, by simp [hdur]⟩)

end Once

end Flips
