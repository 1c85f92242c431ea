import Dekit.Lib.Slice

/-! Computations that may fail, and rules to show of one that it does not and what it comes to. -/

namespace Total

variable {α β : Type} {o : Option α} {f : α → Option β} {P P' : α → Prop} {Q : β → Prop} {a : α}

def Gives (o : Option α) (P : α → Prop) : Prop := ∃ a, o = some a ∧ P a

theorem Gives.pure (h : P a) : Gives (some a) P := ⟨a, rfl, h⟩

theorem Gives.mono (h : Gives o P) (hP : ∀ a, P a → P' a) : Gives o P' := by
  obtain ⟨a, ha, hp⟩ := h
  exact ⟨a, ha, hP a hp⟩

theorem Gives.bind (h : Gives o P) (hf : ∀ a, P a → Gives (f a) Q) : Gives (o >>= f) Q := by
  obtain ⟨a, rfl, hp⟩ := h
  exact hf a hp

theorem Gives.of_eq (h : o = some a) : Gives o (· = a) := ⟨a, h, rfl⟩

theorem Gives.isSome (h : Gives o P) : o.isSome = true := by
  obtain ⟨a, rfl, -⟩ := h
  rfl

theorem gives_sub {a b : ℕ} (h : b ≤ a) : Gives (Slice.sub a b) (· = a - b) := .of_eq (Slice.sub_eq h)

theorem gives_add {l a b : ℕ} (h : a + b < l) : Gives (Slice.add l a b) (· = a + b) := .of_eq (Slice.add_eq h)

theorem gives_getElem {l : List α} {i : ℕ} (h : i < l.length) : Gives l[i]? (fun a => l[i]? = some a ∧ a ∈ l) :=
  ⟨l[i], List.getElem?_eq_getElem h, List.getElem?_eq_getElem h, List.getElem_mem h⟩

theorem gives_setAt {l : List α} {i : ℕ} (h : i < l.length) (x : α) : Gives (Slice.setAt l i x) (· = l.set i x) :=
  .of_eq (Slice.setAt_eq h x)

theorem gives_onRange {l : List α} {i j : ℕ} (hij : i ≤ j) (hj : j ≤ l.length) (g : List α → List α) :
    Gives (Slice.onRange l i j g) (· = l.take i ++ g ((l.drop i).take (j - i)) ++ l.drop j) :=
  .of_eq (Slice.onRange_eq hij hj g)

theorem gives_times {g : α → Option α} (h : ∀ a, P a → Gives (g a) P) (ha : P a) (n : ℕ) :
    Gives (Slice.times g n a) P :=
  Slice.times_keeps h ha n

theorem gives_foldlM {g : α → β → Option α} {l : List β} (h : ∀ a, P a → ∀ b ∈ l, Gives (g a b) P) (ha : P a) :
    Gives (l.foldlM g a) P := Slice.foldlM_keeps h ha

def Only (o : Option α) (P : α → Prop) : Prop := ∀ a, o = some a → P a

theorem Gives.only (h : Gives o P) : Only o P := by
  obtain ⟨a, rfl, hp⟩ := h
  intro b hb
  exact Option.some.inj hb ▸ hp

theorem Gives.and (h : Gives o P) (h' : Only o P') : Gives o fun a => P a ∧ P' a := by
  obtain ⟨a, ha, hp⟩ := h
  exact ⟨a, ha, hp, h' a ha⟩

theorem Gives.after (hf : ∀ a, Gives (f a) Q) : Gives (o >>= f) Q ∨ o = none := by
  cases o with
  | none => exact .inr rfl
  | some a => exact .inl (hf a)

theorem Only.pure (h : P a) : Only (some a) P := fun _ ha => by
  cases ha
  exact h

theorem Only.bind (h : Only o P) (hf : ∀ a, P a → Only (f a) Q) : Only (o >>= f) Q := fun b hb => by
  obtain ⟨a, ha, hb⟩ := Option.bind_eq_some_iff.mp hb
  exact hf a (h a ha) b hb

theorem Only.after (hf : ∀ a, Only (f a) Q) : Only (o >>= f) Q := fun b hb => by
  obtain ⟨a, -, hb⟩ := Option.bind_eq_some_iff.mp hb
  exact hf a b hb

theorem only_onRange {l : List α} {g : List α → List α} (hl : ∀ a ∈ l, P a)
    (hg : ∀ l' : List α, (∀ a ∈ l', P a) → ∀ a ∈ g l', P a) (i j : ℕ) :
    Only (Slice.onRange l i j g) fun l' => ∀ a ∈ l', P a := by
  intro l' hl' a ha
  unfold Slice.onRange at hl'
  split at hl'
  · obtain rfl := Option.some.inj hl'
    rcases List.mem_append.mp ha with ha | ha
    · rcases List.mem_append.mp ha with ha | ha
      · exact hl a (List.mem_of_mem_take ha)
      · exact hg _ (fun a ha => hl a (List.mem_of_mem_drop (List.mem_of_mem_take ha))) a ha
    · exact hl a (List.mem_of_mem_drop ha)
  · cases hl'

theorem only_foldlM {g : α → β → Option α} {l : List β} (h : ∀ a, P a → ∀ b ∈ l, Only (g a b) P) (ha : P a) :
    Only (l.foldlM g a) P := by
  induction l generalizing a with
  | nil => exact .pure ha
  | cons b l ih =>
    rw [List.foldlM_cons]
    exact (h a ha b List.mem_cons_self).bind fun a' ha' =>
      ih (fun a ha b hb => h a ha b (List.mem_cons_of_mem _ hb)) ha'

theorem only_times {g : α → Option α} (h : ∀ a, P a → Only (g a) P) (ha : P a) (n : ℕ) :
    Only (Slice.times g n a) P := by
  induction n generalizing a with
  | zero => exact .pure ha
  | succ n ih => exact (h a ha).bind fun a' ha' => ih ha'

end Total
