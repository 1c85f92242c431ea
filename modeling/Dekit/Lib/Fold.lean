import Mathlib.Data.List.Basic

namespace Fold

variable {α β γ : Type} {f : α → β → α} {l : List β} {a : α}

theorem foldl_keeps {p : α → γ} (h : ∀ a x, p (f a x) = p a) (l : List β) (a : α) :
    p (l.foldl f a) = p a := by
  induction l generalizing a with
  | nil => rfl
  | cons x l ih => exact (ih _).trans (h a x)

theorem foldl_invariant {P : α → Prop} (h : ∀ a, P a → ∀ x ∈ l, P (f a x)) (ha : P a) :
    P (l.foldl f a) := by
  induction l generalizing a with
  | nil => exact ha
  | cons x l ih =>
    exact ih (fun a ha y hy => h a ha y (List.mem_cons_of_mem _ hy)) (h a ha x List.mem_cons_self)

theorem foldl_reaches {I P : α → Prop} (hinv : ∀ a, I a → ∀ x ∈ l, I (f a x)) {b : β} (hb : b ∈ l)
    (hdo : ∀ a, I a → P (f a b)) (hkeep : ∀ a, I a → P a → ∀ x ∈ l, P (f a x)) (ha : I a) : P (l.foldl f a) := by
  induction l generalizing a with
  | nil => cases hb
  | cons x l ih =>
    have hinv' (a : α) (h : I a) (y : β) (hy : y ∈ l) : I (f a y) := hinv a h y (List.mem_cons_of_mem _ hy)
    have hkeep' (a : α) (h : I a) (hp : P a) (y : β) (hy : y ∈ l) : P (f a y) :=
      hkeep a h hp y (List.mem_cons_of_mem _ hy)
    have hx := hinv a ha x List.mem_cons_self
    rcases List.mem_cons.mp hb with rfl | hb
    · have hall : I (l.foldl f (f a b)) ∧ P (l.foldl f (f a b)) :=
        foldl_invariant (P := fun a => I a ∧ P a) (fun a h y hy => ⟨hinv' a h.1 y hy, hkeep' a h.1 h.2 y hy⟩)
          ⟨hx, hdo a ha⟩
      exact hall.2
    · exact ih hinv' hb hkeep' hx

theorem foldl_rel {r : α → α → Prop} (hrefl : ∀ a, r a a) (htrans : ∀ a b c, r a b → r b c → r a c)
    (h : ∀ a, ∀ x ∈ l, r a (f a x)) (a : α) : r a (l.foldl f a) :=
  foldl_invariant (P := r a) (fun b hb x hx => htrans a b _ hb (h b x hx)) (hrefl a)

section except

variable {ε : Type} {m : α → Except ε β} {as : List α} {bs : List β}

theorem mapM_cons_ok {a : α} (h : (a :: as).mapM m = .ok bs) :
    ∃ b bs', m a = .ok b ∧ as.mapM m = .ok bs' ∧ bs = b :: bs' := by
  rw [List.mapM_cons] at h
  cases ha : m a with
  | error err => rw [ha] at h; cases h
  | ok b =>
    cases has : as.mapM m with
    | error err => rw [ha, has] at h; cases h
    | ok bs' =>
      rw [ha, has] at h
      exact ⟨b, bs', rfl, rfl, (Except.ok.inj h).symm⟩

theorem mapM_mem (h : as.mapM m = .ok bs) : ∀ b ∈ bs, ∃ a ∈ as, m a = .ok b := by
  induction as generalizing bs with
  | nil =>
    obtain rfl : [] = bs := Except.ok.inj h
    simp
  | cons a as ih =>
    obtain ⟨b, bs', ha, has, rfl⟩ := mapM_cons_ok h
    intro c hc
    rcases List.mem_cons.mp hc with rfl | hc
    · exact ⟨a, List.mem_cons_self, ha⟩
    · obtain ⟨a', ha', hm⟩ := ih has c hc
      exact ⟨a', List.mem_cons_of_mem _ ha', hm⟩

theorem mapM_map {γ : Type} {p : β → γ} {q : α → γ} (hm : ∀ a b, m a = .ok b → p b = q a) (h : as.mapM m = .ok bs) :
    bs.map p = as.map q := by
  induction as generalizing bs with
  | nil =>
    obtain rfl : [] = bs := Except.ok.inj h
    rfl
  | cons a as ih =>
    obtain ⟨b, bs', ha, has, rfl⟩ := mapM_cons_ok h
    rw [List.map_cons, List.map_cons, ih has, hm a b ha]

end except

end Fold
