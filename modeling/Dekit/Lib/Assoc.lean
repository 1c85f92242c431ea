import Mathlib.Data.List.Perm.Basic
import Mathlib.Data.List.Nodup

/-! Lists of entries by key, looked up at the first. -/

namespace Assoc

variable {α β : Type} [DecidableEq α] {l l' : List (α × β)} {a x : α} {b : β}

theorem lookup_set (l : List (α × β)) (a : α) (b : β) (x : α) :
    (l.map fun e => if e.1 = a then (a, b) else e).lookup x =
      if x = a then (l.lookup x).map fun _ => b else l.lookup x := by
  induction l with
  | nil => simp
  | cons e l ih =>
    obtain ⟨k, c⟩ := e
    by_cases hk : k = a
    · subst hk
      by_cases hx : x = k
      · subst hx
        simp
      · have hbeq : (x == k) = false := beq_false_of_ne hx
        simp only [List.map_cons, if_true, List.lookup_cons, hbeq, ih, hx, if_false]
    · by_cases hx : x = k
      · subst hx
        simp [hk]
      · have hbeq : (x == k) = false := beq_false_of_ne hx
        simp only [List.map_cons, hk, if_false, List.lookup_cons, hbeq, ih]

theorem keys_set (l : List (α × β)) (a : α) (b : β) :
    (l.map fun e => if e.1 = a then (a, b) else e).map Prod.fst = l.map Prod.fst := by
  rw [List.map_map]
  refine List.map_congr_left fun e _ => ?_
  by_cases h : e.1 = a <;> simp [h]

theorem lookup_erase (l : List (α × β)) (a x : α) :
    (l.filter fun e => e.1 ≠ a).lookup x = if x = a then none else l.lookup x := by
  induction l with
  | nil => simp
  | cons e l ih =>
    obtain ⟨k, c⟩ := e
    by_cases hk : k = a
    · subst hk
      rw [List.filter_cons_of_neg (by simp), ih]
      by_cases hx : x = k
      · simp [hx]
      · have hbeq : (x == k) = false := beq_false_of_ne hx
        simp only [hx, if_false, List.lookup_cons, hbeq]
    · rw [List.filter_cons_of_pos (by simp [hk])]
      by_cases hx : x = k
      · subst hx
        simp [hk]
      · have hbeq : (x == k) = false := beq_false_of_ne hx
        simp only [List.lookup_cons, hbeq, ih]

theorem lookup_insertIdx (h : l.lookup a = none) {i : ℕ} (hi : i ≤ l.length) (b : β) (x : α) :
    (l.insertIdx i (a, b)).lookup x = if x = a then some b else l.lookup x := by
  induction l generalizing i with
  | nil =>
    obtain rfl : i = 0 := Nat.le_zero.mp hi
    by_cases hx : x = a <;> simp [hx]
  | cons e l ih =>
    obtain ⟨k, c⟩ := e
    cases i with
    | zero =>
      by_cases hx : x = a
      · simp [hx]
      · have hbeq : (x == a) = false := beq_false_of_ne hx
        simp only [List.insertIdx_zero, List.lookup_cons, hbeq, hx, if_false]
    | succ i =>
      have hka : a ≠ k := by
        rintro rfl
        simp at h
      have hnone : l.lookup a = none := by
        have hbeq : (a == k) = false := beq_false_of_ne hka
        simpa only [List.lookup_cons, hbeq] using h
      have hrest := ih hnone (Nat.le_of_succ_le_succ hi)
      rw [List.insertIdx_succ_cons]
      by_cases hx : x = k
      · subst hx
        simp [hka.symm]
      · have hbeq : (x == k) = false := beq_false_of_ne hx
        simp only [List.lookup_cons, hbeq, hrest]

theorem mem_of_lookup (h : l.lookup a = some b) : (a, b) ∈ l := by
  obtain ⟨l₁, l₂, rfl, -⟩ := List.lookup_eq_some_iff.mp h
  simp

theorem lookup_of_mem (hn : (l.map Prod.fst).Nodup) (h : (a, b) ∈ l) : l.lookup a = some b := by
  induction l with
  | nil => cases h
  | cons e l ih =>
    obtain ⟨k, c⟩ := e
    rw [List.map_cons, List.nodup_cons] at hn
    rcases List.mem_cons.mp h with he | hm
    · obtain ⟨rfl, rfl⟩ := Prod.mk.inj he
      simp
    · have hne : a ≠ k := by
        rintro rfl
        exact hn.1 (List.mem_map.mpr ⟨(a, b), hm, rfl⟩)
      have hbeq : (a == k) = false := beq_false_of_ne hne
      simp only [List.lookup_cons, hbeq, ih hn.2 hm]

theorem lookup_perm (hn : (l.map Prod.fst).Nodup) (hp : l.Perm l') (x : α) : l'.lookup x = l.lookup x := by
  have hn' : (l'.map Prod.fst).Nodup := (hp.map Prod.fst).nodup_iff.mp hn
  cases h : l.lookup x with
  | none =>
    rw [List.lookup_eq_none_iff] at h ⊢
    exact fun p hp' => h p (hp.mem_iff.mpr hp')
  | some b => exact lookup_of_mem hn' (hp.mem_iff.mp (mem_of_lookup h))

theorem notMem_keys (h : l.lookup a = none) : a ∉ l.map Prod.fst := by
  intro hm
  obtain ⟨e, he, rfl⟩ := List.mem_map.mp hm
  have := List.lookup_eq_none_iff.mp h e he
  simp at this

theorem nodup_insertIdx (hn : (l.map Prod.fst).Nodup) (h : l.lookup a = none) (i : ℕ) (b : β) :
    ((l.insertIdx i (a, b)).map Prod.fst).Nodup := by
  by_cases hi : i ≤ l.length
  · have hp : ((l.insertIdx i (a, b)).map Prod.fst).Perm (a :: l.map Prod.fst) :=
      (List.perm_insertIdx (a, b) l hi).map Prod.fst
    exact hp.nodup_iff.mpr (List.nodup_cons.mpr ⟨notMem_keys h, hn⟩)
  · rw [List.insertIdx_of_length_lt (Nat.lt_of_not_le hi)]
    exact hn

theorem split (hn : (l.map Prod.fst).Nodup) (h : l.lookup a = some b) : ∃ pre post, l = pre ++ (a, b) :: post ∧
    a ∉ pre.map Prod.fst ∧ a ∉ post.map Prod.fst := by
  obtain ⟨pre, post, rfl⟩ := List.append_of_mem (mem_of_lookup h)
  rw [List.map_append, List.map_cons, List.nodup_append, List.nodup_cons] at hn
  obtain ⟨-, ⟨hpost, -⟩, hpre⟩ := hn
  exact ⟨pre, post, rfl, fun ha => hpre a ha a List.mem_cons_self rfl, hpost⟩

theorem erase_of_notMem (h : a ∉ l.map Prod.fst) : (l.filter fun e => e.1 ≠ a) = l :=
  List.filter_eq_self.mpr fun _ he => decide_eq_true fun hk => h (hk ▸ List.mem_map_of_mem he)

theorem set_of_notMem (h : a ∉ l.map Prod.fst) (b : β) : (l.map fun e => if e.1 = a then (a, b) else e) = l := by
  conv_rhs => rw [← List.map_id l]
  refine List.map_congr_left fun e he => if_neg ?_
  rintro rfl
  exact h (List.mem_map_of_mem he)

section around

variable {pre post : List (α × β)}

theorem set_around (hpre : a ∉ pre.map Prod.fst) (hpost : a ∉ post.map Prod.fst) (c : β) :
    ((pre ++ (a, b) :: post).map fun e => if e.1 = a then (a, c) else e) = pre ++ (a, c) :: post := by
  rw [List.map_append, List.map_cons, if_pos rfl, set_of_notMem hpre, set_of_notMem hpost]

theorem erase_around (hpre : a ∉ pre.map Prod.fst) (hpost : a ∉ post.map Prod.fst) :
    ((pre ++ (a, b) :: post).filter fun e => e.1 ≠ a) = pre ++ post := by
  rw [List.filter_append, List.filter_cons_of_neg (by simp), erase_of_notMem hpre, erase_of_notMem hpost]

end around

end Assoc
