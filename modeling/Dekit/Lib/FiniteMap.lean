import Mathlib.Data.Finmap
import Mathlib.Data.List.Sort
import Mathlib.Data.String.Basic

namespace Finmap

variable {κ α : Type} [DecidableEq κ]

def modify (m : Finmap (fun _ : κ => α)) (k : κ) (f : α → α) : Finmap (fun _ : κ => α) :=
  match m.lookup k with
  | some a => m.insert k (f a)
  | none => m

theorem lookup_modify (m : Finmap (fun _ : κ => α)) (k x : κ) (f : α → α) :
    (m.modify k f).lookup x = if x = k then (m.lookup x).map f else m.lookup x := by
  unfold modify
  by_cases hx : x = k
  · subst hx
    cases h : m.lookup x <;> simp [h]
  · cases h : m.lookup k
    · simp [hx]
    · simp [hx, lookup_insert_of_ne _ hx]

theorem lookup_insert_ite (m : Finmap (fun _ : κ => α)) (k x : κ) (a : α) :
    (m.insert k a).lookup x = if x = k then some a else m.lookup x := by
  by_cases hx : x = k
  · subst hx; simp
  · simp [hx, lookup_insert_of_ne _ hx]

theorem lookup_erase_ite (m : Finmap (fun _ : κ => α)) (k x : κ) :
    (m.erase k).lookup x = if x = k then none else m.lookup x := by
  by_cases hx : x = k
  · subst hx; simp
  · simp [hx, lookup_erase_ne hx]

theorem mem_keys_iff (m : Finmap (fun _ : κ => α)) (x : κ) :
    x ∈ m.keys ↔ (m.lookup x).isSome = true := by
  rw [mem_keys, lookup_isSome]

@[simp]
theorem keys_modify (m : Finmap (fun _ : κ => α)) (k : κ) (f : α → α) :
    (m.modify k f).keys = m.keys := by
  ext x
  rw [mem_keys_iff, mem_keys_iff, lookup_modify]
  split <;> simp

@[simp]
theorem keys_insert (m : Finmap (fun _ : κ => α)) (k : κ) (a : α) :
    (m.insert k a).keys = Insert.insert k m.keys := by
  ext x
  simp [mem_keys]

theorem insert_eq_modify (m : Finmap (fun _ : κ => α)) {k : κ} {a b : α} {f : α → α}
    (h : m.lookup k = some a) (hb : f a = b) : m.insert k b = m.modify k f := by
  unfold modify
  simp [h, hb]

end Finmap

/-- How a hashed set or map is walked: at the `tick`th walk the elements of `owner`'s set come in
some order, each once. -/
structure Hasher where
  order : ℕ → ℕ → Finset ℕ → List ℕ
  nodup : ∀ tick owner s, (order tick owner s).Nodup
  toFinset : ∀ tick owner s, (order tick owner s).toFinset = s
  names : ℕ → Finset String → List String
  names_nodup : ∀ tick s, (names tick s).Nodup
  names_toFinset : ∀ tick s, (names tick s).toFinset = s

namespace Hasher

@[simp]
theorem mem_order (h : Hasher) {tick owner x : ℕ} {s : Finset ℕ} :
    x ∈ h.order tick owner s ↔ x ∈ s := by
  rw [← List.mem_toFinset, h.toFinset]

theorem length_order (h : Hasher) (tick owner : ℕ) (s : Finset ℕ) :
    (h.order tick owner s).length = s.card := by
  rw [← List.toFinset_card_of_nodup (h.nodup tick owner s), h.toFinset]

def ascending {α : Type} [LinearOrder α] (s : Finset α) : List α :=
  Quot.liftOn s.1 (fun l => l.insertionSort (· ≤ ·)) (by
    intro a b h
    refine List.Perm.eq_of_pairwise (fun (x y : α) _ _ (hxy : x ≤ y) hyx => le_antisymm hxy hyx)
      (List.pairwise_insertionSort _ _) (List.pairwise_insertionSort _ _) ?_
    exact ((List.perm_insertionSort _ _).trans h).trans (List.perm_insertionSort _ _).symm)

theorem ascending_perm {α : Type} [LinearOrder α] (s : Finset α) :
    ((ascending s : List α) : Multiset α) = s.1 := by
  obtain ⟨m, hm⟩ := s
  induction m using Quot.inductionOn with
  | h l => exact Multiset.coe_eq_coe.mpr (List.perm_insertionSort _ l)

theorem ascending_nodup {α : Type} [LinearOrder α] (s : Finset α) : (ascending s).Nodup := by
  rw [← Multiset.coe_nodup, ascending_perm]
  exact s.nodup

theorem ascending_toFinset {α : Type} [LinearOrder α] (s : Finset α) :
    (ascending s).toFinset = s := by
  ext x
  rw [List.mem_toFinset, ← Multiset.mem_coe, ascending_perm, Finset.mem_val]

def sorted : Hasher where
  order _ _ s := ascending s
  nodup _ _ s := ascending_nodup s
  toFinset _ _ s := ascending_toFinset s
  names _ s := ascending s
  names_nodup _ s := ascending_nodup s
  names_toFinset _ s := ascending_toFinset s

end Hasher
