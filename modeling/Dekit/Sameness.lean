import Mathlib.Data.List.Forall2
import Dekit.Lib.Assoc
import Dekit.TaskSpec

/-! Equality of values is an equivalence where no mapping has a key twice. -/

namespace Dekit

mutual

/-- Every mapping in it has each key once. -/
def Value.Keyed : Value → Prop
  | .sequence items => keyedItems items
  | .mapping entries => (entries.map Prod.fst).Nodup ∧ keyedEntries entries
  | .null | .bool _ | .number _ | .string _ => True

def keyedItems : List Value → Prop
  | [] => True
  | v :: vs => v.Keyed ∧ keyedItems vs

def keyedEntries : List (String × Value) → Prop
  | [] => True
  | (_, v) :: es => v.Keyed ∧ keyedEntries es

end

theorem keyedItems_iff (vs : List Value) : keyedItems vs ↔ ∀ v ∈ vs, v.Keyed := by
  induction vs with
  | nil => simp [keyedItems]
  | cons v vs ih => simp [keyedItems, ih]

theorem keyedEntries_iff (es : List (String × Value)) : keyedEntries es ↔ ∀ e ∈ es, e.2.Keyed := by
  induction es with
  | nil => simp [keyedEntries]
  | cons e es ih =>
    obtain ⟨k, v⟩ := e
    simp only [keyedEntries, ih, List.forall_mem_cons]

theorem sameItems_iff (as bs : List Value) :
    sameItems as bs ↔ List.Forall₂ (fun a b => a.same b = true) as bs := by
  induction as generalizing bs with
  | nil => cases bs <;> simp [sameItems]
  | cons a as ih => cases bs <;> simp [sameItems, ih]

theorem sameEntries_iff (as bs : List (String × Value)) :
    sameEntries as bs ↔ ∀ e ∈ as, ∃ b, bs.lookup e.1 = some b ∧ e.2.same b := by
  induction as with
  | nil => simp [sameEntries]
  | cons e as ih =>
    obtain ⟨k, a⟩ := e
    simp only [sameEntries, Bool.and_eq_true, ih, List.forall_mem_cons]
    refine and_congr_left fun _ => ?_
    cases bs.lookup k <;> simp

namespace Value

mutual

/-- Induction over a value and the values in it. -/
theorem nested {P : Value → Prop} (hleaf : ∀ v, (∀ items, v ≠ .sequence items) → (∀ es, v ≠ .mapping es) → P v)
    (hseq : ∀ items, (∀ v ∈ items, P v) → P (.sequence items))
    (hmap : ∀ es : List (String × Value), (∀ e ∈ es, P e.2) → P (.mapping es)) : ∀ v, P v
  | .sequence items => hseq items (nestedItems hleaf hseq hmap items)
  | .mapping es => hmap es (nestedEntries hleaf hseq hmap es)
  | .null => hleaf _ (by simp) (by simp)
  | .bool _ => hleaf _ (by simp) (by simp)
  | .number _ => hleaf _ (by simp) (by simp)
  | .string _ => hleaf _ (by simp) (by simp)

theorem nestedItems {P : Value → Prop} (hleaf : ∀ v, (∀ items, v ≠ .sequence items) → (∀ es, v ≠ .mapping es) → P v)
    (hseq : ∀ items, (∀ v ∈ items, P v) → P (.sequence items))
    (hmap : ∀ es : List (String × Value), (∀ e ∈ es, P e.2) → P (.mapping es)) :
    ∀ items : List Value, ∀ v ∈ items, P v
  | [] => by simp
  | v :: vs => List.forall_mem_cons.mpr ⟨nested hleaf hseq hmap v, nestedItems hleaf hseq hmap vs⟩

theorem nestedEntries {P : Value → Prop} (hleaf : ∀ v, (∀ items, v ≠ .sequence items) → (∀ es, v ≠ .mapping es) → P v)
    (hseq : ∀ items, (∀ v ∈ items, P v) → P (.sequence items))
    (hmap : ∀ es : List (String × Value), (∀ e ∈ es, P e.2) → P (.mapping es)) :
    ∀ es : List (String × Value), ∀ e ∈ es, P e.2
  | [] => by simp
  | (k, v) :: es =>
    List.forall_mem_cons.mpr ⟨nested hleaf hseq hmap v, nestedEntries hleaf hseq hmap es⟩

end

theorem same_refl (v : Value) (h : v.Keyed) : v.same v := by
  induction v using nested with
  | hleaf v hs hm => cases v <;> simp_all [same]
  | hseq items ih =>
    have hk := (keyedItems_iff items).mp h
    rw [same, sameItems_iff, List.forall₂_same]
    exact fun v hv => ih v hv (hk v hv)
  | hmap es ih =>
    obtain ⟨hn, hk⟩ := h
    have hk' := (keyedEntries_iff es).mp hk
    simp only [same, beq_self_eq_true, Bool.true_and, sameEntries_iff]
    exact fun e he => ⟨e.2, Assoc.lookup_of_mem hn he, ih e he (hk' e he)⟩

theorem mem_keys_of_length {as bs : List (String × Value)} (ha : (as.map Prod.fst).Nodup)
    (hlen : as.length = bs.length) (hsub : ∀ e ∈ as, e.1 ∈ bs.map Prod.fst) {k : String}
    (hk : k ∈ bs.map Prod.fst) : k ∈ as.map Prod.fst := by
  have hsubset : as.map Prod.fst ⊆ bs.map Prod.fst := by
    intro k hk
    obtain ⟨e, he, rfl⟩ := List.mem_map.mp hk
    exact hsub e he
  have hperm := (List.subperm_of_subset ha hsubset).perm_of_length_le (by simp [hlen])
  exact hperm.mem_iff.mpr hk

theorem same_symm (v w : Value) (hv : v.Keyed) (hw : w.Keyed) (h : v.same w) : w.same v := by
  induction v using nested generalizing w with
  | hleaf v hs hm => cases v <;> cases w <;> simp_all [same]
  | hseq items ih =>
    cases w <;> simp only [same, Bool.false_eq_true] at h ⊢
    rename_i others
    have hki := (keyedItems_iff items).mp hv
    have hko := (keyedItems_iff others).mp hw
    rw [sameItems_iff] at h ⊢
    refine (List.forall₂_iff_get.mpr ?_)
    obtain ⟨hlen, hget⟩ := List.forall₂_iff_get.mp h
    exact ⟨hlen.symm, fun i hi hj => ih _ (List.get_mem ..) _ (hki _ (List.get_mem ..))
      (hko _ (List.get_mem ..)) (hget i hj hi)⟩
  | hmap es ih =>
    cases w <;> simp only [same, Bool.false_eq_true] at h ⊢
    rename_i others
    obtain ⟨hn, hk⟩ := hv
    obtain ⟨hn', hk'⟩ := hw
    have hke := (keyedEntries_iff es).mp hk
    have hko := (keyedEntries_iff others).mp hk'
    simp only [Bool.and_eq_true, beq_iff_eq, sameEntries_iff] at h ⊢
    obtain ⟨hlen, hall⟩ := h
    refine ⟨hlen.symm, fun e he => ?_⟩
    have hkey : e.1 ∈ es.map Prod.fst := by
      refine mem_keys_of_length hn hlen (fun e he => ?_) (List.mem_map_of_mem he)
      obtain ⟨b, hb, -⟩ := hall e he
      exact List.mem_map.mpr ⟨_, Assoc.mem_of_lookup hb, rfl⟩
    obtain ⟨⟨k, a⟩, ha, hka⟩ := List.mem_map.mp hkey
    obtain ⟨b, hb, hab⟩ := hall _ ha
    simp only at hka hb hab
    subst hka
    have hbe : b = e.2 := by
      have := Assoc.lookup_of_mem hn' he
      rw [hb] at this
      exact Option.some.inj this
    subst hbe
    exact ⟨a, Assoc.lookup_of_mem hn ha, ih _ ha _ (hke _ ha) (hko e he) hab⟩

theorem same_trans (v w u : Value) (h : v.same w) (h' : w.same u) : v.same u := by
  induction v using nested generalizing w u with
  | hleaf v hs hm => cases v <;> cases w <;> cases u <;> simp_all [same]
  | hseq items ih =>
    cases w <;> simp only [same, Bool.false_eq_true] at h
    cases u <;> simp only [same, Bool.false_eq_true] at h' ⊢
    rw [sameItems_iff] at h h' ⊢
    obtain ⟨hlen, hget⟩ := List.forall₂_iff_get.mp h
    obtain ⟨hlen', hget'⟩ := List.forall₂_iff_get.mp h'
    refine List.forall₂_iff_get.mpr ⟨hlen.trans hlen', fun i hi hj => ?_⟩
    have hm : i < _ := hlen ▸ hi
    exact ih _ (List.get_mem ..) _ _ (hget i hi hm) (hget' i hm hj)
  | hmap es ih =>
    cases w <;> simp only [same, Bool.false_eq_true] at h
    cases u <;> simp only [same, Bool.false_eq_true] at h' ⊢
    simp only [Bool.and_eq_true, beq_iff_eq, sameEntries_iff] at h h' ⊢
    refine ⟨h.1.trans h'.1, fun e he => ?_⟩
    obtain ⟨b, hb, hab⟩ := h.2 e he
    obtain ⟨c, hc, hbc⟩ := h'.2 _ (Assoc.mem_of_lookup hb)
    exact ⟨c, hc, ih e he _ _ hab hbc⟩

end Value

end Dekit
