import Dekit.Lib.Load
import Dekit.FixedPoint
import Mathlib.Tactic.Linarith
import Mathlib.Tactic.Ring

namespace Dekit.View

variable {v w : View} {id x d : TaskId} {n m : Node}

/-- A cached `wanted` that no longer follows from the counters. -/
def staleWanted (v : View) (x : TaskId) : Bool := (v.node x).any (fun n => n.wanted != v.computeWanted n)

def staleSupported (v : View) (x : TaskId) : Bool :=
  (v.node x).any (fun n => n.supported != v.computeSupported x n)

noncomputable def below (v : View) (x : TaskId) : ℕ := Dag.rank (fun a b => v.Dep b a) v.ids x

noncomputable def above (v : View) (x : TaskId) : ℕ := Dag.rank v.Dep (insert initTaskId v.ids) x

/-- More than a single change can make stale. -/
def spread (v : View) : ℕ := 2 * v.ids.card + 2

noncomputable def wantedWeight (v : View) (x : TaskId) : ℕ := v.spread ^ (v.ids.card + 3 + v.below x)

noncomputable def supportedWeight (v : View) (x : TaskId) : ℕ := v.spread ^ (v.above x + 1)

/-- A change of `wanted` reaches what the task needs and its own `supported`; a change of
`supported` reaches what needs the task. -/
noncomputable def potential (v : View) : ℕ :=
  v.dirty.card + load v.ids v.wantedWeight v.staleWanted + load v.ids v.supportedWeight v.staleSupported

theorem below_lt (hs : Shape v) (hd : v.Dep x d) : v.below d < v.below x :=
  Dag.rank_lt (r := fun a b => v.Dep b a) (fun a b h => hs.target b a h) hs.acyclic.swap hd

theorem above_lt (hs : Shape v) (hd : v.Dep x d) : v.above x < v.above d :=
  Dag.rank_lt (fun a b h => Finset.mem_insert.mpr (hs.source a b h)) hs.acyclic hd

theorem below_le : v.below x ≤ v.ids.card := Dag.rank_le _

theorem above_le : v.above x ≤ v.ids.card + 1 := (Dag.rank_le _).trans (Finset.card_insert_le _ _)

theorem below_congr (hids : w.ids = v.ids) (hdeps : w.deps = v.deps) : w.below = v.below := by
  funext x
  simp only [below, Dep, hids, hdeps]

theorem above_congr (hids : w.ids = v.ids) (hdeps : w.deps = v.deps) : w.above = v.above := by
  funext x
  simp only [above, hids]
  congr 1
  funext a b
  simp only [Dep, hdeps]

theorem wantedWeight_congr (hids : w.ids = v.ids) (hdeps : w.deps = v.deps) :
    w.wantedWeight = v.wantedWeight := by
  funext x
  simp only [wantedWeight, spread, hids, below_congr hids hdeps]

theorem supportedWeight_congr (hids : w.ids = v.ids) (hdeps : w.deps = v.deps) :
    w.supportedWeight = v.supportedWeight := by
  funext x
  simp only [supportedWeight, spread, hids, above_congr hids hdeps]

theorem spread_pos : 0 < v.spread := by simp [spread]

theorem potential_le (hs : Shape v) : v.potential ≤ (2 * v.ids.card + 2) ^ (2 * v.ids.card + 4) := by
  have hB : 1 ≤ v.spread := spread_pos
  have hw : load v.ids v.wantedWeight v.staleWanted ≤ v.ids.card * v.spread ^ (2 * v.ids.card + 3) := by
    refine load_le fun x _ => Nat.pow_le_pow_right hB ?_
    have := v.below_le (x := x)
    omega
  have hsup : load v.ids v.supportedWeight v.staleSupported ≤ v.ids.card * v.spread ^ (v.ids.card + 2) := by
    refine load_le fun x _ => Nat.pow_le_pow_right hB ?_
    have := v.above_le (x := x)
    omega
  have hd : v.dirty.card ≤ v.ids.card * v.spread ^ (v.ids.card + 2) :=
    (Finset.card_le_card hs.dirty).trans (Nat.le_mul_of_pos_right _ (Nat.pow_pos hB))
  have htwo : 2 * v.spread ^ (v.ids.card + 2) ≤ v.spread ^ (2 * v.ids.card + 3) :=
    calc 2 * v.spread ^ (v.ids.card + 2) ≤ v.spread * v.spread ^ (v.ids.card + 2) :=
          Nat.mul_le_mul_right _ (by simp [spread])
      _ = v.spread ^ (v.ids.card + 3) := (pow_succ' _ _).symm
      _ ≤ v.spread ^ (2 * v.ids.card + 3) := Nat.pow_le_pow_right hB (by omega)
  calc v.potential
      ≤ v.ids.card * v.spread ^ (2 * v.ids.card + 3)
          + v.ids.card * (2 * v.spread ^ (v.ids.card + 2)) := by unfold potential; linarith
    _ ≤ v.ids.card * v.spread ^ (2 * v.ids.card + 3) + v.ids.card * v.spread ^ (2 * v.ids.card + 3) :=
        Nat.add_le_add_left (Nat.mul_le_mul_left _ htwo) _
    _ ≤ v.spread * v.spread ^ (2 * v.ids.card + 3) := by
        rw [← add_mul]
        exact Nat.mul_le_mul_right _ (by simp only [spread]; omega)
    _ = (2 * v.ids.card + 2) ^ (2 * v.ids.card + 4) := (pow_succ' _ _).symm

theorem card_touch_le (v : View) (s : Finset TaskId) : (v.touch s).dirty.card ≤ v.dirty.card + s.card :=
  (Finset.card_union_le _ _).trans (Nat.add_le_add_left (Finset.card_filter_le _ _) _)

theorem deps_card_le (hs : Shape v) : (v.deps x).card ≤ v.ids.card :=
  Finset.card_le_card fun d hd => hs.target x d hd

theorem node_setWanted_of_ne {wanted : Bool} (hx : x ≠ id) (hm : (v.setWanted id wanted).node x = some m) :
    ∃ n a b, v.node x = some n ∧ m = n.count a b (if wanted then 1 else -1) ∧
      (x ∉ v.deps id → m = n) := by
  simp only [setWanted, touch_node, revise_node, Finset.mem_singleton, hx, if_false] at hm
  split at hm
  · rename_i hd
    obtain ⟨n, hn, rfl⟩ := Option.map_eq_some_iff.mp hm
    exact ⟨n, true, false, hn, rfl, fun h => absurd hd h⟩
  · exact ⟨m, false, false, hm, rfl, fun _ => rfl⟩

theorem potential_setWanted (hs : Shape v) (hn : v.node id = some n) (hne : n.wanted ≠ v.computeWanted n) :
    (v.setWanted id (v.computeWanted n)).potential ≤ v.potential := by
  set w := v.setWanted id (v.computeWanted n) with hw
  have hB : 1 ≤ v.spread := spread_pos
  have hid : id ∈ v.ids := hs.mem hn
  have hdirty : w.dirty.card ≤ v.dirty.card + (v.deps id).card := card_touch_le _ _
  have hwant : load v.ids v.wantedWeight w.staleWanted + v.wantedWeight id ≤
      load v.ids v.wantedWeight v.staleWanted + (v.deps id).card * v.spread ^ (v.ids.card + 2 + v.below id) := by
    refine load_drop hid ?_ ?_ (fun x _ hx hd hst => ?_) fun d hd => ?_
    · simpa [staleWanted, hn] using hne
    · rw [staleWanted, hw, Fresh.node_setWanted hs hn]
      simp only [Option.any_some, bne_eq_false_iff_eq]
      rfl
    · obtain ⟨m, hm, hst⟩ := Option.any_eq_true _ _ |>.mp hst
      obtain ⟨m', -, -, hm', -, he⟩ := node_setWanted_of_ne hx hm
      rw [he hd] at hst
      rw [staleWanted, hm']
      exact hst
    · have := below_lt hs (show v.Dep id d from hd)
      exact Nat.pow_le_pow_right hB (by omega)
  have hsup : load v.ids v.supportedWeight w.staleSupported ≤
      load v.ids v.supportedWeight v.staleSupported + 1 * v.spread ^ (v.ids.card + 2) := by
    rw [← Finset.card_singleton id]
    refine load_change (fun x _ hx hst => ?_) fun d hd => ?_
    · rw [Finset.mem_singleton] at hx
      obtain ⟨m, hm, hst⟩ := Option.any_eq_true _ _ |>.mp hst
      obtain ⟨m', a, b, hm', rfl, -⟩ := node_setWanted_of_ne hx hm
      have hcs : w.computeSupported x (m'.count a b (if v.computeWanted n then 1 else -1)) =
          v.computeSupported x m' := by
        simp only [computeSupported, hw, Frames.supports_setWanted]
        rfl
      rw [hcs] at hst
      rw [staleSupported, hm']
      exact hst
    · have := v.above_le (x := d)
      exact Nat.pow_le_pow_right hB (by omega)
  have hstep : (v.deps id).card * v.spread ^ (v.ids.card + 2 + v.below id) + (v.deps id).card +
      1 * v.spread ^ (v.ids.card + 2) ≤ v.wantedWeight id := by
    have hc : (v.deps id).card ≤ v.ids.card := deps_card_le hs
    have hone : 1 ≤ v.spread ^ (v.ids.card + 2 + v.below id) := Nat.one_le_pow _ _ hB
    have hpow : v.spread ^ (v.ids.card + 2) ≤ v.spread ^ (v.ids.card + 2 + v.below id) :=
      Nat.pow_le_pow_right hB (by omega)
    have hww : v.wantedWeight id = v.spread * v.spread ^ (v.ids.card + 2 + v.below id) := by
      rw [← pow_succ', wantedWeight]
      congr 1
      omega
    rw [hww]
    generalize v.spread ^ (v.ids.card + 2 + v.below id) = c at *
    have hspread : v.spread * c = 2 * (v.ids.card * c) + 2 * c := by simp only [spread]; ring
    have h1 : (v.deps id).card * c ≤ v.ids.card * c := Nat.mul_le_mul_right c hc
    have h2 : v.ids.card ≤ v.ids.card * c := Nat.le_mul_of_pos_right _ hone
    omega
  have hw₁ : w.wantedWeight = v.wantedWeight := wantedWeight_congr rfl rfl
  have hw₂ : w.supportedWeight = v.supportedWeight := supportedWeight_congr rfl rfl
  have hids : w.ids = v.ids := rfl
  unfold potential
  rw [hw₁, hw₂, hids]
  omega

theorem potential_setSupported (hs : Shape v) (hn : v.node id = some n)
    (hne : n.supported ≠ v.computeSupported id n) :
    (v.setSupported id (v.computeSupported id n)).potential ≤ v.potential := by
  set w := v.setSupported id (v.computeSupported id n) with hw
  have hB : 1 ≤ v.spread := spread_pos
  have hid : id ∈ v.ids := hs.mem hn
  have hnode (x : TaskId) (hx : x ≠ id) : w.node x = v.node x := by simp [hw, setSupported, hx]
  -- A pin queues nothing.
  have hdirty : w.dirty.card ≤ v.dirty.card + ((v.requirers id).erase initTaskId).card := by
    have he : w.dirty = (v.touch ((v.requirers id).erase initTaskId)).dirty := by
      ext x
      simp only [hw, setSupported, mem_touch_dirty, revise_dirty, revise_ids, Finset.mem_erase]
      tauto
    rw [he]
    exact card_touch_le _ _
  have hcard : ((v.requirers id).erase initTaskId).card ≤ v.ids.card := by
    refine Finset.card_le_card fun p hp => ?_
    obtain ⟨hne, hp⟩ := Finset.mem_erase.mp hp
    exact (hs.source p id ((hs.inverse p id).mpr hp)).resolve_left hne
  have hwant : load v.ids v.wantedWeight w.staleWanted ≤
      load v.ids v.wantedWeight v.staleWanted + (∅ : Finset TaskId).card * 0 := by
    refine load_change (fun x _ _ hst => ?_) (by simp)
    by_cases hx : x = id
    · have hwid : w.node id = some (n.setSupported (v.computeSupported id n)) := by
        simp [hw, setSupported, hn]
      rw [staleWanted, hx, hwid] at hst
      rw [staleWanted, hx, hn]
      exact hst
    · rw [staleWanted, hnode x hx] at hst
      exact hst
  have hsup : load v.ids v.supportedWeight w.staleSupported + v.supportedWeight id ≤
      load v.ids v.supportedWeight v.staleSupported +
        ((v.requirers id).erase initTaskId).card * v.spread ^ v.above id := by
    refine load_drop hid ?_ ?_ (fun x hx hxi hr hst => ?_) fun p hp => ?_
    · simpa [staleSupported, hn] using hne
    · have hwid : w.node id = some (n.setSupported (v.computeSupported id n)) := by
        simp [hw, setSupported, hn]
      rw [staleSupported, hwid]
      simp only [Option.any_some, bne_eq_false_iff_eq]
      exact (Fresh.at_setSupported hs n _).symm
    · have hnr : x ∉ v.requirers id := fun hm => hr (Finset.mem_erase.mpr ⟨hs.ne_init hx, hm⟩)
      rw [staleSupported, hnode x hxi] at hst
      obtain ⟨m, hm, hst⟩ := Option.any_eq_true _ _ |>.mp hst
      have hcs : w.computeSupported x m = v.computeSupported x m := by
        simp only [computeSupported]
        congr 1
        refine decide_eq_decide.mpr (forall₂_congr fun d hd => ?_)
        have hdi : d ≠ id := fun he => hnr ((hs.inverse x id).mp (he ▸ hd))
        rw [supports, hnode d hdi]
        rfl
      rw [hcs] at hst
      simpa only [staleSupported, hm, Option.any_some] using hst
    · have hd : v.Dep p id := (hs.inverse p id).mpr (Finset.mem_of_mem_erase hp)
      exact Nat.pow_le_pow_right hB (above_lt hs hd)
  have hstep : ((v.requirers id).erase initTaskId).card * v.spread ^ v.above id +
      ((v.requirers id).erase initTaskId).card ≤ v.supportedWeight id := by
    have hone : 1 ≤ v.spread ^ v.above id := Nat.one_le_pow _ _ hB
    rw [supportedWeight, pow_succ']
    generalize v.spread ^ v.above id = c at *
    have hspread : v.spread * c = 2 * (v.ids.card * c) + 2 * c := by simp only [spread]; ring
    have h1 := Nat.mul_le_mul_right c hcard
    have h2 : v.ids.card ≤ v.ids.card * c := Nat.le_mul_of_pos_right _ hone
    omega
  have hw₁ : w.wantedWeight = v.wantedWeight := wantedWeight_congr rfl rfl
  have hw₂ : w.supportedWeight = v.supportedWeight := supportedWeight_congr rfl rfl
  have hids : w.ids = v.ids := rfl
  unfold potential
  rw [hw₁, hw₂, hids]
  omega

theorem potential_recompute (hs : Shape v) (id : TaskId) : (v.recompute id).potential ≤ v.potential := by
  have hwant : (v.recomputeWanted id).potential ≤ v.potential := by
    unfold recomputeWanted
    cases hn : v.node id with
    | none => exact le_rfl
    | some n =>
      simp only
      split
      · exact le_rfl
      · exact potential_setWanted hs hn ‹_›
  refine le_trans ?_ hwant
  unfold recompute recomputeSupported
  cases hn : (v.recomputeWanted id).node id with
  | none => exact le_rfl
  | some n =>
    simp only
    split
    · exact le_rfl
    · exact potential_setSupported (hs.recomputeWanted id) hn ‹_›

theorem potential_pop_recompute (hs : Shape v) (hid : id ∈ v.dirty) :
    ((v.pop id).recompute id).potential < v.potential := by
  refine (potential_recompute (hs.pop id) id).trans_lt ?_
  have hcard := Finset.card_erase_lt_of_mem hid
  have hw₁ : (v.pop id).wantedWeight = v.wantedWeight := wantedWeight_congr rfl rfl
  have hw₂ : (v.pop id).supportedWeight = v.supportedWeight := supportedWeight_congr rfl rfl
  have hs₁ : (v.pop id).staleWanted = v.staleWanted := rfl
  have hs₂ : (v.pop id).staleSupported = v.staleSupported := rfl
  unfold potential
  rw [hw₁, hw₂, hs₁, hs₂]
  simp only [pop_dirty, pop_ids]
  omega

end Dekit.View
