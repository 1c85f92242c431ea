import Dekit.Lib.Tally
import Dekit.Shape

namespace Dekit.View

/-- Both counters are exact. -/
structure Counts (v : View) : Prop where
  wantedParents : ∀ x n, v.node x = some n → n.wantedParents = tally (v.requirers x) v.isWanted
  activeDependents : ∀ x n, v.node x = some n → n.activeDependents = tally (v.requirers x) v.isActive

variable {v w : View} {id src dst x : TaskId} {n m : Node} {s : Finset TaskId} {f : Node → Node}

theorem isWanted_revise (hf : ∀ n, (f n).wanted = n.wanted) : (v.revise s f).isWanted = v.isWanted := by
  funext p
  simp only [isWanted, revise_node]
  split
  · cases v.node p <;> simp [hf]
  · rfl

theorem isActive_revise (hf : ∀ n, (f n).state = n.state) : (v.revise s f).isActive = v.isActive := by
  funext p
  simp only [isActive, revise_node]
  split
  · cases v.node p <;> simp [hf]
  · rfl

theorem supports_revise (hf : ∀ n, ((f n).supported && (f n).isSatisfied) = (n.supported && n.isSatisfied)) :
    (v.revise s f).supports = v.supports := by
  funext p
  simp only [supports, revise_node]
  split
  · cases v.node p <;> simp [hf]
  · rfl

@[simp]
theorem isWanted_touch : (v.touch s).isWanted = v.isWanted := rfl

@[simp]
theorem isActive_touch : (v.touch s).isActive = v.isActive := rfl

@[simp]
theorem supports_touch : (v.touch s).supports = v.supports := rfl

@[simp]
theorem isWanted_count (a b : Bool) (k : ℤ) : (v.revise s (.count a b k)).isWanted = v.isWanted :=
  isWanted_revise fun _ => rfl

@[simp]
theorem isActive_count (a b : Bool) (k : ℤ) : (v.revise s (.count a b k)).isActive = v.isActive :=
  isActive_revise fun _ => rfl

@[simp]
theorem supports_count (a b : Bool) (k : ℤ) : (v.revise s (.count a b k)).supports = v.supports :=
  supports_revise fun _ => rfl

theorem isWanted_of_node (hne : x ≠ initTaskId) (hn : v.node x = some n) : v.isWanted x = n.wanted := by
  simp [isWanted, hne, hn]

theorem isActive_of_node (hne : x ≠ initTaskId) (hn : v.node x = some n) :
    v.isActive x = n.state.isActive := by
  simp [isActive, hne, hn]

theorem supports_of_node (hn : v.node x = some n) : v.supports x = (n.supported && n.isSatisfied) := by
  simp [supports, hn]

namespace Counts

theorem step (h : Counts v) (hstep : ∀ x m, w.node x = some m → ∃ n, v.node x = some n ∧
    m.wantedParents - n.wantedParents = tally (w.requirers x) w.isWanted - tally (v.requirers x) v.isWanted ∧
    m.activeDependents - n.activeDependents =
      tally (w.requirers x) w.isActive - tally (v.requirers x) v.isActive) : Counts w where
  wantedParents x m hm := by
    obtain ⟨n, hn, hw, -⟩ := hstep x m hm
    have := h.wantedParents x n hn
    omega
  activeDependents x m hm := by
    obtain ⟨n, hn, -, ha⟩ := hstep x m hm
    have := h.activeDependents x n hn
    omega

theorem revise (h : Counts v) (hf : ∀ n, (f n).wantedParents = n.wantedParents ∧
    (f n).activeDependents = n.activeDependents ∧ (f n).wanted = n.wanted ∧ (f n).state = n.state) :
    Counts (v.revise s f) := by
  apply h.step
  intro x m hm
  have hw : (v.revise s f).isWanted = v.isWanted := isWanted_revise fun n => (hf n).2.2.1
  have ha : (v.revise s f).isActive = v.isActive := isActive_revise fun n => (hf n).2.2.2
  simp only [hw, ha, revise_requirers, sub_self]
  simp only [revise_node] at hm
  split at hm
  · obtain ⟨n, hn, rfl⟩ := Option.map_eq_some_iff.mp hm
    exact ⟨n, hn, by rw [(hf n).1, sub_self], by rw [(hf n).2.1, sub_self]⟩
  · exact ⟨m, hm, sub_self _, sub_self _⟩

theorem touch (h : Counts v) (s : Finset TaskId) : Counts (v.touch s) := ⟨h.1, h.2⟩

theorem pop (h : Counts v) (id : TaskId) : Counts (v.pop id) := ⟨h.1, h.2⟩

theorem quit (h : Counts v) : Counts v.quit := ⟨h.1, h.2⟩

theorem flip (hs : Shape v) (h : Counts v) (hn : v.node id = some n) (wanted active : Bool) (k : ℤ)
    (hf : ∀ n, (f n).wantedParents = n.wantedParents ∧ (f n).activeDependents = n.activeDependents)
    (hw : (f n).wanted.toInt - n.wanted.toInt = if wanted then k else 0)
    (ha : (f n).state.isActive.toInt - n.state.isActive.toInt = if active then k else 0) :
    Counts ((v.revise {id} f).revise (v.deps id) (.count wanted active k)) := by
  have hne := hs.ne_init (hs.mem hn)
  have hoff (p : TaskId) (hp : p ≠ id) : (v.revise {id} f).isWanted p = v.isWanted p ∧
      (v.revise {id} f).isActive p = v.isActive p := by
    simp [isWanted, isActive, hp]
  have hon : (v.revise {id} f).isWanted id = (f n).wanted ∧
      (v.revise {id} f).isActive id = (f n).state.isActive := by
    simp [isWanted, isActive, hne, hn]
  have hmove (p q : TaskId → Bool) (x : TaskId) (hpq : ∀ y, y ≠ id → p y = q y) :
      tally (v.requirers x) q - tally (v.requirers x) p =
        if x ∈ v.deps id then (q id).toInt - (p id).toInt else 0 := by
    split
    · rename_i hx
      have := tally_change ((hs.inverse id x).mp hx) fun y _ hy => hpq y hy
      omega
    · rename_i hx
      rw [tally_congr (p := q) (q := p), sub_self]
      intro y hy
      exact (hpq y fun he => hx ((hs.inverse id x).mpr (he ▸ hy))).symm
  apply h.step
  intro x m hm
  simp only [isWanted_count, isActive_count, revise_requirers]
  rw [hmove v.isWanted _ x fun y hy => (hoff y hy).1.symm,
    hmove v.isActive _ x fun y hy => (hoff y hy).2.symm, hon.1, hon.2, isWanted_of_node hne hn,
    isActive_of_node hne hn, hw, ha]
  have hfx : ∃ n₀, v.node x = some n₀ ∧
      ∃ n₁, n₁.wantedParents = n₀.wantedParents ∧ n₁.activeDependents = n₀.activeDependents ∧
        m = if x ∈ v.deps id then n₁.count wanted active k else n₁ := by
    simp only [revise_node, Finset.mem_singleton] at hm
    by_cases hxi : x = id
    · subst hxi
      simp only [hs.not_self, if_true, if_false, Option.map_eq_some_iff] at hm ⊢
      obtain ⟨n₀, hn₀, rfl⟩ := hm
      exact ⟨n₀, hn₀, f n₀, (hf n₀).1, (hf n₀).2, rfl⟩
    · simp only [hxi, if_false] at hm ⊢
      by_cases hxd : x ∈ v.deps id
      · rw [if_pos hxd] at hm
        obtain ⟨n₀, hn₀, rfl⟩ := Option.map_eq_some_iff.mp hm
        exact ⟨n₀, hn₀, n₀, rfl, rfl, (if_pos hxd).symm⟩
      · rw [if_neg hxd] at hm
        exact ⟨m, hm, m, rfl, rfl, (if_neg hxd).symm⟩
  obtain ⟨n₀, hn₀, n₁, hw₁, ha₁, rfl⟩ := hfx
  refine ⟨n₀, hn₀, ?_, ?_⟩
  all_goals
    split <;> simp only [Node.count, ← hw₁, ← ha₁]
    · split <;> omega
    · omega

theorem setState (hs : Shape v) (h : Counts v) (id : TaskId) (state : TaskState) :
    Counts (v.setState id state) := by
  unfold View.setState
  cases hn : v.node id with
  | none => exact h
  | some n =>
    by_cases hstate : n.state = state
    · simpa only [hstate, if_true] using h
    simp only [hstate, if_false]
    have hkeep (hact : n.state.isActive = state.isActive) : Counts (v.revise {id} (.setState state)) := by
      have hflip := h.flip hs hn (f := .setState state) false false 0 (fun _ => ⟨rfl, rfl⟩)
        (by simp [Node.setState]) (by simp [Node.setState, hact])
      simpa only [Node.count_none, revise_id] using hflip
    have hmove (hact : n.state.isActive ≠ state.isActive) := h.flip hs hn (f := .setState state) false
      true (if state.isActive then 1 else -1) (fun _ => ⟨rfl, rfl⟩) (by simp [Node.setState])
      (by simp only [Node.setState]; revert hact; cases n.state.isActive <;> cases state.isActive <;> simp)
    split
    · rename_i hact
      split
      · exact (hkeep hact).touch _
      · exact ((hkeep hact).touch _).touch _
    · rename_i hact
      split
      · exact ((hmove hact).touch _).touch _
      · exact (((hmove hact).touch _).touch _).touch _

theorem setWanted (hs : Shape v) (h : Counts v) (hn : v.node id = some n) (wanted : Bool)
    (hne : n.wanted ≠ wanted) : Counts (v.setWanted id wanted) :=
  (h.flip hs hn (f := .setWanted wanted) true false (if wanted then 1 else -1) (fun _ => ⟨rfl, rfl⟩)
    (by simp only [Node.setWanted]; revert hne; cases n.wanted <;> cases wanted <;> simp)
    (by simp [Node.setWanted])).touch _

theorem recomputeWanted (hs : Shape v) (h : Counts v) (id : TaskId) : Counts (v.recomputeWanted id) := by
  unfold View.recomputeWanted
  cases hn : v.node id with
  | none => exact h
  | some n =>
    simp only
    split
    · exact h
    · rename_i hne
      exact h.setWanted hs hn _ hne

theorem recompute (hs : Shape v) (h : Counts v) (id : TaskId) : Counts (v.recompute id) := by
  have hw := h.recomputeWanted hs id
  unfold View.recompute View.recomputeSupported
  cases (v.recomputeWanted id).node id with
  | none => exact hw
  | some m =>
    simp only
    split
    · exact hw
    · exact (hw.revise (f := .setSupported _) fun _ => ⟨rfl, rfl, rfl, rfl⟩).touch _

theorem setVetoed (h : Counts v) (id : TaskId) (value : Bool) : Counts (v.setVetoed id value) := by
  unfold View.setVetoed
  cases v.node id with
  | none => exact h
  | some n =>
    simp only
    split
    · exact h
    · exact (h.revise (f := .setVetoed value) fun _ => ⟨rfl, rfl, rfl, rfl⟩).touch _

theorem edge (h : Counts v) (src dst : TaskId) (k : ℤ)
    (hreq : ∀ x p, tally (w.requirers x) p - tally (v.requirers x) p =
      if x = dst then k * (p src).toInt else 0)
    (hnode : ∀ x, w.node x = (v.revise {dst} (.count (v.isWanted src) (v.isActive src) k)).node x) :
    Counts w := by
  have hw : w.isWanted = v.isWanted := by
    funext p
    simp only [isWanted, hnode]
    exact congrFun (isWanted_count (v := v) _ _ _) p
  have ha : w.isActive = v.isActive := by
    funext p
    simp only [isActive, hnode]
    exact congrFun (isActive_count (v := v) _ _ _) p
  apply h.step
  intro x m hm
  rw [hnode] at hm
  simp only [hw, ha, hreq, revise_node, Finset.mem_singleton] at hm ⊢
  split at hm
  · obtain ⟨n, hn, rfl⟩ := Option.map_eq_some_iff.mp hm
    refine ⟨n, hn, ?_, ?_⟩ <;> simp only [Node.count, *, if_true]
    · cases v.isWanted src <;> simp
    · cases v.isActive src <;> simp
  · exact ⟨m, hm, by simp [*], by simp [*]⟩

theorem linkEdge (h : Counts v) (hs : Shape v) (hd : dst ∉ v.deps src) : Counts (v.linkEdge src dst) := by
  refine h.edge src dst 1 (fun x p => ?_) (fun _ => rfl)
  by_cases hx : x = dst
  · subst hx
    have hm : src ∉ v.requirers x := fun hm => hd ((hs.inverse src x).mpr hm)
    simp [View.linkEdge, tally_insert hm]
  · simp [View.linkEdge, hx]

theorem cutEdge (h : Counts v) (hs : Shape v) (hd : dst ∈ v.deps src) : Counts (v.cutEdge src dst) := by
  refine h.edge src dst (-1) (fun x p => ?_) (fun _ => rfl)
  by_cases hx : x = dst
  · subst hx
    simp [View.cutEdge, tally_erase ((hs.inverse src x).mp hd)]
  · simp [View.cutEdge, hx]

theorem addEdge (h : Counts v) (hs : Shape v) (src dst : TaskId) : Counts (v.addEdge src dst) := by
  unfold View.addEdge
  split
  · exact h
  · split
    · exact h
    · split
      · exact h.touch _
      · rename_i hd
        exact (h.linkEdge hs hd).touch _

theorem removeEdge (h : Counts v) (hs : Shape v) (src dst : TaskId) : Counts (v.removeEdge src dst) := by
  unfold View.removeEdge
  split
  · rename_i hd
    exact (h.cutEdge hs hd).touch _
  · exact h.touch _

theorem insertTask (h : Counts v) (hs : Shape v) (hid : id ∉ v.ids) (hne : id ≠ initTaskId)
    (hp : n.wantedParents = 0) (ha : n.activeDependents = 0) :
    Counts (v.insertTask id n) := by
  have hmem {x y : TaskId} (hy : y ∈ v.requirers x) : y ≠ id := fun he => by
    have := (hs.inverse y x).mpr hy
    rw [he, hs.no_deps hid hne] at this
    simp at this
  have hwanted (x : TaskId) : tally (v.requirers x) (v.insertTask id n).isWanted =
      tally (v.requirers x) v.isWanted :=
    tally_congr fun y hy => by simp [isWanted, View.insertTask, hmem hy]
  have hactive (x : TaskId) : tally (v.requirers x) (v.insertTask id n).isActive =
      tally (v.requirers x) v.isActive :=
    tally_congr fun y hy => by simp [isActive, View.insertTask, hmem hy]
  refine ⟨fun x m hm => ?_, fun x m hm => ?_⟩
  all_goals
    simp only [View.insertTask, Function.update_apply] at hm
    split at hm
    · rename_i hx
      obtain rfl := Option.some.inj hm
      simp [View.insertTask, hx, hs.no_requirers hid, hp, ha]
  · exact (h.wantedParents x m hm).trans (hwanted x).symm
  · exact (h.activeDependents x m hm).trans (hactive x).symm

theorem removeTask (h : Counts v) (hs : Shape v) (id : TaskId) : Counts (v.removeTask id) := by
  unfold View.removeTask
  cases hn : v.node id with
  | none => exact h
  | some n =>
    apply Counts.touch
    have hne := hs.ne_init (hs.mem hn)
    -- The removed task counted on what it required, and on nothing else.
    have hmove (p q : TaskId → Bool) (x : TaskId) (hx : x ≠ id) (hpq : ∀ y, y ≠ id → p y = q y) :
        tally (if x = id then ∅ else if x ∈ v.deps id then (v.requirers x).erase id else v.requirers x) q =
          tally (v.requirers x) p - if x ∈ v.deps id then (p id).toInt else 0 := by
      rw [if_neg hx]
      split
      · rename_i hd
        rw [← tally_erase ((hs.inverse id x).mp hd)]
        exact (tally_congr fun y hy => hpq y (Finset.ne_of_mem_erase hy)).symm
      · rename_i hd
        rw [sub_zero]
        exact (tally_congr fun y hy => hpq y fun he => hd ((hs.inverse id x).mpr (he ▸ hy))).symm
    apply h.step
    intro x m hm
    simp only at hm ⊢
    by_cases hx : x = id
    · simp [hx] at hm
    rw [hmove v.isWanted _ x hx, hmove v.isActive _ x hx, isWanted_of_node hne hn,
      isActive_of_node hne hn]
    · simp only [hx, if_false] at hm
      split at hm
      · obtain ⟨n₀, hn₀, rfl⟩ := Option.map_eq_some_iff.mp hm
        refine ⟨n₀, hn₀, ?_, ?_⟩ <;> simp only [Node.count, *, if_true]
        · cases n.wanted <;> simp
        · cases n.state.isActive <;> simp
      · exact ⟨m, hm, by simp [*], by simp [*]⟩
    all_goals
      intro y hy
      simp only [isActive, isWanted, hy, if_false]
      split
      · cases v.node y <;> simp
      · rfl

end Counts

end Dekit.View
