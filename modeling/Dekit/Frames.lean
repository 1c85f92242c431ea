import Dekit.Caches

namespace Dekit

def TaskState.isRunning : TaskState → Bool
  | .starting | .running | .ready => true
  | .idle | .stopping | .backoff _ | .done _ | .exited _ => false

def TaskState.isBackoff : TaskState → Bool
  | .backoff _ => true
  | _ => false

namespace View

def FreshAt (v : View) (x : TaskId) (n : Node) : Prop :=
  n.wanted = v.computeWanted n ∧ n.supported = v.computeSupported x n

/-- The reconciler has nothing to do for a task: one that may run was started, and one that may not
is up only while a dependent holds it. -/
structure DrivenAt (n : Node) : Prop where
  started : n.supported = true → n.state ≠ .idle
  stopped : n.supported = false → n.state.isRunning = true → 0 < n.activeDependents
  cancelled : n.supported = false → n.state.isBackoff = false

/-- The caches of every task are fresh that is neither queued nor in `s`. -/
def Fresh (v : View) (s : Finset TaskId) : Prop :=
  ∀ x n, v.node x = some n → x ∉ v.dirty → x ∉ s → v.FreshAt x n

/-- Every task is driven that is neither queued nor in `s`. -/
def Driven (v : View) (s : Finset TaskId) : Prop :=
  ∀ x n, v.node x = some n → x ∉ v.dirty → x ∉ s → DrivenAt n

/-- A task that is neither queued nor in `s` is as it was, and so is what its caches and its drive
follow from. -/
structure Frames (s : Finset TaskId) (v w : View) : Prop where
  quitting : w.quitting = v.quitting
  kept : ∀ x n, w.node x = some n → x ∉ w.dirty → x ∉ s → x ∉ v.dirty ∧ v.node x = some n ∧
    w.deps x = v.deps x ∧ ∀ d ∈ v.deps x, w.supports d = v.supports d

variable {u v w : View} {id src dst x : TaskId} {n m : Node} {s t : Finset TaskId} {f : Node → Node}

theorem Fresh.frames (h : Fresh v s) (hf : Frames t v w) : Fresh w (s ∪ t) := by
  intro x n hn hx hxs
  obtain ⟨hxs, hxt⟩ := Finset.notMem_union.mp hxs
  obtain ⟨hxv, hnv, hd, hdep⟩ := hf.kept x n hn hx hxt
  obtain ⟨hw, hs⟩ := h x n hnv hxv hxs
  refine ⟨?_, ?_⟩
  · rw [hw]
    simp only [computeWanted, hf.quitting]
  · rw [hs]
    simp only [computeSupported, hd]
    congr 1
    exact decide_eq_decide.mpr (forall₂_congr fun d hd => by rw [hdep d hd])

theorem Driven.frames (h : Driven v s) (hf : Frames t v w) : Driven w (s ∪ t) := by
  intro x n hn hx hxs
  obtain ⟨hxs, hxt⟩ := Finset.notMem_union.mp hxs
  obtain ⟨hxv, hnv, -, -⟩ := hf.kept x n hn hx hxt
  exact h x n hnv hxv hxs

theorem Driven.mono (h : Driven v s) (hst : s ⊆ t) : Driven v t :=
  fun x n hn hx hxt => h x n hn hx fun hxs => hxt (hst hxs)

namespace Frames

theorem refl (s : Finset TaskId) (v : View) : Frames s v v :=
  ⟨rfl, fun _ _ hn hx _ => ⟨hx, hn, rfl, fun _ _ => rfl⟩⟩

theorem trans (h : Frames s u v) (h' : Frames s v w) : Frames s u w where
  quitting := h'.quitting.trans h.quitting
  kept x n hn hx hxs := by
    obtain ⟨hxv, hnv, hd, hdep⟩ := h'.kept x n hn hx hxs
    obtain ⟨hxu, hnu, hd', hdep'⟩ := h.kept x n hnv hxv hxs
    exact ⟨hxu, hnu, hd.trans hd', fun d hm => (hdep d (hd' ▸ hm)).trans (hdep' d hm)⟩

theorem mono (h : Frames s v w) (hst : s ⊆ t) : Frames t v w :=
  ⟨h.quitting, fun x n hn hx hxt => h.kept x n hn hx fun hxs => hxt (hst hxs)⟩

theorem touch (v : View) (s : Finset TaskId) : Frames ∅ v (v.touch s) :=
  ⟨rfl, fun x _ hn hx _ => ⟨fun hd => hx ((mem_touch_dirty v s x).mpr (.inl hd)), hn, rfl, fun _ _ => rfl⟩⟩

theorem notMem_of_touch (hs : Shape (w.touch s)) (hn : (w.touch s).node x = some n)
    (hx : x ∉ (w.touch s).dirty) : x ∉ w.dirty ∧ x ∉ s := by
  have hxid : x ∈ w.ids := hs.mem hn
  have hxs : x ∉ w.dirty ∧ ¬ (x ∈ s ∧ x ≠ initTaskId ∧ x ∈ w.ids) := by simpa using hx
  exact ⟨hxs.1, fun hm => hxs.2 ⟨hm, hs.ne_init hxid, hxid⟩⟩

theorem revise (hs : Shape v) (hf : ∀ n, v.node id = some n →
    ((f n).supported && (f n).isSatisfied) = (n.supported && n.isSatisfied) ∨ v.requirers id ⊆ s)
    (hid : id ∈ s) : Frames ∅ v ((v.revise {id} f).touch s) := by
  refine ⟨rfl, fun x m hm hx _ => ?_⟩
  obtain ⟨hxd, hxs⟩ := notMem_of_touch ((hs.revise _ _).touch _) hm hx
  have hne : x ≠ id := fun he => hxs (he ▸ hid)
  refine ⟨hxd, by simpa [hne] using hm, rfl, fun d hd => ?_⟩
  by_cases hdi : d = id
  · subst hdi
    rw [supports_touch]
    simp only [supports, revise_node, Finset.mem_singleton, if_true]
    cases hn : v.node d with
    | none => rfl
    | some n =>
      rcases hf n hn with he | hsub
      · simpa only [Option.map_some, Option.any_some] using he
      · exact absurd (hsub ((hs.inverse x d).mp hd)) hxs
  · simp [supports, hdi]

theorem count (hs : Shape v) (s : Finset TaskId) (wanted active : Bool) (k : ℤ) :
    Frames ∅ v ((v.revise s (.count wanted active k)).touch s) := by
  refine ⟨rfl, fun x m hm hx _ => ?_⟩
  obtain ⟨hxd, hxs⟩ := notMem_of_touch ((hs.revise _ _).touch _) hm hx
  exact ⟨hxd, by simpa [hxs] using hm, rfl,
    fun d _ => congrFun (supports_count (v := v) wanted active k) d⟩

theorem setState (hs : Shape v) (id : TaskId) (state : TaskState) : Frames ∅ v (v.setState id state) := by
  unfold View.setState
  cases hn : v.node id with
  | none => exact refl ∅ v
  | some n =>
    by_cases hstate : n.state = state
    · simpa only [hstate, if_true] using refl ∅ v
    simp only [hstate, if_false]
    have hw : Frames ∅ v (if n.isSatisfied = (n.setState state).isSatisfied then
        (v.revise {id} (.setState state)).touch {id}
      else ((v.revise {id} (.setState state)).touch {id}).touch (v.requirers id)) := by
      split
      · rename_i hsat
        refine revise hs (fun n' hn' => .inl ?_) (Finset.mem_singleton_self id)
        obtain rfl : n = n' := Option.some.inj (hn.symm.trans hn')
        rw [hsat]
        rfl
      · rw [touch_touch]
        exact revise hs (fun _ _ => .inr Finset.subset_union_right)
          (Finset.mem_union_left _ (Finset.mem_singleton_self id))
    split
    · exact hw
    · refine hw.trans (count ?_ _ _ _ _)
      split
      · exact (hs.revise _ _).touch _
      · exact ((hs.revise _ _).touch _).touch _

theorem setVetoed (hs : Shape v) (id : TaskId) (value : Bool) : Frames ∅ v (v.setVetoed id value) := by
  unfold View.setVetoed
  cases v.node id with
  | none => exact refl ∅ v
  | some n =>
    simp only
    split
    · exact refl ∅ v
    · exact revise hs (fun _ _ => .inl rfl) (Finset.mem_singleton_self id)

theorem edge (hs : Shape w) (hq : w.quitting = v.quitting) (hd : w.dirty = v.dirty)
    (hdeps : ∀ x, x ≠ src → w.deps x = v.deps x) (wanted active : Bool) (k : ℤ)
    (hnode : ∀ x, w.node x = (v.revise {dst} (.count wanted active k)).node x) :
    Frames ∅ v (w.touch {dst, src}) := by
  refine ⟨hq, fun x m hm hx _ => ?_⟩
  obtain ⟨hxd, hxs⟩ := notMem_of_touch (hs.touch _) hm hx
  simp only [Finset.mem_insert, Finset.mem_singleton, not_or] at hxs
  have hsup : w.supports = v.supports := by
    rw [← supports_count (v := v) (s := {dst}) wanted active k]
    funext p
    simp only [supports, hnode]
  refine ⟨hd ▸ hxd, ?_, hdeps x hxs.2, fun d _ => congrFun hsup d⟩
  rw [touch_node, hnode] at hm
  simpa [hxs.1] using hm

theorem addEdge (hs : Shape v) (hs' : Shape (v.addEdge src dst)) : Frames ∅ v (v.addEdge src dst) := by
  revert hs'
  unfold View.addEdge
  split
  · exact fun _ => refl ∅ v
  · split
    · exact fun _ => refl ∅ v
    · split
      · exact fun _ => touch v _
      · intro hs'
        have hl : Shape (v.linkEdge src dst) :=
          hs'.congr rfl rfl rfl (fun _ => rfl) hs.dirty
        refine edge hl rfl rfl (fun x hx => ?_) _ _ _ (fun _ => rfl)
        simp [View.linkEdge, hx]

theorem removeEdge (hs : Shape v) (src dst : TaskId) : Frames ∅ v (v.removeEdge src dst) := by
  unfold View.removeEdge
  split
  · refine edge hs.cutEdge rfl rfl (fun x hx => ?_) _ _ _ (fun _ => rfl)
    simp [View.cutEdge, hx]
  · exact touch v _

theorem removeTask (hs : Shape v) (id : TaskId) : Frames ∅ v (v.removeTask id) := by
  have hs' := hs.removeTask id
  revert hs'
  unfold View.removeTask
  cases v.node id with
  | none => exact fun _ => refl ∅ v
  | some n =>
    refine fun hs' => ⟨rfl, fun x m hm hx _ => ?_⟩
    obtain ⟨hxd, hxs⟩ := notMem_of_touch hs' hm hx
    simp only [touch_node, touch_deps, Finset.mem_union, not_or] at hm hxs ⊢
    have hxi : x ≠ id := fun he => by simp [he] at hm
    have hdi {d : TaskId} (hd : d ∈ v.deps x) : d ≠ id :=
      fun he => hxs.2 ((hs.inverse x id).mp (he ▸ hd))
    refine ⟨fun hd => hxd (Finset.mem_erase.mpr ⟨hxi, hd⟩), by simpa [hxi, hxs.1] using hm,
      by simp [hxi, hxs.2], fun d hd => ?_⟩
    simp only [supports, touch_node, hdi hd, if_false]
    split
    · cases v.node d <;> rfl
    · rfl

end Frames

namespace Frames

theorem pop (v : View) (id : TaskId) : Frames {id} v (v.pop id) := by
  refine ⟨rfl, fun x n hn hx hxs => ⟨fun hd => hx ?_, hn, rfl, fun _ _ => rfl⟩⟩
  exact Finset.mem_erase.mpr ⟨Finset.notMem_singleton.mp hxs, hd⟩

theorem supports_setWanted (wanted : Bool) : (v.setWanted id wanted).supports = v.supports := by
  simp only [View.setWanted, supports_touch, supports_count]
  exact supports_revise fun _ => rfl

theorem setWanted (hs : Shape v) (id : TaskId) (wanted : Bool) :
    Frames {id} v (v.setWanted id wanted) := by
  refine ⟨rfl, fun x m hm hx hxs => ?_⟩
  obtain ⟨hxd, hxs'⟩ := notMem_of_touch (hs.setWanted id wanted) hm hx
  have hxi := Finset.notMem_singleton.mp hxs
  exact ⟨hxd, by simpa [View.setWanted, hxi, hxs'] using hm, rfl,
    fun d _ => congrFun (supports_setWanted wanted) d⟩

theorem setSupported (hs : Shape v) (id : TaskId) (supported : Bool) :
    Frames {id} v (v.setSupported id supported) := by
  refine ⟨rfl, fun x m hm hx hxs => ?_⟩
  obtain ⟨hxd, hxs'⟩ := notMem_of_touch (hs.setSupported id supported) hm hx
  have hxi := Finset.notMem_singleton.mp hxs
  refine ⟨hxd, by simpa [View.setSupported, hxi] using hm, rfl, fun d hd => ?_⟩
  have hdi : d ≠ id := fun he => hxs' ((hs.inverse x id).mp (he ▸ hd))
  simp [supports, View.setSupported, hdi]

theorem recomputeWanted (hs : Shape v) (id : TaskId) : Frames {id} v (v.recomputeWanted id) := by
  unfold View.recomputeWanted
  cases v.node id with
  | none => exact refl _ v
  | some n =>
    simp only
    split
    · exact refl _ v
    · exact setWanted hs _ _

theorem recomputeSupported (hs : Shape v) (id : TaskId) : Frames {id} v (v.recomputeSupported id) := by
  unfold View.recomputeSupported
  cases v.node id with
  | none => exact refl _ v
  | some n =>
    simp only
    split
    · exact refl _ v
    · exact setSupported hs _ _

theorem recompute (hs : Shape v) (id : TaskId) : Frames {id} v (v.recompute id) :=
  (recomputeWanted hs id).trans (recomputeSupported (hs.recomputeWanted id) id)

end Frames

theorem mem_quit_dirty (hs : Shape v) (hn : v.quit.node x = some n) : x ∈ v.quit.dirty := by
  have hx := hs.mem (n := n) (by simpa [View.quit] using hn)
  exact (mem_touch_dirty _ _ x).mpr (.inr ⟨hx, hs.ne_init hx, hx⟩)

namespace Fresh

theorem quit (hs : Shape v) : Fresh v.quit s := fun _ _ hn hx => absurd (mem_quit_dirty hs hn) hx

theorem insertTask (hs : Shape v) (h : Fresh v s) (hid : id ∉ v.ids) (hw : n.wanted = false)
    (hsup : n.supported = false) (hp : n.wantedParents = 0) : Fresh (v.insertTask id n) s := by
  intro x m hm hx hxs
  by_cases hxi : x = id
  · obtain rfl : n = m := by simpa [View.insertTask, hxi] using hm
    simp [FreshAt, computeWanted, computeSupported, hw, hsup, hp]
  · have hm : v.node x = some m := by simpa [View.insertTask, hxi] using hm
    obtain ⟨hfw, hfs⟩ := h x m hm hx hxs
    refine ⟨hfw, hfs.trans ?_⟩
    simp only [computeSupported]
    congr 1
    refine decide_eq_decide.mpr (forall₂_congr fun d hd => ?_)
    have hdi : d ≠ id := fun he => hid (he ▸ hs.target x d hd)
    simp [supports, View.insertTask, hdi]

theorem shrink (h : Fresh v (insert id s))
    (hid : ∀ n, v.node id = some n → id ∉ v.dirty → v.FreshAt id n) : Fresh v s := by
  intro x n hn hx hxs
  by_cases hxi : x = id
  · exact hxi ▸ hid n (hxi ▸ hn) (hxi ▸ hx)
  · exact h x n hn hx (by simpa [hxi] using hxs)

theorem node_setWanted (hs : Shape v) (hn : v.node id = some n) (wanted : Bool) :
    (v.setWanted id wanted).node id = some (n.setWanted wanted) := by
  simp [View.setWanted, hn, hs.not_self]

theorem at_recomputeWanted (hs : Shape v) (hm : (v.recomputeWanted id).node id = some m) :
    m.wanted = (v.recomputeWanted id).computeWanted m := by
  revert hm
  unfold View.recomputeWanted
  cases hn : v.node id with
  | none => intro hm; simp [hn] at hm
  | some n =>
    simp only
    split
    · rename_i hw
      intro hm
      obtain rfl : n = m := Option.some.inj (hn.symm.trans hm)
      exact hw
    · intro hm
      obtain rfl := Option.some.inj ((node_setWanted hs hn _).symm.trans hm)
      rfl

theorem at_setSupported (hs : Shape v) (n : Node) (supported : Bool) :
    (v.setSupported id supported).computeSupported id (n.setSupported supported) =
      v.computeSupported id n := by
  simp only [computeSupported, Node.setSupported]
  congr 1
  refine decide_eq_decide.mpr (forall₂_congr fun d hd => ?_)
  have hdi : d ≠ id := fun he => hs.not_self (he ▸ hd)
  simp [supports, View.setSupported, hdi]

theorem at_recompute (hs : Shape v) (hm : (v.recompute id).node id = some m) :
    (v.recompute id).FreshAt id m := by
  have hw (m : Node) (hm : (v.recomputeWanted id).node id = some m) := at_recomputeWanted hs hm
  have hs' := hs.recomputeWanted id
  revert hm
  unfold View.recompute
  generalize v.recomputeWanted id = u at hw hs' ⊢
  unfold View.recomputeSupported
  cases hm₀ : u.node id with
  | none => intro hm; simp [hm₀] at hm
  | some m₀ =>
    simp only
    split
    · rename_i hsup
      intro hm
      obtain rfl : m₀ = m := Option.some.inj (hm₀.symm.trans hm)
      exact ⟨hw m₀ hm₀, hsup⟩
    · intro hm
      obtain rfl : m₀.setSupported (u.computeSupported id m₀) = m := by
        simpa [View.setSupported, hm₀] using hm
      exact ⟨hw m₀ hm₀, (at_setSupported hs' m₀ _).symm⟩

theorem recompute (hs : Shape v) (h : Fresh v s) (id : TaskId) : Fresh ((v.pop id).recompute id) s := by
  have hf := (Frames.pop v id).trans (Frames.recompute (hs.pop id) id)
  refine shrink (show Fresh _ (insert id s) from ?_) fun m hm _ => at_recompute (hs.pop id) hm
  rw [Finset.insert_eq, Finset.union_comm]
  exact h.frames hf

end Fresh

namespace Driven

theorem quit (hs : Shape v) : Driven v.quit s := fun _ _ hn hx => absurd (mem_quit_dirty hs hn) hx

theorem insertTask (h : Driven v s) : Driven (v.insertTask id n) (insert id s) := by
  intro x m hm hx hxs
  have hxi : x ≠ id := fun he => hxs (he ▸ Finset.mem_insert_self _ _)
  exact h x m (by simpa [View.insertTask, hxi] using hm) hx fun hm => hxs (Finset.mem_insert_of_mem hm)

theorem shrink (h : Driven v (insert id s)) (hid : id ∈ v.dirty) : Driven v s := by
  intro x n hn hx hxs
  exact h x n hn hx fun hm => (Finset.mem_insert.mp hm).elim (fun he => hx (he ▸ hid)) hxs

theorem recompute (hs : Shape v) (h : Driven v s) (id : TaskId) :
    Driven ((v.pop id).recompute id) (insert id s) := by
  rw [Finset.insert_eq, Finset.union_comm]
  exact h.frames ((Frames.pop v id).trans (Frames.recompute (hs.pop id) id))

end Driven

/-- Two nodes that the reconciler treats alike. -/
structure AlikeAt (n m : Node) : Prop where
  state : m.state = n.state
  wanted : m.wanted = n.wanted
  supported : m.supported = n.supported
  vetoed : m.vetoed = n.vetoed
  wantedParents : m.wantedParents = n.wantedParents
  activeDependents : m.activeDependents = n.activeDependents

/-- Two views that the reconciler treats alike. -/
structure Alike (v w : View) : Prop where
  quitting : w.quitting = v.quitting
  deps : w.deps = v.deps
  dirty : w.dirty = v.dirty
  supports : w.supports = v.supports
  node : ∀ x m, w.node x = some m → ∃ n, v.node x = some n ∧ AlikeAt n m

theorem Fresh.alike (h : Fresh v s) (ha : Alike v w) : Fresh w s := by
  intro x m hm hx hxs
  obtain ⟨n, hn, hk⟩ := ha.node x m hm
  obtain ⟨hw, hsup⟩ := h x n hn (ha.dirty ▸ hx) hxs
  refine ⟨?_, ?_⟩
  · rw [hk.wanted, hw]
    simp only [computeWanted, hk.vetoed, hk.wantedParents, ha.quitting]
  · rw [hk.supported, hsup]
    simp only [computeSupported, hk.wanted, ha.deps, ha.supports]

theorem Driven.alike (h : Driven v s) (ha : Alike v w) : Driven w s := by
  intro x m hm hx hxs
  obtain ⟨n, hn, hk⟩ := ha.node x m hm
  have hd := h x n hn (ha.dirty ▸ hx) hxs
  refine ⟨?_, ?_, ?_⟩
  · rw [hk.supported, hk.state]
    exact hd.started
  · rw [hk.supported, hk.state, hk.activeDependents]
    exact hd.stopped
  · rw [hk.supported, hk.state]
    exact hd.cancelled

/-- An idle task satisfies nobody, whatever its kind. -/
theorem alike_setKind (hn : v.node id = some n) (hidle : n.state = .idle) (kind : TaskKind) :
    Alike v (v.setKind id kind) := by
  refine ⟨rfl, rfl, rfl, ?_, fun x m hm => ?_⟩
  · have hsat (k : TaskKind) : TaskState.satisfies .idle k = false := by cases k <;> rfl
    funext d
    simp only [supports, setKind, revise_node, Finset.mem_singleton]
    split
    · rename_i hd
      simp only [hd, hn, Option.map_some, Option.any_some, Node.isSatisfied, Node.setKind, hidle, hsat]
    · rfl
  · simp only [setKind, revise_node, Finset.mem_singleton] at hm
    split at hm
    · obtain ⟨m₀, hm₀, rfl⟩ := Option.map_eq_some_iff.mp hm
      exact ⟨m₀, hm₀, rfl, rfl, rfl, rfl, rfl, rfl⟩
    · exact ⟨m, hm, rfl, rfl, rfl, rfl, rfl, rfl⟩

end View

end Dekit
