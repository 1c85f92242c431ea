import Dekit.Performed

namespace Dekit

open Relation

namespace View

/-- No task of `S` is reached from what its members are to require. -/
def Apart (D S : List TaskId) (v : View) : Prop :=
  ∀ d ∈ D, d ≠ initTaskId → ∀ x ∈ S, ¬ ReflTransGen v.Dep d x

/-- Every new edge is a pin or leaves a task of `S`. -/
def Within (S : List TaskId) (v w : View) : Prop :=
  ∀ a b, w.Dep a b → v.Dep a b ∨ a = initTaskId ∨ a ∈ S

variable {D S : List TaskId} {u v w : View}

theorem Within.refl (v : View) : Within S v v := fun _ _ h => .inl h

theorem Within.of_deps (h : w.deps = v.deps) : Within S v w :=
  fun a b hab => .inl (by simpa only [Dep, h] using hab)

theorem Within.trans (h : Within S u v) (h' : Within S v w) : Within S u w :=
  fun a b hab => (h' a b hab).elim (h a b) .inr

theorem Apart.within (hs : Shape v) (h : Apart D S v) (hw : Within S v w) : Apart D S w := by
  intro d hd hne x hx hr
  refine h d hd hne x hx (Dag.reach_of_apart (S := fun a => a = initTaskId ∨ a ∈ S) hw ?_ hr)
  rintro a (rfl | ha)
  · exact hs.not_reach_init hne
  · exact h d hd hne a ha

theorem within_addEdge {src dst : TaskId} (hsrc : src = initTaskId ∨ src ∈ S) :
    Within S v (v.addEdge src dst) := by
  intro a b hab
  by_cases ha : a = src
  · exact .inr (ha ▸ hsrc)
  · refine .inl ?_
    revert hab
    unfold View.addEdge
    split
    · exact id
    · split
      · exact id
      · split
        · exact id
        · intro hab
          simpa [Dep, linkEdge, ha] using hab

theorem within_removeEdge {src dst : TaskId} : Within S v (v.removeEdge src dst) := by
  intro a b hab
  refine .inl ?_
  revert hab
  unfold View.removeEdge
  split
  · intro hab
    by_cases ha : a = src
    · subst ha
      simp only [Dep, cutEdge, touch_deps, revise_deps, Function.update_self, Finset.mem_erase] at hab
      exact hab.2
    · simpa [Dep, cutEdge, ha] using hab
  · exact id

theorem deps_setVetoed (v : View) (id : TaskId) (value : Bool) : (v.setVetoed id value).deps = v.deps := by
  unfold setVetoed
  cases v.node id with
  | none => rfl
  | some n =>
    simp only
    split <;> rfl

theorem deps_setState (v : View) (id : TaskId) (state : TaskState) : (v.setState id state).deps = v.deps :=
  (setState_same v id state).2.2.1

end View

namespace Graph

variable {τ : Type}

theorem mem_walk {g : Graph τ} {owner x : TaskId} {s : Finset TaskId} : x ∈ g.walk owner s ↔ x ∈ s :=
  g.hasher.mem_order

theorem mem_closure_iff {g : Graph τ} (hs : g.view.Shape) {x y : TaskId} :
    y ∈ g.closure x ↔ ReflTransGen g.view.Dep x y := by
  unfold closure
  rw [Worklist.mem_explore_iff (s := insert x g.tasks.keys)]
  · have he : Worklist.Next (fun id => g.walk id (g.edges id)) = g.view.Dep := by
      funext a b
      exact propext mem_walk
    rw [he]
  · exact fun a => g.hasher.nodup _ _ _
  · intro a _ b hb
    exact Finset.mem_insert_of_mem (hs.target a b (mem_walk.mp hb))
  · exact Finset.mem_insert_self _ _
  · exact (Finset.card_insert_le _ _).trans (by omega)

theorem requires_iff {g : Graph τ} (hs : g.view.Shape) {src dst : TaskId} :
    g.requires src dst = true ↔ ReflTransGen g.view.Dep src dst := by
  rw [requires, List.contains_iff_mem, mem_closure_iff hs]

theorem resolveNewDeps_ok {g : Graph τ} (hs : g.view.Shape) {id : TaskId} {selectors : List TaskSelector}
    {deps : List TaskId} (h : g.resolveNewDeps id selectors = .ok deps) :
    g.resolveDeps selectors = .ok deps ∧ ∀ d ∈ deps, ¬ ReflTransGen g.view.Dep d id := by
  unfold resolveNewDeps at h
  split at h
  · cases h
  · rename_i deps' hdeps
    split at h
    · cases h
    · rename_i hfind
      obtain rfl := Except.ok.inj h
      refine ⟨hdeps, fun d hd hr => ?_⟩
      have := List.find?_eq_none.mp hfind d hd
      exact this ((requires_iff hs).mpr hr)

theorem resolveUpdate_ok {g : Graph τ} (hs : g.view.Shape) {update : TaskUpdate} {id : TaskId}
    {r : TaskId × List TaskId}
    (h : g.resolveUpdate update id = .ok r) :
    r.1 = id ∧ g.resolveDeps update.deps = .ok r.2 ∧ ∀ d ∈ r.2, ¬ ReflTransGen g.view.Dep d r.1 := by
  unfold resolveUpdate at h
  split at h
  · cases h
  · split at h
    · cases h
    · cases hdeps : g.resolveNewDeps id update.deps with
      | error err => rw [hdeps] at h; cases h
      | ok deps =>
        rw [hdeps] at h
        obtain rfl : (id, deps) = r := Except.ok.inj h
        exact ⟨rfl, resolveNewDeps_ok hs hdeps⟩

theorem resolveUpdates_mapM {g : Graph τ} {sender : TaskId} {selector : TaskSelector} {update : TaskUpdate}
    {resolved : List (TaskId × List TaskId)} (h : g.resolveUpdates sender selector update = .ok resolved) :
    (g.mutableMatchingIds sender selector).mapM (g.resolveUpdate update) = .ok resolved := by
  unfold resolveUpdates at h
  simp only at h
  split at h
  · cases h
  · exact h

theorem resolveUpdates_apart {g : Graph τ} (hs : g.view.Shape) {sender : TaskId}
    {selector : TaskSelector} {update : TaskUpdate} {resolved : List (TaskId × List TaskId)}
    (h : g.resolveUpdates sender selector update = .ok resolved) :
    ∃ D, (∀ r ∈ resolved, g.resolveDeps update.deps = .ok D ∧ r.2 = D) ∧ g.view.Apart D (resolved.map Prod.fst) := by
  have hone (r : TaskId × List TaskId) (hr : r ∈ resolved) :
      g.resolveDeps update.deps = .ok r.2 ∧ ∀ d ∈ r.2, ¬ ReflTransGen g.view.Dep d r.1 := by
    obtain ⟨id, -, hid⟩ := Fold.mapM_mem (resolveUpdates_mapM h) r hr
    exact (resolveUpdate_ok hs hid).2
  cases hres : g.resolveDeps update.deps with
  | error err =>
    have hnone (r : TaskId × List TaskId) (hr : r ∈ resolved) : False := by
      have := (hone r hr).1
      rw [hres] at this
      cases this
    exact ⟨[], fun r hr => (hnone r hr).elim, fun d hd => by cases hd⟩
  | ok D =>
    have hD (r : TaskId × List TaskId) (hr : r ∈ resolved) : r.2 = D := by
      have := (hone r hr).1
      rw [hres] at this
      exact (Except.ok.inj this).symm
    refine ⟨D, fun r hr => ⟨rfl, hD r hr⟩, fun d hd _ x hx => ?_⟩
    obtain ⟨r, hr, rfl⟩ := List.mem_map.mp hx
    exact (hone r hr).2 d (hD r hr ▸ hd)

theorem resolveUpdates_ids {g : Graph τ} (hs : g.view.Shape) {sender : TaskId} {selector : TaskSelector}
    {update : TaskUpdate} {resolved : List (TaskId × List TaskId)}
    (h : g.resolveUpdates sender selector update = .ok resolved) :
    resolved.map Prod.fst = g.mutableMatchingIds sender selector := by
  rw [Fold.mapM_map (q := id) (fun _ _ hr => (resolveUpdate_ok hs hr).1) (resolveUpdates_mapM h), List.map_id]

variable [Task τ] {D S : List TaskId} {g g' g'' : Graph τ} {k n : ℕ}

/-- From where the tasks of `S` can be given the deps of `D` without a cycle, operations that leave it
so. -/
def Links (D S : List TaskId) (k : ℕ) (g g' : Graph τ) : Prop :=
  Sound ∅ g → initTaskId < g.nextTaskId → g.view.Apart D S → Ops k g g' ∧ View.Within S g.view g'.view

namespace Links

theorem refl (g : Graph τ) : Links D S 0 g g := fun _ _ _ => ⟨.refl 0 g, .refl _⟩

theorem mono (h : Links D S k g g') (hkn : k ≤ n) : Links D S n g g' :=
  fun hs hn ha => ⟨(h hs hn ha).1.mono hkn, (h hs hn ha).2⟩

theorem trans (h : Links D S k g g') (h' : Links D S n g' g'') : Links D S (k + n) g g'' := by
  intro hs hn ha
  obtain ⟨hops, hw⟩ := h hs hn ha
  obtain ⟨hops', hw'⟩ := h' (hs.ops hops) (hops.next hn) (ha.within hs.shape hw)
  exact ⟨hops.trans hops', hw.trans hw'⟩

theorem andThen (h : Links D S k g g') (h' : Links D S 0 g' g'') : Links D S k g g'' := h.trans h'

theorem after (h : Links D S 0 g g') (h' : Links D S k g' g'') : Links D S k g g'' :=
  (h.trans h').mono (by omega)

theorem of_runs (h : Runs k g g') (hd : g'.view.deps = g.view.deps) : Links D S k g g' :=
  fun hs hn _ => ⟨h hs hn, .of_deps hd⟩

theorem foldl {β : Type} {body : Graph τ → β → Graph τ} {l : List β}
    (h : ∀ g, ∀ x ∈ l, Links D S k g (body g x)) (g : Graph τ) :
    Links D S (k * l.length) g (l.foldl body g) := by
  induction l generalizing g with
  | nil => exact refl g
  | cons x l ih =>
    refine ((h g x List.mem_cons_self).trans (ih (fun g y hy => h g y (List.mem_cons_of_mem _ hy)) _)).mono ?_
    rw [List.length_cons, Nat.mul_succ, Nat.add_comm]

theorem foldl_still {β : Type} {body : Graph τ → β → Graph τ} {l : List β}
    (h : ∀ g, ∀ x ∈ l, Links D S 0 g (body g x)) (g : Graph τ) : Links D S 0 g (l.foldl body g) :=
  (foldl h g).mono (by simp)

theorem addEdge {src dst : TaskId} (hsrc : src ∈ S) (hdst : dst ∈ D) (g : Graph τ) :
    Links D S 0 g (g.addEdge src dst) := by
  intro hs _ ha
  refine ⟨?_, by rw [view_addEdge]; exact View.within_addEdge (.inr hsrc)⟩
  by_cases hi : dst = initTaskId
  · unfold Graph.addEdge
    rw [if_pos (.inr hi)]
    exact .refl 0 g
  · exact .single (.linked (ha dst hdst hi src hsrc))

theorem removeEdge (g : Graph τ) (src dst : TaskId) : Links D S 0 g (g.removeEdge src dst) :=
  fun _ _ _ => ⟨.single (.unlinked g src dst), by rw [view_removeEdge]; exact View.within_removeEdge⟩

theorem pinned (g : Graph τ) (id : TaskId) : Links D S 0 g (g.setPin id true) := by
  refine fun hs hn _ => ⟨Runs.setPin g id true hs hn, ?_⟩
  have hm : (g.modifyTask id (fun t => { t with savedPin := false })).view = g.view :=
    view_modifyTask_id g id _ fun _ => rfl
  unfold Graph.setPin
  simp only [if_true]
  rw [view_addEdge, hm]
  exact View.within_addEdge (.inl rfl)

theorem setDeps {id : TaskId} (hid : id ∈ S) (g : Graph τ) : Links D S 0 g (g.setDeps id D) := by
  unfold Graph.setDeps forEach
  refine trans (n := 0) ?_ (foldl_still (fun g dep hdep => addEdge hid hdep g) _)
  refine after (show Links D S 0 g { g with tick := g.tick + 1 } from of_runs (.of_still (.beside rfl rfl rfl rfl)) rfl) ?_
  exact foldl_still (fun g dep _ => removeEdge g id dep) _

theorem demand (g : Graph τ) (id : TaskId) (rerunDone : Bool) : Links D S 0 g (g.demand id rerunDone) := by
  refine of_runs (Runs.demand g id rerunDone) ?_
  refine Fold.foldl_keeps (p := fun g : Graph τ => g.view.deps) (fun g x => ?_) _ g
  unfold Graph.demandOne
  cases g.tasks.lookup x with
  | none => rfl
  | some t =>
    have hexcused : (if t.startFailed then
        { g.modifyTask x (fun t => { t with startFailed := false }) with stateChanged := true }
        else g).view.deps = g.view.deps := by split <;> rfl
    simp only
    split
    · rw [view_setState, View.deps_setState, view_setVetoed, View.deps_setVetoed, hexcused]
    · rw [view_setVetoed, View.deps_setVetoed, hexcused]

theorem stopIfActive (g : Graph τ) (id : TaskId) : Links D S 1 g (g.stopIfActive id) := by
  refine of_runs (Runs.stopIfActive g id) ?_
  unfold Graph.stopIfActive
  cases g.tasks.lookup id with
  | none => rfl
  | some t =>
    simp only
    cases t.state with
    | starting | running | ready => simp only [view_stopTask, View.deps_setState]
    | idle | stopping | backoff | done | exited => rfl

theorem redefined {id : TaskId} (hid : id ∈ S) (update : TaskUpdate) (g : Graph τ) :
    Links D S 0 g (((((g.redefine id update).setTags id update.tags).setDeps id D).notifyChanged id).enqueue id) := by
  refine (((of_runs (.of_op (.redefined g id update)) rfl).trans (of_runs (.of_still (.setTags _ _ _)) ?_)).trans
    (setDeps hid _)).trans ((of_runs (Runs.notifyChanged _ _) ?_).trans (of_runs (.of_op (.enqueued _ _)) ?_))
  · rw [(Still.setTags _ _ _).view]
  · rw [(Quiet.notifyChanged _ _).view]
  · rw [view_enqueue]
    rfl

theorem updateTask {id : TaskId} (hid : id ∈ S) (update : TaskUpdate) (g : Graph τ) :
    Links D S 1 g (g.updateTask id D update) := by
  unfold Graph.updateTask
  split
  · refine after (redefined hid update g) ?_
    simp only
    split
    · exact ((pinned _ id).andThen (demand _ id true)).after (stopIfActive _ id)
    · exact (refl _).mono (by omega)
  · exact (refl g).mono (by omega)

end Links

theorem Runs.updateCommand (g : Graph τ) (sender : TaskId) (selector : TaskSelector)
    (update : TaskUpdate) :
    Runs (g.mutableMatchingIds sender selector).length g (g.updateCommand sender selector update).1 := by
  intro hs hn
  unfold Graph.updateCommand
  cases hres : g.resolveUpdates sender selector update with
  | error err => exact .refl _ g
  | ok resolved =>
    obtain ⟨D, hD, hap⟩ := resolveUpdates_apart hs.shape hres
    have hlen : resolved.length = (g.mutableMatchingIds sender selector).length := by
      rw [← resolveUpdates_ids hs.shape hres, List.length_map]
    have hl : Links D (resolved.map Prod.fst) (1 * resolved.length) g
        (resolved.foldl (fun g r => g.updateTask r.1 r.2 update) g) :=
      Links.foldl (fun g r hr => (hD r hr).2 ▸ Links.updateTask (List.mem_map_of_mem hr) update g) g
    exact (hl hs hn hap).1.mono (by omega)

end Graph

end Dekit
