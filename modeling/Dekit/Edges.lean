import Dekit.Bearing
import Dekit.Update

namespace Dekit

namespace View

theorem deps_addEdge {v : View} {src dst : TaskId} (hne : src ≠ dst) (hi : dst ≠ initTaskId) (hdst : dst ∈ v.ids)
    (hsrc : src = initTaskId ∨ src ∈ v.ids) :
    (v.addEdge src dst).deps = Function.update v.deps src (insert dst (v.deps src)) := by
  unfold addEdge
  rw [if_neg (by tauto), if_neg (by tauto)]
  split
  · rename_i hmem
    rw [touch_deps, Finset.insert_eq_self.mpr hmem, Function.update_eq_self]
  · rfl

theorem deps_addEdge_of_ne {v : View} {src dst x : TaskId} (h : x ≠ src) : (v.addEdge src dst).deps x = v.deps x := by
  unfold addEdge
  split
  · rfl
  · split
    · rfl
    · split
      · rfl
      · exact Function.update_of_ne h _ _

theorem deps_removeEdge (v : View) (src dst : TaskId) :
    (v.removeEdge src dst).deps = Function.update v.deps src ((v.deps src).erase dst) := by
  unfold removeEdge
  split
  · rfl
  · rename_i hmem
    rw [touch_deps, Finset.erase_eq_of_notMem hmem, Function.update_eq_self]

end View

namespace Graph

variable {τ : Type} {g g' : Graph τ} {id src dst x : TaskId}

theorem edges_of_view {v : View} (h : g'.view = v) : g'.edges = v.deps := congrArg View.deps h

theorem mem_keys {g : Graph τ} {x : TaskId} : x ∈ g.view.ids ↔ x ∈ g.tasks := Finmap.mem_keys

theorem edges_addEdge (hne : src ≠ dst) (hi : dst ≠ initTaskId) (hdst : dst ∈ g.tasks)
    (hsrc : src = initTaskId ∨ src ∈ g.tasks) :
    (g.addEdge src dst).edges = Function.update g.edges src (insert dst (g.edges src)) := by
  rw [edges_of_view (view_addEdge g src dst)]
  exact View.deps_addEdge hne hi (mem_keys.mpr hdst) (hsrc.imp_right mem_keys.mpr)

theorem edges_addEdge_of_ne (g : Graph τ) {src dst x : TaskId} (h : x ≠ src) :
    (g.addEdge src dst).edges x = g.edges x := by
  rw [edges_of_view (view_addEdge g src dst)]
  exact View.deps_addEdge_of_ne h

theorem edges_removeEdge (g : Graph τ) (src dst : TaskId) :
    (g.removeEdge src dst).edges = Function.update g.edges src ((g.edges src).erase dst) := by
  rw [edges_of_view (view_removeEdge g src dst)]
  exact View.deps_removeEdge _ _ _

theorem edges_removeEdges (src : TaskId) (l : List TaskId) (g : Graph τ) :
    (l.foldl (fun g dst => g.removeEdge src dst) g).edges = Function.update g.edges src (g.edges src \ l.toFinset) := by
  induction l generalizing g with
  | nil => simp
  | cons dst l ih =>
    rw [List.foldl_cons, ih, edges_removeEdge, Function.update_self, Function.update_idem]
    congr 1
    ext x
    simp only [Finset.mem_sdiff, Finset.mem_erase, List.toFinset_cons, Finset.mem_insert]
    tauto

theorem Bears.mem {R : TaskHandle τ → TaskHandle τ → Prop} {o : Set TaskId} (h : Bears R o g g') (hx : x ∉ o) :
    x ∈ g'.tasks ↔ x ∈ g.tasks := by
  rw [← Finmap.lookup_isSome, ← Finmap.lookup_isSome]
  cases ht : g.tasks.lookup x with
  | none =>
    cases ht' : g'.tasks.lookup x with
    | none => rfl
    | some t' =>
      obtain ⟨t, ht'', -⟩ := h.some_of hx ht'
      rw [ht] at ht''
      cases ht''
  | some t =>
    obtain ⟨t', ht', -⟩ := h.some_to hx ht
    rw [ht']
    rfl

theorem bearing_any : Bearing (fun _ _ : TaskHandle τ => True) :=
  ⟨fun _ => trivial, fun _ _ => trivial, fun _ _ => trivial, fun _ _ _ => trivial, fun _ _ => trivial⟩

theorem edges_addEdges (hsrc : src = initTaskId ∨ src ∈ g.tasks) {l : List TaskId}
    (hl : ∀ dst ∈ l, src ≠ dst ∧ dst ≠ initTaskId ∧ dst ∈ g.tasks) :
    (l.foldl (fun g dst => g.addEdge src dst) g).edges = Function.update g.edges src (g.edges src ∪ l.toFinset) := by
  induction l generalizing g with
  | nil => simp
  | cons dst l ih =>
    have hmem (x : TaskId) : x ∈ (g.addEdge src dst).tasks ↔ x ∈ g.tasks :=
      (Bears.addEdge bearing_any g src dst).mem (Set.notMem_empty x)
    obtain ⟨hne, hi, hdst⟩ := hl dst List.mem_cons_self
    have hrest (d : TaskId) (hd : d ∈ l) : src ≠ d ∧ d ≠ initTaskId ∧ d ∈ (g.addEdge src dst).tasks := by
      obtain ⟨hne, hi, hd⟩ := hl d (List.mem_cons_of_mem _ hd)
      exact ⟨hne, hi, (hmem d).mpr hd⟩
    rw [List.foldl_cons, ih (hsrc.imp_right (hmem src).mpr) hrest, edges_addEdge hne hi hdst hsrc, Function.update_self,
      Function.update_idem]
    congr 1
    ext x
    simp only [Finset.mem_union, List.toFinset_cons, Finset.mem_insert]
    tauto

theorem edges_setDeps (hid : id ∈ g.tasks) {deps : List TaskId}
    (hd : ∀ dep ∈ deps, id ≠ dep ∧ dep ≠ initTaskId ∧ dep ∈ g.tasks) :
    (g.setDeps id deps).edges = Function.update g.edges id deps.toFinset := by
  unfold Graph.setDeps
  simp only
  have hcut : (g.forEach id ((g.edges id).filter (· ∉ deps)) fun g dep => g.removeEdge id dep).edges =
      Function.update g.edges id (g.edges id \ (g.walk id ((g.edges id).filter (· ∉ deps))).toFinset) :=
    edges_removeEdges id _ { g with tick := g.tick + 1 }
  have hmem (x : TaskId) := (Bears.forEach bearing_any id ((g.edges id).filter (· ∉ deps))
    (fun g dep => Bears.removeEdge bearing_any g id dep) g).mem (Set.notMem_empty x)
  rw [edges_addEdges (.inr ((hmem id).mpr hid)) fun dep h => ⟨(hd dep h).1, (hd dep h).2.1,
    (hmem dep).mpr (hd dep h).2.2⟩,
    hcut, Function.update_self, Function.update_idem]
  congr 1
  ext x
  simp only [Finset.mem_union, Finset.mem_sdiff, List.mem_toFinset, mem_walk, Finset.mem_filter]
  tauto

theorem edges_setPin_of_ne (g : Graph τ) (id : TaskId) (pinned : Bool) (h : x ≠ initTaskId) :
    (g.setPin id pinned).edges x = g.edges x := by
  unfold Graph.setPin
  simp only
  split
  · rw [edges_addEdge_of_ne _ h]
    rfl
  · rw [edges_removeEdge, Function.update_of_ne h]
    rfl

theorem edges_pinned (hid : id ∈ g.tasks) (hi : id ≠ initTaskId) :
    (g.setPin id true).edges initTaskId = insert id (g.edges initTaskId) := by
  have hm : id ∈ (g.modifyTask id fun t => { t with savedPin := false }).tasks := by
    rw [← Finmap.mem_keys]
    change id ∈ (g.tasks.modify id _).keys
    rw [Finmap.keys_modify]
    exact Finmap.mem_keys.mpr hid
  unfold Graph.setPin
  simp only [if_true]
  rw [edges_addEdge (Ne.symm hi) hi hm (.inl rfl), Function.update_self]
  rfl

theorem edges_unpinned (g : Graph τ) (id : TaskId) :
    (g.setPin id false).edges initTaskId = (g.edges initTaskId).erase id := by
  unfold Graph.setPin
  simp only [Bool.false_eq_true, if_false]
  rw [edges_removeEdge, Function.update_self]
  rfl

variable [Task τ]

theorem edges_setState (g : Graph τ) (id : TaskId) (state : TaskState) : (g.setState id state).edges = g.edges := by
  rw [edges_of_view (view_setState g id state), View.deps_setState]
  rfl

theorem edges_demand (g : Graph τ) (id : TaskId) (rerunDone : Bool) : (g.demand id rerunDone).edges = g.edges := by
  refine Fold.foldl_keeps (p := fun g : Graph τ => g.edges) (fun g x => ?_) _ g
  unfold Graph.demandOne
  cases g.tasks.lookup x with
  | none => rfl
  | some t =>
    have hspared (g : Graph τ) : (g.setVetoed x false).edges = g.edges := by
      rw [edges_of_view (view_setVetoed g x false), View.deps_setVetoed]
      rfl
    simp only
    split <;> split <;> simp only [edges_setState, hspared] <;> rfl

theorem edges_stopTask (g : Graph τ) (id : TaskId) (startFailed : Bool) :
    (g.stopTask id startFailed).edges = g.edges := by
  rw [edges_of_view (view_stopTask g id startFailed), View.deps_setState]
  rfl

theorem edges_stopIfActive (g : Graph τ) (id : TaskId) : (g.stopIfActive id).edges = g.edges := by
  unfold Graph.stopIfActive
  split
  · rfl
  · split
    iterate 3 exact edges_stopTask g id false
    rfl

theorem edges_hardKill (g : Graph τ) (id : TaskId) : (g.hardKill id).edges = g.edges := by
  unfold Graph.hardKill
  rw [edges_of_view (view_scheduleStateTimeout _ _ _)]
  change (Graph.sendCmd _ id .kill).edges = _
  rw [edges_of_view (view_sendCmd _ _ _)]
  rfl

theorem edges_cmdKill (g : Graph τ) (id : TaskId) : (g.cmdKill id).edges = (g.setPin id false).edges := by
  unfold Graph.cmdKill
  generalize g.setPin id false = g
  simp only
  split
  · rfl
  · split
    iterate 3 exact (edges_hardKill _ id).trans (edges_setState g id .stopping)
    · exact edges_hardKill g id
    · rfl

end Graph

end Dekit
