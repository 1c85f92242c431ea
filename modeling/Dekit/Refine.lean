import Dekit.Lib.Fold
import Dekit.Frames
import Dekit.Registry

namespace Dekit.Graph

variable {τ : Type} (g : Graph τ) (id x src dst : TaskId)

def clock (x : TaskId) : Option Clock := (g.tasks.lookup x).map TaskHandle.clock

def frame : Instant × Bool × Option (Frozen τ) × ℕ × ℕ :=
  (g.now, g.quitting, g.frozen, g.freezes, g.nextTaskId)

def bounds : Bool × (TaskId → Finset TaskId) × (TaskId → Finset TaskId) × Finset TaskId × List TaskId ×
    List (Happening × View) :=
  (g.quitting, g.edges, g.redges, g.inQueue, g.dirty, g.log)

/-- What goes on beside the tasks and the edges. -/
def marks : (Instant × Bool × Option (Frozen τ) × ℕ × ℕ) × List (Happening × View) × List TaskId ×
    List (TaskId × TaskEffect) × List TaskId × Finset TaskId :=
  (g.frame, g.log, g.timerChanges, g.pendingEffects, g.dirty, g.inQueue)

theorem view_node : g.view.node x = (g.tasks.lookup x).map TaskHandle.node := rfl

theorem mem_tasks : x ∈ g.tasks ↔ x ∈ g.view.ids := Finmap.mem_keys.symm

theorem mem_tasks_lookup : x ∈ g.tasks ↔ (g.tasks.lookup x).isSome = true := Finmap.lookup_isSome.symm

def Queued : Prop := g.inQueue = g.dirty.toFinset ∧ g.dirty.Nodup

section modify

variable (f : TaskHandle τ → TaskHandle τ)

theorem lookup_modifyTask :
    (g.modifyTask id f).tasks.lookup x = if x = id then (g.tasks.lookup x).map f else g.tasks.lookup x :=
  Finmap.lookup_modify g.tasks id x f

theorem view_modifyTask {F : Node → Node} (hF : ∀ t, (f t).node = F t.node) :
    (g.modifyTask id f).view = g.view.revise {id} F := by
  simp only [view, View.revise, modifyTask, Finmap.keys_modify, View.mk.injEq, true_and, and_true]
  funext x
  rw [Finmap.lookup_modify]
  by_cases hx : x = id
  · simp [hx, Function.comp_def, hF]
  · simp [hx]

theorem view_modifyTask_id (hF : ∀ t, (f t).node = t.node) : (g.modifyTask id f).view = g.view := by
  rw [view_modifyTask g id f (F := fun n => n) hF]
  exact View.revise_id g.view {id}

theorem clock_modifyTask (hf : ∀ t, (f t).clock = t.clock) : (g.modifyTask id f).clock = g.clock := by
  funext x
  simp only [clock, lookup_modifyTask]
  split
  · simp [Function.comp_def, hf]
  · rfl

@[simp] theorem modifyTask_frame : (g.modifyTask id f).frame = g.frame := rfl
@[simp] theorem modifyTask_log : (g.modifyTask id f).log = g.log := rfl
@[simp] theorem modifyTask_dirty : (g.modifyTask id f).dirty = g.dirty := rfl
@[simp] theorem modifyTask_inQueue : (g.modifyTask id f).inQueue = g.inQueue := rfl
@[simp] theorem modifyTask_timerChanges : (g.modifyTask id f).timerChanges = g.timerChanges := rfl
@[simp] theorem modifyTask_pendingEffects : (g.modifyTask id f).pendingEffects = g.pendingEffects := rfl

end modify

/-- What queues tasks and moves their counters changes nothing else. -/
structure Counting (g g' : Graph τ) : Prop where
  frame : g'.frame = g.frame
  log : g'.log = g.log
  clock : g'.clock = g.clock
  timerChanges : g'.timerChanges = g.timerChanges
  pendingEffects : g'.pendingEffects = g.pendingEffects
  ns : g'.ns = g.ns
  keys : g'.tasks.keys = g.tasks.keys
  queued : g.Queued → g'.Queued

/-- The graph as it is noted down once an operation of this kind is through. -/
inductive Noting (g : Graph τ) : Graph τ → Prop
  | silent {g' : Graph τ} : Counting g g' → Noting g g'
  | noted {g' : Graph τ} : Counting g g' → Noting g (g'.note .touched)

namespace Counting

variable {g} {g' g'' : Graph τ}

theorem noting (h : Counting g g') : Noting g g' := .silent h

theorem noted (h : Counting g g') : Noting g (g'.note .touched) := .noted h

theorem refl (g : Graph τ) : Counting g g := ⟨rfl, rfl, rfl, rfl, rfl, rfl, rfl, fun h => h⟩

theorem trans (h : Counting g g') (h' : Counting g' g'') : Counting g g'' :=
  ⟨h'.frame.trans h.frame, h'.log.trans h.log, h'.clock.trans h.clock,
    h'.timerChanges.trans h.timerChanges, h'.pendingEffects.trans h.pendingEffects, h'.ns.trans h.ns,
    h'.keys.trans h.keys, fun hq => h'.queued (h.queued hq)⟩

theorem forEach (owner : TaskId) (s : Finset TaskId) {body : Graph τ → TaskId → Graph τ}
    (h : ∀ g x, Counting g (body g x)) : Counting g (g.forEach owner s body) := by
  unfold Graph.forEach
  have htick : Counting g { g with tick := g.tick + 1 } := ⟨rfl, rfl, rfl, rfl, rfl, rfl, rfl, fun h => h⟩
  exact htick.trans (Fold.foldl_rel refl (fun _ _ _ => trans) (fun g x _ => h g x) _)

theorem modified {id : TaskId} {f : TaskHandle τ → TaskHandle τ}
    (ht : g'.tasks = g.tasks.modify id f) (hf : ∀ t, (f t).clock = t.clock) (hm : g'.marks = g.marks)
    (hns : g'.ns = g.ns) : Counting g g' := by
  simp only [marks, Prod.mk.injEq] at hm
  obtain ⟨hframe, hlog, hchanges, hpending, hdirty, hin⟩ := hm
  refine ⟨hframe, hlog, ?_, hchanges, hpending, hns, ?_, fun hq => ?_⟩
  · have hc := clock_modifyTask g id f hf
    unfold Graph.clock modifyTask at hc
    unfold Graph.clock
    rw [ht]
    exact hc
  · rw [ht, Finmap.keys_modify]
  · unfold Queued
    rw [hdirty, hin]
    exact hq

theorem enqueue (g : Graph τ) (id : TaskId) : Counting g (g.enqueue id) := by
  unfold Graph.enqueue
  split
  · rename_i h
    refine ⟨rfl, rfl, rfl, rfl, rfl, rfl, rfl, fun hq => ⟨?_, ?_⟩⟩
    · rw [List.toFinset_append, ← hq.1]
      ext x
      simp
    · refine List.nodup_append.mpr ⟨hq.2, List.nodup_singleton id, fun a ha b hb hab => ?_⟩
      rw [List.mem_singleton.mp hb] at hab
      exact h.2.2 (hq.1 ▸ List.mem_toFinset.mpr (hab ▸ ha))
  · exact refl g

theorem enqueueParents (g : Graph τ) (id : TaskId) : Counting g (g.enqueueParents id) :=
  forEach _ _ enqueue

theorem countActive (now : Bool) (g : Graph τ) (dep : TaskId) :
    Counting g (Graph.countActive now g dep) := by
  unfold Graph.countActive
  refine trans ?_ (enqueue _ dep)
  exact modified rfl (fun _ => rfl) rfl rfl

theorem countWanted (now : Bool) (g : Graph τ) (dep : TaskId) :
    Counting g (Graph.countWanted now g dep) := by
  unfold Graph.countWanted
  refine trans ?_ (enqueue _ dep)
  exact modified rfl (fun _ => rfl) rfl rfl

theorem recomputeWanted (g : Graph τ) (id : TaskId) : Counting g (g.recomputeWanted id) := by
  unfold Graph.recomputeWanted
  cases g.tasks.lookup id with
  | none => exact refl g
  | some t =>
    simp only
    split
    · exact refl g
    · refine trans ?_ (forEach _ _ (countWanted _))
      exact modified rfl (fun _ => rfl) rfl rfl

theorem recomputeSupported (g : Graph τ) (id : TaskId) : Counting g (g.recomputeSupported id) := by
  unfold Graph.recomputeSupported
  cases g.tasks.lookup id with
  | none => exact refl g
  | some t =>
    simp only
    split
    · exact refl g
    · refine trans ?_ (enqueueParents _ id)
      exact modified rfl (fun _ => rfl) rfl rfl

theorem dropRequirer (id : TaskId) (wasWanted wasActive : Bool) (g : Graph τ) (dep : TaskId) :
    Counting g (Graph.dropRequirer id wasWanted wasActive g dep) := by
  unfold Graph.dropRequirer
  refine trans ?_ (enqueue _ dep)
  exact modified rfl (fun _ => rfl) rfl rfl

theorem dropDep (id : TaskId) (g : Graph τ) (src : TaskId) : Counting g (Graph.dropDep id g src) := by
  unfold Graph.dropDep
  refine trans (show Counting g { g with edges := _ } from ?_) (enqueue _ src)
  exact ⟨rfl, rfl, rfl, rfl, rfl, rfl, rfl, fun h => h⟩

theorem dropEdges (g : Graph τ) (id : TaskId) (wasWanted wasActive : Bool) :
    Counting g (g.dropEdges id wasWanted wasActive) := by
  unfold Graph.dropEdges
  have hcut (g : Graph τ) (edges : TaskId → Finset TaskId) : Counting g { g with edges } :=
    ⟨rfl, rfl, rfl, rfl, rfl, rfl, rfl, fun h => h⟩
  have hcut' (g : Graph τ) (redges : TaskId → Finset TaskId) : Counting g { g with redges } :=
    ⟨rfl, rfl, rfl, rfl, rfl, rfl, rfl, fun h => h⟩
  exact (((hcut g _).trans (forEach _ _ (dropRequirer id wasWanted wasActive))).trans
    (hcut' _ _)).trans (forEach _ _ (dropDep id))

theorem putState (g : Graph τ) (id : TaskId) (old : TaskHandle τ) (state : TaskState) :
    Counting (g.enterState id old state) (g.putState id old state) := by
  unfold Graph.putState
  have hif {g h : Graph τ} (c : Prop) [Decidable c] (hc : Counting g h) :
      Counting g (if c then g else h) := by
    split
    · exact refl g
    · exact hc
  exact ((enqueue _ id).trans (hif _ (enqueueParents _ id))).trans (hif _ (forEach _ _ (countActive _)))

theorem setVetoed (g : Graph τ) (id : TaskId) (value : Bool) :
    Noting g (g.setVetoed id value) := by
  unfold Graph.setVetoed
  cases g.tasks.lookup id with
  | none => exact (refl g).noting
  | some t =>
    simp only
    split
    · exact (refl g).noting
    · refine noted (trans ?_ (enqueue _ id))
      exact modified rfl (fun _ => rfl) rfl rfl

theorem addEdge (g : Graph τ) (src dst : TaskId) : Noting g (g.addEdge src dst) := by
  unfold Graph.addEdge
  split
  · exact (refl g).noting
  · split
    · exact (refl g).noting
    · refine noted ((trans ?_ (enqueue _ dst)).trans (enqueue _ src))
      split
      · exact refl g
      · exact modified rfl (fun _ => rfl) rfl rfl

theorem removeEdge (g : Graph τ) (src dst : TaskId) : Noting g (g.removeEdge src dst) := by
  unfold Graph.removeEdge
  refine noted ((trans ?_ (enqueue _ dst)).trans (enqueue _ src))
  split
  · exact modified rfl (fun _ => rfl) rfl rfl
  · exact refl g

theorem recomputeCaches (g : Graph τ) (id : TaskId) : Noting g (g.recomputeCaches id) := by
  unfold Graph.recomputeCaches
  split
  · exact noted ((recomputeWanted g id).trans (recomputeSupported _ id))
  · exact (refl g).noting

end Counting

theorem view_enqueue : (g.enqueue id).view = g.view.touch {id} := by
  unfold enqueue
  split
  · rename_i h
    refine View.ext rfl rfl rfl rfl rfl (Finset.ext fun x => ?_)
    have hid : id ∈ g.view.ids := (mem_tasks g id).mp h.2.1
    simp only [View.mem_touch_dirty, Finset.mem_singleton]
    constructor
    · intro hx
      rcases Finset.mem_insert.mp hx with rfl | hx
      · exact .inr ⟨rfl, h.1, hid⟩
      · exact .inl hx
    · rintro (hx | ⟨rfl, -, -⟩)
      · exact Finset.mem_insert_of_mem hx
      · exact Finset.mem_insert_self _ _
  · rename_i h
    refine View.ext rfl rfl rfl rfl rfl (Finset.ext fun x => ?_)
    simp only [View.mem_touch_dirty, Finset.mem_singleton]
    refine ⟨.inl, ?_⟩
    rintro (hx | ⟨rfl, hne, hm⟩)
    · exact hx
    · by_contra hx
      exact h ⟨hne, (mem_tasks g x).mpr hm, hx⟩

theorem view_walked {body : Graph τ → TaskId → Graph τ} (V : View → Finset TaskId → View)
    (owner : TaskId) (s : Finset TaskId) (hempty : ∀ v, V v ∅ = v)
    (hunion : ∀ v s t, Disjoint s t → V (V v s) t = V v (s ∪ t))
    (h : ∀ g x, (body g x).view = V g.view {x}) : (g.forEach owner s body).view = V g.view s := by
  have hfold (l : List TaskId) (hl : l.Nodup) (g : Graph τ) :
      (l.foldl body g).view = V g.view l.toFinset := by
    induction l generalizing g with
    | nil => exact (hempty _).symm
    | cons x l ih =>
      obtain ⟨hx, hl⟩ := List.nodup_cons.mp hl
      rw [List.foldl_cons, ih hl, h, hunion, List.toFinset_cons, Finset.insert_eq]
      simpa using hx
  unfold forEach walk
  rw [hfold _ (g.hasher.nodup _ _ _), g.hasher.toFinset]
  rfl

theorem view_forEach {body : Graph τ → TaskId → Graph τ} {F : Node → Node} (owner : TaskId)
    (s : Finset TaskId) (h : ∀ g x, (body g x).view = (g.view.revise {x} F).touch {x}) :
    (g.forEach owner s body).view = (g.view.revise s F).touch s := by
  refine view_walked g (fun v s => (v.revise s F).touch s) owner s (fun v => by simp)
    (fun v s t hst => ?_) h
  rw [View.touch_revise, View.touch_touch, View.revise_revise _ _ _ _ hst]

theorem view_enqueueAll (owner : TaskId) (s : Finset TaskId) :
    (g.forEach owner s enqueue).view = g.view.touch s := by
  rw [view_forEach g (F := fun n => n) owner s fun g x => by
    rw [view_enqueue]
    exact congrArg (View.touch · {x}) (View.revise_id g.view {x}).symm]
  exact congrArg (View.touch · s) (View.revise_id g.view s)

theorem view_countActive (now : Bool) (s : Finset TaskId) :
    (g.forEach id s (countActive now)).view =
      (g.view.revise s (.count false true (if now then 1 else -1))).touch s := by
  refine view_forEach g id s fun g x => ?_
  unfold countActive
  rw [view_enqueue, view_modifyTask g x _ (F := .count false true (if now then 1 else -1))]
  intro t
  cases now <;> rfl

theorem view_countWanted (now : Bool) (s : Finset TaskId) :
    (g.forEach id s (countWanted now)).view =
      (g.view.revise s (.count true false (if now then 1 else -1))).touch s := by
  refine view_forEach g id s fun g x => ?_
  unfold countWanted
  rw [view_enqueue, view_modifyTask g x _ (F := .count true false (if now then 1 else -1))]
  intro t
  cases now <;> rfl

/-- What reaches the tasks themselves leaves the graph as it is. -/
structure Quiet (g g' : Graph τ) : Prop where
  view : g'.view = g.view
  clock : g'.clock = g.clock
  frame : g'.frame = g.frame
  log : g'.log = g.log
  dirty : g'.dirty = g.dirty
  timerChanges : g'.timerChanges = g.timerChanges

namespace Quiet

variable {g} {g' g'' : Graph τ}

theorem refl (g : Graph τ) : Quiet g g := ⟨rfl, rfl, rfl, rfl, rfl, rfl⟩

theorem trans (h : Quiet g g') (h' : Quiet g' g'') : Quiet g g'' :=
  ⟨h'.view.trans h.view, h'.clock.trans h.clock, h'.frame.trans h.frame, h'.log.trans h.log,
    h'.dirty.trans h.dirty, h'.timerChanges.trans h.timerChanges⟩

theorem queued (h : Quiet g g') (hq : g.Queued) : g'.Queued := by
  have hin : g'.inQueue = g.inQueue := congrArg View.dirty h.view
  unfold Queued
  rw [hin, h.dirty]
  exact hq

theorem foldl {β : Type} {body : Graph τ → β → Graph τ} (h : ∀ g x, Quiet g (body g x)) (l : List β)
    (g : Graph τ) : Quiet g (l.foldl body g) :=
  Fold.foldl_rel refl (fun _ _ _ => trans) (fun g x _ => h g x) g

theorem forEach (owner : TaskId) (s : Finset TaskId) {body : Graph τ → TaskId → Graph τ}
    (h : ∀ g x, Quiet g (body g x)) : Quiet g (g.forEach owner s body) := by
  unfold Graph.forEach
  have htick : Quiet g { g with tick := g.tick + 1 } := ⟨rfl, rfl, rfl, rfl, rfl, rfl⟩
  exact htick.trans (foldl h _ _)

theorem modifyTask (id : TaskId) {f : TaskHandle τ → TaskHandle τ} (hn : ∀ t, (f t).node = t.node)
    (hc : ∀ t, (f t).clock = t.clock) : Quiet g (g.modifyTask id f) :=
  ⟨view_modifyTask_id g id f hn, clock_modifyTask g id f hc, rfl, rfl, rfl, rfl⟩

theorem queueEffects (g : Graph τ) (id : TaskId) (fx : List TaskEffect) :
    Quiet g (g.queueEffects id fx) := ⟨rfl, rfl, rfl, rfl, rfl, rfl⟩

theorem setTask (g : Graph τ) (id : TaskId) (task : τ) : Quiet g (g.setTask id task) :=
  modifyTask id (fun _ => rfl) (fun _ => rfl)

section commands

variable [Task τ]

theorem deliverTo (source : TaskId) (notify : TaskNotify) (g : Graph τ) (listener : TaskId) :
    Quiet g (Graph.deliverTo source notify g listener) := by
  unfold Graph.deliverTo
  cases g.tasks.lookup listener with
  | none => exact refl g
  | some t => exact (setTask g listener _).trans (queueEffects _ _ _)

theorem deliver (g : Graph τ) (source : TaskId) (notify : TaskNotify) (targets : Finset TaskId) :
    Quiet g (g.deliver source notify targets) :=
  forEach _ _ (deliverTo source notify)

theorem notifySubscribers (g : Graph τ) (source : TaskId) (space : TaskSpaceId)
    (path : Option TaskPath) (notify : TaskNotify) :
    Quiet g (g.notifySubscribers source space path notify) :=
  deliver g _ _ _

theorem notifyChanged (g : Graph τ) (id : TaskId) : Quiet g (g.notifyChanged id) := by
  unfold Graph.notifyChanged
  cases g.tasks.lookup id with
  | none => exact refl g
  | some t => exact notifySubscribers _ _ _ _ _

theorem sendCmd (g : Graph τ) (id : TaskId) {cmd : TaskCmd} (hcmd : sentCmd cmd = none) :
    Quiet g (g.sendCmd id cmd) := by
  unfold Graph.sendCmd Graph.noteSent
  rw [hcmd]
  simp only
  cases g.tasks.lookup id with
  | none => exact refl g
  | some t => exact (setTask g id _).trans (queueEffects _ _ _)

theorem sendCmd_sent (g : Graph τ) (id : TaskId) {cmd : TaskCmd} {sent : SentCmd}
    (hcmd : sentCmd cmd = some sent) : Quiet (g.note (.sent id sent)) (g.sendCmd id cmd) := by
  unfold Graph.sendCmd Graph.noteSent
  rw [hcmd]
  simp only
  cases (g.note (.sent id sent)).tasks.lookup id with
  | none => exact refl _
  | some t => exact (setTask _ id _).trans (queueEffects _ _ _)

end commands

end Quiet

/-- What only the names and definitions of tasks are part of. -/
structure Still (g g' : Graph τ) : Prop extends Quiet g g' where
  pendingEffects : g'.pendingEffects = g.pendingEffects

namespace Still

variable {g} {g' g'' : Graph τ}

theorem refl (g : Graph τ) : Still g g := ⟨.refl g, rfl⟩

theorem trans (h : Still g g') (h' : Still g' g'') : Still g g'' :=
  ⟨h.toQuiet.trans h'.toQuiet, h'.pendingEffects.trans h.pendingEffects⟩

theorem foldl {β : Type} {body : Graph τ → β → Graph τ} (h : ∀ g x, Still g (body g x)) (l : List β)
    (g : Graph τ) : Still g (l.foldl body g) :=
  Fold.foldl_rel refl (fun _ _ _ => trans) (fun g x _ => h g x) g

theorem modified {id : TaskId} {f : TaskHandle τ → TaskHandle τ}
    (ht : g'.tasks = g.tasks.modify id f) (hn : ∀ t, (f t).node = t.node)
    (hc : ∀ t, (f t).clock = t.clock) (hm : g'.marks = g.marks) (hedges : g'.edges = g.edges)
    (hredges : g'.redges = g.redges) : Still g g' := by
  simp only [marks, Prod.mk.injEq] at hm
  obtain ⟨hframe, hlog, hchanges, hpending, hdirty, hin⟩ := hm
  refine ⟨⟨Eq.trans ?_ (view_modifyTask_id g id f hn), Eq.trans ?_ (clock_modifyTask g id f hc), hframe,
    hlog, hdirty, hchanges⟩, hpending⟩
  · have hquit : g'.quitting = g.quitting := congrArg (fun f => f.2.1) hframe
    simp only [view, modifyTask, hquit, hedges, hredges, hin, ht]
  · funext x
    simp only [Graph.clock, modifyTask, ht]

theorem setTags (g : Graph τ) (id : TaskId) (tags : List String) : Still g (g.setTags id tags) := by
  unfold Graph.setTags
  cases g.tasks.lookup id with
  | none => exact refl g
  | some t => exact modified rfl (fun _ => rfl) (fun _ => rfl) rfl rfl rfl

end Still

theorem view_note (h : Happening) : (g.note h).view = g.view := rfl

theorem isWanted_view : g.view.isWanted x = true ↔
    x = initTaskId ∨ (g.tasks.lookup x).any (·.wanted) = true := by
  simp only [View.isWanted, view_node, Bool.or_eq_true, decide_eq_true_eq]
  cases g.tasks.lookup x <;> rfl

theorem isActive_view : g.view.isActive x = true ↔
    x ≠ initTaskId ∧ (g.tasks.lookup x).any (·.state.isActive) = true := by
  simp only [View.isActive, view_node, Bool.and_eq_true, decide_eq_true_eq]
  cases g.tasks.lookup x <;> rfl

theorem view_addEdge : (g.addEdge src dst).view = g.view.addEdge src dst := by
  unfold addEdge View.addEdge
  split
  · rfl
  · have hends : (dst ∉ g.tasks ∨ src ≠ initTaskId ∧ src ∉ g.tasks) ↔
        (dst ∉ g.view.ids ∨ src ≠ initTaskId ∧ src ∉ g.view.ids) := by
      rw [mem_tasks, mem_tasks]
    simp only [hends]
    split
    · rfl
    · rw [view_note, view_enqueue, view_enqueue, View.touch_touch, Finset.singleton_union]
      congr 1
      by_cases hd : dst ∈ g.edges src
      · rw [if_pos hd, if_pos (show dst ∈ g.view.deps src from hd)]
      · rw [if_neg hd, if_neg (show dst ∉ g.view.deps src from hd)]
        refine view_modifyTask { g with edges := _, redges := _, stateChanged := true } dst _ fun t => ?_
        simp only [Node.count, TaskHandle.node, isWanted_view, isActive_view]

theorem view_removeEdge : (g.removeEdge src dst).view = g.view.removeEdge src dst := by
  unfold removeEdge View.removeEdge
  rw [view_note, view_enqueue, view_enqueue, View.touch_touch, Finset.singleton_union]
  congr 1
  by_cases hd : dst ∈ g.edges src
  · rw [if_pos hd, if_pos (show dst ∈ g.view.deps src from hd)]
    refine view_modifyTask { g with edges := _, redges := _, stateChanged := true } dst _ fun t => ?_
    simp only [Node.count, TaskHandle.node, isWanted_view, isActive_view, sub_eq_add_neg]
  · rw [if_neg hd, if_neg (show dst ∉ g.view.deps src from hd)]

theorem view_setVetoed (value : Bool) : (g.setVetoed id value).view = g.view.setVetoed id value := by
  unfold setVetoed View.setVetoed
  rw [view_node]
  cases g.tasks.lookup id with
  | none => rfl
  | some t =>
    simp only [Option.map_some]
    by_cases hv : t.vetoed = value
    · rw [if_pos hv, if_pos (show t.node.vetoed = value from hv)]
    · rw [if_neg hv, if_neg (show t.node.vetoed ≠ value from hv), view_note, view_enqueue,
        view_modifyTask g id _ (F := .setVetoed value) fun _ => rfl]

theorem view_putState {old : TaskHandle τ} (hold : g.tasks.lookup id = some old) (state : TaskState) :
    (g.putState id old state).view =
      let w := (g.view.revise {id} (.setState state)).touch {id}
      let w := if old.node.isSatisfied = (old.node.setState state).isSatisfied then w
        else w.touch (g.view.requirers id)
      if old.node.state.isActive = state.isActive then w
      else (w.revise (g.view.deps id) (.count false true (if state.isActive then 1 else -1))).touch
        (g.view.deps id) := by
  have hput : (g.enterState id old state).view = g.view.revise {id} (.setState state) := by
    unfold enterState
    rw [Finmap.insert_eq_modify g.tasks (f := fun t => t.setState state) hold rfl]
    exact view_modifyTask g id _ fun _ => rfl
  have hparents (h : Graph τ) (w : View) (hw : h.view = w) :
      (if old.isSatisfied = (old.setState state).isSatisfied then h else h.enqueueParents id).view =
        if old.node.isSatisfied = (old.node.setState state).isSatisfied then w
        else w.touch (w.requirers id) := by
    subst hw
    by_cases hsat : old.isSatisfied = (old.setState state).isSatisfied
    · rw [if_pos hsat]
      exact (if_pos hsat).symm
    · rw [if_neg hsat, enqueueParents, view_enqueueAll]
      exact (if_neg hsat).symm
  have hdeps (h : Graph τ) (w : View) (hw : h.view = w) :
      (if old.state.isActive = state.isActive then h
        else h.forEach id (h.edges id) (countActive state.isActive)).view =
        if old.node.state.isActive = state.isActive then w
        else (w.revise (w.deps id) (.count false true (if state.isActive then 1 else -1))).touch
          (w.deps id) := by
    subst hw
    by_cases hact : old.state.isActive = state.isActive
    · rw [if_pos hact]
      exact (if_pos hact).symm
    · rw [if_neg hact, view_countActive]
      exact (if_neg hact).symm
  unfold putState
  have hd := hdeps _ _ (hparents _ _ ((view_enqueue _ id).trans (congrArg (View.touch · {id}) hput)))
  refine hd.trans ?_
  split <;> split <;> rfl

theorem view_setState [Task τ] (state : TaskState) :
    (g.setState id state).view = g.view.setState id state := by
  unfold setState View.setState
  rw [view_node]
  cases hold : g.tasks.lookup id with
  | none => rfl
  | some old =>
    simp only [Option.map_some]
    by_cases hs : old.state = state
    · rw [if_pos hs, if_pos (show old.node.state = state from hs)]
    · rw [if_neg hs, if_neg (show old.node.state ≠ state from hs),
        (Quiet.notifySubscribers _ _ _ _ _).view, view_note, view_putState g id hold state]

theorem view_popDirty {g' : Graph τ} (h : g.popDirty = some (id, g')) : g'.view = g.view.pop id := by
  unfold popDirty at h
  split at h
  · cases h
  · obtain ⟨rfl, rfl⟩ : _ ∧ _ := by simpa using h
    rfl

theorem computeWanted_view {t : TaskHandle τ} (ht : g.tasks.lookup id = some t) :
    g.computeWanted id = g.view.computeWanted t.node := by
  simp only [computeWanted, View.computeWanted, ht, Option.any_some, Bool.and_assoc]
  rfl

theorem depSupports_view : g.depSupports x = g.view.supports x := by
  simp only [depSupports, View.supports, view_node]
  cases g.tasks.lookup x <;> rfl

theorem computeSupported_view {t : TaskHandle τ} (ht : g.tasks.lookup id = some t) :
    g.computeSupported id = g.view.computeSupported id t.node := by
  simp only [computeSupported, View.computeSupported, ht, depSupports_view]
  rfl

theorem view_recomputeWanted : (g.recomputeWanted id).view = g.view.recomputeWanted id := by
  unfold recomputeWanted View.recomputeWanted
  rw [view_node]
  cases ht : g.tasks.lookup id with
  | none => rfl
  | some t =>
    simp only [Option.map_some]
    rw [computeWanted_view g id ht]
    by_cases hw : t.wanted = g.view.computeWanted t.node
    · rw [if_pos hw, if_pos (show t.node.wanted = _ from hw)]
    · rw [if_neg hw, if_neg (show t.node.wanted ≠ _ from hw), view_countWanted]
      have hm (w : Bool) : ({ g.modifyTask id (fun t => { t with wanted := w }) with
          stateChanged := true } : Graph τ).view = g.view.revise {id} (.setWanted w) :=
        view_modifyTask g id _ fun _ => rfl
      rw [hm]
      rfl

theorem view_recomputeSupported : (g.recomputeSupported id).view = g.view.recomputeSupported id := by
  unfold recomputeSupported View.recomputeSupported
  rw [view_node]
  cases ht : g.tasks.lookup id with
  | none => rfl
  | some t =>
    simp only [Option.map_some]
    rw [computeSupported_view g id ht]
    by_cases hs : t.supported = g.view.computeSupported id t.node
    · rw [if_pos hs, if_pos (show t.node.supported = _ from hs)]
    · rw [if_neg hs, if_neg (show t.node.supported ≠ _ from hs), enqueueParents, view_enqueueAll,
        view_modifyTask g id _ (F := .setSupported (g.view.computeSupported id t.node)) fun _ => rfl]
      rfl

theorem view_recomputeCaches (hid : id ∈ g.tasks) :
    (g.recomputeCaches id).view = g.view.recompute id := by
  unfold recomputeCaches View.recompute
  rw [if_pos hid, view_note, view_recomputeSupported, view_recomputeWanted]

theorem view_beginQuit (h : g.quitting = false) : g.beginQuit.1.view = g.view.quit := by
  unfold beginQuit View.quit
  rw [if_neg (by simp [h])]
  exact view_enqueueAll _ _ _

section remove

theorem view_dropRequirer (wasWanted wasActive : Bool) (dep : TaskId) :
    (dropRequirer id wasWanted wasActive g dep).view =
      g.view.dropRequirers id wasWanted wasActive {dep} := by
  unfold dropRequirer View.dropRequirers
  rw [view_enqueue]
  congr 1
  refine (view_modifyTask _ dep _ (F := .count wasWanted wasActive (-1)) fun t => ?_).trans ?_
  · simp only [Node.count, TaskHandle.node, sub_eq_add_neg]
  · congr 1
    refine View.ext rfl rfl rfl rfl ?_ rfl
    funext x
    by_cases hx : x = dep
    · subst hx; simp [view]
    · simp [view, hx]

theorem view_dropRequirers (wasWanted wasActive : Bool) (s : Finset TaskId) :
    (g.forEach id s (dropRequirer id wasWanted wasActive)).view =
      g.view.dropRequirers id wasWanted wasActive s := by
  refine view_walked g (fun v s => v.dropRequirers id wasWanted wasActive s) id s ?_ ?_
    fun g x => view_dropRequirer g id wasWanted wasActive x
  · intro v
    simp [View.dropRequirers]
  · intro v s t hst
    have hdis : ∀ x, x ∈ s → x ∉ t := fun x hs ht => Finset.disjoint_left.mp hst hs ht
    unfold View.dropRequirers
    refine View.ext rfl rfl (funext fun x => ?_) rfl (funext fun x => ?_) (Finset.ext fun x => ?_)
    · by_cases hs : x ∈ s
      · simp [hs, hdis x hs]
      · simp [hs]
    · by_cases hs : x ∈ s
      · simp [hs, hdis x hs]
      · simp [hs]
    · simp only [View.mem_touch_dirty, View.revise_dirty, View.revise_ids, View.touch_ids,
        Finset.mem_union]
      tauto

theorem view_dropDeps (s : Finset TaskId) :
    (g.forEach id s (dropDep id)).view = g.view.dropDeps id s := by
  refine view_walked g (fun v s => v.dropDeps id s) id s ?_ ?_ fun g x => ?_
  · intro v
    simp [View.dropDeps]
  · intro v s t hst
    have hdis : ∀ x, x ∈ s → x ∉ t := fun x hs ht => Finset.disjoint_left.mp hst hs ht
    unfold View.dropDeps
    refine View.ext rfl rfl rfl (funext fun x => ?_) rfl (Finset.ext fun x => ?_)
    · by_cases hs : x ∈ s
      · simp [hs, hdis x hs]
      · simp [hs]
    · simp only [View.mem_touch_dirty, View.touch_ids, Finset.mem_union]
      tauto
  · unfold dropDep View.dropDeps
    rw [view_enqueue]
    congr 1
    refine View.ext rfl rfl rfl (funext fun y => ?_) rfl rfl
    by_cases hy : y = x
    · subst hy; simp [view]
    · simp [view, hy]

theorem view_dropHandle (handle : TaskHandle τ) : (g.dropHandle id handle).view =
    { g.view with
      ids := g.view.ids.erase id
      node := Function.update g.view.node id none
      dirty := g.view.dirty.erase id } := by
  have hkeys : (g.tasks.erase id).keys = g.tasks.keys.erase id := by
    ext x
    rw [Finset.mem_erase, Finmap.mem_keys_iff, Finmap.mem_keys_iff, Finmap.lookup_erase_ite]
    by_cases hx : x = id <;> simp [hx]
  have hnode : (fun x => ((g.tasks.erase id).lookup x).map TaskHandle.node) =
      Function.update g.view.node id none := by
    funext x
    rw [Finmap.lookup_erase_ite]
    by_cases hx : x = id
    · subst hx; simp
    · simp [hx, view]
  unfold dropHandle unindexTags
  cases handle.path <;> exact View.ext rfl hkeys hnode rfl rfl rfl

theorem view_dropEdges (wasWanted wasActive : Bool) : (g.dropEdges id wasWanted wasActive).view =
    let w := ({ g.view with deps := Function.update g.view.deps id ∅ } : View).dropRequirers id
      wasWanted wasActive (g.view.deps id)
    ({ w with requirers := Function.update w.requirers id ∅ } : View).dropDeps id
      (g.view.requirers id) := by
  have hw := view_dropRequirers { g with edges := Function.update g.edges id ∅ } id wasWanted wasActive
    (g.edges id)
  unfold dropEdges
  simp only
  rw [view_dropDeps]
  exact congrArg (fun w : View =>
    ({ w with requirers := Function.update w.requirers id ∅ } : View).dropDeps id (g.redges id)) hw

theorem removeTask_eq (v : View) (n : Node) (hn : v.node id = some n) : v.removeTask id =
    let u : View := { v with
      ids := v.ids.erase id
      node := Function.update v.node id none
      dirty := v.dirty.erase id }
    let w := ({ u with deps := Function.update u.deps id ∅ } : View).dropRequirers id n.wanted
      n.state.isActive (u.deps id)
    ({ w with requirers := Function.update w.requirers id ∅ } : View).dropDeps id (u.requirers id) := by
  unfold View.removeTask View.dropRequirers View.dropDeps
  simp only [hn]
  refine View.ext rfl rfl (funext fun x => ?_) (funext fun x => ?_) (funext fun x => ?_)
    (Finset.ext fun x => ?_)
  · by_cases hx : x = id
    · subst hx; simp
    · simp [hx]
  · by_cases hx : x = id
    · subst hx; simp
    · simp [hx]
  · by_cases hx : x = id
    · subst hx; simp
    · simp [hx]
  · simp only [View.mem_touch_dirty, View.revise_dirty, View.revise_ids, View.touch_ids,
      Finset.mem_union]
    tauto

theorem view_removeTask [Task τ] : (g.removeTask id).view = g.view.removeTask id := by
  unfold removeTask
  cases ht : g.tasks.lookup id with
  | none =>
    unfold View.removeTask
    rw [view_node, ht]
    rfl
  | some handle =>
    rw [removeTask_eq id g.view handle.node (by rw [view_node, ht]; rfl)]
    simp only
    rw [(Quiet.notifySubscribers _ _ _ _ _).view, view_note]
    refine (view_dropEdges _ id handle.wanted handle.state.isActive).trans ?_
    rw [view_dropHandle]
    rfl

end remove

end Dekit.Graph
