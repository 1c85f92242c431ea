import Dekit.Homes
import Dekit.QuitRuns

namespace Dekit

/-- A handler, and the commands that it has received. -/
structure Recorded (τ : Type) where
  task : τ
  received : List TaskCmd

instance {τ : Type} [Task τ] : Task (Recorded τ) where
  handleCmd t cmd := (⟨(Task.handleCmd t.task cmd).1, t.received ++ [cmd]⟩, (Task.handleCmd t.task cmd).2)

namespace Graph

variable {τ : Type} {g₀ g₁ : Graph τ} {ok : TaskCmd → Prop} {g g' g'' : Graph (Recorded τ)} {id : TaskId}

def Listened (g : Graph τ) (id : TaskId) : Prop :=
  ∃ t path, g.tasks.lookup id = some t ∧ t.path = some path ∧ ∃ x ∈ g.ns.collect ⟨t.space, path⟩, x ∈ g.tasks

def heard (g : Graph (Recorded τ)) (id : TaskId) : Option (List TaskCmd) :=
  (g.tasks.lookup id).map fun t => t.task.received

/-- No task comes or goes, and what each has received since is `ok`. -/
def Hears (ok : TaskCmd → Prop) (g g' : Graph (Recorded τ)) : Prop :=
  ∀ id, ∃ cs, g'.heard id = (g.heard id).map (· ++ cs) ∧ ∀ c ∈ cs, ok c

namespace Hears

theorem of_heard (h : ∀ id, g'.heard id = g.heard id) : Hears ok g g' :=
  fun id => ⟨[], by simp [h], fun c hc => by cases hc⟩

theorem of_eq (ht : g'.tasks = g.tasks) : Hears ok g g' := of_heard fun id => by rw [heard, ht, ← heard]

theorem refl (g : Graph (Recorded τ)) : Hears ok g g := of_eq rfl

theorem trans (h : Hears ok g g') (h' : Hears ok g' g'') : Hears ok g g'' := by
  intro id
  obtain ⟨cs, hcs, hok⟩ := h id
  obtain ⟨cs', hcs', hok'⟩ := h' id
  refine ⟨cs ++ cs', ?_, fun c hc => (List.mem_append.mp hc).elim (hok c) (hok' c)⟩
  rw [hcs', hcs, Option.map_map]
  exact congrArg (fun f => (g.heard id).map f) (funext fun l => List.append_assoc l cs cs')

theorem modified {F : TaskHandle (Recorded τ) → TaskHandle (Recorded τ)} (ht : g'.tasks = g.tasks.modify id F)
    (hF : ∀ t, (F t).task = t.task) : Hears ok g g' := by
  apply of_heard
  intro x
  simp only [heard, ht, Finmap.lookup_modify]
  split
  · rw [Option.map_map]
    exact congrArg (fun f => (g.tasks.lookup x).map f) (funext fun t => congrArg Recorded.received (hF t))
  · rfl

theorem modifyTask (g : Graph (Recorded τ)) (id : TaskId) {F : TaskHandle (Recorded τ) → TaskHandle (Recorded τ)}
    (hF : ∀ t, (F t).task = t.task) : Hears ok g (g.modifyTask id F) := modified rfl hF

theorem inserted {t t' : TaskHandle (Recorded τ)} (hold : g.tasks.lookup id = some t)
    (ht : g'.tasks = g.tasks.insert id t') (hF : t'.task = t.task) : Hears ok g g' := by
  apply of_heard
  intro x
  simp only [heard, ht, Finmap.lookup_insert_ite]
  split
  · rename_i hx
    rw [hx, hold, Option.map_some, Option.map_some, hF]
  · rfl

theorem foldl {β : Type} {body : Graph (Recorded τ) → β → Graph (Recorded τ)} {l : List β}
    (h : ∀ g, ∀ x ∈ l, Hears ok g (body g x)) (g : Graph (Recorded τ)) : Hears ok g (l.foldl body g) :=
  Fold.foldl_rel refl (fun _ _ _ => trans) h g

theorem forEach (owner : TaskId) (s : Finset TaskId) {body : Graph (Recorded τ) → TaskId → Graph (Recorded τ)}
    (h : ∀ g x, Hears ok g (body g x)) : Hears ok g (g.forEach owner s body) := by
  have htick : Hears ok g { g with tick := g.tick + 1 } := of_eq rfl
  exact htick.trans (foldl (fun g x _ => h g x) _)

theorem ite {p : Prop} [Decidable p] (h : Hears ok g g') (h' : Hears ok g g'') :
    Hears ok g (if p then g' else g'') := by
  split
  · exact h
  · exact h'

theorem enqueue (g : Graph (Recorded τ)) (id : TaskId) : Hears ok g (g.enqueue id) := by
  unfold Graph.enqueue
  exact ite (of_eq rfl) (refl g)

theorem enqueueParents (g : Graph (Recorded τ)) (id : TaskId) : Hears ok g (g.enqueueParents id) := forEach _ _ enqueue

theorem note (g : Graph (Recorded τ)) (e : Happening) : Hears ok g (g.note e) := of_eq rfl

theorem queueEffects (g : Graph (Recorded τ)) (id : TaskId) (fx : List TaskEffect) :
    Hears ok g (g.queueEffects id fx) :=
  of_eq rfl

theorem scheduleStateTimeout (g : Graph (Recorded τ)) (id : TaskId) (delay : Duration) :
    Hears ok g (g.scheduleStateTimeout id delay) := by
  unfold Graph.scheduleStateTimeout
  exact ite (modified rfl fun _ => rfl) (refl g)

theorem countActive (now : Bool) (g : Graph (Recorded τ)) (dep : TaskId) : Hears ok g (countActive now g dep) := by
  unfold Graph.countActive
  refine trans ?_ (enqueue _ dep)
  exact modifyTask g dep fun _ => rfl

theorem countWanted (now : Bool) (g : Graph (Recorded τ)) (dep : TaskId) : Hears ok g (countWanted now g dep) := by
  unfold Graph.countWanted
  refine trans ?_ (enqueue _ dep)
  exact modifyTask g dep fun _ => rfl

theorem putState {t : TaskHandle (Recorded τ)} (ht : g.tasks.lookup id = some t) (state : TaskState) :
    Hears ok g (g.putState id t state) := by
  unfold Graph.putState
  simp only
  have hput : Hears ok g (g.enterState id t state) := inserted ht rfl rfl
  have hqueued := hput.trans (enqueue _ id)
  have hparents : Hears ok g (if t.isSatisfied = (t.setState state).isSatisfied then _ else _) :=
    ite hqueued (hqueued.trans (enqueueParents _ id))
  exact ite hparents (hparents.trans (forEach _ _ (countActive _)))

theorem putState_ns (g : Graph τ) (id : TaskId) (t : TaskHandle τ) (state : TaskState) :
    (g.putState id t state).ns = g.ns := by
  have henqueue (g : Graph τ) (x : TaskId) : (g.enqueue x).ns = g.ns := by
    unfold Graph.enqueue
    split <;> rfl
  have hcount (g : Graph τ) (x : TaskId) : (Graph.countActive state.isActive g x).ns = g.ns := henqueue _ x
  have hparents (g : Graph τ) (x : TaskId) : (g.enqueueParents x).ns = g.ns :=
    Fold.foldl_keeps (p := fun g : Graph τ => g.ns) henqueue _ _
  have hall (g : Graph τ) (s : Finset TaskId) : (g.forEach id s (Graph.countActive state.isActive)).ns = g.ns :=
    Fold.foldl_keeps (p := fun g : Graph τ => g.ns) hcount _ _
  unfold Graph.putState
  simp only
  split <;> split <;> simp only [ns_enterState, hall, hparents, henqueue]

theorem recomputeWanted (g : Graph (Recorded τ)) (id : TaskId) : Hears ok g (g.recomputeWanted id) := by
  unfold Graph.recomputeWanted
  split
  · exact refl g
  · refine ite (refl g) (trans ?_ (forEach _ _ (countWanted _)))
    exact modified rfl fun _ => rfl

theorem recomputeSupported (g : Graph (Recorded τ)) (id : TaskId) : Hears ok g (g.recomputeSupported id) := by
  unfold Graph.recomputeSupported
  split
  · exact refl g
  · refine ite (refl g) (trans ?_ (enqueueParents _ _))
    exact modifyTask g id fun _ => rfl

theorem recomputeCaches (g : Graph (Recorded τ)) (id : TaskId) : Hears ok g (g.recomputeCaches id) := by
  unfold Graph.recomputeCaches
  exact ite (((recomputeWanted g id).trans (recomputeSupported _ id)).trans (note _ _)) (refl g)

theorem popDirty (h : g.popDirty = some (id, g')) : Hears ok g g' := by
  unfold Graph.popDirty at h
  split at h
  · cases h
  · obtain ⟨-, rfl⟩ := Prod.mk.inj (Option.some.inj h)
    exact of_eq rfl

theorem propagate (fuel : ℕ) (g : Graph (Recorded τ)) (toDrive : List TaskId) :
    Hears ok g (Graph.propagate fuel g toDrive).1 := by
  induction fuel generalizing g toDrive with
  | zero => exact refl g
  | succ fuel ih =>
    unfold Graph.propagate
    cases h : g.popDirty with
    | none => exact refl g
    | some r => exact ((popDirty h).trans (recomputeCaches _ _)).trans (ih _ _)

theorem beginQuit (g : Graph (Recorded τ)) : Hears ok g g.beginQuit.1 := by
  unfold Graph.beginQuit
  split
  · exact refl g
  · have hquit : Hears ok g { g with quitting := true } := of_eq rfl
    exact hquit.trans (forEach _ _ enqueue)

theorem finishFreeze (g : Graph (Recorded τ)) : Hears ok g g.finishFreezeIfComplete.1 := by
  have hf := finishFreeze_cases g
  generalize g.finishFreezeIfComplete = r at hf ⊢
  cases hf with
  | waits => exact refl g
  | answers | saves => exact of_eq rfl

section commands

variable [Task τ]

theorem heard_handled {t : TaskHandle (Recorded τ)} (ht : g.tasks.lookup id = some t) (cmd : TaskCmd) (x : TaskId) :
    ((g.setTask id (Task.handleCmd t.task cmd).1).queueEffects id (Task.handleCmd t.task cmd).2).heard x =
      (g.heard x).map (· ++ if x = id then [cmd] else []) := by
  simp only [heard, Graph.queueEffects, Graph.setTask, Graph.modifyTask, Finmap.lookup_modify]
  by_cases he : x = id
  · subst he
    simp [ht, Task.handleCmd]
  · simp [he, Function.comp_def]

theorem handled {t : TaskHandle (Recorded τ)} (ht : g.tasks.lookup id = some t) {cmd : TaskCmd} (hok : ok cmd) :
    Hears ok g ((g.setTask id (Task.handleCmd t.task cmd).1).queueEffects id (Task.handleCmd t.task cmd).2) := by
  intro x
  refine ⟨if x = id then [cmd] else [], heard_handled ht cmd x, fun c hc => ?_⟩
  split at hc
  · rwa [List.mem_singleton.mp hc]
  · cases hc

theorem sendCmd (g : Graph (Recorded τ)) (id : TaskId) {cmd : TaskCmd} (hok : ok cmd) :
    Hears ok g (g.sendCmd id cmd) := by
  have hnote : Hears ok g (g.noteSent id cmd) := by
    unfold noteSent
    split
    · exact note g _
    · exact refl g
  unfold Graph.sendCmd
  simp only
  split
  · rename_i t ht
    exact hnote.trans (handled ht hok)
  · exact hnote

theorem deliver (g : Graph (Recorded τ)) (source : TaskId) {notify : TaskNotify} {targets : Finset TaskId}
    (hok : (∃ x ∈ targets, x ∈ g.tasks) → ok (.msg (.notification source notify))) :
    Hears ok g (g.deliver source notify targets) := by
  by_cases hnone : ∃ x ∈ targets, x ∈ g.tasks
  · refine forEach _ _ fun g listener => ?_
    unfold deliverTo
    split
    · rename_i t ht
      exact handled ht (hok hnone)
    · exact refl g
  · have hstep : ∀ g' : Graph (Recorded τ), g'.tasks = g.tasks → ∀ x ∈ g.walk source targets,
        (deliverTo source notify g' x).tasks = g.tasks := by
      intro g' hg x hx
      have hx' : x ∈ targets := mem_walk.mp hx
      have hlook : g'.tasks.lookup x = none := by
        rw [hg]
        exact Finmap.lookup_eq_none.mpr fun hmem => hnone ⟨x, hx', hmem⟩
      unfold deliverTo
      rw [hlook]
      exact hg
    exact of_eq (Fold.foldl_invariant (P := fun g' : Graph (Recorded τ) => g'.tasks = g.tasks) hstep rfl)

theorem setState (g : Graph (Recorded τ)) (id : TaskId) (state : TaskState)
    (hok : g.Listened id → ok (.msg (.notification id (.stateChanged state)))) : Hears ok g (g.setState id state) := by
  unfold Graph.setState
  cases ht : g.tasks.lookup id with
  | none => exact refl g
  | some t =>
    have hput : Hears ok g ((g.putState id t state).note .touched) := (putState ht state).trans (note _ _)
    refine ite (refl g) (hput.trans ?_)
    unfold Graph.notifySubscribers
    cases hp : t.path with
    | none => exact deliver _ _ fun ⟨x, hx, _⟩ => by simp at hx
    | some path =>
      refine deliver _ _ fun ⟨x, hx, hmem⟩ => hok ⟨t, path, ht, hp, x, ?_, ?_⟩
      · rw [← putState_ns g id t state]
        exact hx
      · have hhome := (Stays.putState ht state).homes x
        have hsome := congrArg Option.isSome hhome
        rw [Option.isSome_map, Option.isSome_map] at hsome
        rw [← Finmap.lookup_isSome, ← hsome]
        exact Finmap.lookup_isSome.mpr hmem

omit [Task τ] in
theorem listened_modify {F : TaskHandle (Recorded τ) → TaskHandle (Recorded τ)} (hF : ∀ t, (F t).home = t.home)
    (hn : g'.ns = g.ns) (ht : g'.tasks = g.tasks.modify id F) (h : g'.Listened id) : g.Listened id := by
  obtain ⟨t, path, hlook, hp, x, hx, hmem⟩ := h
  rw [ht, Finmap.lookup_modify, if_pos rfl] at hlook
  obtain ⟨t', ht', rfl⟩ := Option.map_eq_some_iff.mp hlook
  have hhome := hF t'
  simp only [TaskHandle.home, Prod.mk.injEq] at hhome
  refine ⟨t', path, ht', hhome.2 ▸ hp, x, ?_, ?_⟩
  · rw [← hn, ← hhome.1]
    exact hx
  · have hmem : x ∈ g'.tasks := hmem
    rw [ht] at hmem
    rw [← Finmap.lookup_isSome] at hmem ⊢
    rw [Finmap.lookup_modify] at hmem
    split at hmem
    · rwa [Option.isSome_map] at hmem
    · exact hmem

def Permits (ok : TaskCmd → Prop) (g : Graph (Recorded τ)) (id : TaskId) : Prop :=
  g.Listened id → ∀ state, ok (.msg (.notification id (.stateChanged state)))

omit [Task τ] in
theorem Permits.modify (h : Permits ok g id) {F : TaskHandle (Recorded τ) → TaskHandle (Recorded τ)}
    (hF : ∀ t, (F t).home = t.home) : Permits ok (g.modifyTask id F) id := by
  have hback : (g.modifyTask id F).Listened id → g.Listened id := listened_modify hF rfl rfl
  exact fun hl => h (hback hl)

theorem landExit (hok : Permits ok g id) (info : ExitInfo) : Hears ok g (g.landExit id info) := by
  unfold Graph.landExit
  split
  · exact refl g
  · split
    · rename_i t _ _ info _
      have hcount : Hears ok g (g.modifyTask id fun t => { t with attempts := t.attempts + 1 }) :=
        modifyTask g id fun _ => rfl
      have hpermits := hok.modify (F := fun t => { t with attempts := t.attempts + 1 }) fun _ => rfl
      exact (hcount.trans (setState _ _ _ fun hl => hpermits hl _)).trans (scheduleStateTimeout _ _ _)
    · exact setState _ _ _ fun hl => hok hl _

theorem landStop (hok : Permits ok g id) (info : ExitInfo) : Hears ok g (g.landStop id info) := by
  unfold Graph.landStop
  split
  · exact refl g
  · exact ite (landExit hok _) (setState _ _ _ fun hl => hok hl _)

theorem onTaskStarted (hok : Permits ok g id) : Hears ok g (g.onTaskStarted id) := by
  unfold Graph.onTaskStarted
  split
  · exact refl g
  · split
    · rename_i t _ _ _
      have hs : Hears ok g (g.setState id t.startedState) := setState _ _ _ fun hl => hok hl _
      simp only
      split
      · exact hs.trans (scheduleStateTimeout _ _ _)
      · exact hs
    · exact refl g

theorem onTaskReady (hok : Permits ok g id) : Hears ok g (g.onTaskReady id) := by
  unfold Graph.onTaskReady
  split
  · exact refl g
  · split
    · exact setState _ _ _ fun hl => hok hl _
    · exact refl g

theorem onTaskStopped (hok : Permits ok g id) (info : ExitInfo) : Hears ok g (g.onTaskStopped id info) := by
  unfold Graph.onTaskStopped
  split
  · exact refl g
  · rename_i t _
    have hstay : Hears ok g (g.modifyTask id fun t => { t with attempts := 0 }) := modifyTask g id fun _ => rfl
    have hland : Hears ok g ((if g.stayedUp t then g.modifyTask id fun t => { t with attempts := 0 } else g).landExit
        id info) := by
      split
      · have hpermits := hok.modify (F := fun t => { t with attempts := 0 }) fun _ => rfl
        exact hstay.trans (landExit hpermits info)
      · exact landExit hok info
    split
    · exact landStop hok info
    all_goals first | exact hland | exact refl g

theorem onEffect (hok : Permits ok g id) (effect : TaskEffect) : Hears ok g (g.onEffect id effect) := by
  cases effect with
  | started => exact onTaskStarted hok
  | ready => exact onTaskReady hok
  | stopped info => exact onTaskStopped hok info

section settle

variable (hall : ∀ cmd, ok cmd)

include hall

theorem stopTask (g : Graph (Recorded τ)) (id : TaskId) (startFailed : Bool) :
    Hears ok g (g.stopTask id startFailed) := by
  unfold Graph.stopTask
  have hs : Hears ok g (g.setState id .stopping) := setState g id _ fun _ => hall _
  simp only
  split
  · exact hs
  · have hf : Hears ok (g.setState id .stopping) ((g.setState id .stopping).modifyTask id fun t =>
        { t with startFailed }) := modifyTask _ id fun _ => rfl
    exact ((hs.trans hf).trans (scheduleStateTimeout _ _ _)).trans (sendCmd _ _ (hall _))

theorem notifyChanged (g : Graph (Recorded τ)) (id : TaskId) : Hears ok g (g.notifyChanged id) := by
  unfold Graph.notifyChanged
  split
  · exact deliver _ _ fun _ => hall _
  · exact refl g

theorem startTask (g : Graph (Recorded τ)) (id : TaskId) : Hears ok g (g.startTask id) := by
  unfold Graph.startTask
  split
  · exact refl g
  · rename_i old hold
    have hbegun : (old.begun g.now).task = old.task := by
      unfold TaskHandle.begun
      split <;> rfl
    have hput : Hears ok g { g with tasks := g.tasks.insert id (old.begun g.now) } := inserted hold rfl hbegun
    simp only
    refine trans ?_ (trans (setState _ _ _ fun _ => hall _) (sendCmd _ _ (hall _)))
    exact ite hput (hput.trans (notifyChanged hall _ _))

theorem driveTask (g : Graph (Recorded τ)) (id : TaskId) : Hears ok g (g.driveTask id) := by
  unfold Graph.driveTask
  split
  · exact refl g
  · split
    · split
      · exact startTask hall g id
      · exact refl g
    · have hstop : Hears ok g ((g.stopTask id false).note (.drivenStop id)) :=
        (stopTask hall g id false).trans (note _ _)
      split
      any_goals exact ite (refl g) hstop
      any_goals exact setState g id _ fun _ => hall _
      all_goals exact refl g

theorem settleStep (h : g.settleStep = some g') : Hears ok g g' := by
  unfold Graph.settleStep at h
  split at h
  · rename_i id effect rest _
    obtain rfl := Option.some.inj h
    have hpop : Hears ok g { g with pendingEffects := rest } := of_eq rfl
    exact hpop.trans (onEffect (fun _ _ => hall _) effect)
  · split at h
    · cases h
    · obtain rfl := Option.some.inj h
      unfold Graph.reconcileRound
      exact (propagate _ g []).trans (foldl (fun g x _ => driveTask hall g x) _)

theorem settle (g : Graph (Recorded τ)) : Hears ok g g.settle := by
  unfold Graph.settle
  generalize g.settleBudget + 1 = n
  induction n generalizing g with
  | zero => exact refl g
  | succ n ih =>
    unfold Graph.settleSteps
    cases h : g.settleStep with
    | none => exact refl g
    | some g' => exact (settleStep hall h).trans (ih g')

end settle

end commands

end Hears

end Graph

end Dekit
