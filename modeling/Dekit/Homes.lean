import Dekit.Kernel
import Dekit.Lib.Fold

namespace Dekit

def TaskHandle.home {τ : Type} (t : TaskHandle τ) : TaskSpaceId × Option TaskPath := (t.space, t.path)

namespace Graph

variable {τ : Type} {g g' g'' : Graph τ} {id : TaskId}

/-- Every task and folder stays where it is named. -/
structure Stays (g g' : Graph τ) : Prop where
  paths : ∀ s, (g'.ns.space s).paths = (g.ns.space s).paths
  folders : g'.folders = g.folders
  homes : ∀ x, (g'.tasks.lookup x).map TaskHandle.home = (g.tasks.lookup x).map TaskHandle.home

namespace Stays

theorem of_eq (hn : g'.ns = g.ns) (hf : g'.folders = g.folders) (ht : g'.tasks = g.tasks) : Stays g g' :=
  ⟨fun s => by rw [hn], hf, fun x => by rw [ht]⟩

theorem refl (g : Graph τ) : Stays g g := of_eq rfl rfl rfl

theorem trans (h : Stays g g') (h' : Stays g' g'') : Stays g g'' :=
  ⟨fun s => (h'.paths s).trans (h.paths s), h'.folders.trans h.folders, fun x => (h'.homes x).trans (h.homes x)⟩

theorem modified {F : TaskHandle τ → TaskHandle τ} (hn : g'.ns = g.ns) (hf : g'.folders = g.folders)
    (ht : g'.tasks = g.tasks.modify id F) (hF : ∀ t, (F t).home = t.home) : Stays g g' := by
  refine ⟨fun s => by rw [hn], hf, fun x => ?_⟩
  rw [ht, Finmap.lookup_modify]
  split
  · rw [Option.map_map]
    exact congrArg (fun f => (g.tasks.lookup x).map f) (funext hF)
  · rfl

theorem modifyTask (g : Graph τ) (id : TaskId) {F : TaskHandle τ → TaskHandle τ} (hF : ∀ t, (F t).home = t.home) :
    Stays g (g.modifyTask id F) := modified rfl rfl rfl hF

theorem inserted {t t' : TaskHandle τ} (hn : g'.ns = g.ns) (hf : g'.folders = g.folders)
    (hold : g.tasks.lookup id = some t) (ht : g'.tasks = g.tasks.insert id t') (hF : t'.home = t.home) :
    Stays g g' := by
  refine ⟨fun s => by rw [hn], hf, fun x => ?_⟩
  rw [ht, Finmap.lookup_insert_ite]
  split
  · rename_i hx
    rw [hx, hold, Option.map_some, Option.map_some, hF]
  · rfl

theorem foldl {β : Type} {body : Graph τ → β → Graph τ} {l : List β} (h : ∀ g, ∀ x ∈ l, Stays g (body g x))
    (g : Graph τ) : Stays g (l.foldl body g) :=
  Fold.foldl_rel refl (fun _ _ _ => trans) h g

theorem forEach (owner : TaskId) (s : Finset TaskId) {body : Graph τ → TaskId → Graph τ}
    (h : ∀ g x, Stays g (body g x)) : Stays g (g.forEach owner s body) := by
  have htick : Stays g { g with tick := g.tick + 1 } := of_eq rfl rfl rfl
  exact htick.trans (foldl (fun g x _ => h g x) _)

theorem ite {p : Prop} [Decidable p] (h : Stays g g') (h' : Stays g g'') : Stays g (if p then g' else g'') := by
  split
  · exact h
  · exact h'

theorem enqueue (g : Graph τ) (id : TaskId) : Stays g (g.enqueue id) := by
  unfold Graph.enqueue
  exact ite (of_eq rfl rfl rfl) (refl g)

theorem enqueueParents (g : Graph τ) (id : TaskId) : Stays g (g.enqueueParents id) := forEach _ _ enqueue

theorem note (g : Graph τ) (e : Happening) : Stays g (g.note e) := of_eq rfl rfl rfl

theorem answerIf (g : Graph τ) (ack : Option ReplyId) (a : Answer) : Stays g (g.answerIf ack a) := by
  cases ack <;> exact of_eq rfl rfl rfl

theorem queueEffects (g : Graph τ) (id : TaskId) (fx : List TaskEffect) : Stays g (g.queueEffects id fx) :=
  of_eq rfl rfl rfl

theorem setTask (g : Graph τ) (id : TaskId) (task : τ) : Stays g (g.setTask id task) :=
  modifyTask g id fun _ => rfl

theorem scheduleStateTimeout (g : Graph τ) (id : TaskId) (delay : Duration) :
    Stays g (g.scheduleStateTimeout id delay) := by
  unfold Graph.scheduleStateTimeout
  exact ite (modified rfl rfl rfl fun _ => rfl) (refl g)

theorem countActive (now : Bool) (g : Graph τ) (dep : TaskId) : Stays g (countActive now g dep) := by
  unfold Graph.countActive
  refine trans ?_ (enqueue _ dep)
  exact modifyTask g dep fun _ => rfl

theorem countWanted (now : Bool) (g : Graph τ) (dep : TaskId) : Stays g (countWanted now g dep) := by
  unfold Graph.countWanted
  refine trans ?_ (enqueue _ dep)
  exact modifyTask g dep fun _ => rfl

theorem putState {t : TaskHandle τ} (ht : g.tasks.lookup id = some t) (state : TaskState) :
    Stays g (g.putState id t state) := by
  unfold Graph.putState
  simp only
  have hput : Stays g (g.enterState id t state) := inserted rfl rfl ht rfl rfl
  have hqueued := hput.trans (enqueue _ id)
  have hparents : Stays g (if t.isSatisfied = (t.setState state).isSatisfied then _ else _) :=
    ite hqueued (hqueued.trans (enqueueParents _ id))
  exact ite hparents (hparents.trans (forEach _ _ (countActive _)))

theorem addEdge (g : Graph τ) (src dst : TaskId) : Stays g (g.addEdge src dst) := by
  unfold Graph.addEdge
  refine ite (refl g) (ite (refl g) ?_)
  simp only
  refine trans ?_ (trans (trans (enqueue _ dst) (enqueue _ src)) (note _ _))
  exact ite (refl g) (modified rfl rfl rfl fun _ => rfl)

theorem removeEdge (g : Graph τ) (src dst : TaskId) : Stays g (g.removeEdge src dst) := by
  unfold Graph.removeEdge
  simp only
  refine trans ?_ (trans (trans (enqueue _ dst) (enqueue _ src)) (note _ _))
  exact ite (modified rfl rfl rfl fun _ => rfl) (refl g)

theorem setVetoed (g : Graph τ) (id : TaskId) (value : Bool) : Stays g (g.setVetoed id value) := by
  unfold Graph.setVetoed
  split
  · exact refl g
  · refine ite (refl g) (trans ?_ (trans (enqueue _ id) (note _ _)))
    exact modifyTask g id fun _ => rfl

theorem setTags (g : Graph τ) (id : TaskId) (tags : List String) : Stays g (g.setTags id tags) := by
  unfold Graph.setTags
  split
  · exact refl g
  · exact modified rfl rfl rfl fun _ => rfl

theorem scheduleAny (g : Graph τ) (id : TaskId) (timer : Option Duration) : Stays g (g.scheduleAny id timer) := by
  cases timer with
  | none => exact refl g
  | some delay => exact scheduleStateTimeout g id delay

theorem setPin (g : Graph τ) (id : TaskId) (pinned : Bool) : Stays g (g.setPin id pinned) := by
  unfold Graph.setPin
  have hs : Stays g (g.modifyTask id fun t => { t with savedPin := false }) := modifyTask g id fun _ => rfl
  exact ite (hs.trans (addEdge _ _ _)) (hs.trans (removeEdge _ _ _))

theorem recomputeWanted (g : Graph τ) (id : TaskId) : Stays g (g.recomputeWanted id) := by
  unfold Graph.recomputeWanted
  split
  · exact refl g
  · refine ite (refl g) (trans ?_ (forEach _ _ (countWanted _)))
    exact modified rfl rfl rfl fun _ => rfl

theorem recomputeSupported (g : Graph τ) (id : TaskId) : Stays g (g.recomputeSupported id) := by
  unfold Graph.recomputeSupported
  split
  · exact refl g
  · refine ite (refl g) (trans ?_ (enqueueParents _ _))
    exact modifyTask g id fun _ => rfl

theorem recomputeCaches (g : Graph τ) (id : TaskId) : Stays g (g.recomputeCaches id) := by
  unfold Graph.recomputeCaches
  exact ite (((recomputeWanted g id).trans (recomputeSupported _ id)).trans (note _ _)) (refl g)

theorem popDirty (h : g.popDirty = some (id, g')) : Stays g g' := by
  unfold Graph.popDirty at h
  split at h
  · cases h
  · obtain ⟨-, rfl⟩ := Prod.mk.inj (Option.some.inj h)
    exact of_eq rfl rfl rfl

theorem propagate (fuel : ℕ) (g : Graph τ) (toDrive : List TaskId) : Stays g (Graph.propagate fuel g toDrive).1 := by
  induction fuel generalizing g toDrive with
  | zero => exact refl g
  | succ fuel ih =>
    unfold Graph.propagate
    cases h : g.popDirty with
    | none => exact refl g
    | some r => exact ((popDirty h).trans (recomputeCaches _ _)).trans (ih _ _)

theorem beginQuit (g : Graph τ) : Stays g g.beginQuit.1 := by
  unfold Graph.beginQuit
  split
  · exact refl g
  · have hquit : Stays g { g with quitting := true } := of_eq rfl rfl rfl
    exact hquit.trans (forEach _ _ enqueue)

section commands

variable [Task τ]

theorem deliverTo (source : TaskId) (notify : TaskNotify) (g : Graph τ) (listener : TaskId) :
    Stays g (deliverTo source notify g listener) := by
  unfold Graph.deliverTo
  split
  · exact (setTask g _ _).trans (queueEffects _ _ _)
  · exact refl g

theorem deliver (g : Graph τ) (source : TaskId) (notify : TaskNotify) (targets : Finset TaskId) :
    Stays g (g.deliver source notify targets) := forEach _ _ (deliverTo source notify)

theorem notifySubscribers (g : Graph τ) (source : TaskId) (space : TaskSpaceId) (path : Option TaskPath)
    (notify : TaskNotify) : Stays g (g.notifySubscribers source space path notify) := deliver _ _ _ _

theorem notifyChanged (g : Graph τ) (id : TaskId) : Stays g (g.notifyChanged id) := by
  unfold Graph.notifyChanged
  split
  · exact notifySubscribers _ _ _ _ _
  · exact refl g

theorem sendCmd (g : Graph τ) (id : TaskId) (cmd : TaskCmd) : Stays g (g.sendCmd id cmd) := by
  have hnote : Stays g (g.noteSent id cmd) := by
    unfold noteSent
    split
    · exact note g _
    · exact refl g
  unfold Graph.sendCmd
  simp only
  split
  · exact (hnote.trans (setTask _ _ _)).trans (queueEffects _ _ _)
  · exact hnote

theorem setState (g : Graph τ) (id : TaskId) (state : TaskState) : Stays g (g.setState id state) := by
  unfold Graph.setState
  cases ht : g.tasks.lookup id with
  | none => exact refl g
  | some old => exact ite (refl g) (((putState ht state).trans (note _ _)).trans (notifySubscribers _ _ _ _ _))

theorem stopTask (g : Graph τ) (id : TaskId) (startFailed : Bool) : Stays g (g.stopTask id startFailed) := by
  unfold Graph.stopTask
  have hs := setState g id .stopping
  simp only
  split
  · exact hs
  · have hf : Stays (g.setState id .stopping) ((g.setState id .stopping).modifyTask id fun t =>
        { t with startFailed }) := modifyTask _ id fun _ => rfl
    exact ((hs.trans hf).trans (scheduleStateTimeout _ _ _)).trans (sendCmd _ _ _)

theorem hardKill (g : Graph τ) (id : TaskId) : Stays g (g.hardKill id) := by
  unfold Graph.hardKill
  have hk : Stays g (g.modifyTask id fun t => { t with killed := true, epoch := t.epoch + 1 }) :=
    modifyTask g id fun _ => rfl
  exact (hk.trans (sendCmd _ _ _)).trans (scheduleStateTimeout _ _ _)

theorem landExit (g : Graph τ) (id : TaskId) (info : ExitInfo) : Stays g (g.landExit id info) := by
  unfold Graph.landExit
  split
  · exact refl g
  · split
    · have ha : Stays g (g.modifyTask id fun t => { t with attempts := t.attempts + 1 }) := modifyTask g id fun _ => rfl
      exact (ha.trans (setState _ _ _)).trans (scheduleStateTimeout _ _ _)
    · exact setState g id _

theorem landStop (g : Graph τ) (id : TaskId) (info : ExitInfo) : Stays g (g.landStop id info) := by
  unfold Graph.landStop
  split
  · exact refl g
  · exact ite (landExit g id _) (setState g id _)

theorem giveUp (g : Graph τ) (id : TaskId) (startFailed : Bool) : Stays g (g.giveUp id startFailed) := by
  unfold Graph.giveUp
  have hl := landStop g id .error
  simp only
  split
  · exact hl
  · refine ite (hl.trans ?_) hl
    exact modified rfl rfl rfl fun _ => rfl

theorem onStateTimeout (g : Graph τ) (id : TaskId) (epoch : ℕ) : Stays g (g.onStateTimeout id epoch) := by
  unfold Graph.onStateTimeout
  split
  · exact refl g
  · refine ite (refl g) ?_
    have hc : Stays g { g.modifyTask id (fun t => { t with deadline := none }) with
        timerChanges := g.timerChanges ++ [id] } := modified rfl rfl rfl fun _ => rfl
    simp only
    split
    · exact hc.trans (setState _ _ _)
    · exact ite (hc.trans (giveUp _ _ _)) (hc.trans (hardKill _ _))
    · exact ite (hc.trans (stopTask _ _ _)) hc
    all_goals exact hc

theorem onTaskStarted (g : Graph τ) (id : TaskId) : Stays g (g.onTaskStarted id) := by
  unfold Graph.onTaskStarted
  split
  · exact refl g
  · split
    · simp only
      split
      · exact (setState g id _).trans (scheduleStateTimeout _ _ _)
      · exact setState g id _
    · exact refl g

theorem onTaskReady (g : Graph τ) (id : TaskId) : Stays g (g.onTaskReady id) := by
  unfold Graph.onTaskReady
  split
  · exact refl g
  · split
    · exact setState g id _
    · exact refl g

theorem onTaskStopped (g : Graph τ) (id : TaskId) (info : ExitInfo) : Stays g (g.onTaskStopped id info) := by
  unfold Graph.onTaskStopped
  split
  · exact refl g
  · rename_i t _
    have hexit : Stays g ((if g.stayedUp t then g.modifyTask id (fun t => { t with attempts := 0 }) else g).landExit
        id info) := by
      refine trans (ite ?_ (refl g)) (landExit _ _ _)
      exact modifyTask g id fun _ => rfl
    split
    · exact landStop g id info
    all_goals first | exact hexit | exact refl g

theorem onEffect (g : Graph τ) (id : TaskId) (effect : TaskEffect) : Stays g (g.onEffect id effect) := by
  cases effect with
  | started => exact onTaskStarted g id
  | ready => exact onTaskReady g id
  | stopped info => exact onTaskStopped g id info

theorem startTask (g : Graph τ) (id : TaskId) : Stays g (g.startTask id) := by
  unfold Graph.startTask
  cases ht : g.tasks.lookup id with
  | none => exact refl g
  | some old =>
    simp only
    have hb : (old.begun g.now).home = old.home := by
      unfold TaskHandle.begun
      cases old.next <;> rfl
    have hput : Stays g { g with tasks := g.tasks.insert id (old.begun g.now) } := inserted rfl rfl ht rfl hb
    exact ((ite hput (hput.trans (notifyChanged _ _))).trans (setState _ _ _)).trans (sendCmd _ _ _)

theorem driveTask (g : Graph τ) (id : TaskId) : Stays g (g.driveTask id) := by
  unfold Graph.driveTask
  split
  · exact refl g
  · split
    · split
      · exact startTask g id
      · exact refl g
    · have hstop : Stays g (if g.hasActiveDependent id then g else (g.stopTask id false).note (.drivenStop id)) :=
        ite (refl g) ((stopTask g id false).trans (note _ _))
      split
      all_goals first | exact hstop | exact setState g id _ | exact refl g

theorem settleStep (h : g.settleStep = some g') : Stays g g' := by
  unfold Graph.settleStep at h
  split at h
  · obtain rfl := Option.some.inj h
    rename_i id effect rest _
    have hpop : Stays g { g with pendingEffects := rest } := of_eq rfl rfl rfl
    exact hpop.trans (onEffect _ id effect)
  · split at h
    · cases h
    · obtain rfl := Option.some.inj h
      exact (propagate g.propagateFuel g []).trans (foldl (fun g x _ => driveTask g x) _)

theorem settle (g : Graph τ) : Stays g g.settle := by
  have hsteps (n : ℕ) (g : Graph τ) : Stays g (settleSteps n g) := by
    induction n generalizing g with
    | zero => exact refl g
    | succ n ih =>
      unfold settleSteps
      cases h : g.settleStep with
      | none => exact refl g
      | some g' => exact (settleStep h).trans (ih g')
  exact hsteps _ g

theorem demandOne (rerunDone : Bool) (target : TaskId) (g : Graph τ) (id : TaskId) :
    Stays g (Graph.demandOne rerunDone target g id) := by
  unfold Graph.demandOne
  split
  · exact refl g
  · rename_i t _
    have hexcuse : Stays g (if t.startFailed then
        { g.modifyTask id (fun t => { t with startFailed := false }) with stateChanged := true } else g) :=
      ite (modified rfl rfl rfl fun _ => rfl) (refl g)
    have hveto := hexcuse.trans (setVetoed _ id false)
    exact ite (hveto.trans (setState _ _ _)) hveto

theorem demand (g : Graph τ) (id : TaskId) (rerunDone : Bool) : Stays g (g.demand id rerunDone) :=
  foldl (fun g x _ => demandOne rerunDone id g x) g

theorem stopIfActive (g : Graph τ) (id : TaskId) : Stays g (g.stopIfActive id) := by
  unfold Graph.stopIfActive
  split
  · exact refl g
  · split
    all_goals first | exact stopTask g id false | exact refl g

theorem cmdStart (g : Graph τ) (id : TaskId) : Stays g (g.cmdStart id) := (setPin g id true).trans (demand _ id true)

theorem cmdUp (g : Graph τ) (id : TaskId) : Stays g (g.cmdUp id) := by
  unfold Graph.cmdUp
  exact (setPin g id true).trans (demand _ id false)

theorem cmdStop (g : Graph τ) (id : TaskId) : Stays g (g.cmdStop id) := by
  unfold Graph.cmdStop
  exact (setPin g id false).trans (stopIfActive _ id)

omit [Task τ] in
theorem cmdVeto (g : Graph τ) (id : TaskId) : Stays g (g.cmdVeto id) := by
  unfold Graph.cmdVeto
  exact (setPin g id false).trans (setVetoed _ id true)

theorem cmdKill (g : Graph τ) (id : TaskId) : Stays g (g.cmdKill id) := by
  unfold Graph.cmdKill
  have hp := setPin g id false
  simp only
  generalize g.setPin id false = g' at hp ⊢
  cases g'.tasks.lookup id with
  | none => exact hp
  | some t =>
    simp only
    cases t.state with
    | starting | running | ready => exact (hp.trans (setState g' id .stopping)).trans (hardKill _ id)
    | stopping => exact hp.trans (hardKill g' id)
    | idle | backoff | done | exited => exact hp

theorem cmdRestart (g : Graph τ) (id : TaskId) : Stays g (g.cmdRestart id) := (cmdStart g id).trans (stopIfActive _ id)

theorem actOne (verb : Verb) (g : Graph τ) (id : TaskId) : Stays g (Graph.actOne verb g id) := by
  cases verb with
  | up => exact cmdUp g id
  | start => exact cmdStart g id
  | restart => exact cmdRestart g id
  | forceRestart => exact (cmdKill g id).trans (cmdStart _ id)
  | stop => exact cmdStop g id
  | kill => exact cmdKill g id
  | veto => exact cmdVeto g id

theorem act (g : Graph τ) (verb : Verb) (sender : TaskId) (selector : TaskSelector) :
    Stays g (g.act verb sender selector).1 := foldl (fun g x _ => actOne verb g x) g

theorem setTaskLabel (g : Graph τ) (id : TaskId) (label : Option String) : Stays g (g.setTaskLabel id label) := by
  unfold Graph.setTaskLabel
  split
  · exact refl g
  · refine ite (refl g) (trans ?_ (notifyChanged _ _))
    exact modified rfl rfl rfl fun _ => rfl

theorem setOrigin (g : Graph τ) (id : TaskId) (origin : Option Source) : Stays g (g.setOrigin id origin) := by
  unfold Graph.setOrigin
  split
  · exact refl g
  · rename_i t _
    have ho : Stays g (g.modifyTask id fun t => { t with origin }) := modifyTask g id fun _ => rfl
    exact ite (refl g) ((ho.trans (setTags _ _ _)).trans (notifyChanged _ _))

omit [Task τ] in
theorem redefine (g : Graph τ) (id : TaskId) (update : TaskUpdate) : Stays g (g.redefine id update) := by
  unfold Graph.redefine
  refine modified rfl rfl rfl fun t => ?_
  by_cases hidle : t.state = .idle
  · simp only [hidle, if_true]
    rfl
  · simp only [hidle, if_false]
    rfl

omit [Task τ] in
theorem addEdges (id : TaskId) (deps : List TaskId) (g : Graph τ) :
    Stays g (deps.foldl (fun g dep => g.addEdge id dep) g) := foldl (fun g dep _ => addEdge g id dep) g

omit [Task τ] in
theorem setDeps (g : Graph τ) (id : TaskId) (deps : List TaskId) : Stays g (g.setDeps id deps) :=
  (forEach _ _ fun g dep => removeEdge g id dep).trans (addEdges id deps _)

theorem updateTask (g : Graph τ) (id : TaskId) (deps : List TaskId) (update : TaskUpdate) :
    Stays g (g.updateTask id deps update) := by
  unfold Graph.updateTask
  have hu : Stays g (((((g.redefine id update).setTags id update.tags).setDeps id deps).notifyChanged id).enqueue id) :=
    ((((redefine g id update).trans (setTags _ _ _)).trans (setDeps _ _ _)).trans (notifyChanged _ _)).trans
      (enqueue _ _)
  exact ite (ite (hu.trans (cmdRestart _ _)) hu) (refl g)

omit [Task τ] in
theorem setSubs {ns : Namespace} (hn : ∀ s, (ns.space s).paths = (g.ns.space s).paths) : Stays g { g with ns } :=
  ⟨hn, rfl, fun _ => rfl⟩

theorem freeze (g : Graph τ) (reply : FreezeReply) : Stays g (g.freeze reply) := by
  have hone (number : ℕ) (acc : Graph τ × Option TaskId) (id : TaskId) : Stays acc.1 (freezeTask number acc id).1 := by
    unfold freezeTask
    split
    · exact refl _
    · exact (setTask _ _ _).trans (queueEffects _ _ _)
  have hall : Stays g (g.freezeTasks (g.freezes + 1)).1 := by
    have htick : Stays g { g with freezes := g.freezes + 1, tick := g.tick + 1 } := of_eq rfl rfl rfl
    refine htick.trans ?_
    exact Fold.foldl_rel (r := fun a b : Graph τ × Option TaskId => Stays a.1 b.1) (fun a => refl a.1)
      (fun _ _ _ => trans) (fun acc id _ => hone _ acc id) (_, none)
  unfold Graph.freeze
  simp only
  generalize g.freezeTasks (g.freezes + 1) = r at hall ⊢
  obtain ⟨g₁, dead⟩ := r
  refine hall.trans ?_
  cases dead <;> cases reply <;> exact of_eq rfl rfl rfl

theorem thaw (g : Graph τ) : Stays g g.thaw.1 := by
  unfold Graph.thaw
  split
  · exact refl g
  · have hopen : Stays g { g with frozen := none } := of_eq rfl rfl rfl
    exact hopen.trans (forEach _ _ fun g id => sendCmd g id .thaw)

omit [Task τ] in
theorem onTaskFrozen (g : Graph τ) (id : TaskId) (number : ℕ) (snapshot : Snap.TaskKind) :
    Stays g (g.onTaskFrozen id number snapshot) := by
  unfold Graph.onTaskFrozen
  split
  · exact refl g
  · exact ite (refl g) (of_eq rfl rfl rfl)

theorem beginFreeze (g : Graph τ) (reply : ReplyId) : Stays g (g.beginFreeze reply) := by
  unfold Graph.beginFreeze
  exact ite (of_eq rfl rfl rfl) (ite (of_eq rfl rfl rfl) (freeze g _))

end commands

theorem finishFreeze (g : Graph τ) : Stays g g.finishFreezeIfComplete.1 := by
  unfold finishFreezeIfComplete
  split
  · exact refl g
  · split
    · exact refl g
    · split
      · exact refl g
      · split <;> exact of_eq rfl rfl rfl

end Stays

end Graph

end Dekit
