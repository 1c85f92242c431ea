import Dekit.Operation

namespace Dekit.Graph

variable {τ : Type}

theorem Still.beside {g g' : Graph τ} (ht : g'.tasks = g.tasks) (hm : g'.marks = g.marks)
    (hedges : g'.edges = g.edges) (hredges : g'.redges = g.redges) : Still g g' := by
  simp only [marks, Prod.mk.injEq] at hm
  obtain ⟨hframe, hlog, hchanges, hpending, hdirty, hin⟩ := hm
  refine ⟨⟨?_, ?_, hframe, hlog, hdirty, hchanges⟩, hpending⟩
  · have hquit : g'.quitting = g.quitting := congrArg (fun f => f.2.1) hframe
    simp only [view, hquit, hedges, hredges, hin, ht]
  · funext x
    simp only [Graph.clock, ht]

theorem Still.answer {g : Graph τ} (reply : ReplyId) (a : Answer) : Still g (g.answer reply a) :=
  .beside rfl rfl rfl rfl

theorem Still.answerIf {g : Graph τ} (ack : Option ReplyId) (a : Answer) : Still g (g.answerIf ack a) := by
  cases ack with
  | none => exact .refl g
  | some reply => exact .answer reply a

variable [Task τ]

namespace Runs

theorem notifySubscribers (g : Graph τ) (source : TaskId) (space : TaskSpaceId) (path : Option TaskPath)
    (notify : TaskNotify) : Runs 0 g (g.notifySubscribers source space path notify) :=
  of_op (.told _ _ _ _)

theorem notifyChanged (g : Graph τ) (id : TaskId) : Runs 0 g (g.notifyChanged id) := by
  unfold Graph.notifyChanged
  cases g.tasks.lookup id with
  | none => exact refl g
  | some t => exact notifySubscribers _ _ _ _ _

section intent

theorem setPin (g : Graph τ) (id : TaskId) (pinned : Bool) : Runs 0 g (g.setPin id pinned) := by
  have hm : Still g (g.modifyTask id (fun t => { t with savedPin := false })) :=
    .modified rfl (fun _ => rfl) (fun _ => rfl) rfl rfl rfl
  refine (of_still hm).trans (ite (fun _ => Runs.pinned _ id) fun _ => of_op (.unlinked _ _ _))

theorem demandOne (rerunDone : Bool) (target : TaskId) (g : Graph τ) (id : TaskId) :
    Runs 0 g (Graph.demandOne rerunDone target g id) := by
  unfold Graph.demandOne
  cases g.tasks.lookup id with
  | none => exact refl g
  | some t =>
    have hexcused : Runs 0 g (if t.startFailed then
        { g.modifyTask id (fun t => { t with startFailed := false }) with stateChanged := true } else g) :=
      ite (fun _ => of_op (.excused g id)) fun _ => refl g
    simp only
    refine (hexcused.andThen (of_op (.vetoed _ id false))).andThen ?_
    exact ite (fun _ => of_op (.idled _ id)) fun _ => refl _

theorem demand (g : Graph τ) (id : TaskId) (rerunDone : Bool) : Runs 0 g (g.demand id rerunDone) :=
  foldl_still (demandOne rerunDone id) _ _

theorem stopIfActive (g : Graph τ) (id : TaskId) : Runs 1 g (g.stopIfActive id) := by
  unfold Graph.stopIfActive
  cases ht : g.tasks.lookup id with
  | none => exact (refl g).mono (by omega)
  | some t =>
    have hstop (hr : t.state.isRunning = true) : Runs 1 g (g.stopTask id false) := of_op (.stopped ht hr)
    simp only
    cases hs : t.state with
    | starting => exact hstop (by rw [hs]; rfl)
    | running => exact hstop (by rw [hs]; rfl)
    | ready => exact hstop (by rw [hs]; rfl)
    | idle | stopping | backoff | done | exited => exact (refl g).mono (by omega)

theorem cmdStart (g : Graph τ) (id : TaskId) : Runs 0 g (g.cmdStart id) :=
  (setPin g id true).trans (demand _ id true)

theorem cmdUp (g : Graph τ) (id : TaskId) : Runs 0 g (g.cmdUp id) :=
  (setPin g id true).trans (demand _ id false)

theorem cmdStop (g : Graph τ) (id : TaskId) : Runs 1 g (g.cmdStop id) :=
  (setPin g id false).after (stopIfActive _ id)

theorem cmdKill (g : Graph τ) (id : TaskId) : Runs 1 g (g.cmdKill id) := by
  unfold Graph.cmdKill
  refine (setPin g id false).after ?_
  generalize g.setPin id false = g
  simp only
  cases ht : g.tasks.lookup id with
  | none => exact (refl g).mono (by omega)
  | some t =>
    have hkill (ha : t.state.isActive = true) : Runs 1 g ((g.setState id .stopping).hardKill id) :=
      of_op (.killed ht ha)
    simp only
    cases hs : t.state with
    | starting => exact hkill (by rw [hs]; rfl)
    | running => exact hkill (by rw [hs]; rfl)
    | ready => exact hkill (by rw [hs]; rfl)
    | stopping =>
      have hsame : g.setState id .stopping = g := by
        unfold Graph.setState
        simp [ht, hs]
      have hk := hkill (by rw [hs]; rfl)
      rwa [hsame] at hk
    | idle | backoff | done | exited => exact (refl g).mono (by omega)

theorem cmdVeto (g : Graph τ) (id : TaskId) : Runs 0 g (g.cmdVeto id) :=
  (setPin g id false).trans (of_op (.vetoed _ id true))

theorem cmdRestart (g : Graph τ) (id : TaskId) : Runs 1 g (g.cmdRestart id) :=
  (cmdStart g id).after (stopIfActive _ id)

theorem actOne (verb : Verb) (g : Graph τ) (id : TaskId) : Runs 1 g (Graph.actOne verb g id) := by
  cases verb with
  | up => exact (cmdUp g id).mono (by omega)
  | start => exact (cmdStart g id).mono (by omega)
  | restart => exact cmdRestart g id
  | forceRestart => exact (cmdKill g id).andThen (cmdStart _ id)
  | stop => exact cmdStop g id
  | kill => exact cmdKill g id
  | veto => exact (cmdVeto g id).mono (by omega)

theorem act (g : Graph τ) (verb : Verb) (sender : TaskId) (selector : TaskSelector) :
    Runs (g.actSet verb sender selector).length g (g.act verb sender selector).1 :=
  (foldl (actOne verb) _ g).mono (by simp)

end intent

section registry

theorem registerTaskWithId (g : Graph τ) {id : TaskId} (hne : id ≠ initTaskId) (def' : TaskDef τ)
    (factory : TaskId → τ) (saved : Option Snap.Task) :
    Runs 0 g (g.registerTaskWithId id def' factory saved).1 :=
  of_op (.registered def' factory saved hne)

theorem registerFolder (g : Graph τ) (d : FolderDef) : Runs 0 g (g.registerFolder d).1 := by
  unfold Graph.registerFolder
  split
  · exact refl g
  · split
    · exact refl g
    · simp only
      refine andThen (of_still ?_) (notifySubscribers _ _ _ _ _)
      exact .beside rfl rfl rfl rfl

theorem registerOne (g : Graph τ) (saved : Option Snap.Task) (r : Registration τ) :
    Runs 0 g (g.registerOne saved r).1 := by
  cases r with
  | task r => exact registerTaskWithId g r.allocated r.def' r.factory saved
  | folder d => exact registerFolder g d

theorem holdPlace (g : Graph τ) (r : Registration τ) : Runs 0 g (g.holdPlace r) := by
  unfold Graph.holdPlace
  cases r.key with
  | none => exact refl g
  | some key => exact of_still (.beside rfl rfl rfl rfl)

theorem dropPlace (g : Graph τ) (r : Registration τ × Except RegisterError Unit) :
    Runs 0 g (g.dropPlace r) := by
  unfold Graph.dropPlace
  split
  · exact of_still (.beside rfl rfl rfl rfl)
  · exact refl g

theorem registerAt (tasks : List (Option Snap.Task × Registration τ)) (l : List ℕ)
    (acc : Graph τ × List (Except RegisterError Unit)) :
    Runs 0 acc.1 (l.foldl (Graph.registerAt tasks) acc).1 := by
  induction l generalizing acc with
  | nil => exact refl _
  | cons i l ih =>
    refine trans ?_ (ih _)
    unfold Graph.registerAt
    cases tasks[i]? with
    | none => exact refl _
    | some r => exact registerOne acc.1 r.1 r.2

theorem registerTasks (g : Graph τ) (tasks : List (Option Snap.Task × Registration τ)) :
    Runs 0 g (g.registerTasks tasks).1 := by
  unfold Graph.registerTasks
  refine andThen ?_ (foldl_still dropPlace _ _)
  exact (foldl_still holdPlace _ g).andThen
    (registerAt tasks _ (_, tasks.map (fun _ => Except.ok ())))

theorem registerTaskCommand (g : Graph τ) (sender : TaskId) (r : TaskRegistration τ) :
    Runs 0 g (g.registerTaskCommand sender r).1 := by
  unfold Graph.registerTaskCommand
  split
  · exact registerTaskWithId g r.allocated r.def' r.factory none
  · exact refl g

theorem registerTasksCommand (g : Graph τ) (sender : TaskId) (rs : List (Registration τ)) :
    Runs 0 g (g.registerTasksCommand sender rs).1 :=
  registerTasks g _

theorem removeFolder (g : Graph τ) (id : TaskId) : Runs 0 g (g.removeFolder id).1 := by
  unfold Graph.removeFolder
  cases g.folders.lookup id with
  | none => exact refl g
  | some folder =>
    simp only
    refine andThen (of_still ?_) (notifySubscribers _ _ _ _ _)
    exact .beside rfl rfl rfl rfl

theorem setFolder (g : Graph τ) (id : TaskId) (settings : FolderSettings) :
    Runs 0 g (g.setFolder id settings).1 := by
  unfold Graph.setFolder
  cases g.folders.lookup id with
  | none => exact refl g
  | some folder => exact of_still (.beside rfl rfl rfl rfl)

theorem subscribe (g : Graph τ) (subscriber : TaskId) (key : TaskKey) (mode : SubMode) :
    Runs 0 g (g.subscribe subscriber key mode) := by
  unfold Graph.subscribe
  simp only
  refine andThen (of_still ?_) (foldl_still (fun g e => ?_) _ _)
  · exact .beside rfl rfl rfl rfl
  split
  · exact of_op (.told _ _ _ _)
  · exact refl g

theorem unsubscribe (g : Graph τ) (subscriber : TaskId) (key : TaskKey) (mode : SubMode) :
    Runs 0 g (g.unsubscribe subscriber key mode) :=
  of_still (.beside rfl rfl rfl rfl)

theorem setTaskLabel (g : Graph τ) (id : TaskId) (label : Option String) :
    Runs 0 g (g.setTaskLabel id label) := by
  unfold Graph.setTaskLabel
  cases g.tasks.lookup id with
  | none => exact refl g
  | some t =>
    simp only
    split
    · exact refl g
    · refine andThen (of_still ?_) (notifyChanged _ id)
      exact .modified rfl (fun _ => rfl) (fun _ => rfl) rfl rfl rfl

theorem setOrigin (g : Graph τ) (id : TaskId) (origin : Option Source) :
    Runs 0 g (g.setOrigin id origin) := by
  unfold Graph.setOrigin
  cases g.tasks.lookup id with
  | none => exact refl g
  | some t =>
    simp only
    split
    · exact refl g
    · refine andThen (of_still ?_) (notifyChanged _ id)
      have hm : Still g (g.modifyTask id (fun t => { t with origin })) :=
        .modified rfl (fun _ => rfl) (fun _ => rfl) rfl rfl rfl
      exact hm.trans (.setTags _ id _)

theorem tellMoved (space : TaskSpaceId) (g : Graph τ) (m : Moved) :
    Runs 0 g (Graph.tellMoved space g m) := by
  unfold Graph.tellMoved
  simp only
  cases g.addedAt m.id space m.dst with
  | none => exact refl g
  | some added =>
    exact ((of_op (.told _ _ _ _)).trans (of_op (.told _ _ _ _))).trans (of_op (.told _ _ _ _))

theorem putMoved (g : Graph τ) (m : Moved) : Runs 0 g (g.putMoved m) := by
  unfold Graph.putMoved
  split
  · exact of_still (.modified rfl (fun _ => rfl) (fun _ => rfl) rfl rfl rfl)
  · exact of_still (.beside rfl rfl rfl rfl)

theorem moveTasks (g : Graph τ) (req : MoveTask) : Runs 0 g (g.moveTasks req).1 := by
  unfold Graph.moveTasks
  split
  · exact refl g
  · refine trans (n := 0) (andThen (of_still ?_) (foldl_still putMoved _ _)) (foldl_still (tellMoved _) _ _)
    exact .beside rfl rfl rfl rfl

theorem duplicate (g : Graph τ) (id : TaskId) (req : DuplicateRequest) :
    Runs 0 g (g.duplicate id req).1 := by
  intro hs hn
  unfold Graph.duplicate
  cases g.tasks.lookup id with
  | none => exact .refl 0 g
  | some t =>
    simp only
    split
    · have halloc := Ops.single (.allocated g)
      simp only [allocId] at halloc ⊢
      split
      · exact halloc
      · exact halloc.trans (.single (.registered _ _ none (Nat.ne_of_gt hn)))
    · exact .refl 0 g

theorem duplicateAll (req : DuplicateRequest) (ids : List TaskId) (g : Graph τ) :
    Runs 0 g (Graph.duplicateAll req g ids).1 := by
  induction ids generalizing g with
  | nil => exact refl g
  | cons id ids ih =>
    have hd := duplicate g id req
    unfold Graph.duplicateAll
    generalize g.duplicate id req = r at hd ⊢
    obtain ⟨g', result⟩ := r
    cases result with
    | ok => exact hd.trans (ih g')
    | error err => exact hd

end registry

end Runs

end Dekit.Graph
