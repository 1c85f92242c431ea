import Dekit.Timers

namespace Dekit

/-- A task reports at most twice when it is started, stopped or killed, and not at all on a notification. -/
structure Brief (τ : Type) [Task τ] : Prop where
  two : ∀ (t : τ) (cmd : TaskCmd), (Graph.sentCmd cmd).isSome = true → (Task.handleCmd t cmd).2.length ≤ 2
  silent : ∀ (t : τ) (source : TaskId) (notify : TaskNotify),
    (Task.handleCmd t (.msg (.notification source notify))).2 = []

/-- And at most twice on whatever else it is sent. -/
structure Terse (τ : Type) [Task τ] : Prop extends Brief τ where
  atMost : ∀ (t : τ) (cmd : TaskCmd), (Task.handleCmd t cmd).2.length ≤ 2

namespace Graph

variable {τ : Type} [Task τ] {g g' g'' : Graph τ} {id : TaskId} {k n : ℕ}

def Queues (k : ℕ) (g g' : Graph τ) : Prop := g'.pendingEffects.length ≤ g.pendingEffects.length + k

namespace Queues

omit [Task τ] in
theorem of_eq (h : g'.pendingEffects = g.pendingEffects) : Queues 0 g g' := by
  unfold Queues
  rw [h]
  exact Nat.le_add_right _ _

omit [Task τ] in
theorem refl (g : Graph τ) : Queues 0 g g := of_eq rfl

omit [Task τ] in
theorem trans (h : Queues k g g') (h' : Queues n g' g'') : Queues (k + n) g g'' := by
  unfold Queues at *
  omega

omit [Task τ] in
theorem mono (h : Queues k g g') (hkn : k ≤ n) : Queues n g g' := by
  unfold Queues at *
  omega

omit [Task τ] in
theorem modifyTask (g : Graph τ) (id : TaskId) (f : TaskHandle τ → TaskHandle τ) : Queues 0 g (g.modifyTask id f) :=
  of_eq rfl

omit [Task τ] in
theorem andThen (h : Queues k g g') (h' : Queues 0 g' g'') : Queues k g g'' := h.trans h'

omit [Task τ] in
theorem after (h : Queues 0 g g') (h' : Queues k g' g'') : Queues k g g'' := (h.trans h').mono (by omega)

omit [Task τ] in
theorem noting (h : Noting g g') : Queues 0 g g' := by
  cases h with
  | silent h => exact of_eq h.pendingEffects
  | noted h => exact of_eq h.pendingEffects

omit [Task τ] in
theorem foldl {β : Type} {body : Graph τ → β → Graph τ} (h : ∀ g x, Queues k g (body g x)) (l : List β)
    (g : Graph τ) : Queues (k * l.length) g (l.foldl body g) := by
  induction l generalizing g with
  | nil => exact refl g
  | cons x l ih =>
    refine ((h g x).trans (ih _)).mono ?_
    rw [List.length_cons, Nat.mul_succ, Nat.add_comm]

omit [Task τ] in
theorem foldl_none {β : Type} {body : Graph τ → β → Graph τ} (h : ∀ g x, Queues 0 g (body g x)) (l : List β)
    (g : Graph τ) : Queues 0 g (l.foldl body g) := (foldl h l g).mono (by omega)

theorem deliver (ht : Brief τ) (g : Graph τ) (source : TaskId) (notify : TaskNotify) (targets : Finset TaskId) :
    Queues 0 g (g.deliver source notify targets) := by
  have hone (g : Graph τ) (listener : TaskId) : Queues 0 g (deliverTo source notify g listener) := by
    unfold deliverTo
    cases g.tasks.lookup listener with
    | none => exact refl g
    | some t =>
      refine of_eq ?_
      simp [queueEffects, setTask, ht.silent]
  exact foldl_none hone _ _

theorem notifySubscribers (ht : Brief τ) (g : Graph τ) (source : TaskId) (space : TaskSpaceId) (path : Option TaskPath)
    (notify : TaskNotify) : Queues 0 g (g.notifySubscribers source space path notify) := by
  unfold Graph.notifySubscribers
  exact deliver ht g source notify _

theorem notifyChanged (ht : Brief τ) (g : Graph τ) (id : TaskId) : Queues 0 g (g.notifyChanged id) := by
  unfold Graph.notifyChanged
  cases g.tasks.lookup id with
  | none => exact refl g
  | some t => exact notifySubscribers ht g id _ _ _

theorem setState (ht : Brief τ) (g : Graph τ) (id : TaskId) (state : TaskState) : Queues 0 g (g.setState id state) := by
  unfold Graph.setState
  cases hold : g.tasks.lookup id with
  | none => exact refl g
  | some old =>
    simp only
    split
    · exact refl g
    · have hput : Queues 0 g ((g.putState id old state).note .touched) := by
        have hc := Counting.putState g id old state
        exact of_eq (hc.pendingEffects.trans rfl)
      exact hput.andThen (notifySubscribers ht _ _ _ _ _)

theorem send {g : Graph τ} {id : TaskId} {cmd : TaskCmd} (h : ∀ t : τ, (Task.handleCmd t cmd).2.length ≤ 2) :
    Queues 2 g (g.sendCmd id cmd) := by
  have hnote : (g.noteSent id cmd).pendingEffects = g.pendingEffects := by
    unfold noteSent
    cases sentCmd cmd <;> rfl
  unfold Graph.sendCmd
  simp only
  cases (g.noteSent id cmd).tasks.lookup id with
  | none => exact (of_eq hnote).mono (Nat.zero_le 2)
  | some t =>
    refine after (of_eq hnote) ?_
    unfold Queues
    simpa [queueEffects, setTask] using h t.task

theorem sendCmd (ht : Brief τ) (g : Graph τ) (id : TaskId) {cmd : TaskCmd} (hc : (sentCmd cmd).isSome = true) :
    Queues 2 g (g.sendCmd id cmd) := send fun t => ht.two t cmd hc

omit [Task τ] in
theorem scheduleStateTimeout (g : Graph τ) (id : TaskId) (delay : Duration) :
    Queues 0 g (g.scheduleStateTimeout id delay) := by
  unfold Graph.scheduleStateTimeout
  split <;> exact of_eq rfl

theorem stopTask (ht : Brief τ) (g : Graph τ) (id : TaskId) (startFailed : Bool) :
    Queues 2 g (g.stopTask id startFailed) := by
  have hs := setState ht g id .stopping
  unfold Graph.stopTask
  simp only
  cases (g.setState id .stopping).tasks.lookup id with
  | none => exact hs.mono (Nat.zero_le 2)
  | some t =>
    exact after ((hs.andThen (modifyTask _ _ _)).andThen (scheduleStateTimeout _ _ _)) (sendCmd ht _ _ rfl)

theorem hardKill (ht : Brief τ) (g : Graph τ) (id : TaskId) : Queues 2 g (g.hardKill id) :=
  (after (modifyTask g id _) (sendCmd ht _ _ rfl)).andThen (scheduleStateTimeout _ _ _)

theorem landExit (ht : Brief τ) (g : Graph τ) (id : TaskId) (info : ExitInfo) : Queues 0 g (g.landExit id info) := by
  unfold Graph.landExit
  cases g.tasks.lookup id with
  | none => exact refl g
  | some t =>
    simp only
    cases t.exitState info with
    | backoff info => exact ((modifyTask g id _).andThen (setState ht _ _ _)).andThen (scheduleStateTimeout _ _ _)
    | idle | starting | running | ready | stopping | done | exited => exact setState ht g id _

theorem landStop (ht : Brief τ) (g : Graph τ) (id : TaskId) (info : ExitInfo) : Queues 0 g (g.landStop id info) := by
  unfold Graph.landStop
  cases g.tasks.lookup id with
  | none => exact refl g
  | some t =>
    simp only
    split
    · exact landExit ht g id _
    · exact setState ht g id _

theorem giveUp (ht : Brief τ) (g : Graph τ) (id : TaskId) (startFailed : Bool) :
    Queues 0 g (g.giveUp id startFailed) := by
  have hl := landStop ht g id .error
  unfold Graph.giveUp
  simp only
  cases (g.landStop id .error).tasks.lookup id with
  | none => exact hl
  | some t =>
    simp only
    split
    · exact hl.andThen (of_eq rfl)
    · exact hl

theorem onStateTimeout (ht : Brief τ) (g : Graph τ) (id : TaskId) (epoch : ℕ) :
    Queues 2 g (g.onStateTimeout id epoch) := by
  unfold Graph.onStateTimeout
  cases g.tasks.lookup id with
  | none => exact (refl g).mono (Nat.zero_le 2)
  | some t =>
    simp only
    split
    · exact (refl g).mono (Nat.zero_le 2)
    · have hlisted : Queues 0 g { g.modifyTask id (fun t => { t with deadline := none }) with
          timerChanges := g.timerChanges ++ [id] } := of_eq rfl
      refine hlisted.after ?_
      cases t.state with
      | backoff info => exact (setState ht _ _ _).mono (Nat.zero_le 2)
      | stopping =>
        simp only
        split
        · exact (giveUp ht _ _ _).mono (Nat.zero_le 2)
        · exact hardKill ht _ _
      | running =>
        simp only
        split
        · exact stopTask ht _ _ _
        · exact (refl _).mono (Nat.zero_le 2)
      | idle | starting | ready | done | exited => exact (refl _).mono (Nat.zero_le 2)

theorem onEffect (ht : Brief τ) (g : Graph τ) (id : TaskId) (effect : TaskEffect) :
    Queues 0 g (g.onEffect id effect) := by
  cases effect with
  | started =>
    show Queues 0 g (g.onTaskStarted id)
    unfold onTaskStarted
    cases g.tasks.lookup id with
    | none => exact refl g
    | some t =>
      simp only
      cases t.state with
      | starting =>
        simp only
        split
        · exact (setState ht g id _).andThen (scheduleStateTimeout _ _ _)
        · exact setState ht g id _
      | _ => exact refl g
  | ready =>
    show Queues 0 g (g.onTaskReady id)
    unfold onTaskReady
    cases g.tasks.lookup id with
    | none => exact refl g
    | some t =>
      simp only
      cases t.state with
      | running => exact setState ht g id _
      | _ => exact refl g
  | stopped info =>
    show Queues 0 g (g.onTaskStopped id info)
    unfold onTaskStopped
    cases g.tasks.lookup id with
    | none => exact refl g
    | some t =>
      have hland (g' : Graph τ) (hg : Queues 0 g g') : Queues 0 g (g'.landExit id info) :=
        hg.andThen (landExit ht g' id info)
      simp only
      cases t.state with
      | stopping => exact landStop ht g id info
      | starting | running | ready =>
        apply hland
        split
        · exact of_eq rfl
        · exact refl g
      | idle | backoff | done | exited => exact refl g

theorem startTask (ht : Brief τ) (g : Graph τ) (id : TaskId) : Queues 2 g (g.startTask id) := by
  unfold Graph.startTask
  cases g.tasks.lookup id with
  | none => exact (refl g).mono (Nat.zero_le 2)
  | some old =>
    simp only
    refine after ?_ (sendCmd ht _ _ rfl)
    refine andThen ?_ (setState ht _ _ _)
    split
    · exact of_eq rfl
    · exact after (of_eq rfl) (notifyChanged ht _ _)

theorem registerTaskWithId (ht : Brief τ) (g : Graph τ) (id : TaskId) (def' : TaskDef τ) (factory : TaskId → τ)
    (saved : Option Snap.Task) : Queues 0 g (g.registerTaskWithId id def' factory saved).1 := by
  unfold Graph.registerTaskWithId
  split
  · exact refl g
  · cases g.resolveDeps def'.deps with
    | error err => exact refl g
    | ok deps =>
      simp only
      cases hg' : g.claimPath id def' with
      | error err => exact refl g
      | ok g' =>
        obtain ⟨ns, rfl⟩ := claimPath_ok hg'
        have hadd (g : Graph τ) (src dst : TaskId) : Queues 0 g (g.addEdge src dst) :=
          noting (Counting.addEdge g src dst)
        have hpin (g : Graph τ) : Queues 0 g (if def'.pinned then g.addEdge initTaskId id else g) := by
          split
          · exact hadd g _ _
          · exact refl g
        simp only
        unfold installTask
        simp only
        generalize def'.install (factory id) g.now saved = t
        have hput : Queues 0 g (({ g with ns } : Graph τ).insertTask id t) := of_eq rfl
        have htimer (g : Graph τ) (timer : Option Duration) : Queues 0 g (g.scheduleAny id timer) := by
          cases timer with
          | none => exact refl g
          | some delay => exact scheduleStateTimeout g id delay
        have htags (g : Graph τ) : Queues 0 g (g.setTags id def'.tags) := of_eq (Still.setTags g id _).pendingEffects
        have hqueue (g : Graph τ) : Queues 0 g (g.enqueue id) := noting (Counting.enqueue g id).noting
        refine andThen ?_ (notifySubscribers ht _ _ _ _ _)
        refine andThen ?_ (hqueue _)
        refine andThen ?_ (hpin _)
        refine andThen ?_ (foldl_none (fun g dep => hadd g id dep) _ _)
        exact ((hput.andThen (htimer _ _)).andThen (htags _))

theorem op (ht : Terse τ) (h : Op k g g') : Queues (2 * k) g g' := by
  cases h with
  | still hs => exact of_eq hs.pendingEffects
  | told => exact deliver ht.toBrief _ _ _ _
  | messaged => exact send fun t => ht.atMost t _
  | allocated => exact of_eq rfl
  | enqueued g id => exact noting (Counting.enqueue g id).noting
  | linked => exact noting (Counting.addEdge _ _ _)
  | unlinked => exact noting (Counting.removeEdge _ _ _)
  | vetoed => exact noting (Counting.setVetoed _ _ _)
  | excused => exact of_eq rfl
  | idled => exact setState ht.toBrief _ _ _
  | stopped => exact stopTask ht.toBrief _ _ _
  | killed => exact (setState ht.toBrief _ _ _).after (hardKill ht.toBrief _ _)
  | redefined => exact of_eq rfl
  | registered def' factory saved => exact registerTaskWithId ht.toBrief _ _ def' factory saved
  | reported => exact onEffect ht.toBrief _ _ _
  | timedOut => exact onStateTimeout ht.toBrief _ _ _

theorem ops (ht : Terse τ) (h : Ops k g g') : Queues (2 * k) g g' := by
  induction h with
  | refl k g => exact (refl g).mono (Nat.zero_le _)
  | tail _ hop ih =>
    rw [Nat.mul_add]
    exact ih.trans (op ht hop)

theorem removeTask (ht : Brief τ) (g : Graph τ) (id : TaskId) : Queues 0 g (g.removeTask id) := by
  unfold Graph.removeTask
  cases g.tasks.lookup id with
  | none => exact refl g
  | some handle =>
    simp only
    have hdrop : Queues 0 g (g.dropHandle id handle) := by
      refine of_eq ?_
      unfold dropHandle unindexTags
      cases handle.path <;> rfl
    have hedges := hdrop.andThen (of_eq (Counting.dropEdges (g.dropHandle id handle) id handle.wanted
      handle.state.isActive).pendingEffects)
    refine andThen (hedges.andThen ?_) (notifySubscribers ht _ _ _ _ _)
    exact of_eq rfl

theorem removeCommand (ht : Brief τ) (g : Graph τ) (sender : TaskId) (selector : TaskSelector) :
    Queues 0 g (g.removeCommand sender selector).1 := by
  have hfolder (g : Graph τ) (id : TaskId) : Queues 0 g (g.removeFolder id).1 := by
    unfold Graph.removeFolder
    cases g.folders.lookup id with
    | none => exact refl g
    | some folder => exact after (of_eq rfl) (notifySubscribers ht _ _ _ _ _)
  unfold Graph.removeCommand
  exact (foldl_none (removeTask ht) _ g).andThen (foldl_none hfolder _ _)

theorem freeze (ht : Terse τ) (g : Graph τ) (reply : FreezeReply) :
    Queues (2 * g.tasks.keys.card) g (g.freeze reply) := by
  have hone (number : ℕ) (l : List TaskId) (acc : Graph τ × Option TaskId) :
      Queues (2 * l.length) acc.1 (l.foldl (freezeTask number) acc).1 := by
    induction l generalizing acc with
    | nil => exact refl _
    | cons id l ih =>
      have hstep : Queues 2 acc.1 (freezeTask number acc id).1 := by
        unfold freezeTask
        cases acc.1.tasks.lookup id with
        | none => exact (refl _).mono (Nat.zero_le 2)
        | some t =>
          unfold Queues
          simpa [queueEffects, setTask] using ht.atMost t.task (.freeze number)
      refine (hstep.trans (ih _)).mono ?_
      rw [List.length_cons]
      omega
  have hcard : (g.walk initTaskId g.tasks.keys).length = g.tasks.keys.card := g.hasher.length_order _ _ _
  have hfreeze : Queues (2 * g.tasks.keys.card) g (g.freezeTasks (g.freezes + 1)).1 := by
    unfold freezeTasks
    rw [← hcard]
    exact after (of_eq rfl) (hone _ _ _)
  unfold Graph.freeze
  simp only
  generalize g.freezeTasks (g.freezes + 1) = r at hfreeze ⊢
  obtain ⟨g₁, dead⟩ := r
  cases dead with
  | none => exact hfreeze
  | some id => cases reply <;> exact hfreeze

theorem thaw (ht : Terse τ) (g : Graph τ) : Queues (2 * g.tasks.keys.card) g g.thaw.1 := by
  unfold Graph.thaw
  cases g.frozen with
  | none => exact (refl g).mono (Nat.zero_le _)
  | some frozen =>
    have hcard : (g.walk initTaskId g.tasks.keys).length = g.tasks.keys.card := g.hasher.length_order _ _ _
    have hone (g : Graph τ) (id : TaskId) : Queues 2 g (g.sendCmd id .thaw) := send fun t => ht.atMost t .thaw
    have hall := foldl hone (g.walk initTaskId g.tasks.keys) ({ g with frozen := none, tick := g.tick + 1 } : Graph τ)
    rw [hcard] at hall
    exact after (of_eq rfl) hall

omit [Task τ] in
theorem beginQuit (g : Graph τ) : Queues 0 g g.beginQuit.1 := by
  unfold Graph.beginQuit
  split
  · exact refl g
  · have hq : Queues 0 g { g with quitting := true } := of_eq rfl
    exact hq.andThen (noting (Counting.forEach _ _ Counting.enqueue).noting)

end Queues

end Graph

end Dekit
