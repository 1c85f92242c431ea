import Dekit.Kernel
import Dekit.Update

namespace Dekit

namespace Graph

variable {τ : Type} [Task τ] {g g' : Graph τ}

/-- How many commands a command may have the graph send, before it settles. -/
def sends (g : Graph τ) (sender : TaskId) : KernelCommand τ → ℕ
  | .act verb selector _ | .wait ⟨.act verb selector, _, _⟩ => (g.actSet verb sender selector).length
  | .update selector _ _ => (g.mutableMatchingIds sender selector).length
  | .taskMsg _ _ | .stateTimeout _ _ => 1
  | _ => 0

end Graph

/-- The commands that are operations on the graph, and take no task away. -/
def KernelCommand.operates {τ : Type} : KernelCommand τ → Bool
  | .remove _ _ | .freeze _ | .taskFrozen _ _ => false
  | _ => true

namespace Graph

variable {τ : Type} {g g' : Graph τ}

theorem frame_dropHandle (g : Graph τ) (id : TaskId) (handle : TaskHandle τ) :
    (g.dropHandle id handle).frame = g.frame := by
  unfold dropHandle unindexTags
  cases handle.path <;> rfl

/-- What the graph keeps, whatever it is asked. -/
structure Valid (g : Graph τ) : Prop where
  sound : Sound ∅ g
  next : initTaskId < g.nextTaskId

namespace Valid

/-- What the reconciler does not look at, but for the ids still to come. -/
theorem same (h : Valid g) (hv : g'.view = g.view) (hd : g'.dirty = g.dirty)
    (hl : g'.log = g.log) (hn : g'.nextTaskId = g.nextTaskId) : Valid g' :=
  ⟨h.sound.same hv hd hl, hn ▸ h.next⟩

theorem quiet (h : Valid g) (hq : Quiet g g') : Valid g' :=
  ⟨h.sound.quiet hq, h.next.trans_le (Kept.of_frame hq.frame).next⟩

end Valid

variable [Task τ]

theorem removeTask_frame (g : Graph τ) (id : TaskId) : (g.removeTask id).frame = g.frame := by
  unfold removeTask
  cases g.tasks.lookup id with
  | none => rfl
  | some handle =>
    simp only
    rw [(Quiet.notifySubscribers _ _ _ _ _).frame]
    exact (Counting.dropEdges _ id _ _).frame.trans (frame_dropHandle g id handle)

theorem Runs.perform (g : Graph τ) (sender : TaskId) {command : KernelCommand τ}
    (h : command.operates = true) : Runs (g.sends sender command) g (g.perform sender command) := by
  have hone {β : Type} {body : Graph τ → β → Graph τ} (hb : ∀ g x, Runs 0 g (body g x)) (l : List β)
      (ack : Option ReplyId) (a : Answer) : Runs 0 g ((l.foldl body g).answerIf ack a) :=
    (foldl_still hb l g).andThen (of_still (.answerIf _ _))
  cases command with
  | registerTask r ack => exact (registerTaskCommand g sender r).andThen (of_still (.answer _ _))
  | registerTasks rs ack => exact (registerTasksCommand g sender rs).andThen (of_still (.answer _ _))
  | act verb selector ack => exact (act g verb sender selector).andThen (of_still (.answerIf _ _))
  | unpin selector ack => exact hone (fun g id => setPin g id false) _ _ _
  | dropFolder id ack =>
    have hd : Runs 0 g (if g.canMutateFolder sender id then g.removeFolder id else (g, false)).1 := by
      split
      · exact removeFolder g id
      · exact refl g
    exact hd.andThen (of_still (.answerIf _ _))
  | setFolder id settings ack =>
    have hd : Runs 0 g (if g.canMutateFolder sender id then g.setFolder id settings else (g, false)).1 := by
      split
      · exact setFolder g id settings
      · exact refl g
    exact hd.andThen (of_still (.answerIf _ _))
  | setLabel selector label ack => exact hone (fun g id => setTaskLabel g id label) _ _ _
  | duplicate selector req reply => exact (duplicateAll req _ g).andThen (of_still (.answer _ _))
  | update selector update reply =>
    exact (updateCommand g sender selector update).andThen (of_still (.answer _ _))
  | setOrigin selector origin ack => exact hone (fun g id => setOrigin g id origin) _ _ _
  | move req reply =>
    have hd : Runs 0 g (if g.canRegister sender req.space then g.moveTasks req
        else (g, .error (.notFound req.src))).1 := by
      split
      · exact moveTasks g req
      · exact refl g
    exact hd.andThen (of_still (.answer _ _))
  | taskMsg id content => exact of_op (.messaged g id content)
  | subscribePath key mode => exact subscribe g sender key mode
  | unsubscribePath key mode => exact unsubscribe g sender key mode
  | wait request =>
    obtain ⟨on, cond, events⟩ := request
    cases on with
    | act verb selector => exact act g verb sender selector
    | isMatching selector => exact refl g
    | ids ids => exact refl g
  | taskStarted => exact of_op (.reported g sender .started)
  | taskReady => exact of_op (.reported g sender .ready)
  | taskStopped info => exact of_op (.reported g sender (.stopped info))
  | stateTimeout id epoch => exact of_op (.timedOut g id epoch)
  | quit | quitWithoutSave | quitWithin | freezeTimeout | thaw | query | watchActive => exact refl g
  | remove | freeze | taskFrozen => cases h

namespace Valid

theorem ops {k : ℕ} (h : Valid g) (hops : Ops k g g') : Valid g' :=
  ⟨h.sound.ops hops, hops.next h.next⟩

theorem runs {k : ℕ} (h : Valid g) (hr : Runs k g g') : Valid g' := h.ops (hr h.sound h.next)

theorem settle (h : Valid g) : Valid g.settle :=
  ⟨h.sound.settle, h.next.trans_le (Advances.settle g).kept.next⟩

theorem removeTask (h : Valid g) (id : TaskId) : Valid (g.removeTask id) :=
  ⟨h.sound.removeTask id, h.next.trans_le (Kept.of_frame (removeTask_frame g id)).next⟩

theorem removeCommand (h : Valid g) (sender : TaskId) (selector : TaskSelector) :
    Valid (g.removeCommand sender selector).1 := by
  unfold Graph.removeCommand
  have ht : Valid ((g.removal sender selector).1.foldl Graph.removeTask g) :=
    Fold.foldl_invariant (P := Valid) (fun g hg id _ => hg.removeTask id) h
  exact ht.runs (.foldl_still (fun g id => Runs.removeFolder g id) _ _)

end Valid

end Graph

end Dekit
