import Dekit.FixedPoint
import Dekit.Refine

namespace Dekit

/-- What is true of the graph whenever the kernel did something, and of what it did. -/
structure Good (e : Happening × View) : Prop where
  shape : e.2.Shape
  counts : e.2.Counts
  start : ∀ id, e.1 = .sent id .start → e.2.StartOk id
  stop : ∀ id, e.1 = .drivenStop id → e.2.StopOk id

namespace Graph

variable {τ : Type} {g g' : Graph τ} {id src dst : TaskId} {s t : Finset TaskId}

/-- The invariant of the graph, but for the tasks in `s` that are still to be driven. -/
structure Sound (s : Finset TaskId) (g : Graph τ) : Prop where
  shape : g.view.Shape
  counts : g.view.Counts
  fresh : g.view.Fresh ∅
  driven : g.view.Driven s
  queued : g.Queued
  log : ∀ e ∈ g.log, Good e

namespace Sound

theorem same (h : Sound s g) (hv : g'.view = g.view) (hd : g'.dirty = g.dirty)
    (hl : g'.log = g.log) : Sound s g' where
  shape := hv ▸ h.shape
  counts := hv ▸ h.counts
  fresh := hv ▸ h.fresh
  driven := hv ▸ h.driven
  queued := by
    have hin : g'.inQueue = g.inQueue := congrArg View.dirty hv
    unfold Queued
    rw [hin, hd]
    exact h.queued
  log := hl ▸ h.log

theorem quiet (h : Sound s g) (hq : Quiet g g') : Sound s g' := h.same hq.view hq.dirty hq.log

theorem note (h : Sound s g) {e : Happening} (hstart : ∀ id, e = .sent id .start → g.view.StartOk id)
    (hstop : ∀ id, e = .drivenStop id → g.view.StopOk id) : Sound s (g.note e) where
  shape := h.shape
  counts := h.counts
  fresh := h.fresh
  driven := h.driven
  queued := h.queued
  log := by
    intro e' he'
    rcases List.mem_cons.mp he' with rfl | he'
    · exact ⟨h.shape, h.counts, hstart, hstop⟩
    · exact h.log e' he'

theorem touched (h : Sound s g) : Sound s (g.note .touched) :=
  h.note (fun _ he => by cases he) (fun _ he => by cases he)

theorem sendCmd [Task τ] (h : Sound s g) (id : TaskId) {cmd : TaskCmd}
    (hstart : sentCmd cmd = some .start → g.view.StartOk id) : Sound s (g.sendCmd id cmd) := by
  cases hc : sentCmd cmd with
  | none => exact h.quiet (Quiet.sendCmd g id hc)
  | some sent =>
    refine (h.note (e := .sent id sent) (fun x hx => ?_) (fun _ hx => by cases hx)).quiet
      (Quiet.sendCmd_sent g id hc)
    cases hx
    exact hstart hc

/-- Whatever is kept of the reconciler's invariant is kept by the graph's. -/
theorem noting (h : Sound s g) (hn : Noting g g') (hs : g'.view.Shape) (hc : g'.view.Counts)
    (hf : g'.view.Fresh ∅) (hd : g'.view.Driven t) : Sound t g' := by
  cases hn with
  | silent hk => exact ⟨hs, hc, hf, hd, hk.queued h.queued, hk.log ▸ h.log⟩
  | noted hk => exact touched ⟨hs, hc, hf, hd, hk.queued h.queued, hk.log ▸ h.log⟩

theorem frames (h : Sound s g) (hn : Noting g g') (hs : g'.view.Shape) (hc : g'.view.Counts)
    (hf : View.Frames ∅ g.view g'.view) : Sound s g' := by
  refine h.noting hn hs hc ?_ ?_
  · simpa using h.fresh.frames hf
  · simpa using h.driven.frames hf

theorem enqueue (h : Sound s g) (id : TaskId) : Sound s (g.enqueue id) := by
  refine h.frames (Counting.enqueue g id).noting ?_ ?_ ?_ <;> rw [view_enqueue]
  · exact h.shape.touch _
  · exact h.counts.touch _
  · exact View.Frames.touch _ _

theorem addEdge (h : Sound s g) (hreach : ¬ Relation.ReflTransGen g.view.Dep dst src) :
    Sound s (g.addEdge src dst) := by
  refine h.frames (Counting.addEdge g src dst) ?_ ?_ ?_ <;> rw [view_addEdge]
  · exact h.shape.addEdge hreach
  · exact h.counts.addEdge h.shape _ _
  · exact View.Frames.addEdge h.shape (h.shape.addEdge hreach)

theorem removeEdge (h : Sound s g) (src dst : TaskId) : Sound s (g.removeEdge src dst) := by
  refine h.frames (Counting.removeEdge g src dst) ?_ ?_ ?_ <;> rw [view_removeEdge]
  · exact h.shape.removeEdge
  · exact h.counts.removeEdge h.shape _ _
  · exact View.Frames.removeEdge h.shape _ _

theorem setVetoed (h : Sound s g) (id : TaskId) (value : Bool) : Sound s (g.setVetoed id value) := by
  refine h.frames (Counting.setVetoed g id value) ?_ ?_ ?_ <;> rw [view_setVetoed]
  · exact h.shape.setVetoed _ _
  · exact h.counts.setVetoed _ _
  · exact View.Frames.setVetoed h.shape _ _

theorem setState [Task τ] (h : Sound s g) (id : TaskId) (state : TaskState) :
    Sound s (g.setState id state) := by
  have hv := view_setState g id state
  unfold Graph.setState at hv ⊢
  cases hold : g.tasks.lookup id with
  | none => exact h
  | some old =>
    simp only [hold] at hv ⊢
    split
    · exact h
    · rename_i hne
      rw [if_neg hne, (Quiet.notifySubscribers _ _ _ _ _).view, view_note] at hv
      have hk := Counting.putState g id old state
      refine (touched ⟨?_, ?_, ?_, ?_, hk.queued h.queued, hk.log ▸ h.log⟩).quiet
        (Quiet.notifySubscribers _ _ _ _ _) <;> rw [hv]
      · exact h.shape.setState _ _
      · exact h.counts.setState h.shape _ _
      · simpa using h.fresh.frames (View.Frames.setState h.shape id state)
      · simpa using h.driven.frames (View.Frames.setState h.shape id state)

theorem removeTask [Task τ] (h : Sound s g) (id : TaskId) : Sound s (g.removeTask id) := by
  have hv := view_removeTask g id
  unfold Graph.removeTask at hv ⊢
  cases hold : g.tasks.lookup id with
  | none => exact h
  | some handle =>
    simp only [hold] at hv ⊢
    rw [(Quiet.notifySubscribers _ _ _ _ _).view, view_note] at hv
    have hk := Counting.dropEdges (g.dropHandle id handle) id handle.wanted handle.state.isActive
    have hq : (g.dropHandle id handle).Queued ∧ (g.dropHandle id handle).log = g.log := by
      refine ⟨?_, ?_⟩
      · unfold dropHandle unindexTags
        have hd := h.queued
        cases handle.path <;>
        · refine ⟨?_, hd.2.filter _⟩
          change g.inQueue.erase id = (g.dirty.filter (· ≠ id)).toFinset
          rw [hd.1]
          ext x
          simp [and_comm]
      · unfold dropHandle unindexTags
        cases handle.path <;> rfl
    have hv : ((g.dropHandle id handle).dropEdges id handle.wanted handle.state.isActive).view =
        g.view.removeTask id := hv
    have hw : Sound s ((g.dropHandle id handle).dropEdges id handle.wanted handle.state.isActive) := by
      refine ⟨?_, ?_, ?_, ?_, hk.queued hq.1, fun e he => h.log e ?_⟩
      · exact hv ▸ h.shape.removeTask _
      · exact hv ▸ h.counts.removeTask h.shape _
      · rw [hv]
        simpa using h.fresh.frames (View.Frames.removeTask h.shape id)
      · rw [hv]
        simpa using h.driven.frames (View.Frames.removeTask h.shape id)
      · rwa [hk.log, hq.2] at he
    refine quiet (touched ?_) (Quiet.notifySubscribers _ _ _ _ _)
    exact hw.same rfl rfl rfl

theorem modified (h : Sound s g) {f : TaskHandle τ → TaskHandle τ}
    (ht : g'.tasks = g.tasks.modify id f) (hf : ∀ t, (f t).node = t.node) (hb : g'.bounds = g.bounds) :
    Sound s g' := by
  simp only [bounds, Prod.mk.injEq] at hb
  obtain ⟨hquit, hedges, hredges, hin, hdirty, hlog⟩ := hb
  refine h.same (Eq.trans ?_ (view_modifyTask_id g id f hf)) hdirty hlog
  simp only [view, Graph.modifyTask, hquit, hedges, hredges, hin, ht]

theorem modifyTask (h : Sound s g) (id : TaskId) {f : TaskHandle τ → TaskHandle τ}
    (hf : ∀ t, (f t).node = t.node) : Sound s (g.modifyTask id f) :=
  h.modified rfl hf rfl

theorem scheduleStateTimeout (h : Sound s g) (id : TaskId) (delay : Duration) :
    Sound s (g.scheduleStateTimeout id delay) := by
  unfold Graph.scheduleStateTimeout
  split
  · exact h.modified rfl (fun _ => rfl) rfl
  · exact h

section lifecycle

variable [Task τ]

theorem stopTask (h : Sound s g) (id : TaskId) (startFailed : Bool) :
    Sound s (g.stopTask id startFailed) := by
  unfold Graph.stopTask
  have hs := h.setState id .stopping
  simp only
  cases (g.setState id .stopping).tasks.lookup id with
  | none => exact hs
  | some t => exact ((hs.modifyTask id (by intro _; rfl)).scheduleStateTimeout _ _).sendCmd id (by intro hc; cases hc)

theorem hardKill (h : Sound s g) (id : TaskId) : Sound s (g.hardKill id) :=
  ((h.modifyTask id (by intro _; rfl)).sendCmd id (by intro hc; cases hc)).scheduleStateTimeout _ _

theorem landExit (h : Sound s g) (id : TaskId) (info : ExitInfo) : Sound s (g.landExit id info) := by
  unfold Graph.landExit
  cases g.tasks.lookup id with
  | none => exact h
  | some t =>
    simp only
    cases t.exitState info with
    | backoff info => exact ((h.modifyTask id (by intro _; rfl)).setState _ _).scheduleStateTimeout _ _
    | idle | starting | running | ready | stopping | done | exited => exact h.setState _ _

theorem landStop (h : Sound s g) (id : TaskId) (info : ExitInfo) : Sound s (g.landStop id info) := by
  unfold Graph.landStop
  cases g.tasks.lookup id with
  | none => exact h
  | some t =>
    simp only
    split
    · exact h.landExit _ _
    · exact h.setState _ _

theorem giveUp (h : Sound s g) (id : TaskId) (startFailed : Bool) : Sound s (g.giveUp id startFailed) := by
  unfold Graph.giveUp
  have hl := h.landStop id .error
  simp only
  cases (g.landStop id .error).tasks.lookup id with
  | none => exact hl
  | some t =>
    simp only
    split
    · exact hl.modified rfl (fun _ => rfl) rfl
    · exact hl

theorem onStateTimeout (h : Sound s g) (id : TaskId) (epoch : ℕ) :
    Sound s (g.onStateTimeout id epoch) := by
  unfold Graph.onStateTimeout
  cases g.tasks.lookup id with
  | none => exact h
  | some t =>
    simp only
    split
    · exact h
    · have hm : Sound s { g.modifyTask id (fun t => { t with deadline := none }) with
          timerChanges := g.timerChanges ++ [id] } := h.modified rfl (fun _ => rfl) rfl
      cases t.state with
      | backoff info => exact hm.setState _ _
      | stopping =>
        simp only
        split
        · exact hm.giveUp _ _
        · exact hm.hardKill _
      | running =>
        simp only
        split
        · exact hm.stopTask _ _
        · exact hm
      | idle | starting | ready | done | exited => exact hm

theorem onTaskStarted (h : Sound s g) (id : TaskId) : Sound s (g.onTaskStarted id) := by
  unfold Graph.onTaskStarted
  cases g.tasks.lookup id with
  | none => exact h
  | some t =>
    simp only
    cases t.state with
    | starting =>
      simp only
      split
      · exact (h.setState _ _).scheduleStateTimeout _ _
      · exact h.setState _ _
    | idle | running | ready | stopping | backoff | done | exited => exact h

theorem onTaskReady (h : Sound s g) (id : TaskId) : Sound s (g.onTaskReady id) := by
  unfold Graph.onTaskReady
  cases g.tasks.lookup id with
  | none => exact h
  | some t =>
    simp only
    cases t.state with
    | running => exact h.setState _ _
    | idle | starting | ready | stopping | backoff | done | exited => exact h

theorem onTaskStopped (h : Sound s g) (id : TaskId) (info : ExitInfo) :
    Sound s (g.onTaskStopped id info) := by
  unfold Graph.onTaskStopped
  cases g.tasks.lookup id with
  | none => exact h
  | some t =>
    have hm : Sound s (if g.stayedUp t then g.modifyTask id (fun t => { t with attempts := 0 }) else g) := by
      split
      · exact h.modifyTask id fun _ => rfl
      · exact h
    simp only
    cases t.state with
    | stopping => exact h.landStop _ _
    | starting | running | ready => exact hm.landExit _ _
    | idle | backoff | done | exited => exact h

theorem onEffect (h : Sound s g) (id : TaskId) (effect : TaskEffect) : Sound s (g.onEffect id effect) := by
  cases effect with
  | started => exact h.onTaskStarted id
  | ready => exact h.onTaskReady id
  | stopped info => exact h.onTaskStopped id info

end lifecycle

theorem beginQuit (h : Sound s g) : Sound s g.beginQuit.1 := by
  cases hq : g.quitting with
  | true =>
    unfold Graph.beginQuit
    rw [if_pos hq]
    exact h
  | false =>
    have hv := view_beginQuit g hq
    unfold Graph.beginQuit at hv ⊢
    rw [if_neg (by simp [hq])] at hv ⊢
    have hk := Counting.forEach (g := { g with quitting := true }) initTaskId g.tasks.keys Counting.enqueue
    refine ⟨?_, ?_, ?_, ?_, hk.queued h.queued, fun e he => h.log e (hk.log ▸ he)⟩
    · exact hv ▸ h.shape.quit
    · exact hv ▸ h.counts.quit
    · exact hv ▸ View.Fresh.quit h.shape
    · exact hv ▸ View.Driven.quit h.shape

end Sound

end Graph

end Dekit
