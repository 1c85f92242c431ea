import Dekit.Commands

namespace Dekit

namespace Graph

variable {τ : Type} [Task τ] {g g' : Graph τ}

theorem quiet_freezeTask (number : ℕ) (acc : Graph τ × Option TaskId) (id : TaskId) :
    Quiet acc.1 (freezeTask number acc id).1 := by
  unfold freezeTask
  cases acc.1.tasks.lookup id with
  | none => exact .refl _
  | some t => exact (Quiet.setTask acc.1 id _).trans (.queueEffects _ _ _)

theorem quiet_freezeTasks (g : Graph τ) (number : ℕ) :
    Quiet { g with freezes := number } (g.freezeTasks number).1 := by
  unfold freezeTasks
  have hfold (l : List TaskId) (acc : Graph τ × Option TaskId) :
      Quiet acc.1 (l.foldl (freezeTask number) acc).1 := by
    induction l generalizing acc with
    | nil => exact .refl _
    | cons id l ih => exact (quiet_freezeTask number acc id).trans (ih _)
  have htick : Quiet { g with freezes := number } { g with freezes := number, tick := g.tick + 1 } :=
    ⟨rfl, rfl, rfl, rfl, rfl, rfl⟩
  exact htick.trans (hfold _ (_, none))

def dead (g : Graph τ) : Bool := (g.freezeTasks (g.freezes + 1)).2.isSome

/-- A freeze but for the freeze itself. -/
structure Froze (reply : FreezeReply) (g g' : Graph τ) : Prop where
  view : g'.view = g.view
  clock : g'.clock = g.clock
  now : g'.now = g.now
  quitting : g'.quitting = g.quitting
  next : g'.nextTaskId = g.nextTaskId
  log : g'.log = g.log
  dirty : g'.dirty = g.dirty
  timerChanges : g'.timerChanges = g.timerChanges
  freezes : g'.freezes = g.freezes + 1
  frozen : g'.frozen = some
    { number := g.freezes + 1
      reply := if g.dead then none else some reply
      waiting := g.tasks.keys
      snapshots := ∅
      deferred := [] }

theorem freeze_froze (g : Graph τ) (reply : FreezeReply) : Froze reply g (g.freeze reply) := by
  have hq := quiet_freezeTasks g (g.freezes + 1)
  have hkeys : (g.freezeTasks (g.freezes + 1)).1.tasks.keys = g.tasks.keys := congrArg View.ids hq.view
  have hdead : g.dead = (g.freezeTasks (g.freezes + 1)).2.isSome := rfl
  unfold freeze
  simp only
  generalize g.freezeTasks (g.freezes + 1) = r at hq hkeys hdead ⊢
  obtain ⟨g₁, dead⟩ := r
  have hf := hq.frame
  simp only [frame, Prod.mk.injEq] at hf
  obtain ⟨hnow, hquit, -, hfreezes, hnext⟩ := hf
  cases dead with
  | none => exact ⟨hq.view, hq.clock, hnow, hquit, hnext, hq.log, hq.dirty, hq.timerChanges, hfreezes, by
      simp [hkeys, hdead]⟩
  | some id =>
    cases reply with
    | rpc reply => exact ⟨hq.view, hq.clock, hnow, hquit, hnext, hq.log, hq.dirty, hq.timerChanges, hfreezes, by
        simp [answer, hkeys, hdead]⟩
    | quit => exact ⟨hq.view, hq.clock, hnow, hquit, hnext, hq.log, hq.dirty, hq.timerChanges, hfreezes, by
        simp [hkeys, hdead]⟩

theorem quiet_thaw (g : Graph τ) : Quiet { g with frozen := none } g.thaw.1 := by
  unfold thaw
  cases h : g.frozen with
  | none =>
    have he : ({ g with frozen := none } : Graph τ) = g := by rw [← h]
    rw [he]
    exact .refl g
  | some frozen => exact .forEach _ _ fun g id => .sendCmd g id rfl

theorem thaw_deferred (g : Graph τ) : g.thaw.2 = (g.frozen.map (·.deferred)).getD [] := by
  unfold thaw
  cases g.frozen <;> rfl

/-- How a check for a complete freeze can end. -/
inductive Finishes (g : Graph τ) : Graph τ × Option KernelSnapshot → Prop
  | waits : (∀ f, g.frozen = some f → f.waiting = ∅ → f.reply = none) → Finishes g (g, none)
  | answers {f : Frozen τ} {reply : ReplyId} (answers : List (ReplyId × Answer)) : g.frozen = some f →
      f.waiting = ∅ → f.reply = some (.rpc reply) →
      Finishes g ({ g with frozen := some { f with reply := none, snapshots := ∅ }, answers }, none)
  | saves {f : Frozen τ} (snapshot : KernelSnapshot) : g.frozen = some f → f.waiting = ∅ →
      f.reply = some .quit →
      Finishes g ({ g with frozen := some { f with reply := none, snapshots := ∅ } }, some snapshot)

omit [Task τ] in
theorem finishFreeze_cases (g : Graph τ) : Finishes g g.finishFreezeIfComplete := by
  unfold finishFreezeIfComplete
  cases h : g.frozen with
  | none => exact .waits fun f hf => by rw [h] at hf; cases hf
  | some frozen =>
    simp only
    split
    · rename_i hw
      exact .waits fun f hf he => absurd he (by rwa [← Option.some.inj (h.symm.trans hf)])
    · rename_i hw
      cases hr : frozen.reply with
      | none => exact .waits fun f hf _ => by rwa [← Option.some.inj (h.symm.trans hf)]
      | some reply =>
        cases reply with
        | rpc reply => exact .answers _ h (not_not.mp hw) hr
        | quit => exact .saves _ h (not_not.mp hw) hr

namespace Valid

theorem freeze (h : Valid g) (reply : FreezeReply) : Valid (g.freeze reply) := by
  have hf := freeze_froze g reply
  exact h.same hf.view hf.dirty hf.log hf.next

theorem thaw (h : Valid g) : Valid g.thaw.1 := by
  have hn : Valid { g with frozen := none } := h.same rfl rfl rfl rfl
  exact hn.quiet (quiet_thaw g)

omit [Task τ] in
theorem beginQuit (h : Valid g) : Valid g.beginQuit.1 := by
  refine ⟨h.sound.beginQuit, h.next.trans_le ?_⟩
  unfold Graph.beginQuit
  split
  · exact le_rfl
  · exact (Kept.of_frame (Counting.forEach (g := { g with quitting := true }) _ _ Counting.enqueue).frame).next

omit [Task τ] in
theorem finishFreeze (h : Valid g) : Valid g.finishFreezeIfComplete.1 := by
  have hf := finishFreeze_cases g
  generalize g.finishFreezeIfComplete = r at hf ⊢
  cases hf with
  | waits => exact h
  | answers | saves => exact h.same rfl rfl rfl rfl

omit [Task τ] in
theorem onTaskFrozen (h : Valid g) (id : TaskId) (number : ℕ) (snapshot : Snap.TaskKind) :
    Valid (g.onTaskFrozen id number snapshot) := by
  unfold Graph.onTaskFrozen
  cases g.frozen with
  | none => exact h
  | some frozen =>
    simp only
    split
    · exact h
    · exact h.same rfl rfl rfl rfl

theorem beginFreeze (h : Valid g) (reply : ReplyId) : Valid (g.beginFreeze reply) := by
  unfold Graph.beginFreeze
  split
  · exact h.same rfl rfl rfl rfl
  · split
    · exact h.same rfl rfl rfl rfl
    · exact h.freeze _

theorem perform (h : Valid g) (sender : TaskId) (command : KernelCommand τ) :
    Valid (g.perform sender command) := by
  by_cases ho : command.operates = true
  · exact h.runs (Runs.perform g sender ho)
  · cases command with
    | remove selector ack =>
      have hr := h.removeCommand sender selector
      cases ack with
      | none => exact hr
      | some reply => exact hr.same rfl rfl rfl rfl
    | freeze reply => exact h.beginFreeze reply
    | taskFrozen number snapshot => exact h.onTaskFrozen sender number snapshot
    | _ => exact absurd rfl ho

end Valid

end Graph

end Dekit
