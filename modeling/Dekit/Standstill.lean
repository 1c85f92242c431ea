import Dekit.Starts
import Dekit.Diagram

namespace Dekit

variable {τ : Type}

/-- What tasks report, timers that expire, and freezes and thaws. -/
def KernelCommand.unasked : KernelCommand τ → Bool
  | .taskStarted | .taskReady | .taskStopped _ | .taskFrozen _ _ | .stateTimeout _ _ | .freeze _ | .freezeTimeout _
  | .thaw => true
  | _ => false

namespace Graph

variable [Task τ] {g g' g'' : Graph τ} {H E : TaskId → Prop} {x id : TaskId}

structure Downed (H E : TaskId → Prop) (g : Graph τ) : Prop where
  told : Told (anyTerms τ) g
  sane : g.records.Sane (anyTerms τ)
  doomed : g.records.Doomed H E

theorem Downed.writes (h : g.Downed H E) (hw : Writes (anyTerms τ) .itself g g') : g'.Downed H E := by
  obtain ⟨ht, he⟩ := hw h.told h.sane
  exact ⟨ht, he.sane h.sane, h.doomed.edits he⟩

theorem Downed.idle (h : g.Downed H E) (hx : H x ∨ E x) {t : TaskHandle τ} (ht : g.tasks.lookup x = some t)
    (hsup : t.supported = true) : t.state ≠ .idle := by
  intro hs
  rcases hx with hx | hx
  · have hno := (h.doomed.held x t.record hx (tasks_of_lookup ht)).1
    rw [show t.record.supported = true from hsup] at hno
    cases hno
  · have hend := (h.doomed.ended x t.record hx (tasks_of_lookup ht)).1
    unfold Record.hasEnded at hend
    rw [show t.record.state = .idle from hs] at hend
    cases hend

/-- What the kernel keeps by itself, and what keeps it from starting some tasks. -/
structure Restful (P : Graph τ → Prop) (X : TaskId → Prop) : Prop where
  writes : ∀ {g g' : Graph τ}, P g → Writes (anyTerms τ) .itself g g' → P g'
  idle : ∀ {g : Graph τ} {x : TaskId}, P g → X x → ∀ {t : TaskHandle τ}, g.tasks.lookup x = some t →
    t.supported = true → t.state ≠ .idle

theorem restful_downed : Restful (Downed (τ := τ) H E) fun x => H x ∨ E x := ⟨Downed.writes, Downed.idle⟩

def Resting (P : Graph τ → Prop) (X : TaskId → Prop) (g g' : Graph τ) : Prop :=
  P g → P g' ∧ ∀ x, X x → Unstarted x g g'

namespace Resting

variable {P : Graph τ → Prop} {X : TaskId → Prop}

omit [Task τ] in
theorem refl (g : Graph τ) : Resting P X g g := fun h => ⟨h, fun _ _ => .refl g⟩

omit [Task τ] in
theorem trans (h : Resting P X g g') (h' : Resting P X g' g'') : Resting P X g g'' := by
  intro hp
  obtain ⟨hp', hu⟩ := h hp
  obtain ⟨hp'', hu'⟩ := h' hp'
  exact ⟨hp'', fun x hx => (hu x hx).trans (hu' x hx)⟩

omit [Task τ] in
theorem foldl {β : Type} {body : Graph τ → β → Graph τ} (h : ∀ g b, Resting P X g (body g b)) (l : List β)
    (g : Graph τ) :
    Resting P X g (l.foldl body g) :=
  Fold.foldl_rel refl (fun _ _ _ => trans) (fun g b _ => h g b) g

theorem of_writes (hr : Restful P X) (hw : Writes (anyTerms τ) .itself g g') (hu : ∀ x, Unstarted x g g') :
    Resting P X g g' :=
  fun hp => ⟨hr.writes hp hw, fun x _ => hu x⟩

theorem driveTask (hr : Restful P X) (g : Graph τ) (id : TaskId) : Resting P X g (g.driveTask id) := fun hp =>
  ⟨hr.writes hp (.driveTask g id), fun _ hx => .driveTask g id fun _ ht => hr.idle hp hx ht⟩

theorem settleStep (hr : Restful P X) (h : g.settleStep = some g') : Resting P X g g' := by
  have hw : Writes (anyTerms τ) .itself g g' := .settleStep h
  unfold Graph.settleStep at h
  split at h
  · rename_i id effect rest _
    obtain rfl := Option.some.inj h
    have hpop (x : TaskId) : Unstarted x g { g with pendingEffects := rest } := .of_log rfl
    exact of_writes hr hw fun x => (hpop x).trans (.onEffect _ id effect)
  · split at h
    · cases h
    · obtain rfl := Option.some.inj h
      exact trans (of_writes hr (.propagate g.propagateFuel g []) fun _ => .propagate _ _ _)
        (foldl (fun g id => driveTask hr g id) _ _)

theorem settle (hr : Restful P X) (g : Graph τ) : Resting P X g g.settle := by
  unfold Graph.settle
  generalize g.settleBudget + 1 = n
  induction n generalizing g with
  | zero => exact refl g
  | succ n ih =>
    unfold settleSteps
    cases h : g.settleStep with
    | none => exact refl g
    | some g' => exact (settleStep hr h).trans (ih g')

end Resting

def Rests (H E : TaskId → Prop) (g g' : Graph τ) : Prop :=
  g.Downed H E → g'.Downed H E ∧ ∀ x, H x ∨ E x → Unstarted x g g'

namespace Rests

theorem refl (g : Graph τ) : Rests H E g g := Resting.refl g

theorem trans (h : Rests H E g g') (h' : Rests H E g' g'') : Rests H E g g'' := Resting.trans h h'

theorem of_writes (hw : Writes (anyTerms τ) .itself g g') (hu : ∀ x, Unstarted x g g') : Rests H E g g' :=
  Resting.of_writes restful_downed hw hu

theorem aside (ha : Aside g g') (hl : g'.log = g.log) : Rests H E g g' := of_writes (.aside ha) fun _ => .of_log hl

theorem settle (g : Graph τ) : Rests H E g g.settle := Resting.settle restful_downed g

theorem beginQuit (g : Graph τ) : Rests H E g g.beginQuit.1 := by
  unfold Graph.beginQuit
  split
  · exact refl g
  · have hquit : Rests H E g { g with quitting := true } := fun hd =>
      ⟨⟨hd.told, hd.sane.aside rfl rfl rfl, hd.doomed.quits⟩, fun _ _ => .of_log rfl⟩
    refine hquit.trans (aside (.forEach _ _ .enqueue) ?_)
    exact (Counting.forEach (g := { g with quitting := true }) _ _ Counting.enqueue).log

theorem thaw (g : Graph τ) : Rests H E g g.thaw.1 := by
  refine aside (.thaw g) ?_
  exact (quiet_thaw g).log

theorem perform (g : Graph τ) (sender : TaskId) {command : KernelCommand τ} (h : command.unasked = true) :
    Rests H E g (g.perform sender command) := by
  cases command with
  | taskStarted => exact of_writes (.onTaskStarted g sender) fun _ => .onTaskStarted g sender
  | taskReady => exact of_writes (.onTaskReady g sender) fun _ => .onTaskReady g sender
  | taskStopped info => exact of_writes (.onTaskStopped g sender trivial) fun _ => .onTaskStopped g sender info
  | stateTimeout id epoch => exact of_writes (.onStateTimeout g id epoch) fun _ => .onStateTimeout g id epoch
  | freeze reply =>
    refine aside (.beginFreeze g reply) ?_
    change (g.beginFreeze reply).log = g.log
    unfold beginFreeze
    split
    · rfl
    · split
      · rfl
      · exact (freeze_froze g _).log
  | taskFrozen number snapshot =>
    refine aside (.onTaskFrozen g sender number snapshot) ?_
    change (g.onTaskFrozen sender number snapshot).log = g.log
    unfold onTaskFrozen
    split
    · rfl
    · split <;> rfl
  | freezeTimeout | thaw => exact refl g
  | _ => cases h

end Rests

end Graph

open Dekit.Graph

namespace Kernel

variable [Task τ] {k k' : Kernel τ} {msg : KernelMessage τ} {H E : TaskId → Prop}

theorem rests_thaw (k : Kernel τ) : Rests H E k.graph k.thaw.graph := .thaw k.graph

theorem rests_beginQuit (k : Kernel τ) : Rests H E k.graph k.beginQuit.1.graph := .beginQuit k.graph

theorem rests_runCommand (h : msg.command.unasked = true) : Rests H E k.graph (k.runCommand msg).1.graph := by
  have hp : Rests H E k.graph (k.graph.perform msg.sender msg.command) := .perform k.graph msg.sender h
  obtain ⟨sender, command⟩ := msg
  unfold runCommand
  cases command with
  | quit | quitWithoutSave | quitWithin => cases h
  | freezeTimeout number =>
    simp only
    split
    · exact (rests_thaw k).trans (rests_beginQuit k.thaw)
    · exact .refl _
  | thaw => exact rests_thaw k
  | _ => exact hp

theorem rests_finishFreeze (k : Kernel τ) : Rests H E k.graph k.finishFreeze.1.graph := by
  have ha := Aside.finishFreeze k.graph
  have hl : k.graph.finishFreezeIfComplete.1.log = k.graph.log := by
    have hf := finishFreeze_cases k.graph
    generalize k.graph.finishFreezeIfComplete = r at hf ⊢
    cases hf <;> rfl
  unfold finishFreeze
  generalize k.graph.finishFreezeIfComplete = r at ha hl ⊢
  obtain ⟨g, saved⟩ := r
  cases saved with
  | none => exact .aside ha hl
  | some snapshot =>
    exact (Rests.aside ha hl).trans
      ((rests_thaw { k with graph := g, saved := _ }).trans (rests_beginQuit (Kernel.thaw _)))

theorem rests_dispatchNow (h : msg.command.unasked = true) : Rests H E k.graph (k.dispatchNow msg).1.graph := by
  have hr := rests_runCommand (H := H) (E := E) (k := { k with handled := k.handled ++ [msg] }) h
  unfold dispatchNow
  generalize ({ k with handled := k.handled ++ [msg] } : Kernel τ).runCommand msg = r at hr ⊢
  obtain ⟨k', exit⟩ := r
  cases exit with
  | none => exact hr.trans (rests_finishFreeze k')
  | some exit => exact hr

theorem rests_dispatch (h : msg.command.unasked = true) : Rests H E k.graph (k.dispatch msg).1.graph := by
  unfold dispatch
  split
  · exact rests_dispatchNow h
  · split
    · exact rests_dispatchNow h
    · rename_i hc
      obtain ⟨sender, command⟩ := msg
      unfold cover
      cases command with
      | quitWithin => cases h
      | _ => exact .refl _
    · exact .aside (.of_eq rfl rfl) rfl

theorem rests_afterDispatch (k : Kernel τ) : Rests H E k.graph k.afterDispatch.graph := by
  unfold afterDispatch
  split
  · exact .refl _
  · refine (Rests.settle k.graph).trans fun hd => ⟨⟨hd.told, hd.sane.aside rfl rfl rfl, ?_⟩, fun _ _ => .of_log rfl⟩
    exact ⟨hd.doomed.wanted, hd.doomed.ended, hd.doomed.held⟩

theorem rests_turn (h : msg.command.unasked = true) (now : Instant) : Rests H E k.graph (k.turn now msg).graph := by
  have hnow : Rests H E k.graph { k.graph with now } := .aside (.of_eq rfl rfl) rfl
  have hd := hnow.trans (rests_dispatch (k := { k with graph := { k.graph with now } }) h)
  unfold turn
  generalize ({ k with graph := { k.graph with now } } : Kernel τ).dispatch msg = r at hd ⊢
  obtain ⟨k', exit⟩ := r
  cases exit with
  | true => exact hd
  | false => exact hd.trans (rests_afterDispatch k')

def Unasked (_ : Kernel τ) (msg : Option (KernelMessage τ)) : Prop := ∀ m, msg = some m → m.command.unasked = true

theorem rests_step {msg : Option (KernelMessage τ)} (h : Unasked k msg) (hs : Step k msg k') :
    Rests H E k.graph k'.graph := by
  cases hs with
  | @replayed now m rest _ _ _ => exact rests_turn (k := { k with replay := rest }) (h m rfl) now
  | @received now m _ _ _ => exact rests_turn (k := k.arrive m) (h m rfl) now
  | @expired now entry _ _ _ _ _ =>
    exact rests_turn (k := arrive { k with timers := k.timers.expire entry } entry.timeout) (h _ rfl) now
  | @alarm now due number _ _ _ _ _ =>
    exact rests_turn (k := arrive { k with alarms := k.alarms.erase (due, number) } (alarmed number)) (h _ rfl) now
  | alloc _ => exact .aside (.of_eq rfl rfl) rfl

theorem rests_run (h : Run Unasked k k') : Rests H E k.graph k'.graph := by
  induction h with
  | refl => exact .refl _
  | tail _ hok hs ih => exact ih.trans (rests_step hok hs)

theorem downed_of_settled (h : Reachable k) (hdirty : k.graph.dirty = []) :
    k.graph.Downed k.graph.Held k.graph.Ended := by
  obtain ⟨ht, hs⟩ := h.sane
  have hk := (valid_of_reachable h).sound
  have hempty : k.graph.view.dirty = ∅ := by
    have := hk.queued.1
    rw [hdirty] at this
    exact this
  have hfixed := View.Fixed.of_fresh hk.fresh hempty
  refine ⟨ht, hs, ⟨.inr fun x r hx => ?_, fun x r hx hr => ?_, fun x r hx hr => ?_⟩⟩
  · obtain ⟨t, ht, rfl⟩ := tasks_some hx
    have hn : k.graph.view.node x = some t.node := by rw [view_node, ht]; rfl
    rw [records_wants]
    unfold computeWanted
    rw [ht, Option.any_some, ← Bool.and_assoc]
    exact hfixed.wanted x t.node hn
  · obtain ⟨t, ht, hend, hsat⟩ := hx
    obtain ⟨t₀, ht₀, rfl⟩ := tasks_some hr
    obtain rfl := Option.some.inj (ht.symm.trans ht₀)
    exact ⟨hend, hsat⟩
  · obtain ⟨t, ht, rfl⟩ := tasks_some hr
    have hn : k.graph.view.node x = some t.node := by rw [view_node, ht]; rfl
    have hsup (hup : t.supported = true) := hfixed.supported x t.node hn hup
    rcases hx t ht with hw | ⟨dep, hdep, hdead⟩
    · refine ⟨?_, .inl hw⟩
      by_contra hne
      have hup := (hsup (Bool.not_eq_false _ ▸ hne)).1
      rw [show t.node.wanted = false from hw] at hup
      cases hup
    · refine ⟨?_, .inr ⟨dep, hdep, hdead.cases hk.shape⟩⟩
      by_contra hne
      have hdown := (hsup (Bool.not_eq_false _ ▸ hne)).2 dep hdep
      have hsat := hdead.1
      unfold View.supports at hdown
      unfold satisfied at hsat
      rw [view_node] at hdown
      cases hl : k.graph.tasks.lookup dep with
      | none => rw [hl] at hdown; cases hdown
      | some t' =>
        rw [hl] at hdown hsat
        have hboth := (Bool.and_eq_true_iff.mp hdown).2
        rw [show t'.node.isSatisfied = false from hsat] at hboth
        cases hboth

/-- A task that is neither satisfied nor live is not started by itself, and gets no support but where its own end
is all that keeps it down. -/
theorem dead_stays_down (h : Reachable k) (hdirty : k.graph.dirty = []) {id : TaskId}
    (hsat : k.graph.satisfied id = false) (hlive : k.graph.isLive id = false) (hrun : Run Unasked k k') :
    (∃ done, k'.graph.log = done ++ k.graph.log ∧ ∀ v, (.sent id .start, v) ∉ done) ∧
    ∀ t t', k.graph.tasks.lookup id = some t → k'.graph.tasks.lookup id = some t' → t'.supported = true →
      t.hasEnded = true ∧ t.wanted = true ∧
        ∀ dep ∈ k.graph.edges id, k.graph.satisfied dep = true ∨ k.graph.isLive dep = true := by
  have hshape := (valid_of_reachable h).sound.shape
  have hdead : k.graph.Dead id := ⟨hsat, hlive⟩
  obtain ⟨hd, hu⟩ := rests_run hrun (downed_of_settled h hdirty)
  refine ⟨hu id (hdead.cases hshape), fun t t' ht ht' hup => ?_⟩
  have hnot : ¬ k.graph.Held id := fun hheld => by
    have hno := (hd.doomed.held id t'.record hheld (tasks_of_lookup ht')).1
    rw [show t'.record.supported = true from hup] at hno
    cases hno
  have hfree : ¬ (t.wanted = false ∨ ∃ dep ∈ k.graph.edges id, k.graph.Dead dep) := fun hwhy => by
    refine hnot fun t₀ ht₀ => ?_
    obtain rfl := Option.some.inj (ht.symm.trans ht₀)
    exact hwhy
  refine ⟨?_, ?_, fun dep hdep => ?_⟩
  · rcases dead_cases hshape ht hlive with hw | hend | hdep
    · exact absurd (.inl hw) hfree
    · exact hend
    · exact absurd (.inr hdep) hfree
  · by_contra hw
    exact hfree (.inl (Bool.eq_false_iff.mpr hw))
  · by_contra hno
    rw [not_or, Bool.not_eq_true, Bool.not_eq_true] at hno
    exact hfree (.inr ⟨dep, hdep, hno⟩)

/-- Both exit: one for good, the other to be retried. -/
def fallen : Kernel ChannelTask :=
  (bothUp.hear ⟨2, .taskStopped .error⟩).hear ⟨1, .taskStopped .error⟩

theorem reachable_fallen : Reachable fallen :=
  (reachable_bothUp.hear (by decide) (by decide) ⟨2, .taskStopped .error⟩).hear (by decide) (by decide)
    ⟨1, .taskStopped .error⟩

def retry : TimerEntry := ⟨0, 1, 3, backoffMin⟩

def retrying : Kernel ChannelTask :=
  (({ fallen with timers := fallen.timers.expire retry }).arrive retry.timeout).turn backoffMin retry.timeout

def risen : Kernel ChannelTask := retrying.hear ⟨1, .taskStarted⟩

theorem run_risen : Run Unasked fallen risen := by
  have h₁ : Run Unasked fallen retrying := by
    have hstep : Step fallen (some retry.timeout) retrying :=
      .expired (by decide) (by decide) (by decide) (by decide) (by decide)
    refine .tail .refl (fun m hm => ?_) hstep
    rw [← Option.some.inj hm]
    rfl
  refine .tail h₁ (fun m hm => ?_) (step_hear (by decide) (by decide) ⟨1, .taskStarted⟩)
  rw [← Option.some.inj hm]
  rfl

theorem dead_stays_down_fallen : ∃ done, risen.graph.log = done ++ fallen.graph.log ∧ ∀ v, (.sent 2 .start, v) ∉ done :=
  (dead_stays_down reachable_fallen (by decide) (by decide) (by decide) run_risen).1

/-- What required a task that exited gets its support again when that one is retried. -/
theorem dead_supported_again : Reachable fallen ∧ fallen.graph.dirty = [] ∧ fallen.graph.pendingEffects = [] ∧
    fallen.graph.quitting = false ∧ fallen.graph.satisfied 2 = false ∧ fallen.graph.isLive 2 = false ∧
    (fallen.graph.tasks.lookup 2).map (·.supported) = some false ∧
    Run Unasked fallen risen ∧ (risen.graph.tasks.lookup 2).map (·.supported) = some true :=
  ⟨reachable_fallen, by decide, by decide, by decide, by decide, by decide, by decide, run_risen, by decide⟩

end Kernel

end Dekit
