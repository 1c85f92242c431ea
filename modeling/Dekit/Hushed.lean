import Dekit.Hearing

namespace Dekit

def KernelCommand.report {τ : Type} : KernelCommand τ → Option TaskEffect
  | taskStarted => some .started
  | taskReady => some .ready
  | taskStopped info => some (.stopped info)
  | _ => none

/-- Whether a report is of the state that its task is in. -/
def TaskEffect.moves : TaskEffect → TaskState → Bool
  | started, s => s = .starting
  | ready, s => s = .running
  | stopped _, s => s.isActive

namespace Graph

variable {τ : Type} {g g' g'' : Graph (Recorded τ)} {id : TaskId} {number : ℕ} {cmd : TaskCmd}

def Moves (g : Graph τ) (id : TaskId) (effect : TaskEffect) : Prop :=
  ∃ t, g.tasks.lookup id = some t ∧ effect.moves t.state = true

def Hushed (g : Graph (Recorded τ)) : Prop :=
  ∀ f, g.frozen = some f → ∀ id cs, g.heard id = some cs → cs.getLast? = some (.freeze f.number)

def Opens (cmd : TaskCmd) (g g' : Graph (Recorded τ)) : Prop :=
  ∀ id, ∃ more, g'.heard id = (g.heard id).map (· ++ cmd :: more)

/-- What becomes of a freeze: it goes on, and no task receives anything, or every task is told of its end. -/
inductive Spans (number : ℕ) (g g' : Graph (Recorded τ)) : Prop
  | held : g'.frozen.map Frozen.number = some number → (∀ id, g'.heard id = g.heard id) → Spans number g g'
  | thawed : g'.frozen = none → Opens .thaw g g' → Spans number g g'

theorem hushed_of_none (h : g.frozen = none) : g.Hushed := by
  intro f hf
  rw [h] at hf
  cases hf

theorem Opens.hears {ok : TaskCmd → Prop} (h : Opens cmd g g') (h' : Hears ok g' g'') : Opens cmd g g'' := by
  intro id
  obtain ⟨more, hmore⟩ := h id
  obtain ⟨cs, hcs, -⟩ := h' id
  refine ⟨more ++ cs, ?_⟩
  rw [hcs, hmore, Option.map_map]
  exact congrArg (fun f => (g.heard id).map f) (funext fun l => List.append_assoc l (cmd :: more) cs)

theorem Hears.none (h : Hears (fun _ => False) g g') (id : TaskId) : g'.heard id = g.heard id := by
  obtain ⟨cs, hcs, hnone⟩ := h id
  have hnil : cs = [] := List.eq_nil_iff_forall_not_mem.mpr hnone
  rw [hcs, hnil]
  simp

theorem Spans.hushed (h : Spans number g g') {f : Frozen (Recorded τ)} (hf : g.frozen = some f)
    (hn : f.number = number) (hg : g.Hushed) : g'.Hushed := by
  cases h with
  | held hnum hsame =>
    intro f' hf' id cs hcs
    rw [hf', Option.map_some, Option.some.injEq] at hnum
    rw [hsame id] at hcs
    rw [hnum, ← hn]
    exact hg f hf id cs hcs
  | thawed hnone _ => exact hushed_of_none hnone

theorem heard_all {α : Type} {c : TaskCmd} {p : α → Graph (Recorded τ)} {body : α → TaskId → α}
    (hbody : ∀ a x y, (p (body a x)).heard y = ((p a).heard y).map (· ++ if y = x then [c] else [])) (l : List TaskId)
    (a : α) (y : TaskId) : (p (l.foldl body a)).heard y = ((p a).heard y).map (· ++ List.replicate (l.count y) c) := by
  induction l generalizing a with
  | nil => simp
  | cons x l ih =>
    rw [List.foldl_cons, ih, hbody, Option.map_map]
    refine congrArg (fun f => ((p a).heard y).map f) (funext fun cs => ?_)
    by_cases he : y = x
    · subst he
      simp [List.replicate_succ]
    · simp [he, Ne.symm he]

section commands

variable [Task τ]

theorem heard_sendCmd (g : Graph (Recorded τ)) (x : TaskId) (cmd : TaskCmd) (y : TaskId) :
    (g.sendCmd x cmd).heard y = (g.heard y).map (· ++ if y = x then [cmd] else []) := by
  have hnote : (g.noteSent x cmd).tasks = g.tasks := by
    unfold noteSent
    split <;> rfl
  have hsame : (g.noteSent x cmd).heard y = g.heard y := by rw [heard, hnote, ← heard]
  unfold Graph.sendCmd
  simp only
  split
  · rename_i t ht
    rw [Hears.heard_handled ht, hsame]
  · rename_i hnone
    rw [hsame]
    by_cases he : y = x
    · subst he
      rw [hnote] at hnone
      simp [heard, hnone]
    · simp [he]

omit [Task τ] in
theorem heard_once (g : Graph (Recorded τ)) (cmd : TaskCmd) (y : TaskId) :
    (g.heard y).map (· ++ List.replicate ((g.walk initTaskId g.tasks.keys).count y) cmd) =
      (g.heard y).map (· ++ [cmd]) := by
  cases ht : g.tasks.lookup y with
  | none => simp [heard, ht]
  | some t =>
    have hmem : y ∈ g.walk initTaskId g.tasks.keys := by
      rw [mem_walk, Finmap.mem_keys_iff, ht]
      rfl
    have hnodup : (g.walk initTaskId g.tasks.keys).Nodup := g.hasher.nodup _ _ _
    rw [List.count_eq_one_of_mem hnodup hmem, List.replicate_one]

theorem heard_thaw {f : Frozen (Recorded τ)} (hf : g.frozen = some f) (y : TaskId) :
    g.thaw.1.heard y = (g.heard y).map (· ++ [.thaw]) := by
  have hall := heard_all (p := fun g : Graph (Recorded τ) => g) (c := .thaw)
    (fun g x y => heard_sendCmd g x .thaw y) (g.walk initTaskId g.tasks.keys)
    { g with frozen := none, tick := g.tick + 1 } y
  unfold Graph.thaw
  rw [hf]
  exact hall.trans (heard_once g .thaw y)

theorem thaw_frozen (g : Graph τ) : g.thaw.1.frozen = none := (Kept.of_frame (quiet_thaw g).frame).frozen

theorem spans_thaw {f : Frozen (Recorded τ)} (hf : g.frozen = some f) : Spans number g g.thaw.1 := by
  refine .thawed (thaw_frozen g) fun id => ⟨[], ?_⟩
  rw [heard_thaw hf]

theorem heard_freezeTask (number : ℕ) (acc : Graph (Recorded τ) × Option TaskId) (x y : TaskId) :
    (freezeTask number acc x).1.heard y = (acc.1.heard y).map (· ++ if y = x then [.freeze number] else []) := by
  unfold freezeTask
  split
  · rename_i hnone
    by_cases he : y = x
    · subst he
      simp [heard, hnone]
    · simp [he]
  · rename_i t ht
    exact Hears.heard_handled ht (.freeze number) y

theorem heard_freeze (g : Graph (Recorded τ)) (reply : FreezeReply) (y : TaskId) :
    (g.freeze reply).heard y = (g.heard y).map (· ++ [.freeze (g.freezes + 1)]) := by
  have hall := heard_all (p := Prod.fst) (c := .freeze (g.freezes + 1)) (heard_freezeTask (g.freezes + 1))
    (g.walk initTaskId g.tasks.keys) ({ g with freezes := g.freezes + 1, tick := g.tick + 1 }, none) y
  have htasks : (g.freezeTasks (g.freezes + 1)).1.heard y = (g.heard y).map (· ++ [.freeze (g.freezes + 1)]) :=
    hall.trans (heard_once g _ y)
  rw [← htasks]
  unfold Graph.freeze
  simp only
  generalize g.freezeTasks (g.freezes + 1) = r
  obtain ⟨g₁, dead⟩ := r
  cases dead <;> cases reply <;> rfl

theorem hushed_freeze (g : Graph (Recorded τ)) (reply : FreezeReply) : (g.freeze reply).Hushed := by
  intro f hf id cs hcs
  rw [(freeze_froze g reply).frozen, Option.some.injEq] at hf
  rw [heard_freeze] at hcs
  obtain ⟨cs', -, rfl⟩ := Option.map_eq_some_iff.mp hcs
  rw [← hf]
  simp

theorem onEffect_unmoved {effect : TaskEffect} (h : ¬ g.Moves id effect) : g.onEffect id effect = g := by
  cases ht : g.tasks.lookup id with
  | none => cases effect <;> simp [Graph.onEffect, onTaskStarted, onTaskReady, onTaskStopped, ht]
  | some t =>
    have hs : ¬ effect.moves t.state = true := fun hs => h ⟨t, ht, hs⟩
    cases effect <;> cases hstate : t.state <;> simp [TaskEffect.moves, TaskState.isActive, hstate] at hs <;>
      simp [Graph.onEffect, onTaskStarted, onTaskReady, onTaskStopped, ht, hstate]

theorem heard_onEffect {effect : TaskEffect} (hok : g.Moves id effect → ¬ g.Listened id) (y : TaskId) :
    (g.onEffect id effect).heard y = g.heard y := by
  by_cases hm : g.Moves id effect
  · exact (Hears.onEffect (fun hl => absurd hl (hok hm)) effect).none y
  · rw [onEffect_unmoved hm]

end commands

theorem Spans.held_refl {f : Frozen (Recorded τ)} (hf : g.frozen = some f) : Spans f.number g g :=
  .held (by rw [hf]; rfl) fun _ => rfl

theorem Spans.after_held (hsame : ∀ id, g'.heard id = g.heard id) (h : Spans number g' g'') : Spans number g g'' := by
  cases h with
  | held hnum hheard => exact .held hnum fun id => (hheard id).trans (hsame id)
  | thawed hnone hopens =>
    refine .thawed hnone fun id => ?_
    obtain ⟨more, hmore⟩ := hopens id
    exact ⟨more, by rw [hmore, hsame]⟩

theorem Spans.same (h : Spans number g g') (ht : g''.tasks = g'.tasks) (hf : g''.frozen = g'.frozen) :
    Spans number g g'' := by
  have hheard (id : TaskId) : g''.heard id = g'.heard id := by rw [heard, ht, ← heard]
  cases h with
  | held hnum hsame => exact .held (hf ▸ hnum) fun id => (hheard id).trans (hsame id)
  | thawed hnone hopens =>
    have hlast : Hears (fun _ => True) g' g'' := .of_heard hheard
    exact .thawed (hf ▸ hnone) (hopens.hears hlast)

theorem Spans.of_now {now : Instant} (h : Spans number { g with now } g') : Spans number g g' := by
  have hsame (id : TaskId) : ({ g with now } : Graph (Recorded τ)).heard id = g.heard id := rfl
  exact .after_held hsame h

theorem beginQuit_frozen (g : Graph τ) : g.beginQuit.1.frozen = g.frozen := by
  unfold Graph.beginQuit
  split
  · rfl
  · exact (Kept.of_frame (Counting.forEach (g := { g with quitting := true }) _ _ Counting.enqueue).frame).frozen

end Graph

open Dekit.Graph

namespace Kernel

variable {τ : Type} [Task τ] {k k' k₀ : Kernel (Recorded τ)} {number : ℕ}

theorem spans_thaw {f : Frozen (Recorded τ)} (hf : k.graph.frozen = some f) :
    Spans number k.graph k.thaw.beginQuit.1.graph ∧ Spans number k.graph k.thaw.graph := by
  have hthaw : Spans number k.graph k.graph.thaw.1 := Graph.spans_thaw hf
  refine ⟨?_, hthaw⟩
  cases hthaw with
  | held hnum _ =>
    rw [thaw_frozen] at hnum
    cases hnum
  | thawed hnone hopens =>
    have hquit : Hears (fun _ => True) k.thaw.graph k.thaw.beginQuit.1.graph := Hears.beginQuit _
    exact .thawed ((beginQuit_frozen _).trans hnone) (hopens.hears hquit)

theorem spans_finish {f : Frozen (Recorded τ)} (hf : k.graph.frozen = some f) :
    Spans f.number k.graph k.finishFreeze.1.graph := by
  have hcases := finishFreeze_cases k.graph
  unfold finishFreeze
  generalize k.graph.finishFreezeIfComplete = r at hcases ⊢
  cases hcases with
  | waits => exact .held_refl hf
  | answers answers hf' _ _ =>
    obtain rfl := Option.some.inj (hf.symm.trans hf')
    exact .held rfl fun _ => rfl
  | @saves f' snapshot hf' _ _ =>
    generalize hg : ({ k.graph with frozen := some { f' with reply := none, snapshots := ∅ } } : Graph (Recorded τ)) = g'
    have hfrozen : g'.frozen = some { f' with reply := none, snapshots := ∅ } := by rw [← hg]
    have hsame (id : TaskId) : g'.heard id = k.graph.heard id := by rw [← hg]; rfl
    exact .after_held hsame (spans_thaw (k := { k with graph := g', saved := _ }) hfrozen).1

theorem finishFreeze_none (hf : k.graph.frozen = none) : k.finishFreeze.1.graph = k.graph := by
  unfold finishFreeze finishFreezeIfComplete
  rw [hf]

theorem spans_dropped {f : Frozen (Recorded τ)} (hf : k.graph.frozen = some f) (hq : k.graph.freezingForQuit = true)
    (reply : Option ReplyId) : Spans number k.graph (k.quit false reply).1.graph := by
  unfold quit
  simp only [Bool.false_eq_true, false_and, if_false, hq, if_true]
  have hpass : Spans number k.graph k.thaw.beginQuit.1.graph := (spans_thaw hf).1
  cases reply with
  | none => exact hpass
  | some reply => exact hpass.same rfl rfl

theorem spans_perform {f : Frozen (Recorded τ)} (hv : Valid k.graph) (hf : k.graph.frozen = some f)
    (msg : KernelMessage (Recorded τ)) (hd : msg.command.disposition k.graph.freezingForQuit = .now)
    (hreach : msg.command.reachesKernel = false)
    (hok : ∀ effect, msg.command.report = some effect → k.graph.Moves msg.sender effect → ¬ k.graph.Listened msg.sender) :
    Spans f.number k.graph (k.graph.perform msg.sender msg.command) := by
  obtain ⟨sender, command⟩ := msg
  have hkept (hne : ∀ reply, command ≠ .freeze reply) (hnt : ∀ number snapshot, command ≠ .taskFrozen number snapshot)
      (hheard : ∀ id, (k.graph.perform sender command).heard id = k.graph.heard id) :
      Spans f.number k.graph (k.graph.perform sender command) := by
    refine .held ?_ hheard
    rw [(hv.perform_kept sender hne hnt).frozen, hf]
    rfl
  cases command with
  | taskStarted => exact hkept (by simp) (by simp) fun y => heard_onEffect (hok .started rfl) y
  | taskReady => exact hkept (by simp) (by simp) fun y => heard_onEffect (hok .ready rfl) y
  | taskStopped info => exact hkept (by simp) (by simp) fun y => heard_onEffect (hok (.stopped info) rfl) y
  | query => exact .held_refl hf
  | freeze reply =>
    have hsame : k.graph.perform sender (.freeze reply) =
        k.graph.answer reply (.frozen (.error "a freeze is already in progress")) := by
      simp [Graph.perform, beginFreeze, hf]
    rw [hsame]
    exact .held (by simp [answer, hf]) fun _ => rfl
  | taskFrozen number snapshot =>
    simp only [Graph.perform, onTaskFrozen, hf]
    split
    · exact .held_refl hf
    · exact .held rfl fun _ => rfl
  | quit | quitWithoutSave | quitWithin | freezeTimeout | thaw => cases hreach
  | _ => cases hd

theorem spans_command {f : Frozen (Recorded τ)} (hv : Valid k.graph) (hf : k.graph.frozen = some f)
    (msg : KernelMessage (Recorded τ)) (hd : msg.command.disposition k.graph.freezingForQuit = .now)
    (hok : ∀ effect, msg.command.report = some effect → k.graph.Moves msg.sender effect → ¬ k.graph.Listened msg.sender) :
    Spans f.number k.graph (k.runCommand msg).1.graph := by
  have hperform := spans_perform hv hf msg hd
  obtain ⟨sender, command⟩ := msg
  unfold runCommand
  cases hq : k.graph.freezingForQuit with
  | true =>
    cases command with
    | quit => simp [KernelCommand.disposition, hq] at hd
    | quitWithoutSave => exact spans_dropped hf hq none
    | quitWithin save reply =>
      cases save with
      | true => simp [KernelCommand.disposition, hq] at hd
      | false => exact spans_dropped hf hq (some reply)
    | freezeTimeout number =>
      simp only
      split
      · exact (spans_thaw hf).1
      · exact .held_refl hf
    | thaw => exact (spans_thaw hf).2
    | _ => exact hperform rfl hok
  | false =>
    cases command with
    | quit | quitWithoutSave => simp [KernelCommand.disposition, hq] at hd
    | quitWithin save reply => cases save <;> simp [KernelCommand.disposition, hq] at hd
    | freezeTimeout number =>
      simp only [Bool.false_eq_true, false_and, if_false]
      exact .held_refl hf
    | thaw => exact (spans_thaw hf).2
    | _ => exact hperform rfl hok

/-- Reports that change nothing, or of which no task is told. -/
def Undisturbed (k : Kernel (Recorded τ)) (m : Option (KernelMessage (Recorded τ))) : Prop :=
  ∀ msg effect, m = some msg → msg.command.report = some effect → k.graph.frozen.isSome = true →
    k.graph.Moves msg.sender effect → ¬ k.graph.Listened msg.sender

theorem spans_frozen {f : Frozen (Recorded τ)} (hv : Valid k.graph) (hf : k.graph.frozen = some f)
    (msg : KernelMessage (Recorded τ)) (hok : Undisturbed k (some msg)) :
    Spans f.number k.graph (k.dispatch msg).1.graph := by
  have hok' : ∀ effect, msg.command.report = some effect → k.graph.Moves msg.sender effect →
      ¬ k.graph.Listened msg.sender := fun effect hr => hok msg effect rfl hr (by rw [hf]; rfl)
  unfold dispatch
  rw [hf]
  simp only
  cases hd : msg.command.disposition k.graph.freezingForQuit with
  | covered =>
    unfold cover
    cases msg.command with
    | quitWithin save reply => exact (Spans.held_refl hf).same rfl rfl
    | _ => exact .held_refl hf
  | deferred => exact .held rfl fun _ => rfl
  | now =>
    have hrun := spans_command (k := { k with handled := k.handled ++ [msg] }) hv hf msg hd hok'
    simp only
    unfold dispatchNow
    generalize ({ k with handled := k.handled ++ [msg] } : Kernel (Recorded τ)).runCommand msg = r at hrun ⊢
    obtain ⟨k', exit⟩ := r
    cases exit with
    | some exit => exact hrun
    | none =>
      cases hrun with
      | held hnum hsame =>
        obtain ⟨f', hf', hn⟩ := Option.map_eq_some_iff.mp hnum
        exact .after_held hsame (hn ▸ spans_finish hf')
      | thawed hnone hopens =>
        rw [finishFreeze_none hnone]
        exact .thawed hnone hopens

theorem spans_turn {f : Frozen (Recorded τ)} (hv : Valid k.graph) (hf : k.graph.frozen = some f) (now : Instant)
    (msg : KernelMessage (Recorded τ)) (hok : Undisturbed k (some msg)) :
    Spans f.number k.graph (k.turn now msg).graph := by
  have hd := spans_frozen (k := { k with graph := { k.graph with now } }) (hv.same rfl rfl rfl rfl) hf msg hok
  replace hd := hd.of_now
  unfold turn
  generalize ({ k with graph := { k.graph with now } } : Kernel (Recorded τ)).dispatch msg = r at hd ⊢
  obtain ⟨k', exit⟩ := r
  cases exit with
  | true => exact hd
  | false =>
    simp only
    unfold afterDispatch
    cases hd with
    | held hnum hsame =>
      have hsome : k'.graph.frozen.isSome = true := by
        obtain ⟨f', hf', -⟩ := Option.map_eq_some_iff.mp hnum
        rw [hf']
        rfl
      rw [if_pos hsome]
      exact .held hnum hsame
    | thawed hnone hopens =>
      have hnot : ¬ k'.graph.frozen.isSome = true := by
        rw [hnone]
        exact Bool.false_ne_true
      have hsettle : Hears (fun _ => True) k'.graph k'.graph.settle := Hears.settle (fun _ => trivial) _
      rw [if_neg hnot]
      exact (Spans.thawed ((Advances.settle k'.graph).kept.frozen.trans hnone) (hopens.hears hsettle)).same rfl rfl

/-- Whatever a step is, it goes on with a freeze or ends it. -/
theorem spans_step {m : Option (KernelMessage (Recorded τ))} {f : Frozen (Recorded τ)} (hv : Valid k.graph)
    (hf : k.graph.frozen = some f) (hok : Undisturbed k m) (h : Step k m k') : Spans f.number k.graph k'.graph := by
  cases h with
  | @replayed now msg rest _ _ hr => exact spans_turn (k := { k with replay := rest }) hv hf now msg hok
  | @received now msg _ _ hr => exact spans_turn (k := k.arrive msg) hv hf now msg hok
  | @expired now entry _ _ hr _ _ =>
    exact spans_turn (k := { k with timers := k.timers.expire entry }.arrive entry.timeout) hv hf now entry.timeout hok
  | @alarm now due number _ _ hr _ _ =>
    exact spans_turn (k := { k with alarms := k.alarms.erase (due, number) }.arrive (alarmed number)) hv hf now
      (alarmed number) hok
  | alloc => exact (Spans.held_refl hf).same rfl rfl

section unfrozen

theorem hushed_runCommand (hv : Valid k.graph) (hf : k.graph.frozen = none) (msg : KernelMessage (Recorded τ)) :
    (k.runCommand msg).1.graph.Hushed := by
  have hforQuit : k.graph.freezingForQuit = false := by simp [freezingForQuit, hf]
  have hquit (save : Bool) (reply : Option ReplyId) : (k.quit save reply).1.graph.Hushed := by
    unfold quit
    split
    · exact hushed_freeze _ _
    · have hnone : (k.beginQuit.1).graph.frozen = none := (beginQuit_frozen k.graph).trans hf
      simp only [hforQuit, Bool.false_eq_true, if_false]
      cases reply <;> exact hushed_of_none hnone
  have hkept (hne : ∀ reply, msg.command ≠ .freeze reply)
    (hnt : ∀ number snapshot, msg.command ≠ .taskFrozen number snapshot) :
      (k.graph.perform msg.sender msg.command).Hushed :=
    hushed_of_none ((hv.perform_kept msg.sender hne hnt).frozen.trans hf)
  obtain ⟨sender, command⟩ := msg
  unfold runCommand
  cases command with
  | quit => exact hquit true none
  | quitWithoutSave => exact hquit false none
  | quitWithin save reply => exact hquit save (some reply)
  | freezeTimeout number =>
    simp only [hforQuit, Bool.false_eq_true, false_and, if_false]
    exact hushed_of_none hf
  | thaw => exact hushed_of_none (thaw_frozen k.graph)
  | freeze reply =>
    simp only [Graph.perform, beginFreeze]
    split
    · exact hushed_of_none hf
    · split
      · exact hushed_of_none hf
      · exact hushed_freeze _ _
  | taskFrozen number snapshot =>
    simp only [Graph.perform, onTaskFrozen, hf]
    exact hushed_of_none hf
  | _ => exact hkept (by simp) (by simp)

theorem hushed_finishFreeze (h : k.graph.Hushed) : k.finishFreeze.1.graph.Hushed := by
  cases hf : k.graph.frozen with
  | none =>
    rw [finishFreeze_none hf]
    exact h
  | some f => exact (spans_finish hf).hushed hf rfl h

theorem hushed_turn (hv : Valid k.graph) (hf : k.graph.frozen = none) (now : Instant)
    (msg : KernelMessage (Recorded τ)) :
    (k.turn now msg).graph.Hushed := by
  have hrun := hushed_runCommand (k := { k with graph := { k.graph with now }, handled := k.handled ++ [msg] })
    (hv.same rfl rfl rfl rfl) hf msg
  have hd : ({ k with graph := { k.graph with now } } : Kernel (Recorded τ)).dispatch msg =
      ({ k with graph := { k.graph with now } } : Kernel (Recorded τ)).dispatchNow msg := by
    unfold dispatch
    simp only [hf]
  have hnow : (({ k with graph := { k.graph with now } } : Kernel (Recorded τ)).dispatchNow msg).1.graph.Hushed := by
    unfold dispatchNow
    generalize ({ k with graph := { k.graph with now }, handled := k.handled ++ [msg] } : Kernel (Recorded τ)).runCommand
      msg = r at hrun ⊢
    obtain ⟨k', exit⟩ := r
    cases exit with
    | some exit => exact hrun
    | none => exact hushed_finishFreeze hrun
  unfold turn
  rw [hd]
  generalize ({ k with graph := { k.graph with now } } : Kernel (Recorded τ)).dispatchNow msg = r at hnow ⊢
  obtain ⟨k', exit⟩ := r
  cases exit with
  | true => exact hnow
  | false =>
    simp only
    unfold afterDispatch
    split
    · exact hnow
    · rename_i hnot
      apply hushed_of_none
      exact (Advances.settle k'.graph).kept.frozen.trans (Option.not_isSome_iff_eq_none.mp hnot)

theorem hushed_step {m : Option (KernelMessage (Recorded τ))} (hv : Valid k.graph) (h : k.graph.Hushed)
    (hok : Undisturbed k m) (hs : Step k m k') : k'.graph.Hushed := by
  cases hf : k.graph.frozen with
  | some f => exact (spans_step hv hf hok hs).hushed hf rfl h
  | none =>
    cases hs with
    | @replayed now msg rest _ _ hr => exact hushed_turn (k := { k with replay := rest }) hv hf now msg
    | @received now msg _ _ hr => exact hushed_turn (k := k.arrive msg) hv hf now msg
    | @expired now entry _ _ hr _ _ =>
      exact hushed_turn (k := { k with timers := k.timers.expire entry }.arrive entry.timeout) hv hf now entry.timeout
    | @alarm now due number _ _ hr _ _ =>
      exact hushed_turn (k := { k with alarms := k.alarms.erase (due, number) }.arrive (alarmed number)) hv hf now
        (alarmed number)
    | alloc => exact hushed_of_none hf

end unfrozen

/-- Between its freeze and its thaw a task receives nothing: what it received last is the freeze, and the next
is the thaw. -/
theorem frozen_receives_nothing (hb : Booted k₀) (hr : Run Undisturbed k₀.afterDispatch k)
    {m : Option (KernelMessage (Recorded τ))} (hok : Undisturbed k m) (hs : Step k m k') {f : Frozen (Recorded τ)}
    (hf : k.graph.frozen = some f) :
    (∀ id cs, k.graph.heard id = some cs → cs.getLast? = some (.freeze f.number)) ∧
    (k'.graph.frozen.map Frozen.number = some f.number ∧ (∀ id, k'.graph.heard id = k.graph.heard id) ∨
      k'.graph.frozen = none ∧ ∀ id, ∃ more, k'.graph.heard id = (k.graph.heard id).map (· ++ .thaw :: more)) := by
  have hstart : k₀.afterDispatch.graph.Hushed := by
    have hnone : k₀.gate.hold = none := (ordered_booted hb).1
    have hgate : k₀.afterDispatch.gate.hold = none := by rw [gate_afterDispatch, hnone]
    exact hushed_of_none (by simpa [gate] using hgate)
  have hhushed := hr.invariant (P := fun k => k.graph.Hushed) (.start hb) hstart
    fun k m k' hk hok hs h => hushed_step (valid_of_reachable hk) h hok hs
  have hv := valid_of_reachable (hr.reachable (.start hb))
  refine ⟨fun id cs hcs => hhushed f hf id cs hcs, ?_⟩
  cases spans_step hv hf hok hs with
  | held hnum hsame => exact .inl ⟨hnum, hsame⟩
  | thawed hnone hopens => exact .inr ⟨hnone, hopens⟩

section watched

/-- A pinned service over a channel, with what it receives. -/
def recordedBy (id : TaskId) (allocated : id ≠ initTaskId) (path : Option TaskPath) :
    TaskRegistration (Recorded ChannelTask) where
  taskId := id
  allocated := allocated
  def' := { pinned := true, path }
  factory _ := ⟨⟨[], false⟩, []⟩

/-- One service, and another that is told of its states. -/
def watching : Kernel (Recorded ChannelTask) :=
  (((Kernel.new .sorted 0).registerTaskRegistration (recordedBy 1 one_ne_init (some ["web"]))).1.registerTaskRegistration
    (recordedBy 2 two_ne_init none)).1

theorem booted_watching : Booted watching := .install _ (.install _ (.new .sorted 0))

def subscription : KernelMessage (Recorded ChannelTask) := ⟨2, .subscribePath ⟨"", []⟩ .subtree⟩

def subscribed : Kernel (Recorded ChannelTask) := (watching.afterDispatch.arrive subscription).turn 1 subscription

def freezing : Kernel (Recorded ChannelTask) := (subscribed.arrive ⟨0, .freeze 7⟩).turn 2 ⟨0, .freeze 7⟩

def reported : Kernel (Recorded ChannelTask) := (freezing.arrive ⟨1, .taskStarted⟩).turn 3 ⟨1, .taskStarted⟩

theorem undisturbed_unfrozen {k : Kernel (Recorded ChannelTask)} (hf : k.graph.frozen.isSome = false)
    (m : Option (KernelMessage (Recorded ChannelTask))) : Undisturbed k m := by
  intro msg effect _ _ hsome
  rw [hf] at hsome
  cases hsome

theorem step_subscribed : Step watching.afterDispatch (some subscription) subscribed :=
  .received _ (by decide) (by decide) (by decide)

theorem step_freezing : Step subscribed (some ⟨0, .freeze 7⟩) freezing :=
  .received _ (by decide) (by decide) (by decide)

def released : Kernel (Recorded ChannelTask) := (freezing.arrive ⟨0, .thaw⟩).turn 3 ⟨0, .thaw⟩

theorem frozen_receives_nothing_watched : ∃ f, freezing.graph.frozen = some f ∧
    (∀ id cs, freezing.graph.heard id = some cs → cs.getLast? = some (.freeze f.number)) ∧
    (released.graph.frozen.map Frozen.number = some f.number ∧ (∀ id, released.graph.heard id = freezing.graph.heard id) ∨
      released.graph.frozen = none ∧
        ∀ id, ∃ more, released.graph.heard id = (freezing.graph.heard id).map (· ++ .thaw :: more)) := by
  have hsome : freezing.graph.frozen.isSome = true := by decide
  obtain ⟨f, hf⟩ := Option.isSome_iff_exists.mp hsome
  have hrun : Run Undisturbed watching.afterDispatch freezing :=
    .tail (.tail .refl (undisturbed_unfrozen (by decide) _) step_subscribed) (undisturbed_unfrozen (by decide) _)
      step_freezing
  have hok : Undisturbed freezing (some ⟨0, .thaw⟩) := by
    intro msg effect he hr
    obtain rfl := Option.some.inj he
    cases hr
  exact ⟨f, hf, frozen_receives_nothing booted_watching hrun hok (.received _ (by decide) (by decide) (by decide)) hf⟩

/-- The service reports during the freeze, and the other is told. -/
theorem told_while_frozen : Reachable freezing ∧ freezing.graph.frozen.map Frozen.number = some 1 ∧
    ((freezing.graph.heard 2).bind List.getLast?).any TaskCmd.isNotification = false ∧
    Step freezing (some ⟨1, .taskStarted⟩) reported ∧ reported.graph.frozen.map Frozen.number = some 1 ∧
    ((reported.graph.heard 2).bind List.getLast?).any TaskCmd.isNotification = true := by
  refine ⟨?_, by decide, by decide, .received _ (by decide) (by decide) (by decide), by decide, by decide⟩
  exact .step (.step (.start booted_watching) step_subscribed) step_freezing

end watched

end Kernel

end Dekit
