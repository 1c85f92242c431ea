import Dekit.Changes
import Dekit.Gate

namespace Dekit

namespace Graph

variable {τ : Type} [Task τ] {g g' : Graph τ} {I : Terms τ}

namespace Aside

theorem freezeTask (number : ℕ) (acc : Graph τ × Option TaskId) (id : TaskId) :
    Aside acc.1 (Graph.freezeTask number acc id).1 := by
  unfold Graph.freezeTask
  cases acc.1.tasks.lookup id with
  | none => exact refl _
  | some t => exact (setTask _ _ _).trans (queueEffects _ _ t.task _)

theorem freeze (g : Graph τ) (reply : FreezeReply) : Aside g (g.freeze reply) := by
  have htick : Aside g { g with freezes := g.freezes + 1, tick := g.tick + 1 } := of_eq rfl rfl
  have hall : Aside g (g.freezeTasks (g.freezes + 1)).1 := by
    refine htick.trans ?_
    exact Fold.foldl_rel (r := fun a b : Graph τ × Option TaskId => Aside a.1 b.1) (fun a => refl a.1)
      (fun _ _ _ => trans) (fun acc id _ => freezeTask _ acc id) (_, none)
  unfold Graph.freeze
  simp only
  generalize g.freezeTasks (g.freezes + 1) = r at hall ⊢
  obtain ⟨g₁, dead⟩ := r
  refine hall.trans ?_
  cases dead <;> cases reply <;> exact of_eq rfl rfl

theorem thaw (g : Graph τ) : Aside g g.thaw.1 := by
  unfold Graph.thaw
  split
  · exact refl g
  · rename_i frozen _
    have hopen : Aside g { g with frozen := none } := of_eq rfl rfl
    exact hopen.trans (forEach _ _ fun g id => sendCmd g id .thaw)

theorem onTaskFrozen (g : Graph τ) (id : TaskId) (number : ℕ) (snapshot : Snap.TaskKind) :
    Aside g (g.onTaskFrozen id number snapshot) := by
  unfold Graph.onTaskFrozen
  split
  · exact refl g
  · split
    · exact refl g
    · exact of_eq rfl rfl

theorem beginFreeze (g : Graph τ) (reply : ReplyId) : Aside g (g.beginFreeze reply) := by
  unfold Graph.beginFreeze
  split
  · exact of_eq rfl rfl
  · split
    · exact of_eq rfl rfl
    · exact freeze g _

theorem finishFreeze (g : Graph τ) : Aside g g.finishFreezeIfComplete.1 := by
  have hf := finishFreeze_cases g
  generalize g.finishFreezeIfComplete = r at hf ⊢
  cases hf with
  | waits => exact refl g
  | answers | saves => exact of_eq rfl rfl

end Aside

namespace Writes

theorem beginQuit (g : Graph τ) : Writes I .command g g.beginQuit.1 := by
  unfold Graph.beginQuit
  split
  · exact refl g
  · have hquit : Writes I .command g { g with quitting := true } := written rfl rfl fun _ => .quits _
    exact hquit.andThen (.forEach _ _ .enqueue)

theorem perform (h : Valid g) (sender : TaskId) {command : KernelCommand τ} (ha : I.Allows command) :
    Writes I command.cause g (g.perform sender command) := by
  have hone {β : Type} {body : Graph τ → β → Graph τ} (hb : ∀ g x, Writes I .command g (body g x)) (l : List β)
      (ack : Option ReplyId) (a : Answer) : Writes I .command g ((l.foldl body g).answerIf ack a) :=
    (foldl (fun g x _ => hb g x) g).andThen (.answerIf _ _ _)
  cases command with
  | registerTask r ack => exact (registerTaskCommand g sender r ha).andThen (.answerIf _ (some ack) _)
  | registerTasks rs ack => exact (registerTasksCommand g sender rs ha).andThen (.answerIf _ (some ack) _)
  | act verb selector ack => exact (act g verb sender selector).andThen (.answerIf _ _ _)
  | unpin selector ack => exact hone (fun g id => setPin g id false) _ _ _
  | remove selector ack => exact (removeCommand h sender selector).andThen (.answerIf _ _ _)
  | dropFolder id ack =>
    have hd : Aside g (if g.canMutateFolder sender id then g.removeFolder id else (g, false)).1 := by
      split
      · exact .removeFolder g id
      · exact .refl g
    exact aside (hd.trans (.answerIf _ _ _))
  | setFolder id settings ack =>
    have hd : Aside g (if g.canMutateFolder sender id then g.setFolder id settings else (g, false)).1 := by
      split
      · exact .setFolder g id settings
      · exact .refl g
    exact aside (hd.trans (.answerIf _ _ _))
  | setLabel selector label ack => exact hone (fun g id => setTaskLabel g id label) _ _ _
  | duplicate selector req reply => exact (duplicateAll req h _).andThen (.answerIf _ (some reply) _)
  | update selector update reply => exact (updateCommand g sender selector update).andThen (.answerIf _ (some reply) _)
  | setOrigin selector origin ack => exact hone (fun g id => setOrigin g id origin) _ _ _
  | move req reply =>
    have hd : Writes I .command g (if g.canRegister sender req.space then g.moveTasks req
        else (g, .error (.notFound req.src))).1 := by
      split
      · exact moveTasks g req
      · exact refl g
    exact hd.andThen (.answerIf _ (some reply) _)
  | taskMsg id content => exact aside (.sendCmd g id _)
  | subscribePath key mode => exact aside (.subscribe g sender key mode)
  | unsubscribePath key mode => exact aside (.of_eq rfl rfl)
  | wait request =>
    obtain ⟨on, cond, events⟩ := request
    cases on with
    | act verb selector => exact act g verb sender selector
    | isMatching selector => exact refl g
    | ids ids => exact refl g
  | taskStarted => exact onTaskStarted g sender
  | taskReady => exact onTaskReady g sender
  | taskStopped info => exact onTaskStopped g sender ha
  | stateTimeout id epoch => exact onStateTimeout g id epoch
  | freeze reply => exact aside (.beginFreeze g reply)
  | taskFrozen number snapshot => exact aside (.onTaskFrozen g sender number snapshot)
  | quit | quitWithoutSave | quitWithin | freezeTimeout | thaw | query | watchActive => exact refl g

end Writes

end Graph

open Dekit.Graph

namespace Kernel

variable {τ : Type} [Task τ] {k k' : Kernel τ} {I : Terms τ} {msg : KernelMessage τ}

/-- What a message's changes go back to: one that ends a quit's freeze begins the quit. -/
def cause (k : Kernel τ) (msg : KernelMessage τ) : Cause :=
  if k.graph.freezingForQuit = true ∧ msg.command.cause = .itself then .command else msg.command.cause

theorem raised {g g' : Graph τ} (h : Writes I msg.command.cause g g') : Writes I (k.cause msg) g g' := by
  unfold cause
  split
  · rename_i hc
    rw [hc.2] at h
    exact h.raise _
  · exact h

theorem aside_thaw (k : Kernel τ) : Aside k.graph k.thaw.graph := Aside.thaw k.graph

theorem aside_answerIf (k : Kernel τ) (reply : Option ReplyId) (a : Answer) :
    Aside k.graph (k.answerIf reply a).graph := Aside.answerIf k.graph reply a

theorem writes_beginQuit (k : Kernel τ) : Writes I .command k.graph k.beginQuit.1.graph := .beginQuit k.graph

theorem writes_quit (k : Kernel τ) (save : Bool) (reply : Option ReplyId) :
    Writes I .command k.graph (k.quit save reply).1.graph := by
  unfold quit
  split
  · exact .aside ((aside_answerIf k reply _).trans (.freeze _ .quit))
  · simp only
    have hthaw : Aside k.graph (if k.graph.freezingForQuit then k.thaw else k).graph := by
      split
      · exact aside_thaw k
      · exact .refl _
    generalize (if k.graph.freezingForQuit then k.thaw else k) = k₁ at hthaw ⊢
    exact ((Writes.aside hthaw).trans (writes_beginQuit k₁)).andThen (aside_answerIf k₁.beginQuit.1 _ _)

theorem writes_runCommand (h : Valid k.graph) (ha : I.Allows msg.command) :
    Writes I (k.cause msg) k.graph (k.runCommand msg).1.graph := by
  have hp : Writes I (k.cause msg) k.graph (k.graph.perform msg.sender msg.command) :=
    raised (Writes.perform h msg.sender ha)
  have hq (save : Bool) (reply : Option ReplyId) (hc : msg.command.cause = .command) :
      Writes I (k.cause msg) k.graph (k.quit save reply).1.graph :=
    raised (by rw [hc]; exact writes_quit k save reply)
  obtain ⟨sender, command⟩ := msg
  unfold runCommand
  cases command with
  | quit => exact hq true none rfl
  | quitWithoutSave => exact hq false none rfl
  | quitWithin save reply => exact hq save (some reply) rfl
  | freezeTimeout number =>
    simp only
    split
    · rename_i hf
      have hc : k.cause ⟨sender, .freezeTimeout number⟩ = .command := by
        unfold cause
        rw [if_pos ⟨hf.1, rfl⟩]
      rw [hc]
      exact (Writes.aside (aside_thaw k)).trans (writes_beginQuit k.thaw)
    · exact .refl _
  | thaw => exact .aside (aside_thaw k)
  | _ => exact hp

omit [Task τ] in
theorem saving_of_saved {g : Graph τ} {snapshot : KernelSnapshot}
    (h : k.graph.finishFreezeIfComplete = (g, some snapshot)) : k.graph.freezingForQuit = true := by
  have hf := finishFreeze_cases k.graph
  rw [h] at hf
  cases hf with
  | saves _ hfrozen _ hreply => simp [freezingForQuit, hfrozen, hreply]

theorem writes_finishFreeze {c : Cause} (k : Kernel τ) (hc : k.graph.freezingForQuit = true → c = .command) :
    Writes I c k.graph k.finishFreeze.1.graph := by
  have ha := Aside.finishFreeze k.graph
  have hs (g : Graph τ) (snapshot : KernelSnapshot) (hsaved : k.graph.finishFreezeIfComplete = (g, some snapshot)) :
      k.graph.freezingForQuit = true := saving_of_saved hsaved
  unfold finishFreeze
  generalize k.graph.finishFreezeIfComplete = r at ha hs ⊢
  obtain ⟨g, saved⟩ := r
  cases saved with
  | none => exact .aside ha
  | some snapshot =>
    obtain rfl := hc (hs g snapshot rfl)
    refine (Writes.aside ha).trans ?_
    exact (Writes.aside (aside_thaw { k with graph := g, saved := _ })).trans (writes_beginQuit (Kernel.thaw _))

theorem cause_of_saving (h : Valid k.graph) (hnow : k.graph.freezingForQuit = true → msg.command.cause ≠ .removal)
    (hs : (k.runCommand msg).1.graph.freezingForQuit = true) : k.cause msg = .command := by
  have hbefore (hf : k.graph.freezingForQuit = true) : k.cause msg = .command := by
    have hne := hnow hf
    unfold cause
    cases hc : msg.command.cause with
    | itself => rw [if_pos ⟨hf, rfl⟩]
    | command => rw [if_neg (by simp)]
    | removal => exact absurd hc hne
  have hquits {first : Bool} (hq : msg.command.quits = some first) : k.cause msg = .command := by
    have hc : msg.command.cause = .command := by
      cases hm : msg.command with
      | quit | quitWithoutSave | quitWithin => rfl
      | _ => rw [hm] at hq; cases hq
    unfold cause
    rw [hc, if_neg (by simp)]
  have hg := performs_runCommand h msg
  rw [← gate_forQuit] at hs
  generalize (k.runCommand msg).1.gate = g at hg hs
  cases hg with
  | plain | late => exact hbefore (gate_forQuit k ▸ hs)
  | freezes => simp [Gate.freeze, Gate.forQuit] at hs
  | thaws | timesOut | drops => cases hs
  | saves hq | quits hq => exact hquits hq

theorem writes_dispatchNow (h : Valid k.graph) (ha : I.Allows msg.command)
    (hnow : k.graph.freezingForQuit = true → msg.command.cause ≠ .removal) :
    Writes I (k.cause msg) k.graph (k.dispatchNow msg).1.graph := by
  have hr := writes_runCommand (k := { k with handled := k.handled ++ [msg] }) h ha
  have hc := cause_of_saving (k := { k with handled := k.handled ++ [msg] }) h hnow
  unfold dispatchNow
  generalize ({ k with handled := k.handled ++ [msg] } : Kernel τ).runCommand msg = r at hr hc ⊢
  obtain ⟨k', exit⟩ := r
  cases exit with
  | none => exact hr.trans (writes_finishFreeze k' hc)
  | some exit => exact hr

theorem writes_dispatch (h : Valid k.graph) (ha : I.Allows msg.command) :
    Writes I (k.cause msg) k.graph (k.dispatch msg).1.graph := by
  unfold dispatch
  cases hf : k.graph.frozen with
  | none =>
    refine writes_dispatchNow h ha fun hs => ?_
    simp [freezingForQuit, hf] at hs
  | some frozen =>
    simp only
    cases hd : msg.command.disposition k.graph.freezingForQuit with
    | now =>
      refine writes_dispatchNow h ha fun _ => ?_
      cases hm : msg.command with
      | remove => rw [hm] at hd; cases hd
      | wait request =>
        obtain ⟨on, cond, events⟩ := request
        cases on <;> simp [KernelCommand.cause]
      | _ => simp [KernelCommand.cause]
    | covered =>
      unfold cover
      cases msg.command with
      | quitWithin save reply => exact .aside (aside_answerIf k (some reply) _)
      | _ => exact .refl _
    | deferred => exact .aside (.of_eq rfl rfl)

/-- What a turn writes down; the flag that waits look at is put back as it ends. -/
def Moves (I : Terms τ) (c : Cause) (k k' : Kernel τ) : Prop :=
  Told I k.graph → k.graph.records.Sane I → Told I k'.graph ∧
    ∃ s, Edits I c k.graph.records s ∧ k'.graph.records = { s with changed := k'.graph.stateChanged }

theorem Moves.sane {c : Cause} (h : Moves I c k k') (ht : Told I k.graph) (hs : k.graph.records.Sane I) :
    k'.graph.records.Sane I := by
  obtain ⟨-, s, he, hr⟩ := h ht hs
  rw [hr]
  exact (he.sane hs).aside rfl rfl rfl

theorem Moves.of_writes {c : Cause} (h : Writes I c k.graph k'.graph) : Moves I c k k' := by
  intro ht hs
  obtain ⟨ht', he⟩ := h ht hs
  exact ⟨ht', _, he, rfl⟩

theorem Moves.after {c : Cause} {k'' : Kernel τ} (h : Writes I c k.graph k'.graph) (h' : Moves I c k' k'') :
    Moves I c k k'' := by
  intro ht hs
  obtain ⟨ht', he⟩ := h ht hs
  obtain ⟨ht'', s, he', hr⟩ := h' ht' (he.sane hs)
  exact ⟨ht'', s, he.trans he', hr⟩

theorem moves_afterDispatch {c : Cause} (k : Kernel τ) : Moves I c k k.afterDispatch := by
  unfold afterDispatch
  split
  · exact .of_writes (.refl _)
  · intro ht hs
    obtain ⟨ht', he⟩ := Writes.settle k.graph ht hs
    exact ⟨ht', k.graph.settle.records, he, rfl⟩

theorem moves_turn (h : Valid k.graph) (ha : I.Allows msg.command) (now : Instant) :
    Moves I (k.cause msg) k (k.turn now msg) := by
  have hd := writes_dispatch (k := { k with graph := { k.graph with now } }) (h.same rfl rfl rfl rfl) ha
  have hnow : Writes I (k.cause msg) k.graph { k.graph with now } := .aside (.of_eq rfl rfl)
  have hall := hnow.trans hd
  unfold turn
  generalize ({ k with graph := { k.graph with now } } : Kernel τ).dispatch msg = r at hall ⊢
  obtain ⟨k', exit⟩ := r
  cases exit with
  | true => exact .of_writes hall
  | false => exact .after hall (moves_afterDispatch k')

/-- The cause of a step; the loop takes an id by itself. -/
def stepCause (k : Kernel τ) : Option (KernelMessage τ) → Cause
  | some msg => k.cause msg
  | none => .itself

theorem moves_step {msg : Option (KernelMessage τ)} (h : Valid k.graph)
    (ha : ∀ m, msg = some m → I.Allows m.command) (hs : Step k msg k') : Moves I (k.stepCause msg) k k' := by
  cases hs with
  | @replayed now m rest _ _ _ => exact moves_turn (k := { k with replay := rest }) h (ha m rfl) now
  | @received now m _ _ _ => exact moves_turn (k := k.arrive m) h (ha m rfl) now
  | @expired now entry _ _ _ _ _ =>
    exact moves_turn (k := arrive { k with timers := k.timers.expire entry } entry.timeout) h (ha _ rfl) now
  | @alarm now due number _ _ _ _ _ =>
    exact moves_turn (k := arrive { k with alarms := k.alarms.erase (due, number) } (alarmed number)) h (ha _ rfl) now
  | alloc _ => exact .of_writes (.aside (.of_eq rfl rfl))

/-- A kernel put together from what is fit. -/
inductive Founded (I : Terms τ) : Kernel τ → Prop
  | new (hasher : Hasher) (now : Instant) : Founded I (.new hasher now)
  | saveOnQuit {k : Kernel τ} : Founded I k → Founded I k.saveOnQuit
  | alloc {k : Kernel τ} : Founded I k → Founded I { k with graph := k.graph.allocId.2 }
  | install {k : Kernel τ} (r : TaskRegistration τ) : (I.fit → r.def'.Fit) → Founded I k →
      Founded I (k.registerTaskRegistration r).1
  | restore {k : Kernel τ} {now : Instant} {nextTaskId : ℕ}
      {tasks : List (Option Snap.Task × Registration τ)} (hnext : nextTaskId ≠ initTaskId)
      (hnow : k.graph.now ≤ now)
      (hfit : I.fit → ∀ saved (r : TaskRegistration τ), (saved, .task r) ∈ tasks → r.def'.Admits saved) :
      Founded I k → Founded I (k.restore now nextTaskId tasks).1

theorem Founded.booted (h : Founded I k) : Booted k := by
  induction h with
  | new hasher now => exact .new hasher now
  | saveOnQuit _ ih => exact .saveOnQuit ih
  | alloc _ ih => exact .alloc ih
  | install r _ _ ih => exact .install r ih
  | restore hnext hnow _ _ ih => exact .restore hnext hnow ih

theorem Booted.founded (h : Booted k) (hfit : ¬ I.fit) : Founded I k := by
  induction h with
  | new hasher now => exact .new hasher now
  | saveOnQuit _ ih => exact .saveOnQuit ih
  | alloc _ ih => exact .alloc ih
  | install r _ ih => exact .install r (fun h => absurd h hfit) ih
  | restore hnext hnow _ ih => exact .restore hnext hnow (fun h => absurd h hfit) ih

theorem sane_new (hasher : Hasher) (now : Instant) : (Graph.new hasher now : Graph τ).records.Sane I := by
  have hnone (x : TaskId) : (Graph.new hasher now : Graph τ).records.tasks x = none := by
    simp [records, Graph.new]
  constructor
  · exact hnone _
  · intro a b hb
    cases hb
  · intro x t ht
    rw [hnone] at ht
    cases ht
  · intro x t ht
    rw [hnone] at ht
    cases ht
  · intro _ x t ht
    rw [hnone] at ht
    cases ht
  · intro _ x t ht
    rw [hnone] at ht
    cases ht
  · intro _ x t ht
    rw [hnone] at ht
    cases ht
  · intro tag x
    refine ⟨fun h => (by cases h), ?_⟩
    rintro ⟨t, ht, -⟩
    rw [hnone] at ht
    cases ht

theorem Founded.edits (h : Founded I k) : Told I k.graph ∧
    ∃ s, s.Sane I ∧ s.transitions = [] ∧ Edits I .command s k.graph.records := by
  have hkeep {g g' : Graph τ} (hg : Told I g ∧ ∃ s, s.Sane I ∧ s.transitions = [] ∧ Edits I .command s g.records)
      (hw : Writes I .command g g') :
      Told I g' ∧ ∃ s, s.Sane I ∧ s.transitions = [] ∧ Edits I .command s g'.records := by
    obtain ⟨ht, s, hs, hnone, he⟩ := hg
    obtain ⟨ht', he'⟩ := hw ht (he.sane hs)
    exact ⟨ht', s, hs, hnone, he.trans he'⟩
  induction h with
  | new hasher now => exact ⟨fun _ _ h => (by cases h), _, sane_new hasher now, rfl, .refl⟩
  | saveOnQuit _ ih => exact ih
  | alloc _ ih => exact hkeep ih (.aside (.of_eq rfl rfl))
  | install r hr _ ih =>
    exact hkeep ih (.registerTaskWithId _ r.allocated r.def' r.factory none fun hfit => (hr hfit).admits)
  | @restore k now nextTaskId tasks _ _ hfit _ ih =>
    have hset : Writes I .command k.graph { k.graph with nextTaskId, now } := .aside (.of_eq rfl rfl)
    unfold Kernel.restore
    simp only
    split
    · exact hkeep ih hset
    · exact hkeep ih (hset.trans (.registerTasks _ hfit))

theorem Founded.sound (h : Founded I k) : Told I k.graph ∧ k.graph.records.Sane I := by
  obtain ⟨ht, s, hs, -, he⟩ := h.edits
  exact ⟨ht, he.sane hs⟩

def Admitted (I : Terms τ) (_ : Kernel τ) (msg : Option (KernelMessage τ)) : Prop :=
  ∀ m, msg = some m → I.Allows m.command

theorem Run.sound {k₀ : Kernel τ} (hb : Founded I k₀) (h : Run (Admitted I) k₀.afterDispatch k) :
    Valid k.graph ∧ Told I k.graph ∧ k.graph.records.Sane I := by
  induction h with
  | refl =>
    have hm := moves_afterDispatch (I := I) (c := .itself) k₀
    exact ⟨valid_afterDispatch (valid_booted hb.booted), (hm hb.sound.1 hb.sound.2).1, hm.sane hb.sound.1 hb.sound.2⟩
  | @tail k k' msg hr hok hs ih =>
    obtain ⟨hv, ht, hsane⟩ := ih
    have hm := moves_step hv hok hs
    refine ⟨?_, (hm ht hsane).1, hm.sane ht hsane⟩
    cases hs with
    | replayed | received | expired | alarm =>
      refine valid_turn ?_ _ _
      exact hv
    | alloc => exact valid_alloc hv

end Kernel

end Dekit
