import Dekit.Turns

namespace Dekit

/-- A freeze, but for what its tasks answer. -/
structure Hold (τ : Type) where
  number : ℕ
  reply : Option FreezeReply
  deferred : List (KernelMessage τ)

/-- What a message finds when it comes: a quit, a freeze, and what a thaw handed back. -/
structure Gate (τ : Type) where
  now : Instant
  quitting : Bool
  hold : Option (Hold τ)
  freezes : ℕ
  alarms : List (Instant × ℕ)
  replay : List (KernelMessage τ)
  arrived : List (KernelMessage τ)
  handled : List (KernelMessage τ)

def Frozen.hold {τ : Type} (f : Frozen τ) : Hold τ where
  number := f.number
  reply := f.reply
  deferred := f.deferred

def Kernel.gate {τ : Type} (k : Kernel τ) : Gate τ where
  now := k.graph.now
  quitting := k.graph.quitting
  hold := k.graph.frozen.map Frozen.hold
  freezes := k.graph.freezes
  alarms := k.alarms
  replay := k.replay
  arrived := k.arrived
  handled := k.handled

namespace KernelCommand

variable {τ : Type}

/-- A command to quit, and whether it saves first. -/
def quits : KernelCommand τ → Option Bool
  | quit => some true
  | quitWithoutSave => some false
  | quitWithin save _ => some save
  | _ => none

/-- The commands that the graph alone does not carry out. -/
def reachesKernel : KernelCommand τ → Bool
  | quit | quitWithoutSave | quitWithin _ _ | freezeTimeout _ | thaw => true
  | _ => false

/-- What a user or a task intends: it waits for the thaw, whoever froze. -/
def isIntent (c : KernelCommand τ) : Bool :=
  c.disposition true = .deferred ∧ c.disposition false = .deferred

end KernelCommand

namespace Gate

variable {τ : Type}

def take (g : Gate τ) (msg : KernelMessage τ) : Gate τ := { g with handled := g.handled ++ [msg] }

def freeze (dead : Bool) (reply : FreezeReply) (g : Gate τ) : Gate τ :=
  { g with
    freezes := g.freezes + 1
    hold := some ⟨g.freezes + 1, if dead then none else some reply, []⟩ }

def beginSave (dead : Bool) (g : Gate τ) : Gate τ :=
  { g.freeze dead .quit with alarms := g.alarms ++ [(g.now + saveTimeout, g.freezes + 1)] }

def deferred (g : Gate τ) : List (KernelMessage τ) := (g.hold.map Hold.deferred).getD []

def thaw (g : Gate τ) : Gate τ := { g with hold := none, replay := g.replay ++ g.deferred }

def quit (g : Gate τ) : Gate τ := { g with quitting := true }

def forQuit (g : Gate τ) : Bool := g.hold.any (fun h => h.reply == some .quit)

def Saving (g : Gate τ) (number : ℕ) : Prop :=
  ∃ h, g.hold = some h ∧ h.number = number ∧ h.reply = some .quit

/-- What a command that is not deferred does; `save` when a save is set up, `dead` when a task
answers a freeze by reporting that it has stopped. -/
inductive Performs (save dead : Bool) (g : Gate τ) (c : KernelCommand τ) : Gate τ → Prop
  | plain : c.reachesKernel = false → Performs save dead g c g
  | freezes (reply : ReplyId) : c = .freeze reply → g.hold = none → g.quitting = false →
      Performs save dead g c (g.freeze dead (.rpc reply))
  | thaws : c = .thaw → Performs save dead g c g.thaw
  | late {number : ℕ} : c = .freezeTimeout number → ¬ g.Saving number → Performs save dead g c g
  | timesOut {number : ℕ} : c = .freezeTimeout number → g.Saving number →
      Performs save dead g c g.thaw.quit
  | saves : c.quits = some true → save = true → g.quitting = false →
      Performs save dead g c (g.beginSave dead)
  | drops {first : Bool} : c.quits = some first → (first && save && !g.quitting) = false →
      g.forQuit = true → Performs save dead g c g.thaw.quit
  | quits {first : Bool} : c.quits = some first → (first && save && !g.quitting) = false →
      g.forQuit = false → Performs save dead g c g.quit

/-- How the check for a complete freeze ends. -/
inductive Finishes (g : Gate τ) : Gate τ → Prop
  | waits : Finishes g g
  | answers {h : Hold τ} {reply : ReplyId} : g.hold = some h → h.reply = some (.rpc reply) →
      Finishes g { g with hold := some { h with reply := none } }
  | saves {number : ℕ} : g.Saving number → Finishes g g.thaw.quit

/-- How a message leaves the gate. -/
inductive Dispatches (save dead : Bool) (g : Gate τ) (msg : KernelMessage τ) : Gate τ → Prop
  | deferred {h : Hold τ} : g.hold = some h → msg.command.disposition g.forQuit = .deferred →
      Dispatches save dead g msg { g with hold := some { h with deferred := h.deferred ++ [msg] } }
  | covered {h : Hold τ} : g.hold = some h → msg.command.disposition g.forQuit = .covered →
      Dispatches save dead g msg g
  | handled {g₁ g₂ : Gate τ} : (g.hold = none ∨ msg.command.disposition g.forQuit = .now) →
      Performs save dead (g.take msg) msg.command g₁ → Finishes g₁ g₂ → Dispatches save dead g msg g₂

end Gate

namespace Graph

variable {τ : Type} [Task τ] {g g' : Graph τ}

theorem Valid.perform_kept (h : Valid g) (sender : TaskId) {command : KernelCommand τ}
    (hf : ∀ reply, command ≠ .freeze reply) (ht : ∀ number snapshot, command ≠ .taskFrozen number snapshot) :
    Kept g (g.perform sender command) := by
  by_cases ho : command.operates = true
  · exact (Runs.perform g sender ho h.sound h.next).advances.kept
  · cases command with
    | remove selector ack =>
      have hr : Kept g (g.removeCommand sender selector).1 := by
        unfold Graph.removeCommand
        have htasks : Valid ((g.removal sender selector).1.foldl Graph.removeTask g) ∧
            Kept g ((g.removal sender selector).1.foldl Graph.removeTask g) :=
          Fold.foldl_invariant (P := fun g' => Valid g' ∧ Kept g g')
            (fun g' hg id _ => ⟨hg.1.removeTask id, hg.2.trans (.of_frame (removeTask_frame g' id))⟩) ⟨h, .refl g⟩
        have hfolders := Runs.foldl_still (fun g id => Runs.removeFolder g id) (g.removal sender selector).2
          ((g.removal sender selector).1.foldl Graph.removeTask g) htasks.1.sound htasks.1.next
        exact htasks.2.trans hfolders.advances.kept
      cases ack with
      | none => exact hr
      | some reply => exact ⟨hr.now, hr.quitting, hr.frozen, hr.freezes, hr.next⟩
    | freeze reply => exact absurd rfl (hf reply)
    | taskFrozen number snapshot => exact absurd rfl (ht number snapshot)
    | _ => exact absurd rfl ho

theorem dead_iff : g.dead = true ↔ ∃ id t, g.tasks.lookup id = some t ∧
    (Task.handleCmd t.task (.freeze (g.freezes + 1))).2.any TaskEffect.isStopped = true := by
  have hone (number : ℕ) (acc : Graph τ × Option TaskId) (id : TaskId) :
      ((freezeTask number acc id).2.isSome = true ↔ acc.2.isSome = true ∨ ∃ t, acc.1.tasks.lookup id = some t ∧
        (Task.handleCmd t.task (.freeze number)).2.any TaskEffect.isStopped = true) ∧
      ∀ x, x ≠ id → (freezeTask number acc id).1.tasks.lookup x = acc.1.tasks.lookup x := by
    unfold freezeTask
    cases hid : acc.1.tasks.lookup id with
    | none => simp
    | some t =>
      refine ⟨?_, fun x hx => ?_⟩
      · cases acc.2 <;> simp
      · simp only [setTask, queueEffects, modifyTask, Finmap.lookup_modify, if_neg hx]
  have hfold (number : ℕ) (l : List TaskId) (hl : l.Nodup) (acc : Graph τ × Option TaskId) :
      (l.foldl (freezeTask number) acc).2.isSome = true ↔ acc.2.isSome = true ∨
        ∃ id ∈ l, ∃ t, acc.1.tasks.lookup id = some t ∧
          (Task.handleCmd t.task (.freeze number)).2.any TaskEffect.isStopped = true := by
    induction l generalizing acc with
    | nil => simp
    | cons id l ih =>
      obtain ⟨hid, hl⟩ := List.nodup_cons.mp hl
      obtain ⟨hdead, hkeep⟩ := hone number acc id
      rw [List.foldl_cons, ih hl, hdead, List.exists_mem_cons_iff, or_assoc]
      refine or_congr_right (or_congr_right ⟨?_, ?_⟩) <;>
      · rintro ⟨x, hx, t, ht, hs⟩
        have hne : x ≠ id := fun he => hid (he ▸ hx)
        exact ⟨x, hx, t, hkeep x hne ▸ ht, hs⟩
  have hnodup : (g.walk initTaskId g.tasks.keys).Nodup := g.hasher.nodup _ _ _
  unfold dead freezeTasks
  rw [hfold _ _ hnodup]
  constructor
  · rintro (h | ⟨id, -, t, ht, hs⟩)
    · cases h
    · exact ⟨id, t, ht, hs⟩
  · rintro ⟨id, t, ht, hs⟩
    refine .inr ⟨id, mem_walk.mpr ?_, t, ht, hs⟩
    rw [Finmap.mem_keys_iff, ht]
    rfl

theorem dead_now (g : Graph τ) (now : Instant) : ({ g with now } : Graph τ).dead = g.dead := by
  rw [Bool.eq_iff_iff, dead_iff, dead_iff]

end Graph

open Dekit.Gate Dekit.Graph

namespace Kernel

variable {τ : Type} {k : Kernel τ}

theorem gate_kept {g : Graph τ} (h : Kept k.graph g) : { k with graph := g }.gate = k.gate := by
  simp only [gate, h.now, h.quitting, h.frozen, h.freezes]

theorem gate_answerIf (k : Kernel τ) (reply : Option ReplyId) (a : Answer) :
    (k.answerIf reply a).gate = k.gate := by
  cases reply <;> rfl

theorem gate_forQuit (k : Kernel τ) : k.gate.forQuit = k.graph.freezingForQuit := by
  unfold gate forQuit freezingForQuit
  cases k.graph.frozen <;> rfl

theorem gate_saving (number : ℕ) : k.gate.Saving number ↔
    k.graph.freezingForQuit = true ∧ k.graph.frozen.any (·.number == number) = true := by
  unfold gate Saving freezingForQuit
  cases k.graph.frozen with
  | none => simp
  | some f => simp [Frozen.hold, and_comm]

theorem gate_beginQuit (k : Kernel τ) : k.beginQuit.1.gate = k.gate.quit := by
  unfold beginQuit Graph.beginQuit
  by_cases h : k.graph.quitting = true
  · simp [h, gate, Gate.quit]
  · have hf : Kept { k.graph with quitting := true } ({ k.graph with quitting := true }.forEach initTaskId
        k.graph.tasks.keys enqueue) := .of_frame (Counting.forEach _ _ Counting.enqueue).frame
    simp only [h, Bool.false_eq_true, if_false]
    simp only [gate, Gate.quit, hf.now, hf.quitting, hf.frozen, hf.freezes]

variable [Task τ]

theorem gate_thaw (k : Kernel τ) : k.thaw.gate = k.gate.thaw := by
  have hk := Kept.of_frame (quiet_thaw k.graph).frame
  have hd : k.gate.deferred = k.graph.thaw.2 := by
    rw [thaw_deferred, Gate.deferred, gate]
    cases k.graph.frozen <;> rfl
  unfold thaw Gate.thaw
  simp only [gate, hk.now, hk.quitting, hk.frozen, hk.freezes, Option.map_none] at hd ⊢
  rw [hd]

theorem gate_freeze (k : Kernel τ) (reply : FreezeReply) :
    { k with graph := k.graph.freeze reply }.gate = k.gate.freeze k.graph.dead reply := by
  have hf := freeze_froze k.graph reply
  simp only [gate, Gate.freeze, hf.now, hf.quitting, hf.frozen, hf.freezes, Option.map_some]
  rfl

theorem gate_beginSave (k : Kernel τ) :
    ({ k with
      graph := k.graph.freeze .quit
      alarms := k.alarms ++ [(k.graph.now + saveTimeout, (k.graph.freeze .quit).freezes)] } : Kernel τ).gate =
    k.gate.beginSave k.graph.dead := by
  rw [(freeze_froze k.graph .quit).freezes, beginSave, ← gate_freeze]
  rfl

theorem performs_quit (k : Kernel τ) {c : KernelCommand τ} {first : Bool} (hc : c.quits = some first)
    (reply : Option ReplyId) : Performs k.save k.graph.dead k.gate c (k.quit first reply).1.gate := by
  unfold quit
  split
  · rename_i h
    obtain ⟨rfl, hsave, hquit⟩ := h
    have hg := gate_beginSave (k.answerIf reply (.within (saveTimeout + k.graph.stopWithin)))
    have hdead : (k.answerIf reply (.within (saveTimeout + k.graph.stopWithin))).graph.dead = k.graph.dead := by
      rw [Bool.eq_iff_iff, dead_iff, dead_iff]
      cases reply <;> rfl
    rw [gate_answerIf, hdead] at hg
    have hp : Performs k.save k.graph.dead k.gate c (k.gate.beginSave k.graph.dead) :=
      .saves hc hsave (by simpa [gate] using hquit)
    rw [← hg] at hp
    exact hp
  · rename_i h
    have hnot : (first && k.save && !k.gate.quitting) = false := by
      rw [Bool.eq_false_iff]
      simpa [gate, and_assoc] using h
    simp only
    rw [gate_answerIf, gate_beginQuit]
    split
    · rename_i hq
      rw [gate_thaw]
      exact .drops hc hnot ((gate_forQuit k).trans hq)
    · rename_i hq
      exact .quits hc hnot ((gate_forQuit k).trans (eq_false_of_ne_true hq))

theorem performs_runCommand (h : Valid k.graph) (msg : KernelMessage τ) :
    Performs k.save k.graph.dead k.gate msg.command (k.runCommand msg).1.gate := by
  obtain ⟨sender, command⟩ := msg
  have hp (hf : ∀ reply, command ≠ .freeze reply)
      (ht : ∀ number snapshot, command ≠ .taskFrozen number snapshot) :
      { k with graph := k.graph.perform sender command }.gate = k.gate :=
    gate_kept (h.perform_kept sender hf ht)
  unfold runCommand
  cases command with
  | quit => exact performs_quit k rfl none
  | quitWithoutSave => exact performs_quit k rfl none
  | quitWithin save reply => exact performs_quit k rfl (some reply)
  | freezeTimeout number =>
    simp only
    split
    · rename_i hs
      rw [gate_beginQuit, gate_thaw]
      exact .timesOut rfl ((gate_saving number).mpr hs)
    · rename_i hs
      exact .late rfl fun hg => hs ((gate_saving number).mp hg)
  | thaw =>
    simp only
    rw [gate_thaw]
    exact .thaws rfl
  | freeze reply =>
    simp only [Graph.perform, beginFreeze]
    split
    · exact .plain rfl
    · rename_i hf
      split
      · exact .plain rfl
      · rename_i hq
        rw [gate_freeze]
        refine .freezes reply rfl ?_ (eq_false_of_ne_true hq)
        simpa [gate] using hf
  | taskFrozen number snapshot =>
    have hg : { k with graph := k.graph.onTaskFrozen sender number snapshot }.gate = k.gate := by
      unfold onTaskFrozen
      cases hf : k.graph.frozen with
      | none => rfl
      | some frozen =>
        simp only
        split
        · rfl
        · simp only [gate, hf]
          rfl
    simp only [Graph.perform]
    rw [hg]
    exact .plain rfl
  | _ =>
    simp only
    rw [hp (by simp) (by simp)]
    exact .plain rfl

theorem finishes_finishFreeze (k : Kernel τ) : Finishes k.gate k.finishFreeze.1.gate := by
  have hf := finishFreeze_cases k.graph
  unfold finishFreeze
  generalize k.graph.finishFreezeIfComplete = r at hf ⊢
  cases hf with
  | waits => exact .waits
  | @answers f reply answers hf _ hr =>
    have hh : k.gate.hold = some f.hold := by simp [gate, hf]
    exact .answers hh hr
  | @saves f snapshot hf _ hr =>
    have hh : k.gate.hold = some f.hold := by simp [gate, hf]
    have hs : k.gate.Saving f.number := ⟨f.hold, hh, rfl, hr⟩
    simp only
    rw [gate_beginQuit, gate_thaw]
    have hg : ({ k with
        graph := { k.graph with frozen := some { f with reply := none, snapshots := ∅ } }
        saved := if k.save = true then k.saved ++ [snapshot] else k.saved } : Kernel τ).gate.thaw =
        k.gate.thaw := by
      simp only [Gate.thaw, Gate.deferred, hh]
      rfl
    rw [hg]
    exact .saves hs

theorem dispatches_dispatch (h : Valid k.graph) (msg : KernelMessage τ) :
    Dispatches k.save k.graph.dead k.gate msg (k.dispatch msg).1.gate := by
  have hnow (hd : k.gate.hold = none ∨ msg.command.disposition k.gate.forQuit = .now) :
      Dispatches k.save k.graph.dead k.gate msg (k.dispatchNow msg).1.gate := by
    have hp := performs_runCommand (k := { k with handled := k.handled ++ [msg] }) h msg
    have hwait {g : Gate τ} : Finishes g g := .waits
    unfold dispatchNow
    generalize ({ k with handled := k.handled ++ [msg] } : Kernel τ).runCommand msg = r at hp ⊢
    obtain ⟨k', exit⟩ := r
    cases exit with
    | none => exact .handled hd hp (finishes_finishFreeze k')
    | some exit => exact .handled hd hp hwait
  unfold dispatch
  cases hf : k.graph.frozen with
  | none => exact hnow (.inl (by simp [gate, hf]))
  | some frozen =>
    have hh : k.gate.hold = some frozen.hold := by simp [gate, hf]
    have hq := gate_forQuit k
    simp only
    cases hd : msg.command.disposition k.graph.freezingForQuit with
    | now => exact hnow (.inr (hq ▸ hd))
    | covered =>
      have hg : (k.cover msg.command).gate = k.gate := by
        unfold cover
        cases msg.command <;> rfl
      simp only
      rw [hg]
      exact .covered hh (hq ▸ hd)
    | deferred => exact .deferred hh (hq ▸ hd)

theorem gate_afterDispatch (k : Kernel τ) : k.afterDispatch.gate = k.gate := by
  unfold afterDispatch
  split
  · rfl
  · have hk := (Advances.settle k.graph).kept
    simp only [gate, hk.now, hk.quitting, hk.frozen, hk.freezes]

theorem dispatches_turn (h : Valid k.graph) (now : Instant) (msg : KernelMessage τ) :
    Dispatches k.save k.graph.dead { k.gate with now } msg (k.turn now msg).gate := by
  have hd := dispatches_dispatch (k := { k with graph := { k.graph with now } }) (h.same rfl rfl rfl rfl) msg
  rw [dead_now] at hd
  unfold turn
  generalize ({ k with graph := { k.graph with now } } : Kernel τ).dispatch msg = r at hd ⊢
  obtain ⟨k', exit⟩ := r
  cases exit with
  | true => exact hd
  | false =>
    simp only
    have hg : ({ k'.afterDispatch with
        exited := k'.afterDispatch.graph.quitting && k'.afterDispatch.graph.noActiveTasks } : Kernel τ).gate =
        k'.gate := gate_afterDispatch k'
    rw [hg]
    exact hd

end Kernel

end Dekit
