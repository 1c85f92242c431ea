import Dekit.Install

namespace Dekit

def TaskState.waits (s : TaskState) (ready : ReadyMode) : Bool :=
  match s with
  | .stopping | .backoff _ => true
  | .running => ready.timeout.isSome
  | .idle | .starting | .ready | .done _ | .exited _ => false

namespace Clock

def enter (state : TaskState) (c : Clock) : Clock :=
  { c with state, epoch := c.epoch + 1, deadline := none, killed := false, startFailed := false }

def arm (due : Instant) (c : Clock) : Clock := { c with deadline := some due }

def disarm (c : Clock) : Clock := { c with deadline := none }

def fail (startFailed : Bool) (c : Clock) : Clock := { c with startFailed }

def kill (due : Instant) (c : Clock) : Clock :=
  { c with killed := true, epoch := c.epoch + 1, deadline := some due }

def Timed (c : Clock) : Prop := c.deadline.isSome = c.state.waits c.ready

/-- An epoch is one stay in a state, and a deadline is set at its start only. -/
structure Ticks (c c' : Clock) : Prop where
  epoch : c.epoch ≤ c'.epoch
  same : c'.epoch = c.epoch → c'.state = c.state ∧ (c'.deadline = c.deadline ∨ c'.deadline = none)

def Steady (c c' : Clock) : Prop :=
  c'.epoch = c.epoch ∧ c'.deadline = c.deadline ∨ c.deadline = none ∧ c'.deadline = none

variable {c c' c'' : Clock}

theorem Ticks.refl (c : Clock) : c.Ticks c := ⟨le_rfl, fun _ => ⟨rfl, .inl rfl⟩⟩

theorem Ticks.trans (h : c.Ticks c') (h' : c'.Ticks c'') : c.Ticks c'' := by
  refine ⟨h.epoch.trans h'.epoch, fun he => ?_⟩
  have hle := h.epoch
  have hle' := h'.epoch
  obtain ⟨hs, hd⟩ := h.same (by omega)
  obtain ⟨hs', hd'⟩ := h'.same (by omega)
  refine ⟨hs'.trans hs, ?_⟩
  rcases hd' with hd' | hd'
  · rw [hd']
    exact hd
  · exact .inr hd'

theorem Ticks.of_lt (h : c.epoch < c'.epoch) : c.Ticks c' := ⟨h.le, fun he => by omega⟩

theorem Steady.refl (c : Clock) : c.Steady c := .inl ⟨rfl, rfl⟩

theorem Steady.trans (h : c.Steady c') (h' : c'.Steady c'') : c.Steady c'' := by
  rcases h with ⟨he, hd⟩ | ⟨hd, hd'⟩ <;> rcases h' with ⟨he', hd''⟩ | ⟨hd'', hd'''⟩
  · exact .inl ⟨he'.trans he, hd''.trans hd⟩
  · exact .inr ⟨hd ▸ hd'', hd'''⟩
  · exact .inr ⟨hd, hd''.trans hd'⟩
  · exact .inr ⟨hd, hd'''⟩

end Clock

namespace Graph

variable {τ : Type} {g g' g'' : Graph τ} {id : TaskId} {f f' : Clock → Clock} {a b : Bool}

/-- No clock moves. -/
structure Calm (g g' : Graph τ) : Prop where
  frame : g'.frame = g.frame
  clock : g'.clock = g.clock
  timerChanges : g'.timerChanges = g.timerChanges

namespace Calm

theorem refl (g : Graph τ) : Calm g g := ⟨rfl, rfl, rfl⟩

theorem trans (h : Calm g g') (h' : Calm g' g'') : Calm g g'' :=
  ⟨h'.frame.trans h.frame, h'.clock.trans h.clock, h'.timerChanges.trans h.timerChanges⟩

theorem quiet (h : Quiet g g') : Calm g g' := ⟨h.frame, h.clock, h.timerChanges⟩

theorem counting (h : Counting g g') : Calm g g' := ⟨h.frame, h.clock, h.timerChanges⟩

theorem noting (h : Noting g g') : Calm g g' := by
  cases h with
  | silent h => exact counting h
  | noted h => exact ⟨h.frame, h.clock, h.timerChanges⟩

theorem foldl {β : Type} {body : Graph τ → β → Graph τ} (h : ∀ g x, Calm g (body g x)) (l : List β)
    (g : Graph τ) : Calm g (l.foldl body g) :=
  Fold.foldl_rel refl (fun _ _ _ => trans) (fun g x _ => h g x) g

end Calm

/-- Only the clock of one task moves, by `f`, and it is listed when `changed`. -/
structure Turned (id : TaskId) (f : Clock → Clock) (changed : Bool) (g g' : Graph τ) : Prop where
  frame : g'.frame = g.frame
  clock : ∀ x, g'.clock x = if x = id then (g.clock x).map f else g.clock x
  changes : ∀ x, x ∈ g'.timerChanges ↔ x ∈ g.timerChanges ∨ changed = true ∧ x = id

namespace Turned

theorem of_eq (hf : g'.frame = g.frame) (hc : g'.clock = g.clock) (ht : g'.timerChanges = g.timerChanges) :
    Turned id (fun c => c) false g g' := by
  refine ⟨hf, fun x => ?_, fun x => by simp [ht]⟩
  rw [hc]
  split
  · cases g.clock x <;> rfl
  · rfl

theorem calm (h : Calm g g') : Turned id (fun c => c) false g g' := of_eq h.frame h.clock h.timerChanges

theorem quiet (h : Quiet g g') : Turned id (fun c => c) false g g' := calm (.quiet h)

theorem counting (h : Counting g g') : Turned id (fun c => c) false g g' := calm (.counting h)

theorem note (g : Graph τ) (e : Happening) : Turned id (fun c => c) false g (g.note e) := of_eq rfl rfl rfl

theorem trans (h : Turned id f a g g') (h' : Turned id f' b g' g'') :
    Turned id (fun c => f' (f c)) (a || b) g g'' := by
  refine ⟨h'.frame.trans h.frame, fun x => ?_, fun x => ?_⟩
  · rw [h'.clock, h.clock]
    by_cases hx : x = id
    · cases g.clock x <;> simp [hx]
    · simp [hx]
  · rw [h'.changes, h.changes]
    cases a <;> cases b <;> simp

theorem andThen (h : Turned id f a g g') (h' : Turned id (fun c => c) false g' g'') :
    Turned id f a g g'' := by
  have := h.trans h'
  rwa [Bool.or_false] at this

theorem after (h : Turned id (fun c => c) false g g') (h' : Turned id f a g' g'') :
    Turned id f a g g'' := by
  have := h.trans h'
  rwa [Bool.false_or] at this

theorem congr (h : Turned id f a g g') (hf : ∀ c, g.clock id = some c → f c = f' c) :
    Turned id f' a g g' := by
  refine ⟨h.frame, fun x => ?_, h.changes⟩
  rw [h.clock]
  split
  · rename_i hx
    cases hc : g.clock x with
    | none => rfl
    | some c => rw [Option.map_some, Option.map_some, hf c (hx ▸ hc)]
  · rfl

theorem at_self {c : Clock} (h : Turned id f a g g') (hc : g.clock id = some c) :
    g'.clock id = some (f c) := by
  rw [h.clock, if_pos rfl, hc]
  rfl

theorem modified {F : TaskHandle τ → TaskHandle τ} (ht : g'.tasks = g.tasks.modify id F)
    (hF : ∀ t, (F t).clock = f t.clock) (hframe : g'.frame = g.frame)
    (hchanges : g'.timerChanges = g.timerChanges) : Turned id f false g g' := by
  refine ⟨hframe, fun x => ?_, fun x => by simp [hchanges]⟩
  simp only [Graph.clock, ht, Finmap.lookup_modify]
  split
  · cases g.tasks.lookup x with
    | none => rfl
    | some t => simp [hF]
  · rfl

theorem modifyTask (g : Graph τ) (id : TaskId) {F : TaskHandle τ → TaskHandle τ}
    (hF : ∀ t, (F t).clock = f t.clock) : Turned id f false g (g.modifyTask id F) :=
  modified rfl hF rfl rfl

theorem sendCmd [Task τ] (g : Graph τ) (x : TaskId) (cmd : TaskCmd) :
    Turned id (fun c => c) false g (g.sendCmd x cmd) := by
  cases hc : sentCmd cmd with
  | none => exact quiet (Quiet.sendCmd g x hc)
  | some sent => exact (note g (.sent x sent)).andThen (quiet (Quiet.sendCmd_sent g x hc))

theorem clock_some {c : Clock} (hc : g.clock id = some c) : ∃ t, g.tasks.lookup id = some t ∧ t.clock = c := by
  simpa [Graph.clock] using hc

theorem scheduleStateTimeout {c : Clock} (hc : g.clock id = some c) (delay : Duration) :
    Turned id (Clock.arm (g.now + delay)) true g (g.scheduleStateTimeout id delay) := by
  obtain ⟨t, ht, -⟩ := clock_some hc
  have hid : id ∈ g.tasks := (mem_tasks_lookup g id).mpr (by simp [ht])
  unfold Graph.scheduleStateTimeout
  rw [if_pos hid]
  have hm : Turned id (Clock.arm (g.now + delay)) false g
      { g with tasks := g.tasks.modify id (fun t => { t with deadline := some (g.now + delay) }) } :=
    modified rfl (fun _ => rfl) rfl rfl
  refine ⟨hm.frame, hm.clock, fun x => ?_⟩
  simp

theorem setState [Task τ] {c : Clock} {state : TaskState} (hc : g.clock id = some c)
    (hne : c.state ≠ state) :
    Turned id (Clock.enter state) c.deadline.isSome g (g.setState id state) := by
  obtain ⟨old, hold, rfl⟩ := clock_some hc
  unfold Graph.setState
  simp only [hold]
  rw [if_neg (show old.state ≠ state from hne)]
  refine andThen ?_ (quiet (Quiet.notifySubscribers _ _ _ _ _))
  refine andThen (andThen ?_ (counting (Counting.putState g id old state))) (note _ _)
  refine ⟨rfl, fun x => ?_, fun x => ?_⟩
  · simp only [Graph.clock, tasks_enterState, Finmap.lookup_insert_ite]
    by_cases hx : x = id
    · subst hx
      simp only [if_true, hold, Option.map_some]
      rfl
    · simp [hx]
  · cases hd : old.deadline with
    | none => simp [TaskHandle.clock, hd]
    | some due => simp [TaskHandle.clock, hd]

theorem setState_same [Task τ] {c : Clock} (hc : g.clock id = some c) : g.setState id c.state = g := by
  obtain ⟨old, hold, rfl⟩ := clock_some hc
  unfold Graph.setState
  simp only [hold]
  exact if_pos rfl

theorem setState_none [Task τ] (hc : g.clock id = none) (state : TaskState) : g.setState id state = g := by
  have hold : g.tasks.lookup id = none := by simpa [Graph.clock] using hc
  unfold Graph.setState
  simp only [hold]

theorem now (h : Turned id f a g g') : g'.now = g.now := congrArg (fun f => f.1) h.frame

end Turned

theorem exitState_cases (t : TaskHandle τ) (info : ExitInfo) :
    (∃ i, t.exitState info = .backoff i) ∨ (∃ i, t.exitState info = .done i) ∨
      ∃ i, t.exitState info = .exited i := by
  have hretry (retry : Bool) : (∃ i, (if retry then TaskState.backoff info else .exited info) = .backoff i) ∨
      (∃ i, (if retry then TaskState.backoff info else .exited info) = .done i) ∨
      ∃ i, (if retry then TaskState.backoff info else .exited info) = .exited i := by
    cases retry
    · exact .inr (.inr ⟨info, rfl⟩)
    · exact .inl ⟨info, rfl⟩
  unfold TaskHandle.exitState
  split
  · exact .inr (.inl ⟨_, rfl⟩)
  · exact hretry _

/-- A run that ended is not active; a retry waits for its timer. -/
def landed (due : Instant) (state : TaskState) (c : Clock) : Clock :=
  if state.isBackoff then (c.enter state).arm due else c.enter state

theorem landed_of_ne {state : TaskState} (due : Instant) (h : state.isBackoff = false) :
    landed due state = Clock.enter state := by
  funext c
  simp [landed, h]

theorem startedState_cases (t : TaskHandle τ) : t.startedState = .ready ∨ t.startedState = .running := by
  unfold TaskHandle.startedState
  split <;> simp

section lifecycle

variable [Task τ] {c : Clock}

theorem turned_stopTask (hc : g.clock id = some c) (hne : c.state ≠ .stopping) (startFailed : Bool) :
    Turned id (fun c => ((c.enter .stopping).fail startFailed).arm (g.now + c.stopTimeout)) true g
      (g.stopTask id startFailed) := by
  have hs := Turned.setState hc hne
  have hc' := hs.at_self hc
  obtain ⟨t, ht, htc⟩ := Turned.clock_some hc'
  unfold stopTask
  simp only [ht]
  have hm : Turned id (Clock.fail startFailed) false (g.setState id .stopping)
      ((g.setState id .stopping).modifyTask id (fun t => { t with startFailed })) := .modifyTask _ _ fun _ => rfl
  have htime : t.stopTimeout = c.stopTimeout := congrArg Clock.stopTimeout htc
  rw [htime]
  have hst := (hs.trans hm).trans (.scheduleStateTimeout (hm.at_self hc') c.stopTimeout)
  rw [(hs.trans hm).now, Bool.or_true] at hst
  refine (hst.congr fun c' hc' => ?_).andThen (.sendCmd _ _ _)
  obtain rfl : c = c' := Option.some.inj (hc.symm.trans hc')
  rfl

theorem turned_hardKill (hc : g.clock id = some c) :
    Turned id (Clock.kill (g.now + killWait)) true g (g.hardKill id) := by
  unfold hardKill
  have hm : Turned id (fun c => { c with killed := true, epoch := c.epoch + 1 }) false g
      (g.modifyTask id (fun t => { t with killed := true, epoch := t.epoch + 1 })) := .modifyTask _ _ fun _ => rfl
  have hk := hm.andThen (.sendCmd _ id .kill)
  have hs := hk.trans (.scheduleStateTimeout (hk.at_self hc) killWait)
  rw [hk.now] at hs
  exact hs

theorem turned_landExit (hc : g.clock id = some c) (hact : c.state.isActive = true) (info : ExitInfo) :
    ∃ state due, state.isActive = false ∧ state ≠ .idle ∧
      Turned id (landed due state) (c.deadline.isSome || state.isBackoff) g (g.landExit id info) := by
  obtain ⟨t, ht, rfl⟩ := Turned.clock_some hc
  have hne (state : TaskState) (hs : state.isActive = false) : t.clock.state ≠ state := fun he => by
    rw [he, hs] at hact
    cases hact
  unfold landExit
  simp only [ht]
  rcases exitState_cases t info with ⟨i, hi⟩ | ⟨i, hi⟩ | ⟨i, hi⟩ <;> rw [hi]
  · have hm : Turned id (fun c => c) false g (g.modifyTask id (fun t => { t with attempts := t.attempts + 1 })) :=
      .modifyTask _ _ fun _ => rfl
    have hs := hm.after (.setState (hm.at_self hc) (hne (.backoff i) rfl))
    have hsch := hs.trans (.scheduleStateTimeout (hs.at_self hc) (backoffDelay (t.attempts + 1)))
    exact ⟨.backoff i, _, rfl, by simp, hsch⟩
  · refine ⟨.done i, 0, rfl, by simp, ?_⟩
    have hs := Turned.setState hc (hne (.done i) rfl)
    rw [landed_of_ne 0 rfl]
    simpa [TaskState.isBackoff] using hs
  · refine ⟨.exited i, 0, rfl, by simp, ?_⟩
    have hs := Turned.setState hc (hne (.exited i) rfl)
    rw [landed_of_ne 0 rfl]
    simpa [TaskState.isBackoff] using hs

theorem turned_landStop (hc : g.clock id = some c) (hact : c.state.isActive = true) (info : ExitInfo) :
    ∃ state due, state.isActive = false ∧
      Turned id (landed due state) (c.deadline.isSome || state.isBackoff) g (g.landStop id info) := by
  obtain ⟨t, ht, rfl⟩ := Turned.clock_some hc
  unfold landStop
  simp only [ht]
  split
  · obtain ⟨state, due, hs, -, h⟩ := turned_landExit hc hact { info with readyTimeout := true }
    exact ⟨state, due, hs, h⟩
  · refine ⟨.idle, 0, rfl, ?_⟩
    have hne : t.clock.state ≠ .idle := fun he => by
      rw [he] at hact
      cases hact
    have hs := Turned.setState hc hne
    rw [landed_of_ne 0 rfl]
    simpa [TaskState.isBackoff] using hs

theorem turned_giveUp (hc : g.clock id = some c) (hact : c.state.isActive = true) (startFailed : Bool) :
    ∃ state due, state.isActive = false ∧
      Turned id (landed due state) (c.deadline.isSome || state.isBackoff) g (g.giveUp id startFailed) := by
  obtain ⟨state, due, hs, h⟩ := turned_landStop hc hact .error
  refine ⟨state, due, hs, ?_⟩
  unfold giveUp
  simp only
  cases (g.landStop id .error).tasks.lookup id with
  | none => exact h
  | some t =>
    simp only
    split
    · refine h.andThen ?_
      exact .modified rfl (fun _ => rfl) rfl rfl
    · exact h

/-- What a timer does that comes due in the state it was set for. -/
inductive Expires (now : Instant) (c : Clock) : Clock → Prop
  | retried : c.state.isBackoff = true → Expires now c (c.disarm.enter .idle)
  | killed : c.state = .stopping → c.killed = false → Expires now c (c.disarm.kill (now + killWait))
  | gaveUp {state : TaskState} {due : Instant} : c.state = .stopping → c.killed = true →
      state.isActive = false → Expires now c (landed due state c.disarm)
  | failed : c.state = .running → c.ready.timeout.isSome = true →
      Expires now c (((c.disarm.enter .stopping).fail true).arm (now + c.stopTimeout))
  | nothing : c.state.waits c.ready = false → Expires now c c.disarm

theorem turned_onStateTimeout (hc : g.clock id = some c) :
    ∃ f, Turned id f true g (g.onStateTimeout id c.epoch) ∧ Expires g.now c (f c) := by
  obtain ⟨t, ht, rfl⟩ := Turned.clock_some hc
  unfold onStateTimeout
  simp only [ht]
  rw [if_neg (show ¬ t.epoch ≠ t.clock.epoch from fun hne => hne rfl)]
  have hm : Turned id Clock.disarm true g { g.modifyTask id (fun t => { t with deadline := none }) with
      timerChanges := g.timerChanges ++ [id] } := by
    have hm' : Turned id Clock.disarm false g (g.modifyTask id (fun t => { t with deadline := none })) :=
      .modifyTask _ _ fun _ => rfl
    exact ⟨hm'.frame, hm'.clock, fun x => by simp⟩
  have hc' := hm.at_self hc
  have hnow := hm.now
  generalize ({ g.modifyTask id (fun t => { t with deadline := none }) with
      timerChanges := g.timerChanges ++ [id] } : Graph τ) = g' at hm hc' hnow ⊢
  have hstate : t.clock.disarm.state = t.state := rfl
  have hready : t.clock.ready = t.ready := rfl
  have hst : t.clock.state = t.state := rfl
  cases hs : t.state with
  | backoff info =>
    have hne : t.clock.disarm.state ≠ .idle := by rw [hstate, hs]; simp
    exact ⟨_, hm.trans (.setState hc' hne), .retried (by rw [hst, hs]; rfl)⟩
  | stopping =>
    simp only
    split
    · obtain ⟨state, due, hact, h⟩ := turned_giveUp hc' (by rw [hstate, hs]; rfl) t.startFailed
      exact ⟨_, hm.trans h, .gaveUp (hst.trans hs) ‹_› hact⟩
    · have := hm.trans (turned_hardKill hc')
      rw [hnow] at this
      exact ⟨_, this, .killed (hst.trans hs) (eq_false_of_ne_true ‹¬ _›)⟩
  | running =>
    simp only
    split
    · have := hm.trans (turned_stopTask hc' (by rw [hstate, hs]; simp) true)
      rw [hnow] at this
      exact ⟨_, this, .failed (hst.trans hs) ‹_›⟩
    · exact ⟨_, hm, .nothing (by rw [hst, hs, hready]; exact eq_false_of_ne_true ‹¬ _›)⟩
  | idle | starting | ready | done | exited => exact ⟨_, hm, .nothing (by rw [hst, hs]; rfl)⟩

theorem onStateTimeout_stale {epoch : ℕ} (h : ∀ c, g.clock id = some c → c.epoch ≠ epoch) :
    g.onStateTimeout id epoch = g := by
  unfold onStateTimeout
  cases ht : g.tasks.lookup id with
  | none => rfl
  | some t =>
    simp only
    exact if_pos (h t.clock (by simp [clock, ht]))

/-- What a task's report does, in a state that heeds it. -/
inductive Heeds (now : Instant) (c : Clock) : Clock → Prop
  | ignored : Heeds now c c
  | up : c.state = .starting ∨ c.state = .running → Heeds now c (c.enter .ready)
  | running : c.state = .starting → c.ready.timeout = none → Heeds now c (c.enter .running)
  | waiting {timeout : Duration} : c.state = .starting → c.ready.timeout = some timeout →
      Heeds now c ((c.enter .running).arm (now + timeout))
  | ended {state : TaskState} {due : Instant} : c.state.isActive = true → state.isActive = false →
      Heeds now c (landed due state c)

theorem turned_onTaskStarted (hc : g.clock id = some c) :
    ∃ f a, Turned id f a g (g.onTaskStarted id) ∧ Heeds g.now c (f c) ∧ (a = false → c.Steady (f c)) := by
  obtain ⟨t, ht, rfl⟩ := Turned.clock_some hc
  unfold onTaskStarted
  simp only [ht]
  have hst : t.clock.state = t.state := rfl
  cases hs : t.state with
  | starting =>
    have hne : t.clock.state ≠ t.startedState := by
      rw [hst, hs]
      rcases startedState_cases t with h | h <;> rw [h] <;> simp
    have hset := Turned.setState hc hne
    have hsteady (hd : t.clock.deadline.isSome = false) (state : TaskState) :
        t.clock.Steady (t.clock.enter state) := .inr ⟨by simpa using hd, rfl⟩
    rcases startedState_cases t with h | h <;> rw [h] at hset ⊢
    · exact ⟨_, _, hset, .up (.inl (hst.trans hs)), fun hd => hsteady hd _⟩
    · cases htime : t.ready.timeout with
      | none => exact ⟨_, _, hset, .running (hst.trans hs) htime, fun hd => hsteady hd _⟩
      | some timeout =>
        have hsch := hset.trans (.scheduleStateTimeout (hset.at_self hc) timeout)
        rw [hset.now] at hsch
        exact ⟨_, _, hsch, .waiting (hst.trans hs) htime, fun hd => by simp at hd⟩
  | idle | running | ready | stopping | backoff | done | exited =>
    exact ⟨_, _, .of_eq rfl rfl rfl, .ignored, fun _ => .refl _⟩

theorem turned_onTaskReady (hc : g.clock id = some c) :
    ∃ f a, Turned id f a g (g.onTaskReady id) ∧ Heeds g.now c (f c) ∧ (a = false → c.Steady (f c)) := by
  obtain ⟨t, ht, rfl⟩ := Turned.clock_some hc
  unfold onTaskReady
  simp only [ht]
  have hst : t.clock.state = t.state := rfl
  cases hs : t.state with
  | running =>
    have hne : t.clock.state ≠ .ready := by rw [hst, hs]; simp
    have hset := Turned.setState hc hne
    exact ⟨_, _, hset, .up (.inr (hst.trans hs)), fun hd => .inr ⟨by simpa using hd, rfl⟩⟩
  | idle | starting | ready | stopping | backoff | done | exited =>
    exact ⟨_, _, .of_eq rfl rfl rfl, .ignored, fun _ => .refl _⟩

theorem landed_steady {state : TaskState} {due : Instant} (c : Clock)
    (h : (c.deadline.isSome || state.isBackoff) = false) : c.Steady (landed due state c) := by
  obtain ⟨hd, hb⟩ := Bool.or_eq_false_iff.mp h
  rw [landed_of_ne due hb]
  exact .inr ⟨by simpa using hd, rfl⟩

theorem turned_onTaskStopped (hc : g.clock id = some c) (info : ExitInfo) :
    ∃ f a, Turned id f a g (g.onTaskStopped id info) ∧ Heeds g.now c (f c) ∧
      (a = false → c.Steady (f c)) := by
  obtain ⟨t, ht, rfl⟩ := Turned.clock_some hc
  unfold onTaskStopped
  simp only [ht]
  have hst : t.clock.state = t.state := rfl
  have hm : Turned id (fun c => c) false g
      (if g.stayedUp t then g.modifyTask id (fun t => { t with attempts := 0 }) else g) := by
    split
    · exact .modifyTask _ _ fun _ => rfl
    · exact .of_eq rfl rfl rfl
  have hexit (hact : t.clock.state.isActive = true) :
      ∃ f a, Turned id f a g ((if g.stayedUp t then g.modifyTask id (fun t => { t with attempts := 0 })
        else g).landExit id info) ∧ Heeds g.now t.clock (f t.clock) ∧ (a = false → t.clock.Steady (f t.clock)) := by
    obtain ⟨state, due, hs, -, h⟩ := turned_landExit (hm.at_self hc) hact info
    exact ⟨_, _, hm.after h, .ended hact hs, landed_steady _⟩
  cases hs : t.state with
  | stopping =>
    have hact : t.clock.state.isActive = true := by rw [hst, hs]; rfl
    obtain ⟨state, due, hs', h⟩ := turned_landStop hc hact info
    exact ⟨_, _, h, .ended hact hs', landed_steady _⟩
  | starting => exact hexit (by rw [hst, hs]; rfl)
  | running => exact hexit (by rw [hst, hs]; rfl)
  | ready => exact hexit (by rw [hst, hs]; rfl)
  | idle | backoff | done | exited => exact ⟨_, _, .of_eq rfl rfl rfl, .ignored, fun _ => .refl _⟩

theorem turned_onEffect (hc : g.clock id = some c) (effect : TaskEffect) :
    ∃ f a, Turned id f a g (g.onEffect id effect) ∧ Heeds g.now c (f c) ∧ (a = false → c.Steady (f c)) := by
  cases effect with
  | started => exact turned_onTaskStarted hc
  | ready => exact turned_onTaskReady hc
  | stopped info => exact turned_onTaskStopped hc info

theorem onEffect_none (hc : g.clock id = none) (effect : TaskEffect) : g.onEffect id effect = g := by
  have ht : g.tasks.lookup id = none := by simpa [clock] using hc
  cases effect <;> simp [onEffect, onTaskStarted, onTaskReady, onTaskStopped, ht]

theorem turned_startTask (hc : g.clock id = some c) (hidle : c.state = .idle) :
    ∃ ready stopTimeout, Turned id
      (fun c => Clock.enter .starting { c with ready, stopTimeout }) c.deadline.isSome g (g.startTask id) := by
  obtain ⟨old, hold, rfl⟩ := Turned.clock_some hc
  unfold startTask
  simp only [hold]
  refine ⟨(old.begun g.now).ready, (old.begun g.now).stopTimeout, ?_⟩
  have hput : Turned id (fun c => { c with
      ready := (old.begun g.now).ready, stopTimeout := (old.begun g.now).stopTimeout }) false g
      { g with tasks := g.tasks.insert id (old.begun g.now) } := by
    refine ⟨rfl, fun x => ?_, fun x => by simp⟩
    simp only [clock, Finmap.lookup_insert_ite]
    by_cases hx : x = id
    · subst hx
      simp only [if_true, hold, Option.map_some, Option.some.injEq]
      unfold TaskHandle.begun
      cases old.next <;> rfl
    · simp [hx]
  have hc' := hput.at_self hc
  generalize old.begun g.now = t at hput hc' ⊢
  generalize ({ g with tasks := g.tasks.insert id t } : Graph τ) = g' at hput hc' ⊢
  have hq : Turned id (fun c => c) false g' (if old.kind = t.kind then g' else g'.notifyChanged id) := by
    split
    · exact .of_eq rfl rfl rfl
    · exact .quiet (.notifyChanged _ _)
  have hset := (hput.andThen hq).trans (.setState (hq.at_self hc') (show _ ≠ TaskState.starting by
    rw [show Clock.state _ = _ from hidle]
    simp))
  simpa using hset.andThen (.sendCmd _ _ _)

end lifecycle

end Graph

end Dekit
