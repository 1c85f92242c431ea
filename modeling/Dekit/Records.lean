import Dekit.Batch

namespace Dekit

/-- What is kept of a task, but for its handler, its timer and how its last runs went. -/
structure Record (τ : Type) where
  state : TaskState
  epoch : ℕ
  killed : Bool
  startFailed : Bool
  stopTimedOut : Bool
  savedPin : Bool
  kind : TaskKind
  ready : ReadyMode
  restart : RestartMode
  vetoed : Bool
  wanted : Bool
  supported : Bool
  wantedParents : ℤ
  space : TaskSpaceId
  path : Option TaskPath
  label : Option String
  tags : List String
  makeCopy : Option (TaskId → Option TaskKey → TaskSpec → Option (TaskDef τ × (TaskId → τ)))

def TaskHandle.record {τ : Type} (t : TaskHandle τ) : Record τ where
  state := t.state
  epoch := t.epoch
  killed := t.killed
  startFailed := t.startFailed
  stopTimedOut := t.stopTimedOut
  savedPin := t.savedPin
  kind := t.kind
  ready := t.ready
  restart := t.restart
  vetoed := t.vetoed
  wanted := t.wanted
  supported := t.supported
  wantedParents := t.wantedParents
  space := t.space
  path := t.path
  label := t.label
  tags := t.tags
  makeCopy := t.makeCopy

/-- What a definition may be: one with a saved pin is not pinned yet, and so are the copies made from it. -/
inductive TaskDef.Fit {τ : Type} : TaskDef τ → Prop
  | intro (d : TaskDef τ) : (d.savedPin = true → d.pinned = false) →
      (∀ copy id key spec d' factory, d.makeCopy = some copy → copy id key spec = some (d', factory) →
        d'.savedPin = false) →
      (∀ copy id key spec d' factory, d.makeCopy = some copy → copy id key spec = some (d', factory) →
        TaskDef.Fit d') → TaskDef.Fit d

namespace Record

variable {τ : Type}

def enter (state : TaskState) (t : Record τ) : Record τ :=
  { t with state, epoch := t.epoch + 1, killed := false, startFailed := false, stopTimedOut := false }

def exitState (t : Record τ) (info : ExitInfo) : TaskState :=
  if t.kind = .job ∧ info.success then .done info
  else
    let retry := match t.restart with
      | .never => false
      | .onFailure => !info.success
      | .always => true
    if retry then .backoff info else .exited info

def startedState (t : Record τ) : TaskState :=
  match t.kind, t.ready with
  | .service, .immediate => .ready
  | .service, .reported _ => .running
  | .job, _ => .running

def isSatisfied (t : Record τ) : Bool := t.state.satisfies t.kind

def CopiesFit (t : Record τ) : Prop :=
  ∀ copy id key spec def' factory, t.makeCopy = some copy →
    copy id key spec = some (def', factory) → def'.savedPin = false ∧ TaskDef.Fit def'

end Record

@[simp] theorem TaskHandle.record_exitState {τ : Type} (t : TaskHandle τ) (info : ExitInfo) :
    t.record.exitState info = t.exitState info := rfl

@[simp] theorem TaskHandle.record_startedState {τ : Type} (t : TaskHandle τ) :
    t.record.startedState = t.startedState := rfl

/-- What is kept of the graph; `changed` is its word that something a wait looks at changed. -/
@[ext]
structure Records (τ : Type) where
  quitting : Bool
  changed : Bool
  tasks : TaskId → Option (Record τ)
  deps : TaskId → Finset TaskId
  tags : String → Finset TaskId
  transitions : List Transition

namespace Records

variable {τ : Type}

def modify (s : Records τ) (id : TaskId) (f : Record τ → Record τ) : Records τ :=
  { s with tasks := fun x => if x = id then (s.tasks x).map f else s.tasks x }

/-- A task goes to a state, and that it does is written down. -/
def enterState (s : Records τ) (id : TaskId) (t : Record τ) (state : TaskState) : Records τ :=
  { s.modify id (Record.enter state) with
    changed := true
    transitions := s.transitions ++ [⟨id, t.state, state, t.startFailed⟩] }

def untag (s : Records τ) (id : TaskId) (own : List String) (tag : String) : Finset TaskId :=
  if tag ∈ own then (s.tags tag).erase id else s.tags tag

def wants (s : Records τ) (id : TaskId) : Bool :=
  !s.quitting && (s.tasks id).any (fun t => !t.vetoed && decide (0 < t.wantedParents))

def supports (s : Records τ) (id : TaskId) : Bool :=
  (s.tasks id).any (·.wanted) &&
    decide (∀ dep ∈ s.deps id, (s.tasks dep).any (fun t => t.supported && t.isSatisfied) = true)

end Records

/-- What comes in from outside: the exits that tasks report, and whether definitions and what was saved
of tasks are fit. -/
structure Terms (τ : Type) [Task τ] where
  reports : ExitInfo → Prop
  answers : ∀ (t : τ) cmd info, .stopped info ∈ (Task.handleCmd t cmd).2 → reports info
  fit : Prop

/-- What a change of the records goes back to: the kernel itself, a command, or one to remove. -/
inductive Cause where
  | itself
  | command
  | removal
deriving DecidableEq

/-- The diagram of a task's states: how the kernel moves a task, and how a command does. -/
inductive Leads {τ : Type} [Task τ] (I : Terms τ) (t : Record τ) : Cause → TaskState → Prop
  | starts {c : Cause} : t.state = .idle → t.supported = true → Leads I t c .starting
  | started {c : Cause} : t.state = .starting → Leads I t c t.startedState
  | ready {c : Cause} : t.state = .running → Leads I t c .ready
  | stops {c : Cause} : t.state = .starting ∨ t.state = .running ∨ t.state = .ready → Leads I t c .stopping
  | ends {c : Cause} {info : ExitInfo} : t.state = .starting ∨ t.state = .running ∨ t.state = .ready →
      I.reports info → Leads I t c (t.exitState info)
  | lands {c : Cause} : t.state = .stopping → t.startFailed = false → Leads I t c .idle
  | fails {c : Cause} {info : ExitInfo} : t.state = .stopping → t.startFailed = true →
      info.readyTimeout = true → Leads I t c (t.exitState info)
  | retries {c : Cause} {info : ExitInfo} : t.state = .backoff info → Leads I t c .idle
  | revives {info : ExitInfo} : t.state = .done info ∨ t.state = .exited info → Leads I t .command .idle

/-- One change of the records. -/
inductive Edit {τ : Type} [Task τ] (I : Terms τ) : Cause → Records τ → Records τ → Prop
  | entered {c : Cause} {s : Records τ} {id : TaskId} {t : Record τ} {state : TaskState} :
      s.tasks id = some t → Leads I t c state → Edit I c s (s.enterState id t state)
  | adopted {c : Cause} {s : Records τ} {id : TaskId} {t : Record τ} (kind : TaskKind) (ready : ReadyMode) :
      s.tasks id = some t → t.state = .idle → Edit I c s (s.modify id fun t => { t with kind, ready })
  | failed {c : Cause} {s : Records τ} {id : TaskId} {t : Record τ} : s.tasks id = some t → t.state = .stopping →
      t.ready.timeout.isSome = true → s.changed = true →
        Edit I c s (s.modify id fun t => { t with startFailed := true })
  | killed {c : Cause} {s : Records τ} {id : TaskId} {t : Record τ} : s.tasks id = some t → t.state = .stopping →
      Edit I c s (s.modify id fun t => { t with killed := true, epoch := t.epoch + 1 })
  | gaveUp {c : Cause} {s : Records τ} {id : TaskId} {t : Record τ} : s.tasks id = some t → t.state = .idle →
      Edit I c s { s.modify id (fun t => { t with stopTimedOut := true }) with changed := true }
  | supports {c : Cause} (s : Records τ) (id : TaskId) :
      Edit I c s (s.modify id fun t => { t with supported := s.supports id })
  | wants {c : Cause} {s : Records τ} {id : TaskId} {t : Record τ} (parents : TaskId → ℤ) :
      s.tasks id = some t → t.wanted ≠ s.wants id →
      Edit I c s { s with
        changed := true
        tasks := fun x => (s.tasks x).map fun t => { t with
          wanted := if x = id then s.wants id else t.wanted, wantedParents := parents x } }
  | excused (s : Records τ) (id : TaskId) :
      Edit I .command s { s.modify id (fun t => { t with startFailed := false }) with changed := true }
  | unsaved (s : Records τ) (id : TaskId) : Edit I .command s (s.modify id fun t => { t with savedPin := false })
  | vetoed (s : Records τ) (id : TaskId) (value : Bool) :
      Edit I .command s (s.modify id fun t => { t with vetoed := value })
  | linked {s : Records τ} {src dst : TaskId} (parents : ℤ) : (s.tasks dst).isSome = true →
      (src = initTaskId → I.fit → ∀ t, s.tasks dst = some t → t.savedPin = false) →
      Edit I .command s { s.modify dst (fun t => { t with wantedParents := parents }) with
        deps := Function.update s.deps src (insert dst (s.deps src)), changed := true }
  | unlinked (s : Records τ) (src dst : TaskId) (parents : ℤ) :
      Edit I .command s { s.modify dst (fun t => { t with wantedParents := parents }) with
        deps := Function.update s.deps src ((s.deps src).erase dst), changed := true }
  | tagged {s : Records τ} {id : TaskId} {t : Record τ} (own : List String) : s.tasks id = some t →
      Edit I .command s { s.modify id (fun t => { t with tags := own }) with
        tags := fun tag => if tag ∈ own then insert id (s.untag id t.tags tag) else s.untag id t.tags tag
        changed := s.changed || decide (t.tags ≠ own) }
  | labelled (s : Records τ) (id : TaskId) (label : Option String) :
      Edit I .command s { s.modify id (fun t => { t with label }) with changed := true }
  | redefined (s : Records τ) (id : TaskId) (next : TaskKind × ReadyMode) (restart : RestartMode)
      (label : Option String) :
      Edit I .command s { s.modify id (fun t => { t with
          kind := if t.state = .idle then next.1 else t.kind
          ready := if t.state = .idle then next.2 else t.ready
          restart, label }) with changed := true }
  | moved {s : Records τ} (id : TaskId) (path : Option TaskPath) : s.changed = true →
      Edit I .command s (s.modify id fun t => { t with path })
  | registered {s : Records τ} {id : TaskId} {t : Record τ} : s.tasks id = none → id ≠ initTaskId → t.tags = [] →
      (t.startFailed = true → t.state = .stopping ∧ t.ready.timeout.isSome = true) →
      (t.stopTimedOut = true → t.state = .idle) →
      (I.fit → (t.killed = true → t.state = .stopping) ∧ t.CopiesFit) →
      Edit I .command s { s with tasks := Function.update s.tasks id (some t), changed := true }
  | flagged (s : Records τ) : Edit I .command s { s with changed := true }
  | quits (s : Records τ) : Edit I .command s { s with quitting := true }
  | removed {s : Records τ} {id : TaskId} {t : Record τ} (parents : TaskId → ℤ) : s.tasks id = some t →
      Edit I .removal s { s with
        changed := true
        tasks := fun x => if x = id then none else (s.tasks x).map fun t => { t with wantedParents := parents x }
        deps := fun x => if x = id then ∅ else (s.deps x).erase id
        tags := s.untag id t.tags }

end Dekit
