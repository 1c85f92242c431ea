import Mathlib.Data.Finset.Card
import Dekit.TaskPath
import Dekit.TaskSpec

namespace Dekit

abbrev Duration := ℕ

abbrev Instant := ℕ

namespace Duration

def fromSecs (n : ℕ) : Duration := n * 1000000000

def fromMillis (n : ℕ) : Duration := n * 1000000

def asMillis (d : Duration) : ℕ := d / 1000000

def asSecs (d : Duration) : ℕ := d / 1000000000

end Duration

def stopTimeout : Duration := Duration.fromSecs 10

structure ExitInfo where
  code : Option Int
  signal : Option Int
  readyTimeout : Bool
deriving DecidableEq

namespace ExitInfo

def ofCode (code : Int) : ExitInfo := ⟨some code, none, false⟩

def error : ExitInfo := ⟨none, none, false⟩

def success (info : ExitInfo) : Bool := info.code == some 0 && !info.readyTimeout

end ExitInfo

inductive TaskKind where
  | service
  | job
deriving DecidableEq

inductive TaskState where
  | idle
  | starting
  | running
  | ready
  | stopping
  | backoff (info : ExitInfo)
  | done (info : ExitInfo)
  | exited (info : ExitInfo)
deriving DecidableEq

namespace TaskState

def isActive : TaskState → Bool
  | starting | running | ready | stopping => true
  | idle | backoff _ | done _ | exited _ => false

def isUp (s : TaskState) : TaskKind → Bool
  | .service => s == ready
  | .job => s == running

/-- Whether a task of the kind in the state satisfies its dependents. -/
def satisfies (s : TaskState) : TaskKind → Bool
  | .service => s == ready
  | .job => match s with
    | done _ => true
    | _ => false

end TaskState

inductive ReadyMode where
  | immediate
  | reported (timeout : Option Duration)
deriving DecidableEq

def ReadyMode.timeout : ReadyMode → Option Duration
  | immediate => none
  | reported timeout => timeout

inductive RestartMode where
  | never
  | onFailure
  | always
deriving DecidableEq

/-- A screen is known to the kernel by its handle alone. -/
abbrev ScreenHandle := ℕ

structure NextRun where
  kind : TaskKind
  ready : ReadyMode
  stopTimeout : Duration
  spec : Option TaskSpec

structure Run where
  spec : TaskSpec
  path : Option TaskPath

inductive TaskEffect where
  | started
  | ready
  | stopped (info : ExitInfo)
deriving DecidableEq

inductive TaskNotify where
  | added (path : Option TaskPath) (label : Option String) (after : Option TaskId)
      (kind : TaskKind) (state : TaskState) (vt : Option ScreenHandle)
  | folderAdded (path : TaskPath) (after : Option TaskId) (collapsed : Bool)
  | stateChanged (state : TaskState)
  | removed
  | changed (label : Option String) (kind : TaskKind)
  | moved (path : Option TaskPath) (after : Option TaskId)

/-- What a task is sent beside its commands: what it subscribed to, or a message of another task,
which the kernel does not look into. -/
inductive Payload where
  | notification (source : TaskId) (notify : TaskNotify)
  | other (content : ℕ)

inductive TaskCmd where
  | start (run : Option Run)
  | stop
  | kill
  | msg (payload : Payload)
  | freeze (number : ℕ)
  | thaw

def TaskCmd.isNotification : TaskCmd → Bool
  | msg (.notification _ _) => true
  | _ => false

/-- A task takes a command and answers with any reports. -/
class Task (τ : Type) where
  handleCmd : τ → TaskCmd → τ × List TaskEffect

/-- A task driven over a channel; `sent` is what is queued there. -/
structure ChannelTask where
  sent : List TaskCmd
  closed : Bool

instance : Task ChannelTask where
  handleCmd t cmd :=
    if t.closed then (t, [.stopped .error]) else ({ t with sent := t.sent ++ [cmd] }, [])

/-- What a task is registered with. A copy is made from a new id, its key and a definition, or
refused. -/
structure TaskDef (τ : Type) where
  kind : TaskKind := .service
  ready : ReadyMode := .immediate
  restart : RestartMode := .never
  stopTimeout : Duration := stopTimeout
  deps : List TaskSelector := []
  pinned : Bool := false
  savedPin : Bool := false
  space : TaskSpaceId := TaskSpaceId.defaultSpace
  path : Option TaskPath := none
  label : Option String := none
  place : Place := .last
  vt : Option ScreenHandle := none
  tags : List String := []
  spec : Option TaskSpec := none
  origin : Option Source := none
  next : Option NextRun := none
  makeCopy : Option (TaskId → Option TaskKey → TaskSpec → Option (TaskDef τ × (TaskId → τ))) := none

structure TaskHandle (τ : Type) where
  task : τ
  state : TaskState
  epoch : ℕ
  vetoed : Bool
  killed : Bool
  attempts : ℕ
  lastStart : Option Instant
  deadline : Option Instant
  wanted : Bool
  supported : Bool
  /-- Counted in the integers, so that a decrement below zero would show. -/
  wantedParents : ℤ
  activeDependents : ℤ
  startFailed : Bool
  stopTimedOut : Bool
  savedPin : Bool
  kind : TaskKind
  ready : ReadyMode
  stopTimeout : Duration
  next : Option NextRun
  restart : RestartMode
  space : TaskSpaceId
  path : Option TaskPath
  label : Option String
  vt : Option ScreenHandle
  tags : List String
  spec : Option TaskSpec
  origin : Option Source
  makeCopy : Option (TaskId → Option TaskKey → TaskSpec → Option (TaskDef τ × (TaskId → τ)))

namespace TaskHandle

variable {τ : Type}

def adopt (t : TaskHandle τ) (next : NextRun) : TaskHandle τ :=
  { t with kind := next.kind, ready := next.ready, stopTimeout := next.stopTimeout, spec := next.spec }

/-- A run starts from the definition as it is now. -/
def begun (t : TaskHandle τ) (now : Instant) : TaskHandle τ :=
  let old := { t with lastStart := some now, next := none }
  match t.next with
  | some next => old.adopt next
  | none => old

def setState (t : TaskHandle τ) (state : TaskState) : TaskHandle τ :=
  { t with
    state, epoch := t.epoch + 1, killed := false, startFailed := false, stopTimedOut := false
    deadline := none }

def defSpec (t : TaskHandle τ) : Option TaskSpec :=
  match t.next with
  | some next => next.spec
  | none => t.spec

def startedState (t : TaskHandle τ) : TaskState :=
  match t.kind, t.ready with
  | .service, .immediate => .ready
  | .service, .reported _ => .running
  | .job, _ => .running

def isSatisfied (t : TaskHandle τ) : Bool := t.state.satisfies t.kind

def exitState (t : TaskHandle τ) (info : ExitInfo) : TaskState :=
  if t.kind = .job ∧ info.success then .done info
  else
    let retry := match t.restart with
      | .never => false
      | .onFailure => !info.success
      | .always => true
    if retry then .backoff info else .exited info

end TaskHandle

end Dekit
