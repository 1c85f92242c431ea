import Dekit.Command

namespace Dekit

/-- How long a quit waits for every task to freeze before giving up on saving. -/
def saveTimeout : Duration := Duration.fromSecs 10

structure TimerEntry where
  key : ℕ
  id : TaskId
  epoch : ℕ
  due : Instant
deriving DecidableEq

def TimerEntry.timeout {τ : Type} (entry : TimerEntry) : KernelMessage τ :=
  ⟨initTaskId, .stateTimeout entry.id entry.epoch⟩

/-- One timer per task, kept matching the graph's deadlines; each is tagged with the epoch it was
set at. `keys` has the epoch and the key in the queue. -/
structure StateTimers where
  queue : List TimerEntry
  keys : TaskId → Option (ℕ × ℕ)
  nextKey : ℕ

namespace StateTimers

def new : StateTimers := ⟨[], fun _ => none, 0⟩

def cancel (timers : StateTimers) (id : TaskId) : StateTimers :=
  match timers.keys id with
  | some (_, key) => { timers with
      queue := timers.queue.filter (·.key ≠ key), keys := Function.update timers.keys id none }
  | none => timers

def arm (timers : StateTimers) (id : TaskId) (epoch : ℕ) (due : Instant) : StateTimers where
  queue := timers.queue ++ [⟨timers.nextKey, id, epoch, due⟩]
  keys := Function.update timers.keys id (some (epoch, timers.nextKey))
  nextKey := timers.nextKey + 1

variable {τ : Type}

/-- None without a deadline, else one at the task's epoch. -/
def updateOne (g : Graph τ) (timers : StateTimers) (id : TaskId) : StateTimers :=
  let timer := (g.tasks.lookup id).bind (fun t => t.deadline.map (fun d => (t.epoch, d - g.now)))
  if (timers.keys id).any (fun armed => timer.any (fun t => armed.1 == t.1)) then timers
  else
    let timers := timers.cancel id
    match timer with
    | some (epoch, delay) => timers.arm id epoch (g.now + delay)
    | none => timers

/-- An entry that has come due goes out of the queue. -/
def expire (timers : StateTimers) (entry : TimerEntry) : StateTimers :=
  { timers with
    queue := timers.queue.filter (·.key ≠ entry.key)
    keys := Function.update timers.keys entry.id none }

end StateTimers

/-- `alarms` are the freeze timeouts under way, and `saved` what the save callback was given.
`arrived` is every message so far as it came in, and `handled` every one as it was dispatched. -/
structure Kernel (τ : Type) where
  graph : Graph τ
  replay : List (KernelMessage τ)
  save : Bool
  saved : List KernelSnapshot
  timers : StateTimers
  alarms : List (Instant × ℕ)
  exited : Bool
  arrived : List (KernelMessage τ)
  handled : List (KernelMessage τ)

inductive Disposition where
  | now
  | covered
  | deferred
deriving DecidableEq

/-- What becomes of a command that comes during a freeze. -/
def KernelCommand.disposition {τ : Type} (forQuit : Bool) : KernelCommand τ → Disposition
  -- Facts about what a task did before it froze, and reads.
  | taskStarted | taskReady | taskStopped _ | query | freeze _ | taskFrozen _ _ | freezeTimeout _
  | thaw => .now
  -- The quit under way covers this one.
  | quit | quitWithin true _ => if forQuit then .covered else .deferred
  -- Drops the save under way.
  | quitWithoutSave | quitWithin false _ => if forQuit then .now else .deferred
  -- Intent and delivery wait for the thaw.
  | registerTask _ _ | registerTasks _ _ | act _ _ _ | unpin _ _ | remove _ _ | dropFolder _ _
  | setFolder _ _ _ | setLabel _ _ _ | duplicate _ _ _ | update _ _ _ | setOrigin _ _ _ | move _ _
  | taskMsg _ _ | subscribePath _ _ | unsubscribePath _ _ | watchActive _ _ | wait _
  | stateTimeout _ _ => .deferred

inductive RestoreError where
  | missingDep (id : TaskId)
  | refused (id : TaskId) (err : RegisterError)
deriving DecidableEq

namespace Kernel

variable {τ : Type}

def new (hasher : Hasher) (now : Instant) : Kernel τ where
  graph := .new hasher now
  replay := []
  save := false
  saved := []
  timers := .new
  alarms := []
  exited := false
  arrived := []
  handled := []

def saveOnQuit (k : Kernel τ) : Kernel τ := { k with save := true }

def answerIf (k : Kernel τ) (reply : Option ReplyId) (a : Answer) : Kernel τ :=
  { k with graph := k.graph.answerIf reply a }

variable [Task τ]

def registerTaskRegistration (k : Kernel τ) (r : TaskRegistration τ) :
    Kernel τ × Except RegisterError Unit :=
  let (graph, result) := k.graph.registerTaskWithId r.taskId r.def' r.factory none
  ({ k with graph }, result)

/-- The first task with a dependency that is not in the snapshot. -/
def missingDep (tasks : List (Option Snap.Task × Registration τ)) : Option TaskId :=
  let ids := tasks.map (fun t => t.2.id)
  (tasks.find? (fun t => t.2.depIds.any (· ∉ ids))).map (fun t => t.2.id)

def firstRefused (ids : List TaskId) (results : List (Except RegisterError Unit)) :
    Except RestoreError Unit :=
  (ids.zip results).forM fun r => r.2.mapError (RestoreError.refused r.1)

def restore (k : Kernel τ) (now : Instant) (nextTaskId : ℕ)
    (tasks : List (Option Snap.Task × Registration τ)) : Kernel τ × Except RestoreError Unit :=
  let k := { k with graph := { k.graph with nextTaskId, now } }
  match missingDep tasks with
  | some id => (k, .error (.missingDep id))
  | none =>
    let (graph, results) := k.graph.registerTasks tasks
    ({ k with graph }, firstRefused (tasks.map (fun t => t.2.id)) results)

def afterDispatch (k : Kernel τ) : Kernel τ :=
  if k.graph.frozen.isSome then k
  else
    let g := k.graph.settle
    { k with
      graph := { g with stateChanged := false, timerChanges := [] }
      timers := g.timerChanges.foldl (StateTimers.updateOne g) k.timers }

/-- Thaws, and puts what was deferred behind what a thaw before handed back. -/
def thaw (k : Kernel τ) : Kernel τ :=
  let (graph, deferred) := k.graph.thaw
  { k with graph, replay := k.replay ++ deferred }

def beginQuit (k : Kernel τ) : Kernel τ × Bool :=
  let (graph, atOnce) := k.graph.beginQuit
  ({ k with graph }, atOnce)

/-- Begins a quit, saving first when asked and a save is set up, and answers with the longest the
runner can take to exit. True when the loop should exit at once. -/
def quit (k : Kernel τ) (save : Bool) (reply : Option ReplyId) : Kernel τ × Bool :=
  if save ∧ k.save ∧ !k.graph.quitting then
    let k := k.answerIf reply (.within (saveTimeout + k.graph.stopWithin))
    let (graph, number) := k.graph.beginQuitFreeze
    ({ k with graph, alarms := k.alarms ++ [(k.graph.now + saveTimeout, number)] }, false)
  else
    -- Drops a save a quit has begun.
    let k := if k.graph.freezingForQuit then k.thaw else k
    let (k, atOnce) := k.beginQuit
    (k.answerIf reply (.within (if atOnce then 0 else k.graph.stopWithin)), atOnce)

/-- A dispatched command; with whether the loop exits, where that is settled at once. -/
def runCommand (k : Kernel τ) (msg : KernelMessage τ) : Kernel τ × Option Bool :=
  let quit (save : Bool) (reply : Option ReplyId) :=
    let (k, atOnce) := k.quit save reply
    (k, if atOnce then some true else none)
  match msg.command with
  | .quit => quit true none
  | .quitWithoutSave => quit false none
  | .quitWithin save reply => quit save (some reply)
  | .freezeTimeout number =>
    if k.graph.freezingForQuit ∧ k.graph.frozen.any (·.number == number) then
      let (k, atOnce) := k.thaw.beginQuit
      (k, some atOnce)
    else (k, none)
  | .thaw => (k.thaw, none)
  | command => ({ k with graph := k.graph.perform msg.sender command }, none)

/-- A quit whose freeze is complete saves the snapshot, thaws and begins. -/
def finishFreeze (k : Kernel τ) : Kernel τ × Bool :=
  match k.graph.finishFreezeIfComplete with
  | (graph, none) => ({ k with graph }, false)
  | (graph, some snapshot) =>
    let saved := if k.save then k.saved ++ [snapshot] else k.saved
    { k with graph, saved }.thaw.beginQuit

def dispatchNow (k : Kernel τ) (msg : KernelMessage τ) : Kernel τ × Bool :=
  match { k with handled := k.handled ++ [msg] }.runCommand msg with
  | (k, some exit) => (k, exit)
  | (k, none) => k.finishFreeze

/-- The quit under way answers for a quit that comes while it saves. -/
def cover (k : Kernel τ) : KernelCommand τ → Kernel τ
  | .quitWithin _ reply => k.answerIf (some reply) (.within (saveTimeout + k.graph.stopWithin))
  | _ => k

def dispatch (k : Kernel τ) (msg : KernelMessage τ) : Kernel τ × Bool :=
  match k.graph.frozen with
  | none => k.dispatchNow msg
  | some frozen => match msg.command.disposition k.graph.freezingForQuit with
    | .now => k.dispatchNow msg
    | .covered => (k.cover msg.command, false)
    | .deferred =>
      let frozen := { frozen with deferred := frozen.deferred ++ [msg] }
      ({ k with graph := { k.graph with frozen := some frozen } }, false)

/-- One turn of the loop, at the time it reads the clock. -/
def turn (k : Kernel τ) (now : Instant) (msg : KernelMessage τ) : Kernel τ :=
  match { k with graph := { k.graph with now } }.dispatch msg with
  | (k, true) => { k with exited := true }
  | (k, false) =>
    let k := k.afterDispatch
    { k with exited := k.graph.quitting && k.graph.noActiveTasks }

def alarmed (number : ℕ) : KernelMessage τ := ⟨initTaskId, .freezeTimeout number⟩

def arrive (k : Kernel τ) (msg : KernelMessage τ) : Kernel τ :=
  { k with arrived := k.arrived ++ [msg] }

/-- A kernel as it is put together before its loop runs. -/
inductive Booted : Kernel τ → Prop
  | new (hasher : Hasher) (now : Instant) : Booted (.new hasher now)
  | saveOnQuit {k : Kernel τ} : Booted k → Booted k.saveOnQuit
  | alloc {k : Kernel τ} : Booted k → Booted { k with graph := k.graph.allocId.2 }
  | install {k : Kernel τ} (r : TaskRegistration τ) : Booted k → Booted (k.registerTaskRegistration r).1
  | restore {k : Kernel τ} {now : Instant} {nextTaskId : ℕ}
      {tasks : List (Option Snap.Task × Registration τ)} (hnext : nextTaskId ≠ initTaskId)
      (hnow : k.graph.now ≤ now) : Booted k → Booted (k.restore now nextTaskId tasks).1

/-- One turn of the loop and the message it takes: what a thaw handed back comes first; else a message
comes in, a timer or a freeze timeout has come due. Tasks take ids meanwhile. -/
inductive Step : Kernel τ → Option (KernelMessage τ) → Kernel τ → Prop
  | replayed {k : Kernel τ} {now : Instant} {msg : KernelMessage τ} {rest : List (KernelMessage τ)} :
      k.exited = false → k.graph.now ≤ now → k.replay = msg :: rest →
      Step k (some msg) ({ k with replay := rest }.turn now msg)
  | received {k : Kernel τ} {now : Instant} (msg : KernelMessage τ) :
      k.exited = false → k.graph.now ≤ now → k.replay = [] →
      Step k (some msg) ((k.arrive msg).turn now msg)
  | expired {k : Kernel τ} {now : Instant} {entry : TimerEntry} :
      k.exited = false → k.graph.now ≤ now → k.replay = [] →
      entry ∈ k.timers.queue → entry.due ≤ now →
      Step k (some entry.timeout)
        (({ k with timers := k.timers.expire entry }.arrive entry.timeout).turn now entry.timeout)
  | alarm {k : Kernel τ} {now due : Instant} {number : ℕ} :
      k.exited = false → k.graph.now ≤ now → k.replay = [] →
      (due, number) ∈ k.alarms → due ≤ now →
      Step k (some (alarmed number))
        (({ k with alarms := k.alarms.erase (due, number) }.arrive (alarmed number)).turn now (alarmed number))
  | alloc {k : Kernel τ} : k.exited = false → Step k none { k with graph := k.graph.allocId.2 }

inductive Reachable : Kernel τ → Prop
  | start {k : Kernel τ} : Booted k → Reachable k.afterDispatch
  | step {k k' : Kernel τ} {msg : Option (KernelMessage τ)} : Reachable k → Step k msg k' → Reachable k'

/-- Steps from `k₀` on that each meet a condition. -/
inductive Run (ok : Kernel τ → Option (KernelMessage τ) → Prop) (k₀ : Kernel τ) : Kernel τ → Prop
  | refl : Run ok k₀ k₀
  | tail {k k' : Kernel τ} {msg : Option (KernelMessage τ)} :
      Run ok k₀ k → ok k msg → Step k msg k' → Run ok k₀ k'

end Kernel

end Dekit
