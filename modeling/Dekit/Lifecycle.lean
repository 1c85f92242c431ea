import Dekit.Graph

namespace Dekit

/-- How long a hard-killed task may take to report stopped. -/
def killWait : Duration := Duration.fromSecs 10

def backoffMin : Duration := Duration.fromMillis 100

def backoffMax : Duration := Duration.fromSecs 30

/-- Uptime after which the restart attempt counter resets. -/
def backoffReset : Duration := Duration.fromSecs 10

def backoffDelay (attempts : ℕ) : Duration :=
  min (backoffMin * 2 ^ min (attempts - 1) 16) backoffMax

namespace Graph

variable {τ : Type} [Task τ]

def startTask (g : Graph τ) (id : TaskId) : Graph τ :=
  match g.tasks.lookup id with
  | none => g
  | some old =>
    let t := old.begun g.now
    let run := t.spec.map (fun spec => { spec, path := t.path })
    let g := { g with tasks := g.tasks.insert id t }
    let g := if old.kind = t.kind then g else g.notifyChanged id
    (g.setState id .starting).sendCmd id (.start run)

def stopTask (g : Graph τ) (id : TaskId) (startFailed : Bool) : Graph τ :=
  let g := g.setState id .stopping
  match g.tasks.lookup id with
  | none => g
  | some t =>
    let g := g.modifyTask id (fun t => { t with startFailed })
    (g.scheduleStateTimeout id t.stopTimeout).sendCmd id .stop

def failStart (g : Graph τ) (id : TaskId) : Graph τ := g.stopTask id true

def hardKill (g : Graph τ) (id : TaskId) : Graph τ :=
  -- The stop grace's timer is replaced by the kill wait's.
  let g := g.modifyTask id (fun t => { t with killed := true, epoch := t.epoch + 1 })
  (g.sendCmd id .kill).scheduleStateTimeout id killWait

def landExit (g : Graph τ) (id : TaskId) (info : ExitInfo) : Graph τ :=
  match g.tasks.lookup id with
  | none => g
  | some t => match t.exitState info with
    | .backoff info =>
      let g := g.modifyTask id (fun t => { t with attempts := t.attempts + 1 })
      (g.setState id (.backoff info)).scheduleStateTimeout id (backoffDelay (t.attempts + 1))
    | state => g.setState id state

/-- A commanded stop lands in `idle`, the stop of a failed start as a failed exit. -/
def landStop (g : Graph τ) (id : TaskId) (info : ExitInfo) : Graph τ :=
  match g.tasks.lookup id with
  | none => g
  | some t =>
    if t.startFailed then g.landExit id { info with readyTimeout := true }
    else g.setState id .idle

/-- The kill wait is over: the process may be leaked. -/
def giveUp (g : Graph τ) (id : TaskId) (startFailed : Bool) : Graph τ :=
  let g := g.landStop id .error
  match g.tasks.lookup id with
  | none => g
  | some t =>
    if !startFailed ∧ t.state = .idle then
      { g.modifyTask id (fun t => { t with stopTimedOut := true }) with stateChanged := true }
    else g

def onStateTimeout (g : Graph τ) (id : TaskId) (epoch : ℕ) : Graph τ :=
  match g.tasks.lookup id with
  | none => g
  | some t =>
    if t.epoch ≠ epoch then g
    else
      let g := { g.modifyTask id (fun t => { t with deadline := none }) with
        timerChanges := g.timerChanges ++ [id] }
      match t.state with
      | .backoff _ => g.setState id .idle
      | .stopping => if t.killed then g.giveUp id t.startFailed else g.hardKill id
      | .running => if t.ready.timeout.isSome then g.failStart id else g
      | .idle | .starting | .ready | .done _ | .exited _ => g

def onTaskStarted (g : Graph τ) (id : TaskId) : Graph τ :=
  match g.tasks.lookup id with
  | none => g
  | some t => match t.state with
    | .starting =>
      let g := g.setState id t.startedState
      match t.startedState, t.ready.timeout with
      | .running, some timeout => g.scheduleStateTimeout id timeout
      | _, _ => g
    | _ => g

def onTaskReady (g : Graph τ) (id : TaskId) : Graph τ :=
  match g.tasks.lookup id with
  | none => g
  | some t => match t.state with
    | .running => g.setState id .ready
    | _ => g

/-- Only a start that got up and stayed up ends the backoff. -/
def stayedUp (g : Graph τ) (t : TaskHandle τ) : Bool :=
  t.state.isUp t.kind && t.lastStart.any (fun start => decide (backoffReset < g.now - start))

def onTaskStopped (g : Graph τ) (id : TaskId) (info : ExitInfo) : Graph τ :=
  match g.tasks.lookup id with
  | none => g
  | some t => match t.state with
    | .stopping => g.landStop id info
    | .starting | .running | .ready =>
      let g := if g.stayedUp t then g.modifyTask id (fun t => { t with attempts := 0 }) else g
      g.landExit id info
    | .idle | .backoff _ | .done _ | .exited _ => g

def onEffect (g : Graph τ) (id : TaskId) : TaskEffect → Graph τ
  | .started => g.onTaskStarted id
  | .ready => g.onTaskReady id
  | .stopped info => g.onTaskStopped id info

end Graph

end Dekit
