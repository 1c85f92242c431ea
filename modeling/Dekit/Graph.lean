import Dekit.Message
import Dekit.View

namespace Dekit

inductive FreezeReply where
  | rpc (reply : ReplyId)
  | quit
deriving DecidableEq

/-- A freeze in progress: which tasks still owe their snapshot, what the others answered, and every
message deferred meanwhile. -/
structure Frozen (τ : Type) where
  number : ℕ
  reply : Option FreezeReply
  waiting : Finset TaskId
  snapshots : Finmap (fun _ : TaskId => Snap.TaskKind)
  deferred : List (KernelMessage τ)

structure Folder where
  space : TaskSpaceId
  path : TaskPath
  settings : FolderSettings

/-- A change of a task's state, with whether its start had failed. -/
structure Transition where
  id : TaskId
  src : TaskState
  dst : TaskState
  startFailed : Bool
deriving DecidableEq

/-- `edges a` holds what `a` requires, `redges b` what requires `b`; a task with no entry has the
empty set. `answers` is what went out on reply channels and `log` what happened, with the graph as
it was then. -/
structure Graph (τ : Type) where
  quitting : Bool
  nextTaskId : ℕ
  tasks : Finmap (fun _ : TaskId => TaskHandle τ)
  edges : TaskId → Finset TaskId
  redges : TaskId → Finset TaskId
  ns : Namespace
  folders : Finmap (fun _ : TaskId => Folder)
  tags : String → Finset TaskId
  dirty : List TaskId
  inQueue : Finset TaskId
  now : Instant
  timerChanges : List TaskId
  pendingEffects : List (TaskId × TaskEffect)
  stateChanged : Bool
  frozen : Option (Frozen τ)
  freezes : ℕ
  hasher : Hasher
  tick : ℕ
  transitions : List Transition
  answers : List (ReplyId × Answer)
  log : List (Happening × View)

namespace Graph

variable {τ : Type}

def new (hasher : Hasher) (now : Instant) : Graph τ where
  quitting := false
  nextTaskId := 1
  tasks := ∅
  edges _ := ∅
  redges _ := ∅
  ns := .new
  folders := ∅
  tags _ := ∅
  dirty := []
  inQueue := ∅
  now := now
  timerChanges := []
  pendingEffects := []
  stateChanged := false
  frozen := none
  freezes := 0
  hasher := hasher
  tick := 0
  transitions := []
  answers := []
  log := []

def view (g : Graph τ) : View where
  quitting := g.quitting
  ids := g.tasks.keys
  node id := (g.tasks.lookup id).map TaskHandle.node
  deps := g.edges
  requirers := g.redges
  dirty := g.inQueue

def note (g : Graph τ) (h : Happening) : Graph τ := { g with log := (h, g.view) :: g.log }

def answer (g : Graph τ) (reply : ReplyId) (a : Answer) : Graph τ :=
  { g with answers := g.answers ++ [(reply, a)] }

def answerIf (g : Graph τ) (ack : Option ReplyId) (a : Answer) : Graph τ :=
  match ack with
  | some reply => g.answer reply a
  | none => g

def modifyTask (g : Graph τ) (id : TaskId) (f : TaskHandle τ → TaskHandle τ) : Graph τ :=
  { g with tasks := g.tasks.modify id f }

def walk (g : Graph τ) (owner : TaskId) (s : Finset TaskId) : List TaskId :=
  g.hasher.order g.tick owner s

def walkSpaces (g : Graph τ) : Finset String → List String := g.hasher.names g.tick

def forEach (g : Graph τ) (owner : TaskId) (s : Finset TaskId) (body : Graph τ → TaskId → Graph τ) :
    Graph τ :=
  (g.walk owner s).foldl body { g with tick := g.tick + 1 }

def enqueue (g : Graph τ) (id : TaskId) : Graph τ :=
  if id ≠ initTaskId ∧ id ∈ g.tasks ∧ id ∉ g.inQueue then
    { g with inQueue := insert id g.inQueue, dirty := g.dirty ++ [id] }
  else g

def popDirty (g : Graph τ) : Option (TaskId × Graph τ) :=
  match g.dirty with
  | [] => none
  | id :: rest => some (id, { g with dirty := rest, inQueue := g.inQueue.erase id })

def enqueueParents (g : Graph τ) (id : TaskId) : Graph τ := g.forEach id (g.redges id) enqueue

def queueEffects (g : Graph τ) (id : TaskId) (fx : List TaskEffect) : Graph τ :=
  { g with pendingEffects := g.pendingEffects ++ fx.map (fun e => (id, e)) }

def setTask (g : Graph τ) (id : TaskId) (task : τ) : Graph τ :=
  g.modifyTask id (fun t => { t with task })

section commands

variable [Task τ]

def deliverTo (source : TaskId) (notify : TaskNotify) (g : Graph τ) (listener : TaskId) : Graph τ :=
  match g.tasks.lookup listener with
  | some t =>
    let (task, fx) := Task.handleCmd t.task (.msg (.notification source notify))
    (g.setTask listener task).queueEffects listener fx
  | none => g

def deliver (g : Graph τ) (source : TaskId) (notify : TaskNotify) (targets : Finset TaskId) :
    Graph τ :=
  g.forEach source targets (deliverTo source notify)

def notifySubscribers (g : Graph τ) (source : TaskId) (space : TaskSpaceId)
    (path : Option TaskPath) (notify : TaskNotify) : Graph τ :=
  let targets := match path with
    | some path => g.ns.collect ⟨space, path⟩
    | none => ∅
  g.deliver source notify targets

def sentCmd : TaskCmd → Option SentCmd
  | .start _ => some .start
  | .stop => some .stop
  | .kill => some .kill
  | .msg _ | .freeze _ | .thaw => none

def noteSent (g : Graph τ) (id : TaskId) (cmd : TaskCmd) : Graph τ :=
  match sentCmd cmd with
  | some sent => g.note (.sent id sent)
  | none => g

def sendCmd (g : Graph τ) (id : TaskId) (cmd : TaskCmd) : Graph τ :=
  let g := g.noteSent id cmd
  match g.tasks.lookup id with
  | some t =>
    let (task, fx) := Task.handleCmd t.task cmd
    (g.setTask id task).queueEffects id fx
  | none => g

/-- Tells the subscribers what the task is called now, and what it is. -/
def notifyChanged (g : Graph τ) (id : TaskId) : Graph τ :=
  match g.tasks.lookup id with
  | some t => g.notifySubscribers id t.space t.path (.changed t.label t.kind)
  | none => g

end commands

def addEdge (g : Graph τ) (src dst : TaskId) : Graph τ :=
  if src = dst ∨ dst = initTaskId then g
  else if dst ∉ g.tasks ∨ (src ≠ initTaskId ∧ src ∉ g.tasks) then g
  else
    let g :=
      if dst ∈ g.edges src then g
      else
        let t := g.tasks.lookup src
        let parentWanted := src = initTaskId ∨ t.any (·.wanted)
        let parentActive := src ≠ initTaskId ∧ t.any (·.state.isActive)
        { g with
          edges := Function.update g.edges src (insert dst (g.edges src))
          redges := Function.update g.redges dst (insert src (g.redges dst))
          stateChanged := true
          tasks := g.tasks.modify dst (fun t => { t with
            wantedParents := if parentWanted then t.wantedParents + 1 else t.wantedParents
            activeDependents := if parentActive then t.activeDependents + 1 else t.activeDependents }) }
    ((g.enqueue dst).enqueue src).note .touched

def removeEdge (g : Graph τ) (src dst : TaskId) : Graph τ :=
  let g :=
    if dst ∈ g.edges src then
      let t := g.tasks.lookup src
      let parentWanted := src = initTaskId ∨ t.any (·.wanted)
      let parentActive := src ≠ initTaskId ∧ t.any (·.state.isActive)
      { g with
        edges := Function.update g.edges src ((g.edges src).erase dst)
        redges := Function.update g.redges dst ((g.redges dst).erase src)
        stateChanged := true
        tasks := g.tasks.modify dst (fun t => { t with
          wantedParents := if parentWanted then t.wantedParents - 1 else t.wantedParents
          activeDependents := if parentActive then t.activeDependents - 1 else t.activeDependents }) }
    else g
  ((g.enqueue dst).enqueue src).note .touched

/-- Sets the timer on the task's current state, at its current epoch. -/
def scheduleStateTimeout (g : Graph τ) (id : TaskId) (delay : Duration) : Graph τ :=
  if id ∈ g.tasks then
    { g with
      tasks := g.tasks.modify id (fun t => { t with deadline := some (g.now + delay) })
      timerChanges := g.timerChanges ++ [id] }
  else g

def countActive (now : Bool) (g : Graph τ) (dep : TaskId) : Graph τ :=
  (g.modifyTask dep (fun t => { t with
    activeDependents := if now then t.activeDependents + 1 else t.activeDependents - 1 })).enqueue dep

def enterState (g : Graph τ) (id : TaskId) (old : TaskHandle τ) (state : TaskState) : Graph τ :=
  { g with
    tasks := g.tasks.insert id (old.setState state)
    -- The epoch bump ended whatever timer was running.
    timerChanges := if old.deadline.isSome then g.timerChanges ++ [id] else g.timerChanges
    stateChanged := true
    transitions := g.transitions ++ [⟨id, old.state, state, old.startFailed⟩] }

@[simp] theorem tasks_enterState (g : Graph τ) (id : TaskId) (old : TaskHandle τ) (state : TaskState) :
    (g.enterState id old state).tasks = g.tasks.insert id (old.setState state) := rfl

@[simp] theorem timerChanges_enterState (g : Graph τ) (id : TaskId) (old : TaskHandle τ) (state : TaskState) :
    (g.enterState id old state).timerChanges =
      if old.deadline.isSome then g.timerChanges ++ [id] else g.timerChanges := rfl

@[simp] theorem ns_enterState (g : Graph τ) (id : TaskId) (old : TaskHandle τ) (state : TaskState) :
    (g.enterState id old state).ns = g.ns := rfl

/-- And with what reads it queued and counted. -/
def putState (g : Graph τ) (id : TaskId) (old : TaskHandle τ) (state : TaskState) : Graph τ :=
  let g := (g.enterState id old state).enqueue id
  let g := if old.isSatisfied = (old.setState state).isSatisfied then g else g.enqueueParents id
  if old.state.isActive = state.isActive then g
  else g.forEach id (g.edges id) (countActive state.isActive)

def setState [Task τ] (g : Graph τ) (id : TaskId) (state : TaskState) : Graph τ :=
  match g.tasks.lookup id with
  | none => g
  | some old =>
    if old.state = state then g
    else ((g.putState id old state).note .touched).notifySubscribers id old.space old.path
      (.stateChanged state)

def setVetoed (g : Graph τ) (id : TaskId) (value : Bool) : Graph τ :=
  match g.tasks.lookup id with
  | none => g
  | some t =>
    if t.vetoed = value then g
    else ((g.modifyTask id (fun t => { t with vetoed := value })).enqueue id).note .touched

def unindexTags (g : Graph τ) (id : TaskId) (tags : List String) : Graph τ :=
  { g with tags := fun tag => if tag ∈ tags then (g.tags tag).erase id else g.tags tag }

def indexTags (g : Graph τ) (id : TaskId) (tags : List String) : Graph τ :=
  { g with tags := fun tag => if tag ∈ tags then insert id (g.tags tag) else g.tags tag }

/-- A lost requirer: `dep` is counted down for the removed task. -/
def dropRequirer (id : TaskId) (wasWanted wasActive : Bool) (g : Graph τ) (dep : TaskId) : Graph τ :=
  ({ g with redges := Function.update g.redges dep ((g.redges dep).erase id) }.modifyTask dep
    (fun t => { t with
      wantedParents := if wasWanted then t.wantedParents - 1 else t.wantedParents
      activeDependents := if wasActive then t.activeDependents - 1 else t.activeDependents })).enqueue
    dep

def dropDep (id : TaskId) (g : Graph τ) (src : TaskId) : Graph τ :=
  { g with edges := Function.update g.edges src ((g.edges src).erase id) }.enqueue src

/-- The task is out of the tables; queued ids must be live when they are driven. -/
def dropHandle (g : Graph τ) (id : TaskId) (handle : TaskHandle τ) : Graph τ :=
  let g := { g with
    tasks := g.tasks.erase id
    stateChanged := true
    timerChanges := if handle.deadline.isSome then g.timerChanges ++ [id] else g.timerChanges
    dirty := g.dirty.filter (· ≠ id)
    inQueue := g.inQueue.erase id }
  let g := match handle.path with
    | some path => { g with ns := g.ns.remove ⟨handle.space, path⟩ }
    | none => g
  g.unindexTags id handle.tags

def dropEdges (g : Graph τ) (id : TaskId) (wasWanted wasActive : Bool) : Graph τ :=
  let (deps, dependents) := (g.edges id, g.redges id)
  let g := { g with edges := Function.update g.edges id ∅ }
  let g := g.forEach id deps (dropRequirer id wasWanted wasActive)
  let g := { g with redges := Function.update g.redges id ∅ }
  g.forEach id dependents (dropDep id)

/-- A running task is sent a kill as it is dropped; nothing it answers reaches the kernel. -/
def removeTask [Task τ] (g : Graph τ) (id : TaskId) : Graph τ :=
  match g.tasks.lookup id with
  | none => g
  | some handle =>
    let g := (g.dropHandle id handle).dropEdges id handle.wanted handle.state.isActive
    let g := { g with ns := g.ns.removeSubscriber g.walkSpaces id }
    (g.note .touched).notifySubscribers id handle.space handle.path .removed

end Graph

end Dekit
