import Mathlib.Order.Lattice.Nat
import Dekit.Lifecycle
import Dekit.Selection

namespace Dekit

/-- Pathless last; then by space and the place in it, or by id. -/
structure ListKey where
  place : Option (TaskSpaceId × List ℕ)
  id : TaskId

def ListKey.le (a b : ListKey) : Bool :=
  match a.place, b.place with
  | some (s, p), some (s', p') =>
    if s = s' then if p = p' then decide (a.id ≤ b.id) else decide (p < p') else decide (s < s')
  | some _, none => true
  | none, some _ => false
  | none, none => decide (a.id ≤ b.id)

def TaskEffect.isStopped : TaskEffect → Bool
  | .stopped _ => true
  | .started | .ready => false

namespace Graph

variable {τ : Type}

def listKey (g : Graph τ) (id : TaskId) : ListKey where
  place := do
    let t ← g.tasks.lookup id
    let path ← t.path
    let position ← g.ns.position t.space path
    return (t.space, position)
  id := id

def snapTask (g : Graph τ) (id : TaskId) (t : TaskHandle τ) (kind : Snap.TaskKind) : Snap.Task where
  id := id
  space := t.space
  path := t.path
  label := t.label
  tags := t.tags
  pinned := initTaskId ∈ g.redges id
  deps := Hasher.ascending (g.edges id)
  restart := t.restart
  job := t.kind = .job
  readyTimeoutMs := t.ready.timeout.map Duration.asMillis
  stopTimeoutMs := if t.stopTimeout = stopTimeout then none else some t.stopTimeout.asMillis
  state := t.state
  vetoed := t.vetoed
  killed := t.killed
  startFailed := t.startFailed
  stopTimedOut := t.stopTimedOut
  savedPin := t.savedPin
  attempts := t.attempts
  lastStartSecsAgo := t.lastStart.map (fun start => Duration.asSecs (g.now - start))
  timerMs := t.deadline.map (fun deadline => Duration.asMillis (deadline - g.now))
  spec := t.defSpec
  -- The run under way when it started from an older definition.
  runSpec := if t.next.isSome then t.spec else none
  origin := t.origin
  kind := kind

def snapFolder (g : Graph τ) (id : TaskId) (folder : Folder) : List ℕ × Snap.Folder :=
  ((g.ns.position folder.space folder.path).getD [],
    { id
      space := folder.space
      path := folder.path
      after := g.ns.before ⟨folder.space, folder.path⟩
      collapsed := folder.settings.collapsed
      origin := folder.settings.origin })

def folderLe (a b : List ℕ × Snap.Folder) : Bool :=
  if a.2.space = b.2.space then decide (a.1 ≤ b.1) else decide (a.2.space < b.2.space)

/-- Everything in the graph, in list order; the kinds are the tasks' own answers. -/
def snapshot (g : Graph τ) (kinds : Finmap (fun _ : TaskId => Snap.TaskKind)) : KernelSnapshot :=
  let tasks := (g.walk initTaskId g.tasks.keys).filterMap fun id => do
    let t ← g.tasks.lookup id
    let kind ← kinds.lookup id
    return g.snapTask id t kind
  let folders := (g.walk initTaskId g.folders.keys).filterMap fun id =>
    (g.folders.lookup id).map (g.snapFolder id)
  { nextTaskId := g.nextTaskId
    tasks := tasks.insertionSort (fun a b => (g.listKey a.id).le (g.listKey b.id) = true)
    folders := (folders.insertionSort (fun a b => folderLe a b = true)).map Prod.snd }

def onTaskFrozen (g : Graph τ) (id : TaskId) (number : ℕ) (snapshot : Snap.TaskKind) : Graph τ :=
  match g.frozen with
  | none => g
  | some frozen =>
    if frozen.number ≠ number ∨ id ∉ frozen.waiting then g
    else { g with frozen := some { frozen with
      waiting := frozen.waiting.erase id, snapshots := frozen.snapshots.insert id snapshot } }

/-- Answers a complete freeze. A quit's freeze hands its snapshot back for saving instead. -/
def finishFreezeIfComplete (g : Graph τ) : Graph τ × Option KernelSnapshot :=
  match g.frozen with
  | none => (g, none)
  | some frozen =>
    if frozen.waiting ≠ ∅ then (g, none)
    else match frozen.reply with
      | none => (g, none)
      | some reply =>
        let g := { g with frozen := some { frozen with reply := none, snapshots := ∅ } }
        let snapshot := g.snapshot frozen.snapshots
        match reply with
        | .rpc reply => (g.answer reply (.frozen (.ok snapshot)), none)
        | .quit => (g, some snapshot)

def chain (g : Graph τ) : ℕ → TaskId → Duration
  | 0, _ => 0
  | fuel + 1, id =>
    let own := match g.tasks.lookup id with
      | some t => if t.state.isActive then t.stopTimeout + killWait else 0
      | none => 0
    own + (g.edges id).sup (g.chain fuel)

/-- The longest the stops of a quit can take: the heaviest chain of deps. -/
def stopWithin (g : Graph τ) : Duration :=
  g.tasks.keys.sup (g.chain (g.tasks.keys.card + 1))

def freezingForQuit (g : Graph τ) : Bool := g.frozen.any (fun frozen => frozen.reply == some .quit)

variable [Task τ]

/-- Tasks answer through the queue: one that reports here has no handler any more. -/
def freezeTask (number : ℕ) (acc : Graph τ × Option TaskId) (id : TaskId) : Graph τ × Option TaskId :=
  match acc.1.tasks.lookup id with
  | none => acc
  | some t =>
    let (task, fx) := Task.handleCmd t.task (.freeze number)
    ((acc.1.setTask id task).queueEffects id fx,
      acc.2 <|> if fx.any TaskEffect.isStopped then some id else none)

def freezeTasks (g : Graph τ) (number : ℕ) : Graph τ × Option TaskId :=
  (g.walk initTaskId g.tasks.keys).foldl (freezeTask number)
    ({ g with freezes := number, tick := g.tick + 1 }, none)

def freeze (g : Graph τ) (reply : FreezeReply) : Graph τ :=
  let number := g.freezes + 1
  let (g, dead) := g.freezeTasks number
  let (g, reply) := match dead, reply with
    | some id, .rpc reply => (g.answer reply (.frozen (.error
        ("task " ++ g.name id ++ " can't be carried across: its handler has stopped"))), none)
    -- A dead handler never answers; the quit goes on without saving.
    | some _, .quit => (g, none)
    | none, reply => (g, some reply)
  { g with
    frozen := some { number, reply, waiting := g.tasks.keys, snapshots := ∅, deferred := [] } }

def beginFreeze (g : Graph τ) (reply : ReplyId) : Graph τ :=
  if g.frozen.isSome then
    g.answer reply (.frozen (.error "a freeze is already in progress"))
  else if g.quitting then
    g.answer reply (.frozen (.error "the runner is shutting down"))
  else g.freeze (.rpc reply)

/-- Freezes so the graph can be saved before the quit stops anything. -/
def beginQuitFreeze (g : Graph τ) : Graph τ × ℕ :=
  let g := g.freeze .quit
  (g, g.freezes)

def thaw (g : Graph τ) : Graph τ × List (KernelMessage τ) :=
  match g.frozen with
  | none => (g, [])
  | some frozen =>
    ({ g with frozen := none }.forEach initTaskId g.tasks.keys (fun g id => g.sendCmd id .thaw),
      frozen.deferred)

end Graph

end Dekit
