import Dekit.Intent

namespace Dekit

/-- The state a restored task comes back in, as it is now configured. -/
def TaskHandle.restoredState {τ : Type} (t : TaskHandle τ) (state : TaskState) : TaskState :=
  match state with
  | .running => t.startedState
  | .ready => if t.kind = .job then .running else .ready
  | .backoff info | .done info | .exited info =>
    if t.exitState info = state ∧ (!info.readyTimeout ∨ t.ready.timeout.isSome) then state else .idle
  | .idle | .starting | .stopping => state

/-- A task as its definition makes it, before anything saved is put back. -/
def TaskDef.handle {τ : Type} (def' : TaskDef τ) (task : τ) : TaskHandle τ where
  task := task
  state := .idle
  epoch := 0
  vetoed := false
  killed := false
  attempts := 0
  lastStart := none
  deadline := none
  wanted := false
  supported := false
  wantedParents := 0
  activeDependents := 0
  startFailed := false
  stopTimedOut := false
  savedPin := def'.savedPin
  kind := def'.kind
  ready := def'.ready
  stopTimeout := def'.stopTimeout
  next := def'.next.map (fun next => { next with spec := next.spec.map withoutDeps })
  restart := def'.restart
  space := def'.space
  path := def'.path
  label := def'.label
  vt := def'.vt
  tags := []
  spec := def'.spec.map withoutDeps
  origin := def'.origin
  makeCopy := def'.makeCopy

def TaskHandle.restored {τ : Type} (t : TaskHandle τ) (now : Instant) (saved : Snap.Task) :
    TaskHandle τ :=
  let state := t.restoredState saved.state
  { t with
    state := state
    vetoed := saved.vetoed
    stopTimedOut := saved.stopTimedOut && state == .idle
    savedPin := saved.savedPin
    killed := saved.killed
    startFailed := saved.startFailed && state == .stopping && t.ready.timeout.isSome
    attempts := saved.attempts
    lastStart := saved.lastStartSecsAgo.map (fun secs =>
      if Duration.fromSecs secs ≤ now then now - Duration.fromSecs secs else now) }

/-- A task as it goes in: fresh, or with what was saved of it. -/
def TaskDef.install {τ : Type} (def' : TaskDef τ) (task : τ) (now : Instant) :
    Option Snap.Task → TaskHandle τ
  | some saved => (def'.handle task).restored now saved
  | none => def'.handle task

/-- A ready timeout counts from the start; the other timers go on with what was left of them. -/
def TaskHandle.restoredTimer {τ : Type} (t : TaskHandle τ) (now : Instant) (saved : Option Snap.Task) :
    Option Duration :=
  match t.state with
  | .running => t.ready.timeout.map (fun timeout =>
      timeout - (t.lastStart.map (fun start => now - start)).getD 0)
  | .stopping | .backoff _ =>
    some (Duration.fromMillis ((saved.bind (·.timerMs)).getD 0))
  | .idle | .starting | .ready | .done _ | .exited _ => none

/-- The label goes into the definition of this run and of the next. -/
def TaskHandle.relabel {τ : Type} (t : TaskHandle τ) (label : Option String) : TaskHandle τ :=
  { t with
    label
    spec := t.spec.map (fun spec => spec.setLabel label)
    next := t.next.map (fun next => { next with spec := next.spec.map (fun spec => spec.setLabel label) }) }

namespace Graph

variable {τ : Type}

/-- Gives a task its tags, with `dynamic` when it is the runner's own. -/
def setTags (g : Graph τ) (id : TaskId) (tags : List String) : Graph τ :=
  match g.tasks.lookup id with
  | none => g
  | some t =>
    let tags := tags.filter (· ≠ dynamicTag)
    let tags := if t.defSpec.isSome ∧ t.origin.isNone then tags ++ [dynamicTag] else tags
    let g := { g.modifyTask id (fun t => { t with tags }) with
      stateChanged := g.stateChanged || decide (t.tags ≠ tags) }
    (g.unindexTags id t.tags).indexTags id tags

def conflict (g : Graph τ) (key : TaskKey) : PathConflict → RegisterError
  | .taken id => if id ∈ g.folders then .folderAt key else .pathTaken key
  | .nested other => .pathNested key ⟨key.space, other⟩

/-- Claims the path of a definition, if it has one. -/
def claimPath (g : Graph τ) (id : TaskId) (def' : TaskDef τ) : Except RegisterError (Graph τ) :=
  match def'.path with
  | none => .ok g
  | some path => match g.ns.insert ⟨def'.space, path⟩ id def'.place with
    | .ok ns => .ok { g with ns }
    | .error conflict => .error (g.conflict ⟨def'.space, path⟩ conflict)

/-- The node goes in as it is logged, before its edges are. -/
def insertTask (g : Graph τ) (id : TaskId) (t : TaskHandle τ) : Graph τ :=
  { g with tasks := g.tasks.insert id t, stateChanged := true }

/-- Sets a restored state's timer, if it has one. -/
def scheduleAny (g : Graph τ) (id : TaskId) : Option Duration → Graph τ
  | some delay => g.scheduleStateTimeout id delay
  | none => g

variable [Task τ]

def installTask (g : Graph τ) (id : TaskId) (def' : TaskDef τ) (deps : List TaskId)
    (t : TaskHandle τ) (timer : Option Duration) : Graph τ :=
  let after := def'.path.bind (fun path => g.ns.before ⟨def'.space, path⟩)
  let g := ((g.insertTask id t).scheduleAny id timer).setTags id def'.tags
  let g := deps.foldl (fun g dep => g.addEdge id dep) g
  let g := if def'.pinned then g.addEdge initTaskId id else g
  let g := g.enqueue id
  g.notifySubscribers id def'.space def'.path
    (.added def'.path def'.label after t.kind t.state def'.vt)

def registerTaskWithId (g : Graph τ) (id : TaskId) (def' : TaskDef τ) (factory : TaskId → τ)
    (saved : Option Snap.Task) : Graph τ × Except RegisterError Unit :=
  if id ∈ g.tasks ∨ id ∈ g.folders then (g, .error .idTaken)
  else match g.resolveDeps def'.deps with
    | .error err => (g, .error err)
    | .ok deps => match g.claimPath id def' with
      | .error err => (g, .error err)
      | .ok g =>
        let t := def'.install (factory id) g.now saved
        (g.installTask id def' deps t (t.restoredTimer g.now saved), .ok ())

def folderAdded (g : Graph τ) (folder : Folder) : TaskNotify :=
  .folderAdded folder.path (g.ns.before ⟨folder.space, folder.path⟩) folder.settings.collapsed

def registerFolder (g : Graph τ) (d : FolderDef) : Graph τ × Except RegisterError Unit :=
  if d.id ∈ g.tasks ∨ d.id ∈ g.folders then (g, .error .idTaken)
  else match g.ns.insertFolder ⟨d.space, d.path⟩ d.id d.place with
    | .error conflict => (g, .error (g.conflict ⟨d.space, d.path⟩ conflict))
    | .ok ns =>
      let g := { g with ns }
      let folder : Folder := ⟨d.space, d.path, d.settings⟩
      let notify := g.folderAdded folder
      let g := { g with folders := g.folders.insert d.id folder }
      (g.notifySubscribers d.id d.space (some d.path) notify, .ok ())

/-- `added` for the task or folder at a path, as it is now. -/
def addedAt (g : Graph τ) (id : TaskId) (space : TaskSpaceId) (path : TaskPath) :
    Option TaskNotify :=
  match g.folders.lookup id with
  | some folder => some (g.folderAdded folder)
  | none => (g.tasks.lookup id).map fun t =>
    .added (some path) t.label (g.ns.before ⟨space, path⟩) t.kind t.state t.vt

def removeFolder (g : Graph τ) (id : TaskId) : Graph τ × Bool :=
  match g.folders.lookup id with
  | none => (g, false)
  | some folder =>
    let g := { g with
      folders := g.folders.erase id, ns := g.ns.removeFolder ⟨folder.space, folder.path⟩ }
    (g.notifySubscribers id folder.space (some folder.path) .removed, true)

def setFolder (g : Graph τ) (id : TaskId) (settings : FolderSettings) : Graph τ × Bool :=
  match g.folders.lookup id with
  | none => (g, false)
  | some folder => ({ g with folders := g.folders.insert id { folder with settings } }, true)

def removal (g : Graph τ) (sender : TaskId) (selector : TaskSelector) :
    List TaskId × List TaskId :=
  let roots := match selector with
    | .id id => match g.folders.lookup id with
      | some folder => [TaskKey.mk folder.space folder.path]
      | none => []
    | .glob space pattern => g.ns.globNodes g.walkSpaces space pattern
    | .tag _ _ => []
  let under := (roots.flatMap g.ns.nodes).map Prod.snd
  let tasks := g.matchingIds selector ++ under.filter (· ∉ g.folders)
  let folders := under.filter (· ∈ g.folders)
  ((tasks.foldl addNew []).filter (g.canMutate sender),
    ((folders.foldl addNew []).filter (· ∉ tasks)).filter (g.canMutateFolder sender))

/-- Subscribes and replays `added` for what is already in scope, in list order. -/
def subscribe (g : Graph τ) (subscriber : TaskId) (key : TaskKey) (mode : SubMode) : Graph τ :=
  let replay := (g.ns.inScope key mode).filter
    (fun e => !g.ns.isSubscribed subscriber key.space e.1)
  let g := { g with ns := g.ns.subscribe subscriber key mode }
  replay.foldl (fun g e => match g.addedAt e.2 key.space e.1 with
    | some notify => g.deliver e.2 notify {subscriber}
    | none => g) g

def unsubscribe (g : Graph τ) (subscriber : TaskId) (key : TaskKey) (mode : SubMode) : Graph τ :=
  { g with ns := g.ns.unsubscribe subscriber key mode }

def setTaskLabel (g : Graph τ) (id : TaskId) (label : Option String) : Graph τ :=
  match g.tasks.lookup id with
  | none => g
  | some t =>
    if t.label = label then g
    else { g.modifyTask id (·.relabel label) with stateChanged := true }.notifyChanged id

def setOrigin (g : Graph τ) (id : TaskId) (origin : Option Source) : Graph τ :=
  match g.tasks.lookup id with
  | none => g
  | some t =>
    if t.origin = origin then g
    else ((g.modifyTask id (fun t => { t with origin })).setTags id t.tags).notifyChanged id

/-- The definition as the update has it; a run, under way or ended, goes on as it started. -/
def redefine (g : Graph τ) (id : TaskId) (update : TaskUpdate) : Graph τ :=
  let next := { update.next with spec := update.next.spec.map withoutDeps }
  { g.modifyTask id (fun t =>
      let t := if t.state = .idle then { t.adopt next with next := none }
        else { t with next := some next }
      { t with restart := update.restart, label := update.label })
    with stateChanged := true }

def setDeps (g : Graph τ) (id : TaskId) (deps : List TaskId) : Graph τ :=
  let g := g.forEach id ((g.edges id).filter (· ∉ deps)) (fun g dep => g.removeEdge id dep)
  deps.foldl (fun g dep => g.addEdge id dep) g

def updateTask (g : Graph τ) (id : TaskId) (deps : List TaskId) (update : TaskUpdate) : Graph τ :=
  if id ∈ g.tasks then
    let g := (g.redefine id update).setTags id update.tags
    let g := ((g.setDeps id deps).notifyChanged id).enqueue id
    if update.restartRunning ∧ (g.tasks.lookup id).any (·.state.isActive) then g.cmdRestart id else g
  else g

/-- Tells who saw a moved path before and who sees it now. -/
def tellMoved (space : TaskSpaceId) (g : Graph τ) (m : Moved) : Graph τ :=
  let before := g.ns.collect ⟨space, m.src⟩
  let now := g.ns.collect ⟨space, m.dst⟩
  let after := g.ns.before ⟨space, m.dst⟩
  match g.addedAt m.id space m.dst with
  | none => g
  | some added =>
    let g := g.deliver m.id .removed (before \ now)
    let g := g.deliver m.id added (now \ before)
    g.deliver m.id (.moved (some m.dst) after) (now ∩ before)

def putMoved (g : Graph τ) (m : Moved) : Graph τ :=
  if m.id ∈ g.tasks then g.modifyTask m.id (fun t => { t with path := some m.dst })
  else { g with folders := g.folders.modify m.id (fun folder => { folder with path := m.dst }) }

def moveTasks (g : Graph τ) (req : MoveTask) : Graph τ × Except MoveError ℕ :=
  match g.ns.moveNode req.space req.src req.dst req.place with
  | .error err => (g, .error err)
  | .ok (ns, moved) =>
    let g := { g with ns, stateChanged := g.stateChanged || !moved.isEmpty }
    (moved.foldl (tellMoved req.space) (moved.foldl putMoved g), .ok moved.length)

def allocId (g : Graph τ) : TaskId × Graph τ :=
  (g.nextTaskId, { g with nextTaskId := g.nextTaskId + 1 })

/-- Where a copy goes: at the path asked for, or beside the task under its own id. -/
def copyKey (t : TaskHandle τ) (req : DuplicateRequest) (newId : TaskId) : Option TaskKey :=
  match req.path, t.path with
  | some path, _ => some ⟨t.space, path⟩
  | none, some path => some ⟨t.space, path.dropLast ++ [TaskPath.name path ++ "_" ++ toString newId]⟩
  | none, none => some ⟨TaskSpaceId.defaultSpace, [toString newId]⟩

def duplicate (g : Graph τ) (id : TaskId) (req : DuplicateRequest) :
    Graph τ × Except RegisterError Unit :=
  match g.tasks.lookup id with
  | none => (g, .error .noDefinition)
  | some t => match t.makeCopy, t.defSpec with
    | some makeCopy, some spec =>
      let (newId, g) := g.allocId
      match makeCopy newId (copyKey t req newId) (spec.setLabel req.label) with
      | none => (g, .error .noDefinition)
      | some (def', factory) =>
        g.registerTaskWithId newId { def' with
            deps := (Hasher.ascending (g.edges id)).map TaskSelector.id
            place := (t.path.map Place.after).getD .last
            pinned := req.start } factory none
    | _, _ => (g, .error .noDefinition)

/-- The definition a task's next run starts from, with its deps by key. -/
def defSpec (g : Graph τ) (id : TaskId) : Option TaskSpec := do
  let t ← g.tasks.lookup id
  let spec ← t.defSpec
  let deps := (g.walk id (g.edges id)).filterMap fun dep => do
    let dep ← g.tasks.lookup dep
    let path ← dep.path
    return (TaskKey.mk dep.space path).display
  return spec.setDeps deps

end Graph

end Dekit
