import Dekit.Lib.FiniteMap
import Dekit.Lib.IndexSet
import Dekit.Task

/-! `console/task_tree.rs`: the tasks and folders the console lists, and the groups above them. -/

namespace Dekit.Console

/-- A task as the console lists it. The root path is not parseable, so a task can never sit at the root. -/
structure TaskView where
  id : TaskId
  path : TaskPath
  named : path ≠ TaskPath.root
  kind : TaskKind
  status : TaskState

namespace TaskView

def isUp (task : TaskView) : Bool := task.status.isUp task.kind

def failed (task : TaskView) : Bool :=
  match task.status with
  | .done info | .exited info | .backoff info => info.readyTimeout || info.code.any (· ≠ 0)
  | .idle | .starting | .running | .ready | .stopping => false

end TaskView

/-- A subtraction that must not go below zero. -/
def checkedSub (a b : ℕ) : Option ℕ := if b ≤ a then some (a - b) else none

/-- The tasks under a path: a group, or a folder. -/
structure Group where
  path : TaskPath
  children : IndexSet TaskPath
  tasks : ℕ
  up : ℕ
  failed : ℕ
  collapsed : Bool
  folder : Option TaskId

namespace Group

def new (path : TaskPath) (collapsed : Bool) : Group := ⟨path, .empty, 0, 0, 0, collapsed, none⟩

def add (g : Group) (task : TaskView) : Group :=
  { g with tasks := g.tasks + 1, up := g.up + task.isUp.toNat, failed := g.failed + task.failed.toNat }

def remove (g : Group) (task : TaskView) : Option Group := do
  let tasks ← checkedSub g.tasks 1
  let up ← checkedSub g.up task.isUp.toNat
  let failed ← checkedSub g.failed task.failed.toNat
  some { g with tasks, up, failed }

/-- Lists a child right after the one beside it, or first when there is none. -/
def place (g : Group) (child : TaskPath) (beside : Option TaskPath) : Group :=
  if beside = some child then g
  else
    let beside := beside.bind g.children.indexOf
    let (index, children) := match g.children.indexOf child with
      | some index => (index, g.children)
      | none => (g.children.items.length, g.children.insert child)
    let place := match beside with
      | some beside => if beside < index then beside + 1 else beside
      | none => 0
    { g with children := children.moveIndex index place }

/-- The counts once a task that is counted went up or down, or failed. -/
def recount (g : Group) (was now : TaskView) : Option Group := do
  let up ← checkedSub (g.up + now.isUp.toNat) was.isUp.toNat
  let failed ← checkedSub (g.failed + now.failed.toNat) was.failed.toNat
  some { g with up, failed }

end Group

/-- A path holds a task, or is a group or folder, never both. -/
inductive Node
  | task (task : TaskView)
  | group (group : Group)

def above (path : TaskPath) : List TaskPath := TaskPath.root :: path.inits.tail.dropLast

/-- The path right under a group that a path is at or under. -/
def under (group path : TaskPath) : Option TaskPath :=
  if group = TaskPath.root then some (path.take 1)
  else if group.isPrefixOf path ∧ group.length < path.length then some (path.take (group.length + 1))
  else none

abbrev Nodes := Finmap fun _ : TaskPath => Node

/-- Tasks and folders, and the groups above them, by path. -/
structure TaskTree where
  nodes : Nodes
  /-- Where each task and folder is. -/
  paths : Finmap fun _ : TaskId => TaskPath
  /-- Whether each group not listed yet starts collapsed. Each is taken once. -/
  seeds : Finmap fun _ : TaskPath => Bool

namespace TaskTree

def withGroups (groups : Finmap fun _ : TaskPath => Bool) : TaskTree := ⟨∅, ∅, groups⟩

def new : TaskTree := withGroups ∅

/-- Lists `path` in a group above it, that is made when it is not there. -/
def listIn (path : TaskPath) (after : Option TaskPath) (task : Option TaskView) (t : TaskTree) (group : TaskPath) :
    TaskTree :=
  let (node, seeds) := match t.nodes.lookup group with
    | some node => (node, t.seeds)
    | none => (.group (.new group ((t.seeds.lookup group).getD false)), t.seeds.erase group)
  match node, under group path with
  | .group g, some child =>
    let g := match task with
      | some task => g.add task
      | none => g
    { t with nodes := t.nodes.insert group (.group (g.place child (after.bind (under g.path)))), seeds }
  | node, _ => { t with nodes := t.nodes.insert group node, seeds }

/-- Lists `path` in each group above it, right after the path `after` is at or under. Each group counts `task`. -/
def list (t : TaskTree) (path : TaskPath) (after : Option TaskPath) (task : Option TaskView) : TaskTree :=
  (above path).foldl (listIn path after task) t

/-- `after` is the task or folder listed just before the new one, if any. -/
def add (t : TaskTree) (task : TaskView) (after : Option TaskId) : TaskTree :=
  if task.path ∈ t.nodes then t
  else
    let after := after.bind (t.paths.lookup ·)
    let t := t.list task.path after (some task)
    { t with paths := t.paths.insert task.id task.path, nodes := t.nodes.insert task.path (.task task) }

/-- The folder's id on the group at a path, that is made when it is not there. -/
def setFolder (t : TaskTree) (id : TaskId) (path : TaskPath) (collapsed : Bool) : TaskTree :=
  match t.nodes.lookup path with
  | some (.group g) => { t with nodes := t.nodes.insert path (.group { g with folder := some id }) }
  | some (.task _) => t
  | none =>
    let g := Group.new path ((t.seeds.lookup path).getD collapsed)
    { t with seeds := t.seeds.erase path, nodes := t.nodes.insert path (.group { g with folder := some id }) }

/-- A folder, `collapsed` unless its group is listed already or was saved otherwise. -/
def addFolder (t : TaskTree) (id : TaskId) (path : TaskPath) (after : Option TaskId) (collapsed : Bool) : TaskTree :=
  match t.nodes.lookup path with
  | some (.task _) => t
  | _ =>
    let after := after.bind (t.paths.lookup ·)
    let t := (t.list path after none).setFolder id path collapsed
    { t with paths := t.paths.insert id path }

def isFolder (t : TaskTree) (id : TaskId) : Bool :=
  match (t.paths.lookup id).bind (t.nodes.lookup ·) with
  | some (.group g) => g.folder == some id
  | _ => false

/-- Takes `child` off the nearest group's list once nothing is at it, and so on up while groups are left empty. -/
def pruneUp (nodes : Nodes) (child : TaskPath) : List TaskPath → Nodes
  | [] => nodes
  | parent :: rest =>
    if child ∈ nodes then nodes
    else match nodes.lookup parent with
      | some (.group g) =>
        let g := { g with children := g.children.shiftRemove child }
        if parent ≠ TaskPath.root ∧ g.children.isEmpty ∧ g.folder = none then pruneUp (nodes.erase parent) parent rest
        else pruneUp (nodes.insert parent (.group g)) parent rest
      | _ => nodes

/-- Takes `path` off its group's list once nothing is at it, and each group above that is left with nothing in it
and is no folder. -/
def prune (nodes : Nodes) (path : TaskPath) : Nodes := pruneUp nodes path (above path).reverse

/-- Takes a folder away; its group stays while something is under it. -/
def takeFolder (t : TaskTree) (id : TaskId) : TaskTree :=
  match t.paths.lookup id with
  | none => t
  | some path =>
    let nodes := match t.nodes.lookup path with
      | some (.group g) =>
        if g.children.isEmpty then t.nodes.erase path else t.nodes.insert path (.group { g with folder := none })
      | _ => t.nodes
    { t with paths := t.paths.erase id, nodes := prune nodes path }

/-- A change to the group at a path. -/
def changeGroup (f : Group → Option Group) (nodes : Nodes) (path : TaskPath) : Option Nodes :=
  match nodes.lookup path with
  | some (.group g) => (f g).map fun g => nodes.insert path (.group g)
  | _ => some nodes

/-- Takes a task out; nothing when there is none with the id. -/
def take (t : TaskTree) (id : TaskId) : Option (TaskTree × Option TaskView) :=
  match t.paths.lookup id with
  | none => some (t, none)
  | some path =>
    let t := { t with paths := t.paths.erase id }
    match t.nodes.lookup path with
    | some (.task task) => do
      let nodes ← (above path).foldlM (changeGroup (·.remove task)) (t.nodes.erase path)
      some ({ t with nodes := prune nodes path }, some task)
    | _ => some ({ t with nodes := t.nodes.erase path }, none)

def remove (t : TaskTree) (id : TaskId) : Option TaskTree :=
  if t.isFolder id then some (t.takeFolder id) else (t.take id).map Prod.fst

def isCollapsed (nodes : Nodes) (path : TaskPath) : Bool :=
  match nodes.lookup path with
  | some (.group g) => g.collapsed
  | _ => false

def setCollapsed (nodes : Nodes) (e : TaskPath × Bool) : Nodes :=
  match nodes.lookup e.1 with
  | some (.group g) => nodes.insert e.1 (.group { g with collapsed := e.2 })
  | _ => nodes

def moveFolder (t : TaskTree) (id : TaskId) (path : TaskPath) (after : Option TaskId) : TaskTree :=
  match t.paths.lookup id with
  | none => t
  | some old =>
    let own := isCollapsed t.nodes old
    -- The groups above it that it leaves empty are shown as they were when they come again.
    let aboveIt := (above old).filter (isCollapsed t.nodes)
    let t := (t.takeFolder id).addFolder id path after own
    { t with nodes := (aboveIt.map (·, true) ++ [(path, own)]).foldl setCollapsed t.nodes }

/-- Lists a task at another path, or elsewhere at its own; a group the move empties and fills again stays
collapsed. -/
def moveTask (t : TaskTree) (id : TaskId) (path : TaskPath) (named : path ≠ TaskPath.root) (after : Option TaskId) :
    Option TaskTree :=
  if t.isFolder id then some (t.moveFolder id path after)
  else
    let collapsed := ((t.paths.lookup id).toList.flatMap above).filter (isCollapsed t.nodes)
    (t.take id).map fun (t, task) => match task with
      | none => t
      | some task =>
        let t := t.add { task with path, named } after
        { t with nodes := (collapsed.map (·, true)).foldl setCollapsed t.nodes }

def setStatus (t : TaskTree) (id : TaskId) (status : TaskState) : Option TaskTree :=
  match t.paths.lookup id with
  | none => some t
  | some path =>
    match t.nodes.lookup path with
    | some (.task was) =>
      let now := { was with status }
      let nodes := t.nodes.insert path (.task now)
      if was.isUp = now.isUp ∧ was.failed = now.failed then some { t with nodes }
      else ((above now.path).foldlM (changeGroup (·.recount was now)) nodes).map fun nodes => { t with nodes }
    | _ => some t

end TaskTree

end Dekit.Console
