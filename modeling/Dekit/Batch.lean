import Dekit.Registry

namespace Dekit

namespace Registration

variable {τ : Type}

def key : Registration τ → Option TaskKey
  | task r => r.def'.path.map (TaskKey.mk r.def'.space)
  | folder d => some ⟨d.space, d.path⟩

def place : Registration τ → Place
  | task r => r.def'.place
  | folder d => d.place

def space : Registration τ → TaskSpaceId
  | task r => r.def'.space
  | folder d => d.space

def id : Registration τ → TaskId
  | task r => r.taskId
  | folder d => d.id

def isFolder : Registration τ → Bool
  | task _ => false
  | folder _ => true

/-- The ids a task's definition names among its deps. -/
def depIds : Registration τ → List TaskId
  | task r => r.def'.deps.filterMap fun
    | .id dep => some dep
    | .glob _ _ | .tag _ _ => none
  | folder _ => []

end Registration

namespace Batch

variable {τ : Type} (tasks : List (Registration τ))

/-- Where the task with an id is in the batch; of two with one id, the later. -/
def slot (id : TaskId) : Option ℕ :=
  (List.range tasks.length).reverse.find? fun i => match tasks[i]? with
    | some (.task r) => r.taskId == id
    | _ => false

/-- The places in the batch of what the task at `i` depends on. -/
def deps (i : ℕ) : List ℕ :=
  match tasks[i]? with
  | some r => r.depIds.filterMap (slot tasks)
  | none => []

def dependents (j : ℕ) : List ℕ :=
  (List.range tasks.length).flatMap (fun i => List.replicate ((deps tasks i).count j) i)

def release (acc : (ℕ → ℕ) × List ℕ) (dependent : ℕ) : (ℕ → ℕ) × List ℕ :=
  let missing := Function.update acc.1 dependent (acc.1 dependent - 1)
  (missing, if missing dependent = 0 then acc.2 ++ [dependent] else acc.2)

def orderFrom : ℕ → (ℕ → ℕ) → List ℕ → List ℕ × (ℕ → ℕ)
  | 0, missing, _ => ([], missing)
  | _ + 1, missing, [] => ([], missing)
  | fuel + 1, missing, i :: ready =>
    let (missing, ready) := (dependents tasks i).foldl release (missing, ready)
    let (order, missing) := orderFrom fuel missing ready
    (i :: order, missing)

/-- The folders first, then each task after the ones it depends on, then the tasks of a cycle. -/
def order : List ℕ :=
  let all := List.range tasks.length
  let missing i := (deps tasks i).length
  let (folders, rest) := all.partition (fun i => tasks[i]?.any Registration.isFolder)
  let (order, missing) :=
    orderFrom tasks tasks.length missing (folders ++ rest.filter (missing · = 0))
  order ++ all.filter (0 < missing ·)

end Batch

namespace Graph

variable {τ : Type}

def holdPlace (g : Graph τ) (r : Registration τ) : Graph τ :=
  match r.key with
  | some key => { g with ns := g.ns.place key r.place }
  | none => g

/-- A place held for what was refused is dropped again. -/
def dropPlace (g : Graph τ) (r : Registration τ × Except RegisterError Unit) : Graph τ :=
  match r.1.key, r.2 with
  | some key, .error _ => { g with ns := g.ns.prune key }
  | _, _ => g

variable [Task τ]

def registerOne (g : Graph τ) (saved : Option Snap.Task) : Registration τ →
    Graph τ × Except RegisterError Unit
  | .task r => g.registerTaskWithId r.taskId r.def' r.factory saved
  | .folder d => g.registerFolder d

def registerAt (tasks : List (Option Snap.Task × Registration τ))
    (acc : Graph τ × List (Except RegisterError Unit)) (i : ℕ) :
    Graph τ × List (Except RegisterError Unit) :=
  match tasks[i]? with
  | some (saved, r) =>
    let (g, result) := acc.1.registerOne saved r
    (g, acc.2.set i result)
  | none => acc

def registerTasks (g : Graph τ) (tasks : List (Option Snap.Task × Registration τ)) :
    Graph τ × List (Except RegisterError Unit) :=
  let registrations := tasks.map Prod.snd
  let g := registrations.foldl holdPlace g
  let (g, results) := (Batch.order registrations).foldl (registerAt tasks)
    (g, tasks.map (fun _ => .ok ()))
  ((registrations.zip results).foldl dropPlace g, results)

end Graph

end Dekit
