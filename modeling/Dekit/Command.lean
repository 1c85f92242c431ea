import Dekit.Batch
import Dekit.Freeze

namespace Dekit.Graph

variable {τ : Type} [Task τ]

def registerTaskCommand (g : Graph τ) (sender : TaskId) (r : TaskRegistration τ) :
    Graph τ × Except RegisterError Unit :=
  if g.canRegister sender r.def'.space then g.registerTaskWithId r.taskId r.def' r.factory none
  else (g, .error (.reservedSpace r.def'.space))

/-- One result for each registration, in order: refused for its space, or what came of it. -/
def zipResults : List (Option RegisterError) → List (Except RegisterError Unit) →
    List (Except RegisterError Unit)
  | [], _ => []
  | some err :: refused, registered => .error err :: zipResults refused registered
  | none :: refused, result :: registered => result :: zipResults refused registered
  | none :: _, [] => []

def registerTasksCommand (g : Graph τ) (sender : TaskId) (registrations : List (Registration τ)) :
    Graph τ × List (Except RegisterError Unit) :=
  let refused := registrations.map fun r =>
    if g.canRegister sender r.space then none else some (RegisterError.reservedSpace r.space)
  let allowed := registrations.filter (fun r => g.canRegister sender r.space)
  let (g, registered) := g.registerTasks (allowed.map (fun r => (none, r)))
  (g, zipResults refused registered)

def removeCommand (g : Graph τ) (sender : TaskId) (selector : TaskSelector) : Graph τ × ℕ :=
  let (tasks, folders) := g.removal sender selector
  let g := tasks.foldl removeTask g
  (folders.foldl (fun g id => (g.removeFolder id).1) g, tasks.length + folders.length)

def duplicateAll (req : DuplicateRequest) : Graph τ → List TaskId → Graph τ × Except RegisterError Unit
  | g, [] => (g, .ok ())
  | g, id :: ids => match g.duplicate id req with
    | (g, .ok ()) => duplicateAll req g ids
    | (g, .error err) => (g, .error err)

/-- What an update would give one match, checked before anything changes. -/
def resolveUpdate (g : Graph τ) (update : TaskUpdate) (id : TaskId) :
    Except RegisterError (TaskId × List TaskId) :=
  match g.defSpec id with
  | none => .error .noDefinition
  | some spec =>
    if update.was.any (fun was => !(spec.changedKeys was).isEmpty) then .error .changed
    else (g.resolveNewDeps id update.deps).map (fun deps => (id, deps))

def resolveUpdates (g : Graph τ) (sender : TaskId) (selector : TaskSelector) (update : TaskUpdate) :
    Except RegisterError (List (TaskId × List TaskId)) :=
  let ids := g.mutableMatchingIds sender selector
  if update.was.isSome ∧ ids.isEmpty then .error .changed
  else ids.mapM (g.resolveUpdate update)

def updateCommand (g : Graph τ) (sender : TaskId) (selector : TaskSelector) (update : TaskUpdate) :
    Graph τ × Except RegisterError ℕ :=
  match g.resolveUpdates sender selector update with
  | .error err => (g, .error err)
  | .ok resolved =>
    (resolved.foldl (fun g r => g.updateTask r.1 r.2 update) g, .ok resolved.length)

/-- Carries out a command that reaches the graph alone. -/
def perform (g : Graph τ) (sender : TaskId) : KernelCommand τ → Graph τ
  | .registerTask r ack =>
    let (g, result) := g.registerTaskCommand sender r
    g.answer ack (.registered result)
  | .registerTasks rs ack =>
    let (g, results) := g.registerTasksCommand sender rs
    g.answer ack (.registeredAll results)
  | .act verb selector ack =>
    let (g, ids) := g.act verb sender selector
    g.answerIf ack (.count ids.length)
  | .unpin selector ack =>
    let ids := g.mutableMatchingIds sender selector
    (ids.foldl (fun g id => g.setPin id false) g).answerIf ack (.count ids.length)
  | .remove selector ack =>
    let (g, count) := g.removeCommand sender selector
    g.answerIf ack (.count count)
  | .dropFolder id ack =>
    let (g, dropped) := if g.canMutateFolder sender id then g.removeFolder id else (g, false)
    g.answerIf ack (.count dropped.toNat)
  | .setFolder id settings ack =>
    let (g, set) := if g.canMutateFolder sender id then g.setFolder id settings else (g, false)
    g.answerIf ack (.count set.toNat)
  | .setLabel selector label ack =>
    let ids := g.mutableMatchingIds sender selector
    (ids.foldl (fun g id => g.setTaskLabel id label) g).answerIf ack (.count ids.length)
  | .duplicate selector req reply =>
    let ids := g.mutableMatchingIds sender selector
    let (g, result) := duplicateAll req g ids
    g.answer reply (.changed (result.map (fun _ => ids.length)))
  | .update selector update reply =>
    let (g, result) := g.updateCommand sender selector update
    g.answer reply (.changed result)
  | .setOrigin selector origin ack =>
    let ids := g.mutableMatchingIds sender selector
    (ids.foldl (fun g id => g.setOrigin id origin) g).answerIf ack (.count ids.length)
  | .move req reply =>
    let (g, result) := if g.canRegister sender req.space then g.moveTasks req
      else (g, .error (.notFound req.src))
    g.answer reply (.moved result)
  | .taskMsg id content => g.sendCmd id (.msg (.other content))
  | .subscribePath key mode => g.subscribe sender key mode
  | .unsubscribePath key mode => g.unsubscribe sender key mode
  | .wait ⟨.act verb selector, _, _⟩ => (g.act verb sender selector).1
  | .wait ⟨.isMatching _, _, _⟩ | .wait ⟨.ids _, _, _⟩ | .watchActive _ _ | .query => g
  | .taskStarted => g.onTaskStarted sender
  | .taskReady => g.onTaskReady sender
  | .taskStopped info => g.onTaskStopped sender info
  | .stateTimeout id epoch => g.onStateTimeout id epoch
  | .freeze reply => g.beginFreeze reply
  | .taskFrozen number snapshot => g.onTaskFrozen sender number snapshot
  -- These reach the whole kernel.
  | .quit | .quitWithoutSave | .quitWithin _ _ | .freezeTimeout _ | .thaw => g

end Dekit.Graph
