import Dekit.Lifecycle

namespace Dekit.Graph

variable {τ : Type}

/-- Whether a task should be up: reachable from a pin through tasks that are not vetoed. -/
def computeWanted (g : Graph τ) (id : TaskId) : Bool :=
  !g.quitting && (g.tasks.lookup id).any (fun t => !t.vetoed && decide (0 < t.wantedParents))

def depSupports (g : Graph τ) (dep : TaskId) : Bool :=
  (g.tasks.lookup dep).any (fun t => t.supported && t.isSatisfied)

/-- Whether a task may run right now, from what its immediate dependencies cache. -/
def computeSupported (g : Graph τ) (id : TaskId) : Bool :=
  (g.tasks.lookup id).any (·.wanted) && decide (∀ dep ∈ g.edges id, g.depSupports dep = true)

def countWanted (now : Bool) (g : Graph τ) (dep : TaskId) : Graph τ :=
  (g.modifyTask dep (fun t => { t with
    wantedParents := if now then t.wantedParents + 1 else t.wantedParents - 1 })).enqueue dep

def recomputeWanted (g : Graph τ) (id : TaskId) : Graph τ :=
  match g.tasks.lookup id with
  | none => g
  | some t =>
    let wanted := g.computeWanted id
    if t.wanted = wanted then g
    else
      -- Children count this task among their wanted parents.
      { g.modifyTask id (fun t => { t with wanted }) with stateChanged := true }.forEach id (g.edges id)
        (countWanted wanted)

def recomputeSupported (g : Graph τ) (id : TaskId) : Graph τ :=
  match g.tasks.lookup id with
  | none => g
  | some t =>
    let supported := g.computeSupported id
    if t.supported = supported then g
    else (g.modifyTask id (fun t => { t with supported })).enqueueParents id

/-- Recomputes one task's caches from its neighbors', queuing what a change reaches. -/
def recomputeCaches (g : Graph τ) (id : TaskId) : Graph τ :=
  if id ∈ g.tasks then ((g.recomputeWanted id).recomputeSupported id).note .touched else g

def hasActiveDependent (g : Graph τ) (id : TaskId) : Bool :=
  (g.tasks.lookup id).any (fun t => decide (0 < t.activeDependents))

def noActiveTasks (g : Graph τ) : Bool :=
  decide (∀ id ∈ g.tasks.keys, (g.tasks.lookup id).all (fun t => !t.state.isActive))

section drive

variable [Task τ]

def driveTask (g : Graph τ) (id : TaskId) : Graph τ :=
  match g.tasks.lookup id with
  | none => g
  | some t =>
    if t.supported then
      match t.state with
      | .idle => g.startTask id
      | _ => g
    else
      match t.state with
      | .starting | .running | .ready =>
        -- Ordered shutdown: dependents go down first.
        if g.hasActiveDependent id then g else (g.stopTask id false).note (.drivenStop id)
      -- Cancel a pending retry.
      | .backoff _ => g.setState id .idle
      | .idle | .stopping | .done _ | .exited _ => g

end drive

/-- The caches' fixed point, and what was recomputed on the way to it, in order. -/
def propagate : ℕ → Graph τ → List TaskId → Graph τ × List TaskId
  | 0, g, toDrive => (g, toDrive)
  | fuel + 1, g, toDrive => match g.popDirty with
    | none => (g, toDrive)
    | some (id, g) => propagate fuel (g.recomputeCaches id) (addSeen toDrive id)
where
  addSeen (toDrive : List TaskId) (id : TaskId) : List TaskId :=
    if id ∈ toDrive then toDrive else toDrive ++ [id]

/-- More pops than any walk to the fixed point takes. -/
def propagateFuel (g : Graph τ) : ℕ :=
  (2 * g.tasks.keys.card + 2) ^ (2 * g.tasks.keys.card + 4)

section settle

variable [Task τ]

/-- Propagates the caches to a fixed point, then drives the affected tasks against it. -/
def reconcileRound (g : Graph τ) : Graph τ :=
  let (g, toDrive) := propagate g.propagateFuel g []
  toDrive.foldl driveTask g

/-- One step of settling, or none when both queues are empty. -/
def settleStep (g : Graph τ) : Option (Graph τ) :=
  match g.pendingEffects with
  | (id, effect) :: rest => some ({ g with pendingEffects := rest }.onEffect id effect)
  | [] => if g.dirty.isEmpty then none else some g.reconcileRound

def settleSteps : ℕ → Graph τ → Graph τ
  | 0, g => g
  | n + 1, g => match g.settleStep with
    | some g => settleSteps n g
    | none => g

def settleBudget (g : Graph τ) : ℕ := g.tasks.keys.card * 16 + 64

/-- The step past the budget is still taken; the queues are kept after it. -/
def settle (g : Graph τ) : Graph τ := settleSteps (g.settleBudget + 1) g

end settle

/-- Whether a quit was already in progress comes back with the graph. -/
def beginQuit (g : Graph τ) : Graph τ × Bool :=
  if g.quitting then (g, true)
  else ({ g with quitting := true }.forEach initTaskId g.tasks.keys enqueue, false)

end Dekit.Graph
