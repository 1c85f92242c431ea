import Dekit.Reconcile
import Dekit.Selection

namespace Dekit.Graph

variable {τ : Type}

/-- The latest wish replaces what was saved, so it clears the saved pin. -/
def setPin (g : Graph τ) (id : TaskId) (pinned : Bool) : Graph τ :=
  let g := g.modifyTask id (fun t => { t with savedPin := false })
  if pinned then g.addEdge initTaskId id else g.removeEdge initTaskId id

section commands

variable [Task τ]

def revives (rerunDone : Bool) (target id : TaskId) : TaskState → Bool
  | .backoff _ | .exited _ => true
  | .done _ => rerunDone && id == target
  | .idle | .starting | .running | .ready | .stopping => false

def demandOne (rerunDone : Bool) (target : TaskId) (g : Graph τ) (id : TaskId) : Graph τ :=
  match g.tasks.lookup id with
  | none => g
  | some t =>
    let g :=
      if t.startFailed then
        { g.modifyTask id (fun t => { t with startFailed := false }) with stateChanged := true }
      else g
    let g := g.setVetoed id false
    if revives rerunDone target id t.state then g.setState id .idle else g

/-- A start demands the whole requirement closure; done jobs stay done, except the target when
`rerunDone`. -/
def demand (g : Graph τ) (id : TaskId) (rerunDone : Bool) : Graph τ :=
  (g.closure id).foldl (demandOne rerunDone id) g

def stopIfActive (g : Graph τ) (id : TaskId) : Graph τ :=
  match g.tasks.lookup id with
  | none => g
  | some t => match t.state with
    | .starting | .running | .ready => g.stopTask id false
    | _ => g

def cmdStart (g : Graph τ) (id : TaskId) : Graph τ := (g.setPin id true).demand id true

def cmdUp (g : Graph τ) (id : TaskId) : Graph τ := (g.setPin id true).demand id false

def cmdStop (g : Graph τ) (id : TaskId) : Graph τ := (g.setPin id false).stopIfActive id

def cmdKill (g : Graph τ) (id : TaskId) : Graph τ :=
  let g := g.setPin id false
  match g.tasks.lookup id with
  | none => g
  | some t => match t.state with
    | .starting | .running | .ready => (g.setState id .stopping).hardKill id
    -- Already stopping gracefully: kill now.
    | .stopping => g.hardKill id
    | _ => g

def cmdVeto (g : Graph τ) (id : TaskId) : Graph τ := (g.setPin id false).setVetoed id true

def cmdRestart (g : Graph τ) (id : TaskId) : Graph τ := (g.cmdStart id).stopIfActive id

def actOne (verb : Verb) (g : Graph τ) (id : TaskId) : Graph τ :=
  match verb with
  | .up => g.cmdUp id
  | .start => g.cmdStart id
  | .restart => g.cmdRestart id
  | .forceRestart => (g.cmdKill id).cmdStart id
  | .stop => g.cmdStop id
  | .kill => g.cmdKill id
  | .veto => g.cmdVeto id

/-- What a verb acts on: the selector's matches, for `up` its set. -/
def actSet (g : Graph τ) (verb : Verb) (sender : TaskId) (selector : TaskSelector) : List TaskId :=
  match verb with
  | .up => g.upSet sender selector
  | _ => g.mutableMatchingIds sender selector

def act (g : Graph τ) (verb : Verb) (sender : TaskId) (selector : TaskSelector) :
    Graph τ × List TaskId :=
  let ids := g.actSet verb sender selector
  (ids.foldl (actOne verb) g, ids)

end commands

end Dekit.Graph
