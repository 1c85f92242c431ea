import Mathlib.Data.Finset.Card
import Dekit.Task

namespace Dekit

/-- What the reconciler reads and writes of a task. -/
structure Node where
  state : TaskState
  kind : TaskKind
  vetoed : Bool
  wanted : Bool
  supported : Bool
  wantedParents : ℤ
  activeDependents : ℤ

/-- What the reconciler reads and writes of the graph, with the order of its queue left out:
`a` requires `b` when `b ∈ deps a`, and `a ∈ requirers b` is the same read backwards. -/
@[ext]
structure View where
  quitting : Bool
  ids : Finset TaskId
  node : TaskId → Option Node
  deps : TaskId → Finset TaskId
  requirers : TaskId → Finset TaskId
  dirty : Finset TaskId

inductive SentCmd where
  | start
  | stop
  | kill
deriving DecidableEq

/-- What the kernel did, as its log keeps it: finished an operation on the graph, sent a command to
a task, or sent a stop that the reconciler decided on. -/
inductive Happening where
  | touched
  | sent (id : TaskId) (cmd : SentCmd)
  | drivenStop (id : TaskId)
deriving DecidableEq

def TaskHandle.node {τ : Type} (t : TaskHandle τ) : Node where
  state := t.state
  kind := t.kind
  vetoed := t.vetoed
  wanted := t.wanted
  supported := t.supported
  wantedParents := t.wantedParents
  activeDependents := t.activeDependents

section node

variable {τ : Type} (t : TaskHandle τ)

@[simp] theorem TaskHandle.node_state : t.node.state = t.state := rfl
@[simp] theorem TaskHandle.node_wanted : t.node.wanted = t.wanted := rfl
@[simp] theorem TaskHandle.node_supported : t.node.supported = t.supported := rfl
@[simp] theorem TaskHandle.node_activeDependents : t.node.activeDependents = t.activeDependents := rfl

end node

/-- What a task's timer goes by. -/
structure Clock where
  state : TaskState
  epoch : ℕ
  deadline : Option Instant
  killed : Bool
  startFailed : Bool
  ready : ReadyMode
  stopTimeout : Duration

def TaskHandle.clock {τ : Type} (t : TaskHandle τ) : Clock where
  state := t.state
  epoch := t.epoch
  deadline := t.deadline
  killed := t.killed
  startFailed := t.startFailed
  ready := t.ready
  stopTimeout := t.stopTimeout

def Node.isSatisfied (n : Node) : Bool := n.state.satisfies n.kind

end Dekit
