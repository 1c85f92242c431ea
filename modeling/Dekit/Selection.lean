import Dekit.Graph
import Dekit.Lib.Worklist

namespace Dekit.Graph

variable {τ : Type}

def tasksWithTag (g : Graph τ) (space : SpaceSelector) (tag : String) : List TaskId :=
  (g.walk initTaskId (g.tags tag)).filter fun id => match space with
    | .one space => (g.tasks.lookup id).any (·.space == space)
    | .any => true

def matchingIds (g : Graph τ) : TaskSelector → List TaskId
  | .id id => if id ∈ g.tasks then [id] else []
  | .glob space pattern => g.ns.glob g.walkSpaces space pattern
  | .tag space tag => g.tasksWithTag space tag

def senderSpace (g : Graph τ) (sender : TaskId) : TaskSpaceId :=
  ((g.tasks.lookup sender).map (·.space)).getD TaskSpaceId.defaultSpace

def canRegister (g : Graph τ) (sender : TaskId) (space : TaskSpaceId) : Bool :=
  !space.isReserved || g.senderSpace sender == space

def canMutateFolder (g : Graph τ) (sender id : TaskId) : Bool :=
  (g.folders.lookup id).any (fun folder => g.canRegister sender folder.space)

def canMutate (g : Graph τ) (sender id : TaskId) : Bool :=
  (g.tasks.lookup id).any (fun t => g.canRegister sender t.space)

def mutableMatchingIds (g : Graph τ) (sender : TaskId) (selector : TaskSelector) : List TaskId :=
  (g.matchingIds selector).filter (g.canMutate sender)

theorem mem_of_matched {g : Graph τ} {id sender : TaskId} {selector : TaskSelector}
    (h : id ∈ g.mutableMatchingIds sender selector) : id ∈ g.tasks := by
  have hmut := (List.mem_filter.mp h).2
  unfold canMutate at hmut
  obtain ⟨t, ht, -⟩ := (Option.any_eq_true _ _).mp hmut
  exact Finmap.mem_of_lookup_eq_some ht

/-- The selector's matches and every task with a saved pin, each once, that the sender may change. -/
def upSet (g : Graph τ) (sender : TaskId) (selector : TaskSelector) : List TaskId :=
  let ids := g.mutableMatchingIds sender selector
  let saved := g.tasks.keys.filter fun id =>
    (g.tasks.lookup id).any (·.savedPin) ∧ id ∉ ids ∧ g.canMutate sender id
  ids ++ Hasher.ascending saved

def closure (g : Graph τ) (id : TaskId) : List TaskId :=
  Worklist.explore (fun id => g.walk id (g.edges id)) (g.tasks.keys.card + 2) [id] 0

def requires (g : Graph τ) (src dst : TaskId) : Bool := (g.closure src).contains dst

def addNew (deps : List TaskId) (id : TaskId) : List TaskId :=
  if id ∈ deps then deps else deps ++ [id]

/-- The tasks the selectors match, each once, refused when one matches nothing. -/
def resolveDeps (g : Graph τ) (selectors : List TaskSelector) :
    Except RegisterError (List TaskId) :=
  selectors.foldlM (fun deps selector =>
    let ids := g.matchingIds selector
    if ids.isEmpty then .error (.missingDep selector) else .ok (ids.foldl addNew deps)) []

def name (g : Graph τ) (id : TaskId) : String :=
  match g.tasks.lookup id with
  | some t => taskName id t.space t.path
  | none => taskName id TaskSpaceId.defaultSpace none

/-- The deps a task would have, refused also when one needs the task. -/
def resolveNewDeps (g : Graph τ) (id : TaskId) (selectors : List TaskSelector) :
    Except RegisterError (List TaskId) :=
  match g.resolveDeps selectors with
  | .error err => .error err
  | .ok deps => match deps.find? (fun dep => g.requires dep id) with
    | some dep => .error (.depCycle (g.name dep))
    | none => .ok deps

end Dekit.Graph
