import Mathlib.Data.Finset.Basic
import Dekit.Lib.FiniteMap
import Dekit.PathTrie

namespace Dekit

inductive SubMode where
  | exact
  | subtree
deriving DecidableEq

inductive SubNode where
  | mk (exact subtree : Finset TaskId) (children : List (String × SubNode))

namespace SubNode

def exact : SubNode → Finset TaskId
  | mk exact _ _ => exact

def subtree : SubNode → Finset TaskId
  | mk _ subtree _ => subtree

def children : SubNode → List (String × SubNode)
  | mk _ _ children => children

def empty : SubNode := mk ∅ ∅ []

def isEmpty (n : SubNode) : Bool := n.exact = ∅ && n.subtree = ∅ && n.children.isEmpty

def setChild (n : SubNode) (name : String) (child : SubNode) : SubNode :=
  if (n.children.lookup name).isSome then
    mk n.exact n.subtree (n.children.map (fun e => if e.1 = name then (name, child) else e))
  else mk n.exact n.subtree (n.children ++ [(name, child)])

def subscribe (subscriber : TaskId) (mode : SubMode) : SubNode → List String → SubNode
  | n, [] => match mode with
    | .exact => mk (insert subscriber n.exact) n.subtree n.children
    | .subtree => mk n.exact (insert subscriber n.subtree) n.children
  | n, name :: rest =>
    n.setChild name (((n.children.lookup name).getD empty).subscribe subscriber mode rest)

def removeOne (subscriber : TaskId) (mode : SubMode) : SubNode → List String → SubNode
  | n, [] => match mode with
    | .exact => mk (n.exact.erase subscriber) n.subtree n.children
    | .subtree => mk n.exact (n.subtree.erase subscriber) n.children
  | n, name :: rest => match n.children.lookup name with
    | some child =>
      let child := child.removeOne subscriber mode rest
      if child.isEmpty then mk n.exact n.subtree (n.children.filter (fun e => e.1 ≠ name))
      else n.setChild name child
    | none => n

def collect : SubNode → List String → Finset TaskId
  | n, [] => n.subtree ∪ n.exact
  | n, name :: rest => match n.children.lookup name with
    | some child => n.subtree ∪ child.collect rest
    | none => n.subtree

def isSubscribed (subscriber : TaskId) : SubNode → List String → Bool
  | n, [] => subscriber ∈ n.subtree || subscriber ∈ n.exact
  | n, name :: rest =>
    if subscriber ∈ n.subtree then true
    else match n.children.lookup name with
      | some child => child.isSubscribed subscriber rest
      | none => false

end SubNode

structure SubTrie where
  root : SubNode
  bySubscriber : TaskId → List (TaskPath × SubMode)

namespace SubTrie

def new : SubTrie := ⟨.empty, fun _ => []⟩

def subscribe (t : SubTrie) (subscriber : TaskId) (path : TaskPath) (mode : SubMode) : SubTrie where
  root := t.root.subscribe subscriber mode path
  bySubscriber := Function.update t.bySubscriber subscriber
    ((t.bySubscriber subscriber).insert (path, mode))

def unsubscribe (t : SubTrie) (subscriber : TaskId) (path : TaskPath) (mode : SubMode) : SubTrie where
  root := t.root.removeOne subscriber mode path
  bySubscriber := Function.update t.bySubscriber subscriber
    ((t.bySubscriber subscriber).erase (path, mode))

def removeSubscriber (t : SubTrie) (subscriber : TaskId) : SubTrie where
  root := (t.bySubscriber subscriber).foldl (fun n s => n.removeOne subscriber s.2 s.1) t.root
  bySubscriber := Function.update t.bySubscriber subscriber []

end SubTrie

structure SpaceNamespace where
  paths : PathTrie
  subs : SubTrie

def SpaceNamespace.new : SpaceNamespace := ⟨.new, .new⟩

/-- A space with no entry in `spaces` has no names and no subscribers. -/
structure Namespace where
  spaces : Finmap (fun _ : TaskSpaceId => SpaceNamespace)

namespace Namespace

def new : Namespace := ⟨∅⟩

def space (ns : Namespace) (name : TaskSpaceId) : SpaceNamespace :=
  (ns.spaces.lookup name).getD .new

def setPaths (ns : Namespace) (name : TaskSpaceId) (paths : PathTrie) : Namespace :=
  ⟨ns.spaces.insert name { ns.space name with paths }⟩

def setSubs (ns : Namespace) (name : TaskSpaceId) (subs : SubTrie) : Namespace :=
  ⟨ns.spaces.insert name { ns.space name with subs }⟩

def insert (ns : Namespace) (key : TaskKey) (id : TaskId) (place : Place) :
    Except PathConflict Namespace :=
  ((ns.space key.space).paths.insert key.path id place).map (ns.setPaths key.space)

def insertFolder (ns : Namespace) (key : TaskKey) (id : TaskId) (place : Place) :
    Except PathConflict Namespace :=
  ((ns.space key.space).paths.insertFolder key.path id place).map (ns.setPaths key.space)

def removeFolder (ns : Namespace) (key : TaskKey) : Namespace :=
  ns.setPaths key.space ((ns.space key.space).paths.removeFolder key.path)

def remove (ns : Namespace) (key : TaskKey) : Namespace :=
  ns.setPaths key.space ((ns.space key.space).paths.remove key.path)

def moveNode (ns : Namespace) (space : TaskSpaceId) (src dst : TaskPath) (place : Place) :
    Except MoveError (Namespace × List Moved) :=
  ((ns.space space).paths.moveNode src dst place).map (fun r => (ns.setPaths space r.1, r.2))

def place (ns : Namespace) (key : TaskKey) (place : Place) : Namespace :=
  ns.setPaths key.space ((ns.space key.space).paths.place key.path place)

def prune (ns : Namespace) (key : TaskKey) : Namespace :=
  ns.setPaths key.space ((ns.space key.space).paths.prune key.path)

def before (ns : Namespace) (key : TaskKey) : Option TaskId :=
  (ns.space key.space).paths.before key.path

def position (ns : Namespace) (space : TaskSpaceId) (path : TaskPath) : Option (List ℕ) :=
  (ns.space space).paths.position path

def nodes (ns : Namespace) (key : TaskKey) : List (TaskPath × TaskId) :=
  (ns.space key.space).paths.nodes key.path

/-- The spaces a selector names; all of them come in the order of a walk. -/
def selected (ns : Namespace) (walk : Finset String → List String) : SpaceSelector → List TaskSpaceId
  | .one space => [space]
  | .any => walk ns.spaces.keys

def glob (ns : Namespace) (walk : Finset String → List String) (space : SpaceSelector)
    (pattern : List String) : List TaskId :=
  (ns.selected walk space).flatMap fun name =>
    ((ns.space name).paths.glob pattern).map Prod.snd

def globNodes (ns : Namespace) (walk : Finset String → List String) (space : SpaceSelector)
    (pattern : List String) : List TaskKey :=
  (ns.selected walk space).flatMap fun name =>
    ((ns.space name).paths.globNodes pattern).map (TaskKey.mk name)

def inScope (ns : Namespace) (key : TaskKey) (mode : SubMode) : List (TaskPath × TaskId) :=
  match mode with
  | .exact => (ns.nodes key).filter (fun e => e.1 = key.path)
  | .subtree => ns.nodes key

def subscribe (ns : Namespace) (subscriber : TaskId) (key : TaskKey) (mode : SubMode) : Namespace :=
  ns.setSubs key.space ((ns.space key.space).subs.subscribe subscriber key.path mode)

def unsubscribe (ns : Namespace) (subscriber : TaskId) (key : TaskKey) (mode : SubMode) :
    Namespace :=
  ns.setSubs key.space ((ns.space key.space).subs.unsubscribe subscriber key.path mode)

def removeSubscriber (ns : Namespace) (walk : Finset String → List String) (subscriber : TaskId) :
    Namespace :=
  (walk ns.spaces.keys).foldl
    (fun ns name => ns.setSubs name ((ns.space name).subs.removeSubscriber subscriber)) ns

def isSubscribed (ns : Namespace) (subscriber : TaskId) (space : TaskSpaceId) (path : TaskPath) :
    Bool :=
  (ns.space space).subs.root.isSubscribed subscriber path

def collect (ns : Namespace) (key : TaskKey) : Finset TaskId :=
  (ns.space key.space).subs.root.collect key.path

end Namespace

end Dekit
