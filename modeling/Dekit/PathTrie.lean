import Dekit.Lib.FiniteMap
import Dekit.TaskPath

namespace Dekit

/-- `children` are in list order, each name once. -/
inductive TrieNode where
  | mk (task folder : Option TaskId) (children : List (String × TrieNode))

namespace TrieNode

def task : TrieNode → Option TaskId
  | mk task _ _ => task

def folder : TrieNode → Option TaskId
  | mk _ folder _ => folder

def children : TrieNode → List (String × TrieNode)
  | mk _ _ children => children

def new : TrieNode := mk none none []

def id (n : TrieNode) : Option TaskId := n.task <|> n.folder

def isEmpty (n : TrieNode) : Bool := n.id.isNone && n.children.isEmpty

def setTask (id : Option TaskId) : TrieNode → TrieNode
  | mk _ folder children => mk id folder children

def setFolder (id : Option TaskId) : TrieNode → TrieNode
  | mk task _ children => mk task id children

def setChildren (children : List (String × TrieNode)) : TrieNode → TrieNode
  | mk task folder _ => mk task folder children

end TrieNode

abbrev Children := List (String × TrieNode)

namespace Children

def indexOf (cs : Children) (name : String) : Option ℕ := cs.findIdx? (fun e => e.1 = name)

def set (cs : Children) (name : String) (child : TrieNode) : Children :=
  cs.map (fun e => if e.1 = name then (name, child) else e)

def remove (cs : Children) (name : String) : Children := cs.filter (fun e => e.1 ≠ name)

def moveLast (cs : Children) (index : ℕ) : Children :=
  match cs.getLast? with
  | some e => cs.dropLast.insertIdx index e
  | none => cs

end Children

mutual

/-- Every task and folder at or under a node, each folder before what is under it. -/
def TrieNode.collectNodes : TrieNode → TaskPath → List (TaskPath × TaskId)
  | .mk task folder children, path =>
    (match (task <|> folder) with
      | some id => if path.isRoot then [] else [(path, id)]
      | none => []) ++ collectChildren children path

def collectChildren : List (String × TrieNode) → TaskPath → List (TaskPath × TaskId)
  | [], _ => []
  | (name, child) :: rest, path => child.collectNodes (path ++ [name]) ++ collectChildren rest path

end

mutual

def TrieNode.anyNode : TrieNode → TaskPath → Option TaskPath
  | .mk task folder children, path =>
    if (task <|> folder).isSome then (if path.isRoot then none else some path)
    else anyChild children path

def anyChild : List (String × TrieNode) → TaskPath → Option TaskPath
  | [], _ => none
  | (name, child) :: rest, path => child.anyNode (path ++ [name]) <|> anyChild rest path

end

mutual

def TrieNode.lastNode : TrieNode → Option TaskId
  | .mk task folder children => task <|> lastChild children <|> folder

def lastChild : List (String × TrieNode) → Option TaskId
  | [] => none
  | (_, child) :: rest => lastChild rest <|> child.lastNode

end

/-- One node against a pattern, given how each child fares against one. -/
def globAt (groups : Bool) (path : TaskPath) (task : Option TaskId)
    (children : List (String × (List String → List (TaskPath × Option TaskId)))) :
    List String → List (TaskPath × Option TaskId)
  | [] => if (groups || task.isSome) && !path.isRoot then [(path, task)] else []
  | pat :: rest =>
    if pat = "**" then
      globAt groups path task children rest ++ children.flatMap (fun c => c.2 (pat :: rest))
    else if pat = "*" then children.flatMap (fun c => c.2 rest)
    else match children.lookup pat with
      | some walk => walk rest
      | none => []

mutual

def TrieNode.globWalk (groups : Bool) :
    TrieNode → TaskPath → List String → List (TaskPath × Option TaskId)
  | .mk task _ children, path, pattern =>
    globAt groups path task (globChildren groups children path) pattern

def globChildren (groups : Bool) : List (String × TrieNode) → TaskPath →
    List (String × (List String → List (TaskPath × Option TaskId)))
  | [], _ => []
  | (name, child) :: rest, path =>
    (name, fun pattern => child.globWalk groups (path ++ [name]) pattern) ::
      globChildren groups rest path

end

namespace TrieNode

def walkTo : TrieNode → TaskPath → Option TrieNode
  | n, [] => some n
  | n, name :: rest => match n.children.lookup name with
    | some child => child.walkTo rest
    | none => none

/-- The node at a path, if it is there, made over by `f`. -/
def updateAt (f : TrieNode → TrieNode) : TrieNode → TaskPath → TrieNode
  | n, [] => f n
  | n, name :: rest => match n.children.lookup name with
    | some child => n.setChildren (Children.set n.children name (child.updateAt f rest))
    | none => n

/-- The node at `path`, made with the groups on the way if it is not there, and made over by `f`. -/
def make (path : TaskPath) (place : Place) (f : TrieNode → TrieNode) : TrieNode → List String → TrieNode
  | n, [] => f n
  | n, name :: rest => match n.children.lookup name with
    | some child => n.setChildren (Children.set n.children name (child.make path place f rest))
    | none =>
      let last := n.children.length
      let index :=
        -- The place is the task's; the groups it makes go last.
        if !rest.isEmpty then last
        else match place with
          | .first => 0
          | .after after =>
            if TaskPath.parent after = TaskPath.parent path then
              ((Children.indexOf n.children (TaskPath.name after)).map (· + 1)).getD last
            else last
          | .keep | .last => last
      n.setChildren (n.children.insertIdx index (name, new.make path place f rest))

/-- Drops the nodes along a path that have no task or folder at or under them. -/
def prune : TrieNode → List String → TrieNode
  | n, [] => n
  | n, name :: rest => match n.children.lookup name with
    | some child =>
      let child := child.prune rest
      if child.isEmpty then n.setChildren (Children.remove n.children name)
      else n.setChildren (Children.set n.children name child)
    | none => n

end TrieNode

inductive PathConflict where
  | taken (id : TaskId)
  | nested (path : TaskPath)
deriving DecidableEq

structure Moved where
  id : TaskId
  src : TaskPath
  dst : TaskPath
deriving DecidableEq

inductive MoveError where
  | notFound (path : TaskPath)
  | taken (path : TaskPath)
  | underTask (path : TaskPath)
  | intoItself
  | badAfter (path : TaskPath)
deriving DecidableEq

structure PathTrie where
  root : TrieNode

namespace PathTrie

def new : PathTrie := ⟨.new⟩

def walkTo (t : PathTrie) (path : TaskPath) : Option TrieNode := t.root.walkTo path

def resolve (t : PathTrie) (path : TaskPath) : Option TaskId := (t.walkTo path).bind TrieNode.task

def taskAbove (t : PathTrie) (path : TaskPath) : Option TaskPath :=
  (TaskPath.parents path).find? (fun p => (t.resolve p).isSome)

def insert (t : PathTrie) (path : TaskPath) (id : TaskId) (place : Place) :
    Except PathConflict PathTrie :=
  match t.taskAbove path with
  | some above => .error (.nested above)
  | none =>
    let inserted := ⟨t.root.make path place (TrieNode.setTask (some id)) path⟩
    match t.walkTo path with
    | some node => match node.id with
      | some existing => .error (.taken existing)
      | none => match node.anyNode path with
        | some below => .error (.nested below)
        | none => .ok inserted
    | none => .ok inserted

def insertFolder (t : PathTrie) (path : TaskPath) (id : TaskId) (place : Place) :
    Except PathConflict PathTrie :=
  match t.taskAbove path with
  | some above => .error (.nested above)
  | none => match (t.walkTo path).bind TrieNode.id with
    | some existing => .error (.taken existing)
    | none => .ok ⟨t.root.make path place (TrieNode.setFolder (some id)) path⟩

def prune (t : PathTrie) (path : TaskPath) : PathTrie := ⟨t.root.prune path⟩

def removeFolder (t : PathTrie) (path : TaskPath) : PathTrie :=
  match t.walkTo path with
  | some _ => prune ⟨t.root.updateAt (TrieNode.setFolder none) path⟩ path
  | none => t

def remove (t : PathTrie) (path : TaskPath) : PathTrie :=
  match t.walkTo path with
  | some _ => prune ⟨t.root.updateAt (TrieNode.setTask none) path⟩ path
  | none => t

/-- Holds a path's place in the lists until something is inserted there or it is pruned. -/
def place (t : PathTrie) (path : TaskPath) (place : Place) : PathTrie :=
  if (t.taskAbove path).isNone then ⟨t.root.make path place (fun n => n) path⟩ else t

def nodes (t : PathTrie) (path : TaskPath) : List (TaskPath × TaskId) :=
  match t.walkTo path with
  | some node => node.collectNodes path
  | none => []

/-- Whether the move from `src` leaves the group at `dst` empty. -/
def emptied (t : PathTrie) (src dst : TaskPath) : Bool :=
  ((TaskPath.parents src).takeWhile (fun group => match t.walkTo group with
    | some node => node.children.length = 1 ∧ node.folder = none
    | none => false)).any (· = dst)

/-- Why a move is refused, if it is. -/
def moveRefused (t : PathTrie) (src dst : TaskPath) (place : Place) : Option MoveError :=
  if TaskPath.isRoot src || TaskPath.isRoot dst then some (.notFound src)
  else if (t.walkTo src).all TrieNode.isEmpty then some (.notFound src)
  else if src ≠ dst ∧ TaskPath.isAtOrUnder dst src then some .intoItself
  else match (if src ≠ dst then t.taskAbove dst else none) with
    | some above => some (.underTask above)
    | none =>
      if src ≠ dst ∧ (t.walkTo dst).isSome ∧ !t.emptied src dst then some (.taken dst)
      else match place with
        | .after after =>
          if TaskPath.parent after = TaskPath.parent dst ∧ after ≠ src ∧ after ≠ dst ∧
            (t.walkTo after).isSome then none
          else some (.badAfter after)
        | .keep | .first | .last => none

/-- Puts a node in at a name, in the place of an emptied group there; also where it went. -/
def putIn (node : TrieNode) (name : String) (place : Place) (keep : Option ℕ) (parent : TrieNode) :
    TrieNode :=
  let emptied := Children.indexOf parent.children name
  let children := Children.remove parent.children name
  let last := children.length
  let index := match place with
    | .first => 0
    | .last => last
    | .after after => ((Children.indexOf children (TaskPath.name after)).map (· + 1)).getD last
    | .keep => min ((keep <|> emptied).getD last) last
  parent.setChildren (children.insertIdx index (name, node))

/-- Where each id is, as a map collected from a listing has it: a later path replaces an earlier one. -/
def oldPaths (nodes : List (TaskPath × TaskId)) : Finmap (fun _ : TaskId => TaskPath) :=
  nodes.foldl (fun old e => old.insert e.2 e.1) ∅

/-- What was moved, each with its old path, which is taken out of the map. -/
def takeOld : Finmap (fun _ : TaskId => TaskPath) → List (TaskPath × TaskId) → List Moved
  | _, [] => []
  | old, e :: rest => ⟨e.2, (old.lookup e.2).getD e.1, e.1⟩ :: takeOld (old.erase e.2) rest

def moveNode (t : PathTrie) (src dst : TaskPath) (place : Place) :
    Except MoveError (PathTrie × List Moved) :=
  match t.moveRefused src dst place, t.walkTo src with
  | some err, _ => .error err
  | none, none => .error (.notFound src)
  | none, some node =>
    let old := oldPaths (node.collectNodes src)
    let srcParent := src.dropLast
    let dstParent := dst.dropLast
    let index := ((t.walkTo srcParent).bind
      (fun parent => Children.indexOf parent.children (TaskPath.name src))).getD 0
    let out : PathTrie := ⟨t.root.updateAt
      (fun parent => parent.setChildren (Children.remove parent.children (TaskPath.name src)))
      srcParent⟩
    let keep := if TaskPath.parent src = TaskPath.parent dst then some index else none
    -- The group the move makes beside where the node was, if any.
    let made := (((dstParent :: TaskPath.parents dstParent).takeWhile
      (fun group => !TaskPath.isRoot group && (out.walkTo group).isNone)).getLast?).filter
        (fun group => TaskPath.parent group = TaskPath.parent src)
    let placed := out.place dstParent .last
    let placed := if place = .keep ∧ made.isSome then
        ⟨placed.root.updateAt (fun parent => parent.setChildren
          (Children.moveLast parent.children (min index (parent.children.length - 1)))) srcParent⟩
      else placed
    let put : PathTrie := ⟨placed.root.updateAt (putIn node (TaskPath.name dst) place keep) dstParent⟩
    let moved := takeOld old (node.collectNodes dst)
    .ok (if TaskPath.parent src ≠ TaskPath.parent dst then put.prune src else put, moved)

def before (t : PathTrie) (path : TaskPath) : Option TaskId := go t.root none path
where
  go : TrieNode → Option TaskId → List String → Option TaskId
    | _, found, [] => found
    | n, found, name :: rest =>
      match Children.indexOf n.children name, n.children.lookup name with
      | some index, some child =>
        go child (lastChild (n.children.take index) <|> n.folder <|> found) rest
      | _, _ => none

/-- The index of a path among the names beside it, at each part of it. -/
def position (t : PathTrie) (path : TaskPath) : Option (List ℕ) := go t.root path
where
  go : TrieNode → List String → Option (List ℕ)
    | _, [] => some []
    | n, name :: rest =>
      match Children.indexOf n.children name, n.children.lookup name with
      | some index, some child => (go child rest).map (index :: ·)
      | _, _ => none

def pathLe : TaskPath → TaskPath → Bool
  | [], _ => true
  | _ :: _, [] => false
  | a :: as, b :: bs => if a = b then pathLe as bs else decide (a < b)

def entryLe (a b : TaskPath × Option TaskId) : Bool :=
  if a.1 = b.1 then
    match a.2, b.2 with
    | none, _ => true
    | some _, none => false
    | some x, some y => decide (x ≤ y)
  else pathLe a.1 b.1

def globWalk (t : PathTrie) (pattern : List String) (groups : Bool) :
    List (TaskPath × Option TaskId) :=
  let result := t.root.globWalk groups [] (pattern.filter (· ≠ ""))
  (result.insertionSort (fun a b => entryLe a b = true)).eraseDups

def glob (t : PathTrie) (pattern : List String) : List (TaskPath × TaskId) :=
  (t.globWalk pattern false).filterMap (fun e => e.2.map (fun id => (e.1, id)))

def globNodes (t : PathTrie) (pattern : List String) : List TaskPath :=
  (t.globWalk pattern true).map Prod.fst

end PathTrie

end Dekit
