import Mathlib.Data.List.Basic

namespace Dekit

abbrev TaskId := ℕ

def initTaskId : TaskId := 0

theorem one_ne_init : (1 : TaskId) ≠ initTaskId := by decide

theorem two_ne_init : (2 : TaskId) ≠ initTaskId := by decide

/-- The components of a path; the root has none. -/
abbrev TaskPath := List String

namespace TaskPath

def root : TaskPath := []

def isRoot (p : TaskPath) : Bool := p.isEmpty

def parent (p : TaskPath) : Option TaskPath :=
  if p.isEmpty then none else some p.dropLast

def name (p : TaskPath) : String := p.getLastD ""

/-- The parents of a path, nearest first, down to the root. -/
def parents (p : TaskPath) : List TaskPath := (p.inits.reverse).tail

def isAtOrUnder (p group : TaskPath) : Bool := group.isPrefixOf p

def asStr (p : TaskPath) : String := "/".intercalate p

end TaskPath

abbrev TaskSpaceId := String

namespace TaskSpaceId

def defaultSpace : TaskSpaceId := ""

def dekit : TaskSpaceId := "dekit"

def isDefault (s : TaskSpaceId) : Bool := s == defaultSpace

def isReserved (s : TaskSpaceId) : Bool := s == dekit

end TaskSpaceId

structure TaskKey where
  space : TaskSpaceId
  path : TaskPath
deriving DecidableEq

namespace TaskKey

def display (k : TaskKey) : String :=
  if TaskSpaceId.isDefault k.space then TaskPath.asStr k.path
  else "@" ++ k.space ++ "/" ++ TaskPath.asStr k.path

end TaskKey

def taskName (id : TaskId) (space : TaskSpaceId) (path : Option TaskPath) : String :=
  match path with
  | some path => (TaskKey.mk space path).display
  | none => "<task:" ++ toString id ++ ">"

/-- Where a task is listed among the names beside it. -/
inductive Place where
  | keep
  | first
  | last
  | after (path : TaskPath)
deriving DecidableEq

inductive SpaceSelector where
  | one (space : TaskSpaceId)
  | any
deriving DecidableEq

/-- A glob is kept as the components of its pattern. -/
inductive TaskSelector where
  | id (id : TaskId)
  | glob (space : SpaceSelector) (pattern : List String)
  | tag (space : SpaceSelector) (tag : String)
deriving DecidableEq

end Dekit
