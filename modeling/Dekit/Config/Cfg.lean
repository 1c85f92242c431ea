import Dekit.Lib.Decimal
import Dekit.Written

/-! `cfg.rs`: the values of a config, each read with the place it has, for the errors. -/

namespace Dekit

inductive Number
  | posInt (n : UInt64)
  | negInt (n : ℤ)
  | float (text : String)

/-- A value as YAML has it: any value may be a key, and a tag may stand before one. -/
inductive Yaml
  | null
  | bool (b : Bool)
  | number (n : Number)
  | string (s : String)
  | sequence (items : List Yaml)
  | mapping (entries : List (Yaml × Yaml))
  | tagged (tag : String) (value : Yaml)

namespace Yaml

def untag : Yaml → Yaml
  | tagged _ value => value.untag
  | value => value

def isNull (v : Yaml) : Bool :=
  match v.untag with
  | null => true
  | _ => false

def asBool (v : Yaml) : Option Bool :=
  match v.untag with
  | bool b => some b
  | _ => none

def asU64 (v : Yaml) : Option UInt64 :=
  match v.untag with
  | number (.posInt n) => some n
  | _ => none

def asStr (v : Yaml) : Option String :=
  match v.untag with
  | string s => some s
  | _ => none

def asSequence (v : Yaml) : Option (List Yaml) :=
  match v.untag with
  | sequence items => some items
  | _ => none

def asMapping (v : Yaml) : Option (List (Yaml × Yaml)) :=
  match v.untag with
  | mapping entries => some entries
  | _ => none

/-- Whether a key of a mapping is this text; one behind a tag is not. -/
def isKey (key : String) : Yaml → Bool
  | string s => s == key
  | _ => false

end Yaml

abbrev CfgPath := List String

def CfgPath.display (path : CfgPath) : String := "<config>" ++ String.join (path.map ("." ++ ·))

/-- Why a config is not read: it is refused, or reading it panics. -/
inductive CfgError
  | refused (text : String)
  | panicked

abbrev CfgResult := Except CfgError

structure CfgNode where
  value : Yaml
  path : CfgPath

structure CfgObj where
  map : List (Yaml × Yaml)
  path : CfgPath

namespace CfgNode

def error (node : CfgNode) (msg : String) : CfgError := .refused (msg ++ " at " ++ node.path.display)

/-- What a value is, or the error of one that is another. -/
def expect {α : Type} (node : CfgNode) (value : Option α) (msg : String) : CfgResult α :=
  match value with
  | some value => .ok value
  | none => .error (node.error msg)

def asStr (node : CfgNode) : CfgResult String := node.expect node.value.asStr "expected string"

def asBool (node : CfgNode) : CfgResult Bool := node.expect node.value.asBool "expected bool"

def asU64 (node : CfgNode) : CfgResult UInt64 := node.expect node.value.asU64 "expected unsigned integer"

def asObj (node : CfgNode) : CfgResult CfgObj :=
  (node.expect node.value.asMapping "expected object").map fun map => ⟨map, node.path⟩

def asArr (node : CfgNode) : CfgResult (List CfgNode) :=
  (node.expect node.value.asSequence "expected array").map fun items =>
    items.mapIdx fun i value => ⟨value, node.path ++ [toString i]⟩

def strings (node : CfgNode) : CfgResult (List String) := node.asArr.bind fun items => items.mapM asStr

end CfgNode

namespace CfgObj

def error (obj : CfgObj) (msg : String) : CfgError := .refused (msg ++ " at " ++ obj.path.display)

def get (obj : CfgObj) (key : String) : Option CfgNode :=
  (obj.map.find? fun e => Yaml.isKey key e.1).map fun e => ⟨e.2, obj.path ++ [key]⟩

section

variable {α : Type} (obj : CfgObj) (key : String) (fromCfg : CfgNode → CfgResult α)

def default (value : α) : CfgResult α :=
  match obj.get key with
  | some node => if node.value.isNull then .ok value else fromCfg node
  | none => .ok value

end

/-- The entries whose key is a text, also one behind a tag. -/
def iter (obj : CfgObj) : List (String × CfgNode) :=
  obj.map.filterMap fun e => e.1.asStr.map fun key => (key, ⟨e.2, obj.path ++ [key]⟩)

def unknownKeys (known : List String) : List (Yaml × Yaml) → Option (List String)
  | [] => some []
  | (key, _) :: rest =>
    match key.asStr with
    | none => none
    | some key => (unknownKeys known rest).map fun unknown => if known.contains key then unknown else key :: unknown

def knownKeys (obj : CfgObj) (known : List String) : CfgResult Unit :=
  match unknownKeys known obj.map with
  | none => .error (obj.error "non-string key")
  | some [] => .ok ()
  | some [key] => .error (obj.error ("unknown field '" ++ key ++ "'"))
  | some unknown =>
    let names := (unknown.insertionSort (· ≤ ·)).map fun key => "'" ++ key ++ "'"
    .error (obj.error ("unknown fields " ++ ", ".intercalate names))

end CfgObj

/-- `Path::components`. -/
inductive Component
  | rootDir
  | curDir
  | parentDir
  | normal (name : List Char)
deriving DecidableEq

namespace Component

def text : Component → List Char
  | rootDir => ['/']
  | curDir => ['.']
  | parentDir => ['.', '.']
  | normal name => name

/-- Between two slashes; nothing and a dot are no step. -/
def ofStep (step : List Char) : Option Component :=
  if step = [] ∨ step = ['.'] then none
  else if step = ['.', '.'] then some parentDir
  else some (normal step)

end Component

def components (path : List Char) : List Component :=
  let steps := path.splitOn '/'
  let lead :=
    if path.head? = some '/' then [.rootDir]
    else if steps.head? = some ['.'] then [.curDir]
    else []
  lead ++ steps.filterMap Component.ofStep

def joinPath (dir path : List Char) : List Char :=
  if path.head? = some '/' then path
  else if dir = [] ∨ dir.getLast? = some '/' then dir ++ path
  else dir ++ '/' :: path

def pathText (resolved : List Component) : List Char :=
  resolved.foldl (fun text component => joinPath text component.text) []

def resolveStep (resolved : List Component) (component : Component) : List Component :=
  match component, resolved.getLast? with
  | .curDir, _ => resolved
  | .parentDir, some (.normal _) => resolved.dropLast
  | .parentDir, some .rootDir => resolved
  | component, _ => resolved ++ [component]

/-- The directory of the config file. -/
structure CfgCx where
  configDir : String

namespace CfgCx

def resolvePath (cx : CfgCx) (path : String) : String :=
  String.ofList (pathText ((components (joinPath cx.configDir.toList path.toList)).foldl resolveStep []))

def path (cx : CfgCx) (node : CfgNode) : CfgResult String :=
  node.asStr.bind fun path =>
    if "<CONFIG_DIR>".toList.isPrefixOf path.toList then
      .error (node.error "'<CONFIG_DIR>' is not supported: a relative path is from the file's directory already")
    else .ok (cx.resolvePath path)

end CfgCx

end Dekit
