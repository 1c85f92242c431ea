import Mathlib.Data.List.Sort
import Mathlib.Data.String.Basic

namespace Dekit

/-- A value of a task's entry; a number is kept as it is written. -/
inductive Value where
  | null
  | bool (b : Bool)
  | number (text : String)
  | string (s : String)
  | sequence (items : List Value)
  | mapping (entries : List (String × Value))

/- Two mappings are equal when they have the same entries in any order. -/
mutual

def Value.same : Value → Value → Bool
  | .null, .null => true
  | .bool a, .bool b => a == b
  | .number a, .number b => a == b
  | .string a, .string b => a == b
  | .sequence as, .sequence bs => sameItems as bs
  | .mapping as, .mapping bs => as.length == bs.length && sameEntries as bs
  | _, _ => false

def sameItems : List Value → List Value → Bool
  | [], [] => true
  | a :: as, b :: bs => a.same b && sameItems as bs
  | _, _ => false

def sameEntries : List (String × Value) → List (String × Value) → Bool
  | [], _ => true
  | (k, a) :: as, bs =>
    (match bs.lookup k with
      | some b => a.same b
      | none => false) && sameEntries as bs

end

def sameValue : Option Value → Option Value → Bool
  | none, none => true
  | some a, some b => a.same b
  | _, _ => false

def taskKeys : List String :=
  ["label", "type", "cmd", "script", "deps", "tags", "ready", "cwd", "env", "add_path",
    "autostart", "autorestart", "stop", "log", "scrollback_len", "mouse_scroll_speed"]

def dynamicTag : String := "dynamic"

/-- A task's definition as written: an entry of the config, its keys in order. -/
structure TaskSpec where
  entries : List (String × Value)

namespace TaskSpec

def rank (key : String) : ℕ := taskKeys.idxOf key

def get (s : TaskSpec) (key : String) : Option Value := s.entries.lookup key

def set (s : TaskSpec) (key : String) (value : Option Value) : TaskSpec :=
  match value with
  | none => ⟨s.entries.filter (fun e => e.1 ≠ key)⟩
  | some value =>
    if (s.entries.map Prod.fst).contains key then
      ⟨s.entries.map (fun e => if e.1 = key then (key, value) else e)⟩
    else
      let inOrder := match s.entries.getLast? with
        | none => true
        | some last => rank last.1 ≤ rank key
      let entries := s.entries ++ [(key, value)]
      if inOrder then ⟨entries⟩
      else ⟨entries.insertionSort (fun a b => rank a.1 ≤ rank b.1)⟩

def setLabel (s : TaskSpec) (label : Option String) : TaskSpec :=
  s.set "label" (label.map Value.string)

def setStrings (s : TaskSpec) (key : String) (items : List String) : TaskSpec :=
  s.set key (if items.isEmpty then none else some (.sequence (items.map Value.string)))

def setDeps (s : TaskSpec) (deps : List String) : TaskSpec :=
  s.setStrings "deps" (deps.insertionSort (· ≤ ·)).eraseDups

def asMapping : Option Value → List (String × Value)
  | some (.mapping entries) => entries
  | _ => []

def changedVars (a b : List (String × Value)) : List String :=
  (((a ++ b).map Prod.fst).filter (fun var => !sameValue (a.lookup var) (b.lookup var))).eraseDups

def changedKeys (s other : TaskSpec) : List String :=
  let names := ((s.entries ++ other.entries).map Prod.fst).eraseDups
  let keys := names.flatMap fun name =>
    let (a, b) := (s.get name, other.get name)
    if sameValue a b then []
    else if name = "env" then
      (changedVars (asMapping a) (asMapping b)).map ("env." ++ ·)
    else [name]
  keys.insertionSort (fun a b => rankTop a ≤ rankTop b)
where
  rankTop (key : String) : ℕ := rank (String.ofList (key.toList.takeWhile (· ≠ '.')))

end TaskSpec

/-- A definition as the kernel keeps it: its deps are the task's edges. -/
def withoutDeps (spec : TaskSpec) : TaskSpec := spec.setDeps []

/-- The config entry a task is written in. -/
structure Source where
  file : String
  key : String
  mount : String
deriving DecidableEq

end Dekit
