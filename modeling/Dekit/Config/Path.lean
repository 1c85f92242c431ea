import Mathlib.Data.List.Infix
import Mathlib.Tactic.Common
import Dekit.TaskPath

/-! `task_path.rs`: the paths of tasks as they are written. -/

namespace Dekit

namespace TaskPath

def isValidComponentChar (c : Char) : Bool := c.isAlphanum || c == '-' || c == '_' || c == '.'

def checkComponent (component : List Char) : Except String Unit :=
  if component = [] then .error "path contains empty component"
  else match component.find? (!isValidComponentChar ·) with
    | some c => .error ("path contains invalid character: '" ++ String.singleton c ++ "'")
    | none => .ok ()

def new (s : String) : Except String TaskPath :=
  if s = "" then .error "path is empty"
  else if s.toList.head? = some '/' then .error "path must not start with '/'"
  else
    let parts := s.toList.splitOn '/'
    (parts.forM checkComponent).map fun _ => parts.map String.ofList

/-- How the path that `new` refuses is reported. -/
def invalidPath (text : String) : String := "invalid task path: " ++ text

def join (parent child : String) : String :=
  if parent = "" then child else if child = "" then parent else parent ++ "/" ++ child

def beforeSlashes (path : List Char) : List (List Char) :=
  (List.range path.length).filterMap fun i => if path[i]? = some '/' then some (path.take i) else none

variable {p q : TaskPath} {s : String}

theorem asStr_append (hp : p ≠ []) (hq : q ≠ []) : asStr (p ++ q) = asStr p ++ "/" ++ asStr q :=
  String.intercalate_append_of_ne_nil hp hq

theorem toList_asStr (p : TaskPath) : (asStr p).toList = ['/'].intercalate (p.map String.toList) := by
  unfold asStr
  rw [String.toList_intercalate]
  rfl

theorem asStr_of_new (h : new s = .ok p) : asStr p = s ∧ p ≠ [] := by
  unfold new at h
  split at h
  · cases h
  · split at h
    · cases h
    · simp only at h
      cases hcheck : (s.toList.splitOn '/').forM checkComponent with
      | error err => rw [hcheck] at h; cases h
      | ok _ =>
        rw [hcheck] at h
        obtain rfl := Except.ok.inj h
        refine ⟨?_, ?_⟩
        · apply String.toList_inj.mp
          rw [toList_asStr, List.map_map]
          have hid : String.toList ∘ String.ofList = id := funext fun cs => String.toList_ofList
          rw [hid, List.map_id]
          exact List.intercalate_splitOn '/'
        · simp

theorem mem_beforeSlashes {a b : List Char} : a ∈ beforeSlashes (a ++ '/' :: b) := by
  unfold beforeSlashes
  refine List.mem_filterMap.mpr ⟨a.length, List.mem_range.mpr (by simp), ?_⟩
  simp

end TaskPath

end Dekit
