import Mathlib.Data.List.Sort
import Dekit.Config.Cfg
import Dekit.Config.Path

/-! `config.rs`, `folder.rs`: the tasks and folders of a config, read from dekit.yaml and the files that it loads. -/

namespace Dekit

/-- A task's config with its path, and where it is written. -/
structure TaskEntry extends TaskConfig where
  path : String
  source : Option Source

structure FolderConfig where
  path : String
  collapsed : Bool
  source : Option Source
  /-- How many task entries the config has before it. -/
  at' : ℕ

/-- An entry under `tasks:`. -/
inductive Entry
  | task (cfg : TaskEntry)
  | folder (cfg : FolderConfig)

def Entry.path : Entry → String
  | .task cfg => cfg.path
  | .folder f => f.path

structure Config where
  tasks : List TaskEntry
  folders : List FolderConfig
  defaults : TaskConfig

namespace Config

def makeDefault : Config := ⟨[], [], {}⟩

def entries (c : Config) : List Entry := go c.tasks c.folders 0
where
  go : List TaskEntry → List FolderConfig → ℕ → List Entry
    | [], folders, _ => folders.map .folder
    | task :: tasks, folders, i =>
      (folders.takeWhile (·.at' ≤ i)).map .folder ++ .task task ::
        go tasks (folders.dropWhile (·.at' ≤ i)) (i + 1)

end Config

abbrev FilePath := List String

def FilePath.display (path : FilePath) : String := "/" ++ "/".intercalate path

/-- What a load reads from. A file's `!js` values are evaluated in a scope that files read before may have changed. -/
structure Disk (σ : Type) where
  paths : List FilePath
  canonicalize : FilePath → Except String FilePath
  canonical : ∀ path file, canonicalize path = .ok file → file ∈ paths
  exists' : FilePath → Bool
  load : FilePath → CfgResult Yaml
  readVars : σ → Yaml → FilePath → CfgResult σ
  resolveKeys : σ → Yaml → FilePath → Bool → CfgResult (Yaml × σ)
  /-- The pattern that is looked for when `load` names one in a directory. -/
  pattern : FilePath → String → String
  /-- The files a pattern matches. -/
  glob : CfgNode → String → CfgResult (List FilePath)

theorem Disk.fewer_left {σ : Type} (d : Disk σ) {stack : List FilePath} {path file : FilePath}
    (hfile : d.canonicalize path = .ok file) (hstack : file ∉ stack) :
    (d.paths.filter (· ∉ stack ++ [file])).length < (d.paths.filter (· ∉ stack)).length := by
  have hin : file ∈ d.paths.filter (· ∉ stack) :=
    List.mem_filter.mpr ⟨d.canonical path file hfile, by simpa using hstack⟩
  have hsame : d.paths.filter (· ∉ stack ++ [file]) = (d.paths.filter (· ∉ stack)).filter (· ≠ file) := by
    rw [List.filter_filter]
    refine List.filter_congr fun other _ => ?_
    simp [and_comm]
  rw [hsame]
  exact List.length_filter_lt_length_iff_exists.mpr ⟨file, hin, by simp⟩

/-- How the rest of a task's keys is read: those before its path is looked at, the command after it, and those after
the deps. -/
structure TaskReader where
  settings : CfgObj → CfgCx → CfgResult TaskConfig
  command : TaskConfig → CfgNode → CfgCx → CfgResult TaskConfig
  rest : TaskConfig → CfgObj → CfgCx → CfgResult TaskConfig
  /-- The keys of dekit.yaml besides its tasks: what it has under `defaults`. -/
  applyRoot : CfgObj → CfgCx → CfgResult TaskConfig

/-- What one load carries from file to file. -/
structure Load (σ : Type) where
  taskPaths : List String
  js : σ

def rootKeys : List String :=
  ["kernel", "load", "log", "defaults", "vars", "on_init", "on_idle", "tasks", "tui", "keymap"]

def fragmentKeys : List String := ["load", "tasks"]

def folderKeys : List String := ["collapsed"]

/-- The folder an entry key names: the path before the slash it ends in. -/
def folderKey (key : String) : Option String :=
  if key.toList.getLast? = some '/' then some (String.ofList key.toList.dropLast) else none

def folderFromCfg (path : String) (node : CfgNode) : CfgResult FolderConfig :=
  match TaskPath.new path with
  | .error err => .error (.refused ("folder '" ++ path ++ "/': " ++ TaskPath.invalidPath err))
  | .ok _ =>
    if node.value.isNull then .ok ⟨path, false, none, 0⟩
    else do
      let obj ← node.asObj
      obj.knownKeys folderKeys
      let collapsed ← obj.default "collapsed" CfgNode.asBool false
      .ok ⟨path, collapsed, none, 0⟩

def taskDeps (obj : CfgObj) : CfgResult (List String) := obj.default "deps" CfgNode.strings []

def taskFromCfg (r : TaskReader) (path : String) (node : CfgNode) (cx : CfgCx) : CfgResult TaskEntry := do
  let obj ← node.asObj
  let p ← r.settings obj cx
  match TaskPath.new path with
  | .error err => .error (.refused ("task '" ++ path ++ "': " ++ TaskPath.invalidPath err))
  | .ok _ =>
    let p ← r.command p node cx
    let deps ← taskDeps obj
    let p ← r.rest { p with deps } obj cx
    .ok ⟨{ p with deps }, path, none⟩

/-- A dep from the root, or of the mount. -/
def mountDep (mount dep : String) : String :=
  match dep.toList with
  | '/' :: rest => String.ofList rest
  | _ => if mount = "" then dep else TaskPath.join mount dep

def loadEntry (r : TaskReader) (cx : CfgCx) (file mount : String) (acc : Config × List String) (e : String × CfgNode) :
    CfgResult (Config × List String) :=
  let (config, taskPaths) := acc
  let (name, task) := e
  let source : Source := ⟨file, name, mount⟩
  match folderKey name with
  | some folder =>
    if folder = "" then .error (task.error "a folder needs a name before its '/'")
    else (folderFromCfg (TaskPath.join mount folder) task).map fun folder =>
      ({ config with folders := config.folders ++ [{ folder with source, at' := config.tasks.length }] }, taskPaths)
  | none =>
    let path := TaskPath.join mount name
    if path ∈ taskPaths then .error (.refused ("duplicate task path '" ++ path ++ "'"))
    else (taskFromCfg r path task cx).map fun task =>
      let deps := task.deps.map (mountDep mount)
      ({ config with tasks := config.tasks ++ [{ task with deps, source }] }, path :: taskPaths)

def loadTasks (r : TaskReader) (obj : CfgObj) (cx : CfgCx) (file mount : String) (acc : Config × List String) :
    CfgResult (Config × List String) :=
  match obj.get "tasks" with
  | none => .ok acc
  | some tasks => do
    let tasks ← tasks.asObj
    tasks.iter.foldlM (loadEntry r cx file mount) acc

def CfgObj.required (obj : CfgObj) (key : String) : CfgResult String :=
  match obj.get key with
  | some node => node.asStr
  | none => .error (.refused ("missing required field '" ++ key ++ "' at " ++ obj.path.display))

def parseLoadEntry (node : CfgNode) : CfgResult (String × String) :=
  match node.value.asStr with
  | some pattern => .ok (pattern, "")
  | none => do
    let obj ← node.asObj
    obj.knownKeys ["file", "at"]
    let file ← obj.required "file"
    let mount ← obj.default "at" CfgNode.asStr ""
    .ok (file, mount)

def validateMount (mount : String) (node : CfgNode) : CfgResult Unit :=
  if mount = "" then .ok ()
  else match TaskPath.new mount with
    | .ok _ => .ok ()
    | .error err => .error (node.error ("invalid load mount '" ++ mount ++ "': " ++ TaskPath.invalidPath err))

section

variable {σ : Type} (d : Disk σ)

/-- The files an entry under `load` names, with the path each is mounted at; the file it is in is not one. -/
def loadedFiles (path : FilePath) (mount : String) (entry : CfgNode) : CfgResult (List (FilePath × String)) := do
  let (pattern, childMount) ← parseLoadEntry entry
  let childMount := TaskPath.join mount childMount
  validateMount childMount entry
  let pattern := d.pattern path.dropLast (String.ofList (pattern.toList.map fun c => if c = '\\' then '/' else c))
  let found ← d.glob entry pattern
  if found = [] then .error (entry.error ("load pattern matched no files: " ++ pattern))
  else do
    let children ← (found.insertionSort (· ≤ ·)).mapM fun child => (d.canonicalize child).mapError CfgError.refused
    .ok ((children.filter (· ≠ path)).map (·, childMount))

def childFiles (obj : CfgObj) (path : FilePath) (mount : String) : CfgResult (List (FilePath × String)) :=
  match obj.get "load" with
  | none => .ok []
  | some load => do
    let entries ← load.asArr
    let files ← entries.mapM (loadedFiles d path mount)
    .ok files.flatten

/-- A file's keys once its `!js` values are evaluated. The keys come first, so a typo is named as one. -/
def readDoc (js : σ) (path : FilePath) (isRoot : Bool) : CfgResult (CfgObj × σ) := do
  let doc ← d.load path
  let obj ← (⟨doc, []⟩ : CfgNode).asObj
  let js ← if isRoot then do
      obj.knownKeys rootKeys
      d.readVars js doc path.dropLast
    else match obj.get "vars" with
      | some vars => .error (vars.error "'vars' are set in dekit.yaml, and a fragment reads them as ctx.vars")
      | none => (obj.knownKeys fragmentKeys).map fun _ => js
  let (doc, js) ← d.resolveKeys js doc path.dropLast isRoot
  let obj ← (⟨doc, []⟩ : CfgNode).asObj
  .ok (obj, js)

/-- A file as a task's source names it: from the root. -/
def fileName (root path : FilePath) : String :=
  if root.isPrefixOf path then "/".intercalate (path.drop root.length) else path.display

def readDefaults (r : TaskReader) (obj : CfgObj) (cx : CfgCx) (isRoot : Bool) (config : Config) : CfgResult Config :=
  if isRoot then (r.applyRoot obj cx).map fun defaults => { config with defaults } else .ok config

def readFile (r : TaskReader) (root : FilePath) (acc : Config × Load σ) (path : FilePath) (mount : String)
    (isRoot : Bool) :
    CfgResult (List (FilePath × String) × (Config × Load σ)) := do
  let (config, load) := acc
  let cx : CfgCx := ⟨FilePath.display path.dropLast⟩
  let (obj, js) ← readDoc d load.js path isRoot
  let config ← readDefaults r obj cx isRoot config
  let (config, taskPaths) ← loadTasks r obj cx (fileName root path) mount (config, load.taskPaths)
  let files ← childFiles d obj path mount
  .ok (files, (config, ⟨taskPaths, js⟩))

def inFile (path : FilePath) : CfgError → CfgError
  | .refused text => .refused ("in " ++ path.display ++ ": " ++ text)
  | .panicked => .panicked

def loadFile (r : TaskReader) (root : FilePath) (stack : List FilePath) (acc : Config × Load σ) (path : FilePath)
    (mount : String) (isRoot : Bool) : CfgResult (Config × Load σ) :=
  match _hfile : d.canonicalize path with
  | .error err => .error (.refused ("failed to load config " ++ path.display ++ ": " ++ err))
  | .ok file =>
    if isRoot = false ∧ file.getLast? = some "dekit.yaml" then
      .error (.refused (file.display ++ " is a project declaration, not a config fragment; use a name such as dekit.fragment.yaml"))
    else if root.isPrefixOf file = false then
      .error (.refused ("config fragment escapes the project root: " ++ file.display))
    else if _hstack : file ∈ stack then
      let cycle := stack.dropWhile (· ≠ file) ++ [file]
      .error (.refused ("config load cycle: " ++ " -> ".intercalate (cycle.map FilePath.display)))
    else
      match readFile d r root acc file mount isRoot with
      | .error err => .error (inFile file err)
      | .ok (files, acc) =>
        files.foldlM (fun acc child => loadFile r root (stack ++ [file]) acc child.1 child.2 false) acc
termination_by (d.paths.filter (· ∉ stack)).length
decreasing_by exact d.fewer_left _hfile _hstack

def taskAbove (taskPaths : List String) (path : String) : Option String :=
  ((TaskPath.beforeSlashes path.toList).map String.ofList).find? (· ∈ taskPaths)

def checkTask (taskPaths : List String) (task : TaskEntry) : CfgResult Unit :=
  match taskAbove taskPaths task.path with
  | some above =>
    .error (.refused ("a task can't have tasks under it: '" ++ task.path ++ "' is under '" ++ above ++ "'"))
  | none => .ok ()

def checkFolder (taskPaths : List String) (folders : List String) (folder : FolderConfig) : CfgResult (List String) :=
  let path := folder.path
  if path ∈ folders then .error (.refused ("duplicate folder '" ++ path ++ "/'"))
  else if path ∈ taskPaths then .error (.refused ("'" ++ path ++ "' is a task, so it can't be a folder too"))
  else match taskAbove taskPaths path with
    | some above =>
      .error (.refused ("a task can't have tasks under it: folder '" ++ path ++ "/' is under '" ++ above ++ "'"))
    | none => .ok (path :: folders)

def checkDefaults (config : Config) : CfgResult Unit :=
  if config.defaults.autorestart = some .always then
    match config.tasks.find? (fun task => task.kind = .job && task.autorestart.isNone) with
    | some job =>
      .error (.refused ("task '" ++ job.path ++ "' is a job and can't use 'autorestart: always' from defaults"))
    | none => .ok ()
  else .ok ()

def Disk.rootOf (root : FilePath) : FilePath :=
  match d.canonicalize root with
  | .ok root => root
  | .error _ => root

def Config.file (root : FilePath) : FilePath := d.rootOf root ++ ["dekit.yaml"]

def Config.load (r : TaskReader) (js : σ) (root : FilePath) : CfgResult Config :=
  if d.exists' (file d root) = false then .ok makeDefault
  else do
    let (config, load) ← loadFile d r (d.rootOf root) [] (makeDefault, ⟨[], js⟩) (file d root) "" true
    config.tasks.forM (checkTask load.taskPaths)
    let _ ← config.folders.foldlM (checkFolder load.taskPaths) []
    checkDefaults config
    .ok config

end

end Dekit
