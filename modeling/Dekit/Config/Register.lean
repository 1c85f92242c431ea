import Dekit.Config.Deps
import Dekit.Whole

/-! `config_tasks.rs`: a config's tasks and folders registered in the kernel. -/

namespace Dekit

def StopConfig.merged (base over' : StopConfig) : StopConfig where
  signal := over'.signal <|> base.signal
  timeout := over'.timeout <|> base.timeout

def TaskLogConfig.merged (base child : TaskLogConfig) : TaskLogConfig where
  enabled := child.enabled <|> base.enabled
  dir := child.dir <|> base.dir
  file := child.file <|> base.file
  mode := child.mode <|> base.mode

def TaskConfig.overlay (base over' : TaskConfig) : TaskConfig where
  label := over'.label <|> base.label
  cmd := over'.cmd <|> base.cmd
  deps := if over'.deps.isEmpty then base.deps else over'.deps
  tags := if over'.tags.isEmpty then base.tags else over'.tags
  -- `defaults` can't set `type`.
  kind := over'.kind
  ready := over'.ready <|> base.ready
  cwd := over'.cwd <|> base.cwd
  env := over'.env <|> base.env
  addPath := over'.addPath <|> base.addPath
  autostart := over'.autostart <|> base.autostart
  autorestart := over'.autorestart <|> base.autorestart
  stop := match over'.stop, base.stop with
    | some over', some base => some (base.merged over')
    | over', base => over' <|> base
  log := match over'.log, base.log with
    | some over', some base => some (base.merged over')
    | over', base => over' <|> base
  scrollbackLen := over'.scrollbackLen <|> base.scrollbackLen
  mouseScrollSpeed := over'.mouseScrollSpeed <|> base.mouseScrollSpeed

def configSpec (config : Config) (cfg : TaskEntry) : TaskSpec :=
  .fromConfig (config.defaults.overlay cfg.toTaskConfig)

inductive ConfigError
  | refused (text : String)
  | unfinished
  | panicked
  | failed (what : String) (err : RegisterError)

def DepError.toConfigError : DepError → ConfigError
  | .refused text => .refused text
  | .unfinished => .unfinished

/-- The ids that are allocated one after another, each once; others take ids in between. -/
structure TaskIds where
  id : ℕ → TaskId
  distinct : Function.Injective id
  allocated : ∀ n, id n ≠ initTaskId

/-- What a process task is made of, from its path and definition: how it is run, and its start. -/
abbrev Build (τ : Type) := Config → String → TaskSpec → Except String (TaskDef τ × (TaskId → τ))

section

variable {τ : Type} (build : Build τ)

def processTask (config : Config) (taskId : TaskId) (allocated : taskId ≠ initTaskId) (key : Option TaskKey)
    (spec : TaskSpec) : Except String (TaskRegistration τ) :=
  let path := match key with
    | some key => TaskPath.asStr key.path
    | none => ""
  (build config path spec).map fun (made, factory) =>
    { taskId, allocated, factory
      def' := { made with
        deps := []
        space := match key with
          | some key => key.space
          | none => TaskSpaceId.defaultSpace
        path := key.map TaskKey.path
        place := .last
        pinned := false
        savedPin := false
        origin := none } }

def configTaskRegistration (config : Config) (cfg : TaskEntry) (taskId : TaskId) (allocated : taskId ≠ initTaskId)
    (deps : List TaskSelector) (pinned : Bool) : Except ConfigError (TaskRegistration τ) :=
  let key := match TaskPath.new cfg.path with
    | .ok path => some (TaskKey.mk TaskSpaceId.defaultSpace path)
    | .error _ => none
  match processTask build config taskId allocated key (configSpec config cfg) with
  | .ok r => .ok { r with def' := { r.def' with deps, pinned, origin := cfg.source } }
  | .error err => .error (.refused ("task '" ++ cfg.path ++ "': " ++ err))

def resolveTaskDeps (tasks : List TaskEntry) (ids : TaskIds) : Except DepError (List (List TaskId)) :=
  (depIndexes tasks).map fun deps => deps.map fun is => is.map ids.id

/-- The registrations of entries, the task's from `i` on, the folders with the ids from `n` on. -/
def registrations (config : Config) (ids : TaskIds) (deps : List (List TaskId)) (pinAutostart : Bool) :
    List Entry → ℕ → ℕ → Except ConfigError (List (Registration τ))
  | [], _, _ => .ok []
  | .task _ :: rest, i, n =>
    match config.tasks[i]? with
    | none => .error .panicked
    | some cfg => do
      let r ← configTaskRegistration build config cfg (ids.id i) (ids.allocated i) ((deps.getD i []).map .id)
        (pinAutostart && cfg.autostart.getD false)
      let rs ← registrations config ids deps pinAutostart rest (i + 1) n
      .ok (.task r :: rs)
  | .folder folder :: rest, i, n =>
    match TaskPath.new folder.path with
    | .error err => .error (.refused (TaskPath.invalidPath err))
    | .ok path => do
      let rs ← registrations config ids deps pinAutostart rest i (n + 1)
      .ok (.folder ⟨ids.id n, TaskSpaceId.defaultSpace, path, .last, ⟨folder.collapsed, folder.source⟩⟩ :: rs)

/-- A registration for each config task and folder, in the config's order and with a fresh id. -/
def configRegistrations (config : Config) (ids : TaskIds) (pinAutostart : Bool) :
    Except ConfigError (List (Registration τ)) :=
  match resolveTaskDeps config.tasks ids with
  | .error err => .error err.toConfigError
  | .ok deps => registrations build config ids deps pinAutostart config.entries 0 config.tasks.length

def firstFailed : List Entry → List (Except RegisterError Unit) → Except ConfigError Unit
  | .task cfg :: _, .error err :: _ => .error (.failed ("task '" ++ cfg.path ++ "'") err)
  | .folder folder :: _, .error err :: _ => .error (.failed ("folder '" ++ folder.path ++ "/'") err)
  | _ :: entries, .ok () :: results => firstFailed entries results
  | [], _ | _ :: _, [] => .ok ()

def registerConfig [Task τ] (g : Graph τ) (sender : TaskId) (config : Config) (ids : TaskIds) (pinAutostart : Bool) :
    Graph τ × Except ConfigError Unit :=
  match configRegistrations build config ids pinAutostart with
  | .error err => (g, .error err)
  | .ok rs =>
    let (g, results) := g.registerTasksCommand sender rs
    (g, firstFailed config.entries results)

end

section

variable {τ : Type} {build : Build τ} {config : Config} {ids : TaskIds} {deps : List (List TaskId)} {pin : Bool}
  {entries : List Entry} {rs : List (Registration τ)} {i n : ℕ}

/-- What each entry is registered as. -/
inductive Registered (tasks : List TaskEntry) (ids : TaskIds) (deps : List (List TaskId)) :
    List Entry → ℕ → ℕ → List (Registration τ) → Prop
  | nil {i n : ℕ} : Registered tasks ids deps [] i n []
  | task {cfg : TaskEntry} {r : TaskRegistration τ} {path : TaskPath} {entries : List Entry}
      {rs : List (Registration τ)} {i n : ℕ} : tasks[i]? = some cfg → r.taskId = ids.id i →
      TaskPath.new cfg.path = .ok path → r.def'.deps = (deps.getD i []).map TaskSelector.id →
      r.def'.space = TaskSpaceId.defaultSpace → r.def'.path = some path → r.def'.place = .last →
      Registered tasks ids deps entries (i + 1) n rs →
      Registered tasks ids deps (.task cfg :: entries) i n (.task r :: rs)
  | folder {cfg : FolderConfig} {path : TaskPath} {settings : FolderSettings} {entries : List Entry}
      {rs : List (Registration τ)} {i n : ℕ} : TaskPath.new cfg.path = .ok path →
      Registered tasks ids deps entries i (n + 1) rs →
      Registered tasks ids deps (.folder cfg :: entries) i n
        (.folder ⟨ids.id n, TaskSpaceId.defaultSpace, path, .last, settings⟩ :: rs)

theorem configTaskRegistration_ok (config : Config)
    (hbuild : ∀ config path spec, ∃ made, build config path spec = .ok made)
    {cfg : TaskEntry} {path : TaskPath} (hpath : TaskPath.new cfg.path = .ok path) (taskId : TaskId)
    (allocated : taskId ≠ initTaskId) (deps : List TaskSelector) (pinned : Bool) :
    ∃ r, configTaskRegistration build config cfg taskId allocated deps pinned = .ok r ∧ r.taskId = taskId ∧
      r.def'.deps = deps ∧ r.def'.space = TaskSpaceId.defaultSpace ∧ r.def'.path = some path ∧
        r.def'.place = .last := by
  obtain ⟨⟨made, factory⟩, hmade⟩ := hbuild config (TaskPath.asStr path) (configSpec config cfg)
  unfold configTaskRegistration processTask
  rw [hpath]
  simp only [hmade, Except.map]
  exact ⟨_, rfl, rfl, rfl, rfl, rfl, rfl⟩

theorem registrations_ok (hbuild : ∀ config path spec, ∃ made, build config path spec = .ok made)
    (hentries : entries.filterMap Config.task? = config.tasks.drop i)
    (hpaths : ∀ e ∈ entries, ∃ path, TaskPath.new e.path = .ok path) :
    ∃ rs, registrations build config ids deps pin entries i n = .ok rs ∧
      Registered config.tasks ids deps entries i n rs := by
  induction entries generalizing i n with
  | nil => exact ⟨[], rfl, .nil⟩
  | cons e entries ih =>
    obtain ⟨⟨path, hpath⟩, hrest⟩ := List.forall_mem_cons.mp hpaths
    cases e with
    | task cfg =>
      have hcons : cfg :: entries.filterMap Config.task? = config.tasks.drop i := hentries
      have hi : i < config.tasks.length := by
        by_contra hge
        rw [List.drop_eq_nil_of_le (by omega)] at hcons
        cases hcons
      rw [List.drop_eq_getElem_cons hi] at hcons
      obtain ⟨hcfg, htail⟩ := List.cons.inj hcons
      have hget : config.tasks[i]? = some cfg := by rw [List.getElem?_eq_getElem hi, hcfg]
      obtain ⟨rs, hrs, hreg⟩ := ih (n := n) htail hrest
      obtain ⟨r, hr, hid, hdeps, hspace, hat, hplace⟩ := configTaskRegistration_ok config hbuild hpath (ids.id i)
        (ids.allocated i) ((deps.getD i []).map TaskSelector.id) (pin && cfg.autostart.getD false)
      refine ⟨.task r :: rs, ?_, .task hget hid hpath hdeps hspace hat hplace hreg⟩
      rw [registrations, hget]
      simp only [hr, hrs]
      rfl
    | folder cfg =>
      obtain ⟨rs, hrs, hreg⟩ := ih (n := n + 1) hentries hrest
      refine ⟨.folder ⟨ids.id n, TaskSpaceId.defaultSpace, path, .last, ⟨cfg.collapsed, cfg.source⟩⟩ :: rs, ?_,
        .folder hpath hreg⟩
      rw [registrations, show TaskPath.new cfg.path = _ from hpath]
      simp only [hrs]
      rfl

end

end Dekit
