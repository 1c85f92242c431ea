import Mathlib.Data.List.TakeWhile
import Dekit.Config.Load
import Dekit.Lib.Result

/-! What the files of a config declare, and that a config that loads has just that. -/

namespace Dekit

inductive Decl
  | task (path : String) (deps : List String)
  | folder (path : String)

namespace Config

/-- No folder stands behind more tasks than there are. -/
def InOrder (c : Config) : Prop := ∀ f ∈ c.folders, f.at' ≤ c.tasks.length

variable {c : Config}

theorem entries_go_folder {f : FolderConfig} (tasks : List TaskEntry) (folders : List FolderConfig) {i : ℕ}
    (hf : i + tasks.length ≤ f.at') :
    entries.go tasks (folders ++ [f]) i = entries.go tasks folders i ++ [.folder f] := by
  induction tasks generalizing folders i with
  | nil => simp [entries.go]
  | cons task tasks ih =>
    have hlt : ¬ f.at' ≤ i := by
      simp only [List.length_cons] at hf
      omega
    have htake : (folders ++ [f]).takeWhile (·.at' ≤ i) = folders.takeWhile (·.at' ≤ i) := by
      rw [List.takeWhile_append]
      split
      · rename_i hall
        rw [List.takeWhile_cons_of_neg (by simpa using hlt), List.append_nil]
        exact ((List.takeWhile_prefix _).eq_of_length hall).symm
      · rfl
    have hdrop : (folders ++ [f]).dropWhile (·.at' ≤ i) = folders.dropWhile (·.at' ≤ i) ++ [f] := by
      rw [List.dropWhile_append]
      split
      · rename_i hempty
        rw [List.dropWhile_cons_of_neg (by simpa using hlt), List.isEmpty_iff.mp hempty, List.nil_append]
      · rfl
    rw [entries.go, entries.go, htake, hdrop, ih _ (by simp only [List.length_cons] at hf; omega)]
    simp

theorem entries_go_task {t : TaskEntry} (tasks : List TaskEntry) (folders : List FolderConfig) {i : ℕ}
    (hall : ∀ f ∈ folders, f.at' ≤ i + tasks.length) :
    entries.go (tasks ++ [t]) folders i = entries.go tasks folders i ++ [.task t] := by
  induction tasks generalizing folders i with
  | nil =>
    have htake : folders.takeWhile (·.at' ≤ i) = folders :=
      List.takeWhile_eq_self_iff.mpr fun f hf => by simpa using hall f hf
    have hdrop : folders.dropWhile (·.at' ≤ i) = [] :=
      List.dropWhile_eq_nil_iff.mpr fun f hf => by simpa using hall f hf
    simp only [List.nil_append, entries.go, htake, hdrop, List.map_nil]
  | cons task tasks ih =>
    rw [List.cons_append, entries.go, entries.go, ih]
    · simp
    · intro f hf
      have hle := hall f ((List.dropWhile_sublist _).subset hf)
      simp only [List.length_cons] at hle
      omega

theorem entries_folder (f : FolderConfig) (hf : f.at' = c.tasks.length) :
    ({ c with folders := c.folders ++ [f] } : Config).entries = c.entries ++ [.folder f] :=
  entries_go_folder _ _ (by simp [hf])

theorem entries_task (t : TaskEntry) (h : c.InOrder) :
    ({ c with tasks := c.tasks ++ [t] } : Config).entries = c.entries ++ [.task t] :=
  entries_go_task _ _ fun f hf => by simpa using h f hf

end Config

def Entry.decl : Entry → Decl
  | .task cfg => .task cfg.path cfg.deps
  | .folder cfg => .folder cfg.path

def Config.decls (c : Config) : List Decl := c.entries.map Entry.decl

/-- What an entry under the `tasks` of a file at a mount declares. -/
def declOf (mount : String) (e : String × CfgNode) : Decl :=
  match folderKey e.1 with
  | some folder => .folder (TaskPath.join mount folder)
  | none =>
    let deps := match e.2.asObj.bind taskDeps with
      | .ok deps => deps
      | .error _ => []
    .task (TaskPath.join mount e.1) (deps.map (mountDep mount))

def fileDecls (obj : CfgObj) (mount : String) : List Decl :=
  match obj.get "tasks" with
  | none => []
  | some tasks => match tasks.asObj with
    | .ok tasks => tasks.iter.map (declOf mount)
    | .error _ => []

section

variable {σ : Type} (d : Disk σ)

/-- What the files declare, each with the files that it loads, and what is left of the scope. -/
inductive Declares : σ → Bool → List (FilePath × String) → List Decl → σ → Prop
  | nil {js : σ} {isRoot : Bool} : Declares js isRoot [] [] js
  | cons {js js' js₁ js₂ : σ} {isRoot : Bool} {path file : FilePath} {mount : String}
    {rest files : List (FilePath × String)}
      {obj : CfgObj} {below after : List Decl} :
      d.canonicalize path = .ok file → readDoc d js file isRoot = .ok (obj, js') →
      childFiles d obj file mount = .ok files → Declares js' false files below js₁ →
      Declares js₁ isRoot rest after js₂ →
      Declares js isRoot ((path, mount) :: rest) (fileDecls obj mount ++ below ++ after) js₂

variable {d} {js js₁ js₂ : σ} {isRoot : Bool} {todo : List (FilePath × String)} {decls decls' : List Decl}

theorem Declares.append {child : FilePath × String} (h : Declares d js isRoot [child] decls js₁)
    (h' : Declares d js₁ isRoot todo decls' js₂) : Declares d js isRoot (child :: todo) (decls ++ decls') js₂ := by
  cases h with
  | cons hfile hdoc hfiles hbelow hafter =>
    cases hafter
    rw [List.append_nil]
    exact .cons hfile hdoc hfiles hbelow h'

theorem Declares.unique (h : Declares d js isRoot todo decls js₁) (h' : Declares d js isRoot todo decls' js₂) :
    decls = decls' ∧ js₁ = js₂ := by
  induction h generalizing decls' js₂ with
  | nil => cases h'; exact ⟨rfl, rfl⟩
  | cons hfile hdoc hfiles _ _ ihbelow ihafter =>
    cases h' with
    | cons hfile' hdoc' hfiles' hbelow' hafter' =>
      obtain rfl := Except.ok.inj (hfile.symm.trans hfile')
      obtain ⟨rfl, rfl⟩ := Prod.mk.inj (Except.ok.inj (hdoc.symm.trans hdoc'))
      obtain rfl := Except.ok.inj (hfiles.symm.trans hfiles')
      obtain ⟨rfl, rfl⟩ := ihbelow hbelow'
      obtain ⟨rfl, rfl⟩ := ihafter hafter'
      exact ⟨rfl, rfl⟩

end

/-- What holds of a config while it is loaded, with the paths of its tasks so far. -/
structure Loading (c : Config) (taskPaths : List String) : Prop where
  inOrder : c.InOrder
  paths : ∀ s, s ∈ taskPaths ↔ s ∈ c.tasks.map TaskEntry.path
  nodup : (c.tasks.map TaskEntry.path).Nodup
  tasks : ∀ t ∈ c.tasks, ∃ p, TaskPath.new t.path = .ok p
  folders : ∀ f ∈ c.folders, ∃ p, TaskPath.new f.path = .ok p

section

variable {c : Config} {taskPaths : List String} {acc : Config × List String} {r : TaskReader} {cx : CfgCx}
  {file mount path : String} {e : String × CfgNode} {node : CfgNode}

theorem folderFromCfg_ok {f : FolderConfig} (h : folderFromCfg path node = .ok f) :
    f.path = path ∧ ∃ p, TaskPath.new path = .ok p := by
  unfold folderFromCfg at h
  cases hp : TaskPath.new path with
  | error err => rw [hp] at h; cases h
  | ok p =>
    rw [hp] at h
    refine ⟨?_, p, rfl⟩
    simp only at h
    split at h
    · rw [← Except.ok.inj h]
    · obtain ⟨_, -, h⟩ := Result.bind_ok.mp h
      obtain ⟨_, -, h⟩ := Result.bind_ok.mp h
      obtain ⟨_, -, h⟩ := Result.bind_ok.mp h
      rw [← Except.ok.inj h]

theorem taskFromCfg_ok {t : TaskEntry} (h : taskFromCfg r path node cx = .ok t) :
    t.path = path ∧ (∃ p, TaskPath.new path = .ok p) ∧ node.asObj.bind taskDeps = .ok t.deps := by
  unfold taskFromCfg at h
  obtain ⟨obj, hobj, h⟩ := Result.bind_ok.mp h
  obtain ⟨_, -, h⟩ := Result.bind_ok.mp h
  cases hp : TaskPath.new path with
  | error err => rw [hp] at h; cases h
  | ok p =>
    rw [hp] at h
    obtain ⟨_, -, h⟩ := Result.bind_ok.mp h
    obtain ⟨deps, hdeps, h⟩ := Result.bind_ok.mp h
    obtain ⟨_, -, h⟩ := Result.bind_ok.mp h
    obtain rfl := Except.ok.inj h
    exact ⟨rfl, ⟨p, rfl⟩, by rw [hobj]; exact hdeps⟩

theorem Loading.folder (h : Loading c taskPaths) {f : FolderConfig} (hf : f.at' = c.tasks.length)
    (hp : ∃ p, TaskPath.new f.path = .ok p) : Loading { c with folders := c.folders ++ [f] } taskPaths := by
  refine ⟨fun f' hf' => ?_, h.paths, h.nodup, h.tasks, fun f' hf' => ?_⟩
  all_goals rcases List.mem_append.mp hf' with hf' | hf'
  · exact h.inOrder f' hf'
  · rw [List.mem_singleton.mp hf', hf]
  · exact h.folders f' hf'
  · rwa [List.mem_singleton.mp hf']

theorem Loading.task (h : Loading c taskPaths) {t : TaskEntry} (ht : t.path ∉ taskPaths)
    (hp : ∃ p, TaskPath.new t.path = .ok p) : Loading { c with tasks := c.tasks ++ [t] } (t.path :: taskPaths) := by
  refine ⟨fun f hf => ?_, fun s => ?_, ?_, fun t' ht' => ?_, h.folders⟩
  · have hle := h.inOrder f hf
    simp only [List.length_append, List.length_singleton]
    omega
  · simp only [List.mem_cons, List.map_append, List.mem_append, h.paths]
    simp [or_comm]
  · simp only [List.map_append]
    refine List.nodup_append.mpr ⟨h.nodup, List.nodup_singleton _, fun s hs s' hs' he => ?_⟩
    subst he
    rw [List.mem_singleton.mp hs'] at hs
    exact ht ((h.paths _).mpr hs)
  · rcases List.mem_append.mp ht' with ht' | ht'
    · exact h.tasks t' ht'
    · rwa [List.mem_singleton.mp ht']

theorem Loading.loadEntry (h : Loading acc.1 acc.2) {acc' : Config × List String}
    (hok : loadEntry r cx file mount acc e = .ok acc') :
    Loading acc'.1 acc'.2 ∧ acc'.1.decls = acc.1.decls ++ [declOf mount e] := by
  obtain ⟨c, taskPaths⟩ := acc
  obtain ⟨name, node⟩ := e
  unfold Dekit.loadEntry at hok
  unfold declOf
  simp only at hok h ⊢
  cases hkey : folderKey name with
  | some folder =>
    rw [hkey] at hok
    simp only at hok ⊢
    split at hok
    · cases hok
    · obtain ⟨f, hf, rfl⟩ := Result.map_ok.mp hok
      obtain ⟨hpath, hp⟩ := folderFromCfg_ok hf
      refine ⟨h.folder rfl (by simpa [hpath] using hp), ?_⟩
      unfold Config.decls
      simp only
      rw [Config.entries_folder _ rfl, List.map_append]
      simp [Entry.decl, hpath]
  | none =>
    rw [hkey] at hok
    simp only at hok ⊢
    split at hok
    · cases hok
    · rename_i hnew
      obtain ⟨t, ht, rfl⟩ := Result.map_ok.mp hok
      obtain ⟨hpath, hp, hdeps⟩ := taskFromCfg_ok ht
      rw [hdeps]
      rw [← hpath] at hnew hp ⊢
      refine ⟨h.task hnew hp, ?_⟩
      unfold Config.decls
      simp only
      rw [Config.entries_task _ h.inOrder, List.map_append]
      rfl

theorem Loading.loadTasks (h : Loading acc.1 acc.2) {obj : CfgObj} {acc' : Config × List String}
    (hok : loadTasks r obj cx file mount acc = .ok acc') :
    Loading acc'.1 acc'.2 ∧ acc'.1.decls = acc.1.decls ++ fileDecls obj mount := by
  unfold Dekit.loadTasks at hok
  unfold fileDecls
  cases htasks : obj.get "tasks" with
  | none =>
    rw [htasks] at hok
    obtain rfl := Except.ok.inj hok
    exact ⟨h, (List.append_nil _).symm⟩
  | some tasks =>
    rw [htasks] at hok
    obtain ⟨tasks', hobj, hfold⟩ := Result.bind_ok.mp hok
    clear hok
    simp only [hobj]
    generalize tasks'.iter = entries at hfold
    induction entries generalizing acc with
    | nil =>
      obtain rfl := Result.foldlM_nil_ok.mp hfold
      exact ⟨h, (List.append_nil _).symm⟩
    | cons e entries ih =>
      obtain ⟨acc₁, hstep, hrest⟩ := Result.foldlM_cons_ok.mp hfold
      obtain ⟨h₁, hdecls₁⟩ := h.loadEntry hstep
      obtain ⟨h', hdecls'⟩ := ih h₁ hrest
      exact ⟨h', by rw [hdecls', hdecls₁, List.append_assoc]; rfl⟩

end

section

variable {σ : Type} {d : Disk σ} {r : TaskReader} {root : FilePath} {path file : FilePath} {mount : String}
    {isRoot : Bool}

def Underway (acc : Config × Load σ) : Prop := Loading acc.1 acc.2.taskPaths

theorem Underway.readFile {acc acc' : Config × Load σ} (h : Underway acc) {files : List (FilePath × String)}
    (hok : readFile d r root acc path mount isRoot = .ok (files, acc')) :
    Underway acc' ∧ ∃ obj, readDoc d acc.2.js path isRoot = .ok (obj, acc'.2.js) ∧
      childFiles d obj path mount = .ok files ∧ acc'.1.decls = acc.1.decls ++ fileDecls obj mount := by
  obtain ⟨c, load⟩ := acc
  unfold Dekit.readFile at hok
  simp only at hok
  obtain ⟨⟨obj, js⟩, hdoc, hok⟩ := Result.bind_ok.mp hok
  obtain ⟨c₁, hroot, hok⟩ := Result.bind_ok.mp hok
  obtain ⟨⟨c₂, taskPaths⟩, htasks, hok⟩ := Result.bind_ok.mp hok
  obtain ⟨files', hfiles, hok⟩ := Result.bind_ok.mp hok
  obtain ⟨rfl, rfl⟩ := Prod.mk.inj (Except.ok.inj hok)
  have hstart : Loading c₁ load.taskPaths ∧ c₁.decls = c.decls := by
    unfold readDefaults at hroot
    split at hroot
    · obtain ⟨defaults, -, rfl⟩ := Result.map_ok.mp hroot
      exact ⟨⟨h.inOrder, h.paths, h.nodup, h.tasks, h.folders⟩, rfl⟩
    · obtain rfl := Except.ok.inj hroot
      exact ⟨h, rfl⟩
  have hloading : Loading (c₁, load.taskPaths).1 (c₁, load.taskPaths).2 := hstart.1
  obtain ⟨h₂, hdecls⟩ := hloading.loadTasks htasks
  exact ⟨h₂, obj, hdoc, hfiles, by rw [hdecls, hstart.2]⟩

theorem Underway.loadFile {stack : List FilePath} {acc acc' : Config × Load σ} (h : Underway acc)
    (hok : loadFile d r root stack acc path mount isRoot = .ok acc') : Underway acc' ∧ ∃ decls,
      Declares d acc.2.js isRoot [(path, mount)] decls acc'.2.js ∧ acc'.1.decls = acc.1.decls ++ decls := by
  induction hn : (d.paths.filter (· ∉ stack)).length using Nat.strong_induction_on
    generalizing stack acc acc' path mount isRoot with
  | h n ih =>
    rw [Dekit.loadFile] at hok
    split at hok
    · cases hok
    rename_i file hfile
    split at hok
    · cases hok
    split at hok
    · cases hok
    split at hok
    · cases hok
    rename_i hstack
    split at hok
    · cases hok
    rename_i files acc₁ hread
    obtain ⟨h₁, obj, hdoc, hfiles, hdecls₁⟩ := h.readFile hread
    have hbelow (acc acc' : Config × Load σ) (path : FilePath) (mount : String) (h : Underway acc)
        (hok : Dekit.loadFile d r root (stack ++ [file]) acc path mount false = .ok acc') := by
      refine ih _ ?_ h hok rfl
      rw [← hn]
      exact d.fewer_left hfile hstack
    have hrest : ∀ (files : List (FilePath × String)) (acc acc' : Config × Load σ), Underway acc →
        files.foldlM (fun acc child => Dekit.loadFile d r root (stack ++ [file]) acc child.1 child.2 false) acc =
          .ok acc' →
        Underway acc' ∧ ∃ decls, Declares d acc.2.js false files decls acc'.2.js ∧
          acc'.1.decls = acc.1.decls ++ decls := by
      intro files
      induction files with
      | nil =>
        intro acc acc' h hok
        obtain rfl := Result.foldlM_nil_ok.mp hok
        exact ⟨h, [], .nil, (List.append_nil _).symm⟩
      | cons child files ihfiles =>
        intro acc acc' h hok
        obtain ⟨acc₁, hchild, hok⟩ := Result.foldlM_cons_ok.mp hok
        obtain ⟨h₁, decls, hd, hdecls⟩ := hbelow _ _ _ _ h hchild
        obtain ⟨h', rest, hr, hrest⟩ := ihfiles _ _ h₁ hok
        refine ⟨h', decls ++ rest, hd.append hr, ?_⟩
        rw [hrest, hdecls, List.append_assoc]
    obtain ⟨h', below, hd, hdecls⟩ := hrest files acc₁ acc' h₁ hok
    refine ⟨h', fileDecls obj mount ++ below ++ [], .cons hfile hdoc hfiles hd .nil, ?_⟩
    rw [hdecls, hdecls₁, List.append_nil, List.append_assoc]

end

end Dekit
