import Dekit.Config.Declared

/-! What a config that loads is spared: tasks under tasks, and two entries at one path. -/

namespace Dekit

def Under (above path : String) : Prop := ∃ rest, path.toList = above.toList ++ '/' :: rest

theorem taskAbove_ne_none {above path : String} {taskPaths : List String} (h : Under above path)
    (hin : above ∈ taskPaths) :
    taskAbove taskPaths path ≠ none := by
  obtain ⟨rest, hpath⟩ := h
  intro hnone
  unfold taskAbove at hnone
  refine List.find?_eq_none.mp hnone above (List.mem_map.mpr ⟨above.toList, ?_, String.ofList_toList⟩)
    (by simpa using hin)
  rw [hpath]
  exact TaskPath.mem_beforeSlashes

namespace Decl

def path : Decl → String
  | task path _ => path
  | folder path => path

def taskPath? : Decl → Option String
  | task path _ => some path
  | folder _ => none

def folderPath? : Decl → Option String
  | task _ _ => none
  | folder path => some path

end Decl

/-- Two of these stand in each other's way. -/
inductive Conflict (decls : List Decl) : Prop
  | taskTwice : ¬ (decls.filterMap Decl.taskPath?).Nodup → Conflict decls
  | folderTwice : ¬ (decls.filterMap Decl.folderPath?).Nodup → Conflict decls
  | both {path : String} {deps : List String} : .task path deps ∈ decls → .folder path ∈ decls → Conflict decls
  | under {above : String} {deps : List String} {e : Decl} :
      .task above deps ∈ decls → e ∈ decls → Under above e.path → Conflict decls

namespace Config

variable {c : Config} {e : Entry}

def task? : Entry → Option TaskEntry
  | .task cfg => some cfg
  | .folder _ => none

def folder? : Entry → Option FolderConfig
  | .task _ => none
  | .folder cfg => some cfg

theorem entries_go_split (tasks : List TaskEntry) (folders : List FolderConfig) (i : ℕ) :
    (entries.go tasks folders i).filterMap task? = tasks ∧
    (entries.go tasks folders i).filterMap folder? = folders := by
  have hnone (folders : List FolderConfig) : (folders.map Entry.folder).filterMap task? = [] :=
    List.filterMap_eq_nil_iff.mpr fun e he => by
      obtain ⟨_, -, rfl⟩ := List.mem_map.mp he
      rfl
  have hall (folders : List FolderConfig) : (folders.map Entry.folder).filterMap folder? = folders := by
    rw [List.filterMap_map]
    exact List.filterMap_some
  induction tasks generalizing folders i with
  | nil => exact ⟨hnone folders, hall folders⟩
  | cons task tasks ih =>
    obtain ⟨htasks, hfolders⟩ := ih (folders.dropWhile (·.at' ≤ i)) (i + 1)
    rw [entries.go]
    constructor
    · rw [List.filterMap_append, hnone, List.filterMap_cons]
      simp only [task?, htasks, List.nil_append]
    · rw [List.filterMap_append, hall, List.filterMap_cons]
      simp only [folder?, hfolders]
      exact List.takeWhile_append_dropWhile

theorem entries_tasks (c : Config) : c.entries.filterMap task? = c.tasks := (entries_go_split _ _ _).1

theorem entries_folders (c : Config) : c.entries.filterMap folder? = c.folders := (entries_go_split _ _ _).2

theorem mem_tasks {t : TaskEntry} (h : .task t ∈ c.entries) : t ∈ c.tasks := by
  rw [← c.entries_tasks]
  exact List.mem_filterMap.mpr ⟨_, h, rfl⟩

theorem mem_folders {f : FolderConfig} (h : .folder f ∈ c.entries) : f ∈ c.folders := by
  rw [← c.entries_folders]
  exact List.mem_filterMap.mpr ⟨_, h, rfl⟩

theorem decls_tasks (c : Config) : c.decls.filterMap Decl.taskPath? = c.tasks.map TaskEntry.path := by
  conv_rhs => rw [← c.entries_tasks]
  unfold decls
  rw [List.filterMap_map, List.map_filterMap]
  refine List.filterMap_congr fun e _ => ?_
  cases e <;> rfl

theorem decls_folders (c : Config) : c.decls.filterMap Decl.folderPath? = c.folders.map FolderConfig.path := by
  conv_rhs => rw [← c.entries_folders]
  unfold decls
  rw [List.filterMap_map, List.map_filterMap]
  refine List.filterMap_congr fun e _ => ?_
  cases e <;> rfl

theorem mem_decls_task {path : String} {deps : List String} :
    .task path deps ∈ c.decls ↔ ∃ t ∈ c.tasks, t.path = path ∧ t.deps = deps := by
  conv_rhs => rw [← c.entries_tasks]
  unfold decls
  rw [List.mem_map]
  constructor
  · rintro ⟨e, he, hdecl⟩
    cases e with
    | task t =>
      obtain ⟨rfl, rfl⟩ := Decl.task.inj hdecl
      exact ⟨t, List.mem_filterMap.mpr ⟨_, he, rfl⟩, rfl, rfl⟩
    | folder f => cases hdecl
  · rintro ⟨t, ht, rfl, rfl⟩
    obtain ⟨e, he, htask⟩ := List.mem_filterMap.mp ht
    cases e with
    | task t' =>
      obtain rfl := Option.some.inj htask
      exact ⟨_, he, rfl⟩
    | folder f => cases htask

theorem mem_decls_folder {path : String} : .folder path ∈ c.decls ↔ ∃ f ∈ c.folders, f.path = path := by
  have hiff : Decl.folder path ∈ c.decls ↔ path ∈ c.decls.filterMap Decl.folderPath? := by
    rw [List.mem_filterMap]
    constructor
    · exact fun h => ⟨_, h, rfl⟩
    · rintro ⟨e, he, hpath⟩
      cases e with
      | task path deps => cases hpath
      | folder path' =>
        obtain rfl := Option.some.inj hpath
        exact he
  rw [hiff, decls_folders, List.mem_map]

theorem checkFolders_ok {taskPaths seen seen' : List String} {folders : List FolderConfig} (hseen : seen.Nodup)
    (h : folders.foldlM (checkFolder taskPaths) seen = .ok seen') :
    (∀ f ∈ folders, f.path ∉ taskPaths ∧ taskAbove taskPaths f.path = none) ∧
      (folders.map FolderConfig.path).Nodup ∧ ∀ f ∈ folders, f.path ∉ seen := by
  induction folders generalizing seen with
  | nil => simp
  | cons f folders ih =>
    obtain ⟨seen₁, hstep, hrest⟩ := Result.foldlM_cons_ok.mp h
    unfold checkFolder at hstep
    simp only at hstep
    split at hstep
    · cases hstep
    rename_i hnew
    split at hstep
    · cases hstep
    rename_i htask
    cases habove : taskAbove taskPaths f.path with
    | some above => rw [habove] at hstep; cases hstep
    | none =>
      rw [habove] at hstep
      obtain rfl := Except.ok.inj hstep
      obtain ⟨hall, hnodup, hfresh⟩ := ih (List.nodup_cons.mpr ⟨hnew, hseen⟩) hrest
      refine ⟨List.forall_mem_cons.mpr ⟨⟨htask, habove⟩, hall⟩, List.nodup_cons.mpr ⟨fun hin => ?_, hnodup⟩,
        List.forall_mem_cons.mpr ⟨hnew, fun f' hf' hin => hfresh f' hf' (List.mem_cons_of_mem _ hin)⟩⟩
      obtain ⟨f', hf', hpath⟩ := List.mem_map.mp hin
      exact hfresh f' hf' (hpath ▸ List.mem_cons_self)

variable {σ : Type} {d : Disk σ} {r : TaskReader} {js : σ} {root : FilePath}

def Declares (d : Disk σ) (js : σ) (root : FilePath) (decls : List Decl) : Prop :=
  if d.exists' (file d root) then ∃ js', Dekit.Declares d js true [(file d root, "")] decls js' else decls = []

theorem Declares.unique {decls decls' : List Decl} (h : Declares d js root decls) (h' : Declares d js root decls') :
    decls = decls' := by
  unfold Declares at h h'
  split at h
  · rename_i hex
    rw [if_pos hex] at h'
    obtain ⟨_, h⟩ := h
    obtain ⟨_, h'⟩ := h'
    exact (Dekit.Declares.unique h h').1
  · rename_i hex
    rw [if_neg hex] at h'
    rw [h, h']

theorem load_ok (h : Config.load d r js root = .ok c) :
    Declares d js root c.decls ∧ ¬ Conflict c.decls ∧ ∀ e ∈ c.entries, ∃ p, TaskPath.new e.path = .ok p := by
  unfold load at h
  unfold Declares
  split at h
  · rename_i hex
    obtain rfl := Except.ok.inj h
    rw [if_neg (by simp [hex])]
    have hempty : makeDefault.decls = [] := rfl
    refine ⟨hempty, ?_, fun e he => by cases he⟩
    rw [hempty]
    intro hconflict
    cases hconflict with
    | taskTwice h => exact h List.nodup_nil
    | folderTwice h => exact h List.nodup_nil
    | both h _ => cases h
    | under h _ _ => cases h
  rename_i hex
  rw [if_pos (by simpa using hex)]
  obtain ⟨⟨c', load⟩, hload, h⟩ := Result.bind_ok.mp h
  obtain ⟨_, htasks, h⟩ := Result.bind_ok.mp h
  obtain ⟨_, hfolders, h⟩ := Result.bind_ok.mp h
  obtain ⟨_, -, h⟩ := Result.bind_ok.mp h
  obtain rfl := Except.ok.inj h
  have hstart : Underway (makeDefault, (⟨[], js⟩ : Load σ)) := by
    refine ⟨?_, ?_, List.nodup_nil, ?_, ?_⟩
    all_goals simp [makeDefault, InOrder]
  obtain ⟨hdone, decls, hdeclares, hdecls⟩ := hstart.loadFile hload
  have hdone : Loading c' load.taskPaths := hdone
  obtain rfl : c'.decls = decls := hdecls
  have hcheck := Result.forM_ok.mp htasks
  obtain ⟨hfolder, hnodup, -⟩ := checkFolders_ok List.nodup_nil hfolders
  have habove {path : String} {deps : List String} (ht : Decl.task path deps ∈ c'.decls) : path ∈ load.taskPaths := by
    obtain ⟨t, hin, rfl, -⟩ := mem_decls_task.mp ht
    exact (hdone.paths _).mpr (List.mem_map_of_mem hin)
  refine ⟨⟨_, hdeclares⟩, ?_, fun e he => ?_⟩
  · intro hconflict
    cases hconflict with
    | taskTwice h => exact h (by rw [decls_tasks]; exact hdone.nodup)
    | folderTwice h => exact h (by rw [decls_folders]; exact hnodup)
    | both ht hf =>
      obtain ⟨f, hin, rfl⟩ := mem_decls_folder.mp hf
      exact (hfolder f hin).1 (habove ht)
    | @under above deps e ht he hunder =>
      have hsome := taskAbove_ne_none hunder (habove ht)
      cases e with
      | task path deps =>
        obtain ⟨t, hin, rfl, -⟩ := mem_decls_task.mp he
        have hok := hcheck t hin
        unfold checkTask at hok
        cases hnone : taskAbove load.taskPaths t.path with
        | none => exact hsome hnone
        | some above => rw [hnone] at hok; cases hok
      | folder path =>
        obtain ⟨f, hin, rfl⟩ := mem_decls_folder.mp he
        exact hsome (hfolder f hin).2
  · cases e with
    | task t => exact hdone.tasks t (mem_tasks he)
    | folder f => exact hdone.folders f (mem_folders he)

end Config

end Dekit
