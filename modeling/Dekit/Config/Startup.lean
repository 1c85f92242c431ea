import Dekit.Config.Fitting

/-! A config that loads is registered whole, and one that is at odds with itself not at all. -/

namespace Dekit

section

variable {τ : Type} [Task τ] {g : Graph τ} {c : Config} {ids : TaskIds} {needs : List (List ℕ)}
    {rs : List (Registration τ)}

theorem zipResults_none {α : Type} (rs : List α) (registered : List (Except RegisterError Unit))
    (h : registered.length = rs.length) : Graph.zipResults (rs.map fun _ => none) registered = registered := by
  induction rs generalizing registered with
  | nil =>
    obtain rfl := List.length_eq_zero_iff.mp h
    rfl
  | cons a rs ih =>
    cases registered with
    | nil => cases h
    | cons result registered =>
      rw [List.map_cons, Graph.zipResults, ih registered (Nat.succ.inj h)]

theorem registerTasksCommand_plain (h : ∀ r ∈ rs, r.space = TaskSpaceId.defaultSpace) (sender : TaskId)
    (hlen : (g.registerTasks (Graph.plain rs)).2.length = rs.length) :
    g.registerTasksCommand sender rs = g.registerTasks (Graph.plain rs) := by
  have hcan (r : Registration τ) (hr : r ∈ rs) : g.canRegister sender r.space = true := by
    rw [h r hr]
    rfl
  have hrefused : (rs.map fun r => if g.canRegister sender r.space then none else some (RegisterError.reservedSpace r.space)) =
      rs.map fun _ => none := List.map_congr_left fun r hr => if_pos (hcan r hr)
  unfold Graph.registerTasksCommand
  simp only
  rw [hrefused, List.filter_eq_self.mpr hcan]
  change ((g.registerTasks (Graph.plain rs)).1, Graph.zipResults _ (g.registerTasks (Graph.plain rs)).2) = _
  rw [zipResults_none rs _ hlen]

theorem firstFailed_ok (entries : List Entry) {α : Type} (rs : List α) :
    firstFailed entries (rs.map fun _ => .ok ()) = .ok () := by
  induction entries generalizing rs with
  | nil => rfl
  | cons e entries ih =>
    cases rs with
    | nil => cases e <;> rfl
    | cons r rs =>
      rw [List.map_cons, firstFailed]
      exact ih rs

theorem declared_dep (hneeds : depIndexes c.tasks = .ok needs) (hconflict : ¬ Conflict c.decls) {i : ℕ} {t : TaskEntry}
    (ht : c.tasks[i]? = some t) (x : TaskId) : x ∈ ((needs.map fun is => is.map ids.id).getD i []).toFinset ↔
      ∃ j t', c.tasks[j]? = some t' ∧ t'.path ∈ t.deps ∧ x = ids.id j := by
  obtain ⟨hmem, hshape, -⟩ := depIndexes_ok hneeds
  have hnodup : (c.tasks.map TaskEntry.path).Nodup := by
    by_contra hnot
    exact hconflict (.taskTwice (by rwa [Config.decls_tasks]))
  have hrow : (needs.map fun is => is.map ids.id).getD i [] =
      t.deps.map fun dep => ids.id ((c.tasks.map TaskEntry.path).idxOf dep) := by
    rw [hshape, List.map_map, List.getD_eq_getElem?_getD, List.getElem?_map, ht]
    simp only [Option.map_some, Option.getD_some, Function.comp, List.map_map]
    rfl
  rw [List.mem_toFinset, hrow, List.mem_map]
  constructor
  · rintro ⟨dep, hdep, rfl⟩
    have hlt := List.idxOf_lt_length_of_mem (hmem t (List.mem_of_getElem? ht) dep hdep)
    have hget := List.getElem_idxOf hlt
    rw [List.getElem_map] at hget
    exact ⟨_, _, List.getElem?_eq_getElem (by simpa using hlt), by rwa [hget], rfl⟩
  · rintro ⟨j, t', ht', hdep, rfl⟩
    refine ⟨_, hdep, congrArg ids.id ?_⟩
    obtain ⟨hj, rfl⟩ := List.getElem?_eq_some_iff.mp ht'
    have hlt : j < (c.tasks.map TaskEntry.path).length := by simpa using hj
    have hget : (c.tasks.map TaskEntry.path)[j] = c.tasks[j].path := List.getElem_map _
    rw [← hget]
    exact hnodup.idxOf_getElem j hlt

omit [Task τ] in
theorem listing_paths {tasks : List TaskEntry} {deps : List (List TaskId)} {entries : List Entry}
    (h : List.Forall₂ (Matches tasks ids deps) entries rs) :
    (Graph.listing rs).map (fun e => TaskPath.asStr e.1) = entries.map Entry.path := by
  induction h with
  | nil => rfl
  | @cons e r entries rs hm _ ih =>
    obtain ⟨path, hpath, hkey, -⟩ := hm.keyed
    have hcons : Graph.listing (r :: rs) = (path, r.id) :: Graph.listing rs := by
      unfold Graph.listing
      rw [List.filterMap_cons, hkey]
      rfl
    rw [hcons, List.map_cons, List.map_cons, ih, (TaskPath.asStr_of_new hpath).1]

end

section

variable {τ : Type} [Task τ] {k : Kernel τ} {σ : Type}

end

theorem oneFile_canonical {path file : FilePath}
    (h : (if path = ["p"] ∨ path = ["p", "dekit.yaml"] then Except.ok path else .error "not found" :
      Except String FilePath) = .ok file) : file ∈ [["p"], ["p", "dekit.yaml"]] := by
  split at h
  · rename_i hin
    obtain rfl := Except.ok.inj h
    simpa using hin
  · cases h

/-- A project with a dekit.yaml that has a folder, a task in it, and one that needs that. -/
def oneFile : Disk Unit where
  paths := [["p"], ["p", "dekit.yaml"]]
  canonicalize path := if path = ["p"] ∨ path = ["p", "dekit.yaml"] then .ok path else .error "not found"
  canonical _ _ h := oneFile_canonical h
  exists' path := path = ["p", "dekit.yaml"]
  load _ := .ok (.mapping [(.string "tasks", .mapping
    [(.string "web/", .mapping [(.string "collapsed", .bool true)]),
      (.string "ui", .mapping [(.string "deps", .sequence [.string "web/api"])]),
      (.string "web/api", .mapping [])])])
  readVars _ _ _ := .ok ()
  resolveKeys _ doc _ _ := .ok (doc, ())
  pattern _ text := text
  glob _ _ := .ok []

def plainReader : TaskReader where
  settings _ _ := .ok {}
  command p _ _ := .ok p
  rest p _ _ := .ok p
  applyRoot _ _ := .ok {}

def oneConfig : Config where
  tasks := [⟨{ deps := ["web/api"] }, "ui", some ⟨"dekit.yaml", "ui", ""⟩⟩,
    ⟨{}, "web/api", some ⟨"dekit.yaml", "web/api", ""⟩⟩]
  folders := [⟨"web", true, some ⟨"dekit.yaml", "web/", ""⟩, 0⟩]
  defaults := {}

theorem oneFile_loads : Config.load oneFile plainReader () ["p"] = .ok oneConfig := by
  unfold Config.load
  rw [if_neg (by decide), loadFile]
  rfl

def countingIds : TaskIds where
  id n := n + 1
  distinct _ _ h := Nat.succ.inj h
  allocated n := Nat.succ_ne_zero n

def channelBuild : Build ChannelTask := fun _ _ _ => .ok ({}, fun _ => ⟨[], false⟩)

end Dekit
