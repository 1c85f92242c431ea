import Mathlib.Logic.Relation
import Dekit.Lib.Fold
import Dekit.Config.Accepted

/-! `config_tasks.rs`: the deps of a config's tasks, by index. -/

namespace Dekit

/-- Why deps are refused. The walk over them is given as many steps as it needs, and never runs out. -/
inductive DepError
  | refused (text : String)
  | unfinished

inductive VisitState
  | unvisited
  | visiting
  | visited
deriving DecidableEq

def visitTaskDeps (names : List String) (deps : List (List ℕ)) :
    ℕ → List ℕ → (ℕ → VisitState) → ℕ → Except DepError (ℕ → VisitState)
  | 0, _, _, _ => .error .unfinished
  | fuel + 1, stack, states, index =>
    match states index with
    | .visited => .ok states
    | .visiting =>
      let cycle := (stack.dropWhile (· ≠ index) ++ [index]).map (names.getD · "")
      .error (.refused ("Process dependency cycle detected: " ++ " -> ".intercalate cycle ++ "."))
    | .unvisited =>
      ((deps.getD index []).foldlM (visitTaskDeps names deps fuel (stack ++ [index]))
        (Function.update states index .visiting)).map fun states => Function.update states index .visited

def validateTaskDepCycles (names : List String) (deps : List (List ℕ)) : Except DepError Unit :=
  ((List.range names.length).foldlM (visitTaskDeps names deps (names.length + 1) []) fun _ => .unvisited).map fun _ => ()

def insertName (names : List String) (task : TaskEntry) : Except DepError (List String) :=
  if task.path ∈ names then .error (.refused ("Duplicate task name '" ++ task.path ++ "'."))
  else .ok (names ++ [task.path])

def depIndex (names : List String) (task : TaskEntry) (dep : String) : Except DepError ℕ :=
  match names.idxOf? dep with
  | some i => .ok i
  | none => .error (.refused ("Process '" ++ task.path ++ "' depends on unknown process '" ++ dep ++ "'."))

/-- Each task's deps, by index, as a fresh start takes them: each one a task of the config, and none needing itself. -/
def depIndexes (tasks : List TaskEntry) : Except DepError (List (List ℕ)) := do
  let names ← tasks.foldlM insertName []
  let deps ← tasks.mapM fun task => task.deps.mapM (depIndex names task)
  validateTaskDepCycles names deps
  .ok deps

section

variable {names : List String} {deps : List (List ℕ)} {fuel n index : ℕ} {stack todo : List ℕ}
  {states states' : ℕ → VisitState}

def Needs (deps : List (List ℕ)) (d i : ℕ) : Prop := d ∈ deps.getD i []

def Grounded (deps : List (List ℕ)) (states : ℕ → VisitState) : Prop := ∀ i, states i = .visited → Acc (Needs deps) i

/-- What has been visited stays so, and nothing becomes unvisited. -/
structure Advances (states states' : ℕ → VisitState) : Prop where
  visited : ∀ i, states i = .visited → states' i = .visited
  unvisited : ∀ i, states' i = .unvisited → states i = .unvisited

theorem Advances.refl (states : ℕ → VisitState) : Advances states states := ⟨fun _ h => h, fun _ h => h⟩

theorem Advances.trans {states₁ : ℕ → VisitState} (h : Advances states states₁) (h' : Advances states₁ states') :
    Advances states states' :=
      ⟨fun i hi => h'.visited i (h.visited i hi), fun i hi => h.unvisited i (h'.unvisited i hi)⟩

/-- What the walk from one task comes to. -/
structure Walked (deps : List (List ℕ)) (index : ℕ) (states states' : ℕ → VisitState) : Prop where
  advances : Advances states states'
  done : states' index = .visited
  grounded : Grounded deps states → Grounded deps states'

theorem foldl_walked {step : (ℕ → VisitState) → ℕ → Except DepError (ℕ → VisitState)}
    (hstep : ∀ states states' i, step states i = .ok states' → Walked deps i states states')
    (h : todo.foldlM step states = .ok states') : Advances states states' ∧ (∀ i ∈ todo, states' i = .visited) ∧
      (Grounded deps states → Grounded deps states') := by
  induction todo generalizing states with
  | nil =>
    obtain rfl := Result.foldlM_nil_ok.mp h
    exact ⟨.refl _, List.forall_mem_nil _, id⟩
  | cons i todo ih =>
    obtain ⟨states₁, hi, hrest⟩ := Result.foldlM_cons_ok.mp h
    have hw := hstep _ _ _ hi
    obtain ⟨hadv, hall, hground⟩ := ih hrest
    exact ⟨hw.advances.trans hadv, List.forall_mem_cons.mpr ⟨hadv.visited _ hw.done, hall⟩, hground ∘ hw.grounded⟩

theorem visitTaskDeps_walked (h : visitTaskDeps names deps fuel stack states index = .ok states') :
    Walked deps index states states' := by
  induction fuel generalizing stack states index states' with
  | zero => cases h
  | succ fuel ih =>
    rw [visitTaskDeps] at h
    cases hs : states index with
    | visited =>
      rw [hs] at h
      obtain rfl := Except.ok.inj h
      exact ⟨.refl _, hs, id⟩
    | visiting => rw [hs] at h; cases h
    | unvisited =>
      rw [hs] at h
      obtain ⟨states₁, hfold, rfl⟩ := Result.map_ok.mp h
      obtain ⟨hadv, hall, hground⟩ := foldl_walked (fun _ _ _ => ih) hfold
      refine ⟨⟨fun i hi => ?_, fun i hi => ?_⟩, Function.update_self .., fun hstart i hi => ?_⟩
      · by_cases he : i = index
        · rw [he, Function.update_self]
        · rw [Function.update_of_ne he]
          exact hadv.visited i (by rwa [Function.update_of_ne he])
      · by_cases he : i = index
        · rw [he, Function.update_self] at hi
          cases hi
        · rw [Function.update_of_ne he] at hi
          have hback := hadv.unvisited i hi
          rwa [Function.update_of_ne he] at hback
      · have hmarked : Grounded deps (Function.update states index .visiting) := by
          intro j hj
          by_cases he : j = index
          · rw [he, Function.update_self] at hj
            cases hj
          · rw [Function.update_of_ne he] at hj
            exact hstart j hj
        by_cases he : i = index
        · subst he
          exact .intro _ fun d hd => hground hmarked d (hall d hd)
        · rw [Function.update_of_ne he] at hi
          exact hground hmarked i hi

def unvisited (n : ℕ) (states : ℕ → VisitState) : ℕ := ((List.range n).filter (states · = .unvisited)).length

theorem Advances.unvisited_le (h : Advances states states') (n : ℕ) :
    Dekit.unvisited n states' ≤ Dekit.unvisited n states := by
  unfold Dekit.unvisited
  rw [← List.countP_eq_length_filter, ← List.countP_eq_length_filter]
  refine List.countP_mono_left fun i _ hi => ?_
  simpa using h.unvisited i (by simpa using hi)

theorem unvisited_marked (hi : index < n) (hs : states index = .unvisited) :
    unvisited n (Function.update states index .visiting) < unvisited n states := by
  unfold unvisited
  have hfilter : (List.range n).filter (Function.update states index .visiting · = .unvisited) =
      ((List.range n).filter (states · = .unvisited)).filter (· ≠ index) := by
    rw [List.filter_filter]
    refine List.filter_congr fun i _ => ?_
    by_cases he : i = index
    · subst he
      simp
    · simp [he]
  rw [hfilter]
  exact List.length_filter_lt_length_iff_exists.mpr
    ⟨index, List.mem_filter.mpr ⟨List.mem_range.mpr hi, by simpa using hs⟩, by simp⟩

theorem foldl_finished (step : (ℕ → VisitState) → ℕ → Except DepError (ℕ → VisitState))
    (hwalk : ∀ states states' i, step states i = .ok states' → Walked deps i states states')
    (hstep : ∀ states i, unvisited n states < fuel → i < n → step states i ≠ .error .unfinished)
    (hfuel : unvisited n states < fuel) (hall : ∀ i ∈ todo, i < n) : todo.foldlM step states ≠ .error .unfinished := by
  induction todo generalizing states with
  | nil => exact fun h => by cases h
  | cons i todo ih =>
    obtain ⟨hi, hall⟩ := List.forall_mem_cons.mp hall
    rw [List.foldlM_cons]
    intro h
    cases hs : step states i with
    | error err =>
      rw [hs] at h
      obtain rfl := Except.error.inj h
      exact hstep states i hfuel hi hs
    | ok states₁ =>
      rw [hs] at h
      exact ih ((hwalk _ _ _ hs).advances.unvisited_le n |>.trans_lt hfuel) hall h

theorem visitTaskDeps_finished (hdeps : ∀ i, ∀ d ∈ deps.getD i [], d < n) (hfuel : unvisited n states < fuel)
    (hindex : index < n) : visitTaskDeps names deps fuel stack states index ≠ .error .unfinished := by
  induction fuel generalizing stack states index with
  | zero => omega
  | succ fuel ih =>
    rw [visitTaskDeps]
    cases hs : states index with
    | visited => exact fun h => by cases h
    | visiting => exact fun h => by cases h
    | unvisited =>
      have hmarked := unvisited_marked hindex hs
      have hleft : unvisited n (Function.update states index .visiting) < fuel := by omega
      have hfold := foldl_finished (visitTaskDeps names deps fuel (stack ++ [index]))
        (fun _ _ _ => visitTaskDeps_walked)
        (fun _ _ hlt hi => ih hlt hi) hleft (hdeps index)
      intro h
      simp only at h
      cases hrun : (deps.getD index []).foldlM (visitTaskDeps names deps fuel (stack ++ [index]))
          (Function.update states index .visiting) with
      | error err =>
        rw [hrun] at h
        obtain rfl := Except.error.inj h
        exact hfold hrun
      | ok _ => rw [hrun] at h; cases h

end

section

variable {names names' : List String} {tasks : List TaskEntry} {deps : List (List ℕ)} {err : DepError}

theorem insertNames_ok (h : tasks.foldlM insertName names = .ok names') :
    names' = names ++ tasks.map TaskEntry.path := by
  induction tasks generalizing names with
  | nil => simpa using Result.foldlM_nil_ok.mp h
  | cons task tasks ih =>
    obtain ⟨names₁, hstep, hrest⟩ := Result.foldlM_cons_ok.mp h
    unfold insertName at hstep
    split at hstep
    · cases hstep
    · obtain rfl := Except.ok.inj hstep
      rw [ih hrest]
      simp

theorem depIndex_ok {task : TaskEntry} {dep : String} {i : ℕ} (h : depIndex names task dep = .ok i) :
    dep ∈ names ∧ names.idxOf dep = i := by
  unfold depIndex at h
  cases hi : names.idxOf? dep with
  | none => rw [hi] at h; cases h
  | some j =>
    rw [hi] at h
    obtain rfl := Except.ok.inj h
    have hmem : dep ∈ names := by
      by_contra hnot
      rw [List.idxOf?_eq_none_iff.mpr hnot] at hi
      cases hi
    exact ⟨hmem, by rw [List.idxOf_eq_getD_idxOf?, hi]; rfl⟩

theorem mapM_depIndex {task : TaskEntry} {written : List String} {is : List ℕ}
    (h : written.mapM (depIndex names task) = .ok is) :
    (∀ dep ∈ written, dep ∈ names) ∧ is = written.map names.idxOf := by
  induction written generalizing is with
  | nil =>
    obtain rfl : [] = is := Except.ok.inj h
    simp
  | cons dep written ih =>
    obtain ⟨i, is', hi, his, rfl⟩ := Fold.mapM_cons_ok h
    obtain ⟨hmem, hidx⟩ := depIndex_ok hi
    obtain ⟨hall, rfl⟩ := ih his
    exact ⟨List.forall_mem_cons.mpr ⟨hmem, hall⟩, by rw [List.map_cons, hidx]⟩

theorem mapM_depIndexes (h : tasks.mapM (fun task => task.deps.mapM (depIndex names task)) = .ok deps) :
    (∀ t ∈ tasks, ∀ dep ∈ t.deps, dep ∈ names) ∧ deps = tasks.map fun t => t.deps.map names.idxOf := by
  induction tasks generalizing deps with
  | nil =>
    obtain rfl : [] = deps := Except.ok.inj h
    simp
  | cons t tasks ih =>
    obtain ⟨is, deps', his, hdeps, rfl⟩ := Fold.mapM_cons_ok h
    obtain ⟨hmem, rfl⟩ := mapM_depIndex his
    obtain ⟨hall, rfl⟩ := ih hdeps
    exact ⟨List.forall_mem_cons.mpr ⟨hmem, hall⟩, rfl⟩

theorem depIndexes_ok (h : depIndexes tasks = .ok deps) :
    (∀ t ∈ tasks, ∀ dep ∈ t.deps, dep ∈ tasks.map TaskEntry.path) ∧
      deps = tasks.map (fun t => t.deps.map (tasks.map TaskEntry.path).idxOf) ∧
      ∀ i < tasks.length, Acc (Needs deps) i := by
  obtain ⟨names, hnames, h⟩ := Result.bind_ok.mp h
  obtain ⟨deps', hdeps, h⟩ := Result.bind_ok.mp h
  obtain ⟨_, hvalid, h⟩ := Result.bind_ok.mp h
  obtain rfl := Except.ok.inj h
  obtain rfl : names = tasks.map TaskEntry.path := insertNames_ok hnames
  obtain ⟨hall, heq⟩ := mapM_depIndexes hdeps
  refine ⟨hall, heq, fun i hi => ?_⟩
  obtain ⟨states, hrun, -⟩ := Result.map_ok.mp hvalid
  obtain ⟨-, hvisited, hground⟩ := foldl_walked (fun _ _ _ => visitTaskDeps_walked) hrun
  exact hground (fun j hj => by cases hj) i (hvisited i (List.mem_range.mpr (by simpa using hi)))

theorem refused_of_mapM {α β : Type} {f : α → Except DepError β} {l : List α} (h : l.mapM f = .error err)
    (hf : ∀ a err, f a = .error err → ∃ text, err = .refused text) : ∃ text, err = .refused text := by
  induction l with
  | nil => cases h
  | cons a l ih =>
    rw [List.mapM_cons] at h
    cases ha : f a with
    | error err' =>
      rw [ha] at h
      obtain rfl := Except.error.inj h
      exact hf a _ ha
    | ok b =>
      cases hl : l.mapM f with
      | error err' =>
        rw [ha, hl] at h
        obtain rfl := Except.error.inj h
        exact ih hl
      | ok bs => rw [ha, hl] at h; cases h

theorem refused_of_foldlM {names : List String} (h : tasks.foldlM insertName names = .error err) :
    ∃ text, err = .refused text := by
  induction tasks generalizing names with
  | nil => cases h
  | cons t tasks ih =>
    rw [List.foldlM_cons] at h
    cases ht : insertName names t with
    | error err' =>
      rw [ht] at h
      obtain rfl := Except.error.inj h
      unfold insertName at ht
      split at ht
      · exact ⟨_, (Except.error.inj ht).symm⟩
      · cases ht
    | ok names' =>
      rw [ht] at h
      exact ih h

theorem depIndexes_refused (h : depIndexes tasks = .error err) : ∃ text, err = .refused text := by
  have hindex (names : List String) (t : TaskEntry) (dep : String) (err : DepError)
      (h : depIndex names t dep = .error err) : ∃ text, err = .refused text := by
    unfold depIndex at h
    split at h
    · cases h
    · exact ⟨_, (Except.error.inj h).symm⟩
  unfold depIndexes at h
  cases hnames : tasks.foldlM insertName [] with
  | error err' =>
    rw [hnames] at h
    obtain rfl := Except.error.inj h
    exact refused_of_foldlM hnames
  | ok names =>
    cases hdeps : tasks.mapM (fun task => task.deps.mapM (depIndex names task)) with
    | error err' =>
      rw [hnames] at h
      simp only [bind, Except.bind, hdeps] at h
      obtain rfl := Except.error.inj h
      exact refused_of_mapM hdeps fun t err ht => refused_of_mapM ht fun dep err hd => hindex names t dep err hd
    | ok deps =>
      rw [hnames] at h
      simp only [bind, Except.bind, hdeps] at h
      obtain rfl : names = tasks.map TaskEntry.path := insertNames_ok hnames
      obtain ⟨hall, heq⟩ := mapM_depIndexes hdeps
      cases hvalid : validateTaskDepCycles (tasks.map TaskEntry.path) deps with
      | ok _ => rw [hvalid] at h; cases h
      | error err' =>
        rw [hvalid] at h
        obtain rfl := Except.error.inj h
        cases err' with
        | refused text => exact ⟨text, rfl⟩
        | unfinished =>
          have hbound (i d : ℕ) (hd : d ∈ deps.getD i []) : d < (tasks.map TaskEntry.path).length := by
            rw [heq, List.getD_eq_getElem?_getD, List.getElem?_map] at hd
            cases ht : tasks[i]? with
            | none => rw [ht] at hd; cases hd
            | some t =>
              rw [ht] at hd
              obtain ⟨dep, hdep, rfl⟩ := List.mem_map.mp hd
              exact List.idxOf_lt_length_of_mem (hall t (List.mem_of_getElem? ht) dep hdep)
          have hfuel : unvisited (tasks.map TaskEntry.path).length (fun _ => .unvisited) <
            (tasks.map TaskEntry.path).length + 1 :=
            Nat.lt_succ_of_le ((List.length_filter_le _ _).trans_eq List.length_range)
          have hrange : ∀ i ∈ List.range (tasks.map TaskEntry.path).length, i < (tasks.map TaskEntry.path).length :=
            fun i hi => List.mem_range.mp hi
          have hfinished := foldl_finished
            (visitTaskDeps (tasks.map TaskEntry.path) deps ((tasks.map TaskEntry.path).length + 1) [])
            (fun _ _ _ => visitTaskDeps_walked) (fun _ _ hlt hi => visitTaskDeps_finished hbound hlt hi) hfuel hrange
          unfold validateTaskDepCycles at hvalid
          cases hrun : (List.range (tasks.map TaskEntry.path).length).foldlM
              (visitTaskDeps (tasks.map TaskEntry.path) deps ((tasks.map TaskEntry.path).length + 1) []) fun _ =>
                .unvisited with
          | ok _ => rw [hrun] at hvalid; cases hvalid
          | error err =>
            rw [hrun] at hvalid
            obtain rfl := Except.error.inj hvalid
            exact absurd hrun hfinished

end

theorem not_self_of_acc {α : Type} {r : α → α → Prop} {a : α} (h : Acc r a) : ¬ r a a := by
  induction h with
  | intro a _ ih => exact fun ha => ih a ha ha

/-- A task needs one that is not there, or needs itself. -/
inductive Unmet (decls : List Decl) : Prop
  | unknown {path dep : String} {deps : List String} :
      .task path deps ∈ decls → dep ∈ deps → dep ∉ decls.filterMap Decl.taskPath? → Unmet decls
  | cycle {path : String} :
      Relation.TransGen (fun dep path => ∃ deps, .task path deps ∈ decls ∧ dep ∈ deps) path path → Unmet decls

theorem depIndexes_met {c : Config} {deps : List (List ℕ)} (h : depIndexes c.tasks = .ok deps)
    (hconflict : ¬ Conflict c.decls) : ¬ Unmet c.decls := by
  obtain ⟨hall, heq, hacc⟩ := depIndexes_ok h
  have hnodup : (c.tasks.map TaskEntry.path).Nodup := by
    by_contra hnot
    exact hconflict (.taskTwice (by rwa [Config.decls_tasks]))
  intro hunmet
  cases hunmet with
  | unknown ht hdep hnot =>
    obtain ⟨t, hin, rfl, rfl⟩ := Config.mem_decls_task.mp ht
    rw [Config.decls_tasks] at hnot
    exact hnot (hall t hin _ hdep)
  | @cycle path hcycle =>
    have hneeds (dep path : String) (hstep : ∃ written, Decl.task path written ∈ c.decls ∧ dep ∈ written) :
        Needs deps ((c.tasks.map TaskEntry.path).idxOf dep) ((c.tasks.map TaskEntry.path).idxOf path) := by
      obtain ⟨written, ht, hdep⟩ := hstep
      obtain ⟨t, hin, rfl, rfl⟩ := Config.mem_decls_task.mp ht
      obtain ⟨i, hi, rfl⟩ := List.getElem_of_mem hin
      have hidx : (c.tasks.map TaskEntry.path).idxOf c.tasks[i].path = i := by
        have hlt : i < (c.tasks.map TaskEntry.path).length := by simpa using hi
        have hget : (c.tasks.map TaskEntry.path)[i] = c.tasks[i].path := List.getElem_map _
        rw [← hget]
        exact hnodup.idxOf_getElem i hlt
      unfold Needs
      rw [hidx, heq, List.getD_eq_getElem?_getD, List.getElem?_map, List.getElem?_eq_getElem hi]
      exact List.mem_map_of_mem hdep
    have htrans := hcycle.lift (c.tasks.map TaskEntry.path).idxOf hneeds
    have hmem : path ∈ c.tasks.map TaskEntry.path := by
      obtain ⟨dep, -, written, ht, -⟩ := Relation.TransGen.tail'_iff.mp hcycle
      obtain ⟨t, hin, rfl, -⟩ := Config.mem_decls_task.mp ht
      exact List.mem_map_of_mem hin
    have hlt : (c.tasks.map TaskEntry.path).idxOf path < c.tasks.length := by
      simpa using List.idxOf_lt_length_of_mem hmem
    exact not_self_of_acc (hacc _ hlt).transGen htrans

end Dekit
