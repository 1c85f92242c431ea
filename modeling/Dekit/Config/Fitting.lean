import Dekit.Config.Register

/-! A config's registrations have nothing in each other's way. -/

namespace Dekit

theorem apart_of_nodup {α β : Type} {f : α → Option β} {l : List α} (h : (l.filterMap f).Nodup) {i j : ℕ} (hij : i ≠ j)
    {a b : α} (ha : l[i]? = some a) (hb : l[j]? = some b) {x y : β} (hx : f a = some x) (hy : f b = some y) :
    x ≠ y := by
  have hpair := List.pairwise_filterMap.mp h
  obtain ⟨hi, rfl⟩ := List.getElem?_eq_some_iff.mp ha
  obtain ⟨hj, rfl⟩ := List.getElem?_eq_some_iff.mp hb
  rw [List.pairwise_iff_getElem] at hpair
  rcases Nat.lt_or_gt_of_ne hij with hlt | hlt
  · exact hpair i j hi hj hlt x hx y hy
  · exact (hpair j i hj hi hlt y hy x hx).symm

theorem Config.apart {c : Config} (h : ¬ Conflict c.decls) {i j : ℕ} (hij : i ≠ j) {e e' : Entry}
    (hi : c.entries[i]? = some e) (hj : c.entries[j]? = some e') {p p' : TaskPath} (hp : TaskPath.new e.path = .ok p)
    (hp' : TaskPath.new e'.path = .ok p') : p ≠ p' ∧ ((∃ cfg, e = .task cfg) → ¬ p <+: p') := by
  obtain ⟨hstr, hroot⟩ := TaskPath.asStr_of_new hp
  obtain ⟨hstr', -⟩ := TaskPath.asStr_of_new hp'
  have hdecl : c.decls[i]? = some e.decl := by
    unfold decls
    rw [List.getElem?_map, hi]
    rfl
  have hdecl' : c.decls[j]? = some e'.decl := by
    unfold decls
    rw [List.getElem?_map, hj]
    rfl
  have hne : e.path ≠ e'.path := by
    intro he
    cases e with
    | task cfg =>
      cases e' with
      | task cfg' => exact h (.taskTwice fun hn => apart_of_nodup hn hij hdecl hdecl' rfl rfl he)
      | folder cfg' =>
        have hfolder := List.mem_of_getElem? hdecl'
        rw [show (Entry.folder cfg').decl = .folder cfg.path from congrArg Decl.folder he.symm] at hfolder
        exact h (.both (List.mem_of_getElem? hdecl) hfolder)
    | folder cfg =>
      cases e' with
      | task cfg' =>
        have hfolder := List.mem_of_getElem? hdecl
        rw [show (Entry.folder cfg).decl = .folder cfg'.path from congrArg Decl.folder he] at hfolder
        exact h (.both (List.mem_of_getElem? hdecl') hfolder)
      | folder cfg' => exact h (.folderTwice fun hn => apart_of_nodup hn hij hdecl hdecl' rfl rfl he)
  have hpne : p ≠ p' := by
    rintro rfl
    exact hne (hstr.symm.trans hstr')
  refine ⟨hpne, ?_⟩
  rintro ⟨cfg, rfl⟩ ⟨q, rfl⟩
  have hq : q ≠ [] := by
    rintro rfl
    exact hpne (List.append_nil p).symm
  have hunder : Under cfg.path e'.path := by
    refine ⟨(TaskPath.asStr q).toList, ?_⟩
    rw [← hstr', TaskPath.asStr_append hroot hq, String.toList_append, String.toList_append,
      show TaskPath.asStr p = cfg.path from hstr, List.append_assoc]
    rfl
  refine h (.under (List.mem_of_getElem? hdecl) (List.mem_of_getElem? hdecl') ?_)
  rw [show e'.decl.path = e'.path by cases e' <;> rfl]
  exact hunder

def taskCount (entries : List Entry) : ℕ := (entries.filterMap Config.task?).length

section

variable {τ : Type} {tasks : List TaskEntry} {ids : TaskIds} {deps : List (List TaskId)} {entries : List Entry}
  {rs : List (Registration τ)} {r : Registration τ} {e : Entry} {i n j k : ℕ}

/-- An entry and its registration. -/
inductive Matches (tasks : List TaskEntry) (ids : TaskIds) (deps : List (List TaskId)) : Entry → Registration τ → Prop
  | task {cfg : TaskEntry} {t : TaskRegistration τ} {path : TaskPath} {k : ℕ} :
    tasks[k]? = some cfg → t.taskId = ids.id k →
      TaskPath.new cfg.path = .ok path → t.def'.deps = (deps.getD k []).map TaskSelector.id →
      t.def'.space = TaskSpaceId.defaultSpace → t.def'.path = some path → t.def'.place = .last →
      Matches tasks ids deps (.task cfg) (.task t)
  | folder {cfg : FolderConfig} {path : TaskPath} {settings : FolderSettings} {id : TaskId} :
      TaskPath.new cfg.path = .ok path →
      Matches tasks ids deps (.folder cfg) (.folder ⟨id, TaskSpaceId.defaultSpace, path, .last, settings⟩)

theorem Registered.matches (h : Registered tasks ids deps entries i n rs) :
    List.Forall₂ (Matches tasks ids deps) entries rs := by
  induction h with
  | nil => exact .nil
  | task hcfg hid hpath hdeps hspace hat hplace _ ih => exact .cons (.task hcfg hid hpath hdeps hspace hat hplace) ih
  | folder hpath _ ih => exact .cons (.folder hpath) ih

theorem Matches.keyed (h : Matches tasks ids deps e r) : ∃ path, TaskPath.new e.path = .ok path ∧
    r.key = some ⟨TaskSpaceId.defaultSpace, path⟩ ∧ r.place = .last ∧ (r.isFolder = false → ∃ cfg, e = .task cfg) ∧
    r.space = TaskSpaceId.defaultSpace := by
  cases h with
  | @task cfg t path k hcfg hid hpath hdeps hspace hat hplace =>
    refine ⟨path, hpath, ?_, hplace, fun _ => ⟨cfg, rfl⟩, hspace⟩
    change t.def'.path.map (TaskKey.mk t.def'.space) = _
    rw [hat, hspace]
    rfl
  | @folder cfg path settings id hpath => exact ⟨path, hpath, rfl, rfl, fun hf => (by cases hf), rfl⟩

theorem Registered.id_of (h : Registered tasks ids deps entries i n rs) (hr : r ∈ rs) :
    (∃ k, i ≤ k ∧ k < i + taskCount entries ∧ r.id = ids.id k) ∨ ∃ k, n ≤ k ∧ r.id = ids.id k := by
  induction h with
  | nil => cases hr
  | @task cfg t path entries rs i n hcfg hid hpath hdeps hspace hat hplace _ ih =>
    have hcount : taskCount (.task cfg :: entries) = taskCount entries + 1 := rfl
    rw [hcount]
    rcases List.mem_cons.mp hr with rfl | hr
    · exact .inl ⟨i, le_rfl, by omega, hid⟩
    · rcases ih hr with ⟨k, hk, hk', hid⟩ | hfolder
      · exact .inl ⟨k, by omega, by omega, hid⟩
      · exact .inr hfolder
  | @folder cfg path settings entries rs i n hpath _ ih =>
    have hcount : taskCount (.folder cfg :: entries) = taskCount entries := rfl
    rw [hcount]
    rcases List.mem_cons.mp hr with rfl | hr
    · exact .inr ⟨n, le_rfl, rfl⟩
    · rcases ih hr with htask | ⟨k, hk, hid⟩
      · exact .inl htask
      · exact .inr ⟨k, by omega, hid⟩

theorem Registered.nodup (h : Registered tasks ids deps entries i n rs) (hn : i + taskCount entries ≤ n) :
    (rs.map Registration.id).Nodup := by
  induction h with
  | nil => exact List.nodup_nil
  | @task cfg t path entries rs i n hcfg hid hpath hdeps hspace hat hplace hrest ih =>
    have hcount : taskCount (.task cfg :: entries) = taskCount entries + 1 := rfl
    rw [hcount] at hn
    refine List.nodup_cons.mpr ⟨fun hin => ?_, ih (by omega)⟩
    obtain ⟨r, hr, he⟩ := List.mem_map.mp hin
    rw [show (Registration.task t).id = ids.id i from hid] at he
    rcases hrest.id_of hr with ⟨k, hk, -, hk'⟩ | ⟨k, hk, hk'⟩
    · have := ids.distinct (hk'.symm.trans he)
      omega
    · have := ids.distinct (hk'.symm.trans he)
      omega
  | @folder cfg path settings entries rs i n hpath hrest ih =>
    have hcount : taskCount (.folder cfg :: entries) = taskCount entries := rfl
    rw [hcount] at hn
    refine List.nodup_cons.mpr ⟨fun hin => ?_, ih (by omega)⟩
    obtain ⟨r, hr, he⟩ := List.mem_map.mp hin
    rcases hrest.id_of hr with ⟨k, hk, hk'', hk'⟩ | ⟨k, hk, hk'⟩
    · have := ids.distinct (hk'.symm.trans he)
      omega
    · have := ids.distinct (hk'.symm.trans he)
      omega

theorem Registered.task_at (h : Registered tasks ids deps entries i n rs) (hk : i ≤ k)
    (hk' : k < i + taskCount entries) :
    ∃ t, .task t ∈ rs ∧ t.taskId = ids.id k := by
  induction h with
  | nil =>
    change k < _ + 0 at hk'
    omega
  | @task cfg t path entries rs i n hcfg hid hpath hdeps hspace hat hplace _ ih =>
    have hcount : taskCount (.task cfg :: entries) = taskCount entries + 1 := rfl
    rw [hcount] at hk'
    by_cases he : k = i
    · exact ⟨t, List.mem_cons_self, by rw [he, hid]⟩
    · obtain ⟨t', ht', hid'⟩ := ih (by omega) (by omega)
      exact ⟨t', List.mem_cons_of_mem _ ht', hid'⟩
  | @folder cfg path settings entries rs i n hpath _ ih =>
    obtain ⟨t', ht', hid'⟩ := ih hk hk'
    exact ⟨t', List.mem_cons_of_mem _ ht', hid'⟩

theorem forall₂_get {α β : Type} {R : α → β → Prop} {l : List α} {l' : List β} (h : List.Forall₂ R l l') {j : ℕ} {b : β}
    (hb : l'[j]? = some b) : ∃ a, l[j]? = some a ∧ R a b := by
  induction h generalizing j with
  | nil => cases hb
  | @cons a b' l l' hab _ ih =>
    cases j with
    | zero =>
      obtain rfl := Option.some.inj hb
      exact ⟨a, rfl, hab⟩
    | succ j => exact ih hb

theorem Registered.deps_of (h : Registered tasks ids deps entries i n rs) {t : TaskRegistration τ} (ht : .task t ∈ rs) :
    ∃ k cfg, tasks[k]? = some cfg ∧ t.taskId = ids.id k ∧ t.def'.deps = (deps.getD k []).map TaskSelector.id := by
  obtain ⟨j, hj, hget⟩ := List.getElem_of_mem ht
  obtain ⟨e, -, hm⟩ := forall₂_get h.matches ((List.getElem?_eq_getElem hj).trans (congrArg some hget))
  cases hm with
  | task hcfg hid hpath hdeps => exact ⟨_, _, hcfg, hid, hdeps⟩

theorem slot_task {x : TaskId} (h : Batch.slot rs x = some j) : ∃ t, rs[j]? = some (.task t) ∧ t.taskId = x := by
  have hj := List.find?_some h
  cases hr : rs[j]? with
  | none => simp [hr] at hj
  | some r =>
    cases r with
    | folder d => simp [hr] at hj
    | task t => exact ⟨t, rfl, by simpa [hr] using hj⟩

theorem Registered.acyclic {needs : List (List ℕ)}
    (h : Registered tasks ids (needs.map fun is => is.map ids.id) entries i n rs) (hacc : Acc (Needs needs) k)
    {t : TaskRegistration τ} (ht : rs[j]? = some (.task t)) (hid : t.taskId = ids.id k) :
    Acc (fun d i => d ∈ Batch.deps rs i) j := by
  induction hacc generalizing j t with
  | intro k _ ih =>
    refine Acc.intro _ fun d hd => ?_
    unfold Batch.deps at hd
    rw [ht] at hd
    obtain ⟨x, hx, hslot⟩ := List.mem_filterMap.mp hd
    obtain ⟨t', ht', rfl⟩ := slot_task hslot
    obtain ⟨selector, hselector, hsome⟩ := List.mem_filterMap.mp hx
    obtain ⟨k', -, -, hid', hdeps⟩ := h.deps_of (List.mem_of_getElem? ht)
    obtain rfl : k' = k := ids.distinct (hid'.symm.trans hid)
    rw [hdeps] at hselector
    obtain ⟨y, hy, rfl⟩ := List.mem_map.mp hselector
    obtain rfl : y = t'.taskId := Option.some.inj hsome
    rw [List.getD_eq_getElem?_getD, List.getElem?_map] at hy
    cases hn : needs[k']? with
    | none => rw [hn] at hy; cases hy
    | some is =>
      rw [hn] at hy
      obtain ⟨m, hm, hmid⟩ := List.mem_map.mp hy
      refine ih m ?_ ht' hmid.symm
      unfold Needs
      rwa [List.getD_eq_getElem?_getD, hn]

end

section

variable {τ : Type} {g : Graph τ} {c : Config} {ids : TaskIds} {needs : List (List ℕ)} {rs : List (Registration τ)}

theorem Registered.fitting
    (h : Registered c.tasks ids (needs.map fun is => is.map ids.id) c.entries 0 c.tasks.length rs)
    (hconflict : ¬ Conflict c.decls) (hneeds : depIndexes c.tasks = .ok needs)
    (hfresh : ∀ n, ids.id n ∉ g.tasks ∧ ids.id n ∉ g.folders)
    (hvacant : ∀ p, (g.trie TaskSpaceId.defaultSpace).content p = (none, none)) :
    g.Fitting TaskSpaceId.defaultSpace rs := by
  have hcount : taskCount c.entries = c.tasks.length := by
    unfold taskCount
    rw [c.entries_tasks]
  obtain ⟨hmem, hshape, hacc⟩ := depIndexes_ok hneeds
  refine ⟨h.nodup (by omega), fun r hr => ?_, fun r hr => ?_, fun i j r r' p p' hi hj hij hkey hkey' => ?_,
    fun t ht => ?_,
    fun i hi => ?_, hvacant⟩
  · rcases h.id_of hr with ⟨k, -, -, hid⟩ | ⟨k, -, hid⟩
    · rw [hid]
      exact hfresh k
    · rw [hid]
      exact hfresh k
  · obtain ⟨j, hj, hget⟩ := List.getElem_of_mem hr
    obtain ⟨e, -, hm⟩ := forall₂_get h.matches ((List.getElem?_eq_getElem hj).trans (congrArg some hget))
    obtain ⟨path, hpath, hkey, hplace, -⟩ := hm.keyed
    exact ⟨hplace, path, (TaskPath.asStr_of_new hpath).2, hkey⟩
  · obtain ⟨e, he, hm⟩ := forall₂_get h.matches hi
    obtain ⟨e', he', hm'⟩ := forall₂_get h.matches hj
    obtain ⟨q, hq, hqkey, -, htask, -⟩ := hm.keyed
    obtain ⟨q', hq', hqkey', -⟩ := hm'.keyed
    obtain ⟨-, rfl⟩ := TaskKey.mk.inj (Option.some.inj (hqkey.symm.trans hkey))
    obtain ⟨-, rfl⟩ := TaskKey.mk.inj (Option.some.inj (hqkey'.symm.trans hkey'))
    obtain ⟨hne, hunder⟩ := c.apart hconflict hij he he' hq hq'
    exact ⟨hne, fun hf => hunder (htask hf)⟩
  · obtain ⟨k, cfg, hcfg, -, hdeps⟩ := h.deps_of ht
    refine ⟨_, hdeps, fun x hx => ?_⟩
    obtain ⟨hk, rfl⟩ := List.getElem?_eq_some_iff.mp hcfg
    rw [hshape, List.map_map, List.getD_eq_getElem?_getD, List.getElem?_map, List.getElem?_eq_getElem hk] at hx
    obtain ⟨d, hd, rfl⟩ := List.mem_map.mp hx
    obtain ⟨dep, hdep, rfl⟩ := List.mem_map.mp hd
    have hlt : (c.tasks.map TaskEntry.path).idxOf dep < c.tasks.length := by
      simpa using List.idxOf_lt_length_of_mem (hmem _ (List.getElem_mem hk) dep hdep)
    exact h.task_at (Nat.zero_le _) (by omega)
  · cases hr : rs[i]? with
    | none => exact absurd hr (by simp [hi])
    | some r =>
      cases r with
      | folder d =>
        refine Acc.intro _ fun d hd => ?_
        unfold Batch.deps at hd
        rw [hr] at hd
        cases hd
      | task t =>
        obtain ⟨k, cfg, hcfg, hid, -⟩ := h.deps_of (List.mem_of_getElem? hr)
        exact h.acyclic (hacc k (List.getElem?_eq_some_iff.mp hcfg).1) hr hid

end

end Dekit
