import Dekit.Enrolled

namespace Dekit

namespace Graph

variable {τ : Type} {g g' g₁ g₂ : Graph τ} {i : ℕ} {x : TaskId} {pending pending' : TaskSpaceId → List TaskPath}

theorem Adds.trans (h : Adds g g₁) (h' : Adds g₁ g₂) : Adds g g₂ := by
  refine ⟨fun x hx => ?_, fun x hx => ?_⟩
  · have hx₁ : x ∈ g₁.tasks := by
      rw [← Finmap.lookup_isSome, ← Option.isSome_map, h.tasks x hx, Option.isSome_map, Finmap.lookup_isSome]
      exact hx
    rw [h'.tasks x hx₁, h.tasks x hx]
  · have hx₁ : x ∈ g₁.folders := by
      rw [← Finmap.lookup_isSome, h.folders x hx, Finmap.lookup_isSome]
      exact hx
    rw [h'.folders x hx₁, h.folders x hx]

theorem Retains.refl (g : Graph τ) : Retains g g := ⟨fun _ hx => hx, fun _ _ => rfl⟩

theorem Retains.trans (h : Retains g g₁) (h' : Retains g₁ g₂) : Retains g g₂ :=
  ⟨fun x hx => h'.mem x (h.mem x hx), fun x hx => (h'.edges x (h.mem x hx)).trans (h.edges x hx)⟩

theorem Reserved.adds {key : TaskKey} (hr : g.Reserved key) (h : g.Listed pending) (h' : g'.Listed pending')
    (ha : Adds g g') (hnames : ∀ s p, (g'.trie s).root.namesAt p = (g.trie s).root.namesAt p) : g'.Reserved key := by
  refine hr.imp (fun hn => by rwa [hnames]) (taskAbove_congr fun p hp => ?_)
  obtain ⟨x, hx⟩ := Option.ne_none_iff_exists'.mp hp
  have hhome := (h.tasks _ p x).mp hx
  have hin : x ∈ g.tasks := by
    rw [← Finmap.lookup_isSome, ← Option.isSome_map, hhome]
    rfl
  rw [(h'.tasks _ p x).mpr ((ha.tasks x hin).trans hhome)]
  exact Option.some_ne_none x

section batch

variable [Task τ] {tasks : List (Option Snap.Task × Registration τ)} {seen : List ℕ}
  {acc : Graph τ × List (Except RegisterError Unit)}

/-- A task (or folder) of the batch with the id was registered. -/
def Entered (tasks : List (Option Snap.Task × Registration τ)) (results : List (Except RegisterError Unit))
    (seen : List ℕ) (folder : Bool) (x : TaskId) : Prop :=
  ∃ i ∈ seen, ∃ e, tasks[i]? = some e ∧ results[i]? = some (.ok ()) ∧ e.2.isFolder = folder ∧ e.2.id = x

/-- The graph as the entry at `i` finds it, with the results so far. -/
def before (g : Graph τ) (tasks : List (Option Snap.Task × Registration τ)) (i : ℕ) :
    Graph τ × List (Except RegisterError Unit) :=
  ((Batch.order (tasks.map Prod.snd)).takeWhile (· ≠ i)).foldl (registerAt tasks)
    ((tasks.map Prod.snd).foldl holdPlace g, tasks.map fun _ => .ok ())

/-- How far a batch has come from the graph in which its places were held. -/
structure Enrolling (g : Graph τ) (tasks : List (Option Snap.Task × Registration τ))
    (pending : TaskSpaceId → List TaskPath) (seen : List ℕ) (acc : Graph τ × List (Except RegisterError Unit)) :
    Prop where
  registering : Registering tasks pending seen acc
  welcoming : acc.1.Welcoming pending
  adds : Adds g acc.1
  retains : Retains g acc.1
  names : ∀ s p, (acc.1.trie s).root.namesAt p = (g.trie s).root.namesAt p
  members : ∀ x, x ∈ acc.1.tasks ↔ x ∈ g.tasks ∨ Entered tasks acc.2 seen false x
  shelves : ∀ x, x ∈ acc.1.folders ↔ x ∈ g.folders ∨ Entered tasks acc.2 seen true x

omit [Task τ] in
theorem entered_skip (hi : tasks[i]? = none) (results : List (Except RegisterError Unit)) (folder : Bool) :
    Entered tasks results (seen ++ [i]) folder x ↔ Entered tasks results seen folder x := by
  constructor
  · rintro ⟨j, hj, e, he, hok, hx⟩
    rcases List.mem_append.mp hj with hj | hj
    · exact ⟨j, hj, e, he, hok, hx⟩
    · rw [List.mem_singleton.mp hj, hi] at he
      cases he
  · rintro ⟨j, hj, hx⟩
    exact ⟨j, List.mem_append_left _ hj, hx⟩

omit [Task τ] in
theorem entered_set {e : Option Snap.Task × Registration τ} (hi : tasks[i]? = some e) (hseen : i ∉ seen)
    {results : List (Except RegisterError Unit)} (hlen : results.length = tasks.length)
    (result : Except RegisterError Unit) (folder : Bool) :
    Entered tasks (results.set i result) (seen ++ [i]) folder x ↔
      Entered tasks results seen folder x ∨ result = .ok () ∧ e.2.isFolder = folder ∧ e.2.id = x := by
  have hlt : i < results.length := by
    rw [hlen]
    exact (List.getElem?_eq_some_iff.mp hi).1
  constructor
  · rintro ⟨j, hj, e', he', hok, hx⟩
    by_cases hji : j = i
    · subst hji
      rw [List.getElem?_set_self hlt] at hok
      rw [hi] at he'
      cases he'
      exact .inr ⟨Option.some.inj hok, hx⟩
    · rw [List.getElem?_set_ne (Ne.symm hji)] at hok
      rcases List.mem_append.mp hj with hj | hj
      · exact .inl ⟨j, hj, e', he', hok, hx⟩
      · exact absurd (List.mem_singleton.mp hj) hji
  · rintro (⟨j, hj, e', he', hok, hx⟩ | ⟨rfl, hx⟩)
    · have hji : i ≠ j := fun he => hseen (he ▸ hj)
      exact ⟨j, List.mem_append_left _ hj, e', he', by rwa [List.getElem?_set_ne hji], hx⟩
    · exact ⟨i, List.mem_append_right _ List.mem_cons_self, e, hi, List.getElem?_set_self hlt, hx⟩

theorem Enrolling.step (h : Enrolling g tasks pending seen acc) (hg : g.Listed pending)
    (hres : ∀ e ∈ tasks, ∀ key, e.2.key = some key → g.Reserved key) (hseen : i ∉ seen) :
    Enrolling g tasks pending (seen ++ [i]) (registerAt tasks acc i) := by
  have hreg := h.registering.step i
  unfold registerAt at hreg ⊢
  cases hi : tasks[i]? with
  | none =>
    rw [hi] at hreg
    refine ⟨hreg, h.welcoming, h.adds, h.retains, h.names, fun x => ?_, fun x => ?_⟩
    · rw [entered_skip hi]
      exact h.members x
    · rw [entered_skip hi]
      exact h.shelves x
  | some e =>
    obtain ⟨saved, r⟩ := e
    rw [hi] at hreg
    simp only at hreg ⊢
    have hadds := (registerOne_holds acc.1 saved r).1
    have hreserved (key : TaskKey) (hk : r.key = some key) : acc.1.Reserved key :=
      (hres _ (List.mem_of_getElem? hi) key hk).adds hg h.welcoming.listed h.adds h.names
    have hnames (s : TaskSpaceId) (p : TaskPath) := names_registerOne acc.1 saved r hreserved s p
    obtain ⟨hretains, hspec⟩ := registerOne_spec h.welcoming saved r
    refine ⟨hreg, h.welcoming.registerOne saved r, h.adds.trans hadds, h.retains.trans hretains,
      fun s p => (hnames s p).trans (h.names s p), fun x => ?_, fun x => ?_⟩
    all_goals rw [entered_set hi hseen h.registering.length]
    · rcases hspec with ⟨err, he⟩ | ⟨hok, -, htasks, -⟩
      · rw [he, h.members]
        simp
      · rw [htasks, h.members, hok, or_assoc]
        simp
    · rcases hspec with ⟨err, he⟩ | ⟨hok, -, -, hfolders, -⟩
      · rw [he, h.shelves]
        simp
      · rw [hfolders, h.shelves, hok, or_assoc]
        simp

theorem Enrolling.run (h : Enrolling g tasks pending seen acc) (hg : g.Listed pending)
    (hres : ∀ e ∈ tasks, ∀ key, e.2.key = some key → g.Reserved key) {l : List ℕ} (hl : (seen ++ l).Nodup) :
    Enrolling g tasks pending (seen ++ l) (l.foldl (registerAt tasks) acc) := by
  induction l generalizing seen acc with
  | nil => rwa [List.append_nil]
  | cons i l ih =>
    have hsplit : seen ++ i :: l = seen ++ [i] ++ l := by simp
    rw [hsplit] at hl ⊢
    have hi : i ∉ seen := by
      have hseen := (List.nodup_append.mp hl).1
      intro hin
      exact (List.nodup_append.mp hseen).2.2 i hin i List.mem_cons_self rfl
    exact ih (h.step hg hres hi) hl

theorem settled_later (tasks : List (Option Snap.Task × Registration τ))
    (acc : Graph τ × List (Except RegisterError Unit)) {l : List ℕ} (hi : i ∉ l) (h : acc.1.Welcoming pending) :
    (l.foldl (registerAt tasks) acc).2[i]? = acc.2[i]? ∧ Retains acc.1 (l.foldl (registerAt tasks) acc).1 ∧
      Adds acc.1 (l.foldl (registerAt tasks) acc).1 := by
  induction l generalizing acc with
  | nil => exact ⟨rfl, .refl _, ⟨fun _ _ => rfl, fun _ _ => rfl⟩⟩
  | cons j l ih =>
    have hj : j ≠ i := fun he => hi (he ▸ List.mem_cons_self)
    have hstep : (registerAt tasks acc j).1.Welcoming pending ∧ (registerAt tasks acc j).2[i]? = acc.2[i]? ∧
        Retains acc.1 (registerAt tasks acc j).1 ∧ Adds acc.1 (registerAt tasks acc j).1 := by
      unfold registerAt
      cases htj : tasks[j]? with
      | none => exact ⟨h, rfl, .refl _, ⟨fun _ _ => rfl, fun _ _ => rfl⟩⟩
      | some e =>
        obtain ⟨saved, r⟩ := e
        exact ⟨h.registerOne saved r, List.getElem?_set_ne hj, (registerOne_spec h saved r).1,
          (registerOne_holds acc.1 saved r).1⟩
    obtain ⟨hwelcoming, hresult, hretains, hadds⟩ := hstep
    obtain ⟨hresult', hretains', hadds'⟩ :=
      ih (registerAt tasks acc j) (fun hin => hi (List.mem_cons_of_mem _ hin)) hwelcoming
    exact ⟨hresult'.trans hresult, hretains.trans hretains', hadds.trans hadds'⟩

/-- What a batch leaves of a graph, with its results. -/
structure Enrolled (g : Graph τ) (tasks : List (Option Snap.Task × Registration τ)) (g' : Graph τ)
    (results : List (Except RegisterError Unit)) : Prop where
  order : (Batch.order (tasks.map Prod.snd)).Perm (List.range tasks.length)
  length : results.length = tasks.length
  verdict : ∀ i saved r, tasks[i]? = some (saved, r) →
    results[i]? = some ((g.before tasks i).1.registerOne saved r).2
  accepted : ∀ i saved r, tasks[i]? = some (saved, r) → results[i]? = some (.ok ()) → g'.Holds r ∧
    ∀ t, r = .task t → ∃ deps, (g.before tasks i).1.resolveDeps t.def'.deps = .ok deps ∧
      g'.edges t.taskId = deps.toFinset
  refused : ∀ i saved r err, tasks[i]? = some (saved, r) → results[i]? = some (.error err) →
    ((g.before tasks i).1.registerOne saved r).1 = (g.before tasks i).1
  members : ∀ x, x ∈ g'.tasks ↔ x ∈ g.tasks ∨ Entered tasks results (List.range tasks.length) false x
  shelves : ∀ x, x ∈ g'.folders ↔ x ∈ g.folders ∨ Entered tasks results (List.range tasks.length) true x
  bare : ∀ x, x ∉ g'.tasks → (x ≠ initTaskId → g'.edges x = ∅) ∧ (∀ y, x ∉ g'.edges y) ∧ ∀ tag, x ∉ g'.tags tag
  leads : ∀ s p, p ≠ [] → (g'.trie s).root.namesAt p ≠ none → ∃ q x,
    (g'.tasks.lookup x).map TaskHandle.home = some (s, some (p ++ q)) ∨
      (g'.folders.lookup x).map (fun f => (f.space, f.path)) = some (s, p ++ q)
  unmet : ∀ S : Set TaskId, (∀ x ∈ S, x ∉ g.tasks) →
    (∀ (i : ℕ) saved (t : TaskRegistration τ), tasks[i]? = some (saved, .task t) → t.taskId ∈ S →
      results[i]? ≠ some (.ok ()) ∨ ∃ y ∈ S, .id y ∈ t.def'.deps) →
    ∀ (i : ℕ) saved (t : TaskRegistration τ), tasks[i]? = some (saved, .task t) →
      (t.taskId ∈ S ∨ ∃ y ∈ S, .id y ∈ t.def'.deps) →
      results[i]? ≠ some (.ok ())
  listed : ∀ s p l, (g'.trie s).root.namesAt p = some l → ∃ l',
    (((tasks.map Prod.snd).foldl holdPlace g).trie s).root.namesAt p = some l' ∧ l.Sublist l'

theorem Welcoming.holdPlaces (h : g.Welcoming pending) (rs : List (Registration τ)) :
    (rs.foldl holdPlace g).Welcoming fun s => places rs s ++ pending s := by
  have haside : Aside g (rs.foldl holdPlace g) := .foldl Aside.holdPlace _ _
  refine ⟨?_, h.listed.holdPlaces rs, h.told.aside haside, haside.records ▸ h.sane⟩
  refine Fold.foldl_invariant (P := fun g : Graph τ => Sound ∅ g) (fun g hs r _ => ?_) h.sound
  unfold holdPlace
  split
  · exact hs.same rfl rfl rfl
  · exact hs

def ledger (g : Graph τ) := (g.tasks, g.folders, g.edges, g.tags)

omit [Task τ] in
theorem ledger_holdPlaces (rs : List (Registration τ)) (g : Graph τ) : (rs.foldl holdPlace g).ledger = g.ledger := by
  refine Fold.foldl_keeps (p := ledger) (fun g r => ?_) rs g
  unfold holdPlace
  split <;> rfl

omit [Task τ] in
theorem ledger_dropPlaces (es : List (Registration τ × Except RegisterError Unit)) (g : Graph τ) :
    (es.foldl dropPlace g).ledger = g.ledger := by
  refine Fold.foldl_keeps (p := ledger) (fun g e => ?_) es g
  unfold dropPlace
  split <;> rfl

theorem enrolling_before (h : g.Welcoming pending) (tasks : List (Option Snap.Task × Registration τ)) {l rest : List ℕ}
    (hl : Batch.order (tasks.map Prod.snd) = l ++ rest) :
    Enrolling ((tasks.map Prod.snd).foldl holdPlace g) tasks (fun s => places (tasks.map Prod.snd) s ++ pending s) l
      (l.foldl (registerAt tasks) ((tasks.map Prod.snd).foldl holdPlace g, tasks.map fun _ => .ok ())) := by
  have hheld := h.holdPlaces (tasks.map Prod.snd)
  have hstart : Enrolling ((tasks.map Prod.snd).foldl holdPlace g) tasks
      (fun s => places (tasks.map Prod.snd) s ++ pending s) []
      ((tasks.map Prod.snd).foldl holdPlace g, tasks.map fun _ => .ok ()) := by
    refine ⟨⟨hheld.listed, List.length_map _, fun i hi => by cases hi⟩, hheld, ⟨fun _ _ => rfl, fun _ _ => rfl⟩,
      .refl _, fun _ _ => rfl, fun x => ?_, fun x => ?_⟩
    all_goals simp [Entered]
  have hnodup : (Batch.order (tasks.map Prod.snd)).Nodup := (Batch.order_perm _).nodup_iff.mpr List.nodup_range
  rw [hl] at hnodup
  have hrun := hstart.run hheld.listed (fun e he key hk => reserved_holdPlaces (List.mem_map_of_mem he) hk g)
    (l := l) (by
    rw [List.nil_append]
    exact (List.nodup_append.mp hnodup).1)
  rwa [List.nil_append] at hrun

/-- The batch as it stands when all its entries are registered, with their places still held. -/
def registered (g : Graph τ) (tasks : List (Option Snap.Task × Registration τ)) :
    Graph τ × List (Except RegisterError Unit) :=
  (Batch.order (tasks.map Prod.snd)).foldl (registerAt tasks)
    ((tasks.map Prod.snd).foldl holdPlace g, tasks.map fun _ => .ok ())

theorem registerTasks_eq (g : Graph τ) (tasks : List (Option Snap.Task × Registration τ)) : g.registerTasks tasks =
    (((tasks.map Prod.snd).zip (g.registered tasks).2).foldl dropPlace (g.registered tasks).1, (g.registered tasks).2) :=
  rfl

theorem before_eq {l rest : List ℕ} (hl : Batch.order (tasks.map Prod.snd) = l ++ i :: rest) (hi : i ∉ l)
    (g : Graph τ) :
    g.before tasks i = l.foldl (registerAt tasks)
      ((tasks.map Prod.snd).foldl holdPlace g, tasks.map fun _ => .ok ()) := by
  unfold before
  rw [hl, List.takeWhile_append_of_pos fun j hj => by simpa using fun he : j = i => hi (he ▸ hj),
    List.takeWhile_cons_of_neg (by simp), List.append_nil]

theorem Welcoming.before (h : g.Welcoming pending) (hi : i < tasks.length) :
    (g.before tasks i).1.Welcoming fun s => places (tasks.map Prod.snd) s ++ pending s := by
  have hlt : i < (tasks.map Prod.snd).length := by simpa using hi
  obtain ⟨rest, hsplit, hfirst, -⟩ := Batch.order_split hlt
  rw [before_eq hsplit hfirst]
  exact (enrolling_before h tasks hsplit).welcoming

theorem registered_after (h : g.Welcoming pending) {saved : Option Snap.Task} {r : Registration τ}
    (he : tasks[i]? = some (saved, r)) :
    (g.registered tasks).2[i]? = some ((g.before tasks i).1.registerOne saved r).2 ∧
      Retains ((g.before tasks i).1.registerOne saved r).1 (g.registered tasks).1 ∧
      Adds ((g.before tasks i).1.registerOne saved r).1 (g.registered tasks).1 := by
  have hi : i < tasks.length := (List.getElem?_eq_some_iff.mp he).1
  have hlt : i < (tasks.map Prod.snd).length := by simpa using hi
  obtain ⟨rest, hsplit, hfirst, hrest⟩ := Batch.order_split hlt
  have hrun := enrolling_before h tasks hsplit
  rw [← before_eq hsplit hfirst] at hrun
  have hstep : registerAt tasks (g.before tasks i) i =
      (((g.before tasks i).1.registerOne saved r).1,
        (g.before tasks i).2.set i ((g.before tasks i).1.registerOne saved r).2) := by
    unfold registerAt
    rw [he]
  have hend : g.registered tasks = rest.foldl (registerAt tasks) (registerAt tasks (g.before tasks i) i) := by
    rw [before_eq hsplit hfirst, registered]
    conv_lhs => rw [hsplit]
    rw [List.foldl_append, List.foldl_cons]
  rw [hend, hstep]
  obtain ⟨hresult, hretains, hadds⟩ := settled_later tasks (((g.before tasks i).1.registerOne saved r).1,
    (g.before tasks i).2.set i ((g.before tasks i).1.registerOne saved r).2) hrest (hrun.welcoming.registerOne saved r)
  refine ⟨hresult.trans ?_, hretains, hadds⟩
  exact List.getElem?_set_self (by rw [hrun.registering.length]; exact hi)

theorem mem_before (h : g.Welcoming pending) {l rest : List ℕ}
    (hl : Batch.order (tasks.map Prod.snd) = l ++ i :: rest) (hx : x ∈ (g.before tasks i).1.tasks) :
    x ∈ g.tasks ∨ Entered tasks (g.registered tasks).2 l false x := by
  have hnodup : (Batch.order (tasks.map Prod.snd)).Nodup := (Batch.order_perm _).nodup_iff.mpr List.nodup_range
  rw [hl] at hnodup
  have hlater := (List.nodup_append.mp hnodup).2.2
  have hi : i ∉ l := fun hin => hlater i hin i List.mem_cons_self rfl
  have hrun := enrolling_before h tasks hl
  rw [← before_eq hl hi] at hrun
  have hmem := (hrun.members x).mp hx
  have hsame : ((tasks.map Prod.snd).foldl holdPlace g).tasks = g.tasks :=
    congrArg Prod.fst (ledger_holdPlaces (tasks.map Prod.snd) g)
  rw [hsame] at hmem
  refine hmem.imp_right ?_
  rintro ⟨j, hj, e, he, hok, hfolder⟩
  have hj' : j ∉ i :: rest := fun hin => hlater j hj j hin rfl
  refine ⟨j, hj, e, he, ?_, hfolder⟩
  have hend : g.registered tasks = (i :: rest).foldl (registerAt tasks) (g.before tasks i) := by
    rw [before_eq hl hi, registered]
    conv_lhs => rw [hl]
    rw [List.foldl_append]
  rw [hend, (settled_later tasks _ hj' hrun.welcoming).1]
  exact hok

theorem unmet_refused (h : g.Welcoming pending) {S : Set TaskId} (hS : ∀ x ∈ S, x ∉ g.tasks)
    (hclosed : ∀ (i : ℕ) saved (t : TaskRegistration τ), tasks[i]? = some (saved, .task t) → t.taskId ∈ S →
      (g.registered tasks).2[i]? ≠ some (.ok ()) ∨ ∃ y ∈ S, .id y ∈ t.def'.deps)
    {l rest : List ℕ} (hl : Batch.order (tasks.map Prod.snd) = l ++ rest) (hi : i ∈ l) {saved : Option Snap.Task}
    {t : TaskRegistration τ} (he : tasks[i]? = some (saved, .task t))
    (ht : t.taskId ∈ S ∨ ∃ y ∈ S, .id y ∈ t.def'.deps) : (g.registered tasks).2[i]? ≠ some (.ok ()) := by
  induction l using List.reverseRecOn generalizing rest i saved t with
  | nil => cases hi
  | append_singleton l j ih =>
    rw [List.append_assoc] at hl
    rcases List.mem_append.mp hi with hi | hi
    · exact ih hl hi he ht
    · obtain rfl := List.mem_singleton.mp hi
      intro hok
      have hdep : ∃ y ∈ S, .id y ∈ t.def'.deps :=
        ht.elim (fun hin => (hclosed i saved t he hin).resolve_left (· hok)) id
      obtain ⟨y, hy, hdep⟩ := hdep
      have hnodup : (Batch.order (tasks.map Prod.snd)).Nodup := (Batch.order_perm _).nodup_iff.mpr List.nodup_range
      rw [hl] at hnodup
      have hfirst : i ∉ l := fun hin => (List.nodup_append.mp hnodup).2.2 i hin i List.mem_cons_self rfl
      have hresult := (registered_after h he).1
      rw [hok] at hresult
      have hbefore := h.before (List.getElem?_eq_some_iff.mp he).1
      obtain ⟨err, hrefused⟩ | ⟨-, -, -, -, hdeps⟩ := (registerOne_spec hbefore saved (.task t)).2
      · rw [hrefused] at hresult
        cases hresult
      obtain ⟨deps, hres, -⟩ := hdeps t rfl
      rcases mem_before h hl (mem_of_resolved_id hres hdep) with hin | ⟨j, hj, ⟨saved', r⟩, he', hok', hfolder, hid⟩
      · exact hS y hy hin
      · cases r with
        | folder d => cases hfolder
        | task t' =>
          obtain rfl : t'.taskId = y := hid
          exact ih hl hj he' (.inl hy) hok'

theorem ledger_registerTasks (g : Graph τ) (tasks : List (Option Snap.Task × Registration τ)) :
    (g.registerTasks tasks).1.ledger = (g.registered tasks).1.ledger :=
  ledger_dropPlaces _ _

theorem enrolled (h : g.Welcoming fun _ => []) (tasks : List (Option Snap.Task × Registration τ)) :
    Enrolled g tasks (g.registerTasks tasks).1 (g.registerTasks tasks).2 := by
  have hperm := Batch.order_perm (tasks.map Prod.snd)
  rw [List.length_map] at hperm
  have hrun := enrolling_before h tasks (List.append_nil _).symm
  have hsame := ledger_registerTasks g tasks
  simp only [ledger, Prod.mk.injEq] at hsame
  obtain ⟨htasks, hfolders, hedges, htags⟩ := hsame
  have hheld := ledger_holdPlaces (tasks.map Prod.snd) g
  simp only [ledger, Prod.mk.injEq] at hheld
  have hentered (folder : Bool) (x : TaskId) :
      Entered tasks (g.registered tasks).2 (Batch.order (tasks.map Prod.snd)) folder x ↔
        Entered tasks (g.registered tasks).2 (List.range tasks.length) folder x := by
    unfold Entered
    simp only [hperm.mem_iff]
  have htidy : (g.registerTasks tasks).1.Listed fun _ => [] := h.listed.registerTasks tasks
  refine ⟨hperm, hrun.registering.length, fun i saved r he => (registered_after h he).1, fun i saved r he hok => ?_,
    fun i saved r err he herr => ?_, fun x => ?_, fun x => ?_, fun x hx => ?_, fun s p hp hn => ?_,
    fun S hS hclosed i saved t he ht => ?_, fun s p l hl => ?_⟩
  · obtain ⟨hresult, hretains, hadds⟩ := registered_after h he
    have hbefore := h.before (List.getElem?_eq_some_iff.mp he).1
    have hok : (g.registered tasks).2[i]? = some (.ok ()) := hok
    rw [hresult] at hok
    obtain ⟨err, hrefused⟩ | ⟨-, hholds, hmem, -, hdeps⟩ := (registerOne_spec hbefore saved r).2
    · rw [hrefused] at hok
      cases hok
    have hin := hholds.adds hadds
    refine ⟨?_, fun t ht => ?_⟩
    · unfold Holds at hin ⊢
      rwa [htasks, hfolders]
    · obtain ⟨deps, hres, hd⟩ := hdeps t ht
      refine ⟨deps, hres, ?_⟩
      rw [hedges, hretains.edges t.taskId ((hmem t.taskId).mpr (.inr ?_)), hd]
      subst ht
      exact ⟨rfl, rfl⟩
  · have hresult := (registered_after h he).1
    have hbefore := h.before (List.getElem?_eq_some_iff.mp he).1
    obtain ⟨err', hrefused⟩ | ⟨hok, -⟩ := (registerOne_spec hbefore saved r).2
    · rw [hrefused]
    · have herr : (g.registered tasks).2[i]? = some (.error err) := herr
      rw [hresult, hok] at herr
      cases herr
  · rw [htasks]
    refine (hrun.members x).trans ?_
    rw [hheld.1]
    exact or_congr_right (hentered false x)
  · rw [hfolders]
    refine (hrun.shelves x).trans ?_
    rw [hheld.2.1]
    exact or_congr_right (hentered true x)
  · have hshape := hrun.welcoming.sound.shape
    rw [htasks] at hx
    have hnot := hx ∘ mem_keys.mp
    rw [hedges, htags]
    refine ⟨hshape.no_deps hnot, fun y hy => hnot (hshape.target y x hy), fun tag htag => ?_⟩
    obtain ⟨t, ht, -⟩ := (index_of_sane hrun.welcoming.sane tag x).mp htag
    exact hx (Finmap.mem_of_lookup_eq_some ht)
  · obtain ⟨q, hq⟩ := (htidy.held s).full (TrieNode.namesAt_ne_none.mp hn) hp
    cases hc : ((g.registerTasks tasks).1.trie s).content (p ++ q) with
    | mk task folder =>
      cases task with
      | some x => exact ⟨q, x, .inl ((htidy.tasks s (p ++ q) x).mp (by rw [hc]))⟩
      | none =>
        cases folder with
        | some x => exact ⟨q, x, .inr ((htidy.folders s (p ++ q) x).mp (by rw [hc]))⟩
        | none => exact absurd hc hq
  · exact unmet_refused h hS hclosed (List.append_nil _).symm
      (hperm.mem_iff.mpr (List.mem_range.mpr (List.getElem?_eq_some_iff.mp he).1)) he ht
  · obtain ⟨l', hl', hsub⟩ := names_dropPlaces _ _ hl
    refine ⟨l', ?_, hsub⟩
    rw [← hl']
    exact (hrun.names s p).symm

end batch

end Graph

namespace Kernel

variable {τ : Type} [Task τ] {k : Kernel τ}

theorem welcoming (h : Reachable k ∨ Booted k) (nextTaskId : TaskId) (now : Instant) :
    ({ k.graph with nextTaskId, now } : Graph τ).Welcoming fun _ => [] := by
  have hk : k.graph.Welcoming fun _ => [] := by
    rcases h with h | h
    · exact ⟨(valid_of_reachable h).sound, h.tidy, h.sane.1, h.sane.2⟩
    · have hf : Founded (anyTerms τ) k := h.founded id
      exact ⟨(valid_booted h).sound, h.tidy, hf.sound.1, hf.sound.2⟩
  exact ⟨hk.sound.same rfl rfl rfl, ⟨hk.listed.held, hk.listed.tasks, hk.listed.folders, hk.listed.apart⟩,
    hk.told, hk.sane⟩

def needy : TaskRegistration ChannelTask where
  taskId := 2
  allocated := two_ne_init
  def' := { deps := [.id 1] }
  factory _ := ⟨[], false⟩

def returning : List (Option Snap.Task × Registration ChannelTask) := [(none, .task lone), (none, .task needy)]

end Kernel

end Dekit
