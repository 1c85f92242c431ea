import Dekit.Placing
import Dekit.Refusals
import Dekit.Updating

/-! `register_tasks`: what a batch leaves behind, whatever order it was registered in. -/

namespace Dekit

namespace TrieNode

variable {n m : TrieNode} {p path : TaskPath}

theorem namesAt_set (n : TrieNode) (name : String) (child : TrieNode) :
    (n.setChildren (Children.set n.children name child)).namesAt [] = n.namesAt [] := by
  rw [namesAt_nil, namesAt_nil, children_setChildren, Children.set, Assoc.keys_set]

theorem namesAt_ne_none : n.namesAt p ≠ none ↔ n.at' p ≠ none := by
  unfold namesAt at'
  simp

theorem namesAt_make {f : TrieNode → TrieNode} (hkids : ∀ m, (f m).children = m.children) (path : TaskPath)
    (place : Place) {q : TaskPath} (hq : n.namesAt q ≠ none) (p : TaskPath) :
    (n.make path place f q).namesAt p = n.namesAt p := by
  induction q generalizing n p with
  | nil =>
    rw [make]
    cases p with
    | nil => simp [namesAt, walkTo, hkids]
    | cons name p => rw [namesAt_cons, namesAt_cons, hkids]
  | cons name q ih =>
    rw [namesAt_cons] at hq
    cases hc : n.children.lookup name with
    | none => exact absurd (by rw [hc]; rfl) hq
    | some child =>
      have hcq : child.namesAt q ≠ none := by rwa [hc] at hq
      rw [make, hc]
      simp only
      cases p with
      | nil => exact namesAt_set n name _
      | cons x p =>
        rw [namesAt_cons, namesAt_cons, children_setChildren, Children.set, Assoc.lookup_set]
        by_cases hx : x = name
        · subst hx
          rw [if_pos rfl, hc]
          exact ih hcq p
        · rw [if_neg hx]

theorem namesAt_prune {l : List String} (h : (n.prune path).namesAt p = some l) :
    ∃ l', n.namesAt p = some l' ∧ l.Sublist l' := by
  induction path generalizing n p l with
  | nil => exact ⟨l, h, .refl l⟩
  | cons name path ih =>
    rw [prune] at h
    cases hc : n.children.lookup name with
    | none =>
      rw [hc] at h
      exact ⟨l, h, .refl l⟩
    | some child =>
      rw [hc] at h
      simp only at h
      split at h
      · cases p with
        | nil =>
          obtain rfl := Option.some.inj h
          refine ⟨_, rfl, ?_⟩
          simp only [children_setChildren]
          exact List.filter_sublist.map _
        | cons x p =>
          rw [namesAt_cons, children_setChildren, Children.remove, Assoc.lookup_erase] at h
          rw [namesAt_cons]
          split at h
          · cases h
          · exact ⟨l, h, .refl l⟩
      · cases p with
        | nil =>
          rw [namesAt_set] at h
          exact ⟨l, h, .refl l⟩
        | cons x p =>
          rw [namesAt_cons, children_setChildren, Children.set, Assoc.lookup_set] at h
          rw [namesAt_cons]
          by_cases hx : x = name
          · subst hx
            rw [if_pos rfl, hc] at h
            rw [hc]
            exact ih h
          · rw [if_neg hx] at h
            exact ⟨l, h, .refl l⟩

end TrieNode

namespace PathTrie

variable {t t' : PathTrie} {path p q : TaskPath} {id : TaskId} {place : Place}

theorem insert_made (hok : t.insert path id place = .ok t') :
    t.taskAbove path = none ∧ t' = ⟨t.root.make path place (TrieNode.setTask (some id)) path⟩ := by
  unfold insert at hok
  cases habove : t.taskAbove path with
  | some above => rw [habove] at hok; cases hok
  | none =>
    refine ⟨rfl, ?_⟩
    rw [habove] at hok
    simp only at hok
    split at hok
    · split at hok
      · cases hok
      · split at hok
        · cases hok
        · exact (Except.ok.inj hok).symm
    · exact (Except.ok.inj hok).symm

theorem insertFolder_made (hok : t.insertFolder path id place = .ok t') :
    t.taskAbove path = none ∧ t' = ⟨t.root.make path place (TrieNode.setFolder (some id)) path⟩ := by
  unfold insertFolder at hok
  cases habove : t.taskAbove path with
  | some above => rw [habove] at hok; cases hok
  | none =>
    refine ⟨rfl, ?_⟩
    rw [habove] at hok
    simp only at hok
    split at hok
    · cases hok
    · exact (Except.ok.inj hok).symm

theorem names_insert (hok : t.insert path id place = .ok t')
    (hpath : t.root.namesAt path ≠ none ∨ t.taskAbove path ≠ none)
    (p : TaskPath) : t'.root.namesAt p = t.root.namesAt p := by
  obtain ⟨habove, rfl⟩ := insert_made hok
  exact TrieNode.namesAt_make (fun m => by cases m; rfl) path place (hpath.resolve_right (· habove)) p

theorem names_insertFolder (hok : t.insertFolder path id place = .ok t')
    (hpath : t.root.namesAt path ≠ none ∨ t.taskAbove path ≠ none) (p : TaskPath) :
    t'.root.namesAt p = t.root.namesAt p := by
  obtain ⟨habove, rfl⟩ := insertFolder_made hok
  exact TrieNode.namesAt_make (fun m => by cases m; rfl) path place (hpath.resolve_right (· habove)) p

theorem names_place (t : PathTrie) (path : TaskPath) (place : Place) :
    ((t.place path place).root.namesAt path ≠ none ∨ t.taskAbove path ≠ none) ∧
      ∀ p, t.root.namesAt p ≠ none → (t.place path place).root.namesAt p ≠ none := by
  unfold PathTrie.place
  split
  · simp only [TrieNode.namesAt_ne_none]
    refine ⟨.inl ?_, fun p hp => ?_⟩
    · rw [TrieNode.at_make (φ := fun s => s) (fun _ => rfl) fun _ => rfl]
      simp
    · rw [TrieNode.at_make (φ := fun s => s) (fun _ => rfl) fun _ => rfl]
      split
      · simp
      · split
        · simp
        · exact hp
  · rename_i habove
    exact ⟨.inr (by simpa using habove), fun _ hp => hp⟩

end PathTrie

namespace Graph

variable {τ : Type} {g g' : Graph τ} {id x : TaskId} {pending : TaskSpaceId → List TaskPath}

def Reserved (g : Graph τ) (key : TaskKey) : Prop :=
  (g.trie key.space).root.namesAt key.path ≠ none ∨ (g.trie key.space).taskAbove key.path ≠ none

theorem trie_setPaths (g : Graph τ) (name : TaskSpaceId) (paths : PathTrie) (s : TaskSpaceId) :
    ({ g with ns := g.ns.setPaths name paths } : Graph τ).trie s = if s = name then paths else g.trie s :=
  Namespace.paths_setPaths _ _ _ _

theorem holdPlace_none {r : Registration τ} (hk : r.key = none) (g : Graph τ) : g.holdPlace r = g := by
  unfold holdPlace
  rw [hk]

theorem trie_holdPlace {r : Registration τ} {key : TaskKey} (hk : r.key = some key) (g : Graph τ) (s : TaskSpaceId) :
    (g.holdPlace r).trie s = if s = key.space then (g.trie key.space).place key.path r.place else g.trie s := by
  unfold holdPlace
  rw [hk]
  exact trie_setPaths g _ _ s

theorem content_holdPlace (g : Graph τ) (r : Registration τ) (s : TaskSpaceId) (p : TaskPath) :
    ((g.holdPlace r).trie s).content p = (g.trie s).content p := by
  cases hk : r.key with
  | none => rw [holdPlace_none hk]
  | some key =>
    rw [trie_holdPlace hk]
    split
    · rename_i hs
      rw [hs, PathTrie.content_place]
    · rfl

theorem taskAbove_congr {t t' : PathTrie} {path : TaskPath} (h : ∀ p, (t.content p).1 ≠ none → (t'.content p).1 ≠ none)
    (habove : t.taskAbove path ≠ none) : t'.taskAbove path ≠ none := by
  obtain ⟨q, hq, hne, hc⟩ := PathTrie.exists_taskAbove habove
  exact PathTrie.taskAbove_some hq hne (h q hc)

theorem Reserved.holdPlace {key : TaskKey} (h : g.Reserved key) (r : Registration τ) :
    (g.holdPlace r).Reserved key := by
  refine h.imp (fun hn => ?_) (taskAbove_congr fun p => by rw [content_holdPlace]; exact id)
  cases hk : r.key with
  | none => rwa [holdPlace_none hk]
  | some key' =>
    rw [trie_holdPlace hk]
    split
    · rename_i hs
      rw [hs] at hn
      exact (PathTrie.names_place _ _ _).2 _ hn
    · exact hn

theorem reserved_holdPlace (g : Graph τ) {r : Registration τ} {key : TaskKey} (hk : r.key = some key) :
    (g.holdPlace r).Reserved key := by
  have hplace := (PathTrie.names_place (g.trie key.space) key.path r.place).1
  refine hplace.imp (fun hn => ?_) (taskAbove_congr fun p => by rw [content_holdPlace]; exact id)
  rw [trie_holdPlace hk, if_pos rfl]
  exact hn

theorem reserved_holdPlaces {rs : List (Registration τ)} {r : Registration τ} (hr : r ∈ rs) {key : TaskKey}
    (hk : r.key = some key) (g : Graph τ) : (rs.foldl Graph.holdPlace g).Reserved key := by
  have hkeep (rs : List (Registration τ)) (g : Graph τ) (h : g.Reserved key) :
    (rs.foldl Graph.holdPlace g).Reserved key :=
    Fold.foldl_invariant (P := fun g : Graph τ => g.Reserved key) (fun _ h r _ => h.holdPlace r) h
  induction rs generalizing g with
  | nil => cases hr
  | cons r' rs ih =>
    rcases List.mem_cons.mp hr with rfl | hr
    · exact hkeep rs _ (reserved_holdPlace g hk)
    · exact ih hr _

theorem names_dropPlace (g : Graph τ) (e : Registration τ × Except RegisterError Unit) {s : TaskSpaceId} {p : TaskPath}
    {l : List String} (h : ((g.dropPlace e).trie s).root.namesAt p = some l) :
    ∃ l', (g.trie s).root.namesAt p = some l' ∧ l.Sublist l' := by
  obtain ⟨r, result⟩ := e
  unfold dropPlace at h
  cases hk : r.key with
  | none =>
    rw [hk] at h
    exact ⟨l, h, .refl l⟩
  | some key =>
    rw [hk] at h
    cases result with
    | ok _ => exact ⟨l, h, .refl l⟩
    | error err =>
      have htrie := trie_setPaths g key.space ((g.trie key.space).prune key.path) s
      have hl : (if s = key.space then (g.trie key.space).prune key.path else g.trie s).root.namesAt p = some l := by
        rw [← htrie]
        exact h
      split at hl
      · rename_i hs
        rw [hs]
        exact TrieNode.namesAt_prune hl
      · exact ⟨l, hl, .refl l⟩

theorem names_dropPlaces (es : List (Registration τ × Except RegisterError Unit)) (g : Graph τ) {s : TaskSpaceId}
    {p : TaskPath} {l : List String} (h : ((es.foldl dropPlace g).trie s).root.namesAt p = some l) :
    ∃ l', (g.trie s).root.namesAt p = some l' ∧ l.Sublist l' := by
  induction es generalizing g with
  | nil => exact ⟨l, h, .refl l⟩
  | cons e es ih =>
    obtain ⟨l₁, h₁, hsub₁⟩ := ih _ h
    obtain ⟨l₂, h₂, hsub₂⟩ := names_dropPlace g e h₁
    exact ⟨l₂, h₂, hsub₁.trans hsub₂⟩

section registering

variable [Task τ]

theorem names_registerOne (g : Graph τ) (saved : Option Snap.Task) (r : Registration τ)
    (hres : ∀ key, r.key = some key → g.Reserved key) (s : TaskSpaceId) (p : TaskPath) :
    ((g.registerOne saved r).1.trie s).root.namesAt p = (g.trie s).root.namesAt p := by
  cases r with
  | task r =>
    rw [show g.registerOne saved (.task r) = g.registerTaskWithId r.taskId r.def' r.factory saved from rfl]
    rcases Listed.registerTaskWithId_cases g r.taskId r.def' r.factory saved with
      ⟨err, he⟩ | ⟨ns, deps, t, timer, -, -, -, hhome, hns, he⟩
    · rw [he]
    · rw [he]
      have hstays := Listed.stays_installTask ({ g with ns } : Graph τ) r.taskId r.def' deps t timer
      rw [show (_ : Graph τ).trie s = _ from hstays.paths s]
      rcases hns with ⟨-, rfl⟩ | ⟨path, place, hpath, hins⟩
      · rfl
      · obtain ⟨hspace, hp⟩ := Prod.mk.inj hhome
        unfold Namespace.insert at hins
        cases hok : (g.ns.space t.space).paths.insert path r.taskId place with
        | error err => simp [hok, Except.map] at hins
        | ok paths =>
          rw [hok] at hins
          obtain rfl : g.ns.setPaths t.space paths = ns := Except.ok.inj hins
          have hkey : (Registration.task r).key = some ⟨t.space, path⟩ := by
            unfold Registration.key
            simp only
            rw [← hp, hpath, hspace]
            rfl
          refine (congrArg (fun t : PathTrie => t.root.namesAt p) (trie_setPaths g _ _ s)).trans ?_
          split
          · rename_i hs
            rw [hs]
            exact PathTrie.names_insert hok (hres _ hkey) p
          · rfl
  | folder d =>
    rw [show g.registerOne saved (.folder d) = g.registerFolder d from rfl]
    rcases Listed.registerFolder_cases g d with ⟨err, he⟩ | ⟨ns, g', -, -, hins, hstays, he⟩
    · rw [he]
    · rw [he]
      rw [show (_ : Graph τ).trie s = _ from hstays.paths s]
      unfold Namespace.insertFolder at hins
      cases hok : (g.ns.space d.space).paths.insertFolder d.path d.id d.place with
      | error err => simp [hok, Except.map] at hins
      | ok paths =>
        rw [hok] at hins
        obtain rfl : g.ns.setPaths d.space paths = ns := Except.ok.inj hins
        refine (congrArg (fun t : PathTrie => t.root.namesAt p) (trie_setPaths g _ _ s)).trans ?_
        split
        · rename_i hs
          rw [hs]
          exact PathTrie.names_insertFolder hok (hres _ rfl) p
        · rfl

omit [Task τ] in
theorem edges_setTags (g : Graph τ) (id : TaskId) (tags : List String) : (g.setTags id tags).edges = g.edges :=
  congrArg View.deps (Still.setTags g id tags).toQuiet.view

theorem Aside.edges (h : Aside g g') : g'.edges = g.edges := congrArg Records.deps h.records

theorem edges_installTask (hid : id ∉ g.tasks) (hne : id ≠ initTaskId) (hnone : g.edges id = ∅) {deps : List TaskId}
    (hdeps : ∀ d ∈ deps, d ≠ initTaskId ∧ d ∈ g.tasks) (def' : TaskDef τ) (t : TaskHandle τ) (timer : Option Duration)
    (x : TaskId) : (g.installTask id def' deps t timer).edges x =
      if x = id then deps.toFinset else if x = initTaskId ∧ def'.pinned then insert id (g.edges x) else g.edges x := by
  unfold installTask
  simp only
  rw [(Aside.notifySubscribers _ _ _ _ _).edges, (Aside.enqueue _ _).edges]
  have hmem (y : TaskId) : y ∈ (((g.insertTask id t).scheduleAny id timer).setTags id def'.tags).tasks ↔
      y = id ∨ y ∈ g.tasks :=
    (((Stays.scheduleAny (g.insertTask id t) id timer).trans (.setTags _ id def'.tags)).mem y).trans Finmap.mem_insert
  have hedges : (((g.insertTask id t).scheduleAny id timer).setTags id def'.tags).edges = g.edges := by
    rw [edges_setTags, (Aside.scheduleAny _ _ _).edges]
    rfl
  generalize ((g.insertTask id t).scheduleAny id timer).setTags id def'.tags = g₁ at hmem hedges
  have hsrc : id = initTaskId ∨ id ∈ g₁.tasks := .inr ((hmem id).mpr (.inl rfl))
  have hall := edges_addEdges hsrc (l := deps) fun d hd => by
    obtain ⟨hi, hd⟩ := hdeps d hd
    exact ⟨fun he => hid (he ▸ hd), hi, (hmem d).mpr (.inr hd)⟩
  have hin : id ∈ (deps.foldl (fun g dep => g.addEdge id dep) g₁).tasks :=
    (((Stays.addEdges id deps g₁).mem id).trans (hmem id)).mpr (.inl rfl)
  rw [hedges, hnone, Finset.empty_union] at hall
  split
  · rename_i hp
    rw [edges_addEdge (Ne.symm hne) hne hin (.inl rfl), hall]
    by_cases hx : x = id
    · subst hx
      rw [Function.update_of_ne hne, Function.update_self, if_pos rfl]
    · rw [if_neg hx]
      by_cases hi : x = initTaskId
      · subst hi
        rw [Function.update_self, Function.update_of_ne hx, if_pos ⟨rfl, hp⟩]
      · rw [Function.update_of_ne hi, Function.update_of_ne hx, if_neg (fun h => hi h.1)]
  · rename_i hp
    rw [hall]
    by_cases hx : x = id
    · subst hx
      rw [Function.update_self, if_pos rfl]
    · rw [if_neg hx, Function.update_of_ne hx, if_neg (fun h => hp h.2)]

/-- What a batch takes for granted of the graph it goes into. -/
structure Welcoming (g : Graph τ) (pending : TaskSpaceId → List TaskPath) : Prop where
  sound : Sound ∅ g
  listed : g.Listed pending
  told : Told (anyTerms τ) g
  sane : g.records.Sane (anyTerms τ)

theorem Welcoming.registerOne (h : g.Welcoming pending) (saved : Option Snap.Task) (r : Registration τ) :
    (g.registerOne saved r).1.Welcoming pending := by
  obtain ⟨htold, hedits⟩ := Writes.registerOne (I := anyTerms τ) g (r := r) (fun hfit => hfit.elim) h.told h.sane
  refine ⟨?_, h.listed.registerOne saved r, htold, hedits.sane h.sane⟩
  cases r with
  | task r => exact h.sound.registerTaskWithId r.allocated _ _ _
  | folder d =>
    rw [show g.registerOne saved (.folder d) = g.registerFolder d from rfl]
    unfold Graph.registerFolder
    split
    · exact h.sound
    · split
      · exact h.sound
      · rename_i ns _
        have hsound : Sound ∅
          ({ g with ns, folders := g.folders.insert d.id ⟨d.space, d.path, d.settings⟩ } : Graph τ) :=
          h.sound.same rfl rfl rfl
        exact hsound.quiet (.notifySubscribers _ d.id d.space (some d.path) _)

omit [Task τ] in
theorem mem_of_resolved_id {selectors : List TaskSelector} {deps : List TaskId} (h : g.resolveDeps selectors = .ok deps)
    (hd : .id id ∈ selectors) : id ∈ g.tasks := by
  unfold resolveDeps at h
  generalize ([] : List TaskId) = acc at h
  induction selectors generalizing acc with
  | nil => cases hd
  | cons selector selectors ih =>
    rw [List.foldlM_cons] at h
    simp only at h
    by_cases hempty : (g.matchingIds selector).isEmpty = true
    · rw [if_pos hempty] at h
      cases h
    · rw [if_neg hempty] at h
      rcases List.mem_cons.mp hd with rfl | hd
      · by_contra hid
        simp [matchingIds, hid] at hempty
      · exact ih hd _ h

/-- What was there has the edges it had. -/
structure Retains (g g' : Graph τ) : Prop where
  mem : ∀ x ∈ g.tasks, x ∈ g'.tasks
  edges : ∀ x ∈ g.tasks, g'.edges x = g.edges x

theorem registerOne_spec (h : g.Welcoming pending) (saved : Option Snap.Task) (r : Registration τ) :
    Retains g (g.registerOne saved r).1 ∧
    ((∃ err, g.registerOne saved r = (g, .error err)) ∨
      (g.registerOne saved r).2 = .ok () ∧ (g.registerOne saved r).1.Holds r ∧
        (∀ x, x ∈ (g.registerOne saved r).1.tasks ↔ x ∈ g.tasks ∨ r.isFolder = false ∧ r.id = x) ∧
        (∀ x, x ∈ (g.registerOne saved r).1.folders ↔ x ∈ g.folders ∨ r.isFolder = true ∧ r.id = x) ∧
        ∀ t, r = .task t → ∃ deps, g.resolveDeps t.def'.deps = .ok deps ∧
          (g.registerOne saved r).1.edges t.taskId = deps.toFinset) := by
  have hholds := (registerOne_holds g saved r).2
  cases r with
  | task r =>
    have hreg : g.registerOne saved (.task r) = g.registerTaskWithId r.taskId r.def' r.factory saved := rfl
    rcases Listed.registerTaskWithId_cases g r.taskId r.def' r.factory saved with
      ⟨err, he⟩ | ⟨ns, deps, t, timer, hid, hfid, hres, -, -, he⟩
    · rw [hreg, he]
      exact ⟨⟨fun _ hx => hx, fun _ _ => rfl⟩, .inl ⟨err, rfl⟩⟩
    · have hmem (x : TaskId) : x ∈ (({ g with ns } : Graph τ).installTask r.taskId r.def' deps t timer).tasks ↔
          x = r.taskId ∨ x ∈ g.tasks :=
        ((Listed.stays_installTask ({ g with ns } : Graph τ) r.taskId r.def' deps t timer).mem x).trans Finmap.mem_insert
      have hnone : g.edges r.taskId = ∅ := h.sound.shape.no_deps (fun hin => hid (mem_keys.mp hin)) r.allocated
      have hdeps : ∀ d ∈ deps, d ≠ initTaskId ∧ d ∈ g.tasks := by
        intro d hd
        have hin := mem_of_resolved (fun _ _ hx => mem_of_matching h.listed h.sane hx) hres d hd
        exact ⟨h.sound.shape.ne_init (mem_keys.mpr hin), hin⟩
      have hedges (x : TaskId) :=
        edges_installTask (g := ({ g with ns } : Graph τ)) hid r.allocated hnone hdeps r.def' t
        timer x
      rw [hreg, he] at hholds ⊢
      refine ⟨⟨fun x hx => (hmem x).mpr (.inr hx), fun x hx => ?_⟩,
        .inr ⟨rfl, hholds rfl, fun x => ?_, fun x => ?_, ?_⟩⟩
      · have hne : x ≠ r.taskId := fun he => hid (he ▸ hx)
        have hinit := h.sound.shape.ne_init (mem_keys.mpr hx)
        rw [hedges, if_neg hne, if_neg (fun hi => hinit hi.1)]
      · rw [hmem]
        simp [Registration.isFolder, Registration.id, or_comm, eq_comm]
      · rw [(Listed.stays_installTask ({ g with ns } : Graph τ) r.taskId r.def' deps t timer).folders]
        simp [insertTask, Registration.isFolder]
      · intro t' ht'
        obtain rfl := Registration.task.inj ht'
        exact ⟨deps, hres, by rw [hedges, if_pos rfl]⟩
  | folder d =>
    have hreg : g.registerOne saved (.folder d) = g.registerFolder d := rfl
    have hedges := (Aside.registerFolder g d).edges
    rcases Listed.registerFolder_cases g d with ⟨err, he⟩ | ⟨ns, g', hid, hfid, -, hstays, he⟩
    · rw [hreg, he]
      exact ⟨⟨fun _ hx => hx, fun _ _ => rfl⟩, .inl ⟨err, rfl⟩⟩
    · rw [he] at hedges
      rw [hreg, he] at hholds ⊢
      have hmem (x : TaskId) : x ∈ g'.tasks ↔ x ∈ g.tasks := hstays.mem x
      refine ⟨⟨fun x hx => (hmem x).mpr hx, fun x _ => congrFun hedges x⟩,
        .inr ⟨rfl, hholds rfl, fun x => ?_, fun x => ?_, fun t ht => by cases ht⟩⟩
      · rw [hmem]
        simp [Registration.isFolder]
      · rw [hstays.folders, Finmap.mem_insert]
        simp [Registration.isFolder, Registration.id, or_comm, eq_comm]

end registering

end Graph

end Dekit
