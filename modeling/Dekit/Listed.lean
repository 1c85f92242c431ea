import Dekit.Homes
import Dekit.Moving
import Dekit.Queued

namespace Dekit

namespace Namespace

variable {ns : Namespace} {name s : TaskSpaceId}

@[simp] theorem paths_setPaths (ns : Namespace) (name : TaskSpaceId) (paths : PathTrie) (s : TaskSpaceId) :
    ((ns.setPaths name paths).space s).paths = if s = name then paths else (ns.space s).paths := by
  unfold setPaths space
  simp only [Finmap.lookup_insert_ite]
  split <;> rfl

@[simp] theorem paths_setSubs (ns : Namespace) (name : TaskSpaceId) (subs : SubTrie) (s : TaskSpaceId) :
    ((ns.setSubs name subs).space s).paths = (ns.space s).paths := by
  unfold setSubs space
  simp only [Finmap.lookup_insert_ite]
  split
  · rename_i h
    rw [h]
    rfl
  · rfl

theorem paths_removeSubscriber (ns : Namespace) (walk : Finset String → List String) (subscriber : TaskId)
    (s : TaskSpaceId) : ((ns.removeSubscriber walk subscriber).space s).paths = (ns.space s).paths := by
  unfold removeSubscriber
  exact Fold.foldl_keeps (p := fun ns : Namespace => (ns.space s).paths) (fun ns name => paths_setSubs _ _ _ _) _ ns

end Namespace

namespace Graph

variable {τ : Type} {g g' : Graph τ} {id : TaskId} {pending : TaskSpaceId → List TaskPath}

def trie (g : Graph τ) (s : TaskSpaceId) : PathTrie := (g.ns.space s).paths

/-- Every task and folder is at its path and nothing else is at any, but for the places that are held. -/
structure Listed (g : Graph τ) (pending : TaskSpaceId → List TaskPath) : Prop where
  held : ∀ s, (g.trie s).Held (pending s)
  tasks : ∀ s p id, ((g.trie s).content p).1 = some id ↔ (g.tasks.lookup id).map TaskHandle.home = some (s, some p)
  folders : ∀ s p id, ((g.trie s).content p).2 = some id ↔
    (g.folders.lookup id).map (fun f => (f.space, f.path)) = some (s, p)
  apart : ∀ id, id ∈ g.tasks → id ∉ g.folders

theorem Stays.mem (h : Stays g g') (x : TaskId) : x ∈ g'.tasks ↔ x ∈ g.tasks := by
  rw [← Finmap.lookup_isSome, ← Finmap.lookup_isSome]
  have := congrArg Option.isSome (h.homes x)
  rw [Option.isSome_map, Option.isSome_map] at this
  rw [this]

namespace Listed

theorem stays (h : g.Listed pending) (hs : Stays g g') : g'.Listed pending := by
  have htrie (s : TaskSpaceId) : g'.trie s = g.trie s := hs.paths s
  refine ⟨fun s => ?_, fun s p id => ?_, fun s p id => ?_, fun x hx => ?_⟩
  · rw [htrie]
    exact h.held s
  · rw [htrie, hs.homes]
    exact h.tasks s p id
  · rw [htrie, hs.folders]
    exact h.folders s p id
  · rw [hs.folders]
    exact h.apart x ((hs.mem x).mp hx)

theorem renamed (h : g.Listed pending) {ns : Namespace} {name : TaskSpaceId} {paths : PathTrie}
    (hns : ns = g.ns.setPaths name paths) {pending' : TaskSpaceId → List TaskPath}
    (hheld : paths.Held (pending' name)) (hother : ∀ s, s ≠ name → pending' s = pending s)
    (hcontent : ∀ p, paths.content p = (g.trie name).content p) : ({ g with ns } : Graph τ).Listed pending' := by
  have htrie (s : TaskSpaceId) : ({ g with ns } : Graph τ).trie s = if s = name then paths else g.trie s := by
    subst hns
    exact Namespace.paths_setPaths _ _ _ _
  have hsame (s : TaskSpaceId) (p : TaskPath) :
    (({ g with ns } : Graph τ).trie s).content p = (g.trie s).content p := by
    rw [htrie]
    split
    · rename_i hs
      rw [hs, hcontent]
    · rfl
  refine ⟨fun s => ?_, fun s p id => ?_, fun s p id => ?_, h.apart⟩
  · rw [htrie]
    split
    · rename_i hs
      rw [hs]
      exact hheld
    · rename_i hs
      rw [hother s hs]
      exact h.held s
  · rw [hsame]
    exact h.tasks s p id
  · rw [hsame]
    exact h.folders s p id

def push (pending : TaskSpaceId → List TaskPath) : Option TaskKey → TaskSpaceId → List TaskPath
  | some key => Function.update pending key.space (key.path :: pending key.space)
  | none => pending

theorem holdPlace (h : g.Listed pending) (r : Registration τ) : (g.holdPlace r).Listed (push pending r.key) := by
  unfold Graph.holdPlace
  cases r.key with
  | none => exact h
  | some key =>
    refine h.renamed rfl ?_ (fun s hs => Function.update_of_ne hs _ _) fun p => PathTrie.content_place _ _ _ p
    simp only [push, Function.update_self]
    exact (h.held key.space).place key.path r.place

theorem prune {key : TaskKey} (h : g.Listed (push pending (some key))) :
    ({ g with ns := g.ns.prune key } : Graph τ).Listed pending := by
  refine h.renamed rfl ?_ (fun s hs => (Function.update_of_ne hs _ _).symm) fun p => PathTrie.content_prune _ _ p
  have hk := h.held key.space
  simp only [push, Function.update_self] at hk
  exact hk.prune

theorem insertTask (h : g.Listed pending) {ns : Namespace} {t : TaskHandle τ} (hid : id ∉ g.tasks)
    (hfid : id ∉ g.folders)
    (hns : t.path = none ∧ ns = g.ns ∨ ∃ p place, t.path = some p ∧ g.ns.insert ⟨t.space, p⟩ id place = .ok ns) :
    (({ g with ns } : Graph τ).insertTask id t).Listed pending := by
  have hlookup (x : TaskId) : (({ g with ns } : Graph τ).insertTask id t).tasks.lookup x =
      if x = id then some t else g.tasks.lookup x := Finmap.lookup_insert_ite _ _ _ _
  have hnone : g.tasks.lookup id = none := Finmap.lookup_eq_none.mpr hid
  have hmem (x : TaskId) (hx : x ∈ (({ g with ns } : Graph τ).insertTask id t).tasks) : x = id ∨ x ∈ g.tasks :=
    (Finmap.mem_insert.mp hx)
  have hapart (x : TaskId) (hx : x ∈ (({ g with ns } : Graph τ).insertTask id t).tasks) : x ∉ g.folders := by
    rcases hmem x hx with rfl | hx
    · exact hfid
    · exact h.apart x hx
  rcases hns with ⟨hpath, rfl⟩ | ⟨p₀, place, hpath, hins⟩
  · refine ⟨h.held, fun s p x => ?_, h.folders, hapart⟩
    rw [hlookup]
    refine (h.tasks s p x).trans ?_
    split
    · rename_i hx
      rw [hx, hnone]
      simp [TaskHandle.home, hpath]
    · rfl
  · unfold Namespace.insert at hins
    cases hok : (g.ns.space t.space).paths.insert p₀ id place with
    | error err => simp [hok, Except.map] at hins
    | ok paths =>
      rw [hok] at hins
      obtain rfl : g.ns.setPaths t.space paths = ns := Except.ok.inj hins
      obtain ⟨hheld, hcontent, hfree⟩ := PathTrie.insert_ok (h.held t.space) hok
      have htrie (s : TaskSpaceId) : (({ g with ns := g.ns.setPaths t.space paths } : Graph τ).insertTask id t).trie s =
          if s = t.space then paths else g.trie s := Namespace.paths_setPaths _ _ _ _
      refine ⟨fun s => ?_, fun s p x => ?_, fun s p x => ?_, hapart⟩
      · rw [htrie]
        split
        · rename_i hs
          rw [hs]
          exact hheld
        · exact h.held s
      · rw [htrie, hlookup]
        by_cases hx : x = id
        · subst hx
          have hno (s : TaskSpaceId) (p : TaskPath) : ((g.trie s).content p).1 ≠ some x := by
            rw [Ne, h.tasks, hnone]
            simp
          simp only [if_true, Option.map_some, TaskHandle.home, hpath, Option.some.injEq, Prod.mk.injEq]
          split
          · rename_i hs
            rw [hcontent]
            split
            · rename_i hp
              simp [hs, hp]
            · rename_i hp
              refine iff_of_false (hno t.space p) ?_
              rintro ⟨-, rfl⟩
              exact hp rfl
          · rename_i hs
            refine iff_of_false (hno s p) ?_
            rintro ⟨rfl, -⟩
            exact hs rfl
        · rw [if_neg hx, ← h.tasks]
          split
          · rename_i hs
            rw [hcontent]
            split
            · rename_i hp
              rw [hs, hp, show (g.trie t.space).content p₀ = (none, none) from hfree]
              simpa using Ne.symm hx
            · rw [hs]
          · rfl
      · rw [htrie]
        refine Iff.trans ?_ (h.folders s p x)
        split
        · rename_i hs
          rw [hcontent, hs]
          split
          · rename_i hp
            rw [hp, show (g.trie t.space).content p₀ = (none, none) from hfree]
          · rfl
        · rfl

theorem mono {pending' : TaskSpaceId → List TaskPath} (h : g.Listed pending)
    (hp : ∀ s, ∀ r ∈ pending s, r ∈ pending' s) : g.Listed pending' :=
  ⟨fun s => (h.held s).mono (hp s), h.tasks, h.folders, h.apart⟩

theorem taken {key : TaskKey} (h : g.Listed (push pending (some key)))
    (hfull : (g.trie key.space).content key.path ≠ (none, none)) : g.Listed pending := by
  refine ⟨fun s => ?_, h.tasks, h.folders, h.apart⟩
  have hs := h.held s
  by_cases he : s = key.space
  · subst he
    simp only [push, Function.update_self] at hs
    refine ⟨hs.named, hs.one, hs.above, fun p hne hp hkids => ?_⟩
    obtain ⟨r, hr, q, hq⟩ := hs.live p hne hp hkids
    rcases List.mem_cons.mp hr with rfl | hr
    · exfalso
      have hat := PathTrie.at_of_content rfl hfull
      rw [← hq] at hat hfull
      cases q with
      | nil =>
        rw [List.append_nil] at hfull
        exact hfull (PathTrie.content_of_at hp)
      | cons x q =>
        have hnone := TrieNode.at_append_none (hkids x) q
        rw [List.append_assoc] at hnone
        rw [show p ++ x :: q = p ++ ([x] ++ q) from rfl, hnone] at hat
        cases hat
    · exact ⟨r, hr, q, hq⟩
  · have hsame : push pending (some key) s = pending s := Function.update_of_ne he _ _
    rwa [hsame] at hs

theorem insertFolder (h : g.Listed pending) {ns : Namespace} {folder : Folder} {place : Place} (hid : id ∉ g.tasks)
    (hfid : id ∉ g.folders) (hns : g.ns.insertFolder ⟨folder.space, folder.path⟩ id place = .ok ns) :
    ({ g with ns, folders := g.folders.insert id folder } : Graph τ).Listed pending := by
  unfold Namespace.insertFolder at hns
  cases hok : (g.ns.space folder.space).paths.insertFolder folder.path id place with
  | error err => simp [hok, Except.map] at hns
  | ok paths =>
    rw [hok] at hns
    obtain rfl : g.ns.setPaths folder.space paths = ns := Except.ok.inj hns
    obtain ⟨hheld, hcontent, hfree⟩ := PathTrie.insertFolder_ok (h.held folder.space) hok
    have hnone : g.folders.lookup id = none := Finmap.lookup_eq_none.mpr hfid
    have htrie (s : TaskSpaceId) : ({ g with
        ns := g.ns.setPaths folder.space paths
        folders := g.folders.insert id folder } : Graph τ).trie s = if s = folder.space then paths else g.trie s :=
      Namespace.paths_setPaths _ _ _ _
    refine ⟨fun s => ?_, fun s p x => ?_, fun s p x => ?_, fun x hx => ?_⟩
    · rw [htrie]
      split
      · rename_i hs
        rw [hs]
        exact hheld
      · exact h.held s
    · rw [htrie]
      refine Iff.trans ?_ (h.tasks s p x)
      split
      · rename_i hs
        rw [hcontent, hs]
        split
        · rename_i hp
          rw [hp, show (g.trie folder.space).content folder.path = (none, none) from hfree]
        · rfl
      · rfl
    · rw [htrie, Finmap.lookup_insert_ite]
      by_cases hx : x = id
      · subst hx
        have hno (s : TaskSpaceId) (p : TaskPath) : ((g.trie s).content p).2 ≠ some x := by
          rw [Ne, h.folders, hnone]
          simp
        simp only [if_true, Option.map_some, Option.some.injEq, Prod.mk.injEq]
        split
        · rename_i hs
          rw [hcontent]
          split
          · rename_i hp
            simp [hs, hp]
          · rename_i hp
            refine iff_of_false (hno folder.space p) ?_
            rintro ⟨-, rfl⟩
            exact hp rfl
        · rename_i hs
          refine iff_of_false (hno s p) ?_
          rintro ⟨rfl, -⟩
          exact hs rfl
      · rw [if_neg hx, ← h.folders]
        split
        · rename_i hs
          rw [hcontent]
          split
          · rename_i hp
            rw [hs, hp, show (g.trie folder.space).content folder.path = (none, none) from hfree]
            simpa using Ne.symm hx
          · rw [hs]
        · rfl
    · intro hin
      rcases Finmap.mem_insert.mp hin with rfl | hin
      · exact hid hx
      · exact h.apart x hx hin

theorem setFolder (h : g.Listed pending) (id : TaskId) (settings : FolderSettings) :
    (g.setFolder id settings).1.Listed pending := by
  unfold Graph.setFolder
  cases hf : g.folders.lookup id with
  | none => exact h
  | some folder =>
    refine ⟨h.held, h.tasks, fun s p x => ?_, fun x hx hin => ?_⟩
    · refine (h.folders s p x).trans ?_
      rw [Finmap.lookup_insert_ite]
      split
      · rename_i hx
        rw [hx, hf]
        rfl
      · rfl
    · rcases Finmap.mem_insert.mp hin with rfl | hin
      · exact h.apart x hx (Finmap.mem_of_lookup_eq_some hf)
      · exact h.apart x hx hin

theorem dropFolder (h : g.Listed pending) {folder : Folder} (hf : g.folders.lookup id = some folder) :
    ({ g with folders := g.folders.erase id, ns := g.ns.removeFolder ⟨folder.space, folder.path⟩ } : Graph τ).Listed
      pending := by
  obtain ⟨hheld, hcontent⟩ := PathTrie.removeFolder_held (h.held folder.space) folder.path
  have htrie (s : TaskSpaceId) : ({ g with
      folders := g.folders.erase id
      ns := g.ns.removeFolder ⟨folder.space, folder.path⟩ } : Graph τ).trie s =
      if s = folder.space then (g.trie folder.space).removeFolder folder.path else g.trie s :=
    Namespace.paths_setPaths _ _ _ _
  have hhere : ((g.trie folder.space).content folder.path).2 = some id := by
    rw [h.folders, hf]
    rfl
  refine ⟨fun s => ?_, fun s p x => ?_, fun s p x => ?_, fun x hx hin => ?_⟩
  · rw [htrie]
    split
    · rename_i hs
      rw [hs]
      exact hheld
    · exact h.held s
  · rw [htrie]
    refine Iff.trans ?_ (h.tasks s p x)
    split
    · rename_i hs
      rw [hcontent, hs]
      split
      · rename_i hp
        rw [hp]
      · rfl
    · rfl
  · rw [htrie, Finmap.lookup_erase_ite]
    by_cases hx : x = id
    · subst hx
      rw [if_pos rfl, Option.map_none]
      refine iff_of_false ?_ (by simp)
      split
      · rw [hcontent]
        split
        · simp
        · rename_i hp
          rw [h.folders, hf]
          simpa using fun he => absurd he.symm hp
      · rename_i hs
        rw [h.folders, hf]
        simpa using fun he => absurd he.symm hs
    · rw [if_neg hx, ← h.folders]
      split
      · rename_i hs
        rw [hcontent, hs]
        split
        · rename_i hp
          rw [hp, hhere]
          simpa using Ne.symm hx
        · rfl
      · rfl
  · exact h.apart x hx (Finmap.mem_erase.mp hin).2

theorem dropHandle (h : g.Listed pending) {t : TaskHandle τ} (ht : g.tasks.lookup id = some t) :
    (g.dropHandle id t).Listed pending := by
  have hlookup (x : TaskId) : (g.dropHandle id t).tasks.lookup x = if x = id then none else g.tasks.lookup x := by
    unfold Graph.dropHandle
    cases t.path <;> exact Finmap.lookup_erase_ite _ _ _
  have hfolders : (g.dropHandle id t).folders = g.folders := by
    unfold Graph.dropHandle
    cases t.path <;> rfl
  have hapart (x : TaskId) (hx : x ∈ (g.dropHandle id t).tasks) : x ∉ (g.dropHandle id t).folders := by
    rw [hfolders]
    refine h.apart x ?_
    rw [← Finmap.lookup_isSome, hlookup] at hx
    split at hx
    · cases hx
    · rwa [Finmap.lookup_isSome] at hx
  cases hpath : t.path with
  | none =>
    have htrie (s : TaskSpaceId) : (g.dropHandle id t).trie s = g.trie s := by
      unfold Graph.dropHandle
      rw [hpath]
      rfl
    refine ⟨fun s => ?_, fun s p x => ?_, fun s p x => ?_, hapart⟩
    · rw [htrie]
      exact h.held s
    · rw [htrie, hlookup, h.tasks]
      split
      · rename_i hx
        rw [hx, ht]
        simp [TaskHandle.home, hpath]
      · rfl
    · rw [htrie, hfolders]
      exact h.folders s p x
  | some path =>
    obtain ⟨hheld, hcontent⟩ := PathTrie.remove_held (h.held t.space) path
    have htrie (s : TaskSpaceId) : (g.dropHandle id t).trie s =
        if s = t.space then (g.trie t.space).remove path else g.trie s := by
      unfold Graph.dropHandle
      rw [hpath]
      exact Namespace.paths_setPaths _ _ _ _
    have hhere : ((g.trie t.space).content path).1 = some id := by
      rw [h.tasks, ht]
      simp [TaskHandle.home, hpath]
    refine ⟨fun s => ?_, fun s p x => ?_, fun s p x => ?_, hapart⟩
    · rw [htrie]
      split
      · rename_i hs
        rw [hs]
        exact hheld
      · exact h.held s
    · rw [htrie, hlookup]
      by_cases hx : x = id
      · subst hx
        rw [if_pos rfl, Option.map_none]
        refine iff_of_false ?_ (by simp)
        split
        · rw [hcontent]
          split
          · simp
          · rename_i hp
            rw [h.tasks, ht]
            simpa [TaskHandle.home, hpath] using fun he => absurd he.symm hp
        · rename_i hs
          rw [h.tasks, ht]
          simpa [TaskHandle.home, hpath] using fun he => absurd he.symm hs
      · rw [if_neg hx, ← h.tasks]
        split
        · rename_i hs
          rw [hcontent, hs]
          split
          · rename_i hp
            rw [hp, hhere]
            simpa using Ne.symm hx
          · rfl
        · rfl
    · rw [htrie, hfolders]
      refine Iff.trans ?_ (h.folders s p x)
      split
      · rename_i hs
        rw [hcontent, hs]
        split
        · rename_i hp
          rw [hp]
        · rfl
      · rfl

section registering

variable [Task τ]

theorem registerTaskWithId_cases (g : Graph τ) (id : TaskId) (def' : TaskDef τ) (factory : TaskId → τ)
    (saved : Option Snap.Task) : (∃ err, g.registerTaskWithId id def' factory saved = (g, .error err)) ∨
    ∃ (ns : Namespace) (deps : List TaskId) (t : TaskHandle τ) (timer : Option Duration),
      id ∉ g.tasks ∧ id ∉ g.folders ∧ g.resolveDeps def'.deps = .ok deps ∧ t.home = (def'.space, def'.path) ∧
      (t.path = none ∧ ns = g.ns ∨ ∃ p place, t.path = some p ∧ g.ns.insert ⟨t.space, p⟩ id place = .ok ns) ∧
      g.registerTaskWithId id def' factory saved =
        (({ g with ns } : Graph τ).installTask id def' deps t timer, .ok ()) := by
  unfold Graph.registerTaskWithId
  split
  · exact .inl ⟨_, rfl⟩
  · rename_i hfree
    obtain ⟨hid, hfid⟩ := not_or.mp hfree
    cases g.resolveDeps def'.deps with
    | error err => exact .inl ⟨_, rfl⟩
    | ok deps =>
      simp only
      have hhome (now : Instant) : (def'.install (factory id) now saved).home = (def'.space, def'.path) := by
        cases saved <;> rfl
      unfold Graph.claimPath
      cases hp : def'.path with
      | none =>
        right
        have hh := hhome g.now
        refine ⟨g.ns, deps, _, _, hid, hfid, rfl, hp ▸ hh, .inl ⟨?_, rfl⟩, rfl⟩
        rw [hp] at hh
        exact congrArg Prod.snd hh
      | some path =>
        simp only
        cases hins : g.ns.insert ⟨def'.space, path⟩ id def'.place with
        | error conflict => exact .inl ⟨_, rfl⟩
        | ok ns =>
          right
          have hh := hhome g.now
          rw [hp] at hh
          refine ⟨ns, deps, _, _, hid, hfid, rfl, hh, .inr ⟨path, def'.place, congrArg Prod.snd hh, ?_⟩, rfl⟩
          rw [show (def'.install (factory id) g.now saved).space = def'.space from congrArg Prod.fst hh]
          exact hins

theorem stays_installTask (g : Graph τ) (id : TaskId) (def' : TaskDef τ) (deps : List TaskId) (t : TaskHandle τ)
    (timer : Option Duration) : Stays (g.insertTask id t) (g.installTask id def' deps t timer) := by
  unfold Graph.installTask
  refine .trans ?_ (.notifySubscribers _ _ _ _ _)
  refine .trans ?_ (.enqueue _ _)
  have hdeps := ((Stays.scheduleAny (g.insertTask id t) id timer).trans (.setTags _ id def'.tags)).trans
    (.addEdges id deps _)
  exact .ite (hdeps.trans (.addEdge _ _ _)) hdeps

theorem registerTaskWithId (h : g.Listed pending) (id : TaskId) (def' : TaskDef τ) (factory : TaskId → τ)
    (saved : Option Snap.Task) : (g.registerTaskWithId id def' factory saved).1.Listed pending := by
  rcases registerTaskWithId_cases g id def' factory saved with ⟨err, he⟩ | ⟨ns, deps, t, timer, hid, hfid, -, -,
    hns, he⟩
  · rw [he]
    exact h
  · rw [he]
    exact (h.insertTask hid hfid hns).stays (stays_installTask _ id def' deps t timer)

theorem registerFolder_cases (g : Graph τ) (d : FolderDef) : (∃ err, g.registerFolder d = (g, .error err)) ∨
    ∃ (ns : Namespace) (g' : Graph τ), d.id ∉ g.tasks ∧ d.id ∉ g.folders ∧
      g.ns.insertFolder ⟨d.space, d.path⟩ d.id d.place = .ok ns ∧
      Stays { g with ns, folders := g.folders.insert d.id ⟨d.space, d.path, d.settings⟩ } g' ∧
      g.registerFolder d = (g', .ok ()) := by
  unfold Graph.registerFolder
  split
  · exact .inl ⟨_, rfl⟩
  · rename_i hfree
    obtain ⟨hid, hfid⟩ := not_or.mp hfree
    cases hins : g.ns.insertFolder ⟨d.space, d.path⟩ d.id d.place with
    | error conflict => exact .inl ⟨_, rfl⟩
    | ok ns => exact .inr ⟨ns, _, hid, hfid, rfl, Stays.notifySubscribers _ _ _ _ _, rfl⟩

theorem registerFolder (h : g.Listed pending) (d : FolderDef) : (g.registerFolder d).1.Listed pending := by
  rcases registerFolder_cases g d with ⟨err, he⟩ | ⟨ns, g', hid, hfid, hns, hstays, he⟩
  · rw [he]
    exact h
  · rw [he]
    have hin : ({ g with ns, folders := g.folders.insert d.id ⟨d.space, d.path, d.settings⟩ } : Graph τ).Listed pending :=
      h.insertFolder hid hfid hns
    exact hin.stays hstays

theorem registerOne (h : g.Listed pending) (saved : Option Snap.Task) (r : Registration τ) :
    (g.registerOne saved r).1.Listed pending := by
  cases r with
  | task r => exact h.registerTaskWithId _ _ _ _
  | folder d => exact h.registerFolder d

end registering

end Listed

/-- The tasks and folders there were are still where they were. -/
structure Adds (g g' : Graph τ) : Prop where
  tasks : ∀ x ∈ g.tasks, (g'.tasks.lookup x).map TaskHandle.home = (g.tasks.lookup x).map TaskHandle.home
  folders : ∀ x ∈ g.folders, g'.folders.lookup x = g.folders.lookup x

/-- A registration is in, at the key it asked for. -/
def Holds (g : Graph τ) : Registration τ → Prop
  | .task r => (g.tasks.lookup r.taskId).map TaskHandle.home = some (r.def'.space, r.def'.path)
  | .folder d => (g.folders.lookup d.id).map (fun f => (f.space, f.path)) = some (d.space, d.path)

theorem Holds.adds {r : Registration τ} (h : g.Holds r) (ha : Adds g g') : g'.Holds r := by
  cases r with
  | task r =>
    refine (ha.tasks r.taskId ?_).trans h
    rw [← Finmap.lookup_isSome, ← Option.isSome_map, show _ = some _ from h]
    rfl
  | folder d =>
    have hin : d.id ∈ g.folders := by
      rw [← Finmap.lookup_isSome, ← Option.isSome_map, show _ = some _ from h]
      rfl
    exact (congrArg _ (ha.folders d.id hin)).trans h

theorem Listed.full {r : Registration τ} {key : TaskKey} (h : g.Listed pending) (hr : g.Holds r)
    (hk : r.key = some key) :
    (g.trie key.space).content key.path ≠ (none, none) := by
  intro hnone
  cases r with
  | task r =>
    obtain ⟨path, hp, rfl⟩ := Option.map_eq_some_iff.mp hk
    have hhome : _ = some (r.def'.space, r.def'.path) := hr
    rw [hp] at hhome
    have hc := (h.tasks r.def'.space path r.taskId).mpr hhome
    rw [hnone] at hc
    cases hc
  | folder d =>
    obtain rfl : TaskKey.mk d.space d.path = key := Option.some.inj hk
    have hc := (h.folders d.space d.path d.id).mpr hr
    rw [hnone] at hc
    cases hc

section batch

theorem Adds.refl (g : Graph τ) : Adds g g := ⟨fun _ _ => rfl, fun _ _ => rfl⟩

def places (rs : List (Registration τ)) (s : TaskSpaceId) : List TaskPath :=
  rs.filterMap fun r => r.key.bind fun key => if key.space = s then some key.path else none

theorem mem_places {rs : List (Registration τ)} {s : TaskSpaceId} {p : TaskPath} :
    p ∈ places rs s ↔ ∃ r ∈ rs, r.key = some ⟨s, p⟩ := by
  unfold places
  rw [List.mem_filterMap]
  constructor
  · rintro ⟨r, hr, hp⟩
    obtain ⟨key, hk, hif⟩ := Option.bind_eq_some_iff.mp hp
    split at hif
    · rename_i hs
      cases hif
      subst hs
      exact ⟨r, hr, hk⟩
    · cases hif
  · rintro ⟨r, hr, hk⟩
    exact ⟨r, hr, by rw [hk]; simp⟩

theorem mem_push {pending : TaskSpaceId → List TaskPath} {key : Option TaskKey} {s : TaskSpaceId} {p : TaskPath} :
    p ∈ Listed.push pending key s ↔ key = some ⟨s, p⟩ ∨ p ∈ pending s := by
  cases key with
  | none => simp [Listed.push]
  | some key =>
    simp only [Listed.push]
    by_cases hs : s = key.space
    · subst hs
      rw [Function.update_self, List.mem_cons]
      refine or_congr_left ?_
      constructor
      · rintro rfl
        rfl
      · intro h
        rw [Option.some.inj h]
    · rw [Function.update_of_ne hs]
      refine (or_iff_right ?_).symm
      intro h
      rw [Option.some.inj h] at hs
      exact hs rfl

theorem Listed.holdPlaces (rs : List (Registration τ)) (h : g.Listed pending) :
    (rs.foldl Graph.holdPlace g).Listed fun s => places rs s ++ pending s := by
  induction rs generalizing g pending with
  | nil => exact h
  | cons r rs ih =>
    refine (ih (h.holdPlace r)).mono fun s p hp => ?_
    rw [List.mem_append, mem_places, mem_push] at hp
    rw [List.mem_append, mem_places]
    rcases hp with ⟨r', hr', hk⟩ | hk | hp
    · exact .inl ⟨r', List.mem_cons_of_mem _ hr', hk⟩
    · exact .inl ⟨r, List.mem_cons_self, hk⟩
    · exact .inr hp

theorem Listed.dropPlaces {rs : List (Registration τ × Except RegisterError Unit)}
    (h : g.Listed fun s => places (rs.map Prod.fst) s ++ pending s)
    (hheld : ∀ e ∈ rs, e.2 = .ok () → g.Holds e.1) : (rs.foldl Graph.dropPlace g).Listed pending := by
  induction rs generalizing g with
  | nil => exact h
  | cons e rs ih =>
    obtain ⟨r, result⟩ := e
    have hpush : g.Listed (push (fun s => places (rs.map Prod.fst) s ++ pending s) r.key) := by
      refine h.mono fun s p hp => ?_
      rw [List.mem_append, mem_places] at hp
      rw [mem_push, List.mem_append, mem_places]
      rcases hp with ⟨r', hr', hk⟩ | hp
      · rcases List.mem_cons.mp hr' with rfl | hr'
        · exact .inl hk
        · exact .inr (.inl ⟨r', hr', hk⟩)
      · exact .inr (.inr hp)
    rw [List.foldl_cons]
    have hadds : Adds g (g.dropPlace (r, result)) := by
      unfold Graph.dropPlace
      cases r.key with
      | none => exact .refl g
      | some key => cases result <;> exact ⟨fun _ _ => rfl, fun _ _ => rfl⟩
    refine ih ?_ fun e he hok => (hheld e (List.mem_cons_of_mem _ he) hok).adds hadds
    unfold Graph.dropPlace
    cases hk : r.key with
    | none =>
      rw [hk] at hpush
      exact hpush
    | some key =>
      rw [hk] at hpush
      cases result with
      | error err => exact hpush.prune
      | ok _ => exact hpush.taken (h.full (hheld (r, .ok ()) List.mem_cons_self rfl) hk)

variable [Task τ]

theorem registerOne_holds (g : Graph τ) (saved : Option Snap.Task) (r : Registration τ) :
    Adds g (g.registerOne saved r).1 ∧ ((g.registerOne saved r).2 = .ok () → (g.registerOne saved r).1.Holds r) := by
  cases r with
  | task r =>
    have hreg : g.registerOne saved (.task r) = g.registerTaskWithId r.taskId r.def' r.factory saved := rfl
    rw [hreg]
    rcases Listed.registerTaskWithId_cases g r.taskId r.def' r.factory saved with
      ⟨err, he⟩ | ⟨ns, deps, t, timer, hid, hfid, -, hhome, -, he⟩
    · rw [he]
      exact ⟨⟨fun _ _ => rfl, fun _ _ => rfl⟩, fun h => by cases h⟩
    · rw [he]
      have hs := Listed.stays_installTask ({ g with ns } : Graph τ) r.taskId r.def' deps t timer
      have hlookup (x : TaskId) : (({ g with ns } : Graph τ).insertTask r.taskId t).tasks.lookup x =
          if x = r.taskId then some t else g.tasks.lookup x := Finmap.lookup_insert_ite _ _ _ _
      refine ⟨⟨fun x hx => ?_, fun x _ => ?_⟩, fun _ => ?_⟩
      · rw [hs.homes, hlookup, if_neg fun hxid : x = r.taskId => hid (hxid ▸ hx)]
      · rw [hs.folders]
        rfl
      · refine (hs.homes r.taskId).trans ?_
        rw [hlookup, if_pos rfl, Option.map_some, hhome]
  | folder d =>
    have hreg : g.registerOne saved (.folder d) = g.registerFolder d := rfl
    rw [hreg]
    rcases Listed.registerFolder_cases g d with ⟨err, he⟩ | ⟨ns, g', hid, hfid, -, hs, he⟩
    · rw [he]
      exact ⟨⟨fun _ _ => rfl, fun _ _ => rfl⟩, fun h => by cases h⟩
    · rw [he]
      refine ⟨⟨fun x _ => hs.homes x, fun x hx => ?_⟩, fun _ => ?_⟩
      · rw [hs.folders, Finmap.lookup_insert_ite, if_neg fun hxid : x = d.id => hfid (hxid ▸ hx)]
      · refine (congrArg (fun m => (Finmap.lookup d.id m).map _) hs.folders).trans ?_
        rw [Finmap.lookup_insert_ite, if_pos rfl]
        rfl

/-- What has been registered of a batch, and found to be in, is in. -/
structure Registering (tasks : List (Option Snap.Task × Registration τ)) (pending : TaskSpaceId → List TaskPath)
    (seen : List ℕ) (acc : Graph τ × List (Except RegisterError Unit)) : Prop where
  listed : acc.1.Listed pending
  length : acc.2.length = tasks.length
  held : ∀ i ∈ seen, ∀ e, tasks[i]? = some e → acc.2[i]? = some (.ok ()) → acc.1.Holds e.2

theorem Registering.step {tasks : List (Option Snap.Task × Registration τ)} {seen : List ℕ}
    {acc : Graph τ × List (Except RegisterError Unit)} (h : Registering tasks pending seen acc) (i : ℕ) :
    Registering tasks pending (seen ++ [i]) (registerAt tasks acc i) := by
  unfold registerAt
  cases hi : tasks[i]? with
  | none =>
    refine ⟨h.listed, h.length, fun j hj e he => ?_⟩
    rcases List.mem_append.mp hj with hj | hj
    · exact h.held j hj e he
    · rw [List.mem_singleton.mp hj, hi] at he
      cases he
  | some e =>
    obtain ⟨saved, r⟩ := e
    simp only
    obtain ⟨hadds, hholds⟩ := registerOne_holds acc.1 saved r
    refine ⟨h.listed.registerOne saved r, by rw [List.length_set]; exact h.length, fun j hj e he hok => ?_⟩
    by_cases hji : j = i
    · subst hji
      rw [hi] at he
      cases he
      have hlt : j < acc.2.length := by
        rw [h.length]
        exact (List.getElem?_eq_some_iff.mp hi).1
      rw [List.getElem?_set_self hlt] at hok
      exact hholds (Option.some.inj hok)
    · rw [List.getElem?_set_ne (Ne.symm hji)] at hok
      rcases List.mem_append.mp hj with hj | hj
      · exact (h.held j hj e he hok).adds hadds
      · exact absurd (List.mem_singleton.mp hj) hji

theorem Registering.run {tasks : List (Option Snap.Task × Registration τ)} {seen : List ℕ}
    {acc : Graph τ × List (Except RegisterError Unit)} (h : Registering tasks pending seen acc) (order : List ℕ) :
    Registering tasks pending (seen ++ order) (order.foldl (registerAt tasks) acc) := by
  induction order generalizing seen acc with
  | nil => rwa [List.append_nil]
  | cons i order ih =>
    have hrun := ih (h.step i)
    rwa [List.append_assoc] at hrun

theorem Listed.registerTasks (h : g.Listed pending) (tasks : List (Option Snap.Task × Registration τ)) :
    (g.registerTasks tasks).1.Listed pending := by
  unfold Graph.registerTasks
  simp only
  have hstart : Registering tasks (fun s => places (tasks.map Prod.snd) s ++ pending s) []
      ((tasks.map Prod.snd).foldl Graph.holdPlace g, tasks.map fun _ => .ok ()) :=
    ⟨h.holdPlaces _, List.length_map _, fun i hi => by cases hi⟩
  have hrun := hstart.run (Batch.order (tasks.map Prod.snd))
  rw [List.nil_append] at hrun
  generalize (Batch.order (tasks.map Prod.snd)).foldl (registerAt tasks) _ = acc at hrun ⊢
  obtain ⟨g', results⟩ := acc
  have hlen : (tasks.map Prod.snd).length ≤ results.length := by
    rw [List.length_map, ← hrun.length]
  refine Listed.dropPlaces ?_ fun e he hok => ?_
  · rw [List.map_fst_zip hlen]
    exact hrun.listed
  · obtain ⟨i, hi⟩ := List.getElem?_of_mem he
    obtain ⟨hr, hresult⟩ := List.getElem?_zip_eq_some.mp hi
    rw [List.getElem?_map, Option.map_eq_some_iff] at hr
    obtain ⟨e', he', her⟩ := hr
    rw [← her]
    refine hrun.held i (Batch.mem_order _ ?_) e' he' (by rw [hresult, hok])
    rw [List.length_map]
    exact (List.getElem?_eq_some_iff.mp he').1

end batch

end Graph

end Dekit
