import Mathlib.Data.Finset.Max
import Dekit.Console.Pruning

/-! Whole runs of a task tree: what its groups list and count after any of its operations. -/

namespace Dekit.Console

namespace Node

def isTask : Node → Bool
  | .task _ => true
  | .group _ => false

def folder : Node → Option TaskId
  | .task _ => none
  | .group g => g.folder

end Node

namespace TaskTree

/-- What is done to a tree. -/
inductive Op
  | add (task : TaskView) (after : Option TaskId)
  | addFolder (id : TaskId) (path : TaskPath) (named : path ≠ TaskPath.root) (after : Option TaskId) (collapsed : Bool)
  | remove (id : TaskId)
  | moveTask (id : TaskId) (path : TaskPath) (named : path ≠ TaskPath.root) (after : Option TaskId)
  | moveFolder (id : TaskId) (path : TaskPath) (named : path ≠ TaskPath.root) (after : Option TaskId)
  | setStatus (id : TaskId) (status : TaskState)

def step (t : TaskTree) : Op → Option TaskTree
  | .add task after => some (t.add task after)
  | .addFolder id path _ after collapsed => some (t.addFolder id path after collapsed)
  | .remove id => t.remove id
  | .moveTask id path named after => t.moveTask id path named after
  | .moveFolder id path _ after => some (t.moveFolder id path after)
  | .setStatus id status => t.setStatus id status

def run (t : TaskTree) (ops : List Op) : Option TaskTree := ops.foldlM step t

/-- The groups count what is under them and list what is right under them, and none but a folder or the root is empty. -/
structure Accurate (t : TaskTree) : Prop where
  counts : ∀ p g, t.nodes.lookup p = some (.group g) → ∀ k : Counter, k.of g = (tasksUnder t.nodes p k).card
  children : ∀ p g, t.nodes.lookup p = some (.group g) → ∀ c ∈ g.children, c ∈ t.nodes
  listed : ∀ c ∈ t.nodes, c ≠ TaskPath.root →
    ∀ p, (∃ g, t.nodes.lookup p = some (.group g) ∧ c ∈ g.children) ↔ c.parent = some p
  filled : ∀ p g, t.nodes.lookup p = some (.group g) → p ≠ TaskPath.root → g.folder = none →
    ∃ c n, t.nodes.lookup c = some n ∧ c.isAtOrUnder p = true ∧ c ≠ p ∧ n.entry ≠ none

/-- No task is above a path, but for one that is at `leaving`. -/
def Open (t : TaskTree) (path : TaskPath) (leaving : Option TaskPath) : Prop :=
  ∀ q ∈ above path, (t.nodes.lookup q).any Node.isTask = true → leaving = some q

def Unclaimed (t : TaskTree) (id : TaskId) (path : TaskPath) : Prop :=
  ∀ id' ∈ (t.nodes.lookup path).bind Node.folder, t.paths.lookup id' = some path → id' = id

/-- Nothing is put under a task, and no folder where another is. -/
def Clear (t : TaskTree) : Op → Prop
  | .add task _ => t.Open task.path none
  | .addFolder id path _ _ _ => t.Open path none ∧ t.Unclaimed id path
  | .moveTask id path _ _ =>
    t.paths.lookup id ≠ none →
      if t.isFolder id then t.Open path none ∧ t.Unclaimed id path else t.Open path (t.paths.lookup id)
  | .moveFolder id path _ _ => t.paths.lookup id ≠ none → t.Open path none ∧ t.Unclaimed id path
  | .remove _ | .setStatus _ _ => True

/-- Every step of a run is clear where it is taken. -/
def AllClear : TaskTree → List Op → Prop
  | _, [] => True
  | t, op :: ops => t.Clear op ∧ ∀ t' ∈ t.step op, AllClear t' ops

instance (t : TaskTree) (path : TaskPath) (leaving : Option TaskPath) : Decidable (t.Open path leaving) :=
  inferInstanceAs (Decidable (∀ q ∈ above path, (t.nodes.lookup q).any Node.isTask = true → leaving = some q))

instance (t : TaskTree) (id : TaskId) (path : TaskPath) : Decidable (t.Unclaimed id path) :=
  inferInstanceAs (Decidable
    (∀ id' ∈ (t.nodes.lookup path).bind Node.folder, t.paths.lookup id' = some path → id' = id))

instance decidableClear (t : TaskTree) : (op : Op) → Decidable (t.Clear op)
  | .add task _ => inferInstanceAs (Decidable (t.Open task.path none))
  | .addFolder id path _ _ _ => inferInstanceAs (Decidable (t.Open path none ∧ t.Unclaimed id path))
  | .moveTask id path _ _ => inferInstanceAs (Decidable (t.paths.lookup id ≠ none →
      if t.isFolder id then t.Open path none ∧ t.Unclaimed id path else t.Open path (t.paths.lookup id)))
  | .moveFolder id path _ _ =>
    inferInstanceAs (Decidable (t.paths.lookup id ≠ none → t.Open path none ∧ t.Unclaimed id path))
  | .remove _ | .setStatus _ _ => isTrue trivial

instance decidableAllClear : (t : TaskTree) → (ops : List Op) → Decidable (t.AllClear ops)
  | _, [] => isTrue trivial
  | t, op :: ops =>
    have (t' : TaskTree) := decidableAllClear t' ops
    inferInstanceAs (Decidable (t.Clear op ∧ ∀ t' ∈ t.step op, AllClear t' ops))

structure Sound (t : TaskTree) : Prop where
  standing : Standing t.nodes none none
  held : ∀ id p, t.paths.lookup id = some p → p ≠ TaskPath.root ∧ (t.nodes.lookup p).bind Node.entry = some id

variable {t : TaskTree} {id : TaskId} {path p q : TaskPath} {after : Option TaskId}

theorem entry_below (h : Standing t.nodes none none) {g : Group} (hg : t.nodes.lookup p = some (.group g))
    (hroot : p ≠ TaskPath.root) (hfolder : g.folder = none) :
    ∃ c n, t.nodes.lookup c = some n ∧ c.isAtOrUnder p = true ∧ c ≠ p ∧ n.entry ≠ none := by
  -- The deepest of what is under the group is no group, unless a folder.
  obtain ⟨c, hc⟩ := h.filled p g hg hroot hfolder
  have hbelow : (t.nodes.keys.filter fun c => c.isAtOrUnder p ∧ c ≠ p).Nonempty := by
    obtain ⟨hin, hne, hdrop⟩ := (h.listing p g hg c).mp hc
    refine ⟨c, Finset.mem_filter.mpr ⟨Finmap.mem_keys.mpr (hin.resolve_right (by simp)), ?_⟩⟩
    exact (isAtOrUnder_and_ne hne).mpr (hdrop ▸ dropLast_above hne)
  obtain ⟨d, hd, hdeepest⟩ := Finset.exists_max_image _ List.length hbelow
  obtain ⟨hin, hat, hne⟩ := Finset.mem_filter.mp hd
  obtain ⟨n, hn⟩ := Finmap.mem_iff.mp (Finmap.mem_keys.mp hin)
  refine ⟨d, n, hn, hat, hne, fun hnone => ?_⟩
  cases n with
  | task v => cases hnone
  | group g' =>
    have hpre : p <+: d := List.isPrefixOf_iff_prefix.mp hat
    have hdroot : d ≠ TaskPath.root := by
      rintro rfl
      exact hroot (List.prefix_nil.mp hpre)
    obtain ⟨e, he⟩ := h.filled d g' hn hdroot hnone
    obtain ⟨hein, hene, rfl⟩ := (h.listing d g' hn e).mp he
    have hlonger := (mem_above hene).mp (dropLast_above hene)
    have hle := hdeepest e (Finset.mem_filter.mpr ⟨Finmap.mem_keys.mpr (hein.resolve_right (by simp)), ?_⟩)
    · rw [List.length_dropLast] at hle
      have := List.length_pos_iff.mpr hene
      omega
    · refine (isAtOrUnder_and_ne hene).mpr ((mem_above hene).mpr ⟨hpre.trans hlonger.1, ?_⟩)
      rintro rfl
      exact hlonger.2 (hlonger.1.eq_of_length (le_antisymm hlonger.1.length_le hpre.length_le))

theorem Sound.accurate (h : t.Sound) : t.Accurate := by
  have hs := h.standing
  refine ⟨fun p g hg k => hs.counts p g hg k, fun p g hg c hc => ?_, fun c hc hroot p => ?_,
    fun p g hg hroot hfolder => ?_⟩
  · exact ((hs.listing p g hg c).mp hc).1.resolve_right (by simp)
  · have hparent : c.parent = some c.dropLast := by
      unfold TaskPath.parent
      rw [if_neg]
      rw [List.isEmpty_iff]
      exact hroot
    rw [hparent, Option.some.injEq]
    constructor
    · rintro ⟨g, hg, hin⟩
      exact ((hs.listing p g hg c).mp hin).2.2
    · rintro rfl
      obtain ⟨g, hg⟩ := hs.parents c (.inl hc) hroot
      exact ⟨g, hg, (hs.listing _ g hg c).mpr ⟨.inl hc, hroot, rfl⟩⟩
  · exact entry_below hs hg hroot hfolder

theorem Sound.there (h : t.Sound) (hp : t.paths.lookup id = some p) : p ∈ t.nodes := by
  obtain ⟨-, hentry⟩ := h.held id p hp
  obtain ⟨n, hn, -⟩ := Option.bind_eq_some_iff.mp hentry
  exact Finmap.mem_of_lookup_eq_some hn

theorem Sound.after_there (h : t.Sound) (after : Option TaskId) (a : TaskPath)
    (ha : after.bind (t.paths.lookup ·) = some a) : a ∈ t.nodes := by
  obtain ⟨id, -, hid⟩ := Option.bind_eq_some_iff.mp ha
  exact h.there hid

theorem task_of_isTask {n : Option Node} (h : n.any Node.isTask = true) : ∃ v, n = some (.task v) := by
  obtain ⟨n, rfl, hn⟩ := (Option.any_eq_true _ _).mp h
  cases n with
  | task v => exact ⟨v, rfl⟩
  | group g => cases hn

theorem open_none (h : t.Open path none) : ∀ q ∈ above path, ∀ v, t.nodes.lookup q ≠ some (.task v) :=
  fun q hq v hv => by cases h q hq (by rw [hv]; rfl)

theorem Sound.add (h : t.Sound) {task : TaskView} (hopen : t.Open task.path none) : (t.add task after).Sound := by
  unfold TaskTree.add
  split
  · exact h
  · rename_i hfree
    have habove := open_none hopen
    have hafter := h.after_there after
    have hlist := list_standing (some task) h.standing task.named habove hafter fun v hv => by rw [Option.some.inj hv]
    have hnot : task.path ∉ (t.list task.path (after.bind (t.paths.lookup ·)) (some task)).nodes := by
      rw [mem_list h.standing task.named habove hafter]
      rintro (hin | hin)
      · exact hfree hin
      · exact notMem_above_self task.named hin
    refine ⟨hlist.putTask hnot, fun id p hp => ?_⟩
    simp only [list_paths] at hp
    rw [Finmap.lookup_insert_ite] at hp
    simp only [Finmap.lookup_insert_ite]
    split at hp
    · rename_i he
      obtain rfl := Option.some.inj hp
      rw [if_pos rfl, he]
      exact ⟨task.named, rfl⟩
    · obtain ⟨hroot, hentry⟩ := h.held id p hp
      rw [if_neg, list_entry h.standing task.named habove hafter]
      · exact ⟨hroot, hentry⟩
      · rintro rfl
        exact hfree (h.there hp)

theorem setFolder_standing (h : Standing t.nodes (some path) none) (hroot : path ≠ TaskPath.root) (id : TaskId)
    (collapsed : Bool) : Standing (t.setFolder id path collapsed).nodes (some path) none ∧
      path ∈ (t.setFolder id path collapsed).nodes ∨ ∃ v, t.nodes.lookup path = some (.task v) := by
  unfold setFolder
  cases hn : t.nodes.lookup path with
  | none =>
    refine .inl ⟨?_, Finmap.mem_insert.mpr (.inl rfl)⟩
    refine (h.putFolder (Finmap.lookup_eq_none.mp hn) hroot rfl (fun c => IndexSet.notMem_empty c) (fun k => ?_) ?_).loosen
      (Finmap.mem_insert.mpr (.inl rfl))
    · cases k <;> rfl
    · simp
  | some n =>
    cases n with
    | task v => exact .inr ⟨v, rfl⟩
    | group g =>
      refine .inl ⟨h.setGroup _ hn rfl rfl (fun hnone => by cases hnone) fun k => ?_, Finmap.mem_insert.mpr (.inl rfl)⟩
      cases k <;> rfl

theorem setFolder_entry (hfree : ∀ v, t.nodes.lookup path ≠ some (.task v)) (id : TaskId) (collapsed : Bool)
    (q : TaskPath) :
    ((t.setFolder id path collapsed).nodes.lookup q).bind Node.entry =
      if q = path then some id else (t.nodes.lookup q).bind Node.entry := by
  unfold setFolder
  cases hn : t.nodes.lookup path with
  | none =>
    simp only [Finmap.lookup_insert_ite]
    split <;> rfl
  | some n =>
    cases n with
    | task v => exact absurd hn (hfree v)
    | group g =>
      simp only [Finmap.lookup_insert_ite]
      split <;> rfl

theorem setFolder_paths (t : TaskTree) (id : TaskId) (path : TaskPath) (collapsed : Bool) :
    (t.setFolder id path collapsed).paths = t.paths := by
  unfold setFolder
  split <;> rfl

theorem Sound.addFolder (h : t.Sound) (named : path ≠ TaskPath.root) (hopen : t.Open path none)
    (hclaim : t.Unclaimed id path) (after : Option TaskId) (collapsed : Bool) :
    (t.addFolder id path after collapsed).Sound := by
  unfold TaskTree.addFolder
  split
  · exact h
  · rename_i hfree
    have habove := open_none hopen
    have hafter := h.after_there after
    have hlist := list_standing none h.standing named habove hafter fun v hv => by cases hv
    have hfree' (v : TaskView) :
      (t.list path (after.bind (t.paths.lookup ·)) none).nodes.lookup path ≠ some (.task v) :=
      fun hv => hfree v ((list_task h.standing named habove hafter).mp hv)
    refine ⟨?_, fun id' p hp => ?_⟩
    · rcases setFolder_standing hlist named id collapsed with ⟨hput, hin⟩ | ⟨v, hv⟩
      · exact hput.settle hin
      · exact absurd hv (hfree' v)
    · simp only [setFolder_paths, list_paths] at hp
      rw [setFolder_entry hfree']
      rw [Finmap.lookup_insert_ite] at hp
      split at hp
      · rename_i he
        obtain rfl := Option.some.inj hp
        rw [if_pos rfl, he]
        exact ⟨named, rfl⟩
      · rename_i hne
        obtain ⟨hroot, hentry⟩ := h.held id' p hp
        refine ⟨hroot, ?_⟩
        rw [if_neg, list_entry h.standing named habove hafter]
        · exact hentry
        · rintro rfl
          obtain ⟨n, hn, hent⟩ := Option.bind_eq_some_iff.mp hentry
          cases n with
          | task v => exact hfree v hn
          | group g => exact hne (hclaim id' (Option.bind_eq_some_iff.mpr ⟨_, hn, hent⟩) hp)

theorem Sound.release (h : t.Sound) (hp : t.paths.lookup id = some path) {nodes : Nodes} (hs : Standing nodes none none)
    (hkeeps : ∀ q, q ≠ path → (nodes.lookup q).bind Node.entry = (t.nodes.lookup q).bind Node.entry) :
    ({ t with nodes, paths := t.paths.erase id } : TaskTree).Sound := by
  refine ⟨hs, fun id' p hp' => ?_⟩
  simp only [Finmap.lookup_erase_ite] at hp'
  split at hp'
  · cases hp'
  · rename_i hne
    obtain ⟨hroot, hentry⟩ := h.held id' p hp'
    refine ⟨hroot, ?_⟩
    rw [hkeeps]
    · exact hentry
    · rintro rfl
      exact hne (Option.some.inj (hentry.symm.trans (h.held id p hp).2))

theorem Sound.takeFolder (h : t.Sound) (id : TaskId) : (t.takeFolder id).Sound := by
  unfold TaskTree.takeFolder
  cases hp : t.paths.lookup id with
  | none => exact h
  | some path =>
    obtain ⟨hroot, -⟩ := h.held id path hp
    have hin := h.there hp
    simp only
    cases hn : t.nodes.lookup path with
    | none => exact absurd hin (Finmap.lookup_eq_none.mp hn)
    | some n =>
      cases n with
      | task v =>
        exact h.release hp ((h.standing.loosen hin).prune hroot) fun q hq => (prune_keeps t.nodes path q).1
      | group g =>
        simp only
        split
        · rename_i hempty
          refine h.release hp ((h.standing.erase hn (fun c hc hne he => ?_) fun c hc => by cases hc).prune hroot) fun q hq => ?_
          · exact IndexSet.isEmpty_iff.mp hempty c ((h.standing.listing path g hn c).mpr ⟨.inl hc, hne, he⟩)
          · rw [(prune_keeps _ path q).1, Finmap.lookup_erase_ne hq]
        · rename_i hempty
          have hchild : ∃ c, c ∈ g.children := by
            by_contra hnone
            exact hempty (IndexSet.isEmpty_iff.mpr fun c hc => hnone ⟨c, hc⟩)
          have hput := h.standing.setGroup { g with folder := none } hn rfl rfl (fun _ => .inr hchild) fun k => by
            cases k <;> rfl
          refine h.release hp ((hput.loosen (Finmap.mem_insert.mpr (.inl rfl))).prune hroot) fun q hq => ?_
          rw [(prune_keeps _ path q).1, Finmap.lookup_insert_of_ne _ hq]

theorem Sound.take (h : t.Sound) (hfolder : t.isFolder id = false) : ∃ t' task, t.take id = some (t', task) ∧ t'.Sound ∧
    (t.paths.lookup id = none → task = none ∧ t' = t) ∧
    ∀ q v, t'.nodes.lookup q = some (.task v) → t.nodes.lookup q = some (.task v) ∧ t.paths.lookup id ≠ some q := by
  unfold TaskTree.take
  cases hp : t.paths.lookup id with
  | none => exact ⟨t, none, rfl, h, fun _ => ⟨rfl, rfl⟩, fun q v hv => ⟨hv, fun he => by cases he⟩⟩
  | some path =>
    obtain ⟨hroot, hentry⟩ := h.held id path hp
    obtain ⟨n, hn, hid⟩ := Option.bind_eq_some_iff.mp hentry
    cases n with
    | group g =>
      unfold isFolder at hfolder
      rw [hp] at hfolder
      simp only [Option.bind_some, hn] at hfolder
      rw [show g.folder = some id from hid] at hfolder
      simp at hfolder
    | task v =>
      obtain rfl : v.path = path := h.standing.keyed path _ hn
      obtain ⟨nodes', hrun, hcounted, hkeeps, -⟩ :=
        (h.standing.erase hn (h.standing.bare hn) fun c hc => by cases hc).recount
        (·.remove v) none hroot (fun v' hv' => by rw [Option.some.inj hv']) (fun v' hv' => by cases hv')
        fun g hg => Group.remove_counted hg
      have hkept := hkeeps.trans (prune_keeps nodes' v.path)
      refine ⟨{ t with nodes := prune nodes' v.path, paths := t.paths.erase id }, some v, ?_, ?_,
        ⟨fun he => (by cases he), fun q v' hv' => ?_⟩⟩
      · simp only [hn]
        rw [hrun]
        rfl
      · refine h.release hp (hcounted.prune hroot) fun q hq => ?_
        rw [(hkept q).1, Finmap.lookup_erase_ne hq]
      · rw [(hkept q).2, Finmap.lookup_erase_ite] at hv'
        split at hv'
        · cases hv'
        · rename_i hq
          exact ⟨hv', fun he => hq (Option.some.inj he).symm⟩

theorem Sound.remove (h : t.Sound) (id : TaskId) : ∃ t', t.remove id = some t' ∧ t'.Sound := by
  unfold TaskTree.remove
  split
  · exact ⟨_, rfl, h.takeFolder id⟩
  · rename_i hfolder
    obtain ⟨t', task, htake, hs, -⟩ := h.take (Bool.eq_false_iff.mpr hfolder)
    exact ⟨t', by rw [htake]; rfl, hs⟩

theorem Sound.setCollapsed (h : t.Sound) (shown : List (TaskPath × Bool)) :
    ({ t with nodes := shown.foldl TaskTree.setCollapsed t.nodes } : TaskTree).Sound := by
  obtain ⟨hs, hkeeps⟩ := h.standing.setCollapsed shown
  refine ⟨hs, fun id p hp => ?_⟩
  rw [(hkeeps p).1]
  exact h.held id p hp

theorem takeFolder_keeps (t : TaskTree) (id : TaskId) (q : TaskPath) :
    (∀ e, ((t.takeFolder id).nodes.lookup q).bind Node.entry = some e → (t.nodes.lookup q).bind Node.entry = some e) ∧
      ∀ v, (t.takeFolder id).nodes.lookup q = some (.task v) ↔ t.nodes.lookup q = some (.task v) := by
  unfold takeFolder
  split
  · exact ⟨fun _ he => he, fun v => Iff.rfl⟩
  · rename_i path hp
    simp only
    rw [((prune_keeps _ path) q).1]
    simp only [((prune_keeps _ path) q).2]
    split
    · rename_i g hg
      split
      · rw [Finmap.lookup_erase_ite]
        split
        · rename_i he
          rw [he, hg]
          exact ⟨fun e he => (by cases he), fun v => by simp⟩
        · exact ⟨fun _ he => he, fun v => Iff.rfl⟩
      · rw [Finmap.lookup_insert_ite]
        split
        · rename_i he
          rw [he, hg]
          exact ⟨fun e he => (by cases he), fun v => by simp⟩
        · exact ⟨fun _ he => he, fun v => Iff.rfl⟩
    · exact ⟨fun _ he => he, fun v => Iff.rfl⟩

theorem takeFolder_paths (t : TaskTree) (id : TaskId) {id' : TaskId} (h : (t.takeFolder id).paths.lookup id' = some p) :
    t.paths.lookup id' = some p := by
  unfold takeFolder at h
  split at h
  · exact h
  · simp only [Finmap.lookup_erase_ite] at h
    split at h
    · cases h
    · exact h

theorem Sound.moveFolder (h : t.Sound) (named : path ≠ TaskPath.root)
    (hclear : t.paths.lookup id ≠ none → t.Open path none ∧ t.Unclaimed id path) (after : Option TaskId) :
    (t.moveFolder id path after).Sound := by
  unfold TaskTree.moveFolder
  split
  · exact h
  · rename_i old hp
    obtain ⟨hopen, hclaim⟩ := hclear (by simp [hp])
    refine Sound.setCollapsed
      ((h.takeFolder id).addFolder named (fun q hq htask => ?_) (fun id' hid hpath => ?_) after _) _
    · obtain ⟨v, hv⟩ := task_of_isTask htask
      exact hopen q hq (by rw [((takeFolder_keeps t id q).2 v).mp hv]; rfl)
    · obtain ⟨n, hn, hfolder⟩ := Option.bind_eq_some_iff.mp hid
      cases n with
      | task v => cases hfolder
      | group g =>
        have hentry := (takeFolder_keeps t id path).1 id' (by rw [hn]; exact hfolder)
        obtain ⟨n', hn', hid'⟩ := Option.bind_eq_some_iff.mp hentry
        cases n' with
        | task v =>
          rw [((takeFolder_keeps t id path).2 v).mpr hn'] at hn
          cases hn
        | group g' =>
          exact hclaim id' (Option.bind_eq_some_iff.mpr ⟨_, hn', hid'⟩) (takeFolder_paths t id hpath)

theorem Sound.moveTask (h : t.Sound) (named : path ≠ TaskPath.root)
    (hclear : t.paths.lookup id ≠ none →
      if t.isFolder id then t.Open path none ∧ t.Unclaimed id path else t.Open path (t.paths.lookup id))
    (after : Option TaskId) : ∃ t', t.moveTask id path named after = some t' ∧ t'.Sound := by
  unfold TaskTree.moveTask
  split
  · rename_i hfolder
    refine ⟨_, rfl, h.moveFolder named (fun hp => ?_) after⟩
    have hc := hclear hp
    rwa [if_pos hfolder] at hc
  · rename_i hfolder
    obtain ⟨t', task, htake, hs, hnone, htasks⟩ := h.take (Bool.eq_false_iff.mpr hfolder)
    rw [htake]
    cases task with
    | none => exact ⟨t', rfl, hs⟩
    | some v =>
      refine ⟨_, rfl, Sound.setCollapsed (hs.add fun q hq htask => ?_) _⟩
      obtain ⟨w, hw⟩ := task_of_isTask htask
      have hp : t.paths.lookup id ≠ none := fun hp => by cases (hnone hp).1
      have hopen := hclear hp
      rw [if_neg hfolder] at hopen
      obtain ⟨hw', hq'⟩ := htasks q w hw
      exact absurd (hopen q hq (by rw [hw']; rfl)) hq'

theorem Sound.setStatus (h : t.Sound) (id : TaskId) (status : TaskState) :
    ∃ t', t.setStatus id status = some t' ∧ t'.Sound := by
  unfold TaskTree.setStatus
  split
  · exact ⟨t, rfl, h⟩
  · rename_i path hp
    split
    · rename_i was hn
      obtain ⟨hroot, hentry⟩ := h.held id path hp
      obtain rfl : was.path = path := h.standing.keyed path _ hn
      have herase := h.standing.erase hn (h.standing.bare hn) fun c hc => by cases hc
      let now : TaskView := { was with status }
      -- As if the task were taken out, and put back with its new status.
      have hput : ∃ nodes, (if was.isUp = now.isUp ∧ was.failed = now.failed
          then some { t with nodes := t.nodes.insert was.path (.task now) }
          else ((above now.path).foldlM (changeGroup (·.recount was now)) (t.nodes.insert was.path (.task now))).map
            fun nodes => { t with nodes }) = some { t with nodes := nodes.insert was.path (.task now) } ∧
          was.path ∉ nodes ∧ Standing nodes (some was.path) (some now) ∧ Keeps (t.nodes.erase was.path) nodes := by
        split
        · rename_i hsame
          refine ⟨t.nodes.erase was.path, by rw [insert_erase], Finmap.notMem_erase_self, ?_, Keeps.refl _⟩
          refine herase.like (fun q => Node.Like.refl _) fun q g g' hg hg' k => ?_
          obtain rfl := Node.group.inj (Option.some.inj (hg.symm.trans hg'))
          have hk : k.counts was = k.counts now := by
            cases k with
            | tasks => rfl
            | up => exact hsame.1
            | failed => exact hsame.2
          change _ + ahead (some was) q k = _
          rw [ahead_some, ahead_some, hk]
        · obtain ⟨nodes₁, -, hs, hkeeps, hview₁⟩ := herase.recount (·.recount was now) (some now) hroot
            (fun v hv => by rw [← Option.some.inj hv]) (fun v hv => by rw [← Option.some.inj hv])
            fun g hg => Group.recount_counted now hg
          have hcounted (q : TaskPath) (hq : q ∈ above was.path) (g : Group)
              (hg : (t.nodes.insert was.path (.task now)).lookup q = some (.group g)) :
              ∃ g', g.recount was now = some g' := by
            have hne : q ≠ was.path := fun he => notMem_above_self hroot (he ▸ hq)
            rw [Finmap.lookup_insert_of_ne _ hne, ← Finmap.lookup_erase_ne hne] at hg
            obtain ⟨g', hg', -⟩ := Group.recount_counted now (herase.counts_ge hq hg)
            exact ⟨g', hg'⟩
          obtain ⟨nodes₂, hrun, hview₂⟩ := changeGroups_lookup (·.recount was now) hroot hcounted
          have hsame : nodes₂ = nodes₁.insert was.path (.task now) := by
            refine Finmap.ext_lookup fun x => ?_
            rw [hview₂, Finmap.lookup_insert_ite, Finmap.lookup_insert_ite, hview₁, Finmap.lookup_erase_ite]
            by_cases hx : x = was.path
            · subst hx
              simp [notMem_above_self hroot]
            · simp [hx]
          refine ⟨nodes₁, ?_, ?_, hs, hkeeps⟩
          · rw [← hsame]
            exact congrArg (Option.map _) hrun
          · rw [← Finmap.lookup_eq_none, hview₁, if_neg (notMem_above_self hroot), Finmap.lookup_erase]
      obtain ⟨nodes, hrun, hnot, hs, hkeeps⟩ := hput
      refine ⟨_, hrun, Standing.putTask (v := now) hs hnot, fun id' p hp' => ?_⟩
      obtain ⟨hroot', hentry'⟩ := h.held id' p hp'
      refine ⟨hroot', ?_⟩
      simp only [Finmap.lookup_insert_ite]
      split
      · rename_i he
        rw [he, hn] at hentry'
        exact hentry'
      · rename_i hne
        rw [(hkeeps p).1, Finmap.lookup_erase_ne hne]
        exact hentry'
    · exact ⟨t, rfl, h⟩

theorem Sound.step (h : t.Sound) {op : Op} (hclear : t.Clear op) : ∃ t', t.step op = some t' ∧ t'.Sound := by
  cases op with
  | add task after => exact ⟨_, rfl, h.add hclear⟩
  | addFolder id path named after collapsed => exact ⟨_, rfl, h.addFolder named hclear.1 hclear.2 after collapsed⟩
  | remove id => exact h.remove id
  | moveTask id path named after => exact h.moveTask named hclear after
  | moveFolder id path named after => exact ⟨_, rfl, h.moveFolder named hclear after⟩
  | setStatus id status => exact h.setStatus id status

theorem withGroups_sound (groups : Finmap fun _ : TaskPath => Bool) : (withGroups groups).Sound := by
  have hempty (p : TaskPath) : (withGroups groups).nodes.lookup p = none := Finmap.lookup_empty p
  refine ⟨⟨fun p n hn => ?_, fun c hc => ?_, fun p g hg => ?_, fun p g hg => ?_, fun p g hg => ?_⟩, fun id p hp => ?_⟩
  · rw [hempty] at hn
    cases hn
  · rcases hc with hc | hc
    · exact absurd hc (Finmap.lookup_eq_none.mp (hempty c))
    · cases hc
  · rw [hempty] at hg
    cases hg
  · rw [hempty] at hg
    cases hg
  · rw [hempty] at hg
    cases hg
  · have hnone : (withGroups groups).paths.lookup id = none := Finmap.lookup_empty id
    rw [hnone] at hp
    cases hp

theorem Sound.run (h : t.Sound) {ops : List Op} (hclear : t.AllClear ops) : ∃ t', t.run ops = some t' ∧ t'.Sound := by
  induction ops generalizing t with
  | nil => exact ⟨t, rfl, h⟩
  | cons op ops ih =>
    obtain ⟨t₁, hstep, hs⟩ := h.step hclear.1
    obtain ⟨t', hrun, hs'⟩ := ih hs (hclear.2 t₁ hstep)
    refine ⟨t', ?_, hs'⟩
    rw [run, List.foldlM_cons, hstep]
    exact hrun

theorem AllClear.take {done rest : List Op} (h : t.AllClear (done ++ rest)) : t.AllClear done := by
  induction done generalizing t with
  | nil => trivial
  | cons op done ih => exact ⟨h.1, fun t' ht' => ih (h.2 t' ht')⟩

/-- While nothing is put under a task and no folder where another is, no count goes below zero, and the groups count
and list what is under them. -/
theorem accurate_of_allClear (groups : Finmap fun _ : TaskPath => Bool) (ops : List Op)
    (hclear : (withGroups groups).AllClear ops) :
    ∀ done, done <+: ops → ∃ t, (withGroups groups).run done = some t ∧ t.Accurate := by
  rintro done ⟨rest, rfl⟩
  obtain ⟨t, hrun, hs⟩ := (withGroups_sound groups).run hclear.take
  exact ⟨t, hrun, hs.accurate⟩

def idleAt (id : TaskId) (name : String) (rest : TaskPath) : TaskView :=
  ⟨id, name :: rest, List.cons_ne_nil name rest, .service, .idle⟩

theorem accurate_of_allClear_moved : ∃ t, new.run [.add (idleAt 1 "a" ["b"]) none,
      .addFolder 2 ["f"] (List.cons_ne_nil _ _) (some 1) true, .setStatus 1 .ready,
      .moveTask 1 ["f", "c"] (List.cons_ne_nil _ _) none, .remove 2] = some t ∧ t.Accurate :=
  accurate_of_allClear ∅ _ (by decide +kernel) _ List.prefix_rfl

/-- What the console hears as `a/b` is moved up to `a`: first of `a/b/b/c/z`, that comes to be under `a/b/c` while
that is still there. -/
def movedUp : List Op :=
  [.add (idleAt 1 "a" ["b", "b", "c", "z"]) none, .add (idleAt 2 "a" ["b", "c"]) (some 1),
    .moveTask 1 ["a", "b", "c", "z"] (List.cons_ne_nil _ _) none,
      .moveTask 2 ["a", "c"] (List.cons_ne_nil _ _) (some 1)]

/-- The first is then in no group's list, and a group that comes to be above it does not count it. -/
theorem movedUp_unlisted : (∃ t, new.run movedUp = some t ∧ ¬ t.Accurate) ∧
    new.run (movedUp ++ [.remove 1, .remove 2]) = none := by
  constructor
  · have hrun : (new.run movedUp).any (fun t => (t.nodes.lookup ["a", "b", "c", "z"]).isSome &&
        (t.nodes.lookup ["a", "b", "c"]).isNone) = true := by decide +kernel
    obtain ⟨t, ht, hlost⟩ := (Option.any_eq_true _ _).mp hrun
    obtain ⟨hin, hnone⟩ := (Bool.and_eq_true _ _).mp hlost
    refine ⟨t, ht, fun h => ?_⟩
    obtain ⟨g, hg, -⟩ := (h.listed _ (Finmap.lookup_isSome.mp hin) (List.cons_ne_nil _ _) ["a", "b", "c"]).mpr rfl
    rw [hg] at hnone
    cases hnone
  · exact Option.isNone_iff_eq_none.mp (by decide +kernel)

end TaskTree

end Dekit.Console
