import Dekit.Console.Standing
import Dekit.Lib.Fold

/-! A path listed in the groups above it, and what is then put there. -/

namespace Dekit.Console

section

variable {g : Group} {child c : TaskPath} {beside : Option TaskPath}

theorem Group.place_same (g : Group) (child : TaskPath) (beside : Option TaskPath) :
    (g.place child beside).path = g.path ∧ (g.place child beside).folder = g.folder ∧
      ∀ k : Counter, k.of (g.place child beside) = k.of g := by
  unfold Group.place
  split
  · exact ⟨rfl, rfl, fun _ => rfl⟩
  · exact ⟨rfl, rfl, fun k => by cases k <;> rfl⟩

theorem Group.mem_place (hbeside : beside = some child → child ∈ g.children) :
    c ∈ (g.place child beside).children ↔ c ∈ g.children ∨ c = child := by
  unfold Group.place
  split
  · rename_i he
    constructor
    · exact .inl
    · rintro (hc | rfl)
      · exact hc
      · exact hbeside he
  · simp only [IndexSet.mem_moveIndex]
    cases hi : g.children.indexOf child with
    | none => exact IndexSet.mem_insert
    | some i =>
      have hchild : child ∈ g.children := IndexSet.indexOf_isSome.mp (by rw [hi]; rfl)
      constructor
      · exact .inl
      · rintro (hc | rfl)
        · exact hc
        · exact hchild

theorem Counter.of_add (k : Counter) (g : Group) (task : TaskView) :
    k.of (g.add task) = k.of g + (k.counts task).toNat := by
  cases k <;> rfl

theorem Counter.of_new (k : Counter) (p : TaskPath) (collapsed : Bool) : k.of (.new p collapsed) = 0 := by
  cases k <;> rfl

end

theorem under_prefix {q a c : TaskPath} (h : under q a = some c) : c <+: a := by
  unfold under at h
  split at h
  · exact Option.some.inj h ▸ List.take_prefix _ _
  · split at h
    · exact Option.some.inj h ▸ List.take_prefix _ _
    · cases h

namespace TaskTree

variable {t : TaskTree} {p q c : TaskPath} {after : Option TaskPath} {task : Option TaskView}

/-- A group with a task counted, if there is one. -/
def counting (g : Group) (task : Option TaskView) : Group :=
  match task with
  | some task => g.add task
  | none => g

/-- What listing a path makes of what is at a group above it, and of how that starts. -/
def listAt (path : TaskPath) (after : Option TaskPath) (task : Option TaskView) (group : TaskPath)
    (e : Option Node × Option Bool) : Option Node × Option Bool :=
  let (node, seed) := match e.1 with
    | some node => (node, e.2)
    | none => (.group (.new group (e.2.getD false)), none)
  match node, under group path with
  | .group g, some child => (some (.group ((counting g task).place child (after.bind (under g.path)))), seed)
  | node, _ => (some node, seed)

theorem listIn_view (t : TaskTree) (group x : TaskPath) :
    ((listIn p after task t group).nodes.lookup x, (listIn p after task t group).seeds.lookup x) =
      if x = group then listAt p after task group (t.nodes.lookup x, t.seeds.lookup x)
      else (t.nodes.lookup x, t.seeds.lookup x) := by
  by_cases hx : x = group
  · subst hx
    rw [if_pos rfl]
    unfold listIn listAt
    cases hn : t.nodes.lookup x with
    | none =>
      cases hu : under x p with
      | none => simp
      | some child => cases task <;> simp [counting, Group.new, Group.add]
    | some n =>
      cases n with
      | task v => simp
      | group g =>
        cases hu : under x p with
        | none => simp
        | some child => cases task <;> simp [counting, Group.add]
  · rw [if_neg hx]
    unfold listIn
    cases hn : t.nodes.lookup group with
    | none =>
      cases hu : under group p with
      | none => simp [Finmap.lookup_insert_of_ne, Finmap.lookup_erase_ne, hx]
      | some child => simp [Finmap.lookup_insert_of_ne, Finmap.lookup_erase_ne, hx]
    | some n =>
      cases n with
      | task v => simp [Finmap.lookup_insert_of_ne, hx]
      | group g =>
        cases hu : under group p with
        | none => simp [Finmap.lookup_insert_of_ne, hx]
        | some child => simp [Finmap.lookup_insert_of_ne, hx]

theorem list_view (t : TaskTree) (hp : p ≠ TaskPath.root) (after : Option TaskPath) (task : Option TaskView)
    (x : TaskPath) :
    (t.list p after task).nodes.lookup x =
      if x ∈ above p then (listAt p after task x (t.nodes.lookup x, t.seeds.lookup x)).1 else t.nodes.lookup x := by
  have hfst := congrArg Prod.fst (Pointwise.foldl_view (fun t x => (t.nodes.lookup x, t.seeds.lookup x))
    (listAt p after task) (listIn p after task) (fun t k x => listIn_view t k x) (above_nodup hp) t x)
  by_cases hx : x ∈ above p
  · rw [if_pos hx] at hfst ⊢
    exact hfst
  · rw [if_neg hx] at hfst ⊢
    exact hfst

theorem list_paths (t : TaskTree) (p : TaskPath) (after : Option TaskPath) (task : Option TaskView) :
    (t.list p after task).paths = t.paths := by
  refine Fold.foldl_keeps (p := TaskTree.paths) (fun t group => ?_) _ t
  unfold listIn
  split
  split <;> rfl

theorem list_above (task : Option TaskView) (h : Standing t.nodes none none) (hp : p ≠ TaskPath.root)
    (hfree : ∀ q ∈ above p, ∀ v, t.nodes.lookup q ≠ some (.task v)) (hafter : ∀ a, after = some a → a ∈ t.nodes)
    (hq : q ∈ above p) : ∃ g, (t.list p after task).nodes.lookup q = some (.group g) ∧ g.path = q ∧
      g.folder = (t.nodes.lookup q).bind Node.entry ∧
      (∀ c, c ∈ g.children ↔ (c ∈ t.nodes ∧ c ≠ TaskPath.root ∧ c.dropLast = q) ∨ c = p.take (q.length + 1)) ∧
      ∀ k : Counter, k.of g = (tasksUnder t.nodes q k).card + (task.elim 0 fun v => (k.counts v).toNat) := by
  have hbeside (a : TaskPath) (ha : after = some a) (hu : under q a = some (p.take (q.length + 1))) :
      p.take (q.length + 1) ∈ t.nodes ∧ p.take (q.length + 1) ≠ TaskPath.root ∧
        (p.take (q.length + 1)).dropLast = q := by
    obtain ⟨-, hroot, hdrop⟩ := (child_iff hp hq).mp rfl
    have hpre := under_prefix hu
    refine ⟨?_, hroot, hdrop⟩
    by_cases he : p.take (q.length + 1) = a
    · exact he ▸ hafter a ha
    · have hane : a ≠ TaskPath.root := by
        rintro rfl
        exact hroot (List.prefix_nil.mp hpre)
      obtain ⟨g, hg⟩ := h.group_above (.inl (hafter a ha)) hane ((mem_above hane).mpr ⟨hpre, he⟩)
      exact Finmap.mem_of_lookup_eq_some hg
  have hof (k : Counter) (g : Group) (child : TaskPath) (beside : Option TaskPath) :
      k.of ((counting g task).place child beside) = k.of g + task.elim 0 fun v => (k.counts v).toNat := by
    rw [(Group.place_same _ _ _).2.2]
    cases task with
    | none => rfl
    | some v => exact k.of_add g v
  have hcounting (g : Group) : (counting g task).path = g.path ∧ (counting g task).folder = g.folder ∧
      (counting g task).children = g.children := by
    cases task <;> exact ⟨rfl, rfl, rfl⟩
  rw [list_view t hp, if_pos hq]
  unfold listAt
  rw [under_above hp hq]
  cases hn : t.nodes.lookup q with
  | none =>
    refine ⟨_, rfl, ?_, ?_, fun c => ?_, fun k => ?_⟩
    · rw [(Group.place_same _ _ _).1, (hcounting _).1]
      rfl
    · rw [(Group.place_same _ _ _).2.1, (hcounting _).2.1]
      rfl
    · rw [Group.mem_place, (hcounting _).2.2]
      · refine or_congr_left ⟨fun hc => absurd hc (IndexSet.notMem_empty c), fun ⟨hc, hroot, hdrop⟩ => ?_⟩
        obtain ⟨g, hg⟩ := h.parents c (.inl hc) hroot
        rw [hdrop, hn] at hg
        cases hg
      · intro hb
        obtain ⟨a, ha, hu⟩ := Option.bind_eq_some_iff.mp hb
        obtain ⟨hin, hroot, hdrop⟩ := hbeside a ha hu
        obtain ⟨g, hg⟩ := h.parents _ (.inl hin) hroot
        rw [hdrop, hn] at hg
        cases hg
    · rw [hof, h.tasksUnder_empty (Finmap.lookup_eq_none.mp hn), Counter.of_new]
      rfl
  | some n =>
    cases n with
    | task v => exact absurd hn (hfree q hq v)
    | group g =>
      refine ⟨_, rfl, ?_, ?_, fun c => ?_, fun k => ?_⟩
      · rw [(Group.place_same _ _ _).1, (hcounting _).1]
        exact h.keyed q _ hn
      · rw [(Group.place_same _ _ _).2.1, (hcounting _).2.1]
        rfl
      · have hlist (c : TaskPath) : c ∈ g.children ↔ c ∈ t.nodes ∧ c ≠ TaskPath.root ∧ c.dropLast = q := by
          rw [h.listing q g hn]
          simp
        rw [Group.mem_place, (hcounting _).2.2, hlist]
        intro hb
        obtain ⟨a, ha, hu⟩ := Option.bind_eq_some_iff.mp hb
        rw [show g.path = q from h.keyed q _ hn] at hu
        rw [(hcounting _).2.2, hlist]
        exact hbeside a ha hu
      · rw [hof, h.counts q g hn]
        rfl

theorem mem_list (h : Standing t.nodes none none) (hp : p ≠ TaskPath.root)
    (hfree : ∀ q ∈ above p, ∀ v, t.nodes.lookup q ≠ some (.task v)) (hafter : ∀ a, after = some a → a ∈ t.nodes) :
    c ∈ (t.list p after task).nodes ↔ c ∈ t.nodes ∨ c ∈ above p := by
  by_cases hc : c ∈ above p
  · obtain ⟨g, hg, -⟩ := list_above task h hp hfree hafter hc
    exact ⟨fun _ => .inr hc, fun _ => Finmap.mem_of_lookup_eq_some hg⟩
  · rw [← Finmap.lookup_isSome, list_view t hp, if_neg hc, Finmap.lookup_isSome]
    simp [hc]

theorem list_task (h : Standing t.nodes none none) (hp : p ≠ TaskPath.root)
    (hfree : ∀ q ∈ above p, ∀ v, t.nodes.lookup q ≠ some (.task v)) (hafter : ∀ a, after = some a → a ∈ t.nodes)
    {v : TaskView} : (t.list p after task).nodes.lookup c = some (.task v) ↔ t.nodes.lookup c = some (.task v) := by
  by_cases hc : c ∈ above p
  · obtain ⟨g, hg, -⟩ := list_above task h hp hfree hafter hc
    rw [hg]
    exact ⟨fun he => (by cases he), fun he => absurd he (hfree c hc v)⟩
  · rw [list_view t hp, if_neg hc]

theorem list_standing (task : Option TaskView) (h : Standing t.nodes none none) (hp : p ≠ TaskPath.root)
    (hfree : ∀ q ∈ above p, ∀ v, t.nodes.lookup q ≠ some (.task v)) (hafter : ∀ a, after = some a → a ∈ t.nodes)
    (htask : ∀ v, task = some v → v.path = p) : Standing (t.list p after task).nodes (some p) task := by
  have hgroup {q : TaskPath} (hq : q ∈ above p) := list_above task h hp hfree hafter hq
  have hother {q : TaskPath} (hq : q ∉ above p) : (t.list p after task).nodes.lookup q = t.nodes.lookup q := by
    rw [list_view t hp, if_neg hq]
  have hkeyed : Keyed (t.list p after task).nodes := by
    intro q n hn
    by_cases hq : q ∈ above p
    · obtain ⟨g, hg, hpath, -⟩ := hgroup hq
      rw [hg] at hn
      obtain rfl := Option.some.inj hn
      exact hpath
    · rw [hother hq] at hn
      exact h.keyed q n hn
  have hsame (q : TaskPath) (k : Counter) : tasksUnder (t.list p after task).nodes q k = tasksUnder t.nodes q k := by
    ext c
    rw [mem_tasksUnder hkeyed, mem_tasksUnder h.keyed]
    simp only [list_task h hp hfree hafter]
  have hahead {q : TaskPath} (k : Counter) (hq : q ∉ above p) : ahead task q k = 0 := by
    cases task with
    | none => rfl
    | some v =>
      rw [ahead_some, htask v rfl]
      exact if_neg hq
  have hup {c : TaskPath} (hc : c ∈ above p ∨ c = p) (hroot : c ≠ TaskPath.root) : c.dropLast ∈ above p := by
    rcases hc with hc | rfl
    · exact above_trans hp hc hroot (dropLast_above hroot)
    · exact dropLast_above hroot
  refine ⟨hkeyed, fun c hc hroot => ?_, fun q g hg c => ?_, fun q g hg hroot hfolder => ?_, fun q g hg k => ?_⟩
  · by_cases hd : c.dropLast ∈ above p
    · obtain ⟨g, hg, -⟩ := hgroup hd
      exact ⟨g, hg⟩
    · rw [hother hd]
      refine h.parents c (.inl ?_) hroot
      rw [mem_list h hp hfree hafter] at hc
      rcases hc with (hc | hc) | hc
      · exact hc
      · exact absurd (hup (.inl hc) hroot) hd
      · exact absurd (hup (.inr (Option.some.inj hc).symm) hroot) hd
  · rw [mem_list h hp hfree hafter]
    by_cases hq : q ∈ above p
    · obtain ⟨g', hg', -, -, hchildren, -⟩ := hgroup hq
      rw [hg'] at hg
      obtain rfl := Node.group.inj (Option.some.inj hg)
      rw [hchildren, child_iff hp hq, Option.some.injEq, eq_comm (a := p)]
      tauto
    · rw [hother hq] at hg
      rw [h.listing q g hg]
      constructor
      · rintro ⟨hc | hc, hrest⟩
        · exact ⟨.inl (.inl hc), hrest⟩
        · cases hc
      · rintro ⟨(hc | hc) | hc, hroot, rfl⟩
        · exact ⟨.inl hc, hroot, rfl⟩
        · exact absurd (hup (.inl hc) hroot) hq
        · exact absurd (hup (.inr (Option.some.inj hc).symm) hroot) hq
  · by_cases hq : q ∈ above p
    · obtain ⟨g', hg', -, -, hchildren, -⟩ := hgroup hq
      rw [hg'] at hg
      obtain rfl := Node.group.inj (Option.some.inj hg)
      exact ⟨_, (hchildren _).mpr (.inr rfl)⟩
    · rw [hother hq] at hg
      exact h.filled q g hg hroot hfolder
  · rw [hsame]
    by_cases hq : q ∈ above p
    · obtain ⟨g', hg', -, -, -, hcounts⟩ := hgroup hq
      rw [hg'] at hg
      obtain rfl := Node.group.inj (Option.some.inj hg)
      rw [hcounts]
      cases task with
      | none => rfl
      | some v =>
        rw [ahead_some, htask v rfl, if_pos hq]
        rfl
    · rw [hother hq] at hg
      rw [hahead k hq]
      exact h.counts q g hg k

theorem list_entry (h : Standing t.nodes none none) (hp : p ≠ TaskPath.root)
    (hfree : ∀ q ∈ above p, ∀ v, t.nodes.lookup q ≠ some (.task v)) (hafter : ∀ a, after = some a → a ∈ t.nodes)
    (q : TaskPath) : ((t.list p after task).nodes.lookup q).bind Node.entry = (t.nodes.lookup q).bind Node.entry := by
  by_cases hq : q ∈ above p
  · obtain ⟨g, hg, -, hfolder, -⟩ := list_above task h hp hfree hafter hq
    rw [hg, ← hfolder]
    rfl
  · rw [list_view t hp, if_neg hq]

end TaskTree

end Dekit.Console
