import Dekit.Console.Above
import Dekit.Lib.Pointwise

/-! What holds of the nodes of a task tree between the steps that change them. -/

namespace Dekit.Console

/-- What a group counts of the tasks under it. -/
inductive Counter
  | tasks
  | up
  | failed

namespace Counter

def of : Counter → Group → ℕ
  | tasks, g => g.tasks
  | up, g => g.up
  | failed, g => g.failed

def counts : Counter → TaskView → Bool
  | tasks, _ => true
  | up, task => task.isUp
  | failed, task => task.failed

end Counter

namespace Node

def path : Node → TaskPath
  | .task v => v.path
  | .group g => g.path

/-- The task or folder that a node is. -/
def entry : Node → Option TaskId
  | .task v => some v.id
  | .group g => g.folder

/-- A node is a task that is counted. -/
def counted (k : Counter) : Node → Bool
  | .task v => k.counts v
  | .group _ => false

end Node

def tasksUnder (nodes : Nodes) (group : TaskPath) (k : Counter) : Finset TaskPath :=
  nodes.keys.filter fun p => p.isAtOrUnder group ∧ p ≠ group ∧ (nodes.lookup p).any (Node.counted k)

/-- What a group's counter is off by while a task is counted that is not there. -/
def ahead (pending : Option TaskView) (group : TaskPath) (k : Counter) : ℕ :=
  match pending with
  | some task => if group ∈ above task.path then (k.counts task).toNat else 0
  | none => 0

def Keyed (nodes : Nodes) : Prop := ∀ p n, nodes.lookup p = some n → n.path = p

/-- Each group lists what is right under it, `loose` too, that may not be there, and counts the tasks under it, `pending`
too, that is not. -/
structure Standing (nodes : Nodes) (loose : Option TaskPath) (pending : Option TaskView) : Prop where
  keyed : Keyed nodes
  parents : ∀ c, c ∈ nodes ∨ loose = some c → c ≠ TaskPath.root → ∃ g, nodes.lookup c.dropLast = some (.group g)
  listing : ∀ p g, nodes.lookup p = some (.group g) →
    ∀ c, c ∈ g.children ↔ (c ∈ nodes ∨ loose = some c) ∧ c ≠ TaskPath.root ∧ c.dropLast = p
  filled : ∀ p g, nodes.lookup p = some (.group g) → p ≠ TaskPath.root → g.folder = none → ∃ c, c ∈ g.children
  counts : ∀ p g, nodes.lookup p = some (.group g) →
    ∀ k : Counter, k.of g = (tasksUnder nodes p k).card + ahead pending p k

section

variable {nodes nodes' : Nodes} {loose : Option TaskPath} {pending : Option TaskView} {p q c : TaskPath}
    {task : TaskView}
  {k : Counter}

theorem ahead_some (task : TaskView) (group : TaskPath) (k : Counter) :
    ahead (some task) group k = if group ∈ above task.path then (k.counts task).toNat else 0 := rfl

theorem isAtOrUnder_and_ne (hc : c ≠ TaskPath.root) : c.isAtOrUnder p = true ∧ c ≠ p ↔ p ∈ above c := by
  rw [mem_above hc]
  unfold TaskPath.isAtOrUnder
  rw [List.isPrefixOf_iff_prefix]
  exact and_congr_right' ⟨Ne.symm, Ne.symm⟩

theorem mem_tasksUnder (hkeyed : Keyed nodes) :
    c ∈ tasksUnder nodes p k ↔ p ∈ above c ∧ ∃ task, nodes.lookup c = some (.task task) ∧ k.counts task = true := by
  unfold tasksUnder
  rw [Finset.mem_filter, Finmap.mem_keys_iff]
  constructor
  · rintro ⟨-, hat, hne, hcounted⟩
    obtain ⟨n, hn, hk⟩ := (Option.any_eq_true _ _).mp hcounted
    cases n with
    | group g => cases hk
    | task task =>
      have hc : c ≠ TaskPath.root := hkeyed c _ hn ▸ task.named
      exact ⟨(isAtOrUnder_and_ne hc).mp ⟨hat, hne⟩, task, hn, hk⟩
  · rintro ⟨habove, task, htask, hk⟩
    have hc : c ≠ TaskPath.root := hkeyed c _ htask ▸ task.named
    obtain ⟨hat, hne⟩ := (isAtOrUnder_and_ne hc).mpr habove
    exact ⟨by rw [htask]; rfl, hat, hne, by rw [htask]; exact hk⟩

theorem Standing.group_above (h : Standing nodes loose pending) (hc : c ∈ nodes ∨ loose = some c)
    (hroot : c ≠ TaskPath.root)
    (hp : p ∈ above c) : ∃ g, nodes.lookup p = some (.group g) := by
  induction c using List.reverseRecOn with
  | nil => exact absurd rfl hroot
  | append_singleton c x ih =>
    have hparent := h.parents _ hc hroot
    rw [List.dropLast_concat] at hparent
    by_cases hne : c = TaskPath.root
    · subst hne
      rw [show TaskPath.root ++ [x] = [x] from rfl, above_singleton, List.mem_singleton] at hp
      rwa [hp]
    · rw [above_append_singleton hne, List.mem_append, List.mem_singleton] at hp
      rcases hp with hp | rfl
      · obtain ⟨g, hg⟩ := hparent
        exact ih (.inl (Finmap.mem_of_lookup_eq_some hg)) hne hp
      · exact hparent

theorem Standing.tasksUnder_empty (h : Standing nodes loose pending) (hp : p ∉ nodes) (k : Counter) :
    tasksUnder nodes p k = ∅ := by
  refine Finset.eq_empty_of_forall_notMem fun c hc => ?_
  obtain ⟨habove, task, htask, -⟩ := (mem_tasksUnder h.keyed).mp hc
  have hroot : c ≠ TaskPath.root := h.keyed c _ htask ▸ task.named
  obtain ⟨g, hg⟩ := h.group_above (.inl (Finmap.mem_of_lookup_eq_some htask)) hroot habove
  exact hp (Finmap.mem_of_lookup_eq_some hg)

/-- What is at a path before and after a change to groups that leaves what each has under it. -/
inductive Node.Like : Option Node → Option Node → Prop
  | none : Like none none
  | task (task : TaskView) : Like (some (.task task)) (some (.task task))
  | group {g g' : Group} : g'.path = g.path → g'.children = g.children →
      (g'.folder = Option.none → g.folder = Option.none ∨ ∃ c, c ∈ g.children) →
        Like (some (.group g)) (some (.group g'))

theorem Node.Like.refl (n : Option Node) : Node.Like n n := by
  cases n with
  | none => exact .none
  | some n =>
    cases n with
    | task v => exact .task v
    | group g => exact .group rfl rfl .inl

theorem mem_of_like (hlike : ∀ q, Node.Like (nodes.lookup q) (nodes'.lookup q)) : c ∈ nodes' ↔ c ∈ nodes := by
  rw [← Finmap.lookup_isSome, ← Finmap.lookup_isSome]
  have hc := hlike c
  generalize nodes.lookup c = n at hc ⊢
  generalize nodes'.lookup c = n' at hc ⊢
  cases hc <;> rfl

theorem group_of_like {n n' : Option Node} (hlike : Node.Like n n') {g' : Group} (hg : n' = some (.group g')) :
    ∃ g, n = some (.group g) ∧ g'.path = g.path ∧ g'.children = g.children ∧
      (g'.folder = none → g.folder = none ∨ ∃ c, c ∈ g.children) := by
  cases hlike with
  | none => cases hg
  | task => cases hg
  | @group g g₁ hpath hchildren hfolder =>
    obtain rfl := Node.group.inj (Option.some.inj hg)
    exact ⟨g, rfl, hpath, hchildren, hfolder⟩

theorem task_of_like {n n' : Option Node} (hlike : Node.Like n n') :
    n' = some (.task task) ↔ n = some (.task task) := by
  cases hlike with
  | none => rfl
  | task => rfl
  | group => simp

theorem Standing.like (h : Standing nodes loose pending) {pending' : Option TaskView}
    (hlike : ∀ q, Node.Like (nodes.lookup q) (nodes'.lookup q))
    (hcounts : ∀ q g g', nodes.lookup q = some (.group g) → nodes'.lookup q = some (.group g') →
      ∀ k : Counter, k.of g' + ahead pending q k = k.of g + ahead pending' q k) : Standing nodes' loose pending' := by
  have hkeyed : Keyed nodes' := by
    intro p n hn
    cases n with
    | task task => exact h.keyed p _ ((task_of_like (hlike p)).mp hn)
    | group g' =>
      obtain ⟨g, hg, hpath, -⟩ := group_of_like (hlike p) hn
      exact hpath.trans (h.keyed p _ hg)
  refine ⟨hkeyed, fun c hc hroot => ?_, fun p g' hg' c => ?_, fun p g' hg' hroot hfolder => ?_, fun p g' hg' k => ?_⟩
  · rw [mem_of_like hlike] at hc
    obtain ⟨g, hg⟩ := h.parents c hc hroot
    have hl := hlike c.dropLast
    rw [hg] at hl
    generalize nodes'.lookup c.dropLast = n' at hl ⊢
    cases hl
    exact ⟨_, rfl⟩
  all_goals obtain ⟨g, hg, -, hchildren, hf⟩ := group_of_like (hlike p) hg'
  · rw [hchildren, mem_of_like hlike]
    exact h.listing p g hg c
  · rw [hchildren]
    rcases hf hfolder with hnone | hsome
    · exact h.filled p g hg hroot hnone
    · exact hsome
  · have hsame : tasksUnder nodes' p k = tasksUnder nodes p k := by
      ext c
      rw [mem_tasksUnder hkeyed, mem_tasksUnder h.keyed]
      simp only [task_of_like (hlike c)]
    have hc := hcounts p g g' hg hg' k
    have hk := h.counts p g hg k
    rw [hsame]
    omega

theorem Standing.setGroup (h : Standing nodes loose pending) {g : Group} (g' : Group)
    (hg : nodes.lookup p = some (.group g))
    (hpath : g'.path = g.path) (hchildren : g'.children = g.children)
    (hfolder : g'.folder = none → g.folder = none ∨ ∃ c, c ∈ g.children) (hcounts : ∀ k : Counter, k.of g' = k.of g) :
    Standing (nodes.insert p (.group g')) loose pending := by
  refine h.like (fun q => ?_) fun q g₁ g₂ hg₁ hg₂ k => ?_
  · rw [Finmap.lookup_insert_ite]
    split
    · rename_i he
      rw [he, hg]
      exact .group hpath hchildren hfolder
    · exact Node.Like.refl _
  · rw [Finmap.lookup_insert_ite] at hg₂
    split at hg₂
    · rename_i he
      rw [he, hg] at hg₁
      obtain rfl := Node.group.inj (Option.some.inj hg₁)
      obtain rfl := Node.group.inj (Option.some.inj hg₂)
      rw [hcounts]
    · rw [hg₁] at hg₂
      obtain rfl := Node.group.inj (Option.some.inj hg₂)
      rfl

end

end Dekit.Console
