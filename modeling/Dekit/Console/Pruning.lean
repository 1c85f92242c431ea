import Dekit.Console.Putting

/-! Groups pruned, counted anew and shown otherwise. -/

namespace Dekit.Console

section

variable {nodes nodes' : Nodes} {loose : Option TaskPath} {pending : Option TaskView} {p q c : TaskPath}
  {v : TaskView} {g : Group}

theorem TaskTree.pruneUp_of_mem (hc : c ∈ nodes) (rest : List TaskPath) : TaskTree.pruneUp nodes c rest = nodes := by
  cases rest with
  | nil => rfl
  | cons q rest => rw [TaskTree.pruneUp, if_pos hc]

theorem Standing.unlist (h : Standing nodes (some c) none) (hc : c ∉ nodes) (hroot : c ≠ TaskPath.root)
    (hg : nodes.lookup c.dropLast = some (.group g))
    (hstays : ¬ (c.dropLast ≠ TaskPath.root ∧ (g.children.shiftRemove c).isEmpty = true ∧ g.folder = none)) :
    Standing (nodes.insert c.dropLast (.group { g with children := g.children.shiftRemove c })) none none := by
  have hpath : g.path = c.dropLast := h.keyed _ _ hg
  have hkeyed : Keyed (nodes.insert c.dropLast (.group { g with children := g.children.shiftRemove c })) :=
    keyed_insert h.keyed hpath
  have hmem (x : TaskPath) :
    x ∈ nodes.insert c.dropLast (.group { g with children := g.children.shiftRemove c }) ↔ x ∈ nodes := by
    rw [Finmap.mem_insert]
    constructor
    · rintro (rfl | hx)
      · exact Finmap.mem_of_lookup_eq_some hg
      · exact hx
    · exact .inr
  have hother {q : TaskPath} (hq : q ≠ c.dropLast) :
      (nodes.insert c.dropLast (.group { g with children := g.children.shiftRemove c })).lookup q = nodes.lookup q :=
    Finmap.lookup_insert_of_ne _ hq
  have hsame (q : TaskPath) (k : Counter) :
      tasksUnder (nodes.insert c.dropLast (.group { g with children := g.children.shiftRemove c })) q k =
        tasksUnder nodes q k := by
    refine tasksUnder_congr h.keyed hkeyed fun x v => ?_
    rw [Finmap.lookup_insert_ite]
    split
    · rename_i he
      subst he
      rw [hg]
      simp
    · rfl
  refine ⟨hkeyed, fun x hx hne => ?_, fun q g' hg' x => ?_, fun q g' hg' hne hfolder => ?_, fun q g' hg' k => ?_⟩
  · rcases hx with hx | hx
    · rw [hmem] at hx
      by_cases he : x.dropLast = c.dropLast
      · rw [he, Finmap.lookup_insert]
        exact ⟨_, rfl⟩
      · rw [hother he]
        exact h.parents x (.inl hx) hne
    · cases hx
  all_goals by_cases hq : q = c.dropLast
  · subst hq
    rw [Finmap.lookup_insert] at hg'
    obtain rfl := Node.group.inj (Option.some.inj hg')
    rw [hmem, IndexSet.mem_shiftRemove, h.listing _ g hg, Option.some.injEq, eq_comm (a := c)]
    constructor
    · rintro ⟨hne, hx | hx, hrest⟩
      · exact ⟨.inl hx, hrest⟩
      · exact absurd hx hne
    · rintro ⟨hx | hx, hrest⟩
      · refine ⟨?_, .inl hx, hrest⟩
        rintro rfl
        exact hc hx
      · cases hx
  · rw [hother hq] at hg'
    rw [h.listing q g' hg', hmem, Option.some.injEq]
    constructor
    · rintro ⟨hx | rfl, hne, he⟩
      · exact ⟨.inl hx, hne, he⟩
      · exact absurd he.symm hq
    · rintro ⟨hx | hx, hrest⟩
      · exact ⟨.inl hx, hrest⟩
      · cases hx
  · subst hq
    rw [Finmap.lookup_insert] at hg'
    obtain rfl := Node.group.inj (Option.some.inj hg')
    by_contra hnone
    exact hstays ⟨hne, IndexSet.isEmpty_iff.mpr fun x hx => hnone ⟨x, hx⟩, hfolder⟩
  · rw [hother hq] at hg'
    exact h.filled q g' hg' hne hfolder
  · subst hq
    rw [Finmap.lookup_insert] at hg'
    obtain rfl := Node.group.inj (Option.some.inj hg')
    rw [hsame]
    have hk := h.counts _ g hg k
    cases k <;> exact hk
  · rw [hother hq] at hg'
    rw [hsame]
    exact h.counts q g' hg' k

theorem Standing.prune (h : Standing nodes (some c) none) (hroot : c ≠ TaskPath.root) :
    Standing (TaskTree.prune nodes c) none none := by
  induction c using List.reverseRecOn generalizing nodes with
  | nil => exact absurd rfl hroot
  | append_singleton q x ih =>
    obtain ⟨rest, hrest, hup⟩ : ∃ rest, (above (q ++ [x])).reverse = q :: rest ∧
      (q ≠ TaskPath.root → rest = (above q).reverse) := by
      by_cases hq : q = TaskPath.root
      · subst hq
        exact ⟨[], rfl, fun hne => absurd rfl hne⟩
      · exact ⟨(above q).reverse, by rw [above_append_singleton hq, List.reverse_concat], fun _ => rfl⟩
    unfold TaskTree.prune
    rw [hrest, TaskTree.pruneUp]
    by_cases hc : q ++ [x] ∈ nodes
    · rw [if_pos hc]
      exact h.settle hc
    · rw [if_neg hc]
      obtain ⟨g, hg⟩ := h.parents _ (.inr rfl) hroot
      have hgq := hg
      rw [List.dropLast_concat] at hgq
      simp only [hgq]
      split
      · rename_i hempty
        rw [hup hempty.1]
        refine ih (h.erase hgq (fun y hy hne he => ?_) fun y hy => ?_) hempty.1
        · have hlisted := (h.listing q g hgq y).mpr ⟨.inl hy, hne, he⟩
          refine IndexSet.isEmpty_iff.mp hempty.2.1 y (IndexSet.mem_shiftRemove.mpr ⟨?_, hlisted⟩)
          rintro rfl
          exact hc hy
        · obtain rfl := Option.some.inj hy
          exact ⟨List.dropLast_concat, hc⟩
      · rename_i hstays
        rw [TaskTree.pruneUp_of_mem (Finmap.mem_insert.mpr (.inl rfl))]
        have hunlist := h.unlist (g := g) hc hroot hg
        rw [List.dropLast_concat] at hunlist
        exact hunlist hstays

/-- The tasks and folders are where they were. -/
def Keeps (nodes nodes' : Nodes) : Prop :=
  ∀ q, (nodes'.lookup q).bind Node.entry = (nodes.lookup q).bind Node.entry ∧
    ∀ v, nodes'.lookup q = some (.task v) ↔ nodes.lookup q = some (.task v)

theorem Keeps.refl (nodes : Nodes) : Keeps nodes nodes := fun _ => ⟨rfl, fun _ => Iff.rfl⟩

theorem Keeps.trans {nodes₁ : Nodes} (h : Keeps nodes nodes₁) (h' : Keeps nodes₁ nodes') : Keeps nodes nodes' :=
  fun q => ⟨(h' q).1.trans (h q).1, fun v => ((h' q).2 v).trans ((h q).2 v)⟩

theorem keeps_setGroup (g' : Group) (hg : nodes.lookup p = some (.group g)) (hfolder : g'.folder = g.folder) :
    Keeps nodes (nodes.insert p (.group g')) := by
  intro q
  rw [Finmap.lookup_insert_ite]
  split
  · rename_i he
    rw [he, hg]
    exact ⟨hfolder, fun v => by simp⟩
  · exact ⟨rfl, fun v => Iff.rfl⟩

theorem keeps_erase (hg : nodes.lookup p = some (.group g)) (hfolder : g.folder = none) :
    Keeps nodes (nodes.erase p) := by
  intro q
  rw [Finmap.lookup_erase_ite]
  split
  · rename_i he
    rw [he, hg]
    exact ⟨hfolder.symm, fun v => by simp⟩
  · exact ⟨rfl, fun v => Iff.rfl⟩

theorem TaskTree.prune_keeps (nodes : Nodes) (c : TaskPath) : Keeps nodes (TaskTree.prune nodes c) := by
  unfold TaskTree.prune
  generalize (above c).reverse = parents
  induction parents generalizing nodes c with
  | nil => exact Keeps.refl nodes
  | cons parent rest ih =>
    rw [TaskTree.pruneUp]
    split
    · exact Keeps.refl nodes
    · split
      · rename_i g hg
        simp only
        split
        · rename_i hempty
          exact (keeps_erase hg hempty.2.2).trans (ih _ _)
        · have hset := keeps_setGroup { g with children := g.children.shiftRemove c } hg rfl
          exact hset.trans (ih _ _)
      · exact Keeps.refl nodes

def Node.changed (f : Group → Option Group) : Option Node → Option Node
  | some (.group g) => some (.group ((f g).getD g))
  | n => n

theorem TaskTree.changeGroups_lookup (f : Group → Option Group) (hp : p ≠ TaskPath.root)
    (hf : ∀ q ∈ above p, ∀ g, nodes.lookup q = some (.group g) → ∃ g', f g = some g') :
    ∃ nodes', (above p).foldlM (TaskTree.changeGroup f) nodes = some nodes' ∧
      ∀ x, nodes'.lookup x = if x ∈ above p then Node.changed f (nodes.lookup x) else nodes.lookup x := by
  have hfold := Pointwise.foldlM_view (fun (m : Nodes) x => m.lookup x) (fun _ => Node.changed f)
    (fun _ n => ∀ g, n = some (.group g) → ∃ g', f g = some g') (TaskTree.changeGroup f)
    (fun m q hguard => ?_) (above_nodup hp) nodes (fun q hq g hg => hf q hq g hg)
  · obtain ⟨nodes', hrun, hview⟩ := hfold
    refine ⟨nodes', hrun, fun x => ?_⟩
    have hx := hview x
    by_cases hin : x ∈ above p
    · rw [if_pos hin] at hx ⊢
      exact hx
    · rw [if_neg hin] at hx ⊢
      exact hx
  · unfold TaskTree.changeGroup
    cases hn : m.lookup q with
    | none =>
      refine ⟨m, rfl, fun x => ?_⟩
      split
      · rename_i he
        rw [he, hn]
        rfl
      · rfl
    | some n =>
      cases n with
      | task v =>
        refine ⟨m, rfl, fun x => ?_⟩
        split
        · rename_i he
          rw [he, hn]
          rfl
        · rfl
      | group g =>
        obtain ⟨g', hg'⟩ := hguard g hn
        refine ⟨m.insert q (.group g'), by simp [hg'], fun x => ?_⟩
        rw [Finmap.lookup_insert_ite]
        split
        · rename_i he
          subst he
          change _ = Node.changed f (m.lookup x)
          rw [hn]
          simp only [Node.changed, hg', Option.getD_some]
        · rfl

theorem Standing.recount (h : Standing nodes loose pending) (f : Group → Option Group)
    (pending' : Option TaskView) (hp : p ≠ TaskPath.root)
    (hpending : ∀ v, pending = some v → v.path = p) (hpending' : ∀ v, pending' = some v → v.path = p)
    (hf : ∀ g, (∀ k : Counter, (pending.elim 0 fun v => (k.counts v).toNat) ≤ k.of g) → ∃ g', f g = some g' ∧
      g'.path = g.path ∧ g'.children = g.children ∧ g'.folder = g.folder ∧
      ∀ k : Counter, k.of g' + (pending.elim 0 fun v => (k.counts v).toNat) =
        k.of g + (pending'.elim 0 fun v => (k.counts v).toNat)) :
    ∃ nodes', (above p).foldlM (TaskTree.changeGroup f) nodes = some nodes' ∧ Standing nodes' loose pending' ∧
      Keeps nodes nodes' ∧
      ∀ x, nodes'.lookup x = if x ∈ above p then Node.changed f (nodes.lookup x) else nodes.lookup x := by
  have hahead {pending : Option TaskView} (hpend : ∀ v, pending = some v → v.path = p) (q : TaskPath) (k : Counter) :
      ahead pending q k = if q ∈ above p then pending.elim 0 fun v => (k.counts v).toNat else 0 := by
    cases pending with
    | none => simp [ahead]
    | some v => rw [ahead_some, hpend v rfl]; rfl
  have hgroup {q : TaskPath} (hq : q ∈ above p) {g : Group} (hg : nodes.lookup q = some (.group g)) := hf g fun k => by
    have hk := h.counts q g hg k
    rw [hahead hpending, if_pos hq] at hk
    omega
  obtain ⟨nodes', hrun, hview⟩ := TaskTree.changeGroups_lookup f hp fun q hq g hg => by
    obtain ⟨g', hg', -⟩ := hgroup hq hg
    exact ⟨g', hg'⟩
  have hboth (q : TaskPath) : Node.Like (nodes.lookup q) (nodes'.lookup q) ∧
      (nodes'.lookup q).bind Node.entry = (nodes.lookup q).bind Node.entry := by
    rw [hview]
    by_cases hq : q ∈ above p
    · rw [if_pos hq]
      cases hn : nodes.lookup q with
      | none => exact ⟨.none, rfl⟩
      | some n =>
        cases n with
        | task v => exact ⟨.task v, rfl⟩
        | group g =>
          obtain ⟨g', hg', hpath, hchildren, hfolder, -⟩ := hgroup hq hn
          simp only [Node.changed, hg', Option.getD_some]
          exact ⟨.group hpath hchildren fun hnone => .inl (hfolder ▸ hnone), hfolder⟩
    · rw [if_neg hq]
      exact ⟨Node.Like.refl _, rfl⟩
  refine ⟨nodes', hrun, h.like (fun q => (hboth q).1) fun q g g' hg hg' k => ?_,
    fun q => ⟨(hboth q).2, fun v => task_of_like (hboth q).1⟩, hview⟩
  · rw [hahead hpending, hahead hpending']
    rw [hview, hg] at hg'
    by_cases hq : q ∈ above p
    · obtain ⟨g₁, hg₁, -, -, -, hcounts⟩ := hgroup hq hg
      simp only [if_pos hq, Node.changed, hg₁, Option.getD_some] at hg' ⊢
      obtain rfl := Node.group.inj (Option.some.inj hg')
      exact hcounts k
    · rw [if_neg hq] at hg'
      obtain rfl := Node.group.inj (Option.some.inj hg')
      simp [hq]

theorem checkedSub_of_le {a b : ℕ} (h : b ≤ a) : checkedSub a b = some (a - b) := if_pos h

theorem Group.remove_counted (h : ∀ k : Counter, (k.counts v).toNat ≤ k.of g) : ∃ g', g.remove v = some g' ∧
    g'.path = g.path ∧ g'.children = g.children ∧ g'.folder = g.folder ∧
    ∀ k : Counter, k.of g' + (k.counts v).toNat = k.of g := by
  have htasks : 1 ≤ g.tasks := h .tasks
  have hup : v.isUp.toNat ≤ g.up := h .up
  have hfailed : v.failed.toNat ≤ g.failed := h .failed
  refine ⟨{ g with tasks := g.tasks - 1, up := g.up - v.isUp.toNat, failed := g.failed - v.failed.toNat }, ?_, rfl, rfl,
    rfl, fun k => ?_⟩
  · unfold Group.remove
    rw [checkedSub_of_le htasks, checkedSub_of_le hup, checkedSub_of_le hfailed]
    rfl
  · cases k with
    | tasks => exact Nat.sub_add_cancel htasks
    | up => exact Nat.sub_add_cancel hup
    | failed => exact Nat.sub_add_cancel hfailed

theorem Group.recount_counted {was : TaskView} (now : TaskView) (h : ∀ k : Counter, (k.counts was).toNat ≤ k.of g) :
    ∃ g', g.recount was now = some g' ∧ g'.path = g.path ∧ g'.children = g.children ∧ g'.folder = g.folder ∧
      ∀ k : Counter, k.of g' + (k.counts was).toNat = k.of g + (k.counts now).toNat := by
  have hup : was.isUp.toNat ≤ g.up + now.isUp.toNat := (h .up).trans (Nat.le_add_right _ _)
  have hfailed : was.failed.toNat ≤ g.failed + now.failed.toNat := (h .failed).trans (Nat.le_add_right _ _)
  refine ⟨{ g with up := g.up + now.isUp.toNat - was.isUp.toNat, failed := g.failed + now.failed.toNat - was.failed.toNat },
    ?_, rfl, rfl, rfl, fun k => ?_⟩
  · unfold Group.recount
    rw [checkedSub_of_le hup, checkedSub_of_le hfailed]
    rfl
  · cases k with
    | tasks => rfl
    | up => exact Nat.sub_add_cancel hup
    | failed => exact Nat.sub_add_cancel hfailed

theorem Standing.setCollapsed (h : Standing nodes loose pending) (shown : List (TaskPath × Bool)) :
    Standing (shown.foldl TaskTree.setCollapsed nodes) loose pending ∧
      Keeps nodes (shown.foldl TaskTree.setCollapsed nodes) := by
  refine Fold.foldl_invariant (P := fun m => Standing m loose pending ∧ Keeps nodes m) (fun m hm e _ => ?_)
    ⟨h, Keeps.refl nodes⟩
  unfold TaskTree.setCollapsed
  split
  · rename_i g hg
    have hset := keeps_setGroup { g with collapsed := e.2 } hg rfl
    exact ⟨hm.1.setGroup _ hg rfl rfl .inl fun k => by cases k <;> rfl, hm.2.trans hset⟩
  · exact hm

end

end Dekit.Console
