import Dekit.Enrolling

/-! Batches whose deps can all be met: the order they go in, and the order their paths are listed in. -/

namespace Dekit

namespace Batch

variable {τ : Type} {tasks : List (Registration τ)} {done ready : List ℕ} {missing : ℕ → ℕ} {i : ℕ}

def Prior (tasks : List (Registration τ)) (done : List ℕ) : Prop :=
  ∀ l i rest, done = l ++ i :: rest → ∀ d ∈ deps tasks i, d ∈ l

theorem Ordered.prior_pop (h : Ordered tasks done (i :: ready) missing) (hp : Prior tasks done) :
    Prior tasks (done ++ [i]) := by
  intro l j rest he d hd
  rcases List.eq_nil_or_concat rest with rfl | ⟨rest, x, rfl⟩
  · obtain ⟨rfl, hij⟩ := List.append_inj' he rfl
    obtain rfl := List.singleton_inj.mp hij
    have hi := h.bound i (List.mem_append_right _ List.mem_cons_self)
    have hzero := (h.free i hi).mp (List.mem_append_right _ List.mem_cons_self)
    have hnone := List.length_eq_zero_iff.mp ((h.waits i).symm.trans hzero)
    by_contra hnot
    have hin : d ∈ (deps tasks i).filter (· ∉ done) := List.mem_filter.mpr ⟨hd, by simpa using hnot⟩
    rw [hnone] at hin
    cases hin
  · rw [List.concat_eq_append, ← List.cons_append, ← List.append_assoc] at he
    exact hp l j rest (List.append_inj' he rfl).1 d hd

theorem Ordered.prior_orderFrom (h : Ordered tasks done ready missing) (hp : Prior tasks done) (fuel : ℕ) :
    Prior tasks (done ++ (Batch.orderFrom tasks fuel missing ready).1) := by
  induction fuel generalizing done ready missing with
  | zero =>
    rw [Batch.orderFrom, List.append_nil]
    exact hp
  | succ fuel ih =>
    cases ready with
    | nil =>
      rw [Batch.orderFrom, List.append_nil]
      exact hp
    | cons d ready =>
      rw [Batch.orderFrom]
      have hrec := ih h.pop (h.prior_pop hp)
      rwa [List.append_assoc] at hrec

theorem deps_lt {d : ℕ} (hd : d ∈ deps tasks i) : d < tasks.length := by
  unfold deps at hd
  split at hd
  · obtain ⟨id, -, hslot⟩ := List.mem_filterMap.mp hd
    have hin := List.mem_of_find?_eq_some hslot
    exact List.mem_range.mp (List.mem_reverse.mp hin)
  · cases hd

theorem order_prior (hacc : ∀ i < tasks.length, Acc (fun d i => d ∈ deps tasks i) i) : Prior tasks (order tasks) := by
  have hstart := Ordered.start tasks
  have hend := hstart.orderFrom tasks.length (by simp)
  have hprior := hstart.prior_orderFrom (fun l i rest he => by simp at he) tasks.length
  rw [List.nil_append] at hend hprior
  have hsplit : order tasks =
      (Batch.orderFrom tasks tasks.length (fun i => (deps tasks i).length) (roots tasks)).1 ++
        (List.range tasks.length).filter
          (0 < (Batch.orderFrom tasks tasks.length (fun i => (deps tasks i).length) (roots tasks)).2 ·) := rfl
  rw [hsplit]
  generalize Batch.orderFrom tasks tasks.length (fun i => (deps tasks i).length) (roots tasks) = run at hend hprior ⊢
  obtain ⟨order, missing⟩ := run
  simp only at hend hprior ⊢
  have hall (i : ℕ) (hi : i < tasks.length) : i ∈ order := by
    induction hacc i hi with
    | intro i _ ih =>
      have hwaits := hend.waits i
      rw [List.filter_eq_nil_iff.mpr (fun d hd => by simpa using ih d hd (deps_lt hd))] at hwaits
      simpa using (hend.free i hi).mpr hwaits
  have hnone : (List.range tasks.length).filter (0 < missing ·) = [] := by
    refine List.filter_eq_nil_iff.mpr fun i hi => ?_
    have hi := List.mem_range.mp hi
    have hzero := (hend.free i hi).mp (by simpa using hall i hi)
    simp [hzero]
  rwa [hnone, List.append_nil]

end Batch

def firstUnder (paths : List TaskPath) (group : TaskPath) : ℕ := paths.findIdx (group.isPrefixOf ·)

/-- A group comes before what is under it; of two groups, the one that has the first of the paths. -/
def GroupedBefore (paths : List TaskPath) (p q : TaskPath) : Prop :=
  p <+: q ∧ p ≠ q ∨ ∃ group x y, group ++ [x] <+: p ∧ group ++ [y] <+: q ∧
    firstUnder paths (group ++ [x]) < firstUnder paths (group ++ [y])

namespace TrieNode

variable {n : TrieNode} {name : String} {base p q c path : TaskPath} {paths : List TaskPath}

theorem names_make_last (n : TrieNode) (path q c : TaskPath) :
    ((n.make path .last (fun n => n) q).namesAt c).getD [] = (n.namesAt c).getD [] ∨
      ∃ x, c ++ [x] <+: q ∧ x ∉ (n.namesAt c).getD [] ∧
        ((n.make path .last (fun n => n) q).namesAt c).getD [] = (n.namesAt c).getD [] ++ [x] := by
  induction q generalizing n c with
  | nil => exact .inl rfl
  | cons name q ih =>
    cases hl : n.children.lookup name with
    | some child =>
      rw [make, hl]
      simp only
      cases c with
      | nil =>
        rw [namesAt_set]
        exact .inl rfl
      | cons y c =>
        rw [namesAt_cons, namesAt_cons, children_setChildren, Children.set, Assoc.lookup_set]
        by_cases hy : y = name
        · subst hy
          rw [if_pos rfl, hl]
          refine (ih child c).imp (fun h => h) ?_
          rintro ⟨x, hpre, hx⟩
          exact ⟨x, List.cons_prefix_cons.mpr ⟨rfl, hpre⟩, hx⟩
        · rw [if_neg hy]
          exact .inl rfl
    | none =>
      have hmake : n.make path .last (fun n => n) (name :: q) =
          n.setChildren (n.children ++ [(name, new.make path .last (fun n => n) q)]) := by
        rw [make, hl]
        simp only [ite_self, List.insertIdx_length_self]
      rw [hmake]
      cases c with
      | nil =>
        refine .inr ⟨name, List.cons_prefix_cons.mpr ⟨rfl, List.nil_prefix⟩, ?_, ?_⟩
        · rw [namesAt_nil, Option.getD_some]
          exact Assoc.notMem_keys hl
        · simp
      | cons y c =>
        rw [namesAt_cons, namesAt_cons, children_setChildren, List.lookup_append]
        by_cases hy : y = name
        · subst hy
          rw [hl, Option.none_or, List.lookup_cons_self]
          have hnew : (new.namesAt c).getD [] = [] := by
            cases c with
            | nil => rfl
            | cons z c => rfl
          simp only [Option.bind_some, Option.bind_none, Option.getD_none]
          refine (ih new c).imp (fun h => h.trans hnew) ?_
          rintro ⟨x, hpre, -, hx⟩
          exact ⟨x, List.cons_prefix_cons.mpr ⟨rfl, hpre⟩, List.not_mem_nil, by rw [hx, hnew]⟩
        · rw [List.lookup_cons, beq_false_of_ne hy]
          simp

theorem Named.grouped (h : n.Named)
    (hsorted : ∀ c, ((n.namesAt c).getD []).Pairwise fun x y =>
      firstUnder paths (base ++ c ++ [x]) < firstUnder paths (base ++ c ++ [y]))
    {u v : List ℕ} (hp : PathTrie.position.go n p = some u) (hq : PathTrie.position.go n q = some v) (huv : u < v) :
    GroupedBefore paths (base ++ p) (base ++ q) := by
  induction p generalizing n base q u v with
  | nil =>
    refine .inl ⟨by simp, fun he => ?_⟩
    obtain rfl : q = [] := by simpa using he
    rw [Option.some.inj (hp.symm.trans hq)] at huv
    exact lt_irrefl v huv
  | cons x p ih =>
    cases q with
    | nil =>
      obtain rfl := Option.some.inj hq
      cases huv
    | cons y q =>
      have hplace {x : String} {p : TaskPath} {u : List ℕ} (hp : PathTrie.position.go n (x :: p) = some u) :
          ∃ i, ∃ hi : i < n.children.length, ∃ u', n.children[i].1 = x ∧
            PathTrie.position.go n.children[i].2 p = some u' ∧ u = i :: u' := by
        rw [PathTrie.position.go] at hp
        cases hl : n.children.lookup x with
        | none =>
          rw [hl] at hp
          split at hp
          · rename_i hnone
            cases hnone
          · cases hp
        | some child =>
          obtain ⟨i, hi, he⟩ := List.getElem_of_mem (Assoc.mem_of_lookup hl)
          have hidx : Children.indexOf n.children x = some i := by
            have hself := indexOf_getElem h.nodup hi
            rwa [he] at hself
          rw [hl, hidx] at hp
          obtain ⟨u', hu', rfl⟩ := Option.map_eq_some_iff.mp hp
          exact ⟨i, hi, u', by rw [he], by rw [he]; exact hu', rfl⟩
      obtain ⟨i, hi, u', hx, hu', rfl⟩ := hplace hp
      obtain ⟨j, hj, v', hy, hv', rfl⟩ := hplace hq
      rcases List.cons_lt_cons_iff.mp huv with hij | ⟨rfl, hlater⟩
      · refine .inr ⟨base, x, y, by simp, by simp, ?_⟩
        have hpair := hsorted []
        rw [namesAt_nil, Option.getD_some, List.pairwise_map] at hpair
        have hlt := List.pairwise_iff_getElem.mp hpair i j hi hj hij
        rw [hx, hy] at hlt
        simpa using hlt
      · obtain rfl := hx.symm.trans hy
        have hchild : n.children.lookup x = some n.children[i].2 := by
          have hself : n.children.lookup n.children[i].1 = some n.children[i].2 :=
            Assoc.lookup_of_mem h.nodup (List.getElem_mem hi)
          rwa [hx] at hself
        have hnames (c : TaskPath) : ((n.children[i].2.namesAt c).getD []).Pairwise fun a b =>
            firstUnder paths (base ++ [x] ++ c ++ [a]) < firstUnder paths (base ++ [x] ++ c ++ [b]) := by
          have hc := hsorted (x :: c)
          rw [namesAt_cons, hchild] at hc
          simpa using hc
        simpa using ih (h.child hchild) hnames hu' hv' hlater

end TrieNode

theorem firstUnder_append {paths : List TaskPath} {group p : TaskPath} (h : ∃ q ∈ paths, group <+: q) :
    firstUnder (paths ++ [p]) group = firstUnder paths group ∧ firstUnder paths group < paths.length := by
  obtain ⟨q, hq, hpre⟩ := h
  have hlt : firstUnder paths group < paths.length :=
    List.findIdx_lt_length_of_exists ⟨q, hq, List.isPrefixOf_iff_prefix.mpr hpre⟩
  refine ⟨?_, hlt⟩
  unfold firstUnder at hlt ⊢
  rw [List.findIdx_append, if_pos hlt]

theorem firstUnder_new {paths : List TaskPath} {group p : TaskPath} (h : ∀ q ∈ paths, ¬ group <+: q)
    (hp : group <+: p) :
    firstUnder (paths ++ [p]) group = paths.length := by
  have hnone : paths.findIdx (group.isPrefixOf ·) = paths.length :=
    List.findIdx_eq_length_of_false fun q hq => by
      rw [← Bool.not_eq_true, List.isPrefixOf_iff_prefix]
      exact h q hq
  unfold firstUnder
  rw [List.findIdx_append, hnone, if_neg (Nat.lt_irrefl _), List.findIdx_cons, List.isPrefixOf_iff_prefix.mpr hp]
  simp

namespace PathTrie

variable {t : PathTrie} {paths : List TaskPath} {p : TaskPath}

/-- The names of every group stand as the paths do that were held, each where the first of its paths does. -/
structure Arrayed (paths : List TaskPath) (t : PathTrie) : Prop where
  reached : ∀ p ∈ paths, t.root.at' p ≠ none
  led : ∀ c, ∀ x ∈ t.names c, ∃ p ∈ paths, c ++ [x] <+: p
  sorted : ∀ c, (t.names c).Pairwise fun x y => firstUnder paths (c ++ [x]) < firstUnder paths (c ++ [y])

theorem Arrayed.place (h : Arrayed paths t) (habove : t.taskAbove p = none) :
    Arrayed (paths ++ [p]) (t.place p .last) := by
  obtain ⟨hhere, hkeep⟩ := names_place t p .last
  simp only [TrieNode.namesAt_ne_none] at hhere hkeep
  have hnames (c : TaskPath) : (t.place p .last).names c = t.names c ∨
      ∃ x, c ++ [x] <+: p ∧ x ∉ t.names c ∧ (t.place p .last).names c = t.names c ++ [x] := by
    unfold PathTrie.place
    rw [if_pos (by simp [habove])]
    exact TrieNode.names_make_last t.root p p c
  have hold (c : TaskPath) (x : String) (hx : x ∈ t.names c) := firstUnder_append (p := p) (h.led c x hx)
  have hkept (c : TaskPath) : (t.names c).Pairwise fun x y =>
      firstUnder (paths ++ [p]) (c ++ [x]) < firstUnder (paths ++ [p]) (c ++ [y]) := by
    refine (h.sorted c).imp_of_mem fun {x y} hx hy hlt => ?_
    rwa [(hold c x hx).1, (hold c y hy).1]
  refine ⟨fun q hq => ?_, fun c x hx => ?_, fun c => ?_⟩
  · rcases List.mem_append.mp hq with hq | hq
    · exact hkeep q (h.reached q hq)
    · rw [List.mem_singleton.mp hq]
      exact hhere.resolve_right (· habove)
  · have hled (hin : x ∈ t.names c) : ∃ q ∈ paths ++ [p], c ++ [x] <+: q := by
      obtain ⟨q, hq, hpre⟩ := h.led c x hin
      exact ⟨q, List.mem_append_left _ hq, hpre⟩
    rcases hnames c with he | ⟨y, hpre, -, he⟩
    · exact hled (he ▸ hx)
    · rw [he] at hx
      rcases List.mem_append.mp hx with hx | hx
      · exact hled hx
      · rw [List.mem_singleton.mp hx]
        exact ⟨p, by simp, hpre⟩
  · rcases hnames c with he | ⟨y, hpre, hnew, he⟩
    · rw [he]
      exact hkept c
    · rw [he, List.pairwise_append]
      refine ⟨hkept c, List.pairwise_singleton _ _, fun x hx z hz => ?_⟩
      obtain rfl := List.mem_singleton.mp hz
      have hfresh (q : TaskPath) (hq : q ∈ paths) : ¬ c ++ [z] <+: q := by
        rintro ⟨r, rfl⟩
        exact hnew (mem_names.mpr (TrieNode.at_of_append (h.reached _ hq)))
      rw [(hold c x hx).1, firstUnder_new hfresh hpre]
      exact (hold c x hx).2

theorem nodes_grouped (ht : t.root.Named)
    (hsorted : ∀ c, (t.names c).Pairwise fun x y => firstUnder paths (c ++ [x]) < firstUnder paths (c ++ [y])) :
    (t.nodes TaskPath.root).Pairwise fun a b => GroupedBefore paths a.1 b.1 := by
  refine (ht.sorted []).imp fun {a b} hab => ?_
  obtain ⟨q, r, u, v, ha, hb, hu, hv, huv⟩ := hab
  have hgrouped : GroupedBefore paths ([] ++ q) ([] ++ r) := ht.grouped (by simpa [names] using hsorted) hu hv huv
  rw [ha, hb]
  exact hgrouped

end PathTrie

end Dekit
