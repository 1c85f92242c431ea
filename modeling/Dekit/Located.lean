import Dekit.Guarantees
import Dekit.Listed

namespace Dekit.Graph

variable {τ : Type} {g g' : Graph τ} {id : TaskId}

def Tidy (g : Graph τ) : Prop := g.Listed fun _ => []

section moving

variable {α : Type} {space s : TaskSpaceId} {src dst p : TaskPath} {x : TaskId} {C C' : TaskPath → Option TaskId}
  {H H' : TaskId → Option (TaskSpaceId × α)} {n : TaskPath → α}

theorem moved_table (hname : Function.Injective n) (hC : ∀ p x, C p = some x ↔ H x = some (space, n p))
    (hC' : ∀ p, C' p = if dst <+: p then C (src ++ p.drop dst.length) else if src <+: p then none else C p)
    (hvacant : ∀ p, dst <+: p → ¬ src <+: p → C p = none)
    (hmoved : ∀ q x, C (src ++ q) = some x → H' x = some (space, n (dst ++ q)))
    (hstill : ∀ x, (∀ q, C (src ++ q) ≠ some x) → H' x = H x) (p : TaskPath) (x : TaskId) :
    C' p = some x ↔ H' x = some (space, n p) := by
  rw [hC']
  constructor
  · intro h
    split at h
    · rename_i hdst
      obtain ⟨q, rfl⟩ := hdst
      rw [List.drop_left] at h
      exact hmoved q x h
    · split at h
      · cases h
      · rename_i hsrc
        rw [hstill x, ← hC]
        · exact h
        · intro q hq
          have he := ((hC _ x).mp hq).symm.trans ((hC p x).mp h)
          have hp := hname (Prod.mk.inj (Option.some.inj he)).2
          exact hsrc (hp ▸ List.prefix_append src q)
  · intro h
    by_cases hex : ∃ q, C (src ++ q) = some x
    · obtain ⟨q, hq⟩ := hex
      have hp := hname (Prod.mk.inj (Option.some.inj ((hmoved q x hq).symm.trans h))).2
      rw [if_pos (hp ▸ List.prefix_append dst q), ← hp, List.drop_left]
      exact hq
    · have hno (q : TaskPath) (hq : C (src ++ q) = some x) : False := hex ⟨q, hq⟩
      rw [hstill x hno, ← hC] at h
      have hsrc : ¬ src <+: p := by
        rintro ⟨q, rfl⟩
        exact hno q h
      have hdst : ¬ dst <+: p := by
        intro hdst
        rw [hvacant p hdst hsrc] at h
        cases h
      rw [if_neg hdst, if_neg hsrc]
      exact h

theorem moved_elsewhere (hC : ∀ p x, C p = some x ↔ H x = some (space, n p)) (hs : s ≠ space)
    (hmoved : ∀ q x, C (src ++ q) = some x → H' x = some (space, n (dst ++ q)))
    (hstill : ∀ x, (∀ q, C (src ++ q) ≠ some x) → H' x = H x) (p : TaskPath) (x : TaskId) :
    H x = some (s, n p) ↔ H' x = some (s, n p) := by
  by_cases hex : ∃ q, C (src ++ q) = some x
  · obtain ⟨q, hq⟩ := hex
    rw [hmoved q x hq, (hC _ x).mp hq]
    refine iff_of_false ?_ ?_ <;> exact fun h => hs (Prod.mk.inj (Option.some.inj h)).1.symm
  · rw [hstill x fun q hq => hex ⟨q, hq⟩]

end moving

def spot (f : Folder) : TaskSpaceId × TaskPath := (f.space, f.path)

theorem putMoved_homes (hapart : ∀ x, x ∈ g.tasks → x ∉ g.folders) (m : Moved) (x : TaskId) :
    ((g.putMoved m).tasks.lookup x).map TaskHandle.home =
        (if x = m.id then (g.tasks.lookup x).map fun t => (t.space, some m.dst)
          else (g.tasks.lookup x).map TaskHandle.home) ∧
      ((g.putMoved m).folders.lookup x).map spot =
        (if x = m.id then (g.folders.lookup x).map fun f => (f.space, m.dst) else (g.folders.lookup x).map spot) := by
  unfold putMoved
  split
  · rename_i hin
    constructor
    · unfold modifyTask
      rw [Finmap.lookup_modify]
      split
      · rw [Option.map_map]
        rfl
      · rfl
    · split
      · rename_i hx
        have hnone : g.folders.lookup x = none := Finmap.lookup_eq_none.mpr (hx ▸ hapart _ hin)
        rw [show (g.modifyTask m.id _).folders = g.folders from rfl, hnone]
        rfl
      · rfl
  · rename_i hin
    constructor
    · split
      · rename_i hx
        have hnone : g.tasks.lookup x = none := Finmap.lookup_eq_none.mpr (hx ▸ hin)
        rw [hnone]
        rfl
      · rfl
    · rw [Finmap.lookup_modify]
      split
      · rw [Option.map_map]
        rfl
      · rfl

theorem putMoved_apart (hapart : ∀ x, x ∈ g.tasks → x ∉ g.folders) (m : Moved) (x : TaskId)
    (hx : x ∈ (g.putMoved m).tasks) : x ∉ (g.putMoved m).folders := by
  obtain ⟨ht, hf⟩ := putMoved_homes hapart m x
  rw [← Finmap.lookup_isSome, ← Option.isSome_map (f := TaskHandle.home), ht] at hx
  rw [← Finmap.lookup_isSome, ← Option.isSome_map (f := spot), hf]
  have hold : x ∈ g.tasks := by
    rw [← Finmap.lookup_isSome]
    split at hx <;> simpa using hx
  have hnone : g.folders.lookup x = none := Finmap.lookup_eq_none.mpr (hapart x hold)
  rw [hnone]
  split <;> simp

theorem foldl_putMoved {d : TaskId → TaskPath} (moved : List Moved) (hd : ∀ m ∈ moved, d m.id = m.dst)
    (hapart : ∀ x, x ∈ g.tasks → x ∉ g.folders) :
    (∀ x, x ∈ (moved.foldl putMoved g).tasks → x ∉ (moved.foldl putMoved g).folders) ∧ ∀ x,
      ((moved.foldl putMoved g).tasks.lookup x).map TaskHandle.home =
        (if x ∈ moved.map Moved.id then (g.tasks.lookup x).map fun t => (t.space, some (d x))
          else (g.tasks.lookup x).map TaskHandle.home) ∧
      ((moved.foldl putMoved g).folders.lookup x).map spot =
        (if x ∈ moved.map Moved.id then (g.folders.lookup x).map fun f => (f.space, d x)
          else (g.folders.lookup x).map spot) := by
  induction moved generalizing g with
  | nil => exact ⟨hapart, fun x => ⟨rfl, rfl⟩⟩
  | cons m moved ih =>
    obtain ⟨hfin, hhomes⟩ := ih (fun m' hm' => hd m' (List.mem_cons_of_mem _ hm')) (putMoved_apart hapart m)
    refine ⟨hfin, fun x => ?_⟩
    obtain ⟨ht, hf⟩ := putMoved_homes hapart m x
    obtain ⟨ht', hf'⟩ := hhomes x
    have hspace : ((g.putMoved m).tasks.lookup x).map (fun t => (t.space, some (d x))) =
        (g.tasks.lookup x).map fun t => (t.space, some (d x)) := by
      have hall : ∀ o : Option (TaskHandle τ), o.map (fun t => (t.space, some (d x))) =
          (o.map TaskHandle.home).map fun h => (h.1, some (d x)) := by
        intro o
        cases o <;> rfl
      rw [hall, ht]
      cases g.tasks.lookup x <;> split <;> rfl
    have hfspace : ((g.putMoved m).folders.lookup x).map (fun f => (f.space, d x)) =
        (g.folders.lookup x).map fun f => (f.space, d x) := by
      have hall : ∀ o : Option Folder, o.map (fun f => (f.space, d x)) = (o.map spot).map fun h => (h.1, d x) := by
        intro o
        cases o <;> rfl
      rw [hall, hf]
      cases g.folders.lookup x <;> split <;> rfl
    rw [List.foldl_cons, ht', hf', hspace, hfspace, ht, hf]
    simp only [List.map_cons, List.mem_cons]
    by_cases hx : x = m.id
    · subst hx
      rw [hd m List.mem_cons_self]
      simp
    · simp [hx]

def found (g : Graph τ) (s : TaskSpaceId) (p : TaskPath) : Option TaskId :=
  ((g.trie s).content p).1 <|> ((g.trie s).content p).2

section found

variable {pending : TaskSpaceId → List TaskPath} {s s' : TaskSpaceId} {p p' : TaskPath} {x : TaskId}

theorem found_task (h : ((g.trie s).content p).1 = some x) : g.found s p = some x := by
  unfold found
  rw [h]
  rfl

theorem Listed.found_folder (h : g.Listed pending) (hx : ((g.trie s).content p).2 = some x) : g.found s p = some x := by
  unfold found
  cases h₁ : ((g.trie s).content p).1 with
  | none => exact hx
  | some a => exact absurd (Prod.ext h₁ hx) ((h.held s).one p a x)

theorem found_cases (h : g.found s p = some x) :
    ((g.trie s).content p).1 = some x ∨ ((g.trie s).content p).2 = some x := by
  unfold found at h
  cases h₁ : ((g.trie s).content p).1 with
  | none =>
    rw [h₁] at h
    exact .inr h
  | some a =>
    rw [h₁] at h
    exact .inl h

theorem Listed.found_once (h : g.Listed pending) (hp : g.found s p = some x) (hp' : g.found s' p' = some x) :
    s = s' ∧ p = p' := by
  have hboth (r r' : TaskPath) (z z' : TaskSpaceId) (hr : ((g.trie z).content r).1 = some x)
      (hr' : ((g.trie z').content r').2 = some x) : False := by
    have h₁ := (h.tasks _ _ _).mp hr
    have h₂ := (h.folders _ _ _).mp hr'
    refine h.apart x ?_ ?_
    · rw [← Finmap.lookup_isSome, ← Option.isSome_map, h₁]
      rfl
    · rw [← Finmap.lookup_isSome, ← Option.isSome_map, h₂]
      rfl
  rcases found_cases hp with h₁ | h₁ <;> rcases found_cases hp' with h₂ | h₂
  · have he := ((h.tasks _ _ _).mp h₁).symm.trans ((h.tasks _ _ _).mp h₂)
    simpa using he
  · exact (hboth _ _ _ _ h₁ h₂).elim
  · exact (hboth _ _ _ _ h₂ h₁).elim
  · have he := ((h.folders _ _ _).mp h₁).symm.trans ((h.folders _ _ _).mp h₂)
    simpa using he

end found

namespace Tidy

theorem stays (h : g.Tidy) (hs : Stays g g') : g'.Tidy := Listed.stays h hs

section walk

variable {s : TaskSpaceId} {p : TaskPath} {node : TrieNode} {x : TaskId}

theorem at_of_walk (hw : (g.trie s).walkTo p = some node) : (g.trie s).root.at' p = some node.spot := by
  unfold TrieNode.at'
  rw [show (g.trie s).root.walkTo p = some node from hw]
  rfl

theorem content_of_walk (hw : (g.trie s).walkTo p = some node) : (g.trie s).content p = node.spot :=
  PathTrie.content_of_at (at_of_walk hw)

theorem found_of_walk (hw : (g.trie s).walkTo p = some node) : g.found s p = node.id := by
  unfold found
  rw [content_of_walk hw]
  cases node
  rfl

theorem leads (h : g.Tidy) (hw : (g.trie s).walkTo p = some node) (hp : p ≠ []) :
    ∃ q below, (g.trie s).walkTo (p ++ q) = some below ∧ below.id ≠ none := by
  obtain ⟨q, hq⟩ := (h.held s).full (by rw [at_of_walk hw]; simp) hp
  cases hw' : (g.trie s).walkTo (p ++ q) with
  | none => exact absurd (PathTrie.content_id _ _ (by rw [hw']; rfl)) hq
  | some below =>
    rw [content_of_walk hw', Ne, TrieNode.spot_eq_none] at hq
    exact ⟨q, below, hw', hq⟩

theorem leaf (h : g.Tidy) (hw : (g.trie s).walkTo p = some node) (ht : node.task ≠ none) : node.children = [] := by
  by_contra hkids
  obtain ⟨⟨name, child⟩, he⟩ := List.exists_mem_of_ne_nil _ hkids
  obtain ⟨a, ha⟩ := Option.ne_none_iff_exists'.mp ht
  have hnamed := (h.held s).named.walkTo hw
  have hchild : (g.trie s).walkTo (p ++ [name]) = some child := by
    unfold PathTrie.walkTo
    rw [TrieNode.walkTo_append, show (g.trie s).root.walkTo p = some node from hw, Option.bind_some, TrieNode.walkTo,
      Assoc.lookup_of_mem hnamed.nodup he]
    rfl
  obtain ⟨q, below, hbelow, hid⟩ := h.leads hchild (by simp)
  have hnone := (h.held s).above p a node.folder (name :: q) (by rw [content_of_walk hw, ← ha]; rfl) (by simp)
  rw [List.append_assoc] at hbelow
  rw [show p ++ name :: q = p ++ ([name] ++ q) from rfl, content_of_walk hbelow, TrieNode.spot_eq_none] at hnone
  exact hid hnone

end walk

section move

variable {space : TaskSpaceId} {src dst : TaskPath} {place : Place} {t' : PathTrie} {moved : List Moved} {x : TaskId}

theorem goes (h : g.Tidy) (hok : (g.trie space).moveNode src dst place = .ok (t', moved)) :
    ∃ d : TaskId → TaskPath, (∀ m ∈ moved, d m.id = m.dst) ∧
      (∀ q x, g.found space (src ++ q) = some x → x ∈ moved.map Moved.id ∧ d x = dst ++ q) ∧
      ∀ x ∈ moved.map Moved.id, ∃ q, g.found space (src ++ q) = some x := by
  obtain ⟨-, -, hpairs⟩ := PathTrie.moveNode_ok (h.held space) hok
  have hpair (m : Moved) (hm : m ∈ moved) : ∃ q, m.dst = dst ++ q ∧ g.found space (src ++ q) = some m.id :=
    (hpairs m.dst m.id).mp (List.mem_map.mpr ⟨m, hm, rfl⟩)
  let d (x : TaskId) : TaskPath := ((moved.find? (Moved.id · == x)).map Moved.dst).getD []
  have hd : ∀ m ∈ moved, d m.id = m.dst := by
    intro m hm
    have hsome : (moved.find? (Moved.id · == m.id)).isSome = true :=
      List.find?_isSome.mpr ⟨m, hm, beq_self_eq_true m.id⟩
    obtain ⟨m', hm'⟩ := Option.isSome_iff_exists.mp hsome
    have hid : m'.id = m.id := by simpa using List.find?_some hm'
    obtain ⟨q, hq, hx⟩ := hpair m hm
    obtain ⟨q', hq', hx'⟩ := hpair m' (List.mem_of_find?_eq_some hm')
    have heq := (h.found_once hx (hid ▸ hx')).2
    rw [List.append_cancel_left_eq] at heq
    simp only [d, hm', Option.map_some, Option.getD_some]
    rw [hq, hq', heq]
  refine ⟨d, hd, fun q x hx => ?_, fun x hx => ?_⟩
  · obtain ⟨m, hm, he⟩ := List.mem_map.mp ((hpairs (dst ++ q) x).mpr ⟨q, rfl, hx⟩)
    obtain ⟨hdst, rfl⟩ := Prod.mk.inj he
    exact ⟨List.mem_map.mpr ⟨m, hm, rfl⟩, (hd m hm).trans hdst⟩
  · obtain ⟨m, hm, rfl⟩ := List.mem_map.mp hx
    obtain ⟨q, -, hq⟩ := hpair m hm
    exact ⟨q, hq⟩

theorem putAllMoved (h : g.Tidy) {ns : Namespace} (hns : ns = g.ns.setPaths space t')
    (hok : (g.trie space).moveNode src dst place = .ok (t', moved)) :
    (moved.foldl putMoved ({ g with ns } : Graph τ)).Tidy := by
  obtain ⟨d, hd, hgo, hcome⟩ := h.goes hok
  obtain ⟨hheld, hcontent, -⟩ := PathTrie.moveNode_ok (h.held space) hok
  obtain ⟨-, node, hm⟩ := PathTrie.movable_of_ok hok
  have hvacant (p : TaskPath) (hp : dst <+: p) (hsrc : ¬ src <+: p) : (g.trie space).content p = (none, none) :=
    hm.vacant (h.held space) hp hsrc
  obtain ⟨hapart, hhomes⟩ := foldl_putMoved (g := ({ g with ns } : Graph τ)) moved hd h.apart
  have hrest : (moved.foldl putMoved ({ g with ns } : Graph τ)).ns = ns :=
    Fold.foldl_keeps (p := Graph.ns) (fun g m => by unfold putMoved; split <;> rfl) moved _
  generalize moved.foldl putMoved ({ g with ns } : Graph τ) = g' at hapart hhomes hrest
  have htrie (s : TaskSpaceId) : g'.trie s = if s = space then t' else g.trie s := by
    unfold trie
    rw [hrest, hns]
    exact Namespace.paths_setPaths _ _ _ _
  have htask (q : TaskPath) (x : TaskId) (hx : ((g.trie space).content (src ++ q)).1 = some x) :
      (g'.tasks.lookup x).map TaskHandle.home = some (space, some (dst ++ q)) := by
    obtain ⟨hin, hdx⟩ := hgo q x (found_task hx)
    rw [(hhomes x).1, if_pos hin, hdx]
    have hold := (h.tasks _ _ _).mp hx
    obtain ⟨t, ht, hhome⟩ := Option.map_eq_some_iff.mp hold
    rw [show ({ g with ns } : Graph τ).tasks = g.tasks from rfl, ht, Option.map_some,
      show t.space = space from congrArg Prod.fst hhome]
  have hfolder (q : TaskPath) (x : TaskId) (hx : ((g.trie space).content (src ++ q)).2 = some x) :
      (g'.folders.lookup x).map spot = some (space, dst ++ q) := by
    obtain ⟨hin, hdx⟩ := hgo q x (h.found_folder hx)
    rw [(hhomes x).2, if_pos hin, hdx]
    have hold := (h.folders _ _ _).mp hx
    obtain ⟨f, hf, hhome⟩ := Option.map_eq_some_iff.mp hold
    rw [show ({ g with ns } : Graph τ).folders = g.folders from rfl, hf, Option.map_some,
      show f.space = space from congrArg Prod.fst hhome]
  have hstill (x : TaskId) (hx : ∀ q, ((g.trie space).content (src ++ q)).1 ≠ some x) :
      (g'.tasks.lookup x).map TaskHandle.home = (g.tasks.lookup x).map TaskHandle.home := by
    rw [(hhomes x).1]
    split
    · rename_i hin
      obtain ⟨q, hq⟩ := hcome x hin
      have hnone : g.tasks.lookup x = none := by
        rw [Finmap.lookup_eq_none]
        intro ht
        rcases found_cases hq with h₁ | h₂
        · exact hx q h₁
        · refine h.apart x ht ?_
          rw [← Finmap.lookup_isSome, ← Option.isSome_map, (h.folders _ _ _).mp h₂]
          rfl
      rw [show ({ g with ns } : Graph τ).tasks = g.tasks from rfl, hnone]
      rfl
    · rfl
  have hfstill (x : TaskId) (hx : ∀ q, ((g.trie space).content (src ++ q)).2 ≠ some x) :
      (g'.folders.lookup x).map spot = (g.folders.lookup x).map spot := by
    rw [(hhomes x).2]
    split
    · rename_i hin
      obtain ⟨q, hq⟩ := hcome x hin
      have hnone : g.folders.lookup x = none := by
        rw [Finmap.lookup_eq_none]
        intro hf
        rcases found_cases hq with h₁ | h₂
        · refine h.apart x ?_ hf
          rw [← Finmap.lookup_isSome, ← Option.isSome_map, (h.tasks _ _ _).mp h₁]
          rfl
        · exact hx q h₂
      rw [show ({ g with ns } : Graph τ).folders = g.folders from rfl, hnone]
      rfl
    · rfl
  refine ⟨fun s => ?_, fun s p x => ?_, fun s p x => ?_, hapart⟩
  · rw [htrie]
    split
    · exact hheld
    · exact h.held s
  · rw [htrie]
    by_cases hs : s = space
    · subst hs
      rw [if_pos rfl]
      have hsplit (p : TaskPath) :
        (t'.content p).1 = if dst <+: p then ((g.trie s).content (src ++ p.drop dst.length)).1
          else if src <+: p then none else ((g.trie s).content p).1 := by
        rw [hcontent]
        split
        · rfl
        · split <;> rfl
      refine moved_table (C := fun p => ((g.trie s).content p).1) (Option.some_injective _) (h.tasks s) hsplit
        (fun p hp hsrc => ?_) htask hstill p x
      · simp only [hvacant p hp hsrc]
    · rw [if_neg hs]
      exact (h.tasks s p x).trans (moved_elsewhere (h.tasks space) hs htask hstill p x)
  · rw [htrie]
    by_cases hs : s = space
    · subst hs
      rw [if_pos rfl]
      have hsplit (p : TaskPath) :
        (t'.content p).2 = if dst <+: p then ((g.trie s).content (src ++ p.drop dst.length)).2
          else if src <+: p then none else ((g.trie s).content p).2 := by
        rw [hcontent]
        split
        · rfl
        · split <;> rfl
      refine moved_table (n := fun p => p) (C := fun p => ((g.trie s).content p).2) Function.injective_id (h.folders s)
        hsplit (fun p hp hsrc => ?_) hfolder hfstill p x
      · simp only [hvacant p hp hsrc]
    · rw [if_neg hs]
      exact (h.folders s p x).trans (moved_elsewhere (n := fun p => p) (h.folders space) hs hfolder hfstill p x)

end move

end Tidy

section commands

variable [Task τ]

theorem stays_tellMoved (space : TaskSpaceId) (g : Graph τ) (m : Moved) : Stays g (tellMoved space g m) := by
  unfold tellMoved
  simp only
  split
  · exact .refl g
  · exact ((Stays.deliver _ _ _ _).trans (.deliver _ _ _ _)).trans (.deliver _ _ _ _)

namespace Tidy

theorem moveTasks (h : g.Tidy) (req : MoveTask) : (g.moveTasks req).1.Tidy := by
  unfold Graph.moveTasks Namespace.moveNode
  cases hok : (g.ns.space req.space).paths.moveNode req.src req.dst req.place with
  | error err => exact h
  | ok r =>
    obtain ⟨t', moved⟩ := r
    simp only [Except.map]
    refine Tidy.stays ?_ (.foldl (fun g m _ => stays_tellMoved req.space g m) _)
    have hflag : ({ g with stateChanged := g.stateChanged || !moved.isEmpty } : Graph τ).Tidy :=
      h.stays (.of_eq rfl rfl rfl)
    exact hflag.putAllMoved rfl hok

theorem removeFolder (h : g.Tidy) (id : TaskId) : (g.removeFolder id).1.Tidy := by
  unfold Graph.removeFolder
  cases hf : g.folders.lookup id with
  | none => exact h
  | some folder =>
    have hdrop := Listed.dropFolder h hf
    simp only
    generalize ({ g with
      folders := g.folders.erase id
      ns := g.ns.removeFolder ⟨folder.space, folder.path⟩ } : Graph τ) = g' at hdrop ⊢
    exact Tidy.stays hdrop (.notifySubscribers g' id folder.space (some folder.path) .removed)

omit [Task τ] in
theorem stays_dropEdges (g : Graph τ) (id : TaskId) (wasWanted wasActive : Bool) :
    Stays g (g.dropEdges id wasWanted wasActive) := by
  unfold Graph.dropEdges
  have hreq (g : Graph τ) (dep : TaskId) : Stays g (Graph.dropRequirer id wasWanted wasActive g dep) := by
    unfold Graph.dropRequirer
    refine .trans ?_ (.enqueue _ _)
    exact .modified rfl rfl rfl fun _ => rfl
  have hdep (g : Graph τ) (src : TaskId) : Stays g (Graph.dropDep id g src) := by
    unfold Graph.dropDep
    refine .trans ?_ (.enqueue _ _)
    exact .of_eq rfl rfl rfl
  have hedges : Stays g { g with edges := Function.update g.edges id ∅ } := .of_eq rfl rfl rfl
  have hreqs := hedges.trans (.forEach id (g.edges id) hreq)
  simp only
  generalize ({ g with edges := Function.update g.edges id ∅ } : Graph τ).forEach id (g.edges id)
    (Graph.dropRequirer id wasWanted wasActive) = g' at hreqs ⊢
  have hredges : Stays g' { g' with redges := Function.update g'.redges id ∅ } := .of_eq rfl rfl rfl
  exact (hreqs.trans hredges).trans (.forEach _ _ hdep)

theorem removeTask (h : g.Tidy) (id : TaskId) : (g.removeTask id).Tidy := by
  unfold Graph.removeTask
  cases ht : g.tasks.lookup id with
  | none => exact h
  | some handle =>
    have hdrop : (g.dropHandle id handle).Tidy := Listed.dropHandle h ht
    refine Tidy.stays (hdrop.stays (stays_dropEdges _ id handle.wanted handle.state.isActive)) ?_
    refine .trans ?_ (.notifySubscribers _ _ _ _ _)
    refine .trans ?_ (.note _ _)
    exact .setSubs (Namespace.paths_removeSubscriber _ _ _)

theorem removeCommand (h : g.Tidy) (sender : TaskId) (selector : TaskSelector) :
    (g.removeCommand sender selector).1.Tidy := by
  unfold Graph.removeCommand
  have htasks : ((g.removal sender selector).1.foldl Graph.removeTask g).Tidy :=
    Fold.foldl_invariant (P := Tidy) (fun g hg id _ => hg.removeTask id) h
  exact Fold.foldl_invariant (P := Tidy) (fun g hg id _ => hg.removeFolder id) htasks

theorem subscribe (h : g.Tidy) (subscriber : TaskId) (key : TaskKey) (mode : SubMode) :
    (g.subscribe subscriber key mode).Tidy := by
  unfold Graph.subscribe
  have hsubs : Stays g { g with ns := g.ns.subscribe subscriber key mode } :=
    .setSubs (Namespace.paths_setSubs _ _ _)
  refine Tidy.stays (h.stays hsubs) (.foldl (fun g e _ => ?_) _)
  split
  · exact .deliver _ _ _ _
  · exact .refl g

theorem duplicate (h : g.Tidy) (id : TaskId) (req : DuplicateRequest) : (g.duplicate id req).1.Tidy := by
  unfold Graph.duplicate
  split
  · exact h
  · split
    · simp only [allocId]
      have halloc : ({ g with nextTaskId := g.nextTaskId + 1 } : Graph τ).Tidy := h.stays (.of_eq rfl rfl rfl)
      split
      · exact halloc
      · exact Listed.registerTaskWithId halloc _ _ _ _
    · exact h

theorem duplicateAll (h : g.Tidy) (req : DuplicateRequest) (ids : List TaskId) :
    (Graph.duplicateAll req g ids).1.Tidy := by
  induction ids generalizing g with
  | nil => exact h
  | cons id ids ih =>
    unfold Graph.duplicateAll
    have hd := h.duplicate id req
    generalize g.duplicate id req = r at hd ⊢
    obtain ⟨g', result⟩ := r
    cases result with
    | ok _ => exact ih hd
    | error err => exact hd

theorem updateCommand (h : g.Tidy) (sender : TaskId) (selector : TaskSelector) (update : TaskUpdate) :
    (g.updateCommand sender selector update).1.Tidy := by
  unfold Graph.updateCommand
  split
  · exact h
  · exact h.stays (.foldl (fun g r _ => .updateTask g r.1 r.2 update) g)

theorem registerTaskCommand (h : g.Tidy) (sender : TaskId) (r : TaskRegistration τ) :
    (g.registerTaskCommand sender r).1.Tidy := by
  unfold Graph.registerTaskCommand
  split
  · exact Listed.registerTaskWithId h _ _ _ _
  · exact h

theorem perform (h : g.Tidy) (sender : TaskId) (command : KernelCommand τ) : (g.perform sender command).Tidy := by
  have hone {β : Type} {body : Graph τ → β → Graph τ} (hb : ∀ g x, Stays g (body g x)) (l : List β)
      (ack : Option ReplyId) (a : Answer) : ((l.foldl body g).answerIf ack a).Tidy :=
    h.stays ((Stays.foldl (fun g x _ => hb g x) g).trans (.answerIf _ _ _))
  have hanswer {g' : Graph τ} (hg : g'.Tidy) (ack : Option ReplyId) (a : Answer) : (g'.answerIf ack a).Tidy :=
    hg.stays (.answerIf _ _ _)
  cases command with
  | registerTask r ack => exact hanswer (h.registerTaskCommand sender r) (some ack) _
  | registerTasks rs ack => exact hanswer (Listed.registerTasks h _) (some ack) _
  | act verb selector ack => exact hanswer (h.stays (.act g verb sender selector)) _ _
  | unpin selector ack => exact hone (fun g id => .setPin g id false) _ _ _
  | remove selector ack => exact hanswer (h.removeCommand sender selector) _ _
  | dropFolder id ack =>
    have hd : (if g.canMutateFolder sender id then g.removeFolder id else (g, false)).1.Tidy := by
      split
      · exact h.removeFolder id
      · exact h
    exact hanswer hd _ _
  | setFolder id settings ack =>
    have hd : (if g.canMutateFolder sender id then g.setFolder id settings else (g, false)).1.Tidy := by
      split
      · exact Listed.setFolder h id settings
      · exact h
    exact hanswer hd _ _
  | setLabel selector label ack => exact hone (fun g id => .setTaskLabel g id label) _ _ _
  | duplicate selector req reply => exact hanswer (h.duplicateAll req _) (some reply) _
  | update selector update reply => exact hanswer (h.updateCommand sender selector update) (some reply) _
  | setOrigin selector origin ack => exact hone (fun g id => .setOrigin g id origin) _ _ _
  | move req reply =>
    have hd : (if g.canRegister sender req.space then g.moveTasks req else (g, .error (.notFound req.src))).1.Tidy := by
      split
      · exact h.moveTasks req
      · exact h
    exact hanswer hd (some reply) _
  | taskMsg id content => exact h.stays (.sendCmd g id _)
  | subscribePath key mode => exact h.subscribe sender key mode
  | unsubscribePath key mode => exact h.stays (.setSubs (Namespace.paths_setSubs _ _ _))
  | wait request =>
    obtain ⟨on, cond, events⟩ := request
    cases on with
    | act verb selector => exact h.stays (.act g verb sender selector)
    | isMatching selector => exact h
    | ids ids => exact h
  | taskStarted => exact h.stays (.onTaskStarted g sender)
  | taskReady => exact h.stays (.onTaskReady g sender)
  | taskStopped info => exact h.stays (.onTaskStopped g sender info)
  | stateTimeout id epoch => exact h.stays (.onStateTimeout g id epoch)
  | freeze reply => exact h.stays (.beginFreeze g reply)
  | taskFrozen number snapshot => exact h.stays (.onTaskFrozen g sender number snapshot)
  | quit | quitWithoutSave | quitWithin | freezeTimeout | thaw | query | watchActive => exact h

end Tidy

end commands

end Dekit.Graph

namespace Dekit

open Dekit.Graph

namespace Kernel

variable {τ : Type} [Task τ] {k k' : Kernel τ} {msg : KernelMessage τ}

omit [Task τ] in
theorem stays_beginQuit (k : Kernel τ) : Stays k.graph k.beginQuit.1.graph := .beginQuit k.graph

theorem stays_thaw (k : Kernel τ) : Stays k.graph k.thaw.graph := .thaw k.graph

theorem stays_quit (k : Kernel τ) (save : Bool) (reply : Option ReplyId) :
    Stays k.graph (k.quit save reply).1.graph := by
  have hanswer (k : Kernel τ) (reply : Option ReplyId) (a : Answer) : Stays k.graph (k.answerIf reply a).graph :=
    .answerIf k.graph reply a
  unfold quit
  split
  · exact (hanswer k reply _).trans (.freeze _ .quit)
  · simp only
    have hthaw : Stays k.graph (if k.graph.freezingForQuit then k.thaw else k).graph := by
      split
      · exact stays_thaw k
      · exact .refl _
    generalize (if k.graph.freezingForQuit then k.thaw else k) = k₁ at hthaw ⊢
    exact (hthaw.trans (stays_beginQuit k₁)).trans (hanswer k₁.beginQuit.1 _ _)

theorem tidy_runCommand (h : k.graph.Tidy) (msg : KernelMessage τ) : (k.runCommand msg).1.graph.Tidy := by
  have hp := h.perform msg.sender msg.command
  obtain ⟨sender, command⟩ := msg
  unfold runCommand
  cases command with
  | quit => exact h.stays (stays_quit k true none)
  | quitWithoutSave => exact h.stays (stays_quit k false none)
  | quitWithin save reply => exact h.stays (stays_quit k save (some reply))
  | freezeTimeout number =>
    simp only
    split
    · exact h.stays ((stays_thaw k).trans (stays_beginQuit k.thaw))
    · exact h
  | thaw => exact h.stays (stays_thaw k)
  | _ => exact hp

theorem stays_finishFreeze (k : Kernel τ) : Stays k.graph k.finishFreeze.1.graph := by
  have hf := Stays.finishFreeze k.graph
  unfold finishFreeze
  generalize k.graph.finishFreezeIfComplete = r at hf ⊢
  obtain ⟨g, saved⟩ := r
  cases saved with
  | none => exact hf
  | some snapshot =>
    exact hf.trans ((stays_thaw { k with graph := g, saved := _ }).trans (stays_beginQuit (Kernel.thaw _)))

theorem tidy_dispatchNow (h : k.graph.Tidy) (msg : KernelMessage τ) : (k.dispatchNow msg).1.graph.Tidy := by
  have hr := tidy_runCommand (k := { k with handled := k.handled ++ [msg] }) h msg
  unfold dispatchNow
  generalize ({ k with handled := k.handled ++ [msg] } : Kernel τ).runCommand msg = r at hr ⊢
  obtain ⟨k', exit⟩ := r
  cases exit with
  | none => exact hr.stays (stays_finishFreeze k')
  | some exit => exact hr

theorem tidy_dispatch (h : k.graph.Tidy) (msg : KernelMessage τ) : (k.dispatch msg).1.graph.Tidy := by
  unfold dispatch
  split
  · exact tidy_dispatchNow h msg
  · split
    · exact tidy_dispatchNow h msg
    · unfold cover
      split
      · rename_i save reply _
        exact h.stays (Stays.answerIf k.graph (some reply) _)
      · exact h
    · exact h.stays (.of_eq rfl rfl rfl)

theorem tidy_afterDispatch (h : k.graph.Tidy) : k.afterDispatch.graph.Tidy := by
  unfold afterDispatch
  split
  · exact h
  · refine h.stays (.trans (.settle k.graph) ?_)
    exact .of_eq rfl rfl rfl

theorem tidy_turn (h : k.graph.Tidy) (now : Instant) (msg : KernelMessage τ) : (k.turn now msg).graph.Tidy := by
  have hnow : ({ k.graph with now } : Graph τ).Tidy := h.stays (.of_eq rfl rfl rfl)
  have hd := tidy_dispatch (k := { k with graph := { k.graph with now } }) hnow msg
  unfold turn
  generalize ({ k with graph := { k.graph with now } } : Kernel τ).dispatch msg = r at hd ⊢
  obtain ⟨k', exit⟩ := r
  cases exit with
  | true => exact hd
  | false => exact tidy_afterDispatch hd

theorem tidy_step {msg : Option (KernelMessage τ)} (h : k.graph.Tidy) (hs : Step k msg k') : k'.graph.Tidy := by
  cases hs with
  | @replayed now m rest _ _ _ => exact tidy_turn (k := { k with replay := rest }) h now m
  | @received now m _ _ _ => exact tidy_turn (k := k.arrive m) h now m
  | @expired now entry _ _ _ _ _ =>
    exact tidy_turn (k := arrive { k with timers := k.timers.expire entry } entry.timeout) h now _
  | @alarm now due number _ _ _ _ _ =>
    exact tidy_turn (k := arrive { k with alarms := k.alarms.erase (due, number) } (alarmed number)) h now _
  | alloc _ => exact h.stays (.of_eq rfl rfl rfl)

omit [Task τ] in
theorem tidy_new (hasher : Hasher) (now : Instant) : (new hasher now : Kernel τ).graph.Tidy := by
  have hat (p : TaskPath) (hne : p ≠ []) : TrieNode.new.at' p = none := by
    cases p with
    | nil => exact absurd rfl hne
    | cons x p => rfl
  have hcontent (p : TaskPath) : PathTrie.new.content p = (none, none) := by
    unfold PathTrie.content
    cases p with
    | nil => rfl
    | cons x p => rfl
  have htrie (s : TaskSpaceId) : (new hasher now : Kernel τ).graph.trie s = PathTrie.new := rfl
  refine ⟨fun s => ?_, fun s p id => ?_, fun s p id => ?_, fun id h => ?_⟩
  · rw [htrie]
    refine ⟨TrieNode.named_new, fun p a b h => ?_, fun p a b q _ _ => hcontent _, fun p hne h _ => ?_⟩
    · rw [hcontent] at h
      cases h
    · rw [show PathTrie.new.root = TrieNode.new from rfl, hat p hne] at h
      cases h
  · rw [htrie, hcontent]
    refine iff_of_false (by simp) ?_
    rw [show (new hasher now : Kernel τ).graph.tasks.lookup id = none from rfl]
    simp
  · rw [htrie, hcontent]
    refine iff_of_false (by simp) ?_
    rw [show (new hasher now : Kernel τ).graph.folders.lookup id = none from rfl]
    simp
  · exact absurd h (Finmap.notMem_empty)

theorem Booted.tidy (h : Booted k) : k.graph.Tidy := by
  induction h with
  | new hasher now => exact tidy_new hasher now
  | saveOnQuit _ ih => exact ih
  | alloc _ ih => exact ih.stays (.of_eq rfl rfl rfl)
  | install r _ ih => exact Listed.registerTaskWithId ih _ _ _ _
  | @restore k now nextTaskId tasks _ _ _ ih =>
    have hnow : ({ k.graph with nextTaskId, now } : Graph τ).Tidy := ih.stays (.of_eq rfl rfl rfl)
    unfold Kernel.restore
    simp only
    split
    · exact hnow
    · exact Listed.registerTasks hnow tasks

theorem Reachable.tidy (h : Reachable k) : k.graph.Tidy := by
  induction h with
  | start hb => exact tidy_afterDispatch hb.tidy
  | step _ hs ih => exact tidy_step ih hs

/-- Between turns the names of every space are in order, whatever was registered, moved and removed: tasks are leaves,
groups lead somewhere, and each task and folder is found at its path and nowhere else. What is refused changes no
name. -/
theorem names_in_order (h : Reachable k) :
    (∀ s p node, (k.graph.ns.space s).paths.walkTo p = some node →
      (node.task = none ∨ node.folder = none) ∧ (node.task ≠ none → node.children = []) ∧
      (p ≠ [] → node.id = none → ∃ q below, q ≠ [] ∧ (k.graph.ns.space s).paths.walkTo (p ++ q) = some below ∧
        below.id ≠ none)) ∧
    (∀ s p s' p' node node' id, (k.graph.ns.space s).paths.walkTo p = some node →
      (k.graph.ns.space s').paths.walkTo p' = some node' → node.id = some id → node'.id = some id →
      s = s' ∧ p = p') ∧
    (∀ s p id, (k.graph.ns.space s).paths.resolve p = some id ↔
      ∃ t, k.graph.tasks.lookup id = some t ∧ t.space = s ∧ t.path = some p) ∧
    (∀ s p id, ((k.graph.ns.space s).paths.walkTo p).bind TrieNode.folder = some id ↔
      ∃ f, k.graph.folders.lookup id = some f ∧ f.space = s ∧ f.path = p) ∧
    (∀ (g g' : Graph τ) (id : TaskId) (d : TaskDef τ) (factory : TaskId → τ) (saved : Option Snap.Task) (err : RegisterError),
      g.registerTaskWithId id d factory saved = (g', .error err) → g' = g) ∧
    (∀ (g g' : Graph τ) (d : FolderDef) (err : RegisterError), g.registerFolder d = (g', .error err) → g' = g) ∧
    ∀ (g g' : Graph τ) (req : MoveTask) (err : MoveError), g.moveTasks req = (g', .error err) → g' = g := by
  have ht := h.tidy
  refine ⟨fun s p node hw => ⟨?_, ht.leaf hw, fun hp hid => ?_⟩, fun s p s' p' node node' id hw hw' hid hid' => ?_,
    fun s p id => ?_, fun s p id => ?_, fun g g' id d factory saved err he => ?_, fun g g' d err he => ?_,
    fun g g' req err he => ?_⟩
  · have hone := (ht.held s).one p
    rw [Tidy.content_of_walk hw] at hone
    cases ha : node.task with
    | none => exact .inl rfl
    | some a =>
      cases hb : node.folder with
      | none => exact .inr rfl
      | some b => exact absurd (Prod.ext ha hb) (hone a b)
  · obtain ⟨q, below, hbelow, hfull⟩ := ht.leads hw hp
    refine ⟨q, below, ?_, hbelow, hfull⟩
    rintro rfl
    rw [List.append_nil] at hbelow
    rw [Option.some.inj (hw.symm.trans hbelow)] at hid
    exact hfull hid
  · exact ht.found_once ((Tidy.found_of_walk hw).trans hid) ((Tidy.found_of_walk hw').trans hid')
  · have htask := ht.tasks s p id
    rw [PathTrie.content_task] at htask
    refine htask.trans ?_
    simp [TaskHandle.home]
  · have hfolder := ht.folders s p id
    rw [PathTrie.content_folder] at hfolder
    refine hfolder.trans ?_
    simp
  · rcases Listed.registerTaskWithId_cases g id d factory saved with ⟨err', hr⟩ | ⟨_, _, _, _, _, _, _, _, _, hr⟩
    · rw [hr] at he
      exact (Prod.mk.inj he).1.symm
    · rw [hr] at he
      cases (Prod.mk.inj he).2
  · rcases Listed.registerFolder_cases g d with ⟨err', hr⟩ | ⟨_, _, _, _, _, _, hr⟩
    · rw [hr] at he
      exact (Prod.mk.inj he).1.symm
    · rw [hr] at he
      cases (Prod.mk.inj he).2
  · unfold Graph.moveTasks at he
    split at he
    · exact (Prod.mk.inj he).1.symm
    · cases (Prod.mk.inj he).2

def nested : TaskRegistration ChannelTask :=
  { lone with def' := { lone.def' with path := some ["web", "api"] } }

def nestedKernel : Kernel ChannelTask := ((Kernel.new .sorted 0).registerTaskRegistration nested).1.afterDispatch

theorem names_in_order_nested : (nestedKernel.graph.ns.space "").paths.resolve ["web", "api"] = some 1 := by
  have ht : (nestedKernel.graph.tasks.lookup 1).isSome = true := by decide
  have hp : (nestedKernel.graph.tasks.lookup 1).any (fun t => t.space = "" ∧ t.path = some ["web", "api"]) = true := by
    decide
  obtain ⟨t, ht⟩ := Option.isSome_iff_exists.mp ht
  rw [ht] at hp
  obtain ⟨hspace, hpath⟩ := of_decide_eq_true hp
  have hk : Reachable nestedKernel := .start (.install nested (.new .sorted 0))
  exact ((names_in_order hk).2.2.1 "" ["web", "api"] 1).mpr ⟨t, ht, hspace, hpath⟩

end Kernel

end Dekit
