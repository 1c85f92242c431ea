import Dekit.Tidy

namespace Dekit

variable {n : TrieNode} {base p q : TaskPath} {id : TaskId}

namespace TrieNode

theorem at_updateAt_none {path : TaskPath} {f : TrieNode → TrieNode} (h : n.walkTo path = none) (p : TaskPath) :
    (n.updateAt f path).at' p = n.at' p := by
  induction path generalizing n p with
  | nil => cases h
  | cons name path ih =>
    rw [walkTo] at h
    rw [updateAt]
    cases hc : n.children.lookup name with
    | none => rfl
    | some child =>
      rw [hc] at h
      cases p with
      | nil => simp
      | cons x p =>
        simp only
        rw [at_cons, children_setChildren, Children.set, Assoc.lookup_set, at_cons]
        split
        · rename_i hx
          rw [hx, hc]
          exact ih h p
        · rfl

theorem mem_collectNodes (h : n.Named) : (p, id) ∈ n.collectNodes base ↔
    ∃ q s, n.at' q = some s ∧ p = base ++ q ∧ (s.1 <|> s.2) = some id ∧ p ≠ [] := by
  induction h generalizing base with
  | @mk task folder children hn hall ih =>
    have hkids (cs : Children) (hcs : ∀ e ∈ cs, e ∈ children) : (p, id) ∈ collectChildren cs base ↔
        ∃ e ∈ cs, ∃ q s, e.2.at' q = some s ∧ p = base ++ e.1 :: q ∧ (s.1 <|> s.2) = some id := by
      induction cs with
      | nil => simp [collectChildren]
      | cons d cs ihc =>
        obtain ⟨name, child⟩ := d
        have hd : (p, id) ∈ child.collectNodes (base ++ [name]) ↔ ∃ q s, child.at' q = some s ∧
            p = base ++ [name] ++ q ∧ (s.1 <|> s.2) = some id ∧ p ≠ [] := ih (name, child) (hcs _ List.mem_cons_self)
        rw [collectChildren, List.mem_append, hd, ihc fun e he => hcs e (List.mem_cons_of_mem _ he)]
        constructor
        · rintro (⟨q, s, hq, rfl, hs, -⟩ | ⟨e, he, q, s, hq, hp, hs⟩)
          · exact ⟨_, List.mem_cons_self, q, s, hq, by simp, hs⟩
          · exact ⟨e, List.mem_cons_of_mem _ he, q, s, hq, hp, hs⟩
        · rintro ⟨e, he, q, s, hq, hp, hs⟩
          rcases List.mem_cons.mp he with rfl | he
          · exact .inl ⟨q, s, hq, by simpa using hp, hs, by simp [hp]⟩
          · exact .inr ⟨e, he, q, s, hq, hp, hs⟩
    rw [collectNodes, List.mem_append, hkids children fun _ h => h]
    constructor
    · rintro (hself | ⟨⟨name, child⟩, he, q, s, hq, hp, hs⟩)
      · refine ⟨[], (task, folder), rfl, ?_⟩
        split at hself
        · rename_i i hi
          split at hself
          · cases hself
          · rename_i hroot
            obtain ⟨rfl, rfl⟩ := Prod.mk.inj (List.mem_singleton.mp hself)
            refine ⟨by simp, hi, ?_⟩
            rintro rfl
            exact hroot rfl
        · cases hself
      · refine ⟨name :: q, s, ?_, hp, hs, by simp [hp]⟩
        rw [at_cons, show (TrieNode.mk task folder children).children = children from rfl,
          Assoc.lookup_of_mem hn he]
        exact hq
    · rintro ⟨q, s, hq, hp, hs, hne⟩
      cases q with
      | nil =>
        left
        obtain rfl : (task, folder) = s := Option.some.inj hq
        have hroot : base.isRoot = false := by
          cases base with
          | nil => exact absurd hp hne
          | cons x l => rfl
        rw [hs]
        simp [hroot, hp]
      | cons x q =>
        right
        rw [at_cons, show (TrieNode.mk task folder children).children = children from rfl] at hq
        cases hl : children.lookup x with
        | none => rw [hl] at hq; cases hq
        | some child =>
          rw [hl] at hq
          exact ⟨(x, child), Assoc.mem_of_lookup hl, q, s, hq, hp, hs⟩

end TrieNode

namespace TaskPath

variable {src dst : TaskPath}

theorem takeWhile_parents {P : TaskPath → Bool} (h : ((parents src).takeWhile P).any (· = dst) = true) :
    dst <+: src ∧ dst ≠ src ∧ ∀ q, dst <+: q → q <+: src → q ≠ src → P q = true := by
  induction src using List.reverseRecOn with
  | nil => cases h
  | append_singleton a x ih =>
    rw [parents_append_single] at h
    cases hP : P a with
    | false => simp [hP] at h
    | true =>
      rw [List.takeWhile_cons_of_pos hP, List.any_cons, Bool.or_eq_true] at h
      have hfar (q : TaskPath) (hq : q <+: a ++ [x]) (hne : q ≠ a ++ [x]) : q <+: a := by
        rcases List.prefix_concat_iff.mp hq with he | hq
        · exact absurd he hne
        · exact hq
      have hshort : a ≠ a ++ [x] := by simp
      rcases h with h | h
      · obtain rfl : a = dst := by simpa using h
        refine ⟨List.prefix_append _ _, hshort, fun q hdst hq hne => ?_⟩
        have hqa := hfar q hq hne
        rw [hqa.eq_of_length (Nat.le_antisymm hqa.length_le hdst.length_le)]
        exact hP
      · obtain ⟨hdst, hne, hall⟩ := ih h
        refine ⟨hdst.trans (List.prefix_append _ _), ?_, fun q hq hqs hqne => ?_⟩
        · rintro rfl
          have := hdst.length_le
          simp at this
        · by_cases hqa : q = a
          · rw [hqa]
            exact hP
          · exact hall q hq (hfar q hqs hqne) hqa

theorem fork (p q : TaskPath) : p <+: q ∨ q <+: p ∨
    ∃ c x y p' q', x ≠ y ∧ p = c ++ x :: p' ∧ q = c ++ y :: q' := by
  induction p generalizing q with
  | nil => exact .inl List.nil_prefix
  | cons a p ih =>
    cases q with
    | nil => exact .inr (.inl List.nil_prefix)
    | cons b q =>
      by_cases hab : a = b
      · subst hab
        rcases ih q with h | h | ⟨c, x, y, p', q', hxy, hp, hq⟩
        · exact .inl (List.cons_prefix_cons.mpr ⟨rfl, h⟩)
        · exact .inr (.inl (List.cons_prefix_cons.mpr ⟨rfl, h⟩))
        · exact .inr (.inr ⟨a :: c, x, y, p', q', hxy, by rw [hp]; rfl, by rw [hq]; rfl⟩)
      · exact .inr (.inr ⟨[], a, b, p, q, hab, rfl, rfl⟩)

theorem dropLast_append_name (h : p ≠ []) : p.dropLast ++ [TaskPath.name p] = p := by
  unfold TaskPath.name
  rw [List.getLastD_eq_getLast?, List.getLast?_eq_some_getLast h]
  exact List.dropLast_append_getLast h

end TaskPath

namespace PathTrie

variable {t t' : PathTrie} {src dst : TaskPath}

theorem emptied_under (h : t.emptied src dst = true) (hsrc : t.root.at' src ≠ none) (hp : dst <+: p)
    (hat : t.root.at' p ≠ none) : p <+: src ∨ src <+: p := by
  obtain ⟨⟨s, rfl⟩, -, hall⟩ := TaskPath.takeWhile_parents h
  obtain ⟨r, rfl⟩ := hp
  rcases TaskPath.fork r s with hrs | hsr | ⟨c, x, y, r', s', hxy, rfl, rfl⟩
  · exact .inl ((List.prefix_append_right_inj dst).mpr hrs)
  · exact .inr ((List.prefix_append_right_inj dst).mpr hsr)
  · exfalso
    have hc := hall (dst ++ c) (List.prefix_append _ _)
      ((List.prefix_append_right_inj dst).mpr (List.prefix_append _ _)) (by simp)
    cases hw : t.walkTo (dst ++ c) with
    | none => rw [hw] at hc; cases hc
    | some node =>
      rw [hw] at hc
      simp only [decide_eq_true_eq] at hc
      obtain ⟨⟨k, child⟩, he⟩ := List.length_eq_one_iff.mp hc.1
      have hname (z : String) (l : TaskPath) (hz : t.root.at' (dst ++ (c ++ z :: l)) ≠ none) : z = k := by
        rw [← List.append_assoc, TrieNode.at_append hw, TrieNode.at_cons, he] at hz
        by_contra hne
        simp only [List.lookup_cons, beq_false_of_ne hne, List.lookup_nil] at hz
        exact hz rfl
      exact hxy ((hname x r' hat).trans (hname y s' hsrc).symm)

theorem emptied_folder (h : t.emptied src dst = true) (hp : dst <+: p) (hps : p <+: src) (hne : p ≠ src) :
    (t.content p).2 = none := by
  obtain ⟨-, -, hall⟩ := TaskPath.takeWhile_parents h
  have hc := hall p hp hps hne
  cases hw : t.walkTo p with
  | none => rw [hw] at hc; cases hc
  | some node =>
    rw [hw] at hc
    simp only [decide_eq_true_eq] at hc
    have hat : t.root.at' p = some node.spot := by
      unfold TrieNode.at'
      rw [show t.root.walkTo p = some node from hw]
      rfl
    rw [content_of_at hat]
    exact hc.2

theorem Held.full (h : t.Held []) (hp : t.root.at' p ≠ none) (hne : p ≠ []) :
    ∃ q, t.content (p ++ q) ≠ (none, none) := by
  obtain ⟨s, hs⟩ := Option.ne_none_iff_exists'.mp hp
  obtain ⟨node, hw, -⟩ := Option.map_eq_some_iff.mp hs
  obtain ⟨q, s', hq, hcase⟩ := (h.named.walkTo hw).leaf
  have hat : t.root.at' (p ++ q) = some s' := (TrieNode.at_append hw q).trans hq
  by_cases hs' : s' = (none, none)
  · rcases hcase with hcase | hcase
    · exact absurd hs' hcase
    · obtain ⟨r, hr, -⟩ := h.live (p ++ q) (by simp [hne]) (hs' ▸ hat) fun x => by
        rw [List.append_assoc, TrieNode.at_append hw]
        exact hcase x
      cases hr
  · exact ⟨q, by rw [content_of_at hat]; exact hs'⟩

theorem parent_of_ne (h : p ≠ []) : TaskPath.parent p = some p.dropLast := by
  unfold TaskPath.parent
  cases p with
  | nil => exact absurd rfl h
  | cons x p => rfl

theorem dropLast_prefix_ne (h : p ≠ []) : p.dropLast <+: p ∧ p.dropLast ≠ p := by
  refine ⟨List.dropLast_prefix p, fun he => ?_⟩
  have hl := congrArg List.length he
  rw [List.length_dropLast] at hl
  have := List.length_pos_of_ne_nil h
  omega

theorem prefix_of_ne (h : q <+: p) (hne : q ≠ p) : q <+: p.dropLast := by
  obtain ⟨r, rfl⟩ := h
  have hr : r ≠ [] := by
    rintro rfl
    simp at hne
  rw [List.dropLast_append_of_ne_nil hr]
  exact List.prefix_append _ _

/-- A move that is not refused. -/
structure Movable (t : PathTrie) (src dst : TaskPath) (node : TrieNode) : Prop where
  source : src ≠ []
  target : dst ≠ []
  walk : t.root.walkTo src = some node
  full : node.isEmpty = false
  outside : src ≠ dst → ¬ src <+: dst
  clear : src ≠ dst → t.taskAbove dst = none
  free : src ≠ dst → t.root.at' dst = none ∨ t.emptied src dst = true

theorem movable_of_ok {place : Place} {moved : List Moved} (hok : t.moveNode src dst place = .ok (t', moved)) :
    t.moveRefused src dst place = none ∧ ∃ node, t.Movable src dst node := by
  unfold moveNode at hok
  cases hr : t.moveRefused src dst place with
  | some err => simp [hr] at hok
  | none =>
    cases hw : t.walkTo src with
    | none => simp [hr, hw] at hok
    | some node =>
      refine ⟨rfl, node, ?_⟩
      unfold moveRefused at hr
      split at hr
      · cases hr
      · rename_i hroot
        split at hr
        · cases hr
        · rename_i hempty
          split at hr
          · cases hr
          · rename_i hinto
            split at hr
            · cases hr
            · rename_i habove
              split at hr
              · cases hr
              · rename_i htaken
                simp only [TaskPath.isRoot, Bool.or_eq_true, List.isEmpty_iff, not_or] at hroot
                refine ⟨hroot.1, hroot.2, hw, ?_, ?_, ?_, ?_⟩
                · rw [hw] at hempty
                  simpa using hempty
                · intro hne hpre
                  exact hinto ⟨hne, List.isPrefixOf_iff_prefix.mpr hpre⟩
                · intro hne
                  rwa [if_pos hne] at habove
                · intro hne
                  by_contra hcase
                  rw [not_or] at hcase
                  refine htaken ⟨hne, ?_, by simpa using hcase.2⟩
                  have hsome := Option.isSome_iff_ne_none.mpr hcase.1
                  rwa [TrieNode.at', Option.isSome_map] at hsome

namespace Movable

variable {node : TrieNode}

theorem at_src (h : t.Movable src dst node) (q : TaskPath) : t.root.at' (src ++ q) = node.at' q :=
  TrieNode.at_append h.walk q

theorem here (h : t.Movable src dst node) : t.root.at' src ≠ none := by
  have := h.at_src []
  rw [List.append_nil] at this
  rw [this]
  simp

theorem found (h : t.Movable src dst node) (ht : t.Held []) : ∃ q, t.content (src ++ q) ≠ (none, none) :=
  ht.full h.here h.source

theorem noTask (h : t.Movable src dst node) (ht : t.Held []) (hq : q <+: dst) (hne : q ≠ dst) :
    (t.content q).1 = none := by
  by_cases hsd : src = dst
  · subst hsd
    obtain ⟨r, hr⟩ := h.found ht
    obtain ⟨s, rfl⟩ := hq
    cases hc : t.content q with
    | mk task folder =>
      cases task with
      | none => rfl
      | some a =>
        have hs : s ≠ [] := by
          rintro rfl
          simp at hne
        exact absurd (by rw [List.append_assoc]; exact ht.above q a folder (s ++ r) hc (by simp [hs])) hr
  · exact taskAbove_none (h.clear hsd) hq hne

theorem vacant (h : t.Movable src dst node) (ht : t.Held []) (hp : dst <+: p) (hsrc : ¬ src <+: p) :
    t.content p = (none, none) := by
  by_cases hsd : src = dst
  · exact absurd (hsd ▸ hp) hsrc
  · cases hat : t.root.at' p with
    | none =>
      rw [content, hat]
      rfl
    | some s =>
      have hne : t.root.at' p ≠ none := by simp [hat]
      rcases h.free hsd with hfree | hempty
      · obtain ⟨r, rfl⟩ := hp
        exact absurd (TrieNode.at_append_none hfree r) hne
      · have hps : p <+: src := (emptied_under hempty h.here hp hne).resolve_right hsrc
        have hnps : p ≠ src := by
          rintro rfl
          exact hsrc (List.prefix_refl p)
        have hfolder := emptied_folder hempty hp hps hnps
        obtain ⟨q, rfl⟩ := hps
        obtain ⟨r, hr⟩ := h.found ht
        cases hc : t.content p with
        | mk task folder =>
          rw [hc] at hfolder
          cases task with
          | none => exact Prod.ext rfl hfolder
          | some a =>
            have hq : q ≠ [] := by
              rintro rfl
              simp at hnps
            exact absurd (by rw [List.append_assoc]; exact ht.above p a folder (q ++ r) hc (by simp [hq])) hr

end Movable

/-- The trie as it is when the node to move is out of it. -/
def takenOut (t : PathTrie) (src : TaskPath) : PathTrie :=
  ⟨t.root.updateAt (fun parent => parent.setChildren (Children.remove parent.children (TaskPath.name src)))
    src.dropLast⟩

def indexAt (t : PathTrie) (src : TaskPath) : ℕ :=
  ((t.walkTo src.dropLast).bind (fun parent => Children.indexOf parent.children (TaskPath.name src))).getD 0

/-- The group that is made beside where the node was, if any. -/
def made (out : PathTrie) (src dst : TaskPath) : Option TaskPath :=
  (((dst.dropLast :: TaskPath.parents dst.dropLast).takeWhile
    (fun group => !TaskPath.isRoot group && (out.walkTo group).isNone)).getLast?).filter
      (fun group => TaskPath.parent group = TaskPath.parent src)

/-- The trie with the groups made on the way to where the node goes. -/
def ready (t : PathTrie) (src dst : TaskPath) (place : Place) : PathTrie :=
  let placed := (t.takenOut src).place dst.dropLast .last
  if place = .keep ∧ ((t.takenOut src).made src dst).isSome then
    ⟨placed.root.updateAt (fun parent => parent.setChildren
      (Children.moveLast parent.children (min (t.indexAt src) (parent.children.length - 1)))) src.dropLast⟩
  else placed

def put (t : PathTrie) (src dst : TaskPath) (place : Place) (node : TrieNode) : PathTrie :=
  ⟨(t.ready src dst place).root.updateAt (putIn node (TaskPath.name dst) place
    (if TaskPath.parent src = TaskPath.parent dst then some (t.indexAt src) else none)) dst.dropLast⟩

theorem takeOld_pairs (old : Finmap (fun _ : TaskId => TaskPath)) (l : List (TaskPath × TaskId)) :
    (takeOld old l).map (fun m => (m.dst, m.id)) = l := by
  induction l generalizing old with
  | nil => rfl
  | cons e l ih => rw [takeOld, List.map_cons, ih]

theorem moveNode_cases {place : Place} {moved : List Moved} (hok : t.moveNode src dst place = .ok (t', moved)) :
    t.moveRefused src dst place = none ∧ ∃ node, t.Movable src dst node ∧
      t' = (if TaskPath.parent src ≠ TaskPath.parent dst then (t.put src dst place node).prune src
        else t.put src dst place node) ∧
      moved = takeOld (oldPaths (node.collectNodes src)) (node.collectNodes dst) := by
  obtain ⟨hr, node, hm⟩ := movable_of_ok hok
  refine ⟨hr, node, hm, ?_⟩
  unfold moveNode at hok
  rw [hr, show t.walkTo src = some node from hm.walk] at hok
  obtain ⟨rfl, rfl⟩ := Prod.mk.inj (Except.ok.inj hok)
  exact ⟨rfl, rfl⟩

/-- The trie as a move leaves it, before what it emptied is pruned. -/
structure Landed (t : PathTrie) (src dst : TaskPath) (u : TrieNode) : Prop where
  named : u.Named
  spots : ∀ p, u.at' p = if dst <+: p then t.root.at' (src ++ p.drop dst.length)
    else if p <+: dst.dropLast then some (t.content p) else if src <+: p then none else t.root.at' p

section landing

variable {node : TrieNode} {place : Place}

theorem named_takenOut (ht : t.Held []) (src : TaskPath) : (t.takenOut src).root.Named :=
  TrieNode.named_updateAt ht.named fun _ hw => TrieNode.named_remove (ht.named.walkTo hw) _

theorem walkTo_parent {n m : TrieNode} (hp : p ≠ []) (hw : n.walkTo p = some m) : ∃ parent,
    n.walkTo p.dropLast = some parent ∧ parent.children.lookup (TaskPath.name p) = some m := by
  rw [← TaskPath.dropLast_append_name hp, TrieNode.walkTo_append] at hw
  obtain ⟨parent, hparent, hlast⟩ := Option.bind_eq_some_iff.mp hw
  refine ⟨parent, hparent, ?_⟩
  rw [TrieNode.walkTo] at hlast
  cases hc : parent.children.lookup (TaskPath.name p) with
  | none => rw [hc] at hlast; cases hlast
  | some child => rwa [hc] at hlast

theorem at_takenOut (h : t.Movable src dst node) (p : TaskPath) :
    (t.takenOut src).root.at' p = if src <+: p then none else t.root.at' p := by
  have hsplit := TaskPath.dropLast_append_name h.source
  obtain ⟨parent, hparent, -⟩ := walkTo_parent h.source h.walk
  unfold takenOut
  rw [TrieNode.at_updateAt hparent]
  by_cases hpre : src.dropLast <+: p
  · rw [if_pos hpre]
    obtain ⟨q, rfl⟩ := hpre
    rw [List.drop_left]
    have hiff : src <+: src.dropLast ++ q ↔ [TaskPath.name src] <+: q := by
      conv_lhs => rw [← hsplit]
      simp
    rw [TrieNode.at_append hparent]
    cases q with
    | nil =>
      rw [if_neg (by rw [hiff]; simp)]
      simp
    | cons x q =>
      rw [TrieNode.at_cons, TrieNode.children_setChildren, Children.remove, Assoc.lookup_erase]
      by_cases hx : x = TaskPath.name src
      · rw [if_pos hx, if_pos (by rw [hiff]; simp [hx])]
        rfl
      · rw [if_neg hx, if_neg (by rw [hiff]; simpa using Ne.symm hx), TrieNode.at_cons]
  · have hnot : ¬ src <+: p := fun hs => hpre ((List.dropLast_prefix src).trans hs)
    rw [if_neg hpre, if_neg hnot]

theorem at_reorder {n : TrieNode} (h : n.Named) (at₀ : TaskPath) (index : ℕ) :
    (∀ p, (n.updateAt (fun parent => parent.setChildren
      (Children.moveLast parent.children (min index (parent.children.length - 1)))) at₀).at' p = n.at' p) ∧
      (n.updateAt (fun parent => parent.setChildren
        (Children.moveLast parent.children (min index (parent.children.length - 1)))) at₀).Named := by
  constructor
  · intro p
    cases hw : n.walkTo at₀ with
    | none => exact TrieNode.at_updateAt_none hw p
    | some m =>
      rw [TrieNode.at_updateAt hw]
      split
      · rename_i hpre
        obtain ⟨q, rfl⟩ := hpre
        rw [List.drop_left, TrieNode.at_append hw]
        exact (TrieNode.at_moveLast (h.walkTo hw) (Nat.min_le_right _ _) q).1
      · rfl
  · exact TrieNode.named_updateAt h fun m hm =>
      (TrieNode.at_moveLast (h.walkTo hm) (Nat.min_le_right _ _) []).2

theorem taskAbove_takenOut (h : t.Movable src dst node) (ht : t.Held []) :
    (t.takenOut src).taskAbove dst.dropLast = none := by
  unfold taskAbove
  rw [List.find?_eq_none]
  intro q hq
  obtain ⟨hpre, -⟩ := TaskPath.mem_parents.mp hq
  have hlen := hpre.length_le
  have hdst := dropLast_prefix_ne h.target
  have hne : q ≠ dst := by
    rintro rfl
    have hlen : q.dropLast.length = q.length - 1 := List.length_dropLast
    have := List.length_pos_of_ne_nil h.target
    omega
  have hno := h.noTask ht (hpre.trans hdst.1) hne
  rw [← content_task, content, at_takenOut h]
  split
  · simp
  · rw [show (t.root.at' q).getD (none, none) = t.content q from rfl, hno]
    simp

theorem place_takenOut (h : t.Movable src dst node) (ht : t.Held []) : (t.takenOut src).place dst.dropLast .last =
    ⟨(t.takenOut src).root.make dst.dropLast .last (fun n => n) dst.dropLast⟩ :=
  if_pos (Option.isNone_iff_eq_none.mpr (taskAbove_takenOut h ht))

theorem ready_spots (h : t.Movable src dst node) (ht : t.Held []) (place : Place) :
    (t.ready src dst place).root.Named ∧ ∀ p, (t.ready src dst place).root.at' p =
      if p <+: dst.dropLast then some (((t.takenOut src).root.at' p).getD (none, none))
      else (t.takenOut src).root.at' p := by
  have hplace (p : TaskPath) : ((t.takenOut src).place dst.dropLast .last).root.at' p =
      if p <+: dst.dropLast then some (((t.takenOut src).root.at' p).getD (none, none))
      else (t.takenOut src).root.at' p := by
    rw [place_takenOut h ht, TrieNode.at_make (φ := fun s => s) (fun _ => rfl) fun _ => rfl]
    by_cases he : p = dst.dropLast
    · rw [if_pos he, if_pos (he ▸ List.prefix_refl p), he]
    · rw [if_neg he]
  have hnamed : ((t.takenOut src).place dst.dropLast .last).root.Named := by
    rw [place_takenOut h ht]
    exact TrieNode.named_make (named_takenOut ht src) (fun _ h => h) _ _ _
  unfold ready
  simp only
  split
  · exact ⟨(at_reorder hnamed _ _).2, fun p => ((at_reorder hnamed _ _).1 p).trans (hplace p)⟩
  · exact ⟨hnamed, hplace⟩

theorem walkTo_ready (h : t.Movable src dst node) (ht : t.Held []) (place : Place) : ∃ parent,
    (t.ready src dst place).root.walkTo dst.dropLast = some parent := by
  have hat := (ready_spots h ht place).2 dst.dropLast
  rw [if_pos (List.prefix_refl _)] at hat
  obtain ⟨parent, hparent, -⟩ := Option.map_eq_some_iff.mp hat
  exact ⟨parent, hparent⟩

theorem landed_put (h : t.Movable src dst node) (ht : t.Held []) (place : Place) :
    Landed t src dst (t.put src dst place node).root := by
  obtain ⟨hnamed, hspots⟩ := ready_spots h ht place
  obtain ⟨parent, hparent⟩ := walkTo_ready h ht place
  refine ⟨TrieNode.named_updateAt hnamed fun m hw =>
    TrieNode.named_putIn (hnamed.walkTo hw) (ht.named.walkTo h.walk) _ _ _, fun p => ?_⟩
  have hsplit := TaskPath.dropLast_append_name h.target
  unfold put
  rw [TrieNode.at_updateAt hparent]
  have hrest (hnot : ¬ dst <+: p) : (t.ready src dst place).root.at' p = if p <+: dst.dropLast then some (t.content p)
      else if src <+: p then none else t.root.at' p := by
    rw [hspots, at_takenOut h]
    split
    · rename_i hpre
      have hnsrc : ¬ src <+: p := by
        intro hsp
        by_cases hsd : src = dst
        · exact hnot (hsd ▸ hsp)
        · exact h.outside hsd ((hsp.trans hpre).trans (List.dropLast_prefix dst))
      rw [if_neg hnsrc]
      rfl
    · rfl
  by_cases hpre : dst.dropLast <+: p
  · rw [if_pos hpre]
    obtain ⟨q, rfl⟩ := hpre
    rw [List.drop_left, TrieNode.at_putIn]
    have hiff : dst <+: dst.dropLast ++ q ↔ [TaskPath.name dst] <+: q := by
      conv_lhs => rw [← hsplit]
      simp
    by_cases hq : [TaskPath.name dst] <+: q
    · rw [if_pos hq, if_pos (hiff.mpr hq), h.at_src]
      have hlen : dst.length = dst.dropLast.length + 1 := by
        conv_lhs => rw [← hsplit]
        simp
      rw [hlen, ← List.drop_drop, List.drop_left]
    · rw [if_neg hq, if_neg (fun h => hq (hiff.mp h)), ← TrieNode.at_append hparent]
      exact hrest fun h => hq (hiff.mp h)
  · rw [if_neg hpre]
    have hnot : ¬ dst <+: p := fun h => hpre ((List.dropLast_prefix dst).trans h)
    rw [if_neg hnot]
    exact hrest hnot

theorem moveNode_landed (ht : t.Held []) {moved : List Moved}
    (hok : t.moveNode src dst place = .ok (t', moved)) : ∃ node u, t.Movable src dst node ∧ Landed t src dst u ∧
      moved.map (fun m => (m.dst, m.id)) = node.collectNodes dst ∧
      t' = if TaskPath.parent src ≠ TaskPath.parent dst then (⟨u⟩ : PathTrie).prune src else ⟨u⟩ := by
  obtain ⟨-, node, hm, rfl, rfl⟩ := moveNode_cases hok
  exact ⟨node, _, hm, landed_put hm ht place, takeOld_pairs _ _, rfl⟩

theorem Landed.content {u : TrieNode} (hl : Landed t src dst u) (hm : t.Movable src dst node) (p : TaskPath) :
    (⟨u⟩ : PathTrie).content p = if dst <+: p then t.content (src ++ p.drop dst.length)
      else if src <+: p then (none, none) else t.content p := by
  unfold PathTrie.content
  rw [hl.spots]
  split
  · rfl
  · rename_i hdst
    by_cases hpre : p <+: dst.dropLast
    · have hnsrc : ¬ src <+: p := by
        intro hsp
        by_cases hsd : src = dst
        · exact hdst (hsd ▸ hsp)
        · exact hm.outside hsd ((hsp.trans hpre).trans (List.dropLast_prefix dst))
      rw [if_pos hpre, if_neg hnsrc]
      rfl
    · rw [if_neg hpre]
      split <;> rfl

/-- What a move makes and leaves behind is not empty, but for the groups on the way to where it was. -/
theorem Landed.held {u : TrieNode} (hl : Landed t src dst u) (hm : t.Movable src dst node) (ht : t.Held []) :
    (⟨u⟩ : PathTrie).Held (if TaskPath.parent src ≠ TaskPath.parent dst then [src] else []) := by
  have hcontent := hl.content hm
  refine ⟨hl.named, fun p a b => ?_, fun p a b q hp hq => ?_, fun p hne hp hkids => ?_⟩
  · rw [hcontent]
    split
    · exact ht.one _ a b
    · split
      · simp
      · exact ht.one p a b
  · rw [hcontent] at hp ⊢
    split at hp
    · rename_i hdst
      rw [if_pos (hdst.trans (List.prefix_append p q)), List.drop_append_of_le_length hdst.length_le,
        ← List.append_assoc]
      exact ht.above _ a b q hp hq
    · rename_i hdst
      split at hp
      · cases hp
      · have hnot : ¬ dst <+: p ++ q := by
          intro hpre
          have hpd : p <+: dst := by
            rcases List.prefix_or_prefix_of_prefix (List.prefix_append p q) hpre with h | h
            · exact h
            · exact absurd h hdst
          have hno := hm.noTask ht hpd (by rintro rfl; exact hdst (List.prefix_refl p))
          rw [hp] at hno
          cases hno
        rw [if_neg hnot]
        split
        · rfl
        · exact ht.above p a b q hp hq
  · rw [hl.spots] at hp
    by_cases hdst : dst <+: p
    · rw [if_pos hdst] at hp
      obtain ⟨r, hr, -⟩ := ht.live _ (by simp [hm.source]) hp fun x => by
        have hx := hkids x
        rw [hl.spots, if_pos (hdst.trans (List.prefix_append p [x])),
          List.drop_append_of_le_length hdst.length_le, ← List.append_assoc] at hx
        exact hx
      cases hr
    · rw [if_neg hdst] at hp
      by_cases hpre : p <+: dst.dropLast
      · exfalso
        have hpd : p <+: dst := hpre.trans (List.dropLast_prefix dst)
        obtain ⟨r, hr⟩ := hpd
        cases r with
        | nil => exact hdst (by rw [← hr]; simp)
        | cons x r =>
          have hx := hkids x
          have hnext : p ++ [x] <+: dst := ⟨r, by simpa using hr⟩
          rw [hl.spots] at hx
          by_cases hlast : p ++ [x] = dst
          · rw [if_pos (hlast ▸ List.prefix_refl _), hlast, List.drop_length, hm.at_src] at hx
            cases hx
          · have hnot : ¬ dst <+: p ++ [x] := fun h => hlast (hnext.eq_of_length (Nat.le_antisymm
              hnext.length_le h.length_le))
            rw [if_neg hnot, if_pos (prefix_of_ne hnext hlast)] at hx
            cases hx
      · rw [if_neg hpre] at hp
        split at hp
        · cases hp
        · rename_i hsrc
          by_contra hall
          obtain ⟨r, hr, -⟩ := ht.live p hne hp fun x => by
            have hx := hkids x
            have hnot : ¬ dst <+: p ++ [x] := by
              intro h
              rcases List.prefix_concat_iff.mp h with he | h
              · have hdrop : dst.dropLast = p := by rw [he]; simp
                exact hpre (hdrop ▸ List.prefix_refl _)
              · exact hdst h
            have hnpre : ¬ p ++ [x] <+: dst.dropLast := fun h => hpre ((List.prefix_append p [x]).trans h)
            rw [hl.spots, if_neg hnot, if_neg hnpre] at hx
            by_cases hs : src <+: p ++ [x]
            · exfalso
              rcases List.prefix_concat_iff.mp hs with he | h
              · have hdrop : src.dropLast = p := by rw [he]; simp
                refine hall ⟨src, ?_, he ▸ List.prefix_append p [x]⟩
                have hparents : TaskPath.parent src ≠ TaskPath.parent dst := by
                  rw [parent_of_ne hm.source, parent_of_ne hm.target, hdrop]
                  intro heq
                  exact hpre (Option.some.inj heq ▸ List.prefix_refl _)
                rw [if_pos hparents]
                exact List.mem_singleton_self src
              · exact hsrc h
            · rwa [if_neg hs] at hx
          cases hr

theorem moveNode_ok (ht : t.Held []) {place : Place} {moved : List Moved}
    (hok : t.moveNode src dst place = .ok (t', moved)) : t'.Held [] ∧
      (∀ p, t'.content p = if dst <+: p then t.content (src ++ p.drop dst.length)
        else if src <+: p then (none, none) else t.content p) ∧
      ∀ p id, (p, id) ∈ moved.map (fun m => (m.dst, m.id)) ↔
        ∃ q, p = dst ++ q ∧ ((t.content (src ++ q)).1 <|> (t.content (src ++ q)).2) = some id := by
  obtain ⟨node, u, hm, hl, hmoved, rfl⟩ := moveNode_landed ht hok
  have hheld := hl.held hm ht
  refine ⟨?_, fun p => ?_, fun p id => ?_⟩
  · split
    · rename_i hne
      rw [if_pos hne] at hheld
      exact hheld.prune
    · rename_i hne
      rwa [if_neg hne] at hheld
  · rw [← hl.content hm p]
    split
    · exact content_prune _ _ _
    · rfl
  · rw [hmoved, TrieNode.mem_collectNodes (ht.named.walkTo hm.walk)]
    constructor
    · rintro ⟨q, s, hq, rfl, hs, -⟩
      refine ⟨q, rfl, ?_⟩
      rw [content_of_at ((hm.at_src q).trans hq)]
      exact hs
    · rintro ⟨q, rfl, hs⟩
      have hne : t.content (src ++ q) ≠ (none, none) := by
        intro he
        rw [he] at hs
        cases hs
      exact ⟨q, _, (hm.at_src q).symm.trans (at_of_content rfl hne), rfl, hs, by simp [hm.target]⟩

end landing

end PathTrie

end Dekit
