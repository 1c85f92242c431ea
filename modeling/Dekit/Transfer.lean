import Mathlib.Data.List.TakeWhile
import Dekit.Listing

namespace Dekit

variable {n m : TrieNode} {base p q path : TaskPath} {id : TaskId} {cs : Children} {name : String}

theorem insertIdx_split {α : Type} {l : List α} {i : ℕ} (hi : i ≤ l.length) (x : α) :
    l.insertIdx i x = l.take i ++ x :: l.drop i := by
  induction l generalizing i with
  | nil =>
    obtain rfl : i = 0 := Nat.le_zero.mp hi
    rfl
  | cons y l ih =>
    cases i with
    | zero => rfl
    | succ i => rw [List.insertIdx_succ_cons, ih (Nat.le_of_succ_le_succ hi), List.take_succ_cons, List.drop_succ_cons,
        List.cons_append]

theorem collectChildren_insertIdx {e : String × TrieNode} {i : ℕ} (hi : i ≤ cs.length) (base : TaskPath) :
    ∃ pre post, collectChildren cs base = pre ++ post ∧
      collectChildren (cs.insertIdx i e) base = pre ++ e.2.collectNodes (base ++ [e.1]) ++ post := by
  refine ⟨collectChildren (cs.take i) base, collectChildren (cs.drop i) base, ?_, ?_⟩
  · rw [← collectChildren_append, List.take_append_drop]
  · rw [insertIdx_split hi, collectChildren_append, collectChildren, List.append_assoc]

namespace TrieNode

def own (n : TrieNode) (base : TaskPath) : List (TaskPath × TaskId) :=
  match n.id with
  | some id => if base.isRoot then [] else [(base, id)]
  | none => []

theorem collectNodes_eq (n : TrieNode) (base : TaskPath) :
    n.collectNodes base = n.own base ++ collectChildren n.children base := by
  cases n with
  | mk task folder children => rw [collectNodes]; rfl

@[simp] theorem own_setChildren (n : TrieNode) (children : Children) (base : TaskPath) :
    (n.setChildren children).own base = n.own base := by
  cases n
  rfl

@[simp] theorem setChildren_children (n : TrieNode) : n.setChildren n.children = n := by
  cases n
  rfl

theorem Named.context (h : n.Named) (hw : n.walkTo path = some m) (base : TaskPath) : ∃ pre post,
    n.collectNodes base = pre ++ m.collectNodes (base ++ path) ++ post ∧
      ∀ f, (n.updateAt f path).collectNodes base = pre ++ (f m).collectNodes (base ++ path) ++ post := by
  induction path generalizing n base with
  | nil =>
    obtain rfl : n = m := Option.some.inj hw
    refine ⟨[], [], ?_, fun f => ?_⟩ <;> rw [List.append_nil, List.append_nil] <;> rfl
  | cons name path ih =>
    rw [TrieNode.walkTo] at hw
    cases hc : n.children.lookup name with
    | none => rw [hc] at hw; cases hw
    | some child =>
      rw [hc] at hw
      obtain ⟨pre, post, hlist, hupdate⟩ := ih (h.child hc) hw (base ++ [name])
      obtain ⟨l, r, hcs, hl, hr⟩ := Assoc.split h.nodup hc
      have hbase : base ++ [name] ++ path = base ++ name :: path := List.append_assoc _ _ _
      rw [hbase] at hlist hupdate
      refine ⟨n.own base ++ collectChildren l base ++ pre, post ++ collectChildren r base, ?_, fun f => ?_⟩
      · rw [collectNodes_eq, hcs, collectChildren_append, collectChildren, hlist]
        simp only [List.append_assoc]
      · rw [updateAt, hc]
        simp only
        rw [collectNodes_eq, children_setChildren, own_setChildren, hcs, Children.set, Assoc.set_around hl hr,
          collectChildren_append, collectChildren, hupdate f]
        simp only [List.append_assoc]

theorem collectChildren_set {child child' : TrieNode} (hn : (cs.map Prod.fst).Nodup) (hc : cs.lookup name = some child)
    (h : child'.collectNodes (base ++ [name]) = child.collectNodes (base ++ [name])) :
    collectChildren (Children.set cs name child') base = collectChildren cs base := by
  obtain ⟨l, r, rfl, hl, hr⟩ := Assoc.split hn hc
  rw [Children.set, Assoc.set_around hl hr, collectChildren_append, collectChildren_append, collectChildren,
    collectChildren, h]

theorem collectChildren_remove {child : TrieNode} (hn : (cs.map Prod.fst).Nodup) (hc : cs.lookup name = some child)
    (h : child.collectNodes (base ++ [name]) = []) :
    collectChildren (Children.remove cs name) base = collectChildren cs base := by
  obtain ⟨l, r, rfl, hl, hr⟩ := Assoc.split hn hc
  rw [Children.remove, Assoc.erase_around hl hr, collectChildren_append, collectChildren_append, collectChildren, h,
    List.nil_append]

theorem collectNodes_new (base : TaskPath) : new.collectNodes base = [] := rfl

theorem collectNodes_make (h : n.Named) (path : TaskPath) (place : Place) (comps : List String) (base : TaskPath) :
    (n.make path place (fun m => m) comps).collectNodes base = n.collectNodes base := by
  induction comps generalizing n base with
  | nil => rfl
  | cons name comps ih =>
    rw [make]
    cases hc : n.children.lookup name with
    | some child =>
      simp only
      rw [collectNodes_eq, own_setChildren, children_setChildren, collectNodes_eq n,
        collectChildren_set h.nodup hc (ih (h.child hc) _)]
    | none =>
      simp only
      generalize (if (!comps.isEmpty) = true then n.children.length else _) = i
      rw [collectNodes_eq, own_setChildren, children_setChildren, collectNodes_eq n]
      by_cases hi : i ≤ n.children.length
      · obtain ⟨pre, post, hlist, hinsert⟩ := collectChildren_insertIdx
          (e := (name, new.make path place (fun m => m) comps)) hi base
        rw [hinsert, hlist, ih named_new, collectNodes_new, List.append_nil]
      · rw [List.insertIdx_of_length_lt (Nat.lt_of_not_le hi)]

theorem collectNodes_of_isEmpty (h : n.isEmpty = true) (base : TaskPath) : n.collectNodes base = [] := by
  unfold isEmpty at h
  rw [Bool.and_eq_true, Option.isNone_iff_eq_none, List.isEmpty_iff] at h
  rw [collectNodes_eq, own, h.1, h.2]
  rfl

theorem collectNodes_prune (h : n.Named) (path base : TaskPath) :
    (n.prune path).collectNodes base = n.collectNodes base := by
  induction path generalizing n base with
  | nil => rfl
  | cons name path ih =>
    rw [prune]
    cases hc : n.children.lookup name with
    | none => rfl
    | some child =>
      simp only
      have hchild := ih (h.child hc) (base ++ [name])
      split
      · rename_i hempty
        rw [collectNodes_of_isEmpty hempty] at hchild
        rw [collectNodes_eq, own_setChildren, children_setChildren, collectNodes_eq n,
          collectChildren_remove h.nodup hc hchild.symm]
      · rw [collectNodes_eq, own_setChildren, children_setChildren, collectNodes_eq n,
          collectChildren_set h.nodup hc hchild]

def relocate (src dst : TaskPath) (e : TaskPath × TaskId) : TaskPath × TaskId := (dst ++ e.1.drop src.length, e.2)

theorem collectNodes_relocate {src dst : TaskPath} (hsrc : src ≠ []) (hdst : dst ≠ []) (h : n.Named) (q : TaskPath) :
    n.collectNodes (dst ++ q) = (n.collectNodes (src ++ q)).map (relocate src dst) := by
  induction h generalizing q with
  | @mk task folder children hn hall ih =>
    have hkids : collectChildren children (dst ++ q) =
      (collectChildren children (src ++ q)).map (relocate src dst) := by
      rw [collectChildren_eq, collectChildren_eq, List.map_flatMap]
      refine List.flatMap_congr fun e he => ?_
      rw [List.append_assoc, List.append_assoc]
      exact ih e he (q ++ [e.1])
    have hself (base : TaskPath) (hbase : base ≠ []) : (base ++ q).isRoot = false := by
      cases base with
      | nil => exact absurd rfl hbase
      | cons x l => rfl
    rw [collectNodes, collectNodes, List.map_append, hkids, hself src hsrc, hself dst hdst]
    congr 1
    cases (task <|> folder) with
    | none => rfl
    | some id => simp [relocate]

theorem make_append {at₀ : TaskPath} {x : String} (hw : n.walkTo at₀ = some m) (hc : m.children.lookup x = none)
    (path rest : TaskPath) : n.make path .last (fun m => m) (at₀ ++ x :: rest) =
      n.updateAt (fun m => m.setChildren (m.children ++ [(x, new.make path .last (fun m => m) rest)])) at₀ := by
  induction at₀ generalizing n with
  | nil =>
    obtain rfl : n = m := Option.some.inj hw
    rw [List.nil_append, make, hc]
    simp only [ite_self, List.insertIdx_length_self]
    rfl
  | cons name at₀ ih =>
    rw [walkTo] at hw
    rw [List.cons_append, make, updateAt]
    cases hl : n.children.lookup name with
    | none => rw [hl] at hw; cases hw
    | some child =>
      rw [hl] at hw
      simp only [ih hw]

theorem set_self {child : TrieNode} (hn : (cs.map Prod.fst).Nodup) (hc : cs.lookup name = some child) :
    Children.set cs name child = cs := by
  obtain ⟨l, r, rfl, hl, hr⟩ := Assoc.split hn hc
  exact Assoc.set_around hl hr child

theorem make_of_walkTo (h : n.Named) (hw : n.walkTo q = some m) (path : TaskPath) (place : Place) :
    n.make path place (fun m => m) q = n := by
  induction q generalizing n with
  | nil => rfl
  | cons name q ih =>
    rw [TrieNode.walkTo] at hw
    rw [make]
    cases hl : n.children.lookup name with
    | none => rw [hl] at hw; cases hw
    | some child =>
      rw [hl] at hw
      simp only
      rw [ih (h.child hl) hw, set_self h.nodup hl, setChildren_children]

theorem walkTo_none (h : n.walkTo p = none) : ∃ at₀ x rest m, p = at₀ ++ x :: rest ∧ n.walkTo at₀ = some m ∧
    m.children.lookup x = none := by
  induction p generalizing n with
  | nil => cases h
  | cons name p ih =>
    rw [walkTo] at h
    cases hc : n.children.lookup name with
    | none => exact ⟨[], name, p, n, rfl, rfl, hc⟩
    | some child =>
      rw [hc] at h
      obtain ⟨at₀, x, rest, m, rfl, hw, hx⟩ := ih h
      exact ⟨name :: at₀, x, rest, m, rfl, by rw [walkTo, hc]; exact hw, hx⟩

theorem walkTo_append_none (h : n.walkTo p = none) (q : TaskPath) : n.walkTo (p ++ q) = none := by
  rw [walkTo_append, h]
  rfl

theorem updateAt_congr {f g : TrieNode → TrieNode} (hw : n.walkTo path = some m) (h : f m = g m) :
    n.updateAt f path = n.updateAt g path := by
  induction path generalizing n with
  | nil =>
    obtain rfl : n = m := Option.some.inj hw
    exact h
  | cons name path ih =>
    rw [walkTo] at hw
    rw [updateAt, updateAt]
    cases hc : n.children.lookup name with
    | none => rfl
    | some child =>
      rw [hc] at hw
      simp only [ih hw]

theorem updateAt_updateAt {f g : TrieNode → TrieNode} (h : n.Named) (hw : n.walkTo path = some m) :
    (n.updateAt f path).updateAt g path = n.updateAt (fun m => g (f m)) path := by
  induction path generalizing n with
  | nil => rfl
  | cons name path ih =>
    rw [TrieNode.walkTo] at hw
    cases hc : n.children.lookup name with
    | none => rw [hc] at hw; cases hw
    | some child =>
      rw [hc] at hw
      obtain ⟨l, r, hcs, hl, hr⟩ := Assoc.split h.nodup hc
      have hset : Children.set n.children name (child.updateAt f path) = l ++ (name, child.updateAt f path) :: r := by
        rw [hcs]
        exact Assoc.set_around hl hr _
      have hlook : (l ++ (name, child.updateAt f path) :: r).lookup name = some (child.updateAt f path) := by
        rw [← hset, Children.set, Assoc.lookup_set, if_pos rfl, hc]
        rfl
      rw [updateAt, updateAt, updateAt, hc]
      simp only [children_setChildren, hset, hlook]
      rw [ih (h.child hc) hw, hcs, Children.set, Children.set, Assoc.set_around hl hr, Assoc.set_around hl hr]
      cases n
      rfl

end TrieNode

theorem moveLast_append (cs : Children) (e : String × TrieNode) (i : ℕ) :
    Children.moveLast (cs ++ [e]) i = cs.insertIdx i e := by
  rw [Children.moveLast, List.getLast?_append, List.dropLast_concat]
  rfl

namespace PathTrie

variable {t t' : PathTrie} {src dst : TaskPath} {node : TrieNode} {place : Place} {moved : List Moved}

theorem collect_takenOut (h : t.Movable src dst node) (ht : t.Held []) :
    (t.takenOut src).root.collectNodes [] = (t.root.collectNodes []).filter (fun e => ¬ src <+: e.1) ∧
      node.collectNodes src = (t.root.collectNodes []).filter (fun e => src <+: e.1) := by
  obtain ⟨parent, hparent, hchild⟩ := walkTo_parent h.source h.walk
  obtain ⟨pre, post, hlist, hupdate⟩ := ht.named.context hparent []
  obtain ⟨l, r, hcs, hl, hr⟩ := Assoc.split (ht.named.walkTo hparent).nodup hchild
  have hroot : t.root.collectNodes [] = (pre ++ (parent.own src.dropLast ++ collectChildren l src.dropLast)) ++
      node.collectNodes src ++ (collectChildren r src.dropLast ++ post) := by
    rw [hlist, List.nil_append, TrieNode.collectNodes_eq parent, hcs, collectChildren_append, collectChildren,
      TaskPath.dropLast_append_name h.source]
    simp only [List.append_assoc]
  have hout : (t.takenOut src).root.collectNodes [] =
      (pre ++ (parent.own src.dropLast ++ collectChildren l src.dropLast)) ++
      (collectChildren r src.dropLast ++ post) := by
    refine (hupdate _).trans ?_
    rw [List.nil_append, TrieNode.collectNodes_eq, TrieNode.own_setChildren, TrieNode.children_setChildren, hcs,
      Children.remove, Assoc.erase_around hl hr, collectChildren_append]
    simp only [List.append_assoc]
  have hunder : ∀ e ∈ node.collectNodes src, src <+: e.1 := fun e he => by
    obtain ⟨q, s, -, hq, -⟩ := (TrieNode.mem_collectNodes (ht.named.walkTo h.walk)).mp he
    exact ⟨q, hq.symm⟩
  have hnone : ∀ e ∈ (t.takenOut src).root.collectNodes [], ¬ src <+: e.1 := fun e he hpre => by
    obtain ⟨q, s, hq, hp, -⟩ := (TrieNode.mem_collectNodes (named_takenOut ht src)).mp he
    rw [List.nil_append] at hp
    rw [at_takenOut h, if_pos (hp ▸ hpre)] at hq
    cases hq
  rw [hout] at hnone
  generalize pre ++ (parent.own src.dropLast ++ collectChildren l src.dropLast) = before at hroot hout hnone
  generalize collectChildren r src.dropLast ++ post = after at hroot hout hnone
  rw [List.forall_mem_append] at hnone
  have hkeep (l : List (TaskPath × TaskId)) (hl : ∀ e ∈ l, ¬ src <+: e.1) :
      l.filter (fun e => ¬ src <+: e.1) = l ∧ l.filter (fun e => src <+: e.1) = [] :=
    ⟨List.filter_eq_self.mpr fun e he => decide_eq_true (hl e he),
      List.filter_eq_nil_iff.mpr fun e he => by simpa using hl e he⟩
  have htake : (node.collectNodes src).filter (fun e => ¬ src <+: e.1) = [] ∧
      (node.collectNodes src).filter (fun e => src <+: e.1) = node.collectNodes src :=
    ⟨List.filter_eq_nil_iff.mpr fun e he => by simpa using hunder e he,
      List.filter_eq_self.mpr fun e he => decide_eq_true (hunder e he)⟩
  rw [hout, hroot]
  simp only [List.filter_append, (hkeep _ hnone.1).1, (hkeep _ hnone.1).2, (hkeep _ hnone.2).1, (hkeep _ hnone.2).2,
    htake.1, htake.2, List.append_nil, List.nil_append, and_self]

theorem getLast_takeWhile {P : TaskPath → Bool} {c : TaskPath} {x : String} {rest : TaskPath} (hc : P c = false)
    (hall : ∀ r, r <+: rest → P (c ++ x :: r) = true) :
    (((c ++ x :: rest) :: TaskPath.parents (c ++ x :: rest)).takeWhile P).getLast? = some (c ++ [x]) := by
  induction rest using List.reverseRecOn with
  | nil =>
    rw [TaskPath.parents_append_single, List.takeWhile_cons_of_pos (hall [] (List.prefix_refl _)),
      List.takeWhile_cons_of_neg (by rw [hc]; exact Bool.false_ne_true)]
    rfl
  | append_singleton rest y ih =>
    have hsplit : c ++ x :: (rest ++ [y]) = (c ++ x :: rest) ++ [y] := by simp
    rw [List.takeWhile_cons_of_pos (hall _ (List.prefix_refl _)), hsplit, TaskPath.parents_append_single,
      List.getLast?_cons, ih fun r hr => hall r (hr.trans (List.prefix_append _ _))]
    rfl

theorem made_some {out : PathTrie} {group : TaskPath} (hsrc : src ≠ []) (h : out.made src dst = some group) :
    ∃ x rest, dst.dropLast = src.dropLast ++ x :: rest ∧ group = src.dropLast ++ [x] ∧
      out.root.walkTo group = none := by
  unfold made at h
  rw [Option.filter_eq_some_iff] at h
  obtain ⟨hlast, hparent⟩ := h
  have hmem := List.mem_of_getLast? hlast
  have hgroup := List.mem_takeWhile_imp hmem
  simp only [Bool.and_eq_true, Bool.not_eq_true', Option.isNone_iff_eq_none] at hgroup
  have hne : group ≠ [] := by
    rintro rfl
    cases hgroup.1
  rw [decide_eq_true_iff, parent_of_ne hne, parent_of_ne hsrc] at hparent
  have hsplit := TaskPath.dropLast_append_name hne
  rw [Option.some.inj hparent] at hsplit
  have hpre : group <+: dst.dropLast := by
    rcases List.mem_cons.mp ((List.takeWhile_sublist _).subset hmem) with he | hm
    · exact he ▸ List.prefix_refl _
    · exact (TaskPath.mem_parents.mp hm).1
  obtain ⟨rest, hrest⟩ := hpre
  refine ⟨TaskPath.name group, rest, ?_, hsplit.symm, hgroup.2⟩
  rw [← hrest]
  conv_lhs => rw [← hsplit]
  simp

theorem made_of_walkTo {out : PathTrie} {x : String} {rest : TaskPath} {m : TrieNode} (hsrc : src ≠ [])
    (hdst : dst.dropLast = src.dropLast ++ x :: rest) (hat : out.root.walkTo src.dropLast = some m)
    (hx : m.children.lookup x = none) : out.made src dst = some (src.dropLast ++ [x]) := by
  have hbelow (r : TaskPath) : out.walkTo (src.dropLast ++ x :: r) = none := by
    rw [walkTo, TrieNode.walkTo_append, hat, Option.bind_some, TrieNode.walkTo, hx]
  have hlast := getLast_takeWhile (P := fun group => !TaskPath.isRoot group && (out.walkTo group).isNone)
    (c := src.dropLast) (x := x) ?_ fun r (_ : r <+: rest) => ?_
  · have hne : src.dropLast ++ [x] ≠ [] := by simp
    unfold made
    rw [hdst, hlast, Option.filter_some, parent_of_ne hne, parent_of_ne hsrc, List.dropLast_concat, if_pos]
    exact decide_eq_true rfl
  · rw [show out.walkTo src.dropLast = some m from hat, Option.isNone_some, Bool.and_false]
  · rw [hbelow, Option.isNone_none, Bool.and_true]
    cases src.dropLast <;> rfl

theorem walkTo_source (h : t.Movable src dst node) : ∃ parent,
    (t.takenOut src).root.walkTo src.dropLast = some parent := by
  have hat := at_takenOut h src.dropLast
  have hnot : ¬ src <+: src.dropLast := fun hpre => by
    have hlen := hpre.length_le
    have hpos := List.length_pos_of_ne_nil h.source
    rw [List.length_dropLast] at hlen
    omega
  rw [if_neg hnot] at hat
  obtain ⟨parent, hparent, -⟩ := walkTo_parent h.source h.walk
  rw [TrieNode.at', TrieNode.at', hparent] at hat
  obtain ⟨m, hm, -⟩ := Option.map_eq_some_iff.mp hat
  exact ⟨m, hm⟩

theorem ready_cases (h : t.Movable src dst node) (ht : t.Held []) (place : Place) :
    (∃ m, (t.takenOut src).root.walkTo dst.dropLast = some m ∧ t.ready src dst place = t.takenOut src) ∨
    ∃ at₀ x rest m i, dst.dropLast = at₀ ++ x :: rest ∧ (t.takenOut src).root.walkTo at₀ = some m ∧
      m.children.lookup x = none ∧
      i = (if place = .keep ∧ at₀ = src.dropLast then min (t.indexAt src) m.children.length else m.children.length) ∧
      t.ready src dst place = ⟨(t.takenOut src).root.updateAt (fun m => m.setChildren (m.children.insertIdx i
        (x, TrieNode.new.make dst.dropLast .last (fun n => n) rest))) at₀⟩ := by
  have hnamed := named_takenOut ht src
  have hsrc := walkTo_source h
  cases hw : (t.takenOut src).root.walkTo dst.dropLast with
  | some m =>
    refine .inl ⟨m, rfl, ?_⟩
    have hmade : (t.takenOut src).made src dst = none := by
      unfold made
      rw [List.takeWhile_cons_of_neg]
      · rfl
      · rw [show (t.takenOut src).walkTo dst.dropLast = some m from hw, Option.isNone_some, Bool.and_false]
        exact Bool.false_ne_true
    unfold ready
    simp only [hmade, Option.isSome_none, Bool.false_eq_true, and_false, if_false]
    rw [place_takenOut h ht, TrieNode.make_of_walkTo hnamed hw]
  | none =>
    right
    have hplace {at₀ rest : TaskPath} {x : String} {m : TrieNode} (hdst : dst.dropLast = at₀ ++ x :: rest)
        (hat : (t.takenOut src).root.walkTo at₀ = some m) (hx : m.children.lookup x = none) :
        (t.takenOut src).place dst.dropLast .last = ⟨(t.takenOut src).root.updateAt (fun m => m.setChildren
          (m.children ++ [(x, TrieNode.new.make dst.dropLast .last (fun n => n) rest)])) at₀⟩ := by
      have hmake := TrieNode.make_append hat hx dst.dropLast rest
      rw [← hdst] at hmake
      rw [place_takenOut h ht, hmake]
    have hend (m : TrieNode) (e : String × TrieNode) : m.setChildren (m.children ++ [e]) =
        m.setChildren (m.children.insertIdx m.children.length e) := by
      rw [List.insertIdx_length_self]
    cases hmade : (t.takenOut src).made src dst with
    | some group =>
      obtain ⟨x, rest, hdst, rfl, hnone⟩ := made_some h.source hmade
      obtain ⟨parent, hparent⟩ := hsrc
      have hx : parent.children.lookup x = none := by
        rw [TrieNode.walkTo_append, hparent, Option.bind_some, TrieNode.walkTo] at hnone
        cases hl : parent.children.lookup x with
        | none => rfl
        | some child => rw [hl] at hnone; cases hnone
      refine ⟨src.dropLast, x, rest, parent, _, hdst, hparent, hx, rfl, ?_⟩
      unfold ready
      simp only [hmade, Option.isSome_some, and_true]
      rw [hplace hdst hparent hx]
      split
      · rw [TrieNode.updateAt_updateAt hnamed hparent]
        refine congrArg PathTrie.mk (TrieNode.updateAt_congr hparent ?_)
        simp only [TrieNode.children_setChildren, moveLast_append, List.length_append, List.length_singleton,
          Nat.add_sub_cancel]
        cases parent
        rfl
      · exact congrArg PathTrie.mk (TrieNode.updateAt_congr hparent (hend _ _))
    | none =>
      obtain ⟨at₀, x, rest, m, hdst, hat, hx⟩ := TrieNode.walkTo_none hw
      have hnot : at₀ ≠ src.dropLast := by
        rintro rfl
        rw [made_of_walkTo h.source hdst hat hx] at hmade
        cases hmade
      refine ⟨at₀, x, rest, m, _, hdst, hat, hx, rfl, ?_⟩
      unfold ready
      simp only [hmade, Option.isSome_none, Bool.false_eq_true, and_false, if_false, hnot]
      rw [hplace hdst hat hx]
      exact congrArg PathTrie.mk (TrieNode.updateAt_congr hat (hend _ _))

theorem collect_ready (h : t.Movable src dst node) (ht : t.Held []) (place : Place) :
    (t.ready src dst place).root.collectNodes [] = (t.takenOut src).root.collectNodes [] := by
  rcases ready_cases h ht place with ⟨m, -, hready⟩ | ⟨at₀, x, rest, m, i, -, hat, -, hi, hready⟩
  · rw [hready]
  · have hnamed := named_takenOut ht src
    obtain ⟨pre, post, hlist, hupdate⟩ := hnamed.context hat []
    rw [hready]
    refine (hupdate _).trans ?_
    have hle : i ≤ m.children.length := by
      rw [hi]
      split
      · exact Nat.min_le_right _ _
      · exact le_rfl
    obtain ⟨l, r, hkids, hinsert⟩ := collectChildren_insertIdx
      (e := (x, TrieNode.new.make dst.dropLast .last (fun n => n) rest)) hle ([] ++ at₀)
    have hempty (base : TaskPath) : (TrieNode.new.make dst.dropLast .last (fun n => n) rest).collectNodes base = [] :=
      TrieNode.collectNodes_make TrieNode.named_new _ _ _ _
    rw [hlist, TrieNode.collectNodes_eq, TrieNode.own_setChildren, TrieNode.children_setChildren, hinsert, hempty,
      TrieNode.collectNodes_eq m, hkids, List.append_nil]

theorem collect_emptied (h : t.Movable src dst node) (ht : t.Held []) (place : Place) {parent child : TrieNode}
    (hparent : (t.ready src dst place).root.walkTo dst.dropLast = some parent)
    (hchild : parent.children.lookup (TaskPath.name dst) = some child) : child.collectNodes dst = [] := by
  obtain ⟨hnamed, hspots⟩ := ready_spots h ht place
  have hn := (hnamed.walkTo hparent).child hchild
  refine List.eq_nil_iff_forall_not_mem.mpr fun e he => ?_
  obtain ⟨q, s, hq, -, hs, -⟩ := (TrieNode.mem_collectNodes hn).mp he
  have hat : (t.ready src dst place).root.at' (dst ++ q) = some s := by
    have hsplit : dst ++ q = dst.dropLast ++ TaskPath.name dst :: q := by
      conv_lhs => rw [← TaskPath.dropLast_append_name h.target, List.append_assoc]
      rfl
    rw [hsplit, TrieNode.at_append hparent, TrieNode.at_cons, hchild]
    exact hq
  have hnot : ¬ dst ++ q <+: dst.dropLast := fun hpre => by
    have hlen := hpre.length_le
    have hpos := List.length_pos_of_ne_nil h.target
    rw [List.length_append, List.length_dropLast] at hlen
    omega
  rw [hspots, if_neg hnot, at_takenOut h] at hat
  split at hat
  · cases hat
  · rename_i hsrc
    have hvacant := h.vacant ht (List.prefix_append dst q) hsrc
    rw [content_of_at hat] at hvacant
    rw [hvacant] at hs
    cases hs

theorem putIn_index (node : TrieNode) (name : String) (place : Place) (keep : Option ℕ) (parent : TrieNode) :
    ∃ i ≤ (Children.remove parent.children name).length, putIn node name place keep parent =
      parent.setChildren ((Children.remove parent.children name).insertIdx i (name, node)) := by
  refine ⟨_, ?_, rfl⟩
  cases place with
  | first => exact Nat.zero_le _
  | last => exact le_rfl
  | keep => exact Nat.min_le_right _ _
  | after after =>
    simp only
    cases h : Children.indexOf (Children.remove parent.children name) (TaskPath.name after) with
    | none => exact le_rfl
    | some j => exact TrieNode.indexOf_lt h

theorem collect_put (h : t.Movable src dst node) (ht : t.Held []) (place : Place) : ∃ pre post,
    (t.put src dst place node).root.collectNodes [] = pre ++ node.collectNodes dst ++ post ∧
      pre ++ post = (t.takenOut src).root.collectNodes [] := by
  obtain ⟨hnamed, -⟩ := ready_spots h ht place
  obtain ⟨parent, hparent⟩ := walkTo_ready h ht place
  obtain ⟨pre, post, hlist, hupdate⟩ := hnamed.context hparent []
  have hkids : collectChildren (Children.remove parent.children (TaskPath.name dst)) dst.dropLast =
      collectChildren parent.children dst.dropLast := by
    cases hc : parent.children.lookup (TaskPath.name dst) with
    | none => rw [Children.remove, Assoc.erase_of_notMem (Assoc.notMem_keys hc)]
    | some child =>
      refine TrieNode.collectChildren_remove (hnamed.walkTo hparent).nodup hc ?_
      rw [TaskPath.dropLast_append_name h.target]
      exact collect_emptied h ht place hparent hc
  obtain ⟨i, hi, hput⟩ := putIn_index node (TaskPath.name dst) place
    (if TaskPath.parent src = TaskPath.parent dst then some (t.indexAt src) else none) parent
  obtain ⟨l, r, hsplit, hinsert⟩ := collectChildren_insertIdx (e := (TaskPath.name dst, node)) hi dst.dropLast
  refine ⟨pre ++ (parent.own dst.dropLast ++ l), r ++ post, ?_, ?_⟩
  · refine (hupdate _).trans ?_
    rw [hput, List.nil_append, TrieNode.collectNodes_eq, TrieNode.own_setChildren, TrieNode.children_setChildren,
      hinsert, TaskPath.dropLast_append_name h.target]
    simp only [List.append_assoc]
  · rw [← collect_ready h ht place, hlist, List.nil_append, TrieNode.collectNodes_eq parent, ← hkids, hsplit]
    simp only [List.append_assoc]

theorem moveNode_listing (ht : t.Held []) (hok : t.moveNode src dst place = .ok (t', moved)) : ∃ pre post,
    t'.root.collectNodes [] =
      pre ++ ((t.root.collectNodes []).filter (fun e => src <+: e.1)).map (TrieNode.relocate src dst) ++ post ∧
    pre ++ post = (t.root.collectNodes []).filter (fun e => ¬ src <+: e.1) := by
  obtain ⟨-, node, h, rfl, -⟩ := moveNode_cases hok
  obtain ⟨hout, htaken⟩ := collect_takenOut h ht
  obtain ⟨pre, post, hput, hrest⟩ := collect_put h ht place
  have hmoved := TrieNode.collectNodes_relocate h.source h.target (ht.named.walkTo h.walk) []
  rw [List.append_nil, List.append_nil, htaken] at hmoved
  refine ⟨pre, post, ?_, hrest.trans hout⟩
  rw [← hmoved, ← hput]
  split
  · exact TrieNode.collectNodes_prune (landed_put h ht place).named _ _
  · rfl

theorem lookup_foldl_insert {l : List (TaskPath × TaskId)} {e : TaskPath × TaskId} (hn : (l.map Prod.snd).Nodup)
    (he : e ∈ l) (old : Finmap (fun _ : TaskId => TaskPath)) :
    (l.foldl (fun old e => old.insert e.2 e.1) old).lookup e.2 = some e.1 := by
  induction l generalizing old with
  | nil => cases he
  | cons d l ih =>
    rw [List.map_cons, List.nodup_cons] at hn
    rw [List.foldl_cons]
    rcases List.mem_cons.mp he with rfl | he
    · -- No later one has the id.
      have hkeep (l : List (TaskPath × TaskId)) (hl : e.2 ∉ l.map Prod.snd)
        (old : Finmap (fun _ : TaskId => TaskPath)) :
          (l.foldl (fun old e => old.insert e.2 e.1) old).lookup e.2 = old.lookup e.2 := by
        induction l generalizing old with
        | nil => rfl
        | cons d l ih =>
          rw [List.map_cons, List.mem_cons, not_or] at hl
          rw [List.foldl_cons, ih hl.2, Finmap.lookup_insert_of_ne _ hl.1]
      rw [hkeep l hn.1, Finmap.lookup_insert]
    · exact ih hn.2 he _

theorem takeOld_map {l : List (TaskPath × TaskId)} {f : TaskPath × TaskId → TaskPath × TaskId} (hf : ∀ e, (f e).2 = e.2)
    (hn : (l.map Prod.snd).Nodup) {old : Finmap (fun _ : TaskId => TaskPath)}
    (hold : ∀ e ∈ l, old.lookup e.2 = some e.1) : takeOld old (l.map f) = l.map fun e => ⟨e.2, e.1, (f e).1⟩ := by
  induction l generalizing old with
  | nil => rfl
  | cons d l ih =>
    rw [List.map_cons, List.nodup_cons] at hn
    rw [List.map_cons, takeOld, List.map_cons, hf, hold d List.mem_cons_self, Option.getD_some, ih hn.2]
    intro e he
    have hne : e.2 ≠ d.2 := fun h => hn.1 (h ▸ List.mem_map_of_mem he)
    rw [Finmap.lookup_erase_ne hne]
    exact hold e (List.mem_cons_of_mem _ he)

theorem moveNode_moved (ht : t.Held []) (hok : t.moveNode src dst place = .ok (t', moved))
    (hids : ((t.nodes src).map Prod.snd).Nodup) : moved =
      ((t.root.collectNodes []).filter (fun e => src <+: e.1)).map fun e =>
        ⟨e.2, e.1, (TrieNode.relocate src dst e).1⟩ := by
  obtain ⟨-, node, h, -, rfl⟩ := moveNode_cases hok
  obtain ⟨-, htaken⟩ := collect_takenOut h ht
  have hmoved := TrieNode.collectNodes_relocate h.source h.target (ht.named.walkTo h.walk) []
  rw [List.append_nil, List.append_nil] at hmoved
  have hnodes : t.nodes src = node.collectNodes src := by
    unfold nodes walkTo
    rw [h.walk]
  rw [hnodes] at hids
  rw [← htaken, hmoved]
  apply takeOld_map
  · exact fun _ => rfl
  · exact hids
  · exact fun e he => lookup_foldl_insert hids he ∅

end PathTrie

end Dekit
