import Dekit.Transfer
import Dekit.Listed

namespace Dekit

variable {n m : TrieNode} {base p q path : TaskPath} {id : TaskId} {cs : Children} {name : String}

namespace TrieNode

def namesAt (n : TrieNode) (p : TaskPath) : Option (List String) := (n.walkTo p).map fun m => m.children.map Prod.fst

@[simp] theorem namesAt_nil (n : TrieNode) : n.namesAt [] = some (n.children.map Prod.fst) := rfl

theorem namesAt_cons (n : TrieNode) (name : String) (p : TaskPath) :
    n.namesAt (name :: p) = (n.children.lookup name).bind (·.namesAt p) := by
  unfold namesAt
  rw [walkTo]
  cases n.children.lookup name <;> rfl

theorem namesAt_append (h : n.walkTo p = some m) (q : TaskPath) : n.namesAt (p ++ q) = m.namesAt q := by
  unfold namesAt
  rw [walkTo_append, h]
  rfl

theorem namesAt_of_walkTo (h : n.walkTo p = some m) : n.namesAt p = some (m.children.map Prod.fst) := by
  unfold namesAt
  rw [h]
  rfl

theorem names_remove (cs : Children) (name : String) :
    (Children.remove cs name).map Prod.fst = (cs.map Prod.fst).filter (· ≠ name) := by
  rw [List.filter_map]
  rfl

theorem namesAt_updateAt {f : TrieNode → TrieNode} (hp : n.walkTo path = some m) (p : TaskPath) :
    (n.updateAt f path).namesAt p = if path <+: p then (f m).namesAt (p.drop path.length) else n.namesAt p := by
  induction path generalizing n p with
  | nil =>
    obtain rfl : n = m := Option.some.inj hp
    simp [updateAt]
  | cons name path ih =>
    rw [TrieNode.walkTo] at hp
    cases hc : n.children.lookup name with
    | none =>
      rw [hc] at hp
      cases hp
    | some child =>
      rw [hc] at hp
      rw [updateAt, hc]
      cases p with
      | nil => rw [namesAt_nil, children_setChildren, Children.set, Assoc.keys_set, if_neg (by simp), namesAt_nil]
      | cons x p =>
        simp only
        rw [namesAt_cons, children_setChildren, Children.set, Assoc.lookup_set]
        by_cases hx : x = name
        · subst hx
          simp only [if_true, hc, Option.map_some, Option.bind_some, ih hp, List.cons_prefix_cons, true_and,
            List.length_cons, List.drop_succ_cons, namesAt_cons]
        · have hne : ¬ (name :: path) <+: (x :: p) := fun h => hx (List.cons_prefix_cons.mp h).1.symm
          simp only [hx, if_false, hne, namesAt_cons]

theorem walkTo_updateAt {f : TrieNode → TrieNode} (hp : n.walkTo path = some m) :
    (n.updateAt f path).walkTo path = some (f m) := by
  induction path generalizing n with
  | nil =>
    obtain rfl : n = m := Option.some.inj hp
    rfl
  | cons name path ih =>
    rw [TrieNode.walkTo] at hp
    cases hc : n.children.lookup name with
    | none =>
      rw [hc] at hp
      cases hp
    | some child =>
      rw [hc] at hp
      rw [updateAt, hc]
      simp only
      rw [TrieNode.walkTo, children_setChildren, Children.set, Assoc.lookup_set, if_pos rfl, hc]
      exact ih hp

theorem isEmpty_of_child {child : TrieNode} (h : n.children.lookup name = some child) : n.isEmpty = false := by
  unfold isEmpty
  cases hcs : n.children with
  | nil => rw [hcs] at h; cases h
  | cons e cs => exact Bool.and_false _

theorem isEmpty_of_walkTo {x : String} (h : n.walkTo (x :: p) = some m) : n.isEmpty = false := by
  rw [walkTo] at h
  cases hc : n.children.lookup x with
  | none => rw [hc] at h; cases h
  | some child => exact isEmpty_of_child hc

theorem walkTo_prune (h : n.walkTo p = some m) (hfull : (m.prune q).isEmpty = false) :
    (n.prune (p ++ q)).walkTo p = some (m.prune q) := by
  induction p generalizing n with
  | nil =>
    obtain rfl : n = m := Option.some.inj h
    rfl
  | cons name p ih =>
    rw [walkTo] at h
    rw [List.cons_append, prune]
    cases hc : n.children.lookup name with
    | none => rw [hc] at h; cases h
    | some child =>
      rw [hc] at h
      have hchild := ih h
      have hkept : (child.prune (p ++ q)).isEmpty = false := by
        cases p with
        | nil =>
          obtain rfl : child = m := Option.some.inj h
          exact hfull
        | cons y p => exact isEmpty_of_walkTo hchild
      simp only [hkept, Bool.false_eq_true, if_false]
      rw [walkTo, children_setChildren, Children.set, Assoc.lookup_set, if_pos rfl, hc]
      exact hchild

theorem walkTo_prune_aside (h : n.walkTo p = some m) (hp : ¬ p <+: path) (hpath : ¬ path <+: p) :
    (n.prune path).walkTo p = some m := by
  induction path generalizing n p with
  | nil => exact absurd List.nil_prefix hpath
  | cons name path ih =>
    cases p with
    | nil => exact absurd List.nil_prefix hp
    | cons x p =>
      rw [prune]
      cases hc : n.children.lookup name with
      | none => exact h
      | some child =>
        rw [walkTo] at h
        simp only
        by_cases hx : x = name
        · subst hx
          rw [hc] at h
          have hchild := ih h (fun hpre => hp (List.cons_prefix_cons.mpr ⟨rfl, hpre⟩))
            (fun hpre => hpath (List.cons_prefix_cons.mpr ⟨rfl, hpre⟩))
          have hkept : (child.prune path).isEmpty = false := by
            cases p with
            | nil => exact absurd List.nil_prefix fun hpre => hp (List.cons_prefix_cons.mpr ⟨rfl, hpre⟩)
            | cons y p => exact isEmpty_of_walkTo hchild
          rw [if_neg (by rw [hkept]; exact Bool.false_ne_true), walkTo, children_setChildren, Children.set,
            Assoc.lookup_set, if_pos rfl, hc]
          exact hchild
        · split
          · rw [walkTo, children_setChildren, Children.remove, Assoc.lookup_erase, if_neg hx]
            exact h
          · rw [walkTo, children_setChildren, Children.set, Assoc.lookup_set, if_neg hx]
            exact h

theorem namesAt_make_new (path rest : TaskPath) :
    (new.make path .last (fun n => n) rest).namesAt rest = some [] := by
  induction rest with
  | nil => rfl
  | cons name rest ih =>
    have hmake : new.make path .last (fun n => n) (name :: rest) =
        new.setChildren [(name, new.make path .last (fun n => n) rest)] := by
      rw [make]
      simp only [show (new.children.lookup name) = none from rfl, ite_self]
      rfl
    rw [hmake, namesAt_cons, children_setChildren]
    simpa using ih

theorem names_prune (n : TrieNode) (x : String) (q : TaskPath) :
    (n.prune (x :: q)).children.map Prod.fst = n.children.map Prod.fst ∨
      ∃ child, n.children.lookup x = some child ∧ (child.prune q).isEmpty = true ∧
        (n.prune (x :: q)).children = Children.remove n.children x := by
  rw [prune]
  cases hc : n.children.lookup x with
  | none => exact .inl rfl
  | some child =>
    simp only
    split
    · rename_i hempty
      exact .inr ⟨child, rfl, hempty, children_setChildren _ _⟩
    · left
      rw [children_setChildren, Children.set, Assoc.keys_set]

end TrieNode

namespace PathTrie

variable {t t' : PathTrie} {src dst : TaskPath} {node : TrieNode} {place : Place} {moved : List Moved}

def names (t : PathTrie) (group : TaskPath) : List String := (t.root.namesAt group).getD []

theorem Movable.parent_outside (h : t.Movable src dst node) : ¬ src <+: dst.dropLast := fun hpre => by
  by_cases hsd : src = dst
  · have hlen := hpre.length_le
    have hpos := List.length_pos_of_ne_nil h.target
    rw [hsd, List.length_dropLast] at hlen
    omega
  · exact h.outside hsd (hpre.trans (List.dropLast_prefix dst))

theorem namesAt_takenOut (h : t.Movable src dst node) (hp : ¬ src <+: p) : (t.takenOut src).root.namesAt p =
    if p = src.dropLast then some ((t.names p).filter (· ≠ TaskPath.name src)) else t.root.namesAt p := by
  obtain ⟨parent, hparent, -⟩ := walkTo_parent h.source h.walk
  unfold takenOut
  rw [TrieNode.namesAt_updateAt hparent]
  by_cases he : p = src.dropLast
  · rw [if_pos he, if_pos (he ▸ List.prefix_refl _), he, List.drop_length, TrieNode.namesAt_nil,
      TrieNode.children_setChildren, TrieNode.names_remove, names, TrieNode.namesAt_of_walkTo hparent]
    rfl
  · rw [if_neg he]
    split
    · rename_i hpre
      obtain ⟨q, rfl⟩ := hpre
      rw [List.drop_left, TrieNode.namesAt_append hparent]
      cases q with
      | nil => simp at he
      | cons y q =>
        have hy : y ≠ TaskPath.name src := by
          rintro rfl
          refine hp ?_
          conv_lhs => rw [← TaskPath.dropLast_append_name h.source]
          rw [List.prefix_append_right_inj]
          exact List.cons_prefix_cons.mpr ⟨rfl, List.nil_prefix⟩
        rw [TrieNode.namesAt_cons, TrieNode.children_setChildren, Children.remove, Assoc.lookup_erase, if_neg hy,
          TrieNode.namesAt_cons]
    · rfl

theorem names_ready (h : t.Movable src dst node) (ht : t.Held []) {m : TrieNode}
    (hw : (t.ready src dst place).root.walkTo dst.dropLast = some m) : m.children.map Prod.fst =
      if dst.dropLast = src.dropLast then (t.names dst.dropLast).filter (· ≠ TaskPath.name src)
      else t.names dst.dropLast := by
  have hout := namesAt_takenOut h h.parent_outside
  rcases ready_cases h ht place with ⟨m', hm', hready⟩ | ⟨c, x, rest, m', i, hdst, hat, hx, hi, hready⟩
  · rw [hready] at hw
    rw [TrieNode.namesAt_of_walkTo hw] at hout
    split at hout
    · rename_i he
      rw [if_pos he]
      exact Option.some.inj hout
    · rename_i he
      rw [if_neg he, names, ← hout]
      rfl
  · have hnone : (t.takenOut src).root.namesAt dst.dropLast = none := by
      rw [hdst, TrieNode.namesAt_append hat, TrieNode.namesAt_cons, hx]
      rfl
    rw [hnone] at hout
    split at hout
    · cases hout
    · rename_i he
      rw [if_neg he, names, ← hout]
      have hle : i ≤ m'.children.length := by
        rw [hi]
        split
        · exact Nat.min_le_right _ _
        · exact le_rfl
      have hnames := TrieNode.namesAt_of_walkTo hw
      rw [hready, TrieNode.namesAt_updateAt hat, if_pos (hdst ▸ List.prefix_append _ _)] at hnames
      conv_lhs at hnames => rw [hdst]
      rw [List.drop_left, TrieNode.namesAt_cons, TrieNode.children_setChildren, Assoc.lookup_insertIdx hx hle,
        if_pos rfl, Option.bind_some, TrieNode.namesAt_make_new] at hnames
      exact (Option.some.inj hnames).symm

theorem walkTo_put (h : t.Movable src dst node) (ht : t.Held []) (place : Place) : ∃ m,
    (t.ready src dst place).root.walkTo dst.dropLast = some m ∧
      (t.put src dst place node).root.walkTo dst.dropLast = some (putIn node (TaskPath.name dst) place
        (if TaskPath.parent src = TaskPath.parent dst then some (t.indexAt src) else none) m) := by
  obtain ⟨m, hm⟩ := walkTo_ready h ht place
  exact ⟨m, hm, TrieNode.walkTo_updateAt hm⟩

theorem lookup_putIn (node : TrieNode) (name : String) (place : Place) (keep : Option ℕ) (m : TrieNode) :
    (putIn node name place keep m).children.lookup name = some node := by
  obtain ⟨i, hi, hput⟩ := putIn_index node name place keep m
  have hnone : (Children.remove m.children name).lookup name = none := by
    rw [Children.remove, Assoc.lookup_erase, if_pos rfl]
  rw [hput, TrieNode.children_setChildren, Assoc.lookup_insertIdx hnone hi, if_pos rfl]

theorem Movable.prune_full (h : t.Movable src dst node) (ht : t.Held []) (q : TaskPath) :
    (node.prune q).isEmpty = false := by
  obtain ⟨r, hr⟩ := h.found ht
  have hat := at_of_content rfl hr
  rw [h.at_src] at hat
  by_contra hempty
  rw [Bool.not_eq_false] at hempty
  have hnone := TrieNode.at_of_isEmpty hempty r
  rcases TrieNode.at_prune node q r with hsame | ⟨-, hbare, -⟩
  · rw [hsame, hat] at hnone
    split at hnone
    · exact hr (Option.some.inj hnone)
    · cases hnone
  · rw [hbare] at hat
    exact hr (Option.some.inj hat).symm

/-- The names beside the node when it is moved, but for one that the move leaves empty. -/
theorem names_moved (ht : t.Held []) (hok : t.moveNode src dst place = .ok (t', moved)) : ∃ node m w,
    t.Movable src dst node ∧ (t.ready src dst place).root.walkTo dst.dropLast = some m ∧
    w = (putIn node (TaskPath.name dst) place
      (if TaskPath.parent src = TaskPath.parent dst then some (t.indexAt src) else none) m).children.map Prod.fst ∧
    (t'.names dst.dropLast = w ∨ ∃ y, y ≠ TaskPath.name dst ∧ src.dropLast ≠ dst.dropLast ∧
      dst.dropLast ++ [y] <+: src ∧ t'.root.walkTo (dst.dropLast ++ [y]) = none ∧
      t'.names dst.dropLast = w.filter (· ≠ y)) := by
  obtain ⟨-, node, h, rfl, -⟩ := moveNode_cases hok
  obtain ⟨m, hm, hput⟩ := walkTo_put h ht place
  have hchild := lookup_putIn node (TaskPath.name dst) place
    (if TaskPath.parent src = TaskPath.parent dst then some (t.indexAt src) else none) m
  refine ⟨node, m, _, h, hm, rfl, ?_⟩
  generalize putIn node (TaskPath.name dst) place
    (if TaskPath.parent src = TaskPath.parent dst then some (t.indexAt src) else none) m = w at hput hchild
  have hnames {u : PathTrie} {v : TrieNode} (hu : u.root.walkTo dst.dropLast = some v) :
      u.names dst.dropLast = v.children.map Prod.fst := by
    rw [names, TrieNode.namesAt_of_walkTo hu]
    rfl
  split
  · rename_i hne
    rw [parent_of_ne h.source, parent_of_ne h.target] at hne
    have hapart : src.dropLast ≠ dst.dropLast := fun he => hne (congrArg some he)
    by_cases hpre : dst.dropLast <+: src
    · obtain ⟨q, hq⟩ := hpre
      cases q with
      | nil =>
        rw [List.append_nil] at hq
        exact absurd (hq ▸ List.prefix_refl _) h.parent_outside
      | cons y q =>
        rcases TrieNode.names_prune w y q with hsame | ⟨child, hc, hempty, hremoved⟩
        · have hfull : (w.prune (y :: q)).isEmpty = false := by
            by_contra hempty
            rw [Bool.not_eq_false, TrieNode.isEmpty, Bool.and_eq_true, List.isEmpty_iff] at hempty
            rw [hempty.2] at hsame
            have hin := List.mem_map_of_mem (f := Prod.fst) (Assoc.mem_of_lookup hchild)
            rw [← hsame] at hin
            cases hin
          have hwalk := TrieNode.walkTo_prune hput hfull
          rw [hq] at hwalk
          exact .inl ((hnames hwalk).trans hsame)
        · have hy : y ≠ TaskPath.name dst := by
            rintro rfl
            obtain rfl := Option.some.inj (hchild.symm.trans hc)
            rw [h.prune_full ht] at hempty
            cases hempty
          have hkept : (w.prune (y :: q)).children.lookup (TaskPath.name dst) = some node := by
            rw [hremoved, Children.remove, Assoc.lookup_erase, if_neg hy.symm, hchild]
          have hwalk := TrieNode.walkTo_prune hput (TrieNode.isEmpty_of_child hkept)
          rw [hq] at hwalk
          refine .inr ⟨y, hy, hapart, ⟨q, by rw [← hq]; simp⟩, ?_, ?_⟩
          · rw [TrieNode.walkTo_append, show (((t.put src dst place node).prune src).root).walkTo dst.dropLast = _ from hwalk,
              Option.bind_some, TrieNode.walkTo, hremoved, Children.remove, Assoc.lookup_erase, if_pos rfl]
          · refine (hnames hwalk).trans ?_
            rw [hremoved, TrieNode.names_remove]
    · exact .inl (hnames (TrieNode.walkTo_prune_aside hput hpre h.parent_outside))
  · exact .inl (hnames hput)

/-- Where a move puts the node among the names beside it. -/
def Placed (t t' : PathTrie) (src dst : TaskPath) : Place → Prop
  | .first => (t'.names dst.dropLast).head? = some (TaskPath.name dst)
  | .last => (t'.names dst.dropLast).getLast? = some (TaskPath.name dst)
  | .after after => ∃ l r, t'.names dst.dropLast = l ++ TaskPath.name after :: TaskPath.name dst :: r ∨
      -- The group it was to go after held nothing but what was moved.
      t'.walkTo after = none ∧ t.names dst.dropLast = l ++ TaskPath.name after :: r ∧
        t'.names dst.dropLast = l ++ TaskPath.name dst :: r
  | .keep =>
    (src.dropLast = dst.dropLast → ∃ l r, t.names dst.dropLast = l ++ TaskPath.name src :: r ∧
      t'.names dst.dropLast = l ++ TaskPath.name dst :: r) ∧
    (src.dropLast ≠ dst.dropLast → t.walkTo dst ≠ none → t'.names dst.dropLast = t.names dst.dropLast) ∧
    (∀ x rest, dst = src.dropLast ++ x :: rest → rest ≠ [] → t.walkTo (src.dropLast ++ [x]) = none →
      ∃ l r, t.names src.dropLast = l ++ TaskPath.name src :: r ∧ t'.names src.dropLast = l ++ x :: r) ∧
    (src.dropLast ≠ dst.dropLast → t.walkTo dst = none →
      (t'.names dst.dropLast).getLast? = some (TaskPath.name dst))

section placing

variable {m : TrieNode} {keep : Option ℕ}

theorem nodup_putIn (hm : m.Named) (hnode : node.Named) :
    ((putIn node name place keep m).children.map Prod.fst).Nodup := (TrieNode.named_putIn hm hnode _ _ _).nodup

theorem putIn_first : (putIn node name .first keep m).children.map Prod.fst =
    name :: (m.children.map Prod.fst).filter (· ≠ name) := by
  rw [putIn, TrieNode.children_setChildren, List.map_insertIdx, TrieNode.names_remove, List.insertIdx_zero]

theorem insertIdx_end {l : List String} {i : ℕ} (hi : i = l.length) (x : String) : l.insertIdx i x = l ++ [x] := by
  rw [hi, List.insertIdx_length_self]

theorem putIn_last : (putIn node name .last keep m).children.map Prod.fst =
    (m.children.map Prod.fst).filter (· ≠ name) ++ [name] := by
  rw [putIn, TrieNode.children_setChildren, List.map_insertIdx, TrieNode.names_remove]
  simp only
  rw [insertIdx_end (by rw [← TrieNode.names_remove, List.length_map])]

theorem indexOf_around {l r : List String} (hn : (cs.map Prod.fst).Nodup) (hcs : cs.map Prod.fst = l ++ name :: r) :
    Children.indexOf cs name = some l.length := by
  have hi : l.length < cs.length := by
    have hlen := congrArg List.length hcs
    rw [List.length_map, List.length_append, List.length_cons] at hlen
    omega
  have hname : cs[l.length].1 = name := by
    have hget : (cs.map Prod.fst)[l.length]? = some name := by
      rw [hcs, List.getElem?_append_right le_rfl, Nat.sub_self]
      rfl
    rw [List.getElem?_map, List.getElem?_eq_getElem hi] at hget
    exact Option.some.inj hget
  rw [← hname]
  exact TrieNode.indexOf_getElem hn hi

theorem insertIdx_around (l r : List String) (x : String) : (l ++ r).insertIdx l.length x = l ++ x :: r := by
  rw [insertIdx_split (by simp), List.take_left, List.drop_left]

theorem putIn_after (node : TrieNode) (keep : Option ℕ) {after : TaskPath} (hm : m.Named)
    (hin : TaskPath.name after ∈ m.children.map Prod.fst)
    (hne : TaskPath.name after ≠ name) : ∃ l r,
      (m.children.map Prod.fst).filter (· ≠ name) = l ++ TaskPath.name after :: r ∧
      (putIn node name (.after after) keep m).children.map Prod.fst = l ++ TaskPath.name after :: name :: r := by
  have hin' : TaskPath.name after ∈ (m.children.map Prod.fst).filter (· ≠ name) :=
    List.mem_filter.mpr ⟨hin, decide_eq_true hne⟩
  obtain ⟨l, r, hlr⟩ := List.append_of_mem hin'
  refine ⟨l, r, hlr, ?_⟩
  have hremoved : (Children.remove m.children name).map Prod.fst = l ++ TaskPath.name after :: r := by
    rw [TrieNode.names_remove, hlr]
  have hn := (TrieNode.named_remove hm name).nodup
  rw [TrieNode.children_setChildren] at hn
  have hindex := indexOf_around hn hremoved
  have hsplit : l ++ TaskPath.name after :: r = (l ++ [TaskPath.name after]) ++ r := by simp
  have hlen : l.length + 1 = (l ++ [TaskPath.name after]).length := by simp
  rw [putIn, TrieNode.children_setChildren, List.map_insertIdx, hremoved]
  simp only [hindex, Option.map_some, Option.getD_some]
  rw [hsplit, hlen, insertIdx_around]
  simp

theorem putIn_keep {l r : List String} {i : ℕ} (hnames : (m.children.map Prod.fst).filter (· ≠ name) = l ++ r)
    (hi : (keep <|> Children.indexOf m.children name) = some i) (hl : i = l.length) :
    (putIn node name .keep keep m).children.map Prod.fst = l ++ name :: r := by
  have hremoved : (Children.remove m.children name).map Prod.fst = l ++ r := by
    rw [TrieNode.names_remove, hnames]
  have hlen := congrArg List.length hremoved
  rw [List.length_map, List.length_append] at hlen
  rw [putIn, TrieNode.children_setChildren, List.map_insertIdx, hremoved]
  simp only [hi, Option.getD_some, hlen, hl]
  rw [Nat.min_eq_left (Nat.le_add_right _ _), insertIdx_around]

theorem putIn_keep_none (hnone : (keep <|> Children.indexOf m.children name) = none) :
    (putIn node name .keep keep m).children.map Prod.fst = (m.children.map Prod.fst).filter (· ≠ name) ++ [name] := by
  rw [putIn, TrieNode.children_setChildren, List.map_insertIdx, TrieNode.names_remove]
  simp only [hnone, Option.getD_none, Nat.min_self]
  rw [insertIdx_end (by rw [← TrieNode.names_remove, List.length_map])]

end placing

theorem filter_of_notMem {l : List String} {x : String} (h : x ∉ l) : l.filter (· ≠ x) = l :=
  List.filter_eq_self.mpr fun _ hy => decide_eq_true fun he => h (he ▸ hy)

theorem filter_around {l r : List String} {x : String} (hn : (l ++ x :: r).Nodup) :
    (l ++ x :: r).filter (· ≠ x) = l ++ r := by
  rw [List.nodup_append, List.nodup_cons] at hn
  obtain ⟨-, ⟨hr, -⟩, hl⟩ := hn
  rw [List.filter_append, List.filter_cons_of_neg (by simp), filter_of_notMem hr,
    filter_of_notMem fun hin => hl _ hin _ List.mem_cons_self rfl]

theorem mem_names {x : String} : x ∈ t.names p ↔ t.root.at' (p ++ [x]) ≠ none := by
  unfold names TrieNode.namesAt TrieNode.at'
  rw [TrieNode.walkTo_append]
  cases t.root.walkTo p with
  | none => simp
  | some m =>
    rw [Option.map_some, Option.getD_some, Option.bind_some, TrieNode.walkTo]
    cases hl : m.children.lookup x with
    | none =>
      have hnot := Assoc.notMem_keys hl
      simpa using hnot
    | some child =>
      exact iff_of_true (List.mem_map_of_mem (f := Prod.fst) (Assoc.mem_of_lookup hl)) (by simp [TrieNode.walkTo])

theorem nodup_names (ht : t.Held []) (p : TaskPath) : (t.names p).Nodup := by
  unfold names TrieNode.namesAt
  cases hw : t.root.walkTo p with
  | none => exact List.nodup_nil
  | some m => exact (ht.named.walkTo hw).nodup

theorem Movable.mem_source (h : t.Movable src dst node) : TaskPath.name src ∈ t.names src.dropLast := by
  rw [mem_names, TaskPath.dropLast_append_name h.source]
  exact h.here

theorem Movable.indexAt_eq (h : t.Movable src dst node) (ht : t.Held []) : ∃ l r,
    t.names src.dropLast = l ++ TaskPath.name src :: r ∧ t.indexAt src = l.length ∧
      (t.names src.dropLast).filter (· ≠ TaskPath.name src) = l ++ r := by
  obtain ⟨parent, hparent, hchild⟩ := walkTo_parent h.source h.walk
  have hnames : t.names src.dropLast = parent.children.map Prod.fst := by
    rw [names, TrieNode.namesAt_of_walkTo hparent]
    rfl
  obtain ⟨l, r, hlr⟩ := List.append_of_mem h.mem_source
  have hn := nodup_names ht src.dropLast
  refine ⟨l, r, hlr, ?_, ?_⟩
  · unfold indexAt
    rw [show t.walkTo src.dropLast = some parent from hparent, Option.bind_some,
      indexOf_around (ht.named.walkTo hparent).nodup (hnames ▸ hlr), Option.getD_some]
  · rw [hlr] at hn ⊢
    exact filter_around hn

theorem Movable.not_target (h : t.Movable src dst node) (hsd : ¬ dst <+: src) :
    TaskPath.name dst ∉ t.names dst.dropLast := by
  rw [mem_names, TaskPath.dropLast_append_name h.target, not_not]
  have hne : src ≠ dst := by
    rintro rfl
    exact hsd (List.prefix_refl _)
  rcases h.free hne with hfree | hempty
  · exact hfree
  · exact absurd (TaskPath.takeWhile_parents hempty).1 hsd

theorem after_beside {after : TaskPath} (hr : t.moveRefused src dst (.after after) = none) :
    TaskPath.parent after = TaskPath.parent dst ∧ after ≠ src ∧ after ≠ dst ∧ (t.walkTo after).isSome := by
  unfold moveRefused at hr
  split at hr
  · cases hr
  split at hr
  · cases hr
  split at hr
  · cases hr
  split at hr
  · cases hr
  split at hr
  · cases hr
  simp only at hr
  split at hr
  · rename_i hbeside
    exact hbeside
  · cases hr

theorem same_name {x y : String} (hx : p ++ [x] <+: q) (hy : p ++ [y] <+: q) : x = y := by
  have he := (List.prefix_of_prefix_length_le hx hy (by simp)).eq_of_length (by simp)
  exact List.singleton_injective (List.append_cancel_left he)

theorem placed_after {after : TaskPath} (ht : t.Held [])
    (hok : t.moveNode src dst (.after after) = .ok (t', moved)) : t.Placed t' src dst (.after after) := by
  obtain ⟨hr, -⟩ := moveNode_cases hok
  obtain ⟨hparent, hsource, htarget, hthere⟩ := after_beside hr
  obtain ⟨node, m, w, h, hm, hw, hnames⟩ := names_moved ht hok
  have hne : after ≠ [] := by
    rintro rfl
    rw [parent_of_ne h.target] at hparent
    cases hparent
  rw [parent_of_ne hne, parent_of_ne h.target, Option.some.injEq] at hparent
  have hsplit := TaskPath.dropLast_append_name hne
  rw [hparent] at hsplit
  have hdst := TaskPath.dropLast_append_name h.target
  have hin : TaskPath.name after ∈ t.names dst.dropLast := by
    rw [mem_names, hsplit]
    intro hnone
    rw [show t.walkTo after = none from Option.map_eq_none_iff.mp hnone] at hthere
    cases hthere
  have hdiff : TaskPath.name after ≠ TaskPath.name dst := fun he => htarget (by rw [← hsplit, he, hdst])
  have hready := names_ready h ht hm
  have hin' : TaskPath.name after ∈ m.children.map Prod.fst := by
    rw [hready]
    split
    · rename_i he
      refine List.mem_filter.mpr ⟨hin, decide_eq_true fun hname => hsource ?_⟩
      rw [← hsplit, he, hname, TaskPath.dropLast_append_name h.source]
    · exact hin
  have hnamed := (ready_spots h ht (.after after)).1.walkTo hm
  obtain ⟨l, r, hlr, hput⟩ := putIn_after node
    (if TaskPath.parent src = TaskPath.parent dst then some (t.indexAt src) else none) hnamed hin' hdiff
  rw [← hw] at hput
  rcases hnames with hsame | ⟨y, hy, hapart, hpre, hgone, hfilter⟩
  · exact ⟨l, r, .inl (hsame.trans hput)⟩
  · by_cases hya : y = TaskPath.name after
    · subst hya
      have hnot : ¬ dst <+: src := fun hds => hy (same_name hpre (hdst.symm ▸ hds))
      rw [if_neg fun he => hapart he.symm] at hready
      rw [hready, filter_of_notMem (h.not_target hnot)] at hlr
      have hn : w.Nodup := hw ▸ nodup_putIn hnamed (ht.named.walkTo h.walk)
      rw [hput] at hn hfilter
      exact ⟨l, r, .inr ⟨hsplit ▸ hgone, hlr, hfilter.trans (filter_around hn)⟩⟩
    · refine ⟨l.filter (· ≠ y), r.filter (· ≠ y), .inl ?_⟩
      rw [hfilter, hput, List.filter_append, List.filter_cons_of_pos (by simpa using Ne.symm hya),
        List.filter_cons_of_pos (by simpa using hy.symm)]

theorem placed_first (ht : t.Held []) (hok : t.moveNode src dst .first = .ok (t', moved)) :
    t.Placed t' src dst .first := by
  obtain ⟨node, m, w, h, hm, hw, hnames⟩ := names_moved ht hok
  rw [putIn_first] at hw
  rcases hnames with hsame | ⟨y, hy, -, -, -, hfilter⟩
  · rw [Placed, hsame, hw]
    rfl
  · rw [Placed, hfilter, hw, List.filter_cons_of_pos (by simpa using hy.symm)]
    rfl

theorem getLast_moved {l w : List String} (hw : w = l ++ [TaskPath.name dst]) (hnames : t'.names dst.dropLast = w ∨
    ∃ y, y ≠ TaskPath.name dst ∧ src.dropLast ≠ dst.dropLast ∧ dst.dropLast ++ [y] <+: src ∧
      t'.root.walkTo (dst.dropLast ++ [y]) = none ∧ t'.names dst.dropLast = w.filter (· ≠ y)) :
    (t'.names dst.dropLast).getLast? = some (TaskPath.name dst) := by
  rcases hnames with hsame | ⟨y, hy, -, -, -, hfilter⟩
  · rw [hsame, hw, List.getLast?_concat]
  · rw [hfilter, hw, List.filter_append, List.filter_cons_of_pos (by simpa using hy.symm), List.filter_nil,
      List.getLast?_concat]

theorem placed_last (ht : t.Held []) (hok : t.moveNode src dst .last = .ok (t', moved)) :
    t.Placed t' src dst .last := by
  obtain ⟨node, m, w, h, hm, hw, hnames⟩ := names_moved ht hok
  rw [putIn_last] at hw
  exact getLast_moved hw hnames

theorem keep_beside (ht : t.Held []) (hok : t.moveNode src dst .keep = .ok (t', moved))
    (hsame : src.dropLast = dst.dropLast) : ∃ l r, t.names dst.dropLast = l ++ TaskPath.name src :: r ∧
      t'.names dst.dropLast = l ++ TaskPath.name dst :: r := by
  obtain ⟨node, m, w, h, hm, hw, hnames⟩ := names_moved ht hok
  have hready := names_ready h ht hm
  obtain ⟨l, r, hlr, hindex, hfilter⟩ := h.indexAt_eq ht
  rw [if_pos hsame.symm, ← hsame, hfilter] at hready
  rw [if_pos (by rw [parent_of_ne h.source, parent_of_ne h.target, hsame])] at hw
  have hnot : TaskPath.name dst ∉ l ++ r := by
    by_cases hsd : src = dst
    · rw [← hsd, ← hfilter]
      intro hin
      have hname := List.of_mem_filter hin
      simp at hname
    · have hpre : ¬ dst <+: src := fun hpre => hsd ((hpre.eq_of_length ?_).symm)
      · have hnot := h.not_target hpre
        rw [← hsame, hlr] at hnot
        exact fun hin => hnot (((List.sublist_cons_self _ r).append_left l).subset hin)
      · have hlen := congrArg List.length hsame
        have hs := List.length_pos_of_ne_nil h.source
        have hd := List.length_pos_of_ne_nil h.target
        rw [List.length_dropLast, List.length_dropLast] at hlen
        omega
  rw [putIn_keep (by rw [hready, filter_of_notMem hnot]) rfl hindex] at hw
  rcases hnames with hnames | ⟨-, -, hapart, -⟩
  · exact ⟨l, r, hsame ▸ hlr, hnames.trans hw⟩
  · exact absurd hsame hapart

theorem keep_emptied (ht : t.Held []) (hok : t.moveNode src dst .keep = .ok (t', moved))
    (hapart : src.dropLast ≠ dst.dropLast) (hthere : t.walkTo dst ≠ none) :
    t'.names dst.dropLast = t.names dst.dropLast := by
  obtain ⟨node, m, w, h, hm, hw, hnames⟩ := names_moved ht hok
  have hready := names_ready h ht hm
  rw [if_neg hapart.symm] at hready
  have hsd : src ≠ dst := fun he => hapart (he ▸ rfl)
  have hdst := TaskPath.dropLast_append_name h.target
  have hat : t.root.at' dst ≠ none := fun hnone => hthere (Option.map_eq_none_iff.mp hnone)
  have hpre := (TaskPath.takeWhile_parents ((h.free hsd).resolve_left hat)).1
  have hin : TaskPath.name dst ∈ t.names dst.dropLast := by
    rw [mem_names, hdst]
    exact hat
  obtain ⟨l, r, hlr⟩ := List.append_of_mem hin
  have hn := nodup_names ht dst.dropLast
  have hindex := indexOf_around ((ready_spots h ht .keep).1.walkTo hm).nodup (hready.trans hlr)
  rw [if_neg (by rw [parent_of_ne h.source, parent_of_ne h.target]; exact fun he => hapart (Option.some.inj he)),
    putIn_keep (by rw [hready, hlr]; exact filter_around (hlr ▸ hn)) hindex rfl, ← hlr] at hw
  rcases hnames with hnames | ⟨y, hy, -, hyp, -⟩
  · exact hnames.trans hw
  · exact absurd (same_name hyp (hdst.symm ▸ hpre)) hy

theorem keep_elsewhere (ht : t.Held []) (hok : t.moveNode src dst .keep = .ok (t', moved))
    (hapart : src.dropLast ≠ dst.dropLast) (hfree : t.walkTo dst = none) :
    (t'.names dst.dropLast).getLast? = some (TaskPath.name dst) := by
  obtain ⟨node, m, w, h, hm, hw, hnames⟩ := names_moved ht hok
  have hready := names_ready h ht hm
  rw [if_neg hapart.symm] at hready
  have hnot : TaskPath.name dst ∉ m.children.map Prod.fst := by
    rw [hready, mem_names, TaskPath.dropLast_append_name h.target, not_not]
    exact Option.map_eq_none_iff.mpr hfree
  have hindex : Children.indexOf m.children (TaskPath.name dst) = none :=
    List.findIdx?_eq_none_iff.mpr fun e he => by
      rw [decide_eq_false_iff_not]
      exact fun hname => hnot (hname ▸ List.mem_map_of_mem he)
  rw [if_neg (by rw [parent_of_ne h.source, parent_of_ne h.target]; exact fun he => hapart (Option.some.inj he)),
    putIn_keep_none hindex] at hw
  exact getLast_moved hw hnames

theorem ready_made (h : t.Movable src dst node) (ht : t.Held []) {x : String} {rest l r : List String}
    (hgroup : dst.dropLast = src.dropLast ++ [x] ++ rest) (hfree : t.walkTo (src.dropLast ++ [x]) = none)
    (hindex : t.indexAt src = l.length)
    (hfilter : (t.names src.dropLast).filter (· ≠ TaskPath.name src) = l ++ r) :
    (t.ready src dst .keep).root.namesAt src.dropLast = some (l ++ x :: r) := by
  obtain ⟨parent, hparent⟩ := walkTo_source h
  have hnone : (t.takenOut src).root.walkTo (src.dropLast ++ [x]) = none := by
    have hat := at_takenOut h (src.dropLast ++ [x])
    rw [TrieNode.at', TrieNode.at', show t.root.walkTo (src.dropLast ++ [x]) = none from hfree, Option.map_none,
      ite_self] at hat
    exact Option.map_eq_none_iff.mp hat
  rcases ready_cases h ht .keep with ⟨m, hm, -⟩ | ⟨c, y, rest', m, i, hc, hat, hy, hi, hready⟩
  · rw [hgroup, TrieNode.walkTo_append_none hnone] at hm
    cases hm
  · have hgone : (t.takenOut src).root.walkTo (c ++ [y]) = none := by
      rw [TrieNode.walkTo_append, hat, Option.bind_some, TrieNode.walkTo, hy]
    have hcy : c ++ [y] <+: dst.dropLast := hc ▸ ⟨rest', by simp⟩
    have hsx : src.dropLast ++ [x] <+: dst.dropLast := hgroup ▸ List.prefix_append _ _
    have hlen : c.length = src.dropLast.length := by
      by_contra hne
      rcases Nat.lt_or_gt_of_ne hne with hlt | hgt
      · obtain ⟨q, hq⟩ := List.prefix_of_prefix_length_le hcy ((List.prefix_append _ [x]).trans hsx)
          (by simp only [List.length_append, List.length_singleton]; omega)
        rw [← hq, TrieNode.walkTo_append_none hgone] at hparent
        cases hparent
      · obtain ⟨q, hq⟩ := List.prefix_of_prefix_length_le hsx ((List.prefix_append _ [y]).trans hcy)
          (by simp only [List.length_append, List.length_singleton]; omega)
        rw [← hq, TrieNode.walkTo_append_none hnone] at hat
        cases hat
    obtain rfl : c = src.dropLast :=
      (List.prefix_of_prefix_length_le ((List.prefix_append _ [y]).trans hcy) ((List.prefix_append _ [x]).trans hsx)
        hlen.le).eq_of_length hlen
    obtain rfl : y = x := same_name hcy hsx
    have hnames := namesAt_takenOut h (p := src.dropLast) fun hpre => by
      have hle := hpre.length_le
      have hpos := List.length_pos_of_ne_nil h.source
      rw [List.length_dropLast] at hle
      omega
    rw [if_pos rfl, hfilter, TrieNode.namesAt_of_walkTo hat] at hnames
    have hkids := Option.some.inj hnames
    have hlen := congrArg List.length hkids
    rw [List.length_map, List.length_append] at hlen
    rw [if_pos ⟨rfl, rfl⟩, hindex, hlen, Nat.min_eq_left (Nat.le_add_right _ _)] at hi
    rw [hready, TrieNode.namesAt_updateAt hat, if_pos (List.prefix_refl _), List.drop_length, TrieNode.namesAt_nil,
      TrieNode.children_setChildren, List.map_insertIdx, hkids, hi, insertIdx_around]

theorem keep_made (ht : t.Held []) (hok : t.moveNode src dst .keep = .ok (t', moved)) {x : String} {rest : TaskPath}
    (hdst : dst = src.dropLast ++ x :: rest) (hrest : rest ≠ []) (hfree : t.walkTo (src.dropLast ++ [x]) = none) :
    ∃ l r, t.names src.dropLast = l ++ TaskPath.name src :: r ∧ t'.names src.dropLast = l ++ x :: r := by
  obtain ⟨-, node, h, rfl, -⟩ := moveNode_cases hok
  obtain ⟨l, r, hlr, hindex, hfilter⟩ := h.indexAt_eq ht
  have hsplit := TaskPath.dropLast_append_name h.source
  have hgroup : dst.dropLast = src.dropLast ++ [x] ++ rest.dropLast := by
    conv_lhs => rw [hdst]
    rw [List.dropLast_append_of_ne_nil (List.cons_ne_nil _ _), List.dropLast_cons_of_ne_nil hrest]
    simp
  have hx : x ≠ TaskPath.name src := by
    rintro rfl
    rw [hsplit, show t.walkTo src = some node from h.walk] at hfree
    cases hfree
  have hput : (t.put src dst .keep node).root.namesAt src.dropLast = some (l ++ x :: r) := by
    obtain ⟨m, hm⟩ := walkTo_ready h ht .keep
    have hnot : ¬ dst.dropLast <+: src.dropLast := fun hpre => by
      have hle := hpre.length_le
      rw [hgroup] at hle
      simp at hle
    rw [put, TrieNode.namesAt_updateAt hm, if_neg hnot]
    exact ready_made h ht hgroup hfree hindex hfilter
  obtain ⟨w, hw, hnames⟩ := Option.map_eq_some_iff.mp hput
  have hlook : w.children.lookup (TaskPath.name src) = none := by
    have hnot : TaskPath.name src ∉ w.children.map Prod.fst := by
      have hn : TaskPath.name src ∉ l ++ r := by
        rw [← hfilter]
        intro hin
        have hname := List.of_mem_filter hin
        simp at hname
      rw [hnames]
      rw [List.mem_append, not_or] at hn
      simp [hn, hx.symm]
    rw [List.lookup_eq_none_iff]
    intro e he
    have hne : TaskPath.name src ≠ e.1 := by
      intro hname
      rw [hname] at hnot
      exact hnot (List.mem_map_of_mem he)
    simpa using hne
  have hprune : w.prune [TaskPath.name src] = w := by
    rw [TrieNode.prune, hlook]
  have hfull : (w.prune [TaskPath.name src]).isEmpty = false := by
    rw [hprune, TrieNode.isEmpty]
    cases hkids : w.children with
    | nil => rw [hkids] at hnames; simp at hnames
    | cons e cs => exact Bool.and_false _
  have hwalk := TrieNode.walkTo_prune hw hfull
  rw [hsplit, hprune] at hwalk
  have hapart : TaskPath.parent src ≠ TaskPath.parent dst := by
    rw [parent_of_ne h.source, parent_of_ne h.target, hgroup]
    intro he
    have hlen := congrArg List.length (Option.some.inj he)
    simp at hlen
  refine ⟨l, r, hlr, ?_⟩
  rw [if_pos hapart, names,
    show ((t.put src dst .keep node).prune src).root.namesAt src.dropLast = some (l ++ x :: r) from
    (TrieNode.namesAt_of_walkTo hwalk).trans (congrArg some hnames)]
  rfl

theorem moveNode_placed (ht : t.Held []) (hok : t.moveNode src dst place = .ok (t', moved)) :
    t.Placed t' src dst place := by
  cases place with
  | first => exact placed_first ht hok
  | last => exact placed_last ht hok
  | after after => exact placed_after ht hok
  | keep =>
    exact ⟨fun hsame => keep_beside ht hok hsame, fun hapart hthere => keep_emptied ht hok hapart hthere,
      fun x rest hdst hrest hfree => keep_made ht hok hdst hrest hfree,
      fun hapart hfree => keep_elsewhere ht hok hapart hfree⟩

def under (t : PathTrie) (path : TaskPath) : List (TaskPath × TaskId) :=
  (t.nodes TaskPath.root).filter (fun e => path <+: e.1)

def aside (t : PathTrie) (path : TaskPath) : List (TaskPath × TaskId) :=
  (t.nodes TaskPath.root).filter (fun e => ¬ path <+: e.1)

theorem aside_vacant (ht : t.Held []) (h : t.Movable src dst node) : ∀ e ∈ t.aside src, ¬ dst <+: e.1 := by
  intro e he hpre
  obtain ⟨hin, hnot⟩ := List.mem_filter.mp he
  obtain ⟨q, s, hq, hp, hs, -⟩ := (TrieNode.mem_collectNodes ht.named).mp hin
  rw [TaskPath.root, List.nil_append] at hp
  have hvacant := h.vacant ht hpre (of_decide_eq_true hnot)
  rw [hp, content_of_at hq] at hvacant
  rw [hvacant] at hs
  cases hs

/-- What a move that is not refused does. -/
theorem moved_as_asked (h : Built [] t) (hok : t.moveNode src dst place = .ok (t', moved)) :
    t'.under dst = (t.under src).map (TrieNode.relocate src dst) ∧
    (∃ pre post, t'.nodes TaskPath.root = pre ++ t'.under dst ++ post ∧ pre ++ post = t.aside src) ∧
    moved.map (fun m => (m.dst, m.id)) = t'.under dst ∧
    (((t.nodes src).map Prod.snd).Nodup →
      moved = (t.under src).map fun e => ⟨e.2, e.1, (TrieNode.relocate src dst e).1⟩) ∧
    t.Placed t' src dst place := by
  have ht := h.held.1
  obtain ⟨-, node, hm, -, hmoved⟩ := moveNode_cases hok
  obtain ⟨pre, post, hlist, hrest⟩ := moveNode_listing ht hok
  have hvacant := aside_vacant ht hm
  rw [show t.aside src = pre ++ post from hrest.symm, List.forall_mem_append] at hvacant
  have hkeep (l : List (TaskPath × TaskId)) (hl : ∀ e ∈ l, ¬ dst <+: e.1) : l.filter (fun e => dst <+: e.1) = [] :=
    List.filter_eq_nil_iff.mpr fun e he => by simpa using hl e he
  have hall : ((t.under src).map (TrieNode.relocate src dst)).filter (fun e => dst <+: e.1) =
      (t.under src).map (TrieNode.relocate src dst) := by
    refine List.filter_eq_self.mpr fun e he => ?_
    obtain ⟨e', -, rfl⟩ := List.mem_map.mp he
    exact decide_eq_true (List.prefix_append _ _)
  have hunder : t'.under dst = (t.under src).map (TrieNode.relocate src dst) := by
    rw [under, show t'.nodes TaskPath.root = pre ++ (t.under src).map (TrieNode.relocate src dst) ++ post from hlist,
      List.filter_append, List.filter_append, hkeep pre hvacant.1, hkeep post hvacant.2, hall, List.nil_append,
      List.append_nil]
  have hpairs : moved.map (fun m => (m.dst, m.id)) = t'.under dst := by
    obtain ⟨-, htaken⟩ := collect_takenOut hm ht
    have hnode := TrieNode.collectNodes_relocate hm.source hm.target (ht.named.walkTo hm.walk) []
    rw [List.append_nil, List.append_nil, htaken] at hnode
    rw [hmoved, takeOld_pairs, hnode, hunder]
    rfl
  exact ⟨hunder, ⟨pre, post, hunder ▸ hlist, hrest⟩, hpairs, moveNode_moved ht hok, moveNode_placed ht hok⟩

def tidied : PathTrie :=
  ⟨.mk none none [("a", .mk none (some 1) [("b", .mk (some 2) none []), ("c", .mk (some 3) none [])])]⟩

theorem moved_as_asked_shelf : tidied.under ["a", "c"] = [(["a", "c"], 3)] ∧
    shelf.Placed tidied ["c"] ["a", "c"] (.after ["a", "b"]) := by
  have hok : shelf.moveNode ["c"] ["a", "c"] (.after ["a", "b"]) = .ok (tidied, [⟨3, ["c"], ["a", "c"]⟩]) := rfl
  obtain ⟨hunder, -, -, -, hplaced⟩ := moved_as_asked built_shelf hok
  exact ⟨hunder, hplaced⟩

/-- One id at two paths, the second one the only name in its group. -/
def doubled : PathTrie :=
  ⟨.mk none none [("a", .mk none none [("b", .mk (some 1) none []), ("c", .mk (some 1) none [])]),
    ("d", .mk none none [("e", .mk (some 2) none [])])]⟩

theorem built_doubled : Built [] doubled := by
  let one : PathTrie := ⟨.mk none none [("a", .mk none none [("b", .mk (some 1) none [])])]⟩
  let two : PathTrie :=
    ⟨.mk none none [("a", .mk none none [("b", .mk (some 1) none []), ("c", .mk (some 1) none [])])]⟩
  have h₁ : PathTrie.new.insert ["a", "b"] 1 .last = .ok one := rfl
  have h₂ : one.insert ["a", "c"] 1 .last = .ok two := rfl
  have h₃ : two.insert ["d", "e"] 2 .last = .ok doubled := rfl
  exact .insert (.insert (.insert .new (by decide) h₁) (by decide) h₂) (by decide) h₃

/-- The map of old paths has an id once, and the group to go after may be emptied by the move. -/
theorem moved_otherwise : Built [] doubled ∧
    (∃ t', doubled.moveNode ["a"] ["f"] .last =
        .ok (t', [⟨1, ["a", "c"], ["f", "b"]⟩, ⟨1, ["f", "c"], ["f", "c"]⟩]) ∧
      doubled.under ["a"] = [(["a", "b"], 1), (["a", "c"], 1)]) ∧
    ∃ t' moved, doubled.moveNode ["d", "e"] ["f"] (.after ["d"]) = .ok (t', moved) ∧
      t'.names [] = ["a", "f"] ∧ t'.walkTo ["d"] = none :=
  ⟨built_doubled, ⟨_, rfl, rfl⟩, _, _, rfl, rfl, rfl⟩

end PathTrie

theorem Graph.Listed.nodup_ids {τ : Type} {g : Graph τ} {pending : TaskSpaceId → List TaskPath} (h : g.Listed pending)
    (s : TaskSpaceId) (p : TaskPath) : (((g.trie s).nodes p).map Prod.snd).Nodup := by
  unfold PathTrie.nodes
  cases hw : (g.trie s).walkTo p with
  | none => exact List.nodup_nil
  | some m =>
    have hm := (h.held s).named.walkTo hw
    have hpath {e : TaskPath × TaskId} (he : e ∈ m.collectNodes p) :
        ((g.tasks.lookup e.2).map TaskHandle.home = some (s, some e.1)) ∨
          e.2 ∉ g.tasks ∧ (g.folders.lookup e.2).map (fun f => (f.space, f.path)) = some (s, e.1) := by
      obtain ⟨q, spot, hq, hp, hid, -⟩ := (TrieNode.mem_collectNodes hm).mp he
      have hcontent : (g.trie s).content e.1 = spot := by
        rw [hp]
        exact PathTrie.content_of_at ((TrieNode.at_append hw q).trans hq)
      rw [Option.orElse_eq_some] at hid
      rcases hid with htask | ⟨-, hfolder⟩
      · exact .inl ((h.tasks s e.1 e.2).mp (hcontent ▸ htask))
      · have hf := (h.folders s e.1 e.2).mp (hcontent ▸ hfolder)
        refine .inr ⟨fun ht => h.apart e.2 ht ?_, hf⟩
        obtain ⟨f, hlook, -⟩ := Option.map_eq_some_iff.mp hf
        exact Finmap.mem_of_lookup_eq_some hlook
    rw [List.nodup_iff_pairwise_ne, List.pairwise_map]
    refine (hm.sorted p).imp_of_mem fun {a b} ha hb hab he => ?_
    have hsame : a.1 = b.1 := by
      rcases hpath ha with ha | ⟨hna, ha⟩
      · rcases hpath hb with hb | ⟨hnb, -⟩
        · rw [he, hb] at ha
          simpa using ha.symm
        · obtain ⟨t, ht, -⟩ := Option.map_eq_some_iff.mp ha
          exact absurd (he ▸ Finmap.mem_of_lookup_eq_some ht) hnb
      · rcases hpath hb with hb | ⟨-, hb⟩
        · obtain ⟨t, ht, -⟩ := Option.map_eq_some_iff.mp hb
          exact absurd (he ▸ Finmap.mem_of_lookup_eq_some ht) hna
        · rw [he, hb] at ha
          simpa using ha.symm
    obtain ⟨q, r, u, v, hq, hr, hu, hv, huv⟩ := hab
    obtain rfl : q = r := List.append_cancel_left (hq.symm.trans (hsame.trans hr))
    obtain rfl := Option.some.inj (hu.symm.trans hv)
    exact lt_irrefl u huv

end Dekit
