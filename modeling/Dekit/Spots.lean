import Dekit.PathTrie
import Dekit.Lib.Assoc

namespace Dekit

/-- What is at a node: a task, a folder. -/
abbrev Spot := Option TaskId × Option TaskId

namespace TrieNode

variable {n m node : TrieNode} {p q path : TaskPath} {name x : String} {f : TrieNode → TrieNode}

def spot (n : TrieNode) : Spot := (n.task, n.folder)

def at' (n : TrieNode) (p : TaskPath) : Option Spot := (n.walkTo p).map spot

/-- Each name is under a node once. -/
inductive Named : TrieNode → Prop
  | mk {task folder : Option TaskId} {children : List (String × TrieNode)} :
      (children.map Prod.fst).Nodup → (∀ e ∈ children, Named e.2) → Named (.mk task folder children)

theorem Named.nodup (h : n.Named) : (n.children.map Prod.fst).Nodup := by
  cases h with
  | mk hn _ => exact hn

theorem Named.child (h : n.Named) (hc : n.children.lookup name = some m) : m.Named := by
  cases h with
  | mk _ hall => exact hall _ (Assoc.mem_of_lookup hc)

theorem Named.setChildren {children : List (String × TrieNode)} (hn : (children.map Prod.fst).Nodup)
    (hall : ∀ e ∈ children, e.2.Named) (n : TrieNode) : (n.setChildren children).Named := by
  cases n
  exact .mk hn hall

theorem Named.all (h : n.Named) : ∀ e ∈ n.children, e.2.Named := by
  cases h with
  | mk _ hall => exact hall

@[simp] theorem children_setChildren (n : TrieNode) (children : List (String × TrieNode)) :
    (n.setChildren children).children = children := by
  cases n
  rfl

@[simp] theorem spot_setChildren (n : TrieNode) (children : List (String × TrieNode)) :
    (n.setChildren children).spot = n.spot := by
  cases n
  rfl

theorem spot_eq_none : n.spot = (none, none) ↔ n.id = none := by
  cases n with
  | mk task folder children => cases task <;> cases folder <;> simp [spot, id, TrieNode.task, TrieNode.folder]

@[simp] theorem at_nil (n : TrieNode) : n.at' [] = some n.spot := rfl

theorem at_cons (n : TrieNode) (name : String) (p : TaskPath) :
    n.at' (name :: p) = (n.children.lookup name).bind (·.at' p) := by
  unfold at'
  rw [walkTo]
  cases n.children.lookup name <;> rfl

theorem indexOf_lt {cs : Children} {i : ℕ} (h : Children.indexOf cs name = some i) : i < cs.length := by
  obtain ⟨hi, -⟩ := List.findIdx?_eq_some_iff_getElem.mp h
  exact hi

theorem walkTo_append (n : TrieNode) (p q : TaskPath) : n.walkTo (p ++ q) = (n.walkTo p).bind (·.walkTo q) := by
  induction p generalizing n with
  | nil => rfl
  | cons name p ih =>
    rw [List.cons_append, walkTo, walkTo]
    cases n.children.lookup name with
    | none => rfl
    | some child => exact ih child

theorem at_append (h : n.walkTo p = some m) (q : TaskPath) : n.at' (p ++ q) = m.at' q := by
  unfold at'
  rw [walkTo_append, h]
  rfl

theorem at_append_none (h : n.at' p = none) (q : TaskPath) : n.at' (p ++ q) = none := by
  unfold at' at h ⊢
  rw [Option.map_eq_none_iff] at h
  rw [walkTo_append, h]
  rfl

theorem at_of_append (h : n.at' (p ++ q) ≠ none) : n.at' p ≠ none := fun hp => h (at_append_none hp q)

theorem Named.walkTo (h : n.Named) (hp : n.walkTo p = some m) : m.Named := by
  induction p generalizing n with
  | nil =>
    obtain rfl : n = m := Option.some.inj hp
    exact h
  | cons name p ih =>
    rw [TrieNode.walkTo] at hp
    cases hc : n.children.lookup name with
    | none =>
      rw [hc] at hp
      cases hp
    | some child =>
      rw [hc] at hp
      exact ih (h.child hc) hp

theorem at_updateAt (hp : n.walkTo path = some m) (p : TaskPath) :
    (n.updateAt f path).at' p = if path <+: p then (f m).at' (p.drop path.length) else n.at' p := by
  induction path generalizing n p with
  | nil =>
    obtain rfl : n = m := Option.some.inj hp
    simp [updateAt]
  | cons name path ih =>
    rw [TrieNode.walkTo] at hp
    cases hc : n.children.lookup name with
    | none =>
      rw [hc] at hp
      cases hp
    | some child =>
      rw [hc] at hp
      rw [updateAt, hc]
      cases p with
      | nil => simp
      | cons x p =>
        simp only
        rw [at_cons, children_setChildren, Children.set, Assoc.lookup_set]
        by_cases hx : x = name
        · subst hx
          simp only [if_true, hc, Option.map_some, Option.bind_some, ih hp, List.cons_prefix_cons, true_and,
            List.length_cons, List.drop_succ_cons, at_cons]
        · have hne : ¬ (name :: path) <+: (x :: p) := fun h => hx (List.cons_prefix_cons.mp h).1.symm
          simp only [hx, if_false, hne, at_cons]

theorem named_set {child : TrieNode} (h : n.Named) (hc : child.Named) :
    (n.setChildren (Children.set n.children name child)).Named := by
  refine .setChildren ?_ ?_ n
  · rw [Children.set, Assoc.keys_set]
    exact h.nodup
  · intro e he
    obtain ⟨e', he', rfl⟩ := List.mem_map.mp he
    split
    · exact hc
    · exact h.all e' he'

theorem named_remove (h : n.Named) (name : String) : (n.setChildren (Children.remove n.children name)).Named := by
  refine .setChildren ?_ ?_ n
  · exact h.nodup.sublist (List.filter_sublist.map Prod.fst)
  · exact fun e he => h.all e (List.mem_of_mem_filter he)

theorem named_updateAt (h : n.Named) (hf : ∀ m, n.walkTo path = some m → (f m).Named) :
    (n.updateAt f path).Named := by
  induction path generalizing n with
  | nil => exact hf n rfl
  | cons name path ih =>
    rw [updateAt]
    cases hc : n.children.lookup name with
    | none => exact h
    | some child =>
      refine named_set h (ih (h.child hc) fun m hm => hf m ?_)
      rw [TrieNode.walkTo, hc]
      exact hm

theorem named_new : new.Named := .mk List.nodup_nil fun _ he => by cases he

theorem named_insertIdx (h : n.Named) (hc : n.children.lookup name = none) (hm : m.Named) (i : ℕ) :
    (n.setChildren (n.children.insertIdx i (name, m))).Named := by
  refine .setChildren (Assoc.nodup_insertIdx h.nodup hc i m) (fun e he => ?_) n
  rcases List.eq_or_mem_of_mem_insertIdx he with rfl | he
  · exact hm
  · exact h.all e he

theorem at_make {φ : Spot → Spot} (hspot : ∀ m, (f m).spot = φ m.spot) (hkids : ∀ m, (f m).children = m.children)
    (path : TaskPath) (place : Place) (n : TrieNode) (comps p : TaskPath) :
    (n.make path place f comps).at' p =
      if p = comps then some (φ ((n.at' comps).getD (none, none)))
      else if p <+: comps then some ((n.at' p).getD (none, none)) else n.at' p := by
  induction comps generalizing n p with
  | nil =>
    rw [make]
    cases p with
    | nil => simp [hspot]
    | cons x p => simp [at_cons, hkids]
  | cons name comps ih =>
    rw [make]
    cases hc : n.children.lookup name with
    | some child =>
      cases p with
      | nil => simp
      | cons x p =>
        simp only
        rw [at_cons, children_setChildren, Children.set, Assoc.lookup_set]
        by_cases hx : x = name
        · subst hx
          simp only [if_true, hc, Option.map_some, Option.bind_some, ih, List.cons.injEq, true_and,
            List.cons_prefix_cons, at_cons]
        · simp [hx, at_cons]
    | none =>
      simp only
      generalize hi : (if !comps.isEmpty then n.children.length else _) = i
      have hle : i ≤ n.children.length := by
        have hafter (name : String) : ((Children.indexOf n.children name).map (· + 1)).getD n.children.length ≤
            n.children.length := by
          cases h : Children.indexOf n.children name with
          | none => exact le_rfl
          | some j => exact indexOf_lt h
        rw [← hi]
        split
        · exact le_rfl
        · cases place with
          | first => exact Nat.zero_le _
          | keep | last => exact le_rfl
          | after after =>
            simp only
            split
            · exact hafter _
            · exact le_rfl
      cases p with
      | nil => simp
      | cons x p =>
        rw [at_cons, children_setChildren, Assoc.lookup_insertIdx hc hle]
        by_cases hx : x = name
        · subst hx
          simp only [if_true, Option.bind_some, ih, List.cons.injEq, true_and, List.cons_prefix_cons, at_cons, hc,
            Option.bind_none, Option.getD_none]
          have hnew (q : TaskPath) : (new.at' q).getD (none, none) = (none, none) := by
            cases q <;> rfl
          rw [hnew, hnew]
          split
          · rfl
          · split
            · rfl
            · cases p with
              | nil => rename_i h; exact absurd List.nil_prefix h
              | cons y p => rfl
        · simp [hx, at_cons]

theorem named_make (h : n.Named) (hf : ∀ m : TrieNode, m.Named → (f m).Named) (path : TaskPath) (place : Place)
    (comps : TaskPath) : (n.make path place f comps).Named := by
  induction comps generalizing n with
  | nil => exact hf n h
  | cons name comps ih =>
    rw [make]
    cases hc : n.children.lookup name with
    | some child => exact named_set h (ih (h.child hc))
    | none => exact named_insertIdx h hc (ih named_new) _

theorem named_prune (h : n.Named) (path : TaskPath) : (n.prune path).Named := by
  induction path generalizing n with
  | nil => exact h
  | cons name path ih =>
    rw [prune]
    cases hc : n.children.lookup name with
    | none => exact h
    | some child =>
      simp only
      split
      · exact named_remove h name
      · exact named_set h (ih (h.child hc))

theorem at_of_isEmpty (h : n.isEmpty = true) (p : TaskPath) :
    n.at' p = if p = [] then some (none, none) else none := by
  simp only [isEmpty, Bool.and_eq_true, Option.isNone_iff_eq_none, List.isEmpty_iff] at h
  cases p with
  | nil => simp [spot_eq_none.mpr h.1]
  | cons x p => simp [at_cons, h.2]

@[simp] theorem spot_prune (n : TrieNode) (path : TaskPath) : (n.prune path).spot = n.spot := by
  cases path with
  | nil => rfl
  | cons name path =>
    rw [prune]
    cases n.children.lookup name with
    | none => rfl
    | some child =>
      simp only
      split <;> exact spot_setChildren _ _

theorem at_prune (n : TrieNode) (path p : TaskPath) : (n.prune path).at' p = n.at' p ∨
    (n.prune path).at' p = none ∧ n.at' p = some (none, none) ∧ p ≠ [] ∧ p <+: path := by
  induction path generalizing n p with
  | nil => exact .inl rfl
  | cons name path ih =>
    rw [prune]
    cases hc : n.children.lookup name with
    | none => exact .inl rfl
    | some child =>
      simp only
      cases p with
      | nil =>
        left
        split <;> simp
      | cons x p =>
        by_cases hx : x = name
        · subst hx
          split
          · rename_i hempty
            have hp := ih child p
            rw [at_of_isEmpty hempty] at hp
            rw [at_cons, children_setChildren, Children.remove, Assoc.lookup_erase, if_pos rfl, at_cons, hc]
            simp only [Option.bind_none, Option.bind_some]
            by_cases hnil : p = []
            · subst hnil
              right
              rcases hp with hp | ⟨hp, -⟩
              · exact ⟨trivial, hp.symm, List.cons_ne_nil _ _, List.cons_prefix_cons.mpr ⟨rfl, List.nil_prefix⟩⟩
              · cases hp
            · rw [if_neg hnil] at hp
              rcases hp with hp | ⟨-, hp, -, hpre⟩
              · exact .inl hp
              · exact .inr ⟨trivial, hp, List.cons_ne_nil _ _, List.cons_prefix_cons.mpr ⟨rfl, hpre⟩⟩
          · rw [at_cons, children_setChildren, Children.set, Assoc.lookup_set, if_pos rfl, at_cons, hc]
            simp only [Option.map_some, Option.bind_some]
            rcases ih child p with hp | ⟨hp, he, -, hpre⟩
            · exact .inl hp
            · exact .inr ⟨hp, he, List.cons_ne_nil _ _, List.cons_prefix_cons.mpr ⟨rfl, hpre⟩⟩
        · left
          split
          · rw [at_cons, children_setChildren, Children.remove, Assoc.lookup_erase, if_neg hx, at_cons]
          · rw [at_cons, children_setChildren, Children.set, Assoc.lookup_set, if_neg hx, at_cons]

theorem prune_live (n : TrieNode) (path : TaskPath) {p : TaskPath} (hne : p ≠ []) (hpre : p <+: path)
    (h : (n.prune path).at' p = some (none, none)) : ∃ x, (n.prune path).at' (p ++ [x]) ≠ none := by
  induction path generalizing n p with
  | nil => exact absurd (List.prefix_nil.mp hpre) hne
  | cons name path ih =>
    cases p with
    | nil => exact absurd rfl hne
    | cons x p =>
      obtain ⟨rfl, hrest⟩ := List.cons_prefix_cons.mp hpre
      rw [prune] at h ⊢
      cases hc : n.children.lookup x with
      | none =>
        rw [hc] at h
        simp [at_cons, hc] at h
      | some child =>
        rw [hc] at h
        simp only at h ⊢
        split at h
        · rw [at_cons, children_setChildren, Children.remove, Assoc.lookup_erase, if_pos rfl] at h
          cases h
        · rename_i hfull
          rw [if_neg hfull]
          rw [at_cons, children_setChildren, Children.set, Assoc.lookup_set, if_pos rfl, hc] at h
          simp only [List.cons_append, at_cons, children_setChildren, Children.set, Assoc.lookup_set, if_pos, hc,
            Option.map_some, Option.bind_some] at h ⊢
          by_cases hnil : p = []
          · subst hnil
            have hid : (child.prune path).id = none := spot_eq_none.mp (Option.some.inj h)
            have hkids : (child.prune path).children ≠ [] := by
              intro hkids
              exact hfull (by simp [isEmpty, hid, hkids])
            obtain ⟨⟨y, m⟩, hym⟩ := List.exists_mem_of_ne_nil _ hkids
            refine ⟨y, ?_⟩
            simp only [List.nil_append, at_cons]
            cases hl : (child.prune path).children.lookup y with
            | none =>
              have := List.lookup_eq_none_iff.mp hl _ hym
              simp at this
            | some m' => simp
          · exact ih child hnil hrest h

theorem at_moveLast (h : n.Named) {i : ℕ} (hi : i ≤ n.children.length - 1) (p : TaskPath) :
    (n.setChildren (Children.moveLast n.children i)).at' p = n.at' p ∧
      (n.setChildren (Children.moveLast n.children i)).Named := by
  have hperm : (Children.moveLast n.children i).Perm n.children := by
    unfold Children.moveLast
    cases hl : n.children.getLast? with
    | none => exact .refl _
    | some e =>
      simp only
      have hle : i ≤ n.children.dropLast.length := by rwa [List.length_dropLast]
      have hlast : n.children.dropLast ++ [e] = n.children := List.dropLast_append_getLast? e hl
      have hback : (e :: n.children.dropLast).Perm n.children := by
        conv_rhs => rw [← hlast]
        exact (List.perm_append_singleton e _).symm
      exact (List.perm_insertIdx e _ hle).trans hback
  constructor
  · cases p with
    | nil => simp
    | cons x p => rw [at_cons, children_setChildren, Assoc.lookup_perm h.nodup hperm.symm, at_cons]
  · refine .setChildren ?_ (fun e he => h.all e (hperm.mem_iff.mp he)) n
    exact (hperm.map Prod.fst).nodup_iff.mpr h.nodup

theorem at_putIn (node : TrieNode) (name : String) (place : Place) (keep : Option ℕ) (n : TrieNode) (p : TaskPath) :
    (PathTrie.putIn node name place keep n).at' p = if [name] <+: p then node.at' (p.drop 1) else n.at' p := by
  unfold PathTrie.putIn
  simp only
  have hnone : (Children.remove n.children name).lookup name = none := by
    rw [Children.remove, Assoc.lookup_erase, if_pos rfl]
  cases p with
  | nil => simp
  | cons x p =>
    rw [at_cons, children_setChildren, Assoc.lookup_insertIdx hnone]
    · by_cases hx : x = name
      · subst hx
        simp
      · have hne : ¬ [name] <+: x :: p := fun h => hx (List.cons_prefix_cons.mp h).1.symm
        rw [if_neg hx, if_neg hne, Children.remove, Assoc.lookup_erase, if_neg hx, at_cons]
    · cases place with
      | first => exact Nat.zero_le _
      | last => exact le_rfl
      | keep => exact Nat.min_le_right _ _
      | after after =>
        simp only
        cases h : Children.indexOf (Children.remove n.children name) (TaskPath.name after) with
        | none => exact le_rfl
        | some j => exact indexOf_lt h

theorem named_putIn (h : n.Named) (hnode : node.Named) (name : String) (place : Place) (keep : Option ℕ) :
    (PathTrie.putIn node name place keep n).Named := by
  unfold PathTrie.putIn
  simp only
  have hrest := named_remove h name
  have hnone : (n.setChildren (Children.remove n.children name)).children.lookup name = none := by
    rw [children_setChildren, Children.remove, Assoc.lookup_erase, if_pos rfl]
  refine .setChildren ?_ (fun e he => ?_) n
  · have hn := hrest.nodup
    rw [children_setChildren] at hn hnone
    exact Assoc.nodup_insertIdx hn hnone _ _
  · rcases List.eq_or_mem_of_mem_insertIdx he with rfl | he
    · exact hnode
    · exact h.all e (List.mem_of_mem_filter he)

end TrieNode

end Dekit
