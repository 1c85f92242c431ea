import Dekit.Namespace
import Dekit.Lib.Assoc

/-! What a `SubTrie` stores, and whom it reaches. -/

namespace Dekit

namespace SubNode

variable {n m child : SubNode} {p q : List String} {name : String} {subscriber x : TaskId} {mode mode' : SubMode}

def walkTo : SubNode → List String → Option SubNode
  | n, [] => some n
  | n, name :: rest => match n.children.lookup name with
    | some child => child.walkTo rest
    | none => none

def set (n : SubNode) : SubMode → Finset TaskId
  | .exact => n.exact
  | .subtree => n.subtree

def stored (n : SubNode) (mode : SubMode) (p : List String) : Finset TaskId :=
  match n.walkTo p with
  | some m => m.set mode
  | none => ∅

theorem stored_some (h : n.children.lookup name = some child) (mode : SubMode) (p : List String) :
    n.stored mode (name :: p) = child.stored mode p := by
  unfold stored
  rw [walkTo, h]

theorem stored_none (h : n.children.lookup name = none) (mode : SubMode) (p : List String) :
    n.stored mode (name :: p) = ∅ := by
  unfold stored
  rw [walkTo, h]

theorem stored_empty (mode : SubMode) (p : List String) : empty.stored mode p = ∅ := by
  cases p with
  | nil => cases mode <;> rfl
  | cons name p => exact stored_none rfl mode p

theorem isEmpty_iff (n : SubNode) : n.isEmpty = true ↔ n = empty := by
  cases n with
  | mk exact subtree children =>
    unfold isEmpty empty
    rw [Bool.and_eq_true, Bool.and_eq_true, decide_eq_true_eq, decide_eq_true_eq, List.isEmpty_iff, SubNode.mk.injEq,
      and_assoc]
    rfl

theorem lookup_setChild (n : SubNode) (name : String) (child : SubNode) (x : String) :
    (n.setChild name child).children.lookup x = if x = name then some child else n.children.lookup x := by
  unfold setChild
  split
  · rename_i h
    change (n.children.map _).lookup x = _
    rw [Assoc.lookup_set]
    split
    · obtain ⟨old, hold⟩ := Option.isSome_iff_exists.mp h
      rename_i hx
      rw [hx, hold]
      rfl
    · rfl
  · rename_i h
    rw [Option.not_isSome_iff_eq_none] at h
    change (n.children ++ [(name, child)]).lookup x = _
    rw [List.lookup_append]
    split
    · rename_i hx
      rw [hx, h]
      simp
    · rename_i hx
      have hlast : [(name, child)].lookup x = none := by simp [hx]
      rw [hlast, Option.or_none]

theorem set_setChild (n : SubNode) (name : String) (child : SubNode) (mode : SubMode) :
    (n.setChild name child).set mode = n.set mode := by
  unfold setChild
  split <;> cases mode <;> rfl

theorem stored_setChild (n : SubNode) (name : String) (child : SubNode) (mode : SubMode) (p : List String) :
    (n.setChild name child).stored mode p = match p with
      | [] => n.set mode
      | x :: rest => if x = name then child.stored mode rest else n.stored mode (x :: rest) := by
  cases p with
  | nil => exact set_setChild n name child mode
  | cons x rest =>
    have hlookup := lookup_setChild n name child x
    simp only
    split
    · rename_i hx
      rw [if_pos hx] at hlookup
      exact stored_some hlookup mode rest
    · rename_i hx
      rw [if_neg hx] at hlookup
      cases h : n.children.lookup x with
      | none => rw [stored_none (hlookup.trans h), stored_none h]
      | some old => rw [stored_some (hlookup.trans h), stored_some h]

theorem stored_child (n : SubNode) (name : String) (mode : SubMode) (p : List String) :
    ((n.children.lookup name).getD empty).stored mode p = n.stored mode (name :: p) := by
  cases h : n.children.lookup name with
  | none => rw [stored_none h, Option.getD_none, stored_empty]
  | some child => rw [stored_some h, Option.getD_some]

theorem stored_subscribe (n : SubNode) (p q : List String) :
    (n.subscribe subscriber mode p).stored mode' q =
      if mode' = mode ∧ q = p then insert subscriber (n.stored mode' q) else n.stored mode' q := by
  induction p generalizing n q with
  | nil =>
    cases q with
    | nil => cases mode <;> cases mode' <;> rfl
    | cons x q =>
      rw [if_neg (by simp)]
      cases mode <;> rfl
  | cons name p ih =>
    rw [subscribe, stored_setChild]
    cases q with
    | nil =>
      rw [if_neg (by simp)]
      rfl
    | cons x q =>
      by_cases hx : x = name
      · subst hx
        simp only [if_true, ih, stored_child, List.cons.injEq, true_and]
      · simp only [if_neg hx]
        rw [if_neg (by simp [hx])]

theorem stored_removeOne (n : SubNode) (p q : List String) :
    (n.removeOne subscriber mode p).stored mode' q =
      if mode' = mode ∧ q = p then (n.stored mode' q).erase subscriber else n.stored mode' q := by
  induction p generalizing n q with
  | nil =>
    cases q with
    | nil => cases mode <;> cases mode' <;> rfl
    | cons x q =>
      rw [if_neg (by simp)]
      cases mode <;> rfl
  | cons name p ih =>
    rw [removeOne]
    cases h : n.children.lookup name with
    | none =>
      simp only
      split
      · rename_i heq
        rw [heq.2, stored_none h, Finset.erase_empty]
      · rfl
    | some child =>
      have hchild := ih child
      simp only
      split
      · rename_i hempty
        rw [isEmpty_iff] at hempty
        cases q with
        | nil =>
          rw [if_neg (by simp)]
          cases mode' <;> rfl
        | cons x q =>
          have hlookup : (mk n.exact n.subtree (n.children.filter fun e => e.1 ≠ name)).children.lookup x =
              if x = name then none else n.children.lookup x := Assoc.lookup_erase _ _ _
          by_cases hx : x = name
          · subst hx
            rw [if_pos rfl] at hlookup
            have hgone := hchild q
            rw [hempty, stored_empty] at hgone
            rw [stored_none hlookup, stored_some h, hgone]
            simp
          · rw [if_neg hx] at hlookup
            rw [if_neg (by simp [hx])]
            cases hother : n.children.lookup x with
            | none => rw [stored_none (hlookup.trans hother), stored_none hother]
            | some other => rw [stored_some (hlookup.trans hother), stored_some hother]
      · rw [stored_setChild]
        cases q with
        | nil =>
          rw [if_neg (by simp)]
          rfl
        | cons x q =>
          by_cases hx : x = name
          · subst hx
            simp only [if_true, hchild, stored_some h, List.cons.injEq, true_and]
          · simp only [if_neg hx]
            rw [if_neg (by simp [hx])]

theorem mem_collect (n : SubNode) (p : List String) :
    x ∈ n.collect p ↔ x ∈ n.stored .exact p ∨ ∃ q, q <+: p ∧ x ∈ n.stored .subtree q := by
  induction p generalizing n with
  | nil =>
    rw [collect, Finset.mem_union, or_comm]
    simp only [List.prefix_nil, exists_eq_left]
    rfl
  | cons name p ih =>
    have hsplit : (∃ q, q <+: name :: p ∧ x ∈ n.stored .subtree q) ↔
        x ∈ n.subtree ∨ ∃ q, q <+: p ∧ x ∈ n.stored .subtree (name :: q) := by
      constructor
      · rintro ⟨q, hq, hx⟩
        cases q with
        | nil => exact .inl hx
        | cons y q =>
          obtain ⟨rfl, hrest⟩ := List.cons_prefix_cons.mp hq
          exact .inr ⟨q, hrest, hx⟩
      · rintro (hx | ⟨q, hq, hx⟩)
        · exact ⟨[], List.nil_prefix, hx⟩
        · exact ⟨name :: q, List.cons_prefix_cons.mpr ⟨rfl, hq⟩, hx⟩
    rw [hsplit, collect]
    cases h : n.children.lookup name with
    | none => simp [stored_none h]
    | some child =>
      simp only [Finset.mem_union, ih, stored_some h]
      tauto

theorem isSubscribed_iff (n : SubNode) (p : List String) : n.isSubscribed x p = true ↔ x ∈ n.collect p := by
  induction p generalizing n with
  | nil => simp [isSubscribed, collect]
  | cons name p ih =>
    rw [isSubscribed, collect]
    by_cases hx : x ∈ n.subtree
    · cases n.children.lookup name <;> simp [hx]
    · cases n.children.lookup name with
      | none => simp [hx]
      | some child => simp [hx, ih]

/-- Each name is under a node once, and no node under it is empty. -/
inductive Tidy : SubNode → Prop
  | mk {exact subtree : Finset TaskId} {children : List (String × SubNode)} :
      (children.map Prod.fst).Nodup → (∀ e ∈ children, e.2.isEmpty = false) → (∀ e ∈ children, Tidy e.2) →
      Tidy (.mk exact subtree children)

namespace Tidy

theorem nodup (h : n.Tidy) : (n.children.map Prod.fst).Nodup := by
  cases h with
  | mk hn _ _ => exact hn

theorem all (h : n.Tidy) : ∀ e ∈ n.children, e.2.isEmpty = false ∧ Tidy e.2 := by
  cases h with
  | mk _ hne hall => exact fun e he => ⟨hne e he, hall e he⟩

theorem lookup (h : n.Tidy) (hc : n.children.lookup name = some child) : child.isEmpty = false ∧ child.Tidy :=
  h.all _ (Assoc.mem_of_lookup hc)

theorem of_all {exact subtree : Finset TaskId} {children : List (String × SubNode)} (hn : (children.map Prod.fst).Nodup)
    (hall : ∀ e ∈ children, e.2.isEmpty = false ∧ e.2.Tidy) : (SubNode.mk exact subtree children).Tidy :=
  .mk hn (fun e he => (hall e he).1) fun e he => (hall e he).2

theorem empty : SubNode.empty.Tidy := .mk List.nodup_nil nofun nofun

theorem setChild (h : n.Tidy) (name : String) (hne : child.isEmpty = false) (hc : child.Tidy) :
    (n.setChild name child).Tidy := by
  unfold SubNode.setChild
  split
  · refine of_all ?_ fun e he => ?_
    · rw [Assoc.keys_set]
      exact h.nodup
    · obtain ⟨old, hold, rfl⟩ := List.mem_map.mp he
      split
      · exact ⟨hne, hc⟩
      · exact h.all old hold
  · rename_i hnone
    rw [Option.not_isSome_iff_eq_none] at hnone
    refine of_all ?_ fun e he => ?_
    · rw [List.map_append]
      refine h.nodup.append (List.nodup_singleton _) ?_
      simpa using Assoc.notMem_keys hnone
    · rcases List.mem_append.mp he with he | he
      · exact h.all e he
      · obtain rfl := List.mem_singleton.mp he
        exact ⟨hne, hc⟩

theorem subscribe (h : n.Tidy) (p : List String) :
    (n.subscribe subscriber mode p).isEmpty = false ∧ (n.subscribe subscriber mode p).Tidy := by
  induction p generalizing n with
  | nil =>
    cases mode with
    | exact => exact ⟨by simp [SubNode.subscribe, isEmpty, SubNode.exact], of_all h.nodup h.all⟩
    | subtree => exact ⟨by simp [SubNode.subscribe, isEmpty, SubNode.subtree], of_all h.nodup h.all⟩
  | cons name p ih =>
    rw [SubNode.subscribe]
    have hchild : ((n.children.lookup name).getD SubNode.empty).Tidy := by
      cases hc : n.children.lookup name with
      | none => exact empty
      | some child => exact (h.lookup hc).2
    obtain ⟨hne, htidy⟩ := ih hchild
    refine ⟨?_, h.setChild name hne htidy⟩
    rw [Bool.eq_false_iff]
    intro hempty
    have hlookup := lookup_setChild n name
      (((n.children.lookup name).getD SubNode.empty).subscribe subscriber mode p) name
    rw [(isEmpty_iff _).mp hempty, if_pos rfl] at hlookup
    cases hlookup

theorem removeOne (h : n.Tidy) (p : List String) : (n.removeOne subscriber mode p).Tidy := by
  induction p generalizing n with
  | nil => cases mode <;> exact of_all h.nodup h.all
  | cons name p ih =>
    rw [SubNode.removeOne]
    cases hc : n.children.lookup name with
    | none => exact h
    | some child =>
      simp only
      split
      · exact of_all ((List.filter_sublist.map Prod.fst).nodup h.nodup) fun e he => h.all e (List.mem_of_mem_filter he)
      · rename_i hne
        exact h.setChild name (Bool.eq_false_iff.mpr hne) (ih (h.lookup hc).2)

theorem walkTo (h : n.Tidy) (hp : p ≠ []) (hm : n.walkTo p = some m) : m.isEmpty = false := by
  induction p generalizing n with
  | nil => exact absurd rfl hp
  | cons name p ih =>
    rw [SubNode.walkTo] at hm
    cases hc : n.children.lookup name with
    | none =>
      rw [hc] at hm
      cases hm
    | some child =>
      rw [hc] at hm
      obtain ⟨hne, htidy⟩ := h.lookup hc
      cases p with
      | nil =>
        obtain rfl : child = m := Option.some.inj hm
        exact hne
      | cons y p => exact ih htidy (List.cons_ne_nil _ _) hm

end Tidy

end SubNode

namespace SubTrie

inductive Op
  | subscribe (subscriber : TaskId) (path : TaskPath) (mode : SubMode)
  | unsubscribe (subscriber : TaskId) (path : TaskPath) (mode : SubMode)
  | removeSubscriber (subscriber : TaskId)

/-- One operation; a subscriber's subscriptions are dropped in any order. -/
inductive Step (t : SubTrie) : Op → SubTrie → Prop
  | subscribe (subscriber : TaskId) (path : TaskPath) (mode : SubMode) :
      Step t (.subscribe subscriber path mode) (t.subscribe subscriber path mode)
  | unsubscribe (subscriber : TaskId) (path : TaskPath) (mode : SubMode) :
      Step t (.unsubscribe subscriber path mode) (t.unsubscribe subscriber path mode)
  | removeSubscriber (subscriber : TaskId) (subs : List (TaskPath × SubMode)) :
      subs.Perm (t.bySubscriber subscriber) → Step t (.removeSubscriber subscriber)
        { root := subs.foldl (fun n s => n.removeOne subscriber s.2 s.1) t.root
          bySubscriber := Function.update t.bySubscriber subscriber [] }

theorem step_removeSubscriber (t : SubTrie) (subscriber : TaskId) :
    t.Step (.removeSubscriber subscriber) (t.removeSubscriber subscriber) := .removeSubscriber subscriber _ (.refl _)

inductive Runs : List Op → SubTrie → Prop
  | nil : Runs [] .new
  | step {ops : List Op} {op : Op} {t t' : SubTrie} : Runs ops t → t.Step op t' → Runs (ops ++ [op]) t'

def Op.keep (live : Set (TaskId × TaskPath × SubMode)) : Op → Set (TaskId × TaskPath × SubMode)
  | subscribe subscriber path mode => insert (subscriber, path, mode) live
  | unsubscribe subscriber path mode => live \ {(subscriber, path, mode)}
  | removeSubscriber subscriber => {s ∈ live | s.1 ≠ subscriber}

def live (ops : List Op) : Set (TaskId × TaskPath × SubMode) := ops.foldl Op.keep ∅

def Covers (mode : SubMode) (path p : TaskPath) : Prop :=
  match mode with
  | .exact => path = p
  | .subtree => path <+: p

variable {t t' : SubTrie} {op : Op} {ops : List Op}

/-- The trie and the index hold the same subscriptions, each once, and no node is empty. -/
structure Consistent (t : SubTrie) (live : Set (TaskId × TaskPath × SubMode)) : Prop where
  stored : ∀ x path mode, x ∈ t.root.stored mode path ↔ (x, path, mode) ∈ live
  index : ∀ x path mode, (path, mode) ∈ t.bySubscriber x ↔ (x, path, mode) ∈ live
  nodup : ∀ x, (t.bySubscriber x).Nodup
  tidy : t.root.Tidy

theorem stored_foldl (subs : List (TaskPath × SubMode)) (n : SubNode) (subscriber : TaskId) (mode : SubMode)
    (p : TaskPath) (x : TaskId) : x ∈ (subs.foldl (fun n s => n.removeOne subscriber s.2 s.1) n).stored mode p ↔
      x ∈ n.stored mode p ∧ ¬ (x = subscriber ∧ (p, mode) ∈ subs) := by
  induction subs generalizing n with
  | nil => simp
  | cons s subs ih =>
    obtain ⟨path, mode'⟩ := s
    rw [List.foldl_cons, ih, SubNode.stored_removeOne]
    split
    · rename_i heq
      obtain ⟨rfl, rfl⟩ := heq
      rw [Finset.mem_erase]
      simp only [List.mem_cons, true_or, and_true]
      tauto
    · rename_i hne
      have hhead : (p, mode) ≠ (path, mode') := fun heq => hne ⟨(Prod.mk.inj heq).2, (Prod.mk.inj heq).1⟩
      simp only [List.mem_cons, hhead, false_or]

theorem tidy_foldl (subs : List (TaskPath × SubMode)) {n : SubNode} (h : n.Tidy) (subscriber : TaskId) :
    (subs.foldl (fun n s => n.removeOne subscriber s.2 s.1) n).Tidy := by
  induction subs generalizing n with
  | nil => exact h
  | cons s subs ih => exact ih (h.removeOne s.1)

theorem consistent_new : new.Consistent ∅ where
  stored x path mode := by
    change x ∈ SubNode.empty.stored mode path ↔ _
    simp [SubNode.stored_empty]
  index x path mode := by simp [new]
  nodup x := List.nodup_nil
  tidy := .empty

theorem Consistent.step {live : Set (TaskId × TaskPath × SubMode)} (h : t.Consistent live) (hs : t.Step op t') :
    t'.Consistent (op.keep live) := by
  cases hs with
  | subscribe subscriber path mode =>
    refine ⟨fun x p mode' => ?_, fun x p mode' => ?_, fun x => ?_, (h.tidy.subscribe path).2⟩
    · change x ∈ (t.root.subscribe subscriber mode path).stored mode' p ↔ _
      rw [SubNode.stored_subscribe]
      split
      · rename_i heq
        obtain ⟨rfl, rfl⟩ := heq
        rw [Finset.mem_insert, h.stored]
        simp [Op.keep]
      · rename_i hne
        rw [h.stored]
        simp only [Op.keep, Set.mem_insert_iff, Prod.mk.injEq]
        tauto
    · change (p, mode') ∈ Function.update t.bySubscriber subscriber _ x ↔ _
      by_cases hx : x = subscriber
      · subst hx
        rw [Function.update_self, List.mem_insert_iff, h.index]
        simp [Op.keep]
      · rw [Function.update_of_ne hx, h.index]
        simp [Op.keep, hx]
    · change (Function.update t.bySubscriber subscriber _ x).Nodup
      by_cases hx : x = subscriber
      · subst hx
        rw [Function.update_self]
        exact (h.nodup x).insert
      · rw [Function.update_of_ne hx]
        exact h.nodup x
  | unsubscribe subscriber path mode =>
    refine ⟨fun x p mode' => ?_, fun x p mode' => ?_, fun x => ?_, h.tidy.removeOne path⟩
    · change x ∈ (t.root.removeOne subscriber mode path).stored mode' p ↔ _
      rw [SubNode.stored_removeOne]
      split
      · rename_i heq
        obtain ⟨rfl, rfl⟩ := heq
        rw [Finset.mem_erase, h.stored]
        simp only [Op.keep, Set.mem_sdiff, Set.mem_singleton_iff, Prod.mk.injEq, and_true]
        tauto
      · rename_i hne
        rw [h.stored]
        simp only [Op.keep, Set.mem_sdiff, Set.mem_singleton_iff, Prod.mk.injEq]
        tauto
    · change (p, mode') ∈ Function.update t.bySubscriber subscriber _ x ↔ _
      by_cases hx : x = subscriber
      · subst hx
        rw [Function.update_self, (h.nodup x).mem_erase_iff, h.index]
        simp only [Op.keep, Set.mem_sdiff, Set.mem_singleton_iff, ne_eq, Prod.mk.injEq, true_and]
        tauto
      · rw [Function.update_of_ne hx, h.index]
        simp [Op.keep, hx]
    · change (Function.update t.bySubscriber subscriber _ x).Nodup
      by_cases hx : x = subscriber
      · subst hx
        rw [Function.update_self]
        exact (h.nodup x).erase _
      · rw [Function.update_of_ne hx]
        exact h.nodup x
  | removeSubscriber subscriber subs hsubs =>
    refine ⟨fun x p mode => ?_, fun x p mode => ?_, fun x => ?_, tidy_foldl subs h.tidy subscriber⟩
    · change x ∈ (subs.foldl _ t.root).stored mode p ↔ _
      rw [stored_foldl, h.stored, hsubs.mem_iff]
      have hindex := h.index subscriber p mode
      change _ ↔ (x, p, mode) ∈ live ∧ x ≠ subscriber
      constructor
      · rintro ⟨hlive, hnot⟩
        refine ⟨hlive, fun hx => hnot ⟨hx, hindex.mpr ?_⟩⟩
        rwa [← hx]
      · exact fun ⟨hlive, hx⟩ => ⟨hlive, fun hand => hx hand.1⟩
    · change (p, mode) ∈ Function.update t.bySubscriber subscriber [] x ↔ (x, p, mode) ∈ live ∧ x ≠ subscriber
      by_cases hx : x = subscriber
      · subst hx
        simp
      · rw [Function.update_of_ne hx, h.index]
        simp [hx]
    · change (Function.update t.bySubscriber subscriber [] x).Nodup
      by_cases hx : x = subscriber
      · subst hx
        rw [Function.update_self]
        exact List.nodup_nil
      · rw [Function.update_of_ne hx]
        exact h.nodup x

theorem Runs.consistent (h : Runs ops t) : t.Consistent (live ops) := by
  induction h with
  | nil => exact consistent_new
  | step _ hs ih =>
    unfold live
    rw [List.foldl_append]
    exact ih.step hs

/-- After any operations the trie reaches exactly whom a live subscription covers, and the index lists what it stores. -/
theorem collect_live (h : Runs ops t) :
    (∀ p x, x ∈ t.root.collect p ↔ ∃ path mode, (x, path, mode) ∈ live ops ∧ Covers mode path p) ∧
      (∀ p x, t.root.isSubscribed x p = true ↔ x ∈ t.root.collect p) ∧
      (∀ x path mode, (path, mode) ∈ t.bySubscriber x ↔ x ∈ t.root.stored mode path) ∧
      (∀ x, (t.bySubscriber x).Nodup) ∧
      ∀ p node, p ≠ [] → t.root.walkTo p = some node → node.isEmpty = false := by
  have hc := h.consistent
  refine ⟨fun p x => ?_, fun p x => t.root.isSubscribed_iff p, fun x path mode => ?_, hc.nodup,
    fun p node hp => hc.tidy.walkTo hp⟩
  · rw [SubNode.mem_collect]
    constructor
    · rintro (hx | ⟨q, hq, hx⟩)
      · exact ⟨p, .exact, (hc.stored x p .exact).mp hx, rfl⟩
      · exact ⟨q, .subtree, (hc.stored x q .subtree).mp hx, hq⟩
    · rintro ⟨path, mode, hlive, hcovers⟩
      have hx := (hc.stored x path mode).mpr hlive
      cases mode with
      | exact =>
        obtain rfl : path = p := hcovers
        exact .inl hx
      | subtree => exact .inr ⟨path, hcovers, hx⟩
  · rw [hc.index, hc.stored]

/-- Two subscribers at and above a path, one of them gone again. -/
theorem collect_live_shared :
    Runs [.subscribe 1 ["a"] .subtree, .subscribe 2 ["a", "b"] .exact, .removeSubscriber 1]
      (((new.subscribe 1 ["a"] .subtree).subscribe 2 ["a", "b"] .exact).removeSubscriber 1) ∧
    ∀ x, x ∈ (((new.subscribe 1 ["a"] .subtree).subscribe 2 ["a", "b"] .exact).removeSubscriber 1).root.collect ["a", "b"] ↔
      ∃ path mode, (x, path, mode) ∈ live [.subscribe 1 ["a"] .subtree, .subscribe 2 ["a", "b"] .exact, .removeSubscriber 1] ∧
        Covers mode path ["a", "b"] := by
  have hfirst : Runs [.subscribe 1 ["a"] .subtree] (new.subscribe 1 ["a"] .subtree) := .step .nil (.subscribe _ _ _)
  have hruns := (hfirst.step (.subscribe 2 ["a", "b"] .exact)).step (step_removeSubscriber _ 1)
  exact ⟨hruns, (collect_live hruns).1 ["a", "b"]⟩

end SubTrie

end Dekit
