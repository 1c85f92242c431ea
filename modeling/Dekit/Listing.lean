import Mathlib.Data.List.Lex
import Dekit.Moving

namespace Dekit

variable {n m : TrieNode} {base p q path : TaskPath} {id : TaskId} {cs : Children}

theorem collectChildren_eq (cs : Children) (base : TaskPath) :
    collectChildren cs base = cs.flatMap fun e => e.2.collectNodes (base ++ [e.1]) := by
  induction cs with
  | nil => rfl
  | cons e cs ih =>
    obtain ⟨name, child⟩ := e
    rw [collectChildren, List.flatMap_cons, ih]

namespace TrieNode

/-- Names are unique, and a task is a leaf and no folder. -/
inductive Fit : TrieNode → Prop
  | mk {task folder : Option TaskId} {children : Children} :
      (children.map Prod.fst).Nodup → (∀ e ∈ children, Fit e.2) →
      (task.isSome = true → folder = none ∧ ∀ base, collectChildren children base = []) →
      Fit (.mk task folder children)

theorem Named.fit (h : n.Named) (hleaf : ∀ p a b, n.at' p = some (some a, b) →
    b = none ∧ ∀ q s, q ≠ [] → n.at' (p ++ q) = some s → s = (none, none)) : n.Fit := by
  induction h with
  | @mk task folder children hn hall ih =>
    have hat (e : String × TrieNode) (he : e ∈ children) (p : TaskPath) :
        (TrieNode.mk task folder children).at' (e.1 :: p) = e.2.at' p := by
      rw [at_cons, show (TrieNode.mk task folder children).children = children from rfl, Assoc.lookup_of_mem hn he]
      rfl
    refine .mk hn (fun e he => ih e he fun p a b hp => ?_) fun htask => ?_
    · obtain ⟨hb, hnone⟩ := hleaf (e.1 :: p) a b ((hat e he p).trans hp)
      exact ⟨hb, fun q s hq hs => hnone q s hq ((hat e he (p ++ q)).trans hs)⟩
    · obtain ⟨a, rfl⟩ := Option.isSome_iff_exists.mp htask
      obtain ⟨hfolder, hnone⟩ := hleaf [] a folder rfl
      refine ⟨hfolder, fun base => List.eq_nil_iff_forall_not_mem.mpr fun entry hentry => ?_⟩
      rw [collectChildren_eq, List.mem_flatMap] at hentry
      obtain ⟨e, he, hmem⟩ := hentry
      obtain ⟨q, s, hq, -, hs, -⟩ := (mem_collectNodes (hall e he)).mp hmem
      rw [hnone (e.1 :: q) s (List.cons_ne_nil _ _) ((hat e he q).trans hq)] at hs
      cases hs

theorem Fit.named (h : n.Fit) : n.Named := by
  induction h with
  | mk hn _ _ ih => exact .mk hn ih

theorem indexOf_getElem (hn : (cs.map Prod.fst).Nodup) {i : ℕ} (hi : i < cs.length) :
    Children.indexOf cs cs[i].1 = some i := by
  refine List.findIdx?_eq_some_iff_getElem.mpr ⟨hi, by simp, fun j hj => ?_⟩
  have hne := List.pairwise_iff_getElem.mp hn j i (by simp; omega) (by simp; omega) hj
  simpa using hne

theorem go_cons (hn : (n.children.map Prod.fst).Nodup) {i : ℕ} (hi : i < n.children.length) (q : TaskPath) :
    PathTrie.position.go n (n.children[i].1 :: q) = (PathTrie.position.go n.children[i].2 q).map (i :: ·) := by
  have hl : n.children.lookup n.children[i].1 = some n.children[i].2 := Assoc.lookup_of_mem hn (List.getElem_mem hi)
  rw [PathTrie.position.go, indexOf_getElem hn hi, hl]

/-- Whatever is there has a position. -/
theorem Named.position (h : n.Named) (hw : n.walkTo q = some m) : ∃ u, PathTrie.position.go n q = some u := by
  induction q generalizing n with
  | nil => exact ⟨[], rfl⟩
  | cons name q ih =>
    rw [TrieNode.walkTo] at hw
    cases hl : n.children.lookup name with
    | none => rw [hl] at hw; cases hw
    | some child =>
      rw [hl] at hw
      obtain ⟨u, hu⟩ := ih (h.child hl) hw
      obtain ⟨i, hi, he⟩ := List.getElem_of_mem (Assoc.mem_of_lookup hl)
      have hgo := go_cons h.nodup hi q
      rw [he] at hgo
      exact ⟨i :: u, by rw [hgo, hu]; rfl⟩

/-- One path comes before another under a node. -/
def Precedes (n : TrieNode) (base : TaskPath) (a b : TaskPath × TaskId) : Prop :=
  ∃ q r u v, a.1 = base ++ q ∧ b.1 = base ++ r ∧ PathTrie.position.go n q = some u ∧
    PathTrie.position.go n r = some v ∧ u < v

theorem listed {entry : TaskPath × TaskId} (h : n.Named) (he : entry ∈ n.collectNodes base) :
    ∃ q u, entry.1 = base ++ q ∧ PathTrie.position.go n q = some u := by
  obtain ⟨q, s, hq, hp, -⟩ := (mem_collectNodes h).mp he
  obtain ⟨m, hw, -⟩ := Option.map_eq_some_iff.mp hq
  obtain ⟨u, hu⟩ := h.position hw
  exact ⟨q, u, hp, hu⟩

theorem Named.sorted (h : n.Named) (base : TaskPath) : (n.collectNodes base).Pairwise (n.Precedes base) := by
  induction h generalizing base with
  | @mk task folder children hn hall ih =>
    have hgo {i : ℕ} (hi : i < children.length) (q : TaskPath) :
        PathTrie.position.go (.mk task folder children) (children[i].1 :: q) =
          (PathTrie.position.go children[i].2 q).map (i :: ·) := go_cons (n := .mk task folder children) hn hi q
    rw [collectNodes, collectChildren_eq, List.pairwise_append, List.pairwise_flatMap]
    refine ⟨?_, ⟨fun e he => ?_, ?_⟩, fun a ha b hb => ?_⟩
    · split
      · split
        · exact List.Pairwise.nil
        · exact List.pairwise_singleton _ _
      · exact List.Pairwise.nil
    · obtain ⟨i, hi, rfl⟩ := List.getElem_of_mem he
      refine (ih _ he (base ++ [children[i].1])).imp fun {a b} hab => ?_
      obtain ⟨q, r, u, v, ha, hb, hu, hv, huv⟩ := hab
      exact ⟨children[i].1 :: q, children[i].1 :: r, i :: u, i :: v, by simpa using ha, by simpa using hb,
        by rw [hgo hi, hu]; rfl, by rw [hgo hi, hv]; rfl, List.Lex.cons huv⟩
    · rw [List.pairwise_iff_getElem]
      intro i j hi hj hij a ha b hb
      obtain ⟨q, u, hq, hu⟩ := listed (hall _ (List.getElem_mem hi)) ha
      obtain ⟨r, v, hr, hv⟩ := listed (hall _ (List.getElem_mem hj)) hb
      exact ⟨children[i].1 :: q, children[j].1 :: r, i :: u, j :: v, by simpa using hq, by simpa using hr,
        by rw [hgo hi, hu]; rfl, by rw [hgo hj, hv]; rfl, List.Lex.rel hij⟩
    · obtain ⟨e, he, hmem⟩ := List.mem_flatMap.mp hb
      obtain ⟨i, hi, rfl⟩ := List.getElem_of_mem he
      obtain ⟨r, v, hr, hv⟩ := listed (hall _ he) hmem
      have hself : a.1 = base := by
        split at ha
        · split at ha
          · cases ha
          · rw [List.mem_singleton.mp ha]
        · cases ha
      exact ⟨[], children[i].1 :: r, [], i :: v, by simpa using hself, by simpa using hr, rfl,
        by rw [hgo hi, hv]; rfl, List.Lex.nil⟩

end TrieNode

theorem lastChild_eq (cs : Children)
    (h : ∀ e ∈ cs, ∀ base, e.2.lastNode = ((e.2.collectNodes (base ++ [e.1])).getLast?).map Prod.snd)
    (base : TaskPath) : lastChild cs = ((collectChildren cs base).getLast?).map Prod.snd := by
  induction cs with
  | nil => rfl
  | cons e cs ih =>
    obtain ⟨name, child⟩ := e
    rw [lastChild, collectChildren, List.getLast?_append, ih fun e he => h e (List.mem_cons_of_mem _ he),
      h (name, child) List.mem_cons_self base]
    cases (collectChildren cs base).getLast? <;> rfl

theorem TrieNode.Fit.lastNode (h : n.Fit) {base : TaskPath} (hbase : base ≠ []) :
    n.lastNode = ((n.collectNodes base).getLast?).map Prod.snd := by
  induction h generalizing base with
  | @mk task folder children hn hall hleaf ih =>
    have hkids := lastChild_eq children (fun e he base => ih e he (by simp)) base
    have hroot : base.isRoot = false := by
      cases base with
      | nil => exact absurd rfl hbase
      | cons x l => rfl
    rw [TrieNode.lastNode, collectNodes, List.getLast?_append, hkids, hroot]
    cases task with
    | some a =>
      obtain ⟨-, hnone⟩ := hleaf rfl
      rw [hnone base]
      rfl
    | none =>
      cases (collectChildren children base).getLast? with
      | some entry => rfl
      | none => cases folder <;> rfl

theorem lastChild_of_fit (h : ∀ e ∈ cs, e.2.Fit) (base : TaskPath) :
    lastChild cs = ((collectChildren cs base).getLast?).map Prod.snd :=
  lastChild_eq cs (fun e he base => (h e he).lastNode (by simp)) base

theorem collectChildren_append (cs cs' : Children) (base : TaskPath) :
    collectChildren (cs ++ cs') base = collectChildren cs base ++ collectChildren cs' base := by
  simp only [collectChildren_eq, List.flatMap_append]

theorem TrieNode.Fit.before (h : n.Fit) (hp : base ++ p ≠ []) (hroot : base = [] → n.folder = none) {s : Spot}
    (hat : n.at' p = some s) (hid : (s.1 <|> s.2) = some id) (found : Option TaskId) :
    ∃ pre post, n.collectNodes base = pre ++ (base ++ p, id) :: post ∧
      PathTrie.before.go n found p = (pre.getLast?.map Prod.snd <|> found) := by
  induction p generalizing n base found with
  | nil =>
    cases h with
    | @mk task folder children hn hall hleaf =>
      obtain rfl : (task, folder) = s := Option.some.inj hat
      have hr : base.isRoot = false := by
        cases base with
        | nil => exact absurd rfl hp
        | cons x l => rfl
      refine ⟨[], collectChildren children base, ?_, rfl⟩
      rw [collectNodes, hid, hr, List.append_nil]
      rfl
  | cons name q ih =>
    cases h with
    | @mk task folder children hn hall hleaf =>
      rw [at_cons] at hat
      obtain ⟨child, hl, hat⟩ := Option.bind_eq_some_iff.mp hat
      obtain ⟨i, hi, he⟩ := List.getElem_of_mem (Assoc.mem_of_lookup hl)
      have hi : i < children.length := hi
      have he : children[i] = (name, child) := he
      have hindex : Children.indexOf children name = some i := by
        have hidx := indexOf_getElem hn hi
        rwa [he] at hidx
      have hchild : child.Fit := hall (name, child) (Assoc.mem_of_lookup hl)
      obtain ⟨pre, post, hlist, hgo⟩ := @ih _ (base ++ [name]) hchild (by simp) (fun hb => by simp at hb) hat
        (lastChild (children.take i) <|> folder <|> found)
      have hkids : collectChildren children base = collectChildren (children.take i) base ++
          (child.collectNodes (base ++ [name]) ++ collectChildren (children.drop (i + 1)) base) := by
        have hsplit : children = children.take i ++ (name, child) :: children.drop (i + 1) := by
          rw [← he, List.getElem_cons_drop, List.take_append_drop]
        conv_lhs => rw [hsplit]
        rw [collectChildren_append]
        rfl
      -- Something is listed under it, so it is no task.
      obtain rfl : task = none := by
        by_contra hne
        obtain ⟨-, hnone⟩ := hleaf (Option.isSome_iff_ne_none.mpr hne)
        have hmem := hnone base
        rw [hkids, hlist] at hmem
        simp at hmem
      obtain ⟨self, hself, hlast⟩ : ∃ self, (TrieNode.mk none folder children).collectNodes base =
          self ++ collectChildren children base ∧ self.getLast?.map Prod.snd = folder := by
        cases folder with
        | none => exact ⟨[], rfl, rfl⟩
        | some f =>
          have hr : base.isRoot = false := by
            cases base with
            | nil => exact absurd (hroot rfl) (by simp [TrieNode.folder])
            | cons x l => rfl
          refine ⟨[(base, f)], ?_, rfl⟩
          rw [collectNodes, hr]
          rfl
      refine ⟨self ++ collectChildren (children.take i) base ++ pre,
        post ++ collectChildren (children.drop (i + 1)) base,
        ?_, ?_⟩
      · rw [hself, hkids, hlist]
        simp
      · rw [PathTrie.before.go]
        rw [show Children.indexOf (TrieNode.mk none folder children).children name = some i from hindex, hl]
        simp only
        refine hgo.trans ?_
        rw [lastChild_of_fit (fun e he => hall e (List.mem_of_mem_take he)) base, List.getLast?_append,
          List.getLast?_append, ← hlast]
        cases pre.getLast? <;> cases (collectChildren (children.take i) base).getLast? <;> cases self.getLast? <;> rfl

namespace PathTrie

variable {t t' : PathTrie} {pending : List TaskPath}

/-- A trie as it comes to be, with the places held in it. The root is never a task's or a folder's path, and
nothing is moved while places are held. -/
inductive Built : List TaskPath → PathTrie → Prop
  | new : Built [] new
  | insert {pending : List TaskPath} {t t' : PathTrie} {path : TaskPath} {id : TaskId} {place : Place} :
      Built pending t → path ≠ [] → t.insert path id place = .ok t' → Built pending t'
  | insertFolder {pending : List TaskPath} {t t' : PathTrie} {path : TaskPath} {id : TaskId} {place : Place} :
      Built pending t → path ≠ [] → t.insertFolder path id place = .ok t' → Built pending t'
  | remove {pending : List TaskPath} {t : PathTrie} (path : TaskPath) : Built pending t → Built pending (t.remove path)
  | removeFolder {pending : List TaskPath} {t : PathTrie} (path : TaskPath) :
      Built pending t → Built pending (t.removeFolder path)
  | place {pending : List TaskPath} {t : PathTrie} (path : TaskPath) (place : Place) :
      Built pending t → Built (path :: pending) (t.place path place)
  | prune {pending : List TaskPath} {t : PathTrie} (path : TaskPath) :
      Built pending t → Built (pending.erase path) (t.prune path)
  | move {t t' : PathTrie} {src dst : TaskPath} {place : Place} {moved : List Moved} :
      Built [] t → t.moveNode src dst place = .ok (t', moved) → Built [] t'

theorem held_new : new.Held [] := by
  have hnone (p : TaskPath) : new.content p = (none, none) := by
    cases p <;> rfl
  refine ⟨TrieNode.named_new, fun p a b h => ?_, fun p a b q h _ => ?_, fun p hne hp _ => ?_⟩
  · rw [hnone] at h
    cases h
  · rw [hnone] at h
    cases h
  · cases p with
    | nil => exact absurd rfl hne
    | cons x p => cases hp

theorem Built.held (h : Built pending t) : t.Held pending ∧ t.content [] = (none, none) := by
  induction h with
  | new => exact ⟨held_new, rfl⟩
  | insert _ hne hok ih =>
    obtain ⟨hheld, hcontent, -⟩ := insert_ok ih.1 hok
    exact ⟨hheld, by rw [hcontent, if_neg hne.symm, ih.2]⟩
  | insertFolder _ hne hok ih =>
    obtain ⟨hheld, hcontent, -⟩ := insertFolder_ok ih.1 hok
    exact ⟨hheld, by rw [hcontent, if_neg hne.symm, ih.2]⟩
  | remove path _ ih =>
    obtain ⟨hheld, hcontent⟩ := remove_held ih.1 path
    refine ⟨hheld, ?_⟩
    rw [hcontent]
    split
    · rename_i he
      rw [← he, ih.2]
    · exact ih.2
  | removeFolder path _ ih =>
    obtain ⟨hheld, hcontent⟩ := removeFolder_held ih.1 path
    refine ⟨hheld, ?_⟩
    rw [hcontent]
    split
    · rename_i he
      rw [← he, ih.2]
    · exact ih.2
  | place path place _ ih => exact ⟨ih.1.place path place, by rw [content_place, ih.2]⟩
  | @prune pending t path _ ih =>
    have hmono : t.Held (path :: pending.erase path) := ih.1.mono fun r hr => by
      by_cases he : r = path
      · exact he ▸ List.mem_cons_self
      · exact List.mem_cons_of_mem _ ((List.mem_erase_of_ne he).mpr hr)
    exact ⟨hmono.prune, by rw [content_prune, ih.2]⟩
  | move _ hok ih =>
    obtain ⟨hheld, hcontent, -⟩ := moveNode_ok ih.1 hok
    obtain ⟨-, node, hm⟩ := movable_of_ok hok
    refine ⟨hheld, ?_⟩
    rw [hcontent, if_neg fun h => hm.target (List.prefix_nil.mp h), if_neg fun h => hm.source (List.prefix_nil.mp h)]
    exact ih.2

theorem Held.fit (h : t.Held pending) : t.root.Fit := by
  refine h.named.fit fun p a b hp => ⟨?_, fun q s hq hs => ?_⟩
  · cases b with
    | none => rfl
    | some b => exact absurd (content_of_at hp) (h.one p a b)
  · rw [← content_of_at hs]
    exact h.above p a b q (content_of_at hp) hq

/-- The listing, the node listed before a path and the positions have one order. -/
theorem listed_in_order (h : Built pending t) :
    (∀ p id, (p, id) ∈ t.nodes TaskPath.root ↔ ((t.content p).1 <|> (t.content p).2) = some id) ∧
    (∀ pre p id post, t.nodes TaskPath.root = pre ++ (p, id) :: post → t.before p = pre.getLast?.map Prod.snd) ∧
    ∀ (i j : ℕ) (a b : TaskPath × TaskId), (t.nodes TaskPath.root)[i]? = some a →
      (t.nodes TaskPath.root)[j]? = some b → ∃ u v, t.position a.1 = some u ∧ t.position b.1 = some v ∧
      (i < j ↔ u < v) := by
  obtain ⟨hheld, hbare⟩ := h.held
  have hnodes : t.nodes TaskPath.root = t.root.collectNodes [] := rfl
  have hmem (p : TaskPath) (id : TaskId) : (p, id) ∈ t.root.collectNodes [] ↔
      ((t.content p).1 <|> (t.content p).2) = some id := by
    rw [TrieNode.mem_collectNodes hheld.named]
    constructor
    · rintro ⟨q, s, hq, rfl, hs, -⟩
      rw [content_of_at hq]
      exact hs
    · intro hs
      have hne : t.content p ≠ (none, none) := fun he => by rw [he] at hs; cases hs
      refine ⟨p, t.content p, at_of_content rfl hne, rfl, hs, ?_⟩
      rintro rfl
      exact hne hbare
  have hsorted := hheld.named.sorted []
  have hnodup : (t.root.collectNodes []).Nodup := by
    refine hsorted.imp fun {a b} hab => ?_
    rintro rfl
    obtain ⟨q, r, u, v, hq, hr, hu, hv, huv⟩ := hab
    obtain rfl : q = r := List.append_cancel_left (hq.symm.trans hr)
    obtain rfl := Option.some.inj (hu.symm.trans hv)
    exact lt_irrefl u huv
  have hpos {i j : ℕ} {a b : TaskPath × TaskId} (ha : (t.root.collectNodes [])[i]? = some a)
      (hb : (t.root.collectNodes [])[j]? = some b) (hij : i < j) :
      ∃ u v, t.position a.1 = some u ∧ t.position b.1 = some v ∧ u < v := by
    obtain ⟨hi, rfl⟩ := List.getElem?_eq_some_iff.mp ha
    obtain ⟨hj, rfl⟩ := List.getElem?_eq_some_iff.mp hb
    obtain ⟨q, r, u, v, hq, hr, hu, hv, huv⟩ := List.pairwise_iff_getElem.mp hsorted i j hi hj hij
    exact ⟨u, v, by rw [hq]; exact hu, by rw [hr]; exact hv, huv⟩
  refine ⟨fun p id => hmem p id, fun pre p id post hlist => ?_, fun i j a b ha hb => ?_⟩
  · have hp := (hmem p id).mp (hnodes ▸ hlist ▸ List.mem_append_right _ List.mem_cons_self)
    have hne : t.content p ≠ (none, none) := fun he => by rw [he] at hp; cases hp
    have hat := at_of_content rfl hne
    have hroot : t.root.folder = none := by
      have hspot := content_of_at (t := t) (p := []) rfl
      rw [hbare] at hspot
      exact (congrArg Prod.snd hspot).symm
    have hpne : p ≠ [] := by
      rintro rfl
      exact hne hbare
    obtain ⟨pre', post', hlist', hgo⟩ :=
      TrieNode.Fit.before hheld.fit (show [] ++ p ≠ [] from hpne) (fun _ => hroot) hat hp none
    have hsame : pre' = pre := by
      rw [hnodes, hlist', List.nil_append] at hlist
      rw [hlist', List.nil_append, hlist] at hnodup
      obtain ⟨-, hpost, hdisj⟩ := List.nodup_append.mp hnodup
      have hin : (p, id) ∉ pre := fun h => hdisj _ h _ List.mem_cons_self rfl
      exact ((List.append_cons_inj_of_notMem hin (List.nodup_cons.mp hpost).1).mp hlist.symm).1.symm
    rw [← hsame]
    refine hgo.trans ?_
    cases pre'.getLast? <;> rfl
  · rcases Nat.lt_trichotomy i j with hij | rfl | hij
    · obtain ⟨u, v, hu, hv, huv⟩ := hpos ha hb hij
      exact ⟨u, v, hu, hv, iff_of_true hij huv⟩
    · obtain rfl := Option.some.inj (ha.symm.trans hb)
      obtain ⟨q, u, hq, hu⟩ := TrieNode.listed hheld.named (List.mem_of_getElem? ha)
      have hu' : t.position a.1 = some u := by rw [hq]; exact hu
      exact ⟨u, u, hu', hu', iff_of_false (lt_irrefl i) (lt_irrefl u)⟩
    · obtain ⟨v, u, hv, hu, hvu⟩ := hpos hb ha hij
      exact ⟨u, v, hu, hv, iff_of_false hij.asymm hvu.asymm⟩

def shelf : PathTrie :=
  ⟨.mk none none [("a", .mk none (some 1) [("b", .mk (some 2) none [])]), ("c", .mk (some 3) none [])]⟩

theorem built_shelf : Built [] shelf := by
  let empty : PathTrie := ⟨.mk none none [("a", .mk none (some 1) [])]⟩
  let one : PathTrie := ⟨.mk none none [("a", .mk none (some 1) [("b", .mk (some 2) none [])])]⟩
  have h₁ : PathTrie.new.insertFolder ["a"] 1 .last = .ok empty := rfl
  have h₂ : empty.insert ["a", "b"] 2 .last = .ok one := rfl
  have h₃ : one.insert ["c"] 3 .last = .ok shelf := rfl
  exact .insert (.insert (.insertFolder .new (by decide) h₁) (by decide) h₂) (by decide) h₃

theorem listed_in_order_shelf : shelf.before ["c"] = some 2 :=
  (listed_in_order built_shelf).2.1 [(["a"], 1), (["a", "b"], 2)] ["c"] 3 [] rfl

end PathTrie

end Dekit
