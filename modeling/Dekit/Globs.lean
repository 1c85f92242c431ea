import Dekit.Spots
import Dekit.Namespace

namespace Dekit

/-- Which paths a pattern stands for: `**` is any number of names, `*` is one. -/
inductive GlobMatch : List String → TaskPath → Prop
  | nil : GlobMatch [] []
  | skip {rest : List String} {p : TaskPath} : GlobMatch rest p → GlobMatch ("**" :: rest) p
  | deeper {rest : List String} {x : String} {p : TaskPath} :
      GlobMatch ("**" :: rest) p → GlobMatch ("**" :: rest) (x :: p)
  | one {rest : List String} {x : String} {p : TaskPath} : GlobMatch rest p → GlobMatch ("*" :: rest) (x :: p)
  | name {pat : String} {rest : List String} {p : TaskPath} : pat ≠ "**" → pat ≠ "*" →
      GlobMatch rest p → GlobMatch (pat :: rest) (pat :: p)

theorem GlobMatch.of_stars {rest : List String} {p : TaskPath} (h : GlobMatch ("**" :: rest) p) :
    GlobMatch rest p ∨ ∃ x q, p = x :: q ∧ GlobMatch ("**" :: rest) q := by
  generalize hpat : "**" :: rest = pattern at h
  cases h with
  | nil => cases hpat
  | skip h =>
    obtain ⟨-, rfl⟩ := List.cons.inj hpat
    exact .inl h
  | deeper h =>
    obtain ⟨-, rfl⟩ := List.cons.inj hpat
    exact .inr ⟨_, _, rfl, h⟩
  | one => exact absurd (List.cons.inj hpat).1 (by decide)
  | name hn _ h => exact absurd (List.cons.inj hpat).1.symm hn

theorem GlobMatch.of_star {rest : List String} {p : TaskPath} (h : GlobMatch ("*" :: rest) p) :
    ∃ x q, p = x :: q ∧ GlobMatch rest q := by
  generalize hpat : "*" :: rest = pattern at h
  cases h with
  | nil => cases hpat
  | skip | deeper => exact absurd (List.cons.inj hpat).1 (by decide)
  | one h =>
    obtain ⟨-, rfl⟩ := List.cons.inj hpat
    exact ⟨_, _, rfl, h⟩
  | name _ hn h => exact absurd (List.cons.inj hpat).1.symm hn

variable {groups : Bool} {base p : TaskPath} {o : Option TaskId} {id : TaskId}

theorem mem_globChildren {cs : Children} {name : String} {walk : List String → List (TaskPath × Option TaskId)} :
    (name, walk) ∈ globChildren groups cs base ↔
      ∃ child, (name, child) ∈ cs ∧ walk = child.globWalk groups (base ++ [name]) := by
  induction cs with
  | nil => simp [globChildren]
  | cons e cs ih =>
    obtain ⟨k, child⟩ := e
    rw [globChildren, List.mem_cons, ih, Prod.mk.injEq]
    constructor
    · rintro (⟨rfl, rfl⟩ | ⟨c, hc, rfl⟩)
      · exact ⟨child, List.mem_cons_self, rfl⟩
      · exact ⟨c, List.mem_cons_of_mem _ hc, rfl⟩
    · rintro ⟨c, hc, rfl⟩
      rcases List.mem_cons.mp hc with he | hc
      · obtain ⟨rfl, rfl⟩ := Prod.mk.inj he
        exact .inl ⟨rfl, rfl⟩
      · exact .inr ⟨c, hc, rfl⟩

theorem lookup_globChildren (cs : Children) (name : String) : (globChildren groups cs base).lookup name =
    (cs.lookup name).map fun child => child.globWalk groups (base ++ [name]) := by
  induction cs with
  | nil => rfl
  | cons e cs ih =>
    obtain ⟨k, child⟩ := e
    rw [globChildren, List.lookup_cons, List.lookup_cons, ih]
    by_cases hk : name = k
    · subst hk
      simp
    · simp [beq_false_of_ne hk]

theorem TrieNode.mem_globWalk {n : TrieNode} (h : n.Named) {pattern : List String} :
    (p, o) ∈ n.globWalk groups base pattern ↔ ∃ q node, n.walkTo q = some node ∧ p = base ++ q ∧ o = node.task ∧
      GlobMatch pattern q ∧ (groups || o.isSome) = true ∧ p ≠ [] := by
  induction h generalizing base pattern with
  | @mk task folder children hn hall ih =>
    have hkids (pat : List String) : (∃ name walk, (name, walk) ∈ globChildren groups children base ∧
        (p, o) ∈ walk pat) ↔
          ∃ name q node, (TrieNode.mk task folder children).walkTo (name :: q) = some node ∧ p = base ++ name :: q ∧
            o = node.task ∧ GlobMatch pat q ∧ (groups || o.isSome) = true ∧ p ≠ [] := by
      constructor
      · rintro ⟨name, walk, hmem, hp⟩
        obtain ⟨child, hc, rfl⟩ := mem_globChildren.mp hmem
        obtain ⟨q, node, hw, hpq, ho, hm, hg, hne⟩ := (ih (name, child) hc).mp hp
        refine ⟨name, q, node, ?_, by simpa using hpq, ho, hm, hg, hne⟩
        rw [walkTo, show (TrieNode.mk task folder children).children = children from rfl, Assoc.lookup_of_mem hn hc]
        exact hw
      · rintro ⟨name, q, node, hw, hpq, ho, hm, hg, hne⟩
        rw [walkTo, show (TrieNode.mk task folder children).children = children from rfl] at hw
        cases hl : children.lookup name with
        | none => rw [hl] at hw; cases hw
        | some child =>
          rw [hl] at hw
          have hc := Assoc.mem_of_lookup hl
          refine ⟨name, _, mem_globChildren.mpr ⟨child, hc, rfl⟩, (ih (name, child) hc).mpr ?_⟩
          exact ⟨q, node, hw, by simpa using hpq, ho, hm, hg, hne⟩
    have hflat (pat : List String) : (p, o) ∈ (globChildren groups children base).flatMap (fun c => c.2 pat) ↔
        ∃ name walk, (name, walk) ∈ globChildren groups children base ∧ (p, o) ∈ walk pat := by
      simp only [List.mem_flatMap, Prod.exists]
    rw [globWalk]
    induction pattern with
    | nil =>
      rw [globAt]
      constructor
      · intro hp
        split at hp
        · rename_i hif
          obtain ⟨rfl, rfl⟩ := Prod.mk.inj (List.mem_singleton.mp hp)
          simp only [Bool.and_eq_true, TaskPath.isRoot, Bool.not_eq_true', List.isEmpty_eq_false_iff] at hif
          exact ⟨[], _, rfl, by simp, rfl, .nil, hif.1, hif.2⟩
        · cases hp
      · rintro ⟨q, node, hw, hp, ho, hm, hg, hne⟩
        cases hm
        obtain rfl : TrieNode.mk task folder children = node := Option.some.inj hw
        rw [List.append_nil] at hp
        subst hp
        obtain rfl : o = task := ho
        have hif : ((groups || o.isSome) && !TaskPath.isRoot p) = true := by
          simp only [hg, TaskPath.isRoot, Bool.true_and, Bool.not_eq_true', List.isEmpty_eq_false_iff]
          exact hne
        rw [if_pos hif]
        exact List.mem_singleton_self _
    | cons pat rest ihp =>
      rw [globAt]
      split
      · rename_i hpat
        subst hpat
        rw [List.mem_append, hflat, hkids]
        refine (or_congr_left ihp).trans ?_
        constructor
        · rintro (⟨q, node, hw, hp, ho, hm, hg⟩ | ⟨name, q, node, hw, hp, ho, hm, hg⟩)
          · exact ⟨q, node, hw, hp, ho, .skip hm, hg⟩
          · exact ⟨name :: q, node, hw, hp, ho, .deeper hm, hg⟩
        · rintro ⟨q, node, hw, hp, ho, hm, hg⟩
          rcases hm.of_stars with hrest | ⟨name, q, rfl, hrest⟩
          · exact .inl ⟨q, node, hw, hp, ho, hrest, hg⟩
          · exact .inr ⟨name, q, node, hw, hp, ho, hrest, hg⟩
      · rename_i hstars
        split
        · rename_i hpat
          subst hpat
          rw [hflat, hkids]
          constructor
          · rintro ⟨name, q, node, hw, hp, ho, hm, hg⟩
            exact ⟨name :: q, node, hw, hp, ho, .one hm, hg⟩
          · rintro ⟨q, node, hw, hp, ho, hm, hg⟩
            obtain ⟨name, q, rfl, hrest⟩ := hm.of_star
            exact ⟨name, q, node, hw, hp, ho, hrest, hg⟩
        · rename_i hstar
          rw [lookup_globChildren]
          constructor
          · intro hp
            cases hl : children.lookup pat with
            | none => rw [hl] at hp; cases hp
            | some child =>
              rw [hl] at hp
              obtain ⟨q, node, hw, hpq, ho, hm, hg⟩ := (ih (pat, child) (Assoc.mem_of_lookup hl)).mp hp
              refine ⟨pat :: q, node, ?_, by simpa using hpq, ho, .name hstars hstar hm, hg⟩
              rw [walkTo, show (TrieNode.mk task folder children).children = children from rfl, hl]
              exact hw
          · rintro ⟨q, node, hw, hp, ho, hm, hg⟩
            cases hm with
            | skip => exact absurd rfl hstars
            | deeper => exact absurd rfl hstars
            | one => exact absurd rfl hstar
            | @name _ _ q _ _ hm =>
              rw [walkTo, show (TrieNode.mk task folder children).children = children from rfl] at hw
              cases hl : children.lookup pat with
              | none => rw [hl] at hw; cases hw
              | some child =>
                rw [hl] at hw
                refine (ih (pat, child) (Assoc.mem_of_lookup hl)).mpr ⟨q, node, hw, by simpa using hp, ho, hm, hg⟩

theorem PathTrie.mem_glob {t : PathTrie} (h : t.root.Named) {pattern : List String} :
    (p, id) ∈ t.glob pattern ↔ t.resolve p = some id ∧ GlobMatch (pattern.filter (· ≠ "")) p ∧ p ≠ [] := by
  unfold glob globWalk
  simp only [List.mem_filterMap, List.mem_eraseDups, List.mem_insertionSort]
  constructor
  · rintro ⟨⟨p', o⟩, hmem, he⟩
    obtain ⟨id', ho, he⟩ := Option.map_eq_some_iff.mp he
    obtain ⟨rfl, rfl⟩ := Prod.mk.inj he
    obtain rfl : o = some id' := ho
    obtain ⟨q, node, hw, hp, ho, hm, -, hne⟩ := (TrieNode.mem_globWalk h).mp hmem
    obtain rfl : p' = q := hp
    refine ⟨?_, hm, hne⟩
    unfold resolve walkTo
    rw [hw, ho]
    rfl
  · rintro ⟨hr, hm, hne⟩
    unfold resolve at hr
    obtain ⟨node, hw, ht⟩ := Option.bind_eq_some_iff.mp hr
    exact ⟨(p, some id), (TrieNode.mem_globWalk h).mpr ⟨p, node, hw, rfl, ht.symm, hm, rfl, hne⟩, rfl⟩

def SpaceSelector.Names : SpaceSelector → TaskSpaceId → Prop
  | .one space, s => s = space
  | .any, _ => True

theorem Namespace.mem_glob {ns : Namespace} (h : ∀ s, (ns.space s).paths.root.Named) {walk : Finset String → List String}
    (hwalk : ∀ names s, s ∈ walk names ↔ s ∈ names) {space : SpaceSelector} {pattern : List String} :
    id ∈ ns.glob walk space pattern ↔ ∃ s p, space.Names s ∧ (ns.space s).paths.resolve p = some id ∧
      GlobMatch (pattern.filter (· ≠ "")) p ∧ p ≠ [] := by
  unfold glob
  simp only [List.mem_flatMap, List.mem_map, Prod.exists, exists_eq_right, PathTrie.mem_glob (h _)]
  constructor
  · rintro ⟨s, hs, p, hr, hm⟩
    refine ⟨s, p, ?_, hr, hm⟩
    cases space with
    | one space => exact List.mem_singleton.mp hs
    | any => trivial
  · rintro ⟨s, p, hs, hr, hm⟩
    refine ⟨s, ?_, p, hr, hm⟩
    cases space with
    | one space => exact List.mem_singleton.mpr hs
    | any =>
      unfold selected
      rw [hwalk, Finmap.mem_keys]
      by_contra hnot
      have hnew : ns.space s = .new := by
        unfold Namespace.space
        rw [Finmap.lookup_eq_none.mpr hnot]
        rfl
      rw [hnew] at hr
      cases p with
      | nil => cases hr
      | cons x p => cases hr

end Dekit
