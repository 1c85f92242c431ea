import Dekit.Globs
import Dekit.Listing

namespace Dekit

def globMatches.matches' (pattern : List String) (path : TaskPath) : Bool :=
  match pattern, path with
  | [], [] => true
  | [], _ :: _ => false
  | part :: rest, path =>
    if part = "**" then
      matches' rest path || match path with
        | [] => false
        | _ :: names => matches' (part :: rest) names
    else match path with
      | name :: names => (part == "*" || part == name) && matches' rest names
      | [] => false
termination_by pattern.length + path.length

def globMatches (pattern : List String) (path : TaskPath) : Bool :=
  globMatches.matches' (pattern.filter (· ≠ "")) path

theorem globMatches.matches_iff (pattern : List String) (path : TaskPath) :
    matches' pattern path = true ↔ GlobMatch pattern path := by
  induction pattern, path using matches'.induct with
  | case1 =>
    rw [matches'.eq_def]
    exact iff_of_true rfl .nil
  | case2 name names =>
    rw [matches'.eq_def]
    exact iff_of_false Bool.false_ne_true nofun
  | case3 rest path ih ih' =>
    rw [matches'.eq_def]
    simp only [if_true, Bool.or_eq_true, ih]
    cases path with
    | nil =>
      refine ⟨fun h => h.elim .skip fun h => (Bool.false_ne_true h).elim, fun h => ?_⟩
      rcases h.of_stars with h | ⟨x, q, hq, -⟩
      · exact .inl h
      · cases hq
    | cons name names =>
      have hdeep : matches' ("**" :: rest) names = true ↔ GlobMatch ("**" :: rest) names := ih'
      rw [hdeep]
      refine ⟨fun h => h.elim .skip .deeper, fun h => ?_⟩
      rcases h.of_stars with h | ⟨x, q, hq, h⟩
      · exact .inl h
      · obtain ⟨-, rfl⟩ := List.cons.inj hq
        exact .inr h
  | case4 part rest hpart name names ih =>
    rw [matches'.eq_def]
    simp only [if_neg hpart]
    rw [Bool.and_eq_true, Bool.or_eq_true, beq_iff_eq, beq_iff_eq, ih]
    constructor
    · rintro ⟨rfl | rfl, h⟩
      · exact .one h
      · by_cases hstar : part = "*"
        · exact hstar ▸ .one h
        · exact .name hpart hstar h
    · intro h
      cases h with
      | skip | deeper => exact absurd rfl hpart
      | one h => exact ⟨.inl rfl, h⟩
      | name _ _ h => exact ⟨.inr rfl, h⟩
  | case5 part rest hpart =>
    rw [matches'.eq_def]
    simp only [if_neg hpart]
    refine iff_of_false Bool.false_ne_true fun h => ?_
    cases h with
    | skip => exact hpart rfl

theorem globMatches_iff (pattern : List String) (path : TaskPath) :
    globMatches pattern path = true ↔ GlobMatch (pattern.filter (· ≠ "")) path :=
  globMatches.matches_iff _ path

theorem pairwise_eraseDups {α : Type} [BEq α] [LawfulBEq α] {R : α → α → Prop} {l : List α} (h : l.Pairwise R) :
    l.eraseDups.Pairwise fun a b => R a b ∧ a ≠ b := by
  induction hn : l.length using Nat.strong_induction_on generalizing l with
  | _ n ih =>
    cases l with
    | nil => exact List.Pairwise.nil
    | cons a l =>
      obtain ⟨ha, hl⟩ := List.pairwise_cons.mp h
      have hlen : (l.filter fun b => !b == a).length < n := by
        have hle := List.length_filter_le (fun b => !b == a) l
        rw [← hn, List.length_cons]
        omega
      rw [List.eraseDups_cons]
      refine List.pairwise_cons.mpr ⟨fun b hb => ?_, ih _ hlen (hl.filter _) rfl⟩
      obtain ⟨hmem, hne⟩ := List.mem_filter.mp (List.mem_eraseDups.mp hb)
      exact ⟨ha b hmem, fun he => by simp [he] at hne⟩

namespace PathTrie

theorem pathLe_refl (a : TaskPath) : pathLe a a = true := by
  induction a with
  | nil => rfl
  | cons x a ih =>
    rw [pathLe, if_pos rfl]
    exact ih

theorem pathLe_total (a b : TaskPath) : pathLe a b = true ∨ pathLe b a = true := by
  induction a generalizing b with
  | nil => exact .inl (by rw [pathLe])
  | cons x a ih =>
    cases b with
    | nil => exact .inr (by rw [pathLe])
    | cons y b =>
      rw [pathLe, pathLe]
      by_cases hxy : x = y
      · rw [if_pos hxy, if_pos hxy.symm]
        exact ih b
      · rw [if_neg hxy, if_neg (Ne.symm hxy), decide_eq_true_iff, decide_eq_true_iff]
        exact lt_or_gt_of_ne hxy

theorem pathLe_trans {a b c : TaskPath} (h : pathLe a b = true) (h' : pathLe b c = true) : pathLe a c = true := by
  induction a generalizing b c with
  | nil => rw [pathLe]
  | cons x a ih =>
    cases b with
    | nil => rw [pathLe] at h; cases h
    | cons y b =>
      cases c with
      | nil => rw [pathLe] at h'; cases h'
      | cons z c =>
        rw [pathLe] at h h' ⊢
        by_cases hxy : x = y
        · subst hxy
          rw [if_pos rfl] at h
          by_cases hxz : x = z
          · rw [if_pos hxz] at h' ⊢
            exact ih h h'
          · rw [if_neg hxz] at h' ⊢
            exact h'
        · rw [if_neg hxy, decide_eq_true_iff] at h
          by_cases hyz : y = z
          · subst hyz
            rw [if_neg hxy, decide_eq_true_iff]
            exact h
          · rw [if_neg hyz, decide_eq_true_iff] at h'
            have hxz := h.trans h'
            rw [if_neg hxz.ne, decide_eq_true_iff]
            exact hxz

theorem entryLe_total (a b : TaskPath × Option TaskId) : entryLe a b = true ∨ entryLe b a = true := by
  obtain ⟨p, x⟩ := a
  obtain ⟨q, y⟩ := b
  unfold entryLe
  by_cases hpq : p = q
  · rw [if_pos hpq, if_pos hpq.symm]
    cases x with
    | none => exact .inl rfl
    | some x =>
      cases y with
      | none => exact .inr rfl
      | some y => exact (le_total x y).imp decide_eq_true decide_eq_true
  · rw [if_neg hpq, if_neg (Ne.symm hpq)]
    exact pathLe_total p q

theorem entryLe_path {a b : TaskPath × Option TaskId} (h : entryLe a b = true) : pathLe a.1 b.1 = true := by
  unfold entryLe at h
  split at h
  · rename_i he
    rw [he]
    exact pathLe_refl b.1
  · exact h

theorem pathLe_antisymm {a b : TaskPath} (h : pathLe a b = true) (h' : pathLe b a = true) : a = b := by
  induction a generalizing b with
  | nil =>
    cases b with
    | nil => rfl
    | cons y b => rw [pathLe] at h'; cases h'
  | cons x a ih =>
    cases b with
    | nil => rw [pathLe] at h; cases h
    | cons y b =>
      rw [pathLe] at h h'
      by_cases hxy : x = y
      · subst hxy
        rw [if_pos rfl] at h h'
        rw [ih h h']
      · rw [if_neg hxy, decide_eq_true_iff] at h
        rw [if_neg (Ne.symm hxy), decide_eq_true_iff] at h'
        exact absurd h h'.asymm

theorem entryLe_trans {a b c : TaskPath × Option TaskId} (h : entryLe a b = true) (h' : entryLe b c = true) :
    entryLe a c = true := by
  have hp := entryLe_path h
  have hq := entryLe_path h'
  obtain ⟨p, x⟩ := a
  obtain ⟨q, y⟩ := b
  obtain ⟨r, z⟩ := c
  by_cases hpr : p = r
  · subst hpr
    obtain rfl := pathLe_antisymm hp hq
    unfold entryLe at h h' ⊢
    rw [if_pos rfl] at h h' ⊢
    cases x with
    | none => rfl
    | some x =>
      cases y with
      | none => cases h
      | some y =>
        cases z with
        | none => cases h'
        | some z => exact decide_eq_true ((of_decide_eq_true h).trans (of_decide_eq_true h'))
  · unfold entryLe
    rw [if_neg hpr]
    exact pathLe_trans hp hq

theorem globWalk_sorted (t : PathTrie) (pattern : List String) (groups : Bool) :
    (t.globWalk pattern groups).Pairwise fun a b => entryLe a b = true ∧ a ≠ b := by
  have htotal : Std.Total fun a b : TaskPath × Option TaskId => entryLe a b = true := ⟨entryLe_total⟩
  have htrans : IsTrans _ fun a b : TaskPath × Option TaskId => entryLe a b = true := ⟨fun _ _ _ => entryLe_trans⟩
  exact pairwise_eraseDups (List.pairwise_insertionSort _ _)

theorem mem_globWalk {t : PathTrie} (h : t.root.Named) {pattern : List String} {groups : Bool} {p : TaskPath}
    {o : Option TaskId} : (p, o) ∈ t.globWalk pattern groups ↔ ∃ node, t.walkTo p = some node ∧ o = node.task ∧
      GlobMatch (pattern.filter (· ≠ "")) p ∧ (groups || o.isSome) = true ∧ p ≠ [] := by
  unfold globWalk
  simp only [List.mem_eraseDups, List.mem_insertionSort, TrieNode.mem_globWalk h]
  constructor
  · rintro ⟨q, node, hw, rfl, hrest⟩
    exact ⟨node, hw, hrest⟩
  · rintro ⟨node, hw, hrest⟩
    exact ⟨p, node, hw, rfl, hrest⟩

theorem globWalk_paths {t : PathTrie} (h : t.root.Named) (pattern : List String) (groups : Bool) :
    (t.globWalk pattern groups).Pairwise fun a b => pathLe a.1 b.1 = true ∧ a.1 ≠ b.1 := by
  refine (globWalk_sorted t pattern groups).imp_of_mem fun {a b} ha hb hab => ⟨entryLe_path hab.1, fun he => hab.2 ?_⟩
  obtain ⟨node, hw, ho, -⟩ := (mem_globWalk h (p := a.1) (o := a.2)).mp ha
  obtain ⟨node', hw', ho', -⟩ := (mem_globWalk h (p := b.1) (o := b.2)).mp hb
  rw [he, hw'] at hw
  exact Prod.ext he (by rw [ho, ho', Option.some.inj hw])

/-- Both globs find what the pattern stands for, each once and in order, and the console's tells the same. -/
theorem globs_match {t : PathTrie} {pending : List TaskPath} (h : Built pending t) (pattern : List String) :
    (∀ p id, (p, id) ∈ t.glob pattern ↔ t.resolve p = some id ∧ GlobMatch (pattern.filter (· ≠ "")) p) ∧
    (t.glob pattern).Pairwise (fun a b => pathLe a.1 b.1 = true ∧ a.1 ≠ b.1) ∧
    (∀ p, p ∈ t.globNodes pattern ↔ (t.walkTo p).isSome = true ∧ p ≠ [] ∧ GlobMatch (pattern.filter (· ≠ "")) p) ∧
    (t.globNodes pattern).Pairwise (fun a b => pathLe a b = true ∧ a ≠ b) ∧
    ∀ p, (t.walkTo p).isSome = true → p ≠ [] → (globMatches pattern p = true ↔ p ∈ t.globNodes pattern) := by
  obtain ⟨hheld, hbare⟩ := h.held
  have hnodes (p : TaskPath) : p ∈ t.globNodes pattern ↔
      (t.walkTo p).isSome = true ∧ p ≠ [] ∧ GlobMatch (pattern.filter (· ≠ "")) p := by
    unfold globNodes
    rw [List.mem_map]
    constructor
    · rintro ⟨⟨q, o⟩, hmem, rfl⟩
      obtain ⟨node, hw, -, hm, -, hne⟩ := (mem_globWalk hheld.named).mp hmem
      exact ⟨by rw [hw]; rfl, hne, hm⟩
    · rintro ⟨hw, hne, hm⟩
      obtain ⟨node, hw⟩ := Option.isSome_iff_exists.mp hw
      exact ⟨(p, node.task), (mem_globWalk hheld.named).mpr ⟨node, hw, rfl, hm, rfl, hne⟩, rfl⟩
  refine ⟨fun p id => ?_, ?_, hnodes, ?_, fun p hw hne => ?_⟩
  · rw [mem_glob hheld.named]
    refine ⟨fun ⟨hr, hm, _⟩ => ⟨hr, hm⟩, fun ⟨hr, hm⟩ => ⟨hr, hm, ?_⟩⟩
    rintro rfl
    rw [← content_task, hbare] at hr
    cases hr
  · refine List.Pairwise.filterMap _ (fun a b hab c hc d hd => ?_) (globWalk_paths hheld.named pattern false)
    obtain ⟨x, -, rfl⟩ := Option.map_eq_some_iff.mp hc
    obtain ⟨y, -, rfl⟩ := Option.map_eq_some_iff.mp hd
    exact hab
  · exact List.Pairwise.map _ (fun a b hab => hab) (globWalk_paths hheld.named pattern true)
  · rw [globMatches_iff, hnodes]
    exact ⟨fun hm => ⟨hw, hne, hm⟩, fun h => h.2.2⟩

/-- `**` stands for what is in a folder at any depth. -/
theorem globs_match_shelf : (["a", "b"], 2) ∈ shelf.glob ["a", "**"] :=
  ((globs_match built_shelf ["a", "**"]).1 ["a", "b"] 2).mpr
    ⟨rfl, .name (by decide) (by decide) (.deeper (.skip .nil))⟩

end PathTrie

end Dekit
