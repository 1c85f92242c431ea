import Dekit.Moving

/-! When a trie refuses what is asked of it, by what is at which path before. -/

namespace Dekit

theorem anyChild_some {cs : Children} {path found : TaskPath} (h : anyChild cs path = some found) :
    ∃ e ∈ cs, ∃ found, e.2.anyNode (path ++ [e.1]) = some found := by
  induction cs with
  | nil => cases h
  | cons d cs ih =>
    obtain ⟨name, child⟩ := d
    rw [anyChild] at h
    cases hd : child.anyNode (path ++ [name]) with
    | some found => exact ⟨(name, child), List.mem_cons_self, found, hd⟩
    | none =>
      rw [hd] at h
      obtain ⟨e, he, hfound⟩ := ih h
      exact ⟨e, List.mem_cons_of_mem _ he, hfound⟩

theorem TrieNode.Named.found {n : TrieNode} (h : n.Named) {path found : TaskPath}
    (hfound : n.anyNode path = some found) :
    ∃ q s, n.at' q = some s ∧ s ≠ (none, none) := by
  induction h generalizing path found with
  | @mk task folder children hn hall ih =>
    rw [TrieNode.anyNode] at hfound
    split at hfound
    · rename_i hid
      refine ⟨[], _, rfl, fun he => ?_⟩
      obtain ⟨rfl, rfl⟩ := Prod.mk.inj he
      cases hid
    · obtain ⟨e, he, found', hfound'⟩ := anyChild_some hfound
      obtain ⟨q, s, hq, hs⟩ := ih e he hfound'
      refine ⟨e.1 :: q, s, ?_, hs⟩
      rw [TrieNode.at_cons, show (TrieNode.mk task folder children).children = children from rfl,
        Assoc.lookup_of_mem hn he]
      exact hq

namespace TaskPath

variable {src dst : TaskPath}

theorem takeWhile_parents_any {P : TaskPath → Bool} (hpre : dst <+: src) (hne : dst ≠ src)
    (hall : ∀ q, dst <+: q → q <+: src → q ≠ src → P q = true) : ((parents src).takeWhile P).any (· = dst) = true := by
  induction src using List.reverseRecOn with
  | nil => exact absurd (List.prefix_nil.mp hpre) hne
  | append_singleton a x ih =>
    have hshort : a ≠ a ++ [x] := by simp
    have hdst : dst <+: a := (List.prefix_concat_iff.mp hpre).resolve_left hne
    have ha : P a = true := hall a hdst (List.prefix_append _ _) hshort
    rw [parents_append_single, List.takeWhile_cons_of_pos ha, List.any_cons, Bool.or_eq_true]
    by_cases hda : dst = a
    · exact .inl (by simp [hda])
    · refine .inr (ih hdst hda fun q hq hqa hne' => hall q hq (hqa.trans (List.prefix_append _ _)) ?_)
      rintro rfl
      have hlen := hqa.length_le
      simp at hlen

end TaskPath

namespace PathTrie

variable {t : PathTrie} {src dst path q : TaskPath} {pending : List TaskPath}

theorem taskAbove_some (hq : q <+: path) (hne : q ≠ path) (h : (t.content q).1 ≠ none) : t.taskAbove path ≠ none :=
  fun habove => h (taskAbove_none habove hq hne)

theorem exists_taskAbove (h : t.taskAbove path ≠ none) : ∃ q, q <+: path ∧ q ≠ path ∧ (t.content q).1 ≠ none := by
  obtain ⟨q, hq⟩ := Option.ne_none_iff_exists'.mp h
  obtain ⟨hpre, hne⟩ := TaskPath.mem_parents.mp (List.mem_of_find?_eq_some hq)
  refine ⟨q, hpre, hne, ?_⟩
  rw [content_task]
  unfold taskAbove at hq
  have hsome := List.find?_some hq
  exact Option.isSome_iff_ne_none.mp hsome

theorem insert_free (ht : t.root.Named) (habove : t.taskAbove path = none)
    (hfree : ∀ q, t.content (path ++ q) = (none, none)) (id : TaskId) (place : Place) :
    ∃ t', t.insert path id place = .ok t' := by
  unfold insert
  rw [habove]
  simp only
  cases hw : t.walkTo path with
  | none => exact ⟨_, rfl⟩
  | some node =>
    have hat (q : TaskPath) : t.root.at' (path ++ q) = node.at' q := TrieNode.at_append hw q
    have hid : node.id = none := by
      have hhere := hfree []
      rw [content_of_at (hat [])] at hhere
      exact TrieNode.spot_eq_none.mp hhere
    simp only [hid]
    cases hany : node.anyNode path with
    | none => exact ⟨_, rfl⟩
    | some found =>
      obtain ⟨q, s, hq, hs⟩ := (ht.walkTo hw).found hany
      exact absurd ((content_of_at ((hat q).trans hq)).symm.trans (hfree q)) hs

theorem insertFolder_free (habove : t.taskAbove path = none) (hfree : t.content path = (none, none)) (id : TaskId)
    (place : Place) : ∃ t', t.insertFolder path id place = .ok t' := by
  unfold insertFolder
  rw [habove]
  have hnone : (t.walkTo path).bind TrieNode.id = none := by
    cases hw : t.walkTo path with
    | none => rfl
    | some node =>
      rw [content_of_at (t := t) (p := path) (s := node.spot) (by unfold TrieNode.at'; rw [show t.root.walkTo path = _ from hw]; rfl)]
        at hfree
      exact TrieNode.spot_eq_none.mp hfree
  simp only [hnone]
  exact ⟨_, rfl⟩

theorem insert_refused (ht : t.Held pending) (path : TaskPath) (id : TaskId) (place : Place) :
    (∃ e, t.insert path id place = .error e) ↔
      (∃ q, q <+: path ∧ q ≠ path ∧ (t.content q).1 ≠ none) ∨ ∃ q, t.content (path ++ q) ≠ (none, none) := by
  constructor
  · rintro ⟨e, he⟩
    by_contra hnot
    rw [not_or, not_exists, not_exists] at hnot
    have habove : t.taskAbove path = none := by
      by_contra hsome
      obtain ⟨q, hq⟩ := exists_taskAbove hsome
      exact hnot.1 q hq
    obtain ⟨t', hok⟩ := insert_free ht.named habove (fun q => not_not.mp (hnot.2 q)) id place
    rw [hok] at he
    cases he
  · intro h
    cases hok : t.insert path id place with
    | error e => exact ⟨e, rfl⟩
    | ok t' =>
      exfalso
      obtain ⟨hheld, hcontent, hfree⟩ := insert_ok ht hok
      rcases h with ⟨q, hpre, hne, htask⟩ | ⟨q, hq⟩
      · obtain ⟨r, rfl⟩ := hpre
        have hr : r ≠ [] := by
          rintro rfl
          simp at hne
        cases hc : t.content q with
        | mk task folder =>
          cases task with
          | none => exact htask (by rw [hc])
          | some a =>
            have hnew := hheld.above q a folder r (by rw [hcontent, if_neg hne, hc]) hr
            rw [hcontent, if_pos rfl] at hnew
            cases hnew
      · by_cases hnil : q = []
        · rw [hnil, List.append_nil] at hq
          exact hq hfree
        · have hnew := hheld.above path id none q (by rw [hcontent, if_pos rfl]) hnil
          rw [hcontent, if_neg (by simpa using hnil)] at hnew
          exact hq hnew

theorem insertFolder_refused (ht : t.Held pending) (path : TaskPath) (id : TaskId) (place : Place) :
    (∃ e, t.insertFolder path id place = .error e) ↔
      (∃ q, q <+: path ∧ q ≠ path ∧ (t.content q).1 ≠ none) ∨ t.content path ≠ (none, none) := by
  constructor
  · rintro ⟨e, he⟩
    by_contra hnot
    rw [not_or, not_exists, not_not] at hnot
    have habove : t.taskAbove path = none := by
      by_contra hsome
      obtain ⟨q, hq⟩ := exists_taskAbove hsome
      exact hnot.1 q hq
    obtain ⟨t', hok⟩ := insertFolder_free habove hnot.2 id place
    rw [hok] at he
    cases he
  · intro h
    cases hok : t.insertFolder path id place with
    | error e => exact ⟨e, rfl⟩
    | ok t' =>
      exfalso
      obtain ⟨hheld, hcontent, hfree⟩ := insertFolder_ok ht hok
      rcases h with ⟨q, hpre, hne, htask⟩ | hpath
      · obtain ⟨r, rfl⟩ := hpre
        have hr : r ≠ [] := by
          rintro rfl
          simp at hne
        cases hc : t.content q with
        | mk task folder =>
          cases task with
          | none => exact htask (by rw [hc])
          | some a =>
            have hnew := hheld.above q a folder r (by rw [hcontent, if_neg hne, hc]) hr
            rw [hcontent, if_pos rfl] at hnew
            cases hnew
      · exact hpath hfree

theorem free_of_vacant (ht : t.Held []) (hsrc : t.root.at' src ≠ none) (hdst : dst ≠ []) (hne : src ≠ dst)
    (hout : ¬ src <+: dst) (hvacant : ∀ q, dst <+: q → ¬ src <+: q → t.content q = (none, none)) :
    t.root.at' dst = none ∨ t.emptied src dst = true := by
  by_cases hat : t.root.at' dst = none
  · exact .inl hat
  right
  obtain ⟨q, hq⟩ := ht.full hat hdst
  have hunder : src <+: dst ++ q := by
    by_contra hnot
    exact hq (hvacant _ (List.prefix_append _ _) hnot)
  have hpre : dst <+: src := (List.prefix_or_prefix_of_prefix hunder (List.prefix_append dst q)).resolve_left hout
  refine TaskPath.takeWhile_parents_any hpre hne.symm fun p hp hps hpne => ?_
  obtain ⟨s, rfl⟩ := hps
  cases s with
  | nil => simp at hpne
  | cons x s =>
    have hout' : ¬ p ++ x :: s <+: p := fun h => by
      have hlen := h.length_le
      simp at hlen
    have hhere : t.root.at' p ≠ none := TrieNode.at_of_append hsrc
    cases hw : t.walkTo p with
    | none =>
      unfold TrieNode.at' at hhere
      rw [show t.root.walkTo p = none from hw] at hhere
      exact absurd rfl hhere
    | some node =>
      have hnamed : node.Named := ht.named.walkTo hw
      have hfolder : node.folder = none := by
        have hcontent := hvacant p hp hout'
        rw [Prod.ext_iff, content_folder, hw] at hcontent
        exact hcontent.2
      -- Another child would lead to something that stays.
      have hname (e : String × TrieNode) (he : e ∈ node.children) : e.1 = x := by
        by_contra hex
        have hchild : t.root.at' (p ++ [e.1]) ≠ none := by
          rw [TrieNode.at_append hw, TrieNode.at_cons, Assoc.lookup_of_mem hnamed.nodup he]
          simp [TrieNode.at', TrieNode.walkTo]
        obtain ⟨r, hr⟩ := ht.full hchild (by simp)
        refine hr (hvacant _ ?_ fun hs => ?_)
        · exact hp.trans (by rw [List.append_assoc]; exact List.prefix_append _ _)
        · rw [List.append_assoc, List.prefix_append_right_inj] at hs
          exact hex (List.cons_prefix_cons.mp hs).1.symm
      have hone : node.children.length = 1 := by
        have hmem : t.root.at' (p ++ x :: s) ≠ none := hsrc
        rw [TrieNode.at_append hw, TrieNode.at_cons] at hmem
        have hnodup := hnamed.nodup
        cases hc : node.children with
        | nil => simp [hc] at hmem
        | cons e rest =>
          cases rest with
          | nil => rfl
          | cons e' rest =>
            rw [hc] at hname hnodup
            have hfirst := hname e List.mem_cons_self
            have hsecond := hname e' (List.mem_cons_of_mem _ List.mem_cons_self)
            simp [hfirst, hsecond] at hnodup
      simp [hone, hfolder]

theorem movable_iff (ht : t.Held []) : (∃ node, t.Movable src dst node) ↔ src ≠ [] ∧ dst ≠ [] ∧
    (∃ q, t.content (src ++ q) ≠ (none, none)) ∧ (src ≠ dst → ¬ src <+: dst ∧
      (∀ q, q <+: dst → q ≠ dst → (t.content q).1 = none) ∧
      ∀ q, dst <+: q → ¬ src <+: q → t.content q = (none, none)) := by
  constructor
  · rintro ⟨node, h⟩
    exact ⟨h.source, h.target, h.found ht,
      fun hne => ⟨h.outside hne, fun q hq hqne => taskAbove_none (h.clear hne) hq hqne,
      fun q hq hsrc => h.vacant ht hq hsrc⟩⟩
  · rintro ⟨hsrc, hdst, ⟨q, hq⟩, hrest⟩
    have hat : t.root.at' (src ++ q) ≠ none := fun hnone => hq (by rw [content, hnone]; rfl)
    have hhere : t.root.at' src ≠ none := TrieNode.at_of_append hat
    cases hw : t.root.walkTo src with
    | none =>
      unfold TrieNode.at' at hhere
      rw [hw] at hhere
      exact absurd rfl hhere
    | some node =>
      refine ⟨node, hsrc, hdst, hw, ?_, fun hne => (hrest hne).1, fun hne => ?_, fun hne => ?_⟩
      · by_contra hempty
        rw [Bool.not_eq_false] at hempty
        rw [TrieNode.at_append hw] at hat
        have hspot := TrieNode.at_of_isEmpty hempty q
        refine hq ?_
        unfold content
        rw [TrieNode.at_append hw, hspot]
        split <;> rfl
      · by_contra hsome
        obtain ⟨p, hp, hpne, htask⟩ := exists_taskAbove hsome
        exact htask ((hrest hne).2.1 p hp hpne)
      · exact free_of_vacant ht hhere hdst hne (hrest hne).1 (hrest hne).2.2

theorem moveNode_ok_iff {place : Place} : (∃ r, t.moveNode src dst place = .ok r) ↔ (∃ node, t.Movable src dst node) ∧
    ∀ after, place = .after after → TaskPath.parent after = TaskPath.parent dst ∧ after ≠ src ∧ after ≠ dst ∧
      (t.walkTo after).isSome = true := by
  constructor
  · rintro ⟨⟨t', moved⟩, hok⟩
    obtain ⟨hr, hm⟩ := movable_of_ok hok
    refine ⟨hm, fun after hplace => ?_⟩
    subst hplace
    unfold moveRefused at hr
    split at hr
    · cases hr
    · split at hr
      · cases hr
      · split at hr
        · cases hr
        · split at hr
          · cases hr
          · split at hr
            · cases hr
            · dsimp only at hr
              by_contra hbad
              rw [if_neg hbad] at hr
              cases hr
  · rintro ⟨⟨node, hm⟩, hafter⟩
    have hroot : (TaskPath.isRoot src || TaskPath.isRoot dst) = false := by
      simp [TaskPath.isRoot, hm.source, hm.target]
    have hwalk : t.walkTo src = some node := hm.walk
    have hinto : ¬ (src ≠ dst ∧ TaskPath.isAtOrUnder dst src = true) := fun h =>
      hm.outside h.1 (List.isPrefixOf_iff_prefix.mp h.2)
    have habove : (if src ≠ dst then t.taskAbove dst else none) = none := by
      split
      · exact hm.clear ‹_›
      · rfl
    have htaken : ¬ (src ≠ dst ∧ (t.walkTo dst).isSome = true ∧ (!t.emptied src dst) = true) := by
      rintro ⟨hne, hsome, hkept⟩
      rcases hm.free hne with hnone | hempty
      · rw [TrieNode.at', Option.map_eq_none_iff] at hnone
        rw [show t.walkTo dst = none from hnone] at hsome
        cases hsome
      · rw [hempty] at hkept
        cases hkept
    have hr : t.moveRefused src dst place = none := by
      unfold moveRefused
      rw [hroot, hwalk, Option.all_some, hm.full, if_neg Bool.false_ne_true, if_neg Bool.false_ne_true,
        if_neg hinto, habove]
      simp only
      rw [if_neg htaken]
      cases place with
      | after after => exact if_pos (hafter after rfl)
      | keep | first | last => rfl
    unfold moveNode
    rw [hr, hwalk]
    exact ⟨_, rfl⟩

theorem moveNode_refused (ht : t.Held []) (src dst : TaskPath) (place : Place) :
    (∃ e, t.moveNode src dst place = .error e) ↔ src = [] ∨ dst = [] ∨ (∀ q, t.content (src ++ q) = (none, none)) ∨
      (src ≠ dst ∧ (src <+: dst ∨ (∃ q, q <+: dst ∧ q ≠ dst ∧ (t.content q).1 ≠ none) ∨
        ∃ q, dst <+: q ∧ ¬ src <+: q ∧ t.content q ≠ (none, none))) ∨
      ∃ after, place = .after after ∧ ¬ (TaskPath.parent after = TaskPath.parent dst ∧ after ≠ src ∧ after ≠ dst ∧
        (t.walkTo after).isSome = true) := by
  have hcases : (∃ e, t.moveNode src dst place = .error e) ↔ ¬ ∃ r, t.moveNode src dst place = .ok r := by
    cases t.moveNode src dst place with
    | error e => simp
    | ok r => simp
  rw [hcases, moveNode_ok_iff, movable_iff ht]
  constructor
  · intro hnot
    by_contra hno
    push Not at hno
    obtain ⟨hsrc, hdst, hsome, hrest, hafter⟩ := hno
    exact hnot ⟨⟨hsrc, hdst, hsome, hrest⟩, fun after hplace => hafter after hplace⟩
  · rintro h ⟨⟨hsrc, hdst, ⟨q, hq⟩, hrest⟩, hafter⟩
    rcases h with h | h | h | ⟨hne, hpre | ⟨p, hp, hpne, htask⟩ | ⟨p, hp, hout, hthere⟩⟩ | ⟨after, hplace, hbad⟩
    · exact hsrc h
    · exact hdst h
    · exact hq (h q)
    · exact (hrest hne).1 hpre
    · exact htask ((hrest hne).2.1 p hp hpne)
    · exact hthere ((hrest hne).2.2 p hp hout)
    · exact hbad (hafter after hplace)

end PathTrie

end Dekit
