import Mathlib.Data.List.Infix
import Dekit.Spots

namespace Dekit

namespace TaskPath

variable {p q : TaskPath}

theorem parents_append_single (p : TaskPath) (x : String) : parents (p ++ [x]) = p :: parents p := by
  have hhead (l : TaskPath) : l.inits.reverse = l :: parents l := by
    unfold parents
    induction l using List.reverseRecOn with
    | nil => rfl
    | append_singleton l x _ => rw [List.inits_append]; simp
  have hsplit : (p ++ [x]).inits.reverse = (p ++ [x]) :: p.inits.reverse := by
    rw [List.inits_append]
    simp
  rw [parents, hsplit, List.tail_cons, hhead]

theorem mem_parents : q ∈ parents p ↔ q <+: p ∧ q ≠ p := by
  induction p using List.reverseRecOn with
  | nil =>
    refine ⟨fun h => (by cases h), ?_⟩
    rintro ⟨hpre, hne⟩
    exact absurd (List.prefix_nil.mp hpre) hne
  | append_singleton p x ih =>
    rw [parents_append_single, List.mem_cons, ih, List.prefix_concat_iff]
    constructor
    · rintro (rfl | ⟨hpre, -⟩)
      · exact ⟨.inr (List.prefix_refl q), by simp⟩
      · refine ⟨.inr hpre, ?_⟩
        rintro rfl
        have := hpre.length_le
        simp at this
    · rintro ⟨he | hpre, hne⟩
      · exact absurd he hne
      · by_cases hqp : q = p
        · exact .inl hqp
        · exact .inr ⟨hpre, hqp⟩

end TaskPath

theorem TrieNode.Named.leaf {n : TrieNode} (h : n.Named) :
    ∃ q s, n.at' q = some s ∧ (s ≠ (none, none) ∨ ∀ x, n.at' (q ++ [x]) = none) := by
  induction h with
  | @mk task folder children hn hall ih =>
    cases children with
    | nil => exact ⟨[], _, rfl, .inr fun x => rfl⟩
    | cons e children =>
      obtain ⟨name, child⟩ := e
      obtain ⟨q, s, hq, hs⟩ := ih (name, child) List.mem_cons_self
      have hat (p : TaskPath) :
        (TrieNode.mk task folder ((name, child) :: children)).at' (name :: p) = child.at' p := by
        rw [TrieNode.at_cons]
        simp [TrieNode.children]
      refine ⟨name :: q, s, (hat q).trans hq, hs.imp_right fun hnone x => ?_⟩
      rw [List.cons_append, hat]
      exact hnone x

theorem anyChild_none {cs : Children} {path : TaskPath} (h : anyChild cs path = none) {e : String × TrieNode}
    (he : e ∈ cs) : e.2.anyNode (path ++ [e.1]) = none := by
  induction cs with
  | nil => cases he
  | cons d cs ih =>
    obtain ⟨name, child⟩ := d
    rw [anyChild] at h
    cases hd : child.anyNode (path ++ [name]) with
    | some p => rw [hd] at h; cases h
    | none =>
      rw [hd] at h
      rcases List.mem_cons.mp he with rfl | he
      · exact hd
      · exact ih h he

theorem TrieNode.Named.barren {n : TrieNode} (h : n.Named) {path : TaskPath} (hpath : path ≠ [])
    (hany : n.anyNode path = none) {q : TaskPath} {s : Spot} (hq : n.at' q = some s) : s = (none, none) := by
  induction h generalizing path q with
  | @mk task folder children hn hall ih =>
    rw [TrieNode.anyNode] at hany
    have hroot : path.isRoot = false := by
      cases path with
      | nil => exact absurd rfl hpath
      | cons x p => rfl
    simp only [hroot] at hany
    split at hany
    · cases hany
    · rename_i hid
      cases q with
      | nil =>
        have hs := Option.some.inj hq
        rw [← hs]
        cases task <;> cases folder <;> first | rfl | simp at hid
      | cons x q =>
        rw [TrieNode.at_cons] at hq
        cases hl : children.lookup x with
        | none => rw [show (TrieNode.mk task folder children).children = children from rfl, hl] at hq; cases hq
        | some child =>
          rw [show (TrieNode.mk task folder children).children = children from rfl, hl] at hq
          have he := Assoc.mem_of_lookup hl
          exact ih (x, child) he (by simp) (anyChild_none hany he) hq

theorem TrieNode.Named.under {n : TrieNode} (h : n.Named) {path : TaskPath} (hid : n.id = none)
    (hany : n.anyNode path = none) {q : TaskPath} {s : Spot} (hne : q ≠ []) (hq : n.at' q = some s) :
    s = (none, none) := by
  cases h with
  | @mk task folder children hn hall =>
    cases q with
    | nil => exact absurd rfl hne
    | cons x q =>
      rw [TrieNode.anyNode] at hany
      have hnot : (task <|> folder).isSome = false := by
        cases task <;> cases folder <;> first | rfl | cases hid
      simp only [hnot] at hany
      rw [TrieNode.at_cons] at hq
      cases hl : children.lookup x with
      | none => rw [show (TrieNode.mk task folder children).children = children from rfl, hl] at hq; cases hq
      | some child =>
        rw [show (TrieNode.mk task folder children).children = children from rfl, hl] at hq
        have he := Assoc.mem_of_lookup hl
        exact (hall (x, child) he).barren (by simp) (anyChild_none hany he) hq

namespace PathTrie

variable {t t' : PathTrie} {p q path : TaskPath} {id : TaskId} {pending : List TaskPath}

def content (t : PathTrie) (p : TaskPath) : Spot := (t.root.at' p).getD (none, none)

/-- The names are in order, but for the places held under the pending paths. -/
structure Held (t : PathTrie) (pending : List TaskPath) : Prop where
  named : t.root.Named
  one : ∀ p a b, t.content p ≠ (some a, some b)
  above : ∀ p a b q, t.content p = (some a, b) → q ≠ [] → t.content (p ++ q) = (none, none)
  live : ∀ p, p ≠ [] → t.root.at' p = some (none, none) → (∀ x, t.root.at' (p ++ [x]) = none) →
    ∃ r ∈ pending, p <+: r

theorem content_of_at {s : Spot} (h : t.root.at' p = some s) : t.content p = s := by
  simp [content, h]

theorem at_of_content {s : Spot} (h : t.content p = s) (hs : s ≠ (none, none)) : t.root.at' p = some s := by
  unfold content at h
  cases ha : t.root.at' p with
  | none => rw [ha] at h; exact absurd h.symm hs
  | some s' => rw [ha] at h; rw [← h]; rfl

theorem content_task (t : PathTrie) (p : TaskPath) : (t.content p).1 = t.resolve p := by
  unfold content resolve walkTo TrieNode.at'
  cases t.root.walkTo p <;> rfl

theorem content_folder (t : PathTrie) (p : TaskPath) : (t.content p).2 = (t.walkTo p).bind TrieNode.folder := by
  unfold content walkTo TrieNode.at'
  cases t.root.walkTo p <;> rfl

theorem content_id (t : PathTrie) (p : TaskPath) (h : (t.walkTo p).bind TrieNode.id = none) :
    t.content p = (none, none) := by
  unfold content TrieNode.at'
  unfold walkTo at h
  cases hw : t.root.walkTo p with
  | none => rfl
  | some n =>
    rw [hw] at h
    exact TrieNode.spot_eq_none.mpr h

theorem taskAbove_none (h : t.taskAbove path = none) (hq : q <+: path) (hne : q ≠ path) : (t.content q).1 = none := by
  unfold taskAbove at h
  rw [List.find?_eq_none] at h
  have := h q (TaskPath.mem_parents.mpr ⟨hq, hne⟩)
  rw [content_task]
  simpa using this

theorem Held.mono {pending' : List TaskPath} (h : t.Held pending) (hp : ∀ r ∈ pending, r ∈ pending') :
    t.Held pending' := by
  refine ⟨h.named, h.one, h.above, fun p hne hat hkids => ?_⟩
  obtain ⟨r, hr, hpr⟩ := h.live p hne hat hkids
  exact ⟨r, hp r hr, hpr⟩

theorem content_make {f : TrieNode → TrieNode} {φ : Spot → Spot} (hspot : ∀ m, (f m).spot = φ m.spot)
    (hkids : ∀ m, (f m).children = m.children) (t : PathTrie) (path : TaskPath) (place : Place) (p : TaskPath) :
    (⟨t.root.make path place f path⟩ : PathTrie).content p = if p = path then φ (t.content path) else t.content p := by
  unfold content
  rw [TrieNode.at_make hspot hkids]
  split
  · rfl
  · split <;> rfl

namespace Held

theorem make (h : t.Held pending) (habove : t.taskAbove path = none) (place : Place) {f : TrieNode → TrieNode}
    {φ : Spot → Spot} (hspot : ∀ m, (f m).spot = φ m.spot) (hkids : ∀ m, (f m).children = m.children)
    (hnamed : ∀ m : TrieNode, m.Named → (f m).Named) (hone : ∀ a b, φ (t.content path) ≠ (some a, some b))
    (hunder : ∀ a b q, φ (t.content path) = (some a, b) → q ≠ [] → t.content (path ++ q) = (none, none)) :
    (⟨t.root.make path place f path⟩ : PathTrie).Held
      (if φ (t.content path) = (none, none) then path :: pending else pending) := by
  have hat := TrieNode.at_make hspot hkids path place t.root path
  have hcontent := content_make hspot hkids t path place
  refine ⟨TrieNode.named_make h.named hnamed path place path, ?_, ?_, ?_⟩
  · intro p a b
    rw [hcontent]
    split
    · exact hone a b
    · exact h.one p a b
  · intro p a b q hp hq
    rw [hcontent] at hp ⊢
    split at hp
    · rename_i he
      subst he
      rw [if_neg (by simpa using hq)]
      exact hunder a b q hp hq
    · rename_i he
      split
      · rename_i hpq
        have hnone := taskAbove_none habove (hpq ▸ List.prefix_append p q) he
        rw [hp] at hnone
        cases hnone
      · exact h.above p a b q hp hq
  · intro p hne hp hkids'
    rw [hat] at hp
    split at hp
    · rename_i he
      have hnone : φ (t.content path) = (none, none) := Option.some.inj hp
      rw [if_pos hnone]
      exact ⟨path, List.mem_cons_self, he ▸ List.prefix_refl p⟩
    · rename_i he
      split at hp
      · rename_i hpre
        obtain ⟨r, hr⟩ := hpre
        cases r with
        | nil => exact absurd (by simpa using hr) he
        | cons x r =>
          have hx := hkids' x
          rw [hat] at hx
          have hpre : p ++ [x] <+: path := ⟨r, by simpa using hr⟩
          by_cases hlast : p ++ [x] = path
          · rw [if_pos hlast] at hx
            cases hx
          · rw [if_neg hlast, if_pos hpre] at hx
            cases hx
      · rename_i hpre
        obtain ⟨r, hr, hpr⟩ := h.live p hne hp fun x => by
          have hx := hkids' x
          rw [hat] at hx
          have hnot : ¬ p ++ [x] <+: path := fun hx => hpre ((List.prefix_append p [x]).trans hx)
          have hlast : p ++ [x] ≠ path := by
            intro he
            rw [he] at hnot
            exact hnot (List.prefix_refl _)
          rw [if_neg hlast, if_neg hnot] at hx
          exact hx
        refine ⟨r, ?_, hpr⟩
        split
        · exact List.mem_cons_of_mem _ hr
        · exact hr

end Held

theorem insert_ok {place : Place} (h : t.Held pending) (hok : t.insert path id place = .ok t') :
    t'.Held pending ∧ (∀ p, t'.content p = if p = path then (some id, none) else t.content p) ∧
      t.content path = (none, none) := by
  unfold insert at hok
  cases habove : t.taskAbove path with
  | some above => rw [habove] at hok; cases hok
  | none =>
    rw [habove] at hok
    simp only at hok
    have hfree : t.content path = (none, none) ∧ (∀ q, q ≠ [] → t.content (path ++ q) = (none, none)) ∧
        t' = ⟨t.root.make path place (TrieNode.setTask (some id)) path⟩ := by
      cases hw : t.walkTo path with
      | none =>
        rw [hw] at hok
        have hnone : t.root.at' path = none := by
          unfold TrieNode.at'
          rw [show t.root.walkTo path = none from hw]
          rfl
        refine ⟨?_, fun q _ => ?_, (Except.ok.inj hok).symm⟩
        · rw [content, hnone]
          rfl
        · rw [content, TrieNode.at_append_none hnone]
          rfl
      | some node =>
        rw [hw] at hok
        simp only at hok
        cases hid : node.id with
        | some existing => rw [hid] at hok; cases hok
        | none =>
          rw [hid] at hok
          simp only at hok
          cases hany : node.anyNode path with
          | some below => rw [hany] at hok; cases hok
          | none =>
            rw [hany] at hok
            refine ⟨?_, fun q hq => ?_, (Except.ok.inj hok).symm⟩
            · exact content_id t path (by rw [hw]; exact hid)
            · unfold content
              rw [TrieNode.at_append hw]
              cases hs : node.at' q with
              | none => rfl
              | some s => exact (h.named.walkTo hw).under hid hany hq hs
    obtain ⟨hpath, hunder, rfl⟩ := hfree
    have hspot (m : TrieNode) : (TrieNode.setTask (some id) m).spot = (some id, m.spot.2) := by
      cases m
      rfl
    have hkids (m : TrieNode) : (TrieNode.setTask (some id) m).children = m.children := by
      cases m
      rfl
    have hnamed (m : TrieNode) (hm : m.Named) : (TrieNode.setTask (some id) m).Named := by
      cases hm with
      | mk hn hall => exact .mk hn hall
    have hheld := h.make habove place (φ := fun s => (some id, s.2)) hspot hkids hnamed (fun a b => by simp [hpath])
      fun a b q _ hq => hunder q hq
    rw [if_neg (by simp)] at hheld
    refine ⟨hheld, fun p => ?_, hpath⟩
    rw [content_make (φ := fun s => (some id, s.2)) hspot hkids, hpath]

theorem insertFolder_ok {place : Place} (h : t.Held pending) (hok : t.insertFolder path id place = .ok t') :
    t'.Held pending ∧ (∀ p, t'.content p = if p = path then (none, some id) else t.content p) ∧
      t.content path = (none, none) := by
  unfold insertFolder at hok
  cases habove : t.taskAbove path with
  | some above => rw [habove] at hok; cases hok
  | none =>
    rw [habove] at hok
    simp only at hok
    cases hid : (t.walkTo path).bind TrieNode.id with
    | some existing => rw [hid] at hok; cases hok
    | none =>
      rw [hid] at hok
      obtain rfl := Except.ok.inj hok
      have hpath := content_id t path hid
      have hspot (m : TrieNode) : (TrieNode.setFolder (some id) m).spot = (m.spot.1, some id) := by
        cases m
        rfl
      have hkids (m : TrieNode) : (TrieNode.setFolder (some id) m).children = m.children := by
        cases m
        rfl
      have hnamed (m : TrieNode) (hm : m.Named) : (TrieNode.setFolder (some id) m).Named := by
        cases hm with
        | mk hn hall => exact .mk hn hall
      have hheld := h.make habove place (φ := fun s => (s.1, some id)) hspot hkids hnamed
        (fun a b => by simp [hpath]) fun a b q he _ => by simp [hpath] at he
      rw [if_neg (by simp)] at hheld
      refine ⟨hheld, fun p => ?_, hpath⟩
      rw [content_make (φ := fun s => (s.1, some id)) hspot hkids, hpath]

theorem content_place (t : PathTrie) (path : TaskPath) (place : Place) (p : TaskPath) :
    (t.place path place).content p = t.content p := by
  unfold PathTrie.place
  split
  · rw [content_make (φ := fun s => s) (fun _ => rfl) fun _ => rfl]
    split
    · rename_i he
      rw [he]
    · rfl
  · rfl

theorem Held.place (h : t.Held pending) (path : TaskPath) (place : Place) :
    (t.place path place).Held (path :: pending) := by
  unfold PathTrie.place
  split
  · rename_i habove
    have hheld := h.make (Option.isNone_iff_eq_none.mp habove) place (f := fun n => n) (φ := fun s => s)
      (fun _ => rfl) (fun _ => rfl) (fun _ hm => hm) (h.one path) fun a b q he hq => h.above path a b q he hq
    refine hheld.mono fun r hr => ?_
    split at hr
    · exact hr
    · exact List.mem_cons_of_mem _ hr
  · exact h.mono fun r hr => List.mem_cons_of_mem _ hr

theorem content_prune (t : PathTrie) (path p : TaskPath) : (t.prune path).content p = t.content p := by
  unfold prune content
  rcases TrieNode.at_prune t.root path p with hp | ⟨hp, he, -⟩
  · rw [hp]
  · rw [hp, he]
    rfl

theorem Held.prune (h : t.Held (path :: pending)) : (t.prune path).Held pending := by
  refine ⟨TrieNode.named_prune h.named path, fun p a b => ?_, fun p a b q => ?_, fun p hne hp hkids => ?_⟩
  · rw [content_prune]
    exact h.one p a b
  · rw [content_prune, content_prune]
    exact h.above p a b q
  · have hoff : ¬ p <+: path := by
      intro hpre
      obtain ⟨x, hx⟩ := TrieNode.prune_live t.root path hne hpre hp
      exact hx (hkids x)
    have hat (q : TaskPath) (hq : ¬ q <+: path) : (t.prune path).root.at' q = t.root.at' q := by
      rcases TrieNode.at_prune t.root path q with hq' | ⟨-, -, -, hpre⟩
      · exact hq'
      · exact absurd hpre hq
    rw [hat p hoff] at hp
    obtain ⟨r, hr, hpr⟩ := h.live p hne hp fun x => by
      rw [← hat (p ++ [x]) fun hx => hoff ((List.prefix_append p [x]).trans hx)]
      exact hkids x
    rcases List.mem_cons.mp hr with rfl | hr
    · exact absurd hpr hoff
    · exact ⟨r, hr, hpr⟩

theorem Held.clear (h : t.Held pending) {node : TrieNode} (hw : t.root.walkTo path = some node)
    {f : TrieNode → TrieNode} {φ : Spot → Spot} (hspot : ∀ m, (f m).spot = φ m.spot)
    (hkids : ∀ m, (f m).children = m.children) (hnamed : ∀ m : TrieNode, m.Named → (f m).Named)
    (hφ : ∀ s, (φ s).1 = s.1 ∨ (φ s).1 = none) (hφ' : ∀ s, (φ s).2 = s.2 ∨ (φ s).2 = none) :
    (⟨t.root.updateAt f path⟩ : PathTrie).Held (path :: pending) ∧
      ∀ p, (⟨t.root.updateAt f path⟩ : PathTrie).content p = if p = path then φ (t.content path) else t.content p := by
  have hat (p : TaskPath) : (t.root.updateAt f path).at' p =
      if p = path then (t.root.at' path).map φ else t.root.at' p := by
    rw [TrieNode.at_updateAt hw]
    by_cases he : p = path
    · subst he
      rw [if_pos (List.prefix_refl p), if_pos rfl, List.drop_length]
      unfold TrieNode.at'
      rw [hw]
      simp [TrieNode.walkTo, hspot]
    · rw [if_neg he]
      split
      · rename_i hpre
        obtain ⟨q, rfl⟩ := hpre
        rw [List.drop_left, TrieNode.at_append hw]
        cases q with
        | nil => simp at he
        | cons x q => simp [TrieNode.at_cons, hkids]
      · rfl
  have hsome : t.root.at' path = some node.spot := by
    unfold TrieNode.at'
    rw [hw]
    rfl
  have hcontent (p : TaskPath) : (⟨t.root.updateAt f path⟩ : PathTrie).content p =
      if p = path then φ (t.content path) else t.content p := by
    unfold content
    rw [hat]
    split
    · rw [hsome]
      rfl
    · rfl
  refine ⟨⟨TrieNode.named_updateAt h.named fun m hm => hnamed m (h.named.walkTo hm), fun p a b hp => ?_,
    fun p a b q hp hq => ?_, fun p hne hp hk => ?_⟩, hcontent⟩
  · rw [hcontent] at hp
    split at hp
    · have h₁ := hφ (t.content path)
      have h₂ := hφ' (t.content path)
      rw [hp] at h₁ h₂
      rcases h₁ with h₁ | h₁
      · rcases h₂ with h₂ | h₂
        · exact h.one path a b (Prod.ext h₁.symm h₂.symm)
        · cases h₂
      · cases h₁
    · exact h.one p a b hp
  · have hold : ∃ b', t.content p = (some a, b') := by
      rw [hcontent] at hp
      split at hp
      · rename_i he
        subst he
        have h₁ := hφ (t.content p)
        rw [hp] at h₁
        rcases h₁ with h₁ | h₁
        · exact ⟨(t.content p).2, Prod.ext h₁.symm rfl⟩
        · cases h₁
      · exact ⟨b, hp⟩
    obtain ⟨b', hold⟩ := hold
    have hunder := h.above p a b' q hold hq
    rw [hcontent]
    split
    · rename_i he
      rw [← he, hunder]
      exact Prod.ext ((hφ (none, none)).elim id id) ((hφ' (none, none)).elim id id)
    · exact hunder
  · rw [hat] at hp
    split at hp
    · rename_i he
      exact ⟨path, List.mem_cons_self, he ▸ List.prefix_refl p⟩
    · obtain ⟨r, hr, hpr⟩ := h.live p hne hp fun x => by
        have hx := hk x
        rw [hat] at hx
        split at hx
        · rename_i he
          rw [hsome] at hx
          cases hx
        · exact hx
      exact ⟨r, List.mem_cons_of_mem _ hr, hpr⟩

theorem remove_held (h : t.Held pending) (path : TaskPath) : (t.remove path).Held pending ∧
    ∀ p, (t.remove path).content p = if p = path then (none, (t.content path).2) else t.content p := by
  unfold remove walkTo
  cases hw : t.root.walkTo path with
  | none =>
    simp only
    refine ⟨h, fun p => ?_⟩
    split
    · rename_i he
      have hnone : t.content path = (none, none) := by
        unfold content TrieNode.at'
        rw [hw]
        rfl
      rw [he, hnone]
    · rfl
  | some node =>
    obtain ⟨hheld, hcontent⟩ := h.clear hw (f := TrieNode.setTask none) (φ := fun s => (none, s.2))
      (fun m => by cases m; rfl) (fun m => by cases m; rfl)
      (fun m hm => by cases hm with | mk hn hall => exact .mk hn hall) (fun _ => .inr rfl) fun _ => .inl rfl
    refine ⟨hheld.prune, fun p => ?_⟩
    rw [content_prune]
    exact hcontent p

theorem removeFolder_held (h : t.Held pending) (path : TaskPath) : (t.removeFolder path).Held pending ∧
    ∀ p, (t.removeFolder path).content p = if p = path then ((t.content path).1, none) else t.content p := by
  unfold removeFolder walkTo
  cases hw : t.root.walkTo path with
  | none =>
    simp only
    refine ⟨h, fun p => ?_⟩
    split
    · rename_i he
      have hnone : t.content path = (none, none) := by
        unfold content TrieNode.at'
        rw [hw]
        rfl
      rw [he, hnone]
    · rfl
  | some node =>
    obtain ⟨hheld, hcontent⟩ := h.clear hw (f := TrieNode.setFolder none) (φ := fun s => (s.1, none))
      (fun m => by cases m; rfl) (fun m => by cases m; rfl)
      (fun m hm => by cases hm with | mk hn hall => exact .mk hn hall) (fun _ => .inl rfl) fun _ => .inr rfl
    refine ⟨hheld.prune, fun p => ?_⟩
    rw [content_prune]
    exact hcontent p

end PathTrie

end Dekit
