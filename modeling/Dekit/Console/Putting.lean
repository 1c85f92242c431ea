import Dekit.Console.Listing

/-! What is put at a path that is listed, or taken from one, and the groups that go with it. -/

namespace Dekit.Console

section

variable {nodes : Nodes} {loose : Option TaskPath} {pending : Option TaskView} {p q c : TaskPath} {v : TaskView}
    {g : Group}
  {k : Counter}

theorem Standing.settle (h : Standing nodes (some p) pending) (hp : p ∈ nodes) : Standing nodes none pending := by
  have hiff (c : TaskPath) : (c ∈ nodes ∨ some p = some c) ↔ (c ∈ nodes ∨ none = some c) := by
    refine or_congr_right' fun hc => ⟨fun he => ?_, fun he => by cases he⟩
    exact absurd (Option.some.inj he ▸ hp) hc
  exact ⟨h.keyed, fun c hc => h.parents c ((hiff c).mpr hc), fun q g hg c => by rw [h.listing q g hg, hiff], h.filled, h.counts⟩

theorem Standing.loosen (h : Standing nodes none pending) (hp : p ∈ nodes) : Standing nodes (some p) pending := by
  have hiff (c : TaskPath) : (c ∈ nodes ∨ some p = some c) ↔ (c ∈ nodes ∨ none = some c) := by
    refine or_congr_right' fun hc => ⟨fun he => ?_, fun he => by cases he⟩
    exact absurd (Option.some.inj he ▸ hp) hc
  exact ⟨h.keyed, fun c hc => h.parents c ((hiff c).mp hc), fun q g hg c => by rw [h.listing q g hg, hiff], h.filled, h.counts⟩

theorem mem_put {n : Node} (c : TaskPath) : (c ∈ nodes.insert p n ∨ none = some c) ↔ (c ∈ nodes ∨ some p = some c) := by
  rw [Finmap.mem_insert, Option.some.injEq, eq_comm (a := p)]
  constructor
  · rintro ((hc | hc) | hc)
    · exact .inr hc
    · exact .inl hc
    · cases hc
  · rintro (hc | hc)
    · exact .inl (.inr hc)
    · exact .inl (.inl hc)

theorem keyed_insert (hkeyed : Keyed nodes) {n : Node} (hn : n.path = p) : Keyed (nodes.insert p n) := by
  intro q n' hq
  rw [Finmap.lookup_insert_ite] at hq
  split at hq
  · rename_i he
    rw [← Option.some.inj hq, hn, he]
  · exact hkeyed q n' hq

theorem keyed_erase (hkeyed : Keyed nodes) (p : TaskPath) : Keyed (nodes.erase p) := by
  intro q n' hq
  rw [Finmap.lookup_erase_ite] at hq
  split at hq
  · cases hq
  · exact hkeyed q n' hq

theorem card_put (hkeyed : Keyed nodes) (hv : v.path ∉ nodes) :
    (tasksUnder (nodes.insert v.path (.task v)) q k).card = (tasksUnder nodes q k).card + ahead (some v) q k := by
  have hput : Keyed (nodes.insert v.path (.task v)) := keyed_insert hkeyed rfl
  have hmem (c : TaskPath) : c ∈ tasksUnder (nodes.insert v.path (.task v)) q k ↔
      c ∈ tasksUnder nodes q k ∨ c = v.path ∧ q ∈ above v.path ∧ k.counts v = true := by
    rw [mem_tasksUnder hput, mem_tasksUnder hkeyed, Finmap.lookup_insert_ite]
    by_cases hc : c = v.path
    · subst hc
      rw [if_pos rfl, Finmap.lookup_eq_none.mpr hv]
      simp
    · simp [hc]
  rw [ahead_some]
  by_cases hcond : q ∈ above v.path ∧ k.counts v = true
  · have hset : tasksUnder (nodes.insert v.path (.task v)) q k = insert v.path (tasksUnder nodes q k) := by
      ext c
      rw [hmem, Finset.mem_insert, or_comm]
      simp [hcond]
    have hnot : v.path ∉ tasksUnder nodes q k := by
      intro hin
      obtain ⟨-, task, htask, -⟩ := (mem_tasksUnder hkeyed).mp hin
      exact hv (Finmap.mem_of_lookup_eq_some htask)
    rw [hset, Finset.card_insert_of_notMem hnot, if_pos hcond.1, hcond.2]
    rfl
  · have hset : tasksUnder (nodes.insert v.path (.task v)) q k = tasksUnder nodes q k := by
      ext c
      rw [hmem]
      exact ⟨fun h => h.resolve_right fun h' => hcond h'.2, .inl⟩
    rw [hset]
    split
    · rename_i hq
      cases hk : k.counts v with
      | true => exact absurd ⟨hq, hk⟩ hcond
      | false => rfl
    · rfl

theorem tasksUnder_congr {nodes' : Nodes} (hkeyed : Keyed nodes)
    (hkeyed' : Keyed nodes')
    (htask : ∀ c v, nodes'.lookup c = some (.task v) ↔ nodes.lookup c = some (.task v)) :
    tasksUnder nodes' q k = tasksUnder nodes q k := by
  ext c
  rw [mem_tasksUnder hkeyed, mem_tasksUnder hkeyed']
  simp only [htask]

theorem Standing.putTask (h : Standing nodes (some v.path) (some v)) (hv : v.path ∉ nodes) :
    Standing (nodes.insert v.path (.task v)) none none := by
  have hother {q : TaskPath} {g : Group} : (nodes.insert v.path (.task v)).lookup q = some (.group g) ↔
      nodes.lookup q = some (.group g) := by
    rw [Finmap.lookup_insert_ite]
    split
    · rename_i he
      subst he
      rw [Finmap.lookup_eq_none.mpr hv]
      simp
    · rfl
  refine ⟨keyed_insert h.keyed rfl, fun c hc hroot => ?_, fun q g hg c => ?_, fun q g hg => ?_, fun q g hg k => ?_⟩
  · simp only [hother]
    exact h.parents c ((mem_put c).mp hc) hroot
  all_goals rw [hother] at hg
  · rw [h.listing q g hg, mem_put]
  · exact h.filled q g hg
  · rw [h.counts q g hg, card_put h.keyed hv]
    rfl

theorem Standing.putFolder (h : Standing nodes (some p) none) (hp : p ∉ nodes) (hroot : p ≠ TaskPath.root)
    (hpath : g.path = p) (hempty : ∀ c, c ∉ g.children) (hcounts : ∀ k : Counter, k.of g = 0)
    (hfolder : g.folder ≠ none) :
    Standing (nodes.insert p (.group g)) none none := by
  have hother {q : TaskPath} (hq : q ≠ p) : (nodes.insert p (.group g)).lookup q = nodes.lookup q :=
    Finmap.lookup_insert_of_ne _ hq
  have hchild {c : TaskPath} (hc : c ∈ nodes ∨ some p = some c) (hne : c ≠ TaskPath.root) : c.dropLast ≠ p := by
    intro he
    obtain ⟨g', hg'⟩ := h.parents c hc hne
    rw [he] at hg'
    exact hp (Finmap.mem_of_lookup_eq_some hg')
  have hsame (q : TaskPath) (k : Counter) : tasksUnder (nodes.insert p (.group g)) q k = tasksUnder nodes q k := by
    refine tasksUnder_congr h.keyed (keyed_insert h.keyed hpath) fun c v => ?_
    rw [Finmap.lookup_insert_ite]
    split
    · rename_i he
      subst he
      rw [Finmap.lookup_eq_none.mpr hp]
      simp
    · rfl
  refine ⟨keyed_insert h.keyed hpath, fun c hc hne => ?_, fun q g' hg c => ?_, fun q g' hg hne hnone => ?_,
    fun q g' hg k => ?_⟩
  · rw [mem_put] at hc
    rw [hother (hchild hc hne)]
    exact h.parents c hc hne
  all_goals by_cases hq : q = p
  · subst hq
    rw [Finmap.lookup_insert] at hg
    obtain rfl := Node.group.inj (Option.some.inj hg)
    rw [mem_put]
    exact ⟨fun hc => absurd hc (hempty c), fun ⟨hc, hne, he⟩ => absurd he (hchild hc hne)⟩
  · rw [hother hq] at hg
    rw [h.listing q g' hg, mem_put]
  · subst hq
    rw [Finmap.lookup_insert] at hg
    obtain rfl := Node.group.inj (Option.some.inj hg)
    exact absurd hnone hfolder
  · rw [hother hq] at hg
    exact h.filled q g' hg hne hnone
  · subst hq
    rw [Finmap.lookup_insert] at hg
    obtain rfl := Node.group.inj (Option.some.inj hg)
    rw [hcounts, hsame, h.tasksUnder_empty hp]
    rfl
  · rw [hother hq] at hg
    rw [hsame]
    exact h.counts q g' hg k

def Node.weight : Node → Option TaskView
  | .task v => some v
  | .group _ => none

theorem Standing.erase (h : Standing nodes loose none) {n : Node} (hn : nodes.lookup p = some n)
    (hbare : ∀ c ∈ nodes, c ≠ TaskPath.root → c.dropLast ≠ p)
    (hloose : ∀ c, loose = some c → c.dropLast = p ∧ c ∉ nodes) :
    Standing (nodes.erase p) (some p) n.weight := by
  have hp : p ∈ nodes := Finmap.mem_of_lookup_eq_some hn
  have hmem (c : TaskPath) : (c ∈ nodes.erase p ∨ some p = some c) ↔ c ∈ nodes := by
    rw [Finmap.mem_erase, Option.some.injEq]
    constructor
    · rintro (⟨-, hc⟩ | rfl)
      · exact hc
      · exact hp
    · intro hc
      by_cases he : p = c
      · exact .inr he
      · exact .inl ⟨fun he' => he he'.symm, hc⟩
  have hother {q : TaskPath} (hq : q ≠ p) : (nodes.erase p).lookup q = nodes.lookup q := Finmap.lookup_erase_ne hq
  have hgroup {q : TaskPath} {g : Group} (hg : (nodes.erase p).lookup q = some (.group g)) :
      q ≠ p ∧ nodes.lookup q = some (.group g) := by
    have hq : q ≠ p := by
      rintro rfl
      rw [Finmap.lookup_erase] at hg
      cases hg
    exact ⟨hq, (hother hq).symm.trans hg⟩
  refine ⟨keyed_erase h.keyed p, fun c hc hroot => ?_, fun q g hg c => ?_, fun q g hg => ?_, fun q g hg k => ?_⟩
  · rw [hmem] at hc
    rw [hother (hbare c hc hroot)]
    exact h.parents c (.inl hc) hroot
  all_goals obtain ⟨hq, hg⟩ := hgroup hg
  · rw [h.listing q g hg, hmem]
    refine ⟨fun ⟨hc, hroot, he⟩ => ⟨?_, hroot, he⟩, fun ⟨hc, hrest⟩ => ⟨.inl hc, hrest⟩⟩
    rcases hc with hc | hc
    · exact hc
    · exact absurd (he.symm.trans (hloose c hc).1) hq
  · exact h.filled q g hg
  · rw [h.counts q g hg]
    cases n with
    | group g' =>
      refine congrArg (· + 0) (congrArg Finset.card (tasksUnder_congr (keyed_erase h.keyed p) h.keyed fun c v => ?_))
      rw [Finmap.lookup_erase_ite]
      split
      · rename_i he
        subst he
        rw [hn]
        simp
      · rfl
    | task v =>
      obtain rfl : v.path = p := h.keyed p _ hn
      have hback : (nodes.erase v.path).insert v.path (.task v) = nodes := by
        refine Finmap.ext_lookup fun c => ?_
        rw [Finmap.lookup_insert_ite, Finmap.lookup_erase_ite]
        split
        · rename_i he
          rw [he, hn]
        · rfl
      have hcard := card_put (q := q) (k := k) (v := v) (keyed_erase h.keyed v.path) Finmap.notMem_erase_self
      rw [hback] at hcard
      rw [hcard]
      rfl

theorem Standing.bare (h : Standing nodes none pending) (hn : nodes.lookup p = some (.task v)) :
    ∀ c ∈ nodes, c ≠ TaskPath.root → c.dropLast ≠ p := by
  rintro c hc hroot rfl
  obtain ⟨g, hg⟩ := h.parents c (.inl hc) hroot
  rw [hn] at hg
  cases hg

theorem Standing.counts_ge (h : Standing nodes loose (some v)) (hq : q ∈ above v.path)
    (hg : nodes.lookup q = some (.group g)) (k : Counter) : (k.counts v).toNat ≤ k.of g := by
  rw [h.counts q g hg, ahead_some, if_pos hq]
  exact Nat.le_add_left _ _

theorem insert_erase (nodes : Nodes) (p : TaskPath) (n : Node) : (nodes.erase p).insert p n = nodes.insert p n := by
  refine Finmap.ext_lookup fun q => ?_
  rw [Finmap.lookup_insert_ite, Finmap.lookup_insert_ite, Finmap.lookup_erase_ite]
  split <;> rfl

end

end Dekit.Console
