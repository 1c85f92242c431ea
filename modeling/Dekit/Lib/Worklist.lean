import Mathlib.Data.Finset.Card
import Mathlib.Data.List.Basic
import Mathlib.Data.List.Nodup
import Mathlib.Logic.Relation

namespace Worklist

open Relation

variable {α : Type} [DecidableEq α]

def Next (next : α → List α) (x y : α) : Prop := y ∈ next x

/-- Breadth first: the successors of the `i`th element go behind what was found. -/
def explore (next : α → List α) : ℕ → List α → ℕ → List α
  | 0, found, _ => found
  | fuel + 1, found, i => match found[i]? with
    | some x => explore next fuel (found ++ (next x).filter (· ∉ found)) (i + 1)
    | none => found

section explore

variable {next : α → List α} {s : Finset α}

theorem subset_explore (fuel : ℕ) (found : List α) (i : ℕ) : found ⊆ explore next fuel found i := by
  induction fuel generalizing found i with
  | zero => exact List.Subset.refl _
  | succ fuel ih =>
    unfold explore
    split
    · exact List.Subset.trans (List.subset_append_left _ _) (ih _ _)
    · exact List.Subset.refl _

theorem explore_sound (fuel : ℕ) (found : List α) (i : ℕ) {y : α}
    (hy : y ∈ explore next fuel found i) : ∃ x ∈ found, ReflTransGen (Next next) x y := by
  induction fuel generalizing found i with
  | zero => exact ⟨y, hy, .refl⟩
  | succ fuel ih =>
    unfold explore at hy
    split at hy
    · rename_i x hx
      obtain ⟨z, hz, hzy⟩ := ih _ _ hy
      rcases List.mem_append.mp hz with hz | hz
      · exact ⟨z, hz, hzy⟩
      · have hxz : Next next x z := (List.mem_filter.mp hz).1
        exact ⟨x, List.mem_of_getElem? hx, .head hxz hzy⟩
    · exact ⟨y, hy, .refl⟩

theorem nodup_append_new {found new : List α} (hf : found.Nodup) (hn : new.Nodup) :
    (found ++ new.filter (· ∉ found)).Nodup := by
  refine List.nodup_append.mpr ⟨hf, hn.filter _, fun a ha b hb hab => ?_⟩
  subst hab
  exact of_decide_eq_true (List.mem_filter.mp hb).2 ha

theorem explore_closed (hn : ∀ x, (next x).Nodup) (hs : ∀ x ∈ s, ∀ y ∈ next x, y ∈ s)
    (fuel : ℕ) (found : List α) (i : ℕ) (hf : found.Nodup) (hfs : ∀ x ∈ found, x ∈ s)
    (hi : ∀ x ∈ found.take i, next x ⊆ found) (hfuel : s.card ≤ fuel + i) :
    ∀ x ∈ explore next fuel found i, next x ⊆ explore next fuel found i := by
  have hlen (found : List α) (hf : found.Nodup) (hfs : ∀ x ∈ found, x ∈ s) : found.length ≤ s.card := by
    rw [← List.toFinset_card_of_nodup hf]
    exact Finset.card_le_card (fun x hx => hfs x (List.mem_toFinset.mp hx))
  induction fuel generalizing found i with
  | zero =>
    have hl := hlen found hf hfs
    rw [List.take_of_length_le (by omega)] at hi
    exact hi
  | succ fuel ih =>
    unfold explore
    split
    · rename_i x hx
      have hxf := List.mem_of_getElem? hx
      apply ih
      · exact nodup_append_new hf (hn _)
      · intro y hy
        rcases List.mem_append.mp hy with hy | hy
        · exact hfs y hy
        · exact hs x (hfs x hxf) y (List.mem_filter.mp hy).1
      · intro y hy
        have hil : i < found.length := (List.getElem?_eq_some_iff.mp hx).1
        rw [List.take_append_of_le_length (by omega), List.take_add_one, hx] at hy
        rcases List.mem_append.mp hy with hy | hy
        · exact List.Subset.trans (hi y hy) (List.subset_append_left _ _)
        · obtain rfl : x = y := by simpa [eq_comm] using hy
          intro z hz
          by_cases hzf : z ∈ found
          · exact List.mem_append_left _ hzf
          · exact List.mem_append_right _ (List.mem_filter.mpr ⟨hz, by simpa using hzf⟩)
      · omega
    · rename_i hx
      rw [List.take_of_length_le (List.getElem?_eq_none_iff.mp hx)] at hi
      exact hi

theorem mem_explore_iff (hn : ∀ x, (next x).Nodup) (hs : ∀ x ∈ s, ∀ y ∈ next x, y ∈ s) {x y : α}
    (hx : x ∈ s) {fuel : ℕ} (hfuel : s.card ≤ fuel) :
    y ∈ explore next fuel [x] 0 ↔ ReflTransGen (Next next) x y := by
  constructor
  · intro hy
    obtain ⟨z, hz, hzy⟩ := explore_sound fuel [x] 0 hy
    rwa [List.mem_singleton.mp hz] at hzy
  · intro hxy
    have hclosed := explore_closed hn hs fuel [x] 0 (List.nodup_singleton x)
      (by simpa using hx) (by simp) (by omega)
    induction hxy with
    | refl => exact subset_explore fuel [x] 0 (List.mem_singleton_self x)
    | tail _ hyz ih => exact hclosed _ ih hyz

end explore

/-- What a depth-first search carries: what it has met, what it found, and what is left to expand. -/
structure Search (α : Type) where
  seen : List α
  found : List α
  stack : List α

namespace Search

variable {next : α → List α} {pass : α → Bool} {root : α}

def visit (pass : α → Bool) (st : Search α) (x : α) : Search α :=
  if x ∈ st.seen then st
  else if pass x then ⟨x :: st.seen, x :: st.found, x :: st.stack⟩
  else { st with seen := x :: st.seen }

def run (next : α → List α) (pass : α → Bool) : ℕ → Search α → Search α
  | 0, st => st
  | fuel + 1, st => match st.stack with
    | [] => st
    | x :: stack => run next pass fuel ((next x).foldl (visit pass) { st with stack })

/-- Passing steps: the search goes on from what passes alone. -/
def Walk (next : α → List α) (pass : α → Bool) (x y : α) : Prop := y ∈ next x ∧ pass y = true

/-- What holds while the successors of the `busy` ones are being met. -/
structure Valid (next : α → List α) (pass : α → Bool) (root : α) (busy : α → Prop) (st : Search α) :
    Prop where
  sound : ∀ x ∈ st.found, ReflTransGen (Walk next pass) root x ∧ x ≠ root ∧ pass x = true
  passed : ∀ x ∈ st.seen, x = root ∨ (pass x = true → x ∈ st.found)
  start : root ∈ st.seen
  reached : ∀ x ∈ st.stack, ReflTransGen (Walk next pass) root x
  expanded : ∀ x, ¬ busy x → (x = root ∨ x ∈ st.found) → x ∈ st.stack ∨ next x ⊆ st.seen

theorem visit_seen (st : Search α) (x : α) : st.seen ⊆ (visit pass st x).seen := by
  unfold visit
  split
  · exact List.Subset.refl _
  · split <;> exact List.subset_cons_self _ _

theorem mem_visit (st : Search α) (x : α) : x ∈ (visit pass st x).seen := by
  unfold visit
  split
  · assumption
  · split <;> exact List.mem_cons_self

theorem Valid.visit {busy : α → Prop} {y x : α} {st : Search α} (h : Valid next pass root busy st)
    (hy : ReflTransGen (Walk next pass) root y) (hx : x ∈ next y) :
    Valid next pass root busy (visit pass st x) := by
  unfold Search.visit
  by_cases hseen : x ∈ st.seen
  · simpa [hseen] using h
  have hroot : x ≠ root := fun he => hseen (he ▸ h.start)
  have hcons {l : List α} {u : α} (hl : l ⊆ st.seen) : l ⊆ u :: st.seen :=
    List.Subset.trans hl (List.subset_cons_self _ _)
  by_cases hp : pass x = true
  · have hrx : ReflTransGen (Walk next pass) root x := hy.tail ⟨hx, hp⟩
    simp only [hseen, hp, if_true, if_false]
    refine ⟨?_, ?_, List.mem_cons_of_mem _ h.start, ?_, ?_⟩
    · rintro z (_ | ⟨_, hz⟩)
      · exact ⟨hrx, hroot, hp⟩
      · exact h.sound z hz
    · rintro z (_ | ⟨_, hz⟩)
      · exact .inr fun _ => List.mem_cons_self
      · exact (h.passed z hz).imp_right fun hf hpz => List.mem_cons_of_mem _ (hf hpz)
    · rintro z (_ | ⟨_, hz⟩)
      · exact hrx
      · exact h.reached z hz
    · intro z hzy hz
      by_cases hzx : z = x
      · exact .inl (hzx ▸ List.mem_cons_self)
      · have hz' : z = root ∨ z ∈ st.found := hz.imp_right fun hz => by simpa [hzx] using hz
        exact (h.expanded z hzy hz').imp (List.mem_cons_of_mem _) hcons
  · simp only [hseen, hp, if_false]
    refine ⟨h.sound, ?_, List.mem_cons_of_mem _ h.start, h.reached,
      fun z hzy hz => (h.expanded z hzy hz).imp_right hcons⟩
    rintro z (_ | ⟨_, hz⟩)
    · exact .inr fun hpz => absurd hpz hp
    · exact h.passed z hz

theorem Valid.visits {busy : α → Prop} {y : α} {st : Search α} (h : Valid next pass root busy st)
    (hy : ReflTransGen (Walk next pass) root y) (xs : List α) (hxs : xs ⊆ next y) :
    Valid next pass root busy (xs.foldl (Search.visit pass) st) ∧
      st.seen ⊆ (xs.foldl (Search.visit pass) st).seen ∧
      xs ⊆ (xs.foldl (Search.visit pass) st).seen := by
  induction xs generalizing st with
  | nil => exact ⟨h, List.Subset.refl _, List.nil_subset _⟩
  | cons x xs ih =>
    have hx := List.cons_subset.mp hxs
    obtain ⟨he, hseen, hmem⟩ := ih (h.visit hy hx.1) hx.2
    exact ⟨he, List.Subset.trans (visit_seen st x) hseen,
      List.cons_subset.mpr ⟨hseen (mem_visit st x), hmem⟩⟩

theorem Valid.expand {x : α} {stack : List α} {st : Search α}
    (h : Valid next pass root (fun _ => False) st) (hst : st.stack = x :: stack) :
    Valid next pass root (fun _ => False) ((next x).foldl (Search.visit pass) { st with stack }) := by
  have hx : ReflTransGen (Walk next pass) root x := h.reached x (hst ▸ List.mem_cons_self)
  have hbusy : Valid next pass root (· = x) { st with stack } :=
    { sound := h.sound, passed := h.passed, start := h.start
      reached := fun z hz => h.reached z (hst ▸ List.mem_cons_of_mem _ hz)
      expanded := fun z hzx hz => by simpa [hst, hzx] using h.expanded z id hz }
  obtain ⟨hv, -, hmem⟩ := hbusy.visits hx (next x) (List.Subset.refl _)
  refine ⟨hv.sound, hv.passed, hv.start, hv.reached, fun z _ hz => ?_⟩
  by_cases hzx : z = x
  · exact .inr (hzx ▸ hmem)
  · exact hv.expanded z hzx hz

theorem Valid.run {st : Search α} (h : Valid next pass root (fun _ => False) st) (fuel : ℕ) :
    Valid next pass root (fun _ => False) (run next pass fuel st) := by
  induction fuel generalizing st with
  | zero => exact h
  | succ fuel ih =>
    unfold Search.run
    split
    · exact h
    · rename_i x stack hst
      exact ih (h.expand hst)

def left (s : Finset α) (st : Search α) : ℕ := (s.filter (· ∉ st.seen)).card + st.stack.length

theorem left_visit {s : Finset α} (st : Search α) {x : α} (hx : x ∈ s) :
    left s (visit pass st x) ≤ left s st := by
  unfold Search.visit
  by_cases hseen : x ∈ st.seen
  · simp [hseen]
  have hlt : (s.filter (· ∉ x :: st.seen)).card < (s.filter (· ∉ st.seen)).card := by
    apply Finset.card_lt_card
    refine Finset.ssubset_iff_subset_ne.mpr ⟨fun z hz => ?_, fun he => ?_⟩
    · simp only [Finset.mem_filter, List.mem_cons, not_or] at hz ⊢
      exact ⟨hz.1, hz.2.2⟩
    · have hm : x ∈ s.filter (· ∉ st.seen) := Finset.mem_filter.mpr ⟨hx, hseen⟩
      rw [← he] at hm
      simp at hm
  by_cases hp : pass x = true
  · simp only [hseen, hp, if_true, if_false, left, List.length_cons]
    omega
  · simp only [hseen, hp, Bool.false_eq_true, if_false, left]
    omega

theorem left_visits {s : Finset α} (xs : List α) (st : Search α) (hxs : ∀ x ∈ xs, x ∈ s) :
    left s (xs.foldl (visit pass) st) ≤ left s st := by
  induction xs generalizing st with
  | nil => exact le_rfl
  | cons x xs ih =>
    exact (ih _ fun y hy => hxs y (List.mem_cons_of_mem _ hy)).trans
      (left_visit st (hxs x List.mem_cons_self))

theorem run_stack (pass : α → Bool) {s : Finset α} (hs : ∀ x, ∀ y ∈ next x, y ∈ s) (fuel : ℕ) (st : Search α)
    (hfuel : left s st ≤ fuel) : (run next pass fuel st).stack = [] := by
  induction fuel generalizing st with
  | zero =>
    simp only [left] at hfuel
    exact List.length_eq_zero_iff.mp (by simp only [run]; omega)
  | succ fuel ih =>
    unfold run
    split
    · assumption
    · rename_i x stack hst
      refine ih _ ((left_visits _ _ (hs x)).trans ?_)
      simp only [left, hst, List.length_cons] at hfuel ⊢
      omega

def start (root : α) : Search α := ⟨[root], [], [root]⟩

theorem mem_found_iff {s : Finset α} (hs : ∀ x, ∀ y ∈ next x, y ∈ s) (hroot : ∀ x, root ∉ next x)
    {fuel : ℕ} (hfuel : s.card + 1 ≤ fuel) {y : α} :
    y ∈ (run next pass fuel (start root)).found ↔ TransGen (Walk next pass) root y := by
  have hinit : Valid next pass root (fun _ => False) (start root) :=
    { sound := by simp [start], passed := by simp [start], start := by simp [start]
      reached := by simp [start, ReflTransGen.refl]
      expanded := by simp [start] }
  have hv := hinit.run fuel
  have hleft : left s (start root : Search α) ≤ fuel := by
    have := Finset.card_filter_le s (· ∉ (start root : Search α).seen)
    simp only [left, start, List.length_singleton] at this ⊢
    omega
  have hempty := run_stack pass hs fuel (start root) hleft
  constructor
  · intro hy
    obtain ⟨hry, hne, -⟩ := hv.sound y hy
    exact (reflTransGen_iff_eq_or_transGen.mp hry).resolve_left hne
  · intro hy
    have hclosed : ∀ x, x = root ∨ x ∈ (run next pass fuel (start root)).found →
        ∀ z, Walk next pass x z → z ∈ (run next pass fuel (start root)).found := by
      intro x hx z hz
      have hseen := (hv.expanded x id hx).resolve_left (by simp [hempty])
      rcases hv.passed z (hseen hz.1) with rfl | hf
      · exact absurd hz.1 (hroot x)
      · exact hf hz.2
    induction hy with
    | single h => exact hclosed root (.inl rfl) _ h
    | tail _ h ih => exact hclosed _ (.inr ih) _ h

end Search

end Worklist
