import Dekit.Records
import Dekit.Lib.Fold
import Dekit.Kernel

namespace Dekit

variable {τ : Type} [Task τ] {I : Terms τ} {c : Cause} {s s' s'' : Records τ} {id x : TaskId}

/-- What no change of the records takes away. -/
structure Records.Sane (I : Terms τ) (s : Records τ) : Prop where
  init : s.tasks initTaskId = none
  target : ∀ a b, b ∈ s.deps a → (s.tasks b).isSome = true
  failed : ∀ x t, s.tasks x = some t → t.startFailed = true → t.state = .stopping ∧ t.ready.timeout.isSome = true
  gaveUp : ∀ x t, s.tasks x = some t → t.stopTimedOut = true → t.state = .idle
  killed : I.fit → ∀ x t, s.tasks x = some t → t.killed = true → t.state = .stopping
  saved : I.fit → ∀ x t, s.tasks x = some t → t.savedPin = true → x ∉ s.deps initTaskId
  copies : I.fit → ∀ x t, s.tasks x = some t → t.CopiesFit
  index : ∀ tag x, x ∈ s.tags tag ↔ ∃ t, s.tasks x = some t ∧ tag ∈ t.tags

namespace Records

omit [Task τ] in
theorem tasks_modify (s : Records τ) (id : TaskId) (f : Record τ → Record τ) (x : TaskId) :
    (s.modify id f).tasks x = if x = id then (s.tasks x).map f else s.tasks x := rfl

omit [Task τ] in
theorem tasks_enterState (s : Records τ) (id : TaskId) (t : Record τ) (state : TaskState) :
    (s.enterState id t state).tasks = (s.modify id (Record.enter state)).tasks := rfl

omit [Task τ] in
@[simp] theorem changed_enterState (s : Records τ) (id : TaskId) (t : Record τ) (state : TaskState) :
    (s.enterState id t state).changed = true := rfl

omit [Task τ] in
theorem isSome_modify (s : Records τ) (id : TaskId) (f : Record τ → Record τ) (x : TaskId) :
    ((s.modify id f).tasks x).isSome = (s.tasks x).isSome := by
  rw [tasks_modify]
  split
  · exact Option.isSome_map
  · rfl

omit [Task τ] in
theorem modify_some {f : Record τ → Record τ} {t : Record τ} (h : (s.modify id f).tasks x = some t) :
    ∃ t₀, s.tasks x = some t₀ ∧ (x = id ∧ t = f t₀ ∨ x ≠ id ∧ t = t₀) := by
  rw [tasks_modify] at h
  split at h
  · rename_i hx
    obtain ⟨t₀, ht₀, rfl⟩ := Option.map_eq_some_iff.mp h
    exact ⟨t₀, ht₀, .inl ⟨hx, rfl⟩⟩
  · rename_i hx
    exact ⟨t, h, .inr ⟨hx, rfl⟩⟩

omit [Task τ] in
theorem exists_map {o : Option (Record τ)} {f : Record τ → Record τ} {tag : String}
    (hf : ∀ t, o = some t → (f t).tags = t.tags) :
    (∃ t, o.map f = some t ∧ tag ∈ t.tags) ↔ ∃ t, o = some t ∧ tag ∈ t.tags := by
  cases o with
  | none => rfl
  | some t => simp [hf t rfl]

end Records

namespace Records.Sane

theorem modified (h : s.Sane I) {f : Record τ → Record τ} (hf : ∀ t, s.tasks id = some t →
      ((f t).startFailed = true → (f t).state = .stopping ∧ (f t).ready.timeout.isSome = true) ∧
      ((f t).stopTimedOut = true → (f t).state = .idle) ∧
      (I.fit → (f t).killed = true → (f t).state = .stopping) ∧
      ((f t).savedPin = true → t.savedPin = true) ∧ (f t).makeCopy = t.makeCopy ∧ (f t).tags = t.tags) :
    (s.modify id f).Sane I := by
  have hcase (x : TaskId) (t : Record τ) (hx : (s.modify id f).tasks x = some t) :
      ∃ t₀, s.tasks x = some t₀ ∧ (x = id ∧ t = f t₀ ∨ x ≠ id ∧ t = t₀) := modify_some hx
  constructor
  · rw [tasks_modify]
    split
    · rw [h.init]
      rfl
    · exact h.init
  · intro a b hb
    rw [isSome_modify]
    exact h.target a b hb
  · intro x t hx hfail
    obtain ⟨t₀, ht₀, ⟨rfl, rfl⟩ | ⟨-, rfl⟩⟩ := hcase x t hx
    · exact (hf t₀ ht₀).1 hfail
    · exact h.failed x t ht₀ hfail
  · intro x t hx hgave
    obtain ⟨t₀, ht₀, ⟨rfl, rfl⟩ | ⟨-, rfl⟩⟩ := hcase x t hx
    · exact (hf t₀ ht₀).2.1 hgave
    · exact h.gaveUp x t ht₀ hgave
  · intro hfit x t hx hkill
    obtain ⟨t₀, ht₀, ⟨rfl, rfl⟩ | ⟨-, rfl⟩⟩ := hcase x t hx
    · exact (hf t₀ ht₀).2.2.1 hfit hkill
    · exact h.killed hfit x t ht₀ hkill
  · intro hfit x t hx hsaved
    obtain ⟨t₀, ht₀, ⟨rfl, rfl⟩ | ⟨-, rfl⟩⟩ := hcase x t hx
    · exact h.saved hfit x t₀ ht₀ ((hf t₀ ht₀).2.2.2.1 hsaved)
    · exact h.saved hfit x t ht₀ hsaved
  · intro hfit x t hx
    obtain ⟨t₀, ht₀, ⟨rfl, rfl⟩ | ⟨-, rfl⟩⟩ := hcase x t hx
    · have hcopy := h.copies hfit x t₀ ht₀
      unfold Record.CopiesFit at hcopy ⊢
      rw [(hf t₀ ht₀).2.2.2.2.1]
      exact hcopy
    · exact h.copies hfit x t ht₀
  · intro tag x
    rw [show (s.modify id f).tags = s.tags from rfl, h.index, tasks_modify]
    split
    · rename_i hx
      rw [exists_map (fun t ht => (hf t (hx ▸ ht)).2.2.2.2.2)]
    · rfl

theorem mapped (h : s.Sane I) {f : TaskId → Record τ → Record τ} (ht : ∀ x, s'.tasks x = (s.tasks x).map (f x))
    (hd : s'.deps = s.deps)
    (hf : ∀ x t, (f x t).startFailed = t.startFailed ∧ (f x t).state = t.state ∧ (f x t).ready = t.ready ∧
      (f x t).stopTimedOut = t.stopTimedOut ∧ (f x t).killed = t.killed ∧ (f x t).savedPin = t.savedPin ∧
      (f x t).makeCopy = t.makeCopy ∧ (f x t).tags = t.tags) (hg : s'.tags = s.tags) : s'.Sane I := by
  have hcase (x : TaskId) (t : Record τ) (hx : s'.tasks x = some t) : ∃ t₀, s.tasks x = some t₀ ∧ f x t₀ = t := by
    rw [ht] at hx
    exact Option.map_eq_some_iff.mp hx
  constructor
  · rw [ht, h.init]
    rfl
  · intro a b hb
    rw [ht, Option.isSome_map]
    exact h.target a b (hd ▸ hb)
  · intro x t hx
    obtain ⟨t₀, ht₀, rfl⟩ := hcase x t hx
    obtain ⟨hfail, hstate, hready, -⟩ := hf x t₀
    rw [hfail, hstate, hready]
    exact h.failed x t₀ ht₀
  · intro x t hx
    obtain ⟨t₀, ht₀, rfl⟩ := hcase x t hx
    obtain ⟨-, hstate, -, hgave, -⟩ := hf x t₀
    rw [hgave, hstate]
    exact h.gaveUp x t₀ ht₀
  · intro hfit x t hx
    obtain ⟨t₀, ht₀, rfl⟩ := hcase x t hx
    obtain ⟨-, hstate, -, -, hkill, -⟩ := hf x t₀
    rw [hkill, hstate]
    exact h.killed hfit x t₀ ht₀
  · intro hfit x t hx
    obtain ⟨t₀, ht₀, rfl⟩ := hcase x t hx
    obtain ⟨-, -, -, -, -, hsaved, -⟩ := hf x t₀
    rw [hsaved, hd]
    exact h.saved hfit x t₀ ht₀
  · intro hfit x t hx
    obtain ⟨t₀, ht₀, rfl⟩ := hcase x t hx
    have hcopy := h.copies hfit x t₀ ht₀
    unfold Record.CopiesFit at hcopy ⊢
    rw [(hf x t₀).2.2.2.2.2.2.1]
    exact hcopy
  · intro tag x
    rw [hg, h.index, ht, exists_map (fun t _ => (hf x t).2.2.2.2.2.2.2)]

theorem relinked (h : s.Sane I) (ht : s'.tasks = s.tasks) (hg : s'.tags = s.tags)
    (hd : ∀ a b, b ∈ s'.deps a → b ∈ s.deps a ∨
    (s.tasks b).isSome = true ∧ (a = initTaskId → I.fit → ∀ t, s.tasks b = some t → t.savedPin = false)) :
    s'.Sane I := by
  constructor
  · rw [ht]
    exact h.init
  · intro a b hb
    rw [ht]
    rcases hd a b hb with hb | ⟨hb, -⟩
    · exact h.target a b hb
    · exact hb
  · rw [ht]
    exact h.failed
  · rw [ht]
    exact h.gaveUp
  · rw [ht]
    exact h.killed
  · intro hfit x t hx hsaved hmem
    rw [ht] at hx
    rcases hd _ _ hmem with hmem | ⟨-, hnot⟩
    · exact h.saved hfit x t hx hsaved hmem
    · rw [hnot rfl hfit t hx] at hsaved
      cases hsaved
  · rw [ht]
    exact h.copies
  · rw [ht, hg]
    exact h.index

theorem aside (h : s.Sane I) (ht : s'.tasks = s.tasks) (hd : s'.deps = s.deps) (hg : s'.tags = s.tags) :
    s'.Sane I :=
  h.relinked ht hg fun _ _ hb => .inl (hd ▸ hb)

theorem calm (h : s.Sane I) (id : TaskId) {f : Record τ → Record τ} (hf : ∀ t, (f t).startFailed = t.startFailed ∧
    (f t).state = t.state ∧ (f t).ready = t.ready ∧ (f t).stopTimedOut = t.stopTimedOut ∧
    (f t).killed = t.killed ∧ (f t).savedPin = t.savedPin ∧ (f t).makeCopy = t.makeCopy ∧ (f t).tags = t.tags) :
    (s.modify id f).Sane I := by
  apply h.modified
  intro t ht
  obtain ⟨hfail, hstate, hready, hgave, hkill, hsaved, hcopy⟩ := hf t
  rw [hfail, hstate, hready, hgave, hkill, hsaved]
  exact ⟨h.failed id t ht, h.gaveUp id t ht, fun hfit => h.killed hfit id t ht, fun h => h, hcopy⟩

theorem installed (h : s.Sane I) {t : Record τ} (hnone : s.tasks id = none) (hne : id ≠ initTaskId)
    (htags : t.tags = [])
    (hfail : t.startFailed = true → t.state = .stopping ∧ t.ready.timeout.isSome = true)
    (hgave : t.stopTimedOut = true → t.state = .idle)
    (hfit : I.fit → (t.killed = true → t.state = .stopping) ∧ t.CopiesFit) :
    { s with tasks := Function.update s.tasks id (some t), changed := true }.Sane I := by
  have hcase (x : TaskId) (t' : Record τ) (hx : Function.update s.tasks id (some t) x = some t') :
      x = id ∧ t' = t ∨ x ≠ id ∧ s.tasks x = some t' := by
    by_cases hxi : x = id
    · subst hxi
      rw [Function.update_self] at hx
      exact .inl ⟨rfl, (Option.some.inj hx).symm⟩
    · rw [Function.update_of_ne hxi] at hx
      exact .inr ⟨hxi, hx⟩
  constructor
  · exact (Function.update_of_ne hne.symm _ _).trans h.init
  · intro a b hb
    by_cases hbi : b = id
    · simp only [hbi, Function.update_self, Option.isSome_some]
    · simp only [Function.update_of_ne hbi]
      exact h.target a b hb
  · intro x t' hx
    rcases hcase x t' hx with ⟨-, rfl⟩ | ⟨-, hx⟩
    · exact hfail
    · exact h.failed x t' hx
  · intro x t' hx
    rcases hcase x t' hx with ⟨-, rfl⟩ | ⟨-, hx⟩
    · exact hgave
    · exact h.gaveUp x t' hx
  · intro hf x t' hx
    rcases hcase x t' hx with ⟨-, rfl⟩ | ⟨-, hx⟩
    · exact (hfit hf).1
    · exact h.killed hf x t' hx
  · intro hf x t' hx hsaved hmem
    have hsome := h.target _ _ hmem
    rcases hcase x t' hx with ⟨rfl, -⟩ | ⟨-, hx⟩
    · rw [hnone] at hsome
      cases hsome
    · exact h.saved hf x t' hx hsaved hmem
  · intro hf x t' hx
    rcases hcase x t' hx with ⟨-, rfl⟩ | ⟨-, hx⟩
    · exact (hfit hf).2
    · exact h.copies hf x t' hx
  · intro tag x
    refine (h.index tag x).trans ⟨?_, ?_⟩
    · rintro ⟨t', hx, htag⟩
      have hxi : x ≠ id := fun he => by rw [he, hnone] at hx; cases hx
      exact ⟨t', (Function.update_of_ne hxi _ _).trans hx, htag⟩
    · rintro ⟨t', hx, htag⟩
      rcases hcase x t' hx with ⟨-, rfl⟩ | ⟨-, hx⟩
      · rw [htags] at htag
        cases htag
      · exact ⟨t', hx, htag⟩

theorem tagged (h : s.Sane I) {t : Record τ} (own : List String) (ht : s.tasks id = some t) :
    ({ s.modify id (fun t => { t with tags := own }) with
      tags := fun tag => if tag ∈ own then insert id (s.untag id t.tags tag) else s.untag id t.tags tag
      changed := s.changed || decide (t.tags ≠ own) } : Records τ).Sane I := by
  have hcase (x : TaskId) (t' : Record τ) (hx : (s.modify id fun t => { t with tags := own }).tasks x = some t') :
      ∃ t₀, s.tasks x = some t₀ ∧ t' = { t₀ with tags := t'.tags } := by
    obtain ⟨t₀, ht₀, ⟨-, rfl⟩ | ⟨-, rfl⟩⟩ := modify_some hx <;> exact ⟨_, ht₀, rfl⟩
  constructor
  · rw [show (_ : Option (Record τ)) = _ from tasks_modify _ _ _ _, h.init]
    split <;> rfl
  · intro a b hb
    rw [show (_ : Option (Record τ)).isSome = _ from isSome_modify _ _ _ _]
    exact h.target a b hb
  · intro x t' hx
    obtain ⟨t₀, ht₀, he⟩ := hcase x t' hx
    rw [he]
    exact h.failed x t₀ ht₀
  · intro x t' hx
    obtain ⟨t₀, ht₀, he⟩ := hcase x t' hx
    rw [he]
    exact h.gaveUp x t₀ ht₀
  · intro hf x t' hx
    obtain ⟨t₀, ht₀, he⟩ := hcase x t' hx
    rw [he]
    exact h.killed hf x t₀ ht₀
  · intro hf x t' hx
    obtain ⟨t₀, ht₀, he⟩ := hcase x t' hx
    rw [he]
    exact h.saved hf x t₀ ht₀
  · intro hf x t' hx
    obtain ⟨t₀, ht₀, he⟩ := hcase x t' hx
    rw [he]
    exact h.copies hf x t₀ ht₀
  · intro tag x
    simp only [tasks_modify]
    by_cases hx : x = id
    · subst hx
      have hout : x ∉ s.untag x t.tags tag := by
        unfold untag
        split
        · exact Finset.notMem_erase _ _
        · rename_i hn
          rw [h.index]
          rintro ⟨t', ht', htag⟩
          rw [Option.some.inj (ht.symm.trans ht')] at hn
          exact hn htag
      simp only [ht, if_true, Option.map_some, Option.some.injEq, exists_eq_left']
      split
      · simp [*]
      · simp [*]
    · have hsame : x ∈ s.untag id t.tags tag ↔ x ∈ s.tags tag := by
        unfold untag
        split
        · simp [hx]
        · rfl
      simp only [hx, if_false]
      rw [← h.index, ← hsame]
      split
      · simp [hx]
      · rfl

theorem taken (h : s.Sane I) {t : Record τ} (ht : s.tasks id = some t) (parents : TaskId → ℤ) :
    ({ s with
      changed := true
      tasks := fun x => if x = id then none else (s.tasks x).map fun t => { t with wantedParents := parents x }
      deps := fun x => if x = id then ∅ else (s.deps x).erase id
      tags := s.untag id t.tags } : Records τ).Sane I := by
  have hne : id ≠ initTaskId := fun he => by rw [he, h.init] at ht; cases ht
  have hcase (x : TaskId) (t : Record τ) (hx : (if x = id then none else
      (s.tasks x).map fun t => { t with wantedParents := parents x }) = some t) :
      ∃ t₀, s.tasks x = some t₀ ∧ t = { t₀ with wantedParents := parents x } := by
    split at hx
    · cases hx
    · obtain ⟨t₀, ht₀, rfl⟩ := Option.map_eq_some_iff.mp hx
      exact ⟨t₀, ht₀, rfl⟩
  have hdeps (a b : TaskId) (hb : b ∈ (if a = id then (∅ : Finset TaskId) else (s.deps a).erase id)) :
      b ≠ id ∧ b ∈ s.deps a := by
    split at hb
    · cases hb
    · exact Finset.mem_erase.mp hb
  constructor
  · exact (if_neg hne.symm).trans (by rw [h.init]; rfl)
  · intro a b hb
    obtain ⟨hbi, hb⟩ := hdeps a b hb
    simp only [hbi, if_false, Option.isSome_map]
    exact h.target a b hb
  · intro x t hx
    obtain ⟨t₀, ht₀, rfl⟩ := hcase x t hx
    exact h.failed x t₀ ht₀
  · intro x t hx
    obtain ⟨t₀, ht₀, rfl⟩ := hcase x t hx
    exact h.gaveUp x t₀ ht₀
  · intro hfit x t hx
    obtain ⟨t₀, ht₀, rfl⟩ := hcase x t hx
    exact h.killed hfit x t₀ ht₀
  · intro hfit x t hx hsaved hmem
    obtain ⟨t₀, ht₀, rfl⟩ := hcase x t hx
    exact h.saved hfit x t₀ ht₀ hsaved (hdeps _ _ hmem).2
  · intro hfit x t hx
    obtain ⟨t₀, ht₀, rfl⟩ := hcase x t hx
    exact h.copies hfit x t₀ ht₀
  · intro tag x
    have hout : x ∈ s.untag id t.tags tag ↔ x ≠ id ∧ x ∈ s.tags tag := by
      unfold untag
      split
      · exact Finset.mem_erase
      · rename_i hn
        refine ⟨fun hx => ⟨?_, hx⟩, And.right⟩
        rintro rfl
        obtain ⟨t', ht', htag⟩ := (h.index tag x).mp hx
        rw [Option.some.inj (ht.symm.trans ht')] at hn
        exact hn htag
    simp only
    rw [hout, h.index]
    by_cases hx : x = id
    · simp [hx]
    · simp [hx]

end Records.Sane

theorem Edit.sane (h : Edit I c s s') (hs : s.Sane I) : s'.Sane I := by
  cases h with
  | @entered _ s id t state ht hl =>
    have hm : (s.modify id (Record.enter state)).Sane I := by
      apply hs.modified
      intro t _
      refine ⟨fun h => ?_, fun h => ?_, fun _ h => ?_, fun h => h, rfl, rfl⟩ <;> cases h
    exact hm.aside rfl rfl rfl
  | @adopted _ s id t kind ready ht hidle =>
    apply hs.modified
    intro t' ht'
    obtain rfl : t = t' := Option.some.inj (ht.symm.trans ht')
    refine ⟨fun h => ?_, hs.gaveUp id t ht, fun hfit => hs.killed hfit id t ht, fun h => h, rfl, rfl⟩
    have hstate := (hs.failed id t ht h).1
    rw [hidle] at hstate
    cases hstate
  | @failed _ s id t ht hstate htime _ =>
    apply hs.modified
    intro t' ht'
    obtain rfl : t = t' := Option.some.inj (ht.symm.trans ht')
    exact ⟨fun _ => ⟨hstate, htime⟩, hs.gaveUp id t ht, fun _ _ => hstate, fun h => h, rfl, rfl⟩
  | @killed _ s id t ht hstate =>
    apply hs.modified
    intro t' ht'
    obtain rfl : t = t' := Option.some.inj (ht.symm.trans ht')
    exact ⟨hs.failed id t ht, hs.gaveUp id t ht, fun _ _ => hstate, fun h => h, rfl, rfl⟩
  | @gaveUp _ s id t ht hstate =>
    have hm : (s.modify id fun t => { t with stopTimedOut := true }).Sane I := by
      apply hs.modified
      intro t' ht'
      obtain rfl : t = t' := Option.some.inj (ht.symm.trans ht')
      exact ⟨hs.failed id t ht, fun _ => hstate, fun hfit => hs.killed hfit id t ht, fun h => h, rfl, rfl⟩
    exact hm.aside rfl rfl rfl
  | supports s id => exact hs.calm id fun _ => ⟨rfl, rfl, rfl, rfl, rfl, rfl, rfl, rfl⟩
  | wants parents ht hne =>
    exact hs.mapped (fun _ => rfl) rfl (fun _ _ => ⟨rfl, rfl, rfl, rfl, rfl, rfl, rfl, rfl⟩) rfl
  | excused s id =>
    have hm : (s.modify id fun t => { t with startFailed := false }).Sane I := by
      apply hs.modified
      intro t ht
      refine ⟨fun h => ?_, hs.gaveUp id t ht, fun hfit => hs.killed hfit id t ht, fun h => h, rfl, rfl⟩
      cases h
    exact hm.aside rfl rfl rfl
  | unsaved s id =>
    apply hs.modified
    intro t ht
    refine ⟨hs.failed id t ht, hs.gaveUp id t ht, fun hfit => hs.killed hfit id t ht, fun h => ?_, rfl, rfl⟩
    cases h
  | vetoed s id value => exact hs.calm id fun _ => ⟨rfl, rfl, rfl, rfl, rfl, rfl, rfl, rfl⟩
  | @linked s src dst parents hdst hsaved =>
    have hm : (s.modify dst fun t => { t with wantedParents := parents }).Sane I :=
      hs.calm dst fun _ => ⟨rfl, rfl, rfl, rfl, rfl, rfl, rfl, rfl⟩
    refine hm.relinked ?_ ?_ ?_
    · rfl
    · rfl
    intro a b hb
    by_cases ha : a = src
    · subst ha
      simp only [Function.update_self, Finset.mem_insert] at hb
      rcases hb with rfl | hb
      · refine .inr ⟨?_, fun ha hfit t ht => ?_⟩
        · rw [Records.isSome_modify]
          exact hdst
        · obtain ⟨t₀, ht₀, ⟨-, rfl⟩ | ⟨hne, -⟩⟩ := Records.modify_some ht
          · exact hsaved ha hfit t₀ ht₀
          · exact absurd rfl hne
      · exact .inl hb
    · simp only [Function.update_of_ne ha] at hb
      exact .inl hb
  | unlinked s src dst parents =>
    have hm : (s.modify dst fun t => { t with wantedParents := parents }).Sane I :=
      hs.calm dst fun _ => ⟨rfl, rfl, rfl, rfl, rfl, rfl, rfl, rfl⟩
    refine hm.relinked ?_ ?_ ?_
    · rfl
    · rfl
    intro a b hb
    by_cases ha : a = src
    · subst ha
      simp only [Function.update_self] at hb
      exact .inl (Finset.mem_of_mem_erase hb)
    · simp only [Function.update_of_ne ha] at hb
      exact .inl hb
  | tagged own ht => exact hs.tagged own ht
  | labelled s id label =>
    have hm : (s.modify id fun t => { t with label }).Sane I := hs.calm id fun _ =>
      ⟨rfl, rfl, rfl, rfl, rfl, rfl, rfl, rfl⟩
    exact hm.aside rfl rfl rfl
  | redefined s id next restart label =>
    have hm : (s.modify id fun t => { t with
        kind := if t.state = .idle then next.1 else t.kind
        ready := if t.state = .idle then next.2 else t.ready
        restart, label }).Sane I := by
      apply hs.modified
      intro t ht
      refine ⟨fun h => ?_, hs.gaveUp id t ht, fun hfit => hs.killed hfit id t ht, fun h => h, rfl, rfl⟩
      obtain ⟨hstate, htime⟩ := hs.failed id t ht h
      refine ⟨hstate, ?_⟩
      simp only [hstate]
      exact htime
    exact hm.aside rfl rfl rfl
  | moved id path _ => exact hs.calm id fun _ => ⟨rfl, rfl, rfl, rfl, rfl, rfl, rfl, rfl⟩
  | registered hnone hne htags hfail hgave hfit => exact hs.installed hnone hne htags hfail hgave hfit
  | flagged | quits => exact hs.aside rfl rfl rfl
  | removed parents ht => exact hs.taken ht parents

def Edits (I : Terms τ) (c : Cause) : Records τ → Records τ → Prop := Relation.ReflTransGen (Edit I c)

theorem Edits.sane (h : Edits I c s s') (hs : s.Sane I) : s'.Sane I := by
  induction h with
  | refl => exact hs
  | tail _ he ih => exact he.sane ih

theorem Leads.raise {t : Record τ} {state : TaskState} (h : Leads I t .itself state) (c : Cause) :
    Leads I t c state := by
  cases h with
  | starts hs hsup => exact .starts hs hsup
  | started hs => exact .started hs
  | ready hs => exact .ready hs
  | stops hs => exact .stops hs
  | ends hs hr => exact .ends hs hr
  | lands hs hf => exact .lands hs hf
  | fails hs hf hi => exact .fails hs hf hi
  | retries hs => exact .retries hs

theorem Edits.deps (h : Edits I .itself s s') : s'.deps = s.deps := by
  induction h with
  | refl => rfl
  | tail _ he ih => rw [← ih]; cases he <;> rfl

theorem Leads.not_done {t : Record τ} {state : TaskState} {info : ExitInfo} (h : Leads I t .itself state) :
    t.state ≠ .done info := by
  intro hs
  cases h with
  | starts h | started h | ready h | lands h | fails h | retries h =>
    rw [hs] at h
    cases h
  | stops h | ends h => rcases h with h | h | h <;> rw [hs] at h <;> cases h

omit [Task τ] in
theorem Records.done_modify {f : Record τ → Record τ} {info : ExitInfo} (hf : ∀ t, s.tasks id = some t → (f t).state = t.state)
    (h : ∃ t, s.tasks x = some t ∧ t.state = .done info) : ∃ t,
    (s.modify id f).tasks x = some t ∧ t.state = .done info := by
  obtain ⟨t, ht, hs⟩ := h
  rw [Records.tasks_modify]
  split
  · rename_i hx
    exact ⟨f t, by rw [ht]; rfl, (hf t (hx ▸ ht)).trans hs⟩
  · exact ⟨t, ht, hs⟩

theorem Edit.done {info : ExitInfo} (he : Edit I .itself s s') (h : ∃ t, s.tasks x = some t ∧ t.state = .done info) :
    ∃ t, s'.tasks x = some t ∧ t.state = .done info := by
  cases he with
  | @entered _ _ id t₀ state ht₀ hl =>
    obtain ⟨t, ht, hs⟩ := h
    have hne : x ≠ id := by
      rintro rfl
      obtain rfl := Option.some.inj (ht.symm.trans ht₀)
      exact hl.not_done hs
    exact ⟨t, (if_neg hne).trans ht, hs⟩
  | adopted kind ready _ _ => exact Records.done_modify (fun _ _ => rfl) h
  | failed _ _ _ _ => exact Records.done_modify (fun _ _ => rfl) h
  | killed _ _ => exact Records.done_modify (fun _ _ => rfl) h
  | gaveUp _ _ => exact Records.done_modify (fun _ _ => rfl) h
  | supports id => exact Records.done_modify (fun _ _ => rfl) h
  | wants parents _ _ =>
    obtain ⟨t, ht, hs⟩ := h
    exact ⟨_, congrArg (Option.map _) ht, hs⟩

theorem Edits.done {info : ExitInfo} (he : Edits I .itself s s') (h : ∃ t, s.tasks x = some t ∧ t.state = .done info) :
    ∃ t, s'.tasks x = some t ∧ t.state = .done info := by
  induction he with
  | refl => exact h
  | tail _ hstep ih => exact hstep.done ih

theorem Edit.raise (h : Edit I .itself s s') (c : Cause) : Edit I c s s' := by
  cases h with
  | entered ht hl => exact .entered ht (hl.raise c)
  | adopted kind ready ht hs => exact .adopted kind ready ht hs
  | failed ht hs hr hc => exact .failed ht hs hr hc
  | killed ht hs => exact .killed ht hs
  | gaveUp ht hs => exact .gaveUp ht hs
  | supports s id => exact .supports s id
  | wants parents ht hne => exact .wants parents ht hne

theorem Edits.raise (h : Edits I .itself s s') (c : Cause) : Edits I c s s' := by
  induction h with
  | refl => exact .refl
  | tail _ he ih => exact ih.tail (he.raise c)

end Dekit
