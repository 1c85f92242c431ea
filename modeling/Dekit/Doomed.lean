import Dekit.Unseen

namespace Dekit

variable {τ : Type}

namespace Record

variable {t : Record τ}

theorem exitState_of_timeout {info : ExitInfo} (h : info.readyTimeout = true) :
    t.exitState info = if t.restart = .never then .exited info else .backoff info := by
  have hs : info.success = false := by simp [ExitInfo.success, h]
  unfold exitState
  rw [if_neg (by simp [hs])]
  cases t.restart <;> simp [hs]

/-- An end is an end for good, but for a command. -/
theorem ended_enter [Task τ] {I : Terms τ} {state : TaskState} (hl : Leads I t .itself state) (he : t.hasEnded = true) :
    (t.enter state).hasEnded = true ∧ (t.enter state).isSatisfied = false := by
  unfold hasEnded at he
  cases hl with
  | starts hs | started hs | ready hs | retries hs => rw [hs] at he; cases he
  | stops hs | ends hs => rcases hs with hs | hs | hs <;> rw [hs] at he <;> cases he
  | lands hs hf =>
    rw [hs, hf] at he
    cases he
  | @fails _ info hs hf hi =>
    rw [hs, hf, exitState_of_timeout rfl] at he
    rw [exitState_of_timeout hi]
    split
    · refine ⟨rfl, ?_⟩
      unfold isSatisfied enter
      cases t.kind <;> rfl
    · rename_i hr
      rw [if_neg hr] at he
      cases he

end Record

namespace Records

variable {s s' : Records τ} {H E : TaskId → Prop} {id : TaskId}

/-- Tasks that stay down: the runs of some have ended, and the others are not wanted or require one that
stays down. -/
structure Doomed (H E : TaskId → Prop) (s : Records τ) : Prop where
  wanted : s.quitting = true ∨ ∀ x t, s.tasks x = some t → t.wanted = s.wants x
  ended : ∀ x t, E x → s.tasks x = some t → t.hasEnded = true ∧ t.isSatisfied = false
  held : ∀ x t, H x → s.tasks x = some t → t.supported = false ∧
    (t.wanted = false ∨ ∃ dep ∈ s.deps x, H dep ∨ E dep)

namespace Doomed

theorem not_supports (h : s.Doomed H E) {t : Record τ} (hid : H id) (ht : s.tasks id = some t) :
    s.supports id = false := by
  rw [Bool.eq_false_iff]
  intro hsup
  obtain ⟨hw, hall⟩ := Bool.and_eq_true_iff.mp hsup
  rcases (h.held id t hid ht).2 with hwanted | ⟨dep, hdep, hdown⟩
  · rw [ht, Option.any_some, hwanted] at hw
    cases hw
  · obtain ⟨t', ht', hup⟩ := (Option.any_eq_true _ _).mp (of_decide_eq_true hall dep hdep)
    obtain ⟨hsupported, hsatisfied⟩ := Bool.and_eq_true_iff.mp hup
    rcases hdown with hdown | hdown
    · rw [(h.held dep t' hdown ht').1] at hsupported
      cases hsupported
    · rw [(h.ended dep t' hdown ht').2] at hsatisfied
      cases hsatisfied

theorem modified (h : s.Doomed H E) {f : Record τ → Record τ} (ht : s'.tasks = (s.modify id f).tasks)
    (hd : s'.deps = s.deps) (hq : s'.quitting = s.quitting)
    (hf : ∀ t, (f t).wanted = t.wanted ∧ (f t).vetoed = t.vetoed ∧ (f t).wantedParents = t.wantedParents)
    (hend : ∀ t, s.tasks id = some t → t.hasEnded = true → t.isSatisfied = false →
      (f t).hasEnded = true ∧ (f t).isSatisfied = false)
    (hsup : ∀ t, s.tasks id = some t → H id → (f t).supported = false) : s'.Doomed H E := by
  have hcase (x : TaskId) (t : Record τ) (hx : s'.tasks x = some t) :
      ∃ t₀, s.tasks x = some t₀ ∧ (x = id ∧ t = f t₀ ∨ x ≠ id ∧ t = t₀) := modify_some (ht ▸ hx)
  have hwants (x : TaskId) : s'.wants x = s.wants x := by
    unfold wants
    rw [hq, ht, tasks_modify]
    split
    · cases s.tasks x with
      | none => rfl
      | some t => rw [Option.map_some, Option.any_some, Option.any_some, (hf t).2.1, (hf t).2.2]
    · rfl
  refine ⟨?_, fun x t hx hxt => ?_, fun x t hx hxt => ?_⟩
  · rw [hq]
    refine h.wanted.imp_right fun hw x t hxt => ?_
    rw [hwants]
    obtain ⟨t₀, ht₀, ⟨-, rfl⟩ | ⟨-, rfl⟩⟩ := hcase x t hxt
    · rw [(hf t₀).1]
      exact hw x t₀ ht₀
    · exact hw x t ht₀
  · obtain ⟨t₀, ht₀, ⟨rfl, rfl⟩ | ⟨-, rfl⟩⟩ := hcase x t hxt
    · obtain ⟨he, hs⟩ := h.ended x t₀ hx ht₀
      exact hend t₀ ht₀ he hs
    · exact h.ended x t hx ht₀
  · rw [hd]
    obtain ⟨t₀, ht₀, ⟨rfl, rfl⟩ | ⟨-, rfl⟩⟩ := hcase x t hxt
    · rw [(hf t₀).1]
      exact ⟨hsup t₀ ht₀ hx, (h.held x t₀ hx ht₀).2⟩
    · exact h.held x t hx ht₀

theorem quits (h : s.Doomed H E) : ({ s with quitting := true } : Records τ).Doomed H E :=
  ⟨.inl rfl, h.ended, h.held⟩

theorem edit [Task τ] {I : Terms τ} (h : s.Doomed H E) (he : Edit I .itself s s') : s'.Doomed H E := by
  cases he with
  | @entered _ s id t state ht hl =>
    refine h.modified (f := Record.enter state) rfl rfl rfl (fun _ => ⟨rfl, rfl, rfl⟩) (fun t' ht' hend _ => ?_)
      fun t' ht' hid => (h.held id t' hid ht').1
    obtain rfl : t = t' := Option.some.inj (ht.symm.trans ht')
    exact Record.ended_enter hl hend
  | @adopted _ s id t kind ready ht hidle =>
    refine h.modified rfl rfl rfl (fun _ => ⟨rfl, rfl, rfl⟩) (fun t' ht' hend _ => ?_)
      fun t' ht' hid => (h.held id t' hid ht').1
    obtain rfl : t = t' := Option.some.inj (ht.symm.trans ht')
    unfold Record.hasEnded at hend
    rw [hidle] at hend
    cases hend
  | @failed _ s id t ht hs _ _ =>
    refine h.modified rfl rfl rfl (fun _ => ⟨rfl, rfl, rfl⟩) (fun t' ht' hend hsat => ⟨?_, hsat⟩)
      fun t' ht' hid => (h.held id t' hid ht').1
    obtain rfl : t = t' := Option.some.inj (ht.symm.trans ht')
    unfold Record.hasEnded at hend ⊢
    rw [hs] at hend
    simp only [hs]
    exact Bool.and_eq_true_iff.mpr ⟨rfl, (Bool.and_eq_true_iff.mp hend).2⟩
  | @killed _ s id t ht hs =>
    exact h.modified rfl rfl rfl (fun _ => ⟨rfl, rfl, rfl⟩) (fun _ _ hend hsat => ⟨hend, hsat⟩)
      fun t' ht' hid => (h.held id t' hid ht').1
  | @gaveUp _ s id t ht hs =>
    exact h.modified rfl rfl rfl (fun _ => ⟨rfl, rfl, rfl⟩) (fun _ _ hend hsat => ⟨hend, hsat⟩)
      fun t' ht' hid => (h.held id t' hid ht').1
  | supports s id =>
    exact h.modified rfl rfl rfl (fun _ => ⟨rfl, rfl, rfl⟩) (fun _ _ hend hsat => ⟨hend, hsat⟩)
      fun t' ht' hid => h.not_supports hid ht'
  | @wants _ s id t parents ht hne =>
    have hquit : s.quitting = true := h.wanted.resolve_right fun hw => hne (hw id t ht)
    have hnot : s.wants id = false := by
      unfold Records.wants
      rw [hquit]
      rfl
    refine ⟨.inl hquit, fun x t' hx hxt => ?_, fun x t' hx hxt => ?_⟩
    · obtain ⟨t₀, ht₀, rfl⟩ := Option.map_eq_some_iff.mp hxt
      exact h.ended x t₀ hx ht₀
    · obtain ⟨t₀, ht₀, rfl⟩ := Option.map_eq_some_iff.mp hxt
      obtain ⟨hsup, hwhy⟩ := h.held x t₀ hx ht₀
      refine ⟨hsup, hwhy.imp_left fun hw => ?_⟩
      simp only
      split
      · exact hnot
      · exact hw

theorem edits [Task τ] {I : Terms τ} (h : s.Doomed H E) (he : Edits I .itself s s') : s'.Doomed H E := by
  induction he with
  | refl => exact h
  | tail _ hstep ih => exact ih.edit hstep

end Doomed

end Records

namespace Graph

variable {g g' : Graph τ} {id : TaskId}

theorem isLive_eq (hs : g.view.Shape) (id : TaskId) : g.isLive id = (g.tasks.lookup id).any fun t =>
    t.wanted && !t.hasEnded && decide (∀ dep ∈ g.edges id, (g.satisfied dep || g.isLive dep) = true) := by
  let F (live : TaskId → Bool) (id : TaskId) : Bool := (g.tasks.lookup id).any fun t =>
    t.wanted && !t.hasEnded && decide (∀ dep ∈ g.edges id, (g.satisfied dep || live dep) = true)
  have hF (f f' : TaskId → Bool) (x : TaskId) (h : ∀ y, y ∈ g.edges x → f y = f' y) : F f x = F f' x := by
    have hdeps : (∀ dep ∈ g.edges x, (g.satisfied dep || f dep) = true) ↔
        ∀ dep ∈ g.edges x, (g.satisfied dep || f' dep) = true :=
      forall₂_congr fun dep hdep => by rw [h dep hdep]
    unfold F
    simp only [hdeps]
  have henough := Dag.fueled (r := fun y x => y ∈ g.edges x) (s := g.tasks.keys) (fun y x h => hs.target x y h)
    hs.acyclic.swap F hF (show ∀ n x, g.liveFrom (n + 1) x = F (g.liveFrom n) x from fun n x => rfl)
      (g.tasks.keys.card + 1) id (Nat.lt_succ_of_le (Dag.rank_le _))
  exact henough.symm

theorem dead_cases (hs : g.view.Shape) {t : TaskHandle τ} (ht : g.tasks.lookup id = some t) (h : g.isLive id = false) :
    t.wanted = false ∨ t.hasEnded = true ∨ ∃ dep ∈ g.edges id, g.satisfied dep = false ∧ g.isLive dep = false := by
  rw [isLive_eq hs, ht, Option.any_some, Bool.and_eq_false_iff, Bool.and_eq_false_iff] at h
  rcases h with (h | h) | h
  · exact .inl h
  · exact .inr (.inl (by simpa using h))
  · obtain ⟨dep, hdep, hdown⟩ : ∃ dep ∈ g.edges id, ¬ (g.satisfied dep || g.isLive dep) = true := by
      simpa using h
    rw [Bool.not_eq_true, Bool.or_eq_false_iff] at hdown
    exact .inr (.inr ⟨dep, hdep, hdown⟩)

def Dead (g : Graph τ) (id : TaskId) : Prop := g.satisfied id = false ∧ g.isLive id = false

def Held (g : Graph τ) (id : TaskId) : Prop :=
  ∀ t, g.tasks.lookup id = some t → t.wanted = false ∨ ∃ dep ∈ g.edges id, g.Dead dep

def Ended (g : Graph τ) (id : TaskId) : Prop :=
  ∃ t, g.tasks.lookup id = some t ∧ t.hasEnded = true ∧ t.isSatisfied = false

theorem Dead.cases (hs : g.view.Shape) (h : g.Dead id) : g.Held id ∨ g.Ended id := by
  by_cases he : g.Ended id
  · exact .inr he
  · refine .inl fun t ht => ?_
    rcases dead_cases hs ht h.2 with hw | hend | ⟨dep, hdep, hdead⟩
    · exact .inl hw
    · have hsat : t.isSatisfied = false := by
        have := h.1
        unfold satisfied at this
        rwa [ht] at this
      exact absurd ⟨t, ht, hend, hsat⟩ he
    · exact .inr ⟨dep, hdep, hdead⟩

end Graph

end Dekit
