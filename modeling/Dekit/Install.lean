import Dekit.Settle

namespace Dekit

namespace View

open Relation

variable {v : View} {id src dst x : TaskId}

theorem Shape.not_reach_init (h : Shape v) (hx : x ≠ initTaskId) : ¬ ReflTransGen v.Dep x initTaskId := by
  intro hr
  rcases ReflTransGen.cases_tail hr with he | ⟨y, -, hy⟩
  · exact hx he.symm
  · exact h.init (h.target y _ hy)

theorem Shape.not_reach (h : Shape v) (hreq : v.requirers id = ∅) (hx : x ≠ id) :
    ¬ ReflTransGen v.Dep x id := by
  intro hr
  rcases ReflTransGen.cases_tail hr with he | ⟨y, -, hy⟩
  · exact hx he.symm
  · have := (h.inverse y id).mp hy
    simp [hreq] at this

theorem requirers_addEdge (hx : x ≠ dst) : (v.addEdge src dst).requirers x = v.requirers x := by
  unfold View.addEdge
  split
  · rfl
  · split
    · rfl
    · split <;> simp [linkEdge, hx]

@[simp]
theorem ids_addEdge : (v.addEdge src dst).ids = v.ids := by
  unfold View.addEdge
  split
  · rfl
  · split
    · rfl
    · split <;> rfl

end View

namespace Graph

variable {τ : Type} {g g' : Graph τ} {id : TaskId} {s : Finset TaskId}

theorem modifyTask_eq {t : TaskHandle τ} (hold : g.tasks.lookup id = some t)
    (f : TaskHandle τ → TaskHandle τ) :
    g.modifyTask id f = { g with tasks := g.tasks.insert id (f t) } := by
  simp [modifyTask, Finmap.modify, hold]

theorem modifyTask_none (hold : g.tasks.lookup id = none) (f : TaskHandle τ → TaskHandle τ) :
    g.modifyTask id f = g := by
  simp [modifyTask, Finmap.modify, hold]

theorem view_scheduleAny (g : Graph τ) (id : TaskId) (timer : Option Duration) :
    (g.scheduleAny id timer).view = g.view := by
  cases timer with
  | none => rfl
  | some delay => exact view_scheduleStateTimeout g id delay

/-- Whatever was saved of it, a new task caches nothing. -/
theorem install_fresh (def' : TaskDef τ) (task : τ) (now : Instant) (saved : Option Snap.Task) :
    (def'.install task now saved).wanted = false ∧ (def'.install task now saved).supported = false ∧
      (def'.install task now saved).wantedParents = 0 ∧
      (def'.install task now saved).activeDependents = 0 := by
  cases saved <;> exact ⟨rfl, rfl, rfl, rfl⟩

theorem claimPath_ok {def' : TaskDef τ} (h : g.claimPath id def' = .ok g') : ∃ ns, g' = { g with ns } := by
  unfold claimPath at h
  split at h
  · exact ⟨g.ns, (Except.ok.inj h).symm⟩
  · split at h
    · exact ⟨_, (Except.ok.inj h).symm⟩
    · cases h

theorem ids_addDeps (g : Graph τ) (id : TaskId) (deps : List TaskId) :
    (deps.foldl (fun g dep => g.addEdge id dep) g).view.ids = g.view.ids :=
  Fold.foldl_keeps (p := fun g : Graph τ => g.view.ids)
    (fun g dep => by rw [view_addEdge, View.ids_addEdge]) deps g

namespace Sound

theorem alike (h : Sound s g) (ha : View.Alike g.view g'.view) (hs : g'.view.Shape) (hc : g'.view.Counts)
    (hq : g'.Queued) (hl : g'.log = g.log) : Sound s g' :=
  ⟨hs, hc, h.fresh.alike ha, h.driven.alike ha, hq, hl ▸ h.log⟩

theorem setKind (h : Sound s g) {t : TaskHandle τ} (hold : g.tasks.lookup id = some t)
    (hidle : t.state = .idle) (kind : TaskKind) (hv : g'.view = g.view.setKind id kind)
    (hd : g'.dirty = g.dirty) (hl : g'.log = g.log) : Sound s g' := by
  have hnode : g.view.node id = some t.node := by rw [view_node, hold]; rfl
  have ha := View.alike_setKind hnode hidle kind
  refine h.alike (hv ▸ ha) ?_ ?_ ?_ hl
  · exact hv ▸ h.shape.revise _ _
  · exact hv ▸ h.counts.revise fun _ => ⟨rfl, rfl, rfl, rfl⟩
  · have hin : g'.inQueue = g.inQueue := (congrArg View.dirty hv).trans rfl
    unfold Queued
    rw [hin, hd]
    exact h.queued

theorem redefine (h : Sound s g) (id : TaskId) (update : TaskUpdate) : Sound s (g.redefine id update) := by
  unfold Graph.redefine
  simp only
  cases hold : g.tasks.lookup id with
  | none =>
    rw [modifyTask_none hold]
    exact h.same rfl rfl rfl
  | some t =>
    rw [modifyTask_eq hold]
    by_cases hidle : t.state = .idle
    · refine h.setKind hold hidle update.next.kind ?_ rfl rfl
      rw [if_pos hidle]
      exact view_replace hold rfl
    · refine h.same ?_ rfl rfl
      rw [if_neg hidle]
      refine Eq.trans ?_ (View.revise_id g.view {id})
      exact view_replace hold rfl

theorem insertTask (h : Sound s g) (hid : id ∉ g.tasks) (hne : id ≠ initTaskId) {t : TaskHandle τ}
    (hw : t.wanted = false) (hs : t.supported = false) (hp : t.wantedParents = 0)
    (ha : t.activeDependents = 0) : Sound (insert id s) (g.insertTask id t) := by
  have hid' : id ∉ g.view.ids := fun hm => hid ((mem_tasks g id).mpr hm)
  have hv : (g.insertTask id t).view = g.view.insertTask id t.node := by
    refine View.ext rfl ?_ (funext fun x => ?_) rfl rfl rfl
    · simp [view, View.insertTask, Graph.insertTask]
    · simp only [view, View.insertTask, Graph.insertTask, Finmap.lookup_insert_ite]
      by_cases hx : x = id <;> simp [hx]
  refine ⟨?_, ?_, ?_, ?_, h.queued, h.log⟩ <;> rw [hv]
  · exact h.shape.insertTask hid' hne
  · exact h.counts.insertTask h.shape hid' hne hp ha
  · exact h.fresh.insertTask h.shape hid' hw hs hp
  · exact h.driven.insertTask

theorem addDeps (h : Sound s g) (hreq : g.view.requirers id = ∅) (deps : List TaskId) :
    Sound s (deps.foldl (fun g dep => g.addEdge id dep) g) := by
  have hstep (g : Graph τ) (hg : Sound s g ∧ g.view.requirers id = ∅) (dep : TaskId) :
      Sound s (g.addEdge id dep) ∧ (g.addEdge id dep).view.requirers id = ∅ := by
    obtain ⟨hg, hreq⟩ := hg
    by_cases hdep : dep = id
    · subst hdep
      simpa [Graph.addEdge] using ⟨hg, hreq⟩
    · refine ⟨hg.addEdge (hg.shape.not_reach hreq hdep), ?_⟩
      rw [view_addEdge, View.requirers_addEdge (Ne.symm hdep), hreq]
  exact (Fold.foldl_invariant (fun g hg dep _ => hstep g hg dep) ⟨h, hreq⟩).1

theorem scheduleAny (h : Sound s g) (id : TaskId) (timer : Option Duration) :
    Sound s (g.scheduleAny id timer) := by
  cases timer with
  | none => exact h
  | some delay => exact h.scheduleStateTimeout id delay

section install

variable [Task τ]

theorem installTask (h : Sound s g) (hid : id ∉ g.tasks) (hne : id ≠ initTaskId) (def' : TaskDef τ)
    (deps : List TaskId) {t : TaskHandle τ} (hw : t.wanted = false) (hs : t.supported = false)
    (hp : t.wantedParents = 0) (ha : t.activeDependents = 0) (timer : Option Duration) :
    Sound s (g.installTask id def' deps t timer) := by
  unfold Graph.installTask
  have hi := h.insertTask hid hne hw hs hp ha
  have hreq : (g.insertTask id t).view.requirers id = ∅ :=
    h.shape.no_requirers fun hm => hid ((mem_tasks g id).mpr hm)
  have hmem : id ∈ (g.insertTask id t).view.ids := by
    simp [view, Graph.insertTask]
  simp only
  generalize g.insertTask id t = g₁ at hi hreq hmem ⊢
  have h₂ := hi.scheduleAny id timer
  have hv₂ := view_scheduleAny g₁ id timer
  generalize g₁.scheduleAny id timer = g₂ at h₂ hv₂ ⊢
  have hq := (Still.setTags g₂ id def'.tags).toQuiet
  have h₃ := h₂.quiet hq
  have hv₃ : (g₂.setTags id def'.tags).view = g₁.view := hq.view.trans hv₂
  generalize g₂.setTags id def'.tags = g₃ at h₃ hv₃ ⊢
  have h₄ := h₃.addDeps (hv₃ ▸ hreq) deps
  have hids := ids_addDeps g₃ id deps
  generalize deps.foldl (fun g dep => g.addEdge id dep) g₃ = g₄ at h₄ hids ⊢
  have hmem₄ : id ∈ g₄.view.ids := by rwa [hids, hv₃]
  have h₅ : Sound (insert id s) (if def'.pinned then g₄.addEdge initTaskId id else g₄) ∧
      id ∈ (if def'.pinned then g₄.addEdge initTaskId id else g₄).view.ids := by
    split
    · exact ⟨h₄.addEdge (h₄.shape.not_reach_init hne), by rwa [view_addEdge, View.ids_addEdge]⟩
    · exact ⟨h₄, hmem₄⟩
  refine Sound.quiet ?_ (Quiet.notifySubscribers _ _ _ _ _)
  refine shrink (h₅.1.enqueue id) (.inl ?_)
  rw [view_enqueue]
  exact (View.mem_touch_dirty _ _ _).mpr (.inr ⟨Finset.mem_singleton_self id, hne, h₅.2⟩)

theorem registerTaskWithId (h : Sound s g) (hne : id ≠ initTaskId) (def' : TaskDef τ)
    (factory : TaskId → τ) (saved : Option Snap.Task) :
    Sound s (g.registerTaskWithId id def' factory saved).1 := by
  unfold Graph.registerTaskWithId
  split
  · exact h
  · rename_i hid
    rw [not_or] at hid
    split
    · exact h
    · split
      · exact h
      · rename_i deps _ _ g' hg'
        obtain ⟨ns, rfl⟩ := claimPath_ok hg'
        obtain ⟨hw, hs, hp, ha⟩ := install_fresh def' (factory id) g.now saved
        have hn : Sound s { g with ns } := h.same rfl rfl rfl
        exact hn.installTask hid.1 hne def' deps hw hs hp ha _

end install

end Sound

end Graph

end Dekit
