import Dekit.Orders

namespace Dekit

/-- A definition, and what was saved of its task, that can go in. -/
structure TaskDef.Admits {τ : Type} (d : TaskDef τ) (saved : Option Snap.Task) : Prop where
  fit : d.Fit
  killed : ∀ s, saved = some s → s.killed = true → s.state = .stopping
  saved : ∀ s, saved = some s → s.savedPin = true → d.pinned = false

namespace TaskDef

variable {τ : Type} {d : TaskDef τ} {saved : Option Snap.Task}

theorem Fit.pinned (h : d.Fit) (hs : d.savedPin = true) : d.pinned = false := by
  cases h with
  | intro _ hp _ _ => exact hp hs

theorem install_failed (task : τ) (now : Instant) (h : (d.install task now saved).startFailed = true) :
    (d.install task now saved).state = .stopping ∧ (d.install task now saved).ready.timeout.isSome = true := by
  cases saved with
  | none => cases h
  | some s =>
    simp only [install, TaskHandle.restored, Bool.and_eq_true, beq_iff_eq] at h ⊢
    exact ⟨h.1.2, h.2⟩

theorem install_gaveUp (task : τ) (now : Instant) (h : (d.install task now saved).stopTimedOut = true) :
    (d.install task now saved).state = .idle := by
  cases saved with
  | none => cases h
  | some s =>
    simp only [install, TaskHandle.restored, Bool.and_eq_true, beq_iff_eq] at h ⊢
    exact h.2

theorem install_tags (task : τ) (now : Instant) : (d.install task now saved).tags = [] := by
  cases saved <;> rfl

theorem Admits.killed_stopping (h : d.Admits saved) (task : τ) (now : Instant)
    (hk : (d.install task now saved).killed = true) : (d.install task now saved).state = .stopping := by
  cases saved with
  | none => cases hk
  | some s =>
    have hs := h.killed s rfl hk
    simp only [install, TaskHandle.restored, hs]
    rfl

theorem Admits.copies (h : d.Admits saved) (task : τ) (now : Instant) :
    (d.install task now saved).record.CopiesFit := by
  have hc : (d.install task now saved).makeCopy = d.makeCopy := by cases saved <;> rfl
  intro copy id key spec d' factory hcopy
  cases h.fit with
  | intro _ _ hp hf =>
    rw [show (d.install task now saved).record.makeCopy = _ from hc] at hcopy
    exact fun he => ⟨hp copy id key spec d' factory hcopy he, hf copy id key spec d' factory hcopy he⟩

theorem Admits.unsaved (h : d.Admits saved) (task : τ) (now : Instant) (hp : d.pinned = true) :
    (d.install task now saved).savedPin = false := by
  rw [Bool.eq_false_iff]
  intro hs
  cases saved with
  | none => simp [h.fit.pinned hs] at hp
  | some s => simp [h.saved s rfl hs] at hp

end TaskDef

namespace Graph

variable {τ : Type} {g g' : Graph τ} {id x src dst : TaskId}

def kept (g : Graph τ) (x : TaskId) := (g.tasks.lookup x).map fun t => (t.savedPin, t.makeCopy)

theorem kept_modify {F : TaskHandle τ → TaskHandle τ} (ht : g'.tasks = g.tasks.modify id F)
    (hF : ∀ t, (F t).savedPin = t.savedPin ∧ (F t).makeCopy = t.makeCopy) (x : TaskId) : g'.kept x = g.kept x := by
  rw [kept, ht, Finmap.lookup_modify, kept]
  split
  · simp [hF, Function.comp_def]
  · rfl

theorem mem_of_kept (h : g'.kept x = g.kept x) (hx : x ∈ g.tasks) : x ∈ g'.tasks := by
  obtain ⟨t, ht⟩ := Finmap.mem_iff.mp hx
  rw [kept, kept, ht] at h
  obtain ⟨t', ht', -⟩ := Option.map_eq_some_iff.mp h
  exact Finmap.mem_iff.mpr ⟨t', ht'⟩

theorem kept_addEdge (g : Graph τ) (src dst x : TaskId) : (g.addEdge src dst).kept x = g.kept x := by
  unfold addEdge
  split
  · rfl
  · split
    · rfl
    · have htasks (g' : Graph τ) : (((g'.enqueue dst).enqueue src).note .touched).kept x = g'.kept x := by
        rw [kept, show (((g'.enqueue dst).enqueue src).note .touched).tasks = _ from tasks_enqueue _ _,
          tasks_enqueue, kept]
      rw [htasks]
      split
      · rfl
      · apply kept_modify
        · rfl
        · exact fun _ => ⟨rfl, rfl⟩

theorem kept_setTags (g : Graph τ) (id : TaskId) (tags : List String) (x : TaskId) :
    (g.setTags id tags).kept x = g.kept x := by
  unfold setTags
  cases g.tasks.lookup id with
  | none => rfl
  | some t =>
    apply kept_modify
    · rfl
    · exact fun _ => ⟨rfl, rfl⟩

theorem kept_scheduleAny (g : Graph τ) (id : TaskId) (timer : Option Duration) (x : TaskId) :
    (g.scheduleAny id timer).kept x = g.kept x := by
  cases timer with
  | none => rfl
  | some delay =>
    simp only [scheduleAny, scheduleStateTimeout]
    split
    · apply kept_modify
      · rfl
      · exact fun _ => ⟨rfl, rfl⟩
    · rfl

variable [Task τ] {I : Terms τ}

namespace Aside

theorem kept (h : Aside g g') (x : TaskId) : g'.kept x = g.kept x := by
  have hkept (g : Graph τ) : g.kept x = (g.records.tasks x).map fun r => (r.savedPin, r.makeCopy) := by
    rw [Graph.records, Option.map_map]
    rfl
  rw [hkept, hkept, h.records]

theorem scheduleAny (g : Graph τ) (id : TaskId) (timer : Option Duration) : Aside g (g.scheduleAny id timer) := by
  cases timer with
  | none => exact refl g
  | some delay => exact scheduleStateTimeout g id delay

theorem registerFolder (g : Graph τ) (d : FolderDef) : Aside g (g.registerFolder d).1 := by
  unfold Graph.registerFolder
  split
  · exact refl g
  · split
    · exact refl g
    · simp only
      refine trans ?_ (notifySubscribers _ _ _ _ _)
      exact of_eq rfl rfl

theorem removeFolder (g : Graph τ) (id : TaskId) : Aside g (g.removeFolder id).1 := by
  unfold Graph.removeFolder
  split
  · exact refl g
  · simp only
    refine trans ?_ (notifySubscribers _ _ _ _ _)
    exact of_eq rfl rfl

theorem setFolder (g : Graph τ) (id : TaskId) (settings : FolderSettings) : Aside g (g.setFolder id settings).1 := by
  unfold Graph.setFolder
  split
  · exact refl g
  · exact of_eq rfl rfl

theorem subscribe (g : Graph τ) (subscriber : TaskId) (key : TaskKey) (mode : SubMode) :
    Aside g (g.subscribe subscriber key mode) := by
  unfold Graph.subscribe
  have hns : Aside g { g with ns := g.ns.subscribe subscriber key mode } := of_eq rfl rfl
  refine hns.trans (foldl (fun g e => ?_) _ _)
  split
  · exact deliver _ _ _ _
  · exact refl g

theorem holdPlace (g : Graph τ) (r : Registration τ) : Aside g (g.holdPlace r) := by
  unfold Graph.holdPlace
  split
  · exact of_eq rfl rfl
  · exact refl g

theorem dropPlace (g : Graph τ) (r : Registration τ × Except RegisterError Unit) : Aside g (g.dropPlace r) := by
  unfold Graph.dropPlace
  split
  · exact of_eq rfl rfl
  · exact refl g

theorem tellMoved (space : TaskSpaceId) (g : Graph τ) (m : Moved) : Aside g (Graph.tellMoved space g m) := by
  unfold Graph.tellMoved
  simp only
  split
  · exact refl g
  · exact ((deliver _ _ _ _).trans (deliver _ _ _ _)).trans (deliver _ _ _ _)

end Aside

theorem kept_installTask (hx : x ≠ id) (d : TaskDef τ) (deps : List TaskId) (t : TaskHandle τ)
    (timer : Option Duration) : (g.installTask id d deps t timer).kept x = g.kept x := by
  have hins : (g.insertTask id t).kept x = g.kept x := by
    rw [kept, insertTask, Finmap.lookup_insert_of_ne _ hx, kept]
  unfold installTask
  simp only
  rw [(Aside.notifySubscribers _ _ _ _ _).kept, (Aside.enqueue _ _).kept]
  have hdeps : (deps.foldl (fun g dep => g.addEdge id dep) (((g.insertTask id t).scheduleAny id timer).setTags id
      d.tags)).kept x = g.kept x := by
    rw [Fold.foldl_keeps (p := fun g : Graph τ => g.kept x) (fun g dep => kept_addEdge g id dep x), kept_setTags,
      kept_scheduleAny, hins]
  split
  · rw [kept_addEdge, hdeps]
  · exact hdeps

theorem kept_registerTaskWithId (hx : x ∈ g.tasks) (id : TaskId) (d : TaskDef τ) (factory : TaskId → τ)
    (saved : Option Snap.Task) : (g.registerTaskWithId id d factory saved).1.kept x = g.kept x := by
  unfold registerTaskWithId
  split
  · rfl
  · rename_i hid
    rw [not_or] at hid
    split
    · rfl
    · split
      · rfl
      · rename_i hg'
        obtain ⟨ns, rfl⟩ := claimPath_ok hg'
        have hne : x ≠ id := ne_of_mem_of_not_mem hx hid.1
        exact kept_installTask (g := { g with ns }) hne d _ _ _

theorem kept_duplicate (hx : x ∈ g.tasks) (id : TaskId) (req : DuplicateRequest) :
    (g.duplicate id req).1.kept x = g.kept x := by
  unfold duplicate
  cases g.tasks.lookup id with
  | none => rfl
  | some t =>
    simp only
    split
    · simp only [allocId]
      split
      · rfl
      · exact kept_registerTaskWithId (g := { g with nextTaskId := g.nextTaskId + 1 }) hx _ _ _ _
    · rfl

namespace Writes

theorem setTags (g : Graph τ) (id : TaskId) (tags : List String) : Writes I .command g (g.setTags id tags) := by
  unfold Graph.setTags
  cases ht : g.tasks.lookup id with
  | none => exact refl g
  | some t =>
    simp only
    generalize (if t.defSpec.isSome = true ∧ t.origin.isNone = true then
      tags.filter (· ≠ dynamicTag) ++ [dynamicTag] else tags.filter (· ≠ dynamicTag)) = own
    have hr : (g.modifyTask id fun t => { t with tags := own }).records.tasks =
        (g.records.modify id fun r => { r with tags := own }).tasks := records_modify rfl fun _ _ => rfl
    refine written ?_ rfl fun _ => .tagged own (tasks_of_lookup ht)
    exact Records.ext rfl rfl hr rfl rfl rfl

theorem addEdges (hne : id ≠ initTaskId) (deps : List TaskId) (g : Graph τ) :
    Writes I .command g (deps.foldl (fun g dep => g.addEdge id dep) g) :=
  foldl (fun _ _ _ => addEdge (.of_ne hne)) g

theorem insertTask (hid : id ∉ g.tasks) (hne : id ≠ initTaskId) {t : TaskHandle τ} (htags : t.tags = [])
    (hfail : t.startFailed = true → t.state = .stopping ∧ t.ready.timeout.isSome = true)
    (hgave : t.stopTimedOut = true → t.state = .idle)
    (hfit : I.fit → (t.killed = true → t.state = .stopping) ∧ t.record.CopiesFit) :
    Writes I .command g (g.insertTask id t) := by
  have hnone : g.records.tasks id = none := by
    simp [records, Finmap.lookup_eq_none.mpr hid]
  have hr : (g.insertTask id t).records =
      { g.records with tasks := Function.update g.records.tasks id (some t.record), changed := true } := by
    refine Records.ext rfl rfl (funext fun x => ?_) rfl rfl rfl
    simp only [records, Graph.insertTask, Finmap.lookup_insert_ite]
    by_cases hx : x = id
    · subst hx
      simp
    · simp [hx]
  exact written hr rfl fun _ => .registered hnone hne htags hfail hgave hfit

theorem installTask {d : TaskDef τ} {saved : Option Snap.Task} (hid : id ∉ g.tasks) (hne : id ≠ initTaskId)
    (ha : I.fit → d.Admits saved) (task : τ) (deps : List TaskId) (timer : Option Duration) :
    Writes I .command g (g.installTask id d deps (d.install task g.now saved) timer) := by
  unfold Graph.installTask
  have hins : Writes I .command g (g.insertTask id (d.install task g.now saved)) :=
    insertTask hid hne (TaskDef.install_tags task g.now) (TaskDef.install_failed task g.now)
      (TaskDef.install_gaveUp task g.now) fun hfit =>
        ⟨(ha hfit).killed_stopping task g.now, (ha hfit).copies task g.now⟩
  have hkept : (g.insertTask id (d.install task g.now saved)).kept id =
      some ((d.install task g.now saved).savedPin, (d.install task g.now saved).makeCopy) := by
    simp [kept, Graph.insertTask]
  generalize g.insertTask id (d.install task g.now saved) = g₁ at hins hkept ⊢
  have hset : Writes I .command g ((g₁.scheduleAny id timer).setTags id d.tags) :=
    (hins.andThen (.scheduleAny g₁ id timer)).trans (setTags _ _ _)
  have hkept₂ : ((g₁.scheduleAny id timer).setTags id d.tags).kept id =
      some ((d.install task g.now saved).savedPin, (d.install task g.now saved).makeCopy) := by
    rw [kept_setTags, kept_scheduleAny, hkept]
  simp only
  generalize (g₁.scheduleAny id timer).setTags id d.tags = g₂ at hset hkept₂ ⊢
  have hdeps := hset.trans (addEdges hne deps g₂)
  have hkept₃ : (deps.foldl (fun g dep => g.addEdge id dep) g₂).kept id =
      some ((d.install task g.now saved).savedPin, (d.install task g.now saved).makeCopy) := by
    rw [Fold.foldl_keeps (p := fun g : Graph τ => g.kept id) (fun g dep => kept_addEdge g id dep id), hkept₂]
  generalize deps.foldl (fun g dep => g.addEdge id dep) g₂ = g₃ at hdeps hkept₃ ⊢
  refine andThen (andThen ?_ (.enqueue _ _)) (.notifySubscribers _ _ _ _ _)
  split
  · rename_i hpinned
    refine hdeps.trans (addEdge fun _ hfit t ht => ?_)
    rw [kept, ht] at hkept₃
    have ht' : t.savedPin = (d.install task g.now saved).savedPin := congrArg Prod.fst (Option.some.inj hkept₃)
    rw [ht']
    exact (ha hfit).unsaved task g.now hpinned
  · exact hdeps

theorem registerTaskWithId (g : Graph τ) (hne : id ≠ initTaskId) (d : TaskDef τ) (factory : TaskId → τ)
    (saved : Option Snap.Task) (ha : I.fit → d.Admits saved) :
    Writes I .command g (g.registerTaskWithId id d factory saved).1 := by
  unfold Graph.registerTaskWithId
  split
  · exact refl g
  · rename_i hid
    rw [not_or] at hid
    split
    · exact refl g
    · split
      · exact refl g
      · rename_i deps _ _ g' hg'
        obtain ⟨ns, rfl⟩ := claimPath_ok hg'
        have hns : Aside g { g with ns } := .of_eq rfl rfl
        exact (aside hns).trans (installTask (g := { g with ns }) hid.1 hne ha (factory id) deps _)

theorem setTaskLabel (g : Graph τ) (id : TaskId) (label : Option String) :
    Writes I .command g (g.setTaskLabel id label) := by
  unfold Graph.setTaskLabel
  cases g.tasks.lookup id with
  | none => exact refl g
  | some t =>
    simp only
    split
    · exact refl g
    · refine andThen ?_ (.notifyChanged _ _)
      exact changeTask rfl (f := fun t => { t with label }) (fun _ => rfl) rfl rfl fun _ => .labelled _ _ _

theorem setOrigin (g : Graph τ) (id : TaskId) (origin : Option Source) :
    Writes I .command g (g.setOrigin id origin) := by
  unfold Graph.setOrigin
  cases g.tasks.lookup id with
  | none => exact refl g
  | some t =>
    simp only
    split
    · exact refl g
    · have ha : Aside g (g.modifyTask id fun t => { t with origin }) := .modified rfl (fun _ => rfl) rfl rfl
      exact ((aside ha).trans (setTags _ _ _)).andThen (.notifyChanged _ _)

theorem redefine (g : Graph τ) (id : TaskId) (update : TaskUpdate) : Writes I .command g (g.redefine id update) := by
  unfold Graph.redefine
  refine changeTask rfl (f := fun t => { t with
    kind := if t.state = .idle then update.next.kind else t.kind
    ready := if t.state = .idle then update.next.ready else t.ready
    restart := update.restart, label := update.label }) (fun t => ?_) rfl rfl
    fun _ => .redefined _ _ (update.next.kind, update.next.ready) _ _
  by_cases hidle : t.state = .idle
  · simp [TaskHandle.record, TaskHandle.adopt, hidle]
  · simp [TaskHandle.record, hidle]

theorem setDeps (hne : id ≠ initTaskId) (deps : List TaskId) (g : Graph τ) :
    Writes I .command g (g.setDeps id deps) := by
  unfold Graph.setDeps
  have htick : Aside g { g with tick := g.tick + 1 } := .of_eq rfl rfl
  have hdrop : Writes I .command g (g.forEach id ((g.edges id).filter (· ∉ deps)) fun g dep => g.removeEdge id dep) :=
    (aside htick).trans (foldl (fun g dep _ => removeEdge g id dep) _)
  exact hdrop.trans (addEdges hne deps _)

theorem updateTask (g : Graph τ) (id : TaskId) (deps : List TaskId) (update : TaskUpdate) :
    Writes I .command g (g.updateTask id deps update) := by
  unfold Graph.updateTask
  split
  · rename_i hid
    intro ht hs
    have hne : id ≠ initTaskId := by
      rintro rfl
      obtain ⟨t, hl⟩ := Option.isSome_iff_exists.mp ((mem_tasks_lookup g _).mp hid)
      cases (tasks_of_lookup hl).symm.trans hs.init
    have hw : Writes I .command g (((((g.redefine id update).setTags id update.tags).setDeps id deps).notifyChanged
        id).enqueue id) :=
      (((redefine g id update).trans (setTags _ _ _)).trans (setDeps hne deps _)).andThen
        ((Aside.notifyChanged _ _).trans (.enqueue _ _))
    simp only
    split
    · exact (hw.trans (cmdRestart _ _)) ht hs
    · exact hw ht hs
  · exact refl g

theorem putMoved (hc : g.stateChanged = true) (m : Moved) : Writes I .command g (g.putMoved m) := by
  unfold Graph.putMoved
  split
  · exact modifyTask rfl (f := fun t => { t with path := some m.dst }) (fun _ => rfl) rfl rfl fun _ => .moved _ _ hc
  · exact aside (.of_eq rfl rfl)

theorem putAllMoved (moved : List Moved) (hc : moved = [] ∨ g.stateChanged = true) :
    Writes I .command g (moved.foldl Graph.putMoved g) := by
  induction moved generalizing g with
  | nil => exact refl g
  | cons m moved ih =>
    rcases hc with hc | hc
    · cases hc
    · have hput : (g.putMoved m).stateChanged = true := by
        unfold Graph.putMoved
        split <;> exact hc
      exact (putMoved hc m).trans (ih (.inr hput))

theorem moveTasks (g : Graph τ) (req : MoveTask) : Writes I .command g (g.moveTasks req).1 := by
  unfold Graph.moveTasks
  split
  · exact refl g
  · rename_i ns moved _
    simp only
    refine andThen ?_ (.foldl (Aside.tellMoved req.space) _ _)
    cases moved with
    | nil =>
      refine aside (.of_eq ?_ rfl)
      simp [records]
    | cons m moved =>
      have hflag : Writes I .command g { g with ns, stateChanged := g.stateChanged || !(m :: moved).isEmpty } := by
        refine written (s := { g.records with changed := true }) ?_ rfl fun _ => .flagged _
        simp [records]
      exact hflag.trans (putAllMoved _ (.inr (by simp)))

end Writes

end Graph

end Dekit
