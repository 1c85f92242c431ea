import Dekit.Edges
import Dekit.Unseen

namespace Dekit

variable {τ : Type}

def TaskHandle.asRun (t : TaskHandle τ) : NextRun := ⟨t.kind, t.ready, t.stopTimeout, t.spec⟩

def TaskHandle.nextRun (t : TaskHandle τ) : NextRun := t.next.getD t.asRun

theorem TaskHandle.asRun_begun (t : TaskHandle τ) (now : Instant) : (t.begun now).asRun = t.nextRun := by
  unfold nextRun begun
  cases t.next <;> rfl

theorem TaskHandle.nextRun_begun (t : TaskHandle τ) (now : Instant) : (t.begun now).nextRun = t.nextRun := by
  unfold nextRun begun
  cases t.next <;> rfl

def TaskUpdate.definition (update : TaskUpdate) : NextRun :=
  { update.next with spec := update.next.spec.map withoutDeps }

/-- The tags an update gives: `dynamic` is the runner's own. -/
def TaskUpdate.given (update : TaskUpdate) (origin : Option Source) : List String :=
  let tags := update.tags.filter (· ≠ dynamicTag)
  if update.next.spec.isSome ∧ origin.isNone then tags ++ [dynamicTag] else tags

/-- A task as an update has it, beside what it was before. -/
structure TaskHandle.Updated (update : TaskUpdate) (t₀ t : TaskHandle τ) : Prop where
  restart : t.restart = update.restart
  label : t.label = update.label
  tags : t.tags = update.given t₀.origin
  next : t.nextRun = update.definition

def TaskHandle.outline (t : TaskHandle τ) :
    NextRun × Option NextRun × RestartMode × Option String × List String × Option Source :=
  (t.asRun, t.next, t.restart, t.label, t.tags, t.origin)

/-- A task that other tasks' updates leave as it was, as far as its own goes by it. -/
structure TaskHandle.Awaits (t₀ t : TaskHandle τ) : Prop where
  idle : t.state = .idle ↔ t₀.state = .idle
  run : t₀.state ≠ .idle → t.asRun = t₀.asRun
  origin : t.origin = t₀.origin

namespace TaskHandle

variable {update : TaskUpdate} {t₀ t t' : TaskHandle τ}

theorem Awaits.refl (t : TaskHandle τ) : t.Awaits t := ⟨Iff.rfl, fun _ => rfl, rfl⟩

theorem Updated.outlined (h : t₀.Updated update t) (ho : t'.outline = t.outline) : t₀.Updated update t' := by
  simp only [outline, Prod.mk.injEq] at ho
  obtain ⟨hrun, hnext, hrestart, hlabel, htags, -⟩ := ho
  refine ⟨hrestart.trans h.restart, hlabel.trans h.label, htags.trans h.tags, ?_⟩
  rw [← h.next, nextRun, nextRun, hnext, hrun]

theorem Awaits.outlined (h : t₀.Awaits t) (ho : t'.outline = t.outline) (hi : t'.state = .idle ↔ t.state = .idle) :
    t₀.Awaits t' := by
  simp only [outline, Prod.mk.injEq] at ho
  exact ⟨hi.trans h.idle, fun hs => ho.1.trans (h.run hs), ho.2.2.2.2.2.trans h.origin⟩

def redefined (update : TaskUpdate) (t : TaskHandle τ) : TaskHandle τ :=
  let next := update.definition
  let t := if t.state = .idle then { t.adopt next with next := none } else { t with next := some next }
  { t with restart := update.restart, label := update.label }

theorem redefined_state (update : TaskUpdate) (t : TaskHandle τ) : (t.redefined update).state = t.state := by
  unfold redefined
  simp only
  split <;> rfl

theorem redefined_origin (update : TaskUpdate) (t : TaskHandle τ) : (t.redefined update).origin = t.origin := by
  unfold redefined
  simp only
  split <;> rfl

theorem redefined_defSpec (update : TaskUpdate) (t : TaskHandle τ) :
    (t.redefined update).defSpec.isSome = update.next.spec.isSome := by
  unfold redefined
  simp only
  split <;> exact Option.isSome_map

theorem Awaits.redefined (h : t₀.Awaits t) (update : TaskUpdate) :
    t₀.Awaits { t.redefined update with tags := update.given t.origin } ∧
      t₀.Updated update { t.redefined update with tags := update.given t.origin } := by
  have hrun (hs : t₀.state ≠ .idle) : (t.redefined update).asRun = t₀.asRun := by
    rw [← h.run hs]
    unfold TaskHandle.redefined
    simp only
    rw [if_neg (h.idle.not.mpr hs)]
    rfl
  refine ⟨⟨?_, hrun, ?_⟩, ⟨?_, ?_, ?_, ?_⟩⟩
  · exact (by rw [← h.idle, ← redefined_state update t] : (t.redefined update).state = .idle ↔ t₀.state = .idle)
  · exact (redefined_origin update t).trans h.origin
  · rfl
  · rfl
  · rw [h.origin]
  · unfold TaskHandle.redefined
    simp only
    split <;> rfl

def Alike (t t' : TaskHandle τ) : Prop :=
  t'.outline = t.outline ∧ (t.state = .idle → t'.state = .idle) ∧ (t.state.isActive = true → t'.state.isActive = true)

def Unmoved (t t' : TaskHandle τ) : Prop := t'.outline = t.outline ∧ t'.state = t.state

theorem bearing_alike : Bearing (Alike (τ := τ)) where
  refl _ := ⟨rfl, id, id⟩
  trans h h' := ⟨h'.1.trans h.1, h'.2.1 ∘ h.2.1, h'.2.2 ∘ h.2.2⟩
  handled _ _ := ⟨rfl, id, id⟩
  counted _ _ _ := ⟨rfl, id, id⟩
  timed _ _ := ⟨rfl, id, id⟩

theorem bearing_unmoved : Bearing (Unmoved (τ := τ)) where
  refl _ := ⟨rfl, rfl⟩
  trans h h' := ⟨h'.1.trans h.1, h'.2.trans h.2⟩
  handled _ _ := ⟨rfl, rfl⟩
  counted _ _ _ := ⟨rfl, rfl⟩
  timed _ _ := ⟨rfl, rfl⟩

end TaskHandle

namespace Graph

open TaskHandle

variable {g g' : Graph τ} {id x : TaskId} {D S : List TaskId} {o : Set TaskId}

theorem redefine_tasks (g : Graph τ) (id : TaskId) (update : TaskUpdate) :
    (g.redefine id update).tasks = g.tasks.modify id (·.redefined update) := rfl

theorem lookup_retagged {t : TaskHandle τ} (ht : g.tasks.lookup id = some t) (update : TaskUpdate) :
    ((g.redefine id update).setTags id update.tags).tasks.lookup id =
      some { t.redefined update with tags := update.given t.origin } := by
  have hr : (g.redefine id update).tasks.lookup id = some (t.redefined update) := by
    rw [redefine_tasks, Finmap.lookup_modify, if_pos rfl, ht]
    rfl
  unfold Graph.setTags
  rw [hr]
  simp only
  change (Finmap.modify _ id _).lookup id = _
  rw [Finmap.lookup_modify, if_pos rfl, hr, Option.map_some, redefined_defSpec, redefined_origin]
  rfl

theorem bears_retagged {R : TaskHandle τ → TaskHandle τ → Prop} (hR : Bearing R) (g : Graph τ) (id : TaskId)
    (update : TaskUpdate) : Bears R {id} g ((g.redefine id update).setTags id update.tags) := by
  have hoff (x : TaskId) (h : x ∉ ({id} : Set TaskId)) (hx : x = id) {p : Prop} : p := absurd hx h
  refine (Bears.modified hR (redefine_tasks g id update) fun h => hoff id h rfl).trans hR ?_
  unfold Graph.setTags
  split
  · exact .refl hR _
  · exact .modified hR rfl fun h => hoff id h rfl

variable [Task τ]

def rewritten (g : Graph τ) (id : TaskId) (deps : List TaskId) (update : TaskUpdate) : Graph τ :=
  ((((g.redefine id update).setTags id update.tags).setDeps id deps).notifyChanged id).enqueue id

theorem updateTask_eq (hid : id ∈ g.tasks) (deps : List TaskId) (update : TaskUpdate) : g.updateTask id deps update =
    if update.restartRunning ∧ ((g.rewritten id deps update).tasks.lookup id).any (·.state.isActive) then
      (g.rewritten id deps update).cmdRestart id
    else g.rewritten id deps update := by
  unfold Graph.updateTask
  rw [if_pos hid]
  rfl

theorem bears_relinked {R : TaskHandle τ → TaskHandle τ → Prop} (hR : Bearing R) (g : Graph τ) (id : TaskId)
    (deps : List TaskId) (update : TaskUpdate) :
    Bears R o ((g.redefine id update).setTags id update.tags) (g.rewritten id deps update) :=
  ((Bears.setDeps hR _ id deps).trans hR (.notifyChanged hR _ id)).trans hR (.enqueue hR _ id)

theorem alike_restarted (g : Graph τ) (id : TaskId) : Bears Alike ∅ g (g.cmdRestart id) := by
  have hpin : Bears Alike ∅ g (g.setPin id true) := .setPin bearing_alike g id true fun _ _ _ =>
    ⟨rfl, fun h => h, fun h => h⟩
  refine (hpin.trans bearing_alike (.demand bearing_alike _ id true ?_ ?_ ?_)).trans bearing_alike
    (.stopIfActive bearing_alike _ id ?_ ?_)
  · exact fun _ _ _ _ => ⟨rfl, fun h => h, fun h => h⟩
  · exact fun _ _ _ _ => ⟨rfl, fun h => h, fun h => h⟩
  · refine fun _ _ _ t hrev => ⟨rfl, fun _ => rfl, fun ha => ?_⟩
    cases hs : t.state with
    | starting | running | ready | stopping =>
      rw [hs] at hrev
      cases hrev
    | idle | backoff | done | exited =>
      rw [hs] at ha
      cases ha
  · refine fun _ t ha => ⟨rfl, fun hi => ?_, fun _ => rfl⟩
    rw [hi] at ha
    cases ha
  · exact fun _ _ => ⟨rfl, fun h => h, fun h => h⟩

theorem unmoved_restarted (hself : id ∈ (g.setPin id true).closure id) :
    Bears Unmoved {x | x ∈ (g.setPin id true).closure id} g (g.cmdRestart id) := by
  have hpin : Bears Unmoved {x | x ∈ (g.setPin id true).closure id} g (g.setPin id true) :=
    .setPin bearing_unmoved g id true fun _ _ _ => ⟨rfl, rfl⟩
  refine (hpin.trans bearing_unmoved (.demand bearing_unmoved _ id true ?_ ?_ ?_)).trans bearing_unmoved
    (.stopIfActive bearing_unmoved _ id ?_ ?_)
  · exact fun _ hx hoff => absurd hx hoff
  · exact fun _ hx hoff => absurd hx hoff
  · exact fun _ hx hoff => absurd hx hoff
  · exact fun hoff => absurd hself hoff
  · exact fun hoff => absurd hself hoff

omit [Task τ] in
theorem mem_retagged (g : Graph τ) (id : TaskId) (update : TaskUpdate) (x : TaskId) :
    x ∈ ((g.redefine id update).setTags id update.tags).tasks ↔ x ∈ g.tasks := by
  by_cases hx : x = id
  · subst hx
    cases ht : g.tasks.lookup x with
    | none =>
      have hnone : ((g.redefine x update).setTags x update.tags).tasks.lookup x = none := by
        have hr : (g.redefine x update).tasks.lookup x = none := by
          rw [redefine_tasks, Finmap.lookup_modify, if_pos rfl, ht]
          rfl
        unfold Graph.setTags
        rw [hr]
        exact hr
      rw [← Finmap.lookup_isSome, ← Finmap.lookup_isSome, hnone, ht]
    | some t => rw [← Finmap.lookup_isSome, ← Finmap.lookup_isSome, lookup_retagged ht, ht]; rfl
  · exact (bears_retagged bearing_any g id update).mem hx

theorem edges_rewritten (hid : id ∈ g.tasks) (hD : ∀ dep ∈ D, id ≠ dep ∧ dep ≠ initTaskId ∧ dep ∈ g.tasks)
    (update : TaskUpdate) : (g.rewritten id D update).edges = Function.update g.edges id D.toFinset := by
  have hedges : ((g.redefine id update).setTags id update.tags).edges = g.edges := by
    unfold Graph.setTags
    split <;> rfl
  unfold rewritten
  rw [edges_of_view (view_enqueue _ id)]
  change (Graph.notifyChanged _ id).edges = _
  rw [edges_of_view (Quiet.notifyChanged _ id).view]
  change (Graph.setDeps _ id D).edges = _
  rw [edges_setDeps ((mem_retagged g id update id).mpr hid) fun dep h =>
    ⟨(hD dep h).1, (hD dep h).2.1, (mem_retagged g id update dep).mpr (hD dep h).2.2⟩, hedges]

theorem edges_updateTask (hid : id ∈ g.tasks) (hD : ∀ dep ∈ D, id ≠ dep ∧ dep ≠ initTaskId ∧ dep ∈ g.tasks)
    (update : TaskUpdate) (hx : x ≠ initTaskId) :
    (g.updateTask id D update).edges x = if x = id then D.toFinset else g.edges x := by
  rw [← Function.update_apply g.edges id D.toFinset x, ← edges_rewritten hid hD update, updateTask_eq hid]
  split
  · unfold Graph.cmdRestart Graph.cmdStart
    rw [edges_stopIfActive, edges_demand, edges_setPin_of_ne _ _ _ hx]
  · rfl

omit [Task τ] in
theorem closure_apart (hs : g.view.Shape) (ha : g.view.Apart D S) (hD : ∀ d ∈ D, d ≠ initTaskId)
    (hid : g.edges id = D.toFinset)
    (hx : x ∈ S) (hne : x ≠ id) : x ∉ g.closure id := by
  rw [mem_closure_iff hs]
  intro hr
  rcases Relation.ReflTransGen.cases_head hr with he | ⟨d, hd, hr⟩
  · exact hne he.symm
  · have hd : d ∈ g.edges id := hd
    rw [hid, List.mem_toFinset] at hd
    exact ha d hd (hD d hd) x hx hr

theorem moved_updateTask (hs : Sound ∅ g) (hn : initTaskId < g.nextTaskId) (ha : g.view.Apart D S) (hid : id ∈ S)
    (hin : id ∈ g.tasks) (hD : ∀ dep ∈ D, id ≠ dep ∧ dep ≠ initTaskId ∧ dep ∈ g.tasks) (update : TaskUpdate) :
    (∀ x ∈ S, x ≠ id → Option.Rel Unmoved (g.tasks.lookup x) ((g.updateTask id D update).tasks.lookup x)) ∧
    ∀ t, g.tasks.lookup id = some t → ∃ t', (g.updateTask id D update).tasks.lookup id = some t' ∧
      t'.outline = { t.redefined update with tags := update.given t.origin }.outline ∧
      (t'.state = .idle ↔ t.state = .idle) := by
  obtain ⟨hops, hwithin⟩ := (Links.redefined hid update g).trans (Links.pinned _ id) hs hn ha
  have hsound : Sound ∅ ((g.rewritten id D update).setPin id true) := hs.ops hops
  have hapart : ((g.rewritten id D update).setPin id true).view.Apart D S := ha.within hs.shape hwithin
  have hedges : ((g.rewritten id D update).setPin id true).edges id = D.toFinset := by
    rw [edges_setPin_of_ne _ _ _ (hs.shape.ne_init (mem_keys.mpr hin)), edges_rewritten hin hD, Function.update_self]
  have hself : id ∈ ((g.rewritten id D update).setPin id true).closure id := (mem_closure_iff hsound.shape).mpr .refl
  have hbears : Bears Unmoved ∅ ((g.redefine id update).setTags id update.tags) (g.rewritten id D update) :=
    bears_relinked bearing_unmoved g id D update
  rw [updateTask_eq hin]
  refine ⟨fun x hx hne => ?_, fun t ht => ?_⟩
  · have hclosure : x ∉ {x | x ∈ ((g.rewritten id D update).setPin id true).closure id} :=
      closure_apart hsound.shape hapart (fun d hd => (hD d hd).2.1) hedges hx hne
    have hwritten : Bears Unmoved {id} g (g.rewritten id D update) :=
      (bears_retagged bearing_unmoved g id update).trans bearing_unmoved (hbears.mono (Set.empty_subset _))
    split
    · have hrest := unmoved_restarted hself
      have hall := (hwritten.mono (Set.singleton_subset_iff.mpr hself)).trans bearing_unmoved hrest
      exact hall x hclosure
    · exact hwritten x hne
  · obtain ⟨t₂, ht₂, ho, hst⟩ := hbears.some_to (Set.notMem_empty id) (lookup_retagged ht update)
    have hst : t₂.state = t.state := hst.trans (redefined_state update t)
    split
    · rename_i hre
      obtain ⟨t', ht', ho', hi, ha⟩ := (alike_restarted _ id).some_to (Set.notMem_empty id) ht₂
      rw [ht₂, Option.any_some] at hre
      refine ⟨t', ht', ho'.trans ho, ?_⟩
      have hact := ha hre.2
      rw [hst] at hre
      refine iff_of_false (fun he => ?_) fun he => ?_
      · rw [he] at hact
        cases hact
      · rw [he] at hre
        cases hre.2
    · exact ⟨t₂, ht₂, ho, by rw [hst]⟩

theorem mem_updateTask {deps : List TaskId} {update : TaskUpdate} : x ∈ (g.updateTask id deps update).tasks ↔
    x ∈ g.tasks := by
  by_cases hid : id ∈ g.tasks
  · rw [updateTask_eq hid, ← mem_retagged g id update x]
    have hmem := (bears_relinked (o := ∅) bearing_any g id deps update).mem (Set.notMem_empty x)
    split
    · exact ((alike_restarted (g.rewritten id deps update) id).mem (Set.notMem_empty x)).trans hmem
    · exact hmem
  · unfold Graph.updateTask
    rw [if_neg hid]

/-- How far the updates have come: those of `done` are made, and the other tasks wait as they were. -/
structure Updates (g₀ : Graph τ) (update : TaskUpdate) (D S done : List TaskId) (g : Graph τ) : Prop where
  sound : Sound ∅ g
  next : initTaskId < g.nextTaskId
  apart : g.view.Apart D S
  mem : ∀ x, x ∈ g.tasks ↔ x ∈ g₀.tasks
  waits : ∀ x ∈ S, ∀ t, g.tasks.lookup x = some t →
    ∃ t₀, g₀.tasks.lookup x = some t₀ ∧ t₀.Awaits t ∧ (x ∈ done → t₀.Updated update t)
  edges : ∀ x ∈ done, g.edges x = D.toFinset

omit [Task τ] in
theorem Updates.start (hv : Valid g) (ha : g.view.Apart D S) (update : TaskUpdate) : Updates g update D S [] g :=
  ⟨hv.sound, hv.next, ha, fun _ => Iff.rfl, fun _ _ t ht => ⟨t, ht, .refl t, fun h => absurd h List.not_mem_nil⟩,
    fun _ h => absurd h List.not_mem_nil⟩

theorem Updates.step {g₀ : Graph τ} {update : TaskUpdate} {done : List TaskId} (h : Updates g₀ update D S done g)
    (hS : ∀ x ∈ S, x ∈ g₀.tasks) (hD : ∀ d ∈ D, d ∈ g₀.tasks) (hdone : ∀ x ∈ done, x ∈ S) (hid : id ∈ S) :
    Updates g₀ update D S (id :: done) (g.updateTask id D update) := by
  have hne (x : TaskId) (hx : x ∈ g₀.tasks) : x ≠ initTaskId := h.sound.shape.ne_init (mem_keys.mpr ((h.mem x).mpr hx))
  have hDg (dep : TaskId) (hdep : dep ∈ D) : id ≠ dep ∧ dep ≠ initTaskId ∧ dep ∈ g.tasks := by
    refine ⟨?_, hne dep (hD dep hdep), (h.mem dep).mpr (hD dep hdep)⟩
    rintro rfl
    exact h.apart id hdep (hne id (hS id hid)) id hid .refl
  have hin : id ∈ g.tasks := (h.mem id).mpr (hS id hid)
  have hedges (x : TaskId) (hx : x ∈ S) :
    (g.updateTask id D update).edges x = if x = id then D.toFinset else g.edges x :=
    edges_updateTask hin hDg update (hne x (hS x hx))
  obtain ⟨hops, hwithin⟩ := Links.updateTask (D := D) hid update g h.sound h.next h.apart
  obtain ⟨hother, hown⟩ := moved_updateTask h.sound h.next h.apart hid hin hDg update
  refine ⟨h.sound.ops hops, hops.next h.next, h.apart.within h.sound.shape hwithin, ?_, ?_, ?_⟩
  · exact fun x => mem_updateTask.trans (h.mem x)
  · intro x hx t' ht'
    by_cases hxid : x = id
    · subst hxid
      obtain ⟨t, ht⟩ := Option.isSome_iff_exists.mp (Finmap.lookup_isSome.mpr hin)
      obtain ⟨t'', ht'', ho, hi⟩ := hown t ht
      obtain rfl := Option.some.inj (ht'.symm.trans ht'')
      obtain ⟨t₀, ht₀, haw, -⟩ := h.waits x hx t ht
      obtain ⟨haw, hup⟩ := haw.redefined update
      refine ⟨t₀, ht₀, haw.outlined ho ?_, fun _ => hup.outlined ho⟩
      rw [hi]
      exact (by rw [← redefined_state update t] : t.state = .idle ↔ (t.redefined update).state = .idle)
    · obtain ⟨t, ht, ho, hst⟩ : ∃ t, g.tasks.lookup x = some t ∧ t.Unmoved t' := by
        have hr := hother x hx hxid
        rw [ht'] at hr
        cases ht : g.tasks.lookup x with
        | none =>
          rw [ht] at hr
          cases hr
        | some t =>
          rw [ht] at hr
          cases hr with
          | some hr => exact ⟨t, rfl, hr⟩
      obtain ⟨t₀, ht₀, haw, hup⟩ := h.waits x hx t ht
      refine ⟨t₀, ht₀, haw.outlined ho (by rw [hst]), fun hmem => ?_⟩
      exact (hup ((List.mem_cons.mp hmem).resolve_left hxid)).outlined ho
  · intro x hx
    rcases List.mem_cons.mp hx with rfl | hx
    · rw [hedges x hid, if_pos rfl]
    · rw [hedges x (hdone x hx)]
      split
      · rfl
      · exact h.edges x hx

theorem Updates.run {g₀ : Graph τ} {update : TaskUpdate} (hS : ∀ x ∈ S, x ∈ g₀.tasks) (hD : ∀ d ∈ D, d ∈ g₀.tasks)
    {l done : List TaskId} (hl : ∀ x ∈ l, x ∈ S) (hdone : ∀ x ∈ done, x ∈ S) (h : Updates g₀ update D S done g) :
    Updates g₀ update D S (l.reverse ++ done) (l.foldl (fun g id => g.updateTask id D update) g) := by
  induction l generalizing g done with
  | nil => exact h
  | cons id l ih =>
    have hid := hl id List.mem_cons_self
    rw [List.reverse_cons, List.append_assoc]
    refine ih (fun x hx => hl x (List.mem_cons_of_mem _ hx)) ?_ (h.step hS hD hdone hid)
    intro x hx
    rcases List.mem_cons.mp hx with rfl | hx
    · exact hid
    · exact hdone x hx

theorem mem_of_matching {I : Terms τ} {pending : TaskSpaceId → List TaskPath} (ht : g.Listed pending)
    (hs : g.records.Sane I) {selector : TaskSelector} (h : x ∈ g.matchingIds selector) : x ∈ g.tasks := by
  have hindex (tag : String) (x : TaskId) : x ∈ g.tags tag ↔ ∃ t, g.tasks.lookup x = some t ∧ tag ∈ t.tags := by
    refine (hs.index tag x).trans ⟨?_, ?_⟩
    · rintro ⟨r, hr, htag⟩
      obtain ⟨t, hl, rfl⟩ := tasks_some hr
      exact ⟨t, hl, htag⟩
    · rintro ⟨t, hl, htag⟩
      exact ⟨t.record, tasks_of_lookup hl, htag⟩
  obtain ⟨o, ho, -⟩ := (mem_matchingIds ht hindex selector x).mp h
  obtain ⟨t, hl, -⟩ := Option.map_eq_some_iff.mp ho
  exact Finmap.mem_of_lookup_eq_some hl

omit [Task τ] in
theorem mem_of_resolved (hm : ∀ selector x, x ∈ g.matchingIds selector → x ∈ g.tasks) {selectors : List TaskSelector}
    {deps : List TaskId} (h : g.resolveDeps selectors = .ok deps) : ∀ d ∈ deps, d ∈ g.tasks := by
  unfold resolveDeps at h
  have hacc : ∀ d ∈ ([] : List TaskId), d ∈ g.tasks := fun d hd => absurd hd List.not_mem_nil
  generalize ([] : List TaskId) = acc at h hacc
  induction selectors generalizing acc with
  | nil =>
    obtain rfl := Except.ok.inj h
    exact hacc
  | cons selector selectors ih =>
    rw [List.foldlM_cons] at h
    simp only at h
    by_cases hempty : (g.matchingIds selector).isEmpty = true
    · rw [if_pos hempty] at h
      cases h
    · rw [if_neg hempty] at h
      refine ih _ h ?_
      refine Fold.foldl_invariant (P := fun acc => ∀ d ∈ acc, d ∈ g.tasks) (fun acc ha y hy d hd => ?_) hacc
      unfold addNew at hd
      split at hd
      · exact ha d hd
      · rcases List.mem_append.mp hd with hd | hd
        · exact ha d hd
        · rw [List.mem_singleton.mp hd]
          exact hm selector y hy

theorem updates_all (hv : Valid g) (hm : ∀ selector x, x ∈ g.matchingIds selector → x ∈ g.tasks) {sender : TaskId}
    {selector : TaskSelector} {update : TaskUpdate} {resolved : List (TaskId × List TaskId)}
    (h : g.resolveUpdates sender selector update = .ok resolved) :
    ∃ D, (∀ r ∈ resolved, g.resolveDeps update.deps = .ok D) ∧
      ∀ x, x ∈ g.mutableMatchingIds sender selector → ∃ t₀ t, g.tasks.lookup x = some t₀ ∧
        (resolved.foldl (fun g r => g.updateTask r.1 r.2 update) g).tasks.lookup x = some t ∧ t₀.Awaits t ∧
        t₀.Updated update t ∧ (resolved.foldl (fun g r => g.updateTask r.1 r.2 update) g).edges x = D.toFinset := by
  obtain ⟨D, hD, hap⟩ := resolveUpdates_apart hv.sound.shape h
  have hids := resolveUpdates_ids hv.sound.shape h
  have hfold : resolved.foldl (fun g r => g.updateTask r.1 r.2 update) g =
      (resolved.map Prod.fst).foldl (fun g id => g.updateTask id D update) g := by
    rw [List.foldl_map]
    exact List.foldl_ext _ _ _ fun g r hr => by rw [(hD r hr).2]
  have htasks (x : TaskId) (hx : x ∈ resolved.map Prod.fst) : x ∈ g.tasks := mem_of_matched (hids ▸ hx)
  refine ⟨D, fun r hr => (hD r hr).1, fun x hx => ?_⟩
  rw [← hids] at hx
  obtain ⟨r, hr, -⟩ := List.mem_map.mp hx
  have hrun := (Updates.start hv hap update).run htasks (mem_of_resolved hm (hD r hr).1) (fun _ h => h)
    fun _ h => absurd h List.not_mem_nil
  rw [List.append_nil, ← hfold] at hrun
  obtain ⟨t, ht⟩ := Option.isSome_iff_exists.mp (Finmap.lookup_isSome.mpr ((hrun.mem x).mpr (htasks x hx)))
  obtain ⟨t₀, ht₀, haw, hup⟩ := hrun.waits x hx t ht
  exact ⟨t₀, t, ht₀, ht, haw, hup (List.mem_reverse.mpr hx), hrun.edges x (List.mem_reverse.mpr hx)⟩

omit [Task τ] in
theorem lasting_updated : Bearing.Lasting fun t t' : TaskHandle τ =>
    t'.restart = t.restart ∧ t'.label = t.label ∧ t'.tags = t.tags ∧ t'.nextRun = t.nextRun where
  refl _ := ⟨rfl, rfl, rfl, rfl⟩
  trans h h' := ⟨h'.1.trans h.1, h'.2.1.trans h.2.1, h'.2.2.1.trans h.2.2.1, h'.2.2.2.trans h.2.2.2⟩
  handled _ _ := ⟨rfl, rfl, rfl, rfl⟩
  counted _ _ _ := ⟨rfl, rfl, rfl, rfl⟩
  timed _ _ := ⟨rfl, rfl, rfl, rfl⟩
  cached _ _ _ := ⟨rfl, rfl, rfl, rfl⟩
  counts _ _ := ⟨rfl, rfl, rfl, rfl⟩
  entered _ _ := ⟨rfl, rfl, rfl, rfl⟩
  failed _ _ := ⟨rfl, rfl, rfl, rfl⟩
  begun t now := by
    refine ⟨?_, ?_, ?_, t.nextRun_begun now⟩ <;> unfold TaskHandle.begun <;> cases t.next <;> rfl

end Graph

open Dekit.Graph

namespace Kernel

variable [Task τ] {k : Kernel τ}

/-- An update that is refused changes nothing. One that is accepted gives every task it matches its deps, its
restart mode, its tags, but for the runner's own `dynamic`, its label, and the definition its next run starts from,
and leaves the run under way as it started; and so it is when the kernel has settled. -/
theorem update_complete (h : Reachable k) (sender : TaskId) (selector : TaskSelector) (update : TaskUpdate)
    (reply : ReplyId) : ∃ g result,
    k.graph.perform sender (.update selector update reply) = g.answer reply (.changed result) ∧
    (∀ err, result = .error err → g = k.graph) ∧
    ∀ n, result = .ok n → n = (k.graph.mutableMatchingIds sender selector).length ∧
      ∀ id ∈ k.graph.mutableMatchingIds sender selector, ∃ deps t₀ t t',
        k.graph.resolveDeps update.deps = .ok deps ∧ k.graph.tasks.lookup id = some t₀ ∧
        g.tasks.lookup id = some t ∧ g.edges id = deps.toFinset ∧ t₀.Updated update t ∧
        (∀ now, (t.begun now).asRun = update.definition) ∧ (t₀.state ≠ .idle → t.asRun = t₀.asRun) ∧
        (g.answer reply (.changed result)).settle.tasks.lookup id = some t' ∧
        (g.answer reply (.changed result)).settle.edges id = deps.toFinset ∧ t₀.Updated update t' ∧
        ∀ now, (t'.begun now).asRun = update.definition := by
  obtain ⟨htold, hsane⟩ := h.sane
  have hmatch (selector : TaskSelector) (x : TaskId) (hx : x ∈ k.graph.matchingIds selector) : x ∈ k.graph.tasks :=
    mem_of_matching h.tidy hsane hx
  refine ⟨(k.graph.updateCommand sender selector update).1,
    (k.graph.updateCommand sender selector update).2, rfl, ?_, ?_⟩
  · intro err he
    unfold updateCommand at he ⊢
    split at he
    · rfl
    · cases he
  · intro n hn
    obtain ⟨htold', hedits⟩ := Writes.updateCommand k.graph sender selector update htold hsane
    have hanswer : Aside (k.graph.updateCommand sender selector update).1
        ((k.graph.updateCommand sender selector update).1.answer reply
          (.changed (k.graph.updateCommand sender selector update).2)) := .of_eq rfl rfl
    have hsettle := Writes.settle (I := anyTerms τ) (c := .itself)
      ((k.graph.updateCommand sender selector update).1.answer reply (.changed (k.graph.updateCommand sender selector update).2))
      (htold'.aside hanswer) (by rw [hanswer.records]; exact hedits.sane hsane)
    have hdeps := hsettle.2.deps
    have hlast := Bears.settle (o := ∅) lasting_updated
      ((k.graph.updateCommand sender selector update).1.answer reply (.changed (k.graph.updateCommand sender selector update).2))
    unfold updateCommand at hn hdeps hlast ⊢
    cases hres : k.graph.resolveUpdates sender selector update with
    | error err =>
      rw [hres] at hn
      cases hn
    | ok resolved =>
      rw [hres] at hn hdeps hlast
      obtain rfl : resolved.length = n := Except.ok.inj hn
      obtain ⟨D, hD, hall⟩ := updates_all (valid_of_reachable h) hmatch hres
      have hids := resolveUpdates_ids (valid_of_reachable h).sound.shape hres
      refine ⟨by rw [← hids, List.length_map], fun id hid => ?_⟩
      obtain ⟨t₀, t, ht₀, ht, haw, hup, hedges⟩ := hall id hid
      obtain ⟨t', ht', hrestart, hlabel, htags, hnext⟩ := hlast.some_to (Set.notMem_empty id) ht
      have hup' : t₀.Updated update t' :=
        ⟨hrestart.trans hup.restart, hlabel.trans hup.label, htags.trans hup.tags, hnext.trans hup.next⟩
      obtain ⟨r, hr, -⟩ := List.mem_map.mp (hids ▸ hid)
      refine ⟨D, t₀, t, t', hD r hr, ht₀, ht, hedges, hup, fun now => (t.asRun_begun now).trans hup.next, haw.run,
        ht', ?_,
        hup', fun now => (t'.asRun_begun now).trans hup'.next⟩
      rw [← hedges]
      exact congrFun hdeps id

def defined : TaskRegistration ChannelTask where
  taskId := 1
  allocated := Nat.one_ne_zero
  def' := { pinned := true, spec := some ⟨[]⟩ }
  factory _ := ⟨[], false⟩

def definedKernel : Kernel ChannelTask := ((Kernel.new .sorted 0).registerTaskRegistration defined).1.afterDispatch

theorem reachable_defined : Reachable definedKernel := .start (.install defined (.new .sorted 0))

def jobUpdate : TaskUpdate where
  next := ⟨.job, .immediate, 5, some ⟨[]⟩⟩
  restart := .always
  deps := []
  tags := []
  label := none
  was := none
  restartRunning := false

/-- Whether the last answer accepts an update of `n` tasks. -/
def accepted (n : ℕ) (g : Graph ChannelTask) : Bool :=
  g.answers.getLast?.any fun a => match a.2 with
    | .changed (.ok m) => m == n
    | _ => false

theorem update_complete_defined : ∃ t,
    ((definedKernel.graph.perform 0 (.update (.id 1) jobUpdate 7)).settle).tasks.lookup 1 = some t ∧
    ∀ now, (t.begun now).asRun = jobUpdate.definition := by
  obtain ⟨g, result, hp, -, hok⟩ := update_complete reachable_defined 0 (.id 1) jobUpdate 7
  have hacc : accepted 1 (definedKernel.graph.perform 0 (.update (.id 1) jobUpdate 7)) = true := by decide
  rw [hp] at hacc
  unfold accepted answer at hacc
  rw [List.getLast?_concat] at hacc
  cases result with
  | error err => cases hacc
  | ok n =>
    obtain ⟨-, hall⟩ := hok n rfl
    obtain ⟨deps, t₀, t, t', -, -, -, -, -, -, -, ht', -, -, hrun⟩ := hall 1 (by decide)
    rw [hp]
    exact ⟨t', ht', hrun⟩

/-- The runner's own tag is there beside the tags of the update. -/
theorem dynamic_kept :
    Reachable definedKernel ∧ accepted 1 (definedKernel.graph.perform 0 (.update (.id 1) jobUpdate 7)) = true ∧
    1 ∈ definedKernel.graph.mutableMatchingIds 0 (.id 1) ∧ jobUpdate.tags = [] ∧
    ((definedKernel.graph.perform 0 (.update (.id 1) jobUpdate 7)).tasks.lookup 1).map (·.tags) = some ["dynamic"] :=
  ⟨reachable_defined, by decide, by decide, rfl, by decide⟩

end Kernel

end Dekit
