import Dekit.Edges
import Dekit.Standstill

namespace Dekit

variable {τ : Type}

/-- A verb that starts what it is given. -/
def Verb.starts : Verb → Bool
  | .up | .start | .restart | .forceRestart => true
  | .stop | .kill | .veto => false

/-- A verb that runs again what is done. -/
def Verb.reruns : Verb → Bool
  | .start | .restart | .forceRestart => true
  | .up | .stop | .kill | .veto => false

def Verb.stops : Verb → Bool
  | .stop | .kill | .restart | .forceRestart => true
  | .up | .start | .veto => false

namespace TaskHandle

def Eased (t t' : TaskHandle τ) : Prop :=
  (t.vetoed = false → t'.vetoed = false) ∧ (t.savedPin = false → t'.savedPin = false)

def StaysDone (t t' : TaskHandle τ) : Prop := ∀ info, t.state = .done info → t'.state = .done info

def StaysRunning (t t' : TaskHandle τ) : Prop := t.state.isRunning = true → t'.state.isRunning = true

theorem bearing_eased : Bearing (Eased (τ := τ)) where
  refl _ := ⟨id, id⟩
  trans h h' := ⟨h'.1 ∘ h.1, h'.2 ∘ h.2⟩
  handled _ _ := ⟨id, id⟩
  counted _ _ _ := ⟨id, id⟩
  timed _ _ := ⟨id, id⟩

theorem bearing_staysDone : Bearing (StaysDone (τ := τ)) where
  refl _ _ h := h
  trans h h' info hs := h' info (h info hs)
  handled _ _ _ h := h
  counted _ _ _ _ h := h
  timed _ _ _ h := h

theorem bearing_staysRunning : Bearing (StaysRunning (τ := τ)) where
  refl _ h := h
  trans h h' hs := h' (h hs)
  handled _ _ h := h
  counted _ _ _ h := h
  timed _ _ h := h

end TaskHandle

namespace Graph

open TaskHandle

variable [Task τ] {g g' : Graph τ} {id x : TaskId} {o : Set TaskId} {verb : Verb}
  {R : TaskHandle τ → TaskHandle τ → Prop}

theorem bears_actOne (hR : Bearing R) (verb : Verb) (g : Graph τ) (id : TaskId)
    (hpin : ∀ t, R t { t with savedPin := false }) (hfail : ∀ t, R t { t with startFailed := false })
    (hspare : ∀ t, R t { t with vetoed := false })
    (hveto : id ∉ o → verb = .veto → ∀ t, R t { t with vetoed := true })
    (hkill : ∀ t, R t { t with killed := true, epoch := t.epoch + 1 })
    (hrevive : ∀ x, x ∉ o → ∀ t, revives verb.reruns id x t.state = true → R t (t.setState .idle))
    (hstop : id ∉ o → ∀ t, t.state.isRunning = true → R t (t.setState .stopping)) :
    Bears R o g (actOne verb g id) := by
  have hset (g : Graph τ) (pinned : Bool) : Bears R o g (g.setPin id pinned) :=
    .setPin hR g id pinned fun _ t _ => hpin t
  have hdemand (hv : verb.starts = true) (g : Graph τ) (rerunDone : Bool) (hr : rerunDone = verb.reruns) :
      Bears R o g (g.demand id rerunDone) := by
    subst hr
    exact .demand hR g id _ (fun _ _ _ => hfail) (fun _ _ _ => hspare) fun x _ hx => hrevive x hx
  have hstops (g : Graph τ) : Bears R o g (g.stopIfActive id) := .stopIfActive hR g id hstop fun _ => hfail
  have hkills (g : Graph τ) : Bears R o g (g.cmdKill id) := .cmdKill hR g id (fun _ => hpin) hstop fun _ => hkill
  cases verb with
  | up => exact (hset g true).trans hR (hdemand rfl _ false rfl)
  | start => exact (hset g true).trans hR (hdemand rfl _ true rfl)
  | restart => exact ((hset g true).trans hR (hdemand rfl _ true rfl)).trans hR (hstops _)
  | forceRestart => exact (hkills g).trans hR ((hset _ true).trans hR (hdemand rfl _ true rfl))
  | stop => exact (hset g false).trans hR (hstops _)
  | kill => exact hkills g
  | veto => exact (hset g false).trans hR (.setVetoed hR _ id true fun hid t _ => hveto hid rfl t)

theorem eased_actOne (hv : verb.starts = true) (g : Graph τ) (id : TaskId) : Bears Eased ∅ g (actOne verb g id) := by
  have hsame {f : TaskHandle τ → TaskHandle τ} (hveto : ∀ t, (f t).vetoed = t.vetoed ∨ (f t).vetoed = false)
      (hpin : ∀ t, (f t).savedPin = t.savedPin ∨ (f t).savedPin = false) (t : TaskHandle τ) : Eased t (f t) := by
    refine ⟨fun h => ?_, fun h => ?_⟩
    · exact (hveto t).elim (fun he => he.trans h) fun he => he
    · exact (hpin t).elim (fun he => he.trans h) fun he => he
  refine bears_actOne bearing_eased verb g id ?_ ?_ ?_ ?_ ?_ ?_ ?_
  · exact hsame (f := fun t => { t with savedPin := false }) (fun _ => .inl rfl) fun _ => .inr rfl
  · exact hsame (f := fun t => { t with startFailed := false }) (fun _ => .inl rfl) fun _ => .inl rfl
  · exact hsame (f := fun t => { t with vetoed := false }) (fun _ => .inr rfl) fun _ => .inl rfl
  · rintro _ rfl
    cases hv
  · exact hsame (f := fun t => { t with killed := true, epoch := t.epoch + 1 }) (fun _ => .inl rfl) fun _ => .inl rfl
  · exact fun _ _ t _ => hsame (f := fun t => t.setState .idle) (fun _ => .inl rfl) (fun _ => .inl rfl) t
  · exact fun _ t _ => hsame (f := fun t => t.setState .stopping) (fun _ => .inl rfl) (fun _ => .inl rfl) t

/-- What is done stays done, but for what a verb runs again. -/
theorem staysDone_actOne (g : Graph τ) (h : verb.reruns = true → id ∈ o) : Bears StaysDone o g (actOne verb g id) := by
  refine bears_actOne bearing_staysDone verb g id (fun _ _ hs => hs) (fun _ _ hs => hs) (fun _ _ hs => hs)
    (fun _ _ _ _ hs => hs) (fun _ _ hs => hs) (fun x hx t hr info hs => ?_) fun _ t hr info hs => ?_
  · rw [hs] at hr
    obtain ⟨hrerun, hxid⟩ := Bool.and_eq_true_iff.mp hr
    exact absurd (beq_iff_eq.mp hxid ▸ h hrerun) hx
  · rw [hs] at hr
    cases hr

omit [Task τ] in
theorem staysRunning_revived {rerunDone : Bool} {target : TaskId} {t : TaskHandle τ}
    (hr : revives rerunDone target x t.state = true) : StaysRunning t (t.setState .idle) := by
  intro hs
  cases ht : t.state with
  | starting | running | ready | stopping =>
    rw [ht] at hr
    cases hr
  | idle | backoff | done | exited =>
    rw [ht] at hs
    cases hs

/-- What runs goes on running, but for the task a verb is given. -/
theorem staysRunning_actOne (verb : Verb) (g : Graph τ) (id : TaskId) :
    Bears StaysRunning {id} g (actOne verb g id) := by
  refine bears_actOne bearing_staysRunning verb g id (fun _ hs => hs) (fun _ hs => hs) (fun _ hs => hs)
    (fun _ _ _ hs => hs) (fun _ hs => hs) (fun x _ t hr => staysRunning_revived hr) fun hid => absurd rfl hid

theorem edges_actOne_of_ne (verb : Verb) (g : Graph τ) (id : TaskId) (hx : x ≠ initTaskId) :
    (actOne verb g id).edges x = g.edges x := by
  have hpin (g : Graph τ) (pinned : Bool) :
    (g.setPin id pinned).edges x = g.edges x := edges_setPin_of_ne g id pinned hx
  have hveto (g : Graph τ) : (g.setVetoed id true).edges = g.edges := by
    rw [edges_of_view (view_setVetoed g id true), View.deps_setVetoed]
    rfl
  cases verb with
  | up => rw [actOne, cmdUp, edges_demand, hpin]
  | start => rw [actOne, cmdStart, edges_demand, hpin]
  | restart => rw [actOne, cmdRestart, edges_stopIfActive, cmdStart, edges_demand, hpin]
  | forceRestart => rw [actOne, cmdStart, edges_demand, hpin, edges_cmdKill, hpin]
  | stop => rw [actOne, cmdStop, edges_stopIfActive, hpin]
  | kill => rw [actOne, edges_cmdKill, hpin]
  | veto => rw [actOne, cmdVeto, hveto, hpin]

theorem pins_actOne (hv : verb.starts = true) (hid : id ∈ g.tasks) (hne : id ≠ initTaskId) :
    (actOne verb g id).edges initTaskId = insert id (g.edges initTaskId) := by
  cases verb with
  | up => rw [actOne, cmdUp, edges_demand, edges_pinned hid hne]
  | start => rw [actOne, cmdStart, edges_demand, edges_pinned hid hne]
  | restart => rw [actOne, cmdRestart, edges_stopIfActive, cmdStart, edges_demand, edges_pinned hid hne]
  | forceRestart =>
    have hmem : id ∈ (g.cmdKill id).tasks :=
      ((Bears.cmdKill (o := ∅) bearing_any g id (fun _ _ => trivial) (fun _ _ _ => trivial) fun _ _ => trivial).mem
        (Set.notMem_empty id)).mpr hid
    rw [actOne, cmdStart, edges_demand, edges_pinned hmem hne, edges_cmdKill, edges_unpinned]
    ext x
    simp only [Finset.mem_insert, Finset.mem_erase]
    tauto
  | stop | kill | veto => cases hv

namespace Unstarted

omit [Task τ] in
theorem setPin (g : Graph τ) (id : TaskId) (pinned : Bool) : Unstarted x g (g.setPin id pinned) := by
  unfold Graph.setPin
  have hsaved : Unstarted x g (g.modifyTask id fun t => { t with savedPin := false }) := of_log rfl
  simp only
  split
  · exact hsaved.trans (noting (Counting.addEdge _ _ _))
  · exact hsaved.trans (noting (Counting.removeEdge _ _ _))

theorem demand (g : Graph τ) (id : TaskId) (rerunDone : Bool) : Unstarted x g (g.demand id rerunDone) := by
  refine Fold.foldl_rel refl (fun _ _ _ => trans) (fun g y _ => ?_) g
  unfold Graph.demandOne
  cases g.tasks.lookup y with
  | none => exact refl g
  | some t =>
    simp only
    have hexcused : Unstarted x g (if t.startFailed then
        { g.modifyTask y (fun t => { t with startFailed := false }) with stateChanged := true } else g) := by
      split
      · exact of_log rfl
      · exact refl g
    have hspared := hexcused.trans (noting (Counting.setVetoed _ y false))
    split
    · exact hspared.trans (setState _ _ _)
    · exact hspared

theorem stopIfActive (g : Graph τ) (id : TaskId) : Unstarted x g (g.stopIfActive id) := by
  unfold Graph.stopIfActive
  split
  · exact refl g
  · split
    iterate 3 exact stopTask g id false
    exact refl g

theorem cmdKill (g : Graph τ) (id : TaskId) : Unstarted x g (g.cmdKill id) := by
  unfold Graph.cmdKill
  refine (setPin g id false).trans ?_
  generalize g.setPin id false = g
  simp only
  split
  · exact refl g
  · split
    iterate 3 exact (setState g id .stopping).trans (hardKill _ id)
    · exact hardKill g id
    · exact refl g

theorem actOne (verb : Verb) (g : Graph τ) (id : TaskId) : Unstarted x g (actOne verb g id) := by
  cases verb with
  | up => exact (setPin g id true).trans (demand _ id false)
  | start => exact (setPin g id true).trans (demand _ id true)
  | restart => exact ((setPin g id true).trans (demand _ id true)).trans (stopIfActive _ id)
  | forceRestart => exact (cmdKill g id).trans ((setPin _ id true).trans (demand _ id true))
  | stop => exact (setPin g id false).trans (stopIfActive _ id)
  | kill => exact cmdKill g id
  | veto => exact (setPin g id false).trans (noting (Counting.setVetoed _ id true))

end Unstarted

def Grows (g g' : Graph τ) : Prop := ∃ done, g'.log = done ++ g.log

def Halts (id : TaskId) (g g' : Graph τ) : Prop :=
  ∃ done, g'.log = done ++ g.log ∧ ∃ v, (.sent id .stop, v) ∈ done ∨ (.sent id .kill, v) ∈ done

omit [Task τ] in
theorem Grows.of_unstarted (h : Unstarted x g g') : Grows g g' := by
  obtain ⟨done, hlog, -⟩ := h
  exact ⟨done, hlog⟩

omit [Task τ] in
theorem Grows.trans {g'' : Graph τ} (h : Grows g g') (h' : Grows g' g'') : Grows g g'' := by
  obtain ⟨done, hlog⟩ := h
  obtain ⟨done', hlog'⟩ := h'
  exact ⟨done' ++ done, by rw [hlog', hlog, List.append_assoc]⟩

namespace Halts

variable {g'' : Graph τ}

omit [Task τ] in
theorem after (h : Halts id g' g'') (hg : Grows g g') : Halts id g g'' := by
  obtain ⟨done, hlog⟩ := hg
  obtain ⟨done', hlog', v, hv⟩ := h
  refine ⟨done' ++ done, by rw [hlog', hlog, List.append_assoc], v, ?_⟩
  exact hv.imp (List.mem_append_left _) (List.mem_append_left _)

omit [Task τ] in
theorem before (h : Halts id g g') (hg : Grows g' g'') : Halts id g g'' := by
  obtain ⟨done, hlog, v, hv⟩ := h
  obtain ⟨done', hlog'⟩ := hg
  refine ⟨done' ++ done, by rw [hlog', hlog, List.append_assoc], v, ?_⟩
  exact hv.imp (List.mem_append_right _) (List.mem_append_right _)

theorem sendCmd (g : Graph τ) (id : TaskId) {cmd : TaskCmd} (h : sentCmd cmd = some .stop ∨ sentCmd cmd = some .kill) :
    Halts id g (g.sendCmd id cmd) := by
  rcases h with h | h
  · refine ⟨[(.sent id .stop, g.view)], (Quiet.sendCmd_sent g id h).log, g.view, .inl (List.mem_singleton_self _)⟩
  · refine ⟨[(.sent id .kill, g.view)], (Quiet.sendCmd_sent g id h).log, g.view, .inr (List.mem_singleton_self _)⟩

theorem stopIfActive {t : TaskHandle τ} (ht : g.tasks.lookup id = some t) (hr : t.state.isRunning = true) :
    Halts id g (g.stopIfActive id) := by
  have hstop : Halts id g (g.stopTask id false) := by
    have hset : Grows g (g.setState id .stopping) := .of_unstarted (x := id) (.setState g id .stopping)
    obtain ⟨t', ht', -⟩ := (Bears.setState (o := ∅) bearing_any g id .stopping fun _ _ _ => trivial).some_to
      (Set.notMem_empty id) ht
    unfold Graph.stopTask
    simp only
    rw [ht']
    refine (sendCmd _ id (.inl rfl)).after (hset.trans ?_)
    have hfail : Unstarted id (g.setState id .stopping)
        ((g.setState id .stopping).modifyTask id fun t => { t with startFailed := false }) := .of_log rfl
    exact .of_unstarted (hfail.trans (.scheduleStateTimeout _ _ _))
  unfold Graph.stopIfActive
  rw [ht]
  simp only
  cases hst : t.state with
  | starting | running | ready => exact hstop
  | idle | stopping | backoff | done | exited =>
    rw [hst] at hr
    cases hr

theorem hardKill (g : Graph τ) (id : TaskId) : Halts id g (g.hardKill id) := by
  have hmod : Unstarted id g (g.modifyTask id fun t => { t with killed := true, epoch := t.epoch + 1 }) := .of_log rfl
  exact ((sendCmd _ id (.inr rfl)).after (.of_unstarted hmod)).before
    (.of_unstarted (x := id) (.scheduleStateTimeout _ _ _))

theorem actOne (hv : verb.stops = true) {t : TaskHandle τ} (ht : g.tasks.lookup id = some t)
    (hr : t.state.isRunning = true) : Halts id g (actOne verb g id) := by
  have hpin (pinned : Bool) : ∃ t, (g.setPin id pinned).tasks.lookup id = some t ∧ t.state.isRunning = true := by
    obtain ⟨t', ht', hst⟩ := (Bears.setPin (o := ∅) bearing_staysRunning g id pinned fun _ _ _ hs => hs).some_to
      (Set.notMem_empty id) ht
    exact ⟨t', ht', hst hr⟩
  have hkill : Halts id g (g.cmdKill id) := by
    obtain ⟨t', ht', hr'⟩ := hpin false
    have hgrow : Grows g (g.setPin id false) := .of_unstarted (x := id) (.setPin g id false)
    unfold Graph.cmdKill
    simp only
    rw [ht']
    simp only
    have hset : Grows (g.setPin id false) ((g.setPin id false).setState id .stopping) :=
      .of_unstarted (x := id) (.setState _ id .stopping)
    cases hst : t'.state with
    | starting | running | ready => exact ((hardKill _ id).after hset).after hgrow
    | stopping => exact (hardKill _ id).after hgrow
    | idle | backoff | done | exited =>
      rw [hst] at hr'
      cases hr'
  cases verb with
  | stop =>
    obtain ⟨t', ht', hr'⟩ := hpin false
    exact (stopIfActive ht' hr').after (.of_unstarted (x := id) (.setPin g id false))
  | kill => exact hkill
  | restart =>
    have hstart : ∃ t, (g.cmdStart id).tasks.lookup id = some t ∧ t.state.isRunning = true := by
      obtain ⟨t', ht', hr'⟩ := hpin true
      obtain ⟨t'', ht'', hst⟩ := (Bears.demand (o := ∅) bearing_staysRunning (g.setPin id true) id true
        (fun _ _ _ _ hs => hs) (fun _ _ _ _ hs => hs) fun _ _ _ t hrev => staysRunning_revived hrev).some_to (Set.notMem_empty id) ht'
      exact ⟨t'', ht'', hst hr'⟩
    obtain ⟨t', ht', hr'⟩ := hstart
    exact (stopIfActive ht' hr').after
      (.of_unstarted (x := id) ((Unstarted.setPin g id true).trans (.demand _ id true)))
  | forceRestart =>
    exact hkill.before (.of_unstarted (x := id) ((Unstarted.setPin _ id true).trans (.demand _ id true)))
  | up | start | veto => cases hv

end Halts

omit [Task τ] in
theorem vetoed_setVetoed (g : Graph τ) (id : TaskId) (value : Bool) {t : TaskHandle τ}
    (ht : (g.setVetoed id value).tasks.lookup id = some t) : t.vetoed = value := by
  unfold Graph.setVetoed at ht
  cases hl : g.tasks.lookup id with
  | none =>
    rw [hl] at ht
    simp only [hl] at ht
    cases ht
  | some t₀ =>
    rw [hl] at ht
    simp only at ht
    split at ht
    · rw [← Option.some.inj (hl.symm.trans ht)]
      assumption
    · have htasks : (((g.modifyTask id fun t => { t with vetoed := value }).enqueue id).note .touched).tasks =
          (g.modifyTask id fun t => { t with vetoed := value }).tasks := tasks_enqueue _ _
      rw [htasks, lookup_modifyTask, if_pos rfl, hl] at ht
      rw [← Option.some.inj ht]

theorem spared_demand (g : Graph τ) (id : TaskId) (rerunDone : Bool) (hx : x ∈ g.closure id) {t : TaskHandle τ}
    (ht : (g.demand id rerunDone).tasks.lookup x = some t) : t.vetoed = false := by
  have heased (g : Graph τ) (y : TaskId) : Bears Eased ∅ g (demandOne rerunDone id g y) :=
    .demandOne bearing_eased rerunDone id g y (fun _ _ => ⟨fun h => h, fun h => h⟩)
      (fun _ _ => ⟨fun _ => rfl, fun h => h⟩)
      fun _ _ _ => ⟨fun h => h, fun h => h⟩
  refine Fold.foldl_reaches (I := fun _ => True) (P := fun g : Graph τ => ∀ t, g.tasks.lookup x = some t → t.vetoed = false)
    (fun _ _ _ _ => trivial) hx (fun g _ t ht => ?_) (fun g _ h y _ t ht => ?_) trivial t ht
  · unfold Graph.demandOne at ht
    cases hl : g.tasks.lookup x with
    | none =>
      simp only [hl] at ht
      cases ht
    | some t₀ =>
      rw [hl] at ht
      simp only at ht
      split at ht
      · obtain ⟨t₁, ht₁, he⟩ := (Bears.setState (o := ∅) bearing_eased _ x .idle
          fun _ _ _ => ⟨fun h => h, fun h => h⟩).some_of (Set.notMem_empty x) ht
        exact he.1 (vetoed_setVetoed _ x false ht₁)
      · exact vetoed_setVetoed _ x false ht
  · obtain ⟨t₀, ht₀, he⟩ := (heased g y).some_of (Set.notMem_empty x) ht
    exact he.1 (h t₀ ht₀)

omit [Task τ] in
theorem unsaved_setPin (g : Graph τ) (id : TaskId) (pinned : Bool) {t : TaskHandle τ}
    (ht : (g.setPin id pinned).tasks.lookup id = some t) : t.savedPin = false := by
  have hafter : Bears Eased ∅ (g.modifyTask id fun t => { t with savedPin := false }) (g.setPin id pinned) := by
    unfold Graph.setPin
    exact .ite (fun _ => .addEdge bearing_eased _ _ _) fun _ => .removeEdge bearing_eased _ _ _
  obtain ⟨t₁, ht₁, he⟩ := hafter.some_of (Set.notMem_empty id) ht
  rw [lookup_modifyTask, if_pos rfl] at ht₁
  obtain ⟨t₀, -, rfl⟩ := Option.map_eq_some_iff.mp ht₁
  exact he.2 rfl

/-- The graph on the way of a verb: the deps and the tasks of `g₀`. -/
structure Acting (g₀ g : Graph τ) : Prop where
  sound : Sound ∅ g
  next : initTaskId < g.nextTaskId
  edges : ∀ x, x ≠ initTaskId → g.edges x = g₀.edges x
  mem : ∀ x, x ∈ g.tasks ↔ x ∈ g₀.tasks

/-- The task is pinned with all it needs, whatever came before. -/
structure Started (g₀ : Graph τ) (id : TaskId) (g : Graph τ) : Prop where
  pinned : id ∈ g.edges initTaskId
  unsaved : ∀ t, g.tasks.lookup id = some t → t.savedPin = false
  spared : ∀ x ∈ g₀.closure id, ∀ t, g.tasks.lookup x = some t → t.vetoed = false

variable {g₀ : Graph τ}

omit [Task τ] in
theorem Acting.closure (h : Acting g₀ g) (hs : Sound ∅ g₀) (hid : id ≠ initTaskId) (hx : x ∈ g₀.closure id) :
    x ∈ g.closure id := by
  rw [mem_closure_iff hs.shape] at hx
  rw [mem_closure_iff h.sound.shape]
  induction hx with
  | refl => exact .refl
  | @tail a b hr hab ih =>
    refine .tail ih ?_
    have hne : a ≠ initTaskId := fun he => hs.shape.not_reach_init hid (he ▸ hr)
    show b ∈ g.edges a
    rw [h.edges a hne]
    exact hab

theorem Acting.runs {k : ℕ} (h : Acting g₀ g) (hr : Runs k g g') (he : ∀ x, x ≠ initTaskId → g'.edges x = g.edges x)
    (hb : Bears (fun _ _ => True) ∅ g g') : Acting g₀ g' :=
  ⟨h.sound.ops (hr h.sound h.next), (hr h.sound h.next).next h.next, fun x hx => (he x hx).trans (h.edges x hx),
    fun x => (hb.mem (Set.notMem_empty x)).trans (h.mem x)⟩

theorem Acting.actOne (h : Acting g₀ g) (verb : Verb) (id : TaskId) : Acting g₀ (actOne verb g id) := by
  refine h.runs (Runs.actOne verb g id) (fun x hx => edges_actOne_of_ne verb g id hx) ?_
  exact bears_actOne bearing_any verb g id (fun _ => trivial) (fun _ => trivial) (fun _ => trivial)
    (fun _ _ _ => trivial)
    (fun _ => trivial) (fun _ _ _ _ => trivial) fun _ _ _ => trivial

theorem Acting.starts (h : Acting g₀ g) (hs : Sound ∅ g₀) (hid : id ∈ g₀.tasks) (rerunDone : Bool) :
    Started g₀ id ((g.setPin id true).demand id rerunDone) := by
  have hne : id ≠ initTaskId := hs.shape.ne_init (mem_keys.mpr hid)
  have hpin : Acting g₀ (g.setPin id true) :=
    h.runs (Runs.setPin g id true) (fun x hx => edges_setPin_of_ne g id true hx)
    (.setPin bearing_any g id true fun _ _ _ => trivial)
  refine ⟨?_, fun t ht => ?_, fun x hx t ht => spared_demand _ id rerunDone (hpin.closure hs hne hx) ht⟩
  · rw [edges_demand, edges_pinned ((h.mem id).mpr hid) hne]
    exact Finset.mem_insert_self _ _
  · obtain ⟨t₀, ht₀, he⟩ := (Bears.demand (o := ∅) bearing_eased (g.setPin id true) id rerunDone
      (fun _ _ _ _ => ⟨fun h => h, fun h => h⟩) (fun _ _ _ _ => ⟨fun _ => rfl, fun h => h⟩)
      fun _ _ _ _ _ => ⟨fun h => h, fun h => h⟩).some_of (Set.notMem_empty id) ht
    exact he.2 (unsaved_setPin g id true ht₀)

omit [Task τ] in
theorem Started.eased (h : Started g₀ id g) (hb : Bears Eased ∅ g g') (hp : id ∈ g'.edges initTaskId) :
    Started g₀ id g' := by
  refine ⟨hp, fun t ht => ?_, fun x hx t ht => ?_⟩
  · obtain ⟨t₀, ht₀, he⟩ := hb.some_of (Set.notMem_empty id) ht
    exact he.2 (h.unsaved t₀ ht₀)
  · obtain ⟨t₀, ht₀, he⟩ := hb.some_of (Set.notMem_empty x) ht
    exact he.1 (h.spared x hx t₀ ht₀)

theorem Acting.started (h : Acting g₀ g) (hs : Sound ∅ g₀) (hid : id ∈ g₀.tasks) (hv : verb.starts = true) :
    Started g₀ id (Graph.actOne verb g id) := by
  cases verb with
  | up => exact h.starts hs hid false
  | start => exact h.starts hs hid true
  | restart =>
    have hstart : Started g₀ id (g.cmdStart id) := h.starts hs hid true
    refine hstart.eased (.stopIfActive bearing_eased _ id (fun _ _ _ => ⟨fun h => h, fun h => h⟩)
      fun _ _ => ⟨fun h => h, fun h => h⟩) ?_
    rw [Graph.actOne, Graph.cmdRestart, edges_stopIfActive]
    exact hstart.pinned
  | forceRestart =>
    have hkilled : Acting g₀ (g.cmdKill id) := by
      refine h.runs (Runs.cmdKill g id) (fun x hx => ?_)
        (.cmdKill bearing_any g id (fun _ _ => trivial) (fun _ _ _ => trivial) fun _ _ => trivial)
      rw [edges_cmdKill]
      exact edges_setPin_of_ne g id false hx
    exact hkilled.starts hs hid true
  | stop | kill | veto => cases hv

theorem Acting.keeps (h : Acting g₀ g) (hs : Sound ∅ g₀) (hst : Started g₀ id g) {y : TaskId} (hy : y ∈ g₀.tasks)
    (hv : verb.starts = true) : Started g₀ id (Graph.actOne verb g y) := by
  refine hst.eased (eased_actOne hv g y) ?_
  rw [pins_actOne hv ((h.mem y).mpr hy) (hs.shape.ne_init (mem_keys.mpr hy))]
  exact Finset.mem_insert_of_mem hst.pinned

theorem started_act (hv : Valid g) {ids : List TaskId} (hids : ∀ y ∈ ids, y ∈ g.tasks) (hid : id ∈ ids)
    (hst : verb.starts = true) : Started g id (ids.foldl (Graph.actOne verb) g) := by
  have hstart : Acting g g := ⟨hv.sound, hv.next, fun _ _ => rfl, fun _ => Iff.rfl⟩
  exact Fold.foldl_reaches (I := Acting g) (fun _ h y _ => h.actOne verb y) hid
    (fun _ h => h.started hv.sound (hids id hid) hst) (fun _ h hp y hy => h.keeps hv.sound hp (hids y hy) hst) hstart

theorem halts_act (hv : verb.stops = true) {ids : List TaskId} (hid : id ∈ ids) {t : TaskHandle τ}
    (ht : g.tasks.lookup id = some t) (hr : t.state.isRunning = true) :
    Halts id g (ids.foldl (Graph.actOne verb) g) := by
  obtain ⟨l, l', rfl, hl⟩ := List.eq_append_cons_of_mem hid
  rw [List.foldl_append, List.foldl_cons]
  have hgrow (l : List TaskId) (g : Graph τ) : Grows g (l.foldl (Graph.actOne verb) g) :=
    .of_unstarted (x := id) (Fold.foldl_rel .refl (fun _ _ _ => .trans) (fun g y _ => .actOne verb g y) g)
  have hbefore : Bears StaysRunning {x | x ≠ id} g (l.foldl (Graph.actOne verb) g) := by
    refine .foldl bearing_staysRunning (fun g y hy => (staysRunning_actOne verb g y).mono ?_) g
    rintro x rfl he
    exact hl (he ▸ hy)
  obtain ⟨t', ht', hr'⟩ := hbefore.some_to (fun h => h rfl) ht
  exact ((Halts.actOne hv ht' (hr' hr)).after (hgrow l g)).before (hgrow l' _)

omit [Task τ] in
theorem lasting_eased : Bearing.Lasting (Eased (τ := τ)) where
  toBearing := bearing_eased
  cached _ _ _ := ⟨fun h => h, fun h => h⟩
  counts _ _ := ⟨fun h => h, fun h => h⟩
  entered _ _ := ⟨fun h => h, fun h => h⟩
  failed _ _ := ⟨fun h => h, fun h => h⟩
  begun t now := by
    unfold Eased TaskHandle.begun
    cases t.next <;> exact ⟨fun h => h, fun h => h⟩

/-- A task that is done, and what the kernel does by itself goes by. -/
structure Spent (x : TaskId) (info : ExitInfo) (g : Graph τ) : Prop where
  told : Told (anyTerms τ) g
  sane : g.records.Sane (anyTerms τ)
  done : ∃ t, g.tasks.lookup x = some t ∧ t.state = .done info

theorem restful_spent (x : TaskId) (info : ExitInfo) : Restful (Spent (τ := τ) x info) (· = x) where
  writes h hw := by
    obtain ⟨htold, hedits⟩ := hw h.told h.sane
    obtain ⟨t, ht, hs⟩ := h.done
    obtain ⟨r, hr, hs'⟩ := hedits.done ⟨t.record, tasks_of_lookup ht, hs⟩
    obtain ⟨t', ht', rfl⟩ := tasks_some hr
    exact ⟨htold, hedits.sane h.sane, t', ht', hs'⟩
  idle h hx := by
    subst hx
    intro t ht _ hi
    obtain ⟨t', ht', hs⟩ := h.done
    rw [Option.some.inj (ht.symm.trans ht'), hs] at hi
    cases hi

omit [Task τ] in
theorem grows_of (hu : ∀ x, Unstarted x g g') : Grows g g' := .of_unstarted (hu initTaskId)

theorem grows_settle (g : Graph τ) : Grows g g.settle := by
  have hrefl (g : Graph τ) : Grows g g := grows_of fun _ => .refl g
  have hdrive (g : Graph τ) (id : TaskId) : Grows g (g.driveTask id) := by
    obtain ⟨x, hx⟩ := Infinite.exists_notMem_finset g.tasks.keys
    refine .of_unstarted (x := x) (.driveTask g id fun t ht => ?_)
    exact absurd (Finmap.mem_keys.mpr (Finmap.mem_of_lookup_eq_some ht)) hx
  unfold Graph.settle
  generalize g.settleBudget + 1 = n
  induction n generalizing g with
  | zero => exact hrefl g
  | succ n ih =>
    unfold settleSteps
    cases h : g.settleStep with
    | none => exact hrefl g
    | some g' =>
      refine Grows.trans ?_ (ih g')
      unfold Graph.settleStep at h
      split at h
      · rename_i id effect rest _
        obtain rfl := Option.some.inj h
        have hpop (x : TaskId) : Unstarted x g { g with pendingEffects := rest } := .of_log rfl
        exact grows_of fun x => (hpop x).trans (.onEffect _ id effect)
      · split at h
        · cases h
        · obtain rfl := Option.some.inj h
          refine Grows.trans (grows_of fun x => .propagate g.propagateFuel g []) ?_
          exact Fold.foldl_rel hrefl (fun _ _ _ => Grows.trans) (fun g id _ => hdrive g id) _

end Graph

open Dekit.Graph Dekit.TaskHandle

namespace Kernel

variable [Task τ] {k k' : Kernel τ} {sender : TaskId} {verb : Verb} {selector : TaskSelector} {ack : Option ReplyId}

omit [Task τ] in
theorem mem_of_actSet {g : Graph τ} {id : TaskId} (h : id ∈ g.actSet verb sender selector) : id ∈ g.tasks := by
  cases verb with
  | up =>
    rcases List.mem_append.mp h with h | h
    · exact mem_of_matched h
    · rw [← List.mem_toFinset, Hasher.ascending_toFinset] at h
      exact Finmap.mem_keys.mp (Finset.mem_filter.mp h).1
  | start | restart | forceRestart | stop | kill | veto => exact mem_of_matched h

omit [Task τ] in
theorem mem_upSet {g : Graph τ} {id : TaskId} {t : TaskHandle τ} (ht : g.tasks.lookup id = some t)
    (hp : t.savedPin = true)
    (hm : g.canMutate sender id = true) : id ∈ g.upSet sender selector := by
  unfold upSet
  simp only
  by_cases hid : id ∈ g.mutableMatchingIds sender selector
  · exact List.mem_append_left _ hid
  · refine List.mem_append_right _ ?_
    rw [← List.mem_toFinset, Hasher.ascending_toFinset, Finset.mem_filter]
    refine ⟨Finmap.mem_keys.mpr (Finmap.mem_of_lookup_eq_some ht), ?_, hid, hm⟩
    rw [ht]
    exact hp

theorem step_act (hv : Valid k.graph) (hf : k.graph.frozen = none)
    (hs : Step k (some ⟨sender, .act verb selector ack⟩) k') :
    ∃ now, k'.graph = { (({ k.graph with now }.act verb sender selector).1.answerIf ack
      (.count ({ k.graph with now }.act verb sender selector).2.length)).settle with
        stateChanged := false, timerChanges := [] } := by
  have hturn (k : Kernel τ) (now : Instant) (hv : Valid k.graph) (hf : k.graph.frozen = none) :
      (k.turn now ⟨sender, .act verb selector ack⟩).graph =
      { (({ k.graph with now }.act verb sender selector).1.answerIf ack
        (.count ({ k.graph with now }.act verb sender selector).2.length)).settle with
          stateChanged := false, timerChanges := [] } := by
    have hv' : Valid { k.graph with now } := hv.same rfl rfl rfl rfl
    have hnone : ({ k.graph with now }.perform sender (.act verb selector ack)).frozen = none := by
      have hops := (Runs.act { k.graph with now } verb sender selector).andThen
        (.of_still (.answerIf ack (.count ({ k.graph with now }.act verb sender selector).2.length)))
      exact (hops hv'.sound hv'.next).advances.kept.frozen.trans hf
    unfold turn dispatch
    rw [show ({ k with graph := { k.graph with now } } : Kernel τ).graph.frozen = none from hf]
    simp only [dispatchNow, runCommand, finishFreeze, finishFreezeIfComplete, hnone]
    unfold afterDispatch
    simp only [hnone]
    rfl
  generalize hm : (⟨sender, .act verb selector ack⟩ : KernelMessage τ) = m at hs
  cases hs with
  | @replayed now _ rest _ _ _ =>
    subst hm
    exact ⟨now, hturn { k with replay := rest } now hv hf⟩
  | @received now _ _ _ _ =>
    subst hm
    exact ⟨now, hturn (k.arrive _) now hv hf⟩
  | expired | alarm => cases hm

omit [Task τ] in
theorem mem_of_closure {g : Graph τ} {id x : TaskId} (hs : g.view.Shape) (hid : id ∈ g.tasks) (hx : x ∈ g.closure id) :
    x ∈ g.tasks := by
  rcases Relation.ReflTransGen.cases_tail ((mem_closure_iff hs).mp hx) with rfl | ⟨y, -, hy⟩
  · exact hid
  · exact mem_keys.mp (hs.target y x hy)

theorem pulled {v : View} {id x : TaskId} (hpin : v.Dep initTaskId id) (hx : Relation.ReflTransGen v.Dep id x)
    (hspared : ∀ y, Relation.ReflTransGen v.Dep id y → v.vetoed y = false) : Relation.TransGen v.Pull initTaskId x := by
  induction hx with
  | refl => exact .single ⟨hpin, hspared id .refl⟩
  | tail hr hab ih => exact ih.tail ⟨hab, hspared _ (hr.tail hab)⟩

/-- What a verb is for holds once the kernel has settled: what a verb starts is pinned, and all it needs is wanted and
not vetoed; what was done is not run again but by a verb that says so; an `up` leaves the sender no saved pin; and what
runs is told to stop by a verb that stops it. -/
theorem verbs_carried_out (h : Reachable k) (hq : k.graph.quitting = false) (hf : k.graph.frozen = none)
    (hs : Step k (some ⟨sender, .act verb selector ack⟩) k') :
    (∀ x, x ≠ initTaskId → k'.graph.edges x = k.graph.edges x) ∧
    (verb.starts = true → ∀ id ∈ k.graph.actSet verb sender selector, id ∈ k'.graph.edges initTaskId ∧
      (∃ t, k'.graph.tasks.lookup id = some t ∧ t.savedPin = false) ∧
      ∀ x ∈ k.graph.closure id, ∃ t, k'.graph.tasks.lookup x = some t ∧ t.vetoed = false ∧
        (k'.graph.dirty = [] → k'.graph.pendingEffects = [] → t.wanted = true)) ∧
    (∀ x t info, k.graph.tasks.lookup x = some t → t.state = .done info →
      (verb.reruns = true → x ∉ k.graph.actSet verb sender selector) → Unstarted x k.graph k'.graph ∧
        ∃ t', k'.graph.tasks.lookup x = some t' ∧ t'.state = .done info) ∧
    (verb = .up → ∀ x t, k'.graph.tasks.lookup x = some t → t.savedPin = true → k.graph.canMutate sender x = false) ∧
    (verb.stops = true → ∀ id ∈ k.graph.actSet verb sender selector, ∀ t, k.graph.tasks.lookup id = some t →
      t.state.isRunning = true → Halts id k.graph k'.graph) := by
  have hv := valid_of_reachable h
  have hr' : Reachable k' := .step h hs
  have hv' := valid_of_reachable hr'
  obtain ⟨now, hg⟩ := step_act hv hf hs
  obtain ⟨htold, hsane⟩ := h.sane
  generalize hids : k.graph.actSet verb sender selector = ids
  have hact : ({ k.graph with now }.act verb sender selector) =
    (ids.foldl (actOne verb) { k.graph with now }, ids) := by
    rw [← hids]
    rfl
  have hmem (id : TaskId) (hid : id ∈ ids) : id ∈ k.graph.tasks := mem_of_actSet (hids ▸ hid)
  have hv₁ : Valid { k.graph with now } := hv.same rfl rfl rfl rfl
  have hwrites := Writes.act (I := anyTerms τ) { k.graph with now } verb sender selector htold hsane
  have hops := Runs.act { k.graph with now } verb sender selector hv₁.sound hv₁.next
  rw [hact] at hg hwrites hops
  simp only at hg hwrites hops
  -- The graph after the verb, and after its answer.
  generalize hg₂ : ids.foldl (actOne verb) { k.graph with now } = g₂ at hg hwrites hops
  have hanswer : Aside g₂ (g₂.answerIf ack (.count ids.length)) := .answerIf _ _ _
  have htasks : (g₂.answerIf ack (.count ids.length)).tasks = g₂.tasks := by cases ack <;> rfl
  have hedges : (g₂.answerIf ack (.count ids.length)).edges = g₂.edges := by cases ack <;> rfl
  have hlog : (g₂.answerIf ack (.count ids.length)).log = g₂.log := by cases ack <;> rfl
  have hquit₃ : (g₂.answerIf ack (.count ids.length)).quitting = g₂.quitting := by cases ack <;> rfl
  generalize g₂.answerIf ack (.count ids.length) = g₃ at hg hanswer htasks hedges hlog hquit₃
  have htold₃ : Told (anyTerms τ) g₃ := hwrites.1.aside hanswer
  have hsane₃ : g₃.records.Sane (anyTerms τ) := by
    rw [hanswer.records]
    exact hwrites.2.sane hsane
  have hdeps : k'.graph.edges = g₂.edges := by
    rw [hg, ← hedges]
    exact ((Writes.settle (I := anyTerms τ) (c := .itself) g₃) htold₃ hsane₃).2.deps
  have heased₂ : Bears Eased ∅ g₂ k'.graph := by
    rw [hg]
    have hs := Bears.settle (o := ∅) lasting_eased g₃
    intro x hx
    rw [← htasks]
    exact hs x hx
  have hsame (x : TaskId) (hx : x ≠ initTaskId) : k'.graph.edges x = k.graph.edges x := by
    rw [hdeps, ← hg₂]
    exact Fold.foldl_keeps (p := fun g : Graph τ => g.edges x) (fun g y => edges_actOne_of_ne verb g y hx) ids _
  have hany : Bears (fun _ _ => True) ∅ { k.graph with now } g₂ := by
    rw [← hg₂]
    refine .foldl bearing_any (fun g y _ => bears_actOne bearing_any verb g y (fun _ => trivial) (fun _ => trivial)
      (fun _ => trivial) (fun _ _ _ => trivial) (fun _ => trivial) (fun _ _ _ _ => trivial) fun _ _ _ => trivial) _
  have htask (x : TaskId) : x ∈ k'.graph.tasks ↔ x ∈ k.graph.tasks :=
    (heased₂.mem (Set.notMem_empty x)).trans (hany.mem (Set.notMem_empty x))
  have hgrow : k'.graph.log = g₃.settle.log := by rw [hg]
  have hquit : k'.graph.quitting = false := by
    rw [hg]
    exact (Advances.settle g₃).kept.quitting.trans (hquit₃.trans (hops.advances.kept.quitting.trans hq))
  have hstarted (hst : verb.starts = true) (id : TaskId) (hid : id ∈ ids) : Started k.graph id k'.graph := by
    have hs : Started { k.graph with now } id g₂ := by
      rw [← hg₂]
      exact started_act hv₁ hmem hid hst
    have hs' : Started k.graph id g₂ := ⟨hs.pinned, hs.unsaved, hs.spared⟩
    exact hs'.eased heased₂ (by rw [hdeps]; exact hs.pinned)
  refine ⟨hsame, fun hst id hid => ⟨(hstarted hst id hid).pinned, ?_, fun x hx => ?_⟩, fun x t info ht hdone hnot => ?_,
    fun hup x t' ht' hp => ?_, fun hst id hid t ht hr => ?_⟩
  · obtain ⟨t, ht⟩ := Option.isSome_iff_exists.mp (Finmap.lookup_isSome.mpr ((htask id).mpr (hmem id hid)))
    exact ⟨t, ht, (hstarted hst id hid).unsaved t ht⟩
  · have hst' := hstarted hst id hid
    have hne : id ≠ initTaskId := hv.sound.shape.ne_init (mem_keys.mpr (hmem id hid))
    have hforth : Acting k.graph k'.graph := ⟨hv'.sound, hv'.next, hsame, htask⟩
    have hback : Acting k'.graph k.graph := ⟨hv.sound, hv.next, fun x hx => (hsame x hx).symm, fun x => (htask x).symm⟩
    have hx' : x ∈ k'.graph.closure id := hforth.closure hv.sound hne hx
    have hlive (y : TaskId) (hy : y ∈ k'.graph.closure id) :
      ∃ t, k'.graph.tasks.lookup y = some t ∧ t.vetoed = false := by
      obtain ⟨t, ht⟩ := Option.isSome_iff_exists.mp (Finmap.lookup_isSome.mpr
        (mem_of_closure hv'.sound.shape ((htask id).mpr (hmem id hid)) hy))
      exact ⟨t, ht, hst'.spared y (hback.closure hv'.sound hne hy) t ht⟩
    obtain ⟨t, ht, hspared⟩ := hlive x hx'
    refine ⟨t, ht, hspared, fun hdirty hpending => ?_⟩
    refine (((caches_exact hr').2 hdirty hpending x t ht).1).mpr ⟨hquit, ?_⟩
    refine pulled hst'.pinned ((mem_closure_iff hv'.sound.shape).mp hx') fun y hy => ?_
    obtain ⟨t, ht, hspared⟩ := hlive y ((mem_closure_iff hv'.sound.shape).mpr hy)
    rw [View.vetoed, view_node, ht]
    exact hspared
  · have hbears : Bears StaysDone {y | verb.reruns = true ∧ y ∈ ids} { k.graph with now } g₂ := by
      rw [← hg₂]
      refine .foldl bearing_staysDone (fun g y hy => staysDone_actOne g fun hrerun => ?_) _
      exact ⟨hrerun, hy⟩
    have hacted : Unstarted x { k.graph with now } g₂ := by
      rw [← hg₂]
      exact Fold.foldl_rel .refl (fun _ _ _ => .trans) (fun g y _ => .actOne verb g y) _
    obtain ⟨t', ht', hdone'⟩ := hbears.some_to (fun hin => hnot hin.1 hin.2) ht
    obtain ⟨hspent, hrest⟩ := Resting.settle (restful_spent x info) g₃
      ⟨htold₃, hsane₃, t', by rw [htasks, ht'], hdone' info hdone⟩
    have hall := (hacted.trans (.of_log hlog)).trans (hrest x rfl)
    rw [hg]
    exact ⟨hall, hspent.done⟩
  · subst hup
    by_contra hm
    rw [Bool.not_eq_false] at hm
    have hfalse : t'.savedPin = false := by
      by_cases hx : x ∈ ids
      · exact (hstarted rfl x hx).unsaved t' ht'
      · have heased : Bears Eased ∅ { k.graph with now } k'.graph := by
          refine Bears.trans bearing_eased ?_ heased₂
          rw [← hg₂]
          exact .foldl bearing_eased (fun g y _ => eased_actOne rfl g y) _
        obtain ⟨t, ht, he⟩ := heased.some_of (Set.notMem_empty x) ht'
        refine he.2 (Bool.eq_false_iff.mpr fun hsaved => hx ?_)
        rw [← hids]
        exact mem_upSet (g := k.graph) ht hsaved hm
    rw [hfalse] at hp
    cases hp
  · have hhalts : Halts id { k.graph with now } g₂ := by
      rw [← hg₂]
      exact halts_act hst hid ht hr
    have hafter : Grows g₂ g₃ := ⟨[], hlog⟩
    have hall : Halts id k.graph g₃.settle := hhalts.before (hafter.trans (grows_settle g₃))
    rw [hg]
    exact hall

def loneRestarted : Kernel ChannelTask :=
  (loneStarted.arrive ⟨0, .act .restart (.id 1) none⟩).turn 2 ⟨0, .act .restart (.id 1) none⟩

theorem verbs_carried_out_lone :
    1 ∈ loneRestarted.graph.edges initTaskId ∧ Halts 1 loneStarted.graph loneRestarted.graph := by
  have hs : Step loneStarted (some ⟨0, .act .restart (.id 1) none⟩) loneRestarted :=
    .received _ (by decide) (by decide) (by decide)
  have hid : 1 ∈ loneStarted.graph.actSet .restart 0 (.id 1) := by decide
  have ht : (loneStarted.graph.tasks.lookup 1).isSome = true := by decide
  have hr : (loneStarted.graph.tasks.lookup 1).any (·.state.isRunning) = true := by decide
  obtain ⟨t, ht⟩ := Option.isSome_iff_exists.mp ht
  rw [ht] at hr
  obtain ⟨-, hstarts, -, -, hstops⟩ := verbs_carried_out reachable_started (by decide) (by decide) hs
  exact ⟨(hstarts rfl 1 hid).1, hstops rfl 1 hid t ht hr⟩

end Kernel

end Dekit
