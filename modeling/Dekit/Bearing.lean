import Dekit.Orders

namespace Dekit

variable {τ : Type}

/-- A relation of a task to what it was that the books kept beside it do not disturb. -/
structure Bearing (R : TaskHandle τ → TaskHandle τ → Prop) : Prop where
  refl : ∀ t, R t t
  trans : ∀ {t t' t''}, R t t' → R t' t'' → R t t''
  handled : ∀ t task, R t { t with task }
  counted : ∀ t wantedParents activeDependents, R t { t with wantedParents, activeDependents }
  timed : ∀ t deadline, R t { t with deadline }

/-- One that a task's runs do not disturb either. -/
structure Bearing.Lasting (R : TaskHandle τ → TaskHandle τ → Prop) : Prop extends Bearing R where
  cached : ∀ t wanted supported, R t { t with wanted, supported }
  counts : ∀ t attempts, R t { t with attempts }
  entered : ∀ t (state : TaskState), R t (t.setState state)
  failed : ∀ t startFailed, R t { t with startFailed }
  begun : ∀ t now, R t (t.begun now)

namespace Graph

variable {R : TaskHandle τ → TaskHandle τ → Prop} {o : Set TaskId} {g g' g'' : Graph τ} {id : TaskId}

def Bears (R : TaskHandle τ → TaskHandle τ → Prop) (o : Set TaskId) (g g' : Graph τ) : Prop :=
  ∀ x, x ∉ o → Option.Rel R (g.tasks.lookup x) (g'.tasks.lookup x)

namespace Bears

theorem some_of {x : TaskId} {t' : TaskHandle τ} (h : Bears R o g g') (hx : x ∉ o)
    (ht : g'.tasks.lookup x = some t') : ∃ t, g.tasks.lookup x = some t ∧ R t t' := by
  have hr := h x hx
  rw [ht] at hr
  cases hl : g.tasks.lookup x with
  | none =>
    rw [hl] at hr
    cases hr
  | some t =>
    rw [hl] at hr
    cases hr with
    | some hr => exact ⟨t, rfl, hr⟩

theorem some_to {x : TaskId} {t : TaskHandle τ} (h : Bears R o g g') (hx : x ∉ o)
    (ht : g.tasks.lookup x = some t) : ∃ t', g'.tasks.lookup x = some t' ∧ R t t' := by
  have hr := h x hx
  rw [ht] at hr
  cases hl : g'.tasks.lookup x with
  | none =>
    rw [hl] at hr
    cases hr
  | some t' =>
    rw [hl] at hr
    cases hr with
    | some hr => exact ⟨t', rfl, hr⟩

theorem mono {o' : Set TaskId} (h : Bears R o g g') (hsub : o ⊆ o') : Bears R o' g g' :=
  fun x hx => h x fun hmem => hx (hsub hmem)

variable (hR : Bearing R)
include hR

theorem of_eq (ht : g'.tasks = g.tasks) : Bears R o g g' := by
  intro x _
  rw [ht]
  cases g.tasks.lookup x with
  | none => exact .none
  | some t => exact .some (hR.refl t)

theorem refl (g : Graph τ) : Bears R o g g := of_eq hR rfl

theorem trans (h : Bears R o g g') (h' : Bears R o g' g'') : Bears R o g g'' := by
  intro x hx
  have hr := h x hx
  have hr' := h' x hx
  cases ht : g'.tasks.lookup x with
  | none =>
    rw [ht] at hr hr'
    cases hl : g.tasks.lookup x with
    | none => exact hr'
    | some t =>
      rw [hl] at hr
      cases hr
  | some t' =>
    obtain ⟨t, hl, hrt⟩ := h.some_of hx ht
    obtain ⟨t'', hl'', hrt'⟩ := h'.some_to hx ht
    rw [hl, hl'']
    exact .some (hR.trans hrt hrt')

theorem modified {F : TaskHandle τ → TaskHandle τ} (ht : g'.tasks = g.tasks.modify id F)
    (hF : id ∉ o → ∀ t, g.tasks.lookup id = some t → R t (F t)) : Bears R o g g' := by
  intro x hx
  rw [ht, Finmap.lookup_modify]
  split
  · rename_i he
    subst he
    cases hl : g.tasks.lookup x with
    | none => exact .none
    | some t => exact .some (hF hx t hl)
  · exact refl hR g x hx

theorem modifyTask (g : Graph τ) (id : TaskId) {F : TaskHandle τ → TaskHandle τ}
    (hF : id ∉ o → ∀ t, g.tasks.lookup id = some t → R t (F t)) : Bears R o g (g.modifyTask id F) :=
  modified hR rfl hF

theorem inserted {t t' : TaskHandle τ} (hold : g.tasks.lookup id = some t) (ht : g'.tasks = g.tasks.insert id t')
    (hF : id ∉ o → R t t') : Bears R o g g' := by
  intro x hx
  rw [ht, Finmap.lookup_insert_ite]
  split
  · rename_i he
    subst he
    rw [hold]
    exact .some (hF hx)
  · exact refl hR g x hx

theorem foldl {β : Type} {body : Graph τ → β → Graph τ} {l : List β} (h : ∀ g, ∀ x ∈ l, Bears R o g (body g x))
    (g : Graph τ) : Bears R o g (l.foldl body g) :=
  Fold.foldl_rel (refl hR) (fun _ _ _ => trans hR) h g

theorem forEach (owner : TaskId) (s : Finset TaskId) {body : Graph τ → TaskId → Graph τ}
    (h : ∀ g x, Bears R o g (body g x)) (g : Graph τ) : Bears R o g (g.forEach owner s body) := by
  have htick : Bears R o g { g with tick := g.tick + 1 } := of_eq hR rfl
  exact htick.trans hR (foldl hR (fun g x _ => h g x) _)

omit hR in
theorem ite {p : Prop} [Decidable p] (h : p → Bears R o g g') (h' : ¬ p → Bears R o g g'') :
    Bears R o g (if p then g' else g'') := by
  split
  · exact h ‹_›
  · exact h' ‹_›

theorem enqueue (g : Graph τ) (id : TaskId) : Bears R o g (g.enqueue id) := by
  unfold Graph.enqueue
  exact ite (fun _ => of_eq hR rfl) fun _ => refl hR g

theorem enqueueParents (g : Graph τ) (id : TaskId) : Bears R o g (g.enqueueParents id) := forEach hR _ _ (enqueue hR) g

theorem note (g : Graph τ) (e : Happening) : Bears R o g (g.note e) := of_eq hR rfl

theorem scheduleStateTimeout (g : Graph τ) (id : TaskId) (delay : Duration) :
    Bears R o g (g.scheduleStateTimeout id delay) := by
  unfold Graph.scheduleStateTimeout
  exact ite (fun _ => modified hR rfl fun _ t _ => hR.timed t _) fun _ => refl hR g

theorem countActive (now : Bool) (g : Graph τ) (dep : TaskId) : Bears R o g (countActive now g dep) := by
  unfold Graph.countActive
  refine trans hR ?_ (enqueue hR _ dep)
  exact modifyTask hR g dep fun _ t _ => hR.counted t _ _

theorem putState {t : TaskHandle τ} {state : TaskState} (ht : g.tasks.lookup id = some t)
    (hs : id ∉ o → R t (t.setState state)) : Bears R o g (g.putState id t state) := by
  unfold Graph.putState
  simp only
  have hput : Bears R o g (g.enterState id t state) := inserted hR ht rfl hs
  have hqueued := hput.trans hR (enqueue hR _ id)
  have hparents : Bears R o g (if t.isSatisfied = (t.setState state).isSatisfied then _ else _) :=
    ite (fun _ => hqueued) fun _ => hqueued.trans hR (enqueueParents hR _ id)
  exact ite (fun _ => hparents) fun _ => hparents.trans hR (forEach hR _ _ (countActive hR _) _)

theorem addEdge (g : Graph τ) (src dst : TaskId) : Bears R o g (g.addEdge src dst) := by
  unfold Graph.addEdge
  refine ite (fun _ => refl hR g) fun _ => ite (fun _ => refl hR g) fun _ => ?_
  simp only
  refine trans hR ?_ (trans hR (trans hR (enqueue hR _ dst) (enqueue hR _ src)) (note hR _ _))
  exact ite (fun _ => refl hR g) fun _ => modified hR rfl fun _ t _ => hR.counted t _ _

theorem removeEdge (g : Graph τ) (src dst : TaskId) : Bears R o g (g.removeEdge src dst) := by
  unfold Graph.removeEdge
  simp only
  refine trans hR ?_ (trans hR (trans hR (enqueue hR _ dst) (enqueue hR _ src)) (note hR _ _))
  exact ite (fun _ => modified hR rfl fun _ t _ => hR.counted t _ _) fun _ => refl hR g

theorem setDeps (g : Graph τ) (id : TaskId) (deps : List TaskId) : Bears R o g (g.setDeps id deps) := by
  unfold Graph.setDeps
  exact trans hR (forEach hR _ _ (fun g dep => removeEdge hR g id dep) _)
    (foldl hR (fun g dep _ => addEdge hR g id dep) _)

theorem setVetoed (g : Graph τ) (id : TaskId) (value : Bool)
    (hv : id ∉ o → ∀ t, g.tasks.lookup id = some t → R t { t with vetoed := value }) :
    Bears R o g (g.setVetoed id value) := by
  unfold Graph.setVetoed
  split
  · exact refl hR g
  · refine ite (fun _ => refl hR g) fun _ => trans hR ?_ (trans hR (enqueue hR _ id) (note hR _ _))
    exact modifyTask hR g id hv

theorem setPin (g : Graph τ) (id : TaskId) (pinned : Bool)
    (hp : id ∉ o → ∀ t, g.tasks.lookup id = some t → R t { t with savedPin := false }) :
    Bears R o g (g.setPin id pinned) := by
  unfold Graph.setPin
  have hs : Bears R o g (g.modifyTask id fun t => { t with savedPin := false }) := modifyTask hR g id hp
  exact ite (fun _ => hs.trans hR (addEdge hR _ _ _)) fun _ => hs.trans hR (removeEdge hR _ _ _)

variable [Task τ]

theorem deliver (g : Graph τ) (source : TaskId) (notify : TaskNotify) (targets : Finset TaskId) :
    Bears R o g (g.deliver source notify targets) := by
  refine forEach hR _ _ (fun g listener => ?_) g
  unfold Graph.deliverTo
  split
  · have hset (task : τ) : Bears R o g (g.setTask listener task) := modifyTask hR g listener fun _ t _ => hR.handled t _
    exact (hset _).trans hR (of_eq hR rfl)
  · exact refl hR g

theorem notifySubscribers (g : Graph τ) (source : TaskId) (space : TaskSpaceId) (path : Option TaskPath)
    (notify : TaskNotify) : Bears R o g (g.notifySubscribers source space path notify) := deliver hR _ _ _ _

theorem notifyChanged (g : Graph τ) (id : TaskId) : Bears R o g (g.notifyChanged id) := by
  unfold Graph.notifyChanged
  split
  · exact notifySubscribers hR _ _ _ _ _
  · exact refl hR g

theorem sendCmd (g : Graph τ) (id : TaskId) (cmd : TaskCmd) : Bears R o g (g.sendCmd id cmd) := by
  have hnote : Bears R o g (g.noteSent id cmd) := by
    unfold noteSent
    split
    · exact note hR g _
    · exact refl hR g
  unfold Graph.sendCmd
  simp only
  split
  · have hset (task : τ) : Bears R o (g.noteSent id cmd) ((g.noteSent id cmd).setTask id task) :=
      modifyTask hR _ id fun _ t _ => hR.handled t _
    exact (hnote.trans hR (hset _)).trans hR (of_eq hR rfl)
  · exact hnote

theorem setState (g : Graph τ) (id : TaskId) (state : TaskState)
    (hs : id ∉ o → ∀ t, g.tasks.lookup id = some t → R t (t.setState state)) : Bears R o g (g.setState id state) := by
  unfold Graph.setState
  cases ht : g.tasks.lookup id with
  | none => exact refl hR g
  | some old =>
    refine ite (fun _ => refl hR g) fun _ => ?_
    exact ((putState hR ht fun hid => hs hid old ht).trans hR (note hR _ _)).trans hR (notifySubscribers hR _ _ _ _ _)

theorem stopTask (g : Graph τ) (id : TaskId) (startFailed : Bool)
    (hs : id ∉ o → ∀ t, g.tasks.lookup id = some t → R t (t.setState .stopping))
    (hf : id ∉ o → ∀ t, R t { t with startFailed }) : Bears R o g (g.stopTask id startFailed) := by
  unfold Graph.stopTask
  have hstop : Bears R o g (g.setState id .stopping) := setState hR g id .stopping hs
  simp only
  split
  · exact hstop
  · have hfail : Bears R o (g.setState id .stopping) ((g.setState id .stopping).modifyTask id fun t =>
        { t with startFailed }) := modifyTask hR _ id fun hid t _ => hf hid t
    exact ((hstop.trans hR hfail).trans hR (scheduleStateTimeout hR _ _ _)).trans hR (sendCmd hR _ _ _)

theorem hardKill (g : Graph τ) (id : TaskId)
    (hk : id ∉ o → ∀ t, R t { t with killed := true, epoch := t.epoch + 1 }) : Bears R o g (g.hardKill id) := by
  unfold Graph.hardKill
  have hm : Bears R o g (g.modifyTask id fun t => { t with killed := true, epoch := t.epoch + 1 }) :=
    modifyTask hR g id fun hid t _ => hk hid t
  exact (hm.trans hR (sendCmd hR _ _ _)).trans hR (scheduleStateTimeout hR _ _ _)

theorem stopIfActive (g : Graph τ) (id : TaskId)
    (hs : id ∉ o → ∀ t, t.state.isRunning = true → R t (t.setState .stopping))
    (hf : id ∉ o → ∀ t, R t { t with startFailed := false }) : Bears R o g (g.stopIfActive id) := by
  unfold Graph.stopIfActive
  cases ht : g.tasks.lookup id with
  | none => exact refl hR g
  | some t =>
    have hstop (ha : t.state.isRunning = true) : Bears R o g (g.stopTask id false) := by
      refine stopTask hR g id false (fun hid t' ht' => hs hid t' ?_) hf
      rwa [← Option.some.inj (ht.symm.trans ht')]
    simp only
    cases hst : t.state with
    | starting | running | ready => exact hstop (by rw [hst]; rfl)
    | idle | stopping | backoff | done | exited => exact refl hR g

theorem cmdKill (g : Graph τ) (id : TaskId) (hp : id ∉ o → ∀ t, R t { t with savedPin := false })
    (hs : id ∉ o → ∀ t, t.state.isRunning = true → R t (t.setState .stopping))
    (hk : id ∉ o → ∀ t, R t { t with killed := true, epoch := t.epoch + 1 }) : Bears R o g (g.cmdKill id) := by
  unfold Graph.cmdKill
  refine (setPin hR g id false fun hid t _ => hp hid t).trans hR ?_
  generalize g.setPin id false = g
  simp only
  cases ht : g.tasks.lookup id with
  | none => exact refl hR g
  | some t =>
    have hkill (ha : t.state.isRunning = true) : Bears R o g ((g.setState id .stopping).hardKill id) := by
      refine (setState hR g id .stopping fun hid t' ht' => hs hid t' ?_).trans hR (hardKill hR _ id hk)
      rwa [← Option.some.inj (ht.symm.trans ht')]
    simp only
    cases hst : t.state with
    | starting | running | ready => exact hkill (by rw [hst]; rfl)
    | stopping => exact hardKill hR g id hk
    | idle | backoff | done | exited => exact refl hR g

theorem demandOne (rerunDone : Bool) (target : TaskId) (g : Graph τ) (id : TaskId)
    (hf : id ∉ o → ∀ t, R t { t with startFailed := false }) (hv : id ∉ o → ∀ t, R t { t with vetoed := false })
    (hr : id ∉ o → ∀ t, revives rerunDone target id t.state = true → R t (t.setState .idle)) :
    Bears R o g (demandOne rerunDone target g id) := by
  unfold Graph.demandOne
  cases ht : g.tasks.lookup id with
  | none => exact refl hR g
  | some t =>
    simp only
    have hexcuse : ∃ g', (if t.startFailed = true then
        { g.modifyTask id (fun t => { t with startFailed := false }) with stateChanged := true } else g) = g' ∧
        Bears R o g g' ∧ g'.states id = some t.state := by
      split
      · refine ⟨_, rfl, modified hR rfl fun hid t _ => hf hid t, ?_⟩
        rw [states, show ({ g.modifyTask id (fun t => { t with startFailed := false }) with
          stateChanged := true } : Graph τ).tasks.lookup id = _ from lookup_modifyTask g id id _, if_pos rfl, ht]
        rfl
      · exact ⟨g, rfl, refl hR g, by rw [states, ht]; rfl⟩
    obtain ⟨g', hg', hb, hs⟩ := hexcuse
    rw [hg']
    have hspared := hb.trans hR (setVetoed hR g' id false fun hid t _ => hv hid t)
    refine ite (fun hrev => hspared.trans hR (setState hR _ id .idle fun hid t' ht' => hr hid t' ?_)) fun _ => hspared
    rw [← states_setVetoed g' id false, states, ht'] at hs
    rwa [← Option.some.inj hs] at hrev

theorem demand (g : Graph τ) (id : TaskId) (rerunDone : Bool)
    (hf : ∀ x ∈ g.closure id, x ∉ o → ∀ t, R t { t with startFailed := false })
    (hv : ∀ x ∈ g.closure id, x ∉ o → ∀ t, R t { t with vetoed := false })
    (hr : ∀ x ∈ g.closure id, x ∉ o → ∀ t, revives rerunDone id x t.state = true → R t (t.setState .idle)) :
    Bears R o g (g.demand id rerunDone) :=
  foldl hR (fun g x hx => demandOne hR rerunDone id g x (hf x hx) (hv x hx) (hr x hx)) g

end Bears

namespace Bears

variable [Task τ] (hR : Bearing.Lasting R)
include hR

omit [Task τ] in
theorem countWanted (now : Bool) (g : Graph τ) (dep : TaskId) : Bears R o g (countWanted now g dep) := by
  unfold Graph.countWanted
  refine trans hR.toBearing ?_ (enqueue hR.toBearing _ dep)
  exact modifyTask hR.toBearing g dep fun _ t _ => hR.counted t _ _

omit [Task τ] in
theorem recomputeWanted (g : Graph τ) (id : TaskId) : Bears R o g (g.recomputeWanted id) := by
  unfold Graph.recomputeWanted
  split
  · exact refl hR.toBearing g
  · refine ite (fun _ => refl hR.toBearing g) fun _ =>
      trans hR.toBearing ?_ (forEach hR.toBearing _ _ (countWanted hR _) _)
    exact modified hR.toBearing rfl fun _ t _ => hR.cached t _ t.supported

omit [Task τ] in
theorem recomputeSupported (g : Graph τ) (id : TaskId) : Bears R o g (g.recomputeSupported id) := by
  unfold Graph.recomputeSupported
  split
  · exact refl hR.toBearing g
  · refine ite (fun _ => refl hR.toBearing g) fun _ => trans hR.toBearing ?_ (enqueueParents hR.toBearing _ _)
    exact modifyTask hR.toBearing g id fun _ t _ => hR.cached t t.wanted _

omit [Task τ] in
theorem propagate (fuel : ℕ) (g : Graph τ) (toDrive : List TaskId) :
    Bears R o g (Graph.propagate fuel g toDrive).1 := by
  induction fuel generalizing g toDrive with
  | zero => exact refl hR.toBearing g
  | succ fuel ih =>
    unfold Graph.propagate
    cases h : g.popDirty with
    | none => exact refl hR.toBearing g
    | some r =>
      obtain ⟨id, g'⟩ := r
      obtain ⟨rest, -, rfl⟩ := popDirty_eq h
      have hpop : Bears R o g { g with dirty := rest, inQueue := g.inQueue.erase id } := of_eq hR.toBearing rfl
      refine (hpop.trans hR.toBearing ?_).trans hR.toBearing (ih _ _)
      unfold Graph.recomputeCaches
      refine ite (fun _ => ?_) fun _ => refl hR.toBearing _
      exact ((recomputeWanted hR _ id).trans hR.toBearing (recomputeSupported hR _ id)).trans hR.toBearing
        (note hR.toBearing _ _)

theorem landExit (g : Graph τ) (id : TaskId) (info : ExitInfo) : Bears R o g (g.landExit id info) := by
  unfold Graph.landExit
  split
  · exact refl hR.toBearing g
  · split
    · have ha : Bears R o g (g.modifyTask id fun t => { t with attempts := t.attempts + 1 }) :=
        modifyTask hR.toBearing g id fun _ t _ => hR.counts t _
      exact (ha.trans hR.toBearing (setState hR.toBearing _ id _ fun _ t _ => hR.entered t _)).trans hR.toBearing
        (scheduleStateTimeout hR.toBearing _ _ _)
    · exact setState hR.toBearing g id _ fun _ t _ => hR.entered t _

theorem onEffect (g : Graph τ) (id : TaskId) (effect : TaskEffect) : Bears R o g (g.onEffect id effect) := by
  have hset (g : Graph τ) (state : TaskState) : Bears R o g (g.setState id state) :=
    setState hR.toBearing g id state fun _ t _ => hR.entered t _
  have hsame := refl (o := o) hR.toBearing g
  cases effect with
  | started =>
    change Bears R o g (g.onTaskStarted id)
    unfold Graph.onTaskStarted
    split
    · exact hsame
    · split
      · simp only
        split
        · exact (hset g _).trans hR.toBearing (scheduleStateTimeout hR.toBearing _ _ _)
        · exact hset g _
      · exact hsame
  | ready =>
    change Bears R o g (g.onTaskReady id)
    unfold Graph.onTaskReady
    split
    · exact hsame
    · split
      · exact hset g _
      · exact hsame
  | stopped info =>
    change Bears R o g (g.onTaskStopped id info)
    unfold Graph.onTaskStopped
    split
    · exact hsame
    · rename_i t _
      have hexit : Bears R o g
        ((if g.stayedUp t then g.modifyTask id (fun t => { t with attempts := 0 }) else g).landExit
          id info) := by
        refine trans hR.toBearing (ite (fun _ => ?_) fun _ => hsame) (landExit hR _ _ _)
        exact modifyTask hR.toBearing g id fun _ t _ => hR.counts t _
      split
      · unfold Graph.landStop
        split
        · exact hsame
        · exact ite (fun _ => landExit hR g id _) fun _ => hset g _
      all_goals first | exact hexit | exact hsame

theorem startTask (g : Graph τ) (id : TaskId) : Bears R o g (g.startTask id) := by
  unfold Graph.startTask
  cases ht : g.tasks.lookup id with
  | none => exact refl hR.toBearing g
  | some old =>
    simp only
    have hput : Bears R o g { g with tasks := g.tasks.insert id (old.begun g.now) } :=
      inserted hR.toBearing ht rfl fun _ => hR.begun old g.now
    have hnoted := ite (p := old.kind = (old.begun g.now).kind) (fun _ => hput)
      fun _ => hput.trans hR.toBearing (notifyChanged hR.toBearing _ id)
    refine (hnoted.trans hR.toBearing (setState hR.toBearing _ id .starting fun _ t _ => hR.entered t _)).trans
      hR.toBearing ?_
    exact sendCmd hR.toBearing _ _ _

theorem driveTask (g : Graph τ) (id : TaskId) : Bears R o g (g.driveTask id) := by
  unfold Graph.driveTask
  have hsame := refl (o := o) hR.toBearing g
  split
  · exact hsame
  · split
    · split
      · exact startTask hR g id
      · exact hsame
    · have hstop : Bears R o g (if g.hasActiveDependent id then g else (g.stopTask id false).note (.drivenStop id)) :=
        ite (fun _ => hsame) fun _ => (stopTask hR.toBearing g id false (fun _ t _ => hR.entered t _)
          fun _ t => hR.failed t false).trans hR.toBearing (note hR.toBearing _ _)
      split
      iterate 3 exact hstop
      · exact setState hR.toBearing g id _ fun _ t _ => hR.entered t _
      all_goals exact hsame

theorem settleStep (h : g.settleStep = some g') : Bears R o g g' := by
  unfold Graph.settleStep at h
  split at h
  · rename_i id effect rest _
    obtain rfl := Option.some.inj h
    have hpop : Bears R o g { g with pendingEffects := rest } := of_eq hR.toBearing rfl
    exact hpop.trans hR.toBearing (onEffect hR _ id effect)
  · split at h
    · cases h
    · obtain rfl := Option.some.inj h
      exact trans hR.toBearing (propagate hR g.propagateFuel g [])
        (foldl hR.toBearing (fun g x _ => driveTask hR g x) _)

theorem settle (g : Graph τ) : Bears R o g g.settle := by
  unfold Graph.settle
  generalize g.settleBudget + 1 = n
  induction n generalizing g with
  | zero => exact refl hR.toBearing g
  | succ n ih =>
    unfold settleSteps
    cases h : g.settleStep with
    | none => exact refl hR.toBearing g
    | some g' => exact (settleStep hR h).trans hR.toBearing (ih g')

end Bears

end Graph

end Dekit
