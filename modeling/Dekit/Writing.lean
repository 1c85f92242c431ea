import Dekit.Edits
import Dekit.Clocks

namespace Dekit.Graph

variable {τ : Type} {g g' g'' : Graph τ} {id : TaskId}

def records (g : Graph τ) : Records τ where
  quitting := g.quitting
  changed := g.stateChanged
  tasks x := (g.tasks.lookup x).map TaskHandle.record
  deps := g.edges
  tags := g.tags
  transitions := g.transitions

def margin (g : Graph τ) : Bool × Bool × (TaskId → Finset TaskId) × (String → Finset TaskId) × List Transition :=
  (g.quitting, g.stateChanged, g.edges, g.tags, g.transitions)

theorem records_eq (hm : g'.margin = g.margin) (ht : g'.records.tasks = g.records.tasks) : g'.records = g.records := by
  simp only [margin, Prod.mk.injEq] at hm
  obtain ⟨hq, hc, hd, hg, hl⟩ := hm
  exact Records.ext hq hc ht hd hg hl

theorem tasks_some {t : Record τ} (h : g.records.tasks id = some t) :
    ∃ t₀, g.tasks.lookup id = some t₀ ∧ t₀.record = t := Option.map_eq_some_iff.mp h

theorem tasks_of_lookup {t : TaskHandle τ} (h : g.tasks.lookup id = some t) : g.records.tasks id = some t.record := by
  simp [records, h]

theorem records_modify {F : TaskHandle τ → TaskHandle τ} {f : Record τ → Record τ}
    (ht : g'.tasks = g.tasks.modify id F) (hF : ∀ t, g.tasks.lookup id = some t → (F t).record = f t.record) :
    g'.records.tasks = (g.records.modify id f).tasks := by
  funext x
  simp only [records, Records.modify, ht, Finmap.lookup_modify]
  split
  · rename_i hx
    cases hl : g.tasks.lookup x with
    | none => rfl
    | some t => simp [hF t (hx ▸ hl)]
  · rfl

theorem records_modified {F : TaskHandle τ → TaskHandle τ} {f : Record τ → Record τ}
    (ht : g'.tasks = g.tasks.modify id F) (hF : ∀ t, g.tasks.lookup id = some t → (F t).record = f t.record)
    (hm : g'.margin = g.margin) : g'.records = g.records.modify id f := by
  simp only [margin, Prod.mk.injEq] at hm
  obtain ⟨hq, hc, hd, hg, hl⟩ := hm
  have hr := records_modify ht hF
  exact Records.ext hq hc hr hd hg hl

theorem records_changed {F : TaskHandle τ → TaskHandle τ} {f : Record τ → Record τ}
    (ht : g'.tasks = g.tasks.modify id F) (hF : ∀ t, g.tasks.lookup id = some t → (F t).record = f t.record)
    (hm : g'.margin = { g with stateChanged := true }.margin) :
    g'.records = { g.records.modify id f with changed := true } := by
  simp only [margin, Prod.mk.injEq] at hm
  obtain ⟨hq, hc, hd, hg, hl⟩ := hm
  have hr := records_modify ht hF
  exact Records.ext hq hc hr hd hg hl

variable [Task τ]

/-- Nothing is written down: handlers hear of something, and tasks are queued. -/
structure Aside (g g' : Graph τ) : Prop where
  records : g'.records = g.records
  effects : ∀ e ∈ g'.pendingEffects, e ∈ g.pendingEffects ∨ ∃ (t : τ) (cmd : TaskCmd), e.2 ∈ (Task.handleCmd t cmd).2

namespace Aside

theorem refl (g : Graph τ) : Aside g g := ⟨rfl, fun _ h => .inl h⟩

theorem trans (h : Aside g g') (h' : Aside g' g'') : Aside g g'' := by
  refine ⟨h'.records.trans h.records, fun e he => ?_⟩
  rcases h'.effects e he with he | he
  · exact h.effects e he
  · exact .inr he

theorem of_eq (hr : g'.records = g.records) (hp : g'.pendingEffects = g.pendingEffects) : Aside g g' :=
  ⟨hr, fun _ h => .inl (hp ▸ h)⟩

theorem foldl {β : Type} {body : Graph τ → β → Graph τ} (h : ∀ g x, Aside g (body g x)) (l : List β) (g : Graph τ) :
    Aside g (l.foldl body g) :=
  Fold.foldl_rel refl (fun _ _ _ => trans) (fun g x _ => h g x) g

theorem forEach (owner : TaskId) (s : Finset TaskId) {body : Graph τ → TaskId → Graph τ}
    (h : ∀ g x, Aside g (body g x)) : Aside g (g.forEach owner s body) := by
  have htick : Aside g { g with tick := g.tick + 1 } := of_eq rfl rfl
  exact htick.trans (foldl h (g.walk owner s) _)

theorem modified {F : TaskHandle τ → TaskHandle τ} (ht : g'.tasks = g.tasks.modify id F)
    (hF : ∀ t, (F t).record = t.record) (hm : g'.margin = g.margin) (hp : g'.pendingEffects = g.pendingEffects) :
    Aside g g' := by
  refine of_eq (records_eq hm ?_) hp
  rw [records_modify (f := fun t => t) ht fun t _ => hF t]
  funext x
  rw [Records.tasks_modify]
  split
  · exact Option.map_id'
  · rfl

theorem enqueue (g : Graph τ) (id : TaskId) : Aside g (g.enqueue id) := by
  unfold Graph.enqueue
  split
  · exact of_eq rfl rfl
  · exact refl g

theorem enqueueParents (g : Graph τ) (id : TaskId) : Aside g (g.enqueueParents id) := forEach _ _ enqueue

theorem note (g : Graph τ) (e : Happening) : Aside g (g.note e) := of_eq rfl rfl

theorem answerIf (g : Graph τ) (ack : Option ReplyId) (a : Answer) : Aside g (g.answerIf ack a) := by
  cases ack <;> exact of_eq rfl rfl

theorem queueEffects (g : Graph τ) (id : TaskId) (t : τ) (cmd : TaskCmd) :
    Aside g (g.queueEffects id (Task.handleCmd t cmd).2) := by
  refine ⟨rfl, fun e he => ?_⟩
  rcases List.mem_append.mp he with he | he
  · exact .inl he
  · obtain ⟨fx, hfx, rfl⟩ := List.mem_map.mp he
    exact .inr ⟨t, cmd, hfx⟩

theorem setTask (g : Graph τ) (id : TaskId) (task : τ) : Aside g (g.setTask id task) :=
  modified rfl (fun _ => rfl) rfl rfl

theorem deliverTo (source : TaskId) (notify : TaskNotify) (g : Graph τ) (listener : TaskId) :
    Aside g (deliverTo source notify g listener) := by
  unfold Graph.deliverTo
  cases g.tasks.lookup listener with
  | none => exact refl g
  | some t => exact (setTask g _ _).trans (queueEffects _ _ t.task _)

theorem deliver (g : Graph τ) (source : TaskId) (notify : TaskNotify) (targets : Finset TaskId) :
    Aside g (g.deliver source notify targets) := forEach _ _ (deliverTo source notify)

theorem notifySubscribers (g : Graph τ) (source : TaskId) (space : TaskSpaceId) (path : Option TaskPath)
    (notify : TaskNotify) : Aside g (g.notifySubscribers source space path notify) := deliver _ _ _ _

theorem notifyChanged (g : Graph τ) (id : TaskId) : Aside g (g.notifyChanged id) := by
  unfold Graph.notifyChanged
  cases g.tasks.lookup id with
  | none => exact refl g
  | some t => exact notifySubscribers _ _ _ _ _

theorem sendCmd (g : Graph τ) (id : TaskId) (cmd : TaskCmd) : Aside g (g.sendCmd id cmd) := by
  unfold Graph.sendCmd
  have hnote : Aside g (g.noteSent id cmd) := by
    unfold noteSent
    split
    · exact note g _
    · exact refl g
  simp only
  cases (g.noteSent id cmd).tasks.lookup id with
  | none => exact hnote
  | some t => exact (hnote.trans (setTask _ _ _)).trans (queueEffects _ _ t.task _)

theorem scheduleStateTimeout (g : Graph τ) (id : TaskId) (delay : Duration) :
    Aside g (g.scheduleStateTimeout id delay) := by
  unfold Graph.scheduleStateTimeout
  split
  · exact modified rfl (fun _ => rfl) rfl rfl
  · exact refl g

theorem countActive (now : Bool) (g : Graph τ) (dep : TaskId) : Aside g (countActive now g dep) := by
  unfold Graph.countActive
  refine trans ?_ (enqueue _ dep)
  exact modified rfl (fun _ => rfl) rfl rfl

theorem ite {p : Prop} [Decidable p] (h : Aside g g') (h' : Aside g g'') : Aside g (if p then g' else g'') := by
  split
  · exact h
  · exact h'

theorem queued (g : Graph τ) (id : TaskId) (same still : Prop) [Decidable same] [Decidable still] (now : Bool) :
    let g₁ := g.enqueue id
    let g₂ := if same then g₁ else g₁.enqueueParents id
    Aside g (if still then g₂ else g₂.forEach id (g₂.edges id) (Graph.countActive now)) := by
  intro g₁ g₂
  have h₂ : Aside g g₂ := ite (enqueue g id) ((enqueue g id).trans (enqueueParents _ _))
  exact ite h₂ (h₂.trans (forEach _ _ (countActive now)))

end Aside

variable {I : Terms τ} {c : Cause}

def Told (I : Terms τ) (g : Graph τ) : Prop := ∀ id info,
    (id, TaskEffect.stopped info) ∈ g.pendingEffects → I.reports info

theorem Told.aside (h : Told I g) (ha : Aside g g') : Told I g' := by
  intro id info he
  rcases ha.effects _ he with he | ⟨t, cmd, he⟩
  · exact h id info he
  · exact I.answers t cmd info he

def Writes (I : Terms τ) (c : Cause) (g g' : Graph τ) : Prop :=
  Told I g → g.records.Sane I → Told I g' ∧ Edits I c g.records g'.records

namespace Writes

theorem aside (h : Aside g g') : Writes I c g g' := by
  intro ht _
  refine ⟨ht.aside h, ?_⟩
  rw [h.records]
  exact .refl

theorem refl (g : Graph τ) : Writes I c g g := aside (.refl g)

theorem trans (h : Writes I c g g') (h' : Writes I c g' g'') : Writes I c g g'' := by
  intro ht hs
  obtain ⟨ht', he⟩ := h ht hs
  obtain ⟨ht'', he'⟩ := h' ht' (he.sane hs)
  exact ⟨ht'', he.trans he'⟩

theorem andThen (h : Writes I c g g') (h' : Aside g' g'') : Writes I c g g'' := h.trans (aside h')

theorem raise (h : Writes I .itself g g') (c : Cause) : Writes I c g g' := by
  intro ht hs
  obtain ⟨ht', he⟩ := h ht hs
  exact ⟨ht', he.raise c⟩

theorem foldl {β : Type} {body : Graph τ → β → Graph τ} {l : List β} (h : ∀ g, ∀ x ∈ l, Writes I c g (body g x))
    (g : Graph τ) : Writes I c g (l.foldl body g) :=
  Fold.foldl_rel refl (fun _ _ _ => trans) h g

theorem edit (he : g.records.Sane I → Edit I c g.records g'.records)
    (hp : ∀ e ∈ g'.pendingEffects, e ∈ g.pendingEffects) : Writes I c g g' := by
  intro ht hs
  exact ⟨fun id info h => ht id info (hp _ h), .single (he hs)⟩

end Writes

section lifecycle

variable {state : TaskState} {t : TaskHandle τ}

theorem written_setState (ht : g.tasks.lookup id = some t) (hne : t.state ≠ state) :
    ∃ g', g'.records = g.records.enterState id t.record state ∧
      g'.pendingEffects = g.pendingEffects ∧ Aside g' (g.setState id state) := by
  unfold Graph.setState
  simp only [ht]
  rw [if_neg hne]
  refine ⟨g.enterState id t state, ?_, rfl, ?_⟩
  · have hm : g.tasks.insert id (t.setState state) = g.tasks.modify id (fun t => t.setState state) :=
      Finmap.insert_eq_modify g.tasks ht rfl
    have hr : (g.enterState id t state).records.tasks = (g.records.modify id (Record.enter state)).tasks :=
      records_modify hm fun _ _ => rfl
    exact Records.ext rfl rfl hr rfl rfl rfl
  · refine Aside.trans (Aside.trans ?_ (.note _ _)) (.notifySubscribers _ _ _ _ _)
    exact .queued _ _ _ _ _

theorem setState_same (ht : g.tasks.lookup id = some t) : g.setState id t.state = g := by
  unfold Graph.setState
  simp [ht]

theorem setState_none (ht : g.tasks.lookup id = none) : g.setState id state = g := by
  unfold Graph.setState
  simp only [ht]

namespace Writes

theorem written {s : Records τ} (hr : g'.records = s) (hp : g'.pendingEffects = g.pendingEffects)
    (he : g.records.Sane I → Edit I c g.records s) : Writes I c g g' :=
  edit (fun hs => hr ▸ he hs) fun _ h => hp ▸ h

theorem setState (hl : ∀ t, g.tasks.lookup id = some t → t.state ≠ state → Leads I t.record c state) :
    Writes I c g (g.setState id state) := by
  cases ht : g.tasks.lookup id with
  | none =>
    rw [setState_none ht]
    exact refl g
  | some t =>
    by_cases hs : t.state = state
    · have hsame := setState_same ht
      rw [hs] at hsame
      rw [hsame]
      exact refl g
    · obtain ⟨g', hr, hp, ha⟩ := written_setState ht hs
      have he : Writes I c g g' := written hr hp fun _ => .entered (tasks_of_lookup ht) (hl t ht hs)
      exact he.andThen ha

theorem modifyTask {F : TaskHandle τ → TaskHandle τ} {f : Record τ → Record τ} (ht : g'.tasks = g.tasks.modify id F)
    (hF : ∀ t, (F t).record = f t.record) (hm : g'.margin = g.margin) (hp : g'.pendingEffects = g.pendingEffects)
    (he : g.records.Sane I → Edit I c g.records (g.records.modify id f)) : Writes I c g g' :=
  written (records_modified ht (fun t _ => hF t) hm) hp he

theorem changeTask {F : TaskHandle τ → TaskHandle τ} {f : Record τ → Record τ} (ht : g'.tasks = g.tasks.modify id F)
    (hF : ∀ t, (F t).record = f t.record) (hm : g'.margin = { g with stateChanged := true }.margin)
    (hp : g'.pendingEffects = g.pendingEffects)
    (he : g.records.Sane I → Edit I c g.records { g.records.modify id f with changed := true }) : Writes I c g g' :=
  written (records_changed ht (fun t _ => hF t) hm) hp he

theorem stopTask {startFailed : Bool} (ht : g.tasks.lookup id = some t)
    (hs : t.state = .starting ∨ t.state = .running ∨ t.state = .ready)
    (hf : startFailed = true → t.ready.timeout.isSome = true) : Writes I c g (g.stopTask id startFailed) := by
  have hne : t.state ≠ .stopping := by
    rcases hs with hs | hs | hs <;> rw [hs] <;> simp
  have hset : Writes I c g (g.setState id .stopping) := by
    apply setState
    intro t' ht' _
    obtain rfl : t = t' := Option.some.inj (ht.symm.trans ht')
    exact .stops hs
  obtain ⟨g', hr, -, ha⟩ := written_setState ht hne
  have hrec : (g.setState id .stopping).records = _ := ha.records.trans hr
  have hstop : (g.setState id .stopping).records.tasks id = some (t.record.enter .stopping) := by
    rw [hrec, Records.tasks_enterState, Records.tasks_modify, if_pos rfl, tasks_of_lookup ht]
    rfl
  obtain ⟨t', ht', htr⟩ := tasks_some hstop
  unfold Graph.stopTask
  simp only [ht']
  refine andThen (andThen ?_ (.scheduleStateTimeout _ _ _)) (.sendCmd _ _ _)
  refine hset.trans ?_
  cases startFailed with
  | true =>
    refine modifyTask rfl (f := fun t => { t with startFailed := true }) (fun _ => rfl) rfl rfl fun _ => ?_
    refine .failed hstop rfl ?_ ?_
    · exact hf rfl
    · rw [hrec, Records.changed_enterState]
  | false =>
    refine aside (.of_eq (records_eq rfl ?_) rfl)
    have hF : (g.setState id .stopping).records.modify id (fun t => { t with startFailed := false }) =
        (g.setState id .stopping).records := by
      refine Records.ext rfl rfl ?_ rfl rfl rfl
      funext x
      rw [Records.tasks_modify]
      split
      · rename_i hx
        rw [hx, hstop]
        rfl
      · rfl
    have hm : ((g.setState id .stopping).modifyTask id fun t => { t with startFailed := false }).records.tasks =
        ((g.setState id .stopping).records.modify id fun t => { t with startFailed := false }).tasks :=
      records_modify rfl fun _ _ => rfl
    exact hm.trans (congrArg Records.tasks hF)

theorem hardKill (ht : g.tasks.lookup id = some t) (hs : t.state = .stopping) : Writes I c g (g.hardKill id) := by
  unfold Graph.hardKill
  refine andThen (andThen ?_ (.sendCmd _ _ _)) (.scheduleStateTimeout _ _ _)
  refine modifyTask rfl (f := fun t => { t with killed := true, epoch := t.epoch + 1 })
    (fun _ => rfl) rfl rfl fun _ => ?_
  exact .killed (tasks_of_lookup ht) hs

theorem landExit {info : ExitInfo} (ht : g.tasks.lookup id = some t) (hl : Leads I t.record c (t.exitState info)) :
    Writes I c g (g.landExit id info) := by
  unfold Graph.landExit
  simp only [ht]
  have hset (g' : Graph τ) (ha : Aside g g') : Writes I c g (g'.setState id (t.exitState info)) := by
    refine (aside ha).trans (setState fun t' ht' _ => ?_)
    have hrec := congrFun (congrArg Records.tasks ha.records) id
    rw [tasks_of_lookup ht, tasks_of_lookup ht', Option.some.injEq] at hrec
    rw [hrec]
    exact hl
  rcases exitState_cases t info with ⟨i, hi⟩ | ⟨i, hi⟩ | ⟨i, hi⟩
  · rw [hi] at hset ⊢
    refine andThen (hset _ ?_) (.scheduleStateTimeout _ _ _)
    exact .modified rfl (fun _ => rfl) rfl rfl
  · rw [hi] at hset ⊢
    exact hset g (.refl g)
  · rw [hi] at hset ⊢
    exact hset g (.refl g)

theorem landStop (ht : g.tasks.lookup id = some t) (hs : t.state = .stopping) (info : ExitInfo) :
    Writes I c g (g.landStop id info) := by
  unfold Graph.landStop
  simp only [ht]
  split
  · rename_i hf
    exact landExit ht (.fails hs hf rfl)
  · rename_i hf
    apply setState
    intro t' ht' _
    obtain rfl : t = t' := Option.some.inj (ht.symm.trans ht')
    exact .lands hs (eq_false_of_ne_true hf)

theorem giveUp (ht : g.tasks.lookup id = some t) (hs : t.state = .stopping) (startFailed : Bool) :
    Writes I c g (g.giveUp id startFailed) := by
  unfold Graph.giveUp
  simp only
  have hland : Writes I c g (g.landStop id .error) := landStop ht hs _
  cases ht' : (g.landStop id .error).tasks.lookup id with
  | none => exact hland
  | some t' =>
    simp only
    split
    · rename_i hidle
      refine hland.trans ?_
      refine changeTask rfl (f := fun t => { t with stopTimedOut := true }) (fun _ => rfl) rfl rfl fun _ => ?_
      exact .gaveUp (tasks_of_lookup ht') hidle.2
    · exact hland

theorem onStateTimeout (g : Graph τ) (id : TaskId) (epoch : ℕ) : Writes I c g (g.onStateTimeout id epoch) := by
  unfold Graph.onStateTimeout
  cases ht : g.tasks.lookup id with
  | none => exact refl g
  | some t =>
    simp only
    split
    · exact refl g
    · have ha : Aside g { g.modifyTask id (fun t => { t with deadline := none }) with
          timerChanges := g.timerChanges ++ [id] } := .modified rfl (fun _ => rfl) rfl rfl
      have ht' : ({ g.modifyTask id (fun t => { t with deadline := none }) with
          timerChanges := g.timerChanges ++ [id] } : Graph τ).tasks.lookup id = some { t with deadline := none } := by
        rw [show ({ g.modifyTask id (fun t => { t with deadline := none }) with
          timerChanges := g.timerChanges ++ [id] } : Graph τ).tasks.lookup id = _ from lookup_modifyTask g id id _,
          if_pos rfl, ht]
        rfl
      generalize ({ g.modifyTask id (fun t => { t with deadline := none }) with
          timerChanges := g.timerChanges ++ [id] } : Graph τ) = g' at ha ht' ⊢
      refine (aside ha).trans ?_
      cases hs : t.state with
      | backoff info =>
        apply setState
        intro t₁ ht₁ _
        obtain rfl := Option.some.inj (ht'.symm.trans ht₁)
        exact .retries hs
      | stopping =>
        simp only
        split
        · exact giveUp ht' hs _
        · exact hardKill ht' hs
      | running =>
        simp only
        split
        · rename_i hr
          exact stopTask ht' (.inr (.inl hs)) fun _ => hr
        · exact refl g'
      | idle | starting | ready | done | exited => exact refl g'

theorem onTaskStarted (g : Graph τ) (id : TaskId) : Writes I c g (g.onTaskStarted id) := by
  unfold Graph.onTaskStarted
  cases ht : g.tasks.lookup id with
  | none => exact refl g
  | some t =>
    simp only
    cases hs : t.state with
    | starting =>
      simp only
      have hset : Writes I c g (g.setState id t.startedState) := by
        apply setState
        intro t' ht' _
        obtain rfl : t = t' := Option.some.inj (ht.symm.trans ht')
        exact .started hs
      split
      · exact hset.andThen (.scheduleStateTimeout _ _ _)
      · exact hset
    | idle | running | ready | stopping | backoff | done | exited => exact refl g

theorem onTaskReady (g : Graph τ) (id : TaskId) : Writes I c g (g.onTaskReady id) := by
  unfold Graph.onTaskReady
  cases ht : g.tasks.lookup id with
  | none => exact refl g
  | some t =>
    simp only
    cases hs : t.state with
    | running =>
      apply setState
      intro t' ht' _
      obtain rfl : t = t' := Option.some.inj (ht.symm.trans ht')
      exact .ready hs
    | idle | starting | ready | stopping | backoff | done | exited => exact refl g

theorem onTaskStopped {info : ExitInfo} (g : Graph τ) (id : TaskId) (hi : I.reports info) :
    Writes I c g (g.onTaskStopped id info) := by
  unfold Graph.onTaskStopped
  cases ht : g.tasks.lookup id with
  | none => exact refl g
  | some t =>
    simp only
    have hexit (hs : t.state = .starting ∨ t.state = .running ∨ t.state = .ready) : Writes I c g
        ((if g.stayedUp t then g.modifyTask id (fun t => { t with attempts := 0 }) else g).landExit id info) := by
      split
      · have ha : Aside g (g.modifyTask id (fun t => { t with attempts := 0 })) := .modified rfl (fun _ => rfl) rfl rfl
        have ht' : (g.modifyTask id (fun t => { t with attempts := 0 })).tasks.lookup id =
            some { t with attempts := 0 } := by
          rw [lookup_modifyTask, if_pos rfl, ht]
          rfl
        exact (aside ha).trans (landExit ht' (.ends hs hi))
      · exact landExit ht (.ends hs hi)
    cases hs : t.state with
    | stopping => exact landStop ht hs info
    | starting => exact hexit (.inl hs)
    | running => exact hexit (.inr (.inl hs))
    | ready => exact hexit (.inr (.inr hs))
    | idle | backoff | done | exited => exact refl g

theorem onEffect {effect : TaskEffect} (g : Graph τ) (id : TaskId)
    (he : ∀ info, effect = .stopped info → I.reports info) : Writes I c g (g.onEffect id effect) := by
  cases effect with
  | started => exact onTaskStarted g id
  | ready => exact onTaskReady g id
  | stopped info => exact onTaskStopped g id (he info rfl)

theorem startTask (ht : g.tasks.lookup id = some t) (hs : t.state = .idle) (hsup : t.supported = true) :
    Writes I c g (g.startTask id) := by
  unfold Graph.startTask
  simp only [ht]
  refine andThen ?_ (.sendCmd _ _ _)
  have hput : Writes I c g { g with tasks := g.tasks.insert id (t.begun g.now) } := by
    have hm : g.tasks.insert id (t.begun g.now) = g.tasks.modify id (fun t => t.begun g.now) :=
      Finmap.insert_eq_modify g.tasks ht rfl
    have hF (t' : TaskHandle τ) (ht' : g.tasks.lookup id = some t') : (t'.begun g.now).record =
        { t'.record with kind := (t.begun g.now).kind, ready := (t.begun g.now).ready } := by
      obtain rfl : t = t' := Option.some.inj (ht.symm.trans ht')
      unfold TaskHandle.begun
      cases t.next <;> rfl
    refine written (records_modified (f := fun r => { r with
        kind := (t.begun g.now).kind, ready := (t.begun g.now).ready }) hm hF rfl) rfl fun _ => ?_
    exact .adopted _ _ (tasks_of_lookup ht) hs
  have ht' : ({ g with tasks := g.tasks.insert id (t.begun g.now) } : Graph τ).tasks.lookup id =
      some (t.begun g.now) := by simp
  have hb : (t.begun g.now).state = .idle ∧ (t.begun g.now).supported = true := by
    unfold TaskHandle.begun
    cases t.next <;> exact ⟨hs, hsup⟩
  generalize t.begun g.now = t' at hput ht' hb ⊢
  generalize ({ g with tasks := g.tasks.insert id t' } : Graph τ) = g' at hput ht' ⊢
  have hq : Aside g' (if t.kind = t'.kind then g' else g'.notifyChanged id) := .ite (.refl _) (.notifyChanged _ _)
  refine (hput.andThen hq).trans (setState fun t₁ ht₁ _ => ?_)
  have hrec := congrFun (congrArg Records.tasks hq.records) id
  rw [tasks_of_lookup ht', tasks_of_lookup ht₁, Option.some.injEq] at hrec
  rw [hrec]
  exact .starts hb.1 hb.2

end Writes

end lifecycle

end Dekit.Graph
