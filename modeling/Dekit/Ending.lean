import Dekit.Answering
import Dekit.Located
import Dekit.Spending

namespace Dekit

open Flips

namespace View

variable {v : View} {id : TaskId} {p : TaskId → Phase} {s s' : TaskState} {kind : TaskKind}

def Phased (p : TaskId → Phase) (v : View) : Prop := ∀ x, p x = .during ↔ v.met x = true

theorem Once.setState (h : v.Once p) (hr : v.run id = some (s, kind)) (hid : p id = .during →
    (s.satisfies kind = true ∨ s.isOver = true → s'.satisfies kind = true ∨ s'.isOver = true) ∧
    (s.isOver = true → s.satisfies kind = false → s'.isOver = true ∧ s'.satisfies kind = false)) :
    (v.setState id s').Once p := by
  obtain ⟨ha, -, hrun⟩ := setState_keeps v id s'
  have hself : (v.setState id s').run id = some (s', kind) := by
    rw [hrun, if_pos rfl, hr]
    rfl
  refine h.change ha (fun x hx => by rw [hrun, if_neg hx]) fun hp s₀ kind₀ hr₀ => ?_
  rw [hr] at hr₀
  obtain ⟨rfl, rfl⟩ := Prod.mk.inj (Option.some.inj hr₀)
  rw [satisfied_eq, ended, hself]
  exact hid hp

theorem spent_setState (hid : id ∈ v.ids) (hr : v.run id = some (s, kind)) :
    (v.setState id s').spent p + s.cost (p id) = v.spent p + s'.cost (p id) := by
  obtain ⟨ha, -, hrun⟩ := setState_keeps v id s'
  have hself : (v.setState id s').run id = some (s', kind) := by
    rw [hrun, if_pos rfl, hr]
    rfl
  exact spent_change hid ha.ids hr hself fun x hx => by rw [hrun, if_neg hx]

theorem Phased.setState (h : Phased p v) (id : TaskId) (s : TaskState) : Phased p (v.setState id s) := by
  intro x
  rw [(setState_keeps v id s).2.1]
  exact h x

theorem Once.reported (h : v.Once p) (hid : id ∈ v.ids) (hr : v.run id = some (s, kind)) (hs : s.Reports s') :
    (v.setState id s').Once p ∧ (v.setState id s').spent p ≤ v.spent p := by
  constructor
  · refine h.setState hr fun _ => ?_
    cases hs with
    | none => exact ⟨fun h => h, fun h h' => ⟨h, h'⟩⟩
    | up hs hs' =>
      have hnot : s.satisfies kind = false ∧ s.isOver = false := by
        rcases hs with rfl | rfl <;> cases kind <;> exact ⟨rfl, rfl⟩
      rw [hnot.1, hnot.2]
      simp
    | exits hs hs' =>
      have hnot : s.isOver = false := by
        cases s <;> first | rfl | cases hs
      rw [hnot]
      exact ⟨fun _ => .inr hs', by simp⟩
    | lands hs hs' =>
      have hnot : s.satisfies kind = false ∧ s.isOver = false := by
        rw [hs]
        cases kind <;> exact ⟨rfl, rfl⟩
      rw [hnot.1, hnot.2]
      simp
  · have hsum : (v.setState id s').spent p + s.cost (p id) = v.spent p + s'.cost (p id) := spent_setState hid hr
    have hle := hs.cost_le (p id)
    omega

end View

namespace Graph

variable {τ : Type} {g g' : Graph τ} {id : TaskId} {p : TaskId → Phase}

theorem run_view {t : TaskHandle τ} (ht : g.tasks.lookup id = some t) : g.view.run id = some (t.state, t.kind) := by
  rw [View.run, view_node, ht]
  rfl

section reports

variable [Task τ]

theorem view_landExit {t : TaskHandle τ} (ht : g.tasks.lookup id = some t) (info : ExitInfo) :
    ∃ state, state.isOver = true ∧ (g.landExit id info).view = g.view.setState id state := by
  unfold landExit
  rw [ht]
  simp only
  rcases exitState_cases t info with ⟨i, hs⟩ | ⟨i, hs⟩ | ⟨i, hs⟩
  · rw [hs]
    refine ⟨.backoff i, rfl, ?_⟩
    simp only
    rw [view_scheduleStateTimeout, view_setState]
    refine congrArg (fun v => v.setState id (.backoff i)) (view_modifyTask_id g id _ ?_)
    exact fun _ => rfl
  · rw [hs]
    exact ⟨.done i, rfl, view_setState g id _⟩
  · rw [hs]
    exact ⟨.exited i, rfl, view_setState g id _⟩

theorem view_onEffect {t : TaskHandle τ} (ht : g.tasks.lookup id = some t) (effect : TaskEffect) :
    ∃ state, t.state.Reports state ∧ (g.onEffect id effect).view = g.view.setState id state := by
  have hnode : g.view.node id = some t.node := by rw [view_node, ht]; rfl
  have hnone : ∃ state, t.state.Reports state ∧ g.view = g.view.setState id state :=
    ⟨t.state, .none, (View.setState_of_eq hnode rfl).symm⟩
  cases effect with
  | started =>
    show ∃ state, t.state.Reports state ∧ (g.onTaskStarted id).view = _
    unfold onTaskStarted
    rw [ht]
    simp only
    cases hs : t.state with
    | starting =>
      refine ⟨t.startedState, .up (.inl rfl) ?_, ?_⟩
      · rcases startedState_cases t with h | h <;> rw [h] <;> rfl
      · simp only
        split
        · rw [view_scheduleStateTimeout, view_setState]
        · exact view_setState g id _
    | _ =>
      rw [hs] at hnone
      exact hnone
  | ready =>
    show ∃ state, t.state.Reports state ∧ (g.onTaskReady id).view = _
    unfold onTaskReady
    rw [ht]
    simp only
    cases hs : t.state with
    | running => exact ⟨.ready, .up (.inr rfl) rfl, view_setState g id _⟩
    | _ =>
      rw [hs] at hnone
      exact hnone
  | stopped info =>
    show ∃ state, t.state.Reports state ∧ (g.onTaskStopped id info).view = _
    unfold onTaskStopped
    rw [ht]
    simp only
    have hexits : ∃ state, state.isOver = true ∧
        ((if g.stayedUp t then g.modifyTask id (fun t => { t with attempts := 0 }) else g).landExit id info).view =
          g.view.setState id state := by
      split
      · have hview : (g.modifyTask id fun t => { t with attempts := 0 }).view = g.view :=
          view_modifyTask_id g id _ fun _ => rfl
        have ht' : (g.modifyTask id fun t => { t with attempts := 0 }).tasks.lookup id = some
          { t with attempts := 0 } := by
          rw [lookup_modifyTask, if_pos rfl, ht]
          rfl
        obtain ⟨state, hover, hv⟩ := view_landExit ht' info
        exact ⟨state, hover, by rw [hv, hview]⟩
      · exact view_landExit ht info
    cases hs : t.state with
    | stopping =>
      simp only
      unfold landStop
      rw [ht]
      simp only
      split
      · obtain ⟨state, hover, hv⟩ := view_landExit ht { info with readyTimeout := true }
        exact ⟨state, .lands rfl (.inr hover), hv⟩
      · exact ⟨.idle, .lands rfl (.inl rfl), view_setState g id _⟩
    | starting | running | ready =>
      obtain ⟨state, hover, hv⟩ := hexits
      exact ⟨state, .exits rfl hover, hv⟩
    | idle | backoff | done | exited =>
      rw [hs] at hnone
      exact hnone

theorem onEffect_absent (ht : g.tasks.lookup id = none) (effect : TaskEffect) : g.onEffect id effect = g := by
  refine onEffect_none ?_ effect
  rw [clock, ht]
  rfl

theorem Once.onEffect (hs : g.view.Shape) (h : g.view.Once p) (id : TaskId) (effect : TaskEffect) :
    (g.onEffect id effect).view.Once p ∧ (g.onEffect id effect).view.spent p ≤ g.view.spent p := by
  cases ht : g.tasks.lookup id with
  | none =>
    rw [onEffect_absent ht]
    exact ⟨h, le_rfl⟩
  | some t =>
    obtain ⟨state, hr, hv⟩ := view_onEffect ht effect
    rw [hv]
    have hid : id ∈ g.view.ids := hs.mem (n := t.node) (by rw [view_node, ht]; rfl)
    exact h.reported hid (run_view ht) hr

end reports

section rounds

theorem recomputeCaches_keeps (g : Graph τ) (id : TaskId) :
    View.Asked g.view (g.recomputeCaches id).view ∧ (g.recomputeCaches id).view.run = g.view.run ∧
      (g.recomputeCaches id).pendingEffects = g.pendingEffects := by
  have hp : (g.recomputeCaches id).pendingEffects = g.pendingEffects := by
    have hn := Counting.recomputeCaches g id
    generalize g.recomputeCaches id = g' at hn ⊢
    cases hn with
    | silent h => exact h.pendingEffects
    | noted h => exact h.pendingEffects
  by_cases hid : id ∈ g.tasks
  · rw [view_recomputeCaches g id hid]
    obtain ⟨ha, hr⟩ := View.recompute_keeps g.view id
    exact ⟨ha, hr, hp⟩
  · have hsame : g.recomputeCaches id = g := if_neg hid
    rw [hsame]
    exact ⟨.refl _, rfl, rfl⟩

theorem propagate_keeps (fuel : ℕ) (g : Graph τ) (L : List TaskId) :
    View.Asked g.view (propagate fuel g L).1.view ∧ (propagate fuel g L).1.view.run = g.view.run ∧
      (propagate fuel g L).1.pendingEffects = g.pendingEffects := by
  induction fuel generalizing g L with
  | zero => exact ⟨.refl _, rfl, rfl⟩
  | succ fuel ih =>
    unfold propagate
    cases hpop : g.popDirty with
    | none => exact ⟨.refl _, rfl, rfl⟩
    | some r =>
      obtain ⟨id, g'⟩ := r
      have hview := view_popDirty g id hpop
      have hpend : g'.pendingEffects = g.pendingEffects := by
        obtain ⟨rest, -, rfl⟩ := popDirty_eq hpop
        rfl
      obtain ⟨ha, hr, hp⟩ := recomputeCaches_keeps g' id
      obtain ⟨ha', hr', hp'⟩ := ih (g'.recomputeCaches id) (propagate.addSeen L id)
      have hasked : View.Asked g.view g'.view := by
        rw [hview]
        exact ⟨rfl, rfl, rfl, rfl⟩
      have hrun : g'.view.run = g.view.run := by
        rw [hview]
        rfl
      exact ⟨(hasked.trans ha).trans ha', (hr'.trans hr).trans hrun, (hp'.trans hp).trans hpend⟩

variable [Task τ]

theorem view_startTask {old : TaskHandle τ} (ht : g.tasks.lookup id = some old) :
    (g.startTask id).view = (g.view.setKind id (old.begun g.now).kind).setState id .starting := by
  have htn : (old.begun g.now).node = old.node.setKind (old.begun g.now).kind := by
    unfold TaskHandle.begun
    cases old.next <;> rfl
  unfold startTask
  rw [ht]
  simp only
  generalize old.begun g.now = t at htn ⊢
  have hput : ({ g with tasks := g.tasks.insert id t } : Graph τ).view = g.view.setKind id t.kind := view_replace ht htn
  rw [view_sendCmd, view_setState]
  split
  · rw [hput]
  · rw [(Quiet.notifyChanged _ _).view, hput]

/-- What is left of a round's drives. -/
structure Driving (p : TaskId → Phase) (g : Graph τ) : Prop where
  shape : g.view.Shape
  once : g.view.Once p
  phased : g.view.Phased p

def Paid (p : TaskId → Phase) (g g' : Graph τ) : Prop :=
  g' = g ∨ g'.pendingEffects.length + g'.view.spent p + 1 ≤ g.pendingEffects.length + g.view.spent p

theorem Driving.startTask (ht : Brief τ) (h : Driving p g) {t : TaskHandle τ} (hold : g.tasks.lookup id = some t)
    (hsup : t.supported = true) (hidle : t.state = .idle) : Driving p (g.startTask id) ∧ Paid p g (g.startTask id) := by
  have hq := Queues.startTask ht g id
  have hr := run_view hold
  have hp : p id = .during := (h.phased id).mpr (by rw [View.met, view_node, hold]; exact hsup)
  have hid : id ∈ g.view.ids := h.shape.mem (n := t.node) (by rw [view_node, hold]; rfl)
  have hview := view_startTask hold
  generalize (t.begun g.now).kind = kind at hview
  have hrun (x : TaskId) : (g.view.setKind id kind).run x =
      if x = id then (g.view.run x).map (fun r => (r.1, kind)) else g.view.run x := by
    simp only [View.run, View.setKind, View.revise_node, Finset.mem_singleton]
    split
    · cases g.view.node x <;> rfl
    · rfl
  have hself : (g.view.setKind id kind).run id = some (.idle, kind) := by rw [hrun, if_pos rfl, hr, hidle]; rfl
  have hasked : View.Asked g.view (g.view.setKind id kind) := .revise (f := .setKind kind) (fun _ => rfl) _ _
  have hidle' (kind : TaskKind) : TaskState.satisfies .idle kind = false := by cases kind <;> rfl
  -- An idle task satisfies nobody, so it may become one of another kind.
  have honce : (g.view.setKind id kind).Once p := by
    refine h.once.change hasked (fun x hx => by rw [hrun, if_neg hx]) fun _ s kind₀ hs => ?_
    rw [hr, hidle] at hs
    obtain ⟨rfl, rfl⟩ := Prod.mk.inj (Option.some.inj hs)
    simp [hidle', TaskState.isOver]
  have hphased : (g.view.setKind id kind).Phased p := by
    intro x
    rw [h.phased x]
    simp only [View.met, View.setKind, View.revise_node, Finset.mem_singleton]
    split
    · cases g.view.node x <;> exact Iff.rfl
    · exact Iff.rfl
  have hspent : (g.view.setKind id kind).spent p = g.view.spent p := by
    have hsum := View.spent_change (p := p) (w := g.view.setKind id kind) hid rfl (hidle ▸ hr) hself
      fun x hx => by rw [hrun, if_neg hx]
    omega
  refine ⟨⟨?_, ?_, ?_⟩, .inr ?_⟩
  · rw [hview]
    exact (h.shape.revise _ _).setState id _
  · rw [hview]
    exact honce.setState hself fun _ => by simp [hidle', TaskState.isOver]
  · rw [hview]
    exact hphased.setState id _
  · rw [hview]
    have hsum : ((g.view.setKind id kind).setState id .starting).spent p + TaskState.idle.cost (p id) =
        (g.view.setKind id kind).spent p + TaskState.starting.cost (p id) := View.spent_setState hid hself
    rw [hp, hspent] at hsum
    simp only [TaskState.cost] at hsum
    unfold Queues at hq
    omega

omit [Task τ] in
theorem Driving.leave (h : Driving p g) {t : TaskHandle τ} (hold : g.tasks.lookup id = some t)
    (hsup : t.supported = false) {state : TaskState} (hv : g'.view = g.view.setState id state) {k : ℕ}
    (hq : Queues k g g') (hcost : state.cost (p id) + k + 1 ≤ t.state.cost (p id)) :
    Driving p g' ∧ Paid p g g' := by
  have hr := run_view hold
  have hid : id ∈ g.view.ids := h.shape.mem (n := t.node) (by rw [view_node, hold]; rfl)
  have hp : p id ≠ .during := by
    rw [Ne, h.phased id, View.met, view_node, hold]
    simp [hsup]
  refine ⟨⟨?_, ?_, ?_⟩, .inr ?_⟩
  · rw [hv]
    exact h.shape.setState id _
  · rw [hv]
    exact h.once.setState hr fun hd => absurd hd hp
  · rw [hv]
    exact h.phased.setState id _
  · have hsum : (g.view.setState id state).spent p + t.state.cost (p id) = g.view.spent p + state.cost (p id) :=
      View.spent_setState hid hr
    rw [← hv] at hsum
    unfold Queues at hq
    omega

theorem Driving.driveTask (ht : Brief τ) (h : Driving p g) (id : TaskId) :
    Driving p (g.driveTask id) ∧ Paid p g (g.driveTask id) := by
  have hnothing : Driving p g ∧ Paid p g g := ⟨h, .inl rfl⟩
  unfold Graph.driveTask
  cases hold : g.tasks.lookup id with
  | none => exact hnothing
  | some t =>
    simp only
    cases hsup : t.supported with
    | true =>
      simp only [if_true]
      cases hs : t.state with
      | idle => exact h.startTask ht hold hsup hs
      | starting | running | ready | stopping | backoff | done | exited => exact hnothing
    | false =>
      have hp : p id ≠ .during := by
        rw [Ne, h.phased id, View.met, view_node, hold]
        simp [hsup]
      have hstop (hr : t.state.isRunning = true) : Driving p
          (if g.hasActiveDependent id then g else (g.stopTask id false).note (.drivenStop id)) ∧
          Paid p g (if g.hasActiveDependent id then g else (g.stopTask id false).note (.drivenStop id)) := by
        split
        · exact hnothing
        · refine h.leave hold hsup (view_stopTask g id false) (Queues.stopTask ht g id false) ?_
          cases hph : p id with
          | during => exact absurd hph hp
          | before | after => cases hs : t.state <;> simp [hs, TaskState.isRunning, TaskState.cost] at hr ⊢
      simp only [Bool.false_eq_true, if_false]
      cases hs : t.state with
      | starting | running | ready => exact hstop (by rw [hs]; rfl)
      | backoff info =>
        refine h.leave hold hsup (view_setState g id .idle) (Queues.setState ht g id .idle) ?_
        rw [hs]
        cases hph : p id with
        | during => exact absurd hph hp
        | before | after => simp [TaskState.cost]
      | idle | stopping | done | exited => exact hnothing

theorem Driving.driveTasks (ht : Brief τ) (h : Driving p g) (L : List TaskId) :
    Driving p (L.foldl Graph.driveTask g) ∧ Paid p g (L.foldl Graph.driveTask g) := by
  induction L generalizing g with
  | nil => exact ⟨h, .inl rfl⟩
  | cons id L ih =>
    obtain ⟨hd, hpaid⟩ := h.driveTask ht id
    obtain ⟨hd', hpaid'⟩ := ih hd
    refine ⟨hd', ?_⟩
    rcases hpaid with he | hle
    · rw [he] at hpaid'
      rwa [List.foldl_cons, he]
    · rcases hpaid' with he' | hle'
      · rw [List.foldl_cons, he']
        exact .inr hle
      · rw [List.foldl_cons]
        exact .inr (by omega)

end rounds

section settling

variable [Task τ]

/-- What settling may yet take: the reports that are queued, what the tasks cost, and a last round. -/
def owed (p : TaskId → Phase) (g : Graph τ) : ℕ :=
  g.pendingEffects.length + g.view.spent p + if g.pendingEffects = [] ∧ g.dirty = [] then 0 else 1

theorem reconcileRound_pays (ht : Brief τ) (hs : Sound ∅ g) (h : g.view.Once p) (hpend : g.pendingEffects = [])
    (hdirty : g.dirty ≠ []) : ∃ p', g.reconcileRound.view.Once p' ∧ owed p' g.reconcileRound + 1 ≤ owed p g := by
  have hfuel : g.view.potential ≤ g.propagateFuel := View.potential_le hs.shape
  obtain ⟨hsound, hempty⟩ := Sound.propagate (L := []) g.propagateFuel hs hfuel
  obtain ⟨ha, hr, hp⟩ := propagate_keeps g.propagateFuel g []
  unfold reconcileRound
  generalize propagate g.propagateFuel g [] = r at hsound hempty ha hr hp ⊢
  obtain ⟨g₁, L⟩ := r
  simp only at hsound hempty ha hr hp ⊢
  have honce : g₁.view.Once p := h.congr ha hr
  have hin : g₁.view.dirty = ∅ := by
    have hq := hsound.queued.1
    rw [hempty] at hq
    exact hq
  have hmet := View.met_iff hsound.shape hsound.counts hsound.fresh hin
  have hwf := hsound.shape.wellFounded_swap
  have hspent : g₁.view.spent (advance g₁.view.met p) ≤ g.view.spent p := by
    refine (View.spent_advance g₁.view.met fun x hx ha => ?_).trans_eq (View.spent_congr ha.ids hr)
    have hun := honce.unmet hwf (fun x d hm hd => ((hmet x).mp hm).2 d hd) x ha
    rw [hx] at hun
    cases hun
  have hdriving : Driving (advance g₁.view.met p) g₁ :=
    ⟨hsound.shape, honce.advance hwf hmet, fun x => advance_during⟩
  obtain ⟨hd, hpaid⟩ := hdriving.driveTasks ht L
  refine ⟨_, hd.once, ?_⟩
  have howed : owed p g = g.view.spent p + 1 := by
    unfold owed
    rw [if_neg fun hq => hdirty hq.2, hpend, List.length_nil, Nat.zero_add]
  have hnone : g₁.pendingEffects = [] := hp.trans hpend
  rw [howed]
  unfold owed
  rcases hpaid with he | hle
  · rw [he, if_pos ⟨hnone, hempty⟩, hnone, List.length_nil]
    omega
  · rw [hnone, List.length_nil] at hle
    split <;> omega

theorem settleStep_pays (ht : Brief τ) (hs : Sound ∅ g) (h : g.view.Once p) (hstep : g.settleStep = some g') :
    ∃ p', g'.view.Once p' ∧ owed p' g' + 1 ≤ owed p g := by
  unfold Graph.settleStep at hstep
  cases hpend : g.pendingEffects with
  | cons e rest =>
    obtain ⟨id, effect⟩ := e
    rw [hpend] at hstep
    obtain rfl := Option.some.inj hstep
    have hq := Queues.onEffect ht ({ g with pendingEffects := rest } : Graph τ) id effect
    obtain ⟨honce, hle⟩ := Once.onEffect (g := { g with pendingEffects := rest }) hs.shape h id effect
    refine ⟨p, honce, ?_⟩
    have hle : (({ g with pendingEffects := rest } : Graph τ).onEffect id effect).view.spent p ≤ g.view.spent p := hle
    unfold Queues at hq
    simp only at hq
    unfold owed
    rw [hpend, if_neg (show ¬ ((id, effect) :: rest = [] ∧ g.dirty = []) from fun hn => nomatch hn.1)]
    rw [List.length_cons]
    split <;> omega
  | nil =>
    rw [hpend] at hstep
    simp only at hstep
    split at hstep
    · cases hstep
    · rename_i hdirty
      obtain rfl := Option.some.inj hstep
      exact reconcileRound_pays ht hs h hpend fun hd => hdirty (by rw [hd]; rfl)

theorem settled_iff : g.settleStep = none ↔ g.pendingEffects = [] ∧ g.dirty = [] := by
  unfold Graph.settleStep
  cases g.pendingEffects with
  | cons e rest => simp
  | nil => simp

theorem settleSteps_ends (ht : Brief τ) (m : ℕ) (hs : Sound ∅ g) (h : g.view.Once p) (hm : owed p g ≤ m) :
    (settleSteps m g).pendingEffects = [] ∧ (settleSteps m g).dirty = [] := by
  induction m generalizing g p with
  | zero =>
    unfold owed at hm
    by_contra hn
    have hg : settleSteps 0 g = g := rfl
    rw [hg] at hn
    rw [if_neg hn] at hm
    omega
  | succ m ih =>
    unfold settleSteps
    cases hstep : g.settleStep with
    | none => exact settled_iff.mp hstep
    | some g' =>
      obtain ⟨p', h', hpaid⟩ := settleStep_pays ht hs h hstep
      exact ih (hs.settleStep hstep) h' (by omega)

theorem settleSteps_more {m n : ℕ} (hmn : m ≤ n) (h : (settleSteps m g).settleStep = none) :
    settleSteps n g = settleSteps m g := by
  induction m generalizing g n with
  | zero =>
    cases n with
    | zero => rfl
    | succ n =>
      have h : g.settleStep = none := h
      show settleSteps (n + 1) g = g
      unfold settleSteps
      rw [h]
  | succ m ih =>
    obtain ⟨n, rfl⟩ : ∃ k, n = k + 1 := ⟨n - 1, by omega⟩
    unfold settleSteps at h ⊢
    cases hstep : g.settleStep with
    | none => rfl
    | some g' =>
      rw [hstep] at h
      exact ih (by omega) h

theorem ends_within (ht : Brief τ) (hs : Sound ∅ g) {m : ℕ}
    (hm : g.pendingEffects.length + 11 * g.tasks.keys.card + 1 ≤ m) :
    (settleSteps m g).pendingEffects = [] ∧ (settleSteps m g).dirty = [] := by
  have hspent := View.spent_le (fun _ => .before) g.view
  have hcard : g.view.ids.card = g.tasks.keys.card := rfl
  refine settleSteps_ends ht m hs (p := fun _ => .before) .start ?_
  unfold owed
  split <;> omega

end settling

end Graph

end Dekit
