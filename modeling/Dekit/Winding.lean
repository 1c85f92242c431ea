import Dekit.Ending
import Dekit.Lib.CriticalPath

namespace Dekit

namespace Clock

variable {c c' c'' : Clock} {now now' : ℕ}

def alarm (c : Clock) : ℕ := c.deadline.getD 0

/-- By when a task is down at the latest, if it is stopped now at the latest. -/
def latest (now : ℕ) (c : Clock) : ℕ :=
  match c.state with
  | .stopping => max c.alarm now + if c.killed then 0 else killWait
  | .starting | .running | .ready => now + c.stopTimeout + killWait
  | .idle | .backoff _ | .done _ | .exited _ => 0

/-- What may become of a task that is not started again. -/
structure Winds (now : ℕ) (c c' : Clock) : Prop where
  active : c'.state.isActive = true → c.state.isActive = true
  running : c'.state.isRunning = true → c.state.isRunning = true
  latest : c'.state.isActive = true → c'.latest now ≤ c.latest now

theorem Winds.refl (now : ℕ) (c : Clock) : Winds now c c := ⟨id, id, fun _ => le_rfl⟩

theorem Winds.trans (h : Winds now c c') (h' : Winds now c' c'') : Winds now c c'' where
  active ha := h.active (h'.active ha)
  running hr := h.running (h'.running hr)
  latest ha := (h'.latest ha).trans (h.latest (h'.active ha))

theorem Winds.down (hs : c'.state.isActive = false) : Winds now c c' := by
  refine ⟨fun ha => ?_, fun hr => ?_, fun ha => ?_⟩
  · rw [hs] at ha
    cases ha
  · cases hst : c'.state <;> simp [hst, TaskState.isActive, TaskState.isRunning] at hs hr
  · rw [hs] at ha
    cases ha

theorem latest_running (hr : c.state.isRunning = true) : c.latest now = now + c.stopTimeout + killWait := by
  unfold latest
  cases hs : c.state <;> simp [hs, TaskState.isRunning] at hr ⊢

theorem latest_stopping (hs : c.state = .stopping) :
    c.latest now = max c.alarm now + if c.killed then 0 else killWait := by
  unfold latest
  rw [hs]

theorem active_cases (ha : c.state.isActive = true) : c.state = .stopping ∨ c.state.isRunning = true := by
  cases hs : c.state <;> simp [hs, TaskState.isActive, TaskState.isRunning] at ha ⊢

theorem active_of_running (hr : c.state.isRunning = true) : c.state.isActive = true := by
  cases hs : c.state <;> simp [hs, TaskState.isActive, TaskState.isRunning] at hr ⊢

theorem Winds.on (hr : c.state.isRunning = true) (hr' : c'.state.isRunning = true)
    (ht : c'.stopTimeout = c.stopTimeout) : Winds now c c' := by
  refine ⟨fun _ => active_of_running hr, fun _ => hr, fun _ => ?_⟩
  rw [latest_running hr, latest_running hr', ht]

theorem Winds.stop (hr : c.state.isRunning = true) (hs : c'.state = .stopping)
    (hd : c'.deadline = some (now + c.stopTimeout)) : Winds now c c' := by
  refine ⟨fun _ => active_of_running hr, fun hr' => ?_, fun _ => ?_⟩
  · rw [hs] at hr'
    cases hr'
  · rw [latest_running hr, latest_stopping hs, alarm, hd, Option.getD_some, max_eq_left (Nat.le_add_right _ _)]
    split <;> omega

theorem le_latest (ha : c.state.isActive = true) : now ≤ c.latest now := by
  rcases active_cases ha with hs | hr
  · rw [latest_stopping hs]
    exact (le_max_right _ _).trans (Nat.le_add_right _ _)
  · rw [latest_running hr]
    omega

theorem latest_later (h : now ≤ now') : c.latest now' ≤ c.latest now + (now' - now) := by
  unfold latest
  cases c.state with
  | stopping =>
    simp only
    have hmax : max c.alarm now' ≤ max c.alarm now + (now' - now) := by omega
    split <;> omega
  | starting | running | ready =>
    simp only
    omega
  | idle | backoff | done | exited => exact Nat.zero_le _

end Clock

namespace Graph

variable {τ : Type} {g g' g'' : Graph τ} {id : TaskId} {c c' : Clock} {now now' : ℕ}

theorem Heeds.winds (h : Heeds now' c c') : c.Winds now c' := by
  cases h with
  | ignored => exact .refl now c
  | up hs => exact .on (by rcases hs with hs | hs <;> rw [hs] <;> rfl) rfl rfl
  | running hs => exact .on (by rw [hs]; rfl) rfl rfl
  | waiting hs => exact .on (by rw [hs]; rfl) rfl rfl
  | @ended state due _ hs =>
    apply Clock.Winds.down
    unfold landed
    split <;> exact hs

theorem Expires.winds (h : Expires now c c') : c.Winds now c' := by
  cases h with
  | retried => exact .down rfl
  | killed hs hk =>
    have hs' : (c.disarm.kill (now + killWait)).state = .stopping := hs
    refine ⟨fun _ => by rw [hs]; rfl, fun hr => ?_, fun _ => ?_⟩
    · rw [hs'] at hr
      cases hr
    · rw [Clock.latest_stopping hs, Clock.latest_stopping hs', hk]
      show max (now + killWait) now + 0 ≤ max c.alarm now + killWait
      omega
  | @gaveUp state due _ _ hs =>
    apply Clock.Winds.down
    unfold landed
    split <;> exact hs
  | failed hs => exact .stop (by rw [hs]; rfl) rfl rfl
  | nothing hw =>
    refine ⟨id, id, fun ha => ?_⟩
    have hr : c.state.isRunning = true := (Clock.active_cases ha).resolve_left fun hs => by
      have hs : c.state = .stopping := hs
      rw [hs] at hw
      cases hw
    rw [Clock.latest_running hr, Clock.latest_running (c := c.disarm) hr]
    exact le_rfl

/-- No task comes up, and none takes longer to be down. -/
structure Winds (g g' : Graph τ) : Prop where
  now : g'.now = g.now
  clock : ∀ x c', g'.clock x = some c' → ∃ c, g.clock x = some c ∧ c.Winds g.now c'

namespace Winds

theorem of_clock (hn : g'.now = g.now) (hc : g'.clock = g.clock) : Winds g g' :=
  ⟨hn, fun x c' h => ⟨c', by rw [← hc, h], .refl _ c'⟩⟩

theorem refl (g : Graph τ) : Winds g g := of_clock rfl rfl

theorem trans (h : Winds g g') (h' : Winds g' g'') : Winds g g'' := by
  refine ⟨h'.now.trans h.now, fun x c'' hc'' => ?_⟩
  obtain ⟨c', hc', hw'⟩ := h'.clock x c'' hc''
  obtain ⟨c, hc, hw⟩ := h.clock x c' hc'
  rw [h.now] at hw'
  exact ⟨c, hc, hw.trans hw'⟩

theorem of_calm (h : Calm g g') : Winds g g' := of_clock (Kept.of_frame h.frame).now h.clock

theorem of_turned {f : Clock → Clock} {a : Bool} (h : Turned id f a g g')
    (hf : ∀ c, g.clock id = some c → c.Winds g.now (f c)) :
    Winds g g' := by
  refine ⟨h.now, fun x c' hc' => ?_⟩
  rw [h.clock] at hc'
  split at hc'
  · rename_i hx
    obtain ⟨c, hc, rfl⟩ := Option.map_eq_some_iff.mp hc'
    exact ⟨c, hc, hf c (hx ▸ hc)⟩
  · exact ⟨c', hc', .refl _ c'⟩

theorem propagate (fuel : ℕ) (g : Graph τ) (L : List TaskId) : Winds g (Graph.propagate fuel g L).1 := by
  induction fuel generalizing g L with
  | zero => exact refl g
  | succ fuel ih =>
    unfold Graph.propagate
    cases hpop : g.popDirty with
    | none => exact refl g
    | some r =>
      obtain ⟨id, g'⟩ := r
      obtain ⟨rest, -, rfl⟩ := popDirty_eq hpop
      have hpopped : Winds g { g with dirty := rest, inQueue := g.inQueue.erase id } := of_clock rfl rfl
      exact (hpopped.trans (of_calm (.noting (Counting.recomputeCaches _ id)))).trans (ih _ _)

variable [Task τ]

theorem onEffect (g : Graph τ) (id : TaskId) (effect : TaskEffect) : Winds g (g.onEffect id effect) := by
  cases hc : g.clock id with
  | none =>
    rw [onEffect_none hc]
    exact refl g
  | some c =>
    obtain ⟨f, a, ht, hh, -⟩ := turned_onEffect hc effect
    refine of_turned ht fun c' hc' => ?_
    obtain rfl := Option.some.inj (hc.symm.trans hc')
    exact hh.winds

theorem onStateTimeout (g : Graph τ) (id : TaskId) (epoch : ℕ) : Winds g (g.onStateTimeout id epoch) := by
  by_cases h : ∃ c, g.clock id = some c ∧ c.epoch = epoch
  · obtain ⟨c, hc, rfl⟩ := h
    obtain ⟨f, ht, he⟩ := turned_onStateTimeout hc
    refine of_turned ht fun c' hc' => ?_
    obtain rfl := Option.some.inj (hc.symm.trans hc')
    exact he.winds
  · rw [onStateTimeout_stale fun c hc he => h ⟨c, hc, he⟩]
    exact refl g

theorem driveTask (h : g.view.met id = false) : Winds g (g.driveTask id) := by
  unfold Graph.driveTask
  cases ht : g.tasks.lookup id with
  | none => exact refl g
  | some t =>
    have hsup : t.supported = false := by
      rw [View.met, view_node, ht] at h
      exact h
    have hc : g.clock id = some t.clock := by rw [Graph.clock, ht, Option.map_some]
    have hstop (hr : t.state.isRunning = true) :
        Winds g (if g.hasActiveDependent id then g else (g.stopTask id false).note (.drivenStop id)) := by
      split
      · exact refl g
      · have hne : t.clock.state ≠ .stopping := fun he => by
          rw [show t.state = .stopping from he] at hr
          cases hr
        have hs := of_turned (turned_stopTask hc hne false) fun c' hc' => by
          obtain rfl := Option.some.inj (hc.symm.trans hc')
          exact .stop hr rfl rfl
        exact hs.trans (of_clock rfl rfl)
    simp only [hsup, Bool.false_eq_true, if_false]
    cases hs : t.state with
    | starting | running | ready => exact hstop (by rw [hs]; rfl)
    | backoff info =>
      have hne : t.clock.state ≠ .idle := fun he => by
        rw [show t.state = .idle from he] at hs
        cases hs
      exact of_turned (.setState hc hne) fun _ _ => .down rfl
    | idle | stopping | done | exited => exact refl g

theorem met_driveTask (h : g.view.met id = false) (x : TaskId) : (g.driveTask id).view.met x = g.view.met x := by
  have hset (state : TaskState) : (g.view.setState id state).met x = g.view.met x := by
    rw [(View.setState_keeps g.view id state).2.1]
  unfold Graph.driveTask
  cases ht : g.tasks.lookup id with
  | none => rfl
  | some t =>
    have hsup : t.supported = false := by
      rw [View.met, view_node, ht] at h
      exact h
    have hstop : (if g.hasActiveDependent id then g else (g.stopTask id false).note (.drivenStop id)).view.met x =
        g.view.met x := by
      split
      · rfl
      · have hv : ((g.stopTask id false).note (.drivenStop id)).view = g.view.setState id .stopping :=
          view_stopTask g id false
        rw [hv]
        exact hset .stopping
    simp only [hsup, Bool.false_eq_true, if_false]
    cases t.state with
    | starting | running | ready => exact hstop
    | backoff info =>
      rw [view_setState]
      exact hset .idle
    | idle | stopping | done | exited => rfl

theorem driveTasks (h : ∀ x, g.view.met x = false) (L : List TaskId) : Winds g (L.foldl Graph.driveTask g) := by
  induction L generalizing g with
  | nil => exact refl g
  | cons id L ih =>
    have hone := driveTask (h id)
    exact hone.trans (ih fun x => by rw [met_driveTask (h id) x, h x])

theorem reconcileRound (hs : Sound ∅ g) (hq : g.quitting = true) : Winds g g.reconcileRound := by
  have hfuel : g.view.potential ≤ g.propagateFuel := View.potential_le hs.shape
  obtain ⟨hsound, hempty⟩ := Sound.propagate (L := []) g.propagateFuel hs hfuel
  obtain ⟨ha, -, -⟩ := propagate_keeps g.propagateFuel g []
  have hp := propagate g.propagateFuel g []
  unfold Graph.reconcileRound
  generalize Graph.propagate g.propagateFuel g [] = r at hsound hempty ha hp ⊢
  obtain ⟨g₁, L⟩ := r
  simp only at hsound hempty ha hp ⊢
  refine hp.trans (driveTasks (fun x => ?_) L)
  have hin : g₁.view.dirty = ∅ := by
    have hqueued := hsound.queued.1
    rw [hempty] at hqueued
    exact hqueued
  by_contra hm
  have hwants := ((View.met_iff hsound.shape hsound.counts hsound.fresh hin x).mp (by simpa using hm)).1
  have hq₁ : g₁.view.quitting = true := ha.quitting.trans hq
  have hno := hwants.1
  rw [hq₁] at hno
  cases hno

theorem settleStep (hs : Sound ∅ g) (hq : g.quitting = true) (h : g.settleStep = some g') : Winds g g' := by
  unfold Graph.settleStep at h
  split at h
  · rename_i id effect rest _
    obtain rfl := Option.some.inj h
    have hpop : Winds g { g with pendingEffects := rest } := of_clock rfl rfl
    exact hpop.trans (onEffect _ id effect)
  · split at h
    · cases h
    · obtain rfl := Option.some.inj h
      exact reconcileRound hs hq

theorem settle (hs : Sound ∅ g) (hq : g.quitting = true) : Winds g g.settle := by
  unfold Graph.settle
  generalize g.settleBudget + 1 = n
  induction n generalizing g with
  | zero => exact refl g
  | succ n ih =>
    unfold settleSteps
    cases h : g.settleStep with
    | none => exact refl g
    | some g' =>
      have hq' : g'.quitting = true := (Advances.settleStep h).kept.quitting.trans hq
      exact (settleStep hs hq h).trans (ih (hs.settleStep h) hq')

end Winds

end Graph

end Dekit
