import Dekit.Homes
import Dekit.Standstill
import Dekit.Timers

namespace Dekit

namespace Graph

variable {τ : Type} {g g' g'' : Graph τ} {x : TaskId}

def Ages (g g' : Graph τ) : Prop := ∀ x c, g.clock x = some c → ∃ c', g'.clock x = some c' ∧ c.Ticks c'

def Thins (g g' : Graph τ) : Prop := ∀ x c', g'.clock x = some c' → ∃ c, g.clock x = some c ∧ c.Ticks c'

theorem Ages.of_clock (h : g'.clock = g.clock) : Ages g g' := fun x c hc => ⟨c, by rw [h, hc], .refl c⟩

theorem Ages.trans (h : Ages g g') (h' : Ages g' g'') : Ages g g'' := by
  intro x c hc
  obtain ⟨c', hc', ht⟩ := h x c hc
  obtain ⟨c'', hc'', ht'⟩ := h' x c' hc'
  exact ⟨c'', hc'', ht.trans ht'⟩

theorem Ages.of_ticks (h : Ticks g g') : Ages g g' := by
  intro x c hc
  obtain ⟨c', hc', ht, -⟩ := h.kept x c hc
  exact ⟨c', hc', ht⟩

theorem Thins.of_clock (h : g'.clock = g.clock) : Thins g g' := fun x c hc => ⟨c, by rw [← h, hc], .refl c⟩

theorem Thins.trans (h : Thins g g') (h' : Thins g' g'') : Thins g g'' := by
  intro x c'' hc''
  obtain ⟨c', hc', ht'⟩ := h' x c'' hc''
  obtain ⟨c, hc, ht⟩ := h x c' hc'
  exact ⟨c, hc, ht.trans ht'⟩

theorem Thins.of_ages (h : Ages g g') (hs : Stays g g') : Thins g g' := by
  intro x c' hc'
  cases hc : g.clock x with
  | none =>
    have ht : g.tasks.lookup x = none := Option.map_eq_none_iff.mp hc
    have ht' := hs.homes x
    rw [ht, Option.map_none, Option.map_eq_none_iff] at ht'
    rw [clock, ht'] at hc'
    cases hc'
  | some c =>
    obtain ⟨c₂, hc₂, ht⟩ := h x c hc
    rw [hc'] at hc₂
    exact ⟨c, rfl, Option.some.inj hc₂ ▸ ht⟩

variable [Task τ]

theorem Thins.removeTask (g : Graph τ) (id : TaskId) : Thins g (g.removeTask id) := by
  cases ht : g.tasks.lookup id with
  | none =>
    rw [removeTask_absent ht]
    exact of_clock rfl
  | some handle =>
    have hdrop : Thins g (g.dropHandle id handle) := by
      intro x c hc
      rw [clock_dropHandle] at hc
      split at hc
      · cases hc
      · exact ⟨c, hc, .refl c⟩
    exact hdrop.trans (of_clock (calm_removeTask ht).clock)

theorem Thins.removeCommand (g : Graph τ) (sender : TaskId) (selector : TaskSelector) :
    Thins g (g.removeCommand sender selector).1 := by
  have hfolder (g : Graph τ) (id : TaskId) : Thins g (g.removeFolder id).1 := by
    unfold Graph.removeFolder
    cases g.folders.lookup id with
    | none => exact of_clock rfl
    | some folder => exact of_clock (Quiet.notifySubscribers _ _ _ _ _).clock
  unfold Graph.removeCommand
  have htasks : Thins g ((g.removal sender selector).1.foldl Graph.removeTask g) :=
    Fold.foldl_invariant (P := Thins g) (fun g' hg id _ => hg.trans (removeTask g' id)) (of_clock rfl)
  exact Fold.foldl_invariant (P := Thins g) (fun g' hg id _ => hg.trans (hfolder g' id)) htasks

def Elapses (g g' : Graph τ) : Prop := Ages g g' ∨ Thins g g'

omit [Task τ] in
theorem Elapses.timeless (h : Elapses g g') (ht : Timeless g' g'') : Elapses g g'' :=
  h.imp (fun h => h.trans (.of_clock ht.clock)) fun h => h.trans (.of_clock ht.clock)

theorem Elapses.settle (h : Elapses g g') : Elapses g g'.settle := by
  have hs : Ages g' g'.settle := .of_ticks (Advances.settle g').ticks
  exact h.imp (fun h => h.trans hs) fun h => h.trans (.of_ages hs (.settle g'))

theorem Elapses.perform (h : Valid g) (sender : TaskId) (command : KernelCommand τ) :
    Elapses g (g.perform sender command) := by
  rcases perform_timed h sender command with ht | ⟨selector, hr⟩ | ht
  · exact .inl (.of_ticks ht)
  · exact timeless (.inr (.removeCommand g sender selector)) hr
  · exact .inl (.of_clock ht.clock)

end Graph

open Dekit.Gate Dekit.Graph Dekit.StateTimers

namespace Kernel

variable {τ : Type} [Task τ] {k k₀ k₁ k' : Kernel τ} {msg : KernelMessage τ} {x : TaskId}

section steps

theorem elapses_turn (hv : Valid k.graph) (now : Instant) (msg : KernelMessage τ) :
    Elapses k.graph (k.turn now msg).graph := by
  have hv' : Valid ({ k with graph := { k.graph with now } } : Kernel τ).graph := hv.same rfl rfl rfl rfl
  have hd : Elapses k.graph (({ k with graph := { k.graph with now } } : Kernel τ).dispatch msg).1.graph := by
    obtain ⟨g, rfl | rfl, ht⟩ := graph_dispatch { k with graph := { k.graph with now } } msg
    · exact .inl (.of_clock ht.clock)
    · exact (Elapses.perform hv' msg.sender msg.command).timeless ht
  unfold turn
  generalize ({ k with graph := { k.graph with now } } : Kernel τ).dispatch msg = r at hd ⊢
  obtain ⟨k', exit⟩ := r
  cases exit with
  | true => exact hd
  | false =>
    simp only [afterDispatch]
    split
    · exact hd
    · exact hd.settle

theorem elapses_step (hv : Valid k.graph) {m : Option (KernelMessage τ)} (h : Step k m k') :
    Elapses k.graph k'.graph := by
  cases h with
  | @replayed now msg rest => exact elapses_turn (k := { k with replay := rest }) hv now msg
  | @received now msg => exact elapses_turn (k := k.arrive msg) hv now msg
  | @expired now entry =>
    exact elapses_turn (k := { k with timers := k.timers.expire entry }.arrive entry.timeout) hv now _
  | @alarm now due number =>
    exact elapses_turn (k := { k with alarms := k.alarms.erase (due, number) }.arrive (alarmed number)) hv now _
  | alloc => exact .inl (.of_clock rfl)

theorem Booted.timed (h : Booted k) :
    k.timers = .new ∧ k.graph.Timely ∧ Matches k.graph StateTimers.new.keys fun _ _ => False := by
  induction h with
  | new hasher now =>
    refine ⟨rfl, ?_, ?_⟩
    · intro x c hc
      cases hc
    · intro x _
      exact .inl rfl
  | saveOnQuit _ ih => exact ih
  | @alloc k _ ih =>
    have hp : Passes k.graph k.graph.allocId.2 := .of_eq rfl rfl
    exact ⟨ih.1, hp.timely ih.2.1, ih.2.2.passes hp⟩
  | @install k r hb ih =>
    have hv := valid_booted hb
    have hr := Runs.registerTaskWithId k.graph r.allocated r.def' r.factory none hv.sound hv.next
    have hp : Passes k.graph (k.graph.registerTaskWithId r.taskId r.def' r.factory none).1 :=
      .of_ticks hr.advances.ticks
    exact ⟨ih.1, hp.timely ih.2.1, ih.2.2.passes hp⟩
  | @restore k now nextTaskId tasks hnext _ hb ih =>
    have hset : Valid { k.graph with nextTaskId, now } :=
      ⟨(valid_booted hb).sound.same rfl rfl rfl, Nat.pos_of_ne_zero hnext⟩
    have hp : Passes k.graph { k.graph with nextTaskId, now } := .of_eq rfl rfl
    have hr := Runs.registerTasks { k.graph with nextTaskId, now } tasks hset.sound hset.next
    have hp' := hp.trans (.of_ticks hr.advances.ticks)
    unfold Kernel.restore
    simp only
    split
    · exact ⟨ih.1, hp.timely ih.2.1, ih.2.2.passes hp⟩
    · exact ⟨ih.1, hp'.timely ih.2.1, ih.2.2.passes hp'⟩

omit [Task τ] in
theorem Ticking.expire (h : Ticking k) {entry : TimerEntry} (he : entry ∈ k.timers.queue) :
    Matches k.graph (k.timers.expire entry).keys fun x e =>
      k.gate.heldTimeout x e ∨ x = entry.id ∧ e = entry.epoch := by
  have hkeys := h.paired.keyed entry he
  intro x hx
  by_cases hid : x = entry.id
  · subst hid
    have hnone : (k.timers.expire entry).keys entry.id = none := Function.update_self _ _ _
    rcases h.matched entry.id hx with hd | ⟨hn, -⟩
    · rw [hkeys] at hd
      exact .inr ⟨hnone, entry.epoch, hd.symm, .inr ⟨rfl, rfl⟩⟩
    · rw [hkeys] at hn
      cases hn
  · have hsame : (k.timers.expire entry).keys x = k.timers.keys x := Function.update_of_ne hid _ _
    rw [hsame]
    rcases h.matched x hx with hd | ⟨hn, e, hd, hheld⟩
    · exact .inl hd
    · exact .inr ⟨hn, e, hd, .inl hheld⟩

theorem Ticking.step (hv : Valid k.graph) (h : Ticking k) {m : Option (KernelMessage τ)} (hs : Step k m k') :
    Ticking k' := by
  cases hs with
  | @replayed now msg rest _ _ hr =>
    refine ticking_turn (k := { k with replay := rest }) hv h.paired h.timely now (h.matched.mono ?_)
    rintro x e ⟨m, hm | hm, hc⟩
    · exact .inl ⟨m, .inl hm, hc⟩
    · rcases List.mem_cons.mp (show m ∈ msg :: rest from hr ▸ hm) with rfl | hm
      · exact .inr hc
      · exact .inl ⟨m, .inr hm, hc⟩
  | @received now msg =>
    exact ticking_turn (k := k.arrive msg) hv h.paired h.timely now (h.matched.mono fun _ _ hx => .inl hx)
  | @expired now entry _ _ _ he _ =>
    refine ticking_turn (k := { k with timers := k.timers.expire entry }.arrive entry.timeout) hv (h.paired.expire he)
      h.timely now ((h.expire he).mono ?_)
    rintro x e (hx | ⟨rfl, rfl⟩)
    · exact .inl hx
    · exact .inr rfl
  | @alarm now due number =>
    exact ticking_turn (k := { k with alarms := k.alarms.erase (due, number) }.arrive (alarmed number)) hv h.paired
      h.timely now (h.matched.mono fun _ _ hx => .inl hx)
  | alloc =>
    have hp : Passes k.graph k.graph.allocId.2 := .of_eq rfl rfl
    exact ⟨h.paired, hp.timely h.timely, h.matched.passes hp, h.listed⟩

theorem ticking_of_reachable (h : Reachable k) : Ticking k := by
  induction h with
  | start hb =>
    obtain ⟨hnew, ht, hm⟩ := hb.timed
    apply Ticking.afterDispatch
    · rw [hnew]
      exact .new
    · exact ht
    · rw [hnew]
      exact hm.mono fun _ _ hf => hf.elim
  | step hr hs ih => exact ih.step (valid_of_reachable hr) hs

def Registered (x : TaskId) (k : Kernel τ) (_ : Option (KernelMessage τ)) : Prop := x ∈ k.graph.tasks

omit [Task τ] in
theorem clock_of_registered (h : x ∈ k.graph.tasks) : ∃ c, k.graph.clock x = some c := by
  obtain ⟨t, ht⟩ := Option.isSome_iff_exists.mp ((mem_tasks_lookup k.graph x).mp h)
  exact ⟨t.clock, by rw [clock, ht, Option.map_some]⟩

/-- As long as a task is registered its epochs go on. -/
theorem Run.ticks (h : Run (Registered x) k₀ k) (hk : Reachable k₀) {c c' : Clock} (hc : k₀.graph.clock x = some c)
    (hc' : k.graph.clock x = some c') : c.Ticks c' := by
  induction h generalizing c' with
  | refl =>
    obtain rfl := Option.some.inj (hc.symm.trans hc')
    exact .refl c
  | @tail k₁ k' m hr hin hs ih =>
    obtain ⟨c₁, hc₁⟩ := clock_of_registered hin
    have hone := ih hc₁
    rcases elapses_step (valid_of_reachable (hr.reachable hk)) hs with ha | ha
    · obtain ⟨c₂, hc₂, ht⟩ := ha x c₁ hc₁
      rw [hc'] at hc₂
      obtain rfl := Option.some.inj hc₂
      exact hone.trans ht
    · obtain ⟨c₂, hc₂, ht⟩ := ha x c' hc'
      rw [hc₁] at hc₂
      obtain rfl := Option.some.inj hc₂
      exact hone.trans ht

theorem dispatch_stale (hf : k.graph.frozen = none) (sender : TaskId) {epoch : ℕ}
    (h : ∀ t, k.graph.tasks.lookup x = some t → t.epoch ≠ epoch) :
    k.dispatch ⟨sender, .stateTimeout x epoch⟩ =
      ({ k with handled := k.handled ++ [⟨sender, .stateTimeout x epoch⟩] }, false) := by
  have hstale : k.graph.onStateTimeout x epoch = k.graph := by
    apply onStateTimeout_stale
    intro c hc
    obtain ⟨t, ht, rfl⟩ := Option.map_eq_some_iff.mp hc
    exact h t ht
  have hperform : k.graph.perform sender (.stateTimeout x epoch) = k.graph := hstale
  unfold dispatch
  simp only [hf, dispatchNow, runCommand, hperform, finishFreeze, finishFreezeIfComplete]

end steps

/-- Deadlines are where the states wait for one. Once the graph has settled each has its timer, but for
a timeout that a freeze deferred and that waits for its turn. -/
theorem timers_exact (h : Reachable k) (x : TaskId) :
    (∀ t, k.graph.tasks.lookup x = some t → (t.deadline.isSome = true ↔
      t.state = .stopping ∨ (∃ info, t.state = .backoff info) ∨ t.state = .running ∧ t.ready.timeout.isSome = true)) ∧
    (k.graph.frozen = none → k.exited = false →
      ((∀ t, k.graph.tasks.lookup x = some t → t.deadline = none) →
        k.timers.queue.filter (fun e => e.id = x) = []) ∧
      ∀ t, k.graph.tasks.lookup x = some t → t.deadline.isSome = true →
        (∃ e, e.epoch = t.epoch ∧ k.timers.queue.filter (fun e => e.id = x) = [e]) ∨
        k.timers.queue.filter (fun e => e.id = x) = [] ∧ ∃ m ∈ k.replay, m.command = .stateTimeout x t.epoch) ∧
    (∀ k' t t', Run (Registered x) k k' → k.graph.tasks.lookup x = some t → k'.graph.tasks.lookup x = some t' →
      t.epoch ≤ t'.epoch ∧
        (t'.epoch = t.epoch → t'.state = t.state ∧ (t'.deadline = t.deadline ∨ t'.deadline = none))) ∧
    (k.graph.frozen = none → ∀ sender epoch, (∀ t, k.graph.tasks.lookup x = some t → t.epoch ≠ epoch) →
      k.dispatch ⟨sender, .stateTimeout x epoch⟩ =
        ({ k with handled := k.handled ++ [⟨sender, .stateTimeout x epoch⟩] }, false)) ∧
    ∀ k₁ k₂ t t₁ sender, Run (Registered x) k k₁ → Run (Registered x) k₁ k₂ → k.graph.tasks.lookup x = some t →
      k₁.graph.tasks.lookup x = some t₁ → t₁.state ≠ t.state → k₂.graph.frozen = none →
      k₂.dispatch ⟨sender, .stateTimeout x t.epoch⟩ =
        ({ k₂ with handled := k₂.handled ++ [⟨sender, .stateTimeout x t.epoch⟩] }, false) := by
  have htick := ticking_of_reachable h
  have hclock {k : Kernel τ} {t : TaskHandle τ} (ht : k.graph.tasks.lookup x = some t) :
    k.graph.clock x = some t.clock := by
    rw [clock, ht, Option.map_some]
  have hticks {k₁ k₂ : Kernel τ} {t t' : TaskHandle τ} (hk : Reachable k₁) (hr : Run (Registered x) k₁ k₂)
      (ht : k₁.graph.tasks.lookup x = some t) (ht' : k₂.graph.tasks.lookup x = some t') : t.clock.Ticks t'.clock :=
    hr.ticks hk (hclock ht) (hclock ht')
  refine ⟨?_, ?_, ?_, fun hf sender epoch hne => dispatch_stale hf sender hne, ?_⟩
  · intro t ht
    have htimed : t.deadline.isSome = t.state.waits t.ready := htick.timely x t.clock (hclock ht)
    rw [htimed]
    cases t.state <;> simp [TaskState.waits]
  · intro hf he
    have hlisted : x ∉ k.graph.timerChanges := by
      rw [htick.listed hf he]
      exact List.not_mem_nil
    have hmatch := htick.matched x hlisted
    constructor
    · intro hnone
      have hdue : k.graph.due x = none := by
        rw [due, Option.bind_eq_none_iff]
        intro c hc
        obtain ⟨t, ht, rfl⟩ := Option.map_eq_some_iff.mp hc
        exact Option.map_eq_none_iff.mpr (hnone t ht)
      rw [hdue] at hmatch
      rcases hmatch with hkeys | ⟨hkeys, -⟩
      · exact htick.paired.none (Option.map_eq_none_iff.mp hkeys)
      · exact htick.paired.none hkeys
    · intro t ht hd
      have hdue : k.graph.due x = some t.epoch := by
        obtain ⟨d, hd⟩ := Option.isSome_iff_exists.mp hd
        have hd : t.clock.deadline = some d := hd
        rw [due_of_clock (hclock ht), hd]
        rfl
      rw [hdue] at hmatch
      rcases hmatch with hkeys | ⟨hkeys, epoch, hepoch, m, hm, hc⟩
      · obtain ⟨⟨epoch, key⟩, hkeys, rfl⟩ := Option.map_eq_some_iff.mp hkeys
        exact .inl (htick.paired.only hkeys)
      · obtain rfl := Option.some.inj hepoch
        refine .inr ⟨htick.paired.none hkeys, m, ?_, hc⟩
        -- Nothing is deferred unless a freeze is under way.
        rcases hm with hm | hm
        · have hhold : k.gate.hold = none := by simp [gate, hf]
          rw [deferred_none hhold] at hm
          cases hm
        · exact hm
  · intro k' t t' hr ht ht'
    have htt := hticks h hr ht ht'
    exact ⟨htt.epoch, htt.same⟩
  · intro k₁ k₂ t t₁ sender hr hr₁ ht ht₁ hne hf
    apply dispatch_stale hf
    intro t₂ ht₂
    have hone := hticks h hr ht ht₁
    have htwo := hticks (hr.reachable h) hr₁ ht₁ ht₂
    have hlt : t.epoch ≠ t₁.epoch := fun he => hne (hone.same he.symm).1
    have hle : t.epoch ≤ t₁.epoch := hone.epoch
    have hle₁ : t₁.epoch ≤ t₂.epoch := htwo.epoch
    omega

/-- The one that waits to be retried has its timer. -/
theorem timers_exact_fallen : (fallen.timers.queue.filter (fun e => e.id = 1)).map TimerEntry.epoch = [3] := by
  obtain ⟨-, hsettled, -⟩ := timers_exact reachable_fallen 1
  have hany : (fallen.graph.tasks.lookup 1).any (fun t => t.deadline.isSome && t.epoch == 3) = true := by decide
  cases ht : fallen.graph.tasks.lookup 1 with
  | none =>
    rw [ht] at hany
    cases hany
  | some t =>
    rw [ht] at hany
    simp only [Option.any_some, Bool.and_eq_true, beq_iff_eq] at hany
    obtain ⟨hd, he⟩ := hany
    rcases (hsettled (by decide) (by decide)).2 t ht hd with ⟨e, hepoch, hq⟩ | ⟨-, m, hm, -⟩
    · rw [hq, List.map_singleton, hepoch, he]
    · have hnone : fallen.replay = [] := by decide
      rw [hnone] at hm
      cases hm

def held : Kernel ChannelTask := fallen.hear ⟨0, .freeze 7⟩

def missed : Kernel ChannelTask :=
  (({ held with timers := held.timers.expire retry }).arrive retry.timeout).turn backoffMin retry.timeout

def resumed : Kernel ChannelTask := missed.hear ⟨0, .thaw⟩

/-- The task waits to be retried, and there is no timer. -/
theorem timer_deferred : Reachable resumed ∧ resumed.graph.frozen = none ∧ resumed.exited = false ∧
    resumed.graph.dirty = [] ∧ resumed.graph.pendingEffects = [] ∧
    (resumed.graph.tasks.lookup 1).any (fun t => t.state.isBackoff && t.deadline.isSome) = true ∧
    resumed.timers.queue = [] := by
  have hmissed : Reachable missed := by
    have hheld : Reachable held := reachable_fallen.hear (by decide) (by decide) _
    exact .step hheld (.expired (by decide) (by decide) (by decide) (by decide) (by decide))
  exact ⟨hmissed.hear (by decide) (by decide) _, by decide, by decide, by decide, by decide, by decide, by decide⟩

end Kernel

end Dekit
