import Dekit.Graces

namespace Dekit

open Dekit.Graph

namespace StateTimers

variable {τ : Type} {g : Graph τ} {timers : StateTimers} {e : TimerEntry} {id : TaskId}

def Meets (g : Graph τ) (e : TimerEntry) : Prop :=
  ∃ c d, g.clock e.id = some c ∧ c.epoch = e.epoch ∧ c.deadline = some d ∧ e.due ≤ max d g.now

theorem mem_cancel (h : e ∈ (timers.cancel id).queue) : e ∈ timers.queue := by
  unfold cancel at h
  cases hk : timers.keys id with
  | none =>
    rw [hk] at h
    exact h
  | some armed =>
    rw [hk] at h
    exact (List.mem_filter.mp h).1

theorem mem_updateOne (h : e ∈ (updateOne g timers id).queue) : e ∈ timers.queue ∨ Meets g e := by
  unfold updateOne at h
  simp only at h
  split at h
  · exact .inl h
  · cases ht : g.tasks.lookup id with
    | none =>
      rw [ht] at h
      exact .inl (mem_cancel h)
    | some t =>
      cases hd : t.deadline with
      | none =>
        rw [ht, Option.bind_some, hd] at h
        exact .inl (mem_cancel h)
      | some d =>
        rw [ht, Option.bind_some, hd] at h
        rcases List.mem_append.mp h with h | h
        · exact .inl (mem_cancel h)
        · rw [List.mem_singleton.mp h]
          refine .inr ⟨t.clock, d, ?_, rfl, hd, ?_⟩
          · show (g.tasks.lookup id).map TaskHandle.clock = _
            rw [ht, Option.map_some]
          · show g.now + (d - g.now) ≤ max d g.now
            exact (Nat.add_comm _ _).le.trans (Nat.sub_add_eq_max d g.now).le

theorem mem_updates (l : List TaskId) (h : e ∈ (l.foldl (updateOne g) timers).queue) :
    e ∈ timers.queue ∨ Meets g e := by
  induction l generalizing timers with
  | nil => exact .inl h
  | cons id l ih =>
    rcases ih h with h | h
    · exact mem_updateOne h
    · exact .inr h

end StateTimers

namespace Gate

variable {τ : Type} {save dead : Bool} {g g' : Gate τ} {msg : KernelMessage τ}

theorem Dispatches.now (h : Dispatches save dead g msg g') : g'.now = g.now := by
  cases h with
  | deferred | covered => rfl
  | handled hd hp hf => cases hp <;> cases hf <;> rfl

end Gate

open Dekit.Gate Dekit.StateTimers

namespace Kernel

variable {τ : Type} [Task τ] {k k₀ k' : Kernel τ} {msg : KernelMessage τ}

section frozen

/-- Whatever a frozen kernel does, no task is new. -/
theorem thins_dispatch (hv : Valid k.graph) (hf : k.graph.frozen.isSome = true) (msg : KernelMessage τ) :
    Thins k.graph (k.dispatch msg).1.graph := by
  obtain ⟨frozen, hfrozen⟩ := Option.isSome_iff_exists.mp hf
  have hnow (hd : msg.command.disposition k.graph.freezingForQuit = .now) :
      Thins k.graph (k.graph.perform msg.sender msg.command) := by
    have hreport (ho : msg.command.operates = true) (hs : Stays k.graph (k.graph.perform msg.sender msg.command)) :
        Thins k.graph (k.graph.perform msg.sender msg.command) :=
      .of_ages (.of_ticks (Runs.perform k.graph msg.sender ho hv.sound hv.next).advances.ticks) hs
    obtain ⟨sender, command⟩ := msg
    cases command with
    | taskStarted => exact hreport rfl (.onTaskStarted _ _)
    | taskReady => exact hreport rfl (.onTaskReady _ _)
    | taskStopped info => exact hreport rfl (.onTaskStopped _ _ _)
    | freeze reply => exact .of_clock (Timeless.beginFreeze _ _).clock
    | taskFrozen number snapshot => exact .of_clock (Timeless.onTaskFrozen _ _ _ _).clock
    | query | quit | quitWithoutSave | quitWithin | freezeTimeout | thaw => exact .of_clock rfl
    | _ => cases hd
  have hdispatch (hd : msg.command.disposition k.graph.freezingForQuit = .now) :
      Thins k.graph (k.dispatchNow msg).1.graph := by
    obtain ⟨g, rfl | rfl, ht⟩ := graph_dispatchNow k msg
    · exact .of_clock ht.clock
    · exact (hnow hd).trans (.of_clock ht.clock)
  unfold dispatch
  rw [hfrozen]
  simp only
  cases hd : msg.command.disposition k.graph.freezingForQuit with
  | now => exact hdispatch hd
  | covered =>
    unfold cover
    cases msg.command <;> exact .of_clock rfl
  | deferred => exact .of_clock rfl

theorem thins_turn (hv : Valid k.graph) (hf : k.graph.frozen.isSome = true) (now : Instant) (msg : KernelMessage τ) :
    Thins k.graph (k.turn now msg).graph := by
  have hv' : Valid ({ k with graph := { k.graph with now } } : Kernel τ).graph := hv.same rfl rfl rfl rfl
  have hd : Thins k.graph (({ k with graph := { k.graph with now } } : Kernel τ).dispatch msg).1.graph :=
    thins_dispatch hv' hf msg
  unfold turn
  generalize ({ k with graph := { k.graph with now } } : Kernel τ).dispatch msg = r at hd ⊢
  obtain ⟨k', exit⟩ := r
  cases exit with
  | true => exact hd
  | false =>
    simp only [afterDispatch]
    split
    · exact hd
    · have hs : Thins k'.graph k'.graph.settle :=
        .of_ages (.of_ticks (Advances.settle k'.graph).ticks) (.settle k'.graph)
      exact (hd.trans hs).trans (.of_clock rfl)

end frozen

section graced

theorem graced_afterDispatch (h : k.graph.Graced) : k.afterDispatch.graph.Graced := by
  unfold afterDispatch
  split
  · exact h
  · have hs : k.graph.settle.Graced := h.graces (.settle k.graph) (Stays.settle k.graph).shut
    exact hs.of_clock rfl le_rfl

theorem now_dispatch (hv : Valid k.graph) (msg : KernelMessage τ) : (k.dispatch msg).1.graph.now = k.graph.now :=
  (dispatches_dispatch hv msg).now

theorem graced_turn (hv : Valid k.graph) (h : k.graph.Graced) {now : Instant} (hn : k.graph.now ≤ now)
    (msg : KernelMessage τ) : (k.turn now msg).graph.Graced := by
  have hv' : Valid ({ k with graph := { k.graph with now } } : Kernel τ).graph := hv.same rfl rfl rfl rfl
  have hg : ({ k with graph := { k.graph with now } } : Kernel τ).graph.Graced := h.of_clock rfl hn
  have hd : (({ k with graph := { k.graph with now } } : Kernel τ).dispatch msg).1.graph.Graced := by
    have hnow := now_dispatch hv' msg
    obtain ⟨g, hcase, ht⟩ := graph_dispatch { k with graph := { k.graph with now } } msg
    have hgraced : g.Graced ∧ g.now = now := by
      rcases hcase with rfl | rfl
      · exact ⟨hg, rfl⟩
      · exact ⟨hg.perform hv' _ _, now_perform hv' _ _⟩
    exact hgraced.1.of_clock ht.clock (hgraced.2.trans hnow.symm).le
  unfold turn
  generalize ({ k with graph := { k.graph with now } } : Kernel τ).dispatch msg = r at hd ⊢
  obtain ⟨k', exit⟩ := r
  cases exit with
  | true => exact hd
  | false => exact (graced_afterDispatch hd).of_clock rfl le_rfl

theorem graced_step (hv : Valid k.graph) (h : k.graph.Graced) {m : Option (KernelMessage τ)} (hs : Step k m k') :
    k'.graph.Graced := by
  cases hs with
  | @replayed now msg rest _ hn => exact graced_turn (k := { k with replay := rest }) hv h hn msg
  | @received now msg _ hn => exact graced_turn (k := k.arrive msg) hv h hn msg
  | @expired now entry _ hn =>
    exact graced_turn (k := { k with timers := k.timers.expire entry }.arrive entry.timeout) hv h hn _
  | @alarm now due number _ hn =>
    exact graced_turn (k := { k with alarms := k.alarms.erase (due, number) }.arrive (alarmed number)) hv h hn _
  | alloc => exact h.of_clock rfl le_rfl

/-- From its start on no stop has more time left than a stop is given, as long as none was restored so. -/
theorem graced_run (hb : Booted k₀) (h : k₀.graph.Graced) {P : Kernel τ → Option (KernelMessage τ) → Prop}
    (hr : Run P k₀.afterDispatch k) : Reachable k ∧ k.graph.Graced := by
  induction hr with
  | refl => exact ⟨.start hb, graced_afterDispatch h⟩
  | tail _ _ hs ih => exact ⟨.step ih.1 hs, graced_step (valid_of_reachable ih.1) ih.2 hs⟩

end graced

section prompt

/-- No timer is of an epoch to come, and one of the task's own comes due at its deadline, or at once. -/
def Prompt (k : Kernel τ) : Prop := ∀ e ∈ k.timers.queue, ∀ c, k.graph.clock e.id = some c →
  e.epoch ≤ c.epoch ∧ (c.epoch = e.epoch → ∀ d, c.deadline = some d → e.due ≤ max d k.graph.now)

omit [Task τ] in
theorem prompt_kept {e : TimerEntry} {g g' : Graph τ} (hn : g.now ≤ g'.now)
    (h : ∀ c, g.clock e.id = some c → e.epoch ≤ c.epoch ∧ (c.epoch = e.epoch → ∀ d, c.deadline = some d → e.due ≤ max d g.now))
    (hel : Elapses g g') (hin : g.clock e.id = none → Thins g g') {c' : Clock} (hc' : g'.clock e.id = some c') :
    e.epoch ≤ c'.epoch ∧ (c'.epoch = e.epoch → ∀ d, c'.deadline = some d → e.due ≤ max d g'.now) := by
  have hback : ∃ c, g.clock e.id = some c ∧ c.Ticks c' := by
    rcases hel with ha | ht
    · cases hc : g.clock e.id with
      | none =>
        obtain ⟨c, hc₂, ht⟩ := hin hc e.id c' hc'
        rw [hc] at hc₂
        cases hc₂
      | some c =>
        obtain ⟨c₂, hc₂, ht⟩ := ha e.id c hc
        obtain rfl := Option.some.inj (hc'.symm.trans hc₂)
        exact ⟨c, rfl, ht⟩
    · exact ht e.id c' hc'
  obtain ⟨c, hc, ht⟩ := hback
  obtain ⟨hle, hdue⟩ := h c hc
  refine ⟨hle.trans ht.epoch, fun he d hd => ?_⟩
  have hepoch : c.epoch = e.epoch := by
    have hle' := ht.epoch
    omega
  obtain ⟨-, hdead | hdead⟩ := ht.same (he.trans hepoch.symm)
  · rw [hd] at hdead
    exact (hdue hepoch d hdead.symm).trans (max_le_max le_rfl hn)
  · rw [hd] at hdead
    cases hdead

theorem now_turn (hv : Valid k.graph) (now : Instant) (msg : KernelMessage τ) : (k.turn now msg).graph.now = now :=
  (dispatches_turn hv now msg).now

theorem mem_turn {now : Instant} {e : TimerEntry} (he : e ∈ (k.turn now msg).timers.queue) :
    e ∈ k.timers.queue ∨ Meets (k.turn now msg).graph e := by
  have htimers := timers_dispatch { k with graph := { k.graph with now } } msg
  unfold turn at he ⊢
  generalize ({ k with graph := { k.graph with now } } : Kernel τ).dispatch msg = r at he htimers ⊢
  obtain ⟨k', exit⟩ := r
  have htimers : k'.timers = k.timers := htimers
  cases exit with
  | true => exact .inl (htimers ▸ he)
  | false =>
    simp only [afterDispatch] at he ⊢
    split at he
    · exact .inl (htimers ▸ he)
    · rename_i hf
      rw [if_neg hf]
      rcases mem_updates _ he with he | he
      · exact .inl (htimers ▸ he)
      · exact .inr he

theorem prompt_turn (hv : Valid k.graph) (h : Prompt k) {now : Instant} (hn : k.graph.now ≤ now)
    (hin : ∀ e ∈ k.timers.queue, k.graph.frozen = none → (k.graph.clock e.id).isSome = true) :
    Prompt (k.turn now msg) := by
  intro e he c' hc'
  have hnow := now_turn hv now msg
  rcases mem_turn he with he | ⟨c, d, hc, hepoch, hd, hdue⟩
  · refine prompt_kept (by rw [hnow]; exact hn) (fun c hc => h e he c hc) (elapses_turn hv now msg)
      (fun hnone => ?_) hc'
    cases hf : k.graph.frozen with
    | none =>
      have hsome := hin e he hf
      rw [hnone] at hsome
      cases hsome
    | some frozen => exact thins_turn hv (by rw [hf]; rfl) now msg
  · obtain rfl := Option.some.inj (hc'.symm.trans hc)
    refine ⟨hepoch.ge, fun _ d' hd' => ?_⟩
    obtain rfl := Option.some.inj (hd.symm.trans hd')
    exact hdue

omit [Task τ] in
theorem owned_of_ticking (h : Ticking k) (he : k.exited = false) {e : TimerEntry} (hm : e ∈ k.timers.queue)
    (hf : k.graph.frozen = none) : (k.graph.clock e.id).isSome = true := by
  have hkeys := h.paired.keyed e hm
  have hlisted : e.id ∉ k.graph.timerChanges := by
    rw [h.listed hf he]
    exact List.not_mem_nil
  rcases h.matched e.id hlisted with hd | ⟨hn, -⟩
  · rw [hkeys, Option.map_some] at hd
    obtain ⟨c, hc, -⟩ := Option.bind_eq_some_iff.mp hd.symm
    rw [hc]
    rfl
  · rw [hkeys] at hn
    cases hn

theorem prompt_step (hk : Reachable k) (h : Prompt k) {m : Option (KernelMessage τ)} (hs : Step k m k') :
    Prompt k' := by
  have hv := valid_of_reachable hk
  have htick := ticking_of_reachable hk
  cases hs with
  | @replayed now msg rest hx hn =>
    exact prompt_turn (k := { k with replay := rest }) hv h hn fun e he hf => owned_of_ticking htick hx he hf
  | @received now msg hx hn =>
    exact prompt_turn (k := k.arrive msg) hv h hn fun e he hf => owned_of_ticking htick hx he hf
  | @expired now entry hx hn =>
    have hsub {e : TimerEntry} (he : e ∈ (k.timers.expire entry).queue) : e ∈ k.timers.queue :=
      (List.mem_filter.mp he).1
    exact prompt_turn (k := { k with timers := k.timers.expire entry }.arrive entry.timeout) hv
      (fun e he => h e (hsub he)) hn fun e he hf => owned_of_ticking htick hx (hsub he) hf
  | @alarm now due number hx hn =>
    exact prompt_turn (k := { k with alarms := k.alarms.erase (due, number) }.arrive (alarmed number)) hv h hn
      fun e he hf => owned_of_ticking htick hx he hf
  | alloc => exact h

theorem prompt_of_reachable (h : Reachable k) : Prompt k := by
  induction h with
  | @start k₀ hb =>
    intro e he c hc
    have hmeets : Meets k₀.afterDispatch.graph e := by
      unfold afterDispatch at he ⊢
      split at he
      · rw [hb.timed.1] at he
        cases he
      · rename_i hf
        rw [if_neg hf]
        rcases mem_updates _ he with he | he
        · rw [hb.timed.1] at he
          cases he
        · exact he
    obtain ⟨c', d, hc', hepoch, hd, hdue⟩ := hmeets
    obtain rfl := Option.some.inj (hc.symm.trans hc')
    refine ⟨hepoch.ge, fun _ d' hd' => ?_⟩
    obtain rfl := Option.some.inj (hd.symm.trans hd')
    exact hdue
  | step hr hs ih => exact prompt_step hr ih hs

end prompt

end Kernel

end Dekit
