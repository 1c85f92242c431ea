import Dekit.Clocks

namespace Dekit

namespace Clock

variable {c : Clock}

theorem timed_landed {state : TaskState} {due : Instant} (c : Clock) (h : state.isActive = false) :
    (Graph.landed due state c).Timed := by
  cases state <;> first | rfl | cases h

theorem epoch_landed {state : TaskState} {due : Instant} (c : Clock) :
    (Graph.landed due state c).epoch = c.epoch + 1 := by
  unfold Graph.landed
  split <;> rfl

end Clock

namespace Graph

variable {τ : Type} {g g' g'' : Graph τ} {id : TaskId} {f : Clock → Clock} {a : Bool} {c c' : Clock}
  {now : Instant}

theorem Heeds.ticks (h : Heeds now c c') : c.Ticks c' := by
  cases h with
  | ignored => exact .refl c
  | up | running | waiting => exact .of_lt (Nat.lt_succ_self _)
  | ended => exact .of_lt (by rw [Clock.epoch_landed]; omega)

theorem Heeds.timed (h : Heeds now c c') (hc : c.Timed) : c'.Timed := by
  cases h with
  | ignored => exact hc
  | up => rfl
  | running _ hn =>
    show Option.isSome none = c.ready.timeout.isSome
    rw [hn]
  | waiting _ hn =>
    show Option.isSome (some _) = c.ready.timeout.isSome
    rw [hn]
    rfl
  | ended _ hs => exact c.timed_landed hs

theorem Expires.ticks (h : Expires now c c') : c.Ticks c' := by
  cases h with
  | retried | killed | failed => exact .of_lt (Nat.lt_succ_self _)
  | gaveUp =>
    refine .of_lt ?_
    rw [Clock.epoch_landed]
    exact Nat.lt_succ_self _
  | nothing => exact ⟨le_rfl, fun _ => ⟨rfl, .inr rfl⟩⟩

theorem Expires.timed (h : Expires now c c') : c'.Timed := by
  cases h with
  | retried | failed => rfl
  | killed hs =>
    show Option.isSome (some _) = c.state.waits c.ready
    rw [hs]
    rfl
  | gaveUp _ _ hs => exact Clock.timed_landed _ hs
  | nothing hw => exact hw.symm

/-- What is outside of the tasks and the edges is as it was, but for the ids still to come. -/
structure Kept (g g' : Graph τ) : Prop where
  now : g'.now = g.now
  quitting : g'.quitting = g.quitting
  frozen : g'.frozen = g.frozen
  freezes : g'.freezes = g.freezes
  next : g.nextTaskId ≤ g'.nextTaskId

theorem Kept.of_frame (h : g'.frame = g.frame) : Kept g g' where
  now := congrArg (fun f => f.1) h
  quitting := congrArg (fun f => f.2.1) h
  frozen := congrArg (fun f => f.2.2.1) h
  freezes := congrArg (fun f => f.2.2.2.1) h
  next := (congrArg (fun f => f.2.2.2.2) h).ge

theorem Kept.refl (g : Graph τ) : Kept g g := .of_frame rfl

theorem Kept.trans (h : Kept g g') (h' : Kept g' g'') : Kept g g'' where
  now := h'.now.trans h.now
  quitting := h'.quitting.trans h.quitting
  frozen := h'.frozen.trans h.frozen
  freezes := h'.freezes.trans h.freezes
  next := h.next.trans h'.next

/-- No task is gone, epochs go on, and whose timer is not as it was is listed. -/
structure Ticks (g g' : Graph τ) : Prop where
  changes : ∀ x ∈ g.timerChanges, x ∈ g'.timerChanges
  kept : ∀ x c, g.clock x = some c →
    ∃ c', g'.clock x = some c' ∧ c.Ticks c' ∧ (x ∉ g'.timerChanges → c.Steady c')
  fresh : ∀ x c', g.clock x = none → g'.clock x = some c' → x ∉ g'.timerChanges → c'.deadline = none
  timed : (∀ x c, g.clock x = some c → c.Timed) → ∀ x c, g'.clock x = some c → c.Timed

namespace Ticks

theorem refl (g : Graph τ) : Ticks g g where
  changes _ h := h
  kept _ c h := ⟨c, h, .refl c, fun _ => .refl c⟩
  fresh x c' h h' := by rw [h] at h'; cases h'
  timed h := h

theorem trans (h : Ticks g g') (h' : Ticks g' g'') : Ticks g g'' where
  changes x hx := h'.changes x (h.changes x hx)
  kept x c hc := by
    obtain ⟨c', hc', ht, hs⟩ := h.kept x c hc
    obtain ⟨c'', hc'', ht', hs'⟩ := h'.kept x c' hc'
    exact ⟨c'', hc'', ht.trans ht', fun hx => (hs fun hm => hx (h'.changes x hm)).trans (hs' hx)⟩
  fresh x c'' hn hc'' hx := by
    cases hc' : g'.clock x with
    | none => exact h'.fresh x c'' hc' hc'' hx
    | some c' =>
      have hd := h.fresh x c' hn hc' fun hm => hx (h'.changes x hm)
      obtain ⟨c₂, hc₂, -, hs⟩ := h'.kept x c' hc'
      obtain rfl : c₂ = c'' := Option.some.inj (hc₂.symm.trans hc'')
      rcases hs hx with ⟨-, he⟩ | ⟨-, he⟩
      · exact he.trans hd
      · exact he
  timed ht := h'.timed (h.timed ht)

theorem of_turned (h : Turned id f a g g') (hf : ∀ c, g.clock id = some c →
    c.Ticks (f c) ∧ (a = false → c.Steady (f c)) ∧ (c.Timed → (f c).Timed)) : Ticks g g' where
  changes x hx := (h.changes x).mpr (.inl hx)
  kept x c hc := by
    rw [h.clock]
    by_cases hx : x = id
    · subst hx
      obtain ⟨ht, hs, -⟩ := hf c hc
      refine ⟨f c, by simp [hc], ht, fun hn => hs ?_⟩
      rw [h.changes] at hn
      simpa using fun ha : a = true => hn (.inr ⟨ha, rfl⟩)
    · exact ⟨c, by simp [hx, hc], .refl c, fun _ => .refl c⟩
  fresh x c' hn hc' _ := by
    rw [h.clock, hn] at hc'
    simp at hc'
  timed ht x c' hc' := by
    rw [h.clock] at hc'
    split at hc'
    · rename_i hx
      obtain ⟨c, hc, rfl⟩ := Option.map_eq_some_iff.mp hc'
      exact (hf c (hx ▸ hc)).2.2 (ht x c hc)
    · exact ht x c' hc'

theorem of_eq (hc : g'.clock = g.clock) (ht : g'.timerChanges = g.timerChanges) : Ticks g g' where
  changes x hx := ht ▸ hx
  kept x c h := ⟨c, by rw [hc, h], .refl c, fun _ => .refl c⟩
  fresh x c' h h' := by rw [hc, h] at h'; cases h'
  timed h := hc ▸ h

end Ticks

/-- How anything that is not a freeze, a quit or a removal leaves the graph. -/
structure Advances (g g' : Graph τ) : Prop where
  kept : Kept g g'
  ticks : Ticks g g'

namespace Advances

theorem refl (g : Graph τ) : Advances g g := ⟨.refl g, .refl g⟩

theorem trans (h : Advances g g') (h' : Advances g' g'') : Advances g g'' :=
  ⟨h.kept.trans h'.kept, h.ticks.trans h'.ticks⟩

theorem of_turned (h : Turned id f a g g') (hf : ∀ c, g.clock id = some c →
    c.Ticks (f c) ∧ (a = false → c.Steady (f c)) ∧ (c.Timed → (f c).Timed)) : Advances g g' :=
  ⟨.of_frame h.frame, .of_turned h hf⟩

theorem of_calm (h : Calm g g') : Advances g g' := ⟨.of_frame h.frame, .of_eq h.clock h.timerChanges⟩

theorem foldl {β : Type} {body : Graph τ → β → Graph τ} (h : ∀ g x, Advances g (body g x)) (l : List β)
    (g : Graph τ) : Advances g (l.foldl body g) :=
  Fold.foldl_rel refl (fun _ _ _ => trans) (fun g x _ => h g x) g

theorem redefine (g : Graph τ) (id : TaskId) (update : TaskUpdate) : Advances g (g.redefine id update) := by
  have ht : Turned id (fun c => if c.state = .idle then
      { c with ready := update.next.ready, stopTimeout := update.next.stopTimeout } else c) false g
      (g.redefine id update) := by
    refine .modified rfl (fun t => ?_) rfl rfl
    by_cases hidle : t.state = .idle
    · simp [TaskHandle.clock, TaskHandle.adopt, hidle]
    · simp [TaskHandle.clock, hidle]
  refine of_turned ht fun c _ => ?_
  by_cases hidle : c.state = .idle
  · simp only [hidle, if_true]
    refine ⟨⟨le_rfl, fun _ => ⟨hidle.symm, .inl rfl⟩⟩, fun _ => .inl ⟨rfl, rfl⟩, fun h => ?_⟩
    have hn : c.deadline.isSome = false := by
      rw [Clock.Timed, hidle] at h
      exact h
    exact hn
  · simp only [hidle, if_false]
    exact ⟨.refl c, fun _ => .refl c, fun h => h⟩

theorem install_deadline (def' : TaskDef τ) (task : τ) (now : Instant) (saved : Option Snap.Task) :
    (def'.install task now saved).deadline = none := by
  cases saved <;> rfl

theorem install_timer (def' : TaskDef τ) (task : τ) (now : Instant) (saved : Option Snap.Task) :
    ((def'.install task now saved).restoredTimer now saved).isSome =
      (def'.install task now saved).state.waits (def'.install task now saved).ready := by
  unfold TaskHandle.restoredTimer
  generalize def'.install task now saved = t
  cases t.state <;> simp [TaskState.waits]

theorem calm_installed (g : Graph τ) (id : TaskId) (def' : TaskDef τ) (deps : List TaskId) :
    Calm g ((if def'.pinned then
      (deps.foldl (fun g dep => g.addEdge id dep) (g.setTags id def'.tags)).addEdge initTaskId id
      else deps.foldl (fun g dep => g.addEdge id dep) (g.setTags id def'.tags)).enqueue id) := by
  have hdeps : Calm g (deps.foldl (fun g dep => g.addEdge id dep) (g.setTags id def'.tags)) :=
    (Calm.quiet (Still.setTags g id def'.tags).toQuiet).trans
      (.foldl (fun g dep => .noting (Counting.addEdge g id dep)) deps _)
  refine Calm.trans ?_ (.counting (.enqueue _ id))
  split
  · exact hdeps.trans (.noting (Counting.addEdge _ _ _))
  · exact hdeps

theorem popDirty (h : g.popDirty = some (id, g')) : Advances g g' := by
  obtain ⟨rest, -, rfl⟩ := popDirty_eq h
  exact of_calm ⟨rfl, rfl, rfl⟩

theorem propagate (fuel : ℕ) (g : Graph τ) (toDrive : List TaskId) :
    Advances g (Graph.propagate fuel g toDrive).1 := by
  induction fuel generalizing g toDrive with
  | zero => exact refl g
  | succ fuel ih =>
    unfold Graph.propagate
    cases h : g.popDirty with
    | none => exact refl g
    | some r =>
      obtain ⟨id, g'⟩ := r
      exact ((popDirty h).trans (of_calm (.noting (Counting.recomputeCaches g' id)))).trans (ih _ _)

section lifecycle

variable [Task τ]

theorem setState_idle (g : Graph τ) (id : TaskId) : Advances g (g.setState id .idle) := by
  cases hc : g.clock id with
  | none =>
    rw [Turned.setState_none hc]
    exact refl g
  | some c =>
    by_cases hs : c.state = .idle
    · have := Turned.setState_same hc
      rw [hs] at this
      rw [this]
      exact refl g
    · refine of_turned (Turned.setState hc hs) fun c' hc' => ?_
      obtain rfl : c = c' := Option.some.inj (hc.symm.trans hc')
      exact ⟨.of_lt (Nat.lt_succ_self _), fun hd => .inr ⟨by simpa using hd, rfl⟩, fun _ => rfl⟩

theorem stopTask (g : Graph τ) (id : TaskId) (startFailed : Bool)
    (hne : ∀ c, g.clock id = some c → c.state ≠ .stopping) : Advances g (g.stopTask id startFailed) := by
  cases hc : g.clock id with
  | none =>
    have hold : (g.setState id .stopping).tasks.lookup id = none := by
      rw [Turned.setState_none hc]
      simpa [clock] using hc
    unfold Graph.stopTask
    simp only [hold]
    rw [Turned.setState_none hc]
    exact refl g
  | some c =>
    refine of_turned (turned_stopTask hc (hne c hc) startFailed) fun c' _ => ?_
    exact ⟨.of_lt (Nat.lt_succ_self _), fun hd => (by cases hd), fun _ => rfl⟩

theorem onEffect (g : Graph τ) (id : TaskId) (effect : TaskEffect) :
    Advances g (g.onEffect id effect) := by
  cases hc : g.clock id with
  | none =>
    rw [onEffect_none hc]
    exact refl g
  | some c =>
    obtain ⟨f, a, ht, hh, hs⟩ := turned_onEffect hc effect
    refine of_turned ht fun c' hc' => ?_
    obtain rfl : c = c' := Option.some.inj (hc.symm.trans hc')
    exact ⟨hh.ticks, hs, hh.timed⟩

theorem onStateTimeout (g : Graph τ) (id : TaskId) (epoch : ℕ) :
    Advances g (g.onStateTimeout id epoch) := by
  by_cases h : ∃ c, g.clock id = some c ∧ c.epoch = epoch
  · obtain ⟨c, hc, rfl⟩ := h
    obtain ⟨f, ht, he⟩ := turned_onStateTimeout hc
    refine of_turned ht fun c' hc' => ?_
    obtain rfl : c = c' := Option.some.inj (hc.symm.trans hc')
    exact ⟨he.ticks, fun hd => (by cases hd), fun _ => he.timed⟩
  · rw [onStateTimeout_stale fun c hc he => h ⟨c, hc, he⟩]
    exact refl g

theorem startTask (g : Graph τ) (id : TaskId) (hidle : ∀ c, g.clock id = some c → c.state = .idle) :
    Advances g (g.startTask id) := by
  cases hc : g.clock id with
  | none =>
    have hold : g.tasks.lookup id = none := by simpa [clock] using hc
    unfold Graph.startTask
    rw [hold]
    exact refl g
  | some c =>
    obtain ⟨ready, stopTimeout, ht⟩ := turned_startTask hc (hidle c hc)
    refine of_turned ht fun c' hc' => ?_
    obtain rfl : c = c' := Option.some.inj (hc.symm.trans hc')
    exact ⟨.of_lt (Nat.lt_succ_self _), fun hd => .inr ⟨by simpa using hd, rfl⟩, fun _ => rfl⟩

theorem killTask (hc : g.clock id = some c) : Advances g ((g.setState id .stopping).hardKill id) := by
  by_cases hs : c.state = .stopping
  · have hsame := Turned.setState_same hc
    rw [hs] at hsame
    rw [hsame]
    refine of_turned (turned_hardKill hc) fun c' hc' => ?_
    obtain rfl : c = c' := Option.some.inj (hc.symm.trans hc')
    refine ⟨.of_lt (Nat.lt_succ_self _), fun hd => (by cases hd), fun _ => ?_⟩
    show Option.isSome (some _) = c.state.waits c.ready
    rw [hs]
    rfl
  · have hset := Turned.setState hc hs
    have hk := hset.trans (turned_hardKill (hset.at_self hc))
    refine of_turned hk fun c' _ => ⟨.of_lt ?_, ?_, fun _ => rfl⟩
    · show c'.epoch < c'.epoch + 1 + 1
      omega
    · simp

theorem installTask (g : Graph τ) (hid : id ∉ g.tasks) (def' : TaskDef τ) (deps : List TaskId)
    {t : TaskHandle τ} {timer : Option Duration} (hdead : t.deadline = none)
    (htimer : timer.isSome = t.state.waits t.ready) : Advances g (g.installTask id def' deps t timer) := by
  have hnone : g.clock id = none := by
    have : g.tasks.lookup id = none := Finmap.lookup_eq_none.mpr hid
    simp [clock, this]
  have hset : ∃ d, d.isSome = timer.isSome ∧ (g.insertTask id t |>.scheduleAny id timer).frame = g.frame ∧
      (∀ x, (g.insertTask id t |>.scheduleAny id timer).clock x =
        if x = id then some { t.clock with deadline := d } else g.clock x) ∧
      ∀ x, x ∈ (g.insertTask id t |>.scheduleAny id timer).timerChanges ↔
        x ∈ g.timerChanges ∨ timer.isSome = true ∧ x = id := by
    have hc : ∀ x, (g.insertTask id t).clock x = if x = id then some t.clock else g.clock x := by
      intro x
      simp only [clock, insertTask, Finmap.lookup_insert_ite]
      split <;> rfl
    cases timer with
    | none =>
      refine ⟨none, rfl, rfl, fun x => (hc x).trans ?_, by simp [scheduleAny, insertTask]⟩
      simp [TaskHandle.clock, hdead]
    | some delay =>
      have hself : (g.insertTask id t).clock id = some t.clock := by rw [hc, if_pos rfl]
      have hs := Turned.scheduleStateTimeout hself delay
      refine ⟨some (g.now + delay), rfl, hs.frame, fun x => ?_, hs.changes⟩
      rw [scheduleAny, hs.clock, hc]
      by_cases hx : x = id
      · simp only [hx, if_true, Option.map_some]
        rfl
      · simp [hx]
  obtain ⟨d, hd, hframe, hclock, hchanges⟩ := hset
  refine trans (show Advances g (g.insertTask id t |>.scheduleAny id timer) from ⟨.of_frame hframe, ?_⟩)
    (of_calm ?_)
  · refine ⟨fun x hx => (hchanges x).mpr (.inl hx), fun x c hc => ?_, fun x c' hn hc' hx => ?_, fun ht x c' hc' => ?_⟩
    · have hx : x ≠ id := fun he => by rw [he, hnone] at hc; cases hc
      exact ⟨c, by rw [hclock, if_neg hx, hc], .refl c, fun _ => .refl c⟩
    · rw [hclock] at hc'
      by_cases hxi : x = id
      · rw [if_pos hxi] at hc'
        obtain rfl := Option.some.inj hc'
        have hn : timer.isSome = false := by
          simpa using fun h => hx ((hchanges x).mpr (.inr ⟨h, hxi⟩))
        simpa [hn] using hd
      · rw [if_neg hxi, hn] at hc'
        cases hc'
    · rw [hclock] at hc'
      by_cases hxi : x = id
      · rw [if_pos hxi] at hc'
        obtain rfl := Option.some.inj hc'
        exact hd.trans htimer
      · rw [if_neg hxi] at hc'
        exact ht x c' hc'
  · unfold Graph.installTask
    exact (calm_installed _ id def' deps).trans (.quiet (.notifySubscribers _ _ _ _ _))

theorem registerTaskWithId (g : Graph τ) (id : TaskId) (def' : TaskDef τ) (factory : TaskId → τ)
    (saved : Option Snap.Task) : Advances g (g.registerTaskWithId id def' factory saved).1 := by
  unfold Graph.registerTaskWithId
  split
  · exact refl g
  · rename_i hid
    rw [not_or] at hid
    split
    · exact refl g
    · split
      · exact refl g
      · rename_i deps _ _ g' hg'
        obtain ⟨ns, rfl⟩ := claimPath_ok hg'
        have hn : Advances g { g with ns } := of_calm ⟨rfl, rfl, rfl⟩
        refine hn.trans ?_
        exact installTask { g with ns } hid.1 def' deps (install_deadline def' (factory id) g.now saved)
          (install_timer def' (factory id) g.now saved)

theorem driveTask (g : Graph τ) (id : TaskId) : Advances g (g.driveTask id) := by
  unfold Graph.driveTask
  cases ht : g.tasks.lookup id with
  | none => exact refl g
  | some t =>
    have hstate {c : Clock} (hc : g.clock id = some c) : c.state = t.state := by
      obtain ⟨t', ht', rfl⟩ := Turned.clock_some hc
      obtain rfl : t = t' := Option.some.inj (ht.symm.trans ht')
      rfl
    have hstop (hr : t.state.isRunning = true) : Advances g (if g.hasActiveDependent id then g
        else (g.stopTask id false).note (.drivenStop id)) := by
      split
      · exact refl g
      · refine (stopTask g id false fun c hc he => ?_).trans (of_calm ⟨rfl, rfl, rfl⟩)
        rw [← hstate hc, he] at hr
        cases hr
    simp only
    split
    · cases hs : t.state with
      | idle => exact startTask g id fun c hc => (hstate hc).trans hs
      | starting | running | ready | stopping | backoff | done | exited => exact refl g
    · cases hs : t.state with
      | starting => exact hstop (by rw [hs]; rfl)
      | running => exact hstop (by rw [hs]; rfl)
      | ready => exact hstop (by rw [hs]; rfl)
      | backoff => exact setState_idle g id
      | idle | stopping | done | exited => exact refl g

theorem settleStep (h : g.settleStep = some g') : Advances g g' := by
  unfold Graph.settleStep at h
  split at h
  · cases h
    refine trans (of_calm ?_) (onEffect _ _ _)
    exact ⟨rfl, rfl, rfl⟩
  · split at h
    · cases h
    · cases h
      exact (propagate g.propagateFuel g []).trans (foldl driveTask _ _)

theorem settleSteps (n : ℕ) (g : Graph τ) : Advances g (Graph.settleSteps n g) := by
  induction n generalizing g with
  | zero => exact refl g
  | succ n ih =>
    unfold Graph.settleSteps
    cases h : g.settleStep with
    | none => exact refl g
    | some g' => exact (settleStep h).trans (ih g')

theorem settle (g : Graph τ) : Advances g g.settle := settleSteps _ g

end lifecycle

end Advances

end Graph

end Dekit
