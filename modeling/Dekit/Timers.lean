import Dekit.QuitRuns

namespace Dekit

namespace StateTimers

/-- Each timer that is armed is in the queue, once and under its own key. -/
structure Paired (timers : StateTimers) : Prop where
  keyed : ∀ e ∈ timers.queue, timers.keys e.id = some (e.epoch, e.key)
  queued : ∀ x epoch key, timers.keys x = some (epoch, key) →
    ∃ e ∈ timers.queue, e.id = x ∧ e.epoch = epoch ∧ e.key = key
  below : ∀ e ∈ timers.queue, e.key < timers.nextKey
  apart : (timers.queue.map TimerEntry.key).Nodup

variable {τ : Type} {timers : StateTimers} {id x : TaskId} {e : TimerEntry}

section paired

namespace Paired

theorem new : Paired .new := by
  constructor
  · intro e he
    cases he
  · intro x epoch key h
    cases h
  · intro e he
    cases he
  · exact List.nodup_nil

theorem eq_of_key (h : timers.Paired) {e' : TimerEntry} (he : e ∈ timers.queue) (he' : e' ∈ timers.queue)
    (hk : e.key = e'.key) : e = e' :=
  List.inj_on_of_nodup_map h.apart he he' hk

theorem expire (h : timers.Paired) (he : e ∈ timers.queue) : (timers.expire e).Paired := by
  have hmem (e' : TimerEntry) : e' ∈ (timers.expire e).queue ↔ e' ∈ timers.queue ∧ e'.key ≠ e.key := by
    simp [StateTimers.expire]
  have hid (e' : TimerEntry) (he' : e' ∈ timers.queue) (hk : e'.key ≠ e.key) : e'.id ≠ e.id := by
    intro hi
    have hkeys := h.keyed e' he'
    rw [hi, h.keyed e he] at hkeys
    exact hk (Prod.mk.inj (Option.some.inj hkeys)).2.symm
  constructor
  · intro e' he'
    obtain ⟨he', hk⟩ := (hmem e').mp he'
    show Function.update timers.keys e.id none e'.id = _
    rw [Function.update_of_ne (hid e' he' hk)]
    exact h.keyed e' he'
  · intro y epoch key hy
    have hne : y ≠ e.id := by
      rintro rfl
      simp [StateTimers.expire] at hy
    have hy : Function.update timers.keys e.id none y = some (epoch, key) := hy
    rw [Function.update_of_ne hne] at hy
    obtain ⟨e', he', rfl, rfl, rfl⟩ := h.queued y epoch key hy
    refine ⟨e', (hmem e').mpr ⟨he', fun hk => hne ?_⟩, rfl, rfl, rfl⟩
    rw [h.eq_of_key he' he hk]
  · intro e' he'
    exact h.below e' ((hmem e').mp he').1
  · exact h.apart.sublist ((List.filter_sublist).map _)

theorem cancel_eq (h : timers.Paired) (id : TaskId) :
    (timers.keys id = none ∧ timers.cancel id = timers) ∨
      ∃ e ∈ timers.queue, e.id = id ∧ timers.cancel id = timers.expire e := by
  unfold cancel
  cases hk : timers.keys id with
  | none => exact .inl ⟨rfl, rfl⟩
  | some armed =>
    obtain ⟨epoch, key⟩ := armed
    obtain ⟨e, he, rfl, -, rfl⟩ := h.queued id epoch key hk
    exact .inr ⟨e, he, rfl, rfl⟩

theorem cancel (h : timers.Paired) (id : TaskId) : (timers.cancel id).Paired := by
  rcases h.cancel_eq id with ⟨-, he⟩ | ⟨e, hm, -, he⟩
  · rw [he]
    exact h
  · rw [he]
    exact h.expire hm

theorem arm (h : timers.Paired) (hnone : timers.keys id = none) (epoch : ℕ) (due : Instant) :
    (timers.arm id epoch due).Paired := by
  have hmem (e : TimerEntry) : e ∈ (timers.arm id epoch due).queue ↔
      e ∈ timers.queue ∨ e = ⟨timers.nextKey, id, epoch, due⟩ := by
    simp [StateTimers.arm]
  have hid (e : TimerEntry) (he : e ∈ timers.queue) : e.id ≠ id := by
    intro hi
    have hkeys := h.keyed e he
    rw [hi, hnone] at hkeys
    cases hkeys
  constructor
  · intro e he
    rcases (hmem e).mp he with he | rfl
    · show Function.update timers.keys id _ e.id = _
      rw [Function.update_of_ne (hid e he)]
      exact h.keyed e he
    · exact Function.update_self _ _ _
  · intro y epoch' key hy
    by_cases hyi : y = id
    · subst hyi
      simp only [StateTimers.arm, Function.update_self, Option.some.injEq, Prod.mk.injEq] at hy
      exact ⟨_, (hmem _).mpr (.inr rfl), rfl, hy.1, hy.2⟩
    · have hy : Function.update timers.keys id (some (epoch, timers.nextKey)) y = some (epoch', key) := hy
      rw [Function.update_of_ne hyi] at hy
      obtain ⟨e, he, hrest⟩ := h.queued y epoch' key hy
      exact ⟨e, (hmem e).mpr (.inl he), hrest⟩
  · intro e he
    rcases (hmem e).mp he with he | rfl
    · exact Nat.lt_succ_of_lt (h.below e he)
    · exact Nat.lt_succ_self _
  · show ((timers.queue ++ [_]).map TimerEntry.key).Nodup
    rw [List.map_append, List.nodup_append]
    refine ⟨h.apart, List.nodup_singleton _, ?_⟩
    intro a ha b hb
    obtain ⟨e, he, rfl⟩ := List.mem_map.mp ha
    obtain rfl := List.mem_singleton.mp hb
    exact (h.below e he).ne

theorem only (h : timers.Paired) {epoch key : ℕ} (hk : timers.keys id = some (epoch, key)) :
    ∃ e, e.epoch = epoch ∧ timers.queue.filter (fun e => e.id = id) = [e] := by
  obtain ⟨e, he, rfl, hepoch, -⟩ := h.queued id epoch key hk
  refine ⟨e, hepoch, ?_⟩
  have hone : ∀ e' ∈ timers.queue.filter (fun e' => e'.id = e.id), e' = e := by
    intro e' he'
    obtain ⟨he', hi⟩ := List.mem_filter.mp he'
    have hkeys := h.keyed e' he'
    rw [of_decide_eq_true hi, h.keyed e he] at hkeys
    exact h.eq_of_key he' he (Prod.mk.inj (Option.some.inj hkeys)).2.symm
  have hnodup : (timers.queue.filter (fun e' => e'.id = e.id)).Nodup := (h.apart.of_map _).filter _
  have hmem : e ∈ timers.queue.filter (fun e' => e'.id = e.id) := by simp [he]
  generalize timers.queue.filter (fun e' => e'.id = e.id) = l at hone hnodup hmem
  match l with
  | [] => cases hmem
  | [a] => rw [List.mem_singleton.mp hmem]
  | a :: b :: l =>
    have ha := hone a List.mem_cons_self
    have hb := hone b (List.mem_cons_of_mem _ List.mem_cons_self)
    rw [ha, hb] at hnodup
    simp at hnodup

theorem none (h : timers.Paired) (hk : timers.keys id = none) : timers.queue.filter (fun e => e.id = id) = [] := by
  rw [List.filter_eq_nil_iff]
  intro e he hi
  have hkeys := h.keyed e he
  rw [of_decide_eq_true hi, hk] at hkeys
  cases hkeys

end Paired

end paired

theorem keys_cancel (timers : StateTimers) (id : TaskId) :
    (timers.cancel id).keys = Function.update timers.keys id none := by
  unfold cancel
  cases hk : timers.keys id with
  | none =>
    funext x
    by_cases hx : x = id
    · rw [hx, Function.update_self, hk]
    · rw [Function.update_of_ne hx]
  | some armed => rfl

end StateTimers

namespace Graph

variable {τ : Type} {g g' g'' : Graph τ} {x : TaskId}

def due (g : Graph τ) (x : TaskId) : Option ℕ := (g.clock x).bind fun c => c.deadline.map fun _ => c.epoch

theorem due_of_clock {c : Clock} (h : g.clock x = some c) : g.due x = c.deadline.map fun _ => c.epoch := by
  simp [due, h]

def Timely (g : Graph τ) : Prop := ∀ x c, g.clock x = some c → c.Timed

/-- Whose timer is not as it was is listed. -/
structure Passes (g g' : Graph τ) : Prop where
  changes : ∀ x ∈ g.timerChanges, x ∈ g'.timerChanges
  due : ∀ x, x ∉ g'.timerChanges → g'.due x = g.due x
  timely : g.Timely → g'.Timely

namespace Passes

theorem refl (g : Graph τ) : Passes g g := ⟨fun _ h => h, fun _ _ => rfl, fun h => h⟩

theorem trans (h : Passes g g') (h' : Passes g' g'') : Passes g g'' where
  changes x hx := h'.changes x (h.changes x hx)
  due x hx := (h'.due x hx).trans (h.due x fun hm => hx (h'.changes x hm))
  timely ht := h'.timely (h.timely ht)

theorem of_eq (hc : g'.clock = g.clock) (ht : g'.timerChanges = g.timerChanges) : Passes g g' where
  changes x hx := ht ▸ hx
  due x _ := by rw [Graph.due, hc, Graph.due]
  timely h := by rwa [Timely, hc]

theorem of_calm (h : Calm g g') : Passes g g' := of_eq h.clock h.timerChanges

theorem of_ticks (h : Ticks g g') : Passes g g' where
  changes := h.changes
  due x hx := by
    cases hc : g.clock x with
    | none =>
      cases hc' : g'.clock x with
      | none => simp [Graph.due, hc, hc']
      | some c' => simp [Graph.due, hc, hc', h.fresh x c' hc hc' hx]
    | some c =>
      obtain ⟨c', hc', -, hs⟩ := h.kept x c hc
      rw [due_of_clock hc, due_of_clock hc']
      rcases hs hx with ⟨he, hd⟩ | ⟨hd, hd'⟩
      · rw [he, hd]
      · rw [hd, hd']
        rfl
  timely := h.timed

end Passes

/-- No clock moves, and no timer is listed. -/
structure Timeless (g g' : Graph τ) : Prop where
  clock : g'.clock = g.clock
  timerChanges : g'.timerChanges = g.timerChanges

namespace Timeless

theorem refl (g : Graph τ) : Timeless g g := ⟨rfl, rfl⟩

theorem trans (h : Timeless g g') (h' : Timeless g' g'') : Timeless g g'' :=
  ⟨h'.clock.trans h.clock, h'.timerChanges.trans h.timerChanges⟩

theorem passes (h : Timeless g g') : Passes g g' := .of_eq h.clock h.timerChanges

theorem of_calm (h : Calm g g') : Timeless g g' := ⟨h.clock, h.timerChanges⟩

theorem beginQuit (g : Graph τ) : Timeless g g.beginQuit.1 := by
  unfold Graph.beginQuit
  split
  · exact refl g
  · have hq : Timeless g { g with quitting := true } := ⟨rfl, rfl⟩
    exact hq.trans (.of_calm (.counting (.forEach _ _ .enqueue)))

theorem finishFreeze (g : Graph τ) : Timeless g g.finishFreezeIfComplete.1 := by
  have hf := finishFreeze_cases g
  generalize g.finishFreezeIfComplete = r at hf ⊢
  cases hf with
  | waits => exact refl g
  | answers | saves => exact ⟨rfl, rfl⟩

variable [Task τ]

theorem thaw (g : Graph τ) : Timeless g g.thaw.1 := by
  have hq := quiet_thaw g
  exact ⟨hq.clock, hq.timerChanges⟩

theorem freeze (g : Graph τ) (reply : FreezeReply) : Timeless g (g.freeze reply) := by
  have hf := freeze_froze g reply
  exact ⟨hf.clock, hf.timerChanges⟩

theorem beginFreeze (g : Graph τ) (reply : ReplyId) : Timeless g (g.beginFreeze reply) := by
  unfold Graph.beginFreeze
  split
  · exact ⟨rfl, rfl⟩
  · split
    · exact ⟨rfl, rfl⟩
    · exact freeze g _

omit [Task τ] in
theorem onTaskFrozen (g : Graph τ) (id : TaskId) (number : ℕ) (snapshot : Snap.TaskKind) :
    Timeless g (g.onTaskFrozen id number snapshot) := by
  unfold Graph.onTaskFrozen
  cases g.frozen with
  | none => exact refl g
  | some frozen =>
    simp only
    split
    · exact refl g
    · exact ⟨rfl, rfl⟩

end Timeless

theorem clock_dropHandle (g : Graph τ) (id : TaskId) (handle : TaskHandle τ) (x : TaskId) :
    (g.dropHandle id handle).clock x = if x = id then none else g.clock x := by
  have htasks : (g.dropHandle id handle).tasks = g.tasks.erase id := by
    unfold Graph.dropHandle unindexTags
    cases handle.path <;> rfl
  rw [Graph.clock, htasks, Finmap.lookup_erase_ite]
  split <;> rfl

theorem Passes.dropHandle {id : TaskId} {handle : TaskHandle τ} (ht : g.tasks.lookup id = some handle) :
    Passes g (g.dropHandle id handle) := by
  have hchanges : (g.dropHandle id handle).timerChanges =
      if handle.deadline.isSome then g.timerChanges ++ [id] else g.timerChanges := by
    unfold Graph.dropHandle unindexTags
    cases handle.path <;> rfl
  refine ⟨fun x hx => ?_, fun x hx => ?_, fun h x c hc => ?_⟩
  · rw [hchanges]
    split
    · exact List.mem_append_left _ hx
    · exact hx
  · rw [Graph.due, clock_dropHandle, Graph.due]
    split
    · rename_i he
      rw [hchanges] at hx
      cases hd : handle.deadline with
      | none =>
        subst he
        simp [Graph.clock, ht, TaskHandle.clock, hd]
      | some due => simp [hd, he] at hx
    · rfl
  · rw [clock_dropHandle] at hc
    split at hc
    · cases hc
    · exact h x c hc

section commands

variable [Task τ]

theorem calm_removeTask {id : TaskId} {handle : TaskHandle τ} (ht : g.tasks.lookup id = some handle) :
    Calm (g.dropHandle id handle) (g.removeTask id) := by
  have hedges := Counting.dropEdges (g.dropHandle id handle) id handle.wanted handle.state.isActive
  unfold Graph.removeTask
  rw [ht]
  refine (Calm.counting hedges).trans ?_
  simp only
  refine Calm.trans ?_ (.quiet (.notifySubscribers _ _ _ _ _))
  exact ⟨rfl, rfl, rfl⟩

theorem removeTask_absent {id : TaskId} (ht : g.tasks.lookup id = none) : g.removeTask id = g := by
  unfold Graph.removeTask
  rw [ht]

theorem Passes.removeTask (g : Graph τ) (id : TaskId) : Passes g (g.removeTask id) := by
  cases ht : g.tasks.lookup id with
  | none =>
    rw [removeTask_absent ht]
    exact refl g
  | some handle => exact (dropHandle ht).trans (.of_calm (calm_removeTask ht))

theorem Passes.removeCommand (h : Valid g) (sender : TaskId) (selector : TaskSelector) :
    Passes g (g.removeCommand sender selector).1 := by
  unfold Graph.removeCommand
  have htasks : Valid ((g.removal sender selector).1.foldl Graph.removeTask g) ∧
      Passes g ((g.removal sender selector).1.foldl Graph.removeTask g) :=
    Fold.foldl_invariant (P := fun g' => Valid g' ∧ Passes g g')
      (fun g' hg id _ => ⟨hg.1.removeTask id, hg.2.trans (.removeTask g' id)⟩) ⟨h, .refl g⟩
  have hfolders := Runs.foldl_still (fun g id => Runs.removeFolder g id) (g.removal sender selector).2
    ((g.removal sender selector).1.foldl Graph.removeTask g) htasks.1.sound htasks.1.next
  exact htasks.2.trans (.of_ticks hfolders.advances.ticks)

theorem perform_timed (h : Valid g) (sender : TaskId) (command : KernelCommand τ) :
    Ticks g (g.perform sender command) ∨
      (∃ selector, Timeless (g.removeCommand sender selector).1 (g.perform sender command)) ∨
      Timeless g (g.perform sender command) := by
  by_cases ho : command.operates = true
  · exact .inl (Runs.perform g sender ho h.sound h.next).advances.ticks
  · cases command with
    | remove selector ack =>
      refine .inr (.inl ⟨selector, ?_⟩)
      cases ack with
      | none => exact .refl _
      | some reply => exact ⟨rfl, rfl⟩
    | freeze reply => exact .inr (.inr (.beginFreeze g reply))
    | taskFrozen number snapshot => exact .inr (.inr (.onTaskFrozen g sender number snapshot))
    | _ => exact absurd rfl ho

theorem Passes.perform (h : Valid g) (sender : TaskId) (command : KernelCommand τ) :
    Passes g (g.perform sender command) := by
  rcases perform_timed h sender command with ht | ⟨selector, hr⟩ | ht
  · exact .of_ticks ht
  · exact (removeCommand h sender selector).trans hr.passes
  · exact ht.passes

end commands

/-- Every timer is armed at the epoch it is due at, but for those that `held` says have come due. -/
def Matches (g : Graph τ) (keys : TaskId → Option (ℕ × ℕ)) (held : TaskId → ℕ → Prop) : Prop :=
  ∀ x, x ∉ g.timerChanges →
    (keys x).map Prod.fst = g.due x ∨ keys x = none ∧ ∃ epoch, g.due x = some epoch ∧ held x epoch

section matched

variable {keys : TaskId → Option (ℕ × ℕ)} {held held' : TaskId → ℕ → Prop}

theorem Matches.passes (h : Matches g keys held) (hp : Passes g g') : Matches g' keys held := by
  intro x hx
  rw [hp.due x hx]
  exact h x fun hm => hx (hp.changes x hm)

theorem Matches.mono (h : Matches g keys held) (hh : ∀ x epoch, held x epoch → held' x epoch) :
    Matches g keys held' := by
  intro x hx
  rcases h x hx with he | ⟨hn, epoch, hd, hp⟩
  · exact .inl he
  · exact .inr ⟨hn, epoch, hd, hh x epoch hp⟩

theorem Matches.timeout [Task τ] {id : TaskId} {epoch : ℕ}
    (h : Matches g keys fun x e => held x e ∨ x = id ∧ e = epoch) :
    Matches (g.onStateTimeout id epoch) keys held := by
  by_cases hstale : ∃ c, g.clock id = some c ∧ c.epoch = epoch
  · obtain ⟨c, hc, rfl⟩ := hstale
    obtain ⟨f, ht, -⟩ := turned_onStateTimeout hc
    intro x hx
    rw [ht.changes, not_or] at hx
    have hne : x ≠ id := by simpa using hx.2
    have hd : (g.onStateTimeout id c.epoch).due x = g.due x := by
      rw [due, ht.clock, if_neg hne, due]
    rw [hd]
    rcases h x hx.1 with he | ⟨hn, e, hde, hp | ⟨rfl, -⟩⟩
    · exact .inl he
    · exact .inr ⟨hn, e, hde, hp⟩
    · exact absurd rfl hne
  · rw [onStateTimeout_stale fun c hc he => hstale ⟨c, hc, he⟩]
    intro x hx
    rcases h x hx with he | ⟨hn, e, hd, hp | ⟨rfl, rfl⟩⟩
    · exact .inl he
    · exact .inr ⟨hn, e, hd, hp⟩
    · obtain ⟨c, hc, hce⟩ := Option.bind_eq_some_iff.mp hd
      obtain ⟨-, -, he⟩ := Option.map_eq_some_iff.mp hce
      exact absurd ⟨c, hc, he⟩ hstale

end matched

end Graph

open Dekit.Graph

namespace StateTimers

variable {τ : Type} {g : Graph τ} {timers : StateTimers} {id x : TaskId}

theorem due_eq (g : Graph τ) (id : TaskId) : g.due id =
    ((g.tasks.lookup id).bind (fun t => t.deadline.map (fun d => (t.epoch, d - g.now)))).map Prod.fst := by
  unfold due clock
  cases g.tasks.lookup id with
  | none => rfl
  | some t =>
    simp only [Option.map_some, Option.bind_some, TaskHandle.clock]
    cases t.deadline <;> rfl

theorem keys_updateOne (g : Graph τ) (timers : StateTimers) (id : TaskId) :
    ((updateOne g timers id).keys id).map Prod.fst = g.due id ∧
      ∀ x, x ≠ id → (updateOne g timers id).keys x = timers.keys x := by
  rw [due_eq]
  unfold updateOne
  generalize (g.tasks.lookup id).bind (fun t => t.deadline.map (fun d => (t.epoch, d - g.now))) = timer
  simp only
  split
  · rename_i hsame
    refine ⟨?_, fun x _ => rfl⟩
    cases hk : timers.keys id with
    | none => simp [hk] at hsame
    | some armed => cases timer with
      | none => simp [hk] at hsame
      | some timer => simpa [hk] using hsame
  · cases timer with
    | none =>
      refine ⟨?_, fun x hx => ?_⟩
      · simp [keys_cancel]
      · simp only [keys_cancel, Function.update_of_ne hx]
    | some timer =>
      refine ⟨?_, fun x hx => ?_⟩
      · simp [arm]
      · simp only [arm, keys_cancel, Function.update_of_ne hx]

theorem keys_updates (g : Graph τ) (timers : StateTimers) (l : List TaskId) (x : TaskId) :
    (x ∈ l → ((l.foldl (updateOne g) timers).keys x).map Prod.fst = g.due x) ∧
      (x ∉ l → (l.foldl (updateOne g) timers).keys x = timers.keys x) := by
  have hdone (l : List TaskId) (timers : StateTimers) (h : (timers.keys x).map Prod.fst = g.due x) :
      ((l.foldl (updateOne g) timers).keys x).map Prod.fst = g.due x := by
    induction l generalizing timers with
    | nil => exact h
    | cons id l ih =>
      apply ih
      obtain ⟨hself, hrest⟩ := keys_updateOne g timers id
      by_cases hx : x = id
      · rw [hx]
        exact hself
      · rw [hrest x hx]
        exact h
  induction l generalizing timers with
  | nil => exact ⟨fun h => absurd h List.not_mem_nil, fun _ => rfl⟩
  | cons id l ih =>
    obtain ⟨hself, hrest⟩ := keys_updateOne g timers id
    constructor
    · intro hx
      rcases List.mem_cons.mp hx with rfl | hx
      · exact hdone l _ hself
      · exact (ih _).1 hx
    · intro hx
      rw [List.mem_cons, not_or] at hx
      rw [List.foldl_cons, (ih _).2 hx.2, hrest x hx.1]

theorem Paired.updateOne (h : timers.Paired) (g : Graph τ) (id : TaskId) : (updateOne g timers id).Paired := by
  unfold StateTimers.updateOne
  generalize (g.tasks.lookup id).bind (fun t => t.deadline.map (fun d => (t.epoch, d - g.now))) = timer
  simp only
  split
  · exact h
  · cases timer with
    | none => exact h.cancel id
    | some timer =>
      apply (h.cancel id).arm
      rw [keys_cancel, Function.update_self]

theorem Paired.updates (h : timers.Paired) (g : Graph τ) (l : List TaskId) :
    (l.foldl (StateTimers.updateOne g) timers).Paired :=
  Fold.foldl_invariant (fun _ ht id _ => ht.updateOne g id) h

end StateTimers

namespace Gate

variable {τ : Type} {save dead : Bool} {g g₁ g' : Gate τ} {msg m : KernelMessage τ}

def Holds (g : Gate τ) (m : KernelMessage τ) : Prop := m ∈ g.deferred ∨ m ∈ g.replay

/-- The timeouts that came due and wait for their turn. -/
def heldTimeout (g : Gate τ) (x : TaskId) (epoch : ℕ) : Prop := ∃ m, g.Holds m ∧ m.command = .stateTimeout x epoch

theorem Holds.thaw (h : g.Holds m) : g.thaw.Holds m :=
  .inr (List.mem_append.mpr h.symm)

theorem Holds.dispatches (hm : g.Holds m) (h : Dispatches save dead g msg g') : g'.Holds m := by
  cases h with
  | @deferred h hh _ =>
    apply hm.imp_left
    intro hd
    have hd : m ∈ h.deferred := by simpa [Gate.deferred, hh] using hd
    exact List.mem_append_left _ hd
  | covered => exact hm
  | @handled g₁ _ hd hp hf =>
    have hm : (g.take msg).Holds m := hm
    have hfreeze (hhold : (g.take msg).hold = none) : m ∈ g.replay := by
      rcases hm with hm | hm
      · rw [deferred_none hhold] at hm
        cases hm
      · exact hm
    have hrun : g₁.Holds m := by
      cases hp with
      | plain | late | quits => exact hm
      | freezes _ _ hhold _ => exact .inr (hfreeze hhold)
      | saves hc _ _ => exact .inr (hfreeze (hd.resolve_right (KernelCommand.disposition_of_saves hc)))
      | timesOut | drops | thaws => exact hm.thaw
    cases hf with
    | waits => exact hrun
    | @answers h reply hh _ =>
      apply hrun.imp_left
      intro hd
      simpa [Gate.deferred, hh] using hd
    | saves => exact hrun.thaw

theorem Holds.of_deferred (h : Dispatches save dead g msg g') {hold : Hold τ} (hh : g.hold = some hold)
    (hd : msg.command.disposition g.forQuit = .deferred) : g'.Holds msg := by
  cases h with
  | deferred => exact .inl (List.mem_append_right _ (List.mem_singleton_self _))
  | covered _ hd' | handled hd' _ _ => simp_all

end Gate

open Dekit.Gate Dekit.StateTimers

namespace Kernel

variable {τ : Type} [Task τ] {k k₀ k' : Kernel τ} {msg : KernelMessage τ}

/-- The timers are as the tasks say, but for what is listed as changed. -/
structure Ticking (k : Kernel τ) : Prop where
  paired : k.timers.Paired
  timely : k.graph.Timely
  matched : Matches k.graph k.timers.keys k.gate.heldTimeout
  listed : k.graph.frozen = none → k.exited = false → k.graph.timerChanges = []

section dispatch

theorem timers_quit (k : Kernel τ) (save : Bool) (reply : Option ReplyId) :
    (k.quit save reply).1.timers = k.timers := by
  unfold quit
  split
  · rfl
  · split <;> rfl

theorem timers_runCommand (k : Kernel τ) (msg : KernelMessage τ) : (k.runCommand msg).1.timers = k.timers := by
  obtain ⟨sender, command⟩ := msg
  unfold runCommand
  cases command with
  | quit => exact timers_quit k true none
  | quitWithoutSave => exact timers_quit k false none
  | quitWithin save reply => exact timers_quit k save (some reply)
  | freezeTimeout number =>
    simp only
    split <;> rfl
  | _ => rfl

theorem timers_finishFreeze (k : Kernel τ) : k.finishFreeze.1.timers = k.timers := by
  unfold finishFreeze
  split <;> rfl

theorem timers_dispatchNow (k : Kernel τ) (msg : KernelMessage τ) : (k.dispatchNow msg).1.timers = k.timers := by
  have hr := timers_runCommand { k with handled := k.handled ++ [msg] } msg
  unfold dispatchNow
  generalize ({ k with handled := k.handled ++ [msg] } : Kernel τ).runCommand msg = r at hr ⊢
  obtain ⟨k', exit⟩ := r
  cases exit with
  | none => exact (timers_finishFreeze k').trans hr
  | some exit => exact hr

theorem timers_dispatch (k : Kernel τ) (msg : KernelMessage τ) : (k.dispatch msg).1.timers = k.timers := by
  unfold dispatch
  cases k.graph.frozen with
  | none => exact timers_dispatchNow k msg
  | some frozen =>
    simp only
    cases msg.command.disposition k.graph.freezingForQuit with
    | now => exact timers_dispatchNow k msg
    | covered =>
      unfold cover
      cases msg.command <;> rfl
    | deferred => rfl

theorem timeless_quit (k : Kernel τ) (save : Bool) (reply : Option ReplyId) :
    Timeless k.graph (k.quit save reply).1.graph := by
  have hans (k : Kernel τ) (a : Answer) : Timeless k.graph (k.answerIf reply a).graph := by
    cases reply <;> exact ⟨rfl, rfl⟩
  unfold quit
  split
  · exact (hans k _).trans (.freeze _ _)
  · have hq (k : Kernel τ) : Timeless k.graph k.beginQuit.1.graph := .beginQuit _
    refine Timeless.trans ?_ (hans _ _)
    refine Timeless.trans ?_ (hq _)
    split
    · exact .thaw _
    · exact .refl _

theorem timeless_finishFreeze (k : Kernel τ) : Timeless k.graph k.finishFreeze.1.graph := by
  have hf := Timeless.finishFreeze k.graph
  unfold finishFreeze
  generalize k.graph.finishFreezeIfComplete = r at hf ⊢
  obtain ⟨g, saved⟩ := r
  cases saved with
  | none => exact hf
  | some snapshot => exact (hf.trans (.thaw g)).trans (.beginQuit _)

theorem graph_runCommand (k : Kernel τ) (msg : KernelMessage τ) :
    ∃ g, (g = k.graph ∨ g = k.graph.perform msg.sender msg.command) ∧ Timeless g (k.runCommand msg).1.graph := by
  obtain ⟨sender, command⟩ := msg
  unfold runCommand
  cases command with
  | quit => exact ⟨_, .inl rfl, timeless_quit k true none⟩
  | quitWithoutSave => exact ⟨_, .inl rfl, timeless_quit k false none⟩
  | quitWithin save reply => exact ⟨_, .inl rfl, timeless_quit k save (some reply)⟩
  | freezeTimeout number =>
    refine ⟨_, .inl rfl, ?_⟩
    simp only
    split
    · exact (Timeless.thaw _).trans (.beginQuit _)
    · exact .refl _
  | thaw => exact ⟨_, .inl rfl, .thaw _⟩
  | _ => exact ⟨_, .inr rfl, .refl _⟩

theorem graph_dispatchNow (k : Kernel τ) (msg : KernelMessage τ) :
    ∃ g, (g = k.graph ∨ g = k.graph.perform msg.sender msg.command) ∧ Timeless g (k.dispatchNow msg).1.graph := by
  obtain ⟨g, hg, ht⟩ := graph_runCommand { k with handled := k.handled ++ [msg] } msg
  refine ⟨g, hg, ?_⟩
  unfold dispatchNow
  generalize ({ k with handled := k.handled ++ [msg] } : Kernel τ).runCommand msg = r at ht ⊢
  obtain ⟨k', exit⟩ := r
  cases exit with
  | none => exact ht.trans (timeless_finishFreeze k')
  | some exit => exact ht

theorem graph_dispatch (k : Kernel τ) (msg : KernelMessage τ) :
    ∃ g, (g = k.graph ∨ g = k.graph.perform msg.sender msg.command) ∧ Timeless g (k.dispatch msg).1.graph := by
  unfold dispatch
  cases k.graph.frozen with
  | none => exact graph_dispatchNow k msg
  | some frozen =>
    simp only
    cases msg.command.disposition k.graph.freezingForQuit with
    | now => exact graph_dispatchNow k msg
    | covered =>
      refine ⟨_, .inl rfl, ?_⟩
      unfold cover
      cases msg.command <;> exact ⟨rfl, rfl⟩
    | deferred => exact ⟨_, .inl rfl, rfl, rfl⟩

theorem passes_dispatch (h : Valid k.graph) (msg : KernelMessage τ) :
    Passes k.graph (k.dispatch msg).1.graph := by
  obtain ⟨g, rfl | rfl, ht⟩ := graph_dispatch k msg
  · exact ht.passes
  · exact (Passes.perform h msg.sender msg.command).trans ht.passes

theorem dispatch_timeout (hf : k.graph.frozen = none) (sender id : TaskId) (epoch : ℕ) :
    (k.dispatch ⟨sender, .stateTimeout id epoch⟩).1.graph = k.graph.onStateTimeout id epoch := by
  have hnone : (k.graph.onStateTimeout id epoch).frozen = none :=
    (Advances.onStateTimeout k.graph id epoch).kept.frozen.trans hf
  unfold dispatch
  rw [hf]
  simp only [dispatchNow, runCommand, perform, finishFreeze, finishFreezeIfComplete, hnone]

end dispatch

section turn

theorem Ticking.afterDispatch (hp : k.timers.Paired) (ht : k.graph.Timely)
    (hm : Matches k.graph k.timers.keys k.gate.heldTimeout) : Ticking k.afterDispatch := by
  have hgate := gate_afterDispatch k
  unfold Kernel.afterDispatch at hgate ⊢
  split
  · rename_i hf
    refine ⟨hp, ht, hm, fun hn _ => ?_⟩
    rw [hn] at hf
    cases hf
  · rename_i hf
    rw [if_neg hf] at hgate
    have hs : Passes k.graph k.graph.settle := .of_ticks (Advances.settle k.graph).ticks
    have hm' := hm.passes hs
    refine ⟨hp.updates _ _, hs.timely ht, ?_, fun _ _ => rfl⟩
    rw [hgate]
    intro x _
    obtain ⟨hin, hout⟩ := keys_updates k.graph.settle k.timers k.graph.settle.timerChanges x
    by_cases hx : x ∈ k.graph.settle.timerChanges
    · exact .inl (hin hx)
    · simp only
      rw [hout hx]
      exact hm' x hx

theorem ticking_turn (hv : Valid k.graph) (hp : k.timers.Paired) (ht : k.graph.Timely) (now : Instant)
    (hm : Matches k.graph k.timers.keys fun x e => k.gate.heldTimeout x e ∨ msg.command = .stateTimeout x e) :
    Ticking (k.turn now msg) := by
  have hv' : Valid ({ k with graph := { k.graph with now } } : Kernel τ).graph := hv.same rfl rfl rfl rfl
  have hgate := dispatches_dispatch hv' msg
  have hpass := passes_dispatch hv' msg
  have htimers := timers_dispatch { k with graph := { k.graph with now } } msg
  have hkeep (x : TaskId) (e : ℕ) (hx : k.gate.heldTimeout x e) :
      (({ k with graph := { k.graph with now } } : Kernel τ).dispatch msg).1.gate.heldTimeout x e := by
    obtain ⟨m, hm, hc⟩ := hx
    exact ⟨m, Holds.dispatches (g := { k.gate with now }) hm hgate, hc⟩
  have hmatch : Matches (({ k with graph := { k.graph with now } } : Kernel τ).dispatch msg).1.graph k.timers.keys
      (({ k with graph := { k.graph with now } } : Kernel τ).dispatch msg).1.gate.heldTimeout := by
    obtain ⟨sender, command⟩ := msg
    by_cases htime : ∃ x e, command = .stateTimeout x e
    · obtain ⟨id, epoch, rfl⟩ := htime
      cases hf : k.graph.frozen with
      | none =>
        rw [dispatch_timeout (k := { k with graph := { k.graph with now } }) hf]
        apply Matches.timeout
        refine Matches.mono (g := { k.graph with now }) hm ?_
        rintro x e (hx | hx)
        · exact .inl (hkeep x e hx)
        · obtain ⟨rfl, rfl⟩ := KernelCommand.stateTimeout.inj hx
          exact .inr ⟨rfl, rfl⟩
      | some frozen =>
        have hhold : ({ k with graph := { k.graph with now } } : Kernel τ).gate.hold = some frozen.hold := by
          simp [gate, hf]
        refine (Matches.mono (g := { k.graph with now }) hm ?_).passes hpass
        rintro x e (hx | hx)
        · exact hkeep x e hx
        · exact ⟨_, Holds.of_deferred hgate hhold rfl, hx⟩
    · refine (Matches.mono (g := { k.graph with now }) hm ?_).passes hpass
      rintro x e (hx | hx)
      · exact hkeep x e hx
      · exact absurd ⟨x, e, hx⟩ htime
  have ht' := hpass.timely ht
  unfold turn
  generalize ({ k with graph := { k.graph with now } } : Kernel τ).dispatch msg = r at hmatch ht' htimers ⊢
  obtain ⟨k', exit⟩ := r
  simp only at hmatch ht' htimers
  rw [← htimers] at hmatch hp
  cases exit with
  | true => exact ⟨hp, ht', hmatch, fun _ h => (by cases h)⟩
  | false =>
    obtain ⟨hp', hti, hma, hli⟩ := Ticking.afterDispatch hp ht' hmatch
    refine ⟨hp', hti, hma, fun hn _ => ?_⟩
    simp only at hn ⊢
    by_cases hf : k'.graph.frozen = none
    · have hset : k'.afterDispatch.graph.timerChanges = [] := by
        unfold Kernel.afterDispatch
        simp [hf]
      exact hset
    · have hset : k'.afterDispatch = k' := by
        unfold Kernel.afterDispatch
        rw [if_pos (Option.isSome_iff_ne_none.mpr hf)]
      rw [hset] at hn
      exact absurd hn hf

end turn

end Kernel

end Dekit
