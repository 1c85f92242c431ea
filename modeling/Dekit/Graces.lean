import Dekit.Epochs
import Dekit.Winding

namespace Dekit

namespace Clock

variable {c : Clock} {now now' : ℕ}

def Graced (now : ℕ) (c : Clock) : Prop :=
  c.state = .stopping → c.alarm ≤ now + if c.killed then killWait else c.stopTimeout

theorem Graced.of_ne (h : c.state ≠ .stopping) : c.Graced now := fun hs => absurd hs h

theorem Graced.later (h : c.Graced now) (hn : now ≤ now') : c.Graced now' := fun hs =>
    (h hs).trans (Nat.add_le_add_right hn _)

end Clock

namespace Graph

variable {τ : Type} {g g' g'' : Graph τ} {id x : TaskId} {c c' : Clock} {now : ℕ} {k : ℕ}

def Graced (g : Graph τ) : Prop := ∀ x c, g.clock x = some c → c.Graced g.now

theorem Graced.of_clock (h : g.Graced) (hc : g'.clock = g.clock) (hn : g.now ≤ g'.now) : g'.Graced := by
  intro x c hx
  rw [hc] at hx
  exact (h x c hx).later hn

theorem landed_ne_stopping {state : TaskState} {due : Instant} (hs : state.isActive = false) :
    (landed due state c).state ≠ .stopping := by
  intro h
  have hstate : (landed due state c).state = state := by
    unfold landed
    split <;> rfl
  rw [hstate] at h
  rw [h] at hs
  cases hs

theorem Heeds.graced (h : Heeds now c c') (hc : c.Graced now) : c'.Graced now := by
  cases h with
  | ignored => exact hc
  | up | running | waiting => exact .of_ne fun hs => by cases hs
  | ended _ hs => exact .of_ne (landed_ne_stopping hs)

theorem Expires.graced (h : Expires now c c') : c'.Graced now := by
  cases h with
  | retried => exact .of_ne fun hs => by cases hs
  | killed => exact fun _ => le_rfl
  | gaveUp _ _ hs => exact .of_ne (landed_ne_stopping hs)
  | failed => exact fun _ => le_rfl
  | nothing hw =>
    refine .of_ne fun hs => ?_
    have hs : c.state = .stopping := hs
    rw [hs] at hw
    cases hw

/-- No task goes, and none is given more time than it should be. -/
structure Graces (g g' : Graph τ) : Prop where
  now : g'.now = g.now
  clock : ∀ x c, g.clock x = some c → ∃ c', g'.clock x = some c' ∧ (c.Graced g.now → c'.Graced g.now)

namespace Graces

theorem of_clock (hn : g'.now = g.now) (hc : g'.clock = g.clock) : Graces g g' :=
  ⟨hn, fun x c h => ⟨c, by rw [hc, h], id⟩⟩

theorem refl (g : Graph τ) : Graces g g := of_clock rfl rfl

theorem trans (h : Graces g g') (h' : Graces g' g'') : Graces g g'' := by
  refine ⟨h'.now.trans h.now, fun x c hc => ?_⟩
  obtain ⟨c', hc', hg⟩ := h.clock x c hc
  obtain ⟨c'', hc'', hg'⟩ := h'.clock x c' hc'
  rw [h.now] at hg'
  exact ⟨c'', hc'', fun hx => hg' (hg hx)⟩

theorem of_calm (h : Calm g g') : Graces g g' := of_clock (Kept.of_frame h.frame).now h.clock

theorem of_turned {f : Clock → Clock} {a : Bool} (h : Turned id f a g g')
    (hf : ∀ c, g.clock id = some c → c.Graced g.now → (f c).Graced g.now) : Graces g g' := by
  refine ⟨h.now, fun x c hc => ?_⟩
  rw [h.clock, hc]
  split
  · rename_i hx
    exact ⟨f c, rfl, hf c (hx ▸ hc)⟩
  · exact ⟨c, rfl, fun hg => hg⟩

variable [Task τ]

theorem setState {state : TaskState} (g : Graph τ) (id : TaskId) (hs : state ≠ .stopping) :
    Graces g (g.setState id state) := by
  cases hc : g.clock id with
  | none =>
    rw [Turned.setState_none hc]
    exact refl g
  | some c =>
    by_cases he : c.state = state
    · rw [← he, Turned.setState_same hc]
      exact refl g
    · exact of_turned (.setState hc he) fun _ _ _ => .of_ne hs

theorem stopTask (g : Graph τ) (id : TaskId) (startFailed : Bool)
    (hne : ∀ c, g.clock id = some c → c.state ≠ .stopping) :
    Graces g (g.stopTask id startFailed) := by
  cases hc : g.clock id with
  | none =>
    have hold : (g.setState id .stopping).tasks.lookup id = none := by
      rw [Turned.setState_none hc]
      simpa [Graph.clock] using hc
    unfold Graph.stopTask
    simp only [hold]
    rw [Turned.setState_none hc]
    exact refl g
  | some c => exact of_turned (turned_stopTask hc (hne c hc) startFailed) fun _ _ _ _ => le_rfl

theorem killTask (hc : g.clock id = some c) : Graces g ((g.setState id .stopping).hardKill id) := by
  by_cases hs : c.state = .stopping
  · have hsame := Turned.setState_same hc
    rw [hs] at hsame
    rw [hsame]
    exact of_turned (turned_hardKill hc) fun _ _ _ _ => le_rfl
  · have hset := Turned.setState hc hs
    have hk := hset.trans (turned_hardKill (hset.at_self hc))
    refine of_turned hk fun _ _ _ _ => ?_
    rw [hset.now]
    exact le_rfl

theorem onEffect (g : Graph τ) (id : TaskId) (effect : TaskEffect) : Graces g (g.onEffect id effect) := by
  cases hc : g.clock id with
  | none =>
    rw [onEffect_none hc]
    exact refl g
  | some c =>
    obtain ⟨f, a, ht, hh, -⟩ := turned_onEffect hc effect
    refine of_turned ht fun c' hc' => ?_
    obtain rfl := Option.some.inj (hc.symm.trans hc')
    exact hh.graced

theorem onStateTimeout (g : Graph τ) (id : TaskId) (epoch : ℕ) : Graces g (g.onStateTimeout id epoch) := by
  by_cases h : ∃ c, g.clock id = some c ∧ c.epoch = epoch
  · obtain ⟨c, hc, rfl⟩ := h
    obtain ⟨f, ht, he⟩ := turned_onStateTimeout hc
    refine of_turned ht fun c' hc' _ => ?_
    obtain rfl := Option.some.inj (hc.symm.trans hc')
    exact he.graced
  · rw [onStateTimeout_stale fun c hc he => h ⟨c, hc, he⟩]
    exact refl g

omit [Task τ] in
theorem propagate (fuel : ℕ) (g : Graph τ) (L : List TaskId) : Graces g (Graph.propagate fuel g L).1 := by
  induction fuel generalizing g L with
  | zero => exact refl g
  | succ fuel ih =>
    unfold Graph.propagate
    cases hpop : g.popDirty with
    | none => exact refl g
    | some r =>
      obtain ⟨id, g'⟩ := r
      obtain ⟨rest, -, rfl⟩ := popDirty_eq hpop
      have hpopped : Graces g { g with dirty := rest, inQueue := g.inQueue.erase id } := of_clock rfl rfl
      exact (hpopped.trans (of_calm (.noting (Counting.recomputeCaches _ id)))).trans (ih _ _)

theorem driveTask (g : Graph τ) (id : TaskId) : Graces g (g.driveTask id) := by
  unfold Graph.driveTask
  cases ht : g.tasks.lookup id with
  | none => exact refl g
  | some t =>
    have hc : g.clock id = some t.clock := by rw [Graph.clock, ht, Option.map_some]
    have hstop (hr : t.state.isRunning = true) :
        Graces g (if g.hasActiveDependent id then g else (g.stopTask id false).note (.drivenStop id)) := by
      split
      · exact refl g
      · refine (stopTask g id false fun c' hc' he => ?_).trans (of_clock rfl rfl)
        obtain rfl := Option.some.inj (hc.symm.trans hc')
        rw [show t.state = .stopping from he] at hr
        cases hr
    simp only
    split
    · cases hs : t.state with
      | idle =>
        obtain ⟨ready, stopTimeout, hturn⟩ := turned_startTask hc hs
        exact of_turned hturn fun _ _ _ => .of_ne fun he => by cases he
      | starting | running | ready | stopping | backoff | done | exited => exact refl g
    · cases hs : t.state with
      | starting | running | ready => exact hstop (by rw [hs]; rfl)
      | backoff => exact setState g id (by simp)
      | idle | stopping | done | exited => exact refl g

theorem settleStep (h : g.settleStep = some g') : Graces g g' := by
  unfold Graph.settleStep at h
  split at h
  · rename_i id effect rest _
    obtain rfl := Option.some.inj h
    have hpop : Graces g { g with pendingEffects := rest } := of_clock rfl rfl
    exact hpop.trans (onEffect _ id effect)
  · split at h
    · cases h
    · obtain rfl := Option.some.inj h
      exact (propagate g.propagateFuel g []).trans
        (Fold.foldl_rel refl (fun _ _ _ => trans) (fun g x _ => driveTask g x) _)

theorem settle (g : Graph τ) : Graces g g.settle := by
  unfold Graph.settle
  generalize g.settleBudget + 1 = n
  induction n generalizing g with
  | zero => exact refl g
  | succ n ih =>
    unfold settleSteps
    cases h : g.settleStep with
    | none => exact refl g
    | some g' => exact (settleStep h).trans (ih g')

end Graces

section registered

variable [Task τ]

theorem clock_installTask (g : Graph τ) (id : TaskId) (def' : TaskDef τ) (deps : List TaskId) (t : TaskHandle τ)
    (timer : Option Duration) : ∃ d, ∀ x, (g.installTask id def' deps t timer).clock x =
      if x = id then some { t.clock with deadline := d } else g.clock x := by
  have hinsert (x : TaskId) : (g.insertTask id t).clock x = if x = id then some t.clock else g.clock x := by
    simp only [Graph.clock, insertTask, Finmap.lookup_insert_ite]
    split <;> rfl
  have hset : ∃ d, ∀ x, (g.insertTask id t |>.scheduleAny id timer).clock x =
      if x = id then some { t.clock with deadline := d } else g.clock x := by
    cases timer with
    | none => exact ⟨t.deadline, hinsert⟩
    | some delay =>
      have hself : (g.insertTask id t).clock id = some t.clock := by rw [hinsert, if_pos rfl]
      refine ⟨some (g.now + delay), fun x => ?_⟩
      rw [scheduleAny, (Turned.scheduleStateTimeout hself delay).clock, hinsert]
      by_cases hx : x = id
      · simp only [hx, if_true, Option.map_some]
        rfl
      · simp [hx]
  obtain ⟨d, hd⟩ := hset
  refine ⟨d, fun x => ?_⟩
  rw [← hd]
  unfold Graph.installTask
  exact congrFun ((Advances.calm_installed _ id def' deps).trans (.quiet (.notifySubscribers _ _ _ _ _))).clock x

theorem clock_registerTaskWithId (g : Graph τ) (id : TaskId) (def' : TaskDef τ) (factory : TaskId → τ)
    (saved : Option Snap.Task) :
    (∀ x c, g.clock x = some c → (g.registerTaskWithId id def' factory saved).1.clock x = some c) ∧
      ∀ x c', (g.registerTaskWithId id def' factory saved).1.clock x = some c' → g.clock x = some c' ∨
        (saved = none → c'.state = .idle) := by
  unfold Graph.registerTaskWithId
  split
  · exact ⟨fun x c h => h, fun x c' h => .inl h⟩
  · rename_i hid
    rw [not_or] at hid
    split
    · exact ⟨fun x c h => h, fun x c' h => .inl h⟩
    · split
      · exact ⟨fun x c h => h, fun x c' h => .inl h⟩
      · rename_i deps _ _ g' hg'
        obtain ⟨ns, rfl⟩ := claimPath_ok hg'
        obtain ⟨d, hd⟩ := clock_installTask { g with ns } id def' deps (def'.install (factory id) g.now saved)
          ((def'.install (factory id) g.now saved).restoredTimer g.now saved)
        constructor
        · intro x c hc
          have hne : x ≠ id := by
            rintro rfl
            have hnone : g.tasks.lookup x = none := Finmap.lookup_eq_none.mpr hid.1
            rw [Graph.clock, hnone] at hc
            cases hc
          exact (hd x).trans (by rw [if_neg hne]; exact hc)
        · intro x c' hc'
          have hc' := (hd x).symm.trans hc'
          split at hc'
          · refine .inr fun hsaved => ?_
            obtain rfl := Option.some.inj hc'
            subst hsaved
            rfl
          · exact .inl hc'

theorem Graced.registerTaskWithId (h : g.Graced) (id : TaskId) (def' : TaskDef τ) (factory : TaskId → τ) :
    (g.registerTaskWithId id def' factory none).1.Graced := by
  intro x c' hc'
  rw [(Advances.registerTaskWithId g id def' factory none).kept.now]
  rcases (clock_registerTaskWithId g id def' factory none).2 x c' hc' with hc | hidle
  · exact h x c' hc
  · exact .of_ne fun hs => by
      rw [hidle rfl] at hs
      cases hs

end registered

section commands

variable [Task τ]

theorem Graces.op (hop : Op k g g') : Graces g g' := by
  cases hop with
  | still hs => exact .of_calm (.quiet hs.toQuiet)
  | told => exact .of_calm (.quiet (.deliver _ _ _ _))
  | messaged => exact .of_calm (.quiet (.sendCmd _ _ rfl))
  | allocated => exact .of_clock rfl rfl
  | enqueued => exact .of_calm (.counting (.enqueue _ _))
  | linked => exact .of_calm (.noting (Counting.addEdge _ _ _))
  | unlinked => exact .of_calm (.noting (Counting.removeEdge _ _ _))
  | vetoed => exact .of_calm (.noting (Counting.setVetoed _ _ _))
  | @excused g id =>
    have ht : Turned id (Clock.fail false) false g
        { g.modifyTask id (fun t => { t with startFailed := false }) with stateChanged := true } :=
      .modified rfl (fun _ => rfl) rfl rfl
    exact .of_turned ht fun _ _ h => h
  | idled => exact .setState _ _ (by simp)
  | @stopped g id t ht hr =>
    refine .stopTask _ _ _ fun c hc he => ?_
    obtain ⟨t', ht', rfl⟩ := Turned.clock_some hc
    obtain rfl : t = t' := Option.some.inj (ht.symm.trans ht')
    rw [show t.state = .stopping from he] at hr
    cases hr
  | @killed g id t ht _ => exact .killTask (c := t.clock) (by rw [Graph.clock, ht, Option.map_some])
  | redefined g id update =>
    have ht : Turned id (fun c => if c.state = .idle then
        { c with ready := update.next.ready, stopTimeout := update.next.stopTimeout } else c) false g
        (g.redefine id update) := by
      refine .modified rfl (fun t => ?_) rfl rfl
      by_cases hidle : t.state = .idle
      · simp [TaskHandle.clock, TaskHandle.adopt, hidle]
      · simp [TaskHandle.clock, hidle]
    refine .of_turned ht fun c _ h => ?_
    split
    · rename_i hidle
      exact .of_ne fun hs => by
        have hs : c.state = .stopping := hs
        rw [hidle] at hs
        cases hs
    · exact h
  | registered def' factory saved =>
    refine ⟨(Advances.registerTaskWithId _ _ def' factory saved).kept.now, fun x c hc => ?_⟩
    exact ⟨c, (clock_registerTaskWithId _ _ def' factory saved).1 x c hc, fun h => h⟩
  | reported => exact .onEffect _ _ _
  | timedOut => exact .onStateTimeout _ _ _

theorem Graces.ops (hops : Ops k g g') : Graces g g' := by
  induction hops with
  | refl => exact .refl _
  | tail _ hop ih => exact ih.trans (.op hop)

omit [Task τ] in
theorem Graced.graces (h : g.Graced) (hg : Graces g g')
    (hnew : ∀ x, g.tasks.lookup x = none → g'.tasks.lookup x = none) :
    g'.Graced := by
  intro x c' hc'
  rw [hg.now]
  cases hc : g.clock x with
  | none =>
    have hnone := hnew x (Option.map_eq_none_iff.mp hc)
    rw [clock, hnone] at hc'
    cases hc'
  | some c =>
    obtain ⟨c₂, hc₂, himp⟩ := hg.clock x c hc
    obtain rfl := Option.some.inj (hc'.symm.trans hc₂)
    exact himp (h x c hc)

def Shut (g g' : Graph τ) : Prop := ∀ x, g.tasks.lookup x = none → g'.tasks.lookup x = none

omit [Task τ] in
theorem Stays.shut (h : Stays g g') : Shut g g' := by
  intro x hx
  have hh := h.homes x
  rw [hx, Option.map_none, Option.map_eq_none_iff] at hh
  exact hh

omit [Task τ] in
theorem Shut.of_tasks (h : g'.tasks = g.tasks) : Shut g g' := fun _ hx => h ▸ hx

omit [Task τ] in
theorem Shut.trans (h : Shut g g') (h' : Shut g' g'') : Shut g g'' := fun x hx => h' x (h x hx)

theorem Shut.removeFolder (g : Graph τ) (id : TaskId) : Shut g (g.removeFolder id).1 := by
  unfold Graph.removeFolder
  cases g.folders.lookup id with
  | none => exact .of_tasks rfl
  | some folder =>
    have hdrop : Shut g { g with folders := g.folders.erase id, ns := g.ns.removeFolder ⟨folder.space, folder.path⟩ } :=
      .of_tasks rfl
    exact hdrop.trans (Stays.notifySubscribers _ _ _ _ _).shut

theorem Shut.moveTasks (g : Graph τ) (req : MoveTask) : Shut g (g.moveTasks req).1 := by
  have hput (g : Graph τ) (m : Moved) : Shut g (g.putMoved m) := by
    unfold Graph.putMoved
    split
    · intro x hx
      rw [lookup_modifyTask]
      split
      · rw [hx]
        rfl
      · exact hx
    · exact .of_tasks rfl
  have hfold {β : Type} {body : Graph τ → β → Graph τ} (hb : ∀ g x, Shut g (body g x)) (l : List β) (g : Graph τ) :
      Shut g (l.foldl body g) :=
    Fold.foldl_rel (r := Shut) (fun _ => .of_tasks rfl) (fun _ _ _ => trans) (fun g x _ => hb g x) g
  unfold Graph.moveTasks
  split
  · exact .of_tasks rfl
  · rename_i ns moved _
    have hflag : Shut g { g with ns, stateChanged := g.stateChanged || !moved.isEmpty } := .of_tasks rfl
    exact (hflag.trans (hfold hput moved _)).trans (hfold (fun g m => (stays_tellMoved _ g m).shut) moved _)

theorem Shut.subscribe (g : Graph τ) (subscriber : TaskId) (key : TaskKey) (mode : SubMode) :
    Shut g (g.subscribe subscriber key mode) := by
  unfold Graph.subscribe
  have hsubs : Shut g { g with ns := g.ns.subscribe subscriber key mode } := .of_tasks rfl
  refine hsubs.trans (Stays.shut (.foldl (fun g e _ => ?_) _))
  split
  · exact .deliver _ _ _ _
  · exact .refl g

theorem Graced.runs (h : g.Graced) (hv : Valid g) (hr : Runs k g g') (ha : Shut g g') : g'.Graced :=
  h.graces (.ops (hr hv.sound hv.next)) ha

theorem Graced.registerTasks (h : g.Graced) (rs : List (Registration τ)) :
    (g.registerTasks (rs.map fun r => (none, r))).1.Graced := by
  have hstill {g g' : Graph τ} (hg : g.Graced) (hc : g'.clock = g.clock) (hn : g'.now = g.now) : g'.Graced :=
    hg.of_clock hc hn.ge
  have hhold (g : Graph τ) (r : Registration τ) (hg : g.Graced) : (g.holdPlace r).Graced := by
    unfold Graph.holdPlace
    cases r.key with
    | none => exact hg
    | some key => exact hstill hg rfl rfl
  have hdrop (g : Graph τ) (r : Registration τ × Except RegisterError Unit) (hg : g.Graced) :
    (g.dropPlace r).Graced := by
    unfold Graph.dropPlace
    split
    · exact hstill hg rfl rfl
    · exact hg
  have hat (acc : Graph τ × List (Except RegisterError Unit)) (i : ℕ) (hg : acc.1.Graced) :
      (Graph.registerAt (rs.map fun r => (none, r)) acc i).1.Graced := by
    unfold Graph.registerAt
    cases hi : (rs.map fun r => ((none : Option Snap.Task), r))[i]? with
    | none => exact hg
    | some r =>
      obtain ⟨saved, r⟩ := r
      obtain ⟨r', -, he⟩ := List.mem_map.mp (List.mem_of_getElem? hi)
      obtain ⟨rfl, rfl⟩ := Prod.mk.inj he
      cases r' with
      | task r => exact hg.registerTaskWithId _ _ _
      | folder d =>
        show (acc.1.registerFolder d).1.Graced
        unfold Graph.registerFolder
        split
        · exact hg
        · split
          · exact hg
          · exact hstill hg (Quiet.notifySubscribers _ _ _ _ _).clock
              (Kept.of_frame (Quiet.notifySubscribers _ _ _ _ _).frame).now
  unfold Graph.registerTasks
  have hheld := Fold.foldl_invariant (P := Graced) (l := (rs.map fun r => ((none : Option Snap.Task), r)).map Prod.snd)
    (fun g hg r _ => hhold g r hg) h
  have hregistered := Fold.foldl_invariant (P := fun acc : Graph τ × List (Except RegisterError Unit) => acc.1.Graced)
    (l := Batch.order ((rs.map fun r => ((none : Option Snap.Task), r)).map Prod.snd)) (fun acc hg i _ => hat acc i hg)
    (a := (_, (rs.map fun r => ((none : Option Snap.Task), r)).map fun _ => .ok ())) hheld
  exact Fold.foldl_invariant (P := Graced) (fun g hg r _ => hdrop g r hg) hregistered

theorem Graced.duplicate (h : g.Graced) (id : TaskId) (req : DuplicateRequest) : (g.duplicate id req).1.Graced := by
  have halloc : g.allocId.2.Graced := h.of_clock rfl le_rfl
  unfold Graph.duplicate
  cases g.tasks.lookup id with
  | none => exact h
  | some t =>
    simp only
    split
    · simp only [allocId] at halloc ⊢
      split
      · exact halloc
      · exact halloc.registerTaskWithId _ _ _
    · exact h

theorem Graced.duplicateAll (h : g.Graced) (req : DuplicateRequest) (ids : List TaskId) :
    (Graph.duplicateAll req g ids).1.Graced := by
  induction ids generalizing g with
  | nil => exact h
  | cons id ids ih =>
    have hd := h.duplicate id req
    unfold Graph.duplicateAll
    generalize g.duplicate id req = r at hd ⊢
    obtain ⟨g', result⟩ := r
    cases result with
    | ok => exact ih hd
    | error err => exact hd

omit [Task τ] in
theorem now_dropHandle (g : Graph τ) (id : TaskId) (handle : TaskHandle τ) : (g.dropHandle id handle).now = g.now := by
  unfold Graph.dropHandle unindexTags
  cases handle.path <;> rfl

theorem now_removeTask (g : Graph τ) (id : TaskId) : (g.removeTask id).now = g.now := by
  cases ht : g.tasks.lookup id with
  | none => rw [removeTask_absent ht]
  | some handle => exact (Kept.of_frame (calm_removeTask ht).frame).now.trans (now_dropHandle g id handle)

theorem now_removeFolder (g : Graph τ) (id : TaskId) : (g.removeFolder id).1.now = g.now := by
  unfold Graph.removeFolder
  cases g.folders.lookup id with
  | none => rfl
  | some folder =>
    exact (Kept.of_frame (Quiet.notifySubscribers { g with
      folders := g.folders.erase id, ns := g.ns.removeFolder ⟨folder.space, folder.path⟩ } id folder.space
      (some folder.path) .removed).frame).now

theorem now_perform (hv : Valid g) (sender : TaskId) (command : KernelCommand τ) :
    (g.perform sender command).now = g.now := by
  by_cases ho : command.operates = true
  · exact (Runs.perform g sender ho hv.sound hv.next).advances.kept.now
  · cases command with
    | remove selector ack =>
      have htasks : ((g.removal sender selector).1.foldl Graph.removeTask g).now = g.now :=
        Fold.foldl_invariant (P := fun g' : Graph τ => g'.now = g.now)
          (fun g' hg id _ => (now_removeTask g' id).trans hg) rfl
      have hr : (g.removeCommand sender selector).1.now = g.now :=
        Fold.foldl_invariant (P := fun g' : Graph τ => g'.now = g.now)
          (fun g' hg id _ => (now_removeFolder g' id).trans hg) htasks
      cases ack <;> exact hr
    | freeze reply =>
      show (g.beginFreeze reply).now = g.now
      unfold Graph.beginFreeze
      split
      · rfl
      · split
        · rfl
        · exact (freeze_froze g _).now
    | taskFrozen number snapshot =>
      show (g.onTaskFrozen sender number snapshot).now = g.now
      unfold Graph.onTaskFrozen
      split
      · rfl
      · split <;> rfl
    | _ => exact absurd rfl ho

theorem Graced.removeTask (h : g.Graced) (id : TaskId) : (g.removeTask id).Graced := by
  cases ht : g.tasks.lookup id with
  | none =>
    rw [removeTask_absent ht]
    exact h
  | some handle =>
    have hdrop : (g.dropHandle id handle).Graced := by
      intro x c hc
      rw [now_dropHandle]
      rw [clock_dropHandle] at hc
      split at hc
      · cases hc
      · exact h x c hc
    have hcalm := calm_removeTask ht
    exact hdrop.of_clock hcalm.clock (Kept.of_frame hcalm.frame).now.ge

theorem Graced.removeFolder (h : g.Graced) (id : TaskId) : (g.removeFolder id).1.Graced := by
  refine h.of_clock ?_ (now_removeFolder g id).ge
  unfold Graph.removeFolder
  cases g.folders.lookup id with
  | none => rfl
  | some folder =>
    exact (Quiet.notifySubscribers { g with
      folders := g.folders.erase id, ns := g.ns.removeFolder ⟨folder.space, folder.path⟩ } id folder.space
      (some folder.path) .removed).clock

theorem Graced.perform (h : g.Graced) (hv : Valid g) (sender : TaskId) (command : KernelCommand τ) :
    (g.perform sender command).Graced := by
  have hrun (hs : Stays g (g.perform sender command)) (ho : command.operates = true) :
    (g.perform sender command).Graced :=
    h.runs hv (Runs.perform g sender ho) hs.shut
  have hshut (hs : Shut g (g.perform sender command)) (ho : command.operates = true) :
    (g.perform sender command).Graced :=
    h.runs hv (Runs.perform g sender ho) hs
  have hanswer {g' : Graph τ} (hg : g'.Graced) (ack : Option ReplyId) (a : Answer) : (g'.answerIf ack a).Graced := by
    cases ack with
    | none => exact hg
    | some reply => exact hg.of_clock rfl le_rfl
  have hshutAnswer {g' : Graph τ} (hg : Shut g g') (ack : Option ReplyId) (a : Answer) :
    Shut g (g'.answerIf ack a) := by
    cases ack with
    | none => exact hg
    | some reply => exact hg.trans (.of_tasks rfl)
  cases command with
  | registerTask r ack =>
    have hr : (g.registerTaskCommand sender r).1.Graced := by
      unfold Graph.registerTaskCommand
      split
      · exact h.registerTaskWithId _ _ _
      · exact h
    exact hanswer hr (some ack) _
  | registerTasks rs ack => exact hanswer (h.registerTasks _) (some ack) _
  | duplicate selector req reply => exact hanswer (h.duplicateAll req _) (some reply) _
  | remove selector ack =>
    have htasks : ((g.removal sender selector).1.foldl Graph.removeTask g).Graced :=
      Fold.foldl_invariant (P := Graced) (fun g hg id _ => hg.removeTask id) h
    have hr : (g.removeCommand sender selector).1.Graced :=
      Fold.foldl_invariant (P := Graced) (fun g hg id _ => hg.removeFolder id) htasks
    exact hanswer hr ack _
  | act verb selector ack => exact hrun ((Stays.act g verb sender selector).trans (.answerIf _ _ _)) rfl
  | unpin selector ack =>
    exact hrun ((Stays.foldl (fun g id _ => .setPin g id false) g).trans (.answerIf _ _ _)) rfl
  | dropFolder id ack =>
    have hd : Shut g (if g.canMutateFolder sender id then g.removeFolder id else (g, false)).1 := by
      split
      · exact .removeFolder g id
      · exact .of_tasks rfl
    exact hshut (hshutAnswer hd ack _) rfl
  | setFolder id settings ack =>
    have hd : Shut g (if g.canMutateFolder sender id then g.setFolder id settings else (g, false)).1 := by
      split
      · unfold Graph.setFolder
        cases g.folders.lookup id <;> exact .of_tasks rfl
      · exact .of_tasks rfl
    exact hshut (hshutAnswer hd ack _) rfl
  | setLabel selector label ack =>
    exact hrun ((Stays.foldl (fun g id _ => .setTaskLabel g id label) g).trans (.answerIf _ _ _)) rfl
  | update selector update reply =>
    have hu : Stays g (g.updateCommand sender selector update).1 := by
      unfold Graph.updateCommand
      split
      · exact .refl g
      · exact .foldl (fun g r _ => .updateTask g r.1 r.2 update) g
    exact hrun (hu.trans (.answerIf _ (some reply) _)) rfl
  | setOrigin selector origin ack =>
    exact hrun ((Stays.foldl (fun g id _ => .setOrigin g id origin) g).trans (.answerIf _ _ _)) rfl
  | move req reply =>
    have hd : Shut g (if g.canRegister sender req.space then g.moveTasks req else (g, .error (.notFound req.src))).1 := by
      split
      · exact .moveTasks g req
      · exact .of_tasks rfl
    exact hshut (hshutAnswer hd (some reply) _) rfl
  | taskMsg id content => exact hrun (.sendCmd g id _) rfl
  | subscribePath key mode => exact hshut (.subscribe g sender key mode) rfl
  | unsubscribePath key mode => exact hshut (.of_tasks rfl) rfl
  | wait request =>
    obtain ⟨on, cond, events⟩ := request
    cases on with
    | act verb selector => exact hrun (.act g verb sender selector) rfl
    | isMatching selector => exact h
    | ids ids => exact h
  | taskStarted => exact hrun (.onTaskStarted g sender) rfl
  | taskReady => exact hrun (.onTaskReady g sender) rfl
  | taskStopped info => exact hrun (.onTaskStopped g sender info) rfl
  | stateTimeout id epoch => exact hrun (.onStateTimeout g id epoch) rfl
  | freeze reply => exact h.of_clock (Timeless.beginFreeze g reply).clock (now_perform hv sender (.freeze reply)).ge
  | taskFrozen number snapshot =>
    exact h.of_clock (Timeless.onTaskFrozen g sender number snapshot).clock
      (now_perform hv sender (.taskFrozen number snapshot)).ge
  | quit | quitWithoutSave | quitWithin | freezeTimeout | thaw | query | watchActive => exact h

end commands

end Graph

end Dekit
