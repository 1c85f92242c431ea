import Dekit.Recording

namespace Dekit

/-- A task driven over a channel beside tasks of other kinds. -/
instance {τ : Type} [Task τ] : Task (ChannelTask ⊕ τ) where
  handleCmd
    | .inl t, cmd => (.inl (Task.handleCmd t cmd).1, (Task.handleCmd t cmd).2)
    | .inr t, cmd => (.inr (Task.handleCmd t cmd).1, (Task.handleCmd t cmd).2)

/-- What a task was told, and has told, of its process: it has none, is to start one, has one, or is to end it. -/
inductive Phase where
  | down
  | asked
  | up
  | winding
deriving DecidableEq

namespace Phase

def next : Phase → TaskCmd → Option Phase
  | down, .start _ => some asked
  | asked, .stop | up, .stop => some winding
  | asked, .kill | up, .kill | winding, .kill => some winding
  | p, .msg _ | p, .freeze _ | p, .thaw => some p
  | _, _ => none

def report : Phase → TaskEffect → Phase
  | asked, .started => up
  | _, .stopped _ => down
  | p, .started | p, .ready => p

def after (p : Phase) (cs : List TaskCmd) : Option Phase := cs.foldlM next p

variable {p q r : Phase} {cs cs' : List TaskCmd} {cmd : TaskCmd}

@[simp] theorem after_nil : p.after [] = some p := rfl

theorem after_append (h : p.after cs = some q) : p.after (cs ++ cs') = q.after cs' := by
  rw [after, List.foldlM_append, ← after, h]
  rfl

theorem after_one (h : p.next cmd = some q) : p.after [cmd] = some q := by
  rw [after, List.foldlM_cons, h]
  rfl

end Phase

def TaskState.phase : TaskState → Phase
  | starting => .asked
  | running | ready => .up
  | stopping => .winding
  | idle | backoff _ | done _ | exited _ => .down

theorem TaskState.next_stop {s : TaskState} (h : s.isRunning = true) : s.phase.next .stop = some .winding := by
  cases s <;> first | rfl | cases h

theorem TaskState.next_kill {s : TaskState} (h : s.isRunning = true) : s.phase.next .kill = some .winding := by
  cases s <;> first | rfl | cases h

theorem TaskState.phase_down {s : TaskState} : s.phase = .down ↔ s.isActive = false := by
  cases s <;> simp [phase, isActive]

def TaskCmd.Plain (cmd : TaskCmd) : Prop := ∀ p : Phase, p.next cmd = some p

theorem Phase.after_plain {p : Phase} {cs : List TaskCmd} (h : ∀ cmd ∈ cs, cmd.Plain) : p.after cs = some p := by
  induction cs with
  | nil => rfl
  | cons cmd cs ih =>
    rw [after, List.foldlM_cons, h cmd List.mem_cons_self p]
    exact ih fun cmd hcmd => h cmd (List.mem_cons_of_mem _ hcmd)

/-- What a step may do beside speaking to a task: register it, or remove it. -/
inductive Turning where
  | plain
  | opening
  | closing

/-- How what a task was sent, and the phase it is in, go on. -/
inductive Speaks : Turning → Option (List TaskCmd × Phase) → Option (List TaskCmd × Phase) → Prop
  | absent {c : Turning} : Speaks c none none
  | more {c : Turning} {sent cs : List TaskCmd} {p q : Phase} : p.after cs = some q →
      Speaks c (some (sent, p)) (some (sent ++ cs, q))
  | opens {cs : List TaskCmd} {q : Phase} : Phase.down.after cs = some q → Speaks .opening none (some (cs, q))
  | closes {v : List TaskCmd × Phase} : Speaks .closing (some v) none

theorem Speaks.refl (c : Turning) (v : Option (List TaskCmd × Phase)) : Speaks c v v := by
  cases v with
  | none => exact .absent
  | some v =>
    have h : Speaks c (some (v.1, v.2)) (some (v.1 ++ [], v.2)) := .more rfl
    rwa [List.append_nil] at h

theorem Speaks.closed (v : Option (List TaskCmd × Phase)) : Speaks .closing v none := by
  cases v with
  | none => exact .absent
  | some v => exact .closes

theorem Speaks.trans {c : Turning} {v v' v'' : Option (List TaskCmd × Phase)} (h : Speaks c v v')
    (h' : Speaks c v' v'') : Speaks c v v'' := by
  cases h with
  | absent => exact h'
  | more hq =>
    cases h' with
    | more hq' =>
      rw [List.append_assoc]
      exact .more ((Phase.after_append hq).trans hq')
    | closes => exact .closes
  | opens hq =>
    cases h' with
    | more hq' => exact .opens ((Phase.after_append hq).trans hq')
  | closes =>
    cases h' with
    | absent => exact .closes

/-- A task is sent only what is plain. -/
inductive Mutters : Option (List TaskCmd × Phase) → Option (List TaskCmd × Phase) → Prop
  | absent : Mutters none none
  | more {sent cs : List TaskCmd} {p : Phase} : (∀ cmd ∈ cs, cmd.Plain) →
      Mutters (some (sent, p)) (some (sent ++ cs, p))

namespace Mutters

variable {v v' v'' : Option (List TaskCmd × Phase)}

theorem refl (v : Option (List TaskCmd × Phase)) : Mutters v v := by
  cases v with
  | none => exact .absent
  | some v =>
    have h : Mutters (some (v.1, v.2)) (some (v.1 ++ [], v.2)) := .more fun _ hc => by cases hc
    rwa [List.append_nil] at h

theorem trans (h : Mutters v v') (h' : Mutters v' v'') : Mutters v v'' := by
  cases h with
  | absent => exact h'
  | more hcs =>
    cases h' with
    | more hcs' =>
      rw [List.append_assoc]
      exact .more fun cmd hcmd => (List.mem_append.mp hcmd).elim (hcs cmd) (hcs' cmd)

theorem speaks (h : Mutters v v') (c : Turning) : Speaks c v v' := by
  cases h with
  | absent => exact .absent
  | more hcs => exact .more (Phase.after_plain hcs)

end Mutters

namespace Graph

variable {τ : Type} {c : Turning} {id x : TaskId} {g g' g'' : Graph (ChannelTask ⊕ τ)}

def voice (g : Graph (ChannelTask ⊕ τ)) (id : TaskId) : Option ((ChannelTask ⊕ τ) × TaskState) :=
  (g.tasks.lookup id).map fun t => (t.task, t.state)

/-- What a task with an open channel was sent and the phase it is in; nothing of it waits to be taken. -/
inductive Spoken (g : Graph (ChannelTask ⊕ τ)) (id : TaskId) : Option (List TaskCmd × Phase) → Prop
  | absent : g.voice id = none → (∀ e ∈ g.pendingEffects, e.1 ≠ id) → Spoken g id none
  | line {sent : List TaskCmd} {state : TaskState} : g.voice id = some (.inl ⟨sent, false⟩, state) →
      (∀ e ∈ g.pendingEffects, e.1 ≠ id) → Spoken g id (some (sent, state.phase))

def Talks (c : Turning) (id : TaskId) (g g' : Graph (ChannelTask ⊕ τ)) : Prop :=
  ∀ v, g.Spoken id v → ∃ v', g'.Spoken id v' ∧ Speaks c v v'

def Whispers (id : TaskId) (g g' : Graph (ChannelTask ⊕ τ)) : Prop :=
  ∀ v, g.Spoken id v → ∃ v', g'.Spoken id v' ∧ Mutters v v'

/-- No handler takes anything, and no task changes its state. -/
structure Hush (g g' : Graph (ChannelTask ⊕ τ)) : Prop where
  voice : ∀ x, g'.voice x = g.voice x
  effects : g'.pendingEffects = g.pendingEffects

namespace Hush

theorem of_eq (ht : g'.tasks = g.tasks) (hp : g'.pendingEffects = g.pendingEffects) : Hush g g' :=
  ⟨fun x => by rw [Graph.voice, ht, ← Graph.voice], hp⟩

theorem refl (g : Graph (ChannelTask ⊕ τ)) : Hush g g := of_eq rfl rfl

theorem trans (h : Hush g g') (h' : Hush g' g'') : Hush g g'' :=
  ⟨fun x => (h'.voice x).trans (h.voice x), h'.effects.trans h.effects⟩

theorem modified {F : TaskHandle (ChannelTask ⊕ τ) → TaskHandle (ChannelTask ⊕ τ)}
    (ht : g'.tasks = g.tasks.modify id F) (hF : ∀ t, (F t).task = t.task ∧ (F t).state = t.state)
    (hp : g'.pendingEffects = g.pendingEffects) : Hush g g' := by
  refine ⟨fun x => ?_, hp⟩
  rw [Graph.voice, ht, Finmap.lookup_modify, Graph.voice]
  split
  · rw [Option.map_map]
    exact congrArg (fun f => (g.tasks.lookup x).map f) (funext fun t => Prod.ext (hF t).1 (hF t).2)
  · rfl

theorem modifyTask (g : Graph (ChannelTask ⊕ τ)) (id : TaskId)
    {F : TaskHandle (ChannelTask ⊕ τ) → TaskHandle (ChannelTask ⊕ τ)}
    (hF : ∀ t, (F t).task = t.task ∧ (F t).state = t.state) : Hush g (g.modifyTask id F) := modified rfl hF rfl

theorem ite {p : Prop} [Decidable p] (h : Hush g g') (h' : Hush g g'') : Hush g (if p then g' else g'') := by
  split
  · exact h
  · exact h'

theorem foldl {β : Type} {body : Graph (ChannelTask ⊕ τ) → β → Graph (ChannelTask ⊕ τ)}
    (h : ∀ g x, Hush g (body g x)) (l : List β) (g : Graph (ChannelTask ⊕ τ)) : Hush g (l.foldl body g) :=
  Fold.foldl_rel refl (fun _ _ _ => trans) (fun g x _ => h g x) g

theorem forEach (owner : TaskId) (s : Finset TaskId)
    {body : Graph (ChannelTask ⊕ τ) → TaskId → Graph (ChannelTask ⊕ τ)} (h : ∀ g x, Hush g (body g x)) :
    Hush g (g.forEach owner s body) := by
  have htick : Hush g { g with tick := g.tick + 1 } := of_eq rfl rfl
  exact htick.trans (foldl h (g.walk owner s) _)

theorem enqueue (g : Graph (ChannelTask ⊕ τ)) (id : TaskId) : Hush g (g.enqueue id) := by
  unfold Graph.enqueue
  exact ite (of_eq rfl rfl) (refl g)

theorem enqueueParents (g : Graph (ChannelTask ⊕ τ)) (id : TaskId) : Hush g (g.enqueueParents id) :=
  forEach _ _ enqueue

theorem note (g : Graph (ChannelTask ⊕ τ)) (e : Happening) : Hush g (g.note e) := of_eq rfl rfl

theorem noteSent (g : Graph (ChannelTask ⊕ τ)) (id : TaskId) (cmd : TaskCmd) : Hush g (g.noteSent id cmd) := by
  unfold Graph.noteSent
  split
  · exact note g _
  · exact refl g

theorem answerIf (g : Graph (ChannelTask ⊕ τ)) (ack : Option ReplyId) (a : Answer) : Hush g (g.answerIf ack a) := by
  cases ack <;> exact of_eq rfl rfl

theorem scheduleStateTimeout (g : Graph (ChannelTask ⊕ τ)) (id : TaskId) (delay : Duration) :
    Hush g (g.scheduleStateTimeout id delay) := by
  unfold Graph.scheduleStateTimeout
  exact ite (modified rfl (fun _ => ⟨rfl, rfl⟩) rfl) (refl g)

theorem scheduleAny (g : Graph (ChannelTask ⊕ τ)) (id : TaskId) (timer : Option Duration) :
    Hush g (g.scheduleAny id timer) := by
  cases timer with
  | none => exact refl g
  | some delay => exact scheduleStateTimeout g id delay

theorem countActive (now : Bool) (g : Graph (ChannelTask ⊕ τ)) (dep : TaskId) : Hush g (countActive now g dep) := by
  unfold Graph.countActive
  refine trans ?_ (enqueue _ dep)
  exact modifyTask g dep fun _ => ⟨rfl, rfl⟩

theorem countWanted (now : Bool) (g : Graph (ChannelTask ⊕ τ)) (dep : TaskId) : Hush g (countWanted now g dep) := by
  unfold Graph.countWanted
  refine trans ?_ (enqueue _ dep)
  exact modifyTask g dep fun _ => ⟨rfl, rfl⟩

theorem recomputeWanted (g : Graph (ChannelTask ⊕ τ)) (id : TaskId) : Hush g (g.recomputeWanted id) := by
  unfold Graph.recomputeWanted
  split
  · exact refl g
  · refine ite (refl g) (trans ?_ (forEach _ _ (countWanted _)))
    exact modified rfl (fun _ => ⟨rfl, rfl⟩) rfl

theorem recomputeSupported (g : Graph (ChannelTask ⊕ τ)) (id : TaskId) : Hush g (g.recomputeSupported id) := by
  unfold Graph.recomputeSupported
  split
  · exact refl g
  · refine ite (refl g) (trans ?_ (enqueueParents _ _))
    exact modifyTask g id fun _ => ⟨rfl, rfl⟩

theorem recomputeCaches (g : Graph (ChannelTask ⊕ τ)) (id : TaskId) : Hush g (g.recomputeCaches id) := by
  unfold Graph.recomputeCaches
  exact ite (((recomputeWanted g id).trans (recomputeSupported _ id)).trans (note _ _)) (refl g)

theorem propagate (fuel : ℕ) (g : Graph (ChannelTask ⊕ τ)) (toDrive : List TaskId) :
    Hush g (Graph.propagate fuel g toDrive).1 := by
  induction fuel generalizing g toDrive with
  | zero => exact refl g
  | succ fuel ih =>
    unfold Graph.propagate
    cases h : g.popDirty with
    | none => exact refl g
    | some r =>
      obtain ⟨id, g'⟩ := r
      obtain ⟨rest, -, rfl⟩ := popDirty_eq h
      have hpop : Hush g { g with dirty := rest, inQueue := g.inQueue.erase id } := of_eq rfl rfl
      exact (hpop.trans (recomputeCaches _ id)).trans (ih _ _)

theorem addEdge (g : Graph (ChannelTask ⊕ τ)) (src dst : TaskId) : Hush g (g.addEdge src dst) := by
  unfold Graph.addEdge
  refine ite (refl g) (ite (refl g) ?_)
  refine trans ?_ (((enqueue _ dst).trans (enqueue _ src)).trans (note _ _))
  exact ite (refl g) (modified rfl (fun _ => ⟨rfl, rfl⟩) rfl)

theorem removeEdge (g : Graph (ChannelTask ⊕ τ)) (src dst : TaskId) : Hush g (g.removeEdge src dst) := by
  unfold Graph.removeEdge
  refine trans ?_ (((enqueue _ dst).trans (enqueue _ src)).trans (note _ _))
  exact ite (modified rfl (fun _ => ⟨rfl, rfl⟩) rfl) (refl g)

theorem setDeps (g : Graph (ChannelTask ⊕ τ)) (id : TaskId) (deps : List TaskId) : Hush g (g.setDeps id deps) := by
  unfold Graph.setDeps
  exact (forEach _ _ fun g dep => removeEdge g id dep).trans (foldl (fun g dep => addEdge g id dep) _ _)

theorem setVetoed (g : Graph (ChannelTask ⊕ τ)) (id : TaskId) (value : Bool) : Hush g (g.setVetoed id value) := by
  unfold Graph.setVetoed
  split
  · exact refl g
  · refine ite (refl g) (trans ?_ ((enqueue _ id).trans (note _ _)))
    exact modifyTask g id fun _ => ⟨rfl, rfl⟩

theorem setPin (g : Graph (ChannelTask ⊕ τ)) (id : TaskId) (pinned : Bool) : Hush g (g.setPin id pinned) := by
  unfold Graph.setPin
  have hs : Hush g (g.modifyTask id fun t => { t with savedPin := false }) := modifyTask g id fun _ => ⟨rfl, rfl⟩
  exact ite (hs.trans (addEdge _ _ _)) (hs.trans (removeEdge _ _ _))

theorem setTags (g : Graph (ChannelTask ⊕ τ)) (id : TaskId) (tags : List String) : Hush g (g.setTags id tags) := by
  unfold Graph.setTags
  split
  · exact refl g
  · exact modified rfl (fun _ => ⟨rfl, rfl⟩) rfl

theorem redefine (g : Graph (ChannelTask ⊕ τ)) (id : TaskId) (update : TaskUpdate) : Hush g (g.redefine id update) := by
  refine modified rfl (fun t => ?_) rfl
  simp only
  split
  · unfold TaskHandle.adopt
    exact ⟨rfl, rfl⟩
  · exact ⟨rfl, rfl⟩

theorem putMoved (g : Graph (ChannelTask ⊕ τ)) (m : Moved) : Hush g (g.putMoved m) := by
  unfold Graph.putMoved
  exact ite (modifyTask g m.id fun _ => ⟨rfl, rfl⟩) (of_eq rfl rfl)

theorem beginQuit (g : Graph (ChannelTask ⊕ τ)) : Hush g g.beginQuit.1 := by
  unfold Graph.beginQuit
  split
  · exact refl g
  · have hquit : Hush g { g with quitting := true } := of_eq rfl rfl
    exact hquit.trans (forEach _ _ enqueue)

theorem onTaskFrozen (g : Graph (ChannelTask ⊕ τ)) (id : TaskId) (number : ℕ) (snapshot : Snap.TaskKind) :
    Hush g (g.onTaskFrozen id number snapshot) := by
  unfold Graph.onTaskFrozen
  split
  · exact refl g
  · exact ite (refl g) (of_eq rfl rfl)

theorem finishFreeze (g : Graph (ChannelTask ⊕ τ)) : Hush g g.finishFreezeIfComplete.1 := by
  have hf := finishFreeze_cases g
  generalize g.finishFreezeIfComplete = r at hf ⊢
  cases hf with
  | waits => exact refl g
  | answers | saves => exact of_eq rfl rfl

theorem spoken (h : Hush g g') {v : Option (List TaskCmd × Phase)} (hv : g.Spoken id v) : g'.Spoken id v := by
  have hq (hq : ∀ e ∈ g.pendingEffects, e.1 ≠ id) : ∀ e ∈ g'.pendingEffects, e.1 ≠ id := by
    rw [h.effects]
    exact hq
  cases hv with
  | absent hnone hquiet => exact .absent ((h.voice id).trans hnone) (hq hquiet)
  | line hline hquiet => exact .line ((h.voice id).trans hline) (hq hquiet)

end Hush

namespace Whispers

theorem of_hush (h : Hush g g') : Whispers id g g' := fun v hv => ⟨v, h.spoken hv, .refl v⟩

theorem refl (g : Graph (ChannelTask ⊕ τ)) : Whispers id g g := of_hush (.refl g)

theorem trans (h : Whispers id g g') (h' : Whispers id g' g'') : Whispers id g g'' := by
  intro v hv
  obtain ⟨v', hv', hm⟩ := h v hv
  obtain ⟨v'', hv'', hm'⟩ := h' v' hv'
  exact ⟨v'', hv'', hm.trans hm'⟩

theorem ite {p : Prop} [Decidable p] (h : Whispers id g g') (h' : Whispers id g g'') :
    Whispers id g (if p then g' else g'') := by
  split
  · exact h
  · exact h'

theorem foldl {β : Type} {body : Graph (ChannelTask ⊕ τ) → β → Graph (ChannelTask ⊕ τ)} {l : List β}
    (h : ∀ g, ∀ x ∈ l, Whispers id g (body g x)) (g : Graph (ChannelTask ⊕ τ)) : Whispers id g (l.foldl body g) :=
  Fold.foldl_rel refl (fun _ _ _ => trans) h g

theorem forEach (owner : TaskId) (s : Finset TaskId)
    {body : Graph (ChannelTask ⊕ τ) → TaskId → Graph (ChannelTask ⊕ τ)} (h : ∀ g x, Whispers id g (body g x)) :
    Whispers id g (g.forEach owner s body) := by
  have htick : Whispers id g { g with tick := g.tick + 1 } := of_hush (.of_eq rfl rfl)
  exact htick.trans (foldl (fun g x _ => h g x) _)

end Whispers

namespace Talks

theorem of_whispers (h : Whispers id g g') : Talks c id g g' := by
  intro v hv
  obtain ⟨v', hv', hm⟩ := h v hv
  exact ⟨v', hv', hm.speaks c⟩

theorem of_hush (h : Hush g g') : Talks c id g g' := of_whispers (.of_hush h)

theorem refl (g : Graph (ChannelTask ⊕ τ)) : Talks c id g g := of_hush (.refl g)

theorem trans (h : Talks c id g g') (h' : Talks c id g' g'') : Talks c id g g'' := by
  intro v hv
  obtain ⟨v', hv', hs⟩ := h v hv
  obtain ⟨v'', hv'', hs'⟩ := h' v' hv'
  exact ⟨v'', hv'', hs.trans hs'⟩

theorem hush (h : Talks c id g g') (h' : Hush g' g'') : Talks c id g g'' := h.trans (of_hush h')

theorem ite {p : Prop} [Decidable p] (h : Talks c id g g') (h' : Talks c id g g'') :
    Talks c id g (if p then g' else g'') := by
  split
  · exact h
  · exact h'

theorem foldl {β : Type} {body : Graph (ChannelTask ⊕ τ) → β → Graph (ChannelTask ⊕ τ)} {l : List β}
    (h : ∀ g, ∀ x ∈ l, Talks c id g (body g x)) (g : Graph (ChannelTask ⊕ τ)) : Talks c id g (l.foldl body g) :=
  Fold.foldl_rel refl (fun _ _ _ => trans) h g

end Talks

section commands

variable [Task τ] {t : TaskHandle (ChannelTask ⊕ τ)} {sent : List TaskCmd} {p : Phase}

theorem plain_msg (payload : Payload) : (TaskCmd.msg payload).Plain := fun p => by cases p <;> rfl

theorem plain_freeze (number : ℕ) : (TaskCmd.freeze number).Plain := fun p => by cases p <;> rfl

theorem plain_thaw : TaskCmd.thaw.Plain := fun p => by cases p <;> rfl

omit [Task τ] in
theorem Spoken.lookup (h : g.Spoken id (some (sent, p))) : ∃ t, g.tasks.lookup id = some t ∧
    t.task = .inl ⟨sent, false⟩ ∧ t.state.phase = p := by
  cases h with
  | line hline _ =>
    obtain ⟨t, ht, he⟩ := Option.map_eq_some_iff.mp hline
    obtain ⟨htask, hstate⟩ := Prod.mk.inj he
    exact ⟨t, ht, htask, congrArg _ hstate⟩

omit [Task τ] in
theorem Spoken.quiet {v : Option (List TaskCmd × Phase)} (h : g.Spoken id v) : ∀ e ∈ g.pendingEffects, e.1 ≠ id := by
  cases h with
  | absent _ hq => exact hq
  | line _ hq => exact hq

theorem spoken_handled (ht : g.tasks.lookup x = some t) (cmd : TaskCmd) {v : Option (List TaskCmd × Phase)}
    (hv : g.Spoken id v) :
    ((g.setTask x (Task.handleCmd t.task cmd).1).queueEffects x (Task.handleCmd t.task cmd).2).Spoken id
      (if x = id then v.map fun v => (v.1 ++ [cmd], v.2) else v) := by
  have hvoice (y : TaskId) : ((g.setTask x (Task.handleCmd t.task cmd).1).queueEffects x
      (Task.handleCmd t.task cmd).2).voice y =
        if y = x then some ((Task.handleCmd t.task cmd).1, t.state) else g.voice y := by
    simp only [voice, Graph.queueEffects, Graph.setTask, Graph.modifyTask, Finmap.lookup_modify]
    split
    · rename_i hy
      rw [hy, ht]
      rfl
    · rfl
  have hquiet (hq : ∀ e ∈ g.pendingEffects, e.1 ≠ id) (hx : x ≠ id) :
      ∀ e ∈ g.pendingEffects ++ (Task.handleCmd t.task cmd).2.map (fun e => (x, e)), e.1 ≠ id := by
    intro e he
    rcases List.mem_append.mp he with he | he
    · exact hq e he
    · obtain ⟨fx, -, rfl⟩ := List.mem_map.mp he
      exact hx
  by_cases hx : x = id
  · subst hx
    rw [if_pos rfl]
    cases hv with
    | absent hnone _ =>
      rw [voice, ht] at hnone
      cases hnone
    | line hline hq =>
      rw [voice, ht] at hline
      obtain ⟨htask, hstate⟩ := Prod.mk.inj (Option.some.inj hline)
      rename_i sent state
      have hcmd : Task.handleCmd t.task cmd = (.inl ⟨sent ++ [cmd], false⟩, []) := by
        rw [htask]
        rfl
      refine .line ((hvoice x).trans ?_) ?_
      · rw [if_pos rfl, hcmd, hstate]
      · rw [hcmd]
        simp only [Graph.queueEffects, List.map_nil, List.append_nil]
        exact hq
  · rw [if_neg hx]
    have hne : id ≠ x := fun h => hx h.symm
    cases hv with
    | absent hnone hq => exact .absent (((hvoice id).trans (if_neg hne)).trans hnone) (hquiet hq hx)
    | line hline hq => exact .line (((hvoice id).trans (if_neg hne)).trans hline) (hquiet hq hx)

theorem spoken_sendCmd (h : g.Spoken id (some (sent, p))) (cmd : TaskCmd) :
    (g.sendCmd id cmd).Spoken id (some (sent ++ [cmd], p)) := by
  have hnote := (Hush.noteSent g id cmd).spoken h
  obtain ⟨t, ht, -, -⟩ := hnote.lookup
  have hsent := spoken_handled ht cmd hnote
  rw [if_pos rfl] at hsent
  unfold Graph.sendCmd
  simp only [ht]
  exact hsent

namespace Whispers

theorem handled (ht : g.tasks.lookup x = some t) {cmd : TaskCmd} (hcmd : x = id → cmd.Plain) :
    Whispers id g ((g.setTask x (Task.handleCmd t.task cmd).1).queueEffects x (Task.handleCmd t.task cmd).2) := by
  intro v hv
  refine ⟨_, spoken_handled ht cmd hv, ?_⟩
  split
  · rename_i hx
    cases v with
    | none => exact .absent
    | some v =>
      refine .more fun cmd' hcmd' => ?_
      rw [List.mem_singleton.mp hcmd']
      exact hcmd hx
  · exact .refl v

theorem sendCmd (g : Graph (ChannelTask ⊕ τ)) (x : TaskId) {cmd : TaskCmd} (hcmd : x = id → cmd.Plain) :
    Whispers id g (g.sendCmd x cmd) := by
  have hnote : Whispers id g (g.noteSent x cmd) := of_hush (.noteSent g x cmd)
  unfold Graph.sendCmd
  simp only
  split
  · rename_i t ht
    exact hnote.trans (handled ht hcmd)
  · exact hnote

theorem deliver (g : Graph (ChannelTask ⊕ τ)) (source : TaskId) (notify : TaskNotify) (targets : Finset TaskId) :
    Whispers id g (g.deliver source notify targets) := by
  refine forEach _ _ fun g listener => ?_
  unfold deliverTo
  split
  · rename_i t ht
    exact handled ht fun _ => plain_msg _
  · exact refl g

theorem notifySubscribers (g : Graph (ChannelTask ⊕ τ)) (source : TaskId) (space : TaskSpaceId)
    (path : Option TaskPath) (notify : TaskNotify) : Whispers id g (g.notifySubscribers source space path notify) :=
  deliver _ _ _ _

theorem notifyChanged (g : Graph (ChannelTask ⊕ τ)) (x : TaskId) : Whispers id g (g.notifyChanged x) := by
  unfold Graph.notifyChanged
  split
  · exact notifySubscribers _ _ _ _ _
  · exact refl g

end Whispers

omit [Task τ] in
theorem spoken_putState (ht : g.tasks.lookup x = some t) (state : TaskState) {v : Option (List TaskCmd × Phase)}
    (hv : g.Spoken id v) :
    (g.putState x t state).Spoken id (if x = id then v.map fun v => (v.1, state.phase) else v) := by
  have hput : Hush (g.enterState x t state) (g.putState x t state) := by
    unfold Graph.putState
    simp only
    have hqueued := Hush.enqueue (g.enterState x t state) x
    have hparents := Hush.ite (p := t.isSatisfied = (t.setState state).isSatisfied) hqueued
      (hqueued.trans (.enqueueParents _ x))
    exact .ite hparents (hparents.trans (.forEach _ _ (.countActive _)))
  refine hput.spoken ?_
  have hvoice (y : TaskId) : (g.enterState x t state).voice y =
        if y = x then some (t.task, state) else g.voice y := by
    simp only [voice, Graph.tasks_enterState, Finmap.lookup_insert_ite]
    split <;> rfl
  by_cases hx : x = id
  · subst hx
    rw [if_pos rfl]
    cases hv with
    | absent hnone _ =>
      rw [voice, ht] at hnone
      cases hnone
    | line hline hq =>
      rw [voice, ht] at hline
      obtain ⟨htask, -⟩ := Prod.mk.inj (Option.some.inj hline)
      refine .line ((hvoice x).trans ?_) hq
      rw [if_pos rfl, htask]
  · rw [if_neg hx]
    have hne : id ≠ x := fun h => hx h.symm
    cases hv with
    | absent hnone hq => exact .absent (((hvoice id).trans (if_neg hne)).trans hnone) hq
    | line hline hq => exact .line (((hvoice id).trans (if_neg hne)).trans hline) hq

theorem spoken_setState (h : g.Spoken id (some (sent, p))) (state : TaskState) : ∃ cs, (∀ cmd ∈ cs, cmd.Plain) ∧
    (g.setState id state).Spoken id (some (sent ++ cs, state.phase)) := by
  obtain ⟨t, ht, -, hp⟩ := h.lookup
  unfold Graph.setState
  simp only [ht]
  split
  · rename_i hs
    refine ⟨[], fun _ hc => by (cases hc), ?_⟩
    rw [List.append_nil, ← hs, hp]
    exact h
  · have hput := spoken_putState ht state h
    rw [if_pos rfl] at hput
    have hnote := (Hush.note _ .touched).spoken hput
    obtain ⟨v', hv', hm⟩ := Whispers.notifySubscribers _ id t.space t.path (.stateChanged state) _ hnote
    cases hm with
    | more hcs => exact ⟨_, hcs, hv'⟩

namespace Whispers

theorem setState (g : Graph (ChannelTask ⊕ τ)) (x : TaskId) {state : TaskState}
    (hs : x = id → ∀ t, g.tasks.lookup id = some t → t.state.phase = state.phase) :
    Whispers id g (g.setState x state) := by
  intro v hv
  by_cases hx : x = id
  · subst hx
    cases v with
    | none =>
      cases hv with
      | absent hnone hq =>
        have hlook : g.tasks.lookup x = none := Option.map_eq_none_iff.mp hnone
        refine ⟨none, ?_, .absent⟩
        unfold Graph.setState
        rw [hlook]
        exact .absent hnone hq
    | some v =>
      obtain ⟨sent, p⟩ := v
      obtain ⟨t, ht, -, hp⟩ := hv.lookup
      obtain ⟨cs, hcs, hv'⟩ := spoken_setState hv state
      refine ⟨_, hv', ?_⟩
      rw [← hs rfl t ht, hp]
      exact .more hcs
  · unfold Graph.setState
    cases ht : g.tasks.lookup x with
    | none => exact ⟨v, hv, .refl v⟩
    | some t =>
      simp only
      split
      · exact ⟨v, hv, .refl v⟩
      · have hput := spoken_putState ht state hv
        rw [if_neg hx] at hput
        exact notifySubscribers _ x t.space t.path (.stateChanged state) _ ((Hush.note _ .touched).spoken hput)

end Whispers

omit [Task τ] in
theorem phase_exitState (t : TaskHandle τ) (info : ExitInfo) : (t.exitState info).phase = .down := by
  unfold TaskHandle.exitState
  split
  · rfl
  · cases t.restart with
    | never => rfl
    | always => rfl
    | onFailure =>
      simp only
      split <;> rfl

omit [Task τ] in
theorem phase_startedState (t : TaskHandle τ) : t.startedState.phase = .up := by
  unfold TaskHandle.startedState
  split <;> rfl

omit [Task τ] in
theorem Spoken.phase_eq (h : g.Spoken id (some (sent, p))) (ht : g.tasks.lookup id = some t) : t.state.phase = p := by
  obtain ⟨t', ht', -, hp⟩ := h.lookup
  rwa [Option.some.inj (ht.symm.trans ht')]

namespace Whispers

theorem landExit (hx : x ≠ id) (info : ExitInfo) : Whispers id g (g.landExit x info) := by
  have hset (g : Graph (ChannelTask ⊕ τ)) (state : TaskState) : Whispers id g (g.setState x state) :=
    setState g x fun h => absurd h hx
  unfold Graph.landExit
  split
  · exact refl g
  · split
    · have hcount : Hush g (g.modifyTask x fun t => { t with attempts := t.attempts + 1 }) :=
        .modifyTask g x fun _ => ⟨rfl, rfl⟩
      exact ((of_hush hcount).trans (hset _ _)).trans (of_hush (.scheduleStateTimeout _ _ _))
    · exact hset _ _

theorem landStop (hx : x ≠ id) (info : ExitInfo) : Whispers id g (g.landStop x info) := by
  unfold Graph.landStop
  split
  · exact refl g
  · exact ite (landExit hx _) (setState g x fun h => absurd h hx)

theorem giveUp (hx : x ≠ id) (startFailed : Bool) : Whispers id g (g.giveUp x startFailed) := by
  unfold Graph.giveUp
  simp only
  refine (landStop hx .error).trans ?_
  split
  · exact refl _
  · exact ite (of_hush (.modified rfl (fun _ => ⟨rfl, rfl⟩) rfl)) (refl _)

theorem onTaskStarted (hx : x ≠ id) : Whispers id g (g.onTaskStarted x) := by
  unfold Graph.onTaskStarted
  split
  · exact refl g
  · split
    · rename_i t _ _ _
      have hset : Whispers id g (g.setState x t.startedState) := .setState g x fun h => absurd h hx
      simp only
      split
      · exact hset.trans (of_hush (.scheduleStateTimeout _ _ _))
      · exact hset
    · exact refl g

theorem onTaskReady (g : Graph (ChannelTask ⊕ τ)) (x : TaskId) : Whispers id g (g.onTaskReady x) := by
  unfold Graph.onTaskReady
  cases ht : g.tasks.lookup x with
  | none => exact refl g
  | some t =>
    simp only
    cases hs : t.state with
    | running =>
      refine setState g x fun hx t' ht' => ?_
      subst hx
      rw [← Option.some.inj (ht.symm.trans ht'), hs]
      rfl
    | idle | starting | ready | stopping | backoff | done | exited => exact refl g

theorem onTaskStopped (hx : x ≠ id) (info : ExitInfo) : Whispers id g (g.onTaskStopped x info) := by
  unfold Graph.onTaskStopped
  split
  · exact refl g
  · rename_i t _
    have hland : Whispers id g
      ((if g.stayedUp t then g.modifyTask x (fun t => { t with attempts := 0 }) else g).landExit
        x info) := by
      refine trans (ite ?_ (refl g)) (landExit hx info)
      exact of_hush (.modifyTask g x fun _ => ⟨rfl, rfl⟩)
    split
    · exact landStop hx info
    all_goals first | exact hland | exact refl g

theorem onEffect (hx : x ≠ id) (effect : TaskEffect) : Whispers id g (g.onEffect x effect) := by
  cases effect with
  | started => exact onTaskStarted hx
  | ready => exact onTaskReady g x
  | stopped info => exact onTaskStopped hx info

end Whispers

theorem spoken_landExit (h : g.Spoken id (some (sent, p))) (info : ExitInfo) : ∃ cs, (∀ cmd ∈ cs, cmd.Plain) ∧
    (g.landExit id info).Spoken id (some (sent ++ cs, .down)) := by
  obtain ⟨t, ht, -, -⟩ := h.lookup
  have hdown := phase_exitState t info
  unfold Graph.landExit
  simp only [ht]
  split
  · rename_i info' he
    have hcount := (Hush.modifyTask g id (F := fun t => { t with attempts := t.attempts + 1 })
      fun _ => ⟨rfl, rfl⟩).spoken h
    obtain ⟨cs, hcs, hset⟩ := spoken_setState hcount (.backoff info')
    exact ⟨cs, hcs, (Hush.scheduleStateTimeout _ id _).spoken hset⟩
  · obtain ⟨cs, hcs, hset⟩ := spoken_setState h (t.exitState info)
    rw [hdown] at hset
    exact ⟨cs, hcs, hset⟩

theorem spoken_landStop (h : g.Spoken id (some (sent, p))) (info : ExitInfo) : ∃ cs, (∀ cmd ∈ cs, cmd.Plain) ∧
    (g.landStop id info).Spoken id (some (sent ++ cs, .down)) := by
  obtain ⟨t, ht, -, -⟩ := h.lookup
  unfold Graph.landStop
  simp only [ht]
  split
  · exact spoken_landExit h _
  · exact spoken_setState h .idle

theorem spoken_onTaskStarted (h : g.Spoken id (some (sent, p))) : ∃ cs, (∀ cmd ∈ cs, cmd.Plain) ∧
    (g.onTaskStarted id).Spoken id (some (sent ++ cs, p.report .started)) := by
  obtain ⟨t, ht, -, hp⟩ := h.lookup
  have hsame (hne : t.state ≠ .starting) : ∃ cs, (∀ cmd ∈ cs, cmd.Plain) ∧
      g.Spoken id (some (sent ++ cs, p.report .started)) := by
    refine ⟨[], fun _ hc => by (cases hc), ?_⟩
    have hkept : p.report .started = p := by
      subst hp
      cases hs : t.state with
      | starting => exact absurd hs hne
      | _ => rfl
    rw [List.append_nil, hkept]
    exact h
  unfold Graph.onTaskStarted
  simp only [ht]
  cases hs : t.state with
  | starting =>
    obtain ⟨cs, hcs, hset⟩ := spoken_setState h t.startedState
    rw [phase_startedState] at hset
    rw [hs] at hp
    subst hp
    refine ⟨cs, hcs, ?_⟩
    simp only
    split
    · exact (Hush.scheduleStateTimeout _ id _).spoken hset
    · exact hset
  | idle | running | ready | stopping | backoff | done | exited => exact hsame (by rw [hs]; exact fun h => by cases h)

/-- A stop that a task reports leaves it down, whatever it was. -/
theorem spoken_onTaskStopped (h : g.Spoken id (some (sent, p))) (info : ExitInfo) : ∃ cs, (∀ cmd ∈ cs, cmd.Plain) ∧
    (g.onTaskStopped id info).Spoken id (some (sent ++ cs, p.report (.stopped info))) := by
  have hreport : p.report (.stopped info) = .down := by cases p <;> rfl
  rw [hreport]
  obtain ⟨t, ht, -, hp⟩ := h.lookup
  have hland : ∃ cs, (∀ cmd ∈ cs, cmd.Plain) ∧
      ((if g.stayedUp t then g.modifyTask id (fun t => { t with attempts := 0 }) else g).landExit id info).Spoken id
        (some (sent ++ cs, .down)) := by
    split
    · have hstay := (Hush.modifyTask g id (F := fun t => { t with attempts := 0 }) fun _ => ⟨rfl, rfl⟩).spoken h
      exact spoken_landExit hstay info
    · exact spoken_landExit h info
  have hsame (hd : t.state.phase = .down) : ∃ cs, (∀ cmd ∈ cs, cmd.Plain) ∧ g.Spoken id (some (sent ++ cs, .down)) := by
    refine ⟨[], fun _ hc => by (cases hc), ?_⟩
    rw [List.append_nil, ← hd, hp]
    exact h
  unfold Graph.onTaskStopped
  simp only [ht]
  cases hs : t.state with
  | stopping => exact spoken_landStop h info
  | starting | running | ready => exact hland
  | idle | backoff | done | exited => exact hsame (by rw [hs]; rfl)

theorem spoken_hardKill (h : g.Spoken id (some (sent, p))) : (g.hardKill id).Spoken id (some (sent ++ [.kill], p)) := by
  have hkilled := (Hush.modifyTask g id (F := fun t => { t with killed := true, epoch := t.epoch + 1 })
    fun _ => ⟨rfl, rfl⟩).spoken h
  exact (Hush.scheduleStateTimeout _ id killWait).spoken (spoken_sendCmd hkilled .kill)

theorem Hush.hardKill (h : g.tasks.lookup x = none) : Hush g (g.hardKill x) := by
  have hkilled : Hush g (g.modifyTask x fun t => { t with killed := true, epoch := t.epoch + 1 }) :=
    .modifyTask g x fun _ => ⟨rfl, rfl⟩
  have hlook : ((g.modifyTask x fun t => { t with killed := true, epoch := t.epoch + 1 }).noteSent x .kill).tasks.lookup
      x = none := by
    refine (lookup_modifyTask ..).trans ?_
    rw [if_pos rfl, h]
    rfl
  unfold Graph.hardKill Graph.sendCmd
  simp only [hlook]
  exact (hkilled.trans (.noteSent _ _ _)).trans (.scheduleStateTimeout _ _ _)

theorem Whispers.hardKill (hx : x ≠ id) : Whispers id g (g.hardKill x) := by
  have hkilled : Hush g (g.modifyTask x fun t => { t with killed := true, epoch := t.epoch + 1 }) :=
    .modifyTask g x fun _ => ⟨rfl, rfl⟩
  have hsent : Whispers id _
    ((g.modifyTask x fun t => { t with killed := true, epoch := t.epoch + 1 }).sendCmd x .kill) :=
    .sendCmd _ x fun h => absurd h hx
  exact ((of_hush hkilled).trans hsent).trans (of_hush (.scheduleStateTimeout _ _ _))

namespace Talks

omit [Task τ] in
theorem at_self (hother : x ≠ id → Whispers id g g') (hself : x = id → ∀ sent p, g.Spoken id (some (sent, p)) →
    ∃ cs q, p.after cs = some q ∧ g'.Spoken id (some (sent ++ cs, q))) (hnone : g.tasks.lookup x = none → Hush g g') :
    Talks c id g g' := by
  by_cases hx : x = id
  · subst hx
    intro v hv
    cases v with
    | none =>
      cases hv with
      | absent hnone' hq =>
        exact ⟨none, (hnone (Option.map_eq_none_iff.mp hnone')).spoken (.absent hnone' hq), .absent⟩
    | some v =>
      obtain ⟨cs, q, hq, hv'⟩ := hself rfl v.1 v.2 hv
      exact ⟨_, hv', .more hq⟩
  · exact of_whispers (hother hx)

theorem stopTask (hup : x = id → ∀ t, g.tasks.lookup id = some t → t.state.isRunning = true) (startFailed : Bool) :
    Talks c id g (g.stopTask x startFailed) := by
  refine at_self (x := x) (fun hx => ?_) (fun hx sent p h => ?_) fun hnone => ?_
  · unfold Graph.stopTask
    have hstop : Whispers id g (g.setState x .stopping) := .setState g x fun h => absurd h hx
    simp only
    split
    · exact hstop
    · have hfail : Hush (g.setState x .stopping) ((g.setState x .stopping).modifyTask x fun t =>
          { t with startFailed }) := .modifyTask _ x fun _ => ⟨rfl, rfl⟩
      exact ((hstop.trans (.of_hush hfail)).trans (.of_hush (.scheduleStateTimeout _ _ _))).trans
        (.sendCmd _ x fun h => absurd h hx)
  · subst hx
    obtain ⟨t, ht, -, hp⟩ := h.lookup
    obtain ⟨cs, hcs, hstop⟩ := spoken_setState h .stopping
    obtain ⟨t', ht', -, -⟩ := hstop.lookup
    have hfail := (Hush.modifyTask (g.setState x .stopping) x (F := fun t => { t with startFailed })
      fun _ => ⟨rfl, rfl⟩).spoken hstop
    have hsent := spoken_sendCmd ((Hush.scheduleStateTimeout _ x t'.stopTimeout).spoken hfail) .stop
    refine ⟨cs ++ [.stop], .winding, ?_, ?_⟩
    · subst hp
      exact (Phase.after_append (Phase.after_plain hcs)).trans (Phase.after_one (TaskState.next_stop (hup rfl t ht)))
    · unfold Graph.stopTask
      simp only [ht']
      rw [← List.append_assoc]
      exact hsent
  · unfold Graph.stopTask Graph.setState
    simp only [hnone]
    exact .refl g

theorem hardKill (hs : x = id → ∀ t, g.tasks.lookup id = some t → t.state = .stopping) :
    Talks c id g (g.hardKill x) := by
  refine at_self (x := x) (fun hx => .hardKill hx) (fun hx sent p h => ?_) fun hnone => ?_
  · subst hx
    obtain ⟨t, ht, -, hp⟩ := h.lookup
    rw [hs rfl t ht] at hp
    subst hp
    exact ⟨[.kill], .winding, rfl, spoken_hardKill h⟩
  · exact .hardKill hnone

theorem killed (hs : x = id → ∀ t, g.tasks.lookup id = some t → t.state.isRunning = true) :
    Talks c id g ((g.setState x .stopping).hardKill x) := by
  refine at_self (x := x) (fun hx => ?_) (fun hx sent p h => ?_) fun hnone => ?_
  · have hstop : Whispers id g (g.setState x .stopping) := .setState g x fun h => absurd h hx
    exact hstop.trans (.hardKill hx)
  · subst hx
    obtain ⟨t, ht, -, hp⟩ := h.lookup
    obtain ⟨cs, hcs, hstop⟩ := spoken_setState h .stopping
    refine ⟨cs ++ [.kill], .winding, ?_, ?_⟩
    · subst hp
      exact (Phase.after_append (Phase.after_plain hcs)).trans (Phase.after_one (TaskState.next_kill (hs rfl t ht)))
    · rw [← List.append_assoc]
      exact spoken_hardKill hstop
  · unfold Graph.setState
    rw [hnone]
    exact .hardKill hnone

theorem startTask (hdown : x = id → ∀ t, g.tasks.lookup id = some t → t.state.phase = .down) :
    Talks c id g (g.startTask x) := by
  cases hold : g.tasks.lookup x with
  | none =>
    unfold Graph.startTask
    simp only [hold]
    exact refl g
  | some old =>
    have hbegun : (old.begun g.now).task = old.task ∧ (old.begun g.now).state = old.state := by
      unfold TaskHandle.begun
      split <;> exact ⟨rfl, rfl⟩
    have hput : Hush g { g with tasks := g.tasks.insert x (old.begun g.now) } := by
      refine ⟨fun y => ?_, rfl⟩
      simp only [voice, Finmap.lookup_insert_ite]
      split
      · rename_i hy
        rw [hy, hold, Option.map_some, Option.map_some, hbegun.1, hbegun.2]
      · rfl
    have hnoted : Whispers id g (if old.kind = (old.begun g.now).kind then
        { g with tasks := g.tasks.insert x (old.begun g.now) } else
        ({ g with tasks := g.tasks.insert x (old.begun g.now) } : Graph (ChannelTask ⊕ τ)).notifyChanged x) :=
      .ite (.of_hush hput) ((Whispers.of_hush hput).trans (.notifyChanged _ x))
    refine at_self (x := x) (fun hx => ?_) (fun hx sent p h => ?_) fun hnone => ?_
    · unfold Graph.startTask
      simp only [hold]
      exact (hnoted.trans (.setState _ x fun h => absurd h hx)).trans (.sendCmd _ x fun h => absurd h hx)
    · subst hx
      obtain rfl : p = .down := (h.phase_eq hold).symm.trans (hdown rfl old hold)
      obtain ⟨v', hv', hm⟩ := hnoted _ h
      cases hm with
      | more hcs =>
        rename_i cs
        obtain ⟨cs', hcs', hset⟩ := spoken_setState hv' .starting
        have hsent := spoken_sendCmd hset
          (.start ((old.begun g.now).spec.map fun spec => { spec, path := (old.begun g.now).path }))
        rw [List.append_assoc, List.append_assoc] at hsent
        refine ⟨cs ++ (cs' ++ [.start ((old.begun g.now).spec.map fun spec =>
          { spec, path := (old.begun g.now).path })]), .asked, ?_, ?_⟩
        · refine (Phase.after_append (Phase.after_plain hcs)).trans ?_
          exact (Phase.after_append (Phase.after_plain hcs')).trans (Phase.after_one rfl)
        · unfold Graph.startTask
          simp only [hold]
          exact hsent
    · rw [hold] at hnone
      cases hnone

theorem driveTask (g : Graph (ChannelTask ⊕ τ)) (x : TaskId) : Talks c id g (g.driveTask x) := by
  unfold Graph.driveTask
  cases ht : g.tasks.lookup x with
  | none => exact refl g
  | some t =>
    have hself (hx : x = id) (t' : TaskHandle (ChannelTask ⊕ τ)) (ht' : g.tasks.lookup id = some t') : t' = t := by
      subst hx
      exact Option.some.inj (ht'.symm.trans ht)
    have hphase {p : Phase} (hp : t.state.phase = p) (hx : x = id) (t' : TaskHandle (ChannelTask ⊕ τ))
        (ht' : g.tasks.lookup id = some t') : t'.state.phase = p := by rwa [hself hx t' ht']
    have hstop (hr : t.state.isRunning = true) :
        Talks c id g (if g.hasActiveDependent x then g else (g.stopTask x false).note (.drivenStop x)) :=
      ite (refl g) ((stopTask (fun hx t' ht' => by rwa [hself hx t' ht']) false).hush (.note _ _))
    simp only
    split
    · cases hs : t.state with
      | idle => exact startTask (hphase (by rw [hs]; rfl))
      | starting | running | ready | stopping | backoff | done | exited => exact refl g
    · cases hs : t.state with
      | starting | running | ready => exact hstop (by rw [hs]; rfl)
      | backoff => exact of_whispers (.setState g x (hphase (by rw [hs]; rfl)))
      | idle | stopping | done | exited => exact refl g

theorem settleStep (h : g.settleStep = some g') : Talks c id g g' := by
  unfold Graph.settleStep at h
  split at h
  · rename_i x effect rest hp
    obtain rfl := Option.some.inj h
    intro v hv
    have hquiet := hv.quiet
    rw [hp] at hquiet
    have hpop : ({ g with pendingEffects := rest } : Graph (ChannelTask ⊕ τ)).Spoken id v := by
      have hrest : ∀ e ∈ rest, e.1 ≠ id := fun e he => hquiet e (List.mem_cons_of_mem _ he)
      cases hv with
      | absent hnone _ => exact .absent hnone hrest
      | line hline _ => exact .line hline hrest
    exact of_whispers (.onEffect (hquiet _ List.mem_cons_self) effect) v hpop
  · split at h
    · cases h
    · obtain rfl := Option.some.inj h
      unfold Graph.reconcileRound
      exact (of_hush (.propagate _ g [])).trans (foldl (fun g x _ => driveTask g x) _)

theorem settle (g : Graph (ChannelTask ⊕ τ)) : Talks c id g g.settle := by
  unfold Graph.settle
  generalize g.settleBudget + 1 = n
  induction n generalizing g with
  | zero => exact refl g
  | succ n ih =>
    unfold settleSteps
    cases h : g.settleStep with
    | none => exact refl g
    | some g' => exact (settleStep h).trans (ih g')

theorem onStateTimeout (x : TaskId) (epoch : ℕ) (hkept : x = id → ∀ t, g.tasks.lookup id = some t → t.epoch = epoch →
    t.state = .stopping → t.killed = false) : Talks c id g (g.onStateTimeout x epoch) := by
  unfold Graph.onStateTimeout
  cases ht : g.tasks.lookup x with
  | none => exact refl g
  | some t =>
    simp only
    split
    · exact refl g
    · rename_i hepoch
      have hclear : Hush g { g.modifyTask x (fun t => { t with deadline := none }) with
          timerChanges := g.timerChanges ++ [x] } := .modified rfl (fun _ => ⟨rfl, rfl⟩) rfl
      have hlook : ({ g.modifyTask x (fun t => { t with deadline := none }) with
          timerChanges := g.timerChanges ++ [x] } : Graph (ChannelTask ⊕ τ)).tasks.lookup x =
            some { t with deadline := none } := by
        refine (lookup_modifyTask ..).trans ?_
        rw [if_pos rfl, ht]
        rfl
      refine (of_hush hclear).trans ?_
      generalize ({ g.modifyTask x (fun t => { t with deadline := none }) with
          timerChanges := g.timerChanges ++ [x] } : Graph (ChannelTask ⊕ τ)) = g₁ at hlook
      have hstate (hx : x = id) (t' : TaskHandle (ChannelTask ⊕ τ)) (ht' : g₁.tasks.lookup id = some t') :
          t'.state = t.state := by
        subst hx
        rw [← Option.some.inj (hlook.symm.trans ht')]
      cases hs : t.state with
      | backoff =>
        refine of_whispers (.setState _ x fun hx t' ht' => ?_)
        rw [hstate hx t' ht', hs]
        rfl
      | stopping =>
        simp only
        split
        · rename_i hkilled
          refine of_whispers (.giveUp (fun hx => ?_) _)
          subst hx
          rw [hkept rfl t ht (not_not.mp hepoch) hs] at hkilled
          cases hkilled
        · exact hardKill fun hx t' ht' => (hstate hx t' ht').trans hs
      | running =>
        simp only
        split
        · refine stopTask (fun hx t' ht' => ?_) true
          rw [hstate hx t' ht', hs]
          rfl
        · exact refl _
      | idle | starting | ready | done | exited => exact refl _

end Talks

end commands

end Graph

end Dekit
