import Dekit.Doomed

namespace Dekit.Graph

variable {τ : Type} {g g' g'' : Graph τ} {x id : TaskId}

def Unstarted (x : TaskId) (g g' : Graph τ) : Prop :=
  ∃ done, g'.log = done ++ g.log ∧ ∀ v, (.sent x .start, v) ∉ done

namespace Unstarted

theorem of_log (h : g'.log = g.log) : Unstarted x g g' := ⟨[], h, fun _ => List.not_mem_nil⟩

theorem refl (g : Graph τ) : Unstarted x g g := of_log rfl

theorem trans (h : Unstarted x g g') (h' : Unstarted x g' g'') : Unstarted x g g'' := by
  obtain ⟨done, hlog, hno⟩ := h
  obtain ⟨done', hlog', hno'⟩ := h'
  refine ⟨done' ++ done, ?_, fun v hv => ?_⟩
  · rw [hlog', hlog, List.append_assoc]
  · exact (List.mem_append.mp hv).elim (hno' v) (hno v)

theorem quiet (h : Quiet g g') : Unstarted x g g' := of_log h.log

theorem note (g : Graph τ) {e : Happening} (he : e ≠ .sent x .start) : Unstarted x g (g.note e) := by
  refine ⟨[(e, g.view)], rfl, fun v hv => he ?_⟩
  rw [List.mem_singleton] at hv
  exact (congrArg Prod.fst hv).symm

theorem touched (g : Graph τ) : Unstarted x g (g.note .touched) := note g fun h => by cases h

theorem noting (h : Noting g g') : Unstarted x g g' := by
  cases h with
  | silent h => exact of_log h.log
  | @noted g' h => exact (of_log h.log : Unstarted x g g').trans (touched g')

theorem scheduleStateTimeout (g : Graph τ) (id : TaskId) (delay : Duration) :
    Unstarted x g (g.scheduleStateTimeout id delay) := by
  unfold Graph.scheduleStateTimeout
  split <;> exact of_log rfl

variable [Task τ]

theorem sendCmd (g : Graph τ) (id : TaskId) {cmd : TaskCmd} (h : sentCmd cmd = some .start → id ≠ x) :
    Unstarted x g (g.sendCmd id cmd) := by
  cases hc : sentCmd cmd with
  | none => exact quiet (.sendCmd g id hc)
  | some sent =>
    refine (note g fun he => ?_).trans (quiet (.sendCmd_sent g id hc))
    obtain ⟨hid, hsent⟩ := Happening.sent.inj he
    rw [hsent] at hc
    exact h hc hid

theorem setState (g : Graph τ) (id : TaskId) (state : TaskState) : Unstarted x g (g.setState id state) := by
  unfold Graph.setState
  cases g.tasks.lookup id with
  | none => exact refl g
  | some old =>
    simp only
    split
    · exact refl g
    · have hput : Unstarted x g (g.putState id old state) := of_log (Counting.putState g id old state).log
      exact (hput.trans (touched _)).trans (quiet (.notifySubscribers _ _ _ _ _))

theorem stopTask (g : Graph τ) (id : TaskId) (startFailed : Bool) : Unstarted x g (g.stopTask id startFailed) := by
  unfold Graph.stopTask
  simp only
  refine (setState g id .stopping).trans ?_
  cases (g.setState id .stopping).tasks.lookup id with
  | none => exact refl _
  | some t =>
    have hmod : Unstarted x (g.setState id .stopping)
        ((g.setState id .stopping).modifyTask id fun t => { t with startFailed }) := of_log rfl
    exact (hmod.trans (scheduleStateTimeout _ _ _)).trans (sendCmd _ _ fun h => by cases h)

theorem hardKill (g : Graph τ) (id : TaskId) : Unstarted x g (g.hardKill id) := by
  have hmod : Unstarted x g (g.modifyTask id fun t => { t with killed := true, epoch := t.epoch + 1 }) := of_log rfl
  exact (hmod.trans (sendCmd _ _ fun h => by cases h)).trans (scheduleStateTimeout _ _ _)

theorem landExit (g : Graph τ) (id : TaskId) (info : ExitInfo) : Unstarted x g (g.landExit id info) := by
  unfold Graph.landExit
  cases g.tasks.lookup id with
  | none => exact refl g
  | some t =>
    simp only
    split
    · have hmod : Unstarted x g (g.modifyTask id fun t => { t with attempts := t.attempts + 1 }) := of_log rfl
      exact (hmod.trans (setState _ _ _)).trans (scheduleStateTimeout _ _ _)
    · exact setState g id _

theorem landStop (g : Graph τ) (id : TaskId) (info : ExitInfo) : Unstarted x g (g.landStop id info) := by
  unfold Graph.landStop
  cases g.tasks.lookup id with
  | none => exact refl g
  | some t =>
    simp only
    split
    · exact landExit g id _
    · exact setState g id .idle

theorem giveUp (g : Graph τ) (id : TaskId) (startFailed : Bool) : Unstarted x g (g.giveUp id startFailed) := by
  unfold Graph.giveUp
  simp only
  refine (landStop g id .error).trans ?_
  cases (g.landStop id .error).tasks.lookup id with
  | none => exact refl _
  | some t =>
    simp only
    split <;> exact of_log rfl

theorem onStateTimeout (g : Graph τ) (id : TaskId) (epoch : ℕ) : Unstarted x g (g.onStateTimeout id epoch) := by
  unfold Graph.onStateTimeout
  cases g.tasks.lookup id with
  | none => exact refl g
  | some t =>
    simp only
    split
    · exact refl g
    · have hmod : Unstarted x g { g.modifyTask id (fun t => { t with deadline := none }) with
          timerChanges := g.timerChanges ++ [id] } := of_log rfl
      refine hmod.trans ?_
      cases t.state with
      | backoff => exact setState _ _ _
      | stopping =>
        simp only
        split
        · exact giveUp _ _ _
        · exact hardKill _ _
      | running =>
        simp only
        split
        · exact stopTask _ _ _
        · exact refl _
      | idle | starting | ready | done | exited => exact refl _

theorem onTaskStarted (g : Graph τ) (id : TaskId) : Unstarted x g (g.onTaskStarted id) := by
  unfold Graph.onTaskStarted
  split
  · exact refl g
  · split
    · simp only
      split
      · exact (setState g id _).trans (scheduleStateTimeout _ _ _)
      · exact setState g id _
    · exact refl g

theorem onTaskReady (g : Graph τ) (id : TaskId) : Unstarted x g (g.onTaskReady id) := by
  unfold Graph.onTaskReady
  split
  · exact refl g
  · split
    · exact setState g id _
    · exact refl g

theorem onTaskStopped (g : Graph τ) (id : TaskId) (info : ExitInfo) : Unstarted x g (g.onTaskStopped id info) := by
  unfold Graph.onTaskStopped
  split
  · exact refl g
  · rename_i t _
    have hup : Unstarted x g
        ((if g.stayedUp t then g.modifyTask id (fun t => { t with attempts := 0 }) else g).landExit id info) := by
      refine Unstarted.trans ?_ (landExit _ id info)
      split
      · exact of_log rfl
      · exact refl g
    split
    · exact landStop g id info
    · exact hup
    · exact hup
    · exact hup
    all_goals exact refl g

theorem onEffect (g : Graph τ) (id : TaskId) (effect : TaskEffect) : Unstarted x g (g.onEffect id effect) := by
  cases effect with
  | started => exact onTaskStarted g id
  | ready => exact onTaskReady g id
  | stopped info => exact onTaskStopped g id info

omit [Task τ] in
theorem propagate (fuel : ℕ) (g : Graph τ) (toDrive : List TaskId) :
    Unstarted x g (Graph.propagate fuel g toDrive).1 := by
  induction fuel generalizing g toDrive with
  | zero => exact refl g
  | succ fuel ih =>
    unfold Graph.propagate
    cases h : g.popDirty with
    | none => exact refl g
    | some r =>
      obtain ⟨id, g'⟩ := r
      obtain ⟨rest, -, rfl⟩ := popDirty_eq h
      have hpop : Unstarted x g { g with dirty := rest, inQueue := g.inQueue.erase id } := of_log rfl
      exact (hpop.trans (noting (Counting.recomputeCaches _ id))).trans (ih _ _)

theorem startTask (g : Graph τ) (id : TaskId) (hne : id ≠ x) : Unstarted x g (g.startTask id) := by
  unfold Graph.startTask
  cases g.tasks.lookup id with
  | none => exact refl g
  | some old =>
    simp only
    refine Unstarted.trans ?_ (sendCmd _ _ fun _ => hne)
    refine Unstarted.trans ?_ (setState _ _ _)
    split
    · exact of_log rfl
    · have hin : Unstarted x g { g with tasks := g.tasks.insert id (old.begun g.now) } := of_log rfl
      exact hin.trans (quiet (.notifyChanged _ _))

theorem driveTask (g : Graph τ) (id : TaskId)
    (hdown : ∀ t, g.tasks.lookup x = some t → t.supported = true → t.state ≠ .idle) :
    Unstarted x g (g.driveTask id) := by
  unfold Graph.driveTask
  cases ht : g.tasks.lookup id with
  | none => exact refl g
  | some t =>
    have hstop : Unstarted x g
        (if g.hasActiveDependent id then g else (g.stopTask id false).note (.drivenStop id)) := by
      split
      · exact refl g
      · exact (stopTask g id false).trans (note _ fun h => by cases h)
    simp only
    split
    · rename_i hsup
      cases hs : t.state with
      | idle =>
        refine startTask g id fun hx => ?_
        subst hx
        exact hdown t ht hsup hs
      | starting | running | ready | stopping | backoff | done | exited => exact refl g
    · cases t.state with
      | starting | running | ready => exact hstop
      | backoff => exact setState g id .idle
      | idle | stopping | done | exited => exact refl g

end Unstarted

end Dekit.Graph
