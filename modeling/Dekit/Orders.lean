import Dekit.Drives

namespace Dekit.Graph

variable {τ : Type} {g g' g'' : Graph τ} {id src dst : TaskId} {F : TaskHandle τ → TaskHandle τ}

theorem records_relinked {edges : TaskId → Finset TaskId} (ht : g'.tasks = g.tasks.modify dst F)
    (hF : ∃ n : ℤ → ℤ, ∀ t, (F t).record = { t.record with wantedParents := n t.wantedParents })
    (hm : g'.margin = (g.quitting, true, edges, g.tags, g.transitions)) :
    ∃ parents, g'.records = { g.records.modify dst (fun t => { t with wantedParents := parents }) with
      deps := edges, changed := true } := by
  obtain ⟨n, hn⟩ := hF
  simp only [margin, Prod.mk.injEq] at hm
  obtain ⟨hq, hc, hd, hg, hl⟩ := hm
  refine ⟨n (((g.records.tasks dst).map (·.wantedParents)).getD 0), ?_⟩
  have hr : g'.records.tasks = (g.records.modify dst fun r =>
      { r with wantedParents := n (((g.records.tasks dst).map (·.wantedParents)).getD 0) }).tasks := by
    refine records_modify ht fun t ht => ?_
    rw [hn, tasks_of_lookup ht]
    rfl
  exact Records.ext hq hc hr hd hg hl

def states (g : Graph τ) (x : TaskId) : Option TaskState := (g.tasks.lookup x).map (·.state)

theorem tasks_enqueue (g : Graph τ) (id : TaskId) : (g.enqueue id).tasks = g.tasks := by
  unfold Graph.enqueue
  split <;> rfl

theorem states_setVetoed (g : Graph τ) (id : TaskId) (value : Bool) (x : TaskId) :
    (g.setVetoed id value).states x = g.states x := by
  unfold setVetoed
  cases ht : g.tasks.lookup id with
  | none => rfl
  | some t =>
    simp only
    split
    · rfl
    · have htasks : (((g.modifyTask id fun t => { t with vetoed := value }).enqueue id).note .touched).tasks =
          (g.modifyTask id fun t => { t with vetoed := value }).tasks := tasks_enqueue _ _
      rw [states, htasks, lookup_modifyTask, states]
      split
      · rw [Option.map_map]
        rfl
      · rfl

variable [Task τ] {I : Terms τ} {t : TaskHandle τ}

def Pins (I : Terms τ) (g : Graph τ) (src dst : TaskId) : Prop :=
  src = initTaskId → I.fit → ∀ t, g.tasks.lookup dst = some t → t.savedPin = false

theorem Pins.of_ne (h : src ≠ initTaskId) : Pins I g src dst := fun he => absurd he h

namespace Writes

theorem linked (hp : Pins I g src dst) (hdst : dst ∈ g.tasks) (ht : g'.tasks = g.tasks.modify dst F)
    (hF : ∃ n : ℤ → ℤ, ∀ t, (F t).record = { t.record with wantedParents := n t.wantedParents })
    (hm : g'.margin = (g.quitting, true, Function.update g.edges src (insert dst (g.edges src)), g.tags,
      g.transitions))
    (he : g'.pendingEffects = g.pendingEffects) : Writes I .command g g' := by
  obtain ⟨parents, hr⟩ := records_relinked ht hF hm
  refine written hr he fun _ => .linked parents ?_ fun hsrc hfit r hr => ?_
  · obtain ⟨t, ht⟩ := Option.isSome_iff_exists.mp ((mem_tasks_lookup g dst).mp hdst)
    rw [tasks_of_lookup ht]
    rfl
  · obtain ⟨t₀, ht₀, rfl⟩ := tasks_some hr
    exact hp hsrc hfit t₀ ht₀

theorem addEdge (hp : Pins I g src dst) : Writes I .command g (g.addEdge src dst) := by
  unfold Graph.addEdge
  split
  · exact refl g
  · split
    · exact refl g
    · rename_i hreg
      rw [not_or, not_not] at hreg
      refine andThen ?_ (((Aside.enqueue _ _).trans (Aside.enqueue _ _)).trans (.note _ _))
      split
      · exact refl g
      · exact linked hp hreg.1 rfl ⟨fun n => if src = initTaskId ∨ (g.tasks.lookup src).any (·.wanted) then n + 1 else n,
          fun _ => rfl⟩ rfl rfl

theorem removeEdge (g : Graph τ) (src dst : TaskId) : Writes I .command g (g.removeEdge src dst) := by
  unfold Graph.removeEdge
  refine andThen ?_ (((Aside.enqueue _ _).trans (Aside.enqueue _ _)).trans (.note _ _))
  split
  · have hrel (g' : Graph τ) (F : TaskHandle τ → TaskHandle τ) (ht : g'.tasks = g.tasks.modify dst F)
        (hF : ∃ n : ℤ → ℤ, ∀ t, (F t).record = { t.record with wantedParents := n t.wantedParents })
        (hm : g'.margin = (g.quitting, true, Function.update g.edges src ((g.edges src).erase dst), g.tags,
          g.transitions))
        (he : g'.pendingEffects = g.pendingEffects) : Writes I .command g g' := by
      obtain ⟨parents, hr⟩ := records_relinked ht hF hm
      exact written hr he fun _ => .unlinked _ src dst parents
    exact hrel _ _ rfl ⟨fun n => if src = initTaskId ∨ (g.tasks.lookup src).any (·.wanted) then n - 1 else n,
      fun _ => rfl⟩ rfl rfl
  · exact refl g

theorem setVetoed (g : Graph τ) (id : TaskId) (value : Bool) : Writes I .command g (g.setVetoed id value) := by
  unfold Graph.setVetoed
  cases g.tasks.lookup id with
  | none => exact refl g
  | some t =>
    simp only
    split
    · exact refl g
    · refine andThen ?_ ((Aside.enqueue _ _).trans (.note _ _))
      exact modifyTask rfl (f := fun t => { t with vetoed := value }) (fun _ => rfl) rfl rfl fun _ => .vetoed _ _ _

theorem setPin (g : Graph τ) (id : TaskId) (pinned : Bool) : Writes I .command g (g.setPin id pinned) := by
  unfold Graph.setPin
  have hs : Writes I .command g (g.modifyTask id fun t => { t with savedPin := false }) :=
    modifyTask rfl (f := fun t => { t with savedPin := false }) (fun _ => rfl) rfl rfl fun _ => .unsaved _ _
  simp only
  split
  · refine hs.trans (addEdge fun _ _ t ht => ?_)
    rw [lookup_modifyTask, if_pos rfl] at ht
    obtain ⟨t₀, -, rfl⟩ := Option.map_eq_some_iff.mp ht
    rfl
  · exact hs.trans (removeEdge _ _ _)

theorem revive {g₀ : Graph τ} {rerunDone : Bool} {target : TaskId} (ht : g₀.tasks.lookup id = some t)
    (hs : g.states id = g₀.states id) :
    Writes I .command g (if revives rerunDone target id t.state then g.setState id .idle else g) := by
  split
  · rename_i hr
    apply setState
    intro t' ht' _
    have hst : t'.state = t.state := by
      rw [states, states, ht, ht'] at hs
      exact Option.some.inj hs
    cases h : t.state with
    | backoff info => exact .retries (hst.trans h)
    | done info => exact .revives (.inl (hst.trans h))
    | exited info => exact .revives (.inr (hst.trans h))
    | idle | starting | running | ready | stopping =>
      rw [h] at hr
      cases hr
  · exact refl g

theorem demandOne (rerunDone : Bool) (target : TaskId) (g : Graph τ) (id : TaskId) :
    Writes I .command g (Graph.demandOne rerunDone target g id) := by
  unfold Graph.demandOne
  cases ht : g.tasks.lookup id with
  | none => exact refl g
  | some t =>
    simp only
    have hexcuse : ∃ g', (if t.startFailed = true then
        { g.modifyTask id (fun t => { t with startFailed := false }) with stateChanged := true } else g) = g' ∧
        Writes I .command g g' ∧ g'.states id = g.states id := by
      split
      · refine ⟨_, rfl, ?_, ?_⟩
        · exact changeTask rfl (f := fun t => { t with startFailed := false }) (fun _ => rfl) rfl rfl
            fun _ => .excused _ _
        · rw [states, states, show ({ g.modifyTask id (fun t => { t with startFailed := false }) with
            stateChanged := true } : Graph τ).tasks.lookup id = _ from lookup_modifyTask g id id _, if_pos rfl, ht]
          rfl
      · exact ⟨g, rfl, refl g, rfl⟩
    obtain ⟨g', hg', hw, hs⟩ := hexcuse
    rw [hg']
    exact (hw.trans (setVetoed g' id false)).trans (revive ht ((states_setVetoed g' id false id).trans hs))

theorem demand (g : Graph τ) (id : TaskId) (rerunDone : Bool) : Writes I .command g (g.demand id rerunDone) :=
  foldl (fun g x _ => demandOne rerunDone id g x) g

theorem stopIfActive (g : Graph τ) (id : TaskId) : Writes I .command g (g.stopIfActive id) := by
  unfold Graph.stopIfActive
  cases ht : g.tasks.lookup id with
  | none => exact refl g
  | some t =>
    have hstop (hs : t.state = .starting ∨ t.state = .running ∨ t.state = .ready) :
        Writes I .command g (g.stopTask id false) := stopTask ht hs fun hf => by cases hf
    simp only
    cases hs : t.state with
    | starting => exact hstop (.inl hs)
    | running => exact hstop (.inr (.inl hs))
    | ready => exact hstop (.inr (.inr hs))
    | idle | stopping | backoff | done | exited => exact refl g

theorem cmdStart (g : Graph τ) (id : TaskId) : Writes I .command g (g.cmdStart id) :=
  (setPin g id true).trans (demand _ id true)

theorem cmdUp (g : Graph τ) (id : TaskId) : Writes I .command g (g.cmdUp id) :=
  (setPin g id true).trans (demand _ id false)

theorem cmdStop (g : Graph τ) (id : TaskId) : Writes I .command g (g.cmdStop id) :=
  (setPin g id false).trans (stopIfActive _ id)

theorem cmdKill (g : Graph τ) (id : TaskId) : Writes I .command g (g.cmdKill id) := by
  unfold Graph.cmdKill
  simp only
  refine (setPin g id false).trans ?_
  generalize g.setPin id false = g'
  cases ht : g'.tasks.lookup id with
  | none => exact refl g'
  | some t =>
    have hkill (hs : t.state = .starting ∨ t.state = .running ∨ t.state = .ready) :
        Writes I .command g' ((g'.setState id .stopping).hardKill id) := by
      have hne : t.state ≠ .stopping := by
        rcases hs with hs | hs | hs <;> rw [hs] <;> simp
      have hset : Writes I .command g' (g'.setState id .stopping) := by
        apply setState
        intro t' ht' _
        obtain rfl : t = t' := Option.some.inj (ht.symm.trans ht')
        exact .stops hs
      obtain ⟨g₁, hr, -, ha⟩ := written_setState ht hne
      have hstop : (g'.setState id .stopping).records.tasks id = some (t.record.enter .stopping) := by
        rw [ha.records, hr, Records.tasks_enterState, Records.tasks_modify, if_pos rfl, tasks_of_lookup ht]
        rfl
      obtain ⟨t', ht', htr⟩ := tasks_some hstop
      exact hset.trans (hardKill ht' (congrArg Record.state htr))
    simp only
    cases hs : t.state with
    | starting => exact hkill (.inl hs)
    | running => exact hkill (.inr (.inl hs))
    | ready => exact hkill (.inr (.inr hs))
    | stopping => exact hardKill ht hs
    | idle | backoff | done | exited => exact refl g'

theorem cmdVeto (g : Graph τ) (id : TaskId) : Writes I .command g (g.cmdVeto id) :=
  (setPin g id false).trans (setVetoed _ id true)

theorem cmdRestart (g : Graph τ) (id : TaskId) : Writes I .command g (g.cmdRestart id) :=
  (cmdStart g id).trans (stopIfActive _ id)

theorem actOne (verb : Verb) (g : Graph τ) (id : TaskId) : Writes I .command g (Graph.actOne verb g id) := by
  cases verb with
  | up => exact cmdUp g id
  | start => exact cmdStart g id
  | restart => exact cmdRestart g id
  | forceRestart => exact (cmdKill g id).trans (cmdStart _ id)
  | stop => exact cmdStop g id
  | kill => exact cmdKill g id
  | veto => exact cmdVeto g id

theorem act (g : Graph τ) (verb : Verb) (sender : TaskId) (selector : TaskSelector) :
    Writes I .command g (g.act verb sender selector).1 :=
  foldl (fun g x _ => actOne verb g x) g

end Writes

end Dekit.Graph
