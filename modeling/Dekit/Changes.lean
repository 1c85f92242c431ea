import Dekit.Registers
import Dekit.Turns

namespace Dekit

/-- What a message from outside may bring in. -/
def Terms.Allows {τ : Type} [Task τ] (I : Terms τ) : KernelCommand τ → Prop
  | .registerTask r _ => I.fit → r.def'.Fit
  | .registerTasks rs _ => I.fit → ∀ r : TaskRegistration τ, .task r ∈ rs → r.def'.Fit
  | .taskStopped info => I.reports info
  | _ => True

/-- Whether a command moves, makes or changes tasks on its sender's word. -/
def KernelCommand.cause {τ : Type} : KernelCommand τ → Cause
  | .remove _ _ => .removal
  | .registerTask _ _ | .registerTasks _ _ | .act _ _ _ | .unpin _ _ | .setLabel _ _ _ | .duplicate _ _ _
  | .update _ _ _ | .setOrigin _ _ _ | .move _ _ | .wait ⟨.act _ _, _, _⟩ | .quit | .quitWithoutSave
  | .quitWithin _ _ => .command
  | .dropFolder _ _ | .setFolder _ _ _ | .taskMsg _ _ | .query | .subscribePath _ _ | .unsubscribePath _ _
  | .watchActive _ _ | .wait ⟨.isMatching _, _, _⟩ | .wait ⟨.ids _, _, _⟩ | .taskStarted | .taskReady | .taskStopped _
  | .stateTimeout _ _ | .freeze _ | .taskFrozen _ _ | .freezeTimeout _ | .thaw => .itself

theorem TaskDef.Fit.admits {τ : Type} {d : TaskDef τ} (h : d.Fit) : d.Admits none :=
  ⟨h, fun _ hs _ => (Option.some_ne_none _ hs.symm).elim, fun _ hs _ => (Option.some_ne_none _ hs.symm).elim⟩

namespace Graph

variable {τ : Type} {g g' : Graph τ} {id : TaskId}

theorem records_dropRequirers (id : TaskId) (wasWanted wasActive : Bool) (l : List TaskId) (g : Graph τ) :
    Recounted g (l.foldl (dropRequirer id wasWanted wasActive) g) := by
  refine Fold.foldl_rel Recounted.refl (fun _ _ _ => Recounted.trans) (fun g dep _ => ?_) g
  unfold dropRequirer
  refine Recounted.trans ?_ (.enqueue _ dep)
  apply Recounted.modified (n := fun p => if wasWanted then p - 1 else p)
  · rfl
  · exact fun _ => rfl
  · rfl
  · rfl

variable [Task τ] {I : Terms τ}

theorem edges_dropDeps (id : TaskId) (l : List TaskId) (g : Graph τ) :
    Aside { g with edges := fun x => if x ∈ l then (g.edges x).erase id else g.edges x } (l.foldl (dropDep id) g) := by
  induction l generalizing g with
  | nil =>
    refine .of_eq ?_ rfl
    simp [records]
  | cons src l ih =>
    have hone : Aside { g with edges := Function.update g.edges src ((g.edges src).erase id) } (dropDep id g src) :=
      .enqueue _ _
    refine Aside.trans ?_ (ih (dropDep id g src))
    have he : (dropDep id g src).edges = Function.update g.edges src ((g.edges src).erase id) :=
      congrArg Records.deps hone.records
    refine ⟨?_, hone.effects⟩
    have hq := congrArg Records.quitting hone.records
    have hc := congrArg Records.changed hone.records
    have ht := congrArg Records.tasks hone.records
    have hg := congrArg Records.tags hone.records
    have hl := congrArg Records.transitions hone.records
    refine Records.ext hq hc ht (funext fun x => ?_) hg hl
    simp only [records]
    rw [he]
    by_cases hx : x = src
    · subst hx
      by_cases hl : x ∈ l <;> simp [hl]
    · by_cases hl : x ∈ l <;> simp [hl, hx]

omit [Task τ] in
theorem records_dropHandle {handle : TaskHandle τ} (ht : g.tasks.lookup id = some handle) :
    (g.dropHandle id handle).records = { g.records with
      changed := true
      tasks := fun x => if x = id then none else g.records.tasks x
      tags := g.records.untag id handle.tags } ∧ (g.dropHandle id handle).pendingEffects = g.pendingEffects ∧
      (g.dropHandle id handle).redges = g.redges := by
  have htasks : (g.dropHandle id handle).tasks = g.tasks.erase id := by
    unfold dropHandle unindexTags
    cases handle.path <;> rfl
  have hrest : (g.dropHandle id handle).margin =
    (g.quitting, true, g.edges, g.records.untag id handle.tags, g.transitions) ∧
      (g.dropHandle id handle).pendingEffects = g.pendingEffects ∧ (g.dropHandle id handle).redges = g.redges := by
    unfold dropHandle unindexTags
    cases handle.path <;> exact ⟨rfl, rfl, rfl⟩
  obtain ⟨hm, hp, he⟩ := hrest
  refine ⟨?_, hp, he⟩
  simp only [margin, Prod.mk.injEq] at hm
  obtain ⟨hq, hc, hd, hg, hl⟩ := hm
  refine Records.ext hq hc (funext fun x => ?_) hd hg hl
  simp only [records]
  rw [htasks]
  by_cases hx : x = id
  · subst hx
    simp
  · simp [hx, Finmap.lookup_erase_ne hx]

theorem records_dropEdges (hinv : ∀ a, id ∈ g.edges a → a ∈ g.redges id) (wasWanted wasActive : Bool) :
    ∃ parents : TaskId → ℤ, ∃ g', g'.records = { g.records with
        tasks := fun x => (g.records.tasks x).map fun t => { t with wantedParents := parents x }
        deps := fun x => if x = id then ∅ else (g.edges x).erase id } ∧
      g'.pendingEffects = g.pendingEffects ∧ Aside g' (g.dropEdges id wasWanted wasActive) := by
  have hcount : Recounted { g with edges := Function.update g.edges id ∅ }
      ({ g with edges := Function.update g.edges id ∅ }.forEach id (g.edges id)
        (dropRequirer id wasWanted wasActive)) := by
    have htick : Recounted { g with edges := Function.update g.edges id ∅ }
        { g with edges := Function.update g.edges id ∅, tick := g.tick + 1 } := .of_eq rfl rfl
    exact htick.trans (records_dropRequirers id wasWanted wasActive _ _)
  unfold dropEdges
  simp only
  generalize ({ g with edges := Function.update g.edges id ∅ } : Graph τ).forEach id (g.edges id)
    (dropRequirer id wasWanted wasActive) = g₁ at hcount ⊢
  obtain ⟨hm, ⟨parents, hp⟩, he⟩ := hcount
  simp only [margin, Prod.mk.injEq] at hm
  obtain ⟨hq, hc, hd, hg, hl⟩ := hm
  have hedges := edges_dropDeps id
    (({ g₁ with redges := Function.update g₁.redges id ∅ } : Graph τ).walk id (g.redges id))
    { g₁ with redges := Function.update g₁.redges id ∅, tick := g₁.tick + 1 }
  refine ⟨parents, _, ?_, ?_, hedges⟩
  · refine Records.ext hq hc (funext hp) (funext fun x => ?_) hg hl
    simp only [records]
    rw [hd]
    by_cases hx : x = id
    · subst hx
      simp
    · rw [if_neg hx]
      simp only [mem_walk, Function.update_of_ne hx]
      split
      · rfl
      · rename_i hn
        exact (Finset.erase_eq_of_notMem fun h => hn (hinv x h)).symm
  · exact he

namespace Writes

theorem removeTask (h : Valid g) (id : TaskId) : Writes I .removal g (g.removeTask id) := by
  unfold Graph.removeTask
  cases ht : g.tasks.lookup id with
  | none => exact refl g
  | some handle =>
    simp only
    obtain ⟨hdrop, heff, hred⟩ := records_dropHandle ht
    have hinv (a : TaskId) (ha : id ∈ (g.dropHandle id handle).edges a) : a ∈ (g.dropHandle id handle).redges id := by
      rw [hred]
      have hd : (g.dropHandle id handle).edges = g.edges := congrArg Records.deps hdrop
      rw [hd] at ha
      exact (h.sound.shape.inverse a id).mp ha
    obtain ⟨parents, g₁, hr₁, he₁, ha⟩ :=
      records_dropEdges hinv handle.wanted handle.state.isActive
    have hcut : Writes I .removal g g₁ := by
      refine written (s := { g.records with
        changed := true
        tasks := fun x => if x = id then none else
          (g.records.tasks x).map fun t => { t with wantedParents := parents x }
        deps := fun x => if x = id then ∅ else (g.records.deps x).erase id
        tags := g.records.untag id handle.record.tags }) ?_ (he₁.trans heff) fun _ =>
          .removed parents (tasks_of_lookup ht)
      rw [hr₁, hdrop]
      have hd : (g.dropHandle id handle).edges = g.edges := congrArg Records.deps hdrop
      refine Records.ext rfl rfl (funext fun x => ?_) ?_ rfl rfl
      · by_cases hx : x = id <;> simp [hx]
      · rw [hd]
        rfl
    refine (hcut.andThen ha).andThen ?_
    generalize (g.dropHandle id handle).dropEdges id handle.wanted handle.state.isActive = g₂
    have hns : Aside g₂ { g₂ with ns := g₂.ns.removeSubscriber g₂.walkSpaces id } := .of_eq rfl rfl
    exact (hns.trans (.note _ _)).trans (.notifySubscribers _ _ _ _ _)

theorem removeCommand (h : Valid g) (sender : TaskId) (selector : TaskSelector) :
    Writes I .removal g (g.removeCommand sender selector).1 := by
  unfold Graph.removeCommand
  simp only
  refine andThen ?_ (.foldl (fun g id => .removeFolder g id) _ _)
  generalize (g.removal sender selector).1 = l
  induction l generalizing g with
  | nil => exact refl g
  | cons id l ih => exact (removeTask h id).trans (ih (h.removeTask id))

theorem registerOne (g : Graph τ) {saved : Option Snap.Task} {r : Registration τ}
    (ha : I.fit → ∀ t : TaskRegistration τ, r = .task t → t.def'.Admits saved) :
    Writes I .command g (g.registerOne saved r).1 := by
  cases r with
  | task t => exact registerTaskWithId g t.allocated t.def' t.factory saved fun hfit => ha hfit t rfl
  | folder d => exact aside (.registerFolder g d)

theorem registerTasks (g : Graph τ) {tasks : List (Option Snap.Task × Registration τ)}
    (ha : I.fit → ∀ saved (t : TaskRegistration τ), (saved, .task t) ∈ tasks → t.def'.Admits saved) :
    Writes I .command g (g.registerTasks tasks).1 := by
  unfold Graph.registerTasks
  simp only
  refine andThen ?_ (.foldl Aside.dropPlace _ _)
  have hhold : Aside g ((tasks.map Prod.snd).foldl holdPlace g) := .foldl Aside.holdPlace _ _
  refine (aside hhold).trans ?_
  generalize (tasks.map Prod.snd).foldl holdPlace g = g'
  have hone (acc : Graph τ × List (Except RegisterError Unit)) (i : ℕ) :
      Writes I .command acc.1 (Graph.registerAt tasks acc i).1 := by
    unfold Graph.registerAt
    split
    · rename_i saved r hi
      refine registerOne acc.1 fun hfit t ht => ?_
      subst ht
      exact ha hfit saved t (List.mem_of_getElem? hi)
    · exact refl _
  exact Fold.foldl_rel (r := fun a b : Graph τ × List (Except RegisterError Unit) => Writes I .command a.1 b.1)
    (fun a => refl a.1) (fun _ _ _ => trans) (fun acc i _ => hone acc i) (g', _)

theorem registerTaskCommand (g : Graph τ) (sender : TaskId) (r : TaskRegistration τ) (ha : I.fit → r.def'.Fit) :
    Writes I .command g (g.registerTaskCommand sender r).1 := by
  unfold Graph.registerTaskCommand
  split
  · exact registerTaskWithId g r.allocated r.def' r.factory none fun hfit => (ha hfit).admits
  · exact refl g

theorem registerTasksCommand (g : Graph τ) (sender : TaskId) (rs : List (Registration τ))
    (ha : I.fit → ∀ r : TaskRegistration τ, .task r ∈ rs → r.def'.Fit) :
    Writes I .command g (g.registerTasksCommand sender rs).1 := by
  unfold Graph.registerTasksCommand
  simp only
  apply registerTasks
  intro hfit saved t ht
  obtain ⟨r, hr, he⟩ := List.mem_map.mp ht
  obtain ⟨rfl, rfl⟩ := Prod.mk.inj he
  exact (ha hfit t (List.mem_of_mem_filter hr)).admits

theorem duplicate (h : Valid g) (id : TaskId) (req : DuplicateRequest) :
    Writes I .command g (g.duplicate id req).1 := by
  unfold Graph.duplicate
  cases ht : g.tasks.lookup id with
  | none => exact refl g
  | some t =>
    simp only
    split
    · rename_i makeCopy spec hcopy _
      simp only [allocId]
      have halloc : Aside g { g with nextTaskId := g.nextTaskId + 1 } := .of_eq rfl rfl
      split
      · exact aside halloc
      · rename_i d factory hd
        intro htold hs
        have hne : g.nextTaskId ≠ initTaskId := Nat.ne_of_gt h.next
        refine (aside halloc).trans (registerTaskWithId _ hne _ factory none fun hfit => ?_) htold hs
        obtain ⟨hsaved, hd'⟩ := hs.copies hfit id t.record (tasks_of_lookup ht) makeCopy _ _ _ d factory hcopy hd
        refine TaskDef.Fit.admits ?_
        cases hd' with
        | intro _ _ hp hf => exact .intro _ (fun h => by simp [hsaved] at h) hp hf
    · exact refl g

theorem duplicateAll (req : DuplicateRequest) (h : Valid g) (ids : List TaskId) :
    Writes I .command g (Graph.duplicateAll req g ids).1 := by
  induction ids generalizing g with
  | nil => exact refl g
  | cons id ids ih =>
    unfold Graph.duplicateAll
    have hd : Writes I .command g (g.duplicate id req).1 := duplicate h id req
    have hv := h.runs (Runs.duplicate g id req)
    generalize g.duplicate id req = r at hd hv ⊢
    obtain ⟨g', result⟩ := r
    cases result with
    | ok _ => exact hd.trans (ih hv)
    | error err => exact hd

theorem updateCommand (g : Graph τ) (sender : TaskId) (selector : TaskSelector) (update : TaskUpdate) :
    Writes I .command g (g.updateCommand sender selector update).1 := by
  unfold Graph.updateCommand
  split
  · exact refl g
  · exact foldl (fun g r _ => updateTask g r.1 r.2 update) g

end Writes

end Graph

end Dekit
