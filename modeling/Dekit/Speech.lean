import Dekit.Dialogue
import Dekit.Hushed

namespace Dekit

namespace Graph

variable {τ : Type} {c : Turning} {id x : TaskId} {g g' g'' : Graph (ChannelTask ⊕ τ)}

theorem Spoken.same {v : Option (List TaskCmd × Phase)} (h : g.Spoken id v) (hvoice : g'.voice id = g.voice id)
    (heffects : g'.pendingEffects = g.pendingEffects) : g'.Spoken id v := by
  have hquiet : ∀ e ∈ g'.pendingEffects, e.1 ≠ id := by
    rw [heffects]
    exact h.quiet
  cases h with
  | absent hnone _ => exact .absent (hvoice.trans hnone) hquiet
  | line hline _ => exact .line (hvoice.trans hline) hquiet

namespace Talks

theorem of_same (hvoice : g'.voice id = g.voice id) (heffects : g'.pendingEffects = g.pendingEffects) :
    Talks c id g g' := fun v hv => ⟨v, hv.same hvoice heffects, .refl c v⟩

theorem forEach (owner : TaskId) (s : Finset TaskId)
    {body : Graph (ChannelTask ⊕ τ) → TaskId → Graph (ChannelTask ⊕ τ)} (h : ∀ g x, Talks c id g (body g x)) :
    Talks c id g (g.forEach owner s body) := by
  have htick : Hush g { g with tick := g.tick + 1 } := .of_eq rfl rfl
  exact (of_hush htick).trans (foldl (fun g x _ => h g x) _)

end Talks

def Keeps (id : TaskId) (g g' : Graph (ChannelTask ⊕ τ)) : Prop :=
  ∀ sent p, g.Spoken id (some (sent, p)) → ∃ cs q, p.after cs = some q ∧ g'.Spoken id (some (sent ++ cs, q))

theorem Talks.keeps (h : Talks .plain id g g') : Keeps id g g' := by
  intro sent p hv
  obtain ⟨v', hv', hs⟩ := h _ hv
  cases hs with
  | more hq => exact ⟨_, _, hq, hv'⟩

namespace Keeps

theorem refl (g : Graph (ChannelTask ⊕ τ)) : Keeps id g g := (Talks.refl g).keeps

theorem trans (h : Keeps id g g') (h' : Keeps id g' g'') : Keeps id g g'' := by
  intro sent p hv
  obtain ⟨cs, q, hq, hv'⟩ := h sent p hv
  obtain ⟨cs', q', hq', hv''⟩ := h' _ _ hv'
  refine ⟨cs ++ cs', q', (Phase.after_append hq).trans hq', ?_⟩
  rw [← List.append_assoc]
  exact hv''

theorem talks (h : Keeps id g g') (hid : id ∈ g.tasks) : Talks c id g g' := by
  intro v hv
  cases v with
  | none =>
    cases hv with
    | absent hnone _ => exact absurd hid (Finmap.lookup_eq_none.mp (Option.map_eq_none_iff.mp hnone))
  | some v =>
    obtain ⟨cs, q, hq, hv'⟩ := h v.1 v.2 hv
    exact ⟨_, hv', .more hq⟩

end Keeps

theorem Spoken.mem {sent : List TaskCmd} {p : Phase} (h : g.Spoken id (some (sent, p))) : id ∈ g.tasks := by
  obtain ⟨t, ht, -, -⟩ := h.lookup
  exact Finmap.lookup_isSome.mp (Option.isSome_of_mem ht)

section commands

variable [Task τ]

namespace Talks

theorem demandOne (rerunDone : Bool) (target : TaskId) (g : Graph (ChannelTask ⊕ τ)) (x : TaskId) :
    Talks c id g (demandOne rerunDone target g x) := by
  unfold Graph.demandOne
  cases ht : g.tasks.lookup x with
  | none => exact refl g
  | some t =>
    simp only
    obtain ⟨g', hg', hexcuse⟩ : ∃ g', (if t.startFailed = true then
        { g.modifyTask x (fun t => { t with startFailed := false }) with stateChanged := true } else g) = g' ∧
        Hush g g' := by
      refine ⟨_, rfl, .ite ?_ (.refl g)⟩
      exact .modified rfl (fun _ => ⟨rfl, rfl⟩) rfl
    rw [hg']
    have hspared := hexcuse.trans (.setVetoed g' x false)
    refine (of_hush hspared).trans ?_
    split
    · rename_i hrev
      refine of_whispers (.setState _ x fun hx t' ht' => ?_)
      subst hx
      have hvoice := hspared.voice x
      rw [voice, voice, ht, ht'] at hvoice
      rw [(Prod.mk.inj (Option.some.inj hvoice)).2]
      cases hs : t.state with
      | idle | backoff | exited | done => rfl
      | starting | running | ready | stopping =>
        rw [hs] at hrev
        cases hrev
    · exact refl _

theorem demand (g : Graph (ChannelTask ⊕ τ)) (x : TaskId) (rerunDone : Bool) : Talks c id g (g.demand x rerunDone) :=
  foldl (fun g y _ => demandOne rerunDone x g y) g

theorem stopIfActive (g : Graph (ChannelTask ⊕ τ)) (x : TaskId) : Talks c id g (g.stopIfActive x) := by
  unfold Graph.stopIfActive
  cases ht : g.tasks.lookup x with
  | none => exact refl g
  | some t =>
    have hstop (hr : t.state.isRunning = true) : Talks c id g (g.stopTask x false) := by
      refine stopTask (fun hx t' ht' => ?_) false
      subst hx
      rwa [← Option.some.inj (ht.symm.trans ht')]
    simp only
    cases hs : t.state with
    | starting | running | ready => exact hstop (by rw [hs]; rfl)
    | idle | stopping | backoff | done | exited => exact refl g

theorem cmdStart (g : Graph (ChannelTask ⊕ τ)) (x : TaskId) : Talks c id g (g.cmdStart x) :=
  (of_hush (.setPin g x true)).trans (demand _ x true)

theorem cmdKill (g : Graph (ChannelTask ⊕ τ)) (x : TaskId) : Talks c id g (g.cmdKill x) := by
  unfold Graph.cmdKill
  refine (of_hush (.setPin g x false)).trans ?_
  generalize g.setPin x false = g
  simp only
  cases ht : g.tasks.lookup x with
  | none => exact refl g
  | some t =>
    have hself (hx : x = id) (t' : TaskHandle (ChannelTask ⊕ τ)) (ht' : g.tasks.lookup id = some t') : t' = t := by
      subst hx
      exact Option.some.inj (ht'.symm.trans ht)
    have hkill (hr : t.state.isRunning = true) : Talks c id g ((g.setState x .stopping).hardKill x) :=
      killed fun hx t' ht' => by rwa [hself hx t' ht']
    simp only
    cases hs : t.state with
    | starting | running | ready => exact hkill (by rw [hs]; rfl)
    | stopping => exact hardKill fun hx t' ht' => by rw [hself hx t' ht', hs]
    | idle | backoff | done | exited => exact refl g

theorem cmdRestart (g : Graph (ChannelTask ⊕ τ)) (x : TaskId) : Talks c id g (g.cmdRestart x) :=
  (cmdStart g x).trans (stopIfActive _ x)

theorem actOne (verb : Verb) (g : Graph (ChannelTask ⊕ τ)) (x : TaskId) : Talks c id g (actOne verb g x) := by
  cases verb with
  | up => exact (of_hush (.setPin g x true)).trans (demand _ x false)
  | start => exact cmdStart g x
  | restart => exact cmdRestart g x
  | forceRestart => exact (cmdKill g x).trans (cmdStart _ x)
  | stop => exact (of_hush (.setPin g x false)).trans (stopIfActive _ x)
  | kill => exact cmdKill g x
  | veto => exact of_hush ((Hush.setPin g x false).trans (.setVetoed _ x true))

theorem act (g : Graph (ChannelTask ⊕ τ)) (verb : Verb) (sender : TaskId) (selector : TaskSelector) :
    Talks c id g (g.act verb sender selector).1 := foldl (fun g x _ => actOne verb g x) g

theorem setTaskLabel (g : Graph (ChannelTask ⊕ τ)) (x : TaskId) (label : Option String) :
    Talks c id g (g.setTaskLabel x label) := by
  unfold Graph.setTaskLabel
  split
  · exact refl g
  · have hset : Hush g { g.modifyTask x (·.relabel label) with stateChanged := true } :=
      .modified rfl (fun _ => ⟨rfl, rfl⟩) rfl
    exact ite (refl g) ((of_hush hset).trans (of_whispers (.notifyChanged { g.modifyTask x (·.relabel label) with
      stateChanged := true } x)))

theorem setOrigin (g : Graph (ChannelTask ⊕ τ)) (x : TaskId) (origin : Option Source) :
    Talks c id g (g.setOrigin x origin) := by
  unfold Graph.setOrigin
  split
  · exact refl g
  · refine ite (refl g) (trans (of_hush ?_) (of_whispers (.notifyChanged _ x)))
    have hset : Hush g (g.modifyTask x fun t => { t with origin }) := .modifyTask g x fun _ => ⟨rfl, rfl⟩
    exact hset.trans (.setTags _ x _)

theorem updateTask (g : Graph (ChannelTask ⊕ τ)) (x : TaskId) (deps : List TaskId) (update : TaskUpdate) :
    Talks c id g (g.updateTask x deps update) := by
  unfold Graph.updateTask
  refine ite ?_ (refl g)
  have hset : Talks c id g
    (((((g.redefine x update).setTags x update.tags).setDeps x deps).notifyChanged x).enqueue x) :=
    ((of_hush (((Hush.redefine g x update).trans (.setTags _ x _)).trans (.setDeps _ x deps))).trans
      (of_whispers (.notifyChanged _ x))).hush (.enqueue _ x)
  exact ite (hset.trans (cmdRestart _ x)) hset

theorem updateCommand (g : Graph (ChannelTask ⊕ τ)) (sender : TaskId) (selector : TaskSelector) (update : TaskUpdate) :
    Talks c id g (g.updateCommand sender selector update).1 := by
  unfold Graph.updateCommand
  split
  · exact refl g
  · exact foldl (fun g r _ => updateTask g r.1 r.2 update) g

theorem tellMoved (space : TaskSpaceId) (g : Graph (ChannelTask ⊕ τ)) (m : Moved) :
    Talks c id g (Graph.tellMoved space g m) := by
  unfold Graph.tellMoved
  simp only
  split
  · exact refl g
  · exact of_whispers (((Whispers.deliver g _ _ _).trans (.deliver _ _ _ _)).trans (.deliver _ _ _ _))

theorem moveTasks (g : Graph (ChannelTask ⊕ τ)) (req : MoveTask) : Talks c id g (g.moveTasks req).1 := by
  unfold Graph.moveTasks
  split
  · exact refl g
  · rename_i ns moved _
    have hns : Hush g { g with ns, stateChanged := g.stateChanged || !moved.isEmpty } := .of_eq rfl rfl
    exact (of_hush (hns.trans (.foldl .putMoved _ _))).trans (foldl (fun g m _ => tellMoved req.space g m) _)

theorem removeFolder (g : Graph (ChannelTask ⊕ τ)) (x : TaskId) : Talks c id g (g.removeFolder x).1 := by
  unfold Graph.removeFolder
  split
  · exact refl g
  · rename_i folder _
    have hgone : Hush g { g with
        folders := g.folders.erase x, ns := g.ns.removeFolder ⟨folder.space, folder.path⟩ } := .of_eq rfl rfl
    simp only
    exact (of_hush hgone).trans (of_whispers (.notifySubscribers _ _ _ _ _))

omit [Task τ] in
theorem setFolder (g : Graph (ChannelTask ⊕ τ)) (x : TaskId) (settings : FolderSettings) :
    Talks c id g (g.setFolder x settings).1 := by
  unfold Graph.setFolder
  split
  · exact refl g
  · exact of_hush (.of_eq rfl rfl)

theorem subscribe (g : Graph (ChannelTask ⊕ τ)) (subscriber : TaskId) (key : TaskKey) (mode : SubMode) :
    Talks c id g (g.subscribe subscriber key mode) := by
  unfold Graph.subscribe
  have hns : Hush g { g with ns := g.ns.subscribe subscriber key mode } := .of_eq rfl rfl
  refine (of_hush hns).trans (foldl (fun g e _ => ?_) _)
  split
  · exact of_whispers (.deliver _ _ _ _)
  · exact refl g

theorem registerFolder (g : Graph (ChannelTask ⊕ τ)) (d : FolderDef) : Talks c id g (g.registerFolder d).1 := by
  unfold Graph.registerFolder
  split
  · exact refl g
  · split
    · exact refl g
    · rename_i ns _
      have hput : Hush g { g with ns, folders := g.folders.insert d.id ⟨d.space, d.path, d.settings⟩ } := .of_eq rfl rfl
      simp only
      exact (of_hush hput).trans (of_whispers (.notifySubscribers _ _ _ _ _))

theorem installed (g : Graph (ChannelTask ⊕ τ)) (x : TaskId) (def' : TaskDef (ChannelTask ⊕ τ)) (deps : List TaskId)
    (t : TaskHandle (ChannelTask ⊕ τ)) (timer : Option Duration) :
    Talks c id (g.insertTask x t) (g.installTask x def' deps t timer) := by
  unfold Graph.installTask
  have hset : Hush (g.insertTask x t) (deps.foldl (fun g dep => g.addEdge x dep)
      (((g.insertTask x t).scheduleAny x timer).setTags x def'.tags)) :=
    ((Hush.scheduleAny _ x timer).trans (.setTags _ x _)).trans (.foldl (fun g dep => .addEdge g x dep) _ _)
  have hpinned := Hush.ite (p := def'.pinned = true) (hset.trans (.addEdge _ initTaskId x)) hset
  exact (of_hush (hpinned.trans (.enqueue _ x))).trans (of_whispers (.notifySubscribers _ _ _ _ _))

end Talks

def Opened (id : TaskId) (r : TaskRegistration (ChannelTask ⊕ τ)) : Prop :=
  r.taskId = id → r.factory id = .inl ⟨[], false⟩

namespace Talks

theorem registerTaskWithId (g : Graph (ChannelTask ⊕ τ)) (x : TaskId) (def' : TaskDef (ChannelTask ⊕ τ))
    (factory : TaskId → ChannelTask ⊕ τ) (hopen : x = id → c = .opening ∧ factory id = .inl ⟨[], false⟩) :
    Talks c id g (g.registerTaskWithId x def' factory none).1 := by
  unfold Graph.registerTaskWithId
  split
  · exact refl g
  · rename_i hfree
    split
    · exact refl g
    · split
      · exact refl g
      · rename_i g₁ hclaim
        have hsame : g₁.tasks = g.tasks ∧ g₁.pendingEffects = g.pendingEffects := by
          unfold claimPath at hclaim
          split at hclaim
          · obtain rfl := Except.ok.inj hclaim
            exact ⟨rfl, rfl⟩
          · split at hclaim
            · obtain rfl := Except.ok.inj hclaim
              exact ⟨rfl, rfl⟩
            · cases hclaim
        refine ((of_hush (.of_eq hsame.1 hsame.2)).trans ?_).trans (installed g₁ x def' _ _ _)
        have hvoice (y : TaskId) : (g₁.insertTask x (def'.install (factory x) g₁.now none)).voice y =
            if y = x then some (factory x, .idle) else g₁.voice y := by
          simp only [voice, insertTask, Finmap.lookup_insert_ite]
          split <;> rfl
        by_cases hx : x = id
        · subst hx
          obtain ⟨rfl, hfactory⟩ := hopen rfl
          intro v hv
          have hnone : g₁.voice x = none := by
            rw [voice, hsame.1, Finmap.lookup_eq_none.mpr fun h => hfree (.inl h)]
            rfl
          cases hv with
          | line hline _ =>
            rw [hnone] at hline
            cases hline
          | absent _ hq =>
            have hline : (g₁.insertTask x (def'.install (factory x) g₁.now none)).voice x =
                some (.inl ⟨[], false⟩, .idle) := by
              rw [hvoice, if_pos rfl, hfactory]
            exact ⟨some ([], .down), .line hline hq, .opens rfl⟩
        · exact of_same ((hvoice id).trans (if_neg fun h => hx h.symm)) rfl

end Talks

theorem Keeps.registerTaskWithId (g : Graph (ChannelTask ⊕ τ)) (x : TaskId) (def' : TaskDef (ChannelTask ⊕ τ))
    (factory : TaskId → ChannelTask ⊕ τ) : Keeps id g (g.registerTaskWithId x def' factory none).1 := by
  intro sent p hv
  by_cases hx : x = id
  · unfold Graph.registerTaskWithId
    rw [if_pos (.inl (hx ▸ hv.mem))]
    exact refl g sent p hv
  · exact (Talks.registerTaskWithId g x def' factory fun h => absurd h hx).keeps sent p hv

theorem Keeps.registerTaskCommand (g : Graph (ChannelTask ⊕ τ)) (sender : TaskId)
    (r : TaskRegistration (ChannelTask ⊕ τ)) : Keeps id g (g.registerTaskCommand sender r).1 := by
  unfold Graph.registerTaskCommand
  split
  · exact registerTaskWithId g r.taskId r.def' r.factory
  · exact refl g

namespace Talks

theorem registerTaskCommand (g : Graph (ChannelTask ⊕ τ)) (sender : TaskId) {r : TaskRegistration (ChannelTask ⊕ τ)}
    (hopen : Opened id r) : Talks .opening id g (g.registerTaskCommand sender r).1 := by
  unfold Graph.registerTaskCommand
  split
  · exact registerTaskWithId g r.taskId r.def' r.factory fun hx => ⟨rfl, hopen hx⟩
  · exact refl g

theorem registerTasksCommand (g : Graph (ChannelTask ⊕ τ)) (sender : TaskId)
    {rs : List (Registration (ChannelTask ⊕ τ))} {r : Graph (ChannelTask ⊕ τ) → Graph (ChannelTask ⊕ τ) → Prop}
    (hrefl : ∀ g, r g g) (htrans : ∀ g g' g'', r g g' → r g' g'' → r g g'') (hhush : ∀ g g', Hush g g' → r g g')
    (htask : ∀ g t, .task t ∈ rs → r g (g.registerTaskWithId t.taskId t.def' t.factory none).1)
    (hfolder : ∀ g d, r g (g.registerFolder d).1) : r g (g.registerTasksCommand sender rs).1 := by
  unfold Graph.registerTasksCommand Graph.registerTasks
  simp only
  have hhold : Hush g ((((rs.filter fun r => g.canRegister sender r.space).map fun r => (none, r)).map
      (Prod.snd : Option Snap.Task × Registration (ChannelTask ⊕ τ) → _)).foldl holdPlace g) := by
    refine .foldl (fun g r => ?_) _ _
    unfold holdPlace
    split
    · exact .of_eq rfl rfl
    · exact .refl g
  refine htrans _ _ _ (hhush _ _ hhold) (htrans _ _ _ ?_ (hhush _ _ (.foldl (fun g r => ?_) _ _)))
  · have hone (acc : Graph (ChannelTask ⊕ τ) × List (Except RegisterError Unit)) (i : ℕ) :
        r acc.1 (registerAt ((rs.filter fun r => g.canRegister sender r.space).map fun r => (none, r)) acc i).1 := by
      unfold registerAt
      split
      · rename_i saved x hi
        obtain ⟨x', hx', he⟩ := List.mem_map.mp (List.mem_of_getElem? hi)
        obtain ⟨rfl, rfl⟩ := Prod.mk.inj he
        cases x' with
        | task t => exact htask acc.1 t (List.mem_of_mem_filter hx')
        | folder d => exact hfolder acc.1 d
      · exact hrefl _
    exact Fold.foldl_rel (r := fun a b : Graph (ChannelTask ⊕ τ) × List (Except RegisterError Unit) => r a.1 b.1)
      (fun a => hrefl a.1) (fun _ _ _ h h' => htrans _ _ _ h h') (fun acc i _ => hone acc i) (_, _)
  · unfold dropPlace
    split
    · exact .of_eq rfl rfl
    · exact .refl g

theorem freezeTask (number : ℕ) (acc : Graph (ChannelTask ⊕ τ) × Option TaskId) (x : TaskId) :
    Talks c id acc.1 (Graph.freezeTask number acc x).1 := by
  unfold Graph.freezeTask
  cases ht : acc.1.tasks.lookup x with
  | none => exact refl _
  | some t => exact of_whispers (.handled ht fun _ => plain_freeze number)

theorem freeze (g : Graph (ChannelTask ⊕ τ)) (reply : FreezeReply) : Talks c id g (g.freeze reply) := by
  have htick : Hush g { g with freezes := g.freezes + 1, tick := g.tick + 1 } := .of_eq rfl rfl
  have hall : Talks c id g (g.freezeTasks (g.freezes + 1)).1 := by
    refine (of_hush htick).trans ?_
    exact Fold.foldl_rel (r := fun a b : Graph (ChannelTask ⊕ τ) × Option TaskId => Talks c id a.1 b.1)
      (fun a => refl a.1) (fun _ _ _ => trans) (fun acc x _ => freezeTask _ acc x) (_, none)
  unfold Graph.freeze
  simp only
  generalize g.freezeTasks (g.freezes + 1) = r at hall ⊢
  obtain ⟨g₁, dead⟩ := r
  refine hall.hush ?_
  cases dead <;> cases reply <;> exact .of_eq rfl rfl

theorem beginFreeze (g : Graph (ChannelTask ⊕ τ)) (reply : ReplyId) : Talks c id g (g.beginFreeze reply) := by
  unfold Graph.beginFreeze
  split
  · exact of_hush (.of_eq rfl rfl)
  · split
    · exact of_hush (.of_eq rfl rfl)
    · exact freeze g _

theorem thaw (g : Graph (ChannelTask ⊕ τ)) : Talks c id g g.thaw.1 := by
  unfold Graph.thaw
  split
  · exact refl g
  · have hopen : Hush g { g with frozen := none } := .of_eq rfl rfl
    exact (of_hush hopen).trans (forEach _ _ fun g x => of_whispers (.sendCmd g x fun _ => plain_thaw))

omit [Task τ] in
theorem dropEdges (g : Graph (ChannelTask ⊕ τ)) (x : TaskId) (wasWanted wasActive : Bool) :
    Hush g (g.dropEdges x wasWanted wasActive) := by
  have hcut : Hush g { g with edges := Function.update g.edges x ∅ } := .of_eq rfl rfl
  have hdeps : Hush { g with edges := Function.update g.edges x ∅ }
      (({ g with edges := Function.update g.edges x ∅ } : Graph (ChannelTask ⊕ τ)).forEach x (g.edges x)
        (dropRequirer x wasWanted wasActive)) := by
    refine .forEach _ _ fun g dep => ?_
    refine Hush.trans ?_ (.enqueue _ dep)
    exact .modified rfl (fun _ => ⟨rfl, rfl⟩) rfl
  unfold Graph.dropEdges
  simp only
  refine (hcut.trans hdeps).trans ?_
  generalize ({ g with edges := Function.update g.edges x ∅ } : Graph (ChannelTask ⊕ τ)).forEach x (g.edges x)
    (dropRequirer x wasWanted wasActive) = g₁
  have huncut : Hush g₁ { g₁ with redges := Function.update g₁.redges x ∅ } := .of_eq rfl rfl
  refine huncut.trans (.forEach _ _ fun g src => ?_)
  have hedge : Hush g { g with edges := Function.update g.edges src ((g.edges src).erase x) } := .of_eq rfl rfl
  exact hedge.trans (.enqueue _ src)

theorem removeTask (g : Graph (ChannelTask ⊕ τ)) (x : TaskId) : Talks .closing id g (g.removeTask x) := by
  unfold Graph.removeTask
  cases ht : g.tasks.lookup x with
  | none => exact refl g
  | some handle =>
    simp only
    have htasks : (g.dropHandle x handle).tasks = g.tasks.erase x ∧
        (g.dropHandle x handle).pendingEffects = g.pendingEffects := by
      unfold dropHandle unindexTags
      cases handle.path <;> exact ⟨rfl, rfl⟩
    have hdrop : Talks .closing id g (g.dropHandle x handle) := by
      intro v hv
      by_cases hx : x = id
      · subst hx
        refine ⟨none, .absent ?_ ?_, .closed v⟩
        · rw [voice, htasks.1, Finmap.lookup_erase]
          rfl
        · rw [htasks.2]
          exact hv.quiet
      · refine ⟨v, hv.same ?_ htasks.2, .refl _ v⟩
        rw [voice, htasks.1, Finmap.lookup_erase_ne fun h => hx h.symm, ← voice]
    refine (hdrop.hush (dropEdges _ x handle.wanted handle.state.isActive)).trans ?_
    generalize (g.dropHandle x handle).dropEdges x handle.wanted handle.state.isActive = g₁
    have hns : Hush g₁ { g₁ with ns := g₁.ns.removeSubscriber g₁.walkSpaces x } := .of_eq rfl rfl
    exact (of_hush (hns.trans (.note _ _))).trans (of_whispers (.notifySubscribers _ _ _ _ _))

theorem removeCommand (g : Graph (ChannelTask ⊕ τ)) (sender : TaskId) (selector : TaskSelector) :
    Talks .closing id g (g.removeCommand sender selector).1 := by
  unfold Graph.removeCommand
  exact (foldl (fun g x _ => removeTask g x) g).trans (foldl (fun g x _ => removeFolder g x) _)

end Talks

namespace Keeps

theorem duplicate (g : Graph (ChannelTask ⊕ τ)) (x : TaskId) (req : DuplicateRequest) :
    Keeps id g (g.duplicate x req).1 := by
  unfold Graph.duplicate
  cases g.tasks.lookup x with
  | none => exact refl g
  | some t =>
    simp only
    split
    · simp only [allocId]
      have hsame : Hush g { g with nextTaskId := g.nextTaskId + 1 } := .of_eq rfl rfl
      have halloc : Keeps id g { g with nextTaskId := g.nextTaskId + 1 } := (Talks.of_hush hsame).keeps
      split
      · exact halloc
      · exact halloc.trans (registerTaskWithId _ _ _ _)
    · exact refl g

theorem duplicateAll (req : DuplicateRequest) (xs : List TaskId) (g : Graph (ChannelTask ⊕ τ)) :
    Keeps id g (Graph.duplicateAll req g xs).1 := by
  induction xs generalizing g with
  | nil => exact refl g
  | cons x xs ih =>
    unfold Graph.duplicateAll
    have hd : Keeps id g (g.duplicate x req).1 := duplicate g x req
    generalize g.duplicate x req = r at hd ⊢
    obtain ⟨g', result⟩ := r
    cases result with
    | ok _ => exact hd.trans (ih g')
    | error err => exact hd

end Keeps

/-- Every copy of these tasks that is made under an id comes with a channel that nothing was sent over. -/
def Copied (id : TaskId) (g : Graph (ChannelTask ⊕ τ)) (xs : List TaskId) : Prop :=
  ∀ x ∈ xs, ∀ t copy key spec d factory, g.tasks.lookup x = some t → t.makeCopy = some copy →
    copy id key spec = some (d, factory) → factory id = .inl ⟨[], false⟩

omit [Task τ] in
theorem Copied.kept {xs : List TaskId} (h : Copied id g xs) (hk : ∀ x ∈ xs, g'.kept x = g.kept x) :
    Copied id g' xs := by
  intro x hx t copy key spec d factory ht hcopy hd
  have hk := hk x hx
  rw [Graph.kept, ht, Graph.kept] at hk
  obtain ⟨t', ht', he⟩ := Option.map_eq_some_iff.mp hk.symm
  exact h x hx t' copy key spec d factory ht' ((congrArg Prod.snd he).trans hcopy) hd

namespace Talks

theorem duplicate (h : Copied id g [x]) (req : DuplicateRequest) : Talks .opening id g (g.duplicate x req).1 := by
  unfold Graph.duplicate
  cases ht : g.tasks.lookup x with
  | none => exact refl g
  | some t =>
    simp only
    split
    · rename_i copy spec hcopy _
      simp only [allocId]
      have halloc : Hush g { g with nextTaskId := g.nextTaskId + 1 } := .of_eq rfl rfl
      split
      · exact of_hush halloc
      · rename_i d factory hd
        refine (of_hush halloc).trans (registerTaskWithId _ _ _ _ fun hid => ⟨rfl, ?_⟩)
        rw [hid] at hd
        exact h x (List.mem_singleton_self x) t copy _ _ d factory ht hcopy hd
    · exact refl g

theorem duplicateAll (req : DuplicateRequest) {xs : List TaskId} (hmem : ∀ x ∈ xs, x ∈ g.tasks) (h : Copied id g xs) :
    Talks .opening id g (Graph.duplicateAll req g xs).1 := by
  induction xs generalizing g with
  | nil => exact refl g
  | cons x xs ih =>
    unfold Graph.duplicateAll
    have hd : Talks .opening id g (g.duplicate x req).1 :=
      duplicate (fun y hy => h y (List.mem_singleton.mp hy ▸ List.mem_cons_self)) req
    -- A copy goes in beside the tasks that are there, so those still to be copied are as they were.
    have hk (y : TaskId) (hy : y ∈ xs) : (g.duplicate x req).1.kept y = g.kept y :=
      kept_duplicate (hmem y (List.mem_cons_of_mem x hy)) x req
    generalize g.duplicate x req = r at hd hk ⊢
    obtain ⟨g', result⟩ := r
    cases result with
    | ok _ =>
      have hrest : Copied id g xs := fun y hy => h y (List.mem_cons_of_mem x hy)
      exact hd.trans (ih (fun y hy => mem_of_kept (hk y hy) (hmem y (List.mem_cons_of_mem x hy))) (hrest.kept hk))
    | error err => exact hd

end Talks

/-- What a command may do beside speaking to a task: a registration brings it in, a removal takes it out. -/
def turning : KernelCommand (ChannelTask ⊕ τ) → Turning
  | .registerTask _ _ | .registerTasks _ _ | .duplicate _ _ _ => .opening
  | .remove _ _ => .closing
  | _ => .plain

/-- A command that is no word of a task on its process: one that registers it, or makes it as a copy, gives it a
channel, and its timer does not give it up. -/
def Aloof (id : TaskId) (g : Graph (ChannelTask ⊕ τ)) (sender : TaskId) : KernelCommand (ChannelTask ⊕ τ) → Prop
  | .registerTask r _ => id ∉ g.tasks → Opened id r
  | .registerTasks rs _ => id ∉ g.tasks → ∀ r, .task r ∈ rs → Opened id r
  | .stateTimeout x epoch => x = id → ∀ t, g.tasks.lookup id = some t → t.epoch = epoch → t.state = .stopping →
      t.killed = false
  | .taskStarted | .taskStopped _ => sender ≠ id
  | .duplicate selector _ _ => id ∉ g.tasks → Copied id g (g.mutableMatchingIds sender selector)
  | _ => True

namespace Talks

theorem perform (g : Graph (ChannelTask ⊕ τ)) (sender : TaskId) {command : KernelCommand (ChannelTask ⊕ τ)}
    (h : Aloof id g sender command) : Talks (turning command) id g (g.perform sender command) := by
  have hone {β : Type} {body : Graph (ChannelTask ⊕ τ) → β → Graph (ChannelTask ⊕ τ)}
      (hb : ∀ g x, Talks .plain id g (body g x)) (l : List β) (ack : Option ReplyId) (a : Answer) :
      Talks .plain id g ((l.foldl body g).answerIf ack a) :=
    (foldl (fun g x _ => hb g x) g).hush (.answerIf _ _ _)
  cases command with
  | registerTask r ack =>
    refine hush ?_ (.answerIf _ (some ack) _)
    by_cases hid : id ∈ g.tasks
    · exact (Keeps.registerTaskCommand g sender r).talks hid
    · exact registerTaskCommand g sender (h hid)
  | registerTasks rs ack =>
    refine hush ?_ (.answerIf _ (some ack) _)
    by_cases hid : id ∈ g.tasks
    · refine Keeps.talks (registerTasksCommand g sender Keeps.refl (fun _ _ _ => Keeps.trans)
        (fun _ _ hh => (of_hush hh).keeps) (fun g t _ => Keeps.registerTaskWithId g _ _ _)
        fun g d => (registerFolder g d).keeps) hid
    · exact registerTasksCommand g sender refl (fun _ _ _ => trans) (fun _ _ => of_hush)
        (fun g t ht => registerTaskWithId g _ _ _ fun hx => ⟨rfl, h hid t ht hx⟩) registerFolder
  | act verb selector ack => exact (act g verb sender selector).hush (.answerIf _ _ _)
  | unpin selector ack => exact hone (fun g x => of_hush (.setPin g x false)) _ _ _
  | remove selector ack => exact (removeCommand g sender selector).hush (.answerIf _ _ _)
  | dropFolder x ack =>
    have hd : Talks .plain id g (if g.canMutateFolder sender x then g.removeFolder x else (g, false)).1 := by
      split
      · exact removeFolder g x
      · exact refl g
    exact hd.hush (.answerIf _ _ _)
  | setFolder x settings ack =>
    have hd : Talks .plain id g (if g.canMutateFolder sender x then g.setFolder x settings else (g, false)).1 := by
      split
      · exact setFolder g x settings
      · exact refl g
    exact hd.hush (.answerIf _ _ _)
  | setLabel selector label ack => exact hone (fun g x => setTaskLabel g x label) _ _ _
  | duplicate selector req reply =>
    refine hush ?_ (.answerIf _ (some reply) _)
    by_cases hid : id ∈ g.tasks
    · exact (Keeps.duplicateAll req _ g).talks hid
    · exact duplicateAll req (fun _ => mem_of_matched) (h hid)
  | update selector update reply => exact (updateCommand g sender selector update).hush (.answerIf _ (some reply) _)
  | setOrigin selector origin ack => exact hone (fun g x => setOrigin g x origin) _ _ _
  | move req reply =>
    have hd : Talks .plain id g (if g.canRegister sender req.space then g.moveTasks req
        else (g, .error (.notFound req.src))).1 := by
      split
      · exact moveTasks g req
      · exact refl g
    exact hd.hush (.answerIf _ (some reply) _)
  | taskMsg x content => exact of_whispers (.sendCmd g x fun _ => plain_msg _)
  | subscribePath key mode => exact subscribe g sender key mode
  | unsubscribePath key mode => exact of_hush (.of_eq rfl rfl)
  | wait request =>
    obtain ⟨on, cond, events⟩ := request
    cases on with
    | act verb selector => exact act g verb sender selector
    | isMatching selector => exact refl g
    | ids ids => exact refl g
  | taskStarted => exact of_whispers (.onTaskStarted h)
  | taskReady => exact of_whispers (.onTaskReady g sender)
  | taskStopped info => exact of_whispers (.onTaskStopped h info)
  | stateTimeout x epoch => exact onStateTimeout x epoch h
  | freeze reply => exact beginFreeze g reply
  | taskFrozen number snapshot => exact of_hush (.onTaskFrozen g sender number snapshot)
  | quit | quitWithoutSave | quitWithin | freezeTimeout | thaw | query | watchActive => exact refl g

end Talks

omit [Task τ] in
theorem Aloof.at {sender : TaskId} {command : KernelCommand (ChannelTask ⊕ τ)} (h : Aloof id g sender command)
    (now : Instant) : Aloof id { g with now } sender command := by
  cases command <;> exact h

end commands

end Graph

open Dekit.Graph

namespace Kernel

variable {τ : Type} [Task τ] {k k' : Kernel (ChannelTask ⊕ τ)} {c : Turning} {id : TaskId}
  {msg : KernelMessage (ChannelTask ⊕ τ)} {sent : List TaskCmd} {p : Phase}

omit [Task τ] in
theorem hush_answerIf (k : Kernel (ChannelTask ⊕ τ)) (reply : Option ReplyId) (a : Answer) :
    Hush k.graph (k.answerIf reply a).graph := .answerIf k.graph reply a

theorem talks_thaw (k : Kernel (ChannelTask ⊕ τ)) : Talks c id k.graph k.thaw.graph := .thaw k.graph

omit [Task τ] in
theorem hush_beginQuit (k : Kernel (ChannelTask ⊕ τ)) : Hush k.graph k.beginQuit.1.graph := .beginQuit k.graph

theorem talks_quit (k : Kernel (ChannelTask ⊕ τ)) (save : Bool) (reply : Option ReplyId) :
    Talks c id k.graph (k.quit save reply).1.graph := by
  unfold quit
  split
  · exact (Talks.of_hush (hush_answerIf k reply _)).trans (.freeze _ .quit)
  · simp only
    have hthaw : Talks c id k.graph (if k.graph.freezingForQuit then k.thaw else k).graph := by
      split
      · exact talks_thaw k
      · exact .refl _
    generalize (if k.graph.freezingForQuit then k.thaw else k) = k₁ at hthaw ⊢
    exact hthaw.hush ((hush_beginQuit k₁).trans (hush_answerIf k₁.beginQuit.1 _ _))

theorem talks_runCommand (h : Aloof id k.graph msg.sender msg.command) :
    Talks (turning msg.command) id k.graph (k.runCommand msg).1.graph := by
  have hp := Talks.perform k.graph msg.sender h
  obtain ⟨sender, command⟩ := msg
  unfold runCommand
  cases command with
  | quit => exact talks_quit k true none
  | quitWithoutSave => exact talks_quit k false none
  | quitWithin save reply => exact talks_quit k save (some reply)
  | freezeTimeout number =>
    simp only
    split
    · exact (talks_thaw k).hush (hush_beginQuit k.thaw)
    · exact .refl _
  | thaw => exact talks_thaw k
  | _ => exact hp

theorem talks_finishFreeze (k : Kernel (ChannelTask ⊕ τ)) : Talks c id k.graph k.finishFreeze.1.graph := by
  have hf := Hush.finishFreeze k.graph
  unfold finishFreeze
  generalize k.graph.finishFreezeIfComplete = r at hf ⊢
  obtain ⟨g, saved⟩ := r
  cases saved with
  | none => exact .of_hush hf
  | some snapshot =>
    refine (Talks.of_hush hf).trans ?_
    exact (talks_thaw { k with graph := g, saved := _ }).hush (hush_beginQuit (Kernel.thaw _))

theorem talks_dispatchNow (k : Kernel (ChannelTask ⊕ τ)) (msg : KernelMessage (ChannelTask ⊕ τ)) :
    Talks c id ({ k with handled := k.handled ++ [msg] }.runCommand msg).1.graph (k.dispatchNow msg).1.graph := by
  unfold dispatchNow
  generalize ({ k with handled := k.handled ++ [msg] } : Kernel (ChannelTask ⊕ τ)).runCommand msg = r
  obtain ⟨k', exit⟩ := r
  cases exit with
  | some _ => exact .refl _
  | none => exact talks_finishFreeze k'

theorem talks_dispatch (h : Aloof id k.graph msg.sender msg.command) :
    Talks (turning msg.command) id k.graph (k.dispatch msg).1.graph := by
  have hnow : Talks (turning msg.command) id k.graph (k.dispatchNow msg).1.graph :=
    (talks_runCommand (k := { k with handled := k.handled ++ [msg] }) h).trans (talks_dispatchNow k msg)
  unfold dispatch
  cases hf : k.graph.frozen with
  | none => exact hnow
  | some frozen =>
    simp only
    cases msg.command.disposition k.graph.freezingForQuit with
    | now => exact hnow
    | covered =>
      unfold cover
      cases msg.command with
      | quitWithin save reply => exact .of_hush (hush_answerIf k (some reply) _)
      | _ => exact .refl _
    | deferred => exact .of_hush (.of_eq rfl rfl)

theorem talks_afterDispatch (k : Kernel (ChannelTask ⊕ τ)) : Talks c id k.graph k.afterDispatch.graph := by
  unfold afterDispatch
  split
  · exact .refl _
  · exact (Talks.settle k.graph).hush (.of_eq rfl rfl)

theorem talks_turned (k : Kernel (ChannelTask ⊕ τ)) (now : Instant) (msg : KernelMessage (ChannelTask ⊕ τ)) :
    Talks c id ({ k with graph := { k.graph with now } }.dispatch msg).1.graph (k.turn now msg).graph := by
  unfold turn
  generalize ({ k with graph := { k.graph with now } } : Kernel (ChannelTask ⊕ τ)).dispatch msg = r
  obtain ⟨k', exit⟩ := r
  cases exit with
  | true => exact .refl _
  | false => exact talks_afterDispatch k'

theorem talks_turn (h : Aloof id k.graph msg.sender msg.command) (now : Instant) :
    Talks (turning msg.command) id k.graph (k.turn now msg).graph := by
  have hnow : Hush k.graph { k.graph with now } := .of_eq rfl rfl
  have hd := talks_dispatch (k := { k with graph := { k.graph with now } }) (h.at now)
  exact ((Talks.of_hush hnow).trans hd).trans (talks_turned k now msg)

theorem spoken_report (h : k.graph.Spoken id (some (sent, p))) {command : KernelCommand (ChannelTask ⊕ τ)}
    {effect : TaskEffect} (hc : command.report = some effect) (now : Instant) :
    ∃ cs q, (p.report effect).after cs = some q ∧
      (k.turn now ⟨id, command⟩).graph.Spoken id (some (sent ++ cs, q)) := by
  have hnow : ({ k.graph with now } : Graph (ChannelTask ⊕ τ)).Spoken id (some (sent, p)) :=
    (Hush.of_eq rfl rfl : Hush k.graph { k.graph with now }).spoken h
  have hdone : ∃ cs, (∀ cmd ∈ cs, cmd.Plain) ∧
      (({ k.graph with now } : Graph (ChannelTask ⊕ τ)).perform id command).Spoken id
        (some (sent ++ cs, p.report effect)) := by
    cases command with
    | taskStarted =>
      obtain rfl := Option.some.inj hc
      exact spoken_onTaskStarted hnow
    | taskReady =>
      obtain rfl := Option.some.inj hc
      obtain ⟨v', hv', hm⟩ := Whispers.onTaskReady { k.graph with now } id _ hnow
      have hkept : p.report .ready = p := by cases p <;> rfl
      rw [hkept]
      cases hm with
      | more hcs => exact ⟨_, hcs, hv'⟩
    | taskStopped info =>
      obtain rfl := Option.some.inj hc
      exact spoken_onTaskStopped hnow info
    | _ => cases hc
  obtain ⟨cs, hcs, hdone⟩ := hdone
  have hrest : Talks .plain id (({ k.graph with now } : Graph (ChannelTask ⊕ τ)).perform id command)
      (k.turn now ⟨id, command⟩).graph := by
    have hdispatch : ({ k with graph := { k.graph with now } } : Kernel (ChannelTask ⊕ τ)).dispatch ⟨id, command⟩ =
        ({ k with graph := { k.graph with now } } : Kernel (ChannelTask ⊕ τ)).dispatchNow ⟨id, command⟩ := by
      unfold dispatch
      cases command with
      | taskStarted | taskReady | taskStopped => cases k.graph.frozen <;> rfl
      | _ => cases hc
    have hrun : (({ k with graph := { k.graph with now }, handled := k.handled ++ [⟨id, command⟩] } :
        Kernel (ChannelTask ⊕ τ)).runCommand ⟨id, command⟩).1.graph =
          ({ k.graph with now } : Graph (ChannelTask ⊕ τ)).perform id command := by
      cases command with
      | taskStarted | taskReady | taskStopped => rfl
      | _ => cases hc
    have hnext := @talks_dispatchNow τ _ .plain id
      ({ k with graph := { k.graph with now } } : Kernel (ChannelTask ⊕ τ)) ⟨id, command⟩
    rw [hrun, ← hdispatch] at hnext
    exact hnext.trans (talks_turned k now ⟨id, command⟩)
  obtain ⟨v', hv', hs⟩ := hrest _ hdone
  cases hs with
  | more hq =>
    rename_i cs' q
    refine ⟨cs ++ cs', q, (Phase.after_append (Phase.after_plain hcs)).trans hq, ?_⟩
    rw [← List.append_assoc]
    exact hv'

end Kernel

end Dekit
