import Dekit.Ending
import Dekit.Epochs
import Dekit.Globbing

namespace Dekit

namespace Graph

variable {τ : Type} {g g' : Graph τ} {sender : TaskId} {selector : TaskSelector}

section matching

theorem nodup_glob (h : g.Tidy) (space : SpaceSelector) (pattern : List String) :
    (g.ns.glob g.walkSpaces space pattern).Nodup := by
  have hhome {s : TaskSpaceId} {p : TaskPath} {id : TaskId} (he : (p, id) ∈ (g.ns.space s).paths.glob pattern) :
      (g.tasks.lookup id).map TaskHandle.home = some (s, some p) := by
    have hr := ((PathTrie.mem_glob (h.held s).named).mp he).1
    rw [← PathTrie.content_task] at hr
    exact (h.tasks s p id).mp hr
  unfold Namespace.glob
  rw [List.nodup_flatMap]
  constructor
  · intro s _
    have hpaths := PathTrie.globWalk_paths (h.held s).named pattern false
    have hglob : ((g.ns.space s).paths.glob pattern).Pairwise fun a b => a.1 ≠ b.1 := by
      refine List.Pairwise.filterMap _ (fun a b hab c hc d hd => ?_) hpaths
      obtain ⟨x, -, rfl⟩ := Option.map_eq_some_iff.mp hc
      obtain ⟨y, -, rfl⟩ := Option.map_eq_some_iff.mp hd
      exact hab.2
    refine List.pairwise_map.mpr (hglob.imp_of_mem fun {a b} ha hb hab he => hab ?_)
    have hsame : (g.tasks.lookup a.2).map TaskHandle.home = some (s, some a.1) := hhome ha
    have hsame' : (g.tasks.lookup b.2).map TaskHandle.home = some (s, some b.1) := hhome hb
    rw [he, hsame'] at hsame
    exact (Option.some.inj (Prod.mk.inj (Option.some.inj hsame)).2).symm
  · have hselected : (g.ns.selected g.walkSpaces space).Nodup := by
      cases space with
      | one space => exact List.nodup_singleton space
      | any => exact g.hasher.names_nodup _ _
    refine hselected.imp fun {s s'} hne => List.disjoint_left.mpr fun id hid hid' => ?_
    obtain ⟨⟨p, x⟩, he, rfl⟩ := List.mem_map.mp hid
    obtain ⟨⟨p', x'⟩, he', hx⟩ := List.mem_map.mp hid'
    obtain rfl : x' = x := hx
    have hsame := (hhome he).symm.trans (hhome he')
    exact hne (Prod.mk.inj (Option.some.inj hsame)).1

theorem nodup_mutableMatchingIds (h : g.Tidy) (sender : TaskId) (selector : TaskSelector) :
    (g.mutableMatchingIds sender selector).Nodup := by
  apply List.Nodup.filter
  cases selector with
  | id id =>
    show (if id ∈ g.tasks then [id] else []).Nodup
    split
    · exact List.nodup_singleton id
    · exact List.nodup_nil
  | glob space pattern => exact nodup_glob h space pattern
  | tag space tag => exact (g.hasher.nodup _ _ _).filter _

theorem length_le_tasks {l : List TaskId} (hn : l.Nodup) (hl : ∀ id ∈ l, id ∈ g.tasks.keys) :
    l.length ≤ g.tasks.keys.card := by
  rw [← List.toFinset_card_of_nodup hn]
  exact Finset.card_le_card fun id hid => hl id (List.mem_toFinset.mp hid)

theorem length_mutableMatchingIds (h : g.Tidy) (sender : TaskId) (selector : TaskSelector) :
    (g.mutableMatchingIds sender selector).length ≤ g.tasks.keys.card :=
  length_le_tasks (nodup_mutableMatchingIds h sender selector) fun _ hid => Finmap.mem_keys.mpr (mem_of_matched hid)

theorem length_actSet (h : g.Tidy) (verb : Verb) (sender : TaskId) (selector : TaskSelector) :
    (g.actSet verb sender selector).length ≤ g.tasks.keys.card := by
  cases verb with
  | up =>
    show (g.upSet sender selector).length ≤ _
    refine length_le_tasks ?_ fun id hid => ?_
    · unfold upSet
      refine List.nodup_append.mpr ⟨nodup_mutableMatchingIds h sender selector, Hasher.ascending_nodup _, ?_⟩
      intro a ha b hb hab
      subst hab
      rw [← List.mem_toFinset, Hasher.ascending_toFinset, Finset.mem_filter] at hb
      exact hb.2.2.1 ha
    · unfold upSet at hid
      rcases List.mem_append.mp hid with hid | hid
      · exact Finmap.mem_keys.mpr (mem_of_matched hid)
      · rw [← List.mem_toFinset, Hasher.ascending_toFinset, Finset.mem_filter] at hid
        exact hid.1
  | start | restart | forceRestart | stop | kill | veto => exact length_mutableMatchingIds h sender selector

theorem sends_le (h : g.Tidy) (sender : TaskId) (command : KernelCommand τ) :
    g.sends sender command ≤ g.tasks.keys.card + 1 := by
  cases command with
  | act verb selector ack => exact (length_actSet h verb sender selector).trans (Nat.le_succ _)
  | update selector update reply => exact (length_mutableMatchingIds h sender selector).trans (Nat.le_succ _)
  | wait request =>
    obtain ⟨on, cond, events⟩ := request
    cases on with
    | act verb selector => exact (length_actSet h verb sender selector).trans (Nat.le_succ _)
    | isMatching selector => exact Nat.zero_le _
    | ids ids => exact Nat.zero_le _
  | taskMsg id content => exact Nat.le_add_left _ _
  | stateTimeout id epoch => exact Nat.le_add_left _ _
  | _ => exact Nat.zero_le _

end matching

section load

/-- How many reports may be queued as a message comes in: what the tasks answered a freeze that is under way. -/
def Light (g : Graph τ) : Prop := g.pendingEffects.length ≤ if g.frozen.isSome then 2 * g.tasks.keys.card else 0

def Laden (g : Graph τ) : Prop :=
  g.pendingEffects.length ≤ if g.frozen.isSome then 2 * g.tasks.keys.card else 4 * g.tasks.keys.card + 2

theorem Light.laden (h : g.Light) : g.Laden := by
  unfold Light at h
  unfold Laden
  split at h <;> rename_i hf <;> simp only [hf, if_true, Bool.false_eq_true, if_false] <;> omega

theorem Laden.same (h : g.Laden) (hp : g'.pendingEffects = g.pendingEffects) (hf : g'.frozen.isSome = g.frozen.isSome)
    (hk : g'.tasks.keys = g.tasks.keys) : g'.Laden := by
  unfold Laden
  rw [hp, hf, hk]
  exact h

theorem Laden.beginQuit (h : g.Laden) : g.beginQuit.1.Laden := by
  unfold Graph.beginQuit
  split
  · exact h
  · have hc : Counting { g with quitting := true }
      ({ g with quitting := true }.forEach initTaskId g.tasks.keys enqueue) :=
      .forEach _ _ .enqueue
    exact h.same hc.pendingEffects (congrArg Option.isSome (Kept.of_frame hc.frame).frozen) hc.keys

theorem Laden.finishFreeze (h : g.Laden) : g.finishFreezeIfComplete.1.Laden := by
  have hf := finishFreeze_cases g
  generalize g.finishFreezeIfComplete = r at hf ⊢
  cases hf with
  | waits => exact h
  | answers _ hf _ _ | saves _ hf _ _ => exact h.same rfl (by rw [hf]; rfl) rfl

variable [Task τ]

theorem Laden.thaw (ht : Terse τ) (h : g.Laden) : g.thaw.1.Laden := by
  have hq := quiet_thaw g
  have hkeys : g.thaw.1.tasks.keys = g.tasks.keys := congrArg View.ids hq.view
  have hnone : g.thaw.1.frozen = none := (Kept.of_frame hq.frame).frozen
  have hqueues := Queues.thaw ht g
  cases hf : g.frozen with
  | none =>
    have hsame : g.thaw.1 = g := by
      unfold Graph.thaw
      rw [hf]
    rwa [hsame]
  | some frozen =>
    unfold Laden at h ⊢
    unfold Queues at hqueues
    rw [hf] at h
    rw [hnone, hkeys]
    simp only [Option.isSome_some, if_true, Option.isSome_none, Bool.false_eq_true, if_false] at h ⊢
    omega

theorem laden_freeze (ht : Terse τ) (h : g.pendingEffects = []) (reply : FreezeReply) : (g.freeze reply).Laden := by
  have hf := freeze_froze g reply
  have hkeys : (g.freeze reply).tasks.keys = g.tasks.keys := congrArg View.ids hf.view
  have hqueues := Queues.freeze ht g reply
  unfold Queues at hqueues
  unfold Laden
  rw [hf.frozen, hkeys]
  rw [h] at hqueues
  simpa using hqueues

omit [Task τ] in
theorem card_le_of_ages (h : Ages g g') : g.tasks.keys.card ≤ g'.tasks.keys.card := by
  refine Finset.card_le_card fun x hx => ?_
  rw [Finmap.mem_keys] at hx ⊢
  obtain ⟨c, hc⟩ : ∃ c, g.clock x = some c := by
    obtain ⟨t, ht⟩ := Option.isSome_iff_exists.mp ((mem_tasks_lookup g x).mp hx)
    exact ⟨t.clock, by rw [clock, ht, Option.map_some]⟩
  obtain ⟨c', hc', -⟩ := h x c hc
  obtain ⟨t', ht', -⟩ := Option.map_eq_some_iff.mp hc'
  exact Finmap.mem_of_lookup_eq_some ht'

theorem laden_perform (ht : Terse τ) (hv : Valid g) (htidy : g.Tidy) (hp : g.pendingEffects = []) (hf : g.frozen = none)
    (sender : TaskId) (command : KernelCommand τ) : (g.perform sender command).Laden := by
  by_cases ho : command.operates = true
  · have hops := Runs.perform g sender ho hv.sound hv.next
    have hqueues := Queues.ops ht hops
    have hcard := card_le_of_ages (.of_ticks hops.advances.ticks)
    have hnone : (g.perform sender command).frozen = none := hops.advances.kept.frozen.trans hf
    have hsends := sends_le htidy sender command
    unfold Queues at hqueues
    unfold Laden
    rw [hp, List.length_nil] at hqueues
    rw [hnone]
    simp only [Option.isSome_none, Bool.false_eq_true, if_false]
    omega
  · cases command with
    | remove selector ack =>
      have hqueues : Queues 0 g (g.perform sender (.remove selector ack)) := by
        have hr := Queues.removeCommand ht.toBrief g sender selector
        cases ack with
        | none => exact hr
        | some reply => exact hr.andThen (.of_eq rfl)
      unfold Queues at hqueues
      rw [hp, List.length_nil] at hqueues
      unfold Laden
      omega
    | freeze reply =>
      show (g.beginFreeze reply).Laden
      have hsame (a : Answer) : (g.answer reply a).Laden := by
        unfold Laden
        have hp' : (g.answer reply a).pendingEffects = [] := hp
        rw [hp']
        exact Nat.zero_le _
      unfold beginFreeze
      split
      · exact hsame _
      · split
        · exact hsame _
        · exact laden_freeze ht hp _
    | taskFrozen number snapshot =>
      have hsame : g.perform sender (.taskFrozen number snapshot) = g := by
        show g.onTaskFrozen sender number snapshot = g
        unfold onTaskFrozen
        rw [hf]
      rw [hsame]
      unfold Laden
      rw [hp]
      exact Nat.zero_le _
    | _ => exact absurd rfl ho

theorem laden_perform_frozen (ht : Terse τ) (hv : Valid g) (h : g.Laden) (hf : g.frozen.isSome = true) {forQuit : Bool}
    (sender : TaskId) {command : KernelCommand τ} (hd : command.disposition forQuit = .now) :
    (g.perform sender command).Laden := by
  by_cases ho : command.operates = true
  · have hops := Runs.perform g sender ho hv.sound hv.next
    have hqueues := Queues.ops ht hops
    have hcard := card_le_of_ages (.of_ticks hops.advances.ticks)
    have hfrozen := congrArg Option.isSome hops.advances.kept.frozen
    have hsends : g.sends sender command = 0 := by cases command <;> first | rfl | cases hd
    unfold Queues at hqueues
    unfold Laden at h ⊢
    rw [hsends] at hqueues
    rw [hf, if_pos rfl] at h
    rw [hfrozen, hf, if_pos rfl]
    omega
  · cases command with
    | remove selector ack => cases hd
    | freeze reply =>
      show (g.beginFreeze reply).Laden
      unfold beginFreeze
      rw [if_pos hf]
      exact h.same rfl rfl rfl
    | taskFrozen number snapshot =>
      show (g.onTaskFrozen sender number snapshot).Laden
      unfold onTaskFrozen
      cases hfr : g.frozen with
      | none =>
        rw [hfr] at hf
        cases hf
      | some frozen =>
        simp only
        split
        · exact h
        · exact h.same rfl (by rw [hfr]; rfl) rfl
    | _ => exact absurd rfl ho

end load

/-- Settling ends within its budget, with nothing left in either queue. -/
def Ends [Task τ] (g : Graph τ) : Prop := ∃ m ≤ g.settleBudget, g.settle = settleSteps m g ∧
  (settleSteps m g).pendingEffects = [] ∧ (settleSteps m g).dirty = []

theorem Laden.ends [Task τ] (ht : Terse τ) (hv : Valid g) (h : g.Laden) (hf : g.frozen = none) : g.Ends := by
  unfold Laden at h
  rw [hf] at h
  simp only [Option.isSome_none, Bool.false_eq_true, if_false] at h
  have hends := ends_within ht.toBrief hv.sound (m := g.settleBudget) (by unfold settleBudget; omega)
  exact ⟨g.settleBudget, le_rfl, settleSteps_more (Nat.le_succ _) (settled_iff.mpr hends), hends⟩

end Graph

open Dekit.Graph

namespace Kernel

variable {τ : Type} [Task τ] {k k₁ k₂ k' : Kernel τ} {msg : KernelMessage τ}

section turns

theorem laden_thaw (ht : Terse τ) (h : k.graph.Laden) : k.thaw.graph.Laden := h.thaw ht

omit [Task τ] in
theorem laden_answerIf (h : k.graph.Laden) (reply : Option ReplyId) (a : Answer) :
    (k.answerIf reply a).graph.Laden := by
  cases reply
  · exact h
  · exact h.same rfl rfl rfl

theorem laden_finishFreeze (ht : Terse τ) (h : k.graph.Laden) : k.finishFreeze.1.graph.Laden := by
  have hf := h.finishFreeze
  unfold finishFreeze
  generalize k.graph.finishFreezeIfComplete = r at hf ⊢
  obtain ⟨g, saved⟩ := r
  cases saved with
  | none => exact hf
  | some snapshot => exact (hf.thaw ht).beginQuit

theorem laden_quit (ht : Terse τ) (h : k.graph.Laden) (save : Bool) (reply : Option ReplyId)
    (hsave : save = true → k.graph.pendingEffects = []) : (k.quit save reply).1.graph.Laden := by
  unfold quit
  split
  · rename_i hs
    have hp : (k.answerIf reply (.within (saveTimeout + k.graph.stopWithin))).graph.pendingEffects = [] := by
      cases reply <;> exact hsave hs.1
    exact laden_freeze ht hp .quit
  · refine laden_answerIf ?_ _ _
    apply Laden.beginQuit
    split
    · exact laden_thaw ht h
    · exact h

theorem laden_runCommand (ht : Terse τ) (hv : Valid k.graph) (htidy : k.graph.Tidy) (h : k.graph.Light)
    (hd : k.graph.frozen = none ∨ msg.command.disposition k.graph.freezingForQuit = .now) :
    (k.runCommand msg).1.graph.Laden := by
  have hperform : (k.graph.perform msg.sender msg.command).Laden := by
    cases hf : k.graph.frozen with
    | none =>
      refine laden_perform ht hv htidy ?_ hf _ _
      unfold Light at h
      rw [hf] at h
      exact List.length_eq_zero_iff.mp (Nat.le_zero.mp h)
    | some frozen =>
      refine laden_perform_frozen ht hv h.laden (by rw [hf]; rfl) msg.sender (hd.resolve_left ?_)
      rw [hf]
      exact Option.some_ne_none _
  have hnone (hc : ∀ forQuit, msg.command.disposition forQuit ≠ .now) : k.graph.pendingEffects = [] := by
    unfold Light at h
    rw [hd.resolve_right (hc _)] at h
    exact List.length_eq_zero_iff.mp (Nat.le_zero.mp h)
  obtain ⟨sender, command⟩ := msg
  unfold runCommand
  cases command with
  | quit => exact laden_quit ht h.laden true none fun _ => hnone fun forQuit => by cases forQuit <;> nofun
  | quitWithoutSave => exact laden_quit ht h.laden false none nofun
  | quitWithin save reply =>
    refine laden_quit ht h.laden save (some reply) fun hs => hnone fun forQuit => ?_
    subst hs
    cases forQuit <;> nofun
  | freezeTimeout number =>
    simp only
    split
    · exact (laden_thaw ht h.laden).beginQuit
    · exact h.laden
  | thaw => exact laden_thaw ht h.laden
  | _ => exact hperform

theorem laden_dispatch (ht : Terse τ) (hv : Valid k.graph) (htidy : k.graph.Tidy) (h : k.graph.Light)
    (msg : KernelMessage τ) : (k.dispatch msg).1.graph.Laden := by
  have hnow (hd : k.graph.frozen = none ∨ msg.command.disposition k.graph.freezingForQuit = .now) :
      (k.dispatchNow msg).1.graph.Laden := by
    have hr := laden_runCommand (k := { k with handled := k.handled ++ [msg] }) ht hv htidy h hd
    unfold dispatchNow
    generalize ({ k with handled := k.handled ++ [msg] } : Kernel τ).runCommand msg = r at hr ⊢
    obtain ⟨k', exit⟩ := r
    cases exit with
    | none => exact laden_finishFreeze ht hr
    | some exit => exact hr
  unfold dispatch
  cases hf : k.graph.frozen with
  | none => exact hnow (.inl hf)
  | some frozen =>
    simp only
    cases hd : msg.command.disposition k.graph.freezingForQuit with
    | now => exact hnow (.inr hd)
    | covered =>
      unfold cover
      cases msg.command <;> exact h.laden
    | deferred => exact h.laden.same rfl (by rw [hf]; rfl) rfl

/-- Between turns nothing is queued, unless a freeze holds it back. -/
structure Calmed (k : Kernel τ) : Prop where
  light : k.graph.Light
  settled : k.graph.frozen = none → k.graph.pendingEffects = [] ∧ k.graph.dirty = []

theorem calmed_afterDispatch (ht : Terse τ) (hv : Valid k.graph) (h : k.graph.Laden) : Calmed k.afterDispatch := by
  unfold afterDispatch
  split
  · rename_i hf
    have hlight : k.graph.Light := by
      unfold Laden at h
      unfold Light
      rw [hf] at h ⊢
      exact h
    refine ⟨hlight, fun hn => ?_⟩
    rw [hn] at hf
    cases hf
  · rename_i hf
    have hnone : k.graph.frozen = none := by simpa using hf
    obtain ⟨m, -, hs, hp, hd⟩ := h.ends ht hv hnone
    rw [← hs] at hp hd
    have hkept : k.graph.settle.frozen = none := (Advances.settle k.graph).kept.frozen.trans hnone
    refine ⟨?_, fun _ => ⟨hp, hd⟩⟩
    unfold Light
    simp only [hp, List.length_nil]
    exact Nat.zero_le _

theorem calmed_turn (ht : Terse τ) (hv : Valid k.graph) (htidy : k.graph.Tidy) (h : k.graph.Light) (now : Instant)
    (he : (k.turn now msg).exited = false) : Calmed (k.turn now msg) := by
  have hv' : Valid ({ k with graph := { k.graph with now } } : Kernel τ).graph := hv.same rfl rfl rfl rfl
  have htidy' : ({ k with graph := { k.graph with now } } : Kernel τ).graph.Tidy := htidy.stays (.of_eq rfl rfl rfl)
  have hl := laden_dispatch (k := { k with graph := { k.graph with now } }) ht hv' htidy' h msg
  have hvd := valid_dispatch hv' msg
  unfold turn at he ⊢
  generalize ({ k with graph := { k.graph with now } } : Kernel τ).dispatch msg = r at he hl hvd ⊢
  obtain ⟨k', exit⟩ := r
  cases exit with
  | true => cases he
  | false =>
    obtain ⟨hlight, hsettled⟩ := calmed_afterDispatch ht hvd hl
    exact ⟨hlight, hsettled⟩

theorem calmed_step (ht : Terse τ) (hk : Reachable k) (h : k.exited = false → Calmed k) {m : Option (KernelMessage τ)}
    (hs : Step k m k') (he : k'.exited = false) : Calmed k' := by
  have hv := valid_of_reachable hk
  have htidy := hk.tidy
  cases hs with
  | @replayed now msg rest hx =>
    exact calmed_turn (k := { k with replay := rest }) ht hv htidy (h hx).light now he
  | @received now msg hx => exact calmed_turn (k := k.arrive msg) ht hv htidy (h hx).light now he
  | @expired now entry hx =>
    exact calmed_turn (k := { k with timers := k.timers.expire entry }.arrive entry.timeout) ht hv htidy
      (h hx).light now he
  | @alarm now due number hx =>
    exact calmed_turn (k := { k with alarms := k.alarms.erase (due, number) }.arrive (alarmed number)) ht hv htidy
      (h hx).light now he
  | alloc hx => exact ⟨(h hx).light, (h hx).settled⟩

theorem Booted.queues (ht : Terse τ) (h : Booted k) : k.graph.pendingEffects = [] ∧ k.graph.frozen = none := by
  have hquiet {g g' : Graph τ} (hq : Queues 0 g g') (hp : g.pendingEffects = []) : g'.pendingEffects = [] := by
    unfold Queues at hq
    rw [hp] at hq
    exact List.length_eq_zero_iff.mp (Nat.le_zero.mp hq)
  induction h with
  | new hasher now => exact ⟨rfl, rfl⟩
  | saveOnQuit _ ih => exact ih
  | alloc _ ih => exact ih
  | @install k r hb ih =>
    have hv := valid_booted hb
    have hr := Runs.registerTaskWithId k.graph r.allocated r.def' r.factory none hv.sound hv.next
    exact ⟨hquiet (.registerTaskWithId ht.toBrief k.graph r.taskId r.def' r.factory none) ih.1,
      hr.advances.kept.frozen.trans ih.2⟩
  | @restore k now nextTaskId tasks hnext _ hb ih =>
    have hset : Valid { k.graph with nextTaskId, now } :=
      ⟨(valid_booted hb).sound.same rfl rfl rfl, Nat.pos_of_ne_zero hnext⟩
    have hr := Runs.registerTasks { k.graph with nextTaskId, now } tasks hset.sound hset.next
    unfold Kernel.restore
    simp only
    split
    · exact ih
    · exact ⟨hquiet (.ops ht hr) ih.1, hr.advances.kept.frozen.trans ih.2⟩

theorem calmed_of_reachable (ht : Terse τ) (h : Reachable k) (he : k.exited = false) : Calmed k := by
  induction h with
  | start hb =>
    obtain ⟨hp, hf⟩ := hb.queues ht
    refine calmed_afterDispatch ht (valid_booted hb) ?_
    unfold Laden
    rw [hp]
    exact Nat.zero_le _
  | step hr hs ih => exact calmed_step ht hr ih hs he

end turns

/-- Settling ends; and where tasks are terse it does within its budget, on a kernel as it is put together and after
every message. -/
theorem settles_in_budget (hb : Brief τ) :
    (∀ k : Kernel τ, Reachable k → ∃ m, (settleSteps m k.graph).pendingEffects = [] ∧ (settleSteps m k.graph).dirty = []) ∧
    (Terse τ →
      (∀ k : Kernel τ, Booted k → k.graph.Ends) ∧
      (∀ (k k₁ k₂ : Kernel τ) (now : Instant) (msg : KernelMessage τ), Reachable k → k.exited = false →
        k₁.graph = { k.graph with now } → k₁.dispatch msg = (k₂, false) → k₂.graph.frozen = none → k₂.graph.Ends) ∧
      ∀ k : Kernel τ, Reachable k → k.exited = false → k.graph.frozen = none →
        k.graph.pendingEffects = [] ∧ k.graph.dirty = []) := by
  refine ⟨fun k hk => ⟨_, ends_within hb (valid_of_reachable hk).sound le_rfl⟩, fun ht => ⟨fun k hb => ?_, ?_, ?_⟩⟩
  · obtain ⟨hp, hf⟩ := hb.queues ht
    refine Laden.ends ht (valid_booted hb) ?_ hf
    unfold Laden
    rw [hp]
    exact Nat.zero_le _
  · intro k k₁ k₂ now msg hk he hg hd hf
    have hv : Valid k₁.graph := by
      rw [hg]
      exact (valid_of_reachable hk).same rfl rfl rfl rfl
    have htidy : k₁.graph.Tidy := by
      rw [hg]
      exact hk.tidy.stays (.of_eq rfl rfl rfl)
    have hlight : k₁.graph.Light := by
      rw [hg]
      exact (calmed_of_reachable ht hk he).light
    have hl := laden_dispatch ht hv htidy hlight msg
    have hvd := valid_dispatch hv msg
    rw [hd] at hl hvd
    exact hl.ends ht hvd hf
  · intro k hk he hf
    exact (calmed_of_reachable ht hk he).settled hf

/-- A task that is up, and down again, as it is told. -/
structure PromptTask where

instance : Task PromptTask where
  handleCmd t
    | .start _ => (t, [.started, .ready])
    | .stop | .kill => (t, [.stopped .error])
    | .msg _ | .freeze _ | .thaw => (t, [])

theorem terse_prompt : Terse PromptTask := by
  have hmost (t : PromptTask) (cmd : TaskCmd) : (Task.handleCmd t cmd).2.length ≤ 2 := by
    cases cmd with
    | start run => exact le_rfl
    | stop | kill => exact Nat.le_succ 1
    | msg payload | freeze number | thaw => exact Nat.zero_le 2
  exact ⟨⟨fun t cmd _ => hmost t cmd, fun t source notify => rfl⟩, hmost⟩

def wantedTask {τ : Type} (t : τ) : TaskRegistration τ where
  taskId := 1
  allocated := Nat.one_ne_zero
  def' := { pinned := true }
  factory _ := t

/-- One that is to run is up once the kernel has settled. -/
theorem settles_in_budget_prompt :
    ((Kernel.new .sorted 0).registerTaskRegistration (wantedTask PromptTask.mk)).1.graph.Ends :=
  ((settles_in_budget terse_prompt.toBrief).2 terse_prompt).1 _ (.install _ (.new .sorted 0))

/-- A task that answers nothing but a message, a freeze and a thaw, and these as often as it likes. -/
structure ChattyTask where
  message : ℕ
  freeze : ℕ
  thaw : ℕ

def ChattyTask.answers (t : ChattyTask) : TaskCmd → ℕ
  | .start _ | .stop | .kill | .msg (.notification _ _) => 0
  | .msg (.other _) => t.message
  | .freeze _ => t.freeze
  | .thaw => t.thaw

instance : Task ChattyTask where
  handleCmd t cmd := (t, List.replicate (t.answers cmd) .started)

def chatty (t : ChattyTask) : Kernel ChattyTask :=
  ((Kernel.new .sorted 0).registerTaskRegistration (wantedTask t)).1.afterDispatch

def chat (k : Kernel ChattyTask) (msg : KernelMessage ChattyTask) : Kernel ChattyTask :=
  (k.arrive msg).turn k.graph.now msg

def Behind (k : Kernel ChattyTask) : Prop :=
  Reachable k ∧ k.exited = false ∧ k.graph.frozen = none ∧ k.graph.pendingEffects ≠ []

theorem reachable_chatty (t : ChattyTask) : Reachable (chatty t) := .start (.install _ (.new .sorted 0))

theorem Reachable.chat {k : Kernel ChattyTask} (h : Reachable k) (he : k.exited = false) (hr : k.replay = [])
    (msg : KernelMessage ChattyTask) : Reachable (k.chat msg) := .step h (.received msg he le_rfl hr)

/-- Answers to a message, to a freeze or to a thaw take more steps than there are. -/
theorem budget_exceeded :
    (∀ (t : ChattyTask) cmd, (∃ run, cmd = .start run) ∨ cmd = .stop ∨ cmd = .kill → (Task.handleCmd t cmd).2.length ≤ 2) ∧
    (∀ (t : ChattyTask) source notify, (Task.handleCmd t (.msg (.notification source notify))).2 = []) ∧
    Behind ((chatty ⟨82, 0, 0⟩).chat ⟨0, .taskMsg 1 0⟩) ∧
    Behind (((chatty ⟨0, 82, 0⟩).chat ⟨0, .freeze 7⟩).chat ⟨0, .thaw⟩) ∧
    Behind (((chatty ⟨0, 0, 82⟩).chat ⟨0, .freeze 7⟩).chat ⟨0, .thaw⟩) := by
  refine ⟨?_, fun t source notify => rfl, ?_, ?_, ?_⟩
  · rintro t cmd (⟨run, rfl⟩ | rfl | rfl) <;> exact Nat.zero_le 2
  · exact ⟨(reachable_chatty _).chat (by decide) (by decide) _, by decide, by decide, by decide⟩
  · have h := (reachable_chatty ⟨0, 82, 0⟩).chat (by decide) (by decide) ⟨0, .freeze 7⟩
    exact ⟨h.chat (by decide) (by decide) _, by decide, by decide, by decide⟩
  · have h := (reachable_chatty ⟨0, 0, 82⟩).chat (by decide) (by decide) ⟨0, .freeze 7⟩
    exact ⟨h.chat (by decide) (by decide) _, by decide, by decide, by decide⟩

end Kernel

end Dekit
