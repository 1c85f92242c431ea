import Dekit.Oracle

namespace Dekit

open Relation

namespace View

variable {v : View} {id : TaskId} {n : Node}

def wantedRequirers (v : View) (id : TaskId) : ℕ :=
  ((v.requirers id).filter fun p => (v.node p).any (·.wanted) = true).card

def activeRequirers (v : View) (id : TaskId) : ℕ :=
  ((v.requirers id).filter fun p => (v.node p).any (·.state.isActive) = true).card

theorem Shape.node_init (hs : Shape v) : v.node initTaskId = none := by
  have := (hs.registered initTaskId).not.mp hs.init
  simpa using this

theorem Counts.wanted_eq (h : Counts v) (hs : Shape v) (hn : v.node id = some n) :
    n.wantedParents = v.wantedRequirers id + (if initTaskId ∈ v.requirers id then 1 else 0 : ℕ) := by
  rw [h.wantedParents id n hn, tally, wantedRequirers, ← Nat.cast_add]
  have hsplit : (v.requirers id).filter (fun p => v.isWanted p = true) =
      (v.requirers id).filter (fun p => (v.node p).any (·.wanted) = true) ∪
        (v.requirers id).filter (· = initTaskId) := by
    ext p
    simp only [isWanted, Finset.mem_filter, Finset.mem_union, Bool.or_eq_true, decide_eq_true_eq]
    tauto
  have hdis : Disjoint ((v.requirers id).filter (fun p => (v.node p).any (·.wanted) = true))
      ((v.requirers id).filter (· = initTaskId)) := by
    refine Finset.disjoint_filter.mpr fun p _ hp he => ?_
    rw [he, hs.node_init] at hp
    cases hp
  rw [hsplit, Finset.card_union_of_disjoint hdis, Finset.filter_eq']
  split <;> simp

theorem Counts.active_eq (h : Counts v) (hs : Shape v) (hn : v.node id = some n) :
    n.activeDependents = v.activeRequirers id := by
  rw [h.activeDependents id n hn, tally, activeRequirers]
  congr 2
  refine Finset.filter_congr fun p hp => ?_
  simp only [isActive, Bool.and_eq_true, decide_eq_true_eq, and_iff_right_iff_imp]
  rintro hact rfl
  rw [hs.node_init] at hact
  cases hact

end View

open Dekit.Graph

namespace Kernel

variable {τ : Type} [Task τ] {k : Kernel τ}

/-- The graph as it is, and as it was whenever something was done to it. -/
def Seen (k : Kernel τ) (v : View) : Prop := v = k.graph.view ∨ v ∈ k.graph.log.map Prod.snd

theorem shape_counts_of_seen (h : Reachable k) {v : View} (hv : Seen k v) : v.Shape ∧ v.Counts := by
  have hk := (valid_of_reachable h).sound
  rcases hv with rfl | hv
  · exact ⟨hk.shape, hk.counts⟩
  · obtain ⟨e, he, rfl⟩ := List.mem_map.mp hv
    exact ⟨(hk.log e he).shape, (hk.log e he).counts⟩

/-- The counters are exact at every point, and with nothing queued the caches are what a computation
from scratch comes to. -/
theorem caches_exact (h : Reachable k) :
    (∀ v, Seen k v → ∀ id n, v.node id = some n →
      n.wantedParents = v.wantedRequirers id + (if initTaskId ∈ v.requirers id then 1 else 0 : ℕ) ∧
      n.activeDependents = v.activeRequirers id ∧ 0 ≤ n.wantedParents ∧ 0 ≤ n.activeDependents) ∧
    (k.graph.dirty = [] → k.graph.pendingEffects = [] → ∀ id t, k.graph.tasks.lookup id = some t →
      (t.wanted = true ↔ k.graph.view.Wants id) ∧
      (t.wanted = true ↔ id ∈ k.graph.oracleWantedSet) ∧
      (t.supported = true ↔ k.graph.view.Supported id) ∧
      (t.supported = true ↔ id ∈ k.graph.oracleSupportedSet k.graph.oracleWantedSet)) := by
  constructor
  · intro v hv id n hn
    obtain ⟨hs, hc⟩ := shape_counts_of_seen h hv
    rw [hc.wanted_eq hs hn, hc.active_eq hs hn]
    exact ⟨rfl, rfl, by positivity, by positivity⟩
  · intro hdirty _ id t ht
    have hk := (valid_of_reachable h).sound
    have hempty : k.graph.view.dirty = ∅ := by
      have := hk.queued.1
      rw [hdirty] at this
      exact this
    have hn : k.graph.view.node id = some t.node := by rw [view_node, ht]; rfl
    have hfixed := View.Fixed.of_fresh hk.fresh hempty
    have hw : t.wanted = true ↔ k.graph.view.Wants id := View.wanted_iff hk.shape hk.counts hfixed.wanted hn
    have hs : t.supported = true ↔ k.graph.view.Supported id :=
      View.supported_iff hk.shape hk.counts hk.fresh hempty hn
    refine ⟨hw, hw.trans (mem_oracleWantedSet hk.shape).symm, hs, hs.trans ?_⟩
    rw [mem_oracleSupportedSet hk.shape fun x => mem_oracleWantedSet hk.shape]
    exact (and_iff_right (hk.shape.mem hn)).symm

def lone : TaskRegistration ChannelTask where
  taskId := 1
  allocated := one_ne_init
  def' := { pinned := true }
  factory _ := ⟨[], false⟩

def loneKernel : Kernel ChannelTask :=
  ((Kernel.new .sorted 0).registerTaskRegistration lone).1.afterDispatch

theorem reachable_lone : Reachable loneKernel := .start (.install lone (.new .sorted 0))

def loneStarted : Kernel ChannelTask :=
  (loneKernel.arrive ⟨1, .taskStarted⟩).turn 1 ⟨1, .taskStarted⟩

theorem reachable_started : Reachable loneStarted :=
  .step reachable_lone (.received _ (by decide) (by decide) (by decide))

/-- A service that is retried whenever it exits, and one that requires it and is not. -/
def retried : TaskRegistration ChannelTask where
  taskId := 1
  allocated := Nat.one_ne_zero
  def' := { restart := .always }
  factory _ := ⟨[], false⟩

def dependent : TaskRegistration ChannelTask where
  taskId := 2
  allocated := two_ne_init
  def' := { pinned := true, deps := [.id 1] }
  factory _ := ⟨[], false⟩

def paired : Kernel ChannelTask :=
  (((Kernel.new .sorted 0).registerTaskRegistration retried).1.registerTaskRegistration dependent).1

def hear (k : Kernel ChannelTask) (msg : KernelMessage ChannelTask) : Kernel ChannelTask :=
  (k.arrive msg).turn k.graph.now msg

theorem step_hear {k : Kernel ChannelTask} (he : k.exited = false) (hr : k.replay = [])
    (msg : KernelMessage ChannelTask) :
    Step k (some msg) (k.hear msg) := .received msg he le_rfl hr

theorem Reachable.hear {k : Kernel ChannelTask} (h : Reachable k) (he : k.exited = false) (hr : k.replay = [])
    (msg : KernelMessage ChannelTask) : Reachable (k.hear msg) := .step h (step_hear he hr msg)

def bothUp : Kernel ChannelTask := (paired.afterDispatch.hear ⟨1, .taskStarted⟩).hear ⟨2, .taskStarted⟩

theorem reachable_bothUp : Reachable bothUp := by
  have h₀ : Reachable paired.afterDispatch := .start (.install dependent (.install retried (.new .sorted 0)))
  have h₁ := h₀.hear (by decide) (by decide) ⟨1, .taskStarted⟩
  exact h₁.hear (by decide) (by decide) ⟨2, .taskStarted⟩

def bothStopping : Kernel ChannelTask := (bothUp.hear ⟨0, .quit⟩).hear ⟨2, .taskStopped .error⟩

theorem reachable_bothStopping : Reachable bothStopping :=
  (reachable_bothUp.hear (by decide) (by decide) ⟨0, .quit⟩).hear (by decide) (by decide) ⟨2, .taskStopped .error⟩

theorem caches_exact_lone : ∃ t, loneStarted.graph.tasks.lookup 1 = some t ∧ t.supported = true ∧
    1 ∈ loneStarted.graph.oracleSupportedSet loneStarted.graph.oracleWantedSet := by
  have ht : (loneStarted.graph.tasks.lookup 1).isSome = true := by decide
  have hs : (loneStarted.graph.tasks.lookup 1).any (·.supported) = true := by decide
  obtain ⟨t, ht⟩ := Option.isSome_iff_exists.mp ht
  rw [ht] at hs
  exact ⟨t, ht, hs, (((caches_exact reachable_started).2 (by decide) (by decide) 1 t ht).2.2.2).mp hs⟩

/-- A task is started only while the kernel is not quitting, pulled up by a pin, and with all it
requires, near or far, wanted and satisfied. -/
theorem start_supported (h : Reachable k) {id : TaskId} {v : View}
    (hsent : (.sent id .start, v) ∈ k.graph.log) :
    v.quitting = false ∧ TransGen v.Pull initTaskId id ∧
      ∀ d, TransGen v.Dep id d →
        v.Wants d ∧ v.isWanted d = true ∧ v.vetoed d = false ∧ v.satisfied d = true := by
  have hs := ((valid_of_reachable h).sound.log _ hsent).start id rfl
  exact ⟨hs.running, hs.wanted, hs.closure⟩

theorem start_supported_paired : ∃ v, (.sent 2 .start, v) ∈ bothUp.graph.log ∧ v.Dep 2 1 ∧ v.satisfied 1 = true := by
  have hm : ((Happening.sent 2 .start), true) ∈ bothUp.graph.log.map fun e =>
    (e.1, decide (1 ∈ e.2.deps 2)) := by decide
  obtain ⟨⟨e, v⟩, hv, he⟩ := List.mem_map.mp hm
  obtain ⟨rfl, hdep⟩ := Prod.mk.inj he
  have hdep : 1 ∈ v.deps 2 := of_decide_eq_true hdep
  exact ⟨v, hv, hdep, ((start_supported reachable_bothUp hv).2.2 1 (.single hdep)).2.2.2⟩

/-- The reconciler stops a task after all that requires it, and leaves none that it should have
stopped or started. -/
theorem ordered_shutdown (h : Reachable k) :
    (∀ id v, (.drivenStop id, v) ∈ k.graph.log →
      (∀ a, TransGen (fun a b => v.Dep a b ∧ (b = id ∨ v.isActive b = true)) a id →
        v.isActive a = false) ∧ ∀ a ∈ v.requirers id, v.isActive a = false) ∧
    (k.graph.dirty = [] → k.graph.pendingEffects = [] → ∀ id t, k.graph.tasks.lookup id = some t →
      (t.supported = false → t.state.isRunning = true →
        ∃ a ∈ k.graph.redges id, k.graph.view.isActive a = true) ∧
      (t.supported = true → t.state ≠ .idle)) := by
  have hk := (valid_of_reachable h).sound
  constructor
  · intro id v hv
    have hgood := hk.log _ hv
    have hstop := hgood.stop id rfl
    exact ⟨hstop, fun a ha => hstop a (.single ⟨(hgood.shape.inverse a id).mpr ha, .inl rfl⟩)⟩
  · intro hdirty _ id t ht
    have hn : k.graph.view.node id = some t.node := by rw [view_node, ht]; rfl
    have hempty : id ∉ k.graph.view.dirty := by
      change id ∉ k.graph.inQueue
      rw [hk.queued.1, hdirty]
      exact Finset.notMem_empty id
    have hd := hk.driven id t.node hn hempty (Finset.notMem_empty id)
    refine ⟨fun hsup hrun => ?_, hd.started⟩
    have hpos := hd.stopped hsup hrun
    rw [hk.counts.activeDependents id t.node hn, tally_pos_iff] at hpos
    exact hpos

theorem ordered_shutdown_paired : ∃ v, (.drivenStop 1, v) ∈ bothStopping.graph.log ∧ 2 ∈ v.requirers 1 ∧
    v.isActive 2 = false := by
  have hm : ((Happening.drivenStop 1), true) ∈ bothStopping.graph.log.map fun e =>
    (e.1, decide (2 ∈ e.2.requirers 1)) := by
    decide
  obtain ⟨⟨e, v⟩, hv, he⟩ := List.mem_map.mp hm
  obtain ⟨rfl, hreq⟩ := Prod.mk.inj he
  have hreq : 2 ∈ v.requirers 1 := of_decide_eq_true hreq
  exact ⟨v, hv, hreq, ((ordered_shutdown reachable_bothStopping).1 1 v hv).2 2 hreq⟩

/-- The two edge maps are inverses over the registered tasks, and no walk of them comes back. -/
theorem edges_acyclic (h : Reachable k) {v : View} (hv : Seen k v) :
    (∀ a b, b ∈ v.deps a ↔ a ∈ v.requirers b) ∧
    (∀ a b, b ∈ v.deps a → (a = initTaskId ∨ (v.node a).isSome = true) ∧ (v.node b).isSome = true) ∧
    (∀ a, initTaskId ∉ v.deps a ∧ a ∉ v.deps a) ∧
    ∀ a, ¬ TransGen v.Dep a a := by
  have hs := (shape_counts_of_seen h hv).1
  refine ⟨hs.inverse, fun a b hab => ?_, fun a => ?_, hs.acyclic⟩
  · exact ⟨(hs.source a b hab).imp_right (hs.registered a).mp, (hs.registered b).mp (hs.target a b hab)⟩
  · exact ⟨fun ha => hs.target_ne_init ha rfl, hs.not_self⟩

theorem edges_acyclic_paired : 2 ∈ bothUp.graph.view.requirers 1 ∧ ¬ TransGen bothUp.graph.view.Dep 1 2 := by
  obtain ⟨hinverse, -, -, hacyclic⟩ := edges_acyclic reachable_bothUp (.inl rfl)
  have hdep : bothUp.graph.view.Dep 2 1 := show 1 ∈ bothUp.graph.edges 2 by decide
  exact ⟨(hinverse 2 1).mp hdep, fun h => hacyclic 2 (.head hdep h)⟩

end Kernel

end Dekit
