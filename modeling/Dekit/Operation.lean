import Dekit.Command
import Dekit.Ticks

namespace Dekit.Graph

variable {τ : Type} [Task τ] {g g' g'' : Graph τ} {id src dst : TaskId} {k n : ℕ}

/-- What the commands do to the graph, but for taking a task away, one operation at a time; `k` of
them are commands sent to tasks. -/
inductive Op : ℕ → Graph τ → Graph τ → Prop
  | still {g g' : Graph τ} : Still g g' → Op 0 g g'
  | told (g : Graph τ) (source : TaskId) (notify : TaskNotify) (targets : Finset TaskId) :
      Op 0 g (g.deliver source notify targets)
  | messaged (g : Graph τ) (id content : ℕ) : Op 1 g (g.sendCmd id (.msg (.other content)))
  | allocated (g : Graph τ) : Op 0 g g.allocId.2
  | enqueued (g : Graph τ) (id : TaskId) : Op 0 g (g.enqueue id)
  | linked {g : Graph τ} {src dst : TaskId} : ¬ Relation.ReflTransGen g.view.Dep dst src →
      Op 0 g (g.addEdge src dst)
  | unlinked (g : Graph τ) (src dst : TaskId) : Op 0 g (g.removeEdge src dst)
  | vetoed (g : Graph τ) (id : TaskId) (value : Bool) : Op 0 g (g.setVetoed id value)
  | excused (g : Graph τ) (id : TaskId) :
      Op 0 g { g.modifyTask id (fun t => { t with startFailed := false }) with stateChanged := true }
  | idled (g : Graph τ) (id : TaskId) : Op 0 g (g.setState id .idle)
  | stopped {g : Graph τ} {id : TaskId} {t : TaskHandle τ} : g.tasks.lookup id = some t →
      t.state.isRunning = true → Op 1 g (g.stopTask id false)
  | killed {g : Graph τ} {id : TaskId} {t : TaskHandle τ} : g.tasks.lookup id = some t →
      t.state.isActive = true → Op 1 g ((g.setState id .stopping).hardKill id)
  | redefined (g : Graph τ) (id : TaskId) (update : TaskUpdate) : Op 0 g (g.redefine id update)
  | registered {g : Graph τ} {id : TaskId} (def' : TaskDef τ) (factory : TaskId → τ)
      (saved : Option Snap.Task) : id ≠ initTaskId →
      Op 0 g (g.registerTaskWithId id def' factory saved).1
  | reported (g : Graph τ) (id : TaskId) (effect : TaskEffect) : Op 0 g (g.onEffect id effect)
  | timedOut (g : Graph τ) (id : TaskId) (epoch : ℕ) : Op 1 g (g.onStateTimeout id epoch)

/-- Operations one after the other, which send at most `k` commands. -/
inductive Ops : ℕ → Graph τ → Graph τ → Prop
  | refl (k : ℕ) (g : Graph τ) : Ops k g g
  | tail {k n : ℕ} {g g' g'' : Graph τ} : Ops k g g' → Op n g' g'' → Ops (k + n) g g''

namespace Ops

theorem mono (h : Ops k g g') (hkn : k ≤ n) : Ops n g g' := by
  induction h generalizing n with
  | refl k g => exact .refl n g
  | @tail k m g g' g'' _ hop ih =>
    have he : n = (n - m) + m := by omega
    rw [he]
    exact .tail (ih (by omega)) hop

theorem trans (h : Ops k g g') (h' : Ops n g' g'') : Ops (k + n) g g'' := by
  induction h' with
  | refl n g' => exact h.mono (by omega)
  | tail _ hop ih =>
    rw [← Nat.add_assoc]
    exact .tail (ih h) hop

theorem single (h : Op k g g') : Ops k g g' := by
  have := Ops.tail (.refl 0 g) h
  rwa [Nat.zero_add] at this

theorem invariant {P : Graph τ → Prop} (hop : ∀ {k : ℕ} {g g' : Graph τ}, Op k g g' → P g → P g')
    (h : Ops k g g') (hg : P g) : P g' := by
  induction h with
  | refl => exact hg
  | tail _ hstep ih => exact hop hstep (ih hg)

end Ops

theorem Sound.op (h : Sound ∅ g) (hop : Op k g g') : Sound ∅ g' := by
  cases hop with
  | still hs => exact h.quiet hs.toQuiet
  | told => exact h.quiet (Quiet.deliver _ _ _ _)
  | messaged => exact h.sendCmd _ (by intro hc; cases hc)
  | allocated => exact h.same rfl rfl rfl
  | enqueued => exact h.enqueue _
  | linked hr => exact h.addEdge hr
  | unlinked => exact h.removeEdge _ _
  | vetoed => exact h.setVetoed _ _
  | excused => exact h.modified rfl (fun _ => rfl) rfl
  | idled => exact h.setState _ _
  | stopped => exact h.stopTask _ _
  | killed => exact (h.setState _ _).hardKill _
  | redefined => exact h.redefine _ _
  | registered def' factory saved hne => exact h.registerTaskWithId hne def' factory saved
  | reported => exact h.onEffect _ _
  | timedOut => exact h.onStateTimeout _ _

theorem Sound.ops (h : Sound ∅ g) (hops : Ops k g g') : Sound ∅ g' :=
  hops.invariant (P := Sound ∅) (fun hop hg => hg.op hop) h

def Runs (k : ℕ) (g g' : Graph τ) : Prop := Sound ∅ g → initTaskId < g.nextTaskId → Ops k g g'

theorem Op.advances (hop : Op k g g') : Advances g g' := by
  cases hop with
  | still hs => exact .of_calm (.quiet hs.toQuiet)
  | told => exact .of_calm (.quiet (.deliver _ _ _ _))
  | messaged => exact .of_calm (.quiet (.sendCmd _ _ rfl))
  | allocated => exact ⟨⟨rfl, rfl, rfl, rfl, Nat.le_succ _⟩, .of_eq rfl rfl⟩
  | enqueued => exact .of_calm (.counting (.enqueue _ _))
  | linked => exact .of_calm (.noting (Counting.addEdge _ _ _))
  | unlinked => exact .of_calm (.noting (Counting.removeEdge _ _ _))
  | vetoed => exact .of_calm (.noting (Counting.setVetoed _ _ _))
  | @excused g id =>
    have ht : Turned id (Clock.fail false) false g
        { g.modifyTask id (fun t => { t with startFailed := false }) with stateChanged := true } :=
      .modified rfl (fun _ => rfl) rfl rfl
    exact .of_turned ht fun c _ => ⟨⟨le_rfl, fun _ => ⟨rfl, .inl rfl⟩⟩, fun _ => .inl ⟨rfl, rfl⟩, fun h => h⟩
  | idled => exact .setState_idle _ _
  | @stopped g id t ht hr =>
    refine .stopTask _ _ _ fun c hc he => ?_
    obtain ⟨t', ht', rfl⟩ := Turned.clock_some hc
    obtain rfl : t = t' := Option.some.inj (ht.symm.trans ht')
    rw [show t.state = .stopping from he] at hr
    cases hr
  | @killed g id t ht _ => exact .killTask (c := t.clock) (by simp [clock, ht])
  | redefined => exact .redefine _ _ _
  | registered def' factory saved => exact .registerTaskWithId _ _ def' factory saved
  | reported => exact .onEffect _ _ _
  | timedOut => exact .onStateTimeout _ _ _

theorem Ops.advances (hops : Ops k g g') : Advances g g' := by
  induction hops with
  | refl => exact .refl _
  | tail _ hop ih => exact ih.trans hop.advances

theorem Ops.next (hops : Ops k g g') (h : initTaskId < g.nextTaskId) : initTaskId < g'.nextTaskId :=
  h.trans_le hops.advances.kept.next

namespace Runs

theorem refl (g : Graph τ) : Runs 0 g g := fun _ _ => .refl 0 g

theorem of_op (h : Op k g g') : Runs k g g' := fun _ _ => .single h

theorem of_still (h : Still g g') : Runs 0 g g' := of_op (.still h)

theorem mono (h : Runs k g g') (hkn : k ≤ n) : Runs n g g' := fun hs hn => (h hs hn).mono hkn

theorem trans (h : Runs k g g') (h' : Runs n g' g'') : Runs (k + n) g g'' := by
  intro hs hn
  have hops := h hs hn
  exact hops.trans (h' (hs.ops hops) (hops.next hn))

theorem andThen (h : Runs k g g') (h' : Runs 0 g' g'') : Runs k g g'' := h.trans h'

theorem after (h : Runs 0 g g') (h' : Runs k g' g'') : Runs k g g'' := (h.trans h').mono (by omega)

theorem ite {c : Prop} [Decidable c] (h : c → Runs k g g') (h' : ¬ c → Runs k g g'') :
    Runs k g (if c then g' else g'') := by
  split
  · exact h ‹_›
  · exact h' ‹_›

theorem foldl {β : Type} {body : Graph τ → β → Graph τ} (h : ∀ g x, Runs k g (body g x)) (l : List β)
    (g : Graph τ) : Runs (k * l.length) g (l.foldl body g) := by
  induction l generalizing g with
  | nil => exact refl g
  | cons x l ih =>
    refine ((h g x).trans (ih _)).mono ?_
    rw [List.length_cons, Nat.mul_succ, Nat.add_comm]

theorem foldl_still {β : Type} {body : Graph τ → β → Graph τ} (h : ∀ g x, Runs 0 g (body g x))
    (l : List β) (g : Graph τ) : Runs 0 g (l.foldl body g) :=
  (foldl h l g).mono (by simp)

theorem pinned (g : Graph τ) (id : TaskId) : Runs 0 g (g.addEdge initTaskId id) := by
  intro hs _
  by_cases hid : id = initTaskId
  · unfold addEdge
    rw [if_pos (.inr hid)]
    exact .refl 0 g
  · exact .single (.linked (hs.shape.not_reach_init hid))

end Runs

end Dekit.Graph
