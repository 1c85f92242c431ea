import Dekit.Quits

namespace Dekit

namespace Gate

variable {τ : Type} {save dead : Bool} {g g' : Gate τ} {msg : KernelMessage τ}

/-- A turn of the loop, as the gate sees it. -/
inductive Steps (save dead : Bool) (g : Gate τ) : Option (KernelMessage τ) → Gate τ → Prop
  | alloc : Steps save dead g none g
  | replayed {now : Instant} {msg : KernelMessage τ} {rest : List (KernelMessage τ)} {g' : Gate τ} :
      g.replay = msg :: rest → Dispatches save dead { g with now, replay := rest } msg g' →
      Steps save dead g (some msg) g'
  | came {now : Instant} {alarms : List (Instant × ℕ)} {msg : KernelMessage τ} {g' : Gate τ} :
      g.replay = [] → Dispatches save dead { g with now, alarms, arrived := g.arrived ++ [msg] } msg g' →
      Steps save dead g (some msg) g'

theorem Steps.alloc_eq (h : Steps save dead g none g') : g' = g := by
  cases h
  rfl

theorem Steps.dispatches (h : Steps save dead g (some msg) g') : ∃ g₀ : Gate τ, g₀.phase = g.phase ∧
    g₀.hold = g.hold ∧ g₀.quitting = g.quitting ∧ g₀.freezes = g.freezes ∧ Dispatches save dead g₀ msg g' := by
  cases h with
  | replayed _ hd =>
    refine ⟨_, ?_, ?_, ?_, ?_, hd⟩ <;> rfl
  | came _ hd =>
    refine ⟨_, ?_, ?_, ?_, ?_, hd⟩ <;> rfl

theorem Dispatches.alarm (h : Dispatches save dead g msg g') (hc : msg.command.quits = some true)
    (hsave : save = true) (hg : g.phase = (false, none)) :
    (g'.now + saveTimeout, g.freezes + 1) ∈ g'.alarms := by
  obtain ⟨hquit, hhold⟩ := Prod.mk.inj hg
  have hhold : g.hold = none := Option.map_eq_none_iff.mp hhold
  cases h with
  | deferred hh _ | covered hh _ =>
    rw [hhold] at hh
    cases hh
  | handled _ hp hf =>
    cases hp with
    | plain he =>
      rw [KernelCommand.reachesKernel_of_quits hc] at he
      cases he
    | freezes _ he | thaws he | late he _ | timesOut he _ =>
      rw [he] at hc
      cases hc
    | @drops first he hn _ | @quits first he hn _ =>
      obtain rfl : true = first := Option.some.inj (hc.symm.trans he)
      have hquit : (g.take msg).quitting = false := hquit
      simp [hsave, hquit] at hn
    | saves _ _ _ =>
      have hm : (g.now + saveTimeout, g.freezes + 1) ∈ ((g.take msg).beginSave dead).alarms :=
        List.mem_append_right _ (List.mem_singleton_self _)
      cases hf with
      | waits | answers | saves => exact hm

theorem Dispatches.held (h : Dispatches save dead g msg g') {first : Bool} (hc : msg.command.quits = some first)
    (hg : g.hold = none) : g'.Held := by
  cases h with
  | deferred hh _ | covered hh _ =>
    rw [hg] at hh
    cases hh
  | @handled g₁ _ _ hp hf =>
    have hrun : g₁.Held := by
      cases hp with
      | plain he =>
        rw [KernelCommand.reachesKernel_of_quits hc] at he
        cases he
      | thaws he | late he _ =>
        rw [he] at hc
        cases hc
      | freezes | saves => exact .inr rfl
      | timesOut | drops | quits => exact .inl rfl
    cases hf with
    | waits => exact hrun
    | answers => exact .inr rfl
    | saves => exact .inl rfl

end Gate

open Dekit.Gate Dekit.Graph

namespace Kernel

variable {τ : Type} [Task τ] {k k₀ k₁ k₂ k₃ k' : Kernel τ} {msg : KernelMessage τ}

theorem steps_gate (hv : Valid k.graph) {m : Option (KernelMessage τ)} (h : Step k m k') :
    Steps k.save k.graph.dead k.gate m k'.gate := by
  cases h with
  | @replayed now msg rest _ _ hr =>
    exact .replayed hr (dispatches_turn (k := { k with replay := rest }) hv now msg)
  | @received now msg _ _ hr => exact .came hr (dispatches_turn (k := k.arrive msg) hv now msg)
  | @expired now entry _ _ hr _ _ =>
    exact .came hr (dispatches_turn
      (k := { k with timers := k.timers.expire entry }.arrive entry.timeout) hv now entry.timeout)
  | @alarm now due number _ _ hr _ _ =>
    exact .came hr (dispatches_turn
      (k := { k with alarms := k.alarms.erase (due, number) }.arrive (alarmed number)) hv now (alarmed number))
  | alloc => exact .alloc

theorem Run.reachable {ok : Kernel τ → Option (KernelMessage τ) → Prop} (h : Run ok k₀ k) (hk : Reachable k₀) :
    Reachable k := by
  induction h with
  | refl => exact hk
  | tail _ _ hs ih => exact .step ih hs

theorem Run.invariant {ok : Kernel τ → Option (KernelMessage τ) → Prop} {P : Kernel τ → Prop}
    (h : Run ok k₀ k) (hk : Reachable k₀) (h₀ : P k₀)
    (hstep : ∀ k m k', Reachable k → ok k m → Step k m k' → P k → P k') : P k := by
  induction h with
  | refl => exact h₀
  | tail hr hok hs ih => exact hstep _ _ _ (hr.reachable hk) hok hs ih

section saving

def Beside (_ : Kernel τ) (m : Option (KernelMessage τ)) : Prop :=
  ∀ msg, m = some msg → msg.command.reachesKernel = false

omit [Task τ] in
theorem phase_eq : k.gate.phase = (k.graph.quitting, k.graph.frozen.map (fun f => (f.number, f.reply))) := by
  unfold phase gate
  cases k.graph.frozen <;> rfl

omit [Task τ] in
theorem phase_out_iff : k.gate.phase = (true, none) ↔ k.graph.quitting = true ∧ k.graph.frozen = none := by
  rw [phase_eq, Prod.mk.injEq, Option.map_eq_none_iff]

theorem Run.phase {P : Bool × Option (ℕ × Option FreezeReply) → Prop} (h : Run Beside k₀ k)
    (hk : Reachable k₀) (h₀ : P k₀.gate.phase)
    (hstep : ∀ (save dead : Bool) (g g' : Gate τ) (msg : KernelMessage τ),
      Dispatches save dead g msg g' → msg.command.reachesKernel = false → P g.phase → P g'.phase) :
    P k.gate.phase := by
  apply h.invariant hk h₀
  intro k m k' hr hok hs hp
  have hg := steps_gate (valid_of_reachable hr) hs
  cases m with
  | none =>
    rw [hg.alloc_eq]
    exact hp
  | some msg =>
    obtain ⟨g, he, -, -, -, hd⟩ := hg.dispatches
    exact hstep _ _ _ _ _ hd (hok msg rfl) (he ▸ hp)

/-- A quit that saves first is on its way out once its freeze times out, whatever reports and answers
come in between, if and only if every task was there to answer the freeze. -/
theorem saving_quit_begins (h : Reachable k) (hsave : k.save = true) (hquit : k.graph.quitting = false)
    (hfrozen : k.graph.frozen = none) (hmsg : msg.command.quits = some true)
    (hq : Step k (some msg) k₁) (hb : Run Beside k₁ k₂)
    (ht : Step k₂ (some (alarmed (k.graph.freezes + 1))) k₃) :
    (k₁.graph.now + saveTimeout, k.graph.freezes + 1) ∈ k₁.alarms ∧
    ((k₃.graph.quitting = true ∧ k₃.graph.frozen = none) ↔ ∀ id t, k.graph.tasks.lookup id = some t →
      (Task.handleCmd t.task (.freeze (k.graph.freezes + 1))).2.any TaskEffect.isStopped = false) := by
  have hopen : k.gate.phase = (false, none) := by rw [phase_eq, hquit, hfrozen]; rfl
  have hr₁ : Reachable k₁ := .step h hq
  have hr₂ := hb.reachable hr₁
  obtain ⟨g, hg, -, -, hfreezes, hd⟩ := (steps_gate (valid_of_reachable h) hq).dispatches
  have hsaves := hd.saves hmsg hsave (hg.trans hopen)
  obtain ⟨g₂, hg₂, -, -, -, hd₂⟩ := (steps_gate (valid_of_reachable hr₂) ht).dispatches
  have htime := hd₂.timeout rfl
  have hdead : (∀ id t, k.graph.tasks.lookup id = some t →
      (Task.handleCmd t.task (.freeze (k.graph.freezes + 1))).2.any TaskEffect.isStopped = false) ↔
      k.graph.dead = false := by
    rw [← Bool.not_eq_true, dead_iff]
    simp only [not_exists, not_and, Bool.not_eq_true]
  have hnumber : g.freezes = k.graph.freezes := hfreezes
  constructor
  · have ha := hd.alarm hmsg hsave (hg.trans hopen)
    rw [hnumber] at ha
    exact ha
  rw [hdead, ← phase_out_iff]
  rw [hnumber] at hsaves
  cases hk : k.graph.dead with
  | false =>
    rw [hk] at hsaves
    refine iff_of_true ?_ rfl
    have hrun := hb.phase (P := fun p => p = (false, some (k.graph.freezes + 1, some .quit)) ∨ p = (true, none))
      hr₁ hsaves fun save dead g g' msg hd hc hp =>
        hp.elim (fun hp => hd.saving hc hp) (fun hp => .inr (hd.begun hc hp))
    rcases htime with ⟨-, he⟩ | ⟨hne, g₁, he, hf⟩
    · exact he
    · rcases hrun with hrun | hrun
      · rw [hg₂, hrun] at hne
        exact absurd rfl hne
      · rw [hg₂, hrun] at he
        rcases hf.phase with hp | ⟨q, n, reply, hp, -⟩ | ⟨n, hp, -⟩
        · exact hp.trans he
        · rw [he] at hp
          cases hp
        · rw [he] at hp
          cases hp
  | true =>
    rw [hk] at hsaves
    refine iff_of_false (fun hout => ?_) (by simp)
    have hrun := hb.phase (P := fun p => p = (false, some (k.graph.freezes + 1, none))) hr₁ hsaves
      fun save dead g g' msg hd hc hp => hd.stuck hc hp
    rcases htime with ⟨hp, -⟩ | ⟨-, g₁, he, hf⟩
    · rw [hg₂, hrun] at hp
      cases hp
    · rw [hg₂, hrun] at he
      rcases hf.phase with hp | ⟨q, n, reply, hp, -⟩ | ⟨n, hp, -⟩
      · rw [hp, he] at hout
        cases hout
      · rw [he] at hp
        cases hp
      · rw [he] at hp
        cases hp

def kept : Kernel ChannelTask := ((Kernel.new .sorted 0).saveOnQuit.registerTaskRegistration lone).1.afterDispatch

theorem reachable_kept : Reachable kept := .start (.install lone (.saveOnQuit (.new .sorted 0)))

def keptQuit : Kernel ChannelTask := (kept.arrive ⟨0, .quit⟩).turn 1 ⟨0, .quit⟩

theorem step_keptQuit : Step kept (some ⟨0, .quit⟩) keptQuit := .received _ (by decide) (by decide) (by decide)

def keptOut : Kernel ChannelTask := (keptQuit.arrive (alarmed 1)).turn saveTimeout (alarmed 1)

theorem saving_quit_begins_kept : keptOut.graph.quitting = true ∧ keptOut.graph.frozen = none := by
  have hall : ∀ id t, kept.graph.tasks.lookup id = some t →
      (Task.handleCmd t.task (.freeze (kept.graph.freezes + 1))).2.any TaskEffect.isStopped = false := by
    have hdead : kept.graph.dead = false := by decide
    intro id t ht
    by_contra hs
    rw [dead_iff.mpr ⟨id, t, ht, by simpa using hs⟩] at hdead
    cases hdead
  have hout : Step keptQuit (some (alarmed 1)) keptOut := .received _ (by decide) (by decide) (by decide)
  exact (saving_quit_begins reachable_kept (by decide) (by decide) (by decide) rfl step_keptQuit .refl hout).2.mpr
    hall

def gone : TaskRegistration ChannelTask where
  taskId := 1
  allocated := lone.allocated
  def' := {}
  factory _ := ⟨[], true⟩

def goneKernel : Kernel ChannelTask :=
  ((Kernel.new .sorted 0).saveOnQuit.registerTaskRegistration gone).1.afterDispatch

def goneQuit : Kernel ChannelTask := (goneKernel.arrive ⟨0, .quit⟩).turn 1 ⟨0, .quit⟩

def goneOut : Kernel ChannelTask := (goneQuit.arrive (alarmed 1)).turn (saveTimeout + 1) (alarmed 1)

/-- The quit neither begins nor lets go. -/
theorem saving_quit_lost : Reachable goneKernel ∧ goneKernel.save = true ∧ goneKernel.graph.quitting = false ∧
    goneKernel.graph.frozen = none ∧ Step goneKernel (some ⟨0, .quit⟩) goneQuit ∧
    (goneQuit.graph.now + saveTimeout, 1) ∈ goneQuit.alarms ∧ Step goneQuit (some (alarmed 1)) goneOut ∧
    ¬ (goneOut.graph.quitting = true ∧ goneOut.graph.frozen = none) := by
  refine ⟨.start (.install gone (.saveOnQuit (.new .sorted 0))), by decide, by decide, by decide, ?_, by decide,
    ?_, by decide⟩
  · exact .received _ (by decide) (by decide) (by decide)
  · exact .received _ (by decide) (by decide) (by decide)

end saving

section kept

def NoThaw (k : Kernel τ) (m : Option (KernelMessage τ)) : Prop :=
  ∀ msg, m = some msg → msg.command = .thaw → k.graph.frozen.isSome = true → k.graph.quitting = true

omit [Task τ] in
theorem held_iff : k.gate.Held ↔ k.graph.quitting = true ∨ k.graph.frozen.isSome = true := by
  unfold Held gate
  rw [Option.isSome_map]

/-- Once a quit came outside of a freeze, the kernel quits or is frozen for good. -/
theorem quit_kept (h : Reachable k) (hfrozen : k.graph.frozen = none) {first : Bool}
    (hmsg : msg.command.quits = some first) (hq : Step k (some msg) k₁) (hr : Run NoThaw k₁ k') :
    k'.graph.quitting = true ∨ k'.graph.frozen.isSome = true := by
  rw [← held_iff]
  have hr₁ : Reachable k₁ := .step h hq
  obtain ⟨g, -, hhold, -, -, hd⟩ := (steps_gate (valid_of_reachable h) hq).dispatches
  have hnone : k.gate.hold = none := by simp [gate, hfrozen]
  apply hr.invariant hr₁ (hd.held hmsg (hhold.trans hnone))
  intro k m k' hk hok hs hheld
  have hg := steps_gate (valid_of_reachable hk) hs
  cases m with
  | none =>
    rw [hg.alloc_eq]
    exact hheld
  | some msg =>
    obtain ⟨g, -, hhold, hquit, -, hd⟩ := hg.dispatches
    have hg : g.Held := by rwa [Held, hhold, hquit]
    apply hg.dispatches hd
    intro hc hsome
    rw [hquit]
    apply hok msg rfl hc
    rw [hhold] at hsome
    simpa [gate] using hsome

def keptLater : Kernel ChannelTask := (keptQuit.arrive ⟨0, .freeze 7⟩).turn 2 ⟨0, .freeze 7⟩

theorem quit_kept_later : keptLater.graph.quitting = true ∨ keptLater.graph.frozen.isSome = true := by
  have hrun : Run NoThaw keptQuit keptLater := by
    refine .tail .refl ?_ (.received _ (by decide) (by decide) (by decide))
    intro msg he hc
    obtain rfl := Option.some.inj he
    cases hc
  exact quit_kept reachable_kept (by decide) rfl step_keptQuit hrun

/-- An upgrade that the quit's freeze refused thaws it. -/
theorem quit_dropped : Reachable kept ∧ kept.graph.frozen = none ∧ Step kept (some ⟨0, .quit⟩) keptQuit ∧
    Step keptQuit (some ⟨0, .freeze 7⟩) keptLater ∧ ∃ k, Step keptLater (some ⟨0, .thaw⟩) k ∧
    k.graph.quitting = false ∧ k.graph.frozen = none := by
  refine ⟨reachable_kept, by decide, step_keptQuit, .received _ (by decide) (by decide) (by decide),
    (keptLater.arrive ⟨0, .thaw⟩).turn 3 ⟨0, .thaw⟩, ?_, by decide, by decide⟩
  exact .received _ (by decide) (by decide) (by decide)

end kept

section order

/-- No quit drops a save while intents wait for its end and others, handed back by a thaw before, still
wait for their turn. -/
def KeepsOrder (k : Kernel τ) (m : Option (KernelMessage τ)) : Prop :=
  ∀ msg, m = some msg → k.graph.freezingForQuit = true → msg.command.quits = some false →
    intents k.gate.deferred = [] ∨ intents k.replay = []

/-- Every intent that came has been dispatched or is held, once and in the order in which it came. -/
structure Ordered (g : Gate τ) : Prop where
  queue : intents g.queue = intents g.arrived
  deferrable : g.Deferrable

theorem ordered_booted (h : Booted k) : k.gate.hold = none ∧ k.replay = [] ∧ k.arrived = [] ∧ k.handled = [] := by
  induction h with
  | new hasher now => exact ⟨rfl, rfl, rfl, rfl⟩
  | saveOnQuit _ ih => exact ih
  | alloc _ ih => exact ih
  | @install k r hk ih =>
    have hv := valid_booted hk
    have hr := Runs.registerTaskWithId k.graph r.allocated r.def' r.factory none hv.sound hv.next
    obtain ⟨hhold, hrest⟩ := ih
    refine ⟨?_, hrest⟩
    have hg := gate_kept (k := k) hr.advances.kept
    rw [← hhold, ← hg]
    rfl
  | @restore k now nextTaskId tasks hnext _ hk ih =>
    have hv : Valid { k.graph with nextTaskId, now } :=
      ⟨(valid_booted hk).sound.same rfl rfl rfl, Nat.pos_of_ne_zero hnext⟩
    obtain ⟨hhold, hrest⟩ := ih
    have hr := Runs.registerTasks { k.graph with nextTaskId, now } tasks hv.sound hv.next
    have hg := gate_kept (k := { k with graph := { k.graph with nextTaskId, now } }) hr.advances.kept
    unfold restore
    simp only
    split
    · exact ⟨hhold, hrest⟩
    · refine ⟨?_, hrest⟩
      have hh := congrArg Gate.hold hg
      exact hh.trans hhold

theorem ordered_step {m : Option (KernelMessage τ)} (hk : Reachable k) (hok : KeepsOrder k m) (hs : Step k m k')
    (ho : Ordered k.gate) : Ordered k'.gate := by
  have hg := steps_gate (valid_of_reachable hk) hs
  have hq := gate_forQuit k
  cases m with
  | none =>
    rw [hg.alloc_eq]
    exact ho
  | some msg =>
    generalize hgate : k'.gate = g' at hg ⊢
    cases hg with
    | @replayed now msg rest _ hr hd =>
      have hr' : k.replay = msg :: rest := hr
      refine ⟨?_, ?_⟩
      · rw [hd.arrived]
        refine Eq.trans (intents_dispatches (.inr (ho.deferrable msg (.inr ?_))) ?_ hd) ?_
        · rw [hr]
          exact List.mem_cons_self
        · intro hfor hc
          refine (hok msg rfl (hq ▸ hfor) hc).imp_right fun hi => ?_
          rw [hr'] at hi
          have hnot := KernelCommand.not_intent_of_quits hc
          simpa [intents, hnot] using hi
        · rw [← ho.queue, Gate.queue, hr]
          rfl
      · have hsub : Deferrable { k.gate with now, replay := rest } := by
          intro x hx
          apply ho.deferrable x
          apply hx.imp_right
          intro hx
          rw [hr]
          exact List.mem_cons_of_mem _ hx
        exact hsub.dispatches hd
    | @came now alarms msg _ hr hd =>
      have hsame : Deferrable { k.gate with now, alarms, arrived := k.gate.arrived ++ [msg] } := ho.deferrable
      refine ⟨?_, hsame.dispatches hd⟩
      rw [hd.arrived]
      refine Eq.trans (intents_dispatches ?_ ?_ hd) ?_
      · exact .inl hr
      · exact fun _ _ => level_of_replay hr
      have hqueue := ho.queue
      rw [Gate.queue, hr, List.append_nil] at hqueue
      simp only [hr]
      rw [intents_append, intents_append (l := k.gate.arrived), ← hqueue]
      rfl

/-- The intents are dispatched in the order in which they come, each once, or still held. -/
theorem intents_in_order (hb : Booted k₀) (h : Run KeepsOrder k₀.afterDispatch k) :
    intents (k.handled ++ (k.graph.frozen.map Frozen.deferred).getD [] ++ k.replay) = intents k.arrived := by
  have hstart : Ordered k₀.afterDispatch.gate := by
    obtain ⟨hhold, hreplay, harrived, hhandled⟩ := ordered_booted hb
    rw [gate_afterDispatch]
    have hnone : k₀.gate.deferred = [] := deferred_none hhold
    have hreplay : k₀.gate.replay = [] := hreplay
    have harrived : k₀.gate.arrived = [] := harrived
    have hhandled : k₀.gate.handled = [] := hhandled
    refine ⟨by rw [Gate.queue, hnone, hreplay, harrived, hhandled]; rfl, fun m hm => ?_⟩
    rw [hnone, hreplay] at hm
    simp at hm
  have ho := h.invariant (P := fun k => Ordered k.gate) (.start hb) hstart
    fun k m k' hk hok hs ho => ordered_step hk hok hs ho
  have hd : k.gate.deferred = (k.graph.frozen.map Frozen.deferred).getD [] := by
    unfold Gate.deferred gate
    cases k.graph.frozen <;> rfl
  rw [← hd]
  exact ho.queue

def tell (content : ℕ) : KernelMessage ChannelTask := ⟨0, .taskMsg 1 content⟩

def told (m : KernelMessage ChannelTask) : Option ℕ :=
  match m.command with
  | .taskMsg _ content => some content
  | _ => none

theorem intents_in_order_kept :
    intents (keptLater.handled ++ (keptLater.graph.frozen.map Frozen.deferred).getD [] ++ keptLater.replay) =
      intents keptLater.arrived := by
  have hopen : ∀ m, KeepsOrder kept m := fun m msg _ hq => by
    have : kept.graph.freezingForQuit = false := by decide
    rw [this] at hq
    cases hq
  have hrun : Run KeepsOrder kept keptLater := by
    refine .tail (.tail .refl (hopen _) step_keptQuit) ?_ (.received _ (by decide) (by decide) (by decide))
    intro msg he _ hc
    obtain rfl := Option.some.inj he
    cases hc
  exact intents_in_order (.install lone (.saveOnQuit (.new .sorted 0))) hrun

/-- An upgrade's freeze defers a quit, a message, a quit that drops the save, and another message; the
thaw hands them back, and the quit freezes again. -/
def upgrading : Kernel ChannelTask := (kept.arrive ⟨0, .freeze 7⟩).turn 1 ⟨0, .freeze 7⟩

def waiting₁ : Kernel ChannelTask := (upgrading.arrive ⟨0, .quit⟩).turn 1 ⟨0, .quit⟩

def waiting₂ : Kernel ChannelTask := (waiting₁.arrive (tell 11)).turn 1 (tell 11)

def waiting₃ : Kernel ChannelTask := (waiting₂.arrive ⟨0, .quitWithoutSave⟩).turn 1 ⟨0, .quitWithoutSave⟩

def waiting₄ : Kernel ChannelTask := (waiting₃.arrive (tell 12)).turn 1 (tell 12)

def thawed : Kernel ChannelTask := (waiting₄.arrive ⟨0, .thaw⟩).turn 1 ⟨0, .thaw⟩

def pop (k : Kernel τ) : Kernel τ :=
  match k.replay with
  | msg :: rest => { k with replay := rest }.turn k.graph.now msg
  | [] => k

theorem Reachable.pop (h : Reachable k) (he : k.exited = false) : Reachable k.pop := by
  unfold Kernel.pop
  cases hr : k.replay with
  | nil => exact h
  | cons msg rest => exact .step h (.replayed he le_rfl hr)

theorem reachable_thawed : Reachable thawed := by
  have h₁ : Reachable upgrading := .step reachable_kept (.received _ (by decide) (by decide) (by decide))
  have h₂ : Reachable waiting₁ := .step h₁ (.received _ (by decide) (by decide) (by decide))
  have h₃ : Reachable waiting₂ := .step h₂ (.received _ (by decide) (by decide) (by decide))
  have h₄ : Reachable waiting₃ := .step h₃ (.received _ (by decide) (by decide) (by decide))
  have h₅ : Reachable waiting₄ := .step h₄ (.received _ (by decide) (by decide) (by decide))
  exact .step h₅ (.received _ (by decide) (by decide) (by decide))

/-- The second message is dispatched before the first. -/
theorem intents_crossed : Reachable thawed.pop.pop.pop.pop.pop ∧
    thawed.pop.pop.pop.pop.pop.arrived.filterMap told = [11, 12] ∧
    thawed.pop.pop.pop.pop.pop.handled.filterMap told = [12, 11] := by
  refine ⟨?_, by decide, by decide⟩
  have h₁ := reachable_thawed.pop (by decide)
  have h₂ := h₁.pop (by decide)
  have h₃ := h₂.pop (by decide)
  have h₄ := h₃.pop (by decide)
  exact h₄.pop (by decide)

end order

end Kernel

end Dekit
