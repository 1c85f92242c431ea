import Dekit.Budget
import Dekit.Deadlines
import Dekit.Skipping

namespace Dekit

namespace KernelCommand

variable {τ : Type} {c : KernelCommand τ}

/-- What tasks and timers say, and no user. -/
def reports : KernelCommand τ → Bool
  | taskStarted | taskReady | taskStopped _ | taskFrozen _ _ | stateTimeout _ _ | freezeTimeout _ => true
  | _ => false

theorem quits_of_reports (h : c.reports = true) : c.quits = none := by
  cases c <;> first | rfl | cases h

theorem freezeTimeout_of_reports (h : c.reports = true) (hc : c.reachesKernel = true) :
    ∃ number, c = .freezeTimeout number := by
  cases c with
  | freezeTimeout number => exact ⟨number, rfl⟩
  | taskStarted | taskReady | taskStopped | taskFrozen | stateTimeout => cases hc
  | _ => cases h

end KernelCommand

def Clock.span (c : Clock) : ℕ := c.stopTimeout + killWait

theorem Clock.span_pos (c : Clock) : 0 < c.span := Nat.add_pos_right _ (by decide)

theorem Clock.latest_up {c : Clock} {now : ℕ} (hr : c.state.isRunning = true) : c.latest now = now + c.span :=
  (latest_running hr).trans (Nat.add_assoc _ _ _)

theorem Clock.Graced.latest_le {c : Clock} {now : ℕ} (h : c.Graced now) (hs : c.state = .stopping) :
    c.latest now ≤ now + c.span := by
  have hd := h hs
  rw [latest_stopping hs]
  split at hd
  · rename_i hk
    rw [if_pos hk]
    have hd : c.alarm ≤ now + killWait := hd
    unfold span
    omega
  · rename_i hk
    rw [if_neg hk]
    have hd : c.alarm ≤ now + c.stopTimeout := hd
    unfold span
    omega

namespace Graph

variable {τ : Type} {g g₀ g' : Graph τ} {x y : TaskId} {limit limit' : TaskId → ℕ}

section chains

/-- How long a task that is not down yet takes to be down at the most. -/
def grace (g : Graph τ) (x : TaskId) : ℕ :=
  match g.tasks.lookup x with
  | some t => if t.state.isActive then t.stopTimeout + killWait else 0
  | none => 0

theorem chain_eq (g : Graph τ) (n : ℕ) : g.chain n = CriticalPath.chain g.grace g.edges n := by
  induction n with
  | zero => rfl
  | succ n ih =>
    funext x
    unfold Graph.chain CriticalPath.chain
    rw [ih]
    rfl

def room (g : Graph τ) (x : TaskId) : ℕ :=
  CriticalPath.slack g.grace g.edges g.tasks.keys (g.tasks.keys.card + 1) x

theorem room_le (g : Graph τ) (x : TaskId) : g.room x ≤ g.stopWithin := by
  unfold stopWithin
  rw [chain_eq]
  exact CriticalPath.slack_le

theorem depth_lt (h : g.view.Shape) (hy : y ∈ g.edges x) :
    Dag.rank (fun a b => a ∈ g.edges b) g.tasks.keys y < Dag.rank (fun a b => a ∈ g.edges b) g.tasks.keys x :=
  Dag.rank_lt (fun a b hab => h.target b a hab) h.acyclic.swap hy

theorem grace_le_room (h : g.view.Shape) (hx : x ∈ g.tasks.keys) : g.grace x ≤ g.room x := by
  apply CriticalPath.weight_le_slack (fun x y hy => depth_lt h hy) hx
  exact Nat.lt_succ_of_le (Dag.rank_le _)

theorem room_next (h : g.view.Shape) (hx : x ∈ g.tasks.keys) (hxy : x ∈ g.edges y) :
    g.room y + g.grace x ≤ g.room x := by
  apply CriticalPath.slack_next (fun x y hy => depth_lt h hy) hx hxy
  exact Nat.lt_succ_of_le (Dag.rank_le _)

theorem grace_of_clock {c : Clock} (hc : g.clock x = some c) (ha : c.state.isActive = true) :
    g.grace x = c.span := by
  obtain ⟨t, ht, rfl⟩ := Option.map_eq_some_iff.mp hc
  unfold grace
  rw [ht]
  exact if_pos ha

theorem grace_eq (g : Graph τ) (x : TaskId) :
    g.grace x = ((g.clock x).map fun c => if c.state.isActive then c.span else 0).getD 0 := by
  unfold grace clock
  cases g.tasks.lookup x <;> rfl

theorem mem_keys_iff_clock : x ∈ g.tasks.keys ↔ (g.clock x).isSome = true := by
  rw [Finmap.mem_keys, ← Finmap.lookup_isSome, clock, Option.isSome_map]

theorem mem_keys_of_clock {c : Clock} (hc : g.clock x = some c) : x ∈ g.tasks.keys := by
  rw [mem_keys_iff_clock, hc]
  rfl

theorem stopWithin_congr (hc : g'.clock = g.clock) (he : g'.edges = g.edges) : g'.stopWithin = g.stopWithin := by
  have hgrace : g'.grace = g.grace := by
    funext x
    rw [grace_eq, grace_eq, hc]
  have hkeys : g'.tasks.keys = g.tasks.keys := by
    ext x
    rw [mem_keys_iff_clock, mem_keys_iff_clock, hc]
  unfold stopWithin
  rw [chain_eq, chain_eq, hgrace, he, hkeys]

end chains

section within

/-- What is not down yet was up in `g₀`, has no longer to stop than there, and is down by its limit. -/
structure Within (g₀ : Graph τ) (limit : TaskId → ℕ) (g : Graph τ) : Prop where
  edges : g.edges = g₀.edges
  task : ∀ x c, g.clock x = some c → c.state.isActive = true → x ∈ g₀.tasks.keys ∧
    (c.state.isRunning = true → c.span ≤ g₀.grace x) ∧ c.latest g.now ≤ limit x

theorem Within.winds (h : Within g₀ limit g) (hw : Winds g g') (he : g'.edges = g.edges) : Within g₀ limit g' := by
  refine ⟨he.trans h.edges, fun x c' hc' ha' => ?_⟩
  obtain ⟨c, hc, hwinds⟩ := hw.clock x c' hc'
  obtain ⟨hx, hgrace, hlatest⟩ := h.task x c hc (hwinds.active ha')
  refine ⟨hx, fun hr' => ?_, ?_⟩
  · have hr := hwinds.running hr'
    have hle := hwinds.latest ha'
    rw [Clock.latest_up hr, Clock.latest_up hr'] at hle
    have hg := hgrace hr
    omega
  · rw [hw.now]
    exact (hwinds.latest ha').trans hlatest

theorem Within.mono (h : Within g₀ limit g) (hl : ∀ x ∈ g₀.tasks.keys, limit x ≤ limit' x) : Within g₀ limit' g := by
  refine ⟨h.edges, fun x c hc ha => ?_⟩
  obtain ⟨hx, hgrace, hlatest⟩ := h.task x c hc ha
  exact ⟨hx, hgrace, hlatest.trans (hl x hx)⟩

theorem Graced.within (h : g.Graced) (now : ℕ) (hn : g.now = now) : Within g (fun x => now + g.grace x) g := by
  subst hn
  refine ⟨rfl, fun x c hc ha => ⟨mem_keys_of_clock hc, fun _ => (grace_of_clock hc ha).ge, ?_⟩⟩
  show c.latest g.now ≤ g.now + g.grace x
  rw [grace_of_clock hc ha]
  rcases Clock.active_cases ha with hs | hr
  · exact (h x c hc).latest_le hs
  · exact (Clock.latest_up hr).le

theorem Within.later {now : ℕ} (h : Within g₀ (fun x => now + g₀.grace x) g) (hn : g.now = now) {now' : ℕ}
    (hle : now ≤ now') :
    Within g₀ (fun x => now' + g₀.grace x) { g with now := now' } := by
  refine ⟨h.edges, fun x c hc ha => ?_⟩
  obtain ⟨hx, hgrace, hlatest⟩ := h.task x c hc ha
  refine ⟨hx, hgrace, ?_⟩
  have hlater : c.latest now' ≤ c.latest now + (now' - now) := Clock.latest_later hle
  have hlatest : c.latest now ≤ now + g₀.grace x := hn ▸ hlatest
  show c.latest now' ≤ now' + g₀.grace x
  omega

theorem Within.begins {now T : ℕ} (h : Within g₀ (fun x => now + g₀.grace x) g) (hs₀ : g₀.view.Shape) (hle : now ≤ T) :
    Within g₀ (fun x => T + g₀.room x) g :=
  h.mono fun _ hx => Nat.add_le_add hle (grace_le_room hs₀ hx)

end within

end Graph

namespace Gate

variable {τ : Type} {save dead : Bool} {g g' : Gate τ} {msg : KernelMessage τ} {n : ℕ}

theorem Dispatches.alarms (h : Dispatches save dead g msg g') (hr : msg.command.reports = true) :
    g'.alarms = g.alarms := by
  have hnone := KernelCommand.quits_of_reports hr
  cases h with
  | deferred | covered => rfl
  | @handled g₁ _ _ hp hf =>
    have hrun : g₁.alarms = g.alarms := by
      cases hp with
      | plain | late | thaws | timesOut | freezes => rfl
      | saves hc | drops hc | quits hc =>
        rw [hnone] at hc
        cases hc
    cases hf with
    | waits | answers | saves => exact hrun

theorem Dispatches.reported (h : Dispatches save dead g msg g') (hr : msg.command.reports = true) :
    (g.phase = (true, none) → g'.phase = (true, none)) ∧
      (g.phase = (false, some (n, some .quit)) → g'.phase = (false, some (n, some .quit)) ∨ g'.phase = (true, none)) := by
  by_cases hc : msg.command.reachesKernel = true
  · obtain ⟨number, hm⟩ := KernelCommand.freezeTimeout_of_reports hr hc
    rcases h.timeout hm with ⟨hp, he⟩ | ⟨-, g₁, hp, hf⟩
    · exact ⟨fun _ => he, fun _ => .inr he⟩
    · refine ⟨fun hg => ?_, fun hg => ?_⟩
      · rcases hf.phase with he | ⟨q, m, reply, he, -⟩ | ⟨m, -, he⟩
        · exact he.trans (hp.trans hg)
        · rw [hp, hg] at he
          cases he
        · exact he
      · rcases hf.phase with he | ⟨q, m, reply, he, -⟩ | ⟨m, -, he⟩
        · exact .inl (he.trans (hp.trans hg))
        · rw [hp, hg] at he
          cases he
        · exact .inr he
  · have hc := eq_false_of_ne_true hc
    exact ⟨fun hg => h.begun hc hg, fun hg => h.saving hc hg⟩

theorem Dispatches.opens (h : Dispatches save dead g msg g') {first : Bool} (hc : msg.command.quits = some first)
    (hg : g.phase = (false, none)) (hlive : (first && save) = true → dead = false) :
    g'.phase = (true, none) ∨ (first && save) = true ∧ g'.phase = (false, some (g.freezes + 1, some .quit)) := by
  cases hsave : first && save with
  | true =>
    obtain ⟨rfl, rfl⟩ := Bool.and_eq_true_iff.mp hsave
    have hphase := h.saves hc rfl hg
    rw [hlive rfl, if_neg Bool.false_ne_true] at hphase
    exact hphase.symm.imp_right fun hp => ⟨rfl, hp⟩
  | false =>
    obtain ⟨hquit, hhold⟩ := Prod.mk.inj hg
    have hhold : g.hold = none := Option.map_eq_none_iff.mp hhold
    refine .inl ?_
    cases h with
    | deferred hh _ | covered hh _ =>
      rw [hhold] at hh
      cases hh
    | @handled g₁ _ _ hp hf =>
      have hrun : g₁.phase = (true, none) := by
        cases hp with
        | plain he =>
          rw [KernelCommand.reachesKernel_of_quits hc] at he
          cases he
        | freezes _ he | thaws he | late he _ | timesOut he _ =>
          rw [he] at hc
          cases hc
        | saves he hs _ =>
          obtain rfl := Option.some.inj (hc.symm.trans he)
          rw [hs] at hsave
          cases hsave
        | drops => rfl
        | quits => exact congrArg (fun p => (true, p)) (Option.map_eq_none_iff.mpr hhold)
      rcases hf.phase with he | ⟨q, m, reply, he, -⟩ | ⟨m, -, he⟩
      · exact he.trans hrun
      · rw [hrun] at he
        cases he
      · exact he

end Gate

open Dekit.Gate Dekit.Graph

namespace Kernel

variable {τ : Type} [Task τ] {k k₀ k₁ k' : Kernel τ} {g₀ : Graph τ} {msg : KernelMessage τ} {x : TaskId} {c : Clock}
  {T t now : ℕ}

/-- By this time no timer and no freeze timeout is late, and what a thaw handed back is not left lying. -/
structure Punctual (k : Kernel τ) (t : ℕ) : Prop where
  timers : ∀ e ∈ k.timers.queue, t ≤ e.due
  alarms : ∀ a ∈ k.alarms, t ≤ a.1
  replay : k.replay ≠ [] → t = k.graph.now

section settled

theorem timer_of_stopping (hk : Reachable k) (he : k.exited = false) (hf : k.graph.frozen = none)
    (hc : k.graph.clock x = some c) (hs : c.state = .stopping) :
    (∃ e ∈ k.timers.queue, e.due ≤ max c.alarm k.graph.now) ∨ k.replay ≠ [] := by
  have htick := ticking_of_reachable hk
  have hlisted : x ∉ k.graph.timerChanges := by
    rw [htick.listed hf he]
    exact List.not_mem_nil
  have htimed : c.deadline.isSome = true := by
    rw [htick.timely x c hc, hs]
    rfl
  obtain ⟨d, hd⟩ := Option.isSome_iff_exists.mp htimed
  have hdue : k.graph.due x = some c.epoch := by
    rw [due_of_clock hc, hd]
    rfl
  rcases htick.matched x hlisted with hkeys | ⟨-, epoch, -, m, hm, -⟩
  · rw [hdue] at hkeys
    obtain ⟨⟨epoch, key⟩, hkeys, rfl⟩ := Option.map_eq_some_iff.mp hkeys
    obtain ⟨e, hm, rfl, hepoch, -⟩ := htick.paired.queued x _ _ hkeys
    have hmax := (prompt_of_reachable hk e hm c hc).2 hepoch.symm d hd
    refine .inl ⟨e, hm, ?_⟩
    rw [Clock.alarm, hd]
    exact hmax
  · refine .inr fun hnil => ?_
    rcases hm with hm | hm
    · simp [Gate.deferred, gate, hf] at hm
    · have hm : m ∈ k.replay := hm
      rw [hnil] at hm
      cases hm

/-- Settling came to its end, and did not run out of its budget. -/
def Settled (k : Kernel τ) : Prop :=
  k.exited = false → k.graph.frozen = none → k.graph.pendingEffects = [] ∧ k.graph.dirty = []

theorem settled_of_terse (ht : Terse τ) (hk : Reachable k) : k.Settled := fun he =>
    (calmed_of_reachable ht hk he).settled

theorem held_up (hset : k.Settled) (hk : Reachable k) (he : k.exited = false) (hf : k.graph.frozen = none)
    (hq : k.graph.quitting = true) (hc : k.graph.clock x = some c) (hr : c.state.isRunning = true) :
    ∃ y c', x ∈ k.graph.edges y ∧ k.graph.clock y = some c' ∧ c'.state.isActive = true := by
  obtain ⟨hpending, hdirty⟩ := hset he hf
  have hsound := (valid_of_reachable hk).sound
  obtain ⟨task, htask, rfl⟩ := Option.map_eq_some_iff.mp hc
  have hempty : k.graph.view.dirty = ∅ := by
    have hqueued := hsound.queued.1
    rw [hdirty] at hqueued
    exact hqueued
  have hsup : task.supported = false := by
    by_contra hsup
    have hmet : k.graph.view.met x = true := by
      rw [View.met, view_node, htask]
      exact eq_true_of_ne_false hsup
    have hwants := ((View.met_iff hsound.shape hsound.counts hsound.fresh hempty x).mp hmet).1.1
    have hquit : k.graph.view.quitting = true := hq
    rw [hquit] at hwants
    cases hwants
  obtain ⟨y, hy, hactive⟩ := ((ordered_shutdown hk).2 hdirty hpending x task htask).1 hsup hr
  obtain ⟨-, hany⟩ := (isActive_view _ _).mp hactive
  cases hu : k.graph.tasks.lookup y with
  | none =>
    rw [hu] at hany
    cases hany
  | some u =>
    rw [hu] at hany
    refine ⟨y, u.clock, (hsound.shape.inverse y x).mpr hy, ?_, hany⟩
    rw [clock, hu]
    rfl

/-- Once settled, a quitting kernel keeps to its limits for as long as nothing is late. -/
theorem within_waits (hset : k.Settled) (hk : Reachable k) (he : k.exited = false) (hf : k.graph.frozen = none)
    (hq : k.graph.quitting = true) (hs₀ : g₀.view.Shape) (h : Within g₀ (fun x => T + g₀.room x) k.graph)
    (hn : k.graph.now ≤ t) (hp : Punctual k t) :
    Within g₀ (fun x => T + g₀.room x) { k.graph with now := t } := by
  refine ⟨h.edges, fun x c hc ha => ?_⟩
  replace hc : k.graph.clock x = some c := hc
  obtain ⟨hx, hgrace, -⟩ := h.task x c hc ha
  refine ⟨hx, hgrace, ?_⟩
  show c.latest t ≤ T + g₀.room x
  -- Who requires a task is down before it is stopped.
  induction x using hs₀.wellFounded.induction generalizing c with
  | _ x ih =>
    rcases Clock.active_cases ha with hs | hr
    · have hlatest := (h.task x c hc ha).2.2
      have heq : max c.alarm t = max c.alarm k.graph.now := by
        rcases timer_of_stopping hk he hf hc hs with ⟨e, hm, hdue⟩ | hreplay
        · have hle := (hp.timers e hm).trans hdue
          exact le_antisymm (max_le (le_max_left _ _) hle) (max_le_max le_rfl hn)
        · rw [hp.replay hreplay]
      rw [Clock.latest_stopping hs] at hlatest ⊢
      rw [heq]
      exact hlatest
    · obtain ⟨y, c', hxy, hc', ha'⟩ := held_up hset hk he hf hq hc hr
      have hxy : x ∈ g₀.edges y := h.edges ▸ hxy
      obtain ⟨hy, hgrace', -⟩ := h.task y c' hc' ha'
      have hbefore : c'.latest t ≤ T + g₀.room y := ih y hxy c' ha' hc' hy hgrace'
      have hnow : t ≤ c'.latest t := Clock.le_latest ha'
      have hnext := room_next hs₀ hx hxy
      have hspan := hgrace hr
      rw [Clock.latest_up hr]
      omega

end settled

section turns

omit [Task τ] in
theorem edges_beginQuit (k : Kernel τ) : k.beginQuit.1.graph.edges = k.graph.edges := by
  show k.graph.beginQuit.1.edges = _
  cases hq : k.graph.quitting with
  | true =>
    unfold Graph.beginQuit
    rw [if_pos hq]
  | false => exact congrArg View.deps (view_beginQuit _ hq)

theorem edges_thaw (k : Kernel τ) : k.thaw.graph.edges = k.graph.edges := congrArg Records.deps (aside_thaw k).records

omit [Task τ] in
theorem edges_answerIf (k : Kernel τ) (reply : Option ReplyId) (a : Answer) :
    (k.answerIf reply a).graph.edges = k.graph.edges := by
  cases reply <;> rfl

theorem edges_quit (k : Kernel τ) (save : Bool) (reply : Option ReplyId) :
    (k.quit save reply).1.graph.edges = k.graph.edges := by
  unfold quit
  split
  · have hfreeze (g : Graph τ) : g.beginQuitFreeze.1.edges = g.edges :=
      congrArg Records.deps (Aside.freeze g .quit).records
    exact (hfreeze _).trans (edges_answerIf k reply _)
  · simp only
    rw [edges_answerIf, edges_beginQuit]
    split
    · exact edges_thaw k
    · rfl

theorem edges_finishFreeze (k : Kernel τ) : k.finishFreeze.1.graph.edges = k.graph.edges := by
  have hf : k.graph.finishFreezeIfComplete.1.edges = k.graph.edges :=
    congrArg Records.deps (Aside.finishFreeze k.graph).records
  unfold finishFreeze
  generalize k.graph.finishFreezeIfComplete = r at hf ⊢
  obtain ⟨g, saved⟩ := r
  cases saved with
  | none => exact hf
  | some snapshot => exact (edges_beginQuit _).trans ((edges_thaw _).trans hf)

theorem edges_runCommand (k : Kernel τ) (msg : KernelMessage τ) :
    (k.runCommand msg).1.graph.edges = k.graph.edges ∨
      (k.runCommand msg).1.graph.edges = (k.graph.perform msg.sender msg.command).edges := by
  obtain ⟨sender, command⟩ := msg
  unfold runCommand
  cases command with
  | quit => exact .inl (edges_quit k true none)
  | quitWithoutSave => exact .inl (edges_quit k false none)
  | quitWithin save reply => exact .inl (edges_quit k save (some reply))
  | freezeTimeout number =>
    simp only
    split
    · exact .inl ((edges_beginQuit _).trans (edges_thaw k))
    · exact .inl rfl
  | thaw => exact .inl (edges_thaw k)
  | _ => exact .inr rfl

theorem edges_dispatch (k : Kernel τ) (msg : KernelMessage τ) :
    (k.dispatch msg).1.graph.edges = k.graph.edges ∨
      (k.dispatch msg).1.graph.edges = (k.graph.perform msg.sender msg.command).edges := by
  have hnow : (k.dispatchNow msg).1.graph.edges = k.graph.edges ∨
      (k.dispatchNow msg).1.graph.edges = (k.graph.perform msg.sender msg.command).edges := by
    have hr := edges_runCommand { k with handled := k.handled ++ [msg] } msg
    unfold dispatchNow
    generalize ({ k with handled := k.handled ++ [msg] } : Kernel τ).runCommand msg = r at hr ⊢
    obtain ⟨k', exit⟩ := r
    cases exit with
    | none =>
      simp only
      rw [edges_finishFreeze]
      exact hr
    | some exit => exact hr
  unfold dispatch
  cases k.graph.frozen with
  | none => exact hnow
  | some frozen =>
    simp only
    cases msg.command.disposition k.graph.freezingForQuit with
    | now => exact hnow
    | covered =>
      unfold cover
      cases msg.command <;> exact .inl rfl
    | deferred => exact .inl rfl

theorem reported_gains (h : k.graph.Orderly) (hr : msg.command.reports = true) :
    Winds k.graph (k.graph.perform msg.sender msg.command) ∧
      (k.graph.perform msg.sender msg.command).edges = k.graph.edges := by
  have hw := Writes.perform (I := anyTerms τ) h.valid msg.sender (allows_anyTerms msg.command)
  obtain ⟨-, hedits⟩ := hw h.told h.sane
  obtain ⟨sender, command⟩ := msg
  cases command with
  | taskStarted => exact ⟨.onEffect k.graph sender .started, Edits.deps hedits⟩
  | taskReady => exact ⟨.onEffect k.graph sender .ready, Edits.deps hedits⟩
  | taskStopped info => exact ⟨.onEffect k.graph sender (.stopped info), Edits.deps hedits⟩
  | stateTimeout id epoch => exact ⟨.onStateTimeout k.graph id epoch, Edits.deps hedits⟩
  | taskFrozen number snapshot =>
    have hn := now_perform h.valid sender (.taskFrozen number snapshot)
    exact ⟨.of_clock hn (Timeless.onTaskFrozen _ _ _ _).clock, Edits.deps hedits⟩
  | freezeTimeout number => exact ⟨.refl _, rfl⟩
  | _ => cases hr

theorem reported_kept (hv : Valid k.graph) (hr : msg.command.reports = true) :
    (k.graph.perform msg.sender msg.command).quitting = k.graph.quitting ∧
      (k.graph.perform msg.sender msg.command).frozen.isSome = k.graph.frozen.isSome := by
  obtain ⟨sender, command⟩ := msg
  have hkept (hf : ∀ reply, command ≠ .freeze reply) (ht : ∀ number snapshot, command ≠ .taskFrozen number snapshot) :
      (k.graph.perform sender command).quitting = k.graph.quitting ∧
        (k.graph.perform sender command).frozen.isSome = k.graph.frozen.isSome := by
    have hk := hv.perform_kept sender hf ht
    exact ⟨hk.quitting, congrArg Option.isSome hk.frozen⟩
  cases command with
  | taskFrozen number snapshot =>
    show (k.graph.onTaskFrozen sender number snapshot).quitting = _ ∧
      (k.graph.onTaskFrozen sender number snapshot).frozen.isSome = _
    unfold onTaskFrozen
    cases hf : k.graph.frozen with
    | none => exact ⟨rfl, congrArg Option.isSome hf⟩
    | some frozen =>
      simp only
      split
      · exact ⟨rfl, congrArg Option.isSome hf⟩
      · exact ⟨rfl, rfl⟩
  | taskStarted | taskReady | taskStopped | stateTimeout | freezeTimeout => exact hkept (by simp) (by simp)
  | _ => cases hr

omit [Task τ] in
theorem beginQuit_atOnce (k : Kernel τ) : k.beginQuit.2 = k.graph.quitting := by
  show k.graph.beginQuit.2 = _
  unfold Graph.beginQuit
  cases k.graph.quitting <;> rfl

theorem quitting_thaw (k : Kernel τ) : k.thaw.graph.quitting = k.graph.quitting :=
  (Kept.of_frame (quiet_thaw k.graph).frame).quitting

theorem finishFreeze_atOnce (h : k.finishFreeze.2 = true) : k.graph.quitting = true ∧ k.graph.frozen.isSome = true := by
  have hf := finishFreeze_cases k.graph
  unfold finishFreeze at h
  generalize k.graph.finishFreezeIfComplete = r at hf h
  cases hf with
  | waits | answers => cases h
  | saves snapshot hfrozen =>
    simp only at h
    rw [beginQuit_atOnce, quitting_thaw] at h
    exact ⟨h, by rw [hfrozen]; rfl⟩

theorem reported_stays (hv : Valid k.graph) (hq : k.graph.quitting = true → k.graph.frozen = none)
    (hr : msg.command.reports = true) : (k.dispatch msg).2 = false := by
  have hnot : ¬ (k.graph.quitting = true ∧ k.graph.frozen.isSome = true) := by
    rintro ⟨hquit, hsome⟩
    rw [hq hquit] at hsome
    cases hsome
  have hfinish {k' : Kernel τ} (h₁ : k'.graph.quitting = k.graph.quitting)
    (h₂ : k'.graph.frozen.isSome = k.graph.frozen.isSome) :
      k'.finishFreeze.2 = false := by
    by_contra hx
    obtain ⟨hquit, hsome⟩ := finishFreeze_atOnce (eq_true_of_ne_false hx)
    exact hnot ⟨h₁ ▸ hquit, h₂ ▸ hsome⟩
  obtain ⟨h₁, h₂⟩ := reported_kept hv hr
  have hthaw (k' : Kernel τ) (hg : k'.graph = k.graph) (hsaving : k'.graph.freezingForQuit = true) :
      k'.thaw.beginQuit.2 = false := by
    rw [beginQuit_atOnce, quitting_thaw, hg]
    rw [hg] at hsaving
    by_contra hquit
    simp [freezingForQuit, hq (eq_true_of_ne_false hquit)] at hsaving
  have hrun : (({ k with handled := k.handled ++ [msg] } : Kernel τ).runCommand msg).2 = some false ∨
      (({ k with handled := k.handled ++ [msg] } : Kernel τ).runCommand msg).2 = none ∧
        (({ k with handled := k.handled ++ [msg] } : Kernel τ).runCommand msg).1.finishFreeze.2 = false := by
    obtain ⟨sender, command⟩ := msg
    unfold runCommand
    cases command with
    | freezeTimeout number =>
      simp only
      split
      · rename_i hs
        exact .inl (congrArg some (hthaw _ rfl hs.1))
      · exact .inr ⟨rfl, hfinish rfl rfl⟩
    | taskStarted | taskReady | taskStopped | taskFrozen | stateTimeout => exact .inr ⟨rfl, hfinish h₁ h₂⟩
    | _ => cases hr
  have hnow : (k.dispatchNow msg).2 = false := by
    unfold dispatchNow
    generalize ({ k with handled := k.handled ++ [msg] } : Kernel τ).runCommand msg = r at hrun ⊢
    obtain ⟨k', exit⟩ := r
    rcases hrun with rfl | ⟨rfl, hx⟩
    · rfl
    · exact hx
  unfold dispatch
  cases hf : k.graph.frozen with
  | none => exact hnow
  | some frozen =>
    simp only
    cases msg.command.disposition k.graph.freezingForQuit with
    | now => exact hnow
    | covered | deferred => rfl

theorem edges_settle {g : Graph τ} (h : g.Orderly) : g.settle.edges = g.edges := by
  obtain ⟨-, he⟩ := Writes.settle (I := anyTerms τ) (c := .itself) g h.told h.sane
  exact Edits.deps he

/-- What a turn comes to once its message is dispatched and the kernel is frozen or quits. -/
structure Wound (k : Kernel τ) (now : ℕ) (k' : Kernel τ) : Prop where
  winds : Winds { k.graph with now } k'.graph
  edges : k'.graph.edges = k.graph.edges
  exited : k'.exited = true → k'.graph.noActiveTasks = true

theorem wound_turn (h : k.graph.Orderly)
    (hx : (({ k with graph := { k.graph with now } } : Kernel τ).dispatch msg).2 = false)
    (hafter : (k.dispatched now msg).frozen.isSome = true ∨ (k.dispatched now msg).quitting = true)
    (hw : Winds { k.graph with now } (k.dispatched now msg)) (he : (k.dispatched now msg).edges = k.graph.edges) :
    Wound k now (k.turn now msg) := by
  have ho := orderly_dispatched h now msg
  unfold dispatched at hafter hw he ho
  unfold turn
  generalize ({ k with graph := { k.graph with now } } : Kernel τ).dispatch msg = r at hx hafter hw he ho ⊢
  obtain ⟨k', exit⟩ := r
  obtain rfl : exit = false := hx
  have hnone (hand : (k'.afterDispatch.graph.quitting && k'.afterDispatch.graph.noActiveTasks) = true) :
      k'.afterDispatch.graph.noActiveTasks = true := (Bool.and_eq_true_iff.mp hand).2
  refine ⟨?_, ?_, hnone⟩
  · show Winds _ k'.afterDispatch.graph
    unfold afterDispatch
    split
    · exact hw
    · rename_i hf
      have hquit : k'.graph.quitting = true := hafter.resolve_left hf
      exact (hw.trans (.settle ho.valid.sound hquit)).trans (.of_clock rfl rfl)
  · show k'.afterDispatch.graph.edges = _
    unfold afterDispatch
    split
    · exact he
    · exact (edges_settle ho).trans he

theorem reported_turn (h : k.graph.Orderly) (hr : msg.command.reports = true)
    (hq : k.graph.quitting = true → k.graph.frozen = none)
    (hafter : (k.dispatched now msg).frozen.isSome = true ∨ (k.dispatched now msg).quitting = true) :
    Wound k now (k.turn now msg) := by
  have hv : Valid ({ k.graph with now } : Graph τ) := h.valid.same rfl rfl rfl rfl
  have ho : Orderly ({ k.graph with now } : Graph τ) := ⟨hv, h.told, h.sane, h.tidy.stays (.of_eq rfl rfl rfl)⟩
  obtain ⟨hwinds, hedges⟩ := reported_gains (k := { k with graph := { k.graph with now } }) ho hr
  have hnow := now_dispatch (k := { k with graph := { k.graph with now } }) hv msg
  refine wound_turn h (reported_stays hv hq hr) hafter ?_ ?_
  · obtain ⟨g, hcase, ht⟩ := graph_dispatch { k with graph := { k.graph with now } } msg
    rcases hcase with rfl | rfl
    · exact .of_clock hnow ht.clock
    · exact hwinds.trans (.of_clock (hnow.trans hwinds.now.symm) ht.clock)
  · rcases edges_dispatch { k with graph := { k.graph with now } } msg with he | he
    · exact he
    · exact he.trans hedges

end turns

section runs

/-- The quit has begun, and its tasks are down by their limits. -/
structure Quitting (g₀ : Graph τ) (T : ℕ) (k : Kernel τ) : Prop where
  phase : k.gate.phase = (true, none)
  exited : k.exited = true → k.graph.noActiveTasks = true
  within : Within g₀ (fun x => T + g₀.room x) k.graph

/-- The kernel saves before the quit, and gives up on it at `T`. -/
structure Saving (g₀ : Graph τ) (T n : ℕ) (k : Kernel τ) : Prop where
  phase : k.gate.phase = (false, some (n, some .quit))
  alarm : (T, n) ∈ k.alarms
  early : k.graph.now ≤ T
  within : ∀ now : ℕ, k.graph.now = now → Within g₀ (fun x => now + g₀.grace x) k.graph

/-- Runs without a user, in which nothing is late and all that there is to settle is settled. -/
inductive Unattended (k₀ : Kernel τ) : Kernel τ → Prop
  | refl : k₀.Settled → Unattended k₀ k₀
  | tail {k k' : Kernel τ} {m : Option (KernelMessage τ)} : Unattended k₀ k → Step k m k' →
      (∀ msg, m = some msg → msg.command.reports = true) → Punctual k k'.graph.now → k'.Settled → Unattended k₀ k'

theorem Unattended.settled (h : Unattended k₁ k') : k'.Settled := by
  cases h with
  | refl hset => exact hset
  | tail _ _ _ _ hset => exact hset

theorem quitting_or_frozen (hk : k.graph.Orderly) {n : ℕ}
    (hp : k.gate.phase = (true, none) ∨ k.gate.phase = (false, some (n, some .quit)))
    (hr : msg.command.reports = true) :
    (k.dispatched now msg).frozen.isSome = true ∨ (k.dispatched now msg).quitting = true := by
  have hd := dispatches_dispatch (k := { k with graph := { k.graph with now } }) (hk.valid.same rfl rfl rfl rfl) msg
  have hp' : ((({ k with graph := { k.graph with now } } : Kernel τ).dispatch msg).1.gate.phase = (true, none)) ∨
      (({ k with graph := { k.graph with now } } : Kernel τ).dispatch msg).1.gate.phase =
      (false, some (n, some .quit)) := by
    rcases hp with hp | hp
    · exact .inl ((hd.reported (n := n) hr).1 hp)
    · exact ((hd.reported (n := n) hr).2 hp).symm
  rcases hp' with hp | hp
  · exact .inr (phase_out_iff.mp hp).1
  · rw [phase_eq] at hp
    obtain ⟨-, hhold⟩ := Prod.mk.inj hp
    obtain ⟨f, hf, -⟩ := Option.map_eq_some_iff.mp hhold
    refine .inl ?_
    show (({ k with graph := { k.graph with now } } : Kernel τ).dispatch msg).1.graph.frozen.isSome = true
    rw [hf]
    rfl

omit [Task τ] in
theorem phase_taken {m : KernelMessage τ} (h : k.Takes now m k₁) : k₁.gate.phase = k.gate.phase := by
  rw [phase_eq, phase_eq, h.graph]

omit [Task τ] in
theorem open_of_phase {n : ℕ} (hp : k.gate.phase = (true, none) ∨ k.gate.phase = (false, some (n, some .quit)))
    (hq : k.graph.quitting = true) : k.graph.frozen = none := by
  rcases hp with hp | hp
  · exact (phase_out_iff.mp hp).2
  · rw [phase_eq, hq] at hp
    cases hp

theorem quitting_step (hset : k.Settled) (hs₀ : g₀.view.Shape) (hk : Reachable k) (h : Quitting g₀ T k)
    {m : Option (KernelMessage τ)} (hs : Step k m k') (hr : ∀ msg, m = some msg → msg.command.reports = true)
    (hp : Punctual k k'.graph.now) : Quitting g₀ T k' := by
  obtain ⟨hq, hf⟩ := phase_out_iff.mp h.phase
  cases m with
  | none =>
    cases hs with
    | alloc => exact ⟨h.phase, h.exited, h.within.winds (.of_clock rfl rfl) rfl⟩
  | some msg =>
    have hr := hr msg rfl
    have hv := valid_of_reachable hk
    obtain ⟨g, hg, -, -, -, hd⟩ := (steps_gate hv hs).dispatches
    obtain ⟨now, k₂, htakes, rfl⟩ := step_iff.mp hs
    have ho : k₂.graph.Orderly := htakes.graph ▸ hk.orderly
    have hphase : k₂.gate.phase = (true, none) := (phase_taken htakes).trans h.phase
    have hwound : Wound k₂ now (k₂.turn now msg) := reported_turn ho hr (open_of_phase (n := 0) (.inl hphase))
      (quitting_or_frozen ho (n := 0) (.inl hphase) hr)
    have hnow := now_turn (k := k₂) ho.valid now msg
    rw [hnow] at hp
    have hle : k.exited = false ∧ k.graph.now ≤ now := by cases htakes <;> exact ⟨‹_›, ‹_›⟩
    have hwaits := within_waits hset hk hle.1 hf hq hs₀ h.within hle.2 hp
    rw [← htakes.graph] at hwaits
    exact ⟨(hd.reported (n := 0) hr).1 (hg.trans h.phase), hwound.exited, hwaits.winds hwound.winds hwound.edges⟩

theorem saving_step (hs₀ : g₀.view.Shape) {n : ℕ} (hk : Reachable k) (h : Saving g₀ T n k)
    {m : Option (KernelMessage τ)} (hs : Step k m k') (hr : ∀ msg, m = some msg → msg.command.reports = true)
    (hp : Punctual k k'.graph.now) : Saving g₀ T n k' ∨ Quitting g₀ T k' := by
  cases m with
  | none =>
    cases hs with
    | alloc => exact .inl ⟨h.phase, h.alarm, h.early, fun now hn => (h.within now hn).winds (.of_clock rfl rfl) rfl⟩
  | some msg =>
    have hr := hr msg rfl
    have hv := valid_of_reachable hk
    obtain ⟨g, hg, -, -, -, hd⟩ := (steps_gate hv hs).dispatches
    obtain ⟨now, k₂, htakes, rfl⟩ := step_iff.mp hs
    have ho : k₂.graph.Orderly := htakes.graph ▸ hk.orderly
    have hphase : k₂.gate.phase = (false, some (n, some .quit)) := (phase_taken htakes).trans h.phase
    have hwound : Wound k₂ now (k₂.turn now msg) :=
      reported_turn ho hr (open_of_phase (.inr hphase)) (quitting_or_frozen ho (.inr hphase) hr)
    have hnow := now_turn (k := k₂) ho.valid now msg
    rw [hnow] at hp
    have hle : k.graph.now ≤ now := by cases htakes <;> assumption
    have hlater := (h.within k.graph.now rfl).later rfl hle
    rw [← htakes.graph] at hlater
    have hwithin : Within g₀ (fun x => now + g₀.grace x) (k₂.turn now msg).graph :=
      hlater.winds hwound.winds hwound.edges
    rcases (hd.reported hr).2 (hg.trans h.phase) with hp' | hp'
    · refine .inl ⟨hp', ?_, ?_, fun now' hn => ?_⟩
      · have halarms : (k₂.turn now msg).alarms = k₂.alarms := (dispatches_turn ho.valid now msg).alarms hr
        rw [halarms]
        cases htakes with
        | replayed | received | expired => exact h.alarm
        | @alarm _ due number =>
          refine (List.mem_erase_of_ne fun he => ?_).mpr h.alarm
          obtain ⟨-, rfl⟩ := Prod.mk.inj he
          -- The freeze timeout of this freeze ends it.
          rcases hd.timeout (n := n) rfl with ⟨-, hout⟩ | ⟨hne, -⟩
          · rw [hp'] at hout
            cases hout
          · rw [hg, h.phase] at hne
            exact hne rfl
      · rw [hnow]
        exact hp.alarms _ h.alarm
      · rw [← hnow.symm.trans hn]
        exact hwithin
    · exact .inr ⟨hp', hwound.exited, hwithin.begins hs₀ (hp.alarms _ h.alarm)⟩

theorem unattended_keeps (hs₀ : g₀.view.Shape) {n : ℕ} (hk : Reachable k₁)
    (h : Saving g₀ T n k₁ ∨ Quitting g₀ T k₁) (hr : Unattended k₁ k') :
    Reachable k' ∧ (Saving g₀ T n k' ∨ Quitting g₀ T k') := by
  induction hr with
  | refl => exact ⟨hk, h⟩
  | tail hrun hs hok hp _ ih =>
    obtain ⟨hreach, ih⟩ := ih
    refine ⟨.step hreach hs, ?_⟩
    rcases ih with ih | ih
    · exact saving_step hs₀ hreach ih hs hok hp
    · exact .inr (quitting_step hrun.settled hs₀ hreach ih hs hok hp)

/-- All that was due by this time has come. -/
structure Caught (k : Kernel τ) (t : ℕ) : Prop where
  now : k.graph.now ≤ t
  timers : ∀ e ∈ k.timers.queue, t < e.due
  alarms : ∀ a ∈ k.alarms, t < a.1
  replay : k.replay = []

omit [Task τ] in
theorem Caught.punctual (h : Caught k t) : Punctual k t :=
  ⟨fun e he => (h.timers e he).le, fun a ha => (h.alarms a ha).le, fun hne => absurd h.replay hne⟩

theorem timer_in_time (hs₀ : g₀.view.Shape) {n : ℕ} (hk : Reachable k') (h : Saving g₀ T n k' ∨ Quitting g₀ T k')
    {e : TimerEntry} (he : e ∈ k'.timers.queue) {task : TaskHandle τ} (htask : k'.graph.tasks.lookup e.id = some task)
    (hs : task.state = .stopping) (hepoch : task.epoch = e.epoch) : e.due ≤ T + g₀.stopWithin := by
  have hclock : k'.graph.clock e.id = some task.clock := by
    rw [clock, htask]
    rfl
  have hstate : task.clock.state = .stopping := hs
  have ha : task.clock.state.isActive = true := by rw [hstate]; rfl
  have hlatest : task.clock.latest k'.graph.now ≤ T + g₀.stopWithin := by
    have hroom := room_le g₀ e.id
    rcases h with h | h
    · obtain ⟨hx, -, hlatest⟩ := (h.within _ rfl).task e.id _ hclock ha
      have hgrace := grace_le_room hs₀ hx
      have hlatest : task.clock.latest k'.graph.now ≤ k'.graph.now + g₀.grace e.id := hlatest
      have hgraced : g₀.grace e.id ≤ g₀.stopWithin := hgrace.trans hroom
      exact hlatest.trans (Nat.add_le_add h.early hgraced)
    · obtain ⟨-, -, hlatest⟩ := h.within.task e.id _ hclock ha
      have hlatest : task.clock.latest k'.graph.now ≤ T + g₀.room e.id := hlatest
      exact hlatest.trans (Nat.add_le_add_left hroom T)
  have htimed : task.clock.deadline.isSome = true := by
    rw [(ticking_of_reachable hk).timely e.id _ hclock, hstate]
    rfl
  obtain ⟨d, hd⟩ := Option.isSome_iff_exists.mp htimed
  have hdue := (prompt_of_reachable hk e he _ hclock).2 hepoch d hd
  rw [Clock.latest_stopping hstate, Clock.alarm, hd, Option.getD_some] at hlatest
  exact hdue.trans ((Nat.le_add_right _ _).trans hlatest)

theorem down_in_time (hset : k'.Settled) (hs₀ : g₀.view.Shape) {n : ℕ} (hk : Reachable k')
    (h : Saving g₀ T n k' ∨ Quitting g₀ T k') (hc : Caught k' t) (hle : T + g₀.stopWithin ≤ t) :
    k'.graph.noActiveTasks = true := by
  rcases h with h | h
  · have halarm := hc.alarms _ h.alarm
    simp only at halarm
    omega
  · cases hx : k'.exited with
    | true => exact h.exited hx
    | false =>
      obtain ⟨hq, hf⟩ := phase_out_iff.mp h.phase
      have hwithin := within_waits hset hk hx hf hq hs₀ h.within hc.now hc.punctual
      unfold noActiveTasks
      rw [decide_eq_true_iff]
      intro x _
      cases htask : k'.graph.tasks.lookup x with
      | none => rfl
      | some task =>
        have hclock : k'.graph.clock x = some task.clock := by
          rw [clock, htask]
          rfl
        by_contra hup
        have ha : task.state.isActive = true := by simpa using hup
        have hlatest : task.clock.latest t ≤ T + g₀.room x := (hwithin.task x task.clock hclock ha).2.2
        have hroom := room_le g₀ x
        have hlater : t < task.clock.latest t := by
          rcases Clock.active_cases (c := task.clock) ha with hs | hr
          · rcases timer_of_stopping hk hx hf hclock hs with ⟨e, hm, hdue⟩ | hreplay
            · have hbefore := (hc.timers e hm).trans_le hdue
              have halarm := (lt_max_iff.mp hbefore).resolve_right (not_lt.mpr hc.now)
              rw [Clock.latest_stopping hs]
              exact (lt_max_of_lt_left halarm).trans_le (Nat.le_add_right _ _)
            · exact absurd hc.replay hreplay
          · rw [Clock.latest_up hr]
            exact Nat.lt_add_of_pos_right task.clock.span_pos
        omega

end runs

section quits

omit [Task τ] in
theorem open_iff : k.gate.phase = (false, none) ↔ k.graph.quitting = false ∧ k.graph.frozen = none := by
  rw [phase_eq, Prod.mk.injEq, Option.map_eq_none_iff]

theorem dispatchNow_finishes (h : ({ k with handled := k.handled ++ [msg] }.runCommand msg).2 = none) :
    k.dispatchNow msg = ({ k with handled := k.handled ++ [msg] }.runCommand msg).1.finishFreeze := by
  unfold dispatchNow
  generalize ({ k with handled := k.handled ++ [msg] } : Kernel τ).runCommand msg = r at h ⊢
  obtain ⟨k', exit⟩ := r
  obtain rfl : exit = none := h
  rfl

theorem quit_stays (hp : k.gate.phase = (false, none)) {save : Bool} (hc : msg.command.quits = some save) :
    (k.dispatch msg).2 = false := by
  have hquit (k : Kernel τ) (save : Bool) (reply : Option ReplyId) (hp : k.gate.phase = (false, none)) :
      (k.quit save reply).2 = false ∧ (k.quit save reply).1.finishFreeze.2 = false := by
    obtain ⟨hq, hf⟩ := open_iff.mp hp
    have hsaving : k.graph.freezingForQuit = false := by
      rw [freezingForQuit, hf]
      rfl
    refine ⟨?_, ?_⟩
    · unfold quit
      split
      · rfl
      · rw [hsaving]
        exact (beginQuit_atOnce k).trans hq
    · by_contra hx
      obtain ⟨hout, hsome⟩ := finishFreeze_atOnce (eq_true_of_ne_false hx)
      have hgate := performs_quit k (c := .quitWithin save 0) rfl reply
      have hphase : (k.quit save reply).1.gate.phase.1 = true ∧ (k.quit save reply).1.gate.phase.2.isSome = true := by
        rw [phase_eq, Option.isSome_map]
        exact ⟨hout, hsome⟩
      generalize (k.quit save reply).1.gate = g at hgate hphase
      cases hgate with
      | plain he => cases he
      | freezes _ he | thaws he | late he | timesOut he => cases he
      | saves => exact Bool.false_ne_true (hq.symm.trans hphase.1)
      | drops => cases hphase.2
      | quits => simp [phase, Gate.quit, gate, hf] at hphase
  obtain ⟨sender, command⟩ := msg
  obtain ⟨-, hf⟩ := open_iff.mp hp
  have hnow (msg : KernelMessage τ) (save : Bool) (reply : Option ReplyId)
      (hr : { k with handled := k.handled ++ [msg] }.runCommand msg =
        (({ k with handled := k.handled ++ [msg] }.quit save reply).1,
          if ({ k with handled := k.handled ++ [msg] }.quit save reply).2 then some true else none)) :
      (k.dispatchNow msg).2 = false := by
    obtain ⟨hstays, hfinish⟩ := hquit { k with handled := k.handled ++ [msg] } save reply hp
    rw [hstays] at hr
    rw [dispatchNow_finishes (congrArg Prod.snd hr), hr]
    exact hfinish
  unfold dispatch
  rw [hf]
  cases command with
  | quit => exact hnow _ true none rfl
  | quitWithoutSave => exact hnow _ false none rfl
  | quitWithin save reply => exact hnow _ save (some reply) rfl
  | _ => cases hc

theorem perform_quits (g : Graph τ) {save : Bool} (hc : msg.command.quits = some save) :
    g.perform msg.sender msg.command = g := by
  obtain ⟨sender, command⟩ := msg
  cases command with
  | quit | quitWithoutSave | quitWithin => rfl
  | _ => cases hc

def quitBound (k : Kernel τ) (save : Bool) : ℕ := (if save && k.save then saveTimeout else 0) + k.graph.stopWithin

theorem quit_turn (h : k.graph.Orderly) (hp : k.gate.phase = (false, none)) {save : Bool}
    (hc : msg.command.quits = some save)
    (hafter : (k.dispatched now msg).frozen.isSome = true ∨ (k.dispatched now msg).quitting = true) :
    Wound k now (k.turn now msg) := by
  have hv : Valid ({ k.graph with now } : Graph τ) := h.valid.same rfl rfl rfl rfl
  have hnow := now_dispatch (k := { k with graph := { k.graph with now } }) hv msg
  refine wound_turn h (quit_stays hp hc) hafter ?_ ?_
  · obtain ⟨g, hcase, ht⟩ := graph_dispatch { k with graph := { k.graph with now } } msg
    rw [perform_quits _ hc, or_self] at hcase
    subst hcase
    exact .of_clock hnow ht.clock
  · have he := edges_dispatch { k with graph := { k.graph with now } } msg
    rw [perform_quits _ hc, or_self] at he
    exact he

theorem quit_begins (h : Reachable k) (hg : k.graph.Graced) (hp : k.gate.phase = (false, none)) {save : Bool}
    (hc : msg.command.quits = some save) (hlive : (save && k.save) = true → k.graph.dead = false)
    (hs : Step k (some msg) k₁)
    (hT : T = k₁.graph.now + if save && k.save then saveTimeout else 0) :
    Saving k.graph T (k.graph.freezes + 1) k₁ ∨ Quitting k.graph T k₁ := by
  have hv := valid_of_reachable h
  have hs₀ : k.graph.view.Shape := hv.sound.shape
  obtain ⟨g, hg', -, -, hfreezes, hd⟩ := (steps_gate hv hs).dispatches
  obtain ⟨now, k₂, htakes, rfl⟩ := step_iff.mp hs
  have ho : k₂.graph.Orderly := htakes.graph ▸ h.orderly
  have hphase : k₂.gate.phase = (false, none) := (phase_taken htakes).trans hp
  have hsave : k₂.save = k.save := by cases htakes <;> rfl
  have hafter : (k₂.dispatched now msg).frozen.isSome = true ∨ (k₂.dispatched now msg).quitting = true := by
    have hd₂ := dispatches_dispatch (k := { k₂ with graph := { k₂.graph with now } })
      (ho.valid.same rfl rfl rfl rfl) msg
    have hlive₂ : (save && k₂.save) = true → ({ k₂.graph with now } : Graph τ).dead = false := by
      rw [hsave, htakes.graph, dead_now]
      exact hlive
    rcases hd₂.opens hc hphase hlive₂ with hp₂ | ⟨-, hp₂⟩
    · exact .inr (phase_out_iff.mp hp₂).1
    · rw [phase_eq] at hp₂
      obtain ⟨f, hf, -⟩ := Option.map_eq_some_iff.mp (Prod.mk.inj hp₂).2
      exact .inl (Option.isSome_iff_exists.mpr ⟨f, hf⟩)
  have hwound := quit_turn ho hphase hc hafter
  have hnow := now_turn (k := k₂) ho.valid now msg
  have hle : k.graph.now ≤ now := by cases htakes <;> assumption
  have hlater := (hg.within k.graph.now rfl).later rfl hle
  rw [← htakes.graph] at hlater
  have hwithin : Within k.graph (fun x => now + k.graph.grace x) (k₂.turn now msg).graph := by
    rw [← htakes.graph]
    exact hlater.winds hwound.winds hwound.edges
  rcases hd.opens hc (hg'.trans hp) hlive with hp' | ⟨hsaves, hp'⟩
  · refine .inr ⟨hp', hwound.exited, hwithin.begins hs₀ ?_⟩
    rw [hT, hnow]
    exact Nat.le_add_right _ _
  · obtain ⟨rfl, hk⟩ := Bool.and_eq_true_iff.mp hsaves
    have hnumber : g.freezes = k.graph.freezes := hfreezes
    refine .inl ⟨hnumber ▸ hp', ?_, ?_, fun now' hn => ?_⟩
    · have halarm := hd.alarm hc hk (hg'.trans hp)
      rw [hT, hk, ← hnumber]
      exact halarm
    · rw [hT]
      exact Nat.le_add_right _ _
    · rw [← hnow.symm.trans hn]
      exact hwithin

theorem answers_freeze (g : Graph τ) : (g.freeze .quit).answers = g.answers := by
  have hone (number : ℕ) (acc : Graph τ × Option TaskId) (id : TaskId) :
    (freezeTask number acc id).1.answers = acc.1.answers := by
    unfold freezeTask
    cases acc.1.tasks.lookup id <;> rfl
  have hall : (g.freezeTasks (g.freezes + 1)).1.answers = g.answers := by
    unfold freezeTasks
    exact Fold.foldl_keeps (p := fun acc : Graph τ × Option TaskId => acc.1.answers) (fun acc id => hone _ acc id) _ _
  unfold Graph.freeze
  simp only
  generalize g.freezeTasks (g.freezes + 1) = r at hall ⊢
  obtain ⟨g₁, dead⟩ := r
  cases dead <;> exact hall

theorem quit_answers (hp : k.gate.phase = (false, none)) (save : Bool) (reply : ReplyId) :
    (reply, .within (k.quitBound save)) ∈ (k.quit save (some reply)).1.graph.answers := by
  obtain ⟨hq, hf⟩ := open_iff.mp hp
  have hsaving : k.graph.freezingForQuit = false := by
    rw [freezingForQuit, hf]
    rfl
  unfold quit quitBound
  split
  · rename_i hs
    rw [if_pos (by rw [hs.1, hs.2.1]; rfl)]
    show _ ∈ ((k.answerIf (some reply) _).graph.freeze .quit).answers
    rw [answers_freeze]
    exact List.mem_append_right _ (List.mem_singleton_self _)
  · rename_i hs
    have hnot : (save && k.save) = false := by
      by_contra hboth
      obtain ⟨h₁, h₂⟩ := Bool.and_eq_true_iff.mp (eq_true_of_ne_false hboth)
      exact hs ⟨h₁, h₂, by rw [hq]; rfl⟩
    rw [hsaving, hnot]
    simp only [Bool.false_eq_true, if_false]
    refine List.mem_append_right _ (List.mem_singleton.mpr ?_)
    have hbound : k.beginQuit.1.graph.stopWithin = k.graph.stopWithin :=
      stopWithin_congr (Timeless.beginQuit k.graph).clock (edges_beginQuit k)
    rw [beginQuit_atOnce, hq, hbound]
    simp

def deaf : Kernel ChannelTask := ((Kernel.new .sorted 0).registerTaskRegistration lone).1

def deafQuit : Kernel ChannelTask := (deaf.afterDispatch.arrive ⟨0, .quitWithoutSave⟩).turn 1 ⟨0, .quitWithoutSave⟩

/-- The first timer comes due, at its time. -/
def ring (k : Kernel ChannelTask) : Kernel ChannelTask :=
  match k.timers.queue with
  | [] => k
  | entry :: _ => ({ k with timers := k.timers.expire entry }.arrive entry.timeout).turn entry.due entry.timeout

theorem Unattended.ring {k k₁ : Kernel ChannelTask} (h : Unattended k₁ k) (hx : k.exited = false) (hr : k.replay = [])
    (ha : k.alarms = []) (hq : k.timers.queue.length = 1) (hn : ∀ e ∈ k.timers.queue, k.graph.now ≤ e.due)
    (hnow : ∀ e ∈ k.timers.queue, k.ring.graph.now = e.due) (hset : k.ring.Settled) : Unattended k₁ k.ring := by
  obtain ⟨e, he⟩ := List.length_eq_one_iff.mp hq
  have hm : e ∈ k.timers.queue := by rw [he]; exact List.mem_singleton_self e
  have hring : k.ring = ({ k with timers := k.timers.expire e }.arrive e.timeout).turn e.due e.timeout := by
    unfold Kernel.ring
    rw [he]
  have hstep : Step k (some e.timeout) k.ring := hring ▸ .expired hx (hn e hm) hr hm le_rfl
  refine h.tail hstep (fun msg hmsg => ?_) ⟨fun e' he' => ?_, fun a ha' => ?_, fun hne => absurd hr hne⟩ hset
  · rw [← Option.some.inj hmsg]
    rfl
  · rw [he, List.mem_singleton] at he'
    rw [he', hnow e hm]
  · rw [ha] at ha'
    cases ha'

end quits

end Kernel

end Dekit
