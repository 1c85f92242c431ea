import Dekit.Accord

namespace Dekit

namespace Kernel

variable {τ : Type} {k : Kernel (ChannelTask ⊕ τ)} {id : TaskId} {p : Phase} {v : Option (List TaskCmd × Phase)}

/-- What a task with a channel was sent. -/
def sent (k : Kernel (ChannelTask ⊕ τ)) (id : TaskId) : List TaskCmd :=
  match k.graph.tasks.lookup id with
  | some t => match t.task with
    | .inl task => task.sent
    | .inr _ => []
  | none => []

/-- A kernel that gives up a task that was killed. -/
def GivesUp (id : TaskId) (k : Kernel (ChannelTask ⊕ τ)) (command : KernelCommand (ChannelTask ⊕ τ)) : Prop :=
  ∃ epoch t, command = .stateTimeout id epoch ∧ k.graph.tasks.lookup id = some t ∧ t.epoch = epoch ∧
    t.state = .stopping ∧ t.killed = true

theorem spoken_sent {sent : List TaskCmd} (h : k.graph.Spoken id (some (sent, p))) :
    ∃ t, k.graph.tasks.lookup id = some t ∧ t.state.phase = p ∧ k.sent id = sent := by
  obtain ⟨hv⟩ | ⟨hv, -⟩ := h
  obtain ⟨t, ht, he⟩ := Option.map_eq_some_iff.mp hv
  obtain ⟨htask, hstate⟩ := Prod.mk.inj he
  refine ⟨t, ht, by rw [hstate], ?_⟩
  unfold Kernel.sent
  simp only [ht, htask]

theorem spoken_mem (h : k.graph.Spoken id v) (hid : id ∈ k.graph.tasks) : ∃ sent p, v = some (sent, p) := by
  cases h with
  | absent hv =>
    obtain ⟨t, ht⟩ := Finmap.mem_iff.mp hid
    rw [Graph.voice, ht] at hv
    cases hv
  | line => exact ⟨_, _, rfl⟩

variable [Task τ] {k' : Kernel (ChannelTask ⊕ τ)} {msg : Option (KernelMessage (ChannelTask ⊕ τ))} {c : Turning}

theorem talks_step (h : Step k msg k') (hm : ∀ m, msg = some m → Graph.Aloof id k.graph m.sender m.command)
    (hc : ∀ m, msg = some m → Graph.turning m.command = c) : Graph.Talks c id k.graph k'.graph := by
  have hturn {k₁ : Kernel (ChannelTask ⊕ τ)} {m : KernelMessage (ChannelTask ⊕ τ)} (hk : k₁.graph = k.graph)
      (hmsg : msg = some m) (now : Instant) : Graph.Talks c id k.graph (k₁.turn now m).graph := by
    have hm₁ : Graph.Aloof id k₁.graph m.sender m.command := by
      rw [hk]
      exact hm m hmsg
    have ht : Graph.Talks (Graph.turning m.command) id k₁.graph (k₁.turn now m).graph := talks_turn hm₁ now
    rwa [hk, hc m hmsg] at ht
  cases h with
  | replayed => exact hturn (by rfl) (by rfl) _
  | received msg => exact hturn (by rfl) (by rfl) _
  | expired => exact hturn (by rfl) (by rfl) _
  | alarm => exact hturn (by rfl) (by rfl) _
  | alloc => exact Graph.Talks.of_hush (.of_eq rfl rfl)

theorem spoken_step {sent : List TaskCmd} (hs : k.graph.Spoken id (some (sent, p))) (h : Step k msg k')
    (hm : ∀ m, msg = some m → Graph.Aloof id k.graph m.sender m.command) (hid : id ∈ k'.graph.tasks) :
    ∃ cs q, p.after cs = some q ∧ k'.graph.Spoken id (some (sent ++ cs, q)) := by
  have htalks : ∃ c, Graph.Talks c id k.graph k'.graph := by
    cases msg with
    | none => exact ⟨.plain, talks_step h hm fun _ hn => by cases hn⟩
    | some m =>
      refine ⟨Graph.turning m.command, talks_step h hm fun m' hm' => ?_⟩
      rw [Option.some.inj hm']
  obtain ⟨c, htalks⟩ := htalks
  obtain ⟨v, hv, hspeaks⟩ := htalks _ hs
  obtain ⟨sent', q, rfl⟩ := spoken_mem hv hid
  cases hspeaks with
  | more hq => exact ⟨_, _, hq, hv⟩

theorem spoken_registered {m : KernelMessage (ChannelTask ⊕ τ)} (hs : k.graph.Spoken id none) (h : Step k (some m) k')
    (hm : Graph.Aloof id k.graph m.sender m.command) (hid : id ∈ k'.graph.tasks) :
    ∃ cs q, Phase.down.after cs = some q ∧ k'.graph.Spoken id (some (cs, q)) := by
  have htalks : Graph.Talks (Graph.turning m.command) id k.graph k'.graph := by
    refine talks_step h (fun m' hm' => ?_) fun m' hm' => ?_
    · obtain rfl := Option.some.inj hm'
      exact hm
    · rw [Option.some.inj hm']
  obtain ⟨v, hv, hspeaks⟩ := htalks _ hs
  obtain ⟨sent', q, rfl⟩ := spoken_mem hv hid
  generalize Graph.turning m.command = c at hspeaks
  cases hspeaks with
  | opens hq => exact ⟨_, _, hq, hv⟩

end Kernel

namespace Process

def Report.command {τ : Type} : Report → KernelCommand τ
  | .effect .started => .taskStarted
  | .effect .ready => .taskReady
  | .effect (.stopped info) => .taskStopped info
  | .frozen number snapshot => .taskFrozen number snapshot

theorem report_command {τ : Type} (effect : TaskEffect) :
    ((Report.effect effect).command : KernelCommand τ).report = some effect := by
  cases effect <;> rfl

/-- The kernel and one of its tasks: how many of the commands it was sent the task took, and its reports under way. -/
structure Pair (τ : Type) where
  kernel : Kernel (ChannelTask ⊕ τ)
  taken : ℕ
  main : Main
  reports : List Report

namespace Pair

variable {τ : Type}

def cmds (p : Pair τ) (id : TaskId) : List TaskCmd := (p.kernel.sent id).drop p.taken

/-- A registration, or a copy of tasks that are there, that gives a task its channel. -/
def Opens (id : TaskId) (g : Graph (ChannelTask ⊕ τ)) (sender : TaskId) : KernelCommand (ChannelTask ⊕ τ) → Prop
  | .registerTask r _ => Graph.Opened id r
  | .registerTasks rs _ => ∀ r, .task r ∈ rs → Graph.Opened id r
  | .duplicate selector _ _ => Graph.Copied id g (g.mutableMatchingIds sender selector)
  | _ => False

variable [Task τ]

/-- The kernel takes what is no report of the task, or the first of its reports; the task takes the first command, or
wakes for something else. -/
inductive Step (id : TaskId) : Pair τ → Option (KernelMessage (ChannelTask ⊕ τ)) → Pair τ → Prop
  | kernel {p : Pair τ} {msg : Option (KernelMessage (ChannelTask ⊕ τ))} {k : Kernel (ChannelTask ⊕ τ)} :
      p.kernel.Step msg k → (∀ m, msg = some m → m.sender = id → m.command.report = none) →
      Step id p msg { p with kernel := k }
  | hears {p : Pair τ} {report : Report} {rest : List Report} {now : Instant} :
      p.kernel.exited = false → p.kernel.graph.now ≤ now → p.kernel.replay = [] → p.reports = report :: rest →
      Step id p none { p with
        kernel := (p.kernel.arrive ⟨id, report.command⟩).turn now ⟨id, report.command⟩, reports := rest }
  | takes {p : Pair τ} {cmd : TaskCmd} {rest : List TaskCmd} {world : World} {m : Main} {reports : List Report} :
      p.cmds id = cmd :: rest → p.main.turn (.cmd cmd world) = some (m, reports) →
      Step id p none { p with taken := p.taken + 1, main := m, reports := p.reports ++ reports }
  | wakes {p : Pair τ} {next : Next} {m : Main} {reports : List Report} :
      (∀ cmd world, next ≠ .cmd cmd world) → p.main.turn next = some (m, reports) →
      Step id p none { p with main := m, reports := p.reports ++ reports }

/-- A task that was just registered, or made as a copy, and whose loop begins. -/
inductive Begins (id : TaskId) : Pair τ → Prop
  | registered {k k' : Kernel (ChannelTask ⊕ τ)} {msg : KernelMessage (ChannelTask ⊕ τ)} (ready : Option ReadyCheck) :
      k.graph.Spoken id none → k.Step (some msg) k' → Opens id k.graph msg.sender msg.command → id ∈ k'.graph.tasks →
      Begins id ⟨k', 0, .new ready, []⟩

/-- Runs in which the task is not removed, and is not given up while it stops. -/
inductive Run (id : TaskId) (p₀ : Pair τ) : Pair τ → Prop
  | refl : Run id p₀ p₀
  | tail {p p' : Pair τ} {msg : Option (KernelMessage (ChannelTask ⊕ τ))} : Run id p₀ p → Step id p msg p' →
      id ∈ p'.kernel.graph.tasks → (∀ m, msg = some m → ¬ p.kernel.GivesUp id m.command) → Run id p₀ p'

/-- What both sides have of the task fits with what is under way between them. -/
structure Fits (id : TaskId) (p : Pair τ) : Prop where
  probing : p.main.Probing
  taken : p.taken ≤ (p.kernel.sent id).length
  accord : ∃ phase, p.kernel.graph.Spoken id (some (p.kernel.sent id, phase)) ∧
    Accord (p.cmds id) p.main (effects p.reports) phase

variable {id : TaskId} {p p' p₀ : Pair τ}

theorem fits_begins (h : Begins id p) : Fits id p := by
  cases h with
  | registered ready hs hstep hopens hid =>
    rename_i k k' msg
    have hm : Graph.Aloof id k.graph msg.sender msg.command := by
      cases hc : msg.command with
      | registerTask r ack =>
        rw [hc] at hopens
        exact fun _ => hopens
      | registerTasks rs ack =>
        rw [hc] at hopens
        exact fun _ => hopens
      | duplicate selector req reply =>
        rw [hc] at hopens
        exact fun _ => hopens
      | _ =>
        rw [hc] at hopens
        cases hopens
    obtain ⟨cs, q, hq, hv⟩ := Kernel.spoken_registered hs hstep hm hid
    obtain ⟨t, ht, hphase, hsent⟩ := Kernel.spoken_sent hv
    refine ⟨Main.probing_new ready, Nat.zero_le _, q, by rw [hsent]; exact hv, ?_⟩
    have hrest : Accord [] (Main.new ready) [] .down := .rest rfl rfl rfl rfl
    show Accord ((k'.sent id).drop 0) _ _ _
    rw [List.drop_zero, hsent]
    exact hrest.more hq

omit [Task τ] in
theorem Fits.moved {k : Kernel (ChannelTask ⊕ τ)} {cs : List TaskCmd} {q r : Phase} {reports : List Report}
    (hprobing : p.main.Probing) (htaken : p.taken ≤ (p.kernel.sent id).length)
    (haccord : Accord (p.cmds id) p.main (effects reports) q) (hq : q.after cs = some r)
    (hk : k.graph.Spoken id (some (p.kernel.sent id ++ cs, r))) :
    Fits id { p with kernel := k, reports := reports } := by
  obtain ⟨t, -, -, hsent⟩ := Kernel.spoken_sent hk
  refine ⟨hprobing, ?_, r, ?_, ?_⟩
  · show p.taken ≤ (k.sent id).length
    rw [hsent, List.length_append]
    omega
  · show k.graph.Spoken id (some (k.sent id, r))
    rw [hsent]
    exact hk
  · show Accord ((k.sent id).drop p.taken) p.main (effects reports) r
    rw [hsent, List.drop_append_of_le_length htaken]
    exact haccord.more hq

omit [Task τ] in
theorem aloof_of_foreign {k : Kernel (ChannelTask ⊕ τ)} {msg : KernelMessage (ChannelTask ⊕ τ)}
    (hmem : id ∈ k.graph.tasks)
    (hown : msg.sender = id → msg.command.report = none) (hup : ¬ k.GivesUp id msg.command) :
    Graph.Aloof id k.graph msg.sender msg.command := by
  cases hc : msg.command with
  | registerTask r ack => exact fun hno => absurd hmem hno
  | registerTasks rs ack => exact fun hno => absurd hmem hno
  | duplicate selector req reply => exact fun hno => absurd hmem hno
  | stateTimeout x epoch =>
    intro hx t ht he hs
    subst hx
    by_contra hkilled
    exact hup ⟨epoch, t, hc, ht, he, hs, Bool.eq_true_of_not_eq_false hkilled⟩
  | taskStarted | taskStopped info =>
    intro hsender
    have hno := hown hsender
    rw [hc] at hno
    cases hno
  | _ => trivial

theorem fits_kernel {k : Kernel (ChannelTask ⊕ τ)} {msg : Option (KernelMessage (ChannelTask ⊕ τ))} (h : Fits id p)
    (hk : p.kernel.Step msg k) (hown : ∀ m, msg = some m → m.sender = id → m.command.report = none)
    (hup : ∀ m, msg = some m → ¬ p.kernel.GivesUp id m.command) (hid : id ∈ k.graph.tasks) :
    Fits id { p with kernel := k } := by
  obtain ⟨hprobing, htaken, phase, hspoken, haccord⟩ := h
  obtain ⟨t, ht, -, -⟩ := Kernel.spoken_sent hspoken
  have hmem : id ∈ p.kernel.graph.tasks := Finmap.mem_of_lookup_eq_some ht
  have hm : ∀ m, msg = some m → Graph.Aloof id p.kernel.graph m.sender m.command :=
    fun m hm => aloof_of_foreign hmem (hown m hm) (hup m hm)
  obtain ⟨cs, q, hq, hk'⟩ := Kernel.spoken_step hspoken hk hm hid
  exact .moved hprobing htaken haccord hq hk'

theorem fits_hears {report : Report} {rest : List Report} (h : Fits id p) (hreports : p.reports = report :: rest)
    (now : Instant) : Fits id { p with
      kernel := (p.kernel.arrive ⟨id, report.command⟩).turn now ⟨id, report.command⟩, reports := rest } := by
  obtain ⟨hprobing, htaken, phase, hspoken, haccord⟩ := h
  rw [hreports] at haccord
  have harrive : (p.kernel.arrive ⟨id, report.command⟩).graph.Spoken id (some (p.kernel.sent id, phase)) := hspoken
  cases report with
  | effect effect =>
    obtain ⟨cs, q, hq, hk⟩ := Kernel.spoken_report harrive (report_command effect) now
    exact .moved hprobing htaken haccord.told hq hk
  | frozen number snapshot =>
    let msg : KernelMessage (ChannelTask ⊕ τ) := ⟨id, .taskFrozen number snapshot⟩
    have hm : Graph.Aloof id (p.kernel.arrive msg).graph msg.sender msg.command := trivial
    have htalks : Graph.Talks .plain id (p.kernel.arrive msg).graph ((p.kernel.arrive msg).turn now msg).graph :=
      Kernel.talks_turn hm now
    obtain ⟨v, hv, hspeaks⟩ := htalks _ harrive
    cases hspeaks with
    | more hq => exact .moved hprobing htaken haccord hq hv

omit [Task τ] in
theorem fits_takes {cmd : TaskCmd} {rest : List TaskCmd} {world : World} {m : Main} {reports : List Report}
    (h : Fits id p) (hcmds : p.cmds id = cmd :: rest) (hturn : p.main.turn (.cmd cmd world) = some (m, reports)) :
    Fits id { p with taken := p.taken + 1, main := m, reports := p.reports ++ reports } := by
  obtain ⟨hprobing, htaken, phase, hspoken, haccord⟩ := h
  rw [hcmds] at haccord
  refine ⟨Main.turn_probing hprobing hturn, ?_, phase, hspoken, ?_⟩
  · have hlen : 0 < (p.cmds id).length := by
      rw [hcmds]
      exact Nat.succ_pos _
    unfold cmds at hlen
    rw [List.length_drop] at hlen
    show p.taken + 1 ≤ (p.kernel.sent id).length
    omega
  · show Accord ((p.kernel.sent id).drop (p.taken + 1)) m (effects (p.reports ++ reports)) phase
    have hdrop : (p.kernel.sent id).drop (p.taken + 1) = rest := by
      rw [← List.drop_drop]
      show (p.cmds id).drop 1 = rest
      rw [hcmds, List.drop_one, List.tail_cons]
    rw [hdrop, effects_append]
    exact haccord.takes hprobing hturn

omit [Task τ] in
theorem fits_wakes {next : Next} {m : Main} {reports : List Report} (h : Fits id p)
    (hnext : ∀ cmd world, next ≠ .cmd cmd world) (hturn : p.main.turn next = some (m, reports)) :
    Fits id { p with main := m, reports := p.reports ++ reports } := by
  obtain ⟨hprobing, htaken, phase, hspoken, haccord⟩ := h
  refine ⟨Main.turn_probing hprobing hturn, htaken, phase, hspoken, ?_⟩
  show Accord (p.cmds id) m (effects (p.reports ++ reports)) phase
  rw [effects_append]
  exact haccord.wakes hprobing hnext hturn

theorem fits_step {msg : Option (KernelMessage (ChannelTask ⊕ τ))} (h : Fits id p) (hstep : Step id p msg p')
    (hid : id ∈ p'.kernel.graph.tasks) (hup : ∀ m, msg = some m → ¬ p.kernel.GivesUp id m.command) : Fits id p' := by
  cases hstep with
  | kernel hk hown => exact fits_kernel h hk hown hup hid
  | hears _ _ _ hreports => exact fits_hears h hreports _
  | takes hcmds hturn => exact fits_takes h hcmds hturn
  | wakes hnext hturn => exact fits_wakes h hnext hturn

theorem fits_run (hb : Begins id p₀) (hr : Run id p₀ p) : Fits id p := by
  induction hr with
  | refl => exact fits_begins hb
  | tail _ hstep hid hup ih => exact fits_step ih hstep hid hup

/-- Over every order of what the kernel and a task with a child take from each other: a start only reaches a task
without a child, a report only a kernel that has the task active, each active task is owed just one of a start, a child
and an end, and with nothing under way both sides have the task in the same phase. -/
theorem one_child (hb : Begins id p₀) (hr : Run id p₀ p) : ∃ t, p.kernel.graph.tasks.lookup id = some t ∧
    (∀ run rest, p.cmds id = .start run :: rest → p.main.process = none) ∧
    (effects p.reports ≠ [] → t.state.isActive = true) ∧
    starts (p.cmds id) + (if p.main.process.isSome then 1 else 0) + ends (effects p.reports) =
      (if t.state.isActive then 1 else 0) ∧
    (p.cmds id = [] → effects p.reports = [] → t.state.phase = p.main.phase) := by
  obtain ⟨-, -, phase, hspoken, haccord⟩ := fits_run hb hr
  obtain ⟨t, ht, hphase, -⟩ := Kernel.spoken_sent hspoken
  rw [← hphase] at haccord
  refine ⟨t, ht, fun run rest hcmds => ?_, fun he => ?_, ?_, fun hcmds he => ?_⟩
  · rw [hcmds] at haccord
    exact vacant haccord
  · exact Bool.eq_true_of_not_eq_false (mt TaskState.phase_down.mpr (heeded haccord he))
  · rw [single haccord]
    cases hactive : t.state.isActive with
    | true => rw [if_pos rfl, if_neg (mt TaskState.phase_down.mp (by rw [hactive]; decide))]
    | false => rw [if_neg Bool.false_ne_true, if_pos (TaskState.phase_down.mpr hactive)]
  · rw [hcmds, he] at haccord
    exact (agreed haccord).symm

def worker : TaskRegistration (ChannelTask ⊕ ChannelTask) where
  taskId := 1
  allocated := Nat.one_ne_zero
  def' := { pinned := true }
  factory _ := .inl ⟨[], false⟩

def enroll : KernelMessage (ChannelTask ⊕ ChannelTask) := ⟨initTaskId, .registerTask worker 0⟩

def employed : Pair ChannelTask :=
  ⟨((Kernel.new .sorted 0).arrive enroll).turn 0 enroll, 0, .new none, []⟩

def spawning : World := ⟨none, true, some 7, none, ⟨0⟩⟩

def working : Pair ChannelTask :=
  { employed with
    taken := 1
    main := { Main.new none with process := some 7, instance' := { Instance.default with exits := true } }
    reports := [.effect .started] }

def dismiss : KernelMessage (ChannelTask ⊕ ChannelTask) := ⟨initTaskId, .act .stop (.id 1) none⟩

def crossing : Pair ChannelTask := { working with kernel := (working.kernel.arrive dismiss).turn 0 dismiss }

theorem begins_employed : Begins 1 employed :=
  .registered none (.absent (by decide) (by decide)) (.received enroll rfl le_rfl rfl) (fun _ => rfl) (by decide)

theorem run_crossing : Run 1 employed crossing := by
  have hcmds : employed.cmds 1 = [.start none] := rfl
  have hturn : employed.main.turn (.cmd (.start none) spawning) = some (working.main, working.reports) := rfl
  have htakes : Step 1 employed none working := .takes hcmds hturn
  have hstops : Step 1 working (some dismiss) crossing := by
    refine .kernel (.received dismiss (by decide) (by decide) (by decide)) ?_
    intro m hm hsender
    rw [← Option.some.inj hm]
    rfl
  refine .tail (.tail .refl htakes (by decide) fun _ hm => by cases hm) hstops (by decide) ?_
  rintro m hm ⟨epoch, t, hc, -⟩
  rw [← Option.some.inj hm] at hc
  cases hc

theorem one_child_crossing : ∃ t, crossing.kernel.graph.tasks.lookup 1 = some t ∧
    (∀ run rest, crossing.cmds 1 = .start run :: rest → crossing.main.process = none) ∧
    (effects crossing.reports ≠ [] → t.state.isActive = true) ∧
    starts (crossing.cmds 1) + (if crossing.main.process.isSome then 1 else 0) + ends (effects crossing.reports) =
      (if t.state.isActive then 1 else 0) ∧
    (crossing.cmds 1 = [] → effects crossing.reports = [] → t.state.phase = crossing.main.phase) :=
  one_child begins_employed run_crossing

end Pair

end Process

end Dekit
