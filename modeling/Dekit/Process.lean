import Dekit.Message

namespace Dekit.Process

/-- What a ready check looks at: the lines of output, something to ask again and again, or a socket. -/
inductive ReadyCheck where
  | log
  | probe
  | sdNotify
deriving DecidableEq

/-- What a task tracks about its current child besides the process itself; `exits` is whether the reaper still
has an exit to hand over. -/
structure Instance where
  exits : Bool
  exitInfo : Option ExitInfo
  stdoutEof : Bool
  readySent : Bool
  stopSent : Bool
deriving DecidableEq

def Instance.default : Instance := ⟨false, none, false, false, false⟩

/-- What the loop of a process task goes on with; `process` is the child's pid, `probe` whether a ready check waits,
and `sdNotify` whether its socket is bound. -/
structure Main where
  ready : Option ReadyCheck
  process : Option ℕ
  instance' : Instance
  frozen : Bool
  probe : Bool
  sdNotify : Bool
deriving DecidableEq

/-- What a start or a freeze meets outside of the task: what the ready check of the run's definition is, if it can be
read, whether the socket can be bound, the child's pid, if it starts, an exit that waits, and a snapshot. -/
structure World where
  config : Option (Option ReadyCheck)
  binds : Bool
  spawned : Option ℕ
  exit : Option ExitInfo
  snapshot : Snap.TaskKind

/-- What a read of the child's output gives; with output, whether the log check finds its text. -/
inductive Output where
  | bytes (found : Bool)
  | eof
  | failed

/-- What the loop wakes for. -/
inductive Next where
  | cmd (cmd : TaskCmd) (world : World)
  | read (output : Output)
  | exited (info : Option ExitInfo)
  | ready
  | dragScroll
  | syncTimeout

/-- What a process task sends the kernel. -/
inductive Report where
  | effect (effect : TaskEffect)
  | frozen (number : ℕ) (snapshot : Snap.TaskKind)
deriving DecidableEq

namespace Main

def new (ready : Option ReadyCheck) : Main := ⟨ready, none, .default, false, false, false⟩

/-- The ready check that waits, unless the instance is ready, is being stopped, or has exited. -/
def startProbe (m : Main) : Bool :=
  if m.instance'.readySent || m.instance'.stopSent || m.instance'.exitInfo.isSome then false
  else match m.ready with
    | some .probe => true
    | some .sdNotify => m.sdNotify
    | some .log | none => false

/-- Binds the socket of a check that needs one, and keeps it; a run without lets it go. -/
def sdNotifySpec (m : Main) (binds : Bool) : Option Main :=
  if m.ready ≠ some .sdNotify then some { m with sdNotify := false }
  else if m.sdNotify || binds then some { m with sdNotify := true }
  else none

def stopped (m : Main) (info : ExitInfo) : Main × List Report := (m, [.effect (.stopped info)])

/-- A start with no child: from the definition the kernel sends, or from the last one. -/
def start (m : Main) (run : Option Run) (world : World) : Main × List Report :=
  let config := match run with
    | some _ => world.config.map (fun ready => { m with ready })
    | none => some m
  match config with
  | none => m.stopped .error
  | some m => match m.sdNotifySpec world.binds with
    | none => m.stopped .error
    | some m => match world.spawned with
      | none => m.stopped .error
      | some pid =>
        let m := { m with instance' := { Instance.default with exits := true } }
        ({ m with process := some pid, probe := m.startProbe }, [.effect .started])

def exited (m : Main) (info : ExitInfo) : Main :=
  { m with instance' := { m.instance' with exitInfo := some info, exits := false } }

/-- A stop or a kill: the child is signalled, if there is one. -/
def stop (m : Main) : Main := { m with probe := false, instance' := { m.instance' with stopSent := true } }

/-- The snapshot of a freeze carries an exit that is already queued. -/
def freeze (m : Main) (number : ℕ) (world : World) : Main × List Report :=
  let m := match world.exit with
    | some info => if m.instance'.exits then m.exited info else m
    | none => m
  ({ m with frozen := true, probe := false }, [.frozen number world.snapshot])

def take (m : Main) (cmd : TaskCmd) (world : World) : Main × List Report :=
  match cmd with
  | .start run => if m.process.isNone then m.start run world else (m, [])
  | .stop | .kill => (m.stop, [])
  | .freeze number => m.freeze number world
  | .thaw =>
    let m := { m with frozen := false }
    (if m.process.isSome then { m with probe := m.startProbe } else m, [])
  | .msg _ => (m, [])

def logReady (m : Main) (found : Bool) : Main × Bool :=
  if m.ready = some .log ∧ !m.instance'.readySent ∧ found then
    ({ m with instance' := { m.instance' with readySent := true } }, true)
  else (m, false)

def eof (m : Main) : Main := { m with instance' := { m.instance' with stdoutEof := true } }

/-- What the loop does for what it wakes for; none where it can't wake for it. -/
def wake (m : Main) : Next → Option (Main × List Report)
  | .cmd cmd world => some (m.take cmd world)
  | .read output =>
    if m.process.isSome && !m.instance'.stdoutEof && !m.frozen then
      match output with
      | .bytes found => match m.logReady found with
        | (m, true) => some (m, [.effect .ready])
        | (m, false) => some (m, [])
      | .eof | .failed => some (m.eof, [])
    else none
  | .exited info =>
    if m.instance'.exits then match info with
      | some info => some ({ m.exited info with probe := false }, [])
      | none => some ({ m with instance' := { m.instance' with exits := false } }, [])
    else none
  | .ready =>
    if m.probe then
      some ({ m with probe := false, instance' := { m.instance' with readySent := true } }, [.effect .ready])
    else none
  | .dragScroll | .syncTimeout => some (m, [])

/-- The child is gone when both its exit and the end of its output were seen. -/
def reap (m : Main) : Main × List Report :=
  if m.instance'.stdoutEof then match m.instance'.exitInfo, m.process with
    | some info, some _ => ({ m with process := none }, [.effect (.stopped info)])
    | _, _ => (m, [])
  else (m, [])

def turn (m : Main) (next : Next) : Option (Main × List Report) :=
  (m.wake next).map fun (m, reports) => (m.reap.1, reports ++ m.reap.2)

end Main

def Report.effect? : Report → Option TaskEffect
  | effect e => some e
  | frozen _ _ => none

def effects (reports : List Report) : List TaskEffect := reports.filterMap Report.effect?

@[simp] theorem effects_nil : effects [] = [] := rfl

@[simp] theorem effects_effect (e : TaskEffect) (reports : List Report) :
    effects (.effect e :: reports) = e :: effects reports := rfl

@[simp] theorem effects_frozen (number : ℕ) (snapshot : Snap.TaskKind) (reports : List Report) :
    effects (.frozen number snapshot :: reports) = effects reports := rfl

theorem effects_append (l l' : List Report) : effects (l ++ l') = effects l ++ effects l' := List.filterMap_append

/-- Whether a task says that its child is over. -/
def isEnd : TaskEffect → Bool
  | .stopped _ => true
  | _ => false

def ends (es : List TaskEffect) : ℕ := es.countP isEnd

theorem ends_append (es es' : List TaskEffect) : ends (es ++ es') = ends es + ends es' := List.countP_append

theorem ends_zero {es : List TaskEffect} (h : ∀ e ∈ es, e = .started ∨ e = .ready) : ends es = 0 := by
  refine List.countP_eq_zero.mpr fun e he => ?_
  rcases h e he with rfl | rfl <;> decide

/-- Whether it tells the task to end its child. -/
def Next.stops : Next → Bool
  | .cmd .stop _ | .cmd .kill _ => true
  | _ => false

namespace Main

variable {m m' : Main} {reports : List Report}

def Probing (m : Main) : Prop := m.probe = true → m.process.isSome = true ∧ m.instance'.exitInfo = none

theorem Probing.off (h : m.probe = false) : Probing m := by
  intro hp
  rw [h] at hp
  cases hp

theorem exitInfo_startProbe (h : m.startProbe = true) : m.instance'.exitInfo = none := by
  unfold startProbe at h
  split at h
  · cases h
  · rename_i hn
    cases hx : m.instance'.exitInfo with
    | none => rfl
    | some info => simp [hx] at hn

theorem probing_new (ready : Option ReadyCheck) : Probing (new ready) := .off rfl

/-- What a start comes to: a child, or a report that there is none. -/
structure Launched (m : Main) (reports : List Report) : Prop where
  probing : Probing m
  reap : m.reap = (m, [])
  reported : (m.process = none ∧ ∃ info, effects reports = [.stopped info]) ∨
    (m.process.isSome = true ∧ m.instance'.stopSent = false ∧ effects reports = [.started])

theorem probe_off (hm : Probing m) (hp : m.process = none) : m.probe = false := by
  cases hb : m.probe with
  | false => rfl
  | true =>
    have hsome := (hm hb).1
    rw [hp] at hsome
    cases hsome

theorem launched_stopped (hp : m.process = none) (hprobe : m.probe = false) (info : ExitInfo) :
    Launched (m.stopped info).1 (m.stopped info).2 := by
  -- The last child's instance stays behind, and there is no process that could be over.
  refine ⟨.off hprobe, ?_, .inl ⟨hp, info, rfl⟩⟩
  unfold stopped reap
  rw [hp]
  split
  · cases m.instance'.exitInfo <;> rfl
  · rfl

theorem kept_sdNotifySpec {binds : Bool} (h : m.sdNotifySpec binds = some m') :
    m'.process = m.process ∧ m'.probe = m.probe := by
  unfold sdNotifySpec at h
  split at h
  · obtain rfl := Option.some.inj h
    exact ⟨rfl, rfl⟩
  · split at h
    · obtain rfl := Option.some.inj h
      exact ⟨rfl, rfl⟩
    · cases h

theorem launched_start (hp : m.process = none) (hprobe : m.probe = false) (run : Option Run) (world : World) :
    Launched (m.start run world).1 (m.start run world).2 := by
  unfold start
  extract_lets config
  cases hc : config with
  | none => exact launched_stopped hp hprobe _
  | some n =>
    have hn : n.process = none ∧ n.probe = false := by
      cases run with
      | none =>
        obtain rfl := Option.some.inj hc
        exact ⟨hp, hprobe⟩
      | some run =>
        obtain ⟨ready, -, rfl⟩ := Option.map_eq_some_iff.mp hc
        exact ⟨hp, hprobe⟩
    simp only
    cases hs : n.sdNotifySpec world.binds with
    | none => exact launched_stopped hn.1 hn.2 _
    | some n' =>
      obtain ⟨hp', hprobe'⟩ := kept_sdNotifySpec hs
      simp only
      cases world.spawned with
      | none => exact launched_stopped (hp'.trans hn.1) (hprobe'.trans hn.2) _
      | some pid => exact ⟨fun _ => ⟨rfl, rfl⟩, rfl, .inr ⟨rfl, rfl, rfl⟩⟩

/-- What waking does to the child of a task that does not start one: it goes on, with reports of readiness at most. -/
structure Kept (m : Main) (stops : Bool) (m' : Main) (reports : List Report) : Prop where
  process : m'.process = m.process
  probing : Probing m'
  stopSent : m'.instance'.stopSent = (m.instance'.stopSent || stops)
  ready : ∀ e ∈ effects reports, e = .ready
  silent : m.process = none → effects reports = []

theorem Kept.quiet (hp : m'.process = m.process) (hm : Probing m')
    (hs : m'.instance'.stopSent = m.instance'.stopSent) : Kept m false m' [] :=
  ⟨hp, hm, by rw [hs, Bool.or_false], fun _ he => (List.not_mem_nil he).elim, fun _ => rfl⟩

theorem Kept.heard (hp : m'.process = m.process) (hm : Probing m') (hsome : m.process.isSome = true)
    (hs : m'.instance'.stopSent = m.instance'.stopSent) : Kept m false m' [.effect .ready] := by
  refine ⟨hp, hm, by rw [hs, Bool.or_false], fun e he => List.mem_singleton.mp he, fun hn => ?_⟩
  rw [hn] at hsome
  cases hsome

theorem kept_freeze (m : Main) (number : ℕ) (world : World) :
    Kept m false (m.freeze number world).1 (m.freeze number world).2 := by
  have hsaved {n : Main} (hp : n.process = m.process) (hs : n.instance'.stopSent = m.instance'.stopSent) :
      Kept m false { n with frozen := true, probe := false } [.frozen number world.snapshot] :=
    ⟨hp, .off rfl, by rw [Bool.or_false]; exact hs, fun _ he => (List.not_mem_nil he).elim, fun _ => rfl⟩
  unfold freeze
  cases world.exit with
  | none => exact hsaved rfl rfl
  | some info =>
    cases hx : m.instance'.exits with
    | false => exact hsaved rfl rfl
    | true => exact hsaved rfl rfl

theorem kept_take (hm : Probing m) {cmd : TaskCmd} {world : World}
    (hn : ∀ run, cmd = .start run → m.process.isSome = true) :
    Kept m (Next.cmd cmd world).stops (m.take cmd world).1 (m.take cmd world).2 := by
  cases cmd with
  | start run =>
    have hsome := hn run rfl
    cases hp : m.process with
    | none =>
      rw [hp] at hsome
      cases hsome
    | some pid =>
      unfold take
      rw [hp]
      exact .quiet rfl hm rfl
  | stop | kill =>
    exact ⟨rfl, .off rfl, (Bool.or_true _).symm, fun _ he => (List.not_mem_nil he).elim, fun _ => rfl⟩
  | freeze number => exact kept_freeze m number world
  | thaw =>
    simp only [take]
    split
    · rename_i hsome
      exact .quiet rfl (fun hprobe => ⟨hsome, exitInfo_startProbe hprobe⟩) rfl
    · exact .quiet rfl hm rfl
  | msg payload => exact .quiet rfl hm rfl

theorem kept_logReady (hm : Probing m) (found : Bool) : (m.logReady found).1.process = m.process ∧
    Probing (m.logReady found).1 ∧ (m.logReady found).1.instance'.stopSent = m.instance'.stopSent := by
  unfold logReady
  split
  · exact ⟨rfl, hm, rfl⟩
  · exact ⟨rfl, hm, rfl⟩

/-- What the loop does for each thing that it wakes for. -/
inductive Woke (m : Main) : Next → Main → List Report → Prop
  | took (cmd : TaskCmd) (world : World) : Woke m (.cmd cmd world) (m.take cmd world).1 (m.take cmd world).2
  | found : m.process.isSome = true → (m.logReady true).2 = true →
      Woke m (.read (.bytes true)) (m.logReady true).1 [.effect .ready]
  | bytes (found : Bool) : (m.logReady found).2 = false → Woke m (.read (.bytes found)) (m.logReady found).1 []
  | eof (output : Output) : Woke m (.read output) m.eof []
  | exited (info : ExitInfo) : Woke m (.exited (some info)) { m.exited info with probe := false } []
  | unreaped : Woke m (.exited none) { m with instance' := { m.instance' with exits := false } } []
  | ready : m.probe = true → Woke m .ready
      { m with probe := false, instance' := { m.instance' with readySent := true } } [.effect .ready]
  | dragScroll : Woke m .dragScroll m []
  | syncTimeout : Woke m .syncTimeout m []

theorem found_logReady {found : Bool} (h : (m.logReady found).2 = true) :
    found = true ∧ m.ready = some .log ∧ m.instance'.readySent = false := by
  unfold logReady at h
  split at h
  · rename_i hc
    refine ⟨hc.2.2, hc.1, ?_⟩
    have hnot := hc.2.1
    cases hr : m.instance'.readySent with
    | false => rfl
    | true => simp [hr] at hnot
  · cases h

theorem woke {next : Next} (h : m.wake next = some (m', reports)) : Woke m next m' reports := by
  cases next with
  | cmd cmd world =>
    obtain ⟨rfl, rfl⟩ := Prod.mk.inj (Option.some.inj h)
    exact .took cmd world
  | read output =>
    simp only [wake] at h
    split at h
    · rename_i hread
      have hsome : m.process.isSome = true := by
        cases hp : m.process with
        | none => simp [hp] at hread
        | some pid => rfl
      cases output with
      | bytes found =>
        simp only at h
        cases hr : (m.logReady found).2 with
        | true =>
          obtain ⟨rfl, -, -⟩ := found_logReady hr
          have he : (m', reports) = ((m.logReady true).1, [.effect .ready]) := by
            generalize m.logReady true = r at hr h
            obtain ⟨n, found⟩ := r
            subst hr
            exact (Option.some.inj h).symm
          obtain ⟨rfl, rfl⟩ := Prod.mk.inj he
          exact .found hsome hr
        | false =>
          have he : (m', reports) = ((m.logReady found).1, []) := by
            generalize m.logReady found = r at hr h
            obtain ⟨n, found⟩ := r
            subst hr
            exact (Option.some.inj h).symm
          obtain ⟨rfl, rfl⟩ := Prod.mk.inj he
          exact .bytes found hr
      | eof | failed =>
        cases h
        exact .eof _
    · cases h
  | exited info =>
    simp only [wake] at h
    split at h
    · cases info with
      | some info =>
        cases h
        exact .exited info
      | none =>
        cases h
        exact .unreaped
    · cases h
  | ready =>
    simp only [wake] at h
    split at h
    · rename_i hprobe
      cases h
      exact .ready hprobe
    · cases h
  | dragScroll =>
    cases h
    exact .dragScroll
  | syncTimeout =>
    cases h
    exact .syncTimeout

theorem kept_wake (hm : Probing m) {next : Next} (h : m.wake next = some (m', reports))
    (hn : ∀ run world, next = .cmd (.start run) world → m.process.isSome = true) :
    Kept m next.stops m' reports := by
  cases woke h with
  | took cmd world =>
    apply kept_take hm
    intro run hrun
    apply hn run world
    rw [hrun]
  | found hsome =>
    have hl := kept_logReady hm true
    exact .heard hl.1 hl.2.1 hsome hl.2.2
  | bytes found =>
    have hl := kept_logReady hm found
    exact .quiet hl.1 hl.2.1 hl.2.2
  | eof | unreaped | dragScroll | syncTimeout => exact .quiet rfl hm rfl
  | exited info => exact .quiet rfl (.off rfl) rfl
  | ready hprobe => exact .heard rfl (.off rfl) (hm hprobe).1 rfl

theorem reap_cases (hm : Probing m) : m.reap = (m, []) ∨
    (m.process.isSome = true ∧ m.reap.1.process = none ∧ Probing m.reap.1 ∧
      ∃ info, effects m.reap.2 = [.stopped info]) := by
  unfold reap
  split
  · cases hx : m.instance'.exitInfo with
    | none => exact .inl rfl
    | some info =>
      cases hp : m.process with
      | none => exact .inl rfl
      | some pid =>
        refine .inr ⟨rfl, rfl, fun hprobe => ?_, info, rfl⟩
        have hnone := (hm hprobe).2
        rw [hx] at hnone
        cases hnone
  · exact .inl rfl

theorem turn_eq {next : Next} (h : m.turn next = some (m', reports)) :
    ∃ n rs, m.wake next = some (n, rs) ∧ m' = n.reap.1 ∧ reports = rs ++ n.reap.2 := by
  obtain ⟨r, hr, he⟩ := Option.map_eq_some_iff.mp h
  cases he
  exact ⟨r.1, r.2, hr, rfl, rfl⟩

theorem turn_idle (hm : Probing m) (hp : m.process = none) {next : Next} (h : m.turn next = some (m', reports))
    (hn : ∀ run world, next ≠ .cmd (.start run) world) :
    m'.process = none ∧ Probing m' ∧ effects reports = [] := by
  obtain ⟨n, rs, hw, rfl, rfl⟩ := turn_eq h
  have hk := kept_wake hm hw fun run world hstart => absurd hstart (hn run world)
  have hnone : n.process = none := hk.process.trans hp
  rcases reap_cases hk.probing with hr | ⟨hsome, -⟩
  · rw [hr, List.append_nil]
    exact ⟨hnone, hk.probing, hk.silent hp⟩
  · rw [hnone] at hsome
    cases hsome

theorem turn_start (hm : Probing m) (hp : m.process = none) {run : Option Run} {world : World}
    (h : m.turn (.cmd (.start run) world) = some (m', reports)) : Probing m' ∧
      ((m'.process = none ∧ ∃ info, effects reports = [.stopped info]) ∨
        (m'.process.isSome = true ∧ m'.instance'.stopSent = false ∧ effects reports = [.started])) := by
  obtain ⟨n, rs, hw, rfl, rfl⟩ := turn_eq h
  have hstart : m.start run world = (n, rs) := by
    have ht : m.take (.start run) world = (n, rs) := Option.some.inj hw
    unfold take at ht
    rw [hp] at ht
    exact ht
  have hl : Launched (m.start run world).1 (m.start run world).2 := launched_start hp (probe_off hm hp) run world
  rw [hstart] at hl
  rw [hl.reap, List.append_nil]
  exact ⟨hl.probing, hl.reported⟩

theorem turn_child (hm : Probing m) (hp : m.process.isSome = true) {next : Next}
    (h : m.turn next = some (m', reports)) : Probing m' ∧ ∃ readies, (∀ e ∈ readies, e = .ready) ∧
      ((m'.process.isSome = true ∧ m'.instance'.stopSent = (m.instance'.stopSent || next.stops) ∧
          effects reports = readies) ∨
        (m'.process = none ∧ ∃ info, effects reports = readies ++ [.stopped info])) := by
  obtain ⟨n, rs, hw, rfl, rfl⟩ := turn_eq h
  have hk := kept_wake hm hw fun _ _ _ => hp
  rcases reap_cases hk.probing with hr | ⟨-, hnone, hprobing, info, hinfo⟩
  · rw [hr, List.append_nil]
    refine ⟨hk.probing, effects rs, hk.ready, .inl ⟨?_, hk.stopSent, rfl⟩⟩
    simp only
    rw [hk.process]
    exact hp
  · refine ⟨hprobing, effects rs, hk.ready, .inr ⟨hnone, info, ?_⟩⟩
    rw [effects_append, hinfo]

theorem turn_probing (hm : Probing m) {next : Next} (h : m.turn next = some (m', reports)) : Probing m' := by
  by_cases hp : m.process.isSome = true
  · exact (turn_child hm hp h).1
  · have hnone : m.process = none := by
      cases hc : m.process with
      | none => rfl
      | some pid =>
        rw [hc] at hp
        exact absurd rfl hp
    cases next with
    | cmd cmd world =>
      cases cmd with
      | start run => exact (turn_start hm hnone h).1
      | _ => exact (turn_idle hm hnone h fun _ _ hc => by cases hc).2.1
    | _ => exact (turn_idle hm hnone h fun _ _ hc => by cases hc).2.1

end Main

end Dekit.Process
