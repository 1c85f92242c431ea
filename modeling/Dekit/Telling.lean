import Dekit.Process

namespace Dekit.Process

/-- What a task has told of its child so far. -/
inductive Told where
  | absent
  | started
  | ready
deriving DecidableEq

namespace Told

/-- What may be told next: a start that fails is told of as a stop. -/
def tell : Told → TaskEffect → Option Told
  | absent, .started => some started
  | started, .ready => some ready
  | _, .stopped _ => some absent
  | _, _ => none

def tells (t : Told) (es : List TaskEffect) : Option Told := es.foldlM tell t

variable {t t' : Told} {es es' : List TaskEffect} {e : TaskEffect}

theorem tells_nil : t.tells [] = some t := rfl

theorem tells_one (h : t.tell e = some t') : t.tells [e] = some t' := by
  rw [tells, List.foldlM_cons, h]
  rfl

theorem tells_append (h : t.tells es = some t') : t.tells (es ++ es') = t'.tells es' := by
  rw [tells, List.foldlM_append, ← tells, h]
  rfl

end Told

def Report.number? : Report → Option ℕ
  | effect _ => none
  | frozen number _ => some number

/-- The number of the freeze that it takes, if it is one. -/
def Next.freeze? : Next → Option ℕ
  | .cmd (.freeze number) _ => some number
  | _ => none

def Next.isStart : Next → Bool
  | .cmd (.start _) _ => true
  | _ => false

namespace Main

variable {m m' m₀ : Main} {reports : List Report}

def told (m : Main) : Told :=
  if m.process.isNone then .absent else if m.instance'.readySent then .ready else .started

/-- A ready check that waits is one of a child that is neither ready nor gone, and not a check of its lines. -/
def Armed (m : Main) : Prop := m.probe = true → m.process.isSome = true ∧ m.instance'.exitInfo = none ∧
  m.instance'.readySent = false ∧ m.ready ≠ some .log

/-- What a step tells leads from what was told to what its child is. -/
structure Tells (m : Main) (m' : Main) (reports : List Report) : Prop where
  armed : Armed m'
  told : m.told.tells (effects reports) = some m'.told

theorem Armed.off (h : m.probe = false) : Armed m := by
  intro hp
  rw [h] at hp
  cases hp

theorem Armed.idle (ha : Armed m) (hp : m.process = none) : m.probe = false := by
  cases hb : m.probe with
  | false => rfl
  | true =>
    have hsome := (ha hb).1
    rw [hp] at hsome
    cases hsome

theorem told_none (hp : m.process = none) : m.told = .absent := by
  rw [told, hp]
  rfl

theorem told_some (hp : m.process.isSome = true) : m.told = if m.instance'.readySent then .ready else .started := by
  unfold told
  cases hc : m.process with
  | none =>
    rw [hc] at hp
    cases hp
  | some pid => rfl

theorem startProbe_armed (h : m.startProbe = true) :
    m.instance'.exitInfo = none ∧ m.instance'.readySent = false ∧ m.ready ≠ some .log := by
  refine ⟨exitInfo_startProbe h, ?_, ?_⟩
  · cases hr : m.instance'.readySent with
    | false => rfl
    | true => simp [startProbe, hr] at h
  · intro hlog
    simp [startProbe, hlog] at h

theorem Tells.quiet (hp : m'.process = m.process) (hr : m'.instance'.readySent = m.instance'.readySent)
    (ha : Armed m') (he : effects reports = []) : Tells m m' reports := by
  refine ⟨ha, ?_⟩
  rw [he, Told.tells_nil, Main.told, Main.told, hp, hr]

theorem Tells.heard (hp : m'.process = m.process) (hsome : m.process.isSome = true)
    (hr : m.instance'.readySent = false) (hr' : m'.instance'.readySent = true) (ha : Armed m') :
    Tells m m' [.effect .ready] := by
  refine ⟨ha, Told.tells_one ?_⟩
  rw [told_some hsome, hr, told_some (by rw [hp]; exact hsome), hr']
  rfl

theorem tells_stopped (hp : m.process = none) (hp' : m'.process = none) (hprobe : m'.probe = false) (info : ExitInfo) :
    Tells m (m'.stopped info).1 (m'.stopped info).2 := by
  refine ⟨.off hprobe, Told.tells_one ?_⟩
  rw [told_none hp, told_none (m := (m'.stopped info).1) hp']
  rfl

theorem tells_start (ha : Armed m) (hp : m.process = none) (run : Option Run) (world : World) :
    Tells m (m.start run world).1 (m.start run world).2 := by
  have hprobe := ha.idle hp
  unfold start
  extract_lets config
  cases hc : config with
  | none => exact tells_stopped hp hp hprobe _
  | some n =>
    have hn : n.process = none ∧ n.probe = false := by
      cases run with
      | none =>
        obtain rfl := Option.some.inj hc
        exact ⟨hp, hprobe⟩
      | some run =>
        obtain ⟨ready, -, rfl⟩ := Option.map_eq_some_iff.mp hc
        exact ⟨hp, hprobe⟩
    simp only
    cases hs : n.sdNotifySpec world.binds with
    | none => exact tells_stopped hp hn.1 hn.2 _
    | some n' =>
      obtain ⟨hp', hprobe'⟩ := kept_sdNotifySpec hs
      simp only
      cases world.spawned with
      | none => exact tells_stopped hp (hp'.trans hn.1) (hprobe'.trans hn.2) _
      | some pid =>
        refine ⟨fun hb => ⟨rfl, startProbe_armed hb⟩, Told.tells_one ?_⟩
        rw [told_none hp]
        rfl

theorem tells_freeze (m : Main) (number : ℕ) (world : World) :
    Tells m (m.freeze number world).1 (m.freeze number world).2 := by
  unfold freeze
  cases world.exit with
  | none => exact .quiet rfl rfl (.off rfl) rfl
  | some info =>
    cases hx : m.instance'.exits with
    | false => exact .quiet rfl rfl (.off rfl) rfl
    | true => exact .quiet rfl rfl (.off rfl) rfl

theorem tells_take (ha : Armed m) (cmd : TaskCmd) (world : World) :
    Tells m (m.take cmd world).1 (m.take cmd world).2 := by
  cases cmd with
  | start run =>
    unfold take
    cases hp : m.process with
    | none => exact tells_start ha hp run world
    | some pid => exact .quiet rfl rfl ha rfl
  | stop | kill => exact .quiet rfl rfl (.off rfl) rfl
  | freeze number => exact tells_freeze m number world
  | thaw =>
    simp only [take]
    split
    · rename_i hsome
      exact .quiet rfl rfl (fun hb => ⟨hsome, startProbe_armed hb⟩) rfl
    · exact .quiet rfl rfl ha rfl
  | msg payload => exact .quiet rfl rfl ha rfl

theorem tells_found (ha : Armed m) (hsome : m.process.isSome = true) (h : (m.logReady true).2 = true) :
    Tells m (m.logReady true).1 [.effect .ready] := by
  obtain ⟨-, hlog, hr⟩ := found_logReady h
  have hoff : m.probe = false := by
    cases hb : m.probe with
    | false => rfl
    | true => exact absurd hlog (ha hb).2.2.2
  unfold logReady
  split
  · exact .heard rfl hsome hr rfl (.off hoff)
  · rename_i hno
    exact absurd ⟨hlog, by rw [hr]; rfl, rfl⟩ hno

theorem logReady_unfound {found : Bool} (h : (m.logReady found).2 = false) : (m.logReady found).1 = m := by
  unfold logReady at h ⊢
  split at h
  · cases h
  · rename_i hno
    rw [if_neg hno]

theorem tells_wake (ha : Armed m) {next : Next} (h : m.wake next = some (m', reports)) : Tells m m' reports := by
  cases woke h with
  | took cmd world => exact tells_take ha cmd world
  | found hsome hfound => exact tells_found ha hsome hfound
  | bytes found hunfound =>
    rw [logReady_unfound hunfound]
    exact .quiet rfl rfl ha rfl
  | eof | unreaped | dragScroll | syncTimeout => exact .quiet rfl rfl ha rfl
  | exited info => exact .quiet rfl rfl (.off rfl) rfl
  | ready hb => exact .heard rfl (ha hb).1 (ha hb).2.2.1 rfl (.off rfl)

theorem tells_reap (ha : Armed m) : Tells m m.reap.1 m.reap.2 := by
  unfold reap
  split
  · cases hx : m.instance'.exitInfo with
    | none => exact .quiet rfl rfl ha rfl
    | some info =>
      cases hp : m.process with
      | none => exact .quiet rfl rfl ha rfl
      | some pid =>
        have hoff : m.probe = false := by
          cases hb : m.probe with
          | false => rfl
          | true =>
            have hnone := (ha hb).2.1
            rw [hx] at hnone
            cases hnone
        refine ⟨.off hoff, Told.tells_one ?_⟩
        rw [told_none (m := { m with process := none }) rfl]
        cases m.told <;> rfl
  · exact .quiet rfl rfl ha rfl

theorem tells_turn (ha : Armed m) {next : Next} (h : m.turn next = some (m', reports)) : Tells m m' reports := by
  obtain ⟨n, rs, hw, rfl, rfl⟩ := turn_eq h
  have hwake := tells_wake ha hw
  have hreap := tells_reap hwake.armed
  refine ⟨hreap.armed, ?_⟩
  rw [effects_append, Told.tells_append hwake.told]
  exact hreap.told

theorem number_start (run : Option Run) (world : World) : (m.start run world).2.filterMap Report.number? = [] := by
  unfold start
  extract_lets config
  cases config with
  | none => rfl
  | some n =>
    simp only
    cases n.sdNotifySpec world.binds with
    | none => rfl
    | some n' =>
      simp only
      cases world.spawned with
      | none => rfl
      | some pid => rfl

theorem number_take (cmd : TaskCmd) (world : World) :
    (m.take cmd world).2.filterMap Report.number? = (Next.cmd cmd world).freeze?.toList := by
  cases cmd with
  | start run =>
    unfold take
    cases m.process.isNone with
    | true => exact number_start run world
    | false => rfl
  | freeze number => rfl
  | stop | kill | thaw | msg => rfl

theorem number_reap (m : Main) : m.reap.2.filterMap Report.number? = [] := by
  unfold reap
  split
  · cases m.instance'.exitInfo with
    | none => rfl
    | some info =>
      cases m.process with
      | none => rfl
      | some pid => rfl
  · rfl

theorem number_wake {next : Next} (h : m.wake next = some (m', reports)) :
    reports.filterMap Report.number? = next.freeze?.toList := by
  cases woke h with
  | took cmd world => exact number_take cmd world
  | _ => rfl

theorem frozen_turn {next : Next} (h : m.turn next = some (m', reports)) :
    reports.filterMap Report.number? = next.freeze?.toList := by
  obtain ⟨n, rs, hw, rfl, rfl⟩ := turn_eq h
  rw [List.filterMap_append, number_wake hw, number_reap, List.append_nil]

def alive (m : Main) : ℕ := if m.process.isSome then 1 else 0

theorem alive_none (h : m.process = none) : m.alive = 0 := by
  rw [alive, h]
  rfl

theorem alive_some (h : m.process.isSome = true) : m.alive = 1 := if_pos h

theorem Armed.probing (ha : Armed m) : Probing m := fun hb => ⟨(ha hb).1, (ha hb).2.1⟩

theorem ends_readies {es : List TaskEffect} (h : ∀ e ∈ es, e = .ready) : ends es = 0 :=
  ends_zero fun e he => .inr (h e he)

theorem owed_turn (hm : Probing m) {next : Next} (h : m.turn next = some (m', reports)) :
    ends (effects reports) + m'.alive ≤ m.alive + if next.isStart then 1 else 0 := by
  cases hp : m.process with
  | none =>
    rw [alive_none hp]
    have hidle (hn : ∀ run world, next ≠ .cmd (.start run) world) : ends (effects reports) + m'.alive = 0 := by
      obtain ⟨hp', -, he⟩ := turn_idle hm hp h hn
      rw [he, alive_none hp']
      rfl
    cases next with
    | cmd cmd world =>
      cases cmd with
      | start run =>
        obtain ⟨-, ⟨hp', info, he⟩ | ⟨hp', -, he⟩⟩ := turn_start hm hp h
        · rw [he, alive_none hp']
          exact le_rfl
        · rw [he, alive_some hp']
          exact le_rfl
      | _ =>
        rw [hidle fun _ _ hc => by cases hc]
        exact Nat.zero_le _
    | _ =>
      rw [hidle fun _ _ hc => by cases hc]
      exact Nat.zero_le _
  | some pid =>
    have hsome : m.process.isSome = true := by
      rw [hp]
      rfl
    rw [alive_some hsome]
    obtain ⟨-, readies, hr, ⟨hp', -, he⟩ | ⟨hp', info, he⟩⟩ := turn_child hm hsome h
    · rw [he, ends_readies hr, alive_some hp']
      omega
    · have hone : ends [TaskEffect.stopped info] = 1 := rfl
      rw [he, ends_append, ends_readies hr, hone, alive_none hp']
      omega

/-- What the loop wakes for, one after another, and what it reports meanwhile. -/
inductive Runs (m₀ : Main) : List Next → Main → List Report → Prop
  | refl : Runs m₀ [] m₀ []
  | tail {nexts : List Next} {m m' : Main} {next : Next} {reports reports' : List Report} :
      Runs m₀ nexts m reports → m.turn next = some (m', reports') →
      Runs m₀ (nexts ++ [next]) m' (reports ++ reports')

theorem tells_run (ha : Armed m₀) {nexts : List Next} (h : Runs m₀ nexts m reports) : Tells m₀ m reports := by
  induction h with
  | refl => exact ⟨ha, Told.tells_nil⟩
  | tail _ hturn ih =>
    have hstep := tells_turn ih.armed hturn
    refine ⟨hstep.armed, ?_⟩
    rw [effects_append, Told.tells_append ih.told]
    exact hstep.told

theorem frozen_run {nexts : List Next} (h : Runs m₀ nexts m reports) :
    reports.filterMap Report.number? = nexts.filterMap Next.freeze? := by
  induction h with
  | refl => rfl
  | tail _ hturn ih =>
    rw [List.filterMap_append, List.filterMap_append, ih, frozen_turn hturn]
    congr 1

theorem owed_run (ha : Armed m₀) {nexts : List Next} (h : Runs m₀ nexts m reports) :
    ends (effects reports) + m.alive ≤ m₀.alive + nexts.countP Next.isStart := by
  induction h with
  | refl => exact Nat.le_of_eq (Nat.zero_add _)
  | tail hrun hturn ih =>
    have hstep := owed_turn (tells_run ha hrun).armed.probing hturn
    rw [effects_append, ends_append, List.countP_append, List.countP_singleton]
    omega

/-- In every order of what it wakes for, a task tells of each child in turn that it started, then at most once that it is
ready, then that it stopped, and of what its child is now; it never tells of more ends than starts it took; and it answers
each freeze, in order. -/
theorem reports_in_order {ready : Option ReadyCheck} {nexts : List Next} (h : Runs (new ready) nexts m reports) :
    Told.absent.tells (effects reports) = some m.told ∧
      ends (effects reports) + m.alive ≤ nexts.countP Next.isStart ∧
      reports.filterMap Report.number? = nexts.filterMap Next.freeze? := by
  have howed := owed_run (.off rfl) h
  rw [alive_none (rfl : (new ready).process = none), Nat.zero_add] at howed
  exact ⟨(tells_run (.off rfl) h).told, howed, frozen_run h⟩

def calm : World := ⟨none, true, some 7, none, ⟨0⟩⟩

/-- A freeze that is thawed, and then a child that is ready and exits. -/
def serving : List Next := [.cmd (.freeze 3) calm, .cmd .thaw calm, .cmd (.start none) calm, .read (.bytes true),
  .exited (some (.ofCode 0)), .read .eof]

def served : Main := ⟨some .log, none, ⟨false, some (.ofCode 0), true, true, false⟩, false, false, false⟩

def servedReports : List Report := [.frozen 3 ⟨0⟩, .effect .started, .effect .ready, .effect (.stopped (.ofCode 0))]

theorem runs_served : Runs (new (some .log)) serving served servedReports := by
  have hnext {m₀ m : Main} {nexts : List Next} {reports : List Report} (h : Runs m₀ nexts m reports) (next : Next)
      {r : Main × List Report} (ht : m.turn next = some r) : Runs m₀ (nexts ++ [next]) r.1 (reports ++ r.2) :=
        .tail h ht
  have h₁ := hnext (hnext (.refl : Runs (new (some .log)) [] _ _) (.cmd (.freeze 3) calm) rfl) (.cmd .thaw calm) rfl
  have h₂ := hnext (hnext h₁ (.cmd (.start none) calm) rfl) (.read (.bytes true)) rfl
  exact hnext (hnext h₂ (.exited (some (.ofCode 0))) rfl) (.read .eof) rfl

theorem reports_in_order_served : Told.absent.tells (effects servedReports) = some served.told ∧
    ends (effects servedReports) + served.alive ≤ serving.countP Next.isStart ∧
    servedReports.filterMap Report.number? = serving.filterMap Next.freeze? :=
  reports_in_order runs_served

end Main

end Dekit.Process
