import Mathlib.Logic.Function.Basic
import Dekit.Task

/-! `unix_processes_waiter.rs`: the one reaper of a runner's children, among the steps of the system around it. -/

namespace Dekit

abbrev Pid := ℕ

/-- What comes of a call: a listener is called, one is dropped for another, a signal is sent. -/
inductive WaiterEvent (φ : Type)
  | called (f : φ) (info : ExitInfo)
  | dropped (f : φ)
  | sent (pid : Pid) (sig : ℤ) (group : Bool)

structure UnixProcessesWaiter (φ : Type) where
  listeners : Pid → Option φ
  /-- Exits reaped before their child is registered, each with its place in the reap order. -/
  unclaimed : Pid → Option (ℕ × ExitInfo)
  /-- Exits reaped so far. -/
  reaped : ℕ
  paused : Bool

namespace UnixProcessesWaiter

variable {φ : Type} (w : UnixProcessesWaiter φ)

def start (paused : Bool) : UnixProcessesWaiter φ := ⟨fun _ => none, fun _ => none, 0, paused⟩

def mark : ℕ := w.reaped

def insertListener (pid : Pid) (f : φ) : UnixProcessesWaiter φ × List (WaiterEvent φ) :=
  ({ w with listeners := Function.update w.listeners pid (some f) }, (w.listeners pid).toList.map .dropped)

def waitFor (pid : Pid) (mark : ℕ) (f : φ) : UnixProcessesWaiter φ × List (WaiterEvent φ) :=
  let removed := { w with unclaimed := Function.update w.unclaimed pid none }
  match w.unclaimed pid with
  | some (place, info) => if mark ≤ place then (removed, [.called f info]) else removed.insertListener pid f
  | none => removed.insertListener pid f

/-- The group the pid leads, or the child alone where there is no such group. -/
def kill (pid : Pid) (sig : ℤ) (group : Bool) : List (WaiterEvent φ) :=
  if (w.listeners pid).isSome then [.sent pid sig group] else []

/-- One turn of the loop of `reap_now`, for an exit that `wait` reports. -/
def reapOne (pid : Pid) (info : ExitInfo) : UnixProcessesWaiter φ × List (WaiterEvent φ) :=
  match w.listeners pid with
  | some listener =>
    ({ w with reaped := w.reaped + 1, listeners := Function.update w.listeners pid none }, [.called listener info])
  | none =>
    ({ w with reaped := w.reaped + 1, unclaimed := Function.update w.unclaimed pid (some (w.reaped, info)) }, [])

def reapNow (exits : List (Pid × ExitInfo)) : UnixProcessesWaiter φ × List (WaiterEvent φ) :=
  if w.paused then (w, [])
  else exits.foldl (fun s e => ((s.1.reapOne e.1 e.2).1, s.2 ++ (s.1.reapOne e.1 e.2).2)) (w, [])

variable {w}

theorem waitFor_listens {pid : Pid} {mark : ℕ} {f : φ} (hl : w.listeners pid = none)
    (hu : ∀ place info, w.unclaimed pid = some (place, info) → place < mark) :
    w.waitFor pid mark f = ({ w with
      unclaimed := Function.update w.unclaimed pid none, listeners := Function.update w.listeners pid (some f) }, []) := by
  unfold waitFor insertListener
  cases he : w.unclaimed pid with
  | none => simp [hl]
  | some exit => simp [hl, Nat.not_le.2 (hu exit.1 exit.2 he)]

theorem waitFor_calls {pid : Pid} {mark place : ℕ} {info : ExitInfo} {f : φ} (hu : w.unclaimed pid = some (place, info))
    (hm : mark ≤ place) :
    w.waitFor pid mark f = ({ w with unclaimed := Function.update w.unclaimed pid none }, [.called f info]) := by
  simp [waitFor, hu, hm]

theorem reapNow_one {pid : Pid} {info : ExitInfo} (hw : w.paused = false) :
    w.reapNow [(pid, info)] = w.reapOne pid info := by
  simp [reapNow, hw]

end UnixProcessesWaiter

namespace Reaper

/-- A child: its pid, its exit once it has one, whether it was reaped, whether it was made before the reaper was started,
and whether it is registered. -/
structure Proc where
  pid : Pid
  exit : Option ExitInfo
  reaped : Bool
  before : Bool
  registered : Bool

/-- A call of `fork` on its way: it has its mark, or a child to register. -/
inductive Call
  | marked (mark : ℕ)
  | forked (mark : ℕ) (proc : ℕ)

/-- The reaper among the children and calls there are; a listener is named after its child. -/
structure World where
  waiter : UnixProcessesWaiter ℕ
  procs : ℕ → Option Proc
  calls : ℕ → Option Call
  events : List (WaiterEvent ℕ)

namespace World

/-- A pid may be used again once its process was reaped and the fork call that returned it has registered it. -/
def Free (s : World) (pid : Pid) : Prop :=
  (∀ p a, s.procs p = some a → a.pid = pid → a.reaped = true) ∧
    ∀ c m p a, s.calls c = some (.forked m p) → s.procs p = some a → a.pid ≠ pid

def setProc (s : World) (p : ℕ) (a : Proc) : World := { s with procs := Function.update s.procs p (some a) }

def setCall (s : World) (c : ℕ) (call : Option Call) : World := { s with calls := Function.update s.calls c call }

def after (s : World) (r : UnixProcessesWaiter ℕ × List (WaiterEvent ℕ)) : World :=
  { s with waiter := r.1, events := s.events ++ r.2 }

/-- A `reap_now` for which `wait` has one exit to report: it is not asked while the reaper is paused. -/
def reapNow (s : World) (p : ℕ) (a : Proc) (info : ExitInfo) : World :=
  if s.waiter.paused then s
  else (s.setProc p { a with reaped := true }).after (s.waiter.reapNow [(a.pid, info)])

end World

inductive Act
  | mark (call : ℕ)
  | fork (call proc : ℕ) (pid : Pid)
  | forkFails (call : ℕ)
  | register (call : ℕ)
  | stray (proc : ℕ) (pid : Pid)
  | exits (proc : ℕ) (info : ExitInfo)
  | adopt (proc : ℕ)
  | reap (proc : ℕ)
  | pause
  | resume
  | kill (pid : Pid) (sig : ℤ) (group : Bool)

/-- One step of the reaper, of a call or of the system. -/
inductive Step (s : World) : Act → World → Prop
  | mark {c : ℕ} : s.calls c = none → Step s (.mark c) (s.setCall c (some (.marked s.waiter.mark)))
  | fork {c m p : ℕ} {pid : Pid} : s.calls c = some (.marked m) → s.procs p = none → s.Free pid →
      Step s (.fork c p pid) ((s.setProc p ⟨pid, none, false, false, false⟩).setCall c (some (.forked m p)))
  | forkFails {c m : ℕ} : s.calls c = some (.marked m) → Step s (.forkFails c) (s.setCall c none)
  | register {c m p : ℕ} {a : Proc} : s.calls c = some (.forked m p) → s.procs p = some a →
      Step s (.register c)
        (((s.setProc p { a with registered := true }).setCall c none).after (s.waiter.waitFor a.pid m p))
  | stray {p : ℕ} {pid : Pid} : s.procs p = none → s.Free pid →
      Step s (.stray p pid) (s.setProc p ⟨pid, none, false, false, false⟩)
  | exits {p : ℕ} {a : Proc} (info : ExitInfo) : s.procs p = some a → a.exit = none →
      Step s (.exits p info) (s.setProc p { a with exit := some info })
  | adopt {p : ℕ} {a : Proc} : s.procs p = some a → a.before = true → a.registered = false → a.reaped = false →
      Step s (.adopt p) ((s.setProc p { a with registered := true }).after (s.waiter.waitFor a.pid 0 p))
  | reap {p : ℕ} {a : Proc} {info : ExitInfo} : s.procs p = some a → a.exit = some info → a.reaped = false →
      Step s (.reap p) (s.reapNow p a info)
  | pause : Step s .pause { s with waiter := { s.waiter with paused := true } }
  | resume : Step s .resume { s with waiter := { s.waiter with paused := false } }
  | kill (pid : Pid) (sig : ℤ) (group : Bool) :
      Step s (.kill pid sig group) (s.after (s.waiter, s.waiter.kill pid sig group))

/-- The reaper has just been started, with the children made before it, none of which is reaped. -/
structure Start (s : World) : Prop where
  waiter : ∃ paused, s.waiter = .start paused
  calls : ∀ c, s.calls c = none
  events : s.events = []
  procs : ∀ p a, s.procs p = some a → a.reaped = false ∧ a.before = true ∧ a.registered = false
  pids : ∀ p q a b, s.procs p = some a → s.procs q = some b → a.pid = b.pid → p = q

/-- The states that steps lead to which are all allowed. -/
inductive Reached (allowed : World → Act → Prop) : World → Prop
  | start {s : World} : Start s → Reached allowed s
  | step {s s' : World} {act : Act} : Reached allowed s → allowed s act → Step s act s' → Reached allowed s'

theorem Reached.then {allowed : World → Act → Prop} {s s' : World} (h : Reached allowed s) (act : Act)
    (hs : Step s act s')
    (hu : allowed s act) : Reached allowed s' := h.step hu hs

/-- A fork gets no pid whose last exit was reaped, with nobody to claim it, since the call took its mark. -/
def Unmixed (s : World) : Act → Prop
  | .fork c _ pid =>
    ∀ m place info, s.calls c = some (.marked m) → s.waiter.unclaimed pid = some (place, info) → place < m
  | _ => True

def heard (p : ℕ) (events : List (WaiterEvent ℕ)) : List ExitInfo :=
  events.filterMap fun
    | .called f info => if f = p then some info else none
    | _ => none

/-- A child's listener was called with its exit if it is registered and reaped, and else not; none was dropped. -/
structure Delivered (s : World) : Prop where
  heard : ∀ p a, s.procs p = some a → heard p s.events = if a.registered && a.reaped then a.exit.toList else []
  dropped : ∀ f, WaiterEvent.dropped f ∉ s.events

theorem heard_append (p : ℕ) (events new : List (WaiterEvent ℕ)) :
    heard p (events ++ new) = heard p events ++ heard p new :=
  List.filterMap_append

/-- What holds between the reaper's tables and the children, whichever steps were taken so far. -/
structure Inv (s : World) : Prop where
  pids : ∀ {p q a b}, s.procs p = some a → s.procs q = some b → a.reaped = false → b.reaped = false →
    a.pid = b.pid → p = q
  exited : ∀ {p a}, s.procs p = some a → a.reaped = true → ∃ info, a.exit = some info
  listening : ∀ {pid f}, s.waiter.listeners pid = some f ↔
    ∃ a, s.procs f = some a ∧ a.pid = pid ∧ a.registered = true ∧ a.reaped = false
  placed : ∀ {pid place info}, s.waiter.unclaimed pid = some (place, info) → place < s.waiter.reaped
  before : ∀ {p a}, s.procs p = some a → a.before = true → a.reaped = false → s.waiter.unclaimed a.pid = none
  marked : ∀ {c m}, s.calls c = some (.marked m) → m ≤ s.waiter.reaped
  forked : ∀ {c m p}, s.calls c = some (.forked m p) →
    ∃ a, s.procs p = some a ∧ a.registered = false ∧ a.before = false ∧ m ≤ s.waiter.reaped
  alone : ∀ {c m p q a b}, s.calls c = some (.forked m p) → s.procs p = some a → s.procs q = some b → b.pid = a.pid →
    q ≠ p → b.reaped = true
  living : ∀ {c m p a place info}, s.calls c = some (.forked m p) → s.procs p = some a → a.reaped = false →
    s.waiter.unclaimed a.pid = some (place, info) → place < m
  early : ∀ {c m p a}, s.calls c = some (.forked m p) → s.procs p = some a → a.reaped = true →
    ∃ place info, s.waiter.unclaimed a.pid = some (place, info) ∧ m ≤ place ∧ a.exit = some info
  apart : ∀ {c c' m m' p p' a b}, s.calls c = some (.forked m p) → s.calls c' = some (.forked m' p') →
    s.procs p = some a → s.procs p' = some b → a.pid = b.pid → c = c'
  silent : ∀ {p}, s.procs p = none → heard p s.events = []
  heard : ∀ {p a}, s.procs p = some a → heard p s.events = if a.registered && a.reaped then a.exit.toList else []
  kept : ∀ {f}, WaiterEvent.dropped f ∉ s.events

attribute [grind →] Inv.pids Inv.exited Inv.placed Inv.before Inv.marked Inv.forked Inv.alone Inv.living Inv.early Inv.apart
  Inv.silent Inv.heard

section

variable {s : World} {c m p : ℕ} {pid : Pid} {a : Proc} {info : ExitInfo}

theorem Inv.setMark (h : Inv s) : Inv (s.setCall c (some (.marked s.waiter.mark))) := by
  constructor
  case listening => exact h.listening
  case kept => exact h.kept
  all_goals simp only [World.setCall, Function.update_apply, UnixProcessesWaiter.mark]
  all_goals grind

theorem Inv.dropCall (h : Inv s) : Inv (s.setCall c none) := by
  constructor
  case listening => exact h.listening
  case kept => exact h.kept
  all_goals simp only [World.setCall, Function.update_apply]
  all_goals grind

theorem Inv.setNew (h : Inv s) (hp : s.procs p = none) (hf : s.Free pid) :
    Inv (s.setProc p ⟨pid, none, false, false, false⟩) := by
  obtain ⟨hreaped, hcalls⟩ := hf
  have hlistening := @h.listening
  constructor
  case kept => exact h.kept
  all_goals simp only [World.setProc, Function.update_apply]
  all_goals grind

theorem Inv.fork (h : Inv s) (hc : s.calls c = some (.marked m)) (hp : s.procs p = none) (hf : s.Free pid)
    (hu : Unmixed s (.fork c p pid)) :
    Inv ((s.setProc p ⟨pid, none, false, false, false⟩).setCall c (some (.forked m p))) := by
  have hs := h.setNew hp hf
  have hstale : ∀ place info, s.waiter.unclaimed pid = some (place, info) → place < m := fun _ _ => hu m _ _ hc
  have hmarked := h.marked hc
  obtain ⟨hreaped, hcalls⟩ := hf
  constructor
  case listening => exact hs.listening
  case kept => exact h.kept
  case forked =>
    intro d n q hd
    by_cases hdc : d = c
    · subst hdc
      simp only [World.setProc, World.setCall, Function.update_self] at hd ⊢
      obtain ⟨rfl, rfl⟩ : m = n ∧ p = q := by simpa using hd
      exact ⟨_, Function.update_self .., rfl, rfl, hmarked⟩
    · exact hs.forked (by simpa [World.setProc, World.setCall, hdc] using hd)
  all_goals simp only [World.setProc, World.setCall, Function.update_apply]
  all_goals grind

theorem Inv.exits (h : Inv s) (hp : s.procs p = some a) (he : a.exit = none) :
    Inv (s.setProc p { a with exit := some info }) := by
  have hlistening := @h.listening
  constructor
  case kept => exact h.kept
  case forked =>
    intro d n q hd
    obtain ⟨b, hb, hrest⟩ := h.forked hd
    by_cases hqp : q = p
    · subst hqp
      rw [hp] at hb
      cases hb
      exact ⟨_, Function.update_self .., hrest⟩
    · exact ⟨b, by simpa [World.setProc, hqp] using hb, hrest⟩
  all_goals simp only [World.setProc, Function.update_apply]
  all_goals grind

theorem Inv.start (h : Start s) : Inv s := by
  obtain ⟨paused, hw⟩ := h.waiter
  have hcalls {d : ℕ} {call : Call} (hd : s.calls d = some call) : False := by
    rw [h.calls d] at hd
    cases hd
  have hunreaped {p : ℕ} {a : Proc} (hp : s.procs p = some a) (hr : a.reaped = true) : False := by
    rw [(h.procs p a hp).1] at hr
    cases hr
  constructor
  case pids => exact fun hp hq _ _ heq => h.pids _ _ _ _ hp hq heq
  case exited => exact fun hp hr => (hunreaped hp hr).elim
  case listening =>
    intro pid f
    rw [hw]
    refine ⟨(by cases ·), ?_⟩
    rintro ⟨a, hf, -, hreg, -⟩
    rw [(h.procs f a hf).2.2] at hreg
    cases hreg
  case heard =>
    intro p a hp
    rw [h.events, (h.procs p a hp).2.2]
    rfl
  all_goals first
    | exact fun hc => (hcalls hc).elim
    | simp [hw, UnixProcessesWaiter.start, h.events, Reaper.heard]

theorem Inv.unheard (h : Inv s) (hp : s.procs p = some a) (hg : a.registered = false) (hr : a.reaped = false) :
    s.waiter.listeners a.pid = none := by
  cases hl : s.waiter.listeners a.pid with
  | none => rfl
  | some f =>
    obtain ⟨b, hf, hpid, hreg, hrb⟩ := h.listening.1 hl
    obtain rfl := h.pids hp hf hr hrb hpid.symm
    rw [hp] at hf
    cases hf
    rw [hg] at hreg
    cases hreg

theorem Inv.listen (h : Inv s) (hc : ∀ d n, s.calls d ≠ some (.forked n p)) (hp : s.procs p = some a)
    (hg : a.registered = false)
    (hr : a.reaped = false) (hu : ∀ place info, s.waiter.unclaimed a.pid = some (place, info) → place < m) :
    Inv ((s.setProc p { a with registered := true }).after (s.waiter.waitFor a.pid m p)) := by
  rw [UnixProcessesWaiter.waitFor_listens (h.unheard hp hg hr) hu]
  have hlistening := @h.listening
  constructor
  case forked =>
    intro d n q hd
    obtain ⟨b, hb, hrest⟩ := h.forked hd
    have hqp : q ≠ p := by
      rintro rfl
      exact hc d n hd
    exact ⟨b, by simpa [World.setProc, World.after, hqp] using hb, hrest⟩
  case kept => simpa [World.setProc, World.after] using @h.kept
  all_goals simp only [World.setProc, World.after, Function.update_apply, List.append_nil]
  all_goals grind

theorem Inv.register (h : Inv s) (hc : s.calls c = some (.forked m p)) (hp : s.procs p = some a) :
    Inv (((s.setProc p { a with registered := true }).setCall c none).after (s.waiter.waitFor a.pid m p)) := by
  have hd : Inv (s.setCall c none) := h.dropCall
  have hnone : ∀ d n, (s.setCall c none).calls d ≠ some (.forked n p) := by
    intro d n hdn
    by_cases hdc : d = c
    · simp [World.setCall, hdc] at hdn
    · exact hdc (h.apart (by simpa [World.setCall, hdc] using hdn) hc hp hp rfl)
  obtain ⟨b, hb, hg, -, -⟩ := h.forked hc
  rw [hp] at hb
  cases hb
  rcases Bool.eq_false_or_eq_true a.reaped with hr | hr
  · obtain ⟨place, info, hu, hm, he⟩ := h.early hc hp hr
    rw [UnixProcessesWaiter.waitFor_calls hu hm]
    have hlistening := @h.listening
    constructor
    case forked =>
      intro d n q hdn
      obtain ⟨e, hq, hrest⟩ := hd.forked hdn
      have hqp : q ≠ p := by
        rintro rfl
        exact hnone d n hdn
      exact ⟨e, by simpa [World.setProc, World.setCall, World.after, hqp] using hq, hrest⟩
    case kept => simpa [World.setProc, World.setCall, World.after] using @h.kept
    all_goals simp only [World.setProc, World.setCall, World.after, Function.update_apply, heard_append]
    all_goals grind [Reaper.heard]
  · exact hd.listen hnone hp hg hr fun place info => h.living hc hp hr

theorem Inv.adopt (h : Inv s) (hp : s.procs p = some a) (hb : a.before = true) (hg : a.registered = false)
    (hr : a.reaped = false) : Inv ((s.setProc p { a with registered := true }).after (s.waiter.waitFor a.pid 0 p)) := by
  refine h.listen (fun d n hd => ?_) hp hg hr fun place info hu => ?_
  · obtain ⟨b, hb', -, hbefore, -⟩ := h.forked hd
    rw [hp] at hb'
    cases hb'
    rw [hb] at hbefore
    cases hbefore
  · rw [h.before hp hb hr] at hu
    cases hu

theorem Inv.reap (h : Inv s) (hp : s.procs p = some a) (he : a.exit = some info) (hr : a.reaped = false) :
    Inv ((s.setProc p { a with reaped := true }).after (s.waiter.reapOne a.pid info)) := by
  have hlistening := @h.listening
  have hforked : ∀ {d n q}, s.calls d = some (.forked n q) → ∃ b,
    (s.setProc p { a with reaped := true }).procs q = some b ∧
      b.registered = false ∧ b.before = false ∧ n ≤ s.waiter.reaped + 1 := by
    intro d n q hd
    obtain ⟨b, hb, hbreg, hbefore, hn⟩ := h.forked hd
    by_cases hqp : q = p
    · subst hqp
      rw [hp] at hb
      cases hb
      exact ⟨_, Function.update_self .., hbreg, hbefore, by omega⟩
    · exact ⟨b, by simpa [World.setProc, hqp] using hb, hbreg, hbefore, by omega⟩
  unfold UnixProcessesWaiter.reapOne
  cases hl : s.waiter.listeners a.pid with
  | some f =>
    obtain ⟨b, hf, hpid, hg, hrb⟩ := h.listening.1 hl
    obtain rfl := h.pids hp hf hr hrb hpid.symm
    rw [hp] at hf
    cases hf
    constructor
    case forked => exact hforked
    case kept => simpa [World.setProc, World.after] using @h.kept
    all_goals simp only [World.setProc, World.after, Function.update_apply, heard_append]
    all_goals grind [Reaper.heard]
  | none =>
    have hg : a.registered = false := by
      by_contra hg
      rw [h.listening.2 ⟨a, hp, rfl, by simpa using hg, hr⟩] at hl
      cases hl
    constructor
    case forked => exact hforked
    case kept => simpa [World.setProc, World.after] using @h.kept
    case early =>
      intro d n q b hd hq hrb
      by_cases hqp : q = p
      · subst hqp
        obtain rfl : { a with reaped := true } = b := by simpa [World.setProc, World.after] using hq
        exact ⟨s.waiter.reaped, info, Function.update_self .., (h.forked hd).elim fun _ hrest => hrest.2.2.2, he⟩
      · have hq' : s.procs q = some b := by simpa [World.setProc, World.after, hqp] using hq
        have hpid : b.pid ≠ a.pid := by
          intro hpid
          rw [h.alone hd hq' hp hpid.symm (Ne.symm hqp)] at hr
          cases hr
        obtain ⟨place, info', hu, hrest⟩ := h.early hd hq' hrb
        exact ⟨place, info', (Function.update_of_ne hpid ..).trans hu, hrest⟩
    all_goals simp only [World.setProc, World.after, Function.update_apply, List.append_nil]
    all_goals grind

theorem Inv.step {s' : World} {act : Act} (h : Inv s) (hu : Unmixed s act) (hs : Step s act s') : Inv s' := by
  cases hs with
  | mark => exact h.setMark
  | fork hc hp hf => exact h.fork hc hp hf hu
  | forkFails => exact h.dropCall
  | register hc hp => exact h.register hc hp
  | stray hp hf => exact h.setNew hp hf
  | exits info hp he => exact h.exits hp he
  | adopt hp hb hg hr => exact h.adopt hp hb hg hr
  | reap hp he hr =>
    unfold World.reapNow
    split
    · exact h
    · rename_i hpaused
      rw [UnixProcessesWaiter.reapNow_one (by simpa using hpaused)]
      exact h.reap hp he hr
  | pause => exact { h with }
  | resume => exact { h with }
  | kill pid sig group =>
    have hheard (p : ℕ) : Reaper.heard p (s.waiter.kill pid sig group) = [] := by
      unfold UnixProcessesWaiter.kill
      split <;> rfl
    refine { h with silent := fun hp => ?_, heard := fun hp => ?_, kept := ?_ }
    · exact (heard_append ..).trans (by rw [h.silent hp, hheard, List.append_nil])
    · exact (heard_append ..).trans (by rw [h.heard hp, hheard, List.append_nil])
    · unfold World.after UnixProcessesWaiter.kill
      intro f
      split <;> simpa using h.kept

theorem Reached.inv (h : Reached Unmixed s) : Inv s := by
  induction h with
  | start hs => exact .start hs
  | step _ hu hs ih => exact ih.step hu hs

end

theorem Step.paused {s s' : World} {act : Act} (hs : Step s act s') (hw : s.waiter.paused = true) {p : ℕ} {a : Proc}
    (hp : s.procs p = some a) : ∃ b, s'.procs p = some b ∧ b.reaped = a.reaped := by
  have hset (q : ℕ) (e b : Proc) (hq : s.procs q = some e) (heq : b.reaped = e.reaped) :
      ∃ x, (s.setProc q b).procs p = some x ∧ x.reaped = a.reaped := by
    by_cases hpq : p = q
    · subst hpq
      rw [hp] at hq
      cases hq
      exact ⟨b, Function.update_self .., heq⟩
    · exact ⟨a, (Function.update_of_ne hpq ..).trans hp, rfl⟩
  have hnew (q : ℕ) (b : Proc) (hq : s.procs q = none) : ∃ x,
    (s.setProc q b).procs p = some x ∧ x.reaped = a.reaped := by
    refine ⟨a, (Function.update_of_ne ?_ ..).trans hp, rfl⟩
    rintro rfl
    rw [hp] at hq
    cases hq
  cases hs with
  | fork _ hq _ => exact hnew _ _ hq
  | stray hq _ => exact hnew _ _ hq
  | register _ hq => exact hset _ _ _ hq rfl
  | exits info hq _ => exact hset _ _ _ hq rfl
  | adopt hq _ _ _ => exact hset _ _ _ hq rfl
  | reap hq _ _ =>
    rw [World.reapNow, if_pos hw]
    exact ⟨a, hp, rfl⟩
  | mark | forkFails | pause | resume | kill => exact ⟨a, hp, rfl⟩

theorem waitFor_sends {w : UnixProcessesWaiter ℕ} {pid q : Pid} {m p : ℕ} {sig : ℤ} {group : Bool} :
    .sent q sig group ∉ (w.waitFor pid m p).2 := by
  unfold UnixProcessesWaiter.waitFor UnixProcessesWaiter.insertListener
  grind

theorem reapNow_sends {w : UnixProcessesWaiter ℕ} {pid q : Pid} {info : ExitInfo} {sig : ℤ} {group : Bool} :
    .sent q sig group ∉ (w.reapNow [(pid, info)]).2 := by
  unfold UnixProcessesWaiter.reapNow UnixProcessesWaiter.reapOne
  grind

theorem Step.sent {s s' : World} {act : Act} (hs : Step s act s') :
    ∃ new, s'.events = s.events ++ new ∧
      ∀ pid sig group, WaiterEvent.sent pid sig group ∈ new → (s.waiter.listeners pid).isSome := by
  cases hs with
  | register | adopt => exact ⟨_, rfl, fun _ _ _ h => (waitFor_sends h).elim⟩
  | reap =>
    unfold World.reapNow
    split
    · exact ⟨[], (List.append_nil _).symm, by simp⟩
    · exact ⟨_, rfl, fun _ _ _ h => (reapNow_sends h).elim⟩
  | kill q sig group =>
    refine ⟨_, rfl, fun pid _ _ h => ?_⟩
    unfold UnixProcessesWaiter.kill at h
    grind
  | mark | fork | forkFails | stray | exits | pause | resume => exact ⟨[], (List.append_nil _).symm, by simp⟩

/-- What the reaper promises in a state: each registered child's listener was called with the child's own exit once it was
reaped and no listener was dropped; from there, nothing is reaped while it is paused, and a signal goes only to the pid of a
registered child that is not reaped. -/
structure Kept (s : World) : Prop where
  delivered : Delivered s
  paused : s.waiter.paused = true → ∀ act s', Step s act s' → ∀ p a, s.procs p = some a →
    ∃ b, s'.procs p = some b ∧ b.reaped = a.reaped
  sent : ∀ act s', Step s act s' → ∃ new, s'.events = s.events ++ new ∧
    ∀ pid sig group, WaiterEvent.sent pid sig group ∈ new →
      ∃ p a, s.procs p = some a ∧ a.pid = pid ∧ a.registered = true ∧ a.reaped = false

/-- In every run in which no fork gets a pid whose last exit was reaped unclaimed since the call took its mark, the reaper
keeps its promises in every state. -/
theorem Reached.promised {s : World} (h : Reached Unmixed s) : Kept s where
  delivered := ⟨fun _ _ hp => h.inv.heard hp, fun _ => h.inv.kept⟩
  paused hw _ _ hs _ _ hp := hs.paused hw hp
  sent act s' hs := by
    obtain ⟨new, hnew, hsent⟩ := hs.sent
    refine ⟨new, hnew, fun pid sig group hmem => ?_⟩
    obtain ⟨p, hl⟩ := Option.isSome_iff_exists.1 (hsent pid sig group hmem)
    obtain ⟨a, ha⟩ := h.inv.listening.1 hl
    exact ⟨p, a, ha⟩

def World.empty : World := ⟨.start false, fun _ => none, fun _ => none, []⟩

theorem World.empty_start : Start .empty :=
  ⟨⟨false, rfl⟩, fun _ => rfl, rfl, by simp [World.empty], by simp [World.empty]⟩

theorem World.empty_free (pid : Pid) : World.empty.Free pid := by simp [World.Free, World.empty]

theorem Reached.promised_early : ∃ s : World, heard 0 s.events = [⟨some 3, none, false⟩] ∧ Kept s := by
  have marked : Reached Unmixed _ := (Reached.start World.empty_start).then (.mark 0) (.mark rfl) trivial
  have forked := marked.then (.fork 0 0 7) (.fork rfl rfl (by simp [World.Free, World.setCall, World.empty]))
    fun _ _ _ _ hu => by cases hu
  have exited := forked.then (.exits 0 ⟨some 3, none, false⟩) (.exits _ rfl rfl) trivial
  have reaped := exited.then (.reap 0) (.reap rfl rfl rfl) trivial
  exact ⟨_, rfl, Reached.promised (reaped.then (.register 0) (.register rfl rfl) trivial)⟩

/-- An exit reaped between a call's mark and its fork is handed to the child the fork makes, while that child runs. -/
theorem not_kept : ∃ s : World, Reached (fun _ _ => True) s ∧ ¬ Kept s := by
  have made : Reached (fun _ _ => True) _ := (Reached.start World.empty_start).then (.stray 0 7)
    (.stray rfl (World.empty_free 7)) trivial
  have exited := made.then (.exits 0 ⟨some 1, none, false⟩) (.exits _ rfl rfl) trivial
  have marked := exited.then (.mark 0) (.mark rfl) trivial
  have reaped := marked.then (.reap 0) (.reap rfl rfl rfl) trivial
  have forked := reaped.then (.fork 0 1 7) (.fork rfl rfl ⟨?_, ?_⟩) trivial
  · refine ⟨_, forked.then (.register 0) (.register rfl rfl) trivial, fun hk => ?_⟩
    have h := hk.delivered.heard 1 _ rfl
    cases h
  · rintro (_ | p) a hp -
    · cases hp
      rfl
    · cases hp
  · rintro (_ | c) m p a hc <;> cases hc

end Reaper

end Dekit
