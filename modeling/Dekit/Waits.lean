import Dekit.Kernel

namespace Dekit

/-- Why dekit ended, or is ending, a run, beyond the task's state. -/
inductive StateReason where
  | readyTimeout
  | killTimeout
deriving DecidableEq

structure TaskInfo where
  id : TaskId
  space : TaskSpaceId
  path : Option TaskPath
  label : Option String
  kind : TaskKind
  state : TaskState
  reason : Option StateReason
  vt : Option ScreenHandle

structure DepExplain where
  name : String
  state : TaskState
  reason : Option StateReason
  wanted : Bool
  satisfied : Bool

structure TaskExplain where
  id : TaskId
  name : String
  state : TaskState
  reason : Option StateReason
  wanted : Bool
  supported : Bool
  vetoed : Bool
  pinned : Bool
  savedPin : Bool
  requiredBy : List String
  deps : List DepExplain
  attempts : ℕ

inductive WaitMark where
  | pending
  | met
  | failed
deriving DecidableEq

/-- Where a task of a wait stands: its mark, and whether it is gone. -/
structure Standing where
  mark : WaitMark
  removed : Bool
deriving DecidableEq

structure WaitTask where
  info : TaskInfo
  mark : WaitMark
  blockedBy : Option String
  removed : Bool
  why : Option TaskExplain

inductive WaitVerdict where
  | met
  | failed
deriving DecidableEq

/-- What a wait reports: the set once, then each change, and last how it ended. -/
inductive WaitEvent where
  | set (tasks : List WaitTask)
  | changed (task : WaitTask)
  | done (verdict : WaitVerdict) (tasks : List WaitTask) (quitting : Bool)

namespace TaskHandle

variable {τ : Type}

/-- The run is over and the kernel won't start another by itself. -/
def hasEnded (t : TaskHandle τ) : Bool :=
  match t.state with
  | .exited _ | .done _ => true
  | .stopping =>
    -- Where the stop of a failed start lands.
    t.startFailed && match t.exitState { ExitInfo.error with readyTimeout := true } with
      | .exited _ => true
      | _ => false
  | .idle | .starting | .running | .ready | .backoff _ => false

def reason (t : TaskHandle τ) : Option StateReason :=
  match t.state with
  | .backoff info | .done info | .exited info => if info.readyTimeout then some .readyTimeout else none
  | .stopping => if t.startFailed then some .readyTimeout else none
  | .idle => if t.stopTimedOut then some .killTimeout else none
  | .starting | .running | .ready => none

/-- How a task that has no process and won't start again by itself ended. -/
def endedBadly (t : TaskHandle τ) : Bool :=
  match t.state with
  | .exited info | .backoff info => !info.success
  | .done _ => false
  | .idle => t.stopTimedOut || t.wanted
  | .starting | .running | .ready | .stopping => false

end TaskHandle

def waitVerdict (cond : WaitCond) (standings : List Standing) : Option WaitVerdict :=
  let failed := standings.any (·.mark == .failed)
  let pending := standings.any (·.mark == .pending)
  match cond, failed, pending with
  | .ready, true, _ | .down, true, _ => some .failed
  | _, _, true => none
  | _, true, _ => some .failed
  | _, _, _ => some .met

namespace Graph

variable {τ : Type}

def inListOrder (g : Graph τ) (ids : List TaskId) : List TaskId :=
  ids.insertionSort (fun a b => (g.listKey a).le (g.listKey b) = true)

def satisfied (g : Graph τ) (id : TaskId) : Bool := (g.tasks.lookup id).any (·.isSatisfied)

def info (g : Graph τ) (id : TaskId) : Option TaskInfo :=
  (g.tasks.lookup id).map fun t => ⟨id, t.space, t.path, t.label, t.kind, t.state, t.reason, t.vt⟩

def explain (g : Graph τ) (id : TaskId) : Option TaskExplain :=
  (g.tasks.lookup id).map fun t =>
    { id
      name := g.name id
      state := t.state
      reason := t.reason
      wanted := t.wanted
      supported := t.supported
      vetoed := t.vetoed
      pinned := initTaskId ∈ g.redges id
      savedPin := t.savedPin
      requiredBy := (g.inListOrder (Hasher.ascending ((g.redges id).erase initTaskId))).map g.name
      deps := (g.inListOrder (Hasher.ascending (g.edges id))).map fun dep =>
        { name := g.name dep
          state := ((g.tasks.lookup dep).map (·.state)).getD .idle
          reason := (g.tasks.lookup dep).bind (·.reason)
          wanted := (g.tasks.lookup dep).any (·.wanted)
          satisfied := g.satisfied dep }
      attempts := t.attempts }

def liveFrom (g : Graph τ) : ℕ → TaskId → Bool
  | 0, _ => false
  | fuel + 1, id => (g.tasks.lookup id).any fun t => t.wanted && !t.hasEnded &&
      decide (∀ dep ∈ g.edges id, (g.satisfied dep || g.liveFrom fuel dep) = true)

/-- Whether the kernel will run the task, or keep it running, without anyone acting. -/
def isLive (g : Graph τ) (id : TaskId) : Bool := g.liveFrom (g.tasks.keys.card + 1) id

def deadRootFrom (g : Graph τ) : ℕ → TaskId → TaskId
  | 0, id => id
  | fuel + 1, id => match g.tasks.lookup id with
    | none => id
    | some t =>
      if !t.wanted || t.hasEnded then id
      else match (g.inListOrder (Hasher.ascending (g.edges id))).find?
          (fun dep => !g.satisfied dep && !g.isLive dep) with
        | some dep => g.deadRootFrom fuel dep
        | none => id

/-- The task at the root of why a task is not live. -/
def deadRoot (g : Graph τ) (id : TaskId) : TaskId := g.deadRootFrom (g.tasks.keys.card + 1) id

def waitStanding (g : Graph τ) (cond : WaitCond) (id : TaskId) : Standing :=
  match g.tasks.lookup id with
  | none => ⟨match cond with
      | .ready => .failed
      | .exit | .down => .met, true⟩
  | some t =>
    let running := t.state.isActive
    let live := g.isLive id
    ⟨match cond with
      | .ready => if t.isSatisfied then .met else if live then .pending else .failed
      | .exit => if running || live then .pending else if t.endedBadly then .failed else .met
      | .down =>
        if live then .failed else if running then .pending else if t.stopTimedOut then .failed else .met, false⟩

def waitTaskSame (g : Graph τ) (last : WaitTask) (id : TaskId) (standing : Standing) : Bool :=
  last.mark == standing.mark && last.removed == standing.removed && (g.tasks.lookup id).all fun t =>
    last.info.state == t.state && last.info.reason == t.reason && last.info.path == t.path &&
      last.info.label == t.label

def waitTask (g : Graph τ) (cond : WaitCond) (id : TaskId) (last : Option WaitTask) (standing : Standing) : WaitTask :=
  let unknown : TaskInfo := ⟨id, TaskSpaceId.defaultSpace, none, none, .service, .idle, none, none⟩
  if standing.removed then
    ⟨(last.map (·.info)).getD unknown, standing.mark, none, true, none⟩
  else
    let blockedBy := match cond with
      | .ready | .exit =>
        let root := g.deadRoot id
        if standing.mark = .failed ∧ root ≠ id then some (g.name root) else none
      | .down => none
    ⟨(g.info id).getD unknown, standing.mark, blockedBy, false, none⟩

def anyActive (g : Graph τ) (selector : TaskSelector) : Bool :=
  (g.matchingIds selector).any fun id => (g.tasks.lookup id).any fun t => match t.state with
    | .starting | .running | .ready | .stopping | .backoff _ => true
    | .idle | .done _ | .exited _ => false

end Graph

/-- Whether a receiver is gone when the kernel looks at it for the nth time. -/
abbrev Receivers := ReplyId → ℕ → Bool

/-- The kernel's end of a channel: how often it looked at the other, and what it has sent there. -/
structure UnboundedSender (α : Type) where
  channel : ReplyId
  looks : ℕ
  sent : List α

namespace UnboundedSender

variable {α : Type}

def fresh (channel : ReplyId) : UnboundedSender α := ⟨channel, 0, []⟩

def isClosed (gone : Receivers) (s : UnboundedSender α) : UnboundedSender α × Bool :=
  ({ s with looks := s.looks + 1 }, gone s.channel s.looks)

def send (gone : Receivers) (s : UnboundedSender α) (event : α) : UnboundedSender α × Bool :=
  if gone s.channel s.looks then ({ s with looks := s.looks + 1 }, false)
  else ({ s with looks := s.looks + 1, sent := s.sent ++ [event] }, true)

end UnboundedSender

/-- A wait in progress: its set, fixed when it began, and how each task was last reported. -/
structure WaitWatch where
  cond : WaitCond
  ids : List TaskId
  last : TaskId → Option WaitTask
  begun : Bool
  events : UnboundedSender WaitEvent

/-- Reports when the selected set goes between some task active and none active. -/
structure ActiveWatch where
  selector : TaskSelector
  sender : UnboundedSender Bool
  active : Bool

namespace WaitWatch

variable {τ : Type}

def standings (w : WaitWatch) (g : Graph τ) : List (TaskId × Standing) :=
  w.ids.map fun id => (id, g.waitStanding w.cond id)

def begin' (w : WaitWatch) (gone : Receivers) (g : Graph τ) : WaitWatch × Bool :=
  let tasks := (w.standings g).map fun s => g.waitTask w.cond s.1 none s.2
  let (events, ok) := w.events.send gone (.set tasks)
  if ok then ({ w with begun := true, events, last := fun id => tasks.reverse.find? (·.info.id == id) }, true)
  else ({ w with begun := true, events }, false)

def report (gone : Receivers) (g : Graph τ) : List (TaskId × Standing) → WaitWatch → WaitWatch × Bool
  | [], w => (w, true)
  | (id, standing) :: rest, w =>
    if (w.last id).any (fun last => g.waitTaskSame last id standing) then report gone g rest w
    else
      let task := g.waitTask w.cond id (w.last id) standing
      let (events, ok) := w.events.send gone (.changed task)
      if ok then report gone g rest { w with events, last := Function.update w.last id (some task) }
      else ({ w with events }, false)

def final (g : Graph τ) (cond : WaitCond) : List (TaskId × Standing) → (TaskId → Option WaitTask) → List WaitTask
  | [], _ => []
  | (id, standing) :: rest, last =>
    (last id).getD (g.waitTask cond id none standing) :: final g cond rest (Function.update last id none)

/-- Goes on unless the verdict is in or the receiver is gone. -/
def conclude (w : WaitWatch) (gone : Receivers) (g : Graph τ) : WaitWatch × Bool :=
  match waitVerdict w.cond ((w.standings g).map Prod.snd) with
  | some verdict =>
    let tasks := (final g w.cond (w.standings g) w.last).map fun task =>
      if task.mark = .failed ∧ !task.removed then { task with why := g.explain task.info.id } else task
    let (events, _) := w.events.send gone (.done verdict tasks g.quitting)
    ({ w with events, last := fun _ => none }, false)
  | none =>
    let (events, closed) := w.events.isClosed gone
    ({ w with events }, !closed)

/-- Reports what changed in the wait's set; false once it has ended. -/
def advance (w : WaitWatch) (gone : Receivers) (g : Graph τ) : WaitWatch × Bool :=
  match if w.begun then report gone g (w.standings g) w else w.begin' gone g with
  | (w, true) => w.conclude gone g
  | (w, false) => (w, false)

/-- A new wait is always checked, the others when the graph changed. -/
def check (gone : Receivers) (g : Graph τ) (changed : Bool) (w : WaitWatch) : WaitWatch × Bool :=
  if !changed && w.begun then
    let (events, closed) := w.events.isClosed gone
    ({ w with events }, !closed)
  else w.advance gone g

end WaitWatch

def ActiveWatch.check {τ : Type} (gone : Receivers) (g : Graph τ) (w : ActiveWatch) : ActiveWatch × Bool :=
  let active := g.anyActive w.selector
  if active = w.active then (w, true)
  else
    let (sender, ok) := w.sender.send gone active
    ({ w with active, sender }, ok)

/-- The waits and watches in progress, and those that have ended. -/
structure Listeners where
  waits : List WaitWatch
  activeWatches : List ActiveWatch
  endedWaits : List WaitWatch
  endedWatches : List ActiveWatch

namespace Listeners

variable {τ : Type}

def new : Listeners := ⟨[], [], [], []⟩

def checkActiveWatches (gone : Receivers) (g : Graph τ) (l : Listeners) : Listeners :=
  let checked := l.activeWatches.map (ActiveWatch.check gone g)
  { l with
    activeWatches := (checked.filter Prod.snd).map Prod.fst
    endedWatches := l.endedWatches ++ (checked.filter (!·.2)).map Prod.fst }

def checkWaits (gone : Receivers) (g : Graph τ) (changed : Bool) (l : Listeners) : Listeners :=
  let checked := l.waits.map (WaitWatch.check gone g changed)
  { l with
    waits := (checked.filter Prod.snd).map Prod.fst
    endedWaits := l.endedWaits ++ (checked.filter (!·.2)).map Prod.fst }

/-- What a settled step does for those who listen; with `always` it looks at everything each time. -/
def settled (always : Bool) (gone : Receivers) (g : Graph τ) (l : Listeners) : Listeners :=
  let changed := always || g.stateChanged
  (if changed then l.checkActiveWatches gone g else l).checkWaits gone g changed

end Listeners

namespace Graph

variable {τ : Type} [Task τ]

/-- Fixes a wait's set; it is first checked once this step settles. -/
def beginWait (g : Graph τ) (sender : TaskId) (request : WaitRequest) : WaitWatch :=
  let (g, ids) : Graph τ × List TaskId := match request.on with
    | .isMatching selector =>
      let ids := g.matchingIds selector
      let wanted (id : TaskId) : Bool := (g.tasks.lookup id).any (·.wanted)
      (g, if request.cond = .ready ∧ ids.any wanted then ids.filter wanted else ids)
    | .ids ids => (g, ids)
    | .act verb selector => g.act verb sender selector
  { cond := request.cond
    ids := g.inListOrder ids
    last := fun _ => none
    begun := false
    events := .fresh request.events }

end Graph

/-- A kernel and those who listen to it. -/
structure Attended (τ : Type) where
  kernel : Kernel τ
  listeners : Listeners

namespace Attended

variable {τ : Type} [Task τ]

/-- A wait or a watch that is dispatched joins the others; a frozen kernel defers it. -/
def join (k : Kernel τ) (msg : KernelMessage τ) (l : Listeners) : Listeners :=
  if k.graph.frozen.isSome then l
  else match msg.command with
    | .wait request => { l with waits := l.waits ++ [k.graph.beginWait msg.sender request] }
    | .watchActive selector sender =>
      { l with activeWatches := l.activeWatches ++ [⟨selector, .fresh sender, k.graph.anyActive selector⟩] }
    | _ => l

def afterDispatch (always : Bool) (gone : Receivers) (k : Kernel τ) (l : Listeners) : Listeners :=
  if k.graph.frozen.isSome then l else l.settled always gone k.graph.settle

def turn (always : Bool) (gone : Receivers) (a : Attended τ) (now : Instant) (msg : KernelMessage τ) : Attended τ :=
  let k := { a.kernel with graph := { a.kernel.graph with now } }
  let joined := join k msg a.listeners
  { kernel := a.kernel.turn now msg
    listeners := match k.dispatch msg with
      | (_, true) => joined
      | (k, false) => afterDispatch always gone k joined }

end Attended

/-- A message the loop takes next and when, with the kernel it is then dispatched in. -/
inductive Kernel.Takes {τ : Type} : Kernel τ → Instant → KernelMessage τ → Kernel τ → Prop
  | replayed {k : Kernel τ} {now : Instant} {msg : KernelMessage τ} {rest : List (KernelMessage τ)} :
      k.exited = false → k.graph.now ≤ now → k.replay = msg :: rest → Takes k now msg { k with replay := rest }
  | received {k : Kernel τ} {now : Instant} (msg : KernelMessage τ) :
      k.exited = false → k.graph.now ≤ now → k.replay = [] → Takes k now msg (k.arrive msg)
  | expired {k : Kernel τ} {now : Instant} {entry : TimerEntry} :
      k.exited = false → k.graph.now ≤ now → k.replay = [] → entry ∈ k.timers.queue → entry.due ≤ now →
      Takes k now entry.timeout (Kernel.arrive { k with timers := k.timers.expire entry } entry.timeout)
  | alarm {k : Kernel τ} {now due : Instant} {number : ℕ} :
      k.exited = false → k.graph.now ≤ now → k.replay = [] → (due, number) ∈ k.alarms → due ≤ now →
      Takes k now (Kernel.alarmed number)
        (Kernel.arrive { k with alarms := k.alarms.erase (due, number) } (Kernel.alarmed number))

namespace Attended

variable {τ : Type} [Task τ]

inductive Step (always : Bool) (gone : Receivers) : Attended τ → Option (Instant × KernelMessage τ) → Attended τ → Prop
  | turn {a : Attended τ} {now : Instant} {msg : KernelMessage τ} {k : Kernel τ} :
      a.kernel.Takes now msg k → Step always gone a (some (now, msg)) (turn always gone ⟨k, a.listeners⟩ now msg)
  | alloc {a : Attended τ} : a.kernel.exited = false →
      Step always gone a none { a with kernel := { a.kernel with graph := a.kernel.graph.allocId.2 } }

inductive Run (always : Bool) (gone : Receivers) (a₀ : Attended τ) :
    List (Option (Instant × KernelMessage τ)) → Attended τ → Prop
  | refl : Run always gone a₀ [] a₀
  | tail {msgs : List (Option (Instant × KernelMessage τ))} {msg : Option (Instant × KernelMessage τ)}
      {a a' : Attended τ} : Run always gone a₀ msgs a → Step always gone a msg a' →
      Run always gone a₀ (msgs ++ [msg]) a'

def start (k : Kernel τ) : Attended τ := ⟨k.afterDispatch, .new⟩

end Attended

end Dekit
