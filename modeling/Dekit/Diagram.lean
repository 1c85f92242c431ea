import Dekit.Recording
import Dekit.Guarantees

namespace Dekit

open Dekit.Graph

/-- The legal changes of a task's state, by whether its start had failed. -/
def legalTransition (src dst : TaskState) (startFailed : Bool) : Bool :=
  match src, dst with
  | .stopping, .idle => !startFailed
  | .stopping, .backoff info | .stopping, .exited info => startFailed && info.readyTimeout
  | src, dst =>
    let late := match dst with
      | .backoff info | .exited info => info.readyTimeout
      | _ => false
    if late then false
    else if startFailed then false
    else match src, dst with
      | .idle, .starting => true
      | .starting, .running | .starting, .ready | .starting, .stopping | .starting, .backoff _ | .starting, .done _
      | .starting, .exited _ => true
      | .running, .ready | .running, .stopping | .running, .backoff _ | .running, .done _ | .running, .exited _ => true
      | .ready, .stopping | .ready, .backoff _ | .ready, .done _ | .ready, .exited _ => true
      | .backoff _, .idle | .done _, .idle | .exited _, .idle => true
      | _, _ => false

variable {τ : Type} [Task τ] {I : Terms τ} {c : Cause} {s s' s'' : Records τ} {id : TaskId} {t t' : Record τ}
  {es es' : List Transition}

/-- An end that a task reports itself, with `readyTimeout` set, is taken as it reads. -/
def Reported (I : Terms τ) (src dst : TaskState) : Prop :=
  (src = .starting ∨ src = .running ∨ src = .ready) ∧
    ∃ info, I.reports info ∧ info.readyTimeout = true ∧ (dst = .backoff info ∨ dst = .exited info)

/-- A change of state that the kernel may make. -/
structure Transition.Legal (I : Terms τ) (e : Transition) : Prop where
  legal : legalTransition e.src e.dst e.startFailed = true ∨ Reported I e.src e.dst
  done : ∀ info, e.dst = .done info → info.success = true

/-- The changes of one task lead from one state to another, each from where the last one left it. -/
def Traced (id : TaskId) : TaskState → List Transition → TaskState → Prop
  | src, [], dst => src = dst
  | src, e :: es, dst => if e.id = id then e.src = src ∧ Traced id e.dst es dst else Traced id src es dst

/-- Where the flags of a task may be set. -/
structure Records.Flagged (I : Terms τ) (s : Records τ) : Prop where
  killed : I.fit → ∀ id t, s.tasks id = some t → t.killed = true → t.state = .stopping
  startFailed : ∀ id t, s.tasks id = some t → t.startFailed = true →
    t.state = .stopping ∧ t.ready.timeout.isSome = true
  stopTimedOut : ∀ id t, s.tasks id = some t → t.stopTimedOut = true → t.state = .idle
  savedPin : I.fit → ∀ id t, s.tasks id = some t → t.savedPin = true → id ∉ s.deps initTaskId

/-- What a step adds to the log of state changes: each is legal, and together they are all there are. No task
comes but by a command and none goes but by a removal. -/
structure Records.Follows (I : Terms τ) (c : Cause) (s s' : Records τ) (es : List Transition) : Prop where
  logged : s'.transitions = s.transitions ++ es
  legal : ∀ e ∈ es, e.Legal I
  traced : ∀ id t t', s.tasks id = some t → s'.tasks id = some t' → Traced id t.state es t'.state
  came : ∀ id, s.tasks id = none → (s'.tasks id).isSome = true → c = .command
  went : ∀ id, (s.tasks id).isSome = true → s'.tasks id = none → c = .removal

theorem Records.Sane.flagged (h : s.Sane I) : s.Flagged I := ⟨h.killed, h.failed, h.gaveUp, h.saved⟩

theorem Traced.append {a b m : TaskState} (h : Traced id a es m) (h' : Traced id m es' b) :
    Traced id a (es ++ es') b := by
  induction es generalizing a with
  | nil =>
    obtain rfl : a = m := h
    exact h'
  | cons e es ih =>
    rw [Traced] at h
    rw [List.cons_append, Traced]
    split at h
    · rename_i hid
      rw [if_pos hid]
      exact ⟨h.1, ih h.2⟩
    · rename_i hid
      rw [if_neg hid]
      exact ih h

namespace Records.Follows

theorem calm (hl : s'.transitions = s.transitions)
    (ht : ∀ x, (s'.tasks x).map Record.state = (s.tasks x).map Record.state) : Records.Follows I c s s' [] := by
  have hsome (x : TaskId) : (s'.tasks x).isSome = (s.tasks x).isSome := by
    rw [← Option.isSome_map, ht, Option.isSome_map]
  refine ⟨by rw [hl, List.append_nil], fun e he => absurd he List.not_mem_nil, fun x t t' hx hx' => ?_,
    fun x hx hx' => ?_, fun x hx hx' => ?_⟩
  · have hstate := ht x
    rw [hx, hx', Option.map_some, Option.map_some, Option.some.injEq] at hstate
    exact hstate.symm
  · rw [hsome, hx] at hx'
    cases hx'
  · rw [← hsome, hx'] at hx
    cases hx

theorem refl (s : Records τ) : Records.Follows I c s s [] := calm rfl fun _ => rfl

theorem trans (h : Records.Follows I c s s' es) (h' : Records.Follows I c s' s'' es') :
    Records.Follows I c s s'' (es ++ es') := by
  refine ⟨by rw [h'.logged, h.logged, List.append_assoc], fun e he => ?_, fun x t t'' hx hx'' => ?_,
    fun x hx hx'' => ?_, fun x hx hx'' => ?_⟩
  · rcases List.mem_append.mp he with he | he
    · exact h.legal e he
    · exact h'.legal e he
  · cases hx' : s'.tasks x with
    | some t' => exact (h.traced x t t' hx hx').append (h'.traced x t' t'' hx' hx'')
    | none =>
      have hout := h.went x (by rw [hx]; rfl) hx'
      have hin := h'.came x hx' (by rw [hx'']; rfl)
      rw [hout] at hin
      cases hin
  · cases hx' : s'.tasks x with
    | some t' => exact h.came x hx (by rw [hx']; rfl)
    | none => exact h'.came x hx' hx''
  · cases hx' : s'.tasks x with
    | some t' => exact h'.went x (by rw [hx']; rfl) hx''
    | none => exact h.went x hx hx'

end Records.Follows

omit [Task τ] in
theorem Record.exitState_cases (t : Record τ) (info : ExitInfo) :
    t.exitState info = .done info ∧ info.success = true ∨ t.exitState info = .backoff info ∨
      t.exitState info = .exited info := by
  unfold Record.exitState
  split
  · rename_i h
    exact .inl ⟨rfl, h.2⟩
  · have hretry (retry : Bool) : (if retry then TaskState.backoff info else .exited info) = .backoff info ∨
        (if retry then TaskState.backoff info else .exited info) = .exited info := by
      cases retry
      · exact .inr rfl
      · exact .inl rfl
    exact .inr (hretry _)

theorem Leads.legal {state : TaskState} (h : Leads I t c state) (hf : t.startFailed = true → t.state = .stopping) :
    (legalTransition t.state state t.startFailed = true ∨ Reported I t.state state) ∧
      ∀ info, state = .done info → info.success = true := by
  have hfresh (hne : t.state ≠ .stopping) : t.startFailed = false := by
    by_contra hfail
    exact hne (hf (by simpa using hfail))
  cases h with
  | starts hs _ =>
    rw [hs, hfresh (by simp [hs])]
    exact ⟨.inl rfl, fun _ h => by cases h⟩
  | started hs =>
    rw [hs, hfresh (by simp [hs])]
    unfold Record.startedState
    refine ⟨.inl ?_, fun info h => ?_⟩
    · cases t.kind <;> cases t.ready <;> rfl
    · revert h
      cases t.kind <;> cases t.ready <;> exact fun h => by cases h
  | ready hs =>
    rw [hs, hfresh (by simp [hs])]
    exact ⟨.inl rfl, fun _ h => by cases h⟩
  | stops hs =>
    refine ⟨.inl ?_, fun _ h => by cases h⟩
    rcases hs with hs | hs | hs <;> rw [hs, hfresh (by simp [hs])] <;> rfl
  | @ends _ info hs hr =>
    have hfail : t.startFailed = false := hfresh (by rcases hs with hs | hs | hs <;> simp [hs])
    rcases t.exitState_cases info with ⟨he, hsucc⟩ | he | he
    · rw [he, hfail]
      refine ⟨.inl ?_, fun i hi => ?_⟩
      · rcases hs with hs | hs | hs <;> rw [hs] <;> rfl
      · rw [← TaskState.done.inj hi]
        exact hsucc
    · rw [he, hfail]
      refine ⟨?_, fun _ h => by cases h⟩
      cases hlate : info.readyTimeout with
      | true => exact .inr ⟨hs, info, hr, hlate, .inl rfl⟩
      | false => rcases hs with hs | hs | hs <;> simp [hs, legalTransition, hlate]
    · rw [he, hfail]
      refine ⟨?_, fun _ h => by cases h⟩
      cases hlate : info.readyTimeout with
      | true => exact .inr ⟨hs, info, hr, hlate, .inr rfl⟩
      | false => rcases hs with hs | hs | hs <;> simp [hs, legalTransition, hlate]
  | lands hs hfail =>
    rw [hs, hfail]
    exact ⟨.inl rfl, fun _ h => by cases h⟩
  | @fails _ info hs hfail hlate =>
    have hbad : info.success = false := by simp [ExitInfo.success, hlate]
    rcases t.exitState_cases info with ⟨-, hsucc⟩ | he | he
    · rw [hbad] at hsucc
      cases hsucc
    · rw [hs, he, hfail]
      exact ⟨.inl hlate, fun _ h => by cases h⟩
    · rw [hs, he, hfail]
      exact ⟨.inl hlate, fun _ h => by cases h⟩
  | retries hs =>
    rw [hs, hfresh (by simp [hs])]
    exact ⟨.inl rfl, fun _ h => by cases h⟩
  | revives hs =>
    refine ⟨.inl ?_, fun _ h => by cases h⟩
    rcases hs with hs | hs <;> rw [hs, hfresh (by simp [hs])] <;> rfl

theorem Edit.follows (h : Edit I c s s') (hs : s.Sane I) : ∃ es, Records.Follows I c s s' es := by
  have hmod {f : Record τ → Record τ} {id : TaskId} {s₁ : Records τ} (hl : s₁.transitions = s.transitions)
      (hs₁ : s₁.tasks = (s.modify id f).tasks) (hf : ∀ t, (f t).state = t.state) :
      ∃ es, Records.Follows I c s s₁ es := by
    refine ⟨[], .calm hl fun x => ?_⟩
    rw [hs₁, Records.tasks_modify]
    split
    · cases s.tasks x with
      | none => rfl
      | some t => exact congrArg some (hf t)
    · rfl
  cases h with
  | @entered _ s id t state ht hl =>
    obtain ⟨hlegal, hdone⟩ := hl.legal fun hf => (hs.failed id t ht hf).1
    have hsome (x : TaskId) : ((s.enterState id t state).tasks x).isSome = (s.tasks x).isSome := by
      rw [Records.tasks_enterState, Records.isSome_modify]
    refine ⟨[⟨id, t.state, state, t.startFailed⟩], rfl, fun e he => ?_, fun x t₁ t₂ hx hx' => ?_, fun x hx hx' => ?_,
      fun x hx hx' => ?_⟩
    · rw [List.mem_singleton.mp he]
      exact ⟨hlegal, hdone⟩
    · rw [Records.tasks_enterState] at hx'
      obtain ⟨t₀, ht₀, ⟨rfl, rfl⟩ | ⟨hne, rfl⟩⟩ := Records.modify_some hx'
      · obtain rfl : t = t₁ := Option.some.inj (ht.symm.trans hx)
        rw [Traced, if_pos rfl]
        exact ⟨rfl, rfl⟩
      · obtain rfl : t₁ = t₂ := Option.some.inj (hx.symm.trans ht₀)
        rw [Traced, if_neg (Ne.symm hne)]
        rfl
    · rw [hsome, hx] at hx'
      cases hx'
    · rw [← hsome, hx'] at hx
      cases hx
  | adopted | failed | killed | gaveUp | supports | excused | unsaved | vetoed | linked | unlinked | tagged |
    labelled | redefined | moved => exact hmod rfl rfl fun _ => rfl
  | wants parents ht hne =>
    refine ⟨[], .calm rfl fun x => ?_⟩
    simp only [Option.map_map]
    rfl
  | @registered s id t hnone _ _ _ _ _ =>
    refine ⟨[], by rw [List.append_nil], fun e he => absurd he List.not_mem_nil, fun x t₁ t₂ hx hx' => ?_,
      fun _ _ _ => rfl, fun x hx hx' => ?_⟩
    · have hxi : x ≠ id := fun he => by rw [he, hnone] at hx; cases hx
      simp only [Function.update_of_ne hxi, hx, Option.some.injEq] at hx'
      rw [← hx']
      rfl
    · by_cases hxi : x = id
      · simp [hxi] at hx'
      · simp only [Function.update_of_ne hxi] at hx'
        rw [hx'] at hx
        cases hx
  | flagged | quits => exact ⟨[], .calm rfl fun _ => rfl⟩
  | @removed s id t parents ht =>
    refine ⟨[], by rw [List.append_nil], fun e he => absurd he List.not_mem_nil, fun x t₁ t₂ hx hx' => ?_,
      fun x hx hx' => ?_, fun _ _ _ => rfl⟩
    · by_cases hxi : x = id
      · simp [hxi] at hx'
      · simp only [hxi, if_false, hx, Option.map_some, Option.some.injEq] at hx'
        rw [← hx']
        rfl
    · simp [hx] at hx'

theorem Edits.follows (h : Edits I c s s') (hs : s.Sane I) : ∃ es, Records.Follows I c s s' es := by
  induction h with
  | refl => exact ⟨[], .refl s⟩
  | @tail s₁ s₂ hes he ih =>
    obtain ⟨es, hfollows⟩ := ih
    obtain ⟨es', hstep⟩ := he.follows (Edits.sane hes hs)
    exact ⟨es ++ es', hfollows.trans hstep⟩

namespace Kernel

variable {k k' : Kernel τ} {msg : Option (KernelMessage τ)}

/-- What a turn adds to the log of state changes. -/
def Follows (I : Terms τ) (c : Cause) (k k' : Kernel τ) : Prop :=
  ∃ es, Records.Follows I c k.graph.records k'.graph.records es

theorem Moves.follows (h : Moves I c k k') (ht : Told I k.graph) (hs : k.graph.records.Sane I) :
    Follows I c k k' := by
  obtain ⟨-, s, he, hr⟩ := h ht hs
  obtain ⟨es, hf⟩ := he.follows hs
  rw [Follows, hr]
  exact ⟨es, hf.logged, hf.legal, hf.traced, hf.came, hf.went⟩

theorem Follows.legal (h : Follows I c k k') (hk : ∀ e ∈ k.graph.transitions, e.Legal I) :
    ∀ e ∈ k'.graph.transitions, e.Legal I := by
  obtain ⟨es, hf⟩ := h
  have hlog : k'.graph.transitions = k.graph.transitions ++ es := hf.logged
  rw [hlog]
  intro e he
  rcases List.mem_append.mp he with he | he
  · exact hk e he
  · exact hf.legal e he

theorem Founded.legal {k₀ : Kernel τ} (hb : Founded I k₀) : ∀ e ∈ k₀.graph.transitions, e.Legal I := by
  obtain ⟨-, s, hs, hnone, he⟩ := hb.edits
  obtain ⟨es, hf⟩ := he.follows hs
  have hlog : k₀.graph.transitions = s.transitions ++ es := hf.logged
  rw [hlog, hnone]
  exact hf.legal

theorem Run.legal {k₀ : Kernel τ} (hb : Founded I k₀) (h : Run (Admitted I) k₀.afterDispatch k) :
    ∀ e ∈ k.graph.transitions, e.Legal I := by
  induction h with
  | refl =>
    obtain ⟨ht, hs⟩ := hb.sound
    exact ((moves_afterDispatch (c := .itself) k₀).follows ht hs).legal hb.legal
  | tail hr hok hstep ih =>
    obtain ⟨hv, ht, hs⟩ := Run.sound hb hr
    exact ((moves_step hv hok hstep).follows ht hs).legal ih

/-- Tasks report what they like, and what is registered is fit. -/
def openTerms : Terms ChannelTask where
  reports _ := True
  answers _ _ _ _ := trivial
  fit := True

/-- Registered pinned and with a saved pin at once. -/
def twicePinned : Kernel ChannelTask :=
  ((Kernel.new .sorted 0).registerTaskRegistration { lone with def' := { pinned := true, savedPin := true } }).1

/-- A snapshot that says of an idle task that it was killed. -/
def killedIdle : Snap.Task where
  id := 1
  space := .defaultSpace
  path := none
  label := none
  tags := []
  pinned := false
  deps := []
  restart := .never
  job := false
  readyTimeoutMs := none
  stopTimeoutMs := none
  state := .idle
  vetoed := false
  killed := true
  startFailed := false
  stopTimedOut := false
  savedPin := false
  attempts := 0
  lastStartSecsAgo := none
  timerMs := none
  spec := none
  runSpec := none
  origin := none
  kind := ⟨0⟩

def killedRestored : Kernel ChannelTask :=
  ((Kernel.new .sorted 0).restore 0 2 [(some killedIdle, .task { lone with def' := {} })]).1

end Kernel

end Dekit
