import Dekit.Recording
import Dekit.Located
import Dekit.Globs
import Dekit.Waits

namespace Dekit

namespace Record

variable {τ : Type}

def hasEnded (t : Record τ) : Bool :=
  match t.state with
  | .exited _ | .done _ => true
  | .stopping => t.startFailed && match t.exitState { ExitInfo.error with readyTimeout := true } with
    | .exited _ => true
    | _ => false
  | .idle | .starting | .running | .ready | .backoff _ => false

def reason (t : Record τ) : Option StateReason :=
  match t.state with
  | .backoff info | .done info | .exited info => if info.readyTimeout then some .readyTimeout else none
  | .stopping => if t.startFailed then some .readyTimeout else none
  | .idle => if t.stopTimedOut then some .killTimeout else none
  | .starting | .running | .ready => none

end Record

/-- What of a task those who wait and watch look at. -/
@[ext]
structure Outlook where
  state : TaskState
  satisfied : Bool
  ended : Bool
  wanted : Bool
  stopTimedOut : Bool
  reason : Option StateReason
  space : TaskSpaceId
  path : Option TaskPath
  label : Option String
  tags : List String

def Record.outlook {τ : Type} (t : Record τ) : Outlook :=
  ⟨t.state, t.isSatisfied, t.hasEnded, t.wanted, t.stopTimedOut, t.reason, t.space, t.path, t.label, t.tags⟩

def TaskHandle.outlook {τ : Type} (t : TaskHandle τ) : Outlook :=
  ⟨t.state, t.isSatisfied, t.hasEnded, t.wanted, t.stopTimedOut, t.reason, t.space, t.path, t.label, t.tags⟩

@[simp] theorem TaskHandle.record_outlook {τ : Type} (t : TaskHandle τ) : t.record.outlook = t.outlook := rfl

namespace Records

variable {τ : Type} [Task τ] {I : Terms τ} {c : Cause} {s s' s'' : Records τ} {id x : TaskId}

/-- Nobody who waits or watches sees a difference. -/
structure Unseen (s s' : Records τ) : Prop where
  outlooks : ∀ x, (s'.tasks x).map Record.outlook = (s.tasks x).map Record.outlook
  deps : s'.deps = s.deps

omit [Task τ] in
theorem Unseen.refl (s : Records τ) : Unseen s s := ⟨fun _ => rfl, rfl⟩

omit [Task τ] in
theorem Unseen.trans (h : Unseen s s') (h' : Unseen s' s'') : Unseen s s'' :=
  ⟨fun x => (h'.outlooks x).trans (h.outlooks x), h'.deps.trans h.deps⟩

omit [Task τ] in
theorem Unseen.modified {f : Record τ → Record τ} (hf : ∀ t, s.tasks id = some t → (f t).outlook = t.outlook) :
    Unseen s (s.modify id f) := by
  refine ⟨fun x => ?_, rfl⟩
  rw [tasks_modify]
  split
  · rename_i hx
    cases ht : s.tasks x with
    | none => rfl
    | some t => exact congrArg some (hf t (hx ▸ ht))
  · rfl

end Records

variable {τ : Type} [Task τ] {I : Terms τ} {c : Cause} {s s' : Records τ}

omit [Task τ] in
theorem idle_outlook {t : Record τ} (h : t.state = .idle) (kind : TaskKind) (ready : ReadyMode) :
    ({ t with kind, ready } : Record τ).outlook = t.outlook := by
  have hsat (kind : TaskKind) : TaskState.idle.satisfies kind = false := by cases kind <;> rfl
  unfold Record.outlook Record.isSatisfied Record.hasEnded Record.reason
  simp only [h, hsat]

theorem Edit.unseen (h : Edit I c s s') (hc : s'.changed = false) : s.changed = false ∧ Records.Unseen s s' := by
  cases h with
  | entered | gaveUp | wants | excused | linked | unlinked | labelled | redefined | registered | flagged | removed =>
    cases hc
  | @adopted _ s id t kind ready ht hidle =>
    refine ⟨hc, .modified fun t' ht' => ?_⟩
    obtain rfl : t = t' := Option.some.inj (ht.symm.trans ht')
    exact idle_outlook hidle kind ready
  | failed ht hs htime hflag =>
    have hc' : s.changed = false := hc
    rw [hflag] at hc'
    cases hc'
  | killed => exact ⟨hc, .modified fun _ _ => rfl⟩
  | supports => exact ⟨hc, .modified fun _ _ => rfl⟩
  | unsaved => exact ⟨hc, .modified fun _ _ => rfl⟩
  | vetoed => exact ⟨hc, .modified fun _ _ => rfl⟩
  | @tagged s id t own ht =>
    simp only [Bool.or_eq_false_iff, decide_eq_false_iff_not, not_not] at hc
    refine ⟨hc.1, ⟨fun x => ?_, rfl⟩⟩
    have hm : Records.Unseen s (s.modify id fun t => { t with tags := own }) := .modified fun t' ht' => by
      obtain rfl : t = t' := Option.some.inj (ht.symm.trans ht')
      rw [← hc.2]
    exact hm.outlooks x
  | moved id path hflag =>
    have hc' : s.changed = false := hc
    rw [hflag] at hc'
    cases hc'
  | quits => exact ⟨hc, ⟨fun _ => rfl, rfl⟩⟩

theorem Edits.unseen (h : Edits I c s s') (hc : s'.changed = false) : s.changed = false ∧ Records.Unseen s s' := by
  induction h with
  | refl => exact ⟨hc, .refl s⟩
  | tail _ he ih =>
    obtain ⟨hmid, hlast⟩ := he.unseen hc
    obtain ⟨hfirst, hpre⟩ := ih hmid
    exact ⟨hfirst, hpre.trans hlast⟩

def anyTerms (τ : Type) [Task τ] : Terms τ where
  reports _ := True
  answers _ _ _ _ := trivial
  fit := False

theorem allows_anyTerms (command : KernelCommand τ) : (anyTerms τ).Allows command := by
  cases command with
  | registerTask => exact fun h => h.elim
  | registerTasks => exact fun h => h.elim
  | _ => trivial

namespace Graph

variable {g g' : Graph τ} {id x : TaskId} {cond : WaitCond}

/-- Those who wait and watch see no difference between two graphs. -/
structure Unseen (g g' : Graph τ) : Prop where
  outlooks : ∀ x, (g'.tasks.lookup x).map TaskHandle.outlook = (g.tasks.lookup x).map TaskHandle.outlook
  edges : g'.edges = g.edges
  matching : ∀ selector x, x ∈ g'.matchingIds selector ↔ x ∈ g.matchingIds selector

omit [Task τ] in
theorem mem_walkSpaces (g : Graph τ) (names : Finset String) (s : TaskSpaceId) :
    s ∈ g.walkSpaces names ↔ s ∈ names := by
  unfold walkSpaces
  rw [← List.mem_toFinset, g.hasher.names_toFinset]

omit [Task τ] in
theorem mem_matchingIds {pending : TaskSpaceId → List TaskPath} (ht : g.Listed pending)
    (hi : ∀ tag x, x ∈ g.tags tag ↔ ∃ t, g.tasks.lookup x = some t ∧ tag ∈ t.tags)
    (selector : TaskSelector) (x : TaskId) : x ∈ g.matchingIds selector ↔
      ∃ o, (g.tasks.lookup x).map TaskHandle.outlook = some o ∧ match selector with
        | .id id => x = id
        | .glob space pattern => space.Names o.space ∧ ∃ p, o.path = some p ∧
            GlobMatch (pattern.filter (· ≠ "")) p ∧ p ≠ []
        | .tag space tag => space.Names o.space ∧ tag ∈ o.tags := by
  cases selector with
  | id id =>
    simp only [matchingIds]
    constructor
    · intro h
      split at h
      · rename_i hid
        obtain rfl := List.mem_singleton.mp h
        obtain ⟨t, hl⟩ := Finmap.mem_iff.mp hid
        exact ⟨t.outlook, by rw [hl]; rfl, rfl⟩
      · cases h
    · rintro ⟨o, ho, rfl⟩
      obtain ⟨t, hl, -⟩ := Option.map_eq_some_iff.mp ho
      rw [if_pos (Finmap.mem_of_lookup_eq_some hl)]
      exact List.mem_singleton_self x
  | glob space pattern =>
    simp only [matchingIds]
    rw [Namespace.mem_glob (fun s => (ht.held s).named) (mem_walkSpaces g)]
    have hfound (s : TaskSpaceId) (p : TaskPath) := ht.tasks s p x
    constructor
    · rintro ⟨s, p, hs, hr, hm⟩
      rw [← PathTrie.content_task] at hr
      obtain ⟨t, hl, hh⟩ := Option.map_eq_some_iff.mp ((hfound s p).mp hr)
      obtain ⟨hspace, hpath⟩ := Prod.mk.inj hh
      refine ⟨t.outlook, by rw [hl]; rfl, ?_, p, hpath, hm⟩
      rw [show t.outlook.space = s from hspace]
      exact hs
    · rintro ⟨o, ho, hs, p, hp, hm⟩
      obtain ⟨t, hl, rfl⟩ := Option.map_eq_some_iff.mp ho
      refine ⟨t.space, p, hs, ?_, hm⟩
      rw [← PathTrie.content_task]
      refine (hfound t.space p).mpr ?_
      rw [hl]
      exact congrArg some (Prod.ext rfl hp)
  | tag space tag =>
    simp only [matchingIds, tasksWithTag, List.mem_filter, mem_walk, hi]
    constructor
    · rintro ⟨⟨t, hl, htag⟩, hs⟩
      refine ⟨t.outlook, by rw [hl]; rfl, ?_, htag⟩
      cases space with
      | any => trivial
      | one space =>
        rw [hl] at hs
        show t.space = space
        simpa using hs
    · rintro ⟨o, ho, hs, htag⟩
      obtain ⟨t, hl, rfl⟩ := Option.map_eq_some_iff.mp ho
      refine ⟨⟨t, hl, htag⟩, ?_⟩
      cases space with
      | any => rfl
      | one space =>
        have hspace : t.space = space := hs
        rw [hl]
        simpa using hspace

theorem index_of_sane {I : Terms τ} (h : g.records.Sane I) (tag : String) (x : TaskId) :
    x ∈ g.tags tag ↔ ∃ t, g.tasks.lookup x = some t ∧ tag ∈ t.tags := by
  refine (h.index tag x).trans ?_
  constructor
  · rintro ⟨t, ht, htag⟩
    obtain ⟨t₀, ht₀, rfl⟩ := tasks_some ht
    exact ⟨t₀, ht₀, htag⟩
  · rintro ⟨t, ht, htag⟩
    exact ⟨t.record, tasks_of_lookup ht, htag⟩

theorem unseen_of {I : Terms τ} (ht : g.Tidy) (ht' : g'.Tidy) (hs : g.records.Sane I) (hs' : g'.records.Sane I)
    (h : Records.Unseen g.records g'.records) : Unseen g g' := by
  have hout (x : TaskId) : (g'.tasks.lookup x).map TaskHandle.outlook = (g.tasks.lookup x).map TaskHandle.outlook := by
    have hx := h.outlooks x
    simp only [records, Option.map_map] at hx
    exact hx
  refine ⟨hout, h.deps, fun selector x => ?_⟩
  rw [mem_matchingIds ht (index_of_sane hs), mem_matchingIds ht' (index_of_sane hs'), hout]

namespace Unseen

omit [Task τ]

theorem trans {g'' : Graph τ} (h : Unseen g g') (h' : Unseen g' g'') : Unseen g g'' :=
  ⟨fun x => (h'.outlooks x).trans (h.outlooks x), h'.edges.trans h.edges,
    fun selector x => (h'.matching selector x).trans (h.matching selector x)⟩

theorem lookup (h : Unseen g g') (x : TaskId) : g.tasks.lookup x = none ∧ g'.tasks.lookup x = none ∨
    ∃ t t', g.tasks.lookup x = some t ∧ g'.tasks.lookup x = some t' ∧ t'.outlook = t.outlook := by
  have hx := h.outlooks x
  cases ht : g.tasks.lookup x with
  | none =>
    rw [ht, Option.map_none, Option.map_eq_none_iff] at hx
    exact .inl ⟨rfl, hx⟩
  | some t =>
    rw [ht, Option.map_some, Option.map_eq_some_iff] at hx
    obtain ⟨t', ht', ho⟩ := hx
    exact .inr ⟨t, t', rfl, ht', ho⟩

theorem satisfied (h : Unseen g g') (x : TaskId) : g'.satisfied x = g.satisfied x := by
  unfold Graph.satisfied
  rcases h.lookup x with ⟨ht, ht'⟩ | ⟨t, t', ht, ht', ho⟩
  · rw [ht, ht']
  · rw [ht, ht']
    exact congrArg Outlook.satisfied ho

theorem liveFrom (h : Unseen g g') (fuel : ℕ) (x : TaskId) : g'.liveFrom fuel x = g.liveFrom fuel x := by
  induction fuel generalizing x with
  | zero => rfl
  | succ fuel ih =>
    unfold Graph.liveFrom
    rcases h.lookup x with ⟨ht, ht'⟩ | ⟨t, t', ht, ht', ho⟩
    · rw [ht, ht']
      rfl
    · rw [ht, ht']
      simp only [Option.any_some, h.edges, h.satisfied, ih, show t'.wanted = t.wanted from congrArg Outlook.wanted ho,
        show t'.hasEnded = t.hasEnded from congrArg Outlook.ended ho]

theorem keys (h : Unseen g g') : g'.tasks.keys = g.tasks.keys := by
  ext x
  rw [Finmap.mem_keys, Finmap.mem_keys, ← Finmap.lookup_isSome, ← Finmap.lookup_isSome]
  have hx := congrArg Option.isSome (h.outlooks x)
  rw [Option.isSome_map, Option.isSome_map] at hx
  rw [hx]

theorem isLive (h : Unseen g g') (x : TaskId) : g'.isLive x = g.isLive x := by
  unfold Graph.isLive
  rw [h.keys, h.liveFrom]

theorem waitStanding (h : Unseen g g') (cond : WaitCond) (x : TaskId) :
    g'.waitStanding cond x = g.waitStanding cond x := by
  unfold Graph.waitStanding
  rcases h.lookup x with ⟨ht, ht'⟩ | ⟨t, t', ht, ht', ho⟩
  · rw [ht, ht']
  · have hstate : t'.state = t.state := congrArg Outlook.state ho
    have hbad : t'.endedBadly = t.endedBadly := by
      unfold TaskHandle.endedBadly
      rw [hstate, show t'.stopTimedOut = t.stopTimedOut from congrArg Outlook.stopTimedOut ho,
        show t'.wanted = t.wanted from congrArg Outlook.wanted ho]
    rw [ht, ht']
    simp only [hstate, hbad, h.isLive, show t'.isSatisfied = t.isSatisfied from congrArg Outlook.satisfied ho,
      show t'.stopTimedOut = t.stopTimedOut from congrArg Outlook.stopTimedOut ho]

theorem waitTaskSame (h : Unseen g g') (last : WaitTask) (x : TaskId) (standing : Standing) :
    g'.waitTaskSame last x standing = g.waitTaskSame last x standing := by
  unfold Graph.waitTaskSame
  rcases h.lookup x with ⟨ht, ht'⟩ | ⟨t, t', ht, ht', ho⟩
  · rw [ht, ht']
  · rw [ht, ht']
    simp only [Option.all_some, show t'.state = t.state from congrArg Outlook.state ho,
      show t'.reason = t.reason from congrArg Outlook.reason ho, show t'.path = t.path from congrArg Outlook.path ho,
      show t'.label = t.label from congrArg Outlook.label ho]

theorem any_state (h : Unseen g g') {f : TaskHandle τ → Bool} (hf : ∀ t t', t'.state = t.state → f t' = f t)
    (x : TaskId) : (g'.tasks.lookup x).any f = (g.tasks.lookup x).any f := by
  rcases h.lookup x with ⟨ht, ht'⟩ | ⟨t, t', ht, ht', ho⟩
  · rw [ht, ht']
  · rw [ht, ht', Option.any_some, Option.any_some]
    exact hf t t' (congrArg Outlook.state ho)

theorem anyActive (h : Unseen g g') (selector : TaskSelector) : g'.anyActive selector = g.anyActive selector := by
  unfold Graph.anyActive
  rw [Bool.eq_iff_iff, List.any_eq_true, List.any_eq_true]
  refine exists_congr fun x => and_congr (h.matching selector x) ?_
  rw [h.any_state fun t t' hstate => by simp only [hstate]]

end Unseen

end Graph

open Dekit.Graph

namespace Kernel

variable {k : Kernel τ} {msg : KernelMessage τ}

theorem Reachable.sane (h : Reachable k) : Told (anyTerms τ) k.graph ∧ k.graph.records.Sane (anyTerms τ) := by
  induction h with
  | @start k hb =>
    have hf : Founded (anyTerms τ) k := hb.founded id
    have hm := moves_afterDispatch (I := anyTerms τ) (c := .itself) k
    exact ⟨(hm hf.sound.1 hf.sound.2).1, hm.sane hf.sound.1 hf.sound.2⟩
  | step hr hs ih =>
    have hm := moves_step (I := anyTerms τ) (valid_of_reachable hr) (fun _ _ => allows_anyTerms _) hs
    exact ⟨(hm ih.1 ih.2).1, hm.sane ih.1 ih.2⟩

def dispatched (k : Kernel τ) (now : Instant) (msg : KernelMessage τ) : Graph τ :=
  (({ k with graph := { k.graph with now } } : Kernel τ).dispatch msg).1.graph

theorem edits_dispatched (hv : Valid k.graph) (ht : Told (anyTerms τ) k.graph) (hs : k.graph.records.Sane (anyTerms τ))
    (now : Instant) (msg : KernelMessage τ) : Told (anyTerms τ) (k.dispatched now msg) ∧
      Edits (anyTerms τ) (k.cause msg) k.graph.records (k.dispatched now msg).records := by
  have hnow : Writes (anyTerms τ) (k.cause msg) k.graph { k.graph with now } := .aside (.of_eq rfl rfl)
  have hd : Writes (anyTerms τ) (k.cause msg) { k.graph with now } (k.dispatched now msg) :=
    writes_dispatch (k := { k with graph := { k.graph with now } }) (hv.same rfl rfl rfl rfl) (allows_anyTerms _)
  exact (hnow.trans hd) ht hs

end Kernel

end Dekit
