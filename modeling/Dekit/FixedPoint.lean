import Dekit.Frames

namespace Dekit.View

open Relation

variable {v w : View} {id x : TaskId} {n m : Node}

def vetoed (v : View) (x : TaskId) : Bool := (v.node x).any (·.vetoed)

def satisfied (v : View) (x : TaskId) : Bool := (v.node x).any (·.isSatisfied)

def Pull (v : View) (a b : TaskId) : Prop := v.Dep a b ∧ v.vetoed b = false

/-- Whether a task should be up: reachable from a pin through tasks that are not vetoed. -/
def Wants (v : View) (x : TaskId) : Prop := v.quitting = false ∧ TransGen v.Pull initTaskId x

/-- Whether a task may run: wanted, with each dependency allowed to run itself and satisfied. -/
inductive Supported (v : View) : TaskId → Prop
  | intro {x : TaskId} : v.Wants x → (∀ d, v.Dep x d → Supported v d) →
      (∀ d, v.Dep x d → v.satisfied d = true) → Supported v x

/-- The caches at a fixed point, with what a drive then still leaves of them. -/
structure Fixed (v : View) : Prop where
  wanted : ∀ x n, v.node x = some n → n.wanted = v.computeWanted n
  supported : ∀ x n, v.node x = some n → n.supported = true →
    n.wanted = true ∧ ∀ d ∈ v.deps x, v.supports d = true

/-- A task may start: it is wanted, and so is all it needs, and ready. -/
structure StartOk (v : View) (id : TaskId) : Prop where
  running : v.quitting = false
  wanted : TransGen v.Pull initTaskId id
  closure : ∀ d, TransGen v.Dep id d → v.Wants d ∧ v.isWanted d = true ∧ v.vetoed d = false ∧
    v.satisfied d = true

/-- No task is active that requires the stopped one through a chain of active tasks. -/
def StopOk (v : View) (id : TaskId) : Prop :=
  ∀ a, TransGen (fun a b => v.Dep a b ∧ (b = id ∨ v.isActive b = true)) a id → v.isActive a = false

theorem Shape.wellFounded (h : Shape v) : WellFounded v.Dep :=
  Dag.wellFounded (s := insert initTaskId v.ids)
    (fun a b hab => Finset.mem_insert.mpr (h.source a b hab)) h.acyclic

theorem Shape.wellFounded_swap (h : Shape v) : WellFounded (fun a b => v.Dep b a) :=
  Dag.wellFounded_swap (s := v.ids) h.target h.acyclic

theorem vetoed_of_node (hn : v.node x = some n) : v.vetoed x = n.vetoed := by simp [vetoed, hn]

theorem satisfied_of_node (hn : v.node x = some n) : v.satisfied x = n.isSatisfied := by
  simp [satisfied, hn]

theorem computeWanted_iff (hs : Shape v) (hc : Counts v) (hn : v.node x = some n) :
    v.computeWanted n = true ↔
      v.quitting = false ∧ v.vetoed x = false ∧ ∃ p, v.Dep p x ∧ v.isWanted p = true := by
  simp only [computeWanted, vetoed_of_node hn, hc.wantedParents x n hn, Bool.and_eq_true,
    decide_eq_true_eq, tally_pos_iff, Dep, hs.inverse, Bool.not_eq_true', and_assoc]

theorem wants_of_wanted (hs : Shape v) (hc : Counts v)
    (hw : ∀ x n, v.node x = some n → n.wanted = v.computeWanted n) (x : TaskId) (n : Node)
    (hn : v.node x = some n) (hx : n.wanted = true) : v.Wants x := by
  induction x using hs.wellFounded.induction generalizing n with
  | _ x ih =>
    rw [hw x n hn, computeWanted_iff hs hc hn] at hx
    obtain ⟨hq, hv, p, hp, hpw⟩ := hx
    refine ⟨hq, ?_⟩
    by_cases hpi : p = initTaskId
    · exact hpi ▸ .single ⟨hp, hv⟩
    · cases hpn : v.node p with
      | none => simp [isWanted, hpi, hpn] at hpw
      | some m =>
        rw [isWanted_of_node hpi hpn] at hpw
        exact (ih p hp m hpn hpw).2.tail ⟨hp, hv⟩

theorem wanted_of_wants (hs : Shape v) (hc : Counts v)
    (hw : ∀ x n, v.node x = some n → n.wanted = v.computeWanted n) (hx : v.Wants x)
    (hn : v.node x = some n) : n.wanted = true := by
  obtain ⟨hq, hreach⟩ := hx
  induction hreach generalizing n with
  | single h =>
    rw [hw _ n hn, computeWanted_iff hs hc hn]
    exact ⟨hq, h.2, initTaskId, h.1, by simp [isWanted]⟩
  | @tail p x hp h ih =>
    rw [hw _ n hn, computeWanted_iff hs hc hn]
    obtain ⟨q, -, hpd, -⟩ := TransGen.tail'_iff.mp hp
    have hpid := hs.target _ _ hpd
    obtain ⟨m, hm⟩ := Option.isSome_iff_exists.mp ((hs.registered p).mp hpid)
    exact ⟨hq, h.2, p, h.1, by rw [isWanted_of_node (hs.ne_init hpid) hm]; exact ih hm⟩

theorem wanted_iff (hs : Shape v) (hc : Counts v)
    (hw : ∀ x n, v.node x = some n → n.wanted = v.computeWanted n) (hn : v.node x = some n) :
    n.wanted = true ↔ v.Wants x :=
  ⟨wants_of_wanted hs hc hw x n hn, fun hx => wanted_of_wants hs hc hw hx hn⟩

theorem computeSupported_iff : v.computeSupported x n = true ↔
    n.wanted = true ∧ ∀ d, v.Dep x d → v.supports d = true := by
  simp [computeSupported, Dep]

theorem supported_iff (hs : Shape v) (hc : Counts v) (hf : Fresh v ∅) (hd : v.dirty = ∅)
    (hn : v.node x = some n) : n.supported = true ↔ v.Supported x := by
  have hat (x : TaskId) (n : Node) (hn : v.node x = some n) : v.FreshAt x n :=
    hf x n hn (by simp [hd]) (by simp)
  have hwant (x : TaskId) (n : Node) (hn : v.node x = some n) : n.wanted = true ↔ v.Wants x :=
    wanted_iff hs hc (fun x n hn => (hat x n hn).1) hn
  induction x using hs.wellFounded_swap.induction generalizing n with
  | _ x ih =>
    rw [(hat x n hn).2, computeSupported_iff, hwant x n hn]
    have hdep (d : TaskId) (hd : v.Dep x d) :
        v.supports d = true ↔ v.Supported d ∧ v.satisfied d = true := by
      obtain ⟨m, hm⟩ := Option.isSome_iff_exists.mp ((hs.registered d).mp (hs.target x d hd))
      rw [supports_of_node hm, satisfied_of_node hm, Bool.and_eq_true]
      exact and_congr_left' (ih d hd hm)
    constructor
    · rintro ⟨hw, hsup⟩
      exact .intro hw (fun d hd => ((hdep d hd).mp (hsup d hd)).1)
        fun d hd => ((hdep d hd).mp (hsup d hd)).2
    · rintro ⟨hw, hsup, hsat⟩
      exact ⟨hw, fun d hd => (hdep d hd).mpr ⟨hsup d hd, hsat d hd⟩⟩

/-- What a change of another task's state, or of its own, leaves of a node. -/
structure Kept (id : TaskId) (state : TaskState) (x : TaskId) (n m : Node) : Prop where
  wanted : m.wanted = n.wanted
  supported : m.supported = n.supported
  vetoed : m.vetoed = n.vetoed
  wantedParents : m.wantedParents = n.wantedParents
  kind : m.kind = n.kind
  state : m.state = if x = id then state else n.state

theorem setState_node {state : TaskState} (hn : v.node id = some n) (hs : n.state ≠ state) (x : TaskId) :
    (v.setState id state).node x =
      let m := if x = id then some (n.setState state) else v.node x
      if n.state.isActive ≠ state.isActive ∧ x ∈ v.deps id then
        m.map (.count false true (if state.isActive then 1 else -1))
      else m := by
  unfold View.setState
  simp only [hn, hs, if_false]
  have hw : (if n.isSatisfied = (n.setState state).isSatisfied then
        (v.revise {id} (.setState state)).touch {id}
      else ((v.revise {id} (.setState state)).touch {id}).touch (v.requirers id)).node x =
      if x = id then some (n.setState state) else v.node x := by
    have hr : (v.revise {id} (.setState state)).node x =
        if x = id then some (n.setState state) else v.node x := by
      by_cases hx : x = id <;> simp [hx, hn]
    split <;> exact hr
  by_cases hact : n.state.isActive = state.isActive
  · rw [if_pos hact, hw]
    simp [hact]
  · rw [if_neg hact, touch_node, revise_node, hw]
    simp [hact]

theorem setState_of_eq {state : TaskState} (hn : v.node id = some n) (hs : n.state = state) :
    v.setState id state = v := by
  unfold View.setState
  simp [hn, hs]

theorem node_setState {state : TaskState} (hm : (v.setState id state).node x = some m) :
    ∃ m₀, v.node x = some m₀ ∧ Kept id state x m₀ m := by
  by_cases hch : ∃ n, v.node id = some n ∧ n.state ≠ state
  · obtain ⟨n, hn, hs⟩ := hch
    rw [setState_node hn hs] at hm
    by_cases hx : x = id
    · subst hx
      refine ⟨n, hn, ?_⟩
      simp only [if_true] at hm
      split at hm <;> obtain rfl := by simpa using hm
      all_goals exact ⟨rfl, rfl, rfl, rfl, rfl, (if_pos rfl).symm⟩
    · simp only [hx, if_false] at hm
      split at hm
      · obtain ⟨m₀, hm₀, rfl⟩ := Option.map_eq_some_iff.mp hm
        exact ⟨m₀, hm₀, rfl, rfl, rfl, rfl, rfl, (if_neg hx).symm⟩
      · exact ⟨m, hm, rfl, rfl, rfl, rfl, rfl, (if_neg hx).symm⟩
  · have hsame : v.setState id state = v := by
      unfold View.setState
      cases hn : v.node id with
      | none => rfl
      | some n => simp [by_contra fun hne : n.state ≠ state => hch ⟨n, hn, hne⟩]
    rw [hsame] at hm
    refine ⟨m, hm, rfl, rfl, rfl, rfl, rfl, ?_⟩
    split
    · rename_i hx
      exact by_contra fun hne => hch ⟨m, hx ▸ hm, hne⟩
    · rfl

theorem setState_same (v : View) (id : TaskId) (state : TaskState) :
    (v.setState id state).quitting = v.quitting ∧ (v.setState id state).ids = v.ids ∧
      (v.setState id state).deps = v.deps ∧ (v.setState id state).requirers = v.requirers := by
  unfold View.setState
  cases v.node id with
  | none => exact ⟨rfl, rfl, rfl, rfl⟩
  | some n =>
    simp only
    split
    · exact ⟨rfl, rfl, rfl, rfl⟩
    · split <;> split <;> exact ⟨rfl, rfl, rfl, rfl⟩

namespace Fixed

theorem of_fresh (hf : Fresh v ∅) (hd : v.dirty = ∅) : Fixed v where
  wanted x n hn := (hf x n hn (by simp [hd]) (by simp)).1
  supported x n hn hx := by
    have hfs := (hf x n hn (by simp [hd]) (by simp)).2
    rw [hx, eq_comm, computeSupported_iff] at hfs
    exact hfs

theorem closure (hs : Shape v) (hc : Counts v) (h : Fixed v) (hn : v.node id = some n)
    (hid : n.supported = true) {d : TaskId} (hd : TransGen v.Dep id d) :
    v.supports d = true ∧ v.Wants d ∧ v.isWanted d = true ∧ v.vetoed d = false := by
  have hsup {d : TaskId} (hd : v.supports d = true) :
      ∃ m, v.node d = some m ∧ m.supported = true ∧ m.wanted = true := by
    cases hm : v.node d with
    | none => simp [supports, hm] at hd
    | some m =>
      rw [supports_of_node hm, Bool.and_eq_true] at hd
      exact ⟨m, rfl, hd.1, (h.supported d m hm hd.1).1⟩
  have hall : v.supports d = true := by
    induction hd with
    | single hd => exact (h.supported id n hn hid).2 _ hd
    | tail _ hd ih =>
      obtain ⟨m, hm, hms, -⟩ := hsup ih
      exact (h.supported _ m hm hms).2 _ hd
  obtain ⟨m, hm, -, hmw⟩ := hsup hall
  have hwd := (wanted_iff hs hc h.wanted hm).mp hmw
  rw [h.wanted d m hm, computeWanted_iff hs hc hm] at hmw
  refine ⟨hall, hwd, ?_, hmw.2.1⟩
  rw [isWanted_of_node (hs.ne_init (hs.mem hm)) hm]
  exact wanted_of_wants hs hc h.wanted hwd hm

theorem startOk (hs : Shape v) (hc : Counts v) (h : Fixed v) (hn : v.node id = some n)
    (hid : n.supported = true) : StartOk v id := by
  have hw := (wanted_iff hs hc h.wanted hn).mp (h.supported id n hn hid).1
  refine ⟨hw.1, hw.2, fun d hd => ?_⟩
  obtain ⟨hsup, hwd, hcw, hv⟩ := closure hs hc h hn hid hd
  refine ⟨hwd, hcw, hv, ?_⟩
  cases hm : v.node d with
  | none => simp [supports, hm] at hsup
  | some m =>
    rw [supports_of_node hm, Bool.and_eq_true] at hsup
    rw [satisfied_of_node hm]
    exact hsup.2

theorem setState (h : Fixed v) (hn : v.node id = some n) (hsup : (n.supported && n.isSatisfied) = false)
    (state : TaskState) : Fixed (v.setState id state) := by
  have hsupports (d : TaskId) (hd : v.supports d = true) : (v.setState id state).supports d = true := by
    have hdi : d ≠ id := fun he => by
      rw [he, supports_of_node hn, hsup] at hd
      simp at hd
    rw [← hd]
    by_cases hs : n.state = state
    · rw [setState_of_eq hn hs]
    · simp only [supports, setState_node hn hs, hdi, if_false]
      split
      · cases v.node d <;> rfl
      · rfl
  refine ⟨fun x m hm => ?_, fun x m hm hx => ?_⟩
  · obtain ⟨m₀, hm₀, hk⟩ := node_setState hm
    rw [hk.wanted, h.wanted x m₀ hm₀]
    simp only [computeWanted, hk.vetoed, hk.wantedParents, (setState_same v id state).1]
  · obtain ⟨m₀, hm₀, hk⟩ := node_setState hm
    obtain ⟨hw, hd⟩ := h.supported x m₀ hm₀ (hk.supported ▸ hx)
    rw [(setState_same v id state).2.2.1]
    exact ⟨hk.wanted ▸ hw, fun d hm => hsupports d (hd d hm)⟩

theorem alike (h : Fixed v) (ha : Alike v w) : Fixed w where
  wanted x m hm := by
    obtain ⟨n, hn, hk⟩ := ha.node x m hm
    rw [hk.wanted, h.wanted x n hn]
    simp only [computeWanted, hk.vetoed, hk.wantedParents, ha.quitting]
  supported x m hm hx := by
    obtain ⟨n, hn, hk⟩ := ha.node x m hm
    rw [ha.deps, ha.supports, hk.wanted]
    exact h.supported x n hn (hk.supported ▸ hx)

end Fixed

theorem stopOk_of_counts (hs : Shape v) (hc : Counts v) (hn : v.node id = some n)
    (h : n.activeDependents ≤ 0) : StopOk v id := by
  intro a ha
  -- The last link of the chain comes from a direct requirer, which is not active.
  have hlast : ∀ p, v.Dep p id → v.isActive p = false := by
    intro p hp
    by_contra hact
    have : 0 < n.activeDependents := by
      rw [hc.activeDependents id n hn, tally_pos_iff]
      exact ⟨p, (hs.inverse p id).mp hp, by simpa using hact⟩
    omega
  have hne : ∀ p, v.Dep p id → p ≠ id := fun p hp he => hs.not_self (he ▸ hp)
  rcases TransGen.tail'_iff.mp ha with ⟨p, hap, hp, -⟩
  rcases reflTransGen_iff_eq_or_transGen.mp hap with rfl | hap
  · exact hlast _ hp
  · obtain ⟨q, -, -, hq⟩ := TransGen.tail'_iff.mp hap
    rcases hq with rfl | hq
    · exact absurd rfl (hne _ hp)
    · rw [hlast p hp] at hq
      simp at hq

end Dekit.View
