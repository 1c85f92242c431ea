import Dekit.Unseen

namespace Dekit

variable {τ : Type}

namespace Graph

variable {g g' : Graph τ} {id : TaskId} {cond : WaitCond}

theorem removed_waitStanding (g : Graph τ) (cond : WaitCond) (id : TaskId) :
    (g.waitStanding cond id).removed = (g.tasks.lookup id).isNone := by
  unfold waitStanding
  cases g.tasks.lookup id <;> rfl

theorem id_waitTask (g : Graph τ) (cond : WaitCond) (id : TaskId) (standing : Standing) :
    (g.waitTask cond id none standing).info.id = id := by
  unfold waitTask info
  split
  · rfl
  · cases g.tasks.lookup id <;> rfl

theorem waitTaskSame_waitTask (g : Graph τ) (cond : WaitCond) (id : TaskId) (last : Option WaitTask) :
    g.waitTaskSame (g.waitTask cond id last (g.waitStanding cond id)) id (g.waitStanding cond id) = true := by
  have hr := removed_waitStanding g cond id
  generalize g.waitStanding cond id = standing at hr ⊢
  unfold waitTaskSame waitTask info
  cases ht : g.tasks.lookup id with
  | none =>
    rw [ht] at hr
    simp [show standing.removed = true from hr]
  | some t =>
    rw [ht] at hr
    simp [show standing.removed = false from hr]

end Graph

namespace WaitWatch

variable {g g' : Graph τ} {gone : Receivers} {w w' : WaitWatch} {id : TaskId}

def Told (g : Graph τ) (w : WaitWatch) (id : TaskId) : Prop :=
  ∃ last, w.last id = some last ∧ g.waitTaskSame last id (g.waitStanding w.cond id) = true

/-- Nothing to report, and no verdict. -/
structure UpToDate (g : Graph τ) (w : WaitWatch) : Prop where
  told : ∀ id ∈ w.ids, w.Told g id
  open' : waitVerdict w.cond ((w.standings g).map Prod.snd) = none

theorem Told.unseen (h : w.Told g id) (hu : g.Unseen g') : w.Told g' id := by
  obtain ⟨last, hl, hs⟩ := h
  refine ⟨last, hl, ?_⟩
  rw [hu.waitStanding, hu.waitTaskSame]
  exact hs

theorem UpToDate.unseen (h : w.UpToDate g) (hu : g.Unseen g') : w.UpToDate g' := by
  refine ⟨fun id hid => (h.told id hid).unseen hu, ?_⟩
  have hst : w.standings g' = w.standings g := by
    unfold standings
    exact List.map_congr_left fun id _ => by rw [hu.waitStanding]
  rw [hst]
  exact h.open'

theorem mem_standings {s : TaskId × Standing} : s ∈ w.standings g ↔ s.1 ∈ w.ids ∧ s.2 = g.waitStanding w.cond s.1 := by
  unfold standings
  rw [List.mem_map]
  constructor
  · rintro ⟨id, hid, rfl⟩
    exact ⟨hid, rfl⟩
  · rintro ⟨hid, hs⟩
    exact ⟨s.1, hid, Prod.ext rfl hs.symm⟩

theorem told_begin' (h : (w.begin' gone g).2 = true) :
    (w.begin' gone g).1.begun = true ∧ ∀ id ∈ (w.begin' gone g).1.ids, (w.begin' gone g).1.Told g id := by
  unfold begin' at h ⊢
  simp only at h ⊢
  split at h
  · rename_i hok
    rw [if_pos hok]
    refine ⟨rfl, fun id hid => ?_⟩
    let tasks := (w.standings g).map fun s => g.waitTask w.cond s.1 none s.2
    have hin : ∃ task ∈ tasks.reverse, (task.info.id == id) = true := by
      refine ⟨g.waitTask w.cond id none (g.waitStanding w.cond id), ?_, ?_⟩
      · rw [List.mem_reverse]
        exact List.mem_map.mpr ⟨(id, g.waitStanding w.cond id), mem_standings.mpr ⟨hid, rfl⟩, rfl⟩
      · rw [beq_iff_eq]
        exact g.id_waitTask _ _ _
    obtain ⟨last, hlast⟩ := Option.isSome_iff_exists.mp (List.find?_isSome.mpr hin)
    refine ⟨last, hlast, ?_⟩
    -- What is found under the id is what was sent for it.
    obtain ⟨s, hs, rfl⟩ := List.mem_map.mp (List.mem_reverse.mp (List.mem_of_find?_eq_some hlast))
    have hid' : s.1 = id := by
      have hfound := List.find?_some hlast
      rw [beq_iff_eq, g.id_waitTask] at hfound
      exact hfound
    obtain ⟨-, hst⟩ := mem_standings.mp hs
    rw [hst, hid']
    exact g.waitTaskSame_waitTask w.cond id none
  · cases h

theorem told_report (L : List (TaskId × Standing)) (w : WaitWatch) (hL : ∀ s ∈ L, s.2 = g.waitStanding w.cond s.1)
    (h : (report gone g L w).2 = true) :
    (report gone g L w).1.begun = w.begun ∧ (report gone g L w).1.cond = w.cond ∧ (report gone g L w).1.ids = w.ids ∧
      ∀ id, id ∈ L.map Prod.fst ∨ w.Told g id → (report gone g L w).1.Told g id := by
  induction L generalizing w with
  | nil => exact ⟨rfl, rfl, rfl, fun id hid => hid.resolve_left List.not_mem_nil⟩
  | cons s L ih =>
    obtain ⟨id, standing⟩ := s
    obtain rfl : standing = g.waitStanding w.cond id := hL (id, standing) List.mem_cons_self
    have hrest := fun s hs => hL s (List.mem_cons_of_mem _ hs)
    unfold report at h ⊢
    simp only at h ⊢
    split at h
    · rename_i hsame
      rw [if_pos hsame]
      obtain ⟨hb, hc, hi, ht⟩ := ih w hrest h
      refine ⟨hb, hc, hi, fun x hx => ht x ?_⟩
      rcases hx with hx | hx
      · rcases List.mem_cons.mp hx with rfl | hx
        · exact .inr (Option.any_eq_true _ _ |>.mp hsame)
        · exact .inl hx
      · exact .inr hx
    · rename_i hsame
      rw [if_neg hsame]
      split at h
      · rename_i hok
        rw [if_pos hok]
        obtain ⟨hb, hc, hi, ht⟩ := ih { w with
          events := (w.events.send gone (.changed (g.waitTask w.cond id (w.last id) (g.waitStanding w.cond id)))).1
          last := Function.update w.last id
            (some (g.waitTask w.cond id (w.last id) (g.waitStanding w.cond id))) } hrest h
        refine ⟨hb, hc, hi, fun x hx => ht x ?_⟩
        by_cases hxid : x = id
        · subst hxid
          refine .inr ⟨_, Function.update_self .., ?_⟩
          exact g.waitTaskSame_waitTask w.cond x (w.last x)
        · rcases hx with hx | ⟨last, hl, hs⟩
          · exact .inl ((List.mem_cons.mp hx).resolve_left hxid)
          · exact .inr ⟨last, (Function.update_of_ne hxid _ _).trans hl, hs⟩
      · cases h

theorem upToDate_conclude (ht : ∀ id ∈ w.ids, w.Told g id) (h : (w.conclude gone g).2 = true) :
    (w.conclude gone g).1.begun = w.begun ∧ (w.conclude gone g).1.UpToDate g := by
  unfold conclude at h ⊢
  split at h
  · cases h
  · rename_i hv
    exact ⟨rfl, ht, hv⟩

theorem advance_eq {r : WaitWatch × Bool}
    (h : (if w.begun then report gone g (w.standings g) w else w.begin' gone g) = r) :
    w.advance gone g = if r.2 then r.1.conclude gone g else r := by
  unfold advance
  rw [h]
  obtain ⟨w₁, keep⟩ := r
  cases keep <;> rfl

theorem upToDate_advance (h : (w.advance gone g).2 = true) :
    (w.advance gone g).1.begun = true ∧ (w.advance gone g).1.UpToDate g := by
  let reported := if w.begun then report gone g (w.standings g) w else w.begin' gone g
  have hr (h : reported.2 = true) : reported.1.begun = true ∧ ∀ id ∈ reported.1.ids, reported.1.Told g id := by
    unfold reported at h ⊢
    split at h
    · rename_i hbegun
      rw [if_pos hbegun]
      obtain ⟨hb, -, hi, ht⟩ := told_report (w.standings g) w (fun s hs => (mem_standings.mp hs).2) h
      refine ⟨hb.trans hbegun, fun id hid => ht id (.inl ?_)⟩
      rw [hi] at hid
      exact List.mem_map.mpr ⟨(id, g.waitStanding w.cond id), mem_standings.mpr ⟨hid, rfl⟩, rfl⟩
    · rename_i hbegun
      rw [if_neg hbegun]
      exact told_begin' h
  rw [advance_eq (r := reported) rfl] at h ⊢
  split at h
  · rename_i hkeep
    rw [if_pos hkeep]
    obtain ⟨hb, ht⟩ := hr hkeep
    obtain ⟨hb', hu⟩ := upToDate_conclude ht h
    exact ⟨hb'.trans hb, hu⟩
  · rename_i hkeep
    exact absurd h hkeep

theorem report_of_told (L : List (TaskId × Standing))
    (hL : ∀ s ∈ L, s.2 = g.waitStanding w.cond s.1 ∧ w.Told g s.1) : report gone g L w = (w, true) := by
  induction L with
  | nil => rfl
  | cons s L ih =>
    obtain ⟨id, standing⟩ := s
    obtain ⟨hst, last, hl, hs⟩ := hL (id, standing) List.mem_cons_self
    obtain rfl : standing = g.waitStanding w.cond id := hst
    unfold report
    rw [if_pos (by rw [hl]; exact hs)]
    exact ih fun s hs => hL s (List.mem_cons_of_mem _ hs)

theorem check_upToDate (hb : w.begun = true) (h : w.UpToDate g) : w.check gone g false = w.check gone g true := by
  have hr : report gone g (w.standings g) w = (w, true) :=
    report_of_told _ fun s hs => by
      obtain ⟨hid, hst⟩ := mem_standings.mp hs
      exact ⟨hst, h.told s.1 hid⟩
  have hlooks : w.advance gone g = w.conclude gone g := by
    rw [advance_eq (r := (w, true)) (by rw [if_pos hb, hr]), if_pos rfl]
  have hconclude : w.conclude gone g =
      ({ w with events := (w.events.isClosed gone).1 }, !(w.events.isClosed gone).2) := by
    unfold conclude
    rw [h.open']
  unfold check
  rw [if_pos (by rw [hb]; rfl), if_neg (by rw [hb]; decide), hlooks, hconclude]

end WaitWatch

namespace Listeners

variable {g g' : Graph τ} {gone : Receivers} {l : Listeners}

/-- A wait has yet to begin or has been told all, and a watch too. -/
structure UpToDate (g : Graph τ) (l : Listeners) : Prop where
  waits : ∀ w ∈ l.waits, w.begun = true → w.UpToDate g
  watches : ∀ w ∈ l.activeWatches, w.active = g.anyActive w.selector

theorem UpToDate.unseen (h : l.UpToDate g) (hu : g.Unseen g') : l.UpToDate g' := by
  refine ⟨fun w hw hb => (h.waits w hw hb).unseen hu, fun w hw => ?_⟩
  rw [hu.anyActive]
  exact h.watches w hw

theorem mem_kept {α : Type} {f : α → α × Bool} {l : List α} {b : α}
    (h : b ∈ ((l.map f).filter Prod.snd).map Prod.fst) : ∃ a ∈ l, (f a).2 = true ∧ (f a).1 = b := by
  obtain ⟨r, hr, rfl⟩ := List.mem_map.mp h
  obtain ⟨hm, hkeep⟩ := List.mem_filter.mp hr
  obtain ⟨a, ha, rfl⟩ := List.mem_map.mp hm
  exact ⟨a, ha, hkeep, rfl⟩

theorem upToDate_settled (g : Graph τ) (l : Listeners) : (l.settled true gone g).UpToDate g := by
  refine ⟨fun w hw _ => ?_, fun w hw => ?_⟩
  · obtain ⟨w₀, -, hk, rfl⟩ := mem_kept hw
    unfold WaitWatch.check at hk ⊢
    exact (WaitWatch.upToDate_advance hk).2
  · obtain ⟨w₀, -, hk, rfl⟩ := mem_kept hw
    unfold ActiveWatch.check at hk ⊢
    simp only at hk ⊢
    split at hk
    · rename_i hsame
      rw [if_pos hsame]
      exact hsame.symm
    · rename_i hsame
      rw [if_neg hsame]

theorem checkActiveWatches_upToDate (h : l.UpToDate g) : l.checkActiveWatches gone g = l := by
  have hcheck : l.activeWatches.map (ActiveWatch.check gone g) = l.activeWatches.map (fun w => (w, true)) :=
    List.map_congr_left fun w hw => by
      unfold ActiveWatch.check
      exact if_pos (h.watches w hw).symm
  have hkept : (l.activeWatches.map (fun w => (w, true))).filter Prod.snd = l.activeWatches.map (fun w => (w, true)) :=
    List.filter_eq_self.mpr fun r hr => by
      obtain ⟨w, -, rfl⟩ := List.mem_map.mp hr
      rfl
  have hended : (l.activeWatches.map (fun w => (w, true))).filter (!·.2) = [] :=
    List.filter_eq_nil_iff.mpr fun r hr => by
      obtain ⟨w, -, rfl⟩ := List.mem_map.mp hr
      exact Bool.false_ne_true
  have hid : (l.activeWatches.map (fun w => (w, true))).map Prod.fst = l.activeWatches := by
    rw [List.map_map]
    exact List.map_id _
  unfold checkActiveWatches
  simp only [hcheck, hkept, hended, hid, List.map_nil, List.append_nil]

theorem checkWaits_upToDate (h : l.UpToDate g) : l.checkWaits gone g false = l.checkWaits gone g true := by
  have hcheck : l.waits.map (WaitWatch.check gone g false) = l.waits.map (WaitWatch.check gone g true) :=
    List.map_congr_left fun w hw => by
      cases hb : w.begun with
      | true => exact WaitWatch.check_upToDate hb (h.waits w hw hb)
      | false =>
        unfold WaitWatch.check
        rw [hb]
        rfl
  unfold checkWaits
  rw [hcheck]

theorem settled_skips (h : g.stateChanged = false → l.UpToDate g) : l.settled false gone g = l.settled true gone g := by
  unfold settled
  cases hc : g.stateChanged with
  | true => rfl
  | false =>
    simp only [Bool.or_false, Bool.false_eq_true, if_false, if_true]
    rw [checkActiveWatches_upToDate (h hc), checkWaits_upToDate (h hc)]

end Listeners

/-- What holds of every graph the kernel comes to. -/
structure Graph.Orderly [Task τ] (g : Graph τ) : Prop where
  valid : Graph.Valid g
  told : Graph.Told (anyTerms τ) g
  sane : g.records.Sane (anyTerms τ)
  tidy : g.Tidy

namespace Kernel

variable {k k₁ k' : Kernel τ} {now : Instant} {msg : KernelMessage τ}

theorem Takes.graph (h : k.Takes now msg k₁) : k₁.graph = k.graph := by
  cases h <;> rfl

variable [Task τ]

theorem step_iff : Step k (some msg) k' ↔ ∃ now k₁, k.Takes now msg k₁ ∧ k' = k₁.turn now msg := by
  constructor
  · intro h
    cases h with
    | replayed he hn hr => exact ⟨_, _, .replayed he hn hr, rfl⟩
    | received _ he hn hr => exact ⟨_, _, .received msg he hn hr, rfl⟩
    | expired he hn hr hq hd => exact ⟨_, _, .expired he hn hr hq hd, rfl⟩
    | alarm he hn hr ha hd => exact ⟨_, _, .alarm he hn hr ha hd, rfl⟩
  · rintro ⟨now, k₁, ht, rfl⟩
    cases ht with
    | replayed he hn hr => exact .replayed he hn hr
    | received _ he hn hr => exact .received msg he hn hr
    | expired he hn hr hq hd => exact .expired he hn hr hq hd
    | alarm he hn hr ha hd => exact .alarm he hn hr ha hd

theorem Reachable.orderly (h : Reachable k) : k.graph.Orderly :=
  ⟨valid_of_reachable h, h.sane.1, h.sane.2, h.tidy⟩

theorem orderly_dispatched (h : k.graph.Orderly) (now : Instant) (msg : KernelMessage τ) :
    (k.dispatched now msg).Orderly := by
  obtain ⟨hd, he⟩ := edits_dispatched h.valid h.told h.sane now msg
  have hvalid : Graph.Valid ({ k.graph with now } : Graph τ) := h.valid.same rfl rfl rfl rfl
  have htidy : ({ k.graph with now } : Graph τ).Tidy := h.tidy.stays (.of_eq rfl rfl rfl)
  exact ⟨valid_dispatch (k := { k with graph := { k.graph with now } }) hvalid msg, hd, he.sane h.sane,
    tidy_dispatch (k := { k with graph := { k.graph with now } }) htidy msg⟩

theorem unseen_dispatched (h : k.graph.Orderly) (now : Instant) (msg : KernelMessage τ)
    (hc : (k.dispatched now msg).stateChanged = false) :
    k.graph.stateChanged = false ∧ k.graph.Unseen (k.dispatched now msg) := by
  obtain ⟨-, he⟩ := edits_dispatched h.valid h.told h.sane now msg
  have h' := orderly_dispatched h now msg
  obtain ⟨hflag, hu⟩ := he.unseen hc
  exact ⟨hflag, Graph.unseen_of h.tidy h'.tidy h.sane h'.sane hu⟩

theorem unseen_settle {g : Graph τ} (h : g.Orderly) (hc : g.settle.stateChanged = false) :
    g.stateChanged = false ∧ g.Unseen g.settle := by
  obtain ⟨-, he⟩ := Graph.Writes.settle (I := anyTerms τ) (c := .itself) g h.told h.sane
  obtain ⟨hflag, hu⟩ := he.unseen hc
  exact ⟨hflag, Graph.unseen_of h.tidy (h.tidy.stays (.settle g)) h.sane (he.sane h.sane) hu⟩

/-- A graph after a message: settled, unless it is frozen. -/
def settled (k : Kernel τ) (now : Instant) (msg : KernelMessage τ) : Graph τ :=
  let g := k.dispatched now msg
  if g.frozen.isSome then g else g.settle

theorem unseen_settled (h : k.graph.Orderly) (now : Instant) (msg : KernelMessage τ)
    (hc : (k.settled now msg).stateChanged = false) : k.graph.Unseen (k.settled now msg) := by
  unfold settled at hc ⊢
  simp only at hc ⊢
  split at hc
  · rename_i hf
    rw [if_pos hf]
    exact (unseen_dispatched h now msg hc).2
  · rename_i hf
    rw [if_neg hf]
    obtain ⟨hflag, hu⟩ := unseen_settle (orderly_dispatched h now msg) hc
    exact (unseen_dispatched h now msg hflag).2.trans hu

end Kernel

namespace Attended

variable [Task τ] {a a' : Attended τ} {always : Bool} {gone : Receivers}

def UpToDate (a : Attended τ) : Prop :=
  a.kernel.graph.stateChanged = false → a.listeners.UpToDate a.kernel.graph

theorem join_upToDate {k : Kernel τ} {l : Listeners} (h : l.UpToDate k.graph) (msg : KernelMessage τ) :
    (join k msg l).UpToDate k.graph := by
  unfold join
  split
  · exact h
  · split
    · rename_i request _
      refine ⟨fun w hw hb => ?_, h.watches⟩
      rcases List.mem_append.mp hw with hw | hw
      · exact h.waits w hw hb
      · rw [List.mem_singleton.mp hw] at hb
        cases hb
    · refine ⟨h.waits, fun w hw => ?_⟩
      rcases List.mem_append.mp hw with hw | hw
      · exact h.watches w hw
      · rw [List.mem_singleton.mp hw]
    · exact h

theorem upToDate_afterDispatch {k : Kernel τ} {l : Listeners} (hk : k.graph.Orderly)
    (h : k.graph.stateChanged = false → l.UpToDate k.graph) :
    afterDispatch false gone k l = afterDispatch true gone k l ∧
      UpToDate ⟨k.afterDispatch, afterDispatch true gone k l⟩ := by
  unfold afterDispatch Kernel.afterDispatch
  split
  · exact ⟨rfl, h⟩
  · refine ⟨Listeners.settled_skips fun hc => ?_, fun _ => ?_⟩
    · obtain ⟨hflag, hu⟩ := Kernel.unseen_settle hk hc
      exact (h hflag).unseen hu
    · exact (Listeners.upToDate_settled k.graph.settle l).unseen ⟨fun _ => rfl, rfl, fun _ _ => Iff.rfl⟩

theorem turn_skips {k : Kernel τ} {l : Listeners} (hk : k.graph.Orderly) (h : UpToDate ⟨k, l⟩) (now : Instant)
    (msg : KernelMessage τ) :
    turn false gone ⟨k, l⟩ now msg = turn true gone ⟨k, l⟩ now msg ∧ (turn true gone ⟨k, l⟩ now msg).UpToDate := by
  let k₀ : Kernel τ := { k with graph := { k.graph with now } }
  have hnow : k.graph.Unseen k₀.graph := ⟨fun _ => rfl, rfl, fun _ _ => Iff.rfl⟩
  have hjoin : (k₀.dispatch msg).1.graph.stateChanged = false →
      (join k₀ msg l).UpToDate (k₀.dispatch msg).1.graph := fun hc => by
    obtain ⟨hflag, hu⟩ := Kernel.unseen_dispatched hk now msg hc
    exact (join_upToDate (k := k₀) ((h hflag).unseen hnow) msg).unseen ⟨hu.outlooks, hu.edges, hu.matching⟩
  have hd : (k₀.dispatch msg).1.graph.Orderly := Kernel.orderly_dispatched hk now msg
  unfold turn Kernel.turn
  simp only
  generalize ({ k with graph := { k.graph with now } } : Kernel τ).dispatch msg = r at hjoin hd ⊢
  obtain ⟨k₁, exit⟩ := r
  cases exit with
  | true => exact ⟨rfl, hjoin⟩
  | false =>
    obtain ⟨hsame, hu⟩ : afterDispatch false gone k₁ (join k₀ msg l) = afterDispatch true gone k₁ (join k₀ msg l) ∧
        UpToDate ⟨k₁.afterDispatch, afterDispatch true gone k₁ (join k₀ msg l)⟩ := upToDate_afterDispatch hd hjoin
    exact ⟨congrArg (Attended.mk _) hsame, hu⟩

theorem step_skips {msg : Option (Instant × KernelMessage τ)} (hk : a.kernel.graph.Orderly) (h : a.UpToDate) :
    (Step false gone a msg a' ↔ Step true gone a msg a') ∧ (Step true gone a msg a' → a'.UpToDate) := by
  have hturn (k : Kernel τ) (now : Instant) (m : KernelMessage τ) (ht : a.kernel.Takes now m k) :
      turn false gone ⟨k, a.listeners⟩ now m = turn true gone ⟨k, a.listeners⟩ now m ∧
        (turn true gone ⟨k, a.listeners⟩ now m).UpToDate := by
    have hgraph := ht.graph
    refine turn_skips (by rw [hgraph]; exact hk) ?_ now m
    unfold UpToDate at h ⊢
    rw [hgraph]
    exact h
  refine ⟨⟨fun hs => ?_, fun hs => ?_⟩, fun hs => ?_⟩
  · cases hs with
    | @turn now m k ht =>
      rw [(hturn k now m ht).1]
      exact .turn ht
    | alloc he => exact .alloc he
  · cases hs with
    | @turn now m k ht =>
      rw [← (hturn k now m ht).1]
      exact .turn ht
    | alloc he => exact .alloc he
  · cases hs with
    | @turn now m k ht => exact (hturn k now m ht).2
    | alloc he => exact fun hc => (h hc).unseen ⟨fun _ => rfl, rfl, fun _ _ => Iff.rfl⟩

theorem kernel_step {msg : Option (Instant × KernelMessage τ)} (h : Step always gone a msg a') :
    Kernel.Step a.kernel (msg.map Prod.snd) a'.kernel := by
  cases h with
  | turn ht => exact Kernel.step_iff.mpr ⟨_, _, ht, rfl⟩
  | alloc he => exact .alloc he

theorem upToDate_run {k₀ : Kernel τ} (hb : Kernel.Booted k₀) {msgs : List (Option (Instant × KernelMessage τ))}
    (h : Run true gone (start k₀) msgs a) : a.kernel.Reachable ∧ a.UpToDate := by
  induction h with
  | refl => exact ⟨.start hb, fun _ => ⟨fun w hw => absurd hw List.not_mem_nil, fun w hw => absurd hw List.not_mem_nil⟩⟩
  | tail _ hs ih => exact ⟨.step ih.1 (kernel_step hs), (step_skips ih.1.orderly ih.2).2 hs⟩

theorem run_skips {k₀ : Kernel τ} (hb : Kernel.Booted k₀) (msgs : List (Option (Instant × KernelMessage τ))) :
    Run false gone (start k₀) msgs a ↔ Run true gone (start k₀) msgs a := by
  constructor
  · intro h
    induction h with
    | refl => exact .refl
    | tail _ hs ih =>
      obtain ⟨hr, hu⟩ := upToDate_run hb ih
      exact .tail ih ((step_skips hr.orderly hu).1.mp hs)
  · intro h
    induction h with
    | refl => exact .refl
    | tail hrun hs ih =>
      obtain ⟨hr, hu⟩ := upToDate_run hb hrun
      exact .tail ih ((step_skips hr.orderly hu).1.mpr hs)

def reported (t : TaskHandle τ) : TaskState × Option StateReason × Option TaskPath × Option String :=
  (t.state, t.reason, t.path, t.label)

/-- All that waits and watches send is sent by a kernel that looks at each of them after every step, and a
message that leaves the flag down leaves all they report. -/
theorem skipping_unseen {k₀ : Kernel τ} (hb : Kernel.Booted k₀) (gone : Receivers)
    (msgs : List (Option (Instant × KernelMessage τ))) :
    (∀ a, Run false gone (start k₀) msgs a ↔ Run true gone (start k₀) msgs a) ∧
    ∀ a, Run false gone (start k₀) msgs a → ∀ k now msg, a.kernel.Takes now msg k →
      (k.settled now msg).stateChanged = false →
        (∀ cond id, (k.settled now msg).waitStanding cond id = a.kernel.graph.waitStanding cond id) ∧
        (∀ id, ((k.settled now msg).tasks.lookup id).map reported = (a.kernel.graph.tasks.lookup id).map reported) ∧
        ∀ selector, (k.settled now msg).anyActive selector = a.kernel.graph.anyActive selector := by
  refine ⟨fun a => run_skips hb msgs, fun a hrun k now msg ht hc => ?_⟩
  have hr := (upToDate_run hb ((run_skips hb msgs).mp hrun)).1
  have hgraph := ht.graph
  have hu : a.kernel.graph.Unseen (k.settled now msg) := by
    rw [← hgraph]
    exact Kernel.unseen_settled (by rw [hgraph]; exact hr.orderly) now msg hc
  refine ⟨fun cond id => hu.waitStanding cond id, fun id => ?_, fun selector => hu.anyActive selector⟩
  let seen (o : Outlook) := (o.state, o.reason, o.path, o.label)
  have hx := congrArg (Option.map seen) (hu.outlooks id)
  rw [Option.map_map, Option.map_map] at hx
  exact hx

def hear (a : Attended ChannelTask) (now : Instant) (msg : KernelMessage ChannelTask) : Attended ChannelTask :=
  turn false (fun _ _ => false) ⟨a.kernel.arrive msg, a.listeners⟩ now msg

/-- The lone task starts while somebody waits for its end. -/
def waiting : Attended ChannelTask :=
  ((start ((Kernel.new .sorted 0).registerTaskRegistration Kernel.lone).1).hear 1 ⟨0, .wait ⟨.ids [1], .exit, 5⟩⟩).hear 2
    ⟨1, .taskStarted⟩

theorem skipping_unseen_lone : waiting.listeners.waits.map (fun w => w.events.sent.length) = [2] ∧
    Run true (fun _ _ => false) (start ((Kernel.new .sorted 0).registerTaskRegistration Kernel.lone).1)
      [some (1, ⟨0, .wait ⟨.ids [1], .exit, 5⟩⟩), some (2, ⟨1, .taskStarted⟩)] waiting ∧
    ((waiting.kernel.arrive ⟨0, .query⟩).settled 3 ⟨0, .query⟩).waitStanding .exit 1 =
      waiting.kernel.graph.waitStanding .exit 1 := by
  have hwait : Run false (fun _ _ => false) (start ((Kernel.new .sorted 0).registerTaskRegistration Kernel.lone).1)
      ([] ++ [some (1, ⟨0, .wait ⟨.ids [1], .exit, 5⟩⟩)]) _ :=
    .tail .refl (.turn (.received _ (by decide) (by decide) (by decide)))
  have hrun : Run false (fun _ _ => false) (start ((Kernel.new .sorted 0).registerTaskRegistration Kernel.lone).1)
      [some (1, ⟨0, .wait ⟨.ids [1], .exit, 5⟩⟩), some (2, ⟨1, .taskStarted⟩)] waiting :=
    .tail hwait (.turn (.received _ (by decide) (by decide) (by decide)))
  obtain ⟨hskips, hunseen⟩ := skipping_unseen (.install Kernel.lone (.new .sorted 0)) (fun _ _ => false)
    [some (1, ⟨0, .wait ⟨.ids [1], .exit, 5⟩⟩), some (2, ⟨1, .taskStarted⟩)]
  have htakes : waiting.kernel.Takes 3 ⟨0, .query⟩ (waiting.kernel.arrive ⟨0, .query⟩) :=
    .received _ (by decide) (by decide) (by decide)
  exact ⟨by decide, (hskips _).mp hrun, (hunseen _ hrun _ 3 _ htakes (by decide)).1 .exit 1⟩

end Attended

end Dekit
