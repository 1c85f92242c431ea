import Dekit.Settle
import Dekit.Writing

namespace Dekit.Graph

variable {τ : Type} {g g' g'' : Graph τ} {id : TaskId}

/-- Only the counters of wanted parents move. -/
structure Recounted (g g' : Graph τ) : Prop where
  margin : g'.margin = g.margin
  tasks : ∃ parents : TaskId → ℤ, ∀ x, g'.records.tasks x =
    (g.records.tasks x).map fun t => { t with wantedParents := parents x }
  effects : g'.pendingEffects = g.pendingEffects

namespace Recounted

theorem of_eq (hr : g'.records = g.records) (hp : g'.pendingEffects = g.pendingEffects) : Recounted g g' := by
  refine ⟨?_, ⟨fun x => ((g.records.tasks x).map (·.wantedParents)).getD 0, fun x => ?_⟩, hp⟩
  · simp only [records, Records.mk.injEq] at hr
    obtain ⟨hq, hc, -, hd, hg, hl⟩ := hr
    rw [Graph.margin, hq, hc, hd, hg, hl, Graph.margin]
  · rw [hr]
    cases h : g.records.tasks x <;> simp [h]

theorem refl (g : Graph τ) : Recounted g g := of_eq rfl rfl

theorem trans (h : Recounted g g') (h' : Recounted g' g'') : Recounted g g'' := by
  obtain ⟨parents, ht⟩ := h.tasks
  obtain ⟨parents', ht'⟩ := h'.tasks
  refine ⟨h'.margin.trans h.margin, ⟨parents', fun x => ?_⟩, h'.effects.trans h.effects⟩
  rw [ht', ht]
  cases g.records.tasks x <;> rfl

theorem enqueue (g : Graph τ) (id : TaskId) : Recounted g (g.enqueue id) := by
  unfold Graph.enqueue
  split
  · exact of_eq rfl rfl
  · exact refl g

theorem modified {F : TaskHandle τ → TaskHandle τ} {n : ℤ → ℤ} (ht : g'.tasks = g.tasks.modify id F)
    (hF : ∀ t, (F t).record = { t.record with wantedParents := n t.wantedParents }) (hm : g'.margin = g.margin)
    (hp : g'.pendingEffects = g.pendingEffects) : Recounted g g' := by
  refine ⟨hm, ⟨fun x => if x = id then n (((g.records.tasks x).map (·.wantedParents)).getD 0)
    else ((g.records.tasks x).map (·.wantedParents)).getD 0, fun x => ?_⟩, hp⟩
  have hr := congrFun (records_modify (f := fun t => { t with wantedParents := n t.wantedParents }) ht
    fun t _ => hF t) x
  rw [hr, Records.tasks_modify]
  by_cases hx : x = id
  · subst hx
    cases h : g.records.tasks x <;> simp [h]
  · cases h : g.records.tasks x <;> simp [h, hx]

theorem countWanted (now : Bool) (g : Graph τ) (dep : TaskId) : Recounted g (countWanted now g dep) := by
  unfold Graph.countWanted
  refine trans ?_ (enqueue _ dep)
  exact modified (n := fun p => if now then p + 1 else p - 1) rfl (fun _ => rfl) rfl rfl

theorem forEach (owner : TaskId) (s : Finset TaskId) {body : Graph τ → TaskId → Graph τ}
    (h : ∀ g x, Recounted g (body g x)) : Recounted g (g.forEach owner s body) := by
  have htick : Recounted g { g with tick := g.tick + 1 } := of_eq rfl rfl
  exact htick.trans (Fold.foldl_rel refl (fun _ _ _ => trans) (fun g x _ => h g x) _)

end Recounted

theorem records_any (g : Graph τ) (id : TaskId) (p : Record τ → Bool) :
    (g.records.tasks id).any p = (g.tasks.lookup id).any fun t => p t.record := by
  simp [records, Option.any_map]

theorem records_wants (g : Graph τ) (id : TaskId) : g.records.wants id = g.computeWanted id := by
  unfold Records.wants computeWanted
  rw [records_any]
  rfl

theorem records_supports (g : Graph τ) (id : TaskId) : g.records.supports id = g.computeSupported id := by
  unfold Records.supports computeSupported
  have hdep (dep : TaskId) : (g.records.tasks dep).any (fun t => t.supported && t.isSatisfied) = g.depSupports dep :=
    records_any _ _ _
  rw [records_any]
  simp only [hdep]
  rfl

variable [Task τ] {I : Terms τ} {c : Cause}

namespace Writes

theorem recomputeWanted (g : Graph τ) (id : TaskId) : Writes I c g (g.recomputeWanted id) := by
  unfold Graph.recomputeWanted
  cases ht : g.tasks.lookup id with
  | none => exact refl g
  | some t =>
    simp only
    split
    · exact refl g
    · rename_i hne
      have hc : ({ g.modifyTask id (fun t => { t with wanted := g.computeWanted id }) with
          stateChanged := true } : Graph τ).records =
          { g.records.modify id (fun t => { t with wanted := g.computeWanted id }) with changed := true } :=
        records_changed rfl (fun _ _ => rfl) rfl
      have hr := Recounted.forEach (g := { g.modifyTask id (fun t => { t with wanted := g.computeWanted id }) with
        stateChanged := true }) id (g.edges id) (Recounted.countWanted (g.computeWanted id))
      obtain ⟨hm, ⟨parents, hp⟩, he⟩ := hr
      refine written (s := { g.records with
        changed := true
        tasks := fun x => (g.records.tasks x).map fun t => { t with
          wanted := if x = id then g.records.wants id else t.wanted, wantedParents := parents x } }) ?_ he ?_
      · simp only [margin, Prod.mk.injEq] at hm
        obtain ⟨hq, hch, hd, hg, hl⟩ := hm
        refine Records.ext hq hch (funext fun x => ?_) hd hg hl
        simp only
        rw [hp, hc, records_wants]
        simp only [Records.tasks_modify]
        by_cases hx : x = id <;> cases g.records.tasks x <;> simp [hx]
      · intro _
        refine .wants parents (tasks_of_lookup ht) ?_
        rw [records_wants]
        exact hne

theorem recomputeSupported (g : Graph τ) (id : TaskId) : Writes I c g (g.recomputeSupported id) := by
  unfold Graph.recomputeSupported
  cases ht : g.tasks.lookup id with
  | none => exact refl g
  | some t =>
    simp only
    split
    · exact refl g
    · refine andThen ?_ (.enqueueParents _ _)
      refine modifyTask rfl (f := fun t => { t with supported := g.records.supports id }) (fun _ => ?_) rfl rfl
        fun _ => .supports _ _
      rw [records_supports]
      rfl

theorem recomputeCaches (g : Graph τ) (id : TaskId) : Writes I c g (g.recomputeCaches id) := by
  unfold Graph.recomputeCaches
  split
  · exact ((recomputeWanted g id).trans (recomputeSupported _ id)).andThen (.note _ _)
  · exact refl g

theorem propagate (fuel : ℕ) (g : Graph τ) (toDrive : List TaskId) :
    Writes I c g (Graph.propagate fuel g toDrive).1 := by
  induction fuel generalizing g toDrive with
  | zero => exact refl g
  | succ fuel ih =>
    unfold Graph.propagate
    cases h : g.popDirty with
    | none => exact refl g
    | some r =>
      obtain ⟨id, g'⟩ := r
      obtain ⟨rest, -, rfl⟩ := popDirty_eq h
      have hpop : Aside g { g with dirty := rest, inQueue := g.inQueue.erase id } := .of_eq rfl rfl
      exact ((aside hpop).trans (recomputeCaches _ id)).trans (ih _ _)

theorem driveTask (g : Graph τ) (id : TaskId) : Writes I c g (g.driveTask id) := by
  unfold Graph.driveTask
  cases ht : g.tasks.lookup id with
  | none => exact refl g
  | some t =>
    have hstop (hs : t.state = .starting ∨ t.state = .running ∨ t.state = .ready) :
        Writes I c g (if g.hasActiveDependent id then g else (g.stopTask id false).note (.drivenStop id)) := by
      split
      · exact refl g
      · exact (stopTask ht hs fun hf => by cases hf).andThen (.note _ _)
    simp only
    split
    · rename_i hsup
      cases hs : t.state with
      | idle => exact startTask ht hs hsup
      | starting | running | ready | stopping | backoff | done | exited => exact refl g
    · cases hs : t.state with
      | starting => exact hstop (.inl hs)
      | running => exact hstop (.inr (.inl hs))
      | ready => exact hstop (.inr (.inr hs))
      | backoff info =>
        apply setState
        intro t' ht' _
        obtain rfl : t = t' := Option.some.inj (ht.symm.trans ht')
        exact .retries hs
      | idle | stopping | done | exited => exact refl g

theorem settleStep (h : g.settleStep = some g') : Writes I c g g' := by
  unfold Graph.settleStep at h
  split at h
  · rename_i id effect rest hp
    obtain rfl := Option.some.inj h
    intro ht hs
    have hpop : Aside g { g with pendingEffects := rest } :=
      ⟨rfl, fun e he => .inl (hp ▸ List.mem_cons_of_mem _ he)⟩
    have he : Writes I c g ({ g with pendingEffects := rest }.onEffect id effect) := by
      refine (aside hpop).trans (onEffect _ _ fun info hinfo => ?_)
      subst hinfo
      exact ht id info (hp ▸ List.mem_cons_self)
    exact he ht hs
  · split at h
    · cases h
    · obtain rfl := Option.some.inj h
      exact (propagate g.propagateFuel g []).trans (foldl (fun g x _ => driveTask g x) _)

theorem settleSteps (n : ℕ) (g : Graph τ) : Writes I c g (Graph.settleSteps n g) := by
  induction n generalizing g with
  | zero => exact refl g
  | succ n ih =>
    unfold Graph.settleSteps
    cases h : g.settleStep with
    | none => exact refl g
    | some g' => exact (settleStep h).trans (ih g')

theorem settle (g : Graph τ) : Writes I c g g.settle := settleSteps _ g

end Writes

end Dekit.Graph
