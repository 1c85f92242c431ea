import Dekit.Propagation
import Dekit.Sound

namespace Dekit

namespace View

variable {v : View} {id : TaskId} {n : Node} {state : TaskState}

theorem mem_dirty_setState (hs : Shape v) (hn : v.node id = some n) (hne : n.state ≠ state) :
    id ∈ (v.setState id state).dirty := by
  have hid : id ∈ v.ids := hs.mem hn
  have hw : id ∈ ((v.revise {id} (.setState state)).touch {id}).dirty :=
    (mem_touch_dirty _ _ _).mpr (.inr ⟨Finset.mem_singleton_self id, hs.ne_init hid, hid⟩)
  have htouch (w : View) (t : Finset TaskId) (h : id ∈ w.dirty) : id ∈ (w.touch t).dirty :=
    (mem_touch_dirty _ _ _).mpr (.inl h)
  unfold View.setState
  simp only [hn, hne, if_false]
  split <;> split
  · exact hw
  · exact htouch _ _ hw
  · exact htouch _ _ hw
  · exact htouch _ _ (htouch _ _ hw)

end View

namespace Graph

variable {τ : Type} {g g' : Graph τ} {id : TaskId} {s : Finset TaskId}

theorem Sound.shrink (h : Sound (insert id s) g)
    (hid : id ∈ g.view.dirty ∨ ∀ n, g.view.node id = some n → View.DrivenAt n) : Sound s g where
  shape := h.shape
  counts := h.counts
  fresh := h.fresh
  driven := by
    rcases hid with hid | hid
    · exact h.driven.shrink hid
    · intro x n hn hx hxs
      by_cases hxi : x = id
      · exact hid n (hxi ▸ hn)
      · exact h.driven x n hn hx (by simpa [hxi] using hxs)
  queued := h.queued
  log := h.log

theorem popDirty_eq (h : g.popDirty = some (id, g')) : ∃ rest, g.dirty = id :: rest ∧
    g' = { g with dirty := rest, inQueue := g.inQueue.erase id } := by
  unfold popDirty at h
  cases hd : g.dirty with
  | nil => rw [hd] at h; cases h
  | cons x rest =>
    rw [hd] at h
    obtain ⟨rfl, rfl⟩ : _ ∧ _ := by simpa using h
    exact ⟨rest, rfl, rfl⟩

theorem Queued.mem_of_pop (hq : g.Queued) (h : g.popDirty = some (id, g')) : id ∈ g.view.dirty := by
  obtain ⟨rest, hd, -⟩ := popDirty_eq h
  have : id ∈ g.dirty.toFinset := by simp [hd]
  rw [← hq.1] at this
  exact this

theorem Queued.pop (hq : g.Queued) (h : g.popDirty = some (id, g')) : g'.Queued := by
  obtain ⟨rest, hd, rfl⟩ := popDirty_eq h
  obtain ⟨hin, hnd⟩ := hq
  rw [hd] at hin hnd
  obtain ⟨hid, hnd⟩ := List.nodup_cons.mp hnd
  refine ⟨?_, hnd⟩
  change g.inQueue.erase id = rest.toFinset
  rw [hin, List.toFinset_cons, Finset.erase_insert (by simpa using hid)]

namespace Sound

theorem popped (h : Sound s g) (hp : g.popDirty = some (id, g')) :
    (g'.recomputeCaches id).view = (g.view.pop id).recompute id ∧
      Sound (insert id s) (g'.recomputeCaches id) := by
  have hid := h.queued.mem_of_pop hp
  have hv' := view_popDirty g id hp
  have hq' := h.queued.pop hp
  have hlog : g'.log = g.log := by
    obtain ⟨rest, -, rfl⟩ := popDirty_eq hp
    rfl
  have hmem : id ∈ g'.tasks := by
    rw [mem_tasks, hv']
    exact h.shape.dirty hid
  have hv : (g'.recomputeCaches id).view = (g.view.pop id).recompute id := by
    rw [view_recomputeCaches g' id hmem, hv']
  refine ⟨hv, ?_⟩
  have hs := (h.shape.pop id).recompute id
  have hc := (h.counts.pop id).recompute (h.shape.pop id) id
  have hf := View.Fresh.recompute h.shape h.fresh id
  have hd := View.Driven.recompute h.shape h.driven id
  rw [← hv] at hs hc hf hd
  have hn := Counting.recomputeCaches g' id
  generalize g'.recomputeCaches id = g'' at hs hc hf hd hn ⊢
  cases hn with
  | silent hk => exact ⟨hs, hc, hf, hd, hk.queued hq', fun e he => h.log e (hlog ▸ hk.log ▸ he)⟩
  | noted hk => exact touched ⟨hs, hc, hf, hd, hk.queued hq', fun e he => h.log e (hlog ▸ hk.log ▸ he)⟩

theorem mem_addSeen {L : List TaskId} {x : TaskId} :
    x ∈ propagate.addSeen L id ↔ x = id ∨ x ∈ L := by
  unfold propagate.addSeen
  by_cases hid : id ∈ L
  · simp only [hid, if_true]
    exact ⟨.inr, fun h => h.elim (fun he => he ▸ hid) (fun h => h)⟩
  · simp [hid, or_comm]

theorem propagate (fuel : ℕ) {L : List TaskId} (h : Sound L.toFinset g)
    (hfuel : g.view.potential ≤ fuel) :
    Sound (Graph.propagate fuel g L).2.toFinset (Graph.propagate fuel g L).1 ∧
      (Graph.propagate fuel g L).1.dirty = [] := by
  induction fuel generalizing g L with
  | zero =>
    refine ⟨h, ?_⟩
    have hcard : g.view.dirty.card = 0 := by
      unfold View.potential at hfuel
      omega
    have hin : g.dirty.toFinset = ∅ := h.queued.1 ▸ Finset.card_eq_zero.mp hcard
    exact List.toFinset_eq_empty_iff _ |>.mp hin
  | succ fuel ih =>
    unfold Graph.propagate
    cases hp : g.popDirty with
    | none =>
      refine ⟨h, ?_⟩
      unfold popDirty at hp
      cases hd : g.dirty with
      | nil => rfl
      | cons x rest => rw [hd] at hp; cases hp
    | some r =>
      obtain ⟨id, g'⟩ := r
      obtain ⟨hv, hr⟩ := h.popped hp
      have hlt := View.potential_pop_recompute h.shape (h.queued.mem_of_pop hp)
      refine ih ?_ (by rw [hv]; omega)
      have hL : (propagate.addSeen L id).toFinset = insert id L.toFinset := by
        ext x
        simp [mem_addSeen]
      rwa [hL]

end Sound

theorem view_scheduleStateTimeout (g : Graph τ) (id : TaskId) (delay : Duration) :
    (g.scheduleStateTimeout id delay).view = g.view := by
  unfold scheduleStateTimeout
  split
  · exact view_modifyTask_id g id (fun t => { t with deadline := some (g.now + delay) }) fun _ => rfl
  · rfl

theorem view_replace {old t : TaskHandle τ} {F : Node → Node} (hold : g.tasks.lookup id = some old)
    (hF : t.node = F old.node) :
    ({ g with tasks := g.tasks.insert id t } : Graph τ).view = g.view.revise {id} F := by
  refine View.ext rfl ?_ (funext fun x => ?_) rfl rfl rfl
  · have hid : id ∈ g.tasks.keys := by simp [Finmap.mem_keys_iff, hold]
    simp [view, hid]
  · simp only [view, View.revise_node, Finmap.lookup_insert_ite, Finset.mem_singleton]
    by_cases hx : x = id
    · subst hx
      simp [hold, hF]
    · simp [hx]

section drive

variable [Task τ]

theorem view_sendCmd (g : Graph τ) (id : TaskId) (cmd : TaskCmd) : (g.sendCmd id cmd).view = g.view := by
  cases hc : sentCmd cmd with
  | none => exact (Quiet.sendCmd g id hc).view
  | some sent => exact (Quiet.sendCmd_sent g id hc).view

theorem view_stopTask (g : Graph τ) (id : TaskId) (startFailed : Bool) :
    (g.stopTask id startFailed).view = g.view.setState id .stopping := by
  unfold stopTask
  simp only
  cases (g.setState id .stopping).tasks.lookup id with
  | none => exact view_setState g id .stopping
  | some t =>
    simp only
    rw [view_sendCmd, view_scheduleStateTimeout]
    refine (view_modifyTask_id _ id _ ?_).trans (view_setState g id .stopping)
    exact fun _ => rfl

theorem Sound.startTask (h : Sound (insert id s) g) (hx : g.view.Fixed) {old : TaskHandle τ}
    (hold : g.tasks.lookup id = some old) (hsup : old.supported = true) (hidle : old.state = .idle) :
    Sound s (g.startTask id) ∧ (g.startTask id).view.Fixed := by
  have hnode : g.view.node id = some old.node := by rw [view_node, hold]; rfl
  unfold Graph.startTask
  simp only [hold]
  have htn : (old.begun g.now).node = old.node.setKind (old.begun g.now).kind := by
    unfold TaskHandle.begun
    cases old.next <;> rfl
  generalize old.begun g.now = t at htn ⊢
  -- The kind may be another one, but an idle task satisfies nobody.
  have hv₁ : ({ g with tasks := g.tasks.insert id t } : Graph τ).view = g.view.setKind id t.kind :=
    view_replace hold htn
  have ha : View.Alike g.view (g.view.setKind id t.kind) := View.alike_setKind hnode hidle t.kind
  have h₁ : Sound (insert id s) ({ g with tasks := g.tasks.insert id t } : Graph τ) := by
    refine ⟨?_, ?_, ?_, ?_, h.queued, h.log⟩ <;> rw [hv₁]
    · exact h.shape.revise _ _
    · exact h.counts.revise fun _ => ⟨rfl, rfl, rfl, rfl⟩
    · exact h.fresh.alike ha
    · exact h.driven.alike ha
  have hx₁ : ({ g with tasks := g.tasks.insert id t } : Graph τ).view.Fixed := hv₁ ▸ hx.alike ha
  have hn₁ : ({ g with tasks := g.tasks.insert id t } : Graph τ).view.node id =
      some (old.node.setKind t.kind) := by
    rw [hv₁]
    simp [View.setKind, hnode]
  generalize ({ g with tasks := g.tasks.insert id t } : Graph τ) = g₁ at h₁ hx₁ hn₁ ⊢
  have hq : Quiet g₁ (if old.kind = t.kind then g₁ else g₁.notifyChanged id) := by
    split
    · exact Quiet.refl _
    · exact Quiet.notifyChanged _ _
  have h₂ := h₁.quiet hq
  rw [← hq.view] at hx₁ hn₁
  generalize (if old.kind = t.kind then g₁ else g₁.notifyChanged id) = g₂ at h₂ hx₁ hn₁ ⊢
  have h₃ := h₂.setState id .starting
  have hv₃ := view_setState g₂ id .starting
  have hsat : ((old.node.setKind t.kind).supported && (old.node.setKind t.kind).isSatisfied) = false := by
    have : (old.node.setKind t.kind).isSatisfied = TaskState.satisfies .idle t.kind := by rw [← hidle]; rfl
    rw [this]
    cases t.kind <;> simp [TaskState.satisfies]
  have hx₃ : (g₂.setState id .starting).view.Fixed := hv₃ ▸ hx₁.setState hn₁ hsat .starting
  have hne : (old.node.setKind t.kind).state ≠ .starting := by
    rw [show (old.node.setKind t.kind).state = old.state from rfl, hidle]
    simp
  have hd₃ : id ∈ (g₂.setState id .starting).view.dirty := by
    rw [hv₃]
    exact View.mem_dirty_setState h₂.shape hn₁ hne
  obtain ⟨n₃, hn₃, hs₃⟩ : ∃ n, (g₂.setState id .starting).view.node id = some n ∧ n.supported = true := by
    obtain ⟨n, hn⟩ := Option.isSome_iff_exists.mp ((h₃.shape.registered id).mp (h₃.shape.dirty hd₃))
    obtain ⟨m, hm, hk⟩ := View.node_setState (hv₃ ▸ hn)
    obtain rfl : old.node.setKind t.kind = m := Option.some.inj (hn₁.symm.trans hm)
    exact ⟨n, hn, hk.supported.trans hsup⟩
  refine ⟨(h₃.shrink (.inl hd₃)).sendCmd id fun _ => ?_, ?_⟩
  · exact hx₃.startOk h₃.shape h₃.counts hn₃ hs₃
  · rw [view_sendCmd]
    exact hx₃

theorem Sound.driveTask (h : Sound (insert id s) g) (hx : g.view.Fixed) :
    Sound s (g.driveTask id) ∧ (g.driveTask id).view.Fixed := by
  unfold Graph.driveTask
  cases hold : g.tasks.lookup id with
  | none =>
    refine ⟨h.shrink (.inr fun n hn => ?_), hx⟩
    simp [view_node, hold] at hn
  | some t =>
    have hnode : g.view.node id = some t.node := by rw [view_node, hold]; rfl
    have hnothing (hd : View.DrivenAt t.node) : Sound s g ∧ g.view.Fixed :=
      ⟨h.shrink (.inr fun n hn => Option.some.inj (hnode.symm.trans hn) ▸ hd), hx⟩
    -- What is not supported supports nobody, so its drive leaves the caches at their fixed point.
    have hmoved (state : TaskState) (hsup : t.supported = false) (hne : t.state ≠ state) :
        id ∈ (g.view.setState id state).dirty ∧ (g.view.setState id state).Fixed :=
      ⟨View.mem_dirty_setState h.shape hnode hne,
        hx.setState hnode (by simp [TaskHandle.node, hsup]) state⟩
    simp only
    cases hsup : t.supported with
    | true =>
      simp only [if_true]
      by_cases hidle : t.state = .idle
      · rw [hidle]
        exact h.startTask hx hold hsup hidle
      · have hd : View.DrivenAt t.node :=
          ⟨fun _ => hidle, fun hf => absurd hsup (by simpa using hf), fun hf => absurd hsup (by simpa using hf)⟩
        cases hs : t.state with
        | idle => exact absurd hs hidle
        | starting | running | ready | stopping | backoff | done | exited => exact hnothing hd
    | false =>
      simp only [Bool.false_eq_true, if_false]
      have hresting (hr : t.state.isRunning = false) (hb : t.state.isBackoff = false) :
          View.DrivenAt t.node :=
        ⟨fun hf => absurd hsup (by simpa using hf), fun _ hr' => absurd hr' (by simpa using hr), fun _ => hb⟩
      have hrunning (hr : t.state.isRunning = true) (hne : t.state ≠ .stopping) :
          Sound s (if g.hasActiveDependent id then g else (g.stopTask id false).note (.drivenStop id)) ∧
            (if g.hasActiveDependent id then g
              else (g.stopTask id false).note (.drivenStop id)).view.Fixed := by
        split
        · rename_i hact
          refine hnothing ⟨fun hf => absurd hsup (by simpa using hf), fun _ _ => ?_, fun _ => ?_⟩
          · simpa [hasActiveDependent, hold] using hact
          · cases hs : t.state <;> simp [hs, TaskState.isRunning] at hr <;>
              simp [TaskHandle.node, hs, TaskState.isBackoff]
        · rename_i hact
          obtain ⟨hd, hfix⟩ := hmoved .stopping hsup hne
          rw [← view_stopTask g id false] at hd hfix
          have hst := (h.stopTask id false).shrink (.inl hd)
          refine ⟨hst.note (fun _ he => by cases he) fun x he => ?_, hfix⟩
          cases he
          -- Its own stop does not change how many active dependents it has.
          obtain ⟨n, hn⟩ := Option.isSome_iff_exists.mp ((hst.shape.registered id).mp (hst.shape.dirty hd))
          refine View.stopOk_of_counts hst.shape hst.counts hn ?_
          have hn' := hn
          rw [view_stopTask, View.setState_node hnode (show t.node.state ≠ _ from hne)] at hn'
          simp only [if_true, h.shape.not_self, and_false, if_false, Option.some.injEq] at hn'
          rw [← hn']
          simpa [hasActiveDependent, hold] using hact
      cases hs : t.state with
      | starting => exact hrunning (by rw [hs]; rfl) (by simp [hs])
      | running => exact hrunning (by rw [hs]; rfl) (by simp [hs])
      | ready => exact hrunning (by rw [hs]; rfl) (by simp [hs])
      | backoff info =>
        obtain ⟨hd, hfix⟩ := hmoved .idle hsup (by simp [hs])
        rw [← view_setState g id .idle] at hd hfix
        exact ⟨(h.setState id .idle).shrink (.inl hd), hfix⟩
      | idle | stopping | done | exited => exact hnothing (hresting (by rw [hs]; rfl) (by rw [hs]; rfl))

theorem Sound.driveTasks (L : List TaskId) (h : Sound L.toFinset g) (hx : g.view.Fixed) :
    Sound ∅ (L.foldl Graph.driveTask g) := by
  induction L generalizing g with
  | nil => exact h
  | cons id L ih =>
    rw [List.toFinset_cons] at h
    obtain ⟨h', hx'⟩ := h.driveTask hx
    exact ih h' hx'

theorem Sound.reconcileRound (h : Sound ∅ g) : Sound ∅ g.reconcileRound := by
  have hfuel : g.view.potential ≤ g.propagateFuel := View.potential_le h.shape
  obtain ⟨hp, hd⟩ := Sound.propagate (L := []) g.propagateFuel h hfuel
  have hdirty : (Graph.propagate g.propagateFuel g []).1.view.dirty = ∅ := by
    have := hp.queued.1
    rw [hd] at this
    exact this
  exact hp.driveTasks _ (.of_fresh hp.fresh hdirty)

theorem Sound.settleStep (h : Sound ∅ g) (hg : g.settleStep = some g') : Sound ∅ g' := by
  unfold Graph.settleStep at hg
  split at hg
  · cases hg
    refine Sound.onEffect ?_ _ _
    exact h.same rfl rfl rfl
  · split at hg
    · cases hg
    · cases hg
      exact h.reconcileRound

theorem Sound.settleSteps (n : ℕ) (h : Sound ∅ g) : Sound ∅ (Graph.settleSteps n g) := by
  induction n generalizing g with
  | zero => exact h
  | succ n ih =>
    unfold Graph.settleSteps
    cases hg : g.settleStep with
    | none => exact h
    | some g' => exact ih (h.settleStep hg)

theorem Sound.settle (h : Sound ∅ g) : Sound ∅ g.settle := h.settleSteps _

end drive

end Graph

end Dekit
