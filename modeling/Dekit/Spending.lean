import Dekit.Lib.Flips
import Dekit.Settle

namespace Dekit

open Flips

namespace TaskState

def isOver : TaskState → Bool
  | backoff _ | done _ | exited _ => true
  | idle | starting | running | ready | stopping => false

/-- What a task may yet cost: a start or a stop is a drive and two reports, a cancelled retry a drive. -/
def cost : Phase → TaskState → ℕ
  | _, done _ | _, exited _ => 0
  | .before, idle => 7
  | .before, stopping | .before, backoff _ => 8
  | .before, starting | .before, running | .before, ready => 11
  | .during, idle | .during, stopping => 7
  | .during, starting | .during, running | .during, ready => 4
  | .during, backoff _ => 1
  | .after, idle => 0
  | .after, stopping | .after, backoff _ => 1
  | .after, starting | .after, running | .after, ready => 4

/-- Where a report leads. -/
inductive Reports (s : TaskState) : TaskState → Prop
  | none : Reports s s
  | up {s' : TaskState} : s = starting ∨ s = running → s'.isRunning = true → Reports s s'
  | exits {s' : TaskState} : s.isRunning = true → s'.isOver = true → Reports s s'
  | lands {s' : TaskState} : s = stopping → s' = idle ∨ s'.isOver = true → Reports s s'

theorem cost_le (ph : Phase) (s : TaskState) : s.cost ph ≤ 11 := by
  cases ph <;> cases s <;> simp [cost]

theorem Reports.cost_le {s s' : TaskState} (h : s.Reports s') (ph : Phase) : s'.cost ph ≤ s.cost ph := by
  cases h with
  | none => exact le_rfl
  | up hs hs' => rcases hs with rfl | rfl <;> cases s' <;> cases ph <;> simp_all [cost, isRunning]
  | exits hs hs' => cases s <;> cases s' <;> cases ph <;> simp_all [cost, isRunning, isOver]
  | lands hs hs' =>
    subst hs
    rcases hs' with rfl | hs'
    · cases ph <;> simp [cost]
    · cases s' <;> cases ph <;> simp_all [cost, isOver]

theorem cost_advance (met : TaskId → Bool) (p : TaskId → Phase) (x : TaskId) (s : TaskState)
    (h : met x = true → p x ≠ .after) : s.cost (Flips.advance met p x) ≤ s.cost (p x) := by
  unfold Flips.advance
  cases hm : met x with
  | true =>
    have hp := h hm
    cases hph : p x with
    | before => cases s <;> simp [cost]
    | during => simp
    | after => exact absurd hph hp
  | false =>
    cases hph : p x with
    | before | after => simp
    | during => cases s <;> simp [cost]

end TaskState

namespace View

variable {v w : View} {id x d : TaskId} {n : Node} {p : TaskId → Phase}

def run (v : View) (x : TaskId) : Option (TaskState × TaskKind) := (v.node x).map fun n => (n.state, n.kind)

def met (v : View) (x : TaskId) : Bool := (v.node x).any (·.supported)

def ended (v : View) (x : TaskId) : Bool := (v.run x).any (·.1.isOver)

theorem satisfied_eq (v : View) (x : TaskId) : v.satisfied x = (v.run x).any fun r => r.1.satisfies r.2 := by
  unfold satisfied run
  cases v.node x <;> rfl

/-- What is asked for is as it was. -/
structure Asked (v w : View) : Prop where
  quitting : w.quitting = v.quitting
  ids : w.ids = v.ids
  deps : w.deps = v.deps
  vetoed : w.vetoed = v.vetoed

namespace Asked

theorem refl (v : View) : Asked v v := ⟨rfl, rfl, rfl, rfl⟩

theorem trans {u : View} (h : Asked u v) (h' : Asked v w) : Asked u w :=
  ⟨h'.quitting.trans h.quitting, h'.ids.trans h.ids, h'.deps.trans h.deps, h'.vetoed.trans h.vetoed⟩

theorem wants (h : Asked v w) : w.Wants = v.Wants := by
  have hpull : w.Pull = v.Pull := by
    funext a b
    simp only [Pull, Dep, h.deps, h.vetoed]
  funext x
  simp only [Wants, h.quitting, hpull]

theorem revise {f : Node → Node} (hf : ∀ n, (f n).vetoed = n.vetoed) (v : View) (s : Finset TaskId) :
    Asked v (v.revise s f) := by
  refine ⟨rfl, rfl, rfl, funext fun x => ?_⟩
  simp only [View.vetoed, revise_node]
  split
  · cases v.node x with
    | none => rfl
    | some n => exact hf n
  · rfl

end Asked

theorem run_revise {f : Node → Node} (hf : ∀ n, (f n).state = n.state ∧ (f n).kind = n.kind) (v : View)
    (s : Finset TaskId) : (v.revise s f).run = v.run := by
  funext x
  simp only [run, revise_node]
  split
  · cases v.node x with
    | none => rfl
    | some n => simp [hf n]
  · rfl

theorem recompute_keeps (v : View) (id : TaskId) : Asked v (v.recompute id) ∧ (v.recompute id).run = v.run := by
  have hwanted (v : View) : Asked v (v.recomputeWanted id) ∧ (v.recomputeWanted id).run = v.run := by
    unfold View.recomputeWanted
    cases v.node id with
    | none => exact ⟨.refl v, rfl⟩
    | some n =>
      simp only
      split
      · exact ⟨.refl v, rfl⟩
      · have hset : Asked v (v.revise {id} (.setWanted (v.computeWanted n))) :=
          .revise (f := .setWanted _) (fun _ => rfl) v _
        have hcount := Asked.revise (f := .count true false (if v.computeWanted n then 1 else -1)) (fun _ => rfl)
          (v.revise {id} (.setWanted (v.computeWanted n))) (v.deps id)
        refine ⟨⟨rfl, rfl, rfl, (hset.trans hcount).vetoed⟩, ?_⟩
        exact (run_revise (f := .count true false _) (fun _ => ⟨rfl, rfl⟩) _ _).trans
          (run_revise (f := .setWanted _) (fun _ => ⟨rfl, rfl⟩) v _)
  have hsupported (v : View) : Asked v (v.recomputeSupported id) ∧ (v.recomputeSupported id).run = v.run := by
    unfold View.recomputeSupported
    cases v.node id with
    | none => exact ⟨.refl v, rfl⟩
    | some n =>
      simp only
      split
      · exact ⟨.refl v, rfl⟩
      · have hset : Asked v (v.revise {id} (.setSupported (v.computeSupported id n))) :=
          .revise (f := .setSupported _) (fun _ => rfl) v _
        exact ⟨⟨rfl, rfl, rfl, hset.vetoed⟩, run_revise (f := .setSupported _) (fun _ => ⟨rfl, rfl⟩) v _⟩
  obtain ⟨ha, hr⟩ := hwanted v
  obtain ⟨ha', hr'⟩ := hsupported (v.recomputeWanted id)
  exact ⟨ha.trans ha', hr'.trans hr⟩

theorem setState_keeps (v : View) (id : TaskId) (state : TaskState) : Asked v (v.setState id state) ∧
    (v.setState id state).met = v.met ∧
      ∀ x, (v.setState id state).run x = if x = id then (v.run x).map (fun r => (state, r.2)) else v.run x := by
  cases hn : v.node id with
  | none =>
    have hsame : v.setState id state = v := by
      unfold View.setState
      rw [hn]
    rw [hsame]
    refine ⟨.refl v, rfl, fun x => ?_⟩
    split
    · rename_i hx
      rw [hx, run, hn]
      rfl
    · rfl
  | some n =>
    by_cases hs : n.state = state
    · rw [setState_of_eq hn hs]
      refine ⟨.refl v, rfl, fun x => ?_⟩
      split
      · rename_i hx
        rw [hx, run, hn, ← hs]
        rfl
      · rfl
    · obtain ⟨hquit, hids, hdeps, -⟩ := setState_same v id state
      have hnode := setState_node hn hs
      refine ⟨⟨hquit, hids, hdeps, funext fun x => ?_⟩, funext fun x => ?_, fun x => ?_⟩
      all_goals
        simp only [View.vetoed, met, run, hnode]
        by_cases hx : x = id
        · subst hx
          simp only [if_true, hn]
          split <;> rfl
        · simp only [hx, if_false]
          split
          · cases v.node x <;> rfl
          · rfl

def Once (p : TaskId → Phase) (v : View) : Prop := Flips.Once v.Dep v.Wants (v.satisfied · = true) (v.ended · = true) p

def spent (p : TaskId → Phase) (v : View) : ℕ := ∑ x ∈ v.ids, (v.run x).elim 0 fun r => r.1.cost (p x)

theorem spent_le (p : TaskId → Phase) (v : View) : v.spent p ≤ 11 * v.ids.card := by
  have hone : ∀ x ∈ v.ids, (v.run x).elim 0 (fun r => r.1.cost (p x)) ≤ 11 := by
    intro x _
    cases v.run x with
    | none => exact Nat.zero_le _
    | some r => exact TaskState.cost_le _ _
  have hsum := Finset.sum_le_card_nsmul v.ids _ 11 hone
  rw [smul_eq_mul] at hsum
  unfold spent
  omega

theorem spent_congr (hids : w.ids = v.ids) (hr : w.run = v.run) : w.spent p = v.spent p := by
  simp only [spent, hids, hr]

theorem spent_change (hid : id ∈ v.ids) {s s' : TaskState} {kind kind' : TaskKind} (hids : w.ids = v.ids)
    (hs : v.run id = some (s, kind)) (hs' : w.run id = some (s', kind')) (hrest : ∀ x, x ≠ id → w.run x = v.run x) :
    w.spent p + s.cost (p id) = v.spent p + s'.cost (p id) := by
  unfold spent
  rw [hids, ← Finset.sum_erase_add v.ids _ hid, ← Finset.sum_erase_add v.ids _ hid, hs, hs']
  have hsame : ∑ x ∈ v.ids.erase id, (w.run x).elim 0 (fun r => r.1.cost (p x)) =
      ∑ x ∈ v.ids.erase id, (v.run x).elim 0 (fun r => r.1.cost (p x)) :=
    Finset.sum_congr rfl fun x hx => by rw [hrest x (Finset.ne_of_mem_erase hx)]
  rw [hsame]
  simp only [Option.elim_some]
  omega

theorem spent_advance (met : TaskId → Bool) (h : ∀ x, met x = true → p x ≠ .after) :
    v.spent (Flips.advance met p) ≤ v.spent p := by
  apply Finset.sum_le_sum
  intro x _
  cases v.run x with
  | none => exact le_rfl
  | some r => exact TaskState.cost_advance met p x r.1 (h x)

theorem Once.congr (h : v.Once p) (ha : Asked v w) (hr : w.run = v.run) : w.Once p := by
  have hdep : w.Dep = v.Dep := by
    funext a b
    simp only [Dep, ha.deps]
  have hsat : w.satisfied = v.satisfied := by
    funext x
    rw [satisfied_eq, satisfied_eq, hr]
  have hover : w.ended = v.ended := by
    funext x
    rw [ended, ended, hr]
  unfold Once
  rw [hdep, ha.wants, hsat, hover]
  exact h

theorem Once.change (h : v.Once p) (ha : Asked v w) (hrest : ∀ x, x ≠ id → w.run x = v.run x)
    (hid : p id = .during → ∀ s kind, v.run id = some (s, kind) →
      (s.satisfies kind = true ∨ s.isOver = true → w.satisfied id = true ∨ w.ended id = true) ∧
      (s.isOver = true → s.satisfies kind = false → w.ended id = true ∧ w.satisfied id = false)) : w.Once p := by
  have hdep : w.Dep = v.Dep := by
    funext a b
    simp only [Dep, ha.deps]
  unfold Once
  rw [hdep, ha.wants]
  have hother (d : TaskId) (hd : d ≠ id) : w.satisfied d = v.satisfied d ∧ w.ended d = v.ended d := by
    rw [satisfied_eq, satisfied_eq, ended, ended, hrest d hd]
    exact ⟨rfl, rfl⟩
  have hself (hp : p id = .during) :
    (v.satisfied id = true ∨ v.ended id = true → w.satisfied id = true ∨ w.ended id = true) ∧
      (v.ended id = true → ¬ v.satisfied id = true → w.ended id = true ∧ ¬ w.satisfied id = true) := by
    rw [satisfied_eq v, ended]
    cases hr : v.run id with
    | none => simp
    | some r =>
      obtain ⟨hheld, hlost⟩ := hid hp r.1 r.2 hr
      simpa using And.intro hheld hlost
  refine Flips.Once.change h (fun d hp => ?_) fun d hp => ?_
  · by_cases hd : d = id
    · subst hd
      exact (hself hp).1
    · rw [(hother d hd).1, (hother d hd).2]
      exact fun h => h
  · by_cases hd : d = id
    · subst hd
      exact (hself hp).2
    · rw [(hother d hd).1, (hother d hd).2]
      exact fun h h' => ⟨h, h'⟩

theorem met_iff (hs : Shape v) (hc : Counts v) (hf : Fresh v ∅) (hd : v.dirty = ∅) (x : TaskId) :
    v.met x = true ↔ v.Wants x ∧ ∀ d, v.Dep x d → v.met d = true ∧ v.satisfied d = true := by
  have hsupports (d : TaskId) : v.supports d = true ↔ v.met d = true ∧ v.satisfied d = true := by
    unfold supports met satisfied
    cases v.node d <;> simp
  have hat (x : TaskId) (n : Node) (hn : v.node x = some n) : v.FreshAt x n := hf x n hn (by simp [hd]) (by simp)
  cases hn : v.node x with
  | none =>
    have hnot : ¬ v.Wants x := by
      rintro ⟨-, hreach⟩
      obtain ⟨a, -, hdep, -⟩ := Relation.TransGen.tail'_iff.mp hreach
      have hmem := (hs.registered x).mp (hs.target a x hdep)
      rw [hn] at hmem
      cases hmem
    simp [met, hn, hnot]
  | some n =>
    have hw := wanted_iff hs hc (fun x n hn => (hat x n hn).1) hn
    have hm : v.met x = n.supported := by simp [met, hn]
    rw [hm, (hat x n hn).2, computeSupported_iff, hw]
    exact and_congr_right fun _ => forall₂_congr fun d _ => hsupports d

end View

end Dekit
