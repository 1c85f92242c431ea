import Dekit.Lib.Dag
import Dekit.ViewOps

namespace Dekit.View

open Relation

def Dep (v : View) (a b : TaskId) : Prop := b ∈ v.deps a

/-- The graph is well formed: its two edge maps are inverses, every end of an edge is registered
(but for the pins' end), nothing leads to the pins' end, and there is no cycle. -/
structure Shape (v : View) : Prop where
  inverse : ∀ a b, b ∈ v.deps a ↔ a ∈ v.requirers b
  source : ∀ a b, b ∈ v.deps a → a = initTaskId ∨ a ∈ v.ids
  target : ∀ a b, b ∈ v.deps a → b ∈ v.ids
  init : initTaskId ∉ v.ids
  acyclic : Dag.Acyclic v.Dep
  registered : ∀ x, x ∈ v.ids ↔ (v.node x).isSome = true
  dirty : v.dirty ⊆ v.ids

namespace Shape

variable {v w : View} {id src dst x : TaskId} {n : Node}

theorem mem (h : Shape v) (hn : v.node x = some n) : x ∈ v.ids := by
  rw [h.registered, hn]
  rfl

theorem ne_init (h : Shape v) (hx : x ∈ v.ids) : x ≠ initTaskId := fun he => h.init (he ▸ hx)

theorem not_self (h : Shape v) : x ∉ v.deps x := h.acyclic.not_self

theorem target_ne_init (h : Shape v) (hd : dst ∈ v.deps src) : dst ≠ initTaskId :=
  h.ne_init (h.target _ _ hd)

theorem no_deps (h : Shape v) (hid : id ∉ v.ids) (hne : id ≠ initTaskId) : v.deps id = ∅ := by
  refine Finset.eq_empty_of_forall_notMem fun b hb => ?_
  rcases h.source id b hb with he | hm
  · exact hne he
  · exact hid hm

theorem no_requirers (h : Shape v) (hid : id ∉ v.ids) : v.requirers id = ∅ :=
  Finset.eq_empty_of_forall_notMem fun a ha => hid (h.target a id ((h.inverse a id).mpr ha))

theorem congr (h : Shape v) (hids : w.ids = v.ids) (hdeps : w.deps = v.deps)
    (hreq : w.requirers = v.requirers) (hnode : ∀ x, (w.node x).isSome = (v.node x).isSome)
    (hdirty : w.dirty ⊆ w.ids) : Shape w where
  inverse a b := by rw [hdeps, hreq]; exact h.inverse a b
  source a b := by rw [hdeps, hids]; exact h.source a b
  target a b := by rw [hdeps, hids]; exact h.target a b
  init := by rw [hids]; exact h.init
  acyclic := h.acyclic.mono fun a b => by simp only [Dep, hdeps, imp_self]
  registered x := by rw [hids, hnode]; exact h.registered x
  dirty := hdirty

theorem revise (h : Shape v) (s : Finset TaskId) (f : Node → Node) : Shape (v.revise s f) :=
  h.congr rfl rfl rfl (fun x => by simp only [revise_node]; split <;> simp) h.dirty

theorem touch (h : Shape v) (s : Finset TaskId) : Shape (v.touch s) :=
  h.congr rfl rfl rfl (fun _ => rfl) fun x hx => by
    rcases (mem_touch_dirty v s x).mp hx with hx | hx
    · exact h.dirty hx
    · exact hx.2.2

theorem pop (h : Shape v) (id : TaskId) : Shape (v.pop id) :=
  h.congr rfl rfl rfl (fun _ => rfl) ((Finset.erase_subset _ _).trans h.dirty)

theorem dep_linkEdge : (v.linkEdge src dst).Dep = Dag.insertPair v.Dep src dst := by
  funext a b
  simp only [Dep, linkEdge, revise_deps, Dag.insertPair, eq_iff_iff]
  by_cases ha : a = src
  · subst ha; simp [or_comm]
  · simp [ha]

theorem linkEdge (h : Shape v) (hsrc : src = initTaskId ∨ src ∈ v.ids) (hdst : dst ∈ v.ids)
    (hreach : ¬ ReflTransGen v.Dep dst src) : Shape (v.linkEdge src dst) := by
  have hdeps (a b : TaskId) : b ∈ (v.linkEdge src dst).deps a ↔ b ∈ v.deps a ∨ a = src ∧ b = dst := by
    have := congrFun (congrFun (dep_linkEdge : (v.linkEdge src dst).Dep = _) a) b
    simpa only [Dep, Dag.insertPair, eq_iff_iff] using this
  refine ⟨fun a b => ?_, fun a b hb => ?_, fun a b hb => ?_, h.init, ?_, fun x => ?_, h.dirty⟩
  · rw [hdeps, h.inverse]
    simp only [View.linkEdge, revise_requirers]
    by_cases hb : b = dst
    · subst hb; simp [or_comm]
    · simp [hb]
  · rcases (hdeps a b).mp hb with hb | ⟨rfl, rfl⟩
    · exact h.source a b hb
    · exact hsrc
  · rcases (hdeps a b).mp hb with hb | ⟨rfl, rfl⟩
    · exact h.target a b hb
    · exact hdst
  · rw [dep_linkEdge]
    exact h.acyclic.insertPair hreach
  · simp only [View.linkEdge, revise_ids, revise_node, h.registered]
    split <;> simp

theorem cutEdge (h : Shape v) : Shape (v.cutEdge src dst) := by
  have hdeps (a b : TaskId) :
      b ∈ (v.cutEdge src dst).deps a ↔ b ∈ v.deps a ∧ ¬ (a = src ∧ b = dst) := by
    simp only [View.cutEdge, revise_deps]
    by_cases ha : a = src
    · subst ha; simp [and_comm]
    · simp [ha]
  refine ⟨fun a b => ?_, fun a b hb => ?_, fun a b hb => ?_, h.init, ?_, fun x => ?_, h.dirty⟩
  · rw [hdeps, h.inverse]
    simp only [View.cutEdge, revise_requirers]
    by_cases hb : b = dst
    · subst hb; simp [and_comm]
    · simp [hb]
  · exact h.source a b ((hdeps a b).mp hb).1
  · exact h.target a b ((hdeps a b).mp hb).1
  · exact h.acyclic.mono fun a b hb => ((hdeps a b).mp hb).1
  · simp only [View.cutEdge, revise_ids, revise_node, h.registered]
    split <;> simp

theorem addEdge (h : Shape v) (hreach : ¬ ReflTransGen v.Dep dst src) : Shape (v.addEdge src dst) := by
  unfold View.addEdge
  split
  · exact h
  · split
    · exact h
    · rename_i hends
      simp only [not_or, not_not, not_and] at hends
      split
      · exact h.touch _
      · exact (h.linkEdge (or_iff_not_imp_left.mpr hends.2) hends.1 hreach).touch _

theorem removeEdge (h : Shape v) : Shape (v.removeEdge src dst) := by
  unfold View.removeEdge
  split
  · exact h.cutEdge.touch _
  · exact h.touch _

theorem setState (h : Shape v) (id : TaskId) (state : TaskState) : Shape (v.setState id state) := by
  unfold View.setState
  cases v.node id with
  | none => exact h
  | some n =>
    by_cases hstate : n.state = state
    · simpa only [hstate, if_true] using h
    · simp only [hstate, if_false]
      have hw := (h.revise {id} (.setState state)).touch {id}
      split <;> split
      · exact hw
      · exact hw.touch _
      · exact (hw.revise _ _).touch _
      · exact ((hw.touch _).revise _ _).touch _

theorem setVetoed (h : Shape v) (id : TaskId) (value : Bool) : Shape (v.setVetoed id value) := by
  unfold View.setVetoed
  cases v.node id with
  | none => exact h
  | some n =>
    simp only
    split
    · exact h
    · exact (h.revise _ _).touch _

theorem setWanted (h : Shape v) (id : TaskId) (wanted : Bool) : Shape (v.setWanted id wanted) :=
  ((h.revise _ _).revise _ _).touch _

theorem setSupported (h : Shape v) (id : TaskId) (supported : Bool) :
    Shape (v.setSupported id supported) :=
  (h.revise _ _).touch _

theorem recomputeWanted (h : Shape v) (id : TaskId) : Shape (v.recomputeWanted id) := by
  unfold View.recomputeWanted
  cases v.node id with
  | none => exact h
  | some n =>
    simp only
    split
    · exact h
    · exact h.setWanted _ _

theorem recomputeSupported (h : Shape v) (id : TaskId) : Shape (v.recomputeSupported id) := by
  unfold View.recomputeSupported
  cases v.node id with
  | none => exact h
  | some n =>
    simp only
    split
    · exact h
    · exact h.setSupported _ _

theorem recompute (h : Shape v) (id : TaskId) : Shape (v.recompute id) :=
  (h.recomputeWanted id).recomputeSupported id

theorem insertTask (h : Shape v) (hid : id ∉ v.ids) (hne : id ≠ initTaskId) :
    Shape (v.insertTask id n) := by
  refine ⟨h.inverse, fun a b hb => ?_, fun a b hb => ?_, ?_, h.acyclic, fun x => ?_, ?_⟩
  · exact (h.source a b hb).imp_right (Finset.mem_insert_of_mem ·)
  · exact Finset.mem_insert_of_mem (h.target a b hb)
  · simp only [View.insertTask, Finset.mem_insert, not_or]
    exact ⟨hne.symm, h.init⟩
  · simp only [View.insertTask, Finset.mem_insert, h.registered]
    by_cases hx : x = id
    · subst hx; simp
    · simp [hx]
  · exact h.dirty.trans (Finset.subset_insert _ _)

theorem removeTask (h : Shape v) (id : TaskId) : Shape (v.removeTask id) := by
  unfold View.removeTask
  cases hn : v.node id with
  | none => exact h
  | some n =>
    have hid := h.mem hn
    apply Shape.touch
    have hdeps (a b : TaskId) :
        b ∈ (if a = id then ∅ else if a ∈ v.requirers id then (v.deps a).erase id else v.deps a) ↔
          b ∈ v.deps a ∧ a ≠ id ∧ b ≠ id := by
      by_cases ha : a = id
      · simp [ha]
      · by_cases hr : a ∈ v.requirers id
        · simp [ha, hr, and_comm]
        · have hb : b ∈ v.deps a → b ≠ id := fun hb he => hr ((h.inverse a id).mp (he ▸ hb))
          simp only [ha, hr, if_false, ne_eq, not_false_eq_true, true_and]
          exact ⟨fun hm => ⟨hm, hb hm⟩, And.left⟩
    refine ⟨fun a b => ?_, fun a b hb => ?_, fun a b hb => ?_, ?_, ?_, fun x => ?_, ?_⟩
    · rw [hdeps, h.inverse]
      simp only
      by_cases hb : b = id
      · simp [hb]
      · by_cases hd : b ∈ v.deps id
        · simp [hb, hd, and_comm]
        · have ha : a ∈ v.requirers b → a ≠ id := fun ha he => hd ((h.inverse id b).mpr (he ▸ ha))
          simp only [hb, hd, if_false, ne_eq, not_false_eq_true, and_true]
          exact ⟨And.left, fun hm => ⟨hm, ha hm⟩⟩
    · obtain ⟨hb, ha, -⟩ := (hdeps a b).mp hb
      exact (h.source a b hb).imp_right fun hm => Finset.mem_erase.mpr ⟨ha, hm⟩
    · obtain ⟨hb, -, hne⟩ := (hdeps a b).mp hb
      exact Finset.mem_erase.mpr ⟨hne, h.target a b hb⟩
    · exact fun hm => h.init (Finset.mem_of_mem_erase hm)
    · exact h.acyclic.mono fun a b hb => ((hdeps a b).mp hb).1
    · simp only [Finset.mem_erase, h.registered]
      by_cases hx : x = id
      · simp [hx]
      · simp only [hx, ne_eq, not_false_eq_true, true_and, if_false]
        split <;> simp
    · intro x hx
      obtain ⟨hne, hx⟩ := Finset.mem_erase.mp hx
      exact Finset.mem_erase.mpr ⟨hne, h.dirty hx⟩

theorem quit (h : Shape v) : Shape v.quit :=
  (h.congr rfl rfl rfl (fun _ => rfl) h.dirty : Shape { v with quitting := true }).touch _

end Shape

end Dekit.View
