import Mathlib.Data.List.TakeWhile
import Mathlib.Data.List.Count
import Dekit.Batch

namespace Dekit.Batch

variable {τ : Type} {tasks : List (Registration τ)} {done ready l : List ℕ} {missing : ℕ → ℕ} {i x : ℕ}

theorem deps_beyond (h : tasks.length ≤ x) : deps tasks x = [] := by
  unfold deps
  rw [List.getElem?_eq_none h]

theorem count_dependents (i x : ℕ) : (dependents tasks i).count x = (deps tasks x).count i := by
  have hrange (n : ℕ) : ((List.range n).flatMap (fun y => List.replicate ((deps tasks y).count i) y)).count x =
      if x < n then (deps tasks x).count i else 0 := by
    induction n with
    | zero => simp
    | succ n ih =>
      rw [List.range_succ, List.flatMap_append, List.count_append, ih]
      simp only [List.flatMap_cons, List.flatMap_nil, List.append_nil, List.count_replicate, beq_iff_eq]
      by_cases hx : n = x
      · subst hx
        simp
      · rw [if_neg hx, Nat.add_zero]
        have hiff : x < n ↔ x < n + 1 := by omega
        simp only [hiff]
  unfold dependents
  rw [hrange]
  split
  · rfl
  · rename_i hx
    rw [deps_beyond (Nat.le_of_not_lt hx), List.count_nil]

theorem foldl_release (l : List ℕ) (missing : ℕ → ℕ) (ready : List ℕ) (h : ∀ x, l.count x ≤ missing x) :
    ∃ new : List ℕ, l.foldl release (missing, ready) = (fun x => missing x - l.count x, ready ++ new) ∧ new.Nodup ∧
      ∀ x, x ∈ new ↔ x ∈ l ∧ missing x = l.count x := by
  induction l generalizing missing ready with
  | nil => exact ⟨[], by simp, List.nodup_nil, by simp⟩
  | cons d l ih =>
    let m := Function.update missing d (missing d - 1)
    have hm (x : ℕ) : m x = missing x - if x = d then 1 else 0 := by
      by_cases hx : x = d
      · subst hx
        simp [m]
      · simp [m, hx]
    have hcount (x : ℕ) : (d :: l).count x = l.count x + if x = d then 1 else 0 := by
      by_cases hx : x = d
      · subst hx
        simp
      · simp [hx, List.count_cons_of_ne (Ne.symm hx)]
    have hle (x : ℕ) : l.count x ≤ m x := by
      have := h x
      rw [hcount] at this
      rw [hm]
      omega
    obtain ⟨new, hfold, hnodup, hmem⟩ := ih m (if m d = 0 then ready ++ [d] else ready) hle
    refine ⟨(if m d = 0 then [d] else []) ++ new, ?_, ?_, fun x => ?_⟩
    · rw [List.foldl_cons]
      refine hfold.trans (Prod.ext (funext fun x => ?_) ?_)
      · simp only [hm, hcount]
        omega
      · simp only
        split <;> simp
    · split
      · rename_i hzero
        refine List.nodup_cons.mpr ⟨fun hd => ?_, hnodup⟩
        have hin := List.count_pos_iff.mpr ((hmem d).mp hd).1
        have := hle d
        omega
      · exact hnodup
    · have hx := h x
      have hxl := hle x
      have hmx := hm x
      rw [hcount] at hx ⊢
      have hfirst : x ∈ (if m d = 0 then [d] else []) ↔ x = d ∧ m d = 0 := by
        by_cases hzero : m d = 0
        · simp [hzero]
        · simp [hzero]
      have hpos : x ∈ l ↔ 0 < l.count x := List.count_pos_iff.symm
      rw [List.mem_append, hfirst, hmem, List.mem_cons, hpos]
      by_cases hd : x = d
      · subst hd
        simp only [if_true] at hx hmx ⊢
        simp only [true_or, true_and]
        omega
      · simp only [hd, if_false] at hx hmx ⊢
        simp only [false_or, false_and]
        omega

/-- What is ready waits for nothing more, each once. -/
structure Ordered (tasks : List (Registration τ)) (done ready : List ℕ) (missing : ℕ → ℕ) : Prop where
  nodup : (done ++ ready).Nodup
  bound : ∀ i ∈ done ++ ready, i < tasks.length
  waits : ∀ i, missing i = ((deps tasks i).filter (· ∉ done)).length
  free : ∀ i < tasks.length, i ∈ done ++ ready ↔ missing i = 0

theorem length_filter_done (hi : i ∉ done) (l : List ℕ) :
    (l.filter (· ∉ done)).length = (l.filter (· ∉ done ++ [i])).length + l.count i := by
  induction l with
  | nil => rfl
  | cons x l ih =>
    by_cases hx : x = i
    · subst hx
      have hin : x ∈ done ++ [x] := by simp
      rw [List.filter_cons_of_pos (by simp [hi]), List.filter_cons_of_neg (by simp [hin]),
        List.length_cons, ih, List.count_cons_self]
      omega
    · rw [List.count_cons_of_ne hx]
      by_cases hd : x ∈ done
      · simpa [hd] using ih
      · have hn : x ∉ done ++ [i] := by simp [hd, hx]
        rw [List.filter_cons_of_pos (by simpa using hd), List.filter_cons_of_pos (by simpa using hn),
          List.length_cons, List.length_cons, ih]
        omega

theorem Ordered.pop (h : Ordered tasks done (i :: ready) missing) :
    Ordered tasks (done ++ [i]) ((dependents tasks i).foldl release (missing, ready)).2
      ((dependents tasks i).foldl release (missing, ready)).1 := by
  have hsame : done ++ [i] ++ ready = done ++ i :: ready := by simp
  have hi : i ∉ done := by
    intro hd
    exact (List.nodup_append.mp h.nodup).2.2 i hd i List.mem_cons_self rfl
  have hwaits (x : ℕ) :
    missing x = ((deps tasks x).filter (· ∉ done ++ [i])).length + (dependents tasks i).count x := by
    rw [h.waits, length_filter_done hi, count_dependents]
  obtain ⟨new, hfold, hnodup, hmem⟩ := foldl_release (dependents tasks i) missing ready fun x => by
    rw [hwaits]
    omega
  rw [hfold]
  have hnew (x : ℕ) (hx : x ∈ new) : 0 < missing x ∧ x < tasks.length := by
    obtain ⟨hin, heq⟩ := (hmem x).mp hx
    have hpos := List.count_pos_iff.mpr hin
    refine ⟨by omega, ?_⟩
    by_contra hge
    rw [count_dependents, deps_beyond (Nat.le_of_not_lt hge), List.count_nil] at hpos
    omega
  refine ⟨?_, fun x hx => ?_, fun x => ?_, fun x hx => ?_⟩
  · rw [← List.append_assoc, hsame]
    refine List.nodup_append.mpr ⟨h.nodup, hnodup, fun x hx y hy he => ?_⟩
    subst he
    obtain ⟨hpos, hlt⟩ := hnew x hy
    have := (h.free x hlt).mp hx
    omega
  · rw [← List.append_assoc, hsame] at hx
    rcases List.mem_append.mp hx with hx | hx
    · exact h.bound x hx
    · exact (hnew x hx).2
  · simp only
    rw [hwaits x]
    omega
  · rw [← List.append_assoc, hsame, List.mem_append, h.free x hx, hmem]
    have hpos : x ∈ dependents tasks i ↔ 0 < (dependents tasks i).count x := List.count_pos_iff.symm
    have := hwaits x
    rw [hpos]
    simp only
    omega

theorem Ordered.length_le (h : Ordered tasks done ready missing) : done.length + ready.length ≤ tasks.length := by
  have hsub : (done ++ ready) ⊆ List.range tasks.length := fun x hx => List.mem_range.mpr (h.bound x hx)
  have := (h.nodup.subperm hsub).length_le
  simpa using this

theorem Ordered.orderFrom (h : Ordered tasks done ready missing) (fuel : ℕ)
    (hfuel : tasks.length ≤ fuel + done.length) :
    Ordered tasks (done ++ (Batch.orderFrom tasks fuel missing ready).1) []
      (Batch.orderFrom tasks fuel missing ready).2 := by
  induction fuel generalizing done ready missing with
  | zero =>
    have hlen := h.length_le
    obtain rfl : ready = [] := List.length_eq_zero_iff.mp (by omega)
    rw [Batch.orderFrom, List.append_nil]
    exact h
  | succ fuel ih =>
    cases ready with
    | nil =>
      rw [Batch.orderFrom, List.append_nil]
      exact h
    | cons d ready =>
      rw [Batch.orderFrom]
      have hrec := ih h.pop (by simp; omega)
      rwa [List.append_assoc] at hrec

/-- What is ready at first: the folders, and the tasks that wait for nothing. -/
def roots (tasks : List (Registration τ)) : List ℕ :=
  let (folders, rest) := (List.range tasks.length).partition (fun i => tasks[i]?.any Registration.isFolder)
  folders ++ rest.filter fun i => (deps tasks i).length = 0

theorem Ordered.start (tasks : List (Registration τ)) :
    Ordered tasks [] (roots tasks) (fun i => (deps tasks i).length) := by
  unfold roots
  rw [List.partition_eq_filter_filter]
  have hfolder (x : ℕ) (hx : tasks[x]?.any Registration.isFolder = true) : deps tasks x = [] := by
    unfold deps
    cases hr : tasks[x]? with
    | none => rfl
    | some r =>
      rw [hr] at hx
      cases r with
      | task r => cases hx
      | folder d => rfl
  have hnd : (List.range tasks.length).Nodup := List.nodup_range
  refine ⟨?_, fun x hx => ?_, fun x => by simp, fun x hx => ?_⟩
  · rw [List.nil_append]
    refine List.nodup_append.mpr ⟨hnd.filter _, (hnd.filter _).filter _, fun x hx y hy he => ?_⟩
    subst he
    have h₁ := (List.mem_filter.mp hx).2
    have h₂ := (List.mem_filter.mp (List.mem_of_mem_filter hy)).2
    simp only [Function.comp_apply, h₁] at h₂
    cases h₂
  · rw [List.nil_append, List.mem_append] at hx
    rcases hx with hx | hx
    · exact List.mem_range.mp (List.mem_of_mem_filter hx)
    · exact List.mem_range.mp (List.mem_of_mem_filter (List.mem_of_mem_filter hx))
  · rw [List.nil_append, List.mem_append, List.mem_filter, List.mem_filter, List.mem_filter, List.mem_range]
    by_cases hf : tasks[x]?.any Registration.isFolder = true
    · have hnone := hfolder x hf
      simp only [hf, hx, hnone, List.length_nil, and_self, true_or]
    · have hnot : tasks[x]?.any Registration.isFolder = false := Bool.eq_false_iff.mpr hf
      simp only [hnot, hx, Function.comp_apply, Bool.not_false, decide_eq_true_eq, Bool.false_eq_true, and_false,
        false_or, true_and, and_true]

theorem order_perm (tasks : List (Registration τ)) : (order tasks).Perm (List.range tasks.length) := by
  have hend := (Ordered.start tasks).orderFrom tasks.length (by simp)
  rw [List.nil_append] at hend
  have hsplit : order tasks =
      (Batch.orderFrom tasks tasks.length (fun i => (deps tasks i).length) (roots tasks)).1 ++
        (List.range tasks.length).filter
          (0 < (Batch.orderFrom tasks tasks.length (fun i => (deps tasks i).length) (roots tasks)).2 ·) := rfl
  rw [hsplit]
  generalize Batch.orderFrom tasks tasks.length (fun i => (deps tasks i).length) (roots tasks) = run at hend ⊢
  obtain ⟨order, missing⟩ := run
  obtain ⟨hnodup, hbound, -, hfree⟩ := hend
  simp only [List.append_nil] at hnodup hbound hfree ⊢
  refine (List.perm_ext_iff_of_nodup ?_ List.nodup_range).mpr fun i => ?_
  · refine List.nodup_append.mpr ⟨hnodup, List.nodup_range.filter _, fun x hx y hy he => ?_⟩
    subst he
    have hzero := (hfree x (hbound x hx)).mp hx
    have hpos := (List.mem_filter.mp hy).2
    simp [hzero] at hpos
  · rw [List.mem_append, List.mem_filter, List.mem_range]
    constructor
    · rintro (hi | ⟨hi, -⟩)
      · exact hbound i hi
      · exact hi
    · intro hi
      by_cases hzero : missing i = 0
      · exact .inl ((hfree i hi).mpr hzero)
      · exact .inr ⟨hi, decide_eq_true (Nat.pos_of_ne_zero hzero)⟩

theorem mem_order (tasks : List (Registration τ)) (hi : i < tasks.length) : i ∈ order tasks :=
  (order_perm tasks).mem_iff.mpr (List.mem_range.mpr hi)

theorem order_split (hi : i < tasks.length) : ∃ rest,
    order tasks = (order tasks).takeWhile (· ≠ i) ++ i :: rest ∧ i ∉ (order tasks).takeWhile (· ≠ i) ∧ i ∉ rest := by
  have hmem := mem_order tasks hi
  have hnodup : (order tasks).Nodup := (order_perm tasks).nodup_iff.mpr List.nodup_range
  generalize order tasks = l at hmem hnodup
  have hbefore : i ∉ l.takeWhile (· ≠ i) := fun h => by simpa using List.mem_takeWhile_imp h
  induction l with
  | nil => cases hmem
  | cons j l ih =>
    by_cases hj : j = i
    · subst hj
      exact ⟨l, by simp, hbefore, (List.nodup_cons.mp hnodup).1⟩
    · have hin : i ∈ l := (List.mem_cons.mp hmem).resolve_left (Ne.symm hj)
      rw [List.takeWhile_cons_of_pos (by simpa using hj)] at hbefore ⊢
      obtain ⟨rest, hl, -, hrest⟩ := ih hin (List.nodup_cons.mp hnodup).2 fun h => hbefore (List.mem_cons_of_mem _ h)
      exact ⟨rest, by rw [List.cons_append, ← hl], hbefore, hrest⟩

end Dekit.Batch
