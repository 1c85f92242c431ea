import Dekit.Console.TaskTree

/-! The groups above a path, and which of its parts each of them lists. -/

namespace Dekit.Console

variable {p q c : TaskPath}

theorem above_singleton (x : String) : above [x] = [TaskPath.root] := rfl

theorem inits_dropLast (p : TaskPath) : p.inits.dropLast ++ [p] = p.inits := by
  induction p using List.reverseRecOn with
  | nil => rfl
  | append_singleton p x _ =>
    rw [List.inits_append]
    simp

theorem above_append_singleton (hp : p ≠ TaskPath.root) (x : String) : above (p ++ [x]) = above p ++ [p] := by
  have hlen : p.inits.dropLast ≠ [] := by
    intro he
    have hlast := inits_dropLast p
    rw [he] at hlast
    have hcount := congrArg List.length hlast
    rw [List.length_inits] at hcount
    exact hp (List.length_eq_zero_iff.mp (by simpa using hcount.symm))
  have hsplit : (p ++ [x]).inits.dropLast = p.inits := by
    rw [List.inits_append]
    simp
  unfold above
  rw [← List.tail_dropLast, hsplit, ← List.tail_dropLast, List.cons_append, ← List.tail_append_of_ne_nil hlen,
    inits_dropLast]

theorem mem_above (hp : p ≠ TaskPath.root) : q ∈ above p ↔ q <+: p ∧ q ≠ p := by
  induction p using List.reverseRecOn with
  | nil => exact absurd rfl hp
  | append_singleton p x ih =>
    rw [List.prefix_concat_iff]
    by_cases hroot : p = TaskPath.root
    · subst hroot
      rw [show TaskPath.root ++ [x] = [x] from rfl, above_singleton, List.mem_singleton]
      constructor
      · rintro rfl
        exact ⟨.inr List.nil_prefix, (List.cons_ne_nil _ _).symm⟩
      · rintro ⟨hq | hq, hne⟩
        · exact absurd hq hne
        · exact List.prefix_nil.mp hq
    · rw [above_append_singleton hroot, List.mem_append, List.mem_singleton, ih hroot]
      constructor
      · rintro (⟨hq, -⟩ | rfl)
        · refine ⟨.inr hq, fun he => ?_⟩
          subst he
          have hlen := hq.length_le
          simp at hlen
        · exact ⟨.inr List.prefix_rfl, by simp⟩
      · rintro ⟨hq | hq, hne⟩
        · exact absurd hq hne
        · by_cases he : q = p
          · exact .inr he
          · exact .inl ⟨hq, he⟩

theorem above_nodup (hp : p ≠ TaskPath.root) : (above p).Nodup := by
  induction p using List.reverseRecOn with
  | nil => exact absurd rfl hp
  | append_singleton p x ih =>
    by_cases hroot : p = TaskPath.root
    · subst hroot
      exact List.nodup_singleton _
    · rw [above_append_singleton hroot]
      refine List.nodup_append.mpr ⟨ih hroot, List.nodup_singleton p, fun a ha b hb he => ?_⟩
      rw [List.mem_singleton] at hb
      rw [mem_above hroot] at ha
      exact ha.2 (he.trans hb)

theorem notMem_above_self (hp : p ≠ TaskPath.root) : p ∉ above p := fun h => ((mem_above hp).mp h).2 rfl

theorem under_above (hp : p ≠ TaskPath.root) (hq : q ∈ above p) : under q p = some (p.take (q.length + 1)) := by
  obtain ⟨hpre, hne⟩ := (mem_above hp).mp hq
  have hlt : q.length < p.length := hpre.length_le.lt_of_ne fun he => hne (hpre.eq_of_length he)
  unfold under
  split
  · rename_i hroot
    subst hroot
    rfl
  · rw [if_pos ⟨List.isPrefixOf_iff_prefix.mpr hpre, hlt⟩]

theorem child_iff (hp : p ≠ TaskPath.root) (hq : q ∈ above p) :
    c = p.take (q.length + 1) ↔ (c = p ∨ c ∈ above p) ∧ c ≠ TaskPath.root ∧ c.dropLast = q := by
  obtain ⟨hpre, hne⟩ := (mem_above hp).mp hq
  have hlt : q.length < p.length := hpre.length_le.lt_of_ne fun he => hne (hpre.eq_of_length he)
  have htake : q = p.take q.length := List.prefix_iff_eq_take.mp hpre
  constructor
  · rintro rfl
    refine ⟨?_, ?_, ?_⟩
    · rw [mem_above hp]
      by_cases he : p.take (q.length + 1) = p
      · exact .inl he
      · exact .inr ⟨List.take_prefix _ _, he⟩
    · intro he
      have hlen := congrArg List.length he
      rw [List.length_take] at hlen
      change _ = 0 at hlen
      omega
    · rw [List.dropLast_eq_take, List.length_take, List.take_take]
      rw [show min (min (q.length + 1) p.length - 1) (q.length + 1) = q.length by omega]
      exact htake.symm
  · rintro ⟨hc, hroot, rfl⟩
    have hpre' : c <+: p := by
      rcases hc with rfl | hc
      · exact List.prefix_rfl
      · exact ((mem_above hp).mp hc).1
    have hlen : c.dropLast.length + 1 = c.length := by
      rw [List.length_dropLast]
      have := List.length_pos_iff.mpr hroot
      omega
    rw [hlen]
    exact List.prefix_iff_eq_take.mp hpre'

theorem dropLast_above (hc : c ≠ TaskPath.root) : c.dropLast ∈ above c := by
  rw [mem_above hc]
  refine ⟨List.dropLast_prefix c, fun he => ?_⟩
  have hlen := congrArg List.length he
  rw [List.length_dropLast] at hlen
  have := List.length_pos_iff.mpr hc
  omega

theorem above_trans (hp : p ≠ TaskPath.root) (hq : q ∈ above p) (hne : q ≠ TaskPath.root) (hc : c ∈ above q) :
    c ∈ above p := by
  rw [mem_above hp] at hq ⊢
  rw [mem_above hne] at hc
  refine ⟨hc.1.trans hq.1, ?_⟩
  rintro rfl
  exact hc.2 (hc.1.eq_of_length (le_antisymm hc.1.length_le hq.1.length_le))

end Dekit.Console
