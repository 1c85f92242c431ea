import Mathlib.Data.List.Nodup
import Mathlib.Data.List.Perm.Basic
import Mathlib.Tactic.Common

/-- A set whose elements stand in an order. -/
structure IndexSet (α : Type) where
  items : List α
  nodup : items.Nodup

namespace IndexSet

variable {α : Type}

instance : Membership α (IndexSet α) := ⟨fun s a => a ∈ s.items⟩

theorem mem_items {s : IndexSet α} {a : α} : a ∈ s.items ↔ a ∈ s := Iff.rfl

def empty : IndexSet α := ⟨[], List.nodup_nil⟩

def isEmpty (s : IndexSet α) : Bool := s.items.isEmpty

theorem notMem_empty (a : α) : a ∉ (empty : IndexSet α) := List.not_mem_nil

theorem isEmpty_iff {s : IndexSet α} : s.isEmpty = true ↔ ∀ a, a ∉ s := by
  unfold isEmpty
  rw [List.isEmpty_iff]
  exact List.eq_nil_iff_forall_not_mem

theorem perm_moved {l : List α} {src dst : ℕ} (h : src < l.length) (hdst : dst < l.length) :
    ((l.eraseIdx src).insertIdx dst l[src]).Perm l := by
  have hlen : dst ≤ (l.eraseIdx src).length := by
    rw [List.length_eraseIdx_of_lt h]
    omega
  exact (List.perm_insertIdx _ _ hlen).trans (List.getElem_cons_eraseIdx_perm h)

variable [DecidableEq α]

def indexOf (s : IndexSet α) (a : α) : Option ℕ := s.items.idxOf? a

def insert (s : IndexSet α) (a : α) : IndexSet α :=
  if h : a ∈ s.items then s
  else ⟨s.items ++ [a], List.nodup_append.mpr ⟨s.nodup, List.nodup_singleton a,
    fun _ hx _ hy he => h (List.mem_singleton.mp hy ▸ he ▸ hx)⟩⟩

/-- The element at one index moved to another. -/
def moveIndex (s : IndexSet α) (src dst : ℕ) : IndexSet α :=
  if h : src < s.items.length ∧ dst < s.items.length then
    ⟨(s.items.eraseIdx src).insertIdx dst s.items[src], (perm_moved h.1 h.2).nodup_iff.mpr s.nodup⟩
  else s

def shiftRemove (s : IndexSet α) (a : α) : IndexSet α := ⟨s.items.erase a, s.nodup.erase a⟩

variable {s : IndexSet α} {a b : α}

@[simp]
theorem mem_insert : b ∈ s.insert a ↔ b ∈ s ∨ b = a := by
  unfold insert
  split
  · rename_i h
    constructor
    · exact .inl
    · rintro (hb | rfl)
      · exact hb
      · exact h
  · change b ∈ s.items ++ [a] ↔ _
    simp [mem_items]

omit [DecidableEq α] in
@[simp]
theorem mem_moveIndex {src dst : ℕ} : b ∈ s.moveIndex src dst ↔ b ∈ s := by
  unfold moveIndex
  split
  · rename_i h
    exact (perm_moved h.1 h.2).mem_iff
  · rfl

@[simp]
theorem mem_shiftRemove : b ∈ s.shiftRemove a ↔ b ≠ a ∧ b ∈ s := s.nodup.mem_erase_iff

theorem indexOf_isSome : (s.indexOf a).isSome = true ↔ a ∈ s := by
  unfold indexOf
  rw [List.isSome_idxOf?]
  exact Iff.rfl

end IndexSet
