import Mathlib.Data.List.Basic

namespace Slice

variable {α : Type}

def sub (a b : ℕ) : Option ℕ := if b ≤ a then some (a - b) else none

def add (limit a b : ℕ) : Option ℕ := if a + b < limit then some (a + b) else none

theorem sub_eq {a b : ℕ} (h : b ≤ a) : sub a b = some (a - b) := if_pos h

theorem add_eq {limit a b : ℕ} (h : a + b < limit) : add limit a b = some (a + b) := if_pos h

def setAt (l : List α) (i : ℕ) (x : α) : Option (List α) := if i < l.length then some (l.set i x) else none

theorem setAt_eq {l : List α} {i : ℕ} (h : i < l.length) (x : α) : setAt l i x = some (l.set i x) := if_pos h

def onRange (l : List α) (a b : ℕ) (f : List α → List α) : Option (List α) :=
  if a ≤ b ∧ b ≤ l.length then some (l.take a ++ f ((l.drop a).take (b - a)) ++ l.drop b) else none

theorem onRange_eq {l : List α} {a b : ℕ} (hab : a ≤ b) (hb : b ≤ l.length) (f : List α → List α) :
    onRange l a b f = some (l.take a ++ f ((l.drop a).take (b - a)) ++ l.drop b) := if_pos ⟨hab, hb⟩

theorem onRange_append {i j : ℕ} {before part after : List α} (hi : before.length = i) (hj : i + part.length = j)
    (f : List α → List α) : onRange (before ++ (part ++ after)) i j f = some (before ++ (f part ++ after)) := by
  subst hi hj
  rw [onRange_eq (by omega) (by simp), List.take_left, List.drop_left, Nat.add_sub_cancel_left, List.take_left,
    ← List.append_assoc before part, ← List.length_append, List.drop_left, List.append_assoc]

def range (l : List α) (a b : ℕ) : Option (List α) :=
  if a ≤ b ∧ b ≤ l.length then some ((l.drop a).take (b - a)) else none

theorem range_eq {l : List α} {a b : ℕ} (hab : a ≤ b) (hb : b ≤ l.length) :
    range l a b = some ((l.drop a).take (b - a)) := if_pos ⟨hab, hb⟩

def times (f : α → Option α) : ℕ → α → Option α
  | 0, x => some x
  | n + 1, x => (f x).bind (times f n)

/-- A step that keeps an invariant and does not fail while it holds does so however many times. -/
theorem times_keeps {f : α → Option α} {P : α → Prop} (h : ∀ x, P x → ∃ y, f x = some y ∧ P y) {x : α} (hx : P x)
    (n : ℕ) : ∃ y, times f n x = some y ∧ P y := by
  induction n generalizing x with
  | zero => exact ⟨x, rfl, hx⟩
  | succ n ih =>
    obtain ⟨y, hy, hP⟩ := h x hx
    obtain ⟨z, hz, hP'⟩ := ih hP
    exact ⟨z, by rw [times, hy, Option.bind_some, hz], hP'⟩

theorem foldlM_keeps {β : Type} {f : α → β → Option α} {P : α → Prop} {l : List β}
    (h : ∀ x, P x → ∀ b ∈ l, ∃ y, f x b = some y ∧ P y) {x : α} (hx : P x) : ∃ y, l.foldlM f x = some y ∧ P y := by
  induction l generalizing x with
  | nil => exact ⟨x, rfl, hx⟩
  | cons b l ih =>
    obtain ⟨y, hy, hP⟩ := h x hx b List.mem_cons_self
    obtain ⟨z, hz, hP'⟩ := ih (fun x hx b hb => h x hx b (List.mem_cons_of_mem _ hb)) hP
    exact ⟨z, by rw [List.foldlM_cons, hy]; exact hz, hP'⟩

theorem mapM_keeps {β : Type} {f : α → Option β} {P : β → Prop} {l : List α} (h : ∀ a ∈ l, ∃ b, f a = some b ∧ P b) :
    ∃ bs, l.mapM f = some bs ∧ bs.length = l.length ∧ ∀ b ∈ bs, P b := by
  induction l with
  | nil => exact ⟨[], rfl, rfl, nofun⟩
  | cons a l ih =>
    obtain ⟨b, hb, hP⟩ := h a List.mem_cons_self
    obtain ⟨bs, hbs, hlen, hall⟩ := ih fun a ha => h a (List.mem_cons_of_mem _ ha)
    refine ⟨b :: bs, ?_, congrArg (· + 1) hlen, fun c hc => ?_⟩
    · rw [List.mapM_cons, hb, hbs]
      rfl
    · rcases List.mem_cons.mp hc with rfl | hc
      · exact hP
      · exact hall c hc

theorem length_flatten {l : List (List α)} {k : ℕ} (h : ∀ x ∈ l, x.length = k) : l.flatten.length = l.length * k := by
  induction l with
  | nil => rw [List.flatten_nil, List.length_nil, List.length_nil, Nat.zero_mul]
  | cons x l ih =>
    rw [List.flatten_cons, List.length_append, h x List.mem_cons_self,
      ih fun x hx => h x (List.mem_cons_of_mem _ hx), List.length_cons, Nat.succ_mul, Nat.add_comm]

def rotateLeft (k : ℕ) (l : List α) : List α := l.drop k ++ l.take k

def rotateRight (k : ℕ) (l : List α) : List α := l.drop (l.length - k) ++ l.take (l.length - k)

@[simp] theorem length_rotateLeft (k : ℕ) (l : List α) : (rotateLeft k l).length = l.length := by
  unfold rotateLeft
  rw [List.length_append, List.length_drop, List.length_take]
  omega

@[simp] theorem length_rotateRight (k : ℕ) (l : List α) : (rotateRight k l).length = l.length := by
  unfold rotateRight
  rw [List.length_append, List.length_drop, List.length_take]
  omega

theorem rotateLeft_append (l l' : List α) : rotateLeft l.length (l ++ l') = l' ++ l := by
  unfold rotateLeft
  rw [List.drop_left, List.take_left]

theorem rotateRight_append (l l' : List α) : rotateRight l'.length (l ++ l') = l' ++ l := by
  unfold rotateRight
  rw [List.length_append, Nat.add_sub_cancel, List.drop_left, List.take_left]

theorem mem_rotateLeft {k : ℕ} {l : List α} {x : α} : x ∈ rotateLeft k l ↔ x ∈ l := by
  unfold rotateLeft
  rw [List.mem_append, or_comm, ← List.mem_append, List.take_append_drop]

theorem mem_rotateRight {k : ℕ} {l : List α} {x : α} : x ∈ rotateRight k l ↔ x ∈ l := by
  unfold rotateRight
  rw [List.mem_append, or_comm, ← List.mem_append, List.take_append_drop]

end Slice
