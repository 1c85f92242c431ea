import Mathlib.Algebra.Order.BigOperators.Group.List
import Dekit.Term.Layout

/-! The rows of a history: how they are counted, and how they are found. -/

namespace Dekit

namespace Term

variable {charWidth : Char → Option ℕ} {w : ℕ} {t : Tables}

/-- The rows of lines, one line after the other. -/
def laidRows (charWidth : Char → Option ℕ) (w : ℕ) : List Line → Tables → List Row × Tables
  | [], t => ([], t)
  | line :: lines, t =>
    let (rows, t) := line.rows charWidth w t
    let more := laidRows charWidth w lines t
    (rows ++ more.1, more.2)

def countOf (charWidth : Char → Option ℕ) (w : ℕ) (lines : List Line) : ℕ :=
  (lines.map fun line => line.rowsAt charWidth w).sum

@[simp] theorem countOf_nil : countOf charWidth w [] = 0 := rfl

@[simp] theorem countOf_cons (line : Line) (lines : List Line) :
    countOf charWidth w (line :: lines) = line.rowsAt charWidth w + countOf charWidth w lines := List.sum_cons

@[simp] theorem countOf_append (lines lines' : List Line) :
    countOf charWidth w (lines ++ lines') = countOf charWidth w lines + countOf charWidth w lines' := by
  unfold countOf
  rw [List.map_append, List.sum_append]

@[simp] theorem countOf_reverse (lines : List Line) :
    countOf charWidth w lines.reverse = countOf charWidth w lines := by
  unfold countOf
  rw [List.map_reverse, List.sum_reverse]

variable (charWidth w) in
theorem rowsAt_pos (line : Line) : 0 < line.rowsAt charWidth w := by
  unfold Line.rowsAt
  split_ifs
  · exact Nat.one_pos
  · split
    · exact Nat.succ_pos _
    · exact Nat.one_pos

section laid

variable (hw : 2 ≤ w)
include hw

variable (charWidth) in
theorem countOf_le (lines : List Line) (t : Tables) :
    countOf charWidth w lines ≤ (laidRows charWidth w lines t).1.length := by
  induction lines generalizing t with
  | nil => exact Nat.le_refl _
  | cons line lines ih =>
    rw [countOf_cons, laidRows, List.length_append]
    exact Nat.add_le_add (line.rowsAt_le charWidth hw t) (ih _)

theorem laidRows_length {lines : List Line} (hfits : ∀ line ∈ lines, line.Fits charWidth w) (t : Tables) :
    (laidRows charWidth w lines t).1.length = countOf charWidth w lines := by
  induction lines generalizing t with
  | nil => rfl
  | cons line lines ih =>
    rw [countOf_cons, laidRows, List.length_append, (line.rowsAt_iff hw t).mpr (hfits line List.mem_cons_self)]
    exact congrArg _ (ih (fun line h => hfits line (List.mem_cons_of_mem _ h)) _)

end laid

namespace History

variable {h : History}

/-- A history that rows were committed to and lines were taken out of, at any widths. -/
inductive Reached (charWidth : Char → Option ℕ) : History → Prop
  | new (capacity : ℕ) : Reached charWidth (.new capacity)
  | commit {h : History} (row : Row) (tables : Tables) (hr : Reached charWidth h) :
    Reached charWidth (h.commit charWidth row tables)
  | popOpen {h : History} (hr : Reached charWidth h) : Reached charWidth (h.popOpen charWidth).2
  | popLast {h : History} (hr : Reached charWidth h) : Reached charWidth (h.popLast charWidth).2
  | clear {h : History} (hr : Reached charWidth h) : Reached charWidth h.clear
  | setWidth {h : History} (w : ℕ) (hr : Reached charWidth h) : Reached charWidth (h.setWidth charWidth w)

def Counted (charWidth : Char → Option ℕ) (h : History) : Prop :=
  ∀ w n, h.rows = some (w, n) → n = countOf charWidth w h.lines

theorem rowsAt_counted (hc : h.Counted charWidth) : h.rowsAt charWidth w = countOf charWidth w h.lines := by
  unfold rowsAt
  split
  · rename_i w' n hrows
    split_ifs with hw
    · subst hw
      exact hc _ _ hrows
    · rfl
  · rfl

theorem Counted.added {lines : List Line} (hc : h.Counted charWidth) (line : Line)
    (hlines : h.lines ++ [line] = lines) :
    ({ rowsAdded charWidth h line with lines := lines } : History).Counted charWidth := by
  intro w n hrows
  obtain ⟨p, hp, heq⟩ := Option.map_eq_some_iff.mp hrows
  obtain ⟨rfl, rfl⟩ := Prod.mk.inj heq
  rw [hc p.1 p.2 hp, ← hlines]
  simp

theorem Counted.removed {lines : List Line} {line : Line} (hc : h.Counted charWidth)
    (hcount : ∀ w, countOf charWidth w lines + line.rowsAt charWidth w = countOf charWidth w h.lines) :
    ({ rowsRemoved charWidth h line with lines := lines } : History).Counted charWidth := by
  intro w n hrows
  obtain ⟨p, hp, heq⟩ := Option.map_eq_some_iff.mp hrows
  obtain ⟨rfl, rfl⟩ := Prod.mk.inj heq
  have hkept := hc p.1 p.2 hp
  have := hcount p.1
  simp only
  omega

theorem countOf_dropLast {lines : List Line} {line : Line} (hlast : lines.getLast? = some line) (w : ℕ) :
    countOf charWidth w lines.dropLast + line.rowsAt charWidth w = countOf charWidth w lines := by
  obtain ⟨init, rfl⟩ := List.getLast?_eq_some_iff.mp hlast
  rw [List.dropLast_concat, countOf_append, countOf_cons, countOf_nil, Nat.add_zero]

theorem Counted.popLast (hc : h.Counted charWidth) : (h.popLast charWidth).2.Counted charWidth := by
  unfold History.popLast
  split
  · rename_i line hlast
    exact hc.removed (countOf_dropLast hlast)
  · exact hc

/-- The line that a row goes on, taken out of the history if it is the last one. -/
def openLine (charWidth : Char → Option ℕ) (h : History) : Line × History :=
  match h.isOpen, h.lines.getLast? with
  | true, some last => (last, rowsRemoved charWidth { h with lines := h.lines.dropLast } last)
  | _, _ => (.new, h)

/-- A line is put at the end, and counted; one may be dropped at the front. -/
def append (charWidth : Char → Option ℕ) (h : History) (line : Line) : History :=
  let pushed := (rowsAdded charWidth h line).push line
  match pushed.1 with
  | some dropped => rowsRemoved charWidth pushed.2 dropped
  | none => pushed.2

def usedCells (row : Row) (tables : Tables) : ℕ :=
  if row.wrapped then row.cells.length else row.usedLen fun id => (tables.styles.get id).isVisibleBlank

def committed (charWidth : Char → Option ℕ) (h : History) (row : Row) (tables : Tables) : Line :=
  (openLine charWidth h).1.pushCells (row.cells.take (usedCells row tables)) tables.styles tables.graphemes

theorem commit_eq (hcap : h.capacity ≠ 0) (row : Row) (tables : Tables) : h.commit charWidth row tables =
    { append charWidth (openLine charWidth h).2 (committed charWidth h row tables) with
      isOpen := row.wrapped && (committed charWidth h row tables).cellCount < maxLineCells } := by
  unfold commit
  rw [if_neg hcap]
  unfold committed append usedCells openLine
  cases h.isOpen <;> cases h.lines.getLast? <;> rfl

theorem Counted.openLine (hc : h.Counted charWidth) : (openLine charWidth h).2.Counted charWidth := by
  unfold History.openLine
  split
  · rename_i last _ hlast
    exact hc.removed (countOf_dropLast hlast)
  · exact hc

theorem Counted.append (hc : h.Counted charWidth) (hcap : h.capacity ≠ 0) (line : Line) :
    (append charWidth h line).Counted charWidth := by
  have hadded := hc.added line rfl
  have hpush : (rowsAdded charWidth h line).push line =
      if h.capacity < (h.lines ++ [line]).length then
        ((h.lines ++ [line]).head?, { rowsAdded charWidth h line with lines := (h.lines ++ [line]).tail })
      else (none, { rowsAdded charWidth h line with lines := h.lines ++ [line] }) := if_neg hcap
  unfold History.append
  rw [hpush]
  split_ifs
  · obtain ⟨first, rest, hlines⟩ := List.exists_cons_of_ne_nil (l := h.lines ++ [line]) (by simp)
    rw [hlines] at hadded ⊢
    refine hadded.removed (fun w => (?_ : countOf charWidth w rest + _ = _))
    rw [countOf_cons]
    exact Nat.add_comm _ _
  · exact hadded

theorem openLine_capacity : (openLine charWidth h).2.capacity = h.capacity := by
  unfold openLine
  split <;> rfl

theorem Counted.commit (hc : h.Counted charWidth) (row : Row) (tables : Tables) :
    (h.commit charWidth row tables).Counted charWidth := by
  by_cases hcap : h.capacity = 0
  · have hsame : h.commit charWidth row tables = h := if_pos hcap
    rwa [hsame]
  · rw [commit_eq hcap]
    exact hc.openLine.append (openLine_capacity.trans_ne hcap) _

theorem Counted.popOpen (hc : h.Counted charWidth) : (h.popOpen charWidth).2.Counted charWidth := by
  unfold History.popOpen
  split_ifs
  · exact hc.popLast
  · exact hc

theorem counted_clear : h.clear.Counted charWidth := by
  intro w n hrows
  obtain ⟨p, -, heq⟩ := Option.map_eq_some_iff.mp hrows
  exact (Prod.mk.inj heq).2.symm

theorem Counted.setWidth (hc : h.Counted charWidth) (w : ℕ) : (h.setWidth charWidth w).Counted charWidth := by
  unfold History.setWidth
  split_ifs
  · exact hc
  · intro w' n hrows
    obtain ⟨rfl, rfl⟩ := Prod.mk.inj (Option.some.inj hrows)
    rfl

theorem Reached.counted (hr : Reached charWidth h) : h.Counted charWidth := by
  induction hr with
  | new capacity => exact nofun
  | commit row tables _ ih => exact ih.commit row tables
  | popOpen _ ih => exact ih.popOpen
  | popLast _ ih => exact ih.popLast
  | clear _ _ => exact counted_clear
  | setWidth w _ ih => exact ih.setWidth w

section finding

theorem rowsBelow_eq {i r : ℕ} {line : Line} (hi : h.lines[i]? = some line) : h.rowsBelow charWidth i r w =
    countOf charWidth w (h.lines.drop (i + 1)) + (line.rowsAt charWidth w - (r + 1)) := by
  unfold rowsBelow
  rw [hi]
  rfl

variable (charWidth w) in
theorem countOf_drop {lines : List Line} {i : ℕ} {line : Line} (hi : lines[i]? = some line) :
    countOf charWidth w (lines.drop i) = line.rowsAt charWidth w + countOf charWidth w (lines.drop (i + 1)) := by
  obtain ⟨hlt, rfl⟩ := List.getElem?_eq_some_iff.mp hi
  rw [List.drop_eq_getElem_cons hlt, countOf_cons]

theorem take_reverse_succ {lines : List Line} {m : ℕ} {line : Line} (hm : lines[m]? = some line) :
    (lines.take (m + 1)).reverse = line :: (lines.take m).reverse := by
  rw [List.take_add_one, hm, Option.toList_some, List.reverse_append]
  rfl

variable (charWidth w) in
theorem go_spec {lines : List Line} {m k : ℕ} (hm : m ≤ lines.length) (hlow : countOf charWidth w (lines.drop m) < k)
    (hk : k ≤ countOf charWidth w lines) : ∃ i line r, i < m ∧ lines[i]? = some line ∧ r < line.rowsAt charWidth w ∧
      locate.go charWidth w k (countOf charWidth w (lines.drop m)) (lines.take m).reverse = some (i, r) ∧
      countOf charWidth w (lines.drop (i + 1)) + (line.rowsAt charWidth w - (r + 1)) + 1 = k := by
  induction m with
  | zero =>
    rw [List.drop_zero] at hlow
    exact absurd hk (Nat.not_le.mpr hlow)
  | succ m ih =>
    have hget : lines[m]? = some lines[m] := List.getElem?_eq_getElem hm
    generalize lines[m] = line at hget
    have hcount := countOf_drop charWidth w hget
    rw [take_reverse_succ hget, locate.go, Nat.add_comm (countOf charWidth w (lines.drop (m + 1))), ← hcount]
    split_ifs with hfound
    · refine ⟨m, line, countOf charWidth w (lines.drop m) - k, Nat.lt_succ_self m, hget, by omega, ?_, by omega⟩
      rw [List.length_reverse, List.length_take, Nat.min_eq_left (Nat.le_of_succ_le hm)]
    · obtain ⟨i, line', r, hi, hrest⟩ := ih (Nat.le_of_succ_le hm) (Nat.not_le.mp hfound)
      exact ⟨i, line', r, Nat.lt_succ_of_lt hi, hrest⟩

theorem locate_spec {k : ℕ} (hk : 0 < k) (hle : k ≤ countOf charWidth w h.lines) : ∃ i line r,
    h.lines[i]? = some line ∧ r < line.rowsAt charWidth w ∧ h.locate charWidth k w = some (i, r) ∧
      h.rowsBelow charWidth i r w + 1 = k := by
  have hstart : countOf charWidth w (h.lines.drop h.lines.length) = 0 := by rw [List.drop_length, countOf_nil]
  obtain ⟨i, line, r, -, hi, hr, hgo, hbelow⟩ := go_spec charWidth w
    (m := h.lines.length) (Nat.le_refl _) (by rw [hstart]; exact hk) hle
  refine ⟨i, line, r, hi, hr, ?_, by rw [rowsBelow_eq hi]; exact hbelow⟩
  unfold locate
  rw [if_neg (Nat.ne_of_gt hk)]
  rwa [hstart, List.take_length] at hgo

variable (charWidth w) in
theorem countOf_drop_le {i j : ℕ} (hij : i ≤ j) (lines : List Line) :
    countOf charWidth w (lines.drop j) ≤ countOf charWidth w (lines.drop i) := by
  obtain ⟨n, rfl⟩ := Nat.exists_eq_add_of_le hij
  rw [← List.drop_drop]
  conv_rhs => rw [← List.take_append_drop n (lines.drop i), countOf_append]
  exact Nat.le_add_left _ _

theorem below_lt {i i' r r' : ℕ} {line line' : Line} (hi : h.lines[i]? = some line) (hi' : h.lines[i']? = some line')
    (hr' : r' < line'.rowsAt charWidth w) (hlt : i < i') :
    h.rowsBelow charWidth i' r' w < h.rowsBelow charWidth i r w := by
  have hdrop := countOf_drop charWidth w hi'
  have hle := countOf_drop_le charWidth w (show i + 1 ≤ i' from hlt) h.lines
  rw [rowsBelow_eq hi, rowsBelow_eq hi']
  rw [hdrop] at hle
  omega

theorem locate_below {i r : ℕ} {line : Line} (hi : h.lines[i]? = some line) (hr : r < line.rowsAt charWidth w) :
    h.locate charWidth (h.rowsBelow charWidth i r w + 1) w = some (i, r) := by
  have hle : h.rowsBelow charWidth i r w + 1 ≤ countOf charWidth w h.lines := by
    have hdrop := countOf_drop charWidth w hi
    have hall := countOf_drop_le charWidth w (Nat.zero_le i) h.lines
    rw [hdrop, List.drop_zero] at hall
    rw [rowsBelow_eq hi]
    omega
  obtain ⟨i', line', r', hi', hr', hlocate, hbelow⟩ := locate_spec (Nat.succ_pos _) hle
  rcases Nat.lt_trichotomy i i' with hlt | rfl | hlt
  · have := below_lt (r := r) hi hi' hr' hlt
    omega
  · obtain rfl := Option.some.inj (hi.symm.trans hi')
    rw [rowsBelow_eq hi, rowsBelow_eq hi] at hbelow
    have hsame : r' = r := by omega
    rw [hlocate, hsame]
  · have := below_lt (r := r') hi' hi hr hlt
    omega

end finding

section above

variable (charWidth w) in
theorem covering_spec (offset covered : ℕ) (lines : List Line) : ∃ taken rest, lines = taken ++ rest ∧
    covering charWidth offset w covered lines = (taken.reverse, covered + countOf charWidth w taken) ∧
      (rest = [] ∨ offset ≤ covered + countOf charWidth w taken) ∧ (taken = [] ↔ offset ≤ covered ∨ lines = []) := by
  induction lines generalizing covered with
  | nil => exact ⟨[], [], rfl, rfl, .inl rfl, by simp⟩
  | cons line lines ih =>
    rw [covering]
    split_ifs with henough
    · exact ⟨[], line :: lines, rfl, rfl, .inr henough, by simp [henough]⟩
    · obtain ⟨taken, rest, rfl, hcover, hrest, -⟩ := ih (covered + line.rowsAt charWidth w)
      refine ⟨line :: taken, rest, rfl, ?_, ?_, by simp [henough]⟩
      · rw [hcover, List.reverse_cons, countOf_cons, Nat.add_assoc]
      · rw [countOf_cons, ← Nat.add_assoc]
        exact hrest

theorem rowsOf_eq {count : ℕ} (hcount : 0 < count) (lines : List Line) (skip : ℕ) (rows : List Row) (t : Tables)
    (hrows : rows.length < count) : (rowsOf charWidth w count skip rows t lines).1 =
      (rows ++ (laidRows charWidth w lines t).1.drop skip).take count := by
  induction lines generalizing skip rows t with
  | nil =>
    rw [rowsOf, laidRows, List.drop_nil, List.append_nil, List.take_of_length_le (Nat.le_of_lt hrows)]
  | cons line lines ih =>
    rw [rowsOf, laidRows, List.drop_append]
    simp only
    rw [← List.append_assoc]
    split_ifs with henough
    · rw [List.take_append_of_le_length henough.2]
    · have hfew : (rows ++ (line.rows charWidth w t).1.drop skip).length < count := by
        by_contra h
        exact henough ⟨hcount, Nat.not_lt.mp h⟩
      exact ih _ _ _ hfew

theorem rowsOf_all (lines : List Line) (skip : ℕ) (rows : List Row) (t : Tables) :
    (rowsOf charWidth w 0 skip rows t lines).1 = rows ++ (laidRows charWidth w lines t).1.drop skip := by
  induction lines generalizing skip rows t with
  | nil => rw [rowsOf, laidRows, List.drop_nil, List.append_nil]
  | cons line lines ih =>
    rw [rowsOf, laidRows, List.drop_append]
    simp only [Nat.lt_irrefl, false_and, if_false]
    rw [ih, List.append_assoc]

end above

/-- What is counted and found of a history's rows at a width is as they are laid out, and no column of the layout exceeds
16 bits. The lines above the rows asked for are not laid out for them. -/
structure Agrees (charWidth : Char → Option ℕ) (h : History) (w offset count : ℕ) (t : Tables) : Prop where
  narrow : ∀ line ∈ h.lines, line.Narrow charWidth w
  counted : ∀ line ∈ h.lines, line.rowsAt charWidth w = (line.rows charWidth w t).1.length
  summed : h.rowsAt charWidth w = (laidRows charWidth w h.lines t).1.length
  above : ∃ before after skip, h.lines = before ++ after ∧
    (laidRows charWidth w before t).1.length + skip = (laidRows charWidth w h.lines t).1.length - offset ∧
    (h.rowsAbove charWidth offset count w t).1 = ((laidRows charWidth w after t).1.drop skip).take count
  located : ∀ (i : ℕ) line r, h.lines[i]? = some line → r < (line.rows charWidth w t).1.length →
    h.locate charWidth (h.rowsBelow charWidth i r w + 1) w = some (i, r)
  below : ∀ k, 0 < k → k ≤ (laidRows charWidth w h.lines t).1.length → ∃ i line r, h.lines[i]? = some line ∧
    r < (line.rows charWidth w t).1.length ∧ h.locate charWidth k w = some (i, r) ∧ h.rowsBelow charWidth i r w + 1 = k
  placed : ∀ line ∈ h.lines, ∀ n < line.cellCount, line.Shows charWidth w t n (line.rowColOf charWidth w n)
  first : ∀ line ∈ h.lines, ∀ r < (line.rows charWidth w t).1.length,
    line.rowColOf charWidth w (line.offsetOfRow charWidth w r) = (r, 0) ∧
      ∀ m < line.offsetOfRow charWidth w r, (line.rowColOf charWidth w m).1 < r

/-- No line has as few cells as columns but is wider, every right half follows a wide cell, and rows are asked for. -/
structure Straight (charWidth : Char → Option ℕ) (h : History) (w offset count : ℕ) : Prop where
  narrow : ∀ line ∈ h.lines, line.Narrow charWidth w
  fits : ∀ line ∈ h.lines, line.Fits charWidth w
  paired : ∀ line ∈ h.lines, line.Paired charWidth
  some : 0 < count ∨ offset = 0 ∨ h.lines = []

variable {offset count : ℕ}

theorem rowsAbove_eq (hw : 2 ≤ w) (hfits : ∀ line ∈ h.lines, line.Fits charWidth w)
    (hsome : 0 < count ∨ offset = 0 ∨ h.lines = []) : ∃ before after skip, h.lines = before ++ after ∧
      (laidRows charWidth w before t).1.length + skip = (laidRows charWidth w h.lines t).1.length - offset ∧
      (h.rowsAbove charWidth offset count w t).1 = ((laidRows charWidth w after t).1.drop skip).take count := by
  obtain ⟨taken, rest, hlines, hcover, hrest, hnone⟩ := covering_spec charWidth w offset 0 h.lines.reverse
  have hsplit : h.lines = rest.reverse ++ taken.reverse := by
    rw [← List.reverse_append, ← hlines, List.reverse_reverse]
  rw [Nat.zero_add] at hcover hrest
  have hbefore : ∀ line ∈ rest.reverse, line.Fits charWidth w := fun line hmem =>
    hfits line (hsplit ▸ List.mem_append_left _ hmem)
  have htotal : countOf charWidth w h.lines = countOf charWidth w rest + countOf charWidth w taken := by
    rw [hsplit, countOf_append, countOf_reverse, countOf_reverse]
  refine ⟨rest.reverse, taken.reverse, countOf charWidth w taken - offset, hsplit, ?_, ?_⟩
  · rw [laidRows_length hw hbefore, laidRows_length hw hfits, htotal, countOf_reverse]
    rcases hrest with rfl | henough
    · rw [countOf_nil]
      omega
    · omega
  · unfold rowsAbove
    rw [hcover]
    simp only
    rcases Nat.eq_zero_or_pos count with rfl | hpos
    · rw [rowsOf_all, List.take_zero, List.nil_append]
      have hempty : taken = [] := hnone.mpr (by simpa using hsome)
      rw [hempty, List.reverse_nil, laidRows, List.drop_nil]
    · rw [rowsOf_eq hpos _ _ _ _ (by simpa using hpos), List.nil_append]

theorem some_of_above (hw : 2 ≤ w) (habove : ∃ before after skip, h.lines = before ++ after ∧
    (laidRows charWidth w before t).1.length + skip = (laidRows charWidth w h.lines t).1.length - offset ∧
    (h.rowsAbove charWidth offset count w t).1 = ((laidRows charWidth w after t).1.drop skip).take count) :
    0 < count ∨ offset = 0 ∨ h.lines = [] := by
  obtain ⟨before, after, skip, -, -, hrows⟩ := habove
  rcases Nat.eq_zero_or_pos count with rfl | hpos
  · right
    obtain ⟨taken, rest, -, hcover, -, hnone⟩ := covering_spec charWidth w offset 0 h.lines.reverse
    unfold rowsAbove at hrows
    rw [hcover] at hrows
    simp only at hrows
    rw [rowsOf_all, List.take_zero, List.nil_append, List.drop_eq_nil_iff] at hrows
    have hle := countOf_le charWidth hw taken.reverse t
    rw [countOf_reverse] at hle
    by_contra hsome
    have hempty : taken ≠ [] := fun h => hsome (by simpa using hnone.mp h)
    obtain ⟨line, lines, rfl⟩ := List.exists_cons_of_ne_nil hempty
    have hline := rowsAt_pos charWidth w line
    rw [countOf_cons] at hrows hle
    have hoffset : offset ≠ 0 := fun h => hsome (.inl h)
    omega
  · exact .inl hpos

/-- Exactly the straight histories agree with their rows. -/
theorem agrees_iff (hr : Reached charWidth h) (hw : 2 ≤ w) (offset count : ℕ) (t : Tables) :
    h.Agrees charWidth w offset count t ↔ h.Straight charWidth w offset count := by
  constructor
  · intro ha
    have hfits (line : Line) (hl : line ∈ h.lines) := (line.rowsAt_iff hw t).mp (ha.counted line hl)
    refine ⟨ha.narrow, hfits, fun line hl => (line.shows_iff hw t).mp (ha.placed line hl), ?_⟩
    exact some_of_above hw ha.above
  · intro hs
    have hrows (line : Line) (hl : line ∈ h.lines) := (line.rowsAt_iff hw t).mpr (hs.fits line hl)
    have htotal := laidRows_length hw hs.fits t
    refine ⟨hs.narrow, hrows, ?_, rowsAbove_eq hw hs.fits hs.some, fun i line r hi hlt => ?_, fun k hk hle => ?_,
      fun line hl => (line.shows_iff hw t).mpr (hs.paired line hl), fun line _ r hlt => line.offsetOfRow_first hw t hlt⟩
    · rw [rowsAt_counted hr.counted, htotal]
    · rw [← hrows line (List.mem_of_getElem? hi)] at hlt
      exact locate_below hi hlt
    · rw [htotal] at hle
      obtain ⟨i, line, r, hi, hlt, hlocate, hbelow⟩ := locate_spec hk hle
      rw [hrows line (List.mem_of_getElem? hi)] at hlt
      exact ⟨i, line, r, hi, hlt, hlocate, hbelow⟩

def someWidth (c : Char) : Option ℕ := if c = '測' then some 2 else some 1

/-- What `a測` leaves in a row of four columns. -/
def wideRow : Row := ⟨[⟨.ofScalar 'a' 1, 0⟩, ⟨.ofScalar '測' 2, 0⟩, ⟨.continuation, 0⟩, .empty], false⟩

theorem agrees_iff_wide : ((History.new 10).commit someWidth wideRow .new).Agrees someWidth 4 1 1 .new ↔
    ((History.new 10).commit someWidth wideRow .new).Straight someWidth 4 1 1 :=
  agrees_iff (.commit wideRow .new (.new 10)) (by decide) 1 1 .new

/-- A line that ends with a wide character has lost its right half: it takes two rows where one is counted. -/
theorem wide_end_lost : Reached someWidth ((History.new 10).commit someWidth wideRow .new) ∧
    ¬ ((History.new 10).commit someWidth wideRow .new).Agrees someWidth 2 1 1 .new := by
  refine ⟨.commit wideRow .new (.new 10), fun ha => ?_⟩
  have hlines : ((History.new 10).commit someWidth wideRow .new).lines =
    [⟨['a', '測'], [(1, 1), (3, 1)], [(.default, 2)]⟩] := by
    decide +kernel
  have hcount := ha.counted _ (by rw [hlines]; exact List.mem_singleton_self _)
  revert hcount
  decide +kernel

end History

end Term

end Dekit
