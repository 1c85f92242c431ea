import Mathlib.Data.List.DropRight
import Mathlib.Data.List.ReduceOption
import Dekit.Term.Edit
import Dekit.Term.Shown

/-! `copy_mode.rs`: a selection over a frozen screen, and the text that is copied of it. -/

namespace Dekit

open Term

/-- A number in 32 bits with a sign. -/
def i32 (n : ℤ) : ℤ := (n + 2147483648) % 4294967296 - 2147483648

def u16 (n : ℤ) : ℕ := (n % 65536).toNat

namespace Term

namespace Grid

/-- The rows in view: history rows when scrolled back, then live rows. -/
def visibleRows (g : Grid) : List Row :=
  if g.viewOffset = 0 then g.rows else g.viewAbove ++ g.rows.take (g.size.height - g.viewAbove.length)

/-- Blanks wait until there is text after them. -/
def selectCell (graphemes : GraphemeTable) (p : List Char × ℕ) (cell : Cell) : List Char × ℕ :=
  if cell.isContinuation then p
  else
    let text := cell.text.asStr graphemes
    if text.isEmpty then (p.1, p.2 + 1) else (p.1 ++ List.replicate p.2 ' ' ++ text, 0)

/-- The text of a row of the selection, after that of the rows before. -/
def selectRow (g : Grid) (lowX lowY highX linesLen : ℤ) (contents : List Char) (i : ℕ) : List Char :=
  let y := lowY + i
  match if 0 ≤ y then g.visibleRows[y.toNat]? else none with
  | none => contents
  | some row =>
    let start := if i = 0 then u16 (max lowX 0) else 0
    let width : ℤ := (row.cells.length % 65536 : ℕ)
    let stop := if i = linesLen - 1 then min width (i32 (highX + 1)) else width
    let stop := u16 (max stop start)
    -- The columns from start to stop, as far as the row has them.
    let contents := (((row.cells.drop start).take (stop - start)).foldl (selectCell g.tables.graphemes) (contents, 0)).1
    if i ≠ linesLen - 1 ∧ row.wrapped = false then contents ++ ['\n'] else contents

/-- The text of the cells from one to another, both in it, in view coordinates. -/
def getSelectedText (g : Grid) (lowX lowY highX highY : ℤ) : List Char :=
  let linesLen := i32 (highY - lowY + 1)
  (List.range linesLen.toNat).foldl (selectRow g lowX lowY highX linesLen) []

end Grid

end Term

namespace CopyMode

structure Pos where
  y : ℤ
  x : ℤ
deriving DecidableEq

namespace Pos

def toLowHigh (a b : Pos) : Pos × Pos := if a.y < b.y ∨ a.y = b.y ∧ a.x < b.x then (a, b) else (b, a)

/-- Whether a position is in the selection between two, in reading order. -/
def within (start stop target : Pos) : Bool :=
  let (low, high) := toLowHigh start stop
  if target.y > low.y then target.y < high.y || target.y = high.y && target.x ≤ high.x
  else if target.y = low.y then
    if target.y < high.y then target.x ≥ low.x
    else if target.y = high.y then target.x ≥ low.x && target.x ≤ high.x
    else false
  else false

end Pos

inductive CopyMove
  | up
  | down
  | left
  | right

/-- A frozen screen with a selection over it. -/
structure CopyState where
  snapshot : Grid
  start : Pos
  stop : Option Pos

namespace CopyState

variable (charWidth : Char → Option ℕ) (s : CopyState)

def new (grid : Grid) : CopyState := ⟨grid, ⟨max (grid.size.height - 1) 0, 0⟩, none⟩

def cursor : Pos := s.stop.getD s.start

def setCursor (pos : Pos) : CopyState :=
  match s.stop with
  | some _ => { s with stop := some pos }
  | none => { s with start := pos }

def moveCursor (dir : CopyMove) : CopyState :=
  let width : ℤ := s.snapshot.size.width
  let height : ℤ := s.snapshot.size.height
  let historyRows := i32 (s.snapshot.maxScrollback charWidth)
  let pos := s.cursor
  match dir with
  | .up => if pos.y > -historyRows then s.setCursor { pos with y := pos.y - 1 } else s
  | .down => if pos.y + 1 < height then s.setCursor { pos with y := pos.y + 1 } else s
  | .left => if pos.x > 0 then s.setCursor { pos with x := pos.x - 1 } else s
  | .right => if pos.x + 1 < width then s.setCursor { pos with x := pos.x + 1 } else s

def beginSelection : CopyState := if s.stop.isNone then { s with stop := some s.start } else s

def posAt (row col : ℕ) : Pos := ⟨row - i32 s.snapshot.viewOffset, col⟩

def setAnchor (pos : Pos) : CopyState := { s with start := pos, stop := none }

def setExtent (pos : Pos) : CopyState := { s with stop := some pos }

def scrollUp (n : ℕ) : CopyState :=
  { s with snapshot := s.snapshot.setScrollback charWidth (s.snapshot.viewOffset + n) }

def scrollDown (n : ℕ) : CopyState :=
  { s with snapshot := s.snapshot.setScrollback charWidth (s.snapshot.viewOffset - n) }

def selectedText : Option (List Char) :=
  s.stop.map fun stop =>
    let (low, high) := Pos.toLowHigh s.start stop
    let offset := i32 s.snapshot.viewOffset
    s.snapshot.getSelectedText low.x (i32 (low.y + offset)) high.x (i32 (high.y + offset))

/-- What a screen becomes in copy mode, through moves of the cursor, anchors, extents and scrolls of the view. -/
inductive Reached (g : Grid) : CopyState → Prop
  | new : Reached g (.new g)
  | move {s : CopyState} (dir : CopyMove) : Reached g s → Reached g (s.moveCursor charWidth dir)
  | select {s : CopyState} : Reached g s → Reached g s.beginSelection
  | anchor {s : CopyState} {row col : ℕ} : row ≤ 65535 → col ≤ 65535 → Reached g s →
    Reached g (s.setAnchor (s.posAt row col))
  | extent {s : CopyState} {row col : ℕ} : row ≤ 65535 → col ≤ 65535 → Reached g s →
    Reached g (s.setExtent (s.posAt row col))
  | up {s : CopyState} (n : ℕ) : Reached g s → Reached g (s.scrollUp charWidth n)
  | down {s : CopyState} (n : ℕ) : Reached g s → Reached g (s.scrollDown charWidth n)

end CopyState

/-- The text of cells: a blank is a space, and blanks at the end are left out. -/
def shownText (cells : List (Option (List Char))) : List Char :=
  (cells.reduceOption.rdropWhile List.isEmpty).flatMap fun text => if text.isEmpty then [' '] else text

def selectedCells (start stop : Pos) (y : ℤ) (row : ShownRow) : List (Option (List Char)) :=
  (row.cells.zipIdx.filter fun p => Pos.within start stop ⟨y, p.2⟩).map Prod.fst

/-- What is copied of a row: the text of its cells in the selection, and a line end unless it wrapped or is the last one. -/
def rowText (start stop : Pos) (y : ℤ) (row : ShownRow) : List Char :=
  shownText (selectedCells start stop y row) ++ if y ≠ (Pos.toLowHigh start stop).2.y ∧ row.wrapped = false then ['\n'] else []

section highlight

variable (charWidth : Char → Option ℕ) (g : Grid)

/-- What the row at a position shows, be it of the history or of the screen. -/
def rowAt (y : ℤ) : Option ShownRow :=
  let above := shownLines charWidth g.size.width g.history.lines
  if 0 ≤ y then (g.rows[y.toNat]?).map (Row.shown g.tables.graphemes)
  else if 0 ≤ above.length + y then above[(above.length + y).toNat]? else none

/-- The text of the cells in a selection, row by row. -/
def highlighted (start stop : Pos) : List Char :=
  let (low, high) := Pos.toLowHigh start stop
  (List.range (high.y - low.y + 1).toNat).flatMap fun (i : ℕ) =>
    ((rowAt charWidth g (low.y + i)).map (rowText start stop (low.y + i))).getD []

/-- What is copied of a frozen screen is the text of the cells in the selection. -/
def Copied (s : CopyState) : Prop := s.selectedText = s.stop.map (highlighted charWidth g s.start)

/-- Each row of the selection that is out of view is blank in it, and wrapped or the last one. -/
def InView (s : CopyState) : Prop :=
  ∀ stop, s.stop = some stop → ∀ y row, rowAt charWidth g y = some row →
    (Pos.toLowHigh s.start stop).1.y ≤ y → y ≤ (Pos.toLowHigh s.start stop).2.y →
    y < -s.snapshot.viewOffset ∨ g.size.height - s.snapshot.viewOffset ≤ y →
    (∀ cell ∈ selectedCells s.start stop y row, cell = none ∨ cell = some []) ∧
      (row.wrapped = true ∨ y = (Pos.toLowHigh s.start stop).2.y)

end highlight

section text

theorem rdropWhile_cons {text : List Char} {texts : List (List Char)} : (text :: texts).rdropWhile List.isEmpty =
    if texts.rdropWhile List.isEmpty = [] then (if text = [] then [] else [text]) else text :: texts.rdropWhile List.isEmpty := by
  unfold List.rdropWhile
  rw [List.reverse_cons, List.dropWhile_append]
  cases h : texts.reverse.dropWhile List.isEmpty with
  | nil => cases text <;> simp
  | cons a rest => simp

theorem spelled_eq_nil {texts : List (List Char)} :
    (texts.flatMap fun text => if text.isEmpty then [' '] else text) = [] ↔ texts = [] := by
  refine ⟨fun h => ?_, fun h => by rw [h, List.flatMap_nil]⟩
  cases texts with
  | nil => rfl
  | cons text texts => cases text <;> simp at h

theorem shownText_nil : shownText [] = [] := rfl

theorem shownText_none {cells : List (Option (List Char))} : shownText (none :: cells) = shownText cells := rfl

theorem shownText_cons {text : List Char} {cells : List (Option (List Char))} : shownText (some text :: cells) =
    if text = [] then (if shownText cells = [] then [] else ' ' :: shownText cells) else text ++ shownText cells := by
  unfold shownText
  rw [List.reduceOption_cons_of_some, rdropWhile_cons]
  simp only [spelled_eq_nil]
  split_ifs with hrest htext htext
  · rfl
  · rw [hrest]
    cases text with
    | nil => exact absurd rfl htext
    | cons c text => simp
  · rw [htext, List.flatMap_cons]
    rfl
  · rw [List.flatMap_cons]
    cases text with
    | nil => exact absurd rfl htext
    | cons c text => rfl

theorem shownText_eq_nil {cells : List (Option (List Char))} :
    shownText cells = [] ↔ ∀ cell ∈ cells, cell = none ∨ cell = some [] := by
  induction cells with
  | nil => simp [shownText_nil]
  | cons cell cells ih =>
    rw [List.forall_mem_cons, ← ih]
    cases cell with
    | none => simp [shownText_none]
    | some text =>
      rw [shownText_cons]
      by_cases htext : text = [] <;> by_cases hrest : shownText cells = [] <;> simp [htext, hrest]

theorem selectCell_foldl (g : GraphemeTable) (cells : List Cell) (contents : List Char) (pending : ℕ) :
    (cells.foldl (Grid.selectCell g) (contents, pending)).1 = contents ++
      if shownText (cells.map (Cell.shown g)) = [] then []
      else List.replicate pending ' ' ++ shownText (cells.map (Cell.shown g)) := by
  induction cells generalizing contents pending with
  | nil => simp [shownText_nil]
  | cons cell cells ih =>
    rw [List.foldl_cons, List.map_cons]
    by_cases hhalf : cell.isContinuation = true
    · have hcell : Cell.shown g cell = none := if_pos hhalf
      have hstep : Grid.selectCell g (contents, pending) cell = (contents, pending) := if_pos hhalf
      rw [hcell, hstep, shownText_none, ih]
    · have hcell : Cell.shown g cell = some (cell.text.asStr g) := if_neg hhalf
      rw [hcell, shownText_cons]
      by_cases htext : cell.text.asStr g = []
      · have hstep : Grid.selectCell g (contents, pending) cell = (contents, pending + 1) := by
          simp [Grid.selectCell, hhalf, htext]
        rw [hstep, ih, if_pos htext]
        by_cases hrest : shownText (cells.map (Cell.shown g)) = []
        · rw [if_pos hrest, if_pos hrest, if_pos rfl]
        · rw [if_neg hrest, if_neg hrest, if_neg (List.cons_ne_nil _ _), List.replicate_succ', List.append_assoc]
          rfl
      · have hstep : Grid.selectCell g (contents, pending) cell =
            (contents ++ List.replicate pending ' ' ++ cell.text.asStr g, 0) := by
          simp [Grid.selectCell, hhalf, htext]
        rw [hstep, ih, if_neg htext, if_neg (List.append_ne_nil_of_left_ne_nil htext _)]
        by_cases hrest : shownText (cells.map (Cell.shown g)) = [] <;> simp [hrest]

theorem zipIdx_between {α : Type} (l : List α) (lo hi k : ℕ) :
    ((l.zipIdx k).filter fun p => lo ≤ p.2 ∧ p.2 < hi).map Prod.fst = (l.drop (lo - k)).take (hi - max lo k) := by
  induction l generalizing k with
  | nil => simp
  | cons a l ih =>
    rw [List.zipIdx_cons, List.filter_cons]
    rcases Nat.lt_or_ge k lo with hk | hk
    · rw [if_neg (by simp; omega), ih, show lo - k = (lo - (k + 1)) + 1 by omega, List.drop_succ_cons,
        show max lo k = max lo (k + 1) by omega]
    · have hzero : lo - k = 0 := by omega
      have hnext := ih (k + 1)
      rw [show lo - (k + 1) = 0 by omega, List.drop_zero, show max lo (k + 1) = k + 1 by omega] at hnext
      rw [hzero, List.drop_zero, show max lo k = k by omega]
      by_cases hhi : k < hi
      · rw [if_pos (by simpa using ⟨hk, hhi⟩), List.map_cons, hnext, show hi - k = (hi - (k + 1)) + 1 by omega,
          List.take_succ_cons]
      · rw [if_neg (by simp; omega), hnext, show hi - (k + 1) = 0 by omega, show hi - k = 0 by omega, List.take_zero,
          List.take_zero]

theorem length_flatMap_le {α β : Type} {l : List α} {f g : α → List β} (h : ∀ a ∈ l, f a = g a ∨ f a = []) :
    (l.flatMap f).length ≤ (l.flatMap g).length := by
  induction l with
  | nil => exact Nat.le_refl _
  | cons a l ih =>
    rw [List.flatMap_cons, List.flatMap_cons, List.length_append, List.length_append]
    have hrest := ih fun b hb => h b (List.mem_cons_of_mem _ hb)
    rcases h a List.mem_cons_self with ha | ha <;> rw [ha]
    · omega
    · rw [List.length_nil]
      omega

/-- What is left out of some pieces is nothing only if each piece left out is empty. -/
theorem flatMap_eq_iff {α β : Type} {l : List α} {f g : α → List β} (h : ∀ a ∈ l, f a = g a ∨ f a = []) :
    l.flatMap f = l.flatMap g ↔ ∀ a ∈ l, f a = g a := by
  induction l with
  | nil => simp
  | cons a l ih =>
    have hl : ∀ b ∈ l, f b = g b ∨ f b = [] := fun b hb => h b (List.mem_cons_of_mem _ hb)
    have hle := length_flatMap_le hl
    rw [List.forall_mem_cons, ← ih hl, List.flatMap_cons, List.flatMap_cons]
    refine ⟨fun heq => ?_, fun ⟨ha, hrest⟩ => by rw [ha, hrest]⟩
    have hlen := congrArg List.length heq
    rw [List.length_append, List.length_append] at hlen
    have hfirst : (f a).length = (g a).length := by
      rcases h a List.mem_cons_self with ha | ha
      · rw [ha]
      · rw [ha, List.length_nil] at hlen ⊢
        omega
    exact List.append_inj heq hfirst

end text

section selection

variable {start stop : Pos}

theorem i32_eq {n : ℤ} (hlo : -2147483648 ≤ n) (hhi : n < 2147483648) : i32 n = n := by
  unfold i32
  omega

theorem toLowHigh_cases : Pos.toLowHigh start stop = (start, stop) ∨ Pos.toLowHigh start stop = (stop, start) := by
  unfold Pos.toLowHigh
  split_ifs
  · exact .inl rfl
  · exact .inr rfl

theorem toLowHigh_le (start stop : Pos) : (Pos.toLowHigh start stop).1.y ≤ (Pos.toLowHigh start stop).2.y ∧
    ((Pos.toLowHigh start stop).1.y = (Pos.toLowHigh start stop).2.y →
      (Pos.toLowHigh start stop).1.x ≤ (Pos.toLowHigh start stop).2.x) := by
  unfold Pos.toLowHigh
  split_ifs <;> simp only <;> omega

theorem within_iff {y x : ℤ} (hlow : (Pos.toLowHigh start stop).1.y ≤ y) (hhigh : y ≤ (Pos.toLowHigh start stop).2.y) :
    Pos.within start stop ⟨y, x⟩ = true ↔ (y = (Pos.toLowHigh start stop).1.y → (Pos.toLowHigh start stop).1.x ≤ x) ∧
      (y = (Pos.toLowHigh start stop).2.y → x ≤ (Pos.toLowHigh start stop).2.x) := by
  unfold Pos.within
  grind

theorem selectedCells_eq {y : ℤ} {row : ShownRow} {first last : ℕ} (hlow : (Pos.toLowHigh start stop).1.y ≤ y)
    (hhigh : y ≤ (Pos.toLowHigh start stop).2.y)
    (hfirst : ∀ x : ℕ, first ≤ x ↔ (y = (Pos.toLowHigh start stop).1.y → (Pos.toLowHigh start stop).1.x ≤ x))
    (hlast : ∀ x : ℕ, x < row.cells.length → first ≤ x →
      (x < last ↔ (y = (Pos.toLowHigh start stop).2.y → (x : ℤ) ≤ (Pos.toLowHigh start stop).2.x))) :
    selectedCells start stop y row = (row.cells.drop first).take (last - first) := by
  have hbetween := zipIdx_between row.cells first last 0
  rw [Nat.sub_zero, Nat.max_zero] at hbetween
  rw [← hbetween]
  unfold selectedCells
  congr 1
  apply List.filter_congr
  intro p hp
  have hlt : p.2 < row.cells.length := by
    have := List.mem_zipIdx hp
    omega
  rw [Bool.eq_iff_iff, within_iff hlow hhigh, decide_eq_true_eq, ← hfirst]
  refine and_congr_right fun hle => ?_
  rw [hlast p.2 hlt hle]

end selection

/-- What holds of a screen between two of its operations. -/
structure Settled (charWidth : Char → Option ℕ) (g : Grid) : Prop where
  size : 0 < g.size.height ∧ g.size.height ≤ 65535 ∧ g.size.width ≤ 65535
  rows : g.rows.length = g.size.height
  cols : ∀ row ∈ g.rows, row.cells.length ≤ 65535
  refs : ∀ row ∈ g.rows, ∀ cell ∈ row.cells, ∀ i w, cell.text = .grapheme i w → i < g.tables.graphemes.length
  counted : g.history.Counted charWidth
  offset : g.viewOffset ≤ g.maxScrollback charWidth
  view : g.viewOffset ≠ 0 → ∃ t : Tables, t.graphemes <+: g.tables.graphemes ∧
    (g.history.rowsAbove charWidth g.viewOffset (min g.viewOffset g.size.height) g.size.width t).1 = g.viewAbove ∧
    (g.history.rowsAbove charWidth g.viewOffset (min g.viewOffset g.size.height) g.size.width t).2.graphemes <+: g.tables.graphemes

/-- The lines of the history take as many rows as are counted for them, in columns of 16 bits; there is room for their
clusters; and their rows are counted in 32 bits with a sign. -/
structure Regular (charWidth : Char → Option ℕ) (g : Grid) : Prop where
  laid : Laid charWidth g.size.width g.history.lines
  narrow : ∀ line ∈ g.history.lines, line.Narrow charWidth g.size.width
  roomy : Roomy charWidth g.history.lines g.tables.graphemes
  few : countOf charWidth g.size.width g.history.lines < 2147418112

def Pos.Bounded (above : ℕ) (p : Pos) : Prop := -above ≤ p.y ∧ p.y ≤ 65535 ∧ 0 ≤ p.x ∧ p.x ≤ 65535

namespace CopyState

/-- What stays of a frozen screen, and what the view and the selection are. -/
structure Steady (charWidth : Char → Option ℕ) (g : Grid) (s : CopyState) : Prop where
  size : s.snapshot.size = g.size
  rows : s.snapshot.rows = g.rows
  history : s.snapshot.history = g.history
  grown : g.tables.graphemes <+: s.snapshot.tables.graphemes
  roomy : Roomy charWidth g.history.lines s.snapshot.tables.graphemes
  offset : s.snapshot.viewOffset ≤ countOf charWidth g.size.width g.history.lines
  view : s.snapshot.viewOffset ≠ 0 → s.snapshot.viewAbove.map (Row.shown s.snapshot.tables.graphemes) =
    ((shownLines charWidth g.size.width g.history.lines).drop
      (countOf charWidth g.size.width g.history.lines - s.snapshot.viewOffset)).take (min s.snapshot.viewOffset g.size.height)
  start : s.start.Bounded (countOf charWidth g.size.width g.history.lines)
  stop : ∀ p, s.stop = some p → p.Bounded (countOf charWidth g.size.width g.history.lines)

variable {charWidth : Char → Option ℕ} {g : Grid} {s : CopyState}

theorem maxScrollback_eq (hg : Settled charWidth g) :
    g.maxScrollback charWidth = countOf charWidth g.size.width g.history.lines := History.rowsAt_counted hg.counted

theorem Steady.new (hg : Settled charWidth g) (hr : Regular charWidth g) : Steady charWidth g (.new g) := by
  have hoffset := hg.offset
  rw [maxScrollback_eq hg] at hoffset
  refine ⟨rfl, rfl, rfl, List.prefix_refl _, hr.roomy, hoffset, fun hne => ?_, ?_, fun p hp => by cases hp⟩
  · obtain ⟨t, ht, hview, hgrown⟩ := hg.view hne
    have hcount : 0 < min g.viewOffset g.size.height := Nat.lt_min.mpr ⟨Nat.pos_of_ne_zero hne, hg.size.1⟩
    obtain ⟨-, -, hshown⟩ := History.shown_rowsAbove hcount hr.laid (hr.roomy.initial ht) hoffset
    change g.viewAbove.map _ = _
    rw [← hview]
    exact hshown _ hgrown
  · have hsize := hg.size
    unfold CopyState.new Pos.Bounded
    simp only
    omega

theorem Steady.scroll (hg : Settled charWidth g) (hr : Regular charWidth g) (hs : Steady charWidth g s) (n : ℕ) :
    Steady charWidth g { s with snapshot := s.snapshot.setScrollback charWidth n } := by
  have hmax : s.snapshot.maxScrollback charWidth = countOf charWidth g.size.width g.history.lines := by
    unfold Grid.maxScrollback
    rw [hs.history, hs.size]
    exact maxScrollback_eq hg
  have hle : min n (s.snapshot.maxScrollback charWidth) ≤ countOf charWidth g.size.width g.history.lines := by
    rw [hmax]
    exact Nat.min_le_right _ _
  unfold Grid.setScrollback Grid.refreshView
  generalize min n (s.snapshot.maxScrollback charWidth) = offset at hle ⊢
  by_cases hzero : offset = 0
  · subst hzero
    rw [if_pos rfl]
    exact ⟨hs.size, hs.rows, hs.history, hs.grown, hs.roomy, hle, fun hne => absurd rfl hne, hs.start, hs.stop⟩
  · rw [if_neg hzero]
    have hcount : 0 < min offset g.size.height := Nat.lt_min.mpr ⟨Nat.pos_of_ne_zero hzero, hg.size.1⟩
    obtain ⟨hroom, hgrows, hshown⟩ := History.shown_rowsAbove hcount hr.laid hs.roomy hle
    simp only [hs.history, hs.size]
    exact ⟨rfl, hs.rows, rfl, hs.grown.trans hgrows, hroom, hle, fun _ => hshown _ (List.prefix_refl _), hs.start,
      hs.stop⟩

theorem Steady.cursor (hs : Steady charWidth g s) :
    s.cursor.Bounded (countOf charWidth g.size.width g.history.lines) := by
  unfold CopyState.cursor
  cases hstop : s.stop with
  | none => exact hs.start
  | some p => exact hs.stop p hstop

theorem Steady.setCursor (hs : Steady charWidth g s) {p : Pos}
    (hp : p.Bounded (countOf charWidth g.size.width g.history.lines)) :
    Steady charWidth g (s.setCursor p) := by
  unfold CopyState.setCursor
  split
  · exact { hs with stop := fun q hq => by cases hq; exact hp }
  · exact { hs with start := hp }

theorem Steady.move (hg : Settled charWidth g) (hr : Regular charWidth g) (hs : Steady charWidth g s) (dir : CopyMove) :
    Steady charWidth g (s.moveCursor charWidth dir) := by
  have hmax : s.snapshot.maxScrollback charWidth = countOf charWidth g.size.width g.history.lines := by
    unfold Grid.maxScrollback
    rw [hs.history, hs.size]
    exact maxScrollback_eq hg
  have hrows : i32 (s.snapshot.maxScrollback charWidth) = countOf charWidth g.size.width g.history.lines := by
    rw [hmax, i32_eq] <;> have := hr.few <;> omega
  have hcursor := hs.cursor
  have hsize := hg.size
  unfold CopyState.moveCursor
  rw [hrows, hs.size]
  cases dir <;> simp only <;> split_ifs with h
  all_goals first
    | exact hs
    | apply hs.setCursor
      unfold Pos.Bounded at hcursor ⊢
      simp only
      omega

theorem Steady.posAt (hr : Regular charWidth g) (hs : Steady charWidth g s) {row col : ℕ} (hrow : row ≤ 65535)
    (hcol : col ≤ 65535) : (s.posAt row col).Bounded (countOf charWidth g.size.width g.history.lines) := by
  have hoffset : i32 s.snapshot.viewOffset = s.snapshot.viewOffset := by
    have := hs.offset
    have := hr.few
    apply i32_eq <;> omega
  have hle := hs.offset
  unfold CopyState.posAt Pos.Bounded
  rw [hoffset]
  simp only
  omega

theorem Steady.setAnchor (hs : Steady charWidth g s) {p : Pos}
    (hp : p.Bounded (countOf charWidth g.size.width g.history.lines)) :
    Steady charWidth g (s.setAnchor p) := { hs with start := hp, stop := fun _ hq => by cases hq }

theorem Steady.setExtent (hs : Steady charWidth g s) {p : Pos}
    (hp : p.Bounded (countOf charWidth g.size.width g.history.lines)) :
    Steady charWidth g (s.setExtent p) := { hs with stop := fun _ hq => Option.some.inj hq ▸ hp }

theorem Steady.select (hs : Steady charWidth g s) : Steady charWidth g s.beginSelection := by
  unfold CopyState.beginSelection
  split_ifs
  · exact hs.setExtent hs.start
  · exact hs

theorem Reached.steady (hg : Settled charWidth g) (hr : Regular charWidth g) (h : Reached charWidth g s) :
    Steady charWidth g s := by
  induction h with
  | new => exact .new hg hr
  | move dir _ ih => exact ih.move hg hr dir
  | select _ ih => exact ih.select
  | anchor hrow hcol _ ih => exact ih.setAnchor (ih.posAt hr hrow hcol)
  | extent hrow hcol _ ih => exact ih.setExtent (ih.posAt hr hrow hcol)
  | up n _ ih => exact ih.scroll hg hr _
  | down n _ ih => exact ih.scroll hg hr _

section view

theorem shown_grown {row : Row} {t t' : GraphemeTable} (ht : t <+: t')
    (hrefs : ∀ cell ∈ row.cells, ∀ i w, cell.text = .grapheme i w → i < t.length) : row.shown t' = row.shown t := by
  unfold Row.shown
  congr 1
  apply List.map_congr_left
  intro cell hcell
  unfold Cell.shown
  congr 2
  cases htext : cell.text with
  | grapheme i w =>
    have hi := hrefs cell hcell i w htext
    unfold CellText.asStr GraphemeTable.get
    simp only
    rw [getElem?_of_initial ht (List.getElem?_eq_getElem hi), List.getElem?_eq_getElem hi]
  | empty | filler | scalar | continuation | image => rfl

theorem Steady.length_above (hr : Regular charWidth g) :
    (shownLines charWidth g.size.width g.history.lines).length = countOf charWidth g.size.width g.history.lines :=
  hr.laid.length hr.roomy (List.Subset.refl _)

theorem Steady.visible (hg : Settled charWidth g) (hr : Regular charWidth g) (hs : Steady charWidth g s) {i : ℕ}
    (hi : i < g.size.height) : (s.snapshot.visibleRows[i]?).map (Row.shown s.snapshot.tables.graphemes) =
      rowAt charWidth g (i - s.snapshot.viewOffset) := by
  have hlive (n : ℕ) : (g.rows[n]?).map (Row.shown s.snapshot.tables.graphemes) =
      (g.rows[n]?).map (Row.shown g.tables.graphemes) := by
    cases hn : g.rows[n]? with
    | none => rfl
    | some row => exact congrArg some (shown_grown hs.grown (hg.refs row (List.mem_of_getElem? hn)))
  have hlen := Steady.length_above hr
  have hoffset := hs.offset
  unfold Grid.visibleRows rowAt
  rw [hs.rows, hs.size]
  by_cases hzero : s.snapshot.viewOffset = 0
  · rw [if_pos hzero, hlive, hzero]
    simp
  · have hview := hs.view hzero
    have habove : s.snapshot.viewAbove.length = min s.snapshot.viewOffset g.size.height := by
      have h := congrArg List.length hview
      rw [List.length_map, List.length_take, List.length_drop, hlen] at h
      omega
    rw [if_neg hzero]
    rcases Nat.lt_or_ge i s.snapshot.viewOffset with hlt | hge
    · have hin : i < s.snapshot.viewAbove.length := by omega
      rw [List.getElem?_append_left hin, ← List.getElem?_map, hview, List.getElem?_take_of_lt (by omega),
        List.getElem?_drop,
        if_neg (by omega), if_pos (by omega), hlen]
      congr 1
      omega
    · rw [List.getElem?_append_right (by omega), List.getElem?_take_of_lt (by omega), hlive, if_pos (by omega)]
      congr 2
      omega

theorem Steady.visible_none (hg : Settled charWidth g) (hs : Steady charWidth g s) {i : ℕ} (hi : g.size.height ≤ i) :
    s.snapshot.visibleRows[i]? = none := by
  apply List.getElem?_eq_none
  unfold Grid.visibleRows
  split_ifs with hzero
  · rw [hs.rows, hg.rows]
    exact hi
  · have habove := congrArg List.length (hs.view hzero)
    rw [List.length_map, List.length_take] at habove
    rw [List.length_append, List.length_take, hs.rows, hs.size]
    omega

end view

section copied

theorem rowAt_length (hg : Settled charWidth g) {y : ℤ} {row : ShownRow} (h : rowAt charWidth g y = some row) :
    row.cells.length ≤ 65535 := by
  unfold rowAt at h
  simp only at h
  split_ifs at h
  · obtain ⟨live, hlive, rfl⟩ := Option.map_eq_some_iff.mp h
    unfold Row.shown
    rw [List.length_map]
    exact hg.cols live (List.mem_of_getElem? hlive)
  · obtain ⟨line, -, hrow⟩ := List.mem_flatMap.mp (List.mem_of_getElem? h)
    rw [Line.shownRows_width hrow]
    have := hg.size.2.2
    omega

theorem u16_eq {n : ℤ} (hlo : 0 ≤ n) (hhi : n ≤ 65535) : (u16 n : ℤ) = n := by
  unfold u16
  omega

theorem selectRow_eq {start stop low high : Pos} {offset : ℤ} {i : ℕ} {contents : List Char}
    (hlow : (Pos.toLowHigh start stop).1 = low) (hhigh : (Pos.toLowHigh start stop).2 = high)
    (hx : 0 ≤ low.x ∧ low.x ≤ 65535) (hx' : 0 ≤ high.x ∧ high.x ≤ 65535) (hi : low.y + i ≤ high.y)
    (grid : Grid) (row : ShownRow)
    (hrow : (if 0 ≤ low.y + offset + i then grid.visibleRows[(low.y + offset + i).toNat]? else none).map
      (Row.shown grid.tables.graphemes) = some row) (hlen : row.cells.length ≤ 65535) :
    grid.selectRow low.x (low.y + offset) high.x (high.y - low.y + 1) contents i =
      contents ++ rowText start stop (low.y + i) row := by
  obtain ⟨live, hlive, rfl⟩ := Option.map_eq_some_iff.mp hrow
  have hcells : (live.shown grid.tables.graphemes).cells.length = live.cells.length := List.length_map _
  rw [hcells] at hlen
  have hwidth : live.cells.length % 65536 = live.cells.length := Nat.mod_eq_of_lt (by omega)
  have hstop : i32 (high.x + 1) = high.x + 1 := i32_eq (by omega) (by omega)
  unfold Grid.selectRow
  simp only [hlive, hwidth, hstop]
  generalize hfirst : (if i = 0 then u16 (max low.x 0) else 0) = first
  generalize hlast : u16 (max (if (i : ℤ) = high.y - low.y + 1 - 1 then min (live.cells.length : ℤ) (high.x + 1)
    else live.cells.length) first) = last
  have hcolumns : selectedCells start stop (low.y + i) (live.shown grid.tables.graphemes) =
      ((live.cells.drop first).take (last - first)).map (Cell.shown grid.tables.graphemes) := by
    rw [List.map_take, List.map_drop]
    apply selectedCells_eq
    · rw [hlow]
      omega
    · rw [hhigh]
      exact hi
    · intro x
      rw [hlow]
      split_ifs at hfirst
      · have := u16_eq (n := max low.x 0) (by omega) (by omega)
        omega
      · omega
    · intro x hx _
      rw [hcells] at hx
      rw [hhigh]
      have hle : (first : ℤ) ≤ 65535 := by
        split_ifs at hfirst
        · have := u16_eq (n := max low.x 0) (by omega) (by omega)
          omega
        · omega
      split_ifs at hlast
      · have := u16_eq (n := max (min (live.cells.length : ℤ) (high.x + 1)) first) (by omega) (by omega)
        omega
      · have := u16_eq (n := max (live.cells.length : ℤ) first) (by omega) (by omega)
        omega
  rw [selectCell_foldl]
  unfold rowText
  rw [hcolumns, hhigh]
  simp only [List.replicate_zero, List.nil_append]
  have htext (cells : List (Option (List Char))) :
    (if shownText cells = [] then [] else shownText cells) = shownText cells := by
    split_ifs with h
    · exact h.symm
    · rfl
  rw [htext]
  have hend : ((i : ℤ) ≠ high.y - low.y + 1 - 1 ∧ live.wrapped = false) ↔
      (low.y + i ≠ high.y ∧ (live.shown grid.tables.graphemes).wrapped = false) := by
    refine and_congr ⟨fun h => ?_, fun h => ?_⟩ Iff.rfl <;> omega
  rw [if_congr hend rfl rfl]
  split_ifs
  · exact List.append_assoc _ _ _
  · rw [List.append_nil]

theorem selectRow_none {low high : Pos} {offset linesLen : ℤ} {i : ℕ} {contents : List Char} (grid : Grid)
    (hrow : (if 0 ≤ low.y + offset + i then grid.visibleRows[(low.y + offset + i).toNat]? else none) = none) :
    grid.selectRow low.x (low.y + offset) high.x linesLen contents i = contents := by
  unfold Grid.selectRow
  simp only [hrow]

theorem Steady.selectedText_eq (hg : Settled charWidth g) (hr : Regular charWidth g) (hs : Steady charWidth g s)
    {stop : Pos}
    (hstop : s.stop = some stop) : s.selectedText =
      some ((List.range ((Pos.toLowHigh s.start stop).2.y - (Pos.toLowHigh s.start stop).1.y + 1).toNat).flatMap fun (i : ℕ) =>
        if (Pos.toLowHigh s.start stop).1.y + i < -s.snapshot.viewOffset ∨
            g.size.height - s.snapshot.viewOffset ≤ (Pos.toLowHigh s.start stop).1.y + i then []
        else ((rowAt charWidth g ((Pos.toLowHigh s.start stop).1.y + i)).map
          (rowText s.start stop ((Pos.toLowHigh s.start stop).1.y + i))).getD []) := by
  have hbounds : (Pos.toLowHigh s.start stop).1.Bounded (countOf charWidth g.size.width g.history.lines) ∧
      (Pos.toLowHigh s.start stop).2.Bounded (countOf charWidth g.size.width g.history.lines) := by
    rcases toLowHigh_cases with h | h <;> rw [h]
    · exact ⟨hs.start, hs.stop stop hstop⟩
    · exact ⟨hs.stop stop hstop, hs.start⟩
  obtain ⟨hlow, hhigh⟩ := hbounds
  have hfew := hr.few
  have hle := hs.offset
  have hoffset : i32 s.snapshot.viewOffset = s.snapshot.viewOffset := by apply i32_eq <;> omega
  unfold CopyState.selectedText
  rw [hstop, Option.map_some]
  simp only [hoffset]
  generalize hlow' : (Pos.toLowHigh s.start stop).1 = low at *
  generalize hhigh' : (Pos.toLowHigh s.start stop).2 = high at *
  unfold Pos.Bounded at hlow hhigh
  have hlowY : i32 (low.y + s.snapshot.viewOffset) = low.y + s.snapshot.viewOffset := by apply i32_eq <;> omega
  have hhighY : i32 (high.y + s.snapshot.viewOffset) = high.y + s.snapshot.viewOffset := by apply i32_eq <;> omega
  have hlines : i32 (high.y + s.snapshot.viewOffset - (low.y + s.snapshot.viewOffset) + 1) = high.y - low.y + 1 := by
    rw [show high.y + s.snapshot.viewOffset - (low.y + s.snapshot.viewOffset) + 1 = high.y - low.y + 1 by omega]
    apply i32_eq <;> omega
  unfold Grid.getSelectedText
  rw [hlowY, hhighY, hlines]
  apply congrArg some
  have hfold (l : List ℕ) : ∀ contents, (∀ i ∈ l, low.y + i ≤ high.y) →
      l.foldl (s.snapshot.selectRow low.x (low.y + s.snapshot.viewOffset) high.x (high.y - low.y + 1)) contents =
        contents ++ l.flatMap fun (i : ℕ) =>
          if low.y + i < -s.snapshot.viewOffset ∨ g.size.height - s.snapshot.viewOffset ≤ low.y + i
          then [] else ((rowAt charWidth g (low.y + i)).map (rowText s.start stop (low.y + i))).getD [] := by
    induction l with
    | nil => exact fun contents _ => (List.append_nil contents).symm
    | cons i l ih =>
      intro contents hl
      have hi := hl i List.mem_cons_self
      rw [List.foldl_cons, ih _ fun j hj => hl j (List.mem_cons_of_mem _ hj), List.flatMap_cons, ← List.append_assoc]
      refine congrArg (· ++ _) ?_
      split_ifs with hout
      · rw [List.append_nil]
        apply selectRow_none
        rcases hout with hout | hout
        · exact if_neg (by omega)
        · rw [if_pos (by omega)]
          exact hs.visible_none hg (by omega)
      · have hvisible := hs.visible hg hr (i := (low.y + s.snapshot.viewOffset + i).toNat) (by omega)
        rw [show ((low.y + s.snapshot.viewOffset + i).toNat : ℤ) - s.snapshot.viewOffset = low.y + i by omega] at hvisible
        cases hrow : rowAt charWidth g (low.y + i) with
        | none =>
          rw [hrow, Option.map_eq_none_iff] at hvisible
          rw [Option.map_none, Option.getD_none, List.append_nil]
          apply selectRow_none
          rw [if_pos (by omega)]
          exact hvisible
        | some row =>
          rw [hrow] at hvisible
          rw [Option.map_some, Option.getD_some]
          apply selectRow_eq hlow' hhigh' ⟨by omega, by omega⟩ ⟨by omega, by omega⟩ hi
          · rw [if_pos (by omega)]
            exact hvisible
          · exact rowAt_length hg hrow
  rw [hfold, List.nil_append]
  intro i hi
  have := List.mem_range.mp hi
  omega

/-- Of a frozen screen whose history is regular, exactly then what is copied is what is highlighted when the selected rows
out of view have nothing in the selection. -/
theorem copied_iff (hg : Settled charWidth g) (hr : Regular charWidth g) (h : Reached charWidth g s) :
    Copied charWidth g s ↔ InView charWidth g s := by
  have hs := h.steady hg hr
  unfold Copied InView
  cases hstop : s.stop with
  | none =>
    refine ⟨fun _ stop h => (by cases h), fun _ => ?_⟩
    unfold CopyState.selectedText
    rw [hstop]
    rfl
  | some stop =>
    have hle := (toLowHigh_le s.start stop).1
    rw [hs.selectedText_eq hg hr hstop, Option.map_some, Option.some.injEq]
    unfold highlighted
    rw [flatMap_eq_iff fun i _ => by split_ifs <;> simp]
    generalize hlow : (Pos.toLowHigh s.start stop).1 = low at *
    generalize hhigh : (Pos.toLowHigh s.start stop).2 = high at *
    constructor
    · rintro hpieces stop' heq y row hrow hy hy' hout
      obtain rfl := Option.some.inj heq
      rw [hlow] at hy
      rw [hhigh] at hy' ⊢
      have hpiece := hpieces (y - low.y).toNat (List.mem_range.mpr (by omega))
      rw [show low.y + ((y - low.y).toNat : ℤ) = y by omega, if_pos hout, hrow, Option.map_some, Option.getD_some] at hpiece
      obtain ⟨htext, hline⟩ := List.append_eq_nil_iff.mp hpiece.symm
      refine ⟨shownText_eq_nil.mp htext, ?_⟩
      rw [hhigh] at hline
      by_contra hnot
      rw [not_or] at hnot
      rw [if_pos ⟨hnot.2, by simpa using hnot.1⟩] at hline
      cases hline
    · intro hin i hi
      have hlt := List.mem_range.mp hi
      split_ifs with hout
      · cases hrow : rowAt charWidth g (low.y + i) with
        | none => rfl
        | some row =>
          obtain ⟨hcells, hline⟩ := hin stop rfl _ row hrow (by rw [hlow]; omega) (by rw [hhigh]; omega) hout
          rw [Option.map_some, Option.getD_some, rowText, shownText_eq_nil.mpr hcells, List.nil_append]
          refine (if_neg fun h => ?_).symm
          rcases hline with hwrapped | hlast
          · rw [hwrapped] at h
            cases h.2
          · exact h.1 hlast
      · rfl

/-- A screen of one row that shows b, with a row in its history that shows a. -/
def scrolled : Grid :=
  { Grid.new ⟨1, 2⟩ 10 with
    rows := [⟨[⟨.ofScalar 'b' 1, 0⟩, .empty], false⟩]
    history := (History.new 10).commit History.someWidth ⟨[⟨.ofScalar 'a' 1, 0⟩, .empty], false⟩ .new }

def selected : CopyState :=
  ((CopyState.new scrolled).moveCursor History.someWidth .up).beginSelection.moveCursor History.someWidth .down

theorem scrolled_lines : scrolled.history.lines = [⟨['a'], [(1, 1)], [(.default, 1)]⟩] := by decide +kernel

theorem scrolled_settled : Settled History.someWidth scrolled where
  size := by decide
  rows := rfl
  cols := by simp [scrolled]
  refs := by simp [scrolled, CellText.ofScalar, Cell.empty]
  counted := (History.Reached.commit _ _ (.new 10)).counted
  offset := Nat.zero_le _
  view := fun h => absurd rfl h

theorem scrolled_regular : Regular History.someWidth scrolled := by
  refine ⟨?_, ?_, ?_, by decide +kernel⟩
  · intro line hline t
    rw [scrolled_lines] at hline
    obtain rfl := List.mem_singleton.mp hline
    apply (Line.rowsAt_iff (by decide) _ t).mpr
    unfold Line.Fits
    decide +kernel
  · intro line hline n w hn
    rw [scrolled_lines] at hline
    obtain rfl := List.mem_singleton.mp hline
    have hwidths : Line.widths History.someWidth ⟨['a'], [(1, 1)], [(.default, 1)]⟩ = [1] := by decide +kernel
    rw [hwidths] at hn ⊢
    match n with
    | 0 =>
      obtain rfl : 1 = w := Option.some.inj hn
      unfold u16Max
      decide
    | n + 1 => cases hn
  · unfold Roomy maxGraphemes
    decide +kernel

theorem copied_iff_selected : Copied History.someWidth scrolled selected ↔ InView History.someWidth scrolled selected :=
  copied_iff scrolled_settled scrolled_regular (.move .down (.select (.move .up .new)))

/-- The row above the view is highlighted, but it is not copied. -/
theorem not_copied : Settled History.someWidth scrolled ∧ Reached History.someWidth scrolled selected ∧
    ¬ Copied History.someWidth scrolled selected := by
  refine ⟨scrolled_settled, .move .down (.select (.move .up .new)), ?_⟩
  unfold Copied
  decide +kernel

end copied

end CopyState

end CopyMode

end Dekit
