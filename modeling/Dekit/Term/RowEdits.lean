import Dekit.Lib.Total
import Dekit.Term.Edit

namespace Dekit

namespace Term

open Slice Total

namespace Row

variable (row : Row) (col : ℕ) (style : StyleId)

@[simp] theorem length_blankOther : (row.blankOther col style).cells.length = row.cells.length := by
  unfold blankOther
  split
  · rfl
  · exact List.length_set

@[simp] theorem length_clearWide : (row.clearWide col style).cells.length = row.cells.length := by
  unfold clearWide
  split
  · rfl
  · split
    · exact length_blankOther _ _ _
    · split
      · exact length_blankOther _ _ _
      · rfl

@[simp] theorem length_set (cell : Cell) : (row.set col cell).cells.length = row.cells.length := by
  unfold set
  split
  · rfl
  · rw [List.length_set, length_clearWide]

@[simp] theorem length_erase : (row.erase col style).cells.length = row.cells.length := by
  unfold erase
  split
  · rfl
  · dsimp only
    split <;> split <;> rw [List.length_set, length_clearWide]

/-- A row without the wide cell that a column would split. -/
def parted : Row :=
  if (row.cells[col]?).any Cell.isContinuation then
    { row.clearWide col style with cells := (row.clearWide col style).cells.set col (.blank style) }
  else row

@[simp] theorem length_parted : (row.parted col style).cells.length = row.cells.length := by
  unfold parted
  split
  · rw [List.length_set, length_clearWide]
  · rfl

def shut (cells : List Cell) (right : ℕ) (style : StyleId) : List Cell :=
  if (cells[right]?).any Cell.isWide then cells.set right (.blank style) else cells

@[simp] theorem length_shut (cells : List Cell) (right : ℕ) : (shut cells right style).length = cells.length := by
  unfold shut
  split
  · exact List.length_set
  · rfl

variable {row col}

theorem exists_parts {i j k : ℕ} {cells : List Cell} (h : i + j + k ≤ cells.length) : ∃ before middle part after,
    cells = before ++ ((middle ++ part) ++ after) ∧ before.length = i ∧ middle.length = j ∧ part.length = k := by
  refine ⟨cells.take i, (cells.drop i).take j, (cells.drop (i + j)).take k, cells.drop (i + j + k), ?_, ?_, ?_, ?_⟩
  · rw [← List.append_assoc, ← List.append_assoc, ← List.take_add, ← List.take_add, List.take_append_drop]
  all_goals simp only [List.length_take, List.length_drop]; omega

theorem insertBlanks_eq {count right : ℕ} {before middle part after : List Cell}
    (hcells : (row.parted col style).cells = before ++ ((middle ++ part) ++ after)) (hbefore : before.length = col)
    (hcol : col + middle.length + part.length = right + 1) (hpart : part.length = min count (right + 1 - col))
    (hpos : part ≠ []) : row.insertBlanks col count right style =
      some ⟨shut (before ++ ((blanks part.length style ++ middle) ++ after)) right style, false⟩ := by
  have hlen := congrArg List.length hcells
  have hk := List.length_pos_of_ne_nil hpos
  simp only [length_parted, List.length_append] at hlen
  obtain ⟨cell, hcell⟩ : ∃ cell, row.cells[col]? = some cell := ⟨_, List.getElem?_eq_getElem (by omega)⟩
  -- The cells turn, and those now at the column are blanked.
  have hturn : onRange (before ++ ((middle ++ part) ++ after)) col (right + 1) (rotateRight part.length) =
      some (before ++ ((part ++ middle) ++ after)) := by
    rw [onRange_append hbefore (by rw [List.length_append]; omega), rotateRight_append]
  have hblank : onRange (before ++ ((part ++ middle) ++ after)) col (col + part.length)
      (fun _ => blanks part.length style) = some (before ++ ((blanks part.length style ++ middle) ++ after)) := by
    rw [List.append_assoc part, onRange_append hbefore rfl, List.append_assoc]
  obtain ⟨last, hlast⟩ : ∃ last, (before ++ ((blanks part.length style ++ middle) ++ after))[right]? = some last := by
    refine ⟨_, List.getElem?_eq_getElem ?_⟩
    simp only [List.length_append, blanks, List.length_replicate]
    omega
  have hshut : shut (before ++ ((blanks part.length style ++ middle) ++ after)) right style =
      if last.isWide then (before ++ ((blanks part.length style ++ middle) ++ after)).set right (.blank style)
      else before ++ ((blanks part.length style ++ middle) ++ after) := by
    unfold shut
    rw [hlast]
    rfl
  unfold insertBlanks
  rw [if_neg (by omega), ← hpart, hcell, hshut]
  dsimp only
  rw [if_neg (by omega)]
  unfold parted at hcells
  rw [hcell] at hcells
  split
  next hhalf =>
    rw [Option.any_some, if_pos hhalf] at hcells
    dsimp only [Option.bind_eq_bind, Option.bind_some] at hcells ⊢
    rw [hcells, hturn, Option.bind_some, hblank, Option.bind_some, hlast, Option.bind_some]
  next hhalf =>
    rw [Option.any_some, if_neg hhalf] at hcells
    dsimp only [Option.bind_eq_bind, Option.bind_some] at hcells ⊢
    rw [hcells, hturn, Option.bind_some, hblank, Option.bind_some, hlast, Option.bind_some]

def cleared (row : Row) (start stop : ℕ) (style : StyleId) : Row :=
  (row.clearWide start style).clearWide (stop - 1) style

@[simp] theorem length_cleared (start stop : ℕ) : (row.cleared start stop style).cells.length = row.cells.length := by
  unfold cleared
  rw [length_clearWide, length_clearWide]

theorem deleteCells_eq {count right : ℕ} {before middle part after : List Cell}
    (hcells : (row.cleared col (col + part.length) style).cells = before ++ ((part ++ middle) ++ after))
    (hbefore : before.length = col) (hcol : col + part.length + middle.length = right + 1)
    (hpart : part.length = min count (right + 1 - col)) (hpos : part ≠ []) : row.deleteCells col count right style =
      some ⟨before ++ ((middle ++ blanks part.length style) ++ after), false⟩ := by
  have hlen := congrArg List.length hcells
  have hk := List.length_pos_of_ne_nil hpos
  simp only [length_cleared, List.length_append] at hlen
  have hturn : onRange (before ++ ((part ++ middle) ++ after)) col (right + 1) (rotateLeft part.length) =
      some (before ++ ((middle ++ part) ++ after)) := by
    rw [onRange_append hbefore (by rw [List.length_append]; omega), rotateLeft_append]
  have hblank : onRange (before ++ ((middle ++ part) ++ after)) (right + 1 - part.length) (right + 1)
      (fun _ => blanks part.length style) = some (before ++ ((middle ++ blanks part.length style) ++ after)) := by
    rw [List.append_assoc middle, ← List.append_assoc before,
      onRange_append (by rw [List.length_append]; omega) (by omega),
      List.append_assoc, List.append_assoc]
  unfold deleteCells
  rw [if_neg (by omega), ← hpart]
  dsimp only
  rw [if_neg (by omega)]
  unfold cleared at hcells
  rw [hcells, hturn, Option.bind_eq_bind, Option.bind_some, hblank]
  rfl

theorem length_blanks (count : ℕ) : (blanks count style).length = count := List.length_replicate

theorem insertBlanks_gives (count right : ℕ) {P : List Cell → Prop} (hsame : P row.cells)
    (hedit : ∀ before middle part after, (row.parted col style).cells = before ++ ((middle ++ part) ++ after) →
      before.length = col → col + middle.length + part.length = right + 1 →
      P (shut (before ++ ((blanks part.length style ++ middle) ++ after)) right style)) :
    Gives (row.insertBlanks col count right style) fun row => P row.cells := by
  by_cases hin : col ≤ right ∧ right < row.cells.length ∧ 0 < count
  · have hroom : col + (right + 1 - col - min count (right + 1 - col)) + min count (right + 1 - col) ≤
        (row.parted col style).cells.length := by
      rw [length_parted]
      omega
    obtain ⟨before, middle, part, after, hcells, hbefore, hmiddle, hpart⟩ := exists_parts hroom
    have hpos : part ≠ [] := fun h => by
      rw [h, List.length_nil] at hpart
      omega
    exact ⟨_, insertBlanks_eq style hcells hbefore (by omega) hpart hpos,
      hedit _ _ _ _ hcells hbefore (by omega)⟩
  · refine ⟨row, ?_, hsame⟩
    unfold insertBlanks
    split
    · rfl
    · dsimp only
      rw [if_pos (by omega)]

theorem deleteCells_gives (count right : ℕ) {P : List Cell → Prop} (hsame : P row.cells)
    (hedit : ∀ before middle part after,
      (row.cleared col (col + part.length) style).cells = before ++ ((part ++ middle) ++ after) →
      before.length = col → part ≠ [] → col + part.length + middle.length = right + 1 →
      P (before ++ ((middle ++ blanks part.length style) ++ after))) :
    Gives (row.deleteCells col count right style) fun row => P row.cells := by
  by_cases hin : col ≤ right ∧ right < row.cells.length ∧ 0 < count
  · have hroom : col + min count (right + 1 - col) + (right + 1 - col - min count (right + 1 - col)) ≤
        (row.cleared col (col + min count (right + 1 - col)) style).cells.length := by
      rw [length_cleared]
      omega
    obtain ⟨before, part, middle, after, hcells, hbefore, hpart, hmiddle⟩ := exists_parts hroom
    have hpos : part ≠ [] := fun h => by
      rw [h, List.length_nil] at hpart
      omega
    rw [← hpart] at hcells
    exact ⟨_, deleteCells_eq style hcells hbefore (by omega) hpart hpos, hedit _ _ _ _ hcells hbefore hpos (by omega)⟩
  · refine ⟨row, ?_, hsame⟩
    unfold deleteCells
    split
    · rfl
    · dsimp only
      rw [if_pos (by omega)]

end Row

/-- How a run of plain characters is written over the cells of a row. -/
def asciiRow (start stop : ℕ) (bytes : List Char) (style : StyleId) (row : Row) : Option Row := do
  let row ← Grid.clearOwn row start
  let row ← if 0 < stop then Grid.clearOwn row (stop - 1) else some row
  let cells ← onRange row.cells start stop fun old => (bytes.take old.length).map fun b => ⟨.ofScalar b 1, style⟩
  some { row with cells := cells }

theorem length_clearOwn {row : Row} {col : ℕ} (h : col < row.cells.length) :
    Gives (Grid.clearOwn row col) fun row' => row'.cells.length = row.cells.length :=
  (gives_getElem h).bind fun _ _ => .pure (Row.length_clearWide _ _ _)

theorem length_asciiRow {row : Row} {start stop : ℕ} (hstart : start < stop) (hstop : stop ≤ row.cells.length)
    {bytes : List Char} (hbytes : stop - start ≤ bytes.length) (style : StyleId) :
    Gives (asciiRow start stop bytes style row) fun row' => row'.cells.length = row.cells.length := by
  unfold asciiRow
  refine (length_clearOwn (by omega)).bind fun row₁ h₁ => ?_
  rw [if_pos (by omega)]
  refine (length_clearOwn (by omega)).bind fun row₂ h₂ => ?_
  refine (gives_onRange (by omega) (by omega) _).bind fun cells hcells => .pure ?_
  subst hcells
  simp only [List.length_append, List.length_map, List.length_take, List.length_drop]
  omega

/-- A text whose cluster, if it is one, is in a table of so many. -/
def CellText.Known (n : ℕ) : CellText → Prop
  | .grapheme i _ => i < n
  | _ => True

def Known (n : ℕ) (cells : List Cell) : Prop := ∀ cell ∈ cells, cell.text.Known n

section known

variable {n m : ℕ} {cells cells' : List Cell} {cell : Cell} {row : Row} {text : CellText}

theorem CellText.Known.mono (h : text.Known n) (hn : n ≤ m) : text.Known m := by
  cases text with
  | grapheme i w => exact Nat.lt_of_lt_of_le h hn
  | _ => trivial

theorem Cell.known_blank (style : StyleId) : (Cell.blank style).text.Known n := trivial

theorem CellText.Known.withWidth (h : text.Known n) (width : ℕ) : (text.withWidth width).Known n := by
  cases text <;> exact h

theorem Known.mono (h : Known n cells) (hn : n ≤ m) : Known m cells := fun cell hcell => (h cell hcell).mono hn

theorem Known.subset (h : Known n cells') (hsub : cells ⊆ cells') : Known n cells := fun cell hcell =>
    h cell (hsub hcell)

theorem Known.append (h : Known n cells) (h' : Known n cells') : Known n (cells ++ cells') := fun cell hcell =>
  (List.mem_append.mp hcell).elim (h cell) (h' cell)

theorem known_replicate {cell : Cell} (h : cell.text.Known n) (count : ℕ) : Known n (List.replicate count cell) :=
  fun c hc => by
  rw [List.eq_of_mem_replicate hc]
  exact h

theorem known_blanks (count : ℕ) (style : StyleId) : Known n (Row.blanks count style) :=
  known_replicate (Cell.known_blank style) count

theorem Known.set (h : Known n cells) (i : ℕ) {cell : Cell} (hcell : cell.text.Known n) :
    Known n (cells.set i cell) := fun c hc => by
  rcases List.mem_or_eq_of_mem_set hc with hc | rfl
  · exact h c hc
  · exact hcell

theorem Known.blankOther (h : Known n row.cells) (col : ℕ) (style : StyleId) :
    Known n (row.blankOther col style).cells := by
  unfold Row.blankOther
  split
  · exact h
  · exact h.set _ trivial

theorem Known.clearWide (h : Known n row.cells) (col : ℕ) (style : StyleId) :
    Known n (row.clearWide col style).cells := by
  unfold Row.clearWide
  split
  · exact h
  · split
    · exact h.blankOther _ _
    · split
      · exact h.blankOther _ _
      · exact h

theorem Known.put (h : Known n row.cells) (col : ℕ) (hcell : cell.text.Known n) : Known n (row.set col cell).cells := by
  unfold Row.set
  split
  · exact h
  · exact (h.clearWide _ _).set _ hcell

theorem Known.erase (h : Known n row.cells) (col : ℕ) (style : StyleId) : Known n (row.erase col style).cells := by
  unfold Row.erase
  split
  · exact h
  · have hset := Known.set (h.clearWide col style) col (Cell.known_blank style)
    dsimp only
    split <;> split <;> exact hset

theorem Known.insertBlanks (h : Known n row.cells) (col count right : ℕ) (style : StyleId) :
    Only (row.insertBlanks col count right style) fun row => Known n row.cells := by
  unfold Row.insertBlanks
  split
  · exact .pure h
  · dsimp only
    split
    · exact .pure h
    · have hturned (row : Row) (h : Known n row.cells) : Only (do
          let cells ← onRange row.cells col (right + 1) (rotateRight (min count (right + 1 - col)))
          let cells ← onRange cells col (col + min count (right + 1 - col)) fun _ =>
            Row.blanks (min count (right + 1 - col)) style
          let last ← cells[right]?
          let cells := if last.isWide then cells.set right (.blank style) else cells
          some (⟨cells, false⟩ : Row)) fun row => Known n row.cells := by
        refine (only_onRange h (fun l hl a ha => hl a (mem_rotateRight.mp ha)) _ _).bind fun cells hcells => ?_
        refine (only_onRange hcells (fun _ _ => known_blanks _ style) _ _).bind fun cells hcells => ?_
        refine .after fun last => .pure ?_
        dsimp only
        split
        · exact Known.set hcells _ trivial
        · exact hcells
      split
      · exact fun _ hrow => by cases hrow
      · split
        · exact hturned _ ((h.clearWide col style).set col trivial)
        · exact hturned _ h

theorem Known.deleteCells (h : Known n row.cells) (col count right : ℕ) (style : StyleId) :
    Only (row.deleteCells col count right style) fun row => Known n row.cells := by
  unfold Row.deleteCells
  split
  · exact .pure h
  · dsimp only
    split
    · exact .pure h
    · have hcleared := (h.clearWide col style).clearWide (col + min count (right + 1 - col) - 1) style
      refine (only_onRange hcleared (fun l hl a ha => hl a (mem_rotateLeft.mp ha)) _ _).bind fun cells hcells => ?_
      refine (only_onRange hcells (fun _ _ => known_blanks _ style) _ _).bind fun cells hcells => ?_
      exact .pure hcells

theorem Known.asciiRow (h : Known n row.cells) (start stop : ℕ) (bytes : List Char) (style : StyleId) :
    Only (asciiRow start stop bytes style row) fun row => Known n row.cells := by
  have hclear (row : Row) (h : Known n row.cells) (col : ℕ) : Only (Grid.clearOwn row col) fun row =>
    Known n row.cells :=
    .after fun _ => .pure (h.clearWide _ _)
  have hwrite (row : Row) (h : Known n row.cells) : Only (do
      let cells ← onRange row.cells start stop fun old => (bytes.take old.length).map fun b => ⟨.ofScalar b 1, style⟩
      some { row with cells := cells }) fun row => Known n row.cells := by
    refine (only_onRange h (fun l _ a ha => ?_) _ _).bind fun cells hcells => .pure hcells
    obtain ⟨b, -, rfl⟩ := List.mem_map.mp ha
    trivial
  unfold Term.asciiRow
  refine (hclear row h start).bind fun row h => ?_
  split
  · exact (hclear row h _).bind hwrite
  · exact hwrite row h

theorem Known.clear (row : Row) (style : StyleId) : Known n (row.clear style).cells := fun cell hcell => by
  obtain ⟨_, -, rfl⟩ := List.mem_map.mp hcell
  trivial

end known

end Term

end Dekit
