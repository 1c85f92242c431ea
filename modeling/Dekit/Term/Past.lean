import Dekit.Term.RowEdits
import Dekit.Term.Scrollback

/-! What a grid has above its rows: the history, and the rows of it that are in view. -/

namespace Dekit

namespace Term

variable {charWidth : Char → Option ℕ} {width n m : ℕ} {rows rows' : List Row} {cells : List Cell}
    {g g' : GraphemeTable}

theorem TextOf.known {text : List Char} {t : CellText} (h : TextOf g text width t) : t.Known g.length := by
  cases h with
  | cluster _ hi => exact Nat.lt_of_le_of_lt (Nat.mod_le _ _) (List.getElem?_eq_some_iff.mp hi).1
  | _ => trivial

theorem CellText.of_known (g : GraphemeTable) (text : List Char) (width : ℕ) :
    (CellText.of text width g).1.Known (CellText.of text width g).2.length := by
  by_cases hspace : text = [' ']
  · subst hspace
    trivial
  · have hspec := cellText_spec g text width
    unfold Line.cellText at hspec
    rw [if_neg hspace] at hspec
    exact hspec.known

def Wide (width m : ℕ) (rows : List Row) : Prop := ∀ row ∈ rows, row.cells.length = width ∧ Known m row.cells

namespace Wide

theorem nil : Wide width m [] := fun _ h => by cases h

theorem append (h : Wide width m rows) (h' : Wide width m rows') : Wide width m (rows ++ rows') := fun row hrow =>
  (List.mem_append.mp hrow).elim (h row) (h' row)

theorem subset (h : Wide width m rows') (hsub : rows ⊆ rows') : Wide width m rows := fun row hrow => h row (hsub hrow)

theorem mono (h : Wide width n rows) (hn : n ≤ m) : Wide width m rows := fun row hrow =>
  ⟨(h row hrow).1, (h row hrow).2.mono hn⟩

end Wide

theorem length_fromCells (cells : List Cell) (cols : ℕ) : (Row.fromCells cells cols).cells.length = cols := by
  unfold Row.fromCells
  rw [List.length_append, List.length_take, List.length_replicate]
  omega

theorem Known.fromCells (h : Known m cells) (cols : ℕ) : Known m (Row.fromCells cells cols).cells :=
  (h.subset (List.take_subset _ _)).append (known_replicate (by trivial) _)

theorem Wide.single (h : Known m cells) (width : ℕ) : Wide width m [.fromCells cells width] := fun row hrow => by
  rw [List.mem_singleton.mp hrow]
  exact ⟨length_fromCells _ _, h.fromCells _⟩

namespace Line

/-- The rows in the making have a width, and all they refer to is in the tables. -/
structure Layout.Sealed (width : ℕ) (s : Layout) : Prop where
  rows : Wide width s.tables.graphemes.length s.rows
  cells : Known s.tables.graphemes.length s.cells

theorem Layout.Sealed.put {s : Layout} (h : s.Sealed width) (cell : LineCell) : (Layout.put cell s).Sealed width := by
  have hle : s.tables.graphemes.length ≤ (Layout.put cell s).tables.graphemes.length :=
    (cellText_grows s.tables.graphemes cell.text cell.width).length_le
  refine ⟨h.rows.mono hle, ?_⟩
  rw [Layout.put_cells]
  refine (h.cells.mono hle).append fun c hc => ?_
  rcases List.mem_cons.mp hc with rfl | hc
  · exact (cellText_spec _ _ _).known
  · split at hc
    · rw [List.mem_singleton.mp hc]
      trivial
    · cases hc

theorem Layout.Sealed.newRow {s : Layout} (h : s.Sealed width) (row : ℕ) : (s.newRow width row).Sealed width := by
  refine ⟨h.rows.append ?_, fun _ hc => by cases hc⟩
  have hpadded : Known s.tables.graphemes.length
      (s.cells ++ List.replicate (width - s.cells.length) (.filler ((s.cells.getLast?.map Cell.style).getD 0))) :=
    h.cells.append (known_replicate (by trivial) _)
  intro r hr
  rw [List.mem_singleton.mp hr]
  exact ⟨length_fromCells _ _, hpadded.fromCells _⟩

theorem Layout.Sealed.layCell {s : Layout} (h : s.Sealed width) (p : LineCell × (ℕ × ℕ)) :
    (layCell width s p).Sealed width ∧ s.tables.graphemes <+: (layCell width s p).tables.graphemes := by
  obtain ⟨cell, q⟩ := p
  rw [layCell_eq]
  split
  · exact ⟨h, List.prefix_refl _⟩
  · split
    · exact ⟨(h.newRow q.1).put cell, cellText_grows _ _ _⟩
    · exact ⟨h.put cell, cellText_grows _ _ _⟩

variable (charWidth) in
theorem rows_wide (l : Line) (width : ℕ) (t : Tables) :
    Wide (max width 1) (l.rows charWidth width t).2.graphemes.length (l.rows charWidth width t).1 ∧
      t.graphemes <+: (l.rows charWidth width t).2.graphemes := by
  have hlaid : ∀ (ps : List (LineCell × (ℕ × ℕ))) (s : Layout), s.Sealed (max width 1) →
      (ps.foldl (layCell (max width 1)) s).Sealed (max width 1) ∧
        s.tables.graphemes <+: (ps.foldl (layCell (max width 1)) s).tables.graphemes := fun ps => by
    induction ps with
    | nil => exact fun s hs => ⟨hs, List.prefix_refl _⟩
    | cons p ps ih =>
      intro s hs
      obtain ⟨hstep, hgrown⟩ := hs.layCell p
      obtain ⟨hrest, hmore⟩ := ih _ hstep
      exact ⟨hrest, hgrown.trans hmore⟩
  obtain ⟨hsealed, hgrown⟩ := hlaid ((l.lineCells charWidth).zip (wrap (l.widths charWidth) (max width 1)))
    ⟨[], [], 0, t⟩ ⟨.nil, fun _ hc => by cases hc⟩
  exact ⟨hsealed.rows.append (.single hsealed.cells _), hgrown⟩

end Line

namespace History

theorem rowsOf_grows (count : ℕ) (lines : List Line) (skip : ℕ) (rows : List Row) (t : Tables) :
    t.graphemes <+: (rowsOf charWidth width count skip rows t lines).2.graphemes := by
  induction lines generalizing skip rows t with
  | nil => exact List.prefix_refl _
  | cons line lines ih =>
    have hline := (line.rows_wide charWidth width t).2
    unfold rowsOf
    dsimp only
    split
    · exact hline
    · exact hline.trans (ih _ _ _)

variable (charWidth) in
theorem rowsAbove_grows (h : History) (offset count width : ℕ) (t : Tables) :
    t.graphemes <+: (h.rowsAbove charWidth offset count width t).2.graphemes := rowsOf_grows _ _ _ _ _

end History

/-- What is above the rows of a grid: its history is counted, the view begins in it, and, unless it is to be laid out
anew, what is in view is what the history has there. -/
structure Past (charWidth : Char → Option ℕ) (size : Size) (history : History) (offset : ℕ) (above : List Row)
    (stale : Bool) (graphemes : GraphemeTable) : Prop where
  counted : history.Counted charWidth
  inside : offset ≤ history.rowsAt charWidth size.width
  view : stale = false → offset ≠ 0 → ∃ t : Tables, t.graphemes <+: graphemes ∧
    (history.rowsAbove charWidth offset (min offset size.height) size.width t).1 = above ∧
    (history.rowsAbove charWidth offset (min offset size.height) size.width t).2.graphemes <+: graphemes

namespace Past

variable {size : Size} {history : History} {offset : ℕ} {above : List Row} {stale : Bool}

theorem live (h : history.Counted charWidth) : Past charWidth size history 0 above stale g :=
  ⟨h, Nat.zero_le _, fun _ hne => absurd rfl hne⟩

theorem staled (hcounted : history.Counted charWidth) (hoffset : offset ≤ history.rowsAt charWidth size.width) :
    Past charWidth size history offset above true g := ⟨hcounted, hoffset, fun hstale => by cases hstale⟩

theorem grown (h : Past charWidth size history offset above stale g) (hg : g <+: g') :
    Past charWidth size history offset above stale g' := by
  refine ⟨h.counted, h.inside, fun hstale hne => ?_⟩
  obtain ⟨t, ht, habove, hgrown⟩ := h.view hstale hne
  exact ⟨t, ht.trans hg, habove, hgrown.trans hg⟩

theorem laid (hcounted : history.Counted charWidth) (hoffset : offset ≤ history.rowsAt charWidth size.width)
    (t : Tables) : Past charWidth size history offset
      (history.rowsAbove charWidth offset (min offset size.height) size.width t).1 false
      (history.rowsAbove charWidth offset (min offset size.height) size.width t).2.graphemes :=
  ⟨hcounted, hoffset, fun _ _ => ⟨t, History.rowsAbove_grows _ _ _ _ _ _, rfl, List.prefix_refl _⟩⟩

end Past

end Term

end Dekit
