import Mathlib.Data.List.Dedup
import Mathlib.Data.List.Perm.Subperm
import Dekit.Term.Scrollback

/-! What rows show, apart from the tables that their cells refer to. -/

namespace Dekit

namespace Term

/-- What a row shows: for each cell its text, for the right half of a wide cell none. -/
structure ShownRow where
  cells : List (Option (List Char))
  wrapped : Bool
deriving DecidableEq

def Cell.shown (g : GraphemeTable) (c : Cell) : Option (List Char) :=
  if c.isContinuation then none else some (c.text.asStr g)

def Row.shown (g : GraphemeTable) (r : Row) : ShownRow := ⟨r.cells.map (Cell.shown g), r.wrapped⟩

/-- The text of a cell: a blank was stored as a space. -/
def LineCell.shown (cell : LineCell) : List Char := if cell.text = [' '] then [] else cell.text

variable {charWidth : Char → Option ℕ} {w : ℕ} {lines : List Line} {g g' : GraphemeTable}

section room

def clusters (charWidth : Char → Option ℕ) (lines : List Line) : List (List Char) :=
  ((lines.flatMap fun line => (line.lineCells charWidth).map LineCell.text).filter fun text => 2 ≤ text.length).dedup

/-- There is room in a table for the clusters of lines. -/
def Roomy (charWidth : Char → Option ℕ) (lines : List Line) (g : GraphemeTable) : Prop :=
  g.length + ((clusters charWidth lines).filter fun text => text ∉ g).length ≤ maxGraphemes

theorem clusters_nodup : (clusters charWidth lines).Nodup := List.nodup_dedup _

theorem mem_clusters {line : Line} {cell : LineCell} (hline : line ∈ lines) (hcell : cell ∈ line.lineCells charWidth)
    (hlen : 2 ≤ cell.text.length) : cell.text ∈ clusters charWidth lines := by
  apply List.mem_dedup.mpr
  apply List.mem_filter.mpr
  exact ⟨List.mem_flatMap.mpr ⟨line, hline, List.mem_map_of_mem hcell⟩, by simpa using hlen⟩

theorem Roomy.initial (h : Roomy charWidth lines g') (hg : g <+: g') : Roomy charWidth lines g := by
  obtain ⟨rest, rfl⟩ := hg
  have hrest : ((clusters charWidth lines).filter fun text => text ∉ g).length ≤
      ((clusters charWidth lines).filter fun text => text ∉ g ++ rest).length + rest.length := by
    have hsub : ((clusters charWidth lines).filter fun text => text ∉ g) ⊆
        ((clusters charWidth lines).filter fun text => text ∉ g ++ rest) ++ rest := by
      intro text hmem
      simp only [List.mem_append, List.mem_filter, decide_eq_true_eq, not_or] at hmem ⊢
      tauto
    have hle := (List.Nodup.subperm (clusters_nodup.filter _) hsub).length_le
    rwa [List.length_append] at hle
  unfold Roomy at h ⊢
  rw [List.length_append] at h
  omega

theorem Roomy.intern {text : List Char} (h : Roomy charWidth lines g) (hmem : text ∈ clusters charWidth lines) :
    ∃ i, (g.intern text).1 = some i ∧ (g.intern text).2[i]? = some text ∧ Roomy charWidth lines (g.intern text).2 := by
  unfold GraphemeTable.intern GraphemeTable.lookup
  cases hfind : g.findIdx? (· = text) with
  | some i => exact ⟨i, rfl, getElem?_of_findIdx? hfind, h⟩
  | none =>
    have hnew : text ∉ g := fun hin => (by simpa using hfind : ∀ c ∈ g, ¬ c = text) text hin rfl
    have hsplit : ((clusters charWidth lines).filter fun c => c ∉ g ++ [text]).length + 1 ≤
        ((clusters charWidth lines).filter fun c => c ∉ g).length := by
      have hsub : text :: ((clusters charWidth lines).filter fun c => c ∉ g ++ [text]) ⊆
          (clusters charWidth lines).filter fun c => c ∉ g := by
        intro c hc
        rcases List.mem_cons.mp hc with rfl | hc
        · simpa using ⟨hmem, hnew⟩
        · simp only [List.mem_append, List.mem_filter, decide_eq_true_eq, not_or] at hc ⊢
          exact ⟨hc.1, hc.2.1⟩
      have hnodup : (text :: ((clusters charWidth lines).filter fun c => c ∉ g ++ [text])).Nodup := by
        apply List.nodup_cons.mpr
        exact ⟨by simp, clusters_nodup.filter _⟩
      exact (List.Nodup.subperm hnodup hsub).length_le
    unfold Roomy at h
    simp only
    rw [if_neg (by omega)]
    refine ⟨g.length, rfl, List.getElem?_concat_length, ?_⟩
    change Roomy charWidth lines (g ++ [text])
    unfold Roomy
    rw [List.length_append, List.length_singleton]
    omega

theorem Roomy.length_le (h : Roomy charWidth lines g) : g.length ≤ 16777216 := by
  unfold Roomy maxGraphemes at h
  omega

end room

section layout

theorem Roomy.cellText (h : Roomy charWidth lines g) {line : Line} {cell : LineCell} (hline : line ∈ lines)
    (hcell : cell ∈ line.lineCells charWidth) (style : StyleId) :
    Roomy charWidth lines (Line.cellText cell.text cell.width g).2 ∧
      ∀ g', (Line.cellText cell.text cell.width g).2 <+: g' →
        Cell.shown g' ⟨(Line.cellText cell.text cell.width g).1, style⟩ = some cell.shown := by
  unfold Line.cellText LineCell.shown
  split_ifs with hspace
  · exact ⟨h, fun _ _ => rfl⟩
  · unfold CellText.of
    match htext : cell.text with
    | [] => exact ⟨h, fun _ _ => rfl⟩
    | [c] => exact ⟨h, fun _ _ => rfl⟩
    | c :: c' :: rest =>
      have hmem : cell.text ∈ clusters charWidth lines := mem_clusters hline hcell (by simp [htext])
      rw [htext] at hmem
      obtain ⟨i, hi, hget, hroom⟩ := h.intern hmem
      dsimp only
      rw [show GraphemeTable.intern g (c :: c' :: rest) = (some i, (GraphemeTable.intern g (c :: c' :: rest)).2) from
        Prod.ext hi rfl]
      refine ⟨hroom, fun g' hg' => ?_⟩
      have hbound : i < 16777216 := Nat.lt_of_lt_of_le (List.getElem?_eq_some_iff.mp hget).1 hroom.length_le
      have hget' := getElem?_of_initial hg' hget
      simp [Cell.shown, Cell.isContinuation, CellText.ofGrapheme, CellText.isContinuation, CellText.asStr,
        Nat.mod_eq_of_lt hbound, GraphemeTable.get, hget']

namespace Line

def shownPadded (width : ℕ) (cells : List (Option (List Char))) : List (Option (List Char)) :=
  cells.take width ++ List.replicate (width - cells.length) (some [])

/-- What rows in the making show: those done, the cells of the next one, and its place among the rows. -/
structure ShownLayout where
  rows : List ShownRow
  cells : List (Option (List Char))
  current : ℕ

def showCell (width : ℕ) (s : ShownLayout) (p : LineCell × (ℕ × ℕ)) : ShownLayout :=
  if p.1.width = 0 then s
  else
    let s := if p.2.1 ≠ s.current then ⟨s.rows ++ [⟨shownPadded width s.cells, true⟩], [], p.2.1⟩ else s
    { s with cells := s.cells ++ some p.1.shown :: if p.1.width = 2 then [none] else [] }

/-- What the rows of the line show at a width. -/
def shownRows (charWidth : Char → Option ℕ) (l : Line) (width : ℕ) : List ShownRow :=
  let width := max width 1
  let s := ((l.lineCells charWidth).zip (wrap (l.widths charWidth) width)).foldl (showCell width) ⟨[], [], 0⟩
  s.rows ++ [⟨shownPadded width s.cells, false⟩]

theorem length_shownPadded (width : ℕ) (cells : List (Option (List Char))) :
    (shownPadded width cells).length = width := by
  unfold shownPadded
  rw [List.length_append, List.length_take, List.length_replicate]
  omega

theorem showCell_width {width : ℕ} {s : ShownLayout} (hs : ∀ row ∈ s.rows, row.cells.length = width)
    (p : LineCell × (ℕ × ℕ)) : ∀ row ∈ (showCell width s p).rows, row.cells.length = width := by
  unfold showCell
  by_cases hzero : p.1.width = 0
  · rw [if_pos hzero]
    exact hs
  rw [if_neg hzero]
  by_cases hrow : p.2.1 ≠ s.current
  · simp only [if_pos hrow]
    intro row hmem
    rcases List.mem_append.mp hmem with hmem | hmem
    · exact hs row hmem
    · obtain rfl := List.mem_singleton.mp hmem
      exact length_shownPadded _ _
  · simp only [if_neg hrow]
    exact hs

theorem shownRows_width {l : Line} {row : ShownRow} (hrow : row ∈ l.shownRows charWidth w) :
    row.cells.length = max w 1 := by
  have hfold (ps : List (LineCell × (ℕ × ℕ))) : ∀ s : ShownLayout, (∀ row ∈ s.rows, row.cells.length = max w 1) →
      ∀ row ∈ (ps.foldl (showCell (max w 1)) s).rows, row.cells.length = max w 1 := by
    induction ps with
    | nil => exact fun s hs => hs
    | cons p ps ih => exact fun s hs => ih _ (showCell_width hs p)
  rcases List.mem_append.mp hrow with hrow | hrow
  · exact hfold _ ⟨[], [], 0⟩ (fun _ h => absurd h List.not_mem_nil) row hrow
  · obtain rfl := List.mem_singleton.mp hrow
    exact length_shownPadded _ _

namespace Layout

def shown (g : GraphemeTable) (s : Layout) : ShownLayout :=
  ⟨s.rows.map (Row.shown g), s.cells.map (Cell.shown g), s.current⟩

theorem shown_fromCells (g : GraphemeTable) (cells : List Cell) (width : ℕ) :
    (Row.fromCells cells width).shown g = ⟨shownPadded width (cells.map (Cell.shown g)), false⟩ := by
  simp [Row.fromCells, Row.shown, shownPadded, List.map_take, Cell.shown, Cell.empty, Cell.isContinuation,
    CellText.isContinuation, CellText.asStr]

theorem shown_paddedRow (g : GraphemeTable) (cells : List Cell) (width : ℕ) :
    (paddedRow cells width).shown g = ⟨shownPadded width (cells.map (Cell.shown g)), true⟩ := by
  unfold paddedRow Row.fromCells Row.wrap Row.shown shownPadded
  have hnone : width - (cells.length + (width - cells.length)) = 0 := by omega
  simp [List.map_take, Cell.shown, Cell.filler, Cell.isContinuation, CellText.isContinuation, CellText.asStr,
    List.take_append, hnone]

theorem shown_newRow (g : GraphemeTable) (s : Layout) (row : ℕ) : (s.newRow w row).shown g =
    ⟨(s.shown g).rows ++ [⟨shownPadded w (s.shown g).cells, true⟩], [], row⟩ := by
  unfold newRow shown
  rw [List.map_append, List.map_singleton, shown_paddedRow]
  rfl

theorem shown_put {s : Layout} {line : Line} {cell : LineCell} (hr : Roomy charWidth lines s.tables.graphemes)
    (hline : line ∈ lines) (hcell : cell ∈ line.lineCells charWidth) :
    Roomy charWidth lines (put cell s).tables.graphemes ∧ ∀ g, (put cell s).tables.graphemes <+: g →
      (put cell s).shown g =
      { s.shown g with cells := (s.shown g).cells ++ some cell.shown :: if cell.width = 2 then [none] else [] } := by
  have htext := hr.cellText hline hcell (s.tables.styles.intern cell.style).1
  refine ⟨htext.1, fun g hg => ?_⟩
  have hshown := htext.2 g hg
  unfold put shown
  split_ifs <;> simp only [List.map_append, List.map_singleton, hshown, List.append_assoc]
  · rfl

theorem put_grows (s : Layout) (cell : LineCell) : s.tables.graphemes <+: (put cell s).tables.graphemes :=
  cellText_grows _ _ _

theorem shown_layCell {s : Layout} {line : Line} {p : LineCell × (ℕ × ℕ)}
    (hr : Roomy charWidth lines s.tables.graphemes)
    (hline : line ∈ lines) (hcell : p.1 ∈ line.lineCells charWidth) :
    Roomy charWidth lines (layCell w s p).tables.graphemes ∧ s.tables.graphemes <+: (layCell w s p).tables.graphemes ∧
      ∀ g, (layCell w s p).tables.graphemes <+: g → (layCell w s p).shown g = showCell w (s.shown g) p := by
  obtain ⟨cell, q⟩ := p
  rw [layCell_eq]
  unfold showCell
  simp only
  by_cases hzero : cell.width = 0
  · rw [if_pos hzero]
    exact ⟨hr, List.prefix_refl _, fun _ _ => (if_pos hzero).symm⟩
  rw [if_neg hzero]
  by_cases hrow : q.1 ≠ s.current
  · rw [if_pos hrow]
    obtain ⟨hroom, hshown⟩ := shown_put (s := s.newRow w q.1) hr hline hcell
    refine ⟨hroom, put_grows (s.newRow w q.1) cell, fun g hg => ?_⟩
    rw [hshown g hg, shown_newRow, if_neg hzero, if_pos (show q.1 ≠ (s.shown g).current from hrow)]
  · rw [if_neg hrow]
    obtain ⟨hroom, hshown⟩ := shown_put hr hline hcell
    refine ⟨hroom, put_grows s cell, fun g hg => ?_⟩
    rw [hshown g hg, if_neg hzero, if_neg (show ¬ q.1 ≠ (s.shown g).current from hrow)]

theorem shown_foldl {line : Line} (hline : line ∈ lines) (ps : List (LineCell × (ℕ × ℕ)))
    (hcells : ∀ p ∈ ps, p.1 ∈ line.lineCells charWidth) {s : Layout} (hr : Roomy charWidth lines s.tables.graphemes) :
    Roomy charWidth lines (ps.foldl (layCell w) s).tables.graphemes ∧
      s.tables.graphemes <+: (ps.foldl (layCell w) s).tables.graphemes ∧
      ∀ g, (ps.foldl (layCell w) s).tables.graphemes <+: g →
        (ps.foldl (layCell w) s).shown g = ps.foldl (showCell w) (s.shown g) := by
  induction ps generalizing s with
  | nil => exact ⟨hr, List.prefix_refl _, fun _ _ => rfl⟩
  | cons p ps ih =>
    obtain ⟨hroom, hgrows, hshown⟩ := shown_layCell (w := w) hr hline (hcells p List.mem_cons_self)
    obtain ⟨hroom', hgrows', hshown'⟩ := ih (fun q hq => hcells q (List.mem_cons_of_mem _ hq)) hroom
    refine ⟨hroom', hgrows.trans hgrows', fun g hg => ?_⟩
    rw [List.foldl_cons, List.foldl_cons, hshown' g hg, hshown g (hgrows'.trans hg)]

end Layout

theorem shown_rows {line : Line} {t : Tables} (hr : Roomy charWidth lines t.graphemes) (hline : line ∈ lines) :
    Roomy charWidth lines (line.rows charWidth w t).2.graphemes ∧
      t.graphemes <+: (line.rows charWidth w t).2.graphemes ∧
      ∀ g, (line.rows charWidth w t).2.graphemes <+: g →
        (line.rows charWidth w t).1.map (Row.shown g) = line.shownRows charWidth w := by
  have hcells : ∀ p ∈ (line.lineCells charWidth).zip (wrap (line.widths charWidth) (max w 1)),
      p.1 ∈ line.lineCells charWidth := fun p hp => (List.of_mem_zip hp).1
  obtain ⟨hroom, hgrows, hshown⟩ := Layout.shown_foldl (w := max w 1) hline _ hcells (s := ⟨[], [], 0, t⟩) hr
  refine ⟨hroom, hgrows, fun g hg => ?_⟩
  have hs := hshown g hg
  unfold rows shownRows
  simp only [List.map_append, List.map_singleton, Layout.shown_fromCells]
  exact congrArg₂ (fun rows cells => rows ++ [⟨shownPadded (max w 1) cells, false⟩])
    (congrArg ShownLayout.rows hs) (congrArg ShownLayout.cells hs)

end Line

end layout

section above

def shownLines (charWidth : Char → Option ℕ) (w : ℕ) (lines : List Line) : List ShownRow :=
  lines.flatMap fun line => line.shownRows charWidth w

/-- Each line takes as many rows as are counted for it. -/
def Laid (charWidth : Char → Option ℕ) (w : ℕ) (lines : List Line) : Prop :=
  ∀ line ∈ lines, ∀ t, line.rowsAt charWidth w = (line.rows charWidth w t).1.length

theorem Laid.length {t : Tables} (hl : Laid charWidth w lines) (hr : Roomy charWidth lines t.graphemes)
    {part : List Line} (hpart : part ⊆ lines) : (shownLines charWidth w part).length = countOf charWidth w part := by
  induction part with
  | nil => rfl
  | cons line part ih =>
    obtain ⟨hline, hpart⟩ := List.cons_subset.mp hpart
    obtain ⟨-, -, hshown⟩ := Line.shown_rows (w := w) (t := t) hr hline
    have hlen := congrArg List.length (hshown _ (List.prefix_refl _))
    rw [List.length_map] at hlen
    rw [countOf_cons, hl line hline t, hlen, ← ih hpart]
    exact List.length_append

namespace History

theorem shown_rowsOf {count : ℕ} (hcount : 0 < count) {part : List Line} (hpart : part ⊆ lines) (skip : ℕ)
    (rows : List Row)
    {t : Tables} (hr : Roomy charWidth lines t.graphemes) (hrows : rows.length < count) :
    Roomy charWidth lines (rowsOf charWidth w count skip rows t part).2.graphemes ∧
      t.graphemes <+: (rowsOf charWidth w count skip rows t part).2.graphemes ∧
      ∀ g, (rowsOf charWidth w count skip rows t part).2.graphemes <+: g →
        (rowsOf charWidth w count skip rows t part).1.map (Row.shown g) =
          (rows.map (Row.shown g) ++ (shownLines charWidth w part).drop skip).take count := by
  induction part generalizing skip rows t with
  | nil =>
    refine ⟨hr, List.prefix_refl _, fun g _ => ?_⟩
    rw [rowsOf, shownLines, List.flatMap_nil, List.drop_nil, List.append_nil,
      List.take_of_length_le (by rw [List.length_map]; exact Nat.le_of_lt hrows)]
  | cons line part ih =>
    obtain ⟨hline, hpart⟩ := List.cons_subset.mp hpart
    obtain ⟨hroom, hgrows, hshown⟩ := Line.shown_rows (w := w) hr hline
    have hlines : shownLines charWidth w (line :: part) = line.shownRows charWidth w ++ shownLines charWidth w part :=
      List.flatMap_cons
    rw [rowsOf, hlines]
    simp only
    split_ifs with henough
    · refine ⟨hroom, hgrows, fun g hg => ?_⟩
      have hrest : ((rows ++ (line.rows charWidth w t).1.drop skip).map (Row.shown g)).length =
          (rows ++ (line.rows charWidth w t).1.drop skip).length := List.length_map _
      rw [List.drop_append, ← List.append_assoc, List.map_take, ← hshown g hg, ← List.map_drop, ← List.map_append,
        List.take_append_of_le_length (by rw [hrest]; exact henough.2)]
    · have hfew : (rows ++ (line.rows charWidth w t).1.drop skip).length < count := by
        by_contra h
        exact henough ⟨hcount, Nat.not_lt.mp h⟩
      obtain ⟨hroom', hgrows', hshown'⟩ := ih hpart (skip - (line.rows charWidth w t).1.length) _ hroom hfew
      refine ⟨hroom', hgrows.trans hgrows', fun g hg => ?_⟩
      have hline' := hshown g (hgrows'.trans hg)
      have hlen : (line.shownRows charWidth w).length = (line.rows charWidth w t).1.length := by
        rw [← hline', List.length_map]
      rw [hshown' g hg, List.map_append, List.map_drop, hline', List.drop_append, hlen, List.append_assoc]

theorem shown_rowsAbove {h : History} {offset count : ℕ} (hcount : 0 < count) {t : Tables}
    (hl : Laid charWidth w h.lines) (hr : Roomy charWidth h.lines t.graphemes)
    (hoffset : offset ≤ countOf charWidth w h.lines) :
    Roomy charWidth h.lines (h.rowsAbove charWidth offset count w t).2.graphemes ∧
      t.graphemes <+: (h.rowsAbove charWidth offset count w t).2.graphemes ∧
      ∀ g, (h.rowsAbove charWidth offset count w t).2.graphemes <+: g →
        (h.rowsAbove charWidth offset count w t).1.map (Row.shown g) =
          ((shownLines charWidth w h.lines).drop (countOf charWidth w h.lines - offset)).take count := by
  obtain ⟨taken, rest, hlines, hcover, hrest, -⟩ := covering_spec charWidth w offset 0 h.lines.reverse
  have hsplit : h.lines = rest.reverse ++ taken.reverse := by
    rw [← List.reverse_append, ← hlines, List.reverse_reverse]
  have htaken : taken.reverse ⊆ h.lines := by
    rw [hsplit]
    exact List.subset_append_right _ _
  have hbefore : rest.reverse ⊆ h.lines := by
    rw [hsplit]
    exact List.subset_append_left _ _
  rw [Nat.zero_add] at hcover hrest
  unfold rowsAbove
  rw [hcover]
  obtain ⟨hroom, hgrows, hshown⟩ :=
    shown_rowsOf (w := w) hcount htaken (countOf charWidth w taken - offset) [] hr hcount
  refine ⟨hroom, hgrows, fun g hg => ?_⟩
  have htotal : countOf charWidth w h.lines = countOf charWidth w rest + countOf charWidth w taken := by
    rw [hsplit, countOf_append, countOf_reverse, countOf_reverse]
  have hall : shownLines charWidth w h.lines = shownLines charWidth w rest.reverse ++ shownLines charWidth w taken.reverse := by
    unfold shownLines
    rw [← List.flatMap_append, ← hsplit]
  have hlen := hl.length hr hbefore
  rw [countOf_reverse] at hlen
  have hskip : countOf charWidth w h.lines - offset = countOf charWidth w rest +
    (countOf charWidth w taken - offset) := by
    rcases hrest with rfl | henough
    · rw [countOf_nil] at *
      omega
    · omega
  rw [hshown g hg, List.map_nil, List.nil_append, hall, hskip, ← hlen, List.drop_append, Nat.add_sub_cancel_left,
    List.drop_of_length_le (Nat.le_add_right _ _), List.nil_append]

end History

end above

end Term

end Dekit
