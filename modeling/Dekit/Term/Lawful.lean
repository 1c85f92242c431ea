import Dekit.Term.Past

namespace Dekit

namespace Term

open Slice Total

/-- What the rows of a grid are to be and the margins it may have, at a width that 16 bits hold with a wide cell beside
it. Every edit of a row keeps it. -/
structure RowLaw (charWidth : Char → Option ℕ) where
  width : ℕ
  width_pos : 0 < width
  width_le : width ≤ 65533
  Margins : ℕ → ℕ → Prop
  margins_room : ∀ {left right}, Margins left right → left < right ∧ right < width ∨ left = 0 ∧ right = width - 1
  margins_full : Margins 0 (width - 1)
  Cells : List Cell → Prop
  length : ∀ {cells}, Cells cells → cells.length = width
  blank : ∀ style, Cells (List.replicate width (.blank style))
  narrow : ∀ {row : Row} {col text style}, Cells row.cells → text.isWide = false → text.isContinuation = false →
    Cells (row.set col ⟨text, style⟩).cells
  wide : ∀ {row : Row} {col text style}, Cells row.cells → text.isWide = true → col + 1 < width →
    Cells ((row.set col ⟨text, style⟩).set (col + 1) ⟨.continuation, style⟩).cells
  wide_last : ∀ {row : Row} {col text style}, Cells row.cells → text.isWide = true → col + 1 = width →
    Cells ((row.set col ⟨text, style⟩).set col (.filler style)).cells
  erase : ∀ {row : Row} {col style}, Cells row.cells → Cells (row.erase col style).cells
  ascii : ∀ {row : Row} {start stop bytes style}, Cells row.cells → start < stop → stop ≤ width →
    stop - start ≤ bytes.length → Gives (asciiRow start stop bytes style row) fun row => Cells row.cells
  insertBlanks : ∀ {row : Row} {left right col count style}, Margins left right → Cells row.cells →
    Gives (row.insertBlanks col count right style) fun row => Cells row.cells
  deleteCells : ∀ {row : Row} {left right col count style}, Margins left right → Cells row.cells →
    Gives (row.deleteCells col count right style) fun row => Cells row.cells
  copy : ∀ {left right source target}, Margins left right → Cells source → Cells target →
    Cells (target.take left ++ (source.drop left).take (right + 1 - left) ++ target.drop (right + 1))

variable {charWidth : Char → Option ℕ} {L : RowLaw charWidth} {n m : ℕ}

/-- Cells that keep to a law, and whose clusters are in a table of so many. -/
structure RowLaw.Fits (L : RowLaw charWidth) (m : ℕ) (cells : List Cell) : Prop where
  law : L.Cells cells
  known : Known m cells

namespace RowLaw

theorem room {left right : ℕ} (h : L.Margins left right) :
    left ≤ right ∧ right < L.width ∧ left + 2 ≤ max L.width 2 ∧ L.width ≤ 65533 := by
  have hpos := L.width_pos
  have hle := L.width_le
  have := L.margins_room h
  omega

namespace Fits

variable {row : Row} {col left right : ℕ} {text : CellText} {style : StyleId} {cells source target : List Cell}

theorem length (h : L.Fits m cells) : cells.length = L.width := L.length h.law

theorem mono (h : L.Fits m cells) (hn : m ≤ n) : L.Fits n cells := ⟨h.law, h.known.mono hn⟩

variable (L m) in
theorem blank (style : StyleId) : L.Fits m (List.replicate L.width (.blank style)) :=
  ⟨L.blank style, known_blanks _ style⟩

theorem clear (h : L.Fits m row.cells) (style : StyleId) : L.Fits m (row.clear style).cells := by
  have hclear : (row.clear style).cells = List.replicate L.width (.blank style) := by
    unfold Row.clear
    rw [List.map_const', h.length]
  rw [hclear]
  exact blank L m style

theorem narrow (h : L.Fits m row.cells) (hwide : text.isWide = false) (hhalf : text.isContinuation = false)
    (hknown : text.Known m) : L.Fits m (row.set col ⟨text, style⟩).cells :=
  ⟨L.narrow h.law hwide hhalf, h.known.put _ hknown⟩

theorem wide (h : L.Fits m row.cells) (hwide : text.isWide = true) (hcol : col + 1 < L.width)
    (hknown : text.Known m) : L.Fits m ((row.set col ⟨text, style⟩).set (col + 1) ⟨.continuation, style⟩).cells :=
  ⟨L.wide h.law hwide hcol, (h.known.put col hknown).put _ (by trivial)⟩

theorem wide_last (h : L.Fits m row.cells) (hwide : text.isWide = true) (hcol : col + 1 = L.width)
    (hknown : text.Known m) : L.Fits m ((row.set col ⟨text, style⟩).set col (.filler style)).cells :=
  ⟨L.wide_last h.law hwide hcol, (h.known.put col hknown).put _ (by trivial)⟩

theorem erase (h : L.Fits m row.cells) : L.Fits m (row.erase col style).cells :=
  ⟨L.erase h.law, h.known.erase _ _⟩

theorem ascii (h : L.Fits m row.cells) {start stop : ℕ} {bytes : List Char} (hstart : start < stop)
    (hstop : stop ≤ L.width) (hbytes : stop - start ≤ bytes.length) :
    Gives (asciiRow start stop bytes style row) fun row => L.Fits m row.cells :=
  ((L.ascii h.law hstart hstop hbytes).and (h.known.asciiRow _ _ _ _)).mono fun _ h => ⟨h.1, h.2⟩

theorem insertBlanks (h : L.Fits m row.cells) (hmargins : L.Margins left right) (count : ℕ) :
    Gives (row.insertBlanks col count right style) fun row => L.Fits m row.cells :=
  ((L.insertBlanks hmargins h.law).and (h.known.insertBlanks _ _ _ _)).mono fun _ h => ⟨h.1, h.2⟩

theorem deleteCells (h : L.Fits m row.cells) (hmargins : L.Margins left right) (count : ℕ) :
    Gives (row.deleteCells col count right style) fun row => L.Fits m row.cells :=
  ((L.deleteCells hmargins h.law).and (h.known.deleteCells _ _ _ _)).mono fun _ h => ⟨h.1, h.2⟩

theorem copy (h : L.Fits m target) (hsource : L.Fits m source) (hmargins : L.Margins left right) :
    L.Fits m (target.take left ++ (source.drop left).take (right + 1 - left) ++ target.drop (right + 1)) := by
  refine ⟨L.copy hmargins hsource.law h.law, (Known.append ?_ ?_).append ?_⟩
  · exact h.known.subset (List.take_subset _ _)
  · exact (hsource.known.subset (List.drop_subset _ _)).subset (List.take_subset _ _)
  · exact h.known.subset (List.drop_subset _ _)

end Fits

end RowLaw

namespace Grid

/-- Every index of the grid is where its rows, columns and tab stops are, the cursor aside. -/
structure Framed (L : RowLaw charWidth) (n : ℕ) (g : Grid) : Prop where
  height_eq : g.size.height = n
  width_eq : g.size.width = L.width
  height_pos : 0 < n
  height_le : n ≤ 65535
  rows : g.rows.length = n
  cells : ∀ row ∈ g.rows, L.Fits g.tables.graphemes.length row.cells
  past : Past charWidth g.size g.history g.viewOffset g.viewAbove g.viewStale g.tables.graphemes
  tabs : g.tabs.length = L.width
  top : g.scrollTop ≤ g.scrollBottom
  bottom : g.scrollBottom < n
  margins : L.Margins g.marginLeft g.marginRight

/-- The cursor is on the screen too. It may be past the last column, as after the last cell of a row is written, and on
a screen of one column as after a wide cell there. -/
structure Lawful (L : RowLaw charWidth) (n : ℕ) (g : Grid) : Prop extends Framed L n g where
  row : g.pos.row < n
  col : g.pos.col ≤ max L.width 2

/-- The cursor is at a position. -/
structure LawfulAt (L : RowLaw charWidth) (n : ℕ) (pos : Pos) (g : Grid) : Prop extends Lawful L n g where
  pos_eq : g.pos = pos

variable {g : Grid} {pos : Pos}

theorem Lawful.here (h : g.Lawful L n) : g.LawfulAt L n g.pos := { h with pos_eq := rfl }

section cursor

theorem Framed.room (h : g.Framed L n) : g.marginLeft ≤ g.marginRight ∧ g.marginRight < L.width ∧
    g.marginLeft + 2 ≤ max L.width 2 ∧ L.width ≤ 65533 := RowLaw.room h.margins

theorem Framed.lastRow (h : g.Framed L n) : g.lastRow = some (n - 1) := by
  unfold Grid.lastRow
  rw [h.height_eq]
  exact sub_eq h.height_pos

theorem Framed.lastCol (h : g.Framed L n) : g.lastCol = some (L.width - 1) := by
  unfold Grid.lastCol
  rw [h.width_eq]
  exact sub_eq L.width_pos

theorem Framed.withPlacements (h : g.Framed L n) (placements : List Placement) :
    { g with placements := placements }.Framed L n := { h with }

theorem Framed.moved (h : g.Framed L n) (pos : Pos) : { g with pos := pos }.Framed L n := { h with }

theorem Framed.put (h : g.Framed L n) {p : Pos} (hrow : p.row < n) (hcol : p.col ≤ max L.width 2) :
    { g with pos := p }.Lawful L n := { h.moved p with row := hrow, col := hcol }

theorem Framed.setPosAbsolute (h : g.Framed L n) (pos : Pos) : Gives (g.setPosAbsolute pos) (Lawful L n) := by
  have hpos := h.height_pos
  unfold Grid.setPosAbsolute
  rw [h.lastRow, h.lastCol]
  exact .pure (h.put (by dsimp only; omega) (by dsimp only; omega))

theorem rowClampTop_fst (g : Grid) (region : Bool) :
    (g.rowClampTop region).1 = if region then g.scrollTop - g.pos.row else 0 := by
  unfold Grid.rowClampTop
  cases region
  · simp
  · split
    next => rfl
    next h => exact (Nat.sub_eq_zero_of_le (by simpa using h)).symm

theorem rowClampTop_snd (g : Grid) (region : Bool) : (g.rowClampTop region).2 =
    { g with pos := ⟨if region then max g.scrollTop g.pos.row else g.pos.row, g.pos.col⟩ } := by
  unfold Grid.rowClampTop
  cases region
  · simp
  · split
    next h => rw [if_pos rfl, Nat.max_eq_left (Nat.le_of_lt h.2)]
    next h => rw [if_pos rfl, Nat.max_eq_right (by simpa using h)]

def lowest (g : Grid) (n : ℕ) (region : Bool) : ℕ := if region then g.scrollBottom else n - 1

theorem Framed.lowest_lt (h : g.Framed L n) (region : Bool) : g.lowest n region < n := by
  have := h.bottom
  unfold lowest
  split <;> omega

theorem Framed.rowClampBottom (h : g.Framed L n) (region : Bool) : g.rowClampBottom region =
    some (g.pos.row - g.lowest n region, { g with pos := ⟨min g.pos.row (g.lowest n region), g.pos.col⟩ }) := by
  unfold Grid.rowClampBottom lowest
  rw [h.lastRow]
  cases region
  all_goals
    simp only [Bool.false_eq_true, if_false, if_true, Option.bind_eq_bind, Option.bind_some]
    split
    next hlt => rw [Nat.min_eq_right (Nat.le_of_lt hlt)]
    next hle => rw [Nat.min_eq_left (Nat.le_of_not_lt hle), Nat.sub_eq_zero_of_le (Nat.le_of_not_lt hle)]

theorem Framed.rowClamp (h : g.Framed L n) :
    g.rowClamp = some { g with pos := ⟨min g.pos.row (n - 1), g.pos.col⟩ } := by
  unfold Grid.rowClamp
  rw [h.lastRow]
  rfl

theorem Framed.colClamp (h : g.Framed L n) :
    g.colClamp = some { g with pos := ⟨g.pos.row, min g.pos.col (L.width - 1)⟩ } := by
  unfold Grid.colClamp
  rw [h.lastCol]
  rfl

theorem clamp_gives {x lo hi : ℕ} (h : lo ≤ hi) : Gives (clamp x lo hi) fun c => lo ≤ c ∧ c ≤ hi := by
  unfold clamp
  rw [if_pos h]
  exact .pure ⟨le_max_left _ _, max_le h (min_le_right _ _)⟩

theorem Framed.setPos_cell (h : g.Framed L n) (pos : Pos) :
    Gives (g.setPos pos) fun g' => g'.Lawful L n ∧ g'.pos.col < L.width := by
  have hroom := h.room
  unfold Grid.setPos
  dsimp only
  rw [rowClampTop_snd, ((h.moved _).moved _).rowClampBottom]
  rw [Option.bind_eq_bind, Option.bind_some]
  dsimp only
  have hrow : ∀ row, min row (g.lowest n g.originMode) < n := fun row =>
    lt_of_le_of_lt (min_le_right _ _) (h.lowest_lt g.originMode)
  split
  · refine (clamp_gives hroom.1).bind fun c hc => .pure ?_
    have hc' : c < L.width := by omega
    exact ⟨h.put (hrow _) (by dsimp only; omega), hc'⟩
  · rw [(h.moved _).colClamp]
    have hc' : ∀ c, min c (L.width - 1) < L.width := fun c => by omega
    exact .pure ⟨h.put (hrow _) (by dsimp only; omega), hc' _⟩

theorem Framed.setPos (h : g.Framed L n) (pos : Pos) : Gives (g.setPos pos) (Lawful L n) :=
  (h.setPos_cell pos).mono fun _ hg => hg.1

theorem Framed.restoreCursor (h : g.Framed L n) : Gives g.restoreCursor (Lawful L n) := by
  have hpos := h.height_pos
  have hf : { g with pos := g.savedPos, originMode := g.savedOriginMode }.Framed L n := { h with }
  unfold Grid.restoreCursor
  rw [hf.rowClamp, Option.bind_eq_bind, Option.bind_some, (hf.moved _).colClamp]
  exact .pure (hf.put (by dsimp only; omega) (by dsimp only; omega))

theorem Lawful.saveCursor (h : g.Lawful L n) : g.saveCursor.Lawful L n := { h with }

theorem Lawful.rowSet (h : g.Lawful L n) (row : ℕ) : Gives (g.rowSet row) (Lawful L n) := by
  have hpos := h.height_pos
  have hrow := h.lowest_lt true
  have hcol := h.col
  unfold Grid.rowSet
  dsimp only
  split
  · rw [rowClampTop_snd, ((h.moved _).moved _).rowClampBottom, Option.bind_eq_bind, Option.bind_some]
    exact .pure (h.put (lt_of_le_of_lt (min_le_right _ _) hrow) hcol)
  · rw [(h.moved _).rowClamp]
    exact .pure (h.put (by dsimp only; omega) hcol)

theorem Lawful.colSet (h : g.Lawful L n) (col : ℕ) : Gives (g.colSet col) (Lawful L n) := by
  have hroom := h.room
  unfold Grid.colSet
  split
  · exact (clamp_gives hroom.1).bind fun c hc => .pure (h.put h.row (by dsimp only; omega))
  · rw [(h.moved _).colClamp]
    exact .pure (h.put h.row (by dsimp only; omega))

theorem Lawful.rowIncClamp (h : g.Lawful L n) (count : ℕ) : Gives (g.rowIncClamp count) (Lawful L n) := by
  unfold Grid.rowIncClamp
  dsimp only
  rw [(h.moved _).rowClampBottom, Option.bind_eq_bind, Option.bind_some]
  exact .pure (h.put (lt_of_le_of_lt (min_le_right _ _) (h.lowest_lt _)) h.col)

theorem Lawful.rowDecClamp (h : g.Lawful L n) (count : ℕ) : (g.rowDecClamp count).Lawful L n := by
  have htop := h.top
  have hbottom := h.bottom
  have hrow := h.row
  unfold Grid.rowDecClamp
  rw [rowClampTop_snd]
  refine h.put ?_ h.col
  dsimp only
  split <;> omega

theorem Lawful.colInc (h : g.Lawful L n) {count : ℕ} (hcount : g.pos.col + count ≤ max L.width 2) :
    (g.colInc count).Lawful L n :=
  h.put h.row (le_trans (min_le_left _ _) hcount)

theorem Lawful.colIncClamp (h : g.Lawful L n) (count : ℕ) : Gives (g.colIncClamp count) (Lawful L n) := by
  have hroom := h.room
  unfold Grid.colIncClamp
  dsimp only
  split
  · exact .pure (h.put h.row (by dsimp only; omega))
  · rw [(h.moved _).colClamp]
    exact .pure (h.put h.row (by dsimp only; omega))

theorem Lawful.colDec (h : g.Lawful L n) (count : ℕ) : Gives (g.colDec count) (Lawful L n) := by
  have hroom := h.room
  unfold Grid.colDec
  rw [h.lastCol]
  refine .pure (h.put h.row ?_)
  dsimp only
  split <;> omega

theorem Lawful.colStay (h : g.Lawful L n) : g.colStay.Lawful L n := by
  have hroom := h.room
  exact h.put h.row (by dsimp only; omega)

end cursor

section tabs

theorem findTab_gives {tabs : List Bool} {cols : List ℕ} (h : ∀ col ∈ cols, col < tabs.length) :
    Gives (findTab tabs cols) fun found => ∀ col, found = some col → col ∈ cols := by
  induction cols with
  | nil => exact .pure fun col hcol => by cases hcol
  | cons col cols ih =>
    refine (gives_getElem (h col List.mem_cons_self)).bind fun set _ => ?_
    split
    · exact .pure fun col' hcol => by
        cases hcol
        exact List.mem_cons_self
    · exact (ih fun col hcol => h col (List.mem_cons_of_mem _ hcol)).mono fun found hfound col hcol =>
        List.mem_cons_of_mem _ (hfound col hcol)

theorem nextTab_gives {tabs : List Bool} {right col : ℕ} (hcol : col ≤ right) (hright : right < tabs.length)
    (hlimit : tabs.length ≤ 65533) : Gives (nextTab tabs right col) (· ≤ right) := by
  unfold nextTab
  refine (gives_add (l := 65536) (by omega)).bind fun start hstart => ?_
  subst hstart
  refine (findTab_gives fun c hc => ?_).bind fun found hfound => .pure ?_
  · have := List.mem_range'_1.mp hc
    omega
  · cases hf : found with
    | none => exact le_refl _
    | some c =>
      have := List.mem_range'_1.mp (hfound c hf)
      rw [Option.getD_some]
      omega

theorem prevTab_gives {tabs : List Bool} {left last col : ℕ} (hleft : left ≤ last) (hcol : col ≤ last)
    (hlast : last < tabs.length) : Gives (prevTab tabs left col) (· ≤ last) := by
  unfold prevTab
  refine (findTab_gives fun c hc => ?_).bind fun found hfound => .pure ?_
  · have := List.mem_range'_1.mp (List.mem_reverse.mp hc)
    omega
  · cases hf : found with
    | none => exact hleft
    | some c =>
      have := List.mem_range'_1.mp (List.mem_reverse.mp (hfound c hf))
      rw [Option.getD_some]
      omega

theorem Lawful.tabForward (h : g.Lawful L n) (count : ℕ) : Gives (g.tabForward count) (Lawful L n) := by
  have hroom := h.room
  have htabs := h.tabs
  unfold Grid.tabForward
  rw [h.lastCol, Option.bind_eq_bind, Option.bind_some]
  refine Gives.bind (gives_times (P := (· ≤ min g.marginRight (L.width - 1))) (fun col hcol => ?_) (min_le_right _ _) _)
    fun col hcol => .pure (h.put h.row (by dsimp only at hcol ⊢; omega))
  exact nextTab_gives hcol (by omega) (by omega)

theorem Lawful.tabBack (h : g.Lawful L n) (count : ℕ) : Gives (g.tabBack count) (Lawful L n) := by
  have hroom := h.room
  have htabs := h.tabs
  unfold Grid.tabBack
  rw [h.lastCol, Option.bind_eq_bind, Option.bind_some]
  refine Gives.bind (gives_times (P := (· ≤ L.width - 1)) (fun col hcol => ?_) (min_le_right _ _) _)
    fun col hcol => .pure (h.put h.row (by dsimp only at hcol ⊢; omega))
  exact prevTab_gives (by omega) hcol (by omega)

theorem Lawful.putTab (h : g.Lawful L n) (tab : Bool) : Gives (g.putTab tab) (Lawful L n) := by
  have hroom := h.room
  unfold Grid.putTab
  rw [h.lastCol, Option.bind_eq_bind, Option.bind_some]
  refine (gives_setAt (by rw [h.tabs]; omega) tab).bind fun tabs htabs => .pure ?_
  subst htabs
  exact { h with tabs := by rw [List.length_set, h.tabs] }

theorem Lawful.clearAllTabs (h : g.Lawful L n) : g.clearAllTabs.Lawful L n :=
  { h with tabs := by unfold Grid.clearAllTabs; rw [List.length_map, h.tabs] }

end tabs

section regions

theorem Framed.setScrollRegion (h : g.Framed L n) (top bottom : ℕ) :
    Gives (g.setScrollRegion top bottom) (Lawful L n) := by
  have hpos := h.height_pos
  unfold Grid.setScrollRegion
  rw [h.lastRow, Option.bind_eq_bind, Option.bind_some]
  dsimp only
  refine Framed.setPos ?_ .home
  split
  next hlt => exact { h with top := le_of_lt hlt, bottom := by dsimp only; omega }
  next => exact { h with top := Nat.zero_le _, bottom := by dsimp only; omega }

theorem Framed.setMargins (h : g.Framed L n) {left right : ℕ}
    (hallowed : left < min right (L.width - 1) → L.Margins left (min right (L.width - 1))) :
    Gives (g.setMargins left right) (Lawful L n) := by
  have hpos := L.width_pos
  unfold Grid.setMargins
  rw [h.lastCol, Option.bind_eq_bind, Option.bind_some]
  dsimp only
  refine Framed.setPos ?_ .home
  split
  next hlt => exact { h with margins := hallowed hlt }
  next => exact { h with margins := L.margins_full }

theorem Framed.setOriginMode (h : g.Framed L n) (mode : Bool) : Gives (g.setOriginMode mode) (Lawful L n) :=
  Framed.setPos (g := { g with originMode := mode }) { h with } .home

end regions

section writing

theorem LawfulAt.withRows (h : g.LawfulAt L n pos) {rows : List Row} (hlen : rows.length = n)
    (hcells : ∀ row ∈ rows, L.Fits g.tables.graphemes.length row.cells) : { g with rows := rows }.LawfulAt L n pos :=
  { h with rows := hlen, cells := hcells }

theorem LawfulAt.touch (h : g.LawfulAt L n pos) (row start stop : ℕ) : (g.touch row start stop).LawfulAt L n pos := by
  unfold Grid.touch
  split
  · exact h
  · exact { h with }

theorem LawfulAt.shiftPlacements (h : g.LawfulAt L n pos) (top bottom : ℕ) (delta : ℤ) :
    (g.shiftPlacements top bottom delta).LawfulAt L n pos := { h with }

theorem LawfulAt.getRow (h : g.LawfulAt L n pos) {row : ℕ} (hrow : row < n) :
    Gives g.rows[row]? fun old => L.Fits g.tables.graphemes.length old.cells :=
  (gives_getElem (by rw [h.rows]; exact hrow)).mono fun old hold => h.cells old hold.2

theorem LawfulAt.setRow (h : g.LawfulAt L n pos)
    (row : ℕ) {new : Row} (hnew : L.Fits g.tables.graphemes.length new.cells) :
    { g with rows := g.rows.set row new }.LawfulAt L n pos := by
  refine h.withRows (by rw [List.length_set, h.rows]) fun r hr => ?_
  rcases List.mem_or_eq_of_mem_set hr with hr | rfl
  · exact h.cells r hr
  · exact hnew

theorem LawfulAt.modifyRow (h : g.LawfulAt L n pos) {row : ℕ} (hrow : row < n) {f : Row → Option Row}
    (hf : ∀ old, L.Fits g.tables.graphemes.length old.cells →
      Gives (f old) fun new => L.Fits g.tables.graphemes.length new.cells) :
    Gives (g.modifyRow row f) (LawfulAt L n pos) :=
  (h.getRow hrow).bind fun old hold => (hf old hold).bind fun _ hnew => .pure (h.setRow row hnew)

theorem tables_touch (g : Grid) (row start stop : ℕ) : (g.touch row start stop).tables = g.tables := by
  unfold Grid.touch
  split <;> rfl

theorem LawfulAt.writeCell (h : g.LawfulAt L n pos) (p : Pos) {text : CellText} (htext : text.isContinuation = false)
    (hknown : text.Known g.tables.graphemes.length) (style : StyleId) :
    Gives (g.writeCell p text style) (LawfulAt L n pos) := by
  have hroom := h.room
  unfold Grid.writeCell
  dsimp only
  rw [h.width_eq, h.height_eq]
  split
  · exact .pure h
  next hin =>
    push Not at hin
    refine (gives_add (l := 65536) (by split <;> omega)).bind fun stop _ => ?_
    refine (h.touch _ _ _).modifyRow hin.2 fun old hold => ?_
    rw [tables_touch] at hold ⊢
    cases hwide : text.isWide with
    | false => exact .pure (hold.narrow hwide htext hknown)
    | true =>
      refine (gives_add (l := 65536) (by omega)).bind fun next hnext => ?_
      subst hnext
      split
      next hlt => exact .pure (hold.wide hwide hlt hknown)
      next hge => exact .pure (hold.wide_last hwide (by omega) hknown)

theorem writeAsciiRow_eq (g : Grid) (pos : Pos) (bytes : List Char) (style : StyleId) :
    g.writeAsciiRow pos bytes style = if bytes.isEmpty ∨ g.size.height ≤ pos.row then some g
      else (g.touch pos.row pos.col (min (pos.col + bytes.length) g.size.width)).modifyRow pos.row
        (asciiRow pos.col (min (pos.col + bytes.length) g.size.width) bytes style) := rfl

theorem LawfulAt.writeAsciiRow (h : g.LawfulAt L n pos) {p : Pos} (hcol : p.col < L.width) (bytes : List Char)
    (style : StyleId) : Gives (g.writeAsciiRow p bytes style) (LawfulAt L n pos) := by
  rw [writeAsciiRow_eq, h.width_eq, h.height_eq]
  split
  · exact .pure h
  next hin =>
    push Not at hin
    have hlen := List.length_pos_of_ne_nil (by simpa using hin.1 : bytes ≠ [])
    refine (h.touch _ _ _).modifyRow hin.2 fun old hold => hold.ascii ?_ (min_le_right _ _) ?_
    all_goals omega

end writing

section erasing

theorem LawfulAt.eraseAll (h : g.LawfulAt L n pos) (style : StyleId) : (g.eraseAll style).LawfulAt L n pos := by
  have hcells : ∀ row ∈ g.rows.map fun row => blankInPlace row style, L.Fits g.tables.graphemes.length row.cells :=
      fun row hrow => by
    obtain ⟨old, hold, rfl⟩ := List.mem_map.mp hrow
    exact (h.cells old hold).clear style
  exact { h.withRows (by rw [List.length_map, h.rows]) hcells with }

theorem LawfulAt.blankRow (h : g.LawfulAt L n pos) {row : ℕ} (hrow : row < n) (style : StyleId) :
    Gives (g.blankRow style row) (LawfulAt L n pos) :=
  (h.touch _ _ _).modifyRow hrow fun _ hold => .pure (hold.clear style)

theorem LawfulAt.eraseCols (h : g.LawfulAt L n pos) (start stop : ℕ) (style : StyleId) :
    Gives (g.eraseCols start stop style) (LawfulAt L n pos) := by
  refine (h.touch _ _ _).modifyRow h.row fun old hold => .pure ?_
  exact List.foldlRecOn (motive := fun row : Row => L.Fits _ row.cells) _ _ hold fun _ hrow _ _ => hrow.erase

theorem LawfulAt.eraseRow (h : g.LawfulAt L n pos) (style : StyleId) : Gives (g.eraseRow style) (LawfulAt L n pos) :=
  (h.touch _ _ _).modifyRow h.row fun _ hold => .pure (hold.clear style)

theorem LawfulAt.eraseRowForward (h : g.LawfulAt L n pos) (style : StyleId) :
    Gives (g.eraseRowForward style) (LawfulAt L n pos) := by
  unfold Grid.eraseRowForward
  rw [h.lastCol]
  exact h.eraseCols _ _ _

theorem LawfulAt.eraseRowBackward (h : g.LawfulAt L n pos) (style : StyleId) :
    Gives (g.eraseRowBackward style) (LawfulAt L n pos) := by
  have hroom := h.room
  unfold Grid.eraseRowBackward
  rw [h.lastCol]
  exact (gives_add (l := 65536) (by omega)).bind fun stop _ => h.eraseCols _ _ _

theorem LawfulAt.eraseAllForward (h : g.LawfulAt L n pos) (style : StyleId) :
    Gives (g.eraseAllForward style) (LawfulAt L n pos) := by
  refine (gives_foldlM (fun g hg row hrow => hg.blankRow ?_ style) h).bind fun g hg => hg.eraseRowForward style
  have := List.mem_range'_1.mp hrow
  have := h.rows
  omega

theorem LawfulAt.eraseAllBackward (h : g.LawfulAt L n pos) (style : StyleId) :
    Gives (g.eraseAllBackward style) (LawfulAt L n pos) := by
  refine (gives_foldlM (fun g hg row hrow => hg.blankRow ?_ style) h).bind fun g hg => hg.eraseRowBackward style
  have := List.mem_range.mp hrow
  have := h.rows
  omega

theorem LawfulAt.eraseCells (h : g.LawfulAt L n pos) (count : ℕ) (style : StyleId) :
    Gives (g.eraseCells count style) (LawfulAt L n pos) := by
  unfold Grid.eraseCells
  rw [h.lastCol]
  exact h.eraseCols _ _ _

end erasing

section editing

theorem Lawful.editCol (h : g.Lawful L n) : Gives g.editCol fun col => ∀ c, col = some c → c ≤ g.marginRight := by
  unfold Grid.editCol
  rw [h.lastCol]
  refine .pure fun c hc => ?_
  split at hc
  · cases hc
  next hin =>
    cases hc
    exact Nat.le_of_not_lt fun hlt => hin (.inr hlt)

theorem LawfulAt.editRow (h : g.LawfulAt L n pos) {row : ℕ} (hrow : row < n) (col : ℕ)
    {f : Row → Option Row} (hf : ∀ m old, L.Fits m old.cells → Gives (f old) fun new => L.Fits m new.cells) :
    Gives (g.editRow row col f) (LawfulAt L n pos) := by
  have hroom := h.room
  exact (gives_add (l := 65536) (by omega)).bind fun stop _ => (h.touch _ _ _).modifyRow hrow (hf _)

theorem LawfulAt.insertCells (h : g.LawfulAt L n pos) (count : ℕ) (style : StyleId) :
    Gives (g.insertCells count style) (LawfulAt L n pos) := by
  refine h.editCol.bind fun col _ => ?_
  cases col with
  | none => exact .pure h
  | some col => exact h.editRow h.row col fun m old hold => hold.insertBlanks h.margins _

theorem LawfulAt.deleteCells (h : g.LawfulAt L n pos) (count : ℕ) (style : StyleId) :
    Gives (g.deleteCells count style) (LawfulAt L n pos) := by
  refine h.editCol.bind fun col _ => ?_
  cases col with
  | none => exact .pure h
  | some col => exact h.editRow h.row col fun m old hold => hold.deleteCells h.margins _

theorem Framed.regionRows_lt (h : g.Framed L n) {row : ℕ} (hrow : row ∈ g.regionRows) : row < n := by
  have hbottom := h.bottom
  have := List.mem_range'_1.mp hrow
  omega

theorem LawfulAt.insertColumns (h : g.LawfulAt L n pos) (count : ℕ) (style : StyleId) :
    Gives (g.insertColumns count style) (LawfulAt L n pos) := by
  refine h.editCol.bind fun col _ => ?_
  cases col with
  | none => exact .pure h
  | some col =>
    refine gives_foldlM (fun g hg row hrow => hg.editRow (h.regionRows_lt hrow) col fun m old hold => ?_) h
    exact hold.insertBlanks hg.margins _

theorem LawfulAt.deleteColumns (h : g.LawfulAt L n pos) (count : ℕ) (style : StyleId) :
    Gives (g.deleteColumns count style) (LawfulAt L n pos) := by
  refine h.editCol.bind fun col _ => ?_
  cases col with
  | none => exact .pure h
  | some col =>
    refine gives_foldlM (fun g hg row hrow => hg.editRow (h.regionRows_lt hrow) col fun m old hold => ?_) h
    exact hold.deleteCells hg.margins _

end editing

section lines

theorem blanks_between {width left right : ℕ} (hleft : left ≤ right) (hright : right < width) (style : StyleId) :
    Row.blanks (right - left + 1) style = ((List.replicate width (.blank style)).drop left).take
      (right + 1 - left) := by
  unfold Row.blanks
  rw [List.drop_replicate, List.take_replicate]
  congr 1
  omega

/-- What is between the margins of a row, or blanks where there is none. -/
def between (g : Grid) (source : Option ℕ) (style : StyleId) : Option (List Cell) :=
  match source with
  | some source => do
    let source ← g.rows[source]?
    Slice.range source.cells g.marginLeft (g.marginRight + 1)
  | none => do
    let span ← sub g.marginRight g.marginLeft
    some (Row.blanks (span + 1) style)

theorem LawfulAt.between (h : g.LawfulAt L n pos) {source : Option ℕ} (hsource : ∀ row, source = some row → row < n)
    (style : StyleId) : Gives (g.between source style) fun cells =>
      ∃ whole, L.Fits g.tables.graphemes.length whole ∧ cells =
        (whole.drop g.marginLeft).take (g.marginRight + 1 - g.marginLeft) := by
  have hroom := h.room
  cases source with
  | some source =>
    refine (h.getRow (hsource source rfl)).bind fun old hold => ?_
    have hlen := hold.length
    exact ⟨_, range_eq (by omega) (by omega), old.cells, hold, rfl⟩
  | none =>
    refine (gives_sub hroom.1).bind fun span hspan => .pure ⟨_, .blank L _ style, ?_⟩
    rw [hspan, blanks_between hroom.1 hroom.2.1 style]

/-- Cells between the margins, put in a row. -/
def putBetween (g : Grid) (cells : List Cell) (row : Row) : Option Row := do
  let cells ← onRange row.cells g.marginLeft (g.marginRight + 1) fun _ => cells
  some ⟨cells, false⟩

theorem copyCells_eq (g : Grid) (source : Option ℕ) (style : StyleId) (row : ℕ) : g.copyCells source style row =
    (add16 g.marginRight 1).bind fun stop =>
      let g := g.touch row g.marginLeft stop
      (g.between source style).bind fun cells => g.modifyRow row (g.putBetween cells) := by
  unfold Grid.copyCells Grid.between
  cases source <;> simp only [Option.bind_eq_bind, Option.bind_assoc] <;> rfl

theorem LawfulAt.copyCells (h : g.LawfulAt L n pos) {source : Option ℕ} (hsource : ∀ row, source = some row → row < n)
    (style : StyleId) {row : ℕ} (hrow : row < n) : Gives (g.copyCells source style row) (LawfulAt L n pos) := by
  have hroom := h.room
  rw [copyCells_eq]
  refine (gives_add (l := 65536) (by omega)).bind fun stop _ => ?_
  have ht := h.touch row g.marginLeft stop
  have htroom := ht.room
  refine (ht.between hsource style).bind fun cells hcells => ht.modifyRow hrow fun old hold => ?_
  obtain ⟨whole, hwhole, rfl⟩ := hcells
  have hlen := hold.length
  refine (gives_onRange (by omega) (by omega) _).bind fun cells hcells => .pure ?_
  subst hcells
  exact hold.copy hwhole ht.margins

theorem LawfulAt.shiftCellsUp (h : g.LawfulAt L n pos) {bottom : ℕ} (hbottom : bottom < n) (top count : ℕ)
    (style : StyleId) : Gives (g.shiftCellsUp top bottom count style) (LawfulAt L n pos) := by
  refine gives_foldlM (fun g hg row hrow => hg.copyCells (fun source hsource => ?_) style ?_) h
  · split at hsource
    · cases hsource
      omega
    · cases hsource
  · have := List.mem_range'_1.mp hrow
    omega

theorem LawfulAt.shiftCellsDown (h : g.LawfulAt L n pos) {bottom : ℕ} (hbottom : bottom < n) (top count : ℕ)
    (style : StyleId) : Gives (g.shiftCellsDown top bottom count style) (LawfulAt L n pos) := by
  refine gives_foldlM (fun g hg row hrow => ?_) h
  have hrow := List.mem_range'_1.mp (List.mem_reverse.mp hrow)
  refine hg.copyCells (fun source hsource => ?_) style (by omega)
  split at hsource
  · cases hsource
    omega
  · cases hsource

theorem LawfulAt.turned (h : g.LawfulAt L n pos) {top bottom : ℕ} (htop : top ≤ bottom) (hbottom : bottom < n)
    {f : List Row → List Row} (hlen : ∀ l, (f l).length = l.length) (hmem : ∀ l, f l ⊆ l) :
    Gives (onRange g.rows top (bottom + 1) f) fun rows =>
      rows.length = n ∧ ∀ row ∈ rows, L.Fits g.tables.graphemes.length row.cells := by
  have hrows := h.rows
  refine (gives_onRange (by omega) (by omega) f).mono fun rows hr => ?_
  subst hr
  constructor
  · simp only [List.length_append, List.length_take, List.length_drop, hlen]
    omega
  · intro row hrow
    refine h.cells row ?_
    rcases List.mem_append.mp hrow with hrow | hrow
    · rcases List.mem_append.mp hrow with hrow | hrow
      · exact List.mem_of_mem_take hrow
      · exact List.mem_of_mem_drop (List.mem_of_mem_take (hmem _ hrow))
    · exact List.mem_of_mem_drop hrow

theorem LawfulAt.blanked (h : g.LawfulAt L n pos) {rows : List Row} (hlen : rows.length = n)
    (hcells : ∀ row ∈ rows, L.Fits g.tables.graphemes.length row.cells) {gone : Row} (hgone : gone ∈ rows)
    (row : ℕ) (style : StyleId) :
    { g with rows := rows.set row (blankInPlace gone style) }.LawfulAt L n pos :=
  (h.withRows hlen hcells).setRow row ((hcells gone hgone).clear style)

theorem mem_rotateLeft_sub {α : Type} (k : ℕ) (l : List α) : rotateLeft k l ⊆ l := fun _ => mem_rotateLeft.mp

theorem mem_rotateRight_sub {α : Type} (k : ℕ) (l : List α) : rotateRight k l ⊆ l := fun _ => mem_rotateRight.mp

theorem LawfulAt.live (h : g.LawfulAt L n pos) : { g with viewOffset := 0 }.LawfulAt L n pos :=
  { h with past := .live h.past.counted }

/-- While rows scroll into the history, where the view is in it is not settled. -/
theorem LawfulAt.scrollOne (h : { g with viewOffset := 0 }.LawfulAt L n pos) {top bottom : ℕ} (htop : top ≤ bottom)
    (hbottom : bottom < n) (toHistory : Bool) (style : StyleId) :
    Gives (scrollOne charWidth top bottom toHistory style g) fun g' =>
      { g' with viewOffset := 0 }.LawfulAt L n pos := by
  refine (h.turned htop hbottom (length_rotateLeft 1) (mem_rotateLeft_sub 1)).bind fun rows hrows => ?_
  refine (gives_getElem (by rw [hrows.1]; exact hbottom)).bind fun gone hgone => .pure ?_
  have hb := h.blanked hrows.1 hrows.2 hgone.2 bottom style
  split
  · exact { hb with past := .live (h.past.counted.commit _ _) }
  · exact hb

theorem LawfulAt.scrollUp (h : g.LawfulAt L n pos) (count : ℕ) (style : StyleId) :
    Gives (g.scrollUp charWidth count style) (LawfulAt L n pos) := by
  have htop := h.top
  have hbottom := h.bottom
  unfold Grid.scrollUp Grid.marginsActive Grid.scrollRegionActive
  rw [h.lastRow, h.lastCol]
  refine (gives_sub htop).bind fun span _ => ?_
  simp only [Option.bind_eq_bind, Option.bind_some]
  split
  · exact .pure h
  · split
    · exact h.shiftCellsUp hbottom _ _ style
    · refine Gives.bind (gives_times (P := fun g : Grid => { g with viewOffset := 0 }.LawfulAt L n pos)
        (fun g hg => hg.scrollOne htop hbottom _ style) h.live _) fun g' hg => .pure ?_
      -- The history, the view and the placements are beside the rows.
      have hview (g' : Grid) (hg : { g' with viewOffset := 0 }.LawfulAt L n pos) : (if 0 < g'.viewOffset then
          { g' with viewOffset := min g'.viewOffset (g'.maxScrollback charWidth), viewStale := true }
          else g').LawfulAt L n pos := by
        split
        next hpos => exact { hg with past := .staled hg.past.counted (min_le_right _ _) }
        next hzero =>
          have hoffset : g'.viewOffset = 0 := Nat.eq_zero_of_not_pos hzero
          exact { hg with past := by rw [hoffset]; exact hg.past }
      apply hview
      split <;> exact { hg with }

theorem LawfulAt.rotateOne (h : g.LawfulAt L n pos) {top bottom : ℕ} (htop : top ≤ bottom) (hbottom : bottom < n)
    (style : StyleId) : Gives (rotateOne top bottom style g) (LawfulAt L n pos) := by
  refine (h.turned htop hbottom (length_rotateRight 1) (mem_rotateRight_sub 1)).bind fun rows hrows => ?_
  refine (gives_getElem (by rw [hrows.1]; omega)).bind fun entering hentering => .pure ?_
  exact h.blanked hrows.1 hrows.2 hentering.2 top style

theorem LawfulAt.rotateDown (h : g.LawfulAt L n pos) {top bottom : ℕ} (htop : top ≤ bottom) (hbottom : bottom < n)
    (count : ℕ) (style : StyleId) : Gives (g.rotateDown top bottom count style) (LawfulAt L n pos) := by
  refine Gives.bind (gives_times (fun g hg => hg.rotateOne htop hbottom style) h count) fun g hg => ?_
  exact hg.modifyRow hg.bottom fun _ hold => .pure hold

theorem LawfulAt.scrollDown (h : g.LawfulAt L n pos) (count : ℕ) (style : StyleId) :
    Gives (g.scrollDown count style) (LawfulAt L n pos) := by
  have htop := h.top
  have hbottom := h.bottom
  unfold Grid.scrollDown Grid.marginsActive
  rw [h.lastCol]
  refine (gives_sub htop).bind fun span _ => ?_
  simp only [Option.bind_eq_bind, Option.bind_some]
  split
  · exact .pure h
  · split
    · exact h.shiftCellsDown hbottom _ _ style
    · exact (h.rotateDown htop hbottom _ style).bind fun g hg => .pure (hg.shiftPlacements _ _ _)

theorem inScrollRegion_iff : g.inScrollRegion = true ↔ g.scrollTop ≤ g.pos.row ∧ g.pos.row ≤ g.scrollBottom := by
  simp [Grid.inScrollRegion]

theorem LawfulAt.insertLines (h : g.LawfulAt L n pos) (count : ℕ) (style : StyleId) :
    Gives (g.insertLines count style) (LawfulAt L n pos) := by
  have hbottom := h.bottom
  unfold Grid.insertLines Grid.marginsActive
  rw [h.lastCol]
  split
  · exact .pure h
  next hin =>
    have hrow : g.pos.row ≤ g.scrollBottom := (inScrollRegion_iff.mp (by simpa using hin)).2
    refine (gives_sub hrow).bind fun span _ => ?_
    simp only [Option.bind_eq_bind, Option.bind_some]
    split
    · exact h.shiftCellsDown hbottom _ _ style
    · exact (h.rotateDown hrow hbottom _ style).bind fun g hg => .pure (hg.shiftPlacements _ _ _)

theorem LawfulAt.deleteOne (h : g.LawfulAt L n pos) {top bottom : ℕ} (htop : top ≤ bottom) (hbottom : bottom < n)
    (style : StyleId) : Gives (deleteOne top bottom style g) (LawfulAt L n pos) := by
  refine (h.turned htop hbottom (length_rotateLeft 1) (mem_rotateLeft_sub 1)).bind fun rows hrows => ?_
  refine (gives_getElem (by rw [hrows.1]; exact hbottom)).bind fun entering hentering => .pure ?_
  exact h.blanked hrows.1 hrows.2 hentering.2 bottom style

theorem LawfulAt.deleteLines (h : g.LawfulAt L n pos) (count : ℕ) (style : StyleId) :
    Gives (g.deleteLines count style) (LawfulAt L n pos) := by
  have hbottom := h.bottom
  unfold Grid.deleteLines Grid.marginsActive
  rw [h.lastCol]
  split
  · exact .pure h
  next hin =>
    have hrow : g.pos.row ≤ g.scrollBottom := (inScrollRegion_iff.mp (by simpa using hin)).2
    refine (gives_sub hrow).bind fun span _ => ?_
    simp only [Option.bind_eq_bind, Option.bind_some]
    split
    · exact h.shiftCellsUp hbottom _ _ style
    · exact Gives.bind (gives_times (fun g hg => hg.deleteOne hrow hbottom style) h _) fun g hg =>
        .pure (hg.shiftPlacements _ _ _)

end lines

section moving

theorem Lawful.rowIncScroll (h : g.Lawful L n) (count : ℕ) (style : StyleId) :
    Gives (g.rowIncScroll charWidth count style) fun p => p.2.Lawful L n ∧ p.2.pos.col = g.pos.col := by
  unfold Grid.rowIncScroll
  dsimp only
  rw [(h.moved _).rowClampBottom, Option.bind_eq_bind, Option.bind_some]
  have hput := (h.put (p := ⟨_, g.pos.col⟩) (lt_of_le_of_lt (min_le_right (saturatingAdd16 g.pos.row count) _)
    (h.lowest_lt g.inScrollRegion)) h.col).here
  dsimp only
  split
  · exact (hput.scrollUp _ style).bind fun g' hg => .pure ⟨hg.toLawful, by rw [hg.pos_eq]⟩
  · exact .pure ⟨hput.toLawful, rfl⟩

theorem Lawful.rowDecScroll (h : g.Lawful L n) {count : ℕ} (hcount : count < 65536) (style : StyleId) :
    Gives (g.rowDecScroll count style) (Lawful L n) := by
  have htop := h.top
  have hbottom := h.bottom
  have hrow := h.row
  have hcol := h.col
  unfold Grid.rowDecScroll
  dsimp only
  rw [rowClampTop_fst, rowClampTop_snd]
  split
  next hin =>
    have hregion := inScrollRegion_iff.mp hin
    refine (gives_add (l := 65536) (by dsimp only; omega)).bind fun lines _ => ?_
    have hput := (h.put (p := ⟨max g.scrollTop (g.pos.row - count), g.pos.col⟩) (by dsimp only; omega) hcol).here
    exact (hput.scrollDown lines style).mono fun g' hg => hg.toLawful
  · exact .pure (h.put (by dsimp only; omega) hcol)

theorem padRow_cells {row : Row} (h : L.Fits m row.cells) (start right : ℕ) (style : StyleId) :
    L.Fits m (padRow start right style row).cells := by
  refine List.foldlRecOn (motive := fun row : Row => L.Fits m row.cells) _ _ h fun row hrow col _ => ?_
  split
  · split
    · exact hrow.narrow rfl rfl trivial
    · exact hrow
  · exact hrow

theorem Lawful.markWrapped (h : g.Lawful L n) {prevRow : ℕ} (hprev : prevRow < n) (newRow : ℕ) :
    Gives (g.markWrapped prevRow newRow) (LawfulAt L n g.pos) := by
  have hle := h.height_le
  unfold Grid.markWrapped Grid.marginsActive
  rw [h.lastCol]
  simp only [Option.bind_eq_bind, Option.bind_some]
  refine (gives_add (l := 65536) (by omega)).bind fun next _ => ?_
  split
  · exact .pure h.here
  next row hrow =>
    exact .pure (h.here.setRow prevRow (h.cells row (List.mem_of_getElem? hrow)))

theorem Lawful.colWrap (h : g.Lawful L n) {w : ℕ} (hw : w ≤ 2) (style : StyleId) :
    Gives (g.colWrap charWidth w style) fun g' => g'.Lawful L n ∧ g'.pos.col + w ≤ max L.width 2 := by
  have hroom := h.room
  have hcol := h.col
  have hrow := h.row
  unfold Grid.colWrap
  dsimp only
  refine (gives_add (l := 65536) (by omega)).bind fun needed hneeded => ?_
  refine (gives_add (l := 65536) (by omega)).bind fun room hroom' => ?_
  split
  · -- The next row, after what is left of this one is padded.
    have hnext : ∀ g' : Grid, g'.Lawful L n → Gives
        (({ g' with pos := { g'.pos with col := g'.marginLeft } }.rowIncScroll charWidth 1 style).bind fun r =>
          r.2.markWrapped (g.pos.row - r.1) r.2.pos.row)
        fun g' => g'.Lawful L n ∧ g'.pos.col + w ≤ max L.width 2 := fun g' hg => by
      have hgroom := hg.room
      refine ((hg.put (p := ⟨g'.pos.row, g'.marginLeft⟩) hg.row (by dsimp only; omega)).rowIncScroll 1
        style).bind fun p hp => ?_
      refine (hp.1.markWrapped (by omega) _).mono fun g'' hg' => ⟨hg'.toLawful, ?_⟩
      rw [hg'.pos_eq, hp.2]
      dsimp only
      omega
    split
    · refine ((h.here.touch _ _ _).modifyRow hrow fun _ hold => .pure (padRow_cells hold _ _ _)).bind fun g' hg => ?_
      exact hnext g' hg.toLawful
    · exact hnext g h
  · exact .pure ⟨h, by omega⟩

end moving

section beside

theorem LawfulAt.staled (h : g.LawfulAt L n pos) : { g with viewStale := true }.LawfulAt L n pos :=
  { h with past := .staled h.past.counted h.past.inside }

/-- Whatever the view showed, it is laid out anew. -/
theorem LawfulAt.refreshView (h : { g with viewStale := true }.LawfulAt L n pos) :
    (g.refreshView charWidth).LawfulAt L n pos := by
  unfold Grid.refreshView
  split
  next hzero => exact { h with past := by rw [hzero]; exact .live h.past.counted }
  next =>
    have hgrown := g.history.rowsAbove_grows charWidth g.viewOffset (min g.viewOffset g.size.height)
      g.size.width g.tables
    exact { h with
      cells := fun row hrow => (h.cells row hrow).mono hgrown.length_le
      past := .laid h.past.counted h.past.inside g.tables }

theorem LawfulAt.settleView (h : g.LawfulAt L n pos) : (g.settleView charWidth).LawfulAt L n pos := by
  unfold Grid.settleView
  split
  · exact h.staled.refreshView
  · exact h

theorem LawfulAt.setScrollback (h : g.LawfulAt L n pos) (rows : ℕ) :
    (g.setScrollback charWidth rows).LawfulAt L n pos :=
  LawfulAt.refreshView { h with past := .staled h.past.counted (min_le_right _ _) }

theorem LawfulAt.clearHistory (h : g.LawfulAt L n pos) : g.clearHistory.LawfulAt L n pos :=
  { h with past := .live History.counted_clear }

theorem LawfulAt.internStyle (h : g.LawfulAt L n pos) (style : Style) :
    (g.internStyle style).2.LawfulAt L n pos := { h with }

theorem LawfulAt.internLink (h : g.LawfulAt L n pos) (link : Link) : (g.internLink link).2.LawfulAt L n pos :=
  { h with }

theorem LawfulAt.cellText (h : g.LawfulAt L n pos) (text : List Char) (width : ℕ) :
    (g.cellText text width).2.LawfulAt L n pos := by
  have hgrown := CellText.of_grows g.tables.graphemes text width
  exact { h with cells := fun row hrow => (h.cells row hrow).mono hgrown.length_le, past := h.past.grown hgrown }

theorem LawfulAt.placeholderSlot (h : g.LawfulAt L n pos) (imageId placementId : ℕ) :
    (g.placeholderSlot imageId placementId).2.LawfulAt L n pos := by
  unfold Grid.placeholderSlot
  split
  · exact h
  · split
    · exact h
    · exact { h with }

theorem of_not_half (text : List Char) (width : ℕ) (graphemes : GraphemeTable) :
    (CellText.of text width graphemes).1.isContinuation = false := by
  unfold CellText.of
  split
  · rfl
  · rfl
  · split <;> rfl

theorem lineStart_gives {rows : List Row} {row : ℕ} (h : row < rows.length) : Gives (lineStart rows row) (· ≤ row) := by
  induction row with
  | zero => exact .pure (le_refl 0)
  | succ row ih =>
    refine (gives_getElem (Nat.lt_of_succ_lt h)).bind fun above _ => ?_
    split
    · exact (ih (Nat.lt_of_succ_lt h)).mono fun first hfirst => Nat.le_succ_of_le hfirst
    · exact .pure (le_refl _)

theorem Lawful.lineText (h : g.Lawful L n) (row : ℕ) : Gives (g.lineText row) fun _ => True := by
  have hrows := h.rows
  have hpos := h.height_pos
  have hlt : min row (g.rows.length - 1) < g.rows.length := by omega
  refine (lineStart_gives hlt).bind fun first hfirst => ?_
  refine (gives_foldlM (P := fun _ => True) (fun text _ row hrow => ?_) trivial).bind fun text _ => .pure trivial
  have hrow := List.mem_range'_1.mp hrow
  unfold Grid.pushRowText
  split
  · exact .pure trivial
  · exact (gives_getElem (by omega)).bind fun row _ => .pure trivial

end beside

end Grid

namespace RowLaw

/-- Rows of a width, with any margins in them. -/
def sized (charWidth : Char → Option ℕ) (width : ℕ) (hpos : 0 < width) (hle : width ≤ 65533) : RowLaw charWidth where
  width := width
  width_pos := hpos
  width_le := hle
  Margins := fun left right => left < right ∧ right < width ∨ left = 0 ∧ right = width - 1
  margins_room := id
  margins_full := .inr ⟨rfl, rfl⟩
  Cells := fun cells => cells.length = width
  length := id
  blank := fun _ => List.length_replicate
  narrow := fun h _ _ => by rw [Row.length_set, h]
  wide := fun h _ _ => by rw [Row.length_set, Row.length_set, h]
  wide_last := fun h _ _ => by rw [Row.length_set, Row.length_set, h]
  erase := fun h => by rw [Row.length_erase, h]
  ascii := fun h hstart hstop hbytes => (length_asciiRow hstart (h ▸ hstop) hbytes _).mono fun _ h' => h'.trans h
  insertBlanks := fun _ h => Row.insertBlanks_gives (P := fun cells => cells.length = width) _ _ _ h
    fun before middle part after hcells _ _ => by
      have := congrArg List.length hcells
      simp only [Row.length_parted, Row.length_shut, List.length_append, Row.length_blanks] at this ⊢
      omega
  deleteCells := fun _ h => Row.deleteCells_gives (P := fun cells => cells.length = width) _ _ _ h
    fun before middle part after hcells _ _ _ => by
      have := congrArg List.length hcells
      simp only [Row.length_cleared, List.length_append, Row.length_blanks] at this ⊢
      omega
  copy := fun hmargins hsource htarget => by
    simp only [List.length_append, List.length_take, List.length_drop]
    omega

end RowLaw

end Term

end Dekit
