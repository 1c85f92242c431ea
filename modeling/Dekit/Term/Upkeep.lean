import Dekit.Term.Csi
import Dekit.Term.Lawful

namespace Dekit

namespace Term

open Slice Vt Total

section widths

variable {charWidth : Char → Option ℕ} {c : Char} {prev : Prev} {w : ℕ}

theorem scalarWidth_le (h : scalarWidth charWidth c = some w) : w ≤ 2 := by
  unfold scalarWidth at h
  split at h
  · cases h
  · split at h <;> cases h <;> omega

theorem attach_le (h : attach charWidth c prev = .new w) : w ≤ 2 := by
  have hle : (scalarWidth charWidth c).getD 0 ≤ 2 := by
    cases hs : scalarWidth charWidth c with
    | none => exact Nat.zero_le 2
    | some w => exact scalarWidth_le hs
  unfold attach at h
  dsimp only at h
  generalize (scalarWidth charWidth c).getD 0 = width at h hle
  repeat' split at h
  all_goals cases h <;> omega

end widths

def RowLaw.Free {charWidth : Char → Option ℕ} (L : RowLaw charWidth) : Prop :=
  ∀ {left right}, left < right → right < L.width → L.Margins left right

namespace Screen

variable {I : Type} {x : Externs I} {L : RowLaw x.charWidth} {n : ℕ} {s : Screen I} {pos : Pos}

/-- Both grids keep to a law, and side margins can be set only where it allows any. -/
structure Lawful {charWidth : Char → Option ℕ} (L : RowLaw charWidth) (n : ℕ) (s : Screen I) : Prop where
  grid : s.grid.Lawful L n
  altGrid : s.altGrid.Lawful L n
  margins : s.modes.margins = true → L.Free

section grids

theorem Lawful.active (h : s.Lawful L n) : s.activeGrid.Lawful L n := by
  unfold activeGrid
  split
  · exact h.altGrid
  · exact h.grid

theorem activeGrid_putGrid (s : Screen I) (g : Grid) : (s.putGrid g).activeGrid = g := by
  unfold putGrid activeGrid
  cases h : s.modes.altScreen <;> simp [h]

theorem Lawful.putGrid (h : s.Lawful L n) {g : Grid} (hg : g.Lawful L n) : (s.putGrid g).Lawful L n := by
  unfold Screen.putGrid
  split
  · exact { h with altGrid := hg }
  · exact { h with grid := hg }

theorem Lawful.withGrid (h : s.Lawful L n) {f : Grid → Option Grid}
    (hf : ∀ g, g.LawfulAt L n s.activeGrid.pos → Gives (f g) (Grid.Lawful L n)) : Gives (s.withGrid f) (Lawful L n) :=
  (hf _ h.active.here).bind fun _ hg => .pure (h.putGrid hg)

theorem Lawful.internStyle (h : s.Lawful L n) (style : Style) : (s.internStyle style).2.Lawful L n :=
  h.putGrid (h.active.here.internStyle style).toLawful

theorem pos_internStyle (s : Screen I) (style : Style) : (s.internStyle style).2.activeGrid.pos = s.activeGrid.pos := by
  unfold internStyle
  rw [activeGrid_putGrid]
  rfl

theorem Lawful.currentLinkId (h : s.Lawful L n) : s.currentLinkId.2.Lawful L n := by
  unfold Screen.currentLinkId
  split
  · exact h
  next link _ =>
    have hlink := h.putGrid (h.active.here.internLink link).toLawful
    split
    · exact h
    · dsimp only
      split
      · exact { hlink with }
      · exact { hlink with }

theorem pos_currentLinkId (s : Screen I) : s.currentLinkId.2.activeGrid.pos = s.activeGrid.pos := by
  unfold currentLinkId
  split
  · rfl
  next link _ =>
    split
    · rfl
    · have hpos := congrArg Grid.pos (activeGrid_putGrid s (s.activeGrid.internLink link).2)
      dsimp only
      split <;> exact hpos

theorem Lawful.styleId (h : s.Lawful L n) : s.styleId.2.Lawful L n := h.currentLinkId.internStyle _

theorem pos_styleId (s : Screen I) : s.styleId.2.activeGrid.pos = s.activeGrid.pos :=
  (pos_internStyle _ _).trans (pos_currentLinkId s)

theorem Lawful.withStyle (h : s.Lawful L n) {f : StyleId → Grid → Option Grid}
    (hf : ∀ style g, g.LawfulAt L n s.activeGrid.pos → Gives (f style g) (Grid.Lawful L n)) :
    Gives (s.withStyle f) (Lawful L n) :=
  h.styleId.withGrid fun g hg => hf _ g (pos_styleId s ▸ hg)

theorem Lawful.saveCursor (h : s.Lawful L n) : s.saveCursor.Lawful L n :=
  { h.putGrid h.active.saveCursor with }

theorem Lawful.restoreCursor (h : s.Lawful L n) : Gives s.restoreCursor (Lawful L n) :=
  (h.withGrid fun _ hg => hg.restoreCursor).bind fun _ hs => .pure { hs with }

theorem Lawful.reply (h : s.Lawful L n) (r : Reply) : (s.reply r).Lawful L n := { h with }

/-- The alternate screen is made the active one. -/
def onAlternate (s : Screen I) : Screen I :=
  if s.modes.altScreen then s
  else { s with modes := { s.modes with altScreen := true }, kitty := s.altKitty, altKitty := s.kitty }

theorem enterAlternateGrid_eq (clear : Bool) : s.enterAlternateGrid x clear =
    let s := { s with grid := s.grid.setScrollback x.charWidth 0 }.onAlternate
    if clear then do
      let (style, g) := s.altGrid.internStyle .default
      let g ← { g.eraseAll style with placements := [] }.setPos .home
      some { s with altGrid := g }
    else some s := rfl

theorem Lawful.onAlternate (h : s.Lawful L n) : s.onAlternate.Lawful L n := by
  unfold Screen.onAlternate
  split
  · exact h
  · exact { h with }

theorem Lawful.enterAlternateGrid (h : s.Lawful L n) (clear : Bool) :
    Gives (s.enterAlternateGrid x clear) (Lawful L n) := by
  have hs := Lawful.onAlternate (s := { s with grid := s.grid.setScrollback x.charWidth 0 })
    { h with grid := (h.grid.here.setScrollback 0).toLawful }
  rw [enterAlternateGrid_eq]
  dsimp only
  split
  · refine Gives.bind (Grid.Framed.setPos ?_ .home) fun g hg => .pure { hs with altGrid := hg }
    exact { (hs.altGrid.here.internStyle .default).eraseAll _ with }
  · exact .pure hs

theorem Lawful.exitAlternateGrid (h : s.Lawful L n) : s.exitAlternateGrid.Lawful L n := by
  unfold Screen.exitAlternateGrid
  split
  · exact { h with }
  · exact h

theorem plainGrid_gives {g : Grid} (h : g.Lawful L n) : Gives (plainGrid n L.width g) (Grid.Lawful L n) := by
  unfold plainGrid
  refine (gives_sub h.height_pos).bind fun lastRow _ => (h.setScrollRegion _ _).bind fun g hg => ?_
  refine (gives_sub L.width_pos).bind fun lastCol hlast => ?_
  refine (hg.setMargins fun _ => ?_).bind fun g hg => hg.setOriginMode false
  rw [hlast, min_self]
  exact L.margins_full

theorem Lawful.softReset (h : s.Lawful L n) : Gives s.softReset (Lawful L n) := by
  unfold Screen.softReset
  dsimp only
  rw [h.grid.height_eq, h.grid.width_eq]
  refine (plainGrid_gives h.grid).bind fun grid hgrid => (plainGrid_gives h.altGrid).bind fun altGrid haltGrid => ?_
  refine Lawful.withGrid ⟨hgrid, haltGrid, fun hoff => ?_⟩ fun g hg => hg.setPos _
  cases hoff

theorem new_lawful {size : Size} (hheight : max size.height 1 = n) (hle : n ≤ 65535)
    (hwidth : max size.width 1 = L.width)
    (scrollbackLen : ℕ) : (Grid.new size scrollbackLen).Lawful L n := by
  have hw := L.width_pos
  refine ⟨⟨hheight, hwidth, by omega, hle, ?_, ?_, .live ?_, ?_, Nat.zero_le _, ?_, ?_⟩, by change 0 < n; omega,
    Nat.zero_le _⟩
  · exact List.length_replicate.trans hheight
  · intro row hrow
    rw [List.eq_of_mem_replicate hrow]
    dsimp only [Row.new]
    rw [hwidth]
    exact .blank L _ 0
  · intro w count hcount
    obtain ⟨rfl, rfl⟩ := Prod.mk.inj (Option.some.inj hcount)
    rfl
  · unfold Grid.new defaultTabs
    rw [List.length_map, List.length_range, hwidth]
  · dsimp only [Grid.new]
    omega
  · dsimp only [Grid.new]
    rw [hwidth]
    exact L.margins_full

theorem new_keeps {size : Size} (hheight : max size.height 1 = n) (hle : n ≤ 65535)
    (hwidth : max size.width 1 = L.width)
    (scrollbackLen : ℕ) : (new x size scrollbackLen).Lawful L n :=
  ⟨new_lawful hheight hle hwidth scrollbackLen, new_lawful hheight hle hwidth 0, fun hoff => by cases hoff⟩

theorem Lawful.reset (h : s.Lawful L n) : (s.reset x).Lawful L n := by
  have hpos := h.grid.height_pos
  have hw := L.width_pos
  have hnew : (new x s.grid.size s.grid.history.capacity).Lawful L n :=
    new_keeps (by rw [h.grid.height_eq]; omega) h.grid.height_le (by rw [h.grid.width_eq]; omega) _
  exact { hnew with }

end grids

section cells

theorem Lawful.prevPos (h : s.Lawful L n) : Gives s.prevPos fun _ => True := by
  unfold Screen.prevPos
  dsimp only
  rw [h.active.lastCol]
  split
  · exact .pure trivial
  · split
    · exact .pure trivial
    · exact .pure trivial

theorem Lawful.prevCell (h : s.Lawful L n) : Gives s.prevCell fun _ => True :=
  h.prevPos.bind fun _ _ => .pure trivial

theorem drawingCell_lt {g : Grid} (h : g.Lawful L n) {cell : Cell} (hcell : g.drawingCell pos = some cell) :
    pos.col < L.width := by
  obtain ⟨row, hrow, hget⟩ := Option.bind_eq_some_iff.mp hcell
  have hlen := (h.cells row (List.mem_of_getElem? hrow)).length
  have := (List.getElem?_eq_some_iff.mp hget).1
  omega

theorem withWidth_not_half {text : CellText} (h : text.isContinuation = false) (width : ℕ) :
    (text.withWidth width).isContinuation = false := by
  cases text <;> exact h

theorem Lawful.join (h : s.Lawful L n) (p : Pos) (c : Char) (widen : Option ℕ) :
    Gives (s.join p c widen) (Lawful L n) := by
  have hroom := h.active.room
  unfold Screen.join
  dsimp only
  split
  · exact .pure h
  next cell hcell =>
    have hcol := drawingCell_lt h.active hcell
    split
    · exact .pure h
    · generalize hwidth : widen.getD (max cell.width 1) = width
      generalize cell.text.asStr s.activeGrid.tables.graphemes ++ [c] = text
      have hg := h.active.here.cellText text width
      have hhalf : (s.activeGrid.cellText text width).1.isContinuation = false := Grid.of_not_half _ _ _
      have hknown := CellText.of_known s.activeGrid.tables.graphemes text width
      split
      · refine (gives_add (l := 65536) (by omega)).bind fun next hnext => ?_
        split
        · exact (hg.writeCell p (withWidth_not_half hhalf 1) (hknown.withWidth 1) _).bind fun g' hg' =>
            .pure (h.putGrid hg'.toLawful)
        next hin =>
          refine (hg.writeCell p hhalf hknown _).bind fun g' hg' => .pure (h.putGrid ?_)
          rw [hg.width_eq] at hin
          split
          next hat =>
            refine hg'.toLawful.colInc ?_
            have hcursor : s.activeGrid.pos.col = next := hat.2
            rw [hg'.pos_eq]
            omega
          · exact hg'.toLawful
      · exact (hg.writeCell p hhalf hknown _).bind fun g' hg' => .pure (h.putGrid hg'.toLawful)

theorem makeRoom_gives {g : Grid} (h : g.Lawful L n) (autowrap : Bool) {w : ℕ} (hw : w ≤ 2) (style : StyleId) :
    Gives (makeRoom x autowrap w style g) fun p =>
      p.2.Lawful L n ∧ (p.1 = true → p.2.pos.col + w ≤ max L.width 2) := by
  have hroom := h.room
  have hcol := h.col
  unfold makeRoom
  refine (gives_add (l := 65536) (by omega)).bind fun needed hneeded => ?_
  refine (gives_add (l := 65536) (by omega)).bind fun room hroom' => ?_
  split
  · split
    · exact (h.colWrap hw style).bind fun g' hg => .pure ⟨hg.1, fun _ => hg.2⟩
    · have hstay := h.colStay
      have hright : g.colStay.pos.col ≤ g.marginRight := min_le_right _ _
      refine (gives_add (l := 65536) (by omega)).bind fun next hnext => .pure ⟨hstay, fun hfits => ?_⟩
      simp only [Bool.not_eq_true', decide_eq_false_iff_not] at hfits
      dsimp only
      have : g.colStay.marginRight = g.marginRight := rfl
      omega
  · exact .pure ⟨h, fun _ => by dsimp only; omega⟩

theorem Lawful.writeNew (h : s.Lawful L n) (c : Char) {w : ℕ} (hw : w ≤ 2) : Gives (s.writeNew x c w) (Lawful L n) := by
  have hid := h.styleId
  unfold Screen.writeNew
  generalize s.styleId = styled at hid ⊢
  obtain ⟨style, s⟩ := styled
  refine (makeRoom_gives hid.active _ hw style).bind ?_
  rintro ⟨fits, g⟩ ⟨hg, hfits⟩
  dsimp only at hid hg hfits ⊢
  have hwrite : ∀ g' : Grid, g'.LawfulAt L n g.pos → fits = true → Gives (do
      let g ← g'.writeCell g'.pos (.ofScalar c w) style
      some { s.putGrid (g.colInc w) with lastChar := some c, placeholderMarks := 0 }) (Lawful L n) := fun g' hg' hfit => by
    refine (hg'.writeCell _ rfl (by trivial) style).bind fun g'' hg'' => .pure ?_
    have hinc := hid.putGrid (g := g''.colInc w) (hg''.toLawful.colInc (by rw [hg''.pos_eq]; exact hfits hfit))
    exact { hinc with }
  split
  · exact .pure (hid.putGrid hg)
  next hfit =>
    rw [Bool.not_eq_true', Bool.not_eq_false] at hfit
    split
    · exact (hg.here.insertCells w style).bind fun g' hg' => hwrite g' hg' hfit
    · exact hwrite g hg.here hfit

theorem Lawful.repeatLast (h : s.Lawful L n) (count : ℕ) : Gives (s.repeatLast x count) (Lawful L n) := by
  unfold Screen.repeatLast
  split
  · exact .pure h
  next c _ =>
    have hle : max ((scalarWidth x.charWidth c).getD 1) 1 ≤ 2 := by
      cases hs : scalarWidth x.charWidth c with
      | none => exact Nat.le_succ 1
      | some w => exact max_le (scalarWidth_le hs) (Nat.le_succ 1)
    exact gives_times (fun s hs => hs.writeNew c hle) h _

end cells

section runs

theorem Lawful.writePlaceholder (h : s.Lawful L n) : Gives (s.writePlaceholder x) (Lawful L n) := by
  have hid := h.styleId
  unfold Screen.writePlaceholder
  generalize s.styleId = styled at hid ⊢
  obtain ⟨style, s⟩ := styled
  dsimp -zeta only at hid ⊢
  extract_lets g write
  have hwrite : ∀ g : Grid, g.Lawful L n → g.pos.col + 1 ≤ max L.width 2 → Gives (write g) (Lawful L n) :=
      fun g hg hcol => by
    have hslot := hg.here.placeholderSlot (colorId s.style.fg) (colorId s.style.ul)
    dsimp only [write]
    split
    · exact .pure (hid.putGrid hslot.toLawful)
    next slot _ =>
      refine (hslot.writeCell _ rfl (by trivial) style).bind fun g' hg' => .pure ?_
      have hinc := hid.putGrid (g := g'.colInc 1) (hg'.toLawful.colInc (by rw [hg'.pos_eq]; exact hcol))
      exact { hinc with }
  have hg : g.Lawful L n := hid.active
  have hroom := hg.room
  split
  · split
    · exact (hg.colWrap (Nat.le_succ 1) style).bind fun g' hg' => hwrite g' hg'.1 hg'.2
    · have hright : g.colStay.pos.col ≤ g.marginRight := min_le_right _ _
      exact hwrite _ hg.colStay (by omega)
  · exact hwrite _ hg (by omega)

/-- The placeholder that one more diacritic makes of one, if it makes any. -/
def markedText (s : Screen I) (slot row col mark : ℕ) : Option CellText × Grid :=
  let g := s.activeGrid
  match s.placeholderMarks with
  | 0 => (some (.ofImage slot mark col), g)
  | 1 => (some (.ofImage slot row mark), g)
  | 2 =>
    match g.placeholderIds slot with
    | none => (none, g)
    | some (imageId, placementId) =>
      let (slot, g) := g.placeholderSlot (imageId % 16777216 + mark % 256 * 16777216) placementId
      (slot.map fun slot => .ofImage slot row col, g)
  | _ => (none, g)

theorem markPlaceholder_eq (p : Pos) (mark : ℕ) : s.markPlaceholder p mark =
    match s.activeGrid.drawingCell p with
    | some ⟨.image slot row col, style⟩ =>
      let (text, g) := s.markedText slot row col mark
      match text with
      | none => some (true, s.putGrid g)
      | some text => do
        let g ← g.writeCell p text style
        some (true, { s.putGrid g with placeholderMarks := s.placeholderMarks + 1 })
    | _ => some (false, s) := rfl

theorem Lawful.markedText (h : s.Lawful L n) (slot row col mark : ℕ) :
    (s.markedText slot row col mark).2.LawfulAt L n s.activeGrid.pos ∧
      ∀ text, (s.markedText slot row col mark).1 = some text → text.isContinuation = false ∧ ∀ m, text.Known m := by
  have hg := h.active.here
  unfold Screen.markedText
  dsimp only
  split
  · exact ⟨hg, fun text htext => by cases htext; exact ⟨rfl, fun _ => trivial⟩⟩
  · exact ⟨hg, fun text htext => by cases htext; exact ⟨rfl, fun _ => trivial⟩⟩
  · split
    · exact ⟨hg, fun text htext => by cases htext⟩
    · refine ⟨hg.placeholderSlot _ _, fun text htext => ?_⟩
      obtain ⟨slot, -, rfl⟩ := Option.map_eq_some_iff.mp htext
      exact ⟨rfl, fun _ => trivial⟩
  · exact ⟨hg, fun text htext => by cases htext⟩

theorem Lawful.markPlaceholder (h : s.Lawful L n) (p : Pos) (mark : ℕ) :
    Gives (s.markPlaceholder p mark) fun q => q.2.Lawful L n := by
  rw [markPlaceholder_eq]
  split
  next slot row col style _ =>
    obtain ⟨hg, htext⟩ := h.markedText slot row col mark
    generalize s.markedText slot row col mark = marked at hg htext ⊢
    obtain ⟨text, g⟩ := marked
    dsimp only at hg htext ⊢
    cases text with
    | none => exact .pure (h.putGrid hg.toLawful)
    | some text =>
      exact (hg.writeCell p (htext text rfl).1 ((htext text rfl).2 _) style).bind fun g' hg' =>
        .pure { h.putGrid hg'.toLawful with }
  · exact .pure h

theorem Lawful.putScalar (h : s.Lawful L n) (c : Char) : Gives (s.putScalar x c) (Lawful L n) := by
  refine h.prevCell.bind fun prev _ => ?_
  split
  next w hw => exact h.writeNew c (attach_le hw)
  · split
    · exact h.join _ c none
    · exact .pure h
  · split
    · exact h.join _ c (some 2)
    · exact .pure h

def translated (s : Screen I) (c : Char) : Char :=
  let set := match s.singleShift with
    | some g => s.charsets g
    | none => s.glSet
  if c.toNat < 0x80 then set.translate c else c

def putTranslated (x : Externs I) (s : Screen I) (c : Char) : Option (Screen I) :=
  if (scalarWidth x.charWidth c).isNone then some s
  else if c = CellText.placeholder then s.writePlaceholder x
  else do
    let (marked, s) ← match markIndex c with
      | none => some (false, s)
      | some mark => do
        match ← s.prevPos with
        | none => some (false, s)
        | some pos => s.markPlaceholder pos mark
    if marked then some s else s.putScalar x c

theorem putChar_eq (c : Char) :
    s.putChar x c = putTranslated x { s with singleShift := none } (s.translated c) := rfl

theorem Lawful.putTranslated (h : s.Lawful L n) (c : Char) : Gives (putTranslated x s c) (Lawful L n) := by
  have hput : ∀ (marked : Bool) (s : Screen I), s.Lawful L n →
      Gives (if marked then some s else s.putScalar x c) (Lawful L n) := fun marked s hs => by
    split
    · exact .pure hs
    · exact hs.putScalar c
  unfold Screen.putTranslated
  split
  · exact .pure h
  · split
    · exact h.writePlaceholder
    · split
      · exact hput false _ h
      · refine h.prevPos.bind fun at' _ => ?_
        cases at' with
        | none => exact hput false _ h
        | some p => exact (h.markPlaceholder p _).bind fun q hq => hput q.1 q.2 hq

theorem Lawful.putChar (h : s.Lawful L n) (c : Char) : Gives (s.putChar x c) (Lawful L n) := by
  rw [putChar_eq]
  exact Lawful.putTranslated (s := { s with singleShift := none }) { h with } _

theorem Lawful.blit (h : s.Lawful L n) (run : List Char) : Gives (s.blit run) fun p => p.2.Lawful L n := by
  have hroom := h.active.room
  unfold Screen.blit
  dsimp only
  split
  · exact .pure h
  next hin =>
    push Not at hin
    have hlen := List.length_pos_of_ne_nil (by simpa using hin.1 : run ≠ [])
    refine (gives_add (l := 65536) (by omega)).bind fun stop hstop => ?_
    refine (gives_sub (by omega)).bind fun room hr => ?_
    refine Gives.bind (h.withStyle fun style g hg => ?_) fun s' hs => ?_
    · refine (hg.writeAsciiRow (by omega) _ style).bind fun g' hg' => .pure (hg'.toLawful.colInc ?_)
      rw [hg'.pos_eq]
      omega
    · have hne : run.take (min run.length room) ≠ [] := List.ne_nil_of_length_pos (by rw [List.length_take]; omega)
      rw [List.getLast?_eq_some_getLast hne]
      exact .pure { hs with }

theorem Lawful.textTurn (h : s.Lawful L n) (c : Char) (rest : List Char) :
    Gives (s.textTurn x c rest) fun p => p.2.Lawful L n := by
  refine (h.putChar c).bind fun s hs => ?_
  split
  · exact .pure hs
  · exact hs.blit _

theorem Lawful.textRun (h : s.Lawful L n) (skip : ℕ) (text : List Char) :
    Gives (textRun x skip text s) (Lawful L n) := by
  induction text generalizing skip s with
  | nil => exact .pure h
  | cons c rest ih =>
    cases skip with
    | succ skip => exact ih h skip
    | zero => exact (h.textTurn c rest).bind fun p hp => ih hp p.1

end runs

section csi

theorem Lawful.eraseDisplay (h : s.Lawful L n) (mode : ℕ) : Gives (s.eraseDisplay mode) (Lawful L n) := by
  have hid := h.styleId
  unfold Screen.eraseDisplay
  split
  next style s' heq =>
    rw [heq] at hid
    split
    · exact hid.withGrid fun g hg => (hg.eraseAllForward style).mono fun _ hg' => hg'.toLawful
    · exact hid.withGrid fun g hg => (hg.eraseAllBackward style).mono fun _ hg' => hg'.toLawful
    · exact .pure (hid.putGrid (hid.active.here.eraseAll style).toLawful)
    · exact .pure (hid.putGrid hid.active.here.clearHistory.toLawful)
    · exact .pure hid

theorem Lawful.eraseLine (h : s.Lawful L n) (mode : ℕ) : Gives (s.eraseLine mode) (Lawful L n) := by
  have hid := h.styleId
  unfold Screen.eraseLine
  split
  next style s' heq =>
    rw [heq] at hid
    split
    · exact hid.withGrid fun g hg => (hg.eraseRowForward style).mono fun _ hg' => hg'.toLawful
    · exact hid.withGrid fun g hg => (hg.eraseRowBackward style).mono fun _ hg' => hg'.toLawful
    · exact hid.withGrid fun g hg => (hg.eraseRow style).mono fun _ hg' => hg'.toLawful
    · exact .pure hid

theorem Lawful.cursorReportPos (h : s.Lawful L n) : Gives s.cursorReportPos fun _ => True := by
  unfold Screen.cursorReportPos
  dsimp only
  rw [h.active.lastCol]
  exact .pure trivial

theorem Lawful.deviceStatus (h : s.Lawful L n) (p : Params) : Gives (s.deviceStatus p) (Lawful L n) := by
  unfold Screen.deviceStatus
  split
  · exact .pure (h.reply _)
  · exact h.cursorReportPos.bind fun _ _ => .pure (h.reply _)
  · exact .pure h

theorem Lawful.decDeviceStatus (h : s.Lawful L n) (p : Params) : Gives (s.decDeviceStatus p) (Lawful L n) := by
  unfold Screen.decDeviceStatus
  split
  · exact h.cursorReportPos.bind fun _ _ => .pure (h.reply _)
  · exact .pure (h.reply _)
  · exact .pure (h.reply _)
  · exact .pure (h.reply _)
  · exact .pure (h.reply _)
  · exact .pure (h.reply _)
  · exact .pure h

theorem Lawful.windowOp (h : s.Lawful L n) (p : Params) : (s.windowOp p).Lawful L n := by
  unfold Screen.windowOp
  dsimp only
  repeat' split
  all_goals first | exact h | exact { h with }

theorem Lawful.graphicsAttributes (h : s.Lawful L n) (p : Params) : (s.graphicsAttributes p).Lawful L n := by
  unfold Screen.graphicsAttributes
  split <;> first | exact h.reply _ | exact h

theorem Lawful.kittyKeyboard (h : s.Lawful L n) (p : Params) : (s.kittyKeyboard p).Lawful L n := by
  unfold Screen.kittyKeyboard
  repeat' split
  all_goals first | exact h | exact { h with }

theorem shiftColumns_gives {g : Grid} (h : g.Lawful L n) {edit : Grid → Option Grid}
    (hedit : ∀ g, g.LawfulAt L n g.pos → Gives (edit g) (Grid.LawfulAt L n g.pos)) :
    Gives (shiftColumns edit g) (Grid.Lawful L n) :=
  (h.setPosAbsolute _).bind fun g' hg => (hedit g' hg.here).bind fun _ hg' => hg'.setPosAbsolute _

theorem Lawful.setRegion (h : s.Lawful L n) (p : Params) : Gives (s.setRegion p) (Lawful L n) := by
  have hheight := h.active.height_eq
  have hpos := h.active.height_pos
  unfold Screen.setRegion
  dsimp only
  refine (gives_sub (le_max_right _ _)).bind fun top _ => (gives_sub ?_).bind fun bottom _ => ?_
  · split
    · exact le_max_right _ _
    · omega
  · exact h.withGrid fun g hg => hg.setScrollRegion _ _

theorem Lawful.setSideMargins (h : s.Lawful L n) (hmargins : s.modes.margins = true) (p : Params) :
    Gives (s.setSideMargins p) (Lawful L n) := by
  have hwidth := h.active.width_eq
  have hpos := L.width_pos
  unfold Screen.setSideMargins
  dsimp only
  refine (gives_sub (le_max_right _ _)).bind fun left _ => (gives_sub ?_).bind fun right _ => ?_
  · split
    · exact le_max_right _ _
    · omega
  · exact h.withGrid fun g hg => hg.setMargins fun hlt => h.margins hmargins hlt (by omega)

theorem Lawful.pushStyle (h : s.Lawful L n) : s.pushStyle.Lawful L n := by
  unfold Screen.pushStyle
  split
  · exact { h with }
  · exact h

theorem Lawful.popStyle (h : s.Lawful L n) : s.popStyle.Lawful L n := by
  unfold Screen.popStyle
  split
  · exact { h with }
  · exact h

theorem Lawful.sgr (h : s.Lawful L n) (p : Params) : (s.sgr p).Lawful L n := by
  unfold Screen.sgr
  split
  · exact { h with }
  · exact { h with }

end csi

section modes

/-- A sequence that turns the mode on in which side margins can be set. -/
def EnablesMargins : Seq → Prop
  | .csi p => (p.invalid = false ∧ p.inter = 0) ∧ p.prefixByte = 0x3F ∧ p.final = 0x68 ∧
    ∃ i, p.isSub i = false ∧ p.getOpt i = some 69
  | _ => False

theorem Lawful.setAnsiMode (h : s.Lawful L n) (mode : ℕ) (set : Bool) : (s.setAnsiMode mode set).Lawful L n := by
  unfold Screen.setAnsiMode
  split
  · exact { h with }
  · exact { h with }
  · exact { h with }
  · exact h

theorem Lawful.setMouseMode (h : s.Lawful L n) (mode : MouseMode) (set : Bool) :
    (s.setMouseMode mode set).Lawful L n := by
  unfold Screen.setMouseMode
  split
  · exact { h with }
  · split
    · exact { h with }
    · exact h

theorem Lawful.setMouseEncoding (h : s.Lawful L n) (encoding : MouseEncoding) (set : Bool) :
    (s.setMouseEncoding encoding set).Lawful L n := by
  unfold Screen.setMouseEncoding
  split
  · exact { h with }
  · split
    · exact { h with }
    · exact h

theorem Lawful.alternate (h : s.Lawful L n) (set clear : Bool) :
    Gives (if set then s.enterAlternateGrid x clear else some s.exitAlternateGrid) (Lawful L n) := by
  split
  · exact h.enterAlternateGrid clear
  · exact .pure h.exitAlternateGrid

theorem Lawful.inbandResize (h : s.Lawful L n) (set : Bool) :
    (let s := { s with modes := { s.modes with inbandResize := set } }
      if set then s.reportSizeInband else s).Lawful L n := by
  dsimp only
  split
  · exact { h with }
  · exact { h with }

theorem Lawful.setDecMode (h : s.Lawful L n) (mode : ℕ) (set : Bool) (hfree : mode = 69 → set = true → L.Free) :
    Gives (s.setDecMode x mode set) (Lawful L n) := by
  have hfull : ∀ g : Grid, g.LawfulAt L n s.activeGrid.pos → Gives (g.setMargins 0 (L.width - 1)) (Grid.Lawful L n) :=
    fun g hg => hg.setMargins fun _ => by
      rw [min_self]
      exact L.margins_full
  unfold Screen.setDecMode
  split
  any_goals first
    | exact .pure (h.setMouseMode _ set)
    | exact .pure (h.setMouseEncoding _ set)
    | exact h.alternate set false
    | exact .pure (h.inbandResize set)
    | exact .pure { h with }
  · exact h.withGrid fun g hg => hg.setOriginMode set
  · dsimp only
    split
    next hset => exact .pure { h with margins := fun _ => hfree rfl hset }
    next hset =>
      rw [show ({ s with modes := { s.modes with margins := set } } : Screen I).activeGrid = s.activeGrid from rfl,
        h.active.lastCol]
      exact Lawful.withGrid (s := { s with modes := { s.modes with margins := set } })
        { h with margins := fun hon => absurd hon hset } hfull
  · split
    · exact .pure h.saveCursor
    · exact h.restoreCursor
  · split
    · exact h.saveCursor.enterAlternateGrid true
    · exact h.exitAlternateGrid.restoreCursor

theorem Lawful.setModes (h : s.Lawful L n) {p : Params} (hvalid : p.invalid = false ∧ p.inter = 0)
    (hfree : EnablesMargins (.csi p) → L.Free) : Gives (s.setModes x p) (Lawful L n) := by
  refine gives_foldlM (fun s hs i _ => ?_) h
  unfold setMode
  split
  · exact .pure hs
  next hsub =>
    split
    · exact .pure hs
    next mode hmode =>
      split
      next hprivate =>
        refine hs.setDecMode mode _ fun hm hset => hfree ⟨hvalid, hprivate, of_decide_eq_true hset, i, ?_, hm ▸ hmode⟩
        exact Bool.eq_false_iff.mpr hsub
      · exact .pure (hs.setAnsiMode _ _)

theorem Lawful.requestMode (h : s.Lawful L n) (p : Params) : (s.requestMode p).Lawful L n := by
  unfold Screen.requestMode
  split
  · exact h
  · exact h.reply _

end modes

section dispatch

theorem Lawful.editGrid (h : s.Lawful L n) {f : Grid → Option Grid}
    (hf : ∀ g, g.LawfulAt L n s.activeGrid.pos → Gives (f g) (Grid.LawfulAt L n s.activeGrid.pos)) :
    Gives (s.withGrid f) (Lawful L n) :=
  h.withGrid fun g hg => (hf g hg).mono fun _ hg' => hg'.toLawful

theorem Lawful.csiPlain (h : s.Lawful L n) (style : StyleId) {p : Params} (hvalid : p.invalid = false ∧ p.inter = 0)
    (hfree : EnablesMargins (.csi p) → L.Free) : Gives (s.csiPlain x style p) (Lawful L n) := by
  have hpos : 1 ≤ max (p.get16 0 1) 1 := le_max_right _ _
  unfold Screen.csiPlain
  dsimp only
  split
  · exact h.editGrid fun g hg => hg.insertCells _ style
  · exact .pure (h.putGrid (h.active.rowDecClamp _))
  · exact h.withGrid fun g hg => hg.rowIncClamp _
  · exact h.withGrid fun g hg => hg.colIncClamp _
  · exact h.withGrid fun g hg => hg.colDec _
  · exact h.withGrid fun g hg => (hg.rowIncClamp _).bind fun g' hg' => hg'.colSet 0
  · exact h.withGrid fun g hg => (hg.rowDecClamp _).colSet 0
  · exact (gives_sub hpos).bind fun col _ => h.withGrid fun g hg => hg.colSet col
  · exact (gives_sub hpos).bind fun col _ => h.withGrid fun g hg => hg.colSet col
  · exact (gives_sub hpos).bind fun row _ => (gives_sub (le_max_right _ _)).bind fun col _ =>
      h.withGrid fun g hg => hg.setPos ⟨row, col⟩
  · exact (gives_sub hpos).bind fun row _ => (gives_sub (le_max_right _ _)).bind fun col _ =>
      h.withGrid fun g hg => hg.setPos ⟨row, col⟩
  · exact h.withGrid fun g hg => hg.tabForward _
  · exact h.eraseDisplay _
  · exact h.eraseLine _
  · exact h.editGrid fun g hg => hg.insertLines _ style
  · exact h.editGrid fun g hg => hg.deleteLines _ style
  · exact h.editGrid fun g hg => hg.deleteCells _ style
  · exact h.editGrid fun g hg => hg.scrollUp _ style
  · split
    · exact h.editGrid fun g hg => hg.scrollDown _ style
    · exact .pure h
  · exact h.editGrid fun g hg => hg.eraseCells _ style
  · exact h.withGrid fun g hg => hg.tabBack _
  · exact h.repeatLast _
  · exact .pure (h.reply _)
  · exact (gives_sub hpos).bind fun row _ => h.withGrid fun g hg => hg.rowSet row
  · exact h.withGrid fun g hg => hg.rowIncClamp _
  · split
    · exact h.withGrid fun g hg => hg.putTab false
    · exact .pure (h.putGrid h.active.clearAllTabs)
    · exact .pure h
  · exact h.setModes hvalid hfree
  · exact h.setModes hvalid hfree
  · exact .pure (h.sgr p)
  · exact h.deviceStatus p
  · exact h.setRegion p
  · split
    next hmargins => exact h.setSideMargins hmargins p
    next => exact .pure h.saveCursor
  · split
    · exact h.restoreCursor
    · exact .pure h
  · exact .pure (h.windowOp p)
  · exact .pure h

theorem Lawful.csiInter (h : s.Lawful L n) (style : StyleId) (p : Params) :
    Gives (s.csiInter style p) (Lawful L n) := by
  unfold Screen.csiInter
  dsimp only
  split
  · exact h.withGrid fun g hg => shiftColumns_gives hg.toLawful fun g' hg' => hg'.deleteColumns _ style
  · exact h.withGrid fun g hg => shiftColumns_gives hg.toLawful fun g' hg' => hg'.insertColumns _ style
  · exact h.softReset
  · exact .pure (h.requestMode p)
  · exact .pure { h with }
  · exact h.editGrid fun g hg => hg.insertColumns _ style
  · exact h.editGrid fun g hg => hg.deleteColumns _ style
  · exact .pure h.pushStyle
  · exact .pure h.pushStyle
  · exact .pure h.popStyle
  · exact .pure h.popStyle
  · exact .pure h

theorem Lawful.csiPrefixed (h : s.Lawful L n) {p : Params} (hvalid : p.invalid = false ∧ p.inter = 0)
    (hfree : EnablesMargins (.csi p) → L.Free) : Gives (s.csiPrefixed x p) (Lawful L n) := by
  unfold Screen.csiPrefixed
  split
  · exact h.eraseDisplay _
  · exact h.eraseLine _
  · exact .pure (h.graphicsAttributes p)
  · exact .pure (h.reply _)
  · exact .pure (h.reply _)
  · exact h.setModes hvalid hfree
  · exact h.setModes hvalid hfree
  · exact h.decDeviceStatus p
  · exact .pure (h.reply _)
  · exact .pure (h.kittyKeyboard p)
  · exact .pure (h.kittyKeyboard p)
  · exact .pure (h.kittyKeyboard p)
  · exact .pure (h.kittyKeyboard p)
  · exact .pure h

theorem Lawful.csi (h : s.Lawful L n) (p : Params) (hfree : EnablesMargins (.csi p) → L.Free) :
    Gives (s.csi x p) (Lawful L n) := by
  have hid := h.styleId
  unfold Screen.csi
  generalize s.styleId = styled at hid ⊢
  obtain ⟨style, s'⟩ := styled
  dsimp only at hid ⊢
  split
  · exact .pure h
  next hinvalid =>
    split
    next hinter =>
      have hvalid := And.intro (Bool.eq_false_iff.mpr hinvalid) hinter
      split
      · exact hid.csiPlain style hvalid hfree
      · exact hid.csiPrefixed hvalid hfree
    · split
      · exact hid.csiInter style p
      · exact .pure hid

end dispatch

section control

theorem Lawful.lineFinished (h : s.Lawful L n) (row : ℕ) : Gives (s.lineFinished row) (Lawful L n) := by
  unfold Screen.lineFinished
  split
  · exact .pure h
  · refine (h.active.lineText row).bind fun text _ => .pure ?_
    split
    · exact h
    · exact { h with }

theorem Lawful.rowIncScroll (h : s.Lawful L n) : Gives (s.rowIncScroll x) (Lawful L n) :=
  h.withStyle fun style _ hg => (hg.rowIncScroll 1 style).bind fun _ hp => .pure hp.1

theorem Lawful.linefeed (h : s.Lawful L n) : Gives (s.linefeed x) (Lawful L n) := by
  refine (h.lineFinished _).bind fun s₁ h₁ => h₁.rowIncScroll.bind fun s₂ h₂ => ?_
  split
  · exact h₂.withGrid fun g hg => hg.colSet _
  · exact .pure h₂

theorem Lawful.reverseIndex (h : s.Lawful L n) : Gives s.reverseIndex (Lawful L n) :=
  h.withStyle fun style _ hg => hg.rowDecScroll (by omega) style

theorem Lawful.carriageReturn (h : s.Lawful L n) : Gives s.carriageReturn (Lawful L n) := by
  have hreturn : ∀ s : Screen I, s.Lawful L n →
      Gives (s.withGrid fun g => g.colSet (if g.marginLeft ≤ g.pos.col then g.marginLeft else 0)) (Lawful L n) :=
    fun s hs => hs.withGrid fun g hg => hg.colSet _
  unfold Screen.carriageReturn
  split
  · exact (h.lineFinished _).bind fun s hs => hreturn s hs
  · exact hreturn s h

theorem Lawful.control (h : s.Lawful L n) (b : UInt8) : Gives (s.control x b) (Lawful L n) := by
  unfold Screen.control
  split
  · exact h.withGrid fun g hg => hg.colDec 1
  · exact h.withGrid fun g hg => hg.tabForward 1
  · exact h.linefeed
  · exact h.linefeed
  · exact h.linefeed
  · exact h.carriageReturn
  · exact .pure { h with }
  · exact .pure { h with }
  · exact h.reverseIndex
  · exact .pure h

theorem Lawful.nextLine (h : s.Lawful L n) : Gives (s.nextLine x) (Lawful L n) :=
  (h.lineFinished _).bind fun _ h₁ => h₁.rowIncScroll.bind fun _ h₂ => h₂.withGrid fun _ hg => hg.colSet _

theorem Lawful.escape (h : s.Lawful L n) (final : UInt8) : Gives (s.escape x final) (Lawful L n) := by
  unfold Screen.escape
  split
  · exact .pure h.saveCursor
  · exact h.restoreCursor
  · exact .pure { h with }
  · exact .pure { h with }
  · exact h.rowIncScroll
  · exact h.nextLine
  · exact h.withGrid fun g hg => hg.putTab true
  · exact h.reverseIndex
  · exact .pure { h with }
  · exact .pure { h with }
  · exact .pure { h with }
  · exact .pure { h with }
  · exact .pure h.reset
  · exact .pure h

theorem Lawful.designate (h : s.Lawful L n) (slot : Slot) (set : CharSet) : (s.designate slot set).Lawful L n :=
  { h with }

theorem Lawful.screenAlignment (h : s.Lawful L n) : Gives s.screenAlignment (Lawful L n) := by
  unfold Screen.screenAlignment
  dsimp only
  rw [h.active.height_eq, h.active.width_eq]
  refine (h.internStyle .default).withGrid fun g hg => ?_
  refine (gives_sub h.active.height_pos).bind fun lastRow _ => (hg.setScrollRegion _ _).bind fun g₁ h₁ => ?_
  refine (gives_sub L.width_pos).bind fun lastCol hlast => (h₁.setMargins fun _ => ?_).bind fun g₂ h₂ => ?_
  · rw [hlast, min_self]
    exact L.margins_full
  · refine Gives.bind (gives_foldlM (fun g hg row _ => gives_foldlM (fun g hg col _ => ?_) hg) h₂) fun g hg =>
      hg.setPos .home
    exact (hg.here.writeCell _ rfl (by trivial) _).mono fun g' hg' => hg'.toLawful

theorem Lawful.escapeNf (h : s.Lawful L n) (inter final : UInt8) : Gives (s.escapeNf inter final) (Lawful L n) := by
  unfold Screen.escapeNf
  dsimp only
  split
  any_goals first
    | exact .pure (h.designate _ _)
    | exact .pure h
  split
  · exact h.screenAlignment
  · exact .pure h

end control

section strings

theorem Lawful.setLink (h : s.Lawful L n) (link : Option Link) : (s.setLink link).Lawful L n := by
  unfold Screen.setLink
  split
  · exact h
  · exact { h with }

theorem Lawful.osc (h : s.Lawful L n) (data : List UInt8) : (s.osc data).Lawful L n := by
  unfold Screen.osc
  split
  · exact h
  · dsimp only
    split
    · exact { h with }
    · exact { h with }
    · unfold Screen.oscHyperlink
      dsimp only
      split
      · exact h.setLink none
      · exact h.setLink _
    · exact h

theorem makeImageRoom_gives {g : Grid} (h : g.Lawful L n) (rows : ℕ) (style : StyleId) :
    Gives (makeImageRoom x rows style g) fun p => p.2.LawfulAt L n g.pos := by
  unfold makeImageRoom
  dsimp only
  split
  · exact (h.here.scrollUp _ style).bind fun g' hg => (gives_sub (min_le_right _ _)).bind fun row _ => .pure hg
  · exact .pure h.here

theorem Lawful.placeImage (h : s.Lawful L n) (shown : Shown) (cells : Bool) :
    Gives (s.placeImage x shown cells) (Lawful L n) := by
  unfold Screen.placeImage
  dsimp only
  split
  · exact .pure (h.putGrid { h.active with })
  · refine h.withStyle fun style g hg => ?_
    rw [hg.lastCol, hg.height_eq, hg.width_eq, Option.bind_eq_bind, Option.bind_some]
    refine (makeImageRoom_gives hg.toLawful _ style).bind fun p hp => ?_
    split
    · exact .pure { hp with }
    · refine (gives_sub hg.height_pos).bind fun lastRow _ => ?_
      refine ((hp.withPlacements _).setPos_cell _).bind fun g' hg' => .pure ?_
      split
      · exact hg'.1.colInc (by omega)
      · exact hg'.1

theorem Lawful.withImages (h : s.Lawful L n) (images : I) : ({ s with images := images } : Screen I).Lawful L n :=
  { h with }

theorem Lawful.act (h : s.Lawful L n) (did : GraphicsAct) : Gives (s.act x did) (Lawful L n) := by
  cases did with
  | place shown => exact h.placeImage shown false
  | remove pick => exact .pure (h.putGrid { h.active with })

/-- No number overflows where the images in a sequence are decoded, whatever is in the store. -/
def Decodes (x : Externs I) : Seq → Prop
  | .dcs data => isSixel data = true → ∀ images cell, (x.sixel images cell data).isSome = true
  | .apc (0x47 :: body) => ∀ images grid cell, (x.graphics images grid cell body).isSome = true
  | _ => True

theorem Lawful.apc (h : s.Lawful L n) (data : List UInt8) :
    Gives (s.apc x data) (Lawful L n) ∨ s.apc x data = none ∧ ¬Decodes x (.apc data) := by
  unfold Screen.apc
  split
  next body =>
    refine (Gives.after (o := x.graphics s.images s.activeGrid s.cellPixels body) fun made => ?_).imp_right fun hnone => ?_
    · obtain ⟨images, did⟩ := made
      cases did with
      | none => exact .pure { h with }
      | some did => exact (h.withImages _).act did
    · rw [hnone]
      refine ⟨rfl, fun hdecodes => ?_⟩
      have hsome := hdecodes s.images s.activeGrid s.cellPixels
      rw [hnone] at hsome
      cases hsome
  · exact .inl (.pure h)

theorem Lawful.dcs (h : s.Lawful L n) (data : List UInt8) :
    Gives (s.dcs x data) (Lawful L n) ∨ s.dcs x data = none ∧ ¬Decodes x (.dcs data) := by
  unfold Screen.dcs
  split
  next hsixel =>
    unfold Screen.sixel
    refine (Gives.after (o := x.sixel s.images s.cellPixels data) fun made => ?_).imp_right fun hnone => ?_
    · obtain ⟨images, shown⟩ := made
      cases shown with
      | none => exact .pure { h with }
      | some shown =>
        refine ((h.withImages _).placeImage shown true).bind fun s₁ h₁ => ?_
        exact h₁.rowIncScroll.bind fun s₂ h₂ => h₂.withGrid fun g hg => hg.colSet _
    · rw [hnone]
      refine ⟨rfl, fun hdecodes => ?_⟩
      have hsome := hdecodes hsixel s.images s.cellPixels
      rw [hnone] at hsome
      cases hsome
  · exact .inl (.pure h)

end strings

section process

theorem Lawful.apply (h : s.Lawful L n) (seq : Seq) (hfree : EnablesMargins seq → L.Free) :
    Gives (s.apply x seq) (Lawful L n) ∨ s.apply x seq = none ∧ ¬Decodes x seq := by
  cases seq with
  | text text => exact .inl (h.textRun 0 _)
  | ctl b => exact .inl (h.control b)
  | esc inter final =>
    unfold Screen.apply
    dsimp only
    split
    · exact .inl (h.escape final)
    · exact .inl (h.escapeNf inter final)
  | csi p => exact .inl (h.csi p hfree)
  | osc data => exact .inl (.pure (h.osc data))
  | dcs data => exact h.dcs data
  | apc data => exact h.apc data
  | escChar _ => exact .inl (.pure h)
  | ss3 _ => exact .inl (.pure h)
  | x10Mouse _ _ _ => exact .inl (.pure h)

theorem Lawful.settleViews (h : s.Lawful L n) : (s.settleViews x).Lawful L n := by
  have hgrid := h.grid.here.settleView
  have haltGrid := h.altGrid.here.settleView
  exact ⟨{ hgrid with }, { haltGrid with }, h.margins⟩

theorem Lawful.process (h : s.Lawful L n) (data : List UInt8)
    (hfree : ∀ seq ∈ (s.scanner.feed data).2, EnablesMargins seq → L.Free) : Only (s.process x data) (Lawful L n) := by
  refine Only.bind (only_foldlM (fun s hs seq hseq => ?_) h) fun s' hs => .pure ?_
  · rcases hs.apply (x := x) seq (hfree seq hseq) with hgives | ⟨hnone, -⟩
    · exact hgives.only
    · exact fun s' hs' => by
        rw [hnone] at hs'
        cases hs'
  · exact Lawful.settleViews (s := { s' with scanner := _ }) { hs with }

theorem Lawful.processes (h : s.Lawful L n) (data : List UInt8)
    (hfree : ∀ seq ∈ (s.scanner.feed data).2, EnablesMargins seq → L.Free)
    (hdecodes : ∀ seq ∈ (s.scanner.feed data).2, Decodes x seq) : Gives (s.process x data) (Lawful L n) := by
  refine Gives.bind (gives_foldlM (fun s hs seq hseq => ?_) h) fun s' hs => .pure ?_
  · exact (hs.apply seq (hfree seq hseq)).resolve_right fun hnot => hnot.2 (hdecodes seq hseq)
  · exact Lawful.settleViews (s := { s' with scanner := _ }) { hs with }

end process

end Screen

end Term

end Dekit
