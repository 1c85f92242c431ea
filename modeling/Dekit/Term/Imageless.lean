import Dekit.Term.Upkeep

namespace Dekit

namespace Term

open Slice Total

namespace Grid

def Bare (g : Grid) : Prop := ∀ p ∈ g.placements, p.cells = false

variable {g : Grid}

theorem Bare.touch (h : g.Bare) (row start stop : ℕ) : g.touch row start stop = g := by
  have hhit : ∀ p ∈ g.placements, hit (g.rowBase + row) start stop p = false := fun p hp => by
    unfold hit
    rw [h p hp]
    rfl
  unfold Grid.touch
  split
  · rfl
  · have hnone : g.placements.filter (hit (g.rowBase + row) start stop) = [] := by
      rw [List.filter_eq_nil_iff]
      intro p hp
      rw [hhit p hp]
      exact Bool.false_ne_true
    have hall : g.placements.filter (fun p => !hit (g.rowBase + row) start stop p) = g.placements := by
      rw [List.filter_eq_self]
      intro p hp
      rw [hhit p hp]
      rfl
    dsimp only
    rw [hnone, hall, List.map_nil, List.append_nil]

theorem Bare.sublist {placements : List Placement} (h : g.Bare) (hsub : placements ⊆ g.placements) :
    { g with placements := placements }.Bare := fun p hp => h p (hsub hp)

theorem Bare.modifyRow (h : g.Bare) (row : ℕ) (f : Row → Option Row) : Only (g.modifyRow row f) Bare :=
  .after fun _ => .after fun _ => .pure h

theorem Bare.writeCell (h : g.Bare) (pos : Pos) (text : CellText) (style : StyleId) :
    Only (g.writeCell pos text style) Bare := by
  unfold Grid.writeCell
  dsimp only
  split
  · exact .pure h
  · refine .after fun stop => ?_
    rw [h.touch]
    exact h.modifyRow _ _

theorem Bare.editRow (h : g.Bare) (row col : ℕ) (f : Row → Option Row) : Only (g.editRow row col f) Bare := by
  refine .after fun stop => ?_
  rw [h.touch]
  exact h.modifyRow _ _

theorem Bare.insertCells (h : g.Bare) (count : ℕ) (style : StyleId) : Only (g.insertCells count style) Bare := by
  refine .after fun col => ?_
  split
  · exact .pure h
  · exact h.editRow _ _ _

theorem Bare.copyCells (h : g.Bare) (source : Option ℕ) (style : StyleId) (row : ℕ) :
    Only (g.copyCells source style row) Bare := by
  refine .after fun stop => ?_
  dsimp only
  rw [h.touch]
  split
  · exact .after fun source => .after fun cells => h.modifyRow _ _
  · exact .after fun span => .after fun cells => h.modifyRow _ _

theorem Bare.shiftPlacements (h : g.Bare) (top bottom : ℕ) (delta : ℤ) : (g.shiftPlacements top bottom delta).Bare := by
  intro p hp
  obtain ⟨q, hq, hsome⟩ := List.mem_filterMap.mp hp
  split at hsome
  · obtain rfl := Option.some.inj hsome
    exact h q hq
  · dsimp only at hsome
    split at hsome
    · cases hsome
    · obtain rfl := Option.some.inj hsome
      exact h q hq

variable (charWidth : Char → Option ℕ)

theorem Bare.scrollOne (h : g.Bare) (top bottom : ℕ) (toHistory : Bool) (style : StyleId) :
    Only (g.scrollOne charWidth top bottom toHistory style) Bare := by
  refine .after fun rows => .after fun gone => .pure ?_
  split <;> exact h

theorem Bare.scrollUp (h : g.Bare) (count : ℕ) (style : StyleId) : Only (g.scrollUp charWidth count style) Bare := by
  refine .after fun span => ?_
  dsimp only
  split
  · exact .pure h
  · refine .after fun active => ?_
    split
    · exact only_foldlM (fun g hg row _ => hg.copyCells _ _ _) h
    · refine .after fun region => (only_times (fun g hg => hg.scrollOne charWidth _ _ _ _) h _).bind fun g' hg =>
        .pure ?_
      have hdrop : Bare (dropScrolledPlacements charWidth { g' with rowBase := g'.rowBase + min count (span + 1) }) :=
        fun p hp => hg p (List.mem_of_mem_filter hp)
      have hshift := hg.shiftPlacements g.scrollTop g.scrollBottom (-(min count (span + 1) : ℕ))
      split
      · split
        · exact hdrop
        · exact hdrop
      · split
        · exact hshift
        · exact hshift

theorem Bare.rowClampBottom (h : g.Bare) (limitToRegion : Bool) :
    Only (g.rowClampBottom limitToRegion) fun p => p.2.Bare := by
  have hclamp : ∀ bottom, Only (if bottom < g.pos.row then
      some (g.pos.row - bottom, { g with pos := { g.pos with row := bottom } }) else some (0, g)) fun p => p.2.Bare :=
    fun bottom => by
      split
      · exact .pure h
      · exact .pure h
  unfold Grid.rowClampBottom
  dsimp only
  split
  · exact hclamp _
  · exact .after hclamp

theorem Bare.rowIncScroll (h : g.Bare) (count : ℕ) (style : StyleId) :
    Only (g.rowIncScroll charWidth count style) fun p => p.2.Bare := by
  have hclamp := Bare.rowClampBottom (g := { g with pos := { g.pos with row := saturatingAdd16 g.pos.row count } }) h
    g.inScrollRegion
  refine hclamp.bind ?_
  rintro ⟨lines, g'⟩ hg
  dsimp only at hg ⊢
  split
  · exact (hg.scrollUp charWidth _ _).bind fun g'' hg' => .pure hg'
  · exact .pure hg

theorem Bare.markWrapped (h : g.Bare) (prevRow newRow : ℕ) : Only (g.markWrapped prevRow newRow) Bare := by
  refine .after fun active => .after fun next => ?_
  split
  · exact .pure h
  · exact .pure h

theorem Bare.colWrap (h : g.Bare) (width : ℕ) (style : StyleId) : Only (g.colWrap charWidth width style) Bare := by
  have hnext : ∀ g' : Grid, g'.Bare → Only
      (({ g' with pos := { g'.pos with col := g'.marginLeft } }.rowIncScroll charWidth 1 style).bind fun r =>
        r.2.markWrapped (g.pos.row - r.1) r.2.pos.row) Bare := fun g' hg => by
    refine (Bare.rowIncScroll charWidth (g := { g' with pos := { g'.pos with col := g'.marginLeft } }) hg 1 style).bind ?_
    exact fun p hp => hp.markWrapped _ _
  unfold Grid.colWrap
  dsimp only
  refine .after fun needed => .after fun room => ?_
  split
  · split
    · rw [h.touch]
      exact (h.modifyRow _ _).bind hnext
    · exact hnext g h
  · exact .pure h

theorem Bare.placeholderSlot (h : g.Bare) (imageId placementId : ℕ) :
    (g.placeholderSlot imageId placementId).2.Bare := by
  unfold Grid.placeholderSlot
  split
  · exact h
  · split <;> exact h

theorem Bare.markedText {I : Type} {s : Screen I} (h : s.activeGrid.Bare) (slot row col mark : ℕ) :
    (s.markedText slot row col mark).2.Bare := by
  unfold Screen.markedText
  dsimp only
  split
  · exact h
  · exact h
  · split
    · exact h
    · exact h.placeholderSlot _ _
  · exact h

end Grid

namespace Screen

variable {I : Type} {x : Externs I} {s : Screen I} {g : Grid}

/-- No image is drawn into the cells of the active grid, and no single shift is due. -/
structure Bare (s : Screen I) : Prop where
  unshifted : s.singleShift = none
  grid : s.activeGrid.Bare

theorem Bare.putGrid (h : s.Bare) (hg : g.Bare) : (s.putGrid g).Bare := by
  constructor
  · have hunshifted := h.unshifted
    unfold Screen.putGrid
    split
    · exact hunshifted
    · exact hunshifted
  · rw [activeGrid_putGrid]
    exact hg

theorem Bare.currentLinkId (h : s.Bare) : s.currentLinkId.2.Bare := by
  unfold Screen.currentLinkId
  split
  · exact h
  next link _ =>
    split
    · exact h
    · have hput := h.putGrid (g := (s.activeGrid.internLink link).2) h.grid
      dsimp only
      split
      · exact ⟨hput.unshifted, hput.grid⟩
      · exact ⟨hput.unshifted, hput.grid⟩

theorem Bare.styleId (h : s.Bare) : s.styleId.2.Bare :=
  h.currentLinkId.putGrid (g := (s.currentLinkId.2.activeGrid.internStyle _).2) h.currentLinkId.grid

theorem Bare.makeRoom (hg : g.Bare) (autowrap : Bool) (w : ℕ) (style : StyleId) :
    Only (makeRoom x autowrap w style g) fun p => p.2.Bare := by
  refine .after fun needed => .after fun room => ?_
  split
  · split
    · exact (Grid.Bare.colWrap x.charWidth hg w style).bind fun g' hg' => .pure hg'
    · exact .after fun next => .pure hg
  · exact .pure hg

theorem Bare.writeNew (h : s.Bare) (c : Char) (w : ℕ) : Only (s.writeNew x c w) Bare := by
  have hid := h.styleId
  unfold Screen.writeNew
  generalize s.styleId = styled at hid ⊢
  obtain ⟨style, s⟩ := styled
  refine (Bare.makeRoom hid.grid _ _ _).bind ?_
  rintro ⟨fits, g⟩ hg
  have hwrite : ∀ g : Grid, g.Bare → Only (do
      let g ← g.writeCell g.pos (.ofScalar c w) style
      some { s.putGrid (g.colInc w) with lastChar := some c, placeholderMarks := 0 }) Bare := fun g hg =>
    (hg.writeCell _ _ _).bind fun g' hg' => by
      have hput := hid.putGrid (g := g'.colInc w) hg'
      exact .pure ⟨hput.unshifted, hput.grid⟩
  dsimp only at hid hg ⊢
  split
  · exact .pure (hid.putGrid hg)
  · split
    · exact (hg.insertCells _ _).bind hwrite
    · exact hwrite g hg

theorem Bare.join (h : s.Bare) (pos : Pos) (c : Char) (widen : Option ℕ) : Only (s.join pos c widen) Bare := by
  unfold Screen.join
  dsimp only
  split
  · exact .pure h
  · split
    · exact .pure h
    · generalize hcell : Grid.cellText _ _ _ = made
      have hg : made.2.Bare := by
        rw [← hcell]
        exact h.grid
      split
      · refine .after fun next => ?_
        split
        · exact (hg.writeCell _ _ _).bind fun g hg => .pure (h.putGrid hg)
        · refine (hg.writeCell _ _ _).bind fun g hg => .pure (h.putGrid ?_)
          split
          · exact hg
          · exact hg
      · exact (hg.writeCell _ _ _).bind fun g hg => .pure (h.putGrid hg)

theorem Bare.writePlaceholder (h : s.Bare) : Only (s.writePlaceholder x) Bare := by
  have hid := h.styleId
  unfold Screen.writePlaceholder
  generalize s.styleId = styled at hid ⊢
  obtain ⟨style, s⟩ := styled
  dsimp -zeta only at hid ⊢
  extract_lets g write
  have hwrite : ∀ g : Grid, g.Bare → Only (write g) Bare := fun g hg => by
    have hslot := hg.placeholderSlot (colorId s.style.fg) (colorId s.style.ul)
    dsimp only [write]
    split
    · exact .pure (hid.putGrid hslot)
    · refine (hslot.writeCell _ _ style).bind fun g' hg' => .pure ?_
      have hput := hid.putGrid (g := g'.colInc 1) hg'
      exact ⟨hput.unshifted, hput.grid⟩
  split
  · split
    · exact (Grid.Bare.colWrap x.charWidth hid.grid 1 style).bind hwrite
    · exact hwrite _ hid.grid
  · exact hwrite _ hid.grid

theorem Bare.markPlaceholder (h : s.Bare) (pos : Pos) (mark : ℕ) :
    Only (s.markPlaceholder pos mark) fun q => q.2.Bare := by
  rw [markPlaceholder_eq]
  split
  next slot row col style _ =>
    have hg := Grid.Bare.markedText h.grid slot row col mark
    generalize s.markedText slot row col mark = marked at hg ⊢
    obtain ⟨text, g⟩ := marked
    dsimp only at hg ⊢
    cases text with
    | none => exact .pure (h.putGrid hg)
    | some text =>
      refine (hg.writeCell _ _ _).bind fun g' hg' => .pure ?_
      have hput := h.putGrid hg'
      exact ⟨hput.unshifted, hput.grid⟩
  · exact .pure h

theorem Bare.putScalar (h : s.Bare) (c : Char) : Only (s.putScalar x c) Bare := by
  refine .after fun prev => ?_
  split
  · exact h.writeNew c _
  · split
    · exact h.join _ c none
    · exact .pure h
  · split
    · exact h.join _ c (some 2)
    · exact .pure h

theorem Bare.putTranslated (h : s.Bare) (c : Char) : Only (putTranslated x s c) Bare := by
  have hput : ∀ (marked : Bool) (s : Screen I), s.Bare → Only (if marked then some s else s.putScalar x c) Bare :=
    fun marked s hs => by
      split
      · exact .pure hs
      · exact hs.putScalar c
  unfold Screen.putTranslated
  split
  · exact .pure h
  · split
    · exact h.writePlaceholder
    · split
      · exact hput false _ h
      · refine .after fun at' => ?_
        cases at' with
        | none => exact hput false _ h
        | some p => exact (h.markPlaceholder p _).bind fun q hq => hput q.1 q.2 hq

theorem Bare.putChar (hg : s.activeGrid.Bare) (c : Char) : Only (s.putChar x c) Bare := by
  rw [putChar_eq]
  exact Bare.putTranslated (s := { s with singleShift := none }) ⟨rfl, hg⟩ _

end Screen

end Term

end Dekit
