import Dekit.Term.Lawful

namespace Dekit

namespace Term

open Slice Total

section halves

def WideAt (cells : List Cell) (i : ℕ) : Prop := ∃ cell, cells[i]? = some cell ∧ cell.isWide = true

def HalfAt (cells : List Cell) (i : ℕ) : Prop := ∃ cell, cells[i]? = some cell ∧ cell.isContinuation = true

/-- Every wide cell has its right half next to it, and every right half its wide cell. -/
structure Coupled (cells : List Cell) : Prop where
  first : ¬HalfAt cells 0
  next : ∀ i, WideAt cells i ↔ HalfAt cells (i + 1)

variable {cells cells' : List Cell} {i j m : ℕ} {cell : Cell} {row : Row} {col : ℕ} {style : StyleId}

theorem isWide_not_half (h : cell.isWide = true) : cell.isContinuation = false := by
  unfold Cell.isWide CellText.isWide at h
  unfold Cell.isContinuation CellText.isContinuation
  split
  next heq =>
    rw [heq] at h
    cases h
  · rfl

theorem isHalf_not_wide (h : cell.isContinuation = true) : cell.isWide = false := by
  cases hwide : cell.isWide with
  | false => rfl
  | true => rw [isWide_not_half hwide] at h; cases h

theorem not_both (hwide : WideAt cells i) : ¬HalfAt cells i := by
  rintro ⟨cell, hcell, hhalf⟩
  obtain ⟨cell', hcell', hwide⟩ := hwide
  cases hcell.symm.trans hcell'
  rw [isWide_not_half hwide] at hhalf
  cases hhalf

theorem WideAt.lt (h : WideAt cells i) : i < cells.length := by
  obtain ⟨cell, hcell, -⟩ := h
  exact (List.getElem?_eq_some_iff.mp hcell).1

theorem HalfAt.lt (h : HalfAt cells i) : i < cells.length := by
  obtain ⟨cell, hcell, -⟩ := h
  exact (List.getElem?_eq_some_iff.mp hcell).1

theorem wideAt_set : WideAt (cells.set i cell) m ↔
    if m = i then i < cells.length ∧ cell.isWide = true else WideAt cells m := by
  unfold WideAt
  rw [List.getElem?_set]
  split
  next h =>
    subst h
    rw [if_pos rfl]
    split
    next hlt => simp [hlt]
    next hge => simp [hge]
  next h => rw [if_neg (Ne.symm h)]

theorem halfAt_set :
    HalfAt (cells.set i cell) m ↔ if m = i then i < cells.length ∧ cell.isContinuation = true else HalfAt cells m := by
  unfold HalfAt
  rw [List.getElem?_set]
  split
  next h =>
    subst h
    rw [if_pos rfl]
    split
    next hlt => simp [hlt]
    next hge => simp [hge]
  next h => rw [if_neg (Ne.symm h)]

def OtherAt (cells : List Cell) (i m : ℕ) : Prop := WideAt cells i ∧ m = i + 1 ∨ HalfAt cells i ∧ m + 1 = i

theorem wideAt_blankOther {other : ℕ} : WideAt (row.blankOther other style).cells m ↔
    WideAt row.cells m ∧ m ≠ other := by
  unfold Row.blankOther
  split
  next hnone =>
    refine ⟨fun h => ⟨h, fun hm => ?_⟩, And.left⟩
    obtain ⟨cell, hcell, -⟩ := h
    rw [hm, hnone] at hcell
    cases hcell
  next cell _ =>
    rw [wideAt_set]
    split
    next h => exact iff_of_false (fun hwide => by cases hwide.2) fun hm => hm.2 h
    next h => exact ⟨fun hwide => ⟨hwide, h⟩, And.left⟩

theorem halfAt_blankOther {other : ℕ} : HalfAt (row.blankOther other style).cells m ↔
    HalfAt row.cells m ∧ m ≠ other := by
  unfold Row.blankOther
  split
  next hnone =>
    refine ⟨fun h => ⟨h, fun hm => ?_⟩, And.left⟩
    obtain ⟨cell, hcell, -⟩ := h
    rw [hm, hnone] at hcell
    cases hcell
  next cell _ =>
    rw [halfAt_set]
    split
    next h => exact iff_of_false (fun hhalf => by cases hhalf.2) fun hm => hm.2 h
    next h => exact ⟨fun hhalf => ⟨hhalf, h⟩, And.left⟩

theorem clearWide_cases (row : Row) (col : ℕ) (style : StyleId) :
    (WideAt row.cells col ∧ row.clearWide col style = row.blankOther (col + 1) style) ∨
    (HalfAt row.cells col ∧ 0 < col ∧ row.clearWide col style = row.blankOther (col - 1) style) ∨
    (¬WideAt row.cells col ∧ (HalfAt row.cells col → col = 0) ∧ row.clearWide col style = row) := by
  unfold Row.clearWide
  split
  next hnone =>
    refine .inr (.inr ⟨?_, ?_, rfl⟩)
    · rintro ⟨cell, hcell, -⟩
      rw [hnone] at hcell
      cases hcell
    · rintro ⟨cell, hcell, -⟩
      rw [hnone] at hcell
      cases hcell
  next cell hcell =>
    split
    next hwide => exact .inl ⟨⟨cell, hcell, hwide⟩, rfl⟩
    next hnarrow =>
      split
      next hhalf => exact .inr (.inl ⟨⟨cell, hcell, hhalf.1⟩, hhalf.2, rfl⟩)
      next hwhole =>
        refine .inr (.inr ⟨?_, ?_, rfl⟩)
        · rintro ⟨cell', hcell', hwide⟩
          cases hcell.symm.trans hcell'
          exact hnarrow hwide
        · rintro ⟨cell', hcell', hhalf⟩
          cases hcell.symm.trans hcell'
          exact Nat.eq_zero_of_not_pos fun hpos => hwhole ⟨hhalf, hpos⟩

theorem wideAt_clearWide : WideAt (row.clearWide col style).cells m ↔
    WideAt row.cells m ∧ ¬OtherAt row.cells col m := by
  unfold OtherAt
  rcases clearWide_cases row col style with ⟨h, heq⟩ | ⟨h, hpos, heq⟩ | ⟨h, h', heq⟩
  · have := not_both h
    rw [heq, wideAt_blankOther]
    grind
  · have : ¬WideAt row.cells col := fun hw => not_both hw h
    rw [heq, wideAt_blankOther]
    grind
  · rw [heq]
    grind

theorem halfAt_clearWide : HalfAt (row.clearWide col style).cells m ↔
    HalfAt row.cells m ∧ ¬OtherAt row.cells col m := by
  unfold OtherAt
  rcases clearWide_cases row col style with ⟨h, heq⟩ | ⟨h, hpos, heq⟩ | ⟨h, h', heq⟩
  · have := not_both h
    rw [heq, halfAt_blankOther]
    grind
  · have : ¬WideAt row.cells col := fun hw => not_both hw h
    rw [heq, halfAt_blankOther]
    grind
  · rw [heq]
    grind

theorem OtherAt.lt (h : OtherAt cells i m) : i < cells.length := h.elim (fun h => h.1.lt) fun h => h.1.lt

theorem wideAt_rowSet : WideAt (row.set col cell).cells m ↔
    if m = col then col < row.cells.length ∧ cell.isWide = true else WideAt row.cells m ∧ ¬OtherAt row.cells col m := by
  unfold Row.set
  split
  next hnone =>
    have hlen := List.getElem?_eq_none_iff.mp hnone
    split
    next hm => exact iff_of_false (fun h => by have := h.lt; omega) fun h => by omega
    next hm => exact ⟨fun h => ⟨h, fun ho => by have := ho.lt; omega⟩, And.left⟩
  next old hold =>
    dsimp only
    rw [wideAt_set, Row.length_clearWide]
    split
    · exact Iff.rfl
    · exact wideAt_clearWide

theorem halfAt_rowSet : HalfAt (row.set col cell).cells m ↔
    if m = col then col < row.cells.length ∧ cell.isContinuation = true
    else HalfAt row.cells m ∧ ¬OtherAt row.cells col m := by
  unfold Row.set
  split
  next hnone =>
    have hlen := List.getElem?_eq_none_iff.mp hnone
    split
    next hm => exact iff_of_false (fun h => by have := h.lt; omega) fun h => by omega
    next hm => exact ⟨fun h => ⟨h, fun ho => by have := ho.lt; omega⟩, And.left⟩
  next old hold =>
    dsimp only
    rw [halfAt_set, Row.length_clearWide]
    split
    · exact Iff.rfl
    · exact halfAt_clearWide

theorem Coupled.narrow (h : Coupled row.cells) (hwide : cell.isWide = false) (hhalf : cell.isContinuation = false) :
    Coupled (row.set col cell).cells := by
  have hnext := h.next
  have hfirst := h.first
  have hb : ∀ j, WideAt row.cells j → ¬HalfAt row.cells j := fun _ => not_both
  constructor
  · rw [halfAt_rowSet]
    grind
  · intro i
    rw [wideAt_rowSet, halfAt_rowSet]
    unfold OtherAt
    grind

theorem Coupled.wide (h : Coupled row.cells) {half : Cell} (hwide : cell.isWide = true)
    (hhalf : half.isContinuation = true)
    (hcol : col + 1 < row.cells.length) : Coupled ((row.set col cell).set (col + 1) half).cells := by
  have hnext := h.next
  have hfirst := h.first
  have hb : ∀ j, WideAt row.cells j → ¬HalfAt row.cells j := fun _ => not_both
  have hnarrow := isWide_not_half hwide
  have hnarrow' := isHalf_not_wide hhalf
  -- After the first half is put, before the second is.
  have hw : ∀ j, WideAt (row.set col cell).cells j ↔ j = col ∨ j ≠ col ∧ WideAt row.cells j ∧
    ¬OtherAt row.cells col j :=
    fun j => by
      rw [wideAt_rowSet]
      grind
  have hh : ∀ j, HalfAt (row.set col cell).cells j ↔ j ≠ col ∧ HalfAt row.cells j ∧ ¬OtherAt row.cells col j :=
    fun j => by
      rw [halfAt_rowSet]
      grind
  have ho : ∀ j, OtherAt (row.set col cell).cells (col + 1) j ↔ WideAt row.cells (col + 1) ∧ j = col + 2 := fun j => by
    unfold OtherAt at hw hh ⊢
    rw [hw, hh]
    grind
  constructor
  · rw [halfAt_rowSet, hh, ho]
    grind
  · intro i
    rw [wideAt_rowSet, halfAt_rowSet, hw, hh, ho, ho, Row.length_set]
    unfold OtherAt
    grind

theorem Coupled.wide_last (h : Coupled row.cells) {cell' : Cell} (hwide : cell.isWide = true)
    (hwide' : cell'.isWide = false) (hhalf' : cell'.isContinuation = false) (hcol : col + 1 = row.cells.length) :
    Coupled ((row.set col cell).set col cell').cells := by
  have hnext := h.next
  have hfirst := h.first
  have hb : ∀ j, WideAt row.cells j → ¬HalfAt row.cells j := fun _ => not_both
  have hlt : ∀ j, HalfAt row.cells j → j < row.cells.length := fun _ => HalfAt.lt
  have hnarrow := isWide_not_half hwide
  have hw : ∀ j, WideAt (row.set col cell).cells j ↔ j = col ∨ j ≠ col ∧ WideAt row.cells j ∧
    ¬OtherAt row.cells col j :=
    fun j => by
      rw [wideAt_rowSet]
      grind
  have hh : ∀ j, HalfAt (row.set col cell).cells j ↔ j ≠ col ∧ HalfAt row.cells j ∧ ¬OtherAt row.cells col j :=
    fun j => by
      rw [halfAt_rowSet]
      grind
  have ho : ∀ j, OtherAt (row.set col cell).cells col j ↔ j = col + 1 := fun j => by
    unfold OtherAt at hw hh ⊢
    rw [hw, hh]
    grind
  constructor
  · rw [halfAt_rowSet, hh, ho]
    grind
  · intro i
    rw [wideAt_rowSet, halfAt_rowSet, hw, hh, ho, ho, Row.length_set]
    unfold OtherAt
    grind

theorem Coupled.plained (h : Coupled row.cells) (hwide : cell.isWide = false) (hhalf : cell.isContinuation = false) :
    Coupled ((row.clearWide col style).cells.set col cell) := by
  have hnext := h.next
  have hfirst := h.first
  have hb : ∀ j, WideAt row.cells j → ¬HalfAt row.cells j := fun _ => not_both
  constructor
  · rw [halfAt_set, halfAt_clearWide]
    grind
  · intro i
    rw [wideAt_set, halfAt_set, wideAt_clearWide, halfAt_clearWide]
    unfold OtherAt
    grind

theorem Coupled.erase (h : Coupled row.cells) : Coupled (row.erase col style).cells := by
  unfold Row.erase
  split
  · exact h
  · dsimp only
    split <;> split <;> exact h.plained rfl rfl

end halves

section pieces

variable {cells cells' : List Cell} {m start stop right : ℕ} {row : Row} {col : ℕ} {style : StyleId}

theorem wideAt_append : WideAt (cells ++ cells') m ↔
    if m < cells.length then WideAt cells m else WideAt cells' (m - cells.length) := by
  unfold WideAt
  rw [List.getElem?_append]
  split <;> rfl

theorem halfAt_append : HalfAt (cells ++ cells') m ↔
    if m < cells.length then HalfAt cells m else HalfAt cells' (m - cells.length) := by
  unfold HalfAt
  rw [List.getElem?_append]
  split <;> rfl

theorem wideAt_take : WideAt (cells.take start) m ↔ m < start ∧ WideAt cells m := by
  unfold WideAt
  rw [List.getElem?_take]
  split
  next h => simp [h]
  next h => simp [h]

theorem halfAt_take : HalfAt (cells.take start) m ↔ m < start ∧ HalfAt cells m := by
  unfold HalfAt
  rw [List.getElem?_take]
  split
  next h => simp [h]
  next h => simp [h]

theorem wideAt_drop : WideAt (cells.drop start) m ↔ WideAt cells (start + m) := by
  unfold WideAt
  rw [List.getElem?_drop]

theorem halfAt_drop : HalfAt (cells.drop start) m ↔ HalfAt cells (start + m) := by
  unfold HalfAt
  rw [List.getElem?_drop]

theorem coupled_plain (h : ∀ cell ∈ cells, cell.isWide = false ∧ cell.isContinuation = false) : Coupled cells := by
  have hw : ∀ i, ¬WideAt cells i := fun i ⟨cell, hcell, hwide⟩ => by
    rw [(h cell (List.mem_of_getElem? hcell)).1] at hwide
    cases hwide
  have hh : ∀ i, ¬HalfAt cells i := fun i ⟨cell, hcell, hhalf⟩ => by
    rw [(h cell (List.mem_of_getElem? hcell)).2] at hhalf
    cases hhalf
  exact ⟨hh 0, fun i => iff_of_false (hw i) (hh (i + 1))⟩

theorem coupled_blanks (count : ℕ) (style : StyleId) : Coupled (Row.blanks count style) :=
  coupled_plain fun cell hcell => by
    rw [List.eq_of_mem_replicate hcell]
    exact ⟨rfl, rfl⟩

/-- Cells that may end in a wide cell without its half. -/
structure Loose (cells : List Cell) : Prop where
  first : ¬HalfAt cells 0
  next : ∀ i, i + 1 < cells.length → (WideAt cells i ↔ HalfAt cells (i + 1))

theorem Coupled.append (h : Coupled cells) (h' : Coupled cells') : Coupled (cells ++ cells') := by
  have hlt : ∀ j, HalfAt cells j → j < cells.length := fun _ => HalfAt.lt
  have hfirst := h.first
  have hnext := h.next
  have hfirst' := h'.first
  have hnext' := h'.next
  constructor
  · rw [halfAt_append]
    grind
  · intro i
    rw [wideAt_append, halfAt_append]
    have hsub : i + 1 - cells.length = i - cells.length + 1 ∨ i < cells.length := by omega
    grind

theorem Loose.append (h : Coupled cells) (h' : Loose cells') : Loose (cells ++ cells') := by
  have hlt : ∀ j, HalfAt cells j → j < cells.length := fun _ => HalfAt.lt
  have hfirst := h.first
  have hnext := h.next
  have hfirst' := h'.first
  have hnext' := h'.next
  constructor
  · rw [halfAt_append]
    grind
  · intro i hi
    rw [List.length_append] at hi
    rw [wideAt_append, halfAt_append]
    have hsub : i + 1 - cells.length = i - cells.length + 1 ∨ i < cells.length := by omega
    grind

theorem Coupled.loose (h : Coupled (cells ++ cells')) : Loose cells := by
  have hlt : ∀ j, HalfAt cells j → j < cells.length := fun _ => HalfAt.lt
  have hfirst := h.first
  have hnext := h.next
  rw [halfAt_append] at hfirst
  constructor
  · grind
  · intro i hi
    have := hnext i
    rw [wideAt_append, halfAt_append] at this
    grind

theorem Coupled.take (h : Coupled (cells ++ cells')) (hcut : ¬HalfAt cells' 0) : Coupled cells := by
  have hfirst := h.loose.first
  have hnext := h.next
  refine ⟨hfirst, fun i => ?_⟩
  have hi := hnext i
  rw [wideAt_append, halfAt_append] at hi
  have hlt : ∀ j, HalfAt cells j → j < cells.length := fun _ => HalfAt.lt
  have hwt : ∀ j, WideAt cells j → j < cells.length := fun _ => WideAt.lt
  grind

theorem Coupled.drop (h : Coupled (cells ++ cells')) (hcut : ¬HalfAt cells' 0) : Coupled cells' := by
  have hnext := h.next
  refine ⟨hcut, fun i => ?_⟩
  have hi := hnext (cells.length + i)
  rw [wideAt_append, halfAt_append, if_neg (by omega), if_neg (by omega), Nat.add_sub_cancel_left, Nat.add_assoc,
    Nat.add_sub_cancel_left] at hi
  exact hi

theorem Loose.shut (h : Loose cells) (hlen : cells.length = right + 1) : Coupled (Row.shut cells right style) := by
  have hfirst := h.first
  have hnext := h.next
  have hlt : ∀ j, HalfAt cells j → j < cells.length := fun _ => HalfAt.lt
  have hwt : ∀ j, WideAt cells j → j < cells.length := fun _ => WideAt.lt
  have hwide : (Cell.blank style).isWide = false := rfl
  have hhalf : (Cell.blank style).isContinuation = false := rfl
  have hany : (cells[right]?).any Cell.isWide = true ↔ WideAt cells right := by
    unfold WideAt
    rw [Option.any_eq_true]
  unfold Row.shut
  split
  next hlast =>
    have hb := not_both (hany.mp hlast)
    constructor
    · rw [halfAt_set]
      grind
    · intro i
      rw [wideAt_set, halfAt_set]
      grind
  next hlast =>
    rw [hany] at hlast
    exact ⟨hfirst, fun i => by grind⟩

theorem Coupled.parted (h : Coupled row.cells) :
    Coupled (row.parted col style).cells ∧ ¬HalfAt (row.parted col style).cells col := by
  have hany : (row.cells[col]?).any Cell.isContinuation = true ↔ HalfAt row.cells col := by
    unfold HalfAt
    rw [Option.any_eq_true]
  unfold Row.parted
  split
  · refine ⟨h.plained rfl rfl, fun hhalf => ?_⟩
    rw [halfAt_set, if_pos rfl] at hhalf
    cases hhalf.2
  next hsplit => exact ⟨h, fun hhalf => hsplit (hany.mpr hhalf)⟩

theorem Coupled.cut (h : Coupled row.cells) {last : ℕ} (hlt : start ≤ last) (style' : StyleId) :
    Coupled (((row.clearWide start style).clearWide last style').cells.take start) ∧
      Coupled (((row.clearWide start style).clearWide last style').cells.drop (last + 1)) := by
  have hnext := h.next
  have hfirst := h.first
  have hb : ∀ j, WideAt row.cells j → ¬HalfAt row.cells j := fun _ => not_both
  -- Outside of the range, what is cleared is the other half of each end as it was.
  have ho : ∀ j, j < start ∨ last < j → (OtherAt (row.clearWide start style).cells last j ∧ ¬OtherAt row.cells start j ↔
      OtherAt row.cells last j ∧ ¬OtherAt row.cells start j) := fun j hj => by
    unfold OtherAt
    rw [wideAt_clearWide, halfAt_clearWide]
    unfold OtherAt
    grind
  have hw : ∀ j, j < start ∨ last < j → (WideAt ((row.clearWide start style).clearWide last style').cells j ↔
      WideAt row.cells j ∧ ¬OtherAt row.cells start j ∧ ¬OtherAt row.cells last j) := fun j hj => by
    rw [wideAt_clearWide, wideAt_clearWide]
    have := ho j hj
    tauto
  have hh : ∀ j, j < start ∨ last < j → (HalfAt ((row.clearWide start style).clearWide last style').cells j ↔
      HalfAt row.cells j ∧ ¬OtherAt row.cells start j ∧ ¬OtherAt row.cells last j) := fun j hj => by
    rw [halfAt_clearWide, halfAt_clearWide]
    have := ho j hj
    tauto
  unfold OtherAt at hw hh
  -- A half is only lost with the cell it belongs to, which is then in the range.
  have hwleft : ∀ j, j < start → (WideAt ((row.clearWide start style).clearWide last style').cells j ↔
      WideAt row.cells j ∧ j + 1 ≠ start) := fun j hj => by
    rw [hw j (.inl hj)]
    have := hnext j
    grind
  have hhleft : ∀ j, j < start → (HalfAt ((row.clearWide start style).clearWide last style').cells j ↔
      HalfAt row.cells j) := fun j hj => by
    rw [hh j (.inl hj)]
    have := hnext j
    have := hb j
    grind
  have hwright : ∀ j, last < j → (WideAt ((row.clearWide start style).clearWide last style').cells j ↔
      WideAt row.cells j) := fun j hj => by
    rw [hw j (.inr hj)]
    have := hnext last
    have := hb j
    grind
  have hhright : ∀ j, last < j → (HalfAt ((row.clearWide start style).clearWide last style').cells j ↔
      HalfAt row.cells j ∧ j ≠ last + 1) := fun j hj => by
    rw [hh j (.inr hj)]
    have := hnext last
    grind
  constructor
  · constructor
    · rw [halfAt_take]
      exact fun h => hfirst ((hhleft 0 h.1).mp h.2)
    · intro i
      rw [wideAt_take, halfAt_take]
      have := hwleft i
      have := hhleft (i + 1)
      have := hnext i
      grind
  · constructor
    · rw [halfAt_drop]
      exact fun h => ((hhright _ (by omega)).mp h).2 rfl
    · intro i
      rw [wideAt_drop, halfAt_drop, hwright _ (by omega), hhright _ (by omega)]
      have := hnext (last + 1 + i)
      grind

theorem coupled_ascii (bytes : List Char) (style : StyleId) :
    Coupled (bytes.map fun b => (⟨.ofScalar b 1, style⟩ : Cell)) := coupled_plain fun cell hcell => by
  obtain ⟨b, -, rfl⟩ := List.mem_map.mp hcell
  exact ⟨rfl, rfl⟩

theorem Coupled.asciiRow (h : Coupled row.cells) (hstart : start < stop) (hstop : stop ≤ row.cells.length)
    (bytes : List Char) : Gives (asciiRow start stop bytes style row) fun row => Coupled row.cells := by
  obtain ⟨last, rfl⟩ : ∃ last, stop = last + 1 := ⟨stop - 1, by omega⟩
  have hcut (own own' : StyleId) :
      Coupled (((row.clearWide start own).clearWide last own').cells.take start) ∧
        Coupled (((row.clearWide start own).clearWide last own').cells.drop (last + 1)) :=
    h.cut (Nat.le_of_lt_succ hstart) own'
  have hclear : ∀ (row : Row) (col : ℕ), col < row.cells.length →
      Gives (Grid.clearOwn row col) fun row' => ∃ own, row' = row.clearWide col own := fun row col hcol =>
    (gives_getElem hcol).bind fun cell _ => .pure ⟨cell.style, rfl⟩
  unfold Term.asciiRow
  refine (hclear row start (by omega)).bind fun row₁ h₁ => ?_
  obtain ⟨own, rfl⟩ := h₁
  rw [if_pos (Nat.succ_pos last), Nat.add_sub_cancel]
  refine (hclear _ last (by rw [Row.length_clearWide]; omega)).bind fun row₂ h₂ => ?_
  obtain ⟨own', rfl⟩ := h₂
  refine (gives_onRange (by omega) (by rw [Row.length_clearWide, Row.length_clearWide]; omega) _).bind
    fun cells hcells => .pure ?_
  subst hcells
  exact ((hcut own own').1.append (coupled_ascii _ _)).append (hcut own own').2

theorem Coupled.insertBlanks (h : Coupled row.cells) {before middle part after : List Cell}
    (hcells : (row.parted col style).cells = before ++ ((middle ++ part) ++ after)) (hbefore : before.length = col)
    (hcol : col + middle.length + part.length = right + 1) (hright : right + 1 = row.cells.length) :
    Coupled (Row.shut (before ++ ((Row.blanks part.length style ++ middle) ++ after)) right style) := by
  have hlen := congrArg List.length hcells
  simp only [Row.length_parted, List.length_append] at hlen
  have hafter : after = [] := List.eq_nil_of_length_eq_zero (by omega)
  obtain ⟨hparted, hcut⟩ : Coupled (row.parted col style).cells ∧ ¬HalfAt (row.parted col style).cells col := h.parted
  rw [hcells, hafter, List.append_nil] at hparted hcut
  rw [hafter, List.append_nil]
  have hcut' : ¬HalfAt (middle ++ part) 0 := by
    rw [halfAt_append, if_neg (by omega), ← hbefore, Nat.sub_self] at hcut
    exact hcut
  have hmiddle : Loose middle := (hparted.drop hcut').loose
  refine Loose.shut (Loose.append (hparted.take hcut') (Loose.append (coupled_blanks _ _) hmiddle)) ?_
  simp only [List.length_append, Row.length_blanks]
  omega

theorem Coupled.deleteCells (h : Coupled row.cells) {before middle part after : List Cell}
    (hcells : (row.cleared col (col + part.length) style).cells = before ++ ((part ++ middle) ++ after))
    (hbefore : before.length = col) (hpart : part ≠ []) (hcol : col + part.length + middle.length = right + 1)
    (hright : right + 1 = row.cells.length) :
    Coupled (before ++ ((middle ++ Row.blanks part.length style) ++ after)) := by
  have hpos := List.length_pos_of_ne_nil hpart
  have hlen := congrArg List.length hcells
  simp only [Row.length_cleared, List.length_append] at hlen
  have hafter : after = [] := List.eq_nil_of_length_eq_zero (by omega)
  have hroom : col ≤ col + part.length - 1 := by omega
  have hcut : Coupled (((row.clearWide col style).clearWide (col + part.length - 1) style).cells.take col) ∧
      Coupled (((row.clearWide col style).clearWide (col + part.length - 1) style).cells.drop
        (col + part.length - 1 + 1)) := h.cut hroom style
  have hlast : col + part.length - 1 + 1 = (before ++ part).length := by
    rw [List.length_append]
    omega
  unfold Row.cleared at hcells
  rw [hcells, hafter, List.append_nil, ← hbefore, List.take_left, hbefore, hlast, ← List.append_assoc,
    List.drop_left] at hcut
  rw [hafter, List.append_nil]
  exact hcut.1.append (hcut.2.append (coupled_blanks _ _))

end pieces

namespace RowLaw

/-- Rows of a width whose wide cells are whole, with no side margins. -/
def whole (charWidth : Char → Option ℕ) (width : ℕ) (htwo : 2 ≤ width) (hle : width ≤ 65533) : RowLaw charWidth where
  width := width
  width_pos := by omega
  width_le := hle
  Margins := fun left right => left = 0 ∧ right = width - 1
  margins_room := .inr
  margins_full := ⟨rfl, rfl⟩
  Cells := fun cells => cells.length = width ∧ Coupled cells
  length := And.left
  blank := fun style => ⟨List.length_replicate, coupled_blanks width style⟩
  narrow := fun h hwide hhalf => ⟨by rw [Row.length_set, h.1], h.2.narrow hwide hhalf⟩
  wide := fun h hwide hcol =>
    ⟨by rw [Row.length_set, Row.length_set, h.1], h.2.wide hwide rfl (by rw [h.1]; exact hcol)⟩
  wide_last := fun h hwide hcol =>
    ⟨by rw [Row.length_set, Row.length_set, h.1], h.2.wide_last hwide rfl rfl (by rw [h.1]; exact hcol)⟩
  erase := fun h => ⟨by rw [Row.length_erase, h.1], h.2.erase⟩
  ascii := fun h hstart hstop hbytes => by
    obtain ⟨row', heq, hlen⟩ := length_asciiRow hstart (h.1 ▸ hstop) hbytes _
    obtain ⟨row'', heq', hcoupled⟩ := h.2.asciiRow hstart (h.1 ▸ hstop) _
    cases heq.symm.trans heq'
    exact ⟨row', heq, hlen.trans h.1, hcoupled⟩
  insertBlanks := fun {row left right col count style} hmargins h => by
    refine Row.insertBlanks_gives (P := fun cells => cells.length = width ∧ Coupled cells) _ _ _ h
      fun before middle part after hcells hbefore hcol => ⟨?_, ?_⟩
    · have := congrArg List.length hcells
      simp only [Row.length_parted, Row.length_shut, List.length_append, Row.length_blanks] at this ⊢
      omega
    · exact h.2.insertBlanks hcells hbefore hcol (by omega)
  deleteCells := fun {row left right col count style} hmargins h => by
    refine Row.deleteCells_gives (P := fun cells => cells.length = width ∧ Coupled cells) _ _ _ h
      fun before middle part after hcells hbefore hpart hcol => ⟨?_, ?_⟩
    · have := congrArg List.length hcells
      simp only [Row.length_cleared, List.length_append, Row.length_blanks] at this ⊢
      omega
    · exact h.2.deleteCells hcells hbefore hpart hcol (by omega)
  copy := fun {left right source target} hmargins hsource htarget => by
    obtain ⟨rfl, rfl⟩ := hmargins
    have hwidth : width - 1 + 1 = width := by omega
    rw [List.take_zero, List.nil_append, List.drop_zero, Nat.sub_zero, hwidth,
      List.take_of_length_le (le_of_eq hsource.1),
      List.drop_of_length_le (le_of_eq htarget.1), List.append_nil]
    exact hsource

end RowLaw

end Term

end Dekit
