import Dekit.Term.Halves

namespace Dekit

namespace Term

open Slice Total

section clearing

variable {row : Row} {col other m : ℕ} {style : StyleId}

def blanked (style : StyleId) (cell : Cell) : Cell := .blank (if style = 0 then cell.style else style)

theorem blanked_blanked (style : StyleId) (cell : Cell) : blanked style (blanked style cell) = blanked style cell := by
  unfold blanked
  split <;> rfl

theorem cells_blankOther : (row.blankOther other style).cells[m]? =
    if m = other then (row.cells[m]?).map (blanked style) else row.cells[m]? := by
  unfold Row.blankOther
  split
  next hnone =>
    split
    next h => rw [h, hnone, Option.map_none]
    · rfl
  next cell hcell =>
    have hlt := (List.getElem?_eq_some_iff.mp hcell).1
    dsimp only
    rw [List.getElem?_set]
    split
    next h =>
      subst h
      rw [if_pos rfl, hcell, Option.map_some]
      rfl
    next h => rw [if_neg (Ne.symm h)]

theorem clearWide_other (h : OtherAt row.cells col m) :
    (row.clearWide col style).cells[m]? = (row.cells[m]?).map (blanked style) := by
  unfold OtherAt at h
  rcases clearWide_cases row col style with ⟨hwide, heq⟩ | ⟨hhalf, hpos, heq⟩ | ⟨hwide, hhalf, heq⟩
  · have := not_both hwide
    rw [heq, cells_blankOther, if_pos (by tauto)]
  · have : ¬WideAt row.cells col := fun hw => not_both hw hhalf
    rw [heq, cells_blankOther, if_pos (by rcases h with h | h <;> [exact absurd h.1 this; omega])]
  · rcases h with h | h
    · exact absurd h.1 hwide
    · have := hhalf h.1
      omega

theorem clearWide_same (h : ¬OtherAt row.cells col m) : (row.clearWide col style).cells[m]? = row.cells[m]? := by
  unfold OtherAt at h
  rcases clearWide_cases row col style with ⟨hwide, heq⟩ | ⟨hhalf, hpos, heq⟩ | ⟨hwide, hhalf, heq⟩
  · rw [heq, cells_blankOther, if_neg fun hm => h (.inl ⟨hwide, hm⟩)]
  · rw [heq, cells_blankOther, if_neg fun hm => h (.inr ⟨hhalf, by omega⟩)]
  · rw [heq]

def Row.ownStyle (row : Row) (col : ℕ) : StyleId := ((row.cells[col]?).map Cell.style).getD 0

theorem clearOwn_eq (h : col < row.cells.length) :
    Grid.clearOwn row col = some (row.clearWide col (row.ownStyle col)) := by
  unfold Grid.clearOwn Row.ownStyle
  rw [List.getElem?_eq_getElem h]
  rfl

theorem wrapped_clearWide : (row.clearWide col style).wrapped = row.wrapped := by
  unfold Row.clearWide Row.blankOther
  repeat' split
  all_goals rfl

theorem set_eq {cell : Cell} (h : col < row.cells.length) : row.set col cell =
    ⟨(row.clearWide col (row.ownStyle col)).cells.set col cell, row.wrapped⟩ := by
  unfold Row.set Row.ownStyle
  rw [List.getElem?_eq_getElem h]
  dsimp only
  rw [wrapped_clearWide]
  rfl

theorem otherAt_congr {cells cells' : List Cell} (h : cells[col]? = cells'[col]?) :
    OtherAt cells col m ↔ OtherAt cells' col m := by
  unfold OtherAt WideAt HalfAt
  rw [h]

theorem clearWide_congr {row' : Row} (hcol : row.cells[col]? = row'.cells[col]?) (hm : row.cells[m]? = row'.cells[m]?) :
    (row.clearWide col (row.ownStyle col)).cells[m]? = (row'.clearWide col (row'.ownStyle col)).cells[m]? := by
  have hown : row.ownStyle col = row'.ownStyle col := by
    unfold Row.ownStyle
    rw [hcol]
  by_cases hother : OtherAt row.cells col m
  · rw [clearWide_other hother, clearWide_other ((otherAt_congr hcol).mp hother), hm, hown]
  · rw [clearWide_same hother, clearWide_same fun ho => hother ((otherAt_congr hcol).mpr ho), hm]

theorem cells_clearWide_self : (row.clearWide col style).cells[col]? = row.cells[col]? := by
  refine clearWide_same ?_
  rintro (⟨-, heq⟩ | ⟨-, heq⟩)
  · omega
  · omega

theorem ownStyle_clearWide : (row.clearWide col style).ownStyle col = row.ownStyle col := by
  unfold Row.ownStyle
  rw [cells_clearWide_self]

theorem clearWide_twice : (row.clearWide col style).clearWide col style = row.clearWide col style := by
  have hcol : (row.clearWide col style).cells[col]? = row.cells[col]? := cells_clearWide_self
  have hcells : ((row.clearWide col style).clearWide col style).cells = (row.clearWide col style).cells := by
    refine List.ext_getElem? fun m => ?_
    by_cases hother : OtherAt row.cells col m
    · rw [clearWide_other ((otherAt_congr hcol).mpr hother), clearWide_other hother, Option.map_map]
      exact congrArg (fun f => (row.cells[m]?).map f) (funext (blanked_blanked style))
    · rw [clearWide_same fun ho => hother ((otherAt_congr hcol).mp ho)]
  have hwrapped : ((row.clearWide col style).clearWide col style).wrapped = (row.clearWide col style).wrapped :=
    wrapped_clearWide
  generalize (row.clearWide col style).clearWide col style = row' at hcells hwrapped
  generalize row.clearWide col style = row'' at hcells hwrapped
  obtain ⟨cells, wrapped⟩ := row'
  obtain rfl := hcells
  obtain rfl := hwrapped
  rfl

end clearing

/-- Plain characters put one by one, from a column on. -/
def Row.setEach (style : StyleId) : ℕ → List Char → Row → Row
  | _, [], row => row
  | col, b :: bytes, row => setEach style (col + 1) bytes (row.set col ⟨.ofScalar b 1, style⟩)

section runs

variable {row : Row} {col m : ℕ} {style : StyleId} {b : Char} {bytes : List Char}

theorem Coupled.setPlain (h : Coupled row.cells) : Coupled (row.set col ⟨.ofScalar b 1, style⟩).cells :=
  h.narrow rfl rfl

theorem setEach_wrapped (bytes : List Char) (col : ℕ) (row : Row) :
    (row.setEach style col bytes).wrapped = row.wrapped := by
  induction bytes generalizing col row with
  | nil => rfl
  | cons b bytes ih =>
    rw [Row.setEach, ih]
    unfold Row.set
    split
    · rfl
    · exact wrapped_clearWide

theorem cells_set {cell : Cell} (h : col < row.cells.length) : (row.set col cell).cells[m]? =
    if m = col then some cell else (row.clearWide col (row.ownStyle col)).cells[m]? := by
  rw [set_eq h, List.getElem?_set, Row.length_clearWide]
  split
  next hm => rw [if_pos hm.symm]
  next hm => rw [if_neg (Ne.symm hm)]

theorem clearWide_beside (h : Coupled row.cells) {style' : StyleId} (hm : m ≤ col) :
    ((row.set col ⟨.ofScalar b 1, style⟩).clearWide (col + 1) style').cells[m]? =
      (row.set col ⟨.ofScalar b 1, style⟩).cells[m]? := by
  refine clearWide_same ?_
  rintro (⟨-, heq⟩ | ⟨hhalf, -⟩)
  · omega
  · rw [← h.setPlain.next, wideAt_rowSet, if_pos rfl] at hhalf
    cases hhalf.2

theorem setEach_before (h : Coupled row.cells) (hne : bytes ≠ []) (hstop : col + bytes.length ≤ row.cells.length)
    (hm : m < col) : (row.setEach style col bytes).cells[m]? = (row.clearWide col (row.ownStyle col)).cells[m]? := by
  induction bytes generalizing row col with
  | nil => exact absurd rfl hne
  | cons b bytes ih =>
    rw [List.length_cons] at hstop
    have hset : (row.set col ⟨.ofScalar b 1, style⟩).cells[m]? = (row.clearWide col (row.ownStyle col)).cells[m]? := by
      rw [cells_set (by omega), if_neg (by omega)]
    rw [Row.setEach]
    by_cases hlast : bytes = []
    · rw [hlast]
      exact hset
    · rw [ih h.setPlain hlast (by rw [Row.length_set]; omega) (by omega), clearWide_beside h (by omega), hset]

theorem setEach_within (h : Coupled row.cells) (hstop : col + bytes.length ≤ row.cells.length) {i : ℕ}
    (hi : i < bytes.length) : (row.setEach style col bytes).cells[col + i]? =
      (bytes[i]?).map fun b => ⟨.ofScalar b 1, style⟩ := by
  induction bytes generalizing row col i with
  | nil => exact absurd hi (Nat.not_lt_zero i)
  | cons b bytes ih =>
    rw [List.length_cons] at hstop hi
    have hstop' : col + 1 + bytes.length ≤ (row.set col ⟨.ofScalar b 1, style⟩).cells.length := by
      rw [Row.length_set]
      omega
    rw [Row.setEach]
    cases i with
    | zero =>
      have hset : (row.set col ⟨.ofScalar b 1, style⟩).cells[col]? = some ⟨.ofScalar b 1, style⟩ := by
        rw [cells_set (by omega), if_pos rfl]
      change (Row.setEach style (col + 1) bytes _).cells[col]? = _
      by_cases hlast : bytes = []
      · rw [hlast]
        exact hset
      · rw [setEach_before h.setPlain hlast hstop' (Nat.lt_succ_self col), clearWide_beside h (Nat.le_refl col), hset]
        rfl
    | succ i =>
      have hmore := ih (i := i) h.setPlain hstop' (by omega)
      rw [Nat.add_right_comm] at hmore
      exact hmore

theorem clearWide_past (h : Coupled row.cells) {last : ℕ} (hlast : col < last) (hlen : last < row.cells.length)
    (hm : last < m) : ((row.set col ⟨.ofScalar b 1, style⟩).clearWide last
      ((row.set col ⟨.ofScalar b 1, style⟩).ownStyle last)).cells[m]? =
        (row.clearWide last (row.ownStyle last)).cells[m]? := by
  have hfar : ∀ k, last < k → ¬OtherAt row.cells col k := by
    rintro k hk (⟨-, heq⟩ | ⟨-, heq⟩)
    · omega
    · omega
  have hset : ∀ k, col < k → ¬OtherAt row.cells col k →
      (row.set col ⟨.ofScalar b 1, style⟩).cells[k]? = row.cells[k]? := fun k hk hother => by
    rw [cells_set (by omega), if_neg (by omega), clearWide_same hother]
  have hright : ∀ {cells : List Cell}, OtherAt cells last m ↔ WideAt cells last ∧ m = last + 1 := by
    intro cells
    unfold OtherAt
    grind
  by_cases hwide : WideAt row.cells last
  · -- The wide cell there is whole, so none of it is next to the cell put.
    have hother : ¬OtherAt row.cells col last := by
      rintro (⟨hcol, rfl⟩ | ⟨-, heq⟩)
      · exact not_both hwide ((h.next col).mp hcol)
      · omega
    have hown : (row.set col ⟨.ofScalar b 1, style⟩).ownStyle last = row.ownStyle last := by
      unfold Row.ownStyle
      rw [hset last hlast hother]
    have hwide' : WideAt (row.set col ⟨.ofScalar b 1, style⟩).cells last := by
      rw [wideAt_rowSet, if_neg (by omega)]
      exact ⟨hwide, hother⟩
    rw [hown]
    by_cases hnext : m = last + 1
    · rw [clearWide_other (hright.mpr ⟨hwide', hnext⟩), clearWide_other (hright.mpr ⟨hwide, hnext⟩),
        hset m (by omega) (hfar m hm)]
    · rw [clearWide_same fun ho => hnext (hright.mp ho).2, clearWide_same fun ho => hnext (hright.mp ho).2,
        hset m (by omega) (hfar m hm)]
  · have hwide' : ¬WideAt (row.set col ⟨.ofScalar b 1, style⟩).cells last := by
      rw [wideAt_rowSet, if_neg (by omega)]
      exact fun hw => hwide hw.1
    rw [clearWide_same fun ho => hwide' (hright.mp ho).1, clearWide_same fun ho => hwide (hright.mp ho).1,
      hset m (by omega) (hfar m hm)]

theorem setEach_after (h : Coupled row.cells) {last : ℕ} (hstop : last + 1 = col + bytes.length)
    (hlast : last < row.cells.length) (hne : bytes ≠ []) (hm : last < m) :
    (row.setEach style col bytes).cells[m]? = (row.clearWide last (row.ownStyle last)).cells[m]? := by
  induction bytes generalizing row col with
  | nil => exact absurd rfl hne
  | cons b bytes ih =>
    rw [List.length_cons] at hstop
    rw [Row.setEach]
    by_cases hone : bytes = []
    · subst hone
      obtain rfl : last = col := by rw [List.length_nil] at hstop; omega
      rw [Row.setEach, cells_set hlast, if_neg (by omega)]
    · have hpos := List.length_pos_iff.mpr hone
      rw [ih h.setPlain (by omega) (by rw [Row.length_set]; omega) hone, clearWide_past h (by omega) hlast hm]

theorem asciiRow_eq (h : Coupled row.cells) (hne : bytes ≠ []) (hstop : col + bytes.length ≤ row.cells.length) :
    asciiRow col (col + bytes.length) bytes style row = some (row.setEach style col bytes) := by
  have hpos := List.length_pos_iff.mpr hne
  obtain ⟨last, hlast⟩ : ∃ last, col + bytes.length = last + 1 := ⟨col + bytes.length - 1, by omega⟩
  have hlen : ∀ style, (row.clearWide col style).cells.length = row.cells.length := fun _ => Row.length_clearWide _ _ _
  unfold asciiRow
  rw [clearOwn_eq (by omega)]
  dsimp only [Option.bind_eq_bind, Option.bind_some]
  rw [if_pos (by omega), hlast, Nat.add_sub_cancel, clearOwn_eq (by rw [hlen]; omega)]
  dsimp only [Option.bind_some]
  obtain ⟨row₂, hrow₂⟩ : ∃ row₂, row₂ = (row.clearWide col (row.ownStyle col)).clearWide last
    ((row.clearWide col (row.ownStyle col)).ownStyle last) := ⟨_, rfl⟩
  have hlen₂ : row₂.cells.length = row.cells.length := by rw [hrow₂, Row.length_clearWide, hlen]
  have hwrapped₂ : row₂.wrapped = row.wrapped := by rw [hrow₂, wrapped_clearWide, wrapped_clearWide]
  have hbefore : ∀ m, m < col → row₂.cells[m]? = (row.setEach style col bytes).cells[m]? := fun m hm => by
    rw [setEach_before h hne hstop hm, hrow₂]
    by_cases hone : last = col
    · rw [hone, ownStyle_clearWide, clearWide_twice]
    · refine clearWide_same ?_
      rintro (⟨-, heq⟩ | ⟨-, heq⟩)
      · omega
      · omega
  have hafter : ∀ m, last < m → row₂.cells[m]? = (row.setEach style col bytes).cells[m]? := fun m hm => by
    rw [setEach_after h hlast.symm (by omega) hne hm, hrow₂]
    by_cases hone : last = col
    · rw [hone, ownStyle_clearWide, clearWide_twice]
    · have hcol : col < row.cells.length := by omega
      have hset : ∀ k, last ≤ k → (row.clearWide col (row.ownStyle col)).cells[k]? =
          (row.set col ⟨.ofScalar ' ' 1, style⟩).cells[k]? := fun k hk => by
        rw [cells_set hcol, if_neg (by omega)]
      rw [clearWide_congr (hset last (Nat.le_refl last)) (hset m (by omega)),
        clearWide_past h (by omega) (by omega) hm]
  rw [← hrow₂, onRange_eq (by omega) (by omega)]
  dsimp only [Option.bind_some]
  have htake : bytes.take ((row₂.cells.drop col).take (last + 1 - col)).length = bytes := by
    refine List.take_of_length_le ?_
    rw [List.length_take, List.length_drop]
    omega
  have hcells : row₂.cells.take col ++ (bytes.map fun b => (⟨.ofScalar b 1, style⟩ : Cell)) ++ row₂.cells.drop
    (last + 1) =
      (row.setEach style col bytes).cells := by
    refine List.ext_getElem? fun m => ?_
    rw [List.getElem?_append, List.getElem?_append, List.length_append, List.length_take, List.length_map,
      List.getElem?_drop]
    split
    · split
      · rw [List.getElem?_take, if_pos (by omega), hbefore m (by omega)]
      · obtain ⟨i, rfl⟩ : ∃ i, m = col + i := ⟨m - col, by omega⟩
        rw [setEach_within h hstop (by omega), List.getElem?_map]
        congr 2
        omega
    · rw [hafter _ (by omega)]
      congr 1
      omega
  rw [htake, hcells]
  have hwrapped : (row.setEach style col bytes).wrapped = row.wrapped := setEach_wrapped bytes col row
  generalize row.setEach style col bytes = row' at hwrapped
  obtain ⟨cells, wrapped⟩ := row'
  obtain rfl := hwrapped
  rw [hwrapped₂]

end runs

end Term

end Dekit
