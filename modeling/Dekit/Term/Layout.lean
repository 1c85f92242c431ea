import Dekit.Term.History

/-! How a line is laid out in rows, and where its cells come to lie. -/

namespace Dekit

namespace Term

section wrapping

variable {width w : ℕ} {p : ℕ × ℕ} {ws ws' : List ℕ}

def placeAt (width : ℕ) (p : ℕ × ℕ) (w : ℕ) : ℕ × ℕ :=
  if w = 0 then (p.1, p.2 - 1) else if p.2 + w > width ∧ 0 < p.2 then (p.1 + 1, 0) else p

def nextPlace (width : ℕ) (p : ℕ × ℕ) (w : ℕ) : ℕ × ℕ :=
  if w = 0 then p else ((placeAt width p w).1, (placeAt width p w).2 + w)

theorem wrapFrom_cons : wrapFrom width p (w :: ws) =
    (placeAt width p w :: (wrapFrom width (nextPlace width p w) ws).1, (wrapFrom width (nextPlace width p w) ws).2) := by
  rw [wrapFrom]
  unfold nextPlace placeAt
  split_ifs <;> rfl

theorem wrapFrom_get (n : ℕ) : (wrapFrom width p ws).1[n]? =
    (ws[n]?).map (placeAt width ((ws.take n).foldl (nextPlace width) p)) := by
  induction ws generalizing p n with
  | nil => rfl
  | cons w ws ih =>
    rw [wrapFrom_cons]
    cases n with
    | zero => rfl
    | succ n =>
      rw [List.getElem?_cons_succ, ih]
      rfl

theorem nextPlace_zero : nextPlace width p 0 = p := if_pos rfl

theorem nextPlace_pos (hw : w ≠ 0) : nextPlace width p w = ((placeAt width p w).1, (placeAt width p w).2 + w) :=
  if_neg hw

theorem nextPlace_row (p : ℕ × ℕ) (w : ℕ) : (nextPlace width p w).1 = (placeAt width p w).1 := by
  unfold nextPlace placeAt
  split_ifs <;> rfl

variable (width) in
theorem placeAt_row (p : ℕ × ℕ) (w : ℕ) :
    (placeAt width p w).1 = p.1 ∨ w ≠ 0 ∧ placeAt width p w = (p.1 + 1, 0) ∧ width < p.2 + w := by
  unfold placeAt
  split_ifs with hw hroom
  · exact .inl rfl
  · exact .inr ⟨hw, rfl, hroom.1⟩
  · exact .inl rfl

theorem nextPlace_le (p : ℕ × ℕ) (w : ℕ) : p.1 ≤ (nextPlace width p w).1 := by
  rw [nextPlace_row]
  rcases placeAt_row width p w with h | ⟨-, h, -⟩
  · exact Nat.le_of_eq h.symm
  · rw [h]
    exact Nat.le_succ _

variable (width) in
theorem foldl_nextPlace_le (ws : List ℕ) (p : ℕ × ℕ) : p.1 ≤ (ws.foldl (nextPlace width) p).1 := by
  induction ws generalizing p with
  | nil => exact Nat.le_refl _
  | cons w ws ih => exact Nat.le_trans (nextPlace_le p w) (ih _)

theorem nextPlace_col (hw : w ≤ width) (hp : p.2 ≤ width) : (nextPlace width p w).2 ≤ width := by
  unfold nextPlace placeAt
  split_ifs with hzero hroom
  · exact hp
  · simpa using hw
  · simp only
    omega

variable (width p ws) in
/-- Cells stay in a row just as long as there is room for all of them. -/
theorem foldl_nextPlace_row (hws : ∀ w ∈ ws, w ≤ width) (hp : p.2 ≤ width) :
    (ws.foldl (nextPlace width) p).1 = p.1 ↔ p.2 + ws.sum ≤ width := by
  induction ws generalizing p with
  | nil => simpa using hp
  | cons w ws ih =>
    have hw := hws w List.mem_cons_self
    have hrest := ih (p := nextPlace width p w) (fun w hw => hws w (List.mem_cons_of_mem _ hw)) (nextPlace_col hw hp)
    have hge := foldl_nextPlace_le width ws (nextPlace width p w)
    rw [List.foldl_cons, List.sum_cons]
    by_cases hzero : w = 0
    · rw [hzero, nextPlace_zero] at hrest ⊢
      rw [hrest, Nat.zero_add]
    · by_cases hroom : p.2 + w > width ∧ 0 < p.2
      · have hplace : placeAt width p w = (p.1 + 1, 0) := (if_neg hzero).trans (if_pos hroom)
        rw [nextPlace_row, hplace] at hge
        constructor
        · intro h
          omega
        · intro h
          omega
      · have hplace : placeAt width p w = p := (if_neg hzero).trans (if_neg hroom)
        rw [nextPlace_pos hzero, hplace] at hrest ⊢
        rw [hrest, Nat.add_assoc]

variable (width p) in
theorem wrapFrom_last (hws : ws ≠ []) : ∃ q, (wrapFrom width p ws).1.getLast? = some q ∧
    q.1 = (ws.foldl (nextPlace width) p).1 := by
  induction ws generalizing p with
  | nil => exact absurd rfl hws
  | cons w ws ih =>
    rw [wrapFrom_cons, List.foldl_cons]
    cases ws with
    | nil => exact ⟨placeAt width p w, rfl, (nextPlace_row p w).symm⟩
    | cons w' ws =>
      obtain ⟨q, hq, hrow⟩ := ih (p := nextPlace width p w) (List.cons_ne_nil _ _)
      rw [wrapFrom_cons] at hq ⊢
      exact ⟨q, hq, hrow⟩

variable (width p ws) in
theorem wrapFrom_first {r : ℕ} (hr : p.1 < r) (hend : r ≤ (ws.foldl (nextPlace width) p).1) :
    ∃ n, (wrapFrom width p ws).1[n]? = some (r, 0) ∧
      ∀ (m : ℕ) q, m < n → (wrapFrom width p ws).1[m]? = some q → q.1 < r := by
  induction ws generalizing p with
  | nil => exact absurd hr (Nat.not_lt.mpr hend)
  | cons w ws ih =>
    rw [wrapFrom_cons]
    rw [List.foldl_cons] at hend
    by_cases hplace : placeAt width p w = (r, 0)
    · exact ⟨0, by rw [hplace]; rfl, nofun⟩
    · have hlow : (placeAt width p w).1 < r := by
        rcases placeAt_row width p w with h | ⟨-, h, -⟩
        · rwa [h]
        · rw [h] at hplace ⊢
          have : p.1 + 1 ≠ r := fun heq => hplace (by rw [heq])
          simp only
          omega
      obtain ⟨n, hn, hbefore⟩ := ih _ (by rw [nextPlace_row]; exact hlow) hend
      refine ⟨n + 1, hn, fun m q hm hq => ?_⟩
      cases m with
      | zero =>
        obtain rfl := Option.some.inj hq
        exact hlow
      | succ m => exact hbefore m q (Nat.lt_of_succ_lt_succ hm) hq

end wrapping

section tables

/-- Tables that have more than others at their end. -/
structure Tables.Grown (t t' : Tables) : Prop where
  styles : t.styles <+: t'.styles
  graphemes : t.graphemes <+: t'.graphemes

theorem Tables.Grown.refl (t : Tables) : t.Grown t := ⟨List.prefix_refl _, List.prefix_refl _⟩

theorem Tables.Grown.trans {t t' t'' : Tables} (h : t.Grown t') (h' : t'.Grown t'') : t.Grown t'' :=
  ⟨h.styles.trans h'.styles, h.graphemes.trans h'.graphemes⟩

theorem getElem?_of_findIdx? {α : Type} [DecidableEq α] {t : List α} {a : α} {i : ℕ} (h : t.findIdx? (· = a) = some i) :
    t[i]? = some a := by
  obtain ⟨hi, ha, -⟩ := List.findIdx?_eq_some_iff_getElem.mp h
  rw [List.getElem?_eq_getElem hi, of_decide_eq_true ha]

theorem getElem?_of_initial {α : Type} {t t' : List α} {a : α} {i : ℕ} (h : t <+: t') (hi : t[i]? = some a) :
    t'[i]? = some a := by
  obtain ⟨rest, rfl⟩ := h
  rw [List.getElem?_append_left (List.getElem?_eq_some_iff.mp hi).1, hi]

theorem StyleTable.intern_spec (t : StyleTable) (style : Style) :
    t <+: (t.intern style).2 ∧ (t.intern style).2[(t.intern style).1]? = some style := by
  unfold intern lookup
  cases h : t.findIdx? (· = style) with
  | some id => exact ⟨List.prefix_refl _, getElem?_of_findIdx? h⟩
  | none => exact ⟨List.prefix_append _ _, List.getElem?_concat_length⟩

/-- The text of a cell for a row. There may be no room for it among the clusters. -/
inductive TextOf (g : GraphemeTable) : List Char → ℕ → CellText → Prop
  | nothing {w : ℕ} : TextOf g [] w .empty
  | blank {w : ℕ} : TextOf g [' '] w .empty
  | scalar {c : Char} {w : ℕ} (hc : c ≠ ' ') : TextOf g [c] w (.ofScalar c w)
  | cluster {text : List Char} {w i : ℕ} (hlen : 2 ≤ text.length) (hi : g[i]? = some text) :
    TextOf g text w (.ofGrapheme i w)
  | noRoom {text : List Char} {w : ℕ} (hlen : 2 ≤ text.length) (hfull : maxGraphemes ≤ g.length) :
    TextOf g text w (.ofScalar '\uFFFD' 1)

theorem TextOf.grown {g g' : GraphemeTable} {text : List Char} {width : ℕ} {t : CellText} (hg : g <+: g')
    (h : TextOf g text width t) : TextOf g' text width t := by
  cases h with
  | nothing => exact .nothing
  | blank => exact .blank
  | scalar hc => exact .scalar hc
  | cluster hlen hi => exact .cluster hlen (getElem?_of_initial hg hi)
  | noRoom hlen hfull => exact .noRoom hlen (Nat.le_trans hfull hg.length_le)

theorem GraphemeTable.intern_grows (g : GraphemeTable) (text : List Char) : g <+: (g.intern text).2 := by
  unfold intern
  split
  · exact List.prefix_refl _
  · split
    · exact List.prefix_refl _
    · exact List.prefix_append _ _

theorem GraphemeTable.intern_spec (g : GraphemeTable) (text : List Char) :
    match (g.intern text).1 with
    | some i => (g.intern text).2[i]? = some text
    | none => maxGraphemes ≤ (g.intern text).2.length := by
  unfold intern lookup
  cases h : g.findIdx? (· = text) with
  | some i => exact getElem?_of_findIdx? h
  | none =>
    simp only
    split_ifs with hfull
    · exact hfull
    · exact List.getElem?_concat_length

theorem CellText.of_grows (g : GraphemeTable) (text : List Char) (width : ℕ) : g <+: (CellText.of text width g).2 := by
  unfold CellText.of
  have hintern := GraphemeTable.intern_grows g text
  split
  · exact List.prefix_refl _
  · exact List.prefix_refl _
  · split <;> rename_i h <;> rw [h] at hintern <;> exact hintern

theorem cellText_grows (g : GraphemeTable) (text : List Char) (width : ℕ) :
    g <+: (Line.cellText text width g).2 := by
  unfold Line.cellText
  split
  · exact List.prefix_refl _
  · exact CellText.of_grows g text width

theorem cellText_spec (g : GraphemeTable) (text : List Char) (width : ℕ) :
    TextOf (Line.cellText text width g).2 text width (Line.cellText text width g).1 := by
  unfold Line.cellText
  split_ifs with hspace
  · subst hspace
    exact .blank
  · match text, hspace with
    | [], _ => exact .nothing
    | [c], hspace => exact .scalar fun h => hspace (by rw [h])
    | c :: c' :: text, _ =>
      have hlen : 2 ≤ (c :: c' :: text).length := Nat.le_add_left 2 _
      have hspec := GraphemeTable.intern_spec g (c :: c' :: text)
      unfold CellText.of
      simp only
      split <;> rename_i h <;> rw [h] at hspec
      · exact .cluster hlen hspec
      · exact .noRoom hlen hspec

/-- A cell of a row shows one of a line: its text, and its style by its place among the styles. -/
structure Showing (t : Tables) (cell : LineCell) (shown : Cell) : Prop where
  text : TextOf t.graphemes cell.text cell.width shown.text
  style : t.styles[shown.style]? = some cell.style

theorem TextOf.not_half {g : GraphemeTable} {text : List Char} {w : ℕ} {t : CellText} (h : TextOf g text w t) :
    t.isContinuation = false := by
  cases h <;> rfl

theorem Showing.not_half {t : Tables} {cell : LineCell} {shown : Cell} (h : Showing t cell shown) :
    shown.isContinuation = false := h.text.not_half

theorem Showing.grown {t t' : Tables} {cell : LineCell} {shown : Cell} (ht : t.Grown t') (h : Showing t cell shown) :
    Showing t' cell shown :=
  ⟨h.text.grown ht.graphemes, getElem?_of_initial ht.styles h.style⟩

end tables

namespace Line

namespace Layout

variable {width : ℕ} {s s' : Layout} {p q : ℕ × ℕ} {cell : LineCell} {shown : Cell}

def newRow (width row : ℕ) (s : Layout) : Layout :=
  { s with rows := s.rows ++ [paddedRow s.cells width], cells := [], current := row }

def put (cell : LineCell) (s : Layout) : Layout :=
  let (style, styles) := s.tables.styles.intern cell.style
  let (text, graphemes) := cellText cell.text cell.width s.tables.graphemes
  let cells := s.cells ++ [⟨text, style⟩]
  { s with
    cells := if cell.width = 2 then cells ++ [⟨.continuation, style⟩] else cells
    tables := { s.tables with styles := styles, graphemes := graphemes } }

theorem layCell_eq : layCell width s (cell, q) =
    if cell.width = 0 then s else put cell (if q.1 ≠ s.current then s.newRow width q.1 else s) := rfl

/-- The rows so far are those above a place, and the cells those to its left. -/
structure At (width : ℕ) (p : ℕ × ℕ) (s : Layout) : Prop where
  rows : s.rows.length = p.1
  current : s.current = p.1
  cells : s.cells.length = p.2
  col : p.2 ≤ width

def Holds (s : Layout) (q : ℕ × ℕ) (shown : Cell) : Prop :=
  (s.rows[q.1]?).bind (fun row => row.cells[q.2]?) = some shown ∨ q.1 = s.rows.length ∧ s.cells[q.2]? = some shown

/-- The cells so far stay where they are. -/
structure Kept (s s' : Layout) : Prop where
  tables : s.tables.Grown s'.tables
  cells : ∀ q shown, s.Holds q shown → s'.Holds q shown

theorem Kept.refl (s : Layout) : s.Kept s := ⟨.refl _, fun _ _ h => h⟩

theorem Kept.trans {s'' : Layout} (h : s.Kept s') (h' : s'.Kept s'') : s.Kept s'' :=
  ⟨h.tables.trans h'.tables, fun q shown hs => h'.cells q shown (h.cells q shown hs)⟩

theorem paddedRow_get {cells : List Cell} (hlen : cells.length ≤ width) {c : ℕ} (h : cells[c]? = some shown) :
    (paddedRow cells width).cells[c]? = some shown := by
  have hc := (List.getElem?_eq_some_iff.mp h).1
  unfold paddedRow Row.wrap Row.fromCells
  simp only
  rw [List.getElem?_append_left (by simp; omega), List.getElem?_take_of_lt (by omega), List.getElem?_append_left hc, h]

theorem fromCells_get {cells : List Cell} (hlen : cells.length ≤ width) {c : ℕ} (h : cells[c]? = some shown) :
    (Row.fromCells cells width).cells[c]? = some shown := by
  have hc := (List.getElem?_eq_some_iff.mp h).1
  unfold Row.fromCells
  simp only
  rw [List.getElem?_append_left (by simp; omega), List.getElem?_take_of_lt (by omega), h]

theorem At.newRow (h : s.At width p) :
    (s.newRow width (p.1 + 1)).At width (p.1 + 1, 0) ∧ s.Kept (s.newRow width (p.1 + 1)) := by
  refine ⟨⟨by simp [Layout.newRow, h.rows], rfl, rfl, Nat.zero_le _⟩, .refl _, fun q shown hs => ?_⟩
  rcases hs with hs | ⟨hq, hs⟩
  · obtain ⟨row, hrow, hcell⟩ := Option.bind_eq_some_iff.mp hs
    refine .inl (Option.bind_eq_some_iff.mpr ⟨row, ?_, hcell⟩)
    exact getElem?_of_initial (List.prefix_append _ _) hrow
  · refine .inl (Option.bind_eq_some_iff.mpr ⟨paddedRow s.cells width, ?_, ?_⟩)
    · rw [hq]
      exact List.getElem?_concat_length
    · exact paddedRow_get (h.cells ▸ h.col) hs

theorem put_cells : (put cell s).cells = s.cells ++
    ⟨(cellText cell.text cell.width s.tables.graphemes).1, (s.tables.styles.intern cell.style).1⟩ ::
      if cell.width = 2 then [⟨.continuation, (s.tables.styles.intern cell.style).1⟩] else [] := by
  unfold put
  simp only
  split_ifs <;> simp

theorem At.put (h : s.At width p) (hpos : cell.width ≠ 0) (htwo : cell.width ≤ 2) (hroom : p.2 + cell.width ≤ width) :
    (put cell s).At width (p.1, p.2 + cell.width) ∧ s.Kept (put cell s) ∧
      ∃ shown, (put cell s).Holds p shown ∧ Showing (put cell s).tables cell shown ∧
        (cell.width = 2 → (put cell s).Holds (p.1, p.2 + 1) ⟨.continuation, shown.style⟩) := by
  have hgrown : s.tables.Grown (Layout.put cell s).tables :=
    ⟨(s.tables.styles.intern_spec cell.style).1, cellText_grows _ _ _⟩
  refine ⟨⟨h.rows, h.current, ?_, hroom⟩, ⟨hgrown, fun q shown hs => ?_⟩, ?_⟩
  · rw [put_cells, List.length_append, h.cells, List.length_cons]
    split_ifs with hwide
    · rw [hwide]
      rfl
    · simp only [List.length_nil]
      omega
  · rcases hs with hs | ⟨hq, hs⟩
    · exact .inl hs
    · refine .inr ⟨hq, ?_⟩
      rw [put_cells]
      exact getElem?_of_initial (List.prefix_append _ _) hs
  · refine ⟨⟨(cellText cell.text cell.width s.tables.graphemes).1, (s.tables.styles.intern cell.style).1⟩,
      .inr ⟨h.rows.symm, ?_⟩, ⟨cellText_spec _ _ _, (s.tables.styles.intern_spec cell.style).2⟩,
      fun hwide => .inr ⟨h.rows.symm, ?_⟩⟩
    · rw [put_cells, ← h.cells, List.getElem?_append_right (Nat.le_refl _), Nat.sub_self]
      rfl
    · rw [put_cells, if_pos hwide, ← h.cells, List.getElem?_append_right (Nat.le_succ _), Nat.succ_sub (Nat.le_refl _),
        Nat.sub_self]
      rfl

theorem At.step (hwidth : 2 ≤ width) (h : s.At width p) (htwo : cell.width ≤ 2) :
    (layCell width s (cell, placeAt width p cell.width)).At width (nextPlace width p cell.width) ∧
      s.Kept (layCell width s (cell, placeAt width p cell.width)) ∧
      (cell.width ≠ 0 → ∃ shown, (layCell width s (cell, placeAt width p cell.width)).Holds (placeAt width p cell.width) shown ∧
        Showing (layCell width s (cell, placeAt width p cell.width)).tables cell shown ∧
        (cell.width = 2 → (layCell width s (cell, placeAt width p cell.width)).Holds
          ((placeAt width p cell.width).1, (placeAt width p cell.width).2 + 1) ⟨.continuation, shown.style⟩)) := by
  rw [layCell_eq]
  by_cases hzero : cell.width = 0
  · rw [if_pos hzero, hzero, nextPlace_zero]
    exact ⟨h, .refl _, fun hne => absurd rfl hne⟩
  · rw [if_neg hzero, nextPlace_pos hzero]
    by_cases hroom : p.2 + cell.width > width ∧ 0 < p.2
    · have hplace : placeAt width p cell.width = (p.1 + 1, 0) := (if_neg hzero).trans (if_pos hroom)
      rw [hplace, if_pos (by rw [h.current]; exact Nat.succ_ne_self _)]
      obtain ⟨hnew, hkept⟩ := h.newRow
      obtain ⟨hput, hmore, hshown⟩ := hnew.put hzero htwo (by simp only; omega)
      exact ⟨hput, hkept.trans hmore, fun _ => hshown⟩
    · have hplace : placeAt width p cell.width = p := (if_neg hzero).trans (if_neg hroom)
      have hcol := h.col
      rw [hplace, if_neg (by rw [h.current]; exact not_not.mpr rfl)]
      obtain ⟨hput, hmore, hshown⟩ := h.put hzero htwo (by omega)
      exact ⟨hput, hmore, fun _ => hshown⟩

/-- A line's cell is shown at a place, and next to it its right half if it is wide. -/
def ShownAt (s : Layout) (cell : LineCell) (q : ℕ × ℕ) : Prop :=
  ∃ shown, s.Holds q shown ∧ Showing s.tables cell shown ∧
    (cell.width = 2 → s.Holds (q.1, q.2 + 1) ⟨.continuation, shown.style⟩)

theorem ShownAt.kept (hk : s.Kept s') (h : s.ShownAt cell q) : s'.ShownAt cell q := by
  obtain ⟨shown, hholds, hshowing, hwide⟩ := h
  exact ⟨shown, hk.cells q shown hholds, hshowing.grown hk.tables, fun htwo => hk.cells _ _ (hwide htwo)⟩

def laid (width : ℕ) (p : ℕ × ℕ) (cells : List LineCell) (s : Layout) : Layout :=
  (cells.zip (wrapFrom width p (cells.map LineCell.width)).1).foldl (layCell width) s

theorem laid_cons (cell : LineCell) (cells : List LineCell) (s : Layout) : laid width p (cell :: cells) s =
    laid width (nextPlace width p cell.width) cells (layCell width s (cell, placeAt width p cell.width)) := by
  unfold laid
  rw [List.map_cons, wrapFrom_cons, List.zip_cons_cons, List.foldl_cons]

theorem At.steps (hwidth : 2 ≤ width) {cells : List LineCell} (h : s.At width p)
    (htwo : ∀ cell ∈ cells, cell.width ≤ 2) :
    (laid width p cells s).At width ((cells.map LineCell.width).foldl (nextPlace width) p) ∧
      s.Kept (laid width p cells s) ∧
      ∀ (n : ℕ) cell q, cells[n]? = some cell → (wrapFrom width p (cells.map LineCell.width)).1[n]? = some q →
        cell.width ≠ 0 → (laid width p cells s).ShownAt cell q := by
  induction cells generalizing s p with
  | nil => exact ⟨h, .refl _, fun n cell q hc => by simp at hc⟩
  | cons cell cells ih =>
    obtain ⟨hat, hkept, hshown⟩ := h.step hwidth (htwo cell List.mem_cons_self)
    obtain ⟨hat', hkept', hshown'⟩ := ih hat fun cell hc => htwo cell (List.mem_cons_of_mem _ hc)
    rw [laid_cons, List.map_cons, List.foldl_cons, wrapFrom_cons]
    refine ⟨hat', hkept.trans hkept', fun n c q hc hq hne => ?_⟩
    cases n with
    | zero =>
      obtain rfl := Option.some.inj hc
      obtain rfl := Option.some.inj hq
      exact ShownAt.kept hkept' (hshown hne)
    | succ n => exact hshown' n c q hc hq hne

end Layout

variable {charWidth : Char → Option ℕ} {l : Line} {t : Tables} {width : ℕ}

theorem clusterStep_le (p : ℕ × Prev) (c : Char) (h : p.1 ≤ 2) : (clusterStep charWidth p c).1 ≤ 2 := by
  have hscalar : (scalarWidth charWidth c).getD 0 ≤ 2 := by
    unfold scalarWidth
    split_ifs
    · exact Nat.zero_le _
    · split <;> simp
  unfold clusterStep
  split
  · rename_i w hw
    have hnew : w = (scalarWidth charWidth c).getD 0 ∨ w = max ((scalarWidth charWidth c).getD 0)
        (if (scalarWidth charWidth c).getD 0 = 0 then 1 else (scalarWidth charWidth c).getD 0) := by
      unfold attach at hw
      grind
    rcases hnew with rfl | rfl
    · exact hscalar
    · split_ifs <;> simp only <;> omega
  · exact h
  · exact Nat.le_refl _

variable (charWidth) in
theorem clusterWidth_le (text : List Char) : clusterWidth charWidth text ≤ 2 := by
  have hfold (p : ℕ × Prev) (hp : p.1 ≤ 2) : (text.foldl (clusterStep charWidth) p).1 ≤ 2 := by
    induction text generalizing p with
    | nil => exact hp
    | cons c text ih => exact ih _ (clusterStep_le p c hp)
  exact hfold _ (Nat.zero_le _)

theorem cellsFrom_width {text : List Char} {start : ℕ} {counts : List ℕ} {styles : List Style} {cell : LineCell}
    (h : cell ∈ cellsFrom charWidth text start counts styles) : cell.width ≤ 2 := by
  induction counts generalizing start styles with
  | nil => cases h
  | cons bytes counts ih =>
    rw [cellsFrom] at h
    rcases List.mem_cons.mp h with rfl | h
    · simp only
      have := clusterWidth_le charWidth (sliceBytes text start (min (start + bytes) (utf8Len text)))
      split_ifs <;> omega
    · exact ih h

variable (charWidth l) in
theorem cells_width (cell : LineCell) (h : cell ∈ l.lineCells charWidth) : cell.width ≤ 2 := cellsFrom_width h

theorem widths_le (w : ℕ) (h : w ∈ l.widths charWidth) : w ≤ 2 := by
  obtain ⟨cell, hcell, rfl⟩ := List.mem_map.mp h
  exact cells_width charWidth l cell hcell

theorem length_expand {α : Type} (runs : List (α × ℕ)) : (expand runs).length = (runs.map Prod.snd).sum := by
  unfold expand
  rw [List.length_flatMap]
  simp

theorem length_cellsFrom (text : List Char) (start : ℕ) (counts : List ℕ) (styles : List Style) :
    (cellsFrom charWidth text start counts styles).length = counts.length := by
  induction counts generalizing start styles with
  | nil => rfl
  | cons bytes counts ih => rw [cellsFrom, List.length_cons, ih, List.length_cons]

variable (charWidth l) in
theorem length_lineCells : (l.lineCells charWidth).length = l.cellCount := by
  unfold lineCells cellCount
  rw [length_cellsFrom, length_expand]

variable (charWidth l) in
theorem length_widths : (l.widths charWidth).length = l.cellCount := by
  unfold widths
  rw [List.length_map, length_lineCells]

def endAt (charWidth : Char → Option ℕ) (l : Line) (width : ℕ) : ℕ × ℕ :=
  (l.widths charWidth).foldl (nextPlace width) (0, 0)

def layout (charWidth : Char → Option ℕ) (l : Line) (width : ℕ) (t : Tables) : Layout :=
  Layout.laid width (0, 0) (l.lineCells charWidth) ⟨[], [], 0, t⟩

theorem max_width (hw : 2 ≤ width) : max width 1 = width := by omega

theorem rows_eq (hw : 2 ≤ width) : l.rows charWidth width t =
    ((l.layout charWidth width t).rows ++ [.fromCells (l.layout charWidth width t).cells width],
      (l.layout charWidth width t).tables) := by
  unfold rows wrap
  simp only [max_width hw]
  rfl

variable (charWidth) in
theorem layout_spec (hw : 2 ≤ width) (l : Line) (t : Tables) :
    (l.layout charWidth width t).At width (l.endAt charWidth width) ∧
      ∀ (n : ℕ) cell q, (l.lineCells charWidth)[n]? = some cell → (wrap (l.widths charWidth) width)[n]? = some q →
        cell.width ≠ 0 → (l.layout charWidth width t).ShownAt cell q := by
  have hstart : Layout.At width (0, 0) ⟨[], [], 0, t⟩ := ⟨rfl, rfl, rfl, Nat.zero_le _⟩
  obtain ⟨hat, -, hshown⟩ := hstart.steps hw fun cell hc => cells_width charWidth l cell hc
  refine ⟨hat, fun n cell q hc hq => ?_⟩
  unfold wrap at hq
  rw [max_width hw] at hq
  exact hshown n cell q hc hq

theorem rows_length (hw : 2 ≤ width) (l : Line) (t : Tables) :
    (l.rows charWidth width t).1.length = (l.endAt charWidth width).1 + 1 := by
  rw [rows_eq hw, List.length_append, (layout_spec charWidth hw l t).1.rows]
  rfl

theorem rowsAt_eq (hw : 2 ≤ width) (l : Line) : l.rowsAt charWidth width =
    if l.cellCount ≤ width then 1 else (l.endAt charWidth width).1 + 1 := by
  unfold rowsAt
  rw [max_width hw]
  split_ifs with hfew
  · rfl
  · have hws : l.widths charWidth ≠ [] := by
      intro h
      rw [← length_widths charWidth l, h] at hfew
      exact hfew (Nat.zero_le _)
    obtain ⟨q, hq, hrow⟩ := wrapFrom_last (max width 1) (0, 0) hws
    unfold wrap
    rw [hq, max_width hw] at *
    simp only
    rw [hrow]
    rfl

def Fits (charWidth : Char → Option ℕ) (l : Line) (width : ℕ) : Prop :=
  l.cellCount ≤ width → (l.widths charWidth).sum ≤ width

theorem endAt_zero (hw : 2 ≤ width) (l : Line) :
    (l.endAt charWidth width).1 = 0 ↔ (l.widths charWidth).sum ≤ width := by
  have hrow := foldl_nextPlace_row width (0, 0) (l.widths charWidth)
    (fun w h => Nat.le_trans (widths_le w h) hw) (Nat.zero_le _)
  rwa [Nat.zero_add] at hrow

variable (charWidth) in
theorem rowsAt_le (hw : 2 ≤ width) (l : Line) (t : Tables) :
    l.rowsAt charWidth width ≤ (l.rows charWidth width t).1.length := by
  rw [rowsAt_eq hw, rows_length hw]
  split_ifs <;> omega

theorem rowsAt_iff (hw : 2 ≤ width) (l : Line) (t : Tables) :
    l.rowsAt charWidth width = (l.rows charWidth width t).1.length ↔ l.Fits charWidth width := by
  rw [rowsAt_eq hw, rows_length hw]
  unfold Fits
  rw [← endAt_zero hw]
  split_ifs <;> omega

def cellAt (rows : List Row) (q : ℕ × ℕ) : Option Cell := (rows[q.1]?).bind fun row => row.cells[q.2]?

/-- The rows of the line have at a place one of its cells that is no right half. -/
def ShowsWhole (charWidth : Char → Option ℕ) (l : Line) (width : ℕ) (t : Tables) (n : ℕ) (q : ℕ × ℕ) : Prop :=
  ∃ cell shown, (l.lineCells charWidth)[n]? = some cell ∧ cell.width ≠ 0 ∧
    cellAt (l.rows charWidth width t).1 q = some shown ∧ Showing (l.rows charWidth width t).2 cell shown

/-- They have there the right half of the cell before, which lies to its left. -/
def ShowsHalf (charWidth : Char → Option ℕ) (l : Line) (width : ℕ) (t : Tables) (n : ℕ) (q : ℕ × ℕ) : Prop :=
  ∃ m c cell shown, n = m + 1 ∧ q.2 = c + 1 ∧ (l.lineCells charWidth)[n]? = some cell ∧ cell.width = 0 ∧
    l.ShowsWhole charWidth width t m (q.1, c) ∧
    cellAt (l.rows charWidth width t).1 q = some shown ∧ shown.isContinuation = true

def Shows (charWidth : Char → Option ℕ) (l : Line) (width : ℕ) (t : Tables) (n : ℕ) (q : ℕ × ℕ) : Prop :=
  l.ShowsWhole charWidth width t n q ∨ l.ShowsHalf charWidth width t n q

/-- No column of the layout exceeds 16 bits. -/
def Narrow (charWidth : Char → Option ℕ) (l : Line) (width : ℕ) : Prop :=
  ∀ (n : ℕ) w, (l.widths charWidth)[n]? = some w →
    (((l.widths charWidth).take n).foldl (nextPlace width) (0, 0)).2 + w ≤ u16Max

def Paired (charWidth : Char → Option ℕ) (l : Line) : Prop :=
  ∀ n : ℕ, (l.widths charWidth)[n]? = some 0 → ∃ m, n = m + 1 ∧ (l.widths charWidth)[m]? = some 2

theorem cellAt_of_holds (hw : 2 ≤ width) {q : ℕ × ℕ} {shown : Cell} (h : (l.layout charWidth width t).Holds q shown) :
    cellAt (l.rows charWidth width t).1 q = some shown := by
  obtain ⟨hat, -⟩ := layout_spec charWidth hw l t
  rw [rows_eq hw]
  rcases h with h | ⟨hq, h⟩
  · obtain ⟨row, hrow, hcell⟩ := Option.bind_eq_some_iff.mp h
    exact Option.bind_eq_some_iff.mpr ⟨row, getElem?_of_initial (List.prefix_append _ _) hrow, hcell⟩
  · refine Option.bind_eq_some_iff.mpr ⟨.fromCells (l.layout charWidth width t).cells width, ?_, ?_⟩
    · rw [hq]
      exact List.getElem?_concat_length
    · exact Layout.fromCells_get (hat.cells ▸ hat.col) h

theorem widths_get {n : ℕ} {cell : LineCell} (h : (l.lineCells charWidth)[n]? = some cell) :
    (l.widths charWidth)[n]? = some cell.width := by
  unfold widths
  rw [List.getElem?_map, h]
  rfl

theorem wrap_get (hw : 2 ≤ width) {n : ℕ} {cell : LineCell} (h : (l.lineCells charWidth)[n]? = some cell) :
    (wrap (l.widths charWidth) width)[n]? =
      some (placeAt width (((l.widths charWidth).take n).foldl (nextPlace width) (0, 0)) cell.width) := by
  unfold wrap
  rw [max_width hw, wrapFrom_get, widths_get h]
  rfl

theorem rowColOf_get {n : ℕ} {q : ℕ × ℕ} (h : (wrap (l.widths charWidth) width)[n]? = some q) :
    l.rowColOf charWidth width n = q := by
  unfold rowColOf
  simp only [h]

theorem shown_at (hw : 2 ≤ width) {n : ℕ} {cell : LineCell} (h : (l.lineCells charWidth)[n]? = some cell)
    (hne : cell.width ≠ 0) : ∃ shown, cellAt (l.rows charWidth width t).1 (l.rowColOf charWidth width n) = some shown ∧
      Showing (l.rows charWidth width t).2 cell shown ∧
      (cell.width = 2 → cellAt (l.rows charWidth width t).1
        ((l.rowColOf charWidth width n).1, (l.rowColOf charWidth width n).2 + 1) = some
          ⟨.continuation, shown.style⟩) := by
  have hplace := wrap_get hw h
  obtain ⟨shown, hholds, hshowing, hwide⟩ := (layout_spec charWidth hw l t).2 n cell _ h hplace hne
  rw [rowColOf_get hplace]
  refine ⟨shown, cellAt_of_holds hw hholds, ?_, fun htwo => cellAt_of_holds hw (hwide htwo)⟩
  rw [rows_eq hw]
  exact hshowing

theorem rowColOf_half (hw : 2 ≤ width) {m : ℕ} {cell half : LineCell} (h : (l.lineCells charWidth)[m]? = some cell)
    (hhalf : (l.lineCells charWidth)[m + 1]? = some half) (hne : cell.width ≠ 0) (hzero : half.width = 0) :
    l.rowColOf charWidth width (m + 1) =
      ((l.rowColOf charWidth width m).1, (l.rowColOf charWidth width m).2 + cell.width - 1) := by
  rw [rowColOf_get (wrap_get hw h), rowColOf_get (wrap_get hw hhalf), hzero,
    List.take_add_one, widths_get h, Option.toList_some, List.foldl_append, List.foldl_cons, List.foldl_nil,
      nextPlace_pos hne]
  rfl

theorem shows_iff (hw : 2 ≤ width) (l : Line) (t : Tables) :
    (∀ n < l.cellCount, l.Shows charWidth width t n (l.rowColOf charWidth width n)) ↔ l.Paired charWidth := by
  constructor
  · intro hall n hn
    have hlt : n < (l.widths charWidth).length := (List.getElem?_eq_some_iff.mp hn).1
    rw [length_widths] at hlt
    rcases hall n hlt with ⟨cell, shown, hcell, hne, -⟩ | ⟨m, c, half, shown, rfl, hq, hhalf, hzero, hwhole,
      hshown, hcont⟩
    · rw [widths_get hcell] at hn
      exact absurd (Option.some.inj hn) hne
    · refine ⟨m, rfl, ?_⟩
      obtain ⟨cell, left, hcell, hne, hleft, -⟩ := hwhole
      have htwo := cells_width charWidth l cell (List.mem_of_getElem? hcell)
      rw [widths_get hcell]
      by_cases hone : cell.width = 1
      · obtain ⟨shown', hshown', hshowing, -⟩ := shown_at (t := t) hw hcell hne
        have hplace := rowColOf_half hw hcell hhalf hne hzero
        rw [hone, Nat.add_sub_cancel] at hplace
        rw [hplace, hshown'] at hshown
        obtain rfl := Option.some.inj hshown
        rw [hshowing.not_half] at hcont
        cases hcont
      · congr 1
        omega
  · intro hpaired n hn
    rw [← length_lineCells charWidth l] at hn
    have hcell : (l.lineCells charWidth)[n]? = some (l.lineCells charWidth)[n] := List.getElem?_eq_getElem hn
    generalize (l.lineCells charWidth)[n] = cell at hcell
    by_cases hzero : cell.width = 0
    · have hwidth := widths_get hcell
      rw [hzero] at hwidth
      obtain ⟨m, rfl, hm⟩ := hpaired n hwidth
      have hlt : m < (l.lineCells charWidth).length := Nat.lt_of_succ_lt hn
      have hleft : (l.lineCells charWidth)[m]? = some (l.lineCells charWidth)[m] := List.getElem?_eq_getElem hlt
      generalize (l.lineCells charWidth)[m] = left at hleft
      rw [widths_get hleft] at hm
      have htwo : left.width = 2 := Option.some.inj hm
      have hne : left.width ≠ 0 := by omega
      obtain ⟨shown, hshown, hshowing, hwide⟩ := shown_at (t := t) hw hleft hne
      have hplace := rowColOf_half hw hleft hcell hne hzero
      rw [htwo] at hplace
      rw [hplace]
      exact .inr ⟨m, _, cell, _, rfl, rfl, hcell, hzero, ⟨left, shown, hleft, hne, hshown, hshowing⟩, hwide htwo, rfl⟩
    · obtain ⟨shown, hshown, hshowing, -⟩ := shown_at (t := t) hw hcell hzero
      exact .inl ⟨cell, shown, hcell, hzero, hshown, hshowing⟩

theorem offsetOfRow_first (hw : 2 ≤ width) (l : Line)
    (t : Tables) {r : ℕ} (hr : r < (l.rows charWidth width t).1.length) :
    l.rowColOf charWidth width (l.offsetOfRow charWidth width r) = (r, 0) ∧
      ∀ m < l.offsetOfRow charWidth width r, (l.rowColOf charWidth width m).1 < r := by
  rw [rows_length hw] at hr
  unfold offsetOfRow
  split_ifs with hzero
  · subst hzero
    refine ⟨?_, nofun⟩
    cases hcells : l.lineCells charWidth with
    | nil =>
      have hnil : l.widths charWidth = [] := by rw [widths, hcells]; rfl
      unfold rowColOf wrap wrapEnd
      rw [hnil]
      have hroom : 0 < max width 1 := by omega
      simp [wrapFrom, hroom]
    | cons cell cells =>
      rw [rowColOf_get (wrap_get hw (show (l.lineCells charWidth)[_]? = some cell by rw [hcells]; rfl))]
      unfold placeAt
      split_ifs with h h' <;> first | rfl | simp at h'
  · obtain ⟨n, hn, hbefore⟩ := wrapFrom_first width (0, 0) (l.widths charWidth)
      (Nat.pos_of_ne_zero hzero) (Nat.le_of_lt_succ hr)
    have hwrap : (wrapFrom width (0, 0) (l.widths charWidth)).1 = wrap (l.widths charWidth) width := by
      unfold wrap
      rw [max_width hw]
    rw [hwrap] at hn hbefore
    have hfind : (wrap (l.widths charWidth) width).findIdx? (fun p => p.1 = r) = some n := by
      obtain ⟨hlt, hget⟩ := List.getElem?_eq_some_iff.mp hn
      refine List.findIdx?_eq_some_iff_getElem.mpr ⟨hlt, by rw [hget]; exact decide_eq_true rfl, fun m hm => ?_⟩
      have := hbefore m _ hm (List.getElem?_eq_getElem (Nat.lt_trans hm hlt))
      simp only [decide_eq_true_eq]
      omega
    rw [hfind, Option.getD_some, rowColOf_get hn]
    refine ⟨rfl, fun m hm => ?_⟩
    have hlt := Nat.lt_trans hm (List.getElem?_eq_some_iff.mp hn).1
    rw [rowColOf_get (List.getElem?_eq_getElem hlt)]
    exact hbefore m _ hm (List.getElem?_eq_getElem hlt)

end Line

end Term

end Dekit
