import Mathlib.Data.List.TakeWhile
import Dekit.Term.Imageless
import Dekit.Term.PlainRow
import Dekit.Term.WholeCells

namespace Dekit

namespace Term

open Slice Total

namespace Grid

/-- Plain characters written one after the other from the cursor on. -/
def typeRun (style : StyleId) (run : List Char) (g : Grid) : Grid :=
  { g with
    rows := g.rows.modify g.pos.row (Row.setEach style g.pos.col run)
    pos := { g.pos with col := g.pos.col + run.length } }

theorem typeRun_typeRun (style : StyleId) (c : Char) (run : List Char) (g : Grid) :
    (g.typeRun style [c]).typeRun style run = g.typeRun style (c :: run) := by
  have hrows : (g.rows.modify g.pos.row (Row.setEach style g.pos.col [c])).modify g.pos.row
      (Row.setEach style (g.pos.col + 1) run) = g.rows.modify g.pos.row (Row.setEach style g.pos.col (c :: run)) := by
    rw [List.modify_modify_eq]
    rfl
  have hcol : g.pos.col + [c].length + run.length = g.pos.col + (c :: run).length := by
    rw [List.length_singleton, List.length_cons]
    omega
  unfold typeRun
  dsimp only
  rw [hcol, List.length_singleton, hrows]

end Grid

namespace Screen

variable {I : Type} {x : Externs I} {s : Screen I} {style : StyleId}

section styling

theorem putGrid_activeGrid (s : Screen I) : s.putGrid s.activeGrid = s := by
  unfold putGrid activeGrid
  split <;> rfl

def Linked (s : Screen I) (link : LinkId) : Prop :=
  s.link = none ∧ link = 0 ∨ s.link.isSome = true ∧ (if s.modes.altScreen then s.altLinkId else s.linkId) = some link

theorem Linked.currentLinkId {link : LinkId} (h : s.Linked link) : s.currentLinkId = (link, s) := by
  unfold Screen.currentLinkId
  rcases h with ⟨hnone, rfl⟩ | ⟨hsome, hid⟩
  · rw [hnone]
  · obtain ⟨uri, huri⟩ := Option.isSome_iff_exists.mp hsome
    rw [huri]
    dsimp only
    rw [hid]

theorem Linked.putGrid {link : LinkId} (h : s.Linked link) (g : Grid) : (s.putGrid g).Linked link := by
  unfold Screen.putGrid
  split <;> exact h

theorem linked_currentLinkId (s : Screen I) : s.currentLinkId.2.Linked s.currentLinkId.1 := by
  unfold Screen.currentLinkId
  split
  next hnone => exact .inl ⟨hnone, rfl⟩
  next link hlink =>
    have hsome : s.link.isSome = true := by
      rw [hlink]
      rfl
    split
    next id hid => exact .inr ⟨hsome, hid⟩
    · refine .inr ?_
      cases hon : s.modes.altScreen <;> simp [Screen.putGrid, hon, hsome]

def Styled (s : Screen I) (style : StyleId) : Prop :=
  ∃ link, s.Linked link ∧ s.activeGrid.tables.styles.lookup (s.style.withLink link) = some style

theorem style_putGrid (s : Screen I) (g : Grid) : (s.putGrid g).style = s.style := by
  unfold putGrid
  split <;> rfl

theorem Styled.styleId (h : s.Styled style) : s.styleId = (style, s) := by
  obtain ⟨link, hlink, hstyle⟩ := h
  have hintern : s.activeGrid.internStyle (s.style.withLink link) = (style, s.activeGrid) := by
    unfold Grid.internStyle StyleTable.intern
    rw [hstyle]
  unfold Screen.styleId
  rw [hlink.currentLinkId]
  dsimp only
  unfold Screen.internStyle
  rw [hintern]
  exact congrArg (style, ·) s.putGrid_activeGrid

theorem lookup_intern (t : StyleTable) (style : Style) : (t.intern style).2.lookup style = some (t.intern style).1 := by
  unfold StyleTable.intern
  split
  next id hid => exact hid
  next hnone =>
    have hnot : ∀ style' ∈ t, decide (style' = style) = false := List.findIdx?_eq_none_iff.mp hnone
    unfold StyleTable.lookup
    rw [List.findIdx?_append, List.findIdx?_eq_none_iff.mpr hnot]
    simp

theorem styled_styleId (s : Screen I) : s.styleId.2.Styled s.styleId.1 := by
  obtain ⟨s₁, hs⟩ : ∃ s₁, s.currentLinkId.2 = s₁ := ⟨_, rfl⟩
  obtain ⟨g, hg⟩ : ∃ g, (s₁.activeGrid.internStyle (s₁.style.withLink s.currentLinkId.1)).2 = g := ⟨_, rfl⟩
  have hafter : s.styleId.2 = s₁.putGrid g := by
    subst hs hg
    rfl
  rw [hafter]
  refine ⟨s.currentLinkId.1, (hs ▸ linked_currentLinkId s).putGrid g, ?_⟩
  rw [activeGrid_putGrid, style_putGrid]
  subst hs hg
  exact lookup_intern _ _

def typed (s : Screen I) (g : Grid) (c : Char) : Screen I :=
  { s.putGrid g with lastChar := some c, placeholderMarks := 0 }

theorem activeGrid_typed (s : Screen I) (g : Grid) (c : Char) : (s.typed g c).activeGrid = g := activeGrid_putGrid s g

theorem typed_typed (s : Screen I) (g g' : Grid) (c c' : Char) : (s.typed g c).typed g' c' = s.typed g' c' := by
  unfold typed putGrid
  cases h : s.modes.altScreen <;> simp [h]

theorem Styled.typed (h : s.Styled style) {g : Grid} (hg : g.tables = s.activeGrid.tables) (c : Char) :
    (s.typed g c).Styled style := by
  obtain ⟨link, hlink, hstyle⟩ := h
  refine ⟨link, hlink.putGrid g, ?_⟩
  have hsame : (s.typed g c).style = s.style := style_putGrid s g
  rw [activeGrid_typed, hg, hsame]
  exact hstyle

/-- What interning leaves as it is of all that the next character depends on. -/
structure SameMode (s s' : Screen I) : Prop where
  modes : s'.modes = s.modes
  singleShift : s'.singleShift = s.singleShift
  glSet : s'.glSet = s.glSet

theorem SameMode.trans {s' s'' : Screen I} (h : SameMode s s') (h' : SameMode s' s'') : SameMode s s'' :=
  ⟨h'.modes.trans h.modes, h'.singleShift.trans h.singleShift, h'.glSet.trans h.glSet⟩

theorem sameMode_putGrid (s : Screen I) (g : Grid) : SameMode s (s.putGrid g) := by
  unfold putGrid
  split <;> exact ⟨rfl, rfl, rfl⟩

theorem sameMode_currentLinkId (s : Screen I) : SameMode s s.currentLinkId.2 := by
  unfold currentLinkId
  split
  · exact ⟨rfl, rfl, rfl⟩
  next link _ =>
    split
    · exact ⟨rfl, rfl, rfl⟩
    · have hput := sameMode_putGrid s (s.activeGrid.internLink link).2
      dsimp only
      split <;> exact ⟨hput.modes, hput.singleShift, hput.glSet⟩

theorem sameMode_styleId (s : Screen I) : SameMode s s.styleId.2 :=
  (sameMode_currentLinkId s).trans (sameMode_putGrid _ _)

theorem activeGrid_currentLinkId (s : Screen I) :
    s.currentLinkId.2.activeGrid = { s.activeGrid with tables := s.currentLinkId.2.activeGrid.tables } := by
  unfold currentLinkId
  split
  · rfl
  next link _ =>
    split
    · rfl
    · have hput : (s.putGrid (s.activeGrid.internLink link).2).activeGrid = { s.activeGrid with
          tables := (s.putGrid (s.activeGrid.internLink link).2).activeGrid.tables } := by
        rw [activeGrid_putGrid]
        rfl
      dsimp only
      split <;> exact hput

theorem activeGrid_styleId (s : Screen I) :
    s.styleId.2.activeGrid = { s.activeGrid with tables := s.styleId.2.activeGrid.tables } := by
  have hlink := activeGrid_currentLinkId s
  have hintern : s.styleId.2.activeGrid = (s.currentLinkId.2.activeGrid.internStyle
      (s.currentLinkId.2.style.withLink s.currentLinkId.1)).2 := activeGrid_putGrid _ _
  rw [hintern]
  generalize s.currentLinkId.2.activeGrid = g at hlink ⊢
  rw [hlink]
  rfl

theorem sameMode_typed (s : Screen I) (g : Grid) (c : Char) : SameMode s (s.typed g c) := by
  have hput := sameMode_putGrid s g
  exact ⟨hput.modes, hput.singleShift, hput.glSet⟩

end styling

section plain

variable {L : RowLaw x.charWidth} {n : ℕ} {c : Char}

theorem isPlain_range (hc : isPlain c) : 0x20 ≤ c.toNat ∧ c.toNat ≤ 0x7E := of_decide_eq_true hc

theorem scalarWidth_plain (hc : isPlain c) (hwidth : x.charWidth c = some 1) : scalarWidth x.charWidth c = some 1 := by
  have hrange := isPlain_range hc
  unfold scalarWidth
  rw [if_neg (by omega), hwidth]
  rfl

theorem attach_plain (hc : isPlain c) (hwidth : x.charWidth c = some 1) (prev : Prev) :
    attach x.charWidth c prev = .new 1 := by
  have hscalar := scalarWidth_plain hc hwidth
  have hrange := isPlain_range hc
  have hbase : isEmojiBase c = false := by
    unfold isEmojiBase emojiBases
    simp
    omega
  have hri : isRegionalIndicator c = false := by
    unfold isRegionalIndicator
    simp
    omega
  have hmodifier : isEmojiModifier c = false := by
    unfold isEmojiModifier
    simp
    omega
  have hvs : c ≠ vs16 := by
    rintro rfl
    exact absurd hrange.2 (by decide)
  unfold attach
  rw [hscalar]
  dsimp only [Option.getD_some]
  rw [hbase, hri, hmodifier, if_neg hvs]
  simp

variable {g : Grid}

theorem writeCell_plain (h : g.Lawful L n) (hbare : g.Bare) (hcol : g.pos.col < L.width) (c : Char) (style : StyleId) :
    (do
      let g ← g.writeCell g.pos (.ofScalar c 1) style
      some (g.colInc 1)) = some (g.typeRun style [c]) := by
  have hwidth := L.width_le
  have hrow := h.row
  obtain ⟨row, hget, -⟩ := gives_getElem (by rw [h.rows]; exact hrow : g.pos.row < g.rows.length)
  have hwide : ¬(CellText.ofScalar c 1).isWide = true := Bool.false_ne_true
  have hmodify : g.rows.modify g.pos.row (Row.setEach style g.pos.col [c]) =
      g.rows.set g.pos.row (row.set g.pos.col ⟨.ofScalar c 1, style⟩) := by
    rw [List.modify_eq_set_getElem?, hget]
    rfl
  have hinc : saturatingAdd16 g.pos.col 1 = g.pos.col + 1 := Nat.min_eq_left (by omega)
  unfold Grid.writeCell
  rw [h.width_eq, h.height_eq, if_neg (by omega), if_neg hwide,
    show add16 g.pos.col 1 = some (g.pos.col + 1) from add_eq (by omega)]
  dsimp only [Option.bind_eq_bind, Option.bind_some]
  rw [hbare.touch]
  unfold Grid.modifyRow Grid.colInc Grid.typeRun
  rw [hget, hmodify]
  dsimp only [Option.bind_eq_bind, Option.bind_some, List.length_singleton]
  rw [if_neg hwide]
  dsimp only [Option.bind_some]
  rw [hinc]

theorem makeRoom_plain (h : g.Lawful L n) (hcol : g.pos.col ≤ g.marginRight) (autowrap : Bool) (style : StyleId) :
    makeRoom x autowrap 1 style g = some (true, g) := by
  have hroom := h.room
  unfold makeRoom
  rw [show add16 g.pos.col 1 = some (g.pos.col + 1) from add_eq (by omega),
    show add16 g.marginRight 1 = some (g.marginRight + 1) from add_eq (by omega)]
  dsimp only [Option.bind_eq_bind, Option.bind_some]
  rw [if_neg (by omega)]

/-- Plain characters are written as they are, each in a cell of its own. -/
structure Ready (L : RowLaw x.charWidth) (n : ℕ) (s : Screen I) : Prop where
  lawful : s.Lawful L n
  bare : s.Bare
  replacing : s.modes.insert = false
  ascii : s.glSet = .ascii

theorem putChar_unshifted (hunshifted : s.singleShift = none) (hset : s.glSet = .ascii) (hc : isPlain c)
    (hwidth : x.charWidth c = some 1) : s.putChar x c = s.putScalar x c := by
  have hrange := isPlain_range hc
  have hsame : { s with singleShift := none } = s := by
    obtain ⟨⟩ := s
    obtain rfl := hunshifted
    rfl
  have htranslated : s.translated c = c := by
    unfold translated
    rw [hunshifted, hset]
    dsimp only [CharSet.translate]
    split <;> rfl
  have hplaceholder : c ≠ CellText.placeholder := by
    rintro rfl
    exact absurd hrange.2 (by decide)
  have hmark : markIndex c = none := if_pos (by omega)
  rw [putChar_eq, hsame, htranslated]
  unfold putTranslated
  rw [scalarWidth_plain hc hwidth, if_neg (by exact Bool.false_ne_true), if_neg hplaceholder, hmark]
  rfl

theorem Ready.putChar (h : s.Ready L n) (hc : isPlain c) (hwidth : x.charWidth c = some 1)
    (hcol : s.activeGrid.pos.col ≤ s.activeGrid.marginRight) :
    s.putChar x c = some (s.styleId.2.typed (s.styleId.2.activeGrid.typeRun s.styleId.1 [c]) c) := by
  obtain ⟨prev, hprev, -⟩ := h.lawful.prevCell
  have hlaw := h.lawful.styleId
  have hbare := h.bare.styleId
  have hmodes := (sameMode_styleId s).modes
  have hgrid := activeGrid_styleId s
  have hright : s.styleId.2.activeGrid.pos.col ≤ s.styleId.2.activeGrid.marginRight := by
    rw [hgrid]
    exact hcol
  rw [putChar_unshifted h.bare.unshifted h.ascii hc hwidth]
  unfold putScalar
  rw [hprev]
  dsimp only [Option.bind_eq_bind, Option.bind_some]
  rw [attach_plain hc hwidth]
  dsimp only
  unfold writeNew
  generalize s.styleId = styled at hlaw hbare hmodes hright ⊢
  obtain ⟨style, s'⟩ := styled
  dsimp only at hlaw hbare hmodes hright ⊢
  rw [makeRoom_plain hlaw.active hright]
  dsimp only [Option.bind_eq_bind, Option.bind_some]
  rw [if_neg (by decide), hmodes, h.replacing, if_neg Bool.false_ne_true]
  have hroom := hlaw.active.room
  have hwrite := writeCell_plain hlaw.active hbare.grid (by omega) c style
  obtain ⟨g, hg, hinc⟩ := Option.bind_eq_some_iff.mp hwrite
  rw [hg, ← Option.some.inj hinc]
  rfl

theorem Ready.putChars (h : s.Ready L n) {run : List Char} (hrun : ∀ c ∈ run, isPlain c)
    (hwidth : ∀ c ∈ run, x.charWidth c = some 1) {last : Char} (hlast : run.getLast? = some last)
    (hcol : s.activeGrid.pos.col + run.length ≤ s.activeGrid.marginRight + 1) :
    run.foldlM (Screen.putChar x) s =
      some (s.styleId.2.typed (s.styleId.2.activeGrid.typeRun s.styleId.1 run) last) := by
  induction run generalizing s with
  | nil => cases hlast
  | cons c run ih =>
    rw [List.length_cons] at hcol
    have hput := h.putChar (hrun c List.mem_cons_self) (hwidth c List.mem_cons_self) (by omega)
    obtain ⟨s', hs'⟩ : ∃ s', s' = s.styleId.2.typed (s.styleId.2.activeGrid.typeRun s.styleId.1 [c]) c := ⟨_, rfl⟩
    rw [← hs'] at hput
    have hready : s'.Ready L n := by
      obtain ⟨s'', heq, hlaw⟩ := h.lawful.putChar (x := x) c
      have hbare := Bare.putChar h.bare.grid c s' hput
      obtain rfl := Option.some.inj (heq.symm.trans hput)
      have hsame := (sameMode_styleId s).trans (sameMode_typed s.styleId.2
        (s.styleId.2.activeGrid.typeRun s.styleId.1 [c]) c)
      rw [← hs'] at hsame
      exact ⟨hlaw, hbare, by rw [hsame.modes, h.replacing], by rw [hsame.glSet, h.ascii]⟩
    have hgrid : s'.activeGrid = s.styleId.2.activeGrid.typeRun s.styleId.1 [c] := by
      rw [hs', activeGrid_typed]
    have hstyled : s'.Styled s.styleId.1 := by
      rw [hs']
      exact (styled_styleId s).typed (g := s.styleId.2.activeGrid.typeRun s.styleId.1 [c]) rfl c
    rw [List.foldlM_cons, hput]
    change run.foldlM (Screen.putChar x) s' = _
    by_cases hone : run = []
    · subst hone
      rw [List.getLast?_singleton] at hlast
      rw [List.foldlM_nil, hs', ← Option.some.inj hlast]
      rfl
    · have hpos : s'.activeGrid.pos.col = s.activeGrid.pos.col + 1 := by
        rw [hgrid, activeGrid_styleId]
        rfl
      have hright : s'.activeGrid.marginRight = s.activeGrid.marginRight := by
        rw [hgrid, activeGrid_styleId]
        rfl
      rw [List.getLast?_cons_of_ne_nil hone] at hlast
      rw [ih hready (fun c hc => hrun c (List.mem_cons_of_mem _ hc)) (fun c hc => hwidth c (List.mem_cons_of_mem _ hc))
        hlast (by omega), hstyled.styleId]
      dsimp only
      rw [hgrid, Grid.typeRun_typeRun, hs', typed_typed]

theorem writeAsciiRow_plain {width : ℕ} {htwo : 2 ≤ width} {hle : width ≤ 65533}
    (h : g.Lawful (.whole x.charWidth width htwo hle) n)
    (hbare : g.Bare) {run : List Char} (hne : run ≠ []) (hcol : g.pos.col + run.length ≤ width) (style : StyleId) :
    (do
      let g ← g.writeAsciiRow g.pos run style
      some (g.colInc run.length)) = some (g.typeRun style run) := by
  have hwidth : g.size.width = width := h.width_eq
  have hrow := h.row
  obtain ⟨row, hget, hmem⟩ := gives_getElem (by rw [h.rows]; exact hrow : g.pos.row < g.rows.length)
  obtain ⟨hlen, hcoupled⟩ : row.cells.length = width ∧ Coupled row.cells := (h.cells row hmem.2).law
  have hmodify : g.rows.modify g.pos.row (Row.setEach style g.pos.col run) =
      g.rows.set g.pos.row (row.setEach style g.pos.col run) := by
    rw [List.modify_eq_set_getElem?, hget]
    rfl
  have hinc : saturatingAdd16 g.pos.col run.length = g.pos.col + run.length := Nat.min_eq_left (by omega)
  rw [Grid.writeAsciiRow_eq, h.height_eq, if_neg (by simp [hne]; omega), hbare.touch, hwidth, Nat.min_eq_left hcol]
  unfold Grid.modifyRow Grid.colInc Grid.typeRun
  rw [hget, hmodify]
  dsimp only [Option.bind_eq_bind, Option.bind_some]
  rw [asciiRow_eq hcoupled hne (by omega)]
  dsimp only [Option.bind_some]
  rw [hinc]

theorem Ready.blit {width : ℕ} {htwo : 2 ≤ width} {hle : width ≤ 65533}
    (h : s.Ready (.whole x.charWidth width htwo hle) n)
    {run : List Char} (hrun : ∀ c ∈ run, isPlain c) (hwidth : ∀ c ∈ run, x.charWidth c = some 1) :
    ∃ k s', s.blit run = some (k, s') ∧ k ≤ run.length ∧ (run.take k).foldlM (Screen.putChar x) s = some s' := by
  have hroom := h.lawful.active.room
  have hmargin : s.activeGrid.marginRight < width := hroom.2.1
  unfold Screen.blit
  dsimp only
  split
  · exact ⟨0, s, rfl, Nat.zero_le _, rfl⟩
  next hin =>
    push Not at hin
    have hlen := List.length_pos_of_ne_nil (by simpa using hin.1 : run ≠ [])
    rw [show add16 s.activeGrid.marginRight 1 = some (s.activeGrid.marginRight + 1) from add_eq (by omega)]
    dsimp only [Option.bind_eq_bind, Option.bind_some]
    rw [sub_eq (by omega)]
    dsimp only [Option.bind_some]
    obtain ⟨k, hk⟩ : ∃ k, k = min run.length (s.activeGrid.marginRight + 1 - s.activeGrid.pos.col) := ⟨_, rfl⟩
    rw [← hk]
    have htake : (run.take k).length = k := by
      rw [List.length_take]
      omega
    have hne : run.take k ≠ [] := List.ne_nil_of_length_pos (by omega)
    obtain ⟨last, hlast⟩ : ∃ last, (run.take k).getLast? = some last := ⟨_, List.getLast?_eq_some_getLast hne⟩
    have hfold := h.putChars (x := x) (fun c hc => hrun c (List.mem_of_mem_take hc))
      (fun c hc => hwidth c (List.mem_of_mem_take hc)) hlast (by omega)
    refine ⟨k, _, ?_, by omega, hfold⟩
    have hpos : s.styleId.2.activeGrid.pos = s.activeGrid.pos := pos_styleId s
    have hwrite := writeAsciiRow_plain h.lawful.styleId.active h.bare.styleId.grid hne (by rw [hpos]; omega) s.styleId.1
    rw [htake, hpos] at hwrite
    have hwith : s.withStyle (fun style g => do
        let g ← g.writeAsciiRow s.activeGrid.pos (run.take k) style
        some (g.colInc k)) =
          some (s.styleId.2.putGrid (s.styleId.2.activeGrid.typeRun s.styleId.1 (run.take k))) := by
      unfold Screen.withStyle Screen.withGrid
      dsimp only
      rw [hwrite]
      rfl
    have hdone := congrArg (fun o => o >>= fun s => (run.take k).getLast? >>= fun last =>
      some (k, { s with lastChar := some last, placeholderMarks := 0 })) hwith
    rw [hlast] at hdone ⊢
    exact hdone

end plain

section runs

variable {width n : ℕ} {htwo : 2 ≤ width} {hle : width ≤ 65533}

theorem textRun_skip (skip : ℕ) (text : List Char) (s : Screen I) :
    textRun x skip text s = textRun x 0 (text.drop skip) s := by
  induction skip generalizing text with
  | zero => rfl
  | succ skip ih =>
    cases text with
    | nil => rfl
    | cons c rest => exact ih rest

theorem textTurn_eq (h : s.Lawful (.whole x.charWidth width htwo hle) n) (hbare : s.activeGrid.Bare)
    (hwidth : ∀ c, isPlain c → x.charWidth c = some 1) (c : Char) (rest : List Char) :
    ∃ k s', s.textTurn x c rest = some (k, s') ∧ k ≤ rest.length ∧
      ((c :: rest).take (k + 1)).foldlM (Screen.putChar x) s = some s' := by
  obtain ⟨s₁, hput, hlaw⟩ := h.putChar (x := x) c
  have hbare₁ := Bare.putChar hbare c s₁ hput
  unfold textTurn
  rw [hput]
  dsimp only [Option.bind_eq_bind, Option.bind_some]
  split
  · refine ⟨0, s₁, rfl, Nat.zero_le _, ?_⟩
    rw [List.take_succ_cons, List.take_zero, List.foldlM_cons, hput]
    rfl
  next hplain =>
    simp only [Bool.or_eq_true, Bool.not_eq_true', decide_eq_true_eq, not_or, Bool.not_eq_false, Bool.not_eq_true,
      Decidable.not_not, ne_eq] at hplain
    obtain ⟨⟨-, hinsert⟩, hset⟩ := hplain
    have hready : s₁.Ready (.whole x.charWidth width htwo hle) n := ⟨hlaw, hbare₁, hinsert, hset⟩
    have hall : ∀ c ∈ rest.takeWhile isPlain, isPlain c := fun c hc => List.mem_takeWhile_imp hc
    obtain ⟨k, s', hblit, hk, hfold⟩ := hready.blit (x := x) hall fun c hc => hwidth c (hall c hc)
    obtain ⟨more, hmore⟩ := List.takeWhile_prefix isPlain (l := rest)
    have hprefix : (rest.takeWhile isPlain).take k = rest.take k := by
      have happend : (rest.takeWhile isPlain ++ more).take k = (rest.takeWhile isPlain).take k :=
        List.take_append_of_le_length hk
      rw [← happend, hmore]
    refine ⟨k, s', hblit, Nat.le_trans hk (List.takeWhile_sublist _).length_le, ?_⟩
    rw [List.take_succ_cons, List.foldlM_cons, hput, ← hprefix]
    exact hfold

/-- The fast path for plain characters changes nothing: a run of text written with it, whatever the text and wherever on
the screen, is the same text written scalar by scalar. -/
theorem textRun_eq (h : s.Lawful (.whole x.charWidth width htwo hle) n) (hbare : s.activeGrid.Bare)
    (hwidth : ∀ c, isPlain c → x.charWidth c = some 1) (text : List Char) :
    textRun x 0 text s = text.foldlM (putChar x) s := by
  obtain ⟨len, hlen⟩ : ∃ len, text.length ≤ len := ⟨_, Nat.le_refl _⟩
  induction len generalizing text s with
  | zero =>
    obtain rfl := List.eq_nil_of_length_eq_zero (Nat.eq_zero_of_le_zero hlen)
    rfl
  | succ len ih =>
    cases text with
    | nil => rfl
    | cons c rest =>
      rw [List.length_cons] at hlen
      obtain ⟨k, s', hturn, hk, hfold⟩ := textTurn_eq h hbare hwidth c rest
      have hlaw : s'.Lawful (.whole x.charWidth width htwo hle) n := by
        obtain ⟨p, heq, hp⟩ := h.textTurn (x := x) c rest
        obtain rfl := Option.some.inj (heq.symm.trans hturn)
        exact hp
      have hbare' : s'.activeGrid.Bare := only_foldlM (P := fun s : Screen I => s.activeGrid.Bare)
        (fun s hs c _ s' hput => (Bare.putChar hs c s' hput).grid) hbare s' hfold
      have hdrop : (c :: rest).drop (k + 1) = rest.drop k := rfl
      rw [textRun, hturn]
      change textRun x k rest s' = _
      rw [textRun_skip, ih hlaw hbare' _ (by rw [List.length_drop]; omega), ← List.take_append_drop (k + 1) (c :: rest),
        List.foldlM_append, hfold, hdrop]
      rfl

end runs

section reached

/-- On every screen that output leads to, side margins never enabled, and that no image is drawn into, text is written with
the fast path for plain characters just as it is without it. -/
theorem fast_text (x : Externs I) (hascii : ∀ c, isPlain c → x.charWidth c = some 1) {size : Size}
    (hheight : size.height ≤ 65535) (htwo : 2 ≤ size.width) (hle : size.width ≤ 65533) (scrollbackLen : ℕ)
    {chunks : List (List UInt8)} (hoff : ∀ seq ∈ ((Vt.Scanner.new .output).feed chunks.flatten).2, ¬EnablesMargins seq)
    {s : Screen I} (hreached : (new x size scrollbackLen).processAll x chunks = some s) (hbare : s.activeGrid.Bare)
    (text : List Char) : textRun x 0 text s = text.foldlM (putChar x) s := by
  have hs := processAll_whole (x := x) hheight htwo hle scrollbackLen hoff s hreached
  exact textRun_eq hs hbare hascii text

theorem fast_text_wrapped : textRun plainExterns 0 ['a', 'b', '測', 'c', 'd', 'e', 'f'] (new plainExterns ⟨2, 4⟩ 10) =
    ['a', 'b', '測', 'c', 'd', 'e', 'f'].foldlM (putChar plainExterns) (new plainExterns ⟨2, 4⟩ 10) := by
  have hascii : ∀ c, isPlain c → plainExterns.charWidth c = some 1 := fun c hc => by
    refine if_neg ?_
    rintro rfl
    exact absurd (isPlain_range hc).2 (by decide)
  have hnone : ∀ seq ∈ ((Vt.Scanner.new .output).feed ([] : List (List UInt8)).flatten).2, ¬EnablesMargins seq := by
    rw [List.flatten_nil, Vt.Scanner.feed_nil]
    exact fun seq hseq => absurd hseq List.not_mem_nil
  have hbare : (new plainExterns ⟨2, 4⟩ 10).activeGrid.Bare := fun p hp => absurd hp List.not_mem_nil
  exact fast_text plainExterns hascii (by decide) (by decide) (by decide) 10 hnone rfl hbare _

end reached

end Screen

end Term

end Dekit
