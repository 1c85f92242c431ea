import Dekit.Term.Resizing
import Dekit.Term.Upkeep
import Dekit.Vt.Chunks

namespace Dekit

namespace Term

open Slice Vt Total

/-- What comes to a screen: a chunk of a program's output, or a new size. -/
inductive Input where
  | output (data : List UInt8)
  | resize (rows cols : ℕ)

def Input.data : Input → List UInt8
  | .output data => data
  | .resize _ _ => []

/-- The sizes that 16 bits hold, with room beside the last column for a wide cell. -/
def Input.Fits : Input → Prop
  | .output _ => True
  | .resize rows cols => rows ≤ 65535 ∧ cols ≤ 65533

/-- Everything the code indexes a grid with is where its rows, columns and tab stops are. -/
structure Grid.InBounds (g : Grid) : Prop where
  height : 0 < g.size.height
  width : 0 < g.size.width
  rows : g.rows.length = g.size.height
  cells : ∀ row ∈ g.rows, row.cells.length = g.size.width
  tabs : g.tabs.length = g.size.width
  row : g.pos.row < g.size.height
  col : g.pos.col ≤ max g.size.width 2
  region : g.scrollTop ≤ g.scrollBottom ∧ g.scrollBottom < g.size.height
  margins : g.marginLeft < g.marginRight ∧ g.marginRight < g.size.width ∨
    g.marginLeft = 0 ∧ g.marginRight = g.size.width - 1

section chunks

theorem mem_spell {items : List Seq} {seq : Seq} (hseq : ∀ t, seq ≠ .text t) : seq ∈ spell items ↔ seq ∈ items := by
  unfold spell
  rw [List.mem_flatMap]
  constructor
  · rintro ⟨item, hitem, hmem⟩
    split at hmem
    next t =>
      obtain ⟨b, -, hb⟩ := List.mem_map.mp hmem
      exact absurd hb.symm (hseq [b])
    · rw [List.mem_singleton.mp hmem]
      exact hitem
  · intro h
    refine ⟨seq, h, ?_⟩
    split
    · exact absurd rfl (hseq _)
    · exact List.mem_singleton_self _

/-- However output is cut into chunks, the sequences in it are the same. -/
theorem forall_feeds {P : Seq → Prop} (htext : ∀ t, P (.text t)) {scanner : Scanner} {chunks : List (List UInt8)}
    (h : ∀ seq ∈ (scanner.feed chunks.flatten).2, P seq) : ∀ seq ∈ (scanner.feeds chunks).2, P seq := by
  intro seq hmem
  by_cases hseq : ∃ t, seq = .text t
  · obtain ⟨t, rfl⟩ := hseq
    exact htext t
  · have hseq : ∀ t, seq ≠ .text t := not_exists.mp hseq
    rw [← mem_spell hseq, (Scanner.feeds_flatten scanner chunks).2, mem_spell hseq] at hmem
    exact h seq hmem

end chunks

namespace Screen

variable {I : Type} (x : Externs I)

def takeInput (s : Screen I) : Input → Option (Screen I)
  | .output data => s.process x data
  | .resize rows cols => s.setSize x rows cols

def takeInputs (s : Screen I) (inputs : List Input) : Option (Screen I) := inputs.foldlM (takeInput x) s

def Kept (s : Screen I) : Prop :=
  ∃ (width height : ℕ) (hpos : 0 < width) (hle : width ≤ 65533), s.Lawful (.sized x.charWidth width hpos hle) height

variable {x} {s s' : Screen I}

theorem process_scanner {data : List UInt8} (h : s.process x data = some s') :
    s'.scanner = (s.scanner.feed data).1 := by
  obtain ⟨s₁, -, heq⟩ := Option.bind_eq_some_iff.mp h
  cases heq
  rfl

theorem setSize_scanner {rows cols : ℕ} (h : s.setSize x rows cols = some s') : s'.scanner = s.scanner := by
  unfold Screen.setSize at h
  dsimp only at h
  split at h
  · rw [Option.some.inj h]
  · obtain ⟨grid, -, h⟩ := Option.bind_eq_some_iff.mp h
    obtain ⟨altGrid, -, h⟩ := Option.bind_eq_some_iff.mp h
    rw [← Option.some.inj h]
    split
    · rfl
    · rfl

theorem takeInput_scanner {input : Input} (h : s.takeInput x input = some s') :
    s'.scanner = (s.scanner.feed input.data).1 := by
  cases input with
  | output data => exact process_scanner h
  | resize rows cols =>
    rw [Input.data, Scanner.feed_nil]
    exact setSize_scanner h

theorem Kept.output (h : s.Kept x) (data : List UInt8) (hdecodes : ∀ seq ∈ (s.scanner.feed data).2, Decodes x seq) :
    Gives (s.process x data) (Kept x) := by
  obtain ⟨width, height, hpos, hle, hs⟩ := h
  refine (hs.processes data (fun _ _ _ _ _ hlt hright => ?_) hdecodes).mono fun s' hs' =>
    ⟨width, height, hpos, hle, hs'⟩
  exact .inl ⟨hlt, hright⟩

theorem Kept.resize (h : s.Kept x) {rows cols : ℕ} (hrows : rows ≤ 65535) (hcols : cols ≤ 65533) :
    Gives (s.setSize x rows cols) (Kept x) := by
  obtain ⟨width, height, hpos, hle, hs⟩ := h
  unfold Screen.setSize
  dsimp only
  split
  · exact .pure ⟨width, height, hpos, hle, hs⟩
  · have hrows' : max rows 1 ≤ 65535 := by omega
    have hcols' : max cols 1 ≤ 65533 := by omega
    have hcols₀ : 0 < max cols 1 := by omega
    refine (hs.grid.setSize x.charWidth rfl hrows' rfl hcols₀ hcols').bind fun grid hgrid => ?_
    refine (hs.altGrid.setSize x.charWidth rfl hrows' rfl hcols₀ hcols').bind fun altGrid haltGrid =>
      .pure ⟨max cols 1, max rows 1, hcols₀, hcols', ?_⟩
    have hfree : ∀ on : Bool, on = true → (RowLaw.sized x.charWidth (max cols 1) hcols₀ hcols').Free :=
      fun _ _ _ _ hlt hright => .inl ⟨hlt, hright⟩
    split
    · exact ⟨hgrid, haltGrid, hfree _⟩
    · exact ⟨hgrid, haltGrid, hfree _⟩

theorem Kept.takeInput (h : s.Kept x) {input : Input} (hfits : input.Fits)
    (hdecodes : ∀ seq ∈ (s.scanner.feed input.data).2, Decodes x seq) : Gives (s.takeInput x input) (Kept x) := by
  cases input with
  | output data => exact h.output data hdecodes
  | resize rows cols => exact h.resize hfits.1 hfits.2

theorem Kept.takeInputs (h : s.Kept x) {inputs : List Input} (hfits : ∀ input ∈ inputs, input.Fits)
    (hdecodes : ∀ seq ∈ (s.scanner.feeds (inputs.map Input.data)).2, Decodes x seq) :
    Gives (s.takeInputs x inputs) (Kept x) := by
  induction inputs generalizing s with
  | nil => exact .pure h
  | cons input inputs ih =>
    obtain ⟨s₁, heq, h₁⟩ := h.takeInput (hfits input List.mem_cons_self) fun seq hseq =>
      hdecodes seq (List.mem_append_left _ hseq)
    have hrest := ih h₁ (fun input hinput => hfits input (List.mem_cons_of_mem _ hinput)) fun seq hseq =>
      hdecodes seq (by
        rw [takeInput_scanner heq] at hseq
        exact List.mem_append_right _ hseq)
    unfold Screen.takeInputs at hrest ⊢
    rw [List.foldlM_cons, heq]
    exact hrest

theorem Kept.new {size : Size} (hheight : size.height ≤ 65535) (hwidth : size.width ≤ 65533) (scrollbackLen : ℕ) :
    (new x size scrollbackLen).Kept x := by
  have hwidth' : max size.width 1 ≤ 65533 := by omega
  exact ⟨max size.width 1, max size.height 1, by omega, hwidth', new_keeps rfl (by omega) rfl scrollbackLen⟩

end Screen

theorem Grid.Lawful.inBounds {charWidth : Char → Option ℕ} {g : Grid} {width n : ℕ} {hpos : 0 < width}
    {hle : width ≤ 65533} (h : g.Lawful (.sized charWidth width hpos hle) n) : g.InBounds := by
  have hwidth : g.size.width = width := h.width_eq
  have hmargins := h.margins
  refine ⟨?_, ?_, ?_, ?_, ?_, ?_, ?_, ?_, ?_⟩
  all_goals simp only [hwidth, h.height_eq]
  · exact h.height_pos
  · exact hpos
  · exact h.rows
  · exact fun row hrow => (h.cells row hrow).length
  · exact h.tabs
  · exact h.row
  · exact h.col
  · exact ⟨h.top, h.bottom⟩
  · exact hmargins

namespace Screen

variable {I : Type}

/-- No output and no size crashes the emulator, if no image in it does: in every order of chunks and sizes each is taken,
and then everything is in bounds on both screens. -/
theorem unfailing (x : Externs I) {size : Size} (hheight : size.height ≤ 65535) (hwidth : size.width ≤ 65533)
    (scrollbackLen : ℕ) {inputs : List Input} (hfits : ∀ input ∈ inputs, input.Fits)
    (hdecodes : ∀ seq ∈ ((Scanner.new .output).feed (inputs.flatMap Input.data)).2, Decodes x seq) :
    ∃ s, (new x size scrollbackLen).takeInputs x inputs = some s ∧ s.grid.InBounds ∧ s.altGrid.InBounds ∧
      s.altGrid.size = s.grid.size := by
  have hnew : (new x size scrollbackLen).Kept x := .new hheight hwidth scrollbackLen
  have hkept : Gives ((new x size scrollbackLen).takeInputs x inputs) (Kept x) :=
    hnew.takeInputs hfits (forall_feeds (fun _ => trivial) (List.flatMap_def ▸ hdecodes))
  obtain ⟨s, htaken, width, height, hpos, hle, hs⟩ := hkept
  refine ⟨s, htaken, hs.grid.inBounds, hs.altGrid.inBounds, ?_⟩
  have hh := hs.altGrid.height_eq.trans hs.grid.height_eq.symm
  have hw := hs.altGrid.width_eq.trans hs.grid.width_eq.symm
  exact congrArg₂ Size.mk hh hw

/-- Widths of 2 for one character and of 1 for the others, and no images. -/
def plainExterns : Externs Unit where
  charWidth := fun c => if c = '測' then some 2 else some 1
  fresh := ()
  graphics := fun _ _ _ _ => none
  sixel := fun _ _ _ => none
  settle := fun images _ _ => images

/-- Two wide characters on a screen of one cell, then on one of four columns side margins and columns inserted. -/
def hardInputs : List Input :=
  [.resize 0 0, .output [0xE6, 0xB8, 0xAC, 0xE6, 0xB8, 0xAC, 0x0A], .resize 3 4,
    .output [0x1B, 0x5B, 0x3F, 0x36, 0x39, 0x68, 0x1B, 0x5B, 0x32, 0x3B, 0x33, 0x73, 0x1B, 0x5B, 0x32, 0x27, 0x7D]]

theorem textRun_hard (rest : List UInt8) : Vt.textRun ([0xE6, 0xB8, 0xAC, 0xE6, 0xB8, 0xAC, 0x0A] ++ rest) =
    ([0xE6, 0xB8, 0xAC, 0xE6, 0xB8, 0xAC], 0x0A :: rest) := by
  have hwide (input : List UInt8) : Vt.textRun ([0xE6, 0xB8, 0xAC] ++ input) =
      ([0xE6, 0xB8, 0xAC] ++ (Vt.textRun input).1, (Vt.textRun input).2) := by
    change Vt.textRun (0xE6 :: 0xB8 :: 0xAC :: input) = _
    rw [Vt.textRun, if_neg (by decide), if_pos (by decide)]
    dsimp only
    rw [if_neg (by simp [utf8Need]), if_neg (by simp [utf8Need]; decide)]
    rfl
  have hfeed : Vt.textRun (0x0A :: rest) = ([], 0x0A :: rest) := by
    rw [Vt.textRun, if_neg (by decide), if_neg (by decide)]
  change Vt.textRun ([0xE6, 0xB8, 0xAC] ++ ([0xE6, 0xB8, 0xAC] ++ 0x0A :: rest)) = _
  rw [hwide, hwide, hfeed]
  rfl

theorem feed_hard : ((Scanner.new .output).feed (hardInputs.flatMap Input.data)).2 =
    [.text [0xE6, 0xB8, 0xAC, 0xE6, 0xB8, 0xAC], .ctl 0x0A,
      .csi { Params.reset with prefixByte := 0x3F, values := [⟨69, true, false⟩], final := 0x68 },
      .csi { Params.reset with values := [⟨2, true, false⟩, ⟨3, true, false⟩], final := 0x73 },
      .csi { Params.reset with inter := 0x27, values := [⟨2, true, false⟩], final := 0x7D }] := by
  have hdata : hardInputs.flatMap Input.data = 0xE6 :: ([0xB8, 0xAC, 0xE6, 0xB8, 0xAC, 0x0A] ++
      [0x1B, 0x5B, 0x3F, 0x36, 0x39, 0x68, 0x1B, 0x5B, 0x32, 0x3B, 0x33, 0x73, 0x1B, 0x5B, 0x32, 0x27, 0x7D]) := rfl
  have hturn (rest : List UInt8) : (Scanner.new .output).turn 0xE6 ([0xB8, 0xAC, 0xE6, 0xB8, 0xAC, 0x0A] ++ rest) =
      (Scanner.new .output, [.text [0xE6, 0xB8, 0xAC, 0xE6, 0xB8, 0xAC]], 0x0A :: rest) := by
    have hrun := textRun_hard rest
    simp only [List.cons_append, List.nil_append] at hrun
    simp [Scanner.turn, Scanner.new, Scanner.groundTurn, hrun]
  rw [hdata, Scanner.feed_cons, hturn]
  simp [Scanner.feed_cons, Scanner.feed_nil, Scanner.turn, Scanner.new, Scanner.emit, Scanner.groundTurn, Scanner.taking,
    Scanner.escTurn, Scanner.csiTurn, isPrint]
  decide

theorem unfailing_hard : ∃ s, (new plainExterns ⟨24, 80⟩ 100).takeInputs plainExterns hardInputs = some s ∧
    s.grid.InBounds ∧ s.altGrid.InBounds ∧ s.altGrid.size = s.grid.size := by
  refine unfailing plainExterns (by decide) (by decide) 100 (fun input hinput => ?_) fun seq hseq => ?_
  · simp only [hardInputs, List.mem_cons, List.not_mem_nil, or_false] at hinput
    rcases hinput with rfl | rfl | rfl | rfl
    · exact ⟨Nat.zero_le _, Nat.zero_le _⟩
    · trivial
    · exact ⟨by decide, by decide⟩
    · trivial
  · rw [feed_hard] at hseq
    simp only [List.mem_cons, List.not_mem_nil, or_false] at hseq
    rcases hseq with rfl | rfl | rfl | rfl | rfl
    all_goals trivial

end Screen

end Term

end Dekit
