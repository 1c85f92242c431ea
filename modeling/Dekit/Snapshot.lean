import Dekit.CopyMode
import Dekit.Term.Unfailing

/-! `task_screen.rs`: the screen that a copy session freezes. -/

namespace Dekit

namespace Term

open Slice Total

namespace Grid

variable {charWidth : Char → Option ℕ} {g : Grid}

theorem refreshView_fresh : (g.refreshView charWidth).viewStale = false := by
  unfold refreshView
  split <;> rfl

theorem settleView_fresh : (g.settleView charWidth).viewStale = false := by
  unfold settleView
  split
  · exact refreshView_fresh
  next hfresh => exact Bool.eq_false_of_not_eq_true hfresh

theorem setSize_fresh (h : g.viewStale = false) (size : Size) :
    Only (g.setSize charWidth size) fun g' => g'.viewStale = false := by
  unfold setSize
  dsimp only
  split
  · exact .pure h
  · exact .after fun _ => .after fun _ => .after fun _ => .after fun _ => .pure refreshView_fresh

theorem Lawful.settled {L : RowLaw charWidth} {n : ℕ} (h : g.Lawful L n) (hfresh : g.viewStale = false) :
    CopyMode.Settled charWidth g := by
  have hwidth := L.width_le
  refine ⟨⟨?_, ?_, ?_⟩, ?_, fun row hrow => ?_, fun row hrow cell hcell i w htext => ?_, h.past.counted, h.past.inside,
    h.past.view hfresh⟩
  · rw [h.height_eq]
    exact h.height_pos
  · rw [h.height_eq]
    exact h.height_le
  · rw [h.width_eq]
    omega
  · exact h.rows.trans h.height_eq.symm
  · rw [(h.cells row hrow).length]
    omega
  · have hknown := (h.cells row hrow).known cell hcell
    rwa [htext] at hknown

end Grid

namespace Screen

variable {I : Type} {x : Externs I} {s s' : Screen I}

/-- Back to the initial state at the current size, with a history of so many lines from now on. -/
def resetWith (x : Externs I) (s : Screen I) (scrollbackLen : ℕ) : Screen I :=
  { new x s.grid.size scrollbackLen with
    cellPixels := s.cellPixels
    lineTap := s.lineTap
    replies := s.replies
    finishedLines := s.finishedLines }

def setScrollback (x : Externs I) (s : Screen I) (rows : ℕ) : Screen I :=
  s.putGrid (s.activeGrid.setScrollback x.charWidth rows)

def setCellPixels (s : Screen I) (width height : ℕ) : Screen I :=
  if 0 < width ∧ 0 < height ∧ s.cellPixels ≠ (width, height) then
    let s := { s with cellPixels := (width, height) }
    if s.modes.inbandResize then s.reportSizeInband else s
  else s

def setLineTap (s : Screen I) (on : Bool) : Screen I :=
  { s with lineTap := on, finishedLines := if on then s.finishedLines else [] }

/-- What the owner of a screen sets on it, and what it takes from it. -/
inductive Setting where
  | cellPixels (width height : ℕ)
  | lineTap (on : Bool)
  | takeEvents
  | takeFinishedLines
  | endSyncUpdate

def configure (s : Screen I) : Setting → Screen I
  | .cellPixels width height => s.setCellPixels width height
  | .lineTap on => s.setLineTap on
  | .takeEvents => { s with replies := [] }
  | .takeFinishedLines => { s with finishedLines := [] }
  | .endSyncUpdate => { s with modes := { s.modes with sync := false } }

/-- The screen of a task: output and sizes come to it, its view is scrolled, its owner has its settings, and it is reset
for a new program. -/
inductive Live (x : Externs I) : Screen I → Prop
  | new {size : Size} (scrollbackLen : ℕ) : size.height ≤ 65535 → size.width ≤ 65533 → Live x (new x size scrollbackLen)
  | input {s s' : Screen I} {input : Input} : Live x s → input.Fits → s.takeInput x input = some s' → Live x s'
  | scroll {s : Screen I} (rows : ℕ) : Live x s → Live x (s.setScrollback x rows)
  | setting {s : Screen I} (setting : Setting) : Live x s → Live x (s.configure setting)
  | reset {s : Screen I} (scrollbackLen : ℕ) : Live x s → Live x (s.resetWith x scrollbackLen)

def Fresh (s : Screen I) : Prop := s.grid.viewStale = false ∧ s.altGrid.viewStale = false

theorem process_fresh (data : List UInt8) : Only (s.process x data) Fresh :=
  .after fun _ => .pure ⟨Grid.settleView_fresh, Grid.settleView_fresh⟩

theorem Fresh.setSize (h : s.Fresh) (rows cols : ℕ) : Only (s.setSize x rows cols) Fresh := by
  unfold Screen.setSize
  dsimp only
  split
  · exact .pure h
  · refine (Grid.setSize_fresh h.1 _).bind fun grid hgrid => (Grid.setSize_fresh h.2 _).bind fun altGrid haltGrid => ?_
    split
    · exact .pure ⟨hgrid, haltGrid⟩
    · exact .pure ⟨hgrid, haltGrid⟩

theorem Fresh.takeInput (h : s.Fresh) (input : Input) : Only (s.takeInput x input) Fresh := by
  cases input with
  | output data => exact process_fresh data
  | resize rows cols => exact h.setSize rows cols

theorem Fresh.putGrid (h : s.Fresh) {g : Grid} (hg : g.viewStale = false) : (s.putGrid g).Fresh := by
  unfold Screen.putGrid
  split
  · exact ⟨h.1, hg⟩
  · exact ⟨hg, h.2⟩

theorem Kept.taken (h : s.Kept x) {input : Input} (hfits : input.Fits) : Only (s.takeInput x input) (Kept x) := by
  cases input with
  | output data =>
    obtain ⟨width, height, hpos, hle, hs⟩ := h
    intro s' hs'
    exact ⟨width, height, hpos, hle, hs.process data (fun _ _ _ _ _ hlt hright => .inl ⟨hlt, hright⟩) s' hs'⟩
  | resize rows cols => exact (h.resize hfits.1 hfits.2).only

theorem Kept.setScrollback (h : s.Kept x) (rows : ℕ) : (s.setScrollback x rows).Kept x := by
  obtain ⟨width, height, hpos, hle, hs⟩ := h
  exact ⟨width, height, hpos, hle, hs.putGrid (hs.active.here.setScrollback rows).toLawful⟩

theorem Kept.configure (h : s.Kept x) (setting : Setting) : (s.configure setting).Kept x := by
  obtain ⟨width, height, hpos, hle, hs⟩ := h
  refine ⟨width, height, hpos, hle, ?_⟩
  cases setting with
  | cellPixels w h =>
    show (s.setCellPixels w h).Lawful _ height
    unfold setCellPixels
    dsimp only
    split
    · split
      · exact { hs with }
      · exact { hs with }
    · exact hs
  | lineTap on => exact { hs with }
  | takeEvents => exact { hs with }
  | takeFinishedLines => exact { hs with }
  | endSyncUpdate => exact { hs with }

theorem Fresh.configure (h : s.Fresh) (setting : Setting) : (s.configure setting).Fresh := by
  cases setting with
  | cellPixels w h' =>
    show (s.setCellPixels w h').Fresh
    unfold setCellPixels
    dsimp only
    split
    · split
      · exact h
      · exact h
    · exact h
  | _ => exact h

theorem Kept.resetWith (h : s.Kept x) (scrollbackLen : ℕ) : (s.resetWith x scrollbackLen).Kept x := by
  obtain ⟨width, height, hpos, hle, hs⟩ := h
  have hheight : s.grid.size.height ≤ 65535 := by
    rw [hs.grid.height_eq]
    exact hs.grid.height_le
  have hwidth : s.grid.size.width ≤ 65533 := by
    rw [hs.grid.width_eq]
    exact hle
  obtain ⟨width, height, hpos, hle, hnew⟩ : (Screen.new x s.grid.size scrollbackLen).Kept x := .new hheight hwidth _
  exact ⟨width, height, hpos, hle, { hnew with }⟩

theorem Live.kept (h : Live x s) : s.Kept x ∧ s.Fresh := by
  induction h with
  | new scrollbackLen hheight hwidth => exact ⟨.new hheight hwidth scrollbackLen, rfl, rfl⟩
  | input _ hfits htaken ih => exact ⟨ih.1.taken hfits _ htaken, ih.2.takeInput _ _ htaken⟩
  | scroll rows _ ih => exact ⟨ih.1.setScrollback rows, ih.2.putGrid Grid.refreshView_fresh⟩
  | setting setting _ ih => exact ⟨ih.1.configure setting, ih.2.configure setting⟩
  | reset scrollbackLen _ ih => exact ⟨ih.1.resetWith scrollbackLen, rfl, rfl⟩

/-- The active screen, with the styles of the selection and of the badge. -/
def frozen (s : Screen I) : Grid :=
  let snapshot := s.activeGrid
  let (_, snapshot) := snapshot.internStyle { Style.default with fg := .idx 0, bg := .idx 6 }
  let (_, snapshot) := snapshot.internStyle { Style.default with fg := .idx 0, bg := .idx 11 }
  snapshot

/-- What a copy session freezes is settled, whatever came to the screen before. -/
theorem Live.settled (h : Live x s) : CopyMode.Settled x.charWidth s.frozen := by
  obtain ⟨⟨width, height, hpos, hle, hs⟩, hfresh⟩ := h.kept
  have hlaw : s.frozen.Lawful (.sized x.charWidth width hpos hle) height :=
    ((hs.active.here.internStyle _).internStyle _).toLawful
  refine hlaw.settled ?_
  show s.activeGrid.viewStale = false
  unfold activeGrid
  split
  · exact hfresh.2
  · exact hfresh.1

end Screen

end Term

end Dekit
