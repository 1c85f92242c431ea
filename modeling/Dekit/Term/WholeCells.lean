import Dekit.Term.Halves
import Dekit.Term.Unfailing

namespace Dekit

namespace Term

open Vt Total

namespace Screen

variable {I : Type} {x : Externs I} {s : Screen I} {L : RowLaw x.charWidth} {n : ℕ}

variable (x) in
def processAll (s : Screen I) (chunks : List (List UInt8)) : Option (Screen I) := chunks.foldlM (process x) s

theorem Lawful.processAll (h : s.Lawful L n) {chunks : List (List UInt8)}
    (hfree : ∀ seq ∈ (s.scanner.feeds chunks).2, EnablesMargins seq → L.Free) :
    Only (s.processAll x chunks) (Lawful L n) := by
  induction chunks generalizing s with
  | nil => exact .pure h
  | cons chunk chunks ih =>
    intro s' hs'
    unfold Screen.processAll at hs'
    rw [List.foldlM_cons] at hs'
    obtain ⟨s₁, heq, hs'⟩ := Option.bind_eq_some_iff.mp hs'
    have h₁ := h.process chunk (fun seq hseq => hfree seq (List.mem_append_left _ hseq)) s₁ heq
    refine ih h₁ (fun seq hseq => hfree seq ?_) s' hs'
    rw [process_scanner heq] at hseq
    exact List.mem_append_right _ hseq

theorem processAll_whole {size : Size} (hheight : size.height ≤ 65535) (htwo : 2 ≤ size.width)
    (hwidth : size.width ≤ 65533) (scrollbackLen : ℕ) {chunks : List (List UInt8)}
    (hoff : ∀ seq ∈ ((Scanner.new .output).feed chunks.flatten).2, ¬EnablesMargins seq) :
    Only ((new x size scrollbackLen).processAll x chunks)
      (Lawful (.whole x.charWidth size.width htwo hwidth) (max size.height 1)) := by
  have hwidth' : max size.width 1 = size.width := by omega
  have hheight' : max size.height 1 ≤ 65535 := by omega
  have hnew : (new x size scrollbackLen).Lawful (.whole x.charWidth size.width htwo hwidth) (max size.height 1) :=
    new_keeps rfl hheight' hwidth' scrollbackLen
  exact hnew.processAll fun seq hseq henables => absurd henables (forall_feeds (fun _ => id) hoff seq hseq)

theorem processAll_gives {size : Size} (hheight : size.height ≤ 65535) (hwidth : size.width ≤ 65533) (scrollbackLen : ℕ)
    {chunks : List (List UInt8)} (hdecodes : ∀ seq ∈ ((Scanner.new .output).feed chunks.flatten).2, Decodes x seq) :
    Gives ((new x size scrollbackLen).processAll x chunks) (Kept x) := by
  have hnew : (new x size scrollbackLen).Kept x := .new hheight hwidth scrollbackLen
  have hdata : (chunks.map Input.output).map Input.data = chunks := by
    rw [List.map_map]
    exact List.map_id chunks
  have hfits : ∀ input ∈ chunks.map Input.output, input.Fits := by
    intro input hinput
    obtain ⟨chunk, -, rfl⟩ := List.mem_map.mp hinput
    trivial
  have htakes := hnew.takeInputs hfits (hdata.symm ▸ forall_feeds (fun _ => trivial) hdecodes)
  unfold Screen.takeInputs at htakes
  rwa [List.foldlM_map] at htakes

/-- Output that never turns the mode for side margins on tears no wide cell: on both screens every wide cell has its right
half next to it, and every right half its wide cell. -/
theorem whole_cells (x : Externs I) {size : Size} (hheight : size.height ≤ 65535) (htwo : 2 ≤ size.width)
    (hwidth : size.width ≤ 65533) (scrollbackLen : ℕ) {chunks : List (List UInt8)}
    (hoff : ∀ seq ∈ ((Scanner.new .output).feed chunks.flatten).2, ¬EnablesMargins seq) :
    (∀ s, (new x size scrollbackLen).processAll x chunks = some s →
      (∀ row ∈ s.grid.rows, Coupled row.cells) ∧ ∀ row ∈ s.altGrid.rows, Coupled row.cells) ∧
    ((∀ seq ∈ ((Scanner.new .output).feed chunks.flatten).2, Decodes x seq) →
      ∃ s, (new x size scrollbackLen).processAll x chunks = some s) := by
  refine ⟨fun s hs => ?_, fun hdecodes => ?_⟩
  · have hlaw := processAll_whole (x := x) hheight htwo hwidth scrollbackLen hoff s hs
    exact ⟨fun row hrow => (hlaw.grid.cells row hrow).law.2, fun row hrow => (hlaw.altGrid.cells row hrow).law.2⟩
  · obtain ⟨s, hs, -⟩ := processAll_gives hheight hwidth scrollbackLen hdecodes
    exact ⟨s, hs⟩

def tearingChunks : List (List UInt8) := [[0xE6, 0xB8, 0xAC, 0x1B], [0x5B, 0x44, 0x41]]

theorem textRun_tearing : Vt.textRun [0xE6, 0xB8, 0xAC, 0x1B, 0x5B, 0x44, 0x41] =
    ([0xE6, 0xB8, 0xAC], [0x1B, 0x5B, 0x44, 0x41]) := by
  rw [Vt.textRun, if_neg (by decide), if_pos (by decide)]
  dsimp only
  rw [if_neg (by decide), if_neg (by decide)]
  change (_ ++ (Vt.textRun [0x1B, 0x5B, 0x44, 0x41]).1, (Vt.textRun [0x1B, 0x5B, 0x44, 0x41]).2) = _
  rw [Vt.textRun]
  rfl

theorem feed_tearing : ((Scanner.new .output).feed tearingChunks.flatten).2 =
    [.text [0xE6, 0xB8, 0xAC], .csi { Params.reset with final := 0x44 }, .text [0x41]] := by
  have hturn : (Scanner.new .output).turn 0xE6 [0xB8, 0xAC, 0x1B, 0x5B, 0x44, 0x41] =
      (Scanner.new .output, [.text [0xE6, 0xB8, 0xAC]], [0x1B, 0x5B, 0x44, 0x41]) := by
    simp [Scanner.turn, Scanner.new, Scanner.groundTurn, textRun_tearing]
  have hfeed : (Scanner.new .output).feed tearingChunks.flatten =
      Scanner.emit [.text [0xE6, 0xB8, 0xAC]] ((Scanner.new .output).feed [0x1B, 0x5B, 0x44, 0x41]) :=
    (Scanner.feed_cons _ _ _).trans (congrArg (fun t => Scanner.emit t.2.1 (t.1.feed t.2.2)) hturn)
  rw [hfeed]
  simp [Scanner.feed_cons, Scanner.feed_nil, Scanner.turn, Scanner.new, Scanner.emit, Scanner.groundTurn, Scanner.taking,
    Scanner.escTurn, Scanner.csiTurn, Vt.textRun, isPrint]

theorem whole_cells_torn : ∃ s, (new plainExterns ⟨2, 4⟩ 10).processAll plainExterns tearingChunks = some s ∧
    (∀ row ∈ s.grid.rows, Coupled row.cells) ∧ ∀ row ∈ s.altGrid.rows, Coupled row.cells := by
  have hseqs {P : Seq → Prop} (htext : ∀ t, P (.text t)) (hcsi : P (.csi { Params.reset with final := 0x44 })) :
      ∀ seq ∈ ((Scanner.new .output).feed tearingChunks.flatten).2, P seq := by
    intro seq hseq
    rw [feed_tearing] at hseq
    simp only [List.mem_cons, List.not_mem_nil, or_false] at hseq
    rcases hseq with rfl | rfl | rfl
    · exact htext _
    · exact hcsi
    · exact htext _
  have hoff := hseqs (P := fun seq => ¬EnablesMargins seq) (fun _ => id) fun h => absurd h.2.1 (by decide)
  have htwo : 2 ≤ (⟨2, 4⟩ : Size).width := by decide
  obtain ⟨hcoupled, hgives⟩ := whole_cells plainExterns (by decide) htwo (by decide) 10 hoff
  obtain ⟨s, hs⟩ := hgives (hseqs (fun _ => trivial) trivial)
  exact ⟨s, hs, hcoupled s hs⟩

end Screen

end Term

end Dekit
