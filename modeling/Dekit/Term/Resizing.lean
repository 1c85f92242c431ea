import Dekit.Term.Lawful
import Dekit.Term.Reflow

namespace Dekit

namespace Term

open Slice Total

/-- The lines done and the one in the making refer to clusters in a table of so many. -/
structure Flat.Known (m : ℕ) (s : Flat) : Prop where
  lines : ∀ line ∈ s.lines, Term.Known m line
  current : Term.Known m s.current

/-- The rows so far are of a width and refer to what is in the tables, and the history is counted. -/
structure Back.Sealed (charWidth : Char → Option ℕ) (width : ℕ) (s : Back) : Prop where
  rows : Wide width s.tables.graphemes.length s.rows
  counted : s.history.Counted charWidth

namespace Grid

section flattening

theorem length_rowStarts (g : Grid) (usedRows : ℕ) (current : List Cell) :
    (g.flatten usedRows current).rowStarts.length = (g.rows.take usedRows).length := by
  have hfold : ∀ (ps : List (Row × ℕ)) (s : Flat), (ps.foldl (g.flattenRow usedRows) s).rowStarts.length =
      s.rowStarts.length + ps.length := fun ps => by
    induction ps with
    | nil => exact fun s => rfl
    | cons p ps ih =>
      intro s
      have hrow : (g.flattenRow usedRows s p).rowStarts.length = s.rowStarts.length + 1 := by
        unfold flattenRow
        dsimp only
        split <;> exact List.length_append
      rw [List.foldl_cons, ih, hrow, List.length_cons]
      omega
  unfold flatten
  dsimp only
  split <;> rw [hfold, List.length_zipIdx, List.length_nil, Nat.zero_add]

theorem known_pullCells {m : ℕ} (remaining : ℕ) {rows : List Row} (h : ∀ row ∈ rows, Known m row.cells) :
    Known m (pullCells remaining rows) := by
  induction rows generalizing remaining with
  | nil => exact fun _ hc => by cases hc
  | cons row rows ih =>
    refine Known.append ?_ (ih _ fun row hrow => h row (List.mem_cons_of_mem _ hrow))
    exact (h row List.mem_cons_self).subset
      (List.Subset.trans (List.take_subset _ _) (List.filter_subset_self _))

theorem flattenRow_known {m : ℕ} (g : Grid) (usedRows : ℕ) {s : Flat} (hs : s.Known m) {p : Row × ℕ}
    (hp : Term.Known m p.1.cells) : (g.flattenRow usedRows s p).Known m := by
  have hcurrent (len : ℕ) : Term.Known m (s.current ++ (p.1.cells.take len).filter fun c => !c.text.isFiller) :=
    hs.current.append (hp.subset (List.Subset.trans (List.filter_subset_self _) (List.take_subset _ _)))
  unfold flattenRow
  dsimp only
  split
  · exact ⟨hs.lines, hcurrent _⟩
  · refine ⟨fun line hline => ?_, fun _ hc => by cases hc⟩
    rcases List.mem_append.mp hline with hline | hline
    · exact hs.lines line hline
    · rw [List.mem_singleton.mp hline]
      exact hcurrent _

theorem flatten_known {g : Grid} (hrows : ∀ row ∈ g.rows, Term.Known g.tables.graphemes.length row.cells) (usedRows : ℕ)
    {current : List Cell} (h : Term.Known g.tables.graphemes.length current) :
    ∀ line ∈ (g.flatten usedRows current).lines, Term.Known g.tables.graphemes.length line := by
  have hfold : ((g.rows.take usedRows).zipIdx.foldl (g.flattenRow usedRows) ⟨[], current, []⟩).Known g.tables.graphemes.length := by
    refine List.foldlRecOn (motive := fun s : Flat => s.Known _) _ _ ⟨(fun _ hl => by cases hl), h⟩ fun s hs p hp => ?_
    have hmem := (List.mem_zipIdx hp).2.2
    refine flattenRow_known g usedRows hs (hrows p.1 ?_)
    rw [hmem]
    exact List.mem_of_mem_take (List.getElem_mem _)
  unfold flatten
  dsimp only
  split
  · exact hfold.lines
  · intro line hline
    rcases List.mem_append.mp hline with hline | hline
    · exact hfold.lines line hline
    · rw [List.mem_singleton.mp hline]
      exact hfold.current

end flattening

section wrapping

variable {width m : ℕ} {wanted : List (ℕ × ℕ)} {found : Found} {k : ℕ}

def Slots (wanted : List (ℕ × ℕ)) (k : ℕ) : Prop := ∀ w ∈ wanted, w.2 < k

theorem note_gives (hwanted : Slots wanted k) (hfound : found.length = k) (offset : ℕ) (at' : ℕ × ℕ) :
    Gives (note wanted offset at' found) fun found' => found'.length = k := by
  refine gives_foldlM (fun found hf w hw => ?_) hfound
  split
  · exact (gives_setAt (by rw [hf]; exact hwanted w hw) _).mono fun found' h => by rw [h, List.length_set, hf]
  · exact .pure hf

theorem wrapCells_gives (hwanted : Slots wanted k) (firstRow : ℕ) (cells : List Cell) (i : ℕ) (done : List (List Cell))
    (row : List Cell) (hfound : found.length = k) :
    Gives (wrapCells width firstRow wanted cells i done row found) fun p => p.1 ≠ [] ∧ p.2.length = k := by
  fun_induction wrapCells width firstRow wanted cells i done row found with
  | case1 i done row found => exact .pure ⟨by simp, hfound⟩
  | case2 cell cells i done row found full done' row' ih₁ ih₂ =>
    refine (note_gives hwanted hfound _ _).bind fun found' hf => ?_
    dsimp only
    split
    · cases cells with
      | nil => exact ih₁ found' hf
      | cons half rest =>
        dsimp only
        split
        · exact (note_gives hwanted hf _ _).bind fun found'' hf' => (ih₁ found').1 found'' hf'
        · exact (ih₁ found').2 hf
    · exact ih₂ found' hf

theorem wrapCells_known (firstRow : ℕ) (cells : List Cell) (i : ℕ) (done : List (List Cell)) (row : List Cell)
    (hcells : Known m cells) (hdone : ∀ line ∈ done, Known m line) (hrow : Known m row) :
    Only (wrapCells width firstRow wanted cells i done row found) fun p => ∀ line ∈ p.1, Known m line := by
  fun_induction wrapCells width firstRow wanted cells i done row found with
  | case1 i done row found =>
    refine .pure fun line hline => ?_
    rcases List.mem_append.mp hline with hline | hline
    · exact hdone line hline
    · rw [List.mem_singleton.mp hline]
      exact hrow
  | case2 cell cells i done row found full done' row' ih₁ ih₂ =>
    have hcell : cell.text.Known m := hcells cell List.mem_cons_self
    have hrest : Known m cells := hcells.subset (List.subset_cons_self _ _)
    have hpadded : Known m (padded width row) := hrow.append (known_replicate (by trivial) _)
    have hdone' : ∀ line ∈ done', Known m line := by
      intro line hline
      simp only [done'] at hline
      split at hline
      · rcases List.mem_append.mp hline with hline | hline
        · exact hdone line hline
        · rw [List.mem_singleton.mp hline]
          exact hpadded
      · exact hdone line hline
    have hrow' : Known m (row' ++ [cell]) := by
      refine Known.append ?_ fun c hc => ?_
      · simp only [row']
        split
        · exact fun _ hc => by cases hc
        · exact hrow
      · rw [List.mem_singleton.mp hc]
        exact hcell
    have hhalf (half : Cell) (h : half.text.Known m) : Known m (row' ++ [cell] ++ [half]) :=
      hrow'.append fun c hc => by rwa [List.mem_singleton.mp hc]
    refine .after fun found' => ?_
    dsimp only
    split
    · cases cells with
      | nil => exact ih₁ found' hrest hdone' (hhalf _ trivial)
      | cons half rest =>
        dsimp only
        split
        · refine .after fun found'' => ?_
          exact (ih₁ found').1 found'' (hrest.subset (List.subset_cons_self _ _)) hdone'
            (hhalf half (hrest half List.mem_cons_self))
        · exact (ih₁ found').2 hrest hdone' (hhalf _ trivial)
    · exact ih₂ found' hrest hdone' hrow'

theorem pastEnd_gives (hwanted : Slots wanted k) (lastRow rowLen count cursorSlot : ℕ) {s : ℕ × Found}
    (hs : s.2.length = k) {w : ℕ × ℕ} (hw : w ∈ wanted) :
    Gives (pastEnd width lastRow rowLen count cursorSlot s w) fun s' => s'.2.length = k := by
  have hslot : w.2 < s.2.length := by
    rw [hs]
    exact hwanted w hw
  have hset : ∀ (extra : ℕ) (at' : Option (ℕ × ℕ)), Gives (do
      let found ← setAt s.2 w.2 at'
      some (extra, found)) fun s' : ℕ × Found => s'.2.length = k := fun extra at' =>
    (gives_setAt hslot at').bind fun found' h => .pure (by rw [h, List.length_set, hs])
  unfold pastEnd
  refine (gives_getElem hslot).bind fun old _ => ?_
  dsimp only
  split
  · exact .pure hs
  · split
    · exact hset _ _
    · split
      · exact hset _ _
      · exact hset _ _

theorem rowsOf_wide (width : ℕ) {lines : List (List Cell)} (h : ∀ line ∈ lines, Known m line) :
    Wide width m (rowsOf width lines) := fun row hrow => by
  obtain ⟨p, hp, rfl⟩ := List.mem_map.mp hrow
  refine ⟨length_fromCells _ _, (h p.1 ?_).fromCells _⟩
  rw [(List.mem_zipIdx hp).2.2]
  exact List.getElem_mem _

theorem wrapLine_gives (hwanted : Slots wanted k) (cursorSlot : ℕ) {s : List Row × Found} (hrows : Wide width m s.1)
    (hs : s.2.length = k) {cells : List Cell} (hcells : Known m cells) :
    Gives (wrapLine width cursorSlot wanted s cells) fun s' => Wide width m s'.1 ∧ s'.2.length = k := by
  have hknown : Only (wrapCells width s.1.length wanted cells 0 [] [] s.2) fun p => ∀ line ∈ p.1, Known m line :=
    wrapCells_known _ cells 0 [] [] hcells (fun _ hl => by cases hl) fun _ hc => by cases hc
  refine ((wrapCells_gives hwanted _ cells 0 [] [] hs).and hknown).bind ?_
  rintro ⟨lines, found⟩ ⟨hp, hlines⟩
  dsimp only at hp hlines ⊢
  rw [List.getLast?_eq_some_getLast hp.1]
  refine Gives.bind (.of_eq rfl) fun lastLine _ => ?_
  refine Gives.bind (gives_foldlM (P := fun s : ℕ × Found => s.2.length = k)
    (fun s hs w hw => pastEnd_gives hwanted _ _ _ _ hs hw) hp.2) fun q hq => .pure ⟨?_, hq⟩
  refine hrows.append (rowsOf_wide _ fun line hline => ?_)
  rcases List.mem_append.mp hline with hline | hline
  · exact hlines line hline
  · rw [List.eq_of_mem_replicate hline]
    exact fun _ hc => by cases hc

theorem wantedOn_slots (anchors : List (ℕ × Anchor)) (cursorLine cursorOffset line : ℕ) :
    Slots (wantedOn anchors cursorLine cursorOffset line) (anchors.length + 1) := by
  intro w hw
  unfold wantedOn at hw
  rcases List.mem_append.mp hw with hw | hw
  · obtain ⟨⟨a, slot⟩, hmem, hsome⟩ := List.mem_filterMap.mp hw
    have hslot := (List.mem_zipIdx hmem).2.1
    dsimp only at hsome
    split at hsome
    · split at hsome
      · cases hsome
        dsimp only
        omega
      · cases hsome
    · cases hsome
  · split at hw
    · rw [List.mem_singleton.mp hw]
      exact Nat.lt_succ_self _
    · cases hw

theorem wrapLines_gives (width : ℕ) (anchors : List (ℕ × Anchor)) (cursorLine cursorOffset : ℕ)
    {lines : List (List Cell)} (hlines : ∀ line ∈ lines, Known m line) :
    Gives (wrapLines width anchors cursorLine cursorOffset lines) fun s =>
      Wide width m s.1 ∧ s.2.length = anchors.length + 1 := by
  refine gives_foldlM (P := fun s : List Row × Found => Wide width m s.1 ∧ s.2.length = anchors.length + 1)
    (fun s hs p hp => ?_) ⟨.nil, List.length_replicate⟩
  refine wrapLine_gives (wantedOn_slots _ _ _ _) _ hs.1 hs.2 (hlines p.1 ?_)
  rw [(List.mem_zipIdx hp).2.2]
  exact List.getElem_mem _

end wrapping

section back

variable (charWidth : Char → Option ℕ)

theorem counted_commits (t : Tables) (rows : List Row) {h : History} (hc : h.Counted charWidth) :
    (rows.foldl (fun h row => h.commit charWidth row t) h).Counted charWidth :=
  List.foldlRecOn (motive := fun h : History => h.Counted charWidth) _ _ hc fun _ hh row _ => hh.commit row t

theorem pullBack_sealed (height : ℕ) {width : ℕ} (hwidth : 0 < width)
    (fuel : ℕ) {s : Back} (h : s.Sealed charWidth width) :
    (pullBack charWidth height width fuel s).Sealed charWidth width := by
  have hmax : max width 1 = width := by omega
  induction fuel generalizing s with
  | zero => exact h
  | succ fuel ih =>
    unfold pullBack
    split
    · have hpopped := h.counted.popLast
      split
      · exact h
      next line history heq =>
        rw [heq] at hpopped
        obtain ⟨hline, hgrown⟩ := line.rows_wide charWidth width s.tables
        rw [hmax] at hline
        have hrows : ∀ keep, Wide width (line.rows charWidth width s.tables).2.graphemes.length
            ((line.rows charWidth width s.tables).1.drop keep ++ s.rows) := fun keep =>
          (hline.subset (List.drop_subset _ _)).append (h.rows.mono hgrown.length_le)
        dsimp only
        split
        · exact ⟨hrows _, counted_commits charWidth _ _ hpopped⟩
        · exact ih ⟨hrows _, counted_commits charWidth _ _ hpopped⟩
    · exact h

theorem revive_gives {width k : ℕ} (starts : List (ℕ × ℕ × ℕ × Line)) {s : List (ℕ × Anchor) × Found}
    {p : (ℕ × Anchor) × ℕ} (hp : p.2 < k) (hs : s.2.length = k) : Gives (revive charWidth width starts s p) fun s' =>
      s'.1.length = s.1.length + 1 ∧ s'.2.length = k := by
  unfold revive
  split
  · split
    · dsimp only
      split
      · exact .pure ⟨List.length_append, hs⟩
      · refine (gives_setAt (by rw [hs]; exact hp) _).bind fun found hfound => .pure ⟨List.length_append, ?_⟩
        rw [hfound, List.length_set, hs]
    · exact .pure ⟨List.length_append, hs⟩
  · exact .pure ⟨List.length_append, hs⟩

theorem reviveAll_gives (width : ℕ) (b : Back) (anchors : List (ℕ × Anchor)) {found : Found}
    (hfound : found.length = anchors.length + 1) : Gives (reviveAll charWidth width b anchors found) fun s =>
      s.1.length = anchors.length ∧ s.2.length = anchors.length + 1 := by
  have hfold : ∀ (ps : List ((ℕ × Anchor) × ℕ)), (∀ p ∈ ps, p.2 < anchors.length + 1) →
      ∀ s : List (ℕ × Anchor) × Found, s.2.length = anchors.length + 1 →
      Gives (ps.foldlM (revive charWidth width (backStarts 0 b.back.reverse)) s) fun s' =>
        s'.1.length = s.1.length + ps.length ∧ s'.2.length = anchors.length + 1 := fun ps => by
    induction ps with
    | nil => exact fun _ s hs => .pure ⟨rfl, hs⟩
    | cons p ps ih =>
      intro hps s hs
      rw [List.foldlM_cons]
      refine (revive_gives charWidth _ (hps p List.mem_cons_self) hs).bind fun s' hs' => ?_
      refine (ih (fun q hq => hps q (List.mem_cons_of_mem _ hq)) s' hs'.2).mono fun s'' h => ⟨?_, h.2⟩
      rw [h.1, hs'.1, List.length_cons]
      omega
  unfold reviveAll
  split
  · exact .pure ⟨rfl, hfound⟩
  · refine (hfold _ (fun p hp => ?_) ([], _) (by rw [List.length_map, hfound])).mono fun s h => ⟨?_, h.2⟩
    · have := (List.mem_zipIdx hp).2.1
      omega
    · rw [h.1, List.length_zipIdx, List.length_nil, Nat.zero_add]

end back

section resizing

variable (charWidth : Char → Option ℕ)

theorem length_defaultTabsLike (old : List Bool) (width : ℕ) : (defaultTabsLike old width).length = width := by
  unfold defaultTabsLike
  rw [List.length_map, List.length_range]

theorem settleRows_lawful (g : Grid) (size : Size) (hheight : 0 < size.height) (hheight' : size.height ≤ 65535)
    (hwidth : 0 < size.width) (hwidth' : size.width ≤ 65533) {rows : List Row}
    (hrows : Wide size.width g.tables.graphemes.length rows) (hcounted : g.history.Counted charWidth)
    (bottom : ℕ) (cursor : ℕ × ℕ) : (g.settleRows charWidth size rows bottom cursor).Lawful
      (.sized charWidth size.width hwidth hwidth') size.height := by
  have hkept : (rows.drop (rows.length - size.height)).length = min rows.length size.height := by
    rw [List.length_drop]
    omega
  unfold settleRows
  dsimp only
  refine (LawfulAt.refreshView (Lawful.here ⟨⟨?_, ?_, hheight, ?_, ?_, ?_, ?_, ?_, ?_, ?_, ?_⟩, ?_,
    ?_⟩)).toLawful
  · rfl
  · rfl
  · exact hheight'
  · change (_ ++ List.replicate _ _ : List Row).length = _
    rw [List.length_append, List.length_replicate, hkept]
    omega
  · intro row hrow
    rcases List.mem_append.mp hrow with hrow | hrow
    · obtain ⟨hlen, hknown⟩ := hrows row (List.mem_of_mem_drop hrow)
      exact ⟨hlen, hknown⟩
    · rw [List.eq_of_mem_replicate hrow]
      exact ⟨List.length_replicate, known_replicate (by trivial) _⟩
  · exact .staled ((counted_commits charWidth _ _ hcounted).setWidth _) (min_le_right _ _)
  · exact length_defaultTabsLike _ _
  · exact Nat.zero_le _
  · change size.height - 1 < size.height
    omega
  · exact .inr ⟨rfl, rfl⟩
  · change min _ (size.height - 1) < size.height
    omega
  · change min _ size.width ≤ max size.width 2
    omega

/-- A grid resized is lawful at its new size, whatever it holds. -/
theorem Lawful.setSize {g : Grid} {width n width' n' : ℕ} {hpos : 0 < width} {hle : width ≤ 65533}
    (h : g.Lawful (.sized charWidth width hpos hle) n) {size : Size} (hheight : max size.height 1 = n')
    (hn : n' ≤ 65535) (hwidth : max size.width 1 = width') (hpos' : 0 < width') (hle' : width' ≤ 65533) :
    Gives (g.setSize charWidth size) (Lawful (.sized charWidth width' hpos' hle') n') := by
  have hn' : 0 < n' := by omega
  unfold Grid.setSize
  dsimp only
  rw [hheight, hwidth]
  split
  next heq =>
    have hh : n' = n := (congrArg Size.height heq).trans h.height_eq
    have hw : width' = width := (congrArg Size.width heq).trans h.width_eq
    subst hh hw
    exact .pure h
  next hne =>
    have hrow : g.pos.row < (g.rows.take g.usedRows).length := by
      have := h.row
      have := h.rows
      unfold usedRows
      rw [List.length_take]
      omega
    have hpopped := h.past.counted.popOpen
    generalize g.history.popOpen charWidth = popped at hpopped ⊢
    obtain ⟨pulled, history⟩ := popped
    refine Gives.bind (gives_getElem ?_) fun at' _ => ?_
    · rw [length_rowStarts]
      exact hrow
    · refine Gives.bind (wrapLines_gives _ _ _ _ (flatten_known ?_ _ ?_)) fun wrapped hwrapped => ?_
      · intro row hrow
        cases pulled with
        | none => exact (h.cells row hrow).known
        | some line => exact (h.cells row hrow).known.mono (line.rows_wide charWidth _ _).2.length_le
      · cases pulled with
        | none => exact fun _ hc => by cases hc
        | some line => exact known_pullCells _ fun row hrow => ((line.rows_wide charWidth _ _).1 row hrow).2
      · refine Gives.bind (reviveAll_gives charWidth _ _ _ hwrapped.2) fun revived hrevived => ?_
        refine Gives.bind (gives_getElem ?_) fun cursor _ => .pure ?_
        · rw [hrevived.1, hrevived.2]
          exact Nat.lt_succ_self _
        · have hback := pullBack_sealed charWidth n' hpos' history.lines.length (s := ⟨_, _, _, 0, []⟩)
            ⟨hwrapped.1, hpopped⟩
          exact settleRows_lawful charWidth _ ⟨n', width'⟩ hn' hn hpos' hle' hback.rows hback.counted _ _

end resizing

end Grid

end Term

end Dekit
