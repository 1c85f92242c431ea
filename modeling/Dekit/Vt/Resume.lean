import Dekit.Vt.Chunks
import Dekit.Vt.Rebuild

namespace Dekit

namespace Vt

namespace Scanner

variable {s s' : Scanner} {b : UInt8} {input rest : List UInt8} {mode : ScanMode}

theorem csiTurn_scan (hb : 0x20 ≤ b ∧ b ≤ 0x3F) (s : Scanner) :
    s.csiTurn b = ({ s with params := s.params.scan b }, []) := by
  unfold csiTurn Params.scan
  split
  · rfl
  split
  · rfl
  split
  · rfl
  split
  · rfl
  · rename_i h₁ h₂ h₃ h₄
    have hinter : 0x20 ≤ b ∧ b ≤ 0x2F := by grind
    rw [if_pos hinter]

theorem feed_then {items : List Seq} (h : s.turn b rest = (s', items, rest)) :
    s.feed (b :: rest) = emit items (s'.feed rest) := by
  rw [feed_cons, h]

theorem feed_one {items : List Seq} (h : s.turn b [] = (s', items, [])) : s.feed [b] = (s', items) := by
  rw [feed_cons, h, feed_nil]
  simp only [emit, List.append_nil]

theorem feed_taking {r : Scanner × List Seq} (h : s.turn b [] = taking r []) : s.feed [b] = r := by
  rw [feed_cons, h]
  unfold taking
  rw [feed_nil]
  simp only [emit, List.append_nil]

theorem feed_again {items : List Seq} (h : s.turn b [] = (s', items, [b])) : s.feed [b] = emit items (s'.feed [b]) := by
  rw [feed_cons, h]

theorem feed_params_append (hs : s.state = .csi) {bs : List UInt8} (hb : ∀ b ∈ bs, 0x20 ≤ b ∧ b ≤ 0x3F)
    (rest : List UInt8) :
    s.feed (bs ++ rest) = Scanner.feed { s with params := bs.foldl Params.scan s.params } rest := by
  induction bs generalizing s with
  | nil => rfl
  | cons b bs ih =>
    have hturn : s.turn b (bs ++ rest) = ({ s with params := s.params.scan b }, [], bs ++ rest) := by
      unfold turn
      simp only [hs]
      rw [csiTurn_scan (hb b List.mem_cons_self)]
      simp only [taking, hs]
    have hmore := ih (s := { s with params := s.params.scan b }) hs fun c hc => hb c (List.mem_cons_of_mem _ hc)
    rw [List.cons_append, feed_cons, hturn]
    simp only
    rw [hmore]
    rfl

theorem feed_params (hs : s.state = .csi) {bs : List UInt8} (hb : ∀ b ∈ bs, 0x20 ≤ b ∧ b ≤ 0x3F) :
    s.feed bs = ({ s with params := bs.foldl Params.scan s.params }, []) := by
  have hall := feed_params_append hs hb []
  rwa [List.append_nil, feed_nil] at hall

theorem pending_core (s : Scanner) : s.core.pending = s.pending := by
  unfold pending
  rw [core_state]
  unfold core
  cases s.state <;> rfl

/-- A fresh scanner that is fed what is pending goes on as this one, and has emitted nothing. -/
def Rebuilt (s : Scanner) : Prop := Alike ((new s.mode).feed s.pending) (s, [])

theorem rebuilt_core : Rebuilt s.core ↔ Rebuilt s := by
  have hcore : s.core.core = s.core := by
    unfold core
    cases s.state <;> rfl
  unfold Rebuilt Alike
  rw [pending_core, core_mode, hcore]

theorem Rebuilt.grow (h : Rebuilt s) (hone : Alike (s.feed [b]) (s', [])) (hm : s'.mode = s.mode)
    (hp : s'.pending = s.pending ++ [b]) : Rebuilt s' := by
  unfold Rebuilt
  rw [hp, hm]
  have hmore := (feed_same h.1 [b]).alike
  have hitems : spell ((new s.mode).feed s.pending).2 = spell [] := h.2
  exact (feed_append _ _ _).trans ((hmore.emit hitems).trans hone)

theorem rebuilt_ground (hs : s.state = .ground) : Rebuilt s := by
  unfold Rebuilt pending
  rw [hs, feed_nil]
  exact ⟨(core_ground hs).symm, rfl⟩

theorem feed_esc (mode : ScanMode) : (new mode).feed [0x1B] = ({ new mode with state := .esc }, []) := feed_one rfl

theorem rebuilt_esc (hs : s.state = .esc) : Rebuilt s := by
  unfold Rebuilt pending
  rw [hs]
  simp only
  rw [feed_esc]
  refine ⟨?_, rfl⟩
  simp only [core, hs]
  rfl

theorem feed_csi (mode : ScanMode) : (new mode).feed [0x1B, 0x5B] = ({ new mode with state := .csi }, []) := by
  have hmore : ({ new mode with state := .esc } : Scanner).feed [0x5B] = ({ new mode with state := .csi }, []) :=
    feed_one rfl
  have hfirst : (new mode).feed [0x1B, 0x5B] = emit [] (({ new mode with state := .esc } : Scanner).feed [0x5B]) :=
    feed_then rfl
  rw [hfirst, hmore]
  rfl

theorem rebuilt_csi (hs : s.state = .csi) (h : s.params.Fit) : Rebuilt s := by
  unfold Rebuilt pending
  rw [hs]
  simp only
  refine (feed_append _ _ _).trans ?_
  rw [feed_csi]
  simp only
  rw [feed_params rfl (Params.writeUnfinished_range h)]
  refine ⟨?_, rfl⟩
  simp only [emit, core, hs, new]
  rw [Params.scan_writeUnfinished h]

/-- What a scanner that was fed from the start keeps. -/
structure Kept (s : Scanner) : Prop where
  rebuilt : Rebuilt s
  fit : s.state = .csi → s.params.Fit
  output : s.state = .escInter → s.mode = .output

theorem kept_ground (hs : s.state = .ground) : Kept s :=
  ⟨rebuilt_ground hs, fun h => (nomatch hs.symm.trans h), fun h => nomatch hs.symm.trans h⟩

theorem kept_esc (hs : s.state = .esc) : Kept s :=
  ⟨rebuilt_esc hs, fun h => (nomatch hs.symm.trans h), fun h => nomatch hs.symm.trans h⟩

theorem kept_csi (hs : s.state = .csi) (h : s.params.Fit) : Kept s :=
  ⟨rebuilt_csi hs h, fun _ => h, fun h => nomatch hs.symm.trans h⟩

/-- A byte that ends what is pending, or is added to it. -/
def Grows (s : Scanner) (b : UInt8) (r : Scanner × List Seq) : Prop :=
  r.1.state = .ground ∨ r.2 = [] ∧ r.1.mode = s.mode ∧ r.1.pending = s.pending ++ [b] ∧ r.1.state ≠ .csi ∧
    (r.1.state = .escInter → r.1.mode = .output)

theorem Kept.grows (h : Kept s) (hg : Grows s b (s.feed [b])) : Kept (s.feed [b]).1 := by
  rcases hg with hground | ⟨hitems, hm, hp, hcsi, hinter⟩
  · exact kept_ground hground
  · refine ⟨h.rebuilt.grow (show Alike (s.feed [b]) ((s.feed [b]).1, []) from ⟨rfl, ?_⟩) hm hp,
      fun hs => absurd hs hcsi, hinter⟩
    rw [hitems]

theorem Grows.again (hagain : s.turn b [] = (s', [], [b])) (hp : s'.pending = s.pending) (hm : s'.mode = s.mode)
    (hg : Grows s' b (s'.feed [b])) : Grows s b (s.feed [b]) := by
  rw [feed_again hagain]
  unfold Grows at hg ⊢
  rw [hp, hm] at hg
  exact hg

theorem grows_pushBody (hs : s.state = .osc ∨ s.state = .dcs ∨ s.state = .apc ∨ s.state = .skip) (b : UInt8) (cap : ℕ) :
    Grows s b (s.pushBody b cap, []) := by
  unfold pushBody
  split
  · exact .inl rfl
  · right
    unfold pending
    rcases hs with hs | hs | hs | hs <;> simp [hs]

theorem grows_body (hs : s.state = .osc ∨ s.state = .dcs ∨ s.state = .apc ∨ s.state = .skip) (b : UInt8) :
    Grows s b (s.feed [b]) := by
  have hpush (cap : ℕ) := grows_pushBody hs b cap
  have hesc (onEsc : State) (cap : ℕ) (hon : ({ s with state := onEsc } : Scanner).pending = s.pending ++ [0x1B])
      (hcsi : onEsc ≠ .csi) (hinter : onEsc ≠ .escInter) : Grows s b (s.bodyTurn onEsc cap b) := by
    unfold bodyTurn
    split
    · rename_i hb
      rw [← hb] at hon
      exact .inr ⟨rfl, rfl, hon, hcsi, fun h => absurd h hinter⟩
    · exact hpush cap
  rcases hs with hs | hs | hs | hs
  · have hfeed : s.feed [b] = s.oscTurn b := feed_taking (by unfold turn; simp only [hs])
    rw [hfeed]
    unfold oscTurn
    split
    · exact .inl rfl
    · exact hesc _ _ (by simp [pending, hs]) (by decide) (by decide)
  · have hfeed : s.feed [b] = s.bodyTurn .dcsEsc (s.bodyCap maxDcsBytes) b :=
      feed_taking (by unfold turn; simp only [hs])
    rw [hfeed]
    exact hesc _ _ (by simp [pending, hs]) (by decide) (by decide)
  · have hfeed : s.feed [b] = s.bodyTurn .apcEsc (s.bodyCap maxApcBytes) b :=
      feed_taking (by unfold turn; simp only [hs])
    rw [hfeed]
    exact hesc _ _ (by simp [pending, hs]) (by decide) (by decide)
  · have hfeed : s.feed [b] = s.bodyTurn .skipEsc maxSkipBytes b := feed_taking (by unfold turn; simp only [hs])
    rw [hfeed]
    exact hesc _ _ (by simp [pending, hs]) (by decide) (by decide)

theorem kept_feed_ground (hs : s.state = .ground) (b : UInt8) : Kept (s.feed [b]).1 := by
  have hkept := kept_ground hs
  have hstay {items : List Seq} (hturn : s.turn b [] = (s, items, [])) : Kept (s.feed [b]).1 := by
    rw [feed_one hturn]
    exact hkept
  by_cases hesc : b = 0x1B
  · have hturn : s.turn b [] = ({ s with state := .esc }, [], []) := by
      unfold turn groundTurn
      simp only [hs, hesc, if_true]
    rw [feed_one hturn]
    exact kept_esc rfl
  by_cases hlead : isPrint b ∨ 0xC2 ≤ b
  · by_cases hrun : (textRun [b]).1 = []
    · have happend := textRun_append [b]
      rw [hrun, List.nil_append] at happend
      by_cases hcut : 0 < Vt.utf8Need b ∧ 1 < Vt.utf8Need b
      · have hturn : s.turn b [] = ({ s with utf8 := [b], utf8Need := Vt.utf8Need b, state := .utf8 }, [], []) := by
          unfold turn groundTurn
          simp only [hs]
          rw [if_neg hesc, if_pos hlead, if_neg (not_not.mpr hrun), if_pos ⟨hcut.1, hcut.2, rfl⟩]
        refine hkept.grows ?_
        rw [feed_one hturn]
        refine .inr ⟨rfl, rfl, ?_, State.noConfusion, State.noConfusion⟩
        simp only [pending, hs, List.nil_append]
      · exact hstay (turn_alone hs hesc hrun fun h => hcut ⟨h.1, h.2.1⟩)
    · have hturn := turn_of_run hs hrun
      have hlen := textRun_length [b] hrun
      have hnil : (textRun [b]).2 = [] := List.length_eq_zero_iff.mp (by simpa using hlen)
      rw [hnil] at hturn
      exact hstay hturn
  · have hrun : (textRun [b]).1 = [] := by
      rw [textRun, if_neg fun h => hlead (.inl h), if_neg fun h => hlead (.inr h)]
    have hneed : Vt.utf8Need b = 0 := by
      have := not_or.mp hlead
      grind [Vt.utf8Need]
    exact hstay (turn_alone hs hesc hrun fun h => absurd hneed (Nat.ne_of_gt h.1))

theorem Kept.adds (h : Kept s) (hone : s.feed [b] = (s', [])) (hm : s'.mode = s.mode)
    (hp : s'.pending = s.pending ++ [b]) (hcsi : s'.state ≠ .csi) (hinter : s'.state = .escInter → s'.mode = .output) :
    Kept (s.feed [b]).1 := by
  refine h.grows ?_
  rw [hone]
  exact .inr ⟨rfl, hm, hp, hcsi, hinter⟩

theorem kept_feed_utf8 (h : Kept s) (hs : s.state = .utf8 ∨ s.state = .escUtf8) (b : UInt8) : Kept (s.feed [b]).1 := by
  have hturn : s.turn b [] = s.utf8Turn b [] := by
    unfold turn
    rcases hs with hs | hs <;> simp only [hs]
  unfold utf8Turn at hturn
  split at hturn
  · rw [feed_again hturn]
    exact kept_feed_ground (s := { s with utf8 := [], state := .ground }) rfl b
  · simp only at hturn
    split at hturn
    · rw [feed_one hturn]
      exact kept_ground rfl
    · refine h.adds (feed_one hturn) rfl ?_ ?_ ?_
      all_goals rcases hs with hs | hs <;> simp [pending, hs]

theorem kept_feed_escOutput (h : Kept s) (hs : s.state = .esc) (hm : s.mode = .output)
    (hfeed : ∀ b, b = 0x58 ∨ ¬ (b = 0x5B ∨ b = 0x1B) → s.feed [b] = s.escOutput b) (hb : ¬ (b = 0x5B ∨ b = 0x1B)) :
    Kept (s.feed [b]).1 := by
  have hone := hfeed b (.inr hb)
  unfold escOutput at hone
  split at hone
  · rename_i hinter
    have hmore : b ≠ 0xFF := by
      rintro rfl
      revert hinter
      decide
    refine h.adds hone rfl ?_ State.noConfusion fun _ => hm
    simp [pending, hs, hmore]
  split at hone
  · rename_i hb
    exact h.adds hone rfl (by simp [pending, hs, hb]) State.noConfusion State.noConfusion
  split at hone
  · rename_i hb
    exact h.adds hone rfl (by simp [pending, hs, hb]) State.noConfusion State.noConfusion
  split at hone
  · rename_i hb
    exact h.adds hone rfl (by simp [pending, hs, hb]) State.noConfusion State.noConfusion
  split at hone
  · -- A string that is skipped is rebuilt as one that SOS starts.
    have hskip : s.feed [0x58] = ({ s with body := [], state := .skip }, []) := (hfeed 0x58 (.inl rfl)).trans rfl
    have hkept := h.adds hskip rfl (by simp [pending, hs]) State.noConfusion State.noConfusion
    rw [hskip] at hkept
    rw [hone]
    exact hkept
  split at hone
  all_goals
    rw [hone]
    exact kept_ground rfl

theorem kept_feed_escInput (h : Kept s) (hs : s.state = .esc) (hone : s.feed [b] = s.escInput b) :
    Kept (s.feed [b]).1 := by
  unfold escInput at hone
  split at hone
  · rename_i hb
    exact h.adds hone rfl (by simp [pending, hs, hb]) State.noConfusion State.noConfusion
  split at hone
  · rename_i hb
    exact h.adds hone rfl (by simp [pending, hs, hb]) State.noConfusion State.noConfusion
  split at hone
  · rename_i hb
    exact h.adds hone rfl (by simp [pending, hs, hb]) State.noConfusion State.noConfusion
  split at hone
  · rw [hone]
    exact kept_ground rfl
  split at hone
  · exact h.adds hone rfl (by simp [pending, hs]) State.noConfusion State.noConfusion
  · rw [hone]
    exact kept_ground rfl

theorem kept_feed_esc (h : Kept s) (hs : s.state = .esc) (b : UInt8) : Kept (s.feed [b]).1 := by
  have hfeed (b : UInt8) : s.feed [b] = s.escTurn b := feed_taking (by unfold turn; simp only [hs])
  by_cases hcsi : b = 0x5B
  · rw [hfeed, escTurn, if_pos hcsi]
    exact kept_csi rfl Params.fit_reset
  cases hm : s.mode with
  | output =>
    have hone {b : UInt8} (hb : ¬ b = 0x5B) : s.escTurn b = if b = 0x1B then (s, []) else s.escOutput b := by
      unfold escTurn
      rw [if_neg hb, hm]
    by_cases hesc : b = 0x1B
    · rw [hfeed, hone hcsi, if_pos hesc]
      exact h
    · refine kept_feed_escOutput h hs hm (fun c hc => ?_) (not_or.mpr ⟨hcsi, hesc⟩)
      have hne : ¬ c = 0x5B ∧ ¬ c = 0x1B := by
        rcases hc with rfl | hc
        · decide
        · exact not_or.mp hc
      rw [hfeed, hone hne.1, if_neg hne.2]
  | input =>
    have hone := hfeed b
    unfold escTurn at hone
    rw [if_neg hcsi, hm] at hone
    simp only at hone
    split at hone
    · rw [hone]
      exact kept_ground rfl
    split at hone
    · rename_i hb
      exact h.adds hone hm.symm (by simp [pending, hs, hb]) State.noConfusion State.noConfusion
    · exact kept_feed_escInput h hs hone

theorem feed_spaces : (new .output).feed [0x1B, 0x20, 0x20] =
    ({ new .output with state := .escInter, escInter := 0xFF }, []) := by
  have hesc : (new .output).feed [0x1B, 0x20, 0x20] =
      emit [] (({ new .output with state := .esc } : Scanner).feed [0x20, 0x20]) := feed_then rfl
  have hone : ({ new .output with state := .esc } : Scanner).feed [0x20, 0x20] =
      emit [] (({ new .output with state := .escInter, escInter := 0x20 } : Scanner).feed [0x20]) := feed_then rfl
  have htwo : ({ new .output with state := .escInter, escInter := 0x20 } : Scanner).feed [0x20] =
      ({ new .output with state := .escInter, escInter := 0xFF }, []) := feed_one rfl
  rw [hesc, hone, htwo]
  rfl

theorem kept_feed_escInter (h : Kept s) (hs : s.state = .escInter) (b : UInt8) : Kept (s.feed [b]).1 := by
  have hfeed : s.feed [b] = s.escInterTurn b := feed_taking (by unfold turn; simp only [hs])
  unfold escInterTurn at hfeed
  split at hfeed
  · rw [hfeed]
    unfold paramsInterExtra
    split
    · -- More than one intermediate byte is rebuilt as two.
      refine ⟨?_, fun hcsi => (nomatch hs.symm.trans hcsi), h.output⟩
      have hm := h.output hs
      unfold Rebuilt pending
      simp only [hs, hm, if_true]
      rw [feed_spaces]
      exact ⟨rfl, rfl⟩
    · exact h
  split at hfeed
  all_goals
    rw [hfeed]
    exact kept_ground rfl

theorem feed_x10 : (new .input).feed [0x1B, 0x5B, 0x4D] = ({ new .input with state := .x10Mouse }, []) := by
  have hesc : (new .input).feed [0x1B, 0x5B, 0x4D] =
      emit [] (({ new .input with state := .esc } : Scanner).feed [0x5B, 0x4D]) := feed_then rfl
  have hcsi : ({ new .input with state := .esc } : Scanner).feed [0x5B, 0x4D] =
      emit [] (({ new .input with state := .csi } : Scanner).feed [0x4D]) := feed_then rfl
  have hx10 : ({ new .input with state := .csi } : Scanner).feed [0x4D] =
    ({ new .input with state := .x10Mouse }, []) :=
    feed_one rfl
  rw [hesc, hcsi, hx10]
  rfl

theorem kept_feed_csi (h : Kept s) (hs : s.state = .csi) (b : UInt8) : Kept (s.feed [b]).1 := by
  have hfeed : s.feed [b] = s.csiTurn b := feed_taking (by unfold turn; simp only [hs])
  by_cases hb : 0x20 ≤ b ∧ b ≤ 0x3F
  · rw [hfeed, csiTurn_scan hb]
    exact kept_csi hs ((h.fit hs).scan hb)
  · have hrange : ¬ (0x30 ≤ b ∧ b ≤ 0x39) ∧ b ≠ 0x3B ∧ b ≠ 0x3A ∧ ¬ (0x3C ≤ b ∧ b ≤ 0x3F) ∧
      ¬ (0x20 ≤ b ∧ b ≤ 0x2F) := by
      grind
    obtain ⟨h₁, h₂, h₃, h₄, h₅⟩ := hrange
    unfold csiTurn at hfeed
    rw [if_neg h₁, if_neg h₂, if_neg h₃, if_neg h₄, if_neg h₅] at hfeed
    split at hfeed
    · rename_i hx10
      rw [hfeed]
      refine ⟨?_, State.noConfusion, State.noConfusion⟩
      unfold Rebuilt pending
      simp only [hx10.2.1, List.append_nil]
      rw [feed_x10]
      exact ⟨rfl, rfl⟩
    split at hfeed
    · rw [hfeed]
      exact kept_ground rfl
    split at hfeed
    · rw [hfeed]
      exact kept_esc rfl
    split at hfeed
    · rw [hfeed]
      exact h
    split at hfeed
    · rw [hfeed]
      exact kept_ground rfl
    · rw [hfeed]
      exact h

theorem kept_feed_bodyEsc (h : Kept s) (back : State) (cap : ℕ)
    (hturn : (s.turn b []).1.state = .ground ∧ (s.turn b []).2.2 = [] ∨
      s.turn b [] = (pushBody { s with state := back } 0x1B cap, [], [b]))
    (hback : back = .osc ∨ back = .dcs ∨ back = .apc ∨ back = .skip)
    (hp : ({ s with state := back, body := s.body ++ [0x1B] } : Scanner).pending = s.pending) :
    Kept (s.feed [b]).1 := by
  rcases hturn with ⟨hground, hrest⟩ | hturn
  · rw [feed_cons, hrest, feed_nil]
    exact kept_ground hground
  · unfold pushBody at hturn
    split at hturn
    · rw [feed_again hturn]
      exact kept_feed_ground rfl b
    · exact h.grows (.again hturn hp rfl (grows_body hback b))

theorem kept_feed_maybe (h : Kept s) (back : Scanner)
    (hturn : (s.turn b []) = (back, [], [b]) ∧ back.mode = s.mode ∧ back.pending = s.pending ∧
        (back.state = .osc ∨ back.state = .dcs) ∨
      ∃ items, s.turn b [] = ({ s with state := .ground }, items, [b])) : Kept (s.feed [b]).1 := by
  rcases hturn with ⟨hturn, hm, hp, hback⟩ | ⟨items, hturn⟩
  · refine h.grows (.again hturn hp hm (grows_body ?_ b))
    exact hback.imp id .inl
  · rw [feed_again hturn]
    exact kept_feed_ground rfl b

theorem Kept.feed_one (h : Kept s) (b : UInt8) : Kept (s.feed [b]).1 := by
  cases hs : s.state with
  | ground => exact kept_feed_ground hs b
  | utf8 => exact kept_feed_utf8 h (.inl hs) b
  | escUtf8 => exact kept_feed_utf8 h (.inr hs) b
  | esc => exact kept_feed_esc h hs b
  | escInter => exact kept_feed_escInter h hs b
  | csi => exact kept_feed_csi h hs b
  | osc => exact h.grows (grows_body (.inl hs) b)
  | dcs => exact h.grows (grows_body (.inr (.inl hs)) b)
  | apc => exact h.grows (grows_body (.inr (.inr (.inl hs))) b)
  | skip => exact h.grows (grows_body (.inr (.inr (.inr hs))) b)
  | oscEsc =>
    refine kept_feed_bodyEsc h .osc (s.bodyCap maxOscBytes) ?_ (by simp) (by simp [pending, hs])
    unfold turn
    simp only [hs, bodyEscTurn]
    split <;> simp
  | dcsEsc =>
    refine kept_feed_bodyEsc h .dcs (s.bodyCap maxDcsBytes) ?_ (by simp) (by simp [pending, hs])
    unfold turn
    simp only [hs, bodyEscTurn]
    split <;> simp
  | apcEsc =>
    refine kept_feed_bodyEsc h .apc (s.bodyCap maxApcBytes) ?_ (by simp) (by simp [pending, hs])
    unfold turn
    simp only [hs, bodyEscTurn]
    split <;> simp
  | skipEsc =>
    refine kept_feed_bodyEsc h .skip maxSkipBytes ?_ (by simp) (by simp [pending, hs])
    unfold turn
    simp only [hs, skipEscTurn]
    split <;> simp
  | maybeApc =>
    by_cases hb : b = 0x47
    · have hturn : s.turn b [] = ({ s with body := [b], state := .apc }, [], []) := by
        unfold turn
        simp only [hs, maybeApcTurn, if_pos hb]
      exact h.adds (Scanner.feed_one hturn) rfl (by simp [pending, hs]) State.noConfusion State.noConfusion
    · refine kept_feed_maybe h s (.inr ⟨[.escChar '_'], ?_⟩)
      unfold turn
      simp only [hs, maybeApcTurn, if_neg hb]
  | maybeDcs =>
    refine kept_feed_maybe h { s with body := [], state := .dcs } ?_
    unfold turn
    simp only [hs, maybeDcsTurn]
    split <;> simp [pending, hs]
  | maybeOsc =>
    refine kept_feed_maybe h { s with body := [], state := .osc } ?_
    unfold turn
    simp only [hs, maybeOscTurn]
    split <;> simp [pending, hs]
  | ss3 =>
    have hturn : s.turn b [] = ({ s with state := .ground }, [.ss3 b], []) := by
      unfold turn
      simp only [hs]
      rfl
    rw [Scanner.feed_one hturn]
    exact kept_ground rfl
  | x10Mouse =>
    have hfeed : s.feed [b] = s.x10Turn b := feed_taking (by unfold turn; simp only [hs])
    unfold x10Turn at hfeed
    split at hfeed
    · rw [hfeed]
      exact kept_ground rfl
    · exact h.adds hfeed rfl (by simp [pending, hs]) (by simp [hs]) (by simp [hs])

theorem Kept.same (h : Kept s) (hsame : s.core = s'.core) : Kept s' := by
  have hstate : s.state = s'.state := by rw [← core_state s, hsame, core_state]
  have hmode : s.mode = s'.mode := by rw [← core_mode s, hsame, core_mode]
  refine ⟨?_, fun hcsi => ?_, fun hinter => ?_⟩
  · rw [← rebuilt_core, ← hsame, rebuilt_core]
    exact h.rebuilt
  · have hparams : s.params = s'.params := by
      have hs := hstate.trans hcsi
      have hparams := congrArg Scanner.params hsame
      simp only [core, hs, hcsi] at hparams
      exact hparams
    rw [← hparams]
    exact h.fit (hstate.trans hcsi)
  · rw [← hmode]
    exact h.output (hstate.trans hinter)

theorem Kept.feed (h : Kept s) (input : List UInt8) : Kept (s.feed input).1 := by
  induction input generalizing s with
  | nil =>
    rw [feed_nil]
    exact h
  | cons b input ih => exact (ih (h.feed_one b)).same (feed_append s [b] input).1.symm

theorem Kept.feeds (h : Kept s) (chunks : List (List UInt8)) : Kept (s.feeds chunks).1 := by
  induction chunks generalizing s with
  | nil => exact h
  | cons chunk chunks ih => exact ih (h.feed chunk)

theorem spell_eq_nil {items : List Seq} (hfull : Full items) (h : spell items = []) : items = [] := by
  cases items with
  | nil => rfl
  | cons item items =>
    exfalso
    have hitem := (List.flatMap_eq_nil_iff.mp h) item List.mem_cons_self
    cases item with
    | text t => exact hfull t List.mem_cons_self (List.map_eq_nil_iff.mp hitem)
    | _ => cases hitem

theorem feeds_same (h : s.core = s'.core) (chunks : List (List UInt8)) : (s.feeds chunks).2 = (s'.feeds chunks).2 := by
  induction chunks generalizing s s' with
  | nil => rfl
  | cons chunk chunks ih =>
    obtain ⟨hcore, hitems⟩ := feed_same h chunk
    exact congrArg₂ (· ++ ·) hitems (ih hcore)

theorem mode_pushBody (s : Scanner) (b : UInt8) (cap : ℕ) : (s.pushBody b cap).mode = s.mode := by
  unfold pushBody
  split <;> rfl

theorem mode_ite {α : Type} {c : Prop} [Decidable c] {p q : Scanner × α} {mode : ScanMode} (h : p.1.mode = mode)
    (h' : q.1.mode = mode) : (if c then p else q).1.mode = mode := by
  split
  · exact h
  · exact h'

theorem turn_mode (s : Scanner) (b : UInt8) (rest : List UInt8) : (s.turn b rest).1.mode = s.mode := by
  unfold turn
  split
  case h_1 =>
    simp only [groundTurn]
    repeat' apply mode_ite
    all_goals rfl
  case h_2 | h_3 =>
    simp only [utf8Turn]
    repeat' apply mode_ite
    all_goals rfl
  case h_4 =>
    simp only [taking, escTurn]
    apply mode_ite rfl
    split
    · simp only [escOutput]
      repeat' apply mode_ite
      all_goals rfl
    · simp only [escInput]
      repeat' apply mode_ite
      all_goals rfl
  case h_5 =>
    simp only [taking, escInterTurn]
    repeat' apply mode_ite
    all_goals rfl
  case h_6 =>
    simp only [taking, csiTurn]
    repeat' apply mode_ite
    all_goals rfl
  case h_7 => exact mode_ite rfl (mode_ite rfl (mode_pushBody _ _ _))
  case h_9 | h_11 | h_13 => exact mode_ite rfl (mode_pushBody _ _ _)
  case h_8 | h_10 | h_12 | h_14 => exact mode_ite rfl (mode_pushBody _ _ _)
  case h_15 | h_16 | h_17 => exact mode_ite rfl rfl
  case h_18 => rfl
  case h_19 =>
    simp only [taking, x10Turn]
    split <;> rfl

theorem feed_mode (s : Scanner) (input : List UInt8) : (s.feed input).1.mode = s.mode := by
  induction s, input using feed.induct with
  | case1 s => rw [feed_nil]
  | case2 s b rest next =>
    rename_i ih
    rw [feed_cons]
    exact ih.trans (turn_mode s b rest)

theorem feeds_mode (s : Scanner) (chunks : List (List UInt8)) : (s.feeds chunks).1.mode = s.mode := by
  induction chunks generalizing s with
  | nil => rfl
  | cons chunk chunks ih => exact (ih (s.feed chunk).1).trans (feed_mode s chunk)

/-- However the input is cut, the same is emitted; and what is pending resumes the scan anywhere. -/
theorem resumes_anywhere (mode : ScanMode) (chunks : List (List UInt8)) :
    merge ((new mode).feeds chunks).2 = merge ((new mode).feed chunks.flatten).2 ∧
      let s := ((new mode).feeds chunks).1
      let fresh := (new mode).feed s.pending
      fresh.2 = [] ∧ ∀ further, (fresh.1.feeds further).2 = (s.feeds further).2 := by
  refine ⟨merge_feeds _ chunks, ?_⟩
  intro s fresh
  have hkept : Kept s := (kept_ground rfl).feeds chunks
  have hmode : s.mode = mode := feeds_mode (new mode) chunks
  have hrebuilt := hkept.rebuilt
  unfold Rebuilt at hrebuilt
  rw [hmode] at hrebuilt
  exact ⟨spell_eq_nil (full_feed _ _) hrebuilt.2, fun further => feeds_same hrebuilt.1 further⟩

end Scanner

end Vt

end Dekit
