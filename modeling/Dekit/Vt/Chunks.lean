import Dekit.Vt.Scan

namespace Dekit

namespace Vt

variable {s s' : Scanner} {b : UInt8} {input rest : List UInt8}

namespace Scanner

/-- What a scanner goes on from: the fields its state reads. -/
def core (s : Scanner) : Scanner :=
  match s.state with
  | .utf8 | .escUtf8 => { new s.mode with state := s.state, utf8 := s.utf8, utf8Need := s.utf8Need }
  | .escInter => { new s.mode with state := s.state, escInter := s.escInter }
  | .csi => { new s.mode with state := s.state, params := s.params }
  | .osc | .oscEsc | .dcs | .dcsEsc | .apc | .apcEsc | .skip | .skipEsc =>
    { new s.mode with state := s.state, body := s.body }
  | .x10Mouse => { new s.mode with state := s.state, x10 := s.x10 }
  | .ground | .esc | .ss3 | .maybeApc | .maybeDcs | .maybeOsc => { new s.mode with state := s.state }

def Agree {α : Type} (p q : Scanner × α) : Prop := p.1.core = q.1.core ∧ p.2 = q.2

theorem Agree.ite {α : Type} {c : Prop} [Decidable c] {p p' q q' : Scanner × α} (h : Agree p q) (h' : Agree p' q') :
    Agree (if c then p else p') (if c then q else q') := by
  split
  · exact h
  · exact h'

theorem Agree.taking {p q : Scanner × List Seq} (h : Agree p q) (rest : List UInt8) :
    Agree (taking p rest) (taking q rest) := ⟨h.1, congrArg (·, rest) h.2⟩

@[simp] theorem core_mode (s : Scanner) : s.core.mode = s.mode := by
  unfold core
  cases s.state <;> rfl

@[simp] theorem core_state (s : Scanner) : s.core.state = s.state := by
  unfold core
  cases h : s.state <;> rfl

theorem core_pushBody (h : s.core = s'.core) (hb : s.body = s'.body) (b : UInt8) (max : ℕ) :
    (s.pushBody b max).core = (s'.pushBody b max).core := by
  have hm : s.mode = s'.mode := by rw [← core_mode s, h, core_mode]
  have hs : s.state = s'.state := by rw [← core_state s, h, core_state]
  unfold pushBody
  rw [hb]
  split
  · simp only [core, hm]
  · unfold core at h ⊢
    simp only [hs, hm] at h ⊢
    cases hst : s'.state <;> simp only [hst] at h ⊢ <;> exact h

theorem turn_core (s : Scanner) (b : UInt8) (rest : List UInt8) : Agree (s.core.turn b rest) (s.turn b rest) := by
  obtain ⟨mode, state, params, escInter, body, utf8, utf8Need, x10⟩ := s
  cases state with
  | ground =>
    simp only [core, turn, groundTurn]
    repeat' apply Agree.ite
    all_goals exact ⟨rfl, rfl⟩
  | utf8 | escUtf8 =>
    simp only [core, turn, utf8Turn]
    repeat' apply Agree.ite
    all_goals exact ⟨rfl, rfl⟩
  | esc =>
    refine Agree.taking ?_ rest
    cases mode with
    | output =>
      unfold escTurn escOutput
      repeat' apply Agree.ite
      all_goals exact ⟨rfl, rfl⟩
    | input =>
      unfold escTurn escInput
      repeat' apply Agree.ite
      all_goals exact ⟨rfl, rfl⟩
  | escInter =>
    refine Agree.taking ?_ rest
    unfold escInterTurn
    repeat' apply Agree.ite
    all_goals exact ⟨rfl, rfl⟩
  | csi =>
    refine Agree.taking ?_ rest
    unfold csiTurn
    repeat' apply Agree.ite
    all_goals exact ⟨rfl, rfl⟩
  | osc =>
    refine Agree.taking ?_ rest
    unfold oscTurn bodyTurn
    refine .ite ⟨rfl, rfl⟩ (.ite ⟨rfl, rfl⟩ ⟨?_, rfl⟩)
    apply core_pushBody <;> rfl
  | dcs | apc | skip =>
    refine Agree.taking ?_ rest
    unfold bodyTurn
    refine .ite ⟨rfl, rfl⟩ ⟨?_, rfl⟩
    apply core_pushBody <;> rfl
  | oscEsc | dcsEsc | apcEsc =>
    simp only [core, turn]
    unfold bodyEscTurn
    refine .ite ⟨rfl, rfl⟩ ⟨?_, rfl⟩
    apply core_pushBody <;> rfl
  | skipEsc =>
    simp only [core, turn]
    unfold skipEscTurn
    refine .ite ⟨rfl, rfl⟩ ⟨?_, rfl⟩
    apply core_pushBody <;> rfl
  | maybeApc | maybeDcs | maybeOsc => exact .ite ⟨rfl, rfl⟩ ⟨rfl, rfl⟩
  | ss3 => exact ⟨rfl, rfl⟩
  | x10Mouse =>
    simp only [core, turn, x10Turn, Scanner.taking]
    split <;> exact ⟨rfl, rfl⟩

theorem turn_same (h : s.core = s'.core) (b : UInt8) (rest : List UInt8) : Agree (s.turn b rest) (s'.turn b rest) := by
  have hs := turn_core s b rest
  have hs' := turn_core s' b rest
  rw [h] at hs
  exact ⟨hs.1.symm.trans hs'.1, hs.2.symm.trans hs'.2⟩

theorem feed_nil (s : Scanner) : s.feed [] = (s, []) := by rw [feed]

def emit (items : List Seq) (p : Scanner × List Seq) : Scanner × List Seq := (p.1, items ++ p.2)

theorem feed_cons (s : Scanner) (b : UInt8) (rest : List UInt8) :
    s.feed (b :: rest) = emit (s.turn b rest).2.1 ((s.turn b rest).1.feed (s.turn b rest).2.2) := by
  rw [feed]
  rfl

theorem feed_same (h : s.core = s'.core) (input : List UInt8) : Agree (s.feed input) (s'.feed input) := by
  induction s, input using feed.induct generalizing s' with
  | case1 s =>
    rw [feed_nil, feed_nil]
    exact ⟨h, rfl⟩
  | case2 s b rest next =>
    rename_i ih
    obtain ⟨hcore, hitems⟩ := turn_same h b rest
    obtain ⟨hlast, hmore⟩ := ih hcore
    rw [feed_cons, feed_cons, ← hitems]
    exact ⟨hlast, congrArg ((s.turn b rest).2.1 ++ ·) hmore⟩

end Scanner

/-- The items with each text byte by byte. -/
def spell (items : List Seq) : List Seq := items.flatMap fun item =>
  match item with
  | .text t => t.map fun b => .text [b]
  | item => [item]

@[simp] theorem spell_nil : spell [] = [] := rfl

@[simp] theorem spell_append (items items' : List Seq) : spell (items ++ items') = spell items ++ spell items' :=
  List.flatMap_append

theorem spell_text_append (t t' : List UInt8) : spell [.text (t ++ t')] = spell [.text t, .text t'] := by
  simp [spell]

namespace Scanner

def Alike (p q : Scanner × List Seq) : Prop := p.1.core = q.1.core ∧ spell p.2 = spell q.2

theorem Alike.refl (p : Scanner × List Seq) : Alike p p := ⟨rfl, rfl⟩

theorem Alike.symm {p q : Scanner × List Seq} (h : Alike p q) : Alike q p := ⟨h.1.symm, h.2.symm⟩

theorem Alike.trans {p q r : Scanner × List Seq} (h : Alike p q) (h' : Alike q r) : Alike p r :=
  ⟨h.1.trans h'.1, h.2.trans h'.2⟩

theorem Agree.alike {p q : Scanner × List Seq} (h : Agree p q) : Alike p q := ⟨h.1, congrArg spell h.2⟩

theorem Alike.emit {p q : Scanner × List Seq} {items items' : List Seq} (h : Alike p q)
    (hi : spell items = spell items') :
    Alike (emit items p) (emit items' q) := by
  refine ⟨h.1, ?_⟩
  unfold Scanner.emit
  rw [spell_append, spell_append, hi, h.2]

theorem Alike.after {p q : Scanner × List Seq} (items : List Seq) (h : Alike p q) :
    Alike (Scanner.emit items p) (Scanner.emit items q) :=
  h.emit rfl

theorem turn_of_run (hs : s.state = .ground) (hrun : (textRun (b :: rest)).1 ≠ []) :
    s.turn b rest = (s, [.text (textRun (b :: rest)).1], (textRun (b :: rest)).2) := by
  have hlead : isPrint b ∨ 0xC2 ≤ b := by
    by_contra hnot
    rw [not_or] at hnot
    rw [textRun, if_neg hnot.1, if_neg hnot.2] at hrun
    exact hrun rfl
  have hb : b ≠ 0x1B := by
    rintro rfl
    revert hlead
    decide
  unfold turn groundTurn
  simp only [hs]
  rw [if_neg hb, if_pos hlead, if_pos hrun]

theorem feed_run (hs : s.state = .ground) (input : List UInt8) :
    Alike (s.feed input) (emit [.text (textRun input).1] (s.feed (textRun input).2)) := by
  cases input with
  | nil =>
    rw [textRun]
    exact ⟨rfl, rfl⟩
  | cons b rest =>
    by_cases hrun : (textRun (b :: rest)).1 = []
    · have happend := textRun_append (b :: rest)
      rw [hrun, List.nil_append] at happend
      rw [hrun, happend]
      exact ⟨rfl, rfl⟩
    · rw [feed_cons, turn_of_run hs hrun]
      exact .refl _

theorem turn_alone (hs : s.state = .ground) (hb : b ≠ 0x1B) (hrun : (textRun (b :: rest)).1 = [])
    (hcut : ¬ (0 < Vt.utf8Need b ∧ (b :: rest).length < Vt.utf8Need b ∧ rest.all isCont)) :
    s.turn b rest = (s, if isPrint b ∨ 0xC2 ≤ b then [] else if b < 0x20 ∨ b = 0x7F ∨ b = 0x8D then [.ctl b] else [],
      rest) := by
  unfold turn groundTurn
  simp only [hs]
  rw [if_neg hb]
  by_cases hlead : isPrint b ∨ 0xC2 ≤ b
  · rw [if_pos hlead, if_pos hlead, if_neg (not_not.mpr hrun), if_neg hcut]
  · rw [if_neg hlead, if_neg hlead]

theorem feed_cont (hs : s.state = .ground) (hb : isCont b = true) (rest : List UInt8) :
    s.feed (b :: rest) = emit (dropLead [0, b]) (s.feed rest) := by
  have hlead : ¬ (isPrint b ∨ 0xC2 ≤ b) := by
    simp [isCont, isPrint, UInt8.le_iff_toNat_le] at *
    omega
  have hesc : b ≠ 0x1B := by
    rintro rfl
    revert hb
    decide
  have hctl : (b < 0x20 ∨ b = 0x7F ∨ b = 0x8D) ↔ b = 0x8D := by
    simp only [isCont, UInt8.le_iff_toNat_le, UInt8.lt_iff_toNat_lt, UInt8.ext_iff] at *
    simp at *
    omega
  have hneed : Vt.utf8Need b = 0 := by
    grind [isCont, Vt.utf8Need]
  have hrun : (textRun (b :: rest)).1 = [] := by
    rw [textRun, if_neg fun h => hlead (.inl h), if_neg fun h => hlead (.inr h)]
  rw [feed_cons, turn_alone hs hesc hrun fun h => absurd hneed (Nat.ne_of_gt h.1), if_neg hlead]
  simp only [hctl, dropLead, List.tail_cons]
  by_cases h8d : b = 0x8D
  · subst h8d
    rfl
  · simp [h8d]

theorem core_ground (hs : s.state = .ground) : s.core = new s.mode := by
  unfold core
  rw [hs]
  rfl

theorem feed_ground (hs : s.state = .ground) (hs' : s'.state = .ground) (hm : s.mode = s'.mode) (input : List UInt8) :
    Alike (s.feed input) (s'.feed input) :=
  (feed_same (by rw [core_ground hs, core_ground hs', hm]) input).alike

theorem turn_stray (hs : s.state = .utf8) (hb : isCont b = false) (rest : List UInt8) :
    s.turn b rest = ({ s with utf8 := [], state := .ground }, dropLead s.utf8, b :: rest) := by
  unfold turn utf8Turn
  simp only [hs, hb, Bool.not_false, if_true]

theorem turn_stash (hs : s.state = .utf8) (hb : isCont b = true) (hlen : (s.utf8 ++ [b]).length ≠ s.utf8Need)
    (rest : List UInt8) : s.turn b rest = ({ s with utf8 := s.utf8 ++ [b] }, [], rest) := by
  unfold turn utf8Turn
  simp only [hs, hb, Bool.not_true, Bool.false_eq_true, if_false, hlen]

theorem turn_whole (hs : s.state = .utf8) (hb : isCont b = true) (hlen : (s.utf8 ++ [b]).length = s.utf8Need)
    (rest : List UInt8) : s.turn b rest = ({ s with utf8 := [], state := .ground },
      if (fromUtf8 (s.utf8 ++ [b])).isSome then [.text (s.utf8 ++ [b])] else dropLead (s.utf8 ++ [b]), rest) := by
  unfold turn utf8Turn
  simp only [hs, hb, Bool.not_true, Bool.false_eq_true, if_false, hlen, if_true, reduceCtorEq]
  cases fromUtf8 (s.utf8 ++ [b]) <;> rfl

theorem dropLead_append {stash : List UInt8} (h : stash ≠ []) (b : UInt8) :
    dropLead (stash ++ [b]) = dropLead stash ++ dropLead [0, b] := by
  cases stash with
  | nil => exact absurd rfl h
  | cons lead stash => simp [dropLead]

/-- The bytes of an invalid character are scanned one by one but for its lead. -/
theorem feed_drop {g : Scanner} (hg : g.state = .ground) (hs : s.state = .utf8) (hm : s.mode = g.mode)
    (hne : s.utf8 ≠ []) (hlt : s.utf8.length < s.utf8Need)
    (hbad : ∀ cs r, rest = cs ++ r → s.utf8.length + cs.length = s.utf8Need → fromUtf8 (s.utf8 ++ cs) = none)
    (hcut : ¬ (s.utf8.length + rest.length < s.utf8Need ∧ rest.all isCont)) :
    Alike (s.feed rest) (emit (dropLead s.utf8) (g.feed rest)) := by
  induction rest generalizing s with
  | nil => exact absurd ⟨hlt, rfl⟩ hcut
  | cons b rest ih =>
    cases hb : isCont b with
    | false =>
      rw [feed_cons, turn_stray hs hb]
      exact (feed_ground (s := { s with utf8 := [], state := .ground }) rfl hg hm _).emit rfl
    | true =>
      by_cases hlen : (s.utf8 ++ [b]).length = s.utf8Need
      · have hnone := hbad [b] rest rfl (by simpa using hlen)
        rw [feed_cons, turn_whole hs hb hlen, hnone, feed_cont hg hb]
        refine ((feed_ground (s := { s with utf8 := [], state := .ground }) rfl hg hm rest).emit
          (congrArg spell (dropLead_append hne b))).trans ?_
        unfold emit
        rw [List.append_assoc]
        exact .refl _
      · rw [feed_cons, turn_stash hs hb hlen, feed_cont hg hb]
        have hlen' : (s.utf8 ++ [b]).length = s.utf8.length + 1 := by simp
        refine (Alike.emit (ih (s := { s with utf8 := s.utf8 ++ [b] }) hs hm (by simp) ?_ ?_ ?_) rfl).trans ?_
        · simp only [hlen'] at hlen ⊢
          omega
        · intro cs r hr hl
          have hwhole := hbad (b :: cs) r (by rw [hr]; rfl) (by simp only [hlen', List.length_cons] at hl ⊢; omega)
          simpa using hwhole
        · intro hc
          refine hcut ⟨?_, ?_⟩
          · have hl := hc.1
            simp only [hlen', List.length_cons] at hl ⊢
            omega
          · rw [List.all_cons, hb, hc.2]
            rfl
        · unfold emit
          rw [dropLead_append hne, List.append_assoc]
          exact .refl _

theorem feed_whole {g : Scanner} {cs : List UInt8} (hg : g.state = .ground) (hs : s.state = .utf8)
    (hm : s.mode = g.mode)
    (hcs : cs ≠ []) (hall : cs.all isCont = true) (hlen : s.utf8.length + cs.length = s.utf8Need)
    (hok : (fromUtf8 (s.utf8 ++ cs)).isSome = true) (rest : List UInt8) :
    Alike (s.feed (cs ++ rest)) (emit [.text (s.utf8 ++ cs)] (g.feed rest)) := by
  induction cs generalizing s with
  | nil => exact absurd rfl hcs
  | cons b cs ih =>
    rw [List.all_cons, Bool.and_eq_true] at hall
    by_cases hlast : cs = []
    · subst hlast
      rw [List.cons_append, feed_cons, turn_whole hs hall.1 (by simpa using hlen), if_pos hok]
      exact (feed_ground (s := { s with utf8 := [], state := .ground }) rfl hg hm rest).emit rfl
    · have hpos := List.length_pos_of_ne_nil hlast
      rw [List.length_cons] at hlen
      rw [List.cons_append, feed_cons, turn_stash hs hall.1 (by simp; omega)]
      refine (Alike.emit (ih (s := { s with utf8 := s.utf8 ++ [b] }) hs hm hlast hall.2 ?_ ?_) rfl).trans ?_
      · simp
        omega
      · simpa using hok
      · simp only [List.append_assoc]
        exact .refl _

theorem feed_part {cs : List UInt8} (hs : s.state = .utf8) (hall : cs.all isCont = true)
    (hlen : s.utf8.length + cs.length < s.utf8Need) : s.feed cs = ({ s with utf8 := s.utf8 ++ cs }, []) := by
  induction cs generalizing s with
  | nil => rw [feed_nil, List.append_nil]
  | cons b cs ih =>
    rw [List.all_cons, Bool.and_eq_true] at hall
    rw [List.length_cons] at hlen
    have hmore := ih (s := { s with utf8 := s.utf8 ++ [b] }) hs hall.2 (by simp; omega)
    rw [feed_cons, turn_stash hs hall.1 (by simp; omega)]
    simp only
    rw [hmore]
    simp [emit]

def Cut (s : Scanner) (b : UInt8) (rest : List UInt8) : Prop :=
  Alike (s.feed (b :: rest)) (emit (s.feed [b]).2 ((s.feed [b]).1.feed rest))

theorem cut_of_taken {items : List Seq} (h : ∀ rest, s.turn b rest = (s', items, rest)) (rest : List UInt8) :
    Cut s b rest := by
  unfold Cut
  rw [feed_cons, feed_cons, h, h, feed_nil]
  simp only [emit, List.append_nil]
  exact .refl _

theorem emit_emit (items items' : List Seq) (p : Scanner × List Seq) :
    emit items (emit items' p) = emit (items ++ items') p := by
  simp only [emit, List.append_assoc]

theorem isCont_of_bind {lead least : ℕ} {cs : List UInt8} {k : Char → Option (List Char)}
    (h : ((charOf lead least cs).bind k).isSome = true) : cs.all isCont = true := by
  obtain ⟨chars, hchars⟩ := Option.isSome_iff_exists.mp h
  obtain ⟨c, hc, -⟩ := Option.bind_eq_some_iff.mp hchars
  unfold charOf at hc
  simp only at hc
  split at hc
  · rename_i hall
    exact hall.1
  · cases hc

theorem isCont_of_fromUtf8 {cs : List UInt8} (hb : 0xC2 ≤ b) (hlen : cs.length + 1 = Vt.utf8Need b)
    (h : (fromUtf8 (b :: cs)).isSome = true) : cs.all isCont = true := by
  have hascii : ¬ b < 0x80 := by
    simp only [UInt8.lt_iff_toNat_lt, UInt8.le_iff_toNat_le] at hb ⊢
    simp at hb ⊢
    omega
  unfold fromUtf8 at h
  rw [if_neg hascii] at h
  have hlast {rest : List UInt8} {n : ℕ} (hneed : Vt.utf8Need b = n) (hn : rest.length + n = Vt.utf8Need b) :
    rest = [] :=
    List.length_eq_zero_iff.mp (by omega)
  split at h
  · rename_i c₁ rest hneed
    obtain rfl := hlast hneed hlen
    exact isCont_of_bind h
  · rename_i c₁ c₂ rest hneed
    obtain rfl := hlast hneed hlen
    exact isCont_of_bind h
  · rename_i c₁ c₂ c₃ rest hneed
    obtain rfl := hlast hneed hlen
    exact isCont_of_bind h
  · cases h

theorem textRun_lead (hprint : ¬ isPrint b = true) (hlead : 0xC2 ≤ b) (rest : List UInt8) : textRun (b :: rest) =
    if Vt.utf8Need b = 0 ∨ (b :: rest).length < Vt.utf8Need b then ([], b :: rest)
    else if (fromUtf8 ((b :: rest).take (Vt.utf8Need b))).isNone then ([], b :: rest)
    else ((b :: rest).take (Vt.utf8Need b) ++ (textRun (rest.drop (Vt.utf8Need b - 1))).1,
      (textRun (rest.drop (Vt.utf8Need b - 1))).2) := by
  rw [textRun, if_neg hprint, if_pos hlead]

theorem cut_lead (hs : s.state = .ground) (hesc : b ≠ 0x1B) (hprint : ¬ isPrint b = true) (hlead : 0xC2 ≤ b)
    (rest : List UInt8) : Cut s b rest := by
  have hrun := textRun_lead hprint hlead
  by_cases hneed : Vt.utf8Need b = 0
  · exact cut_of_taken (fun rest => turn_alone hs hesc (by rw [hrun, if_pos (.inl hneed)])
      fun h => absurd hneed (Nat.ne_of_gt h.1)) rest
  have hpos : 0 < Vt.utf8Need b := Nat.pos_of_ne_zero hneed
  have htwo : 1 < Vt.utf8Need b := by
    grind [Vt.utf8Need]
  -- The byte alone is stashed.
  let g : Scanner := { s with utf8 := [b], utf8Need := Vt.utf8Need b, state := .utf8 }
  have hone : s.feed [b] = (g, []) := by
    have hcut : textRun [b] = ([], [b]) := by rw [hrun, if_pos (.inr htwo)]
    rw [feed_cons]
    unfold turn groundTurn
    simp only [hs]
    rw [if_neg hesc, if_pos (.inr hlead), hcut, if_neg (fun h => h rfl), if_pos ⟨hpos, htwo, rfl⟩, feed_nil]
    rfl
  have hglen : g.utf8.length = 1 := rfl
  have hgneed : g.utf8Need = Vt.utf8Need b := rfl
  -- Where it starts no character, it is dropped.
  have hdrop (hnone : (textRun (b :: rest)).1 = [])
      (hcut : ¬ ((b :: rest).length < Vt.utf8Need b ∧ rest.all isCont))
      (hbad : ∀ cs r, rest = cs ++ r → cs.length + 1 = Vt.utf8Need b → fromUtf8 (b :: cs) = none) :
      Alike (s.feed (b :: rest)) (emit [] (g.feed rest)) := by
    rw [feed_cons, turn_alone hs hesc hnone (fun h => hcut h.2), if_pos (.inr hlead)]
    refine (Alike.emit (feed_drop (s := g) hs rfl rfl (List.cons_ne_nil _ _) htwo ?_ ?_) rfl).symm
    · intro cs r hr hl
      exact hbad cs r hr (by rw [hglen, hgneed] at hl; omega)
    · intro h
      refine hcut ⟨?_, h.2⟩
      have hl : 1 + rest.length < Vt.utf8Need b := h.1
      rw [List.length_cons]
      omega
  unfold Cut
  rw [hone]
  by_cases hlen : (b :: rest).length < Vt.utf8Need b
  · have hnone : textRun (b :: rest) = ([], b :: rest) := by rw [hrun, if_pos (.inr hlen)]
    cases hall : rest.all isCont with
    | true =>
      have hpart : g.feed rest = ({ g with utf8 := [b] ++ rest }, []) := by
        refine feed_part (s := g) rfl hall ?_
        rw [List.length_cons] at hlen
        simp only [g, List.length_singleton]
        omega
      rw [hpart, feed_cons]
      unfold turn groundTurn
      simp only [hs]
      rw [if_neg hesc, if_pos (.inr hlead), hnone, if_neg (fun h => h rfl), if_pos ⟨hpos, hlen, hall⟩, feed_nil]
      exact .refl _
    | false =>
      refine hdrop (by rw [hnone]) (fun h => Bool.false_ne_true (hall.symm.trans h.2)) fun cs r hr hl => ?_
      have hshort := congrArg List.length hr
      rw [List.length_append] at hshort
      rw [List.length_cons] at hlen
      omega
  · have htake : (b :: rest).take (Vt.utf8Need b) = b :: rest.take (Vt.utf8Need b - 1) := by
      obtain ⟨k, hk⟩ := Nat.exists_eq_succ_of_ne_zero hneed
      rw [hk, List.take_succ_cons, Nat.succ_sub_one]
    rw [List.length_cons] at hlen
    have hcs : (rest.take (Vt.utf8Need b - 1)).length + 1 = Vt.utf8Need b := by
      rw [List.length_take]
      omega
    have hlong : ¬ (Vt.utf8Need b = 0 ∨ (b :: rest).length < Vt.utf8Need b) := by
      rw [List.length_cons]
      omega
    cases hok : fromUtf8 ((b :: rest).take (Vt.utf8Need b)) with
    | none =>
      have hnone : textRun (b :: rest) = ([], b :: rest) := by rw [hrun, if_neg hlong, hok]; rfl
      refine hdrop (by rw [hnone]) (fun h => hlong (.inr h.1)) fun cs r hr hl => ?_
      have hsame : cs = rest.take (Vt.utf8Need b - 1) := by
        rw [hr, ← hl, Nat.add_sub_cancel, List.take_left]
      rwa [htake, ← hsame] at hok
    | some chars =>
      rw [htake] at hok
      have hsome : textRun (b :: rest) = (b :: rest.take (Vt.utf8Need b - 1) ++
          (textRun (rest.drop (Vt.utf8Need b - 1))).1, (textRun (rest.drop (Vt.utf8Need b - 1))).2) := by
        rw [hrun, if_neg hlong, htake, hok]
        rfl
      have hsplit := List.take_append_drop (Vt.utf8Need b - 1) rest
      generalize rest.take (Vt.utf8Need b - 1) = cs at hok hsome hcs hsplit
      generalize rest.drop (Vt.utf8Need b - 1) = r at hsome hsplit
      have hisSome : (fromUtf8 (b :: cs)).isSome = true := by rw [hok]; rfl
      have hne : cs ≠ [] := by
        rintro rfl
        rw [List.length_nil] at hcs
        omega
      have hwhole := feed_whole (s := g) hs rfl rfl hne (isCont_of_fromUtf8 hlead hcs hisSome)
        (by rw [hglen, hgneed]; omega) hisSome r
      have hall := feed_run hs (b :: rest)
      rw [hsome] at hall
      rw [← hsplit] at hall ⊢
      refine hall.trans (Alike.trans ?_ (hwhole.trans ((feed_run hs r).emit rfl)).symm)
      rw [emit_emit]
      exact (Alike.refl _).emit (spell_text_append (b :: cs) _)

theorem cut_ground (hs : s.state = .ground) (b : UInt8) (rest : List UInt8) : Cut s b rest := by
  by_cases hesc : b = 0x1B
  · have htaken (rest : List UInt8) : s.turn b rest = ({ s with state := .esc }, [], rest) := by
      unfold turn groundTurn
      simp only [hs, hesc, if_true]
    exact cut_of_taken htaken rest
  by_cases hprint : isPrint b
  · have hrun (rest : List UInt8) : textRun (b :: rest) = (b :: (textRun rest).1, (textRun rest).2) := by
      rw [textRun, if_pos hprint]
    have hnil : textRun ([] : List UInt8) = ([], []) := by rw [textRun]
    have hone : s.feed [b] = (s, [.text [b]]) := by
      rw [feed_cons, turn_of_run hs (by rw [hrun]; exact List.cons_ne_nil _ _), hrun, hnil, feed_nil]
      rfl
    have hall := feed_run hs (b :: rest)
    have hmore := (feed_run hs rest).after [.text [b]]
    rw [hrun] at hall
    unfold Cut
    rw [hone]
    refine hall.trans (Alike.trans ?_ hmore.symm)
    rw [emit_emit]
    exact (Alike.refl _).emit (spell_text_append [b] _)
  by_cases hlead : 0xC2 ≤ b
  · exact cut_lead hs hesc hprint hlead rest
  · have hrun (rest : List UInt8) : (textRun (b :: rest)).1 = [] := by
      rw [textRun, if_neg hprint, if_neg hlead]
    have hneed : Vt.utf8Need b = 0 := by
      grind [Vt.utf8Need]
    exact cut_of_taken (fun rest => turn_alone hs hesc (hrun rest) fun h => absurd hneed (Nat.ne_of_gt h.1)) rest

theorem turn_cases (hs : s.state ≠ .ground) (b : UInt8) : ∃ s' items, (∀ rest, s.turn b rest = (s', items, rest)) ∨
    lookAhead s.state = 1 ∧ lookAhead s'.state = 0 ∧ ∀ rest, s.turn b rest = (s', items, b :: rest) := by
  unfold turn
  cases hst : s.state with
  | ground => exact absurd hst hs
  | utf8 | escUtf8 =>
    cases hb : isCont b with
    | false => exact ⟨{ s with utf8 := [], state := .ground }, dropLead s.utf8, .inr ⟨rfl, rfl, fun rest => by
        simp only [utf8Turn, hb, Bool.not_false, if_true]⟩⟩
    | true =>
      refine ⟨(s.utf8Turn b []).1, (s.utf8Turn b []).2.1, .inl fun rest => ?_⟩
      simp only [utf8Turn, hb, Bool.not_true, Bool.false_eq_true, if_false]
      split <;> rfl
  | esc | escInter | csi | osc | dcs | apc | skip | ss3 | x10Mouse => exact ⟨_, _, .inl fun rest => rfl⟩
  | oscEsc | dcsEsc | apcEsc =>
    by_cases hb : b = 0x5C
    · exact ⟨_, _, .inl fun rest => if_pos hb⟩
    · exact ⟨_, _, .inr ⟨rfl, lookAhead_pushBody _ _ _ rfl, fun rest => if_neg hb⟩⟩
  | skipEsc =>
    by_cases hb : b = 0x5C
    · exact ⟨_, _, .inl fun rest => if_pos hb⟩
    · exact ⟨_, _, .inr ⟨rfl, lookAhead_pushBody _ _ _ rfl, fun rest => if_neg hb⟩⟩
  | maybeApc =>
    by_cases hb : b = 0x47
    · exact ⟨_, _, .inl fun rest => if_pos hb⟩
    · exact ⟨_, _, .inr ⟨rfl, rfl, fun rest => if_neg hb⟩⟩
  | maybeDcs =>
    by_cases hb : b = 0x3E
    · exact ⟨_, _, .inr ⟨rfl, rfl, fun rest => if_pos hb⟩⟩
    · exact ⟨_, _, .inr ⟨rfl, rfl, fun rest => if_neg hb⟩⟩
  | maybeOsc =>
    by_cases hb : 0x30 ≤ b ∧ b ≤ 0x39
    · exact ⟨_, _, .inr ⟨rfl, rfl, fun rest => if_pos hb⟩⟩
    · exact ⟨_, _, .inr ⟨rfl, rfl, fun rest => if_neg hb⟩⟩

theorem cut_steady (hs : lookAhead s.state = 0) (b : UInt8) (rest : List UInt8) : Cut s b rest := by
  by_cases hground : s.state = .ground
  · exact cut_ground hground b rest
  · obtain ⟨s', items, htaken | ⟨hahead, -⟩⟩ := turn_cases hground b
    · exact cut_of_taken htaken rest
    · rw [hs] at hahead
      cases hahead

theorem cut (s : Scanner) (b : UInt8) (rest : List UInt8) : Cut s b rest := by
  by_cases hground : s.state = .ground
  · exact cut_ground hground b rest
  · obtain ⟨s', items, htaken | ⟨-, hs', hagain⟩⟩ := turn_cases hground b
    · exact cut_of_taken htaken rest
    · have hmore := cut_steady hs' b rest
      unfold Cut
      rw [feed_cons, feed_cons s b [], hagain, hagain]
      refine (hmore.after items).trans ?_
      rw [emit_emit]
      exact .refl _

theorem feed_append (s : Scanner) (a c : List UInt8) :
    Alike (s.feed (a ++ c)) (emit (s.feed a).2 ((s.feed a).1.feed c)) := by
  induction a generalizing s with
  | nil =>
    rw [feed_nil]
    exact .refl _
  | cons b a ih =>
    have hall := cut s b (a ++ c)
    have hfirst := cut s b a
    have hmore := (ih (s.feed [b]).1).after (s.feed [b]).2
    rw [emit_emit] at hmore
    refine hall.trans (hmore.trans ?_)
    have hsame : Agree (((s.feed [b]).1.feed a).1.feed c) ((s.feed (b :: a)).1.feed c) := feed_same hfirst.1.symm c
    refine ⟨hsame.1, ?_⟩
    simp only [emit, spell_append, hsame.2]
    have hitems := hfirst.2
    simp only [emit, spell_append] at hitems
    rw [hitems, List.append_assoc]

theorem feeds_flatten (s : Scanner) (chunks : List (List UInt8)) : Alike (s.feeds chunks) (s.feed chunks.flatten) := by
  induction chunks generalizing s with
  | nil =>
    rw [List.flatten_nil, feed_nil]
    exact .refl _
  | cons chunk chunks ih =>
    rw [List.flatten_cons]
    exact (Alike.emit (ih (s.feed chunk).1) rfl).trans (feed_append s chunk chunks.flatten).symm

end Scanner

/-- An item before others, joined to a text that they start with when it is a text. -/
def join (item : Seq) (items : List Seq) : List Seq :=
  match item, items with
  | .text t, .text t' :: items => .text (t ++ t') :: items
  | item, items => item :: items

def merge (items : List Seq) : List Seq := items.foldr join []

def Full (items : List Seq) : Prop := ∀ t, Seq.text t ∈ items → t ≠ []

theorem Full.nil : Full [] := fun _ h => by cases h

theorem Full.append {items items' : List Seq} (h : Full items) (h' : Full items') : Full (items ++ items') :=
  fun t ht => (List.mem_append.mp ht).elim (h t) (h' t)

theorem join_text_append {t t' : List UInt8} (items : List Seq) :
    join (.text (t ++ t')) items = join (.text t) (join (.text t') items) := by
  cases items with
  | nil => rfl
  | cons item items =>
    cases item with
    | text u => simp [join]
    | _ => rfl

theorem foldr_text {t : List UInt8} (h : t ≠ []) (items : List Seq) :
    (t.map fun b => Seq.text [b]).foldr join items = join (.text t) items := by
  induction t with
  | nil => exact absurd rfl h
  | cons b t ih =>
    by_cases ht : t = []
    · rw [ht]
      rfl
    · rw [List.map_cons, List.foldr_cons, ih ht, ← join_text_append]
      rfl

theorem merge_spell {items : List Seq} (h : Full items) : merge (spell items) = merge items := by
  induction items with
  | nil => rfl
  | cons item items ih =>
    have hmore := ih fun t ht => h t (List.mem_cons_of_mem _ ht)
    unfold merge spell at hmore ⊢
    rw [List.flatMap_cons, List.foldr_append, hmore, List.foldr_cons]
    cases item with
    | text t => exact foldr_text (h t List.mem_cons_self) _
    | _ => rfl

namespace Scanner

theorem full_strayCtl (b : UInt8) : Full (strayCtl b) := by
  unfold strayCtl
  split <;> simp [Full]

theorem full_dropLead (stash : List UInt8) : Full (dropLead stash) := by
  intro t ht
  obtain ⟨b, -, hb⟩ := List.mem_map.mp ht
  cases hb

theorem Full.ite {c : Prop} [Decidable c] {p q : Scanner × List Seq} (h : Full p.2) (h' : Full q.2) :
    Full (if c then p else q).2 := by
  split
  · exact h
  · exact h'

theorem full_escOutput (s : Scanner) (b : UInt8) : Full (s.escOutput b).2 := by
  unfold escOutput
  repeat' apply Full.ite
  all_goals first | exact .nil | exact full_strayCtl _ | simp [Full]

theorem full_escInput (s : Scanner) (b : UInt8) : Full (s.escInput b).2 := by
  unfold escInput
  repeat' apply Full.ite
  all_goals first | exact .nil | simp [Full]

theorem full_csiTurn (s : Scanner) (b : UInt8) : Full (s.csiTurn b).2 := by
  unfold csiTurn
  repeat' apply Full.ite
  all_goals first | exact .nil | simp [Full]

theorem full_turn (s : Scanner) (b : UInt8) (rest : List UInt8) : Full (s.turn b rest).2.1 := by
  unfold turn
  split
  · unfold groundTurn
    simp only
    split_ifs with h₁ h₂ h₃
    all_goals simp [Full, *]
  case h_2 | h_3 =>
    unfold utf8Turn
    simp only
    repeat' split
    all_goals first | exact full_dropLead _ | simp [Full]
  case h_4 =>
    unfold taking escTurn
    simp only
    split
    · exact .nil
    split
    · split
      · exact .nil
      · exact full_escOutput s b
    · split
      · simp [Full]
      split
      · exact .nil
      · exact full_escInput s b
  case h_5 =>
    unfold escInterTurn
    refine Full.ite .nil (Full.ite ?_ (full_strayCtl b))
    simp [Full]
  case h_6 => exact full_csiTurn s b
  case h_7 =>
    unfold taking oscTurn bodyTurn
    split_ifs
    all_goals simp [Full]
  case h_9 | h_11 | h_13 =>
    unfold taking bodyTurn
    split_ifs
    all_goals exact .nil
  case h_8 | h_10 | h_12 =>
    unfold bodyEscTurn
    split_ifs
    all_goals simp [Full]
  case h_14 =>
    unfold skipEscTurn
    split_ifs
    all_goals exact .nil
  case h_15 | h_16 | h_17 =>
    simp only [maybeApcTurn, maybeDcsTurn, maybeOscTurn]
    split_ifs
    all_goals simp [Full]
  case h_18 => simp [Full, taking]
  case h_19 =>
    unfold taking x10Turn
    split
    all_goals simp [Full]

theorem full_feed (s : Scanner) (input : List UInt8) : Full (s.feed input).2 := by
  induction s, input using feed.induct with
  | case1 s =>
    rw [feed_nil]
    exact .nil
  | case2 s b rest next =>
    rename_i ih
    rw [feed_cons]
    exact Full.append (full_turn s b rest) ih

theorem full_feeds (s : Scanner) (chunks : List (List UInt8)) : Full (s.feeds chunks).2 := by
  induction chunks generalizing s with
  | nil => exact .nil
  | cons chunk chunks ih => exact Full.append (full_feed s chunk) (ih _)

theorem merge_feeds (s : Scanner) (chunks : List (List UInt8)) :
    merge (s.feeds chunks).2 = merge (s.feed chunks.flatten).2 := by
  rw [← merge_spell (full_feeds s chunks), ← merge_spell (full_feed s chunks.flatten), (feeds_flatten s chunks).2]

end Scanner

end Vt

end Dekit
