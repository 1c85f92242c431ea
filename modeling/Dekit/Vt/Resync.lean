import Dekit.Vt.Resume

namespace Dekit

namespace Vt

variable {s s' : Scanner} {b : UInt8} {rest w x : List UInt8} {chunks : List (List UInt8)}

/-- The states outside a body that an output scanner can be in. -/
def State.outside : State → Bool
  | .ground | .utf8 | .esc | .escInter | .csi => true
  | _ => false

namespace Scanner

/-- A sequence: a fresh scanner comes to rest after it and not earlier. -/
def Complete (w : List UInt8) : Prop :=
  ∃ x, w = 0x1B :: x ∧ ((new .output).feed w).1.state = .ground ∧
    ∀ p q, x = p ++ q → q ≠ [] → ((new .output).feed (0x1B :: p)).1.state ≠ .ground

def abandoned (s : Scanner) : List Seq := if s.state = .utf8 then dropLead s.utf8 else []

/-- In whatever chunks they come, the bytes are scanned as by a fresh scanner. -/
def Resyncs (s : Scanner) (w : List UInt8) : Prop :=
  ∀ chunks : List (List UInt8), chunks.flatten = w →
    (s.feeds chunks).2 = s.abandoned ++ ((new .output).feeds chunks).2 ∧
      (s.feeds chunks).1.core = ((new .output).feeds chunks).1.core

def escaped (s : Scanner) : Scanner := { s with state := .esc }

theorem turn_ground_esc (hs : s.state = .ground) (rest : List UInt8) : s.turn 0x1B rest = (s.escaped, [], rest) := by
  unfold turn groundTurn
  rw [hs]
  exact if_pos rfl

theorem turn_escInter_esc (hs : s.state = .escInter) (rest : List UInt8) :
    s.turn 0x1B rest = ({ s with state := .ground }, [.ctl 0x1B], rest) := by
  unfold turn
  rw [hs]
  rfl

theorem feed_outside_esc (hm : s.mode = .output) (hout : s.state.outside = true) (hinter : s.state ≠ .escInter)
    (x : List UInt8) : ∃ s' : Scanner, s'.core = (new .output).escaped.core ∧
      s.feed (0x1B :: x) = emit s.abandoned (s'.feed x) := by
  have hesc {s' : Scanner} (hm' : s'.mode = .output) : s'.escaped.core = (new .output).escaped.core := by
    simp only [core, escaped, hm']
    rfl
  cases hs : s.state with
  | ground =>
    refine ⟨s.escaped, hesc hm, ?_⟩
    rw [feed_cons, turn_ground_esc hs]
    simp [abandoned, hs]
  | utf8 =>
    refine ⟨({ s with utf8 := [], state := .ground } : Scanner).escaped, hesc hm, ?_⟩
    rw [feed_cons, turn_stray hs (by decide)]
    simp only
    rw [feed_cons, turn_ground_esc rfl, emit_emit, List.append_nil]
    simp [abandoned, hs]
  | esc =>
    refine ⟨s, by rw [← hesc hm, escaped, ← hs], ?_⟩
    have hturn : s.turn 0x1B x = (s, [], x) := by
      unfold turn
      rw [hs]
      simp [escTurn, hm, taking]
    rw [feed_cons, hturn]
    simp [abandoned, hs]
  | csi =>
    refine ⟨s.escaped, hesc hm, ?_⟩
    have hturn : s.turn 0x1B x = (s.escaped, [], x) := by
      unfold turn
      rw [hs]
      rfl
    rw [feed_cons, hturn]
    simp [abandoned, hs]
  | escInter => exact absurd hs hinter
  | _ => simp [State.outside, hs] at hout

theorem feed_fresh_esc (x : List UInt8) : (new .output).feed (0x1B :: x) = (new .output).escaped.feed x := by
  rw [feed_cons, turn_ground_esc rfl]
  rfl

theorem feeds_cons (s : Scanner) (chunk : List UInt8) (chunks : List (List UInt8)) :
    s.feeds (chunk :: chunks) = emit (s.feed chunk).2 ((s.feed chunk).1.feeds chunks) := rfl

theorem feeds_core (h : s.core = s'.core) (chunks : List (List UInt8)) :
    (s.feeds chunks).1.core = (s'.feeds chunks).1.core := by
  induction chunks generalizing s s' with
  | nil => exact h
  | cons chunk chunks ih => exact ih (feed_same h chunk).1

theorem resyncs (hm : s.mode = .output) (hout : s.state.outside = true) (hinter : s.state ≠ .escInter)
    (x : List UInt8) : Resyncs s (0x1B :: x) := by
  intro chunks hchunks
  induction chunks with
  | nil => cases hchunks
  | cons chunk chunks ih =>
    cases chunk with
    | nil =>
      rw [feeds_cons, feeds_cons, feed_nil, feed_nil]
      exact ih hchunks
    | cons b chunk =>
      obtain ⟨rfl, -⟩ := List.cons.inj hchunks
      obtain ⟨s', hcore, hfeed⟩ := feed_outside_esc hm hout hinter chunk
      obtain ⟨hafter, hitems⟩ := feed_same hcore chunk
      rw [feeds_cons, feeds_cons, hfeed, feed_fresh_esc]
      simp only [emit]
      rw [hitems, List.append_assoc, feeds_same hafter]
      exact ⟨rfl, feeds_core hafter chunks⟩

def Plain (items : List Seq) : Prop := Seq.ctl 0x1B ∉ items

theorem Plain.nil : Plain [] := List.not_mem_nil

theorem Plain.ite {α : Type} {c : Prop} [Decidable c] {p q : α × List Seq} (h : c → Plain p.2)
    (h' : ¬ c → Plain q.2) : Plain (if c then p else q).2 := by
  split
  · rename_i hc
    exact h hc
  · rename_i hc
    exact h' hc

theorem plain_one {item : Seq} (h : item ≠ .ctl 0x1B) : Plain [item] := fun hmem => h (List.mem_singleton.mp hmem).symm

theorem plain_dropLead (stash : List UInt8) : Plain (dropLead stash) := by
  intro h
  obtain ⟨b, hb, heq⟩ := List.mem_map.mp h
  have h8d := (List.mem_filter.mp hb).2
  cases heq
  revert h8d
  decide

theorem plain_ctl (hb : b ≠ 0x1B) : Plain [.ctl b] := plain_one fun h => hb (Seq.ctl.inj h)

theorem plain_strayCtl (hb : b ≠ 0x1B) : Plain (strayCtl b) := by
  unfold strayCtl
  split
  · exact plain_ctl hb
  · exact .nil

theorem plain_turn (hm : s.mode = .output) (hs : s.state ≠ .escInter) (b : UInt8) (rest : List UInt8) :
    Plain (s.turn b rest).2.1 := by
  unfold turn
  cases hst : s.state with
  | escInter => exact absurd hst hs
  | ground =>
    simp only [groundTurn]
    split
    · exact .nil
    rename_i hb
    split
    · split
      · exact plain_one Seq.noConfusion
      · split <;> exact .nil
    · split
      · exact plain_ctl hb
      · exact .nil
  | utf8 | escUtf8 =>
    simp only [utf8Turn]
    split
    · exact plain_dropLead _
    split
    · split
      · simp [Plain, hst]
      · exact plain_dropLead _
    · exact .nil
  | esc =>
    simp only [taking, escTurn, hm, escOutput]
    apply Plain.ite fun _ => .nil
    intro _
    apply Plain.ite fun _ => .nil
    intro hb
    iterate 5 apply Plain.ite fun _ => .nil; intro _
    apply Plain.ite fun _ => plain_one Seq.noConfusion
    exact fun _ => plain_strayCtl hb
  | csi =>
    simp only [taking, csiTurn]
    iterate 6 apply Plain.ite fun _ => .nil; intro _
    apply Plain.ite fun _ => plain_one Seq.noConfusion
    intro _
    apply Plain.ite fun _ => .nil
    intro hb
    apply Plain.ite fun _ => plain_ctl hb
    intro _
    exact Plain.ite (fun _ => .nil) fun _ => .nil
  | osc =>
    simp only [taking, oscTurn, bodyTurn]
    apply Plain.ite fun _ => plain_one Seq.noConfusion
    intro _
    exact Plain.ite (fun _ => .nil) fun _ => .nil
  | dcs | apc | skip => exact Plain.ite (fun _ => .nil) fun _ => .nil
  | oscEsc | dcsEsc | apcEsc =>
    simp only [bodyEscTurn]
    split
    · exact plain_one Seq.noConfusion
    · exact .nil
  | skipEsc =>
    simp only [skipEscTurn]
    split <;> exact .nil
  | maybeApc | maybeDcs | maybeOsc =>
    simp only [maybeApcTurn, maybeDcsTurn, maybeOscTurn]
    split
    · exact .nil
    · exact plain_one Seq.noConfusion
  | ss3 => exact plain_one Seq.noConfusion
  | x10Mouse =>
    simp only [taking, x10Turn]
    split
    · exact plain_one Seq.noConfusion
    · exact .nil

theorem turn_steady (hs : lookAhead s.state = 0) (b : UInt8) : (s.turn b []).2.2 = [] := by
  unfold turn
  cases hst : s.state with
  | ground =>
    simp only [groundTurn]
    split
    · rfl
    split
    · split
      · rename_i hrun
        have hlen := textRun_length [b] hrun
        exact List.length_eq_zero_iff.mp (Nat.lt_one_iff.mp hlen)
      · split <;> rfl
    · rfl
  | esc | escInter | csi | osc | dcs | apc | skip | ss3 | x10Mouse => rfl
  | _ =>
    rw [hst] at hs
    cases hs

theorem turn_ahead_inter (hs : lookAhead s.state = 1) (b : UInt8) (rest : List UInt8) :
    (s.turn b rest).1.state ≠ .escInter := by
  unfold turn
  cases hst : s.state with
  | utf8 | escUtf8 =>
    simp only [utf8Turn]
    repeat' split
    all_goals simp [hst]
  | oscEsc | dcsEsc | apcEsc =>
    simp only [bodyEscTurn, pushBody]
    repeat' split
    all_goals simp
  | skipEsc =>
    simp only [skipEscTurn, pushBody]
    repeat' split
    all_goals simp
  | maybeApc | maybeDcs | maybeOsc =>
    simp only [maybeApcTurn, maybeDcsTurn, maybeOscTurn]
    split <;> simp
  | _ =>
    rw [hst] at hs
    cases hs

theorem Plain.append {items items' : List Seq} (h : Plain items) (h' : Plain items') : Plain (items ++ items') :=
  fun hmem => (List.mem_append.mp hmem).elim h h'

theorem feed_steady (hs : lookAhead s.state = 0) (b : UInt8) : s.feed [b] = ((s.turn b []).1, (s.turn b []).2.1) :=
  feed_one (congrArg (fun rest => ((s.turn b []).1, (s.turn b []).2.1, rest)) (turn_steady hs b))

theorem plain_feed (hm : s.mode = .output) (hs : s.state ≠ .escInter) (b : UInt8) : Plain (s.feed [b]).2 := by
  have hsteady {s : Scanner} (hm : s.mode = .output) (hs : s.state ≠ .escInter) (hlook : lookAhead s.state = 0) :
      Plain (s.feed [b]).2 := by
    rw [feed_steady hlook]
    exact plain_turn hm hs b []
  by_cases hlook : lookAhead s.state = 0
  · exact hsteady hm hs hlook
  · have hone : lookAhead s.state = 1 := by have := lookAhead_le s.state; omega
    have hground : s.state ≠ .ground := by
      intro h
      rw [h] at hone
      cases hone
    have hplain := plain_turn hm hs b []
    have hinter := turn_ahead_inter hone b []
    have hmode := turn_mode s b []
    obtain ⟨s', items, htaken | ⟨-, hlook', hagain⟩⟩ := turn_cases hground b
    · rw [htaken] at hplain
      rw [feed_one (htaken [])]
      exact hplain
    · rw [hagain] at hplain hinter hmode
      rw [feed_again (hagain [])]
      exact hplain.append (hsteady (hmode.trans hm) hinter hlook')

theorem feed_esc_ctl (hm : s.mode = .output) (h : Seq.ctl 0x1B ∈ (s.feed [b]).2) :
    (s.feed [b]).2 = [.ctl 0x1B] ∧ (s.feed [b]).1.state = .ground := by
  by_cases hinter : s.state = .escInter
  · have hfeed : s.feed [b] = s.escInterTurn b := feed_taking (by unfold turn; simp only [hinter])
    rw [hfeed] at h ⊢
    unfold escInterTurn at h ⊢
    split at h
    · cases h
    · split at h
      · simp at h
      · rename_i hcont hfinal
        rw [if_neg hcont, if_neg hfinal]
        by_cases hb : b = 0x1B
        · subst hb
          exact ⟨rfl, rfl⟩
        · exact absurd h (plain_strayCtl hb)
  · exact absurd h (plain_feed hm hinter b)

theorem ctl_of_spell {items : List Seq} {c : UInt8} (h : Seq.ctl c ∈ spell items) : Seq.ctl c ∈ items := by
  obtain ⟨item, hitem, hc⟩ := List.mem_flatMap.mp h
  cases item with
  | text t => simp at hc
  | _ =>
    rw [List.mem_singleton] at hc
    rw [hc]
    exact hitem

theorem esc_ctl_last (hm : s.mode = .output)
    (hrest : ∀ p q, x = p ++ q → q ≠ [] → (s.feed p).1.state ≠ .ground) {items : List Seq}
    (h : spell (s.feed x).2 = .ctl 0x1B :: items) : items = [] := by
  induction x generalizing s with
  | nil =>
    rw [feed_nil] at h
    cases h
  | cons b x ih =>
    have hspell := (cut s b x).2.symm.trans h
    simp only [emit, spell_append] at hspell
    by_cases hfirst : (s.feed [b]).2 = []
    · rw [hfirst] at hspell
      refine ih ((feed_mode s [b]).trans hm) (fun p q hpq hq => ?_) hspell
      have hcut := (cut s b p).1
      have hlate := hrest (b :: p) q (by rw [hpq]; rfl) hq
      rw [← core_state, hcut, core_state] at hlate
      exact hlate
    · obtain ⟨item, more, hmore⟩ := List.exists_cons_of_ne_nil hfirst
      have hne : spell (s.feed [b]).2 ≠ [] := fun hnil => hfirst (spell_eq_nil (full_feed s [b]) hnil)
      obtain ⟨c, cs, hcs⟩ := List.exists_cons_of_ne_nil hne
      rw [hcs] at hspell
      obtain ⟨hc, hcs'⟩ := List.cons.inj hspell
      have hmem : Seq.ctl 0x1B ∈ (s.feed [b]).2 := ctl_of_spell (by rw [hcs, hc]; exact List.mem_cons_self)
      obtain ⟨hitems, hground⟩ := feed_esc_ctl hm hmem
      have hx : x = [] := by
        by_contra hx
        exact hrest [b] x rfl hx hground
      subst hx
      rw [hitems] at hcs
      have hnil : cs = [] := (List.cons.inj hcs).2.symm
      rw [hnil, feed_nil] at hcs'
      exact hcs'.symm

theorem feed_ground_print (hs : s.state = .ground) (hb : isPrint b = true) (rest : List UInt8) :
    (s.feed (b :: rest)).2 ≠ [] := by
  have hrun : (textRun (b :: rest)).1 ≠ [] := by
    rw [textRun, if_pos hb]
    exact List.cons_ne_nil _ _
  rw [feed_cons, turn_of_run hs hrun]
  exact List.cons_ne_nil _ _

theorem turn_esc_stray (hm : s.mode = .output) (hs : s.state = .esc) (hb : ¬ isPrint b = true) (hesc : b ≠ 0x1B)
    (rest : List UInt8) : s.turn b rest = ({ s with state := .ground }, strayCtl b, rest) := by
  unfold turn
  rw [hs]
  simp only [escTurn, hm, escOutput, taking]
  have hprint : isPrint b = true ↔ 0x20 ≤ b ∧ b ≤ 0x7E := by simp [isPrint]
  rw [hprint] at hb
  have hopen : b ≠ 0x5B := by rintro rfl; exact hb (by decide)
  have hinter : ¬ (0x20 ≤ b ∧ b ≤ 0x2F) := by
    simp only [UInt8.le_iff_toNat_le] at hb ⊢
    simp at hb ⊢
    omega
  have hfinal : ¬ (0x30 ≤ b ∧ b ≤ 0x7E) := by
    simp only [UInt8.le_iff_toNat_le] at hb ⊢
    simp at hb ⊢
    omega
  have hosc : b ≠ 0x5D := by rintro rfl; exact hb (by decide)
  have hdcs : b ≠ 0x50 := by rintro rfl; exact hb (by decide)
  have hapc : b ≠ 0x5F := by rintro rfl; exact hb (by decide)
  have hskip : ¬ (b = 0x58 ∨ b = 0x5E) := by rintro (rfl | rfl) <;> exact hb (by decide)
  rw [if_neg hopen, if_neg hesc, if_neg hinter, if_neg hosc, if_neg hdcs, if_neg hapc, if_neg hskip, if_neg hfinal]

theorem not_resyncs (hm : s.mode = .output) (hs : s.state = .escInter) (hw : Complete w) : ¬ Resyncs s w := by
  intro h
  obtain ⟨x, rfl, hend, hearly⟩ := hw
  obtain ⟨hitems, -⟩ := h [0x1B :: x] (List.append_nil _)
  have hab : s.abandoned = [] := by rw [abandoned, hs]; rfl
  simp only [feeds, List.append_nil, hab, List.nil_append] at hitems
  rw [feed_cons, turn_escInter_esc hs, feed_fresh_esc] at hitems
  rw [feed_fresh_esc] at hend
  simp only [feed_fresh_esc] at hearly
  have hground : ({ s with state := .ground } : Scanner).state = .ground := rfl
  have hgm : ({ s with state := .ground } : Scanner).mode = .output := hm
  generalize ({ s with state := .ground } : Scanner) = g at hitems hground hgm
  cases x with
  | nil =>
    rw [feed_nil] at hend
    cases hend
  | cons b x =>
    have hspell := congrArg spell hitems
    simp only [emit, spell_append] at hspell
    have hnone : spell (g.feed (b :: x)).2 = [] := esc_ctl_last rfl hearly hspell.symm
    have hnil := spell_eq_nil (full_feed _ _) hnone
    simp only [emit, hnil, List.append_nil] at hitems
    by_cases hb : isPrint b = true
    · exact feed_ground_print hground hb x hnil
    by_cases hesc : b = 0x1B
    · subst hesc
      have hsame : g.escaped.core = (new .output).escaped.core := by
        simp only [core, escaped, hgm]
        rfl
      have hturn : (new .output).escaped.turn 0x1B x = ((new .output).escaped, [], x) := rfl
      rw [feed_cons, turn_ground_esc hground] at hnil
      rw [feed_cons, hturn] at hitems
      have hitems' := (feed_same hsame x).2.symm.trans hnil
      simp only [emit, hitems', List.append_nil] at hitems
      cases hitems
    · have hturn := turn_esc_stray (s := (new .output).escaped) rfl rfl hb hesc
      have hx : x = [] := by
        by_contra hx
        apply hearly [b] x rfl hx
        rw [feed_one (hturn [])]
      subst hx
      rw [feed_one (hturn [])] at hitems
      have hctl : strayCtl b = [.ctl 0x1B] := hitems.symm
      apply plain_strayCtl hesc
      rw [hctl]
      exact List.mem_cons_self

/-- The output scanner starts over on an ESC, unless it is in an nF escape. -/
theorem resyncs_iff (chunks : List (List UInt8)) (w : List UInt8)
    (hout : ((new .output).feeds chunks).1.state.outside = true) (hw : Complete w) :
    Resyncs ((new .output).feeds chunks).1 w ↔ ((new .output).feeds chunks).1.state ≠ .escInter := by
  constructor
  · intro h hs
    exact not_resyncs (feeds_mode _ chunks) hs hw h
  · intro hs
    obtain ⟨x, rfl, -⟩ := hw
    exact resyncs (feeds_mode _ chunks) hout hs x

theorem feed_fresh_nF :
    (new .output).feed [0x1B, 0x28] = ({ new .output with state := .escInter, escInter := 0x28 }, []) := by
  rw [feed_fresh_esc]
  exact feed_one rfl

theorem complete_ris : Complete [0x1B, 0x63] := by
  refine ⟨[0x63], rfl, ?_, ?_⟩
  · rw [feed_fresh_esc, feed_one (s := (new .output).escaped) (b := 0x63) rfl]
    rfl
  · intro p q hpq hq
    cases p with
    | nil =>
      rw [feed_fresh_esc, feed_nil]
      exact State.noConfusion
    | cons b p =>
      have hlen := congrArg List.length hpq
      have hpos := List.length_pos_of_ne_nil hq
      simp only [List.length_append, List.length_cons, List.length_nil] at hlen
      omega

/-- A CSI cut short by a reset. -/
theorem resyncs_iff_csi : Resyncs ((new .output).feeds [[0x1B, 0x5B]]).1 [0x1B, 0x63] ↔
    ((new .output).feeds [[0x1B, 0x5B]]).1.state ≠ .escInter := by
  apply resyncs_iff _ _ _ complete_ris
  simp only [feeds]
  rw [feed_fresh_esc, feed_one rfl]
  rfl

/-- The reset after an nF escape cut short is printed. -/
theorem escInter_prints : ((new .output).feeds [[0x1B, 0x28]]).1.state.outside = true ∧ Complete [0x1B, 0x63] ∧
    ¬ Resyncs ((new .output).feeds [[0x1B, 0x28]]).1 [0x1B, 0x63] := by
  have hs : ((new .output).feeds [[0x1B, 0x28]]).1.state = .escInter := by
    simp only [feeds]
    rw [feed_fresh_nF]
  refine ⟨?_, complete_ris, not_resyncs (feeds_mode _ _) hs complete_ris⟩
  rw [hs]
  rfl

end Scanner

end Vt

end Dekit
