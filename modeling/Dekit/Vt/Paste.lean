import Dekit.Vt.Decode
import Dekit.Vt.Emit
import Dekit.Vt.Runs

/-! Pasted text, from the encoder to the decoder. -/

namespace Dekit

namespace Vt

open Term

variable {text : List Char} {c : Char} {s : Scanner} {items seqs : List Seq} {rest : List UInt8}

def pasteChar (c : Char) : List UInt8 :=
  if c = '\t' ∨ c = '\n' ∨ c = '\r' then [UInt8.ofNat c.toNat]
  else if c.toNat < 0x20 ∨ c = '\x7F' ∨ 0x80 ≤ c.toNat ∧ c.toNat < 0xA0 then []
  else String.utf8EncodeChar c

def pasteStart : List UInt8 := [0x1B, 0x5B, 0x32, 0x30, 0x30, 0x7E]

def pasteEnd : List UInt8 := [0x1B, 0x5B, 0x32, 0x30, 0x31, 0x7E]

/-- Pasted text for a program, between the marks when it asked for them. -/
def paste (text : List Char) (bracketed : Bool) : List UInt8 :=
  (if bracketed then pasteStart else []) ++ text.flatMap pasteChar ++ (if bracketed then pasteEnd else [])

/-- What a paste may hold of a text: no control characters but tabs and line ends. -/
def keptInPaste (c : Char) : Bool := c = '\t' ∨ c = '\n' ∨ c = '\r' ∨ isControl c = false

def unixLines : List Char → List Char
  | '\r' :: '\n' :: text => '\n' :: unixLines text
  | '\r' :: text => '\n' :: unixLines text
  | c :: text => c :: unixLines text
  | [] => []

/-- The same of what follows a CR, or nothing of the kind. -/
def unixLinesFrom (cr : Bool) : List Char → List Char
  | [] => []
  | c :: text =>
    if c = '\r' then '\n' :: unixLinesFrom true text
    else if c = '\n' ∧ cr = true then unixLinesFrom false text
    else c :: unixLinesFrom false text

/-- What is scanned of a character of a paste. -/
def pasteItems (c : Char) : List Seq :=
  if c = '\t' ∨ c = '\n' ∨ c = '\r' then [.ctl (UInt8.ofNat c.toNat)]
  else if isControl c then []
  else [.text (String.utf8EncodeChar c)]

theorem isControl_iff : isControl c = true ↔ c.toNat < 0x20 ∨ c = '\x7F' ∨ 0x80 ≤ c.toNat ∧ c.toNat < 0xA0 := by
  have hdel : c = '\x7F' ↔ c.toNat = 0x7F := by
    rw [← Char.toNat_inj]
    rfl
  unfold isControl
  rw [decide_eq_true_iff, hdel]
  omega

theorem pasteChar_eq (c : Char) : pasteChar c =
    if c = '\t' ∨ c = '\n' ∨ c = '\r' then [UInt8.ofNat c.toNat] else if isControl c then [] else String.utf8EncodeChar c := by
  unfold pasteChar
  simp only [isControl_iff]

theorem unixLinesFrom_eq (text : List Char) : unixLinesFrom false text = unixLines text := by
  induction text using unixLines.induct with
  | case1 text ih =>
    rw [unixLines, ← ih]
    simp [unixLinesFrom]
  | case2 text hnot ih =>
    rw [unixLines.eq_2 _ hnot, ← ih]
    cases text with
    | nil => rfl
    | cons c text =>
      have hc : c ≠ '\n' := fun h => hnot text (by rw [h])
      simp [unixLinesFrom, hc]
  | case3 c text hcrlf hcr ih =>
    have hc : c ≠ '\r' := fun h => hcr h
    rw [unixLines.eq_3 _ _ hcrlf hcr, ← ih]
    simp [unixLinesFrom, hc]
  | case4 => rfl

namespace Scanner

theorem feed_ctl {b : UInt8} (hs : s.state = .ground) (hb : b = 0x09 ∨ b = 0x0A ∨ b = 0x0D) (rest : List UInt8) :
    s.feed (b :: rest) = emit [.ctl b] (s.feed rest) := by
  have hturn : s.turn b rest = (s, [.ctl b], rest) := by
    unfold turn groundTurn
    simp only [hs]
    rcases hb with rfl | rfl | rfl <;> rfl
  rw [feed_cons, hturn]

theorem feed_pasted (hs : s.state = .ground) (text : List Char) (rest : List UInt8) :
    Alike (s.feed (text.flatMap pasteChar ++ rest)) (emit (text.flatMap pasteItems) (s.feed rest)) := by
  induction text with
  | nil => exact .refl _
  | cons c text ih =>
    rw [List.flatMap_cons, List.flatMap_cons, List.append_assoc, ← emit_emit, pasteChar_eq, pasteItems]
    by_cases hctl : c = '\t' ∨ c = '\n' ∨ c = '\r'
    · have hb : UInt8.ofNat c.toNat = 0x09 ∨ UInt8.ofNat c.toNat = 0x0A ∨ UInt8.ofNat c.toNat = 0x0D := by
        rcases hctl with rfl | rfl | rfl
        · exact .inl rfl
        · exact .inr (.inl rfl)
        · exact .inr (.inr rfl)
      rw [if_pos hctl, if_pos hctl, List.singleton_append, feed_ctl hs hb]
      exact ih.after _
    rw [if_neg hctl, if_neg hctl]
    cases hcontrol : isControl c with
    | true => exact ih.after []
    | false => exact (feed_char hs hcontrol _).trans (ih.after _)

def mark (n : ℕ) : Params := { Params.reset with final := 0x7E, values := [⟨n, true, false⟩] }

theorem feed_start (hs : s.state = .ground) (rest : List UInt8) :
    Alike (s.feed (pasteStart ++ rest)) (emit [.csi (mark 200)] (s.feed rest)) :=
  feed_command [0x32, 0x30, 0x30] hs (by simp) (by decide) (by decide) rest

theorem feed_end (hs : s.state = .ground) (rest : List UInt8) :
    Alike (s.feed (pasteEnd ++ rest)) (emit [.csi (mark 201)] (s.feed rest)) :=
  feed_command [0x32, 0x30, 0x31] hs (by simp) (by decide) (by decide) rest

theorem feed_paste (hs : s.state = .ground) (text : List Char) :
    Alike (s.feed (paste text true)) (s, .csi (mark 200) :: (text.flatMap pasteItems ++ [.csi (mark 201)])) := by
  have hall : paste text true = pasteStart ++ (text.flatMap pasteChar ++ (pasteEnd ++ [])) := by
    simp only [paste, if_true, List.append_assoc, List.append_nil]
  have hend := (feed_end hs []).after (text.flatMap pasteItems)
  have htext := (feed_pasted hs text (pasteEnd ++ [])).trans hend
  have hstart := (feed_start hs _).trans (htext.after [.csi (mark 200)])
  rw [hall]
  refine hstart.trans ?_
  rw [emit_emit, emit_emit, feed_nil]
  simp only [emit, List.append_nil, List.cons_append]
  exact .refl _

end Scanner

def Within (item : Seq) : Prop := ∀ p, item ≠ .csi p

namespace Pasting

variable {p : Pasting} {t run : List UInt8} {cr : Bool}

theorem decodes_append (p : Pasting) (items seqs : List Seq) : p.decodes (items ++ seqs) =
    (((p.decodes items).1.decodes seqs).1, (p.decodes items).2 ++ ((p.decodes items).1.decodes seqs).2) := by
  induction items generalizing p with
  | nil => rfl
  | cons item items ih =>
    rw [List.cons_append, decodes, decodes, ih]
    simp only [List.append_assoc]

theorem decode_text (h : t.length < maxPasteBytes) (run : List UInt8) :
    decode ⟨some t, cr⟩ (.text run) = (⟨some (t ++ run), false⟩, []) := by
  simp only [decode, receive]
  rw [if_pos h]

theorem decodes_bytes (h : t.length + run.length ≤ maxPasteBytes) :
    decodes ⟨some t, false⟩ (run.map fun b => .text [b]) = (⟨some (t ++ run), false⟩, []) := by
  induction run generalizing t with
  | nil => rw [List.append_nil]; rfl
  | cons b run ih =>
    rw [List.length_cons] at h
    rw [List.map_cons, decodes, decode_text (by omega)]
    simp only
    rw [ih (by rw [List.length_append, List.length_singleton]; omega), List.append_assoc]
    rfl

theorem decode_within {item : Seq} (hw : Within item) (h : t.length < maxPasteBytes) (cr : Bool) :
    ∃ t' cr', decode ⟨some t, cr⟩ item = (⟨some t', cr'⟩, []) ∧ t'.length ≤ t.length + (spell [item]).length := by
  cases item with
  | text run => exact ⟨_, _, decode_text h run, by simp [spell]⟩
  | ctl b =>
    simp only [decode, receive]
    split
    · exact ⟨_, _, rfl, by simp [spell]⟩
    split
    · refine ⟨_, _, rfl, ?_⟩
      split <;> simp [spell]
    split
    · exact ⟨_, _, rfl, by simp [spell]⟩
    · exact ⟨_, _, rfl, by simp⟩
  | csi p => exact absurd rfl (hw p)
  | _ => exact ⟨_, _, rfl, Nat.le_add_right _ _⟩

theorem spell_cons (item : Seq) (items : List Seq) : spell (item :: items) = spell [item] ++ spell items :=
  spell_append [item] items

theorem decodes_one (p : Pasting) (item : Seq) : p.decodes [item] = p.decode item :=
  Prod.ext rfl (List.append_nil _)

theorem decodes_spell_one {item : Seq} (hfull : Full [item]) (hlen : t.length + (spell [item]).length ≤ maxPasteBytes)
    (cr : Bool) : decodes ⟨some t, cr⟩ (spell [item]) = decode ⟨some t, cr⟩ item := by
  cases item with
  | text run =>
    obtain ⟨b, run, rfl⟩ := List.exists_cons_of_ne_nil (hfull run List.mem_cons_self)
    have hrun : spell [.text (b :: run)] = .text [b] :: run.map fun b => .text [b] := by simp [spell]
    rw [hrun, List.length_cons, List.length_map] at hlen
    rw [decode_text (by omega), hrun, decodes, decode_text (by omega)]
    simp only
    rw [decodes_bytes (by rw [List.length_append, List.length_singleton]; omega), List.append_assoc]
    rfl
  | _ => exact decodes_one _ _

theorem decodes_spell (hfull : Full items) (hw : ∀ item ∈ (spell items).dropLast, Within item)
    (hlen : t.length + (spell items).length ≤ maxPasteBytes) (cr : Bool) :
    decodes ⟨some t, cr⟩ items = decodes ⟨some t, cr⟩ (spell items) := by
  induction items generalizing t cr with
  | nil => rfl
  | cons item items ih =>
    have hfull' : Full items := fun u hu => hfull u (List.mem_cons_of_mem _ hu)
    have hfirst : Full [item] := fun u hu => hfull u (List.mem_singleton.mp hu ▸ List.mem_cons_self)
    rw [spell_cons, List.length_append] at hlen
    have hone := decodes_spell_one hfirst (t := t) (by omega) cr
    by_cases hlast : spell items = []
    · obtain rfl := Scanner.spell_eq_nil hfull' hlast
      rw [hone, decodes_one]
    rw [spell_cons, List.dropLast_append_of_ne_nil hlast] at hw
    have hpos := List.length_pos_of_ne_nil hlast
    have hitem : Within item := by
      cases item with
      | text run => exact fun p h => by cases h
      | _ => exact hw _ (List.mem_append_left _ List.mem_cons_self)
    obtain ⟨t', cr', hdecode, hle⟩ := decode_within hitem (t := t) (by omega) cr
    rw [spell_cons, decodes_append, hone, decodes, hdecode]
    simp only
    rw [ih hfull' (fun item hi => hw item (List.mem_append_right _ hi)) (by omega)]

theorem decodes_pasted (text : List Char) (hlen : t.length + utf8Len text < maxPasteBytes) (cr : Bool) :
    decodes ⟨some t, cr⟩ (text.flatMap pasteItems ++ [.csi (Scanner.mark 201)]) =
      (none, [.paste (t ++ utf8 (unixLinesFrom cr (text.filter keptInPaste)))]) := by
  induction text generalizing t cr with
  | nil =>
    have hnil : utf8 (unixLinesFrom cr ([].filter keptInPaste)) = [] := rfl
    rw [hnil, List.append_nil]
    rfl
  | cons c text ih =>
    rw [utf8Len_cons] at hlen
    have hpos := c.utf8Size_pos
    rw [List.flatMap_cons, List.append_assoc, pasteItems]
    by_cases hcr : c = '\r'
    · subst hcr
      have hmore := ih (t := t ++ [0x0A]) (by rw [List.length_append, List.length_singleton]; omega) true
      rw [decodes_append, if_pos (by decide), decodes_one]
      have hone : decode ⟨some t, cr⟩ (.ctl (UInt8.ofNat '\r'.toNat)) = (⟨some (t ++ [0x0A]), true⟩, []) := rfl
      rw [hone]
      simp only
      rw [hmore, List.append_assoc]
      rfl
    by_cases hlf : c = '\n'
    · subst hlf
      rw [decodes_append, if_pos (by decide), decodes_one]
      cases cr with
      | true =>
        have hone : decode ⟨some t, true⟩ (.ctl (UInt8.ofNat '\n'.toNat)) = (⟨some t, false⟩, []) := rfl
        rw [hone]
        simp only
        rw [ih (by omega) false]
        rfl
      | false =>
        have hone : decode ⟨some t, false⟩ (.ctl (UInt8.ofNat '\n'.toNat)) = (⟨some (t ++ [0x0A]), false⟩, []) := rfl
        rw [hone]
        simp only
        rw [ih (t := t ++ [0x0A]) (by rw [List.length_append, List.length_singleton]; omega) false, List.append_assoc]
        rfl
    have hkept (hk : keptInPaste c = true) : utf8 (unixLinesFrom cr ((c :: text).filter keptInPaste)) =
        String.utf8EncodeChar c ++ utf8 (unixLinesFrom false (text.filter keptInPaste)) := by
      rw [List.filter_cons_of_pos hk, unixLinesFrom, if_neg hcr, if_neg (fun h => hlf h.1)]
      rfl
    have htab : (c = '\t' ∨ c = '\n' ∨ c = '\r') ↔ c = '\t' := by simp [hcr, hlf]
    simp only [htab]
    by_cases ht : c = '\t'
    · subst ht
      have hone : decode ⟨some t, cr⟩ (.ctl (UInt8.ofNat '\t'.toNat)) = (⟨some (t ++ [0x09]), false⟩, []) := rfl
      rw [decodes_append, if_pos rfl, decodes_one, hone]
      simp only
      rw [ih (t := t ++ [0x09]) (by rw [List.length_append, List.length_singleton]; omega) false, hkept rfl,
        List.append_assoc]
      rfl
    rw [if_neg ht]
    cases hcontrol : isControl c with
    | true =>
      have hdrop : keptInPaste c = false := by simp [keptInPaste, hcr, hlf, ht, hcontrol]
      rw [if_pos rfl, List.nil_append, ih (by omega), List.filter_cons_of_neg (by rw [hdrop]; decide)]
    | false =>
      have hkeep : keptInPaste c = true := by simp [keptInPaste, hcontrol]
      rw [if_neg Bool.false_ne_true, decodes_append, decodes_one, decode_text (by omega)]
      simp only
      rw [ih (by rw [List.length_append, String.length_utf8EncodeChar]; omega) false, hkept hkeep, List.append_assoc]
      rfl

theorem spell_pasted (text : List Char) : (spell (text.flatMap pasteItems)).length ≤ utf8Len text ∧
    ∀ item ∈ spell (text.flatMap pasteItems), Within item := by
  induction text with
  | nil => exact ⟨Nat.zero_le _, fun item h => by cases h⟩
  | cons c text ih =>
    have hpos := c.utf8Size_pos
    have hone : (spell (pasteItems c)).length ≤ c.utf8Size ∧ ∀ item ∈ spell (pasteItems c), Within item := by
      unfold pasteItems
      split
      · exact ⟨hpos, by simp [spell, Within]⟩
      split
      · exact ⟨Nat.zero_le _, by simp⟩
      · refine ⟨?_, by simp [spell, Within]⟩
        simp [spell]
    rw [List.flatMap_cons, spell_append, List.length_append, utf8Len_cons]
    exact ⟨Nat.add_le_add hone.1 ih.1, fun item h => (List.mem_append.mp h).elim (hone.2 item) (ih.2 item)⟩

theorem full_pasted (text : List Char) : Full (text.flatMap pasteItems) := by
  intro t ht
  obtain ⟨c, -, hc⟩ := List.mem_flatMap.mp ht
  unfold pasteItems at hc
  split at hc
  · simp at hc
  split at hc
  · cases hc
  · obtain rfl := Seq.text.inj (List.mem_singleton.mp hc)
    exact String.utf8EncodeChar_ne_nil

theorem decodes_cut (hfull : Full items) (h : utf8Len text < maxPasteBytes)
    (hspell : spell items = spell (text.flatMap pasteItems ++ [.csi (Scanner.mark 201)])) :
    decodes ⟨some [], false⟩ items = (none, [.paste (utf8 (unixLines (text.filter keptInPaste)))]) := by
  have hpasted := spell_pasted text
  have hend : spell (text.flatMap pasteItems ++ [.csi (Scanner.mark 201)]) =
      spell (text.flatMap pasteItems) ++ [.csi (Scanner.mark 201)] := spell_append _ _
  have hfull' : Full (text.flatMap pasteItems ++ [.csi (Scanner.mark 201)]) :=
    Full.append (full_pasted text) fun t ht => by cases List.mem_singleton.mp ht
  have hw : ∀ item ∈ (spell (text.flatMap pasteItems ++ [.csi (Scanner.mark 201)])).dropLast, Within item := by
    rw [hend, List.dropLast_concat]
    exact hpasted.2
  have hlen : ([] : List UInt8).length + (spell (text.flatMap pasteItems ++ [.csi (Scanner.mark 201)])).length ≤
      maxPasteBytes := by
    rw [hend, List.length_append, List.length_nil, List.length_singleton]
    omega
  rw [decodes_spell hfull (hspell ▸ hw) (hspell ▸ hlen) false, hspell, ← decodes_spell hfull' hw hlen false,
    decodes_pasted text (by rw [List.length_nil]; omega) false, unixLinesFrom_eq]
  rfl

end Pasting

namespace EventDecoder

/-- Nothing is pending: no part of a sequence, and no paste. -/
structure AtRest (d : EventDecoder) : Prop where
  mode : d.scanner.mode = .input
  ground : d.scanner.state = .ground
  idle : d.pasting = .none

theorem atRest_new : AtRest new := ⟨rfl, rfl, rfl⟩

theorem feeds_eq (d : EventDecoder) (chunks : List (List UInt8)) : d.feeds chunks =
    (⟨(d.scanner.feeds chunks).1, (d.pasting.decodes (d.scanner.feeds chunks).2).1⟩,
      (d.pasting.decodes (d.scanner.feeds chunks).2).2) := by
  induction chunks generalizing d with
  | nil => rfl
  | cons chunk chunks ih =>
    rw [feeds, ih, Scanner.feeds, Pasting.decodes_append]
    rfl

theorem start_idle : Pasting.decode .none (.csi (Scanner.mark 200)) = (⟨some [], false⟩, []) := rfl

/-- The bytes of a paste are one event, however they are cut. -/
theorem feeds_paste {d : EventDecoder} {chunks : List (List UInt8)} (h : utf8Len text < maxPasteBytes) (hd : d.AtRest)
    (hchunks : chunks.flatten = paste text true) : (d.feeds chunks).1.AtRest ∧
      (d.feeds chunks).2 = [.paste (utf8 (unixLines (text.filter keptInPaste)))] := by
  have hscan := (Scanner.feeds_flatten d.scanner chunks).trans (hchunks ▸ Scanner.feed_paste hd.ground text)
  obtain ⟨hcore, hspell⟩ := hscan
  have hground : (d.scanner.feeds chunks).1.state = .ground := by
    rw [← Scanner.core_state, hcore, Scanner.core_state, hd.ground]
  have hmode : (d.scanner.feeds chunks).1.mode = .input := by rw [Scanner.feeds_mode, hd.mode]
  obtain ⟨items, hitems, hbody⟩ :=
    Scanner.eq_cons_of_spell (.csi (Scanner.mark 200)) (Scanner.full_feeds d.scanner chunks)
    (fun t ht => by cases ht) (hspell.trans (Pasting.spell_cons _ _))
  have hfull : Full items := fun t ht => by
    have := Scanner.full_feeds d.scanner chunks t
    rw [hitems] at this
    exact this (List.mem_cons_of_mem _ ht)
  have hall : d.pasting.decodes (d.scanner.feeds chunks).2 =
      (.none, [.paste (utf8 (unixLines (text.filter keptInPaste)))]) := by
    rw [hitems, hd.idle, Pasting.decodes, start_idle]
    simp only
    rw [Pasting.decodes_cut hfull h hbody]
    rfl
  rw [feeds_eq, hall]
  exact ⟨⟨hmode, hground, rfl⟩, rfl⟩

end EventDecoder

/-- A pasted text is one event and no key: between its marks it comes as the text itself but for control characters and
line ends, and without them it starts no sequence. -/
theorem paste_is_text (text : List Char) :
    (utf8Len text < maxPasteBytes → ∀ (d : EventDecoder) (chunks : List (List UInt8)), d.AtRest →
      chunks.flatten = paste text true → (d.feeds chunks).1.AtRest ∧
        (d.feeds chunks).2 = [.paste (utf8 (unixLines (text.filter keptInPaste)))]) ∧
    0x1B ∉ paste text false := by
  refine ⟨fun h d chunks hd hchunks => EventDecoder.feeds_paste h hd hchunks, fun hesc => ?_⟩
  rw [paste, if_neg Bool.false_ne_true, if_neg Bool.false_ne_true, List.nil_append, List.append_nil] at hesc
  obtain ⟨c, -, hc⟩ := List.mem_flatMap.mp hesc
  rw [pasteChar_eq] at hc
  split at hc
  · rename_i hctl
    rcases hctl with rfl | rfl | rfl <;> exact absurd (List.mem_singleton.mp hc) (by decide)
  split at hc
  · cases hc
  · rename_i hcontrol
    have hle : 0x20 ≤ c.toNat := by
      rw [isControl_iff, not_or] at hcontrol
      exact Nat.le_of_not_lt hcontrol.1
    exact absurd (le_of_mem_utf8EncodeChar hle hc) (by decide)

theorem paste_is_text_marked : (EventDecoder.new.feeds [paste "a\x1b[201~b".toList true]).2 =
    [.paste (utf8 "a[201~b".toList)] := by
  have h : utf8Len "a\x1b[201~b".toList < maxPasteBytes := by
    unfold maxPasteBytes
    decide
  exact ((paste_is_text "a\x1b[201~b".toList).1 h _ _ EventDecoder.atRest_new (List.flatten_singleton)).2

end Vt

end Dekit
