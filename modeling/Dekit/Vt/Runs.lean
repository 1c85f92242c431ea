import Dekit.Term.Key
import Dekit.Vt.Resume

/-! What is scanned at rest of a character, and of a whole command. -/

namespace Dekit

namespace Vt

variable {s : Scanner} {c : Char} {b : UInt8} {rest : List UInt8}

theorem toNat_valid (c : Char) : c.toNat.isValidChar := c.valid

theorem toNat_lt (c : Char) : c.toNat < 0x110000 := by
  have := toNat_valid c
  simp only [Nat.isValidChar] at this
  omega

theorem toNat_byte {n : ℕ} (h : n < 256) : (UInt8.ofNat n).toNat = n := UInt8.toNat_ofNat_of_lt' h

theorem isCont_bits (n : ℕ) : isCont (UInt8.ofNat (n % 0x40 + 0x80)) = true := by
  have hn : n % 0x40 < 0x40 := Nat.mod_lt _ (by decide)
  have hb := toNat_byte (n := n % 0x40 + 0x80) (by omega)
  simp only [isCont, UInt8.le_iff_toNat_le, hb, decide_eq_true_eq]
  exact ⟨Nat.le_add_left _ _, by simp; omega⟩

theorem bits_cont (n : ℕ) : (UInt8.ofNat (n % 0x40 + 0x80)).toNat % 64 = n % 0x40 := by
  have hn : n % 0x40 < 0x40 := Nat.mod_lt _ (by decide)
  rw [toNat_byte (by omega)]
  omega

theorem charOf_eq {lead least : ℕ} {cs : List UInt8} (hall : cs.all isCont = true) (hleast : least ≤ c.toNat)
    (hv : cs.foldl (fun v c => v * 64 + c.toNat % 64) lead = c.toNat) : charOf lead least cs = some c := by
  unfold charOf
  simp only [hv]
  rw [if_pos ⟨hall, hleast, toNat_valid c⟩, Char.ofNat_toNat]

theorem fromUtf8_lead (hb : 0x80 ≤ b.toNat) (rest : List UInt8) : fromUtf8 (b :: rest) =
    match Vt.utf8Need b, rest with
    | 2, c₁ :: rest => (charOf (b.toNat % 32) 0x80 [c₁]).bind fun c => (fromUtf8 rest).map (c :: ·)
    | 3, c₁ :: c₂ :: rest => (charOf (b.toNat % 16) 0x800 [c₁, c₂]).bind fun c => (fromUtf8 rest).map (c :: ·)
    | 4, c₁ :: c₂ :: c₃ :: rest =>
      (charOf (b.toNat % 8) 0x10000 [c₁, c₂, c₃]).bind fun c => (fromUtf8 rest).map (c :: ·)
    | _, _ => none := by
  rw [fromUtf8.eq_def]
  exact if_neg (Nat.not_lt_of_le hb)

/-- What leads the bytes of a character, and how many there are. -/
structure Leads (c : Char) (b : UInt8) (cs : List UInt8) : Prop where
  encode : String.utf8EncodeChar c = b :: cs
  lead : 0xC2 ≤ b
  need : Vt.utf8Need b = cs.length + 1
  decode : ∀ rest, fromUtf8 (b :: cs ++ rest) = (fromUtf8 rest).map (c :: ·)

theorem encode_eq (c : Char) : String.utf8EncodeChar c =
    if c.toNat ≤ 0x7F then [UInt8.ofNat c.toNat]
    else if c.toNat ≤ 0x7FF then [UInt8.ofNat (c.toNat / 64 % 0x20 + 0xC0), UInt8.ofNat (c.toNat % 0x40 + 0x80)]
    else if c.toNat ≤ 0xFFFF then
      [UInt8.ofNat (c.toNat / 4096 % 0x10 + 0xE0), UInt8.ofNat (c.toNat / 64 % 0x40 + 0x80),
        UInt8.ofNat (c.toNat % 0x40 + 0x80)]
    else
      [UInt8.ofNat (c.toNat / 262144 % 0x08 + 0xF0), UInt8.ofNat (c.toNat / 4096 % 0x40 + 0x80),
        UInt8.ofNat (c.toNat / 64 % 0x40 + 0x80), UInt8.ofNat (c.toNat % 0x40 + 0x80)] := rfl

theorem leads_two (h : 0x80 ≤ c.toNat) (hlt : c.toNat < 0x800) : ∃ b cs, Leads c b cs := by
  have hb : (UInt8.ofNat (c.toNat / 64 % 0x20 + 0xC0)).toNat = c.toNat / 64 + 0xC0 := by
    rw [toNat_byte (by omega)]
    omega
  refine ⟨UInt8.ofNat (c.toNat / 64 % 0x20 + 0xC0), [UInt8.ofNat (c.toNat % 0x40 + 0x80)], ?_, ?_, ?_, fun rest => ?_⟩
  · rw [encode_eq, if_neg (by omega), if_pos (by omega)]
  · rw [UInt8.le_iff_toNat_le, hb]
    simp; omega
  · unfold Vt.utf8Need
    simp only [UInt8.le_iff_toNat_le, hb]
    rw [if_pos (by simp; omega), List.length_singleton]
  · have hneed : Vt.utf8Need (UInt8.ofNat (c.toNat / 64 % 0x20 + 0xC0)) = 2 := by
      unfold Vt.utf8Need
      simp only [UInt8.le_iff_toNat_le, hb]
      rw [if_pos (by simp; omega)]
    rw [List.cons_append, fromUtf8_lead (by omega)]
    simp only [hneed, List.cons_append, List.nil_append]
    rw [charOf_eq (c := c) (by simp only [List.all_cons, List.all_nil, isCont_bits, Bool.and_self]) h (by
      simp only [List.foldl_cons, List.foldl_nil, hb, bits_cont]
      omega)]
    rfl

theorem leads_three (h : 0x800 ≤ c.toNat) (hlt : c.toNat < 0x10000) : ∃ b cs, Leads c b cs := by
  have hb : (UInt8.ofNat (c.toNat / 4096 % 0x10 + 0xE0)).toNat = c.toNat / 4096 + 0xE0 := by
    rw [toNat_byte (by omega)]
    omega
  have hneed : Vt.utf8Need (UInt8.ofNat (c.toNat / 4096 % 0x10 + 0xE0)) = 3 := by
    unfold Vt.utf8Need
    simp only [UInt8.le_iff_toNat_le, hb]
    rw [if_neg (by simp), if_pos (by simp; omega)]
  refine ⟨UInt8.ofNat (c.toNat / 4096 % 0x10 + 0xE0),
    [UInt8.ofNat (c.toNat / 64 % 0x40 + 0x80), UInt8.ofNat (c.toNat % 0x40 + 0x80)], ?_, ?_, hneed, fun rest => ?_⟩
  · rw [encode_eq, if_neg (by omega), if_neg (by omega), if_pos (by omega)]
  · rw [UInt8.le_iff_toNat_le, hb]
    simp
  · rw [List.cons_append, fromUtf8_lead (by omega)]
    simp only [hneed, List.cons_append, List.nil_append]
    rw [charOf_eq (c := c) (by simp only [List.all_cons, List.all_nil, isCont_bits, Bool.and_self]) h (by
      simp only [List.foldl_cons, List.foldl_nil, hb, bits_cont]
      omega)]
    rfl

theorem leads_four (h : 0x10000 ≤ c.toNat) : ∃ b cs, Leads c b cs := by
  have hmax := toNat_lt c
  have hb : (UInt8.ofNat (c.toNat / 262144 % 0x08 + 0xF0)).toNat = c.toNat / 262144 + 0xF0 := by
    rw [toNat_byte (by omega)]
    omega
  have hneed : Vt.utf8Need (UInt8.ofNat (c.toNat / 262144 % 0x08 + 0xF0)) = 4 := by
    unfold Vt.utf8Need
    simp only [UInt8.le_iff_toNat_le, hb]
    rw [if_neg (by simp), if_neg (by simp), if_pos (by simp; omega)]
  refine ⟨UInt8.ofNat (c.toNat / 262144 % 0x08 + 0xF0), [UInt8.ofNat (c.toNat / 4096 % 0x40 + 0x80),
    UInt8.ofNat (c.toNat / 64 % 0x40 + 0x80), UInt8.ofNat (c.toNat % 0x40 + 0x80)], ?_, ?_, hneed, fun rest => ?_⟩
  · rw [encode_eq, if_neg (by omega), if_neg (by omega), if_neg (by omega)]
  · rw [UInt8.le_iff_toNat_le, hb]
    simp
  · rw [List.cons_append, fromUtf8_lead (by omega)]
    simp only [hneed, List.cons_append, List.nil_append]
    rw [charOf_eq (c := c) (by simp only [List.all_cons, List.all_nil, isCont_bits, Bool.and_self]) h (by
      simp only [List.foldl_cons, List.foldl_nil, hb, bits_cont]
      omega)]
    rfl

theorem exists_leads (h : 0x80 ≤ c.toNat) : ∃ b cs, Leads c b cs := by
  by_cases htwo : c.toNat < 0x800
  · exact leads_two h htwo
  by_cases hthree : c.toNat < 0x10000
  · exact leads_three (by omega) hthree
  · exact leads_four (by omega)

theorem textRun_print (hb : isPrint b = true) (rest : List UInt8) :
    textRun (b :: rest) = (b :: (textRun rest).1, (textRun rest).2) := by rw [textRun, if_pos hb]

theorem Leads.textRun {cs : List UInt8} (h : Leads c b cs) (rest : List UInt8) :
    Vt.textRun (b :: cs ++ rest) = (b :: cs ++ (Vt.textRun rest).1, (Vt.textRun rest).2) := by
  have hprint : ¬ isPrint b = true := by
    have := h.lead
    simp only [isPrint, UInt8.le_iff_toNat_le, decide_eq_true_eq] at this ⊢
    simp at this ⊢
    omega
  have htake : (b :: (cs ++ rest)).take (cs.length + 1) = b :: cs := by
    rw [List.take_succ_cons, List.take_left]
  have hwhole : fromUtf8 (b :: cs) = some [c] := by
    have := h.decode []
    rwa [List.append_nil] at this
  rw [List.cons_append, Scanner.textRun_lead hprint h.lead, h.need, htake, hwhole, if_neg (by simp),
    Option.isNone_some, if_neg Bool.false_ne_true, Nat.add_sub_cancel, List.drop_left]

theorem textRun_char (h : Term.isControl c = false) (rest : List UInt8) :
    textRun (String.utf8EncodeChar c ++ rest) = (String.utf8EncodeChar c ++ (textRun rest).1, (textRun rest).2) := by
  have hc : ¬ (c.toNat < 0x20 ∨ 0x7F ≤ c.toNat ∧ c.toNat < 0xA0) := of_decide_eq_false h
  by_cases hascii : c.toNat < 0x80
  · have hb : (UInt8.ofNat c.toNat).toNat = c.toNat := toNat_byte (by omega)
    rw [Term.utf8EncodeChar_ascii hascii, List.singleton_append, textRun_print, List.singleton_append]
    simp only [isPrint, UInt8.le_iff_toNat_le, hb, decide_eq_true_eq]
    simp
    omega
  · obtain ⟨b, cs, hc⟩ := exists_leads (Nat.le_of_not_lt hascii)
    rw [hc.encode]
    exact hc.textRun rest

namespace Scanner

theorem feed_char (hs : s.state = .ground) (h : Term.isControl c = false) (rest : List UInt8) :
    Alike (s.feed (String.utf8EncodeChar c ++ rest)) (emit [.text (String.utf8EncodeChar c)] (s.feed rest)) := by
  have hall := feed_run hs (String.utf8EncodeChar c ++ rest)
  have hrest := (feed_run hs rest).after [.text (String.utf8EncodeChar c)]
  rw [textRun_char h] at hall
  simp only at hall
  have hcut : Alike (emit [.text (String.utf8EncodeChar c ++ (textRun rest).1)] (s.feed (textRun rest).2))
      (emit [.text (String.utf8EncodeChar c)] (emit [.text (textRun rest).1] (s.feed (textRun rest).2))) := by
    refine ⟨rfl, ?_⟩
    rw [emit_emit]
    simp only [emit, spell_append, spell_text_append]
    exact congrArg (· ++ _) (spell_append [.text _] [.text _])
  exact hall.trans (hcut.trans hrest.symm)

theorem csiTurn_final {final : UInt8} (hfinal : 0x40 ≤ final ∧ final ≤ 0x7E) (hx10 : final ≠ 0x4D) (s : Scanner) :
    s.csiTurn final = ({ s with params := { s.params with final := final }, state := .ground },
      [.csi { s.params with final := final }]) := by
  unfold csiTurn
  have hrange := hfinal
  rw [if_neg (by grind), if_neg (by grind), if_neg (by grind), if_neg (by grind), if_neg (by grind),
    if_neg fun h => hx10 h.1, if_pos hfinal]

theorem eq_cons_of_spell {items seqs : List Seq} (item : Seq) (hfull : Full items) (htext : ∀ t, item ≠ .text t)
    (h : spell items = item :: seqs) :
    ∃ rest, items = item :: rest ∧ spell rest = seqs := by
  cases items with
  | nil => cases h
  | cons first items =>
    cases first with
    | text t =>
      obtain ⟨b, t', rfl⟩ := List.exists_cons_of_ne_nil (hfull t List.mem_cons_self)
      exact absurd (List.cons.inj h).1.symm (htext [b])
    | _ =>
      obtain ⟨rfl, hrest⟩ := List.cons.inj h
      exact ⟨items, rfl, hrest⟩

theorem feed_command (bs : List UInt8) {final : UInt8} (hs : s.state = .ground) (hb : ∀ b ∈ bs, 0x20 ≤ b ∧ b ≤ 0x3F)
    (hfinal : 0x40 ≤ final ∧ final ≤ 0x7E) (hx10 : final ≠ 0x4D) (rest : List UInt8) :
    Alike (s.feed (0x1B :: 0x5B :: (bs ++ final :: rest)))
      (emit [.csi { bs.foldl Params.scan .reset with final := final }] (s.feed rest)) := by
  have hesc : s.turn 0x1B (0x5B :: (bs ++ final :: rest)) =
    ({ s with state := .esc }, [], 0x5B :: (bs ++ final :: rest)) := by
    unfold turn groundTurn
    simp only [hs]
    exact if_pos trivial
  have hcsi : ({ s with state := .esc } : Scanner).turn 0x5B (bs ++ final :: rest) =
      ({ s with params := .reset, state := .csi }, [], bs ++ final :: rest) := rfl
  have hend : ({ s with params := bs.foldl Params.scan .reset, state := .csi } : Scanner).turn final rest =
      taking (({ s with params := bs.foldl Params.scan .reset, state := .csi } : Scanner).csiTurn final) rest := rfl
  rw [feed_cons, hesc]
  simp only
  rw [feed_cons, hcsi]
  simp only
  rw [feed_params_append rfl hb, feed_cons, hend, csiTurn_final hfinal hx10]
  exact (feed_ground (s := { s with params := _, state := .ground }) rfl hs rfl rest).emit rfl

/-- However it is cut, a command is scanned at rest as itself and no more. -/
theorem feeds_command {chunks : List (List UInt8)} {bs : List UInt8} {final : UInt8} (hs : s.state = .ground)
    (hb : ∀ b ∈ bs, 0x20 ≤ b ∧ b ≤ 0x3F) (hfinal : 0x40 ≤ final ∧ final ≤ 0x7E) (hx10 : final ≠ 0x4D)
    (hchunks : chunks.flatten = 0x1B :: 0x5B :: (bs ++ [final])) : (s.feeds chunks).1.core = s.core ∧
      (s.feeds chunks).2 = [.csi { bs.foldl Params.scan .reset with final := final }] := by
  have hscan := (feeds_flatten s chunks).trans (hchunks ▸ feed_command bs hs hb hfinal hx10 [])
  rw [feed_nil] at hscan
  obtain ⟨hcore, hspell⟩ := hscan
  obtain ⟨items, hitems, hrest⟩ := eq_cons_of_spell (.csi { bs.foldl Params.scan .reset with final := final })
    (full_feeds s chunks) (fun t ht => by cases ht) hspell
  have hnone : items = [] := by
    refine spell_eq_nil (fun t ht => ?_) hrest
    have := full_feeds s chunks t
    rw [hitems] at this
    exact this (List.mem_cons_of_mem _ ht)
  exact ⟨hcore, by rw [hitems, hnone]⟩

end Scanner

end Vt

end Dekit
