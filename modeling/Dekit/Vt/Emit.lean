import Dekit.Term.Style
import Dekit.Vt.Resync

namespace Dekit

namespace Vt

variable {s s' : Scanner} {b : UInt8} {rest u q tail : List UInt8}

def asBytes (s : List Char) : List UInt8 := s.flatMap String.utf8EncodeChar

def oscTitle (title : List Char) : List UInt8 := [0x1B, 0x5D, 0x32, 0x3B] ++ asBytes title ++ [0x07]

def linkId : Option (List Char) → List UInt8
  | some id => [0x69, 0x64, 0x3D] ++ asBytes id
  | none => []

def oscLink : Option Term.Link → List UInt8
  | some link => [0x1B, 0x5D, 0x38, 0x3B] ++ linkId link.id ++ [0x3B] ++ asBytes link.uri ++ [0x1B, 0x5C]
  | none => [0x1B, 0x5D, 0x38, 0x3B, 0x3B, 0x1B, 0x5C]

def Clean (s : List Char) : Prop := ∀ c ∈ s, 0x20 ≤ c.toNat

/-- However it is cut, the bytes are scanned at rest as one command and no more. -/
def Survives (bytes body : List UInt8) : Prop :=
  ∀ s : Scanner, s.mode = .output → s.state = .ground → ∀ chunks : List (List UInt8), chunks.flatten = bytes →
    (s.feeds chunks).2 = [.osc body] ∧ (s.feeds chunks).1.state = .ground

def Terminator (tail : List UInt8) : Prop := tail = [0x07] ∨ tail = [0x1B, 0x5C]

theorem le_ofNat {n : ℕ} (h : 0x20 ≤ n) (hn : n < 256) : 0x20 ≤ UInt8.ofNat n := by
  rw [UInt8.le_iff_toNat_le, UInt8.toNat_ofNat_of_lt' hn]
  exact h

theorem le_of_mem_utf8EncodeChar {c : Char} (hc : 0x20 ≤ c.toNat) (hb : b ∈ String.utf8EncodeChar c) : 0x20 ≤ b := by
  have hval : c.val.toNat = c.toNat := rfl
  have hmax : c.val.toNat < 0x110000 := by
    have := c.valid
    simp only [UInt32.isValidChar, Nat.isValidChar] at this
    omega
  unfold String.utf8EncodeChar at hb
  simp only at hb
  split at hb
  · rw [List.mem_singleton] at hb
    subst hb
    exact le_ofNat (hval ▸ hc) (by omega)
  split at hb
  · simp only [List.mem_cons, List.not_mem_nil, or_false] at hb
    rcases hb with rfl | rfl <;> exact le_ofNat (by omega) (by omega)
  split at hb
  · simp only [List.mem_cons, List.not_mem_nil, or_false] at hb
    rcases hb with rfl | rfl | rfl <;> exact le_ofNat (by omega) (by omega)
  · simp only [List.mem_cons, List.not_mem_nil, or_false] at hb
    rcases hb with rfl | rfl | rfl | rfl <;> exact le_ofNat (by omega) (by omega)

theorem Clean.asBytes {s : List Char} (h : Clean s) : ∀ b ∈ asBytes s, 0x20 ≤ b := by
  intro b hb
  obtain ⟨c, hc, hb⟩ := List.mem_flatMap.mp hb
  exact le_of_mem_utf8EncodeChar (h c hc) hb

namespace Scanner

def Silent (items : List Seq) : Prop := ∀ body, Seq.osc body ∉ items

theorem Silent.nil : Silent [] := fun _ => List.not_mem_nil

theorem Silent.append {items items' : List Seq} (h : Silent items) (h' : Silent items') : Silent (items ++ items') :=
  fun body hmem => (List.mem_append.mp hmem).elim (h body) (h' body)

theorem silent_dropLead (stash : List UInt8) : Silent (dropLead stash) := by
  intro body h
  obtain ⟨b, -, heq⟩ := List.mem_map.mp h
  cases heq

def Reading (s : Scanner) : Prop := s.state = .ground ∨ s.state = .utf8

theorem reading_turn (hs : s.Reading) (hb : b ≠ 0x1B) (hrest : 0x1B ∉ rest) :
    (s.turn b rest).1.Reading ∧ Silent (s.turn b rest).2.1 ∧ 0x1B ∉ (s.turn b rest).2.2 := by
  have hall : 0x1B ∉ b :: rest := fun h => (List.mem_cons.mp h).elim (fun h => hb h.symm) hrest
  rcases hs with hs | hs
  · unfold turn
    simp only [hs, groundTurn]
    rw [if_neg hb]
    split
    · split
      · refine ⟨.inl hs, by simp [Silent], fun h => hall ?_⟩
        rw [← textRun_append (b :: rest)]
        exact List.mem_append_right _ h
      · split
        · exact ⟨.inr rfl, .nil, List.not_mem_nil⟩
        · exact ⟨.inl hs, .nil, hrest⟩
    · refine ⟨.inl hs, ?_, hrest⟩
      split
      · simp [Silent]
      · exact .nil
  · unfold turn
    simp only [hs, utf8Turn]
    split
    · exact ⟨.inl rfl, silent_dropLead _, hall⟩
    split
    · refine ⟨.inl rfl, ?_, hrest⟩
      split
      · simp [Silent]
      · exact silent_dropLead _
    · exact ⟨.inr rfl, .nil, hrest⟩

theorem reading_feed {input : List UInt8} (hs : s.Reading) (h : 0x1B ∉ input) :
    (s.feed input).1.Reading ∧ Silent (s.feed input).2 := by
  induction s, input using feed.induct with
  | case1 s =>
    rw [feed_nil]
    exact ⟨hs, .nil⟩
  | case2 s b rest next =>
    rename_i ih
    have hb : b ≠ 0x1B := fun hb => h (hb ▸ List.mem_cons_self)
    obtain ⟨hnext, hitems, hmore⟩ := reading_turn hs hb fun hmem => h (List.mem_cons_of_mem b hmem)
    obtain ⟨hlast, hsilent⟩ := ih hnext hmore
    rw [feed_cons]
    exact ⟨hlast, hitems.append hsilent⟩

theorem osc_of_spell {items : List Seq} {body : List UInt8} (h : Seq.osc body ∈ items) : Seq.osc body ∈ spell items :=
  List.mem_flatMap.mpr ⟨_, h, List.mem_singleton_self _⟩

theorem osc_mem_spell {items : List Seq} {body : List UInt8} (h : Seq.osc body ∈ spell items) :
    Seq.osc body ∈ items := by
  obtain ⟨item, hitem, hc⟩ := List.mem_flatMap.mp h
  cases item with
  | text t => simp at hc
  | _ =>
    rw [List.mem_singleton] at hc
    rw [hc]
    exact hitem

theorem feed_escaped (h : s.core = (new .output).escaped.core) : (s.feed [0x5C]).2 = [.esc 0 0x5C] := by
  rw [(feed_same h [0x5C]).2, feed_one (s := (new .output).escaped) rfl]
  rfl

theorem silent_tail (hm : s.mode = .output) (hs : s.Reading) (ht : Terminator tail) : Silent (s.feed tail).2 := by
  rcases ht with rfl | rfl
  · exact (reading_feed hs (by decide)).2
  · have hout : s.state.outside = true := by rcases hs with hs | hs <;> rw [hs] <;> rfl
    have hinter : s.state ≠ .escInter := by rcases hs with hs | hs <;> rw [hs] <;> exact State.noConfusion
    obtain ⟨s', hcore, hfeed⟩ := feed_outside_esc hm hout hinter [0x5C]
    rw [hfeed]
    simp only [emit, feed_escaped hcore]
    refine Silent.append ?_ (by simp [Silent])
    unfold abandoned
    split
    · exact silent_dropLead _
    · exact .nil

theorem silent_rest (hm : s.mode = .output) (hs : s.Reading) (hq : 0x1B ∉ q) (ht : Terminator tail) :
    Silent (s.feed (q ++ tail)).2 := by
  intro body h
  have hspell := osc_of_spell h
  rw [(feed_append s q tail).2] at hspell
  obtain ⟨hlast, hsilent⟩ := reading_feed hs hq
  have htail := silent_tail ((feed_mode s q).trans hm) hlast ht
  exact hsilent.append htail body (osc_mem_spell hspell)

theorem turn_osc (hs : s.state = .osc) (hm : s.mode = .output) (hb : 0x20 ≤ b) (hst : b ≠ 0x9C) (rest : List UInt8) :
    s.turn b rest = (s.pushBody b maxOscBytes, [], rest) := by
  have hend : ¬ (b = 0x07 ∨ b = 0x9C) := by
    rintro (rfl | h)
    · revert hb
      decide
    · exact hst h
  have hesc : b ≠ 0x1B := by
    rintro rfl
    revert hb
    decide
  unfold turn
  simp only [hs, oscTurn, bodyTurn, bodyCap, hm, taking]
  rw [if_neg hend, if_neg hesc]

theorem feed_osc_body (hs : s.state = .osc) (hm : s.mode = .output) (hu : ∀ b ∈ u, 0x20 ≤ b) (hst : 0x9C ∉ u)
    (hlen : s.body.length + u.length ≤ maxOscBytes) (rest : List UInt8) :
    s.feed (u ++ rest) = ({ s with body := s.body ++ u } : Scanner).feed rest := by
  induction u generalizing s with
  | nil => rw [List.append_nil, List.nil_append]
  | cons b u ih =>
    rw [List.length_cons] at hlen
    have hpush : s.pushBody b maxOscBytes = { s with body := s.body ++ [b] } := if_neg (by omega)
    have hturn := turn_osc hs hm (hu b List.mem_cons_self) (fun h => hst (h ▸ List.mem_cons_self)) (u ++ rest)
    rw [hpush] at hturn
    have hmore := ih (s := { s with body := s.body ++ [b] }) hs hm (fun b hb => hu b (List.mem_cons_of_mem _ hb))
      (fun h => hst (List.mem_cons_of_mem _ h)) (by simp; omega)
    rw [List.cons_append, feed_then hturn, hmore]
    simp [emit]

theorem feed_osc_tail (hs : s.state = .osc) (ht : Terminator tail) :
    (s.feed tail).2 = [.osc s.body] ∧ (s.feed tail).1.state = .ground := by
  rcases ht with rfl | rfl
  · have hturn : s.turn 0x07 [] = ({ s with state := .ground }, [.osc s.body], []) := by
      unfold turn
      simp only [hs]
      rfl
    rw [feed_one hturn]
    exact ⟨rfl, rfl⟩
  · have hturn : s.turn 0x1B [0x5C] = ({ s with state := .oscEsc }, [], [0x5C]) := by
      unfold turn
      simp only [hs]
      rfl
    rw [feed_then hturn, feed_one (b := 0x5C) rfl]
    exact ⟨rfl, rfl⟩

theorem feed_osc_fails (hs : s.state = .osc) (hm : s.mode = .output) (hu : ∀ b ∈ u, 0x20 ≤ b)
    (hbad : 0x9C ∈ u ∨ maxOscBytes < s.body.length + u.length) (hbody : s.body.length ≤ maxOscBytes)
    (ht : Terminator tail) : (s.feed (u ++ tail)).2 ≠ [.osc (s.body ++ u)] := by
  induction u generalizing s with
  | nil =>
    rcases hbad with h | h
    · cases h
    · simp at h
      omega
  | cons b u ih =>
    by_cases hst : b = 0x9C
    · have hturn : s.turn b (u ++ tail) = ({ s with state := .ground }, [.osc s.body], u ++ tail) := by
        unfold turn
        simp only [hs, hst]
        rfl
      rw [List.cons_append, feed_then hturn]
      intro h
      have hlen := congrArg List.length (Seq.osc.inj (List.cons.inj h).1)
      simp at hlen
    · have hturn := turn_osc hs hm (hu b List.mem_cons_self) hst (u ++ tail)
      by_cases hfull : maxOscBytes ≤ s.body.length
      · have hpush : s.pushBody b maxOscBytes = { s with body := [], state := .ground } := if_pos hfull
        rw [hpush] at hturn
        rw [List.cons_append, feed_then hturn]
        intro h
        have hesc : 0x1B ∉ u := fun h => by
          have := hu _ (List.mem_cons_of_mem b h)
          revert this
          decide
        refine silent_rest (s := { s with body := [], state := .ground }) hm (.inl rfl) hesc ht (s.body ++ b :: u) ?_
        simp only [emit, List.nil_append] at h
        rw [h]
        exact List.mem_singleton_self _
      · have hpush : s.pushBody b maxOscBytes = { s with body := s.body ++ [b] } := if_neg hfull
        rw [hpush] at hturn
        have hmore := ih (s := { s with body := s.body ++ [b] }) hs hm
          (fun b hb => hu b (List.mem_cons_of_mem _ hb)) ?_ ?_
        · rw [List.cons_append, feed_then hturn]
          simp only [List.append_assoc, List.singleton_append] at hmore
          exact hmore
        · rcases hbad with h | h
          · exact .inl ((List.mem_cons.mp h).resolve_left (Ne.symm hst))
          · right
            simp at h ⊢
            omega
        · simp
          omega

theorem turn_fresh_osc (hs : s.state = .ground) (hm : s.mode = .output) (rest : List UInt8) :
    s.feed (0x1B :: 0x5D :: rest) = ({ s with body := [], state := .osc } : Scanner).feed rest := by
  have hturn : s.escaped.turn 0x5D rest = ({ s with body := [], state := .osc }, [], rest) := by
    unfold turn
    simp only [escaped, escTurn, hm]
    rfl
  rw [feed_then (turn_ground_esc hs _), feed_then hturn]
  rfl

theorem eq_osc_of_spell {items : List Seq} {body : List UInt8} (hfull : Full items) (h : spell items = [.osc body]) :
    items = [.osc body] := by
  cases items with
  | nil => cases h
  | cons item items =>
    have hmore : Full items := fun t ht => hfull t (List.mem_cons_of_mem _ ht)
    cases item with
    | text t =>
      cases t with
      | nil => exact absurd rfl (hfull [] List.mem_cons_self)
      | cons b t => cases (List.cons.inj h).1
    | _ =>
      obtain ⟨hitem, hnil⟩ := List.cons.inj h
      rw [hitem, spell_eq_nil hmore hnil]

theorem survives_ended_iff (hu : ∀ b ∈ u, 0x20 ≤ b) (ht : Terminator tail) :
    Survives ([0x1B, 0x5D] ++ u ++ tail) u ↔ 0x9C ∉ u ∧ u.length ≤ maxOscBytes := by
  constructor
  · intro h
    obtain ⟨hitems, -⟩ := h (new .output) rfl rfl [[0x1B, 0x5D] ++ u ++ tail] (List.append_nil _)
    simp only [feeds, List.append_nil, List.cons_append, List.nil_append] at hitems
    rw [turn_fresh_osc rfl rfl] at hitems
    by_contra hbad
    refine feed_osc_fails (s := { new .output with state := .osc }) rfl rfl hu ?_ (Nat.zero_le _) ht hitems
    by_cases hst : 0x9C ∈ u
    · exact .inl hst
    · refine .inr (Nat.lt_of_not_le fun hlen => hbad ⟨hst, ?_⟩)
      simpa [new] using hlen
  · rintro ⟨hst, hlen⟩ s hm hs chunks hchunks
    have hfeed : s.feed chunks.flatten = ({ s with body := u, state := .osc } : Scanner).feed tail := by
      rw [hchunks, List.append_assoc, List.cons_append, List.cons_append, List.nil_append, turn_fresh_osc hs hm,
        feed_osc_body (s := { s with body := [], state := .osc }) rfl hm hu hst (by simpa using hlen)]
      rfl
    obtain ⟨hitems, hground⟩ := feed_osc_tail (s := { s with body := u, state := .osc }) rfl ht
    obtain ⟨hcore, hspell⟩ := feeds_flatten s chunks
    rw [hfeed] at hcore hspell
    rw [hitems] at hspell
    refine ⟨eq_osc_of_spell (full_feeds s chunks) hspell, ?_⟩
    rw [← core_state, hcore, core_state, hground]

theorem oscLink_survives (link : Term.Link) (hid : ∀ id, link.id = some id → Clean id) (huri : Clean link.uri) :
    let body := [0x38, 0x3B] ++ linkId link.id ++ [0x3B] ++ asBytes link.uri
    Survives (oscLink (some link)) body ↔ 0x9C ∉ body ∧ body.length ≤ maxOscBytes := by
  intro body
  have hbody : oscLink (some link) = [0x1B, 0x5D] ++ body ++ [0x1B, 0x5C] := by simp [oscLink, body]
  rw [hbody]
  apply survives_ended_iff
  · have hlead : ∀ b ∈ ([0x38, 0x3B] : List UInt8), 0x20 ≤ b := by simp
    have hsep : ∀ b ∈ ([0x3B] : List UInt8), 0x20 ≤ b := by simp
    have hkey : ∀ b ∈ ([0x69, 0x64, 0x3D] : List UInt8), 0x20 ≤ b := by simp
    intro b hb
    simp only [body, List.mem_append] at hb
    rcases hb with ((hb | hb) | hb) | hb
    · exact hlead b hb
    · cases hid' : link.id with
      | none => simp [hid', linkId] at hb
      | some id =>
        simp only [hid', linkId, List.mem_append] at hb
        exact hb.elim (hkey b) ((hid id hid').asBytes b)
    · exact hsep b hb
    · exact huri.asBytes b hb
  · exact .inr rfl

/-- A title, and every command of a string, is scanned as it is but for the 8-bit terminator in a character. -/
theorem osc_survives_iff (s : List Char) (h : Clean s) :
    (Survives (oscTitle s) ([0x32, 0x3B] ++ asBytes s) ↔ 0x9C ∉ asBytes s ∧ 2 + (asBytes s).length ≤ maxOscBytes) ∧
    (Survives ([0x1B, 0x5D] ++ asBytes s ++ [0x1B, 0x5C]) (asBytes s) ↔
      0x9C ∉ asBytes s ∧ (asBytes s).length ≤ maxOscBytes) := by
  constructor
  · have htitle : oscTitle s = [0x1B, 0x5D] ++ ([0x32, 0x3B] ++ asBytes s) ++ [0x07] := by simp [oscTitle]
    have hlead : ∀ b ∈ ([0x32, 0x3B] : List UInt8), 0x20 ≤ b := by simp
    have hall : ∀ b ∈ [0x32, 0x3B] ++ asBytes s, 0x20 ≤ b :=
      fun b hb => (List.mem_append.mp hb).elim (hlead b) (h.asBytes b)
    have hst : 0x9C ∉ [0x32, 0x3B] ++ asBytes s ↔ 0x9C ∉ asBytes s := by simp
    rw [htitle, survives_ended_iff hall (.inl rfl), hst, List.length_append]
    rfl
  · exact survives_ended_iff h.asBytes (.inr rfl)

theorem osc_survives_iff_ab : (Survives (oscTitle ['a', 'b']) ([0x32, 0x3B] ++ asBytes ['a', 'b']) ↔
      0x9C ∉ asBytes ['a', 'b'] ∧ 2 + (asBytes ['a', 'b']).length ≤ maxOscBytes) ∧
    (Survives ([0x1B, 0x5D] ++ asBytes ['a', 'b'] ++ [0x1B, 0x5C]) (asBytes ['a', 'b']) ↔
      0x9C ∉ asBytes ['a', 'b'] ∧ (asBytes ['a', 'b']).length ≤ maxOscBytes) :=
  osc_survives_iff ['a', 'b'] (by simp [Clean])

/-- A title with a character whose last byte is the 8-bit terminator. -/
theorem title_cut : Clean ['Ü'] ∧ (asBytes ['Ü']).length < maxOscBytes ∧
    ¬ Survives (oscTitle ['Ü']) ([0x32, 0x3B] ++ asBytes ['Ü']) := by
  refine ⟨by simp [Clean], by unfold maxOscBytes; decide, ?_⟩
  have htitle : oscTitle ['Ü'] = [0x1B, 0x5D] ++ ([0x32, 0x3B] ++ asBytes ['Ü']) ++ [0x07] := rfl
  have hbytes : asBytes ['Ü'] = [0xC3, 0x9C] := rfl
  rw [htitle, survives_ended_iff (by simp [hbytes]) (.inl rfl)]
  rintro ⟨hst, -⟩
  revert hst
  decide

end Scanner

end Vt

end Dekit
