import Dekit.Lib.Decimal
import Dekit.Term.Key

namespace Dekit.Term

variable {text rest pre : List Char} {c : Char}

theorem two_le_utf8Size (h : 0x80 ≤ c.toNat) : 1 < c.utf8Size := by
  have hpos := c.utf8Size_pos
  have hne : c.utf8Size ≠ 1 := by
    intro h1
    have hle := UInt32.le_iff_toNat_le.mp (Char.utf8Size_eq_one_iff.mp h1)
    have : c.val.toNat ≤ 127 := hle
    have hc : c.toNat = c.val.toNat := rfl
    omega
  omega

theorem le_of_mem_utf8 {b : UInt8} (h : 0x80 ≤ c.toNat) (hb : b ∈ String.utf8EncodeChar c) : 0x80 ≤ b := by
  unfold String.utf8EncodeChar at hb
  simp only at hb
  rw [if_neg (by change ¬ c.toNat ≤ 0x7f; omega)] at hb
  rw [UInt8.le_iff_toNat_le]
  split at hb
  · simp only [List.mem_cons, List.not_mem_nil, or_false] at hb
    rcases hb with rfl | rfl <;> simp <;> omega
  · split at hb
    · simp only [List.mem_cons, List.not_mem_nil, or_false] at hb
      rcases hb with rfl | rfl | rfl <;> simp <;> omega
    · simp only [List.mem_cons, List.not_mem_nil, or_false] at hb
      rcases hb with rfl | rfl | rfl | rfl <;> simp <;> omega

theorem exists_first (c : Char) : ∃ b bytes, String.utf8EncodeChar c = b :: bytes ∧ (b = 0x2D → c = '-') := by
  by_cases hc : c.toNat < 0x80
  · refine ⟨UInt8.ofNat c.toNat, [], utf8EncodeChar_ascii hc, fun hb => Char.toNat_inj.mp ?_⟩
    have hnat := congrArg UInt8.toNat hb
    simp only [UInt8.toNat_ofNat'] at hnat
    have : (0x2D : UInt8).toNat = 45 := rfl
    have : '-'.toNat = 45 := rfl
    omega
  · obtain ⟨b, bytes, hb⟩ := List.exists_cons_of_length_pos (l := String.utf8EncodeChar c) (by
      rw [String.length_utf8EncodeChar]
      exact c.utf8Size_pos)
    refine ⟨b, bytes, hb, ?_⟩
    rintro rfl
    exact absurd (le_of_mem_utf8 (Nat.le_of_not_lt hc) (hb ▸ List.mem_cons_self)) (by decide)

theorem exists_second (h : 0x80 ≤ c.toNat) :
    ∃ b d bytes, String.utf8EncodeChar c = b :: d :: bytes ∧ d ≠ 0x2D := by
  have hlen := String.length_utf8EncodeChar c
  have hsize := two_le_utf8Size h
  match hb : String.utf8EncodeChar c with
  | [] | [_] =>
    rw [hb] at hlen
    simp only [List.length_nil, List.length_cons] at hlen
    omega
  | b :: d :: bytes =>
    refine ⟨b, d, bytes, rfl, ?_⟩
    rintro rfl
    have hmem : (0x2D : UInt8) ∈ String.utf8EncodeChar c := by
      rw [hb]
      simp
    exact absurd (le_of_mem_utf8 h hmem) (by decide)

namespace KeyParser

def Plain (c : Char) : Prop := c ≠ '>' ∧ c ≠ ' ' ∧ isControl c = false

instance (c : Char) : Decidable (Plain c) := inferInstanceAs (Decidable (_ ∧ _ ∧ _))

def modLetters : List Char := ['c', 'C', 's', 'S', 'm', 'M']

def addMod (mods : KeyMods) (letter : Char) : KeyMods :=
  if letter = 'c' ∨ letter = 'C' then { mods with control := true }
  else if letter = 's' ∨ letter = 'S' then { mods with shift := true }
  else { mods with alt := true }

def dashed (letters : List Char) : List Char := letters.flatMap fun letter => [letter, '-']

def Undashed (text : List Char) : Prop := ∀ c rest, text = c :: '-' :: rest → 0x80 ≤ c.toNat

theorem slice_append (pre text rest : List Char) :
    slice (pre ++ (text ++ rest)) (utf8Len pre) (utf8Len (pre ++ text)) = some text := by
  unfold slice
  rw [dropBytes_append, utf8Len_append, Nat.add_sub_cancel_left]
  exact takeBytes_append text rest

theorem expect_cons (hs : s.utf8Size = 1) (pre : List Char) (c : Char) (rest : List Char) :
    expect ⟨pre ++ c :: rest, utf8Len pre⟩ [s] =
      if 1 < c.utf8Size then none
      else if c = s then some (.ok ⟨pre ++ c :: rest, utf8Len (pre ++ [c])⟩) else some (.error (.expected [s])) := by
  have hpos := c.utf8Size_pos
  have hlen : utf8Len [s] = 1 := by simp [utf8Len, hs]
  unfold expect slice
  simp only [hlen]
  rw [if_neg (by rw [utf8Len_append, utf8Len_cons]; omega), dropBytes_append, Nat.add_sub_cancel_left, Option.bind_some]
  by_cases hc : 1 < c.utf8Size
  · rw [if_pos hc, takeBytes_within (by omega) hc]
    rfl
  · have hone : c.utf8Size = 1 := by omega
    have htake : takeBytes 1 (c :: rest) = some [c] := by
      have htake := takeBytes_append [c] rest
      rwa [utf8Len_cons, hone] at htake
    rw [if_neg hc, htake, Option.map_some]
    by_cases hcs : c = s
    · subst hcs
      rw [if_neg (fun h => h rfl), if_pos rfl, utf8Len_append, hlen]
    · rw [if_pos (fun h => hcs (List.cons.inj h).1), if_neg hcs]

theorem expect_nil (hs : s.utf8Size = 1) (pre : List Char) :
    expect ⟨pre, utf8Len pre⟩ [s] = some (.error (.expected [s])) := by
  unfold expect
  rw [if_pos (by simp [utf8Len, hs])]

theorem takeModsFrom_undashed (h : Undashed rest) (mods : KeyMods) (pos : ℕ) :
    takeModsFrom mods pos (utf8 rest) = .ok (mods, pos) := by
  have hstop {bytes : List UInt8} (hd : ∀ b d tail, bytes = b :: d :: tail → d ≠ 0x2D) :
      takeModsFrom mods pos bytes = .ok (mods, pos) := by
    match bytes with
    | [] | [_] => rfl
    | b :: d :: tail => rw [takeModsFrom, if_neg (hd b d tail rfl)]
  refine hstop fun b d tail hbytes => ?_
  cases rest with
  | nil => cases hbytes
  | cons c rest =>
    rw [utf8, List.flatMap_cons] at hbytes
    by_cases hc : c.toNat < 0x80
    · rw [utf8EncodeChar_ascii hc, List.singleton_append] at hbytes
      have hbytes := (List.cons.inj hbytes).2
      cases rest with
      | nil => cases hbytes
      | cons c' rest =>
        obtain ⟨x, xs, hx, hdash⟩ := exists_first c'
        rw [List.flatMap_cons, hx] at hbytes
        rintro rfl
        obtain rfl := hdash (List.cons.inj hbytes).1
        exact absurd (h c rest rfl) (Nat.not_le.mpr hc)
    · obtain ⟨x, y, xs, hx, hdash⟩ := exists_second (Nat.le_of_not_lt hc)
      rw [hx] at hbytes
      rintro rfl
      exact hdash (List.cons.inj (List.cons.inj hbytes).2).1

theorem takeModsFrom_letter {letter : Char} (hl : letter.toNat < 0x80) (mods : KeyMods) (pos : ℕ) (rest : List Char) :
    takeModsFrom mods pos (utf8 (letter :: '-' :: rest)) =
      if letter ∈ modLetters then takeModsFrom (addMod mods letter) (pos + 2) (utf8 rest)
      else .error (.wrongModifier (UInt8.ofNat letter.toNat)) := by
  have hbytes : utf8 (letter :: '-' :: rest) = UInt8.ofNat letter.toNat :: 0x2D :: utf8 rest := by
    rw [utf8, List.flatMap_cons, utf8EncodeChar_ascii hl, List.flatMap_cons]
    rfl
  have hbyte (x : Char) (hx : x.toNat < 0x80) : UInt8.ofNat letter.toNat = UInt8.ofNat x.toNat ↔ letter = x := by
    constructor
    · intro h
      have hnat := congrArg UInt8.toNat h
      simp only [UInt8.toNat_ofNat'] at hnat
      exact Char.toNat_inj.mp (by omega)
    · rintro rfl
      rfl
  have hc : UInt8.ofNat letter.toNat = 0x63 ∨ UInt8.ofNat letter.toNat = 0x43 ↔ letter = 'c' ∨ letter = 'C' :=
    or_congr (hbyte 'c' (by decide)) (hbyte 'C' (by decide))
  have hs : UInt8.ofNat letter.toNat = 0x73 ∨ UInt8.ofNat letter.toNat = 0x53 ↔ letter = 's' ∨ letter = 'S' :=
    or_congr (hbyte 's' (by decide)) (hbyte 'S' (by decide))
  have hm : UInt8.ofNat letter.toNat = 0x6D ∨ UInt8.ofNat letter.toNat = 0x4D ↔ letter = 'm' ∨ letter = 'M' :=
    or_congr (hbyte 'm' (by decide)) (hbyte 'M' (by decide))
  rw [hbytes, takeModsFrom, if_pos rfl]
  simp only [hc, hs, hm, modLetters, addMod, List.mem_cons, List.not_mem_nil, or_false]
  by_cases h₁ : letter = 'c' ∨ letter = 'C'
  · rw [if_pos h₁, if_pos h₁, if_pos (h₁.elim .inl (.inr ∘ .inl))]
  · by_cases h₂ : letter = 's' ∨ letter = 'S'
    · rw [if_neg h₁, if_neg h₁, if_pos h₂, if_pos h₂, if_pos (h₂.elim (.inr ∘ .inr ∘ .inl) (.inr ∘ .inr ∘ .inr ∘ .inl))]
    · simp only [if_neg h₁, if_neg h₂]
      refine if_congr ⟨fun h => .inr (.inr (.inr (.inr h))), fun h => ?_⟩ rfl rfl
      rcases h with h | h | h | h | h
      · exact absurd (.inl h) h₁
      · exact absurd (.inr h) h₁
      · exact absurd (.inl h) h₂
      · exact absurd (.inr h) h₂
      · exact h

theorem utf8Len_dashed (letters : List Char) (hl : ∀ l ∈ letters, l ∈ modLetters) :
    utf8Len (dashed letters) = 2 * letters.length := by
  induction letters with
  | nil => rfl
  | cons l letters ih =>
    have hsize : l.utf8Size = 1 := by
      have hmem := hl l List.mem_cons_self
      simp only [modLetters, List.mem_cons, List.not_mem_nil, or_false] at hmem
      rcases hmem with rfl | rfl | rfl | rfl | rfl | rfl <;> rfl
    have hdash : utf8Len ['-'] = 1 := rfl
    rw [dashed, List.flatMap_cons, utf8Len_append, utf8Len_cons, hsize, hdash,
      show letters.flatMap (fun letter => [letter, '-']) = dashed letters from rfl,
      ih fun l hin => hl l (List.mem_cons_of_mem _ hin), List.length_cons]
    omega

theorem takeModsFrom_dashed {letters : List Char} (hl : ∀ l ∈ letters, l ∈ modLetters) (h : Undashed rest)
    (mods : KeyMods) (pos : ℕ) : takeModsFrom mods pos (utf8 (dashed letters ++ rest)) =
      .ok (letters.foldl addMod mods, pos + 2 * letters.length) := by
  induction letters generalizing mods pos with
  | nil => exact takeModsFrom_undashed h mods pos
  | cons l letters ih =>
    have hmem := hl l List.mem_cons_self
    have hascii : l.toNat < 0x80 := by
      simp only [modLetters, List.mem_cons, List.not_mem_nil, or_false] at hmem
      rcases hmem with rfl | rfl | rfl | rfl | rfl | rfl <;> decide
    have hsplit : dashed (l :: letters) ++ rest = l :: '-' :: (dashed letters ++ rest) := rfl
    rw [hsplit, takeModsFrom_letter hascii, if_pos hmem, ih fun l hin => hl l (List.mem_cons_of_mem _ hin)]
    simp only [List.foldl_cons, List.length_cons]
    congr 2
    omega

theorem takeModsFrom_ok {mods mods' : KeyMods} {pos pos' : ℕ}
    (h : takeModsFrom mods pos (utf8 rest) = .ok (mods', pos')) : ∃ letters rest', rest = dashed letters ++ rest' ∧
      (∀ l ∈ letters, l ∈ modLetters) ∧ Undashed rest' ∧ mods' = letters.foldl addMod mods ∧
      pos' = pos + 2 * letters.length := by
  induction hn : rest.length using Nat.strong_induction_on generalizing rest mods pos with
  | _ n ih =>
    by_cases hd : Undashed rest
    · rw [takeModsFrom_undashed hd] at h
      cases h
      exact ⟨[], rest, rfl, fun l hl => absurd hl List.not_mem_nil, hd, rfl, rfl⟩
    · simp only [Undashed, not_forall, Nat.not_le] at hd
      obtain ⟨letter, rest, rfl, hl⟩ := hd
      rw [takeModsFrom_letter hl] at h
      split at h
      · rename_i hmem
        have hlt : rest.length < n := by
          rw [← hn]
          simp only [List.length_cons]
          omega
        obtain ⟨letters, rest', rfl, hletters, hd', rfl, rfl⟩ := ih rest.length hlt h rfl
        refine ⟨letter :: letters, rest', rfl, ?_, hd', rfl, ?_⟩
        · rintro l (_ | ⟨_, hin⟩)
          · exact hmem
          · exact hletters l ‹_›
        · simp only [List.length_cons]
          omega
      · cases h

def Stops (text : List Char) : Prop := ∀ c rest, text = c :: rest → c = '>' ∨ c = ' '

theorem keyEnd_plain {key : List Char} (hk : ∀ c ∈ key, Plain c) (hs : Stops rest) (n : ℕ) :
    keyEnd n (key ++ rest) = .ok (n + utf8Len key) := by
  induction key generalizing n with
  | nil =>
    cases rest with
    | nil => rfl
    | cons c rest =>
      rw [List.nil_append, keyEnd, if_pos (hs c rest rfl)]
      rfl
  | cons c key ih =>
    obtain ⟨hgt, hsp, hcontrol⟩ := hk c List.mem_cons_self
    rw [List.cons_append, keyEnd, if_neg (not_or.mpr ⟨hgt, hsp⟩), if_neg (by simp [hcontrol]),
      ih fun x hx => hk x (List.mem_cons_of_mem _ hx), utf8Len_cons, Nat.add_assoc]

theorem keyEnd_ok {n next : ℕ} (h : keyEnd n rest = .ok next) : ∃ key rest', rest = key ++ rest' ∧
    (∀ c ∈ key, Plain c) ∧ Stops rest' ∧ next = n + utf8Len key := by
  induction rest generalizing n with
  | nil =>
    obtain rfl := Except.ok.inj h
    exact ⟨[], [], rfl, fun c hc => absurd hc List.not_mem_nil,
      fun c rest hc => (List.cons_ne_nil c rest hc.symm).elim, rfl⟩
  | cons c rest ih =>
    rw [keyEnd] at h
    split at h
    · rename_i hstop
      obtain rfl := Except.ok.inj h
      refine ⟨[], c :: rest, rfl, fun c hc => absurd hc List.not_mem_nil, fun c' rest' hc => ?_, rfl⟩
      rwa [← (List.cons.inj hc).1]
    · rename_i hstop
      split at h
      · cases h
      · rename_i hcontrol
        obtain ⟨key, rest', rfl, hkey, hs, rfl⟩ := ih h
        refine ⟨c :: key, rest', rfl, ?_, hs, by rw [utf8Len_cons, Nat.add_assoc]⟩
        rintro x (_ | ⟨_, hin⟩)
        · exact ⟨fun he => hstop (.inl he), fun he => hstop (.inr he), Bool.eq_false_iff.mpr hcontrol⟩
        · exact hkey x ‹_›

theorem takeKey_plain {key : List Char} (hk : ∀ c ∈ key, Plain c) (hs : Stops rest) (pre : List Char) :
    takeKey ⟨pre ++ (key ++ rest), utf8Len pre⟩ =
      some (.ok (key, ⟨pre ++ (key ++ rest), utf8Len (pre ++ key)⟩)) := by
  unfold takeKey
  rw [dropBytes_append, Option.bind_some, keyEnd_plain hk hs, ← utf8Len_append]
  simp only
  rw [slice_append]
  rfl

theorem takeKey_cases (pre rest : List Char) : (∃ err, takeKey ⟨pre ++ rest, utf8Len pre⟩ = some (.error err)) ∨
    ∃ key rest', rest = key ++ rest' ∧ (∀ c ∈ key, Plain c) ∧ Stops rest' := by
  cases h : keyEnd (utf8Len pre) rest with
  | error err =>
    refine .inl ⟨err, ?_⟩
    unfold takeKey
    rw [dropBytes_append, Option.bind_some, h]
  | ok next =>
    obtain ⟨key, rest', hrest, hkey, hs, -⟩ := keyEnd_ok h
    exact .inr ⟨key, rest', hrest, hkey, hs⟩

theorem takeMods_dashed {letters : List Char} (hl : ∀ l ∈ letters, l ∈ modLetters) (h : Undashed rest)
    (pre : List Char) : takeMods ⟨pre ++ (dashed letters ++ rest), utf8Len pre⟩ =
      .ok (letters.foldl addMod .none, ⟨pre ++ dashed letters ++ rest, utf8Len (pre ++ dashed letters)⟩) := by
  unfold takeMods
  simp only
  rw [drop_utf8, takeModsFrom_dashed hl h, utf8Len_append, utf8Len_dashed letters hl, List.append_assoc]
  rfl

theorem takeMods_cases (pre rest : List Char) : (∃ err, takeMods ⟨pre ++ rest, utf8Len pre⟩ = .error err) ∨
    ∃ letters rest', rest = dashed letters ++ rest' ∧ (∀ l ∈ letters, l ∈ modLetters) ∧ Undashed rest' := by
  cases h : takeModsFrom .none (utf8Len pre) (utf8 rest) with
  | error err =>
    refine .inl ⟨err, ?_⟩
    unfold takeMods
    simp only
    rw [drop_utf8, h]
    rfl
  | ok taken =>
    obtain ⟨letters, rest', hrest, hl, hd, -⟩ := takeModsFrom_ok h
    exact .inr ⟨letters, rest', hrest, hl, hd⟩

theorem expect_close (pre : List Char) (hs : Stops rest) : expect ⟨pre ++ rest, utf8Len pre⟩ ['>'] =
    if rest.head? = some '>' then some (.ok ⟨pre ++ rest, utf8Len (pre ++ ['>'])⟩)
    else some (.error (.expected ['>'])) := by
  cases rest with
  | nil =>
    rw [List.append_nil, expect_nil rfl]
    rfl
  | cons c rest =>
    rw [expect_cons rfl]
    rcases hs c rest rfl with rfl | rfl
    · rw [if_neg (by decide), if_pos rfl]
      rfl
    · rfl

theorem parse_opened {letters key : List Char} (hl : ∀ l ∈ letters, l ∈ modLetters) (hk : ∀ c ∈ key, Plain c)
    (hs : Stops rest) (hd : Undashed (key ++ rest)) :
    parse ('<' :: (dashed letters ++ (key ++ rest))) =
      match keyCode key with
      | .error err => some (.error err)
      | .ok code =>
        if rest.head? = some '>' then some (.ok (Key.new code (letters.foldl addMod .none)))
        else some (.error (.expected ['>'])) := by
  have hopen := expect_cons (s := '<') rfl [] '<' (dashed letters ++ (key ++ rest))
  rw [if_neg (by decide), if_pos rfl, List.nil_append, List.nil_append] at hopen
  have hmods := takeMods_dashed hl hd ['<']
  have hkey := takeKey_plain hk hs (['<'] ++ dashed letters)
  have hclose := expect_close (['<'] ++ dashed letters ++ key) hs
  rw [List.append_assoc] at hclose
  unfold parse
  have hstart : (⟨'<' :: (dashed letters ++ (key ++ rest)), 0⟩ : KeyParser) =
    ⟨'<' :: (dashed letters ++ (key ++ rest)), utf8Len []⟩ := rfl
  rw [hstart, hopen, Option.bind_some]
  simp only
  rw [show '<' :: (dashed letters ++ (key ++ rest)) = ['<'] ++ (dashed letters ++ (key ++ rest)) from rfl, hmods]
  simp only
  rw [hkey, Option.bind_some]
  simp only
  cases keyCode key with
  | error err => rfl
  | ok code =>
    simp only
    rw [hclose]
    split <;> rfl

theorem parse_cases (text : List Char) :
    (∃ c rest, text = c :: rest ∧ 1 < c.utf8Size ∧ parse text = none) ∨ (∃ err, parse text = some (.error err)) ∨
    ∃ letters key rest, text = '<' :: (dashed letters ++ (key ++ rest)) ∧ (∀ l ∈ letters, l ∈ modLetters) ∧
      (∀ c ∈ key, Plain c) ∧ Stops rest ∧ Undashed (key ++ rest) := by
  cases text with
  | nil => exact .inr (.inl ⟨_, rfl⟩)
  | cons c rest =>
    have hopen := expect_cons (s := '<') rfl [] c rest
    have hstart : (⟨c :: rest, 0⟩ : KeyParser) = ⟨[] ++ c :: rest, utf8Len []⟩ := rfl
    by_cases hc : 1 < c.utf8Size
    · refine .inl ⟨c, rest, rfl, hc, ?_⟩
      unfold parse
      rw [hstart, hopen, if_pos hc]
      rfl
    · by_cases hlt : c = '<'
      · subst hlt
        rw [if_neg hc, if_pos rfl] at hopen
        rcases takeMods_cases ['<'] rest with ⟨err, herr⟩ | ⟨letters, rest', rfl, hl, hd⟩
        · refine .inr (.inl ⟨err, ?_⟩)
          unfold parse
          rw [hstart, hopen, Option.bind_some]
          simp only [List.nil_append]
          rw [show '<' :: rest = ['<'] ++ rest from rfl, herr]
        · rcases takeKey_cases (['<'] ++ dashed letters) rest' with ⟨err, herr⟩ | ⟨key, rest, rfl, hk, hs⟩
          · refine .inr (.inl ⟨err, ?_⟩)
            unfold parse
            rw [hstart, hopen, Option.bind_some]
            simp only [List.nil_append]
            rw [show '<' :: (dashed letters ++ rest') = ['<'] ++ (dashed letters ++ rest') from rfl,
              takeMods_dashed hl hd]
            simp only
            rw [herr]
            rfl
          · exact .inr (.inr ⟨letters, key, rest, rfl, hl, hk, hs, hd⟩)
      · refine .inr (.inl ⟨.expected ['<'], ?_⟩)
        unfold parse
        rw [hstart, hopen, if_neg hc, if_neg hlt]
        rfl

theorem parse_none_iff : parse text = none ↔ ∃ c rest, text = c :: rest ∧ 1 < c.utf8Size := by
  constructor
  · intro h
    rcases parse_cases text with ⟨c, rest, ht, hc, -⟩ | ⟨err, herr⟩ | ⟨letters, key, rest, rfl, hl, hk, hs, hd⟩
    · exact ⟨c, rest, ht, hc⟩
    · rw [herr] at h
      cases h
    · rw [parse_opened hl hk hs hd] at h
      split at h
      · cases h
      · split at h <;> cases h
  · rintro ⟨c, rest, rfl, hc⟩
    have hopen := expect_cons (s := '<') rfl [] c rest
    rw [if_pos hc] at hopen
    have hstart : (⟨c :: rest, 0⟩ : KeyParser) = ⟨[] ++ c :: rest, utf8Len []⟩ := rfl
    unfold parse
    rw [hstart, hopen]
    rfl

def IsNumber (digits : List Char) : Prop :=
  (∀ d ∈ digits, '0' ≤ d ∧ d ≤ '9') ∧ 0 < digitsValue digits ∧ digitsValue digits < 256

/-- What names a key: a key name in either case, F with a number, or a single printable character. -/
def IsName (name : List Char) : Prop :=
  (∃ code, (toAsciiLowercase name, code) ∈ keys) ∨
  (∃ f digits, (f = 'f' ∨ f = 'F') ∧ name = f :: digits ∧ IsNumber digits) ∨
  ∃ c, name = [c] ∧ Plain c

def IsPlusName (name : List Char) : Prop :=
  ∃ f digits, (f = 'f' ∨ f = 'F') ∧ name = f :: '+' :: digits ∧ IsNumber digits

/-- A name in angle brackets, after any number of modifiers. -/
def Bracketed (name : List Char → Prop) (text : List Char) : Prop :=
  ∃ letters key, (∀ l ∈ letters, l ∈ modLetters) ∧ name key ∧ text = '<' :: (dashed letters ++ (key ++ ['>']))

theorem foldl_digits_le (digits : List Char) (n : ℕ) :
    n ≤ digits.foldl (fun n d => n * 10 + (d.toNat - '0'.toNat)) n := by
  induction digits generalizing n with
  | nil => exact le_rfl
  | cons d digits ih =>
    refine le_trans ?_ (ih (n * 10 + (d.toNat - '0'.toNat)))
    omega

theorem parseDigits_iff {n v : ℕ} (digits : List Char) (hn : n < 256) : parseDigits n digits = some v ↔
    (∀ d ∈ digits, '0' ≤ d ∧ d ≤ '9') ∧ v < 256 ∧ v = digits.foldl (fun n d => n * 10 + (d.toNat - '0'.toNat)) n := by
  induction digits generalizing n with
  | nil =>
    rw [parseDigits, Option.some.injEq]
    simp only [List.not_mem_nil, false_implies, implies_true, true_and, List.foldl_nil]
    omega
  | cons d digits ih =>
    rw [parseDigits]
    by_cases hd : '0' ≤ d ∧ d ≤ '9'
    · rw [if_pos hd, List.foldl_cons]
      by_cases hlt : n * 10 + (d.toNat - '0'.toNat) < 256
      · simp only [if_pos hlt]
        rw [ih hlt]
        simp [hd]
      · simp only [if_neg hlt]
        have hle := foldl_digits_le digits (n * 10 + (d.toNat - '0'.toNat))
        simp only [reduceCtorEq, false_iff, not_and]
        intro _ hv he
        omega
    · rw [if_neg hd]
      simp only [reduceCtorEq, false_iff, not_and]
      exact fun h => absurd (h d List.mem_cons_self) hd

theorem digitsValue_nil : digitsValue [] = 0 := rfl

theorem parseU8_pos {n : List Char} : (∃ v, (parseU8 n).filter (0 < ·) = some v) ↔
    IsNumber n ∨ ∃ digits, n = '+' :: digits ∧ IsNumber digits := by
  have hread (digits : List Char) :
      (∃ v, (if digits = [] then none else (parseDigits 0 digits).map UInt8.ofNat).filter (0 < ·) = some v) ↔
        IsNumber digits := by
    by_cases hnil : digits = []
    · subst hnil
      simp [IsNumber, digitsValue_nil]
    · rw [if_neg hnil]
      constructor
      · rintro ⟨v, hv⟩
        obtain ⟨hw, hpos⟩ := Option.filter_eq_some_iff.mp hv
        obtain ⟨m, hm, rfl⟩ := Option.map_eq_some_iff.mp hw
        obtain ⟨hdigits, hlt, rfl⟩ := (parseDigits_iff digits (by decide)).mp hm
        refine ⟨hdigits, ?_, hlt⟩
        have hpos := UInt8.lt_iff_toNat_lt.mp (of_decide_eq_true hpos)
        simp only [UInt8.toNat_ofNat'] at hpos
        unfold digitsValue
        have : (0 : UInt8).toNat = 0 := rfl
        omega
      · rintro ⟨hdigits, hpos, hlt⟩
        have hparse := (parseDigits_iff digits (by decide)).mpr ⟨hdigits, hlt, rfl⟩
        refine ⟨UInt8.ofNat (digitsValue digits), Option.filter_eq_some_iff.mpr ⟨?_, decide_eq_true ?_⟩⟩
        · rw [hparse]
          rfl
        · rw [UInt8.lt_iff_toNat_lt, UInt8.toNat_ofNat']
          have : (0 : UInt8).toNat = 0 := rfl
          omega
  unfold parseU8
  split
  · rename_i digits
    simp only
    rw [hread]
    constructor
    · exact fun h => .inr ⟨digits, rfl, h⟩
    · rintro (h | ⟨digits', he, h⟩)
      · exact absurd (h.1 '+' List.mem_cons_self) (by decide)
      · rwa [(List.cons.inj he).2]
  · rename_i hplus
    simp only
    rw [hread]
    refine ⟨.inl, fun h => h.resolve_right ?_⟩
    rintro ⟨digits, rfl, -⟩
    exact hplus digits rfl

theorem keys_checked : keys.all (fun e => e.1.all (fun c => decide (Plain c ∧ c ≠ '-')) &&
    decide (e.1.head? ≠ some 'f' ∧ e.1.length ≠ 1 ∧ e.1 ≠ [])) = true := by decide +kernel

theorem named {e : List Char × KeyCode} (he : e ∈ keys) :
    (∀ c ∈ e.1, Plain c ∧ c ≠ '-') ∧ e.1.head? ≠ some 'f' ∧ e.1.length ≠ 1 ∧ e.1 ≠ [] := by
  have hchecked := List.all_eq_true.mp keys_checked e he
  rw [Bool.and_eq_true] at hchecked
  exact ⟨fun c hc => of_decide_eq_true (List.all_eq_true.mp hchecked.1 c hc), of_decide_eq_true hchecked.2⟩

theorem lookup_f (rest : List Char) : keys.lookup ('f' :: rest) = none := by
  refine List.lookup_eq_none_iff.mpr fun e he => ?_
  simp only [bne_iff_ne, ne_eq]
  intro heq
  exact (named he).2.1 (by rw [← heq]; rfl)

theorem keyCode_f {f : Char} (hf : f = 'f' ∨ f = 'F') (n : List Char) :
    keyCode (f :: n) = match (parseU8 n).filter (0 < ·) with
      | some n => .ok (.f n)
      | none => match n with
        | [] => .ok (.char f)
        | _ => .error (.wrongKeyCode (f :: n)) := by
  have hlower : toAsciiLowercase (f :: n) = 'f' :: toAsciiLowercase n := by
    rcases hf with rfl | rfl <;> rfl
  unfold keyCode
  rw [hlower, lookup_f]
  rcases hf with rfl | rfl <;> cases n <;> rfl

theorem functionNumber_none {c : Char} (hc : ¬ (c = 'f' ∨ c = 'F')) (n : List Char) :
    functionNumber (c :: n) = none := by
  unfold functionNumber
  split
  · rename_i h
    exact absurd (.inl (List.cons.inj h).1) hc
  · rename_i h
    exact absurd (.inr (List.cons.inj h).1) hc
  · rfl

theorem keyCode_ok {key : List Char} (hk : ∀ c ∈ key, Plain c) :
    (∃ code, keyCode key = .ok code) ↔ IsName key ∨ IsPlusName key := by
  have hsingle {c : Char} (h : key = [c]) : IsName key := .inr (.inr ⟨c, h, hk c (by rw [h]; exact List.mem_cons_self)⟩)
  by_cases hf : ∃ f n, (f = 'f' ∨ f = 'F') ∧ key = f :: n
  · obtain ⟨f, n, hf, rfl⟩ := hf
    rw [keyCode_f hf]
    constructor
    · rintro ⟨code, hcode⟩
      split at hcode
      · rename_i v hv
        rcases parseU8_pos.mp ⟨v, hv⟩ with hn | ⟨digits, rfl, hn⟩
        · exact .inl (.inr (.inl ⟨f, n, hf, rfl, hn⟩))
        · exact .inr ⟨f, digits, hf, rfl, hn⟩
      · split at hcode
        · exact .inl (hsingle rfl)
        · cases hcode
    · intro h
      have hnumber : (∃ v, (parseU8 n).filter (0 < ·) = some v) ∨ n = [] := by
        rcases h with (⟨code, hmem⟩ | ⟨f', digits, -, he, hn⟩ | ⟨c, he, -⟩) | ⟨f', digits, -, he, hn⟩
        · refine absurd ?_ (named hmem).2.1
          rcases hf with rfl | rfl <;> rfl
        · exact .inl (parseU8_pos.mpr (.inl ((List.cons.inj he).2 ▸ hn)))
        · exact .inr (List.cons.inj he).2
        · exact .inl (parseU8_pos.mpr (.inr ⟨digits, (List.cons.inj he).2, hn⟩))
      rcases hnumber with ⟨v, hv⟩ | rfl
      · rw [hv]
        exact ⟨_, rfl⟩
      · exact ⟨_, rfl⟩
  · have hnot : functionNumber key = none := by
      cases key with
      | nil => rfl
      | cons c n => exact functionNumber_none (fun hc => hf ⟨c, n, hc, rfl⟩) n
    unfold keyCode
    rw [hnot]
    constructor
    · rintro ⟨code, hcode⟩
      split at hcode
      · rename_i code' hlookup
        obtain ⟨before, after, hkeys, -⟩ := List.lookup_eq_some_iff.mp hlookup
        exact .inl (.inl ⟨code', hkeys ▸ List.mem_append_right _ List.mem_cons_self⟩)
      · simp only at hcode
        split at hcode
        · exact .inl (hsingle rfl)
        · cases hcode
    · rintro ((⟨code, hmem⟩ | ⟨f, digits, hf', rfl, -⟩ | ⟨c, rfl, -⟩) | ⟨f, digits, hf', rfl, -⟩)
      · have hsome : keys.lookup (toAsciiLowercase key) ≠ none := by
          intro hnone
          have := List.lookup_eq_none_iff.mp hnone _ hmem
          simp at this
        obtain ⟨code', hcode'⟩ := Option.ne_none_iff_exists'.mp hsome
        rw [hcode']
        exact ⟨_, rfl⟩
      · exact absurd ⟨f, digits, hf', rfl⟩ hf
      · split <;> exact ⟨_, rfl⟩
      · exact absurd ⟨f, _, hf', rfl⟩ hf

/-- What the parser takes for the name of a key. -/
def Accepted (key : List Char) : Prop := (∀ c ∈ key, Plain c) ∧ (IsName key ∨ IsPlusName key)

theorem plain_of_number {digits : List Char} (h : IsNumber digits) : ∀ d ∈ digits, Plain d ∧ d ≠ '-' ∧ d ≠ '+' := by
  intro d hd
  obtain ⟨hlo, hhi⟩ := h.1 d hd
  have hlo : '0'.toNat ≤ d.toNat := hlo
  have hhi : d.toNat ≤ '9'.toNat := hhi
  have h0 : '0'.toNat = 48 := rfl
  have h9 : '9'.toNat = 57 := rfl
  have hne {x : Char} (hx : x.toNat < 48 ∨ 57 < x.toNat) : d ≠ x := by
    rintro rfl
    omega
  refine ⟨⟨hne (by decide), hne (by decide), ?_⟩, hne (by decide), hne (by decide)⟩
  unfold isControl
  simp only [decide_eq_false_iff_not]
  omega

theorem plain_f {f : Char} (hf : f = 'f' ∨ f = 'F') : Plain f := by
  rcases hf with rfl | rfl <;> exact ⟨by decide, by decide, by decide⟩

theorem mem_lower {key : List Char} {c : Char} (hc : c ∈ key) (hn : ¬ ('A' ≤ c ∧ c ≤ 'Z')) : c ∈ toAsciiLowercase key :=
  List.mem_map.mpr ⟨c, hc, if_neg hn⟩

theorem upper_plain {c : Char} (h : 'A' ≤ c ∧ c ≤ 'Z') : Plain c ∧ c ≠ '-' := by
  have hlo : 'A'.toNat ≤ c.toNat := h.1
  have hhi : c.toNat ≤ 'Z'.toNat := h.2
  have hA : 'A'.toNat = 65 := rfl
  have hZ : 'Z'.toNat = 90 := rfl
  have hne {x : Char} (hx : x.toNat < 65 ∨ 90 < x.toNat) : c ≠ x := by
    rintro rfl
    omega
  refine ⟨⟨hne (by decide), hne (by decide), ?_⟩, hne (by decide)⟩
  unfold isControl
  simp only [decide_eq_false_iff_not]
  omega

theorem plain_named {key : List Char} {code : KeyCode} (h : (toAsciiLowercase key, code) ∈ keys) :
    ∀ c ∈ key, Plain c ∧ c ≠ '-' := by
  intro c hc
  by_cases hup : 'A' ≤ c ∧ c ≤ 'Z'
  · exact upper_plain hup
  · exact (named h).1 c (mem_lower hc hup)

theorem accepted_of_name {key : List Char} (h : IsName key) : Accepted key := by
  refine ⟨?_, .inl h⟩
  rcases h with ⟨code, h⟩ | ⟨f, digits, hf, rfl, hn⟩ | ⟨c, rfl, hc⟩
  · exact fun c hc => (plain_named h c hc).1
  · rintro c (_ | ⟨_, hin⟩)
    · exact plain_f hf
    · exact (plain_of_number hn c ‹_›).1
  · intro x hx
    rwa [List.mem_singleton.mp hx]

theorem accepted_of_plus {key : List Char} (h : IsPlusName key) : Accepted key := by
  refine ⟨?_, .inr h⟩
  obtain ⟨f, digits, hf, rfl, hn⟩ := h
  intro c hc
  rcases List.mem_cons.mp hc with rfl | hc
  · exact plain_f hf
  · rcases List.mem_cons.mp hc with rfl | hc
    · exact ⟨by decide, by decide, by decide⟩
    · exact (plain_of_number hn c hc).1

theorem Accepted.undashed {key : List Char} (h : Accepted key) (hr : ∀ tail, rest ≠ '-' :: tail) :
    Undashed (key ++ rest) := by
  rintro c tail heq
  exfalso
  match key, h with
  | [], h =>
    rcases h.2 with (⟨code, h⟩ | ⟨f, digits, -, he, -⟩ | ⟨x, he, -⟩) | ⟨f, digits, -, he, -⟩
    · exact (named h).2.2.2 rfl
    · cases he
    · cases he
    · cases he
  | [x], _ => exact hr tail (List.cons.inj heq).2
  | x :: y :: key, h =>
    obtain rfl : y = '-' := (List.cons.inj (List.cons.inj heq).2).1
    rcases h.2 with (⟨code, h⟩ | ⟨f, digits, -, he, hn⟩ | ⟨x, he, -⟩) | ⟨f, digits, -, he, -⟩
    · exact (plain_named h '-' (by simp)).2 rfl
    · exact (plain_of_number hn '-' (by rw [← (List.cons.inj he).2]; simp)).2.1 rfl
    · cases (List.cons.inj he).2
    · exact absurd (List.cons.inj (List.cons.inj he).2).1 (by decide)

theorem parse_read {k : Key} (h : parse text = some (.ok k)) : ∃ letters key rest code,
    text = '<' :: (dashed letters ++ (key ++ '>' :: rest)) ∧ (∀ l ∈ letters, l ∈ modLetters) ∧
      (∀ c ∈ key, Plain c) ∧ keyCode key = .ok code ∧ k = Key.new code (letters.foldl addMod .none) := by
  rcases parse_cases text with ⟨c, rest, -, -, hnone⟩ | ⟨err, herr⟩ | ⟨letters, key, rest, rfl, hl, hk, hs, hd⟩
  · rw [hnone] at h
    cases h
  · rw [herr] at h
    cases h
  · rw [parse_opened hl hk hs hd] at h
    cases hcode : keyCode key with
    | error err =>
      rw [hcode] at h
      cases h
    | ok code =>
      rw [hcode] at h
      simp only at h
      split at h
      · rename_i hhead
        obtain ⟨rest, rfl⟩ : ∃ tail, rest = '>' :: tail := by
          cases rest with
          | nil => cases hhead
          | cons c tail => exact ⟨tail, by rw [Option.some.inj hhead]⟩
        exact ⟨letters, key, rest, code, rfl, hl, hk, hcode, (Except.ok.inj (Option.some.inj h)).symm⟩
      · cases h

theorem parse_ok_iff : (∃ key, parse text = some (.ok key)) ↔
    ∃ spec rest, text = spec ++ rest ∧ Bracketed Accepted spec := by
  constructor
  · rintro ⟨k, h⟩
    obtain ⟨letters, key, rest, code, rfl, hl, hk, hcode, -⟩ := parse_read h
    exact ⟨'<' :: (dashed letters ++ (key ++ ['>'])), rest, by simp, letters, key, hl,
      ⟨hk, (keyCode_ok hk).mp ⟨code, hcode⟩⟩, rfl⟩
  · rintro ⟨spec, rest, rfl, letters, key, hl, ha, rfl⟩
    have hs : Stops ('>' :: rest) := by
      intro c tail h
      exact .inl (List.cons.inj h).1.symm
    have hd : Undashed (key ++ '>' :: rest) := ha.undashed fun tail h => absurd (List.cons.inj h).1 (by decide)
    have hopened := parse_opened hl ha.1 hs hd
    obtain ⟨code, hcode⟩ := (keyCode_ok ha.1).mpr ha.2
    rw [hcode] at hopened
    refine ⟨Key.new code (letters.foldl addMod .none), ?_⟩
    have htext : '<' :: (dashed letters ++ (key ++ ['>'])) ++ rest = '<' ::
      (dashed letters ++ (key ++ '>' :: rest)) := by
      simp
    rw [htext]
    exact hopened

theorem Bracketed.ends {spec : List Char} (h : Bracketed Accepted spec) :
    ∃ body, spec = body ++ ['>'] ∧ ∀ rest, (spec ++ rest).takeWhile (· ≠ '>') = body := by
  obtain ⟨letters, key, hl, ha, rfl⟩ := h
  refine ⟨'<' :: (dashed letters ++ key), by simp, fun rest => ?_⟩
  have hbody : ∀ c ∈ '<' :: (dashed letters ++ key), decide (c ≠ '>') = true := by
    intro c hc
    refine decide_eq_true ?_
    rcases List.mem_cons.mp hc with rfl | hc
    · decide
    · rcases List.mem_append.mp hc with hc | hc
      · obtain ⟨l, hin, hc⟩ := List.mem_flatMap.mp hc
        have hmem := hl l hin
        simp only [modLetters, List.mem_cons, List.not_mem_nil, or_false] at hc hmem
        rcases hc with rfl | rfl
        · rintro rfl
          rcases hmem with h | h | h | h | h | h <;> cases h
        · decide
      · exact (ha.1 c hc).1
  have hsplit : '<' :: (dashed letters ++ (key ++ ['>'])) ++ rest = '<' :: (dashed letters ++ key) ++ '>' :: rest := by
    simp
  rw [hsplit, List.takeWhile_append_of_pos hbody, List.takeWhile_cons_of_neg (by simp), List.append_nil]

theorem Bracketed.unique {spec spec' : List Char} (rest rest' : List Char) (h : Bracketed Accepted spec)
    (h' : Bracketed Accepted spec') (heq : spec ++ rest = spec' ++ rest') : spec = spec' := by
  obtain ⟨body, hspec, htake⟩ := h.ends
  obtain ⟨body', hspec', htake'⟩ := h'.ends
  rw [hspec, hspec', ← htake rest, heq, htake' rest']

theorem Bracketed.mono {name name' : List Char → Prop} {spec : List Char} (h : Bracketed name spec)
    (hn : ∀ key, name key → name' key) : Bracketed name' spec := by
  obtain ⟨letters, key, hl, hk, rfl⟩ := h
  exact ⟨letters, key, hl, hn key hk, rfl⟩

theorem length_dashed (letters : List Char) : (dashed letters).length = 2 * letters.length := by
  induction letters with
  | nil => rfl
  | cons l letters ih =>
    rw [show dashed (l :: letters) = l :: '-' :: dashed letters from rfl, List.length_cons, List.length_cons, ih,
      List.length_cons]
    omega

theorem key_unique {letters letters' key key' : List Char} (hl : ∀ l ∈ letters, l ∈ modLetters)
    (hl' : ∀ l ∈ letters', l ∈ modLetters) (ha : Accepted key) (ha' : Accepted key')
    (heq : dashed letters ++ (key ++ ['>']) = dashed letters' ++ (key' ++ ['>'])) : key = key' := by
  have hclose : ∀ tail, ['>'] ≠ '-' :: tail := fun tail h => absurd (List.cons.inj h).1 (by decide)
  have h₁ := takeModsFrom_dashed hl (ha.undashed hclose) .none 0
  have h₂ := takeModsFrom_dashed hl' (ha'.undashed hclose) .none 0
  rw [heq, h₂] at h₁
  have hlen := (Prod.mk.inj (Except.ok.inj h₁)).2
  have hdashed : (dashed letters).length = (dashed letters').length := by
    rw [length_dashed, length_dashed]
    omega
  exact List.append_cancel_right (List.append_inj_right heq hdashed)

theorem IsName.not_plus {key : List Char} (h : IsName key) : ¬ IsPlusName key := by
  rintro ⟨f, digits, hf, rfl, -⟩
  rcases h with ⟨code, h⟩ | ⟨f', digits', -, he, hn⟩ | ⟨c, he, -⟩
  · refine absurd ?_ (named h).2.1
    rcases hf with rfl | rfl <;> rfl
  · exact (plain_of_number hn '+' (by rw [← (List.cons.inj he).2]; simp)).2.2 rfl
  · cases (List.cons.inj he).2

/-- The parser returns, and what it takes is a name in angle brackets as a whole. -/
def Exact (text : List Char) : Prop :=
  ∃ result, parse text = some result ∧ ∀ key, result = .ok key → Bracketed IsName text

/-- Within a first character of several bytes, past a closing bracket, or at a plus sign the parser goes wrong. -/
def Misread (text : List Char) : Prop :=
  (∃ c rest, text = c :: rest ∧ 1 < c.utf8Size) ∨
    ∃ spec rest, text = spec ++ rest ∧ (Bracketed IsName spec ∧ rest ≠ [] ∨ Bracketed IsPlusName spec)

theorem exact_iff (text : List Char) : Exact text ↔ ¬ Misread text := by
  constructor
  · rintro ⟨result, hresult, hok⟩ (hwide | ⟨spec, rest, rfl, hspec⟩)
    · rw [parse_none_iff.mpr hwide] at hresult
      cases hresult
    · have ha : Bracketed Accepted spec := by
        rcases hspec with ⟨h, -⟩ | h
        · exact h.mono fun _ => accepted_of_name
        · exact h.mono fun _ => accepted_of_plus
      obtain ⟨key, hkey⟩ := parse_ok_iff.mpr ⟨spec, rest, rfl, ha⟩
      rw [hresult] at hkey
      have hwhole := hok key (Option.some.inj hkey)
      have hsame := Bracketed.unique rest [] ha (hwhole.mono fun _ => accepted_of_name) (by simp)
      rcases hspec with ⟨-, hrest⟩ | ⟨letters, key', hl, hplus, rfl⟩
      · exact hrest (List.self_eq_append_right.mp hsame)
      · obtain ⟨letters', key'', hl', hname, heq⟩ := hwhole
        rw [← hsame] at heq
        have := key_unique hl hl' (accepted_of_plus hplus) (accepted_of_name hname) (List.cons.inj heq).2
        subst this
        exact hname.not_plus hplus
  · intro h
    simp only [Misread, not_or] at h
    cases hparse : parse text with
    | none => exact absurd (parse_none_iff.mp hparse) h.1
    | some result =>
      refine ⟨result, hparse, fun key hkey => ?_⟩
      obtain ⟨spec, rest, rfl, letters, name, hl, ha, rfl⟩ := parse_ok_iff.mp ⟨key, by rw [hparse, hkey]⟩
      rcases ha.2 with hname | hplus
      · have hspec : Bracketed IsName ('<' :: (dashed letters ++ (name ++ ['>']))) := ⟨letters, name, hl, hname, rfl⟩
        by_cases hrest : rest = []
        · subst hrest
          rwa [List.append_nil]
        · exact absurd ⟨_, rest, rfl, .inl ⟨hspec, hrest⟩⟩ h.2
      · exact absurd ⟨_, rest, rfl, .inr ⟨letters, name, hl, hplus, rfl⟩⟩ h.2

end KeyParser

/-- A code that has a name which reads back. -/
def KeyCode.Named : KeyCode → Prop
  | f n => 0 < n
  | char c => isControl c = false
  | _ => True

def KeyMods.Named (mods : KeyMods) : Prop := mods.super = false ∧ mods.hyper = false ∧ mods.meta = false

def KeyMods.letters (mods : KeyMods) : List Char :=
  (if mods.control then ['C'] else []) ++ (if mods.shift then ['S'] else []) ++ if mods.alt then ['M'] else []

namespace KeyParser

theorem display_eq (code : KeyCode) (mods : KeyMods) :
    (Key.new code mods).display = dashed mods.letters ++ code.name := by
  unfold Key.display KeyMods.letters Key.new
  cases mods.control <;> cases mods.shift <;> cases mods.alt <;> rfl

theorem foldl_letters {mods : KeyMods} (h : mods.Named) : mods.letters.foldl addMod .none = mods := by
  obtain ⟨shift, control, alt, super, hyper, «meta»⟩ := mods
  obtain ⟨rfl, rfl, rfl⟩ := h
  cases shift <;> cases control <;> cases alt <;> rfl

theorem mem_letters (mods : KeyMods) : ∀ l ∈ mods.letters, l ∈ modLetters := by
  intro l hl
  unfold KeyMods.letters at hl
  have hl : l = 'C' ∨ l = 'S' ∨ l = 'M' := by
    rcases List.mem_append.mp hl with hl | hl
    · rcases List.mem_append.mp hl with hl | hl
      · split at hl
        · exact .inl (List.mem_singleton.mp hl)
        · cases hl
      · split at hl
        · exact .inr (.inl (List.mem_singleton.mp hl))
        · cases hl
    · split at hl
      · exact .inr (.inr (List.mem_singleton.mp hl))
      · cases hl
  rcases hl with rfl | rfl | rfl <;> simp [modLetters]

theorem isNumber_toDigits {n : UInt8} (h : 0 < n) : IsNumber (Nat.toDigits 10 n.toNat) := by
  obtain ⟨hall, hvalue⟩ := digits_toDigits n.toNat
  refine ⟨hall, ?_, ?_⟩
  · rw [hvalue]
    exact UInt8.lt_iff_toNat_lt.mp h
  · rw [hvalue]
    exact n.toNat_lt

theorem parseU8_toDigits {n : UInt8} (h : 0 < n) : parseU8 (Nat.toDigits 10 n.toNat) = some n := by
  have hnumber := isNumber_toDigits h
  obtain ⟨-, hvalue⟩ := digits_toDigits n.toNat
  have hne : Nat.toDigits 10 n.toNat ≠ [] := by
    intro hnil
    rw [hnil] at hnumber
    exact absurd hnumber.2.1 (by decide)
  have hplus (rest : List Char) (he : Nat.toDigits 10 n.toNat = '+' :: rest) : False :=
    (plain_of_number hnumber '+' (by rw [he]; simp)).2.2 rfl
  have hparse := (parseDigits_iff _ (by decide)).mpr ⟨hnumber.1, hnumber.2.2, rfl⟩
  unfold parseU8
  split
  · rename_i rest he
    exact (hplus rest he).elim
  · simp only
    rw [if_neg hne, hparse]
    change some (UInt8.ofNat (digitsValue _)) = _
    rw [hvalue, UInt8.ofNat_toNat]

def ownCodes : List KeyCode :=
  [.backspace, .enter, .left, .right, .up, .down, .home, .end, .pageUp, .pageDown, .tab, .delete, .insert, .null, .esc,
    .capsLock, .scrollLock, .numLock, .printScreen, .pause, .menu, .keypadBegin]

def mediaCodes : List MediaKeyCode :=
  [.play, .pause, .playPause, .reverse, .stop, .fastForward, .rewind, .next, .prev, .record, .volumeDown, .volumeUp,
    .volumeMute]

def modCodes : List ModKeyCode :=
  [.leftShift, .leftControl, .leftAlt, .leftSuper, .leftHyper, .leftMeta, .rightShift, .rightControl, .rightAlt,
    .rightSuper, .rightHyper, .rightMeta]

def namedCodes : List KeyCode := ownCodes ++ mediaCodes.map .media ++ modCodes.map .modifier

theorem codes_checked : namedCodes.all (fun code => decide (keyCode code.name = .ok code) &&
    code.name.all fun c => decide (Plain c)) = true := by decide +kernel

theorem specials_checked : specialChars.all (fun e => decide (keyCode e.2 = .ok (.char e.1)) &&
    e.2.all fun c => decide (Plain c)) = true := by decide +kernel

theorem read_named {code : KeyCode} (h : code ∈ namedCodes) : keyCode code.name = .ok code ∧ ∀ c ∈ code.name,
    Plain c := by
  have hchecked := List.all_eq_true.mp codes_checked code h
  rw [Bool.and_eq_true] at hchecked
  exact ⟨of_decide_eq_true hchecked.1, fun c hc => of_decide_eq_true (List.all_eq_true.mp hchecked.2 c hc)⟩

theorem read_special {e : Char × List Char} (h : e ∈ specialChars) :
    keyCode e.2 = .ok (.char e.1) ∧ ∀ c ∈ e.2, Plain c := by
  have hchecked := List.all_eq_true.mp specials_checked e h
  rw [Bool.and_eq_true] at hchecked
  exact ⟨of_decide_eq_true hchecked.1, fun c hc => of_decide_eq_true (List.all_eq_true.mp hchecked.2 c hc)⟩

theorem keyCode_single (c : Char) : keyCode [c] = .ok (.char c) := by
  by_cases hf : c = 'f' ∨ c = 'F'
  · rw [keyCode_f hf]
    rfl
  · have hnone : keys.lookup (toAsciiLowercase [c]) = none := by
      refine List.lookup_eq_none_iff.mpr fun e he => ?_
      simp only [bne_iff_ne, ne_eq]
      intro heq
      exact (named he).2.2.1 (by rw [← heq]; rfl)
    unfold keyCode
    rw [hnone, functionNumber_none hf]

theorem mem_namedCodes {code : KeyCode} (hf : ∀ n, code ≠ .f n) (hc : ∀ c, code ≠ .char c) : code ∈ namedCodes := by
  unfold namedCodes
  cases code with
  | f n => exact absurd rfl (hf n)
  | char c => exact absurd rfl (hc c)
  | media code =>
    refine List.mem_append_left _ (List.mem_append_right _ (List.mem_map_of_mem ?_))
    cases code <;> decide
  | modifier code =>
    refine List.mem_append_right _ (List.mem_map_of_mem ?_)
    cases code <;> decide
  | _ => exact List.mem_append_left _ (List.mem_append_left _ (by decide))

theorem read_name {code : KeyCode} (h : code.Named) : keyCode code.name = .ok code ∧ ∀ c ∈ code.name, Plain c := by
  cases code with
  | f n =>
    have hpos : decide (0 < n) = true := decide_eq_true h
    change keyCode ('F' :: Nat.toDigits 10 n.toNat) = _ ∧ ∀ c ∈ 'F' :: Nat.toDigits 10 n.toNat, Plain c
    rw [keyCode_f (.inr rfl), parseU8_toDigits h, Option.filter_some, if_pos hpos]
    refine ⟨rfl, ?_⟩
    rintro c (_ | ⟨_, hin⟩)
    · exact plain_f (.inr rfl)
    · exact (plain_of_number (isNumber_toDigits h) c ‹_›).1
  | char c =>
    change keyCode ((specialChars.lookup c).getD [c]) = _ ∧ ∀ x ∈ (specialChars.lookup c).getD [c], Plain x
    cases hspecial : specialChars.lookup c with
    | none =>
      have hne {e : Char × List Char} (he : e ∈ specialChars) : c ≠ e.1 := by
        intro heq
        have hnone := List.lookup_eq_none_iff.mp hspecial e he
        simp [heq] at hnone
      refine ⟨keyCode_single c, fun x hx => ?_⟩
      rw [Option.getD_none, List.mem_singleton] at hx
      subst hx
      have hgt : ('>', "GT".toList) ∈ specialChars := by simp [specialChars]
      have hspace : (' ', "Space".toList) ∈ specialChars := by simp [specialChars]
      exact ⟨hne hgt, hne hspace, h⟩
    | some name =>
      obtain ⟨before, after, hmem, -⟩ := List.lookup_eq_some_iff.mp hspecial
      have hin : (c, name) ∈ specialChars := hmem ▸ List.mem_append_right _ List.mem_cons_self
      exact read_special hin
  | _ => exact read_named (mem_namedCodes (fun _ => KeyCode.noConfusion) fun _ => KeyCode.noConfusion)

theorem parse_spec {code : KeyCode} {mods : KeyMods} (hm : mods.Named) (hc : code.Named) :
    parse (Key.new code mods).spec = some (.ok (Key.new code mods)) := by
  obtain ⟨hcode, hk⟩ := read_name hc
  have ha : Accepted code.name := ⟨hk, (keyCode_ok hk).mp ⟨code, hcode⟩⟩
  have hclose : ∀ tail, ['>'] ≠ '-' :: tail := fun tail h => absurd (List.cons.inj h).1 (by decide)
  have hs : Stops ['>'] := fun c tail h => .inl (List.cons.inj h).1.symm
  have hopened := parse_opened (mem_letters mods) hk hs (ha.undashed hclose)
  rw [hcode, foldl_letters hm] at hopened
  unfold Key.spec
  rw [display_eq, List.cons_append, List.append_assoc, hopened]
  rfl

theorem keys_named : keys.all (fun e => match e.2 with
    | .f _ => false
    | .char c => decide (isControl c = false)
    | _ => true) = true := by decide +kernel

theorem keyCode_named {key : List Char} (hk : ∀ c ∈ key, Plain c) {code : KeyCode} (h : keyCode key = .ok code) :
    code.Named := by
  unfold keyCode at h
  split at h
  · rename_i code' hlookup
    obtain ⟨before, after, hkeys, -⟩ := List.lookup_eq_some_iff.mp hlookup
    have hchecked := List.all_eq_true.mp keys_named _ (hkeys ▸ List.mem_append_right before List.mem_cons_self)
    rw [← Except.ok.inj h]
    cases code' with
    | f n => cases hchecked
    | char c =>
      have hc : isControl c = false := of_decide_eq_true hchecked
      exact hc
    | _ => trivial
  · split at h
    · rename_i n hn
      rw [← Except.ok.inj h]
      have hpos : 0 < n := by
        unfold functionNumber at hn
        split at hn
        · exact of_decide_eq_true (Option.filter_eq_some_iff.mp hn).2
        · exact of_decide_eq_true (Option.filter_eq_some_iff.mp hn).2
        · cases hn
      exact hpos
    · split at h
      · rw [← Except.ok.inj h]
        exact (hk _ List.mem_cons_self).2.2
      · cases h

theorem named_foldl (letters : List Char) {mods : KeyMods} (h : mods.Named) : (letters.foldl addMod mods).Named := by
  induction letters generalizing mods with
  | nil => exact h
  | cons letter letters ih =>
    refine ih ?_
    unfold addMod
    split_ifs <;> exact h

theorem parse_again {k : Key} (h : parse text = some (.ok k)) : parse k.spec = some (.ok k) := by
  obtain ⟨letters, key, rest, code, -, -, hk, hcode, rfl⟩ := parse_read h
  exact parse_spec (named_foldl letters ⟨rfl, rfl, rfl⟩) (keyCode_named hk hcode)

theorem key_names (text : List Char) : (Exact text ↔ ¬ Misread text) ∧
    ∀ code mods, KeyMods.Named mods → KeyCode.Named code →
      parse (Key.new code mods).spec = some (.ok (Key.new code mods)) :=
  ⟨exact_iff text, fun _ _ => parse_spec⟩

theorem parse_wide : ¬ ((∀ text, Exact text) ∧ ∀ code mods, KeyMods.Named mods → KeyCode.Named code →
    parse (Key.new code mods).spec = some (.ok (Key.new code mods))) := by
  rintro ⟨h, -⟩
  obtain ⟨result, hresult, -⟩ := h ['é']
  have hnone : parse ['é'] = none := by decide
  rw [hnone] at hresult
  cases hresult

end KeyParser

end Dekit.Term
