import Dekit.Vt.KittyKeys
import Dekit.Vt.Paste

/-! Functional keys in the kitty protocol, and all keys. -/

namespace Dekit

namespace Vt

open Term

variable {p : Params} {key : Key} {c : Char} {t : CaseTables} {form : Functional}

/-- The parameters of a functional key, of which the last ones are its modifiers. -/
def formParams (form : Functional) (mods : List Param) : List Param :=
  match form with
  | .code codepoint => ⟨codepoint, true, false⟩ :: mods
  | .letter _ => if mods = [] then [] else ⟨1, true, false⟩ :: mods
  | .tilde n => ⟨n, true, false⟩ :: mods

def formFinal : Functional → UInt8
  | .code _ => 0x75
  | .letter letter => letter
  | .tilde _ => 0x7E

theorem write_mods (n : ℕ) (kind : KeyEventKind) :
    (if n != 0 || kind != .press then 0x3B :: kittyModsField n kind kittyAllFlags else []) =
      (modsParams n kind).flatMap Params.writeNext := by
  unfold modsParams
  split
  · exact write_event kind n
  · rfl

theorem functionalKitty_eq {form : Functional} (h : functional key.code key.state.keypad = some form) :
    functionalKitty key kittyAllFlags = 0x1B :: 0x5B ::
      (Params.writeValues (formParams form (modsParams (kittyMods key.mods key.state true) key.kind)) ++ [formFinal form]) := by
  have hall : hasFlag kittyAllFlags kittyAllKeys = true := rfl
  have hevents : isEventful key kittyAllFlags = (key.kind != .press) := rfl
  have hempty : (modsParams (kittyMods key.mods key.state true) key.kind).flatMap Params.writeNext = [] ↔
      modsParams (kittyMods key.mods key.state true) key.kind = [] := by
    unfold modsParams
    split
    · simp [Params.writeNext]
    · simp
  unfold functionalKitty
  rw [h]
  simp only [hall, hevents, write_mods, hempty]
  cases form with
  | code codepoint =>
    simp only [Bool.not_true, Bool.false_and, Bool.and_false, Bool.false_eq_true, if_false]
    split
    · rename_i heq
      cases heq
    · simp [formParams, formFinal, Params.writeValues, Params.writeValue]
  | letter letter =>
    have hone : decimal 1 = [0x31] := by
      rw [decimal, if_pos (by decide)]
      rfl
    simp only [formParams, formFinal]
    split
    · rfl
    · simp [Params.writeValues, Params.writeValue, hone]
  | tilde n => simp [formParams, formFinal, Params.writeValues, Params.writeValue]

/-- What a code that is no character is on the other side, by the form it is written in. -/
def FormMeans (code : KeyCode) (keypad : Bool) (form : Functional) : Prop :=
  match form with
  | .code codepoint => codepoint ≤ u32Max ∧
      (functionalKey codepoint).or ((plainKey codepoint).map fun code => (code, .empty)) =
        some (code, { KeyEventState.empty with keypad := keypad || code = .keypadBegin })
  | .letter letter => keypad = false ∧ isLetterFinal letter = true ∧ finalKey letter = some code
  | .tilde n => keypad = false ∧ n < 27 ∧ tildeKey n = some code

theorem formMeans_f (n : UInt8) {form : Functional}
    (h : functional (.f n) false = some form) : FormMeans (.f n) false form := by
  by_cases hhigh : 13 ≤ n ∧ n ≤ 35
  · have hcode : functionalCodepoint (.f n) false = some (57376 + n.toNat - 13) := by
      change (none : Option ℕ).or (if 13 ≤ n ∧ n ≤ 35 then some (57376 + n.toNat - 13) else none) = _
      rw [if_pos hhigh]
      rfl
    have hform : functional (.f n) false = some (.code (57376 + n.toNat - 13)) := by
      unfold functional
      rw [hcode]
    obtain rfl := Option.some.inj (h.symm.trans hform)
    obtain ⟨hlow, hup⟩ := hhigh
    rw [UInt8.le_iff_toNat_le] at hlow hup
    have hlow' : 13 ≤ n.toNat := hlow
    have hup' : n.toNat ≤ 35 := hup
    have hback : UInt8.ofNat (57376 + n.toNat - 13 - 57376 + 13) = n := by
      rw [show 57376 + n.toNat - 13 - 57376 + 13 = n.toNat by omega, UInt8.ofNat_toNat]
    refine ⟨Nat.le_trans (by omega) (by decide : 60000 ≤ u32Max), ?_⟩
    unfold functionalKey
    simp only
    rw [if_neg (by omega), if_neg (by omega), if_pos (by omega), hback]
    rfl
  · have hcode : functionalCodepoint (.f n) false = none := by
      change (none : Option ℕ).or (if 13 ≤ n ∧ n ≤ 35 then some (57376 + n.toNat - 13) else none) = _
      rw [if_neg hhigh]
      rfl
    have hn : n = 1 ∨ n = 2 ∨ n = 3 ∨ n = 4 ∨ n = 5 ∨ n = 6 ∨ n = 7 ∨ n = 8 ∨ n = 9 ∨ n = 10 ∨ n = 11 ∨ n = 12 := by
      unfold functional at h
      rw [hcode] at h
      simp only at h
      grind
    unfold functional at h
    rw [hcode] at h
    rcases hn with rfl | rfl | rfl | rfl | rfl | rfl | rfl | rfl | rfl | rfl | rfl | rfl
    all_goals
      cases h
      exact ⟨rfl, by decide, rfl⟩

theorem formMeans {code : KeyCode} {keypad : Bool} {form : Functional} (hc : ∀ c, code ≠ .char c)
    (hkeypad : keypad = true → (keypadCodepoint code).isSome = true) (h : functional code keypad = some form) :
    FormMeans code keypad form := by
  cases keypad with
  | true =>
    obtain ⟨codepoint, hcode⟩ := Option.isSome_iff_exists.mp (hkeypad rfl)
    have hform : functional code true = some (.code codepoint) := by
      unfold functional functionalCodepoint
      rw [if_pos rfl, hcode]
      rfl
    obtain rfl := Option.some.inj (h.symm.trans hform)
    refine ⟨Nat.le_trans (Nat.le_of_lt (codepoint_small hcode)) (by decide), ?_⟩
    rw [keypadCodepoint_key hcode]
    rfl
  | false =>
    cases code with
    | char c => exact absurd rfl (hc c)
    | f n => exact formMeans_f n h
    | media media => cases media <;> cases h <;> exact ⟨by decide, rfl⟩
    | modifier modifier => cases modifier <;> cases h <;> exact ⟨by decide, rfl⟩
    | null => cases h
    | up | down | left | right | home | «end» | insert | delete | pageUp | pageDown =>
      cases h
      exact ⟨rfl, by decide, rfl⟩
    | _ =>
      cases h
      exact ⟨by decide, rfl⟩

theorem csiUKey_functional {code : KeyCode} {state : KeyEventState} {codepoint : ℕ} (hc : ∀ c, code ≠ .char c)
    (h : (functionalKey codepoint).or ((plainKey codepoint).map fun code => (code, .empty)) = some (code, state))
    (wire kind : ℕ) : csiUKey codepoint none none wire kind [] = some {
      code := code
      mods := withModifier code (maskMods wire)
      kind := eventKind kind
      state := { maskState wire with keypad := state.keypad }
      unshifted := none
      base := none
      text := none } := by
  unfold csiUKey
  rw [h]
  cases code with
  | char c => exact absurd rfl (hc c)
  | _ => rfl

/-- The key that a functional key is read as. -/
def readForm (key : Key) (form : Functional) : Key :=
  let wire := min (kittyMods key.mods key.state true + 1) 255
  match form with
  | .code _ => ⟨key.code, withModifier key.code (maskMods wire), key.kind,
      { maskState wire with keypad := key.state.keypad || key.code = .keypadBegin }, none, none, none⟩
  | .letter _ => ⟨key.code, maskMods wire, key.kind, .empty, none, none, none⟩
  | .tilde _ => ⟨key.code, maskMods wire, key.kind, maskState wire, none, none, none⟩

theorem read_mods {n : ℕ} (hn : n ≤ 255) (kind : KeyEventKind) {v : Param} (hp : p.values = v :: modsParams n kind) :
    maskMods (min (p.get16 1 0) 255) = maskMods (min (n + 1) 255) ∧
    maskState (min (p.get16 1 0) 255) = maskState (min (n + 1) 255) ∧ csiEventKind p = kind := by
  unfold Params.get16 Params.get Params.getOpt csiEventKind Params.isSub Params.get16 Params.get Params.getOpt
  rw [hp]
  unfold modsParams
  split
  · have hwire : min (min (n + 1) 65535) 255 = min (n + 1) 255 := by omega
    cases kind <;> simp [eventParams, hwire, eventKind]
  · rename_i hno
    simp only [Bool.or_eq_true, bne_iff_ne, ne_eq, not_or, not_not] at hno
    obtain ⟨rfl, rfl⟩ := hno
    exact ⟨rfl, rfl, rfl⟩

theorem decode_form (hc : ∀ c, key.code ≠ .char c) (hmeans : FormMeans key.code key.state.keypad form)
    (hplain : p.prefixByte = 0) (hfinal : p.final = formFinal form)
    (hp : p.values = formParams form (modsParams (kittyMods key.mods key.state true) key.kind)) :
    decodeCsi p = [.key (readForm key form)] := by
  have hle := kittyMods_le key.mods key.state
  cases form with
  | code codepoint =>
    obtain ⟨-, hcode⟩ := hmeans
    have hfinal : p.final = 0x75 := hfinal
    have hread : decodeCsiU p = some (readForm key (.code codepoint)) := by
      rw [decode_mods hp]
      change csiUKey codepoint none none _ _ [] = _
      rw [csiUKey_functional hc hcode, eventKind_number]
      rfl
    have hcsi : decodeCsi p = (decodeCsiU p).toList.map .key := by
      unfold decodeCsi
      rw [hfinal, hplain]
      rfl
    rw [hcsi, hread]
    rfl
  | letter letter =>
    obtain ⟨hpad, hletter, hkey⟩ := hmeans
    have hfinal : p.final = letter := hfinal
    have hcsi : decodeCsi p = [decodeLetter p key.code] := by
      unfold decodeCsi
      rw [hfinal, if_pos ⟨hletter, hplain⟩, hkey]
      rfl
    rw [hcsi]
    unfold formParams at hp
    simp only at hp
    unfold decodeLetter
    by_cases hmods : modsParams (kittyMods key.mods key.state true) key.kind = []
    · rw [if_pos hmods] at hp
      have hnone : kittyMods key.mods key.state true = 0 ∧ key.kind = .press := by
        unfold modsParams at hmods
        split at hmods
        · cases hmods
        · rename_i hno
          simpa only [Bool.or_eq_true, bne_iff_ne, ne_eq, not_or, not_not] using hno
      rw [hp, if_neg (by decide)]
      unfold readForm
      rw [hnone.1, hnone.2]
      rfl
    · rw [if_neg hmods] at hp
      obtain ⟨hread, -, hkind⟩ := read_mods hle key.kind hp
      have hlen : 2 ≤ p.values.length := by
        rw [hp, List.length_cons]
        have := List.length_pos_of_ne_nil hmods
        omega
      rw [if_pos hlen, hread, hkind]
      rfl
  | tilde n =>
    obtain ⟨hpad, hn, hkey⟩ := hmeans
    have hfinal : p.final = 0x7E := hfinal
    have hcsi : decodeCsi p = decodeTilde p := by
      unfold decodeCsi
      rw [hfinal, hplain]
      rfl
    obtain ⟨hread, hstate, hkind⟩ := read_mods hle key.kind hp
    have hfirst : p.getOpt 0 = some n := by
      unfold Params.getOpt
      rw [hp]
      rfl
    have hsmall : min n 65535 = n := by omega
    rw [hcsi]
    unfold decodeTilde
    simp only [hfirst]
    rw [if_neg (by omega), hsmall, hkey, hread, hstate, hkind]
    rfl

/-- What a key that is no character has to be to be read as it is. -/
def OtherCarried (key : Key) : Prop :=
  key.unshifted = none ∧ key.base = none ∧ key.text = none ∧
  (match functional key.code key.state.keypad with
    | some (.letter _) => key.state.capsLock = false ∧ key.state.numLock = false
    | _ =>
      kittyMods key.mods key.state true = 255 → key.code = .modifier .leftShift ∨ key.code = .modifier .rightShift) ∧
  (key.code = .keypadBegin → key.state.keypad = true)

theorem withModifier_back {code : KeyCode} {mods : KeyMods} (state : KeyEventState)
    (hown : withModifier code mods = mods) :
    withModifier code (maskMods (min (kittyMods mods state true + 1) 255)) = mods ↔
      (kittyMods mods state true = 255 → code = .modifier .leftShift ∨ code = .modifier .rightShift) := by
  by_cases hfull : kittyMods mods state true = 255
  · obtain rfl := all_of_full hfull
    rw [hfull]
    cases code with
    | modifier modifier => cases modifier <;> decide
    | _ => exact iff_of_false (by change ¬ maskMods 255 = _; decide) (by simp)
  · rw [(mods_back mods state).mpr hfull]
    exact iff_of_true hown fun h => absurd h hfull

theorem lock_of_full {mods : KeyMods} {state : KeyEventState} (h : kittyMods mods state true = 255) :
    state.capsLock = true := by
  obtain ⟨shift, control, alt, super, hyper, meta'⟩ := mods
  obtain ⟨keypad, caps, num⟩ := state
  revert shift control alt super hyper meta' keypad caps num
  decide +kernel

theorem readForm_code {codepoint : ℕ} (hform : functional key.code key.state.keypad = some (.code codepoint))
    (hown : withModifier key.code key.mods = key.mods) : readForm key (.code codepoint) = key ↔ OtherCarried key := by
  obtain ⟨code, mods, kind, ⟨keypad, caps, num⟩, unshifted, base, text⟩ := key
  have hback := withModifier_back ⟨keypad, caps, num⟩ hown
  have hpad : ((keypad || decide (code = .keypadBegin)) = keypad) ↔ (code = .keypadBegin → keypad = true) := by
    cases keypad <;> simp
  unfold OtherCarried readForm
  simp only at hform hback ⊢
  rw [hform, maskState_kitty]
  simp only [Key.mk.injEq, true_and, hback, KeyEventState.mk.injEq, and_true, hpad]
  constructor
  · rintro ⟨hmods, hbegin, rfl, rfl, rfl⟩
    exact ⟨rfl, rfl, rfl, hmods, hbegin⟩
  · rintro ⟨rfl, rfl, rfl, hmods, hbegin⟩
    exact ⟨hmods, hbegin, rfl, rfl, rfl⟩

theorem readForm_letter {letter : UInt8} (hform : functional key.code key.state.keypad = some (.letter letter))
    (hpad : key.state.keypad = false) : readForm key (.letter letter) = key ↔ OtherCarried key := by
  obtain ⟨code, mods, kind, ⟨keypad, caps, num⟩, unshifted, base, text⟩ := key
  obtain rfl : keypad = false := hpad
  have hbegin : code ≠ .keypadBegin := by
    rintro rfl
    cases hform
  have hmods (hcaps : caps = false) : maskMods (min (kittyMods mods ⟨false, caps, num⟩ true + 1) 255) = mods :=
    (mods_back _ _).mpr fun hfull => Bool.false_ne_true (hcaps.symm.trans (lock_of_full hfull))
  unfold OtherCarried readForm
  simp only at hform ⊢
  rw [hform]
  simp only [Key.mk.injEq, true_and, KeyEventState.mk.injEq, KeyEventState.empty]
  constructor
  · rintro ⟨-, ⟨rfl, rfl⟩, rfl, rfl, rfl⟩
    exact ⟨rfl, rfl, rfl, ⟨rfl, rfl⟩, fun h => absurd h hbegin⟩
  · rintro ⟨rfl, rfl, rfl, ⟨rfl, rfl⟩, -⟩
    exact ⟨hmods rfl, ⟨rfl, rfl⟩, rfl, rfl, rfl⟩

theorem readForm_tilde {n : ℕ} (hform : functional key.code key.state.keypad = some (.tilde n))
    (hpad : key.state.keypad = false) : readForm key (.tilde n) = key ↔ OtherCarried key := by
  obtain ⟨code, mods, kind, ⟨keypad, caps, num⟩, unshifted, base, text⟩ := key
  obtain rfl : keypad = false := hpad
  have hbegin : code ≠ .keypadBegin := by
    rintro rfl
    cases hform
  have hshift : ¬ (code = .modifier .leftShift ∨ code = .modifier .rightShift) := by
    rintro (rfl | rfl) <;> cases hform
  unfold OtherCarried readForm
  simp only at hform hshift ⊢
  rw [hform, maskState_kitty]
  simp only [Key.mk.injEq, true_and, mods_back]
  constructor
  · rintro ⟨hfull, rfl, rfl, rfl⟩
    exact ⟨rfl, rfl, rfl, fun h => absurd h hfull, fun h => absurd h hbegin⟩
  · rintro ⟨rfl, rfl, rfl, hfull, -⟩
    exact ⟨fun h => hshift (hfull h), rfl, rfl, rfl⟩

theorem readForm_iff (hform : functional key.code key.state.keypad = some form)
    (hmeans : FormMeans key.code key.state.keypad form) (hown : withModifier key.code key.mods = key.mods) :
    readForm key form = key ↔ OtherCarried key := by
  cases form with
  | code codepoint => exact readForm_code hform hown
  | letter letter => exact readForm_letter hform hmeans.1
  | tilde n => exact readForm_tilde hform hmeans.1

/-- What a key has to be to be read as it is. -/
def Carried (key : Key) : Prop :=
  match key.code with
  | .char _ => CharCarried key ∧ TextFits key
  | _ => OtherCarried key

/-- Bytes that are one command are decoded as it is, however they are cut. -/
theorem EventDecoder.feeds_command {d : EventDecoder} {chunks : List (List UInt8)} {bs : List UInt8} {final : UInt8}
    (hd : d.AtRest) (hb : ∀ b ∈ bs, 0x20 ≤ b ∧ b ≤ 0x3F) (hfinal : 0x40 ≤ final ∧ final ≤ 0x7E) (hx10 : final ≠ 0x4D)
    (hmark : isMark { bs.foldl Params.scan .reset with final := final } 200 = false)
    (hchunks : chunks.flatten = 0x1B :: 0x5B :: (bs ++ [final])) :
    (d.feeds chunks).2 ++
    (d.feeds chunks).1.flush.2 = decodeCsi { bs.foldl Params.scan .reset with final := final } := by
  obtain ⟨hcore, hitems⟩ := Scanner.feeds_command hd.ground hb hfinal hx10 hchunks
  have hground : (d.scanner.feeds chunks).1.state = .ground := by
    rw [← Scanner.core_state, hcore, Scanner.core_state]
    exact hd.ground
  have hdecode : Pasting.decode .none (.csi { bs.foldl Params.scan .reset with final := final }) =
      (.none, decodeCsi { bs.foldl Params.scan .reset with final := final }) := by
    unfold Pasting.decode
    simp only [Pasting.none, hmark, Bool.false_eq_true, if_false]
    rfl
  have hflush : (d.scanner.feeds chunks).1.flush = ((d.scanner.feeds chunks).1, []) := by
    unfold Scanner.flush
    rw [hground]
  rw [feeds_eq, hd.idle, hitems, Pasting.decodes_one, hdecode]
  unfold EventDecoder.flush
  simp only [hflush]
  exact List.append_nil _

theorem key_of_command {code : Option Key} : code.toList.map InternalTermEvent.key = [.key key] ↔ code = some key := by
  cases code with
  | none => simp
  | some k => simp

theorem Nameable.other (h : Nameable t key) (hc : ∀ c, key.code ≠ .char c) :
    (functional key.code key.state.keypad).isSome = true ∧ withModifier key.code key.mods = key.mods := by
  have hrest := h.2
  cases hcode : key.code with
  | char c => exact absurd hcode (hc c)
  | _ =>
    rw [hcode] at hrest
    exact hrest

theorem keyKitty_char (hkey : key.code = .char c) : keyKitty t key kittyAllFlags = charKitty t key c kittyAllFlags := by
  unfold keyKitty
  rw [if_neg (fun h => by cases h.2), hkey]

theorem keyKitty_other (hc : ∀ c, key.code ≠ .char c) :
    keyKitty t key kittyAllFlags = functionalKitty key kittyAllFlags := by
  unfold keyKitty
  rw [if_neg (fun h => by cases h.2)]
  cases hcode : key.code with
  | char c => exact absurd hcode (hc c)
  | _ => rfl

theorem survives_char_iff (hkey : key.code = .char c) (h : Nameable t key) {d : EventDecoder} (hd : d.AtRest)
    {chunks : List (List UInt8)} (hchunks : chunks.flatten = keyKitty t key kittyAllFlags) :
    (d.feeds chunks).2 ++ (d.feeds chunks).1.flush.2 = [.key key] ↔ CharCarried key ∧ TextFits key := by
  have hname : CharNameable t key c := by
    have hrest := h.2
    rw [hkey] at hrest
    exact hrest
  rw [keyKitty_char hkey, charKitty_eq hkey hname h.1] at hchunks
  obtain ⟨hplain, hread⟩ := char_read_iff hkey hname h.1
  have hmark : isMark { (Params.writeValues (charParams key c)).foldl Params.scan .reset with final := 0x75 } 200 = false := by
    unfold isMark
    simp
  rw [EventDecoder.feeds_command hd (Params.writeValues_range _) (by decide) (by decide) hmark hchunks, ← hread,
    ← key_of_command]
  have hcsi : decodeCsi { (Params.writeValues (charParams key c)).foldl Params.scan .reset with final := 0x75 } =
      (decodeCsiU { (Params.writeValues (charParams key c)).foldl Params.scan .reset with final := 0x75 }).toList.map .key := by
    unfold decodeCsi
    simp only [hplain]
    rfl
  rw [hcsi]

theorem formParams_fit (hmeans : FormMeans key.code key.state.keypad form) {n : ℕ} (hn : n ≤ 255)
    (kind : KeyEventKind) :
    ({ Params.reset with values := formParams form (modsParams n kind) } : Params).Fit := by
  have hmods : ∀ v ∈ modsParams n kind, v.value ≤ u32Max ∧ (v.given = false → v.value = 0) := by
    unfold modsParams
    split
    · cases kind <;> simp [eventParams, u32Max] <;> omega
    · simp
  have hlen : (modsParams n kind).length + 1 ≤ maxParams := by
    unfold modsParams
    split
    · cases kind <;> simp [eventParams, maxParams]
    · simp [maxParams]
  have hfit {first : ℕ} (hfirst : first ≤ u32Max) :
      ({ Params.reset with values := ⟨first, true, false⟩ :: modsParams n kind } : Params).Fit := by
    refine Params.fit_of_small (fun v hv => ?_) hlen rfl ⟨rfl, rfl⟩
    rcases List.mem_cons.mp hv with rfl | hv
    · exact ⟨hfirst, fun h => by cases h⟩
    · exact hmods v hv
  cases form with
  | code codepoint => exact hfit hmeans.1
  | letter letter =>
    unfold formParams
    simp only
    split
    · exact Params.fit_reset
    · exact hfit (by decide)
  | tilde m => exact hfit (Nat.le_trans (Nat.le_of_lt hmeans.2.1) (by decide))

theorem final_range (hmeans : FormMeans key.code key.state.keypad form) :
    0x40 ≤ formFinal form ∧ formFinal form ≤ 0x7E ∧ formFinal form ≠ 0x4D := by
  cases form with
  | code codepoint => exact (by decide : 0x40 ≤ (0x75 : UInt8) ∧ (0x75 : UInt8) ≤ 0x7E ∧ (0x75 : UInt8) ≠ 0x4D)
  | letter letter =>
    have hletter := hmeans.2.1
    unfold isLetterFinal at hletter
    simp only [List.contains_eq_mem, List.mem_cons, List.not_mem_nil, or_false, decide_eq_true_eq] at hletter
    rcases hletter with rfl | rfl | rfl | rfl | rfl | rfl | rfl | rfl | rfl <;> decide
  | tilde n => exact (by decide : 0x40 ≤ (0x7E : UInt8) ∧ (0x7E : UInt8) ≤ 0x7E ∧ (0x7E : UInt8) ≠ 0x4D)

theorem no_mark (hmeans : FormMeans key.code key.state.keypad form) (mods : List Param) :
    isMark { Params.reset with values := formParams form mods, final := formFinal form } 200 = false := by
  unfold isMark
  cases form with
  | code codepoint => rfl
  | letter letter =>
    have hletter : letter ≠ 0x7E := by
      rintro rfl
      exact absurd hmeans.2.1 (by decide)
    simp [formFinal, hletter]
  | tilde n =>
    have hn : n ≠ 200 := by
      have := hmeans.2.1
      omega
    simp [formFinal, formParams, Params.get, Params.getOpt, hn]

theorem survives_other_iff (hc : ∀ c, key.code ≠ .char c) (h : Nameable t key) {d : EventDecoder} (hd : d.AtRest)
    {chunks : List (List UInt8)} (hchunks : chunks.flatten = keyKitty t key kittyAllFlags) :
    (d.feeds chunks).2 ++ (d.feeds chunks).1.flush.2 = [.key key] ↔ OtherCarried key := by
  obtain ⟨hsome, hown⟩ := h.other hc
  obtain ⟨form, hform⟩ := Option.isSome_iff_exists.mp hsome
  have hmeans := formMeans hc h.1 hform
  rw [keyKitty_other hc, functionalKitty_eq hform] at hchunks
  have hfit := formParams_fit hmeans (kittyMods_le key.mods key.state) key.kind
  have hscan := Params.scan_writeValues (q := .reset) hfit rfl
  simp only at hscan
  obtain ⟨hlow, hup, hx10⟩ := final_range hmeans
  have hmark : isMark { (Params.writeValues (formParams form (modsParams (kittyMods key.mods key.state true) key.kind))).foldl
      Params.scan .reset with final := formFinal form } 200 = false := by
    rw [hscan]
    exact no_mark hmeans _
  rw [EventDecoder.feeds_command hd (Params.writeValues_range _) ⟨hlow, hup⟩ hx10 hmark hchunks, hscan,
    decode_form hc hmeans rfl rfl rfl, ← readForm_iff hform hmeans hown]
  simp

/-- Exactly the carried keys come through the protocol. -/
theorem survives_iff (t : CaseTables) (key : Key) (h : Nameable t key) (d : EventDecoder) (hd : d.AtRest)
    (chunks : List (List UInt8)) (hchunks : chunks.flatten = keyKitty t key kittyAllFlags) :
    (d.feeds chunks).2 ++ (d.feeds chunks).1.flush.2 = [.key key] ↔ Carried key := by
  unfold Carried
  cases hcode : key.code with
  | char c => exact survives_char_iff hcode h hd hchunks
  | _ => exact survives_other_iff (fun c hc => by rw [hcode] at hc; cases hc) h hd hchunks

def asciiCase : CaseTables := ⟨fun c => [c.toLower], fun c => [c.toUpper], Char.isAlpha⟩

def shiftedKey : Key := ⟨.char 'A', .none, .press, .empty, some 'a', none, none⟩

theorem shiftedKey_named : CharNameable asciiCase shiftedKey 'A' where
  ordinary := ⟨by decide, by decide⟩
  lower := nofun
  shift := nofun
  unshifted u hu := by
    obtain rfl := Option.some.inj hu
    exact ⟨by decide, ⟨by decide, by decide⟩, rfl⟩
  base := nofun
  text := nofun

theorem survives_iff_shifted : (EventDecoder.new.feeds [keyKitty asciiCase shiftedKey kittyAllFlags]).2 ++
    (EventDecoder.new.feeds [keyKitty asciiCase shiftedKey kittyAllFlags]).1.flush.2 = [.key shiftedKey] ↔
      Carried shiftedKey :=
  survives_iff asciiCase shiftedKey ⟨nofun, shiftedKey_named⟩ EventDecoder.new EventDecoder.atRest_new _
    List.flatten_singleton

def lockedKey : Key := ⟨.up, .none, .press, ⟨false, true, false⟩, none, none, none⟩

/-- An arrow key loses Caps Lock. -/
theorem lock_lost : Nameable asciiCase lockedKey ∧
    (EventDecoder.new.feeds [keyKitty asciiCase lockedKey kittyAllFlags]).2 ++
      (EventDecoder.new.feeds [keyKitty asciiCase lockedKey kittyAllFlags]).1.flush.2 ≠ [.key lockedKey] := by
  have hname : Nameable asciiCase lockedKey := ⟨nofun, rfl, rfl⟩
  have hother : ∀ c, lockedKey.code ≠ .char c := nofun
  have hiff := survives_other_iff hother hname EventDecoder.atRest_new List.flatten_singleton
  exact ⟨hname, fun h => absurd (hiff.mp h).2.2.2.1.1 (by decide)⟩

end Vt

end Dekit
