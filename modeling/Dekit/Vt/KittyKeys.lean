import Dekit.Vt.Kitty
import Dekit.Vt.Runs

/-! Which keys come through the kitty protocol as they are. -/

namespace Dekit

namespace Vt

open Term

variable {p : Params} {pre vs g rest : List Param} {v m : Param} {key : Key} {c : Char} {t : CaseTables}

namespace Params

def valueOf (v : Param) : Option ℕ := if v.given then some v.value else none

theorem getElem?_past (pre rest : List Param) (h : p.values = pre ++ rest) : p.values[pre.length]? = rest.head? := by
  rw [h, List.getElem?_append_right le_rfl, Nat.sub_self, List.head?_eq_getElem?]

theorem pastSubs_group (pre g rest : List Param) (h : p.values = pre ++ g ++ rest) (hg : ∀ v ∈ g, v.sub = true)
    (hrest : ∀ v ∈ rest.head?, v.sub = false) : p.pastSubs pre.length = (pre ++ g).length := by
  have hstop : rest.takeWhile Param.sub = [] := by
    cases rest with
    | nil => rfl
    | cons v rest => rw [List.takeWhile_cons_of_neg (by rw [hrest v rfl]; decide)]
  rw [pastSubs, h, List.append_assoc, List.drop_left, List.takeWhile_append_of_pos hg, hstop, List.append_nil,
    List.length_append]

theorem group_last (h : p.values = pre ++ rest) (hrest : ∀ v ∈ rest.tail, v.sub = true) :
    p.group pre.length = rest := by
  rw [group, h, List.drop_left]
  cases rest with
  | nil => rfl
  | cons v rest =>
    have hall : (rest ++ []).takeWhile Param.sub = rest ++ ([].takeWhile Param.sub) :=
      List.takeWhile_append_of_pos hrest
    rw [List.append_nil, List.takeWhile_nil, List.append_nil] at hall
    exact congrArg (v :: ·) hall

end Params

def textOf (vs : List Param) : List Char := vs.filterMap fun v => if v.given then charFromU32 v.value else none

/-- The parameters of a sequence of kitty's in their groups: the codes, the modifiers and the text. -/
structure Groups where
  code : Param
  alts : List Param
  mods : Param
  event : List Param
  text : List Param

namespace Groups

/-- Colons attach all of a group but its first. -/
structure Wf (s : Groups) : Prop where
  alts : ∀ v ∈ s.alts, v.sub = true
  mods : s.mods.sub = false
  event : ∀ v ∈ s.event, v.sub = true
  text : ∀ v ∈ s.text.head?, v.sub = false
  more : ∀ v ∈ s.text.tail, v.sub = true

def kind (s : Groups) : ℕ :=
  match s.event with
  | [] => 1
  | v :: _ => min ((Params.valueOf v).getD 1) 255

variable {s : Groups}

theorem decode_eq (h : s.Wf) (hp : p.values = s.code :: s.alts ++ s.mods :: s.event ++ s.text) : decodeCsiU p =
    csiUKey ((Params.valueOf s.code).getD 0) (s.alts[0]?.bind Params.valueOf) (s.alts[1]?.bind Params.valueOf)
      (min ((Params.valueOf s.mods).getD 0) 255) s.kind (textOf s.text) := by
  obtain ⟨code, alts, mods, event, text⟩ := s
  obtain ⟨halts, hmods, hevent, htext, hmore⟩ := h
  simp only at halts hmods hevent htext hmore hp
  have hcode : p.get 0 0 = (Params.valueOf code).getD 0 := by
    unfold Params.get Params.getOpt
    rw [hp]
    rfl
  have hmodsAt : p.pastSubs 1 = (code :: alts).length :=
    Params.pastSubs_group [code] alts (mods :: event ++ text) (by rw [hp]; simp) halts
      (by simpa using hmods)
  have hwire : p.get (code :: alts).length 0 = (Params.valueOf mods).getD 0 := by
    unfold Params.get Params.getOpt
    rw [Params.getElem?_past (code :: alts) (mods :: event ++ text) (by rw [hp]; simp)]
    rfl
  have hnext : (code :: alts).length + 1 = (code :: alts ++ [mods]).length := by simp
  have hat : p.values[(code :: alts ++ [mods]).length]? = (event ++ text).head? :=
    Params.getElem?_past _ _ (by rw [hp]; simp)
  have hkind : (if p.isSub (code :: alts ++ [mods]).length then min (p.get (code :: alts ++ [mods]).length 1) 255 else 1) =
      kind ⟨code, alts, mods, event, text⟩ := by
    unfold Params.isSub Params.get Params.getOpt kind
    rw [hat]
    cases event with
    | nil =>
      cases text with
      | nil => rfl
      | cons v text => simp [htext v rfl]
    | cons v event => simp [hevent v List.mem_cons_self, Params.valueOf]
  have htextAt : p.pastSubs (code :: alts ++ [mods]).length = (code :: alts ++ [mods] ++ event).length :=
    Params.pastSubs_group _ _ text (by rw [hp]; simp) hevent htext
  have hgroup : p.group (code :: alts ++ [mods] ++ event).length = text := Params.group_last (by rw [hp]; simp) hmore
  have hshifted : (if p.isSub 1 then p.getOpt 1 else none) = alts[0]?.bind Params.valueOf := by
    unfold Params.isSub Params.getOpt
    rw [hp]
    cases alts with
    | nil => simp [hmods]
    | cons a alts => simp [halts a List.mem_cons_self, Params.valueOf]
  have hbase : (if p.isSub 1 && p.isSub 2 then p.getOpt 2 else none) = alts[1]?.bind Params.valueOf := by
    unfold Params.isSub Params.getOpt
    rw [hp]
    match alts with
    | [] => simp [hmods]
    | [a] => simp [hmods]
    | a :: a' :: alts => simp [halts a (by simp), halts a' (by simp), Params.valueOf]
  unfold decodeCsiU
  simp only
  rw [hcode, hmodsAt, hwire, hnext, hkind, htextAt, hgroup, hshifted, hbase]
  rfl

theorem decode_bare {code : Param} {alts : List Param} (halts : ∀ v ∈ alts, v.sub = true)
    (hp : p.values = code :: alts) :
    decodeCsiU p = csiUKey ((Params.valueOf code).getD 0) (alts[0]?.bind Params.valueOf) (alts[1]?.bind Params.valueOf)
      0 1 [] := by
  have hmodsAt : p.pastSubs 1 = (code :: alts).length :=
    Params.pastSubs_group [code] alts [] (by rw [hp]; simp) halts (by simp)
  have hend {n : ℕ} (hn : (code :: alts).length ≤ n) : p.values[n]? = none := by
    rw [hp]
    exact List.getElem?_eq_none hn
  have hwire : p.get (code :: alts).length 0 = 0 := by
    unfold Params.get Params.getOpt
    rw [hend le_rfl]
    rfl
  have hsub : p.isSub ((code :: alts).length + 1) = false := by
    unfold Params.isSub
    rw [hend (Nat.le_succ _)]
    rfl
  have hgroup (n : ℕ) (hn : (code :: alts).length ≤ n) : p.group n = [] := by
    unfold Params.group
    rw [hp, List.drop_eq_nil_of_le hn]
  have htextAt : (code :: alts).length ≤ p.pastSubs ((code :: alts).length + 1) :=
    Nat.le_trans (Nat.le_succ _) (Nat.le_add_right _ _)
  have hshifted : (if p.isSub 1 then p.getOpt 1 else none) = alts[0]?.bind Params.valueOf := by
    unfold Params.isSub Params.getOpt
    rw [hp]
    cases alts with
    | nil => simp
    | cons a alts => simp [halts a List.mem_cons_self, Params.valueOf]
  have hbase : (if p.isSub 1 && p.isSub 2 then p.getOpt 2 else none) = alts[1]?.bind Params.valueOf := by
    unfold Params.isSub Params.getOpt
    rw [hp]
    match alts with
    | [] => simp
    | [a] => simp
    | a :: a' :: alts => simp [halts a (by simp), halts a' (by simp), Params.valueOf]
  have hcode : p.get 0 0 = (Params.valueOf code).getD 0 := by
    unfold Params.get Params.getOpt
    rw [hp]
    rfl
  unfold decodeCsiU
  simp only
  rw [hcode, hmodsAt, hwire, hsub, hgroup _ htextAt, hshifted, hbase]
  rfl

end Groups

def isPrivateUse (c : Char) : Bool :=
  0xE000 ≤ c.toNat ∧ c.toNat ≤ 0xF8FF ∨ 0xF0000 ≤ c.toNat ∧ c.toNat ≤ 0xFFFFD ∨ 0x100000 ≤ c.toNat ∧ c.toNat ≤ 0x10FFFD

def Ordinary (c : Char) : Prop := isControl c = false ∧ isPrivateUse c = false

/-- A character key as the protocol can name it: it is lowercase and Shift makes nothing of it, or it is what Shift makes
of another. -/
structure CharNameable (t : CaseTables) (key : Key) (c : Char) : Prop where
  ordinary : Ordinary c
  lower : key.unshifted = none → (t.toLowercase c).headD c = c ∨ t.isAlphabetic c = false
  shift : key.unshifted = none → key.mods.shift = true → (t.toUppercase c).headD c = c
  unshifted : ∀ u, key.unshifted = some u → u ≠ c ∧ Ordinary u ∧ key.mods.shift = false
  base : ∀ b, key.base = some b → b ≠ c
  text : ∀ text, key.text = some text → text ≠ [] ∧ text ≠ [c] ∧ key.kind ≠ .release ∧ ∀ d ∈ text, isControl d = false

/-- A key as the protocol can name it. -/
def Nameable (t : CaseTables) (key : Key) : Prop :=
  (key.state.keypad = true → (keypadCodepoint key.code).isSome = true) ∧
  match key.code with
  | .char c => CharNameable t key c
  | code => (functional code key.state.keypad).isSome = true ∧ withModifier code key.mods = key.mods

/-- The parameter of an event type that is told apart. -/
def eventParams (kind : KeyEventKind) : List Param :=
  match kind with
  | .press => []
  | .repeat => [⟨2, true, true⟩]
  | .release => [⟨3, true, true⟩]

def textParams : List Char → List Param
  | [] => []
  | c :: text => ⟨c.toNat, true, false⟩ :: text.map fun c => ⟨c.toNat, true, true⟩

def charValue (key : Key) : ℕ :=
  kittyMods { key.mods with shift := key.mods.shift || key.unshifted.isSome } key.state true

/-- The text a character key is sent with. -/
def wireText (key : Key) (c : Char) : List Char :=
  match key.text with
  | some text => text
  | none => if key.kind != .release && isTextKey key.mods then [c] else []

def altParams (key : Key) (c : Char) : List Param :=
  match key.unshifted, key.base with
  | none, none => []
  | some _, none => [⟨c.toNat, true, true⟩]
  | none, some base => [⟨0, false, true⟩, ⟨base.toNat, true, true⟩]
  | some _, some base => [⟨c.toNat, true, true⟩, ⟨base.toNat, true, true⟩]

def charGroups (key : Key) (c : Char) : Groups where
  code := ⟨if key.state.keypad then (keypadCodepoint (.char c)).getD 0 else (key.unshifted.getD c).toNat, true, false⟩
  alts := if key.state.keypad then [] else altParams key c
  mods := ⟨charValue key + 1, true, false⟩
  event := eventParams key.kind
  text := textParams (wireText key c)

def Groups.values (s : Groups) : List Param := s.code :: s.alts ++ s.mods :: s.event ++ s.text

def charNeeds (key : Key) (c : Char) : Bool := wireText key c != [] || charValue key != 0 || key.kind != .press

def charParams (key : Key) (c : Char) : List Param :=
  if charNeeds key c then (charGroups key c).values else (charGroups key c).code :: (charGroups key c).alts

theorem protocolName_eq (h : CharNameable t key c) :
    protocolName t key c = (key.unshifted.getD c, key.unshifted.map fun _ => c) := by
  unfold protocolName
  cases hu : key.unshifted with
  | some u => exact if_pos (h.unshifted u hu).1
  | none =>
    simp only
    rw [if_neg, if_neg]
    · rfl
    · exact fun hshift => hshift.2 (h.shift hu hshift.1)
    · exact fun hlower => (h.lower hu).elim hlower.1 fun hno => Bool.false_ne_true (hno.symm.trans hlower.2)

theorem sentText_eq (h : CharNameable t key c) : sentText key (isTextKey key.mods) c kittyAllFlags =
    if wireText key c = [] then none else some (wireText key c) := by
  have hflag : hasFlag kittyAllFlags kittyText = true := rfl
  unfold sentText wireText
  rw [hflag, Bool.true_and]
  cases htext : key.text with
  | some text =>
    obtain ⟨hne, -, hkind, hclean⟩ := h.text text htext
    have hrelease : (key.kind != .release) = true := bne_iff_ne.mpr hkind
    have hall : text.all (fun c => !isControl c) = true := List.all_eq_true.mpr fun d hd => by rw [hclean d hd]; rfl
    simp only [hrelease, if_true]
    rw [if_neg hne, Option.filter_some, if_pos (by simp [hne, hall])]
  | none =>
    have hclean : isControl c = false := h.ordinary.1
    cases hrelease : key.kind != .release with
    | false => rfl
    | true =>
      cases htextKey : isTextKey key.mods with
      | false => rfl
      | true => simp [Option.filter_some, hclean]

theorem writeNext_given (n : ℕ) (sub : Bool) :
    Params.writeNext ⟨n, true, sub⟩ = (if sub then 0x3A else 0x3B) :: decimal n := rfl

theorem write_event (kind : KeyEventKind) (n : ℕ) : 0x3B :: kittyModsField n kind kittyAllFlags =
    (⟨n + 1, true, false⟩ :: eventParams kind).flatMap Params.writeNext := by
  have hflag : hasFlag kittyAllFlags kittyEventTypes = true := rfl
  unfold kittyModsField eventNumber
  cases kind <;> simp [hflag, eventParams, Params.writeNext, Params.writeValue]

theorem write_text {text : List Char} (h : text ≠ []) :
    0x3B :: codepoints text = (textParams text).flatMap Params.writeNext := by
  cases text with
  | nil => exact absurd rfl h
  | cons c text =>
    simp only [codepoints, textParams, List.flatMap_cons, List.flatMap_map, writeNext_given]
    rfl

theorem write_alts (key : Key) (c : Char) : alternates (key.unshifted.map fun _ => c) key.base kittyAllFlags =
    (altParams key c).flatMap Params.writeNext := by
  have hflag : hasFlag kittyAllFlags kittyAlternateKeys = true := rfl
  unfold alternates altParams
  cases key.unshifted <;> cases key.base <;> simp [hflag, Params.writeNext, Params.writeValue]

theorem write_code (hkey : key.code = .char c) (hkeypad : key.state.keypad = true → (keypadCodepoint key.code).isSome = true) :
    codeField (if key.state.keypad then functionalCodepoint key.code true else none) (key.unshifted.getD c)
      (key.unshifted.map fun _ => c) key.base kittyAllFlags =
      Params.writeValue (charGroups key c).code ++ (charGroups key c).alts.flatMap Params.writeNext := by
  have hall : hasFlag kittyAllFlags kittyAllKeys = true := rfl
  rw [hkey] at hkeypad ⊢
  unfold charGroups codeField
  cases hpad : key.state.keypad with
  | false =>
    simp only [Bool.false_eq_true, if_false]
    rw [write_alts]
    rfl
  | true =>
    obtain ⟨codepoint, hcode⟩ := Option.isSome_iff_exists.mp (hkeypad hpad)
    have hfull : functionalCodepoint (.char c) true = some codepoint := by
      unfold functionalCodepoint
      rw [if_pos rfl, hcode]
      rfl
    simp only [if_true, hall]
    rw [hfull, hcode, List.flatMap_nil, List.append_nil]
    rfl

theorem write_rest (key : Key) (c : Char) :
    modsAndText (charValue key) key (if wireText key c = [] then none else some (wireText key c)) kittyAllFlags =
      if charNeeds key c then
        ((charGroups key c).mods :: (charGroups key c).event ++ (charGroups key c).text).flatMap Params.writeNext
      else [] := by
  have hevents : isEventful key kittyAllFlags = (key.kind != .press) := rfl
  unfold modsAndText charNeeds
  rw [hevents, write_event]
  by_cases htext : wireText key c = []
  · have hgroup : (charGroups key c).text = [] := by
      unfold charGroups
      rw [htext]
      rfl
    rw [if_pos htext, hgroup, htext, List.append_nil, bne_self_eq_false, Bool.false_or]
    simp only [Option.isSome_none, Bool.false_or, List.append_nil]
    rfl
  · have hne : (wireText key c != []) = true := bne_iff_ne.mpr htext
    simp only [if_neg htext, hne, Option.isSome_some, Bool.true_or, if_true]
    rw [write_text htext, ← List.flatMap_append]
    rfl

theorem charKitty_eq (hkey : key.code = .char c) (h : CharNameable t key c)
    (hkeypad : key.state.keypad = true → (keypadCodepoint key.code).isSome = true) :
    charKitty t key c kittyAllFlags = 0x1B :: 0x5B :: (Params.writeValues (charParams key c) ++ [0x75]) := by
  have hall : hasFlag kittyAllFlags kittyAllKeys = true := rfl
  have htyped : (key.unshifted.map fun _ => c).getD (key.unshifted.getD c) = c := by cases key.unshifted <;> rfl
  have hvalue : kittyMods { key.mods with shift := key.mods.shift || (key.unshifted.map fun _ => c).isSome } key.state true =
      charValue key := by
    rw [Option.isSome_map]
    rfl
  have htextKey (shift : Bool) : isTextKey { key.mods with shift := shift } = isTextKey key.mods := rfl
  unfold charKitty
  rw [protocolName_eq h]
  simp only [hall, hvalue, htyped, htextKey, Bool.not_true, Bool.and_false, Bool.false_and, Bool.false_eq_true, if_false]
  rw [sentText_eq h, write_code hkey hkeypad, write_rest]
  unfold charParams
  split
  · simp [Groups.values, Params.writeValues]
  · simp [Params.writeValues]

def kindNumber (kind : KeyEventKind) : ℕ :=
  match kind with
  | .press => 1
  | .repeat => 2
  | .release => 3

theorem eventKind_number (kind : KeyEventKind) : eventKind (kindNumber kind) = kind := by cases kind <;> rfl

theorem sub_eventParams (kind : KeyEventKind) : ∀ v ∈ eventParams kind, v.sub = true := by
  cases kind <;> simp [eventParams]

theorem csiUKey_zero (code : ℕ) (shifted base : Option ℕ) (kind : ℕ) (text : List Char) :
    csiUKey code shifted base 0 kind text = csiUKey code shifted base 1 kind text := rfl

theorem decode_sent {code : Param} {alts text : List Param} {n : ℕ} {kind : KeyEventKind}
    (halts : ∀ v ∈ alts, v.sub = true) (htext : ∀ v ∈ text.head?, v.sub = false) (hmore : ∀ v ∈ text.tail, v.sub = true)
    (hp : p.values = code :: alts ++ ⟨n + 1, true, false⟩ :: eventParams kind ++ text) : decodeCsiU p =
    csiUKey ((Params.valueOf code).getD 0) (alts[0]?.bind Params.valueOf) (alts[1]?.bind Params.valueOf)
      (min (n + 1) 255) (kindNumber kind) (textOf text) := by
  have hwf : (Groups.mk code alts ⟨n + 1, true, false⟩ (eventParams kind) text).Wf :=
    ⟨halts, rfl, sub_eventParams kind, htext, hmore⟩
  rw [Groups.decode_eq hwf hp]
  cases kind <;> rfl

def modsParams (n : ℕ) (kind : KeyEventKind) : List Param :=
  if n != 0 || kind != .press then ⟨n + 1, true, false⟩ :: eventParams kind else []

theorem decode_mods {code : Param} {n : ℕ} {kind : KeyEventKind} (hp : p.values = code :: modsParams n kind) :
    decodeCsiU p = csiUKey ((Params.valueOf code).getD 0) none none (min (n + 1) 255) (kindNumber kind) [] := by
  unfold modsParams at hp
  split at hp
  · have hsent : p.values = code :: [] ++ ⟨n + 1, true, false⟩ :: eventParams kind ++ [] := by simpa using hp
    exact decode_sent (by simp) (by simp) (by simp) hsent
  · rename_i hno
    simp only [Bool.or_eq_true, bne_iff_ne, ne_eq, not_or, not_not] at hno
    obtain ⟨rfl, rfl⟩ := hno
    rw [Groups.decode_bare (by simp) hp, csiUKey_zero]
    rfl

section Mods

theorem kittyMods_le (mods : KeyMods) (state : KeyEventState) : kittyMods mods state true ≤ 255 := by
  obtain ⟨shift, control, alt, super, hyper, meta'⟩ := mods
  obtain ⟨keypad, caps, num⟩ := state
  revert shift control alt super hyper meta' keypad caps num
  decide +kernel

theorem maskMods_kitty (mods : KeyMods) (state : KeyEventState) : maskMods (min (kittyMods mods state true + 1) 255) =
    { mods with shift := mods.shift && kittyMods mods state true != 255 } := by
  obtain ⟨shift, control, alt, super, hyper, meta'⟩ := mods
  obtain ⟨keypad, caps, num⟩ := state
  revert shift control alt super hyper meta' keypad caps num
  decide +kernel

theorem maskState_kitty (mods : KeyMods) (state : KeyEventState) : maskState (min (kittyMods mods state true + 1) 255) =
    { state with keypad := false } := by
  obtain ⟨shift, control, alt, super, hyper, meta'⟩ := mods
  obtain ⟨keypad, caps, num⟩ := state
  revert shift control alt super hyper meta' keypad caps num
  decide +kernel

theorem all_of_full {mods : KeyMods} {state : KeyEventState} (h : kittyMods mods state true = 255) :
    mods = ⟨true, true, true, true, true, true⟩ := by
  obtain ⟨shift, control, alt, super, hyper, meta'⟩ := mods
  obtain ⟨keypad, caps, num⟩ := state
  revert shift control alt super hyper meta' keypad caps num
  decide +kernel

theorem mods_back (mods : KeyMods) (state : KeyEventState) :
    maskMods (min (kittyMods mods state true + 1) 255) = mods ↔ kittyMods mods state true ≠ 255 := by
  rw [maskMods_kitty]
  obtain ⟨shift, control, alt, super, hyper, meta'⟩ := mods
  obtain ⟨keypad, caps, num⟩ := state
  revert shift control alt super hyper meta' keypad caps num
  decide +kernel

end Mods

theorem functionalKey_ordinary (h : isPrivateUse c = false) : functionalKey c.toNat = none := by
  have hno : ¬ (0xE000 ≤ c.toNat ∧ c.toNat ≤ 0xF8FF) := fun hin => by
    have := of_decide_eq_false h
    exact this (.inl hin)
  unfold functionalKey
  simp only
  rw [if_neg (by omega), if_neg (by omega), if_neg (by omega), if_neg (by omega), if_neg (by omega)]
  rfl

theorem charFromU32_toNat (c : Char) : charFromU32 c.toNat = some c := by
  unfold charFromU32
  rw [if_pos (toNat_valid c), Char.ofNat_toNat]

theorem plainKey_ordinary (h : isControl c = false) : plainKey c.toNat = some (.char c) := by
  have hno := of_decide_eq_false h
  unfold plainKey
  rw [charFromU32_toNat, Option.map_some, if_neg (by omega), if_neg (by omega), if_neg (by omega), if_neg (by omega)]

/-- The text that is not simply the character. -/
def textBeside (c : Char) (text : List Char) : Option (List Char) :=
  match text with
  | [] => none
  | text => if text = [c] then none else some text

theorem csiUKey_char {u : Char} (h : Ordinary u) (shifted base : Option Char) (wire kind : ℕ) (text : List Char) :
    csiUKey u.toNat (shifted.map Char.toNat) (base.map Char.toNat) wire kind text =
      let shift := (maskMods wire).shift
      let c := if shift then shifted.getD u else u
      some {
        code := .char c
        mods := { maskMods wire with shift := shift && shifted.isNone }
        kind := eventKind kind
        state := { maskState wire with keypad := false }
        unshifted := if shift && shifted.isSome then some u else none
        base := base.filter (· ≠ c)
        text := textBeside c text } := by
  have hcode : (functionalKey u.toNat).or ((plainKey u.toNat).map fun code => (code, KeyEventState.empty)) =
      some (.char u, .empty) := by
    rw [functionalKey_ordinary h.2, plainKey_ordinary h.1]
    rfl
  unfold csiUKey
  rw [hcode]
  generalize maskMods wire = mods
  obtain ⟨shift, control, alt, super, hyper, meta'⟩ := mods
  cases shifted <;> cases base <;> cases shift <;> cases text <;>
    simp [withModifier, charFromU32_toNat, textBeside, Option.filter_some, KeyEventState.empty]

theorem csiUKey_keypad {codepoint : ℕ} {state : KeyEventState} (h : functionalKey codepoint = some (.char c, state))
    (wire kind : ℕ) (text : List Char) : csiUKey codepoint none none wire kind text = some {
      code := .char c
      mods := maskMods wire
      kind := eventKind kind
      state := { maskState wire with keypad := state.keypad }
      unshifted := none
      base := none
      text := textBeside c text } := by
  unfold csiUKey
  rw [h]
  cases text <;> rfl

theorem keypadCodepoint_key {code : KeyCode} {codepoint : ℕ} (h : keypadCodepoint code = some codepoint) :
    functionalKey codepoint = some (code, { KeyEventState.empty with keypad := true }) := by
  unfold keypadCodepoint at h
  split at h <;> cases h <;> rfl

theorem altParams_zero (key : Key) (c : Char) :
    (altParams key c)[0]?.bind Params.valueOf = (key.unshifted.map fun _ => c).map Char.toNat := by
  unfold altParams
  cases key.unshifted <;> cases key.base <;> rfl

theorem altParams_one (key : Key) (c : Char) :
    (altParams key c)[1]?.bind Params.valueOf = key.base.map Char.toNat := by
  unfold altParams
  cases key.unshifted <;> cases key.base <;> rfl

theorem sub_alts (key : Key) (c : Char) : ∀ v ∈ (charGroups key c).alts, v.sub = true := by
  unfold charGroups altParams
  cases key.state.keypad <;> cases key.unshifted <;> cases key.base <;> simp

/-- The key that a character key is read as, with some text. -/
def readChar (key : Key) (c : Char) (text : List Char) : Option Key :=
  csiUKey ((Params.valueOf (charGroups key c).code).getD 0) ((charGroups key c).alts[0]?.bind Params.valueOf)
    ((charGroups key c).alts[1]?.bind Params.valueOf) (min (charValue key + 1) 255) (kindNumber key.kind) text

/-- What a character key has to be, its text apart, to be read as it is. -/
def CharCarried (key : Key) : Prop :=
  (key.state.keypad = true → key.unshifted = none ∧ key.base = none) ∧ charValue key ≠ 255

theorem base_kept (h : CharNameable t key c) : key.base.filter (· ≠ c) = key.base := by
  cases hb : key.base with
  | none => rfl
  | some b => rw [Option.filter_some, if_pos (decide_eq_true (h.base b hb))]

theorem readChar_iff (hkey : key.code = .char c) (h : CharNameable t key c)
    (hkeypad : key.state.keypad = true → (keypadCodepoint key.code).isSome = true) (text : List Char) :
    readChar key c text = some key ↔ CharCarried key ∧ textBeside c text = key.text := by
  have hbase := base_kept h
  obtain ⟨code, mods, kind, ⟨keypad, caps, num⟩, unshifted, base, keyText⟩ := key
  obtain rfl : code = .char c := hkey
  unfold readChar CharCarried charGroups charValue
  simp only at hkeypad hbase ⊢
  cases keypad with
  | true =>
    obtain ⟨codepoint, hcode⟩ := Option.isSome_iff_exists.mp (hkeypad rfl)
    simp only [hcode, Params.valueOf, if_true, Option.getD_some, List.getElem?_nil, Option.bind_none]
    rw [csiUKey_keypad (keypadCodepoint_key hcode), eventKind_number, maskState_kitty]
    cases unshifted with
    | some u => simp
    | none =>
      have hmods := mods_back mods ⟨true, caps, num⟩
      simp only [Option.isSome_none, Bool.or_false, Option.some.injEq, Key.mk.injEq, true_and, true_implies]
      rw [hmods, eq_comm (a := none)]
      constructor
      · rintro ⟨hfull, hnone, htext⟩
        exact ⟨⟨hnone, hfull⟩, htext⟩
      · rintro ⟨⟨hnone, hfull⟩, htext⟩
        exact ⟨hfull, hnone, htext⟩
  | false =>
    simp only [Bool.false_eq_true, if_false, false_implies, true_and]
    rw [altParams_zero, altParams_one]
    simp only [Params.valueOf, if_true, Option.getD_some]
    cases unshifted with
    | none =>
      have hmods := mods_back mods ⟨false, caps, num⟩
      have hread := csiUKey_char h.ordinary none base (min (kittyMods mods ⟨false, caps, num⟩ true + 1) 255)
        (kindNumber kind) text
      simp only [Option.isSome_none, Bool.or_false, Option.map_none, Option.getD_none] at hread ⊢
      rw [hread, eventKind_number, maskState_kitty]
      simp only [ite_self, Option.isNone_none, Bool.and_true, Bool.and_false, Bool.false_eq_true, if_false, hbase,
        Option.some.injEq, Key.mk.injEq, true_and]
      rw [hmods]
    | some u =>
      obtain ⟨hne, hordinary, hshift⟩ := h.unshifted u rfl
      simp only at hshift
      have hmods := maskMods_kitty { mods with shift := true } ⟨false, caps, num⟩
      have hread := csiUKey_char hordinary (some c) base
        (min (kittyMods { mods with shift := true } ⟨false, caps, num⟩ true + 1) 255) (kindNumber kind) text
      simp only [Option.isSome_some, Bool.or_true, Option.map_some, Option.getD_some] at hread ⊢
      rw [hread, eventKind_number, maskState_kitty, hmods]
      by_cases hfull : kittyMods { mods with shift := true } ⟨false, caps, num⟩ true = 255
      · simp [hfull]
      · have hpart : (kittyMods { mods with shift := true } ⟨false, caps, num⟩ true != 255) = true :=
          bne_iff_ne.mpr hfull
        have hback : ({ mods with shift := false } : KeyMods) = mods := by rw [← hshift]
        simp only [hpart, Bool.and_true, if_true, Option.isNone_some, Bool.and_false, hbase, hback, Option.some.injEq,
          Key.mk.injEq, true_and, ne_eq, hfull, not_false_eq_true]

namespace Params

variable {q : Params} {head us : List Param} {b : UInt8}

/-- What a scan has of a text after the other groups: their parameters, and no more than fit of the text's. -/
structure Texting (head : List Param) (q : Params) : Prop where
  plain : q.prefixByte = 0
  text : ∃ v us, q.values = head ++ v :: us ∧ v.sub = false ∧ (∀ u ∈ us, u.sub = true) ∧
    (head ++ v :: us).length ≤ maxParams

theorem Texting.digit {d : ℕ} (h : Texting head q) : Texting head (q.pushDigit d) := by
  obtain ⟨hplain, v, us, hvalues, hv, hus, hlen⟩ := h
  have hstarted : q.started = q.values := started_of_ne (by rw [hvalues]; simp)
  refine ⟨hplain, ?_⟩
  rcases List.eq_nil_or_concat us with rfl | ⟨us, u, rfl⟩
  · refine ⟨⟨saturatingAdd (saturatingMul v.value 10) d, true, v.sub⟩, [], ?_, hv, by simp, by simpa using hlen⟩
    have hlast : q.started = head ++ [v] := by rw [hstarted, hvalues]
    rw [pushDigit_last hlast]
  · refine ⟨v, us ++ [⟨saturatingAdd (saturatingMul u.value 10) d, true, u.sub⟩], ?_, hv, ?_, by simpa using hlen⟩
    · have hlast : q.started = (head ++ v :: us) ++ [u] := by rw [hstarted, hvalues]; simp
      rw [pushDigit_last hlast]
      simp
    · intro w hw
      rcases List.mem_append.mp hw with hw | hw
      · exact hus w (by simp [hw])
      · obtain rfl := List.mem_singleton.mp hw
        exact hus u (by simp)

theorem Texting.colon (h : Texting head q) : Texting head (q.nextParam true) := by
  obtain ⟨hplain, v, us, hvalues, hv, hus, hlen⟩ := h
  have hstarted : q.started = q.values := started_of_ne (by rw [hvalues]; simp)
  unfold nextParam
  rw [hstarted, hvalues]
  split
  · rename_i hroom
    refine ⟨hplain, v, us ++ [⟨0, false, true⟩], by simp, hv, ?_, ?_⟩
    · intro w hw
      rcases List.mem_append.mp hw with hw | hw
      · exact hus w hw
      · obtain rfl := List.mem_singleton.mp hw
        rfl
    · rw [← List.cons_append, ← List.append_assoc, List.length_append]
      exact hroom
  · exact ⟨hplain, v, us, rfl, hv, hus, hlen⟩

theorem decimal_digits (n : ℕ) : ∀ b ∈ decimal n, ∃ d < 10, b = UInt8.ofNat (0x30 + d) := by
  induction n using Nat.strong_induction_on with
  | _ n ih =>
    rw [decimal]
    split
    · rename_i hlt
      intro b hb
      exact ⟨n, hlt, List.mem_singleton.mp hb⟩
    · intro b hb
      rcases List.mem_append.mp hb with hb | hb
      · exact ih (n / 10) (by omega) b hb
      · exact ⟨n % 10, Nat.mod_lt _ (by decide), List.mem_singleton.mp hb⟩

theorem Texting.decimal (h : Texting head q) (n : ℕ) : Texting head ((Vt.decimal n).foldl scan q) := by
  have hdigits := decimal_digits n
  generalize Vt.decimal n = bs at hdigits
  induction bs generalizing q with
  | nil => exact h
  | cons b bs ih =>
    obtain ⟨d, hd, rfl⟩ := hdigits b List.mem_cons_self
    rw [List.foldl_cons, scan_digit hd]
    exact ih h.digit fun c hc => hdigits c (List.mem_cons_of_mem _ hc)

theorem Texting.more (h : Texting head q) (text : List Char) :
    Texting head (((text.map fun c => (⟨c.toNat, true, true⟩ : Param)).flatMap writeNext).foldl scan q) := by
  induction text generalizing q with
  | nil => exact h
  | cons c text ih =>
    have hone : (0x3A :: Vt.decimal c.toNat).foldl scan q = (Vt.decimal c.toNat).foldl scan (q.nextParam true) := rfl
    rw [List.map_cons, List.flatMap_cons, List.foldl_append, writeNext_given, if_pos rfl, hone]
    exact ih (h.colon.decimal _)

theorem texting (hplain : q.prefixByte = 0) (hq : q.values = head) (hne : head ≠ []) (hroom : head.length < maxParams)
    {text : List Char} (htext : text ≠ []) : Texting head (((textParams text).flatMap writeNext).foldl scan q) := by
  obtain ⟨c, text, rfl⟩ := List.exists_cons_of_ne_nil htext
  have hone : (0x3B :: Vt.decimal c.toNat).foldl scan q = (Vt.decimal c.toNat).foldl scan (q.nextParam false) := rfl
  have hstarted : q.started = head := by rw [started_of_ne (by rw [hq]; exact hne), hq]
  have hstart : Texting head (q.nextParam false) := by
    unfold nextParam
    rw [hstarted, if_pos hroom]
    exact ⟨hplain, ⟨0, false, false⟩, [], rfl, rfl, by simp, by rw [List.length_append]; exact hroom⟩
  rw [textParams, List.flatMap_cons, List.foldl_append, writeNext_given, if_neg Bool.false_ne_true, hone]
  exact (hstart.decimal _).more text

end Params

theorem textOf_params (text : List Char) : textOf (textParams text) = text := by
  cases text with
  | nil => rfl
  | cons c text =>
    have hrest : textOf (text.map fun c => ⟨c.toNat, true, true⟩) = text := by
      induction text with
      | nil => rfl
      | cons c text ih =>
        unfold textOf at ih ⊢
        rw [List.map_cons, List.filterMap_cons_some (b := c) (by simpa using charFromU32_toNat c), ih]
    unfold textOf at hrest ⊢
    rw [textParams, List.filterMap_cons_some (b := c) (by simpa using charFromU32_toNat c), hrest]

theorem length_textParams (text : List Char) : (textParams text).length = text.length := by
  cases text <;> simp [textParams]

theorem length_textOf (vs : List Param) : (textOf vs).length ≤ vs.length := List.length_filterMap_le _ _

theorem textBeside_wire (h : CharNameable t key c) : textBeside c (wireText key c) = key.text := by
  unfold wireText
  cases htext : key.text with
  | some text =>
    obtain ⟨hne, hsame, -⟩ := h.text text htext
    obtain ⟨d, text, rfl⟩ := List.exists_cons_of_ne_nil hne
    exact if_neg hsame
  | none =>
    simp only
    split
    · exact if_pos rfl
    · rfl

def charHead (key : Key) (c : Char) : List Param :=
  (charGroups key c).code :: (charGroups key c).alts ++ (charGroups key c).mods :: (charGroups key c).event

theorem codepoint_small {code : KeyCode} {codepoint : ℕ} (h : keypadCodepoint code = some codepoint) :
    codepoint < 57428 := by
  unfold keypadCodepoint at h
  split at h <;> cases h <;> decide

theorem charHead_small (key : Key) (c : Char) : ∀ v ∈ charHead key c, v.value ≤ u32Max ∧
    (v.given = false → v.value = 0) := by
  have hchar (c : Char) : c.toNat ≤ u32Max := Nat.le_trans (Nat.le_of_lt (toNat_lt c)) (by decide)
  have hvalue : charValue key + 1 ≤ u32Max := Nat.le_trans (Nat.succ_le_succ (kittyMods_le _ _)) (by decide)
  have hcode : (if key.state.keypad then (keypadCodepoint (.char c)).getD 0 else (key.unshifted.getD c).toNat) ≤ u32Max := by
    split
    · cases hpad : keypadCodepoint (.char c) with
      | none => decide
      | some codepoint => exact Nat.le_trans (Nat.le_of_lt (codepoint_small hpad)) (by decide)
    · exact hchar _
  have halts : ∀ v ∈ altParams key c, v.value ≤ u32Max ∧ (v.given = false → v.value = 0) := by
    unfold altParams
    cases key.unshifted <;> cases key.base <;> simp [hchar]
  have hevent : ∀ v ∈ eventParams key.kind, v.value ≤ u32Max ∧ (v.given = false → v.value = 0) := by
    cases key.kind <;> simp [eventParams, u32Max]
  intro v hv
  unfold charHead charGroups at hv
  simp only [List.cons_append, List.mem_cons, List.mem_append] at hv
  rcases hv with rfl | hv | rfl | hv
  · exact ⟨hcode, fun h => by cases h⟩
  · split at hv
    · cases hv
    · exact halts v hv
  · exact ⟨hvalue, fun h => by cases h⟩
  · exact hevent v hv

theorem length_charHead_le (key : Key) (c : Char) : (charHead key c).length ≤ 5 := by
  unfold charHead charGroups altParams eventParams
  cases key.state.keypad <;> cases key.unshifted <;> cases key.base <;> cases key.kind <;> simp

/-- All that is sent of a character key has a place among the parameters. -/
def TextFits (key : Key) : Prop := ∀ text, key.text = some text →
  (if key.base.isSome then 3 else if key.unshifted.isSome then 2 else 1) + (if key.kind = .press then 1 else 2) + text.length ≤
    maxParams

theorem length_charHead (h : CharCarried key) (c : Char) : (charHead key c).length =
    (if key.base.isSome then 3 else if key.unshifted.isSome then 2 else 1) + (if key.kind = .press then 1 else 2) := by
  have hpad := h.1
  unfold charHead charGroups altParams eventParams
  cases hk : key.state.keypad with
  | true =>
    obtain ⟨hu, hb⟩ := hpad hk
    rw [hu, hb]
    cases key.kind <;> rfl
  | false => cases key.unshifted <;> cases key.base <;> cases key.kind <;> rfl

theorem textFits_iff (h : CharCarried key) (c : Char) :
    TextFits key ↔ (charHead key c).length + (wireText key c).length ≤ maxParams := by
  have hle := length_charHead_le key c
  have hmax : maxParams = 32 := rfl
  unfold TextFits
  rw [length_charHead h] at hle ⊢
  unfold wireText
  cases htext : key.text with
  | some text => simp
  | none =>
    simp only [reduceCtorEq, false_implies, implies_true, true_iff]
    have hone : (if key.kind != .release && isTextKey key.mods then [c] else []).length ≤ 1 := by
      split
      · exact le_rfl
      · exact Nat.zero_le _
    omega

theorem wireText_long (key : Key) (c : Char) (h : maxParams < (charHead key c).length + (wireText key c).length) :
    key.text = some (wireText key c) := by
  have hle := length_charHead_le key c
  have hmax : maxParams = 32 := rfl
  unfold wireText at h ⊢
  cases htext : key.text with
  | some text => rfl
  | none =>
    rw [htext] at h
    simp only at h
    split at h
    · rw [List.length_singleton] at h
      omega
    · rw [List.length_nil] at h
      omega

theorem scan_charHead (key : Key) (c : Char) (text : List Char) : ∃ ts : List Param,
    ((Params.writeValues (charHead key c ++ textParams text)).foldl Params.scan .reset).prefixByte = 0 ∧
    ((Params.writeValues (charHead key c ++ textParams text)).foldl Params.scan .reset).values = charHead key c ++ ts ∧
    (∀ v ∈ ts.head?, v.sub = false) ∧ (∀ v ∈ ts.tail, v.sub = true) ∧
    ((charHead key c).length + text.length ≤ maxParams → ts = textParams text) ∧
    (maxParams < (charHead key c).length + text.length → ts.length < text.length) := by
  have hle := length_charHead_le key c
  have hmax : maxParams = 32 := rfl
  have hcons : Params.writeValues (charHead key c ++ textParams text) =
      Params.writeValues (charHead key c) ++ (textParams text).flatMap Params.writeNext := by
    unfold charHead
    simp [Params.writeValues]
  have hfit := Params.fit_of_small (charHead_small key c) (by omega) (v := (charGroups key c).code) rfl ⟨rfl, rfl⟩
  have hscan := Params.scan_writeValues (q := .reset) hfit rfl
  simp only at hscan
  rw [hcons, List.foldl_append, hscan]
  by_cases htext : text = []
  · subst htext
    exact ⟨[], rfl, by simp [textParams], by simp, by simp, fun _ => rfl, fun h => by simp at h; omega⟩
  have hroom : (charHead key c).length < maxParams := by omega
  obtain ⟨hplain, v, us, hvalues, hv, hus, hlen⟩ : Params.Texting (charHead key c) _ :=
    Params.texting (q := { Params.reset with values := charHead key c }) rfl rfl (by simp [charHead]) hroom htext
  refine ⟨v :: us, hplain, hvalues, by simpa using hv, hus, fun hroom => ?_, fun hlong => ?_⟩
  · have hsmall : ∀ v ∈ textParams text, v.value ≤ u32Max ∧ (v.given = false → v.value = 0) := by
      have hchar (c : Char) : c.toNat ≤ u32Max := Nat.le_trans (Nat.le_of_lt (toNat_lt c)) (by decide)
      cases text with
      | nil => exact absurd rfl htext
      | cons d text => simp [textParams, hchar]
    have hstarted : ({ Params.reset with values := charHead key c } : Params).started = charHead key c :=
      Params.started_of_ne (by simp [charHead])
    have hall := Params.scan_writeNexts (p := { Params.reset with values := charHead key c }) hsmall
      (by rw [hstarted, length_textParams]; exact hroom) (by cases text <;> simp_all [textParams])
    rw [hall, hstarted] at hvalues
    exact (List.append_cancel_left hvalues).symm
  · rw [List.length_append] at hlen
    omega

theorem char_read_iff (hkey : key.code = .char c) (h : CharNameable t key c)
    (hkeypad : key.state.keypad = true → (keypadCodepoint key.code).isSome = true) :
    ((Params.writeValues (charParams key c)).foldl Params.scan .reset).prefixByte = 0 ∧
    (decodeCsiU { (Params.writeValues (charParams key c)).foldl Params.scan .reset with final := 0x75 } = some key ↔
      CharCarried key ∧ TextFits key) := by
  cases hneeds : charNeeds key c with
  | false =>
    have hvalues : charParams key c = (charGroups key c).code :: (charGroups key c).alts := by
      unfold charParams
      rw [if_neg (by rw [hneeds]; decide)]
    simp only [charNeeds, Bool.or_eq_false_iff, bne_eq_false_iff_eq] at hneeds
    obtain ⟨⟨htext, hvalue⟩, hkind⟩ := hneeds
    have hfit : ({ Params.reset with values := (charGroups key c).code :: (charGroups key c).alts } : Params).Fit := by
      have hle := length_charHead_le key c
      have hsmall := charHead_small key c
      unfold charHead at hle hsmall
      rw [List.length_append, List.length_cons (a := (charGroups key c).mods)] at hle
      exact Params.fit_of_small (fun v hv => hsmall v (List.mem_append_left _ hv))
        (Nat.le_trans (by omega) (by decide : 5 ≤ maxParams))
        rfl ⟨rfl, rfl⟩
    have hscan := Params.scan_writeValues (q := .reset) hfit rfl
    simp only at hscan
    rw [hvalues, hscan, Groups.decode_bare (sub_alts key c) rfl, csiUKey_zero]
    have hread : readChar key c [] = csiUKey ((Params.valueOf (charGroups key c).code).getD 0)
        ((charGroups key c).alts[0]?.bind Params.valueOf) ((charGroups key c).alts[1]?.bind Params.valueOf) 1 1 [] := by
      unfold readChar
      rw [hvalue, hkind]
      rfl
    have hbeside := textBeside_wire h
    rw [htext] at hbeside
    have hnone : key.text = none := hbeside.symm
    rw [← hread, readChar_iff hkey h hkeypad]
    refine ⟨rfl, and_congr_right fun _ => ?_⟩
    rw [hnone]
    simp [textBeside, TextFits, hnone]
  | true =>
    have hvalues : charParams key c = charHead key c ++ textParams (wireText key c) := by
      unfold charParams
      rw [if_pos hneeds]
      rfl
    obtain ⟨ts, hplain, hscan, hfirst, hmore, hfits, hlong⟩ := scan_charHead key c (wireText key c)
    rw [hvalues]
    have hread := decode_sent (p := { (Params.writeValues (charHead key c ++ textParams (wireText key c))).foldl
      Params.scan .reset with final := 0x75 }) (sub_alts key c) hfirst hmore hscan
    rw [hread]
    refine ⟨hplain, ?_⟩
    change readChar key c (textOf ts) = some key ↔ _
    rw [readChar_iff hkey h hkeypad]
    refine and_congr_right fun hcarried => ?_
    rw [textFits_iff hcarried c]
    by_cases hroom : (charHead key c).length + (wireText key c).length ≤ maxParams
    · rw [hfits hroom, textOf_params, textBeside_wire h]
      exact iff_of_true rfl hroom
    · refine iff_of_false (fun hsame => ?_) hroom
      have hshort := Nat.lt_of_le_of_lt (length_textOf ts) (hlong (Nat.lt_of_not_le hroom))
      rw [wireText_long key c (Nat.lt_of_not_le hroom)] at hsame
      -- A text that is read is as long as what is read of it.
      have hlen : wireText key c = textOf ts := by
        unfold textBeside at hsame
        split at hsame
        · cases hsame
        · split at hsame
          · cases hsame
          · exact (Option.some.inj hsame).symm
      rw [hlen] at hshort
      exact Nat.lt_irrefl _ hshort

end Vt

end Dekit
