import Dekit.Vt.Decode

/-! Keys in the kitty protocol. -/

namespace Dekit

namespace Vt

open Term

def kittyEventTypes : ℕ := 2

def kittyAlternateKeys : ℕ := 4

def kittyAllKeys : ℕ := 8

def kittyText : ℕ := 16

def kittyAllFlags : ℕ := 31

def hasFlag (flags flag : ℕ) : Bool := flags &&& flag != 0

/-- The Unicode tables of letters and cases. -/
structure CaseTables where
  toLowercase : Char → List Char
  toUppercase : Char → List Char
  isAlphabetic : Char → Bool

/-- How a key is written in the table of functional keys. -/
inductive Functional where
  | letter (final : UInt8)
  | tilde (n : ℕ)
  | code (codepoint : ℕ)
deriving DecidableEq

def functional (code : KeyCode) (keypad : Bool) : Option Functional :=
  match functionalCodepoint code keypad with
  | some codepoint => some (.code codepoint)
  | none =>
    match code with
    | .esc => some (.code 27)
    | .enter => some (.code 13)
    | .tab => some (.code 9)
    | .backspace => some (.code 127)
    | .up => some (.letter 0x41)
    | .down => some (.letter 0x42)
    | .right => some (.letter 0x43)
    | .left => some (.letter 0x44)
    | .home => some (.letter 0x48)
    | .end => some (.letter 0x46)
    | .insert => some (.tilde 2)
    | .delete => some (.tilde 3)
    | .pageUp => some (.tilde 5)
    | .pageDown => some (.tilde 6)
    | .f n =>
      if n = 1 then some (.letter 0x50)
      else if n = 2 then some (.letter 0x51)
      else if n = 4 then some (.letter 0x53)
      else if 3 ≤ n ∧ n ≤ 12 then (keyTilde (.f n)).map .tilde
      else none
    | _ => none

/-- The number of an event type, 0 for one that is not written. -/
def eventNumber (kind : KeyEventKind) (flags : ℕ) : ℕ :=
  match kind with
  | .press => 0
  | .repeat => if hasFlag flags kittyEventTypes then 2 else 0
  | .release => if hasFlag flags kittyEventTypes then 3 else 0

def kittyModsField (mods : ℕ) (kind : KeyEventKind) (flags : ℕ) : List UInt8 :=
  let event := eventNumber kind flags
  decimal (mods + 1) ++ if event ≠ 0 then 0x3A :: decimal event else []

/-- Repeats and releases are told apart when asked. -/
def isEventful (key : Key) (flags : ℕ) : Bool := hasFlag flags kittyEventTypes && key.kind != .press

/-- A character key as the protocol names it: the unshifted key, and the shifted one where Shift makes one. -/
def protocolName (t : CaseTables) (key : Key) (c : Char) : Char × Option Char :=
  let byCase :=
    let lower := (t.toLowercase c).headD c
    let upper := (t.toUppercase c).headD c
    if lower ≠ c ∧ t.isAlphabetic c then (lower, some c)
    else if key.mods.shift ∧ upper ≠ c then (c, some upper)
    else (c, none)
  match key.unshifted with
  | some unshifted => if unshifted ≠ c then (unshifted, some c) else byCase
  | none => byCase

def alternates (shifted base : Option Char) (flags : ℕ) : List UInt8 :=
  if hasFlag flags kittyAlternateKeys && (shifted.isSome || base.isSome) then
    0x3A :: (match shifted with | some shifted => decimal shifted.toNat | none => []) ++
      (match base with | some base => 0x3A :: decimal base.toNat | none => [])
  else []

/-- The code points of a text, with colons between. -/
def codepoints : List Char → List UInt8
  | [] => []
  | c :: text => decimal c.toNat ++ text.flatMap fun c => 0x3A :: decimal c.toNat

def isTextKey (mods : KeyMods) : Bool := !(mods.control || mods.alt || mods.super || mods.hyper || mods.meta)

def sentText (key : Key) (textKey : Bool) (typed : Char) (flags : ℕ) : Option (List Char) :=
  let text := if hasFlag flags kittyText && key.kind != .release then
      match key.text with
      | some text => some text
      | none => if textKey then some [typed] else none
    else none
  text.filter fun text => text ≠ [] ∧ text.all fun c => !isControl c

/-- The code points of a key: the keypad's own, or the character's and its alternates. -/
def codeField (kpCode : Option ℕ) (code : Char) (shifted base : Option Char) (flags : ℕ) : List UInt8 :=
  match kpCode, hasFlag flags kittyAllKeys with
  | some codepoint, true => decimal codepoint
  | _, _ => decimal code.toNat ++ alternates shifted base flags

/-- The modifiers and the text, as far as they are written. -/
def modsAndText (modsValue : ℕ) (key : Key) (text : Option (List Char)) (flags : ℕ) : List UInt8 :=
  (if text.isSome || modsValue != 0 || isEventful key flags then 0x3B :: kittyModsField modsValue key.kind flags else []) ++
    match text with
    | some text => 0x3B :: codepoints text
    | none => []

def charKitty (t : CaseTables) (key : Key) (c : Char) (flags : ℕ) : List UInt8 :=
  let (code, shifted) := protocolName t key c
  let mods := { key.mods with shift := key.mods.shift || shifted.isSome }
  let allKeys := hasFlag flags kittyAllKeys
  let modsValue := kittyMods mods key.state allKeys
  let textKey := isTextKey mods
  let kpCode := if key.state.keypad then functionalCodepoint key.code true else none
  if textKey && !allKeys && !isEventful key flags && kpCode.isNone then
    (if mods.alt then [0x1B] else []) ++ String.utf8EncodeChar (shifted.getD code)
  else
    [0x1B, 0x5B] ++ codeField kpCode code shifted key.base flags ++
      modsAndText modsValue key (sentText key textKey (shifted.getD code) flags) flags ++ [0x75]

/-- Lock and modifier keys are there only when every key is reported. -/
def onlyWithAll (code : KeyCode) : Bool :=
  match code with
  | .capsLock | .scrollLock | .numLock | .printScreen | .pause | .menu | .modifier _ => true
  | _ => false

def functionalKitty (key : Key) (flags : ℕ) : List UInt8 :=
  let allKeys := hasFlag flags kittyAllKeys
  let modsValue := kittyMods key.mods key.state allKeys
  let field := if modsValue != 0 || isEventful key flags then 0x3B :: kittyModsField modsValue key.kind flags else []
  match functional key.code key.state.keypad with
  | none => []
  | some (.code codepoint) =>
    let legacy : Option UInt8 := match key.code with
      | .enter => some 0x0D
      | .tab => some 0x09
      | .backspace => some 0x7F
      | _ => none
    match legacy, !allKeys && modsValue == 0 && !isEventful key flags && !key.state.keypad with
    | some byte, true => [byte]
    | _, _ => if onlyWithAll key.code && !allKeys then [] else [0x1B, 0x5B] ++ decimal codepoint ++ field ++ [0x75]
  | some (.letter letter) => [0x1B, 0x5B] ++ (if field = [] then [] else 0x31 :: field) ++ [letter]
  | some (.tilde n) => [0x1B, 0x5B] ++ decimal n ++ field ++ [0x7E]

def keyKitty (t : CaseTables) (key : Key) (flags : ℕ) : List UInt8 :=
  if key.kind = .release ∧ !hasFlag flags kittyEventTypes then []
  else match key.code with
    | .char c => charKitty t key c flags
    | _ => functionalKitty key flags

end Vt

end Dekit
