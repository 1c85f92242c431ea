import Dekit.Term.Utf8

/-! Keys, and their names. -/

namespace Dekit.Term

inductive MediaKeyCode
  | play
  | pause
  | playPause
  | reverse
  | stop
  | fastForward
  | rewind
  | next
  | prev
  | record
  | volumeDown
  | volumeUp
  | volumeMute
  deriving DecidableEq

inductive ModKeyCode
  | leftShift
  | leftControl
  | leftAlt
  | leftSuper
  | leftHyper
  | leftMeta
  | rightShift
  | rightControl
  | rightAlt
  | rightSuper
  | rightHyper
  | rightMeta
  deriving DecidableEq

inductive KeyCode
  | backspace
  | enter
  | left
  | right
  | up
  | down
  | home
  | «end»
  | pageUp
  | pageDown
  | tab
  | delete
  | insert
  | f (n : UInt8)
  | char (c : Char)
  | null
  | esc
  | capsLock
  | scrollLock
  | numLock
  | printScreen
  | pause
  | menu
  | keypadBegin
  | media (code : MediaKeyCode)
  | modifier (code : ModKeyCode)
  deriving DecidableEq

inductive KeyEventKind
  | press
  | «repeat»
  | release
  deriving DecidableEq

structure KeyEventState where
  keypad : Bool
  capsLock : Bool
  numLock : Bool
  deriving DecidableEq

def KeyEventState.empty : KeyEventState := ⟨false, false, false⟩

structure KeyMods where
  shift : Bool
  control : Bool
  alt : Bool
  super : Bool
  hyper : Bool
  «meta» : Bool
  deriving DecidableEq

namespace KeyMods

def none : KeyMods := ⟨false, false, false, false, false, false⟩

end KeyMods

structure Key where
  code : KeyCode
  mods : KeyMods
  kind : KeyEventKind
  state : KeyEventState
  unshifted : Option Char
  base : Option Char
  text : Option (List Char)
  deriving DecidableEq

def Key.new (code : KeyCode) (mods : KeyMods) : Key := ⟨code, mods, .press, .empty, none, none, none⟩

def keys : List (List Char × KeyCode) :=
  [("bs".toList, .backspace), ("enter".toList, .enter), ("left".toList, .left), ("right".toList, .right),
    ("up".toList, .up), ("down".toList, .down), ("home".toList, .home), ("end".toList, .end),
    ("pageup".toList, .pageUp), ("pagedown".toList, .pageDown), ("tab".toList, .tab), ("del".toList, .delete),
    ("insert".toList, .insert), ("nul".toList, .null), ("esc".toList, .esc),
    ("capslock".toList, .capsLock), ("scrolllock".toList, .scrollLock), ("numlock".toList, .numLock),
    ("printscreen".toList, .printScreen), ("pause".toList, .pause), ("menu".toList, .menu),
    ("keypadbegin".toList, .keypadBegin),
    ("mediaplay".toList, .media .play), ("mediapause".toList, .media .pause),
    ("mediaplaypause".toList, .media .playPause), ("mediareverse".toList, .media .reverse),
    ("mediastop".toList, .media .stop), ("mediafastforward".toList, .media .fastForward),
    ("mediarewind".toList, .media .rewind), ("medianext".toList, .media .next), ("mediaprev".toList, .media .prev),
    ("mediarecord".toList, .media .record), ("volumedown".toList, .media .volumeDown),
    ("volumeup".toList, .media .volumeUp), ("volumemute".toList, .media .volumeMute),
    ("leftshift".toList, .modifier .leftShift), ("leftcontrol".toList, .modifier .leftControl),
    ("leftalt".toList, .modifier .leftAlt), ("leftsuper".toList, .modifier .leftSuper),
    ("lefthyper".toList, .modifier .leftHyper), ("leftmeta".toList, .modifier .leftMeta),
    ("rightshift".toList, .modifier .rightShift), ("rightcontrol".toList, .modifier .rightControl),
    ("rightalt".toList, .modifier .rightAlt), ("rightsuper".toList, .modifier .rightSuper),
    ("righthyper".toList, .modifier .rightHyper), ("rightmeta".toList, .modifier .rightMeta),
    ("space".toList, .char ' '), ("lt".toList, .char '<'), ("gt".toList, .char '>'), ("minus".toList, .char '-')]

def specialChars : List (Char × List Char) :=
  [(' ', "Space".toList), ('<', "LT".toList), ('>', "GT".toList), ('-', "Minus".toList)]

def MediaKeyCode.name : MediaKeyCode → List Char
  | play => "MediaPlay".toList
  | pause => "MediaPause".toList
  | playPause => "MediaPlayPause".toList
  | reverse => "MediaReverse".toList
  | stop => "MediaStop".toList
  | fastForward => "MediaFastForward".toList
  | rewind => "MediaRewind".toList
  | next => "MediaNext".toList
  | prev => "MediaPrev".toList
  | record => "MediaRecord".toList
  | volumeDown => "VolumeDown".toList
  | volumeUp => "VolumeUp".toList
  | volumeMute => "VolumeMute".toList

def ModKeyCode.name : ModKeyCode → List Char
  | leftShift => "LeftShift".toList
  | leftControl => "LeftControl".toList
  | leftAlt => "LeftAlt".toList
  | leftSuper => "LeftSuper".toList
  | leftHyper => "LeftHyper".toList
  | leftMeta => "LeftMeta".toList
  | rightShift => "RightShift".toList
  | rightControl => "RightControl".toList
  | rightAlt => "RightAlt".toList
  | rightSuper => "RightSuper".toList
  | rightHyper => "RightHyper".toList
  | rightMeta => "RightMeta".toList

def KeyCode.name : KeyCode → List Char
  | backspace => "BS".toList
  | enter => "Enter".toList
  | left => "Left".toList
  | right => "Right".toList
  | up => "Up".toList
  | down => "Down".toList
  | home => "Home".toList
  | «end» => "End".toList
  | pageUp => "PageUp".toList
  | pageDown => "PageDown".toList
  | tab => "Tab".toList
  | delete => "Del".toList
  | insert => "Insert".toList
  | f n => 'F' :: Nat.toDigits 10 n.toNat
  | char c => (specialChars.lookup c).getD [c]
  | null => "Nul".toList
  | esc => "Esc".toList
  | capsLock => "CapsLock".toList
  | scrollLock => "ScrollLock".toList
  | numLock => "NumLock".toList
  | printScreen => "PrintScreen".toList
  | pause => "Pause".toList
  | menu => "Menu".toList
  | keypadBegin => "KeypadBegin".toList
  | media code => code.name
  | modifier code => code.name

def Key.display (key : Key) : List Char :=
  (if key.mods.control then ['C', '-'] else []) ++ (if key.mods.shift then ['S', '-'] else []) ++
    (if key.mods.alt then ['M', '-'] else []) ++ key.code.name

def Key.spec (key : Key) : List Char := '<' :: key.display ++ ['>']

def isControl (c : Char) : Bool := c.toNat < 0x20 ∨ 0x7F ≤ c.toNat ∧ c.toNat < 0xA0

def toAsciiLowercase (text : List Char) : List Char :=
  text.map fun c => if 'A' ≤ c ∧ c ≤ 'Z' then Char.ofNat (c.toNat + 32) else c

/-- The value of decimal digits, if it is below 256. -/
def parseDigits : ℕ → List Char → Option ℕ
  | n, [] => some n
  | n, c :: text =>
    if '0' ≤ c ∧ c ≤ '9' then
      let n := n * 10 + (c.toNat - '0'.toNat)
      if n < 256 then parseDigits n text else none
    else none

/-- A number as `u8` reads it: digits, after a plus sign or none. -/
def parseU8 (text : List Char) : Option UInt8 :=
  let digits := match text with
    | '+' :: rest => rest
    | _ => text
  if digits = [] then none else (parseDigits 0 digits).map UInt8.ofNat

inductive KeyError
  | expected (text : List Char)
  | wrongModifier (byte : UInt8)
  | controlCharacter (c : Char)
  | wrongKeyCode (code : List Char)
  deriving DecidableEq

def KeyError.message : KeyError → List Char
  | expected text => "Expected \"".toList ++ text ++ ['"']
  | wrongModifier byte => "Wrong key modifier: \"".toList ++ [Char.ofNat byte.toNat] ++ ['"']
  | controlCharacter c =>
    "Unexpected control characted in key code position: 0x".toList ++
      (Nat.toDigits 16 c.toNat).map (fun d => if 'a' ≤ d then Char.ofNat (d.toNat - 32) else d) ++ ['.']
  | wrongKeyCode code => "Wrong key code: \"".toList ++ code ++ ['"']

/-- A parser in a text, so many bytes in; `none` is a panic. -/
structure KeyParser where
  text : List Char
  pos : ℕ

namespace KeyParser

/-- The text between two places in bytes: it panics within a character. -/
def slice (text : List Char) (start stop : ℕ) : Option (List Char) :=
  (dropBytes start text).bind (takeBytes (stop - start))

def expect (p : KeyParser) (s : List Char) : Option (Except KeyError KeyParser) :=
  let next := p.pos + utf8Len s
  if utf8Len p.text < next then some (.error (.expected s))
  else (slice p.text p.pos next).map fun sub => if sub ≠ s then .error (.expected s) else .ok { p with pos := next }

def keyEnd : ℕ → List Char → Except KeyError ℕ
  | next, [] => .ok next
  | next, c :: chars =>
    if c = '>' ∨ c = ' ' then .ok next
    else if isControl c then .error (.controlCharacter c)
    else keyEnd (next + c.utf8Size) chars

def takeKey (p : KeyParser) : Option (Except KeyError (List Char × KeyParser)) :=
  (dropBytes p.pos p.text).bind fun chars =>
    match keyEnd p.pos chars with
    | .error err => some (.error err)
    | .ok next => (slice p.text p.pos next).map fun key => .ok (key, { p with pos := next })

/-- Modifiers from a place on: a letter and a dash each. -/
def takeModsFrom (mods : KeyMods) (pos : ℕ) : List UInt8 → Except KeyError (KeyMods × ℕ)
  | b :: d :: bytes =>
    if d = 0x2D then
      if b = 0x63 ∨ b = 0x43 then takeModsFrom { mods with control := true } (pos + 2) bytes
      else if b = 0x73 ∨ b = 0x53 then takeModsFrom { mods with shift := true } (pos + 2) bytes
      else if b = 0x6D ∨ b = 0x4D then takeModsFrom { mods with alt := true } (pos + 2) bytes
      else .error (.wrongModifier b)
    else .ok (mods, pos)
  | _ => .ok (mods, pos)

def takeMods (p : KeyParser) : Except KeyError (KeyMods × KeyParser) :=
  (takeModsFrom .none p.pos ((utf8 p.text).drop p.pos)).map fun taken => (taken.1, { p with pos := taken.2 })

/-- A number after an `f` in either case. -/
def functionNumber (code : List Char) : Option UInt8 :=
  match code with
  | 'f' :: n | 'F' :: n => (parseU8 n).filter (0 < ·)
  | _ => none

def keyCode (code : List Char) : Except KeyError KeyCode :=
  match keys.lookup (toAsciiLowercase code) with
  | some code => .ok code
  | none =>
    match functionNumber code with
    | some n => .ok (.f n)
    | none =>
      match code with
      | [c] => .ok (.char c)
      | _ => .error (.wrongKeyCode code)

def parse (text : List Char) : Option (Except KeyError Key) :=
  (expect ⟨text, 0⟩ ['<']).bind fun
    | .error err => some (.error err)
    | .ok p =>
      match p.takeMods with
      | .error err => some (.error err)
      | .ok (mods, p) => p.takeKey.bind fun
        | .error err => some (.error err)
        | .ok (code, p) =>
          match keyCode code with
          | .error err => some (.error err)
          | .ok code => (p.expect ['>']).map fun closed => closed.map fun _ => Key.new code mods

end KeyParser

end Dekit.Term
