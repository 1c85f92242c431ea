import Mathlib.Data.List.Basic
import Dekit.Vt.Keys
import Dekit.Vt.Scan

/-! The decoder of what a terminal sends. -/

namespace Dekit

namespace Vt

open Term

@[irreducible] def maxPasteBytes : ℕ := 1024 * 1024

inductive MouseButton where
  | left
  | right
  | middle
deriving DecidableEq

inductive MouseEventKind where
  | down (button : MouseButton)
  | up (button : MouseButton)
  | drag (button : MouseButton)
  | moved
  | scrollDown
  | scrollUp
  | scrollLeft
  | scrollRight
deriving DecidableEq

structure MouseEvent where
  kind : MouseEventKind
  x : ℤ
  y : ℤ
  mods : KeyMods
deriving DecidableEq

/-- What is read off a terminal. A pasted text is its UTF-8 bytes. -/
inductive InternalTermEvent where
  | key (key : Key)
  | mouse (event : MouseEvent)
  | paste (text : List UInt8)
  | focusGained
  | focusLost
  | cursorPos (x y : ℕ)
  | primaryDeviceAttributes (params : List ℕ)
  | replyKittyKeyboard (flags : ℕ)
  | windowReport (code a b : ℕ)
  | modeReport (dec : Bool) (mode state : ℕ)
  | graphicsReply (body : List UInt8)
  | dcsReply (body : List UInt8)
  | backgroundColor (r g b : UInt8)
deriving DecidableEq

def charFromU32 (n : ℕ) : Option Char := if n.isValidChar then some (Char.ofNat n) else none

def hexDigit (c : Char) : Option ℕ :=
  if '0' ≤ c ∧ c ≤ '9' then some (c.toNat - '0'.toNat)
  else if 'a' ≤ c ∧ c ≤ 'f' then some (c.toNat - 'a'.toNat + 10)
  else if 'A' ≤ c ∧ c ≤ 'F' then some (c.toNat - 'A'.toNat + 10)
  else none

/-- A number as `u32::from_str_radix` reads it in base 16, of few digits: after a plus sign or none. -/
def fromHex (text : List Char) : Option ℕ :=
  let digits := match text with
    | '+' :: rest => rest
    | _ => text
  if digits = [] then none else digits.foldlM (fun v c => (hexDigit c).map (v * 16 + ·)) 0

/-- A color channel of one to four digits, scaled to 8 bits. -/
def colorChannel (part : List Char) : Option UInt8 :=
  if part = [] ∨ 4 < utf8Len part then none
  else (fromHex part).map fun v => UInt8.ofNat (v * 255 / max (2 ^ (4 * utf8Len part) - 1) 1)

def parseColorSpec (spec : List Char) : Option (UInt8 × UInt8 × UInt8) :=
  match spec with
  | '#' :: hex =>
    if utf8Len hex ≠ 6 then none
    else (fromHex hex).map fun v => (UInt8.ofNat (v / 65536), UInt8.ofNat (v / 256), UInt8.ofNat v)
  | 'r' :: 'g' :: 'b' :: ':' :: rest =>
    match rest.splitOn '/' with
    | r :: g :: b :: _ => do
      let r ← colorChannel r
      let g ← colorChannel g
      let b ← colorChannel b
      return (r, g, b)
    | _ => none
  | _ => none

def mouseCb (cb : UInt8) : Option (MouseEventKind × KeyMods) :=
  let buttonNumber := (cb &&& (0x03 : UInt8)) ||| (cb &&& (0xC0 : UInt8)) >>> (4 : UInt8)
  let dragging := cb &&& (0x20 : UInt8) == 0x20
  let kind := match buttonNumber, dragging with
    | 0, false => some (MouseEventKind.down .left)
    | 1, false => some (.down .middle)
    | 2, false => some (.down .right)
    | 0, true => some (.drag .left)
    | 1, true => some (.drag .middle)
    | 2, true => some (.drag .right)
    | 3, false => some (.up .left)
    | 3, true | 4, true | 5, true => some .moved
    | 4, false => some .scrollUp
    | 5, false => some .scrollDown
    | 6, false => some .scrollLeft
    | 7, false => some .scrollRight
    | _, _ => none
  kind.map fun kind =>
    (kind, { KeyMods.none with shift := cb &&& (0x04 : UInt8) != 0, alt := cb &&& (0x08 : UInt8) != 0, control := cb &&& (0x10 : UInt8) != 0 })

/-- A coordinate counted from one, as an `i32`. -/
def mouseCoord (n : ℕ) : ℤ := min (n - 1) 2147483647

/-- A press of a modifier key carries that modifier. -/
def withModifier (code : KeyCode) (mods : KeyMods) : KeyMods :=
  match code with
  | .modifier .leftAlt | .modifier .rightAlt => { mods with alt := true }
  | .modifier .leftControl | .modifier .rightControl => { mods with control := true }
  | .modifier .leftShift | .modifier .rightShift => { mods with shift := true }
  | .modifier .leftSuper | .modifier .rightSuper => { mods with super := true }
  | .modifier .leftHyper | .modifier .rightHyper => { mods with hyper := true }
  | .modifier .leftMeta | .modifier .rightMeta => { mods with «meta» := true }
  | _ => mods

namespace Params

def pastSubs (p : Params) (i : ℕ) : ℕ := i + ((p.values.drop i).takeWhile Param.sub).length

def group (p : Params) (i : ℕ) : List Param :=
  match p.values.drop i with
  | [] => []
  | v :: vs => v :: vs.takeWhile Param.sub

end Params

/-- The key that a code point names without the table of functional keys. -/
def plainKey (code : ℕ) : Option KeyCode :=
  (charFromU32 code).map fun c =>
    if c.toNat = 0x1B then .esc
    else if c.toNat = 0x0D then .enter
    else if c.toNat = 0x09 then .tab
    else if c.toNat = 0x7F then .backspace
    else .char c

/-- The key of what a sequence of kitty's says: the code points, the modifiers and the text. -/
def csiUKey (code : ℕ) (shiftedCode baseCode : Option ℕ) (wire kind : ℕ) (text : List Char) : Option Key := do
  let (keycode, stateFromKeycode) ← (functionalKey code).or ((plainKey code).map fun code => (code, .empty))
  let mods := withModifier keycode (maskMods wire)
  -- A shifted key carries the character that Shift makes of it.
  let (keycode, mods, unshifted) := match keycode, shiftedCode.bind charFromU32 with
    | .char plain, some shifted =>
      if mods.shift then (KeyCode.char shifted, { mods with shift := false }, some plain) else (keycode, mods, none)
    | _, _ => (keycode, mods, none)
  let base := match baseCode.bind charFromU32, keycode with
    | some layoutBase, .char c => if layoutBase ≠ c then some layoutBase else none
    | _, _ => none
  let text := match keycode, text with
    | _, [] => none
    | .char c, text => if text = [c] then none else some text
    | _, text => some text
  return {
    code := keycode
    mods := mods
    kind := eventKind kind
    state := { stateFromKeycode with capsLock := (maskState wire).capsLock, numLock := (maskState wire).numLock }
    unshifted := unshifted
    base := base
    text := text }

def decodeCsiU (p : Params) : Option Key :=
  let code := p.get 0 0
  let shiftedCode := if p.isSub 1 then p.getOpt 1 else none
  let baseCode := if p.isSub 1 && p.isSub 2 then p.getOpt 2 else none
  let modsAt := p.pastSubs 1
  let wire := min (p.get modsAt 0) 255
  let kind := if p.isSub (modsAt + 1) then min (p.get (modsAt + 1) 1) 255 else 1
  let textAt := p.pastSubs (modsAt + 1)
  let text := (p.group textAt).filterMap fun v => if v.given then charFromU32 v.value else none
  csiUKey code shiftedCode baseCode wire kind text

def csiEventKind (p : Params) : KeyEventKind := if p.isSub 2 then eventKind (min (p.get16 2 0) 255) else .press

/-- The key of `CSI 27 ; mods ; code ~`. -/
def otherKey (code : ℕ) : Option KeyCode :=
  if code = 8 ∨ code = 0x7F then some .backspace
  else if code = 0x1B then some .esc
  else if code = 9 then some .tab
  else if code = 10 ∨ code = 13 then some .enter
  else (charFromU32 code).map .char

def decodeTilde (p : Params) : List InternalTermEvent :=
  match p.getOpt 0 with
  | none => []
  | some first =>
    let wire := min (p.get16 1 0) 255
    let code := if first = 27 then (p.getOpt 2).bind otherKey else tildeKey (min first 65535)
    code.toList.map fun code => .key ⟨code, maskMods wire, csiEventKind p, maskState wire, none, none, none⟩

def decodeLetter (p : Params) (code : KeyCode) : InternalTermEvent :=
  let (mods, kind) := if 2 ≤ p.values.length then (maskMods (min (p.get16 1 0) 255), csiEventKind p) else (.none, .press)
  .key { Key.new code mods with kind := kind }

/-- `CSI < Cb ; Cx ; Cy M` or `m`, and `CSI Cb ; Cx ; Cy M` where 32 is taken off the button. -/
def decodeMouse (p : Params) (offset : UInt8) : List InternalTermEvent :=
  match p.getOpt 0, p.getOpt 1, p.getOpt 2 with
  | some b, some x, some y =>
    let cb := UInt8.ofNat (min b 255)
    match mouseCb (if offset ≤ cb then cb - offset else 0) with
    | none => []
    | some (kind, mods) =>
      let kind := match p.final, kind with
        | 0x6D, .down button => .up button
        | _, kind => kind
      [.mouse ⟨kind, mouseCoord x, mouseCoord y, mods⟩]
  | _, _, _ => []

def isLetterFinal (final : UInt8) : Bool := [0x41, 0x42, 0x43, 0x44, 0x46, 0x48, 0x50, 0x51, 0x53].contains final

def decodeCsi (p : Params) : List InternalTermEvent :=
  if isLetterFinal p.final ∧ p.prefixByte = 0 then (finalKey p.final).toList.map (decodeLetter p)
  else if p.final = 0x63 ∧ p.prefixByte = 0x3F then
    [.primaryDeviceAttributes (p.values.filterMap fun v => if v.given then some v.value else none)]
  else if p.final = 0x74 ∧ p.prefixByte = 0 ∧ p.inter = 0 then [.windowReport (p.get 0 0) (p.get 1 0) (p.get 2 0)]
  else if p.final = 0x79 ∧ p.inter = 0x24 then [.modeReport (p.prefixByte = 0x3F) (p.get 0 0) (p.get 1 0)]
  else if p.final = 0x5A then [.key (.new .tab { KeyMods.none with shift := true })]
  else if p.final = 0x49 then [.focusGained]
  else if p.final = 0x4F then [.focusLost]
  else if p.final = 0x75 ∧ p.prefixByte = 0x3F then [.replyKittyKeyboard (min (p.get 0 0) 255)]
  else if p.final = 0x75 ∧ p.prefixByte = 0 then (decodeCsiU p).toList.map .key
  else if (p.final = 0x6D ∨ p.final = 0x4D) ∧ p.prefixByte = 0x3C then decodeMouse p 0
  else if p.final = 0x4D ∧ p.prefixByte = 0 then decodeMouse p 32
  else if p.final = 0x52 ∧ p.prefixByte = 0 then [.cursorPos (p.get16 1 0 - 1) (p.get16 0 0 - 1)]
  else if p.final = 0x7E ∧ p.prefixByte = 0 then decodeTilde p
  else []

/-- A mouse report in bytes, each past 32. -/
def decodeX10 (cb cx cy : UInt8) : List InternalTermEvent :=
  let past := fun b : UInt8 => b.toNat - 32
  (mouseCb (UInt8.ofNat (past cb))).toList.map fun (kind, mods) =>
    .mouse ⟨kind, ((past cx - 1 : ℕ) : ℤ), ((past cy - 1 : ℕ) : ℤ), mods⟩

def decodeSeq (seq : Seq) : List InternalTermEvent :=
  match seq with
  | .text run => ((fromUtf8 run).getD []).filterMap fun c => (charKey c).map .key
  | .ctl b =>
    if b = 0x1B then [.key (.new .esc .none)] else (charKey (Char.ofNat b.toNat)).toList.map .key
  | .escChar c => (charKey c).toList.map fun key => .key { key with mods := { key.mods with alt := true } }
  | .ss3 final => (ss3Key final).toList.map fun code => .key (.new code .none)
  | .csi p => decodeCsi p
  | .x10Mouse cb cx cy => decodeX10 cb cx cy
  | .esc _ _ => []
  | .apc data =>
    match data with
    | 0x47 :: body => [.graphicsReply body]
    | _ => []
  | .dcs data => [.dcsReply data]
  | .osc data =>
    match data with
    | 0x31 :: 0x31 :: 0x3B :: spec =>
      ((fromUtf8 spec).bind parseColorSpec).toList.map fun (r, g, b) => .backgroundColor r g b
    | _ => []

/-- Input mode: a lone ESC that nothing followed is an Esc key, and one with the start of a reply an Alt chord. -/
def Scanner.flush (s : Scanner) : Scanner × List Seq :=
  match s.state with
  | .esc => ({ s with state := .ground }, [.ctl 0x1B])
  | .maybeApc => ({ s with state := .ground }, [.escChar '_'])
  | .maybeDcs => ({ s with state := .ground }, [.escChar 'P'])
  | .maybeOsc => ({ s with state := .ground }, [.escChar ']'])
  | _ => (s, [])

/-- The text being pasted, and whether its last byte was CR. -/
structure Pasting where
  paste : Option (List UInt8)
  pasteCr : Bool
deriving DecidableEq

structure EventDecoder where
  scanner : Scanner
  pasting : Pasting

/-- The marks of a paste: 200 starts it and 201 ends it. -/
def isMark (p : Params) (n : ℕ) : Bool := p.prefixByte = 0 && p.final = 0x7E && p.get 0 0 = n

namespace Pasting

def none : Pasting := ⟨.none, false⟩

/-- Within a paste, of which the text so far is given. -/
def receive (s : Pasting) (text : List UInt8) (seq : Seq) : Pasting × List InternalTermEvent :=
  match seq with
  | .text run => (⟨some (if text.length < maxPasteBytes then text ++ run else text), false⟩, [])
  | .ctl b =>
    if b = 0x0D then (⟨some (text ++ [0x0A]), true⟩, [])
    else if b = 0x0A then (⟨some (if s.pasteCr then text else text ++ [0x0A]), false⟩, [])
    else if b = 0x09 then (⟨some (text ++ [0x09]), false⟩, [])
    else (⟨some text, false⟩, [])
  | .csi p => if isMark p 201 then (⟨.none, false⟩, [.paste text]) else (⟨some text, false⟩, [])
  | _ => (⟨some text, false⟩, [])

def decode (s : Pasting) (seq : Seq) : Pasting × List InternalTermEvent :=
  match s.paste with
  | some text => s.receive text seq
  | .none =>
    match seq with
    | .csi p => if isMark p 200 then ({ s with paste := some [] }, []) else (s, decodeSeq seq)
    | _ => (s, decodeSeq seq)

def decodes (s : Pasting) : List Seq → Pasting × List InternalTermEvent
  | [] => (s, [])
  | seq :: seqs =>
    let next := s.decode seq
    let after := decodes next.1 seqs
    (after.1, next.2 ++ after.2)

end Pasting

namespace EventDecoder

def new : EventDecoder := ⟨.new .input, .none⟩

def feed (d : EventDecoder) (input : List UInt8) : EventDecoder × List InternalTermEvent :=
  let scanned := d.scanner.feed input
  let decoded := d.pasting.decodes scanned.2
  (⟨scanned.1, decoded.1⟩, decoded.2)

def feeds (d : EventDecoder) : List (List UInt8) → EventDecoder × List InternalTermEvent
  | [] => (d, [])
  | chunk :: chunks =>
    let after := d.feed chunk
    let final := feeds after.1 chunks
    (final.1, after.2 ++ final.2)

def flush (d : EventDecoder) : EventDecoder × List InternalTermEvent :=
  let scanned := d.scanner.flush
  let decoded := d.pasting.decodes scanned.2
  (⟨scanned.1, decoded.1⟩, decoded.2)

end EventDecoder

end Vt

end Dekit
