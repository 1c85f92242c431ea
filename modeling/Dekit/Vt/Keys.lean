import Dekit.Term.Key

/-! The key tables that the input decoder and the key encoder share. -/

namespace Dekit

namespace Vt

open Term

def finalKey (final : UInt8) : Option KeyCode :=
  match final with
  | 0x41 => some .up
  | 0x42 => some .down
  | 0x43 => some .right
  | 0x44 => some .left
  | 0x46 => some .end
  | 0x48 => some .home
  | 0x50 => some (.f 1)
  | 0x51 => some (.f 2)
  -- F3 is CSI R, which is the cursor position report too.
  | 0x53 => some (.f 4)
  | _ => none

def ss3Key (final : UInt8) : Option KeyCode :=
  match final with
  | 0x52 => some (.f 3)
  | _ => finalKey final

def tildeKey (n : ℕ) : Option KeyCode :=
  if n = 1 ∨ n = 7 then some .home
  else if n = 2 then some .insert
  else if n = 3 then some .delete
  else if n = 4 ∨ n = 8 then some .end
  else if n = 5 then some .pageUp
  else if n = 6 then some .pageDown
  else if 11 ≤ n ∧ n ≤ 15 then some (.f (UInt8.ofNat (n - 10)))
  else if 17 ≤ n ∧ n ≤ 21 then some (.f (UInt8.ofNat (n - 11)))
  else if 23 ≤ n ∧ n ≤ 26 then some (.f (UInt8.ofNat (n - 12)))
  else if 28 ≤ n ∧ n ≤ 29 then some (.f (UInt8.ofNat (n - 13)))
  else if 31 ≤ n ∧ n ≤ 34 then some (.f (UInt8.ofNat (n - 14)))
  else none

def keyTilde (code : KeyCode) : Option ℕ :=
  match code with
  | .insert => some 2
  | .delete => some 3
  | .pageUp => some 5
  | .pageDown => some 6
  | .f n =>
    if 1 ≤ n ∧ n ≤ 5 then some (n.toNat + 10)
    else if 6 ≤ n ∧ n ≤ 10 then some (n.toNat + 11)
    else if 11 ≤ n ∧ n ≤ 14 then some (n.toNat + 12)
    else if 15 ≤ n ∧ n ≤ 16 then some (n.toNat + 13)
    else if 17 ≤ n ∧ n ≤ 20 then some (n.toNat + 14)
    else none
  | _ => none

/-- The key press that a plain character or a C0 byte is. -/
def charKey (c : Char) : Option Key :=
  let n := c.toNat
  if n = 0x0D ∨ n = 0x0A then some (.new .enter .none)
  else if n = 0x09 then some (.new .tab .none)
  else if n = 0x7F then some (.new .backspace .none)
  else if 0x01 ≤ n ∧ n ≤ 0x1A then some
    (.new (.char (Char.ofNat (n - 0x01 + 0x61))) { KeyMods.none with control := true })
  else if 0x1C ≤ n ∧ n ≤ 0x1F then some
    (.new (.char (Char.ofNat (n - 0x1C + 0x34))) { KeyMods.none with control := true })
  else if n = 0 then some (.new (.char ' ') { KeyMods.none with control := true })
  else if n < 0x20 ∨ n = 0x8D then none
  else some (.new (.char c) .none)

def maskMods (wire : ℕ) : KeyMods :=
  let mask := wire - 1
  { shift := mask.testBit 0
    control := mask.testBit 2
    alt := mask.testBit 1
    super := mask.testBit 3
    hyper := mask.testBit 4
    «meta» := mask.testBit 5 }

def maskState (wire : ℕ) : KeyEventState :=
  let mask := wire - 1
  { KeyEventState.empty with capsLock := mask.testBit 6, numLock := mask.testBit 7 }

def eventKind (n : ℕ) : KeyEventKind :=
  match n with
  | 1 => .press
  | 2 => .repeat
  | 3 => .release
  | _ => .press

def keypadCodepoint (code : KeyCode) : Option ℕ :=
  match code with
  | .char '0' => some 57399
  | .char '1' => some 57400
  | .char '2' => some 57401
  | .char '3' => some 57402
  | .char '4' => some 57403
  | .char '5' => some 57404
  | .char '6' => some 57405
  | .char '7' => some 57406
  | .char '8' => some 57407
  | .char '9' => some 57408
  | .char '.' => some 57409
  | .char '/' => some 57410
  | .char '*' => some 57411
  | .char '-' => some 57412
  | .char '+' => some 57413
  | .enter => some 57414
  | .char '=' => some 57415
  | .char ',' => some 57416
  | .left => some 57417
  | .right => some 57418
  | .up => some 57419
  | .down => some 57420
  | .pageUp => some 57421
  | .pageDown => some 57422
  | .home => some 57423
  | .end => some 57424
  | .insert => some 57425
  | .delete => some 57426
  | .keypadBegin => some 57427
  | _ => none

def mediaCodepoint : MediaKeyCode → ℕ
  | .play => 57428
  | .pause => 57429
  | .playPause => 57430
  | .reverse => 57431
  | .stop => 57432
  | .fastForward => 57433
  | .rewind => 57434
  | .next => 57435
  | .prev => 57436
  | .record => 57437
  | .volumeDown => 57438
  | .volumeUp => 57439
  | .volumeMute => 57440

def modCodepoint : ModKeyCode → ℕ
  | .leftShift => 57441
  | .leftControl => 57442
  | .leftAlt => 57443
  | .leftSuper => 57444
  | .leftHyper => 57445
  | .leftMeta => 57446
  | .rightShift => 57447
  | .rightControl => 57448
  | .rightAlt => 57449
  | .rightSuper => 57450
  | .rightHyper => 57451
  | .rightMeta => 57452

def plainCodepoint (code : KeyCode) : Option ℕ :=
  match code with
  | .capsLock => some 57358
  | .scrollLock => some 57359
  | .numLock => some 57360
  | .printScreen => some 57361
  | .pause => some 57362
  | .menu => some 57363
  | .keypadBegin => some 57427
  | .f n => if 13 ≤ n ∧ n ≤ 35 then some (57376 + n.toNat - 13) else none
  | .media code => some (mediaCodepoint code)
  | .modifier code => some (modCodepoint code)
  | _ => none

def functionalCodepoint (code : KeyCode) (keypad : Bool) : Option ℕ :=
  (if keypad then keypadCodepoint code else none).or (plainCodepoint code)

def kittyMods (mods : KeyMods) (state : KeyEventState) (locks : Bool) : ℕ :=
  (if mods.shift then 1 else 0) ||| (if mods.alt then 2 else 0) ||| (if mods.control then 4 else 0) |||
    (if mods.super then 8 else 0) ||| (if mods.hyper then 16 else 0) ||| (if mods.meta then 32 else 0) |||
    (if locks && state.capsLock then 64 else 0) ||| (if locks && state.numLock then 128 else 0)

def keypadKeys : List KeyCode :=
  [.char '0', .char '1', .char '2', .char '3', .char '4', .char '5', .char '6', .char '7', .char '8', .char '9',
    .char '.', .char '/', .char '*', .char '-', .char '+', .enter, .char '=', .char ',', .left, .right, .up, .down,
    .pageUp, .pageDown, .home, .end, .insert, .delete, .keypadBegin]

def lockKeys : List KeyCode := [.capsLock, .scrollLock, .numLock, .printScreen, .pause, .menu]

def mediaKeys : List MediaKeyCode :=
  [.play, .pause, .playPause, .reverse, .stop, .fastForward, .rewind, .next, .prev, .record, .volumeDown, .volumeUp,
    .volumeMute]

def modKeys : List ModKeyCode :=
  [.leftShift, .leftControl, .leftAlt, .leftSuper, .leftHyper, .leftMeta, .rightShift, .rightControl, .rightAlt,
    .rightSuper, .rightHyper, .rightMeta]

def functionalKey (codepoint : ℕ) : Option (KeyCode × KeyEventState) :=
  if 57399 ≤ codepoint ∧ codepoint ≤ 57427 then
    (keypadKeys[codepoint - 57399]?).map fun code => (code, { KeyEventState.empty with keypad := true })
  else
    let code :=
      if 57358 ≤ codepoint ∧ codepoint ≤ 57363 then lockKeys[codepoint - 57358]?
      else if 57376 ≤ codepoint ∧ codepoint ≤ 57398 then some (.f (UInt8.ofNat (codepoint - 57376 + 13)))
      else if 57428 ≤ codepoint ∧ codepoint ≤ 57440 then (mediaKeys[codepoint - 57428]?).map .media
      else if 57441 ≤ codepoint ∧ codepoint ≤ 57452 then (modKeys[codepoint - 57441]?).map .modifier
      else none
    code.map fun code => (code, .empty)

end Vt

end Dekit
