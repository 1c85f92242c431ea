import Dekit.Lib.Decimal
import Dekit.Lib.Slice
import Dekit.Vt.Params

/-! `image/sixel.rs`: the body of a sixel string as pixels. -/

namespace Dekit.Term.Sixel

open Vt (u32Max)

abbrev Rgb := UInt8 × UInt8 × UInt8

/-- Width and height in pixels, and four bytes for each of them. -/
structure SixelImage where
  width : ℕ
  height : ℕ
  pixels : List UInt8

def maxPixels : ℕ := 64 * 1024 * 1024

/-- Sums of `u32` and products of `u64`; past their range they panic, which is `none` here and below. -/
def addU32 (a b : ℕ) : Option ℕ := Slice.add (u32Max + 1) a b

def mulU64 (a b : ℕ) : Option ℕ := if a * b < 18446744073709551616 then some (a * b) else none

/-- The canvas holds an index of the palette and one, or 0 for the background. -/
structure Decoder where
  canvas : List ℕ
  width : ℕ
  height : ℕ
  declared : Option (ℕ × ℕ)
  palette : List Rgb
  color : ℕ
  x : ℕ
  y : ℕ
  transparent : Bool

def defaultPalette : List Rgb :=
  [(0, 0, 0), (51, 51, 204), (204, 36, 36), (51, 204, 51), (204, 51, 204), (51, 204, 204), (204, 204, 51),
    (120, 120, 120), (69, 69, 69), (84, 84, 153), (153, 66, 66), (84, 153, 84), (153, 84, 153), (84, 153, 153),
    (153, 153, 84), (204, 204, 204)]

def isDigit (b : UInt8) : Bool := 0x30 ≤ b && b ≤ 0x39

/-- The numbers at the front, and how many bytes they took. -/
def readFrom (params : List ℕ) (current : Option ℕ) (i : ℕ) : List UInt8 → List ℕ × ℕ
  | [] => (params ++ current.toList, i)
  | b :: data =>
    if isDigit b then
      readFrom params (some (min (min (current.getD 0 * 10) u32Max + (b.toNat - 0x30)) u32Max)) (i + 1) data
    else if b = 0x3B then readFrom (params ++ [current.getD 0]) none (i + 1) data
    else (params ++ current.toList, i)

def readParams (data : List UInt8) : List ℕ × ℕ := readFrom [] none 0 data

def percent (v : ℕ) : UInt8 := UInt8.ofNat (min v 100 * 255 / 100)

namespace Decoder

def new (transparent : Bool) : Decoder := ⟨[], 0, 0, none, defaultPalette, 0, 0, 0, transparent⟩

/-- A row of the canvas, copied into a wider one. -/
def copyRow (d : Decoder) (newW : ℕ) (canvas : List ℕ) (y : ℕ) : Option (List ℕ) :=
  (Slice.range d.canvas (y * d.width) ((y + 1) * d.width)).bind fun src =>
    Slice.onRange canvas (y * newW) (y * newW + d.width) fun _ => src

/-- The canvas is grown to hold so much, or refused, which is the inner `none`. -/
def ensure (d : Decoder) (width height : ℕ) : Option (Option Decoder) :=
  if width ≤ d.width ∧ height ≤ d.height then some (some d)
  else
    let newW := max width d.width
    let newH := max height d.height
    (mulU64 newW newH).bind fun size =>
      if maxPixels < size then some none
      else ((List.range d.height).foldlM (d.copyRow newW) (List.replicate size 0)).map fun canvas =>
        some { d with canvas := canvas, width := newW, height := newH }

/-- One of the six rows of a sixel. -/
def plotRow (d : Decoder) (bits count : ℕ) (canvas : List ℕ) (n : ℕ) : Option (List ℕ) :=
  if bits.testBit n then
    (addU32 d.y n).bind fun y => (addU32 d.x count).bind fun stop =>
      (List.range' d.x (stop - d.x)).foldlM (fun canvas x => Slice.setAt canvas (y * d.width + x) (d.color + 1)) canvas
  else some canvas

def plot (d : Decoder) (bits count : ℕ) : Option Decoder :=
  ((List.range 6).foldlM (d.plotRow bits count) d.canvas).map fun canvas => { d with canvas := canvas }

def sixel (d : Decoder) (bits count : ℕ) : Option (Option Decoder) :=
  let drawn :=
    if bits = 0 then some (some d)
    else
      -- A sum past the range is refused here.
      match addU32 d.x count, addU32 d.y 6 with
      | some w, some h => (d.ensure w h).bind fun
        | none => some none
        | some d => (d.plot bits count).map some
      | _, _ => some none
  drawn.bind fun
    | none => some none
    | some d => (addU32 d.x count).map fun x => some { d with x := x }

def raster (d : Decoder) (params : List ℕ) : Option (Option Decoder) :=
  match params[2]?, params[3]? with
  | some w, some h =>
    if 0 < w ∧ 0 < h then
      (mulU64 w h).bind fun size =>
        if size ≤ maxPixels then { d with declared := some (w, h) }.ensure w h else some (some d)
    else some (some d)
  | _, _ => some (some d)

/-- `#`: a color is chosen, and may be defined. -/
def setColor (hlsToRgb : ℕ → ℕ → ℕ → Rgb) (d : Decoder) (params : List ℕ) : Option Decoder :=
  match params with
  | [] => some d
  | first :: defined =>
    let index := min first 255
    let palette :=
      match defined with
      | unit :: px :: py :: pz :: _ =>
        let rgb := if unit = 1 then hlsToRgb px py pz else (percent px, percent py, percent pz)
        Slice.setAt (d.palette ++ List.replicate (index + 1 - d.palette.length) (0, 0, 0)) index rgb
      | _ => some d.palette
    palette.map fun palette => { d with palette := palette, color := index }

/-- What one byte does, with the repeat count that is left and how many bytes after it are taken. -/
def step (hlsToRgb : ℕ → ℕ → ℕ → Rgb) (d : Decoder) (repeat' : Option ℕ) (b : UInt8) (rest : List UInt8) :
    Option (Option (Decoder × Option ℕ × ℕ)) :=
  let (params, next) := readParams rest
  if b = 0x22 then (d.raster params).map (·.map fun d => (d, repeat', next))
  else if b = 0x23 then (d.setColor hlsToRgb params).map fun d => some (d, repeat', next)
  else if b = 0x21 then some (some (d, some (max (params.head?.getD 1) 1), next))
  else if b = 0x24 then some (some ({ d with x := 0 }, repeat', 0))
  else if b = 0x2D then (addU32 d.y 6).map fun y => some ({ d with x := 0, y := y }, repeat', 0)
  else if 0x3F ≤ b ∧ b ≤ 0x7E then
    (d.sixel (b.toNat - 0x3F) (repeat'.getD 1)).map (·.map fun d => (d, none, 0))
  else some (some (d, repeat', 0))

def run (hlsToRgb : ℕ → ℕ → ℕ → Rgb) (d : Decoder) (repeat' : Option ℕ) (data : List UInt8) : Option (Option Decoder) :=
  match data with
  | [] => some (some d)
  | b :: rest =>
    match d.step hlsToRgb repeat' b rest with
    | none => none
    | some none => some none
    | some (some (d, repeat', taken)) => run hlsToRgb d repeat' (rest.drop taken)
termination_by data.length
decreasing_by
  simp only [List.length_drop, List.length_cons]
  omega

def pixel (d : Decoder) (index : ℕ) : List UInt8 :=
  if index = 0 then
    if d.transparent then [0, 0, 0, 0]
    else
      let bg := d.palette.head?.getD (0, 0, 0)
      [bg.1, bg.2.1, bg.2.2, 255]
  else
    let rgb := d.palette[index - 1]?.getD (0, 0, 0)
    [rgb.1, rgb.2.1, rgb.2.2, 255]

def finish (d : Decoder) : Option (Option SixelImage) :=
  let (width, height) := match d.declared with
    | some (w, h) => (min w d.width, min h d.height)
    | none => (d.width, d.height)
  if width = 0 ∨ height = 0 then some none
  else
    ((List.range height).mapM fun y => (List.range width).mapM fun x =>
      (d.canvas[y * d.width + x]?).map d.pixel).map fun rows => some ⟨width, height, (rows.map List.flatten).flatten⟩

end Decoder

/-- Bytes that are no text are no number. -/
def parseParam (bytes : List UInt8) : ℕ := (parseUint u32Max (bytes.map fun b => Char.ofNat b.toNat)).getD 0

def transparentBackground (params : List UInt8) : Bool := (((params.splitOn 0x3B).map parseParam)[1]?).getD 0 = 1

def decode (hlsToRgb : ℕ → ℕ → ℕ → Rgb) (body : List UInt8) : Option (Option SixelImage) :=
  match body.findIdx? (· = 0x71) with
  | none => some none
  | some q =>
    ((Decoder.new (transparentBackground (body.take q))).run hlsToRgb none (body.drop (q + 1))).bind fun
      | none => some none
      | some d => d.finish

end Dekit.Term.Sixel
