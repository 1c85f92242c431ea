import Dekit.Term.Style
import Dekit.Vt.Params

/-! The transitions from one style to another that `emit` writes. -/

namespace Dekit

namespace Term

def Underline.toNat : Underline → ℕ
  | .none => 0
  | .single => 1
  | .double => 2
  | .curly => 3
  | .dotted => 4
  | .dashed => 5

end Term

namespace Vt

open Term

/-- The parameters of a color. The color of an underline, from 58, has only the extended form, and with colons. -/
def colorParams (base : ℕ) (color : Color) : List UInt8 :=
  let extended := if base = 58 then 58 else base + 8
  match color with
  | .default => decimal (if base = 58 then 59 else base + 9)
  | .idx n =>
    if n < 8 ∧ base ≠ 58 then decimal (base + n.toNat)
    else if n < 16 ∧ base ≠ 58 then decimal (base + 60 + n.toNat - 8)
    else decimal extended ++ (if base = 58 then [0x3A, 0x35, 0x3A] else [0x3B, 0x35, 0x3B]) ++ decimal n.toNat
  | .rgb r g b =>
    if base = 58 then
      decimal extended ++ [0x3A, 0x32, 0x3A, 0x3A] ++ decimal r.toNat ++ [0x3A] ++ decimal g.toNat ++ [0x3A] ++ decimal b.toNat
    else decimal extended ++ [0x3B, 0x32, 0x3B] ++ decimal r.toNat ++ [0x3B] ++ decimal g.toNat ++ [0x3B] ++ decimal b.toNat

def underlineParams : Underline → List UInt8
  | .none => decimal 24
  | .single => decimal 4
  | shape => [0x34, 0x3A] ++ decimal shape.toNat

/-- The parameters that lead from one style to another; each is separated from the one before. -/
def sgrParts (source target : Style) : List (List UInt8) :=
  -- 22 clears both bold and dim; what stays on is set again.
  let intensityOff := source.bold && !target.bold || source.dim && !target.dim
  (if intensityOff then [decimal 22] else []) ++
    (if target.bold && (intensityOff || !source.bold) then [decimal 1] else []) ++
    (if target.dim && (intensityOff || !source.dim) then [decimal 2] else []) ++
    (if source.italic ≠ target.italic then [decimal (if target.italic then 3 else 23)] else []) ++
    (if source.underline ≠ target.underline then [underlineParams target.underline] else []) ++
    (if source.blink ≠ target.blink then [decimal (if target.blink then 5 else 25)] else []) ++
    (if source.inverse ≠ target.inverse then [decimal (if target.inverse then 7 else 27)] else []) ++
    (if source.hidden ≠ target.hidden then [decimal (if target.hidden then 8 else 28)] else []) ++
    (if source.strike ≠ target.strike then [decimal (if target.strike then 9 else 29)] else []) ++
    (if source.overline ≠ target.overline then [decimal (if target.overline then 53 else 55)] else []) ++
    (if source.fg ≠ target.fg then [colorParams 30 target.fg] else []) ++
    (if source.bg ≠ target.bg then [colorParams 40 target.bg] else []) ++
    (if source.ul ≠ target.ul then [colorParams 58 target.ul] else [])

/-- The transition from one style to another: nothing where they are the same. Links are no part of it. -/
def sgr (source target : Style) : List UInt8 :=
  let source := source.withLink 0
  let target := target.withLink 0
  if source = target then []
  else if target = .default then [0x1B, 0x5B, 0x30, 0x6D]
  else [0x1B, 0x5B] ++ [0x3B].intercalate (sgrParts source target) ++ [0x6D]

/-- The parameters that set a style from scratch, without the start of the sequence. -/
def sgrFull (style : Style) : List UInt8 :=
  let params := ([0x1B, 0x5B].isPrefixOf? (sgr .default style)).bind [0x6D].isSuffixOf?
  0x30 :: (match params with
    | some params => if params ≠ [] ∧ params ≠ [0x30] then 0x3B :: params else []
    | none => []) ++ [0x6D]

end Vt

end Dekit
