import Mathlib.Data.Nat.Basic

namespace Dekit

namespace Vt

def maxParams : ℕ := 32

def u32Max : ℕ := 4294967295

def saturatingMul (a b : ℕ) : ℕ := min (a * b) u32Max

def saturatingAdd (a b : ℕ) : ℕ := min (a + b) u32Max

/-- A parameter's value, whether it is given, and whether a colon attaches it to the one before. -/
structure Param where
  value : ℕ
  given : Bool
  sub : Bool
deriving DecidableEq

/-- The bytes of a CSI sequence that are no parameters are 0 where there are none. -/
structure Params where
  prefixByte : UInt8
  inter : UInt8
  final : UInt8
  values : List Param
  invalid : Bool
deriving DecidableEq

def decimal (n : ℕ) : List UInt8 :=
  if n < 10 then [UInt8.ofNat (0x30 + n)] else decimal (n / 10) ++ [UInt8.ofNat (0x30 + n % 10)]
termination_by n

def onLast {α : Type} (f : α → α) : List α → List α
  | [] => []
  | [v] => [f v]
  | v :: v' :: vs => v :: onLast f (v' :: vs)

namespace Params

def reset : Params := ⟨0, 0, 0, [], false⟩

/-- The parameters, of which there is one at least when a digit or a separator comes. -/
def started (p : Params) : List Param := if p.values.isEmpty then [⟨0, false, false⟩] else p.values

def pushDigit (digit : ℕ) (p : Params) : Params :=
  { p with values := p.started |> onLast fun v =>
      { v with value := saturatingAdd (saturatingMul v.value 10) digit, given := true } }

def nextParam (sub : Bool) (p : Params) : Params :=
  if p.started.length < maxParams then { p with values := p.started ++ [⟨0, false, sub⟩] }
  else { p with values := p.started, invalid := true }

def setPrefix (b : UInt8) (p : Params) : Params :=
  if p.values.isEmpty && p.prefixByte = 0 then { p with prefixByte := b } else { p with invalid := true }

def setInter (b : UInt8) (p : Params) : Params := { p with inter := if p.inter = 0 then b else 0xFF }

def getOpt (p : Params) (i : ℕ) : Option ℕ := (p.values[i]?).bind fun v => if v.given then some v.value else none

def get (p : Params) (i default : ℕ) : ℕ := (p.getOpt i).getD default

def get16 (p : Params) (i default : ℕ) : ℕ := min (p.get i default) 65535

def isSub (p : Params) (i : ℕ) : Bool := (p.values[i]?).any Param.sub

def isBare (p : Params) : Bool := p.values.isEmpty && p.prefixByte = 0 && p.inter = 0 && !p.invalid

def writeValue (v : Param) : List UInt8 := if v.given then decimal v.value else []

def writeNext (v : Param) : List UInt8 := (if v.sub then 0x3A else 0x3B) :: writeValue v

def writeValues : List Param → List UInt8
  | [] => []
  | v :: vs => writeValue v ++ vs.flatMap writeNext

/-- What rebuilds the parameters when it is scanned after the start of a sequence. -/
def writeUnfinished (p : Params) : List UInt8 :=
  (if p.prefixByte ≠ 0 then [p.prefixByte] else []) ++ writeValues p.values ++
    -- Invalid parameters have a parameter or a prefix, and then one more prefix is too many.
    (if p.invalid then [0x3F] else []) ++
    (if p.inter = 0 then [] else if p.inter = 0xFF then [0x20, 0x20] else [p.inter])

end Params

end Vt

end Dekit
