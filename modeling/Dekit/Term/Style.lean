import Mathlib.Data.List.Basic

namespace Dekit

namespace Term

inductive Color where
  | default
  | idx (n : UInt8)
  | rgb (r g b : UInt8)
deriving DecidableEq

inductive Underline where
  | none
  | single
  | double
  | curly
  | dotted
  | dashed
deriving DecidableEq

namespace Underline

def fromU8 (n : ℕ) : Underline :=
  match n with
  | 1 => single
  | 2 => double
  | 3 => curly
  | 4 => dotted
  | 5 => dashed
  | _ => none

end Underline

/-- A hyperlink in a grid's table; 0 is no link. -/
abbrev LinkId := ℕ

/-- What a cell looks like: its colors, its link and its attributes. -/
structure Style where
  fg : Color
  bg : Color
  ul : Color
  link : LinkId
  bold : Bool
  dim : Bool
  italic : Bool
  underline : Underline
  blink : Bool
  inverse : Bool
  hidden : Bool
  strike : Bool
  overline : Bool
deriving DecidableEq

namespace Style

def default : Style where
  fg := .default
  bg := .default
  ul := .default
  link := 0
  bold := false
  dim := false
  italic := false
  underline := .none
  blink := false
  inverse := false
  hidden := false
  strike := false
  overline := false

def withLink (s : Style) (link : LinkId) : Style := { s with link := link }

def isVisibleBlank (s : Style) : Bool :=
  s.bg ≠ .default || s.inverse || s.underline ≠ .none || s.strike || s.overline

end Style

/-- The place of a style in a grid's table; 0 is the default style. -/
abbrev StyleId := ℕ

abbrev StyleTable := List Style

namespace StyleTable

def new : StyleTable := [.default]

def lookup (t : StyleTable) (style : Style) : Option StyleId := t.findIdx? (· = style)

def intern (t : StyleTable) (style : Style) : StyleId × StyleTable :=
  match t.lookup style with
  | some id => (id, t)
  | none => (t.length, t ++ [style])

def get (t : StyleTable) (id : StyleId) : Style := t[id]?.getD .default

end StyleTable

structure Link where
  uri : List Char
  id : Option (List Char)
deriving DecidableEq

abbrev LinkTable := List Link

@[irreducible] def maxLinks : ℕ := 65536

namespace LinkTable

def intern (t : LinkTable) (link : Link) : LinkId × LinkTable :=
  match t.findIdx? (· = link) with
  | some i => (i + 1, t)
  | none => if maxLinks ≤ t.length then (0, t) else (t.length + 1, t ++ [link])

end LinkTable

end Term

end Dekit
