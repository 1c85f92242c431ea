import Mathlib.Algebra.Ring.Nat
import Mathlib.Data.List.Basic

namespace Dekit

namespace Term

def utf8Len (text : List Char) : ℕ := (text.map Char.utf8Size).sum

/-- A text past its first bytes, none within a character. -/
def dropBytes : ℕ → List Char → Option (List Char)
  | 0, text => some text
  | _ + 1, [] => none
  | n + 1, c :: text => if c.utf8Size ≤ n + 1 then dropBytes (n + 1 - c.utf8Size) text else none

def takeBytes : ℕ → List Char → Option (List Char)
  | 0, _ => some []
  | _ + 1, [] => none
  | n + 1, c :: text => if c.utf8Size ≤ n + 1 then (takeBytes (n + 1 - c.utf8Size) text).map (c :: ·) else none

def utf8 (text : List Char) : List UInt8 := text.flatMap String.utf8EncodeChar

variable {text rest : List Char} {c : Char}

theorem utf8EncodeChar_ascii (h : c.toNat < 0x80) : String.utf8EncodeChar c = [UInt8.ofNat c.toNat] := by
  unfold String.utf8EncodeChar
  simp only
  rw [if_pos (by change c.toNat ≤ 0x7f; omega)]
  rfl

theorem utf8Len_cons (c : Char) (text : List Char) : utf8Len (c :: text) = c.utf8Size + utf8Len text := by
  simp [utf8Len]

theorem utf8Len_append (text rest : List Char) : utf8Len (text ++ rest) = utf8Len text + utf8Len rest := by
  simp [utf8Len]

theorem dropBytes_cons (c : Char) (text : List Char) (n : ℕ) :
    dropBytes (c.utf8Size + n) (c :: text) = dropBytes n text := by
  have hpos := c.utf8Size_pos
  obtain ⟨m, hm⟩ : ∃ m, c.utf8Size + n = m + 1 := ⟨c.utf8Size + n - 1, by omega⟩
  rw [hm, dropBytes, if_pos (by omega)]
  congr 1
  omega

theorem takeBytes_cons (c : Char) (text : List Char) (n : ℕ) :
    takeBytes (c.utf8Size + n) (c :: text) = (takeBytes n text).map (c :: ·) := by
  have hpos := c.utf8Size_pos
  obtain ⟨m, hm⟩ : ∃ m, c.utf8Size + n = m + 1 := ⟨c.utf8Size + n - 1, by omega⟩
  rw [hm, takeBytes, if_pos (by omega)]
  congr 2
  omega

theorem dropBytes_append (text rest : List Char) : dropBytes (utf8Len text) (text ++ rest) = some rest := by
  induction text with
  | nil => simp [utf8Len, dropBytes]
  | cons c text ih => rw [utf8Len_cons, List.cons_append, dropBytes_cons, ih]

theorem takeBytes_append (text rest : List Char) : takeBytes (utf8Len text) (text ++ rest) = some text := by
  induction text with
  | nil => simp [utf8Len, takeBytes]
  | cons c text ih => rw [utf8Len_cons, List.cons_append, takeBytes_cons, ih]; rfl

theorem takeBytes_within {n : ℕ} (hn : 0 < n) (hc : n < c.utf8Size) : takeBytes n (c :: text) = none := by
  obtain ⟨m, rfl⟩ : ∃ m, n = m + 1 := ⟨n - 1, by omega⟩
  rw [takeBytes, if_neg (by omega)]

theorem length_utf8 (text : List Char) : (utf8 text).length = utf8Len text := by
  induction text with
  | nil => rfl
  | cons c text ih =>
    rw [utf8Len_cons, ← ih, utf8, List.flatMap_cons, List.length_append, String.length_utf8EncodeChar]
    rfl

theorem utf8_append (text rest : List Char) : utf8 (text ++ rest) = utf8 text ++ utf8 rest := List.flatMap_append

theorem drop_utf8 (text rest : List Char) : (utf8 (text ++ rest)).drop (utf8Len text) = utf8 rest := by
  rw [utf8_append, ← length_utf8, List.drop_left]

end Term

end Dekit
