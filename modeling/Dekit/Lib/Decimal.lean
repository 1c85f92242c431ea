import Mathlib.Data.List.Basic

/-! Decimal numbers: how `str::parse` reads an unsigned one, and how one is written. -/

namespace Dekit

def digitsValue (digits : List Char) : ℕ := digits.foldl (fun n d => n * 10 + (d.toNat - '0'.toNat)) 0

def isDigit (c : Char) : Bool := '0' ≤ c ∧ c ≤ '9'

def withoutPlus (text : List Char) : List Char :=
  match text with
  | '+' :: rest => rest
  | _ => text

/-- Digits after a plus sign or none, of a number up to `max`. -/
def parseUint (max : ℕ) (text : List Char) : Option ℕ :=
  let digits := withoutPlus text
  if digits = [] ∨ ¬ digits.all isDigit then none
  else if digitsValue digits ≤ max then some (digitsValue digits) else none

theorem digitsValue_append (digits : List Char) (d : Char) :
    digitsValue (digits ++ [d]) = digitsValue digits * 10 + (d.toNat - '0'.toNat) := by
  simp [digitsValue]

theorem digitChar_digit : ∀ k < 10, ('0' ≤ Nat.digitChar k ∧ Nat.digitChar k ≤ '9') ∧
    (Nat.digitChar k).toNat - '0'.toNat = k := by
  decide

theorem digits_toDigits (n : ℕ) :
    (∀ d ∈ Nat.toDigits 10 n, '0' ≤ d ∧ d ≤ '9') ∧ digitsValue (Nat.toDigits 10 n) = n := by
  induction n using Nat.strongRecOn with
  | _ n ih =>
    by_cases hn : n < 10
    · rw [Nat.toDigits_of_lt_base hn]
      have hd := digitChar_digit n hn
      refine ⟨fun d hmem => ?_, ?_⟩
      · rw [List.mem_singleton.mp hmem]
        exact hd.1
      · exact (digitsValue_append [] _).trans (by rw [hd.2]; simp [digitsValue])
    · obtain ⟨hall, hvalue⟩ := ih (n / 10) (by omega)
      rw [Nat.toDigits_of_base_le (by omega) (by omega)]
      have hd := digitChar_digit (n % 10) (Nat.mod_lt n (by omega))
      refine ⟨fun d hmem => ?_, ?_⟩
      · rcases List.mem_append.mp hmem with hmem | hmem
        · exact hall d hmem
        · rw [List.mem_singleton.mp hmem]
          exact hd.1
      · rw [digitsValue_append, hvalue, hd.2]
        omega

end Dekit
