import Mathlib.Data.List.Basic

namespace Framing

variable {α β σ ε : Type}

/-- An encoding in whole frames: a decoder takes the first off what it is given, or waits for the rest of it. -/
structure Code (α β σ ε : Type) where
  encode : α → List β
  value : α → σ
  decode : List β → Except ε (Option (σ × List β))
  decode_whole : ∀ a rest, decode (encode a ++ rest) = .ok (some (value a, rest))
  decode_part : ∀ a l, l <+: encode a → l ≠ encode a → decode l = .ok none
  decode_nil : decode [] = .ok none

namespace Code

variable {c : Code α β σ ε} {a : α} {as : List α} {buf rest : List β}

def encodes (c : Code α β σ ε) (as : List α) : List β := as.flatMap c.encode

theorem encodes_append (as bs : List α) : c.encodes (as ++ bs) = c.encodes as ++ c.encodes bs := List.flatMap_append

theorem decode_of_encodes (h : buf ++ rest = c.encodes as) :
    (∃ a as' buf', as = a :: as' ∧ c.decode buf = .ok (some (c.value a, buf')) ∧ buf' ++ rest = c.encodes as') ∨
      c.decode buf = .ok none ∧ (rest = [] → as = [] ∧ buf = []) := by
  cases as with
  | nil =>
    obtain ⟨rfl, rfl⟩ := List.append_eq_nil_iff.mp h
    exact .inr ⟨c.decode_nil, fun _ => ⟨rfl, rfl⟩⟩
  | cons a as =>
    have h : buf ++ rest = c.encode a ++ c.encodes as := h
    rcases List.append_eq_append_iff.mp h with ⟨tail, htail, hrest⟩ | ⟨tail, rfl, hrest⟩
    · by_cases hempty : tail = []
      · subst hempty
        rw [List.append_nil] at htail
        refine .inl ⟨a, as, [], rfl, ?_, hrest⟩
        rw [← htail, ← List.append_nil (c.encode a)]
        exact c.decode_whole a []
      · refine .inr ⟨c.decode_part a buf ⟨tail, htail.symm⟩ ?_, ?_⟩
        · rintro rfl
          exact hempty (List.append_cancel_left (htail.symm.trans (List.append_nil _).symm))
        · rintro rfl
          exact absurd (List.append_eq_nil_iff.mp hrest.symm).1 hempty
    · exact .inl ⟨a, as, tail, rfl, c.decode_whole a tail, hrest.symm⟩

end Code

end Framing
