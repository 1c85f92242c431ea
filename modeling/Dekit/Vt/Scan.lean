import Mathlib.Data.List.Basic
import Dekit.Vt.Params

namespace Dekit

namespace Vt

@[irreducible] def maxOscBytes : ℕ := 1024 * 1024

@[irreducible] def maxDcsBytes : ℕ := 16 * 1024 * 1024

@[irreducible] def maxApcBytes : ℕ := 1024 * 1024

@[irreducible] def maxSkipBytes : ℕ := 64 * 1024

@[irreducible] def maxInputReplyBytes : ℕ := 8 * 1024

/-- What is scanned. A text is its UTF-8 bytes. -/
inductive Seq where
  | text (t : List UInt8)
  | ctl (b : UInt8)
  | esc (inter final : UInt8)
  | csi (p : Params)
  | osc (body : List UInt8)
  | dcs (body : List UInt8)
  | apc (body : List UInt8)
  | escChar (c : Char)
  | ss3 (b : UInt8)
  | x10Mouse (b x y : UInt8)
deriving DecidableEq

inductive ScanMode where
  | output
  | input
deriving DecidableEq

inductive State where
  | ground
  | utf8
  | esc
  | escInter
  | escUtf8
  | csi
  | osc
  | oscEsc
  | dcs
  | dcsEsc
  | apc
  | apcEsc
  | skip
  | skipEsc
  | ss3
  | x10Mouse
  | maybeApc
  | maybeDcs
  | maybeOsc
deriving DecidableEq

/-- `utf8` and `x10` hold the bytes stashed so far. -/
structure Scanner where
  mode : ScanMode
  state : State
  params : Params
  escInter : UInt8
  body : List UInt8
  utf8 : List UInt8
  utf8Need : ℕ
  x10 : List UInt8

/-- How many bytes a character takes that a byte above ASCII leads, or 0. -/
def utf8Need (first : UInt8) : ℕ :=
  if 0xC2 ≤ first ∧ first ≤ 0xDF then 2
  else if 0xE0 ≤ first ∧ first ≤ 0xEF then 3
  else if 0xF0 ≤ first ∧ first ≤ 0xF4 then 4
  else 0

def isCont (b : UInt8) : Bool := 0x80 ≤ b ∧ b ≤ 0xBF

/-- The character a lead byte's bits and the continuation bytes spell, in the shortest form. -/
def charOf (lead least : ℕ) (cs : List UInt8) : Option Char :=
  let v := cs.foldl (fun v c => v * 64 + c.toNat % 64) lead
  if cs.all isCont ∧ least ≤ v ∧ v.isValidChar then some (Char.ofNat v) else none

/-- The characters of a text, or none when it is no valid UTF-8. -/
def fromUtf8 : List UInt8 → Option (List Char)
  | [] => some []
  | b :: rest =>
    if b < 0x80 then (fromUtf8 rest).map (Char.ofNat b.toNat :: ·)
    else match utf8Need b, rest with
      | 2, c₁ :: rest => (charOf (b.toNat % 32) 0x80 [c₁]).bind fun c => (fromUtf8 rest).map (c :: ·)
      | 3, c₁ :: c₂ :: rest => (charOf (b.toNat % 16) 0x800 [c₁, c₂]).bind fun c => (fromUtf8 rest).map (c :: ·)
      | 4, c₁ :: c₂ :: c₃ :: rest =>
        (charOf (b.toNat % 8) 0x10000 [c₁, c₂, c₃]).bind fun c => (fromUtf8 rest).map (c :: ·)
      | _, _ => none

def isPrint (b : UInt8) : Bool := 0x20 ≤ b ∧ b ≤ 0x7E

/-- The text at the start of an input, up to what is no whole valid character, and the rest. -/
def textRun : List UInt8 → List UInt8 × List UInt8
  | [] => ([], [])
  | b :: rest =>
    if isPrint b then
      let run := textRun rest
      (b :: run.1, run.2)
    else if 0xC2 ≤ b then
      let need := utf8Need b
      if need = 0 ∨ (b :: rest).length < need then ([], b :: rest)
      else if (fromUtf8 ((b :: rest).take need)).isNone then ([], b :: rest)
      else
        let run := textRun (rest.drop (need - 1))
        ((b :: rest).take need ++ run.1, run.2)
    else ([], b :: rest)
termination_by input => input.length

theorem textRun_append (input : List UInt8) : (textRun input).1 ++ (textRun input).2 = input := by
  induction input using textRun.induct with
  | case1 => rw [textRun]; rfl
  | case2 b rest hb ih => rw [textRun, if_pos hb]; exact congrArg (b :: ·) ih
  | case3 b rest hb hlead need hneed => rw [textRun, if_neg hb, if_pos hlead, if_pos hneed]; rfl
  | case4 b rest hb hlead need hneed hbad => rw [textRun, if_neg hb, if_pos hlead, if_neg hneed, if_pos hbad]; rfl
  | case5 b rest hb hlead need hneed hgood ih =>
    rw [textRun, if_neg hb, if_pos hlead, if_neg hneed, if_neg hgood]
    simp only
    have hn : need ≠ 0 := fun h => hneed (.inl h)
    obtain ⟨k, hk⟩ := Nat.exists_eq_succ_of_ne_zero hn
    have hk' : utf8Need b = k + 1 := hk
    have hk'' : need - 1 = k := by omega
    rw [hk''] at ih
    rw [hk', Nat.add_sub_cancel, List.append_assoc, ih, List.take_succ_cons, List.cons_append, List.take_append_drop]
  | case6 b rest hb hlead => rw [textRun, if_neg hb, if_neg hlead]; rfl

theorem textRun_length (input : List UInt8) (h : (textRun input).1 ≠ []) : (textRun input).2.length < input.length := by
  have hlen := congrArg List.length (textRun_append input)
  have hpos := List.length_pos_of_ne_nil h
  rw [List.length_append] at hlen
  omega

namespace Scanner

def new (mode : ScanMode) : Scanner := ⟨mode, .ground, .reset, 0, [], [], 0, []⟩

def pending (s : Scanner) : List UInt8 :=
  match s.state with
  | .ground => []
  | .utf8 => s.utf8
  | .esc => [0x1B]
  | .escInter => 0x1B :: if s.escInter = 0xFF then [0x20, 0x20] else [s.escInter]
  | .escUtf8 => 0x1B :: s.utf8
  | .csi => [0x1B, 0x5B] ++ s.params.writeUnfinished
  | .osc => [0x1B, 0x5D] ++ s.body
  | .oscEsc => [0x1B, 0x5D] ++ s.body ++ [0x1B]
  | .dcs => [0x1B, 0x50] ++ s.body
  | .dcsEsc => [0x1B, 0x50] ++ s.body ++ [0x1B]
  | .apc => [0x1B, 0x5F] ++ s.body
  | .apcEsc => [0x1B, 0x5F] ++ s.body ++ [0x1B]
  | .maybeApc => [0x1B, 0x5F]
  | .maybeDcs => [0x1B, 0x50]
  | .maybeOsc => [0x1B, 0x5D]
  | .skip => [0x1B, 0x58] ++ s.body
  | .skipEsc => [0x1B, 0x58] ++ s.body ++ [0x1B]
  | .ss3 => [0x1B, 0x4F]
  | .x10Mouse => [0x1B, 0x5B, 0x4D] ++ s.x10

def bodyCap (s : Scanner) (output : ℕ) : ℕ :=
  match s.mode with
  | .output => output
  | .input => maxInputReplyBytes

def pushBody (s : Scanner) (b : UInt8) (max : ℕ) : Scanner :=
  if max ≤ s.body.length then { s with body := [], state := .ground } else { s with body := s.body ++ [b] }

def paramsInterExtra (s : Scanner) : Scanner := { s with escInter := if s.escInter ≠ 0 then 0xFF else s.escInter }

/-- What the continuation bytes of a character are alone when it is invalid. -/
def dropLead (stash : List UInt8) : List Seq := (stash.tail.filter (· = 0x8D)).map .ctl

def strayCtl (b : UInt8) : List Seq := if b < 0x20 ∨ b = 0x7F then [.ctl b] else []

def groundTurn (s : Scanner) (b : UInt8) (rest : List UInt8) : Scanner × List Seq × List UInt8 :=
  if b = 0x1B then ({ s with state := .esc }, [], rest)
  else if isPrint b ∨ 0xC2 ≤ b then
    let run := textRun (b :: rest)
    if run.1 ≠ [] then (s, [.text run.1], run.2)
    else
      -- A character cut at the end of the input, or invalid.
      let need := Vt.utf8Need b
      if 0 < need ∧ (b :: rest).length < need ∧ rest.all isCont then
        ({ s with utf8 := b :: rest, utf8Need := need, state := .utf8 }, [], [])
      else (s, [], rest)
  else (s, if b < 0x20 ∨ b = 0x7F ∨ b = 0x8D then [.ctl b] else [], rest)

def utf8Turn (s : Scanner) (b : UInt8) (rest : List UInt8) : Scanner × List Seq × List UInt8 :=
  if !isCont b then
    -- The byte is scanned again from the ground state.
    ({ s with utf8 := [], state := .ground }, dropLead s.utf8, b :: rest)
  else
    let stash := s.utf8 ++ [b]
    if stash.length = s.utf8Need then
      let items := match fromUtf8 stash with
        | some chars => if s.state = .escUtf8 then chars.head?.toList.map .escChar else [.text stash]
        | none => dropLead stash
      ({ s with utf8 := [], state := .ground }, items, rest)
    else ({ s with utf8 := stash }, [], rest)

def escOutput (s : Scanner) (b : UInt8) : Scanner × List Seq :=
  if 0x20 ≤ b ∧ b ≤ 0x2F then ({ s with escInter := b, state := .escInter }, [])
  else if b = 0x5D then ({ s with body := [], state := .osc }, [])
  else if b = 0x50 then ({ s with body := [], state := .dcs }, [])
  else if b = 0x5F then ({ s with body := [], state := .apc }, [])
  else if b = 0x58 ∨ b = 0x5E then ({ s with body := [], state := .skip }, [])
  else if 0x30 ≤ b ∧ b ≤ 0x7E then ({ s with state := .ground }, [.esc 0 b])
  else ({ s with state := .ground }, strayCtl b)

def escInput (s : Scanner) (b : UInt8) : Scanner × List Seq :=
  if b = 0x5F then ({ s with state := .maybeApc }, [])
  else if b = 0x50 then ({ s with state := .maybeDcs }, [])
  else if b = 0x5D then ({ s with state := .maybeOsc }, [])
  else if b < 0x80 then ({ s with state := .ground }, [.escChar (Char.ofNat b.toNat)])
  else if 0 < Vt.utf8Need b then ({ s with utf8 := [b], utf8Need := Vt.utf8Need b, state := .escUtf8 }, [])
  else ({ s with state := .ground }, [])

def escTurn (s : Scanner) (b : UInt8) : Scanner × List Seq :=
  if b = 0x5B then ({ s with params := .reset, state := .csi }, [])
  else match s.mode with
    | .output => if b = 0x1B then (s, []) else s.escOutput b
    | .input =>
      if b = 0x1B then ({ s with state := .ground }, [.ctl 0x1B])
      else if b = 0x4F then ({ s with state := .ss3 }, [])
      else s.escInput b

def escInterTurn (s : Scanner) (b : UInt8) : Scanner × List Seq :=
  if 0x20 ≤ b ∧ b ≤ 0x2F then (s.paramsInterExtra, [])
  else if 0x30 ≤ b ∧ b ≤ 0x7E then ({ s with state := .ground }, [.esc s.escInter b])
  else ({ s with state := .ground }, strayCtl b)

def csiTurn (s : Scanner) (b : UInt8) : Scanner × List Seq :=
  if 0x30 ≤ b ∧ b ≤ 0x39 then ({ s with params := s.params.pushDigit (b.toNat - 0x30) }, [])
  else if b = 0x3B then ({ s with params := s.params.nextParam false }, [])
  else if b = 0x3A then ({ s with params := s.params.nextParam true }, [])
  else if 0x3C ≤ b ∧ b ≤ 0x3F then ({ s with params := s.params.setPrefix b }, [])
  else if 0x20 ≤ b ∧ b ≤ 0x2F then ({ s with params := s.params.setInter b }, [])
  else if b = 0x4D ∧ s.mode = .input ∧ s.params.isBare then ({ s with x10 := [], state := .x10Mouse }, [])
  else if 0x40 ≤ b ∧ b ≤ 0x7E then
    ({ s with params := { s.params with final := b }, state := .ground }, [.csi { s.params with final := b }])
  else if b = 0x1B then ({ s with state := .esc }, [])
  else if b < 0x20 then (s, [.ctl b])
  else if b ≠ 0x7F then ({ s with state := .ground }, [])
  else (s, [])

def bodyTurn (s : Scanner) (onEsc : State) (cap : ℕ) (b : UInt8) : Scanner × List Seq :=
  if b = 0x1B then ({ s with state := onEsc }, []) else (s.pushBody b cap, [])

def oscTurn (s : Scanner) (b : UInt8) : Scanner × List Seq :=
  if b = 0x07 ∨ b = 0x9C then ({ s with state := .ground }, [.osc s.body])
  else s.bodyTurn .oscEsc (s.bodyCap maxOscBytes) b

/-- After an ESC in a body: its end, or a part of it, and then the byte is scanned again. -/
def bodyEscTurn (s : Scanner) (back : State) (cap : ℕ) (item : Seq) (b : UInt8) (rest : List UInt8) :
    Scanner × List Seq × List UInt8 :=
  if b = 0x5C then ({ s with state := .ground }, [item], rest)
  else (pushBody { s with state := back } 0x1B cap, [], b :: rest)

def skipEscTurn (s : Scanner) (b : UInt8) (rest : List UInt8) : Scanner × List Seq × List UInt8 :=
  if b = 0x5C then ({ s with body := [], state := .ground }, [], rest)
  else (pushBody { s with state := .skip } 0x1B maxSkipBytes, [], b :: rest)

def maybeApcTurn (s : Scanner) (b : UInt8) (rest : List UInt8) : Scanner × List Seq × List UInt8 :=
  if b = 0x47 then ({ s with body := [b], state := .apc }, [], rest)
  else ({ s with state := .ground }, [.escChar '_'], b :: rest)

def maybeDcsTurn (s : Scanner) (b : UInt8) (rest : List UInt8) : Scanner × List Seq × List UInt8 :=
  if b = 0x3E then ({ s with body := [], state := .dcs }, [], b :: rest)
  else ({ s with state := .ground }, [.escChar 'P'], b :: rest)

def maybeOscTurn (s : Scanner) (b : UInt8) (rest : List UInt8) : Scanner × List Seq × List UInt8 :=
  if 0x30 ≤ b ∧ b ≤ 0x39 then ({ s with body := [], state := .osc }, [], b :: rest)
  else ({ s with state := .ground }, [.escChar ']'], b :: rest)

def x10Turn (s : Scanner) (b : UInt8) : Scanner × List Seq :=
  match s.x10 with
  | [x, y] => ({ s with state := .ground }, [.x10Mouse x y b])
  | _ => ({ s with x10 := s.x10 ++ [b] }, [])

def taking (r : Scanner × List Seq) (rest : List UInt8) : Scanner × List Seq × List UInt8 := (r.1, r.2, rest)

/-- One turn of the scan over what is left of an input: the items, and what is left then. -/
def turn (s : Scanner) (b : UInt8) (rest : List UInt8) : Scanner × List Seq × List UInt8 :=
  match s.state with
  | .ground => s.groundTurn b rest
  | .utf8 | .escUtf8 => s.utf8Turn b rest
  | .esc => taking (s.escTurn b) rest
  | .escInter => taking (s.escInterTurn b) rest
  | .csi => taking (s.csiTurn b) rest
  | .osc => taking (s.oscTurn b) rest
  | .oscEsc => s.bodyEscTurn .osc (s.bodyCap maxOscBytes) (.osc s.body) b rest
  | .dcs => taking (s.bodyTurn .dcsEsc (s.bodyCap maxDcsBytes) b) rest
  | .dcsEsc => s.bodyEscTurn .dcs (s.bodyCap maxDcsBytes) (.dcs s.body) b rest
  | .apc => taking (s.bodyTurn .apcEsc (s.bodyCap maxApcBytes) b) rest
  | .apcEsc => s.bodyEscTurn .apc (s.bodyCap maxApcBytes) (.apc s.body) b rest
  | .skip => taking (s.bodyTurn .skipEsc maxSkipBytes b) rest
  | .skipEsc => s.skipEscTurn b rest
  | .maybeApc => s.maybeApcTurn b rest
  | .maybeDcs => s.maybeDcsTurn b rest
  | .maybeOsc => s.maybeOscTurn b rest
  | .ss3 => taking ({ s with state := .ground }, [.ss3 b]) rest
  | .x10Mouse => taking (s.x10Turn b) rest

/-- Whether a state may take a turn without a byte of its own. -/
def lookAhead : State → ℕ
  | .utf8 | .escUtf8 | .oscEsc | .dcsEsc | .apcEsc | .skipEsc | .maybeApc | .maybeDcs | .maybeOsc => 1
  | _ => 0

def weight (s : Scanner) (input : List UInt8) : ℕ := 2 * input.length + lookAhead s.state

theorem lookAhead_le (s : State) : lookAhead s ≤ 1 := by
  cases s <;> decide

theorem weight_taken (s s' : Scanner) (b : UInt8) {rest rest' : List UInt8} (h : rest'.length ≤ rest.length) :
    weight s' rest' < weight s (b :: rest) := by
  have hle := lookAhead_le s'.state
  unfold weight
  rw [List.length_cons]
  omega

theorem weight_again {s s' : Scanner} (hs : lookAhead s.state = 1) (hs' : lookAhead s'.state = 0) (input : List UInt8) :
    weight s' input < weight s input := by
  unfold weight
  omega

theorem lookAhead_pushBody (s : Scanner) (b : UInt8) (max : ℕ) (h : lookAhead s.state = 0) :
    lookAhead (s.pushBody b max).state = 0 := by
  unfold pushBody
  split
  · rfl
  · exact h

theorem weight_bodyEsc (s : Scanner) {back : State} (cap : ℕ) (item : Seq) (b : UInt8) (rest : List UInt8)
    (hs : lookAhead s.state = 1) (hb : lookAhead back = 0) :
    weight (s.bodyEscTurn back cap item b rest).1 (s.bodyEscTurn back cap item b rest).2.2 < weight s (b :: rest) := by
  unfold bodyEscTurn
  split
  · exact weight_taken _ _ _ le_rfl
  · exact weight_again hs (lookAhead_pushBody _ _ _ hb) _

theorem weight_turn (s : Scanner) (b : UInt8) (rest : List UInt8) :
    weight (s.turn b rest).1 (s.turn b rest).2.2 < weight s (b :: rest) := by
  unfold turn
  split
  · unfold groundTurn
    split
    · exact weight_taken _ _ _ le_rfl
    split
    · simp only
      split
      · rename_i hrun
        exact weight_taken _ _ _ (Nat.le_of_lt_succ (textRun_length (b :: rest) hrun))
      · split
        · exact weight_taken _ _ _ (Nat.zero_le _)
        · exact weight_taken _ _ _ le_rfl
    · exact weight_taken _ _ _ le_rfl
  case h_2 | h_3 =>
    rename_i hs
    unfold utf8Turn
    split
    · exact weight_again (by rw [hs]; rfl) rfl _
    · simp only
      split <;> exact weight_taken _ _ _ le_rfl
  case h_8 | h_10 | h_12 =>
    rename_i hs
    exact weight_bodyEsc s _ _ b rest (by rw [hs]; rfl) rfl
  case h_14 =>
    rename_i hs
    unfold skipEscTurn
    split
    · exact weight_taken _ _ _ le_rfl
    · exact weight_again (by rw [hs]; rfl) (lookAhead_pushBody _ _ _ rfl) _
  case h_15 =>
    rename_i hs
    unfold maybeApcTurn
    split
    · exact weight_taken _ _ _ le_rfl
    · exact weight_again (by rw [hs]; rfl) rfl _
  case h_16 =>
    rename_i hs
    unfold maybeDcsTurn
    split <;> exact weight_again (by rw [hs]; rfl) rfl _
  case h_17 =>
    rename_i hs
    unfold maybeOscTurn
    split <;> exact weight_again (by rw [hs]; rfl) rfl _
  all_goals exact weight_taken _ _ _ le_rfl

/-- Scans a chunk: the items in it, and the scanner after it. -/
def feed (s : Scanner) : List UInt8 → Scanner × List Seq
  | [] => (s, [])
  | b :: rest =>
    let next := s.turn b rest
    let after := feed next.1 next.2.2
    (after.1, next.2.1 ++ after.2)
termination_by input => weight s input
decreasing_by exact weight_turn s b rest

def feeds (s : Scanner) : List (List UInt8) → Scanner × List Seq
  | [] => (s, [])
  | chunk :: chunks =>
    let after := s.feed chunk
    let final := feeds after.1 chunks
    (final.1, after.2 ++ final.2)

end Scanner

end Vt

end Dekit
