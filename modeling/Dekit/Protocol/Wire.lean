import Mathlib.Tactic.Ring
import Dekit.Lib.Framing

/-! The frames of a connection: a length of four bytes, a kind, and a payload. -/

namespace Dekit.Protocol

abbrev maxFrame : ℕ := 16 * 1024 * 1024

abbrev outFrameBytes : ℕ := 1024 * 1024

abbrev kindCtl : UInt8 := 0

abbrev kindOut : UInt8 := 1

structure RawFrame where
  kind : UInt8
  payload : List UInt8
  deriving DecidableEq

inductive WireError
  | badFrameLength (len : ℕ)
  | frameTooLarge (len : ℕ)
  deriving DecidableEq

/-- A number below `2 ^ 32` as bytes, the highest first. -/
def putU32 (n : ℕ) : List UInt8 :=
  [UInt8.ofNat (n / 2 ^ 24), UInt8.ofNat (n / 2 ^ 16), UInt8.ofNat (n / 2 ^ 8), UInt8.ofNat n]

def fromBeBytes (b₀ b₁ b₂ b₃ : UInt8) : ℕ :=
  b₀.toNat * 2 ^ 24 + b₁.toNat * 2 ^ 16 + b₂.toNat * 2 ^ 8 + b₃.toNat

namespace FrameCodec

def decode : List UInt8 → Except WireError (Option (RawFrame × List UInt8))
  | b₀ :: b₁ :: b₂ :: b₃ :: body =>
    let len := fromBeBytes b₀ b₁ b₂ b₃
    if len < 1 ∨ maxFrame < len then .error (.badFrameLength len)
    else if body.length < len then .ok none
    else
      match body with
      | kind :: rest => .ok (some (⟨kind, rest.take (len - 1)⟩, rest.drop (len - 1)))
      -- A frame has its kind at least.
      | [] => .ok none
  | _ => .ok none

def encode (frame : RawFrame) (dst : List UInt8) : Except WireError (List UInt8) :=
  let len := frame.payload.length + 1
  if maxFrame < len then .error (.frameTooLarge len)
  else .ok (dst ++ (putU32 len ++ frame.kind :: frame.payload))

theorem fromBeBytes_putU32 {n : ℕ} (h : n < 2 ^ 32) :
    fromBeBytes (UInt8.ofNat (n / 2 ^ 24)) (UInt8.ofNat (n / 2 ^ 16)) (UInt8.ofNat (n / 2 ^ 8))
      (UInt8.ofNat n) = n := by
  unfold fromBeBytes
  simp only [UInt8.toNat_ofNat']
  omega

theorem decode_putU32 {n : ℕ} (h : n < 2 ^ 32) (body : List UInt8) : decode (putU32 n ++ body) =
    if n < 1 ∨ maxFrame < n then .error (.badFrameLength n)
    else if body.length < n then .ok none
    else
      match body with
      | kind :: rest => .ok (some (⟨kind, rest.take (n - 1)⟩, rest.drop (n - 1)))
      | [] => .ok none := by
  simp only [putU32, List.cons_append, List.nil_append, decode, fromBeBytes_putU32 h]

theorem decode_short {l : List UInt8} (h : l.length < 4) : decode l = .ok none := by
  match l with
  | [] | [_] | [_, _] | [_, _, _] => rfl
  | _ :: _ :: _ :: _ :: _ =>
    simp only [List.length_cons] at h
    omega

theorem length_decode {l : List UInt8} {frame : RawFrame} {rest : List UInt8}
    (h : decode l = .ok (some (frame, rest))) :
    rest.length < l.length := by
  match l with
  | [] | [_] | [_, _] | [_, _, _] => cases h
  | b₀ :: b₁ :: b₂ :: b₃ :: body =>
    simp only [decode] at h
    split at h
    · cases h
    · split at h
      · cases h
      · cases body with
        | nil => cases h
        | cons kind body =>
          simp only [Except.ok.injEq, Option.some.injEq, Prod.mk.injEq] at h
          rw [← h.2]
          simp only [List.length_drop, List.length_cons]
          omega

end FrameCodec

/-- A frame that is not too large for the wire. -/
def Frame : Type := { frame : RawFrame // frame.payload.length + 1 ≤ maxFrame }

namespace Frame

def bytes (f : Frame) : List UInt8 := putU32 (f.val.payload.length + 1) ++ f.val.kind :: f.val.payload

theorem small (f : Frame) : f.val.payload.length + 1 < 2 ^ 32 := by
  have := f.property
  simp only [maxFrame] at this
  omega

theorem decode_bytes (f : Frame) (rest : List UInt8) :
    FrameCodec.decode (f.bytes ++ rest) = .ok (some (f.val, rest)) := by
  have hsize := f.property
  unfold bytes
  rw [List.append_assoc, FrameCodec.decode_putU32 f.small, if_neg (by omega), if_neg (by simp)]
  simp

theorem decode_part (f : Frame) {l : List UInt8} (h : l <+: f.bytes) (hne : l ≠ f.bytes) :
    FrameCodec.decode l = .ok none := by
  obtain ⟨tail, htail⟩ := h
  have htail_ne : tail ≠ [] := by
    rintro rfl
    exact hne (by rw [← htail, List.append_nil])
  unfold bytes at htail
  rcases List.append_eq_append_iff.mp htail with ⟨head, hhead, -⟩ | ⟨body, rfl, hbody⟩
  · by_cases hempty : head = []
    · subst hempty
      rw [List.append_nil] at hhead
      rw [← hhead, ← List.append_nil (putU32 _), FrameCodec.decode_putU32 f.small]
      have := f.property
      rw [if_neg (by omega), if_pos (by simp)]
    · refine FrameCodec.decode_short ?_
      have hlen := congrArg List.length hhead
      have hpos := List.length_pos_iff.mpr hempty
      rw [List.length_append] at hlen
      have : (putU32 (f.val.payload.length + 1)).length = 4 := rfl
      omega
  · rw [FrameCodec.decode_putU32 f.small]
    have hsize := f.property
    have hpos := List.length_pos_iff.mpr htail_ne
    have hlen := congrArg List.length hbody
    simp only [List.length_cons, List.length_append] at hlen
    rw [if_neg (by omega), if_pos (by omega)]

end Frame

/-- The frames of a connection, as a decoder finds them in its bytes. -/
def frameCode : Framing.Code Frame UInt8 RawFrame WireError where
  encode := Frame.bytes
  value := Subtype.val
  decode := FrameCodec.decode
  decode_whole := Frame.decode_bytes
  decode_part f _ := f.decode_part
  decode_nil := rfl

end Dekit.Protocol
