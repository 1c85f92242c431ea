import Mathlib.Logic.Relation
import Dekit.Protocol.Wire

/-! A connection: what is queued at one end, and what is received at the other. -/

namespace Dekit.Protocol

inductive Msg (Ctl : Type)
  | ctl (msg : Ctl)
  | out (bytes : List UInt8)
  deriving DecidableEq

/-- Control messages as JSON. -/
structure Serde (Ctl Value : Type) where
  toVec : Ctl → Option (List UInt8)
  fromSlice : List UInt8 → Option Value
  fromValue : Value → Option Ctl
  type : Value → Option String

def Serde.Inverse {Ctl Value : Type} (serde : Serde Ctl Value) : Prop :=
  ∀ msg bytes, serde.toVec msg = some bytes → ∃ value,
    serde.fromSlice bytes = some value ∧ serde.fromValue value = some msg

inductive QueueError
  | json
  | wire (err : WireError)
  deriving DecidableEq

inductive RecvError
  | wire (err : WireError)
  | invalidControl
  | malformedControl
  deriving DecidableEq

structure ConnSender where
  pending : List UInt8
  deriving DecidableEq

/-- Read but not yet decoded. -/
structure ConnReceiver where
  buffered : List UInt8
  deriving DecidableEq

variable {Ctl Value : Type}

namespace ConnSender

def withPending (pending : List UInt8) : ConnSender := ⟨pending⟩

def new : ConnSender := withPending []

def queue (s : ConnSender) (frame : RawFrame) : ConnSender × Except QueueError Unit :=
  match FrameCodec.encode frame s.pending with
  | .ok pending => (⟨pending⟩, .ok ())
  | .error err => (s, .error (.wire err))

def queueCtl (serde : Serde Ctl Value) (s : ConnSender) (msg : Ctl) : ConnSender × Except QueueError Unit :=
  match serde.toVec msg with
  | some payload => s.queue ⟨kindCtl, payload⟩
  | none => (s, .error .json)

def queueOut (s : ConnSender) (bytes : List UInt8) : ConnSender × Except QueueError Unit :=
  if outFrameBytes < bytes.length then
    match s.queue ⟨kindOut, bytes.take outFrameBytes⟩ with
    | (s, .ok _) => s.queueOut (bytes.drop outFrameBytes)
    | (s, .error err) => (s, .error err)
  else s.queue ⟨kindOut, bytes⟩
termination_by bytes.length
decreasing_by
  have hpos : 0 < outFrameBytes := by decide
  rw [List.length_drop]
  omega

/-- A write of some of the queue, which leaves it. -/
def wrote (s : ConnSender) (n : ℕ) : ConnSender := ⟨s.pending.drop n⟩

end ConnSender

namespace ConnReceiver

def withBuffered (buffered : List UInt8) : ConnReceiver := ⟨buffered⟩

def new : ConnReceiver := withBuffered []

def knownTypes : List String := ["hello", "request", "response", "event", "bye"]

/-- The message of a control frame; `none` is one of a type that is not known. -/
def control (serde : Serde Ctl Value) (payload : List UInt8) : Except RecvError (Option Ctl) :=
  match serde.fromSlice payload with
  | none => .error .invalidControl
  | some value =>
    match serde.fromValue value with
    | some msg => .ok (some msg)
    | none => if (serde.type value).any (· ∉ knownTypes) then .ok none else .error .malformedControl

/-- The next message of what is in hand; `none` waits for more bytes. -/
def recv (serde : Serde Ctl Value) (r : ConnReceiver) : ConnReceiver × Option (Except RecvError (Msg Ctl)) :=
  match _hd : FrameCodec.decode r.buffered with
  | .error err => (r, some (.error (.wire err)))
  | .ok none => (r, none)
  | .ok (some (frame, rest)) =>
    if frame.kind = kindCtl then
      match control serde frame.payload with
      | .error err => (⟨rest⟩, some (.error err))
      | .ok (some msg) => (⟨rest⟩, some (.ok (.ctl msg)))
      | .ok none => recv serde ⟨rest⟩
    else if frame.kind = kindOut then (⟨rest⟩, some (.ok (.out frame.payload)))
    else recv serde ⟨rest⟩
termination_by r.buffered.length
decreasing_by all_goals exact FrameCodec.length_decode _hd

def read (r : ConnReceiver) (bytes : List UInt8) : ConnReceiver := ⟨r.buffered ++ bytes⟩

end ConnReceiver

/-- Both ends of a connection, with what the transport carried and what became of the messages. -/
structure Link (Ctl : Type) where
  sender : ConnSender
  sent : List UInt8
  taken : ℕ
  receiver : ConnReceiver
  queued : List (Msg Ctl)
  received : List (Msg Ctl)
  failed : Option RecvError

namespace Link

def start : Link Ctl := ⟨.new, [], 0, .new, [], [], none⟩

def accept (l : Link Ctl) (queued : ConnSender × Except QueueError Unit) (msg : Msg Ctl) : Link Ctl :=
  { l with
    sender := queued.1
    queued := if queued.2.isOk then l.queued ++ [msg] else l.queued }

def yields (l : Link Ctl) : ConnReceiver × Option (Except RecvError (Msg Ctl)) → Link Ctl
  | (receiver, some (.ok msg)) => { l with receiver, received := l.received ++ [msg] }
  | (receiver, some (.error err)) => { l with receiver, failed := some err }
  | (receiver, none) => { l with receiver }

/-- Queueing, writing, reading and receiving in any order, with either end handed over at any time. -/
inductive Step (serde : Serde Ctl Value) : Link Ctl → Link Ctl → Prop
  | queueCtl (l : Link Ctl) (msg : Ctl) : Step serde l (l.accept (l.sender.queueCtl serde msg) (.ctl msg))
  | queueOut (l : Link Ctl) (bytes : List UInt8) : Step serde l (l.accept (l.sender.queueOut bytes) (.out bytes))
  | write (l : Link Ctl) (n : ℕ) :
      Step serde l { l with sender := l.sender.wrote n, sent := l.sent ++ l.sender.pending.take n }
  | handSender (l : Link Ctl) : Step serde l { l with sender := .withPending l.sender.pending }
  | recv (l : Link Ctl) : Step serde l (l.yields (l.receiver.recv serde))
  | read (l : Link Ctl) (n : ℕ) : (l.receiver.recv serde).2 = none →
      Step serde l { l with
        receiver := (l.receiver.recv serde).1.read ((l.sent.drop l.taken).take n)
        taken := l.taken + ((l.sent.drop l.taken).take n).length }
  | handReceiver (l : Link Ctl) : Step serde l { l with receiver := .withBuffered l.receiver.buffered }

def Reachable (serde : Serde Ctl Value) : Link Ctl → Prop := Relation.ReflTransGen (Step serde) start

end Link

/-- A message as what a reader makes of it: a control message is one thing, output is its bytes. -/
def Msg.tokens : Msg Ctl → List (Ctl ⊕ UInt8)
  | .ctl msg => [.inl msg]
  | .out bytes => bytes.map .inr

section carrying

variable {serde : Serde Ctl Value}

theorem ConnSender.queue_cases (s : ConnSender) (frame : RawFrame) :
    (maxFrame < frame.payload.length + 1 ∧
      s.queue frame = (s, .error (.wire (.frameTooLarge (frame.payload.length + 1))))) ∨
    ∃ f : Frame, f.val = frame ∧ s.queue frame = (⟨s.pending ++ f.bytes⟩, .ok ()) := by
  unfold queue FrameCodec.encode
  by_cases hlen : maxFrame < frame.payload.length + 1
  · exact .inl ⟨hlen, by simp only [if_pos hlen]⟩
  · refine .inr ⟨⟨frame, Nat.le_of_not_lt hlen⟩, rfl, ?_⟩
    simp only [if_neg hlen]
    rfl

theorem ConnSender.queueCtl_accepts (s : ConnSender) (msg : Ctl) : (s.queueCtl serde msg).2 = .ok () ↔
    ∃ payload, serde.toVec msg = some payload ∧ payload.length + 1 ≤ maxFrame := by
  unfold queueCtl
  cases hvec : serde.toVec msg with
  | none => simp
  | some payload =>
    simp only [Option.some.injEq, exists_eq_left']
    rcases s.queue_cases ⟨kindCtl, payload⟩ with ⟨hlarge, hrefused⟩ | ⟨f, hf, hok⟩
    · rw [hrefused]
      refine ⟨fun h => ?_, fun hfits => ?_⟩
      · cases h
      · exact absurd hfits (Nat.not_le_of_lt hlarge)
    · rw [hok]
      refine ⟨fun _ => ?_, fun _ => rfl⟩
      have hfits := f.property
      rwa [hf] at hfits

theorem ConnSender.queueOut_frames (s : ConnSender) (bytes : List UInt8) : ∃ fs : List Frame,
    (∀ f ∈ fs, f.val.kind = kindOut) ∧ fs.flatMap (·.val.payload) = bytes ∧
      s.queueOut bytes = (⟨s.pending ++ frameCode.encodes fs⟩, .ok ()) := by
  induction s, bytes using ConnSender.queueOut.induct with
  | case1 s bytes hlen s' _ hq ih =>
    obtain ⟨fs, hkind, hpayload, hrest⟩ := ih
    rcases s.queue_cases ⟨kindOut, bytes.take outFrameBytes⟩ with ⟨-, hrefused⟩ | ⟨f, hf, hok⟩
    · rw [hrefused] at hq
      cases hq
    · rw [hok] at hq
      obtain rfl : (⟨s.pending ++ f.bytes⟩ : ConnSender) = s' := (Prod.mk.inj hq).1
      refine ⟨f :: fs, ?_, ?_, ?_⟩
      · rintro f' (_ | ⟨_, hin⟩)
        · rw [hf]
        · exact hkind f' ‹_›
      · rw [List.flatMap_cons, hf, hpayload]
        exact List.take_append_drop _ _
      · rw [queueOut, if_pos hlen, hok]
        simp only
        rw [hrest, List.append_assoc]
        rfl
  | case2 s bytes hlen s' err hq =>
    rcases s.queue_cases ⟨kindOut, bytes.take outFrameBytes⟩ with ⟨hlarge, -⟩ | ⟨f, -, hok⟩
    · simp only [List.length_take, maxFrame, outFrameBytes] at hlarge
      omega
    · rw [hok] at hq
      cases hq
  | case3 s bytes hlen =>
    rcases s.queue_cases ⟨kindOut, bytes⟩ with ⟨hlarge, -⟩ | ⟨f, hf, hok⟩
    · simp only [maxFrame, outFrameBytes] at hlarge hlen
      omega
    · refine ⟨[f], ?_, ?_, ?_⟩
      · rintro f' hin
        rw [List.mem_singleton.mp hin, hf]
      · rw [List.flatMap_singleton, hf]
      · rw [queueOut, if_neg hlen, hok]
        simp [Framing.Code.encodes, frameCode]

def Frame.tokens (serde : Serde Ctl Value) (f : Frame) : List (Ctl ⊕ UInt8) :=
  if f.val.kind = kindCtl then
    match ConnReceiver.control serde f.val.payload with
    | .ok (some msg) => [.inl msg]
    | _ => []
  else f.val.payload.map .inr

def Frame.Readable (serde : Serde Ctl Value) (f : Frame) : Prop :=
  f.val.kind = kindOut ∨ f.val.kind = kindCtl ∧ ∃ msg, ConnReceiver.control serde f.val.payload = .ok (some msg)

theorem ConnReceiver.recv_frame {r : ConnReceiver} {frame : RawFrame} {rest : List UInt8}
    (hd : FrameCodec.decode r.buffered = .ok (some (frame, rest))) : r.recv serde =
      if frame.kind = kindCtl then
        match control serde frame.payload with
        | .error err => (⟨rest⟩, some (.error err))
        | .ok (some msg) => (⟨rest⟩, some (.ok (.ctl msg)))
        | .ok none => recv serde ⟨rest⟩
      else if frame.kind = kindOut then (⟨rest⟩, some (.ok (.out frame.payload)))
      else recv serde ⟨rest⟩ := by
  rw [recv]
  split
  all_goals
    rename_i hd'
    rw [hd] at hd'
    cases hd'
  rfl

theorem ConnReceiver.recv_wait {r : ConnReceiver} (hd : FrameCodec.decode r.buffered = .ok none) :
    r.recv serde = (r, none) := by
  rw [recv]
  split
  · rename_i hd'
    rw [hd] at hd'
    cases hd'
  · rfl
  · rename_i hd'
    rw [hd] at hd'
    cases hd'

theorem ConnReceiver.recv_cases {r : ConnReceiver} {rest : List UInt8} {todo : List Frame}
    (h : r.buffered ++ rest = frameCode.encodes todo) (hr : ∀ f ∈ todo, f.Readable serde) :
    (∃ f todo' r' msg, todo = f :: todo' ∧ r.recv serde = (r', some (.ok msg)) ∧ msg.tokens = f.tokens serde ∧
        r'.buffered ++ rest = frameCode.encodes todo') ∨
      r.recv serde = (r, none) ∧ (rest = [] → todo = [] ∧ r.buffered = []) := by
  rcases frameCode.decode_of_encodes h with ⟨f, todo', buf, rfl, hd, hrest⟩ | ⟨hd, hend⟩
  · have hd : FrameCodec.decode r.buffered = .ok (some (f.val, buf)) := hd
    rcases hr f List.mem_cons_self with hkind | ⟨hkind, msg, hmsg⟩
    · refine .inl ⟨f, todo', ⟨buf⟩, .out f.val.payload, rfl, ?_, ?_, hrest⟩
      · rw [recv_frame hd, hkind, if_neg (by decide), if_pos rfl]
      · unfold Frame.tokens
        rw [hkind, if_neg (by decide)]
        rfl
    · refine .inl ⟨f, todo', ⟨buf⟩, .ctl msg, rfl, ?_, ?_, hrest⟩
      · rw [recv_frame hd, if_pos hkind, hmsg]
      · unfold Frame.tokens
        rw [if_pos hkind, hmsg]
        rfl
  · exact .inr ⟨recv_wait hd, hend⟩

namespace Link

/-- What was queued is in frames: those received, and those in hand, on the way or waiting to be written. -/
structure Carries (serde : Serde Ctl Value) (l : Link Ctl) (done todo : List Frame) : Prop where
  taken : l.taken ≤ l.sent.length
  ahead : l.receiver.buffered ++ (l.sent.drop l.taken ++ l.sender.pending) = frameCode.encodes todo
  written : l.sent ++ l.sender.pending = frameCode.encodes (done ++ todo)
  readable : ∀ f ∈ todo, f.Readable serde
  received : l.received.flatMap Msg.tokens = done.flatMap (Frame.tokens serde)
  queued : l.queued.flatMap Msg.tokens = (done ++ todo).flatMap (Frame.tokens serde)
  failed : l.failed = none

variable {l l' : Link Ctl} {done todo : List Frame}

theorem Carries.accept (h : Carries serde l done todo) {msg : Msg Ctl} {fs : List Frame}
    (hr : ∀ f ∈ fs, f.Readable serde) (ht : msg.tokens = fs.flatMap (Frame.tokens serde)) :
    Carries serde (l.accept (⟨l.sender.pending ++ frameCode.encodes fs⟩, .ok ()) msg) done (todo ++ fs) where
  taken := h.taken
  ahead := by
    rw [Framing.Code.encodes_append, ← h.ahead]
    simp [Link.accept]
  written := by
    rw [← List.append_assoc, Framing.Code.encodes_append, ← h.written]
    simp [Link.accept]
  readable f hf := (List.mem_append.mp hf).elim (h.readable f) (hr f)
  received := h.received
  queued := by
    rw [← List.append_assoc, List.flatMap_append, ← h.queued]
    simp [Link.accept, Except.isOk, Except.toBool, ht]
  failed := h.failed

theorem Carries.refuse (h : Carries serde l done todo) (msg : Msg Ctl) (err : QueueError) :
    Carries serde (l.accept (l.sender, .error err) msg) done todo := ⟨h.1, h.2, h.3, h.4, h.5, h.6, h.7⟩

theorem Carries.step (hs : serde.Inverse) (h : Carries serde l done todo) (hstep : Step serde l l') :
    ∃ done' todo', Carries serde l' done' todo' := by
  cases hstep with
  | queueCtl msg =>
    unfold ConnSender.queueCtl
    cases hvec : serde.toVec msg with
    | none => exact ⟨done, todo, h.refuse _ _⟩
    | some payload =>
      simp only
      rcases l.sender.queue_cases ⟨kindCtl, payload⟩ with ⟨-, hrefused⟩ | ⟨f, hf, hok⟩
      · rw [hrefused]
        exact ⟨done, todo, h.refuse _ _⟩
      · obtain ⟨value, hvalue, hmsg⟩ := hs msg payload hvec
        have hcontrol : ConnReceiver.control serde f.val.payload = .ok (some msg) := by
          rw [hf]
          unfold ConnReceiver.control
          rw [hvalue]
          simp only
          rw [hmsg]
        have hkind : f.val.kind = kindCtl := by rw [hf]
        have htokens : f.tokens serde = [.inl msg] := by
          unfold Frame.tokens
          rw [if_pos hkind, hcontrol]
        rw [hok, show f.bytes = frameCode.encodes [f] by simp [Framing.Code.encodes, frameCode]]
        refine ⟨done, todo ++ [f], h.accept (fun f' hin => ?_) ?_⟩
        · rw [List.mem_singleton.mp hin]
          exact .inr ⟨hkind, msg, hcontrol⟩
        · rw [List.flatMap_singleton, htokens]
          rfl
  | queueOut bytes =>
    obtain ⟨fs, hkind, hbytes, hok⟩ := l.sender.queueOut_frames bytes
    rw [hok]
    refine ⟨done, todo ++ fs, h.accept (fun f hin => .inl (hkind f hin)) ?_⟩
    have htokens (f : Frame) (hin : f ∈ fs) : f.tokens serde = f.val.payload.map .inr := by
      unfold Frame.tokens
      rw [hkind f hin, if_neg (by decide)]
    rw [List.flatMap_congr htokens, ← List.map_flatMap, hbytes]
    rfl
  | write n =>
    refine ⟨done, todo, ⟨?_, ?_, ?_, h.readable, h.received, h.queued, h.failed⟩⟩
    · simp only [List.length_append]
      have := h.taken
      omega
    · rw [← h.ahead]
      simp only [ConnSender.wrote, List.drop_append_of_le_length h.taken, List.append_assoc, List.take_append_drop]
    · rw [← h.written]
      simp only [ConnSender.wrote, List.append_assoc, List.take_append_drop]
  | handSender => exact ⟨done, todo, ⟨h.1, h.2, h.3, h.4, h.5, h.6, h.7⟩⟩
  | recv =>
    rcases ConnReceiver.recv_cases h.ahead h.readable with ⟨f, todo', r', msg, rfl, hrecv, ht, hrest⟩ | ⟨hwait, -⟩
    · rw [hrecv]
      refine ⟨done ++ [f], todo', ⟨h.taken, hrest, ?_, fun f' hf' => h.readable f' (List.mem_cons_of_mem _ hf'), ?_, ?_,
        h.failed⟩⟩
      · rw [List.append_assoc]
        exact h.written
      · simp only [yields, List.flatMap_append, h.received, List.flatMap_singleton, ht]
      · rw [List.append_assoc]
        exact h.queued
    · rw [hwait]
      exact ⟨done, todo, ⟨h.1, h.2, h.3, h.4, h.5, h.6, h.7⟩⟩
  | read n hwaits =>
    have hwait : l.receiver.recv serde = (l.receiver, none) := by
      rcases ConnReceiver.recv_cases h.ahead h.readable with ⟨f, todo', r', msg, -, hrecv, -⟩ | ⟨hwait, -⟩
      · rw [hrecv] at hwaits
        cases hwaits
      · exact hwait
    rw [hwait]
    have htaken := h.taken
    refine ⟨done, todo, ⟨?_, ?_, h.written, h.readable, h.received, h.queued, h.failed⟩⟩
    · simp only [List.length_take, List.length_drop]
      omega
    · rw [← h.ahead]
      simp only [ConnReceiver.read, List.append_assoc, List.append_cancel_left_eq, ← List.drop_drop]
      generalize l.sent.drop l.taken = tail
      rw [← List.append_assoc, List.length_take]
      congr 1
      rcases Nat.le_total n tail.length with hn | hn
      · rw [Nat.min_eq_left hn, List.take_append_drop]
      · rw [Nat.min_eq_right hn, List.take_of_length_le hn, List.drop_length, List.append_nil]
  | handReceiver => exact ⟨done, todo, ⟨h.1, h.2, h.3, h.4, h.5, h.6, h.7⟩⟩

theorem carries_of_reachable (hs : serde.Inverse) (h : Reachable serde l) : ∃ done todo, Carries serde l done todo := by
  induction h with
  | refl => exact ⟨[], [], ⟨Nat.zero_le _, rfl, rfl, fun f hf => absurd hf List.not_mem_nil, rfl, rfl, rfl⟩⟩
  | tail _ hstep ih =>
    obtain ⟨done, todo, hcarries⟩ := ih
    exact hcarries.step hs hstep

/-- Whatever is split and handed over, every message comes out once and in order, and only what does not fit is refused. -/
theorem nothing_lost (hs : serde.Inverse) (h : Reachable serde l) :
    l.failed = none ∧
    l.received.flatMap Msg.tokens <+: l.queued.flatMap Msg.tokens ∧
    (l.sender.pending = [] → l.taken = l.sent.length → (l.receiver.recv serde).2 = none →
      l.received.flatMap Msg.tokens = l.queued.flatMap Msg.tokens ∧ l.receiver.buffered = []) ∧
    (∃ frames : List Frame, l.sent ++ l.sender.pending = frames.flatMap Frame.bytes) ∧
    (∀ msg err, (l.sender.queueCtl serde msg).2 = .error err → (l.sender.queueCtl serde msg).1 = l.sender) ∧
    (∀ msg, (l.sender.queueCtl serde msg).2 = .ok () ↔
      ∃ payload, serde.toVec msg = some payload ∧ payload.length + 1 ≤ maxFrame) ∧
    ∀ bytes, (l.sender.queueOut bytes).2 = .ok () := by
  obtain ⟨done, todo, hc⟩ := carries_of_reachable hs h
  refine ⟨hc.failed, ?_, fun hpending htaken hwaits => ?_, ⟨done ++ todo, hc.written⟩, fun msg err herr => ?_,
    fun msg => ConnSender.queueCtl_accepts _ msg, fun bytes => ?_⟩
  · rw [hc.received, hc.queued, List.flatMap_append]
    exact List.prefix_append _ _
  · rcases ConnReceiver.recv_cases hc.ahead hc.readable with ⟨f, todo', r', msg, -, hrecv, -⟩ | ⟨-, hend⟩
    · rw [hrecv] at hwaits
      cases hwaits
    · obtain ⟨rfl, hbuffered⟩ := hend (by rw [htaken, List.drop_length, hpending]; rfl)
      rw [hc.received, hc.queued, List.append_nil]
      exact ⟨rfl, hbuffered⟩
  · unfold ConnSender.queueCtl at herr ⊢
    cases hvec : serde.toVec msg with
    | none => rfl
    | some payload =>
      rw [hvec] at herr
      simp only at herr ⊢
      rcases l.sender.queue_cases ⟨kindCtl, payload⟩ with ⟨-, hrefused⟩ | ⟨f, -, hok⟩
      · rw [hrefused]
      · rw [hok] at herr
        cases herr
  · obtain ⟨fs, -, -, hok⟩ := l.sender.queueOut_frames bytes
    rw [hok]

end Link

end carrying

def byeSerde : Serde Unit Unit where
  toVec _ := some ("\x7b\"type\":\"bye\",\"code\":\"quit\"\x7d".toList.map fun c => UInt8.ofNat c.toNat)
  fromSlice bytes :=
    if bytes = "\x7b\"type\":\"bye\",\"code\":\"quit\"\x7d".toList.map (fun c => UInt8.ofNat c.toNat) then some ()
    else none
  fromValue _ := some ()
  type _ := some "bye"

theorem byeSerde_inverse : byeSerde.Inverse := fun _ _ h => ⟨(), if_pos (Option.some.inj h).symm, rfl⟩

def byeQueued : Link Unit := Link.start.accept (ConnSender.new.queueCtl byeSerde ()) (.ctl ())

def byeHalved : Link Unit :=
  { byeQueued with
    sender := byeQueued.sender.wrote 2
    sent := byeQueued.sender.pending.take 2
    taken := 2
    receiver := ⟨byeQueued.sender.pending.take 2⟩ }

/-- The rest of it, after both ends were handed over. -/
def byeRead : Link Unit :=
  { byeQueued with
    sender := .new
    sent := byeQueued.sender.pending
    taken := byeQueued.sender.pending.length
    receiver := ⟨byeQueued.sender.pending⟩ }

def byeReceived : Link Unit := { byeRead with receiver := .new, received := [.ctl ()] }

def byeFrame : Frame :=
  ⟨⟨kindCtl, "\x7b\"type\":\"bye\",\"code\":\"quit\"\x7d".toList.map fun c => UInt8.ofNat c.toNat⟩, by simp [maxFrame]⟩

theorem reachable_byeHalved : Link.Reachable byeSerde byeHalved := by
  have hwait : (Link.start : Link Unit).receiver.recv byeSerde = (.new, none) := ConnReceiver.recv_wait rfl
  have hwritten : Link.Reachable byeSerde { byeQueued with
      sender := byeQueued.sender.wrote 2, sent := byeQueued.sender.pending.take 2 } :=
    (Relation.ReflTransGen.single (.queueCtl Link.start ())).tail (.write byeQueued 2)
  have hread := hwritten.tail (.read _ 2 (congrArg Prod.snd hwait))
  rw [show byeQueued.receiver.recv byeSerde = (.new, none) from hwait] at hread
  exact hread

theorem reachable_byeReceived : Link.Reachable byeSerde byeReceived := by
  have hwait : byeHalved.receiver.recv byeSerde = (byeHalved.receiver, none) := ConnReceiver.recv_wait rfl
  have hhanded := (reachable_byeHalved.tail (.handSender _)).tail (.handReceiver _)
  have hread := (hhanded.tail (.write byeHalved 100)).tail (.read _ 100 (congrArg Prod.snd hwait))
  rw [show byeHalved.receiver.recv byeSerde = (byeHalved.receiver, none) from hwait] at hread
  have htaken : byeRead.receiver.recv byeSerde = (.new, some (.ok (.ctl ()))) := by
    have hframe : byeRead.receiver = ⟨byeFrame.bytes ++ []⟩ := rfl
    rw [hframe, ConnReceiver.recv_frame (byeFrame.decode_bytes [])]
    rfl
  have hdone := Relation.ReflTransGen.tail (show Link.Reachable byeSerde byeRead from hread) (.recv _)
  rw [htaken] at hdone
  exact hdone

theorem nothing_lost_bye : byeReceived.received = [.ctl ()] ∧
    byeReceived.received.flatMap Msg.tokens = byeReceived.queued.flatMap Msg.tokens ∧
    (byeReceived.sender.queueCtl byeSerde ()).2 = .ok () := by
  obtain ⟨-, -, hall, -, -, haccepts, -⟩ := Link.nothing_lost byeSerde_inverse reachable_byeReceived
  have hwait : byeReceived.receiver.recv byeSerde = (.new, none) := ConnReceiver.recv_wait rfl
  refine ⟨rfl, (hall rfl rfl (congrArg Prod.snd hwait)).1, (haccepts ()).mpr ⟨_, rfl, ?_⟩⟩
  exact byeFrame.property

end Dekit.Protocol
