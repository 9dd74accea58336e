import LcmWire.Assembler.Basic
import LcmWire.Assembler.Event
import LcmWire.Datagram.Reader

/-!
# Assembling messages

A short datagram is a message at once. A fragment joins the others of its sequence number; when the
last one of a message arrives and none is missing, the message is handed out. The limit on messages
in assembly is checked before a fragment starts a new one, the limit on payload bytes once the
fragment is kept.
-/

namespace LcmWire

/-- The outcome of a call: the next state, the answer, and what happened on the way. -/
structure Outcome (ρ : Type) where
  /-- The assembler after the call. -/
  state : Assembler
  /-- What the caller is told. -/
  answer : ρ
  /-- What happened, in order. -/
  events : List Event
  deriving DecidableEq, Repr

namespace Assembler

/-- The assembly that a fragment joins: the one of its sequence number, or a new one if there is
room for it. -/
def assemblyFor (a : Assembler) (sequence : SequenceNumber) (total : UInt16) (now : Time) :
    Except Refusal Assembly :=
  match a.assemblies.get? sequence, a.limits.inFlight with
  | some m, _ => .ok m
  | none, none => .ok (.start total now)
  | none, some limit => if limit ≤ a.size then .error (.full limit) else .ok (.start total now)

/-- Check the number of payload bytes that would be kept for a message. -/
def checkSize (a : Assembler) (sequence : SequenceNumber) (attempted : Nat) :
    Except Refusal Unit :=
  match a.limits.messageSize with
  | none => .ok ()
  | some limit => if limit < attempted then .error (.oversized sequence attempted limit) else .ok ()

/-- Hold an assembly as that of a sequence number. -/
def hold (a : Assembler) (sequence : SequenceNumber) (m : Assembly) : Assembler :=
  { a with assemblies := a.assemblies.insert sequence m }

/-- Forget the message of a sequence number. -/
def forget (a : Assembler) (sequence : SequenceNumber) : Assembler :=
  { a with assemblies := a.assemblies.erase sequence }

/-- What is worth telling of a fragment that joins an assembly. -/
def joining (sequence : SequenceNumber) (m : Assembly) (place : Placement) : List Event :=
  (if m.total ≠ place.total then [.totalMismatch sequence m.total place.total] else []) ++
    if m.fragments.contains place.index then [.replaced sequence place.index] else []

/-- Hand out the message of an assembly whose last fragment has arrived, unless others are
missing. -/
def finish (a : Assembler) (sequence : SequenceNumber) (m : Assembly) :
    Outcome (Except Refusal (Option Message)) :=
  match m.join? with
  | none => ⟨a.hold sequence m, .ok none, [.lastBeforeRest sequence m.received m.total]⟩
  | some wire =>
    let state := a.hold sequence { m with complete := true }
    match Datagram.ofBytes wire with
    | .ok d => ⟨state, .ok (some ⟨d, m.total⟩), [.assembled]⟩
    | .error cause =>
      ⟨state, .error (.unreadable sequence cause), [.refused (.unreadable sequence cause)]⟩

/-- Take a fragment in. -/
def accept (a : Assembler) (d : Datagram) (place : Placement) (now : Time) :
    Outcome (Except Refusal (Option Message)) :=
  let sequence := d.header.sequence
  match a.assemblyFor sequence place.total now with
  | .error cause => ⟨a, .error cause, [.refused cause]⟩
  | .ok before =>
    let told := joining sequence before place
    let m := before.add place.index d now
    match a.checkSize sequence m.bufferedSize with
    | .error cause => ⟨a.forget sequence, .error cause, told ++ [.refused cause]⟩
    | .ok () =>
      if place.isLast then
        let last := a.finish sequence m
        { last with events := told ++ last.events }
      else ⟨a.hold sequence m, .ok none, told⟩

/-- Take a datagram in, be it a whole message or a fragment. -/
def take (a : Assembler) (d : Datagram) (now : Time) : Outcome (Except Refusal (Option Message)) :=
  match d.header.place with
  | none => ⟨a, .ok (some ⟨d, 1⟩), [.assembled]⟩
  | some place => a.accept d place now

/-- Forget what is over, and tell which messages have waited too long. -/
def sweep (a : Assembler) (now : Time) : Outcome (List SequenceNumber) :=
  ⟨a.evict now, a.expired now, Event.ofExpired (a.expired now)⟩

/-- Take a datagram in, after forgetting what is over. -/
def receive (a : Assembler) (d : Datagram) (now : Time) :
    Outcome (Except Refusal (Option Message)) :=
  let before := a.sweep now
  let taken := before.state.take d now
  { taken with events := before.events ++ taken.events }

/-- Take bytes in. Bytes that are no datagram leave the assembler alone. -/
def receiveBytes (a : Assembler) (wire : Bytes) (now : Time) :
    Outcome (Except Rejection (Option Message)) :=
  match Datagram.ofBytes wire with
  | .error cause => ⟨a, .error (.malformed cause), [.dropped cause]⟩
  | .ok d =>
    let taken := a.receive d now
    ⟨taken.state, taken.answer.mapError .refused, .received d.header.kind :: taken.events⟩

end Assembler

end LcmWire
