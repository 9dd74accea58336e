import LcmWire.Assembly

/-!
# The assembler

An assembler holds the messages in assembly under their sequence numbers, within limits. It forgets
those that were handed out and those that are stale whenever it is called.
-/

namespace LcmWire

/-- A message with all its fragments. -/
structure Message where
  /-- The message as a datagram of its own. -/
  datagram : Datagram
  /-- The number of datagrams that carried it. -/
  fragmentCount : UInt16
  deriving DecidableEq, Repr

namespace Message

/-- The channel on which the message was sent. -/
def channel (m : Message) : String := m.datagram.header.channel

/-- What was sent. -/
def payload (m : Message) : Bytes := m.datagram.payload

end Message

/-- What an assembler may hold at most; without a number, as much as comes. -/
structure Limits where
  /-- The number of messages in assembly. -/
  inFlight : Option Nat
  /-- The number of payload bytes kept for one message. -/
  messageSize : Option Nat
  deriving DecidableEq, Repr

/-- An assembler between two calls. -/
structure Assembler where
  /-- What it may hold. -/
  limits : Limits
  /-- The messages in assembly. -/
  assemblies : Table SequenceNumber Assembly
  deriving DecidableEq, Repr

/-- How far the assembly of a message has come. -/
structure Progress where
  /-- The number of positions of which a fragment has arrived. -/
  received : Nat
  /-- The number of fragments that make the message. -/
  expected : UInt16
  /-- The message was handed out. -/
  complete : Bool
  deriving DecidableEq, Repr

namespace Assembler

/-- An assembler to which nothing has arrived. -/
def start (limits : Limits) : Assembler := ⟨limits, .empty⟩

/-- The number of messages held, those handed out but not yet forgotten among them. -/
def size (a : Assembler) : Nat := a.assemblies.size

/-- How far the message of a sequence number has come, if it is held. -/
def progress? (a : Assembler) (sequence : SequenceNumber) : Option Progress :=
  (a.assemblies.get? sequence).map fun m => ⟨m.received, m.total, m.complete⟩

/-- The sequence numbers whose messages have waited too long, in ascending order. -/
def expired (a : Assembler) (now : Time) : List SequenceNumber :=
  (a.assemblies.filter fun m => !m.complete && m.isStale now).keys

/-- Forget the messages that were handed out or have waited too long. -/
def evict (a : Assembler) (now : Time) : Assembler :=
  { a with assemblies := a.assemblies.filter fun m => !m.complete && !m.isStale now }

end Assembler

end LcmWire
