import LcmWire.Assembler.Refusal

/-!
# Events

What happens to an assembler on the way to its answer, in the order in which it happens. Log lines
and counters are views of these events.
-/

namespace LcmWire

/-- One thing that happens to an assembler. -/
inductive Event where
  /-- Bytes that are no datagram are dropped. -/
  | dropped (cause : Malformed)
  /-- A datagram is read. -/
  | received (kind : Kind)
  /-- Messages that have waited too long are forgotten. -/
  | expired (sequences : List SequenceNumber)
  /-- A fragment declares another number of fragments than the first one of its message. -/
  | totalMismatch (sequence : SequenceNumber) (expected found : UInt16)
  /-- A fragment takes the place of an earlier copy. -/
  | replaced (sequence : SequenceNumber) (index : FragmentIndex)
  /-- The last fragment of a message arrives while others are missing. -/
  | lastBeforeRest (sequence : SequenceNumber) (arrived : Nat) (expected : UInt16)
  /-- A fragment is refused. -/
  | refused (cause : Refusal)
  /-- A message is handed out. -/
  | assembled
  deriving DecidableEq, Repr

/-- The event of forgetting messages, if there are any. -/
def Event.ofExpired : List SequenceNumber → List Event
  | [] => []
  | sequences => [.expired sequences]

end LcmWire
