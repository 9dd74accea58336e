import LcmWire.Datagram.Malformed

/-!
# Refusals

Why a datagram does not lead to a message, in words and as a short label. A cause that lies in
another one is told along with it.
-/

namespace LcmWire

/-- Why a fragment is refused and its message lost. -/
inductive Refusal where
  /-- As many messages are in assembly as may be. -/
  | full (limit : Nat)
  /-- More payload bytes would be kept for a message than may be. -/
  | oversized (sequence : SequenceNumber) (attempted limit : Nat)
  /-- The joined fragments are no datagram. -/
  | unreadable (sequence : SequenceNumber) (cause : Malformed)
  deriving DecidableEq, Repr

namespace Refusal

/-- The cause in words. -/
def message : Refusal → String
  | full limit => s!"in-flight reassembly limit of {limit} reached"
  | oversized sequence attempted limit =>
    s!"message {sequence} would buffer {attempted} bytes, limit is {limit}"
  | unreadable sequence cause =>
    s!"reassembled message {sequence} failed to decode: {cause.message}"

/-- The cause as a label for counters. -/
def reason : Refusal → String
  | full _ => "too_many_in_flight"
  | oversized .. => "message_too_large"
  | unreadable .. => "reassembled_decode"

/-- The cause behind the cause. -/
def source? : Refusal → Option Malformed
  | unreadable _ cause => some cause
  | _ => none

end Refusal

/-- Why submitted bytes lead to an error. -/
inductive Rejection where
  /-- They are no datagram. -/
  | malformed (cause : Malformed)
  /-- They are a fragment that is refused. -/
  | refused (cause : Refusal)
  deriving DecidableEq, Repr

namespace Rejection

/-- The cause in words. -/
def message : Rejection → String
  | malformed cause => cause.message
  | refused cause => cause.message

/-- The cause as a label for counters. -/
def reason : Rejection → String
  | malformed cause => cause.reason
  | refused cause => cause.reason

/-- The cause behind the cause. -/
def source? : Rejection → Option Malformed
  | malformed _ => none
  | refused cause => cause.source?

end Rejection

end LcmWire
