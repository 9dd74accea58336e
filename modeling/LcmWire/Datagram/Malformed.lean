import LcmWire.Datagram.Basic
import LcmWire.Text.Hex

/-!
# Malformed datagrams

Why bytes are no datagram, in words and as a short label.
-/

namespace LcmWire

/-- Why bytes are no datagram. -/
inductive Malformed where
  /-- The bytes end before the fields of fixed width do. -/
  | truncated (needed actual : Nat)
  /-- The first word announces no kind. -/
  | unknownMagic (word : UInt32)
  /-- A fragment claims a position that its message does not have. -/
  | indexOutOfRange (index : FragmentIndex) (total : UInt16)
  deriving DecidableEq, Repr

namespace Malformed

/-- The cause in words. -/
def message : Malformed → String
  | truncated needed actual => s!"datagram truncated: needed {needed} bytes, found {actual}"
  | unknownMagic word =>
    "unrecognised header magic 0x" ++ String.ofList (Hex.padded 8 word.toNat)
  | indexOutOfRange index total => s!"fragment {index} out of range for a {total}-fragment message"

/-- The cause as a label for counters. -/
def reason : Malformed → String
  | truncated .. => "truncated"
  | unknownMagic _ => "invalid_magic"
  | indexOutOfRange .. => "fragment_out_of_range"

end Malformed

end LcmWire
