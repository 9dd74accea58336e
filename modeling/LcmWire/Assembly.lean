import LcmWire.Datagram.Basic
import LcmWire.Table

/-!
# Messages in assembly

An assembly is what has arrived of one message: the latest copy of each fragment, under its
position. Its number of fragments is that of the first one to arrive, and it grows stale when none
has arrived for longer than a second.
-/

namespace LcmWire

/-- A time, in nanoseconds after some fixed one. -/
abbrev Time := Nat

/-- What has arrived of a message. -/
structure Assembly where
  /-- The number of fragments that make the message. -/
  total : UInt16
  /-- The latest copy of each fragment. -/
  fragments : Table FragmentIndex Datagram
  /-- When the latest fragment arrived. -/
  lastSeen : Time
  /-- All fragments have arrived, and the message was handed out. -/
  complete : Bool
  deriving DecidableEq, Repr

namespace Assembly

/-- How long an assembly waits for a further fragment: one second. -/
def timeout : Time := 1000000000

/-- An assembly that waits for its first fragment. -/
def start (total : UInt16) (now : Time) : Assembly := ⟨total, .empty, now, false⟩

/-- Keep a fragment that arrives, in place of an earlier copy. -/
def add (a : Assembly) (index : FragmentIndex) (d : Datagram) (now : Time) : Assembly :=
  { a with fragments := a.fragments.insert index d, lastSeen := now }

/-- The number of positions of which a fragment has arrived. -/
def received (a : Assembly) : Nat := a.fragments.size

/-- The number of payload bytes that are kept. -/
def bufferedSize (a : Assembly) : Nat := (a.fragments.values.flatMap Datagram.payload).length

/-- No fragment has arrived for longer than the timeout. A clock that has gone back makes no
assembly stale. -/
def isStale (a : Assembly) (now : Time) : Bool := timeout < now - a.lastSeen

/-- The fragments of all positions in order, once none is missing. -/
def inOrder? (a : Assembly) : Option (List Datagram) :=
  (List.range a.total.toNat).mapM fun i => a.fragments.get? (UInt16.ofNat i)

/-- The bytes of the whole message: the header of its first fragment and all payloads. -/
def join? (a : Assembly) : Option Bytes := do
  let head ← a.fragments.get? 0
  let parts ← a.inOrder?
  return head.headerBytes ++ parts.flatMap Datagram.payload

end Assembly

end LcmWire
