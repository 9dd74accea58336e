import LcmWire.BigEndian

/-!
# Datagrams

A datagram carries a whole message or one fragment of a message. Its first word tells which; then
follow the sequence number, the place of a fragment, the channel name up to a zero byte, and the
payload.
-/

namespace LcmWire

/-- The UDP port on which datagrams travel unless another one is agreed. -/
def defaultPort : UInt16 := 7667

/-- The number that a sender gives to a message and to each fragment of it. -/
abbrev SequenceNumber := UInt32

/-- The position of a fragment in its message, counted from zero. -/
abbrev FragmentIndex := UInt16

/-- What a datagram carries. -/
inductive Kind where
  /-- A whole message. -/
  | short
  /-- One fragment of a message. -/
  | fragmented
  deriving DecidableEq, Repr

namespace Kind

/-- The width of the first word. -/
def magicSize : Nat := 4

/-- The first word of a datagram: the letters `LC02` or `LC03`. -/
def magic : Kind → UInt32
  | short => 0x4C433032
  | fragmented => 0x4C433033

/-- The kind that a first word announces. -/
def ofMagic? (word : UInt32) : Option Kind :=
  if word = short.magic then some short
  else if word = fragmented.magic then some fragmented
  else none

/-- The number of bytes before the channel name. -/
def fixedSize : Kind → Nat
  | short => 8
  | fragmented => 20

/-- The first word announces a kind exactly if it is that kind's own. -/
theorem ofMagic?_eq_some_iff {word : UInt32} {kind : Kind} :
    ofMagic? word = some kind ↔ word = kind.magic := by
  cases kind <;> grind [ofMagic?, magic]

@[simp] theorem ofMagic?_magic (kind : Kind) : ofMagic? kind.magic = some kind :=
  ofMagic?_eq_some_iff.2 rfl

theorem magicSize_le_fixedSize (kind : Kind) : magicSize ≤ kind.fixedSize := by
  cases kind <;> decide

end Kind

/-- Where a fragment belongs. -/
structure Placement where
  /-- The payload length of the whole message, as its sender declares it; reading does not check
  it. -/
  messageSize : UInt32
  /-- Where the payload of this fragment starts in that of the message, as declared. -/
  offset : UInt32
  /-- The position of this fragment. -/
  index : FragmentIndex
  /-- The number of fragments of the message. -/
  total : UInt16
  deriving DecidableEq, Repr

/-- No fragment of the message comes behind this one. -/
def Placement.isLast (place : Placement) : Bool := place.index.toNat + 1 == place.total.toNat

/-- What stands in front of a payload. -/
structure Header where
  /-- The number of the message. -/
  sequence : SequenceNumber
  /-- The place of the payload in its message, for a fragment. -/
  place : Option Placement
  /-- The channel on which the message was sent. -/
  channel : String
  /-- A zero byte closes the channel name; without one the name ends with the datagram. -/
  terminated : Bool
  deriving DecidableEq, Repr

namespace Header

/-- A header has a place exactly if it belongs to a fragment. -/
def kind (header : Header) : Kind := if header.place.isSome then .fragmented else .short

/-- The position of the payload; a whole message is its own first fragment. -/
def index (header : Header) : FragmentIndex := header.place.elim 0 Placement.index

/-- The number of fragments; a whole message is one. -/
def total (header : Header) : UInt16 := header.place.elim 1 Placement.total

end Header

/-- A datagram that was read. -/
structure Datagram where
  /-- What its header says. -/
  header : Header
  /-- The bytes of the header, with the zero byte that closes the channel name. -/
  headerBytes : Bytes
  /-- The bytes that follow. -/
  payload : Bytes
  deriving DecidableEq, Repr

/-- The number of bytes that were read. -/
def Datagram.wireLength (d : Datagram) : Nat := d.headerBytes.length + d.payload.length

end LcmWire
