import LcmWire.Datagram.Basic
import LcmWire.Text.Utf8

/-!
# Packets

A packet is what a sender says in one datagram, free of how it is spelled. Writing checks nothing:
a place outside its message and a channel name with a zero character in it are written as they are.
-/

namespace LcmWire

/-- The bytes of the fields that only fragments have. -/
def Placement.toBytes (place : Placement) : Bytes :=
  BigEndian.ofNat 4 place.messageSize.toNat ++ BigEndian.ofNat 4 place.offset.toNat ++
    BigEndian.ofNat 2 place.index.toNat ++ BigEndian.ofNat 2 place.total.toNat

/-- What a sender says in one datagram. -/
structure Packet where
  /-- The number of the message. -/
  sequence : SequenceNumber
  /-- The place of the payload in its message, for a fragment. -/
  place : Option Placement
  /-- The channel on which the message is sent. -/
  channel : String
  /-- The payload of this datagram. -/
  payload : Bytes
  deriving DecidableEq, Repr

/-- What a datagram says, whichever way it is spelled. -/
def Datagram.packet (d : Datagram) : Packet :=
  ⟨d.header.sequence, d.header.place, d.header.channel, d.payload⟩

namespace Packet

/-- A packet has a place exactly if it is a fragment. -/
def kind (p : Packet) : Kind := if p.place.isSome then .fragmented else .short

/-- The fields of fixed width. -/
def fixedBytes (p : Packet) : Bytes :=
  BigEndian.ofNat 4 p.kind.magic.toNat ++ BigEndian.ofNat 4 p.sequence.toNat ++
    p.place.elim [] Placement.toBytes

@[simp] theorem length_fixedBytes (p : Packet) : p.fixedBytes.length = p.kind.fixedSize := by
  cases hp : p.place <;> simp [fixedBytes, kind, hp, Kind.fixedSize, Placement.toBytes]

/-- The bytes before the payload; a zero byte closes the channel name. -/
def headerBytes (p : Packet) : Bytes := p.fixedBytes ++ Utf8.encode p.channel ++ [0]

/-- The bytes of the whole datagram. -/
def toBytes (p : Packet) : Bytes := p.headerBytes ++ p.payload

end Packet

end LcmWire
