import LcmWire.Datagram.Malformed
import LcmWire.Text.Utf8

/-!
# Reading datagrams

Bytes are checked in a fixed order: room for the first word, a known kind, room for the fields of
fixed width, a position within the message. What passes is a datagram, whatever its channel name
and payload hold. Main statement: `headerBytes_append_payload`, reading loses no byte.
-/

namespace LcmWire

/-- Cut bytes at the first zero byte: what comes before it, and what follows it if there is one. -/
def cutAtZero (bytes : Bytes) : Bytes × Option Bytes :=
  (bytes.takeWhile (· ≠ 0), (bytes.dropWhile (· ≠ 0)).tail?)

/-- Without a zero byte all comes before the cut. -/
theorem cutAtZero_of_forall_ne {bytes : Bytes} (h : ∀ b ∈ bytes, b ≠ 0) :
    cutAtZero bytes = (bytes, none) := by
  induction bytes with
  | nil => rfl
  | cons b rest ih =>
    have hb : b ≠ 0 := h b (by simp)
    simpa [cutAtZero, hb] using ih fun c hc => h c (by simp [hc])

/-- The first zero byte is the place of the cut. -/
theorem cutAtZero_append {name : Bytes} (h : ∀ b ∈ name, b ≠ 0) (rest : Bytes) :
    cutAtZero (name ++ 0 :: rest) = (name, some rest) := by
  induction name with
  | nil => simp [cutAtZero]
  | cons b name ih =>
    have hb : b ≠ 0 := h b (by simp)
    simpa [cutAtZero, hb] using ih fun c hc => h c (by simp [hc])

/-- Every cut is one of the two: bytes without a zero, or bytes without a zero before one. -/
theorem cutAtZero_cases (bytes : Bytes) :
    ∃ name, (∀ b ∈ name, b ≠ 0) ∧
      (bytes = name ∧ cutAtZero bytes = (name, none) ∨
        ∃ rest, bytes = name ++ 0 :: rest ∧ cutAtZero bytes = (name, some rest)) := by
  induction bytes with
  | nil => exact ⟨[], by simp, .inl ⟨rfl, rfl⟩⟩
  | cons b rest ih =>
    by_cases hb : b = 0
    · exact ⟨[], by simp, .inr ⟨rest, by simp [hb], by simp [cutAtZero, hb]⟩⟩
    · obtain ⟨name, hn, h⟩ := ih
      have hn' : ∀ c ∈ b :: name, c ≠ 0 := by simpa [hb] using hn
      refine ⟨b :: name, hn', ?_⟩
      rcases h with ⟨rfl, -⟩ | ⟨tail, rfl, -⟩
      · exact .inl ⟨rfl, cutAtZero_of_forall_ne hn'⟩
      · exact .inr ⟨tail, rfl, cutAtZero_append hn' tail⟩

/-- The place that the fields of a fragment name. -/
def Placement.ofBytes (wire : Bytes) : Placement where
  messageSize := UInt32.ofNat (BigEndian.field 8 4 wire)
  offset := UInt32.ofNat (BigEndian.field 12 4 wire)
  index := UInt16.ofNat (BigEndian.field 16 2 wire)
  total := UInt16.ofNat (BigEndian.field 18 2 wire)

namespace Datagram

/-- The place of the payload: short datagrams have none, and that of a fragment lies in its
message. -/
def readPlace (wire : Bytes) : Kind → Except Malformed (Option Placement)
  | .short => .ok none
  | .fragmented =>
    let place := Placement.ofBytes wire
    if place.index < place.total then .ok (some place)
    else .error (.indexOutOfRange place.index place.total)

/-- The datagram behind fields of fixed width that were read. A name that no zero byte closes
takes the rest of the bytes. -/
def readRest (wire : Bytes) (kind : Kind) (place : Option Placement) : Datagram :=
  let sequence := UInt32.ofNat (BigEndian.field 4 4 wire)
  match cutAtZero (wire.drop kind.fixedSize) with
  | (name, some payload) =>
    ⟨⟨sequence, place, Utf8.decode name, true⟩, wire.take (kind.fixedSize + (name.length + 1)),
      payload⟩
  | (name, none) => ⟨⟨sequence, place, Utf8.decode name, false⟩, wire, []⟩

/-- The header and the payload are the bytes that were read. -/
theorem readRest_append (wire : Bytes) (kind : Kind) (place : Option Placement) :
    (readRest wire kind place).headerBytes ++ (readRest wire kind place).payload = wire := by
  obtain ⟨name, -, ⟨-, hc⟩ | ⟨rest, hd, hc⟩⟩ := cutAtZero_cases (wire.drop kind.fixedSize)
  · simp [readRest, hc]
  · have hw := List.take_append_drop kind.fixedSize wire
    have hn : (wire.drop kind.fixedSize).take (name.length + 1) = name ++ [0] := by
      rw [hd, List.take_length_add_append]
      rfl
    simp only [readRest, hc, List.take_add, hn]
    rw [hd] at hw
    simpa using hw

/-- Read bytes as a datagram. -/
def ofBytes (wire : Bytes) : Except Malformed Datagram :=
  if wire.length < Kind.magicSize then .error (.truncated Kind.magicSize wire.length)
  else
    let magic := UInt32.ofNat (BigEndian.field 0 4 wire)
    match Kind.ofMagic? magic with
    | none => .error (.unknownMagic magic)
    | some kind =>
      if wire.length < kind.fixedSize then .error (.truncated kind.fixedSize wire.length)
      else (readPlace wire kind).map (readRest wire kind)

/-- Reading loses no byte and adds none. -/
theorem headerBytes_append_payload {wire : Bytes} {d : Datagram} (h : ofBytes wire = .ok d) :
    d.headerBytes ++ d.payload = wire := by
  simp only [ofBytes] at h
  split at h
  · simp at h
  split at h
  · simp at h
  split at h
  · simp at h
  rename_i kind _ _
  cases hp : readPlace wire kind with
  | error cause => simp [hp, Except.map] at h
  | ok place =>
    obtain rfl : readRest wire kind place = d := by simpa [hp, Except.map] using h
    exact readRest_append wire kind place

end Datagram

end LcmWire
