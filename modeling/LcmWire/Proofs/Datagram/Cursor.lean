import LcmWire.Proofs.Datagram.Reading

/-!
# Reading with a cursor

A reader may also take the fields off the front of the bytes one after the other, and cut out the
channel name, the header and the payload by their positions. Here each of these accesses fails where
it leaves the bytes. The checks that are made on the way rule that out: the main statement
`ofBytesByCursor?_eq` says that no access ever fails and that what is read is the same.
-/

namespace LcmWire

namespace Cursor

/-- Take `width` bytes off the front. Fails if there are fewer. -/
def take? (width : Nat) (cursor : Bytes) : Option (Bytes × Bytes) :=
  if width ≤ cursor.length then some (cursor.take width, cursor.drop width) else none

/-- Cut out the bytes from one position up to another. Fails unless both positions lie in the bytes
and in this order. -/
def slice? (bytes : Bytes) (start stop : Nat) : Option Bytes :=
  if start ≤ stop ∧ stop ≤ bytes.length then some ((bytes.take stop).drop start) else none

/-- A cursor that has moved by as many bytes as were taken stands in step with the positions. -/
theorem take?_drop {offset width : Nat} {bytes : Bytes} (h : offset + width ≤ bytes.length) :
    take? width (bytes.drop offset) =
      some ((bytes.drop offset).take width, bytes.drop (offset + width)) := by
  have hroom : width ≤ (bytes.drop offset).length := by
    rw [List.length_drop]
    omega
  rw [take?, if_pos hroom, List.drop_drop]

theorem slice?_eq_some {bytes : Bytes} {start stop : Nat} (hs : start ≤ stop)
    (h : stop ≤ bytes.length) : slice? bytes start stop = some ((bytes.take stop).drop start) :=
  if_pos ⟨hs, h⟩

theorem slice?_zero {bytes : Bytes} {stop : Nat} (h : stop ≤ bytes.length) :
    slice? bytes 0 stop = some (bytes.take stop) :=
  slice?_eq_some (Nat.zero_le stop) h

theorem slice?_length {bytes : Bytes} {start : Nat} (h : start ≤ bytes.length) :
    slice? bytes start bytes.length = some (bytes.drop start) := by
  rw [slice?_eq_some h (Nat.le_refl _), List.take_length]

end Cursor

open Cursor

/-- Take the fields of a fragment off the front. -/
def Placement.ofCursor? (cursor : Bytes) : Option Placement := do
  let (messageSize, cursor) ← take? 4 cursor
  let (offset, cursor) ← take? 4 cursor
  let (index, cursor) ← take? 2 cursor
  let (total, _) ← take? 2 cursor
  return ⟨UInt32.ofNat (BigEndian.toNat messageSize), UInt32.ofNat (BigEndian.toNat offset),
    UInt16.ofNat (BigEndian.toNat index), UInt16.ofNat (BigEndian.toNat total)⟩

/-- With room for them, the fields of a fragment are taken off behind the sequence number. -/
theorem Placement.ofCursor?_drop {wire : Bytes} (h : 20 ≤ wire.length) :
    Placement.ofCursor? (wire.drop 8) = some (Placement.ofBytes wire) := by
  have hstep (offset width : Nat) (hle : offset + width ≤ 20) :=
    take?_drop (Nat.le_trans hle h)
  simp only [Placement.ofCursor?, hstep 8 4 (by decide), hstep 12 4 (by decide),
    hstep 16 2 (by decide), hstep 18 2 (by decide), Option.bind_eq_bind, Option.bind_some,
    Option.pure_def]
  rfl

namespace Datagram

/-- The place of the payload, with its fields taken off the front. -/
def placeOfCursor? (cursor : Bytes) : Kind → Option (Except Malformed (Option Placement))
  | .short => some (.ok none)
  | .fragmented => do
    let place ← Placement.ofCursor? cursor
    return if place.index < place.total then .ok (some place)
      else .error (.indexOutOfRange place.index place.total)

/-- The datagram behind fields of fixed width, cut out by the position of the first zero byte behind
them. -/
def cutOut? (wire : Bytes) (kind : Kind) (sequence : SequenceNumber) (place : Option Placement) :
    Option Datagram := do
  let tail ← slice? wire kind.fixedSize wire.length
  match tail.findIdx? (· = 0) with
  | some stop =>
    let name ← slice? tail 0 stop
    let header ← slice? wire 0 (kind.fixedSize + stop + 1)
    let payload ← slice? wire (kind.fixedSize + stop + 1) wire.length
    return ⟨⟨sequence, place, Utf8.decode name, true⟩, header, payload⟩
  | none =>
    let name ← slice? tail 0 tail.length
    let header ← slice? wire 0 wire.length
    let payload ← slice? wire wire.length wire.length
    return ⟨⟨sequence, place, Utf8.decode name, false⟩, header, payload⟩

/-- Read bytes as a datagram with a cursor. Fails if an access leaves the bytes. -/
def ofBytesByCursor? (wire : Bytes) : Option (Except Malformed Datagram) :=
  if wire.length < Kind.magicSize then some (.error (.truncated Kind.magicSize wire.length))
  else do
    let (word, cursor) ← take? 4 wire
    let magic := UInt32.ofNat (BigEndian.toNat word)
    match Kind.ofMagic? magic with
    | none => some (.error (.unknownMagic magic))
    | some kind =>
      if wire.length < kind.fixedSize then some (.error (.truncated kind.fixedSize wire.length))
      else do
        let (sequence, cursor) ← take? 4 cursor
        match ← placeOfCursor? cursor kind with
        | .error cause => some (.error cause)
        | .ok place =>
          (cutOut? wire kind (UInt32.ofNat (BigEndian.toNat sequence)) place).map .ok

/-- The first zero byte stands behind the name that is cut off at it. -/
theorem findIdx?_eq {name : Bytes} (h : ∀ b ∈ name, b ≠ 0) (payload : Bytes) :
    (name ++ 0 :: payload).findIdx? (· = 0) = some name.length ∧
      name.findIdx? (· = 0) = none := by
  have hname : name.findIdx? (· = 0) = none := by
    rw [List.findIdx?_eq_none_iff]
    intro b hb
    exact decide_eq_false (h b hb)
  refine ⟨?_, hname⟩
  rw [List.findIdx?_append, hname, List.findIdx?_cons]
  simp

/-- With room for the place, it is taken off behind the sequence number. -/
theorem placeOfCursor?_drop {wire : Bytes} {kind : Kind} (h : kind.fixedSize ≤ wire.length) :
    placeOfCursor? (wire.drop 8) kind = some (readPlace wire kind) := by
  cases kind with
  | short => rfl
  | fragmented =>
    rw [placeOfCursor?, Placement.ofCursor?_drop h]
    rfl

/-- With room for the fields of fixed width, what is cut out behind them is what is read there. -/
theorem cutOut?_eq {wire : Bytes} {kind : Kind} (h : kind.fixedSize ≤ wire.length)
    (place : Option Placement) :
    cutOut? wire kind (UInt32.ofNat (BigEndian.field 4 4 wire)) place =
      some (readRest wire kind place) := by
  have htail := slice?_length h
  obtain ⟨name, hn, ⟨hd, hc⟩ | ⟨payload, hd, hc⟩⟩ := cutAtZero_cases (wire.drop kind.fixedSize)
  · simp only [readRest, hc]
    rw [hd] at htail
    simp only [cutOut?, htail, (findIdx?_eq hn []).2, slice?_zero (Nat.le_refl _),
      slice?_length (Nat.le_refl _), List.take_length, List.drop_length, Option.bind_eq_bind,
      Option.bind_some, Option.pure_def]
  · simp only [readRest, hc]
    rw [hd] at htail
    have hlength := congrArg List.length hd
    rw [List.length_drop, List.length_append, List.length_cons] at hlength
    have hheader : kind.fixedSize + name.length + 1 ≤ wire.length := by omega
    have hname : slice? (name ++ 0 :: payload) 0 name.length = some name := by
      rw [slice?_zero (by simp), List.take_left]
    have hpayload : wire.drop (kind.fixedSize + name.length + 1) = payload := by
      rw [Nat.add_assoc, ← List.drop_drop, hd, List.drop_length_add_append]
      rfl
    simp only [cutOut?, htail, (findIdx?_eq hn payload).1, hname, slice?_zero hheader,
      slice?_length hheader, hpayload, Option.bind_eq_bind, Option.bind_some, Option.pure_def]
    rfl

/-- Reading with a cursor never leaves the bytes, and reads what is read at fixed positions. -/
theorem ofBytesByCursor?_eq (wire : Bytes) : ofBytesByCursor? wire = some (ofBytes wire) := by
  have hfield (offset : Nat) :
      BigEndian.toNat ((wire.drop offset).take 4) = BigEndian.field offset 4 wire := rfl
  unfold ofBytesByCursor? ofBytes
  by_cases hmagic : wire.length < Kind.magicSize
  · simp only [if_pos hmagic]
  have hword : take? 4 wire = some ((wire.drop 0).take 4, wire.drop 4) :=
    @take?_drop 0 4 wire (Nat.le_of_not_lt hmagic)
  simp only [if_neg hmagic, hword, hfield, Option.bind_eq_bind, Option.bind_some]
  cases hk : Kind.ofMagic? (UInt32.ofNat (BigEndian.field 0 4 wire)) with
  | none => rfl
  | some kind =>
    by_cases hfixed : wire.length < kind.fixedSize
    · simp only [if_pos hfixed]
    have hroom : kind.fixedSize ≤ wire.length := Nat.le_of_not_lt hfixed
    have hshort : 4 + 4 ≤ wire.length := by
      refine Nat.le_trans ?_ hroom
      cases kind <;> decide
    simp only [if_neg hfixed, take?_drop hshort, hfield, placeOfCursor?_drop hroom,
      Option.bind_some]
    cases hp : readPlace wire kind with
    | error cause => rfl
    | ok place =>
      simp only [cutOut?_eq hroom, Option.map_some]
      rfl

end Datagram

end LcmWire
