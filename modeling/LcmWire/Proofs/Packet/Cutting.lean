import LcmWire.Assembler.Basic
import LcmWire.Packet.Split
import LcmWire.Proofs.Datagram.Reading

/-!
# Messages in parts

Chunks lie side by side and leave no byte out, so the payloads of the parts of a message are its
payload again. Main statements: `split_eq_ok_iff` says into what a message is cut, and
`Sending.ofBytes_part` that each part is read as what it was written for.
-/

namespace LcmWire

namespace Packet

/-- Chunks that lie side by side make a beginning of the bytes. -/
theorem flatMap_chunk (size count : Nat) (bytes : Bytes) :
    ((List.range count).flatMap fun i => (bytes.drop (i * size)).take size) =
      bytes.take (count * size) := by
  induction count with
  | zero => simp
  | succ count ih =>
    rw [List.range_succ, List.flatMap_append, ih, List.flatMap_singleton, Nat.succ_mul,
      List.take_add]

theorem chunkCount_pos (size length : Nat) : 0 < chunkCount size length :=
  Nat.lt_of_lt_of_le Nat.zero_lt_one (Nat.le_max_left ..)

/-- There are enough chunks for all bytes. -/
theorem length_le_chunkCount_mul {size : Nat} (h : 0 < size) (length : Nat) :
    length ≤ chunkCount size length * size := by
  have hdiv := Nat.div_add_mod (length + size - 1) size
  have hmod := Nat.mod_lt (length + size - 1) h
  have hmax := Nat.mul_le_mul_left size (Nat.le_max_right 1 ((length + size - 1) / size))
  rw [← chunkCount] at hmax
  rw [Nat.mul_comm]
  omega

/-- Each chunk comes with the number of chunks before it. -/
theorem map_zipIdx_chunks {α : Type} (size count : Nat) (bytes : Bytes) (f : Bytes × Nat → α) :
    (chunks size count bytes).zipIdx.map f =
      (List.range count).map fun i => f ((bytes.drop (i * size)).take size, i) := by
  apply List.ext_getElem (by simp [chunks_eq_map])
  intro i _ _
  simp [chunks_eq_map]

/-- The part with chunk `i` of a payload. -/
def part (sequence : SequenceNumber) (channel : String) (payload : Bytes) (size i : Nat) : Packet :=
  ⟨sequence, some (placeOfChunk size payload.length (chunkCount size payload.length) i), channel,
    (payload.drop (i * size)).take size⟩

/-- A message is cut into its parts if their number and the length of the payload fit into their
fields. -/
theorem split_eq_ok_iff {sequence : SequenceNumber} {channel : String} {payload : Bytes}
    {size : Nat} {parts : List Packet} :
    split sequence channel payload size = .ok parts ↔
      chunkCount size payload.length < UInt16.size ∧ payload.length < UInt32.size ∧
        parts = (List.range (chunkCount size payload.length)).map
          (part sequence channel payload size) := by
  simp only [split, map_zipIdx_chunks]
  by_cases hcount : UInt16.size ≤ chunkCount size payload.length
  · simp [hcount, Nat.not_lt_of_le hcount]
  · by_cases hlength : UInt32.size ≤ payload.length
    · simp [hcount, hlength, Nat.not_lt_of_le hlength]
    · rw [if_neg hcount, if_neg hlength, Except.ok.injEq]
      constructor
      · rintro rfl
        exact ⟨Nat.lt_of_not_le hcount, Nat.lt_of_not_le hlength, rfl⟩
      · rintro ⟨-, -, rfl⟩
        rfl

end Packet

/-- A message that is sent in parts. -/
structure Sending where
  /-- The number of the message. -/
  sequence : SequenceNumber
  /-- The channel on which the message is sent. -/
  channel : String
  /-- What is sent. -/
  payload : Bytes
  /-- How many bytes of the payload a part has at most. -/
  size : Nat
  size_pos : 0 < size
  /-- The channel name has no zero character. -/
  zero_notMem : '\x00' ∉ channel.toList
  /-- The parts in order. -/
  parts : List Packet
  /-- The message is cut into these parts. -/
  split_eq : Packet.split sequence channel payload size = .ok parts
  deriving DecidableEq

namespace Sending

/-- The part with an index. -/
def part (s : Sending) (i : Nat) : Packet :=
  Packet.part s.sequence s.channel s.payload s.size i

/-- The number of parts. -/
def count (s : Sending) : Nat := Packet.chunkCount s.size s.payload.length

theorem parts_eq (s : Sending) : s.parts = (List.range s.count).map s.part :=
  (Packet.split_eq_ok_iff.mp s.split_eq).2.2

@[simp] theorem length_parts (s : Sending) : s.parts.length = s.count := by
  rw [s.parts_eq, List.length_map, List.length_range]

/-- The number of parts can be told in its field. -/
theorem count_lt (s : Sending) : s.count < UInt16.size := (Packet.split_eq_ok_iff.mp s.split_eq).1

theorem count_pos (s : Sending) : 0 < s.count := Packet.chunkCount_pos ..

/-- The place of the part with an index. -/
def place (s : Sending) (i : Nat) : Placement :=
  Packet.placeOfChunk s.size s.payload.length s.count i

/-- Indices of parts are told apart by their field. -/
theorem toNat_ofNat_of_lt (s : Sending) {i : Nat} (h : i < s.count) :
    (UInt16.ofNat i).toNat = i :=
  Nat.mod_eq_of_lt (Nat.lt_trans h s.count_lt)

@[simp] theorem toNat_total (s : Sending) (i : Nat) : (s.place i).total.toNat = s.count :=
  Nat.mod_eq_of_lt s.count_lt

/-- The part is the last one by its own count exactly if no part follows it. -/
theorem isLast_place (s : Sending) {i : Nat} (h : i < s.count) :
    (s.place i).isLast = true ↔ i + 1 = s.count := by
  have hi : (s.place i).index.toNat = i := s.toNat_ofNat_of_lt h
  rw [Placement.isLast, hi, toNat_total, beq_iff_eq]

/-- What the part with an index says. -/
def datagram (s : Sending) (i : Nat) : Datagram :=
  ⟨⟨s.sequence, some (s.place i), s.channel, true⟩, (s.part i).headerBytes, (s.part i).payload⟩

/-- Each part lies in its message. -/
theorem inRange_place (s : Sending) {i : Nat} (h : i < s.count) :
    Datagram.InRange (some (s.place i)) := by
  intro place hplace
  obtain rfl : s.place i = place := Option.some.inj hplace
  have hi : (s.place i).index.toNat = i := s.toNat_ofNat_of_lt h
  rw [UInt16.lt_iff_toNat_lt, hi, toNat_total]
  exact h

/-- Each part is read as what it was written for. -/
theorem ofBytes_part (s : Sending) {i : Nat} (h : i < s.count) :
    Datagram.ofBytes (s.part i).toBytes = .ok (s.datagram i) :=
  Datagram.ofBytes_toBytes (s.inRange_place h) s.zero_notMem

/-- The payloads of all parts make the payload. -/
theorem flatMap_payload (s : Sending) :
    (List.range s.count).flatMap (fun i => (s.datagram i).payload) = s.payload := by
  apply (Packet.flatMap_chunk s.size s.count s.payload).trans
  exact List.take_of_length_le (Packet.length_le_chunkCount_mul s.size_pos s.payload.length)

/-- The message as it is handed out: all of the payload behind the header of the first part. -/
def message (s : Sending) : Message :=
  ⟨{ s.datagram 0 with payload := s.payload }, UInt16.ofNat s.parts.length⟩

@[simp] theorem toNat_fragmentCount (s : Sending) : s.message.fragmentCount.toNat = s.count := by
  rw [message, length_parts]
  exact s.toNat_total 0

/-- The header of the first part in front of the payload is read as the message. -/
theorem ofBytes_joined (s : Sending) :
    Datagram.ofBytes ((s.datagram 0).headerBytes ++ s.payload) = .ok s.message.datagram := by
  let whole : Packet := ⟨s.sequence, some (s.place 0), s.channel, s.payload⟩
  have hwire : whole.toBytes = (s.datagram 0).headerBytes ++ s.payload := rfl
  rw [← hwire, Datagram.ofBytes_toBytes (s.inRange_place s.count_pos) s.zero_notMem]
  rfl

end Sending

end LcmWire
