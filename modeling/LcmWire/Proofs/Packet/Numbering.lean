import LcmWire.Proofs.Packet.Cutting
import Mathlib.Algebra.Order.Floor.Div

/-!
# Numbering the parts of a message

A sender may also take chunks off the payload until no byte is left, and count index and offset on
from part to part in fields of their own width. Here each count fails where it leaves its field. The
statement `splitByCounting?_eq` says that none ever does, and that the parts are the same. The main
statement `split_covers` says which messages cannot be cut, and that the parts of any other one are
read as datagrams that are numbered throughout and cover its payload.
-/

namespace LcmWire

namespace Packet

/-! ### Chunks -/

/-- As many chunks are cut as the bytes make, and one of no bytes. -/
theorem chunkCount_eq (size length : Nat) : chunkCount size length = max 1 (length ⌈/⌉ size) := rfl

/-- A chunk starts inside the bytes, or is the first one. -/
theorem lt_chunkCount_iff {size : Nat} (h : 0 < size) {length i : Nat} :
    i < chunkCount size length ↔ i = 0 ∨ i * size < length := by
  rw [chunkCount_eq, lt_max_iff, Nat.lt_one_iff, ← Nat.not_le (a := length ⌈/⌉ size),
    ceilDiv_le_iff_le_mul h, Nat.not_le, Nat.mul_comm]

/-- No chunk starts behind the bytes. -/
theorem mul_le_of_lt_chunkCount {size : Nat} (h : 0 < size) {length i : Nat}
    (hi : i < chunkCount size length) : i * size ≤ length := by
  rcases (lt_chunkCount_iff h).mp hi with rfl | hlt
  · simp
  · exact Nat.le_of_lt hlt

/-- Take chunks of `size` bytes off the front until no byte is left. -/
def takeOff (size : Nat) : Bytes → List Bytes
  | [] => []
  | b :: rest => (b :: rest.take (size - 1)) :: takeOff size (rest.drop (size - 1))
termination_by bytes => bytes.length
decreasing_by
  rw [List.length_drop, List.length_cons]
  omega

/-- One chunk more is taken off than off the bytes behind the first one. -/
theorem ceilDiv_succ (size n : Nat) :
    (n + 1) ⌈/⌉ (size + 1) = (n - size) ⌈/⌉ (size + 1) + 1 := by
  rw [Nat.ceilDiv_eq_add_pred_div, Nat.ceilDiv_eq_add_pred_div]
  have hsum : n + 1 + (size + 1) - 1 = n + (size + 1) := by omega
  rw [hsum, Nat.add_div_right n (Nat.succ_pos size)]
  rcases Nat.lt_or_ge n size with hlt | hle
  · have hzero : n - size + (size + 1) - 1 = size := by omega
    rw [hzero, Nat.div_eq_of_lt (by omega), Nat.div_eq_of_lt (by omega)]
  · have hback : n - size + (size + 1) - 1 = n := by omega
    rw [hback]

/-- Each chunk that is taken off starts as many sizes into the bytes as chunks come before it. -/
theorem takeOff_eq_map (size : Nat) (bytes : Bytes) :
    takeOff (size + 1) bytes = (List.range (bytes.length ⌈/⌉ (size + 1))).map fun i =>
      (bytes.drop (i * (size + 1))).take (size + 1) := by
  induction bytes using takeOff.induct (size + 1) with
  | case1 => simp [takeOff]
  | case2 b rest ih =>
    have hdrop (i : Nat) : (b :: rest).drop ((i + 1) * (size + 1)) =
        (rest.drop size).drop (i * (size + 1)) := by
      rw [Nat.succ_mul, Nat.add_comm, Nat.add_right_comm, List.drop_succ_cons, List.drop_drop]
    rw [Nat.add_sub_cancel] at ih
    rw [takeOff, Nat.add_sub_cancel, ih, List.length_cons, ceilDiv_succ, List.length_drop,
      List.range_succ_eq_map, List.map_cons, List.map_map]
    simp only [Function.comp_def, Nat.succ_eq_add_one, hdrop, Nat.zero_mul, List.drop_zero,
      List.take_succ_cons]

/-- The chunks of a payload, taken off until no byte is left. -/
def takenChunks (size : Nat) (payload : Bytes) : List Bytes :=
  if payload.isEmpty then [payload] else takeOff size payload

/-- They are the chunks that are counted first and then cut. -/
theorem takenChunks_eq {size : Nat} (h : 0 < size) (payload : Bytes) :
    takenChunks size payload = chunks size (chunkCount size payload.length) payload := by
  obtain ⟨size, rfl⟩ := Nat.exists_eq_add_one_of_ne_zero (Nat.ne_of_gt h)
  rw [chunks_eq_map, takenChunks, chunkCount_eq]
  cases payload with
  | nil => simp
  | cons b rest =>
    have hcount :
        max 1 ((b :: rest).length ⌈/⌉ (size + 1)) = (b :: rest).length ⌈/⌉ (size + 1) := by
      rw [List.length_cons, ceilDiv_succ]
      exact Nat.max_eq_right (Nat.le_add_left 1 _)
    rw [hcount]
    exact takeOff_eq_map size (b :: rest)

/-! ### Counts -/

/-- A number in a field of two bytes. Fails if it does not fit. -/
def halfword? (n : Nat) : Option UInt16 :=
  if n < UInt16.size then some (UInt16.ofNat n) else none

/-- A number in a field of four bytes. Fails if it does not fit. -/
def word? (n : Nat) : Option UInt32 :=
  if n < UInt32.size then some (UInt32.ofNat n) else none

/-- Number chunks one after the other, from an offset and an index on. Fails if a count leaves its
field, be it behind the last chunk. -/
def numberFrom? (sequence : SequenceNumber) (channel : String) (messageSize : UInt32)
    (total : UInt16) : UInt32 → UInt16 → List Bytes → Option (List Packet)
  | _, _, [] => some []
  | offset, index, chunk :: rest => do
    let length ← word? chunk.length
    let nextOffset ← word? (offset.toNat + length.toNat)
    let nextIndex ← halfword? (index.toNat + 1)
    let parts ← numberFrom? sequence channel messageSize total nextOffset nextIndex rest
    return ⟨sequence, some ⟨messageSize, offset, index, total⟩, channel, chunk⟩ :: parts

/-- Cut a message into fragments in one pass, with counts in fields of their own width. Fails if one
of them leaves its field. -/
def splitByCounting? (sequence : SequenceNumber) (channel : String) (payload : Bytes) (size : Nat) :
    Option (Except Unsplittable (List Packet)) :=
  let chunks := takenChunks size payload
  if UInt16.size ≤ chunks.length then some (.error (.tooMany chunks.length))
  else if UInt32.size ≤ payload.length then some (.error (.tooLong payload.length))
  else
    (numberFrom? sequence channel (UInt32.ofNat payload.length) (UInt16.ofNat chunks.length) 0 0
      chunks).map .ok

theorem halfword?_of_lt {n : Nat} (h : n < UInt16.size) : halfword? n = some (UInt16.ofNat n) :=
  if_pos h

theorem word?_of_lt {n : Nat} (h : n < UInt32.size) : word? n = some (UInt32.ofNat n) := if_pos h

/-- Chunk `i` ends where the next one starts, or where the bytes end. -/
theorem min_add_length_chunk (size i : Nat) (bytes : Bytes) :
    min (i * size) bytes.length + ((bytes.drop (i * size)).take size).length =
      min ((i + 1) * size) bytes.length := by
  rw [List.length_take, List.length_drop, Nat.succ_mul]
  omega

section Counting

variable (sequence : SequenceNumber) (channel : String) {payload : Bytes} {size : Nat}
  (hsize : 0 < size) (hcount : chunkCount size payload.length < UInt16.size)
  (hlength : payload.length < UInt32.size)
include hsize hcount hlength

/-- From chunk `i` on, the counts stay in their fields and number the parts. -/
theorem numberFrom?_eq (n i : Nat) (h : i + n = chunkCount size payload.length) :
    numberFrom? sequence channel (UInt32.ofNat payload.length)
        (UInt16.ofNat (chunkCount size payload.length))
        (UInt32.ofNat (min (i * size) payload.length)) (UInt16.ofNat i)
        ((List.range' i n).map fun j => (payload.drop (j * size)).take size) =
      some ((List.range' i n).map (part sequence channel payload size)) := by
  induction n generalizing i with
  | zero => rfl
  | succ n ih =>
    have hi : i < chunkCount size payload.length := by omega
    have hfits (k : Nat) (hk : k ≤ payload.length) : (UInt32.ofNat k).toNat = k :=
      Nat.mod_eq_of_lt (Nat.lt_of_le_of_lt hk hlength)
    have hchunk : ((payload.drop (i * size)).take size).length ≤ payload.length :=
      ((List.take_sublist ..).trans (List.drop_sublist ..)).length_le
    have hoffset : word? ((UInt32.ofNat (min (i * size) payload.length)).toNat +
          (UInt32.ofNat ((payload.drop (i * size)).take size).length).toNat) =
        some (UInt32.ofNat (min ((i + 1) * size) payload.length)) := by
      rw [hfits _ (Nat.min_le_right ..), hfits _ hchunk, min_add_length_chunk]
      exact word?_of_lt (Nat.lt_of_le_of_lt (Nat.min_le_right ..) hlength)
    have hindex : halfword? ((UInt16.ofNat i).toNat + 1) = some (UInt16.ofNat (i + 1)) := by
      rw [UInt16.toNat_ofNat', Nat.mod_eq_of_lt (Nat.lt_trans hi hcount)]
      exact halfword?_of_lt (Nat.lt_of_le_of_lt hi hcount)
    have hstart : min (i * size) payload.length = i * size :=
      Nat.min_eq_left (mul_le_of_lt_chunkCount hsize hi)
    rw [List.range'_succ, List.map_cons, List.map_cons, numberFrom?,
      word?_of_lt (Nat.lt_of_le_of_lt hchunk hlength)]
    simp only [Option.bind_eq_bind, Option.bind_some, hoffset, hindex, ih (i + 1) (by omega)]
    rw [hstart]
    rfl

end Counting

/-- No count leaves its field, and counting cuts a message into the same parts. -/
theorem splitByCounting?_eq (sequence : SequenceNumber) (channel : String) (payload : Bytes)
    {size : Nat} (h : 0 < size) :
    splitByCounting? sequence channel payload size =
      some (split sequence channel payload size) := by
  have hchunks : (takenChunks size payload).length = chunkCount size payload.length := by
    rw [takenChunks_eq h, chunks_eq_map, List.length_map, List.length_range]
  simp only [splitByCounting?, split, hchunks]
  by_cases hcount : UInt16.size ≤ chunkCount size payload.length
  · rw [if_pos hcount, if_pos hcount]
  by_cases hlength : UInt32.size ≤ payload.length
  · rw [if_neg hcount, if_neg hcount, if_pos hlength, if_pos hlength]
  have hnumbered := numberFrom?_eq sequence channel h (Nat.lt_of_not_le hcount)
    (Nat.lt_of_not_le hlength) (chunkCount size payload.length) 0 (Nat.zero_add _)
  rw [Nat.zero_mul, Nat.zero_min, ← List.range_eq_range', ← chunks_eq_map, ← takenChunks_eq h]
    at hnumbered
  rw [if_neg hcount, if_neg hcount, if_neg hlength, if_neg hlength, map_zipIdx_chunks]
  exact congrArg (Option.map Except.ok) hnumbered

/-- A message cannot be cut exactly if its chunks or its bytes cannot be counted. -/
theorem split_eq_error_iff (sequence : SequenceNumber) (channel : String) (payload : Bytes)
    (size : Nat) :
    (∃ cause, split sequence channel payload size = .error cause) ↔
      65535 < payload.length ⌈/⌉ size ∨ 2 ^ 32 - 1 < payload.length := by
  have hcount : UInt16.size ≤ chunkCount size payload.length ↔ 65535 < payload.length ⌈/⌉ size := by
    rw [chunkCount_eq, le_max_iff]
    exact or_iff_right (by decide)
  have hlength : UInt32.size ≤ payload.length ↔ 2 ^ 32 - 1 < payload.length := Iff.rfl
  rw [← hcount, ← hlength]
  simp only [split]
  split
  · rename_i hmany
    exact iff_of_true ⟨_, rfl⟩ (.inl hmany)
  split
  · rename_i hlong
    exact iff_of_true ⟨_, rfl⟩ (.inr hlong)
  · rename_i hmany hlong
    exact iff_of_false (by simp) (not_or.mpr ⟨hmany, hlong⟩)

end Packet

namespace Sending

/-- A part that is followed by another one is full, and the last one takes what is left. -/
theorem length_payload (s : Sending) {i : Nat} (h : i < s.count) :
    (i + 1 < s.count → (s.datagram i).payload.length = s.size) ∧
      (i + 1 = s.count → (s.datagram i).payload.length ≤ s.size ∧
        ((s.datagram i).payload = [] ↔ s.payload = [])) := by
  have hpayload : (s.datagram i).payload = (s.payload.drop (i * s.size)).take s.size := rfl
  have hpos := s.size_pos
  constructor
  · intro hnext
    have hlt := ((Packet.lt_chunkCount_iff hpos).mp hnext).resolve_left (Nat.succ_ne_zero i)
    rw [Nat.succ_mul] at hlt
    rw [hpayload, List.length_take, List.length_drop]
    omega
  · intro _
    refine ⟨hpayload ▸ List.length_take_le .., ?_⟩
    rw [hpayload, List.take_eq_nil_iff, List.drop_eq_nil_iff]
    rcases (Packet.lt_chunkCount_iff hpos).mp h with rfl | hlt
    · simp [Nat.ne_of_gt hpos]
    · constructor
      · rintro (hzero | hle)
        · omega
        · exact absurd hlt (Nat.not_lt_of_le hle)
      · intro hnil
        simp [hnil]

/-- The parts before a part carry the bytes before its offset. -/
theorem sum_length_payload (s : Sending) {i : Nat} (h : i < s.count) :
    ((((List.range s.count).map s.datagram).take i).map fun d => d.payload.length).sum =
      i * s.size := by
  have hle : i * s.size ≤ s.payload.length := Packet.mul_le_of_lt_chunkCount s.size_pos h
  have hbytes := congrArg List.length (Packet.flatMap_chunk s.size i s.payload)
  rw [List.length_flatMap, List.length_take, Nat.min_eq_left hle] at hbytes
  rw [← List.map_take, List.take_range, Nat.min_eq_left (Nat.le_of_lt h), List.map_map]
  exact hbytes

end Sending

/-- The datagram is the one with index `i` among all those that carry a payload in chunks. -/
structure Datagram.Carries (d : Datagram) (i : Nat) (all : List Datagram)
    (sequence : SequenceNumber) (channel : String) (payload : Bytes) (size : Nat) : Prop where
  sequence_eq : d.header.sequence = sequence
  channel_eq : d.header.channel = channel
  terminated : d.header.terminated = true
  /-- It says where its chunk belongs, and it is the last one by its own count if none follows. -/
  place_eq : ∃ place, d.header.place = some place ∧ place.index.toNat = i ∧
    place.total.toNat = all.length ∧ place.messageSize.toNat = payload.length ∧
    place.offset.toNat = i * size ∧ (place.isLast = true ↔ i + 1 = all.length)
  /-- Its chunk starts behind those of the datagrams before it. -/
  offset_eq : ((all.take i).map fun e => e.payload.length).sum = i * size
  /-- Its chunk is full if another one follows. -/
  full : i + 1 < all.length → d.payload.length = size
  /-- The last chunk may be shorter, but is empty for no other payload than the empty one. -/
  last : i + 1 = all.length → d.payload.length ≤ size ∧ (d.payload = [] ↔ payload = [])

/-- Each part of a message carries its chunk. -/
theorem Sending.carries (s : Sending) {i : Nat} (h : i < s.count) :
    (s.datagram i).Carries i ((List.range s.count).map s.datagram) s.sequence s.channel s.payload
      s.size := by
  have hlength : ((List.range s.count).map s.datagram).length = s.count := by
    rw [List.length_map, List.length_range]
  have hfits : s.payload.length < UInt32.size := (Packet.split_eq_ok_iff.mp s.split_eq).2.1
  have hoffset : i * s.size ≤ s.payload.length := Packet.mul_le_of_lt_chunkCount s.size_pos h
  refine ⟨rfl, rfl, rfl, ⟨s.place i, rfl, ?_⟩, s.sum_length_payload h, ?_, ?_⟩
  · rw [hlength]
    exact ⟨s.toNat_ofNat_of_lt h, s.toNat_total i, Nat.mod_eq_of_lt hfits,
      Nat.mod_eq_of_lt (Nat.lt_of_le_of_lt hoffset hfits), s.isLast_place h⟩
  · rw [hlength]
    exact (s.length_payload h).1
  · rw [hlength]
    exact (s.length_payload h).2

namespace Packet

/-- A message cannot be cut exactly if it makes more than 65535 chunks or has more bytes than can be
told. Any other one is cut into as many parts as it has chunks, or one if it is empty: they are read
as datagrams that are numbered throughout, and the payloads of these are its payload, cut at each
multiple of the size. A sender that counts on from part to part writes the same and leaves no
field. -/
theorem split_covers (sequence : SequenceNumber) (channel : String) (payload : Bytes) (size : Nat)
    (hsize : 0 < size) (hzero : '\x00' ∉ channel.toList) :
    ((∃ cause, split sequence channel payload size = .error cause) ↔
      65535 < payload.length ⌈/⌉ size ∨ 2 ^ 32 - 1 < payload.length) ∧
    (∀ parts, split sequence channel payload size = .ok parts → ∃ datagrams : List Datagram,
      (parts.map fun part => Datagram.ofBytes part.toBytes) = datagrams.map .ok ∧
      datagrams.length = max 1 (payload.length ⌈/⌉ size) ∧
      datagrams.flatMap Datagram.payload = payload ∧
      ∀ i (d : Datagram), datagrams[i]? = some d →
        d.Carries i datagrams sequence channel payload size) ∧
    splitByCounting? sequence channel payload size =
      some (split sequence channel payload size) := by
  refine ⟨split_eq_error_iff sequence channel payload size, fun parts hparts => ?_,
    splitByCounting?_eq sequence channel payload hsize⟩
  let s : Sending := ⟨sequence, channel, payload, size, hsize, hzero, parts, hparts⟩
  refine ⟨(List.range s.count).map s.datagram, ?_, ?_, ?_, ?_⟩
  · have hs : parts = (List.range s.count).map s.part := s.parts_eq
    rw [hs, List.map_map, List.map_map]
    exact List.map_congr_left fun i hi => s.ofBytes_part (List.mem_range.mp hi)
  · rw [List.length_map, List.length_range]
    rfl
  · rw [List.flatMap_map]
    exact s.flatMap_payload
  · intro i d hd
    obtain ⟨hi, rfl⟩ := List.getElem?_eq_some_iff.mp hd
    rw [List.getElem_map, List.getElem_range]
    rw [List.length_map, List.length_range] at hi
    exact s.carries hi

/-- Five bytes in chunks of two, on a channel with a letter of two bytes. -/
theorem split_covers_odd :
    let payload : Bytes := [1, 2, 3, 4, 5]
    0 < 2 ∧ '\x00' ∉ "é".toList ∧ ∃ parts, split 7 "é" payload 2 = .ok parts ∧
      ∃ datagrams : List Datagram,
        (parts.map fun part => Datagram.ofBytes part.toBytes) = datagrams.map .ok ∧
        datagrams.length = 3 ∧ datagrams.flatMap Datagram.payload = payload ∧
        ∀ i (d : Datagram), datagrams[i]? = some d → d.Carries i datagrams 7 "é" payload 2 := by
  intro payload
  have hsize : 0 < 2 := by decide
  have hzero : '\x00' ∉ "é".toList := by decide
  have hparts : split 7 "é" payload 2 = .ok [⟨7, some ⟨5, 0, 0, 3⟩, "é", [1, 2]⟩,
      ⟨7, some ⟨5, 2, 1, 3⟩, "é", [3, 4]⟩, ⟨7, some ⟨5, 4, 2, 3⟩, "é", [5]⟩] := by decide
  have hcount : max 1 (payload.length ⌈/⌉ 2) = 3 := by decide
  obtain ⟨-, hcovers, -⟩ := split_covers 7 "é" payload 2 hsize hzero
  have hdatagrams := hcovers _ hparts
  rw [hcount] at hdatagrams
  exact ⟨hsize, hzero, _, hparts, hdatagrams⟩

end Packet

end LcmWire
