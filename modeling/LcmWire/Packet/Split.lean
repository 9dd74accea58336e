import LcmWire.Packet.Basic

/-!
# Cutting a message into fragments

A payload is cut into chunks of one size, of which the last may be shorter; an empty payload makes
one empty chunk. Main statement: `chunks_eq_map`, chunk `i` starts `i` sizes into the payload.
-/

namespace LcmWire.Packet

/-- The number of chunks of at most `size` bytes that `length` bytes make, at least one. -/
def chunkCount (size length : Nat) : Nat := max 1 ((length + size - 1) / size)

/-- Cut `count` chunks off the front of `bytes` and put them behind `done`, the latest of which
comes first. -/
def chunksOnto (done : List Bytes) (size : Nat) : Nat → Bytes → List Bytes
  | 0, _ => done.reverse
  | count + 1, bytes => chunksOnto (bytes.take size :: done) size count (bytes.drop size)

/-- Cut `count` chunks of `size` bytes off the front of `bytes`. -/
def chunks (size count : Nat) (bytes : Bytes) : List Bytes := chunksOnto [] size count bytes

private theorem chunksOnto_eq (done : List Bytes) (size count : Nat) (bytes : Bytes) :
    chunksOnto done size count bytes =
      done.reverse ++ (List.range count).map fun i => (bytes.drop (i * size)).take size := by
  induction count generalizing done bytes with
  | zero => simp [chunksOnto]
  | succ count ih =>
    rw [chunksOnto, ih, List.range_succ_eq_map]
    simp [Function.comp_def, Nat.succ_mul, Nat.add_comm]

/-- Each chunk starts as many sizes into the bytes as chunks come before it. -/
theorem chunks_eq_map (size count : Nat) (bytes : Bytes) :
    chunks size count bytes =
      (List.range count).map fun i => (bytes.drop (i * size)).take size := by
  simp [chunks, chunksOnto_eq]

/-- Why a message cannot be cut. -/
inductive Unsplittable where
  /-- The fragments cannot be counted in their field. -/
  | tooMany (count : Nat)
  /-- The payload length cannot be told in its field. -/
  | tooLong (length : Nat)
  deriving DecidableEq, Repr

/-- The place of chunk `i` among `count` chunks of `size` bytes, cut from `length` bytes. -/
def placeOfChunk (size length count i : Nat) : Placement where
  messageSize := UInt32.ofNat length
  offset := UInt32.ofNat (i * size)
  index := UInt16.ofNat i
  total := UInt16.ofNat count

/-- Cut a message into fragments, each with at most `size` bytes of the payload. The size is
positive. -/
def split (sequence : SequenceNumber) (channel : String) (payload : Bytes) (size : Nat) :
    Except Unsplittable (List Packet) :=
  let length := payload.length
  let count := chunkCount size length
  if UInt16.size ≤ count then .error (.tooMany count)
  else if UInt32.size ≤ length then .error (.tooLong length)
  else
    .ok ((chunks size count payload).zipIdx.map fun (chunk, i) =>
      ⟨sequence, some (placeOfChunk size length count i), channel, chunk⟩)

end LcmWire.Packet
