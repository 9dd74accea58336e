import LcmWire.Proofs.Datagram.Reading

/-!
# Packets read back

A sender has one spelling for each packet. Main statements: `ofBytes_toBytes_cases` says what is
read from it, whatever the channel name and the place of the packet are, and `toBytes_canonical`
that all spellings of a datagram are written again as one, which is read as the same and differs
from those that are open or ill formed.
-/

namespace LcmWire

open Datagram (InRange ofBytes)

namespace Datagram

/-- The bytes of a datagram are its fields of fixed width and its channel name, and a zero byte and
the payload behind it if the name is closed. -/
theorem eq_append_nameBytes {wire : Bytes} {d : Datagram} (h : ofBytes wire = .ok d) :
    (∀ b ∈ d.nameBytes, b ≠ 0) ∧ d.header.channel = Utf8.decode d.nameBytes ∧
      wire = fixedBytes d.header.sequence d.header.place ++
        (d.nameBytes ++ if d.header.terminated then 0 :: d.payload else []) := by
  obtain ⟨sequence, place, tail, -, rfl, rfl⟩ := ofBytes_eq_ok_iff.mp h
  obtain ⟨name, hn, ⟨rfl, hc⟩ | ⟨payload, rfl, hc⟩⟩ := cutAtZero_cases tail
  · rw [nameBytes_behind, hc, behind_of_forall_ne _ _ hn]
    exact ⟨hn, rfl, by simp⟩
  · rw [nameBytes_behind, hc, behind_append _ _ hn]
    exact ⟨hn, rfl, by simp⟩

/-- No channel name that was read has a zero character. -/
theorem zero_notMem_channel {wire : Bytes} {d : Datagram} (h : ofBytes wire = .ok d) :
    '\x00' ∉ d.header.channel.toList := by
  obtain ⟨hn, hchannel, -⟩ := eq_append_nameBytes h
  rw [hchannel]
  exact Utf8.zero_notMem_decode hn

end Datagram

namespace Packet

/-- The first zero character of a channel name ends it when the packet is read, and what follows
it is read as payload. -/
theorem ofBytes_toBytes_of_zero {p : Packet} (hp : InRange p.place) {name rest : String}
    (hn : '\x00' ∉ name.toList) (hc : p.channel = name ++ "\x00" ++ rest) :
    ofBytes p.toBytes =
      .ok ⟨⟨p.sequence, p.place, name, true⟩, { p with channel := name }.headerBytes,
        Utf8.encode rest ++ 0 :: p.payload⟩ := by
  have hchannel : Utf8.encode p.channel = Utf8.encode name ++ 0 :: Utf8.encode rest := by
    rw [hc, Utf8.encode_append, Utf8.encode_append, List.append_assoc]
    rfl
  have htail : Utf8.encode p.channel ++ 0 :: p.payload =
      Utf8.encode name ++ 0 :: (Utf8.encode rest ++ 0 :: p.payload) := by
    rw [hchannel, List.append_assoc, List.cons_append]
  rw [Datagram.toBytes_eq_append, htail, Datagram.ofBytes_fixedBytes_append _ hp,
    Datagram.behind_append _ _ (Utf8.encode_forall_ne hn), Utf8.decode_encode]
  rfl

/-- Every packet is read back with its fields and its payload as they were written if its place
lies in its message. The channel name is read back up to its first zero character; what follows
that one becomes payload. A place outside its message is rejected by its position. -/
theorem ofBytes_toBytes_cases (p : Packet) :
    (InRange p.place →
      ('\x00' ∉ p.channel.toList → ofBytes p.toBytes =
        .ok ⟨⟨p.sequence, p.place, p.channel, true⟩, p.headerBytes, p.payload⟩) ∧
      ∀ name rest : String, '\x00' ∉ name.toList → p.channel = name ++ "\x00" ++ rest →
        ofBytes p.toBytes =
          .ok ⟨⟨p.sequence, p.place, name, true⟩, { p with channel := name }.headerBytes,
            Utf8.encode rest ++ [0] ++ p.payload⟩) ∧
    ∀ place, p.place = some place → place.total ≤ place.index →
      ofBytes p.toBytes = .error (.indexOutOfRange place.index place.total) := by
  refine ⟨fun hp => ⟨Datagram.ofBytes_toBytes hp, fun name rest hn hc => ?_⟩, ?_⟩
  · rw [List.append_assoc]
    exact ofBytes_toBytes_of_zero hp hn hc
  · intro place hp hle
    rw [Datagram.toBytes_eq_append, hp]
    exact Datagram.ofBytes_fixedBytes_of_le _ hle _

end Packet

namespace Datagram

/-- What a datagram says is written as its bytes exactly if these are the spelling that a sender
has for it. -/
theorem toBytes_packet_eq_iff {wire : Bytes} {d : Datagram} (h : ofBytes wire = .ok d) :
    d.packet.toBytes = wire ↔
      d.header.terminated = true ∧ d.nameBytes.toByteArray.IsValidUTF8 := by
  obtain ⟨hn, hchannel, hwire⟩ := eq_append_nameBytes h
  have hpacket : d.packet.toBytes = fixedBytes d.header.sequence d.header.place ++
      (Utf8.encode (Utf8.decode d.nameBytes) ++ 0 :: d.payload) := by
    rw [← hchannel]
    exact toBytes_eq_append d.packet
  rw [hpacket, hwire, List.append_cancel_left_eq]
  cases ht : d.header.terminated with
  | true =>
    rw [if_pos rfl, List.append_cancel_right_eq, Utf8.encode_decode_eq_iff]
    exact (and_iff_right rfl).symm
  | false =>
    have hne : Utf8.encode (Utf8.decode d.nameBytes) ++ 0 :: d.payload ≠ d.nameBytes := by
      intro heq
      have hzero : 0 ∈ d.nameBytes := heq ▸ by simp
      exact hn 0 hzero rfl
    simp [hne]

/-- What was read is written in a spelling that is read as the same, with a closed channel name, and
written as itself. It is the spelling that was read if and only if there the channel name was closed
and well formed. -/
theorem toBytes_canonical {wire : Bytes} {d : Datagram} (h : ofBytes wire = .ok d) :
    ∃ again, ofBytes d.packet.toBytes = .ok again ∧
      again.header = { d.header with terminated := true } ∧ again.payload = d.payload ∧
      again.packet.toBytes = d.packet.toBytes ∧
      (d.packet.toBytes = wire ↔
        d.header.terminated = true ∧ d.nameBytes.toByteArray.IsValidUTF8) := by
  have hplace : InRange d.packet.place := inRange_of_ofBytes h
  have hchannel : '\x00' ∉ d.packet.channel.toList := zero_notMem_channel h
  exact ⟨_, ofBytes_toBytes hplace hchannel, rfl, rfl, rfl, toBytes_packet_eq_iff h⟩

/-- A fragment with a closed channel name that spells zero in two bytes, which are ill formed. -/
theorem toBytes_canonical_overlong :
    let wire : Bytes := [0x4C, 0x43, 0x30, 0x33, 0, 0, 0, 7, 0, 0, 0, 3, 0, 0, 0, 2, 0, 1, 0, 2,
      0x41, 0xC0, 0x80, 0, 5]
    let d : Datagram := ⟨⟨7, some ⟨3, 2, 1, 2⟩, "A\uFFFD\uFFFD", true⟩, wire.take 24, [5]⟩
    ofBytes wire = .ok d ∧ ∃ again, ofBytes d.packet.toBytes = .ok again ∧
      again.header = { d.header with terminated := true } ∧ again.payload = d.payload ∧
      again.packet.toBytes = d.packet.toBytes ∧
      (d.packet.toBytes = wire ↔
        d.header.terminated = true ∧ d.nameBytes.toByteArray.IsValidUTF8) := by
  intro wire d
  have h : ofBytes wire = .ok d := by decide
  exact ⟨h, toBytes_canonical h⟩

end Datagram

end LcmWire
