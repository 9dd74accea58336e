import LcmWire.Datagram.Reader
import LcmWire.Packet.Basic
import LcmWire.Proofs.BigEndian
import LcmWire.Proofs.Text.Utf8

/-!
# Reading what was written

The fields of fixed width have one spelling, so bytes that are a datagram are those fields followed
by a tail, and the tail alone decides where the channel name ends. Main statements:
`ofBytes_eq_ok_iff` describes all bytes that are a datagram, `ofBytes_toBytes` reads a packet back,
and `exists_rereads` reads the header of a datagram again in front of other bytes.
-/

namespace LcmWire

/-- The kind of datagram that has this place. -/
def Kind.ofPlace (place : Option Placement) : Kind := if place.isSome then .fragmented else .short

namespace Datagram

/-- The bytes of the fields in front of the channel name. -/
def fixedBytes (sequence : SequenceNumber) (place : Option Placement) : Bytes :=
  Packet.fixedBytes ⟨sequence, place, "", []⟩

/-- A place, if there is one, lies in its message. -/
def InRange (place : Option Placement) : Prop := ∀ p ∈ place, p.index < p.total

/-- The datagram that a tail behind the fields of fixed width makes. -/
def behind (sequence : SequenceNumber) (place : Option Placement) (tail : Bytes) : Datagram :=
  match cutAtZero tail with
  | (name, some payload) =>
    ⟨⟨sequence, place, Utf8.decode name, true⟩, fixedBytes sequence place ++ name ++ [0], payload⟩
  | (name, none) =>
    ⟨⟨sequence, place, Utf8.decode name, false⟩, fixedBytes sequence place ++ name, []⟩

@[simp] theorem behind_sequence (sequence : SequenceNumber) (place : Option Placement)
    (tail : Bytes) : (behind sequence place tail).header.sequence = sequence := by
  unfold behind
  split <;> rfl

@[simp] theorem behind_place (sequence : SequenceNumber) (place : Option Placement)
    (tail : Bytes) : (behind sequence place tail).header.place = place := by
  unfold behind
  split <;> rfl

/-- A tail without a zero byte is a channel name that is open. -/
theorem behind_of_forall_ne (sequence : SequenceNumber) (place : Option Placement) {name : Bytes}
    (h : ∀ b ∈ name, b ≠ 0) :
    behind sequence place name =
      ⟨⟨sequence, place, Utf8.decode name, false⟩, fixedBytes sequence place ++ name, []⟩ := by
  simp only [behind, cutAtZero_of_forall_ne h]

/-- The first zero byte of a tail closes the channel name. -/
theorem behind_append (sequence : SequenceNumber) (place : Option Placement) {name : Bytes}
    (h : ∀ b ∈ name, b ≠ 0) (payload : Bytes) :
    behind sequence place (name ++ 0 :: payload) =
      ⟨⟨sequence, place, Utf8.decode name, true⟩, fixedBytes sequence place ++ name ++ [0],
        payload⟩ := by
  simp only [behind, cutAtZero_append h]

@[simp] theorem length_fixedBytes (sequence : SequenceNumber) (place : Option Placement) :
    (fixedBytes sequence place).length = (Kind.ofPlace place).fixedSize :=
  Packet.length_fixedBytes _

/-- The fields of fixed width, one behind the other. -/
theorem fixedBytes_append (sequence : SequenceNumber) (place : Option Placement) (tail : Bytes) :
    fixedBytes sequence place ++ tail =
      BigEndian.ofNat 4 (Kind.ofPlace place).magic.toNat ++ (BigEndian.ofNat 4 sequence.toNat ++
        (place.elim [] Placement.toBytes ++ tail)) := by
  simp only [fixedBytes, Packet.fixedBytes, List.append_assoc]
  rfl

theorem magic_fixedBytes (sequence : SequenceNumber) (place : Option Placement) (tail : Bytes) :
    UInt32.ofNat (BigEndian.field 0 4 (fixedBytes sequence place ++ tail)) =
      (Kind.ofPlace place).magic := by
  rw [fixedBytes_append, BigEndian.field_word]

theorem sequence_fixedBytes (sequence : SequenceNumber) (place : Option Placement) (tail : Bytes) :
    UInt32.ofNat (BigEndian.field 4 4 (fixedBytes sequence place ++ tail)) = sequence := by
  rw [fixedBytes_append, BigEndian.field_ofNat_skip (by decide), BigEndian.field_word]

/-- The place of a fragment is read back from its fields. -/
theorem place_fixedBytes (sequence : SequenceNumber) (place : Placement) (tail : Bytes) :
    Placement.ofBytes (fixedBytes sequence (some place) ++ tail) = place := by
  simp [fixedBytes_append, Placement.ofBytes, Placement.toBytes]

/-- Reading a tail behind given fields. -/
theorem readRest_fixedBytes (sequence : SequenceNumber) (place : Option Placement) (tail : Bytes) :
    readRest (fixedBytes sequence place ++ tail) (Kind.ofPlace place) place =
      behind sequence place tail := by
  have hd : (fixedBytes sequence place ++ tail).drop (Kind.ofPlace place).fixedSize = tail :=
    List.drop_left' (length_fixedBytes sequence place)
  obtain ⟨name, -, ⟨rfl, hc⟩ | ⟨payload, rfl, hc⟩⟩ := cutAtZero_cases tail
  · simp only [readRest, behind, hd, hc, sequence_fixedBytes]
  · have ht : (fixedBytes sequence place ++ (name ++ 0 :: payload)).take
        ((Kind.ofPlace place).fixedSize + (name.length + 1)) =
          fixedBytes sequence place ++ name ++ [0] := by
      rw [← length_fixedBytes sequence place, List.take_length_add_append,
        List.take_length_add_append]
      simp
    simp only [readRest, behind, hd, hc, ht, sequence_fixedBytes]

/-- Behind the fields of fixed width, only the place can still be wrong. -/
theorem ofBytes_fixedBytes (sequence : SequenceNumber) (place : Option Placement) (tail : Bytes) :
    ofBytes (fixedBytes sequence place ++ tail) =
      (readPlace (fixedBytes sequence place ++ tail) (Kind.ofPlace place)).map
        (readRest (fixedBytes sequence place ++ tail) (Kind.ofPlace place)) := by
  have hl : (Kind.ofPlace place).fixedSize ≤ (fixedBytes sequence place ++ tail).length := by
    simp
  have hm := (Kind.ofPlace place).magicSize_le_fixedSize
  simp only [ofBytes, magic_fixedBytes, Kind.ofMagic?_magic]
  rw [if_neg (by omega), if_neg (by omega)]

/-- Whatever stands behind fields in range, the bytes are a datagram. -/
theorem ofBytes_fixedBytes_append (sequence : SequenceNumber) {place : Option Placement}
    (hp : InRange place) (tail : Bytes) :
    ofBytes (fixedBytes sequence place ++ tail) = .ok (behind sequence place tail) := by
  have hr : readPlace (fixedBytes sequence place ++ tail) (Kind.ofPlace place) = .ok place := by
    cases place with
    | none => rfl
    | some p =>
      have hlt : p.index < p.total := hp p rfl
      simp [readPlace, Kind.ofPlace, place_fixedBytes, hlt]
  rw [ofBytes_fixedBytes, hr, Except.map, readRest_fixedBytes]

/-- A place that lies outside its message is rejected, whatever stands behind it. -/
theorem ofBytes_fixedBytes_of_le (sequence : SequenceNumber) {place : Placement}
    (hle : place.total ≤ place.index) (tail : Bytes) :
    ofBytes (fixedBytes sequence (some place) ++ tail) =
      .error (.indexOutOfRange place.index place.total) := by
  have hr : readPlace (fixedBytes sequence (some place) ++ tail) (Kind.ofPlace (some place)) =
      .error (.indexOutOfRange place.index place.total) := by
    simp [readPlace, Kind.ofPlace, place_fixedBytes, UInt16.not_lt.mpr hle]
  rw [ofBytes_fixedBytes, hr, Except.map]

/-- Bytes with the first word of a kind and room for its fields are those fields and a tail. -/
theorem eq_fixedBytes_append {wire : Bytes} {kind : Kind} {place : Option Placement}
    (hm : Kind.ofMagic? (UInt32.ofNat (BigEndian.field 0 4 wire)) = some kind)
    (hl : kind.fixedSize ≤ wire.length) (hp : readPlace wire kind = .ok place) :
    InRange place ∧ Kind.ofPlace place = kind ∧
      wire = fixedBytes (UInt32.ofNat (BigEndian.field 4 4 wire)) place ++
        wire.drop kind.fixedSize := by
  have hmagic : kind.magic.toNat = BigEndian.field 0 4 wire := by
    rw [← Kind.ofMagic?_eq_some_iff.mp hm, BigEndian.toNat_field_word]
  have hstep (offset : Nat) {width : Nat} (h : offset + width ≤ wire.length) :=
    BigEndian.ofNat_field_append h
  cases kind with
  | short =>
    obtain rfl : none = place := by simpa [readPlace] using hp
    simp only [Kind.fixedSize] at hl
    refine ⟨by simp [InRange], rfl, ?_⟩
    rw [fixedBytes_append, BigEndian.toNat_field_word]
    change wire = BigEndian.ofNat 4 Kind.short.magic.toNat ++ (_ ++ wire.drop (4 + 4))
    rw [hstep 4 (by omega), hmagic]
    exact (hstep 0 (by omega)).symm
  | fragmented =>
    simp only [readPlace] at hp
    split at hp
    · rename_i hlt
      obtain rfl := Except.ok.inj hp
      simp only [Kind.fixedSize] at hl
      refine ⟨by simpa [InRange] using hlt, rfl, ?_⟩
      rw [fixedBytes_append]
      simp only [Option.elim, Placement.toBytes, Placement.ofBytes, BigEndian.toNat_field_word,
        BigEndian.toNat_field_halfword, List.append_assoc]
      change wire = BigEndian.ofNat 4 Kind.fragmented.magic.toNat ++
        (_ ++ (_ ++ (_ ++ (_ ++ (_ ++ wire.drop (18 + 2))))))
      rw [hstep 18 (by omega), hstep 16 (by omega), hstep 12 (by omega), hstep 8 (by omega),
        hstep 4 (by omega), hmagic]
      exact (hstep 0 (by omega)).symm
    · cases hp

/-- The bytes that are a datagram are fields in range with any tail behind them. -/
theorem ofBytes_eq_ok_iff {wire : Bytes} {d : Datagram} :
    ofBytes wire = .ok d ↔ ∃ sequence place tail, InRange place ∧
      wire = fixedBytes sequence place ++ tail ∧ d = behind sequence place tail := by
  constructor
  · intro h
    simp only [ofBytes] at h
    split at h
    · cases h
    split at h
    · cases h
    rename_i kind hm
    split at h
    · cases h
    rename_i hl
    cases hp : readPlace wire kind with
    | error cause => simp [hp, Except.map] at h
    | ok place =>
      obtain rfl : readRest wire kind place = d := by simpa [hp, Except.map] using h
      obtain ⟨hr, rfl, hw⟩ := eq_fixedBytes_append hm (Nat.le_of_not_lt hl) hp
      refine ⟨_, place, _, hr, hw, ?_⟩
      have hb := readRest_fixedBytes (UInt32.ofNat (BigEndian.field 4 4 wire)) place
        (wire.drop (Kind.ofPlace place).fixedSize)
      rwa [← hw] at hb
  · rintro ⟨sequence, place, tail, hr, rfl, rfl⟩
    exact ofBytes_fixedBytes_append sequence hr tail

/-- The place of a datagram that was read lies in its message. -/
theorem inRange_of_ofBytes {wire : Bytes} {d : Datagram} (h : ofBytes wire = .ok d) :
    InRange d.header.place := by
  obtain ⟨sequence, place, tail, hr, -, rfl⟩ := ofBytes_eq_ok_iff.mp h
  rwa [behind_place]

/-- The bytes of a packet are its fields of fixed width and what stands behind them. -/
theorem toBytes_eq_append (p : Packet) :
    p.toBytes =
      fixedBytes p.sequence p.place ++ (Utf8.encode p.channel ++ 0 :: p.payload) := by
  have hfixed : p.fixedBytes = fixedBytes p.sequence p.place := rfl
  simp [Packet.toBytes, Packet.headerBytes, hfixed]

/-- A packet is read back if its place lies in its message and its channel name has no zero
character. -/
theorem ofBytes_toBytes {p : Packet} (hp : InRange p.place) (hc : '\x00' ∉ p.channel.toList) :
    ofBytes p.toBytes =
      .ok ⟨⟨p.sequence, p.place, p.channel, true⟩, p.headerBytes, p.payload⟩ := by
  have hn := Utf8.encode_forall_ne hc
  rw [toBytes_eq_append, ofBytes_fixedBytes_append _ hp, behind_append _ _ hn, Utf8.decode_encode]
  rfl

/-- The bytes of the channel name. -/
def nameBytes (d : Datagram) : Bytes :=
  (cutAtZero (d.headerBytes.drop d.header.kind.fixedSize)).1

/-- The channel name of the datagram that a tail makes ends at the first zero byte of the tail. -/
theorem nameBytes_behind (sequence : SequenceNumber) (place : Option Placement) (tail : Bytes) :
    (behind sequence place tail).nameBytes = (cutAtZero tail).1 := by
  have hkind (channel : String) (terminated : Bool) :
      (Header.mk sequence place channel terminated).kind = Kind.ofPlace place := rfl
  obtain ⟨name, hn, ⟨rfl, hc⟩ | ⟨payload, rfl, hc⟩⟩ := cutAtZero_cases tail
  · rw [hc, behind_of_forall_ne _ _ hn, nameBytes, hkind, List.drop_left' (length_fixedBytes ..),
      hc]
  · rw [hc, behind_append _ _ hn, nameBytes, hkind, List.append_assoc,
      List.drop_left' (length_fixedBytes ..), cutAtZero_append hn]

/-- What a datagram says if the header of another one is read again in front of other bytes. -/
structure Rereads (first : Datagram) (joined : Bytes) (d : Datagram) : Prop where
  /-- The fields in front of the channel name stay. -/
  kind : d.header.kind = first.header.kind
  sequence : d.header.sequence = first.header.sequence
  place : d.header.place = first.header.place
  /-- Behind a name that is closed, all bytes are payload. -/
  terminated : first.header.terminated = true →
    d.header = first.header ∧ d.headerBytes = first.headerBytes ∧ d.payload = joined
  /-- A name that is open goes on to the first zero byte. -/
  closed : first.header.terminated = false → ∀ more payload, (∀ b ∈ more, b ≠ 0) →
    joined = more ++ 0 :: payload →
      d.header.channel = Utf8.decode (first.nameBytes ++ more) ∧ d.header.terminated = true ∧
        d.headerBytes = first.headerBytes ++ more ++ [0] ∧ d.payload = payload
  /-- Without a zero byte an open name takes all bytes. -/
  stillOpen : first.header.terminated = false → (∀ b ∈ joined, b ≠ 0) →
    d.header.channel = Utf8.decode (first.nameBytes ++ joined) ∧ d.header.terminated = false ∧
      d.headerBytes = first.headerBytes ++ joined ∧ d.payload = []

private theorem forall_ne_append {name more : Bytes} (hn : ∀ b ∈ name, b ≠ 0)
    (hm : ∀ b ∈ more, b ≠ 0) : ∀ b ∈ name ++ more, b ≠ 0 := by
  intro b hb
  exact (List.mem_append.mp hb).elim (hn b) (hm b)

/-- A header with a closed name is read again as it is. -/
theorem rereads_of_closed (sequence : SequenceNumber) {place : Option Placement}
    (hp : InRange place) {name : Bytes} (hn : ∀ b ∈ name, b ≠ 0) (payload joined : Bytes) :
    ∃ d, ofBytes ((behind sequence place (name ++ 0 :: payload)).headerBytes ++ joined) = .ok d ∧
      Rereads (behind sequence place (name ++ 0 :: payload)) joined d := by
  refine ⟨behind sequence place (name ++ 0 :: joined), ?_, ?_⟩
  · rw [behind_append _ _ hn, List.append_assoc, List.append_assoc]
    exact ofBytes_fixedBytes_append sequence hp (name ++ 0 :: joined)
  · rw [behind_append _ _ hn, behind_append _ _ hn]
    refine ⟨rfl, rfl, rfl, fun _ => ⟨rfl, rfl, rfl⟩, ?_, ?_⟩
    · intro h
      cases h
    · intro h
      cases h

/-- A header with an open name goes on into the bytes behind it. -/
theorem rereads_of_open (sequence : SequenceNumber) {place : Option Placement}
    (hp : InRange place) {name : Bytes} (hn : ∀ b ∈ name, b ≠ 0) (joined : Bytes) :
    ∃ d, ofBytes ((behind sequence place name).headerBytes ++ joined) = .ok d ∧
      Rereads (behind sequence place name) joined d := by
  have hname : (behind sequence place name).nameBytes = name := by
    rw [nameBytes_behind, cutAtZero_of_forall_ne hn]
  refine ⟨behind sequence place (name ++ joined), ?_, ?_⟩
  · rw [behind_of_forall_ne _ _ hn, List.append_assoc]
    exact ofBytes_fixedBytes_append sequence hp (name ++ joined)
  · refine ⟨by simp [Header.kind], by simp, by simp, ?_, ?_, ?_⟩
    · rw [behind_of_forall_ne _ _ hn]
      intro h
      cases h
    · rintro - more payload hm rfl
      rw [hname, ← List.append_assoc, behind_append _ _ (forall_ne_append hn hm),
        behind_of_forall_ne _ _ hn]
      simp
    · intro _ hj
      rw [hname, behind_of_forall_ne _ _ (forall_ne_append hn hj), behind_of_forall_ne _ _ hn]
      simp

/-- A header that was read is read again in front of any bytes. -/
theorem exists_rereads {wire : Bytes} {first : Datagram} (h : ofBytes wire = .ok first)
    (joined : Bytes) :
    ∃ d, ofBytes (first.headerBytes ++ joined) = .ok d ∧ Rereads first joined d := by
  obtain ⟨sequence, place, tail, hr, -, rfl⟩ := ofBytes_eq_ok_iff.mp h
  obtain ⟨name, hn, ⟨rfl, -⟩ | ⟨payload, rfl, -⟩⟩ := cutAtZero_cases tail
  · exact rereads_of_open sequence hr hn joined
  · exact rereads_of_closed sequence hr hn payload joined

end Datagram

end LcmWire
