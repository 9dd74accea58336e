import LcmWire.Proofs.Datagram.Cursor

/-!
# The grammar of datagrams

The positions of its fields alone tell which datagram bytes are (`Spelled`), and of bytes that are
none the first check that fails tells the cause (`Checked`). The main statement `ofBytes_grammar`
says of every outcome when it is the one that reading gives, and that no check comes too late to
keep an access within the bytes.
-/

namespace LcmWire

open BigEndian (number)

namespace BigEndian

theorem eq_field_word_iff {n : UInt32} {offset : Nat} {bytes : Bytes} :
    n = UInt32.ofNat (field offset 4 bytes) ↔ n.toNat = number offset (offset + 4) bytes := by
  rw [← UInt32.toNat_inj, toNat_field_word, field_eq_number]

theorem eq_field_halfword_iff {n : UInt16} {offset : Nat} {bytes : Bytes} :
    n = UInt16.ofNat (field offset 2 bytes) ↔ n.toNat = number offset (offset + 2) bytes := by
  rw [← UInt16.toNat_inj, toNat_field_halfword, field_eq_number]

end BigEndian

/-- The fields of a fragment have the numbers that stand at their positions. -/
theorem Placement.eq_ofBytes_iff {wire : Bytes} {place : Placement} :
    place = Placement.ofBytes wire ↔
      place.messageSize.toNat = number 8 12 wire ∧ place.offset.toNat = number 12 16 wire ∧
      place.index.toNat = number 16 18 wire ∧ place.total.toNat = number 18 20 wire := by
  cases place
  simp only [Placement.ofBytes, Placement.mk.injEq, BigEndian.eq_field_word_iff,
    BigEndian.eq_field_halfword_iff]

namespace Datagram

/-- What the bytes of a datagram of some kind say, by their positions. -/
structure Spelled (wire : Bytes) (kind : Kind) (d : Datagram) : Prop where
  /-- The header and the payload are all bytes. -/
  append : d.headerBytes ++ d.payload = wire
  /-- Behind the fields of fixed width stands the channel name, which has no zero byte. One closes
  it, in front of the payload, or the name takes the rest of the bytes. -/
  name : ∃ name, (∀ b ∈ name, b ≠ 0) ∧ d.header.channel = Utf8.decode name ∧
    (d.header.terminated = true ∧ d.headerBytes = wire.take kind.fixedSize ++ name ++ [0] ∨
      d.header.terminated = false ∧ d.headerBytes = wire ∧
        wire = wire.take kind.fixedSize ++ name ∧ d.payload = [])
  sequence : d.header.sequence.toNat = number 4 8 wire
  /-- A whole message has no place. -/
  short : kind = .short → d.header.place = none
  /-- A fragment has one, which lies in its message. -/
  fragmented : kind = .fragmented → ∃ place, d.header.place = some place ∧
    place.messageSize.toNat = number 8 12 wire ∧ place.offset.toNat = number 12 16 wire ∧
    place.index.toNat = number 16 18 wire ∧ place.total.toNat = number 18 20 wire ∧
    place.index < place.total

/-- What comes of reading bytes. The checks are made in the order of the cases: each case but the
first says that the checks before it were passed. -/
inductive Checked (wire : Bytes) : Except Malformed Datagram → Prop
  /-- The bytes end within the first word. -/
  | noMagic (cut : wire.length < 4) : Checked wire (.error (.truncated 4 wire.length))
  /-- The first word is neither of the two that announce a kind. -/
  | unknownMagic (word : UInt32) (room : 4 ≤ wire.length) (word_eq : word.toNat = number 0 4 wire)
      (not_short : word ≠ 0x4C433032) (not_fragmented : word ≠ 0x4C433033) :
      Checked wire (.error (.unknownMagic word))
  /-- The bytes end within the fields of fixed width. -/
  | noFields (kind : Kind) (room : 4 ≤ wire.length) (magic : number 0 4 wire = kind.magic.toNat)
      (cut : wire.length < kind.fixedSize) :
      Checked wire (.error (.truncated kind.fixedSize wire.length))
  /-- The position of a fragment is not one of those that its message has. -/
  | outOfRange (index : FragmentIndex) (total : UInt16) (room : 20 ≤ wire.length)
      (magic : number 0 4 wire = 0x4C433033) (index_eq : index.toNat = number 16 18 wire)
      (total_eq : total.toNat = number 18 20 wire) (le : total ≤ index) :
      Checked wire (.error (.indexOutOfRange index total))
  /-- The bytes are a datagram. -/
  | read (kind : Kind) (d : Datagram) (room : kind.fixedSize ≤ wire.length)
      (magic : number 0 4 wire = kind.magic.toNat) (spelled : Spelled wire kind d) :
      Checked wire (.ok d)

variable {wire : Bytes} {kind : Kind}

/-- With the first word of a kind, its fields are read if there is room for them. -/
theorem ofBytes_of_magic (hl : 4 ≤ wire.length) (hm : number 0 4 wire = kind.magic.toNat) :
    ofBytes wire =
      if wire.length < kind.fixedSize then .error (.truncated kind.fixedSize wire.length)
      else (readPlace wire kind).map (readRest wire kind) := by
  have hword : kind.magic = UInt32.ofNat (BigEndian.field 0 4 wire) :=
    BigEndian.eq_field_word_iff.mpr hm.symm
  have hroom : ¬wire.length < Kind.magicSize := Nat.not_lt.mpr hl
  simp only [ofBytes, if_neg hroom, ← hword, Kind.ofMagic?_magic]

/-- The place of a fragment is rejected exactly if its position is none of its message. -/
theorem readPlace_fragmented_eq_error_iff {cause : Malformed} :
    readPlace wire .fragmented = .error cause ↔ ∃ place, place = Placement.ofBytes wire ∧
      place.total ≤ place.index ∧ cause = .indexOutOfRange place.index place.total := by
  rw [readPlace]
  split
  · rename_i hlt
    simp [UInt16.not_le.mpr hlt]
  · rename_i hge
    simp [UInt16.not_lt.mp hge, eq_comm]

/-- The place is read exactly if its position is one of its message. -/
theorem exists_readPlace_iff : (∃ place, readPlace wire kind = .ok place) ↔
    (kind = .fragmented → number 16 18 wire < number 18 20 wire) := by
  cases kind with
  | short => simp [readPlace]
  | fragmented =>
    obtain ⟨-, -, hindex, htotal⟩ :=
      Placement.eq_ofBytes_iff.mp (Eq.refl (Placement.ofBytes wire))
    rw [← hindex, ← htotal, ← UInt16.lt_iff_toNat_lt, readPlace]
    split
    · rename_i hlt
      simp [hlt]
    · rename_i hge
      simp [hge]

/-- What is read behind fields of fixed width with a valid place is spelled as it is read. -/
theorem spelled_readRest {place : Option Placement} (hp : readPlace wire kind = .ok place) :
    Spelled wire kind (readRest wire kind place) := by
  have hheader : (readRest wire kind place).header.place = place ∧
      (readRest wire kind place).header.sequence = UInt32.ofNat (BigEndian.field 4 4 wire) := by
    unfold readRest
    split <;> exact ⟨rfl, rfl⟩
  have hwire := List.take_append_drop kind.fixedSize wire
  constructor
  case append => exact readRest_append wire kind place
  case name =>
    obtain ⟨name, hn, ⟨hd, hc⟩ | ⟨payload, hd, hc⟩⟩ := cutAtZero_cases (wire.drop kind.fixedSize)
    · refine ⟨name, hn, ?_, .inr ?_⟩
      · simp only [readRest, hc]
      · simp only [readRest, hc, true_and, and_true]
        rw [← hd, hwire]
    · have htake : (wire.drop kind.fixedSize).take (name.length + 1) = name ++ [0] := by
        rw [hd, List.take_length_add_append]
        rfl
      refine ⟨name, hn, ?_, .inl ?_⟩
      · simp only [readRest, hc]
      · simp only [readRest, hc, List.take_add, htake, List.append_assoc, true_and]
  case sequence => exact BigEndian.eq_field_word_iff.mp hheader.2
  case short =>
    rintro rfl
    cases hp
    exact hheader.1
  case fragmented =>
    rintro rfl
    rw [readPlace] at hp
    split at hp
    · rename_i hlt
      cases hp
      obtain ⟨hsize, hoffset, hindex, htotal⟩ := Placement.eq_ofBytes_iff.mp rfl
      exact ⟨_, hheader.1, hsize, hoffset, hindex, htotal, hlt⟩
    · cases hp

namespace Spelled

variable {d : Datagram}

/-- The place that bytes spell is the one that is read. -/
theorem readPlace_eq (h : Spelled wire kind d) : readPlace wire kind = .ok d.header.place := by
  cases kind with
  | short =>
    rw [h.short rfl]
    rfl
  | fragmented =>
    obtain ⟨place, hp, hsize, hoffset, hindex, htotal, hlt⟩ := h.fragmented rfl
    have hplace := Placement.eq_ofBytes_iff.mpr ⟨hsize, hoffset, hindex, htotal⟩
    rw [hp, readPlace, ← hplace, if_pos hlt]

/-- The datagram that bytes spell is the one that is read. -/
theorem eq_readRest (h : Spelled wire kind d) (hl : kind.fixedSize ≤ wire.length) :
    d = readRest wire kind d.header.place := by
  obtain ⟨⟨sequence, place, channel, terminated⟩, headerBytes, payload⟩ := d
  obtain ⟨happend, ⟨name, hn, hchannel, hname⟩, hsequence, -, -⟩ := h
  have hwire := List.take_append_drop kind.fixedSize wire
  have hnumber := BigEndian.eq_field_word_iff.mpr hsequence
  simp only at happend hchannel hname hnumber
  rcases hname with ⟨hclosed, hheader⟩ | ⟨hopen, hheader, hall, hpayload⟩
  · have hdrop : wire.drop kind.fixedSize = name ++ 0 :: payload := by
      apply List.append_cancel_left
      calc wire.take kind.fixedSize ++ wire.drop kind.fixedSize
        _ = wire := hwire
        _ = headerBytes ++ payload := happend.symm
        _ = wire.take kind.fixedSize ++ (name ++ 0 :: payload) := by simp [hheader]
    have htake : wire.take (kind.fixedSize + (name.length + 1)) = headerBytes := by
      rw [← happend]
      apply List.take_left'
      rw [hheader, List.length_append, List.length_append, List.length_take,
        Nat.min_eq_left hl, List.length_singleton, Nat.add_assoc]
    simp only [readRest, hdrop, cutAtZero_append hn, htake, hclosed, hchannel, hnumber]
  · have hdrop : wire.drop kind.fixedSize = name :=
      List.append_cancel_left (hwire.trans hall)
    simp only [readRest, hdrop, cutAtZero_of_forall_ne hn, hopen, hheader, hpayload, hchannel,
      hnumber]

end Spelled

/-- Reading makes the checks in their order. -/
theorem checked_ofBytes (wire : Bytes) : Checked wire (ofBytes wire) := by
  by_cases hl : wire.length < 4
  · have h : ofBytes wire = .error (.truncated 4 wire.length) := if_pos hl
    rw [h]
    exact .noMagic hl
  have hmagic := Nat.le_of_not_lt hl
  cases hk : Kind.ofMagic? (UInt32.ofNat (BigEndian.field 0 4 wire)) with
  | none =>
    have hnot (kind : Kind) : UInt32.ofNat (BigEndian.field 0 4 wire) ≠ kind.magic := by
      intro heq
      rw [heq, Kind.ofMagic?_magic] at hk
      cases hk
    have h : ofBytes wire = .error (.unknownMagic (UInt32.ofNat (BigEndian.field 0 4 wire))) := by
      simp only [ofBytes, Kind.magicSize, if_neg hl, hk]
    rw [h]
    exact .unknownMagic _ hmagic (BigEndian.eq_field_word_iff.mp rfl) (hnot .short)
      (hnot .fragmented)
  | some kind =>
    have hnumber : number 0 4 wire = kind.magic.toNat := by
      rw [← Kind.ofMagic?_eq_some_iff.mp hk]
      exact (BigEndian.eq_field_word_iff.mp rfl).symm
    rw [ofBytes_of_magic hmagic hnumber]
    by_cases hfixed : wire.length < kind.fixedSize
    · rw [if_pos hfixed]
      exact .noFields kind hmagic hnumber hfixed
    have hroom := Nat.le_of_not_lt hfixed
    rw [if_neg hfixed]
    cases hp : readPlace wire kind with
    | ok place => exact .read kind _ hroom hnumber (spelled_readRest hp)
    | error cause =>
      cases kind with
      | short => cases hp
      | fragmented =>
        obtain ⟨place, hplace, hle, rfl⟩ := readPlace_fragmented_eq_error_iff.mp hp
        obtain ⟨-, -, hindex, htotal⟩ := Placement.eq_ofBytes_iff.mp hplace
        exact .outOfRange _ _ hroom hnumber hindex htotal hle

/-- An outcome of the checks is what reading gives. -/
theorem Checked.ofBytes_eq {outcome : Except Malformed Datagram} (h : Checked wire outcome) :
    ofBytes wire = outcome := by
  cases h with
  | noMagic cut => exact if_pos cut
  | unknownMagic word room word_eq not_short not_fragmented =>
    have hnone : Kind.ofMagic? word = none := by
      have hshort : word ≠ Kind.short.magic := not_short
      have hfragmented : word ≠ Kind.fragmented.magic := not_fragmented
      rw [Kind.ofMagic?, if_neg hshort, if_neg hfragmented]
    have hroom : ¬wire.length < Kind.magicSize := Nat.not_lt.mpr room
    simp only [ofBytes, if_neg hroom, ← BigEndian.eq_field_word_iff.mpr word_eq, hnone]
  | noFields kind room magic cut =>
    rw [ofBytes_of_magic room magic, if_pos cut]
  | outOfRange index total room magic index_eq total_eq le =>
    have herror : readPlace wire .fragmented = .error (.indexOutOfRange index total) := by
      have hplace := Placement.eq_ofBytes_iff.mp (Eq.refl (Placement.ofBytes wire))
      obtain rfl : index = (Placement.ofBytes wire).index :=
        UInt16.toNat_inj.mp (index_eq.trans hplace.2.2.1.symm)
      obtain rfl : total = (Placement.ofBytes wire).total :=
        UInt16.toNat_inj.mp (total_eq.trans hplace.2.2.2.symm)
      exact readPlace_fragmented_eq_error_iff.mpr ⟨_, rfl, le, rfl⟩
    have hword : 4 ≤ wire.length := Nat.le_trans (by decide) room
    have hkind : number 0 4 wire = Kind.fragmented.magic.toNat := magic
    have hfields : Kind.fragmented.fixedSize ≤ wire.length := room
    rw [ofBytes_of_magic hword hkind, if_neg (Nat.not_lt.mpr hfields), herror]
    rfl
  | read kind d room magic spelled =>
    have hword := Nat.le_trans kind.magicSize_le_fixedSize room
    rw [ofBytes_of_magic hword magic, if_neg (Nat.not_lt.mpr room), spelled.readPlace_eq]
    exact congrArg Except.ok (spelled.eq_readRest room).symm

/-- Bytes are read exactly as the grammar has it, whichever outcome that is: the first check that
fails gives the cause, and what passes them all is the datagram that the bytes spell. A reader that
takes the same steps with a cursor never leaves the bytes. -/
theorem ofBytes_grammar (wire : Bytes) :
    ofBytesByCursor? wire = some (ofBytes wire) ∧
    (∀ outcome, ofBytes wire = outcome ↔ Checked wire outcome) ∧
    ((∃ d, ofBytes wire = .ok d) ↔ ∃ kind : Kind, kind.fixedSize ≤ wire.length ∧
      number 0 4 wire = kind.magic.toNat ∧
      (kind = .fragmented → number 16 18 wire < number 18 20 wire)) := by
  refine ⟨ofBytesByCursor?_eq wire, fun outcome => ?_, ?_⟩
  · constructor
    · rintro rfl
      exact checked_ofBytes wire
    · exact Checked.ofBytes_eq
  constructor
  · rintro ⟨d, hd⟩
    have hchecked := checked_ofBytes wire
    rw [hd] at hchecked
    cases hchecked with
    | read kind d room magic spelled =>
      exact ⟨kind, room, magic, exists_readPlace_iff.mp ⟨_, spelled.readPlace_eq⟩⟩
  · rintro ⟨kind, room, magic, hlt⟩
    obtain ⟨place, hplace⟩ := exists_readPlace_iff.mpr hlt
    exact ⟨_, (Checked.read kind _ room magic (spelled_readRest hplace)).ofBytes_eq⟩

end Datagram

end LcmWire
