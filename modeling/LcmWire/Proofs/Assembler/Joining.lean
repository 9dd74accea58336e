import LcmWire.Assembler.Receive
import LcmWire.Table.Lemmas

/-!
# One sequence number at a time

A call forgets what is over and then meets the assembly of one sequence number at most. `join` says
what a fragment does to the assembly that it meets, without the assembler around it; the main
statements `receive_of_hasRoom`, `receive_of_not_hasRoom` and `get?_receive_of_ne` say that a call
does this and nothing else.
-/

namespace LcmWire

namespace Assembly

/-- The assembly is still held once a call at this time has forgotten what is over. -/
def survives (m : Assembly) (now : Time) : Bool := !m.complete && !m.isStale now

theorem survives_iff {m : Assembly} {now : Time} :
    m.survives now = true ↔ m.complete = false ∧ now - m.lastSeen ≤ timeout := by
  simp [survives, isStale]

/-- What survives a call would have survived an earlier one. -/
theorem survives_of_le {m : Assembly} {earlier later : Time} (h : earlier ≤ later)
    (hm : m.survives later = true) : m.survives earlier = true := by
  rw [survives_iff] at hm ⊢
  exact ⟨hm.1, Nat.le_trans (Nat.sub_le_sub_right h _) hm.2⟩

/-- What becomes of an assembly that a fragment joins, and what is answered. -/
structure Joined where
  /-- The assembly, unless it is dropped. -/
  kept : Option Assembly
  /-- What the sender of the fragment is told. -/
  answer : Except Refusal (Option Message)

/-- Hand out the message of an assembly, unless fragments are missing. -/
def close (m : Assembly) (sequence : SequenceNumber) : Joined :=
  match m.join? with
  | none => ⟨some m, .ok none⟩
  | some wire =>
    match Datagram.ofBytes wire with
    | .ok d => ⟨some { m with complete := true }, .ok (some ⟨d, m.total⟩)⟩
    | .error cause => ⟨some { m with complete := true }, .error (.unreadable sequence cause)⟩

/-- What a fragment does to the assembly that it joins. -/
def join (limits : Limits) (m : Assembly) (d : Datagram) (place : Placement) (now : Time) :
    Joined :=
  let grown := m.add place.index d now
  match (Assembler.start limits).checkSize d.header.sequence grown.bufferedSize with
  | .error cause => ⟨none, .error cause⟩
  | .ok () => if place.isLast then grown.close d.header.sequence else ⟨some grown, .ok none⟩

/-- The limit on payload bytes refuses what exceeds it and nothing else. -/
theorem checkSize_cases (a : Assembler) (sequence : SequenceNumber) (attempted : Nat) :
    (∃ limit, a.limits.messageSize = some limit ∧ limit < attempted ∧
      a.checkSize sequence attempted = .error (.oversized sequence attempted limit)) ∨
    (∀ limit, a.limits.messageSize = some limit → attempted ≤ limit) ∧
      a.checkSize sequence attempted = .ok () := by
  unfold Assembler.checkSize
  cases hl : a.limits.messageSize with
  | none => exact .inr ⟨by simp, rfl⟩
  | some limit =>
    by_cases h : limit < attempted
    · exact .inl ⟨limit, rfl, h, by simp [h]⟩
    · refine .inr ⟨?_, by simp [h]⟩
      intro other he
      rw [← Option.some.inj he]
      exact Nat.le_of_not_lt h

/-- Closing an assembly leaves it as it is, or completes it. -/
theorem close_cases (m : Assembly) (sequence : SequenceNumber) :
    m.join? = none ∧ m.close sequence = ⟨some m, .ok none⟩ ∨
    ∃ wire, m.join? = some wire ∧
      ((∃ d, Datagram.ofBytes wire = .ok d ∧
        m.close sequence = ⟨some { m with complete := true }, .ok (some ⟨d, m.total⟩)⟩) ∨
      ∃ cause, Datagram.ofBytes wire = .error cause ∧
        m.close sequence =
          ⟨some { m with complete := true }, .error (.unreadable sequence cause)⟩) := by
  unfold close
  cases hj : m.join? with
  | none => exact .inl ⟨rfl, rfl⟩
  | some wire =>
    refine .inr ⟨wire, rfl, ?_⟩
    cases hr : Datagram.ofBytes wire with
    | ok d => exact .inl ⟨d, rfl, by simp [hr]⟩
    | error cause => exact .inr ⟨cause, rfl, by simp [hr]⟩

/-- A fragment makes its assembly too large, or leaves it waiting, or closes it. -/
theorem join_cases (limits : Limits) (m : Assembly) (d : Datagram) (place : Placement)
    (now : Time) :
    let grown := m.add place.index d now
    (∃ limit, limits.messageSize = some limit ∧ limit < grown.bufferedSize ∧
      m.join limits d place now =
        ⟨none, .error (.oversized d.header.sequence grown.bufferedSize limit)⟩) ∨
    (∀ limit, limits.messageSize = some limit → grown.bufferedSize ≤ limit) ∧
      (place.isLast = false ∧ m.join limits d place now = ⟨some grown, .ok none⟩ ∨
        place.isLast = true ∧ m.join limits d place now = grown.close d.header.sequence) := by
  intro grown
  rcases checkSize_cases (Assembler.start limits) d.header.sequence grown.bufferedSize with
    ⟨limit, hl, hlt, hc⟩ | ⟨hl, hc⟩
  · exact .inl ⟨limit, hl, hlt, by simp only [join, grown, hc]⟩
  · refine .inr ⟨hl, ?_⟩
    cases hp : place.isLast with
    | false => exact .inl ⟨rfl, by simp [join, grown, hc, hp]⟩
    | true => exact .inr ⟨rfl, by simp [join, grown, hc, hp]⟩

/-- An assembly that is kept has the fragment and may be complete, but is otherwise what it was. -/
theorem eq_of_kept_join {limits : Limits} {m kept : Assembly} {d : Datagram} {place : Placement}
    {now : Time} (h : (m.join limits d place now).kept = some kept) :
    kept = m.add place.index d now ∨
      kept = { m.add place.index d now with complete := true } := by
  rcases join_cases limits m d place now with ⟨limit, -, -, hj⟩ | ⟨-, ⟨-, hj⟩ | ⟨-, hj⟩⟩
  · rw [hj] at h
    cases h
  · rw [hj] at h
    exact .inl (Option.some.inj h).symm
  · rw [hj] at h
    rcases close_cases (m.add place.index d now) d.header.sequence with
      ⟨-, hc⟩ | ⟨wire, -, ⟨whole, -, hc⟩ | ⟨cause, -, hc⟩⟩
    · rw [hc] at h
      exact .inl (Option.some.inj h).symm
    · rw [hc] at h
      exact .inr (Option.some.inj h).symm
    · rw [hc] at h
      exact .inr (Option.some.inj h).symm

end Assembly

namespace Assembler

/-- Put the assembly of a sequence number in the place of the one that is held, or take it away. -/
def settle (a : Assembler) (sequence : SequenceNumber) : Option Assembly → Assembler
  | some m => a.hold sequence m
  | none => a.forget sequence

@[simp] theorem limits_settle (a : Assembler) (sequence : SequenceNumber) (o : Option Assembly) :
    (a.settle sequence o).limits = a.limits := by
  cases o <;> rfl

/-- Settling changes the answer for one sequence number only. -/
theorem get?_settle (a : Assembler) (sequence other : SequenceNumber) (o : Option Assembly) :
    (a.settle sequence o).assemblies.get? other =
      if other = sequence then o else a.assemblies.get? other := by
  cases o with
  | some m => exact Table.get?_insert ..
  | none => exact Table.get?_erase ..

/-- The assembly of a sequence number that a call at this time finds. -/
def found? (a : Assembler) (sequence : SequenceNumber) (now : Time) : Option Assembly :=
  (a.evict now).assemblies.get? sequence

theorem found?_eq (a : Assembler) (sequence : SequenceNumber) (now : Time) :
    a.found? sequence now = (a.assemblies.get? sequence).filter (·.survives now) :=
  Table.get?_filter ..

@[simp] theorem limits_evict (a : Assembler) (now : Time) : (a.evict now).limits = a.limits := rfl

/-- A fragment of the sequence number is let in: its message is held, or there is room for it. -/
def HasRoom (a : Assembler) (sequence : SequenceNumber) (now : Time) : Prop :=
  a.found? sequence now = none → ∀ limit, a.limits.inFlight = some limit →
    (a.evict now).size < limit

/-- The assembly that a fragment joins if it is let in. -/
def joined (a : Assembler) (sequence : SequenceNumber) (total : UInt16) (now : Time) : Assembly :=
  (a.found? sequence now).getD (.start total now)

/-- A fragment joins the assembly that is found, or starts one. -/
theorem joined_cases (a : Assembler) (sequence : SequenceNumber) (total : UInt16) (now : Time) :
    a.found? sequence now = some (a.joined sequence total now) ∨
      a.joined sequence total now = .start total now := by
  unfold joined
  cases a.found? sequence now with
  | some m => exact .inl rfl
  | none => exact .inr rfl

theorem assemblyFor_of_hasRoom {a : Assembler} {sequence : SequenceNumber} {now : Time}
    (h : a.HasRoom sequence now) (total : UInt16) :
    (a.evict now).assemblyFor sequence total now = .ok (a.joined sequence total now) := by
  unfold assemblyFor joined
  cases hf : a.found? sequence now with
  | some m =>
    rw [found?] at hf
    simp only [hf, Option.getD_some]
  | none =>
    have hl := h hf
    rw [found?] at hf
    simp only [hf, Option.getD_none, limits_evict]
    cases hi : a.limits.inFlight with
    | none => rfl
    | some limit => simp [Nat.not_le_of_lt (hl limit hi)]

theorem assemblyFor_of_not_hasRoom {a : Assembler} {sequence : SequenceNumber} {now : Time}
    (h : ¬ a.HasRoom sequence now) (total : UInt16) :
    ∃ limit, a.limits.inFlight = some limit ∧ limit ≤ (a.evict now).size ∧
      a.found? sequence now = none ∧
      (a.evict now).assemblyFor sequence total now = .error (.full limit) := by
  simp only [HasRoom, Classical.not_forall, Nat.not_lt] at h
  obtain ⟨hf, limit, hi, hle⟩ := h
  refine ⟨limit, hi, hle, hf, ?_⟩
  rw [found?] at hf
  simp [assemblyFor, hf, hi, hle]

/-- Handing out a message is closing its assembly. -/
theorem finish_eq_close (a : Assembler) (sequence : SequenceNumber) (m : Assembly) :
    (a.finish sequence m).state = a.settle sequence (m.close sequence).kept ∧
      (a.finish sequence m).answer = (m.close sequence).answer := by
  unfold finish Assembly.close
  cases m.join? with
  | none => exact ⟨rfl, rfl⟩
  | some wire => cases hr : Datagram.ofBytes wire <;> simp [hr, settle]

/-- Taking in a fragment that is let in is joining its assembly. -/
theorem accept_eq_join {a : Assembler} {d : Datagram} {place : Placement} {now : Time}
    {m : Assembly} (h : a.assemblyFor d.header.sequence place.total now = .ok m) :
    (a.accept d place now).state =
        a.settle d.header.sequence (m.join a.limits d place now).kept ∧
      (a.accept d place now).answer = (m.join a.limits d place now).answer := by
  have hc (attempted : Nat) : (start a.limits).checkSize d.header.sequence attempted =
      a.checkSize d.header.sequence attempted := rfl
  simp only [accept, h, Assembly.join, hc]
  cases a.checkSize d.header.sequence (m.add place.index d now).bufferedSize with
  | error cause => exact ⟨rfl, rfl⟩
  | ok =>
    cases place.isLast with
    | false => exact ⟨rfl, rfl⟩
    | true => exact finish_eq_close a d.header.sequence (m.add place.index d now)

/-- Once let in, a fragment joins its assembly, and nothing else happens. -/
theorem receive_of_hasRoom {a : Assembler} {d : Datagram} {place : Placement} {now : Time}
    (hp : d.header.place = some place) (h : a.HasRoom d.header.sequence now) :
    let joined := (a.joined d.header.sequence place.total now).join a.limits d place now
    (a.receive d now).state = (a.evict now).settle d.header.sequence joined.kept ∧
      (a.receive d now).answer = joined.answer := by
  have ha := accept_eq_join (assemblyFor_of_hasRoom h place.total)
  simpa [receive, sweep, take, hp] using ha

/-- A fragment for which there is no room is refused, and nothing else happens. -/
theorem receive_of_not_hasRoom {a : Assembler} {d : Datagram} {place : Placement} {now : Time}
    (hp : d.header.place = some place) (h : ¬ a.HasRoom d.header.sequence now) :
    ∃ limit, a.limits.inFlight = some limit ∧ limit ≤ (a.evict now).size ∧
      a.found? d.header.sequence now = none ∧
      (a.receive d now).state = a.evict now ∧ (a.receive d now).answer = .error (.full limit) := by
  obtain ⟨limit, hi, hle, hf, ha⟩ := assemblyFor_of_not_hasRoom h place.total
  refine ⟨limit, hi, hle, hf, ?_⟩
  simp [receive, sweep, take, hp, accept, ha]

/-- A whole message is handed on, and nothing else happens. -/
theorem receive_of_short {a : Assembler} {d : Datagram} {now : Time} (hp : d.header.place = none) :
    (a.receive d now).state = a.evict now ∧ (a.receive d now).answer = .ok (some ⟨d, 1⟩) := by
  simp [receive, sweep, take, hp]

@[simp] theorem limits_receive (a : Assembler) (d : Datagram) (now : Time) :
    (a.receive d now).state.limits = a.limits := by
  cases hp : d.header.place with
  | none => rw [(receive_of_short hp).1, limits_evict]
  | some place =>
    by_cases h : a.HasRoom d.header.sequence now
    · rw [(receive_of_hasRoom hp h).1, limits_settle, limits_evict]
    · obtain ⟨limit, -, -, -, hs, -⟩ := receive_of_not_hasRoom hp h
      rw [hs, limits_evict]

/-- Datagrams of other sequence numbers do to an assembly what forgetting does. -/
theorem get?_receive_of_ne {a : Assembler} {d : Datagram} {sequence : SequenceNumber}
    (h : sequence ≠ d.header.sequence) (now : Time) :
    (a.receive d now).state.assemblies.get? sequence = a.found? sequence now := by
  cases hp : d.header.place with
  | none => rw [(receive_of_short hp).1, found?]
  | some place =>
    by_cases hr : a.HasRoom d.header.sequence now
    · rw [(receive_of_hasRoom hp hr).1, get?_settle, if_neg h, found?]
    · obtain ⟨limit, -, -, -, hs, -⟩ := receive_of_not_hasRoom hp hr
      rw [hs, found?]

end Assembler

end LcmWire
