import LcmWire.Packet.Basic
import LcmWire.Proofs.Assembler.Run
import Mathlib.Data.List.Induction

/-!
# Independence of sequence numbers

Without a limit on the number of messages, and as long as the clock does not go back, what is
answered to the fragments of one sequence number depends on them alone. Other calls can only make an
assembly be forgotten, and only one that the next fragment of its own would not find either
(`AgreeFrom`), so leaving the other calls out changes no answer (`AgreeFrom.trace_filter`).
-/

namespace LcmWire

/-- The call brings a fragment of the sequence number. -/
def Call.brings (sequence : SequenceNumber) : Call Bytes → Bool
  | give wire _ =>
    match Datagram.ofBytes wire with
    | .ok d => d.header.place.isSome && d.header.sequence == sequence
    | .error _ => false
  | sweep _ => false

theorem Call.brings_give_iff {sequence : SequenceNumber} {wire : Bytes} {now : Time} :
    (give wire now).brings sequence = true ↔ ∃ d place, Datagram.ofBytes wire = .ok d ∧
      d.header.place = some place ∧ d.header.sequence = sequence := by
  simp only [brings]
  cases Datagram.ofBytes wire with
  | error cause => simp
  | ok d => simp [Option.isSome_iff_exists]

namespace Assembler

/-- From some time on, no call can tell two assemblers apart by one sequence number. -/
structure AgreeFrom (sequence : SequenceNumber) (since : Time) (a b : Assembler) : Prop where
  limits_eq : a.limits = b.limits
  found_eq : ∀ now, since ≤ now → a.found? sequence now = b.found? sequence now

theorem AgreeFrom.refl (sequence : SequenceNumber) (since : Time) (a : Assembler) :
    AgreeFrom sequence since a a := ⟨rfl, fun _ _ => rfl⟩

/-- What no call can tell apart, no later one can. -/
theorem AgreeFrom.later {sequence : SequenceNumber} {since later : Time} {a b : Assembler}
    (h : AgreeFrom sequence since a b) (hle : since ≤ later) : AgreeFrom sequence later a b :=
  ⟨h.limits_eq, fun now hnow => h.found_eq now (Nat.le_trans hle hnow)⟩

/-- What an earlier call forgets is not found later either. -/
theorem found?_of_get?_eq_found? {a b : Assembler} {sequence : SequenceNumber} {earlier : Time}
    (h : b.assemblies.get? sequence = a.found? sequence earlier) {now : Time}
    (hle : earlier ≤ now) : b.found? sequence now = a.found? sequence now := by
  rw [found?_eq, h, found?_eq, found?_eq, Option.filter_filter]
  congr 1
  ext m
  cases hm : m.survives now with
  | false => exact Bool.and_false _
  | true => rw [Assembly.survives_of_le hle hm, Bool.and_self]

/-- A call that brings no fragment of a sequence number leaves its assembly, whatever the assembler
holds, or forgets what is over. -/
theorem get?_callBytes_of_not_brings {c : Call Bytes} {sequence : SequenceNumber}
    (h : c.brings sequence = false) :
    (∀ a : Assembler,
      (a.callBytes c).1.assemblies.get? sequence = a.assemblies.get? sequence) ∨
    ∀ a : Assembler, (a.callBytes c).1.assemblies.get? sequence = a.found? sequence c.now := by
  cases c with
  | sweep now => exact .inr fun _ => rfl
  | give wire now =>
    cases hw : Datagram.ofBytes wire with
    | error cause =>
      refine .inl fun a => ?_
      rw [callBytes_of_error hw]
    | ok d =>
      refine .inr fun a => ?_
      rw [callBytes_of_ok hw]
      cases hp : d.header.place with
      | none => rw [(receive_of_short hp).1, found?]; rfl
      | some place =>
        have hne : sequence ≠ d.header.sequence := by
          rintro rfl
          have hb : (Call.give wire now).brings d.header.sequence = true :=
            Call.brings_give_iff.mpr ⟨d, place, hw, hp, rfl⟩
          rw [h] at hb
          cases hb
        exact get?_receive_of_ne hne now

/-- A sequence number of which no fragment ever came is not held. -/
theorem get?_after_of_not_brings (limits : Limits) {sequence : SequenceNumber}
    {calls : List (Call Bytes)} (h : ∀ c ∈ calls, c.brings sequence = false) :
    (Run.after callBytes (.start limits) calls).assemblies.get? sequence = none := by
  induction calls using List.reverseRecOn with
  | nil => rfl
  | append_singleton calls c ih =>
    have hnone := ih fun e he => h e (List.mem_append_left _ he)
    rw [Run.after_concat]
    rcases get?_callBytes_of_not_brings (h c (by simp)) with hg | hg
    · rw [hg, hnone]
    · rw [hg, found?_eq, hnone]
      rfl

/-- Such a call changes nothing that a later one can tell. -/
theorem AgreeFrom.callBytes_left {sequence : SequenceNumber} {since : Time} {a b : Assembler}
    {c : Call Bytes} (h : AgreeFrom sequence since a b) (hle : since ≤ c.now)
    (hc : c.brings sequence = false) : AgreeFrom sequence c.now (a.callBytes c).1 b := by
  refine ⟨(limits_callBytes a c).trans h.limits_eq, ?_⟩
  intro now hnow
  rw [← h.found_eq now (Nat.le_trans hle hnow)]
  rcases get?_callBytes_of_not_brings hc with hg | hg
  · rw [found?_eq, hg, found?_eq]
  · exact found?_of_get?_eq_found? (hg a) hnow

/-- Without a limit on messages there is room for every fragment. -/
theorem hasRoom_of_inFlight_eq_none {a : Assembler} (h : a.limits.inFlight = none)
    (sequence : SequenceNumber) (now : Time) : a.HasRoom sequence now := by
  intro _ limit hl
  rw [h] at hl
  cases hl

/-- A fragment of the sequence number gets the same answer from both, and leaves both alike for any
later call, whatever its time. -/
theorem AgreeFrom.callBytes_both {sequence : SequenceNumber} {since : Time} {a b : Assembler}
    {c : Call Bytes} (h : AgreeFrom sequence since a b) (hfree : a.limits.inFlight = none)
    (hle : since ≤ c.now) (hc : c.brings sequence = true) :
    (a.callBytes c).2 = (b.callBytes c).2 ∧
      AgreeFrom sequence 0 (a.callBytes c).1 (b.callBytes c).1 := by
  cases c with
  | sweep now => cases hc
  | give wire now =>
    obtain ⟨d, place, hw, hp, rfl⟩ := Call.brings_give_iff.mp hc
    have hjoined : a.joined d.header.sequence place.total now =
        b.joined d.header.sequence place.total now := by
      rw [joined, joined, h.found_eq now hle]
    obtain ⟨hsa, haa⟩ := receive_of_hasRoom hp
      (hasRoom_of_inFlight_eq_none hfree d.header.sequence now)
    obtain ⟨hsb, hab⟩ := receive_of_hasRoom hp
      (hasRoom_of_inFlight_eq_none (h.limits_eq ▸ hfree) d.header.sequence now)
    simp only [callBytes_of_ok hw, haa, hab, hsa, hsb, hjoined, h.limits_eq, true_and]
    refine ⟨by simp [h.limits_eq], ?_⟩
    intro later _
    rw [found?_eq, found?_eq, get?_settle, get?_settle, if_pos rfl, if_pos rfl]

/-- Assemblers that agree on a sequence number answer alike to its fragments, whatever other calls
one of them gets in between. -/
theorem AgreeFrom.trace_filter {sequence : SequenceNumber} {since : Time} {a b : Assembler}
    {calls : List (Call Bytes)} (h : AgreeFrom sequence since a b)
    (hfree : a.limits.inFlight = none) (hsince : ∀ c ∈ calls, since ≤ c.now)
    (hmono : (calls.map Call.now).Pairwise (· ≤ ·)) :
    (Run.trace callBytes a calls).filter (fun e => e.1.brings sequence) =
      Run.trace callBytes b (calls.filter (·.brings sequence)) := by
  induction calls generalizing since a b with
  | nil => rfl
  | cons c calls ih =>
    obtain ⟨hlater, hmono⟩ := List.pairwise_cons.mp hmono
    have hle := hsince c (List.mem_cons_self ..)
    have hnext : ∀ e ∈ calls, c.now ≤ e.now := fun e he => hlater e.now (List.mem_map_of_mem he)
    cases hc : c.brings sequence with
    | false =>
      rw [List.filter_cons_of_neg (by simp [hc]), Run.trace, List.filter_cons_of_neg (by simp [hc])]
      exact ih (h.callBytes_left hle hc) (by simpa using hfree) hnext hmono
    | true =>
      obtain ⟨hreply, hagree⟩ := h.callBytes_both hfree hle hc
      rw [List.filter_cons_of_pos hc, Run.trace, Run.trace, List.filter_cons_of_pos (by simp [hc]),
        hreply, ih (hagree.later (Nat.zero_le _)) (by simpa using hfree) hnext hmono]

/-- Without a limit on messages in assembly and with a clock that does not go back, leaving out all
calls that bring no fragment of a sequence number changes no answer to its fragments. -/
theorem trace_filter_brings (limits : Limits) (hfree : limits.inFlight = none)
    (sequence : SequenceNumber) (calls : List (Call Bytes))
    (hmono : (calls.map Call.now).Pairwise (· ≤ ·)) :
    (Run.trace callBytes (.start limits) calls).filter (fun e => e.1.brings sequence) =
      Run.trace callBytes (.start limits) (calls.filter (·.brings sequence)) :=
  (AgreeFrom.refl sequence 0 _).trace_filter hfree (fun c _ => Nat.zero_le c.now) hmono

/-- A message that a sweep forgets on the way to its last fragment, between bytes that are no
datagram and a whole message of the same number. -/
theorem trace_filter_brings_forgotten :
    let limits : Limits := ⟨none, some 3⟩
    let part (index : FragmentIndex) (payload : Bytes) : Bytes :=
      Packet.toBytes ⟨7, some ⟨3, 0, index, 2⟩, "A", payload⟩
    let calls : List (Call Bytes) :=
      [.give (part 0 [1, 2]) 0, .give [0x4C] 500000000, .sweep 2000000000,
        .give (part 1 [3]) 2000000000, .give (Packet.toBytes ⟨7, none, "A", [9]⟩) 2500000000,
        .give (part 0 [4, 5]) 2600000000, .give (part 1 [6]) 3600000000]
    limits.inFlight = none ∧ (calls.map Call.now).Pairwise (· ≤ ·) ∧
      (Run.trace callBytes (.start limits) calls).filter (fun e => e.1.brings 7) =
        Run.trace callBytes (.start limits) (calls.filter (·.brings 7)) := by
  intro limits part calls
  have hfree : limits.inFlight = none := rfl
  have hmono : (calls.map Call.now).Pairwise (· ≤ ·) := by decide
  exact ⟨hfree, hmono, trace_filter_brings limits hfree 7 calls hmono⟩

end Assembler

end LcmWire
