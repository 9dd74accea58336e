import LcmWire.Proofs.Assembler.Capacity
import LcmWire.Proofs.Assembler.Epoch
import LcmWire.Proofs.Packet.Cutting

/-!
# Parts that arrive

A part of a message is a fragment, and fragments that are parts of one message agree on how many
they are and on what each of them says. An assembler that has room for the message refuses none of
them (`Meets.answer_part`), and what it hands out is what was sent (`Meets.eq_message`).
-/

namespace LcmWire

/-- A part of a message that arrives. -/
structure Submission where
  /-- The message that was sent. -/
  sending : Sending
  /-- Which of its parts arrives. -/
  index : Nat
  index_lt : index < sending.parts.length
  /-- When it arrives. -/
  now : Time
  deriving DecidableEq

namespace Submission

/-- The bytes that arrive. -/
def wire (x : Submission) : Bytes := (x.sending.parts.get ⟨x.index, x.index_lt⟩).toBytes

theorem index_lt_count (x : Submission) : x.index < x.sending.count :=
  x.sending.length_parts ▸ x.index_lt

/-- The bytes are read as the part. -/
theorem ofBytes_wire (x : Submission) :
    Datagram.ofBytes x.wire = .ok (x.sending.datagram x.index) := by
  have hpart : x.sending.parts.get ⟨x.index, x.index_lt⟩ = x.sending.part x.index := by
    simp [x.sending.parts_eq]
  rw [wire, hpart]
  exact x.sending.ofBytes_part x.index_lt_count

/-- The part as a fragment. -/
def fragment (x : Submission) : Fragment :=
  ⟨⟨x.wire, x.sending.datagram x.index, x.ofBytes_wire⟩, x.sending.place x.index, rfl, x.now⟩

end Submission

namespace Epoch

variable {s : Sending} {epoch : List Submission}

/-- All parts of a message declare their number. -/
theorem expected_fragment (h : ∀ y ∈ epoch, y.sending = s) (hne : epoch ≠ []) :
    expected (epoch.map Submission.fragment) = s.count := by
  have hlast := h _ (List.getLast_mem hne)
  rw [expected, List.getLast?_map, List.getLast?_eq_some_getLast hne]
  exact hlast ▸ Sending.toNat_total _ _

/-- What is kept at an index is the part with that index, which has arrived. -/
theorem copy?_fragment (h : ∀ y ∈ epoch, y.sending = s) {index : FragmentIndex} {d : Datagram}
    (hd : copy? (epoch.map Submission.fragment) index = some d) :
    index.toNat < s.count ∧ d = s.datagram index.toNat := by
  obtain ⟨f, hf, rfl⟩ := Option.map_eq_some_iff.mp hd
  obtain ⟨y, hy, rfl⟩ := List.mem_map.mp (List.mem_of_find?_eq_some hf)
  obtain rfl := h y hy
  have hindex := List.find?_some hf
  obtain rfl : UInt16.ofNat y.index = index := of_decide_eq_true hindex
  rw [y.sending.toNat_ofNat_of_lt y.index_lt_count]
  exact ⟨y.index_lt_count, rfl⟩

/-- An index has a copy exactly if the part with that index has arrived. -/
theorem isSome_copy?_fragment (h : ∀ y ∈ epoch, y.sending = s) {i : Nat} (hi : i < s.count) :
    (copy? (epoch.map Submission.fragment) (UInt16.ofNat i)).isSome = true ↔
      ∃ y ∈ epoch, y.index = i := by
  rw [copy?, Option.isSome_map, List.find?_isSome]
  constructor
  · rintro ⟨f, hf, hindex⟩
    obtain ⟨y, hy, rfl⟩ := List.mem_map.mp hf
    obtain rfl := h y hy
    have heq : UInt16.ofNat y.index = UInt16.ofNat i := of_decide_eq_true hindex
    refine ⟨y, hy, ?_⟩
    rw [← y.sending.toNat_ofNat_of_lt y.index_lt_count, heq, y.sending.toNat_ofNat_of_lt hi]
  · rintro ⟨y, hy, rfl⟩
    exact ⟨y.fragment, List.mem_map_of_mem hy, decide_eq_true rfl⟩

end Epoch

/-- There is room for some messages, for all of them at once. -/
structure Limits.Suffice (limits : Limits) (messages : List Sending) : Prop where
  inFlight : ∀ limit, limits.inFlight = some limit → messages.length ≤ limit
  messageSize : ∀ limit, limits.messageSize = some limit →
    ∀ s ∈ messages, s.payload.length ≤ limit

/-- With a part that arrives, all parts of its message are there, and it is the last of them. -/
def Submission.Completes (x : Submission) (earlier : List Submission) : Prop :=
  x.index + 1 = x.sending.parts.length ∧
    ∀ i < x.sending.parts.length, ∃ y ∈ x :: earlier, y.index = i

instance (x : Submission) (earlier : List Submission) : Decidable (x.Completes earlier) :=
  inferInstanceAs (Decidable (_ ∧ _))

namespace Assembler

/-- A part that arrives meets an assembly that is made of earlier parts of its message. -/
structure Meets (a : Assembler) (x : Submission) (earlier : List Submission) : Prop where
  filed : a.Holds Assembly.Filed
  same : ∀ y ∈ earlier, y.sending = x.sending
  found : a.found? x.sending.sequence x.now =
    Assembly.ofFragments (earlier.map Submission.fragment)

namespace Meets

variable {a : Assembler} {x : Submission} {earlier : List Submission}

theorem same_cons (h : a.Meets x earlier) : ∀ y ∈ x :: earlier, y.sending = x.sending :=
  List.forall_mem_cons.mpr ⟨rfl, h.same⟩

/-- The parts agree on their number. -/
theorem expected_eq (h : a.Meets x earlier) :
    Epoch.expected (x.fragment :: earlier.map Submission.fragment) = x.sending.count :=
  Epoch.expected_fragment h.same_cons (List.cons_ne_nil _ _)

/-- No more bytes are kept for a message than it has. -/
theorem bufferedSize_le (h : a.Meets x earlier) :
    (a.grown x.fragment.arrival x.fragment.place x.now).bufferedSize ≤
      x.sending.payload.length := by
  obtain ⟨-, hcopy⟩ := Assembly.ofFragments_content (grown_of_found? (f := x.fragment) h.found)
  rw [← x.sending.flatMap_payload]
  apply Assembly.bufferedSize_le
  intro index d hd
  obtain ⟨hlt, rfl⟩ := Epoch.copy?_fragment h.same_cons ((hcopy index).symm.trans hd)
  exact ⟨hlt, rfl⟩

/-- A message that is handed out is the one that was sent. -/
theorem eq_message (h : a.Meets x earlier) {m : Message}
    (hm : (a.receive x.fragment.datagram x.now).answer = .ok (some m)) :
    m = x.sending.message := by
  obtain ⟨first, parts, hf, hlength, hget, hread, hcount⟩ :=
    (h.filed.answer_receive (f := x.fragment) h.found).2 m hm
  rw [h.expected_eq] at hlength hget hcount
  have hparts : parts = (List.range x.sending.count).map x.sending.datagram := by
    apply List.ext_getElem (by simp [hlength])
    intro i hi _
    have hlt : i < x.sending.count := hlength ▸ hi
    have hcopy := hget i hlt
    rw [List.getElem?_eq_getElem hi] at hcopy
    obtain ⟨-, hd⟩ := Epoch.copy?_fragment h.same_cons hcopy.symm
    rw [hd, x.sending.toNat_ofNat_of_lt hlt, List.getElem_map, List.getElem_range]
  have hpayload : parts.flatMap Datagram.payload = x.sending.payload := by
    rw [hparts, List.flatMap_map, x.sending.flatMap_payload]
  obtain ⟨-, rfl⟩ := Epoch.copy?_fragment h.same_cons hf
  rw [hpayload] at hread
  have hd : m.datagram = x.sending.message.datagram :=
    Except.ok.inj (hread.symm.trans x.sending.ofBytes_joined)
  have hn : m.fragmentCount = x.sending.message.fragmentCount :=
    UInt16.toNat_inj.mp (hcount.trans x.sending.toNat_fragmentCount.symm)
  cases m
  exact congr (congrArg Message.mk hd) hn

/-- With room for its message, a part is not refused. -/
theorem answer_ne_error (h : a.Meets x earlier) (hroom : a.HasRoom x.sending.sequence x.now)
    (hfits : ∀ limit, a.limits.messageSize = some limit → x.sending.payload.length ≤ limit)
    (cause : Refusal) : (a.receive x.fragment.datagram x.now).answer ≠ .error cause := by
  apply h.filed.answer_ne_error x.fragment.arrival x.fragment.place_eq hroom
  intro limit hl
  exact Nat.le_trans h.bufferedSize_le (hfits limit hl)

/-- With room for its message, a part hands the message out if it completes it, and waits if not. -/
theorem answer_of_hasRoom (h : a.Meets x earlier) (hroom : a.HasRoom x.sending.sequence x.now)
    (hfits : ∀ limit, a.limits.messageSize = some limit → x.sending.payload.length ≤ limit) :
    x.Completes earlier ∧
        (a.receive x.fragment.datagram x.now).answer = .ok (some x.sending.message) ∨
      ¬ x.Completes earlier ∧ (a.receive x.fragment.datagram x.now).answer = .ok none := by
  have hne := h.answer_ne_error hroom hfits
  have hiff : (∃ m, (a.receive x.fragment.datagram x.now).answer = .ok (some m)) ↔
      x.Completes earlier := by
    apply (h.filed.answer_receive (f := x.fragment) h.found).1.trans
    rw [h.expected_eq, Submission.Completes, Sending.length_parts]
    constructor
    · rintro ⟨-, -, hlast, hall⟩
      refine ⟨(x.sending.isLast_place x.index_lt_count).mp hlast, fun i hi => ?_⟩
      exact (Epoch.isSome_copy?_fragment h.same_cons hi).mp (hall i hi)
    · rintro ⟨hlast, hall⟩
      refine ⟨fun _ => hne _, fun _ _ _ => hne _,
        (x.sending.isLast_place x.index_lt_count).mpr hlast, fun i hi => ?_⟩
      exact (Epoch.isSome_copy?_fragment h.same_cons hi).mpr (hall i hi)
  by_cases hc : x.Completes earlier
  · obtain ⟨m, hm⟩ := hiff.mpr hc
    exact .inl ⟨hc, h.eq_message hm ▸ hm⟩
  · refine .inr ⟨hc, ?_⟩
    cases hans : (a.receive x.fragment.datagram x.now).answer with
    | error cause => exact absurd hans (hne cause)
    | ok o =>
      cases o with
      | none => rfl
      | some m => exact absurd (hiff.mp ⟨m, hans⟩) hc

/-- Where no other messages are held than some for all of which there is room, there is room for
each of them. -/
theorem answer_part {messages : List Sending} (h : a.Meets x earlier)
    (hknown : a.Holds fun sequence _ => sequence ∈ messages.map Sending.sequence)
    (hsuffice : a.limits.Suffice messages) (hx : x.sending ∈ messages) :
    x.Completes earlier ∧
        (a.receive x.fragment.datagram x.now).answer = .ok (some x.sending.message) ∨
      ¬ x.Completes earlier ∧ (a.receive x.fragment.datagram x.now).answer = .ok none := by
  have hroom : a.HasRoom x.sending.sequence x.now := by
    refine hasRoom_of_mem hknown ?_ (List.mem_map_of_mem hx) x.now
    simpa using hsuffice.inFlight
  exact h.answer_of_hasRoom hroom fun limit hl => hsuffice.messageSize limit hl _ hx

end Meets

end Assembler

end LcmWire
