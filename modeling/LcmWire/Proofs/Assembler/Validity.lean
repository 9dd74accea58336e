import LcmWire.Proofs.Assembler.Capacity
import Mathlib.Data.List.Nodup

/-!
# Valid assemblers

Every assembly that a call leaves held was there before, or the call brought a fragment that it kept
in it (`Held`). From this one inversion follow the invariant of an assembler that runs within its
limits (`Valid.call`) and what is special about a message that was handed out: its assembly is the
latest one to be touched, so no second one is held, and the next call forgets it. The main statement
`after_within_limits` collects what a caller can rely on after any calls.
-/

namespace LcmWire

/-- A header that is read again in front of bytes leaves no more than these as payload. -/
theorem Datagram.Rereads.length_payload_le {first d : Datagram} {joined : Bytes}
    (h : first.Rereads joined d) : d.payload.length ≤ joined.length := by
  cases ht : first.header.terminated with
  | true => exact Nat.le_of_eq (congrArg List.length (h.terminated ht).2.2)
  | false =>
    obtain ⟨name, hn, ⟨rfl, -⟩ | ⟨payload, rfl, -⟩⟩ := cutAtZero_cases joined
    · rw [(h.stillOpen ht hn).2.2.2]
      exact Nat.zero_le _
    · rw [(h.closed ht name payload hn rfl).2.2.2, List.length_append, List.length_cons]
      omega

namespace Assembly

/-- Indices below the number of fragments are told apart by their field. -/
theorem nodup_indices (total : UInt16) :
    ((List.range total.toNat).map UInt16.ofNat).Nodup := by
  refine List.Nodup.map_on ?_ List.nodup_range
  intro i hi j hj heq
  have hlt := total.toNat_lt
  have htoNat := congrArg UInt16.toNat heq
  rw [List.mem_range] at hi hj
  rwa [UInt16.toNat_ofNat', UInt16.toNat_ofNat', Nat.mod_eq_of_lt (by omega),
    Nat.mod_eq_of_lt (by omega)] at htoNat

/-- The fragments of a message have no more bytes than are kept, as each is kept once. -/
theorem length_flatMap_payload_le {m : Assembly} {parts : List Datagram}
    (h : m.inOrder? = some parts) : (parts.flatMap Datagram.payload).length ≤ m.bufferedSize := by
  let indices := (List.range m.total.toNat).map UInt16.ofNat
  let kept (found : Option Datagram) : Bytes := found.elim [] Datagram.payload
  let piece (index : FragmentIndex) : Bytes := kept (m.fragments.get? index)
  have hget : indices.map m.fragments.get? = parts.map some := by
    rw [inOrder?, mapM_eq_some_iff] at h
    rw [← h, List.map_map]
    rfl
  have hparts : indices.flatMap piece = parts.flatMap Datagram.payload := by
    calc indices.flatMap piece
      _ = (indices.map m.fragments.get?).flatMap kept :=
        (List.flatMap_map m.fragments.get? kept indices).symm
      _ = (parts.map some).flatMap kept := by rw [hget]
      _ = parts.flatMap Datagram.payload := List.flatMap_map some kept parts
  have hall : m.fragments.values.flatMap Datagram.payload = m.fragments.keys.flatMap piece := by
    apply Table.flatMap_values
    intro index d hd
    simp only [piece, kept, hd, Option.elim_some]
  have hsubset : indices ⊆ m.fragments.keys := by
    intro index hindex
    have hmem : m.fragments.get? index ∈ parts.map some := hget ▸ List.mem_map_of_mem hindex
    obtain ⟨d, -, hd⟩ := List.mem_map.mp hmem
    exact Table.mem_keys_iff.mpr ⟨d, hd.symm⟩
  rw [bufferedSize, ← hparts, hall]
  exact length_flatMap_le_of_subset (nodup_indices m.total) hsubset piece

/-- What is true of the assembly of a message for as long as it is held. -/
structure Valid (limits : Limits) (sequence : SequenceNumber) (m : Assembly) : Prop where
  /-- The message has fragments. -/
  total_pos : 0 < m.total
  /-- One of them has arrived. -/
  received_pos : 0 < m.received
  /-- Each that is kept is a fragment of this message, and has the index under which it is kept. -/
  filed : m.Filed sequence
  /-- This index lies in the message as the fragment itself counts it. -/
  index_lt : ∀ index d, m.fragments.get? index = some d → index < d.header.total
  /-- No more payload bytes are kept than may be. -/
  fits : ∀ limit, limits.messageSize = some limit → m.bufferedSize ≤ limit

/-- The message that all fragments of an assembly make when they are joined. -/
def Makes (m : Assembly) (message : Message) : Prop :=
  ∃ wire, m.join? = some wire ∧ Datagram.ofBytes wire = .ok message.datagram ∧
    message.fragmentCount = m.total

variable {limits : Limits} {sequence : SequenceNumber}

/-- An index under which a fragment is filed lies in the message as the fragment counts it. -/
theorem Filed.index_lt {m : Assembly} (h : m.Filed sequence) {index : FragmentIndex} {d : Datagram}
    (hd : m.fragments.get? index = some d) : index < d.header.total := by
  obtain ⟨⟨wire, hwire⟩, -, place, hp, rfl⟩ := h index d hd
  rw [Header.total, hp]
  exact Datagram.inRange_of_ofBytes hwire place hp

/-- A valid assembly is valid also once its message was handed out. -/
theorem Valid.completed {m : Assembly} (h : m.Valid limits sequence) :
    Valid limits sequence { m with complete := true } :=
  ⟨h.total_pos, h.received_pos, h.filed, h.index_lt, h.fits⟩

end Assembly

namespace Assembler

/-- Where an assembly comes from that is held once a datagram was taken in. -/
inductive Held (a : Assembler) (x : Arrival) (now : Time) (sequence : SequenceNumber)
    (m : Assembly) : Prop where
  /-- The call found it and left it as it was. -/
  | found (found_eq : a.found? sequence now = some m)
  /-- A fragment was added to it that fits. -/
  | grown (place : Placement) (place_eq : x.datagram.header.place = some place)
      (sequence_eq : x.datagram.header.sequence = sequence)
      (fits : ∀ limit, a.limits.messageSize = some limit → m.bufferedSize ≤ limit)
      (eq : m = a.grown x place now)
  /-- The same, and with this fragment its message was handed out. -/
  | completed (place : Placement) (first : Datagram) (parts : List Datagram) (d : Datagram)
      (place_eq : x.datagram.header.place = some place)
      (sequence_eq : x.datagram.header.sequence = sequence)
      (fits : ∀ limit, a.limits.messageSize = some limit → m.bufferedSize ≤ limit)
      (eq : m = { a.grown x place now with complete := true })
      (first_eq : m.fragments.get? 0 = some first) (parts_eq : m.inOrder? = some parts)
      (read : Datagram.ofBytes (first.headerBytes ++ parts.flatMap Datagram.payload) = .ok d)
      (answer : (a.receive x.datagram now).answer = .ok (some ⟨d, m.total⟩))

/-- An assembly that a call finds is not that of a message that was handed out. -/
theorem complete_of_found? {a : Assembler} {sequence : SequenceNumber} {now : Time} {m : Assembly}
    (h : a.found? sequence now = some m) : m.complete = false := by
  rw [found?_eq, Option.filter_eq_some_iff, Assembly.survives_iff] at h
  exact h.2.1

/-- A fragment that is added to an assembly does not hand its message out by that. -/
theorem complete_grown (a : Assembler) (x : Arrival) (place : Placement) (now : Time) :
    (a.grown x place now).complete = false := by
  change (a.joined x.datagram.header.sequence place.total now).complete = false
  rcases a.joined_cases x.datagram.header.sequence place.total now with hf | hf
  · exact complete_of_found? hf
  · rw [hf]
    rfl

/-- Where all fragments belong, these are all ways for an assembly to be held after a call. -/
theorem Holds.held {a : Assembler} (ha : a.Holds Assembly.Filed) (x : Arrival) {now : Time}
    {sequence : SequenceNumber} {m : Assembly}
    (hm : (a.receive x.datagram now).state.assemblies.get? sequence = some m) :
    a.Held x now sequence m := by
  by_cases hs : sequence = x.datagram.header.sequence
  · subst hs
    cases hp : x.datagram.header.place with
    | none =>
      rw [(receive_of_short hp).1] at hm
      exact .found hm
    | some place =>
      cases ha.fate x hp now with
      | full limit _ hstate _ =>
        rw [hstate] at hm
        exact .found hm
      | oversized limit _ _ _ hstate _ =>
        rw [hstate, get?_settle, if_pos rfl] at hm
        cases hm
      | waits _ hfits _ hstate _ =>
        rw [hstate, get?_settle, if_pos rfl] at hm
        obtain rfl := Option.some.inj hm
        exact .grown place hp rfl hfits rfl
      | assembled first parts d _ hfits _ hf hparts hd _ hstate hanswer =>
        rw [hstate, get?_settle, if_pos rfl] at hm
        obtain rfl := Option.some.inj hm
        exact .completed place first parts d hp rfl hfits rfl hf hparts hd hanswer
  · rw [get?_receive_of_ne hs] at hm
    exact .found hm

/-- What is true of an assembler after any calls. -/
structure Valid (a : Assembler) : Prop where
  /-- Each assembly that is held is valid. -/
  held : a.Holds (Assembly.Valid a.limits)
  /-- No more messages are held than may be. -/
  size_le : ∀ limit, a.limits.inFlight = some limit → a.size ≤ limit

namespace Valid

variable {a : Assembler}

theorem filed (h : a.Valid) : a.Holds Assembly.Filed :=
  fun sequence m hm => (h.held sequence m hm).filed

/-- With a fragment that fits, an assembly of a valid assembler is valid. -/
theorem grown (h : a.Valid) (x : Arrival) {place : Placement}
    (hp : x.datagram.header.place = some place) {now : Time}
    (hfits : ∀ limit, a.limits.messageSize = some limit →
      (a.grown x place now).bufferedSize ≤ limit) :
    (a.grown x place now).Valid a.limits x.datagram.header.sequence := by
  have hfiled := h.filed.filed_joined x hp now
  have htotal : 0 < (a.joined x.datagram.header.sequence place.total now).total := by
    rcases a.joined_cases x.datagram.header.sequence place.total now with hf | hf
    · exact (h.held.found? hf).total_pos
    · rw [hf]
      have hlt := Datagram.inRange_of_ofBytes x.read place hp
      exact UInt16.lt_of_le_of_lt (UInt16.zero_le ..) hlt
  exact ⟨htotal, Table.size_insert_pos .., hfiled, fun _ _ => hfiled.index_lt, hfits⟩

/-- Taking a datagram in keeps an assembler valid. -/
theorem receive (h : a.Valid) (x : Arrival) (now : Time) :
    (a.receive x.datagram now).state.Valid := by
  constructor
  · intro sequence m hm
    rw [limits_receive]
    cases h.filed.held x hm with
    | found hf => exact h.held.found? hf
    | grown place hp hs hfits heq =>
      subst hs heq
      exact h.grown x hp hfits
    | completed place _ _ _ hp hs hfits heq _ _ _ _ =>
      subst hs heq
      exact (h.grown x hp hfits).completed
  · intro limit hl
    rw [limits_receive] at hl
    exact size_receive_le hl (h.size_le limit hl) x.datagram now

/-- Every call keeps an assembler valid. -/
theorem call (h : a.Valid) (c : Call Arrival) : (a.call c).1.Valid := by
  cases c with
  | give x now => exact h.receive x now
  | sweep now =>
    refine ⟨fun sequence m hm => h.held.found? hm, fun limit hl => ?_⟩
    exact Nat.le_trans (a.size_evict_le now) (h.size_le limit hl)

end Valid

/-- In every run, an assembler is valid. -/
theorem valid_after (limits : Limits) (calls : List (Call Arrival)) :
    (Run.after call (.start limits) calls).Valid := by
  apply Run.after_induction call
  · refine ⟨?_, fun _ _ => Nat.zero_le _⟩
    intro sequence m hm
    cases hm
  · exact fun a c ha => ha.call c

namespace Valid

variable {a : Assembler}

/-- A message that is handed out comes with the call, whose assembly it was, and lacks no fragment.
The assembly of no other message is left as one that was handed out. -/
theorem of_complete (h : a.Valid) {c : Call Arrival} {sequence : SequenceNumber} {m : Assembly}
    (hm : (a.call c).1.assemblies.get? sequence = some m) (hc : m.complete = true) :
    (∀ i < m.total.toNat, (m.fragments.get? (UInt16.ofNat i)).isSome = true) ∧
      ∃ x now message, c = .give x now ∧ x.datagram.header.sequence = sequence ∧
        m.Makes message ∧ (a.call c).2 = .given (.ok (some message)) := by
  cases c with
  | sweep now =>
    have hnot : m.complete = false := complete_of_found? hm
    rw [hc] at hnot
    cases hnot
  | give x now =>
    cases h.filed.held x hm with
    | found hf =>
      rw [complete_of_found? hf] at hc
      cases hc
    | grown place hp _ _ heq =>
      rw [heq, complete_grown] at hc
      cases hc
    | completed place first parts d _ hs _ _ hf hparts hd hanswer =>
      refine ⟨?_, x, now, ⟨d, m.total⟩, rfl, hs, ?_, congrArg Reply.given hanswer⟩
      · obtain ⟨hlength, hget⟩ := Assembly.inOrder?_eq_some_iff.mp hparts
        intro i hi
        rw [← hget i hi, List.getElem?_eq_getElem (hlength.symm ▸ hi)]
        rfl
      · exact ⟨_, Assembly.join?_eq_some_iff.mpr ⟨first, parts, hf, hparts, rfl⟩, hd, rfl⟩

/-- A message is of the kind of the datagram that it comes with, and one that was sent in fragments
has no more payload bytes than may be kept. -/
theorem length_payload_le (h : a.Valid) {x : Arrival} {now : Time} {message : Message}
    (hanswer : (a.receive x.datagram now).answer = .ok (some message)) :
    message.datagram.header.kind = x.datagram.header.kind ∧
      (x.datagram.header.kind = .fragmented → ∀ limit, a.limits.messageSize = some limit →
        message.payload.length ≤ limit) := by
  cases hp : x.datagram.header.place with
  | none =>
    rw [(receive_of_short hp).2] at hanswer
    cases hanswer
    exact ⟨rfl, by simp [Header.kind, hp]⟩
  | some place =>
    cases h.filed.fate x hp now with
    | full limit _ _ hans =>
      rw [hans] at hanswer
      cases hanswer
    | oversized limit _ _ _ _ hans =>
      rw [hans] at hanswer
      cases hanswer
    | waits _ _ _ _ hans =>
      rw [hans] at hanswer
      cases hanswer
    | assembled first parts d _ hfits _ hf hparts _ hr _ hans =>
      rw [hans] at hanswer
      cases hanswer
      obtain ⟨-, -, placeOfFirst, hfirst, -⟩ := h.filed.filed_joined x hp now 0 first hf
      have hkind : first.header.kind = .fragmented := by simp [Header.kind, hfirst]
      refine ⟨?_, fun _ limit hl => ?_⟩
      · rw [hr.kind, hkind]
        simp [Header.kind, hp]
      · calc d.payload.length
          _ ≤ (parts.flatMap Datagram.payload).length := hr.length_payload_le
          _ ≤ (a.grown x place now).bufferedSize := Assembly.length_flatMap_payload_le hparts
          _ ≤ limit := hfits limit hl

end Valid

/-- After any calls, every assembly that is held is valid, and no more are held than may be. At most
one of them is of a message that was handed out: it lacks no fragment, and the latest call was the
one that handed the message out. No message that was sent in fragments ever has more payload bytes
than may be kept for one. -/
theorem after_within_limits (limits : Limits) (calls : List (Call Arrival)) :
    let a := Run.after call (.start limits) calls
    (∀ sequence m, a.assemblies.get? sequence = some m → m.Valid limits sequence) ∧
    (∀ limit, limits.inFlight = some limit → a.size ≤ limit) ∧
    (∀ sequence m, a.assemblies.get? sequence = some m → m.complete = true →
      (∀ i < m.total.toNat, (m.fragments.get? (UInt16.ofNat i)).isSome = true) ∧
      ∃ x now message, x.datagram.header.sequence = sequence ∧ m.Makes message ∧
        (Run.history call (.start limits) calls).head? =
          some (.give x now, .given (.ok (some message)))) ∧
    (∀ sequence m other n, a.assemblies.get? sequence = some m → m.complete = true →
      a.assemblies.get? other = some n → n.complete = true → sequence = other) ∧
    ∀ x now message,
      (.give x now, .given (.ok (some message))) ∈ Run.trace call (.start limits) calls →
      message.datagram.header.kind = x.datagram.header.kind ∧
        (x.datagram.header.kind = .fragmented → ∀ limit, limits.messageSize = some limit →
          message.payload.length ≤ limit) := by
  intro a
  have hvalid : a.Valid := valid_after limits calls
  have hlimits : a.limits = limits := limits_after (.start limits) calls
  have hlatest : ∀ sequence m, a.assemblies.get? sequence = some m → m.complete = true →
      (∀ i < m.total.toNat, (m.fragments.get? (UInt16.ofNat i)).isSome = true) ∧
      ∃ x now message, x.datagram.header.sequence = sequence ∧ m.Makes message ∧
        (Run.history call (.start limits) calls).head? =
          some (.give x now, .given (.ok (some message))) := by
    intro sequence m hm hc
    rcases List.eq_nil_or_concat calls with rfl | ⟨before, c, rfl⟩
    · cases hm
    · simp only [a, List.concat_eq_append, Run.after_concat] at hm
      obtain ⟨hall, x, now, message, rfl, hs, hmakes, hreply⟩ :=
        (valid_after limits before).of_complete hm hc
      refine ⟨hall, x, now, message, hs, hmakes, ?_⟩
      rw [List.concat_eq_append, Run.history_concat, hreply, List.head?_cons]
  refine ⟨fun sequence m hm => hlimits ▸ hvalid.held sequence m hm, hlimits ▸ hvalid.size_le,
    hlatest, ?_, ?_⟩
  · intro sequence m other n hm hmc hn hnc
    obtain ⟨-, x, now, message, rfl, -, hx⟩ := hlatest sequence m hm hmc
    obtain ⟨-, y, later, reply, rfl, -, hy⟩ := hlatest other n hn hnc
    rw [hx] at hy
    cases hy
    rfl
  · intro x now message hmem
    obtain ⟨before, hreply⟩ := Run.exists_of_mem_trace call hmem
    have hanswer : ((Run.after call (.start limits) before).receive x.datagram now).answer =
        .ok (some message) := (Reply.given.inj hreply).symm
    have hpayload := (valid_after limits before).length_payload_le hanswer
    rwa [limits_after] at hpayload

end Assembler

end LcmWire
