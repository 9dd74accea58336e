import LcmWire.Proofs.Delivery.Traffic
import LcmWire.Proofs.Packet.Canonical
import LcmWire.Proofs.Router.Registering

/-!
# From a sender to a handler

A message reaches its handler by the name of its channel alone, so the name must come through as it
was sent, in one datagram or in parts. Every message that is handed out was read from some bytes
(`exists_wire_of_message?`), and no name that was read has a zero character. Parts that gather, the
last one behind all others, are answered with the message that was sent (`trace_of_gathers`). The
main statement `dispatch_delivered` brings both to a router.
-/

namespace LcmWire

/-- The call that brings a part. -/
def Submission.call (x : Submission) : Call Bytes := .give x.wire x.now

/-- Parts of one message arrive, each in time for the next, and the last one by its index comes not
before the end. The clock may go back. -/
structure Sending.Gathers (s : Sending) (before : List Submission) (x : Submission) : Prop where
  sending_eq : ∀ y ∈ before ++ [x], y.sending = s
  not_last : ∀ y ∈ before, y.index + 1 ≠ s.parts.length
  prompt : ((before ++ [x]).map Submission.now).IsChain
    fun earlier later => later - earlier ≤ Assembly.timeout

/-- All parts of one message arrive once, in any order that has the last one by its index at its
end, each in time for the next. The clock may go back. -/
structure Sending.Shuffled (s : Sending) (before : List Submission) (x : Submission) : Prop where
  sending_eq : ∀ y ∈ before ++ [x], y.sending = s
  perm : ((before ++ [x]).map Submission.index).Perm (List.range s.parts.length)
  last : x.index + 1 = s.parts.length
  prompt : ((before ++ [x]).map Submission.now).IsChain
    fun earlier later => later - earlier ≤ Assembly.timeout

namespace Sending.Gathers

variable {s : Sending} {before : List Submission} {x y : Submission}

/-- Parts gather up to each of them. -/
theorem left (h : s.Gathers (before ++ [y]) x) : s.Gathers before y where
  sending_eq z hz := h.sending_eq z (List.mem_append_left _ hz)
  not_last z hz := h.not_last z (List.mem_append_left _ hz)
  prompt := by
    have hprompt := h.prompt
    rw [List.map_append] at hprompt
    exact hprompt.left_of_append

/-- A part comes in time for the one before it. -/
theorem le_timeout (h : s.Gathers (before ++ [y]) x) : x.now - y.now ≤ Assembly.timeout := by
  have hprompt := h.prompt
  rw [List.map_append, List.isChain_append] at hprompt
  exact hprompt.2.2 y.now (by simp) x.now (by simp)

end Sending.Gathers

namespace Sending.Shuffled

variable {s : Sending} {before : List Submission} {x : Submission}

/-- Parts that arrive once each gather, whatever their order. -/
theorem gathers (h : s.Shuffled before x) : s.Gathers before x where
  sending_eq := h.sending_eq
  not_last y hy heq := by
    have hnodup := h.perm.nodup_iff.mpr List.nodup_range
    rw [List.map_append, List.nodup_append] at hnodup
    have hsame : y.index = x.index := Nat.succ_injective (heq.trans h.last.symm)
    exact hnodup.2.2 y.index (List.mem_map_of_mem hy) x.index (by simp) hsame
  prompt := h.prompt

/-- With the last of them no part is missing. -/
theorem completes (h : s.Shuffled before x) : x.Completes before := by
  obtain rfl : x.sending = s := h.sending_eq x (by simp)
  refine ⟨h.last, fun i hi => ?_⟩
  have hmem := h.perm.mem_iff.mpr (List.mem_range.mpr hi)
  simpa [or_comm, eq_comm] using hmem

end Sending.Shuffled

namespace Assembler

/-- A message that is handed out was read from some bytes: those of the datagram that is the
message, or those that its fragments make. -/
theorem exists_wire_of_message? {limits : Limits} {calls : List (Call Bytes)} {c : Call Bytes}
    {reply : Reply Rejection} {message : Message}
    (h : (c, reply) ∈ Run.trace callBytes (.start limits) calls)
    (hm : reply.message? = some message) :
    ∃ wire, Datagram.ofBytes wire = .ok message.datagram := by
  obtain ⟨before, hreply⟩ := Run.exists_of_mem_trace callBytes h
  simp only at hreply
  subst hreply
  cases c with
  | sweep now => cases hm
  | give wire now =>
    cases hw : Datagram.ofBytes wire with
    | error cause =>
      rw [callBytes_of_error hw] at hm
      cases hm
    | ok d =>
      rw [callBytes_of_ok hw] at hm
      cases hp : d.header.place with
      | none =>
        rw [(receive_of_short hp).2] at hm
        obtain rfl := Option.some.inj hm
        exact ⟨wire, hw⟩
      | some place =>
        cases (filed_after_callBytes limits before).fate ⟨wire, d, hw⟩ hp now with
        | full limit _ _ hans =>
          rw [hans] at hm
          cases hm
        | oversized limit _ _ _ _ hans =>
          rw [hans] at hm
          cases hm
        | waits _ _ _ _ hans =>
          rw [hans] at hm
          cases hm
        | assembled first parts whole _ _ _ _ _ hread _ _ hans =>
          rw [hans] at hm
          obtain rfl := Option.some.inj hm
          exact ⟨_, hread⟩

section Gathering

variable {s : Sending} {before : List Submission} {x : Submission}

/-- Without limits, a part hands its message out if it completes it, and waits if not. -/
theorem Meets.answer_of_unlimited {a : Assembler} {earlier : List Submission}
    (h : a.Meets x earlier) (hlimits : a.limits = ⟨none, none⟩) :
    x.Completes earlier ∧
        (a.receive x.fragment.datagram x.now).answer = .ok (some x.sending.message) ∨
      ¬ x.Completes earlier ∧ (a.receive x.fragment.datagram x.now).answer = .ok none :=
  h.answer_of_hasRoom (hasRoom_of_inFlight_eq_none (by simp [hlimits]) _ _) (by simp [hlimits])

/-- Bringing a part is calling with its bytes. -/
theorem callBytes_call (a : Assembler) (x : Submission) :
    a.callBytes x.call = a.deliver (.part x) :=
  rfl

/-- A part that arrives meets all parts before it. -/
theorem meets_of_gathers (h : s.Gathers before x) :
    (Run.after callBytes (.start ⟨none, none⟩) (before.map Submission.call)).Meets x
      before.reverse := by
  induction before using List.reverseRecOn generalizing x with
  | nil => exact ⟨filed_after_callBytes _ [], by simp, rfl⟩
  | append_singleton before y ih =>
    have hy : y.sending = x.sending :=
      (h.sending_eq y (by simp)).trans (h.sending_eq x (by simp)).symm
    have hmeets := ih h.left
    have hopen : ¬ y.Completes before.reverse := by
      rintro ⟨hlast, -⟩
      rw [h.sending_eq y (by simp)] at hlast
      exact h.not_last y (by simp) hlast
    obtain ⟨-, hans⟩ := (hmeets.answer_of_unlimited (limits_after_callBytes _ _)).resolve_left
      fun hc => hopen hc.1
    refine ⟨filed_after_callBytes _ _, ?_, ?_⟩
    · intro z hz
      exact (h.sending_eq z (List.mem_append_left _ (List.mem_reverse.mp hz))).trans
        (h.sending_eq x (by simp)).symm
    · have hfound := hmeets.found?_deliver hans fun _ => h.le_timeout
      rw [List.map_append, List.map_singleton, Run.after_concat, ← hy, callBytes_call, hfound]
      simp

/-- A part is answered with the message if it completes it. -/
theorem reply_of_gathers (h : s.Gathers before x) :
    let reply := ((Run.after callBytes (.start ⟨none, none⟩)
      (before.map Submission.call)).callBytes x.call).2
    (x.Completes before → reply = .given (.ok (some s.message))) ∧
      (¬ x.Completes before → reply = .given (.ok none)) := by
  intro reply
  have hreply : reply = _ := (deliver_part _ x).2
  have hsending : x.sending = s := h.sending_eq x (by simp)
  have hreverse : x.Completes before.reverse ↔ x.Completes before := by
    simp [Submission.Completes]
  rw [← hsending, ← hreverse]
  rcases (meets_of_gathers h).answer_of_unlimited (limits_after_callBytes _ _) with
    ⟨hc, hans⟩ | ⟨hc, hans⟩
  · rw [hans] at hreply
    exact ⟨fun _ => hreply, fun hnot => absurd hc hnot⟩
  · rw [hans] at hreply
    exact ⟨fun hcompletes => absurd hcompletes hc, fun _ => hreply⟩

/-- A part that is followed by another one does not complete its message. -/
theorem map_reply_trace_of_gathers (h : s.Gathers before x) :
    (Run.trace callBytes (.start ⟨none, none⟩) (before.map Submission.call)).map Prod.snd =
      List.replicate before.length (.given (.ok none)) := by
  induction before using List.reverseRecOn generalizing x with
  | nil => rfl
  | append_singleton before y ih =>
    have hopen : ¬ y.Completes before := fun hc =>
      h.not_last y (by simp) (h.sending_eq y (by simp) ▸ hc.1)
    have hreply := (reply_of_gathers h.left).2 hopen
    rw [List.map_append, Run.trace_append, List.map_append, ih h.left, List.length_append,
      List.length_singleton, List.replicate_add]
    exact congrArg (_ ++ [·]) hreply

/-- Parts that gather, the last one behind all others, are answered with the message at the end. -/
theorem trace_of_gathers (h : s.Gathers before x) (hc : x.Completes before) :
    (Run.trace callBytes (.start ⟨none, none⟩)
        ((before ++ [x]).map Submission.call)).map Prod.snd =
      List.replicate before.length (.given (.ok none)) ++ [.given (.ok (some s.message))] := by
  rw [List.map_append, Run.trace_append, List.map_append, map_reply_trace_of_gathers h]
  exact congrArg (_ ++ [·]) ((reply_of_gathers h).1 hc)

end Gathering

end Assembler

namespace Packet

/-- A whole message is given to whoever submits it as it was sent, whatever else is in assembly. -/
theorem answer_of_short {sequence : SequenceNumber} {channel : String}
    (h : '\x00' ∉ channel.toList) (payload : Bytes) (a : Assembler) (now : Time) :
    let p : Packet := ⟨sequence, none, channel, payload⟩
    (a.receiveBytes p.toBytes now).answer =
      .ok (some ⟨⟨⟨sequence, none, channel, true⟩, p.headerBytes, payload⟩, 1⟩) := by
  intro p
  have hread : Datagram.ofBytes p.toBytes =
      .ok ⟨⟨sequence, none, channel, true⟩, p.headerBytes, payload⟩ :=
    Datagram.ofBytes_toBytes (fun _ hplace => by cases hplace) h
  rw [(Assembler.receiveBytes_of_ok hread a now).2, (Assembler.receive_of_short rfl).2]
  rfl

end Packet

namespace Router

variable {m : Type → Type} [Monad m]

/-- A router hands a message to one handler and to no other one, which finds what was sent. -/
structure HandsTo (r : Router m) (message : Message) (handler : Handler m) (channel : String)
    (payload : Bytes) : Prop where
  channel_eq : message.channel = channel
  payload_eq : message.payload = payload
  dispatch_eq : r.dispatch message = do
    handler message
    return .routed

/-- An assembler without limits is given some parts of a message. It answers the last one with a
message and those before it with none, and the router hands the message to the handler with its
channel and payload as they were sent. -/
def DeliversTo (r : Router m) (s : Sending) (before : List Submission) (x : Submission)
    (handler : Handler m) : Prop :=
  ∃ message,
    (Run.trace Assembler.callBytes (.start ⟨none, none⟩)
        ((before ++ [x]).map Submission.call)).map Prod.snd =
      List.replicate before.length (.given (.ok none)) ++ [.given (.ok (some message))] ∧
    r.HandsTo message handler s.channel s.payload

/-- For no message that is handed out does a handler matter whose channel has a zero character in
its name. For every other channel that has a handler, a message that is sent on it comes to the
handler that was registered first for the channel, with its channel and payload as they were sent:
in one datagram, in parts of any size that gather, the last one behind all others, and so in parts
that arrive once each in any order that has the last one at its end. -/
theorem dispatch_delivered (registrations : List (Registration m)) :
    let r := ofRegistrations registrations
    (∀ (limits : Limits) (calls : List (Call Bytes)) (c : Call Bytes) (reply : Reply Rejection)
        (message : Message),
      (c, reply) ∈ Run.trace Assembler.callBytes (.start limits) calls →
      reply.message? = some message →
        '\x00' ∉ message.channel.toList ∧
        (ofRegistrations (registrations.filter (!·.namesZero))).dispatch message =
          r.dispatch message) ∧
    ∀ (channel : String) (handler : Handler m), '\x00' ∉ channel.toList →
      registrations.findSome? (·.handlerFor? channel) = some handler →
      (∀ (a : Assembler) (sequence : SequenceNumber) (payload : Bytes) (now : Time),
        ∃ message,
          (a.receiveBytes (Packet.toBytes ⟨sequence, none, channel, payload⟩) now).answer =
            .ok (some message) ∧
          r.HandsTo message handler channel payload) ∧
      ∀ (s : Sending) (before : List Submission) (x : Submission), s.channel = channel →
        (s.Gathers before x → x.Completes before → r.DeliversTo s before x handler) ∧
        (s.Shuffled before x → r.DeliversTo s before x handler) := by
  intro r
  refine ⟨?_, ?_⟩
  · intro limits calls c reply message htrace hm
    obtain ⟨wire, hread⟩ := Assembler.exists_wire_of_message? htrace hm
    have hzero := Datagram.zero_notMem_channel hread
    exact ⟨hzero, dispatch_filter_namesZero registrations hzero⟩
  · intro channel handler hzero hhandler
    have hroute : r.routes.get? channel = some handler :=
      (get?_routes_ofRegistrations registrations channel).trans hhandler
    refine ⟨?_, ?_⟩
    · intro a sequence payload now
      exact ⟨_, Packet.answer_of_short hzero payload a now, rfl, rfl, dispatch_of_get? hroute⟩
    · rintro s before x rfl
      have hdelivers (hgathers : s.Gathers before x) (hcompletes : x.Completes before) :
          r.DeliversTo s before x handler :=
        ⟨s.message, Assembler.trace_of_gathers hgathers hcompletes, rfl, rfl,
          dispatch_of_get? hroute⟩
      exact ⟨hdelivers, fun hshuffled => hdelivers hshuffled.gathers hshuffled.completes⟩

/-- Three parts of a message, the second of which arrives twice and at first before the first one,
while the clock goes back; and without its earlier copy. The channel has two handlers, and another
one has its name with a zero character behind it. -/
theorem dispatch_delivered_swapped :
    let note (text : String) : Handler (StateM (List String)) := fun _ => modify (text :: ·)
    let registrations : List (Registration (StateM (List String))) :=
      [.fallback (note "fallback"), .route "A\x00" (note "zero"), .route "A" (note "first"),
        .route "A" (note "second")]
    let s : Sending := ⟨7, "A", [1, 2, 3], 1, by decide, by decide,
      [⟨7, some ⟨3, 0, 0, 3⟩, "A", [1]⟩, ⟨7, some ⟨3, 1, 1, 3⟩, "A", [2]⟩,
        ⟨7, some ⟨3, 2, 2, 3⟩, "A", [3]⟩], by decide⟩
    let before : List Submission :=
      [⟨s, 1, by decide, 5⟩, ⟨s, 0, by decide, 3⟩, ⟨s, 1, by decide, 1000000003⟩]
    let x : Submission := ⟨s, 2, by decide, 2000000003⟩
    s.Gathers before x ∧ x.Completes before ∧ s.Shuffled before.tail x ∧
      registrations.findSome? (·.handlerFor? "A") = some (note "first") ∧
      (ofRegistrations registrations).DeliversTo s before x (note "first") ∧
      (ofRegistrations registrations).DeliversTo s before.tail x (note "first") := by
  intro note registrations s before x
  have hgathers : s.Gathers before x := ⟨by decide, by decide, by decide⟩
  have hcompletes : x.Completes before := by decide
  have hshuffled : s.Shuffled before.tail x := ⟨by decide, by decide, by decide, by decide⟩
  have hhandler : registrations.findSome? (·.handlerFor? "A") = some (note "first") := rfl
  obtain ⟨-, hdelivered⟩ := dispatch_delivered registrations
  have hparts := (hdelivered "A" (note "first") (by decide) hhandler).2
  exact ⟨hgathers, hcompletes, hshuffled, hhandler, (hparts s before x rfl).1 hgathers hcompletes,
    (hparts s before.tail x rfl).2 hshuffled⟩

end Router

end LcmWire
