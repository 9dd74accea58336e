import LcmWire.Proofs.Assembler.Independence
import LcmWire.Proofs.Delivery.Parts
import Mathlib.Data.List.Chain
import Mathlib.Data.List.Nodup

/-!
# Parts that arrive in any order

Messages with different numbers are sent in parts, and the parts arrive in any order, any number of
times, amid whole messages and bytes that are no datagram. An assembler with room for all of them
hands a message out with each last part once none is missing: the assembly of a message is made of
the parts that are pending (`found?_after_deliver`), which is what the next part meets.
-/

namespace LcmWire

/-- What an assembler is called with while messages are sent in parts. -/
inductive Traffic where
  /-- A part arrives. -/
  | part (x : Submission)
  /-- A datagram arrives that is a whole message. -/
  | whole (x : Arrival) (place_eq : x.datagram.header.place = none) (now : Time)
  /-- Bytes arrive that are no datagram. -/
  | noise (wire : Bytes) (cause : Malformed) (read : Datagram.ofBytes wire = .error cause)
    (now : Time)
  /-- What is over is forgotten. -/
  | sweep (now : Time)

namespace Traffic

/-- The call that is made. -/
def call : Traffic → Call Bytes
  | part x => .give x.wire x.now
  | whole x _ now => .give x.wire now
  | noise wire _ _ now => .give wire now
  | sweep now => .sweep now

/-- When the call is made. -/
def now (t : Traffic) : Time := t.call.now

/-- The part of a message that arrives. -/
def part? (s : Sending) : Traffic → Option Submission
  | part x => if x.sending = s then some x else none
  | _ => none

theorem part?_eq_some_iff {s : Sending} {t : Traffic} {x : Submission} :
    t.part? s = some x ↔ t = part x ∧ x.sending = s := by
  cases t with
  | part y =>
    simp only [part?, Option.ite_none_right_eq_some, Option.some.injEq, part.injEq]
    constructor
    · rintro ⟨hs, rfl⟩
      exact ⟨rfl, hs⟩
    · rintro ⟨rfl, hs⟩
      exact ⟨hs, rfl⟩
  | whole => simp [part?]
  | noise => simp [part?]
  | sweep => simp [part?]

/-- Only parts of a message bring fragments of its number. -/
theorem brings_call_iff {sequence : SequenceNumber} {t : Traffic} :
    t.call.brings sequence = true ↔ ∃ x, t = part x ∧ x.sending.sequence = sequence := by
  cases t with
  | part x => simp [call, Call.brings, x.ofBytes_wire, Sending.datagram]
  | whole x hp now => simp [call, Call.brings, x.read, hp]
  | noise wire cause h now => simp [call, Call.brings, h]
  | sweep now => simp [call, Call.brings]

end Traffic

/-- A message is handed out. -/
def Reply.handsOut {ε : Type} : Reply ε → Bool
  | given (.ok (some _)) => true
  | _ => false

namespace Sending

/-- The parts that arrived since the message was last handed out. The latest comes first. -/
def pending (s : Sending) : List (Traffic × Reply Rejection) → List Submission
  | [] => []
  | (t, reply) :: past =>
    match t.part? s with
    | none => s.pending past
    | some x => if reply.handsOut then [] else x :: s.pending past

variable {s : Sending} {past : List (Traffic × Reply Rejection)}

theorem sending_eq_of_mem_pending {y : Submission} (h : y ∈ s.pending past) : y.sending = s := by
  induction past with
  | nil => cases h
  | cons e past ih =>
    unfold pending at h
    split at h
    · exact ih h
    · rename_i x hx
      split at h
      · cases h
      · rcases List.mem_cons.mp h with rfl | h
        · exact (Traffic.part?_eq_some_iff.mp hx).2
        · exact ih h

/-- The latest part that is pending is the latest of all. -/
theorem getLast?_of_head?_pending {y : Submission} (h : (s.pending past).head? = some y) :
    ((past.reverse.map Prod.fst).filterMap (Traffic.part? s)).getLast? = some y := by
  induction past with
  | nil => cases h
  | cons e past ih =>
    rw [List.reverse_cons, List.map_append, List.filterMap_append]
    unfold pending at h
    split at h
    · rename_i hx
      simpa [hx] using ih h
    · rename_i x hx
      split at h
      · cases h
      · simpa [hx] using h

end Sending

/-- Parts of some messages arrive amid other datagrams, and none of them waits too long for the
next. -/
structure Steady (messages : List Sending) (traffic : List Traffic) : Prop where
  /-- Only these messages are sent in parts. -/
  known : ∀ x, .part x ∈ traffic → x.sending ∈ messages
  /-- The clock does not go back. -/
  ordered : (traffic.map Traffic.now).Pairwise (· ≤ ·)
  /-- A part of a message comes before an assembly that waits for it is stale. -/
  prompt : ∀ s ∈ messages, ((traffic.filterMap (Traffic.part? s)).map Submission.now).IsChain
    fun earlier later => later - earlier ≤ Assembly.timeout

/-- Traffic is steady up to each call. -/
theorem Steady.left {messages : List Sending} {before after : List Traffic}
    (h : Steady messages (before ++ after)) : Steady messages before := by
  obtain ⟨hknown, hordered, hprompt⟩ := h
  refine ⟨fun x hx => hknown x (List.mem_append_left after hx), ?_, fun s hs => ?_⟩
  · rw [List.map_append] at hordered
    exact (List.pairwise_append.mp hordered).1
  · have hchain := hprompt s hs
    rw [List.filterMap_append, List.map_append] at hchain
    exact hchain.left_of_append

/-- No call before another one is later. -/
theorem Steady.now_le {messages : List Sending} {before : List Traffic} {t : Traffic}
    (h : Steady messages (before ++ [t])) : ∀ e ∈ before, e.now ≤ t.now := by
  intro e he
  have hordered := h.ordered
  rw [List.map_append] at hordered
  exact (List.pairwise_append.mp hordered).2.2 e.now (List.mem_map_of_mem he) t.now (by simp)

namespace Assembler

/-- Make the call of some traffic. -/
def deliver (a : Assembler) (t : Traffic) : Assembler × Reply Rejection := a.callBytes t.call

theorem after_deliver (a : Assembler) (traffic : List Traffic) :
    Run.after deliver a traffic = Run.after callBytes a (traffic.map Traffic.call) :=
  Run.after_map callBytes Traffic.call a traffic

theorem filed_after_deliver (limits : Limits) (traffic : List Traffic) :
    (Run.after deliver (.start limits) traffic).Holds Assembly.Filed := by
  rw [after_deliver]
  exact filed_after_callBytes limits _

@[simp] theorem limits_after_deliver (a : Assembler) (traffic : List Traffic) :
    (Run.after deliver a traffic).limits = a.limits := by
  rw [after_deliver, limits_after_callBytes]

section Steady

variable {limits : Limits} {messages : List Sending} {before : List Traffic}

/-- Only messages that are sent in parts are held. -/
theorem known_after_deliver (h : Steady messages before) :
    (Run.after deliver (.start limits) before).Holds fun sequence _ =>
      sequence ∈ messages.map Sending.sequence := by
  intro sequence m hm
  by_contra hnot
  have hbrings : ∀ c ∈ before.map Traffic.call, c.brings sequence = false := by
    intro c hc
    obtain ⟨t, ht, rfl⟩ := List.mem_map.mp hc
    rw [← Bool.not_eq_true, Traffic.brings_call_iff]
    rintro ⟨x, rfl, rfl⟩
    exact hnot (List.mem_map_of_mem (h.known x ht))
  rw [after_deliver, get?_after_of_not_brings limits hbrings] at hm
  cases hm

/-- A part that arrives comes in time for the parts that are pending. -/
theorem le_timeout_of_pending {x : Submission} (h : Steady messages (before ++ [.part x])) :
    ∀ y ∈ (x.sending.pending (Run.history deliver (.start limits) before)).head?,
      x.now - y.now ≤ Assembly.timeout := by
  intro y hy
  have hlast := Sending.getLast?_of_head?_pending hy
  rw [Run.map_fst_reverse_history] at hlast
  have hchain := h.prompt x.sending (h.known x (by simp))
  rw [List.filterMap_append, List.map_append, List.isChain_append] at hchain
  refine hchain.2.2 y.now ?_ x.now ?_
  · rw [List.getLast?_map, hlast]
    rfl
  · simp [Traffic.part?]

/-- What is neither a part of a message nor comes later leaves its assembly to be found. -/
theorem found?_deliver_of_part?_eq_none (hdistinct : (messages.map Sending.sequence).Nodup)
    {t : Traffic} (h : Steady messages (before ++ [t])) {s : Sending} (hs : s ∈ messages)
    (ht : t.part? s = none) (a : Assembler) {now : Time} (hnow : t.now ≤ now) :
    (a.deliver t).1.found? s.sequence now = a.found? s.sequence now := by
  have hbrings : t.call.brings s.sequence = false := by
    rw [← Bool.not_eq_true, Traffic.brings_call_iff]
    rintro ⟨x, rfl, hx⟩
    have hsending : x.sending = s :=
      List.inj_on_of_nodup_map hdistinct (h.known x (by simp)) hs hx
    rw [Traffic.part?_eq_some_iff.mpr ⟨rfl, hsending⟩] at ht
    cases ht
  exact ((AgreeFrom.refl s.sequence 0 a).callBytes_left (Nat.zero_le _) hbrings).found_eq now hnow

/-- A part that arrives is answered as its fragment is, and leaves what its fragment leaves. -/
theorem deliver_part (a : Assembler) (x : Submission) :
    (a.deliver (.part x)).1 = (a.receive x.fragment.datagram x.now).state ∧
      (a.deliver (.part x)).2 =
        .given ((a.receive x.fragment.datagram x.now).answer.mapError .refused) := by
  obtain ⟨hstate, hanswer⟩ := receiveBytes_of_ok x.ofBytes_wire a x.now
  exact ⟨hstate, congrArg Reply.given hanswer⟩

/-- A part that completes its message leaves nothing of it, and any other one is kept. -/
theorem Meets.found?_deliver {a : Assembler} {x : Submission} {earlier : List Submission}
    (h : a.Meets x earlier) {o : Option Message}
    (hans : (a.receive x.fragment.datagram x.now).answer = .ok o) {now : Time}
    (hfresh : o = none → now - x.now ≤ Assembly.timeout) :
    (a.deliver (.part x)).1.found? x.sending.sequence now = Assembly.ofFragments
      ((if o.isSome then [] else x :: earlier).map Submission.fragment) := by
  have hmade : ((a.deliver (.part x)).1.assemblies.get? x.sending.sequence).filter (!·.complete) =
      Assembly.ofFragments
        (Epoch.next x.fragment (earlier.map Submission.fragment) (.ok o)) := by
    rw [(deliver_part a x).1, ← hans]
    exact h.filed.made_receive h.found
  rw [found?_of_made hmade now]
  cases o with
  | some m => rfl
  | none =>
    have hlate : (some x.fragment).any (Assembly.timeout < now - ·.now) = false :=
      decide_eq_false (Nat.not_lt_of_le (hfresh rfl))
    simp only [Epoch.next, List.head?_cons, hlate]
    rfl

/-- As long as a message is not overdue, its assembly is made of the parts that are pending. -/
theorem found?_after_deliver (hdistinct : (messages.map Sending.sequence).Nodup)
    (hsuffice : limits.Suffice messages) (h : Steady messages before) {s : Sending}
    (hs : s ∈ messages) {now : Time} (hnow : ∀ t ∈ before, t.now ≤ now)
    (hfresh : ∀ y ∈ (s.pending (Run.history deliver (.start limits) before)).head?,
      now - y.now ≤ Assembly.timeout) :
    (Run.after deliver (.start limits) before).found? s.sequence now = Assembly.ofFragments
      ((s.pending (Run.history deliver (.start limits) before)).map Submission.fragment) := by
  induction before using List.reverseRecOn generalizing now with
  | nil => rfl
  | append_singleton before t ih =>
    rw [Run.history_concat] at hfresh ⊢
    rw [Run.after_concat]
    cases ht : t.part? s with
    | none =>
      simp only [Sending.pending, ht] at hfresh ⊢
      rw [found?_deliver_of_part?_eq_none hdistinct h hs ht _ (hnow t (by simp))]
      exact ih h.left (fun e he => hnow e (List.mem_append_left _ he)) hfresh
    | some x =>
      obtain ⟨rfl, rfl⟩ := Traffic.part?_eq_some_iff.mp ht
      have hmeets : (Run.after deliver (.start limits) before).Meets x
          (x.sending.pending (Run.history deliver (.start limits) before)) :=
        ⟨filed_after_deliver limits before, fun y hy => Sending.sending_eq_of_mem_pending hy,
          ih h.left h.now_le (le_timeout_of_pending h)⟩
      obtain ⟨o, hans⟩ : ∃ o, ((Run.after deliver (.start limits) before).receive
          x.fragment.datagram x.now).answer = .ok o := by
        rcases hmeets.answer_part (known_after_deliver h.left) (by rwa [limits_after_deliver]) hs
          with ⟨-, hans⟩ | ⟨-, hans⟩
        · exact ⟨_, hans⟩
        · exact ⟨_, hans⟩
      have hhands : (Reply.given ((Except.ok o).mapError Rejection.refused)).handsOut =
          o.isSome := by
        cases o <;> rfl
      simp only [Sending.pending, ht, (deliver_part _ x).2, hans, hhands] at hfresh ⊢
      apply hmeets.found?_deliver hans
      rintro rfl
      exact hfresh x rfl

/-- A part that arrives meets the parts of its message that are pending. -/
theorem meets_after_deliver (hdistinct : (messages.map Sending.sequence).Nodup)
    (hsuffice : limits.Suffice messages) {x : Submission}
    (h : Steady messages (before ++ [.part x])) :
    (Run.after deliver (.start limits) before).Meets x
      (x.sending.pending (Run.history deliver (.start limits) before)) where
  filed := filed_after_deliver limits before
  same _ hy := Sending.sending_eq_of_mem_pending hy
  found := found?_after_deliver hdistinct hsuffice h.left (h.known x (by simp)) h.now_le
    (le_timeout_of_pending h)

end Steady

/-- Messages with different numbers are sent in parts to an assembler with room for all of them. No
part is refused, and exactly the last part of a message, once all others arrived since the message
was last handed out, is answered with the message that was sent. -/
theorem reply_deliver_part (limits : Limits) (messages : List Sending)
    (hdistinct : (messages.map Sending.sequence).Nodup) (hsuffice : limits.Suffice messages)
    (before after : List Traffic) (x : Submission)
    (h : Steady messages (before ++ .part x :: after)) :
    let pending := x.sending.pending (Run.history deliver (.start limits) before)
    let reply := ((Run.after deliver (.start limits) before).deliver (.part x)).2
    let m := x.sending.message
    (x.Completes pending → reply = .given (.ok (some m))) ∧
      (¬ x.Completes pending → reply = .given (.ok none)) ∧
      m.channel = x.sending.channel ∧ m.payload = x.sending.payload ∧
      m.datagram.header.sequence = x.sending.sequence ∧
      m.fragmentCount.toNat = x.sending.parts.length := by
  intro pending reply m
  rw [List.append_cons] at h
  have hmeets := meets_after_deliver hdistinct hsuffice h.left
  have hanswer := hmeets.answer_part (known_after_deliver h.left.left)
    (by rwa [limits_after_deliver]) (h.left.known x (by simp))
  have hreply : reply = _ := (deliver_part _ x).2
  refine ⟨?_, ?_, rfl, rfl, rfl, ?_⟩
  · intro hc
    rcases hanswer with ⟨-, hans⟩ | ⟨hnot, -⟩
    · rw [hreply, hans]
      rfl
    · exact absurd hc hnot
  · intro hnot
    rcases hanswer with ⟨hc, -⟩ | ⟨-, hans⟩
    · exact absurd hc hnot
    · rw [hreply, hans]
      rfl
  · rw [Sending.toNat_fragmentCount, Sending.length_parts]

/-- A message whose last part arrives twice, the second time behind all others, amid another message
in one part, a whole message of the same number and bytes that are no datagram. -/
theorem reply_deliver_part_twice :
    let s : Sending := ⟨7, "A", [1, 2, 3], 2, by decide, by decide,
      [⟨7, some ⟨3, 0, 0, 2⟩, "A", [1, 2]⟩, ⟨7, some ⟨3, 2, 1, 2⟩, "A", [3]⟩], by decide⟩
    let t : Sending := ⟨8, "é", [], 1, by decide, by decide,
      [⟨8, some ⟨0, 0, 0, 1⟩, "é", []⟩], by decide⟩
    let whole : Packet := ⟨7, none, "A", [9]⟩
    let before : List Traffic :=
      [.part ⟨s, 1, by decide, 0⟩, .noise [0x4C] (.truncated 4 1) (by decide) 5,
        .part ⟨t, 0, by decide, 10⟩, .part ⟨s, 0, by decide, 1000000000⟩,
        .whole ⟨whole.toBytes, ⟨⟨7, none, "A", true⟩, whole.headerBytes, [9]⟩, by decide⟩ rfl
          1500000000,
        .sweep 1500000000]
    let x : Submission := ⟨s, 1, by decide, 2000000000⟩
    ([s, t].map Sending.sequence).Nodup ∧ Limits.Suffice ⟨some 2, some 3⟩ [s, t] ∧
      Steady [s, t] (before ++ .part x :: [.sweep 2000000000]) ∧
      ((Run.after deliver (.start ⟨some 2, some 3⟩) before).deliver (.part x)).2 =
        .given (.ok (some s.message)) := by
  intro s t whole before x
  have hdistinct : ([s, t].map Sending.sequence).Nodup := by decide
  have hsuffice : Limits.Suffice ⟨some 2, some 3⟩ [s, t] := by
    constructor
    · rintro limit ⟨⟩
      decide
    · rintro limit ⟨⟩
      decide
  have hsteady : Steady [s, t] (before ++ .part x :: [.sweep 2000000000]) := by
    refine ⟨?_, by decide, by decide⟩
    intro y hy
    simp only [before, List.cons_append, List.nil_append, List.mem_cons, Traffic.part.injEq,
      reduceCtorEq, List.not_mem_nil, or_false, false_or] at hy
    rcases hy with rfl | rfl | rfl | rfl <;> decide
  refine ⟨hdistinct, hsuffice, hsteady, ?_⟩
  apply (reply_deliver_part _ [s, t] hdistinct hsuffice before _ x hsteady).1
  decide +kernel

end Assembler

end LcmWire
