import LcmWire.Proofs.Assembler.Balance
import LcmWire.Report.Tally
import Mathlib.Algebra.BigOperators.Group.List.Basic

/-!
# Counters tell what happened

An assembler that starts with an empty tally, and adds each event to it, counts its own answers:
every call adds to each counter what the answer to it calls for (`sum_weight_happens`), so in every
run the totals are the numbers of answers of each sort, modulo `2 ^ 64` (`total_after`). Together
with the balance of messages this is `counters_after`: no message in assembly is lost uncounted.
-/

namespace LcmWire

/-- How much an event counts for a counter. -/
def Event.weight (c : Counter) : Event → Nat
  | .dropped cause => if .dropped cause.reason = c then 1 else 0
  | .received kind => if .datagrams kind = c then 1 else 0
  | .expired sequences => if .expired = c then sequences.length else 0
  | .refused cause => if .failures cause.reason = c then 1 else 0
  | .assembled => if .assembled = c then 1 else 0
  | _ => 0

namespace Tally

theorem total_add_ofNat (t : Tally) (c d : Counter) (n : Nat) :
    (t.add d (UInt64.ofNat n)).total c = t.total c + UInt64.ofNat (if d = c then n else 0) := by
  rw [total_add]
  by_cases h : c = d
  · rw [if_pos h, if_pos h.symm]
  · rw [if_neg h, if_neg (Ne.symm h)]
    exact (UInt64.add_zero _).symm

/-- An event adds its weight. -/
theorem total_count (t : Tally) (e : Event) (c : Counter) :
    (t.count e).total c = t.total c + UInt64.ofNat (e.weight c) := by
  cases e with
  | dropped cause => exact t.total_add_ofNat c _ 1
  | received kind => exact t.total_add_ofNat c _ 1
  | expired sequences => exact t.total_add_ofNat c _ _
  | refused cause => exact t.total_add_ofNat c _ 1
  | assembled => exact t.total_add_ofNat c _ 1
  | totalMismatch | replaced | lastBeforeRest => exact (UInt64.add_zero _).symm

/-- Events add up. -/
theorem total_countAll (t : Tally) (events : List Event) (c : Counter) :
    (t.countAll events).total c =
      t.total c + UInt64.ofNat (events.map (Event.weight c)).sum := by
  induction events generalizing t with
  | nil => simp [countAll]
  | cons e events ih =>
    have hstep := ih (t.count e)
    rw [total_count] at hstep
    rw [List.map_cons, List.sum_cons, UInt64.ofNat_add, ← UInt64.add_assoc]
    exact hstep

end Tally

namespace Event

variable (c : Counter)

theorem sum_weight_ofExpired (sequences : List SequenceNumber) :
    ((ofExpired sequences).map (weight c)).sum =
      if .expired = c then sequences.length else 0 := by
  cases sequences with
  | nil => simp [ofExpired]
  | cons sequence rest => exact Nat.add_zero _

end Event

namespace Assembler

variable (c : Counter)

/-- What is told of a fragment that joins an assembly is not counted. -/
theorem sum_weight_joining (sequence : SequenceNumber) (m : Assembly) (place : Placement) :
    ((joining sequence m place).map (Event.weight c)).sum = 0 := by
  unfold joining
  split <;> split <;> rfl

/-- How much an answer counts for a counter. -/
def answered : Except Refusal (Option Message) → Nat
  | .ok reply => reply.toList.countP fun _ => .assembled = c
  | .error cause => if .failures cause.reason = c then 1 else 0

theorem sum_weight_finish (a : Assembler) (sequence : SequenceNumber) (m : Assembly) :
    ((a.finish sequence m).events.map (Event.weight c)).sum =
      answered c (a.finish sequence m).answer := by
  unfold finish
  split
  · rfl
  · split
    · simp [Event.weight, answered]
    · simp [Event.weight, answered]

/-- A fragment counts as its answer does. -/
theorem sum_weight_accept (a : Assembler) (d : Datagram) (place : Placement) (now : Time) :
    ((a.accept d place now).events.map (Event.weight c)).sum =
      answered c (a.accept d place now).answer := by
  cases hbefore : a.assemblyFor d.header.sequence place.total now with
  | error cause => simp [accept, hbefore, Event.weight, answered]
  | ok before =>
    have hjoining := sum_weight_joining c d.header.sequence before place
    cases hsize : a.checkSize d.header.sequence (before.add place.index d now).bufferedSize with
    | error cause => simp [accept, hbefore, hsize, hjoining, Event.weight, answered]
    | ok =>
      cases hlast : place.isLast with
      | false => simp [accept, hbefore, hsize, hlast, hjoining, answered]
      | true => simp [accept, hbefore, hsize, hlast, hjoining, sum_weight_finish]

/-- So does a whole message. -/
theorem sum_weight_take (a : Assembler) (d : Datagram) (now : Time) :
    ((a.take d now).events.map (Event.weight c)).sum = answered c (a.take d now).answer := by
  unfold take
  split
  · simp [Event.weight, answered]
  · exact sum_weight_accept ..

/-- What happens in a call, in order. -/
def happens (a : Assembler) : Call Bytes → List Event
  | .give wire now => (a.receiveBytes wire now).events
  | .sweep now => (a.sweep now).events

/-- How much a call should count for a counter, by the answer to it. -/
def owed (a : Assembler) (x : Call Bytes) : Nat :=
  let reply := (a.callBytes x).2
  x.kind?.toList.countP (.datagrams · = c) +
    reply.malformed?.toList.countP (.dropped ·.reason = c) +
    (if .expired = c then a.forgotten x else 0) +
    reply.refusal?.toList.countP (.failures ·.reason = c) +
    reply.message?.toList.countP fun _ => .assembled = c

/-- An answer to a fragment counts as what it tells the caller. -/
theorem answered_eq (answer : Except Refusal (Option Message)) :
    let reply : Reply Rejection := .given (answer.mapError .refused)
    reply.malformed? = none ∧ answered c answer =
      reply.refusal?.toList.countP (.failures ·.reason = c) +
        reply.message?.toList.countP fun _ => .assembled = c := by
  cases answer with
  | ok reply => exact ⟨rfl, (Nat.zero_add _).symm⟩
  | error cause =>
    simp [answered, Except.mapError, Reply.malformed?, Reply.refusal?, Reply.message?]

/-- What happens in a call counts as much as it should. -/
theorem sum_weight_happens (a : Assembler) (x : Call Bytes) :
    ((a.happens x).map (Event.weight c)).sum = a.owed c x := by
  cases x with
  | sweep now =>
    simp [happens, sweep, Event.sum_weight_ofExpired, owed, callBytes, Call.kind?, forgotten,
      Reply.refusal?, Reply.message?, Reply.malformed?]
  | give wire now =>
    cases hw : Datagram.ofBytes wire with
    | error cause =>
      simp [happens, receiveBytes, owed, Call.kind?, callBytes_of_error hw, hw, forgotten,
        Except.toOption, Reply.refusal?, Reply.message?, Reply.malformed?, Event.weight]
    | ok d =>
      have htake := sum_weight_take c (a.evict now) d now
      obtain ⟨hread, hanswered⟩ := answered_eq c (a.receive d now).answer
      have hkind : (Call.give wire now).kind? = some d.header.kind := by
        simp [Call.kind?, hw, Except.toOption]
      calc ((a.happens (.give wire now)).map (Event.weight c)).sum
        _ = (if .datagrams d.header.kind = c then 1 else 0) +
            ((if .expired = c then (a.expired now).length else 0) +
              answered c (a.receive d now).answer) := by
          simp [happens, receiveBytes, hw, receive, sweep, htake, Event.weight,
            Event.sum_weight_ofExpired]
        _ = a.owed c (.give wire now) := by
          rw [owed, callBytes_of_ok hw, forgotten_of_ok hw, hread, hkind, hanswered,
            length_expired]
          simp [Nat.add_assoc]

end Assembler

/-- An assembler with the counters of what happens to it. -/
structure Metered where
  /-- The assembler. -/
  assembler : Assembler
  /-- What was counted. -/
  tally : Tally

namespace Metered

/-- An assembler to which nothing has happened. -/
def start (limits : Limits) : Metered := ⟨.start limits, .empty⟩

/-- Make a call with bytes, and count what happens. -/
def call (s : Metered) (c : Call Bytes) : Metered × Reply Rejection :=
  (⟨(s.assembler.callBytes c).1, s.tally.countAll (s.assembler.happens c)⟩,
    (s.assembler.callBytes c).2)

/-- Counting does not change what an assembler does, and it counts all that happens. -/
theorem after_call (s : Metered) (calls : List (Call Bytes)) :
    Run.after call s calls = ⟨Run.after Assembler.callBytes s.assembler calls,
      s.tally.countAll ((Run.visits Assembler.callBytes s.assembler calls).flatMap
        fun v => v.1.happens v.2)⟩ := by
  induction calls generalizing s with
  | nil => rfl
  | cons c calls ih =>
    refine (ih (s.call c).1).trans ?_
    rw [Run.visits, List.flatMap_cons, Tally.countAll, Tally.countAll, List.foldl_append]
    rfl

end Metered

/-- Counting what each element of a list may give counts all that they give. -/
theorem sum_countP_toList {α β : Type} (l : List α) (f : α → Option β) (p : β → Bool) :
    (l.map fun x => (f x).toList.countP p).sum = (l.filterMap f).countP p := by
  induction l with
  | nil => rfl
  | cons x l ih => cases h : f x <;> simp [h, ih, List.countP_cons, Nat.add_comm]

namespace Assembler

/-- In every run, each counter has counted modulo `2 ^ 64` what the answers call for. -/
theorem total_after (limits : Limits) (calls : List (Call Bytes)) (c : Counter) :
    let visits := Run.visits callBytes (.start limits) calls
    let replies := (Run.trace callBytes (.start limits) calls).map Prod.snd
    (Run.after Metered.call (.start limits) calls).tally.total c = UInt64.ofNat (
      (calls.filterMap Call.kind?).countP (.datagrams · = c) +
      (replies.filterMap Reply.malformed?).countP (.dropped ·.reason = c) +
      (if .expired = c then (visits.map fun v => v.1.forgotten v.2).sum else 0) +
      (replies.filterMap Reply.refusal?).countP (.failures ·.reason = c) +
      (replies.filterMap Reply.message?).countP fun _ => .assembled = c) := by
  intro visits replies
  have hcalls : visits.map Prod.snd = calls := Run.map_snd_visits ..
  have hreplies : replies = visits.map fun v => (v.1.callBytes v.2).2 := by
    simp only [replies, Run.trace_eq_map_visits, List.map_map]
    rfl
  have howed : (Run.after Metered.call (.start limits) calls).tally.total c =
      UInt64.ofNat (visits.map fun v => v.1.owed c v.2).sum := by
    rw [Metered.after_call, Tally.total_countAll, sum_map_flatMap]
    simp only [sum_weight_happens]
    exact UInt64.zero_add _
  have hexpired : (visits.map fun v => if .expired = c then v.1.forgotten v.2 else 0).sum =
      if .expired = c then (visits.map fun v => v.1.forgotten v.2).sum else 0 := by
    split <;> simp
  rw [howed]
  simp only [owed, List.sum_map_add, hexpired, sum_countP_toList]
  simp only [hreplies, List.filterMap_map, ← hcalls]
  rfl

/-- In every run, the counters tell how many datagrams of each kind were read, how many were dropped
and how many fragments refused for each reason, how many messages were handed out and how many were
forgotten because they had waited too long. No message is lost uncounted: each that was begun is
unfinished, or was handed out, forgotten or dropped as too large. -/
theorem counters_after (limits : Limits) (calls : List (Call Bytes)) :
    let s := Run.after Metered.call (.start limits) calls
    let visits := Run.visits callBytes (.start limits) calls
    let replies := (Run.trace callBytes (.start limits) calls).map Prod.snd
    let forgotten := (visits.map fun v => v.1.forgotten v.2).sum
    s.assembler = Run.after callBytes (.start limits) calls ∧
    (∀ kind, s.tally.total (.datagrams kind) =
      UInt64.ofNat ((calls.filterMap Call.kind?).countP (· = kind))) ∧
    (∀ reason, s.tally.total (.dropped reason) =
      UInt64.ofNat ((replies.filterMap Reply.malformed?).countP (·.reason = reason))) ∧
    s.tally.total .assembled = UInt64.ofNat (replies.filterMap Reply.message?).length ∧
    (∀ reason, s.tally.total (.failures reason) =
      UInt64.ofNat ((replies.filterMap Reply.refusal?).countP (·.reason = reason))) ∧
    s.tally.total .expired = UInt64.ofNat forgotten ∧
    visits.countP (fun v => v.1.begins v.2) =
      s.assembler.unfinished + visits.countP (fun v => v.1.completes v.2) + forgotten +
        (replies.filterMap Reply.refusal?).countP Refusal.isOversized := by
  intro s visits replies forgotten
  have hassembler : s.assembler = Run.after callBytes (.start limits) calls :=
    congrArg Metered.assembler (Metered.after_call (.start limits) calls)
  refine ⟨hassembler, fun kind => ?_, fun reason => ?_, ?_, fun reason => ?_, ?_, ?_⟩
  · refine (total_after limits calls (.datagrams kind)).trans (congrArg UInt64.ofNat ?_)
    simp [Counter.eq_iff]
  · refine (total_after limits calls (.dropped reason)).trans (congrArg UInt64.ofNat ?_)
    simp [Counter.eq_iff, replies]
  · refine (total_after limits calls .assembled).trans (congrArg UInt64.ofNat ?_)
    simp [Counter.eq_iff, replies]
  · refine (total_after limits calls (.failures reason)).trans (congrArg UInt64.ofNat ?_)
    simp [Counter.eq_iff, replies]
  · refine (total_after limits calls .expired).trans (congrArg UInt64.ofNat ?_)
    simp [Counter.eq_iff, forgotten, visits]
  · have hdrops : visits.countP (fun v => v.1.drops v.2) =
        (replies.filterMap Reply.refusal?).countP Refusal.isOversized := by
      simp only [replies, Run.trace_eq_map_visits, List.map_map, List.filterMap_map,
        List.countP_filterMap]
      congr 1
      funext v
      simp only [drops, Function.comp_apply]
      cases (v.1.callBytes v.2).2.refusal? <;> rfl
    rw [hassembler, ← hdrops]
    exact balance_after limits calls

/-- One message is handed out with its second part. Another one waits for its own until a sweep
forgets it. -/
example :
    let part (sequence : SequenceNumber) (index : FragmentIndex) : Bytes :=
      Packet.toBytes ⟨sequence, some ⟨2, 0, index, 2⟩, "A", [1]⟩
    let calls : List (Call Bytes) := [.give (part 1 0) 0, .give (part 1 1) 1, .give (part 2 0) 2,
      .sweep (Assembly.timeout + 3)]
    let s := Run.after Metered.call (.start ⟨none, none⟩) calls
    s.tally.total (.datagrams .fragmented) = 3 ∧ s.tally.total .assembled = 1 ∧
      s.tally.total .expired = 1 ∧ s.assembler.unfinished = 0 := by
  decide +kernel

end Assembler

end LcmWire
