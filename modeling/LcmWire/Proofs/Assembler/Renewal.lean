import LcmWire.Packet.Basic
import LcmWire.Proofs.Assembler.Independence
import LcmWire.Proofs.Assembler.Refusing

/-!
# A sequence number is free again

A message ends with a call that hands it out, drops it as too large or forgets it in a sweep. Its
assembly may still be held then, but no call finds it any more (`found?_eq_none_of_ends`), so by
this sequence number the assembler is a new one. Without a limit on messages in assembly, calls keep
it so, at whatever times they are made (`AgreeFrom.trace_eq`): nothing of a message shows in the
answers to the next one of its number.
-/

namespace LcmWire

/-- With this reply, the message in assembly of a sequence number is over: a fragment completed it
or made it too large, or a sweep forgot it. -/
def Call.ends (sequence : SequenceNumber) (c : Call Bytes) : Reply Rejection → Bool
  | .given (.ok (some _)) => c.brings sequence
  | .given (.error (.refused (.oversized ..))) => c.brings sequence
  | .swept sequences => sequence ∈ sequences
  | _ => false

variable {sequence : SequenceNumber}

/-- What is given ends a message if it brings a fragment that completes it or makes it too large. -/
theorem Call.ends_give_iff {wire : Bytes} {now : Time}
    {answer : Except Rejection (Option Message)} :
    (give wire now).ends sequence (.given answer) = true ↔
      (give wire now).brings sequence = true ∧ ((∃ message, answer = .ok (some message)) ∨
        ∃ refused attempted limit, answer = .error (.refused (.oversized refused attempted limit)))
    := by
  rcases answer with (_ | _ | _) | (_ | _ | _) <;> simp [ends]

namespace Assembler

/-- A message that has waited too long is held and was not handed out. -/
theorem mem_expired_iff {a : Assembler} {now : Time} :
    sequence ∈ a.expired now ↔ ∃ m, a.assemblies.get? sequence = some m ∧ m.complete = false ∧
      Assembly.timeout < now - m.lastSeen := by
  simp [expired, Table.mem_keys_iff, Table.get?_filter, Option.filter_eq_some_iff,
    Assembly.isStale]

/-- A message that a sweep tells as waiting too long is not held afterwards. -/
theorem get?_evict_of_mem_expired {a : Assembler} {now : Time} (h : sequence ∈ a.expired now) :
    (a.evict now).assemblies.get? sequence = none := by
  obtain ⟨m, hm, -, hstale⟩ := mem_expired_iff.mp h
  rw [Option.eq_none_iff_forall_ne_some]
  intro n hn
  obtain ⟨hheld, -, hfresh⟩ := get?_evict_eq_some_iff.mp hn
  obtain rfl := Option.some.inj (hm.symm.trans hheld)
  exact absurd hstale (Nat.not_lt_of_le hfresh)

/-- What is not held, or was handed out, is not found. -/
theorem found?_eq_none_of_forall {a : Assembler}
    (h : ∀ m, a.assemblies.get? sequence = some m → m.complete = true) (now : Time) :
    a.found? sequence now = none := by
  rw [Option.eq_none_iff_forall_ne_some]
  intro m hm
  have hheld := hm
  rw [found?_eq, Option.filter_eq_some_iff] at hheld
  have hcomplete := complete_of_found? hm
  rw [h m hheld.1] at hcomplete
  cases hcomplete

/-- A fragment that ends its message leaves nothing of it that is not handed out. -/
theorem Verdict.complete_of_ends {left state : Assembler} {d : Datagram} {place : Placement}
    {now : Time} {answer : Except Refusal (Option Message)}
    (h : left.Verdict d place now state answer)
    (hends : (∃ message, answer = .ok (some message)) ∨
      ∃ refused attempted limit, answer = .error (.oversized refused attempted limit)) :
    ∀ m, state.assemblies.get? d.header.sequence = some m → m.complete = true := by
  intro m hm
  cases h with
  | noRoom limit => simp at hends
  | tooLarge limit =>
    rw [forget, Table.get?_erase_self] at hm
    cases hm
  | kept reply =>
    obtain ⟨message, rfl⟩ : ∃ message, reply = some message := by simpa using hends
    rw [hold, Table.get?_insert_self] at hm
    obtain rfl := Option.some.inj hm
    rfl

/-- No call finds a message that is over. -/
theorem found?_eq_none_of_ends {a : Assembler} (ha : a.Holds Assembly.Filed) {c : Call Bytes}
    (h : c.ends sequence (a.callBytes c).2 = true) (now : Time) :
    (a.callBytes c).1.found? sequence now = none := by
  apply found?_eq_none_of_forall
  cases c with
  | sweep swept =>
    have hnone : ((a.callBytes (.sweep swept)).1).assemblies.get? sequence = none :=
      get?_evict_of_mem_expired (of_decide_eq_true h)
    simp [hnone]
  | give wire given =>
    obtain ⟨hbrings, -⟩ := Call.ends_give_iff.mp h
    obtain ⟨d, place, hw, hp, rfl⟩ := Call.brings_give_iff.mp hbrings
    rw [callBytes_of_ok hw] at h ⊢
    apply (ha.verdict ⟨wire, d, hw⟩ hp given).complete_of_ends
    simpa only [mapError_refused_eq_iff, mapError_refused_eq_ok_iff] using
      (Call.ends_give_iff.mp h).2

/-- Assemblers that cannot be told apart by a sequence number stay so with every call. -/
theorem AgreeFrom.callBytes {a b : Assembler} (h : AgreeFrom sequence 0 a b)
    (hfree : a.limits.inFlight = none) (c : Call Bytes) :
    AgreeFrom sequence 0 (a.callBytes c).1 (b.callBytes c).1 := by
  cases hc : c.brings sequence with
  | true => exact (h.callBytes_both hfree (Nat.zero_le _) hc).2
  | false =>
    refine ⟨by simp [h.limits_eq], fun now hnow => ?_⟩
    rcases get?_callBytes_of_not_brings hc with hg | hg
    · rw [found?_eq, hg, ← found?_eq, h.found_eq now hnow, found?_eq, ← hg, ← found?_eq]
    · rw [found?_eq, hg, h.found_eq c.now (Nat.zero_le _), ← hg, ← found?_eq]

/-- Assemblers that cannot be told apart by a sequence number answer alike to its fragments. -/
theorem AgreeFrom.trace_eq {a b : Assembler} (h : AgreeFrom sequence 0 a b)
    (hfree : a.limits.inFlight = none) (calls : List (Call Bytes)) :
    (Run.trace Assembler.callBytes a calls).filter (fun e => e.1.brings sequence) =
      (Run.trace Assembler.callBytes b calls).filter fun e => e.1.brings sequence := by
  induction calls generalizing a b with
  | nil => rfl
  | cons c calls ih =>
    have hrest := ih (h.callBytes hfree c) (by simpa using hfree)
    rw [Run.trace, Run.trace, List.filter_cons, List.filter_cons, hrest]
    cases hc : c.brings sequence with
    | false => rfl
    | true => rw [(h.callBytes_both hfree (Nat.zero_le _) hc).1]

/-- Without a limit on messages in assembly, once a message is over its sequence number is free: all
fragments of this number that come later are answered as by a new assembler that is given only the
calls after that. The times of the calls are any. -/
theorem trace_after_ends (limits : Limits) (hfree : limits.inFlight = none)
    (sequence : SequenceNumber) (before : List (Call Bytes)) (c : Call Bytes)
    (hends : c.ends sequence ((Run.after callBytes (.start limits) before).callBytes c).2 = true)
    (after : List (Call Bytes)) :
    (Run.trace callBytes (Run.after callBytes (.start limits) (before ++ [c])) after).filter
        (fun e => e.1.brings sequence) =
      (Run.trace callBytes (.start limits) after).filter fun e => e.1.brings sequence := by
  have hagree : AgreeFrom sequence 0
      (Run.after callBytes (.start limits) (before ++ [c])) (.start limits) := by
    refine ⟨limits_after_callBytes (.start limits) (before ++ [c]), fun now _ => ?_⟩
    rw [Run.after_concat]
    exact found?_eq_none_of_ends (filed_after_callBytes limits before) hends now
  exact hagree.trace_eq (hagree.limits_eq ▸ hfree) after

/-- A message that its second part makes too large, at a time before that of its first one, and the
next message of its number, which is handed out. -/
theorem trace_after_ends_oversized :
    let limits : Limits := ⟨none, some 3⟩
    let part (index : FragmentIndex) (payload : Bytes) : Bytes :=
      Packet.toBytes ⟨7, some ⟨3, 0, index, 2⟩, "A", payload⟩
    let before : List (Call Bytes) := [.give (part 0 [1, 2]) 500000000]
    let c : Call Bytes := .give (part 1 [3, 4]) 400000000
    let after : List (Call Bytes) :=
      [.give (part 0 [5, 6]) 300000000, .give [0x4C] 300000000, .sweep 200000000,
        .give (part 1 [3]) 100000000]
    limits.inFlight = none ∧
      c.ends 7 ((Run.after callBytes (.start limits) before).callBytes c).2 = true ∧
      (Run.trace callBytes (Run.after callBytes (.start limits) (before ++ [c])) after).filter
          (fun e => e.1.brings 7) =
        (Run.trace callBytes (.start limits) after).filter fun e => e.1.brings 7 := by
  intro limits part before c after
  have hfree : limits.inFlight = none := rfl
  have hends :
      c.ends 7 ((Run.after callBytes (.start limits) before).callBytes c).2 = true := by
    decide +kernel
  exact ⟨hfree, hends, trace_after_ends limits hfree 7 before c hends after⟩

end Assembler

end LcmWire
