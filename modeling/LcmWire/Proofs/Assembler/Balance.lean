import LcmWire.Proofs.Assembler.Refusing

/-!
# The balance of messages

A fragment that finds no assembly begins a message. The message is then unfinished until it is
handed out, is too large or has waited too long, and it cannot be lost in any other way: every call
keeps the balance of the messages that were begun and those that ended (`Holds.balance`), and so
does every run (`balance_after`).
-/

namespace LcmWire

namespace Table

variable {κ α : Type} [Ord κ]

theorem size_filter_eq_countP (t : Table κ α) (p : α → Bool) :
    (t.filter p).size = t.values.countP p := by
  rw [values, List.countP_map, List.countP_eq_length_filter]
  rfl

theorem countP_values_filter (t : Table κ α) (p q : α → Bool) :
    (t.filter q).values.countP p = t.values.countP fun a => p a && q a := by
  rw [values, values, List.countP_map, List.countP_map, filter, List.countP_filter]
  rfl

variable [Std.LawfulEqOrd κ] [DecidableEq κ] [Std.TransOrd κ]

/-- Setting the value of a key leaves the entries of the others. -/
theorem entries_insert_perm (t : Table κ α) (k : κ) (a : α) :
    (t.insert k a).entries.Perm ((k, a) :: (t.erase k).entries) := by
  have hnot : (k, a) ∉ (t.erase k).entries := by
    rw [← get?_eq_some_iff, get?_erase_self]
    exact Option.not_mem_none a
  refine (List.perm_ext_iff_of_nodup (nodup_entries _)
    (List.nodup_cons.mpr ⟨hnot, nodup_entries _⟩)).mpr ?_
  rintro ⟨l, b⟩
  rw [List.mem_cons, ← get?_eq_some_iff, ← get?_eq_some_iff, get?_insert, get?_erase]
  by_cases hl : l = k
  · simp [hl, eq_comm]
  · simp [hl]

/-- Setting the value of a key counts this value with those of the other keys. -/
theorem countP_values_insert (t : Table κ α) (k : κ) (a : α) (p : α → Bool) :
    (t.insert k a).values.countP p = (t.erase k).values.countP p + if p a then 1 else 0 := by
  have hperm : (t.insert k a).values.Perm (a :: (t.erase k).values) :=
    (t.entries_insert_perm k a).map Prod.snd
  rw [hperm.countP_eq, List.countP_cons]

/-- Taking the value of a key away counts it no longer. -/
theorem countP_values_erase (t : Table κ α) (k : κ) (p : α → Bool) :
    (t.erase k).values.countP p + (if (t.get? k).any p then 1 else 0) = t.values.countP p := by
  cases h : t.get? k with
  | none =>
    have hsame : t.erase k = t := by
      refine ext_get? fun l => ?_
      rw [get?_erase]
      split
      · rename_i hl
        exact (hl ▸ h).symm
      · rfl
    rw [hsame]
    rfl
  | some a =>
    have hsame : t.insert k a = t := by
      refine ext_get? fun l => ?_
      rw [get?_insert]
      split
      · rename_i hl
        exact (hl ▸ h).symm
      · rfl
    rw [Option.any_some, ← countP_values_insert, hsame]

end Table

/-- There is no room for a further message. -/
def Refusal.isFull : Refusal → Bool
  | full _ => true
  | _ => false

/-- A message is too large. -/
def Refusal.isOversized : Refusal → Bool
  | oversized .. => true
  | _ => false

/-- The kind of the datagram that is given, if the bytes are one. -/
def Call.kind? : Call Bytes → Option Kind
  | give wire _ => (Datagram.ofBytes wire).toOption.map (·.header.kind)
  | sweep _ => none

namespace Assembler

/-- The number of messages held that were not handed out. -/
def unfinished (a : Assembler) : Nat := a.assemblies.values.countP fun m => !m.complete

/-- The number of those that have waited too long. -/
def overdue (a : Assembler) (now : Time) : Nat :=
  a.assemblies.values.countP fun m => !m.complete && m.isStale now

/-- The number of messages that a call forgets because they have waited too long. Bytes that are no
datagram make it forget none. -/
def forgotten (a : Assembler) (c : Call Bytes) : Nat :=
  match (a.callBytes c).2 with
  | .swept sequences => sequences.length
  | .given (.error (.malformed _)) => 0
  | .given _ => a.overdue c.now

/-- The call begins a message: it brings a fragment for which no assembly is left, and there is room
for one. -/
def begins (a : Assembler) (c : Call Bytes) : Bool :=
  match c with
  | .sweep _ => false
  | .give wire now =>
    match Datagram.ofBytes wire with
    | .error _ => false
    | .ok d =>
      d.header.place.isSome && ((a.evict now).assemblies.get? d.header.sequence).isNone &&
        !(a.callBytes c).2.refusal?.any Refusal.isFull

/-- The call hands a message out that was sent in fragments. -/
def completes (a : Assembler) (c : Call Bytes) : Bool :=
  c.kind? = some .fragmented && (a.callBytes c).2.message?.isSome

/-- The call drops a message that is too large. -/
def drops (a : Assembler) (c : Call Bytes) : Bool :=
  (a.callBytes c).2.refusal?.any Refusal.isOversized

/-- A sweep tells all messages that have waited too long. -/
theorem length_expired (a : Assembler) (now : Time) : (a.expired now).length = a.overdue now := by
  rw [expired, Table.keys, List.length_map]
  exact Table.size_filter_eq_countP ..

/-- An unfinished message is forgotten only if it has waited too long. -/
theorem unfinished_evict (a : Assembler) (now : Time) :
    (a.evict now).unfinished + a.overdue now = a.unfinished := by
  have hsplit := List.countP_eq_countP_filter_add a.assemblies.values
    (fun m => !m.complete) fun m => !m.isStale now
  rw [List.countP_filter, List.countP_filter] at hsplit
  rw [unfinished, evict, Table.countP_values_filter]
  simpa [unfinished, overdue] using hsplit.symm

/-- Holding an assembly puts it in the place of the one of its number. -/
theorem unfinished_hold (a : Assembler) (sequence : SequenceNumber) (m : Assembly) :
    (a.hold sequence m).unfinished =
      (a.forget sequence).unfinished + if m.complete then 0 else 1 := by
  rw [unfinished, hold, Table.countP_values_insert, unfinished, forget]
  cases m.complete <;> rfl

/-- Where its message was not handed out, a sequence number is forgotten with the message that is
held or would begin. -/
theorem unfinished_forget {a : Assembler} {sequence : SequenceNumber}
    (h : ∀ m, a.assemblies.get? sequence = some m → m.complete = false) :
    (if (a.assemblies.get? sequence).isNone then 1 else 0) + a.unfinished =
      (a.forget sequence).unfinished + 1 := by
  have herase := Table.countP_values_erase a.assemblies sequence fun m => !m.complete
  rw [unfinished, unfinished, forget, ← herase]
  cases hg : a.assemblies.get? sequence with
  | none => exact Nat.add_comm 1 _
  | some m => simp [h m hg]

/-- A fragment begins its message unless that is held or finds no room, and ends it if it completes
it or makes it too large. -/
theorem Verdict.balance {left state : Assembler} {d : Datagram} {place : Placement} {now : Time}
    {answer : Except Refusal (Option Message)} (h : left.Verdict d place now state answer)
    (hleft : ∀ m, left.assemblies.get? d.header.sequence = some m → m.complete = false) :
    let reply : Reply Rejection := .given (answer.mapError .refused)
    (if (left.assemblies.get? d.header.sequence).isNone && !reply.refusal?.any Refusal.isFull
        then 1 else 0) + left.unfinished =
      state.unfinished + (if reply.message?.isSome then 1 else 0) +
        if reply.refusal?.any Refusal.isOversized then 1 else 0 := by
  have hforget := unfinished_forget hleft
  cases h with
  | noRoom limit =>
    simp [Except.mapError, Reply.refusal?, Reply.message?, Refusal.isFull, Refusal.isOversized]
  | tooLarge limit =>
    simpa [Except.mapError, Reply.refusal?, Reply.message?, Refusal.isFull,
      Refusal.isOversized] using hforget
  | kept reply =>
    rw [unfinished_hold]
    cases reply <;> simpa [Except.mapError, Reply.refusal?, Reply.message?, assemblyWith] using
      hforget

/-- A call with a datagram forgets what has waited too long. -/
theorem forgotten_of_ok {wire : Bytes} {d : Datagram} (h : Datagram.ofBytes wire = .ok d)
    (a : Assembler) (now : Time) : a.forgotten (.give wire now) = a.overdue now := by
  rw [forgotten, callBytes_of_ok h]
  cases (a.receive d now).answer <;> rfl

/-- A call begins as many messages as it leaves more than before, hands out, forgets and drops. -/
theorem Holds.balance {a : Assembler} (ha : a.Holds Assembly.Filed) (c : Call Bytes) :
    (if a.begins c then 1 else 0) + a.unfinished =
      (a.callBytes c).1.unfinished + (if a.completes c then 1 else 0) + a.forgotten c +
        if a.drops c then 1 else 0 := by
  cases c with
  | sweep now =>
    have hevict := a.unfinished_evict now
    rw [← length_expired] at hevict
    simpa [begins, completes, Call.kind?, drops, forgotten, callBytes, sweep, Reply.refusal?] using
      hevict.symm
  | give wire now =>
    cases hw : Datagram.ofBytes wire with
    | error cause =>
      simp [begins, completes, Call.kind?, drops, forgotten, callBytes_of_error hw, hw,
        Except.toOption, Reply.refusal?]
    | ok d =>
      have hevict := a.unfinished_evict now
      rw [forgotten_of_ok hw, ← hevict]
      cases hp : d.header.place with
      | none =>
        have hkind : d.header.kind = .short := by simp [Header.kind, hp]
        obtain ⟨hs, hans⟩ :
            (a.receive d now).state = a.evict now ∧ (a.receive d now).answer = .ok (some ⟨d, 1⟩) :=
          receive_of_short hp
        simp [begins, completes, Call.kind?, drops, callBytes_of_ok hw, hw, hp, hs, hans, hkind,
          Except.toOption, Except.mapError, Reply.refusal?]
      | some place =>
        have hkind : d.header.kind = .fragmented := by simp [Header.kind, hp]
        have hbalance := (ha.verdict ⟨wire, d, hw⟩ hp now).balance fun m hm =>
          (get?_evict_eq_some_iff.mp hm).2.1
        have hbegins : a.begins (.give wire now) =
            (((a.evict now).assemblies.get? d.header.sequence).isNone &&
              !(a.callBytes (.give wire now)).2.refusal?.any Refusal.isFull) := by
          simp [begins, hw, hp]
        have hcompletes : a.completes (.give wire now) =
            (a.callBytes (.give wire now)).2.message?.isSome := by
          simp [completes, Call.kind?, hw, hkind, Except.toOption]
        rw [hbegins, hcompletes, drops, callBytes_of_ok hw]
        simp only at hbalance ⊢
        omega

/-- In every run, each message that was begun is unfinished, or was handed out, forgotten because it
had waited too long, or dropped because it was too large. -/
theorem balance_after (limits : Limits) (calls : List (Call Bytes)) :
    let visits := Run.visits callBytes (.start limits) calls
    visits.countP (fun v => v.1.begins v.2) =
      (Run.after callBytes (.start limits) calls).unfinished +
        visits.countP (fun v => v.1.completes v.2) +
        (visits.map fun v => v.1.forgotten v.2).sum +
        visits.countP fun v => v.1.drops v.2 := by
  induction calls using List.reverseRecOn with
  | nil => rfl
  | append_singleton calls c ih =>
    have hstep := (filed_after_callBytes limits calls).balance c
    simp only [Run.visits_concat, Run.after_concat, List.countP_append, List.countP_singleton,
      List.map_append, List.map_singleton, List.sum_append, List.sum_singleton] at ih ⊢
    omega

end Assembler

end LcmWire
