import LcmWire.Proofs.Assembler.Renewal

/-!
# Sweeping

No timer forgets what is over: each call does, by its own time. So sweeps have to add up. Two of
them, in either order of their times, leave what one at the later time leaves (`evict_evict`), and a
message that has waited too long is told by one of them, the first that finds it so
(`mem_expired_evict_iff`). As a call sweeps before it takes a datagram in, an earlier sweep does not
show in it (`receive_evict`). The main statement `sweep_sweep` collects this.
-/

namespace LcmWire

/-- What passes one test and then another one passes both at once. -/
theorem Table.filter_filter {κ α : Type} [Ord κ] (t : Table κ α) (p q : α → Bool) :
    (t.filter p).filter q = t.filter fun a => p a && q a := by
  refine ext_entries ((List.filter_filter ..).trans ?_)
  simp only [filter, Bool.and_comm]

namespace Assembly

/-- An assembly has waited too long at the later of two times if it has at one of them. -/
theorem timeout_lt_max_sub_iff {m : Assembly} {first second : Time} :
    timeout < max first second - m.lastSeen ↔
      timeout < first - m.lastSeen ∨ timeout < second - m.lastSeen := by
  simp only [Nat.lt_sub_iff_add_lt, lt_max_iff]

/-- An assembly survives two calls exactly if it survives the later of them. -/
theorem survives_max (m : Assembly) (first second : Time) :
    m.survives (max first second) = (m.survives first && m.survives second) := by
  rw [Bool.eq_iff_iff, Bool.and_eq_true]
  simp only [survives_iff, ← Nat.not_lt, timeout_lt_max_sub_iff]
  tauto

end Assembly

namespace Assembler

/-- Two sweeps leave what one sweep at the later of their times leaves. -/
theorem evict_evict (a : Assembler) (first second : Time) :
    (a.evict first).evict second = a.evict (max first second) := by
  have hsurvives : (fun m : Assembly => m.survives first && m.survives second) =
      (·.survives (max first second)) :=
    funext fun m => (m.survives_max first second).symm
  exact congrArg (Assembler.mk a.limits) ((Table.filter_filter ..).trans
    (congrArg a.assemblies.filter hsurvives))

/-- What was forgotten at a time is not there to be forgotten earlier. -/
theorem evict_evict_of_le (a : Assembler) {earlier later : Time} (h : earlier ≤ later) :
    (a.evict earlier).evict later = a.evict later := by
  rw [evict_evict, Nat.max_eq_right h]

/-- No message is told twice. -/
theorem nodup_expired (a : Assembler) (now : Time) : (a.expired now).Nodup :=
  Table.nodup_keys _

/-- A later sweep tells a message unless the earlier one has told it. -/
theorem mem_expired_evict_iff {a : Assembler} {first second : Time} {sequence : SequenceNumber} :
    sequence ∈ (a.evict first).expired second ↔
      sequence ∈ a.expired second ∧ sequence ∉ a.expired first := by
  simp only [mem_expired_iff, get?_evict_eq_some_iff]
  constructor
  · rintro ⟨m, ⟨hm, hc, hfresh⟩, -, hstale⟩
    refine ⟨⟨m, hm, hc, hstale⟩, ?_⟩
    rintro ⟨n, hn, -, hlate⟩
    obtain rfl := Option.some.inj (hm.symm.trans hn)
    exact Nat.not_lt_of_le hfresh hlate
  · rintro ⟨⟨m, hm, hc, hstale⟩, hnot⟩
    refine ⟨m, ⟨hm, hc, Nat.le_of_not_lt fun hlate => hnot ⟨m, hm, hc, hlate⟩⟩, hc, hstale⟩

/-- What has waited too long at one of two times has done so at the later of them. -/
theorem mem_expired_max_iff {a : Assembler} {first second : Time} {sequence : SequenceNumber} :
    sequence ∈ a.expired (max first second) ↔
      sequence ∈ a.expired first ∨ sequence ∈ a.expired second := by
  simp only [mem_expired_iff, Assembly.timeout_lt_max_sub_iff, and_or_left, exists_or]

/-- A sweep that is not later does not show in a call that takes a datagram in. -/
theorem receive_evict (a : Assembler) (d : Datagram) {earlier now : Time} (h : earlier ≤ now) :
    ((a.evict earlier).receive d now).state = (a.receive d now).state ∧
      ((a.evict earlier).receive d now).answer = (a.receive d now).answer := by
  simp only [receive, sweep, evict_evict_of_le a h, and_self]

/-- Two sweeps, at any times, leave what one sweep at the later time leaves: every assembly that was
not handed out and has not waited for longer than the timeout, as it was. What they tell is what the
one sweep tells, each message once: those that were not handed out and have waited for longer than
the timeout. So a sweep before a datagram that is not earlier changes nothing of what becomes of
it. -/
theorem sweep_sweep (a : Assembler) (first second : Time) :
    let one := a.sweep first
    let two := one.state.sweep second
    let once := a.sweep (max first second)
    two.state = once.state ∧
    one.answer.Nodup ∧ two.answer.Nodup ∧ one.answer.Disjoint two.answer ∧
    (∀ sequence, sequence ∈ one.answer ∨ sequence ∈ two.answer ↔ sequence ∈ once.answer) ∧
    (∀ sequence, sequence ∈ once.answer ↔ ∃ m, a.assemblies.get? sequence = some m ∧
      m.complete = false ∧ Assembly.timeout < max first second - m.lastSeen) ∧
    (∀ sequence m, once.state.assemblies.get? sequence = some m ↔
      a.assemblies.get? sequence = some m ∧ m.complete = false ∧
        max first second - m.lastSeen ≤ Assembly.timeout) ∧
    ∀ d now, first ≤ now →
      (one.state.receive d now).answer = (a.receive d now).answer ∧
        (one.state.receive d now).state = (a.receive d now).state := by
  intro one two once
  refine ⟨a.evict_evict first second, a.nodup_expired first, nodup_expired _ second, ?_, ?_,
    fun _ => mem_expired_iff, fun _ _ => get?_evict_eq_some_iff,
    fun d now h => (a.receive_evict d h).symm⟩
  · intro sequence hone htwo
    exact (mem_expired_evict_iff.mp htwo).2 hone
  · intro sequence
    change sequence ∈ a.expired first ∨ sequence ∈ (a.evict first).expired second ↔
      sequence ∈ a.expired (max first second)
    rw [mem_expired_evict_iff, mem_expired_max_iff]
    tauto

end Assembler

end LcmWire
