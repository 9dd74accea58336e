import LcmWire.Proofs.Assembler.Fate
import Mathlib.Data.List.Induction

/-!
# What a message is made of

The calls of a run, with the replies to them, decide what each assembly holds. Going back from the
latest call, the fragments of a sequence number that were taken in form its epoch, down to the call
that ended the message before: it was handed out, it was too large, or a call came more than the
timeout after its latest fragment. An assembly is its epoch, latest copy by latest copy
(`madeOf_after`), so the epoch alone tells when a fragment completes a message and which one.
-/

namespace LcmWire

/-- A fragment that arrived. -/
structure Fragment where
  /-- The bytes and what they say. -/
  arrival : Arrival
  /-- The place that they say the fragment has. -/
  place : Placement
  /-- They say so. -/
  place_eq : arrival.datagram.header.place = some place
  /-- When they arrived. -/
  now : Time

namespace Fragment

/-- What the fragment says. -/
def datagram (f : Fragment) : Datagram := f.arrival.datagram

/-- The number of the message that the fragment belongs to. -/
def sequence (f : Fragment) : SequenceNumber := f.datagram.header.sequence

/-- A fragment that was read lies in its message, so that message has fragments. -/
theorem index_lt_total (f : Fragment) : f.place.index < f.place.total :=
  Datagram.inRange_of_ofBytes f.arrival.read f.place f.place_eq

/-- A datagram that arrives as a fragment, unless it is a whole message. -/
def ofArrival? (x : Arrival) (now : Time) : Option Fragment :=
  match h : x.datagram.header.place with
  | some place => some ⟨x, place, h, now⟩
  | none => none

theorem ofArrival?_eq_some_iff {x : Arrival} {now : Time} {f : Fragment} :
    ofArrival? x now = some f ↔ x = f.arrival ∧ now = f.now := by
  unfold ofArrival?
  constructor
  · intro h
    split at h
    · rw [← Option.some.inj h]
      exact ⟨rfl, rfl⟩
    · cases h
  · rintro ⟨rfl, rfl⟩
    split
    · rename_i place hp
      obtain rfl : f.place = place := Option.some.inj (f.place_eq.symm.trans hp)
      rfl
    · rename_i hp
      cases f.place_eq.symm.trans hp

end Fragment

/-- The fragment of a sequence number that a call brings. -/
def Call.fragment? (sequence : SequenceNumber) : Call Arrival → Option Fragment
  | give x now => (Fragment.ofArrival? x now).filter (·.sequence = sequence)
  | sweep _ => none

/-- A call brings the fragment that it gives. -/
theorem Call.fragment?_eq_some_iff {sequence : SequenceNumber} {c : Call Arrival} {f : Fragment} :
    c.fragment? sequence = some f ↔ c = give f.arrival f.now ∧ f.sequence = sequence := by
  cases c with
  | sweep now => simp [fragment?]
  | give x now =>
    simp only [fragment?, Option.filter_eq_some_iff, Fragment.ofArrival?_eq_some_iff, give.injEq,
      decide_eq_true_eq]

/-- A call with the reply to it. -/
abbrev Entry := Call Arrival × Reply Refusal

namespace Entry

/-- The fragment of a sequence number that was taken in. Without room for its message, none is. -/
def accepted? (sequence : SequenceNumber) (e : Entry) : Option Fragment :=
  match e.2 with
  | .given (.error (.full _)) => none
  | _ => e.1.fragment? sequence

/-- A fragment of a sequence number ended its message, which was handed out or too large. -/
def ends (sequence : SequenceNumber) (e : Entry) : Bool :=
  (e.1.fragment? sequence).isSome &&
    match e.2 with
    | .given (.ok (some _)) => true
    | .given (.error (.oversized ..)) => true
    | _ => false

end Entry

namespace Epoch

/-- The latest fragment of a sequence number that was taken in. The latest entry comes first. -/
def latest? (sequence : SequenceNumber) (past : List Entry) : Option Fragment :=
  past.findSome? (Entry.accepted? sequence)

/-- The latest fragment lies further back than an assembly waits. -/
def overdue (sequence : SequenceNumber) (past : List Entry) (now : Time) : Bool :=
  (latest? sequence past).any fun f => Assembly.timeout < now - f.now

/-- The fragments of the message in assembly, the latest of which comes first. -/
def fragments (sequence : SequenceNumber) : List Entry → List Fragment
  | [] => []
  | e :: past =>
    if e.ends sequence then []
    else (e.accepted? sequence).toList ++
      if overdue sequence past e.1.now then [] else fragments sequence past

/-- The fragments of the message in assembly that a call at this time finds. -/
def fragmentsAt (sequence : SequenceNumber) (past : List Entry) (now : Time) : List Fragment :=
  if overdue sequence past now then [] else fragments sequence past

/-- The number of fragments that the first one declares. -/
def expected (epoch : List Fragment) : Nat := epoch.getLast?.elim 0 (·.place.total.toNat)

/-- The latest fragment with an index. -/
def copy? (epoch : List Fragment) (index : FragmentIndex) : Option Datagram :=
  (epoch.find? (·.place.index = index)).map Fragment.datagram

/-- A message that has begun has fragments. -/
theorem expected_pos {epoch : List Fragment} (h : epoch ≠ []) : 0 < expected epoch := by
  have hlt := (epoch.getLast h).index_lt_total
  rw [expected, List.getLast?_eq_some_getLast h]
  exact Nat.zero_lt_of_lt (UInt16.lt_iff_toNat_lt.mp hlt)

theorem fragments_cons (sequence : SequenceNumber) (e : Entry) (past : List Entry) :
    fragments sequence (e :: past) = if e.ends sequence then []
      else (e.accepted? sequence).toList ++ fragmentsAt sequence past e.1.now := rfl

/-- The fragments of the message in assembly once a fragment got its answer: the message may be
over, or the fragment was not taken in. -/
def next (f : Fragment) (earlier : List Fragment) :
    Except Refusal (Option Message) → List Fragment
  | .ok none => f :: earlier
  | .ok (some _) => []
  | .error (.full _) => earlier
  | .error (.oversized ..) => []
  | .error (.unreadable ..) => f :: earlier

/-- A call that brings no fragment of a sequence number leaves its epoch, or closes it by the
time. -/
theorem fragments_cons_of_fragment?_eq_none {c : Call Arrival} {sequence : SequenceNumber}
    (h : c.fragment? sequence = none) (reply : Reply Refusal) (past : List Entry) :
    fragments sequence ((c, reply) :: past) = fragmentsAt sequence past c.now := by
  have hends : Entry.ends sequence (c, reply) = false := by simp [Entry.ends, h]
  have haccepted : Entry.accepted? sequence (c, reply) = none := by
    unfold Entry.accepted?
    split
    · rfl
    · exact h
  rw [fragments_cons, hends, haccepted]
  rfl

/-- A fragment is put in front of its epoch, unless it finds no room or its message ends with
it. -/
theorem fragments_cons_of_fragment?_eq_some {c : Call Arrival} {sequence : SequenceNumber}
    {f : Fragment} (h : c.fragment? sequence = some f) (answer : Except Refusal (Option Message))
    (past : List Entry) :
    fragments sequence ((c, .given answer) :: past) =
      next f (fragmentsAt sequence past c.now) answer := by
  rw [fragments_cons]
  rcases answer with (_ | _ | _) | (_ | _) <;> simp [Entry.ends, Entry.accepted?, h, next]

/-- The message in assembly begins, seen from now, with the latest fragment of all. -/
theorem latest?_eq_head? {sequence : SequenceNumber} {past : List Entry} {f : Fragment}
    (h : (fragments sequence past).head? = some f) : latest? sequence past = some f := by
  induction past with
  | nil => cases h
  | cons e past ih =>
    rw [fragments_cons] at h
    split at h
    · cases h
    · rw [latest?, List.findSome?_cons]
      cases ha : e.accepted? sequence with
      | some g => simpa [ha] using h
      | none =>
        rw [ha, fragmentsAt] at h
        split at h
        · cases h
        · exact ih h

end Epoch

namespace Assembly

/-- The assembly that fragments make, the latest of which comes first. -/
def ofFragments : List Fragment → Option Assembly
  | [] => none
  | f :: earlier =>
    some (((ofFragments earlier).getD (.start f.place.total f.now)).add f.place.index f.datagram
      f.now)

/-- An assembly of fragments waits for others and was last seen with the latest of them. -/
theorem ofFragments_head {epoch : List Fragment} {m : Assembly} (h : ofFragments epoch = some m) :
    m.complete = false ∧ epoch.head?.map Fragment.now = some m.lastSeen := by
  induction epoch generalizing m with
  | nil => cases h
  | cons f earlier ih =>
    obtain rfl := Option.some.inj h
    refine ⟨?_, rfl⟩
    cases he : ofFragments earlier with
    | none => rfl
    | some n => exact (ih he).1

/-- An assembly of fragments has the number of fragments of the first one and the latest copy of
each. -/
theorem ofFragments_content {epoch : List Fragment} {m : Assembly}
    (h : ofFragments epoch = some m) :
    m.total.toNat = Epoch.expected epoch ∧
      ∀ index, m.fragments.get? index = Epoch.copy? epoch index := by
  induction epoch generalizing m with
  | nil => cases h
  | cons f earlier ih =>
    obtain rfl := Option.some.inj h
    have hcopy (n : Assembly) (hn : ∀ index, n.fragments.get? index = Epoch.copy? earlier index)
        (index : FragmentIndex) :
        (n.add f.place.index f.datagram f.now).fragments.get? index =
          Epoch.copy? (f :: earlier) index := by
      rw [add, Table.get?_insert, Epoch.copy?, List.find?_cons]
      by_cases hi : f.place.index = index
      · simp [hi]
      · simp [hi, Ne.symm hi, hn, Epoch.copy?]
    cases earlier with
    | nil => exact ⟨rfl, hcopy (.start f.place.total f.now) (fun _ => rfl)⟩
    | cons g earlier =>
      obtain ⟨htotal, hn⟩ := ih rfl
      exact ⟨htotal, hcopy _ hn⟩

/-- An assembly of fragments is not over. -/
theorem filter_ofFragments (epoch : List Fragment) :
    (ofFragments epoch).filter (!·.complete) = ofFragments epoch := by
  cases h : ofFragments epoch with
  | none => rfl
  | some m => simp [Option.filter, (ofFragments_head h).1]

/-- The fragments of a message can be joined once none of them is missing. -/
theorem join?_ne_none {m : Assembly} (hpos : 0 < m.total.toNat)
    (h : ∀ i < m.total.toNat, (m.fragments.get? (UInt16.ofNat i)).isSome = true) :
    m.join? ≠ none := by
  obtain ⟨first, hf⟩ := Option.isSome_iff_exists.mp (h 0 hpos)
  let parts := (List.range m.total.toNat).pmap
    (fun i hi => (m.fragments.get? (UInt16.ofNat i)).get (h i hi)) (fun i => List.mem_range.mp)
  have hp : m.inOrder? = some parts :=
    inOrder?_eq_some_iff.mpr ⟨by simp [parts], fun i hi => by simp [parts, hi]⟩
  rw [join?_eq_some_iff.mpr ⟨first, parts, hf, hp, rfl⟩]
  exact Option.some_ne_none _

end Assembly

namespace Assembler

section Fragments

variable {a : Assembler} {f : Fragment} {earlier : List Fragment}

/-- An assembly that is made of fragments is found until the latest of them is overdue. -/
theorem found?_of_made {sequence : SequenceNumber} {epoch : List Fragment}
    (h : (a.assemblies.get? sequence).filter (!·.complete) = Assembly.ofFragments epoch)
    (now : Time) :
    a.found? sequence now = Assembly.ofFragments
      (if epoch.head?.any (Assembly.timeout < now - ·.now) then [] else epoch) := by
  have hfound : a.found? sequence now = (Assembly.ofFragments epoch).filter (!·.isStale now) := by
    rw [found?_eq, ← h, Option.filter_filter]
    rfl
  rw [hfound]
  cases epoch with
  | nil => rfl
  | cons f earlier =>
    obtain ⟨m, hm⟩ : ∃ m, Assembly.ofFragments (f :: earlier) = some m := ⟨_, rfl⟩
    have hstale : m.isStale now = decide (Assembly.timeout < now - f.now) := by
      obtain rfl := Option.some.inj hm
      rfl
    rw [hm, Option.filter_some, hstale, List.head?_cons, Option.any_some]
    cases decide (Assembly.timeout < now - f.now) with
    | true => rfl
    | false => exact hm.symm

/-- A fragment joins the fragments of the assembly that it finds. -/
theorem grown_of_found? (h : a.found? f.sequence f.now = Assembly.ofFragments earlier) :
    Assembly.ofFragments (f :: earlier) = some (a.grown f.arrival f.place f.now) := by
  rw [Assembly.ofFragments, ← h]
  rfl

/-- With the answer to a fragment, what fragments the assembly that it found is made of then. -/
theorem Holds.made_receive (ha : a.Holds Assembly.Filed)
    (h : a.found? f.sequence f.now = Assembly.ofFragments earlier) :
    ((a.receive f.datagram f.now).state.assemblies.get? f.sequence).filter (!·.complete) =
      Assembly.ofFragments (Epoch.next f earlier (a.receive f.datagram f.now).answer) := by
  have hget (o : Option Assembly) :
      ((a.evict f.now).settle f.arrival.datagram.header.sequence o).assemblies.get? f.sequence =
        o := (get?_settle ..).trans (if_pos rfl)
  rw [Fragment.datagram]
  cases ha.fate f.arrival f.place_eq f.now with
  | full limit _ hs hans =>
    rw [hs, hans, Epoch.next, ← Assembly.filter_ofFragments, ← h]
    rfl
  | oversized limit _ _ _ hs hans =>
    rw [hs, hans, hget]
    rfl
  | waits _ _ _ hs hans =>
    rw [hs, hans, hget, ← grown_of_found? h]
    exact Assembly.filter_ofFragments _
  | assembled first parts d _ _ _ _ _ _ _ hs hans =>
    rw [hs, hans, hget]
    rfl

/-- A fragment completes a message exactly if it finds room, does not make the message too large, is
the last by its own count and leaves no index without a fragment. The message is the header of
fragment zero in front of all payloads, read from the latest copy of each. -/
theorem Holds.answer_receive (ha : a.Holds Assembly.Filed)
    (h : a.found? f.sequence f.now = Assembly.ofFragments earlier) :
    let epoch := f :: earlier
    let answer := (a.receive f.datagram f.now).answer
    ((∃ m, answer = .ok (some m)) ↔
      (∀ limit, answer ≠ .error (.full limit)) ∧
        (∀ sequence attempted limit, answer ≠ .error (.oversized sequence attempted limit)) ∧
        f.place.isLast = true ∧
        ∀ i < Epoch.expected epoch, (Epoch.copy? epoch (UInt16.ofNat i)).isSome = true) ∧
    ∀ m, answer = .ok (some m) →
      ∃ (first : Datagram) (parts : List Datagram), Epoch.copy? epoch 0 = some first ∧
        parts.length = Epoch.expected epoch ∧
        (∀ i < Epoch.expected epoch, parts[i]? = Epoch.copy? epoch (UInt16.ofNat i)) ∧
        Datagram.ofBytes (first.headerBytes ++ parts.flatMap Datagram.payload) = .ok m.datagram ∧
        m.fragmentCount.toNat = Epoch.expected epoch := by
  intro epoch answer
  obtain ⟨htotal, hcopy⟩ := Assembly.ofFragments_content (grown_of_found? h)
  cases ha.fate f.arrival f.place_eq f.now with
  | full limit _ _ hans =>
    have hanswer : answer = .error (.full limit) := hans
    simp [hanswer]
  | oversized limit _ _ _ _ hans =>
    have hanswer : answer = .error (.oversized ..) := hans
    simp [hanswer]
  | waits _ _ hopen _ hans =>
    have hanswer : answer = .ok none := hans
    refine ⟨⟨by simp [hanswer], ?_⟩, by simp [hanswer]⟩
    rintro ⟨-, -, hlast, hall⟩
    refine absurd (hopen hlast) (Assembly.join?_ne_none ?_ ?_)
    · exact htotal ▸ Epoch.expected_pos (List.cons_ne_nil _ _)
    · intro i hi
      rw [hcopy]
      exact hall i (htotal ▸ hi)
  | assembled first parts d _ _ hlast hf hparts hd _ _ hans =>
    have hanswer : answer = .ok (some ⟨d, (a.grown f.arrival f.place f.now).total⟩) := hans
    obtain ⟨hlength, hget⟩ := Assembly.inOrder?_eq_some_iff.mp hparts
    rw [htotal] at hlength hget
    have hpart (i : Nat) (hi : i < Epoch.expected epoch) :
        parts[i]? = Epoch.copy? epoch (UInt16.ofNat i) := (hget i hi).trans (hcopy _)
    constructor
    · refine iff_of_true ⟨_, hanswer⟩ ⟨by simp [hanswer], by simp [hanswer], hlast, ?_⟩
      intro i hi
      have hlt : i < parts.length := Nat.lt_of_lt_of_eq hi hlength.symm
      rw [← hpart i hi, List.getElem?_eq_getElem hlt]
      rfl
    · intro m hm
      obtain rfl : ⟨d, _⟩ = m := by simpa [hanswer] using hm
      exact ⟨first, parts, hcopy 0 ▸ hf, hlength, hpart, hd, htotal⟩

end Fragments

/-- The assemblies that are not over are made of what the calls so far say. -/
def MadeOf (a : Assembler) (past : List Entry) : Prop :=
  ∀ sequence, (a.assemblies.get? sequence).filter (!·.complete) =
    Assembly.ofFragments (Epoch.fragments sequence past)

/-- What a call finds is what the calls before it say that it finds. -/
theorem MadeOf.found? {a : Assembler} {past : List Entry} (h : a.MadeOf past)
    (sequence : SequenceNumber) (now : Time) :
    a.found? sequence now = Assembly.ofFragments (Epoch.fragmentsAt sequence past now) := by
  rw [found?_of_made (h sequence), Epoch.fragmentsAt, Epoch.overdue]
  cases hf : Epoch.fragments sequence past with
  | nil => simp
  | cons f earlier => rw [Epoch.latest?_eq_head? (by rw [hf]; rfl)]; rfl

/-- A call without a fragment of the sequence number only forgets. -/
theorem get?_call_of_fragment?_eq_none {c : Call Arrival} {sequence : SequenceNumber}
    (h : c.fragment? sequence = none) (a : Assembler) :
    (a.call c).1.assemblies.get? sequence = a.found? sequence c.now := by
  cases c with
  | sweep now => rfl
  | give x now =>
    cases hp : x.datagram.header.place with
    | none => rw [call, (receive_of_short hp).1]; rfl
    | some place =>
      refine get?_receive_of_ne ?_ now
      rintro rfl
      let f : Fragment := ⟨x, place, hp, now⟩
      have hsome : (Call.give x now).fragment? x.datagram.header.sequence = some f :=
        Call.fragment?_eq_some_iff.mpr ⟨rfl, rfl⟩
      cases h.symm.trans hsome

/-- Calls keep assemblies made of what the calls so far say. -/
theorem MadeOf.call {a : Assembler} {past : List Entry} (h : a.MadeOf past)
    (ha : a.Holds Assembly.Filed) (c : Call Arrival) :
    (a.call c).1.MadeOf ((c, (a.call c).2) :: past) := by
  intro sequence
  cases hc : c.fragment? sequence with
  | none =>
    rw [get?_call_of_fragment?_eq_none hc, Epoch.fragments_cons_of_fragment?_eq_none hc, h.found?,
      Assembly.filter_ofFragments]
  | some f =>
    obtain ⟨rfl, rfl⟩ := Call.fragment?_eq_some_iff.mp hc
    rw [Assembler.call, Epoch.fragments_cons_of_fragment?_eq_some hc]
    exact ha.made_receive (h.found? f.sequence f.now)

/-- In every run, an assembly that is not over is made of what the calls so far say. -/
theorem madeOf_after (limits : Limits) (calls : List (Call Arrival)) :
    (Run.after call (.start limits) calls).MadeOf (Run.history call (.start limits) calls) := by
  induction calls using List.reverseRecOn with
  | nil => exact fun _ => rfl
  | append_singleton calls c ih =>
    rw [Run.after_concat, Run.history_concat]
    exact ih.call (filed_after limits calls) c

/-- Whatever was called before, a fragment completes a message exactly if it finds room, does not
make the message too large, is the last by its own count and leaves no index of its epoch without a
fragment. The message is the header of fragment zero in front of all payloads, read from the latest
copy of each, and its number of fragments is that of the first fragment of the epoch. -/
theorem receive_epoch (limits : Limits) (calls : List (Call Arrival)) (f : Fragment) :
    let epoch := f :: Epoch.fragmentsAt f.sequence (Run.history call (.start limits) calls) f.now
    let answer := ((Run.after call (.start limits) calls).receive f.datagram f.now).answer
    ((∃ m, answer = .ok (some m)) ↔
      (∀ limit, answer ≠ .error (.full limit)) ∧
        (∀ sequence attempted limit, answer ≠ .error (.oversized sequence attempted limit)) ∧
        f.place.isLast = true ∧
        ∀ i < Epoch.expected epoch, (Epoch.copy? epoch (UInt16.ofNat i)).isSome = true) ∧
    ∀ m, answer = .ok (some m) →
      ∃ (first : Datagram) (parts : List Datagram), Epoch.copy? epoch 0 = some first ∧
        parts.length = Epoch.expected epoch ∧
        (∀ i < Epoch.expected epoch, parts[i]? = Epoch.copy? epoch (UInt16.ofNat i)) ∧
        Datagram.ofBytes (first.headerBytes ++ parts.flatMap Datagram.payload) = .ok m.datagram ∧
        m.fragmentCount.toNat = Epoch.expected epoch := by
  have ha := filed_after limits calls
  have hfound := (madeOf_after limits calls).found? f.sequence f.now
  exact ha.answer_receive hfound

end Assembler

end LcmWire
