import LcmWire.Proofs.Assembler.Run
import LcmWire.Proofs.Datagram.Reading

/-!
# What becomes of a fragment

A fragment is refused, waits for others or completes its message (`Fate`). To complete it, the
assembler joins the header of fragment zero with all payloads and reads the bytes as a datagram.
Each fragment it keeps was read from bytes and is filed under its own numbers (`filed_after`), so
the joined bytes always are a datagram (`close_of_filed`), and fragment zero tells which one.
-/

namespace LcmWire

/-- A fragment was read from bytes and says that it belongs here. -/
structure Datagram.FiledUnder (d : Datagram) (sequence : SequenceNumber) (index : FragmentIndex) :
    Prop where
  /-- Some bytes are this datagram. -/
  read : ∃ wire, Datagram.ofBytes wire = .ok d
  sequence_eq : d.header.sequence = sequence
  place_eq : ∃ place, d.header.place = some place ∧ place.index = index

namespace Assembly

/-- Every fragment of the assembly belongs where it is kept. -/
def Filed (sequence : SequenceNumber) (m : Assembly) : Prop :=
  ∀ index d, m.fragments.get? index = some d → d.FiledUnder sequence index

/-- A fragment that is kept under its own index leaves the others where they are. -/
theorem Filed.add {sequence : SequenceNumber} {m : Assembly} {place : Placement} {now : Time}
    (hm : m.Filed sequence) {d : Datagram} (hd : d.FiledUnder sequence place.index) :
    (m.add place.index d now).Filed sequence := by
  intro index other ho
  rw [Assembly.add, Table.get?_insert] at ho
  by_cases hi : index = place.index
  · rw [if_pos hi] at ho
    obtain rfl := Option.some.inj ho
    exact hi ▸ hd
  · rw [if_neg hi] at ho
    exact hm index other ho

theorem filed_start (sequence : SequenceNumber) (total : UInt16) (now : Time) :
    (Assembly.start total now).Filed sequence := by
  intro index d h
  cases h

/-- Looking up each element of a list succeeds if every single look-up does. -/
theorem mapM_eq_some_iff {α β : Type} {f : α → Option β} {l : List α} {r : List β} :
    l.mapM f = some r ↔ l.map f = r.map some := by
  induction l generalizing r with
  | nil => cases r <;> simp
  | cons x l ih =>
    simp only [List.mapM_cons, Option.bind_eq_bind, Option.bind_eq_some_iff, Option.pure_def,
      Option.some.injEq, ih]
    constructor
    · rintro ⟨y, hy, rest, hrest, rfl⟩
      rw [List.map_cons, List.map_cons, hy, hrest]
    · intro h
      cases r with
      | nil => cases h
      | cons y rest =>
        obtain ⟨hy, hrest⟩ := List.cons.inj h
        exact ⟨y, hy, rest, hrest, rfl⟩

/-- The fragments in order are the copies at the positions of the message. -/
theorem inOrder?_eq_some_iff {m : Assembly} {parts : List Datagram} :
    m.inOrder? = some parts ↔ parts.length = m.total.toNat ∧
      ∀ i < m.total.toNat, parts[i]? = m.fragments.get? (UInt16.ofNat i) := by
  rw [inOrder?, mapM_eq_some_iff]
  constructor
  · intro h
    have hlength := congrArg List.length h
    rw [List.length_map, List.length_map, List.length_range] at hlength
    refine ⟨hlength.symm, fun i hi => ?_⟩
    have hget := congrArg (·[i]?) h
    simpa [hi, eq_comm, hlength ▸ hi] using hget
  · rintro ⟨hlength, h⟩
    apply List.ext_getElem (by simp [hlength])
    intro i hl hr
    rw [List.length_map] at hr
    simp [← h i (hlength ▸ hr), hr]

/-- The joined bytes are the header of fragment zero and the payloads in order. -/
theorem join?_eq_some_iff {m : Assembly} {wire : Bytes} :
    m.join? = some wire ↔ ∃ first parts, m.fragments.get? 0 = some first ∧
      m.inOrder? = some parts ∧ wire = first.headerBytes ++ parts.flatMap Datagram.payload := by
  simp only [join?, Option.bind_eq_bind, Option.bind_eq_some_iff, Option.pure_def,
    Option.some.injEq]
  constructor
  · rintro ⟨first, hf, parts, hp, rfl⟩
    exact ⟨first, parts, hf, hp, rfl⟩
  · rintro ⟨first, parts, hf, hp, rfl⟩
    exact ⟨first, hf, parts, hp, rfl⟩

/-- Where all fragments belong, closing an assembly completes it unless fragments are missing. -/
theorem close_of_filed {sequence : SequenceNumber} {m : Assembly} (hm : m.Filed sequence) :
    m.join? = none ∧ m.close sequence = ⟨some m, .ok none⟩ ∨
    ∃ first parts d, m.fragments.get? 0 = some first ∧ m.inOrder? = some parts ∧
      Datagram.ofBytes (first.headerBytes ++ parts.flatMap Datagram.payload) = .ok d ∧
      first.Rereads (parts.flatMap Datagram.payload) d ∧
      m.close sequence = ⟨some { m with complete := true }, .ok (some ⟨d, m.total⟩)⟩ := by
  rcases close_cases m sequence with hnone | ⟨wire, hj, hc⟩
  · exact .inl hnone
  · obtain ⟨first, parts, hf, hp, rfl⟩ := join?_eq_some_iff.mp hj
    obtain ⟨original, ho⟩ := (hm 0 first hf).read
    obtain ⟨d, hd, hr⟩ := Datagram.exists_rereads ho (parts.flatMap Datagram.payload)
    refine .inr ⟨first, parts, d, hf, hp, hd, hr, ?_⟩
    rcases hc with ⟨e, he, hc⟩ | ⟨cause, he, -⟩
    · obtain rfl : d = e := by simpa [hd] using he
      exact hc
    · rw [hd] at he
      cases he

/-- A fragment that starts or joins an assembly belongs where it is kept. -/
theorem filed_grown (x : Arrival) {place : Placement}
    (hp : x.datagram.header.place = some place) {m : Assembly} {now : Time}
    (hm : m = .start place.total now ∨ m.Filed x.datagram.header.sequence) :
    (m.add place.index x.datagram now).Filed x.datagram.header.sequence := by
  have hd : x.datagram.FiledUnder x.datagram.header.sequence place.index :=
    ⟨⟨x.wire, x.read⟩, rfl, place, hp, rfl⟩
  rcases hm with rfl | hm
  · exact Filed.add (filed_start x.datagram.header.sequence place.total now) hd
  · exact hm.add hd

end Assembly

namespace Assembler

/-- In every run, each fragment that is kept belongs where it is kept. -/
theorem filed_after (limits : Limits) (calls : List (Call Arrival)) :
    (Run.after call (.start limits) calls).Holds Assembly.Filed :=
  holds_after limits (fun x _ hp _ _ hm => Assembly.filed_grown x hp hm) (fun _ _ h => h) calls

/-- Bytes that are no datagram do not change this. -/
theorem filed_after_callBytes (limits : Limits) (calls : List (Call Bytes)) :
    (Run.after callBytes (.start limits) calls).Holds Assembly.Filed := by
  rw [after_callBytes]
  exact filed_after limits _

/-- With a fragment that arrives, the assembly that it joins has its fragments where they belong. -/
theorem Holds.filed_joined {a : Assembler} (ha : a.Holds Assembly.Filed) (x : Arrival)
    {place : Placement} (hp : x.datagram.header.place = some place) (now : Time) :
    ((a.joined x.datagram.header.sequence place.total now).add place.index x.datagram now).Filed
      x.datagram.header.sequence := by
  apply Assembly.filed_grown x hp
  rcases a.joined_cases x.datagram.header.sequence place.total now with hf | hf
  · exact .inr (ha.found? hf)
  · exact .inl hf

/-- The assembly that a fragment joins, with the fragment. -/
def grown (a : Assembler) (x : Arrival) (place : Placement) (now : Time) : Assembly :=
  (a.joined x.datagram.header.sequence place.total now).add place.index x.datagram now

/-- What becomes of a fragment: it is refused, or it is kept and its message waits, or it completes
its message. -/
inductive Fate (a : Assembler) (x : Arrival) (place : Placement) (now : Time)
    (outcome : Outcome (Except Refusal (Option Message))) : Prop where
  /-- There is no room for a further message. -/
  | full (limit : Nat) (noRoom : ¬ a.HasRoom x.datagram.header.sequence now)
      (state : outcome.state = a.evict now)
      (answer : outcome.answer = .error (.full limit))
  /-- The message is too large and dropped. -/
  | oversized (limit : Nat) (room : a.HasRoom x.datagram.header.sequence now)
      (limit_eq : a.limits.messageSize = some limit)
      (large : limit < (a.grown x place now).bufferedSize)
      (state : outcome.state = (a.evict now).settle x.datagram.header.sequence none)
      (answer : outcome.answer =
        .error (.oversized x.datagram.header.sequence (a.grown x place now).bufferedSize limit))
  /-- The message waits for a further fragment. -/
  | waits (room : a.HasRoom x.datagram.header.sequence now)
      (fits : ∀ limit, a.limits.messageSize = some limit →
        (a.grown x place now).bufferedSize ≤ limit)
      (open_ : place.isLast = true → (a.grown x place now).join? = none)
      (state : outcome.state =
        (a.evict now).settle x.datagram.header.sequence (some (a.grown x place now)))
      (answer : outcome.answer = .ok none)
  /-- The message is handed out. -/
  | assembled (first : Datagram) (parts : List Datagram) (d : Datagram)
      (room : a.HasRoom x.datagram.header.sequence now)
      (fits : ∀ limit, a.limits.messageSize = some limit →
        (a.grown x place now).bufferedSize ≤ limit)
      (last : place.isLast = true)
      (first_eq : (a.grown x place now).fragments.get? 0 = some first)
      (parts_eq : (a.grown x place now).inOrder? = some parts)
      (read : Datagram.ofBytes (first.headerBytes ++ parts.flatMap Datagram.payload) = .ok d)
      (rereads : first.Rereads (parts.flatMap Datagram.payload) d)
      (state : outcome.state = (a.evict now).settle x.datagram.header.sequence
        (some { a.grown x place now with complete := true }))
      (answer : outcome.answer = .ok (some ⟨d, (a.grown x place now).total⟩))

/-- Where all fragments belong, these are the fates of a further one. -/
theorem Holds.fate {a : Assembler} (ha : a.Holds Assembly.Filed) (x : Arrival)
    {place : Placement} (hp : x.datagram.header.place = some place) (now : Time) :
    a.Fate x place now (a.receive x.datagram now) := by
  by_cases hr : a.HasRoom x.datagram.header.sequence now
  · obtain ⟨hs, hans⟩ := receive_of_hasRoom hp hr
    rcases Assembly.join_cases a.limits (a.joined x.datagram.header.sequence place.total now)
        x.datagram place now with
      ⟨limit, hl, hlt, hj⟩ | ⟨hfits, ⟨hlast, hj⟩ | ⟨hlast, hj⟩⟩
    · rw [hj] at hs hans
      exact .oversized limit hr hl hlt hs hans
    · rw [hj] at hs hans
      exact .waits hr hfits (by simp [hlast]) hs hans
    · rw [hj] at hs hans
      rcases Assembly.close_of_filed (ha.filed_joined x hp now) with
        ⟨hnone, hc⟩ | ⟨first, parts, d, hf, hparts, hd, hrr, hc⟩
      · rw [hc] at hs hans
        exact .waits hr hfits (fun _ => hnone) hs hans
      · rw [hc] at hs hans
        exact .assembled first parts d hr hfits hlast hf hparts hd hrr hs hans
  · obtain ⟨limit, -, -, -, hs, hans⟩ := receive_of_not_hasRoom hp hr
    exact .full limit hr hs hans

end Assembler

end LcmWire
