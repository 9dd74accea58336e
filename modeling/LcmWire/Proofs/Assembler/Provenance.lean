import LcmWire.Proofs.Assembler.Epoch
import LcmWire.Proofs.Assembler.Validity

/-!
# Where messages come from

Each datagram is given at a position of its own among the calls of a run. A message that is handed
out has sources: the latest datagrams that were taken in with its number, one for each index. Calls
that end a message leave its sources behind them, and the next message of the number takes only
later ones (`Epoch.exists_latestCopy?`). So no datagram is a source twice, and all that is handed
out together is no more than what was given (`deliveries_after`).
-/

namespace LcmWire

/-- A datagram that was given, with its position among the calls. -/
@[ext] structure Given where
  /-- The number of calls before it. -/
  position : Nat
  /-- What was given. -/
  arrival : Arrival

/-- What was given. -/
def Given.datagram (g : Given) : Datagram := g.arrival.datagram

/-- What a call gives. -/
def Call.item? {α : Type} : Call α → Option α
  | give item _ => some item
  | sweep _ => none

/-- A call gives what it is made with. -/
theorem Call.item?_eq_some_iff {α : Type} {c : Call α} {item : α} :
    c.item? = some item ↔ ∃ now, c = give item now := by
  cases c <;> simp [item?]

namespace Entry

/-- The datagram that a call gives. -/
def arrival? (e : Entry) : Option Arrival := e.1.item?

/-- The message that a call hands out. -/
def message? (e : Entry) : Option Message := e.2.message?

/-- A call hands out the message that it is answered with. -/
theorem message?_eq_some_iff {e : Entry} {m : Message} :
    e.message? = some m ↔ e.2 = .given (.ok (some m)) := by
  obtain ⟨c, (_ | _) | _⟩ := e <;> simp [message?, Reply.message?]

end Entry

/-- The datagrams of some calls. The latest comes first, as it does in what follows. -/
def givens : List Entry → List Given
  | [] => []
  | e :: past => (e.arrival?.map (Given.mk past.length)).toList ++ givens past

/-- The latest datagram that was taken in as a fragment with a number and an index. -/
def latestCopy? (sequence : SequenceNumber) (index : FragmentIndex) : List Entry → Option Given
  | [] => none
  | e :: past =>
    (((e.accepted? sequence).filter (·.place.index = index)).map fun f =>
      Given.mk past.length f.arrival).or (latestCopy? sequence index past)

/-- The datagrams of which the latest call made a message: the one that it gives, if that is a whole
message, and the latest copies of all fragments otherwise. -/
def sources (e : Entry) (past : List Entry) (m : Message) : List Given :=
  match e.1 with
  | .sweep _ => []
  | .give x _ =>
    match x.datagram.header.place with
    | none => [⟨past.length, x⟩]
    | some _ => ((List.range m.fragmentCount.toNat).map UInt16.ofNat).filterMap fun index =>
        latestCopy? x.datagram.header.sequence index (e :: past)

/-- A message that was handed out, with the datagrams of which it was made. -/
structure Delivery where
  /-- The message. -/
  message : Message
  /-- The datagrams. -/
  sources : List Given

/-- The messages that were handed out in some calls. -/
def deliveries : List Entry → List Delivery
  | [] => []
  | e :: past => (e.message?.map fun m => ⟨m, sources e past m⟩).toList ++ deliveries past

theorem map_message_deliveries (past : List Entry) :
    (deliveries past).map Delivery.message = past.filterMap Entry.message? := by
  induction past with
  | nil => rfl
  | cons e past ih => cases h : e.message? <;> simp [deliveries, h, ih]

theorem map_arrival_givens (past : List Entry) :
    (givens past).map Given.arrival = past.filterMap Entry.arrival? := by
  induction past with
  | nil => rfl
  | cons e past ih => cases h : e.arrival? <;> simp [givens, h, ih]

/-- A position tells what was given there. -/
theorem mem_givens_iff {past : List Entry} {g : Given} :
    g ∈ givens past ↔ past.reverse[g.position]?.bind Entry.arrival? = some g.arrival := by
  induction past with
  | nil => simp [givens]
  | cons e past ih =>
    have hlatest : g ∈ (e.arrival?.map (Given.mk past.length)).toList ↔
        g.position = past.length ∧ e.arrival? = some g.arrival := by
      simp only [Option.mem_toList, Option.map_eq_some_iff]
      constructor
      · rintro ⟨x, hx, rfl⟩
        exact ⟨rfl, hx⟩
      · rintro ⟨hposition, hx⟩
        exact ⟨g.arrival, hx, by rw [← hposition]⟩
    rw [givens, List.mem_append, hlatest, ih, List.reverse_cons]
    rcases Nat.lt_trichotomy g.position past.length with hlt | heq | hgt
    · rw [List.getElem?_append_left (by simpa using hlt)]
      simp [Nat.ne_of_lt hlt]
    · simp [heq]
    · have hle : (past.reverse ++ [e]).length ≤ g.position := by simpa using Nat.succ_le_of_lt hgt
      have hnot : past.reverse.length ≤ g.position := by simpa using Nat.le_of_lt hgt
      simp [List.getElem?_eq_none hle, List.getElem?_eq_none hnot, Nat.ne_of_gt hgt]

/-- Positions are counted from zero. -/
theorem position_lt {past : List Entry} {g : Given} (h : g ∈ givens past) :
    g.position < past.length := by
  obtain ⟨e, he, -⟩ := Option.bind_eq_some_iff.mp (mem_givens_iff.mp h)
  simpa using (List.getElem?_eq_some_iff.mp he).1

/-- No two datagrams are given at one position. -/
theorem eq_of_position_eq {past : List Entry} {g h : Given} (hg : g ∈ givens past)
    (hh : h ∈ givens past) (heq : g.position = h.position) : g = h := by
  rw [mem_givens_iff] at hg hh
  rw [heq, hh] at hg
  exact Given.ext heq (Option.some.inj hg).symm

/-- A fragment that was taken in is one of the number that was given. -/
theorem Entry.eq_of_accepted? {e : Entry} {sequence : SequenceNumber} {f : Fragment}
    (h : e.accepted? sequence = some f) : e.1 = .give f.arrival f.now ∧ f.sequence = sequence := by
  unfold accepted? at h
  split at h
  · cases h
  · exact Call.fragment?_eq_some_iff.mp h

/-- The latest copy of a fragment was given as this fragment. -/
theorem eq_of_latestCopy? {past : List Entry} {sequence : SequenceNumber} {index : FragmentIndex}
    {g : Given} (h : latestCopy? sequence index past = some g) :
    g ∈ givens past ∧ g.datagram.header.sequence = sequence ∧
      ∃ place, g.datagram.header.place = some place ∧ place.index = index := by
  induction past with
  | nil => cases h
  | cons e past ih =>
    rcases Option.or_eq_some_iff.mp h with h | ⟨-, h⟩
    · obtain ⟨f, hf, rfl⟩ := Option.map_eq_some_iff.mp h
      obtain ⟨haccepted, hindex⟩ := Option.filter_eq_some_iff.mp hf
      obtain ⟨hcall, hsequence⟩ := Entry.eq_of_accepted? haccepted
      refine ⟨List.mem_append_left _ ?_, hsequence, f.place, f.place_eq, of_decide_eq_true hindex⟩
      simp [Entry.arrival?, Call.item?, hcall]
    · obtain ⟨hmem, hplace⟩ := ih h
      exact ⟨List.mem_append_right _ hmem, hplace⟩

namespace Epoch

/-- The position from which on a message is in assembly: behind the call that ended the one before
it. -/
def begun (sequence : SequenceNumber) : List Entry → Nat
  | [] => 0
  | e :: past => if e.ends sequence then past.length + 1 else begun sequence past

theorem begun_le_length (sequence : SequenceNumber) (past : List Entry) :
    begun sequence past ≤ past.length := by
  induction past with
  | nil => exact Nat.le_refl _
  | cons e past ih =>
    unfold begun
    split
    · exact Nat.le_refl _
    · exact Nat.le_succ_of_le ih

theorem begun_le_begun_cons (sequence : SequenceNumber) (e : Entry) (past : List Entry) :
    begun sequence past ≤ begun sequence (e :: past) := by
  conv_rhs => unfold begun
  split
  · exact Nat.le_succ_of_le (begun_le_length sequence past)
  · exact Nat.le_refl _

/-- A fragment that is taken in is the latest copy of itself, and other copies stay the latest ones
unless a call made it too late for them. -/
theorem exists_latestCopy?_cons {e : Entry} {past : List Entry} {sequence : SequenceNumber}
    {index : FragmentIndex} {d : Datagram}
    (ih : copy? (fragments sequence past) index = some d → ∃ g,
      latestCopy? sequence index past = some g ∧ g.datagram = d ∧
        begun sequence past ≤ g.position)
    (h : copy? ((e.accepted? sequence).toList ++ fragmentsAt sequence past e.1.now) index =
      some d) :
    ∃ g, latestCopy? sequence index (e :: past) = some g ∧ g.datagram = d ∧
      begun sequence past ≤ g.position := by
  have hearlier (h : copy? (fragmentsAt sequence past e.1.now) index = some d) :
      ∃ g, latestCopy? sequence index past = some g ∧ g.datagram = d ∧
        begun sequence past ≤ g.position := by
    unfold fragmentsAt at h
    split at h
    · cases h
    · exact ih h
  unfold latestCopy?
  cases ha : e.accepted? sequence with
  | none =>
    rw [ha] at h
    exact hearlier h
  | some f =>
    rw [ha, Option.toList_some, List.singleton_append, copy?, List.find?_cons] at h
    by_cases hi : f.place.index = index
    · have hd : f.datagram = d := by simpa [hi] using h
      exact ⟨⟨past.length, f.arrival⟩, by simp [hi], hd, begun_le_length sequence past⟩
    · simp only [hi, decide_false] at h
      obtain ⟨g, hg, hd, hle⟩ := hearlier h
      exact ⟨g, by simp [Option.filter_some, hi, hg], hd, hle⟩

/-- What a message in assembly keeps was given after the message before it was over. -/
theorem exists_latestCopy? {past : List Entry} {sequence : SequenceNumber}
    {index : FragmentIndex} {d : Datagram}
    (h : copy? (fragments sequence past) index = some d) :
    ∃ g, latestCopy? sequence index past = some g ∧ g.datagram = d ∧
      begun sequence past ≤ g.position := by
  induction past with
  | nil => cases h
  | cons e past ih =>
    rw [fragments_cons] at h
    split at h
    · cases h
    · rename_i hends
      obtain ⟨g, hg, hd, hle⟩ := exists_latestCopy?_cons ih h
      exact ⟨g, hg, hd, by rwa [begun, if_neg hends]⟩

end Epoch

/-- All elements of a list, looked up one after the other. -/
theorem filterMap_range_getElem? {α : Type} (l : List α) :
    (List.range l.length).filterMap (fun i => l[i]?) = l := by
  have hmap : (List.range l.length).map (fun i => l[i]?) = l.map some := by
    apply List.ext_getElem (by simp)
    intro i hi _
    simp at hi
    simp [hi]
  calc (List.range l.length).filterMap (fun i => l[i]?)
    _ = ((List.range l.length).map fun i => l[i]?).filterMap id := by rw [List.filterMap_map]; rfl
    _ = (l.map some).filterMap id := by rw [hmap]
    _ = l := by simp [List.filterMap_map]

namespace Delivery

/-- The message has as many fragments as sources. It is read from the header of the first one in
front of the payloads of all. -/
structure Joined (δ : Delivery) : Prop where
  length_eq : δ.sources.length = δ.message.fragmentCount.toNat
  read : ∃ first, δ.sources.head? = some first ∧
    Datagram.ofBytes (first.datagram.headerBytes ++
      δ.sources.flatMap fun g => g.datagram.payload) = .ok δ.message.datagram

variable {δ : Delivery}

/-- No byte of a message is not one of its sources. -/
theorem Joined.wireLength_le (h : δ.Joined) :
    δ.message.datagram.wireLength ≤ (δ.sources.map fun g => g.datagram.wireLength).sum := by
  obtain ⟨first, hfirst, hread⟩ := h.read
  have hwire := congrArg List.length (Datagram.headerBytes_append_payload hread)
  rw [List.length_append, List.length_append, List.length_flatMap] at hwire
  have hheader : first.datagram.headerBytes.length ≤
      (δ.sources.map fun g => g.datagram.headerBytes.length).sum :=
    List.le_sum_of_mem (List.mem_map_of_mem (List.mem_of_head? hfirst))
  calc δ.message.datagram.wireLength
    _ = first.datagram.headerBytes.length +
        (δ.sources.map fun g => g.datagram.payload.length).sum := hwire
    _ ≤ (δ.sources.map fun g => g.datagram.headerBytes.length).sum +
        (δ.sources.map fun g => g.datagram.payload.length).sum := Nat.add_le_add_right hheader _
    _ = (δ.sources.map fun g => g.datagram.wireLength).sum := List.sum_map_add.symm

/-- No byte of its payload is not one of theirs. -/
theorem Joined.length_payload_le (h : δ.Joined) :
    δ.message.payload.length ≤ (δ.sources.map fun g => g.datagram.payload.length).sum := by
  obtain ⟨first, -, hread⟩ := h.read
  obtain ⟨d, hd, hrereads⟩ := Datagram.exists_rereads first.arrival.read
    (δ.sources.flatMap fun g => g.datagram.payload)
  obtain rfl : d = δ.message.datagram := Except.ok.inj (hd.symm.trans hread)
  rw [← List.length_flatMap]
  exact hrereads.length_payload_le

end Delivery

/-- What is special about the sources of a message that is handed out: each is the latest datagram,
or was given after the message before was over, and with this call it is over itself. -/
structure Fresh (e : Entry) (past : List Entry) (m : Message) : Prop where
  joined : (⟨m, sources e past m⟩ : Delivery).Joined
  given : sources e past m ⊆ givens (e :: past)
  nodup : (sources e past m).Nodup
  late : ∀ g ∈ sources e past m, g.position = past.length ∨
    (g.datagram.header.place.isSome = true ∧
      Epoch.begun g.datagram.header.sequence past ≤ g.position)
  ends : ∀ g ∈ sources e past m, g.datagram.header.place.isSome = true →
    e.ends g.datagram.header.sequence = true

/-- What is true of the sources of all messages so far. -/
structure Accounted (past : List Entry) : Prop where
  joined : ∀ δ ∈ deliveries past, δ.Joined
  given : ∀ δ ∈ deliveries past, δ.sources ⊆ givens past
  /-- No datagram is a source twice. -/
  nodup : ((deliveries past).flatMap Delivery.sources).Nodup
  /-- No source is left for the message in assembly. -/
  spent : ∀ δ ∈ deliveries past, ∀ g ∈ δ.sources, g.datagram.header.place.isSome = true →
    g.position < Epoch.begun g.datagram.header.sequence past

namespace Accounted

variable {past : List Entry}

/-- Before the first call, no message was handed out. -/
theorem nil : Accounted [] := by
  constructor <;> simp [deliveries]

/-- A fresh source was not one before. -/
theorem not_mem_of_late (h : Accounted past) {g : Given} {δ : Delivery} (hδ : δ ∈ deliveries past)
    (hlate : g.position = past.length ∨ (g.datagram.header.place.isSome = true ∧
      Epoch.begun g.datagram.header.sequence past ≤ g.position)) : g ∉ δ.sources := by
  intro hg
  rcases hlate with heq | ⟨hplace, hle⟩
  · exact Nat.ne_of_lt (position_lt (h.given δ hδ hg)) heq
  · exact Nat.not_lt_of_le hle (h.spent δ hδ g hg hplace)

variable {e : Entry}

/-- What was given stays given, and a source that is spent stays so. -/
theorem keeps (h : Accounted past) (e : Entry) {δ : Delivery} (hδ : δ ∈ deliveries past) :
    δ.sources ⊆ givens (e :: past) ∧
      ∀ g ∈ δ.sources, g.datagram.header.place.isSome = true →
        g.position < Epoch.begun g.datagram.header.sequence (e :: past) := by
  refine ⟨List.subset_append_of_subset_right _ (h.given δ hδ), fun g hg hplace => ?_⟩
  exact Nat.lt_of_lt_of_le (h.spent δ hδ g hg hplace) (Epoch.begun_le_begun_cons _ e past)

/-- A call that hands nothing out keeps the account. -/
theorem cons_of_message?_eq_none (h : Accounted past) (hm : e.message? = none) :
    Accounted (e :: past) := by
  have hsame : deliveries (e :: past) = deliveries past := by simp [deliveries, hm]
  refine ⟨hsame ▸ h.joined, ?_, hsame ▸ h.nodup, ?_⟩
  · rw [hsame]
    exact fun δ hδ => (h.keeps e hδ).1
  · rw [hsame]
    exact fun δ hδ => (h.keeps e hδ).2

/-- So does one that hands out a message with fresh sources. -/
theorem cons_of_fresh (h : Accounted past) {m : Message} (hm : e.message? = some m)
    (hf : Fresh e past m) : Accounted (e :: past) := by
  have hnew : deliveries (e :: past) = ⟨m, sources e past m⟩ :: deliveries past := by
    simp [deliveries, hm]
  constructor
  · rw [hnew]
    exact List.forall_mem_cons.mpr ⟨hf.joined, h.joined⟩
  · rw [hnew]
    exact List.forall_mem_cons.mpr ⟨hf.given, fun δ hδ => (h.keeps e hδ).1⟩
  · rw [hnew, List.flatMap_cons, List.nodup_append]
    refine ⟨hf.nodup, h.nodup, ?_⟩
    rintro g hg _ hused rfl
    obtain ⟨δ, hδ, hmem⟩ := List.mem_flatMap.mp hused
    exact h.not_mem_of_late hδ (hf.late g hg) hmem
  · rw [hnew]
    refine List.forall_mem_cons.mpr ⟨fun g hg hplace => ?_, fun δ hδ => (h.keeps e hδ).2⟩
    rw [Epoch.begun, if_pos (hf.ends g hg hplace)]
    exact position_lt (hf.given hg)

/-- A call keeps the account if what it hands out is fresh. -/
theorem cons (h : Accounted past) (hfresh : ∀ m, e.message? = some m → Fresh e past m) :
    Accounted (e :: past) := by
  cases hm : e.message? with
  | none => exact h.cons_of_message?_eq_none hm
  | some m => exact h.cons_of_fresh hm (hfresh m hm)

/-- What all messages weigh together is no more than what was given does, if none weighs more than
its sources. -/
theorem sum_le (h : Accounted past) (value : Message → Nat) (weight : Given → Nat)
    (hle : ∀ δ ∈ deliveries past, value δ.message ≤ (δ.sources.map weight).sum) :
    ((past.filterMap Entry.message?).map value).sum ≤ ((givens past).map weight).sum := by
  have hsubset : (deliveries past).flatMap Delivery.sources ⊆ givens past := by
    intro g hg
    obtain ⟨δ, hδ, hmem⟩ := List.mem_flatMap.mp hg
    exact h.given δ hδ hmem
  calc ((past.filterMap Entry.message?).map value).sum
    _ = ((deliveries past).map fun δ => value δ.message).sum := by
      rw [← map_message_deliveries, List.map_map]
      rfl
    _ ≤ ((deliveries past).map fun δ => (δ.sources.map weight).sum).sum := List.sum_le_sum hle
    _ = (((deliveries past).flatMap Delivery.sources).map weight).sum :=
      (sum_map_flatMap ..).symm
    _ ≤ ((givens past).map weight).sum := sum_map_le_of_subset h.nodup hsubset weight

end Accounted

section Completing

variable {f : Fragment} {past : List Entry} {m : Message}

/-- The latest copies of a message, once a fragment was answered with it. -/
theorem sources_of_fragment :
    sources (.give f.arrival f.now, .given (.ok (some m))) past m =
      ((List.range m.fragmentCount.toNat).map UInt16.ofNat).filterMap fun index =>
        latestCopy? f.sequence index ((.give f.arrival f.now, .given (.ok (some m))) :: past) := by
  simp only [sources, f.place_eq]
  rfl

/-- What the fragment finds with itself is kept from datagrams that came after the message before
was over. -/
theorem exists_latestCopy?_of_fragment {index : FragmentIndex} {d : Datagram}
    (h : Epoch.copy? (f :: Epoch.fragmentsAt f.sequence past f.now) index = some d) :
    ∃ g, latestCopy? f.sequence index
        ((.give f.arrival f.now, .given (.ok (some m))) :: past) = some g ∧
      g.datagram = d ∧ Epoch.begun f.sequence past ≤ g.position := by
  have haccepted : Entry.accepted? f.sequence
      (.give f.arrival f.now, .given (.ok (some m))) = some f :=
    Call.fragment?_eq_some_iff.mpr ⟨rfl, rfl⟩
  apply Epoch.exists_latestCopy?_cons Epoch.exists_latestCopy?
  rw [haccepted]
  exact h

variable {parts : List Datagram} (hlength : parts.length = m.fragmentCount.toNat)
  (hpart : ∀ i < m.fragmentCount.toNat, parts[i]? =
    Epoch.copy? (f :: Epoch.fragmentsAt f.sequence past f.now) (UInt16.ofNat i))
include hlength hpart

/-- The sources of a message are its parts in order. -/
theorem map_datagram_sources :
    (sources (.give f.arrival f.now, .given (.ok (some m))) past m).map Given.datagram =
      parts := by
  rw [sources_of_fragment, List.map_filterMap, List.filterMap_map]
  refine Eq.trans ?_ (filterMap_range_getElem? parts)
  rw [hlength]
  apply List.filterMap_congr
  intro i hi
  have hlt : i < m.fragmentCount.toNat := List.mem_range.mp hi
  have hget : parts[i]? = some parts[i] := List.getElem?_eq_getElem (hlength.symm ▸ hlt)
  obtain ⟨g, hg, hd, -⟩ := exists_latestCopy?_of_fragment (m := m) ((hpart i hlt).symm.trans hget)
  rw [hget, Function.comp_apply, hg, Option.map_some, hd]

/-- They are fragments of its number and came after the message before was over. -/
theorem begun_le_of_mem_sources {g : Given}
    (h : g ∈ sources (.give f.arrival f.now, .given (.ok (some m))) past m) :
    g.datagram.header.sequence = f.sequence ∧ g.datagram.header.place.isSome = true ∧
      Epoch.begun f.sequence past ≤ g.position := by
  rw [sources_of_fragment] at h
  obtain ⟨index, hindex, hg⟩ := List.mem_filterMap.mp h
  obtain ⟨i, hi, rfl⟩ := List.mem_map.mp hindex
  have hlt : i < m.fragmentCount.toNat := List.mem_range.mp hi
  have hget : parts[i]? = some parts[i] := List.getElem?_eq_getElem (hlength.symm ▸ hlt)
  obtain ⟨k, hk, -, hle⟩ := exists_latestCopy?_of_fragment (m := m) ((hpart i hlt).symm.trans hget)
  obtain rfl : g = k := Option.some.inj (hg.symm.trans hk)
  obtain ⟨-, hsequence, place, hplace, -⟩ := eq_of_latestCopy? hg
  exact ⟨hsequence, Option.isSome_iff_exists.mpr ⟨place, hplace⟩, hle⟩

end Completing

namespace Assembler

/-- A whole message comes from the datagram that it is. -/
theorem fresh_of_short {x : Arrival} (hp : x.datagram.header.place = none) (now : Time)
    (past : List Entry) :
    Fresh (.give x now, .given (.ok (some ⟨x.datagram, 1⟩))) past ⟨x.datagram, 1⟩ := by
  have hsources : sources (.give x now, .given (.ok (some ⟨x.datagram, 1⟩))) past
      ⟨x.datagram, 1⟩ = [⟨past.length, x⟩] := by simp only [sources, hp]
  constructor
  all_goals rw [hsources]
  · have hwire := Datagram.headerBytes_append_payload x.read
    refine ⟨rfl, ⟨past.length, x⟩, rfl, ?_⟩
    simpa [Given.datagram, hwire] using x.read
  · intro g hg
    obtain rfl := List.mem_singleton.mp hg
    exact List.mem_append_left _ (List.mem_singleton_self _)
  · exact List.nodup_singleton _
  · intro g hg
    exact .inl (congrArg Given.position (List.mem_singleton.mp hg))
  · intro g hg hplace
    obtain rfl := List.mem_singleton.mp hg
    simp [Given.datagram, hp] at hplace

/-- A message that was sent in fragments comes from the latest copies of these. -/
theorem Holds.fresh {a : Assembler} (ha : a.Holds Assembly.Filed) {f : Fragment}
    {past : List Entry} (h : a.found? f.sequence f.now =
      Assembly.ofFragments (Epoch.fragmentsAt f.sequence past f.now)) {m : Message}
    (hanswer : (a.receive f.datagram f.now).answer = .ok (some m)) :
    Fresh (.give f.arrival f.now, .given (.ok (some m))) past m := by
  obtain ⟨first, parts, hfirst, hlength, hpart, hread, hcount⟩ := (ha.answer_receive h).2 m hanswer
  have hpos : 0 < m.fragmentCount.toNat := hcount ▸ Epoch.expected_pos (List.cons_ne_nil _ _)
  rw [← hcount] at hlength hpart
  have hmap := map_datagram_sources hlength hpart
  constructor
  · refine ⟨?_, ?_⟩
    · rw [← hlength, ← hmap, List.length_map]
    · have hhead : parts.head? = some first := by
        rw [List.head?_eq_getElem?, hpart 0 hpos]
        exact hfirst
      rw [← hmap, List.head?_map] at hhead
      obtain ⟨g, hg, rfl⟩ := Option.map_eq_some_iff.mp hhead
      refine ⟨g, hg, ?_⟩
      rwa [← hmap, List.flatMap_map] at hread
  · intro g hg
    rw [sources_of_fragment] at hg
    obtain ⟨index, -, hg⟩ := List.mem_filterMap.mp hg
    exact (eq_of_latestCopy? hg).1
  · rw [sources_of_fragment]
    refine (Assembly.nodup_indices m.fragmentCount).filterMap ?_
    intro i j g hi hj
    obtain ⟨-, -, _, hp, rfl⟩ := eq_of_latestCopy? hi
    obtain ⟨-, -, _, hq, rfl⟩ := eq_of_latestCopy? hj
    rw [Option.some.inj (hp.symm.trans hq)]
  · intro g hg
    obtain ⟨hsequence, hplace, hle⟩ := begun_le_of_mem_sources hlength hpart hg
    exact .inr ⟨hplace, hsequence ▸ hle⟩
  · intro g hg _
    obtain ⟨hsequence, -, -⟩ := begun_le_of_mem_sources hlength hpart hg
    have hcall : (Call.give f.arrival f.now).fragment? f.sequence = some f :=
      Call.fragment?_eq_some_iff.mpr ⟨rfl, rfl⟩
    rw [hsequence, Entry.ends, hcall]
    rfl

/-- In every run, each message comes from datagrams of its own. -/
theorem accounted_after (limits : Limits) (calls : List (Call Arrival)) :
    Accounted (Run.history call (.start limits) calls) := by
  induction calls using List.reverseRecOn with
  | nil => exact Accounted.nil
  | append_singleton calls c ih =>
    rw [Run.history_concat]
    refine ih.cons fun m hm => ?_
    rw [Entry.message?_eq_some_iff] at hm
    rw [hm]
    cases c with
    | sweep now => cases hm
    | give x now =>
      have hanswer := Reply.given.inj hm
      cases hp : x.datagram.header.place with
      | none =>
        rw [(receive_of_short hp).2] at hanswer
        cases hanswer
        exact fresh_of_short hp now _
      | some place =>
        let f : Fragment := ⟨x, place, hp, now⟩
        exact (filed_after limits calls).fresh
          ((madeOf_after limits calls).found? f.sequence f.now) hanswer

/-- Over all messages that were handed out in a run: each is made of datagrams that were given, and
none of these is part of two messages. So the messages together have no more fragments, no more
payload bytes and no more bytes than the datagrams that were given. -/
theorem deliveries_after (limits : Limits) (calls : List (Call Arrival)) :
    let past := Run.history call (.start limits) calls
    let messages := past.filterMap Entry.message?
    let pushed := (calls.filterMap Call.item?).map Arrival.datagram
    (deliveries past).map Delivery.message = messages ∧
    (∀ δ ∈ deliveries past, δ.Joined) ∧
    (∀ δ ∈ deliveries past, ∀ g ∈ δ.sources,
      ∃ now, calls[g.position]? = some (.give g.arrival now)) ∧
    (((deliveries past).flatMap Delivery.sources).map Given.position).Nodup ∧
    (messages.map fun m => m.fragmentCount.toNat).sum ≤ pushed.length ∧
    (messages.map fun m => m.payload.length).sum ≤ (pushed.map fun d => d.payload.length).sum ∧
    (messages.map fun m => m.datagram.wireLength).sum ≤ (pushed.map Datagram.wireLength).sum := by
  intro past messages pushed
  have haccounted : Accounted past := accounted_after limits calls
  have hcalls : past.reverse.map Prod.fst = calls := Run.map_fst_reverse_history ..
  have hpushed : ((givens past).map Given.datagram).Perm pushed := by
    calc (givens past).map Given.datagram
      _ = (past.filterMap Entry.arrival?).map Arrival.datagram := by
        rw [← map_arrival_givens, List.map_map]
        rfl
      List.Perm _ ((past.reverse.filterMap Entry.arrival?).map Arrival.datagram) :=
        (past.reverse_perm.symm.filterMap _).map _
      _ = pushed := by
        simp only [pushed, ← hcalls, List.filterMap_map]
        rfl
  have hsum (value : Message → Nat) (weight : Datagram → Nat)
      (hle : ∀ δ : Delivery, δ.Joined →
        value δ.message ≤ (δ.sources.map fun g => weight g.datagram).sum) :
      (messages.map value).sum ≤ (pushed.map weight).sum := by
    rw [← (hpushed.map weight).sum_eq, List.map_map]
    exact haccounted.sum_le value _ fun δ hδ => hle δ (haccounted.joined δ hδ)
  refine ⟨map_message_deliveries past, haccounted.joined, ?_, ?_, ?_, ?_, ?_⟩
  · intro δ hδ g hg
    have hgiven := mem_givens_iff.mp (haccounted.given δ hδ hg)
    obtain ⟨e, he, harrival⟩ := Option.bind_eq_some_iff.mp hgiven
    have hcall : calls[g.position]? = some e.1 := by
      rw [← hcalls, List.getElem?_map, he]
      rfl
    rw [Entry.arrival?, Call.item?_eq_some_iff] at harrival
    obtain ⟨now, hnow⟩ := harrival
    exact ⟨now, hnow ▸ hcall⟩
  · refine haccounted.nodup.map_on fun g hg k hk heq => ?_
    obtain ⟨δ, hδ, hg⟩ := List.mem_flatMap.mp hg
    obtain ⟨ε, hε, hk⟩ := List.mem_flatMap.mp hk
    exact eq_of_position_eq (haccounted.given δ hδ hg) (haccounted.given ε hε hk) heq
  · have hcount := hsum (fun m => m.fragmentCount.toNat) (fun _ => 1) fun δ h => by
      simp [h.length_eq]
    simpa using hcount
  · exact hsum _ _ fun δ h => h.length_payload_le
  · exact hsum _ _ fun δ h => h.wireLength_le

/-- A number is used for two messages, and the second part of the first one comes twice: the two
messages are made of four of the five datagrams. -/
theorem deliveries_after_reused :
    let part (index : FragmentIndex) (payload : Bytes) : Bytes :=
      Packet.toBytes ⟨7, some ⟨4, 0, index, 2⟩, "A", payload⟩
    let calls : List (Call Arrival) := ([.give (part 1 [3, 4]) 0, .give (part 0 [1, 2]) 0,
      .give (part 1 [3, 5]) 0, .give (part 0 [6, 7]) 0, .give (part 1 [8, 9]) 0] :
        List (Call Bytes)).filterMap Call.read?
    let handed := deliveries (Run.history call (.start ⟨none, none⟩) calls)
    handed.map (fun δ => δ.sources.map Given.position) = [[3, 4], [1, 2]] ∧
      ∀ δ ∈ handed, δ.Joined := by
  intro part calls handed
  exact ⟨by decide +kernel, (deliveries_after ⟨none, none⟩ calls).2.1⟩

end Assembler

end LcmWire
