import LcmWire.Proofs.Assembler.Fate
import Mathlib.Algebra.Order.BigOperators.Group.List
import Mathlib.Data.List.Perm.Subperm
import Mathlib.Data.List.Flatten

/-!
# Within the limits

An assembler that only holds messages from a list never holds more of them than the list has, and an
assembly that only has parts of a payload never has more bytes than the payload. No call makes an
assembler hold more messages than it may (`size_receive_le`), and a fragment for which there is room
and that fits is not refused (`Holds.answer_ne_error`).
-/

namespace LcmWire

namespace Table

variable {κ α : Type} [Ord κ]

theorem size_filter_le (t : Table κ α) (p : α → Bool) : (t.filter p).size ≤ t.size :=
  List.length_filter_le ..

theorem size_erase_le (t : Table κ α) (k : κ) : (t.erase k).size ≤ t.size :=
  List.length_filter_le ..

variable [Std.LawfulEqOrd κ]

variable [DecidableEq κ]

/-- A function of the values is one of the keys, wherever they give the same. -/
theorem flatMap_values {β : Type} {t : Table κ α} {f : α → List β} {g : κ → List β}
    (h : ∀ k a, t.get? k = some a → f a = g k) : t.values.flatMap f = t.keys.flatMap g := by
  rw [values, keys, List.flatMap_map, List.flatMap_map]
  apply List.flatMap_congr
  rintro ⟨k, a⟩ hmem
  exact h k a (get?_eq_some_iff.mpr hmem)

/-- A table that only has keys from a list has no more entries than those. -/
theorem size_le_length {t : Table κ α} {allowed : List κ}
    (h : ∀ k a, t.get? k = some a → k ∈ allowed) : t.size ≤ allowed.length := by
  have hsubset : t.keys ⊆ allowed := by
    intro k hk
    obtain ⟨a, ha⟩ := mem_keys_iff.mp hk
    exact h k a ha
  have hlength := t.nodup_keys.length_le_of_subset hsubset
  rwa [keys, List.length_map] at hlength

/-- A table that leaves out one of the keys that it may have has fewer entries than those. -/
theorem size_lt_length {t : Table κ α} {allowed : List κ}
    (h : ∀ k a, t.get? k = some a → k ∈ allowed) {k : κ} (hk : k ∈ allowed)
    (hnone : t.get? k = none) : t.size < allowed.length := by
  have hnot : k ∉ t.keys := by
    intro hmem
    obtain ⟨a, ha⟩ := mem_keys_iff.mp hmem
    rw [hnone] at ha
    cases ha
  have hsubset : k :: t.keys ⊆ allowed := by
    intro l hl
    rcases List.mem_cons.mp hl with rfl | hl
    · exact hk
    · obtain ⟨a, ha⟩ := mem_keys_iff.mp hl
      exact h l a ha
  have hlength := (List.nodup_cons.mpr ⟨hnot, t.nodup_keys⟩).length_le_of_subset hsubset
  rwa [List.length_cons, keys, List.length_map] at hlength

variable [Std.TransOrd κ]

/-- Setting the value of a key adds an entry for this key at most. -/
theorem size_insert_le (t : Table κ α) (k : κ) (a : α) : (t.insert k a).size ≤ t.size + 1 := by
  have hkeys : ∀ l b, (t.insert k a).get? l = some b → l ∈ k :: t.keys := by
    intro l b hb
    rw [get?_insert] at hb
    split at hb
    · rename_i hl
      exact hl ▸ List.mem_cons_self ..
    · exact List.mem_cons_of_mem k (mem_keys_iff.mpr ⟨b, hb⟩)
  have hlength := size_le_length hkeys
  rwa [List.length_cons, keys, List.length_map] at hlength

/-- Replacing the value of a key adds no entry. -/
theorem size_insert_le_of_get? {t : Table κ α} {k : κ} {b : α} (h : t.get? k = some b) (a : α) :
    (t.insert k a).size ≤ t.size := by
  have hkeys : ∀ l c, (t.insert k a).get? l = some c → l ∈ t.keys := by
    intro l c hc
    rw [get?_insert] at hc
    split at hc
    · rename_i hl
      exact mem_keys_iff.mpr ⟨b, hl ▸ h⟩
    · exact mem_keys_iff.mpr ⟨c, hc⟩
  have hlength := size_le_length hkeys
  rwa [keys, List.length_map] at hlength

theorem size_insert_pos (t : Table κ α) (k : κ) (a : α) : 0 < (t.insert k a).size :=
  List.length_pos_of_mem (get?_eq_some_iff.mp (t.get?_insert_self k a))

end Table

/-- All pieces together weigh as much as the pieces of each thing do. -/
theorem sum_map_flatMap {ι κ : Type} (l : List ι) (pieces : ι → List κ) (weight : κ → Nat) :
    ((l.flatMap pieces).map weight).sum = (l.map fun i => ((pieces i).map weight).sum).sum := by
  rw [List.map_flatMap, List.flatMap, List.sum_flatten, List.map_map]
  rfl

/-- Different things that are among some things weigh no more than those. -/
theorem sum_map_le_of_subset {ι : Type} {chosen all : List ι} (hnodup : chosen.Nodup)
    (h : chosen ⊆ all) (weight : ι → Nat) :
    (chosen.map weight).sum ≤ (all.map weight).sum := by
  obtain ⟨reordered, hperm, hsub⟩ := List.subperm_of_subset hnodup h
  rw [← (hperm.map weight).sum_eq]
  exact (hsub.map weight).sum_le_sum fun _ _ => Nat.zero_le _

/-- Pieces that are different ones of some pieces have no more bytes than those. -/
theorem length_flatMap_le_of_subset {ι : Type} {chosen all : List ι} (hnodup : chosen.Nodup)
    (h : chosen ⊆ all) (piece : ι → Bytes) :
    (chosen.flatMap piece).length ≤ (all.flatMap piece).length := by
  rw [List.length_flatMap, List.length_flatMap]
  exact sum_map_le_of_subset hnodup h fun i => (piece i).length

/-- Pieces at different positions below `n` have no more bytes than all pieces. -/
theorem length_flatMap_toNat_le {indices : List FragmentIndex} (hnodup : indices.Nodup) {n : Nat}
    (hlt : ∀ index ∈ indices, index.toNat < n) (piece : Nat → Bytes) :
    (indices.flatMap fun index => piece index.toNat).length ≤
      ((List.range n).flatMap piece).length := by
  have hnodup : (indices.map UInt16.toNat).Nodup :=
    List.pairwise_map.mpr (hnodup.imp fun hne heq => hne (UInt16.toNat_inj.mp heq))
  have hsubset : indices.map UInt16.toNat ⊆ List.range n := by
    intro i hi
    obtain ⟨index, hindex, rfl⟩ := List.mem_map.mp hi
    exact List.mem_range.mpr (hlt index hindex)
  rw [← List.flatMap_map]
  exact length_flatMap_le_of_subset hnodup hsubset piece

/-- An assembly that only has pieces of some bytes keeps no more bytes than those. -/
theorem Assembly.bufferedSize_le {m : Assembly} {n : Nat} {piece : Nat → Bytes}
    (h : ∀ index d, m.fragments.get? index = some d →
      index.toNat < n ∧ d.payload = piece index.toNat) :
    m.bufferedSize ≤ ((List.range n).flatMap piece).length := by
  have hkeys : m.fragments.values.flatMap Datagram.payload =
      m.fragments.keys.flatMap fun index => piece index.toNat :=
    Table.flatMap_values fun index d hd => (h index d hd).2
  rw [bufferedSize, hkeys]
  refine length_flatMap_toNat_le m.fragments.nodup_keys ?_ piece
  intro index hindex
  obtain ⟨d, hd⟩ := Table.mem_keys_iff.mp hindex
  exact (h index d hd).1

namespace Assembler

/-- There is room for the messages of a list that is not longer than the limit. -/
theorem hasRoom_of_mem {a : Assembler} {allowed : List SequenceNumber}
    (h : a.Holds fun sequence _ => sequence ∈ allowed)
    (hlimit : ∀ limit, a.limits.inFlight = some limit → allowed.length ≤ limit)
    {sequence : SequenceNumber} (hs : sequence ∈ allowed) (now : Time) :
    a.HasRoom sequence now := by
  intro hnone limit hl
  refine Nat.lt_of_lt_of_le ?_ (hlimit limit hl)
  exact Table.size_lt_length (fun k m hm => h.found? hm) hs hnone

theorem size_evict_le (a : Assembler) (now : Time) : (a.evict now).size ≤ a.size :=
  Table.size_filter_le ..

/-- Settling adds a message at most, and none if there was one of this number. -/
theorem size_settle_le (a : Assembler) (sequence : SequenceNumber) (o : Option Assembly) :
    (a.settle sequence o).size ≤ a.size + 1 ∧
      (a.assemblies.get? sequence ≠ none → (a.settle sequence o).size ≤ a.size) := by
  cases o with
  | none =>
    have hle : (a.settle sequence none).size ≤ a.size := Table.size_erase_le ..
    exact ⟨Nat.le_succ_of_le hle, fun _ => hle⟩
  | some m =>
    refine ⟨Table.size_insert_le .., fun hne => ?_⟩
    obtain ⟨held, hheld⟩ := Option.ne_none_iff_exists'.mp hne
    exact Table.size_insert_le_of_get? hheld m

/-- Within the limit on messages, a datagram leaves an assembler within it. -/
theorem size_receive_le {a : Assembler} {limit : Nat} (hl : a.limits.inFlight = some limit)
    (ha : a.size ≤ limit) (d : Datagram) (now : Time) :
    (a.receive d now).state.size ≤ limit := by
  have hevict : (a.evict now).size ≤ limit := Nat.le_trans (a.size_evict_le now) ha
  cases hp : d.header.place with
  | none => rwa [(receive_of_short hp).1]
  | some place =>
    by_cases hr : a.HasRoom d.header.sequence now
    · rw [(receive_of_hasRoom hp hr).1]
      obtain ⟨hadded, hkept⟩ := size_settle_le (a.evict now) d.header.sequence
        ((a.joined d.header.sequence place.total now).join a.limits d place now).kept
      by_cases hf : a.found? d.header.sequence now = none
      · exact Nat.le_trans hadded (hr hf limit hl)
      · exact Nat.le_trans (hkept hf) hevict
    · obtain ⟨_, -, -, -, hstate, -⟩ := receive_of_not_hasRoom hp hr
      rwa [hstate]

/-- A fragment for which there is room and that fits is not refused. -/
theorem Holds.answer_ne_error {a : Assembler} (ha : a.Holds Assembly.Filed) (x : Arrival)
    {place : Placement} (hp : x.datagram.header.place = some place) {now : Time}
    (hroom : a.HasRoom x.datagram.header.sequence now)
    (hfits : ∀ limit, a.limits.messageSize = some limit →
      (a.grown x place now).bufferedSize ≤ limit) (cause : Refusal) :
    (a.receive x.datagram now).answer ≠ .error cause := by
  cases ha.fate x hp now with
  | full limit hfull _ _ => exact absurd hroom hfull
  | oversized limit _ hl hlarge _ _ => exact absurd (hfits limit hl) (Nat.not_le_of_lt hlarge)
  | waits _ _ _ _ hans => simp [hans]
  | assembled _ _ _ _ _ _ _ _ _ _ _ hans => simp [hans]

end Assembler

end LcmWire
