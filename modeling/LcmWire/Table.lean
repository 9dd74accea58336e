/-!
# Tables

A table holds one value for each of its keys, in ascending order of the keys: its order is part of
its meaning, and tables that give the same answers are equal.
-/

namespace LcmWire

open Std

/-- Entries in ascending order of their keys, one for each key. -/
structure Table (κ α : Type) [Ord κ] where
  /-- The keys with their values. -/
  entries : List (κ × α)
  /-- Each key comes before those of all later entries. -/
  ascending : entries.Pairwise fun a b => compare a.1 b.1 = .lt
  deriving DecidableEq, Repr

namespace Table

variable {κ α : Type} [Ord κ]

/-- The value of a key in a list of entries. -/
def lookup (k : κ) : List (κ × α) → Option α
  | [] => none
  | (l, a) :: rest => if compare k l = .eq then some a else lookup k rest

/-- Put an entry at its place in a list of entries, instead of one with the same key. -/
def insertEntry (k : κ) (a : α) : List (κ × α) → List (κ × α)
  | [] => [(k, a)]
  | (l, b) :: rest =>
    match compare k l with
    | .lt => (k, a) :: (l, b) :: rest
    | .eq => (k, a) :: rest
    | .gt => (l, b) :: insertEntry k a rest

/-- Putting an entry at its place brings no other entry in. -/
theorem mem_insertEntry {k : κ} {a : α} {e : κ × α} {entries : List (κ × α)}
    (h : e ∈ insertEntry k a entries) : e = (k, a) ∨ e ∈ entries := by
  induction entries with
  | nil => simpa [insertEntry] using h
  | cons f rest ih => grind [insertEntry]

section Ordered

variable [TransOrd κ] [LawfulEqOrd κ]

/-- Putting an entry at its place keeps the keys ascending. -/
theorem pairwise_insertEntry (k : κ) (a : α) {entries : List (κ × α)}
    (h : entries.Pairwise fun a b => compare a.1 b.1 = .lt) :
    (insertEntry k a entries).Pairwise fun a b => compare a.1 b.1 = .lt := by
  induction entries with
  | nil => simp [insertEntry]
  | cons f rest ih =>
    obtain ⟨hf, hr⟩ := List.pairwise_cons.1 h
    simp only [insertEntry]
    split
    next hk =>
      refine List.pairwise_cons.2 ⟨fun e he => ?_, h⟩
      rcases List.mem_cons.1 he with rfl | he
      · exact hk
      · exact TransCmp.lt_trans hk (hf e he)
    next hk =>
      obtain rfl := LawfulEqCmp.eq_of_compare hk
      exact List.pairwise_cons.2 ⟨hf, hr⟩
    next hk =>
      refine List.pairwise_cons.2 ⟨fun e he => ?_, ih hr⟩
      rcases mem_insertEntry he with rfl | he
      · exact OrientedCmp.lt_of_gt hk
      · exact hf e he

/-- Set the value of a key. -/
def insert (t : Table κ α) (k : κ) (a : α) : Table κ α :=
  ⟨insertEntry k a t.entries, pairwise_insertEntry k a t.ascending⟩

end Ordered

/-- A table without entries. -/
def empty : Table κ α := ⟨[], .nil⟩

instance : EmptyCollection (Table κ α) := ⟨empty⟩

instance : Inhabited (Table κ α) := ⟨empty⟩

/-- The value of a key, if it has one. -/
def get? (t : Table κ α) (k : κ) : Option α := lookup k t.entries

/-- The key has a value. -/
def contains (t : Table κ α) (k : κ) : Bool := (t.get? k).isSome

/-- Take the value of a key away. -/
def erase (t : Table κ α) (k : κ) : Table κ α :=
  ⟨t.entries.filter fun e => compare k e.1 != .eq, t.ascending.filter _⟩

/-- Keep the entries whose values pass a test. -/
def filter (t : Table κ α) (p : α → Bool) : Table κ α :=
  ⟨t.entries.filter fun e => p e.2, t.ascending.filter _⟩

/-- The number of entries. -/
def size (t : Table κ α) : Nat := t.entries.length

/-- The keys in ascending order. -/
def keys (t : Table κ α) : List κ := t.entries.map Prod.fst

/-- The values in the order of their keys. -/
def values (t : Table κ α) : List α := t.entries.map Prod.snd

end Table

end LcmWire
