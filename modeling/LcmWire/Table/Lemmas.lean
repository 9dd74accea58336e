import LcmWire.Table

/-!
# Answers of a table

What each operation does to the answers, and `ext_get?`: tables with the same answers are equal.
-/

namespace LcmWire.Table

open Std

variable {κ α : Type} [Ord κ]

theorem ext_entries {t u : Table κ α} (h : t.entries = u.entries) : t = u := by
  cases t
  cases u
  cases h
  rfl

@[simp] theorem get?_empty (k : κ) : (empty : Table κ α).get? k = none := rfl

@[simp] theorem size_empty : (empty : Table κ α).size = 0 := rfl

/-- The keys come in ascending order. -/
theorem pairwise_keys (t : Table κ α) : t.keys.Pairwise fun k l => compare k l = .lt :=
  List.pairwise_map.mpr t.ascending

variable [LawfulEqOrd κ]

theorem compare_eq_iff {k l : κ} : compare k l = .eq ↔ k = l :=
  ⟨LawfulEqCmp.eq_of_compare, fun h => h ▸ ReflCmp.compare_self⟩

/-- No entry stands twice in a table. -/
theorem nodup_entries (t : Table κ α) : t.entries.Nodup :=
  t.ascending.imp fun {a b} hab heq => by simp [heq, ReflCmp.compare_self] at hab

/-- No key stands twice in a table. -/
theorem nodup_keys (t : Table κ α) : t.keys.Nodup :=
  t.pairwise_keys.imp fun {k l} hkl heq => by simp [heq, ReflCmp.compare_self] at hkl

variable [DecidableEq κ]

theorem lookup_cons (k l : κ) (a : α) (rest : List (κ × α)) :
    lookup k ((l, a) :: rest) = if k = l then some a else lookup k rest := by
  simp only [lookup, compare_eq_iff]

/-- Among ascending keys, the answer for a key is the value of its one entry. -/
theorem lookup_eq_some_iff {k : κ} {a : α} {entries : List (κ × α)}
    (h : entries.Pairwise fun a b => compare a.1 b.1 = .lt) :
    lookup k entries = some a ↔ (k, a) ∈ entries := by
  induction entries with
  | nil => simp [lookup]
  | cons e rest ih =>
    obtain ⟨m, b⟩ := e
    obtain ⟨hm, hr⟩ := List.pairwise_cons.1 h
    rw [lookup_cons]
    split
    next hk =>
      subst hk
      have : (k, a) ∉ rest := fun hmem => by simpa [ReflCmp.compare_self] using hm _ hmem
      simp [this, eq_comm]
    next hk => simp [ih hr, hk]

theorem get?_eq_some_iff {t : Table κ α} {k : κ} {a : α} :
    t.get? k = some a ↔ (k, a) ∈ t.entries :=
  lookup_eq_some_iff t.ascending

/-- The keys are those that have a value. -/
theorem mem_keys_iff {t : Table κ α} {k : κ} : k ∈ t.keys ↔ ∃ a, t.get? k = some a := by
  simp [keys, get?_eq_some_iff]

/-- Taking a value away changes the answer for its key only. -/
theorem get?_erase (t : Table κ α) (k l : κ) :
    (t.erase k).get? l = if l = k then none else t.get? l := by
  ext a
  split
  next h => simp [h, get?_eq_some_iff, erase, ReflCmp.compare_self]
  next h => simp [get?_eq_some_iff, erase, Ne.symm h]

@[simp] theorem get?_erase_self (t : Table κ α) (k : κ) : (t.erase k).get? k = none := by
  simp [get?_erase]

/-- A test on values drops the answers that fail it. -/
theorem get?_filter (t : Table κ α) (p : α → Bool) (k : κ) :
    (t.filter p).get? k = (t.get? k).filter p := by
  ext a
  simp only [Option.filter_eq_some_iff, get?_eq_some_iff, filter, List.mem_filter]

theorem lookup_insertEntry (k l : κ) (a : α) (entries : List (κ × α)) :
    lookup l (insertEntry k a entries) = if l = k then some a else lookup l entries := by
  induction entries with
  | nil => simp [insertEntry, lookup_cons, lookup]
  | cons e rest ih =>
    obtain ⟨m, b⟩ := e
    simp only [insertEntry]
    split
    · rw [lookup_cons]
    next h =>
      obtain rfl := LawfulEqCmp.eq_of_compare h
      simp only [lookup_cons]
      split <;> rfl
    next h =>
      have hkm : k ≠ m := fun he => by simp [he, ReflCmp.compare_self] at h
      simp only [lookup_cons, ih]
      by_cases hl : l = m
      · simp [hl, hkm.symm]
      · simp [hl]

variable [TransOrd κ]

/-- Setting a value changes the answer for its key only. -/
theorem get?_insert (t : Table κ α) (k l : κ) (a : α) :
    (t.insert k a).get? l = if l = k then some a else t.get? l :=
  lookup_insertEntry k l a t.entries

@[simp] theorem get?_insert_self (t : Table κ α) (k : κ) (a : α) :
    (t.insert k a).get? k = some a := by
  simp [get?_insert]

/-- Tables with the same answers are equal. -/
theorem ext_get? {t u : Table κ α} (h : ∀ k, t.get? k = u.get? k) : t = u := by
  refine ext_entries ?_
  have hmem : ∀ e, e ∈ t.entries ↔ e ∈ u.entries := fun e => by
    rw [← get?_eq_some_iff, ← get?_eq_some_iff, h]
  refine ((List.perm_ext_iff_of_nodup t.nodup_entries u.nodup_entries).2 hmem).eq_of_pairwise
    (fun a b _ _ hab hba => ?_) t.ascending u.ascending
  have := OrientedCmp.gt_of_lt hab
  simp [hba] at this

end LcmWire.Table
