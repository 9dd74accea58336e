import LcmWire.Text.Utf8
import Mathlib.Algebra.Group.Nat.Defs

/-!
# Zero characters and well-formed bytes

Zero bytes and zero characters go together: `encode_forall_ne` says so of the bytes that a text is
written as, and `zero_notMem_decode` of the text that any bytes are read as. For the latter an
invariant of reading bounds the numbers that a character that has begun can still become
(`Beginning.Proper`), away from zero, from the surrogates and from what is no character.
`encode_decode_eq_iff` says which bytes are written back as they were read.
-/

namespace LcmWire.Utf8

/-! ### Writing -/

/-- A byte that is written for a number is zero only if its field of the number is. -/
theorem zero_eq_ofNat_iff {n : Nat} : (0 : UInt8) = UInt8.ofNat n ↔ n % 256 = 0 := by
  rw [← UInt8.toNat_inj, UInt8.toNat_ofNat']
  exact eq_comm

/-- Only the zero character has a zero byte. -/
theorem eq_of_zero_mem_utf8EncodeChar {c : Char} (h : 0 ∈ String.utf8EncodeChar c) :
    c = '\x00' := by
  have hc : Char.ofNat c.val.toNat = c := Char.ofNat_toNat c
  simp only [String.utf8EncodeChar] at h
  generalize c.val.toNat = v at h hc
  split at h
  · rename_i hv
    rw [List.mem_singleton, zero_eq_ofNat_iff] at h
    obtain rfl : v = 0 := by omega
    exact hc.symm
  split at h
  · simp only [List.mem_cons, List.not_mem_nil, or_false, zero_eq_ofNat_iff] at h
    omega
  split at h
  · simp only [List.mem_cons, List.not_mem_nil, or_false, zero_eq_ofNat_iff] at h
    omega
  · simp only [List.mem_cons, List.not_mem_nil, or_false, zero_eq_ofNat_iff] at h
    omega

/-- The bytes of a text without a zero character are not zero. -/
theorem encode_forall_ne {s : String} (h : '\x00' ∉ s.toList) : ∀ b ∈ encode s, b ≠ 0 := by
  rintro b hb rfl
  obtain ⟨c, hc, hz⟩ := List.mem_flatMap.mp hb
  exact h (eq_of_zero_mem_utf8EncodeChar hz ▸ hc)

theorem encode_append (s t : String) : encode (s ++ t) = encode s ++ encode t := by
  rw [encode, String.toList_append, List.flatMap_append, encode, encode]

/-! ### Reading -/

/-- No number of a character but zero makes the zero character. -/
theorem ofNat_ne_zero {n : Nat} (h0 : 0 < n) (hn : n.isValidChar) : Char.ofNat n ≠ '\x00' := by
  intro h
  have hnumber : (Char.ofNat n).toNat = n := by
    rw [Char.ofNat, dif_pos hn]
    rfl
  rw [h] at hnumber
  exact absurd hnumber (Nat.ne_of_lt h0)

namespace Beginning

/-- The least number that a character with this beginning can have. -/
def least (u : Beginning) : Nat := (64 * u.bits + u.low % 64) * 64 ^ u.more

/-- The first number above all that a character with this beginning can have. -/
def bound (u : Beginning) : Nat := (64 * u.bits + u.high % 64 + 1) * 64 ^ u.more

/-- All numbers that a character with this beginning can have are numbers of characters, and none
of them is zero. -/
structure Proper (u : Beginning) : Prop where
  low_ge : 0x80 ≤ u.low
  high_le : u.high ≤ 0xBF
  least_pos : 0 < u.least
  valid : u.bound ≤ 0xD800 ∨ 0xE000 ≤ u.least ∧ u.bound ≤ 0x110000

/-- Where any byte may continue a character, its bits are all that bounds the number. -/
theorem least_of_any (more bits : Nat) :
    least ⟨more, 0x80, 0xBF, bits⟩ = bits * 64 ^ (more + 1) := by
  simp only [least, Nat.reduceMod, Nat.add_zero]
  rw [Nat.pow_succ', ← Nat.mul_assoc, Nat.mul_comm bits 64]

theorem bound_of_any (more bits : Nat) :
    bound ⟨more, 0x80, 0xBF, bits⟩ = (bits + 1) * 64 ^ (more + 1) := by
  simp only [bound, Nat.reduceMod]
  rw [Nat.pow_succ', ← Nat.mul_assoc, Nat.mul_comm (bits + 1) 64, Nat.mul_succ]

end Beginning

/-- What was read is not the zero character and cannot become it. -/
def Reading.Nonzero : Reading → Prop
  | .whole c => c ≠ '\x00'
  | .unfinished u => u.Proper
  | .illFormed => True

/-- A byte that is not zero begins no zero character. -/
theorem nonzero_first {b : UInt8} (h : b ≠ 0) : (first b).Nonzero := by
  have hpos : 0 < b.toNat := UInt8.pos_iff_ne_zero.mpr h
  simp only [first]
  generalize b.toNat = n at hpos
  -- The cases are those of `first`: one byte, no beginning, two bytes, three, four, no beginning.
  split
  · exact ofNat_ne_zero hpos (.inl (by omega))
  split
  · trivial
  split
  · refine ⟨Nat.le_refl _, Nat.le_refl _, ?_, .inl ?_⟩
    · simp only [Beginning.least]
      omega
    · simp only [Beginning.bound]
      omega
  split
  · refine ⟨by grind, by grind, ?_, ?_⟩
    · simp only [Beginning.least]
      grind
    · simp only [Beginning.least, Beginning.bound]
      grind
  split
  · refine ⟨by grind, by grind, ?_, .inr ?_⟩
    · simp only [Beginning.least]
      grind
    · simp only [Beginning.least, Beginning.bound]
      grind
  · trivial

/-- One more byte in range narrows the numbers that a character can have. -/
theorem Beginning.Proper.nonzero_next {u : Beginning} (h : u.Proper) (b : UInt8) :
    (u.next b).Nonzero := by
  obtain ⟨more, low, high, bits⟩ := u
  obtain ⟨hlow, hhigh, hpos, hvalid⟩ := h
  simp only [least, bound] at hlow hhigh hpos hvalid
  unfold Beginning.next
  split
  · rename_i hrange
    obtain ⟨hl, hh⟩ := hrange
    simp only at hl hh
    have hfrom : 64 * bits + low % 64 ≤ 64 * bits + b.toNat % 64 := by omega
    have hto : 64 * bits + b.toNat % 64 + 1 ≤ 64 * bits + high % 64 + 1 := by omega
    generalize 64 * bits + b.toNat % 64 = n at hfrom hto
    -- The numbers that are left lie between the old bounds, as both grow with the bits.
    have hleast := Nat.mul_le_mul_right (64 ^ more) hfrom
    have hbound := Nat.mul_le_mul_right (64 ^ more) hto
    cases more with
    | zero =>
      apply ofNat_ne_zero
      · omega
      · simp only [Nat.isValidChar]
        omega
    | succ more =>
      have hleastOfAny := least_of_any more n
      have hboundOfAny := bound_of_any more n
      refine ⟨Nat.le_refl _, Nat.le_refl _, ?_, ?_⟩
      · omega
      · omega
  · trivial

namespace Scan

/-- No zero character was read, and none is being read. -/
structure Nonzero (s : Scan) : Prop where
  done : '\x00' ∉ s.done
  proper : ∀ u ∈ s.open?, u.Proper

theorem replacement_cons {done : List Char} (h : '\x00' ∉ done) : '\x00' ∉ replacement :: done :=
  List.not_mem_cons_of_ne_of_not_mem (by decide) h

theorem nonzero_enter {done : List Char} (hd : '\x00' ∉ done) {reading : Reading}
    (hr : reading.Nonzero) : (enter done reading).Nonzero := by
  cases reading with
  | whole c => exact ⟨List.not_mem_cons_of_ne_of_not_mem (Ne.symm hr) hd, by simp [enter]⟩
  | unfinished u =>
    refine ⟨hd, ?_⟩
    rintro v ⟨⟩
    exact hr
  | illFormed => exact ⟨replacement_cons hd, by simp [enter]⟩

/-- Reading a byte that is not zero brings no zero character about. -/
theorem Nonzero.step_of_ne {s : Scan} (h : s.Nonzero) {b : UInt8} (hb : b ≠ 0) :
    (s.step b).Nonzero := by
  obtain ⟨done, open?⟩ := s
  cases open? with
  | none => exact nonzero_enter h.done (nonzero_first hb)
  | some u =>
    have hnext := (h.proper u rfl).nonzero_next b
    simp only [Scan.step]
    split
    · exact nonzero_enter (replacement_cons h.done) (nonzero_first hb)
    · exact nonzero_enter h.done hnext

theorem Nonzero.zero_notMem_text {s : Scan} (h : s.Nonzero) : '\x00' ∉ s.text := by
  unfold text
  split
  · rw [List.mem_reverse]
    exact h.done
  · rw [List.mem_reverse]
    exact replacement_cons h.done

end Scan

/-- Bytes without a zero byte are read as a text without a zero character. -/
theorem zero_notMem_decode {bytes : Bytes} (h : ∀ b ∈ bytes, b ≠ 0) :
    '\x00' ∉ (decode bytes).toList := by
  have hscan : ∀ s : Scan, s.Nonzero → (bytes.foldl Scan.step s).Nonzero := by
    induction bytes with
    | nil => exact fun s hs => hs
    | cons b rest ih =>
      intro s hs
      have hstep := hs.step_of_ne (h b List.mem_cons_self)
      exact ih (fun c hc => h c (List.mem_cons_of_mem b hc)) _ hstep
  rw [decode, String.toList_ofList]
  exact (hscan ⟨[], none⟩ ⟨List.not_mem_nil, by simp⟩).zero_notMem_text

/-- Bytes are written back as they were read exactly if they are well formed. -/
theorem encode_decode_eq_iff {bytes : Bytes} :
    encode (decode bytes) = bytes ↔ bytes.toByteArray.IsValidUTF8 := by
  constructor
  · intro h
    exact .intro (decode bytes).toList (congrArg List.toByteArray h.symm)
  · rintro ⟨text, h⟩
    obtain rfl : bytes = encode (String.ofList text) := by
      rw [encode, String.toList_ofList]
      exact List.toByteArray_inj.mp h
    rw [decode_encode]

end LcmWire.Utf8
