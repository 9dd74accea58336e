import LcmWire.BigEndian
import Mathlib.Algebra.Group.Nat.Defs
import Mathlib.Data.List.Induction
import Mathlib.Data.Nat.Digits.Defs

/-!
# Fields of big-endian numbers

A field of `w` bytes holds the numbers below `256 ^ w`. Main statements: `toNat_ofNat` reads back
what was written, up to the width, `ofNat_field_append` says that bytes with room for a field
are that field and what stands around it, and `field_eq_number` gives its number by its digits.
-/

namespace LcmWire.BigEndian

/-- A field of `w` bytes holds numbers below `256 ^ w` only. -/
theorem toNat_lt (bytes : Bytes) : toNat bytes < 256 ^ bytes.length := by
  induction bytes using List.reverseRecOn with
  | nil => decide
  | append_singleton bytes b ih =>
    have hb := b.toNat_lt
    have hle : 256 * (toNat bytes + 1) ≤ 256 * 256 ^ bytes.length := Nat.mul_le_mul_left 256 ih
    rw [toNat_concat, List.length_append, List.length_singleton, Nat.pow_succ']
    omega

/-- Reading returns the number that was written, less what its field could not hold. -/
theorem toNat_ofNat (width n : Nat) : toNat (ofNat width n) = n % 256 ^ width := by
  induction width generalizing n with
  | zero => exact (Nat.mod_one n).symm
  | succ width ih =>
    have hdiv := Nat.mod_mul_right_div_self n 256 (256 ^ width)
    have hmod : n % (256 * 256 ^ width) % 256 = n % 256 :=
      Nat.mod_mod_of_dvd n (Nat.dvd_mul_right 256 (256 ^ width))
    have hdigits := Nat.div_add_mod (n % (256 * 256 ^ width)) 256
    rw [hdiv, hmod] at hdigits
    have hpow : 256 ^ (width + 1) = 256 * 256 ^ width := Nat.pow_succ'
    rw [ofNat, toNat_concat, ih, UInt8.toNat_ofNat', hpow]
    exact hdigits

/-- Bytes in front of a field move it by their number. -/
theorem field_skip {before : Bytes} {offset : Nat} (h : before.length ≤ offset) (width : Nat)
    (rest : Bytes) :
    field offset width (before ++ rest) = field (offset - before.length) width rest := by
  have hd : (before ++ rest).drop offset = rest.drop (offset - before.length) := by
    rw [List.drop_append, List.drop_eq_nil_of_le h, List.nil_append]
  rw [field, field, hd]

@[simp] theorem field_ofNat_skip {size offset : Nat} (h : size ≤ offset) (width n : Nat)
    (rest : Bytes) :
    field offset width (ofNat size n ++ rest) = field (offset - size) width rest := by
  rw [field_skip (by rwa [length_ofNat]), length_ofNat]

/-- A number that was written is read back, less what its field could not hold. -/
theorem field_ofNat (width n : Nat) (rest : Bytes) :
    field 0 width (ofNat width n ++ rest) = n % 256 ^ width := by
  have ht : (ofNat width n ++ rest).take width = ofNat width n :=
    List.take_left' (length_ofNat width n)
  rw [field, List.drop_zero, ht, toNat_ofNat]

@[simp] theorem field_word (n : UInt32) (rest : Bytes) :
    UInt32.ofNat (field 0 4 (ofNat 4 n.toNat ++ rest)) = n := by
  have hlt : n.toNat < 256 ^ 4 := UInt32.toNat_lt n
  rw [field_ofNat, Nat.mod_eq_of_lt hlt, UInt32.ofNat_toNat]

@[simp] theorem field_halfword (n : UInt16) (rest : Bytes) :
    UInt16.ofNat (field 0 2 (ofNat 2 n.toNat ++ rest)) = n := by
  have hlt : n.toNat < 256 ^ 2 := UInt16.toNat_lt n
  rw [field_ofNat, Nat.mod_eq_of_lt hlt, UInt16.ofNat_toNat]

/-- A field of `w` bytes holds numbers below `256 ^ w` only, wherever it stands. -/
theorem field_lt (offset width : Nat) (bytes : Bytes) : field offset width bytes < 256 ^ width := by
  have hl := List.length_take_le width (bytes.drop offset)
  exact Nat.lt_of_lt_of_le (toNat_lt _) (Nat.pow_le_pow_right (by decide) hl)

/-- Writing the number that a field holds gives the bytes of the field back. -/
theorem ofNat_field {offset width : Nat} {bytes : Bytes} (h : offset + width ≤ bytes.length) :
    ofNat width (field offset width bytes) = (bytes.drop offset).take width := by
  have hl : ((bytes.drop offset).take width).length = width := by
    rw [List.length_take, List.length_drop]
    omega
  have he := ofNat_toNat ((bytes.drop offset).take width)
  rwa [hl] at he

@[simp] theorem toNat_field_word (offset : Nat) (bytes : Bytes) :
    (UInt32.ofNat (field offset 4 bytes)).toNat = field offset 4 bytes :=
  Nat.mod_eq_of_lt (field_lt offset 4 bytes)

@[simp] theorem toNat_field_halfword (offset : Nat) (bytes : Bytes) :
    (UInt16.ofNat (field offset 2 bytes)).toNat = field offset 2 bytes :=
  Nat.mod_eq_of_lt (field_lt offset 2 bytes)

/-- The field at the head of a tail of the bytes, and the tail behind it. -/
theorem ofNat_field_append {offset width : Nat} {bytes : Bytes}
    (h : offset + width ≤ bytes.length) :
    ofNat width (field offset width bytes) ++ bytes.drop (offset + width) = bytes.drop offset := by
  rw [ofNat_field h, ← List.drop_drop, List.take_append_drop]

/-- Bytes are the digits of their number to the base 256, of which the last is the lowest. -/
theorem toNat_eq_ofDigits (bytes : Bytes) :
    toNat bytes = Nat.ofDigits 256 (bytes.reverse.map UInt8.toNat) := by
  induction bytes using List.reverseRecOn with
  | nil => rfl
  | append_singleton bytes b ih =>
    rw [toNat_concat, List.reverse_append, List.reverse_singleton, List.singleton_append,
      List.map_cons, Nat.ofDigits_cons, ← ih]
    exact Nat.add_comm _ _

/-- The number whose digits to the base 256 are the bytes from one position up to another, the
highest digit first. -/
def number (start stop : Nat) (bytes : Bytes) : Nat :=
  Nat.ofDigits 256 (((bytes.drop start).take (stop - start)).reverse.map UInt8.toNat)

theorem field_eq_number (offset width : Nat) (bytes : Bytes) :
    field offset width bytes = number offset (offset + width) bytes := by
  rw [field, toNat_eq_ofDigits, number, Nat.add_sub_cancel_left]

end LcmWire.BigEndian
