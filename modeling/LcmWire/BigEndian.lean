/-!
# Big-endian numbers

A number stands on the wire in a field of fixed width, most significant byte first. Main statement:
`ofNat_toNat`, a field has no second spelling.
-/

namespace LcmWire

/-- Bytes in the order in which they stand on the wire. -/
abbrev Bytes := List UInt8

namespace BigEndian

/-- Write the `width` lowest base-256 digits of a number, most significant first. -/
def ofNat : Nat → Nat → Bytes
  | 0, _ => []
  | width + 1, n => ofNat width (n / 256) ++ [UInt8.ofNat n]

/-- Read a field of any width as one number. -/
def toNat (bytes : Bytes) : Nat := bytes.foldl (fun n b => 256 * n + b.toNat) 0

/-- Read the number in the `width` bytes from `offset` on. -/
def field (offset width : Nat) (bytes : Bytes) : Nat :=
  toNat ((bytes.drop offset).take width)

@[simp] theorem length_ofNat (width n : Nat) : (ofNat width n).length = width := by
  induction width generalizing n with
  | zero => rfl
  | succ width ih => simp [ofNat, ih]

/-- The last byte of a field is the lowest digit of its number. -/
theorem toNat_concat (bytes : Bytes) (b : UInt8) :
    toNat (bytes ++ [b]) = 256 * toNat bytes + b.toNat := by
  simp [toNat]

/-- Writing the number that a field holds gives the field back. -/
theorem ofNat_toNat (bytes : Bytes) : ofNat bytes.length (toNat bytes) = bytes := by
  have hreverse (digits : Bytes) :
      ofNat digits.reverse.length (toNat digits.reverse) = digits.reverse := by
    induction digits with
    | nil => rfl
    | cons b digits ih =>
      have hb := b.toNat_lt
      have hdiv : (256 * toNat digits.reverse + b.toNat) / 256 = toNat digits.reverse := by
        omega
      have hmod : UInt8.ofNat (256 * toNat digits.reverse + b.toNat) = b := by
        rw [← UInt8.toNat_inj, UInt8.toNat_ofNat']
        omega
      rw [List.reverse_cons, List.length_append, List.length_singleton, toNat_concat, ofNat, hdiv,
        hmod, ih]
  rw [← List.reverse_reverse bytes]
  exact hreverse bytes.reverse

end BigEndian

end LcmWire
