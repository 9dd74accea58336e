/-!
# Hexadecimal numbers

Numbers in base sixteen with lower-case digits, bare or filled up with zeros to a fixed width.
-/

namespace LcmWire.Hex

/-- The digits of a number, without leading zeros; zero is written `0`. -/
def digits (n : Nat) : List Char := Nat.toDigits 16 n

/-- The digits of a number behind as many zeros as make `width` characters. -/
def padded (width n : Nat) : List Char :=
  List.replicate (width - (digits n).length) '0' ++ digits n

/-- A number that has `width` digits or more is not cut. -/
theorem length_padded (width n : Nat) : (padded width n).length = max width (digits n).length := by
  rw [padded, List.length_append, List.length_replicate]
  omega

end LcmWire.Hex
