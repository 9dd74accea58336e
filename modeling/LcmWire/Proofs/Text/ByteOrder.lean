import LcmWire.Text.Utf8
import Mathlib.Algebra.Group.Nat.Defs

/-!
# Texts in the order of their bytes

Bytes that stand for texts come in the order of the texts (`encode_lt_encode`): as many leading
bits of a character as its first byte can hold stand there, and each further byte has the next six
(`spelling`), so the first byte that differs decides as the numbers of the characters do.
-/

namespace LcmWire.Utf8

/-- A number as a first byte, counted from `mark`, and as many further bytes with six bits each. -/
def spelling (mark : Nat) : Nat → Nat → Bytes
  | 0, v => [UInt8.ofNat (v + mark)]
  | more + 1, v => spelling mark more (v / 64) ++ [UInt8.ofNat (v % 64 + 128)]

/-- The bytes of a character spell its number, with more bytes for greater ones. -/
theorem utf8EncodeChar_eq_spelling (c : Char) :
    let v := c.val.toNat
    String.utf8EncodeChar c =
      if v ≤ 0x7F then spelling 0 0 v
      else if v ≤ 0x7FF then spelling 192 1 v
      else if v ≤ 0xFFFF then spelling 224 2 v
      else spelling 240 3 v := by
  intro v
  have hv : v < 0xD800 ∨ 0xDFFF < v ∧ v < 0x110000 := c.valid
  simp only [String.utf8EncodeChar]
  change (if v ≤ 0x7F then _ else _) = _
  split
  · rfl
  split
  · have hfirst : v / 64 % 32 = v / 64 := by omega
    rw [hfirst]
    rfl
  split
  · have hfirst : v / 4096 % 16 = v / 64 / 64 := by omega
    rw [hfirst]
    rfl
  · have hfirst : v / 262144 % 8 = v / 64 / 64 / 64 := by omega
    have hsecond : v / 4096 = v / 64 / 64 := by omega
    rw [hfirst, hsecond]
    rfl

section Bytes

variable {v w : Nat}

/-- A smaller first byte puts bytes first. -/
theorem ofNat_cons_lt (h : v < w) (hw : w < 256) (x y : Bytes) :
    UInt8.ofNat v :: x < UInt8.ofNat w :: y :=
  .rel ((UInt8.ofNat_lt_iff_lt (Nat.lt_trans h hw) hw).mpr h)

/-- Spellings of one length come in the order of their numbers, whatever follows. -/
theorem spelling_append_lt {mark more : Nat} (h : v < w) (hw : w / 64 ^ more + mark < 256)
    (x y : Bytes) : spelling mark more v ++ x < spelling mark more w ++ y := by
  induction more generalizing v w x y with
  | zero =>
    rw [Nat.pow_zero, Nat.div_one] at hw
    exact ofNat_cons_lt (by omega) hw x y
  | succ more ih =>
    rw [Nat.pow_succ', ← Nat.div_div_eq_div_mul] at hw
    rw [spelling, spelling, List.append_assoc, List.append_assoc]
    rcases Nat.lt_or_eq_of_le (Nat.div_le_div_right (Nat.le_of_lt h)) with hless | hsame
    · exact ih hless hw _ _
    · -- The bits before the last six are the same, so the last six decide.
      rw [hsame]
      exact List.append_left_lt (ofNat_cons_lt (by omega) (by omega) x y)

end Bytes

/-- The bytes of a character come before those of every later one, whatever follows. -/
theorem utf8EncodeChar_append_lt {c d : Char} (h : c < d) (x y : Bytes) :
    String.utf8EncodeChar c ++ x < String.utf8EncodeChar d ++ y := by
  have hv : c.val.toNat < d.val.toNat := h
  have hd : d.val.toNat < 0xD800 ∨ 0xDFFF < d.val.toNat ∧ d.val.toNat < 0x110000 := d.valid
  rw [utf8EncodeChar_eq_spelling, utf8EncodeChar_eq_spelling]
  generalize c.val.toNat = v at hv
  generalize d.val.toNat = w at hv hd
  -- Of two spellings the longer one has the greater first byte.
  split
  · split
    · exact spelling_append_lt hv (by omega) x y
    split
    · exact ofNat_cons_lt (by omega) (by omega) _ _
    split <;> exact ofNat_cons_lt (by omega) (by omega) _ _
  split
  · split
    · omega
    split
    · exact spelling_append_lt hv (by omega) x y
    split <;> exact ofNat_cons_lt (by omega) (by omega) _ _
  split
  · split
    · omega
    split
    · omega
    split
    · exact spelling_append_lt hv (by omega) x y
    · exact ofNat_cons_lt (by omega) (by omega) _ _
  · rw [if_neg (by omega), if_neg (by omega), if_neg (by omega)]
    exact spelling_append_lt hv (by omega) x y

theorem flatMap_utf8EncodeChar_lt {s t : List Char} (h : s < t) :
    s.flatMap String.utf8EncodeChar < t.flatMap String.utf8EncodeChar := by
  induction h with
  | @nil d t =>
    obtain ⟨b, rest, hd⟩ := List.exists_cons_of_ne_nil (String.utf8EncodeChar_ne_nil (c := d))
    rw [List.flatMap_cons, hd]
    exact .nil
  | cons _ ih => exact List.append_left_lt ih
  | rel h => exact utf8EncodeChar_append_lt h _ _

/-- Bytes that stand for texts come in the order of the texts. -/
theorem encode_lt_encode {s t : String} (h : s < t) : encode s < encode t :=
  flatMap_utf8EncodeChar_lt (String.lt_iff.mp h)

/-- Texts that are compared by their characters are compared by their bytes. -/
theorem encode_lt_encode_of_compare {s t : String} (h : compare s t = .lt) :
    encode s < encode t :=
  encode_lt_encode (compareOfLessAndEq_eq_lt.mp h)

/-- Texts in the order of their bytes can be put in no other one. -/
theorem eq_of_perm_of_pairwise_encode_le {texts others : List String} (h : texts.Perm others)
    (htexts : texts.Pairwise fun s t => encode s ≤ encode t)
    (hothers : others.Pairwise fun s t => encode s ≤ encode t) : texts = others := by
  refine h.eq_of_pairwise (fun s t _ _ hst hts => ?_) htexts hothers
  have hbytes : encode s = encode t := List.le_antisymm hst hts
  rw [← decode_encode s, hbytes, decode_encode]

end LcmWire.Utf8
