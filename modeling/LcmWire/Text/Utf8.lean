import LcmWire.BigEndian

/-!
# Text in UTF-8

Bytes are read as text whether or not they are well formed: each longest ill-formed beginning of a
character, and each byte that can begin none, is read as one replacement character, and the byte at
which a beginning breaks off is read anew. Main statement: `decode_encode`, well-formed bytes are
read as the text they stand for.
-/

namespace LcmWire.Utf8

/-- The bytes that stand for a string. -/
def encode (s : String) : Bytes := s.toList.flatMap String.utf8EncodeChar

/-- The character that stands for bytes that mean none. -/
def replacement : Char := '\uFFFD'

/-- The beginning of a character, well formed as far as it goes. -/
structure Beginning where
  /-- How many bytes are missing beside the next one. -/
  more : Nat
  /-- The least value that the next byte may have. -/
  low : Nat
  /-- The greatest value that the next byte may have. -/
  high : Nat
  /-- The bits that were read so far. -/
  bits : Nat
  deriving DecidableEq, Repr

/-- What bytes read one after the other turn out to be. -/
inductive Reading where
  /-- A character with all its bytes. -/
  | whole (c : Char)
  /-- A character that still lacks bytes. -/
  | unfinished (u : Beginning)
  /-- Nothing that any further byte could make a character. -/
  | illFormed
  deriving DecidableEq, Repr

/-- Read the first byte of a character. The range it leaves to the second byte shuts out spellings
that are longer than need be, surrogates, and numbers above U+10FFFF. -/
def first (b : UInt8) : Reading :=
  let n := b.toNat
  if n < 0x80 then .whole (Char.ofNat n)
  else if n < 0xC2 then .illFormed
  else if n < 0xE0 then .unfinished ⟨0, 0x80, 0xBF, n % 32⟩
  else if n < 0xF0 then
    .unfinished ⟨1, if n = 0xE0 then 0xA0 else 0x80, if n = 0xED then 0x9F else 0xBF, n % 16⟩
  else if n < 0xF5 then
    .unfinished ⟨2, if n = 0xF0 then 0x90 else 0x80, if n = 0xF4 then 0x8F else 0xBF, n % 8⟩
  else .illFormed

/-- Read one more byte of a character that has begun. -/
def Beginning.next (u : Beginning) (b : UInt8) : Reading :=
  if u.low ≤ b.toNat ∧ b.toNat ≤ u.high then
    let bits := 64 * u.bits + b.toNat % 64
    match u.more with
    | 0 => .whole (Char.ofNat bits)
    | more + 1 => .unfinished ⟨more, 0x80, 0xBF, bits⟩
  else .illFormed

/-- A text that is being read. -/
structure Scan where
  /-- The characters read so far, latest first. -/
  done : List Char
  /-- The character that has begun and still lacks bytes. -/
  open? : Option Beginning
  deriving DecidableEq, Repr

namespace Scan

/-- Enter the outcome of a byte that was read behind finished characters. -/
def enter (done : List Char) : Reading → Scan
  | .whole c => ⟨c :: done, none⟩
  | .unfinished u => ⟨done, some u⟩
  | .illFormed => ⟨replacement :: done, none⟩

/-- Read one byte. A beginning that it does not continue is replaced, and the byte is read anew. -/
def step (s : Scan) (b : UInt8) : Scan :=
  match s.open? with
  | none => enter s.done (first b)
  | some u =>
    match u.next b with
    | .illFormed => enter (replacement :: s.done) (first b)
    | reading => enter s.done reading

/-- The text once no byte follows: a beginning that is left over is replaced. -/
def text (s : Scan) : List Char :=
  match s.open? with
  | none => s.done.reverse
  | some _ => (replacement :: s.done).reverse

end Scan

/-- Read bytes as text. -/
def decode (bytes : Bytes) : String :=
  String.ofList (bytes.foldl Scan.step ⟨[], none⟩).text

/-! ### Well-formed bytes -/

namespace Scan

theorem step_first_whole {b : UInt8} {c : Char} (done : List Char) (h : first b = .whole c) :
    step ⟨done, none⟩ b = ⟨c :: done, none⟩ := by
  simp [step, enter, h]

theorem step_first_unfinished {b : UInt8} {u : Beginning} (done : List Char)
    (h : first b = .unfinished u) : step ⟨done, none⟩ b = ⟨done, some u⟩ := by
  simp [step, enter, h]

/-- A byte in range leaves a character open as long as more bytes are missing. -/
theorem step_inner {u : Beginning} {b : UInt8} {more : Nat} (done : List Char)
    (hm : u.more = more + 1) (hl : u.low ≤ b.toNat) (hh : b.toNat ≤ u.high) :
    step ⟨done, some u⟩ b = ⟨done, some ⟨more, 0x80, 0xBF, 64 * u.bits + b.toNat % 64⟩⟩ := by
  simp [step, Beginning.next, enter, hm, hl, hh]

/-- The last byte in range completes a character. -/
theorem step_last {u : Beginning} {b : UInt8} (done : List Char) (hm : u.more = 0)
    (hl : u.low ≤ b.toNat) (hh : b.toNat ≤ u.high) :
    step ⟨done, some u⟩ b = ⟨Char.ofNat (64 * u.bits + b.toNat % 64) :: done, none⟩ := by
  simp [step, Beginning.next, enter, hm, hl, hh]

end Scan

private theorem toNat_ofNat_of_lt {n : Nat} (h : n < 256) : (UInt8.ofNat n).toNat = n := by
  rw [UInt8.toNat_ofNat', Nat.mod_eq_of_lt h]

/-- The bytes of a character add that character to a text and leave nothing open. -/
theorem foldl_step_utf8EncodeChar (c : Char) (done : List Char) :
    (String.utf8EncodeChar c).foldl Scan.step ⟨done, none⟩ = ⟨c :: done, none⟩ := by
  have hc : Char.ofNat c.val.toNat = c := Char.ofNat_toNat c
  have hv : c.val.toNat < 0xD800 ∨ 0xDFFF < c.val.toNat ∧ c.val.toNat < 0x110000 := c.valid
  simp only [String.utf8EncodeChar]
  generalize c.val.toNat = v at hc hv
  have tail (n : Nat) : (UInt8.ofNat (n % 64 + 128)).toNat = n % 64 + 128 :=
    toNat_ofNat_of_lt (by omega)
  split
  · have hf : first (UInt8.ofNat v) = .whole c := by
      simp (disch := omega) only [first, toNat_ofNat_of_lt, if_pos, hc]
    simp only [List.foldl_cons, List.foldl_nil, Scan.step_first_whole _ hf]
  split
  · have hf : first (UInt8.ofNat (v / 64 % 32 + 192)) = .unfinished ⟨0, 0x80, 0xBF, v / 64⟩ := by
      simp (disch := omega) only [first, toNat_ofNat_of_lt, if_pos, if_neg]
      congr 2
      omega
    have e : 64 * (v / 64) + (v % 64 + 128) % 64 = v := by omega
    simp only [List.foldl_cons, List.foldl_nil, Scan.step_first_unfinished _ hf]
    rw [Scan.step_last _ rfl (by simp only [tail]; omega) (by simp only [tail]; omega), tail, e, hc]
  split
  · have hf : first (UInt8.ofNat (v / 4096 % 16 + 224)) =
        .unfinished ⟨1, if v / 4096 = 0 then 0xA0 else 0x80, if v / 4096 = 13 then 0x9F else 0xBF,
          v / 4096⟩ := by
      simp (disch := omega) only [first, toNat_ofNat_of_lt, if_pos, if_neg]
      congr 2 <;> grind
    have e : 64 * (64 * (v / 4096) + (v / 64 % 64 + 128) % 64) + (v % 64 + 128) % 64 = v := by omega
    simp only [List.foldl_cons, List.foldl_nil, Scan.step_first_unfinished _ hf]
    rw [Scan.step_inner _ rfl (by simp only [tail]; split <;> omega)
        (by simp only [tail]; split <;> omega),
      Scan.step_last _ rfl (by simp only [tail]; omega) (by simp only [tail]; omega), tail, tail,
      e, hc]
  · have hf : first (UInt8.ofNat (v / 262144 % 8 + 240)) =
        .unfinished ⟨2, if v / 262144 = 0 then 0x90 else 0x80,
          if v / 262144 = 4 then 0x8F else 0xBF, v / 262144⟩ := by
      simp (disch := omega) only [first, toNat_ofNat_of_lt, if_pos, if_neg]
      congr 2 <;> grind
    have e : 64 * (64 * (64 * (v / 262144) + (v / 4096 % 64 + 128) % 64) +
        (v / 64 % 64 + 128) % 64) + (v % 64 + 128) % 64 = v := by omega
    simp only [List.foldl_cons, List.foldl_nil, Scan.step_first_unfinished _ hf]
    rw [Scan.step_inner _ rfl (by simp only [tail]; split <;> omega)
        (by simp only [tail]; split <;> omega),
      Scan.step_inner _ rfl (by simp only [tail]; omega) (by simp only [tail]; omega),
      Scan.step_last _ rfl (by simp only [tail]; omega) (by simp only [tail]; omega), tail, tail,
      tail, e, hc]

theorem foldl_step_flatMap_utf8EncodeChar (s done : List Char) :
    (s.flatMap String.utf8EncodeChar).foldl Scan.step ⟨done, none⟩ = ⟨s.reverse ++ done, none⟩ := by
  induction s generalizing done with
  | nil => rfl
  | cons c s ih => simp [List.flatMap_cons, List.foldl_append, foldl_step_utf8EncodeChar, ih]

/-- Text is read back from the bytes that stand for it. -/
theorem decode_encode (s : String) : decode (encode s) = s := by
  simp [decode, encode, foldl_step_flatMap_utf8EncodeChar, Scan.text]

end LcmWire.Utf8
