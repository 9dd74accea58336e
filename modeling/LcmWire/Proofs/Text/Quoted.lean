import LcmWire.Text.Quoted

/-!
# Quoted texts can be told apart

Each character can be read back from its spelling (`readChar?_encodeChar`), whatever stands behind
it. So no spelling begins another one, and this carries over from characters to quoted texts and to
lists of them (`SelfDelimiting`): a text between quotes ends where its spelling says, whatever
quotes, commas or brackets it holds.
-/

namespace LcmWire

/-! ### Spellings in a row -/

/-- The spellings of different items differ, and none of them begins another one. -/
def SelfDelimiting {α β : Type} (spell : α → List β) : Prop :=
  ∀ ⦃a b : α⦄ ⦃x y : List β⦄, spell a ++ x = spell b ++ y → a = b ∧ x = y

/-- Every spelling begins with something else than the stop. -/
def NeverBegins {α β : Type} (stop : β) (spell : α → List β) : Prop :=
  ∀ a, ∃ first rest, spell a = first :: rest ∧ first ≠ stop

namespace SelfDelimiting

variable {α β : Type} {spell : α → List β} {stop : β}

/-- Spellings from which the item is read back, whatever stands behind them. -/
theorem of_read {read? : List β → Option (α × List β)}
    (h : ∀ a rest, read? (spell a ++ rest) = some (a, rest)) : SelfDelimiting spell := by
  intro a b x y heq
  have hread := h a x
  rw [heq, h b y, Option.some.injEq, Prod.mk.injEq] at hread
  exact ⟨hread.1.symm, hread.2.symm⟩

/-- The same front may stand before all spellings. -/
theorem behind (h : SelfDelimiting spell) (front : List β) :
    SelfDelimiting fun a => front ++ spell a := by
  intro a b x y heq
  rw [List.append_assoc, List.append_assoc] at heq
  exact h (List.append_cancel_left heq)

/-- Spellings that follow one another end at a stop that begins none of them. -/
theorem flatMap_stop (h : SelfDelimiting spell) (hstop : NeverBegins stop spell) :
    SelfDelimiting fun as : List α => as.flatMap spell ++ [stop] := by
  intro as
  induction as with
  | nil =>
    rintro (_ | ⟨b, bs⟩) x y heq
    · exact ⟨rfl, by simpa using heq⟩
    · obtain ⟨first, rest, hb, hne⟩ := hstop b
      simp [hb, hne.symm] at heq
  | cons a as ih =>
    rintro (_ | ⟨b, bs⟩) x y heq
    · obtain ⟨first, rest, ha, hne⟩ := hstop a
      simp [ha, hne] at heq
    · simp only [List.flatMap_cons, List.append_assoc] at heq
      obtain ⟨rfl, hrest⟩ := h heq
      obtain ⟨rfl, hxy⟩ := ih (by simpa using hrest)
      exact ⟨rfl, hxy⟩

end SelfDelimiting

/-- Behind the first of some parts, each further one has the separator before it. -/
theorem intercalate_cons_eq_flatMap {β : Type} (separator first : List β)
    (rest : List (List β)) :
    List.intercalate separator (first :: rest) = first ++ rest.flatMap (separator ++ ·) := by
  induction rest generalizing first with
  | nil => simp
  | cons second rest ih =>
    rw [List.intercalate_cons_cons, ih, List.flatMap_cons, List.append_assoc, List.append_assoc]

/-- A text put together from parts, as the characters of its parts put together. -/
theorem ofList_intercalate (separator : String) (parts : List (List Char)) :
    String.ofList (List.intercalate separator.toList parts) =
      separator.intercalate (parts.map String.ofList) := by
  have hid : String.toList ∘ String.ofList = id := funext fun _ => String.toList_ofList
  rw [← String.toList_inj, String.toList_intercalate, String.toList_ofList, List.map_map, hid,
    List.map_id]

/-- Spellings with a separator between them end at a stop that begins neither. -/
theorem SelfDelimiting.intercalate_stop {α β : Type} {spell : α → List β} {stop mark : β}
    {separator : List β} (h : SelfDelimiting spell) (hstop : NeverBegins stop spell)
    (hmark : mark ≠ stop) :
    SelfDelimiting fun as : List α =>
      List.intercalate (mark :: separator) (as.map spell) ++ [stop] := by
  have hbegins : NeverBegins stop fun a => (mark :: separator) ++ spell a :=
    fun a => ⟨mark, separator ++ spell a, rfl, hmark⟩
  have hrest := (h.behind (mark :: separator)).flatMap_stop hbegins
  rintro (_ | ⟨a, as⟩) (_ | ⟨b, bs⟩) x y heq
  · exact ⟨rfl, by simpa using heq⟩
  · obtain ⟨first, rest, hb, hne⟩ := hstop b
    simp [intercalate_cons_eq_flatMap, hb, hne.symm] at heq
  · obtain ⟨first, rest, ha, hne⟩ := hstop a
    simp [intercalate_cons_eq_flatMap, ha, hne] at heq
  · simp only [List.map_cons, intercalate_cons_eq_flatMap, List.append_assoc, List.flatMap_map]
      at heq
    obtain ⟨rfl, htail⟩ := h heq
    obtain ⟨rfl, hxy⟩ := hrest (by simpa using htail)
    exact ⟨rfl, hxy⟩

/-! ### Hexadecimal numbers -/

namespace Hex

/-- The value of a digit. -/
def digitValue (c : Char) : Nat :=
  if c.isDigit then c.toNat - '0'.toNat else c.toNat - 'a'.toNat + 10

/-- The number with some digits. -/
def value (digits : List Char) : Nat := digits.foldl (fun n c => 16 * n + digitValue c) 0

theorem digitValue_digitChar : ∀ d < 16, digitValue (Nat.digitChar d) = d := by decide

/-- The last digit of a number above fifteen stands behind those of its sixteenth part. -/
theorem digits_of_le {n : Nat} (h : 16 ≤ n) :
    digits n = digits (n / 16) ++ [Nat.digitChar (n % 16)] :=
  Nat.toDigits_of_base_le (by decide) h

/-- A number below sixteen has one digit. -/
theorem digits_of_lt {n : Nat} (h : n < 16) : digits n = [Nat.digitChar n] :=
  Nat.toDigits_of_lt_base h

/-- A number is read back from its digits. -/
theorem value_digits (n : Nat) : value (digits n) = n := by
  induction n using Nat.strongRecOn with
  | ind n ih =>
    by_cases h : n < 16
    · rw [digits_of_lt h, value, List.foldl_cons, List.foldl_nil, digitValue_digitChar n h]
      omega
    · have hpart := ih (n / 16) (by omega)
      have hlast := digitValue_digitChar (n % 16) (by omega)
      rw [digits_of_le (by omega), value, List.foldl_append, ← value, hpart, List.foldl_cons,
        List.foldl_nil, hlast]
      omega

/-- What stands in a number is the digit of something. -/
theorem exists_of_mem_digits {n : Nat} {c : Char} (h : c ∈ digits n) :
    ∃ d < 16, c = Nat.digitChar d := by
  induction n using Nat.strongRecOn with
  | ind n ih =>
    by_cases hn : n < 16
    · rw [digits_of_lt hn, List.mem_singleton] at h
      exact ⟨n, hn, h⟩
    · rw [digits_of_le (by omega), List.mem_append, List.mem_singleton] at h
      rcases h with h | rfl
      · exact ih (n / 16) (by omega) h
      · exact ⟨n % 16, by omega, rfl⟩

/-- Read a number up to the bracket that ends it, and leave what stands behind that. -/
def read (text : List Char) : Nat × List Char :=
  (value (text.takeWhile (· ≠ '\x7d')), (text.dropWhile (· ≠ '\x7d')).drop 1)

/-- No digit is the bracket that ends a number. -/
theorem ne_bracket_of_mem_digits {n : Nat} {c : Char} (h : c ∈ digits n) : c ≠ '\x7d' := by
  have hne : ∀ d < 16, Nat.digitChar d ≠ '\x7d' := by decide
  obtain ⟨d, hd, rfl⟩ := exists_of_mem_digits h
  exact hne d hd

/-- A number is read back, whatever stands behind its bracket. -/
theorem read_digits (n : Nat) (rest : List Char) :
    read (digits n ++ '\x7d' :: rest) = (n, rest) := by
  have hdigits : ∀ c ∈ digits n, (c ≠ '\x7d' : Bool) = true :=
    fun c hc => decide_eq_true (ne_bracket_of_mem_digits hc)
  rw [read, List.takeWhile_append_of_pos hdigits, List.dropWhile_append_of_pos hdigits]
  simp [value_digits]

end Hex

/-! ### Quoted texts -/

namespace Quoted

/-- The characters that are shown by one character behind a backslash. -/
def lettered : List Char := ['"', '\\', '\x00', '\t', '\n', '\r']

/-- All other characters show themselves, or are shown by their numbers. -/
theorem encodeChar_of_notMem {c : Char} (h : c ∉ lettered) :
    encodeChar c =
      if showsItself c then [c] else ['\\', 'u', '\x7b'] ++ Hex.digits c.toNat ++ ['\x7d'] := by
  simp only [lettered, List.mem_cons, List.not_mem_nil, or_false, not_or] at h
  simp [encodeChar, h]

/-- The character that is shown by one behind a backslash. -/
def ofLetter (c : Char) : Char :=
  if c = '0' then '\x00'
  else if c = 't' then '\t'
  else if c = 'n' then '\n'
  else if c = 'r' then '\r'
  else c

/-- Read the spelling of one character, and leave what stands behind it. -/
def readChar? : List Char → Option (Char × List Char)
  | [] => none
  | c :: rest =>
    if c = '\\' then
      match rest with
      | [] => none
      | letter :: rest =>
        if letter = 'u' then
          let (n, rest) := Hex.read (rest.drop 1)
          some (Char.ofNat n, rest)
        else some (ofLetter letter, rest)
    else some (c, rest)

/-- A character is read back from its spelling, whatever stands behind it. -/
theorem readChar?_encodeChar (c : Char) (rest : List Char) :
    readChar? (encodeChar c ++ rest) = some (c, rest) := by
  by_cases h : c ∈ lettered
  · simp only [lettered, List.mem_cons, List.not_mem_nil, or_false] at h
    rcases h with rfl | rfl | rfl | rfl | rfl | rfl <;> rfl
  · rw [encodeChar_of_notMem h]
    split
    · have hne : c ≠ '\\' := by
        rintro rfl
        exact h (by decide)
      simp [readChar?, hne]
    · simp [readChar?, Hex.read_digits]

theorem selfDelimiting_encodeChar : SelfDelimiting encodeChar := .of_read readChar?_encodeChar

/-- No spelling of a character begins with the quote that ends the text. -/
theorem neverBegins_encodeChar : NeverBegins '"' encodeChar := by
  intro c
  by_cases h : c ∈ lettered
  · simp only [lettered, List.mem_cons, List.not_mem_nil, or_false] at h
    rcases h with rfl | rfl | rfl | rfl | rfl | rfl <;> exact ⟨'\\', _, rfl, by decide⟩
  · rw [encodeChar_of_notMem h]
    split
    · refine ⟨c, [], rfl, ?_⟩
      rintro rfl
      exact h (by decide)
    · exact ⟨'\\', _, rfl, by decide⟩

/-- A quoted text ends at its closing quote and at no other one, whatever text it is. -/
theorem selfDelimiting_encode : SelfDelimiting encode :=
  (selfDelimiting_encodeChar.flatMap_stop neverBegins_encodeChar).behind ['"']

/-- A quoted text begins with its quote. -/
theorem neverBegins_encode {stop : Char} (h : stop ≠ '"') : NeverBegins stop encode :=
  fun s => ⟨'"', s.flatMap encodeChar ++ ['"'], rfl, h.symm⟩

end Quoted

end LcmWire
