import Mathlib.Data.List.Basic

/-!
Text in lines and fields.

A table of numbers is written with one tab between the fields of a row and a line feed
after it. A reader decodes the bytes, splits the text at line boundaries and the lines
at tabs, and reads each field as an integer; it knows more line boundaries and more
spellings of an integer than the writer uses.

`splitlines_rows`, `splitOn_fields` and `readInt_toDigits` undo the writer step by step.
-/

namespace Text

/-! ### Bytes -/

/-- The bytes of a text. -/
def encodeUtf8 (text : List Char) : List UInt8 := text.flatMap String.utf8EncodeChar

/-- The text of bytes, if they are ASCII. -/
def decodeAscii (bytes : List UInt8) : Option (List Char) :=
  if bytes.all (·.toNat < 128) then some (bytes.map fun b => Char.ofNat b.toNat) else none

/-- A byte that continues a character. -/
def isContinuation (b : UInt8) : Bool := 0x80 ≤ b ∧ b ≤ 0xBF

/-- Two bytes that start a character of three. -/
def startsThree (a b : UInt8) : Bool :=
  if a = 0xE0 then 0xA0 ≤ b ∧ b ≤ 0xBF
  else if a = 0xED then 0x80 ≤ b ∧ b ≤ 0x9F
  else 0xE1 ≤ a ∧ a ≤ 0xEF ∧ isContinuation b

/-- Two bytes that start a character of four. -/
def startsFour (a b : UInt8) : Bool :=
  if a = 0xF0 then 0x90 ≤ b ∧ b ≤ 0xBF
  else if a = 0xF4 then 0x80 ≤ b ∧ b ≤ 0x8F
  else 0xF1 ≤ a ∧ a ≤ 0xF3 ∧ isContinuation b

/-- The character of a leading byte without its marks, and of the six bits of each byte that
continues it. -/
def charOfBits (lead : Nat) (rest : List UInt8) : Char :=
  Char.ofNat (rest.foldl (fun bits b => bits * 64 + (b.toNat - 0x80)) lead)

/-- The character at the front of bytes that are not empty, with its length. If there is
none, the length is that of the front that no character can have, or that one was cut in. -/
def firstChar (a : UInt8) (rest : List UInt8) : Option Char × Nat :=
  let b := rest.getD 0 0
  let c := rest.getD 1 0
  let d := rest.getD 2 0
  if a < 0x80 then (some (Char.ofNat a.toNat), 1)
  else if 0xC2 ≤ a ∧ a ≤ 0xDF then
    if isContinuation b then (some (charOfBits (a.toNat - 0xC0) [b]), 2) else (none, 1)
  else if startsThree a b then
    if isContinuation c then (some (charOfBits (a.toNat - 0xE0) [b, c]), 3) else (none, 2)
  else if startsFour a b then
    if !isContinuation c then (none, 2)
    else if isContinuation d then (some (charOfBits (a.toNat - 0xF0) [b, c, d]), 4)
    else (none, 3)
  else (none, 1)

/-- The characters of bytes, and `none` for what is none, from at most `fuel` fronts. -/
def utf8PartsFrom : Nat → List UInt8 → List (Option Char)
  | fuel + 1, a :: rest =>
      (firstChar a rest).1 :: utf8PartsFrom fuel (rest.drop ((firstChar a rest).2 - 1))
  | _, _ => []

/-- The characters of bytes, and `none` for what is none. -/
def utf8Parts (bytes : List UInt8) : List (Option Char) := utf8PartsFrom bytes.length bytes

/-- The text of bytes, with U+FFFD for what is no character. -/
def decodeUtf8Lossy (bytes : List UInt8) : List Char :=
  (utf8Parts bytes).map (·.getD '\uFFFD')

/-- A text of ASCII characters. -/
def Ascii (text : List Char) : Prop := ∀ c ∈ text, c.toNat < 128

theorem utf8EncodeChar_ascii {c : Char} (small : c.toNat < 128) :
    String.utf8EncodeChar c = [UInt8.ofNat c.toNat] :=
  String.utf8EncodeChar_eq_singleton (Char.utf8Size_eq_one_iff.mpr (by
    have le : c.toNat ≤ 127 := by omega
    exact le))

theorem encodeUtf8_ascii {text : List Char} (ascii : Ascii text) :
    encodeUtf8 text = text.map fun c => UInt8.ofNat c.toNat := by
  induction text with
  | nil => rfl
  | cons c text ih =>
      have tail := ih fun d mem => ascii d (List.mem_cons_of_mem c mem)
      simp only [encodeUtf8, List.flatMap_cons, List.map_cons] at tail ⊢
      rw [tail, utf8EncodeChar_ascii (ascii c List.mem_cons_self)]
      rfl

theorem toNat_ofNat_ascii {c : Char} (small : c.toNat < 128) :
    (UInt8.ofNat c.toNat).toNat = c.toNat := by
  rw [UInt8.toNat_ofNat']
  omega

/-- ASCII text survives encoding and decoding. -/
theorem decodeAscii_encodeUtf8 {text : List Char} (ascii : Ascii text) :
    decodeAscii (encodeUtf8 text) = some text := by
  rw [encodeUtf8_ascii ascii, decodeAscii, if_pos]
  · rw [List.map_map]
    congr 1
    conv_rhs => rw [← List.map_id text]
    apply List.map_congr_left
    intro c mem
    simp only [Function.comp_apply, toNat_ofNat_ascii (ascii c mem), id_eq]
    exact Char.ofNat_toNat c
  · apply List.all_eq_true.mpr
    intro b mem
    obtain ⟨c, memC, rfl⟩ := List.mem_map.mp mem
    rw [toNat_ofNat_ascii (ascii c memC)]
    exact decide_eq_true (ascii c memC)

/-! ### Lines -/

/-- The characters that end a line by themselves, of those in ASCII. -/
def isLineBreak (c : Char) : Bool :=
  c ∈ ['\n', '\r', '\x0b', '\x0c', '\x1c', '\x1d', '\x1e']

/-- The lines of a text after `line`; a last line that is empty does not count. -/
def splitlinesFrom (line : List Char) : List Char → List (List Char)
  | [] => if line = [] then [] else [line]
  | '\r' :: '\n' :: rest => line :: splitlinesFrom [] rest
  | c :: rest =>
      if isLineBreak c then line :: splitlinesFrom [] rest else splitlinesFrom (line ++ [c]) rest

/-- The lines of a text, without their line breaks. -/
def splitlines (text : List Char) : List (List Char) := splitlinesFrom [] text

theorem splitlinesFrom_lineFeed (line rest : List Char) :
    splitlinesFrom line ('\n' :: rest) = line :: splitlinesFrom [] rest := by
  rw [splitlinesFrom]
  · rfl
  · intro _ eq
    cases eq

theorem splitlinesFrom_char {c : Char} (plain : isLineBreak c = false)
    (line rest : List Char) : splitlinesFrom line (c :: rest) = splitlinesFrom (line ++ [c]) rest := by
  rw [splitlinesFrom]
  · rw [plain]
    rfl
  · rintro _ rfl
    cases plain

/-- A line that is ended by a line feed is read back. -/
theorem splitlinesFrom_line {line : List Char} (plain : ∀ c ∈ line, isLineBreak c = false)
    (before rest : List Char) :
    splitlinesFrom before (line ++ '\n' :: rest) = (before ++ line) :: splitlinesFrom [] rest := by
  induction line generalizing before with
  | nil => rw [List.nil_append, splitlinesFrom_lineFeed, List.append_nil]
  | cons c line ih =>
      rw [List.cons_append, splitlinesFrom_char (plain c List.mem_cons_self),
        ih fun d mem => plain d (List.mem_cons_of_mem c mem), List.append_assoc]
      rfl

/-- Lines that are ended by line feeds are read back. -/
theorem splitlines_rows {lines : List (List Char)}
    (plain : ∀ line ∈ lines, ∀ c ∈ line, isLineBreak c = false) :
    splitlines (lines.flatMap fun line => line ++ ['\n']) = lines := by
  induction lines with
  | nil => rfl
  | cons line lines ih =>
      have tail := ih fun l mem => plain l (List.mem_cons_of_mem line mem)
      rw [splitlines, List.flatMap_cons, List.append_assoc, List.singleton_append,
        splitlinesFrom_line (plain line List.mem_cons_self)]
      exact congrArg _ tail

/-! ### Decimal numbers -/

/-- The number that a text of decimal digits is. -/
def digitsValue (text : List Char) : Option Nat :=
  if text ≠ [] ∧ text.all Char.isDigit then some (Nat.ofDigitChars 10 text 0) else none

theorem digitsValue_toDigits (n : Nat) : digitsValue (Nat.toDigits 10 n) = some n := by
  have digits : (Nat.toDigits 10 n).all Char.isDigit = true := by
    apply List.all_eq_true.mpr
    intro c mem
    exact Nat.isDigit_of_mem_toDigits (by decide) (by decide) mem
  rw [digitsValue, if_pos ⟨Nat.toDigits_ne_nil, digits⟩, Nat.ofDigitChars_ten_toDigits]

theorem digitsValue_eq_some_iff {text : List Char} {n : Nat} :
    digitsValue text = some n ↔
      text ≠ [] ∧ (∀ c ∈ text, c.isDigit) ∧ Nat.ofDigitChars 10 text 0 = n := by
  unfold digitsValue
  split
  · rename_i digits
    rw [Option.some.injEq]
    exact ⟨fun eq => ⟨digits.1, List.all_eq_true.mp digits.2, eq⟩, fun holds => holds.2.2⟩
  · rename_i other
    constructor
    · intro eq
      cases eq
    · intro holds
      exact (other ⟨holds.1, List.all_eq_true.mpr holds.2.1⟩).elim

/-- The unsigned number up to `max` that a text is: digits, with or without a plus. -/
def readUnsigned (max : Nat) (text : List Char) : Option Nat :=
  let digits := match text with
    | '+' :: digits => digits
    | digits => digits
  (digitsValue digits).filter (· ≤ max)

theorem readUnsigned_le {max n : Nat} {text : List Char} (eq : readUnsigned max text = some n) :
    n ≤ max := by
  simpa using (Option.filter_eq_some_iff.mp eq).2

/-- Of a text of digits, the number is what the digits say. -/
theorem readUnsigned_digits {max : Nat} {text : List Char} (digits : ∀ c ∈ text, c.isDigit) :
    readUnsigned max text = (digitsValue text).filter (· ≤ max) := by
  rw [readUnsigned]
  rintro rest rfl
  cases digits '+' List.mem_cons_self

/-- A number that is not too large is read back from its digits. -/
theorem readUnsigned_toDigits {max n : Nat} (le : n ≤ max) :
    readUnsigned max (Nat.toDigits 10 n) = some n := by
  rw [readUnsigned_digits fun c mem => Nat.isDigit_of_mem_toDigits (by decide) (by decide) mem,
    digitsValue_toDigits, Option.filter_some, if_pos (decide_eq_true le)]

/-- The digits of a text in which underscores may stand between two of them. -/
def digitPart (afterDigit : Bool) : List Char → Option (List Char)
  | [] => if afterDigit then some [] else none
  | c :: rest =>
      if c.isDigit then (digitPart true rest).map (c :: ·)
      else if c = '_' ∧ afterDigit then digitPart false rest
      else none

/-- The characters that may stand around an integer. -/
def isSpace (c : Char) : Bool := c ∈ [' ', '\t', '\n', '\x0b', '\x0c', '\r']

/-- A text without the spaces around it. -/
def strip (text : List Char) : List Char :=
  ((text.dropWhile isSpace).reverse.dropWhile isSpace).reverse

/-- The integer that a text is: spaces around it, a sign, digits with underscores between
them, and no more than `limit` digits. -/
def readInt (limit : Nat) (text : List Char) : Option Int :=
  let (negative, digits) := match strip text with
    | '-' :: digits => (true, digits)
    | '+' :: digits => (false, digits)
    | digits => (false, digits)
  (digitPart false digits).bind fun digits =>
    if digits.length ≤ limit then
      let value : Int := Nat.ofDigitChars 10 digits 0
      some (if negative then -value else value)
    else none

theorem digitPart_digits {text : List Char} (digits : ∀ c ∈ text, c.isDigit)
    {afterDigit : Bool} (some : text ≠ [] ∨ afterDigit = true) :
    digitPart afterDigit text = .some text := by
  induction text generalizing afterDigit with
  | nil =>
      rcases some with ne | rfl
      · exact absurd rfl ne
      · rfl
  | cons c text ih =>
      rw [digitPart, if_pos (digits c List.mem_cons_self),
        ih (fun d mem => digits d (List.mem_cons_of_mem c mem)) (.inr rfl)]
      rfl

theorem isSpace_digit {c : Char} (digit : c.isDigit) : isSpace c = false := by
  by_contra space
  rw [Bool.not_eq_false, isSpace, decide_eq_true_iff] at space
  simp only [List.mem_cons, List.not_mem_nil, or_false] at space
  rcases space with rfl | rfl | rfl | rfl | rfl | rfl <;> cases digit

theorem isLineBreak_digit {c : Char} (digit : c.isDigit) : isLineBreak c = false := by
  by_contra lineBreak
  rw [Bool.not_eq_false, isLineBreak, decide_eq_true_iff] at lineBreak
  simp only [List.mem_cons, List.not_mem_nil, or_false] at lineBreak
  rcases lineBreak with rfl | rfl | rfl | rfl | rfl | rfl | rfl <;> cases digit

theorem dropWhile_isSpace_digits {text : List Char} (digits : ∀ c ∈ text, c.isDigit) :
    text.dropWhile isSpace = text := by
  cases text with
  | nil => rfl
  | cons c text =>
      rw [List.dropWhile_cons_of_neg]
      rw [isSpace_digit (digits c List.mem_cons_self)]
      exact Bool.false_ne_true

theorem strip_digits {text : List Char} (digits : ∀ c ∈ text, c.isDigit) : strip text = text := by
  have backwards : ∀ c ∈ text.reverse, c.isDigit := fun c mem =>
    digits c (List.mem_reverse.mp mem)
  rw [strip, dropWhile_isSpace_digits digits, dropWhile_isSpace_digits backwards,
    List.reverse_reverse]

/-- Digits, as they are written, are read back. -/
theorem readInt_digits {text : List Char} {limit : Nat} (ne : text ≠ [])
    (digits : ∀ c ∈ text, c.isDigit) (short : text.length ≤ limit) :
    readInt limit text = some ((Nat.ofDigitChars 10 text 0 : Nat) : Int) := by
  have head : ∀ c rest, text = c :: rest → c ≠ '-' ∧ c ≠ '+' := by
    intro c rest eq
    have digit := digits c (eq ▸ List.mem_cons_self)
    constructor
    · rintro rfl
      cases digit
    · rintro rfl
      cases digit
  rw [readInt, strip_digits digits]
  cases text with
  | nil => exact absurd rfl ne
  | cons c rest =>
      obtain ⟨notMinus, notPlus⟩ := head c rest rfl
      split
      · rename_i eq
        split at eq
        · rename_i same
          cases same
          exact absurd rfl notMinus
        · rename_i same
          cases same
          exact absurd rfl notPlus
        · cases eq
          rw [digitPart_digits digits (.inl ne), Option.bind_some, if_pos short]
          rfl

/-- A number is read back from its digits. -/
theorem readInt_toDigits {n limit : Nat} (short : (Nat.toDigits 10 n).length ≤ limit) :
    readInt limit (Nat.toDigits 10 n) = some (n : Int) := by
  rw [readInt_digits Nat.toDigits_ne_nil (fun c mem =>
    Nat.isDigit_of_mem_toDigits (by decide) (by decide) mem) short, Nat.ofDigitChars_ten_toDigits]

/-! ### Rows of numbers -/

/-- The text of a row: its numbers in decimal, with tabs between them. -/
def rowText (row : List Nat) : List Char := ['\t'].intercalate (row.map (Nat.toDigits 10))

/-- The text of a table: every row on a line of its own. -/
def tableText (rows : List (List Nat)) : List Char := rows.flatMap fun row => rowText row ++ ['\n']

theorem mem_rowText {row : List Nat} {c : Char} (mem : c ∈ rowText row) :
    c.isDigit ∨ c = '\t' := by
  induction row with
  | nil => cases mem
  | cons n row ih =>
      have digit : c ∈ Nat.toDigits 10 n → c.isDigit = true ∨ c = '\t' := fun mem =>
        .inl (Nat.isDigit_of_mem_toDigits (by decide) (by decide) mem)
      cases row with
      | nil =>
          rw [rowText, List.map_singleton, List.intercalate_singleton] at mem
          exact digit mem
      | cons m row =>
          rw [rowText, List.map_cons, List.map_cons, List.intercalate_cons_cons] at mem
          rcases List.mem_append.mp mem with front | mem
          · rcases List.mem_append.mp front with mem | mem
            · exact digit mem
            · exact .inr (List.mem_singleton.mp mem)
          · exact ih mem

theorem isLineBreak_rowText {row : List Nat} {c : Char} (mem : c ∈ rowText row) :
    isLineBreak c = false := by
  rcases mem_rowText mem with digit | rfl
  · exact isLineBreak_digit digit
  · rfl

theorem isDigit_ascii {c : Char} (digit : c.isDigit) : c.toNat < 128 := by
  have le : c.toNat ≤ 57 := (Char.isDigit_iff_toNat.mp digit).2
  omega

theorem ascii_tableText (rows : List (List Nat)) : Ascii (tableText rows) := by
  intro c mem
  obtain ⟨row, _, mem⟩ := List.mem_flatMap.mp mem
  rcases List.mem_append.mp mem with mem | mem
  · rcases mem_rowText mem with digit | rfl
    · exact isDigit_ascii digit
    · decide
  · rw [List.mem_singleton.mp mem]
    decide

/-- The lines of a table are its rows. -/
theorem splitlines_tableText (rows : List (List Nat)) :
    splitlines (tableText rows) = rows.map rowText := by
  have plain : ∀ line ∈ rows.map rowText, ∀ c ∈ line, isLineBreak c = false := by
    intro line mem c memC
    obtain ⟨row, _, rfl⟩ := List.mem_map.mp mem
    exact isLineBreak_rowText memC
  have lines := splitlines_rows plain
  rwa [List.flatMap_map] at lines

/-- The fields of a row are its numbers in decimal. -/
theorem splitOn_rowText {row : List Nat} (ne : row ≠ []) :
    (rowText row).splitOn '\t' = row.map (Nat.toDigits 10) := by
  apply List.splitOn_intercalate
  · intro field mem tab
    obtain ⟨n, _, rfl⟩ := List.mem_map.mp mem
    have digit := Nat.isDigit_of_mem_toDigits (by decide) (by decide) tab
    cases digit
  · simpa using ne

end Text
