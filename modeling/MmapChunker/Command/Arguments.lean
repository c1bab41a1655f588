import MmapChunker.Ranges.Workers
import MmapChunker.Theory.Options
import MmapChunker.Theory.Text

/-!
The command line (`src/bin/mmap-chunker.rs`).

`run_partition` and `run_partition_files` read their options with one loop each; the loops
differ in the option `--worker` and in how many files they take. Here the loop is
`Options.scan`, and the options are listed in the order the source tries them.

`command_lines` says what the two commands accept, and `delimiter_options` what a delimiter
may look like.
-/

namespace Command

open Machine Text Options Mmap Source
open Ranges (SourceMode)

/-! ### Source -/

/-- `value.to_string_lossy().starts_with('-')`. -/
def startsWithDash (value : OsString) : Bool := value.lossy.toList.head? = some '-'

/-- The text between quotes in a message. -/
def quoted (value : OsString) : String := "`" ++ value.lossy ++ "`"

/-- `parse_parts`. -/
def parseParts (value : OsString) : Except String Nat :=
  match value.toStr with
  | none => .error "`--parts` must be a positive integer"
  | some text =>
      match readUnsigned usizeMax text.toList with
      | none => .error ("invalid value for `--parts`: " ++ quoted value)
      | some parsed =>
          if parsed = 0 then .error "`--parts` must be greater than zero" else .ok parsed

/-- `parse_worker`. -/
def parseWorker (value : OsString) : Except String Nat :=
  match value.toStr with
  | none => .error "`--worker` must be a non-negative integer"
  | some text =>
      match readUnsigned usizeMax text.toList with
      | none => .error ("invalid value for `--worker`: " ++ quoted value)
      | some parsed => .ok parsed

/-- `parse_source`. -/
def parseSource (value : OsString) : Except String SourceMode :=
  match value.toStr with
  | some "mmap" => .ok .mmap
  | some "windowed" => .ok .windowed
  | some "pread" => .ok .pread
  | _ => .error ("invalid value for `--source`: " ++ quoted value ++
      " (expected mmap, windowed, or pread)")

/-- A window as `parse_window` accepts it. -/
abbrev WindowBytes := { bytes : Nat // viewAlignment ≤ bytes ∧ bytes ≤ usizeMax }

/-- `parse_window`. -/
def parseWindow (value : OsString) : Except String WindowBytes :=
  match value.toStr with
  | none => .error "`--window` must be a positive integer"
  | some text =>
      match read : readUnsigned usizeMax text.toList with
      | none => .error ("invalid value for `--window`: " ++ quoted value)
      | some parsed =>
          if small : parsed < viewAlignment then
            .error ("`--window` must be at least " ++ toString viewAlignment ++ " bytes")
          else .ok ⟨parsed, Nat.not_lt.mp small, readUnsigned_le read⟩

/-- `parse_delimiter_byte`. A character outside ASCII has no byte that is a digit. -/
def parseDelimiterByte (value : OsString) : Except String UInt8 :=
  let invalid := "invalid value for `--delimiter-byte`: " ++ quoted value ++
    " (expected decimal byte 0..255)"
  match value.toStr with
  | none => .error "`--delimiter-byte` must be a decimal byte in the range 0..255"
  | some text =>
      if text.toList = [] ∨ ¬text.toList.all Char.isDigit then .error invalid
      else
        match readUnsigned 65535 text.toList with
        | none => .error invalid
        | some parsed => if parsed < 256 then .ok (UInt8.ofNat parsed) else .error invalid

/-- The value of a hexadecimal digit. -/
def hexDigit (c : Char) : Option Nat :=
  if '0' ≤ c ∧ c ≤ '9' then some (c.toNat - '0'.toNat)
  else if 'a' ≤ c ∧ c ≤ 'f' then some (c.toNat - 'a'.toNat + 10)
  else if 'A' ≤ c ∧ c ≤ 'F' then some (c.toNat - 'A'.toNat + 10)
  else none

/-- `byte.is_ascii_hexdigit()`. -/
def isHexDigit (c : Char) : Bool := (hexDigit c).isSome

/-- `decode_hex_pair`, of a validated pair. -/
def decodeHexPair (high low : Char) (highOk : isHexDigit high) (lowOk : isHexDigit low) : UInt8 :=
  UInt8.ofNat (16 * (hexDigit high).get highOk + (hexDigit low).get lowOk)

/-- `text.as_bytes().chunks_exact(2).map(decode_hex_pair)`, of a validated text. -/
def decodePairs : (text : List Char) → (∀ c ∈ text, isHexDigit c) → List UInt8
  | high :: low :: rest, valid =>
      decodeHexPair high low (valid high (by simp)) (valid low (by simp)) ::
        decodePairs rest fun c mem => valid c (by simp [mem])
  | _, _ => []

/-- `parse_delimiter_hex`. A text of hexadecimal digits has as many bytes as characters. -/
def parseDelimiterHex (value : OsString) : Except String (List UInt8) :=
  let invalid := "invalid value for `--delimiter-hex`: " ++ quoted value ++
    " (expected an even-length hex string, e.g. 0d0a)"
  match value.toStr with
  | none => .error invalid
  | some text =>
      if valid : text.toList ≠ [] ∧ text.toList.length % 2 = 0 ∧ text.toList.all isHexDigit
      then .ok (decodePairs text.toList (List.all_eq_true.mp valid.2.2))
      else .error invalid

/-- What the loops of `run_partition` and `run_partition_files` keep. -/
structure Arguments where
  files : List Path
  parts : Option Nat
  delimiter : List UInt8
  delimiterSeen : Bool
  worker : Option Nat
  source : SourceMode
  sourceSeen : Bool
  window : Option WindowBytes
  deriving DecidableEq

/-- Where the loops start. -/
def Arguments.initial : Arguments := ⟨[], none, [0x0A], false, none, .mmap, false, none⟩

/-- An option of the command line. -/
abbrev CommandOption := Spec OsString Arguments String

/-- The text for an option that is given twice. -/
def duplicateOption (name : String) : String := "duplicate option `" ++ name ++ "`"

/-- The text for a second delimiter, however the two are given. -/
def duplicateDelimiter : String :=
  "duplicate delimiter option (`--delimiter-byte` / `--delimiter-hex`)"

/-- The text for an option at the end of the command line. -/
def missingValue (name : String) : String := "missing value for `" ++ name ++ "`"

/-- `--parts`. -/
def partsOption : CommandOption where
  name := .ofText "--parts"
  seen c := c.parts.isSome
  duplicate := duplicateOption "--parts"
  missing := missingValue "--parts"
  apply value c := (parseParts value).map fun parts => { c with parts := some parts }

/-- The accumulator with a delimiter. -/
def Arguments.withDelimiter (c : Arguments) (delimiter : List UInt8) : Arguments :=
  { c with delimiter, delimiterSeen := true }

/-- `--delimiter-byte`. -/
def delimiterByteOption : CommandOption where
  name := .ofText "--delimiter-byte"
  seen c := c.delimiterSeen
  duplicate := duplicateDelimiter
  missing := missingValue "--delimiter-byte"
  apply value c := ((parseDelimiterByte value).map fun byte => [byte]).map c.withDelimiter

/-- `--delimiter-hex`. -/
def delimiterHexOption : CommandOption where
  name := .ofText "--delimiter-hex"
  seen c := c.delimiterSeen
  duplicate := duplicateDelimiter
  missing := missingValue "--delimiter-hex"
  apply value c := (parseDelimiterHex value).map c.withDelimiter

/-- `--worker`. -/
def workerOption : CommandOption where
  name := .ofText "--worker"
  seen c := c.worker.isSome
  duplicate := duplicateOption "--worker"
  missing := missingValue "--worker"
  apply value c := (parseWorker value).map fun worker => { c with worker := some worker }

/-- `--source`. -/
def sourceOption : CommandOption where
  name := .ofText "--source"
  seen c := c.sourceSeen
  duplicate := duplicateOption "--source"
  missing := missingValue "--source"
  apply value c := (parseSource value).map fun source => { c with source, sourceSeen := true }

/-- `--window`. -/
def windowOption : CommandOption where
  name := .ofText "--window"
  seen c := c.window.isSome
  duplicate := duplicateOption "--window"
  missing := missingValue "--window"
  apply value c := (parseWindow value).map fun window => { c with window := some window }

/-- The options of `run_partition`. -/
def partitionOptions : List CommandOption :=
  [partsOption, delimiterByteOption, delimiterHexOption, workerOption, sourceOption, windowOption]

/-- The options of `run_partition_files`. -/
def partitionFilesOptions : List CommandOption :=
  [partsOption, delimiterByteOption, delimiterHexOption, sourceOption, windowOption]

/-- An argument of `run_partition` that is no option. -/
def partitionArgument (argument : OsString) (c : Arguments) : Except String Arguments :=
  if startsWithDash argument then .error ("unexpected option " ++ quoted argument)
  else if c.files ≠ [] then .error ("unexpected argument " ++ quoted argument)
  else .ok { c with files := [argument] }

/-- An argument of `run_partition_files` that is no option. -/
def partitionFilesArgument (argument : OsString) (c : Arguments) : Except String Arguments :=
  if startsWithDash argument then .error ("unexpected option " ++ quoted argument)
  else .ok { c with files := c.files ++ [argument] }

/-- The loop of `run_partition`. -/
def scanPartition (arguments : List OsString) : Except String Arguments :=
  scan partitionOptions partitionArgument arguments .initial

/-- The loop of `run_partition_files`. -/
def scanPartitionFiles (arguments : List OsString) : Except String Arguments :=
  scan partitionFilesOptions partitionFilesArgument arguments .initial

/-! ### Delimiters -/

/-- The hexadecimal text of bytes, in lower case. -/
def hexText (bytes : List UInt8) : List Char :=
  bytes.flatMap fun byte => [Nat.digitChar (byte.toNat / 16), Nat.digitChar (byte.toNat % 16)]

section Delimiters

/-- Of the characters of ASCII, the digits in either case have a value. -/
theorem hexDigit_ascii : ∀ n < 128, ∀ d < 16,
    hexDigit (Char.ofNat n) = some d ↔ (Char.ofNat n).toLower = Nat.digitChar d := by
  decide +kernel

theorem hexDigit_bounds : ∀ n < 128, ∀ d ∈ hexDigit (Char.ofNat n), d < 16 := by
  decide +kernel

theorem not_le_of_beyond {c d : Char} (beyond : 128 ≤ c.toNat) (small : d.toNat < 128) :
    ¬c ≤ d := by
  intro le
  have := UInt32.le_iff_toNat_le.mp (Char.le_def.mp le)
  simp only [Char.toNat_val] at this
  omega

theorem hexDigit_beyond {c : Char} (beyond : 128 ≤ c.toNat) : hexDigit c = none := by
  rw [hexDigit, if_neg, if_neg, if_neg]
  · exact fun range => not_le_of_beyond beyond (by decide) range.2
  · exact fun range => not_le_of_beyond beyond (by decide) range.2
  · exact fun range => not_le_of_beyond beyond (by decide) range.2

theorem toLower_beyond {c : Char} (beyond : 128 ≤ c.toNat) : c.toLower = c := by
  apply dif_neg
  intro range
  exact not_le_of_beyond beyond (d := 'Z') (by decide) range.2

/-- The characters with a value are those that are a hexadecimal digit in lower case. -/
theorem hexDigit_eq_some_iff {c : Char} {d : Nat} :
    hexDigit c = some d ↔ d < 16 ∧ c.toLower = Nat.digitChar d := by
  by_cases small : c.toNat < 128
  · have table := hexDigit_ascii c.toNat small
    have bounds := hexDigit_bounds c.toNat small
    rw [Char.ofNat_toNat] at table bounds
    constructor
    · intro eq
      have lt := bounds d eq
      exact ⟨lt, (table d lt).mp eq⟩
    · rintro ⟨lt, eq⟩
      exact (table d lt).mpr eq
  · have beyond := Nat.not_lt.mp small
    rw [hexDigit_beyond beyond, toLower_beyond beyond]
    constructor
    · intro eq
      cases eq
    · rintro ⟨lt, rfl⟩
      have ascii : ∀ d < 16, (Nat.digitChar d).toNat < 128 := by decide
      exact absurd (ascii d lt) small

theorem toLower_of_isHexDigit {c : Char} (valid : isHexDigit c) :
    (hexDigit c).get valid < 16 ∧ c.toLower = Nat.digitChar ((hexDigit c).get valid) :=
  hexDigit_eq_some_iff.mp (Option.some_get valid).symm

theorem toNat_decodeHexPair {high low : Char} (highOk : isHexDigit high) (lowOk : isHexDigit low) :
    (decodeHexPair high low highOk lowOk).toNat =
      16 * (hexDigit high).get highOk + (hexDigit low).get lowOk := by
  have := (toLower_of_isHexDigit highOk).1
  have := (toLower_of_isHexDigit lowOk).1
  rw [decodeHexPair, UInt8.toNat_ofNat']
  omega

theorem hexText_cons (byte : UInt8) (bytes : List UInt8) :
    hexText (byte :: bytes) = Nat.digitChar (byte.toNat / 16) ::
      Nat.digitChar (byte.toNat % 16) :: hexText bytes := rfl

/-- In lower case, a text of pairs of digits is the text of the bytes it stands for. -/
theorem map_toLower_decodePairs (text : List Char) (valid : ∀ c ∈ text, isHexDigit c)
    (even : text.length % 2 = 0) : text.map Char.toLower = hexText (decodePairs text valid) := by
  induction text, valid using decodePairs.induct with
  | case1 high low rest valid ih =>
      have tail := ih (by simp at even; omega)
      have highOk := valid high (by simp)
      have lowOk := valid low (by simp)
      have highLower := toLower_of_isHexDigit highOk
      have lowLower := toLower_of_isHexDigit lowOk
      have byte := toNat_decodeHexPair highOk lowOk
      rw [List.map_cons, List.map_cons, tail, decodePairs, hexText_cons, byte,
        highLower.2, lowLower.2, Nat.mul_add_div (by decide), Nat.mul_add_mod,
        Nat.div_eq_of_lt lowLower.1, Nat.mod_eq_of_lt lowLower.1]
      rfl
  | case2 text valid short =>
      match text with
      | [] => rfl
      | [c] => simp at even
      | high :: low :: rest => exact (short high low rest valid rfl HEq.rfl).elim

theorem digitChar_inj : ∀ d < 16, ∀ d' < 16, Nat.digitChar d = Nat.digitChar d' → d = d' := by
  decide

theorem hexText_inj {bytes bytes' : List UInt8} (eq : hexText bytes = hexText bytes') :
    bytes = bytes' := by
  induction bytes generalizing bytes' with
  | nil =>
      cases bytes' with
      | nil => rfl
      | cons byte bytes' => cases eq
  | cons byte bytes ih =>
      cases bytes' with
      | nil => cases eq
      | cons byte' bytes' =>
          rw [hexText_cons, hexText_cons, List.cons.injEq, List.cons.injEq] at eq
          obtain ⟨high, low, rest⟩ := eq
          have bound := byte.toNat_lt
          have bound' := byte'.toNat_lt
          have high := digitChar_inj _ (by omega) _ (by omega) high
          have low := digitChar_inj _ (by omega) _ (by omega) low
          rw [ih rest, UInt8.toNat_inj.mp (by omega : byte.toNat = byte'.toNat)]

/-- Only digits, and an even number of them, are the text of bytes in lower case. -/
theorem valid_of_map_toLower {text : List Char} {bytes : List UInt8}
    (eq : text.map Char.toLower = hexText bytes) :
    text.length = 2 * bytes.length ∧ ∀ c ∈ text, isHexDigit c := by
  induction bytes generalizing text with
  | nil =>
      rw [List.map_eq_nil_iff.mp eq]
      simp
  | cons byte bytes ih =>
      rw [hexText_cons] at eq
      match text with
      | [] => cases eq
      | [high] => simp at eq
      | high :: low :: rest =>
          simp only [List.map_cons, List.cons.injEq] at eq
          obtain ⟨highEq, lowEq, restEq⟩ := eq
          obtain ⟨length, valid⟩ := ih restEq
          have bound := byte.toNat_lt
          have highOk : hexDigit high = some (byte.toNat / 16) :=
            hexDigit_eq_some_iff.mpr ⟨by omega, highEq⟩
          have lowOk : hexDigit low = some (byte.toNat % 16) :=
            hexDigit_eq_some_iff.mpr ⟨by omega, lowEq⟩
          refine ⟨by simp only [List.length_cons]; omega, ?_⟩
          rintro c (_ | ⟨_, _ | ⟨_, mem⟩⟩)
          · exact Option.isSome_iff_exists.mpr ⟨_, highOk⟩
          · exact Option.isSome_iff_exists.mpr ⟨_, lowOk⟩
          · exact valid c mem

/-- A hexadecimal delimiter is accepted if it is the text of bytes, in whatever case, and
stands for them. -/
theorem parseDelimiterHex_eq_ok_iff {value : OsString} {bytes : List UInt8} :
    parseDelimiterHex value = .ok bytes ↔
      value.unicode ∧ bytes ≠ [] ∧ value.lossy.toList.map Char.toLower = hexText bytes := by
  unfold parseDelimiterHex
  cases value with
  | ofBytes bytes invalid => simp [OsString.toStr, OsString.unicode]
  | ofText text =>
      simp only [OsString.toStr, OsString.unicode, OsString.lossy, true_and]
      split
      · rename_i valid
        obtain ⟨ne, even, digits⟩ := valid
        have decoded := map_toLower_decodePairs text.toList (List.all_eq_true.mp digits) even
        rw [Except.ok.injEq, decoded]
        constructor
        · rintro rfl
          refine ⟨?_, rfl⟩
          intro empty
          rw [empty] at decoded
          exact ne (List.map_eq_nil_iff.mp decoded)
        · intro eq
          exact hexText_inj eq.2
      · rename_i invalid
        constructor
        · intro eq
          cases eq
        · rintro ⟨ne, eq⟩
          obtain ⟨length, digits⟩ := valid_of_map_toLower eq
          have pos := List.length_pos_iff.mpr ne
          refine (invalid ⟨?_, by omega, List.all_eq_true.mpr digits⟩).elim
          intro empty
          rw [empty] at length
          simp at length
          exact ne length

/-- A decimal delimiter is accepted if it is a number in digits that a byte can be. -/
theorem parseDelimiterByte_eq_ok_iff {value : OsString} {byte : UInt8} :
    parseDelimiterByte value = .ok byte ↔
      value.unicode ∧ digitsValue value.lossy.toList = some byte.toNat := by
  unfold parseDelimiterByte
  cases value with
  | ofBytes bytes invalid => simp [OsString.toStr, OsString.unicode]
  | ofText text =>
      simp only [OsString.toStr, OsString.unicode, OsString.lossy, true_and]
      split
      · rename_i invalid
        constructor
        · intro eq
          cases eq
        · intro eq
          obtain ⟨ne, digits, -⟩ := digitsValue_eq_some_iff.mp eq
          exact (invalid.elim ne fun other => other (List.all_eq_true.mpr digits)).elim
      · rename_i valid
        have digits : ∀ c ∈ text.toList, c.isDigit := by
          by_contra other
          exact valid (.inr fun all => other (List.all_eq_true.mp all))
        rw [readUnsigned_digits digits]
        cases read : digitsValue text.toList with
        | none => simp
        | some n =>
            have bound := byte.toNat_lt
            by_cases small : n < 256
            · rw [Option.filter_some, if_pos (by simp; omega)]
              simp only [small, if_true, Except.ok.injEq, Option.some.injEq]
              rw [← UInt8.toNat_inj, UInt8.toNat_ofNat', Nat.mod_eq_of_lt small]
            · have other : n ≠ byte.toNat := by omega
              by_cases fits : n ≤ 65535
              · rw [Option.filter_some, if_pos (by simpa using fits)]
                simp [small, other]
              · rw [Option.filter_some, if_neg (by simpa using fits)]
                simp [other]

end Delimiters

/-- **Delimiters on the command line.** `--delimiter-hex` accepts the hexadecimal texts of
nonempty byte strings, with either case of each letter, and reads those bytes;
`--delimiter-byte` accepts the decimal texts of bytes, with leading zeros or without, and
nothing else. -/
theorem delimiter_options (value : OsString) :
    (∀ bytes, parseDelimiterHex value = .ok bytes ↔
      value.unicode ∧ bytes ≠ [] ∧ value.lossy.toList.map Char.toLower = hexText bytes) ∧
    ∀ byte, parseDelimiterByte value = .ok byte ↔
      value.unicode ∧ digitsValue value.lossy.toList = some byte.toNat :=
  ⟨fun _ => parseDelimiterHex_eq_ok_iff, fun _ => parseDelimiterByte_eq_ok_iff⟩

/-! ### What is accepted -/

/-- The delimiter, if one was given. -/
def Arguments.delimiterGiven (c : Arguments) : Option (List UInt8) :=
  if c.delimiterSeen then some c.delimiter else none

/-- The source, if one was given. -/
def Arguments.sourceGiven (c : Arguments) : Option SourceMode :=
  if c.sourceSeen then some c.source else none

/-- The two spellings of a delimiter option. -/
def delimiterNames : List OsString := [.ofText "--delimiter-byte", .ofText "--delimiter-hex"]

/-- How a delimiter is read. -/
def readDelimiter (given : OsString × OsString) : Except String (List UInt8) :=
  if given.1 = .ofText "--delimiter-byte" then
    (parseDelimiterByte given.2).map fun byte => [byte]
  else parseDelimiterHex given.2

/-- What the words of a command line say: every option at most once, in any place, and the
files in order. `workerNames` are the spellings of `--worker` and `most` is the number of
files the command takes, if it is bounded. -/
structure Arranged (workerNames : List OsString) (most : Option Nat)
    (words : List (Word OsString)) (c : Arguments) : Prop where
  parts : Gives [.ofText "--parts"] (fun given => parseParts given.2) words c.parts
  delimiter : Gives delimiterNames readDelimiter words c.delimiterGiven
  worker : Gives workerNames (fun given => parseWorker given.2) words c.worker
  source : Gives [.ofText "--source"] (fun given => parseSource given.2) words c.sourceGiven
  window : Gives [.ofText "--window"] (fun given => parseWindow given.2) words c.window
  files : c.files = words.filterMap Word.positional?
  no_dash : ∀ token ∈ words.filterMap Word.positional?, startsWithDash token = false
  files_le : ∀ m ∈ most, c.files.length ≤ m
  default_delimiter : c.delimiterSeen = false → c.delimiter = [0x0A]
  default_source : c.sourceSeen = false → c.source = .mmap

section Grammar

variable {specs : List CommandOption}
  {positional : OsString → Arguments → Except String Arguments} {workerNames : List OsString}
  {most : Option Nat} {words : List (Word OsString)} {c c' : Arguments}

/-- The words determine what is kept. -/
theorem Arranged.unique (arranged : Arranged workerNames most words c)
    (arranged' : Arranged workerNames most words c') : c = c' := by
  have delimiter := arranged.delimiter.unique arranged'.delimiter
  have source := arranged.source.unique arranged'.source
  have parts := arranged.parts.unique arranged'.parts
  have worker := arranged.worker.unique arranged'.worker
  have window := arranged.window.unique arranged'.window
  have files := arranged.files.trans arranged'.files.symm
  have noDelimiter := arranged.default_delimiter
  have noDelimiter' := arranged'.default_delimiter
  have noSource := arranged.default_source
  have noSource' := arranged'.default_source
  rcases c with ⟨files, parts, delimiter, delimiterSeen, worker, source, sourceSeen, window⟩
  rcases c' with ⟨files', parts', delimiter', delimiterSeen', worker', source', sourceSeen', window'⟩
  cases delimiterSeen <;> cases delimiterSeen' <;> cases sourceSeen <;> cases sourceSeen' <;>
    simp_all [Arguments.delimiterGiven, Arguments.sourceGiven]

/-- A loop over the options `specs`: what each option fills, and which files it takes. -/
structure Loop (specs : List CommandOption)
    (positional : OsString → Arguments → Except String Arguments) (workerNames : List OsString)
    (most : Option Nat) : Prop where
  parts : Fills specs positional [.ofText "--parts"] (fun given => parseParts given.2)
    Arguments.parts
  delimiter : Fills specs positional delimiterNames readDelimiter Arguments.delimiterGiven
  worker : Fills specs positional workerNames (fun given => parseWorker given.2) Arguments.worker
  source : Fills specs positional [.ofText "--source"] (fun given => parseSource given.2)
    Arguments.sourceGiven
  window : Fills specs positional [.ofText "--window"] (fun given => parseWindow given.2)
    Arguments.window
  names : ∀ name, (named specs name).isSome → name = .ofText "--parts" ∨
    name ∈ delimiterNames ∨ name ∈ workerNames ∨ name = .ofText "--source" ∨
      name = .ofText "--window"
  files : Collects specs positional Arguments.files
  takes : ∀ token c, startsWithDash token = false → (∀ m ∈ most, c.files.length < m) →
    ∃ c', positional token c = .ok c'
  no_dash : ∀ token c c', positional token c = .ok c' → startsWithDash token = false ∧
    ∀ m ∈ most, c'.files.length ≤ m
  default_delimiter : ∀ spec ∈ specs, ∀ value c c', spec.apply value c = .ok c' →
    (c.delimiterSeen = false → c.delimiter = [0x0A]) →
      c'.delimiterSeen = false → c'.delimiter = [0x0A]
  default_source : ∀ spec ∈ specs, ∀ value c c', spec.apply value c = .ok c' →
    (c.sourceSeen = false → c.source = .mmap) → c'.sourceSeen = false → c'.source = .mmap
  positional_keeps : ∀ token c c', positional token c = .ok c' →
    c'.delimiterSeen = c.delimiterSeen ∧ c'.delimiter = c.delimiter ∧
      c'.sourceSeen = c.sourceSeen ∧ c'.source = c.source

namespace Loop

/-- What a loop leaves is what its words say. -/
theorem arranged (loop : Loop specs positional workerNames most)
    (ok : words.foldlM (Word.run specs positional) .initial = .ok c) :
    Arranged workerNames most words c where
  parts := loop.parts.values rfl ok
  delimiter := loop.delimiter.values rfl ok
  worker := loop.worker.values rfl ok
  source := loop.source.values rfl ok
  window := loop.window.values rfl ok
  files := loop.files.values ok
  no_dash token mem := by
    obtain ⟨d, d', ran⟩ := positional_of_fold ok mem
    exact (loop.no_dash token d d' ran).1
  files_le := fold_keeps (p := fun c => ∀ m ∈ most, c.files.length ≤ m)
    (fun m _ => Nat.zero_le m)
    (fun spec mem value c c' ran start => by
      rw [loop.files.keeps c c' spec mem value ran]
      exact start)
    (fun token c c' ran _ => (loop.no_dash token c c' ran).2) ok
  default_delimiter := fold_keeps (p := fun c => c.delimiterSeen = false → c.delimiter = [0x0A])
    (fun _ => rfl) loop.default_delimiter
    (fun token c c' ran start unseen => by
      obtain ⟨seen, eq, -⟩ := loop.positional_keeps token c c' ran
      rw [eq]
      exact start (seen ▸ unseen)) ok
  default_source := fold_keeps (p := fun c => c.sourceSeen = false → c.source = .mmap)
    (fun _ => rfl) loop.default_source
    (fun token c c' ran start unseen => by
      obtain ⟨-, -, seen, eq⟩ := loop.positional_keeps token c c' ran
      rw [eq]
      exact start (seen ▸ unseen)) ok

/-- Words that say something are accepted. -/
theorem fold_ok_iff (loop : Loop specs positional workerNames most)
    (fit : ∀ word ∈ words, word.Fits specs) :
    words.foldlM (Word.run specs positional) .initial = .ok c ↔
      Arranged workerNames most words c := by
  refine ⟨loop.arranged, fun arranged => ?_⟩
  obtain ⟨d, ok⟩ : ∃ d, words.foldlM (Word.run specs positional) .initial = .ok d := by
    apply exists_fold
    intro pre word post eq d before
    cases word with
    | option name value =>
        have mem : Word.option name value ∈ words := by simp [eq]
        rcases loop.names name (fit _ mem) with rfl | delimiter | worker | rfl | rfl
        · exact loop.parts.step rfl arranged.parts eq (by simp) before
        · exact loop.delimiter.step rfl arranged.delimiter eq delimiter before
        · exact loop.worker.step rfl arranged.worker eq worker before
        · exact loop.source.step rfl arranged.source eq (by simp) before
        · exact loop.window.step rfl arranged.window eq (by simp) before
    | positional token =>
        have found : words.filterMap Word.positional? =
            pre.filterMap Word.positional? ++ token :: post.filterMap Word.positional? := by
          rw [eq, List.filterMap_append]
          rfl
        refine loop.takes token d (arranged.no_dash token (by simp [found])) fun m mem => ?_
        have le := arranged.files_le m mem
        have sofar := loop.files.values before
        rw [arranged.files, found, List.length_append, List.length_cons] at le
        rw [sofar, List.length_append]
        have none : Arguments.initial.files.length = 0 := rfl
        omega
  rw [ok, (loop.arranged ok).unique arranged]

end Loop

/-- What an option does to the accumulator. -/
inductive Applied (c : Arguments) : OsString → Arguments → Prop where
  | parts (v : Nat) : Applied c (.ofText "--parts") { c with parts := some v }
  | delimiter {name : OsString} (mem : name ∈ delimiterNames) (v : List UInt8) :
      Applied c name (c.withDelimiter v)
  | worker (v : Nat) : Applied c (.ofText "--worker") { c with worker := some v }
  | source (v : SourceMode) :
      Applied c (.ofText "--source") { c with source := v, sourceSeen := true }
  | window (v : WindowBytes) : Applied c (.ofText "--window") { c with window := some v }

theorem exists_of_map_eq_ok {α β ε : Type} {x : Except ε α} {f : α → β} {b : β}
    (eq : x.map f = .ok b) : ∃ a, b = f a := by
  cases x with
  | error e => cases eq
  | ok a =>
      cases eq
      exact ⟨a, rfl⟩

theorem applied {spec : CommandOption} (mem : spec ∈ partitionOptions) {value : OsString}
    (ran : spec.apply value c = .ok c') : Applied c spec.name c' := by
  simp only [partitionOptions, List.mem_cons, List.not_mem_nil, or_false] at mem
  rcases mem with rfl | rfl | rfl | rfl | rfl | rfl
  · obtain ⟨v, rfl⟩ := exists_of_map_eq_ok ran
    exact .parts v
  · obtain ⟨v, rfl⟩ := exists_of_map_eq_ok ran
    exact .delimiter (by simp [delimiterByteOption, delimiterNames]) v
  · obtain ⟨v, rfl⟩ := exists_of_map_eq_ok ran
    exact .delimiter (by simp [delimiterHexOption, delimiterNames]) v
  · obtain ⟨v, rfl⟩ := exists_of_map_eq_ok ran
    exact .worker v
  · obtain ⟨v, rfl⟩ := exists_of_map_eq_ok ran
    exact .source v
  · obtain ⟨v, rfl⟩ := exists_of_map_eq_ok ran
    exact .window v

theorem name_of_mem {spec : CommandOption} (mem : spec ∈ partitionOptions) :
    spec.name = .ofText "--parts" ∨ spec.name ∈ delimiterNames ∨
      spec.name = .ofText "--worker" ∨ spec.name = .ofText "--source" ∨
      spec.name = .ofText "--window" := by
  simp only [partitionOptions, List.mem_cons, List.not_mem_nil, or_false] at mem
  rcases mem with rfl | rfl | rfl | rfl | rfl | rfl <;>
    simp [partsOption, delimiterByteOption, delimiterHexOption, workerOption, sourceOption,
      windowOption, delimiterNames]

namespace Applied

variable {name : OsString}

theorem keeps_parts (applied : Applied c name c') (other : name ≠ .ofText "--parts") :
    c'.parts = c.parts := by
  cases applied with
  | parts _ => exact absurd rfl other
  | delimiter _ _ | worker _ | source _ | window _ => rfl

theorem keeps_delimiter (applied : Applied c name c') (other : name ∉ delimiterNames) :
    c'.delimiter = c.delimiter ∧ c'.delimiterSeen = c.delimiterSeen := by
  cases applied with
  | delimiter mem _ => exact absurd mem other
  | parts _ | worker _ | source _ | window _ => exact ⟨rfl, rfl⟩

theorem keeps_worker (applied : Applied c name c') (other : name ≠ .ofText "--worker") :
    c'.worker = c.worker := by
  cases applied with
  | worker _ => exact absurd rfl other
  | parts _ | delimiter _ _ | source _ | window _ => rfl

theorem keeps_source (applied : Applied c name c') (other : name ≠ .ofText "--source") :
    c'.source = c.source ∧ c'.sourceSeen = c.sourceSeen := by
  cases applied with
  | source _ => exact absurd rfl other
  | parts _ | delimiter _ _ | worker _ | window _ => exact ⟨rfl, rfl⟩

theorem keeps_window (applied : Applied c name c') (other : name ≠ .ofText "--window") :
    c'.window = c.window := by
  cases applied with
  | window _ => exact absurd rfl other
  | parts _ | delimiter _ _ | worker _ | source _ => rfl

theorem keeps_files (applied : Applied c name c') : c'.files = c.files := by
  cases applied with
  | parts _ | delimiter _ _ | worker _ | source _ | window _ => rfl

/-- A delimiter or a source that was not given has its default. -/
theorem keeps_defaults (applied : Applied c name c') :
    ((c.delimiterSeen = false → c.delimiter = [0x0A]) →
      c'.delimiterSeen = false → c'.delimiter = [0x0A]) ∧
    ((c.sourceSeen = false → c.source = .mmap) → c'.sourceSeen = false → c'.source = .mmap) := by
  cases applied with
  | delimiter _ _ => exact ⟨fun _ unseen => (nomatch unseen), id⟩
  | source _ => exact ⟨id, fun _ unseen => (nomatch unseen)⟩
  | parts _ | worker _ | window _ => exact ⟨id, id⟩

end Applied

/-- Options of `run_partition` and arguments that are added to the files make a loop. -/
theorem Loop.of_options (sub : specs ⊆ partitionOptions)
    (partsFound : named specs (.ofText "--parts") = some partsOption)
    (byteFound : named specs (.ofText "--delimiter-byte") = some delimiterByteOption)
    (hexFound : named specs (.ofText "--delimiter-hex") = some delimiterHexOption)
    (sourceFound : named specs (.ofText "--source") = some sourceOption)
    (windowFound : named specs (.ofText "--window") = some windowOption)
    (workerFound : ∀ name ∈ workerNames, named specs name = some workerOption)
    (workers : ∀ spec ∈ specs, spec.name = .ofText "--worker" → spec.name ∈ workerNames)
    (taken : ∀ token c c', positional token c = .ok c' ↔ startsWithDash token = false ∧
      (∀ m ∈ most, c.files.length < m) ∧ c' = { c with files := c.files ++ [token] }) :
    Loop specs positional workerNames most := by
  have rest : ∀ token c c', positional token c = .ok c' →
      c' = { c with files := c.files ++ [token] } := fun token c c' ran =>
    ((taken token c c').mp ran).2.2
  refine
    { parts := .of_specs ?_ ?_ ?_, delimiter := .of_specs ?_ ?_ ?_, worker := .of_specs ?_ ?_ ?_
      source := .of_specs ?_ ?_ ?_, window := .of_specs ?_ ?_ ?_, names := ?_, files := ⟨?_, ?_⟩
      takes := ?_, no_dash := ?_, default_delimiter := ?_, default_source := ?_
      positional_keeps := ?_ }
  · simp only [List.mem_singleton, forall_eq]
    exact ⟨_, partsFound, fun _ => rfl, fun c v => { c with parts := some v }, fun _ _ => rfl,
      fun _ _ => rfl⟩
  · intro spec mem other value c c' ran
    exact (applied (sub mem) ran).keeps_parts fun eq => other (by simp [eq])
  · intro token c c' ran
    rw [rest token c c' ran]
  · intro name mem
    have seen : ∀ c : Arguments, c.delimiterSeen = c.delimiterGiven.isSome := fun c => by
      unfold Arguments.delimiterGiven
      cases c.delimiterSeen <;> rfl
    rcases List.mem_pair.mp mem with rfl | rfl
    · exact ⟨_, byteFound, seen, Arguments.withDelimiter, fun _ _ => rfl, fun _ _ => rfl⟩
    · exact ⟨_, hexFound, seen, Arguments.withDelimiter, fun _ _ => rfl, fun _ _ => rfl⟩
  · intro spec mem other value c c' ran
    obtain ⟨eq, seen⟩ := (applied (sub mem) ran).keeps_delimiter other
    rw [Arguments.delimiterGiven, eq, seen]
    rfl
  · intro token c c' ran
    rw [rest token c c' ran]
    rfl
  · intro name mem
    exact ⟨_, workerFound name mem, fun _ => rfl, fun c v => { c with worker := some v },
      fun _ _ => rfl, fun _ _ => rfl⟩
  · intro spec mem other value c c' ran
    exact (applied (sub mem) ran).keeps_worker fun eq => other (workers spec mem eq)
  · intro token c c' ran
    rw [rest token c c' ran]
  · simp only [List.mem_singleton, forall_eq]
    refine ⟨_, sourceFound, fun c => ?_, fun c v => { c with source := v, sourceSeen := true },
      fun _ _ => rfl, fun _ _ => rfl⟩
    unfold Arguments.sourceGiven
    change c.sourceSeen = _
    cases c.sourceSeen <;> rfl
  · intro spec mem other value c c' ran
    obtain ⟨eq, seen⟩ := (applied (sub mem) ran).keeps_source fun eq => other (by simp [eq])
    rw [Arguments.sourceGiven, eq, seen]
    rfl
  · intro token c c' ran
    rw [rest token c c' ran]
    rfl
  · simp only [List.mem_singleton, forall_eq]
    exact ⟨_, windowFound, fun _ => rfl, fun c v => { c with window := some v }, fun _ _ => rfl,
      fun _ _ => rfl⟩
  · intro spec mem other value c c' ran
    exact (applied (sub mem) ran).keeps_window fun eq => other (by simp [eq])
  · intro token c c' ran
    rw [rest token c c' ran]
  · intro name given
    obtain ⟨spec, found⟩ := Option.isSome_iff_exists.mp given
    obtain ⟨mem, rfl⟩ := mem_of_named found
    rcases name_of_mem (sub mem) with parts | delimiter | worker | source | window
    · exact .inl parts
    · exact .inr (.inl delimiter)
    · exact .inr (.inr (.inl (workers spec mem worker)))
    · exact .inr (.inr (.inr (.inl source)))
    · exact .inr (.inr (.inr (.inr window)))
  · intro c c' token ran
    rw [rest token c c' ran]
  · intro c c' spec mem value ran
    exact (applied (sub mem) ran).keeps_files
  · intro token c dash room
    exact ⟨_, (taken token c _).mpr ⟨dash, room, rfl⟩⟩
  · intro token c c' ran
    obtain ⟨dash, room, rfl⟩ := (taken token c c').mp ran
    refine ⟨dash, fun m mem => ?_⟩
    rw [List.length_append]
    exact room m mem
  · intro spec mem value c c' ran
    exact (applied (sub mem) ran).keeps_defaults.1
  · intro spec mem value c c' ran
    exact (applied (sub mem) ran).keeps_defaults.2
  · intro token c c' ran
    rw [rest token c c' ran]
    exact ⟨rfl, rfl, rfl, rfl⟩

theorem partition_loop : Loop partitionOptions partitionArgument [.ofText "--worker"] (some 1) := by
  apply Loop.of_options
  · exact List.Subset.refl _
  · rfl
  · rfl
  · rfl
  · rfl
  · rfl
  · intro name mem
    rw [List.mem_singleton.mp mem]
    rfl
  · intro spec _ eq
    exact List.mem_singleton.mpr eq
  · intro token c c'
    unfold partitionArgument
    cases startsWithDash token <;> cases c.files <;> simp [eq_comm]

theorem partitionFiles_loop : Loop partitionFilesOptions partitionFilesArgument [] none := by
  apply Loop.of_options
  · intro spec mem
    simp only [partitionFilesOptions, partitionOptions, List.mem_cons] at mem ⊢
    tauto
  · rfl
  · rfl
  · rfl
  · rfl
  · rfl
  · intro name mem
    cases mem
  · intro spec mem eq
    simp only [partitionFilesOptions, List.mem_cons, List.not_mem_nil, or_false] at mem
    rcases mem with rfl | rfl | rfl | rfl | rfl <;>
      simp [partsOption, delimiterByteOption, delimiterHexOption, sourceOption, windowOption]
        at eq
  · intro token c c'
    unfold partitionFilesArgument
    cases startsWithDash token <;> simp [eq_comm]

/-- A loop accepts the sequences of words that say something. -/
theorem Loop.scan_ok_iff (loop : Loop specs positional workerNames most)
    {arguments : List OsString} : scan specs positional arguments .initial = .ok c ↔
      ∃ words : List (Word OsString), (∀ word ∈ words, word.Fits specs) ∧
        arguments = words.flatMap Word.tokens ∧ Arranged workerNames most words c := by
  rw [Options.scan_ok_iff]
  constructor
  · rintro ⟨words, fit, rfl, ok⟩
    exact ⟨words, fit, rfl, (loop.fold_ok_iff fit).mp ok⟩
  · rintro ⟨words, fit, rfl, arranged⟩
    exact ⟨words, fit, rfl, (loop.fold_ok_iff fit).mpr arranged⟩

end Grammar

/-- Two names that are shown alike are two files. -/
example :
    let first : OsString := .ofBytes [0x61, 0xFF] (by decide)
    let second : OsString := .ofBytes [0x61, 0xFE] (by decide)
    first.lossy = second.lossy ∧
      (scanPartitionFiles [first, .ofText "--parts", .ofText "2", second]).map Arguments.files =
        .ok [first, second] :=
  ⟨by decide +kernel, rfl⟩

end Command
