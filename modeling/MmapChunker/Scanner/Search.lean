import MmapChunker.Theory.Machine
import MmapChunker.Theory.Occurrence
import MmapChunker.Theory.ZeroByte

/-!
The two slice searches of the scanner (`src/scanner.rs`).

`findByteSwar` looks for one byte: a scalar prefix up to 8-byte alignment of the
slice's address, then 8-byte words tested with the zero-byte trick, then a scalar
tail. `findPatternInSlice` looks for a pattern by jumping between occurrences of
its first byte.

Every search returns an `Option` of its result: `none` is the panic of an index or
slice expression out of bounds. `findByteSwar_eq` and `findPatternInSlice_eq` are
what callers use: the searches never panic and return the reference search
`nextOcc`, whatever the slice's address.
-/

namespace Scanner

open Machine Occurrence

/-! ### Single-byte search -/

/-- A scalar scan of `haystack[i..stop]`, the first and third phase. -/
def scalarSearch (haystack : Slice) (delimiter : UInt8) (i stop : Nat) : Option (Option Nat) := do
  if i < stop then
    let byte ← haystack.index i
    if byte = delimiter then return some i
    scalarSearch haystack delimiter (i + 1) stop
  else return none
termination_by stop - i

/-- `u64::from_le_bytes`. -/
def fromLeBytes (chunk : List UInt8) : UInt64 :=
  UInt64.ofNat (ZeroByte.word (chunk.map UInt8.toNat))

/-- `u64::trailing_zeros`. -/
def trailingZeros (w : UInt64) : Nat := (findFrom (fun i => w.toNat.testBit i = true) 0 64).getD 64

/-- The zero-byte test on one word. -/
def hasZero (word pattern : UInt64) : UInt64 :=
  let xored := word ^^^ pattern
  (xored - 0x0101010101010101) &&& ~~~xored &&& 0x8080808080808080

/-- The word loop, the second phase: the index of a hit, or the index at which
fewer than 8 bytes are left. -/
def wordSearch (haystack : Slice) (pattern : UInt64) (i : Nat) : Option (Nat ⊕ Nat) := do
  if i + 8 ≤ haystack.len then
    let chunk ← haystack.range i (i + 8)
    let flags := hasZero (fromLeBytes chunk.bytes) pattern
    if flags ≠ 0 then return .inl (i + trailingZeros flags / 8)
    wordSearch haystack pattern (i + 8)
  else return .inr i
termination_by haystack.len - i

/-- `find_byte_swar`. -/
def findByteSwar (haystack : Slice) (delimiter : UInt8) : Option (Option Nat) := do
  let len := haystack.len
  if len = 0 then return none
  let pattern : UInt64 := delimiter.toUInt64 * 0x0101010101010101
  let align := haystack.addr % 8
  let prefixEnd := if align ≠ 0 then min (8 - align) len else 0
  match ← scalarSearch haystack delimiter 0 prefixEnd with
  | some i => return some i
  | none =>
      match ← wordSearch haystack pattern prefixEnd with
      | .inl i => return some i
      | .inr i => scalarSearch haystack delimiter i len

/-! ### The word test -/

theorem toNat_fromLeBytes {chunk : List UInt8} (eight : chunk.length = 8) :
    (fromLeBytes chunk).toNat = ZeroByte.word (chunk.map UInt8.toNat) := by
  have lt := ZeroByte.word_lt (chunk.map UInt8.toNat) fun b mem => by
    obtain ⟨x, _, rfl⟩ := List.mem_map.mp mem
    exact x.toNat_lt
  rw [List.length_map, eight] at lt
  exact UInt64.toNat_ofNat_of_lt' lt

/-- Multiplying a byte by `0x01…01` repeats it. -/
theorem toNat_repeat (d : UInt8) :
    (d.toUInt64 * 0x0101010101010101).toNat = ZeroByte.repeated 8 d.toNat := by
  have lt := d.toNat_lt
  have repeated : ZeroByte.repeated 8 d.toNat = d.toNat * 0x0101010101010101 := by
    simp only [ZeroByte.repeated_succ]
    simp only [ZeroByte.repeated, List.replicate_zero, ZeroByte.word_nil]
    omega
  rw [UInt64.toNat_mul, UInt8.toNat_toUInt64, repeated]
  exact Nat.mod_eq_of_lt (by
    change d.toNat * 0x0101010101010101 < _
    omega)

/-- The flags of a word are the flags of its bytes compared with the delimiter. -/
theorem toNat_hasZero {chunk : List UInt8} (eight : chunk.length = 8) (d : UInt8) :
    (hasZero (fromLeBytes chunk) (d.toUInt64 * 0x0101010101010101)).toNat =
      ZeroByte.zeroFlags 8 (ZeroByte.word (chunk.map fun b => b.toNat ^^^ d.toNat)) := by
  have xored : (fromLeBytes chunk ^^^ (d.toUInt64 * 0x0101010101010101)).toNat =
      ZeroByte.word (chunk.map fun b => b.toNat ^^^ d.toNat) := by
    have small : ∀ b ∈ chunk.map UInt8.toNat, b < 256 := fun b mem => by
      obtain ⟨x, _, rfl⟩ := List.mem_map.mp mem
      exact x.toNat_lt
    have xor := ZeroByte.xor_repeated small d.toNat_lt
    rw [List.length_map, eight, List.map_map] at xor
    rw [UInt64.toNat_xor, toNat_fromLeBytes eight, toNat_repeat]
    exact xor
  have ones : (0x0101010101010101 : UInt64).toNat = ZeroByte.repeated 8 1 := by decide
  have highs : (0x8080808080808080 : UInt64).toNat = ZeroByte.repeated 8 128 := by decide
  unfold hasZero ZeroByte.zeroFlags
  rw [UInt64.toNat_and, UInt64.toNat_and, UInt64.toNat_sub, UInt64.toNat_not, xored, ones, highs,
    Nat.add_comm, show 256 ^ 8 = 2 ^ 64 by decide, show UInt64.size = 2 ^ 64 from rfl]

theorem toNat_xor_eq_zero_iff {b d : UInt8} : b.toNat ^^^ d.toNat = 0 ↔ b = d := by
  rw [Nat.xor_eq_zero_iff]
  exact UInt8.toNat_inj

theorem trailingZeros_eq {w : UInt64} {j : Nat}
    (first : FirstAt (fun i => w.toNat.testBit i = true) 0 (some j)) : trailingZeros w = j := by
  have beyond : ∀ q, 0 + 64 ≤ q → ¬ w.toNat.testBit q = true := fun q le => by
    have lt : w.toNat < 2 ^ q :=
      Nat.lt_of_lt_of_le w.toNat_lt (Nat.pow_le_pow_right (by decide) (by omega))
    rw [Nat.testBit_lt_two_pow lt]
    exact Bool.false_ne_true
  have found := (findFrom_spec (fun i => w.toNat.testBit i = true) 0 64).firstAt beyond
  rw [trailingZeros, found.unique first, Option.getD_some]

/-- The word test on the bytes of a chunk: no flag means no hit, and otherwise the
lowest flag gives the first hit. -/
theorem hasZero_chunk {chunk : List UInt8} (eight : chunk.length = 8) (d : UInt8) :
    let flags := hasZero (fromLeBytes chunk) (d.toUInt64 * 0x0101010101010101)
    (flags = 0 ∧ chunk.findIdx? (· == d) = none) ∨
      (flags ≠ 0 ∧ chunk.findIdx? (· == d) = some (trailingZeros flags / 8)) := by
  intro flags
  have small : ∀ b ∈ chunk.map fun b => b.toNat ^^^ d.toNat, b < 256 := fun b mem => by
    obtain ⟨x, _, rfl⟩ := List.mem_map.mp mem
    exact Nat.xor_lt_two_pow (n := 8) x.toNat_lt d.toNat_lt
  have first := ZeroByte.firstAt_zeroFlags small
  have sameIdx : (chunk.map fun b => b.toNat ^^^ d.toNat).findIdx? (· == 0) =
      chunk.findIdx? (· == d) := by
    rw [List.findIdx?_map]
    congr 1
    funext b
    rw [Bool.eq_iff_iff, Function.comp_apply, beq_iff_eq, beq_iff_eq, toNat_xor_eq_zero_iff]
  rw [List.length_map, eight, ← toNat_hasZero eight d, sameIdx] at first
  cases hit : chunk.findIdx? (· == d) with
  | none =>
      rw [hit] at first
      refine .inl ⟨UInt64.toNat_inj.mp (Nat.eq_of_testBit_eq fun i => ?_), rfl⟩
      rw [UInt64.toNat_zero, Nat.zero_testBit]
      exact Bool.eq_false_iff.mpr (first i (Nat.zero_le i))
  | some k =>
      rw [hit] at first
      have bit : flags.toNat.testBit (8 * k + 7) = true := first.2.1
      refine .inr ⟨fun zero => ?_, ?_⟩
      · rw [zero, UInt64.toNat_zero, Nat.zero_testBit] at bit
        exact Bool.false_ne_true bit
      · rw [trailingZeros_eq first]
        exact congrArg some (show k = (8 * k + 7) / 8 by omega)

/-! ### The phases -/

/-- The delimiter stands at an index. -/
theorem occursAt_byte {xs : List UInt8} {d : UInt8} {i : Nat} :
    OccursAt [d] xs i ↔ xs[i]? = some d := occursAt_singleton

theorem scalarSearch_spec {haystack : Slice} {d : UInt8} {i stop : Nat} (le : stop ≤ haystack.len) :
    ∃ r, scalarSearch haystack d i stop = some r ∧
      FirstIn (OccursAt [d] haystack.bytes) i stop r := by
  fun_induction scalarSearch haystack d i stop with
  | case1 i lt ih =>
      have here := haystack.index_eq (i := i) (lt.trans_le le)
      rw [here, Option.bind_eq_bind, Option.bind_some]
      split
      · rename_i hit
        refine ⟨some i, rfl, le_rfl, lt, ?_, fun q le lt => absurd lt (Nat.not_lt.mpr le)⟩
        rw [occursAt_byte, ← hit]
        exact here
      · rename_i miss
        obtain ⟨r, eq, rest⟩ := ih
        have missed : FirstIn (OccursAt [d] haystack.bytes) i (i + 1) none := fun q le lt => by
          rw [show q = i by omega, occursAt_byte]
          intro occurs
          exact miss (Option.some.inj (here.symm.trans occurs))
        exact ⟨r, eq, missed.extend (Nat.le_succ i) rest⟩
  | case2 i notLt => exact ⟨none, rfl, fun q le lt => absurd (le.trans_lt lt) notLt⟩

theorem findIdx?_window {xs : List UInt8} {d : UInt8} {i n : Nat} (le : i + n ≤ xs.length) :
    FirstIn (OccursAt [d] xs) i (i + n)
      ((((xs.drop i).take n).findIdx? (· == d)).map (i + ·)) := by
  have read : ∀ j < n, ((xs.drop i).take n)[j]? = xs[i + j]? := fun j lt => by
    rw [List.getElem?_take_of_lt lt, List.getElem?_drop]
  have length : ((xs.drop i).take n).length = n := by
    rw [List.length_take, List.length_drop]
    omega
  cases hit : ((xs.drop i).take n).findIdx? (· == d) with
  | none =>
      intro q le lt occurs
      have notHere := List.findIdx?_eq_none_iff.mp hit d
      rw [occursAt_byte, show q = i + (q - i) by omega, ← read (q - i) (by omega)] at occurs
      simpa using notHere (List.mem_of_getElem? occurs)
  | some k =>
      obtain ⟨lt, here, before⟩ := List.findIdx?_eq_some_iff_getElem.mp hit
      rw [length] at lt
      refine ⟨Nat.le_add_right i k, Nat.add_lt_add_left lt i, ?_, fun q le ltQ occurs => ?_⟩
      · rw [occursAt_byte, ← read k lt, List.getElem?_eq_getElem, ← beq_iff_eq.mp here]
      · have ltK : q - i < k := by
          change q < i + k at ltQ
          omega
        rw [occursAt_byte, show q = i + (q - i) by omega, ← read (q - i) (by omega),
          List.getElem?_eq_some_iff] at occurs
        obtain ⟨_, eq⟩ := occurs
        exact before (q - i) ltK (beq_iff_eq.mpr eq)

theorem wordSearch_spec {haystack : Slice} {d : UInt8} {i : Nat} (le : i ≤ haystack.len) :
    (∃ p, wordSearch haystack (d.toUInt64 * 0x0101010101010101) i = some (.inl p) ∧
        FirstIn (OccursAt [d] haystack.bytes) i haystack.len (some p)) ∨
      ∃ j, wordSearch haystack (d.toUInt64 * 0x0101010101010101) i = some (.inr j) ∧
        i ≤ j ∧ j ≤ haystack.len ∧ FirstIn (OccursAt [d] haystack.bytes) i j none := by
  fun_induction wordSearch haystack (d.toUInt64 * 0x0101010101010101) i with
  | case1 i room ih =>
      have window : haystack.range i (i + 8) = some (haystack.window i 8) := by
        rw [Slice.range_eq (Nat.le_add_right i 8) room, Nat.add_sub_cancel_left]
      rw [window, Option.bind_eq_bind, Option.bind_some]
      have hit := findIdx?_window (d := d) room
      rcases hasZero_chunk (Slice.len_window room) d with ⟨zero, none⟩ | ⟨nonzero, some⟩
      · rw [Slice.bytes_window] at none
        rw [none] at hit
        rw [if_neg (not_not.mpr zero)]
        rcases ih room with ⟨p, eq, found⟩ | ⟨j, eq, leJ, leLen, missed⟩
        · exact .inl ⟨p, eq, FirstIn.extend hit (Nat.le_add_right i 8) found⟩
        · exact .inr ⟨j, eq, (Nat.le_add_right i 8).trans leJ, leLen,
            FirstIn.extend hit (Nat.le_add_right i 8) missed⟩
      · rw [Slice.bytes_window] at some
        rw [some] at hit
        rw [if_pos nonzero]
        exact .inl ⟨_, rfl, FirstIn.widen hit room⟩
  | case2 i full =>
      exact .inr ⟨i, rfl, le_rfl, le, fun q le lt => absurd lt (Nat.not_lt.mpr le)⟩

/-- `find_byte_swar` never panics and returns the first hit, whatever the address
of the slice is. -/
theorem findByteSwar_eq (haystack : Slice) (d : UInt8) :
    findByteSwar haystack d = some (nextOcc [d] haystack.bytes 0) := by
  have ne : [d] ≠ [] := List.cons_ne_nil d []
  have beyond : ∀ q, haystack.len ≤ q → ¬ OccursAt [d] haystack.bytes q := fun q le occurs => by
    have bound : q + 1 ≤ haystack.len := occurs.le_length ne
    omega
  have result : ∀ {r : Option Nat}, FirstIn (OccursAt [d] haystack.bytes) 0 haystack.len r →
      r = nextOcc [d] haystack.bytes 0 := fun found =>
    (nextOcc_eq_of_firstAt ne (found.firstAt beyond)).symm
  simp only [findByteSwar]
  split
  · rename_i empty
    refine congrArg some (result fun q _ lt => ?_)
    exact absurd lt (by rw [empty]; exact Nat.not_lt_zero q)
  · set prefixEnd := if haystack.addr % 8 ≠ 0 then min (8 - haystack.addr % 8) haystack.len else 0
    have inside : prefixEnd ≤ haystack.len := by
      change (if _ then _ else _) ≤ _
      split
      · exact Nat.min_le_right _ _
      · exact Nat.zero_le _
    obtain ⟨r, eq, scanned⟩ := scalarSearch_spec (d := d) (i := 0) inside
    rw [eq, Option.bind_eq_bind, Option.bind_some]
    cases r with
    | some p => exact congrArg some (result (scanned.widen inside))
    | none =>
        rcases wordSearch_spec (d := d) inside with ⟨p, eq, found⟩ | ⟨j, eq, leJ, leLen, missed⟩
        · simp only [eq, Option.bind_eq_bind, Option.bind_some]
          exact congrArg some (result (scanned.extend (Nat.zero_le _) found))
        · obtain ⟨r, eqTail, tail⟩ := scalarSearch_spec (d := d) (i := j) (le_refl haystack.len)
          simp only [eq, eqTail, Option.bind_eq_bind, Option.bind_some]
          exact congrArg some
            (result (scanned.extend (Nat.zero_le _) (missed.extend leJ tail)))

/-- The reference search for a byte is `findIdx?`. -/
theorem nextOcc_byte (xs : List UInt8) (d : UInt8) :
    nextOcc [d] xs 0 = xs.findIdx? (· == d) := by
  have window : FirstIn (OccursAt [d] xs) 0 (0 + xs.length) _ :=
    findIdx?_window (Nat.zero_add xs.length).le
  rw [List.drop_zero, List.take_length] at window
  have shift : (xs.findIdx? (· == d)).map (0 + ·) = xs.findIdx? (· == d) := by
    cases xs.findIdx? (· == d) <;> simp
  rw [shift] at window
  apply nextOcc_eq_of_firstAt (List.cons_ne_nil d [])
  refine window.firstAt fun q beyond occurs => ?_
  have fits : q + 1 ≤ xs.length := occurs.le_length (List.cons_ne_nil d [])
  omega

/-- A word whose second byte is not the delimiter, but is flagged: the borrow of the
first byte, which is. -/
theorem exists_spurious_flag (d : UInt8) : ∃ chunk : List UInt8, chunk.length = 8 ∧
    chunk.findIdx? (· == d) = some 0 ∧ chunk[1]? ≠ some d ∧
    (hasZero (fromLeBytes chunk) (d.toUInt64 * 0x0101010101010101)).toNat.testBit 15 = true := by
  have flipped : (d ^^^ 1).toNat ^^^ d.toNat = 1 := by
    rw [UInt8.toNat_xor, Nat.xor_comm d.toNat, Nat.xor_assoc, Nat.xor_self]
    rfl
  refine ⟨[d, d ^^^ 1, d, d, d, d, d, d], rfl, ?_, ?_, ?_⟩
  · rw [List.findIdx?_cons, if_pos (beq_self_eq_true d)]
  · intro same
    rw [List.getElem?_cons_succ, List.getElem?_cons_zero, Option.some.injEq] at same
    rw [same, Nat.xor_self] at flipped
    exact Nat.zero_ne_one flipped
  · have xored : ([d, d ^^^ 1, d, d, d, d, d, d].map fun b => b.toNat ^^^ d.toNat) =
        [0, 1, 0, 0, 0, 0, 0, 0] := by
      simp only [List.map_cons, List.map_nil, Nat.xor_self, flipped]
    rw [toNat_hasZero rfl, xored]
    decide

/-- **The word search is a first-byte search.** It returns the index of the first byte
equal to the delimiter, if there is one, at every address, although a word may have
flags on bytes that differ from the delimiter. -/
theorem findByteSwar_first (haystack : Slice) (d : UInt8) :
    findByteSwar haystack d = some (haystack.bytes.findIdx? (· == d)) ∧
      (∀ addr, findByteSwar ⟨addr, haystack.bytes, haystack.fits⟩ d = findByteSwar haystack d) ∧
      ∃ chunk : List UInt8, chunk.length = 8 ∧ chunk.findIdx? (· == d) = some 0 ∧
        chunk[1]? ≠ some d ∧
        (hasZero (fromLeBytes chunk)
          (d.toUInt64 * 0x0101010101010101)).toNat.testBit 15 = true := by
  refine ⟨?_, fun addr => ?_, exists_spurious_flag d⟩
  · rw [findByteSwar_eq, nextOcc_byte]
  · rw [findByteSwar_eq, findByteSwar_eq]

/-! ### Pattern search -/

/-- The resynchronising loop of `find_pattern_in_slice`. -/
def patternLoop (haystack : Slice) (pattern : List UInt8) (firstByte : UInt8) (maxSearch : Nat)
    (searchStart : Nat) : Option (Option Nat) := do
  if searchStart ≤ maxSearch then
    let remainder ← haystack.rangeFrom searchStart
    match ← findByteSwar remainder firstByte with
    | none => return none
    | some relPos =>
        let pos := searchStart + relPos
        if maxSearch < pos then return none
        let candidate ← haystack.rangeFrom pos
        if candidate.startsWith pattern then return some pos
        -- A false first-byte match: resynchronise one byte further.
        patternLoop haystack pattern firstByte maxSearch (pos + 1)
  else return none
termination_by maxSearch + 1 - searchStart

/-- `find_pattern_in_slice`. -/
def findPatternInSlice (haystack : Slice) (pattern : List UInt8) : Option (Option Nat) := do
  let plen := pattern.length
  if plen = 0 ∨ haystack.len < plen then return none
  let firstByte ← pattern[0]?
  if plen = 1 then findByteSwar haystack firstByte
  else patternLoop haystack pattern firstByte (haystack.len - plen) 0

theorem patternLoop_eq {haystack : Slice} {first : UInt8} {rest : List UInt8} {start : Nat}
    (fits : (first :: rest).length ≤ haystack.len) :
    patternLoop haystack (first :: rest) first (haystack.len - (first :: rest).length) start =
      some (nextOcc (first :: rest) haystack.bytes start) := by
  set pattern := first :: rest with patternDef
  have ne : pattern ≠ [] := List.cons_ne_nil first rest
  have beyond : ∀ lo, haystack.len - pattern.length < lo →
      some none = some (nextOcc pattern haystack.bytes lo) := fun lo past => by
    rw [nextOcc_eq_none ne (show haystack.len < lo + pattern.length by omega)]
  fun_induction patternLoop haystack pattern first (haystack.len - pattern.length) start with
  | case1 start le ih =>
      have inside : start ≤ haystack.len := by omega
      have shifted := nextOcc_drop (List.cons_ne_nil first []) haystack.bytes start 0
      have byteSpec := nextOcc_spec (List.cons_ne_nil first []) haystack.bytes (start + 0)
      simp only [Slice.rangeFrom_eq inside, Option.bind_eq_bind, Option.bind_some, findByteSwar_eq,
        Slice.bytes_tail]
      rw [shifted] at byteSpec
      cases hit : nextOcc [first] (haystack.bytes.drop start) 0 with
      | none =>
          rw [hit] at byteSpec
          have missing : FirstAt (OccursAt pattern haystack.bytes) start none := fun q leQ occurs =>
            byteSpec q leQ occurs.head
          exact congrArg some (nextOcc_eq_of_firstAt ne missing).symm
      | some relPos =>
          rw [hit] at byteSpec
          obtain ⟨leRel, byteHere, noByte⟩ := byteSpec
          -- Below the candidate there is no first byte, hence no occurrence.
          have skipped : FirstIn (OccursAt pattern haystack.bytes) start (start + relPos) none :=
            fun q leQ ltQ occurs => noByte q leQ ltQ occurs.head
          have search : nextOcc pattern haystack.bytes start =
              nextOcc pattern haystack.bytes (start + relPos) := nextOcc_skip ne leRel skipped
          simp only
          split
          · rename_i past
            rw [search]
            exact beyond _ past
          · rename_i notPast
            have insidePos : start + relPos ≤ haystack.len := by omega
            rw [Slice.rangeFrom_eq insidePos, Option.bind_some]
            split
            · rename_i starts
              rw [search, nextOcc_here ne (Slice.startsWith_iff.mp starts)]
              rfl
            · rename_i differs
              have missed : ¬ OccursAt pattern haystack.bytes (start + relPos) := fun occurs =>
                differs (Slice.startsWith_iff.mpr occurs)
              rw [search, nextOcc_next ne missed]
              exact ih relPos notPast
  | case2 start past => exact beyond start (Nat.not_le.mp past)

/-- `find_pattern_in_slice` never panics and returns the first occurrence; an empty
pattern has none. -/
theorem findPatternInSlice_eq (haystack : Slice) {pattern : List UInt8} (ne : pattern ≠ []) :
    findPatternInSlice haystack pattern = some (nextOcc pattern haystack.bytes 0) := by
  cases pattern with
  | nil => exact absurd rfl ne
  | cons first rest =>
      simp only [findPatternInSlice]
      split
      · rename_i short
        have shorter : haystack.len < (first :: rest).length :=
          short.resolve_left (List.length_pos_of_ne_nil ne).ne'
        rw [nextOcc_eq_none ne (by rw [Nat.zero_add]; exact shorter)]
        rfl
      · rename_i long
        have fits : (first :: rest).length ≤ haystack.len :=
          Nat.not_lt.mp fun lt => long (.inr lt)
        rw [List.getElem?_cons_zero, Option.bind_eq_bind, Option.bind_some]
        split
        · rename_i one
          have single : rest = [] := by simpa using one
          rw [single]
          exact findByteSwar_eq haystack first
        · exact patternLoop_eq fits

end Scanner
