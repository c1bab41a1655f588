import MmapChunker.Python.Native
import MmapChunker.Theory.Tiling

/-!
Planning from Python (`python/mmap_chunker/planning.py`).

`planFile` and `planFileRanges` take what the native library says and check it against the
size and the bytes of the file before they return a `Plan`. The library is a parameter, so
nothing is assumed of its counts, codes, lengths and ranges.

`planners_are_sound` says what the checks amount to: a `Plan` that is returned covers the
file in contiguous ranges that end right after a delimiter, and anything else raises.
-/

namespace Python

open Machine Exec Tiling

/-! ### Source -/

/-- `Range`, as `__post_init__` accepts it. -/
structure Range where
  index : Nat
  start : Nat
  stop : Nat
  length : Nat
  start_le : start ≤ stop
  length_eq : length = stop - start

/-- `Range(index, start, end, length)`. -/
def Range.make (index start stop length : Int) : Except PyException Range :=
  if _ : index < 0 then .error ⟨.valueError, s!"range index must be >= 0, got {index}"⟩
  else if _ : start < 0 then .error ⟨.valueError, s!"range start must be >= 0, got {start}"⟩
  else if _ : stop < start then
    .error ⟨.valueError, s!"range end must be >= start, got {stop} < {start}"⟩
  else if _ : length ≠ stop - start then
    .error ⟨.valueError,
      s!"range length must equal end - start, got {length} != {stop} - {start}"⟩
  else .ok ⟨index.toNat, start.toNat, stop.toNat, length.toNat, by omega, by omega⟩

/-- The bytes from `start` to `end`. -/
def Range.bounds (r : Range) : Nat × Nat := (r.start, r.stop)

/-- `Plan`. -/
structure Plan where
  path : String
  fileSize : Nat
  requestedParts : Nat
  delimiter : UInt8
  ranges : List Range

/-- A Python value, as far as the checks of the arguments tell values apart. -/
inductive PyValue where
  | none
  | bool (b : Bool)
  | int (n : Int)
  | bytes (b : List UInt8)
  | str (s : String)
  | other (typeName : String)

/-- `type(value).__name__`. -/
def PyValue.typeName : PyValue → String
  | none => "NoneType"
  | bool _ => "bool"
  | int _ => "int"
  | bytes _ => "bytes"
  | str _ => "str"
  | other typeName => typeName

/-- `value is None`. -/
def PyValue.isNone : PyValue → Bool
  | none => true
  | _ => false

/-- What `os.stat` finds. -/
inductive StatResult where
  | notFound
  | failed (text : String)
  | directory
  | special
  | regular (size : Nat)

/-- The file system as Python sees it, and `repr` of a string. `openBinary` is
`open(path, "rb")`: the bytes of the file, which do not change. `maxOffset` is the last
position that the file system under a path allows, which no file on it is longer than. -/
structure Environment where
  resolve : String → String
  stat : String → StatResult
  openBinary : String → Except PyException (List UInt8)
  reprStr : String → String
  maxOffset : String → Nat
  length_le : ∀ path file, openBinary path = .ok file → file.length ≤ maxOffset path

/-- The native functions `plan_file` calls. A handle is null or not; `mmap_engine_get_chunk`
answers with its code and the length of the view. -/
structure NativeLibrary (σ : Type) extends RangesLibrary σ where
  mmapEngineOpen : String → σ → Bool × σ
  mmapEnginePartitionRecords : Nat → UInt8 → σ → Nat × σ
  mmapEngineGetChunk : Nat → σ → (Int × Nat) × σ
  mmapEngineFree : σ → σ

/-- Of a single file there is a last position. -/
theorem length_le_of_only {bytes file : List UInt8}
    (opened : (.ok bytes : Except PyException (List UInt8)) = .ok file) :
    file.length ≤ bytes.length := by
  cases opened
  exact le_rfl

/-- `_coerce_path`, of a `str`. -/
def coercePath (env : Environment) (raw : String) : Except PyException String :=
  if raw.contains '\x00' then .error ⟨.valueError, "path contains an embedded NUL byte"⟩
  else .ok (env.resolve raw)

/-- `_coerce_parts`. -/
def coerceParts (parts : PyValue) : Except PyException Nat :=
  match parts with
  | .int n =>
      if n < 1 then .error ⟨.valueError, s!"parts must be >= 1, got {n}"⟩
      else if (usizeMax : Int) < n then
        .error ⟨.overflowError,
          s!"parts must be <= platform size_t maximum {usizeMax}, got {n}"⟩
      else .ok n.toNat
  | other => .error ⟨.typeError, "parts must be an int, got " ++ other.typeName⟩

/-- `_coerce_delimiter`. -/
def coerceDelimiter (delimiter : PyValue) : Except PyException UInt8 :=
  match delimiter with
  | .bool b => .error ⟨.valueError, "delimiter int must be a byte value 0..255, got " ++
      if b then "True" else "False"⟩
  | .int n =>
      if 0 ≤ n ∧ n ≤ 255 then .ok (UInt8.ofNat n.toNat)
      else .error ⟨.valueError, s!"delimiter int must be a byte value 0..255, got {n}"⟩
  | .bytes [byte] => .ok byte
  | .bytes b => .error ⟨.valueError,
      "partition delimiter must be exactly one byte; the Python API accepts a single raw byte " ++
      s!"only, got {b.length} bytes; for multi-byte delimiters (e.g. CRLF) use the CLI " ++
      "--delimiter-hex or the C ABI pattern APIs (mmap_engine_partition_records_pattern / " ++
      "mmap_engine_plan_partition_ranges)"⟩
  | other => .error ⟨.typeError,
      "delimiter must be a single-byte value such as b'\\n' (or its int value 10), got " ++
      other.typeName⟩

/-- `_SOURCES`, as it displays. -/
def sources : String := "('mmap', 'windowed', 'pread')"

/-- `_coerce_source`. -/
def coerceSource (env : Environment) (source : PyValue) : Except PyException Int :=
  match source with
  | .str "mmap" => .ok 0
  | .str "windowed" => .ok 1
  | .str "pread" => .ok 2
  | .str s => .error ⟨.valueError, "source must be one of " ++ sources ++ ", got " ++
      env.reprStr s⟩
  | other => .error ⟨.typeError, "source must be one of " ++ sources ++ ", got " ++
      other.typeName⟩

/-- `{source!r}`, of a source that is a `str`. -/
def sourceRepr (env : Environment) : PyValue → String
  | .str s => env.reprStr s
  | other => other.typeName

/-- `DEFAULT_WINDOW_BYTES`. -/
def defaultWindowBytes : Int := 64 * 1024 * 1024

/-- `MIN_WINDOW_BYTES`. -/
def minWindowBytes : Int := 65536

/-- `_coerce_window_bytes`. -/
def coerceWindowBytes (windowBytes : PyValue) : Except PyException Int :=
  match windowBytes with
  | .none => .ok defaultWindowBytes
  | .int n =>
      if n < minWindowBytes then
        .error ⟨.valueError, s!"window_bytes must be >= {minWindowBytes}, got {n}"⟩
      else .ok n
  | other => .error ⟨.typeError,
      s!"window_bytes must be an int >= {minWindowBytes} or None, got " ++ other.typeName⟩

/-- `bytes((byte,))`. -/
def singleByte (byte : UInt8) : PyBytes := ⟨[byte], by simp [isizeMax]⟩

/-- `_verify_file`. -/
def verifyFile (env : Environment) (path : String) : Except PyException Nat :=
  match env.stat path with
  | .notFound => .error ⟨.fileNotFoundError, "input file does not exist: " ++ path⟩
  | .failed text => .error ⟨.osError, "cannot access input file " ++ path ++ ": " ++ text⟩
  | .directory =>
      .error ⟨.isADirectoryError, "input path is a directory, not a file: " ++ path⟩
  | .special => .error ⟨.planningError, "input path is not a regular file: " ++ path⟩
  | .regular size => .ok size

section Source

variable {σ : Type}

/-- `fh.seek(position)`, where the file system allows positions up to `maxOffset`. -/
def seek (maxOffset : Nat) (position : Int) : Except PyException Nat :=
  if position < -(isizeMax : Int) - 1 ∨ (isizeMax : Int) < position then
    .error ⟨.valueError, "cannot fit 'int' into an offset-sized integer"⟩
  else if position < 0 ∨ (maxOffset : Int) < position then
    .error ⟨.osError, "[Errno 22] Invalid argument"⟩
  else .ok position.toNat

/-- `fh.seek(position)` and `fh.read(1)[0]`. -/
def byteAt (maxOffset : Nat) (file : List UInt8) (position : Int) : Except PyException UInt8 :=
  match seek maxOffset position with
  | .error e => .error e
  | .ok offset =>
      match file[offset]? with
      | none => .error ⟨.indexError, "index out of range"⟩
      | some byte => .ok byte

/-- Read the byte before `position` and compare it. -/
def checkPreceding (maxOffset : Nat) (file : List UInt8) (delimiter : UInt8) (position : Nat)
    (message : String) : Exec σ PyException Unit := do
  let byte ← fromExcept (byteAt maxOffset file ((position : Int) - 1))
  throwIf (byte ≠ delimiter) ⟨.planningError, message⟩

/-- One iteration of the loop of `_verify_record_alignment`, for the range at position `i`
of `count`. -/
def alignmentStep (maxOffset : Nat) (file : List UInt8) (delimiter : UInt8) (count : Nat)
    (entry : Range × Nat) : Exec σ PyException Unit := do
  let (r, i) := entry
  if 0 < r.start then
    checkPreceding maxOffset file delimiter r.start (s!"range {r.index} starts at byte " ++
      s!"{r.start}, but the preceding byte is not the delimiter (record split)")
  if i + 1 < count then
    checkPreceding maxOffset file delimiter r.stop (s!"range {r.index} ends at byte " ++
      s!"{r.stop}, but the preceding byte is not the delimiter (record split)")

/-- `_verify_record_alignment`. -/
def verifyRecordAlignment (env : Environment) (path : String) (ranges : List Range)
    (delimiter : UInt8) : Exec σ PyException Unit := do
  if ranges.isEmpty then return ()
  let file ← fromExcept (env.openBinary path)
  ranges.zipIdx.forM (alignmentStep (env.maxOffset path) file delimiter ranges.length)

/-- `raise PlanningError(...)` unless the ranges end where the file does. -/
def checkCoverage (offset fileSize : Nat) : Exec σ PyException Unit :=
  throwIf (offset ≠ fileSize) ⟨.planningError,
    s!"partition coverage {offset} does not match file size {fileSize}; " ++
      "the native library produced an inconsistent plan"⟩

/-- One iteration of the loop that asks for the length of chunk `index`. -/
def lengthStep (lib : NativeLibrary σ) (index : Nat) (lengths : List Nat) :
    Exec σ PyException (ForInStep (List Nat)) := do
  let (code, length) ← call (lib.mmapEngineGetChunk index)
  if code ≠ 0 then
    raiseNative lib.toRangesLibrary .planningError s!"native get_chunk({index}) failed"
  else return .yield (lengths ++ [length])

/-- The `try` of `plan_file`: the lengths of the chunks, or none for an empty file. -/
def chunkLengths (lib : NativeLibrary σ) (fileSize parts : Nat) (delimiter : UInt8) :
    Exec σ PyException (Option (List Nat)) := do
  let count ← call (lib.mmapEnginePartitionRecords parts delimiter)
  if fileSize = 0 then
    throwIf (count ≠ 0)
      ⟨.planningError, "native partition returned a nonzero count for an empty file"⟩
    return none
  if count = 0 then
    raiseNative lib.toRangesLibrary .planningError "native partition planning failed"
  else
    let lengths ← forIn (List.range count) [] (lengthStep lib)
    return some lengths

/-- One iteration of the loop that lays the chunks end to end. -/
def layStep (entry : Nat × Nat) (laid : List Range × Nat) :
    Exec σ PyException (ForInStep (List Range × Nat)) := do
  let (length, index) := entry
  let (ranges, offset) := laid
  let range ← fromExcept (Range.make index offset (offset + length) length)
  return .yield (ranges ++ [range], offset + length)

/-- `plan_file`. -/
def planFile (env : Environment) (library : Except PyException (NativeLibrary σ)) (path : String)
    (parts delimiter : PyValue) : Exec σ PyException Plan := do
  let resolved ← fromExcept (coercePath env path)
  let parts ← fromExcept (coerceParts parts)
  let delimiterByte ← fromExcept (coerceDelimiter delimiter)
  let fileSize ← fromExcept (verifyFile env resolved)
  let lib ← fromExcept library
  let handle ← call (lib.mmapEngineOpen resolved)
  if handle = false then
    raiseNative lib.toRangesLibrary .planningError ("native open failed for " ++ resolved)
  else
    match ← andFinally lib.mmapEngineFree (chunkLengths lib fileSize parts delimiterByte) with
    | none => return ⟨resolved, 0, parts, delimiterByte, []⟩
    | some lengths =>
        let (ranges, offset) ← forIn lengths.zipIdx ([], 0) layStep
        checkCoverage offset fileSize
        verifyRecordAlignment env resolved ranges delimiterByte
        return ⟨resolved, fileSize, parts, delimiterByte, ranges⟩

/-- `Range(index, start, end, end - start)`, for the pair at position `index`. -/
def rangeOfPair (entry : (Nat × Nat) × Nat) : Exec σ PyException Range :=
  fromExcept (Range.make entry.2 entry.1.1 entry.1.2 ((entry.1.2 : Int) - entry.1.1))

/-- One iteration of the loop that looks for gaps. -/
def gapStep (r : Range) (offset : Nat) : Exec σ PyException (ForInStep Nat) := do
  throwIf (r.start ≠ offset) ⟨.planningError,
    s!"native plan has a gap or overlap at range {r.index}; " ++
      "the native library produced an inconsistent plan"⟩
  return .yield r.stop

/-- `except NativeLibraryError as exc: raise PlanningError(...)`. -/
def asPlanningError (e : PyException) : PyException :=
  if e.type = .nativeLibraryError then
    ⟨.planningError, "native range planning failed: " ++ e.message⟩
  else e

/-- `plan_file_ranges`. -/
def planFileRanges (env : Environment) (library : Except PyException (NativeLibrary σ))
    (path : String) (parts delimiter source windowBytes : PyValue) :
    Exec σ PyException Plan := do
  let resolved ← fromExcept (coercePath env path)
  let parts ← fromExcept (coerceParts parts)
  let delimiterByte ← fromExcept (coerceDelimiter delimiter)
  let sourceMode ← fromExcept (coerceSource env source)
  let windowValue ← fromExcept (coerceWindowBytes windowBytes)
  throwIf (sourceMode ≠ 1 ∧ windowBytes.isNone = false) ⟨.valueError,
    "window_bytes requires source='windowed', got source=" ++ sourceRepr env source⟩
  let fileSize ← fromExcept (verifyFile env resolved)
  let lib ← fromExcept library
  let pairs ← mapErr asPlanningError (planPartitionRanges lib.toRangesLibrary
    ⟨resolved, parts, singleByte delimiterByte, sourceMode, windowValue⟩)
  let ranges ← pairs.zipIdx.mapM rangeOfPair
  let offset ← forIn ranges 0 gapStep
  checkCoverage offset fileSize
  verifyRecordAlignment env resolved ranges delimiterByte
  return ⟨resolved, fileSize, parts, delimiterByte, ranges⟩

end Source

/-! ### What a plan promises -/

/-- The byte before `position` is the delimiter. -/
def EndsRecord (file : List UInt8) (delimiter : UInt8) (position : Nat) : Prop :=
  0 < position ∧ file[position - 1]? = some delimiter

/-- What a `Plan` that is returned promises. -/
structure Sound (env : Environment) (plan : Plan) : Prop where
  size : env.stat plan.path = .regular plan.fileSize
  indexed : plan.ranges.map Range.index = List.range plan.ranges.length
  covers : Paves 0 plan.fileSize (plan.ranges.map Range.bounds)
  lengths : ∀ r ∈ plan.ranges, r.start ≤ r.stop ∧ r.length = r.stop - r.start
  aligned : ∀ r ∈ plan.ranges, ∀ b, b = r.start ∨ b = r.stop → 0 < b → b < plan.fileSize →
    ∃ file, env.openBinary plan.path = .ok file ∧ EndsRecord file plan.delimiter b

/-- The plan is for the file and the arguments that were given. -/
structure Answers (env : Environment) (path : String) (parts delimiter : PyValue) (plan : Plan) :
    Prop where
  path : coercePath env path = .ok plan.path
  parts : coerceParts parts = .ok plan.requestedParts
  delimiter : coerceDelimiter delimiter = .ok plan.delimiter

section Checks

variable {σ : Type}

theorem seek_ok {maxOffset offset : Nat} {position : Int}
    (ok : seek maxOffset position = .ok offset) : position = offset := by
  unfold seek at ok
  split at ok
  · cases ok
  · split at ok
    · cases ok
    · cases ok
      omega

/-- A position inside a file can be sought. -/
theorem seek_eq {maxOffset offset : Nat} (small : offset ≤ isizeMax) (allowed : offset ≤ maxOffset) :
    seek maxOffset offset = .ok offset := by
  unfold seek
  rw [if_neg (by omega), if_neg (by omega), Int.toNat_natCast]

theorem byteAt_pred {maxOffset position : Nat} {file : List UInt8} {byte : UInt8}
    (ok : byteAt maxOffset file ((position : Int) - 1) = .ok byte) :
    EndsRecord file byte position := by
  unfold byteAt at ok
  split at ok
  · cases ok
  · rename_i offset sought
    have eq := seek_ok sought
    obtain rfl : offset = position - 1 := by omega
    split at ok
    · cases ok
    · rename_i byte' here
      cases ok
      exact ⟨by omega, here⟩

/-- What one iteration has checked. -/
def Checked (file : List UInt8) (delimiter : UInt8) (count : Nat) (entry : Range × Nat) : Prop :=
  (0 < entry.1.start → EndsRecord file delimiter entry.1.start) ∧
    (entry.2 + 1 < count → EndsRecord file delimiter entry.1.stop)

theorem checkPreceding_yields (maxOffset : Nat) (file : List UInt8) (delimiter : UInt8)
    (position : Nat) (message : String) :
    Yields (σ := σ) (checkPreceding maxOffset file delimiter position message)
      fun _ => EndsRecord file delimiter position := by
  apply (Yields.fromExcept _).bind
  intro byte read
  apply (Yields.throwIf _ _).mono
  intro _ same
  obtain rfl := not_not.mp same
  exact byteAt_pred read

theorem alignmentStep_yields (maxOffset : Nat) (file : List UInt8) (delimiter : UInt8)
    (count : Nat) (entry : Range × Nat) :
    Yields (σ := σ) (alignmentStep maxOffset file delimiter count entry)
      fun _ => Checked file delimiter count entry := by
  have atStop : ∀ message, Yields (σ := σ)
      (if entry.2 + 1 < count then checkPreceding maxOffset file delimiter entry.1.stop message
        else pure ())
      fun _ => entry.2 + 1 < count → EndsRecord file delimiter entry.1.stop := by
    intro message
    split
    · exact (checkPreceding_yields maxOffset file delimiter _ message).mono fun _ stop _ => stop
    · rename_i last
      exact Yields.pure fun inner => absurd inner last
  unfold alignmentStep
  dsimp only
  split
  · apply (checkPreceding_yields maxOffset file delimiter _ _).bind
    intro _ start
    exact (atStop _).mono fun _ stop => ⟨fun _ => start, stop⟩
  · rename_i first
    exact (atStop _).mono fun _ stop => ⟨fun inner => absurd inner first, stop⟩

/-- Every boundary strictly inside the file has been compared. -/
theorem verifyRecordAlignment_yields (env : Environment) (path : String) (ranges : List Range)
    (delimiter : UInt8) {size : Nat} (covers : Paves 0 size (ranges.map Range.bounds)) :
    Yields (σ := σ) (verifyRecordAlignment env path ranges delimiter) fun _ =>
      ∀ r ∈ ranges, ∀ b, b = r.start ∨ b = r.stop → 0 < b → b < size →
        ∃ file, env.openBinary path = .ok file ∧ EndsRecord file delimiter b := by
  unfold verifyRecordAlignment
  split
  · rename_i none
    rw [List.isEmpty_iff.mp none]
    exact Yields.pure (by simp)
  · apply (Yields.fromExcept _).bind
    intro file opened
    apply (Yields.forM (alignmentStep_yields (env.maxOffset path) file delimiter ranges.length) _).mono
    intro _ checked r mem b boundary positive inside
    refine ⟨file, opened, ?_⟩
    obtain ⟨i, lt, rfl⟩ := List.getElem_of_mem mem
    obtain ⟨start, stop⟩ := checked (ranges[i], i) (List.mk_mem_zipIdx_iff_getElem?.mpr (by simp))
    rcases boundary with rfl | rfl
    · exact start positive
    · apply stop
      by_contra last
      -- The last range ends where the file does, which is not strictly inside.
      have whole : ranges.take i ++ [ranges[i]] = ranges := by
        rw [List.take_append_getElem lt, List.take_of_length_le (by omega)]
      rw [← whole, List.map_append] at covers
      exact absurd covers.last_end inside.ne

/-- The chunks laid so far, end to end up to `offset`. -/
structure Laid (ranges : List Range) (offset : Nat) : Prop where
  indexed : ranges.map Range.index = List.range ranges.length
  covers : Paves 0 offset (ranges.map Range.bounds)

theorem rangeMake_ok {index start stop length : Int} {r : Range}
    (ok : Range.make index start stop length = .ok r) :
    r.index = index ∧ r.start = start ∧ r.stop = stop ∧ r.length = length := by
  unfold Range.make at ok
  split at ok
  · cases ok
  · split at ok
    · cases ok
    · split at ok
      · cases ok
      · split at ok
        · cases ok
        · cases ok
          dsimp only
          omega

theorem layChunks_yields (lengths : List Nat) :
    Yields (σ := σ) (forIn lengths.zipIdx ([], 0) layStep) fun laid => Laid laid.1 laid.2 := by
  refine Yields.forIn layStep
    (fun rest laid => Laid laid.1 laid.2 ∧ ∃ lengths, rest = lengths.zipIdx laid.1.length)
    (fun _ laid => laid.1) ?_ ⟨⟨rfl, .nil 0⟩, lengths, rfl⟩
  rintro ⟨length, index⟩ rest ⟨ranges, offset⟩ ⟨laid, lengths, eq⟩
  cases lengths with
  | nil => cases eq
  | cons length' lengths =>
      rw [List.zipIdx_cons] at eq
      cases eq
      refine (Yields.fromExcept _).bind fun r made => Yields.pure ?_
      obtain ⟨index, start, stop, _⟩ := rangeMake_ok made
      rw [Nat.cast_inj] at index start
      rw [← Nat.cast_add, Nat.cast_inj] at stop
      refine ⟨⟨?_, ?_⟩, lengths, by simp⟩
      · simp [laid.indexed, index, List.range_succ]
      · have added := laid.covers.concat (Nat.le_add_right offset length)
        simpa [Range.bounds, start, stop] using added

theorem rangeOfPair_yields (entry : (Nat × Nat) × Nat) :
    Yields (σ := σ) (rangeOfPair entry) fun r => (r.bounds, r.index) = entry := by
  apply (Yields.fromExcept _).mono
  intro r made
  obtain ⟨index, start, stop, _⟩ := rangeMake_ok made
  unfold Range.bounds
  rw [Nat.cast_inj.mp start, Nat.cast_inj.mp stop, Nat.cast_inj.mp index]

theorem rangesOfPairs_yields (pairs : List (Nat × Nat)) :
    Yields (σ := σ) (pairs.zipIdx.mapM rangeOfPair)
      fun ranges => ranges.map Range.index = List.range ranges.length := by
  apply (Yields.mapM rangeOfPair_yields _).mono
  intro ranges made
  have eq : ranges.map (fun r => (r.bounds, r.index)) = pairs.zipIdx := by
    rw [← List.forall₂_eq_eq_eq, List.forall₂_map_left_iff]
    exact made.flip
  have count : pairs.length = ranges.length := by
    rw [← List.length_zipIdx, ← eq, List.length_map]
  have indices := congrArg (List.map Prod.snd) eq
  rw [List.zipIdx_map_snd, List.map_map, count, ← List.range_eq_range'] at indices
  exact indices

theorem gaps_yields (ranges : List Range) :
    Yields (σ := σ) (forIn ranges 0 gapStep)
      fun offset => Paves 0 offset (ranges.map Range.bounds) := by
  refine Yields.forIn gapStep
    (fun rest offset => ∃ seen, seen ++ rest = ranges ∧ Paves 0 offset (seen.map Range.bounds))
    ?_ ?_ ⟨[], rfl, .nil 0⟩
  · rintro offset ⟨seen, rfl, covers⟩
    rwa [List.append_nil]
  · rintro r rest offset ⟨seen, rfl, covers⟩
    refine (Yields.throwIf _ _).bind fun _ meets => Yields.pure ?_
    obtain rfl := not_not.mp meets
    refine ⟨seen ++ [r], by simp, ?_⟩
    rw [List.map_append]
    exact covers.concat r.start_le

end Checks

/-! ### Any library -/

section Library

variable {σ : Type}

theorem raiseNative_yields {α : Type} (lib : RangesLibrary σ) (type : ExceptionType)
    (what : String) (post : α → Prop) : Yields (raiseNative lib type what) post :=
  (Yields.step _).bind fun _ _ => Yields.throw _

theorem planRounds_yields (lib : RangesLibrary σ) (request : RangesRequest) (rounds : Nat) :
    Yields (planRounds lib request rounds) fun _ => True := by
  induction rounds with
  | zero => exact Yields.throw _
  | succ rounds ih =>
      rw [planRounds]
      apply (Yields.step _).bind
      intro counted _
      dsimp only
      split
      · exact Yields.pure trivial
      · split
        · exact raiseNative_yields lib _ _ _
        · apply (Yields.step _).bind
          intro filled _
          split
          · exact Yields.pure trivial
          · split
            · exact raiseNative_yields lib _ _ _
            · exact ih

theorem planPartitionRanges_yields (lib : RangesLibrary σ) (request : RangesRequest) :
    Yields (planPartitionRanges lib request) fun _ => True := by
  apply (Yields.step _).bind
  intro _ _
  exact (Yields.throwIf _ _).bind fun _ _ => planRounds_yields lib request 2

theorem lengths_yields (lib : NativeLibrary σ) (count : Nat) :
    Yields (forIn (List.range count) [] (lengthStep lib)) fun _ => True := by
  refine Yields.forIn (lengthStep lib) (fun _ _ => True) (fun _ _ => trivial) ?_ trivial
  intro index _ lengths _
  apply (Yields.step _).bind
  intro answer _
  dsimp only
  split
  · exact raiseNative_yields _ _ _ _
  · exact Yields.pure trivial

/-- Only an empty file has no chunks. -/
theorem chunkLengths_yields (lib : NativeLibrary σ) (fileSize parts : Nat) (delimiter : UInt8) :
    Yields (chunkLengths lib fileSize parts delimiter)
      fun lengths => lengths = none → fileSize = 0 := by
  apply (Yields.step _).bind
  intro count _
  split
  · rename_i empty
    exact (Yields.throwIf _ _).bind fun _ _ => Yields.pure fun _ => empty
  · split
    · exact raiseNative_yields _ _ _ _
    · exact (lengths_yields lib count).bind fun _ _ => Yields.pure nofun

end Library

/-! ### Soundness -/

section Planners

variable {σ : Type} {env : Environment} {path : String} {parts delimiter : PyValue}

theorem verifyFile_ok {size : Nat} (ok : verifyFile env path = .ok size) :
    env.stat path = .regular size := by
  unfold verifyFile at ok
  split at ok
  all_goals cases ok
  assumption

/-- The end both planners share: ranges laid from 0 on are checked against the file. -/
theorem checkedPlan_yields {plan : Plan} {offset : Nat}
    (size : verifyFile env plan.path = .ok plan.fileSize)
    (indexed : plan.ranges.map Range.index = List.range plan.ranges.length)
    (covers : Paves 0 offset (plan.ranges.map Range.bounds))
    (answers : Answers env path parts delimiter plan) :
    Yields (σ := σ) (do
      checkCoverage offset plan.fileSize
      verifyRecordAlignment env plan.path plan.ranges plan.delimiter
      return plan) fun plan => Sound env plan ∧ Answers env path parts delimiter plan := by
  apply (Yields.throwIf _ _).bind
  intro _ reaches
  obtain rfl := not_not.mp reaches
  apply (verifyRecordAlignment_yields env plan.path plan.ranges plan.delimiter covers).bind
  intro _ aligned
  exact Yields.pure ⟨⟨verifyFile_ok size, indexed, covers,
    fun r _ => ⟨r.start_le, r.length_eq⟩, aligned⟩, answers⟩

theorem planFile_yields (env : Environment) (library : Except PyException (NativeLibrary σ))
    (path : String) (parts delimiter : PyValue) :
    Yields (planFile env library path parts delimiter)
      fun plan => Sound env plan ∧ Answers env path parts delimiter plan := by
  apply (Yields.fromExcept _).bind
  intro resolved pathOk
  apply (Yields.fromExcept _).bind
  intro requestedParts partsOk
  apply (Yields.fromExcept _).bind
  intro delimiterByte delimiterOk
  apply (Yields.fromExcept _).bind
  intro fileSize sizeOk
  apply (Yields.fromExcept _).bind
  intro lib _
  apply (Yields.step _).bind
  intro handle _
  have answers : ∀ size ranges,
      Answers env path parts delimiter ⟨resolved, size, requestedParts, delimiterByte, ranges⟩ :=
    fun _ _ => ⟨pathOk, partsOk, delimiterOk⟩
  split
  · exact raiseNative_yields _ _ _ _
  · apply ((chunkLengths_yields lib fileSize requestedParts delimiterByte).andFinally _).bind
    intro lengths empty
    cases lengths with
    | none =>
        obtain rfl := empty rfl
        exact Yields.pure ⟨⟨verifyFile_ok sizeOk, rfl, .nil 0, by simp, by simp⟩, answers _ _⟩
    | some lengths =>
        apply (layChunks_yields lengths).bind
        intro laid holds
        exact checkedPlan_yields sizeOk holds.indexed holds.covers (answers fileSize laid.1)

theorem planFileRanges_yields (env : Environment)
    (library : Except PyException (NativeLibrary σ)) (path : String)
    (parts delimiter source windowBytes : PyValue) :
    Yields (planFileRanges env library path parts delimiter source windowBytes)
      fun plan => Sound env plan ∧ Answers env path parts delimiter plan := by
  apply (Yields.fromExcept _).bind
  intro resolved pathOk
  apply (Yields.fromExcept _).bind
  intro requestedParts partsOk
  apply (Yields.fromExcept _).bind
  intro delimiterByte delimiterOk
  apply (Yields.fromExcept _).bind
  intro sourceMode _
  apply (Yields.fromExcept _).bind
  intro windowValue _
  apply (Yields.throwIf _ _).bind
  intro _ _
  apply (Yields.fromExcept _).bind
  intro fileSize sizeOk
  apply (Yields.fromExcept _).bind
  intro lib _
  apply ((planPartitionRanges_yields _ _).mapErr _).bind
  intro pairs _
  apply (rangesOfPairs_yields pairs).bind
  intro ranges indexed
  apply (gaps_yields ranges).bind
  intro offset covers
  have answers : Answers env path parts delimiter
      ⟨resolved, fileSize, requestedParts, delimiterByte, ranges⟩ := ⟨pathOk, partsOk, delimiterOk⟩
  exact checkedPlan_yields sizeOk indexed covers answers

/-- **Sound whatever the library says.** Either planner ends with a `Plan` of the file and
the arguments it was given, whose ranges are numbered from 0, lie end to end from 0 to the
size of the file and touch only after a delimiter, or raises. -/
theorem planners_are_sound (env : Environment) (library : Except PyException (NativeLibrary σ))
    (path : String) (parts delimiter source windowBytes : PyValue) (s : σ) :
    Ensures (planFile env library path parts delimiter) s
        (Outcome (fun plan _ => Sound env plan ∧ Answers env path parts delimiter plan)
          fun _ _ => True) ∧
      Ensures (planFileRanges env library path parts delimiter source windowBytes) s
        (Outcome (fun plan _ => Sound env plan ∧ Answers env path parts delimiter plan)
          fun _ _ => True) :=
  ⟨planFile_yields env library path parts delimiter s,
    planFileRanges_yields env library path parts delimiter source windowBytes s⟩

end Planners

end Python
