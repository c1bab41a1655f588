import MmapChunker.Python.Planning
import MmapChunker.Theory.Lines

/-!
Reading the ranges of a plan (`python/mmap_chunker/integrations/datatrove.py`).

Each rank reads the lines of its range and numbers them from the number of lines before
the range. `recordOffsets` counts newlines block by block; `readRange` reads line by line
and stops at a line that leaves the range. The plan may have been made with any delimiter,
so a range may well end inside a line.

What parses a line and turns it into a document is a parameter, apart from what the source
does with the outcome.

`global_line_numbers` says that ranks that do not raise number the lines of the file, and
that ranks whose ranges split a line do raise.
-/

namespace Python

open Tiling Framing Lines

/-! ### Source -/

/-- `b"\n"`. -/
def newline : UInt8 := 10

/-- `_OFFSET_SCAN_BLOCK_SIZE`. -/
def offsetScanBlockSize : Nat := 1024 * 1024

/-- `actual_partitions`. -/
def Plan.actualPartitions (plan : Plan) : Nat := plan.ranges.length

/-- `range_for_part`. -/
def Plan.rangeForPart (plan : Plan) (part : Nat) : Option Range := plan.ranges[part]?

/-- The `while` loop of `_record_offsets`, from `position` on: the newlines and the last
byte of the range. -/
def countNewlines (file : List UInt8) (r : Range) (position remaining newlines : Nat)
    (lastByte : List UInt8) : Except PyException (Nat × List UInt8) :=
  if remaining = 0 then .ok (newlines, lastByte)
  else
    let block := (file.drop position).take (min remaining offsetScanBlockSize)
    if block.length = 0 then
      .error ⟨.osError,
        s!"short read while counting record offsets for range [{r.start}, {r.stop})"⟩
    else
      countNewlines file r (position + block.length) (remaining - block.length)
        (newlines + block.count newline) (block.drop (block.length - 1))
termination_by remaining
decreasing_by
  rename_i more read
  exact Nat.sub_lt (Nat.pos_of_ne_zero more) (Nat.pos_of_ne_zero read)

/-- The loop of `_record_offsets` over the ranges. -/
def offsetsFrom (maxOffset : Nat) (file : List UInt8) (running : Nat) :
    List Range → Except PyException (List Nat)
  | [] => .ok []
  | r :: rs => do
      let position ← seek maxOffset r.start
      let (newlines, lastByte) ← countNewlines file r position r.length 0 []
      let isFinal := rs.isEmpty
      let running' :=
        if isFinal ∧ r.length ≠ 0 ∧ lastByte ≠ [newline] then running + (newlines + 1)
        else running + newlines
      let offsets ← offsetsFrom maxOffset file running' rs
      return running :: offsets

/-- `_record_offsets`. -/
def recordOffsets (env : Environment) (plan : Plan) : Except PyException (List Nat) :=
  if plan.ranges.isEmpty then .ok []
  else do
    let file ← env.openBinary plan.path
    offsetsFrom (env.maxOffset plan.path) file 0 plan.ranges

/-- A value as `orjson.loads` builds it; `bytes` is what decoding a medium leaves. -/
inductive Json where
  | null
  | bool (b : Bool)
  | int (n : Int)
  | float (text : String)
  | str (s : String)
  | list (items : List Json)
  | dict (entries : List (String × Json))
  | bytes (data : List UInt8)

/-- `type(value).__name__`. -/
def Json.typeName : Json → String
  | null => "NoneType"
  | bool _ => "bool"
  | int _ => "int"
  | float _ => "float"
  | str _ => "str"
  | list _ => "list"
  | dict _ => "dict"
  | bytes _ => "bytes"

/-- What `_document_from_line` calls. `decodeBase64` is `base64.decodebytes` of the ASCII
bytes of a string. -/
structure DocumentLibrary (δ : Type) where
  decodeUtf8 : List UInt8 → Except PyException String
  loads : String → Except PyException Json
  decodeBase64 : String → Except PyException (List UInt8)
  getDocumentFromDict : Json → String → Nat → Except PyException (Option δ)

/-- A `RangeJsonlReader`. -/
structure RangeJsonlReader (δ : Type) where
  env : Environment
  library : DocumentLibrary δ
  plan : Plan
  sourceName : String
  offsets : List Nat

/-- What a generator has yielded, and the exception that ended it, if one did. -/
structure Generated (α : Type) where
  yielded : List α
  raised : Option PyException

/-- A line that was read: its index in the range, its bytes and its documents. -/
structure ReadLine (δ : Type) where
  localLi : Nat
  line : List UInt8
  documents : List δ

section Source

variable {δ : Type}

/-- The body of the loop over `media`. -/
def decodeMedium (library : DocumentLibrary δ) : Json → Except PyException Json
  | .dict entries =>
      match entries.lookup "media_bytes" with
      | none => .error ⟨.keyError, "'media_bytes'"⟩
      | some .null => .ok (.dict entries)
      | some (.str text) => do
          let data ← library.decodeBase64 text
          return .dict (entries.map fun entry =>
            if entry.1 = "media_bytes" then (entry.1, .bytes data) else entry)
      | some other =>
          .error ⟨.attributeError, "'" ++ other.typeName ++ "' object has no attribute 'encode'"⟩
  | .str _ => .error ⟨.typeError, "string indices must be integers, not 'str'"⟩
  | .list _ => .error ⟨.typeError, "list indices must be integers or slices, not str"⟩
  | other => .error ⟨.typeError, "'" ++ other.typeName ++ "' object is not subscriptable"⟩

/-- The loop over `parsed.get("media", [])`. -/
def decodeMedia (library : DocumentLibrary δ) : Json → Except PyException Json
  | .dict entries =>
      match entries.lookup "media" with
      | none => .ok (.dict entries)
      | some (.list media) => do
          let decoded ← media.mapM (decodeMedium library)
          return .dict (entries.map fun entry =>
            if entry.1 = "media" then (entry.1, .list decoded) else entry)
      | some (.str text) => do
          -- The characters of a string, or the keys of a `dict`.
          let _ ← text.toList.mapM fun c => decodeMedium library (.str (String.singleton c))
          return .dict entries
      | some (.dict media) => do
          let _ ← media.mapM fun entry => decodeMedium library (.str entry.1)
          return .dict entries
      | some other => .error ⟨.typeError, "'" ++ other.typeName ++ "' object is not iterable"⟩
  | other => .error ⟨.attributeError, "'" ++ other.typeName ++ "' object has no attribute 'get'"⟩

/-- `self._offsets[assignment.index] + local_li`. -/
def RangeJsonlReader.globalLi (reader : RangeJsonlReader δ) (assignment : Range)
    (localLi : Nat) : Except PyException Nat :=
  match reader.offsets[assignment.index]? with
  | none => .error ⟨.indexError, "list index out of range"⟩
  | some offset => .ok (offset + localLi)

/-- `_document_from_line`. -/
def RangeJsonlReader.documentFromLine (reader : RangeJsonlReader δ) (line : List UInt8)
    (assignment : Range) (localLi : Nat) : Except PyException (List δ) :=
  let document : Except PyException (Option δ) := do
    let text ← reader.library.decodeUtf8 line
    let parsed ← reader.library.loads text
    let parsed ← decodeMedia reader.library parsed
    let globalLi ← reader.globalLi assignment localLi
    reader.library.getDocumentFromDict parsed reader.sourceName globalLi
  match document with
  | .ok document => .ok document.toList
  | .error e =>
      -- These three are logged.
      if e.type = .unicodeDecodeError ∨ e.type = .eofError ∨ e.type = .jsonDecodeError then .ok []
      else .error e

/-- `fh.readline()`, for a file that is read up to `offset`. -/
def readline (file : List UInt8) (offset : Nat) : List UInt8 := firstLine newline (file.drop offset)

/-- The `while` loop of `_read_range`. -/
def RangeJsonlReader.readLines (reader : RangeJsonlReader δ) (file : List UInt8)
    (assignment : Range) (offset localLi : Nat) : Generated (ReadLine δ) :=
  if offset < assignment.stop then
    let line := readline file offset
    if line.length = 0 then
      ⟨[], some ⟨.osError, s!"short read: expected range [{assignment.start}, " ++
        s!"{assignment.stop}), stopped at {offset}"⟩⟩
    else if assignment.stop < offset + line.length then
      ⟨[], some ⟨.osError,
        s!"range [{assignment.start}, {assignment.stop}) splits a record"⟩⟩
    else
      match reader.documentFromLine line assignment localLi with
      | .error e => ⟨[], some e⟩
      | .ok documents =>
          let rest := reader.readLines file assignment (offset + line.length) (localLi + 1)
          ⟨⟨localLi, line, documents⟩ :: rest.yielded, rest.raised⟩
  else ⟨[], none⟩
termination_by assignment.stop - offset
decreasing_by
  rename_i more read _
  exact Nat.sub_lt_sub_left more (Nat.lt_add_of_pos_right (Nat.pos_of_ne_zero read))

/-- `_read_range`. -/
def RangeJsonlReader.readRange (reader : RangeJsonlReader δ) (assignment : Range) :
    Generated (ReadLine δ) :=
  match reader.env.openBinary reader.plan.path with
  | .error e => ⟨[], some e⟩
  | .ok file =>
      match seek (reader.env.maxOffset reader.plan.path) assignment.start with
      | .error e => ⟨[], some e⟩
      | .ok offset => reader.readLines file assignment offset 0

/-- What `run` reads for a rank: its range, if it has one that is not empty. -/
def RangeJsonlReader.readRank (reader : RangeJsonlReader δ) (rank : Nat) :
    Generated (ReadLine δ) :=
  match reader.plan.rangeForPart rank with
  | none => ⟨[], none⟩
  | some assignment =>
      if assignment.length = 0 then ⟨[], none⟩ else reader.readRange assignment

end Source

/-! ### Offsets -/

section Offsets

variable {file : List UInt8}

/-- What is left to read, counted block by block. -/
theorem count_block {position remaining want : Nat} {block : List UInt8}
    (read : (file.drop position).take want = block) (le : block.length ≤ remaining) :
    ((file.drop position).take remaining).count newline = block.count newline +
      ((file.drop (position + block.length)).take (remaining - block.length)).count newline := by
  have front : (file.drop position).take block.length = block := by
    rw [← read]
    exact (List.prefix_iff_eq_take.mp (List.take_prefix _ _)).symm
  conv_lhs => rw [← Nat.add_sub_cancel' le, List.take_add, front, List.drop_drop]
  rw [List.count_append]

theorem countNewlines_ok {r : Range} {position remaining newlines total : Nat}
    {lastByte last : List UInt8}
    (ok : countNewlines file r position remaining newlines lastByte = .ok (total, last)) :
    total = newlines + ((file.drop position).take remaining).count newline := by
  fun_induction countNewlines file r position remaining newlines lastByte with
  | case1 =>
      cases ok
      simp
  | case2 => cases ok
  | case3 position remaining newlines lastByte more block read ih =>
      have short : block.length ≤ remaining := (List.length_take_le _ _).trans (min_le_left _ _)
      rw [ih ok, count_block rfl short, Nat.add_assoc]

/-- A range inside the file is counted to its end. -/
theorem countNewlines_returns (r : Range) {position remaining : Nat} (newlines : Nat)
    (lastByte : List UInt8) (inside : position + remaining ≤ file.length) :
    ∃ found, countNewlines file r position remaining newlines lastByte = .ok found := by
  fun_induction countNewlines file r position remaining newlines lastByte with
  | case1 => exact ⟨_, rfl⟩
  | case2 position remaining newlines lastByte more block none =>
      have length : block.length = min (min remaining offsetScanBlockSize)
          (file.length - position) := by
        rw [List.length_take, List.length_drop]
      unfold offsetScanBlockSize at length
      omega
  | case3 position remaining newlines lastByte more block read ih =>
      have short : block.length ≤ remaining := (List.length_take_le _ _).trans (min_le_left _ _)
      exact ih (by omega)

theorem offsetsFrom_ok {maxOffset running : Nat} {ranges : List Range} {offsets : List Nat}
    (ok : offsetsFrom maxOffset file running ranges = .ok offsets) :
    offsets = Lines.offsets newline file running (ranges.map Range.bounds) ∧
      ∀ r ∈ ranges, seek maxOffset r.start = .ok r.start := by
  induction ranges generalizing running offsets with
  | nil =>
      cases ok
      exact ⟨rfl, by simp⟩
  | cons r rs ih =>
      obtain ⟨position, sought, ok⟩ := Exec.bind_ok ok
      obtain ⟨⟨newlines, lastByte⟩, counted, ok⟩ := Exec.bind_ok ok
      obtain ⟨rest, counts, ok⟩ := Exec.bind_ok ok
      cases ok
      have here : r.start = position := Nat.cast_inj.mp (seek_ok sought)
      subst here
      have total : newlines = (slice file r.bounds).count newline := by
        rw [countNewlines_ok counted, Nat.zero_add, r.length_eq]
        rfl
      refine ⟨?_, List.forall_mem_cons.mpr ⟨sought, (ih counts).2⟩⟩
      rw [List.map_cons, Lines.offsets]
      congr 1
      cases rs with
      | nil =>
          -- The last range is followed by none, so what is added for it is not used.
          cases counts
          rfl
      | cons r' rs =>
          rw [if_neg (by simp)] at counts
          rw [(ih counts).1, total]

/-- The offsets of ranges inside the file are found. -/
theorem offsetsFrom_returns {maxOffset : Nat} (small : file.length ≤ Machine.isizeMax)
    (allowed : file.length ≤ maxOffset) (running : Nat) {ranges : List Range}
    (inside : ∀ r ∈ ranges, r.stop ≤ file.length) :
    ∃ offsets, offsetsFrom maxOffset file running ranges = .ok offsets := by
  induction ranges generalizing running with
  | nil => exact ⟨[], rfl⟩
  | cons r rs ih =>
      obtain ⟨here, rest⟩ := List.forall_mem_cons.mp inside
      have le := r.start_le
      have length := r.length_eq
      have sought : seek maxOffset r.start = .ok r.start := seek_eq (by omega) (by omega)
      obtain ⟨⟨newlines, lastByte⟩, counted⟩ :=
        countNewlines_returns r 0 [] (show r.start + r.length ≤ file.length by omega)
      obtain ⟨offsets, counts⟩ := ih _ rest
      refine ⟨running :: offsets, ?_⟩
      rw [offsetsFrom, sought]
      change (countNewlines file r r.start r.length 0 [] >>= _) = _
      rw [counted]
      change (offsetsFrom maxOffset file _ rs >>= _) = _
      rw [counts]
      rfl

end Offsets

/-! ### Reading -/

section Reading

variable {δ : Type} {reader : RangeJsonlReader δ} {file : List UInt8} {assignment : Range}

/-- A range that is read without an exception gives its lines, numbered, and ends where a
line does. -/
theorem readLines_whole {offset localLi : Nat} (inside : assignment.stop ≤ file.length)
    (quiet : (reader.readLines file assignment offset localLi).raised = none) :
    (reader.readLines file assignment offset localLi).yielded.map (fun l => (l.line, l.localLi)) =
        (records [newline] (slice file (offset, assignment.stop))).zipIdx localLi ∧
      (offset < assignment.stop → FrameEnd [newline] file assignment.stop) := by
  fun_induction RangeJsonlReader.readLines reader file assignment offset localLi with
  | case1 offset localLi more line empty => cases quiet
  | case2 offset localLi more line read past => cases quiet
  | case3 offset localLi more line read fits e failed => cases quiet
  | case4 offset localLi more line read fits documents parsed rest ih =>
      have fits' : offset + line.length ≤ assignment.stop := Nat.not_lt.mp fits
      obtain ⟨lines, ends⟩ := ih quiet
      constructor
      · rw [records_slice more inside fits', List.zipIdx_cons, List.map_cons, lines]
        rfl
      · intro _
        rcases fits'.eq_or_lt with last | inner
        · rw [← last]
          exact frameEnd_line (more.trans_le inside)
        · exact ends inner
  | case5 offset localLi done =>
      have none : slice file (offset, assignment.stop) = [] := by
        rw [slice, Nat.sub_eq_zero_of_le (Nat.not_lt.mp done), List.take_zero]
      rw [none, records_nil]
      exact ⟨rfl, fun more => absurd more done⟩

/-- Of the lines of the range from `offset` on, the first of which has the index `localLi`,
one is a line of the file and processing it raised `e`; those before it did not raise. -/
def RangeJsonlReader.LineRaised (reader : RangeJsonlReader δ) (file : List UInt8)
    (assignment : Range) (offset localLi : Nat) (e : PyException) : Prop :=
  ∃ before line rest,
    records [newline] (slice file (offset, assignment.stop)) = before ++ line :: rest ∧
    readline file (offset + before.flatten.length) = line ∧
    (∀ (i : Nat) (earlier : List UInt8), before[i]? = some earlier →
      ∃ documents, reader.documentFromLine earlier assignment (localLi + i) = .ok documents) ∧
    reader.documentFromLine line assignment (localLi + before.length) = .error e

/-- A line that did not raise may stand before the one that did. -/
theorem RangeJsonlReader.LineRaised.cons {offset localLi : Nat} {e : PyException}
    {documents : List δ} (more : offset < assignment.stop) (inside : assignment.stop ≤ file.length)
    (fits : offset + (readline file offset).length ≤ assignment.stop)
    (parsed : reader.documentFromLine (readline file offset) assignment localLi = .ok documents)
    (raised : reader.LineRaised file assignment (offset + (readline file offset).length)
      (localLi + 1) e) :
    reader.LineRaised file assignment offset localLi e := by
  obtain ⟨before, line, rest, lines, here, quiet, failed⟩ := raised
  refine ⟨readline file offset :: before, line, rest, ?_, ?_, ?_, ?_⟩
  · rw [List.cons_append, ← lines]
    exact records_slice more inside fits
  · rw [List.flatten_cons, List.length_append, ← Nat.add_assoc]
    exact here
  · intro i earlier at_
    cases i with
    | zero =>
        cases at_
        exact ⟨documents, parsed⟩
    | succ i =>
        have later := quiet i earlier at_
        rw [Nat.add_assoc, Nat.add_comm 1 i] at later
        exact later
  · rw [Nat.add_assoc, Nat.add_comm 1] at failed
    exact failed

/-- A range raises `OSError`, unless one of its lines raised before. -/
theorem readLines_raised {offset localLi : Nat} {e : PyException}
    (inside : assignment.stop ≤ file.length)
    (raised : (reader.readLines file assignment offset localLi).raised = some e) :
    e.type = .osError ∨ reader.LineRaised file assignment offset localLi e := by
  fun_induction RangeJsonlReader.readLines reader file assignment offset localLi with
  | case1 offset localLi more line empty =>
      cases raised
      exact .inl rfl
  | case2 offset localLi more line read past =>
      cases raised
      exact .inl rfl
  | case3 offset localLi more line read fits e' failed =>
      cases raised
      exact .inr ⟨[], line, _, records_slice more inside (Nat.not_lt.mp fits), rfl, by simp, failed⟩
  | case4 offset localLi more line read fits documents parsed rest ih =>
      rcases ih raised with osError | later
      · exact .inl osError
      · exact .inr (later.cons more inside (Nat.not_lt.mp fits) parsed)
  | case5 => cases raised

end Reading

/-! ### Ranks -/

/-- The pairs of a rank: the offset of its range plus the index in the range, and the raw
line. -/
def RangeJsonlReader.numbered {δ : Type} (reader : RangeJsonlReader δ) (rank : Nat) :
    List (Nat × List UInt8) :=
  (reader.readRank rank).yielded.map fun l => (reader.offsets.getD rank 0 + l.localLi, l.line)

/-- The lines of the range of a rank, numbered from the offset of the range. -/
def RangeJsonlReader.lines {δ : Type} (reader : RangeJsonlReader δ) (file : List UInt8)
    (rank : Nat) : List (Nat × List UInt8) :=
  (((reader.plan.ranges.map Range.bounds).zip reader.offsets)[rank]?).elim []
    fun p => ((records [newline] (slice file p.1)).zipIdx p.2).map Prod.swap

/-- `enumerate(lines)`. -/
def enumerate (lines : List (List UInt8)) : List (Nat × List UInt8) := lines.zipIdx.map Prod.swap

/-- The reader was made for this file: the ranges of its plan that are not empty tile the
file, and its offsets are those of `_record_offsets`. -/
structure RangeJsonlReader.Reads {δ : Type} (reader : RangeJsonlReader δ) (file : List UInt8) :
    Prop where
  opened : reader.env.openBinary reader.plan.path = .ok file
  tiles : Tiles 0 file.length
    ((reader.plan.ranges.map Range.bounds).filter fun p => p.1 < p.2)
  computed : recordOffsets reader.env reader.plan = .ok reader.offsets

section Ranks

variable {δ : Type} {reader : RangeJsonlReader δ} {file : List UInt8} {rank : Nat} {r : Range}

theorem recordOffsets_ok {env : Environment} {plan : Plan} {offsets : List Nat}
    (opened : env.openBinary plan.path = .ok file) (ok : recordOffsets env plan = .ok offsets) :
    offsets = Lines.offsets newline file 0 (plan.ranges.map Range.bounds) ∧
      ∀ r ∈ plan.ranges, seek (env.maxOffset plan.path) r.start = .ok r.start := by
  unfold recordOffsets at ok
  split at ok
  · rename_i none
    cases ok
    rw [List.isEmpty_iff.mp none]
    exact ⟨rfl, by simp⟩
  · rw [opened] at ok
    exact offsetsFrom_ok ok

/-- Ranges inside the file have their offsets. -/
theorem recordOffsets_eq {env : Environment} {plan : Plan}
    (opened : env.openBinary plan.path = .ok file) (small : file.length ≤ Machine.isizeMax)
    (inside : ∀ r ∈ plan.ranges, r.stop ≤ file.length) :
    recordOffsets env plan =
      .ok (Lines.offsets newline file 0 (plan.ranges.map Range.bounds)) := by
  obtain ⟨offsets, counted⟩ := offsetsFrom_returns small (env.length_le _ _ opened) 0 inside
  have ok : recordOffsets env plan = .ok offsets := by
    unfold recordOffsets
    split
    · rename_i none
      rw [List.isEmpty_iff.mp none] at counted
      exact counted
    · rw [opened]
      exact counted
  rw [ok, (recordOffsets_ok opened ok).1]

/-- A plan that was checked for the file is one that can be read. -/
theorem Sound.reads (sound : Sound reader.env reader.plan)
    (opened : reader.env.openBinary reader.plan.path = .ok file)
    (size : reader.plan.fileSize = file.length)
    (computed : recordOffsets reader.env reader.plan = .ok reader.offsets) : reader.Reads file :=
  ⟨opened, size ▸ sound.covers.tiles_filter, computed⟩

namespace RangeJsonlReader.Reads

theorem length_offsets (reads : reader.Reads file) :
    reader.offsets.length = reader.plan.ranges.length := by
  rw [(recordOffsets_ok reads.opened reads.computed).1, Lines.length_offsets, List.length_map]

theorem mem_tiles (mem : r ∈ reader.plan.ranges) (nonempty : r.start < r.stop) :
    r.bounds ∈ (reader.plan.ranges.map Range.bounds).filter fun p => p.1 < p.2 :=
  List.mem_filter.mpr ⟨List.mem_map_of_mem mem, decide_eq_true nonempty⟩

theorem stop_le (reads : reader.Reads file) (mem : r ∈ reader.plan.ranges)
    (nonempty : r.start < r.stop) : r.stop ≤ file.length :=
  (reads.tiles.bounds (mem_tiles mem nonempty)).2.2

/-- The boundaries of the ranges that are not empty are 0 and the ends of such ranges. -/
theorem boundary_eq_zero_or_stop (reads : reader.Reads file) (mem : r ∈ reader.plan.ranges)
    (nonempty : r.start < r.stop) {b : Nat} (boundary : b = r.start ∨ b = r.stop) :
    b = 0 ∨ ∃ r' ∈ reader.plan.ranges, r'.start < r'.stop ∧ b = r'.stop := by
  rcases boundary with rfl | rfl
  · rcases reads.tiles.start_eq_or_end (mem_tiles mem nonempty) with zero | ⟨start, ends⟩
    · exact .inl zero
    · obtain ⟨ended, lt⟩ := List.mem_filter.mp ends
      obtain ⟨r', mem', eq⟩ := List.mem_map.mp ended
      obtain ⟨rfl, stop⟩ := Prod.mk.inj eq
      have lt' : r'.start < r.start := of_decide_eq_true lt
      exact .inr ⟨r', mem', by omega, stop.symm⟩
  · exact .inr ⟨r, mem, nonempty, rfl⟩

theorem readRank_eq (reads : reader.Reads file) (here : reader.plan.rangeForPart rank = some r) :
    reader.readRank rank =
      if r.length = 0 then ⟨[], none⟩ else reader.readLines file r r.start 0 := by
  have sought := (recordOffsets_ok reads.opened reads.computed).2 r (List.mem_of_getElem? here)
  rw [readRank, here]
  dsimp only
  rw [readRange, reads.opened]
  dsimp only
  rw [sought]

/-- A rank that does not raise numbers the lines of its range. -/
theorem numbered_eq (reads : reader.Reads file) (here : reader.plan.rangeForPart rank = some r)
    (quiet : (reader.readRank rank).raised = none) :
    reader.numbered rank =
        ((records [newline] (slice file r.bounds)).zipIdx (reader.offsets.getD rank 0)).map
          Prod.swap ∧
      (r.start < r.stop → FrameEnd [newline] file r.stop) := by
  unfold numbered
  rw [reads.readRank_eq here] at quiet ⊢
  have length := r.length_eq
  by_cases empty : r.length = 0
  · have none : slice file r.bounds = [] := by
      rw [slice, Range.bounds, show r.stop - r.start = 0 by omega, List.take_zero]
    rw [if_pos empty, none, records_nil]
    exact ⟨rfl, fun lt => by omega⟩
  · rw [if_neg empty] at quiet ⊢
    have inside := reads.stop_le (List.mem_of_getElem? here) (by omega)
    obtain ⟨lines, ends⟩ := readLines_whole inside quiet
    refine ⟨?_, ends⟩
    calc (reader.readLines file r r.start 0).yielded.map _
      _ = ((reader.readLines file r r.start 0).yielded.map fun l => (l.line, l.localLi)).map
            fun p => (reader.offsets.getD rank 0 + p.2, p.1) := by
          rw [List.map_map]
          rfl
      _ = ((records [newline] (slice file r.bounds)).zipIdx (reader.offsets.getD rank 0)).map
            Prod.swap := by
          rw [lines, ← Nat.add_zero (reader.offsets.getD rank 0),
            ← List.map_snd_add_zipIdx_eq_zipIdx, List.map_map, Nat.add_zero]
          refine List.map_congr_left fun p _ => ?_
          exact Prod.ext (Nat.add_comm _ _) rfl

theorem lines_of_none (none : reader.plan.rangeForPart rank = none) :
    reader.lines file rank = [] := by
  have past : reader.plan.ranges.length ≤ rank := List.getElem?_eq_none_iff.mp none
  have unpaired : ((reader.plan.ranges.map Range.bounds).zip reader.offsets)[rank]? = .none := by
    apply List.getElem?_eq_none
    rw [List.length_zip, List.length_map]
    omega
  rw [RangeJsonlReader.lines, unpaired]
  rfl

theorem lines_of_some (reads : reader.Reads file)
    (here : reader.plan.rangeForPart rank = some r) :
    reader.lines file rank =
      ((records [newline] (slice file r.bounds)).zipIdx (reader.offsets.getD rank 0)).map
        Prod.swap := by
  have sameLength := reads.length_offsets
  obtain ⟨lt, eq⟩ := List.getElem?_eq_some_iff.mp here
  have paired : ((reader.plan.ranges.map Range.bounds).zip reader.offsets)[rank]? =
      some (r.bounds, reader.offsets.getD rank 0) := by
    rw [List.getElem?_zip_eq_some]
    refine ⟨by rw [List.getElem?_map]; exact congrArg _ here, ?_⟩
    rw [List.getD_eq_getElem _ _ (by omega), List.getElem?_eq_getElem]
  rw [RangeJsonlReader.lines, paired]
  rfl

/-- The pairs of a rank that does not raise are the lines of its range. -/
theorem numbered_eq_lines (reads : reader.Reads file)
    (quiet : (reader.readRank rank).raised = none) :
    reader.numbered rank = reader.lines file rank := by
  cases here : reader.plan.rangeForPart rank with
  | none =>
      rw [lines_of_none here, numbered, readRank, here]
      rfl
  | some r => rw [reads.lines_of_some here, (reads.numbered_eq here quiet).1]

/-- Ranges that end where a line does have the lines of the file, with their numbers. -/
theorem flatMap_lines (reads : reader.Reads file) {worldSize : Nat}
    (enough : reader.plan.actualPartitions ≤ worldSize)
    (ends : ∀ r ∈ reader.plan.ranges, r.start < r.stop → FrameEnd [newline] file r.stop) :
    (List.range worldSize).flatMap (reader.lines file) = enumerate (records [newline] file) := by
  have ends' : ∀ p ∈ reader.plan.ranges.map Range.bounds, p.1 < p.2 →
      FrameEnd [newline] file p.2 := by
    intro p mem nonempty
    obtain ⟨r, mem', rfl⟩ := List.mem_map.mp mem
    exact ends r mem' nonempty
  have short : ((reader.plan.ranges.map Range.bounds).zip reader.offsets).length ≤ worldSize := by
    rw [List.length_zip, List.length_map]
    exact (min_le_left _ _).trans enough
  unfold RangeJsonlReader.lines
  rw [flatMap_range_getElem? short, ← List.map_flatMap,
    (recordOffsets_ok reads.opened reads.computed).1,
    enumerate_tiling reads.tiles (frameEnd_zero _ _) ends', List.drop_zero]
  rfl

/-- Ranks that do not raise number the lines of the file. -/
theorem flatMap_numbered (reads : reader.Reads file) {worldSize : Nat}
    (enough : reader.plan.actualPartitions ≤ worldSize)
    (quiet : ∀ rank < worldSize, (reader.readRank rank).raised = none) :
    (List.range worldSize).flatMap reader.numbered = enumerate (records [newline] file) := by
  have ends : ∀ r ∈ reader.plan.ranges, r.start < r.stop → FrameEnd [newline] file r.stop := by
    intro r mem nonempty
    obtain ⟨rank, lt, rfl⟩ := List.getElem_of_mem mem
    exact (reads.numbered_eq (List.getElem?_eq_getElem lt) (quiet rank (lt.trans_le enough))).2
      nonempty
  rw [← reads.flatMap_lines enough ends]
  exact List.flatMap_congr fun rank mem =>
    reads.numbered_eq_lines (quiet rank (List.mem_range.mp mem))

/-- A range that ends inside a line makes its rank raise. -/
theorem raises (reads : reader.Reads file) (here : reader.plan.rangeForPart rank = some r)
    (nonempty : r.start < r.stop) (interior : r.stop < file.length)
    (splits : file[r.stop - 1]? ≠ some newline) :
    ∃ e, (reader.readRank rank).raised = some e ∧
      (e.type = .osError ∨ reader.LineRaised file r r.start 0 e) := by
  cases raised : (reader.readRank rank).raised with
  | none =>
      have frame := (reads.numbered_eq here raised).2 nonempty
      have ends := frame.endsAt (List.cons_ne_nil _ _) (Nat.zero_lt_of_lt nonempty) interior
      exact absurd (Occurrence.occursAt_singleton.mp ends.2) splits
  | some e =>
      refine ⟨e, rfl, ?_⟩
      have length := r.length_eq
      rw [reads.readRank_eq here, if_neg (by omega)] at raised
      exact readLines_raised interior.le raised

end RangeJsonlReader.Reads

end Ranks

/-- **Line numbers.** The reader may have been made with any plan whose ranges, those that
are empty apart, tile the file. Then, with a rank for every range:

* if no rank raises, the pairs of the ranks, one rank after the other, enumerate the lines
  of the file, the last one also if it is not terminated;
* the offset of a rank is the one `_document_from_line` uses, when a range carries its own
  position as its index;
* if a boundary inside the file does not follow a newline, some rank raises: `OSError`, or
  what one of the lines of its range raised before. -/
theorem global_line_numbers {δ : Type} (reader : RangeJsonlReader δ) (file : List UInt8)
    (reads : reader.Reads file) (worldSize : Nat)
    (enough : reader.plan.actualPartitions ≤ worldSize) :
    ((∀ rank < worldSize, (reader.readRank rank).raised = none) →
      (List.range worldSize).flatMap reader.numbered = enumerate (records [newline] file)) ∧
    (∀ rank r localLi, reader.plan.rangeForPart rank = some r → r.index = rank →
      reader.globalLi r localLi = .ok (reader.offsets.getD rank 0 + localLi)) ∧
    ∀ r ∈ reader.plan.ranges, r.start < r.stop → ∀ b, b = r.start ∨ b = r.stop →
      0 < b → b < file.length → file[b - 1]? ≠ some newline →
      ∃ rank < worldSize, ∃ assignment e, reader.plan.rangeForPart rank = some assignment ∧
        (reader.readRank rank).raised = some e ∧
        (e.type = .osError ∨ reader.LineRaised file assignment assignment.start 0 e) := by
  refine ⟨reads.flatMap_numbered enough, ?_, ?_⟩
  · rintro rank r localLi here rfl
    have lt : r.index < reader.offsets.length := by
      rw [reads.length_offsets]
      exact (List.getElem?_eq_some_iff.mp here).1
    rw [RangeJsonlReader.globalLi, List.getElem?_eq_getElem lt, List.getD_eq_getElem _ _ lt]
  · intro r mem nonempty b boundary positive interior splits
    rcases reads.boundary_eq_zero_or_stop mem nonempty boundary with rfl | ⟨r', mem', lt', rfl⟩
    · exact absurd positive (Nat.lt_irrefl 0)
    · obtain ⟨rank, lt, rfl⟩ := List.getElem_of_mem mem'
      have here := List.getElem?_eq_getElem lt
      obtain ⟨e, raised, cause⟩ := reads.raises here lt' interior splits
      exact ⟨rank, lt.trans_le enough, _, e, here, raised, cause⟩

/-- A range by its index and its bounds. -/
def rangeAt (index start stop : Nat) (le : start ≤ stop) : Range :=
  ⟨index, start, stop, stop - start, le, rfl⟩

/-- A reader of one file. Of what it parses, only `[1]` is JSON. -/
def bracketReader (file : List UInt8) (ranges : List Range) : RangeJsonlReader Unit where
  env := ⟨id, fun _ => .regular file.length, fun _ => .ok file, fun s => "'" ++ s ++ "'",
    fun _ => file.length, fun _ _ => length_le_of_only⟩
  library :=
    { decodeUtf8 := fun line => .ok (String.ofList (line.map fun byte => Char.ofNat byte.toNat))
      loads := fun text =>
        if text = "[1]\n" then .ok (.list [.int 1])
        else .error ⟨.jsonDecodeError, "unexpected character: line 1 column 1 (char 0)"⟩
      decodeBase64 := fun _ => .ok []
      getDocumentFromDict := fun _ _ _ => .ok none }
  plan := ⟨"a", file.length, ranges.length, 50, ranges⟩
  sourceName := "a"
  offsets := Lines.offsets newline file 0 (ranges.map Range.bounds)

/-- The lines `[1]` and `[2]`, cut inside the second. -/
def twoArrays : List UInt8 := [91, 49, 93, 10, 91, 50, 93]

/-- Two lines that are not JSON, and an empty range inside the first. -/
def twoBrackets : List UInt8 := [93, 10, 93]

def splitReader : RangeJsonlReader Unit :=
  bracketReader twoArrays [rangeAt 0 0 6 (by decide), rangeAt 1 6 7 (by decide)]

def emptyRangeReader : RangeJsonlReader Unit :=
  bracketReader twoBrackets
    [rangeAt 0 0 2 (by decide), rangeAt 1 1 1 (by decide), rangeAt 2 2 3 (by decide)]

theorem splitReader_reads : splitReader.Reads twoArrays where
  opened := rfl
  tiles := .cons (by decide) (.cons (by decide) (.nil 7))
  computed := recordOffsets_eq rfl (by decide) (by decide)

theorem emptyRangeReader_reads : emptyRangeReader.Reads twoBrackets where
  opened := rfl
  tiles := .cons (by decide) (.cons (by decide) (.nil 3))
  computed := recordOffsets_eq rfl (by decide) (by decide)

theorem emptyRangeReader_quiet (rank : Nat) : (emptyRangeReader.readRank rank).raised = none := by
  have reads := emptyRangeReader_reads
  rcases rank with _ | _ | _ | rank
  · rw [reads.readRank_eq (r := rangeAt 0 0 2 (by decide)) rfl, if_neg (by decide),
      RangeJsonlReader.readLines]
    change (emptyRangeReader.readLines twoBrackets (rangeAt 0 0 2 (by decide)) 2 1).raised = none
    rw [RangeJsonlReader.readLines]
    rfl
  · rw [reads.readRank_eq (r := rangeAt 1 1 1 (by decide)) rfl, if_pos (by decide)]
  · rw [reads.readRank_eq (r := rangeAt 2 2 3 (by decide)) rfl, if_neg (by decide),
      RangeJsonlReader.readLines]
    change (emptyRangeReader.readLines twoBrackets (rangeAt 2 2 3 (by decide)) 3 1).raised = none
    rw [RangeJsonlReader.readLines]
    rfl
  · rfl

theorem global_line_numbers_emptyRange :
    (List.range 3).flatMap emptyRangeReader.numbered = enumerate (records [newline] twoBrackets) :=
  (global_line_numbers emptyRangeReader twoBrackets emptyRangeReader_reads 3 (by decide)).1
    fun rank _ => emptyRangeReader_quiet rank

/-- The first rank never gets to the line that is cut, the second reads the rest of it as a
line that is not JSON. -/
theorem splitReader_raised (rank : Nat) (e : PyException)
    (raised : (splitReader.readRank rank).raised = some e) : e.type = .attributeError := by
  have reads := splitReader_reads
  rcases rank with _ | _ | rank
  · rw [reads.readRank_eq (r := rangeAt 0 0 6 (by decide)) rfl, if_neg (by decide),
      RangeJsonlReader.readLines] at raised
    cases raised
    rfl
  · rw [reads.readRank_eq (r := rangeAt 1 6 7 (by decide)) rfl, if_neg (by decide),
      RangeJsonlReader.readLines] at raised
    change (splitReader.readLines twoArrays (rangeAt 1 6 7 (by decide)) 7 1).raised = _ at raised
    rw [RangeJsonlReader.readLines] at raised
    cases raised
  · cases raised

/-- A split does not always show as `OSError`, nor always at all when it is the boundary of
an empty range. -/
theorem split_without_osError :
    (¬∀ (reader : RangeJsonlReader Unit) (file : List UInt8), reader.Reads file →
      (∃ r ∈ reader.plan.ranges, r.start < r.stop ∧ r.stop < file.length ∧
        file[r.stop - 1]? ≠ some newline) →
      ∃ rank e, (reader.readRank rank).raised = some e ∧ e.type = .osError) ∧
    ¬∀ (reader : RangeJsonlReader Unit) (file : List UInt8), reader.Reads file →
      (∃ r ∈ reader.plan.ranges, 0 < r.stop ∧ r.stop < file.length ∧
        file[r.stop - 1]? ≠ some newline) →
      ∃ rank e, (reader.readRank rank).raised = some e := by
  constructor
  · intro always
    obtain ⟨rank, e, raised, type⟩ := always splitReader twoArrays splitReader_reads
      ⟨rangeAt 0 0 6 (by decide), by simp [splitReader, bracketReader], by decide⟩
    rw [splitReader_raised rank e raised] at type
    cases type
  · intro always
    obtain ⟨rank, e, raised⟩ := always emptyRangeReader twoBrackets emptyRangeReader_reads
      ⟨rangeAt 1 1 1 (by decide), by simp [emptyRangeReader, bracketReader], by decide⟩
    rw [emptyRangeReader_quiet rank] at raised
    cases raised

end Python
