import MmapChunker.Engine.Pin
import MmapChunker.Engine.Plan
import MmapChunker.Scanner.Partition
import MmapChunker.Theory.Run

/-!
The C interface of an engine (`src/ffi.rs`).

Five entry points plan, one reads the plan. Each runs its body behind `catch_unwind`; a
body that gives up, by an error or by a panic, leaves its text in the error buffer of
the thread.

A planning body either stores the plan its request asks for or leaves the engine alone
(`Request.body_atomic`), and `Effect` says what a call can do. From it `engine_contract`
follows for every sequence of calls: the stored plan covers the mapping, a failed call
changes nothing, and `mmap_engine_get_chunk` reads the last plan that was accepted.
-/

namespace Ffi

open Machine Exec Calls Tiling Stride Scanner Pin Plan

/-! ### The error buffer -/

/-- `LAST_ERROR`, an array of `MAX_ERROR_LEN` bytes. -/
abbrev ErrorBuffer := Vector UInt8 256

/-- `msg.as_bytes()`. -/
def asBytes (msg : String) : List UInt8 := msg.toByteArray.data.toList

/-- `set_error`: the text and a zero byte; what lies past it stays. -/
def setError (msg : String) (buf : ErrorBuffer) : ErrorBuffer :=
  let src := asBytes msg
  let len := min src.length 255
  Vector.ofFn fun i : Fin 256 =>
    if i.val < len then src.getD i.val 0 else if i.val = len then 0 else buf.get i

/-- `clear_error`. -/
def clearError (buf : ErrorBuffer) : ErrorBuffer := buf.set 0 0

/-- `mmap_engine_last_error`: null, or the buffer. -/
def mmapEngineLastError (buf : ErrorBuffer) : Option ErrorBuffer :=
  if buf[0] = 0 then none else some buf

/-! ### Source -/

/-- `Engine`. -/
structure Engine where
  mmap : Slice
  plan : ChunkPlan
  pin : Option PinnedFile

/-- Why a body gives up. -/
inductive EngineError where
  | handleNull
  | identityChanged (mismatch : PinMismatch)
  | delimiterEmpty
  | delimiterNull
  | delimiterTooLong
  | zeroPartitions
  | outChunkNull
  | indexOutOfBounds
  | boundsOverflow
  | panicked
  deriving Repr, DecidableEq

/-- The text it leaves behind, in the entry point `name`. -/
def EngineError.message (name : String) : EngineError → String
  | handleNull => "handle is null"
  | identityChanged mismatch => "file identity changed: " ++ mismatch.display
  | delimiterEmpty => "delimiter_len must be > 0"
  | delimiterNull => "delimiter is null"
  | delimiterTooLong => "delimiter_len exceeds supported range"
  | zeroPartitions => "requested_partitions must be > 0"
  | outChunkNull => "out_chunk is null"
  | indexOutOfBounds => "chunk index out of bounds"
  | boundsOverflow => "internal error: fixed chunk bounds overflow"
  | panicked => "internal error: panic in " ++ name

abbrev Body := Exec Engine EngineError

/-- `check_engine_pin`. -/
def checkEnginePin (engine : Engine) (stat : Stat) : Except PinMismatch Unit :=
  match engine.pin with
  | none => .ok ()
  | some pinned => pinned.revalidate stat

/-- What every call is given: the handle, null or of this engine, and the file system at
that moment. -/
structure Context where
  handleIsNull : Bool
  stat : Stat

/-- The null check of a handle. -/
def checkHandle (context : Context) : Body Unit :=
  throwIf (context.handleIsNull = true) .handleNull

/-- The pin gate of the planning calls. -/
def checkPin (context : Context) : Body Unit :=
  step fun engine => ((checkEnginePin engine context.stat).mapError .identityChanged, engine)

/-- A delimiter as C passes it: the memory at the pointer, unless it is null, and the
length. -/
structure DelimiterArg where
  memory : Option (Nat → UInt8)
  len : Nat

/-- `std::slice::from_raw_parts(delimiter, delimiter_len)`. -/
def DelimiterArg.bytes (delimiter : DelimiterArg) : List UInt8 :=
  match delimiter.memory with
  | none => []
  | some memory => (List.range delimiter.len).map memory

/-- The checks of a delimiter argument. -/
def checkDelimiter (delimiter : DelimiterArg) : Body Unit := do
  throwIf (delimiter.len = 0) .delimiterEmpty
  throwIf (delimiter.memory.isNone = true) .delimiterNull
  throwIf (isizeMax < delimiter.len) .delimiterTooLong

/-- `engine.plan = plan; engine.plan.len()`. -/
def setPlan (plan : ChunkPlan) : Body Nat := step fun engine => (.ok plan.len, { engine with plan })

/-- Store the ranges a scanner found, unless it panicked. -/
def setRanges (found : Option (List (Nat × Nat))) : Body Nat := do
  let ranges ← okOr found .panicked
  setPlan (.fromRanges ranges)

/-- `mmap_engine_scan_chunks_ex`. -/
def mmapEngineScanChunksEx (context : Context) (chunkSizeBytes : Nat) (delimiter : UInt8) :
    Body Nat := do
  checkHandle context
  checkPin context
  let engine ← current
  if engine.mmap.len = 0 then setPlan .empty
  else setRanges (findChunkBoundaries engine.mmap chunkSizeBytes delimiter)

/-- `mmap_engine_scan_chunks_pattern`, without a case for an empty file. -/
def mmapEngineScanChunksPattern (context : Context) (chunkSizeBytes : Nat)
    (delimiter : DelimiterArg) : Body Nat := do
  checkHandle context
  checkDelimiter delimiter
  checkPin context
  let engine ← current
  setRanges (findChunkBoundariesPattern engine.mmap chunkSizeBytes delimiter.bytes)

/-- `mmap_engine_scan_fixed`. -/
def mmapEngineScanFixed (context : Context) (chunkSizeBytes : Nat) : Body Nat := do
  checkHandle context
  checkPin context
  let engine ← current
  setPlan (.ofFixed engine.mmap.len chunkSizeBytes)

/-- `mmap_engine_partition_records`. -/
def mmapEnginePartitionRecords (context : Context) (requestedPartitions : Nat)
    (delimiter : UInt8) : Body Nat := do
  checkHandle context
  checkPin context
  let engine ← current
  if engine.mmap.len = 0 then setPlan .empty
  else
    throwIf (requestedPartitions = 0) .zeroPartitions
    setRanges (findPartitionBoundaries engine.mmap requestedPartitions delimiter)

/-- `mmap_engine_partition_records_pattern`. -/
def mmapEnginePartitionRecordsPattern (context : Context) (requestedPartitions : Nat)
    (delimiter : DelimiterArg) : Body Nat := do
  checkHandle context
  checkDelimiter delimiter
  checkPin context
  let engine ← current
  if engine.mmap.len = 0 then setPlan .empty
  else
    throwIf (requestedPartitions = 0) .zeroPartitions
    setRanges (findPartitionBoundariesPattern engine.mmap requestedPartitions delimiter.bytes)

/-- `CChunkView`. -/
structure CChunkView where
  data : Nat
  len : Nat
  deriving Repr, DecidableEq

/-- `mmap_engine_get_chunk`: the code it returns, and what it writes to `out_chunk`. -/
def mmapEngineGetChunk (context : Context) (index : Nat) (outChunkIsNull : Bool) :
    Body (Int × Option CChunkView) := do
  checkHandle context
  throwIf (outChunkIsNull = true) .outChunkNull
  let engine ← current
  throwIf (engine.plan.len ≤ index) .indexOutOfBounds
  let range ← okOr (engine.plan.rangeAt index engine.mmap.len) .boundsOverflow
  let len ← okOr (subU64 range.2 range.1) .panicked
  return (0, some ⟨engine.mmap.addr + range.1, len⟩)

/-! ### Calls -/

/-- What a call works on: the engine and the error buffer of the thread. -/
structure Session where
  engine : Engine
  errorBuffer : ErrorBuffer

/-- What is left of a body that has ended: its value, or `failed` and an error text. -/
def settle {α : Type} (name : String) (failed : α) (buf : ErrorBuffer) :
    Except EngineError α × Engine → α × Session
  | (.ok a, engine) => (a, ⟨engine, buf⟩)
  | (.error e, engine) => (failed, ⟨engine, setError (e.message name) buf⟩)

/-- An entry point: its body behind `catch_unwind`, with the error cleared first. -/
def entryPoint {α : Type} (name : String) (failed : α) (body : Body α) (s : Session) :
    Option (α × Session) :=
  (runFrom body s.engine).map (settle name failed (clearError s.errorBuffer))

/-- The planning calls. -/
inductive Request where
  | scanChunksEx (chunkSizeBytes : Nat) (delimiter : UInt8)
  | scanChunksPattern (chunkSizeBytes : Nat) (delimiter : DelimiterArg)
  | scanFixed (chunkSizeBytes : Nat)
  | partitionRecords (requestedPartitions : Nat) (delimiter : UInt8)
  | partitionRecordsPattern (requestedPartitions : Nat) (delimiter : DelimiterArg)

/-- The name in the text of a panic. -/
def Request.symbol : Request → String
  | scanChunksEx _ _ => "mmap_engine_scan_chunks"
  | scanChunksPattern _ _ => "mmap_engine_scan_chunks_pattern"
  | scanFixed _ => "mmap_engine_scan_fixed"
  | partitionRecords _ _ => "mmap_engine_partition_records"
  | partitionRecordsPattern _ _ => "mmap_engine_partition_records_pattern"

def Request.body (context : Context) : Request → Body Nat
  | scanChunksEx size delimiter => mmapEngineScanChunksEx context size delimiter
  | scanChunksPattern size delimiter => mmapEngineScanChunksPattern context size delimiter
  | scanFixed size => mmapEngineScanFixed context size
  | partitionRecords n delimiter => mmapEnginePartitionRecords context n delimiter
  | partitionRecordsPattern n delimiter => mmapEnginePartitionRecordsPattern context n delimiter

inductive Operation where
  | plan (request : Request)
  | getChunk (index : Nat) (outChunkIsNull : Bool)

structure Input where
  context : Context
  operation : Operation

/-- What C sees of a call: a count, or a code and a view. -/
inductive Outcome where
  | count (n : Nat)
  | chunk (code : Int) (view : Option CChunkView)
  deriving Repr, DecidableEq

/-- One call of the interface. -/
def engineStep (input : Input) (s : Session) : Option (Outcome × Session) :=
  match input.operation with
  | .plan request =>
      (entryPoint request.symbol 0 (request.body input.context) s).map fun (n, s') => (.count n, s')
  | .getChunk index outChunkIsNull =>
      (entryPoint "mmap_engine_get_chunk" (-1, none)
        (mmapEngineGetChunk input.context index outChunkIsNull) s).map
        fun (answer, s') => (.chunk answer.1 answer.2, s')

/-- The session after `mmap_engine_open` or `mmap_engine_open_pinned`. -/
def opened (mmap : Slice) (pin : Option PinnedFile) (errorBuffer : ErrorBuffer) : Session :=
  ⟨⟨mmap, .empty, pin⟩, errorBuffer⟩

/-! ### What a request asks for -/

/-- The ranges a request asks for. -/
def Request.layout (xs : List UInt8) : Request → List (Nat × Nat)
  | scanChunksEx size delimiter => chunkPlan [delimiter] xs size
  | scanChunksPattern size delimiter => chunkPlan delimiter.bytes xs size
  | scanFixed size => evenRanges xs.length (max size 1)
  | partitionRecords n delimiter => partitionPlan xs n [delimiter]
  | partitionRecordsPattern n delimiter => partitionPlan xs n delimiter.bytes

/-- The plan that is stored for it. -/
def Request.stored (mmap : Slice) : Request → ChunkPlan
  | scanFixed size => .ofFixed mmap.len size
  | request => .fromRanges (request.layout mmap.bytes)

/-- A delimiter argument that passes its checks. -/
def DelimiterArg.Valid (delimiter : DelimiterArg) : Prop :=
  ¬delimiter.len = 0 ∧ ¬delimiter.memory.isNone = true ∧ ¬isizeMax < delimiter.len

def Request.DelimiterValid : Request → Prop
  | scanChunksPattern _ delimiter => delimiter.Valid
  | partitionRecordsPattern _ delimiter => delimiter.Valid
  | _ => True

/-- The request asks for at least one part, if it asks for a number of parts. -/
def Request.Feasible : Request → Prop
  | partitionRecords n _ => n ≠ 0
  | partitionRecordsPattern n _ => n ≠ 0
  | _ => True

/-- When a planning call succeeds. -/
structure Request.Accepted (request : Request) (context : Context) (engine : Engine) : Prop where
  handle : ¬context.handleIsNull = true
  delimiter : request.DelimiterValid
  pin : checkEnginePin engine context.stat = .ok ()
  feasible : engine.mmap.len = 0 ∨ request.Feasible

section Bodies

variable {engine : Engine}

theorem bytes_ne_nil {delimiter : DelimiterArg} (valid : delimiter.Valid) :
    delimiter.bytes ≠ [] := by
  obtain ⟨nonempty, notNull, -⟩ := valid
  unfold DelimiterArg.bytes
  cases memory : delimiter.memory with
  | none => exact (notNull (by rw [memory]; rfl)).elim
  | some memory =>
      intro isNil
      exact nonempty (List.range_eq_nil.mp (List.map_eq_nil_iff.mp isNil))

/-- An accepted request asks for ranges that tile the mapping. -/
theorem Request.tiles_layout {request : Request} (xs : List UInt8)
    (valid : request.DelimiterValid) : Tiles 0 xs.length (request.layout xs) := by
  cases request with
  | scanChunksEx size delimiter => exact tiles_chunkPlan (List.cons_ne_nil _ _) xs size
  | scanChunksPattern size delimiter => exact tiles_chunkPlan (bytes_ne_nil valid) xs size
  | scanFixed size => exact tiles_evenRanges (by omega) xs.length
  | partitionRecords n delimiter => exact tiles_partitionPlan (List.cons_ne_nil _ _) xs n
  | partitionRecordsPattern n delimiter => exact tiles_partitionPlan (bytes_ne_nil valid) xs n

theorem Request.lays_stored (request : Request) (mmap : Slice) :
    (request.stored mmap).Lays mmap.len (request.layout mmap.bytes) := by
  cases request with
  | scanFixed size => exact ChunkPlan.lays_ofFixed mmap.len_le_usizeMax size
  | _ => exact ChunkPlan.lays_fromRanges _ _

/-! ### A planning call is all or nothing -/

theorem checkHandle_atomic (context : Context) :
    Atomic (checkHandle context) engine (¬context.handleIsNull = true) () engine :=
  .throwIf _ _

theorem checkPin_atomic (context : Context) :
    Atomic (checkPin context) engine (checkEnginePin engine context.stat = .ok ()) () engine := by
  cases live : checkEnginePin engine context.stat with
  | ok =>
      refine ⟨fun _ => ?_, fun fails => (fails rfl).elim⟩
      rw [checkPin, runFrom_step, live]
      rfl
  | error mismatch =>
      refine ⟨fun passes => (by cases passes), fun _ => ⟨.identityChanged mismatch, ?_⟩⟩
      rw [checkPin, runFrom_step, live]
      rfl

theorem checkDelimiter_atomic (delimiter : DelimiterArg) :
    Atomic (checkDelimiter delimiter) engine delimiter.Valid () engine :=
  (Atomic.throwIf _ _).bind fun _ => (Atomic.throwIf _ _).bind fun _ => .throwIf _ _

/-- The engine with the plan for `layout`. -/
def Engine.planned (engine : Engine) (layout : List (Nat × Nat)) : Engine :=
  { engine with plan := .fromRanges layout }

theorem setRanges_atomic {found : Option (List (Nat × Nat))} {p : Prop} [Decidable p]
    {layout : List (Nat × Nat)} (eq : found = if p then some layout else none) :
    Atomic (setRanges found) engine p layout.length (engine.planned layout) := by
  have stored := (ChunkPlan.lays_fromRanges layout engine.mmap.len).len_eq
  refine ((Atomic.okOr eq EngineError.panicked engine).bind fun _ => ?_).congr
    (Iff.of_eq (and_true p))
  refine .step trivial ?_
  rw [stored]
  rfl

/-- The case of an empty mapping agrees with the general one. -/
theorem ite_empty_atomic {rest : Body Nat} {p : Prop} {layout : List (Nat × Nat)}
    (tiles : Tiles 0 engine.mmap.len layout)
    (atomic : Atomic rest engine p layout.length (engine.planned layout)) :
    Atomic (if engine.mmap.len = 0 then setPlan .empty else rest) engine
      (engine.mmap.len = 0 ∨ p) layout.length (engine.planned layout) := by
  by_cases isEmpty : engine.mmap.len = 0
  · have isNil : layout = [] := tiles.eq_nil_iff.mpr isEmpty.symm
    rw [if_pos isEmpty, isNil]
    exact .step (.inl isEmpty) rfl
  · rw [if_neg isEmpty]
    exact atomic.congr (or_iff_right isEmpty).symm

theorem setPartitions_atomic {found : Option (List (Nat × Nat))} {n : Nat}
    {layout : List (Nat × Nat)} (eq : n ≠ 0 → found = some layout) :
    Atomic (do throwIf (n = 0) .zeroPartitions; setRanges found) engine (n ≠ 0) layout.length
      (engine.planned layout) := by
  refine ((Atomic.throwIf _ _).bind fun some_ => ?_).congr (Iff.of_eq (and_true _))
  exact setRanges_atomic (by rw [eq some_, if_pos trivial])

/-- **A planning body stores the plan of an accepted request and returns its count;
otherwise it gives up and leaves the engine as it was.** -/
theorem Request.body_atomic (request : Request) (context : Context) (engine : Engine) :
    Atomic (request.body context) engine (request.Accepted context engine)
      (request.layout engine.mmap.bytes).length
      { engine with plan := request.stored engine.mmap } := by
  cases request with
  | scanChunksEx size delimiter =>
      refine Atomic.congr ((checkHandle_atomic context).bind fun _ =>
        (checkPin_atomic context).bind fun _ => .current <|
          ite_empty_atomic (tiles_chunkPlan (List.cons_ne_nil _ _) _ size) <|
            setRanges_atomic (p := True) <|
              (findChunkBoundaries_eq engine.mmap size delimiter).trans (if_pos trivial).symm) ?_
      exact ⟨fun ⟨handle, pin, feasible⟩ => ⟨handle, trivial, pin, feasible⟩,
        fun ⟨handle, _, pin, feasible⟩ => ⟨handle, pin, feasible⟩⟩
  | scanChunksPattern size delimiter =>
      refine Atomic.congr ((checkHandle_atomic context).bind fun _ =>
        (checkDelimiter_atomic delimiter).bind fun valid =>
          (checkPin_atomic context).bind fun _ => .current <|
            setRanges_atomic (p := True) <|
              (findChunkBoundariesPattern_eq engine.mmap size (bytes_ne_nil valid)).trans
                (if_pos trivial).symm) ?_
      exact ⟨fun ⟨handle, valid, pin, _⟩ => ⟨handle, valid, pin, .inr trivial⟩,
        fun ⟨handle, valid, pin, _⟩ => ⟨handle, valid, pin, trivial⟩⟩
  | scanFixed size =>
      have stored := ((scanFixed size).lays_stored engine.mmap).len_eq
      refine Atomic.congr ((checkHandle_atomic context).bind fun _ =>
        (checkPin_atomic context).bind fun _ => .current <|
          .step trivial (by rw [← stored]; rfl)) ?_
      exact ⟨fun ⟨handle, pin, _⟩ => ⟨handle, trivial, pin, .inr trivial⟩,
        fun ⟨handle, _, pin, _⟩ => ⟨handle, pin, trivial⟩⟩
  | partitionRecords n delimiter =>
      refine Atomic.congr ((checkHandle_atomic context).bind fun _ =>
        (checkPin_atomic context).bind fun _ => .current <|
          ite_empty_atomic (tiles_partitionPlan (List.cons_ne_nil _ _) _ n) <|
            setPartitions_atomic fun some_ =>
              findPartitionBoundaries_eq engine.mmap (Nat.one_le_iff_ne_zero.mpr some_)
                delimiter) ?_
      exact ⟨fun ⟨handle, pin, feasible⟩ => ⟨handle, trivial, pin, feasible⟩,
        fun ⟨handle, _, pin, feasible⟩ => ⟨handle, pin, feasible⟩⟩
  | partitionRecordsPattern n delimiter =>
      refine Atomic.congr ((checkHandle_atomic context).bind fun _ =>
        (checkDelimiter_atomic delimiter).bind fun valid =>
          (checkPin_atomic context).bind fun _ => .current <|
            ite_empty_atomic (tiles_partitionPlan (bytes_ne_nil valid) _ n) <|
              setPartitions_atomic fun some_ =>
                findPartitionBoundariesPattern_eq engine.mmap (Nat.one_le_iff_ne_zero.mpr some_)
                  (bytes_ne_nil valid)) ?_
      exact ⟨fun ⟨handle, valid, pin, feasible⟩ => ⟨handle, valid, pin, feasible⟩,
        fun ⟨handle, valid, pin, feasible⟩ => ⟨handle, valid, pin, feasible⟩⟩

/-! ### Reading the plan -/

/-- The view of a range of the mapping. -/
def chunkView (mmap : Slice) (range : Nat × Nat) : CChunkView :=
  ⟨mmap.addr + range.1, range.2 - range.1⟩

theorem getElem?_eq_getD {layout : List (Nat × Nat)} {index : Nat}
    (within : index < layout.length) :
    layout[index]? = some (layout.getD index (0, 0)) := by
  rw [List.getD_eq_getElem?_getD, List.getElem?_eq_getElem within, Option.getD_some]

/-- Of a plan that stands for `layout`, `mmap_engine_get_chunk` reads the ranges. -/
theorem getChunk_atomic {layout : List (Nat × Nat)} (context : Context) (index : Nat)
    (outChunkIsNull : Bool) (lays : engine.plan.Lays engine.mmap.len layout)
    (tiles : layout ≠ [] → Tiles 0 engine.mmap.len layout) :
    Atomic (mmapEngineGetChunk context index outChunkIsNull) engine
      (¬context.handleIsNull = true ∧ ¬outChunkIsNull = true ∧ index < layout.length)
      (0, some (chunkView engine.mmap (layout.getD index (0, 0)))) engine := by
  refine Atomic.congr ((checkHandle_atomic context).bind fun _ =>
    (Atomic.throwIf _ _).bind fun _ => .current <|
      (Atomic.throwIf (p := engine.plan.len ≤ index) _ _).bind (q := True) fun within => ?_) ?_
  · rw [lays.len_eq, Nat.not_le] at within
    have found := getElem?_eq_getD within
    have nonempty : layout ≠ [] := List.ne_nil_of_length_pos (by omega)
    generalize layout.getD index (0, 0) = range at found ⊢
    have ordered := (tiles nonempty).bounds (List.mem_of_getElem? found)
    rw [lays.rangeAt_eq, found, okOr_some, pure_bind, subU64_eq ordered.2.1.le, okOr_some,
      pure_bind]
    exact .pure trivial _ _
  · rw [lays.len_eq, Nat.not_le, and_true]

end Bodies

/-! ### The error a call leaves -/

theorem head?_asBytes_append {a : String} {byte : UInt8} (first : (asBytes a).head? = some byte)
    (b : String) : (asBytes (a ++ b)).head? = some byte := by
  have split : asBytes (a ++ b) = asBytes a ++ asBytes b := by
    unfold asBytes
    rw [String.toByteArray_append, ByteArray.data_append, Array.toList_append]
  rw [split, List.head?_append, first]
  rfl

/-- No error text starts with a zero byte. -/
theorem head?_asBytes_message (name : String) (e : EngineError) :
    ∃ byte, (asBytes (e.message name)).head? = some byte ∧ byte ≠ 0 := by
  cases e with
  | identityChanged mismatch => exact ⟨102, head?_asBytes_append rfl _, by decide⟩
  | panicked => exact ⟨105, head?_asBytes_append rfl _, by decide⟩
  | _ => exact ⟨_, rfl, by decide⟩

theorem lastError_setError (name : String) (e : EngineError) (buf : ErrorBuffer) :
    mmapEngineLastError (setError (e.message name) buf) ≠ none := by
  obtain ⟨byte, first, ne⟩ := head?_asBytes_message name e
  obtain ⟨rest, bytes⟩ := List.head?_eq_some_iff.mp first
  have written : (setError (e.message name) buf)[0] = byte := by
    rw [setError, bytes, Vector.getElem_ofFn]
    exact if_pos (Nat.lt_min.mpr ⟨Nat.succ_pos _, by decide⟩)
  rw [mmapEngineLastError, written, if_neg ne]
  exact Option.some_ne_none _

theorem lastError_clearError (buf : ErrorBuffer) :
    mmapEngineLastError (clearError buf) = none :=
  if_pos (Vector.getElem_set_self _)

/-! ### What a call does -/

/-- What a call does to a session whose plan stands for `layout`. -/
inductive Effect (layout : List (Nat × Nat)) (input : Input) (s : Session) :
    Outcome → Session → Prop where
  | planned {request : Request} {buf : ErrorBuffer} (asked : input.operation = .plan request)
      (accepted : request.Accepted input.context s.engine)
      (silent : mmapEngineLastError buf = none) :
      Effect layout input s (.count (request.layout s.engine.mmap.bytes).length)
        ⟨{ s.engine with plan := request.stored s.engine.mmap }, buf⟩
  | refused {request : Request} {buf : ErrorBuffer} (asked : input.operation = .plan request)
      (unaccepted : ¬request.Accepted input.context s.engine)
      (speaks : mmapEngineLastError buf ≠ none) :
      Effect layout input s (.count 0) ⟨s.engine, buf⟩
  | read {index : Nat} {outChunkIsNull : Bool} {range : Nat × Nat} {buf : ErrorBuffer}
      (asked : input.operation = .getChunk index outChunkIsNull)
      (handle : ¬input.context.handleIsNull = true) (out : ¬outChunkIsNull = true)
      (found : layout[index]? = some range) (silent : mmapEngineLastError buf = none) :
      Effect layout input s (.chunk 0 (some (chunkView s.engine.mmap range))) ⟨s.engine, buf⟩
  | unread {index : Nat} {outChunkIsNull : Bool} {buf : ErrorBuffer}
      (asked : input.operation = .getChunk index outChunkIsNull)
      (missing : ¬(¬input.context.handleIsNull = true ∧ ¬outChunkIsNull = true ∧
        index < layout.length))
      (speaks : mmapEngineLastError buf ≠ none) :
      Effect layout input s (.chunk (-1) none) ⟨s.engine, buf⟩

/-- An entry point with an all-or-nothing body: what it returns, and whether it left an
error. -/
theorem entryPoint_atomic {α : Type} {body : Body α} {s : Session} {p : Prop} {a : α}
    {engine : Engine} (atomic : Atomic body s.engine p a engine) (name : String) (failed : α) :
    (p ∧ ∃ buf, mmapEngineLastError buf = none ∧
      entryPoint name failed body s = some (a, ⟨engine, buf⟩)) ∨
    (¬p ∧ ∃ buf, mmapEngineLastError buf ≠ none ∧
      entryPoint name failed body s = some (failed, ⟨s.engine, buf⟩)) := by
  by_cases holds : p
  · refine .inl ⟨holds, _, lastError_clearError s.errorBuffer, ?_⟩
    rw [entryPoint, atomic.1 holds]
    rfl
  · obtain ⟨e, ran⟩ := atomic.2 holds
    refine .inr ⟨holds, _, lastError_setError name e (clearError s.errorBuffer), ?_⟩
    rw [entryPoint, ran]
    rfl

/-- No call panics through the interface, and each does what `Effect` says. -/
theorem engineStep_effect {layout : List (Nat × Nat)} {s : Session}
    (lays : s.engine.plan.Lays s.engine.mmap.len layout)
    (tiles : layout ≠ [] → Tiles 0 s.engine.mmap.len layout) (input : Input) :
    ∃ outcome after, engineStep input s = some (outcome, after) ∧
      Effect layout input s outcome after := by
  unfold engineStep
  cases asked : input.operation with
  | plan request =>
      rcases entryPoint_atomic (request.body_atomic input.context s.engine) request.symbol 0 with
        ⟨accepted, buf, silent, ran⟩ | ⟨unaccepted, buf, speaks, ran⟩
      · dsimp only
        rw [ran]
        exact ⟨_, _, rfl, .planned asked accepted silent⟩
      · dsimp only
        rw [ran]
        exact ⟨_, _, rfl, .refused asked unaccepted speaks⟩
  | getChunk index outChunkIsNull =>
      rcases entryPoint_atomic (getChunk_atomic input.context index outChunkIsNull lays tiles)
        "mmap_engine_get_chunk" (-1, none) with
        ⟨⟨handle, out, within⟩, buf, silent, ran⟩ | ⟨missing, buf, speaks, ran⟩
      · dsimp only
        rw [ran]
        exact ⟨_, _, rfl, .read asked handle out (getElem?_eq_getD within) silent⟩
      · dsimp only
        rw [ran]
        exact ⟨_, _, rfl, .unread asked missing speaks⟩

/-! ### Runs -/

abbrev EngineCall := Call Input Session Outcome

/-- The call left an error text. -/
def ErrorSet (call : EngineCall) : Prop := mmapEngineLastError call.after.errorBuffer ≠ none

instance (call : EngineCall) : Decidable (ErrorSet call) :=
  inferInstanceAs (Decidable (_ ≠ _))

/-- A planning call that left no error: the count it returned, and its request. -/
def plannedBy (call : EngineCall) : Option (Nat × Request) :=
  match call.outcome, call.input.operation with
  | .count n, .plan request => if ErrorSet call then none else some (n, request)
  | _, _ => none

/-- The most recent planning call that left no error. -/
def lastPlanned (calls : List EngineCall) : Option (Nat × Request) :=
  calls.reverse.findSome? plannedBy

/-- The count it returned. -/
def lastCount (calls : List EngineCall) : Nat :=
  match lastPlanned calls with
  | none => 0
  | some (n, _) => n

/-- The ranges it asked for. -/
def lastLayout (xs : List UInt8) (calls : List EngineCall) : List (Nat × Nat) :=
  match lastPlanned calls with
  | none => []
  | some (_, request) => request.layout xs

/-- A call fails: its request is not accepted, or it returns -1. -/
def Failed (call : EngineCall) : Prop :=
  match call.input.operation with
  | .plan request => ¬request.Accepted call.input.context call.before.engine
  | .getChunk _ _ => ∃ view, call.outcome = .chunk (-1) view

/-- What the interface promises of a call, given the calls before it. -/
structure Contract (mmap : Slice) (earlier : List EngineCall) (call : EngineCall) : Prop where
  /-- A planning call with an error returns 0 and leaves the plan as it was. -/
  unchanged : ∀ request, call.input.operation = .plan request → ErrorSet call →
    call.outcome = .count 0 ∧ call.after.engine.plan = call.before.engine.plan
  /-- A planning call that returns 0 without one has found an empty file. -/
  nothing : ∀ request, call.input.operation = .plan request → call.outcome = .count 0 →
    ¬ErrorSet call → mmap.len = 0
  /-- A chunk is there exactly below the last count. -/
  readable : ∀ index outChunkIsNull, call.input.operation = .getChunk index outChunkIsNull →
    ((∃ view, call.outcome = .chunk 0 view) ↔
      ¬call.input.context.handleIsNull = true ∧ ¬outChunkIsNull = true ∧
        index < lastCount earlier)
  /-- It is the range with that index, and lies in the mapping. -/
  view : ∀ index outChunkIsNull view,
    call.input.operation = .getChunk index outChunkIsNull → call.outcome = .chunk 0 view →
    ∃ range, (lastLayout mmap.bytes earlier)[index]? = some range ∧
      range.1 < range.2 ∧ range.2 ≤ mmap.len ∧ view = some (chunkView mmap range)
  /-- The error text tells whether the call failed. -/
  error : ErrorSet call ↔ Failed call

/-- What holds after a run: the stored plan stands for the ranges of the last planning
call, and every call has kept the contract. -/
structure Invariant (mmap : Slice) (calls : List EngineCall) (s : Session) : Prop where
  mmap_eq : s.engine.mmap = mmap
  lays : s.engine.plan.Lays mmap.len (lastLayout mmap.bytes calls)
  tiles : lastLayout mmap.bytes calls ≠ [] → Tiles 0 mmap.len (lastLayout mmap.bytes calls)
  count : lastCount calls = (lastLayout mmap.bytes calls).length
  each : Each (Contract mmap) calls

section Runs

variable {mmap : Slice} {calls : List EngineCall} {call : EngineCall}

theorem lastPlanned_snoc (calls : List EngineCall) (call : EngineCall) :
    lastPlanned (calls ++ [call]) = (plannedBy call).or (lastPlanned calls) := by
  unfold lastPlanned
  rw [List.reverse_append, List.reverse_singleton, List.singleton_append, List.findSome?_cons]
  cases plannedBy call <;> rfl

/-- A call that planned nothing leaves the last plan the last one. -/
theorem Invariant.snoc_of_kept {s s' : Session} (holds : Invariant mmap calls s)
    (kept : s'.engine = s.engine) (nothing : plannedBy call = none)
    (contract : Contract mmap calls call) : Invariant mmap (calls ++ [call]) s' := by
  have same : lastPlanned (calls ++ [call]) = lastPlanned calls := by
    rw [lastPlanned_snoc, nothing, Option.none_or]
  have sameCount : lastCount (calls ++ [call]) = lastCount calls := by
    rw [lastCount, same, lastCount]
  have sameLayout : lastLayout mmap.bytes (calls ++ [call]) = lastLayout mmap.bytes calls := by
    rw [lastLayout, same, lastLayout]
  refine ⟨?_, ?_, ?_, ?_, holds.each.snoc contract⟩
  · rw [kept, holds.mmap_eq]
  · rw [kept, sameLayout]
    exact holds.lays
  · rw [sameLayout]
    exact holds.tiles
  · rw [sameCount, sameLayout, holds.count]

/-- A call that planned makes its request the last one. -/
theorem Invariant.snoc_of_planned {s s' : Session} {request : Request}
    (holds : Invariant mmap calls s) (valid : request.DelimiterValid)
    (stored : s'.engine = { s.engine with plan := request.stored mmap })
    (planned : plannedBy call = some ((request.layout mmap.bytes).length, request))
    (contract : Contract mmap calls call) : Invariant mmap (calls ++ [call]) s' := by
  have last : lastPlanned (calls ++ [call]) =
      some ((request.layout mmap.bytes).length, request) := by
    rw [lastPlanned_snoc, planned, Option.some_or]
  refine ⟨?_, ?_, fun _ => ?_, ?_, holds.each.snoc contract⟩
  · rw [stored]
    exact holds.mmap_eq
  · rw [stored, lastLayout, last]
    exact request.lays_stored mmap
  · rw [lastLayout, last]
    exact Request.tiles_layout mmap.bytes valid
  · rw [lastCount, lastLayout, last]

/-- Every call keeps the contract. -/
theorem Invariant.contract {s : Session} (holds : Invariant mmap calls s) {input : Input}
    {outcome : Outcome} {after : Session}
    (effect : Effect (lastLayout mmap.bytes calls) input s outcome after) :
    Contract mmap calls ⟨s, input, outcome, after⟩ := by
  obtain ⟨rfl, lays, tiles, count, -⟩ := holds
  cases effect with
  | @planned request buf asked accepted silent =>
      refine ⟨fun _ _ set => (set silent).elim, fun _ _ zero _ => ?_,
        fun _ _ other => ?_, fun _ _ _ other => ?_, ?_⟩
      · have none_ : request.layout s.engine.mmap.bytes = [] :=
          List.length_eq_zero_iff.mp (Outcome.count.inj zero)
        exact ((Request.tiles_layout _ accepted.delimiter).eq_nil_iff.mp none_).symm
      · cases asked.symm.trans other
      · cases asked.symm.trans other
      · refine ⟨fun set => (set silent).elim, fun failed => ?_⟩
        rw [Failed, asked] at failed
        exact (failed accepted).elim
  | @refused request buf asked unaccepted speaks =>
      refine ⟨fun _ _ _ => ⟨rfl, rfl⟩, fun _ _ _ unset => (unset speaks).elim,
        fun _ _ other => ?_, fun _ _ _ other => ?_, ?_⟩
      · cases asked.symm.trans other
      · cases asked.symm.trans other
      · refine ⟨fun _ => ?_, fun _ => speaks⟩
        rw [Failed, asked]
        exact unaccepted
  | @read index outChunkIsNull range buf asked handle out found silent =>
      obtain ⟨within, -⟩ := List.getElem?_eq_some_iff.mp found
      have bounds := (tiles (List.ne_nil_of_mem (List.mem_of_getElem? found))).bounds
        (List.mem_of_getElem? found)
      refine ⟨fun _ other => ?_, fun _ other => ?_, fun _ _ same => ?_, fun _ _ _ same eq => ?_, ?_⟩
      · cases asked.symm.trans other
      · cases asked.symm.trans other
      · cases asked.symm.trans same
        exact ⟨fun _ => ⟨handle, out, count ▸ within⟩, fun _ => ⟨_, rfl⟩⟩
      · cases asked.symm.trans same
        exact ⟨range, found, bounds.2.1, bounds.2.2, (Outcome.chunk.inj eq).2.symm⟩
      · refine ⟨fun set => (set silent).elim, fun failed => ?_⟩
        rw [Failed, asked] at failed
        obtain ⟨view, failed⟩ := failed
        cases failed
  | @unread index outChunkIsNull buf asked missing speaks =>
      refine ⟨fun _ other => ?_, fun _ other => ?_, fun _ _ same => ?_, fun _ _ _ _ eq => ?_, ?_⟩
      · cases asked.symm.trans other
      · cases asked.symm.trans other
      · cases asked.symm.trans same
        rw [count]
        exact ⟨fun ⟨_, eq⟩ => (by cases eq), fun there => (missing there).elim⟩
      · cases eq
      · refine ⟨fun _ => ?_, fun _ => speaks⟩
        rw [Failed, asked]
        exact ⟨none, rfl⟩

/-- Every call keeps the invariant. -/
theorem Invariant.snoc {s : Session} (holds : Invariant mmap calls s) {input : Input}
    {outcome : Outcome} {after : Session}
    (effect : Effect (lastLayout mmap.bytes calls) input s outcome after) :
    Invariant mmap (calls ++ [⟨s, input, outcome, after⟩]) after := by
  have contract := holds.contract effect
  have same := holds.mmap_eq
  cases effect with
  | planned asked accepted silent =>
      refine holds.snoc_of_planned accepted.delimiter (by rw [same]) ?_ contract
      rw [plannedBy, asked, same]
      exact if_neg (not_not.mpr silent)
  | refused asked unaccepted speaks =>
      refine holds.snoc_of_kept rfl ?_ contract
      rw [plannedBy, asked]
      exact if_pos speaks
  | read _ _ _ _ _ => exact holds.snoc_of_kept rfl rfl contract
  | unread _ _ _ => exact holds.snoc_of_kept rfl rfl contract

end Runs

/-- **The engine contract.** Every sequence of calls runs to its end. The plan stored
after it is empty or stands for ranges that tile the mapping, and every call keeps the
contract; the delimiters, sizes, counts and indices may be any, as may what the file
system reports at each call. -/
theorem engine_contract (mmap : Slice) (pin : Option PinnedFile) (errorBuffer : ErrorBuffer)
    (inputs : List Input) :
    ∃ calls s, Run engineStep (opened mmap pin errorBuffer) calls s ∧
      calls.map Call.input = inputs ∧ s.engine.plan.Covers mmap.len ∧
      Each (Contract mmap) calls := by
  obtain ⟨calls, s, run, same, holds⟩ := exists_run engineStep (opened mmap pin errorBuffer)
    (Invariant mmap)
    ⟨rfl, ChunkPlan.lays_empty mmap.len, fun some_ => (some_ rfl).elim, rfl, each_nil⟩
    (fun calls input before holds => by
      obtain ⟨outcome, after, stepped, effect⟩ := engineStep_effect
        (by rw [holds.mmap_eq]; exact holds.lays) (by rw [holds.mmap_eq]; exact holds.tiles) input
      exact ⟨outcome, after, stepped, holds.snoc effect⟩)
    inputs
  exact ⟨calls, s, run, same, holds.lays.covers holds.tiles, holds.each⟩

end Ffi
