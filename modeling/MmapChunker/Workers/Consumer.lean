import Mathlib.Data.Multiset.Sort
import MmapChunker.Command.Run
import MmapChunker.Python.Datatrove
import MmapChunker.Theory.Dict

/-!
A consumer of `partition-files` (`examples/jsonl_multi_file_workers.py`).

The parent runs the planner, parses its table, groups the rows by worker and hands each
group to a worker process. A worker opens the sources of its rows, reads each range and
counts the records in it. The parent adds up what the workers report.

The planner process, the files and the JSON parser are parameters. The workers share
nothing, so all that the pool decides is which tasks have completed when the time is up,
and in which order.

`parsePlan_writeAssignments` says that the table is read back.
-/

namespace Workers

open Machine Text Python
open Command (Completed)
open Source (OsString)

/-! ### Source -/

/-- `RangeRow`. -/
structure RangeRow where
  workerIndex : Int
  sourceIndex : Int
  start : Int
  endExclusive : Int
  length : Int
  deriving Repr, DecidableEq

/-- `type(error).__name__`. -/
def exceptionName : ExceptionType → String
  | .typeError => "TypeError"
  | .valueError => "ValueError"
  | .overflowError => "OverflowError"
  | .indexError => "IndexError"
  | .keyError => "KeyError"
  | .attributeError => "AttributeError"
  | .eofError => "EOFError"
  | .unicodeDecodeError => "UnicodeDecodeError"
  | .jsonDecodeError => "JSONDecodeError"
  | .osError => "OSError"
  | .fileNotFoundError => "FileNotFoundError"
  | .isADirectoryError => "IsADirectoryError"
  | .nativeLibraryError => "NativeLibraryError"
  | .planningError => "PlanningError"
  | .other name => name

/-- `except OSError`. -/
def isOSError (type : ExceptionType) : Bool :=
  type = .osError ∨ type = .fileNotFoundError ∨ type = .isADirectoryError

/-- `except (TypeError, ValueError)`. -/
def isTypeOrValueError (type : ExceptionType) : Bool :=
  type = .typeError ∨ type = .valueError ∨ type = .unicodeDecodeError ∨ type = .jsonDecodeError

/-- `AssertionError(message)`. -/
def assertionError (message : String) : PyException := ⟨.other "AssertionError", message⟩

/-- `RuntimeError(message)`. -/
def runtimeError (message : String) : PyException := ⟨.other "RuntimeError", message⟩

/-- `sys.get_int_max_str_digits()`. -/
def maxStrDigits : Nat := 4300

/-- One iteration of the loop of `parse_plan`. -/
def parseLine (line : List Char) (lineNumber : Nat) : Except PyException RangeRow :=
  let fields := line.splitOn '\t'
  if fields.length ≠ 5 then
    .error (assertionError s!"line {lineNumber} has {fields.length} fields, expected five")
  else
    match fields.mapM (readInt maxStrDigits) with
    | some [workerIndex, sourceIndex, start, endExclusive, length] =>
        .ok ⟨workerIndex, sourceIndex, start, endExclusive, length⟩
    | _ => .error (assertionError s!"line {lineNumber} contains a non-numeric field")

/-- `parse_plan`. -/
def parsePlan (stdout : List UInt8) : Except PyException (List RangeRow) :=
  match decodeAscii stdout with
  | none => .error (assertionError "planner TSV was not ASCII")
  | some text => ((splitlines text).zipIdx 1).mapM fun line => parseLine line.1 line.2

/-- `group_rows_by_worker`. -/
def groupRowsByWorker (rows : List RangeRow) : List (Int × List RangeRow) :=
  Dict.group RangeRow.workerIndex rows

/-- What the consumer reads of a record. -/
structure JsonlRecord where
  id : Int
  value : Int
  deriving Repr, DecidableEq

/-- `int(value)`, if `isinstance(value, int)`. -/
def jsonInteger : Json → Option Int
  | .int n => some n
  | .bool b => some (if b then 1 else 0)
  | _ => none

/-- `json.loads`, of bytes. -/
abbrev JsonLoads := List UInt8 → Except PyException Json

/-- One iteration of the loop of `decode_records`. -/
def decodeRecord (loads : JsonLoads) (raw : List UInt8) : Except PyException JsonlRecord :=
  match loads raw with
  | .error e => .error e
  | .ok (.dict entries) =>
      match (entries.lookup "id").bind jsonInteger, (entries.lookup "value").bind jsonInteger with
      | none, _ => .error ⟨.valueError, "assigned record has no integer id"⟩
      | some _, none => .error ⟨.valueError, "assigned record has no integer value"⟩
      | some id, some value => .ok ⟨id, value⟩
  | .ok _ => .error ⟨.valueError, "assigned record is not a JSON object"⟩

/-- `data.split(bytes((delimiter,)))`, without an empty part at the end. -/
def splitRecords (data : List UInt8) (delimiter : UInt8) : List (List UInt8) :=
  let parts := data.splitOn delimiter
  if parts.getLast? = some [] then parts.dropLast else parts

/-- `decode_records`. -/
def decodeRecords (loads : JsonLoads) (data : List UInt8) (delimiter : UInt8) :
    Except PyException (List JsonlRecord) :=
  let parts := splitRecords data delimiter
  if [] ∈ parts then .error ⟨.valueError, "assigned range contains an empty JSONL record"⟩
  else parts.mapM (decodeRecord loads)

/-- `WorkerTask`. -/
structure WorkerTask where
  workerIndex : Int
  sourcePaths : List String
  rows : List RangeRow
  delimiter : UInt8

/-- What a worker, or all of them together, have read. A `Counter` is the multiset of its
elements. -/
structure Tally where
  valueSum : Int
  processedBytes : Nat
  observedKeys : Multiset (Int × Int)
  deriving DecidableEq

namespace Tally

/-- `record_count`. -/
def recordCount (tally : Tally) : Nat := tally.observedKeys.card

/-- The tally with what another one has. -/
def plus (tally more : Tally) : Tally :=
  ⟨tally.valueSum + more.valueSum, tally.processedBytes + more.processedBytes,
    tally.observedKeys + more.observedKeys⟩

end Tally

/-- What `worker_main` returns. -/
inductive WorkerResult where
  | done (worker : Int) (tally : Tally)
  | failed (worker : Int) (error : String)

/-- `items[index]` of a tuple. -/
def tupleItem {α : Type} (items : List α) (index : Int) : Except PyException α :=
  let position := if index < 0 then index + items.length else index
  if position < 0 then .error ⟨.indexError, "tuple index out of range"⟩
  else
    match items[position.toNat]? with
    | none => .error ⟨.indexError, "tuple index out of range"⟩
    | some item => .ok item

/-- `handle.read(length)`, for a file that is read up to `offset`. There is memory for what
is asked for. -/
def readBytes (file : List UInt8) (offset : Nat) (length : Int) :
    Except PyException (List UInt8) :=
  if length < -1 then .error ⟨.valueError, "read length must be non-negative or -1"⟩
  else if length = -1 then .ok (file.drop offset)
  else if (isizeMax : Int) < length then
    .error ⟨.overflowError, "cannot fit 'int' into an index-sized integer"⟩
  else .ok ((file.drop offset).take length.toNat)

/-- A source that is open: its bytes, and the last position its file system allows. -/
structure SourceHandle where
  file : List UInt8
  maxOffset : Nat

/-- `open(source_paths[source_index], "rb")` in `worker_main`. -/
def openSource (env : Environment) (task : WorkerTask) (sourceIndex : Int) :
    Except PyException (Int × SourceHandle) := do
  let path ← tupleItem task.sourcePaths sourceIndex
  match env.openBinary path with
  | .ok file => return (sourceIndex, ⟨file, env.maxOffset path⟩)
  | .error e =>
      if isOSError e.type then
        throw ⟨.osError, s!"worker={task.workerIndex} source={sourceIndex} open failed: " ++
          e.message⟩
      else throw e

/-- `handles[source_index]`. -/
def handleOf (handles : List (Int × SourceHandle)) (sourceIndex : Int) :
    Except PyException SourceHandle :=
  match handles.lookup sourceIndex with
  | none => .error ⟨.keyError, toString sourceIndex⟩
  | some handle => .ok handle

/-- One iteration of the loop over `rows` in `worker_main`. -/
def processRow (loads : JsonLoads) (task : WorkerTask) (handles : List (Int × SourceHandle))
    (tally : Tally) (row : RangeRow) : Except PyException Tally := do
  let handle ← handleOf handles row.sourceIndex
  let offset ← seek handle.maxOffset row.start
  let data ← readBytes handle.file offset row.length
  if (data.length : Int) ≠ row.length then
    throw ⟨.osError, s!"worker={task.workerIndex} source={row.sourceIndex} short read: " ++
      s!"expected {row.length}, got {data.length}"⟩
  match decodeRecords loads data task.delimiter with
  | .error e =>
      if isTypeOrValueError e.type then
        throw ⟨.valueError, s!"worker={task.workerIndex} source={row.sourceIndex} " ++
          "parse failed: " ++ e.message⟩
      else throw e
  | .ok records =>
      return records.foldl
        (fun tally record =>
          { tally with
            observedKeys := (row.sourceIndex, record.id) ::ₘ tally.observedKeys
            valueSum := tally.valueSum + record.value })
        { tally with processedBytes := tally.processedBytes + data.length }

/-- The `try` of `worker_main`. -/
def runTask (env : Environment) (loads : JsonLoads) (task : WorkerTask) :
    Except PyException Tally := do
  let indices := (task.rows.map RangeRow.sourceIndex).dedup.mergeSort (· ≤ ·)
  let handles ← indices.mapM (openSource env task)
  task.rows.foldlM (processRow loads task handles) ⟨0, 0, 0⟩

/-- `worker_main`. -/
def workerMain (env : Environment) (loads : JsonLoads) (task : WorkerTask) : WorkerResult :=
  match runTask env loads task with
  | .ok tally => .done task.workerIndex tally
  | .error e => .failed task.workerIndex (exceptionName e.type ++ ": " ++ e.message)

/-- The slot of a task is filled when the task completes. -/
def completeTask (target : WorkerTask → WorkerResult) (tasks : List WorkerTask)
    (slots : List (Option WorkerResult)) (index : Nat) : List (Option WorkerResult) :=
  match tasks[index]? with
  | some task => slots.set index (some (target task))
  | none => slots

/-- `pool.map_async(target, tasks)` and `pending.get(timeout)`: the results in the order of
the tasks, if all of them are there. `completed` are the indices of the tasks that complete
in time, in the order in which they do. -/
def mapAsync (target : WorkerTask → WorkerResult) (tasks : List WorkerTask)
    (completed : List Nat) : Option (List WorkerResult) :=
  (completed.foldl (completeTask target tasks) (tasks.map fun _ => none)).mapM id

/-- The worker and the error of a result that is not `ok`. -/
def WorkerResult.failure? : WorkerResult → Option (Int × String)
  | done _ _ => none
  | failed worker error => some (worker, error)

/-- What a result adds up to. -/
def WorkerResult.tally? : WorkerResult → Option Tally
  | done _ tally => some tally
  | failed _ _ => none

/-- The tasks of `execute_workers`. -/
def workerTasks (paths : List String) (rows : List RangeRow) (delimiter : UInt8) :
    List WorkerTask :=
  let grouped := groupRowsByWorker rows
  ((Dict.keys grouped).mergeSort (· ≤ ·)).map fun workerIndex =>
    ⟨workerIndex, paths, (grouped.lookup workerIndex).getD [], delimiter⟩

/-- The text of a list of integers. -/
def listText (items : List Int) : String :=
  "[" ++ ", ".intercalate (items.map toString) ++ "]"

/-- `execute_workers`. `timeoutText` is the timeout, with one decimal. -/
def executeWorkers (target : WorkerTask → WorkerResult) (timeoutText : String)
    (completed : List Nat) (paths : List String) (rows : List RangeRow) (delimiter : UInt8) :
    Except PyException Tally :=
  if (groupRowsByWorker rows).isEmpty then .ok ⟨0, 0, 0⟩
  else
    let tasks := workerTasks paths rows delimiter
    match mapAsync target tasks completed with
    | none =>
        .error ⟨.other "TimeoutError", "worker phase timed out after " ++ timeoutText ++
          "s; workers=" ++ listText (tasks.map WorkerTask.workerIndex)⟩
    | some results =>
        let failures := (results.filterMap WorkerResult.failure?).mergeSort (·.1 ≤ ·.1)
        match failures with
        | (worker, error) :: _ =>
            .error (runtimeError (s!"worker phase failed: worker={worker} error=" ++ error))
        | [] => .ok ((results.filterMap WorkerResult.tally?).foldl Tally.plus ⟨0, 0, 0⟩)

/-- `str(n)`. -/
def decimal (n : Int) : String :=
  String.ofList (if n < 0 then '-' :: Nat.toDigits 10 n.natAbs else Nat.toDigits 10 n.natAbs)

/-- What `subprocess.run` comes to. -/
inductive Launched where
  | completed (process : Completed)
  | timeoutExpired
  | osError (text : String)

/-- The planner: its path, what running it comes to, and how its standard error is shown,
decoded and stripped or as `bytes`. -/
structure Planner where
  cli : String
  launch : List OsString → Launched
  stderrText : List UInt8 → String
  reprBytes : List UInt8 → String

/-- `DEFAULT_DELIMITER`. -/
def defaultDelimiter : UInt8 := 0x0A

/-- The arguments of `invoke_planner`, past the path of the planner. -/
def plannerArguments (paths : List String) (parts : Int) (delimiter : UInt8) : List OsString :=
  [.ofText "partition-files", .ofText "--parts", .ofText (decimal parts)] ++
    (if delimiter ≠ defaultDelimiter then
      [.ofText "--delimiter-byte", .ofText (decimal delimiter.toNat)] else []) ++
    paths.map .ofText

/-- `invoke_planner`. -/
def invokePlanner (planner : Planner) (paths : List String) (parts : Int) (delimiter : UInt8) :
    Except PyException (List UInt8) :=
  match planner.launch (plannerArguments paths parts delimiter) with
  | .timeoutExpired =>
      .error ⟨.other "TimeoutError", "planner phase timed out after 120.0s: " ++ planner.cli⟩
  | .osError text =>
      .error (runtimeError ("planner phase could not execute " ++ planner.cli ++ ": " ++ text))
  | .completed process =>
      if process.returncode ≠ 0 then
        .error (runtimeError (s!"planner phase failed: status={process.returncode} stderr=" ++
          planner.stderrText process.stderr))
      else if process.stderr ≠ [] then
        .error (runtimeError ("planner phase wrote unexpected stderr: " ++
          planner.reprBytes process.stderr))
      else .ok process.stdout

/-- What `main` prints. -/
structure Report where
  sourceCount : Nat
  requestedWorkers : Int
  actualWorkers : Nat
  ranges : Nat
  tally : Tally

/-- `main`, past the argument parser. -/
def runMain (planner : Planner) (target : WorkerTask → WorkerResult) (completed : List Nat)
    (paths : List String) (parts : Int) (delimiter : UInt8) : Except PyException Report := do
  if parts < 1 then throw ⟨.other "SystemExit", "--parts must be positive"⟩
  let stdout ← invokePlanner planner paths parts delimiter
  let rows ← parsePlan stdout
  let tally ← executeWorkers target "120.0" completed paths rows delimiter
  return ⟨paths.length, parts, (groupRowsByWorker rows).length, rows.length, tally⟩

/-! ### The table of the planner -/

/-- The ranges of the assignments, each with its worker. -/
def assignedRanges (assignments : List Cli.WorkerAssignment) : List (Nat × Cli.SourceRange) :=
  assignments.flatMap fun assignment => assignment.ranges.map (assignment.workerIndex, ·)

/-- A printed range as the consumer reads it. -/
def toRangeRow (assigned : Nat × Cli.SourceRange) : RangeRow :=
  ⟨assigned.1, assigned.2.sourceIndex, assigned.2.start, assigned.2.endExclusive,
    assigned.2.length⟩

/-- The rows of the printed assignments. -/
def rowsOfPlan (assignments : List Cli.WorkerAssignment) : List RangeRow :=
  (assignedRanges assignments).map toRangeRow

section Table

theorem length_toDigits_le {n : Nat} (small : n ≤ usizeMax) :
    (Nat.toDigits 10 n).length ≤ maxStrDigits := by
  have bound : (Nat.toDigits 10 n).length ≤ 20 := by
    rw [Nat.length_toDigits_le_iff (by decide) (by decide)]
    exact small.trans_lt (by decide)
  exact bound.trans (by decide)

/-- A printed row is read back. -/
theorem parseLine_rowText {a b c d e : Nat} (small : ∀ n ∈ [a, b, c, d, e], n ≤ usizeMax)
    (lineNumber : Nat) :
    parseLine (rowText [a, b, c, d, e]) lineNumber = .ok ⟨a, b, c, d, e⟩ := by
  have fields : (rowText [a, b, c, d, e]).splitOn '\t' =
      [a, b, c, d, e].map (Nat.toDigits 10) := splitOn_rowText (by simp)
  have read : ∀ n ∈ [a, b, c, d, e], readInt maxStrDigits (Nat.toDigits 10 n) = some (n : Int) :=
    fun n mem => readInt_toDigits (length_toDigits_le (small n mem))
  rw [parseLine, fields]
  simp only [List.mem_cons, List.not_mem_nil, or_false, forall_eq_or_imp, forall_eq] at read
  obtain ⟨ra, rb, rc, rd, re⟩ := read
  simp [List.mapM_cons, ra, rb, rc, rd, re]

/-- Lines that are read one by one are read in order. -/
theorem mapM_zipIdx {α β γ ε : Type} {f : β → Nat → Except ε γ} {h : α → β} {g : α → γ}
    {xs : List α} (eq : ∀ x ∈ xs, ∀ n, f (h x) n = .ok (g x)) (start : Nat) :
    ((xs.map h).zipIdx start).mapM (fun line => f line.1 line.2) = .ok (xs.map g) := by
  induction xs generalizing start with
  | nil => rfl
  | cons x xs ih =>
      obtain ⟨here, rest⟩ := List.forall_mem_cons.mp eq
      rw [List.map_cons, List.zipIdx_cons, List.mapM_cons, here, ih rest]
      rfl

/-- What `write_assignments` prints, `parse_plan` reads as the ranges that were printed, in
their order. -/
theorem parsePlan_writeAssignments {assignments : List Cli.WorkerAssignment}
    (small : ∀ assigned ∈ assignedRanges assignments, assigned.1 ≤ usizeMax ∧
      assigned.2.sourceIndex ≤ usizeMax ∧ assigned.2.start ≤ usizeMax ∧
      assigned.2.endExclusive ≤ usizeMax ∧ assigned.2.length ≤ usizeMax) :
    parsePlan (Command.writeAssignments assignments) = .ok (rowsOfPlan assignments) := by
  have lines : (assignments.flatMap fun assignment => assignment.ranges.map fun range =>
      [assignment.workerIndex, range.sourceIndex, range.start, range.endExclusive,
        range.length]) =
      (assignedRanges assignments).map fun assigned =>
        [assigned.1, assigned.2.sourceIndex, assigned.2.start, assigned.2.endExclusive,
          assigned.2.length] := by
    rw [assignedRanges, List.map_flatMap]
    simp only [List.map_map, Function.comp_def]
  rw [parsePlan, Command.writeAssignments, decodeAscii_encodeUtf8 (ascii_tableText _)]
  dsimp only
  rw [splitlines_tableText, lines, List.map_map]
  refine mapM_zipIdx (f := parseLine) (g := toRangeRow) (fun assigned mem n => ?_) 1
  obtain ⟨worker, source, start, stop, length⟩ := small assigned mem
  apply parseLine_rowText
  simp only [List.mem_cons, List.not_mem_nil, or_false, forall_eq_or_imp, forall_eq]
  exact ⟨worker, source, start, stop, length⟩

end Table

end Workers
