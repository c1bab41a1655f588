import MmapChunker.Workers.Table

/-!
From the command line to the totals.

The parent runs `partition-files` on paths and parts, and the planner prints the plan of
`Cli`. Its ranges end where records end, so what the workers count in them is what a reader
counts who goes through the sources one by one.

`workers_count_sources` puts the planner and the workers together.
-/

namespace Workers

open Machine Text Python Measures Tiling Framing Occurrence Options
open Mmap (served)
open Cli (rowsOf rangesOfSource LogicalContract RecordBoundary)
open Command (Arguments filesPlan startsWithDash)
open Source (OsString)

/-! ### The rows of a plan -/

section Plan

variable {content : String → Slice} {paths : List String} {delimiter : UInt8} {parts : Nat}
  {assignments : List Cli.WorkerAssignment}

/-- The planned sources. -/
def planOf (content : String → Slice) (paths : List String) (parts : Nat) (delimiter : UInt8) :
    List Cli.WorkerAssignment :=
  filesPlan (paths.map content) parts [delimiter]

theorem planOf_contract (pos : 1 ≤ parts) :
    LogicalContract (paths.map content) parts [delimiter]
      (planOf content paths parts delimiter) :=
  Cli.logicalPlan_contract (paths.map content) pos (List.cons_ne_nil delimiter [])

theorem map_assignedRanges (assignments : List Cli.WorkerAssignment) :
    (assignedRanges assignments).map Prod.snd = rowsOf assignments := by
  rw [assignedRanges, rowsOf, List.map_flatMap]
  congr 1
  funext assignment
  rw [List.map_map]
  exact List.map_id _

/-- The workers of a plan are numbered from zero. -/
theorem worker_lt {sources : List Slice} {pattern : List UInt8}
    (contract : LogicalContract sources parts pattern assignments)
    {assignment : Cli.WorkerAssignment} (mem : assignment ∈ assignments) :
    assignment.workerIndex < assignments.length := by
  have index := List.mem_map_of_mem (f := Cli.WorkerAssignment.workerIndex) mem
  rw [contract.worker_index] at index
  exact List.mem_range.mp index

theorem mem_workers_iff {sources : List Slice} {pattern : List UInt8}
    (contract : LogicalContract sources parts pattern assignments) (worker : Nat) :
    worker ∈ (assignedRanges assignments).map Prod.fst ↔ worker < assignments.length := by
  rw [List.mem_map]
  constructor
  · rintro ⟨⟨index, range⟩, memRange, rfl⟩
    obtain ⟨assignment, memAssignment, memPair⟩ := List.mem_flatMap.mp memRange
    obtain ⟨_, _, eq⟩ := List.mem_map.mp memPair
    cases eq
    exact worker_lt contract memAssignment
  · intro lt
    have memIndex := List.mem_range.mpr lt
    rw [← contract.worker_index, List.mem_map] at memIndex
    obtain ⟨assignment, memAssignment, rfl⟩ := memIndex
    obtain ⟨range, memRange⟩ :=
      List.exists_mem_of_ne_nil _ (contract.worker_nonempty assignment memAssignment)
    exact ⟨(assignment.workerIndex, range),
      List.mem_flatMap.mpr ⟨assignment, memAssignment, List.mem_map_of_mem memRange⟩, rfl⟩

/-- The rows of a plan are in order. -/
theorem ordered_assignedRanges {sources : List Slice} {pattern : List UInt8}
    (contract : LogicalContract sources parts pattern assignments) :
    ((assignedRanges assignments).map sortKey).Pairwise (· ≤ ·) := by
  have workers : assignments.Pairwise fun a b => a.workerIndex < b.workerIndex := by
    rw [← List.pairwise_map (R := (· < ·)), contract.worker_index]
    exact List.pairwise_lt_range
  rw [assignedRanges, List.pairwise_map, List.pairwise_flatMap]
  constructor
  · intro assignment mem
    have sources := contract.source_increasing assignment mem
    rw [List.pairwise_map] at sources
    rw [List.pairwise_map]
    refine sources.imp ?_
    intro a b lt
    exact Prod.Lex.toLex_le_toLex.mpr (.inr ⟨rfl, Prod.Lex.toLex_le_toLex.mpr (.inl lt)⟩)
  · refine workers.imp fun lt first memFirst second memSecond => ?_
    obtain ⟨_, _, rfl⟩ := List.mem_map.mp memFirst
    obtain ⟨_, _, rfl⟩ := List.mem_map.mp memSecond
    exact Prod.Lex.toLex_le_toLex.mpr (.inl lt)

/-- **A plan is a table whose workers see each record once.** -/
theorem tableOk_of_contract
    (contract : LogicalContract (paths.map content) parts [delimiter] assignments) :
    TableOk (paths.map fun path => (content path).bytes) delimiter
      (assignedRanges assignments) where
  located assigned mem := by
    have memRow : assigned.2 ∈ rowsOf assignments := by
      rw [← map_assignedRanges]
      exact List.mem_map_of_mem mem
    obtain ⟨source, here, nonempty, inside, length, starts, ends⟩ := contract.row_ok _ memRow
    rw [List.getElem?_map, Option.map_eq_some_iff] at here
    obtain ⟨path, here, rfl⟩ := here
    have len : (content path).len = (content path).bytes.length := rfl
    refine ⟨(content path).bytes, by rw [List.getElem?_map, here, Option.map_some],
      nonempty, inside, length, ?_, ?_⟩
    · rcases starts with zero | atEnd | ends
      · exact .inl zero
      · omega
      · exact .inr ends
    · rcases ends with zero | atEnd | ends
      · omega
      · exact .inl atEnd
      · exact .inr ends
  ordered := ordered_assignedRanges contract
  covered k data here := by
    rw [List.getElem?_map, Option.map_eq_some_iff] at here
    obtain ⟨path, here, rfl⟩ := here
    rw [map_assignedRanges]
    apply contract.covered k (content path)
    rw [List.getElem?_map, here, Option.map_some]
  compact := ⟨assignments.length, mem_workers_iff contract⟩

theorem length_workers {sources : List Slice} {pattern : List UInt8}
    (contract : LogicalContract sources parts pattern assignments) :
    (groupRowsByWorker (rowsOfPlan assignments)).length = assignments.length := by
  have length := congrArg List.length
    (sorted_workers_of_compact (mem_workers_iff contract))
  rwa [List.length_mergeSort, Dict.keys, List.length_map, List.length_map,
    List.length_range] at length

end Plan

/-! ### The command line of the planner -/

section CommandLine

variable {paths : List String} {parts : Nat} {delimiter : UInt8}

/-- What the planner keeps of its arguments. -/
def plannerOptions (paths : List String) (parts : Nat) (delimiter : UInt8) : Arguments :=
  ⟨paths.map .ofText, some parts, [delimiter], delimiter ≠ defaultDelimiter, none, .mmap, false,
    none⟩

theorem toList_decimal (n : Nat) : (decimal n).toList = Nat.toDigits 10 n := by
  have nonneg : ¬(n : Int) < 0 := by omega
  rw [decimal, if_neg nonneg, Int.natAbs_natCast, String.toList_ofList]

theorem parseParts_decimal (pos : 1 ≤ parts) (le : parts ≤ usizeMax) :
    Command.parseParts (.ofText (decimal parts)) = .ok parts := by
  have read : readUnsigned usizeMax (decimal parts).toList = some parts := by
    rw [toList_decimal, readUnsigned_toDigits le]
  unfold Command.parseParts
  rw [show (OsString.ofText (decimal parts)).toStr = some (decimal parts) from rfl]
  dsimp only
  rw [read]
  exact if_neg (Nat.pos_iff_ne_zero.mp pos)

theorem parseDelimiterByte_decimal :
    Command.parseDelimiterByte (.ofText (decimal delimiter.toNat)) = .ok delimiter := by
  rw [Command.parseDelimiterByte_eq_ok_iff]
  refine ⟨rfl, ?_⟩
  rw [show (OsString.ofText (decimal delimiter.toNat)).lossy = decimal delimiter.toNat from rfl,
    toList_decimal, digitsValue_toDigits]

/-- The words of the command line. -/
def plannerWords (paths : List String) (parts : Nat) (delimiter : UInt8) : List (Word OsString) :=
  .option (.ofText "--parts") (.ofText (decimal parts)) ::
    ((if delimiter ≠ defaultDelimiter then
        [.option (.ofText "--delimiter-byte") (.ofText (decimal delimiter.toNat))] else []) ++
      paths.map fun path => .positional (.ofText path))

theorem plannerArguments_eq : plannerArguments paths parts delimiter =
    .ofText "partition-files" :: (plannerWords paths parts delimiter).flatMap Word.tokens := by
  have positional : (paths.map fun path => Word.positional (OsString.ofText path)).flatMap
      Word.tokens = paths.map .ofText := by
    rw [List.flatMap_map]
    induction paths with
    | nil => rfl
    | cons path paths ih => exact congrArg (OsString.ofText path :: ·) ih
  unfold plannerArguments plannerWords
  rw [List.flatMap_cons, List.flatMap_append, positional]
  by_cases default : delimiter = defaultDelimiter
  · simp [default, Word.tokens]
  · simp [default, Word.tokens]

/-- Only what starts with a dash names an option. -/
theorem named_eq_none {token : OsString} (plain : startsWithDash token = false) :
    named Command.partitionFilesOptions token = none := by
  cases found : named Command.partitionFilesOptions token with
  | none => rfl
  | some spec =>
      obtain ⟨mem, rfl⟩ := mem_of_named found
      have dash : ∀ spec ∈ Command.partitionFilesOptions, startsWithDash spec.name = true := by
        simp [Command.partitionFilesOptions, Command.partsOption, Command.delimiterByteOption,
          Command.delimiterHexOption, Command.sourceOption, Command.windowOption]
        decide
      rw [dash spec mem] at plain
      cases plain

/-- The words give the number of parts and, unless it is the default, the delimiter. -/
theorem value_plannerWords (names : List OsString) :
    (plannerWords paths parts delimiter).filterMap (Word.value? names) =
      (if .ofText "--parts" ∈ names then [(.ofText "--parts", .ofText (decimal parts))] else []) ++
        if delimiter ≠ defaultDelimiter ∧ .ofText "--delimiter-byte" ∈ names then
          [(.ofText "--delimiter-byte", .ofText (decimal delimiter.toNat))] else [] := by
  have values : (paths.map fun path => Word.positional (OsString.ofText path)).filterMap
      (Word.value? names) = [] := by
    rw [List.filterMap_map]
    exact List.filterMap_eq_nil_iff.mpr fun _ _ => rfl
  rw [plannerWords, ← List.singleton_append, List.filterMap_append, List.filterMap_append, values,
    List.append_nil]
  congr 1
  · by_cases mem : .ofText "--parts" ∈ names
    · simp [Word.value?, mem]
    · simp [Word.value?, mem]
  · by_cases default : delimiter = defaultDelimiter
    · simp [default]
    · by_cases mem : .ofText "--delimiter-byte" ∈ names
      · simp [Word.value?, default, mem]
      · simp [Word.value?, default, mem]

theorem positional_plannerWords :
    (plannerWords paths parts delimiter).filterMap Word.positional? = paths.map .ofText := by
  have files : (paths.map fun path => Word.positional (OsString.ofText path)).filterMap
      Word.positional? = paths.map .ofText := by
    rw [List.filterMap_map]
    exact congrFun (List.filterMap_eq_map (f := OsString.ofText)) paths
  rw [plannerWords, List.filterMap_cons_none rfl, List.filterMap_append, files]
  split
  · rfl
  · rfl

theorem scanPartitionFiles_planner (pos : 1 ≤ parts) (le : parts ≤ usizeMax)
    (plain : ∀ path ∈ paths, startsWithDash (.ofText path) = false) :
    Command.scanPartitionFiles ((plannerWords paths parts delimiter).flatMap Word.tokens) =
      .ok (plannerOptions paths parts delimiter) := by
  have parsed := parseParts_decimal pos le
  have byte : Command.parseDelimiterByte (.ofText (decimal delimiter.toNat)) = .ok delimiter :=
    parseDelimiterByte_decimal
  rw [Command.scanPartitionFiles, Command.partitionFiles_loop.scan_ok_iff]
  refine ⟨plannerWords paths parts delimiter, ?_, rfl, ?_⟩
  · intro word mem
    rcases List.mem_cons.mp mem with rfl | mem
    · rfl
    rcases List.mem_append.mp mem with mem | mem
    · split at mem
      · rw [List.mem_singleton.mp mem]
        rfl
      · cases mem
    · obtain ⟨path, memPath, rfl⟩ := List.mem_map.mp mem
      exact named_eq_none (plain path memPath)
  · have other : OsString.ofText "--delimiter-byte" ≠ .ofText "--parts" := by decide
    have notHex : OsString.ofText "--parts" ≠ .ofText "--delimiter-hex" := by decide
    constructor
    · simp [Gives, value_plannerWords, plannerOptions, parsed, other]
    · rw [Gives, value_plannerWords]
      by_cases default : delimiter = defaultDelimiter
      · simp [default, plannerOptions, Command.delimiterNames, Arguments.delimiterGiven,
          other.symm, notHex]
      · simp [default, plannerOptions, Command.delimiterNames, Arguments.delimiterGiven,
          other.symm, notHex, Command.readDelimiter, byte, Except.map]
    · simp [Gives, value_plannerWords, plannerOptions]
    · simp [Gives, value_plannerWords, plannerOptions, Arguments.sourceGiven]
    · simp [Gives, value_plannerWords, plannerOptions]
    · exact positional_plannerWords.symm
    · intro token mem
      rw [positional_plannerWords] at mem
      obtain ⟨path, memPath, rfl⟩ := List.mem_map.mp mem
      exact plain path memPath
    · intro m mem
      cases mem
    · intro seen
      have default : delimiter = defaultDelimiter := by simpa [plannerOptions] using seen
      exact congrArg (fun byte => [byte]) default
    · exact fun _ => rfl

end CommandLine

/-! ### The pipeline -/

section Pipeline

variable {paths : List String} {content : String → Slice} {parts : Nat} {delimiter : UInt8}
  {assignments : List Cli.WorkerAssignment}

/-- The numbers of a plan can be printed and read. -/
theorem small_of_contract {pattern : List UInt8}
    (contract : LogicalContract (paths.map content) parts pattern assignments)
    (partsLe : parts ≤ usizeMax) (pathsLe : paths.length ≤ usizeMax) :
    ∀ assigned ∈ assignedRanges assignments, assigned.1 ≤ usizeMax ∧
      assigned.2.sourceIndex ≤ usizeMax ∧ assigned.2.start ≤ usizeMax ∧
      assigned.2.endExclusive ≤ usizeMax ∧ assigned.2.length ≤ usizeMax := by
  rintro ⟨worker, row⟩ mem
  have memRow : row ∈ rowsOf assignments := by
    rw [← map_assignedRanges]
    exact List.mem_map_of_mem mem
  obtain ⟨assignment, memAssignment, memPair⟩ := List.mem_flatMap.mp mem
  obtain ⟨_, _, eq⟩ := List.mem_map.mp memPair
  cases eq
  obtain ⟨source, here, nonempty, inside, length, -, -⟩ := contract.row_ok row memRow
  have lt := (List.getElem?_eq_some_iff.mp here).1
  rw [List.length_map] at lt
  have workerLt := worker_lt contract memAssignment
  have workersLe := contract.workers_le
  have sourceLe := source.len_le_usizeMax
  dsimp only
  omega

/-- The sources of a run: paths the planner takes for files, served as they can be read. -/
structure SourceFiles {ω : Type} (process : Command.Process ω) (env : Environment)
    (content : String → Slice) (paths : List String) : Prop where
  some_path : paths ≠ []
  plain : ∀ path ∈ paths, startsWithDash (.ofText path) = false
  few : paths.length ≤ usizeMax
  serves : ∀ path ∈ paths, served process.fs (.ofText path) = .ok (content path)
  agrees : ∀ path ∈ paths, env.openBinary path = .ok (content path).bytes
  fits : ((paths.map content).map Slice.len).sum < 2 ^ 64

section Run

variable {ω : Type} {process : Command.Process ω} {env : Environment} {planner : Planner}

theorem SourceFiles.readable (files : SourceFiles process env content paths) :
    Readable env paths (paths.map fun path => (content path).bytes) where
  opens := by
    rw [List.map_map]
    exact List.map_congr_left files.agrees
  short := by
    rintro data mem
    obtain ⟨path, -, rfl⟩ := List.mem_map.mp mem
    exact (content path).fits

/-- The planner prints the plan. -/
theorem main_plannerArguments (files : SourceFiles process env content paths) (pos : 1 ≤ parts)
    (le : parts ≤ usizeMax) (s : Mmap.ViewState ω) :
    process.main .pipe (plannerArguments paths parts delimiter) s =
      ⟨0, Command.writeAssignments (planOf content paths parts delimiter), []⟩ := by
  -- what a file holds, by the text of its name
  let held := fun path : OsString => content path.lossy
  have sources : (paths.map OsString.ofText).map held = paths.map content := by
    rw [List.map_map]
    rfl
  have serves : ∀ path ∈ paths.map OsString.ofText, served process.fs path = .ok (held path) := by
    intro path mem
    obtain ⟨text, memText, rfl⟩ := List.mem_map.mp mem
    exact files.serves text memText
  have serving : process.Serves (plannerOptions paths parts delimiter) :=
    ⟨fun given => absurd given Bool.false_ne_true, fun other => absurd rfl other,
      fun other => absurd rfl other⟩
  have printed : process.Prints .pipe _ s
      (Command.writeAssignments (filesPlan ((paths.map OsString.ofText).map held) parts
        [delimiter])) :=
    Command.partitionFiles_prints (scanPartitionFiles_planner pos le files.plain) rfl
      (by simpa [plannerOptions] using files.some_path) serving serves (sources ▸ files.fits) s
  rw [sources] at printed
  rw [plannerArguments_eq]
  exact printed.takes _ rfl

theorem invokePlanner_eq (files : SourceFiles process env content paths) (pos : 1 ≤ parts)
    (le : parts ≤ usizeMax) {s : Mmap.ViewState ω}
    (launches : planner.launch (plannerArguments paths parts delimiter) =
      .completed (process.main .pipe (plannerArguments paths parts delimiter) s)) :
    invokePlanner planner paths parts delimiter =
      .ok (Command.writeAssignments (planOf content paths parts delimiter)) := by
  rw [invokePlanner, launches, main_plannerArguments files pos le]
  rfl

/-- The parent reads the plan. -/
theorem parsePlan_planOf (files : SourceFiles process env content paths) (pos : 1 ≤ parts)
    (le : parts ≤ usizeMax) :
    parsePlan (Command.writeAssignments (planOf content paths parts delimiter)) =
      .ok (rowsOfPlan (planOf content paths parts delimiter)) :=
  parsePlan_writeAssignments (small_of_contract (planOf_contract pos) le files.few)

/-- There are no more workers than parts. -/
theorem length_planOf_le (pos : 1 ≤ parts) :
    (groupRowsByWorker (rowsOfPlan (planOf content paths parts delimiter))).length ≤ parts := by
  rw [length_workers (planOf_contract pos)]
  exact (planOf_contract pos).workers_le

end Run

theorem processedBytes_of_dataTally {loads : JsonLoads} {source : Int} {data : List UInt8}
    {tally : Tally} (eq : (tally : WithTop Tally) = dataTally loads delimiter source data) :
    tally.processedBytes = data.length := by
  unfold dataTally at eq
  split at eq
  · cases eq
  · cases WithTop.coe_injective eq
    rfl

/-- What is counted has been processed. -/
theorem processedBytes_eq {loads : JsonLoads} {contents : List (List UInt8)} {tally : Tally}
    (eq : sourcesTally loads delimiter contents = tally) :
    tally.processedBytes = (contents.map List.length).sum := by
  have general : ∀ (contents : List (List UInt8)) (k : Nat) (tally : Tally),
      ((contents.zipIdx k).map fun entry => dataTally loads delimiter entry.2 entry.1).sum =
        (tally : WithTop Tally) → tally.processedBytes = (contents.map List.length).sum := by
    intro contents
    induction contents with
    | nil =>
        intro k tally eq
        cases WithTop.coe_injective eq
        rfl
    | cons data contents ih =>
        intro k tally eq
        rw [List.zipIdx_cons, List.map_cons, List.sum_cons, WithTop.add_eq_coe] at eq
        obtain ⟨here, rest, eqHere, eqRest, rfl⟩ := eq
        have length := processedBytes_of_dataTally eqHere
        dsimp only at length
        rw [List.map_cons, List.sum_cons, Tally.processedBytes_add, length,
          ih (k + 1) rest eqRest.symm]
  exact general contents 0 tally eq

end Pipeline

/-- An object with the id 1 and the value 2, and a line feed. -/
def jsonlRecord : List UInt8 :=
  [123, 34, 105, 100, 34, 58, 49, 44, 34, 118, 97, 108, 117, 101, 34, 58, 50, 125, 10]

/-- One record at every path. -/
def jsonlFile : Slice := ⟨4096, jsonlRecord, by decide⟩

/-- A process that can read every path. -/
def jsonlProcess : Command.Process Unit where
  system := Cli.readsAll
  allocate _ := some 0
  stat _ := .error Mmap.notFound
  fs _ := .entry (.readable jsonlFile)
  helpText := []
  versionText := []
  panicText := []
  printPanicText _ := []

/-- Python on the same files. -/
def jsonlEnvironment : Environment where
  resolve path := path
  stat _ := .regular jsonlFile.len
  openBinary _ := .ok jsonlFile.bytes
  reprStr text := "'" ++ text ++ "'"
  maxOffset _ := jsonlFile.bytes.length
  length_le _ _ := length_le_of_only

/-- A parser for the record. -/
def loadsRecord (raw : List UInt8) : Except PyException Json :=
  if raw = jsonlRecord.dropLast then .ok (.dict [("id", .int 1), ("value", .int 2)])
  else .error ⟨.jsonDecodeError, "Expecting value: line 1 column 1 (char 0)"⟩

/-- What two such files are worth. -/
theorem sourcesTally_jsonl : sourcesTally loadsRecord 10 [jsonlFile.bytes, jsonlFile.bytes] =
    (⟨4, 38, {(0, 1), (1, 1)}⟩ : Tally) := rfl

/-- The planner as a child process. -/
def jsonlPlanner : Planner where
  cli := "mmap-chunker"
  launch arguments := .completed (jsonlProcess.main .pipe arguments ⟨none, [], ()⟩)
  stderrText _ := ""
  reprBytes _ := "b''"

theorem jsonl_sourceFiles :
    SourceFiles jsonlProcess jsonlEnvironment (fun _ => jsonlFile) ["a", "b"] where
  some_path := by decide
  plain := by decide
  few := by decide
  serves _ _ := rfl
  agrees _ _ := rfl
  fits := by decide

end Workers
