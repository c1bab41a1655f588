import MmapChunker.Command.Arguments

/-!
The commands (`src/bin/mmap-chunker.rs`).

`run` dispatches on the first argument, reads the options of the command, plans, and prints
one line of numbers for each range. The planners are those of `Cli` and `Ranges`; here they
are put between the command line and what the caller of the process sees. Standard output may
take what is written to it or refuse; standard error takes it.

`accepted_lines_print` says what is printed for a command line that is accepted.
-/

namespace Command

open Machine Text Exec Mmap Source Options
open Cli (System WorkerAssignment SourceRange emitFilePartitions planSourced ServesFiles
  servedBytes statLen)
open Ranges (Row SourceArgs runPartition SourceMode)
open Pin (Stat)

/-! ### Source -/

/-- What a command prints. -/
inductive Printed where
  | help
  | version
  | text (bytes : List UInt8)
  deriving Repr, DecidableEq

/-- The lines of `emit_partitions_sourced` and `emit_indexed_chunks`. -/
def writeRows (rows : List Row) : List UInt8 :=
  encodeUtf8 (tableText (rows.map fun row => [row.index, row.start, row.stop, row.length]))

/-- `write_assignments`. -/
def writeAssignments (assignments : List WorkerAssignment) : List UInt8 :=
  encodeUtf8 (tableText (assignments.flatMap fun assignment =>
    assignment.ranges.map fun range =>
      [assignment.workerIndex, range.sourceIndex, range.start, range.endExclusive, range.length]))

/-- Standard output: what arrives of the bytes that a process writes, and the error that ended
the writing. -/
structure Stdout where
  write : List UInt8 → List UInt8 × Option IoError
  arrives : ∀ bytes, (write bytes).1 <+: bytes

/-- A pipe whose reader takes everything. -/
def Stdout.pipe : Stdout := ⟨fun bytes => (bytes, none), fun _ => List.prefix_rfl⟩

/-- What a process runs on. The texts are `HELP`, the version line, and what the runtime says
of a panic, in a planner and in `print!`. -/
structure Process (ω : Type) where
  system : System ω
  allocate : Nat → Option Nat
  stat : Stat
  fs : FileSystem
  helpText : List UInt8
  versionText : List UInt8
  panicText : List UInt8
  printPanicText : IoError → List UInt8

/-- The source and the window that were given. -/
def Arguments.sourceArgs (c : Arguments) : SourceArgs where
  source := c.source
  window := c.window.map Subtype.val
  window_ge w mem := by
    obtain ⟨window, _, rfl⟩ := Option.map_eq_some_iff.mp mem
    exact window.2.1
  window_le w mem := by
    obtain ⟨window, _, rfl⟩ := Option.map_eq_some_iff.mp mem
    exact window.2.2

/-- `[flag] if flag == "--help" || flag == "-h"`. -/
def asksForHelp (arguments : List OsString) : Bool :=
  arguments = [.ofText "--help"] ∨ arguments = [.ofText "-h"]

/-- `[flag] if flag == "--version" || flag == "-V"`. -/
def asksForVersion (arguments : List OsString) : Bool :=
  arguments = [.ofText "--version"] ∨ arguments = [.ofText "-V"]

/-- What the caller of a process sees: the exit status, standard output, standard error. -/
structure Completed where
  returncode : Int
  stdout : List UInt8
  stderr : List UInt8
  deriving Repr, DecidableEq

section Source

variable {ω : Type}

/-- A computation that does not touch the state. -/
def stateless {σ ε α : Type} (x : Exec Unit ε α) : Exec σ ε α :=
  ExceptT.mk fun s => (runFrom x ()).map fun p => (p.1, s)

/-- `run_partition`. -/
def runPartitionCommand (process : Process ω) (arguments : List OsString) :
    Exec (ViewState ω) String Printed := do
  if asksForHelp arguments then return .help
  let c ← fromExcept (scanPartition arguments)
  let file ← okOr c.files.head? "missing FILE"
  let parts ← okOr c.parts "missing required option `--parts`"
  let rows ← runPartition process.system process.allocate process.stat process.fs file parts
    c.delimiter c.worker c.sourceArgs
  return .text (writeRows rows)

/-- The planning of `run_partition_files`, past the checks of its arguments. -/
def planFiles (process : Process ω) (c : Arguments) (parts : Nat) :
    Exec (ViewState ω) String (List WorkerAssignment) :=
  match c.window, c.source with
  | some window, _ =>
      planSourced process.system process.allocate process.fs
        ⟨.windowed, window.1, Cli.defaultScanBufferBytes, window.2.2⟩ c.files parts c.delimiter
  | none, .mmap => stateless (emitFilePartitions process.fs c.files parts c.delimiter)
  | none, .windowed =>
      planSourced process.system process.allocate process.fs (.new .windowed) c.files parts
        c.delimiter
  | none, .pread =>
      planSourced process.system process.allocate process.fs (.new .pread) c.files parts
        c.delimiter

/-- `run_partition_files`. -/
def runPartitionFiles (process : Process ω) (arguments : List OsString) :
    Exec (ViewState ω) String Printed := do
  if asksForHelp arguments then return .help
  let c ← fromExcept (scanPartitionFiles arguments)
  let parts ← okOr c.parts "missing required option `--parts`"
  throwIf (c.files = []) "missing FILE (provide one or more ordered source paths)"
  throwIf (c.window.isSome = true ∧ c.source ≠ .windowed)
    "`--window` requires `--source windowed`"
  let assignments ← planFiles process c parts
  return .text (writeAssignments assignments)

/-- `run`. -/
def run (process : Process ω) (arguments : List OsString) : Exec (ViewState ω) String Printed :=
  if asksForHelp arguments then return .help
  else if asksForVersion arguments then return .version
  else
    match arguments with
    | [] => throw "missing command"
    | command :: rest =>
        if command = .ofText "partition" then runPartitionCommand process rest
        else if command = .ofText "partition-files" then runPartitionFiles process rest
        else throw ("unknown command " ++ quoted command)

/-- The bytes on standard output. -/
def Printed.bytes (process : Process ω) : Printed → List UInt8
  | help => process.helpText
  | version => process.versionText
  | text bytes => bytes

/-- What `main` writes of an error. -/
def failure (message : String) : List UInt8 :=
  encodeUtf8 ("error: " ++ message ++ "\nTry `mmap-chunker --help` for usage.\n").toList

/-- What comes of output that is refused: an error of the emitters, a panic of `print!`. -/
def Process.refused (process : Process ω) (error : IoError) (arrived : List UInt8) :
    Printed → Completed
  | .text _ => ⟨1, arrived, failure ("failed to write output: " ++ error.message)⟩
  | .help | .version => ⟨101, arrived, process.printPanicText error⟩

/-- `main`. -/
def Process.main (process : Process ω) (stdout : Stdout) (arguments : List OsString)
    (s : ViewState ω) : Completed :=
  match runFrom (run process arguments) s with
  | none => ⟨101, [], process.panicText⟩
  | some (.error message, _) => ⟨1, [], failure message⟩
  | some (.ok printed, _) =>
      match stdout.write (printed.bytes process) with
      | (arrived, none) => ⟨0, arrived, []⟩
      | (arrived, some error) => process.refused error arrived printed

end Source

/-! ### Values of an accepted command line -/

section Values

variable {workerNames : List OsString} {most : Option Nat} {words : List (Word OsString)}
  {c : Arguments}

theorem parseParts_pos {value : OsString} {parts : Nat} (ok : parseParts value = .ok parts) :
    1 ≤ parts := by
  unfold parseParts at ok
  split at ok
  · cases ok
  · split at ok
    · cases ok
    · split at ok
      · cases ok
      · cases ok
        omega

/-- What fills a slot has been read. -/
theorem exists_read {β : Type} {names : List OsString}
    {read : OsString × OsString → Except String β} {b : β}
    (gives : Gives names read words (some b)) : ∃ given, read given = .ok b := by
  have mem : Except.ok b ∈ (words.filterMap (Word.value? names)).map read := by
    rw [gives]
    simp
  obtain ⟨given, _, eq⟩ := List.mem_map.mp mem
  exact ⟨given, eq⟩

theorem Arranged.parts_pos (arranged : Arranged workerNames most words c) {parts : Nat}
    (eq : c.parts = some parts) : 1 ≤ parts := by
  have gives := arranged.parts
  rw [eq] at gives
  obtain ⟨given, ok⟩ := exists_read gives
  exact parseParts_pos ok

theorem readDelimiter_ne_nil {given : OsString × OsString} {delimiter : List UInt8}
    (ok : readDelimiter given = .ok delimiter) : delimiter ≠ [] := by
  unfold readDelimiter at ok
  split at ok
  · obtain ⟨byte, rfl⟩ := exists_of_map_eq_ok ok
    simp
  · exact (parseDelimiterHex_eq_ok_iff.mp ok).2.1

/-- The delimiter is not empty, whether it was given or not. -/
theorem Arranged.delimiter_ne_nil (arranged : Arranged workerNames most words c) :
    c.delimiter ≠ [] := by
  cases seen : c.delimiterSeen with
  | false =>
      rw [arranged.default_delimiter seen]
      simp
  | true =>
      have gives := arranged.delimiter
      rw [Arguments.delimiterGiven, seen, if_pos rfl] at gives
      obtain ⟨given, ok⟩ := exists_read gives
      exact readDelimiter_ne_nil ok

end Values

/-! ### What is printed -/

section Printing

variable {ω : Type} {process : Process ω} {stdout : Stdout} {c : Arguments} {parts : Nat}
  {content : Path → Slice}

/-- The rows are what a process writes: it succeeds if the output takes them, and else says
what the output answered. -/
structure Process.Prints (process : Process ω) (stdout : Stdout) (arguments : List OsString)
    (s : ViewState ω) (rows : List UInt8) : Prop where
  takes : ∀ arrived, stdout.write rows = (arrived, none) →
    process.main stdout arguments s = ⟨0, arrived, []⟩
  refuses : ∀ arrived error, stdout.write rows = (arrived, some error) →
    process.main stdout arguments s =
      ⟨1, arrived, failure ("failed to write output: " ++ error.message)⟩

/-- The system serves a command that does not map whole files. -/
structure Process.Serves (process : Process ω) (c : Arguments) : Prop where
  window : c.window.isSome = true → c.source = .windowed
  serves : c.source ≠ .mmap → ServesFiles process.system process.fs
  allocates : c.source ≠ .mmap → Allocates process.allocate
    (bufferLen Cli.defaultScanBufferBytes c.delimiter.length)

/-- The plan for files that hold `sources`. -/
def filesPlan (sources : List Slice) (parts : Nat) (delimiter : List UInt8) :
    List WorkerAssignment :=
  Cli.assignmentsOf (Cli.lengths (Cli.bytesOf sources))
    (Cli.logicalIntervals (Cli.bytesOf sources) parts delimiter)

/-- Files that are served are opened in order. -/
theorem openSources_eq {fs : FileSystem} {files : List Path}
    (ok : ∀ path ∈ files, served fs path = .ok (content path)) :
    Cli.openSources fs files = .ok (files.map content) := by
  have loop : ∀ (files : List Path) (sources : List Slice),
      (∀ path ∈ files, served fs path = .ok (content path)) →
        forIn files sources (Cli.openStep fs) = .ok (sources ++ files.map content) := by
    intro files
    induction files with
    | nil =>
        intro sources _
        rw [List.map_nil, List.append_nil]
        rfl
    | cons path files ih =>
        intro sources ok
        obtain ⟨here, rest⟩ := List.forall_mem_cons.mp ok
        rw [List.forIn_cons, Cli.openStep, mmapFileOpenPath_ok_iff.mpr here, List.map_cons,
          List.append_cons]
        exact ih _ rest
  exact loop files [] ok

/-- Files that fit the address space together have a plan. -/
theorem planned {files : List Path} {delimiter : List UInt8}
    (fits : ((files.map content).map Slice.len).sum < 2 ^ 64) (pos : 1 ≤ parts)
    (ne : delimiter ≠ []) :
    runFrom (Cli.planLogicalPartitions (files.map content) parts delimiter) () =
      some (.ok (filesPlan (files.map content) parts delimiter), ()) := by
  have small : (Cli.lengths (Cli.bytesOf (files.map content))).sum ≤ usizeMax := by
    rw [Cli.lengths_bytesOf]
    exact Nat.le_pred_of_lt fits
  obtain ⟨_, _, run, rfl⟩ := Cli.planLogicalPartitions_returns (files.map content) pos ne small
  exact run

/-- The mapped command plans what the files hold. -/
theorem stateless_emitFilePartitions_returns {σ : Type} {fs : FileSystem} {files : List Path}
    {delimiter : List UInt8} (ok : ∀ path ∈ files, served fs path = .ok (content path))
    (fits : ((files.map content).map Slice.len).sum < 2 ^ 64) (pos : 1 ≤ parts)
    (ne : delimiter ≠ []) (s : σ) :
    Returns (stateless (emitFilePartitions fs files parts delimiter)) s fun assignments _ =>
      assignments = filesPlan (files.map content) parts delimiter := by
  refine ⟨_, s, ?_, rfl⟩
  change (runFrom (emitFilePartitions fs files parts delimiter) ()).map _ = _
  rw [emitFilePartitions, runFrom_bind, runFrom_step, openSources_eq ok]
  dsimp only
  rw [planned fits pos ne]
  rfl

/-- A sourced command plans what the files hold. -/
theorem planSourced_returns {system : System ω} {allocate : Nat → Option Nat} {fs : FileSystem}
    {options : Cli.PlannerOptions} {files : List Path} {delimiter : List UInt8}
    (serves : ServesFiles system fs)
    (window : options.mode = .windowed → viewAlignment ≤ options.windowBytes)
    (allocates : Allocates allocate (bufferLen options.scanBufferBytes delimiter.length))
    (ok : ∀ path ∈ files, served fs path = .ok (content path))
    (fits : ((files.map content).map Slice.len).sum < 2 ^ 64) (pos : 1 ≤ parts)
    (ne : delimiter ≠ []) (s : ViewState ω) :
    Returns (planSourced system allocate fs options files parts delimiter) s fun assignments _ =>
      assignments = filesPlan (files.map content) parts delimiter := by
  have metadata : ∀ path ∈ files,
      (Cli.fileBackend system fs options).metadata path = .ok (content path).len := by
    intro path mem
    change (fs.metadata path).map Entry.len = _
    rw [len_of_served (ok path mem)]
    rfl
  have lens : (files.map fun path => (content path).len) =
      Cli.lengths (Cli.bytesOf (files.map content)) := by
    rw [Cli.lengths_bytesOf, List.map_map]
    rfl
  have snaps : Cli.servedSnap files (fun path => .ok (content path).bytes) delimiter =
      fun k u => .ok (Cli.sourceSnap (Cli.bytesOf (files.map content)) delimiter k u) := by
    funext k u
    rw [Cli.servedSnap, Cli.sourceSnap, List.getD_eq_getElem?_getD, Cli.bytesOf, List.getElem?_map,
      List.getElem?_map]
    cases files[k]? <;> rfl
  have opens : ∀ path ∈ files, Cli.Serves (Cli.fileBackend system fs options) (fun _ => True) path
      (content path).len (.ok (content path).bytes) := fun path mem =>
    ⟨rfl, Cli.openSourced_returns serves window (ok path mem)⟩
  obtain ⟨r, s', run, eq⟩ := Cli.planLogicalPartitionsSourced_ensures
    (fun path => (content path).len) (fun path => .ok (content path).bytes) parts ne
    (fun path _ => (content path).len_le_usizeMax) metadata opens allocates
    (trivial : (fun _ => True) s)
  obtain ⟨r', _, run', eq'⟩ := Cli.planLogicalPartitions_ensures (files.map content) parts ne
  rw [planned fits pos ne, Option.some.injEq, Prod.mk.injEq] at run'
  rw [snaps, Segments.lineSnapE_ok, lens] at eq
  have same : r = .ok (filesPlan (files.map content) parts delimiter) := by
    rw [eq, run'.1, eq']
    rfl
  exact ⟨_, s', by rw [planSourced, run, same], rfl⟩

/-- The planning of `partition-files`, whatever its source. -/
theorem planFiles_returns (serves : process.Serves c)
    (ok : ∀ path ∈ c.files, served process.fs path = .ok (content path))
    (fits : ((c.files.map content).map Slice.len).sum < 2 ^ 64) (pos : 1 ≤ parts)
    (ne : c.delimiter ≠ []) (s : ViewState ω) :
    Returns (planFiles process c parts) s fun assignments _ =>
      assignments = filesPlan (c.files.map content) parts c.delimiter := by
  rw [planFiles]
  cases given : c.window with
  | some window =>
      have source := serves.window (by rw [given]; rfl)
      have sourced : c.source ≠ .mmap := by simp [source]
      exact planSourced_returns (serves.serves sourced) (fun _ => window.2.1)
        (serves.allocates sourced) ok fits pos ne s
  | none =>
      cases source : c.source with
      | mmap => exact stateless_emitFilePartitions_returns ok fits pos ne s
      | windowed =>
          have sourced : c.source ≠ .mmap := by simp [source]
          exact planSourced_returns (serves.serves sourced)
            (fun _ => (by decide : viewAlignment ≤ Cli.defaultWindowBytes))
            (serves.allocates sourced) ok fits pos ne s
      | pread =>
          have sourced : c.source ≠ .mmap := by simp [source]
          exact planSourced_returns (serves.serves sourced) (fun eq => by cases eq)
            (serves.allocates sourced) ok fits pos ne s

/-- A text that a command comes to is what the process writes. -/
theorem prints_of_returns {arguments : List OsString} {s : ViewState ω} {rows : List UInt8}
    (returns : Returns (run process arguments) s fun result _ => result = .text rows) :
    process.Prints stdout arguments s rows := by
  obtain ⟨_, s', ran, rfl⟩ := returns
  constructor
  · intro arrived written
    simp only [Process.main, ran, Printed.bytes, written]
  · intro arrived error written
    simp only [Process.main, ran, Printed.bytes, written, Process.refused]

/-- A command line that is accepted asks for no help. -/
theorem not_asksForHelp {specs : List CommandOption}
    {positional : OsString → Arguments → Except String Arguments} {workerNames : List OsString}
    {most : Option Nat} (loop : Loop specs positional workerNames most) {arguments : List OsString}
    (noHelp : ∀ name, name = .ofText "--help" ∨ name = .ofText "-h" → named specs name = none)
    (ok : scan specs positional arguments .initial = .ok c) : asksForHelp arguments = false := by
  have refused : ∀ name, name = .ofText "--help" ∨ name = .ofText "-h" → arguments ≠ [name] := by
    rintro name help rfl
    rw [scan_positional (noHelp name help)] at ok
    cases here : positional name .initial with
    | error e =>
        rw [here] at ok
        cases ok
    | ok c' =>
        have dash := (loop.no_dash name _ _ here).1
        rcases help with rfl | rfl <;> cases dash
  simp [asksForHelp, refused]

theorem fromExcept_ok {σ ε α : Type} (a : α) :
    (fromExcept (.ok a) : Exec σ ε α) = pure a := rfl

theorem partitionFiles_noHelp : ∀ name, name = .ofText "--help" ∨ name = .ofText "-h" →
    named partitionFilesOptions name = none := by
  rintro name (rfl | rfl) <;> rfl

theorem partition_noHelp : ∀ name, name = .ofText "--help" ∨ name = .ofText "-h" →
    named partitionOptions name = none := by
  rintro name (rfl | rfl) <;> rfl

/-- `run` goes on with the command. -/
theorem run_command (command : OsString) (arguments : List OsString)
    (known : command = .ofText "partition" ∨ command = .ofText "partition-files") :
    run process (command :: arguments) =
      if command = .ofText "partition" then runPartitionCommand process arguments
      else runPartitionFiles process arguments := by
  have noHelp : asksForHelp (command :: arguments) = false := by
    rcases known with rfl | rfl <;> simp [asksForHelp]
  have noVersion : asksForVersion (command :: arguments) = false := by
    rcases known with rfl | rfl <;> simp [asksForVersion]
  rw [run, noHelp, noVersion, if_neg Bool.false_ne_true, if_neg Bool.false_ne_true]
  rcases known with rfl | rfl
  · rfl
  · rfl

theorem partitionFiles_prints {arguments : List OsString}
    (accepted : scanPartitionFiles arguments = .ok c) (given : c.parts = some parts)
    (some_ : c.files ≠ []) (serves : process.Serves c)
    (ok : ∀ path ∈ c.files, served process.fs path = .ok (content path))
    (fits : ((c.files.map content).map Slice.len).sum < 2 ^ 64) (s : ViewState ω) :
    process.Prints stdout (.ofText "partition-files" :: arguments) s
      (writeAssignments (filesPlan (c.files.map content) parts c.delimiter)) := by
  obtain ⟨words, -, -, arranged⟩ := partitionFiles_loop.scan_ok_iff.mp accepted
  have window : ¬(c.window.isSome = true ∧ c.source ≠ .windowed) :=
    fun ⟨given, other⟩ => other (serves.window given)
  have noHelp := not_asksForHelp partitionFiles_loop partitionFiles_noHelp accepted
  have planned := planFiles_returns serves ok fits (arranged.parts_pos given)
    arranged.delimiter_ne_nil s
  have returns : Returns (run process (.ofText "partition-files" :: arguments)) s
      fun result _ => result = .text (writeAssignments (filesPlan (c.files.map content) parts
        c.delimiter)) := by
    rw [run_command _ _ (.inr rfl), if_neg (by simp), runPartitionFiles, noHelp,
      if_neg Bool.false_ne_true, accepted, fromExcept_ok, pure_bind, given, okOr_some, pure_bind,
      throwIf, if_neg some_, pure_bind, throwIf, if_neg window, pure_bind]
    refine planned.bind ?_
    rintro assignments s' rfl
    exact Returns.pure rfl
  exact prints_of_returns returns

/-- What `--worker` selects of the plan for one file. -/
def selectedRows (content : Path → Slice) (file : Path) (parts : Nat) (c : Arguments) : List Row :=
  Ranges.workerRows (Scanner.partitionPlan (content file).bytes parts c.delimiter) c.worker

theorem partition_prints {arguments : List OsString}
    (accepted : scanPartition arguments = .ok c) (given : c.parts = some parts) {file : Path}
    (named : c.files = [file]) (worker : ∀ k ∈ c.worker, k < parts) (serves : process.Serves c)
    (ok : served process.fs file = .ok (content file)) (s : ViewState ω) (fresh : s = opened s.os) :
    process.Prints stdout (.ofText "partition" :: arguments) s
      (writeRows (selectedRows content file parts c)) := by
  obtain ⟨words, -, -, arranged⟩ := partition_loop.scan_ok_iff.mp accepted
  have noHelp := not_asksForHelp partition_loop partition_noHelp accepted
  let invocation : Ranges.Invocation ω :=
    ⟨c.sourceArgs, process.system, process.allocate, process.stat, s.os⟩
  have fine : invocation.Fine process.fs c.delimiter :=
    ⟨fun window => serves.window (by simpa [invocation, Arguments.sourceArgs] using window),
      serves.serves, serves.allocates⟩
  have planned := Ranges.runPartition_returns fine ok (arranged.parts_pos given)
    arranged.delimiter_ne_nil worker
  have returns : Returns (run process (.ofText "partition" :: arguments)) s
      fun result _ => result = .text (writeRows (selectedRows content file parts c)) := by
    rw [run_command _ _ (.inl rfl), if_pos rfl, runPartitionCommand, noHelp,
      if_neg Bool.false_ne_true, accepted, fromExcept_ok, pure_bind, named, List.head?_cons,
      okOr_some, pure_bind, given, okOr_some, pure_bind, fresh]
    refine planned.bind ?_
    rintro rows s' rfl
    exact Returns.pure rfl
  exact prints_of_returns returns

end Printing

/-- **What an accepted command line prints.** Whatever the source and the window, wherever
the options stand: on files that are served, `partition-files` writes the plan of the files
and `partition` the rows of the plan of its file that are selected. If standard output takes
them, nothing goes to standard error; if it refuses, the process fails, and says why. The plan
of the files is one that the mapped planner promises. -/
theorem accepted_lines_print {ω : Type} (process : Process ω) (stdout : Stdout)
    (content : Path → Slice) (arguments : List OsString) (c : Arguments) (parts : Nat)
    (given : c.parts = some parts) (serves : process.Serves c)
    (ok : ∀ path ∈ c.files, served process.fs path = .ok (content path)) (os : ω) :
    (scanPartitionFiles arguments = .ok c → c.files ≠ [] →
      ((c.files.map content).map Slice.len).sum < 2 ^ 64 →
      Cli.LogicalContract (c.files.map content) parts c.delimiter
        (filesPlan (c.files.map content) parts c.delimiter) ∧
      process.Prints stdout (.ofText "partition-files" :: arguments) (opened os)
        (writeAssignments (filesPlan (c.files.map content) parts c.delimiter))) ∧
    ∀ file, scanPartition arguments = .ok c → c.files = [file] → (∀ k ∈ c.worker, k < parts) →
      process.Prints stdout (.ofText "partition" :: arguments) (opened os)
        (writeRows (selectedRows content file parts c)) := by
  constructor
  · intro accepted some_ fits
    obtain ⟨words, -, -, arranged⟩ := partitionFiles_loop.scan_ok_iff.mp accepted
    have contract := Cli.logicalPlan_contract (c.files.map content) (arranged.parts_pos given)
      arranged.delimiter_ne_nil
    exact ⟨contract, partitionFiles_prints accepted given some_ serves ok fits (opened os)⟩
  · intro file accepted named worker
    have okFile := ok file (by rw [named]; exact List.mem_singleton.mpr rfl)
    exact partition_prints accepted given named worker serves okFile (opened os) rfl

/-- A process on the files of `Cli.mixedFiles`. -/
def mixedProcess : Process Unit where
  system := Cli.readsAll
  allocate _ := some 0
  stat _ := .error notFound
  fs := Cli.mixedFiles
  helpText := []
  versionText := []
  panicText := []
  printPanicText _ := []

/-- A device without space. -/
def fullDevice : Stdout where
  write _ := ([], some ⟨.other, "No space left on device"⟩)
  arrives _ := List.nil_prefix

/-- Two records in two parts, for both commands, and on a device without space. -/
theorem accepted_lines_print_two :
    mixedProcess.main .pipe [.ofText "partition-files", .ofText "--parts", .ofText "2",
        .ofText "a"] (opened ()) =
      ⟨0, writeAssignments (filesPlan [Scanner.twoRecords] 2 [10]), []⟩ ∧
    mixedProcess.main .pipe [.ofText "partition", .ofText "--parts", .ofText "2", .ofText "a"]
        (opened ()) =
      ⟨0, writeRows (Ranges.workerRows (Scanner.partitionPlan Scanner.twoRecords.bytes 2 [10])
        none), []⟩ ∧
    mixedProcess.main fullDevice [.ofText "partition", .ofText "--parts", .ofText "2",
        .ofText "a"] (opened ()) =
      ⟨1, [], failure "failed to write output: No space left on device"⟩ := by
  have printed (stdout : Stdout) := accepted_lines_print mixedProcess stdout
    (fun _ => Scanner.twoRecords) [.ofText "--parts", .ofText "2", .ofText "a"]
    ⟨["a"], some 2, [10], false, none, .mmap, false, none⟩ 2 rfl
    ⟨fun given => absurd given Bool.false_ne_true, fun other => absurd rfl other,
      fun other => absurd rfl other⟩
    (by simp [mixedProcess, Cli.mixedFiles, served, FileSystem.follow]) ()
  have files := (printed .pipe).1 rfl (List.cons_ne_nil _ _) (by decide)
  have rows (stdout : Stdout) :=
    (printed stdout).2 "a" rfl rfl fun k mem => absurd mem (Option.not_mem_none k)
  refine ⟨files.2.takes _ rfl, (rows .pipe).takes _ rfl, ?_⟩
  exact (rows fullDevice).refuses [] ⟨.other, "No space left on device"⟩ rfl

end Command
