import MmapChunker.Engine.Chunker
import MmapChunker.Ranges.Planner

/-!
`partition` and its workers (`src/bin/mmap-chunker.rs`).

`runPartition` dispatches on the source: a mapped file is cut by a `MmapChunker` and its
chunks are turned back into offsets, any other source goes through `planPartitionRanges`.
With `--worker K` only the row with index `K` is printed.

Every invocation plans on its own. `runPartition_returns` says that all of them see the
same rows, and `workers_cover_file` that the workers print each of them once.
-/

namespace Ranges

open Machine Exec Tiling Scanner Source Mmap Pin Plan
open Chunker (MmapChunker mmapChunkerOpen Scan Stores runFrom_gated_passed)
open Cli (System ServesFiles openError defaultWindowBytes defaultScanBufferBytes)

/-! ### Source -/

/-- A printed row. -/
structure Row where
  index : Nat
  start : Nat
  stop : Nat
  length : Nat
  deriving Repr, DecidableEq

/-- `--source` and `--window`, as `parse_window` accepts it. -/
structure SourceArgs where
  source : SourceMode
  window : Option Nat
  window_ge : ∀ w ∈ window, viewAlignment ≤ w
  window_le : ∀ w ∈ window, w ≤ usizeMax

/-- The indices of the rows to print. -/
def selected (worker : Option Nat) (count : Nat) : List Nat :=
  match worker with
  | some index => if index < count then [index] else []
  | none => List.range count

/-- The row of a chunk: its offset from the start of the mapping, and its length. -/
def chunkRow (chunker : MmapChunker) (index : Nat) : Option Row := do
  let found ← chunker.getChunk index
  let chunk ← found
  let start ← subU64 chunk.addr chunker.mmap.addr
  let stop ← addU64 start chunk.len
  return ⟨index, start, stop, chunk.len⟩

/-- The row of a planned range. -/
def rangeRow (ranges : List (Nat × Nat)) (index : Nat) : Option Row := do
  let (start, stop) ← ranges[index]?
  let length ← subU64 stop start
  return ⟨index, start, stop, length⟩

section Source

variable {σ ω : Type}

/-- `emit_indexed_chunks`, up to the output. -/
def emitIndexedChunks (chunker : MmapChunker) (count : Nat) (worker : Option Nat) :
    Exec σ String (List Row) :=
  orPanic ((selected worker count).mapM (chunkRow chunker))

/-- `emit_partitions` and `emit_partitions_pattern`: open the file, scan it, emit. -/
def emitScanned (fs : FileSystem) (path : Path) (scan : Chunker.Method Nat)
    (worker : Option Nat) : Exec σ String (List Row) := do
  let chunker ← step fun s => ((mmapChunkerOpen fs path).mapError (openError path), s)
  match runFrom scan chunker with
  | some (.ok count, chunker) => emitIndexedChunks chunker count worker
  | _ => orPanic none

/-- `emit_partitions`. -/
def emitPartitions (stat : Stat) (fs : FileSystem) (path : Path) (parts : Nat) (delimiter : UInt8)
    (worker : Option Nat) : Exec σ String (List Row) :=
  emitScanned fs path (MmapChunker.partitionRecords stat parts delimiter) worker

/-- `emit_partitions_pattern`. -/
def emitPartitionsPattern (stat : Stat) (fs : FileSystem) (path : Path) (parts : Nat)
    (delimiter : List UInt8) (worker : Option Nat) : Exec σ String (List Row) :=
  emitScanned fs path (MmapChunker.partitionRecordsPattern stat parts delimiter) worker

/-- `emit_partitions_for_delimiter`. -/
def emitPartitionsForDelimiter (stat : Stat) (fs : FileSystem) (path : Path) (parts : Nat)
    (delimiter : List UInt8) (worker : Option Nat) : Exec σ String (List Row) :=
  if delimiter.length = 1 then do
    let byte ← orPanic delimiter[0]?
    emitPartitions stat fs path parts byte worker
  else emitPartitionsPattern stat fs path parts delimiter worker

/-- The text of a failed plan. -/
def planError (path : Path) (error : IoError) : String :=
  "failed to plan " ++ path.display ++ ": " ++ error.message

/-- `emit_partitions_sourced`, up to the output. -/
def emitPartitionsSourced (system : System ω) (allocate : Nat → Option Nat) (fs : FileSystem)
    (path : Path) (parts : Nat) (delimiter : List UInt8) (worker : Option Nat)
    (options : PlannerOptions) : Exec (ViewState ω) String (List Row) := do
  let ranges ← mapErr (planError path)
    (planPartitionRanges system allocate fs path parts delimiter options)
  orPanic ((selected worker ranges.length).mapM (rangeRow ranges))

/-- The options of a sourced invocation: the default window, or `--window`. -/
def SourceArgs.options (args : SourceArgs) : PlannerOptions :=
  match given : args.window with
  | some windowBytes =>
      (PlannerOptions.new .windowed).withWindowBytes windowBytes (args.window_le _ given)
  | none => .new args.source

/-- `run_partition`, past the argument loop. -/
def runPartition (system : System ω) (allocate : Nat → Option Nat) (stat : Stat) (fs : FileSystem)
    (path : Path) (parts : Nat) (delimiter : List UInt8) (worker : Option Nat)
    (args : SourceArgs) : Exec (ViewState ω) String (List Row) := do
  throwIf (∃ k ∈ worker, parts ≤ k) "`--worker` must be less than `--parts`"
  throwIf (args.window.isSome = true ∧ args.source ≠ .windowed)
    "`--window` requires `--source windowed`"
  match args.source with
  | .mmap => emitPartitionsForDelimiter stat fs path parts delimiter worker
  | .windowed => emitPartitionsSourced system allocate fs path parts delimiter worker args.options
  | .pread => emitPartitionsSourced system allocate fs path parts delimiter worker args.options

end Source

/-! ### The rows of a plan -/

/-- The range a row speaks of. -/
def Row.range (row : Row) : Nat × Nat := (row.start, row.stop)

/-- The rows of a plan. -/
def planRows (ranges : List (Nat × Nat)) : List Row :=
  ranges.zipIdx.map fun ((start, stop), index) => ⟨index, start, stop, stop - start⟩

/-- The rows an invocation prints of it. -/
def workerRows (ranges : List (Nat × Nat)) (worker : Option Nat) : List Row :=
  match worker with
  | some index => (planRows ranges)[index]?.toList
  | none => planRows ranges

section Rows

variable {ranges : List (Nat × Nat)}

theorem getElem?_planRows (ranges : List (Nat × Nat)) (index : Nat) :
    (planRows ranges)[index]? =
      ranges[index]?.map fun (start, stop) => ⟨index, start, stop, stop - start⟩ := by
  simp only [planRows, List.getElem?_map, List.getElem?_zipIdx, Option.map_map, Nat.zero_add]
  rfl

theorem length_planRows (ranges : List (Nat × Nat)) : (planRows ranges).length = ranges.length := by
  simp [planRows]

theorem map_range_planRows (ranges : List (Nat × Nat)) :
    (planRows ranges).map Row.range = ranges := by
  simp only [planRows, List.map_map]
  exact List.zipIdx_map_fst 0 ranges

/-- Rows that are read one by one are the rows of the plan. -/
theorem mapM_selected {row : Nat → Option Row}
    (eq : ∀ index start stop, ranges[index]? = some (start, stop) →
      row index = some ⟨index, start, stop, stop - start⟩) (worker : Option Nat) :
    (selected worker ranges.length).mapM row = some (workerRows ranges worker) := by
  have each : ∀ index < ranges.length, row index = (planRows ranges)[index]? := by
    intro index lt
    have here := List.getElem?_eq_getElem lt
    rw [getElem?_planRows, here]
    exact eq index _ _ here
  unfold selected workerRows
  cases worker with
  | some index =>
      dsimp only
      split
      · rename_i lt
        rw [List.mapM_cons, each index lt, List.getElem?_eq_getElem (by rwa [length_planRows])]
        rfl
      · rename_i beyond
        rw [List.getElem?_eq_none (by rw [length_planRows]; exact Nat.not_lt.mp beyond)]
        rfl
  | none =>
      have upTo : ∀ n ≤ ranges.length,
          (List.range n).mapM row = some ((planRows ranges).take n) := by
        intro n le
        induction n with
        | zero => rfl
        | succ n ih =>
            rw [List.range_succ, List.mapM_append, ih (by omega), List.mapM_cons, each n le,
              List.take_add_one, List.getElem?_eq_getElem (by rwa [length_planRows])]
            rfl
      have all := upTo ranges.length le_rfl
      rwa [List.take_of_length_le (length_planRows ranges).le] at all

/-- The rows of the workers, one after the other, are the rows of the plan. -/
theorem flatMap_workerRows {parts : Nat} (le : ranges.length ≤ parts) :
    (List.range parts).flatMap (fun k => workerRows ranges (some k)) = workerRows ranges none := by
  have short : (planRows ranges).length ≤ parts := by rwa [length_planRows]
  calc (List.range parts).flatMap (fun k => workerRows ranges (some k))
    _ = (List.range parts).flatMap fun k => ((planRows ranges)[k]?).elim [] fun row => [row] := by
        refine List.flatMap_congr fun k _ => ?_
        rw [workerRows]
        cases (planRows ranges)[k]? <;> rfl
    _ = workerRows ranges none := by
        rw [flatMap_range_getElem? short, List.flatMap_singleton']
        rfl

end Rows

/-! ### What an invocation prints -/

section Invocations

variable {ω : Type} {fs : FileSystem} {path : Path} {data : Slice} {parts : Nat}
  {delimiter : List UInt8}

/-- A chunk of a stored plan, turned back into a row. -/
theorem chunkRow_eq {chunker : MmapChunker} {layout : List (Nat × Nat)}
    (lays : chunker.plan.Lays chunker.mmap.len layout)
    (tiles : Tiles 0 chunker.mmap.len layout) {index start stop : Nat}
    (here : layout[index]? = some (start, stop)) :
    chunkRow chunker index = some ⟨index, start, stop, stop - start⟩ := by
  obtain ⟨-, nonempty, inside⟩ := tiles.bounds (List.mem_of_getElem? here)
  have small := chunker.mmap.len_le_usizeMax
  have len : (chunker.mmap.window start (stop - start)).len = stop - start :=
    Slice.len_window (by omega)
  have offset : subU64 (chunker.mmap.addr + start) chunker.mmap.addr = some start := by
    rw [subU64_eq (Nat.le_add_right _ _), Nat.add_sub_cancel_left]
  have found : chunker.getChunk index = some (some (chunker.mmap.window start (stop - start))) := by
    rw [MmapChunker.getChunk, lays.rangeAt_eq, here]
    dsimp only
    rw [Slice.range_eq nonempty.le inside]
    rfl
  have finish : addU64 start (stop - start) = some stop := by
    rw [addU64_eq (by omega), Nat.add_sub_cancel' nonempty.le]
  simp only [chunkRow, found, Option.bind_eq_bind, Option.bind_some, len]
  change (subU64 (chunker.mmap.addr + start) chunker.mmap.addr).bind _ = _
  rw [offset, Option.bind_some, finish]
  rfl

/-- A mapped invocation prints the rows of the plan its scan stores. -/
theorem emitScanned_returns (ok : served fs path = .ok data) (scan : Scan) (stat : Stat)
    {layout : List (Nat × Nat)} (eq : scan.layout data.bytes = layout)
    (feasible : scan.Feasible data.len) (tiles : Tiles 0 data.len layout) (worker : Option Nat)
    {σ : Type} (s : σ) :
    Returns (emitScanned fs path (scan.method stat) worker) s fun rows _ =>
      rows = workerRows layout worker := by
  obtain ⟨body, method, stores⟩ := scan.method_eq stat
  have opens : mmapChunkerOpen fs path = .ok (Chunker.opened data none) := by
    rw [mmapChunkerOpen, mmapFileOpenPath_ok_iff.mpr ok]
    rfl
  have unpinned : (Chunker.opened data none).Passes stat := fun _ pin => by cases pin
  rcases stores (Chunker.opened data none) with ⟨-, plan, lays, -, run⟩ | ⟨infeasible, -⟩
  · have laid : plan.Lays data.len layout := eq ▸ lays
    have rows : emitIndexedChunks ⟨data, plan, none, none⟩ plan.len worker =
        (pure (workerRows layout worker) : Exec σ String (List Row)) := by
      rw [emitIndexedChunks, laid.len_eq, mapM_selected, orPanic_some]
      intro index start stop here
      exact chunkRow_eq laid tiles here
    have scanned : runFrom (MmapChunker.gated stat body) (Chunker.opened data none) =
        some (.ok plan.len, ⟨data, plan, none, none⟩) :=
      (runFrom_gated_passed unpinned fun _ => rfl).trans run
    refine ⟨workerRows layout worker, s, ?_, rfl⟩
    rw [emitScanned, runFrom_bind, runFrom_step, opens, method]
    dsimp only [Except.mapError]
    rw [scanned]
    dsimp only
    rw [rows]
    rfl
  · exact absurd feasible infeasible

/-- A mapped invocation prints the rows of the plan. -/
theorem emitPartitionsForDelimiter_returns (ok : served fs path = .ok data) (stat : Stat)
    (pos : 1 ≤ parts) (ne : delimiter ≠ []) (worker : Option Nat) {σ : Type} (s : σ) :
    Returns (emitPartitionsForDelimiter stat fs path parts delimiter worker) s fun rows _ =>
      rows = workerRows (partitionPlan data.bytes parts delimiter) worker := by
  have some_ : parts ≠ 0 := Nat.pos_iff_ne_zero.mp pos
  have tiles := tiles_partitionPlan ne data.bytes parts
  rw [emitPartitionsForDelimiter]
  split
  · rename_i one
    obtain ⟨byte, rfl⟩ := List.length_eq_one_iff.mp one
    rw [List.getElem?_cons_zero, orPanic_some, pure_bind]
    exact emitScanned_returns ok (.records parts byte) stat (if_neg some_) trivial tiles worker s
  · exact emitScanned_returns ok (.recordsPattern parts delimiter) stat (if_neg some_) (.inr ne)
      tiles worker s

/-- A sourced invocation prints the rows of the plan. -/
theorem emitPartitionsSourced_returns {system : System ω} {allocate : Nat → Option Nat}
    {options : PlannerOptions} (ok : served fs path = .ok data)
    (unhindered : Unhindered system allocate fs delimiter options) (pos : 1 ≤ parts)
    (ne : delimiter ≠ []) (worker : Option Nat) (s : ViewState ω) (fresh : s.view = none) :
    Returns (emitPartitionsSourced system allocate fs path parts delimiter worker options) s
      fun rows _ => rows = workerRows (partitionPlan data.bytes parts delimiter) worker := by
  rw [emitPartitionsSourced]
  refine (planPartitionRanges_returns ok unhindered pos ne s fresh).mapErr.bind ?_
  rintro ranges s' rfl
  rw [mapM_selected, orPanic_some]
  · exact Returns.pure rfl
  · intro index start stop here
    obtain ⟨-, nonempty, -⟩ :=
      (tiles_partitionPlan ne data.bytes parts).bounds (List.mem_of_getElem? here)
    rw [rangeRow, here]
    simp only [Option.bind_eq_bind, Option.bind_some, subU64_eq nonempty.le]
    rfl

/-- One invocation: its options, and the system it runs on. -/
structure Invocation (ω : Type) where
  args : SourceArgs
  system : System ω
  allocate : Nat → Option Nat
  stat : Stat
  os : ω

/-- The options go together, and the system serves an invocation that is not mapped. -/
structure Invocation.Fine (invocation : Invocation ω) (fs : FileSystem) (delimiter : List UInt8) :
    Prop where
  window : invocation.args.window.isSome = true → invocation.args.source = .windowed
  serves : invocation.args.source ≠ .mmap → ServesFiles invocation.system fs
  allocates : invocation.args.source ≠ .mmap → Allocates invocation.allocate
    (bufferLen defaultScanBufferBytes delimiter.length)

/-- `partition FILE --parts N`, with `--worker K` if there is a worker. -/
def Invocation.run (invocation : Invocation ω) (fs : FileSystem) (path : Path) (parts : Nat)
    (delimiter : List UInt8) (worker : Option Nat) : Exec (ViewState ω) String (List Row) :=
  runPartition invocation.system invocation.allocate invocation.stat fs path parts delimiter worker
    invocation.args

/-- The sourced planner is not hindered. -/
theorem Invocation.Fine.unhindered {invocation : Invocation ω} (fine : invocation.Fine fs delimiter)
    (sourced : invocation.args.source ≠ .mmap) :
    Unhindered invocation.system invocation.allocate fs delimiter invocation.args.options where
  serves := fine.serves sourced
  window := by
    unfold SourceArgs.options
    split
    · rename_i windowBytes given
      exact fun _ => invocation.args.window_ge windowBytes given
    · exact fun _ => (by decide : viewAlignment ≤ defaultWindowBytes)
  allocates := by
    have buffer : max invocation.args.options.scanBufferBytes 1 = defaultScanBufferBytes := by
      unfold SourceArgs.options
      split <;> rfl
    rw [buffer]
    exact fine.allocates sourced

/-- Every invocation sees the same plan, whatever its source. -/
theorem runPartition_returns {invocation : Invocation ω} (fine : invocation.Fine fs delimiter)
    (ok : served fs path = .ok data) (pos : 1 ≤ parts) (ne : delimiter ≠ []) {worker : Option Nat}
    (inside : ∀ k ∈ worker, k < parts) :
    Returns (invocation.run fs path parts delimiter worker) (opened invocation.os) fun rows _ =>
      rows = workerRows (partitionPlan data.bytes parts delimiter) worker := by
  have workerOk : ¬∃ k ∈ worker, parts ≤ k := by
    rintro ⟨k, mem, le⟩
    exact absurd (inside k mem) (Nat.not_lt.mpr le)
  have windowOk : ¬(invocation.args.window.isSome = true ∧ invocation.args.source ≠ .windowed) :=
    fun ⟨given, other⟩ => other (fine.window given)
  rw [Invocation.run, runPartition, throwIf, if_neg workerOk, pure_bind, throwIf, if_neg windowOk,
    pure_bind]
  cases source : invocation.args.source with
  | mmap => exact emitPartitionsForDelimiter_returns ok invocation.stat pos ne worker _
  | windowed =>
      have unhindered := fine.unhindered (by simp [source])
      exact emitPartitionsSourced_returns ok unhindered pos ne worker _ rfl
  | pread =>
      have unhindered := fine.unhindered (by simp [source])
      exact emitPartitionsSourced_returns ok unhindered pos ne worker _ rfl

end Invocations

/-- **Workers cover the file.** Over a file that does not change, `parts` workers and one
invocation without a worker, each with a source of its own, print rows such that those of
the workers, in their order, are those of the one invocation. They tile the file. -/
theorem workers_cover_file {ω : Type} (fs : FileSystem) (path : Path) (data : Slice)
    (ok : served fs path = .ok data) (parts : Nat) (pos : 1 ≤ parts) (delimiter : List UInt8)
    (ne : delimiter ≠ []) (invocation : Option Nat → Invocation ω)
    (fine : ∀ worker, (invocation worker).Fine fs delimiter) :
    ∃ printed : Option Nat → List Row,
      (∀ worker, (∀ k ∈ worker, k < parts) →
        Returns ((invocation worker).run fs path parts delimiter worker)
          (opened (invocation worker).os) fun rows _ => rows = printed worker) ∧
      (List.range parts).flatMap (fun k => printed (some k)) = printed none ∧
      Tiles 0 data.len ((printed none).map Row.range) ∧
      ∀ row ∈ printed none, row.length = row.stop - row.start := by
  refine ⟨workerRows (partitionPlan data.bytes parts delimiter), ?_, ?_, ?_, ?_⟩
  · intro worker inside
    exact runPartition_returns (fine worker) ok pos ne inside
  · apply flatMap_workerRows
    by_cases empty : data.bytes = []
    · rw [partitionPlan_empty parts delimiter (List.length_eq_zero_iff.mpr empty)]
      exact Nat.zero_le parts
    · exact (length_partitionPlan_le pos empty).trans (Nat.min_le_left _ _)
  · rw [workerRows, map_range_planRows]
    exact tiles_partitionPlan ne data.bytes parts
  · intro row mem
    obtain ⟨⟨⟨start, stop⟩, index⟩, -, rfl⟩ := List.mem_map.mp mem
    rfl

/-- Worker 1 maps windows, worker 2 reads, everyone else maps the file. -/
def mixedSources (worker : Option Nat) : Invocation Unit where
  args :=
    ⟨match worker with
      | some 1 => .windowed
      | some 2 => .pread
      | _ => .mmap, none, by simp, by simp⟩
  system := Cli.readsAll
  allocate _ := some 0
  stat _ := .error notFound
  os := ()

theorem workers_cover_file_mixedSources :
    served Cli.mixedFiles "a" = .ok twoRecords ∧ [(10 : UInt8)] ≠ [] ∧
      (∀ worker, (mixedSources worker).Fine Cli.mixedFiles [10]) ∧
      ∃ printed : Option Nat → List Row,
        (∀ worker, (∀ k ∈ worker, k < 3) →
          Returns ((mixedSources worker).run Cli.mixedFiles "a" 3 [10] worker) (opened ())
            fun rows _ => rows = printed worker) ∧
        (List.range 3).flatMap (fun k => printed (some k)) = printed none ∧
        Tiles 0 4 ((printed none).map Row.range) ∧
        ∀ row ∈ printed none, row.length = row.stop - row.start := by
  have fine : ∀ worker, (mixedSources worker).Fine Cli.mixedFiles [10] := fun worker =>
    ⟨fun given => by simp [mixedSources] at given, fun _ => Cli.readsAll_serves,
      fun _ => ⟨by decide, rfl⟩⟩
  exact ⟨rfl, by decide, fine, workers_cover_file Cli.mixedFiles "a" twoRecords rfl 3 (by decide)
    [10] (by decide) mixedSources fine⟩

end Ranges
