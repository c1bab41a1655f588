import MmapChunker.Engine.Pin
import MmapChunker.Engine.Plan
import MmapChunker.Mmap.Open
import MmapChunker.Scanner.Partition
import MmapChunker.Theory.Run

/-!
The Rust interface (`src/lib.rs`).

A `MmapChunker` keeps a mapping, the plan of the last scan, the pin of its path and the
last mismatch of that pin. The five scans ask the pin first; reading a chunk does not.

`scanStep_effect` says what a call can do, and `chunker_contract` what follows for every
sequence of calls, whatever becomes of the path meanwhile.
-/

namespace Chunker

open Machine Exec Calls Tiling Stride Scanner Source Mmap Pin Plan

/-! ### Source -/

/-- `MmapChunker`. -/
structure MmapChunker where
  mmap : Slice
  plan : ChunkPlan
  pinned : Option PinnedFile
  pinError : Option PinMismatch

/-- `MmapChunker::open`. -/
def mmapChunkerOpen (fs : FileSystem) (path : Path) : Except IoError MmapChunker := do
  let mmap ← mmapFileOpenPath fs path
  return ⟨mmap, .empty, none, none⟩

/-- `MmapChunker::open_pinned`. The path is looked up twice, so the file system may have
changed in between. -/
def mmapChunkerOpenPinned (stat : Stat) (fs : FileSystem) (path : Path) (flags : UInt32) :
    Except IoError MmapChunker := do
  let pinned ← PinnedFile.capture stat path flags
  let mmap ← mmapFileOpenPath fs path
  return ⟨mmap, .empty, some pinned, none⟩

/-- A panic. The chunker stays as it is at that moment. -/
inductive Panic where
  | panicked
  deriving Repr, DecidableEq

/-- A method that takes `&mut self`. -/
abbrev Method := Exec MmapChunker Panic

namespace MmapChunker

/-- `chunk_count`. -/
def chunkCount (chunker : MmapChunker) : Nat := chunker.plan.len

/-- `take_pin_error`. -/
def takePinError : Method (Option PinMismatch) :=
  step fun chunker => (.ok chunker.pinError, { chunker with pinError := none })

/-- `pin_status`. -/
def pinStatus (chunker : MmapChunker) : Except PinMismatch Unit :=
  match chunker.pinError with
  | some err => .error err
  | none => .ok ()

/-- `check_pinned`. -/
def checkPinned (stat : Stat) : Method Bool :=
  step fun chunker =>
    match chunker.pinned with
    | none => (.ok true, chunker)
    | some pinned =>
        match pinned.revalidate stat with
        | .ok () => (.ok true, { chunker with pinError := none })
        | .error err => (.ok false, { chunker with plan := .empty, pinError := some err })

/-- `self.plan = plan; self.plan.len()`. -/
def setPlan (plan : ChunkPlan) : Method Nat :=
  step fun chunker => (.ok plan.len, { chunker with plan })

/-- Store the ranges a scanner found, unless it panicked. -/
def setRanges (found : Option (List (Nat × Nat))) : Method Nat := do
  let ranges ← okOr found .panicked
  setPlan (.fromRanges ranges)

/-- The gate of the scans. -/
def gated (stat : Stat) (scan : Method Nat) : Method Nat := do
  if ← checkPinned stat then scan else return 0

/-- `scan_delimited`. -/
def scanDelimited (stat : Stat) (chunkSize : Nat) (delimiter : UInt8) : Method Nat :=
  gated stat do
    let chunker ← current
    if chunker.mmap.len = 0 then setPlan .empty
    else setRanges (findChunkBoundaries chunker.mmap chunkSize delimiter)

/-- `scan_delimited_pattern`. -/
def scanDelimitedPattern (stat : Stat) (chunkSize : Nat) (delimiter : List UInt8) : Method Nat :=
  gated stat do
    let chunker ← current
    if chunker.mmap.len = 0 then setPlan .empty
    else setRanges (findChunkBoundariesPattern chunker.mmap chunkSize delimiter)

/-- `scan_fixed`. -/
def scanFixed (stat : Stat) (chunkSize : Nat) : Method Nat :=
  gated stat do
    let chunker ← current
    setPlan (.ofFixed chunker.mmap.len chunkSize)

/-- `partition_records`. -/
def partitionRecords (stat : Stat) (numPartitions : Nat) (delimiter : UInt8) : Method Nat :=
  gated stat do
    let chunker ← current
    if chunker.mmap.len = 0 ∨ numPartitions = 0 then setPlan .empty
    else setRanges (findPartitionBoundaries chunker.mmap numPartitions delimiter)

/-- `partition_records_pattern`. -/
def partitionRecordsPattern (stat : Stat) (numPartitions : Nat) (delimiter : List UInt8) :
    Method Nat :=
  gated stat do
    let chunker ← current
    if chunker.mmap.len = 0 ∨ numPartitions = 0 then setPlan .empty
    else setRanges (findPartitionBoundariesPattern chunker.mmap numPartitions delimiter)

/-- `get_chunk`. -/
def getChunk (chunker : MmapChunker) (index : Nat) : Option (Option Slice) :=
  match chunker.plan.rangeAt index chunker.mmap.len with
  | none => some none
  | some (start, stop) => (chunker.mmap.range start stop).map some

end MmapChunker

/-! ### Calls -/

/-- The gated calls. -/
inductive Scan where
  | delimited (chunkSize : Nat) (delimiter : UInt8)
  | delimitedPattern (chunkSize : Nat) (delimiter : List UInt8)
  | fixed (chunkSize : Nat)
  | records (numPartitions : Nat) (delimiter : UInt8)
  | recordsPattern (numPartitions : Nat) (delimiter : List UInt8)
  deriving Repr, DecidableEq

def Scan.method (stat : Stat) : Scan → Method Nat
  | delimited size delimiter => MmapChunker.scanDelimited stat size delimiter
  | delimitedPattern size delimiter => MmapChunker.scanDelimitedPattern stat size delimiter
  | fixed size => MmapChunker.scanFixed stat size
  | records n delimiter => MmapChunker.partitionRecords stat n delimiter
  | recordsPattern n delimiter => MmapChunker.partitionRecordsPattern stat n delimiter

inductive Operation where
  | scan (scan : Scan)
  | takePinError
  | pinStatus
  | getChunk (index : Nat)
  deriving Repr, DecidableEq

/-- A call, and what the file system says of the paths at that moment. -/
structure Input where
  stat : Stat
  operation : Operation

/-- What the caller gets. -/
inductive Outcome where
  | count (n : Nat)
  | taken (err : Option PinMismatch)
  | status (result : Except PinMismatch Unit)
  | chunk (found : Option Slice)
  | panicked

/-- One call. -/
def chunkerStep (input : Input) (chunker : MmapChunker) : Option (Outcome × MmapChunker) :=
  match input.operation with
  | .scan scan =>
      (runFrom (scan.method input.stat) chunker).map fun (r, after) =>
        (match r with | .ok n => .count n | .error _ => .panicked, after)
  | .takePinError =>
      (runFrom MmapChunker.takePinError chunker).map fun (r, after) =>
        (match r with | .ok err => .taken err | .error _ => .panicked, after)
  | .pinStatus => some (.status chunker.pinStatus, chunker)
  | .getChunk index =>
      match chunker.getChunk index with
      | some found => some (.chunk found, chunker)
      | none => some (.panicked, chunker)

/-- A chunker as it is opened. -/
def opened (mmap : Slice) (pinned : Option PinnedFile) : MmapChunker :=
  ⟨mmap, .empty, pinned, none⟩

/-! ### What a scan does -/

/-- The ranges of a partitioning that may be into no parts. -/
def partitions (xs : List UInt8) (n : Nat) (delimiter : List UInt8) : List (Nat × Nat) :=
  if n = 0 then [] else partitionPlan xs n delimiter

/-- The ranges a scan asks for. -/
def Scan.layout (xs : List UInt8) : Scan → List (Nat × Nat)
  | delimited size delimiter => chunkPlan [delimiter] xs size
  | delimitedPattern size delimiter => chunkPlan delimiter xs size
  | fixed size => evenRanges xs.length (max size 1)
  | records n delimiter => partitions xs n [delimiter]
  | recordsPattern n delimiter => partitions xs n delimiter

/-- Over a mapping of `len` bytes the scan does not panic. -/
def Scan.Feasible (len : Nat) : Scan → Prop
  | delimited _ _ => True
  | delimitedPattern _ delimiter => len = 0 ∨ delimiter ≠ []
  | fixed _ => True
  | records _ _ => True
  | recordsPattern n delimiter => (len = 0 ∨ n = 0) ∨ delimiter ≠ []

/-- The pin, if there is one, passes. -/
def MmapChunker.Passes (chunker : MmapChunker) (stat : Stat) : Prop :=
  ∀ pinned, chunker.pinned = some pinned → pinned.revalidate stat = .ok ()

/-- If `feasible`, the computation stores a plan that stands for `layout` and returns its
count; otherwise it panics and changes nothing. -/
def Stores (scan : Method Nat) (chunker : MmapChunker) (layout : List (Nat × Nat))
    (feasible : Prop) : Prop :=
  (feasible ∧ ∃ plan : ChunkPlan, plan.Lays chunker.mmap.len layout ∧
    (layout ≠ [] → Tiles 0 chunker.mmap.len layout) ∧
    runFrom scan chunker = some (.ok plan.len, { chunker with plan })) ∨
  (¬feasible ∧ runFrom scan chunker = some (.error .panicked, chunker))

section Scans

variable {chunker : MmapChunker} {stat : Stat} {layout : List (Nat × Nat)}

theorem partitions_empty {xs : List UInt8} {n : Nat} (delimiter : List UInt8)
    (nothing : xs.length = 0 ∨ n = 0) : partitions xs n delimiter = [] := by
  unfold partitions
  split
  · rfl
  · rename_i some_
    exact partitionPlan_empty n delimiter (nothing.resolve_right some_)

theorem tiles_partitions {xs delimiter : List UInt8} {n : Nat} (some_ : n ≠ 0)
    (ne : delimiter ≠ []) : Tiles 0 xs.length (partitions xs n delimiter) := by
  rw [partitions, if_neg some_]
  exact tiles_partitionPlan ne xs n

/-- A scan of nothing stores the empty plan; any other stores what its scanner finds. -/
theorem stores_scan {p q : Prop} [Decidable p] [Decidable q]
    {found : Option (List (Nat × Nat))} (nothing : p → layout = [])
    (eq : ¬p → found = if q then some layout else none)
    (tiles : ¬p → q → Tiles 0 chunker.mmap.len layout) :
    Stores (if p then MmapChunker.setPlan .empty else MmapChunker.setRanges found) chunker
      layout (p ∨ q) := by
  by_cases holds : p
  · rw [if_pos holds, nothing holds]
    exact .inl ⟨.inl holds, .empty, ChunkPlan.lays_empty _, fun some_ => (some_ rfl).elim, rfl⟩
  · rw [if_neg holds, eq holds]
    by_cases possible : q
    · rw [if_pos possible]
      exact .inl ⟨.inr possible, _, ChunkPlan.lays_fromRanges layout _,
        fun _ => tiles holds possible, rfl⟩
    · rw [if_neg possible]
      exact .inr ⟨not_or.mpr ⟨holds, possible⟩, rfl⟩

/-- Every scan is gated, and behind the gate it stores its layout if it is feasible. -/
theorem Scan.method_eq (scan : Scan) (stat : Stat) : ∃ body,
    scan.method stat = MmapChunker.gated stat body ∧ ∀ chunker, Stores body chunker
      (scan.layout chunker.mmap.bytes) (scan.Feasible chunker.mmap.len) := by
  cases scan with
  | delimited size delimiter =>
      refine ⟨_, rfl, fun chunker => ?_⟩
      change Stores _ chunker _ True
      rw [← or_true (chunker.mmap.len = 0)]
      refine stores_scan (chunkPlan_empty _ _) (fun _ => ?_) fun _ _ => ?_
      · exact (findChunkBoundaries_eq _ _ _).trans (if_pos trivial).symm
      · exact tiles_chunkPlan (List.cons_ne_nil _ _) _ _
  | delimitedPattern size delimiter =>
      refine ⟨_, rfl, fun chunker => stores_scan (chunkPlan_empty _ _) (fun _ => ?_) ?_⟩
      · by_cases isEmpty : delimiter = []
        · rw [if_neg (not_not.mpr isEmpty), findChunkBoundariesPattern, if_pos isEmpty]
          rfl
        · rw [if_pos isEmpty]
          exact findChunkBoundariesPattern_eq _ _ isEmpty
      · exact fun _ isSome => tiles_chunkPlan isSome _ _
  | fixed size =>
      refine ⟨_, rfl, fun chunker => .inl ⟨trivial, ?_⟩⟩
      exact ⟨_, ChunkPlan.lays_ofFixed chunker.mmap.len_le_usizeMax size,
        fun _ => tiles_evenRanges (by omega) _, rfl⟩
  | records n delimiter =>
      refine ⟨_, rfl, fun chunker => ?_⟩
      change Stores _ chunker _ True
      rw [← or_true (chunker.mmap.len = 0 ∨ n = 0)]
      refine stores_scan (partitions_empty _) (fun something => ?_) fun something _ => ?_
      · have some_ := (not_or.mp something).2
        rw [findPartitionBoundaries_eq _ (Nat.pos_of_ne_zero some_), if_pos trivial]
        exact congrArg some (if_neg some_).symm
      · exact tiles_partitions (not_or.mp something).2 (List.cons_ne_nil _ _)
  | recordsPattern n delimiter =>
      refine ⟨_, rfl, fun chunker => stores_scan (partitions_empty _) (fun something => ?_) ?_⟩
      · have some_ := (not_or.mp something).2
        by_cases isEmpty : delimiter = []
        · rw [if_neg (not_not.mpr isEmpty), findPartitionBoundariesPattern, if_pos isEmpty]
          rfl
        · rw [if_pos isEmpty,
            findPartitionBoundariesPattern_eq _ (Nat.pos_of_ne_zero some_) isEmpty]
          exact congrArg some (if_neg some_).symm
      · exact fun something isSome => tiles_partitions (not_or.mp something).2 isSome

end Scans

/-! ### What a call does -/

/-- What a call does to a chunker. -/
inductive Effect (input : Input) (before : MmapChunker) : Outcome → MmapChunker → Prop where
  | caught {scan : Scan} {pinned : PinnedFile} {err : PinMismatch}
      (asked : input.operation = .scan scan) (pin : before.pinned = some pinned)
      (live : pinned.revalidate input.stat = .error err) :
      Effect input before (.count 0) { before with plan := .empty, pinError := some err }
  | scanned {scan : Scan} {plan : ChunkPlan} (asked : input.operation = .scan scan)
      (passes : before.Passes input.stat) (feasible : scan.Feasible before.mmap.len)
      (lays : plan.Lays before.mmap.len (scan.layout before.mmap.bytes))
      (tiles : scan.layout before.mmap.bytes ≠ [] →
        Tiles 0 before.mmap.len (scan.layout before.mmap.bytes)) :
      Effect input before (.count plan.len) { before with plan, pinError := none }
  | panicked {scan : Scan} (asked : input.operation = .scan scan)
      (passes : before.Passes input.stat) (infeasible : ¬scan.Feasible before.mmap.len) :
      Effect input before .panicked { before with pinError := none }
  | taken (asked : input.operation = .takePinError) :
      Effect input before (.taken before.pinError) { before with pinError := none }
  | peeked (asked : input.operation = .pinStatus) :
      Effect input before (.status before.pinStatus) before
  | read {index : Nat} {found : Option Slice} (asked : input.operation = .getChunk index)
      (there : found.isSome = true ↔ index < before.chunkCount) :
      Effect input before (.chunk found) before

/-- What holds between two calls of a chunker over `mmap` with the pin `pinned`. -/
structure Invariant (mmap : Slice) (pinned : Option PinnedFile) (chunker : MmapChunker) :
    Prop where
  mmap_eq : chunker.mmap = mmap
  pinned_eq : chunker.pinned = pinned
  /-- The plan is empty, or its ranges tile the mapping. -/
  covers : chunker.plan.Covers mmap.len
  /-- With a stashed error there is no plan. -/
  stashed : chunker.pinError ≠ none → chunker.plan = .empty ∧ chunker.chunkCount = 0
  /-- Without a pin there is no error. -/
  unpinned : chunker.pinned = none → chunker.pinError = none

section Calls

variable {mmap : Slice} {pinned : Option PinnedFile} {chunker : MmapChunker} {stat : Stat}

/-- Reading a chunk does not panic, and finds one exactly below the count. -/
theorem getChunk_eq (covers : chunker.plan.Covers chunker.mmap.len) (index : Nat) :
    ∃ found, chunker.getChunk index = some found ∧
      (found.isSome = true ↔ index < chunker.chunkCount) := by
  unfold MmapChunker.getChunk MmapChunker.chunkCount
  rcases covers with isEmpty | ⟨layout, lays, -, tiles⟩
  · rw [isEmpty]
    exact ⟨none, rfl, by simp [ChunkPlan.len]⟩
  · rw [lays.rangeAt_eq, lays.len_eq]
    cases found : layout[index]? with
    | none =>
        have beyond := List.getElem?_eq_none_iff.mp found
        exact ⟨none, rfl, by simpa using beyond⟩
    | some range =>
        obtain ⟨start, stop⟩ := range
        obtain ⟨within, -⟩ := List.getElem?_eq_some_iff.mp found
        obtain ⟨-, nonempty, inside⟩ := tiles.bounds (List.mem_of_getElem? found)
        refine ⟨some (chunker.mmap.window start (stop - start)), ?_, by simpa using within⟩
        dsimp only
        rw [Slice.range_eq nonempty.le inside]
        rfl

theorem runFrom_gated_caught {pinned : PinnedFile} {err : PinMismatch} {scan : Method Nat}
    (pin : chunker.pinned = some pinned) (live : pinned.revalidate stat = .error err) :
    runFrom (MmapChunker.gated stat scan) chunker =
      some (.ok 0, { chunker with plan := .empty, pinError := some err }) := by
  rw [MmapChunker.gated, runFrom_bind, MmapChunker.checkPinned, runFrom_step, pin]
  dsimp only
  rw [live]
  rfl

theorem runFrom_gated_passed {scan : Method Nat} (passes : chunker.Passes stat)
    (unpinned : chunker.pinned = none → chunker.pinError = none) :
    runFrom (MmapChunker.gated stat scan) chunker =
      runFrom scan { chunker with pinError := none } := by
  obtain ⟨mmap, plan, pin, pinError⟩ := chunker
  rw [MmapChunker.gated, runFrom_bind, MmapChunker.checkPinned, runFrom_step]
  cases pin with
  | none =>
      obtain rfl : pinError = none := unpinned rfl
      rfl
  | some pinned =>
      dsimp only
      rw [passes pinned rfl]
      rfl

theorem exists_error_of_not_passes (fails : ¬chunker.Passes stat) : ∃ pinned err,
    chunker.pinned = some pinned ∧ pinned.revalidate stat = .error err := by
  by_contra none_
  refine fails fun pinned pin => ?_
  cases live : pinned.revalidate stat with
  | ok => rfl
  | error err => exact (none_ ⟨pinned, err, pin, live⟩).elim

/-- Every call does what `Effect` says. -/
theorem chunkerStep_effect (holds : Invariant mmap pinned chunker) (input : Input) :
    ∃ outcome after, chunkerStep input chunker = some (outcome, after) ∧
      Effect input chunker outcome after := by
  unfold chunkerStep
  cases asked : input.operation with
  | scan scan =>
      obtain ⟨body, method, stores⟩ := scan.method_eq input.stat
      dsimp only
      rw [method]
      by_cases passes : chunker.Passes input.stat
      · rw [runFrom_gated_passed passes holds.unpinned]
        rcases stores { chunker with pinError := none } with
          ⟨feasible, plan, lays, tiles, run⟩ | ⟨infeasible, run⟩
        · rw [run]
          exact ⟨_, _, rfl, .scanned asked passes feasible lays tiles⟩
        · rw [run]
          exact ⟨_, _, rfl, .panicked asked passes infeasible⟩
      · obtain ⟨_, err, pin, live⟩ := exists_error_of_not_passes passes
        rw [runFrom_gated_caught pin live]
        exact ⟨_, _, rfl, .caught asked pin live⟩
  | takePinError => exact ⟨_, _, rfl, .taken asked⟩
  | pinStatus => exact ⟨_, _, rfl, .peeked asked⟩
  | getChunk index =>
      obtain ⟨found, eq, there⟩ := getChunk_eq (holds.mmap_eq ▸ holds.covers) index
      dsimp only
      rw [eq]
      exact ⟨_, _, rfl, .read asked there⟩

/-- Every call keeps the invariant. -/
theorem Invariant.kept (holds : Invariant mmap pinned chunker) {input : Input} {outcome : Outcome}
    {after : MmapChunker} (effect : Effect input chunker outcome after) :
    Invariant mmap pinned after := by
  obtain ⟨rfl, rfl, covers, stashed, unpinned⟩ := holds
  cases effect with
  | caught asked pin live =>
      exact ⟨rfl, rfl, .inl rfl, fun _ => ⟨rfl, rfl⟩, fun none_ => by cases pin.symm.trans none_⟩
  | scanned asked passes feasible lays tiles =>
      exact ⟨rfl, rfl, lays.covers tiles, fun some_ => (some_ rfl).elim, fun _ => rfl⟩
  | panicked asked passes infeasible =>
      exact ⟨rfl, rfl, covers, fun some_ => (some_ rfl).elim, fun _ => rfl⟩
  | taken asked => exact ⟨rfl, rfl, covers, fun some_ => (some_ rfl).elim, fun _ => rfl⟩
  | peeked asked => exact ⟨rfl, rfl, covers, stashed, unpinned⟩
  | read asked there => exact ⟨rfl, rfl, covers, stashed, unpinned⟩

end Calls

/-! ### Runs -/

abbrev ChunkerCall := Call Input MmapChunker Outcome

/-- What is known of a run: the invariant after it and before each call, and what each
call did. -/
structure Traced (mmap : Slice) (pinned : Option PinnedFile) (calls : List ChunkerCall)
    (s : MmapChunker) : Prop where
  invariant : Invariant mmap pinned s
  before : ∀ call ∈ calls, Invariant mmap pinned call.before
  effect : ∀ call ∈ calls, Effect call.input call.before call.outcome call.after

section Traces

variable {mmap : Slice} {pinned : Option PinnedFile}

theorem traced_opened (mmap : Slice) (pinned : Option PinnedFile) :
    Traced mmap pinned [] (opened mmap pinned) where
  invariant := ⟨rfl, rfl, .inl rfl, fun some_ => (some_ rfl).elim, fun _ => rfl⟩
  before _ mem := (List.not_mem_nil mem).elim
  effect _ mem := (List.not_mem_nil mem).elim

/-- One more call. -/
theorem Traced.call (calls : List ChunkerCall) (input : Input) (s : MmapChunker)
    (traced : Traced mmap pinned calls s) :
    ∃ outcome after, chunkerStep input s = some (outcome, after) ∧
      Traced mmap pinned (calls ++ [⟨s, input, outcome, after⟩]) after := by
  obtain ⟨outcome, after, stepped, effect⟩ := chunkerStep_effect traced.invariant input
  refine ⟨outcome, after, stepped, traced.invariant.kept effect, fun call mem => ?_,
    fun call mem => ?_⟩
  · rcases List.mem_append.mp mem with old | new
    · exact traced.before call old
    · exact List.mem_singleton.mp new ▸ traced.invariant
  · rcases List.mem_append.mp mem with old | new
    · exact traced.effect call old
    · exact List.mem_singleton.mp new ▸ effect

theorem exists_chunker_run (mmap : Slice) (pinned : Option PinnedFile) (inputs : List Input) :
    ∃ calls s, Run chunkerStep (opened mmap pinned) calls s ∧ calls.map Call.input = inputs := by
  obtain ⟨calls, s, run, same, -⟩ := exists_run chunkerStep (opened mmap pinned)
    (Traced mmap pinned) (traced_opened mmap pinned) Traced.call inputs
  exact ⟨calls, s, run, same⟩

theorem traced_of_run {calls : List ChunkerCall} {s : MmapChunker}
    (run : Run chunkerStep (opened mmap pinned) calls s) : Traced mmap pinned calls s :=
  every_run chunkerStep (opened mmap pinned) (Traced mmap pinned) (traced_opened mmap pinned)
    Traced.call run

end Traces

/-- What the interface promises of a call. -/
structure Contract (call : ChunkerCall) : Prop where
  /-- A scan that finds the path changed returns 0, empties the plan and keeps the error. -/
  caught : ∀ scan pinned, call.input.operation = .scan scan → call.before.pinned = some pinned →
    pinned.Changed call.input.stat → call.outcome = .count 0 ∧ call.after.plan = .empty ∧
      ∃ err, pinned.revalidate call.input.stat = .error err ∧ call.after.pinError = some err
  /-- A scan that passes clears the error. -/
  passed : ∀ scan, call.input.operation = .scan scan → call.before.Passes call.input.stat →
    call.after.pinError = none
  /-- A chunk is there exactly below the count. -/
  chunk : ∀ index, call.input.operation = .getChunk index → ∃ found,
    call.outcome = .chunk found ∧ (found.isSome = true ↔ index < call.before.chunkCount)

theorem Effect.contract {input : Input} {before after : MmapChunker} {outcome : Outcome}
    (effect : Effect input before outcome after) :
    Contract ⟨before, input, outcome, after⟩ := by
  have fails : ∀ {pinned}, before.pinned = some pinned → pinned.Changed input.stat →
      ¬ before.Passes input.stat := by
    intro pinned pin changed passes
    obtain ⟨err, live⟩ := revalidate_of_changed changed
    cases live.symm.trans (passes pinned pin)
  cases effect with
  | caught asked pin live =>
      refine ⟨fun _ _ _ pin' _ => ?_, fun _ _ passes => ?_, fun _ other => ?_⟩
      · cases pin.symm.trans pin'
        exact ⟨rfl, rfl, _, live, rfl⟩
      · cases live.symm.trans (passes _ pin)
      · cases asked.symm.trans other
  | scanned asked passes feasible lays tiles =>
      refine ⟨fun _ _ _ pin changed => (fails pin changed passes).elim, fun _ _ _ => rfl,
        fun _ other => ?_⟩
      cases asked.symm.trans other
  | panicked asked passes infeasible =>
      refine ⟨fun _ _ _ pin changed => (fails pin changed passes).elim, fun _ _ _ => rfl,
        fun _ other => ?_⟩
      cases asked.symm.trans other
  | taken asked =>
      refine ⟨fun _ _ other => ?_, fun _ other => ?_, fun _ other => ?_⟩ <;>
        cases asked.symm.trans other
  | peeked asked =>
      refine ⟨fun _ _ other => ?_, fun _ other => ?_, fun _ other => ?_⟩ <;>
        cases asked.symm.trans other
  | read asked there =>
      refine ⟨fun _ _ other => ?_, fun _ other => ?_, fun _ same => ?_⟩
      · cases asked.symm.trans other
      · cases asked.symm.trans other
      · cases asked.symm.trans same
        exact ⟨_, rfl, there⟩

/-- **The chunker contract.** Every sequence of calls runs to its end, with any sizes,
counts and delimiters and whatever the file system says at each call. In every state
that is reached the invariant holds, and every call has kept the contract. -/
theorem chunker_contract (mmap : Slice) (pinned : Option PinnedFile) :
    (∀ inputs, ∃ calls s, Run chunkerStep (opened mmap pinned) calls s ∧
      calls.map Call.input = inputs) ∧
    ∀ calls s, Run chunkerStep (opened mmap pinned) calls s →
      Invariant mmap pinned s ∧ ∀ call ∈ calls, Contract call := by
  constructor
  · intro inputs
    exact exists_chunker_run mmap pinned inputs
  · intro calls s run
    have traced := traced_of_run run
    exact ⟨traced.invariant, fun call mem => (traced.effect call mem).contract⟩

end Chunker
