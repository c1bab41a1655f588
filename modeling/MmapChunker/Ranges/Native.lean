import MmapChunker.Engine.Ffi
import MmapChunker.Ranges.Planner

/-!
Planning through the C interface (`src/ffi.rs`).

`mmapEnginePlanPartitionRanges` checks its arguments, plans, and writes to the memory of
the caller: first the count, then, if the capacity suffices, the ranges.

The file may be replaced between two calls, so a call is given a `Snapshot` of its own.
`Answered` says what a call may return and what it has written then, and
`native_call_answered` that it does nothing else.
-/

namespace Ranges

open Machine Exec Scanner Source Mmap
open Cli (System ServesFiles)
open Ffi (ErrorBuffer DelimiterArg setError clearError bytes_ne_nil)

/-! ### Source -/

/-- `SOURCE_MODE_MMAP`. -/
def sourceModeMmap : UInt32 := 0

/-- `SOURCE_MODE_WINDOWED`. -/
def sourceModeWindowed : UInt32 := 1

/-- `SOURCE_MODE_PREAD`. -/
def sourceModePread : UInt32 := 2

/-- The match on `source_mode`. -/
def sourceModeOf (sourceMode : UInt32) : Option SourceMode :=
  if sourceMode = sourceModeMmap then some .mmap
  else if sourceMode = sourceModeWindowed then some .windowed
  else if sourceMode = sourceModePread then some .pread
  else none

/-- The arguments of `mmap_engine_plan_partition_ranges`, but for the memory it writes. A
null path is `none`. -/
structure RangesArgs where
  path : Option Path
  requestedPartitions : Nat
  delimiter : DelimiterArg
  sourceMode : UInt32
  windowBytes : Nat
  outRangesIsNull : Bool
  capacity : Nat
  outCountIsNull : Bool
  window_le : windowBytes ≤ usizeMax

/-- The memory behind `out_count` and `out_ranges`. -/
structure OutMemory where
  outCount : Nat
  outRanges : Nat → Nat × Nat

/-- Why the call returns -1. -/
inductive RangesError where
  | pathNull
  | delimiterEmpty
  | delimiterNull
  | delimiterTooLong
  | outCountNull
  | outRangesNull
  | zeroPartitions
  | unknownSourceMode
  | planning (error : IoError)
  deriving Repr, DecidableEq

/-- The text it leaves behind. -/
def RangesError.message : RangesError → String
  | pathNull => "path is null"
  | delimiterEmpty => "delimiter_len must be > 0"
  | delimiterNull => "delimiter is null"
  | delimiterTooLong => "delimiter_len exceeds supported range"
  | outCountNull => "out_count is null"
  | outRangesNull => "out_ranges is null with non-zero capacity"
  | zeroPartitions => "requested_partitions must be > 0"
  | unknownSourceMode => "source_mode must be 0 (mmap), 1 (windowed), or 2 (pread)"
  | planning error => "range planning failed: " ++ error.message

/-- What one call sees: the file system, and the system that maps and reads its files. -/
structure Snapshot (ω : Type) where
  fs : FileSystem
  system : System ω
  allocate : Nat → Option Nat

section Source

variable {ω : Type}

/-- The checks of the arguments. -/
def checkArgs {σ : Type} (args : RangesArgs) : Exec σ RangesError (Path × SourceMode) := do
  let path ← okOr args.path .pathNull
  throwIf (args.delimiter.len = 0) .delimiterEmpty
  throwIf (args.delimiter.memory.isNone = true) .delimiterNull
  throwIf (isizeMax < args.delimiter.len) .delimiterTooLong
  throwIf (args.outCountIsNull = true) .outCountNull
  throwIf (0 < args.capacity ∧ args.outRangesIsNull = true) .outRangesNull
  throwIf (args.requestedPartitions = 0) .zeroPartitions
  let mode ← okOr (sourceModeOf args.sourceMode) .unknownSourceMode
  return (path, mode)

/-- The options of a call. -/
def RangesArgs.options (args : RangesArgs) (mode : SourceMode) : PlannerOptions :=
  (PlannerOptions.new mode).withWindowBytes args.windowBytes args.window_le

/-- The call up to its writes. -/
def plannedRanges (snapshot : Snapshot ω) (args : RangesArgs) :
    Exec (ViewState ω) RangesError (List (Nat × Nat)) := do
  let (path, mode) ← checkArgs args
  mapErr .planning (planPartitionRanges snapshot.system snapshot.allocate snapshot.fs path
    args.requestedPartitions args.delimiter.bytes (args.options mode))

/-- `(*out_ranges.add(index)) = range`. -/
def OutMemory.writeRange (memory : OutMemory) (entry : (Nat × Nat) × Nat) : OutMemory :=
  { memory with outRanges := Function.update memory.outRanges entry.2 entry.1 }

/-- The code, and what is written with it. -/
def writeRanges (capacity : Nat) (ranges : List (Nat × Nat)) (memory : OutMemory) :
    Int × OutMemory :=
  let memory := { memory with outCount := ranges.length }
  if capacity < ranges.length then (-2, memory)
  else (0, ranges.zipIdx.foldl OutMemory.writeRange memory)

/-- What a call works on: the mapped windows, and the error buffer of the thread. -/
structure CallState (ω : Type) where
  view : ViewState ω
  errorBuffer : ErrorBuffer

/-- What the call makes of its plan: the code, the memory, and the error buffer. `none` is a
panic. -/
def answerOf (args : RangesArgs) (memory : OutMemory) (buf : ErrorBuffer) :
    Option (Except RangesError (List (Nat × Nat))) → (Int × OutMemory) × ErrorBuffer
  | some (.ok ranges) => (writeRanges args.capacity ranges memory, buf)
  | some (.error e) => ((-1, memory), setError e.message buf)
  | none => ((-1, memory),
      setError "internal error: panic in mmap_engine_plan_partition_ranges" buf)

/-- `mmap_engine_plan_partition_ranges`: the code, and the memory afterwards. -/
def mmapEnginePlanPartitionRanges (snapshot : Snapshot ω) (args : RangesArgs) (memory : OutMemory)
    (s : CallState ω) : (Int × OutMemory) × CallState ω :=
  let ran := runFrom (plannedRanges snapshot args) s.view
  let (answer, buf) := answerOf args memory (clearError s.errorBuffer) (ran.map Prod.fst)
  (answer, ⟨(ran.map Prod.snd).getD s.view, buf⟩)

end Source

/-! ### What a call writes -/

theorem outRanges_writeRange (memory : OutMemory) (range : Nat × Nat) (index i : Nat) :
    (memory.writeRange (range, index)).outRanges i =
      if i = index then range else memory.outRanges i :=
  Function.update_apply _ _ _ _

/-- The loop of writes fills the first entries and leaves the others and the count. -/
theorem foldl_writeRange (ranges : List (Nat × Nat)) (memory : OutMemory) :
    (ranges.zipIdx.foldl OutMemory.writeRange memory).outCount = memory.outCount ∧
    ∀ i, (ranges.zipIdx.foldl OutMemory.writeRange memory).outRanges i =
      ranges[i]?.getD (memory.outRanges i) := by
  induction ranges using List.reverseRecOn with
  | nil => exact ⟨rfl, fun _ => rfl⟩
  | append_singleton ranges range ih =>
      obtain ⟨count, entries⟩ := ih
      rw [List.zipIdx_append, List.foldl_append, List.zipIdx_singleton, List.foldl_cons,
        List.foldl_nil, Nat.zero_add]
      refine ⟨count, fun i => ?_⟩
      rw [outRanges_writeRange, entries]
      by_cases last : i = ranges.length
      · rw [if_pos last, last, List.getElem?_concat_length]
        rfl
      · rw [if_neg last]
        by_cases before : i < ranges.length
        · rw [List.getElem?_append_left before]
        · have past : (ranges ++ [range])[i]? = none := List.getElem?_eq_none (by
            rw [List.length_append, List.length_singleton]
            omega)
          rw [List.getElem?_eq_none (Nat.not_lt.mp before), past]

/-! ### What a call answers -/

/-- The arguments pass the checks, for a path and a mode. -/
structure RangesArgs.Accepted (args : RangesArgs) (path : Path) (mode : SourceMode) : Prop where
  path : args.path = some path
  delimiter : args.delimiter.Valid
  outCount : ¬args.outCountIsNull = true
  outRanges : ¬(0 < args.capacity ∧ args.outRangesIsNull = true)
  parts : ¬args.requestedPartitions = 0
  mode : sourceModeOf args.sourceMode = some mode

section Calls

variable {ω : Type}

/-- The arguments are accepted, and the ranges are the whole plan of the file at the path. -/
def PlanOf (fs : FileSystem) (args : RangesArgs) (ranges : List (Nat × Nat)) : Prop :=
  ∃ path mode data, args.Accepted path mode ∧ served fs path = .ok data ∧
    ranges = partitionPlan data.bytes args.requestedPartitions args.delimiter.bytes

/-- An argument is rejected, or something is in the way of the plan. -/
def NoPlan (serves : Prop) (allocate : Nat → Option Nat) (fs : FileSystem) (args : RangesArgs) :
    Prop :=
  (∀ path mode, ¬args.Accepted path mode) ∨
  ∃ path mode, args.Accepted path mode ∧
    Hindered serves allocate fs path args.delimiter.bytes (args.options mode)

/-- What a call returns, and what it has written then, where `plan` holds of a plan and
`noPlan` if there is none. -/
inductive Answers (plan : List (Nat × Nat) → Prop) (noPlan : Prop) (capacity : Nat)
    (before : OutMemory) : Int → OutMemory → Prop where
  | filled {ranges : List (Nat × Nat)} {after : OutMemory} (planned : plan ranges)
      (fits : ranges.length ≤ capacity) (count : after.outCount = ranges.length)
      (written : ∀ i (lt : i < ranges.length), after.outRanges i = ranges[i])
      (untouched : ∀ i, ranges.length ≤ i → after.outRanges i = before.outRanges i) :
      Answers plan noPlan capacity before 0 after
  | short {ranges : List (Nat × Nat)} {after : OutMemory} (planned : plan ranges)
      (exceeds : capacity < ranges.length) (count : after.outCount = ranges.length)
      (untouched : after.outRanges = before.outRanges) :
      Answers plan noPlan capacity before (-2) after
  | failed (none_ : noPlan) : Answers plan noPlan capacity before (-1) before

/-- What a call returns that sees a snapshot. -/
abbrev Answered (snapshot : Snapshot ω) (args : RangesArgs) (before : OutMemory) (code : Int)
    (after : OutMemory) : Prop :=
  Answers (PlanOf snapshot.fs args)
    (NoPlan (ServesFiles snapshot.system snapshot.fs) snapshot.allocate snapshot.fs args)
    args.capacity before code after

theorem writeRanges_answers {plan : List (Nat × Nat) → Prop} {noPlan : Prop}
    {ranges : List (Nat × Nat)} (planned : plan ranges) (capacity : Nat) (before : OutMemory) :
    Answers plan noPlan capacity before (writeRanges capacity ranges before).1
      (writeRanges capacity ranges before).2 := by
  unfold writeRanges
  dsimp only
  by_cases exceeds : capacity < ranges.length
  · rw [if_pos exceeds]
    exact .short planned exceeds rfl rfl
  · rw [if_neg exceeds]
    obtain ⟨count, entries⟩ := foldl_writeRange ranges { before with outCount := ranges.length }
    refine .filled planned (Nat.not_lt.mp exceeds) count (fun i lt => ?_) fun i le => ?_
    · rw [entries, List.getElem?_eq_getElem lt]
      rfl
    · rw [entries, List.getElem?_eq_none le]
      rfl

/-- The checks pass exactly the arguments that are accepted. -/
theorem checkArgs_outcome {σ : Type} (args : RangesArgs) (s : σ) :
    Ensures (checkArgs args) s
      (Outcome (fun p s' => s' = s ∧ args.Accepted p.1 p.2)
        fun _ s' => s' = s ∧ ∀ path mode, ¬args.Accepted path mode) := by
  have rejected : ∀ {p : Prop}, p → (∀ path mode, args.Accepted path mode → ¬p) →
      s = s ∧ ∀ path mode, ¬args.Accepted path mode :=
    fun holds fails => ⟨rfl, fun path mode ok => fails path mode ok holds⟩
  unfold checkArgs
  refine Ensures.andThen (.okOr fun null => rejected null fun _ _ ok => by simp [ok.path]) ?_
  rintro path _ ⟨rfl, pathEq⟩
  refine Ensures.andThen (.throwIf fun empty => rejected empty fun _ _ ok => ok.delimiter.1) ?_
  rintro _ _ ⟨rfl, nonempty⟩
  refine Ensures.andThen (.throwIf fun null => rejected null fun _ _ ok => ok.delimiter.2.1) ?_
  rintro _ _ ⟨rfl, notNull⟩
  refine Ensures.andThen (.throwIf fun long => rejected long fun _ _ ok => ok.delimiter.2.2) ?_
  rintro _ _ ⟨rfl, short⟩
  refine Ensures.andThen (.throwIf fun null => rejected null fun _ _ ok => ok.outCount) ?_
  rintro _ _ ⟨rfl, outCount⟩
  refine Ensures.andThen (.throwIf fun null => rejected null fun _ _ ok => ok.outRanges) ?_
  rintro _ _ ⟨rfl, outRanges⟩
  refine Ensures.andThen (.throwIf fun zero => rejected zero fun _ _ ok => ok.parts) ?_
  rintro _ _ ⟨rfl, parts⟩
  refine Ensures.andThen (.okOr fun unknown => rejected unknown fun _ _ ok => by simp [ok.mode]) ?_
  rintro mode _ ⟨rfl, modeEq⟩
  exact Ensures.pure ⟨rfl, pathEq, ⟨nonempty, notNull, short⟩, outCount, outRanges, parts, modeEq⟩

/-- The reads of the snapshot that succeed are right. -/
def Snapshot.Right (snapshot : Snapshot ω) : Prop :=
  ReadsRight snapshot.system.pread snapshot.fs

theorem plannedRanges_outcome {snapshot : Snapshot ω} (right : snapshot.Right) (args : RangesArgs)
    (s : ViewState ω) (fresh : s.view = none) :
    Ensures (plannedRanges snapshot args) s
      (Outcome (fun ranges s' => s'.view = none ∧ PlanOf snapshot.fs args ranges)
        fun _ s' => s'.view = none ∧ NoPlan (ServesFiles snapshot.system snapshot.fs)
          snapshot.allocate snapshot.fs args) := by
  unfold plannedRanges
  apply Ensures.andThen ((checkArgs_outcome args s).orElse ?_)
  · rintro ⟨path, mode⟩ s' ⟨rfl, ok⟩
    dsimp only at ok ⊢
    have outcome := planPartitionRanges_outcome right snapshot.allocate path
      (Nat.pos_of_ne_zero ok.parts) (bytes_ne_nil ok.delimiter) (args.options mode) s' fresh
    apply Ensures.mapErr (outcome.weaken ?_)
    · rintro e s'' ⟨closed, hindered⟩
      exact ⟨closed, .inr ⟨path, mode, ok, hindered⟩⟩
    · rintro ranges s'' ⟨closed, data, here, eq⟩
      exact ⟨closed, path, mode, data, ok, here, eq⟩
  · rintro e s' ⟨rfl, rejected⟩
    exact ⟨fresh, .inl rejected⟩

/-- Every call answers as `Answered` says, and leaves no window mapped. -/
theorem native_call_answered {snapshot : Snapshot ω} (right : snapshot.Right) (args : RangesArgs)
    (before : OutMemory) (s : CallState ω) (fresh : s.view.view = none) :
    Answered snapshot args before
      (mmapEnginePlanPartitionRanges snapshot args before s).1.1
      (mmapEnginePlanPartitionRanges snapshot args before s).1.2 ∧
    (mmapEnginePlanPartitionRanges snapshot args before s).2.view.view = none := by
  obtain ⟨r, view, run, outcome⟩ := plannedRanges_outcome right args s.view fresh
  unfold mmapEnginePlanPartitionRanges
  dsimp only
  rw [run]
  cases r with
  | error e =>
      obtain ⟨closed, noPlan⟩ := outcome
      exact ⟨.failed noPlan, closed⟩
  | ok ranges =>
      obtain ⟨closed, plan⟩ := outcome
      exact ⟨writeRanges_answers plan args.capacity before, closed⟩

end Calls

end Ranges
