import MmapChunker.Ranges.Native

/-!
Two-phase planning from Python (`python/mmap_chunker/_native.py`).

`planPartitionRanges` asks the native library for the number of ranges, allocates, and asks
again for the ranges themselves. The file may be replaced between the two calls, so the
second may need more room than the first said, less, or none; then there is one more round.

The library is a parameter: a `RangesLibrary` answers every call as it likes, from a state
of its own. `rangesLibrary` is the one that is bundled, over a history of snapshots, and
`two_phase_planning` what the two together guarantee.
-/

namespace Python

open Machine Exec Ranges Source Mmap Scanner
open Ffi (ErrorBuffer DelimiterArg mmapEngineLastError bytes_ne_nil)

/-! ### Source -/

/-- The exceptions that occur. -/
inductive ExceptionType where
  | typeError
  | valueError
  | overflowError
  | indexError
  | keyError
  | attributeError
  | eofError
  | unicodeDecodeError
  | jsonDecodeError
  | osError
  | fileNotFoundError
  | isADirectoryError
  | nativeLibraryError
  | planningError
  | other (name : String)
  deriving Repr, DecidableEq

/-- An exception: its class and its text. -/
structure PyException where
  type : ExceptionType
  message : String
  deriving Repr, DecidableEq

/-- A `bytes` object. -/
structure PyBytes where
  data : List UInt8
  fits : data.length ≤ isizeMax

/-- `ctypes.c_size_t(n)`. -/
def cSizeT (n : Int) : Nat := (n % 2 ^ 64).toNat

/-- `ctypes.c_uint32(n)`. -/
def cUint32 (n : Int) : UInt32 := UInt32.ofNat (n % 2 ^ 32).toNat

theorem cSizeT_le (n : Int) : cSizeT n ≤ usizeMax := by
  unfold cSizeT usizeMax
  omega

theorem cSizeT_eq {n : Nat} (small : n ≤ usizeMax) : cSizeT n = n := by
  unfold cSizeT
  unfold usizeMax at small
  omega

/-- `CAP_WINDOWED_PLANNING`. -/
def capWindowedPlanning : UInt32 := 0x80

/-- The native functions behind `plan_partition_ranges`, over the state of the library;
`lastError` is `last_error`. -/
structure RangesLibrary (σ : Type) where
  mmapEngineCapabilities : σ → UInt32 × σ
  mmapEnginePlanPartitionRanges : RangesArgs → OutMemory → σ → (Int × OutMemory) × σ
  lastError : σ → String × σ

/-- The arguments both calls of a round share. -/
structure RangesRequest where
  path : Path
  parts : Int
  delimiter : PyBytes
  sourceMode : Int
  windowBytes : Int

/-- What ctypes makes of them, for an array of `capacity` ranges or for none. -/
def RangesRequest.args (request : RangesRequest) (capacity : Option Nat) : RangesArgs where
  path := some request.path
  requestedPartitions := cSizeT request.parts
  delimiter := ⟨some fun i => request.delimiter.data.getD i 0,
    cSizeT request.delimiter.data.length⟩
  sourceMode := cUint32 request.sourceMode
  windowBytes := cSizeT request.windowBytes
  outRangesIsNull := capacity.isNone
  capacity := capacity.getD 0
  outCountIsNull := false
  window_le := cSizeT_le _

/-- `ctypes.c_size_t(0)` and an array of zeroed ranges. -/
def zeroedMemory : OutMemory := ⟨0, fun _ => (0, 0)⟩

section Source

variable {σ : Type}

/-- A native call. -/
def call {α : Type} (f : σ → α × σ) : Exec σ PyException α :=
  step fun s => ((.ok (f s).1), (f s).2)

/-- `raise NativeLibraryError(f"{what}: {last_error(lib)}")`, or another class. -/
def raiseNative {α : Type} (lib : RangesLibrary σ) (type : ExceptionType) (what : String) :
    Exec σ PyException α := do
  let text ← call lib.lastError
  throw ⟨type, what ++ ": " ++ text⟩

/-- The rounds of the loop in `plan_partition_ranges`. -/
def planRounds (lib : RangesLibrary σ) (request : RangesRequest) :
    Nat → Exec σ PyException (List (Nat × Nat))
  | 0 => throw ⟨.nativeLibraryError, "native range-planning count changed between phases; " ++
      "the input file must not be modified while planning runs."⟩
  | rounds + 1 => do
      let (code, memory) ← call (lib.mmapEnginePlanPartitionRanges (request.args none) zeroedMemory)
      if code = 0 then return []
      if code ≠ -2 then
        raiseNative lib .nativeLibraryError "native range-planning count phase failed"
      else
        let capacity := memory.outCount
        let (code, memory) ←
          call (lib.mmapEnginePlanPartitionRanges (request.args (some capacity)) zeroedMemory)
        if code = 0 then
          return (List.range (min memory.outCount capacity)).map memory.outRanges
        if code ≠ -2 then
          raiseNative lib .nativeLibraryError "native range-planning fill phase failed"
        else planRounds lib request rounds

/-- `plan_partition_ranges`. -/
def planPartitionRanges (lib : RangesLibrary σ) (request : RangesRequest) :
    Exec σ PyException (List (Nat × Nat)) := do
  let capabilities ← call lib.mmapEngineCapabilities
  throwIf (capabilities &&& capWindowedPlanning = 0) ⟨.nativeLibraryError,
    "bundled native library lacks the WINDOWED_PLANNING capability " ++
      "(bit 7), which source-selectable range planning requires."⟩
  planRounds lib request 2

end Source

/-! ### The bundled library -/

/-- `mmap_engine_capabilities`: all nine bits. -/
def mmapEngineCapabilities : UInt32 := 0x1FF

/-- The number of planning calls so far, and what they work on. -/
structure World (ω : Type) where
  calls : Nat
  state : CallState ω

section Library

variable {ω : Type}

/-- The bytes up to the first zero. -/
def cString (buf : ErrorBuffer) : List UInt8 := buf.toList.takeWhile (· ≠ 0)

/-- The bundled library, when planning call `n` sees `history n`. `decode` is
`bytes.decode("utf-8", "replace")`. -/
def rangesLibrary (decode : List UInt8 → String) (history : Nat → Snapshot ω) :
    RangesLibrary (World ω) where
  mmapEngineCapabilities world := (Python.mmapEngineCapabilities, world)
  mmapEnginePlanPartitionRanges args memory world :=
    let (answer, state) :=
      Ranges.mmapEnginePlanPartitionRanges (history world.calls) args memory world.state
    (answer, ⟨world.calls + 1, state⟩)
  lastError world :=
    (match mmapEngineLastError world.state.errorBuffer with
      | none => ""
      | some buf => decode (cString buf), world)

end Library

/-! ### What is guaranteed -/

section Rounds

variable {ω : Type} {decode : List UInt8 → String} {history : Nat → Snapshot ω}
  {request : RangesRequest}

/-- The list is the whole plan of the file that the snapshot has at the path. -/
def WholePlan (snapshot : Snapshot ω) (request : RangesRequest) (list : List (Nat × Nat)) : Prop :=
  ∃ data, served snapshot.fs request.path = .ok data ∧
    list = partitionPlan data.bytes (cSizeT request.parts) request.delimiter.data

theorem bytes_args (request : RangesRequest) (capacity : Option Nat) :
    (request.args capacity).delimiter.bytes = request.delimiter.data := by
  have small : cSizeT request.delimiter.data.length = request.delimiter.data.length :=
    cSizeT_eq (request.delimiter.fits.trans isizeMax_lt_usizeMax.le)
  unfold DelimiterArg.bytes RangesRequest.args
  dsimp only
  rw [small]
  apply List.ext_getElem
  · rw [List.length_map, List.length_range]
  · intro i _ lt
    rw [List.getElem_map, List.getElem_range, List.getD_eq_getElem _ _ lt]

theorem whole_of_planOf {fs : FileSystem} {capacity : Option Nat} {list : List (Nat × Nat)}
    (plan : PlanOf fs (request.args capacity) list) :
    ∃ data, served fs request.path = .ok data ∧
      list = partitionPlan data.bytes (cSizeT request.parts) request.delimiter.data := by
  obtain ⟨path, mode, data, ok, here, eq⟩ := plan
  cases ok.path
  rw [bytes_args] at eq
  exact ⟨data, here, eq⟩

/-- What Python reads back from the memory of a filled call are the ranges. -/
theorem readBack_eq {memory : OutMemory} {ranges : List (Nat × Nat)} {capacity : Nat}
    (fits : ranges.length ≤ capacity) (count : memory.outCount = ranges.length)
    (written : ∀ i (lt : i < ranges.length), memory.outRanges i = ranges[i]) :
    (List.range (min memory.outCount capacity)).map memory.outRanges = ranges := by
  rw [count, Nat.min_eq_left fits]
  apply List.ext_getElem
  · rw [List.length_map, List.length_range]
  · intro i _ lt
    rw [List.getElem_map, List.getElem_range, written i lt]

/-- A planning call of the library answers for its own snapshot. -/
theorem call_answered (right : ∀ n, (history n).Right) (args : RangesArgs) (memory : OutMemory)
    (world : World ω) (fresh : world.state.view.view = none) :
    Ensures
      (call ((rangesLibrary decode history).mmapEnginePlanPartitionRanges args memory)) world
      (Outcome (fun answer world' => world'.calls = world.calls + 1 ∧
          world'.state.view.view = none ∧
          Answered (history world.calls) args memory answer.1 answer.2)
        fun _ _ => False) := by
  obtain ⟨answered, closed⟩ :=
    native_call_answered (right world.calls) args memory world.state fresh
  exact ⟨_, _, rfl, rfl, closed, answered⟩

theorem raiseNative_outcome {post : α → World ω → Prop} (type : ExceptionType) (what : String)
    (world : World ω) :
    Ensures (raiseNative (rangesLibrary decode history) type what) world
      (Outcome post fun e world' => world' = world ∧ e.type = type) :=
  ⟨_, _, rfl, rfl, rfl⟩

/-- The rounds end with the plan of one snapshot, or raise; each makes at most two calls. -/
theorem planRounds_outcome (right : ∀ n, (history n).Right) (request : RangesRequest)
    (rounds : Nat) (world : World ω) (fresh : world.state.view.view = none) :
    Ensures (planRounds (rangesLibrary decode history) request rounds) world
      (Outcome (fun list world' => world'.calls ≤ world.calls + 2 * rounds ∧
          ∃ n, world.calls ≤ n ∧ n < world'.calls ∧ WholePlan (history n) request list)
        fun e world' => world'.calls ≤ world.calls + 2 * rounds ∧
          e.type = .nativeLibraryError) := by
  induction rounds generalizing world with
  | zero => exact Ensures.throw ⟨Nat.le_refl _, rfl⟩
  | succ rounds ih =>
      rw [planRounds]
      refine Ensures.andThen ((call_answered right _ _ world fresh).orElse fun _ _ => False.elim) ?_
      rintro ⟨code, counted⟩ world₁ ⟨calls₁, fresh₁, answered⟩
      dsimp only at answered ⊢
      cases answered with
      | filled plan fits =>
          -- The call had no room, so the plan is empty.
          obtain rfl := List.eq_nil_of_length_eq_zero (Nat.le_zero.mp fits)
          rw [if_pos rfl]
          exact Ensures.pure ⟨by omega, world.calls, le_rfl, by omega, whole_of_planOf plan⟩
      | failed =>
          rw [if_neg (by decide), if_pos (by decide)]
          refine (raiseNative_outcome _ _ world₁).orElse ?_
          rintro e world' ⟨rfl, type⟩
          exact ⟨by omega, type⟩
      | short =>
          rw [if_neg (by decide), if_neg (by decide)]
          refine Ensures.andThen ((call_answered right _ _ world₁ fresh₁).orElse
            fun _ _ => False.elim) ?_
          rintro ⟨code, memory⟩ world₂ ⟨calls₂, fresh₂, answered⟩
          dsimp only at answered ⊢
          cases answered with
          | filled plan fits count written =>
              have enough : _ ≤ counted.outCount := fits
              rw [if_pos rfl, readBack_eq enough count written]
              refine Ensures.pure ⟨by omega, world₁.calls, by omega, by omega, ?_⟩
              exact whole_of_planOf plan
          | failed =>
              rw [if_neg (by decide), if_pos (by decide)]
              refine (raiseNative_outcome _ _ world₂).orElse ?_
              rintro e world' ⟨rfl, type⟩
              exact ⟨by omega, type⟩
          | short =>
              rw [if_neg (by decide), if_neg (by decide)]
              refine ((ih world₂ fresh₂).weaken ?_).orElse ?_
              · rintro list world' ⟨atMost, n, after, before, whole⟩
                exact ⟨by omega, n, by omega, before, whole⟩
              · rintro e world' ⟨atMost, type⟩
                exact ⟨by omega, type⟩

end Rounds

/-- The bundled library plans windowed, so the check passes. -/
theorem planPartitionRanges_eq {ω : Type} (decode : List UInt8 → String)
    (history : Nat → Snapshot ω) (request : RangesRequest) (world : World ω) :
    runFrom (planPartitionRanges (rangesLibrary decode history) request) world =
      runFrom (planRounds (rangesLibrary decode history) request 2) world := by
  have supported : ¬mmapEngineCapabilities &&& capWindowedPlanning = 0 := by decide
  rw [planPartitionRanges, runFrom_bind, call, runFrom_step]
  dsimp only [rangesLibrary]
  rw [throwIf, if_neg supported, pure_bind]

/-- **Two-phase planning.** Whatever files the calls see, each as one snapshot:

* a call returns 0 with the whole plan of its snapshot and nothing else written, -2 with
  its size alone, or -1 with nothing, and -1 whenever an argument is rejected or planning
  fails;
* Python returns the whole plan that one of its calls saw, or raises; it makes at most
  two rounds of two calls. -/
theorem two_phase_planning {ω : Type} (decode : List UInt8 → String) (history : Nat → Snapshot ω)
    (right : ∀ n, (history n).Right) :
    (∀ n args before (s : CallState ω), s.view.view = none →
      Answered (history n) args before
        (Ranges.mmapEnginePlanPartitionRanges (history n) args before s).1.1
        (Ranges.mmapEnginePlanPartitionRanges (history n) args before s).1.2 ∧
      ∀ e view, runFrom (plannedRanges (history n) args) s.view = some (.error e, view) →
        (Ranges.mmapEnginePlanPartitionRanges (history n) args before s).1 = (-1, before)) ∧
    ∀ (request : RangesRequest) (world : World ω), world.state.view.view = none →
      Ensures (planPartitionRanges (rangesLibrary decode history) request) world
        (Outcome (fun list world' => world'.calls ≤ world.calls + 4 ∧
            ∃ n, world.calls ≤ n ∧ n < world'.calls ∧ WholePlan (history n) request list)
          fun e world' => world'.calls ≤ world.calls + 4 ∧ e.type = .nativeLibraryError) := by
  constructor
  · intro n args before s fresh
    refine ⟨(native_call_answered (right n) args before s fresh).1, fun e view run => ?_⟩
    unfold Ranges.mmapEnginePlanPartitionRanges
    rw [run]
    rfl
  · intro request world fresh
    obtain ⟨r, world', run, outcome⟩ := planRounds_outcome right request 2 world fresh
    exact ⟨r, world', (planPartitionRanges_eq decode history request world).trans run, outcome⟩

/-- Every path is this file. -/
def onlyFile (data : Slice) : Snapshot Unit where
  fs _ := .entry (.readable data)
  system :=
    ⟨fun _ => ⟨fun _ _ _ => (.ok 0, ())⟩,
      fun _ offset out _ => (.ok (Cli.fullRead data.bytes offset out), ())⟩
  allocate _ := some 0

theorem onlyFile_right (data : Slice) : (onlyFile data).Right := by
  intro path data' ok offset out s count written next answer
  cases ok
  cases answer
  exact Cli.fullRead_ok data.bytes offset out

/-- Two records, with a third one after the first call. -/
def growing : Nat → Snapshot Unit
  | 0 => onlyFile twoRecords
  | _ + 1 => onlyFile ⟨0, [97, 10, 98, 10, 99, 10], by simp [isizeMax]⟩

/-- Three partitions of the growing file, read by `pread`. -/
def threeParts : RangesRequest := ⟨"a", 3, ⟨[10], by decide⟩, 2, 0⟩

/-- Nothing mapped, no error, no call made. -/
def freshWorld : World Unit := ⟨0, ⟨opened (), Vector.replicate 256 0⟩⟩

theorem two_phase_planning_growing :
    (∀ n, (growing n).Right) ∧ freshWorld.state.view.view = none ∧
      Ensures (planPartitionRanges (rangesLibrary (fun _ => "") growing) threeParts) freshWorld
        (Outcome (fun list world' => world'.calls ≤ 0 + 4 ∧
            ∃ n, 0 ≤ n ∧ n < world'.calls ∧ WholePlan (growing n) threeParts list)
          fun e world' => world'.calls ≤ 0 + 4 ∧ e.type = .nativeLibraryError) := by
  have right : ∀ n, (growing n).Right := fun n => by
    cases n <;> exact onlyFile_right _
  exact ⟨right, rfl, (two_phase_planning (fun _ => "") growing right).2 threeParts freshWorld rfl⟩

end Python
