import MmapChunker.Cli.Refusal

/-!
Planning the ranges of a path (`src/source.rs`).

`planPartitionRanges` opens the path in one of three modes and plans over what it has
opened: over the mapped bytes, or over a source that reads on demand.

The modes differ in what they ask of the system, not in what they return:
`planPartitionRanges_outcome` says that every mode returns the same list or an error, and
`planPartitionRanges_returns` that it returns the list where nothing stands in the way.
-/

namespace Ranges

open Machine Exec Scanner Source Mmap
open Cli (System ServesFiles preadFile preadOpenPath preadOpenPath_eq dropped
  defaultWindowBytes defaultScanBufferBytes)

/-! ### Source -/

/-- `SourceMode`. The planner of `partition-files` never sees the first mode, so
`Cli.SourceMode` has the other two. -/
inductive SourceMode where
  | mmap
  | windowed
  | pread
  deriving Repr, DecidableEq

/-- `PlannerOptions`. -/
structure PlannerOptions where
  mode : SourceMode
  windowBytes : Nat
  scanBufferBytes : Nat
  window_le : windowBytes ≤ usizeMax

theorem defaultWindowBytes_le : defaultWindowBytes ≤ usizeMax := by decide

/-- `PlannerOptions::new`. -/
def PlannerOptions.new (mode : SourceMode) : PlannerOptions :=
  ⟨mode, defaultWindowBytes, defaultScanBufferBytes, defaultWindowBytes_le⟩

/-- `PlannerOptions::with_window_bytes`. -/
def PlannerOptions.withWindowBytes (options : PlannerOptions) (windowBytes : Nat)
    (window_le : windowBytes ≤ usizeMax) : PlannerOptions :=
  ⟨options.mode, windowBytes, options.scanBufferBytes, window_le⟩

/-- `MmapSource`, with its `read_at`. -/
def mmapSource {σ : Type} (data : Slice) : ByteSource σ where
  len := data.len
  asSlice := some data
  readAt offset out := do
    if out = [] ∨ data.len ≤ offset then return (0, out)
    let n := min out.length (data.len - offset)
    let part ← orPanic (data.range offset (offset + n))
    return (n, part.bytes ++ out.drop n)
  len_le := data.len_le_usizeMax

section Source

variable {ω : Type}

/-- The `open_path` of each mode. -/
def openSource (system : System ω) (fs : FileSystem) (path : Path) (options : PlannerOptions) :
    Exec (ViewState ω) IoError (ByteSource (ViewState ω)) :=
  match options.mode with
  | .mmap => do
      let data ← step fun s => (mmapFileOpenPath fs path, s)
      return mmapSource data
  | .windowed => do
      let file ← step fun s => (windowedOpenPath fs path options.windowBytes options.window_le, s)
      return windowedSource (system.mmap path) file
  | .pread => do
      let file ← step fun s => (preadOpenPath system fs path, s)
      return preadSource file

/-- `plan_partition_ranges`. The source is dropped when it ends, whatever its outcome. -/
def planPartitionRanges (system : System ω) (allocate : Nat → Option Nat) (fs : FileSystem)
    (path : Path) (numPartitions : Nat) (delimiter : List UInt8) (options : PlannerOptions) :
    Exec (ViewState ω) IoError (List (Nat × Nat)) :=
  andFinally dropped do
    if delimiter = [] then orPanic none else
    if numPartitions = 0 then return []
    let source ← openSource system fs path options
    planPartitionBoundaries allocate source numPartitions delimiter (max options.scanBufferBytes 1)

end Source

/-! ### What planning a path returns -/

/-- The positional reads of served files that succeed are right, however short. -/
def ReadsRight {ω : Type}
    (pread : Path → Nat → List UInt8 → ω → Except IoError (Nat × List UInt8) × ω)
    (fs : FileSystem) : Prop :=
  ∀ path data, served fs path = .ok data → ∀ offset out s count written next,
    pread path offset out s = (.ok (count, written), next) →
      ReadOk data.bytes offset out count written

/-- What may stand in the way of a plan; `serves` says that the system grants whatever it is
asked for. -/
inductive Hindered (serves : Prop) (allocate : Nat → Option Nat) (fs : FileSystem)
    (path : Path) (delimiter : List UInt8) (options : PlannerOptions) : Prop where
  | refused (unserved : ∀ data, served fs path ≠ .ok data)
  | window (mode : options.mode = .windowed) (small : options.windowBytes < viewAlignment)
  | system (unserved : ¬serves)
  | memory {e : IoError}
      (refused : NotAllocated allocate (bufferLen (max options.scanBufferBytes 1) delimiter.length)
        e)

section Planner

variable {ω : Type} {system : System ω} {allocate : Nat → Option Nat} {fs : FileSystem}
  {path : Path} {parts : Nat} {delimiter : List UInt8} {options : PlannerOptions}

/-- The source plans what the slice planner plans, unless it fails. -/
def PlansLike (system : System ω) (fs : FileSystem) (data : Slice)
    (source : ByteSource (ViewState ω)) (s : ViewState ω) : Prop :=
  source.asSlice = some data ∨ ∃ inv, inv s ∧
    ConformsOrFails source inv (fun _ _ => ¬ServesFiles system fs) data.bytes

theorem pread_serves (reads : ReadsRight system.pread fs) {data : Slice}
    (ok : served fs path = .ok data) :
    PreadsOrFails (preadFile system path data) data.bytes fun _ _ => ¬ServesFiles system fs where
  len_eq := rfl
  reads offset out s := by
    cases answer : system.pread path offset out s.os with
    | mk read next =>
        have run : (preadFile system path data).pread offset out s =
            (read, ⟨s.view, s.events, next⟩) := by
          change ((system.pread path offset out s.os).1,
            ViewState.mk s.view s.events (system.pread path offset out s.os).2) = _
          rw [answer]
        refine ⟨read, _, congrArg some run, ?_⟩
        cases read with
        | error e =>
            intro serves
            obtain ⟨count, written, next', fine, -⟩ := serves.pread path data ok offset out s.os
            rw [answer] at fine
            cases fine
        | ok p => exact reads path data ok offset out s.os p.1 p.2 next answer

/-- Mapping the path either maps the bytes it serves or is refused. -/
theorem mmapOpens_outcome (allocate : Nat → Option Nat) (delimiter : List UInt8)
    (s : ViewState ω) :
    Ensures (step fun s => (mmapFileOpenPath fs path, s)) s
      (Outcome (fun data _ => served fs path = .ok data)
        fun _ _ => Hindered (ServesFiles system fs) allocate fs path delimiter options) := by
  refine ⟨_, s, rfl, ?_⟩
  cases here : mmapFileOpenPath fs path with
  | error e =>
      refine .refused fun data ok => ?_
      rw [mmapFileOpenPath_ok_iff.mpr ok] at here
      cases here
  | ok data => exact mmapFileOpenPath_ok_iff.mp here

/-- So does opening it for windows, which also refuses a window that is too small. -/
theorem windowedOpens_outcome (allocate : Nat → Option Nat) (delimiter : List UInt8)
    (mode : options.mode = .windowed) (s : ViewState ω) :
    Ensures (step fun s => (windowedOpenPath fs path options.windowBytes options.window_le, s)) s
      (Outcome (fun file s' => s' = s ∧ ∃ data, served fs path = .ok data ∧
          file.bytes = data.bytes)
        fun _ _ => Hindered (ServesFiles system fs) allocate fs path delimiter options) := by
  refine ⟨_, s, rfl, ?_⟩
  by_cases small : options.windowBytes < viewAlignment
  · rw [windowedOpenPath]
    cases probeMmapEligible fs path with
    | error e => exact .window mode small
    | ok _ =>
        dsimp only [bind, Except.bind]
        rw [dif_pos small]
        exact .window mode small
  · rw [windowedOpenPath_eq (Nat.not_lt.mp small)]
    cases here : served fs path with
    | error e => exact .refused fun data ok => by cases here.symm.trans ok
    | ok data => exact ⟨rfl, data, rfl, rfl⟩

/-- And opening it for positional reads. -/
theorem preadOpens_outcome (allocate : Nat → Option Nat) (delimiter : List UInt8)
    (s : ViewState ω) :
    Ensures (step fun s => (preadOpenPath system fs path, s)) s
      (Outcome (fun file _ => ∃ data, served fs path = .ok data ∧
          file = preadFile system path data)
        fun _ _ => Hindered (ServesFiles system fs) allocate fs path delimiter options) := by
  refine ⟨_, s, rfl, ?_⟩
  rw [preadOpenPath_eq]
  cases here : served fs path with
  | error e => exact .refused fun data ok => by cases here.symm.trans ok
  | ok data => exact ⟨data, rfl, rfl⟩

theorem windowed_serves {file : WindowedMmapFile} {data : Slice} (ok : served fs path = .ok data)
    (same : file.bytes = data.bytes) :
    ConformsOrFails (windowedSource (system.mmap path) file)
      (fun s => ∀ view ∈ s.view, view.Within file) (fun _ _ => ¬ServesFiles system fs)
      data.bytes := by
  rw [← same]
  exact (windowed_conformsOrFails _ file).orElse fun _ _ refuses serves =>
    refuses (serves.mmap path data ok file same)

/-- Every mode opens a source for the bytes that are served. -/
theorem openSource_outcome (reads : ReadsRight system.pread fs) (allocate : Nat → Option Nat)
    (delimiter : List UInt8) (s : ViewState ω) (fresh : s.view = none) :
    Ensures (openSource system fs path options) s
      (Outcome (fun source s' => ∃ data, served fs path = .ok data ∧
          PlansLike system fs data source s')
        fun _ _ => Hindered (ServesFiles system fs) allocate fs path delimiter options) := by
  unfold openSource
  cases mode : options.mode with
  | mmap =>
      refine (mmapOpens_outcome allocate delimiter s).andThen fun data s' ok => ?_
      exact Ensures.pure ⟨data, ok, .inl rfl⟩
  | windowed =>
      refine (windowedOpens_outcome allocate delimiter mode s).andThen ?_
      rintro file s' ⟨rfl, data, ok, same⟩
      refine Ensures.pure ⟨data, ok, .inr ⟨_, ?_, windowed_serves ok same⟩⟩
      rw [fresh]
      intro view mem
      cases mem
  | pread =>
      refine (preadOpens_outcome allocate delimiter s).andThen ?_
      rintro file s' ⟨data, ok, rfl⟩
      exact Ensures.pure
        ⟨data, ok, .inr ⟨fun _ => True, trivial, pread_conformsOrFails (pread_serves reads ok)⟩⟩

/-- **All modes agree.** Whatever the mode, planning a path returns the plan of the bytes
it serves, or fails because something is in the way. -/
theorem planPartitionRanges_outcome (reads : ReadsRight system.pread fs)
    (allocate : Nat → Option Nat) (path : Path) {parts : Nat} (pos : 1 ≤ parts) (ne : delimiter ≠ []) (options : PlannerOptions)
    (s : ViewState ω) (fresh : s.view = none) :
    Ensures (planPartitionRanges system allocate fs path parts delimiter options) s
      (Outcome (fun ranges s' => s'.view = none ∧ ∃ data, served fs path = .ok data ∧
          ranges = partitionPlan data.bytes parts delimiter)
        fun _ s' => s'.view = none ∧
          Hindered (ServesFiles system fs) allocate fs path delimiter options) := by
  have planned : Ensures (do
        let source ← openSource system fs path options
        planPartitionBoundaries allocate source parts delimiter (max options.scanBufferBytes 1)) s
      (Outcome (fun ranges _ => ∃ data, served fs path = .ok data ∧
          ranges = partitionPlan data.bytes parts delimiter)
        fun _ _ => Hindered (ServesFiles system fs) allocate fs path delimiter options) := by
    refine (openSource_outcome reads allocate delimiter s fresh).andThen ?_
    rintro source s' ⟨data, ok, mapped | ⟨inv, good, conforms⟩⟩
    · rw [planPartitionBoundaries, if_neg ne, mapped]
      dsimp only
      rw [findPartitionBoundariesPattern_eq data pos ne, orPanic_some]
      exact Ensures.pure ⟨data, ok, rfl⟩
    · have outcome := planPartitionBoundaries_outcome conforms good parts ne
        (max options.scanBufferBytes 1) allocate
      refine (outcome.weaken fun ranges _ planned => ?_).orElse fun e _ error => ?_
      · have eq := planned.1
        rw [findPartitionBoundariesPattern_eq data pos ne, Option.some.injEq] at eq
        exact ⟨data, ok, eq.symm⟩
      · exact error.elim .system fun refused => .memory refused.1
  rw [planPartitionRanges, if_neg ne, if_neg (Nat.pos_iff_ne_zero.mp pos)]
  exact planned.andFinally (fun _ _ planned => ⟨rfl, planned⟩) fun _ _ error => ⟨rfl, error⟩

theorem readsRight_of_serves (serves : ServesFiles system fs) : ReadsRight system.pread fs := by
  intro path data ok offset out s count written next answer
  obtain ⟨count', written', next', fine, right⟩ := serves.pread path data ok offset out s
  cases answer.symm.trans fine
  exact right

/-- Nothing is in the way of planning the file `data` at the path. -/
structure Unhindered (system : System ω) (allocate : Nat → Option Nat) (fs : FileSystem)
    (delimiter : List UInt8) (options : PlannerOptions) : Prop where
  serves : ServesFiles system fs
  window : options.mode = .windowed → viewAlignment ≤ options.windowBytes
  allocates : Allocates allocate (bufferLen (max options.scanBufferBytes 1) delimiter.length)

theorem planPartitionRanges_returns {data : Slice} (ok : served fs path = .ok data)
    (unhindered : Unhindered system allocate fs delimiter options) {parts : Nat}
    (pos : 1 ≤ parts) (ne : delimiter ≠ []) (s : ViewState ω) (fresh : s.view = none) :
    Returns (planPartitionRanges system allocate fs path parts delimiter options) s
      fun ranges _ => ranges = partitionPlan data.bytes parts delimiter := by
  have outcome := planPartitionRanges_outcome (readsRight_of_serves unhindered.serves) allocate
    path pos ne options s fresh
  refine ((outcome.weaken ?_).orElse ?_).returns
  · rintro ranges _ ⟨-, data', ok', rfl⟩
    cases ok.symm.trans ok'
    rfl
  · rintro e _ ⟨-, hindered⟩
    cases hindered with
    | refused unserved => exact unserved data ok
    | window mode small => exact absurd (unhindered.window mode) (Nat.not_le.mpr small)
    | system unserved => exact unserved unhindered.serves
    | memory refused => exact unhindered.allocates.not_refused _ refused

end Planner

end Ranges
