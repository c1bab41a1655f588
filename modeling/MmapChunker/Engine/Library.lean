import MmapChunker.Engine.Ffi
import MmapChunker.Ranges.Owned

/-!
The C library as a whole (`src/ffi.rs`): any number of engines behind handles, used from
any number of threads.

* `library_owned` says what every sequence of calls owns: each live handle its box, its
  mapping and its descriptor, and a failed call nothing, nor one that plans ranges. No call
  on a live handle or on null panics, and what `mmap_engine_last_error` says to a thread is
  about the last call of that thread that cleared its error.
* `library_handles` is what a handle is worth. Whatever the other handles and threads do in
  between, the calls on it since it was opened keep the contract of one engine over the
  file it was opened on, and a view that was read through it lies in pages that are held
  until it is freed.
-/

namespace Ffi

open Machine Exec Source Calls Resources Pin Plan Mmap
open Ranges (RangesArgs RangesError OutMemory answerOf writeRanges)
open Ranges.Owned (Platform)

/-! ### Source -/

/-- The memory of a mapped file, `as_ptr()` and `len()`. -/
def slice (file : MmapFile) : Slice := ⟨file.ptr, file.bytes, file.fits⟩

/-- An engine behind a handle, with the mapping it owns. -/
structure Opened where
  file : MmapFile
  engine : Engine

/-- The text of a file that was not mapped: the gate is asked once more. -/
def openFailure (fs : FileSystem) (path : Path) : String :=
  match probeMmapEligible fs path with
  | .error error =>
      if error.kind = .invalidInput then "failed to open or map file: " ++ error.message
      else "failed to open or map file"
  | .ok _ => "failed to open or map file"

section Open

variable {ω : Type}

/-- Map a file and put an engine over it into a box, the handle. -/
def openEngine (kernel : Kernel ω) (fs : FileSystem) (path : Path) (pin : Option PinnedFile) :
    Sys Resource ω (Except String (Address × Opened)) := do
  match ← MmapFile.open kernel fs path with
  | some file =>
      let handle ← take kernel.alloc fun handle => .box handle
      return .ok (handle, ⟨file, ⟨slice file, .empty, pin⟩⟩)
  | none => return .error (openFailure fs path)

/-- The body of `mmap_engine_open`; a null path is `none`. -/
def mmapEngineOpen (kernel : Kernel ω) (fs : FileSystem) (path : Option Path) :
    Sys Resource ω (Except String (Address × Opened)) :=
  match path with
  | none => pure (.error "path is null")
  | some path => openEngine kernel fs path none

/-- The body of `mmap_engine_open_pinned`. -/
def mmapEngineOpenPinned (kernel : Kernel ω) (fs : FileSystem) (stat : Stat) (path : Option Path)
    (flags : UInt32) : Sys Resource ω (Except String (Address × Opened)) :=
  match path with
  | none => pure (.error "path is null")
  | some path =>
      if flags &&& ~~~pinAll ≠ 0 then pure (.error "unknown pin flag bits")
      else
        match PinnedFile.capture stat path flags with
        | .error error => pure (.error ("failed to capture file identity: " ++ error.message))
        | .ok pinned => openEngine kernel fs path (some pinned)

/-- `Box::from_raw` on a handle, and the drop of what is in it. -/
def dropEngine (handle : Nat) (opened : Opened) : Sys Resource ω Unit := do
  opened.file.drop
  release (.box handle)

end Open

/-- The entry points and their arguments; handle 0 is null. The two that return a constant,
`mmap_engine_abi_version` and `mmap_engine_capabilities`, are left out. -/
inductive Entry where
  | open (path : Option Path)
  | openPinned (path : Option Path) (flags : UInt32)
  | scanChunks (handle chunkSizeBytes : Nat)
  | engine (handle : Nat) (operation : Operation)
  | planPartitionRanges (args : RangesArgs) (memory : OutMemory)
  | lastError
  | free (handle : Nat)

/-- The handle and the operation of an entry point that works on an engine;
`mmap_engine_scan_chunks` is `mmap_engine_scan_chunks_ex` with a line feed. -/
def Entry.operation : Entry → Option (Nat × Operation)
  | scanChunks handle chunkSizeBytes => some (handle, .plan (.scanChunksEx chunkSizeBytes 0x0A))
  | engine handle operation => some (handle, operation)
  | _ => none

/-- A call: the thread that makes it, and what the file system reports to it. -/
structure Entered where
  thread : Nat
  stat : Stat
  entry : Entry

/-- What C gets: a handle or null, what an engine answers, a code and the memory that was
written, or an error text or null. -/
inductive Answer where
  | handle (handle : Option Nat)
  | engine (outcome : Outcome)
  | ranges (code : Int) (memory : OutMemory)
  | lastError (text : Option ErrorBuffer)
  | freed

/-- The library in a process: its engines under their handles, the error buffer of each
thread, and what was taken from the system. -/
structure Library (ω : Type) where
  live : List (Nat × Opened)
  errors : Nat → ErrorBuffer
  sys : Recorded Resource ω

/-- What a null handle is taken for. A body gives up before it looks. -/
def noEngine : Engine := ⟨emptySlice, .empty, none⟩

namespace Library

variable {ω : Type}

/-- The library before its first call; all error buffers are zero. -/
def start (world : ω) : Library ω := ⟨[], fun _ => Vector.replicate 256 0, ⟨[], world⟩⟩

/-- The end of an opening: the error was cleared first, and is set if there is no handle. -/
def finishOpen (lib : Library ω) (thread : Nat) :
    Except String (Address × Opened) × Recorded Resource ω → Answer × Library ω
  | (.ok (handle, opened), sys) =>
      (.handle (some handle), ⟨(handle, opened) :: lib.live,
        Function.update lib.errors thread (clearError (lib.errors thread)), sys⟩)
  | (.error text, sys) =>
      (.handle none, ⟨lib.live,
        Function.update lib.errors thread (setError text (clearError (lib.errors thread))), sys⟩)

/-- The end of a call that plans ranges. -/
def finishRanges (lib : Library ω) (thread : Nat) :
    ((Int × OutMemory) × ErrorBuffer) × Recorded Resource ω → Answer × Library ω
  | (((code, memory), buf), sys) =>
      (.ranges code memory, ⟨lib.live, Function.update lib.errors thread buf, sys⟩)

/-- A call on an engine, in a thread. -/
def onEngine (lib : Library ω) (input : Entered) (handle : Nat) (operation : Operation) :
    Option (Answer × Library ω) :=
  if handle = 0 then
    (engineStep ⟨⟨true, input.stat⟩, operation⟩ ⟨noEngine, lib.errors input.thread⟩).map
      fun (outcome, s) => (.engine outcome,
        { lib with errors := Function.update lib.errors input.thread s.errorBuffer })
  else
    match takeOut lib.live handle with
    | none => none
    | some (opened, rest) =>
        (engineStep ⟨⟨false, input.stat⟩, operation⟩
          ⟨opened.engine, lib.errors input.thread⟩).map fun (outcome, s) =>
            (.engine outcome, ⟨(handle, ⟨opened.file, s.engine⟩) :: rest,
              Function.update lib.errors input.thread s.errorBuffer, lib.sys⟩)

/-- One call. There is none on a handle that was not opened, or was freed. -/
def step (platform : Platform ω) (fs : FileSystem) (input : Entered) (lib : Library ω) :
    Option (Answer × Library ω) :=
  match input.entry with
  | .open path =>
      some (lib.finishOpen input.thread (mmapEngineOpen platform.toKernel fs path lib.sys))
  | .openPinned path flags =>
      some (lib.finishOpen input.thread
        (mmapEngineOpenPinned platform.toKernel fs input.stat path flags lib.sys))
  | .scanChunks handle chunkSizeBytes =>
      lib.onEngine input handle (.plan (.scanChunksEx chunkSizeBytes 0x0A))
  | .engine handle operation => lib.onEngine input handle operation
  | .planPartitionRanges args memory =>
      some (lib.finishRanges input.thread (Ranges.Owned.mmapEnginePlanPartitionRanges platform fs
        args memory (lib.errors input.thread) lib.sys))
  | .lastError => some (.lastError (mmapEngineLastError (lib.errors input.thread)), lib)
  | .free handle =>
      if handle = 0 then some (.freed, lib)
      else
        match takeOut lib.live handle with
        | none => none
        | some (opened, rest) =>
            some (.freed, ⟨rest, lib.errors, (dropEngine handle opened lib.sys).2⟩)

end Library

/-! ### What is owned -/

/-- What an engine behind a handle owns. -/
def Opened.owned (handle : Nat) (opened : Opened) : Multiset Resource :=
  .box handle ::ₘ opened.file.owned

/-- What is owned of an opening. -/
def ownedOfOpen : Except String (Address × Opened) → Multiset Resource
  | .ok (handle, opened) => opened.owned handle
  | .error _ => 0

/-- What a call that opens is after: the path, and the identity it captured. -/
def Entered.asks (input : Entered) : Option (Path × Option PinnedFile) :=
  match input.entry with
  | .open path => path.map (·, none)
  | .openPinned (some path) flags =>
      (PinnedFile.capture input.stat path flags).toOption.map fun pinned => (path, some pinned)
  | _ => none

/-- The engine is over the file at the path that was asked for, with its pin. -/
structure OpenedBy (fs : FileSystem) (input : Entered) (opened : Opened) : Prop where
  asked : ∃ path data, input.asks = some (path, opened.engine.pin) ∧ served fs path = .ok data ∧
    opened.file.Shows data.bytes
  mmap_eq : opened.engine.mmap = slice opened.file

/-- An error text that can be told from none. -/
def Speaks (text : String) : Prop := ∃ byte, (asBytes text).head? = some byte ∧ byte ≠ 0

/-- What an opening may come to. -/
def OpenOk (fs : FileSystem) (input : Entered) : Except String (Address × Opened) → Prop
  | .ok (_, opened) => OpenedBy fs input opened ∧ opened.engine.plan = .empty
  | .error text => Speaks text

section Opening

variable {ω : Type} {kernel : Kernel ω} {fs : FileSystem} {input : Entered} {path : Path}
  {pin : Option PinnedFile}

theorem lastError_of_speaks {text : String} (speaks : Speaks text) (buf : ErrorBuffer) :
    mmapEngineLastError (setError text buf) ≠ none := by
  obtain ⟨byte, first, ne⟩ := speaks
  obtain ⟨rest, bytes⟩ := List.head?_eq_some_iff.mp first
  have written : (setError text buf)[0] = byte := by
    rw [setError, bytes, Vector.getElem_ofFn]
    exact if_pos (Nat.lt_min.mpr ⟨Nat.succ_pos _, by decide⟩)
  rw [mmapEngineLastError, written, if_neg ne]
  exact Option.some_ne_none _

theorem openFailure_speaks : Speaks (openFailure fs path) := by
  unfold openFailure
  cases probeMmapEligible fs path with
  | ok _ => exact ⟨102, rfl, by decide⟩
  | error error =>
      dsimp only
      split
      · exact ⟨102, head?_asBytes_append rfl _, by decide⟩
      · exact ⟨102, rfl, by decide⟩

theorem openEngine_acts : Acts (openEngine kernel fs path pin) 0 ownedOfOpen := by
  apply Acts.bind MmapFile.open_acts
  rintro (_ | file)
  · exact Acts.pure rfl
  · apply Acts.bind Acts.take
    intro handle
    exact Acts.pure rfl

theorem openEngine_gives (asks : input.asks = some (path, pin)) :
    Gives (openEngine kernel fs path pin) (OpenOk fs input) := by
  refine Gives.bind MmapFile.open_gives ?_
  rintro (_ | file) shows_
  · exact Gives.pure openFailure_speaks
  · refine Gives.bind Gives.any fun handle _ => Gives.pure ?_
    obtain ⟨data, mapped, shown⟩ := shows_ file rfl
    exact ⟨⟨⟨path, data, asks, served_of_mmapFileOpen mapped, shown⟩, rfl⟩, rfl⟩

theorem mmapEngineOpen_acts {path : Option Path} :
    Acts (mmapEngineOpen kernel fs path) 0 ownedOfOpen := by
  cases path with
  | none => exact Acts.pure rfl
  | some path => exact openEngine_acts

theorem mmapEngineOpen_gives {path : Option Path} (entry : input.entry = .open path) :
    Gives (mmapEngineOpen kernel fs path) (OpenOk fs input) := by
  cases path with
  | none => exact Gives.pure ⟨112, rfl, by decide⟩
  | some path =>
      apply openEngine_gives
      rw [Entered.asks, entry]
      rfl

theorem mmapEngineOpenPinned_acts {stat : Stat} {path : Option Path} {flags : UInt32} :
    Acts (mmapEngineOpenPinned kernel fs stat path flags) 0 ownedOfOpen := by
  cases path with
  | none => exact Acts.pure rfl
  | some path =>
      unfold mmapEngineOpenPinned
      dsimp only
      split
      · exact Acts.pure rfl
      · cases PinnedFile.capture stat path flags with
        | error error => exact Acts.pure rfl
        | ok pinned => exact openEngine_acts

theorem mmapEngineOpenPinned_gives {path : Option Path} {flags : UInt32}
    (entry : input.entry = .openPinned path flags) :
    Gives (mmapEngineOpenPinned kernel fs input.stat path flags) (OpenOk fs input) := by
  cases path with
  | none => exact Gives.pure ⟨112, rfl, by decide⟩
  | some path =>
      unfold mmapEngineOpenPinned
      dsimp only
      split
      · exact Gives.pure ⟨117, rfl, by decide⟩
      · cases captured : PinnedFile.capture input.stat path flags with
        | error error => exact Gives.pure ⟨102, head?_asBytes_append rfl _, by decide⟩
        | ok pinned =>
            apply openEngine_gives
            rw [Entered.asks, entry]
            dsimp only
            rw [captured]
            rfl

theorem dropEngine_acts (handle : Nat) (opened : Opened) :
    Acts (dropEngine handle opened : Sys Resource ω Unit) (opened.owned handle) fun _ => 0 := by
  have file := (MmapFile.drop_acts (ω := ω) opened.file).frame {.box handle}
  rw [add_comm, Multiset.singleton_add] at file
  apply Acts.bind file
  intro _
  rw [zero_add]
  exact Acts.release

end Opening

/-! ### What range planning tells -/

theorem rangesError_speaks (error : RangesError) : Speaks error.message := by
  cases error with
  | pathNull => exact ⟨112, rfl, by decide⟩
  | delimiterEmpty => exact ⟨100, rfl, by decide⟩
  | delimiterNull => exact ⟨100, rfl, by decide⟩
  | delimiterTooLong => exact ⟨100, rfl, by decide⟩
  | outCountNull => exact ⟨111, rfl, by decide⟩
  | outRangesNull => exact ⟨111, rfl, by decide⟩
  | zeroPartitions => exact ⟨114, rfl, by decide⟩
  | unknownSourceMode => exact ⟨115, rfl, by decide⟩
  | planning error => exact ⟨114, head?_asBytes_append rfl _, by decide⟩

theorem writeRanges_code (capacity : Nat) (ranges : List (Nat × Nat)) (memory : OutMemory) :
    (writeRanges capacity ranges memory).1 ≠ -1 := by
  unfold writeRanges
  dsimp only
  split <;> simp

/-- There is an error exactly if the code is -1. -/
theorem answerOf_told (args : RangesArgs) (memory : OutMemory) (buf : ErrorBuffer)
    (planned : Option (Except RangesError (List (Nat × Nat)))) :
    mmapEngineLastError (answerOf args memory (clearError buf) planned).2 ≠ none ↔
      (answerOf args memory (clearError buf) planned).1.1 = -1 := by
  rcases planned with _ | error | ranges
  · exact ⟨fun _ => rfl, fun _ => lastError_of_speaks ⟨105, rfl, by decide⟩ _⟩
  · exact ⟨fun _ => rfl, fun _ => lastError_of_speaks (rangesError_speaks error) _⟩
  · constructor
    · intro told
      exact absurd (lastError_clearError buf) told
    · intro failed
      exact absurd failed (writeRanges_code args.capacity ranges memory)

theorem ranges_told {ω : Type} (platform : Platform ω) (fs : FileSystem) (args : RangesArgs)
    (memory : OutMemory) (buf : ErrorBuffer) :
    Gives (Ranges.Owned.mmapEnginePlanPartitionRanges platform fs args memory buf) fun answer =>
      (mmapEngineLastError answer.2 ≠ none ↔ answer.1.1 = -1) :=
  Gives.bind Gives.any fun planned _ => Gives.pure (answerOf_told args memory buf planned)

/-! ### Calls -/

abbrev LibraryCall (ω : Type) := Call Entered (Library ω) Answer

/-- The handle an entry point is given; one that is given none is as good as null. -/
def Entry.handle : Entry → Nat
  | scanChunks handle _ => handle
  | engine handle _ => handle
  | free handle => handle
  | _ => 0

/-- The handle is null or live. -/
def Entry.Names (live : List (Nat × Opened)) (entry : Entry) : Prop :=
  entry.handle = 0 ∨ ∃ opened rest, takeOut live entry.handle = some (opened, rest)

/-- The entry point clears the error before it starts. -/
def Entry.clears : Entry → Bool
  | lastError => false
  | free _ => false
  | _ => true

/-- The call of an engine that a call on `handle` is. -/
def engineCallOn {ω : Type} (handle : Nat) (call : LibraryCall ω) : Option EngineCall :=
  match call.input.entry.operation, call.outcome, takeOut call.before.live handle,
      takeOut call.after.live handle with
  | some (on, operation), .engine outcome, some (before, _), some (after, _) =>
      if on = handle then
        some ⟨⟨before.engine, call.before.errors call.input.thread⟩,
          ⟨⟨false, call.input.stat⟩, operation⟩, outcome,
          ⟨after.engine, call.after.errors call.input.thread⟩⟩
      else none
  | _, _, _, _ => none

/-- The call failed: there is no handle, the handle is null, the engine refused, or no ranges
were planned. A capacity that is too small, -2, is no failure. -/
def CallFailed {ω : Type} (call : LibraryCall ω) : Prop :=
  match call.outcome with
  | .handle handle => handle = none
  | .engine _ =>
      call.input.entry.handle = 0 ∨
        ∃ engineCall, engineCallOn call.input.entry.handle call = some engineCall ∧
          Failed engineCall
  | .ranges code _ => code = -1
  | _ => False

/-- The last call of a thread that cleared its error: `free` and `last_error` do not. -/
def lastCallOf {ω : Type} (thread : Nat) (calls : List (LibraryCall ω)) :
    Option (LibraryCall ω) :=
  calls.reverse.find? fun call => call.input.thread = thread ∧ call.input.entry.clears

/-- What a thread is told is about the last call of that thread that cleared its error. -/
def Told {ω : Type} (calls : List (LibraryCall ω)) (lib : Library ω) : Prop :=
  ∀ thread, mmapEngineLastError (lib.errors thread) ≠ none ↔
    ∃ call, lastCallOf thread calls = some call ∧ CallFailed call

/-! ### What a call can do -/

/-- What a call can do. -/
inductive StepOf {ω : Type} (fs : FileSystem) (input : Entered) (lib : Library ω) :
    Answer → Library ω → Prop where
  | opened {handle : Address} {opened : Opened} {sys : Recorded Resource ω}
      (clears : input.entry.clears = true) (noHandle : input.entry.operation = none)
      (right : OpenOk fs input (.ok (handle, opened)))
      (took : ∃ more, sys.trace = lib.sys.trace ++ more ∧ Turns 0 more (opened.owned handle)) :
      StepOf fs input lib (.handle (some handle)) ⟨(handle, opened) :: lib.live,
        Function.update lib.errors input.thread (clearError (lib.errors input.thread)), sys⟩
  | unopened {text : String} {sys : Recorded Resource ω}
      (clears : input.entry.clears = true) (noHandle : input.entry.operation = none)
      (speaks : Speaks text) (took : ∃ more, sys.trace = lib.sys.trace ++ more ∧ Turns 0 more 0) :
      StepOf fs input lib (.handle none) ⟨lib.live, Function.update lib.errors input.thread
        (setError text (clearError (lib.errors input.thread))), sys⟩
  | onNull {operation : Operation} {outcome : Outcome} {s : Session}
      (asked : input.entry.operation = some (0, operation))
      (ran : engineStep ⟨⟨true, input.stat⟩, operation⟩
        ⟨noEngine, lib.errors input.thread⟩ = some (outcome, s)) :
      StepOf fs input lib (.engine outcome) { lib with
        errors := Function.update lib.errors input.thread s.errorBuffer }
  | onLive {handle : Nat} {operation : Operation} {opened : Opened} {rest : List (Nat × Opened)}
      {outcome : Outcome} {s : Session} (nonnull : handle ≠ 0)
      (asked : input.entry.operation = some (handle, operation))
      (found : takeOut lib.live handle = some (opened, rest))
      (ran : engineStep ⟨⟨false, input.stat⟩, operation⟩
        ⟨opened.engine, lib.errors input.thread⟩ = some (outcome, s)) :
      StepOf fs input lib (.engine outcome) ⟨(handle, ⟨opened.file, s.engine⟩) :: rest,
        Function.update lib.errors input.thread s.errorBuffer, lib.sys⟩
  | planned {code : Int} {memory : OutMemory} {buf : ErrorBuffer} {sys : Recorded Resource ω}
      (clears : input.entry.clears = true) (noHandle : input.entry.operation = none)
      (speaks : mmapEngineLastError buf ≠ none ↔ code = -1)
      (took : ∃ more, sys.trace = lib.sys.trace ++ more ∧ Turns 0 more 0) :
      StepOf fs input lib (.ranges code memory)
        ⟨lib.live, Function.update lib.errors input.thread buf, sys⟩
  | nothing {answer : Answer} (silent : input.entry.clears = false)
      (noHandle : input.entry.operation = none) (unopened : ∀ handle, answer ≠ .handle handle) :
      StepOf fs input lib answer lib
  | freed {handle : Nat} {opened : Opened} {rest : List (Nat × Opened)}
      (silent : input.entry.clears = false) (noHandle : input.entry.operation = none)
      (found : takeOut lib.live handle = some (opened, rest)) :
      StepOf fs input lib .freed ⟨rest, lib.errors, (dropEngine handle opened lib.sys).2⟩

section Step

variable {ω : Type} {platform : Platform ω} {fs : FileSystem} {input : Entered}
  {lib lib' : Library ω} {calls : List (LibraryCall ω)} {answer : Answer} {call : LibraryCall ω}

theorem lastCallOf_snoc (thread : Nat) : lastCallOf thread (calls ++ [call]) =
    if call.input.thread = thread ∧ call.input.entry.clears then some call
    else lastCallOf thread calls := by
  unfold lastCallOf
  rw [List.reverse_append, List.reverse_singleton, List.singleton_append, List.find?_cons]
  by_cases own : call.input.thread = thread ∧ call.input.entry.clears
  · rw [if_pos own, decide_eq_true own]
  · rw [if_neg own, decide_eq_false own]

/-- A call that leaves the errors alone. -/
theorem Told.kept (told : Told calls call.before) (silent : call.input.entry.clears = false)
    (same : call.after.errors = call.before.errors) : Told (calls ++ [call]) call.after := by
  intro thread
  rw [same, lastCallOf_snoc, silent, if_neg fun own => Bool.false_ne_true own.2]
  exact told thread

/-- A call that leaves an error in its thread, or none. -/
theorem Told.cleared {buf : ErrorBuffer} (told : Told calls call.before)
    (clears : call.input.entry.clears = true)
    (written : call.after.errors = Function.update call.before.errors call.input.thread buf)
    (right : mmapEngineLastError buf ≠ none ↔ CallFailed call) :
    Told (calls ++ [call]) call.after := by
  intro thread
  rw [written, lastCallOf_snoc, clears]
  by_cases own : call.input.thread = thread
  · subst own
    rw [Function.update_self, if_pos ⟨rfl, rfl⟩, right]
    constructor
    · intro failed
      exact ⟨call, rfl, failed⟩
    · rintro ⟨_, ⟨⟩, failed⟩
      exact failed
  · rw [Function.update_of_ne (Ne.symm own), if_neg fun both => own both.1]
    exact told thread

/-- An opening. -/
theorem stepOf_open {x : Sys Resource ω (Except String (Address × Opened))}
    (clears : input.entry.clears = true) (noHandle : input.entry.operation = none)
    (acts : Acts x 0 ownedOfOpen) (gives : Gives x (OpenOk fs input)) :
    StepOf fs input lib (lib.finishOpen input.thread (x lib.sys)).1
      (lib.finishOpen input.thread (x lib.sys)).2 := by
  have took := acts lib.sys
  have right := gives lib.sys
  generalize x lib.sys = ran at took right
  obtain ⟨text | ⟨handle, opened⟩, sys⟩ := ran
  · exact .unopened clears noHandle right took
  · exact .opened clears noHandle right took

theorem stepOf_onEngine {handle : Nat} {operation : Operation}
    (asked : input.entry.operation = some (handle, operation))
    (stepped : lib.onEngine input handle operation = some (answer, lib')) :
    StepOf fs input lib answer lib' := by
  unfold Library.onEngine at stepped
  by_cases null : handle = 0
  · rw [if_pos null] at stepped
    obtain ⟨⟨outcome, s⟩, ran, ⟨⟩⟩ := Option.map_eq_some_iff.mp stepped
    exact .onNull (null ▸ asked) ran
  · rw [if_neg null] at stepped
    cases found : takeOut lib.live handle with
    | none =>
        rw [found] at stepped
        cases stepped
    | some taken =>
        obtain ⟨opened, rest⟩ := taken
        rw [found] at stepped
        obtain ⟨⟨outcome, s⟩, ran, ⟨⟩⟩ := Option.map_eq_some_iff.mp stepped
        exact .onLive null asked found ran

/-- A call that plans ranges. -/
theorem stepOf_ranges {x : Sys Resource ω ((Int × OutMemory) × ErrorBuffer)}
    (clears : input.entry.clears = true) (noHandle : input.entry.operation = none)
    (acts : Acts x 0 fun _ => 0)
    (told : Gives x fun answer => (mmapEngineLastError answer.2 ≠ none ↔ answer.1.1 = -1)) :
    StepOf fs input lib (lib.finishRanges input.thread (x lib.sys)).1
      (lib.finishRanges input.thread (x lib.sys)).2 := by
  have took := acts lib.sys
  have speaks := told lib.sys
  generalize x lib.sys = ran at took speaks
  obtain ⟨⟨⟨code, memory⟩, buf⟩, sys⟩ := ran
  exact .planned clears noHandle speaks took

theorem Library.step_cases (stepped : Library.step platform fs input lib = some (answer, lib')) :
    StepOf fs input lib answer lib' := by
  unfold Library.step at stepped
  cases entry : input.entry with
  | «open» path =>
      rw [entry] at stepped
      have opens : StepOf fs input lib
          (lib.finishOpen input.thread (mmapEngineOpen platform.toKernel fs path lib.sys)).1 _ :=
        stepOf_open (by rw [entry]; rfl) (by rw [entry]; rfl) mmapEngineOpen_acts
          (mmapEngineOpen_gives entry)
      rwa [Option.some.inj stepped] at opens
  | openPinned path flags =>
      rw [entry] at stepped
      have opens : StepOf fs input lib (lib.finishOpen input.thread
          (mmapEngineOpenPinned platform.toKernel fs input.stat path flags lib.sys)).1 _ :=
        stepOf_open (by rw [entry]; rfl) (by rw [entry]; rfl) mmapEngineOpenPinned_acts
          (mmapEngineOpenPinned_gives entry)
      rwa [Option.some.inj stepped] at opens
  | scanChunks handle chunkSizeBytes =>
      rw [entry] at stepped
      exact stepOf_onEngine (by rw [entry]; rfl) stepped
  | engine handle operation =>
      rw [entry] at stepped
      exact stepOf_onEngine (by rw [entry]; rfl) stepped
  | planPartitionRanges args memory =>
      rw [entry] at stepped
      have ranges : StepOf fs input lib (lib.finishRanges input.thread
          (Ranges.Owned.mmapEnginePlanPartitionRanges platform fs args memory
            (lib.errors input.thread) lib.sys)).1 _ :=
        stepOf_ranges (by rw [entry]; rfl) (by rw [entry]; rfl)
          (Ranges.Owned.call_acts platform fs args memory _) (ranges_told platform fs args memory _)
      rwa [Option.some.inj stepped] at ranges
  | lastError =>
      rw [entry] at stepped
      cases stepped
      exact .nothing (by rw [entry]; rfl) (by rw [entry]; rfl) fun _ eq => by cases eq
  | free handle =>
      rw [entry] at stepped
      dsimp only at stepped
      split at stepped
      · cases stepped
        exact .nothing (by rw [entry]; rfl) (by rw [entry]; rfl) fun _ eq => by cases eq
      · cases found : takeOut lib.live handle with
        | none =>
            rw [found] at stepped
            cases stepped
        | some taken =>
            obtain ⟨opened, rest⟩ := taken
            rw [found] at stepped
            cases stepped
            exact .freed (by rw [entry]; rfl) (by rw [entry]; rfl) found

theorem Entry.of_operation {entry : Entry} {handle : Nat} {operation : Operation}
    (asked : entry.operation = some (handle, operation)) :
    entry.handle = handle ∧ entry.clears = true := by
  cases entry <;> cases asked <;> exact ⟨rfl, rfl⟩

/-- The call of an engine that a call on a live handle is. -/
theorem engineCallOn_live {handle : Nat} {operation : Operation} {opened : Opened}
    {rest : List (Nat × Opened)} {s : Session} {errors : Nat → ErrorBuffer} (outcome : Outcome)
    (asked : input.entry.operation = some (handle, operation))
    (found : takeOut lib.live handle = some (opened, rest))
    (written : errors input.thread = s.errorBuffer) :
    engineCallOn handle ⟨lib, input, .engine outcome,
        ⟨(handle, ⟨opened.file, s.engine⟩) :: rest, errors, lib.sys⟩⟩ =
      some ⟨⟨opened.engine, lib.errors input.thread⟩, ⟨⟨false, input.stat⟩, operation⟩, outcome,
        s⟩ := by
  unfold engineCallOn
  dsimp only
  rw [asked, found, takeOut, if_pos rfl]
  dsimp only
  rw [if_pos rfl, written]

/-- On a null handle every call fails, and says so. -/
theorem onNull_speaks {stat : Stat} {operation : Operation} {buf : ErrorBuffer} {outcome : Outcome}
    {s : Session} (ran : engineStep ⟨⟨true, stat⟩, operation⟩ ⟨noEngine, buf⟩ = some (outcome, s)) :
    mmapEngineLastError s.errorBuffer ≠ none := by
  obtain ⟨outcome', s', ran', effect⟩ := engineStep_effect (s := ⟨noEngine, buf⟩)
    (ChunkPlan.lays_empty _) (fun some_ => absurd rfl some_) ⟨⟨true, stat⟩, operation⟩
  cases ran.symm.trans ran'
  cases effect with
  | planned asked accepted silent => exact absurd rfl accepted.handle
  | refused asked unaccepted speaks => exact speaks
  | read asked handle out found silent => exact absurd rfl handle
  | unread asked missing speaks => exact speaks

/-- The engine stays the one that was opened. -/
theorem Effect.engine_eq {layout : List (Nat × Nat)} {asked : Input} {s s' : Session}
    {outcome : Outcome} (effect : Effect layout asked s outcome s') :
    s'.engine.mmap = s.engine.mmap ∧ s'.engine.pin = s.engine.pin := by
  cases effect with
  | planned => exact ⟨rfl, rfl⟩
  | refused => exact ⟨rfl, rfl⟩
  | read => exact ⟨rfl, rfl⟩
  | unread => exact ⟨rfl, rfl⟩

/-- A call on an engine that has kept its contract so far always returns. -/
theorem engineStep_total {mmap : Slice} {earlier : List EngineCall} {engine : Engine}
    {buf : ErrorBuffer} (inv : Invariant mmap earlier ⟨engine, buf⟩) (asked : Input)
    (errors : ErrorBuffer) :
    ∃ outcome s, engineStep asked ⟨engine, errors⟩ = some (outcome, s) ∧
      Effect (lastLayout mmap.bytes earlier) asked ⟨engine, errors⟩ outcome s := by
  have same : engine.mmap = mmap := inv.mmap_eq
  apply engineStep_effect
  · rw [same]
    exact inv.lays
  · rw [same]
    exact inv.tiles

/-- What a call on an engine does: it keeps the contract, and the engine is ready for the
next call, from whatever thread. -/
theorem onLive_spec {mmap : Slice} {earlier : List EngineCall} {engine : Engine}
    {buf errors : ErrorBuffer} {asked : Input} {outcome : Outcome} {s : Session}
    (inv : Invariant mmap earlier ⟨engine, buf⟩)
    (ran : engineStep asked ⟨engine, errors⟩ = some (outcome, s)) :
    s.engine.pin = engine.pin ∧ s.engine.mmap = mmap ∧
      Contract mmap earlier ⟨⟨engine, errors⟩, asked, outcome, s⟩ ∧
      Invariant mmap (earlier ++ [⟨⟨engine, errors⟩, asked, outcome, s⟩]) s := by
  obtain ⟨outcome', s', ran', effect⟩ := engineStep_total inv asked errors
  cases ran.symm.trans ran'
  have here : Invariant mmap earlier ⟨engine, errors⟩ :=
    ⟨inv.mmap_eq, inv.lays, inv.tiles, inv.count, inv.each⟩
  exact ⟨effect.engine_eq.2, effect.engine_eq.1.trans inv.mmap_eq, here.contract effect,
    here.snoc effect⟩

end Step

/-! ### What is owned after a run -/

section Owned

variable {ω : Type} {platform : Platform ω} {fs : FileSystem} {input : Entered}
  {lib lib' : Library ω} {calls : List (LibraryCall ω)} {answer : Answer}

/-- What holds between calls: all that is held is owned by a live handle, and every engine
has kept its contract. -/
structure Library.Inv (calls : List (LibraryCall ω)) (lib : Library ω) : Prop where
  leaves : Leaves lib.sys (total Opened.owned lib.live)
  engines : ∀ entry ∈ lib.live, ∃ earlier buf,
    Invariant (slice entry.2.file) earlier ⟨entry.2.engine, buf⟩
  told : Told calls lib

theorem Library.Inv.start (world : ω) : (Library.start world).Inv [] where
  leaves := ⟨trivial, rfl⟩
  engines _ mem := by cases mem
  told thread := by
    constructor
    · intro set
      exact absurd (by simp [mmapEngineLastError, Library.start]) set
    · rintro ⟨call, ⟨⟩, -⟩

/-- An engine that was just opened has kept its contract. -/
theorem invariant_opened {opened : Opened} (mmap : opened.engine.mmap = slice opened.file)
    (empty : opened.engine.plan = .empty) (buf : ErrorBuffer) :
    Invariant (slice opened.file) [] ⟨opened.engine, buf⟩ where
  mmap_eq := mmap
  lays := by
    rw [empty]
    exact ChunkPlan.lays_empty _
  tiles some_ := absurd rfl some_
  count := rfl
  each := each_nil

/-- A call keeps the invariant. -/
theorem Library.Inv.step (inv : lib.Inv calls) (does : StepOf fs input lib answer lib') :
    lib'.Inv (calls ++ [⟨lib, input, answer, lib'⟩]) := by
  have before : Leaves lib.sys (0 + total Opened.owned lib.live) :=
    (zero_add (total Opened.owned lib.live)).symm ▸ inv.leaves
  cases does with
  | @opened handle opened sys clears noHandle right took =>
      obtain ⟨more, recorded, turns⟩ := took
      refine ⟨before.turns recorded turns, List.forall_mem_cons.mpr ⟨?_, inv.engines⟩, ?_⟩
      · exact ⟨[], _, invariant_opened right.1.mmap_eq right.2 (clearError (lib.errors 0))⟩
      · refine inv.told.cleared clears rfl ⟨fun set => ?_, fun failed => ?_⟩
        · exact absurd (lastError_clearError _) set
        · cases failed
  | @unopened text sys clears noHandle speaks took =>
      obtain ⟨more, recorded, turns⟩ := took
      have leaves := before.turns recorded turns
      rw [zero_add] at leaves
      refine ⟨leaves, inv.engines, ?_⟩
      exact inv.told.cleared clears rfl ⟨fun _ => rfl, fun _ => lastError_of_speaks speaks _⟩
  | @onNull operation outcome s asked ran =>
      obtain ⟨null, clears⟩ := Entry.of_operation asked
      exact ⟨inv.leaves, inv.engines,
        inv.told.cleared clears rfl ⟨fun _ => .inl null, fun _ => onNull_speaks ran⟩⟩
  | @onLive handle operation opened rest outcome s nonnull asked found ran =>
      obtain ⟨on, clears⟩ := Entry.of_operation asked
      obtain ⟨mem, kept⟩ := mem_of_takeOut found
      obtain ⟨earlier, buf, engine⟩ := inv.engines _ mem
      obtain ⟨-, -, contract, next⟩ := onLive_spec engine ran
      have leaves := inv.leaves
      rw [total_takeOut found] at leaves
      refine ⟨leaves, List.forall_mem_cons.mpr ⟨⟨_, _, next⟩, fun e m => inv.engines e (kept e m)⟩,
        inv.told.cleared clears rfl ?_⟩
      have call := engineCallOn_live outcome asked found
        (Function.update_self input.thread s.errorBuffer lib.errors)
      refine contract.error.trans ⟨fun failed => .inr ⟨_, ?_, failed⟩, ?_⟩
      · rw [on]
        exact call
      · rintro (null | ⟨engineCall, is, failed⟩)
        · exact absurd (on.symm.trans null) nonnull
        · rw [on] at is
          cases call.symm.trans is
          exact failed
  | @planned code memory buf sys clears noHandle speaks took =>
      obtain ⟨more, recorded, turns⟩ := took
      have leaves := before.turns recorded turns
      rw [zero_add] at leaves
      exact ⟨leaves, inv.engines, inv.told.cleared clears rfl speaks⟩
  | nothing silent noHandle unopened =>
      exact ⟨inv.leaves, inv.engines, inv.told.kept silent rfl⟩
  | @freed handle opened rest silent noHandle found =>
      have before := inv.leaves
      rw [total_takeOut found] at before
      have after := (dropEngine_acts handle opened).leaves before
      rw [zero_add] at after
      exact ⟨after, fun e mem => inv.engines e ((mem_of_takeOut found).2 e mem),
        inv.told.kept silent rfl⟩

/-- A call on an engine returns if its handle is null or live. -/
theorem Library.Inv.onEngine (inv : lib.Inv calls) {handle : Nat} {operation : Operation}
    (names : handle = 0 ∨ ∃ opened rest, takeOut lib.live handle = some (opened, rest)) :
    ∃ next, lib.onEngine input handle operation = some next := by
  unfold Library.onEngine
  by_cases null : handle = 0
  · obtain ⟨outcome, s, ran, -⟩ := engineStep_effect
      (s := ⟨noEngine, lib.errors input.thread⟩) (ChunkPlan.lays_empty _)
      (fun some_ => absurd rfl some_) ⟨⟨true, input.stat⟩, operation⟩
    rw [if_pos null, ran]
    exact ⟨_, rfl⟩
  · rcases names with isNull | ⟨opened, rest, found⟩
    · exact absurd isNull null
    · obtain ⟨earlier, buf, engine⟩ := inv.engines _ (mem_of_takeOut found).1
      obtain ⟨outcome, s, ran, -⟩ := engineStep_total engine ⟨⟨false, input.stat⟩, operation⟩
        (lib.errors input.thread)
      rw [if_neg null, found]
      dsimp only
      rw [ran]
      exact ⟨_, rfl⟩

/-- A call returns if its handle is null or live. -/
theorem Library.Inv.returns (inv : lib.Inv calls) (names : input.entry.Names lib.live) :
    ∃ next, Library.step platform fs input lib = some next := by
  unfold Library.step
  unfold Entry.Names at names
  cases entry : input.entry with
  | «open» path => exact ⟨_, rfl⟩
  | openPinned path flags => exact ⟨_, rfl⟩
  | scanChunks handle chunkSizeBytes =>
      rw [entry] at names
      exact inv.onEngine names
  | engine handle operation =>
      rw [entry] at names
      exact inv.onEngine names
  | planPartitionRanges args memory => exact ⟨_, rfl⟩
  | lastError => exact ⟨_, rfl⟩
  | free handle =>
      rw [entry] at names
      by_cases null : handle = 0
      · exact ⟨_, if_pos null⟩
      · rcases names with isNull | ⟨opened, rest, found⟩
        · exact absurd isNull null
        · dsimp only
          change takeOut lib.live handle = _ at found
          rw [if_neg null, found]
          exact ⟨_, rfl⟩

/-- No other call does. -/
theorem names_of_onEngine {handle : Nat} {operation : Operation} {next : Answer × Library ω}
    (stepped : lib.onEngine input handle operation = some next) :
    handle = 0 ∨ ∃ opened rest, takeOut lib.live handle = some (opened, rest) := by
  unfold Library.onEngine at stepped
  by_cases null : handle = 0
  · exact .inl null
  · rw [if_neg null] at stepped
    cases found : takeOut lib.live handle with
    | none =>
        rw [found] at stepped
        cases stepped
    | some taken => exact .inr ⟨taken.1, taken.2, rfl⟩

theorem names_of_step {next : Answer × Library ω}
    (stepped : Library.step platform fs input lib = some next) : input.entry.Names lib.live := by
  unfold Library.step at stepped
  unfold Entry.Names
  cases entry : input.entry with
  | «open» path => exact .inl rfl
  | openPinned path flags => exact .inl rfl
  | scanChunks handle chunkSizeBytes =>
      rw [entry] at stepped
      exact names_of_onEngine stepped
  | engine handle operation =>
      rw [entry] at stepped
      exact names_of_onEngine stepped
  | planPartitionRanges args memory => exact .inl rfl
  | lastError => exact .inl rfl
  | free handle =>
      rw [entry] at stepped
      dsimp only at stepped
      by_cases null : handle = 0
      · exact .inl null
      · rw [if_neg null] at stepped
        cases found : takeOut lib.live handle with
        | none =>
            rw [found] at stepped
            cases stepped
        | some taken => exact .inr ⟨taken.1, taken.2, found⟩

theorem Library.run_inv {world : ω}
    (run : Run (Library.step platform fs) (Library.start world) calls lib) : lib.Inv calls := by
  induction run with
  | start => exact .start world
  | call _ stepped ih => exact ih.step (Library.step_cases stepped)

end Owned

/-- **What the library owns.** After every sequence of calls, from any number of threads and
whatever the system refuses: nothing was given back that was not held, and all that is held is
owned by a live handle, so that a failed opening leaves nothing behind, nor does a call that
plans ranges, and nothing is held once all handles are freed. A call returns exactly if its
handle is null or live. A thread is told of an error exactly if its last call that cleared the
error, which all do but `free` and `last_error`, failed. -/
theorem library_owned {ω : Type} (platform : Platform ω) (fs : FileSystem) (world : ω)
    (calls : List (LibraryCall ω)) (lib : Library ω)
    (run : Run (Library.step platform fs) (Library.start world) calls lib) :
    Proper lib.sys.trace ∧ after 0 lib.sys.trace = total Opened.owned lib.live ∧
    (∀ input, (∃ next, Library.step platform fs input lib = some next) ↔
      input.entry.Names lib.live) ∧
    ∀ thread, mmapEngineLastError (lib.errors thread) ≠ none ↔
      ∃ call, lastCallOf thread calls = some call ∧ CallFailed call := by
  have inv := Library.run_inv run
  refine ⟨inv.leaves.proper, inv.leaves.held_eq, fun input => ⟨?_, inv.returns⟩, inv.told⟩
  rintro ⟨next, stepped⟩
  exact names_of_step stepped

/-- The system that counts up, where every file holds `bytes`. It grants every buffer. -/
def countingPlatform (bytes : List UInt8) : Platform Nat where
  toKernel := countingKernel
  fstat _ n := (.ok (), n)
  pread _ offset out n := (.ok (Cli.fullRead bytes offset out), n)
  allocate _ _ := some 0

/-- The file in one part, of which the capacity holds none. -/
def noCapacity : RangesArgs where
  path := some "a"
  requestedPartitions := 1
  delimiter := ⟨some fun _ => 10, 1⟩
  sourceMode := Ranges.sourceModeMmap
  windowBytes := 0
  outRangesIsNull := true
  capacity := 0
  outCountIsNull := false
  window_le := Nat.zero_le _

/-- A call in a thread of a session; nothing is pinned in it. -/
def enteredIn (thread : Nat) (entry : Entry) : Entered := ⟨thread, fun _ => .error notFound, entry⟩

/-- Two threads and three handles. The first handle is planned over in one thread and read in
the other, the last is freed. One thread plans ranges, the other fails to open a null path. -/
def session : List Entered := [
  enteredIn 0 (.open (some "a")),
  enteredIn 1 (.open (some "a")),
  enteredIn 0 (.open (some "a")),
  enteredIn 1 (.engine 3 (.plan (.partitionRecords 1 10))),
  enteredIn 0 (.engine 3 (.getChunk 0 false)),
  enteredIn 1 (.planPartitionRanges noCapacity ⟨0, fun _ => (0, 0)⟩),
  enteredIn 0 (.free 9),
  enteredIn 0 (.open none),
  enteredIn 0 (.free 0)]

/-- A call of the session. -/
abbrev sessionStep := Library.step (countingPlatform [104, 105]) twoBytes

/-- The session, run to its end. -/
def sessionRan : List (LibraryCall Nat) × Library Nat :=
  (execute sessionStep session (Library.start 0)).getD ([], Library.start 0)

theorem session_run : Run sessionStep (Library.start 0) sessionRan.1 sessionRan.2 := by
  have returns : (execute sessionStep session (Library.start 0)).isSome = true := by decide +kernel
  obtain ⟨ran, eq⟩ := Option.isSome_iff_exists.mp returns
  rw [sessionRan, eq]
  exact Run.start.execute eq

/-- Two handles own what is held. In the thread whose opening failed there is an error, also
after it has freed null; in the one that was short of capacity there is none. -/
theorem library_owned_session :
    sessionRan.2.live.map Prod.fst = [3, 6] ∧
    after 0 sessionRan.2.sys.trace = total Opened.owned sessionRan.2.live ∧
    mmapEngineLastError (sessionRan.2.errors 0) ≠ none ∧
    mmapEngineLastError (sessionRan.2.errors 1) = none ∧
    ¬∃ next, sessionStep (enteredIn 0 (.free 9)) sessionRan.2 = some next := by
  obtain ⟨-, held, returns, told⟩ :=
    library_owned (countingPlatform [104, 105]) twoBytes 0 _ _ session_run
  refine ⟨by decide +kernel, held, (told 0).mpr ⟨_, rfl, rfl⟩, not_not.mp fun set => ?_, ?_⟩
  · obtain ⟨call, last, failed⟩ := (told 1).mp set
    cases last
    have code : (-2 : Int) = -1 := failed
    cases code
  · intro returned
    have gone : takeOut sessionRan.2.live 9 = none := rfl
    rcases (returns _).mp returned with null | ⟨opened, rest, found⟩
    · cases null
    · cases gone.symm.trans found

/-! ### What a handle is worth -/

/-- The call returned this handle. -/
def opens {ω : Type} (handle : Nat) (call : LibraryCall ω) : Bool :=
  match call.outcome with
  | .handle (some opened) => opened = handle
  | _ => false

/-- The last call that returned the handle. -/
def opening {ω : Type} (handle : Nat) (calls : List (LibraryCall ω)) : Option (LibraryCall ω) :=
  calls.reverse.find? (opens handle)

/-- The calls on the handle so far, and one call more. -/
def historyStep {ω : Type} (handle : Nat) (earlier : List EngineCall) (call : LibraryCall ω) :
    List EngineCall :=
  if opens handle call then [] else earlier ++ (engineCallOn handle call).toList

/-- The calls on the handle since it was opened, in order. -/
def history {ω : Type} (handle : Nat) (calls : List (LibraryCall ω)) : List EngineCall :=
  calls.foldl (historyStep handle) []

/-- What holds of a live handle between calls. -/
structure Held {ω : Type} (fs : FileSystem) (calls : List (LibraryCall ω)) (handle : Nat)
    (opened : Opened) : Prop where
  nonnull : handle ≠ 0
  engine : ∃ buf, Invariant (slice opened.file) (history handle calls) ⟨opened.engine, buf⟩
  opening : ∃ call, opening handle calls = some call ∧ OpenedBy fs call.input opened

section Handles

variable {ω : Type} {platform : Platform ω} {fs : FileSystem} {input : Entered}
  {lib lib' : Library ω} {calls : List (LibraryCall ω)} {answer : Answer} {call : LibraryCall ω}
  {handle : Nat}
  {opened : Opened}

theorem history_snoc (calls : List (LibraryCall ω)) (call : LibraryCall ω) :
    history handle (calls ++ [call]) = historyStep handle (history handle calls) call := by
  rw [history, List.foldl_append]
  rfl

theorem opening_snoc : opening handle (calls ++ [call]) =
    if opens handle call then some call else opening handle calls := by
  unfold opening
  rw [List.reverse_append, List.reverse_singleton, List.singleton_append, List.find?_cons]
  cases opens handle call <;> rfl

/-- A call that neither opens the handle nor is on it. -/
theorem Held.kept (held : Held fs calls handle opened) (other : opens handle call = false)
    (off : engineCallOn handle call = none) : Held fs (calls ++ [call]) handle opened := by
  refine ⟨held.nonnull, ?_, ?_⟩
  · rw [history_snoc, historyStep, other, off]
    simpa using held.engine
  · rw [opening_snoc, other]
    exact held.opening

/-- The call that opens the handle. -/
theorem Held.start (nonnull : handle ≠ 0) (opens_ : opens handle call = true)
    (right : OpenedBy fs call.input opened) (empty : opened.engine.plan = .empty) :
    Held fs (calls ++ [call]) handle opened := by
  refine ⟨nonnull, ⟨Vector.replicate 256 0, ?_⟩, call, ?_, right⟩
  · rw [history_snoc, historyStep, if_pos opens_]
    exact invariant_opened right.mmap_eq empty _
  · rw [opening_snoc, if_pos opens_]

/-- A call without an operation, or on another handle, is none on this one. -/
theorem engineCallOn_eq_none
    (off : ∀ operation, call.input.entry.operation ≠ some (handle, operation)) :
    engineCallOn handle call = none := by
  unfold engineCallOn
  split
  · rename_i on operation outcome before restBefore after restAfter asked _ _ _
    split
    · rename_i same
      exact absurd (same ▸ asked) (off operation)
    · rfl
  · rfl

theorem engineCallOn_of_none (noHandle : call.input.entry.operation = none) :
    engineCallOn handle call = none := by
  apply engineCallOn_eq_none
  intro operation
  rw [noHandle]
  exact (Option.some_ne_none _).symm

/-- All live handles hold. -/
def AllHeld (fs : FileSystem) (calls : List (LibraryCall ω)) (lib : Library ω) : Prop :=
  ∀ entry ∈ lib.live, Held fs calls entry.1 entry.2

/-- A call keeps what holds of the live handles, if none is live twice. -/
theorem AllHeld.step (held : AllHeld fs calls lib) (does : StepOf fs input lib answer lib')
    (distinct : (lib'.live.map Prod.fst).Nodup) :
    AllHeld fs (calls ++ [⟨lib, input, answer, lib'⟩]) lib' := by
  cases does with
  | @opened handle opened sys clears noHandle right took =>
      obtain ⟨new, -⟩ := List.nodup_cons.mp distinct
      intro entry mem
      rcases List.mem_cons.mp mem with rfl | mem
      · exact .start handle.2 (decide_eq_true rfl) right.1 right.2
      · refine (held entry mem).kept (decide_eq_false fun same => new ?_)
          (engineCallOn_of_none noHandle)
        exact List.mem_map.mpr ⟨entry, mem, same.symm⟩
  | @unopened text sys clears noHandle speaks took =>
      exact fun entry mem => (held entry mem).kept rfl (engineCallOn_of_none noHandle)
  | @onNull operation outcome s asked ran =>
      intro entry mem
      refine (held entry mem).kept rfl (engineCallOn_eq_none fun operation eq => ?_)
      have same : 0 = entry.1 := congrArg Prod.fst (Option.some.inj (asked.symm.trans eq))
      exact (held entry mem).nonnull same.symm
  | @onLive handle operation opened rest outcome s nonnull asked found ran =>
      obtain ⟨there, kept⟩ := mem_of_takeOut found
      obtain ⟨new, -⟩ := List.nodup_cons.mp distinct
      intro entry mem
      rcases List.mem_cons.mp mem with rfl | mem
      · obtain ⟨_, ⟨buf, engine⟩, call, opening_, right⟩ := held _ there
        obtain ⟨pin, mmap, -, next⟩ := onLive_spec engine ran
        have on := engineCallOn_live outcome asked found
          (Function.update_self input.thread s.errorBuffer lib.errors)
        refine ⟨nonnull, ⟨s.errorBuffer, ?_⟩, call, ?_, ?_⟩
        · rw [history_snoc, historyStep, on]
          exact next
        · rw [opening_snoc]
          exact opening_
        · obtain ⟨path, data, asks, served_, shows_⟩ := right.asked
          exact ⟨⟨path, data, pin ▸ asks, served_, shows_⟩, mmap⟩
      · refine (held entry (kept entry mem)).kept rfl (engineCallOn_eq_none fun other eq => ?_)
        have same : handle = entry.1 := congrArg Prod.fst (Option.some.inj (asked.symm.trans eq))
        exact new (List.mem_map.mpr ⟨entry, mem, same.symm⟩)
  | @planned code memory buf sys clears noHandle speaks took =>
      exact fun entry mem => (held entry mem).kept rfl (engineCallOn_of_none noHandle)
  | nothing silent noHandle unopened =>
      intro entry mem
      refine (held entry mem).kept ?_ (engineCallOn_of_none noHandle)
      unfold opens
      split
      · rename_i handle eq
        exact absurd eq (unopened _)
      · rfl
  | @freed handle opened rest silent noHandle found =>
      exact fun entry mem => (held entry ((mem_of_takeOut found).2 entry mem)).kept rfl
        (engineCallOn_of_none noHandle)

/-- Of a system that keeps apart what it gives, no handle is live twice. -/
theorem nodup_handles {live : List (Nat × Opened)} (nodup : (total Opened.owned live).Nodup) :
    (live.map Prod.fst).Nodup := by
  induction live with
  | nil => exact List.nodup_nil
  | cons entry live ih =>
      obtain ⟨here, rest, disjoint⟩ := Multiset.nodup_add.mp (total_cons ▸ nodup)
      refine List.nodup_cons.mpr ⟨fun mem => ?_, ih rest⟩
      obtain ⟨other, memOther, same⟩ := List.mem_map.mp mem
      have box : .box entry.1 ∈ total Opened.owned live :=
        mem_total memOther (same ▸ Multiset.mem_cons_self _ _)
      exact Multiset.disjoint_left.mp disjoint (Multiset.mem_cons_self _ _) box

/-- A call only adds to what was recorded. -/
theorem StepOf.trace (does : StepOf fs input lib answer lib') :
    ∃ more, lib'.sys.trace = lib.sys.trace ++ more := by
  cases does with
  | opened _ _ _ took => exact took.imp fun more both => both.1
  | unopened _ _ _ took => exact took.imp fun more both => both.1
  | planned _ _ _ took => exact took.imp fun more both => both.1
  | freed _ _ _ => exact (dropEngine_acts _ _ lib.sys).imp fun more both => both.1
  | onNull => exact ⟨[], (List.append_nil lib.sys.trace).symm⟩
  | onLive => exact ⟨[], (List.append_nil lib.sys.trace).symm⟩
  | nothing => exact ⟨[], (List.append_nil lib.sys.trace).symm⟩

/-- On such a system, what live handles own is apart. -/
theorem Library.Inv.separate (inv : lib.Inv calls) (honest : Honest (Fresh Apart) lib.sys.trace) :
    Separate Apart (total Opened.owned lib.live) := by
  rw [← inv.leaves.held_eq]
  exact honest.separate Apart.symm

/-- What holds after a run on such a system. -/
theorem Library.run_held {world : ω}
    (run : Run (Library.step platform fs) (Library.start world) calls lib)
    (honest : Honest (Fresh Apart) lib.sys.trace) : AllHeld fs calls lib := by
  induction run with
  | start => exact fun _ mem => (by cases mem)
  | call run stepped ih =>
      have does := Library.step_cases stepped
      have distinct := nodup_handles (((Library.run_inv run).step does).separate honest).nodup
      obtain ⟨more, grown⟩ := does.trace
      rw [Honest, grown, along_append_iff] at honest
      exact (ih honest.1).step does distinct

/-- A view of an engine lies in the pages of its file. -/
theorem Held.view (held : Held fs calls handle opened) {engineCall : EngineCall}
    (mem : engineCall ∈ history handle calls) {index : Nat} {outChunkIsNull : Bool}
    {view : CChunkView} (asked : engineCall.input.operation = .getChunk index outChunkIsNull)
    (read : engineCall.outcome = .chunk 0 (some view)) :
    .pages opened.file.ptr opened.file.size ∈ opened.owned handle ∧
      opened.file.ptr ≤ view.data ∧ 0 < view.len ∧
      view.data + view.len ≤ opened.file.ptr + opened.file.size := by
  obtain ⟨buf, engine⟩ := held.engine
  obtain ⟨earlier, later, split⟩ := List.append_of_mem mem
  obtain ⟨range, -, some_, inside, eq⟩ :=
    (engine.each earlier engineCall later split).view index outChunkIsNull (some view) asked read
  obtain rfl := Option.some.inj eq
  obtain ⟨call, -, right⟩ := held.opening
  obtain ⟨path, data, -, -, shows_⟩ := right.asked
  change range.2 ≤ opened.file.size at inside
  have pos : 0 < opened.file.size := by omega
  have mapped : opened.file.ptr ≠ 0 := by
    intro null
    have empty : opened.file.bytes = [] := shows_.bytes_eq.trans (shows_.empty_of_null null)
    rw [MmapFile.size, empty] at pos
    exact absurd pos (Nat.lt_irrefl 0)
  refine ⟨?_, Nat.le_add_right _ _, Nat.sub_pos_of_lt some_, ?_⟩
  · apply Multiset.mem_cons_of_mem
    rw [MmapFile.owned, if_pos ⟨mapped, pos⟩]
    exact Multiset.mem_add.mpr (.inl (Multiset.mem_singleton_self _))
  · change opened.file.ptr + range.1 + (range.2 - range.1) ≤ _
    omega

end Handles

/-- **What a handle is worth.** Of a system that keeps apart what it gives: whatever the other
handles and threads do in between, a live handle is over the file at the path it was opened
with, under the identity that was captured then, and its plan covers the file. The calls on it
since, from whatever threads, keep the contract of a single engine. Every view that was read
through it lies in pages that are still held. What live handles own is apart. -/
theorem library_handles {ω : Type} (platform : Platform ω) (fs : FileSystem) (world : ω)
    (calls : List (LibraryCall ω)) (lib : Library ω)
    (run : Run (Library.step platform fs) (Library.start world) calls lib)
    (honest : Honest (Fresh Apart) lib.sys.trace) :
    Separate Apart (total Opened.owned lib.live) ∧
    ∀ handle opened, (handle, opened) ∈ lib.live →
      (∃ call, opening handle calls = some call ∧ OpenedBy fs call.input opened) ∧
      opened.engine.plan.Covers opened.file.size ∧
      Each (Contract (slice opened.file)) (history handle calls) ∧
      ∀ engineCall ∈ history handle calls, ∀ index outChunkIsNull view,
        engineCall.input.operation = .getChunk index outChunkIsNull →
        engineCall.outcome = .chunk 0 (some view) →
          .pages opened.file.ptr opened.file.size ∈ after 0 lib.sys.trace ∧
          opened.file.ptr ≤ view.data ∧ 0 < view.len ∧
          view.data + view.len ≤ opened.file.ptr + opened.file.size := by
  have inv := Library.run_inv run
  refine ⟨inv.separate honest, fun handle opened mem => ?_⟩
  have held := Library.run_held run honest _ mem
  obtain ⟨buf, engine⟩ := held.engine
  refine ⟨held.opening, engine.lays.covers engine.tiles, engine.each, ?_⟩
  intro engineCall memCall index outChunkIsNull view asked read
  obtain ⟨pages, inside⟩ := held.view memCall asked read
  refine ⟨?_, inside⟩
  rw [inv.leaves.held_eq]
  exact mem_total mem pages

theorem library_handles_session :
    Separate Apart (total Opened.owned sessionRan.2.live) ∧
    ∃ opened engineCall, (3, opened) ∈ sessionRan.2.live ∧
      engineCall ∈ history 3 sessionRan.1 ∧ engineCall.outcome = .chunk 0 (some ⟨131072, 2⟩) ∧
      (∃ call, opening 3 sessionRan.1 = some call ∧ OpenedBy twoBytes call.input opened) ∧
      opened.engine.plan.Covers opened.file.size ∧
      Each (Contract (slice opened.file)) (history 3 sessionRan.1) ∧
      .pages 131072 2 ∈ after 0 sessionRan.2.sys.trace := by
  have honest : Honest (Fresh Apart) sessionRan.2.sys.trace := by
    have trace : sessionRan.2.sys.trace = [.acquired (.descriptor 3), .acquired (.pages 131072 2),
        .acquired (.box 3), .acquired (.descriptor 6), .acquired (.pages 327680 2),
        .acquired (.box 6), .acquired (.descriptor 9), .acquired (.pages 524288 2),
        .acquired (.box 9), .acquired (.descriptor 12), .acquired (.pages 720896 2),
        .released (.pages 720896 2), .released (.descriptor 12), .released (.pages 524288 2),
        .released (.descriptor 9), .released (.box 9)] := by decide +kernel
    rw [trace]
    simp [Honest, Along, Granted, Fresh, Apart, hold]
  obtain ⟨separate, worth⟩ :=
    library_handles (countingPlatform [104, 105]) twoBytes 0 _ _ session_run honest
  have live : (3, _) ∈ sessionRan.2.live := List.mem_cons_self
  obtain ⟨opened, covers, each, views⟩ := worth 3 _ live
  have read : _ ∈ history 3 sessionRan.1 := List.mem_cons_of_mem _ List.mem_cons_self
  exact ⟨separate, _, _, live, read, rfl, opened, covers, each,
    (views _ read 0 false ⟨131072, 2⟩ rfl rfl).1⟩

end Ffi
