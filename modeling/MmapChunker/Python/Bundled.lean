import MmapChunker.Engine.Library
import MmapChunker.Python.Planning
import MmapChunker.Ranges.Workers

/-!
Planning from Python over the bundled library (`python/mmap_chunker/planning.py` over
`src/ffi.rs`).

`planFile` and `planFileRanges` take any native library. `bundledLibrary` is the one that
is shipped: each of its functions is a call of `Library.step`, in a process where other handles
are live and other threads have errors of their own.

`planFile` opens a handle, plans, asks for the chunks one by one, frees the handle and lays
the lengths end to end again. `front_ends_agree` says that what comes out is the plan of the
file, the same that `planFileRanges` and the command line get from every source, and that
nothing of the process is changed by it.
-/

namespace Python

open Machine Exec Tiling Source Mmap Scanner Resources Occurrence
open Ffi (Library Opened Answer Effect CChunkView)
open Ranges (RangesArgs OutMemory Row planRows)
open Ranges.Owned (Platform Serves Impeded Unplanned)

/-! ### Source -/

/-- A process that has loaded the library: what its calls see of the system, the thread that
makes them, and `bytes.decode("utf-8", "replace")`. -/
structure Process (ω : Type) where
  platform : Platform ω
  fs : FileSystem
  stat : Pin.Stat
  thread : Nat
  decode : List UInt8 → String

/-- The library between two calls, and the handle that is in use. `answered` stays true as
long as every call has returned. -/
structure Client (ω : Type) where
  library : Library ω
  handle : Nat
  answered : Bool

section Source

variable {ω : Type}

/-- A call of the library, in the thread of the process. -/
def Process.enter (process : Process ω) (entry : Ffi.Entry) (client : Client ω) :
    Option Answer × Client ω :=
  match Library.step process.platform process.fs ⟨process.thread, process.stat, entry⟩
      client.library with
  | none => (none, { client with answered := false })
  | some (answer, library) => (some answer, { client with library })

/-- The call of `mmap_engine_plan_partition_ranges`: the code, and the memory afterwards. -/
def Process.planRanges (process : Process ω) (args : RangesArgs) (memory : OutMemory)
    (client : Client ω) : (Int × OutMemory) × Client ω :=
  match process.enter (.planPartitionRanges args memory) client with
  | (some (.ranges code written), client) => ((code, written), client)
  | (_, client) => ((-1, memory), client)

/-- The bundled library. -/
def bundledLibrary (process : Process ω) : NativeLibrary (Client ω) where
  mmapEngineCapabilities client := (Python.mmapEngineCapabilities, client)
  mmapEnginePlanPartitionRanges := process.planRanges
  lastError client :=
    match process.enter .lastError client with
    | (some (.lastError (some buf)), client) => (process.decode (cString buf), client)
    | (_, client) => ("", client)
  mmapEngineOpen path client :=
    match process.enter (.open (some path)) client with
    | (some (.handle (some handle)), client) => (true, { client with handle })
    | (_, client) => (false, { client with handle := 0 })
  mmapEnginePartitionRecords parts delimiter client :=
    match process.enter (.engine client.handle (.plan (.partitionRecords parts delimiter)))
        client with
    | (some (.engine (.count count)), client) => (count, client)
    | (_, client) => (0, client)
  mmapEngineGetChunk index client :=
    match process.enter (.engine client.handle (.getChunk index false)) client with
    | (some (.engine (.chunk code view)), client) =>
        ((code, (view.map CChunkView.len).getD 0), client)
    | (_, client) => ((-1, 0), client)
  mmapEngineFree client := (process.enter (.free client.handle) client).2

end Source

/-! ### What planning leaves behind -/

/-- Python and the library see the same file at the path. -/
structure SameFile (env : Environment) (fs : FileSystem) (path : String) (data : Slice) :
    Prop where
  served : served fs path = .ok data
  size : env.stat path = .regular data.len
  binary : env.openBinary path = .ok data.bytes

/-- A client that may plan: every call has returned. -/
structure Ready {ω : Type} (client : Client ω) : Prop where
  answered : client.answered = true

/-- The library is as it was, but for the error of the thread: the same handles are live, and
what was held is held. -/
structure Kept {ω : Type} (thread : Nat) (before after : Client ω) : Prop where
  ready : Ready after
  live : after.library.live = before.library.live
  leaves : ∀ held, Leaves before.library.sys held → Leaves after.library.sys held
  errors : ∀ other, other ≠ thread → after.library.errors other = before.library.errors other

/-- There is one more handle, over these bytes, and its plan stands for `layout`. -/
structure Uses {ω : Type} (thread : Nat) (data : Slice) (layout : List (Nat × Nat))
    (before after : Client ω) (opened : Opened) : Prop where
  ready : Ready after
  nonnull : after.handle ≠ 0
  live : after.library.live = (after.handle, opened) :: before.library.live
  bytes : opened.engine.mmap.bytes = data.bytes
  unpinned : opened.engine.pin = none
  lays : opened.engine.plan.Lays data.len layout
  tiles : layout ≠ [] → Tiles 0 data.len layout
  leaves : ∀ held, Leaves before.library.sys held →
    Leaves after.library.sys (opened.owned after.handle + held)
  errors : ∀ other, other ≠ thread → after.library.errors other = before.library.errors other

section Calls

variable {ω : Type} {process : Process ω} {before client after : Client ω} {data : Slice}
  {layout : List (Nat × Nat)} {opened : Opened} {thread : Nat}

theorem Kept.trans (first : Kept thread before client) (second : Kept thread client after) :
    Kept thread before after where
  ready := second.ready
  live := second.live.trans first.live
  leaves held leaves := second.leaves held (first.leaves held leaves)
  errors other ne := (second.errors other ne).trans (first.errors other ne)

/-- A call on the handle is a call on its engine. -/
theorem Uses.enter (uses : Uses process.thread data layout before client opened)
    (operation : Ffi.Operation) :
    ∃ outcome s after, process.enter (.engine client.handle operation) client =
        (some (.engine outcome), after) ∧
      Effect layout ⟨⟨false, process.stat⟩, operation⟩
        ⟨opened.engine, client.library.errors process.thread⟩ outcome s ∧
      ∀ layout', s.engine.plan.Lays data.len layout' →
        (layout' ≠ [] → Tiles 0 data.len layout') →
        Uses process.thread data layout' before after ⟨opened.file, s.engine⟩ := by
  have len : opened.engine.mmap.len = data.len := congrArg List.length uses.bytes
  obtain ⟨outcome, s, ran, effect⟩ := Ffi.engineStep_effect
    (s := ⟨opened.engine, client.library.errors process.thread⟩) (len ▸ uses.lays)
    (len ▸ uses.tiles) ⟨⟨false, process.stat⟩, operation⟩
  obtain ⟨mmap, pin⟩ := effect.engine_eq
  have found : takeOut client.library.live client.handle = some (opened, before.library.live) := by
    rw [uses.live, takeOut, if_pos rfl]
  have stepped : Library.step process.platform process.fs
      ⟨process.thread, process.stat, .engine client.handle operation⟩ client.library =
      some (.engine outcome, ⟨(client.handle, ⟨opened.file, s.engine⟩) :: before.library.live,
        Function.update client.library.errors process.thread s.errorBuffer,
        client.library.sys⟩) := by
    change client.library.onEngine _ client.handle operation = _
    rw [Library.onEngine, if_neg uses.nonnull, found]
    dsimp only
    rw [ran]
    rfl
  have entered : process.enter (.engine client.handle operation) client =
      (some (.engine outcome), { client with
        library := ⟨(client.handle, ⟨opened.file, s.engine⟩) :: before.library.live,
          Function.update client.library.errors process.thread s.errorBuffer,
          client.library.sys⟩ }) := by
    rw [Process.enter, stepped]
  refine ⟨outcome, s, _, entered, effect, fun layout' lays tiles => ?_⟩
  constructor
  · exact ⟨uses.ready.answered⟩
  · exact uses.nonnull
  · rfl
  · dsimp only
    rw [mmap]
    exact uses.bytes
  · dsimp only
    rw [pin]
    exact uses.unpinned
  · exact lays
  · exact tiles
  · exact uses.leaves
  · intro other ne
    dsimp only
    rw [Function.update_of_ne ne]
    exact uses.errors other ne

/-- `mmap_engine_partition_records` on the handle. -/
theorem Uses.partitionRecords (uses : Uses process.thread data layout before client opened)
    {parts : Nat} (pos : parts ≠ 0) (delimiter : UInt8) :
    ∃ after opened', (bundledLibrary process).mmapEnginePartitionRecords parts delimiter client =
        ((partitionPlan data.bytes parts [delimiter]).length, after) ∧
      Uses process.thread data (partitionPlan data.bytes parts [delimiter]) before after
        opened' := by
  obtain ⟨outcome, s, after, ran, effect, next⟩ :=
    uses.enter (.plan (.partitionRecords parts delimiter))
  have tiles := tiles_partitionPlan (List.cons_ne_nil delimiter []) data.bytes parts
  cases effect with
  | planned asked accepted silent =>
      cases asked
      refine ⟨after, _, ?_, next _ ?_ fun _ => tiles⟩
      · unfold bundledLibrary
        dsimp only
        rw [ran]
        dsimp only
        rw [← uses.bytes]
        rfl
      · rw [← uses.bytes]
        exact Plan.ChunkPlan.lays_fromRanges _ _
  | refused asked unaccepted speaks =>
      cases asked
      refine absurd ⟨Bool.false_ne_true, trivial, ?_, .inr pos⟩ unaccepted
      rw [Ffi.checkEnginePin, uses.unpinned]
  | read asked => cases asked
  | unread asked => cases asked

/-- `mmap_engine_get_chunk` on the handle. -/
theorem Uses.getChunk (uses : Uses process.thread data layout before client opened) {index : Nat}
    {range : Nat × Nat} (found : layout[index]? = some range) :
    ∃ after opened', (bundledLibrary process).mmapEngineGetChunk index client =
        ((0, range.2 - range.1), after) ∧
      Uses process.thread data layout before after opened' := by
  obtain ⟨outcome, s, after, ran, effect, next⟩ := uses.enter (.getChunk index false)
  cases effect with
  | planned asked => cases asked
  | refused asked => cases asked
  | read asked handle out here silent =>
      cases asked
      rw [found] at here
      cases here
      refine ⟨after, _, ?_, next layout uses.lays uses.tiles⟩
      unfold bundledLibrary
      dsimp only
      rw [ran]
      rfl
  | unread asked missing speaks =>
      cases asked
      refine absurd ⟨Bool.false_ne_true, Bool.false_ne_true, ?_⟩ missing
      exact (List.getElem?_eq_some_iff.mp found).1

/-- `mmap_engine_free` of the handle. -/
theorem Uses.free (uses : Uses process.thread data layout before client opened) :
    Kept process.thread before ((bundledLibrary process).mmapEngineFree client) := by
  have found : takeOut client.library.live client.handle = some (opened, before.library.live) := by
    rw [uses.live, takeOut, if_pos rfl]
  have stepped : Library.step process.platform process.fs
      ⟨process.thread, process.stat, .free client.handle⟩ client.library =
      some (.freed, ⟨before.library.live, client.library.errors,
        (Ffi.dropEngine client.handle opened client.library.sys).2⟩) := by
    rw [Library.step]
    dsimp only
    rw [if_neg uses.nonnull, found]
  have freed : (bundledLibrary process).mmapEngineFree client = { client with
      library := ⟨before.library.live, client.library.errors,
        (Ffi.dropEngine client.handle opened client.library.sys).2⟩ } := by
    unfold bundledLibrary
    dsimp only
    rw [Process.enter, stepped]
  rw [freed]
  refine ⟨⟨uses.ready.answered⟩, rfl, fun held leaves => ?_, uses.errors⟩
  have dropped := (Ffi.dropEngine_acts client.handle opened).leaves (uses.leaves held leaves)
  rwa [zero_add] at dropped

/-- `last_error`. -/
theorem lastError_reads (process : Process ω) (client : Client ω) :
    ∃ text, (bundledLibrary process).lastError client = (text, client) := by
  have entered : process.enter .lastError client = (some (.lastError
      (Ffi.mmapEngineLastError (client.library.errors process.thread))), client) := rfl
  unfold bundledLibrary
  dsimp only
  rw [entered]
  cases Ffi.mmapEngineLastError (client.library.errors process.thread) with
  | none => exact ⟨_, rfl⟩
  | some buf => exact ⟨_, rfl⟩

/-- What `mmap_engine_open` maps, if it is given what it asks for. -/
def Process.maps (process : Process ω) (path : String) (client : Client ω) :
    Option MmapFile :=
  (MmapFile.open process.platform.toKernel process.fs path client.library.sys).1

/-- What an opening comes to, by what was mapped. -/
theorem openEngine_cases (kernel : Kernel ω) {fs : FileSystem} {path : String}
    (served : served fs path = .ok data) (sys : Recorded Resource ω) :
    ((MmapFile.open kernel fs path sys).1 = none ∧
      (Ffi.openEngine kernel fs path none sys).1 = .error (Ffi.openFailure fs path)) ∨
    ∃ file handle, (MmapFile.open kernel fs path sys).1 = some file ∧ file.Shows data.bytes ∧
      (Ffi.openEngine kernel fs path none sys).1 =
        .ok (handle, ⟨file, ⟨Ffi.slice file, .empty, none⟩⟩) := by
  have shows_ : ∀ file, (MmapFile.open kernel fs path sys).1 = some file →
      ∃ data, mmapFileOpen fs path = some data ∧ file.Shows data.bytes :=
    MmapFile.open_gives sys
  unfold Ffi.openEngine
  rcases opened : MmapFile.open kernel fs path sys with ⟨_ | file, next⟩
  · exact .inl ⟨rfl, by simp only [bind, StateT.bind, opened]; rfl⟩
  · rw [opened] at shows_
    obtain ⟨data', mapped, shown⟩ := shows_ file rfl
    cases served.symm.trans (served_of_mmapFileOpen mapped)
    exact .inr ⟨file, _, rfl, shown, by simp only [bind, StateT.bind, opened]; rfl⟩

/-- `mmap_engine_open` returns a handle exactly if it maps the file. -/
theorem Ready.openEngine (ready : Ready before) (process : Process ω) {path : String}
    (served : served process.fs path = .ok data) :
    ∃ after, (bundledLibrary process).mmapEngineOpen path before =
        ((process.maps path before).isSome, after) ∧
      if (process.maps path before).isSome then
        ∃ opened, Uses process.thread data [] before after opened
      else Kept process.thread before after := by
  have opens : Library.step process.platform process.fs
      ⟨process.thread, process.stat, .open (some path)⟩ before.library =
      some (before.library.finishOpen process.thread
        (Ffi.openEngine process.platform.toKernel process.fs path none before.library.sys)) := rfl
  have leaves : ∀ held, Leaves before.library.sys held →
      Leaves (Ffi.openEngine process.platform.toKernel process.fs path none before.library.sys).2
        (Ffi.ownedOfOpen (Ffi.openEngine process.platform.toKernel process.fs path none
          before.library.sys).1 + held) := by
    intro held owns
    apply Ffi.openEngine_acts.leaves
    rwa [zero_add]
  have openings := openEngine_cases process.platform.toKernel served before.library.sys
  unfold bundledLibrary Process.maps
  dsimp only
  rw [Process.enter, opens]
  generalize Ffi.openEngine process.platform.toKernel process.fs path none before.library.sys = ran
    at leaves openings ⊢
  generalize (MmapFile.open process.platform.toKernel process.fs path before.library.sys).1 = mapped
    at openings ⊢
  obtain ⟨answer, sys⟩ := ran
  rcases openings with ⟨rfl, refused⟩ | ⟨file, handle, rfl, shown, given⟩
  · cases refused
    refine ⟨_, rfl, ?_⟩
    rw [if_neg (by decide)]
    refine ⟨⟨ready.answered⟩, rfl, fun held owns => ?_, fun other ne => ?_⟩
    · rw [← zero_add held]
      exact leaves held owns
    · exact Function.update_of_ne ne _ _
  · cases given
    refine ⟨_, rfl, ?_⟩
    rw [Option.isSome_some, if_pos rfl]
    refine ⟨_, ⟨ready.answered⟩, handle.2, rfl, shown.bytes_eq, rfl, ?_,
      fun some_ => absurd rfl some_, leaves, fun other ne => Function.update_of_ne ne _ _⟩
    exact Plan.ChunkPlan.lays_empty data.len

end Calls

/-! ### From lengths to ranges -/

/-- The row of a range, as the command line prints it. -/
def Range.row (r : Range) : Row := ⟨r.index, r.start, r.stop, r.length⟩

theorem Range.row_injective : Function.Injective Range.row := by
  intro r r' eq
  cases r
  cases r'
  cases eq
  rfl

/-- The ranges are those of the layout, in order. -/
def Lists (ranges : List Range) (layout : List (Nat × Nat)) : Prop :=
  ranges.map Range.row = planRows layout

/-- The lengths of ranges. -/
def lengthsOf (layout : List (Nat × Nat)) : List Nat := layout.map fun p => p.2 - p.1

section Lists

variable {σ : Type} {ranges : List Range} {layout : List (Nat × Nat)} {s : σ}

theorem Lists.bounds_eq (lists : Lists ranges layout) : ranges.map Range.bounds = layout := by
  calc ranges.map Range.bounds
    _ = (ranges.map Range.row).map Row.range := by
        rw [List.map_map]
        rfl
    _ = layout := by rw [lists, Ranges.map_range_planRows]

theorem Lists.nil : Lists [] [] := rfl

theorem Lists.length_eq (lists : Lists ranges layout) : ranges.length = layout.length := by
  rw [← lists.bounds_eq, List.length_map]

theorem Lists.snoc {r : Range} {p : Nat × Nat} (lists : Lists ranges layout)
    (here : r.row = ⟨layout.length, p.1, p.2, p.2 - p.1⟩) :
    Lists (ranges ++ [r]) (layout ++ [p]) := by
  rw [Lists, planRows, List.map_append, lists, List.zipIdx_append, List.map_append, planRows,
    List.map_singleton, here, List.zipIdx_singleton]
  simp

/-- Ranges of one layout are the same. -/
theorem Lists.unique {ranges' : List Range} (lists : Lists ranges layout)
    (lists' : Lists ranges' layout) : ranges = ranges' :=
  List.map_injective_iff.mpr Range.row_injective (lists.trans lists'.symm)

/-- The range of a pair is made. -/
theorem Range.make_eq (index : Nat) {start stop : Nat} (le : start ≤ stop) :
    Range.make index start stop ((stop - start : Nat) : Int) =
      .ok ⟨index, start, stop, stop - start, le, rfl⟩ := by
  unfold Range.make
  rw [dif_neg (by omega), dif_neg (by omega), dif_neg (by omega), dif_neg (by omega)]
  simp

/-- Laid end to end, the lengths of a layout give back its ranges. -/
theorem layStep_returns {size : Nat} (tiles : Tiles 0 size layout) :
    Returns (forIn (lengthsOf layout).zipIdx ([], 0) layStep : Exec σ PyException _) s
      fun laid s' => s' = s ∧ Lists laid.1 layout ∧ laid.2 = size := by
  apply Ensures.returns
  apply forIn_outcome layStep (fun is laid s' => ∃ done rest, layout = done ++ rest ∧
    is = (lengthsOf rest).zipIdx done.length ∧ Lists laid.1 done ∧ Tiles laid.2 size rest ∧
    s' = s)
  · rintro ⟨ranges, offset⟩ s' ⟨done, rest, rfl, last, lists, left, rfl⟩
    have isNil : rest = [] := by
      have length := congrArg List.length last
      rw [List.length_zipIdx, lengthsOf, List.length_map] at length
      exact List.length_eq_zero_iff.mp length.symm
    subst isNil
    refine ⟨rfl, ?_, left.eq_nil_iff.mp rfl⟩
    rwa [List.append_nil]
  · rintro i is ⟨ranges, offset⟩ s' ⟨done, rest, rfl, here, lists, left, rfl⟩
    cases left with
    | nil => cases here
    | @cons _ stop _ rest lt left =>
        obtain ⟨rfl, rfl⟩ := List.cons.inj here
        have laid : ((offset : Int) + ((stop - offset : Nat) : Int)) = (stop : Int) := by omega
        have made := Range.make_eq done.length lt.le
        unfold layStep
        dsimp only
        rw [laid, made]
        refine Ensures.pure ⟨done ++ [(offset, stop)], rest, by simp, ?_, ?_, ?_, rfl⟩
        · rw [List.length_append]
          rfl
        · exact lists.snoc rfl
        · have next : offset + (stop - offset) = stop := by omega
          rw [next]
          exact left
  · exact ⟨[], layout, rfl, rfl, Lists.nil, tiles, rfl⟩

/-- Without gaps, the last range ends where the layout does. -/
theorem gapStep_returns {size : Nat} (tiles : Tiles 0 size layout) (lists : Lists ranges layout) :
    Returns (forIn ranges 0 gapStep : Exec σ PyException Nat) s
      fun offset s' => s' = s ∧ offset = size := by
  have tiled : Tiles 0 size (ranges.map Range.bounds) := by rwa [lists.bounds_eq]
  apply Ensures.returns
  apply forIn_outcome gapStep
    (fun rest offset s' => Tiles offset size (rest.map Range.bounds) ∧ s' = s)
  · rintro offset s' ⟨left, rfl⟩
    exact ⟨rfl, left.eq_nil_iff.mp rfl⟩
  · rintro r rest offset s' ⟨left, rfl⟩
    rw [List.map_cons, Range.bounds] at left
    cases left with
    | cons lt left =>
        unfold gapStep
        rw [throwIf, if_neg (not_not.mpr rfl), pure_bind]
        exact Ensures.pure ⟨left, rfl⟩
  · exact ⟨tiled, rfl⟩

/-- The pairs of a layout are made into its ranges. -/
theorem rangeOfPair_returns (ordered : ∀ p ∈ layout, p.1 ≤ p.2) :
    Returns (layout.zipIdx.mapM rangeOfPair : Exec σ PyException _) s
      fun ranges s' => s' = s ∧ Lists ranges layout := by
  induction layout using List.reverseRecOn with
  | nil => exact Returns.pure ⟨rfl, Lists.nil⟩
  | append_singleton layout p ih =>
      rw [List.zipIdx_append, List.mapM_append]
      apply (ih fun q mem => ordered q (List.mem_append_left _ mem)).bind
      rintro ranges _ ⟨rfl, lists⟩
      have le : p.1 ≤ p.2 := ordered p (by simp)
      have length : ((p.2 : Int) - p.1) = ((p.2 - p.1 : Nat) : Int) := by omega
      have made := Range.make_eq layout.length le
      rw [Nat.zero_add, List.zipIdx_singleton, List.mapM_cons, List.mapM_nil]
      unfold rangeOfPair
      dsimp only
      rw [length, made]
      exact Returns.pure ⟨rfl, lists.snoc rfl⟩

theorem checkCoverage_self (size : Nat) :
    (checkCoverage size size : Exec σ PyException Unit) = pure () := by
  rw [checkCoverage, throwIf, if_neg (not_not.mpr rfl)]

/-- A boundary behind the delimiter passes. -/
theorem checkPreceding_returns {data : Slice} {delimiter : UInt8} {maxOffset position : Nat}
    (allowed : data.bytes.length ≤ maxOffset) (ends : EndsAt [delimiter] data.bytes position)
    (message : String) :
    Returns (checkPreceding maxOffset data.bytes delimiter position message :
      Exec σ PyException Unit) s fun _ s' => s' = s := by
  obtain ⟨pos, occurs⟩ := ends
  have here : data.bytes[position - 1]? = some delimiter := occursAt_singleton.mp occurs
  have inside : position - 1 < data.bytes.length := (List.getElem?_eq_some_iff.mp here).1
  have small : data.bytes.length ≤ isizeMax := data.fits
  have positive : 1 ≤ position := pos
  have before : (position : Int) - 1 = (position - 1 : Nat) := by omega
  have sought : seek maxOffset (position - 1 : Nat) = .ok (position - 1) :=
    seek_eq (by omega) (by omega)
  have read : byteAt maxOffset data.bytes ((position : Int) - 1) = .ok delimiter := by
    unfold byteAt
    rw [before, sought]
    dsimp only
    rw [here]
  rw [checkPreceding, read, fromExcept_ok, pure_bind, throwIf, if_neg (not_not.mpr rfl)]
  exact Returns.pure rfl

/-- The plan of the file passes the check of the file. -/
theorem verifyRecordAlignment_returns {env : Environment} {path : String} {data : Slice}
    {parts : Nat} {delimiter : UInt8} (binary : env.openBinary path = .ok data.bytes)
    (lists : Lists ranges (partitionPlan data.bytes parts [delimiter])) :
    Returns (verifyRecordAlignment env path ranges delimiter : Exec σ PyException Unit) s
      fun _ s' => s' = s := by
  have ne : [delimiter] ≠ [] := List.cons_ne_nil _ _
  have tiles := tiles_partitionPlan ne data.bytes parts
  have allowed := env.length_le path data.bytes binary
  have ends : ∀ p ∈ partitionPlan data.bytes parts [delimiter], p.2 < data.bytes.length →
      EndsAt [delimiter] data.bytes p.2 :=
    fun p mem interior => endsAt_of_mem_partitionPlan ne mem interior
  generalize partitionPlan data.bytes parts [delimiter] = layout at lists tiles ends
  have bounds : ∀ (i : Nat) (r : Range), ranges[i]? = some r → layout[i]? = some r.bounds := by
    intro i r here
    rw [← lists.bounds_eq, List.getElem?_map, here]
    rfl
  unfold verifyRecordAlignment
  split
  · exact Returns.pure rfl
  · rw [binary, fromExcept_ok, pure_bind]
    apply Returns.forM
    rintro ⟨r, i⟩ mem
    have this := bounds i r (List.mem_zipIdx_iff_getElem?.mp mem)
    have inside : (r.start, r.stop) ∈ layout := List.mem_of_getElem? this
    have order := tiles.bounds inside
    have atStart : ∀ message, 0 < r.start →
        Returns (checkPreceding (env.maxOffset path) data.bytes delimiter r.start message :
          Exec σ PyException Unit) s fun _ s' => s' = s := by
      intro message pos
      apply checkPreceding_returns allowed
      rcases tiles.start_eq_or_end inside with zero | ⟨start, ended⟩
      · omega
      · exact ends _ ended (by omega)
    have atStop : ∀ message, Returns (if i + 1 < ranges.length then
          checkPreceding (env.maxOffset path) data.bytes delimiter r.stop message else pure () :
          Exec σ PyException Unit) s fun _ s' => s' = s := by
      intro message
      split
      · rename_i more
        apply checkPreceding_returns allowed
        have next := bounds (i + 1) _ (List.getElem?_eq_getElem more)
        exact ends _ inside (tiles.end_lt_of_next this next)
      · exact Returns.pure rfl
    unfold alignmentStep
    dsimp only
    split
    · rename_i pos
      apply (atStart _ pos).bind
      rintro _ _ rfl
      exact atStop _
    · exact atStop _

end Lists

/-! ### Planning with a handle -/

section PlanFile

variable {ω : Type} {process : Process ω} {before client : Client ω} {data : Slice}
  {layout : List (Nat × Nat)} {opened : Opened}

/-- A native call returns what it returns. -/
theorem call_returns {σ α : Type} {f : σ → α × σ} {s s' : σ} {a : α} (eq : f s = (a, s')) :
    Returns (call f : Exec σ PyException α) s fun b t => b = a ∧ t = s' := by
  refine ⟨(f s).1, (f s).2, rfl, ?_⟩
  rw [eq]
  exact ⟨rfl, rfl⟩

/-- The chunks of a plan, asked for one by one, have its lengths. -/
theorem Uses.lengths (uses : Uses process.thread data layout before client opened) :
    Returns (forIn (List.range layout.length) [] (lengthStep (bundledLibrary process))) client
      fun lengths after => lengths = lengthsOf layout ∧
        ∃ opened, Uses process.thread data layout before after opened := by
  apply Ensures.returns
  apply forIn_outcome (lengthStep (bundledLibrary process)) (fun is lengths after =>
    ∃ done rest, layout = done ++ rest ∧ is = List.range' done.length rest.length ∧
      lengths = lengthsOf done ∧ ∃ opened, Uses process.thread data layout before after opened)
  · rintro lengths after ⟨done, rest, split, last, rfl, uses⟩
    have isNil : rest = [] := by
      have length := congrArg List.length last
      rw [List.length_range'] at length
      exact List.length_eq_zero_iff.mp length.symm
    rw [split, isNil, List.append_nil]
    rw [split, isNil, List.append_nil] at uses
    exact ⟨rfl, uses⟩
  · rintro i is lengths now ⟨done, rest, split, here, rfl, opened, uses⟩
    cases rest with
    | nil => cases here
    | cons p rest =>
        rw [List.length_cons, List.range'_succ] at here
        obtain ⟨rfl, rfl⟩ := List.cons.inj here
        have found : layout[done.length]? = some p := by
          rw [split]
          simp
        obtain ⟨after, opened', ran, uses'⟩ := uses.getChunk found
        unfold lengthStep
        apply (call_returns ran).outcome.andThen
        rintro _ _ ⟨rfl, rfl⟩
        dsimp only
        rw [if_neg (not_not.mpr rfl)]
        refine Ensures.pure ⟨done ++ [p], rest, ?_, ?_, ?_, opened', uses'⟩
        · rw [split, List.append_assoc]
          rfl
        · rw [List.length_append]
          rfl
        · rw [lengthsOf, lengthsOf, List.map_append]
          rfl
  · refine ⟨[], layout, rfl, ?_, rfl, opened, uses⟩
    rw [List.range_eq_range']
    rfl

/-- The `try` of `plan_file`. -/
theorem Uses.chunkLengths (uses : Uses process.thread data layout before client opened)
    {parts : Nat} (pos : parts ≠ 0) (delimiter : UInt8) :
    Returns (chunkLengths (bundledLibrary process) data.len parts delimiter) client
      fun found after => found = (if data.len = 0 then none
          else some (lengthsOf (partitionPlan data.bytes parts [delimiter]))) ∧
        ∃ layout opened, Uses process.thread data layout before after opened := by
  obtain ⟨after, opened', ran, uses'⟩ := uses.partitionRecords pos delimiter
  have tiles := tiles_partitionPlan (List.cons_ne_nil delimiter []) data.bytes parts
  have count : (partitionPlan data.bytes parts [delimiter]).length = 0 ↔ data.len = 0 := by
    rw [List.length_eq_zero_iff, tiles.eq_nil_iff]
    exact ⟨Eq.symm, Eq.symm⟩
  unfold Python.chunkLengths
  apply (call_returns ran).bind
  rintro _ _ ⟨rfl, rfl⟩
  by_cases empty : data.len = 0
  · rw [if_pos empty, if_pos empty, throwIf, if_neg (not_not.mpr (count.mpr empty)), pure_bind]
    exact Returns.pure ⟨rfl, _, _, uses'⟩
  · rw [if_neg empty, if_neg empty, if_neg fun zero => empty (count.mp zero)]
    apply uses'.lengths.bind
    rintro lengths last ⟨rfl, opened'', uses''⟩
    exact Returns.pure ⟨rfl, _, _, uses''⟩

/-- Accepted parts are positive and fit a `size_t`. -/
theorem coerceParts_bounds {parts : PyValue} {n : Nat} (ok : coerceParts parts = .ok n) :
    n ≠ 0 ∧ n ≤ usizeMax := by
  unfold coerceParts at ok
  split at ok
  · split at ok
    · cases ok
    · split at ok
      · cases ok
      · cases ok
        omega
  · cases ok

/-- Some ranges are those of the layout. -/
theorem exists_lists (ordered : ∀ p ∈ layout, p.1 ≤ p.2) : ∃ ranges, Lists ranges layout := by
  obtain ⟨ranges, _, -, -, lists⟩ := rangeOfPair_returns (s := ()) ordered
  exact ⟨ranges, lists⟩

/-- `plan_file` over the bundled library, for arguments it accepts: the plan of the file if
the library maps it, and otherwise `PlanningError`. -/
theorem planFile_bundled {env : Environment} {path resolved : String} {parts delimiter : PyValue}
    {n : Nat} {d : UInt8} (pathOk : coercePath env path = .ok resolved)
    (partsOk : coerceParts parts = .ok n) (delimiterOk : coerceDelimiter delimiter = .ok d)
    (file : SameFile env process.fs resolved data) {ranges : List Range}
    (lists : Lists ranges (partitionPlan data.bytes n [d])) (ready : Ready before) :
    Ensures (planFile env (.ok (bundledLibrary process)) path parts delimiter) before
      (Outcome (fun plan after => plan = ⟨resolved, data.len, n, d, ranges⟩ ∧
          (process.maps resolved before).isSome = true ∧ Kept process.thread before after)
        fun e after => e.type = .planningError ∧ process.maps resolved before = none ∧
          Kept process.thread before after) := by
  have pos : n ≠ 0 := (coerceParts_bounds partsOk).1
  have tiles : Tiles 0 data.len (partitionPlan data.bytes n [d]) :=
    tiles_partitionPlan (List.cons_ne_nil d []) data.bytes n
  obtain ⟨after, opens, openings⟩ := ready.openEngine process file.served
  unfold planFile
  rw [pathOk, fromExcept_ok, pure_bind, partsOk, fromExcept_ok, pure_bind, delimiterOk,
    fromExcept_ok, pure_bind, verifyFile, file.size]
  dsimp only
  rw [fromExcept_ok, pure_bind, fromExcept_ok, pure_bind]
  apply (call_returns opens).outcome.andThen
  rintro handle now ⟨rfl, rfl⟩
  cases mapped : process.maps resolved before with
  | none =>
      rw [mapped, if_neg (by decide)] at openings
      rw [Option.isSome_none, if_pos rfl]
      obtain ⟨text, told⟩ := lastError_reads process now
      unfold raiseNative
      apply (call_returns told).outcome.andThen
      rintro _ _ ⟨rfl, rfl⟩
      exact Ensures.throw ⟨rfl, rfl, openings⟩
  | some mappedFile =>
      rw [mapped, Option.isSome_some, if_pos rfl] at openings
      obtain ⟨opened, uses⟩ := openings
      rw [Option.isSome_some, if_neg (Ne.symm Bool.false_ne_true)]
      have freed : Returns (andFinally (bundledLibrary process).mmapEngineFree
          (chunkLengths (bundledLibrary process) data.len n d)) now fun found last =>
          found = (if data.len = 0 then none
            else some (lengthsOf (partitionPlan data.bytes n [d]))) ∧
          Kept process.thread before last := by
        apply (uses.chunkLengths pos d).andFinally
        rintro found last ⟨eq, layout, opened, uses⟩
        exact ⟨eq, uses.free⟩
      apply freed.outcome.andThen
      rintro _ last ⟨rfl, kept⟩
      by_cases empty : data.len = 0
      · rw [if_pos empty]
        have isNil : partitionPlan data.bytes n [d] = [] := tiles.eq_nil_iff.mpr empty.symm
        rw [isNil] at lists
        rw [empty, lists.unique Lists.nil]
        exact Ensures.pure ⟨rfl, rfl, kept⟩
      · rw [if_neg empty]
        dsimp only
        apply (layStep_returns tiles).outcome.andThen
        rintro ⟨laid, offset⟩ _ ⟨rfl, listed, rfl⟩
        dsimp only at listed ⊢
        rw [checkCoverage_self, pure_bind]
        apply (verifyRecordAlignment_returns file.binary listed).outcome.andThen
        rintro _ _ rfl
        rw [lists.unique listed]
        exact Ensures.pure ⟨rfl, rfl, kept⟩

end PlanFile

/-! ### Planning from a source -/

/-- The reads that succeed are right. -/
def Process.Right {ω : Type} (process : Process ω) : Prop :=
  Ranges.ReadsRight process.platform.pread process.fs

/-- Something is in the way of the ranges that are asked for: the window is too small, a read
or a mapping is refused, or there is no memory. -/
def Obstructed {ω : Type} (process : Process ω) (request : RangesRequest) : Prop :=
  ∃ mode, Ranges.sourceModeOf (cUint32 request.sourceMode) = some mode ∧
    Impeded process.platform process.fs request.path request.delimiter.data
      ((request.args none).options mode)

section PlanRanges

variable {ω : Type} {process : Process ω} {before client : Client ω} {data : Slice}
  {request : RangesRequest}

/-- A request that Python makes: its arguments are accepted. -/
structure RangesRequest.Valid (request : RangesRequest) : Prop where
  parts : ∃ n, request.parts = (n : Nat) ∧ n ≠ 0 ∧ n ≤ usizeMax
  delimiter : request.delimiter.data ≠ []
  mode : ∃ mode, Ranges.sourceModeOf (cUint32 request.sourceMode) = some mode

theorem RangesRequest.Valid.accepted (valid : request.Valid) (capacity : Option Nat) :
    ∃ mode, (request.args capacity).Accepted request.path mode := by
  obtain ⟨n, parts, pos, small⟩ := valid.parts
  obtain ⟨mode, modeEq⟩ := valid.mode
  have fits := request.delimiter.fits
  have len : cSizeT request.delimiter.data.length = request.delimiter.data.length :=
    cSizeT_eq (fits.trans isizeMax_lt_usizeMax.le)
  refine ⟨mode, rfl, ⟨?_, Bool.false_ne_true, ?_⟩, Bool.false_ne_true, ?_, ?_, modeEq⟩
  · change ¬cSizeT request.delimiter.data.length = 0
    rw [len]
    exact fun zero => valid.delimiter (List.length_eq_zero_iff.mp zero)
  · change ¬isizeMax < cSizeT request.delimiter.data.length
    rw [len]
    exact Nat.not_lt.mpr fits
  · rintro ⟨room, isNull⟩
    cases capacity with
    | none => exact Nat.lt_irrefl 0 room
    | some capacity => cases isNull
  · change ¬cSizeT _ = 0
    rw [parts, cSizeT_eq small]
    exact pos

/-- What stands in the way of an accepted call stands in the way of all. -/
theorem RangesRequest.Valid.obstructed (valid : request.Valid) {capacity : Option Nat}
    (noPlan : Unplanned process.platform process.fs (request.args capacity)) :
    Obstructed process request := by
  obtain ⟨mode, accepted⟩ := valid.accepted capacity
  rcases noPlan with ⟨world, rejected | ⟨path, mode', accepted', hindered⟩⟩
  · exact absurd accepted (rejected _ _)
  · cases accepted.path.symm.trans accepted'.path
    rw [bytes_args] at hindered
    exact ⟨mode', accepted'.mode, world, hindered⟩

/-- A call of `mmap_engine_plan_partition_ranges` answers and touches no handle. -/
theorem Ready.planRanges (ready : Ready client) (right : process.Right)
    (args : RangesArgs) (memory : OutMemory) :
    ∃ code written after, process.planRanges args memory client = ((code, written), after) ∧
      Ranges.Answers (Ranges.PlanOf process.fs args) (Unplanned process.platform process.fs args)
        args.capacity memory code written ∧
      Kept process.thread client after := by
  have answers := Ranges.Owned.call_answers right args memory
    (client.library.errors process.thread) client.library.sys
  have acts := Ranges.Owned.call_acts process.platform process.fs args memory
    (client.library.errors process.thread)
  refine ⟨_, _, _, rfl, answers, ⟨ready.answered⟩, rfl, fun held owns => ?_, fun other ne => ?_⟩
  · rw [← zero_add held] at owns ⊢
    exact acts.leaves owns
  · exact Function.update_of_ne ne _ _

/-- `plan_partition_ranges` over the bundled library: the plan of the file, or the error of
whatever is in the way. -/
theorem planPartitionRanges_bundled (right : process.Right) (valid : request.Valid)
    (served : served process.fs request.path = .ok data) (ready : Ready before) :
    Ensures (planPartitionRanges (bundledLibrary process).toRangesLibrary request) before
      (Outcome (fun list after => Kept process.thread before after ∧
          list = partitionPlan data.bytes (cSizeT request.parts) request.delimiter.data)
        fun e after => e.type = .nativeLibraryError ∧ Obstructed process request ∧
          Kept process.thread before after) := by
  have planned : ∀ {capacity ranges}, Ranges.PlanOf process.fs (request.args capacity) ranges →
      ranges = partitionPlan data.bytes (cSizeT request.parts) request.delimiter.data := by
    intro capacity ranges plan
    obtain ⟨data', here, eq⟩ := whole_of_planOf plan
    cases served.symm.trans here
    exact eq
  have failing : ∀ {client capacity what}, Kept process.thread before client →
      Unplanned process.platform process.fs (request.args capacity) →
      Ensures (raiseNative (α := List (Nat × Nat)) (bundledLibrary process).toRangesLibrary
        .nativeLibraryError what) client
        (Outcome (fun list after => Kept process.thread before after ∧
            list = partitionPlan data.bytes (cSizeT request.parts) request.delimiter.data)
          fun e after => e.type = .nativeLibraryError ∧ Obstructed process request ∧
            Kept process.thread before after) := by
    intro client capacity what kept noPlan
    obtain ⟨text, told⟩ := lastError_reads process client
    unfold raiseNative
    apply (call_returns told).outcome.andThen
    rintro _ _ ⟨rfl, rfl⟩
    exact Ensures.throw ⟨rfl, valid.obstructed noPlan, kept⟩
  have supported : ¬mmapEngineCapabilities &&& capWindowedPlanning = 0 := by decide
  obtain ⟨code, counted, now, ran, answered, kept⟩ :=
    ready.planRanges right (request.args none) zeroedMemory
  unfold planPartitionRanges
  have told : (bundledLibrary process).mmapEngineCapabilities before =
      (mmapEngineCapabilities, before) := rfl
  apply (call_returns told).outcome.andThen
  rintro _ _ ⟨rfl, rfl⟩
  rw [throwIf, if_neg supported, pure_bind, planRounds]
  apply (call_returns ran).outcome.andThen
  rintro _ _ ⟨rfl, rfl⟩
  dsimp only
  cases answered with
  | filled plan fits =>
      -- The call had no room, so the plan is empty.
      obtain rfl := List.eq_nil_of_length_eq_zero (Nat.le_zero.mp fits)
      rw [if_pos rfl]
      exact Ensures.pure ⟨kept, planned plan⟩
  | failed noPlan =>
      rw [if_neg (by decide), if_pos (by decide)]
      exact failing kept noPlan
  | short plan exceeds count =>
      rw [if_neg (by decide), if_neg (by decide)]
      obtain ⟨code, memory, last, ranAgain, answered, keptAgain⟩ :=
        kept.ready.planRanges right (request.args (some counted.outCount)) zeroedMemory
      have all := kept.trans keptAgain
      apply (call_returns ranAgain).outcome.andThen
      rintro _ _ ⟨rfl, rfl⟩
      dsimp only
      cases answered with
      | filled plan' fits count' written =>
          have enough : _ ≤ counted.outCount := fits
          rw [if_pos rfl, readBack_eq enough count' written]
          exact Ensures.pure ⟨all, planned plan'⟩
      | failed noPlan =>
          rw [if_neg (by decide), if_pos (by decide)]
          exact failing all noPlan
      | short plan' exceeds' =>
          -- Both calls see the same plan, and the first said how long it is.
          have more : counted.outCount < _ := exceeds'
          rw [count, planned plan, planned plan'] at more
          exact absurd more (Nat.lt_irrefl _)

/-- The request of `plan_file_ranges` is one. -/
theorem request_valid {env : Environment} {resolved : String} {parts source : PyValue} {n : Nat}
    {mode : Int} (partsOk : coerceParts parts = .ok n) (sourceOk : coerceSource env source = .ok mode)
    (d : UInt8) (w : Int) : (⟨resolved, n, singleByte d, mode, w⟩ : RangesRequest).Valid where
  parts := ⟨n, rfl, coerceParts_bounds partsOk⟩
  delimiter := List.cons_ne_nil _ _
  mode := by
    unfold coerceSource at sourceOk
    split at sourceOk
    · cases sourceOk
      exact ⟨.mmap, rfl⟩
    · cases sourceOk
      exact ⟨.windowed, rfl⟩
    · cases sourceOk
      exact ⟨.pread, rfl⟩
    · cases sourceOk
    · cases sourceOk

/-- `plan_file_ranges` over the bundled library, for arguments it accepts: the plan of the file,
or `PlanningError` if something is in the way. -/
theorem planFileRanges_bundled {env : Environment} {path resolved : String}
    {parts delimiter source windowBytes : PyValue} {n : Nat} {d : UInt8} {mode w : Int}
    (right : process.Right) (pathOk : coercePath env path = .ok resolved)
    (partsOk : coerceParts parts = .ok n) (delimiterOk : coerceDelimiter delimiter = .ok d)
    (sourceOk : coerceSource env source = .ok mode) (windowOk : coerceWindowBytes windowBytes = .ok w)
    (together : mode = 1 ∨ windowBytes.isNone = true)
    (file : SameFile env process.fs resolved data) {ranges : List Range}
    (lists : Lists ranges (partitionPlan data.bytes n [d])) (ready : Ready before) :
    Ensures (planFileRanges env (.ok (bundledLibrary process)) path parts delimiter source
        windowBytes) before
      (Outcome (fun plan after => plan = ⟨resolved, data.len, n, d, ranges⟩ ∧
          Kept process.thread before after)
        fun e after => e.type = .planningError ∧
          Obstructed process ⟨resolved, n, singleByte d, mode, w⟩ ∧
          Kept process.thread before after) := by
  have small := (coerceParts_bounds partsOk).2
  have tiles : Tiles 0 data.len (partitionPlan data.bytes n [d]) :=
    tiles_partitionPlan (List.cons_ne_nil d []) data.bytes n
  have fits : ¬(mode ≠ 1 ∧ windowBytes.isNone = false) := by
    rintro ⟨other, given⟩
    rcases together with windowed | none_
    · exact other windowed
    · exact Bool.false_ne_true (given.symm.trans none_)
  unfold planFileRanges
  rw [pathOk, fromExcept_ok, pure_bind, partsOk, fromExcept_ok, pure_bind, delimiterOk,
    fromExcept_ok, pure_bind, sourceOk, fromExcept_ok, pure_bind, windowOk, fromExcept_ok,
    pure_bind, throwIf, if_neg fits, pure_bind, verifyFile, file.size]
  dsimp only
  rw [fromExcept_ok, pure_bind, fromExcept_ok, pure_bind]
  have asked := planPartitionRanges_bundled right (request_valid partsOk sourceOk d w) file.served
    ready
  apply (asked.mapErr ?_).andThen
  · rintro pairs now ⟨kept, eq⟩
    rw [cSizeT_eq small] at eq
    have pairsEq : pairs = partitionPlan data.bytes n [d] := eq
    subst pairsEq
    have ordered : ∀ p ∈ partitionPlan data.bytes n [d], p.1 ≤ p.2 :=
      fun p mem => (tiles.bounds mem).2.1.le
    apply (rangeOfPair_returns ordered).outcome.andThen
    rintro listed _ ⟨rfl, same⟩
    cases lists.unique same
    apply (gapStep_returns tiles lists).outcome.andThen
    rintro offset _ ⟨rfl, rfl⟩
    rw [checkCoverage_self, pure_bind]
    apply (verifyRecordAlignment_returns file.binary lists).outcome.andThen
    rintro _ _ rfl
    exact Ensures.pure ⟨rfl, kept⟩
  · rintro e after ⟨type, obstructed, kept⟩
    unfold asPlanningError
    rw [if_pos type]
    exact ⟨rfl, obstructed, kept⟩

end PlanRanges

/-! ### The front ends -/

/-- What the front ends do with a file that all of them see, for arguments they accept. -/
structure FrontEnds {ω : Type} (process : Process ω) (env : Environment) (path : String)
    (parts delimiter : PyValue) (data : Slice) (plan : Plan) : Prop where
  size : plan.fileSize = data.len
  rows : plan.ranges.map Range.row =
    planRows (partitionPlan data.bytes plan.requestedParts [plan.delimiter])
  /-- `plan_file`. -/
  mapped : ∀ before, Ready before →
    Ensures (planFile env (.ok (bundledLibrary process)) path parts delimiter) before
      (Outcome (fun found after => found = plan ∧
          (process.maps plan.path before).isSome = true ∧ Kept process.thread before after)
        fun e after => e.type = .planningError ∧ process.maps plan.path before = none ∧
          Kept process.thread before after)
  /-- `plan_file_ranges`. -/
  sourced : ∀ source windowBytes mode w, coerceSource env source = .ok mode →
    coerceWindowBytes windowBytes = .ok w → mode = 1 ∨ windowBytes.isNone = true →
    ∀ before, Ready before →
    Ensures (planFileRanges env (.ok (bundledLibrary process)) path parts delimiter source
        windowBytes) before
      (Outcome (fun found after => found = plan ∧ Kept process.thread before after)
        fun e after => e.type = .planningError ∧
          Obstructed process
            ⟨plan.path, plan.requestedParts, singleByte plan.delimiter, mode, w⟩ ∧
          Kept process.thread before after)
  /-- `mmap-chunker partition`. -/
  printed : ∀ (ι : Type) (invocation : Ranges.Invocation ι),
    invocation.Fine process.fs [plan.delimiter] →
    Returns (invocation.run process.fs plan.path plan.requestedParts [plan.delimiter] none)
      (opened invocation.os) fun rows _ => rows = plan.ranges.map Range.row

/-- A process in which every path is one file. -/
def onlyFileProcess (data : Slice) : Process Nat where
  platform := Ffi.countingPlatform data.bytes
  fs _ := .entry (.readable data)
  stat _ := .error notFound
  thread := 0
  decode _ := ""

theorem onlyFileProcess_right (data : Slice) : (onlyFileProcess data).Right := by
  intro path data' ok offset out s count written next answer
  cases ok
  cases answer
  exact Cli.fullRead_ok data.bytes offset out

theorem onlyFileProcess_serves (data : Slice) :
    Serves (onlyFileProcess data).platform (onlyFileProcess data).fs where
  grants := ⟨fun _ => ⟨_, _, rfl⟩, fun _ _ => rfl, fun _ _ _ _ => ⟨_, _, rfl⟩⟩
  fstat _ _ := ⟨_, rfl⟩
  pread _ _ _ _ _ _ := ⟨_, _, _, rfl⟩

/-- What Python sees of it. -/
def twoRecordsEnv : Environment where
  resolve := id
  stat _ := .regular twoRecords.len
  openBinary _ := .ok twoRecords.bytes
  reprStr s := "'" ++ s ++ "'"
  maxOffset _ := twoRecords.bytes.length
  length_le _ _ := length_le_of_only

/-- No call was made. -/
def freshClient : Client Nat := ⟨Library.start 0, 0, true⟩

end Python
