import MmapChunker.Mmap.Descriptors
import MmapChunker.Ranges.Native

/-!
Planning ranges, with what it takes from the system (`src/source.rs`, `src/ffi.rs`, Unix).

`Ranges.planPartitionRanges` says what is planned. Here the source that is opened for it takes
a descriptor, and pages if it maps; each may be refused, and what was taken is given back when
the source is dropped, after an error and a panic too.

`call_acts` says that a call of `mmap_engine_plan_partition_ranges` owns nothing before and
after it, whatever the system answers. `call_answers` says that what it answers is what
`native_call_answered` says of the call without its resources: the plan of the file, or an error
and something is in the way.
-/

namespace Ranges.Owned

open Machine Exec Scanner Source Mmap Resources
open Ffi (ErrorBuffer setError clearError mmapEngineLastError bytes_ne_nil)

/-! ### Source -/

/-- The system as planning sees it: that of mapped files, `fstat`, the positional reads of the
open file of a path, and what the allocator then says to a scan buffer. -/
structure Platform (ω : Type) extends Kernel ω where
  fstat : Nat → ω → Except IoError Unit × ω
  pread : Path → Nat → List UInt8 → ω → Except IoError (Nat × List UInt8) × ω
  allocate : ω → Nat → Option Nat

section Source

variable {ω : Type}

theorem size_le_usizeMax (file : WindowedMmapFile) : file.size ≤ usizeMax :=
  file.size_le.trans isizeMax_lt_usizeMax.le

/-- `WindowedMmapSource`, over the view it caches and what was taken from the system. -/
def handleSource (kernel : Kernel ω) (file : WindowedMmapFile) (fd : Int) :
    ByteSource (Option WindowView × Recorded Resource ω) where
  len := file.size
  asSlice := none
  readAt offset out := ExceptT.mk fun s =>
    match WindowedHandle.readAt kernel ⟨file, s.1, fd⟩ (offset, out) s.2 with
    | (some (r, handle), sys) => some (r, handle.view, sys)
    | (none, _) => none
  len_le := size_le_usizeMax file

/-- `PreadSource::open_path`: the descriptor, and the file behind it. -/
def preadOpenPath (platform : Platform ω) (fs : FileSystem) (path : Path) :
    Sys Resource ω (Except IoError (Nat × Slice)) :=
  match probeMmapEligible fs path with
  | .error error => pure (.error error)
  | .ok _ => do
      match ← openReadOnly platform.toKernel fs path with
      | .error error => return .error error
      | .ok (fd, data) =>
          match ← ask (platform.fstat fd) with
          | .error error =>
              close fd
              return .error error
          | .ok _ => return .ok (fd, data)

/-- The open file of a path that holds `data`. -/
def preadFile (platform : Platform ω) (path : Path) (data : Slice) : PreadFile ω where
  len := data.len
  pread := platform.pread path
  len_le := data.len_le_usizeMax

/-- What planning comes to; `none` is a panic. -/
abbrev Planned := Option (Except IoError (List (Nat × Nat)))

/-- The allocator as it is now. -/
def allocator (platform : Platform ω) : Sys Resource ω (Nat → Option Nat) :=
  ask fun world => (platform.allocate world, world)

/-- Planning over a mapped file, which is dropped. -/
def planMapped (platform : Platform ω) (file : MmapFile) (numPartitions : Nat)
    (delimiter : List UInt8) (buffer : Nat) : Sys Resource ω Planned := do
  let allocate ← allocator platform
  let planned ← asking (planPartitionBoundaries allocate (mmapSource file.asBytes) numPartitions
    delimiter buffer)
  file.drop
  return planned

/-- Planning over a windowed file, which is dropped. -/
def planWindowed (platform : Platform ω) (handle : WindowedHandle) (numPartitions : Nat)
    (delimiter : List UInt8) (buffer : Nat) : Sys Resource ω Planned := do
  let allocate ← allocator platform
  let (planned, view) ← beside (planPartitionBoundaries allocate
    (handleSource platform.toKernel handle.file handle.fd) numPartitions delimiter buffer)
    handle.view
  WindowedHandle.drop ⟨handle.file, view, handle.fd⟩
  return planned

/-- Planning over positional reads; the descriptor is closed. -/
def planPread (platform : Platform ω) (fd : Nat) (file : PreadFile ω) (numPartitions : Nat)
    (delimiter : List UInt8) (buffer : Nat) : Sys Resource ω Planned := do
  let allocate ← allocator platform
  let planned ← asking (planPartitionBoundaries allocate (preadSource file) numPartitions
    delimiter buffer)
  close fd
  return planned

/-- `plan_partition_ranges`. -/
def planPartitionRanges (platform : Platform ω) (fs : FileSystem) (path : Path)
    (numPartitions : Nat) (delimiter : List UInt8) (options : PlannerOptions) :
    Sys Resource ω Planned :=
  let buffer := max options.scanBufferBytes 1
  if delimiter = [] then pure none
  else if numPartitions = 0 then pure (some (.ok []))
  else
    match options.mode with
    | .mmap => do
        match ← MmapFile.openPath platform.toKernel fs path with
        | .error error => return some (.error error)
        | .ok file => planMapped platform file numPartitions delimiter buffer
    | .windowed => do
        match ← WindowedHandle.openPath platform.toKernel fs path options.windowBytes
            options.window_le with
        | .error error => return some (.error error)
        | .ok handle => planWindowed platform handle numPartitions delimiter buffer
    | .pread => do
        match ← preadOpenPath platform fs path with
        | .error error => return some (.error error)
        | .ok (fd, data) =>
            planPread platform fd (preadFile platform path data) numPartitions delimiter buffer

/-- The call up to its writes. -/
def plannedRanges (platform : Platform ω) (fs : FileSystem) (args : RangesArgs) :
    Sys Resource ω (Option (Except RangesError (List (Nat × Nat)))) :=
  match runFrom (checkArgs args) () with
  | none => pure none
  | some (.error e, _) => pure (some (.error e))
  | some (.ok (path, mode), _) => do
      let planned ← planPartitionRanges platform fs path args.requestedPartitions
        args.delimiter.bytes (args.options mode)
      return planned.map (Except.mapError .planning)

/-- `mmap_engine_plan_partition_ranges`: the code, the memory and the error buffer
afterwards. -/
def mmapEnginePlanPartitionRanges (platform : Platform ω) (fs : FileSystem) (args : RangesArgs)
    (memory : OutMemory) (buf : ErrorBuffer) :
    Sys Resource ω ((Int × OutMemory) × ErrorBuffer) := do
  let planned ← plannedRanges platform fs args
  return answerOf args memory (clearError buf) planned

end Source

/-! ### What is granted -/

/-- The system grants whatever mapped files ask for. -/
structure Grants {ω : Type} (kernel : Kernel ω) : Prop where
  descriptor : ∀ world, ∃ fd next, kernel.descriptor world = (.ok fd, next)
  lseek : ∀ fd world, (kernel.lseek fd world).1 = true
  mmap : ∀ fd len offset world, ∃ ptr next, kernel.mmap fd len offset world = (.ok ptr, next)

/-- The system grants whatever planning asks for, and reads every file that is served. -/
structure Serves {ω : Type} (platform : Platform ω) (fs : FileSystem) : Prop where
  grants : Grants platform.toKernel
  fstat : ∀ fd world, ∃ next, platform.fstat fd world = (.ok (), next)
  pread : ∀ path data, served fs path = .ok data → ∀ offset out s, ∃ count written next,
    platform.pread path offset out s = (.ok (count, written), next)

section Granted

variable {ω : Type} {kernel : Kernel ω} {platform : Platform ω} {fs : FileSystem} {path : Path}
  {data : Slice}

/-- A path that is served passes the gate and is opened. -/
theorem passes_of_served (ok : served fs path = .ok data) :
    probeMmapEligible fs path = .ok () ∧ fs.openReadOnly path = .ok data := by
  rw [← probe_openReadOnly_eq] at ok
  obtain ⟨_, passes, opened⟩ := bind_ok ok
  exact ⟨passes, opened⟩

theorem openReadOnly_granted (grants : Grants kernel) (opened : fs.openReadOnly path = .ok data) :
    Gives (openReadOnly kernel fs path) fun answer => ∃ fd, answer = .ok (fd, data) := by
  intro s
  obtain ⟨fd, next, answered⟩ := grants.descriptor s.world
  refine ⟨fd, ?_⟩
  unfold openReadOnly
  simp only [opened, acquire, answered, Except.map]

theorem mapPages_granted (grants : Grants kernel) (fd len : Nat) :
    Gives (mapPages kernel fd len) fun answer => ∃ ptr, answer = .ok ptr := by
  intro s
  obtain ⟨ptr, next, answered⟩ := grants.mmap fd len 0 s.world
  refine ⟨ptr, ?_⟩
  unfold mapPages
  simp only [acquire, answered]

theorem mapped_granted (grants : Grants kernel) (ok : served fs path = .ok data) :
    Gives (MmapFile.openPath kernel fs path) fun answer => ∃ file, answer = .ok file := by
  obtain ⟨passes, opened⟩ := passes_of_served ok
  have unix : Gives (openUnix kernel fs path) fun answer => ∃ file, answer = some file := by
    refine Gives.bind (openReadOnly_granted grants opened) ?_
    rintro _ ⟨fd, rfl⟩
    refine Gives.bind (q := (· = true)) (fun s => grants.lseek fd s.world) ?_
    rintro _ rfl
    rw [if_pos rfl]
    split
    · exact Gives.bind Gives.any fun _ _ => Gives.pure ⟨_, rfl⟩
    · refine Gives.bind (mapPages_granted grants fd data.len) ?_
      rintro _ ⟨ptr, rfl⟩
      exact Gives.pure ⟨_, rfl⟩
  have inner : Gives (MmapFile.open kernel fs path) fun answer => ∃ file, answer = some file := by
    unfold MmapFile.open
    rw [passes]
    exact unix
  unfold MmapFile.openPath
  rw [passes]
  refine Gives.bind inner ?_
  rintro _ ⟨file, rfl⟩
  exact Gives.pure ⟨file, rfl⟩

theorem windowed_granted (grants : Grants kernel) (ok : served fs path = .ok data)
    {windowBytes : Nat} (window : viewAlignment ≤ windowBytes)
    (window_le : windowBytes ≤ usizeMax) :
    Gives (WindowedHandle.openPath kernel fs path windowBytes window_le)
      fun answer => ∃ handle, answer = .ok handle := by
  obtain ⟨passes, opened⟩ := passes_of_served ok
  unfold WindowedHandle.openPath
  rw [passes]
  dsimp only
  rw [dif_neg (Nat.not_lt.mpr window)]
  refine Gives.bind (openReadOnly_granted grants opened) ?_
  rintro _ ⟨fd, rfl⟩
  refine Gives.bind (q := (· = true)) (fun s => grants.lseek fd s.world) ?_
  rintro _ rfl
  exact Gives.pure ⟨_, rfl⟩

theorem pread_granted (serves : Serves platform fs) (ok : served fs path = .ok data) :
    Gives (preadOpenPath platform fs path) fun answer => ∃ fd, answer = .ok (fd, data) := by
  obtain ⟨passes, opened⟩ := passes_of_served ok
  unfold preadOpenPath
  rw [passes]
  refine Gives.bind (openReadOnly_granted serves.grants opened) ?_
  rintro _ ⟨fd, rfl⟩
  refine Gives.bind (q := (· = .ok ())) (fun s => ?_) ?_
  · obtain ⟨next, answered⟩ := serves.fstat fd s.world
    exact congrArg Prod.fst answered
  · rintro _ rfl
    exact Gives.pure ⟨fd, rfl⟩

end Granted

/-! ### A windowed file that is planned over -/

section Windowed

variable {ω : Type} {kernel : Kernel ω} {handle : WindowedHandle}
  {before : Recorded Resource ω} {parts buffer : Nat} {delimiter : List UInt8}

/-- The windowed file with another view in its cache. -/
def caching (handle : WindowedHandle) (view : Option WindowView) : WindowedHandle :=
  ⟨handle.file, view, handle.fd⟩

/-- What holds between its reads. -/
structure Since (handle : WindowedHandle) (before : Recorded Resource ω)
    (s : Option WindowView × Recorded Resource ω) : Prop where
  within : (caching handle s.1).Within
  turned : ∃ more, s.2.trace = before.trace ++ more ∧
    Turns handle.owned more (caching handle s.1).owned

theorem Since.start (within : handle.Within) : Since handle before (handle.view, before) :=
  ⟨within, [], (List.append_nil before.trace).symm, Turns.nil⟩

/-- A file that caches no view. -/
theorem within_of_fresh (fresh : handle.view = none) : handle.Within := by
  intro view mem
  rw [fresh] at mem
  cases mem

theorem not_grants_of_refused (refused : ¬Source.Grants (handle.os kernel) handle.file) :
    ¬Grants kernel := by
  intro grants
  apply refused
  intro alignedStart mappedLen world _
  obtain ⟨ptr, next, granted⟩ := grants.mmap handle.fd.toNat mappedLen alignedStart world
  refine ⟨ptr, next, ?_⟩
  unfold WindowedHandle.os
  simp only [granted, Except.map]

/-- Its reads that succeed are right, and whatever they take is given back or cached. -/
theorem handleSource_conformsOrFails (kernel : Kernel ω) (handle : WindowedHandle)
    (before : Recorded Resource ω) :
    ConformsOrFails (handleSource kernel handle.file handle.fd) (Since handle before)
      (fun _ s => Since handle before s ∧ ¬Grants kernel) handle.file.bytes where
  len_eq := rfl
  no_slice := rfl
  reads offset out s since := by
    obtain ⟨r, next, more, read, eq, turns⟩ :=
      WindowedHandle.readAt_cases kernel since.within (offset, out) s.2
    have later : Since handle before (next.view, ⟨s.2.trace ++ more, next.os⟩) := by
      refine ⟨read.within since.within, ?_⟩
      obtain ⟨earlier, recorded, turned⟩ := since.turned
      refine ⟨earlier ++ more, ?_, turned.append turns⟩
      rw [← List.append_assoc, ← recorded]
    refine ⟨r, (next.view, ⟨s.2.trace ++ more, next.os⟩), ?_, ?_⟩
    · change (match WindowedHandle.readAt kernel (caching handle s.1) (offset, out) s.2 with
        | (some (r, handle), sys) => some (r, handle.view, sys)
        | (none, _) => none) = _
      rw [eq]
    · have outcome := readStep_outcome read
      cases r with
      | error e => exact ⟨later, not_grants_of_refused outcome⟩
      | ok p => exact ⟨later, outcome⟩

theorem planWindowed_ends (kernel : Kernel ω) (data : Slice) (allocate : Nat → Option Nat)
    (within : handle.Within) (same : handle.file.bytes = data.bytes) (ne : delimiter ≠ [])
    (parts buffer : Nat)
    (before : Recorded Resource ω) :
    Ensures (planPartitionBoundaries allocate (handleSource kernel handle.file handle.fd) parts
        delimiter buffer) (handle.view, before)
      (Outcome
        (fun ranges last => Scanner.findPartitionBoundariesPattern data parts delimiter =
          some ranges ∧ Since handle before last)
        fun e last => (Since handle before last ∧ ¬Grants kernel) ∨
          NotAllocated allocate (bufferLen buffer delimiter.length) e ∧
            Since handle before last) := by
  have conforms := handleSource_conformsOrFails kernel handle before
  rw [same] at conforms
  exact planPartitionBoundaries_outcome conforms (.start within) parts ne buffer allocate

/-- Planning over a windowed file gives back all that it owns. -/
theorem planWindowed_acts (platform : Platform ω) (within : handle.Within) (ne : delimiter ≠ [])
    (parts buffer : Nat) :
    Acts (planWindowed platform handle parts delimiter buffer) handle.owned fun _ => 0 := by
  apply Acts.bind Acts.ask
  intro allocate
  have planned : Acts (beside (planPartitionBoundaries allocate
        (handleSource platform.toKernel handle.file handle.fd) parts delimiter buffer) handle.view)
      (caching handle handle.view).owned fun p => (caching handle p.2).owned := by
    apply Acts.beside fun view => (caching handle view).owned
    intro before
    apply (planWindowed_ends platform.toKernel ⟨1, handle.file.bytes, handle.file.size_le⟩ allocate within rfl
      ne parts buffer before).mono
    intro r last outcome
    cases r with
    | error e => exact (outcome.elim And.left And.right).turned
    | ok ranges => exact outcome.2.turned
  apply Acts.bind planned
  rintro ⟨r, view⟩
  apply Acts.bind (WindowedHandle.drop_acts (caching handle view))
  intro _
  exact Acts.pure rfl

end Windowed

/-! ### Planning -/

/-- Something is in the way of planning the path. -/
def Impeded {ω : Type} (platform : Platform ω) (fs : FileSystem) (path : Path)
    (delimiter : List UInt8) (options : PlannerOptions) : Prop :=
  ∃ world, Hindered (Serves platform fs) (platform.allocate world) fs path delimiter options

/-- What an opening may come to. -/
def OpensTo {α : Type} (good : α → Prop) (hindered : Prop) : Except IoError α → Prop
  | .ok a => good a
  | .error _ => hindered

/-- What planning the path may come to: the plan of what it serves, or an error if something is
in the way. -/
def PlansTo (fs : FileSystem) (path : Path) (parts : Nat) (delimiter : List UInt8)
    (hindered : Prop) : Planned → Prop
  | some (.ok ranges) =>
      ∃ data, served fs path = .ok data ∧ ranges = partitionPlan data.bytes parts delimiter
  | some (.error _) => hindered
  | none => False

section Planning

variable {ω : Type} {platform : Platform ω} {fs : FileSystem} {path : Path} {data : Slice}
  {parts : Nat} {delimiter : List UInt8} {options : PlannerOptions}

theorem preadOpenPath_acts :
    Acts (preadOpenPath platform fs path) 0 (ownedIfOk fun file => {.descriptor file.1}) := by
  unfold preadOpenPath
  cases probeMmapEligible fs path with
  | error error => exact Acts.pure rfl
  | ok _ =>
      apply Acts.bind openReadOnly_acts
      rintro (error | ⟨fd, data⟩)
      · exact Acts.pure rfl
      · change Acts _ (Resource.descriptor fd ::ₘ 0) _
        apply Acts.bind Acts.ask
        rintro (error | _)
        · apply Acts.bind Acts.release
          intro _
          exact Acts.pure rfl
        · exact Acts.pure rfl

theorem planMapped_acts (platform : Platform ω) (file : MmapFile) (parts : Nat)
    (delimiter : List UInt8) (buffer : Nat) :
    Acts (planMapped platform file parts delimiter buffer) file.owned fun _ => 0 := by
  apply Acts.bind Acts.ask
  intro allocate
  apply Acts.bind Acts.asking
  intro planned
  apply Acts.bind file.drop_acts
  intro _
  exact Acts.pure rfl

theorem planPread_acts (platform : Platform ω) (fd : Nat) (file : PreadFile ω) (parts : Nat)
    (delimiter : List UInt8) (buffer : Nat) :
    Acts (planPread platform fd file parts delimiter buffer) {.descriptor fd} fun _ => 0 := by
  apply Acts.bind Acts.ask
  intro allocate
  apply Acts.bind Acts.asking
  intro planned
  change Acts _ (Resource.descriptor fd ::ₘ 0) _
  apply Acts.bind Acts.release
  intro _
  exact Acts.pure rfl

/-- Planning owns nothing before and after it, whatever the system answers. -/
theorem planPartitionRanges_acts (platform : Platform ω) (fs : FileSystem) (path : Path)
    (parts : Nat) (delimiter : List UInt8) (options : PlannerOptions) :
    Acts (planPartitionRanges platform fs path parts delimiter options) 0 fun _ => 0 := by
  unfold planPartitionRanges
  dsimp only
  by_cases empty : delimiter = []
  · rw [if_pos empty]
    exact Acts.pure rfl
  rw [if_neg empty]
  by_cases none_ : parts = 0
  · rw [if_pos none_]
    exact Acts.pure rfl
  rw [if_neg none_]
  cases options.mode with
  | mmap =>
      apply Acts.bind (MmapFile.openPath_acts platform.toKernel fs path)
      rintro (error | file)
      · exact Acts.pure rfl
      · exact planMapped_acts _ file parts delimiter _
  | windowed =>
      apply Acts.bind_of (WindowedHandle.openPath_acts platform.toKernel fs path
        options.window_le) (WindowedHandle.openPath_gives platform.toKernel fs path
        options.window_le)
      rintro (error | handle) gives
      · exact Acts.pure rfl
      · obtain ⟨data, -, -, fresh⟩ := gives handle rfl
        exact planWindowed_acts _ (within_of_fresh fresh) empty parts _
  | pread =>
      apply Acts.bind preadOpenPath_acts
      rintro (error | ⟨fd, data⟩)
      · exact Acts.pure rfl
      · exact planPread_acts _ fd _ parts delimiter _

/-- An opening returns what is good of what it opens, or something is in the way. -/
theorem opensTo_of_granted {α : Type} {x : Sys Resource ω (Except IoError α)} {good : α → Prop}
    (delimiter : List UInt8) (gives : Gives x fun answer => ∀ a, answer = .ok a → good a)
    (granted : Serves platform fs → ∀ data, served fs path = .ok data →
      (options.mode = .windowed → viewAlignment ≤ options.windowBytes) →
      Gives x fun answer => ∃ a, answer = .ok a) :
    Gives x (OpensTo good (Impeded platform fs path delimiter options)) := by
  intro s
  have goodOf := gives s
  cases here : (x s).1 with
  | ok a => exact goodOf a here
  | error error =>
      by_contra clear
      have serves : Serves platform fs :=
        not_not.mp fun unserved => clear ⟨s.world, .system unserved⟩
      obtain ⟨data, ok⟩ : ∃ data, served fs path = .ok data := not_forall_not.mp
        fun unserved => clear ⟨s.world, .refused unserved⟩
      obtain ⟨a, eq⟩ := granted serves data ok
        (fun mode => Nat.not_lt.mp fun small => clear ⟨s.world, .window mode small⟩) s
      cases here.symm.trans eq

theorem mapped_opensTo (delimiter : List UInt8) (options : PlannerOptions) :
    Gives (MmapFile.openPath platform.toKernel fs path)
      (OpensTo (fun file => ∃ data, served fs path = .ok data ∧ file.Shows data.bytes)
        (Impeded platform fs path delimiter options)) := by
  apply opensTo_of_granted delimiter (MmapFile.openPath_gives platform.toKernel fs path)
  intro serves data ok _
  exact mapped_granted serves.grants ok

theorem windowed_opensTo (delimiter : List UInt8) (mode : options.mode = .windowed) :
    Gives (WindowedHandle.openPath platform.toKernel fs path options.windowBytes options.window_le)
      (OpensTo (fun handle => ∃ data, served fs path = .ok data ∧
          handle.file.bytes = data.bytes ∧ handle.view = none)
        (Impeded platform fs path delimiter options)) := by
  apply opensTo_of_granted delimiter
    (WindowedHandle.openPath_gives platform.toKernel fs path options.window_le)
  intro serves data ok window
  exact windowed_granted serves.grants ok (window mode) options.window_le

theorem preadOpenPath_gives :
    Gives (preadOpenPath platform fs path) fun answer => ∀ file, answer = .ok file →
      served fs path = .ok file.2 := by
  unfold preadOpenPath
  cases passes : probeMmapEligible fs path with
  | error error =>
      refine Gives.pure ?_
      rintro file ⟨⟩
  | ok _ =>
      refine Gives.bind openReadOnly_gives ?_
      rintro (error | ⟨fd, data⟩) opened
      · refine Gives.pure ?_
        rintro file ⟨⟩
      refine Gives.bind Gives.any ?_
      rintro (error | _) -
      · refine Gives.bind Gives.any fun _ _ => Gives.pure ?_
        rintro file ⟨⟩
      · refine Gives.pure ?_
        rintro file ⟨⟩
        exact served_of_openReadOnly passes (opened _ rfl)

theorem pread_opensTo (delimiter : List UInt8) (options : PlannerOptions) :
    Gives (preadOpenPath platform fs path)
      (OpensTo (fun file => served fs path = .ok file.2)
        (Impeded platform fs path delimiter options)) := by
  apply opensTo_of_granted delimiter preadOpenPath_gives
  intro serves data ok _ s
  obtain ⟨fd, opened⟩ := pread_granted serves ok s
  exact ⟨(fd, data), opened⟩

/-- What the planner over an open source comes to is what planning the path comes to. -/
theorem plansTo_of_outcome {σ : Type} {s : σ} {inv : σ → Prop} {failed : IoError → σ → Prop}
    {world : ω} {r : Except IoError (List (Nat × Nat))} (ok : served fs path = .ok data) (pos : 1 ≤ parts)
    (ne : delimiter ≠ []) (unserved : ∀ e s, failed e s → ¬Serves platform fs)
    (outcome : Outcome
      (fun ranges s => Scanner.findPartitionBoundariesPattern data parts delimiter =
        some ranges ∧ inv s)
      (fun e s => failed e s ∨ NotAllocated (platform.allocate world)
        (bufferLen (max options.scanBufferBytes 1) delimiter.length) e ∧ inv s) r s) :
    PlansTo fs path parts delimiter (Impeded platform fs path delimiter options) (some r) := by
  cases r with
  | error e =>
      rcases outcome with failed | ⟨refused, -⟩
      · exact ⟨world, .system (unserved e s failed)⟩
      · exact ⟨world, .memory refused⟩
  | ok ranges =>
      have eq := outcome.1
      rw [findPartitionBoundariesPattern_eq data pos ne, Option.some.injEq] at eq
      exact ⟨data, ok, eq.symm⟩

theorem allocator_gives (platform : Platform ω) :
    Gives (allocator platform) fun allocate => ∃ world, allocate = platform.allocate world :=
  fun s => ⟨s.world, rfl⟩

theorem planMapped_gives {file : MmapFile} (ok : served fs path = .ok data)
    (shows_ : file.Shows data.bytes) (pos : 1 ≤ parts) (ne : delimiter ≠ [])
    (platform : Platform ω) (buffer : Nat) (hindered : Prop) :
    Gives (planMapped platform file parts delimiter buffer)
      (PlansTo fs path parts delimiter hindered) := by
  refine Gives.bind Gives.any fun allocate _ => ?_
  have planned : Gives (asking (planPartitionBoundaries allocate (mmapSource file.asBytes) parts
      delimiter buffer) : Sys Resource ω Planned) (PlansTo fs path parts delimiter hindered) := by
    apply Gives.asking
    intro world
    rw [planPartitionBoundaries, if_neg ne, mmapSource]
    dsimp only
    rw [findPartitionBoundariesPattern_eq file.asBytes pos ne, orPanic_some]
    refine Ensures.pure ⟨data, ok, ?_⟩
    rw [shows_.asBytes_bytes]
  exact Gives.bind planned fun _ plans => Gives.bind Gives.any fun _ _ => Gives.pure plans

theorem planWindowed_gives {handle : WindowedHandle} (ok : served fs path = .ok data)
    (same : handle.file.bytes = data.bytes) (within : handle.Within) (pos : 1 ≤ parts)
    (ne : delimiter ≠ []) :
    Gives (planWindowed platform handle parts delimiter (max options.scanBufferBytes 1))
      (PlansTo fs path parts delimiter (Impeded platform fs path delimiter options)) := by
  refine Gives.bind (allocator_gives platform) ?_
  rintro _ ⟨world, rfl⟩
  have planned : Gives (beside (planPartitionBoundaries (platform.allocate world)
        (handleSource platform.toKernel handle.file handle.fd) parts delimiter
        (max options.scanBufferBytes 1)) handle.view)
      fun p => PlansTo fs path parts delimiter (Impeded platform fs path delimiter options)
        p.1 := by
    apply Gives.beside
    intro before
    apply (planWindowed_ends platform.toKernel data (platform.allocate world) within same ne parts
      _ before).mono
    intro r last outcome
    exact plansTo_of_outcome ok pos ne (fun _ _ refused serves => refused.2 serves.grants) outcome
  exact Gives.bind planned fun _ plans => Gives.bind Gives.any fun _ _ => Gives.pure plans

theorem planPread_gives (reads : ReadsRight platform.pread fs) (ok : served fs path = .ok data)
    (fd : Nat) (pos : 1 ≤ parts) (ne : delimiter ≠ []) :
    Gives (planPread platform fd (preadFile platform path data) parts delimiter
        (max options.scanBufferBytes 1))
      (PlansTo fs path parts delimiter (Impeded platform fs path delimiter options)) := by
  refine Gives.bind (allocator_gives platform) ?_
  rintro _ ⟨world, rfl⟩
  have preads : PreadsOrFails (preadFile platform path data) data.bytes
      fun _ _ => ¬Serves platform fs := by
    refine ⟨rfl, fun offset out world => ?_⟩
    cases answer : platform.pread path offset out world with
    | mk read next =>
        refine ⟨read, next, congrArg some answer, ?_⟩
        cases read with
        | error e =>
            intro serves
            obtain ⟨count, written, next', fine⟩ := serves.pread path data ok offset out world
            cases answer.symm.trans fine
        | ok p => exact reads path data ok offset out world p.1 p.2 next answer
  have planned : Gives (asking (planPartitionBoundaries (platform.allocate world)
        (preadSource (preadFile platform path data)) parts delimiter
        (max options.scanBufferBytes 1)) : Sys Resource ω Planned)
      (PlansTo fs path parts delimiter (Impeded platform fs path delimiter options)) := by
    apply Gives.asking
    intro start
    apply (planPartitionBoundaries_outcome (pread_conformsOrFails preads) trivial parts ne _
      (platform.allocate world)).mono
    intro r last outcome
    exact plansTo_of_outcome ok pos ne (fun _ _ refused => refused) outcome
  exact Gives.bind planned fun _ plans => Gives.bind Gives.any fun _ _ => Gives.pure plans

/-- Planning returns the plan of what the path serves, or something is in the way. -/
theorem planPartitionRanges_gives (reads : ReadsRight platform.pread fs) (path : Path)
    (pos : 1 ≤ parts) (ne : delimiter ≠ []) (options : PlannerOptions) :
    Gives (planPartitionRanges platform fs path parts delimiter options)
      (PlansTo fs path parts delimiter (Impeded platform fs path delimiter options)) := by
  unfold planPartitionRanges
  dsimp only
  rw [if_neg ne, if_neg (Nat.pos_iff_ne_zero.mp pos)]
  cases mode : options.mode with
  | mmap =>
      refine Gives.bind (mapped_opensTo delimiter options) ?_
      rintro (error | file) opens
      · exact Gives.pure opens
      · obtain ⟨data, ok, shows_⟩ := opens
        exact planMapped_gives ok shows_ pos ne _ _ _
  | windowed =>
      refine Gives.bind (windowed_opensTo delimiter mode) ?_
      rintro (error | handle) opens
      · exact Gives.pure opens
      · obtain ⟨data, ok, same, fresh⟩ := opens
        exact planWindowed_gives ok same (within_of_fresh fresh) pos ne
  | pread =>
      refine Gives.bind (pread_opensTo delimiter options) ?_
      rintro (error | ⟨fd, data⟩) opens
      · exact Gives.pure opens
      · exact planPread_gives reads opens fd pos ne

end Planning

/-! ### The call -/

section Calls

variable {ω : Type} {platform : Platform ω} {fs : FileSystem}

/-- A call owns nothing before and after it, whatever the system answers. -/
theorem call_acts (platform : Platform ω) (fs : FileSystem) (args : RangesArgs)
    (memory : OutMemory) (buf : ErrorBuffer) :
    Acts (mmapEnginePlanPartitionRanges platform fs args memory buf) 0 fun _ => 0 := by
  have planned : Acts (plannedRanges platform fs args) 0 fun _ => 0 := by
    unfold plannedRanges
    split
    · exact Acts.pure rfl
    · exact Acts.pure rfl
    · apply Acts.bind (planPartitionRanges_acts platform fs _ _ _ _)
      intro _
      exact Acts.pure rfl
  apply Acts.bind planned
  intro _
  exact Acts.pure rfl

/-- An argument is rejected, or something is in the way of the plan. -/
def Unplanned {ω : Type} (platform : Platform ω) (fs : FileSystem) (args : RangesArgs) : Prop :=
  ∃ world, NoPlan (Serves platform fs) (platform.allocate world) fs args

/-- What the call up to its writes comes to. -/
def Comes (fs : FileSystem) (args : RangesArgs) (noPlan : Prop) :
    Option (Except RangesError (List (Nat × Nat))) → Prop
  | some (.ok ranges) => PlanOf fs args ranges
  | some (.error _) => noPlan
  | none => False

theorem plannedRanges_gives (reads : ReadsRight platform.pread fs) (args : RangesArgs) :
    Gives (plannedRanges platform fs args) (Comes fs args (Unplanned platform fs args)) := by
  obtain ⟨r, _, ran, checked⟩ := checkArgs_outcome args ()
  unfold plannedRanges
  rw [ran]
  rcases r with error | ⟨path, mode⟩
  · exact fun s => ⟨s.world, .inl checked.2⟩
  have accepted := checked.2
  refine Gives.bind (planPartitionRanges_gives reads path (Nat.pos_of_ne_zero accepted.parts)
    (bytes_ne_nil accepted.delimiter) (args.options mode)) ?_
  rintro (_ | error | ranges) plans
  · exact plans.elim
  · obtain ⟨world, hindered⟩ := plans
    exact Gives.pure ⟨world, .inr ⟨path, mode, accepted, hindered⟩⟩
  · obtain ⟨data, ok, eq⟩ := plans
    exact Gives.pure ⟨path, mode, data, accepted, ok, eq⟩

/-- What a call answers, if what is read of the file is right. -/
theorem call_answers (reads : ReadsRight platform.pread fs) (args : RangesArgs)
    (memory : OutMemory) (buf : ErrorBuffer) :
    Gives (mmapEnginePlanPartitionRanges platform fs args memory buf) fun answer =>
      Answers (PlanOf fs args) (Unplanned platform fs args) args.capacity memory answer.1.1
        answer.1.2 := by
  refine Gives.bind (plannedRanges_gives reads args) ?_
  rintro (_ | error | ranges) comes
  · exact comes.elim
  · exact Gives.pure (.failed comes)
  · exact Gives.pure (writeRanges_answers comes args.capacity memory)

end Calls

end Ranges.Owned
