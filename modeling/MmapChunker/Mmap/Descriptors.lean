import MmapChunker.Mmap.Open
import MmapChunker.Theory.Resources

/-!
The system calls of mapped files (`src/mmap.rs`, Unix).

A mapped file owns what the system gave for it: a `MmapFile` its descriptor and its pages,
a `WindowedMmapFile` its descriptor and the view it caches. Any call may be refused at any
time. The system is a parameter whose state decides all its answers, so that it may hand
out again what it was given back.

Each operation has one rule that says what it owns before and after (`openUnix_acts`,
`readAt_acts`, `drop_acts`). `mapped_files_owned` is what follows for every run of a
program that opens, reads and drops any number of files.
-/

namespace Mmap

open Machine Exec Source Resources Calls

/-! ### Source -/

/-- What the system gives: a descriptor, pages of the address space, or a box on the
heap. -/
inductive Resource where
  | descriptor (fd : Nat)
  | pages (ptr len : Nat)
  | box (ptr : Nat)
  deriving Repr, DecidableEq

/-- Where pages and boxes lie. None lie at the null pointer. -/
abbrev Address := { ptr : Nat // ptr ≠ 0 }

/-- The system: a descriptor for a file that can be opened, whether `lseek` succeeds, the
pages for `mmap fd length offset`, and a box. -/
structure Kernel (ω : Type) where
  descriptor : ω → Except IoError Nat × ω
  lseek : Nat → ω → Bool × ω
  mmap : Nat → Nat → Nat → ω → Except IoError Address × ω
  alloc : ω → Address × ω

section Operations

variable {ω : Type}

/-- `open(path, O_RDONLY)`: the descriptor and the file behind it. -/
def openReadOnly (kernel : Kernel ω) (fs : FileSystem) (path : Path) :
    Sys Resource ω (Except IoError (Nat × Slice)) :=
  match fs.openReadOnly path with
  | .error error => pure (.error error)
  | .ok data =>
      acquire (fun world => ((kernel.descriptor world).1.map (·, data), (kernel.descriptor world).2))
        fun file => .descriptor file.1

/-- `close(fd)`. -/
def close (fd : Nat) : Sys Resource ω Unit := release (.descriptor fd)

/-- `mmap(NULL, len, PROT_READ, MAP_PRIVATE, fd, 0)`. -/
def mapPages (kernel : Kernel ω) (fd len : Nat) : Sys Resource ω (Except IoError Address) :=
  acquire (kernel.mmap fd len 0) fun ptr => .pages ptr len

/-- `MmapFile`, with the bytes its pages show. -/
structure MmapFile where
  ptr : Nat
  bytes : List UInt8
  fits : bytes.length ≤ isizeMax
  fd : Int
  deriving DecidableEq

def MmapFile.size (file : MmapFile) : Nat := file.bytes.length

/-- The empty slice; its address is dangling. -/
def emptySlice : Slice := ⟨1, [], Nat.zero_le _⟩

/-- `MmapFile::as_bytes`. -/
def MmapFile.asBytes (file : MmapFile) : Slice :=
  if file.ptr = 0 ∨ file.size = 0 then emptySlice else ⟨file.ptr, file.bytes, file.fits⟩

/-- `MmapFile::open_unix`. An empty file is not mapped and keeps no descriptor. -/
def openUnix (kernel : Kernel ω) (fs : FileSystem) (path : Path) :
    Sys Resource ω (Option MmapFile) := do
  match ← openReadOnly kernel fs path with
  | .error _ => return none
  | .ok (fd, data) =>
      if ← ask (kernel.lseek fd) then
        if data.len = 0 then
          close fd
          return some ⟨0, [], Nat.zero_le _, -1⟩
        else
          match ← mapPages kernel fd data.len with
          | .error _ =>
              close fd
              return none
          | .ok ptr => return some ⟨ptr, data.bytes, data.fits, fd⟩
      else
        close fd
        return none

/-- `MmapFile::open`. -/
def MmapFile.open (kernel : Kernel ω) (fs : FileSystem) (path : Path) :
    Sys Resource ω (Option MmapFile) :=
  match probeMmapEligible fs path with
  | .error _ => pure none
  | .ok _ => openUnix kernel fs path

/-- `MmapFile::open_path`. -/
def MmapFile.openPath (kernel : Kernel ω) (fs : FileSystem) (path : Path) :
    Sys Resource ω (Except IoError MmapFile) :=
  match probeMmapEligible fs path with
  | .error error => pure (.error error)
  | .ok _ => do
      match ← MmapFile.open kernel fs path with
      | some file => return .ok file
      | none => return .error ⟨.other, "failed to open or map file"⟩

/-- What is given back under a condition. -/
def releaseIf (p : Prop) [Decidable p] (r : Resource) : Sys Resource ω Unit :=
  if p then release r else pure ()

/-- `MmapFile::drop`. -/
def MmapFile.drop (file : MmapFile) : Sys Resource ω Unit := do
  releaseIf (file.ptr ≠ 0 ∧ 0 < file.size) (.pages file.ptr file.size)
  releaseIf (0 ≤ file.fd) (.descriptor file.fd.toNat)

/-- A `WindowedMmapFile` with its descriptor and the view it caches. -/
structure WindowedHandle where
  file : WindowedMmapFile
  view : Option WindowView
  fd : Int

/-- `WindowedMmapFile::open_path`. -/
def WindowedHandle.openPath (kernel : Kernel ω) (fs : FileSystem) (path : Path)
    (windowBytes : Nat) (window_le : windowBytes ≤ usizeMax) :
    Sys Resource ω (Except IoError WindowedHandle) :=
  match probeMmapEligible fs path with
  | .error error => pure (.error error)
  | .ok _ =>
      if small : windowBytes < viewAlignment then
        pure (.error ⟨.invalidInput, "window_bytes must be at least 64 KiB"⟩)
      else do
        match ← openReadOnly kernel fs path with
        | .error error => return .error error
        | .ok (fd, data) =>
            if ← ask (kernel.lseek fd) then
              return .ok ⟨⟨data.bytes, windowBytes, data.fits, Nat.le_of_not_lt small, window_le⟩,
                none, fd⟩
            else
              close fd
              return .error ⟨.invalidData, "file size does not fit in usize"⟩

/-- The system as a read of the file sees it. -/
def WindowedHandle.os (kernel : Kernel ω) (handle : WindowedHandle) : Os ω where
  mmap alignedStart mappedLen world :=
    ((kernel.mmap handle.fd.toNat mappedLen alignedStart world).1.map Subtype.val,
      (kernel.mmap handle.fd.toNat mappedLen alignedStart world).2)

/-- What an event of a read takes or gives back. -/
def Event.action : Event → Option (Action Resource)
  | .mapped view => some (.acquired (.pages view.ptr view.mappedLen))
  | .unmapped view => some (.released (.pages view.ptr view.mappedLen))
  | _ => none

/-- `WindowedMmapFile::read_at`; nothing is left of a read that panics. -/
def WindowedHandle.readAt (kernel : Kernel ω) (handle : WindowedHandle)
    (input : Nat × List UInt8) :
    Sys Resource ω (Option (Except IoError (Nat × List UInt8) × WindowedHandle)) := fun s =>
  match handle.file.readStep (handle.os kernel) input ⟨handle.view, [], s.world⟩ with
  | none => (none, s)
  | some (r, next) =>
      (some (r, ⟨handle.file, next.view, handle.fd⟩),
        ⟨s.trace ++ next.events.filterMap Event.action, next.os⟩)

/-- `unmap_view`, of the cached view. -/
def unmapView : Option WindowView → Sys Resource ω Unit
  | some view => release (.pages view.ptr view.mappedLen)
  | none => pure ()

/-- `WindowedMmapFile::drop`. -/
def WindowedHandle.drop (handle : WindowedHandle) : Sys Resource ω Unit := do
  unmapView handle.view
  releaseIf (0 ≤ handle.fd) (.descriptor handle.fd.toNat)

end Operations

/-! ### What is owned -/

/-- The descriptor behind `fd`, if there is one. -/
def ownedDescriptor (fd : Int) : Multiset Resource :=
  if 0 ≤ fd then {.descriptor fd.toNat} else 0

/-- What a mapped file owns. -/
def MmapFile.owned (file : MmapFile) : Multiset Resource :=
  (if file.ptr ≠ 0 ∧ 0 < file.size then {.pages file.ptr file.size} else 0) +
    ownedDescriptor file.fd

/-- What a view owns. -/
def WindowView.owned (view : WindowView) : Multiset Resource := {.pages view.ptr view.mappedLen}

/-- What a windowed file owns. -/
def WindowedHandle.owned (handle : WindowedHandle) : Multiset Resource :=
  handle.view.elim 0 WindowView.owned + ownedDescriptor handle.fd

section Owned

variable {ω : Type} {kernel : Kernel ω} {fs : FileSystem} {path : Path}

theorem ownedDescriptor_natCast (fd : Nat) : ownedDescriptor fd = {.descriptor fd} :=
  if_pos (Int.natCast_nonneg fd)

theorem openReadOnly_acts {a : Multiset Resource} :
    Acts (openReadOnly kernel fs path) a (gained a fun file => .descriptor file.1) := by
  unfold openReadOnly
  cases fs.openReadOnly path with
  | error error => exact Acts.pure rfl
  | ok data => exact Acts.acquire

theorem openUnix_acts :
    Acts (openUnix kernel fs path) 0 fun answer => answer.elim 0 MmapFile.owned := by
  apply Acts.bind openReadOnly_acts
  rintro (_ | ⟨fd, data⟩)
  · exact Acts.pure rfl
  change Acts _ (Resource.descriptor fd ::ₘ 0) _
  apply Acts.bind Acts.ask
  rintro (_ | _)
  · apply Acts.bind Acts.release
    intro _
    exact Acts.pure rfl
  · change Acts (if data.len = 0 then _ else _) _ _
    by_cases empty : data.len = 0
    · rw [if_pos empty]
      apply Acts.bind Acts.release
      intro _
      exact Acts.pure rfl
    · rw [if_neg empty]
      apply Acts.bind Acts.acquire
      rintro (error | ptr)
      · change Acts _ (Resource.descriptor fd ::ₘ 0) _
        apply Acts.bind Acts.release
        intro _
        exact Acts.pure rfl
      · apply Acts.pure
        change MmapFile.owned ⟨ptr, data.bytes, data.fits, fd⟩ =
          Resource.pages ptr data.len ::ₘ {Resource.descriptor fd}
        rw [MmapFile.owned, if_pos ⟨ptr.2, Nat.pos_of_ne_zero empty⟩, ownedDescriptor_natCast]
        rfl

/-- What is owned under a condition is given back under it. -/
theorem releaseIf_acts {p : Prop} [Decidable p] {r : Resource} {a : Multiset Resource} :
    Acts (releaseIf p r : Sys Resource ω Unit) ((if p then {r} else 0) + a) fun _ => a := by
  unfold releaseIf
  by_cases holds : p
  · rw [if_pos holds, if_pos holds]
    exact Acts.release
  · rw [if_neg holds, if_neg holds]
    exact Acts.pure (zero_add a).symm

theorem MmapFile.drop_acts (file : MmapFile) :
    Acts (file.drop : Sys Resource ω Unit) file.owned fun _ => 0 := by
  apply Acts.bind releaseIf_acts
  intro _
  rw [← add_zero (ownedDescriptor file.fd)]
  exact releaseIf_acts

theorem MmapFile.open_acts :
    Acts (MmapFile.open kernel fs path) 0 fun answer => answer.elim 0 MmapFile.owned := by
  unfold MmapFile.open
  cases probeMmapEligible fs path with
  | error error => exact Acts.pure rfl
  | ok _ => exact openUnix_acts

/-- What is owned of an answer that may be an error. -/
def ownedIfOk {ε α : Type} (owned : α → Multiset Resource) : Except ε α → Multiset Resource
  | .ok a => owned a
  | .error _ => 0

variable (kernel fs path) in
theorem MmapFile.openPath_acts :
    Acts (MmapFile.openPath kernel fs path) 0 (ownedIfOk MmapFile.owned) := by
  unfold MmapFile.openPath
  cases probeMmapEligible fs path with
  | error error => exact Acts.pure rfl
  | ok _ =>
      apply Acts.bind MmapFile.open_acts
      rintro (_ | file)
      · exact Acts.pure rfl
      · exact Acts.pure rfl

variable (kernel fs path) in
theorem WindowedHandle.openPath_acts {windowBytes : Nat} (window_le : windowBytes ≤ usizeMax) :
    Acts (WindowedHandle.openPath kernel fs path windowBytes window_le) 0
      (ownedIfOk WindowedHandle.owned) := by
  unfold WindowedHandle.openPath
  cases probeMmapEligible fs path with
  | error error => exact Acts.pure rfl
  | ok _ =>
      by_cases small : windowBytes < viewAlignment
      · dsimp only
        rw [dif_pos small]
        exact Acts.pure rfl
      dsimp only
      rw [dif_neg small]
      apply Acts.bind openReadOnly_acts
      rintro (_ | ⟨fd, data⟩)
      · exact Acts.pure rfl
      change Acts _ (Resource.descriptor fd ::ₘ 0) _
      apply Acts.bind Acts.ask
      rintro (_ | _)
      · apply Acts.bind Acts.release
        intro _
        exact Acts.pure rfl
      · apply Acts.pure
        change (0 : Multiset Resource) + ownedDescriptor fd = _
        rw [zero_add, ownedDescriptor_natCast]
        rfl

theorem unmapView_acts {view : Option WindowView} {a : Multiset Resource} :
    Acts (unmapView view : Sys Resource ω Unit) (view.elim 0 WindowView.owned + a) fun _ => a := by
  cases view with
  | none => exact Acts.pure (zero_add a).symm
  | some view => exact Acts.release

theorem WindowedHandle.drop_acts (handle : WindowedHandle) :
    Acts (handle.drop : Sys Resource ω Unit) handle.owned fun _ => 0 := by
  apply Acts.bind unmapView_acts
  intro _
  rw [← add_zero (ownedDescriptor handle.fd)]
  exact releaseIf_acts

/-- What a read takes and gives back: a new view for the cached one, or nothing. -/
theorem ReadStep.turns {os : Os ω} {file : WindowedMmapFile} {offset : Nat} {out : List UInt8}
    {view : Option WindowView} {world : ω} {r : Except IoError (Nat × List UInt8)}
    {next : ViewState ω} (read : ReadStep os file offset out ⟨view, [], world⟩ r next)
    (a : Multiset Resource) :
    Turns (view.elim 0 WindowView.owned + a) (next.events.filterMap Event.action)
      (next.view.elim 0 WindowView.owned + a) := by
  cases read with
  | idle => exact Turns.nil
  | hit => exact Turns.nil
  | refused => exact Turns.nil
  | @mapped ptr next fresh something miss answer eq =>
      cases view with
      | none =>
          change Turns (0 + a) [.acquired (.pages fresh.ptr fresh.mappedLen)] (fresh.owned + a)
          rw [zero_add]
          exact Turns.acquired
      | some old =>
          have swapped : Resource.pages fresh.ptr fresh.mappedLen ::ₘ (old.owned + a) =
              Resource.pages old.ptr old.mappedLen ::ₘ (fresh.owned + a) :=
            Multiset.cons_swap _ _ a
          have first : Turns (old.owned + a) [.acquired (.pages fresh.ptr fresh.mappedLen)] _ :=
            Turns.acquired
          rw [swapped] at first
          exact first.append Turns.released

end Owned

/-! ### What is shown -/

section Shown

variable {ω : Type} {kernel : Kernel ω} {fs : FileSystem} {path : Path}

/-- The mapped file shows the bytes. -/
structure MmapFile.Shows (file : MmapFile) (bytes : List UInt8) : Prop where
  bytes_eq : file.bytes = bytes
  empty_of_null : file.ptr = 0 → bytes = []

theorem MmapFile.Shows.asBytes_bytes {file : MmapFile} {bytes : List UInt8}
    (shows_ : file.Shows bytes) : file.asBytes.bytes = bytes := by
  unfold MmapFile.asBytes
  split
  · rename_i none_
    change [] = bytes
    rcases none_ with null | empty
    · exact (shows_.empty_of_null null).symm
    · rw [← shows_.bytes_eq]
      exact (List.length_eq_zero_iff.mp empty).symm
  · exact shows_.bytes_eq

theorem openReadOnly_gives :
    Gives (openReadOnly kernel fs path) fun answer =>
      ∀ file, answer = .ok file → fs.openReadOnly path = .ok file.2 := by
  intro s file eq
  unfold openReadOnly at eq
  cases opened : fs.openReadOnly path with
  | error error =>
      rw [opened] at eq
      cases eq
  | ok data =>
      rw [opened] at eq
      unfold acquire at eq
      rcases answered : kernel.descriptor s.world with ⟨error | fd, next⟩
      · simp [answered, Except.map] at eq
      · simp only [answered, Except.map, Except.ok.injEq] at eq
        rw [← eq]

/-- The answer shows the file of the path, if there is one. -/
def ShowsPath (fs : FileSystem) (path : Path) (answer : Option MmapFile) : Prop :=
  ∀ file, answer = some file → ∃ data, fs.openReadOnly path = .ok data ∧ file.Shows data.bytes

theorem showsPath_none : ShowsPath fs path none := fun _ eq => by cases eq

theorem openUnix_gives : Gives (openUnix kernel fs path) (ShowsPath fs path) := by
  refine Gives.bind openReadOnly_gives ?_
  rintro (error | ⟨fd, data⟩) opened
  · exact Gives.pure showsPath_none
  have source := opened (fd, data) rfl
  refine Gives.bind Gives.any ?_
  rintro (_ | _) -
  · exact Gives.bind Gives.any fun _ _ => Gives.pure showsPath_none
  · change Gives (if data.len = 0 then _ else _) _
    by_cases empty : data.len = 0
    · rw [if_pos empty]
      refine Gives.bind Gives.any fun _ _ => Gives.pure ?_
      rintro file ⟨⟩
      have nothing : data.bytes = [] := List.length_eq_zero_iff.mp empty
      exact ⟨data, source, nothing.symm, fun _ => nothing⟩
    · rw [if_neg empty]
      refine Gives.bind Gives.any ?_
      rintro (error | ptr) -
      · exact Gives.bind Gives.any fun _ _ => Gives.pure showsPath_none
      · refine Gives.pure ?_
        rintro file ⟨⟩
        exact ⟨data, source, rfl, fun null => absurd null ptr.2⟩

/-- What `MmapFile::open` maps is what the abstract opening serves. -/
theorem MmapFile.open_gives :
    Gives (MmapFile.open kernel fs path) fun answer => ∀ file, answer = some file →
      ∃ data, mmapFileOpen fs path = some data ∧ file.Shows data.bytes := by
  unfold MmapFile.open mmapFileOpen
  cases probeMmapEligible fs path with
  | error error =>
      refine Gives.pure ?_
      rintro file ⟨⟩
  | ok _ =>
      intro s file eq
      obtain ⟨data, opened, shows_⟩ := openUnix_gives s file eq
      refine ⟨data, ?_, shows_⟩
      dsimp only
      rw [opened]
      rfl

/-- Behind the gate, what is opened is what the path serves. -/
theorem served_of_openReadOnly {data : Slice} (passes : probeMmapEligible fs path = .ok ())
    (opened : fs.openReadOnly path = .ok data) : served fs path = .ok data := by
  rw [← probe_openReadOnly_eq, passes]
  exact opened

theorem served_of_mmapFileOpen {data : Slice} (mapped : mmapFileOpen fs path = some data) :
    served fs path = .ok data := by
  apply mmapFileOpenPath_ok_iff.mp
  unfold mmapFileOpenPath
  cases passes : probeMmapEligible fs path with
  | error error =>
      rw [mmapFileOpen, passes] at mapped
      cases mapped
  | ok _ =>
      rw [mapped]
      rfl

variable (kernel fs path) in
theorem MmapFile.openPath_gives :
    Gives (MmapFile.openPath kernel fs path) fun answer => ∀ file, answer = .ok file →
      ∃ data, served fs path = .ok data ∧ file.Shows data.bytes := by
  unfold MmapFile.openPath
  cases probeMmapEligible fs path with
  | error error =>
      refine Gives.pure ?_
      rintro file ⟨⟩
  | ok _ =>
      refine Gives.bind MmapFile.open_gives ?_
      rintro (_ | opened) shows_
      · refine Gives.pure ?_
        rintro file ⟨⟩
      · refine Gives.pure ?_
        rintro file ⟨⟩
        obtain ⟨data, found, shown⟩ := shows_ _ rfl
        exact ⟨data, served_of_mmapFileOpen found, shown⟩

variable (kernel fs path) in
theorem WindowedHandle.openPath_gives {windowBytes : Nat} (window_le : windowBytes ≤ usizeMax) :
    Gives (WindowedHandle.openPath kernel fs path windowBytes window_le) fun answer =>
      ∀ handle, answer = .ok handle → ∃ data, served fs path = .ok data ∧
        handle.file.bytes = data.bytes ∧ handle.view = none := by
  unfold WindowedHandle.openPath
  cases passes : probeMmapEligible fs path with
  | error error =>
      refine Gives.pure ?_
      rintro file ⟨⟩
  | ok _ =>
      by_cases small : windowBytes < viewAlignment
      · dsimp only
        rw [dif_pos small]
        refine Gives.pure ?_
        rintro file ⟨⟩
      dsimp only
      rw [dif_neg small]
      refine Gives.bind openReadOnly_gives ?_
      rintro (error | ⟨fd, data⟩) opened
      · refine Gives.pure ?_
        rintro file ⟨⟩
      refine Gives.bind Gives.any ?_
      rintro (_ | _) -
      · refine Gives.bind Gives.any fun _ _ => Gives.pure ?_
        rintro file ⟨⟩
      · refine Gives.pure ?_
        rintro file ⟨⟩
        exact ⟨data, served_of_openReadOnly passes (opened _ rfl), rfl, rfl⟩

end Shown

/-- Every view a windowed file caches is one of its file. -/
def WindowedHandle.Within (handle : WindowedHandle) : Prop :=
  ∀ view ∈ handle.view, view.Within handle.file

/-- What a read of the bytes at `offset` into `out` may return. -/
def ReadOk (bytes : List UInt8) (offset : Nat) (out : List UInt8)
    (r : Except IoError (Nat × List UInt8)) : Prop :=
  ∀ n written, r = .ok (n, written) →
    n = (if out = [] ∨ bytes.length ≤ offset then 0 else min out.length (bytes.length - offset)) ∧
      written.take n = (bytes.drop offset).take n ∧ written.drop n = out.drop n

/-- A read does one of the four things, and turns what is owned. -/
theorem WindowedHandle.readAt_cases {ω : Type} (kernel : Kernel ω) {handle : WindowedHandle}
    (within : handle.Within) (input : Nat × List UInt8) (s : Recorded Resource ω) :
    ∃ r next more, ReadStep (handle.os kernel) handle.file input.1 input.2
        ⟨handle.view, [], s.world⟩ r next ∧
      handle.readAt kernel input s =
        (some (r, ⟨handle.file, next.view, handle.fd⟩), ⟨s.trace ++ more, next.os⟩) ∧
      Turns handle.owned more (WindowedHandle.owned ⟨handle.file, next.view, handle.fd⟩) := by
  obtain ⟨r, next, ran, read⟩ := handle.file.readAt_step (s := ⟨handle.view, [], s.world⟩)
    (handle.os kernel) within input.1 input.2
  refine ⟨r, next, next.events.filterMap Event.action, read, ?_,
    read.turns (ownedDescriptor handle.fd)⟩
  rw [WindowedHandle.readAt, ran]

/-- A read does not panic, is correct, and owns at most one view after it. -/
theorem WindowedHandle.readAt_spec {ω : Type} (kernel : Kernel ω) {handle : WindowedHandle}
    (within : handle.Within) (input : Nat × List UInt8) (s : Recorded Resource ω) :
    ∃ r view, (handle.readAt kernel input s).1 = some (r, ⟨handle.file, view, handle.fd⟩) ∧
      (∀ v ∈ view, v.Within handle.file) ∧ ReadOk handle.file.bytes input.1 input.2 r ∧
      ∀ others, Leaves s (handle.owned + others) →
        Leaves (handle.readAt kernel input s).2
          (WindowedHandle.owned ⟨handle.file, view, handle.fd⟩ + others) := by
  obtain ⟨r, next, more, read, eq, turns⟩ := handle.readAt_cases kernel within input s
  refine ⟨r, next.view, by rw [eq], read.within within, (read.sound).ok, fun others before => ?_⟩
  rw [eq]
  exact before.turns rfl turns

/-! ### Programs -/

/-- A mapped file of either kind, and the path it was opened at. -/
inductive Mapped where
  | whole (path : Path) (file : MmapFile)
  | windowed (path : Path) (handle : WindowedHandle)

def Mapped.owned (_ : Nat) : Mapped → Multiset Resource
  | whole _ file => file.owned
  | windowed _ handle => handle.owned

def Mapped.drop {ω : Type} : Mapped → Sys Resource ω Unit
  | whole _ file => file.drop
  | windowed _ handle => handle.drop

/-- A program: the files that are live, under numbers, and what it took and gave back. -/
structure Program (ω : Type) where
  live : List (Nat × Mapped)
  next : Nat
  sys : Recorded Resource ω

/-- What a program does next. -/
inductive Operation where
  | openPath (path : Path)
  | openWindowed (path : Path) (windowBytes : { n : Nat // n ≤ usizeMax })
  | asBytes (number : Nat)
  | readAt (number offset : Nat) (out : List UInt8)
  | drop (number : Nat)

/-- What it sees of it. -/
inductive Outcome where
  | opened (error : Option IoError)
  | bytes (bytes : List UInt8)
  | read (result : Except IoError (Nat × List UInt8))
  | dropped

section Program

variable {ω : Type}

/-- Keep a file that was opened under the next number. -/
def Program.keep (p : Program ω) (mapped : Mapped) (sys : Recorded Resource ω) : Program ω :=
  ⟨(p.next, mapped) :: p.live, p.next + 1, sys⟩

/-- One operation. There is none on a number that is not live, or not of that kind. -/
def Program.step (kernel : Kernel ω) (fs : FileSystem) (operation : Operation) (p : Program ω) :
    Option (Outcome × Program ω) :=
  match operation with
  | .openPath path =>
      match MmapFile.openPath kernel fs path p.sys with
      | (.ok file, sys) => some (.opened none, p.keep (.whole path file) sys)
      | (.error error, sys) => some (.opened (some error), { p with sys })
  | .openWindowed path windowBytes =>
      match WindowedHandle.openPath kernel fs path windowBytes windowBytes.2 p.sys with
      | (.ok handle, sys) => some (.opened none, p.keep (.windowed path handle) sys)
      | (.error error, sys) => some (.opened (some error), { p with sys })
  | .asBytes number =>
      match takeOut p.live number with
      | some (.whole _ file, _) => some (.bytes file.asBytes.bytes, p)
      | _ => none
  | .readAt number offset out =>
      match takeOut p.live number with
      | some (.windowed path handle, rest) =>
          match handle.readAt kernel (offset, out) p.sys with
          | (some (r, handle), sys) =>
              some (.read r, ⟨(number, .windowed path handle) :: rest, p.next, sys⟩)
          | (none, _) => none
      | _ => none
  | .drop number =>
      match takeOut p.live number with
      | some (mapped, rest) => some (.dropped, ⟨rest, p.next, (mapped.drop p.sys).2⟩)
      | none => none

/-- A program that has not started. -/
def Program.start (world : ω) : Program ω := ⟨[], 0, ⟨[], world⟩⟩

/-- The operation is on a file that is live and of its kind. -/
def Operation.Names (live : List (Nat × Mapped)) : Operation → Prop
  | openPath _ => True
  | openWindowed _ _ => True
  | asBytes number => ∃ path file rest, takeOut live number = some (.whole path file, rest)
  | readAt number _ _ => ∃ path handle rest, takeOut live number = some (.windowed path handle, rest)
  | drop number => ∃ mapped rest, takeOut live number = some (mapped, rest)

/-- The file is one that its path serves. -/
def Mapped.Good (fs : FileSystem) : Mapped → Prop
  | whole path file => ∃ data, served fs path = .ok data ∧ file.Shows data.bytes
  | windowed path handle =>
      handle.Within ∧ ∃ data, served fs path = .ok data ∧ handle.file.bytes = data.bytes

/-- What is read through a file is what its path serves. -/
def Answers (fs : FileSystem) (live : List (Nat × Mapped)) : Operation → Outcome → Prop
  | .asBytes number, .bytes bytes => ∃ path file rest data,
      takeOut live number = some (.whole path file, rest) ∧ served fs path = .ok data ∧
        bytes = data.bytes
  | .readAt number offset out, .read r => ∃ path handle rest data,
      takeOut live number = some (.windowed path handle, rest) ∧ served fs path = .ok data ∧
        ReadOk data.bytes offset out r
  | .openPath path, .opened none => ∃ data, served fs path = .ok data
  | .openWindowed path _, .opened none => ∃ data, served fs path = .ok data
  | _, _ => True

/-- What holds between operations: all that is held is owned by a live file. -/
structure Program.Inv (fs : FileSystem) (p : Program ω) : Prop where
  leaves : Leaves p.sys (total Mapped.owned p.live)
  good : ∀ entry ∈ p.live, entry.2.Good fs

variable {kernel : Kernel ω} {fs : FileSystem} {p p' : Program ω} {operation : Operation}
  {outcome : Outcome}

theorem Program.Inv.start (world : ω) : (Program.start world).Inv fs :=
  ⟨⟨trivial, rfl⟩, fun _ mem => (by cases mem)⟩

/-- A file that is opened is kept with all that opening it took. -/
theorem Program.Inv.keep (inv : p.Inv fs) {mapped : Mapped} {sys : Recorded Resource ω}
    (leaves : Leaves sys (mapped.owned p.next + total Mapped.owned p.live))
    (good : mapped.Good fs) : (p.keep mapped sys).Inv fs :=
  ⟨leaves, List.forall_mem_cons.mpr ⟨good, inv.good⟩⟩

/-- An operation that fails has left nothing behind. -/
theorem Program.Inv.failed (inv : p.Inv fs) {sys : Recorded Resource ω}
    (leaves : Leaves sys (0 + total Mapped.owned p.live)) : ({ p with sys } : Program ω).Inv fs :=
  ⟨zero_add (total Mapped.owned p.live) ▸ leaves, inv.good⟩

theorem Program.openPath_spec (inv : p.Inv fs) (path : Path) :
    ∃ outcome p', p.step kernel fs (.openPath path) = some (outcome, p') ∧ p'.Inv fs ∧
      Answers fs p.live (.openPath path) outcome := by
  have leaves := (MmapFile.openPath_acts kernel fs path).leaves
    (zero_add (total Mapped.owned p.live) ▸ inv.leaves)
  have gives := MmapFile.openPath_gives kernel fs path p.sys
  unfold Program.step
  dsimp only
  generalize MmapFile.openPath kernel fs path p.sys = ran at leaves gives
  obtain ⟨error | file, sys⟩ := ran
  · exact ⟨.opened (some error), _, rfl, inv.failed leaves, trivial⟩
  · obtain ⟨data, served_, shows_⟩ := gives file rfl
    exact ⟨_, _, rfl, inv.keep leaves ⟨data, served_, shows_⟩, data, served_⟩

theorem Program.openWindowed_spec (inv : p.Inv fs) (path : Path)
    (windowBytes : { n : Nat // n ≤ usizeMax }) :
    ∃ outcome p', p.step kernel fs (.openWindowed path windowBytes) = some (outcome, p') ∧
      p'.Inv fs ∧ Answers fs p.live (.openWindowed path windowBytes) outcome := by
  have leaves := (WindowedHandle.openPath_acts kernel fs path windowBytes.2).leaves
    (zero_add (total Mapped.owned p.live) ▸ inv.leaves)
  have gives := WindowedHandle.openPath_gives kernel fs path windowBytes.2 p.sys
  unfold Program.step
  dsimp only
  generalize WindowedHandle.openPath kernel fs path windowBytes windowBytes.2 p.sys = ran
    at leaves gives
  obtain ⟨error | handle, sys⟩ := ran
  · exact ⟨.opened (some error), _, rfl, inv.failed leaves, trivial⟩
  · obtain ⟨data, served_, bytes, none_⟩ := gives handle rfl
    have within : handle.Within := by
      intro view mem
      rw [none_] at mem
      cases mem
    exact ⟨_, _, rfl, inv.keep leaves ⟨within, data, served_, bytes⟩, data, served_⟩

theorem Program.readAt_spec (inv : p.Inv fs) {number offset : Nat} {out : List UInt8}
    {path : Path} {handle : WindowedHandle} {rest : List (Nat × Mapped)}
    (found : takeOut p.live number = some (.windowed path handle, rest)) :
    ∃ outcome p', p.step kernel fs (.readAt number offset out) = some (outcome, p') ∧ p'.Inv fs ∧
      Answers fs p.live (.readAt number offset out) outcome := by
  obtain ⟨mem, kept⟩ := mem_of_takeOut found
  obtain ⟨within, data, served_, bytes⟩ := inv.good _ mem
  obtain ⟨r, view, value, withinAfter, ok, leaves⟩ :=
    handle.readAt_spec kernel within (offset, out) p.sys
  have before := inv.leaves
  rw [total_takeOut found] at before
  have after := leaves _ before
  unfold Program.step
  dsimp only
  rw [found]
  dsimp only
  generalize handle.readAt kernel (offset, out) p.sys = ran at value after
  obtain ⟨result, sys⟩ := ran
  cases value
  refine ⟨_, _, rfl, ⟨after, List.forall_mem_cons.mpr ⟨?_, fun e m => inv.good e (kept e m)⟩⟩,
    path, handle, rest, data, found, served_, bytes ▸ ok⟩
  exact ⟨withinAfter, data, served_, bytes⟩

variable (kernel) in
/-- One operation on live files has an outcome, answers right and keeps the invariant. -/
theorem Program.step_spec (inv : p.Inv fs) (names : operation.Names p.live) :
    ∃ outcome p', p.step kernel fs operation = some (outcome, p') ∧ p'.Inv fs ∧
      Answers fs p.live operation outcome := by
  cases operation with
  | openPath path => exact Program.openPath_spec inv path
  | openWindowed path windowBytes => exact Program.openWindowed_spec inv path windowBytes
  | asBytes number =>
      obtain ⟨path, file, rest, found⟩ := names
      obtain ⟨data, served_, shows_⟩ := inv.good _ (mem_of_takeOut found).1
      refine ⟨.bytes file.asBytes.bytes, p, ?_, inv, path, file, rest, data, found, served_,
        shows_.asBytes_bytes⟩
      rw [Program.step, found]
  | readAt number offset out =>
      obtain ⟨path, handle, rest, found⟩ := names
      exact Program.readAt_spec inv found
  | drop number =>
      obtain ⟨mapped, rest, found⟩ := names
      have before := inv.leaves
      rw [total_takeOut found] at before
      have after : Leaves (mapped.drop p.sys).2 (0 + total Mapped.owned rest) := by
        cases mapped with
        | whole path file => exact file.drop_acts.leaves before
        | windowed path handle => exact handle.drop_acts.leaves before
      rw [zero_add] at after
      refine ⟨.dropped, ⟨rest, p.next, (mapped.drop p.sys).2⟩, ?_,
        ⟨after, fun e m => inv.good e ((mem_of_takeOut found).2 e m)⟩, trivial⟩
      rw [Program.step, found]

/-- An operation on anything else has none. -/
theorem Program.names_of_step (stepped : p.step kernel fs operation = some (outcome, p')) :
    operation.Names p.live := by
  unfold Program.step at stepped
  cases operation with
  | openPath path => trivial
  | openWindowed path windowBytes => trivial
  | asBytes number =>
      dsimp only at stepped
      split at stepped
      · rename_i path file rest found
        exact ⟨path, file, rest, found⟩
      · cases stepped
  | readAt number offset out =>
      dsimp only at stepped
      split at stepped
      · rename_i path handle rest found
        exact ⟨path, handle, rest, found⟩
      · cases stepped
  | drop number =>
      dsimp only at stepped
      split at stepped
      · rename_i mapped rest found
        exact ⟨mapped, rest, found⟩
      · cases stepped

/-- Different pages do not overlap. -/
def Apart : Resource → Resource → Prop
  | .pages ptr len, .pages ptr' len' => ptr + len ≤ ptr' ∨ ptr' + len' ≤ ptr
  | _, _ => True

theorem Apart.symm (a b : Resource) (apart : Apart a b) : Apart b a := by
  cases a with
  | descriptor fd => cases b <;> trivial
  | box ptr => cases b <;> trivial
  | pages ptr len =>
      cases b with
      | descriptor fd => trivial
      | box ptr => trivial
      | pages ptr' len' => exact Or.symm apart

abbrev ProgramCall (ω : Type) := Call Operation (Program ω) Outcome

/-- What holds after a run: the invariant, and every call answered right. -/
theorem Program.run_inv {world : ω} {calls : List (ProgramCall ω)}
    (run : Run (Program.step kernel fs) (Program.start world) calls p) :
    p.Inv fs ∧ ∀ call ∈ calls, Answers fs call.before.live call.input call.outcome := by
  induction run with
  | start => exact ⟨.start world, fun _ mem => (by cases mem)⟩
  | call _ stepped ih =>
      obtain ⟨inv, answers⟩ := ih
      obtain ⟨outcome, next, stepped', inv', answer⟩ :=
        Program.step_spec kernel inv (Program.names_of_step stepped)
      cases stepped.symm.trans stepped'
      exact ⟨inv', List.forall_mem_append.mpr ⟨answers, List.forall_mem_singleton.mpr answer⟩⟩

end Program

/-- **Mapped files own what was taken for them.** In every run of a program that opens, reads
and drops files in any order, whatever the system refuses: nothing is given back that is not
held, all that is held is owned by a file that is live, so that a failed opening leaves nothing
behind and a program that dropped all its files holds nothing. No operation on a live file
panics, and what is read through it is what its path serves. Of a system that keeps apart what
it gives, the pages of live files never overlap and no descriptor is shared. -/
theorem mapped_files_owned {ω : Type} (kernel : Kernel ω) (fs : FileSystem) (world : ω)
    (calls : List (ProgramCall ω)) (p : Program ω)
    (run : Run (Program.step kernel fs) (Program.start world) calls p) :
    Proper p.sys.trace ∧ after 0 p.sys.trace = total Mapped.owned p.live ∧
    (∀ operation, (∃ next, p.step kernel fs operation = some next) ↔ operation.Names p.live) ∧
    (∀ call ∈ calls, Answers fs call.before.live call.input call.outcome) ∧
    (Honest (Fresh Apart) p.sys.trace → Separate Apart (total Mapped.owned p.live)) := by
  obtain ⟨inv, answers⟩ := Program.run_inv run
  refine ⟨inv.leaves.proper, inv.leaves.held_eq, fun operation => ?_, answers, fun honest => ?_⟩
  · constructor
    · rintro ⟨⟨outcome, next⟩, stepped⟩
      exact Program.names_of_step stepped
    · intro names
      obtain ⟨outcome, next, stepped, -⟩ := Program.step_spec kernel inv names
      exact ⟨_, stepped⟩
  · rw [← inv.leaves.held_eq]
    exact honest.separate Apart.symm

/-- A system that counts up. -/
def countingKernel : Kernel Nat where
  descriptor n := (.ok (n + 3), n + 1)
  lseek _ n := (true, n)
  mmap _ _ _ n := (.ok ⟨viewAlignment * (n + 1), Nat.mul_ne_zero (by decide) n.succ_ne_zero⟩, n + 1)
  alloc n := (⟨n + 1, n.succ_ne_zero⟩, n + 1)

theorem twoBytes_fit : ([104, 105] : List UInt8).length ≤ isizeMax := by decide

/-- Two bytes at one path. -/
def twoBytes : FileSystem := fun path =>
  if path = "a" then .entry (.readable ⟨1, [104, 105], twoBytes_fit⟩) else .missing

/-- A program that opened it. -/
def openedOnce : Program Nat where
  live := [(0, .whole "a" ⟨2 * viewAlignment, [104, 105], twoBytes_fit, 3⟩)]
  next := 1
  sys := ⟨[.acquired (.descriptor 3), .acquired (.pages (2 * viewAlignment) 2)], 2⟩

/-- A program that opened it twice. -/
def openedTwice : Program Nat where
  live := (1, .whole "a" ⟨4 * viewAlignment, [104, 105], twoBytes_fit, 5⟩) :: openedOnce.live
  next := 2
  sys := ⟨openedOnce.sys.trace ++
    [.acquired (.descriptor 5), .acquired (.pages (4 * viewAlignment) 2)], 4⟩

theorem mapped_files_owned_twice : Separate Apart (total Mapped.owned openedTwice.live) := by
  have first : Program.step countingKernel twoBytes (.openPath "a") (.start 0) =
      some (.opened none, openedOnce) := rfl
  have second : Program.step countingKernel twoBytes (.openPath "a") openedOnce =
      some (.opened none, openedTwice) := rfl
  have run := (Run.start.call first).call second
  apply (mapped_files_owned countingKernel twoBytes 0 _ _ run).2.2.2.2
  simp [openedTwice, openedOnce, Honest, Along, Granted, Fresh, Apart, hold, viewAlignment]

end Mmap
