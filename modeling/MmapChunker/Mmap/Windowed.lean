import MmapChunker.Source.ByteSource
import MmapChunker.Theory.Run

/-!
The windowed mapping (`WindowedMmapFile` in `src/mmap.rs`).

A read is served from the cached view when that holds the whole request, else from a
fresh view that replaces it. What a view shows is the file; whether a mapping request
is granted is up to the operating system, which is a parameter with a state of its own.

Additions on `u64`, and the copies out of a view, are checked: a call that overflowed
or read outside its view would have no outcome. Every request, copy and unmapping is
recorded, in order. `ReadStep` says all a call can do; `reads_correct` is what follows
for every sequence of reads.
-/

namespace Mmap

open Machine Exec Source Calls

/-! ### Source -/

/-- `VIEW_ALIGNMENT`. -/
def viewAlignment : Nat := 65536

/-- `WindowView`. -/
structure WindowView where
  ptr : Nat
  alignedStart : Nat
  mappedLen : Nat
  deriving Repr, DecidableEq

/-- A system call of the windowed file, or a copy out of a view. -/
inductive Event where
  | refused (alignedStart mappedLen : Nat)
  | mapped (view : WindowView)
  | copied (view : WindowView) (relative count : Nat)
  | unmapped (view : WindowView)
  deriving Repr, DecidableEq

/-- The operating system: `mmap offset length` is an address or an error. -/
structure Os (ω : Type) where
  mmap : Nat → Nat → ω → Except IoError Nat × ω

/-- `WindowedMmapFile`, opened: the bytes behind the descriptor and the window size.
The size comes from `lseek`, an `i64`. -/
structure WindowedMmapFile where
  bytes : List UInt8
  windowBytes : Nat
  size_le : bytes.length ≤ isizeMax
  window_ge : viewAlignment ≤ windowBytes
  window_le : windowBytes ≤ usizeMax

/-- The content of `view`, the events so far, and the state of the system. -/
structure ViewState (ω : Type) where
  view : Option WindowView
  events : List Event
  os : ω
  deriving Repr, DecidableEq

/-- Nothing is mapped after `open_path`. -/
def opened {ω : Type} (os : ω) : ViewState ω := ⟨none, [], os⟩

namespace WindowedMmapFile

def size (file : WindowedMmapFile) : Nat := file.bytes.length

/-- `from_raw_parts(view.ptr.add(relative), n)`: `none` when it is not inside the view.
A view shows the file. -/
def rawParts (file : WindowedMmapFile) (view : WindowView) (relative n : Nat) :
    Option (List UInt8) :=
  if relative + n ≤ view.mappedLen then
    some ((file.bytes.drop (view.alignedStart + relative)).take n)
  else none

/-- The hit test: the cached view and the place of the request in it. -/
def cachedHit (cached : Option WindowView) (offset n : Nat) : Option (Option (WindowView × Nat)) :=
  match cached with
  | none => some none
  | some view => do
      let viewEnd ← addU64 view.alignedStart view.mappedLen
      let requestEnd ← addU64 offset n
      if view.alignedStart ≤ offset ∧ requestEnd ≤ viewEnd then
        return some (view, ← subU64 offset view.alignedStart)
      else return none

/-- The aligned start, the slack and the length of the view mapped on a miss. -/
def layout (file : WindowedMmapFile) (offset n : Nat) : Option (Nat × Nat × Nat) := do
  let alignedStart := offset / viewAlignment * viewAlignment
  let slack ← subU64 offset alignedStart
  let needed ← addU64 slack n
  let desired := max (saturatingAdd file.windowBytes slack) needed
  let rest ← subU64 file.size alignedStart
  return (alignedStart, slack, min desired rest)

section Operations

variable {ω : Type}

/-- `map_view`. -/
def mapView (os : Os ω) (alignedStart mappedLen : Nat) : Exec (ViewState ω) IoError WindowView := do
  if mappedLen = 0 then throw ⟨.invalidInput, "empty view"⟩
  if isizeMax < alignedStart then throw ⟨.invalidInput, "offset exceeds i64"⟩
  step fun s =>
    match os.mmap alignedStart mappedLen s.os with
    | (.error error, next) =>
        (.error error, ⟨s.view, s.events ++ [.refused alignedStart mappedLen], next⟩)
    | (.ok ptr, next) =>
        (.ok ⟨ptr, alignedStart, mappedLen⟩,
          ⟨s.view, s.events ++ [.mapped ⟨ptr, alignedStart, mappedLen⟩], next⟩)

/-- `out[..n].copy_from_slice(source)` with the `n` bytes at `relative` of the view. -/
def copyOut (file : WindowedMmapFile) (view : WindowView) (relative n : Nat) (out : List UInt8) :
    Exec (ViewState ω) IoError (List UInt8) := do
  let source ← orPanic (file.rawParts view relative n)
  step fun s => (.ok (), ⟨s.view, s.events ++ [.copied view relative n], s.os⟩)
  orPanic (if n ≤ out.length ∧ source.length = n then some (source ++ out.drop n) else none)

/-- `guard.replace(view)`, and `unmap_view` on what was there. -/
def replaceView (view : WindowView) : Exec (ViewState ω) IoError Unit :=
  step fun s => (.ok (), ⟨some view, s.events ++ (s.view.map Event.unmapped).toList, s.os⟩)

/-- `read_at` past the cached view. -/
def remap (os : Os ω) (file : WindowedMmapFile) (offset n : Nat) (out : List UInt8) :
    Exec (ViewState ω) IoError (Nat × List UInt8) := do
  let (alignedStart, slack, mappedLen) ← orPanic (file.layout offset n)
  let view ← mapView os alignedStart mappedLen
  let out ← file.copyOut view slack n out
  replaceView view
  return (n, out)

/-- `read_at`: the count, and `out` afterwards. -/
def readAt (os : Os ω) (file : WindowedMmapFile) (offset : Nat) (out : List UInt8) :
    Exec (ViewState ω) IoError (Nat × List UInt8) := do
  if out = [] ∨ file.size ≤ offset then return (0, out)
  let n := min out.length (file.size - offset)
  let cached ← step fun s => (.ok s.view, s)
  match ← orPanic (cachedHit cached offset n) with
  | some (view, relative) => return (n, ← file.copyOut view relative n out)
  | none => remap os file offset n out

/-- `read_at` as a step: the input is the offset and the buffer. -/
def readStep (os : Os ω) (file : WindowedMmapFile) (input : Nat × List UInt8) (s : ViewState ω) :
    Option (Except IoError (Nat × List UInt8) × ViewState ω) :=
  runFrom (file.readAt os input.1 input.2) s

end Operations

end WindowedMmapFile

/-! ### What a read can do -/

/-- Where the view for a request at `offset` starts. -/
def viewStart (offset : Nat) : Nat := offset / viewAlignment * viewAlignment

/-- How many bytes the view for `n` bytes at `offset` has. -/
def viewLen (file : WindowedMmapFile) (offset n : Nat) : Nat :=
  min (offset % viewAlignment + max file.windowBytes n) (file.size - viewStart offset)

/-- How many bytes a read of `out` at `offset` is after. -/
def count (file : WindowedMmapFile) (offset : Nat) (out : List UInt8) : Nat :=
  min out.length (file.size - offset)

/-- The bytes of the file at `offset`, in place of the first `n` of `out`. -/
def filled (file : WindowedMmapFile) (offset n : Nat) (out : List UInt8) : List UInt8 :=
  (file.bytes.drop offset).take n ++ out.drop n

/-- A mapping request is aligned, not empty and inside the file. -/
structure InFile (file : WindowedMmapFile) (alignedStart mappedLen : Nat) : Prop where
  aligned : viewAlignment ∣ alignedStart
  nonempty : 0 < mappedLen
  le_size : alignedStart + mappedLen ≤ file.size

/-- The view is one the file could map. -/
abbrev WindowView.Within (view : WindowView) (file : WindowedMmapFile) : Prop :=
  InFile file view.alignedStart view.mappedLen

/-- The view holds `[offset, offset + n)`. -/
structure WindowView.Covers (view : WindowView) (offset n : Nat) : Prop where
  start_le : view.alignedStart ≤ offset
  le_end : offset + n ≤ view.alignedStart + view.mappedLen

section ReadStep

variable {ω : Type}

/-- The four things a read can do: nothing is to be read, the cached view has it, the
system refuses a view, or a new view replaces the cached one. -/
inductive ReadStep (os : Os ω) (file : WindowedMmapFile) (offset : Nat) (out : List UInt8)
    (s : ViewState ω) : Except IoError (Nat × List UInt8) → ViewState ω → Prop where
  | idle (nothing : out = [] ∨ file.size ≤ offset) : ReadStep os file offset out s (.ok (0, out)) s
  | hit {view : WindowView} (something : ¬(out = [] ∨ file.size ≤ offset))
      (cached : s.view = some view) (covers : view.Covers offset (count file offset out)) :
      ReadStep os file offset out s
        (.ok (count file offset out, filled file offset (count file offset out) out))
        ⟨s.view, s.events ++
          [.copied view (offset - view.alignedStart) (count file offset out)], s.os⟩
  | refused {error : IoError} {next : ω} (something : ¬(out = [] ∨ file.size ≤ offset))
      (miss : ∀ view ∈ s.view, ¬view.Covers offset (count file offset out))
      (answer : os.mmap (viewStart offset) (viewLen file offset (count file offset out)) s.os =
        (.error error, next)) :
      ReadStep os file offset out s (.error error)
        ⟨s.view, s.events ++
          [.refused (viewStart offset) (viewLen file offset (count file offset out))], next⟩
  | mapped {ptr : Nat} {next : ω} {view : WindowView} (something : ¬(out = [] ∨ file.size ≤ offset))
      (miss : ∀ view ∈ s.view, ¬view.Covers offset (count file offset out))
      (answer : os.mmap (viewStart offset) (viewLen file offset (count file offset out)) s.os =
        (.ok ptr, next))
      (fresh : view = ⟨ptr, viewStart offset, viewLen file offset (count file offset out)⟩) :
      ReadStep os file offset out s
        (.ok (count file offset out, filled file offset (count file offset out) out))
        ⟨some view, s.events ++ (.mapped view ::
          .copied view (offset % viewAlignment) (count file offset out) ::
          (s.view.map Event.unmapped).toList), next⟩

variable {os : Os ω} {file : WindowedMmapFile} {offset n : Nat} {out : List UInt8}
  {s : ViewState ω} {view : WindowView}

theorem viewStart_add (offset : Nat) : viewStart offset + offset % viewAlignment = offset :=
  Nat.div_add_mod' offset viewAlignment

theorem viewStart_le (offset : Nat) : viewStart offset ≤ offset :=
  Nat.div_mul_le_self offset viewAlignment

/-- The view for a request is aligned, not empty and inside the file. -/
theorem inFile_view (inFile : offset < file.size) :
    InFile file (viewStart offset) (viewLen file offset n) := by
  have le := viewStart_le offset
  have window := file.window_ge
  refine ⟨Nat.dvd_mul_left _ _, ?_, ?_⟩
  · unfold viewLen
    unfold viewAlignment at window
    omega
  · unfold viewLen
    omega

/-- The view for a request holds it. -/
theorem le_viewLen (inFile : offset + n ≤ file.size) :
    offset % viewAlignment + n ≤ viewLen file offset n := by
  have start := viewStart_add offset
  unfold viewLen
  omega

namespace WindowedMmapFile

theorem cachedHit_of_covers (within : view.Within file) (inFile : offset + n ≤ file.size)
    (covers : view.Covers offset n) :
    cachedHit (some view) offset n = some (some (view, offset - view.alignedStart)) := by
  have small : file.size ≤ usizeMax := file.size_le.trans isizeMax_lt_usizeMax.le
  have le := within.le_size
  rw [cachedHit, addU64_eq (by omega), addU64_eq (by omega), subU64_eq covers.start_le]
  exact if_pos ⟨covers.start_le, covers.le_end⟩

theorem cachedHit_of_miss {cached : Option WindowView} (within : ∀ view ∈ cached, view.Within file)
    (inFile : offset + n ≤ file.size) (miss : ∀ view ∈ cached, ¬view.Covers offset n) :
    cachedHit cached offset n = some none := by
  have small : file.size ≤ usizeMax := file.size_le.trans isizeMax_lt_usizeMax.le
  cases cached with
  | none => rfl
  | some view =>
      have le := (within view rfl).le_size
      rw [cachedHit, addU64_eq (by omega), addU64_eq (by omega)]
      exact if_neg fun both => miss view rfl ⟨both.1, both.2⟩

theorem layout_eq (inFile : offset < file.size) (le : n ≤ file.size - offset) :
    file.layout offset n =
      some (viewStart offset, offset % viewAlignment, viewLen file offset n) := by
  have small : file.size ≤ usizeMax := file.size_le.trans isizeMax_lt_usizeMax.le
  have start := viewStart_add offset
  have slack : offset - viewStart offset = offset % viewAlignment := by omega
  have clamp : min (max (saturatingAdd file.windowBytes (offset % viewAlignment))
      (offset % viewAlignment + n)) (file.size - viewStart offset) = viewLen file offset n := by
    unfold viewLen saturatingAdd
    omega
  rw [layout, ← viewStart, subU64_eq (viewStart_le offset), slack, Option.bind_eq_bind,
    Option.bind_some, addU64_eq (by omega), Option.bind_some, subU64_eq (by omega), ← clamp]
  rfl

theorem mapView_eq {alignedStart mappedLen : Nat} (nonempty : 0 < mappedLen)
    (near : alignedStart ≤ isizeMax) :
    mapView os alignedStart mappedLen = step fun s =>
      match os.mmap alignedStart mappedLen s.os with
      | (.error error, next) =>
          (.error error, ⟨s.view, s.events ++ [.refused alignedStart mappedLen], next⟩)
      | (.ok ptr, next) =>
          (.ok ⟨ptr, alignedStart, mappedLen⟩,
            ⟨s.view, s.events ++ [.mapped ⟨ptr, alignedStart, mappedLen⟩], next⟩) := by
  rw [mapView, if_neg nonempty.ne', if_neg (Nat.not_lt.mpr near)]

/-- A copy from inside a view reads the file. -/
theorem copyOut_run (within : view.Within file) {relative : Nat}
    (inView : relative + n ≤ view.mappedLen) (room : n ≤ out.length) :
    runFrom (file.copyOut view relative n out) s =
      some (.ok (filled file (view.alignedStart + relative) n out),
        ⟨s.view, s.events ++ [.copied view relative n], s.os⟩) := by
  have le := within.le_size
  have length : ((file.bytes.drop (view.alignedStart + relative)).take n).length = n := by
    unfold size at le
    rw [List.length_take, List.length_drop]
    omega
  rw [copyOut, rawParts, if_pos inView, orPanic_some, pure_bind, runFrom_bind, runFrom_step]
  dsimp only
  rw [if_pos ⟨room, length⟩]
  rfl

/-- A read always has an outcome, and does one of four things. -/
theorem readAt_step (os : Os ω) (within : ∀ view ∈ s.view, view.Within file) (offset : Nat)
    (out : List UInt8) :
    ∃ r s', readStep os file (offset, out) s = some (r, s') ∧
      ReadStep os file offset out s r s' := by
  rw [readStep, readAt]
  by_cases nothing : out = [] ∨ file.size ≤ offset
  · rw [if_pos nothing]
    exact ⟨_, _, rfl, ReadStep.idle nothing⟩
  have inFile : offset < file.size := by
    by_contra past
    exact nothing (.inr (Nat.not_lt.mp past))
  have inFile' : offset + count file offset out ≤ file.size := by
    unfold count
    omega
  have room : count file offset out ≤ out.length := Nat.min_le_left _ _
  have countLe : count file offset out ≤ file.size - offset := Nat.min_le_right _ _
  rw [if_neg nothing, ← count]
  dsimp only
  rw [runFrom_bind, runFrom_step]
  dsimp only
  by_cases covered : ∃ view ∈ s.view, view.Covers offset (count file offset out)
  · obtain ⟨view, cached, covers⟩ := covered
    have relative : view.alignedStart + (offset - view.alignedStart) = offset :=
      Nat.add_sub_cancel' covers.start_le
    have inView := covers.le_end
    refine ⟨_, _, ?_, ReadStep.hit nothing cached covers⟩
    rw [cached, cachedHit_of_covers (within view cached) inFile' covers, orPanic_some, pure_bind,
      runFrom_bind, copyOut_run (within view cached) (by omega) room, relative, cached]
    rfl
  · have miss : ∀ view ∈ s.view, ¬view.Covers offset (count file offset out) :=
      fun view cached covers => covered ⟨view, cached, covers⟩
    have fresh := inFile_view (n := count file offset out) inFile
    have near : viewStart offset ≤ isizeMax := by
      have le := viewStart_le offset
      have size := file.size_le
      unfold WindowedMmapFile.size at inFile
      omega
    rw [cachedHit_of_miss within inFile' miss, orPanic_some, pure_bind]
    dsimp only
    rw [remap, layout_eq inFile countLe, orPanic_some, pure_bind]
    dsimp only
    rw [runFrom_bind, mapView_eq fresh.nonempty near, runFrom_step]
    rcases answer : os.mmap (viewStart offset) (viewLen file offset (count file offset out)) s.os
      with ⟨error | ptr, next⟩
    · exact ⟨_, _, rfl, ReadStep.refused nothing miss answer⟩
    · refine ⟨_, _, ?_, ReadStep.mapped nothing miss answer rfl⟩
      dsimp only
      rw [runFrom_bind, copyOut_run fresh (le_viewLen inFile') room]
      dsimp only
      rw [viewStart_add, replaceView, runFrom_bind, runFrom_step]
      simp

end WindowedMmapFile

end ReadStep

/-! ### Every sequence of reads -/

section Reads

variable {ω : Type} {os : Os ω} {file : WindowedMmapFile} {offset : Nat} {out : List UInt8}
  {s s' : ViewState ω} {r : Except IoError (Nat × List UInt8)}

/-- A mapping request is for a part of the file; a copy stays inside its view. -/
def EventOk (file : WindowedMmapFile) : Event → Prop
  | .refused alignedStart mappedLen => InFile file alignedStart mappedLen
  | .mapped view => view.Within file
  | .copied view relative n => relative + n ≤ view.mappedLen
  | .unmapped _ => True

/-- A read is correct when it succeeds, and keeps the cached view when it fails. -/
structure Sound (file : WindowedMmapFile)
    (call : Call (Nat × List UInt8) (ViewState ω) (Except IoError (Nat × List UInt8))) : Prop where
  ok : ∀ n written, call.outcome = .ok (n, written) →
    n = (if call.input.2 = [] ∨ file.size ≤ call.input.1 then 0
      else min call.input.2.length (file.size - call.input.1)) ∧
    written.take n = (file.bytes.drop call.input.1).take n ∧
    written.drop n = call.input.2.drop n
  error : ∀ error, call.outcome = .error error → call.after.view = call.before.view

theorem length_take_count (file : WindowedMmapFile) (offset : Nat) (out : List UInt8) :
    ((file.bytes.drop offset).take (count file offset out)).length = count file offset out := by
  rw [List.length_take, List.length_drop]
  unfold count WindowedMmapFile.size
  omega

theorem ReadStep.within (read : ReadStep os file offset out s r s')
    (within : ∀ view ∈ s.view, view.Within file) : ∀ view ∈ s'.view, view.Within file := by
  cases read with
  | idle => exact within
  | hit => exact within
  | refused => exact within
  | mapped something _ _ fresh =>
      intro view mem
      obtain rfl := Option.mem_some.mp mem
      subst fresh
      exact inFile_view (Nat.not_le.mp fun past => something (.inr past))

theorem ReadStep.sound (read : ReadStep os file offset out s r s') :
    Sound file ⟨s, (offset, out), r, s'⟩ := by
  have filledOk : ∀ n written, (count file offset out, filled file offset
      (count file offset out) out) = (n, written) → ¬(out = [] ∨ file.size ≤ offset) →
      n = (if out = [] ∨ file.size ≤ offset then 0 else min out.length (file.size - offset)) ∧
        written.take n = (file.bytes.drop offset).take n ∧ written.drop n = out.drop n := by
    rintro n written eq something
    obtain ⟨rfl, rfl⟩ := Prod.mk.inj eq
    have length := length_take_count file offset out
    rw [if_neg something]
    exact ⟨rfl, List.take_left' length, List.drop_left' length⟩
  cases read with
  | idle nothing =>
      refine ⟨fun n written eq => ?_, fun _ eq => by cases eq⟩
      obtain ⟨rfl, rfl⟩ := Prod.mk.inj (Except.ok.inj eq)
      rw [if_pos nothing]
      exact ⟨rfl, rfl, rfl⟩
  | hit something => exact ⟨fun n written eq => filledOk n written (Except.ok.inj eq) something,
      fun _ eq => by cases eq⟩
  | refused => exact ⟨fun _ _ eq => (by cases eq), fun _ _ => rfl⟩
  | mapped something => exact ⟨fun n written eq => filledOk n written (Except.ok.inj eq) something,
      fun _ eq => by cases eq⟩

theorem ReadStep.events_ok (read : ReadStep os file offset out s r s')
    (before : ∀ event ∈ s.events, EventOk file event) :
    ∀ event ∈ s'.events, EventOk file event := by
  have inFile : ¬(out = [] ∨ file.size ≤ offset) → offset < file.size :=
    fun something => Nat.not_le.mp fun past => something (.inr past)
  cases read with
  | idle => exact before
  | hit something _ covers =>
      intro event mem
      rcases List.mem_append.mp mem with old | new
      · exact before event old
      · obtain rfl := List.mem_singleton.mp new
        have start := covers.start_le
        have stop := covers.le_end
        unfold EventOk
        omega
  | refused something =>
      intro event mem
      rcases List.mem_append.mp mem with old | new
      · exact before event old
      · obtain rfl := List.mem_singleton.mp new
        exact inFile_view (inFile something)
  | mapped something _ _ fresh =>
      subst fresh
      intro event mem
      rcases List.mem_append.mp mem with old | new
      · exact before event old
      rcases List.mem_cons.mp new with rfl | new
      · exact inFile_view (inFile something)
      rcases List.mem_cons.mp new with rfl | new
      · have := inFile something
        refine le_viewLen ?_
        unfold count
        omega
      · obtain ⟨view, _, rfl⟩ := Option.map_eq_some_iff.mp (Option.mem_toList.mp new)
        trivial

/-- **Windowed reads are correct.** Every sequence of reads runs to its end: no addition
overflows. Every read that succeeds is correct, every read that fails keeps the cached
view, every mapping request is aligned, not empty and inside the file, and every copy
stays inside its view; the system may grant or refuse each request as it likes. -/
theorem reads_correct (os : Os ω) (file : WindowedMmapFile) (start : ω)
    (inputs : List (Nat × List UInt8)) :
    ∃ calls s, Run (file.readStep os) (opened start) calls s ∧ calls.map Call.input = inputs ∧
      (∀ call ∈ calls, Sound file call) ∧ ∀ event ∈ s.events, EventOk file event := by
  obtain ⟨calls, s, run, same, _, sound, events⟩ := exists_run (file.readStep os) (opened start)
    (fun calls s => (∀ view ∈ s.view, view.Within file) ∧ (∀ call ∈ calls, Sound file call) ∧
      ∀ event ∈ s.events, EventOk file event)
    ⟨fun _ mem => (by cases mem), fun _ mem => (by cases mem), fun _ mem => (by cases mem)⟩
    (fun calls input before ⟨within, sound, events⟩ => by
      obtain ⟨r, s', stepped, read⟩ := file.readAt_step os within input.1 input.2
      refine ⟨r, s', stepped, read.within within, ?_, read.events_ok events⟩
      rw [List.forall_mem_append, List.forall_mem_singleton]
      exact ⟨sound, read.sound⟩) inputs
  exact ⟨calls, s, run, same, sound, events⟩

end Reads

end Mmap
