import MmapChunker.Cli.Mapped
import MmapChunker.Source.Planner

/-!
`partition-files` over on-demand sources (`src/bin/mmap-chunker.rs`).

`planLogicalPartitionsSourced` stats every path first and opens a source only when a
target falls inside it, at most one at a time. The boundary search is buffered and
tolerates short reads.

A `Backend` is what the planner asks the system for: the length of a path, and a byte
source for it. `Serves` says what a path holds for a backend, a file or a refusal.
`planLogicalPartitionsSourced_ensures` is the general result: the planner computes the
abstract result of the snap that fails on refused paths. When nothing is refused this is
the result of the mapped planner (`sourced_matches_mapped`).
-/

namespace Cli

open Machine Occurrence TargetWalk Tiling Segments Exec Source

/-! ### Source -/

/-- The on-demand side of a source mode: `std::fs::metadata(path)` reduced to the
length, and the `open_path` of the mode. -/
structure Backend (σ : Type) where
  metadata : Path → Except IoError Nat
  openPath : Path → Exec σ IoError (ByteSource σ)

/-- `OpenSourced`. -/
structure OpenSourced (σ : Type) where
  index : Nat
  source : ByteSource σ
  state : BoundarySearchState
  buffer : Slice

/-- The text of an error of `metadata` or `open_path`. -/
def openError (path : Path) (error : IoError) : String :=
  "failed to open " ++ path.display ++ ": " ++ error.message

/-- The text of an error of `read_at`. -/
def readError (path : Path) (error : IoError) : String :=
  "failed to read " ++ path.display ++ ": " ++ error.message

section Source

variable {σ : Type}

/-- The exact-target checks of `next_record_boundary_sourced`: are the `dlen` bytes
before the target a delimiter? `isDelimiter` looks at the start of the buffer. -/
def exactTarget (source : ByteSource σ) (dlen : Nat) (isDelimiter : Slice → Option Bool)
    (target : Nat) (buffer : Slice) : Exec σ IoError (Bool × Slice) := do
  if dlen ≤ target ∧ target ≤ source.len then
    let (filled, buffer) ← fillWindow source (target - dlen) dlen 0 buffer
    if filled = dlen then return (← orPanic (isDelimiter buffer), buffer)
    else return (false, buffer)
  else return (false, buffer)

/-- The search loops of `next_record_boundary_sourced`. For a single byte the window
advances by all that was read, which is `advance filled 1`. -/
def boundaryLoop (source : ByteSource σ) (dlen : Nat) (search : Slice → Option (Option Nat))
    (offset : Nat) (buffer : Slice) : Exec σ IoError (Nat × Slice) := do
  if source.len ≤ offset then return (source.len, buffer)
  let want := min buffer.len (source.len - offset)
  let (filled, buffer) ← fillWindow source offset want 0 buffer
  if filled = 0 then return (source.len, buffer)
  let window ← orPanic (buffer.range 0 filled)
  match ← orPanic (search window) with
  | some relative =>
      return (min (saturatingAdd (saturatingAdd offset relative) dlen) source.len, buffer)
  | none =>
      if source.len ≤ saturatingAdd offset filled then return (source.len, buffer)
      boundaryLoop source dlen search (saturatingAdd offset (advance filled dlen)) buffer
termination_by source.len - offset
decreasing_by
  have small := source.len_le
  have progress : 1 ≤ advance filled dlen := Nat.le_max_right _ _
  unfold saturatingAdd
  omega

/-- A branch of `next_record_boundary_sourced` past the cache: the exact-target check,
then the search loop. -/
def boundaryFrom (source : ByteSource σ) (dlen : Nat) (isDelimiter : Slice → Option Bool)
    (search : Slice → Option (Option Nat)) (target : Nat) (state : BoundarySearchState)
    (buffer : Slice) : Exec σ IoError (Nat × BoundarySearchState × Slice) := do
  let (accepted, buffer) ← exactTarget source dlen isDelimiter target buffer
  if accepted then return (target, ⟨max target state.scanFrom, some target⟩, buffer)
  let scanFrom := max target state.scanFrom
  let (boundary, buffer) ← boundaryLoop source dlen search scanFrom buffer
  return (boundary, ⟨boundary, some boundary⟩, buffer)

/-- `filled >= dlen` and then `find_first_pattern_from`. -/
def searchPattern (delimiter : List UInt8) (window : Slice) : Option (Option Nat) :=
  if delimiter.length ≤ window.len then findFirstPatternFrom window delimiter else return none

/-- `next_record_boundary_sourced`, with the state and the buffer it leaves. -/
def nextRecordBoundarySourced (source : ByteSource σ) (target : Nat) (delimiter : List UInt8)
    (state : BoundarySearchState) (buffer : Slice) (path : Path) :
    Exec σ String (Nat × BoundarySearchState × Slice) :=
  match state.cachedFor target with
  | some cachedBoundary => return (cachedBoundary, state, buffer)
  | none =>
      mapErr (readError path) <|
        if delimiter.length = 1 then do
          let byte ← orPanic delimiter[0]?
          boundaryFrom source 1 (fun buffer => (buffer.index 0).map fun b => b = byte)
            (fun window => return position window byte) target state buffer
        else
          boundaryFrom source delimiter.length
            (fun buffer => (buffer.range 0 delimiter.length).map fun tail => tail.bytes = delimiter)
            (searchPattern delimiter) target state buffer

/-- `vec![0u8; len]`: panics past `isize::MAX`, aborts when the allocator refuses. -/
def zeroedVec (allocate : Nat → Option Nat) (len : Nat) : Option Slice :=
  if fits : len ≤ isizeMax then (allocate len).map fun addr => zeroed addr len fits else none

/-- Open the source with index `sourceIndex` for planning. -/
def openFresh (backend : Backend σ) (allocate : Nat → Option Nat) (path : Path)
    (sourceIndex expectedLen bufferLen : Nat) : Exec σ String (OpenSourced σ) := do
  let source ← mapErr (openError path) (backend.openPath path)
  if (← usizeToU128 source.len) ≠ expectedLen then
    throw ("source length changed during planning: " ++ path.display)
  let buffer ← orPanic (zeroedVec allocate bufferLen)
  return ⟨sourceIndex, source, .initial, buffer⟩

/-- The open source, when it is the one with index `sourceIndex`. -/
def reusable (current : Option (OpenSourced σ)) (sourceIndex : Nat) : Option (OpenSourced σ) :=
  current.filter fun opened => opened.index = sourceIndex

/-- The open source when it is the one the target lies in, else that one, opened; any
other source is dropped first. -/
def reuseOrOpen (backend : Backend σ) (allocate : Nat → Option Nat) (path : Path)
    (sourceIndex expectedLen bufferLen : Nat) (current : Option (OpenSourced σ)) :
    Exec σ String (OpenSourced σ) :=
  match reusable current sourceIndex with
  | some opened => pure opened
  | none => openFresh backend allocate path sourceIndex expectedLen bufferLen

/-- `project_sourced_target`. -/
def projectSourcedTarget (backend : Backend σ) (allocate : Nat → Option Nat)
    (prefixes : List Nat) (paths : List Path) (delimiter : List UInt8) (bufferLen : Nat)
    (target : Nat) (current : Option (OpenSourced σ)) :
    Exec σ String (Nat × Option (OpenSourced σ)) := do
  if target ∈ prefixes then return (target, current)
  let (sourceIndex, sourceStart) ← locateSource target prefixes
  let sourceEnd ← orPanic prefixes[sourceIndex + 1]?
  let expectedLen ← orPanic (subU64 sourceEnd sourceStart)
  let localTarget ← localTarget target sourceStart
  let path ← okOr paths[sourceIndex]? "internal error: target source out of bounds"
  let opened ← reuseOrOpen backend allocate path sourceIndex expectedLen bufferLen current
  let (localBoundary, state, buffer) ←
    nextRecordBoundarySourced opened.source localTarget delimiter opened.state opened.buffer path
  let projected ← orPanic (checkedAddU128 sourceStart (← usizeToU128 localBoundary))
  return (projected, some ⟨opened.index, opened.source, state, buffer⟩)

/-- One iteration of phase 1, for one path. -/
def statStep (backend : Backend σ) (path : Path) (prefixes : List Nat) :
    Exec σ String (ForInStep (List Nat)) := do
  match backend.metadata path with
  | .error error => throw (openError path error)
  | .ok len => pushPrefix len prefixes

/-- `plan_logical_partitions_sourced`. -/
def planLogicalPartitionsSourced (backend : Backend σ) (allocate : Nat → Option Nat)
    (paths : List Path) (requestedParts : Nat) (delimiter : List UInt8) (scanBufferBytes : Nat) :
    Exec σ String (List WorkerAssignment) := do
  if requestedParts = 0 then return []
  let prefixes ← forIn paths [0] (statStep backend)
  planTargets (projectSourcedTarget backend allocate prefixes paths delimiter
      (bufferLen scanBufferBytes delimiter.length))
    none prefixes paths.length requestedParts

end Source

/-! ### The buffered search -/

section Search

variable {σ : Type} {source : ByteSource σ} {inv : σ → Prop} {file delimiter : List UInt8}
  {buffer : Slice} {target : Nat} {state : BoundarySearchState} {s : σ}

theorem exactTarget_returns (conforms : Conforms source inv file)
    (holdsPattern : delimiter.length ≤ buffer.len) {isDelimiter : Slice → Option Bool}
    (tests : ∀ b : Slice, delimiter.length ≤ b.len →
      isDelimiter b = some (decide (b.bytes.take delimiter.length = delimiter)))
    (inside : target ≤ file.length) (good : inv s) :
    Returns (exactTarget source delimiter.length isDelimiter target buffer) s fun p s' =>
      inv s' ∧ p.1 = decide (EndsAt delimiter file target) ∧ p.2.len = buffer.len := by
  have lenEq := conforms.len_eq
  rw [exactTarget]
  by_cases le : delimiter.length ≤ target
  · rw [if_pos ⟨le, by omega⟩]
    refine (fillWindow_returns conforms (Nat.zero_le _) (by omega) holdsPattern
      (holds_zero file _ buffer) good).bind ?_
    rintro ⟨filled, buffer'⟩ s' ⟨good', rfl, sameLen, holds⟩
    dsimp only at sameLen holds ⊢
    rw [if_pos rfl, tests buffer' holds.count_le, orPanic_some, pure_bind, holds.bytes_eq]
    refine Returns.pure ⟨good', ?_, sameLen⟩
    exact decide_eq_decide.mpr (occursAt_iff_take.symm.trans (and_iff_right le).symm)
  · rw [if_neg fun h => le h.1]
    exact Returns.pure ⟨good, (decide_eq_false fun ends => le ends.1).symm, rfl⟩

theorem boundaryLoop_returns (conforms : Conforms source inv file) (ne : delimiter ≠ [])
    (holdsPattern : delimiter.length ≤ buffer.len) {search : Slice → Option (Option Nat)}
    (searches : ∀ w, search w = some (nextOcc delimiter w.bytes 0)) {offset : Nat}
    (good : inv s) :
    Returns (boundaryLoop source delimiter.length search offset buffer) s fun p s' =>
      inv s' ∧ p.1 = ((nextOcc delimiter file offset).map (· + delimiter.length)).getD file.length ∧
        p.2.len = buffer.len := by
  have dlenPos := List.length_pos_of_ne_nil ne
  have small := source.len_le
  have lenEq := conforms.len_eq
  induction left : source.len - offset using Nat.strong_induction_on
    generalizing offset buffer s with
  | _ left ih =>
      rw [boundaryLoop]
      by_cases past : source.len ≤ offset
      · rw [if_pos past, nextOcc_eq_none ne (by omega)]
        exact Returns.pure ⟨good, lenEq, rfl⟩
      rw [if_neg past]
      obtain ⟨want, wantEq⟩ : ∃ want, want = min buffer.len (source.len - offset) := ⟨_, rfl⟩
      rw [← wantEq]
      refine (fillWindow_returns conforms (Nat.zero_le want) (by omega) (by omega)
        (holds_zero file offset buffer) good).bind ?_
      rintro ⟨filled, buffer'⟩ s' ⟨good', rfl, sameLen, holds⟩
      dsimp only at sameLen holds ⊢
      rw [if_neg (by omega), Slice.range_eq (Nat.zero_le _) holds.count_le, orPanic_some,
        pure_bind, searches, orPanic_some, pure_bind, Nat.sub_zero, holds.bytes_window]
      cases found : nextOcc delimiter ((file.drop offset).take filled) 0 with
      | some relative =>
          have hit := nextOcc_of_window_hit ne found
          have first := nextOcc_spec ne file offset
          rw [hit] at first
          have fits := first.2.1.le_length ne
          refine Returns.pure ⟨good', ?_, sameLen⟩
          rw [hit, min_saturatingAdd_saturatingAdd small]
          exact (Nat.min_eq_left (by omega))
      | none =>
          dsimp only
          rw [saturatingAdd_eq (by omega)]
          by_cases last : source.len ≤ offset + filled
          · rw [if_pos last, nextOcc_of_last_window ne found (by omega)]
            exact Returns.pure ⟨good', lenEq, sameLen⟩
          · have step := advance_eq dlenPos (show delimiter.length ≤ filled by omega)
            rw [if_neg last, saturatingAdd_eq (by omega), step,
              nextOcc_of_window_miss ne found (by omega), ← sameLen]
            exact ih _ (by omega) (by omega) good' rfl

/-- Both branches of `next_record_boundary_sourced` compute the snap. -/
theorem boundaryFrom_returns (conforms : Conforms source inv file) (ne : delimiter ≠ [])
    (holdsPattern : delimiter.length ≤ buffer.len) {isDelimiter : Slice → Option Bool}
    {search : Slice → Option (Option Nat)}
    (tests : ∀ b : Slice, delimiter.length ≤ b.len →
      isDelimiter b = some (decide (b.bytes.take delimiter.length = delimiter)))
    (searches : ∀ w, search w = some (nextOcc delimiter w.bytes 0)) (behind : state.Behind target)
    (inside : target ≤ file.length) (good : inv s) :
    Returns (boundaryFrom source delimiter.length isDelimiter search target state buffer) s
      fun p s' => inv s' ∧ p.1 = snapEnd delimiter file target ∧
        p.2.1 = ⟨snapEnd delimiter file target, some (snapEnd delimiter file target)⟩ ∧
        p.2.2.len = buffer.len := by
  have scanFrom : max target state.scanFrom = target := Nat.max_eq_left behind.scanFrom_le
  rw [boundaryFrom]
  refine (exactTarget_returns conforms holdsPattern tests inside good).bind ?_
  rintro ⟨accepted, buffer'⟩ s' ⟨good', rfl, sameLen⟩
  dsimp only at sameLen ⊢
  rw [scanFrom]
  by_cases ends : EndsAt delimiter file target
  · rw [if_pos (decide_eq_true ends), snapEnd, snapEnd?_of_endsAt ends]
    exact Returns.pure ⟨good', rfl, rfl, sameLen⟩
  · rw [if_neg (by simpa using ends)]
    refine (boundaryLoop_returns conforms ne (by omega) searches good').bind ?_
    rintro ⟨boundary, buffer''⟩ s'' ⟨good'', found, sameLen'⟩
    have snap : boundary = snapEnd delimiter file target := by
      rw [snapEnd, snapEnd?_of_not_endsAt ends]
      exact found
    subst snap
    exact Returns.pure ⟨good'', rfl, rfl, sameLen'.trans sameLen⟩

theorem searchPattern_eq (ne : delimiter ≠ []) (window : Slice) :
    searchPattern delimiter window = some (nextOcc delimiter window.bytes 0) := by
  rw [searchPattern]
  split
  · exact findFirstPatternFrom_eq window ne
  · rename_i short
    rw [nextOcc_eq_none ne (by rw [Nat.zero_add]; exact Nat.not_le.mp short)]
    rfl

theorem nextRecordBoundarySourced_returns (conforms : Conforms source inv file)
    (ne : delimiter ≠ []) (holdsPattern : delimiter.length ≤ buffer.len)
    (behind : state.Behind target) (inside : target ≤ file.length) (path : Path) (good : inv s) :
    Returns (nextRecordBoundarySourced source target delimiter state buffer path) s
      fun p s' => inv s' ∧ p.1 = snapEnd delimiter file target ∧
        p.2.1 = ⟨snapEnd delimiter file target, some (snapEnd delimiter file target)⟩ ∧
        p.2.2.len = buffer.len := by
  rw [nextRecordBoundarySourced, behind.cachedFor_eq]
  refine Returns.mapErr ?_
  split
  · rename_i one
    obtain ⟨byte, rfl⟩ := List.length_eq_one_iff.mp one
    rw [List.getElem?_cons_zero, orPanic_some, pure_bind]
    refine boundaryFrom_returns conforms ne holdsPattern (fun b le => ?_)
      (fun w => congrArg some (position_eq w byte)) behind inside good
    unfold Slice.len at le
    cases bytes : b.bytes with
    | nil => simp [bytes] at le
    | cons first rest => simp [Slice.index, bytes]
  · refine boundaryFrom_returns conforms ne holdsPattern (fun b le => ?_) (searchPattern_eq ne)
      behind inside good
    rw [Slice.range_eq (Nat.zero_le _) le]
    rfl

end Search

/-! ### The planner -/

/-- Opening the path yields a source for `bytes`, in every state of `inv`. Reading the
source may use an invariant of its own, as long as it stays within `inv`. -/
def Opens {σ : Type} (backend : Backend σ) (inv : σ → Prop) (path : Path) (bytes : List UInt8) :
    Prop :=
  ∀ s, inv s → Returns (backend.openPath path) s fun source s' =>
    ∃ own : σ → Prop, Conforms source own bytes ∧ own s' ∧ ∀ s, own s → inv s

/-- Opening the path fails, in every state of `inv`. -/
def Refuses {σ : Type} (backend : Backend σ) (inv : σ → Prop) (path : Path) (error : IoError) :
    Prop :=
  ∀ s, inv s → Ensures (backend.openPath path) s fun r _ => r = .error error

/-- What a path of length `len` holds for a backend: a file, or a refusal. -/
def Serves {σ : Type} (backend : Backend σ) (inv : σ → Prop) (path : Path) (len : Nat) :
    Except IoError (List UInt8) → Prop
  | .ok bytes => bytes.length = len ∧ Opens backend inv path bytes
  | .error error => Refuses backend inv path error

/-- The snap inside source `k`: the least record boundary, unless the path is refused. -/
def servedSnap (paths : List Path) (file : Path → Except IoError (List UInt8))
    (delimiter : List UInt8) (k u : Nat) : Except String Nat :=
  match paths[k]? with
  | none => .ok (snapEnd delimiter [] u)
  | some path =>
      match file path with
      | .ok bytes => .ok (snapEnd delimiter bytes u)
      | .error error => .error (openError path error)

section Planner

variable {σ : Type} {backend : Backend σ} {inv : σ → Prop} {paths : List Path}
  {len : Path → Nat} {file : Path → Except IoError (List UInt8)} {delimiter : List UInt8}
  {allocate : Nat → Option Nat} {parts scanBufferBytes : Nat} {s : σ}

/-- Phase 1 computes the prefix sums. -/
theorem stats_eq (stats : ∀ path ∈ paths, backend.metadata path = .ok (len path)) :
    (forIn paths [0] (statStep backend) : Exec σ String (List Nat)) =
      if (paths.map len).sum < 2 ^ 128 then pure (prefixSums (paths.map len))
      else throw "logical dataset is too large" := by
  refine forIn_pushPrefix fun path mem prefixes => ?_
  rw [statStep, stats path mem]

/-- The open source is one the planner opened, and its search state is behind the last
cut. -/
def OpenBehind (inv : σ → Prop) (paths : List Path) (len : Path → Nat)
    (file : Path → Except IoError (List UInt8)) (dlen last : Nat) (opened : OpenSourced σ)
    (s : σ) : Prop :=
  ∃ path bytes, paths[opened.index]? = some path ∧ file path = .ok bytes ∧
    (∃ own : σ → Prop, Conforms opened.source own bytes ∧ own s ∧ ∀ s, own s → inv s) ∧
    dlen ≤ opened.buffer.len ∧
    ∀ u, last < offset (paths.map len) opened.index + u → opened.state.Behind u

/-- The invariant of the target loop. -/
def CurrentBehind (inv : σ → Prop) (paths : List Path) (len : Path → Nat)
    (file : Path → Except IoError (List UInt8)) (dlen last : Nat)
    (current : Option (OpenSourced σ)) (s : σ) : Prop :=
  inv s ∧ ∀ opened ∈ current, OpenBehind inv paths len file dlen last opened s

theorem CurrentBehind.mono {dlen last last' : Nat} {current : Option (OpenSourced σ)}
    (behind : CurrentBehind inv paths len file dlen last current s) (le : last ≤ last') :
    CurrentBehind inv paths len file dlen last' current s := by
  refine ⟨behind.1, fun opened mem => ?_⟩
  obtain ⟨path, bytes, here, served, own, roomy, states⟩ := behind.2 opened mem
  exact ⟨path, bytes, here, served, own, roomy, fun u past => states u (le.trans_lt past)⟩

/-- A refused source is never the open one. -/
theorem not_reusable_of_refused {k dlen last : Nat} {current : Option (OpenSourced σ)}
    {path : Path} {error : IoError}
    (behind : CurrentBehind inv paths len file dlen last current s) (here : paths[k]? = some path)
    (refused : file path = .error error) : reusable current k = none := by
  refine Option.filter_eq_none_iff.mpr fun opened mem index => ?_
  obtain ⟨path', bytes, here', served, _⟩ := behind.2 opened mem
  rw [of_decide_eq_true index, here, Option.some.injEq] at here'
  rw [← here', refused] at served
  cases served

theorem zeroedVec_eq {len : Nat} (allocates : Allocates allocate len) :
    ∃ buffer, zeroedVec allocate len = some buffer ∧ buffer.len = len := by
  obtain ⟨addr, granted⟩ := Option.isSome_iff_exists.mp allocates.granted
  refine ⟨zeroed addr len allocates.fits, ?_, ?_⟩
  · rw [zeroedVec, dif_pos allocates.fits, granted, Option.map_some]
  · unfold Slice.len zeroed
    rw [List.length_replicate]

/-- A path that is served can be opened for planning. -/
theorem openFresh_returns {path : Path} {bytes : List UInt8} {k last : Nat}
    (opens : Opens backend inv path bytes) (here : paths[k]? = some path)
    (served : file path = .ok bytes)
    (allocates : Allocates allocate (bufferLen scanBufferBytes delimiter.length))
    (good : inv s) :
    Returns (openFresh backend allocate path k bytes.length
        (bufferLen scanBufferBytes delimiter.length)) s fun opened s' =>
      opened.index = k ∧ OpenBehind inv paths len file delimiter.length last opened s' := by
  obtain ⟨buffer, zeroedEq, bufferLenEq⟩ := zeroedVec_eq allocates
  rw [openFresh]
  refine (Returns.mapErr (opens s good)).bind ?_
  rintro source s' ⟨own, conforms, ownS, within⟩
  rw [usizeToU128_eq source.len_le, pure_bind, if_neg (not_not.mpr conforms.len_eq), zeroedEq,
    orPanic_some, pure_bind]
  refine Returns.pure ⟨rfl, path, bytes, here, served, ⟨own, conforms, ownS, within⟩, ?_, fun u _ =>
    BoundarySearchState.behind_initial u⟩
  unfold bufferLen at bufferLenEq
  dsimp only
  omega

/-- A refused path cannot be opened. -/
theorem openFresh_refused {path : Path} {error : IoError} {k expectedLen bufferLen : Nat}
    (refuses : Refuses backend inv path error) (good : inv s) :
    Ensures (openFresh backend allocate path k expectedLen bufferLen) s fun r _ =>
      r = .error (openError path error) := by
  obtain ⟨r, s', run, rfl⟩ := refuses s good
  have failed : Ensures (mapErr (openError path) (backend.openPath path)) s fun r _ =>
      r = .error (openError path error) := by
    refine ⟨.error (openError path error), s', ?_, rfl⟩
    change (runFrom (backend.openPath path) s).map _ = _
    rw [run]
    rfl
  exact failed.bind (fun a _ eq => by cases eq) fun e _ eq => congrArg _ (Except.error.inj eq)

/-- The source of a served path is open after this step, whether it was before or not. -/
theorem reuseOrOpen_returns {k last : Nat} {current : Option (OpenSourced σ)} {path : Path}
    {bytes : List UInt8} (here : paths[k]? = some path) (served : file path = .ok bytes)
    (serves : Serves backend inv path (len path) (file path))
    (allocates : Allocates allocate (bufferLen scanBufferBytes delimiter.length))
    (behind : CurrentBehind inv paths len file delimiter.length last current s) :
    Returns (reuseOrOpen backend allocate path k (len path)
        (bufferLen scanBufferBytes delimiter.length) current) s fun opened s' =>
      opened.index = k ∧ OpenBehind inv paths len file delimiter.length last opened s' := by
  rw [served] at serves
  obtain ⟨lenEq, opens⟩ := serves
  rw [reuseOrOpen]
  cases reuse : reusable current k with
  | some opened =>
      obtain ⟨mem, index⟩ := Option.filter_eq_some_iff.mp reuse
      exact Returns.pure ⟨of_decide_eq_true index, behind.2 opened mem⟩
  | none =>
      rw [← lenEq]
      exact openFresh_returns opens here served allocates behind.1

theorem projectSourcedTarget_simulates (ne : delimiter ≠ [])
    (small : ∀ path ∈ paths, len path ≤ usizeMax) (fits : (paths.map len).sum < 2 ^ 128)
    (serves : ∀ path ∈ paths, Serves backend inv path (len path) (file path))
    (allocates : Allocates allocate (bufferLen scanBufferBytes delimiter.length))
    (t last : Nat) (current : Option (OpenSourced σ)) (s : σ)
    (behind : CurrentBehind inv paths len file delimiter.length last current s) (ahead : last < t)
    (lt : t < (paths.map len).sum) :
    Ensures (projectSourcedTarget backend allocate (prefixSums (paths.map len)) paths delimiter
        (bufferLen scanBufferBytes delimiter.length) t current) s fun r s' =>
      Agree (fun c p => p.1 = c ∧ CurrentBehind inv paths len file delimiter.length c p.2 s')
        (lineSnapE (paths.map len) (servedSnap paths file delimiter) t) r := by
  rw [projectSourcedTarget]
  by_cases mem : t ∈ prefixSums (paths.map len)
  · -- A source boundary: nothing is read, and the search state stays behind.
    rw [if_pos mem, lineSnapE_offset mem]
    exact Ensures.pure ⟨rfl, behind.mono ahead.le⟩
  obtain ⟨k, inside⟩ := exists_inside mem lt
  have ltK : k < paths.length := by simpa using inside.lt_length
  have here : paths[k]? = some paths[k] := List.getElem?_eq_getElem ltK
  have localLt : t - offset (paths.map len) k < len paths[k] := by
    simpa using inside.lt_len inside.lt_length
  have ended : (prefixSums (paths.map len))[k + 1]? = some (offset (paths.map len) (k + 1)) :=
    getElem?_prefixSums inside.lt_length
  have expected : subU64 (offset (paths.map len) (k + 1)) (offset (paths.map len) k) =
      some (len paths[k]) := by
    rw [subU64_offset inside.lt_length, List.getElem_map]
  have smallLens : ∀ l ∈ paths.map len, l ≤ usizeMax := fun l memL => by
    obtain ⟨path, memPath, rfl⟩ := List.mem_map.mp memL
    exact small path memPath
  have serve := serves paths[k] (List.getElem_mem ltK)
  rw [if_neg mem, locateSource_eq inside, pure_bind]
  dsimp only
  rw [ended, orPanic_some, pure_bind, expected, orPanic_some, pure_bind,
    localTarget_eq smallLens inside, pure_bind, here, okOr_some, pure_bind, lineSnapE_inside inside,
    servedSnap, here]
  dsimp only
  cases served : file paths[k] with
  | error error =>
      -- It is opened here, in vain.
      rw [served] at serve
      rw [reuseOrOpen, not_reusable_of_refused behind here served]
      refine (openFresh_refused serve behind.1).bind (fun _ _ eq => by cases eq) fun e _ eq => ?_
      exact (Except.error.inj eq).symm
  | ok bytes =>
      refine Returns.agree ((reuseOrOpen_returns here served serve allocates behind).bind ?_)
      rintro opened s' ⟨rfl, path, bytes', hereO, servedO, ⟨own, conforms, ownS, within⟩, roomy,
        states⟩
      obtain rfl : paths[opened.index] = path := Option.some.inj (here.symm.trans hereO)
      obtain rfl : bytes = bytes' := Except.ok.inj (served.symm.trans servedO)
      have lenEq : bytes.length = len paths[opened.index] := by
        rw [served] at serve
        exact serve.1
      have le := snapEnd_le ne bytes (t - offset (paths.map len) opened.index)
      have smallK := small _ (List.getElem_mem ltK)
      have next := offset_succ inside.lt_length
      rw [List.getElem_map] at next
      have inLine := offset_le_sum (paths.map len) (opened.index + 1)
      have noOverflow : checkedAddU128 (offset (paths.map len) opened.index)
          (snapEnd delimiter bytes (t - offset (paths.map len) opened.index)) =
          some (offset (paths.map len) opened.index +
            snapEnd delimiter bytes (t - offset (paths.map len) opened.index)) :=
        if_pos (by omega)
      refine (nextRecordBoundarySourced_returns conforms ne roomy
        (states _ (by have := inside.1; omega)) (by omega) _ ownS).bind ?_
      rintro ⟨boundary, state, buffer⟩ s'' ⟨own'', rfl, rfl, sameLen⟩
      dsimp only at sameLen ⊢
      rw [usizeToU128_eq (by omega), pure_bind, noOverflow, orPanic_some, pure_bind]
      refine Returns.pure ⟨rfl, within _ own'', fun opened' memO => ?_⟩
      obtain rfl := Option.mem_some.mp memO
      exact ⟨_, bytes, here, served, ⟨own, conforms, own'', within⟩, roomy.trans sameLen.ge,
        fun u past => BoundarySearchState.behind_of_le (by
          dsimp only at past
          omega)⟩

theorem servedSnap_bounds (ne : delimiter ≠ [])
    (serves : ∀ path ∈ paths, Serves backend inv path (len path) (file path)) :
    ∀ k (lt : k < (paths.map len).length) u c, u < (paths.map len)[k] →
      servedSnap paths file delimiter k u = .ok c → u ≤ c ∧ c ≤ (paths.map len)[k] := by
  intro k lt u c ltU snapped
  have ltK : k < paths.length := by simpa using lt
  have serve := serves paths[k] (List.getElem_mem ltK)
  rw [List.getElem_map] at ltU ⊢
  rw [servedSnap, List.getElem?_eq_getElem ltK] at snapped
  dsimp only at snapped
  cases served : file paths[k] with
  | error error =>
      rw [served] at snapped
      cases snapped
  | ok bytes =>
      rw [served] at snapped serve
      cases snapped
      rw [← serve.1] at ltU ⊢
      exact ⟨le_snapEnd ne ltU.le, snapEnd_le ne bytes u⟩

/-- The sourced planner computes the abstract result, refusals included. -/
theorem planLogicalPartitionsSourced_ensures (len : Path → Nat)
    (file : Path → Except IoError (List UInt8)) (parts : Nat) (ne : delimiter ≠ [])
    (small : ∀ path ∈ paths, len path ≤ usizeMax)
    (stats : ∀ path ∈ paths, backend.metadata path = .ok (len path))
    (serves : ∀ path ∈ paths, Serves backend inv path (len path) (file path))
    (allocates : Allocates allocate (bufferLen scanBufferBytes delimiter.length)) (good : inv s) :
    Ensures (planLogicalPartitionsSourced backend allocate paths parts delimiter scanBufferBytes) s
      fun r _ => r = logicalResult (paths.map len) parts
        (lineSnapE (paths.map len) (servedSnap paths file delimiter)) := by
  rw [planLogicalPartitionsSourced, logicalResult]
  by_cases zero : parts = 0
  · rw [if_pos zero, if_pos zero]
    exact Ensures.pure rfl
  rw [if_neg zero, if_neg zero, stats_eq stats]
  by_cases fits : (paths.map len).sum < 2 ^ 128
  · have smallLens : ∀ l ∈ paths.map len, l ≤ usizeMax := fun l memL => by
      obtain ⟨path, memPath, rfl⟩ := List.mem_map.mp memL
      exact small path memPath
    have count : paths.length = (paths.map len).length := (List.length_map _).symm
    rw [if_pos fits, if_pos fits, pure_bind, count]
    refine planTargets_simulates (CurrentBehind inv paths len file delimiter.length) smallLens
      (fun t c lt snapped => lineSnapE_bounds (servedSnap_bounds ne serves) lt snapped)
      (fun t last current s => projectSourcedTarget_simulates ne small fits serves allocates t last
        current s) ⟨good, fun opened mem => by simp at mem⟩
  · rw [if_neg fits, if_neg fits, throw_bind]
    exact Ensures.throw rfl

/-- One iteration of phase 1 extends the prefixes or fails; nothing is opened. -/
theorem statStep_cases (backend : Backend σ) (path : Path) (prefixes : List Nat) :
    (∃ e, (statStep backend path prefixes : Exec σ String _) = throw e) ∨
      ∃ len next, backend.metadata path = .ok len ∧
        (statStep backend path prefixes : Exec σ String _) = pure (.yield next) := by
  rw [statStep]
  cases backend.metadata path with
  | error error => exact .inl ⟨_, rfl⟩
  | ok len =>
      dsimp only
      rw [pushPrefix]
      cases prefixes.getLast? with
      | none => exact .inl ⟨_, by rw [okOr_none, throw_bind]⟩
      | some previous =>
          rw [okOr_some, pure_bind]
          cases checkedAddU128 previous len with
          | none => exact .inl ⟨_, by rw [okOr_none, throw_bind]⟩
          | some next => exact .inr ⟨len, _, rfl, by rw [okOr_some, pure_bind]⟩

/-- A path that cannot be statted fails the planner before anything is opened. -/
theorem planLogicalPartitionsSourced_stat_error (pos : 1 ≤ parts) {path : Path}
    (mem : path ∈ paths) {error : IoError} (missing : backend.metadata path = .error error) :
    Ensures (planLogicalPartitionsSourced backend allocate paths parts delimiter scanBufferBytes) s
      fun r _ => ∃ e, r = .error e := by
  have fails : ∀ paths : List Path, path ∈ paths → ∀ prefixes,
      ∃ e, (forIn paths prefixes (statStep backend) : Exec σ String (List Nat)) = throw e := by
    intro paths
    induction paths with
    | nil => intro mem; simp at mem
    | cons first paths ih =>
        intro mem prefixes
        rw [List.forIn_cons]
        rcases statStep_cases backend first prefixes with ⟨e, failed⟩ | ⟨len, next, stat, step⟩
        · exact ⟨e, by rw [failed, throw_bind]⟩
        · rcases List.mem_cons.mp mem with rfl | mem
          · rw [missing] at stat
            cases stat
          · obtain ⟨e, failed⟩ := ih mem next
            exact ⟨e, by rw [step, pure_bind]; exact failed⟩
  obtain ⟨e, failed⟩ := fails paths mem [0]
  rw [planLogicalPartitionsSourced, if_neg (by omega), failed, throw_bind]
  exact Ensures.throw ⟨e, rfl⟩

end Planner

/-! ### Parity with the mapped planner -/

/-- A path that stays readable: its length is the length of `data`, and every open
yields a source of its bytes. -/
structure Readable {σ : Type} (backend : Backend σ) (inv : σ → Prop) (path : Path)
    (data : Slice) : Prop where
  metadata_eq : backend.metadata path = .ok data.len
  opens : Opens backend inv path data.bytes

/-- **Sourced and mapped planning agree.** Over paths that stay readable, whatever the
short reads of the backend are and whatever buffer size the allocator grants, the
sourced planner returns what the mapped planner returns on the contents: the same
assignments, if the contents fit the address space together. -/
theorem sourced_matches_mapped {σ : Type} (backend : Backend σ) (inv : σ → Prop) (s : σ)
    (good : inv s) (paths : List Path) (content : Path → Slice)
    (readable : ∀ path ∈ paths, Readable backend inv path (content path)) (parts : Nat)
    (pos : 1 ≤ parts) (delimiter : List UInt8) (ne : delimiter ≠ []) (scanBufferBytes : Nat)
    (allocate : Nat → Option Nat)
    (allocates : Allocates allocate (bufferLen scanBufferBytes delimiter.length)) :
    ∃ result,
      Ensures (planLogicalPartitions (paths.map content) parts delimiter) ()
        (fun r _ => r = result) ∧
      Ensures (planLogicalPartitionsSourced backend allocate paths parts delimiter
        scanBufferBytes) s (fun r _ => r = result) ∧
      (((paths.map content).map Slice.len).sum < 2 ^ 64 →
        ∃ assignments, result = .ok assignments) := by
  have lens : lengths (bytesOf (paths.map content)) = paths.map fun path => (content path).len := by
    simp only [lengths, bytesOf, List.map_map]
    rfl
  have snaps : servedSnap paths (fun path => .ok (content path).bytes) delimiter =
      fun k u => .ok (sourceSnap (bytesOf (paths.map content)) delimiter k u) := by
    funext k u
    rw [servedSnap, sourceSnap, List.getD_eq_getElem?_getD, bytesOf, List.getElem?_map,
      List.getElem?_map]
    cases paths[k]? <;> rfl
  have mapped := planLogicalPartitions_ensures (paths.map content) parts ne
  have sourced := planLogicalPartitionsSourced_ensures (fun path => (content path).len)
    (fun path => .ok (content path).bytes) parts ne
    (fun path _ => (content path).len_le_usizeMax) (fun path mem => (readable path mem).metadata_eq)
    (fun path mem => ⟨rfl, (readable path mem).opens⟩) allocates good
  rw [snaps, lineSnapE_ok, ← lens] at sourced
  refine ⟨_, mapped, sourced, fun fits => ?_⟩
  have small : (lengths (bytesOf (paths.map content))).sum ≤ usizeMax := by
    rw [lens]
    rw [List.map_map] at fits
    exact Nat.le_pred_of_lt fits
  obtain ⟨assignments, _, run, _⟩ := planLogicalPartitions_returns (paths.map content) pos ne small
  obtain ⟨r, _, run', eq⟩ := mapped
  rw [run, Option.some.injEq, Prod.mk.injEq] at run'
  exact ⟨assignments, (run'.1.trans eq).symm⟩

/-- Every path holds two records and is read one byte at a time. -/
def dribbleBackend : Backend Nat where
  metadata _ := .ok Scanner.twoRecords.len
  openPath _ := pure (dribble Scanner.twoRecords)

theorem dribbleBackend_readable (path : Path) :
    Readable dribbleBackend (fun _ => True) path Scanner.twoRecords :=
  ⟨rfl, fun _ _ => Returns.pure
    ⟨fun _ => True, dribble_conforms Scanner.twoRecords, trivial, fun _ _ => trivial⟩⟩

theorem sourced_matches_mapped_dribble :
    ∃ result,
      Ensures (planLogicalPartitions [Scanner.twoRecords] 2 [10]) () (fun r _ => r = result) ∧
      Ensures (planLogicalPartitionsSourced dribbleBackend (fun _ => some 0) ["a"] 2 [10] 0) 0
        (fun r _ => r = result) ∧
      (([Scanner.twoRecords].map Slice.len).sum < 2 ^ 64 →
        ∃ assignments, result = .ok assignments) :=
  sourced_matches_mapped dribbleBackend (fun _ => True) 0 trivial ["a"]
    (fun _ => Scanner.twoRecords) (fun path _ => dribbleBackend_readable path) 2 (by decide) [10]
    (by decide) 0 (fun _ => some 0) ⟨by decide, rfl⟩

/-- A scan buffer larger than any allocation: the mapped planner plans the file, the
sourced planner panics at its first open, whatever the allocator would grant. -/
theorem sourced_panics_on_huge_buffer :
    (∀ path ∈ ["a"], Readable dribbleBackend (fun _ => True) path Scanner.twoRecords) ∧
      runFrom (planLogicalPartitions [Scanner.twoRecords] 2 [10]) () =
        some (.ok [⟨0, [⟨0, 0, 2, 2⟩]⟩, ⟨1, [⟨0, 2, 4, 2⟩]⟩], ()) ∧
      runFrom (planLogicalPartitionsSourced dribbleBackend (fun _ => some 0) ["a"] 2 [10]
        usizeMax) 0 = none :=
  ⟨fun path _ => dribbleBackend_readable path, by decide +kernel, by decide +kernel⟩

end Cli
