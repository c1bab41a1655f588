import MmapChunker.Engine.Chunker

/-!
Replacing a file around its pin (`src/lib.rs`, `src/pin.rs`).

`open_pinned` looks its path up twice: it pins what stands there, and then it maps what
stands there. The module documentation of the pin says that a swap in between is caught
by the first gated call.

The gate compares the path with the pin and not with the mapping. So it catches every
swap that lasts, and none that is undone before the call (`agreement_iff`).
-/

namespace Chunker

open Machine Exec Calls Source Mmap Pin Plan

/-! ### The path -/

/-- Files with a device and inode number of their own. -/
structure Files (ι : Type) where
  dev : ι → UInt64
  ino : ι → UInt64
  distinct : ∀ i j, dev i = dev j → ino i = ino j → i = j

/-- What a path leads to at one instant. -/
structure Named (ι : Type) where
  file : ι
  entry : Entry
  modified : Except IoError Int

section Path

variable {ι : Type}

/-- What is reported of it. -/
def Named.metadata (files : Files ι) (named : Named ι) : Metadata :=
  ⟨UInt64.ofNat named.entry.len, named.modified, files.dev named.file, files.ino named.file⟩

/-- The answers of `std::fs::metadata` at that instant. -/
def statOf (files : Files ι) (path : Path) (named : Named ι) : Stat :=
  fun other => if other = path then .ok (named.metadata files) else .error notFound

/-- The file system at that instant. -/
def fileSystemOf (path : Path) (named : Named ι) : FileSystem :=
  fun other => if other = path then .entry named.entry else .missing

/-- The path leads to the file it led to before, and the enabled classes show no
difference. -/
structure Restored (files : Files ι) (effective : UInt32) (before now : Named ι) : Prop where
  file : now.file = before.file
  size : effective &&& pinSize ≠ 0 → (now.metadata files).len = (before.metadata files).len
  mtime : effective &&& pinMtime ≠ 0 → ∀ old new, before.modified = .ok old →
    now.modified = .ok new → old = new

theorem unchanged_iff_restored (files : Files ι) {effective : UInt32}
    (enabled : effective &&& pinIdentity ≠ 0) {before now : Named ι} :
    Unchanged effective (.captureFromMetadata (before.metadata files))
        (.captureFromMetadata (now.metadata files)) ↔
      Restored files effective before now := by
  constructor
  · intro same
    obtain ⟨dev, ino⟩ := same.identity enabled
    refine ⟨files.distinct _ _ dev ino, same.size, fun guarded old new was is_ => ?_⟩
    have equal := same.mtime guarded
    change before.modified.toOption.isSome → now.modified.toOption.isSome →
      before.modified.toOption = now.modified.toOption at equal
    rw [was, is_] at equal
    exact Option.some.inj (equal rfl rfl)
  · intro same
    refine ⟨fun _ => ?_, same.size, fun guarded known known' => ?_⟩
    · change files.dev now.file = files.dev before.file ∧ files.ino now.file = files.ino before.file
      rw [same.file]
      exact ⟨rfl, rfl⟩
    · change before.modified.toOption.isSome at known
      change now.modified.toOption.isSome at known'
      change before.modified.toOption = now.modified.toOption
      cases was : before.modified with
      | error e => rw [was] at known; cases known
      | ok old =>
          cases is_ : now.modified with
          | error e => rw [is_] at known'; cases known'
          | ok new => rw [same.mtime guarded old new was is_]

end Path

/-! ### Opening and calling -/

/-- A pinned chunker as it is opened. -/
theorem mmapChunkerOpenPinned_ok {stat : Stat} {fs : FileSystem} {path : Path} {flags : UInt32}
    {chunker : MmapChunker} (ok : mmapChunkerOpenPinned stat fs path flags = .ok chunker) :
    ∃ metadata mmap, stat path = .ok metadata ∧ mmapFileOpenPath fs path = .ok mmap ∧
      chunker = opened mmap (some ⟨path, .captureFromMetadata metadata, flags⟩) := by
  unfold mmapChunkerOpenPinned PinnedFile.capture at ok
  cases known : effectiveFlags flags with
  | error e => rw [known] at ok; cases ok
  | ok effective =>
      cases live : stat path with
      | error e => rw [known, live] at ok; cases ok
      | ok metadata =>
          cases mapped : mmapFileOpenPath fs path with
          | error e => rw [known, live, mapped] at ok; cases ok
          | ok mmap =>
              rw [known, live, mapped] at ok
              cases ok
              exact ⟨metadata, mmap, rfl, rfl, rfl⟩

/-- A gated call that passes and plans. -/
def Plans (call : ChunkerCall) : Prop :=
  (∃ scan, call.input.operation = .scan scan) ∧ call.after.pinError = none ∧
    ∃ n, call.outcome = .count n

/-- A call on a pinned chunker plans exactly when it is a feasible scan and the pin
passes. -/
theorem plans_iff {pinned : PinnedFile} {call : ChunkerCall}
    (pin : call.before.pinned = some pinned)
    (effect : Effect call.input call.before call.outcome call.after) :
    Plans call ↔ ∃ scan, call.input.operation = .scan scan ∧
      scan.Feasible call.before.mmap.len ∧ pinned.revalidate call.input.stat = .ok () := by
  obtain ⟨before, input, outcome, after⟩ := call
  dsimp only at pin effect
  have neither : (∀ scan, input.operation ≠ .scan scan) →
      (Plans ⟨before, input, outcome, after⟩ ↔ ∃ scan, input.operation = .scan scan ∧
        scan.Feasible before.mmap.len ∧ pinned.revalidate input.stat = .ok ()) := by
    intro other
    refine iff_of_false ?_ ?_
    · rintro ⟨⟨scan, asked⟩, -⟩
      exact other scan asked
    · rintro ⟨scan, asked, -⟩
      exact other scan asked
  cases effect with
  | caught asked pin' live =>
      refine iff_of_false ?_ ?_
      · rintro ⟨-, clean, -⟩
        cases clean
      · rintro ⟨_, _, _, passes⟩
        cases pin.symm.trans pin'
        cases live.symm.trans passes
  | @scanned scan plan asked passes feasible lays tiles =>
      exact iff_of_true ⟨⟨scan, asked⟩, rfl, _, rfl⟩ ⟨scan, asked, feasible, passes pinned pin⟩
  | panicked asked passes infeasible =>
      refine iff_of_false ?_ ?_
      · rintro ⟨-, -, n, counted⟩
        cases counted
      · rintro ⟨scan, asked', feasible, -⟩
        cases asked.symm.trans asked'
        exact infeasible feasible
  | taken asked => exact neither fun scan scans => by cases asked.symm.trans scans
  | peeked asked => exact neither fun scan scans => by cases asked.symm.trans scans
  | read asked there => exact neither fun scan scans => by cases asked.symm.trans scans

/-- The input of a call at an instant. -/
def inputAt {ι : Type} (files : Files ι) (path : Path) (history : Nat → Named ι)
    (step : Nat × Operation) : Input :=
  ⟨statOf files path (history step.1), step.2⟩

/-- A pin that passes at an instant is a path that is restored at that instant. -/
theorem revalidate_statOf_iff {ι : Type} (files : Files ι) (path : Path)
    {flags effective : UInt32} (known : effectiveFlags flags = .ok effective)
    (enabled : effective &&& pinIdentity ≠ 0) (captured now : Named ι) :
    PinnedFile.revalidate ⟨path, .captureFromMetadata (captured.metadata files), flags⟩
        (statOf files path now) = .ok () ↔ Restored files effective captured now := by
  rw [revalidate_ok_iff, ← unchanged_iff_restored files enabled]
  constructor
  · rintro ⟨effective', metadata, known', there, same⟩
    cases known.symm.trans known'
    rw [statOf, if_pos rfl] at there
    cases there
    exact same
  · intro same
    exact ⟨effective, _, known, if_pos rfl, same⟩

/-- Two lists with one image have an element for each element of the other. -/
theorem exists_mem_of_map_eq {α β γ : Type} {xs : List α} {ys : List β} {f : α → γ} {g : β → γ}
    (eq : xs.map f = ys.map g) {y : β} (mem : y ∈ ys) : ∃ x ∈ xs, f x = g y := by
  have image : g y ∈ xs.map f := eq ▸ List.mem_map_of_mem mem
  exact List.mem_map.mp image

/-- **When the pin and the mapping agree.** The path may be replaced at any instant. In
a run, every gated call that passes and plans works on the file that was pinned if and
only if that file was mapped, or no scan that can be carried out finds the path restored
to it. -/
theorem agreement_iff {ι : Type} (files : Files ι) (path : Path) (history : Nat → Named ι)
    (flags effective : UInt32) (known : effectiveFlags flags = .ok effective)
    (enabled : effective &&& pinIdentity ≠ 0) (atCapture atMap : Nat) (chunker : MmapChunker)
    (opens : mmapChunkerOpenPinned (statOf files path (history atCapture))
      (fileSystemOf path (history atMap)) path flags = .ok chunker)
    (steps : List (Nat × Operation)) (calls : List ChunkerCall) (s : MmapChunker)
    (run : Run chunkerStep chunker calls s)
    (asked : calls.map Call.input = steps.map (inputAt files path history)) :
    (∀ call ∈ calls, Plans call → (history atMap).file = (history atCapture).file) ↔
      (history atMap).file = (history atCapture).file ∨
        ∀ t scan, (t, Operation.scan scan) ∈ steps → scan.Feasible chunker.mmap.len →
          ¬Restored files effective (history atCapture) (history t) := by
  obtain ⟨metadata, mmap, live, -, rfl⟩ := mmapChunkerOpenPinned_ok opens
  have pinnedMetadata : metadata = (history atCapture).metadata files := by
    rw [statOf, if_pos rfl, Except.ok.injEq] at live
    exact live.symm
  subst pinnedMetadata
  have traced := traced_of_run run
  have passes_iff := fun t =>
    revalidate_statOf_iff files path known enabled (history atCapture) (history t)
  constructor
  · intro agree
    rw [or_iff_not_imp_left]
    intro swapped t scan mem feasible restored
    obtain ⟨call, memCall, input⟩ := exists_mem_of_map_eq asked mem
    have before := traced.before call memCall
    refine swapped (agree call memCall ?_)
    refine (plans_iff before.pinned_eq (traced.effect call memCall)).mpr ⟨scan, ?_, ?_, ?_⟩
    · rw [input]
      rfl
    · rw [before.mmap_eq]
      exact feasible
    · rw [input]
      exact (passes_iff t).mpr restored
  · rintro (same | never) call memCall plans
    · exact same
    · have before := traced.before call memCall
      obtain ⟨scan, scans, feasible, passes⟩ :=
        (plans_iff before.pinned_eq (traced.effect call memCall)).mp plans
      obtain ⟨⟨t, operation⟩, mem, input⟩ := exists_mem_of_map_eq asked.symm memCall
      rw [← input] at scans passes
      obtain rfl : operation = .scan scan := scans
      rw [before.mmap_eq] at feasible
      exact (never t scan mem feasible ((passes_iff t).mp passes)).elim

/-- Two files. -/
def twoFiles : Files Bool := ⟨fun _ => 1, fun file => if file then 2 else 1, by decide⟩

/-- The path leads to the second file from instant 1 until instant `back`, and to the first
one before and after. -/
def swappedUntil (back t : Nat) : Named Bool :=
  if 1 ≤ t ∧ t < back then ⟨true, .readable ⟨0, [98, 10], by decide⟩, .ok 0⟩
  else ⟨false, .readable ⟨0, [97, 10], by decide⟩, .ok 0⟩

/-- The first file pinned, the second one mapped. -/
def skewed : MmapChunker :=
  opened ⟨0, [98, 10], by decide⟩ (some ⟨"data", ⟨2, some 0, 1, 1⟩, 0⟩)

theorem agreement_iff_swappedUntil :
    effectiveFlags 0 = .ok pinAll ∧ pinAll &&& pinIdentity ≠ 0 ∧
      mmapChunkerOpenPinned (statOf twoFiles "data" (swappedUntil 3 0))
        (fileSystemOf "data" (swappedUntil 3 1)) "data" 0 = .ok skewed ∧
      ∃ calls s, Run chunkerStep skewed calls s ∧
        calls.map Call.input =
          [(2, Operation.scan (.fixed 1))].map (inputAt twoFiles "data" (swappedUntil 3)) ∧
        ∀ call ∈ calls, ¬Plans call := by
  have opens : mmapChunkerOpenPinned (statOf twoFiles "data" (swappedUntil 3 0))
      (fileSystemOf "data" (swappedUntil 3 1)) "data" 0 = .ok skewed := rfl
  obtain ⟨calls, s, run, asked⟩ := exists_chunker_run _ _
    ([(2, Operation.scan (.fixed 1))].map (inputAt twoFiles "data" (swappedUntil 3)))
  have agree := (agreement_iff twoFiles "data" (swappedUntil 3) 0 pinAll rfl (by decide) 0 1 skewed
    opens _ calls s run asked).mpr (.inr fun t scan mem _ restored => by
      cases List.mem_singleton.mp mem
      exact absurd restored.file (by decide))
  exact ⟨rfl, by decide, opens, calls, s, run, asked, fun call mem plans =>
    absurd (agree call mem plans) (by decide)⟩

/-- A swap that is undone before the first scan goes unnoticed. -/
theorem swap_undone_unnoticed :
    mmapChunkerOpenPinned (statOf twoFiles "data" (swappedUntil 2 0))
        (fileSystemOf "data" (swappedUntil 2 1)) "data" 0 = .ok skewed ∧
      (∃ calls s, Run chunkerStep skewed calls s ∧
        calls.map Call.input =
          [(2, Operation.scan (.fixed 1))].map (inputAt twoFiles "data" (swappedUntil 2)) ∧
        ∃ call ∈ calls, Plans call) ∧
      (swappedUntil 2 1).file ≠ (swappedUntil 2 0).file :=
  ⟨rfl, ⟨_, _, Run.start.call rfl, rfl, _, List.mem_singleton_self _, ⟨_, rfl⟩, rfl, _, rfl⟩,
    by decide⟩

end Chunker
