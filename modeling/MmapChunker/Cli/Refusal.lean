import MmapChunker.Cli.Sourced
import MmapChunker.Mmap.Open
import MmapChunker.Source.Backends

/-!
Refused inputs of `partition-files` (`src/bin/mmap-chunker.rs`, `src/source.rs`).

The mapped command opens every path first, so a path that is refused fails it. The
sourced planner takes the lengths first and opens a path only when a target falls
strictly inside it, so a refused path may go unnoticed.

`sourced_refuses_iff` says exactly when the sourced planner returns an error, and
`refusal_parity_iff` when it refuses what the mapped command refuses.
-/

namespace Cli

open Machine Occurrence TargetWalk Tiling Segments Exec Source Mmap

/-! ### Source -/

/-- One iteration of the loop of `emit_file_partitions` that opens the sources. -/
def openStep (fs : FileSystem) (path : Path) (sources : List Slice) :
    Except String (ForInStep (List Slice)) :=
  match mmapFileOpenPath fs path with
  | .error error => .error (openError path error)
  | .ok data => .ok (.yield (sources ++ [data]))

/-- The sources of `emit_file_partitions`. -/
def openSources (fs : FileSystem) (paths : List Path) : Except String (List Slice) :=
  forIn paths [] (openStep fs)

/-- `emit_file_partitions`, up to the output. -/
def emitFilePartitions (fs : FileSystem) (paths : List Path) (parts : Nat)
    (delimiter : List UInt8) : Exec Unit String (List WorkerAssignment) := do
  let sources ← step fun s => (openSources fs paths, s)
  planLogicalPartitions sources parts delimiter

/-- The modes of `SourceMode` that open sources on demand. -/
inductive SourceMode where
  | windowed
  | pread
  deriving Repr, DecidableEq

/-- `PlannerOptions`. -/
structure PlannerOptions where
  mode : SourceMode
  windowBytes : Nat
  scanBufferBytes : Nat
  window_le : windowBytes ≤ usizeMax

/-- `DEFAULT_WINDOW_BYTES`. -/
def defaultWindowBytes : Nat := 64 * 1024 * 1024

/-- `DEFAULT_SCAN_BUFFER_BYTES`. -/
def defaultScanBufferBytes : Nat := 1024 * 1024

/-- `PlannerOptions::new`. -/
def PlannerOptions.new (mode : SourceMode) : PlannerOptions :=
  ⟨mode, defaultWindowBytes, defaultScanBufferBytes, by decide⟩

/-- What the system does with the open file of a path. -/
structure System (ω : Type) where
  mmap : Path → Os ω
  pread : Path → Nat → List UInt8 → ω → Except IoError (Nat × List UInt8) × ω

section Source

variable {ω : Type}

/-- The open file of a path that holds `data`. -/
def preadFile (system : System ω) (path : Path) (data : Slice) : PreadFile (ViewState ω) where
  len := data.len
  pread offset out s :=
    let (read, os) := system.pread path offset out s.os
    (read, ⟨s.view, s.events, os⟩)
  len_le := data.len_le_usizeMax

/-- `PreadSource::open_path`. -/
def preadOpenPath (system : System ω) (fs : FileSystem) (path : Path) :
    Except IoError (PreadFile (ViewState ω)) := do
  probeMmapEligible fs path
  let data ← fs.openReadOnly path
  pure (preadFile system path data)

/-- The state after the open source has been dropped. -/
def dropped (s : ViewState ω) : ViewState ω :=
  ⟨none, s.events ++ (s.view.map Event.unmapped).toList, s.os⟩

/-- The drop of the open source before the next one is opened. -/
def dropCurrent : Exec (ViewState ω) IoError Unit := step fun s => (.ok (), dropped s)

/-- `open_sourced`, after the drop of the source before. -/
def openSourced (system : System ω) (fs : FileSystem) (options : PlannerOptions) (path : Path) :
    Exec (ViewState ω) IoError (ByteSource (ViewState ω)) := do
  dropCurrent
  match options.mode with
  | .windowed =>
      let file ← step fun s => (windowedOpenPath fs path options.windowBytes options.window_le, s)
      return windowedSource (system.mmap path) file
  | .pread =>
      let file ← step fun s => (preadOpenPath system fs path, s)
      return preadSource file

/-- The backend of `plan_logical_partitions_sourced`. -/
def fileBackend (system : System ω) (fs : FileSystem) (options : PlannerOptions) :
    Backend (ViewState ω) where
  metadata path := (fs.metadata path).map Entry.len
  openPath := openSourced system fs options

/-- `plan_logical_partitions_sourced` with the given options. -/
def planSourced (system : System ω) (allocate : Nat → Option Nat) (fs : FileSystem)
    (options : PlannerOptions) (paths : List Path) (parts : Nat) (delimiter : List UInt8) :
    Exec (ViewState ω) String (List WorkerAssignment) :=
  planLogicalPartitionsSourced (fileBackend system fs options) allocate paths parts delimiter
    options.scanBufferBytes

end Source

/-! ### What the backends serve -/

/-- The length of a path as its metadata says, `0` if it has none. -/
def statLen (fs : FileSystem) (path : Path) : Nat :=
  match fs.follow path with
  | none => 0
  | some entry => entry.len

/-- The bytes of a path, unless it is refused. -/
def servedBytes (fs : FileSystem) (path : Path) : Except IoError (List UInt8) :=
  (served fs path).map Slice.bytes

/-- The system maps and reads every file that is served. -/
structure ServesFiles {ω : Type} (system : System ω) (fs : FileSystem) : Prop where
  mmap : ∀ path data, served fs path = .ok data → ∀ file : WindowedMmapFile,
    file.bytes = data.bytes → Grants (system.mmap path) file
  pread : ∀ path data, served fs path = .ok data → ∀ offset out s, ∃ count written s',
    system.pread path offset out s = (.ok (count, written), s') ∧
      ReadOk data.bytes offset out count written

section Serves

variable {ω : Type} {system : System ω} {fs : FileSystem} {options : PlannerOptions} {path : Path}

theorem statLen_of_served {data : Slice} (ok : served fs path = .ok data) :
    statLen fs path = data.len := by
  have found := len_of_served ok
  unfold FileSystem.metadata at found
  unfold statLen
  cases here : fs.follow path with
  | none =>
      rw [here] at found
      cases found
  | some entry =>
      rw [here] at found
      cases found
      rfl

theorem statLen_le (fs : FileSystem) (path : Path) : statLen fs path ≤ usizeMax := by
  unfold statLen
  cases fs.follow path with
  | none => exact Nat.zero_le _
  | some entry => exact entry.len_le

theorem preadOpenPath_eq (system : System ω) (fs : FileSystem) (path : Path) :
    preadOpenPath system fs path = (served fs path).map (preadFile system path) := by
  rw [← probe_openReadOnly_eq, preadOpenPath]
  cases probeMmapEligible fs path with
  | error _ => rfl
  | ok _ => cases fs.openReadOnly path <;> rfl

/-- A path that is served is opened as a source that conforms. -/
theorem openSourced_returns (serves : ServesFiles system fs)
    (window : options.mode = .windowed → viewAlignment ≤ options.windowBytes) {data : Slice}
    (ok : served fs path = .ok data) :
    Opens (fileBackend system fs options) (fun _ => True) path data.bytes := by
  intro s _
  cases mode : options.mode with
  | windowed =>
      refine ⟨windowedSource (system.mmap path) ⟨data.bytes, options.windowBytes, data.fits,
        window mode, options.window_le⟩, dropped s, ?_,
        fun s => ∀ view ∈ s.view, view.Within _,
        windowed_conforms (serves.mmap path data ok _ rfl), fun _ mem => (by cases mem),
        fun _ _ => trivial⟩
      change runFrom (openSourced system fs options path) s = _
      rw [openSourced, mode, windowedOpenPath_eq (window mode), ok]
      rfl
  | pread =>
      refine ⟨preadSource (preadFile system path data), dropped s, ?_, fun _ => True,
        pread_conforms ⟨rfl, fun offset out s' => ?_⟩, trivial, fun _ _ => trivial⟩
      · change runFrom (openSourced system fs options path) s = _
        rw [openSourced, mode, preadOpenPath_eq, ok]
        rfl
      · obtain ⟨count, written, next, run, readOk⟩ := serves.pread path data ok offset out s'.os
        refine ⟨count, written, ⟨s'.view, s'.events, next⟩, ?_, readOk⟩
        change ((system.pread path offset out s'.os).1,
          ViewState.mk s'.view s'.events (system.pread path offset out s'.os).2) = _
        rw [run]

/-- Any other path is refused. -/
theorem openSourced_refuses
    (window : options.mode = .windowed → viewAlignment ≤ options.windowBytes) {error : IoError}
    (refused : served fs path = .error error) :
    Refuses (fileBackend system fs options) (fun _ => True) path error := by
  intro s _
  refine ⟨.error error, dropped s, ?_, rfl⟩
  change runFrom (openSourced system fs options path) s = _
  cases mode : options.mode with
  | windowed =>
      rw [openSourced, mode, windowedOpenPath_eq (window mode), refused]
      rfl
  | pread =>
      rw [openSourced, mode, preadOpenPath_eq, refused]
      rfl

theorem fileBackend_serves (serves : ServesFiles system fs)
    (window : options.mode = .windowed → viewAlignment ≤ options.windowBytes) (path : Path) :
    Serves (fileBackend system fs options) (fun _ => True) path (statLen fs path)
      (servedBytes fs path) := by
  rw [servedBytes]
  cases here : served fs path with
  | error error => exact openSourced_refuses window here
  | ok data => exact ⟨(statLen_of_served here).symm, openSourced_returns serves window here⟩

theorem fileBackend_metadata (found : fs.follow path ≠ none) :
    (fileBackend system fs options).metadata path = .ok (statLen fs path) := by
  change (fs.metadata path).map Entry.len = _
  unfold FileSystem.metadata statLen
  cases here : fs.follow path with
  | none => exact absurd here found
  | some entry => rfl

end Serves

/-! ### When the sourced planner refuses -/

/-- The lengths phase 1 collects. -/
def statLens (fs : FileSystem) (paths : List Path) : List Nat := paths.map (statLen fs)

/-- The snap inside source `k`, if it is served. -/
def contentSnap (fs : FileSystem) (paths : List Path) (delimiter : List UInt8) (k u : Nat) : Nat :=
  match paths[k]? with
  | none => snapEnd delimiter [] u
  | some path =>
      match servedBytes fs path with
      | .ok bytes => snapEnd delimiter bytes u
      | .error _ => u

/-- The snap the sourced planner computes with. -/
abbrev sourcedSnap (fs : FileSystem) (paths : List Path) (delimiter : List UInt8) :
    Nat → Except String Nat :=
  lineSnapE (statLens fs paths) (servedSnap paths (servedBytes fs) delimiter)

/-- The same snap where it does not fail. -/
abbrev plainSnap (fs : FileSystem) (paths : List Path) (delimiter : List UInt8) : Nat → Nat :=
  lineSnap (statLens fs paths) (contentSnap fs paths delimiter)

/-- The targets of the partitions before `i`. -/
def targetsBefore (total parts i : Nat) : List Nat :=
  (List.range' 1 (i - 1)).map fun j => total * j / parts

/-- What makes the sourced planner refuse: a path without metadata, lengths that add up
to too much, a target strictly inside a refused path, or a target that overflows before
the walk has come to the end of the dataset. -/
inductive Noticed (fs : FileSystem) (paths : List Path) (parts : Nat) (delimiter : List UInt8) :
    Prop where
  | missing {path : Path} (mem : path ∈ paths) (gone : fs.follow path = none)
  | tooLarge (large : 2 ^ 128 ≤ (statLens fs paths).sum)
  | target {i k : Nat} {path : Path} {error : IoError} (pos : 1 ≤ i)
      (lt : i < effectiveParts parts (statLens fs paths).sum)
      (fits : (statLens fs paths).sum * i < 2 ^ 128)
      (inside : Inside (statLens fs paths) k
        ((statLens fs paths).sum * i / effectiveParts parts (statLens fs paths).sum))
      (here : paths[k]? = some path) (refused : served fs path = .error error)
  | overflow {i : Nat} (pos : 1 ≤ i) (lt : i < effectiveParts parts (statLens fs paths).sum)
      (fits : ∀ j < i, (statLens fs paths).sum * j < 2 ^ 128)
      (large : 2 ^ 128 ≤ (statLens fs paths).sum * i)
      (goesOn : (statLens fs paths).sum ∉
        walk (plainSnap fs paths delimiter)
          (targetsBefore (statLens fs paths).sum (effectiveParts parts (statLens fs paths).sum) i)
          0)

section Noticed

variable {fs : FileSystem} {paths : List Path} {parts : Nat} {delimiter : List UInt8}

/-- The planner's snap fails in refused paths and nowhere else. -/
theorem servedSnap_cases (fs : FileSystem) (paths : List Path) (delimiter : List UInt8)
    (k u : Nat) :
    (∃ path error, paths[k]? = some path ∧ served fs path = .error error ∧
      servedSnap paths (servedBytes fs) delimiter k u = .error (openError path error)) ∨
    ((∀ path error, paths[k]? = some path → served fs path ≠ .error error) ∧
      servedSnap paths (servedBytes fs) delimiter k u =
        .ok (contentSnap fs paths delimiter k u)) := by
  cases here : paths[k]? with
  | none =>
      refine .inr ⟨fun _ _ eq => (by cases eq), ?_⟩
      rw [servedSnap, contentSnap, here]
  | some path =>
      rw [servedSnap, contentSnap, here]
      dsimp only
      cases found : served fs path with
      | error error =>
          have bytes : servedBytes fs path = .error error := by rw [servedBytes, found]; rfl
          rw [bytes]
          exact .inl ⟨path, error, rfl, found, rfl⟩
      | ok data =>
          have bytes : servedBytes fs path = .ok data.bytes := by rw [servedBytes, found]; rfl
          rw [bytes]
          refine .inr ⟨fun path' error eq => ?_, rfl⟩
          obtain rfl := Option.some.inj eq
          rw [found]
          exact fun eq => by cases eq

/-- A target that does not lie inside a refused path is snapped. -/
theorem snapped_of_served (delimiter : List UInt8) {t : Nat} (lt : t < (statLens fs paths).sum)
    (fine : ∀ k path error, Inside (statLens fs paths) k t → paths[k]? = some path →
      served fs path ≠ .error error) :
    sourcedSnap fs paths delimiter t =
      .ok (plainSnap fs paths delimiter t) := by
  refine lineSnapE_eq_lineSnap lt fun k inside => ?_
  rcases servedSnap_cases fs paths delimiter k (t - offset (statLens fs paths) k) with
    ⟨path, error, here, refused, _⟩ | ⟨_, ok⟩
  · exact absurd refused (fine k path error inside here)
  · exact ok

theorem servedSnap_stays (ne : delimiter ≠ []) : ∀ k (lt : k < (statLens fs paths).length) u c,
    u < (statLens fs paths)[k] → servedSnap paths (servedBytes fs) delimiter k u = .ok c →
      u ≤ c ∧ c ≤ (statLens fs paths)[k] := by
  intro k lt u c ltU snapped
  have ltK : k < paths.length := by simpa [statLens] using lt
  have len : (statLens fs paths)[k] = statLen fs paths[k] := List.getElem_map _
  rw [len] at ltU ⊢
  rw [servedSnap, List.getElem?_eq_getElem ltK] at snapped
  dsimp only [servedBytes] at snapped
  cases found : served fs paths[k] with
  | error error =>
      rw [found] at snapped
      cases snapped
  | ok data =>
      rw [found] at snapped
      cases snapped
      rw [statLen_of_served found] at ltU ⊢
      exact ⟨le_snapEnd ne ltU.le, snapEnd_le ne data.bytes u⟩

/-- The partitions before `i`, then `i`, then the others. -/
theorem range'_split {i n : Nat} (pos : 1 ≤ i) (lt : i < n) :
    List.range' 1 (n - 1) = List.range' 1 (i - 1) ++ i :: List.range' (i + 1) (n - 1 - i) := by
  obtain ⟨d, rfl⟩ := Nat.exists_eq_add_of_lt lt
  obtain ⟨j, rfl⟩ := Nat.exists_eq_add_of_le pos
  rw [← List.range'_succ, Nat.add_sub_cancel_left, List.range'_append_1]
  congr 1
  omega

/-- The planner's loop fails if a target lies strictly inside a refused path. -/
theorem logicalCuts_error_of_target (ne : delimiter ≠ []) {i k : Nat} {path : Path}
    {error : IoError} (pos : 1 ≤ i) (lt : i < effectiveParts parts (statLens fs paths).sum)
    (fits : (statLens fs paths).sum * i < 2 ^ 128)
    (inside : Inside (statLens fs paths) k
      ((statLens fs paths).sum * i / effectiveParts parts (statLens fs paths).sum))
    (here : paths[k]? = some path) (refused : served fs path = .error error) :
    ∃ e, logicalCuts (statLens fs paths).sum parts
      (sourcedSnap fs paths delimiter) = .error e := by
  obtain ⟨total, totalEq⟩ : ∃ total, total = (statLens fs paths).sum := ⟨_, rfl⟩
  obtain ⟨n, nEq⟩ : ∃ n, n = effectiveParts parts total := ⟨_, rfl⟩
  rw [← totalEq] at lt fits inside ⊢
  rw [← nEq] at lt inside
  have fails : ∀ u, ∃ e, servedSnap paths (servedBytes fs) delimiter k u = .error e := by
    intro u
    rcases servedSnap_cases fs paths delimiter k u with ⟨_, _, _, _, failed⟩ | ⟨fine, _⟩
    · exact ⟨_, failed⟩
    · exact absurd refused (fine path error here)
  obtain ⟨e, failed⟩ := fails (total * i / n - offset (statLens fs paths) k)
  have failedE : sourcedSnap fs paths delimiter
      (total * i / n) = .error e := by
    rw [sourcedSnap, lineSnapE_inside inside, failed]
    rfl
  have ltTotal : total * i / n < total := inside.lt_sum.trans_eq totalEq.symm
  have target : logicalTarget total n i = .ok (total * i / n) := if_pos fits
  rw [logicalCuts, ← nEq, range'_split pos lt]
  refine forIn_breakStep_fails (fun j mem => ?_) target failedE ltTotal.le
    ⟨[], 0⟩ ((Nat.zero_le _).trans_lt inside.1)
  have before := List.mem_range'_1.mp mem
  have le : total * j ≤ total * i := Nat.mul_le_mul_left total (by omega)
  have leT : total * j / n ≤ total * i / n := Nat.div_le_div_right le
  refine ⟨total * j / n, if_pos (le.trans_lt fits), fun c snapped => ?_⟩
  have ltSum := inside.lt_sum
  have bounds := lineSnapE_bounds (servedSnap_stays ne) (leT.trans_lt ltSum) snapped
  have behind := lineSnapE_le_offset (servedSnap_stays ne) inside
    (fun u c eq => by
      obtain ⟨e, failed⟩ := fails u
      rw [failed] at eq
      cases eq) leT snapped
  exact ⟨bounds.1, behind.trans_lt inside.1⟩

/-- Up to a target that overflows, the loop is the walk, unless a target lies inside a
refused path. -/
theorem logicalCuts_before_overflow (ne : delimiter ≠ []) (rest : List Nat) {n i : Nat}
    (pos : 0 < (statLens fs paths).sum) (le : i ≤ n)
    (fits : ∀ j < i, (statLens fs paths).sum * j < 2 ^ 128)
    (fine : ∀ j, 1 ≤ j → j < i → ∀ k path error,
      Inside (statLens fs paths) k ((statLens fs paths).sum * j / n) →
      paths[k]? = some path → served fs path ≠ .error error) :
    ((statLens fs paths).sum ∈ walk (plainSnap fs paths delimiter)
        (targetsBefore (statLens fs paths).sum n i) 0 →
      ∃ st, forIn (List.range' 1 (i - 1) ++ rest) ⟨[], 0⟩
        (breakStep (logicalTarget (statLens fs paths).sum n)
          (sourcedSnap fs paths delimiter)
          (statLens fs paths).sum) = .ok st) ∧
    ((statLens fs paths).sum ∉ walk (plainSnap fs paths delimiter)
        (targetsBefore (statLens fs paths).sum n i) 0 →
      ∃ st, forIn (List.range' 1 (i - 1) ++ rest) ⟨[], 0⟩
        (breakStep (logicalTarget (statLens fs paths).sum n)
          (sourcedSnap fs paths delimiter)
          (statLens fs paths).sum) =
        forIn rest st (breakStep (logicalTarget (statLens fs paths).sum n)
          (sourcedSnap fs paths delimiter)
          (statLens fs paths).sum)) := by
  have index : ∀ j ∈ List.range' 1 (i - 1), 1 ≤ j ∧ j < i := fun j mem => by
    have := List.mem_range'_1.mp mem
    omega
  have targets : ∀ j ∈ List.range' 1 (i - 1), logicalTarget (statLens fs paths).sum n j =
      .ok ((statLens fs paths).sum * j / n) := fun j mem => if_pos (fits j (index j mem).2)
  have lt : ∀ j ∈ List.range' 1 (i - 1),
      (statLens fs paths).sum * j / n < (statLens fs paths).sum := fun j mem =>
    logicalTarget_lt pos ((index j mem).2.trans_le le) (targets j mem)
  have snaps : ∀ j ∈ List.range' 1 (i - 1), _ := fun j mem =>
    snapped_of_served delimiter (lt j mem) (fine j (index j mem).1 (index j mem).2)
  exact forIn_breakStep_append targets snaps
    (fun j mem => (lineSnapE_bounds (servedSnap_stays ne) (lt j mem) (snaps j mem)).1) ⟨[], 0⟩

/-- No product for one of the first `n` targets leaves 128 bits, or there is a first
one that does. -/
theorem fits_or_first_overflow (total n : Nat) :
    (∀ j < n, total * j < 2 ^ 128) ∨
      ∃ i, 1 ≤ i ∧ i < n ∧ (∀ j < i, total * j < 2 ^ 128) ∧ 2 ^ 128 ≤ total * i := by
  induction n with
  | zero => exact .inl fun j lt => absurd lt (Nat.not_lt_zero j)
  | succ n ih =>
      rcases ih with fits | ⟨i, pos, lt, fits, large⟩
      · by_cases last : total * n < 2 ^ 128
        · refine .inl fun j lt => ?_
          rcases (Nat.le_of_lt_succ lt).lt_or_eq with lt | rfl
          · exact fits j lt
          · exact last
        · have pos : 1 ≤ n := Nat.pos_of_ne_zero fun zero => last (by simp [zero])
          exact .inr ⟨n, pos, Nat.lt_succ_self n, fits, Nat.not_lt.mp last⟩
      · exact .inr ⟨i, pos, lt.trans (Nat.lt_succ_self n), fits, large⟩

/-- The planner's loop fails exactly for the targets of `Noticed`. -/
theorem logicalCuts_error_iff (ne : delimiter ≠ []) (pos : 0 < (statLens fs paths).sum)
    (small : (statLens fs paths).sum < 2 ^ 128) (found : ∀ path ∈ paths, fs.follow path ≠ none) :
    (∃ e, logicalCuts (statLens fs paths).sum parts
      (sourcedSnap fs paths delimiter) = .error e) ↔
      Noticed fs paths parts delimiter := by
  obtain ⟨n, nEq⟩ : ∃ n, n = effectiveParts parts (statLens fs paths).sum := ⟨_, rfl⟩
  constructor
  · rintro ⟨e, failed⟩
    by_contra unnoticed
    have fine : ∀ j, 1 ≤ j → j < n → (statLens fs paths).sum * j < 2 ^ 128 →
        ∀ k path error, Inside (statLens fs paths) k ((statLens fs paths).sum * j / n) →
          paths[k]? = some path → served fs path ≠ .error error :=
      fun j posJ ltJ fits k path error inside here refused =>
        unnoticed (.target posJ (nEq ▸ ltJ) fits (nEq ▸ inside) here refused)
    rw [logicalCuts, ← nEq] at failed
    rcases fits_or_first_overflow (statLens fs paths).sum n with fits | ⟨i, posI, ltI, fits, large⟩
    · have loop := logicalCuts_before_overflow ne [] pos le_rfl fits
        fun j posJ lt => fine j posJ lt (fits j lt)
      rw [List.append_nil] at loop
      by_cases reached : (statLens fs paths).sum ∈
          walk (plainSnap fs paths delimiter) (targetsBefore (statLens fs paths).sum n n) 0
      · obtain ⟨st, run⟩ := loop.1 reached
        rw [run] at failed
        cases failed
      · obtain ⟨st, run⟩ := loop.2 reached
        rw [run] at failed
        cases failed
    · -- The walk has come to the end before the first target that overflows.
      have loop := logicalCuts_before_overflow ne (i :: List.range' (i + 1) (n - 1 - i)) pos ltI.le
        fits fun j posJ lt => fine j posJ (lt.trans ltI) (fits j lt)
      rw [← range'_split posI ltI] at loop
      by_cases reached : (statLens fs paths).sum ∈
          walk (plainSnap fs paths delimiter) (targetsBefore (statLens fs paths).sum n i) 0
      · obtain ⟨st, run⟩ := loop.1 reached
        rw [run] at failed
        cases failed
      · exact unnoticed (.overflow posI (nEq ▸ ltI) fits large (nEq ▸ reached))
  · intro noticed
    cases noticed with
    | missing mem gone => exact absurd gone (found _ mem)
    | tooLarge large => exact absurd small (Nat.not_lt.mpr large)
    | target posI lt fits inside here refused =>
        exact logicalCuts_error_of_target ne posI lt fits inside here refused
    | @overflow i posI lt fits large goesOn =>
        by_cases fine : ∀ j, 1 ≤ j → j < i → ∀ k path error,
            Inside (statLens fs paths) k ((statLens fs paths).sum * j / n) →
            paths[k]? = some path → served fs path ≠ .error error
        · rw [← nEq] at lt goesOn
          have loop := logicalCuts_before_overflow ne (i :: List.range' (i + 1) (n - 1 - i))
            pos lt.le fits fine
          obtain ⟨st, run⟩ := loop.2 goesOn
          have target : logicalTarget (statLens fs paths).sum n i =
              .error "logical target arithmetic overflow" := if_neg (Nat.not_lt.mpr large)
          rw [logicalCuts, ← nEq, range'_split posI lt, run, List.forIn_cons,
            breakStep_no_target target]
          exact ⟨_, rfl⟩
        · simp only [not_forall, not_not] at fine
          obtain ⟨j, posJ, ltJ, k, path, error, inside, here, refused⟩ := fine
          exact logicalCuts_error_of_target ne posJ (ltJ.trans lt) (fits j ltJ) (nEq ▸ inside) here
            refused

/-- The sourced planner returns an error exactly when it notices something. -/
theorem planSourced_error_iff {ω : Type} {system : System ω} {options : PlannerOptions}
    {allocate : Nat → Option Nat} (serves : ServesFiles system fs)
    (window : options.mode = .windowed → viewAlignment ≤ options.windowBytes)
    (ne : delimiter ≠ [])
    (allocates : Allocates allocate (bufferLen options.scanBufferBytes delimiter.length))
    (pos : 1 ≤ parts) (s : ViewState ω) :
    Ensures (planSourced system allocate fs options paths parts delimiter) s fun r _ =>
      (∃ e, r = .error e) ↔ Noticed fs paths parts delimiter := by
  by_cases found : ∀ path ∈ paths, fs.follow path ≠ none
  · refine (planLogicalPartitionsSourced_ensures (statLen fs) (servedBytes fs) parts ne
      (fun path _ => statLen_le fs path) (fun path mem => fileBackend_metadata (found path mem))
      (fun path _ => fileBackend_serves serves window path) allocates trivial).mono ?_
    rintro r _ rfl
    change (∃ e, logicalResult (statLens fs paths) parts (sourcedSnap fs paths delimiter) =
      .error e) ↔ _
    rw [logicalResult, if_neg (by omega)]
    by_cases small : (statLens fs paths).sum < 2 ^ 128
    · rw [if_pos small, logicalPlan]
      by_cases empty : (statLens fs paths).sum = 0
      · have noParts : effectiveParts parts (statLens fs paths).sum = 0 := by
          rw [empty, effectiveParts_eq (Nat.zero_le _), Nat.min_zero]
        rw [if_pos empty]
        constructor
        · rintro ⟨_, eq⟩
          cases eq
        intro noticed
        cases noticed with
        | missing mem gone => exact absurd gone (found _ mem)
        | tooLarge large => exact absurd small (Nat.not_lt.mpr large)
        | target _ lt => exact absurd lt (by omega)
        | overflow _ lt => exact absurd lt (by omega)
      · rw [if_neg empty, ← logicalCuts_error_iff ne (Nat.pos_of_ne_zero empty) small found]
        exact exists_map_eq_error _
    · rw [if_neg small]
      exact ⟨fun _ => .tooLarge (Nat.not_lt.mp small), fun _ => ⟨_, rfl⟩⟩
  · simp only [not_forall, not_not] at found
    obtain ⟨path, mem, gone⟩ := found
    have missing : (fileBackend system fs options).metadata path = .error notFound := by
      change (fs.metadata path).map Entry.len = _
      rw [FileSystem.metadata, gone]
      rfl
    refine (planLogicalPartitionsSourced_stat_error pos mem missing).mono fun r _ failed => ?_
    exact ⟨fun _ => .missing mem gone, fun _ => failed⟩

end Noticed

/-! ### Refusal parity -/

section Parity

variable {fs : FileSystem} {paths : List Path}

/-- The mapped command opens its sources if and only if every path is served. -/
theorem openSources_ok_iff :
    (∃ sources, openSources fs paths = .ok sources) ↔
      ∀ path ∈ paths, ∃ data, served fs path = .ok data := by
  have loop : ∀ (paths : List Path) (sources : List Slice),
      (∃ opened, forIn paths sources (openStep fs) = .ok opened) ↔
        ∀ path ∈ paths, ∃ data, served fs path = .ok data := by
    intro paths
    induction paths with
    | nil => exact fun sources => ⟨fun _ path mem => (by cases mem), fun _ => ⟨sources, rfl⟩⟩
    | cons path paths ih =>
        intro sources
        rw [List.forIn_cons, List.forall_mem_cons, openStep]
        cases here : mmapFileOpenPath fs path with
        | error error =>
            refine ⟨fun ⟨_, eq⟩ => (by cases eq), fun ⟨⟨data, ok⟩, _⟩ => ?_⟩
            rw [mmapFileOpenPath_ok_iff.mpr ok] at here
            cases here
        | ok data =>
            rw [and_iff_right ⟨data, mmapFileOpenPath_ok_iff.mp here⟩]
            exact ih (sources ++ [data])
  exact loop paths []

/-- A refused path fails the mapped command. -/
theorem emitFilePartitions_refused {parts : Nat} {delimiter : List UInt8} {error : String}
    (refused : openSources fs paths = .error error) :
    runFrom (emitFilePartitions fs paths parts delimiter) () = some (.error error, ()) := by
  rw [emitFilePartitions, runFrom_bind, runFrom_step, refused]

/-- The mapped command fails because a path is refused. -/
def MappedRefuses (fs : FileSystem) (paths : List Path) (parts : Nat) (delimiter : List UInt8) :
    Prop :=
  ∃ error, openSources fs paths = .error error ∧
    runFrom (emitFilePartitions fs paths parts delimiter) () = some (.error error, ())

theorem mappedRefuses_iff {parts : Nat} {delimiter : List UInt8} :
    MappedRefuses fs paths parts delimiter ↔
      ¬∀ path ∈ paths, ∃ data, served fs path = .ok data := by
  rw [← openSources_ok_iff]
  cases here : openSources fs paths with
  | error error =>
      exact ⟨fun _ ⟨_, eq⟩ => (by cases eq),
        fun _ => ⟨error, here, emitFilePartitions_refused here⟩⟩
  | ok sources =>
      refine ⟨fun ⟨_, eq, _⟩ => ?_, fun fails => absurd ⟨sources, rfl⟩ fails⟩
      rw [here] at eq
      cases eq

/-- **When refusals agree.** If the mapped command fails because a path is refused, the
sourced planner returns an error too, if and only if no path is refused or the sourced
planner notices something. -/
theorem refusal_parity_iff {ω : Type} (system : System ω) (fs : FileSystem)
    (serves : ServesFiles system fs) (options : PlannerOptions)
    (window : options.mode = .windowed → viewAlignment ≤ options.windowBytes)
    (allocate : Nat → Option Nat) (paths : List Path) (parts : Nat) (pos : 1 ≤ parts)
    (delimiter : List UInt8) (ne : delimiter ≠ [])
    (allocates : Allocates allocate (bufferLen options.scanBufferBytes delimiter.length))
    (s : ViewState ω) :
    (MappedRefuses fs paths parts delimiter →
      Ensures (planSourced system allocate fs options paths parts delimiter) s
        fun r _ => ∃ e, r = .error e) ↔
      (∀ path ∈ paths, ∃ data, served fs path = .ok data) ∨ Noticed fs paths parts delimiter := by
  have errorIff : Ensures (planSourced system allocate fs options paths parts delimiter) s
      fun r _ => (∃ e, r = .error e) ↔ Noticed fs paths parts delimiter :=
    planSourced_error_iff serves window ne allocates pos s
  obtain ⟨r, s', run, outcome⟩ := errorIff
  have ensures : Ensures (planSourced system allocate fs options paths parts delimiter) s
      (fun r _ => ∃ e, r = .error e) ↔ Noticed fs paths parts delimiter := by
    rw [← outcome]
    constructor
    · rintro ⟨r', s'', run', failed⟩
      rw [run, Option.some.injEq, Prod.mk.injEq] at run'
      rwa [run'.1]
    · exact fun failed => ⟨r, s', run, failed⟩
  rw [ensures, mappedRefuses_iff, not_imp_comm, ← or_iff_not_imp_left, or_comm]

end Parity

/-! ### A directory that no target falls into -/

/-- A read of all that is there. -/
def fullRead (bytes : List UInt8) (offset : Nat) (out : List UInt8) : Nat × List UInt8 :=
  (min out.length (bytes.length - offset),
    (bytes.drop offset).take (min out.length (bytes.length - offset)) ++
      out.drop (min out.length (bytes.length - offset)))

theorem fullRead_ok (bytes : List UInt8) (offset : Nat) (out : List UInt8) :
    ReadOk bytes offset out (fullRead bytes offset out).1 (fullRead bytes offset out).2 := by
  have length : ((bytes.drop offset).take (min out.length (bytes.length - offset))).length =
      min out.length (bytes.length - offset) := by
    rw [List.length_take, List.length_drop]
    omega
  constructor
  · rw [fullRead, List.length_append, length, List.length_drop]
    omega
  · exact Nat.min_le_left _ _
  · intro inside ne
    have := List.length_pos_of_ne_nil ne
    unfold fullRead
    dsimp only
    omega
  · exact Nat.min_le_right _ _
  · exact List.take_left' length

/-- Two records at `a`, and a directory at every other path. -/
def mixedFiles : FileSystem := fun path =>
  if path = "a" then .entry (.readable Scanner.twoRecords)
  else .entry (.special .directory 4096 (by decide))

/-- A system without short reads that grants every mapping. -/
def readsAll : System Unit where
  mmap _ := ⟨fun _ _ _ => (.ok 0, ())⟩
  pread _ offset out _ := (.ok (fullRead Scanner.twoRecords.bytes offset out), ())

theorem readsAll_serves : ServesFiles readsAll mixedFiles where
  mmap _ _ _ _ _ _ _ _ _ := ⟨0, (), rfl⟩
  pread path data ok offset out s := by
    have data_eq : data = Scanner.twoRecords := by
      unfold served FileSystem.follow mixedFiles at ok
      by_cases a : path = "a"
      · simp only [a, if_pos] at ok
        exact (Except.ok.inj ok).symm
      · simp only [a, if_neg, not_false_eq_true] at ok
        cases ok
    subst data_eq
    exact ⟨_, _, (), rfl, fullRead_ok _ offset out⟩

theorem refusal_parity_iff_mixedFiles :
    (MappedRefuses mixedFiles ["a", "d"] 2 [10] →
      Ensures (planSourced readsAll (fun _ => some 0) mixedFiles (.new .windowed) ["a", "d"] 2 [10])
        (opened ()) fun r _ => ∃ e, r = .error e) ↔
      (∀ path ∈ (["a", "d"] : List Path), ∃ data, served mixedFiles path = .ok data) ∨
        Noticed mixedFiles ["a", "d"] 2 [10] :=
  refusal_parity_iff readsAll mixedFiles readsAll_serves (.new .windowed) (fun _ => by decide)
    (fun _ => some 0) ["a", "d"] 2 (by decide) [10] (by decide) ⟨by decide, rfl⟩ (opened ())

/-- With one part there is no target, and the directory is not noticed. -/
theorem directory_unnoticed :
    MappedRefuses mixedFiles ["a", "d"] 1 [10] ∧
      ∀ mode, runFrom (planSourced readsAll (fun _ => some 0) mixedFiles (.new mode) ["a", "d"] 1
        [10]) (opened ()) = some (.ok [⟨0, [⟨0, 0, 4, 4⟩, ⟨1, 0, 4096, 4096⟩]⟩], opened ()) := by
  have refused : openSources mixedFiles ["a", "d"] =
      .error "failed to open d: not a regular file: is a directory" := rfl
  refine ⟨⟨_, refused, emitFilePartitions_refused refused⟩, fun mode => ?_⟩
  cases mode <;> decide +kernel

end Cli
