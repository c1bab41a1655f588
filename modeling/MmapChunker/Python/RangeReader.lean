import MmapChunker.Python.Bundled
import MmapChunker.Python.Datatrove
import MmapChunker.Theory.Yielded

/-!
The ranks of a `RangeJsonlReader` (`python/mmap_chunker/integrations/datatrove.py`).

`RangeJsonlReader.make` is `__init__`: the plan has to be for the file, and the lines before
each range are counted. `run` is what one rank does: it passes its input on, reads its range,
leaves out the first `skip` documents, stops at `limit`, and counts.

The range of a rank and the numbers of its lines come from the plan. `run_yields_window` says
what one rank yields for any plan of lines, whatever is skipped, limited or raised.
`ranks_read_file` goes from the file to the documents: plan with the bundled library, make
the reader, run the ranks one after the other, and the documents are those of a reader that
goes through the whole file.
-/

namespace Python

open Machine Exec Tiling Framing Lines

/-! ### Source -/

/-- What `run` does as it goes along: `stat_update("input_files")`, `update_doc_stats`,
`yield`, and `stat_update("documents")`. -/
inductive RunEvent (δ : Type) where
  | inputFile
  | docStats (document : δ)
  | yielded (document : δ)
  | documents (count : Nat)

/-- What `run` reads of `BaseDiskReader`. A limit of `-1` is none. -/
structure ReaderOptions where
  skip : Int
  limit : Int

/-- `Path(path).name`, of a path that is resolved. -/
def fileName (path : String) : String :=
  String.ofList (path.toList.reverse.takeWhile fun c => c ≠ '/').reverse

section Source

variable {δ : Type}

/-- `__init__`, of a path without NUL. -/
def RangeJsonlReader.make (env : Environment) (library : DocumentLibrary δ) (path : String)
    (plan : Plan) : Except PyException (RangeJsonlReader δ) :=
  let sourcePath := env.resolve path
  if env.resolve plan.path ≠ sourcePath then
    .error ⟨.valueError,
      "plan was built for " ++ env.reprStr plan.path ++ ", not " ++ sourcePath⟩
  else do
    let offsets ← recordOffsets env plan
    return ⟨env, library, plan, fileName sourcePath, offsets⟩

/-- The loop of `run` over the documents of a range, which end in `raised`. -/
def runLoop (skip limit : Int) (raised : Option PyException) (skipped ndocs : Nat) :
    List δ → Generated (RunEvent δ)
  | [] =>
      match raised with
      | some e => ⟨[], some e⟩
      | none => ⟨[.documents ndocs], none⟩
  | document :: documents =>
      if skipped < skip then runLoop skip limit raised (skipped + 1) ndocs documents
      else if limit ≠ -1 ∧ limit ≤ ndocs then ⟨[.documents ndocs], none⟩
      else
        let rest := runLoop skip limit raised skipped (ndocs + 1) documents
        ⟨.docStats document :: .yielded document :: rest.yielded, rest.raised⟩

/-- `run` from `range_for_part` on. -/
def RangeJsonlReader.runRank (reader : RangeJsonlReader δ) (options : ReaderOptions)
    (rank : Nat) : Generated (RunEvent δ) :=
  let nothing : Generated (RunEvent δ) :=
    if reader.plan.ranges.isEmpty ∧ rank = 0 then ⟨[.inputFile, .documents 0], none⟩
    else ⟨[], none⟩
  match reader.plan.rangeForPart rank with
  | none => nothing
  | some assignment =>
      if assignment.length = 0 then nothing
      else
        let lines := reader.readRange assignment
        let rest := runLoop options.skip options.limit lines.raised 0 0
          (lines.yielded.flatMap ReadLine.documents)
        ⟨(if rank = 0 then [.inputFile] else []) ++ rest.yielded, rest.raised⟩

/-- `run`. Of `data`, nothing is `None`. -/
def RangeJsonlReader.run (reader : RangeJsonlReader δ) (options : ReaderOptions)
    (data : Generated δ) (rank worldSize : Int) : Generated (RunEvent δ) :=
  if worldSize ≠ reader.plan.requestedParts then
    ⟨[], some ⟨.valueError,
      "world_size must equal plan.requested_parts for deterministic range ownership, got " ++
        s!"world_size={worldSize}, plan.requested_parts={reader.plan.requestedParts}"⟩⟩
  else if ¬(0 ≤ rank ∧ rank < worldSize) then
    ⟨[], some ⟨.valueError, s!"rank must be in [0, world_size), got {rank}"⟩⟩
  else
    let given := data.yielded.map RunEvent.yielded
    match data.raised with
    | some e => ⟨given, some e⟩
    | none =>
        let rest := reader.runRank options rank.toNat
        ⟨given ++ rest.yielded, rest.raised⟩

end Source

/-! ### What a run comes to -/

section Run

variable {δ : Type}

/-- The document that is yielded. -/
def RunEvent.document : RunEvent δ → Option δ
  | yielded document => some document
  | _ => none

/-- The document that is counted. -/
def RunEvent.counted : RunEvent δ → Option δ
  | docStats document => some document
  | _ => none

/-- What is added to `documents`. -/
def RunEvent.total : RunEvent δ → Nat
  | documents count => count
  | _ => 0

/-- What is added to `input_files`. -/
def RunEvent.inputFiles : RunEvent δ → Nat
  | inputFile => 1
  | _ => 0

/-- The documents a run yields, and how it ends. -/
def Generated.documents (run : Generated (RunEvent δ)) : Yielded PyException δ :=
  ⟨run.yielded.filterMap RunEvent.document, run.raised⟩

/-- What a run adds to `input_files`. -/
def Generated.inputFiles (run : Generated (RunEvent δ)) : Nat :=
  (run.yielded.map RunEvent.inputFiles).sum

/-- What a run adds to `documents`. -/
def Generated.total (run : Generated (RunEvent δ)) : Nat := (run.yielded.map RunEvent.total).sum

/-- The documents of a line, by the number of the line in the file. -/
def DocumentLibrary.documents (library : DocumentLibrary δ) (sourceName : String)
    (entry : Nat × List UInt8) : Except PyException (List δ) :=
  let document : Except PyException (Option δ) := do
    let text ← library.decodeUtf8 entry.2
    let parsed ← library.loads text
    let parsed ← decodeMedia library parsed
    library.getDocumentFromDict parsed sourceName entry.1
  match document with
  | .ok document => .ok document.toList
  | .error e =>
      if e.type = .unicodeDecodeError ∨ e.type = .eofError ∨ e.type = .jsonDecodeError then .ok []
      else .error e

/-- The documents of numbered lines, up to the first line that raises. -/
def DocumentLibrary.read (library : DocumentLibrary δ) (sourceName : String)
    (lines : List (Nat × List UInt8)) : Yielded PyException δ :=
  Yielded.collect (library.documents sourceName) lines

/-- The limit `run` keeps to. -/
def limitOf (limit : Int) : Option Nat := if limit = -1 then none else some limit.toNat

/-- The events of documents that are counted and yielded. -/
def tell (documents : List δ) : List (RunEvent δ) :=
  documents.flatMap fun document => [.docStats document, .yielded document]

/-- The events of the documents that are kept, after `ndocs` of them: their number comes
last, unless there was an exception. -/
def tellKept (ndocs : Nat) (kept : Yielded PyException δ) : Generated (RunEvent δ) :=
  ⟨tell kept.items ++
    match kept.error with
    | none => [.documents (ndocs + kept.items.length)]
    | some _ => [], kept.error⟩

end Run

/-! ### The loop -/

section Loop

variable {δ : Type}

theorem tell_cons (document : δ) (documents : List δ) :
    tell (document :: documents) = .docStats document :: .yielded document :: tell documents := rfl

/-- Each document is counted once and yielded once. -/
theorem filterMap_tell {f : RunEvent δ → Option δ}
    (once : ∀ document, [.docStats document, .yielded document].filterMap f = [document])
    (documents : List δ) : (tell documents).filterMap f = documents := by
  unfold tell
  rw [List.filterMap_flatMap]
  simp only [once]
  exact List.flatMap_singleton' documents

/-- Documents alone add nothing to a total. -/
theorem sum_tell {f : RunEvent δ → Nat} (docStats : ∀ document, f (.docStats document) = 0)
    (yielded : ∀ document, f (.yielded document) = 0) (documents : List δ) :
    ((tell documents).map f).sum = 0 := by
  induction documents with
  | nil => rfl
  | cons document documents ih =>
      rw [tell_cons]
      simp [docStats, yielded, ih]

theorem tellKept_cons (ndocs : Nat) (document : δ) (kept : Yielded PyException δ) :
    tellKept ndocs (⟨[document], none⟩ * kept) =
      ⟨.docStats document :: .yielded document :: (tellKept (ndocs + 1) kept).yielded,
        (tellKept (ndocs + 1) kept).raised⟩ := by
  rw [Yielded.mul_eq, Yielded.andThen_of_ok rfl]
  unfold tellKept
  dsimp only
  rw [List.singleton_append, tell_cons, List.length_cons, Nat.add_assoc,
    Nat.add_comm 1 kept.items.length]
  rfl

/-- The loop keeps the documents of a window. -/
theorem runLoop_eq (skip limit : Int) (raised : Option PyException) (skipped ndocs : Nat)
    (documents : List δ) :
    runLoop skip limit raised skipped ndocs documents =
      tellKept ndocs (Yielded.window (skip.toNat - skipped)
        ((limitOf limit).map fun n => n - ndocs) ⟨documents, raised⟩) := by
  induction documents generalizing skipped ndocs with
  | nil =>
      rw [Yielded.window_nil]
      cases raised <;> rfl
  | cons document documents ih =>
      rw [runLoop]
      by_cases skips : (skipped : Int) < skip
      · have more : skip.toNat - skipped = skip.toNat - (skipped + 1) + 1 := by omega
        rw [if_pos skips, ih, more, Yielded.window_skip]
      · rw [if_neg skips, Nat.sub_eq_zero_of_le (by omega)]
        by_cases full : limit ≠ -1 ∧ limit ≤ ndocs
        · have none_ : (limitOf limit).map (fun n => n - ndocs) = some 0 := by
            rw [limitOf, if_neg full.1, Option.map_some, Nat.sub_eq_zero_of_le (by omega)]
          rw [if_pos full, none_, Yielded.window_full]
          rfl
        · have free : (limitOf limit).map (fun n => n - ndocs) ≠ some 0 := by
            unfold limitOf
            split
            · simp
            · simp only [Option.map_some, ne_eq, Option.some.injEq]
              omega
          rw [if_neg full, Yielded.window_take free, tellKept_cons, ih, Option.map_map,
            Nat.sub_eq_zero_of_le (show skip.toNat ≤ skipped by omega)]
          rfl

end Loop

/-! ### The lines of a range -/

section Reading

variable {δ : Type} {reader : RangeJsonlReader δ} {file : List UInt8} {rank : Nat}

/-- The documents of the lines that were read, and how reading them ended. -/
def Generated.ofLines (lines : Generated (ReadLine δ)) : Yielded PyException δ :=
  ⟨lines.yielded.flatMap ReadLine.documents, lines.raised⟩

/-- The number of a line in its range matters only through its number in the file. -/
theorem documentFromLine_eq {assignment : Range} {localLi n : Nat}
    (known : reader.globalLi assignment localLi = .ok n) (line : List UInt8) :
    reader.documentFromLine line assignment localLi =
      reader.library.documents reader.sourceName (n, line) := by
  unfold RangeJsonlReader.documentFromLine
  rw [known]
  rfl

/-- A range that ends where a line does is read line by line. -/
theorem readLines_read {assignment : Range} {offset localLi base : Nat}
    (inside : assignment.stop ≤ file.length)
    (frame : FrameEnd [newline] file assignment.stop)
    (known : ∀ i, reader.globalLi assignment i = .ok (base + i)) :
    (reader.readLines file assignment offset localLi).ofLines =
      reader.library.read reader.sourceName
        (((records [newline] (slice file (offset, assignment.stop))).zipIdx
          (base + localLi)).map Prod.swap) := by
  fun_induction RangeJsonlReader.readLines reader file assignment offset localLi with
  | case1 offset localLi more line empty =>
      have rest : file.drop offset ≠ [] := by
        apply List.ne_nil_of_length_pos
        rw [List.length_drop]
        omega
      exact absurd (List.length_eq_zero_iff.mp empty) (firstLine_ne_nil rest)
  | case2 offset localLi more line read past =>
      exact absurd (firstLine_le_of_frameEnd frame more inside) (Nat.not_le.mpr past)
  | case3 offset localLi more line read fits e failed =>
      rw [documentFromLine_eq (known localLi)] at failed
      rw [records_slice more inside (Nat.not_lt.mp fits), List.zipIdx_cons, List.map_cons]
      exact (Yielded.collect_cons_error failed _).symm
  | case4 offset localLi more line read fits documents parsed rest ih =>
      rw [documentFromLine_eq (known localLi)] at parsed
      rw [records_slice more inside (Nat.not_lt.mp fits), List.zipIdx_cons, List.map_cons]
      refine Eq.trans ?_ (Yielded.collect_cons_ok parsed _).symm
      rw [Nat.add_assoc base localLi 1]
      exact congrArg (fun x => ⟨documents, none⟩ * x) ih
  | case5 offset localLi done =>
      have none : slice file (offset, assignment.stop) = [] := by
        rw [slice, Nat.sub_eq_zero_of_le (Nat.not_lt.mp done), List.take_zero]
      rw [none, records_nil]
      rfl

/-- The reader was made for this file and a plan of its lines: the ranges carry their
positions, and those that are not empty end where a line does. -/
structure RangeJsonlReader.ReadsLines (reader : RangeJsonlReader δ) (file : List UInt8) : Prop
    extends reader.Reads file where
  indexed : reader.plan.ranges.map Range.index = List.range reader.plan.ranges.length
  ends : ∀ r ∈ reader.plan.ranges, r.start < r.stop → FrameEnd [newline] file r.stop

namespace RangeJsonlReader.ReadsLines

theorem index_eq (reads : reader.ReadsLines file) {r : Range}
    (here : reader.plan.rangeForPart rank = some r) : r.index = rank := by
  obtain ⟨lt, -⟩ := List.getElem?_eq_some_iff.mp here
  have same : (reader.plan.ranges.map Range.index)[rank]? = some r.index := by
    rw [List.getElem?_map]
    exact congrArg _ here
  rw [reads.indexed, List.getElem?_range lt] at same
  exact (Option.some.inj same).symm

theorem globalLi_eq (reads : reader.ReadsLines file) {r : Range}
    (here : reader.plan.rangeForPart rank = some r) (localLi : Nat) :
    reader.globalLi r localLi = .ok (reader.offsets.getD rank 0 + localLi) := by
  have lt : rank < reader.offsets.length := by
    rw [reads.length_offsets]
    exact (List.getElem?_eq_some_iff.mp here).1
  rw [RangeJsonlReader.globalLi, reads.index_eq here, List.getElem?_eq_getElem lt,
    List.getD_eq_getElem _ _ lt]

/-- A rank reads the lines of its range, by their numbers in the file. -/
theorem readRank_read (reads : reader.ReadsLines file) (rank : Nat) :
    (reader.readRank rank).ofLines =
      reader.library.read reader.sourceName (reader.lines file rank) := by
  cases here : reader.plan.rangeForPart rank with
  | none =>
      rw [RangeJsonlReader.Reads.lines_of_none here, readRank, here]
      rfl
  | some r =>
      have length := r.length_eq
      rw [reads.readRank_eq here, reads.lines_of_some here]
      by_cases empty : r.length = 0
      · have none : slice file r.bounds = [] := by
          rw [slice, Range.bounds, show r.stop - r.start = 0 by omega, List.take_zero]
        rw [if_pos empty, none, records_nil]
        rfl
      · have mem := List.mem_of_getElem? here
        have nonempty : r.start < r.stop := by omega
        rw [if_neg empty]
        exact readLines_read (reads.stop_le mem nonempty) (reads.ends r mem nonempty)
          (reads.globalLi_eq here)

/-- The ranks read the lines of the file, one rank after the other. -/
theorem prod_readRank (reads : reader.ReadsLines file) {worldSize : Nat}
    (enough : reader.plan.actualPartitions ≤ worldSize) :
    ((List.range worldSize).map fun rank => (reader.readRank rank).ofLines).prod =
      reader.library.read reader.sourceName (enumerate (records [newline] file)) := by
  simp only [reads.readRank_read]
  rw [← reads.flatMap_lines enough reads.ends, List.flatMap_def, DocumentLibrary.read,
    ← Yielded.prod_map_collect, List.map_map]
  rfl

end RangeJsonlReader.ReadsLines

/-- A reader is made for the plan, the library and the environment that were given. -/
theorem make_ok {env : Environment} {library : DocumentLibrary δ} {path : String} {plan : Plan}
    (made : RangeJsonlReader.make env library path plan = .ok reader) :
    ∃ offsets, recordOffsets env plan = .ok offsets ∧
      reader = ⟨env, library, plan, fileName (env.resolve path), offsets⟩ := by
  unfold RangeJsonlReader.make at made
  dsimp only at made
  split at made
  · cases made
  · obtain ⟨offsets, counted, made⟩ := Exec.bind_ok made
    cases made
    exact ⟨offsets, counted, rfl⟩

/-- A reader is made for a plan of the file whose ranges are inside it. -/
theorem make_eq {env : Environment} {library : DocumentLibrary δ} {path : String} {plan : Plan}
    (same : env.resolve plan.path = env.resolve path)
    (opened : env.openBinary plan.path = .ok file) (small : file.length ≤ isizeMax)
    (inside : ∀ r ∈ plan.ranges, r.stop ≤ file.length) :
    RangeJsonlReader.make env library path plan =
      .ok ⟨env, library, plan, fileName (env.resolve path),
        Lines.offsets newline file 0 (plan.ranges.map Range.bounds)⟩ := by
  unfold RangeJsonlReader.make
  dsimp only
  rw [if_neg (not_not.mpr same), recordOffsets_eq opened small inside]
  rfl

/-- The ranges of a plan that was checked for newlines end where lines do. -/
theorem Sound.frameEnd {env : Environment} {plan : Plan} (sound : Sound env plan)
    (opened : env.openBinary plan.path = .ok file) (size : plan.fileSize = file.length)
    (lines : plan.delimiter = newline) {r : Range} (mem : r ∈ plan.ranges)
    (nonempty : r.start < r.stop) (le : r.stop ≤ file.length) :
    FrameEnd [newline] file r.stop := by
  rcases le.eq_or_lt with last | interior
  · rw [last]
    exact frameEnd_length (List.cons_ne_nil _ _) file
  · have pos := Nat.zero_lt_of_lt nonempty
    obtain ⟨file', opened', -, here⟩ := sound.aligned r mem r.stop (.inr rfl) pos (size ▸ interior)
    cases opened.symm.trans opened'
    rw [lines] at here
    exact (frameEnd_singleton le).mpr (.inr (.inr ⟨pos, Occurrence.occursAt_singleton.mpr here⟩))

/-- A reader that was made for a plan of lines reads lines. -/
theorem Sound.readsLines {env : Environment} {library : DocumentLibrary δ} {path : String}
    {plan : Plan} (sound : Sound env plan) (opened : env.openBinary plan.path = .ok file)
    (size : plan.fileSize = file.length) (lines : plan.delimiter = newline)
    (made : RangeJsonlReader.make env library path plan = .ok reader) :
    reader.ReadsLines file := by
  obtain ⟨offsets, counted, rfl⟩ := make_ok made
  have reads : RangeJsonlReader.Reads ⟨env, library, plan, fileName (env.resolve path), offsets⟩
      file := Sound.reads sound opened size counted
  exact ⟨reads, sound.indexed, fun r mem nonempty =>
    sound.frameEnd opened size lines mem nonempty (reads.stop_le mem nonempty)⟩

end Reading

/-! ### Ranks -/

section Ranks

variable {δ : Type} {reader : RangeJsonlReader δ} {options : ReaderOptions} {rank : Nat}

/-- The documents a rank keeps: those after the first `skip`, up to `limit`. -/
def RangeJsonlReader.kept (reader : RangeJsonlReader δ) (options : ReaderOptions) (rank : Nat) :
    Yielded PyException δ :=
  Yielded.window options.skip.toNat (limitOf options.limit) (reader.readRank rank).ofLines

/-- Whether or not a rank has bytes to read. -/
theorem runRank_cases (reader : RangeJsonlReader δ) (options : ReaderOptions) (rank : Nat) :
    ((∀ r, reader.plan.rangeForPart rank = some r → r.length = 0) ∧
      reader.runRank options rank =
        (if reader.plan.ranges.isEmpty ∧ rank = 0 then ⟨[.inputFile, .documents 0], none⟩
          else ⟨[], none⟩) ∧
      reader.kept options rank = ⟨[], none⟩) ∨
    reader.runRank options rank =
      ⟨(if rank = 0 then [.inputFile] else []) ++
        (tellKept 0 (reader.kept options rank)).yielded,
        (reader.kept options rank).error⟩ := by
  unfold RangeJsonlReader.runRank RangeJsonlReader.kept RangeJsonlReader.readRank
  cases here : reader.plan.rangeForPart rank with
  | none => exact .inl ⟨by simp, rfl, Yielded.window_nil⟩
  | some r =>
      dsimp only
      by_cases idle : r.length = 0
      · rw [if_pos idle, if_pos idle]
        exact .inl ⟨by simpa using idle, rfl, Yielded.window_nil⟩
      · have windowed : (limitOf options.limit).map (fun n => n - 0) = limitOf options.limit := by
          simp
        rw [if_neg idle, if_neg idle, runLoop_eq, windowed]
        exact .inr rfl

/-- What looks at each document once finds those a rank keeps. -/
theorem runRank_filterMap {f : RunEvent δ → Option δ}
    (once : ∀ document, [.docStats document, .yielded document].filterMap f = [document])
    (opening : f .inputFile = none) (closing : ∀ count, f (.documents count) = none) :
    (reader.runRank options rank).yielded.filterMap f = (reader.kept options rank).items := by
  rcases runRank_cases reader options rank with ⟨-, run, kept⟩ | run
  · rw [run, kept]
    split <;> simp [opening, closing]
  · have opened : (if rank = 0 then [RunEvent.inputFile] else []).filterMap f = [] := by
      split <;> simp [opening]
    rw [run, tellKept, List.filterMap_append, List.filterMap_append, opened, filterMap_tell once]
    cases (reader.kept options rank).error <;> simp [closing]

theorem runRank_raised :
    (reader.runRank options rank).raised = (reader.kept options rank).error := by
  rcases runRank_cases reader options rank with ⟨-, run, kept⟩ | run
  · rw [run, kept]
    split <;> rfl
  · rw [run]

/-- The documents of a rank are those it keeps. -/
theorem runRank_documents (reader : RangeJsonlReader δ) (options : ReaderOptions) (rank : Nat) :
    (reader.runRank options rank).documents = reader.kept options rank :=
  congrArg₂ Yielded.mk (runRank_filterMap (fun _ => rfl) rfl fun _ => rfl) runRank_raised

/-- A rank that does not raise adds the number of its documents. -/
theorem runRank_total (ok : (reader.kept options rank).error = none) :
    (reader.runRank options rank).total = (reader.kept options rank).items.length := by
  rcases runRank_cases reader options rank with ⟨-, run, kept⟩ | run
  · rw [run, kept]
    split <;> rfl
  · have silent : ((tell (reader.kept options rank).items).map RunEvent.total).sum = 0 :=
      sum_tell (fun _ => rfl) (fun _ => rfl) _
    rw [run]
    unfold Generated.total tellKept
    rw [ok]
    simp only [List.map_append, List.sum_append, silent]
    split <;> simp [RunEvent.total]

/-- The first rank counts the input file, when it has bytes to read or there are none. -/
theorem runRank_inputFiles
    (proper : ∀ r ∈ reader.plan.ranges, r.length ≠ 0) :
    (reader.runRank options rank).inputFiles = if rank = 0 then 1 else 0 := by
  rcases runRank_cases reader options rank with ⟨idle, run, -⟩ | run
  · rw [run]
    by_cases first : rank = 0
    · have empty : reader.plan.ranges.isEmpty = true := by
        cases ranges : reader.plan.ranges with
        | nil => rfl
        | cons r rs =>
            have here : reader.plan.rangeForPart rank = some r := by
              rw [Plan.rangeForPart, ranges, first]
              rfl
            exact absurd (idle r here) (proper r (List.mem_of_getElem? here))
      rw [if_pos ⟨empty, first⟩, if_pos first]
      rfl
    · rw [if_neg fun both => first both.2, if_neg first]
      rfl
  · have silent : ((tell (reader.kept options rank).items).map RunEvent.inputFiles).sum = 0 :=
      sum_tell (fun _ => rfl) (fun _ => rfl) _
    rw [run]
    unfold Generated.inputFiles tellKept
    simp only [List.map_append, List.sum_append, silent]
    cases (reader.kept options rank).error <;> split <;> simp [RunEvent.inputFiles]

/-- `world_size` and `rank` are checked before anything is yielded. -/
theorem run_refused {data : Generated δ} {rank worldSize : Int}
    (refused : ¬(worldSize = reader.plan.requestedParts ∧ 0 ≤ rank ∧ rank < worldSize)) :
    (reader.run options data rank worldSize).yielded = [] ∧
      ∃ message, (reader.run options data rank worldSize).raised = some ⟨.valueError, message⟩ := by
  unfold RangeJsonlReader.run
  by_cases fits : worldSize = reader.plan.requestedParts
  · have outside : ¬(0 ≤ rank ∧ rank < worldSize) := fun inside => refused ⟨fits, inside⟩
    rw [if_neg (not_not.mpr fits), if_pos outside]
    exact ⟨rfl, _, rfl⟩
  · rw [if_pos fits]
    exact ⟨rfl, _, rfl⟩

/-- A run that is not refused passes its input on, and then reads its range. -/
theorem run_accepted {data : Generated δ} {rank worldSize : Int}
    (fits : worldSize = reader.plan.requestedParts) (inside : 0 ≤ rank ∧ rank < worldSize) :
    reader.run options data rank worldSize =
      match data.raised with
      | some e => ⟨data.yielded.map RunEvent.yielded, some e⟩
      | none =>
          ⟨data.yielded.map RunEvent.yielded ++ (reader.runRank options rank.toNat).yielded,
            (reader.runRank options rank.toNat).raised⟩ := by
  unfold RangeJsonlReader.run
  rw [if_neg (not_not.mpr fits), if_neg (not_not.mpr inside)]

/-- Without an input, a run only reads its range. -/
theorem run_alone {worldSize : Nat} (fits : worldSize = reader.plan.requestedParts)
    (lt : rank < worldSize) :
    reader.run options ⟨[], none⟩ rank worldSize = reader.runRank options rank := by
  rw [run_accepted (congrArg Nat.cast fits) ⟨by omega, by omega⟩, Int.toNat_natCast]
  rfl

/-- The documents of a run are those of its input and those it keeps. -/
theorem run_documents {data : Generated δ} {rank worldSize : Int}
    (fits : worldSize = reader.plan.requestedParts) (inside : 0 ≤ rank ∧ rank < worldSize) :
    (reader.run options data rank worldSize).documents =
      ⟨data.yielded, data.raised⟩ * reader.kept options rank.toNat := by
  have given : (data.yielded.map RunEvent.yielded).filterMap RunEvent.document = data.yielded := by
    rw [List.filterMap_map]
    exact List.filterMap_some
  rw [run_accepted fits inside, Yielded.mul_eq]
  cases raised : data.raised with
  | some e =>
      rw [Yielded.andThen_of_error rfl]
      exact congrArg (fun items => Yielded.mk items (some e)) given
  | none =>
      rw [Yielded.andThen_of_ok rfl, ← runRank_documents]
      unfold Generated.documents
      rw [List.filterMap_append, given]

/-- A run whose input did not raise counts the documents it keeps. -/
theorem run_counted {data : Generated δ} {rank worldSize : Int}
    (fits : worldSize = reader.plan.requestedParts) (inside : 0 ≤ rank ∧ rank < worldSize)
    (ok : data.raised = none) :
    (reader.run options data rank worldSize).yielded.filterMap RunEvent.counted =
      (reader.kept options rank.toNat).items := by
  have given : (data.yielded.map RunEvent.yielded).filterMap RunEvent.counted = [] := by
    simp [RunEvent.counted]
  rw [run_accepted fits inside, ok]
  dsimp only
  rw [List.filterMap_append, given, List.nil_append]
  exact runRank_filterMap (fun _ => rfl) rfl fun _ => rfl

theorem run_total {data : Generated δ} {rank worldSize : Int}
    (fits : worldSize = reader.plan.requestedParts) (inside : 0 ≤ rank ∧ rank < worldSize)
    (ok : data.raised = none) (quiet : (reader.kept options rank.toNat).error = none) :
    (reader.run options data rank worldSize).total =
      (reader.kept options rank.toNat).items.length := by
  have given : ((data.yielded.map RunEvent.yielded).map RunEvent.total).sum = 0 := by
    rw [List.map_map]
    exact List.sum_eq_zero fun n mem => by
      obtain ⟨document, -, rfl⟩ := List.mem_map.mp mem
      rfl
  rw [run_accepted fits inside, ok, ← runRank_total quiet]
  unfold Generated.total
  dsimp only
  rw [List.map_append, List.sum_append, given, Nat.zero_add]

end Ranks

/-- **What a rank yields.** Let a reader be made for a plan of lines that a planner returned,
over whatever library. The lines of its ranks, one rank after the other, are the lines of
the file with their numbers, if there is a rank for every range. In every call of `run`:

* with another `world_size`, or a `rank` outside of it, `ValueError` is raised before
  anything is yielded;
* otherwise the input is passed on first. If that does not raise, what follows are the
  documents of the lines of the rank, up to the first line that raises: those after `skip`,
  up to `limit`, and not the exception if there is a document beyond the limit;
* these documents are counted, each once, and their number is added unless the run raised. -/
theorem run_yields_window {δ : Type} (env : Environment) (library : DocumentLibrary δ)
    (path : String) (plan : Plan) (file : List UInt8) (reader : RangeJsonlReader δ)
    (sound : Sound env plan) (lines : plan.delimiter = newline)
    (opened : env.openBinary plan.path = .ok file) (size : plan.fileSize = file.length)
    (made : RangeJsonlReader.make env library path plan = .ok reader) :
    (plan.actualPartitions ≤ plan.requestedParts →
      (List.range plan.requestedParts).flatMap (reader.lines file) =
        enumerate (records [newline] file)) ∧
    ∀ (options : ReaderOptions) (data : Generated δ) (rank worldSize : Int),
      (¬(worldSize = plan.requestedParts ∧ 0 ≤ rank ∧ rank < worldSize) →
        (reader.run options data rank worldSize).yielded = [] ∧
          ∃ message,
            (reader.run options data rank worldSize).raised = some ⟨.valueError, message⟩) ∧
      (worldSize = plan.requestedParts → 0 ≤ rank → rank < worldSize →
        ∃ kept, kept = Yielded.window options.skip.toNat (limitOf options.limit)
            (library.read (fileName (env.resolve path)) (reader.lines file rank.toNat)) ∧
          (reader.run options data rank worldSize).documents =
            ⟨data.yielded, data.raised⟩ * kept ∧
          (data.raised = none →
            (reader.run options data rank worldSize).yielded.filterMap RunEvent.counted =
              kept.items ∧
            (kept.error = none →
              (reader.run options data rank worldSize).total = kept.items.length))) := by
  have reads := sound.readsLines opened size lines made
  obtain ⟨offsets, -, rfl⟩ := make_ok made
  constructor
  · intro enough
    exact reads.flatMap_lines enough reads.ends
  · intro options data rank worldSize
    constructor
    · intro refused
      exact run_refused refused
    · intro fits low high
      refine ⟨_, rfl, ?_⟩
      have read := reads.readRank_read rank.toNat
      dsimp only at read
      rw [← read]
      refine ⟨run_documents fits ⟨low, high⟩, fun ok => ⟨run_counted fits ⟨low, high⟩ ok, ?_⟩⟩
      intro quiet
      exact run_total fits ⟨low, high⟩ ok quiet

/-- Twice the line with the object whose `text` is `a`. -/
def twoTexts : Slice where
  addr := 3
  bytes := [123, 34, 116, 101, 120, 116, 34, 58, 34, 97, 34, 125, 10,
    123, 34, 116, 101, 120, 116, 34, 58, 34, 97, 34, 125, 10]
  fits := by decide

def textLine : List UInt8 := twoTexts.bytes.take 13

/-- What Python sees of it. -/
def textsEnv : Environment where
  resolve := id
  stat _ := .regular twoTexts.len
  openBinary _ := .ok twoTexts.bytes
  reprStr s := "'" ++ s ++ "'"
  maxOffset _ := twoTexts.bytes.length
  length_le _ _ := length_le_of_only

/-- A document is its text and the number of its line. -/
def textLibrary : DocumentLibrary (String × Nat) where
  decodeUtf8 line := .ok (String.ofList (line.map fun byte => Char.ofNat byte.toNat))
  loads text :=
    if text = String.ofList (textLine.map fun byte => Char.ofNat byte.toNat) then
      .ok (.dict [("text", .str "a")])
    else .error ⟨.jsonDecodeError, "unexpected character: line 1 column 1 (char 0)"⟩
  decodeBase64 _ := .ok []
  getDocumentFromDict parsed _ number :=
    match parsed with
    | .dict [("text", .str text)] => .ok (some (text, number))
    | _ => .ok none

theorem textLibrary_documents (sourceName : String) (number : Nat) :
    textLibrary.documents sourceName (number, textLine) = .ok [("a", number)] := by
  have decoded : textLibrary.decodeUtf8 textLine =
      .ok (String.ofList (textLine.map fun byte => Char.ofNat byte.toNat)) := rfl
  have loaded : textLibrary.loads
      (String.ofList (textLine.map fun byte => Char.ofNat byte.toNat)) =
        .ok (.dict [("text", .str "a")]) := by
    simp [textLibrary]
  have media : decodeMedia textLibrary (.dict [("text", .str "a")]) =
      .ok (.dict [("text", .str "a")]) := rfl
  have document : textLibrary.getDocumentFromDict (.dict [("text", .str "a")]) sourceName number =
      .ok (some ("a", number)) := rfl
  unfold DocumentLibrary.documents
  simp [decoded, loaded, media, document, bind, Except.bind]

/-- The plan of two parts. -/
def textsPlan : Plan :=
  ⟨"a", 26, 2, newline, [rangeAt 0 0 13 (by decide), rangeAt 1 13 26 (by decide)]⟩

theorem textsPlan_sound : Sound textsEnv textsPlan where
  size := rfl
  indexed := rfl
  covers := .cons (by decide) (.cons (by decide) (.nil 26))
  lengths r _ := ⟨r.start_le, r.length_eq⟩
  aligned r mem b boundary pos interior := by
    refine ⟨twoTexts.bytes, rfl, pos, ?_⟩
    rcases List.mem_pair.mp mem with rfl | rfl <;> rcases boundary with rfl | rfl
    all_goals first | exact absurd pos (by decide) | exact absurd interior (by decide) | rfl

def textsReader : RangeJsonlReader (String × Nat) where
  env := textsEnv
  library := textLibrary
  plan := textsPlan
  sourceName := fileName "a"
  offsets := Lines.offsets newline twoTexts.bytes 0 (textsPlan.ranges.map Range.bounds)

theorem textsReader_made :
    RangeJsonlReader.make textsEnv textLibrary "a" textsPlan = .ok textsReader := by
  have inside : ∀ r ∈ textsPlan.ranges, r.stop ≤ twoTexts.bytes.length := by
    intro r mem
    rcases List.mem_pair.mp mem with rfl | rfl <;> decide
  have opened : textsEnv.openBinary textsPlan.path = .ok twoTexts.bytes := rfl
  exact make_eq rfl opened twoTexts.fits inside

theorem run_yields_window_second :
    (textsReader.run ⟨0, 1⟩ ⟨[], none⟩ 1 2).documents = ⟨[("a", 1)], none⟩ := by
  obtain ⟨kept, eq, documents, -⟩ := ((run_yields_window textsEnv textLibrary "a" textsPlan
    twoTexts.bytes textsReader textsPlan_sound rfl rfl rfl textsReader_made).2
    ⟨0, 1⟩ ⟨[], none⟩ 1 2).2 rfl (by decide) (by decide)
  have lines : textsReader.lines twoTexts.bytes (1 : Int).toNat = [(1, textLine)] := by
    decide +kernel
  rw [documents, eq, lines, DocumentLibrary.read,
    Yielded.collect_cons_ok (textLibrary_documents _ 1)]
  rfl

/-! ### The whole file -/

/-- No `skip` and no `limit`, as `BaseDiskReader` has them unless they are given. -/
def wholeFile : ReaderOptions := ⟨0, -1⟩

section Whole

variable {δ : Type} {reader : RangeJsonlReader δ} {file : List UInt8}

/-- What all ranks do, each run without an input. -/
def RangeJsonlReader.runs (reader : RangeJsonlReader δ) : List (Generated (RunEvent δ)) :=
  (List.range reader.plan.requestedParts).map fun rank : Nat =>
    reader.run wholeFile ⟨[], none⟩ rank reader.plan.requestedParts

/-- The ranks together do what one reader does that yields `whole`, and count one file. -/
structure RangeJsonlReader.ReadsWhole (reader : RangeJsonlReader δ)
    (whole : Yielded PyException δ) : Prop where
  documents : (reader.runs.map Generated.documents).prod = whole
  inputFiles : (reader.runs.map Generated.inputFiles).sum = 1
  total : whole.error = none → (reader.runs.map Generated.total).sum = whole.items.length

theorem kept_wholeFile (reader : RangeJsonlReader δ) (rank : Nat) :
    reader.kept wholeFile rank = (reader.readRank rank).ofLines := by
  have unlimited : limitOf wholeFile.limit = none := if_pos rfl
  rw [RangeJsonlReader.kept, unlimited]
  exact Yielded.window_zero_none _

theorem runs_eq (reader : RangeJsonlReader δ) :
    reader.runs = (List.range reader.plan.requestedParts).map (reader.runRank wholeFile) := by
  unfold RangeJsonlReader.runs
  apply List.map_congr_left
  intro rank mem
  exact run_alone rfl (List.mem_range.mp mem)

theorem sum_first (n : Nat) :
    ((List.range (n + 1)).map fun rank => if rank = 0 then 1 else 0).sum = 1 := by
  rw [List.range_succ_eq_map]
  simp [Function.comp_def]

/-- Ranks that read the lines of a file read the file. -/
theorem RangeJsonlReader.ReadsLines.readsWhole (reads : reader.ReadsLines file)
    (pos : 1 ≤ reader.plan.requestedParts)
    (enough : reader.plan.actualPartitions ≤ reader.plan.requestedParts)
    (proper : ∀ r ∈ reader.plan.ranges, r.length ≠ 0) :
    reader.ReadsWhole
      (reader.library.read reader.sourceName (enumerate (records [newline] file))) := by
  have read := reads.prod_readRank enough
  constructor
  · rw [runs_eq, List.map_map, ← read]
    congr 1
    apply List.map_congr_left
    intro rank _
    exact (runRank_documents reader wholeFile rank).trans (kept_wholeFile reader rank)
  · obtain ⟨n, parts⟩ := Nat.exists_eq_add_of_le' pos
    rw [runs_eq, List.map_map, parts]
    refine Eq.trans (congrArg List.sum (List.map_congr_left ?_)) (sum_first n)
    intro rank _
    exact runRank_inputFiles proper
  · intro quiet
    rw [← read] at quiet
    have each := Yielded.prod_error_eq_none.mp quiet
    rw [← read, Yielded.prod_of_ok each, runs_eq, List.map_map, List.length_flatMap,
      List.map_map]
    congr 1
    apply List.map_congr_left
    intro rank mem
    have ok := each _ (List.mem_map_of_mem mem)
    rw [← kept_wholeFile] at ok
    dsimp only [Function.comp_apply]
    rw [runRank_total ok, kept_wholeFile]

open Scanner in
/-- A reader can be made for the partition of a file into lines, and its ranks read the
file. -/
theorem exists_readsWhole {env : Environment} {library : DocumentLibrary δ}
    {path resolved : String} {n : Nat} {ranges : List Range} {data : Slice}
    (sound : Sound env ⟨resolved, data.len, n, newline, ranges⟩) (pos : 1 ≤ n)
    (lists : Lists ranges (partitionPlan data.bytes n [newline]))
    (opened : env.openBinary resolved = .ok data.bytes) (here : env.resolve path = resolved)
    (again : env.resolve resolved = resolved) :
    ∃ reader, RangeJsonlReader.make env library path
        ⟨resolved, data.len, n, newline, ranges⟩ = .ok reader ∧
      reader.ReadsWhole (library.read (fileName resolved)
        (enumerate (records [newline] data.bytes))) := by
  have tiles := tiles_partitionPlan (List.cons_ne_nil newline []) data.bytes n
  have bounds : ∀ r ∈ ranges, r.start < r.stop ∧ r.stop ≤ data.bytes.length := by
    intro r mem
    have listed : r.bounds ∈ partitionPlan data.bytes n [newline] := by
      rw [← lists.bounds_eq]
      exact List.mem_map_of_mem mem
    exact (tiles.bounds listed).2
  have made : RangeJsonlReader.make env library path ⟨resolved, data.len, n, newline, ranges⟩ =
      .ok ⟨env, library, ⟨resolved, data.len, n, newline, ranges⟩, fileName (env.resolve path),
        Lines.offsets newline data.bytes 0 (ranges.map Range.bounds)⟩ :=
    make_eq (again.trans here.symm) opened data.fits fun r mem => (bounds r mem).2
  rw [here] at made
  have enough : ranges.length ≤ n := by
    rw [lists.length_eq]
    by_cases empty : data.bytes = []
    · rw [partitionPlan_empty n [newline] (List.length_eq_zero_iff.mpr empty)]
      exact Nat.zero_le n
    · exact (length_partitionPlan_le pos empty).trans (min_le_left _ _)
  have reads := sound.readsLines opened rfl rfl made
  refine ⟨_, made, reads.readsWhole pos enough ?_⟩
  intro r mem
  have length := r.length_eq
  have proper := (bounds r mem).1
  omega

end Whole

theorem resolve_of_coercePath {env : Environment} {path resolved : String}
    (ok : coercePath env path = .ok resolved) : env.resolve path = resolved := by
  unfold coercePath at ok
  split at ok
  · cases ok
  · exact Except.ok.inj ok

/-- **From the file to its documents.** Let Python and the library see the same file, and let
`path` be planned by lines over the bundled library, by `plan_file` or by `plan_file_ranges`
from any source. A plan that is returned can be read: a reader is made for it, and

* its ranks, one rank after the other, yield the documents of the lines of the file, as they
  come when each line is parsed with its number in the file, up to the first line that
  raises;
* together the ranks count one input file;
* they add the number of the documents, if no line raises.

If no plan is returned, `PlanningError` is raised. -/
theorem ranks_read_file {ω δ : Type} (process : Process ω) (right : process.Right)
    (env : Environment) (path resolved : String) (parts delimiter : PyValue) (n : Nat)
    (pathOk : coercePath env path = .ok resolved) (again : env.resolve resolved = resolved)
    (partsOk : coerceParts parts = .ok n) (delimiterOk : coerceDelimiter delimiter = .ok newline)
    (data : Slice) (file : SameFile env process.fs resolved data)
    (library : DocumentLibrary δ) (before : Client ω) (ready : Ready before) :
    Ensures (planFile env (.ok (bundledLibrary process)) path parts delimiter) before
      (Outcome (fun plan _ => ∃ reader,
          RangeJsonlReader.make env library path plan = .ok reader ∧
          reader.ReadsWhole (library.read (fileName resolved)
            (enumerate (records [newline] data.bytes))))
        fun e _ => e.type = .planningError) ∧
    ∀ source windowBytes mode w, coerceSource env source = .ok mode →
      coerceWindowBytes windowBytes = .ok w → mode = 1 ∨ windowBytes.isNone = true →
      Ensures (planFileRanges env (.ok (bundledLibrary process)) path parts delimiter source
          windowBytes) before
        (Outcome (fun plan _ => ∃ reader,
            RangeJsonlReader.make env library path plan = .ok reader ∧
            reader.ReadsWhole (library.read (fileName resolved)
              (enumerate (records [newline] data.bytes))))
          fun e _ => e.type = .planningError) := by
  have pos : 1 ≤ n := Nat.pos_of_ne_zero (coerceParts_bounds partsOk).1
  have here := resolve_of_coercePath pathOk
  have tiles := Scanner.tiles_partitionPlan (List.cons_ne_nil newline []) data.bytes n
  obtain ⟨ranges, lists⟩ := exists_lists fun p mem => (tiles.bounds mem).2.1.le
  constructor
  · have planned := planFile_bundled pathOk partsOk delimiterOk file lists ready
    apply ((planFile_yields env _ path parts delimiter).ensures planned).mono
    rintro (e | plan) after outcome
    · exact outcome.1
    · obtain ⟨⟨rfl, -⟩, sound, -⟩ := outcome
      exact exists_readsWhole sound pos lists file.binary here again
  · intro source windowBytes mode w sourceOk windowOk together
    have planned := planFileRanges_bundled right pathOk partsOk delimiterOk sourceOk windowOk
      together file lists ready
    apply ((planFileRanges_yields env _ path parts delimiter source windowBytes).ensures
      planned).mono
    rintro (e | plan) after outcome
    · exact outcome.1
    · obtain ⟨⟨rfl, -⟩, sound, -⟩ := outcome
      exact exists_readsWhole sound pos lists file.binary here again

theorem ranks_read_file_twoTexts :
    Ensures (planFile textsEnv (.ok (bundledLibrary (onlyFileProcess twoTexts))) "a" (.int 2)
        (.int 10)) freshClient
      (Outcome (fun plan _ => ∃ reader,
          RangeJsonlReader.make textsEnv textLibrary "a" plan = .ok reader ∧
          reader.ReadsWhole ⟨[("a", 0), ("a", 1)], none⟩)
        fun e _ => e.type = .planningError) := by
  have file : SameFile textsEnv (onlyFileProcess twoTexts).fs "a" twoTexts := ⟨rfl, rfl, rfl⟩
  have ready : Ready freshClient := ⟨rfl⟩
  have pathOk : coercePath textsEnv "a" = .ok "a" := by simp [coercePath, textsEnv]
  have lines : enumerate (records [newline] twoTexts.bytes) = [(0, textLine), (1, textLine)] := by
    decide +kernel
  have whole : textLibrary.read (fileName "a") (enumerate (records [newline] twoTexts.bytes)) =
      ⟨[("a", 0), ("a", 1)], none⟩ := by
    rw [lines, DocumentLibrary.read, Yielded.collect_cons_ok (textLibrary_documents _ 0),
      Yielded.collect_cons_ok (textLibrary_documents _ 1)]
    rfl
  rw [← whole]
  exact (ranks_read_file (onlyFileProcess twoTexts) (onlyFileProcess_right twoTexts) textsEnv "a"
    "a" (.int 2) (.int 10) 2 pathOk rfl rfl rfl twoTexts file textLibrary freshClient ready).1

end Python
