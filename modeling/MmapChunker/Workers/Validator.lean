import Mathlib.Algebra.BigOperators.Ring.Finset
import MmapChunker.Workers.Table

/-!
The validator of the worker proof (`examples/jsonl_multi_file_worker_proof.py`).

`validate_plan` goes through the rows of a planner once, with a cursor for each source, and
compares them with the bytes of the sources. It does not know where the rows come from.

* `validateRow_ok_iff`: what a row must be, after what the loop has seen.
* `validateRows_iff`: what the rows must be, from any state of the loop.
* `validatePlan_accepts_iff`: what is accepted is a table whose workers see each record once.
-/

namespace WorkerProof

open Python Tiling Framing Occurrence Workers
open Cli (SourceRange rangesOfSource)

/-! ### Source -/

/-- `RangeRow`, as an f-string shows it. -/
def reprRow (row : RangeRow) : String :=
  s!"RangeRow(worker_index={row.workerIndex}, source_index={row.sourceIndex}, " ++
    s!"start={row.start}, end_exclusive={row.endExclusive}, length={row.length})"

/-- What `expected_oracle` returns. -/
structure Oracle where
  sourceData : List (List UInt8)
  sourceSizes : List Nat
  expectedKeys : Multiset (Int × Int)
  recordCount : Nat
  valueSum : Int
  totalBytes : Nat
  checksum : String

/-- What the loop of `validate_plan` keeps. -/
structure Validation where
  sourceCursors : List Int
  workerBytes : List (Int × Int)
  previousSortKey : Option (Int ×ₗ Int ×ₗ Int)

/-- `position not in (0, len(source)) and source[position - 1] != delimiter`. -/
def splitsRecord (delimiter : UInt8) (source : List UInt8) (position : Int) : Bool :=
  position ≠ 0 ∧ position ≠ source.length ∧ source[(position - 1).toNat]? ≠ some delimiter

/-- One iteration of the loop of `validate_plan`. -/
def validateRow (sourceData : List (List UInt8)) (delimiter : UInt8) (seen : Validation)
    (row : RangeRow) : Except PyException Validation :=
  let source := sourceData.getD row.sourceIndex.toNat []
  let sortKey := toLex (row.workerIndex, toLex (row.sourceIndex, row.start))
  let cursor := seen.sourceCursors.getD row.sourceIndex.toNat 0
  if row.workerIndex < 0 ∨ row.sourceIndex < 0 then
    .error (assertionError ("negative planner index: " ++ reprRow row))
  else if (sourceData.length : Int) ≤ row.sourceIndex then
    .error (assertionError ("source index out of range: " ++ reprRow row))
  else if row.start < 0 ∨ row.endExclusive < row.start ∨
      (source.length : Int) < row.endExclusive then
    .error (assertionError ("invalid source-local range: " ++ reprRow row))
  else if row.endExclusive - row.start ≠ row.length then
    .error (assertionError ("length arithmetic mismatch: " ++ reprRow row))
  else if row.length ≤ 0 then
    .error (assertionError ("planner emitted an empty range: " ++ reprRow row))
  else if splitsRecord delimiter source row.start then
    .error (assertionError ("range start splits a record: " ++ reprRow row))
  else if splitsRecord delimiter source row.endExclusive then
    .error (assertionError ("range end splits a record: " ++ reprRow row))
  else if ∃ previous ∈ seen.previousSortKey, sortKey < previous then
    .error (assertionError "planner rows are not ordered by worker/source/start")
  else if row.start ≠ cursor then
    .error (assertionError (s!"gap or overlap for source {row.sourceIndex}: " ++
      s!"expected {cursor}, got {row.start}"))
  else
    .ok ⟨seen.sourceCursors.set row.sourceIndex.toNat row.endExclusive,
      Dict.update row.workerIndex (fun bytes => bytes.getD 0 + row.length) seen.workerBytes,
      some sortKey⟩

/-- One iteration of the loop over the cursors in `validate_plan`. -/
def checkCoverage (entry : (Int × List UInt8) × Nat) : Except PyException Unit :=
  if entry.1.1 ≠ entry.1.2.length then
    .error (assertionError (s!"source {entry.2} coverage ends at {entry.1.1}, " ++
      s!"expected {entry.1.2.length}"))
  else .ok ()

/-- What `validate_plan` returns. -/
structure PlanChecks where
  rangesTotal : Nat
  rangesPerWorker : List Nat
  bytesPerWorker : List Int
  actualWorkers : Nat
  coverageOk : Bool
  boundaryOk : Bool

/-- The dictionary at the end of `validate_plan`. -/
def planChecks (rows : List RangeRow) (seen : Validation) : PlanChecks :=
  let workers := groupRowsByWorker rows
  let workerIndices := (Dict.keys workers).mergeSort (· ≤ ·)
  ⟨rows.length, workerIndices.map fun index => ((workers.lookup index).getD []).length,
    workerIndices.map fun index => (seen.workerBytes.lookup index).getD 0,
    workerIndices.length, true, true⟩

/-- `validate_plan`. -/
def validatePlan (rows : List RangeRow) (oracle : Oracle) (delimiter : UInt8) :
    Except PyException PlanChecks := do
  let seen ← rows.foldlM (validateRow oracle.sourceData delimiter)
    ⟨oracle.sourceData.map fun _ => 0, [], none⟩
  (seen.sourceCursors.zip oracle.sourceData).zipIdx.forM checkCoverage
  let workerIndices := (Dict.keys (groupRowsByWorker rows)).mergeSort (· ≤ ·)
  if workerIndices ≠ (List.range workerIndices.length).map Int.ofNat then
    throw (assertionError ("worker indices are not compact: " ++ listText workerIndices))
  if (seen.workerBytes.map Prod.snd).sum ≠ oracle.totalBytes then
    throw (assertionError "worker byte totals do not cover the logical dataset")
  return planChecks rows seen

/-! ### The validator -/

section Validator

variable {contents : List (List UInt8)} {delimiter : UInt8} {seen : Validation}

/-- The sort key of a row of a table. -/
def rowKey (assigned : Nat × SourceRange) : Int ×ₗ Int ×ₗ Int :=
  toLex ((assigned.1 : Int), toLex ((assigned.2.sourceIndex : Int), (assigned.2.start : Int)))

theorem rowKey_le_iff (a b : Nat × SourceRange) : rowKey a ≤ rowKey b ↔ sortKey a ≤ sortKey b := by
  simp only [rowKey, sortKey, Prod.Lex.toLex_le_toLex, Int.ofNat_lt, Int.ofNat_le, Int.ofNat_inj]

/-- What the loop keeps after a row. -/
def Validation.advance (seen : Validation) (assigned : Nat × SourceRange) : Validation :=
  ⟨seen.sourceCursors.set assigned.2.sourceIndex assigned.2.endExclusive,
    Dict.update (assigned.1 : Int) (fun bytes => bytes.getD 0 + (assigned.2.length : Int))
      seen.workerBytes,
    some (rowKey assigned)⟩

/-- Inside a source only a position that is right after no delimiter splits a record. -/
theorem splitsRecord_eq_false_iff {source : List UInt8} {position : Nat} :
    splitsRecord delimiter source position = false ↔
      position = 0 ∨ position = source.length ∨ EndsAt [delimiter] source position := by
  have toNat : ((position : Int) - 1).toNat = position - 1 := by omega
  have ends : EndsAt [delimiter] source position ↔
      1 ≤ position ∧ source[position - 1]? = some delimiter :=
    and_congr Iff.rfl occursAt_singleton
  rw [splitsRecord, toNat, ends, decide_eq_false_iff_not]
  constructor
  · intro whole
    by_cases zero : position = 0
    · exact .inl zero
    · by_cases atEnd : position = source.length
      · exact .inr (.inl atEnd)
      · refine .inr (.inr ⟨by omega, ?_⟩)
        by_contra other
        exact whole ⟨by omega, by omega, other⟩
  · rintro (rfl | rfl | ⟨-, here⟩) ⟨zero, atEnd, other⟩
    · exact zero rfl
    · exact atEnd rfl
    · exact other here

/-- **What a row must be to be accepted.** -/
theorem validateRow_ok_iff {row : RangeRow} {next : Validation} :
    validateRow contents delimiter seen row = .ok next ↔
      ∃ assigned data, row = toRangeRow assigned ∧
        contents[assigned.2.sourceIndex]? = some data ∧
        WholeRecords delimiter data assigned.2 ∧
        (∀ previous ∈ seen.previousSortKey, previous ≤ rowKey assigned) ∧
        seen.sourceCursors.getD assigned.2.sourceIndex 0 = assigned.2.start ∧
        next = seen.advance assigned := by
  constructor
  · obtain ⟨worker, index, start, stop, length⟩ := row
    intro accepted
    unfold validateRow at accepted
    dsimp only at accepted
    split at accepted
    · cases accepted
    rename_i nonneg
    split at accepted
    · cases accepted
    rename_i inRange
    split at accepted
    · cases accepted
    rename_i valid
    split at accepted
    · cases accepted
    rename_i arithmetic
    split at accepted
    · cases accepted
    rename_i nonempty
    split at accepted
    · cases accepted
    rename_i startOk
    split at accepted
    · cases accepted
    rename_i endOk
    split at accepted
    · cases accepted
    rename_i ordered
    split at accepted
    · cases accepted
    rename_i contiguous
    cases accepted
    lift worker to Nat using by omega
    lift index to Nat using by omega
    lift start to Nat using by omega
    lift stop to Nat using by omega
    lift length to Nat using by omega
    rw [Int.toNat_natCast] at valid startOk endOk contiguous
    have lt : index < contents.length := by omega
    have source : contents.getD index [] = contents[index] := by
      rw [List.getD_eq_getElem?_getD, List.getElem?_eq_getElem lt, Option.getD_some]
    rw [source] at valid startOk endOk
    rw [Bool.not_eq_true, splitsRecord_eq_false_iff] at startOk endOk
    refine ⟨(worker, ⟨index, start, stop, length⟩), contents[index], rfl,
      List.getElem?_eq_getElem lt, ⟨?_, ?_, ?_, ?_, ?_⟩, ?_, ?_, rfl⟩
    · dsimp only
      omega
    · dsimp only
      omega
    · dsimp only
      omega
    · rcases startOk with zero | atEnd | ends
      · exact .inl zero
      · omega
      · exact .inr ends
    · rcases endOk with zero | atEnd | ends
      · omega
      · exact .inl atEnd
      · exact .inr ends
    · intro previous mem
      exact not_lt.mp fun lt => ordered ⟨previous, mem, lt⟩
    · exact (not_not.mp contiguous).symm
  · rintro ⟨⟨worker, range⟩, data, row_eq, here, whole, ordered, contiguous, rfl⟩
    rw [toRangeRow] at row_eq
    subst row_eq
    have lt := (List.getElem?_eq_some_iff.mp here).1
    have nonempty := whole.nonempty
    have inside := whole.inside
    have length := whole.length_eq
    have startOk : ¬splitsRecord delimiter data range.start = true :=
      Bool.not_eq_true _ ▸ splitsRecord_eq_false_iff.mpr (whole.start_ok.imp_right .inr)
    have endOk : ¬splitsRecord delimiter data range.endExclusive = true :=
      Bool.not_eq_true _ ▸ splitsRecord_eq_false_iff.mpr (.inr whole.end_ok)
    dsimp only at here contiguous lt nonempty inside length
    have nonneg : ¬((worker : Int) < 0 ∨ (range.sourceIndex : Int) < 0) := by omega
    have inRange : ¬(contents.length : Int) ≤ range.sourceIndex := by omega
    have valid : ¬((range.start : Int) < 0 ∨ (range.endExclusive : Int) < range.start ∨
        (data.length : Int) < range.endExclusive) := by omega
    have arithmetic : ¬(range.endExclusive : Int) - range.start ≠ range.length := by omega
    have positive : ¬(range.length : Int) ≤ 0 := by omega
    unfold validateRow
    dsimp only
    rw [Int.toNat_natCast, List.getD_eq_getElem?_getD, here, Option.getD_some, contiguous,
      if_neg nonneg, if_neg inRange, if_neg valid, if_neg arithmetic, if_neg positive,
      if_neg startOk, if_neg endOk, if_neg ?_, if_neg (not_not.mpr rfl)]
    · rfl
    · rintro ⟨previous, mem, later⟩
      exact absurd (ordered previous mem) (not_le.mpr later)

/-- What is left of the sources past the cursors is covered by the ranges. -/
def Covers (contents : List (List UInt8)) (cursors : List Nat) (ranges : List SourceRange) : Prop :=
  ∀ (k a : Nat) (data : List UInt8), cursors[k]? = some a → contents[k]? = some data →
    Tiles a data.length (rangesOfSource k ranges)

theorem covers_nil_iff {cursors : List Nat} (len : cursors.length = contents.length) :
    Covers contents cursors [] ↔ cursors = contents.map List.length := by
  constructor
  · intro covers
    apply List.ext_getElem
    · rw [len, List.length_map]
    · intro k lt ltMap
      rw [List.length_map] at ltMap
      rw [List.getElem_map]
      exact (covers k _ _ (List.getElem?_eq_getElem lt)
        (List.getElem?_eq_getElem ltMap)).eq_nil_iff.mp rfl
  · rintro rfl k a data here there
    rw [List.getElem?_map, there, Option.map_some, Option.some_inj] at here
    rw [here]
    exact .nil a

/-- The first range starts at the cursor of its source, and moves it. -/
theorem covers_cons_iff {cursors : List Nat} {range : SourceRange} {ranges : List SourceRange}
    (lt : range.sourceIndex < cursors.length) (len : cursors.length = contents.length)
    (nonempty : range.start < range.endExclusive) :
    Covers contents cursors (range :: ranges) ↔
      cursors[range.sourceIndex]? = some range.start ∧
        Covers contents (cursors.set range.sourceIndex range.endExclusive) ranges := by
  have same : rangesOfSource range.sourceIndex (range :: ranges) =
      (range.start, range.endExclusive) :: rangesOfSource range.sourceIndex ranges := by
    simp [rangesOfSource]
  have other : ∀ k, range.sourceIndex ≠ k →
      rangesOfSource k (range :: ranges) = rangesOfSource k ranges := by
    intro k ne
    simp [rangesOfSource, ne]
  constructor
  · intro covers
    have here := covers range.sourceIndex _ _ (List.getElem?_eq_getElem lt)
      (List.getElem?_eq_getElem (len ▸ lt))
    rw [same, Tiles.cons_iff] at here
    obtain ⟨starts, -, rest⟩ := here
    refine ⟨(List.getElem?_eq_getElem lt).trans (congrArg some starts), ?_⟩
    intro k a data cursor source
    by_cases eq : range.sourceIndex = k
    · subst eq
      rw [List.getElem?_set_self lt] at cursor
      cases cursor
      rw [List.getElem?_eq_getElem (len ▸ lt)] at source
      cases source
      exact rest
    · rw [List.getElem?_set_ne eq] at cursor
      rw [← other k eq]
      exact covers k a data cursor source
  · rintro ⟨starts, covers⟩ k a data cursor source
    by_cases eq : range.sourceIndex = k
    · subst eq
      rw [starts] at cursor
      cases cursor
      rw [same]
      exact .cons nonempty
        (covers range.sourceIndex _ data (List.getElem?_set_self lt) source)
    · rw [other k eq]
      exact covers k a data (by rw [List.getElem?_set_ne eq, cursor]) source

/-- The rows of a table that can follow what the loop has seen. -/
structure Follows (contents : List (List UInt8)) (delimiter : UInt8) (cursors : List Nat)
    (previous : Option (Int ×ₗ Int ×ₗ Int)) (table : List (Nat × SourceRange)) : Prop where
  located : ∀ assigned ∈ table, ∃ data, contents[assigned.2.sourceIndex]? = some data ∧
    WholeRecords delimiter data assigned.2
  after : ∀ key ∈ previous, ∀ assigned ∈ table, key ≤ rowKey assigned
  ordered : (table.map rowKey).Pairwise (· ≤ ·)
  covers : Covers contents cursors (table.map Prod.snd)

theorem follows_cons_iff {cursors : List Nat} {previous : Option (Int ×ₗ Int ×ₗ Int)}
    {assigned : Nat × SourceRange} {table : List (Nat × SourceRange)}
    (len : cursors.length = contents.length) :
    Follows contents delimiter cursors previous (assigned :: table) ↔
      (∃ data, contents[assigned.2.sourceIndex]? = some data ∧
        WholeRecords delimiter data assigned.2) ∧
      (∀ key ∈ previous, key ≤ rowKey assigned) ∧
      cursors[assigned.2.sourceIndex]? = some assigned.2.start ∧
      Follows contents delimiter (cursors.set assigned.2.sourceIndex assigned.2.endExclusive)
        (some (rowKey assigned)) table := by
  constructor
  · rintro ⟨located, after, ordered, covers⟩
    obtain ⟨⟨data, here, whole⟩, rest⟩ := List.forall_mem_cons.mp located
    have lt := (List.getElem?_eq_some_iff.mp here).1
    rw [List.map_cons, covers_cons_iff (len ▸ lt) len whole.nonempty] at covers
    rw [List.map_cons, List.pairwise_cons] at ordered
    refine ⟨⟨data, here, whole⟩, fun key mem => after key mem assigned List.mem_cons_self,
      covers.1, rest, ?_, ordered.2, covers.2⟩
    rintro key mem next memNext
    cases mem
    exact ordered.1 _ (List.mem_map_of_mem memNext)
  · rintro ⟨⟨data, here, whole⟩, first, starts, located, after, ordered, covers⟩
    have lt := (List.getElem?_eq_some_iff.mp here).1
    have later := after _ rfl
    refine ⟨List.forall_mem_cons.mpr ⟨⟨data, here, whole⟩, located⟩, ?_, ?_, ?_⟩
    · intro key mem
      exact List.forall_mem_cons.mpr
        ⟨first key mem, fun next memNext => (first key mem).trans (later next memNext)⟩
    · rw [List.map_cons, List.pairwise_cons]
      refine ⟨?_, ordered⟩
      rintro _ mem
      obtain ⟨next, memNext, rfl⟩ := List.mem_map.mp mem
      exact later next memNext
    · rw [List.map_cons, covers_cons_iff (len ▸ lt) len whole.nonempty]
      exact ⟨starts, covers⟩

/-- **What the loop accepts.** From any state it ends at the end of every source exactly if
the rows are a table that can follow what it has seen. -/
theorem validateRows_iff {rows : List RangeRow} {cursors : List Nat}
    (len : cursors.length = contents.length)
    (at_ : seen.sourceCursors = cursors.map Int.ofNat) :
    (∃ last, rows.foldlM (validateRow contents delimiter) seen = .ok last ∧
      last.sourceCursors = contents.map fun data => (data.length : Int)) ↔
      ∃ table, rows = table.map toRangeRow ∧
        Follows contents delimiter cursors seen.previousSortKey table := by
  induction rows generalizing seen cursors with
  | nil =>
      have lengths : (contents.map fun data => (data.length : Int)) =
          (contents.map List.length).map Int.ofNat := by
        rw [List.map_map]
        rfl
      constructor
      · rintro ⟨last, eq, ends⟩
        cases eq
        refine ⟨[], rfl, by simp, by simp, List.Pairwise.nil, ?_⟩
        rw [at_, lengths] at ends
        exact (covers_nil_iff len).mpr
          (List.map_injective_iff.mpr (fun _ _ eq => Int.ofNat_inj.mp eq) ends)
      · rintro ⟨table, eq, follows⟩
        obtain rfl := List.map_eq_nil_iff.mp eq.symm
        have covers := (covers_nil_iff len).mp follows.covers
        exact ⟨seen, rfl, by rw [at_, lengths, covers]⟩
  | cons row rows ih =>
      have moved : ∀ assigned : Nat × SourceRange, (seen.advance assigned).sourceCursors =
          (cursors.set assigned.2.sourceIndex assigned.2.endExclusive).map Int.ofNat := by
        intro assigned
        rw [List.map_set, ← at_]
        rfl
      have cursor : ∀ k n : Nat, k < contents.length →
          (seen.sourceCursors.getD k 0 = (n : Int) ↔ cursors[k]? = some n) := by
        intro k n lt
        rw [at_, List.getD_eq_getElem?_getD, List.getElem?_map,
          List.getElem?_eq_getElem (len.symm ▸ lt), Option.map_some, Option.getD_some,
          Option.some_inj]
        exact Int.ofNat_inj
      rw [List.foldlM_cons]
      constructor
      · rintro ⟨last, ran, ends⟩
        cases first : validateRow contents delimiter seen row with
        | error e =>
            rw [first] at ran
            cases ran
        | ok next =>
            rw [first] at ran
            obtain ⟨assigned, data, rfl, here, whole, after, contiguous, rfl⟩ :=
              validateRow_ok_iff.mp first
            have lt := (List.getElem?_eq_some_iff.mp here).1
            obtain ⟨table, rfl, follows⟩ :=
              (ih (by rw [List.length_set, len]) (moved assigned)).mp ⟨last, ran, ends⟩
            exact ⟨assigned :: table, rfl, (follows_cons_iff len).mpr
              ⟨⟨data, here, whole⟩, after, (cursor _ _ lt).mp contiguous, follows⟩⟩
      · rintro ⟨table, eq, follows⟩
        cases table with
        | nil => cases eq
        | cons assigned table =>
            rw [List.map_cons, List.cons.injEq] at eq
            obtain ⟨rfl, rfl⟩ := eq
            obtain ⟨⟨data, here, whole⟩, after, starts, follows⟩ := (follows_cons_iff len).mp follows
            have lt := (List.getElem?_eq_some_iff.mp here).1
            obtain ⟨last, ran, ends⟩ :=
              (ih (by rw [List.length_set, len]) (moved assigned)).mpr ⟨table, rfl, follows⟩
            refine ⟨last, ?_, ends⟩
            rw [validateRow_ok_iff.mpr
              ⟨assigned, data, rfl, here, whole, after, (cursor _ _ lt).mpr starts, rfl⟩]
            exact ran

/-- What the loop counts for the workers does not depend on the checks. -/
theorem workerBytes_foldlM {rows : List RangeRow} {last : Validation}
    (ran : rows.foldlM (validateRow contents delimiter) seen = .ok last) :
    last.workerBytes = rows.foldl (fun bytes row =>
      Dict.update row.workerIndex (fun b => b.getD 0 + row.length) bytes) seen.workerBytes ∧
      last.sourceCursors.length = seen.sourceCursors.length := by
  induction rows generalizing seen with
  | nil =>
      cases ran
      exact ⟨rfl, rfl⟩
  | cons row rows ih =>
      rw [List.foldlM_cons] at ran
      cases first : validateRow contents delimiter seen row with
      | error e =>
          rw [first] at ran
          cases ran
      | ok next =>
          rw [first] at ran
          obtain ⟨bytes, length⟩ := ih ran
          obtain ⟨assigned, _, rfl, -, -, -, -, rfl⟩ := validateRow_ok_iff.mp first
          exact ⟨bytes, length.trans (List.length_set ..)⟩

/-- A loop of checks ends exactly if every check passes. -/
theorem forM_ok_iff {α ε : Type} {check : α → Except ε Unit} {xs : List α} :
    xs.forM check = .ok () ↔ ∀ x ∈ xs, check x = .ok () := by
  induction xs with
  | nil => exact ⟨fun _ x mem => (nomatch mem), fun _ => rfl⟩
  | cons x xs ih =>
      rw [List.forall_mem_cons, ← ih]
      change (check x >>= fun _ => xs.forM check) = .ok () ↔ _
      cases check x with
      | error e => exact ⟨fun eq => (nomatch eq), fun both => (nomatch both.1)⟩
      | ok _ => exact ⟨fun eq => ⟨rfl, eq⟩, fun both => both.2⟩

/-- Every cursor is at the end of its source. -/
theorem checkCoverage_iff {cursors : List Int} (len : cursors.length = contents.length) :
    (cursors.zip contents).zipIdx.forM checkCoverage = .ok () ↔
      cursors = contents.map fun data => (data.length : Int) := by
  have one : ∀ entry, checkCoverage entry = .ok () ↔ entry.1.1 = (entry.1.2.length : Int) := by
    intro entry
    rw [checkCoverage]
    split
    · rename_i ne
      exact ⟨fun eq => (nomatch eq), fun eq => absurd eq ne⟩
    · rename_i eq
      exact ⟨fun _ => not_not.mp eq, fun _ => rfl⟩
  simp only [forM_ok_iff, one]
  constructor
  · intro ends
    apply List.ext_getElem
    · rw [len, List.length_map]
    · intro k lt ltMap
      rw [List.length_map] at ltMap
      rw [List.getElem_map]
      refine ends ((cursors[k], contents[k]), k) ?_
      rw [List.mk_mem_zipIdx_iff_getElem?, List.getElem?_eq_getElem (by simp [lt, ltMap]),
        List.getElem_zip]
  · rintro rfl ⟨⟨cursor, source⟩, k⟩ mem
    rw [List.mk_mem_zipIdx_iff_getElem?, List.getElem?_zip_eq_some, List.getElem?_map] at mem
    obtain ⟨at_, here⟩ := mem
    rw [here, Option.map_some, Option.some_inj] at at_
    exact at_.symm

/-- The workers are compact exactly if the code finds them so. -/
theorem compact_iff {table : List (Nat × SourceRange)} :
    (Dict.keys (groupRowsByWorker (table.map toRangeRow))).mergeSort (· ≤ ·) =
      (List.range ((Dict.keys (groupRowsByWorker (table.map toRangeRow))).mergeSort
        (· ≤ ·)).length).map Int.ofNat ↔
    ∃ n, ∀ worker, worker ∈ table.map Prod.fst ↔ worker < n := by
  constructor
  · intro compact
    refine ⟨((Dict.keys (groupRowsByWorker (table.map toRangeRow))).mergeSort (· ≤ ·)).length,
      fun worker => ?_⟩
    have mem : (worker : Int) ∈ Dict.keys (groupRowsByWorker (table.map toRangeRow)) ↔
        worker ∈ table.map Prod.fst := by
      rw [groupRowsByWorker, Dict.group, Dict.mem_keys_collect, List.mem_map]
      constructor
      · rintro ⟨row, memRow, eq⟩
        obtain ⟨assigned, memTable, rfl⟩ := List.mem_map.mp memRow
        exact ⟨assigned, memTable, Int.ofNat_inj.mp eq⟩
      · rintro ⟨assigned, memTable, rfl⟩
        exact ⟨toRangeRow assigned, List.mem_map_of_mem memTable, rfl⟩
    have sorted := (List.mergeSort_perm (Dict.keys (groupRowsByWorker (table.map toRangeRow)))
      (· ≤ ·)).mem_iff (a := (worker : Int))
    rw [← mem, ← sorted, compact, List.mem_map, List.length_map, List.length_range]
    constructor
    · rintro ⟨index, lt, eq⟩
      obtain rfl := Int.ofNat_inj.mp eq
      exact List.mem_range.mp lt
    · intro lt
      exact ⟨worker, List.mem_range.mpr lt, rfl⟩
  · rintro ⟨n, workers⟩
    rw [sorted_workers_of_compact workers, List.length_map, List.length_range]

/-- What is accepted from the start on is a table whose workers see each record once. -/
theorem follows_start_iff {table : List (Nat × SourceRange)} :
    (Follows contents delimiter (contents.map fun _ => 0) none table ∧
      ∃ n, ∀ worker, worker ∈ table.map Prod.fst ↔ worker < n) ↔
      TableOk contents delimiter table := by
  have keys : (table.map rowKey).Pairwise (· ≤ ·) ↔ (table.map sortKey).Pairwise (· ≤ ·) := by
    simp only [List.pairwise_map, rowKey_le_iff]
  constructor
  · rintro ⟨⟨located, -, ordered, covers⟩, compact⟩
    refine ⟨located, keys.mp ordered, fun k data here => ?_, compact⟩
    exact covers k 0 data (by rw [List.getElem?_map, here, Option.map_some]) here
  · rintro ⟨located, ordered, covered, compact⟩
    refine ⟨⟨located, fun key mem => (nomatch mem), keys.mpr ordered, ?_⟩, compact⟩
    intro k a data zero here
    rw [List.getElem?_map, here, Option.map_some] at zero
    cases zero
    exact covered k data here

/-- What the workers are given, in bytes. -/
theorem sum_workerBytes {rows : List RangeRow} {bytes : List (Int × Int)}
    (eq : bytes = Dict.collect RangeRow.workerIndex (fun row b => b.getD 0 + row.length) rows) :
    (bytes.map Prod.snd).sum = (rows.map RangeRow.length).sum := by
  subst eq
  refine Dict.sum_collect id RangeRow.length fun row b => ?_
  cases b with
  | none => rfl
  | some b => rfl

theorem sum_length_toRangeRow (table : List (Nat × SourceRange)) :
    ((table.map toRangeRow).map RangeRow.length).sum =
      ((table.map fun assigned => assigned.2.length).sum : Nat) := by
  rw [List.map_map, Nat.cast_list_sum, List.map_map]
  rfl

end Validator

section Plan

variable {rows : List RangeRow} {oracle : Oracle} {delimiter : UInt8}

/-- **What `validate_plan` accepts**, and what it then returns. -/
theorem validatePlan_ok_iff {checks : PlanChecks} :
    validatePlan rows oracle delimiter = .ok checks ↔
      oracle.totalBytes = (oracle.sourceData.map List.length).sum ∧
        (∃ table, rows = table.map toRangeRow ∧ TableOk oracle.sourceData delimiter table) ∧
        checks = planChecks rows ⟨oracle.sourceData.map fun data => (data.length : Int),
          Dict.collect RangeRow.workerIndex (fun row b => b.getD 0 + row.length) rows, none⟩ := by
  have start : (∃ last, rows.foldlM (validateRow oracle.sourceData delimiter)
      ⟨oracle.sourceData.map fun _ => 0, [], none⟩ = .ok last ∧
      last.sourceCursors = oracle.sourceData.map fun data => (data.length : Int)) ↔
      ∃ table, rows = table.map toRangeRow ∧
        Follows oracle.sourceData delimiter (oracle.sourceData.map fun _ => 0) none table :=
    validateRows_iff (List.length_map _) (by rw [List.map_map]; rfl)
  constructor
  · intro accepted
    unfold validatePlan at accepted
    cases ran : rows.foldlM (validateRow oracle.sourceData delimiter)
        ⟨oracle.sourceData.map fun _ => 0, [], none⟩ with
    | error e =>
        rw [ran] at accepted
        cases accepted
    | ok last =>
        rw [ran] at accepted
        obtain ⟨bytes, length⟩ := workerBytes_foldlM ran
        rw [List.length_map] at length
        change ((last.sourceCursors.zip oracle.sourceData).zipIdx.forM checkCoverage >>= _) = _
          at accepted
        cases covered : (last.sourceCursors.zip oracle.sourceData).zipIdx.forM checkCoverage with
        | error e =>
            rw [covered] at accepted
            cases accepted
        | ok _ =>
            rw [covered] at accepted
            have ends := (checkCoverage_iff length).mp covered
            obtain ⟨table, rfl, follows⟩ := start.mp ⟨last, ran, ends⟩
            change (if _ then _ else _) = _ at accepted
            split at accepted
            · cases accepted
            rename_i compact
            change (if _ then _ else _) = _ at accepted
            split at accepted
            · cases accepted
            rename_i total
            cases accepted
            have ok := follows_start_iff.mp ⟨follows, compact_iff.mp (not_not.mp compact)⟩
            have sum := sum_workerBytes bytes
            rw [not_not.mp total, sum_length_toRangeRow, ok.sum_length] at sum
            refine ⟨Int.ofNat_inj.mp sum, ⟨table, rfl, ok⟩, ?_⟩
            unfold planChecks
            rw [bytes]
            rfl
  · rintro ⟨total, ⟨table, rfl, ok⟩, rfl⟩
    obtain ⟨follows, compact⟩ := follows_start_iff.mpr ok
    obtain ⟨last, ran, ends⟩ := start.mpr ⟨table, rfl, follows⟩
    obtain ⟨bytes, length⟩ := workerBytes_foldlM ran
    rw [List.length_map] at length
    have sum := sum_workerBytes bytes
    rw [sum_length_toRangeRow, ok.sum_length, ← total] at sum
    unfold validatePlan
    rw [ran]
    change ((last.sourceCursors.zip oracle.sourceData).zipIdx.forM checkCoverage >>= _) = _
    rw [(checkCoverage_iff length).mpr ends]
    change (if _ then _ else _) = _
    rw [if_neg (not_not.mpr (compact_iff.mpr compact))]
    change (if _ then _ else _) = _
    rw [if_neg (not_not.mpr sum)]
    unfold planChecks
    rw [bytes]
    rfl

/-- What `validate_plan` reports adds up. -/
theorem planChecks_totals {seen : Validation}
    (bytes : seen.workerBytes =
      Dict.collect RangeRow.workerIndex (fun row b => b.getD 0 + row.length) rows) :
    (planChecks rows seen).rangesPerWorker.sum = rows.length ∧
      (planChecks rows seen).bytesPerWorker.sum = (rows.map RangeRow.length).sum := by
  have perm := List.mergeSort_perm (Dict.keys (groupRowsByWorker rows)) (· ≤ ·)
  constructor
  · have counts := Dict.sum_lookup_keys (d := groupRowsByWorker rows) Dict.nodup_keys_collect
      fun group => (group.getD []).length
    have total : ((groupRowsByWorker rows).map fun pair => (pair.2.map fun _ => 1).sum).sum =
        (rows.map fun _ => 1).sum := Dict.sum_group fun _ => 1
    unfold planChecks
    rw [(perm.map _).sum_eq, counts]
    simpa using total
  · have keys : Dict.keys (groupRowsByWorker rows) = Dict.keys seen.workerBytes := by
      rw [bytes]
      exact Dict.keys_collect _
    have counts := Dict.sum_lookup_keys (d := seen.workerBytes)
      (bytes ▸ Dict.nodup_keys_collect) fun b => b.getD 0
    unfold planChecks
    rw [(perm.map _).sum_eq, keys, counts, ← sum_workerBytes bytes]
    rfl

/-- The ranges of a worker. -/
def rangesOfWorker (table : List (Nat × SourceRange)) (worker : Nat) : List SourceRange :=
  (table.filter fun assigned => assigned.1 = worker).map Prod.snd

/-- What is reported about a table is right: its workers are counted from 0, each with the
number and the bytes of its ranges, which add up to all ranges and all bytes. -/
structure Reports (table : List (Nat × SourceRange)) (totalBytes : Nat) (checks : PlanChecks) :
    Prop where
  rangesTotal : checks.rangesTotal = table.length
  workers : ∀ worker, worker ∈ table.map Prod.fst ↔ worker < checks.actualWorkers
  rangesPerWorker : checks.rangesPerWorker =
    (List.range checks.actualWorkers).map fun worker => (rangesOfWorker table worker).length
  bytesPerWorker : checks.bytesPerWorker = (List.range checks.actualWorkers).map fun worker =>
    (((rangesOfWorker table worker).map SourceRange.length).sum : Int)
  ranges_sum : checks.rangesPerWorker.sum = checks.rangesTotal
  bytes_sum : checks.bytesPerWorker.sum = totalBytes
  coverageOk : checks.coverageOk = true
  boundaryOk : checks.boundaryOk = true

/-- The rows of a worker are those of its ranges. -/
theorem filter_toRangeRow (table : List (Nat × SourceRange)) (worker : Nat) :
    (table.map toRangeRow).filter (fun row => row.workerIndex = Int.ofNat worker) =
      (table.filter fun assigned => assigned.1 = worker).map toRangeRow := by
  rw [List.filter_map]
  congr 2
  funext assigned
  simp [toRangeRow]

/-- **What `validate_plan` reports is right.** -/
theorem planChecks_reports {table : List (Nat × SourceRange)} {contents : List (List UInt8)}
    {seen : Validation} (ok : TableOk contents delimiter table)
    (bytes : seen.workerBytes = Dict.collect RangeRow.workerIndex
      (fun row b => b.getD 0 + row.length) (table.map toRangeRow)) :
    Reports table (contents.map List.length).sum (planChecks (table.map toRangeRow) seen) := by
  obtain ⟨n, workers⟩ := ok.compact
  have indices := sorted_workers_of_compact workers
  have count : (planChecks (table.map toRangeRow) seen).actualWorkers = n := by
    unfold planChecks
    dsimp only
    rw [indices, List.length_map, List.length_range]
  have total : (planChecks (table.map toRangeRow) seen).rangesTotal = table.length :=
    List.length_map _
  obtain ⟨rangesSum, bytesSum⟩ := planChecks_totals bytes
  constructor
  · exact total
  · rw [count]
    exact workers
  · rw [count]
    unfold planChecks
    dsimp only
    rw [indices, List.map_map]
    apply List.map_congr_left
    intro worker mem
    have key : Int.ofNat worker ∈ Dict.keys (groupRowsByWorker (table.map toRangeRow)) := by
      apply List.mem_mergeSort.mp
      rw [indices]
      exact List.mem_map_of_mem mem
    have group : (groupRowsByWorker (table.map toRangeRow)).lookup (Int.ofNat worker) = _ :=
      Dict.lookup_group key
    rw [Function.comp_apply, group, Option.getD_some, filter_toRangeRow, rangesOfWorker,
      List.length_map, List.length_map]
  · rw [count]
    unfold planChecks
    dsimp only
    rw [indices, List.map_map]
    apply List.map_congr_left
    intro worker _
    rw [Function.comp_apply, bytes, Dict.getD_lookup_collect, filter_toRangeRow,
      sum_length_toRangeRow, rangesOfWorker, List.map_map]
    rfl
  · rw [rangesSum, total, List.length_map]
  · rw [bytesSum, sum_length_toRangeRow, ok.sum_length]
  · rfl
  · rfl

end Plan

end WorkerProof
