import Mathlib.Data.Prod.Lex
import MmapChunker.Theory.Measures
import MmapChunker.Workers.Execution

/-!
Tables whose workers see each record once.

`TableOk` says what a table of ranges must be: every range holds whole records of its
source, the ranges of a source follow one another and cover it, the rows are in order and
the workers are numbered from zero. Where the table comes from does not matter.

* `TableOk.sum_measure`: whatever adds up where records end, adds up over the table to what
  it is over the sources.
* `TableOk.sum_rows`: so the workers count what is in the sources.
-/

namespace Workers

open Machine Text Python Measures Tiling Framing Occurrence
open Cli (SourceRange rangesOfSource)

/-! ### Records add up -/

section Records

variable {loads : JsonLoads} {delimiter : UInt8}

theorem splitRecords_append (front back : List UInt8) :
    splitRecords (front ++ delimiter :: back) delimiter =
      front.splitOn delimiter ++ splitRecords back delimiter := by
  have ne := List.splitOn_ne_nil delimiter back
  have last : (front.splitOn delimiter ++ back.splitOn delimiter).getLast? =
      (back.splitOn delimiter).getLast? := by
    rw [List.getLast?_append_of_ne_nil _ ne]
  unfold splitRecords
  rw [List.splitOn_append_cons_self]
  dsimp only
  rw [last]
  split
  · rw [List.dropLast_append_of_ne_nil ne]
  · rfl

/-- Cutting right after a delimiter cuts the list of records. -/
theorem splitRecords_cut (front back : List UInt8) :
    splitRecords (front ++ delimiter :: back) delimiter =
      splitRecords (front ++ [delimiter]) delimiter ++ splitRecords back delimiter := by
  have one : splitRecords (front ++ [delimiter]) delimiter = front.splitOn delimiter ++ [] :=
    splitRecords_append front []
  rw [splitRecords_append, one, List.append_nil]

/-- What data is worth adds up where records end. -/
theorem addsUp_dataTally (loads : JsonLoads) (delimiter : UInt8) (source : Int) :
    AddsUp delimiter (dataTally loads delimiter source) where
  empty := by
    have none : splitRecords [] delimiter = [] := by
      rw [splitRecords, List.splitOn_nil]
      rfl
    unfold dataTally decodeRecords
    rw [none]
    rfl
  append front back := by
    unfold dataTally decodeRecords
    rw [splitRecords_cut front back]
    dsimp only
    by_cases emptyFront : [] ∈ splitRecords (front ++ [delimiter]) delimiter
    · rw [if_pos (List.mem_append_left _ emptyFront), if_pos emptyFront]
      rfl
    by_cases emptyBack : [] ∈ splitRecords back delimiter
    · rw [if_pos (List.mem_append_right _ emptyBack), if_pos emptyBack]
      exact (WithTop.add_top _).symm
    rw [if_neg (mt List.mem_append.mp (not_or.mpr ⟨emptyFront, emptyBack⟩)), if_neg emptyFront,
      if_neg emptyBack, List.mapM_append]
    cases (splitRecords (front ++ [delimiter]) delimiter).mapM (decodeRecord loads) with
    | error e => rfl
    | ok records =>
        cases (splitRecords back delimiter).mapM (decodeRecord loads) with
        | error e => exact (WithTop.add_top _).symm
        | ok more =>
            refine congrArg _ (Tally.ext' ?_ ?_ ?_)
            · simp [recordsTally]
            · simp [recordsTally]
              omega
            · simp [recordsTally]

/-- The length adds up anywhere. -/
theorem addsUp_length (delimiter : UInt8) : AddsUp delimiter (@List.length UInt8) where
  empty := rfl
  append front back := by
    simp only [List.length_append, List.length_cons, List.length_nil]
    omega

end Records

/-! ### Tables -/

/-- The range holds whole records of the data. -/
structure WholeRecords (delimiter : UInt8) (data : List UInt8) (range : SourceRange) : Prop where
  nonempty : range.start < range.endExclusive
  inside : range.endExclusive ≤ data.length
  length_eq : range.length = range.endExclusive - range.start
  start_ok : range.start = 0 ∨ EndsAt [delimiter] data range.start
  end_ok : range.endExclusive = data.length ∨ EndsAt [delimiter] data range.endExclusive

/-- The order of the rows: by worker, then by source, then by position. -/
def sortKey (assigned : Nat × SourceRange) : Nat ×ₗ Nat ×ₗ Nat :=
  toLex (assigned.1, toLex (assigned.2.sourceIndex, assigned.2.start))

/-- What a table must be for its workers to see each record of the sources once. -/
structure TableOk (contents : List (List UInt8)) (delimiter : UInt8)
    (table : List (Nat × SourceRange)) : Prop where
  located : ∀ assigned ∈ table, ∃ data, contents[assigned.2.sourceIndex]? = some data ∧
    WholeRecords delimiter data assigned.2
  ordered : (table.map sortKey).Pairwise (· ≤ ·)
  covered : ∀ (k : Nat) (data : List UInt8), contents[k]? = some data →
    Tiles 0 data.length (rangesOfSource k (table.map Prod.snd))
  compact : ∃ n, ∀ worker, worker ∈ table.map Prod.fst ↔ worker < n

/-- Each path can be read, and no file is longer than a buffer can be. -/
structure Readable (env : Environment) (paths : List String) (contents : List (List UInt8)) :
    Prop where
  opens : paths.map env.openBinary = contents.map .ok
  short : ∀ data ∈ contents, data.length ≤ isizeMax

/-- What the sources are worth, one after the other. -/
def sourcesTally (loads : JsonLoads) (delimiter : UInt8) (contents : List (List UInt8)) :
    WithTop Tally :=
  (contents.zipIdx.map fun entry => dataTally loads delimiter entry.2 entry.1).sum

theorem rangesOfSource_eq (k : Nat) (rows : List SourceRange) :
    rangesOfSource k rows =
      (rows.filter fun row => row.sourceIndex = k).map fun row => (row.start, row.endExclusive) := by
  rw [rangesOfSource, ← List.filterMap_eq_map, List.filterMap_filter]
  congr 1
  funext row
  by_cases eq : row.sourceIndex = k
  · simp [eq]
  · simp [eq]

section Measure

variable {contents : List (List UInt8)} {delimiter : UInt8} {table : List (Nat × SourceRange)}

/-- The ranges of one source are worth what the source is worth. -/
theorem TableOk.sum_source {M : Type} [AddCommMonoid M] {μ : List UInt8 → M}
    (ok : TableOk contents delimiter table) (adds : AddsUp delimiter μ) {k : Nat}
    {data : List UInt8} (here : contents[k]? = some data) :
    (((table.map Prod.snd).filter fun row => row.sourceIndex = k).map fun row =>
        μ (slice data (row.start, row.endExclusive))).sum = μ data := by
  have ends : ∀ r ∈ rangesOfSource k (table.map Prod.snd),
      EndsAt [delimiter] data r.2 ∨ r.2 = data.length := by
    rw [rangesOfSource_eq]
    rintro _ mem
    obtain ⟨row, memFilter, rfl⟩ := List.mem_map.mp mem
    obtain ⟨memRow, eq⟩ := List.mem_filter.mp memFilter
    obtain rfl := of_decide_eq_true eq
    obtain ⟨assigned, memTable, rfl⟩ := List.mem_map.mp memRow
    obtain ⟨_, here', whole⟩ := ok.located assigned memTable
    rw [here] at here'
    cases here'
    exact whole.end_ok.symm
  have measured := adds.sum_slices (ok.covered k data here) ends
  rw [rangesOfSource_eq, List.map_map] at measured
  exact measured

/-- **Measured over the table.** What adds up where records end is over the table what it is
over the sources. -/
theorem TableOk.sum_measure {M : Type} [AddCommMonoid M]
    (ok : TableOk contents delimiter table) (μ : Nat → List UInt8 → M)
    (adds : ∀ k, AddsUp delimiter (μ k)) :
    (table.map fun assigned => μ assigned.2.sourceIndex
        (slice (contents.getD assigned.2.sourceIndex [])
          (assigned.2.start, assigned.2.endExclusive))).sum =
      (contents.zipIdx.map fun entry => μ entry.2 entry.1).sum := by
  have below : ∀ row ∈ table.map Prod.snd, row.sourceIndex < contents.length := by
    intro row mem
    obtain ⟨assigned, memTable, rfl⟩ := List.mem_map.mp mem
    obtain ⟨_, here, -⟩ := ok.located assigned memTable
    exact (List.getElem?_eq_some_iff.mp here).1
  have rows : (table.map fun assigned => μ assigned.2.sourceIndex
      (slice (contents.getD assigned.2.sourceIndex [])
        (assigned.2.start, assigned.2.endExclusive))) =
      (table.map Prod.snd).map fun row => μ row.sourceIndex
        (slice (contents.getD row.sourceIndex []) (row.start, row.endExclusive)) := by
    rw [List.map_map]
    rfl
  rw [rows, sum_fibers SourceRange.sourceIndex _ below]
  congr 1
  apply List.ext_getElem
  · simp
  · intro k lt _
    rw [List.length_map, List.length_range] at lt
    have here : contents[k]? = some contents[k] := List.getElem?_eq_getElem lt
    have same : (((table.map Prod.snd).filter fun row => row.sourceIndex = k).map fun row =>
        μ row.sourceIndex
          (slice (contents.getD row.sourceIndex []) (row.start, row.endExclusive))) =
        ((table.map Prod.snd).filter fun row => row.sourceIndex = k).map fun row =>
          μ k (slice contents[k] (row.start, row.endExclusive)) := by
      apply List.map_congr_left
      intro row mem
      obtain rfl := of_decide_eq_true (List.mem_filter.mp mem).2
      rw [List.getD_eq_getElem?_getD, here, Option.getD_some]
    rw [List.getElem_map, List.getElem_range, same, ok.sum_source (adds k) here]
    simp

/-- The rows have the bytes of the sources. -/
theorem TableOk.sum_length (ok : TableOk contents delimiter table) :
    (table.map fun assigned => assigned.2.length).sum = (contents.map List.length).sum := by
  have measured := ok.sum_measure (fun _ => List.length) fun _ => addsUp_length delimiter
  have rows : (table.map fun assigned => (slice (contents.getD assigned.2.sourceIndex [])
      (assigned.2.start, assigned.2.endExclusive)).length) =
      table.map fun assigned => assigned.2.length := by
    apply List.map_congr_left
    intro assigned mem
    obtain ⟨data, here, whole⟩ := ok.located assigned mem
    have inside := whole.inside
    rw [List.getD_eq_getElem?_getD, here, Option.getD_some, slice, List.length_take,
      List.length_drop, whole.length_eq]
    omega
  have lengths : (contents.zipIdx.map fun entry => entry.1.length) = contents.map List.length := by
    have firsts := congrArg (List.map List.length) (List.zipIdx_map_fst 0 contents)
    rw [List.map_map] at firsts
    exact firsts
  rw [rows, lengths] at measured
  exact measured

end Measure

/-- Workers that are numbered from zero, sorted. -/
theorem sorted_workers_of_compact {table : List (Nat × SourceRange)} {n : Nat}
    (workers : ∀ worker, worker ∈ table.map Prod.fst ↔ worker < n) :
    (Dict.keys (groupRowsByWorker (table.map toRangeRow))).mergeSort (· ≤ ·) =
      (List.range n).map Int.ofNat := by
  have nodup : ((List.range n).map Int.ofNat).Nodup :=
    List.nodup_range.map fun _ _ eq => Int.ofNat_inj.mp eq
  have mem_iff : ∀ worker : Int, worker ∈ Dict.keys (groupRowsByWorker (table.map toRangeRow)) ↔
      worker ∈ (List.range n).map Int.ofNat := by
    intro worker
    rw [groupRowsByWorker, Dict.group, Dict.mem_keys_collect, List.mem_map]
    constructor
    · rintro ⟨row, mem, rfl⟩
      obtain ⟨assigned, memTable, rfl⟩ := List.mem_map.mp mem
      exact ⟨assigned.1,
        List.mem_range.mpr ((workers _).mp (List.mem_map_of_mem memTable)), rfl⟩
    · rintro ⟨index, mem, rfl⟩
      obtain ⟨assigned, memTable, rfl⟩ :=
        List.mem_map.mp ((workers index).mpr (List.mem_range.mp mem))
      exact ⟨toRangeRow assigned, List.mem_map_of_mem memTable, rfl⟩
  have perm := (List.perm_ext_iff_of_nodup Dict.nodup_keys_collect nodup).mpr mem_iff
  have sorted : ((List.range n).map Int.ofNat).Pairwise (· ≤ ·) := by
    rw [List.pairwise_map]
    exact List.pairwise_lt_range.imp fun lt => Int.ofNat_le.mpr lt.le
  exact ((List.mergeSort_perm _ _).trans perm).eq_of_pairwise'
    (List.pairwise_mergeSort' (· ≤ ·) _) sorted

/-! ### Reading a table -/

section Reading

variable {env : Environment} {loads : JsonLoads} {paths : List String}
  {contents : List (List UInt8)} {delimiter : UInt8} {table : List (Nat × SourceRange)}

theorem Readable.sourceFile_eq (readable : Readable env paths contents) {k : Nat}
    {data : List UInt8} (here : contents[k]? = some data) :
    ∃ maxOffset, data.length ≤ maxOffset ∧
      sourceFile env paths k = some ⟨data, maxOffset⟩ := by
  have opened := congrArg (·[k]?) readable.opens
  simp only [List.getElem?_map, here, Option.map_some, Option.map_eq_some_iff] at opened
  obtain ⟨path, at_, opens⟩ := opened
  have item : tupleItem paths (k : Int) = .ok path := by
    have nonneg : ¬(k : Int) < 0 := by omega
    unfold tupleItem
    dsimp only
    rw [if_neg nonneg, if_neg nonneg, Int.toNat_natCast, at_]
  refine ⟨env.maxOffset path, env.length_le path data opens, ?_⟩
  rw [sourceFile, item]
  change (env.openBinary path).toOption.map _ = _
  rw [opens]
  rfl

/-- A row is worth what its bytes are. -/
theorem rowTally_toRangeRow (readable : Readable env paths contents) {worker : Nat}
    {range : SourceRange} {data : List UInt8} (here : contents[range.sourceIndex]? = some data)
    (whole : WholeRecords delimiter data range) :
    rowTally env loads paths delimiter (toRangeRow (worker, range)) =
      dataTally loads delimiter range.sourceIndex
        (slice data (range.start, range.endExclusive)) := by
  have fits := readable.short data (List.mem_of_getElem? here)
  have lt := whole.nonempty
  have inside := whole.inside
  have length := whole.length_eq
  obtain ⟨maxOffset, allowed, opened⟩ := readable.sourceFile_eq here
  have sought : seek maxOffset range.start = .ok range.start := seek_eq (by omega) (by omega)
  have read : readBytes data range.start (range.length : Int) =
      .ok (slice data (range.start, range.endExclusive)) := by
    unfold readBytes
    rw [if_neg (by omega), if_neg (by omega), if_neg (by omega), Int.toNat_natCast, length]
    rfl
  have complete : ((slice data (range.start, range.endExclusive)).length : Int) =
      range.length := by
    rw [slice, List.length_take, List.length_drop]
    omega
  have bytes : rowData env paths (toRangeRow (worker, range)) =
      some (slice data (range.start, range.endExclusive)) := by
    rw [rowData]
    dsimp only [toRangeRow]
    rw [opened, Option.bind_some, sought]
    change (readBytes data range.start (range.length : Int)).toOption.filter _ = _
    rw [read]
    exact (Option.filter_some ..).trans (if_pos (decide_eq_true complete))
  rw [rowTally, bytes]
  rfl

/-- **The rows of the table are worth what the sources are worth.** -/
theorem TableOk.sum_rows (ok : TableOk contents delimiter table)
    (readable : Readable env paths contents) :
    ((table.map toRangeRow).map (rowTally env loads paths delimiter)).sum =
      sourcesTally loads delimiter contents := by
  have measured := ok.sum_measure (fun k => dataTally loads delimiter (k : Int))
    fun k => addsUp_dataTally loads delimiter k
  rw [sourcesTally, ← measured, List.map_map]
  congr 1
  apply List.map_congr_left
  rintro ⟨worker, range⟩ mem
  obtain ⟨data, here, whole⟩ := ok.located _ mem
  dsimp only at here whole
  rw [Function.comp_apply, rowTally_toRangeRow readable here whole]
  simp [List.getD_eq_getElem?_getD, here]

end Reading

end Workers
