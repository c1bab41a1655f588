import MmapChunker.Scanner.Partition
import MmapChunker.Theory.Framing

/-!
Whether partitioning splits a record (`src/scanner.rs`).

`find_partition_boundaries_pattern` promises that no record is split. A planner
that starts its search at an arbitrary byte does not know where the left-to-right
framing stands, so a delimiter that overlaps itself can be found at a place that
ends no record.

* `TakesStraddling` is the case that goes wrong: the occurrence taken for a target
  starts inside one record and ends inside a later one.
* `records_kept_iff` says that this is the only one, and
  `records_kept_of_unbordered` that a delimiter without a border never meets it.
-/

namespace Scanner

open Machine Occurrence TargetWalk Tiling Framing

/-- The occurrence a planner takes for target `t`: the one that ends right before
the target, else the first that starts at or after it. -/
def takenAt (delimiter xs : List UInt8) (t : Nat) : Option Nat :=
  if EndsAt delimiter xs t then some (t - delimiter.length) else nextOcc delimiter xs t

/-- The occurrence taken for `t` ends before the file does and straddles a record
end. -/
def TakesStraddling (delimiter xs : List UInt8) (t : Nat) : Prop :=
  ∃ g ∈ takenAt delimiter xs t,
    g + delimiter.length < xs.length ∧ Straddles delimiter xs g

instance (delimiter xs : List UInt8) (t : Nat) : Decidable (TakesStraddling delimiter xs t) := by
  unfold TakesStraddling
  cases takenAt delimiter xs t with
  | none => exact isFalse (by simp)
  | some g =>
      exact decidable_of_iff (g + delimiter.length < xs.length ∧ Straddles delimiter xs g) (by simp)

/-- The targets of a partitioning into `parts` that lie past the cut before them. -/
def actedTargets (xs : List UInt8) (parts : Nat) (delimiter : List UInt8) : List Nat :=
  acted (snapEnd delimiter xs) (evenTargets xs.length (min parts xs.length)) 0

/-- The records of the ranges, one range after the other. -/
def recordsOfRanges (delimiter xs : List UInt8) (ranges : List (Nat × Nat)) :
    List (List UInt8) :=
  ranges.flatMap fun r => records delimiter (slice xs r)

section Kept

variable {delimiter xs : List UInt8} {parts t : Nat}

theorem snapEnd?_eq_takenAt :
    snapEnd? delimiter xs t = (takenAt delimiter xs t).map (· + delimiter.length) := by
  by_cases ends : EndsAt delimiter xs t
  · rw [snapEnd?_of_endsAt ends, takenAt, if_pos ends, Option.map_some, Nat.sub_add_cancel ends.1]
  · rw [snapEnd?_of_not_endsAt ends, takenAt, if_neg ends]

/-- What is taken for a target is an occurrence. -/
theorem occursAt_of_takenAt (ne : delimiter ≠ []) {g : Nat}
    (taken : takenAt delimiter xs t = some g) : OccursAt delimiter xs g := by
  have found : snapEnd? delimiter xs t = some (g + delimiter.length) := by
    rw [snapEnd?_eq_takenAt, taken, Option.map_some]
  exact endsAt_add.mp (snapEnd?_some ne found).1

/-- The cut of a target is a record end unless the target takes a straddling
occurrence. -/
theorem frameEnd_snapEnd_iff (ne : delimiter ≠ []) :
    FrameEnd delimiter xs (snapEnd delimiter xs t) ↔ ¬ TakesStraddling delimiter xs t := by
  rw [snapEnd, snapEnd?_eq_takenAt]
  cases taken : takenAt delimiter xs t with
  | none =>
      refine iff_of_true (frameEnd_length ne xs) ?_
      rintro ⟨g, mem, _⟩
      simp [taken] at mem
  | some g =>
      have occurs := occursAt_of_takenAt ne taken
      have straddling : TakesStraddling delimiter xs t ↔
          g + delimiter.length < xs.length ∧ Straddles delimiter xs g := by
        simp [TakesStraddling, taken]
      rw [straddling, Option.map_some, Option.getD_some]
      by_cases interior : g + delimiter.length < xs.length
      · rw [frameEnd_iff_not_straddles ne occurs interior]
        exact not_congr (and_iff_right interior).symm
      · have atEnd : g + delimiter.length = xs.length := by
          have := occurs.le_length ne
          omega
        rw [atEnd]
        exact iff_of_true (frameEnd_length ne xs) fun straddling => interior (by omega)

theorem recordsOfRanges_partitionPlan_iff (ne : delimiter ≠ []) :
    recordsOfRanges delimiter xs (partitionPlan xs parts delimiter) = records delimiter xs ↔
      ∀ t ∈ actedTargets xs parts delimiter, ¬ TakesStraddling delimiter xs t := by
  have forward : ∀ t ∈ evenTargets xs.length (min parts xs.length), t ≤ snapEnd delimiter xs t :=
    fun _ mem => le_snapEnd ne (le_length_of_mem_targets mem)
  rw [recordsOfRanges, flatMap_records_eq_iff ne (tiles_partitionPlan ne xs parts), partitionPlan,
    forall_plan_end_iff forward (frameEnd_length ne xs), actedTargets]
  exact forall₂_congr fun _ _ => frameEnd_snapEnd_iff ne

theorem not_takesStraddling_of_unbordered (ne : delimiter ≠ [])
    (unbordered : Unbordered delimiter) : ¬ TakesStraddling delimiter xs t := by
  rintro ⟨g, taken, _, straddles⟩
  exact not_straddles_of_unbordered ne unbordered (occursAt_of_takenAt ne taken) straddles

end Kept

/-- A delimiter that does not overlap itself, a single byte in particular, never
splits a record. -/
theorem records_kept_of_unbordered (data : Slice) {parts : Nat} (pos : 1 ≤ parts)
    {delimiter : List UInt8} (ne : delimiter ≠ []) (unbordered : Unbordered delimiter) :
    ∃ ranges, findPartitionBoundariesPattern data parts delimiter = some ranges ∧
      recordsOfRanges delimiter data.bytes ranges = records delimiter data.bytes :=
  ⟨_, findPartitionBoundariesPattern_eq data pos ne, (recordsOfRanges_partitionPlan_iff ne).mpr
    fun _ _ => not_takesStraddling_of_unbordered ne unbordered⟩

/-- **Exactly when no record is split.** The records of the ranges are the records
of the file if and only if no target past the cut before it takes an occurrence
that straddles a record end. -/
theorem records_kept_iff (data : Slice) (parts : Nat) (pos : 1 ≤ parts) (delimiter : List UInt8)
    (ne : delimiter ≠ []) :
    ∃ ranges, findPartitionBoundariesPattern data parts delimiter = some ranges ∧
      (recordsOfRanges delimiter data.bytes ranges = records delimiter data.bytes ↔
        ∀ t ∈ actedTargets data.bytes parts delimiter,
          ¬ TakesStraddling delimiter data.bytes t) :=
  ⟨_, findPartitionBoundariesPattern_eq data pos ne, recordsOfRanges_partitionPlan_iff ne⟩

/-- Three records under CR LF CR LF, and one byte after the last of them. -/
def blankLines : Slice :=
  ⟨0, [13, 10, 13, 10, 97, 13, 10, 13, 10, 98, 13, 10, 13, 10, 99], by decide⟩

/-- In three parts both targets are acted on, and the occurrence each of them takes
is the terminator of a record. -/
theorem records_kept_iff_blankLines :
    1 ≤ 3 ∧ [(13 : UInt8), 10, 13, 10] ≠ [] ∧
      actedTargets blankLines.bytes 3 [13, 10, 13, 10] = [5, 10] ∧
      takenAt [13, 10, 13, 10] blankLines.bytes 5 = some 5 ∧
      takenAt [13, 10, 13, 10] blankLines.bytes 10 = some 10 ∧
      findPartitionBoundariesPattern blankLines 3 [13, 10, 13, 10] =
        some [(0, 9), (9, 14), (14, 15)] ∧
      recordsOfRanges [13, 10, 13, 10] blankLines.bytes [(0, 9), (9, 14), (14, 15)] =
        records [13, 10, 13, 10] blankLines.bytes := by
  have run : findPartitionBoundariesPattern blankLines 3 [13, 10, 13, 10] =
      some [(0, 9), (9, 14), (14, 15)] := by
    decide +kernel
  obtain ⟨ranges, eq, kept⟩ :=
    records_kept_iff blankLines 3 (by decide) [13, 10, 13, 10] (by decide)
  have same : [(0, 9), (9, 14), (14, 15)] = ranges := Option.some.inj (run.symm.trans eq)
  refine ⟨by decide, by decide, by decide +kernel, by decide +kernel, by decide +kernel, run, ?_⟩
  rw [same]
  exact kept.mpr (by decide +kernel)

/-- Three line ends and one byte. Under CR LF CR LF the first record ends after the
second line end. -/
def threeLineEnds : Slice := ⟨0, [13, 10, 13, 10, 13, 10, 88], by decide⟩

/-- In three parts the first target is the start of the second line end. The
occurrence found there overlaps the terminator of the first record, so the second
record is cut in two. -/
theorem records_split_threeLineEnds :
    ∃ ranges, findPartitionBoundariesPattern threeLineEnds 3 [13, 10, 13, 10] = some ranges ∧
      recordsOfRanges [13, 10, 13, 10] threeLineEnds.bytes ranges ≠
        records [13, 10, 13, 10] threeLineEnds.bytes :=
  ⟨[(0, 6), (6, 7)], by decide +kernel, by decide +kernel⟩

end Scanner
