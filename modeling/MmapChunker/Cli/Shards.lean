import MmapChunker.Cli.Mapped

/-!
Sharding (`src/bin/mmap-chunker.rs`, `src/scanner.rs`).

`plan_logical_partitions` accepts every file boundary as a cut and searches inside one
file at a time; `find_partition_boundaries` sees one array and accepts a target only
right after the delimiter. When every shard that has another behind it ends with the
delimiter, both find the same cuts.
-/

namespace Cli

open Machine Occurrence TargetWalk Tiling Segments Exec

/-- Every non-empty source with a non-empty one behind it ends with the delimiter. -/
def ShardsTerminated (delimiter : UInt8) (contents : List (List UInt8)) : Prop :=
  contents.Pairwise fun shard later =>
    shard ≠ [] → later ≠ [] → shard.getLast? = some delimiter

/-- Where a worker ends in the concatenation of the sources. -/
def workerEnd (sources : List Slice) (worker : WorkerAssignment) : Option Nat :=
  worker.ranges.getLast?.map fun row =>
    offset (sources.map Slice.len) row.sourceIndex + row.endExclusive

section Shards

variable {contents : List (List UInt8)} {delimiter : UInt8} {parts k t : Nat}

/-- The concatenation around shard `k`. -/
theorem flatten_eq_around (lt : k < contents.length) : contents.flatten =
    (contents.take k).flatten ++ (contents[k] ++ (contents.drop (k + 1)).flatten) := by
  rw [← List.flatten_cons, ← List.drop_eq_getElem_cons lt, ← List.flatten_append,
    List.take_append_drop]

theorem length_flatten_take (contents : List (List UInt8)) (k : Nat) :
    (contents.take k).flatten.length = offset (lengths contents) k := by
  rw [List.length_flatten, offset, lengths, List.map_take]

/-- Behind a shard there is nothing, or the shard ends with the delimiter. -/
theorem endsAt_of_terminated (terminated : ShardsTerminated delimiter contents)
    (lt : k < contents.length) (ne : contents[k] ≠ []) :
    (contents.drop (k + 1)).flatten = [] ∨ EndsAt [delimiter] contents[k] contents[k].length := by
  rw [or_iff_not_imp_left]
  intro more
  obtain ⟨later, mem, neLater⟩ : ∃ later ∈ contents.drop (k + 1), later ≠ [] := by
    simpa [List.flatten_eq_nil_iff] using more
  have behind : (contents.drop k).Pairwise fun shard later =>
      shard ≠ [] → later ≠ [] → shard.getLast? = some delimiter :=
    terminated.sublist (List.drop_sublist k contents)
  rw [List.drop_eq_getElem_cons lt] at behind
  have last := (List.pairwise_cons.mp behind).1 later mem ne neLater
  rw [List.getLast?_eq_getElem?] at last
  exact ⟨List.length_pos_of_ne_nil ne, occursAt_singleton.mpr last⟩

/-- The cut of a target, in terms of the shard that holds the byte before it. -/
theorem logicalSnap_segment (lt : k < contents.length) (low : offset (lengths contents) k < t)
    (high : t ≤ offset (lengths contents) (k + 1)) :
    logicalSnap contents [delimiter] t = offset (lengths contents) k +
      snapEnd [delimiter] contents[k] (t - offset (lengths contents) k) := by
  have next : offset (lengths contents) (k + 1) =
      offset (lengths contents) k + contents[k].length := by
    rw [offset_succ (by simpa [lengths] using lt)]
    simp [lengths]
  by_cases inside : t < offset (lengths contents) (k + 1)
  · rw [logicalSnap, lineSnap_inside ⟨low, inside⟩, sourceSnap_eq lt]
  · have boundary : t = offset (lengths contents) (k + 1) := by omega
    have mem : t ∈ prefixSums (lengths contents) :=
      mem_prefixSums.mpr ⟨k + 1, by simpa [lengths] using Nat.succ_le_of_lt lt, boundary.symm⟩
    have whole : t - offset (lengths contents) k = contents[k].length := by omega
    have ne : [delimiter] ≠ [] := List.cons_ne_nil _ _
    have forward := le_snapEnd ne (le_refl contents[k].length)
    have inShard := snapEnd_le ne contents[k] contents[k].length
    rw [logicalSnap, lineSnap_offset mem, whole]
    omega

/-- **Over terminated shards a target has the same cut in its shard as in the
concatenation.** -/
theorem logicalSnap_eq_snapEnd (terminated : ShardsTerminated delimiter contents) (pos : 0 < t)
    (le : t ≤ (lengths contents).sum) :
    logicalSnap contents [delimiter] t = snapEnd [delimiter] contents.flatten t := by
  obtain ⟨k, ltK, low, high⟩ := exists_segment pos le
  have lt : k < contents.length := by simpa [lengths] using ltK
  have next := offset_succ ltK
  have length : (lengths contents)[k] = contents[k].length := by simp [lengths]
  have ne : contents[k] ≠ [] := by
    intro empty
    rw [length, empty] at next
    simp only [List.length_nil] at next
    omega
  have split : t = (contents.take k).flatten.length + (t - offset (lengths contents) k) := by
    rw [length_flatten_take]
    omega
  have shifted := snapEnd_singleton_append_right delimiter (contents.take k).flatten
    (contents[k] ++ (contents.drop (k + 1)).flatten) (Nat.sub_pos_of_lt low)
  rw [← split, ← flatten_eq_around lt, length_flatten_take] at shifted
  rw [logicalSnap_segment lt low high, shifted]
  congr 1
  rcases endsAt_of_terminated terminated lt ne with last | ends
  · rw [last, List.append_nil]
  · exact (snapEnd_singleton_append_left _ ends (by omega)).symm

theorem sum_lengths (contents : List (List UInt8)) :
    (lengths contents).sum = contents.flatten.length := by
  rw [List.length_flatten, lengths]

/-- The intervals of the shards are the ranges of their concatenation. -/
theorem logicalIntervals_eq_partitionPlan (terminated : ShardsTerminated delimiter contents) :
    logicalIntervals contents parts [delimiter] =
      Scanner.partitionPlan contents.flatten parts [delimiter] := by
  have stays := staysInside_sourceSnap (List.cons_ne_nil delimiter []) contents
  rw [logicalIntervals, plan, walk_congr
    (fun t mem pos => logicalSnap_eq_snapEnd terminated pos (lt_of_mem_logicalTargets mem).le)
    fun t mem => le_lineSnap stays (lt_of_mem_logicalTargets mem), sum_lengths]
  rfl

end Shards

/-- A worker ends where its interval does. -/
theorem workerEnd_toWorker {sources : List Slice} {r : Nat × Nat} (i : Nat) (lt : r.1 < r.2)
    (le : r.2 ≤ (lengths (bytesOf sources)).sum) :
    workerEnd sources (toWorker (lengths (bytesOf sources)) i r) = some r.2 := by
  obtain ⟨q, last, atEnd⟩ := getLast?_pieces lt le
  rw [workerEnd, toWorker, List.getLast?_map, last, ← lengths_bytesOf]
  exact congrArg some atEnd

theorem map_workerEnd {sources : List Slice} {intervals : List (Nat × Nat)}
    (tiles : Tiles 0 (lengths (bytesOf sources)).sum intervals) :
    (assignmentsOf (lengths (bytesOf sources)) intervals).map (workerEnd sources) =
      intervals.map fun r => some r.2 := by
  refine List.ext_getElem (by simp [assignmentsOf]) fun i lt lt' => ?_
  have inside : i < intervals.length := by simpa using lt'
  obtain ⟨_, nonempty, le⟩ := tiles.bounds (List.getElem_mem inside)
  simpa [assignmentsOf] using workerEnd_toWorker i nonempty le

/-- **Sharding does not change the plan.** Over shards that end with the delimiter, but
for the last one, the workers of `partition-files` end where the ranges of `partition`
over the concatenated bytes do. -/
theorem shards_keep_cuts (sources : List Slice) (data : Slice) (parts : Nat) (delimiter : UInt8)
    (pos : 1 ≤ parts) (concatenated : data.bytes = (sources.map Slice.bytes).flatten)
    (terminated : ShardsTerminated delimiter (sources.map Slice.bytes)) :
    ∃ ranges, Scanner.findPartitionBoundaries data parts delimiter = some ranges ∧
      Returns (planLogicalPartitions sources parts [delimiter]) () fun assignments _ =>
        assignments.map (workerEnd sources) = ranges.map fun r => some r.2 := by
  have ne : [delimiter] ≠ [] := List.cons_ne_nil _ _
  have fits : (lengths (bytesOf sources)).sum ≤ usizeMax := by
    rw [sum_lengths, bytesOf, ← concatenated]
    exact data.len_le_usizeMax
  refine ⟨_, Scanner.findPartitionBoundaries_eq data pos delimiter,
    (planLogicalPartitions_returns sources pos ne fits).mono fun assignments _ eq => ?_⟩
  rw [eq, map_workerEnd (tiles_logicalIntervals ne _ _), bytesOf,
    logicalIntervals_eq_partitionPlan terminated, concatenated]

/-- The concatenation of the three sources, of which the middle one is empty. -/
def threeSourcesData : Slice := ⟨0, [97, 10, 98, 10, 99, 10], by decide⟩

theorem shards_keep_cuts_threeSources :
    1 ≤ 2 ∧ threeSourcesData.bytes = (threeSources.map Slice.bytes).flatten ∧
      ShardsTerminated 10 (threeSources.map Slice.bytes) ∧
      Returns (planLogicalPartitions threeSources 2 [10]) () fun assignments _ =>
        assignments.map (workerEnd threeSources) = [some 4, some 6] := by
  have terminated : ShardsTerminated 10 (threeSources.map Slice.bytes) := by
    unfold ShardsTerminated
    decide
  have run : Scanner.findPartitionBoundaries threeSourcesData 2 10 = some [(0, 4), (4, 6)] := by
    decide +kernel
  obtain ⟨ranges, eq, keeps⟩ :=
    shards_keep_cuts threeSources threeSourcesData 2 10 (by decide) (by decide) terminated
  rw [run, Option.some.injEq] at eq
  subst eq
  exact ⟨by decide, by decide, terminated, keeps⟩

end Cli
