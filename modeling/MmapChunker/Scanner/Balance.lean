import MmapChunker.Scanner.Integrity

/-!
How many targets a partitioning needs and how large its ranges are (`src/scanner.rs`).

* `ranges_balanced`: a range of single-byte partitioning has at most the bytes of an even
  part and of a record. It may span many targets that were skipped, but the first one past
  its start is near its start, and its end is near that one.
* `capping_transparent`: the planners cap the number of parts at the number of bytes. The
  loops without the cap go through more targets, zeros and repeats among them, and return
  the same ranges.
-/

namespace Scanner

open Machine Occurrence TargetWalk Framing

/-! ### Load balance -/

/-- **The load of a range is bounded** by that of an even part, rounded up, and the length
of the longest record. -/
theorem ranges_balanced (data : Slice) (nonempty : data.len ≠ 0) (delimiter : UInt8) (parts : Nat)
    (pos : 1 ≤ parts) :
    ∃ ranges, findPartitionBoundaries data parts delimiter = some ranges ∧
      ∀ r ∈ ranges, r.2 - r.1 ≤
        (data.len + min parts data.len - 1) / min parts data.len +
          longestRecord [delimiter] data.bytes - 1 := by
  refine ⟨_, findPartitionBoundaries_eq data pos delimiter, ?_⟩
  rintro ⟨s, e⟩ mem
  have ne : [delimiter] ≠ [] := List.cons_ne_nil _ _
  have lenPos := Nat.pos_of_ne_zero nonempty
  have nPos : 0 < min parts data.bytes.length := lt_min pos lenPos
  have record : 0 < longestRecord [delimiter] data.bytes :=
    longestRecord_pos ne (List.ne_nil_of_length_pos lenPos)
  have forward : ∀ t ∈ evenTargets data.bytes.length (min parts data.bytes.length),
      t ≤ snapEnd [delimiter] data.bytes t := fun t memT =>
    le_snapEnd ne (le_length_of_mem_targets memT)
  rcases range_of_mem_plan forward mem with ⟨t, first, cut⟩ | ⟨past, rfl⟩
  · have memT := List.mem_of_find?_eq_some first
    have near := le_of_find?_evenTargets nPos first
    have short := snapEnd_singleton_lt (x := delimiter)
      (pos_of_mem_evenTargets (Nat.min_le_right _ _) memT) (lt_of_mem_evenTargets lenPos memT)
    unfold Slice.len
    dsimp only
    omega
  · have near := total_le_of_past nPos past
    unfold Slice.len
    dsimp only
    omega

theorem ranges_balanced_twoRecords :
    twoRecords.len ≠ 0 ∧ 1 ≤ 2 ∧ ∃ ranges, findPartitionBoundaries twoRecords 2 10 = some ranges ∧
      ∀ r ∈ ranges, r.2 - r.1 ≤ 2 + 2 - 1 := by
  obtain ⟨ranges, eq, bound⟩ := ranges_balanced twoRecords (by decide) 10 2 (by decide)
  have longest : longestRecord [10] twoRecords.bytes = 2 := by decide +kernel
  rw [longest] at bound
  exact ⟨by decide, by decide, ranges, eq, bound⟩

/-! ### The cap -/

/-- The loop of `find_partition_boundaries` for `n` parts, whatever `n` is. -/
def uncappedBoundaries (data : Slice) (n : Nat) (delimiter : UInt8) :
    Option (List (Nat × Nat)) := do
  let st ← forIn (List.range' 1 (n - 1)) ⟨[], 0⟩ (partitionStep data n delimiter)
  return rangesFromBoundaries data.len st.boundaries

/-- The loop of `find_partition_boundaries_pattern` for `n` parts, whatever `n` is. -/
def uncappedBoundariesPattern (data : Slice) (n : Nat) (delimiter : List UInt8) :
    Option (List (Nat × Nat)) := do
  let st ← forIn (List.range' 1 (n - 1)) ⟨[], 0⟩ (partitionStepPattern data n delimiter)
  return rangesFromBoundaries data.len st.boundaries

/-- The candidate loop of `scalar_partition_boundaries_pattern`. -/
def scalarCut (data pattern : List UInt8) (candidate : Nat) : Nat :=
  if candidate + pattern.length ≤ data.length then
    if (data.drop candidate).take pattern.length = pattern then candidate + pattern.length
    else scalarCut data pattern (candidate + 1)
  else data.length
termination_by data.length + 1 - candidate

/-- One iteration of the loop of `scalar_partition_boundaries_pattern`, in exact
arithmetic. -/
def scalarStep (data pattern : List UInt8) (n i : Nat) (st : WalkState Nat) :
    ForInStep (WalkState Nat) :=
  let target := data.length * i / n
  if target ≤ st.lastBoundary then .yield st
  else if pattern.length ≤ target ∧
      (data.drop (target - pattern.length)).take pattern.length = pattern then
    let st : WalkState Nat := ⟨st.boundaries ++ [target], target⟩
    if target = data.length then .done st else .yield st
  else
    let cut := scalarCut data pattern target
    let st : WalkState Nat := ⟨st.boundaries ++ [cut], cut⟩
    if cut = data.length then .done st else .yield st

/-- `scalar_partition_boundaries_pattern`, the uncapped oracle of the tests. Its last
loop is that of `ranges_from_boundaries`. -/
def scalarPartitionBoundariesPattern (data : List UInt8) (numPartitions : Nat)
    (pattern : List UInt8) : List (Nat × Nat) :=
  if data = [] ∨ numPartitions = 0 then []
  else if numPartitions = 1 then [(0, data.length)]
  else rangesFromBoundaries data.length
    (Loop.runSteps (scalarStep data pattern numPartitions) (List.range' 1 (numPartitions - 1))
      ⟨[], 0⟩).boundaries

section Cap

variable {xs delimiter : List UInt8} {parts n : Nat}

/-- More parts than bytes have no targets that as many parts as bytes do not have. -/
theorem partitionPlan_eq_uncapped (ne : delimiter ≠ []) (pos : 0 < xs.length)
    (beyond : xs.length < parts) :
    partitionPlan xs parts delimiter =
      plan (snapEnd delimiter xs) (evenTargets xs.length parts) 0 xs.length := by
  have cuts : walk (snapEnd delimiter xs) (evenTargets xs.length xs.length) 0 =
      walk (snapEnd delimiter xs) (evenTargets xs.length parts) 0 := by
    apply walk_congr_mem (sorted_evenTargets _ _) (sorted_evenTargets _ _)
    · intro t mem
      exact le_snapEnd ne (lt_of_mem_evenTargets pos mem).le
    · intro t ahead
      rw [mem_evenTargets_of_le beyond.le ahead, mem_evenTargets_of_le le_rfl ahead]
  rw [partitionPlan, Nat.min_eq_right beyond.le, plan, cuts]
  rfl

theorem scalarCut_eq (ne : delimiter ≠ []) (candidate : Nat) :
    scalarCut xs delimiter candidate =
      ((nextOcc delimiter xs candidate).map (· + delimiter.length)).getD xs.length := by
  fun_induction scalarCut xs delimiter candidate with
  | case1 candidate _ here =>
      rw [nextOcc_here ne (occursAt_iff_take.mpr here)]
      rfl
  | case2 candidate _ notHere ih =>
      rw [ih, nextOcc_next ne (mt occursAt_iff_take.mp notHere)]
  | case3 candidate short =>
      rw [nextOcc_eq_none ne (Nat.not_le.mp short)]
      rfl

/-- A step of the oracle snaps its target, and breaks at the end of the data. -/
theorem scalarStep_eq (ne : delimiter ≠ []) (xs : List UInt8) (n i : Nat) (st : WalkState Nat) :
    scalarStep xs delimiter n i st =
      if xs.length * i / n ≤ st.lastBoundary then .yield st
      else
        let cut := snapEnd delimiter xs (xs.length * i / n)
        if cut = xs.length then .done ⟨st.boundaries ++ [cut], cut⟩
        else .yield ⟨st.boundaries ++ [cut], cut⟩ := by
  have follows : (delimiter.length ≤ xs.length * i / n ∧
      (xs.drop (xs.length * i / n - delimiter.length)).take delimiter.length = delimiter) ↔
      EndsAt delimiter xs (xs.length * i / n) :=
    and_congr_right fun _ => occursAt_iff_take.symm
  simp only [scalarStep, follows]
  by_cases ends : EndsAt delimiter xs (xs.length * i / n)
  · rw [if_pos ends, snapEnd, snapEnd?_of_endsAt ends]
    rfl
  · rw [if_neg ends, snapEnd, snapEnd?_of_not_endsAt ends, scalarCut_eq ne]

/-- The loop of the oracle pushes the cuts of the walk. -/
theorem runSteps_scalarStep (ne : delimiter ≠ []) (is : List Nat)
    (inside : ∀ i ∈ is, xs.length * i / n ≤ xs.length) (st : WalkState Nat) :
    (Loop.runSteps (scalarStep xs delimiter n) is st).boundaries =
      st.boundaries ++ walk (snapEnd delimiter xs) (is.map fun i => xs.length * i / n)
        st.lastBoundary := by
  induction is generalizing st with
  | nil => simp
  | cons i is ih =>
      have rest := ih fun j mem => inside j (List.mem_cons_of_mem _ mem)
      have step := scalarStep_eq ne xs n i st
      rw [List.map_cons]
      by_cases skip : xs.length * i / n ≤ st.lastBoundary
      · rw [if_pos skip] at step
        rw [Loop.runSteps_cons_yield step, walk_cons_skip skip]
        exact rest st
      · rw [if_neg skip] at step
        rw [walk_cons_cut (Nat.not_le.mp skip)]
        by_cases stop : snapEnd delimiter xs (xs.length * i / n) = xs.length
        · -- Every later target lies behind the end of the data.
          have behind : ∀ t ∈ is.map fun i => xs.length * i / n, t ≤ xs.length := by
            intro t mem
            obtain ⟨j, memJ, rfl⟩ := List.mem_map.mp mem
            exact inside j (List.mem_cons_of_mem _ memJ)
          simp only [stop, if_true] at step
          rw [Loop.runSteps_cons_done step, stop, walk_eq_nil behind]
        · simp only [stop, if_false] at step
          rw [Loop.runSteps_cons_yield step, rest]
          simp

theorem scalarPartitionBoundariesPattern_eq (ne : delimiter ≠ []) (pos : 0 < xs.length)
    (many : 1 < n) : scalarPartitionBoundariesPattern xs n delimiter =
      plan (snapEnd delimiter xs) (evenTargets xs.length n) 0 xs.length := by
  have nonempty : xs ≠ [] := List.ne_nil_of_length_pos pos
  have inside : ∀ i ∈ List.range' 1 (n - 1), xs.length * i / n ≤ xs.length := fun i mem =>
    (lt_of_mem_evenTargets pos (List.mem_map_of_mem mem)).le
  rw [scalarPartitionBoundariesPattern, if_neg (by simp [nonempty]; omega), if_neg (by omega),
    runSteps_scalarStep ne _ inside, rangesFromBoundaries_eq]
  rfl

end Cap

/-- **Capping huge requests is transparent.** Asked for more parts than there are bytes,
the planners return what their loops return without the cap, and what the oracle in exact
arithmetic does. The targets of the loops are exact too. -/
theorem capping_transparent (data : Slice) (nonempty : data.len ≠ 0) (parts : Nat)
    (beyond : data.len < parts) (inUsize : parts ≤ usizeMax) :
    (∀ i < parts, partitionTarget data.len i parts = data.len * i / parts) ∧
    (∀ delimiter : UInt8, ∃ ranges, findPartitionBoundaries data parts delimiter = some ranges ∧
      uncappedBoundaries data parts delimiter = some ranges ∧
      scalarPartitionBoundariesPattern data.bytes parts [delimiter] = ranges) ∧
    ∀ delimiter : List UInt8, delimiter ≠ [] → ∃ ranges,
      findPartitionBoundariesPattern data parts delimiter = some ranges ∧
      uncappedBoundariesPattern data parts delimiter = some ranges ∧
      scalarPartitionBoundariesPattern data.bytes parts delimiter = ranges := by
  have lenPos := Nat.pos_of_ne_zero nonempty
  have pos : 1 ≤ parts := by omega
  have many : 1 < parts := by omega
  refine ⟨fun i lt => partitionTarget_eq data.len_le_usizeMax inUsize lt, fun delimiter => ?_,
    fun delimiter ne => ?_⟩
  · have ne : [delimiter] ≠ [] := List.cons_ne_nil _ _
    refine ⟨_, findPartitionBoundaries_eq data pos delimiter, ?_, ?_⟩
    · rw [partitionPlan_eq_uncapped ne lenPos beyond]
      exact planner_loop_eq fun i st lt => partitionStep_eq delimiter lenPos inUsize lt
    · rw [partitionPlan_eq_uncapped ne lenPos beyond]
      exact scalarPartitionBoundariesPattern_eq ne lenPos many
  · refine ⟨_, findPartitionBoundariesPattern_eq data pos ne, ?_, ?_⟩
    · rw [partitionPlan_eq_uncapped ne lenPos beyond]
      exact planner_loop_eq fun i st lt => partitionStepPattern_eq ne lenPos inUsize lt
    · rw [partitionPlan_eq_uncapped ne lenPos beyond]
      exact scalarPartitionBoundariesPattern_eq ne lenPos many

theorem capping_transparent_twoRecords :
    twoRecords.len ≠ 0 ∧ twoRecords.len < 9 ∧ 9 ≤ usizeMax ∧
      ∃ ranges, findPartitionBoundaries twoRecords 9 10 = some ranges ∧
        uncappedBoundaries twoRecords 9 10 = some ranges := by
  obtain ⟨_, byByte, _⟩ :=
    capping_transparent twoRecords (by decide) 9 (by decide) (by decide)
  obtain ⟨ranges, capped, uncapped, _⟩ := byByte 10
  exact ⟨by decide, by decide, by decide, ranges, capped, uncapped⟩

end Scanner
