import MmapChunker.Scanner.Search
import MmapChunker.Theory.TargetWalk

/-!
Record-aligned partitioning of one slice (`src/scanner.rs`).

`findPartitionBoundaries` and `findPartitionBoundariesPattern` are the two
absolute-target planners, with the exact-target check, the forward search, the
clamp to the end of the file and the early exit as the source has them.

Both are instances of one abstract planner: `findPartitionBoundariesPattern_eq`
and `findPartitionBoundaries_eq` say that they never panic and return
`partitionPlan`, the plan of the evenly spaced targets under the snap `snapEnd`.
Every property of the planners is proved of `partitionPlan`.
-/

namespace Scanner

open Machine Occurrence TargetWalk Tiling

/-! ### Source -/

/-- The ideal cut `((file_len as u128) * (i as u128) / (n as u128)) as usize`. -/
def partitionTarget (fileLen i n : Nat) : Nat := asUsize (mulU128 fileLen i / n)

/-- The loop of `ranges_from_boundaries`: the ranges pushed and the last boundary. -/
def rangesLoop : List Nat → List (Nat × Nat) → Nat → List (Nat × Nat) × Nat
  | [], partitions, prev => (partitions, prev)
  | boundary :: boundaries, partitions, prev =>
      rangesLoop boundaries
        (if prev < boundary then partitions ++ [(prev, boundary)] else partitions) boundary

/-- `ranges_from_boundaries`. -/
def rangesFromBoundaries (fileLen : Nat) (boundaries : List Nat) : List (Nat × Nat) :=
  let (partitions, prev) := rangesLoop boundaries [] 0
  if prev < fileLen then partitions ++ [(prev, fileLen)] else partitions

/-- One iteration of the loop of `find_partition_boundaries`. -/
def partitionStep (data : Slice) (n : Nat) (delimiter : UInt8) (i : Nat) (st : WalkState Nat) :
    Option (ForInStep (WalkState Nat)) := do
  let target := partitionTarget data.len i n
  if target ≤ st.lastBoundary then return .yield st
  if (← data.index (target - 1)) = delimiter then
    return .yield ⟨st.boundaries ++ [target], target⟩
  let remainder ← data.rangeFrom target
  match ← findByteSwar remainder delimiter with
  | some relPos =>
      let boundary := min (target + relPos + 1) data.len
      return .yield ⟨st.boundaries ++ [boundary], boundary⟩
  | none => return .done ⟨st.boundaries ++ [data.len], st.lastBoundary⟩

/-- `find_partition_boundaries`. -/
def findPartitionBoundaries (data : Slice) (numPartitions : Nat) (delimiter : UInt8) :
    Option (List (Nat × Nat)) := do
  let fileLen := data.len
  if fileLen = 0 ∨ numPartitions = 0 then return []
  if numPartitions = 1 then return [(0, fileLen)]
  let n := min numPartitions fileLen
  let st ← forIn (List.range' 1 (n - 1)) ⟨[], 0⟩ (partitionStep data n delimiter)
  return rangesFromBoundaries fileLen st.boundaries

/-- `target >= delimiter.len() && data[target - delimiter.len()..target] == delimiter[..]`. -/
def followsDelimiter (data : Slice) (delimiter : List UInt8) (target : Nat) : Option Bool := do
  if delimiter.length ≤ target then
    let before ← data.range (target - delimiter.length) target
    return before.bytes = delimiter
  else return false

/-- One iteration of the loop of `find_partition_boundaries_pattern`. -/
def partitionStepPattern (data : Slice) (n : Nat) (delimiter : List UInt8) (i : Nat)
    (st : WalkState Nat) : Option (ForInStep (WalkState Nat)) := do
  let target := partitionTarget data.len i n
  if target ≤ st.lastBoundary then return .yield st
  if ← followsDelimiter data delimiter target then
    return .yield ⟨st.boundaries ++ [target], target⟩
  let remainder ← data.rangeFrom target
  match ← findPatternInSlice remainder delimiter with
  | some relPos =>
      let boundary := min (saturatingAdd (saturatingAdd target relPos) delimiter.length) data.len
      return .yield ⟨st.boundaries ++ [boundary], boundary⟩
  | none => return .done ⟨st.boundaries ++ [data.len], st.lastBoundary⟩

/-- `find_partition_boundaries_pattern`; an empty delimiter fails its assertion. -/
def findPartitionBoundariesPattern (data : Slice) (numPartitions : Nat) (delimiter : List UInt8) :
    Option (List (Nat × Nat)) := do
  if delimiter = [] then failure
  if delimiter.length = 1 then
    return ← findPartitionBoundaries data numPartitions (← delimiter[0]?)
  let fileLen := data.len
  if fileLen = 0 ∨ numPartitions = 0 then return []
  if numPartitions = 1 then return [(0, fileLen)]
  let n := min numPartitions fileLen
  let st ← forIn (List.range' 1 (n - 1)) ⟨[], 0⟩ (partitionStepPattern data n delimiter)
  return rangesFromBoundaries fileLen st.boundaries

/-! ### The abstract plan -/

/-- What partitioning is for: the evenly spaced targets of at most one part per
byte, each moved forward to the least admissible record boundary. -/
def partitionPlan (xs : List UInt8) (parts : Nat) (delimiter : List UInt8) : List (Nat × Nat) :=
  plan (snapEnd delimiter xs) (evenTargets xs.length (min parts xs.length)) 0 xs.length

section Plan

variable {xs delimiter : List UInt8} {parts : Nat}

theorem le_length_of_mem_targets {t : Nat}
    (mem : t ∈ evenTargets xs.length (min parts xs.length)) : t ≤ xs.length := by
  by_cases pos : 0 < xs.length
  · exact (lt_of_mem_evenTargets pos mem).le
  · have empty : xs.length = 0 := by omega
    obtain ⟨i, _, _, rfl⟩ := mem_evenTargets.mp mem
    simp [empty]

theorem tiles_partitionPlan (ne : delimiter ≠ []) (xs : List UInt8) (parts : Nat) :
    Tiles 0 xs.length (partitionPlan xs parts delimiter) :=
  tiles_plan (Nat.zero_le _) (fun _ mem => le_snapEnd ne (le_length_of_mem_targets mem))
    fun t _ => snapEnd_le ne xs t

theorem length_partitionPlan_le (pos : 1 ≤ parts) (ne : xs ≠ []) :
    (partitionPlan xs parts delimiter).length ≤ min parts xs.length := by
  have bound := length_plan_le (snapEnd delimiter xs)
    (evenTargets xs.length (min parts xs.length)) 0 xs.length
  have := List.length_pos_of_ne_nil ne
  rw [length_evenTargets] at bound
  unfold partitionPlan
  omega

/-- A range that ends before the end of the file ends right after a delimiter. -/
theorem endsAt_of_mem_partitionPlan (ne : delimiter ≠ []) {s e : Nat}
    (mem : (s, e) ∈ partitionPlan xs parts delimiter) (interior : e < xs.length) :
    EndsAt delimiter xs e := by
  obtain ⟨t, _, _, rfl⟩ := exists_target_of_mem_plan
    (fun _ mem => le_snapEnd ne (le_length_of_mem_targets mem)) mem interior
  exact endsAt_snapEnd ne interior

end Plan

/-! ### The planners compute the plan -/

theorem rangesLoop_eq (fileLen : Nat) (bs : List Nat) (partitions : List (Nat × Nat)) (prev : Nat) :
    (if (rangesLoop bs partitions prev).2 < fileLen then
        (rangesLoop bs partitions prev).1 ++ [((rangesLoop bs partitions prev).2, fileLen)]
      else (rangesLoop bs partitions prev).1) = partitions ++ rangesBetween prev bs fileLen := by
  induction bs generalizing partitions prev with
  | nil =>
      change (if prev < fileLen then partitions ++ [(prev, fileLen)] else partitions) =
        partitions ++ (if prev < fileLen then [(prev, fileLen)] else [])
      split <;> simp
  | cons b bs ih =>
      rw [rangesLoop, ih, rangesBetween]
      split <;> simp

theorem rangesFromBoundaries_eq (fileLen : Nat) (boundaries : List Nat) :
    rangesFromBoundaries fileLen boundaries = rangesBetween 0 boundaries fileLen :=
  rangesLoop_eq fileLen boundaries [] 0

section Steps

variable {data : Slice} {n i : Nat} {st : WalkState Nat}

theorem partitionTarget_eq {fileLen : Nat} (small : fileLen ≤ usizeMax) (inUsize : n ≤ usizeMax)
    (lt : i < n) : partitionTarget fileLen i n = fileLen * i / n := by
  have inside : fileLen * i / n ≤ fileLen :=
    Nat.div_le_of_le_mul (by
      rw [Nat.mul_comm n]
      exact Nat.mul_le_mul_left _ lt.le)
  rw [partitionTarget, mulU128_eq small (by omega), asUsize_eq (inside.trans small)]

/-- The snap of a target that does not follow a delimiter, read off a search in
the rest of the slice. -/
theorem snapEnd?_of_search {delimiter : List UInt8} {target : Nat} (ne : delimiter ≠ [])
    (notEnds : ¬ EndsAt delimiter data.bytes target) :
    snapEnd? delimiter data.bytes target =
      (nextOcc delimiter (data.bytes.drop target) 0).map (target + · + delimiter.length) := by
  have shifted := nextOcc_drop ne data.bytes target 0
  rw [Nat.add_zero] at shifted
  rw [snapEnd?_of_not_endsAt notEnds, shifted, Option.map_map]
  rfl

/-- The clamp to the end of the file never cuts a found boundary. -/
theorem snapEnd?_le {delimiter : List UInt8} {target b : Nat} (ne : delimiter ≠ [])
    (found : snapEnd? delimiter data.bytes target = some b) : b ≤ data.len :=
  (snapEnd?_some ne found).1.le_length ne

theorem partitionStep_eq (delimiter : UInt8) (pos : 0 < data.len) (inUsize : n ≤ usizeMax)
    (lt : i < n) :
    partitionStep data n delimiter i st =
      some (walkStep (snapEnd? [delimiter] data.bytes) data.len (data.len * i / n) st) := by
  have ne : [delimiter] ≠ [] := List.cons_ne_nil _ _
  have inside : data.len * i / n < data.len := Nat.div_lt_of_lt_mul (by
    rw [Nat.mul_comm n]
    exact Nat.mul_lt_mul_of_pos_left lt pos)
  simp only [partitionStep, partitionTarget_eq data.len_le_usizeMax inUsize lt]
  generalize data.len * i / n = target at inside ⊢
  split
  · rename_i skip
    exact congrArg some (walkStep_skip skip).symm
  · rename_i notSkip
    have ahead := Nat.not_le.mp notSkip
    have here := data.index_eq (i := target - 1) (by omega)
    have exact_iff : EndsAt [delimiter] data.bytes target ↔
        data.index (target - 1) = some delimiter := by
      rw [EndsAt, List.length_singleton, occursAt_byte]
      exact and_iff_right (by omega)
    rw [here, Option.some.injEq] at exact_iff
    rw [here, Option.bind_eq_bind, Option.bind_some]
    split
    · rename_i hit
      exact congrArg some (walkStep_cut ahead (snapEnd?_of_endsAt (exact_iff.mpr hit))).symm
    · rename_i miss
      have search := snapEnd?_of_search ne fun ends => miss (exact_iff.mp ends)
      simp only [Slice.rangeFrom_eq inside.le, Option.bind_eq_bind, Option.bind_some,
        findByteSwar_eq, Slice.bytes_tail]
      cases found : nextOcc [delimiter] (data.bytes.drop target) 0 with
      | none =>
          rw [found] at search
          exact congrArg some (walkStep_eof ahead search).symm
      | some relPos =>
          rw [found] at search
          have clamp : min (target + relPos + 1) data.len = target + relPos + 1 :=
            Nat.min_eq_left (snapEnd?_le ne search)
          simp only [clamp]
          exact congrArg some (walkStep_cut ahead search).symm

theorem followsDelimiter_eq {delimiter : List UInt8} {target : Nat} (inside : target ≤ data.len) :
    followsDelimiter data delimiter target =
      some (decide (EndsAt delimiter data.bytes target)) := by
  unfold followsDelimiter EndsAt
  split
  · rename_i le
    have before : (data.window (target - delimiter.length) delimiter.length).bytes = delimiter ↔
        OccursAt delimiter data.bytes (target - delimiter.length) := occursAt_iff_take.symm
    rw [Slice.range_eq (Nat.sub_le _ _) inside, Nat.sub_sub_self le, Option.bind_eq_bind,
      Option.bind_some]
    simp only [before, le, true_and]
    rfl
  · rename_i short
    simp only [short, false_and, decide_false]
    rfl

theorem partitionStepPattern_eq {delimiter : List UInt8} (ne : delimiter ≠ [])
    (pos : 0 < data.len) (inUsize : n ≤ usizeMax) (lt : i < n) :
    partitionStepPattern data n delimiter i st =
      some (walkStep (snapEnd? delimiter data.bytes) data.len (data.len * i / n) st) := by
  have inside : data.len * i / n < data.len := Nat.div_lt_of_lt_mul (by
    rw [Nat.mul_comm n]
    exact Nat.mul_lt_mul_of_pos_left lt pos)
  simp only [partitionStepPattern, partitionTarget_eq data.len_le_usizeMax inUsize lt]
  generalize data.len * i / n = target at inside ⊢
  split
  · rename_i skip
    exact congrArg some (walkStep_skip skip).symm
  · rename_i notSkip
    have ahead := Nat.not_le.mp notSkip
    rw [followsDelimiter_eq inside.le, Option.bind_eq_bind, Option.bind_some]
    split
    · rename_i hit
      have ends := of_decide_eq_true hit
      exact congrArg some (walkStep_cut ahead (snapEnd?_of_endsAt ends)).symm
    · rename_i miss
      have search := snapEnd?_of_search ne fun ends => miss (decide_eq_true ends)
      simp only [Slice.rangeFrom_eq inside.le, Option.bind_eq_bind, Option.bind_some,
        findPatternInSlice_eq _ ne, Slice.bytes_tail]
      cases found : nextOcc delimiter (data.bytes.drop target) 0 with
      | none =>
          rw [found] at search
          exact congrArg some (walkStep_eof ahead search).symm
      | some relPos =>
          rw [found] at search
          have clamp : min (saturatingAdd (saturatingAdd target relPos) delimiter.length) data.len =
              target + relPos + delimiter.length := by
            rw [min_saturatingAdd_saturatingAdd data.len_le_usizeMax]
            exact Nat.min_eq_left (snapEnd?_le ne search)
          simp only [clamp]
          exact congrArg some (walkStep_cut ahead search).symm

/-- The ranges of the boundaries that the cutting loop pushes. -/
theorem rangesFromBoundaries_runSteps (xs delimiter : List UInt8) (n : Nat) :
    rangesFromBoundaries xs.length
        (Loop.runSteps (fun i => walkStep (snapEnd? delimiter xs) xs.length (xs.length * i / n))
          (List.range' 1 (n - 1)) ⟨[], 0⟩).boundaries =
      plan (snapEnd delimiter xs) (evenTargets xs.length n) 0 xs.length := by
  have inside : ∀ t ∈ evenTargets xs.length n, t ≤ xs.length := fun t mem => by
    obtain ⟨i, _, lt, rfl⟩ := mem_evenTargets.mp mem
    exact Nat.div_le_of_le_mul (by
      rw [Nat.mul_comm n]
      exact Nat.mul_le_mul_left _ lt.le)
  rw [Loop.runSteps_map (fun i => xs.length * i / n), rangesFromBoundaries_eq]
  have cuts := runSteps_walkStep (snapEnd? delimiter xs) inside ⟨[], 0⟩
  unfold evenTargets at cuts
  rw [cuts, List.nil_append]
  rfl

/-- The loop shared by the two planners, from its step. -/
theorem planner_loop_eq {delimiter : List UInt8}
    {step : Nat → WalkState Nat → Option (ForInStep (WalkState Nat))} (stepEq : ∀ i st, i < n →
      step i st = some (walkStep (snapEnd? delimiter data.bytes) data.len (data.len * i / n) st)) :
    (do
      let st ← forIn (List.range' 1 (n - 1)) ⟨[], 0⟩ step
      return rangesFromBoundaries data.len st.boundaries) =
      some (plan (snapEnd delimiter data.bytes) (evenTargets data.len n) 0 data.len) := by
  have indices : ∀ i ∈ List.range' 1 (n - 1), i < n := fun i mem => Loop.lt_of_mem_indices mem
  have loop : ∀ st, forIn (List.range' 1 (n - 1)) st step = some (Loop.runSteps _ _ st) := fun st =>
    Loop.forIn_eq_runSteps step
      (fun i => walkStep (snapEnd? delimiter data.bytes) data.len (data.len * i / n))
      (fun is _ => ∀ i ∈ is, i < n)
      (fun i is st inv => stepEq i st (inv i List.mem_cons_self))
      (fun i is st st' inv _ j mem => inv j (List.mem_cons_of_mem _ mem)) indices
  rw [loop, Option.bind_eq_bind, Option.bind_some]
  exact congrArg some (rangesFromBoundaries_runSteps data.bytes delimiter n)

end Steps

/-- One requested part is the whole file. -/
theorem partitionPlan_one (delimiter : List UInt8) {xs : List UInt8} (pos : 0 < xs.length) :
    partitionPlan xs 1 delimiter = [(0, xs.length)] := by
  have none : evenTargets xs.length (min 1 xs.length) = [] := by
    rw [Nat.min_eq_left pos]
    rfl
  rw [partitionPlan, none, plan, walk_nil, rangesBetween, if_pos pos]

theorem partitionPlan_empty (parts : Nat) (delimiter : List UInt8) {xs : List UInt8}
    (empty : xs.length = 0) : partitionPlan xs parts delimiter = [] := by
  have none : evenTargets xs.length (min parts xs.length) = [] := by
    rw [empty, Nat.min_zero]
    rfl
  rw [partitionPlan, none, plan, walk_nil, rangesBetween, empty]
  rfl

/-- `find_partition_boundaries` never panics and returns the plan of its targets. -/
theorem findPartitionBoundaries_eq (data : Slice) {parts : Nat} (pos : 1 ≤ parts)
    (delimiter : UInt8) :
    findPartitionBoundaries data parts delimiter =
      some (partitionPlan data.bytes parts [delimiter]) := by
  simp only [findPartitionBoundaries]
  split
  · rename_i empty
    rw [partitionPlan_empty parts _ (empty.resolve_right (by omega))]
    rfl
  · rename_i nonempty
    have lenPos : 0 < data.len := Nat.pos_of_ne_zero fun zero => nonempty (.inl zero)
    split
    · rename_i one
      rw [one, partitionPlan_one _ lenPos]
      rfl
    · have inUsize := (Nat.min_le_right parts data.len).trans data.len_le_usizeMax
      exact planner_loop_eq fun i st lt => partitionStep_eq delimiter lenPos inUsize lt

/-- `find_partition_boundaries_pattern` never panics on a non-empty delimiter and
returns the plan of its targets. -/
theorem findPartitionBoundariesPattern_eq (data : Slice) {parts : Nat} (pos : 1 ≤ parts)
    {delimiter : List UInt8} (ne : delimiter ≠ []) :
    findPartitionBoundariesPattern data parts delimiter =
      some (partitionPlan data.bytes parts delimiter) := by
  cases delimiter with
  | nil => exact absurd rfl ne
  | cons first rest =>
      simp only [findPartitionBoundariesPattern, if_neg ne]
      split
      · rename_i one
        have single : rest = [] := by simpa using one
        rw [single, List.getElem?_cons_zero, Option.bind_eq_bind, Option.bind_some,
          findPartitionBoundaries_eq data pos first]
      · split
        · rename_i empty
          rw [partitionPlan_empty parts _ (empty.resolve_right (by omega))]
          rfl
        · rename_i nonempty
          have lenPos : 0 < data.len := Nat.pos_of_ne_zero fun zero => nonempty (.inl zero)
          split
          · rename_i wholeFile
            rw [wholeFile, partitionPlan_one _ lenPos]
            rfl
          · have inUsize := (Nat.min_le_right parts data.len).trans data.len_le_usizeMax
            exact planner_loop_eq fun i st lt => partitionStepPattern_eq ne lenPos inUsize lt

theorem findPartitionBoundaries_zero (data : Slice) (delimiter : UInt8) :
    findPartitionBoundaries data 0 delimiter = some [] := by
  simp [findPartitionBoundaries]

theorem findPartitionBoundariesPattern_zero (data : Slice) {delimiter : List UInt8}
    (ne : delimiter ≠ []) : findPartitionBoundariesPattern data 0 delimiter = some [] := by
  cases delimiter with
  | nil => exact absurd rfl ne
  | cons first rest =>
      simp [findPartitionBoundariesPattern, findPartitionBoundaries_zero]

/-! ### The planner contract -/

/-- What a caller may rely on: coverage of the file by at most `min parts len`
contiguous non-empty ranges, every one but the last ending right after a complete
delimiter. -/
structure PartitionContract (data : Slice) (parts : Nat) (delimiter : List UInt8)
    (ranges : List (Nat × Nat)) : Prop where
  empty_of_empty : data.len = 0 → ranges = []
  ne_nil : data.len ≠ 0 → ranges ≠ []
  length_le : ranges.length ≤ min parts data.len
  nonempty : ∀ r ∈ ranges, r.1 < r.2
  starts_at_zero : ∀ r, ranges.head? = some r → r.1 = 0
  contiguous : ∀ i r r', ranges[i]? = some r → ranges[i + 1]? = some r' → r'.1 = r.2
  ends_at_len : ∀ r, ranges.getLast? = some r → r.2 = data.len
  aligned : ∀ i r r', ranges[i]? = some r → ranges[i + 1]? = some r' →
    delimiter.length ≤ r.2 ∧
      ∃ w, data.range (r.2 - delimiter.length) r.2 = some w ∧ w.bytes = delimiter

theorem partitionPlan_contract (data : Slice) {parts : Nat} (pos : 1 ≤ parts)
    {delimiter : List UInt8} (ne : delimiter ≠ []) :
    PartitionContract data parts delimiter (partitionPlan data.bytes parts delimiter) := by
  have tiles := tiles_partitionPlan ne data.bytes parts
  refine
    { empty_of_empty := fun empty => partitionPlan_empty parts delimiter empty
      ne_nil := fun nonempty nil => nonempty (tiles.eq_nil_iff.mp nil).symm
      length_le := ?_
      nonempty := fun r mem => (tiles.bounds mem).2.1
      starts_at_zero := fun r head => tiles.head_start head
      contiguous := fun i r r' this next => tiles.contiguous this next
      ends_at_len := fun r last => tiles.last_end last
      aligned := fun i r r' this next => ?_ }
  · by_cases empty : data.bytes = []
    · rw [partitionPlan_empty parts delimiter (by rw [empty]; rfl)]
      exact Nat.zero_le _
    · exact length_partitionPlan_le pos empty
  · have mem : (r.1, r.2) ∈ partitionPlan data.bytes parts delimiter := List.mem_of_getElem? this
    obtain ⟨le, occurs⟩ := endsAt_of_mem_partitionPlan ne mem (tiles.end_lt_of_next this next)
    have inside : r.2 ≤ data.len := (tiles.bounds mem).2.2
    refine ⟨le, _, Slice.range_eq (Nat.sub_le _ _) inside, ?_⟩
    rw [Nat.sub_sub_self le, Slice.bytes_window]
    exact occursAt_iff_take.mp occurs

/-- **Partitioning is total and well formed.** For every slice, every positive
count and every non-empty delimiter, neither planner panics, and what it returns
meets the contract. -/
theorem planners_meet_contract (data : Slice) (parts : Nat) (pos : 1 ≤ parts) :
    (∀ delimiter : UInt8, ∃ ranges, findPartitionBoundaries data parts delimiter = some ranges ∧
        PartitionContract data parts [delimiter] ranges) ∧
      ∀ delimiter : List UInt8, delimiter ≠ [] →
        ∃ ranges, findPartitionBoundariesPattern data parts delimiter = some ranges ∧
          PartitionContract data parts delimiter ranges :=
  ⟨fun delimiter => ⟨_, findPartitionBoundaries_eq data pos delimiter,
      partitionPlan_contract data pos (List.cons_ne_nil delimiter [])⟩,
    fun _ ne =>
      ⟨_, findPartitionBoundariesPattern_eq data pos ne, partitionPlan_contract data pos ne⟩⟩

/-- Two two-byte records, at an odd address. -/
def twoRecords : Slice := ⟨3, [97, 10, 98, 10], by decide⟩

theorem planners_meet_contract_twoRecords :
    1 ≤ 2 ∧ PartitionContract twoRecords 2 [10] [(0, 2), (2, 4)] := by
  have run : findPartitionBoundaries twoRecords 2 10 = some [(0, 2), (2, 4)] := by decide +kernel
  obtain ⟨ranges, eq, contract⟩ := (planners_meet_contract twoRecords 2 (by decide)).1 10
  rw [run, Option.some.injEq] at eq
  exact ⟨by decide, eq ▸ contract⟩

end Scanner
