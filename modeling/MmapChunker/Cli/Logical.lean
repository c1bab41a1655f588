import MmapChunker.Theory.Exec
import MmapChunker.Theory.Machine
import MmapChunker.Theory.Segments
import MmapChunker.Theory.TargetWalk

/-!
Planning over an ordered list of files (`src/bin/mmap-chunker.rs`).

`plan_logical_partitions` and `plan_logical_partitions_sourced` are one algorithm
over two ways to find a record boundary. What they share is here once, with the
boundary search as the parameter `project`: prefix sums in `u128`, the target loop,
and the split of every worker's interval at the file boundaries.

`planTargets_simulates` is the result both planners use. If `project` agrees with an
abstract snap that may fail, the planner returns `logicalPlan` of that snap: the
same error, or the same assignments.
-/

namespace Cli

open Machine TargetWalk Tiling Segments Exec

/-! ### Source -/

/-- `SourceRange`. -/
structure SourceRange where
  sourceIndex : Nat
  start : Nat
  endExclusive : Nat
  length : Nat
  deriving Repr, DecidableEq

/-- `WorkerAssignment`. -/
structure WorkerAssignment where
  workerIndex : Nat
  ranges : List SourceRange
  deriving Repr, DecidableEq

section Source

variable {σ τ : Type}

/-- `a.checked_add(b)` on `u128`. -/
def checkedAddU128 (a b : Nat) : Option Nat := if a + b < 2 ^ 128 then some (a + b) else none

/-- `a.checked_mul(b)` on `u128`. -/
def checkedMulU128 (a b : Nat) : Option Nat := if a * b < 2 ^ 128 then some (a * b) else none

/-- `usize::try_from(x)` for a `u128`. -/
def usizeTryFrom (x : Nat) : Option Nat := if x ≤ usizeMax then some x else none

/-- `usize_to_u128`. -/
def usizeToU128 (value : Nat) : Exec σ String Nat :=
  okOr (if value ≤ usizeMax then some value else none)
    "usize value does not fit in the logical offset type"

/-- One iteration of the prefix loop, for a source of length `len`. -/
def pushPrefix (len : Nat) (prefixes : List Nat) : Exec σ String (ForInStep (List Nat)) := do
  let previous ← okOr prefixes.getLast? "internal error: missing logical prefix"
  let next ← okOr (checkedAddU128 previous len) "logical dataset is too large"
  return .yield (prefixes ++ [next])

/-- The source a target lies in and where that source starts, the common head of
`project_logical_target` and `project_sourced_target`. -/
def locateSource (target : Nat) (prefixes : List Nat) : Exec σ String (Nat × Nat) := do
  let upper := (prefixes.takeWhile (· ≤ target)).length
  let sourceIndex ← okOr (subU64 upper 1) "internal error: target before first source"
  let sourceStart ← orPanic prefixes[sourceIndex]?
  return (sourceIndex, sourceStart)

/-- `usize::try_from(target - source_start)`. -/
def localTarget (target sourceStart : Nat) : Exec σ String Nat := do
  okOr (usizeTryFrom (← orPanic (subU64 target sourceStart)))
    "logical target does not fit source offset"

/-- One iteration of the loop of `ranges_for_interval`. -/
def intervalStep (start stop : Nat) (prefixes : List Nat) (sourceIndex : Nat)
    (ranges : List SourceRange) : Exec σ String (ForInStep (List SourceRange)) := do
  let sourceStart ← orPanic prefixes[sourceIndex]?
  let sourceEnd ← orPanic prefixes[sourceIndex + 1]?
  let rangeStart := max start sourceStart
  let rangeEnd := min stop sourceEnd
  if rangeStart ≥ rangeEnd then return .yield ranges
  let localStart ← okOr (usizeTryFrom (rangeStart - sourceStart))
    "source range start does not fit usize"
  let localEnd ← okOr (usizeTryFrom (rangeEnd - sourceStart)) "source range end does not fit usize"
  let length ← okOr (subU64 localEnd localStart) "source range length underflow"
  return .yield (ranges ++ [⟨sourceIndex, localStart, localEnd, length⟩])

/-- `ranges_for_interval`. -/
def rangesForInterval (start stop : Nat) (prefixes : List Nat) (sourceCount : Nat) :
    Exec σ String (List SourceRange) := do
  if start ≥ stop then return []
  forIn (List.range sourceCount) [] (intervalStep start stop prefixes)

/-- One iteration of the loop over `cut_points` and `total` that builds the
assignments; the state is `assignments` and `start`. -/
def assignStep (prefixes : List Nat) (sourceCount : Nat) (stop : Nat)
    (st : List WorkerAssignment × Nat) :
    Exec σ String (ForInStep (List WorkerAssignment × Nat)) := do
  let ranges ← rangesForInterval st.2 stop prefixes sourceCount
  if ranges = [] then return .yield (st.1, stop)
  return .yield (st.1 ++ [⟨st.1.length, ranges⟩], stop)

/-- The body of the target loop from the comparison with `last_cut` on. The state is
`cut_points` and `last_cut`, with the state of the boundary search. -/
def cutStep (project : Nat → τ → Exec σ String (Nat × τ)) (total target : Nat)
    (st : WalkState Nat × τ) : Exec σ String (ForInStep (WalkState Nat × τ)) := do
  if target ≤ st.1.lastBoundary then return .yield st
  let (projected, search) ← project target st.2
  if projected ≤ st.1.lastBoundary then return .yield (st.1, search)
  if projected = total then return .done (st.1, search)
  return .yield (⟨st.1.boundaries ++ [projected], projected⟩, search)

/-- One iteration of the target loop. -/
def planStep (project : Nat → τ → Exec σ String (Nat × τ)) (total effectiveParts : Nat)
    (partition : Nat) (st : WalkState Nat × τ) :
    Exec σ String (ForInStep (WalkState Nat × τ)) := do
  let product ← okOr (checkedMulU128 total (← usizeToU128 partition))
    "logical target arithmetic overflow"
  let target := product / (← usizeToU128 effectiveParts)
  cutStep project total target st

/-- `requested_parts.min(usize::try_from(total).unwrap_or(usize::MAX))`. -/
def effectiveParts (requestedParts total : Nat) : Nat :=
  min requestedParts ((usizeTryFrom total).getD usizeMax)

/-- The planners from the prefix sums on. -/
def planTargets (project : Nat → τ → Exec σ String (Nat × τ)) (search : τ) (prefixes : List Nat)
    (sourceCount requestedParts : Nat) : Exec σ String (List WorkerAssignment) := do
  let total ← okOr prefixes.getLast? "internal error: missing logical length"
  if total = 0 then return []
  let parts := effectiveParts requestedParts total
  let (walked, _) ← forIn (List.range' 1 (parts - 1)) (⟨[], 0⟩, search)
    (planStep project total parts)
  let (assignments, _) ← forIn (walked.boundaries ++ [total]) ([], 0)
    (assignStep prefixes sourceCount)
  return assignments

end Source

/-! ### The abstract plan -/

/-- A piece of an interval as an output row. -/
def toSourceRange (piece : Nat × Nat × Nat) : SourceRange :=
  ⟨piece.1, piece.2.1, piece.2.2, piece.2.2 - piece.2.1⟩

/-- The worker of the interval with index `i`. -/
def toWorker (lens : List Nat) (i : Nat) (interval : Nat × Nat) : WorkerAssignment :=
  ⟨i, (pieces lens interval).map toSourceRange⟩

/-- One worker for each interval between the cuts. -/
def assignmentsOf (lens : List Nat) (intervals : List (Nat × Nat)) : List WorkerAssignment :=
  intervals.mapIdx (toWorker lens)

/-- The target of a partition, unless the product leaves 128 bits. -/
def logicalTarget (total parts i : Nat) : Except String Nat :=
  if total * i < 2 ^ 128 then .ok (total * i / parts)
  else .error "logical target arithmetic overflow"

/-- The cuts of a dataset of `total` bytes under a snap that may fail. -/
def logicalCuts (total parts : Nat) (snap : Nat → Except String Nat) :
    Except String (WalkState Nat) :=
  forIn (List.range' 1 (effectiveParts parts total - 1)) ⟨[], 0⟩
    (breakStep (logicalTarget total (effectiveParts parts total)) snap total)

/-- The plan for files of the lengths `lens`. -/
def logicalPlan (lens : List Nat) (parts : Nat) (snap : Nat → Except String Nat) :
    Except String (List WorkerAssignment) :=
  if lens.sum = 0 then .ok []
  else (logicalCuts lens.sum parts snap).map fun cuts =>
    assignmentsOf lens (rangesBetween 0 cuts.boundaries lens.sum)

/-- What planning over files is for: the plan, unless no parts were requested or the
lengths add up to more than a `u128` holds. -/
def logicalResult (lens : List Nat) (parts : Nat) (snap : Nat → Except String Nat) :
    Except String (List WorkerAssignment) :=
  if parts = 0 then .ok []
  else if lens.sum < 2 ^ 128 then logicalPlan lens parts snap
  else .error "logical dataset is too large"

/-! ### The shared loops compute it -/

section Assembly

variable {σ : Type} {lens : List Nat}

theorem usizeToU128_eq {value : Nat} (small : value ≤ usizeMax) :
    (usizeToU128 value : Exec σ String Nat) = pure value := by
  rw [usizeToU128, if_pos small]
  rfl

theorem usizeTryFrom_eq {x : Nat} (small : x ≤ usizeMax) : usizeTryFrom x = some x := if_pos small

theorem pushPrefix_eq (lens : List Nat) (len : Nat) :
    (pushPrefix len (prefixSums lens) : Exec σ String _) =
      if lens.sum + len < 2 ^ 128 then pure (.yield (prefixSums (lens ++ [len])))
      else throw "logical dataset is too large" := by
  rw [pushPrefix, getLast?_prefixSums, okOr_some, pure_bind, checkedAddU128]
  split
  · rw [okOr_some, pure_bind, prefixSums_append]
  · rw [okOr_none, throw_bind]

/-- A loop that pushes the length of each element computes the prefix sums. -/
theorem forIn_pushPrefix {α : Type} {len : α → Nat} {xs : List α}
    {body : α → List Nat → Exec σ String (ForInStep (List Nat))}
    (pushes : ∀ x ∈ xs, ∀ prefixes, body x prefixes = pushPrefix (len x) prefixes) :
    forIn xs [0] body =
      if (xs.map len).sum < 2 ^ 128 then pure (prefixSums (xs.map len))
      else throw "logical dataset is too large" := by
  have loop : ∀ before : List Nat, before.sum < 2 ^ 128 →
      forIn xs (prefixSums before) body =
        if (before ++ xs.map len).sum < 2 ^ 128 then pure (prefixSums (before ++ xs.map len))
        else throw "logical dataset is too large" := by
    induction xs with
    | nil =>
        intro before fits
        rw [List.map_nil, List.append_nil, if_pos fits]
        rfl
    | cons x xs ih =>
        intro before fits
        rw [List.forIn_cons, pushes x List.mem_cons_self, pushPrefix_eq, List.map_cons,
          List.append_cons before (len x) (xs.map len)]
        by_cases fitsToo : before.sum + len x < 2 ^ 128
        · rw [if_pos fitsToo, pure_bind]
          exact ih (fun y mem => pushes y (List.mem_cons_of_mem x mem)) _ (by simpa using fitsToo)
        · rw [if_neg fitsToo, throw_bind, if_neg]
          simp only [List.sum_append, List.sum_singleton]
          omega
  exact loop [] (by decide)

theorem locateSource_eq {k t : Nat} (inside : Inside lens k t) :
    (locateSource t (prefixSums lens) : Exec σ String _) = pure (k, offset lens k) := by
  rw [locateSource, length_takeWhile_prefixSums inside, subU64_eq (b := 1) (Nat.le_add_left 1 k),
    okOr_some, pure_bind, Nat.add_sub_cancel, getElem?_prefixSums inside.lt_length.le, orPanic_some,
    pure_bind]

theorem localTarget_eq (small : ∀ len ∈ lens, len ≤ usizeMax) {k t : Nat}
    (inside : Inside lens k t) :
    (localTarget t (offset lens k) : Exec σ String _) = pure (t - offset lens k) := by
  have lt := inside.lt_len inside.lt_length
  have smallLen := small _ (List.getElem_mem inside.lt_length)
  rw [localTarget, subU64_eq inside.1.le, orPanic_some, pure_bind,
    usizeTryFrom_eq (by omega), okOr_some]

/-- The length of a source, from the offsets around it. -/
theorem subU64_offset {k : Nat} (lt : k < lens.length) :
    subU64 (offset lens (k + 1)) (offset lens k) = some lens[k] := by
  rw [offset_succ lt, subU64_eq (Nat.le_add_right _ _), Nat.add_sub_cancel_left]

theorem intervalStep_eq (small : ∀ len ∈ lens, len ≤ usizeMax) {start stop k : Nat}
    (lt : k < lens.length) (ranges : List SourceRange) :
    (intervalStep start stop (prefixSums lens) k ranges : Exec σ String _) =
      pure (.yield (ranges ++
        ((localClip lens k (start, stop)).map fun p => toSourceRange (k, p)).toList)) := by
  have succ := offset_succ lt
  have smallLen := small lens[k] (List.getElem_mem lt)
  simp only [intervalStep, getElem?_prefixSums lt.le, getElem?_prefixSums (Nat.succ_le_of_lt lt),
    orPanic_some, pure_bind]
  by_cases nonempty : max start (offset lens k) < min stop (offset lens (k + 1))
  · have found := localClip_eq_some (r := (start, stop)).mpr ⟨nonempty, rfl⟩
    have startFits := usizeTryFrom_eq (x := max start (offset lens k) - offset lens k) (by omega)
    have endFits :=
      usizeTryFrom_eq (x := min stop (offset lens (k + 1)) - offset lens k) (by omega)
    have length := subU64_eq (a := min stop (offset lens (k + 1)) - offset lens k)
      (b := max start (offset lens k) - offset lens k) (by omega)
    rw [if_neg (Nat.not_le.mpr nonempty), startFits, endFits, okOr_some, pure_bind, okOr_some,
      pure_bind, length, okOr_some, pure_bind, found]
    rfl
  · have missing : localClip lens k (start, stop) = none := by
      unfold localClip clip
      rw [if_neg nonempty]
      rfl
    rw [if_pos (Nat.not_lt.mp nonempty), missing]
    simp

theorem rangesForInterval_eq (small : ∀ len ∈ lens, len ≤ usizeMax) (start stop : Nat) :
    (rangesForInterval start stop (prefixSums lens) lens.length : Exec σ String _) =
      pure ((pieces lens (start, stop)).map toSourceRange) := by
  have loop : ∀ (ks : List Nat) (ranges : List SourceRange), (∀ k ∈ ks, k < lens.length) →
      (forIn ks ranges (intervalStep start stop (prefixSums lens)) : Exec σ String _) =
        pure (ranges ++
          (ks.filterMap fun k =>
            (localClip lens k (start, stop)).map (k, ·)).map toSourceRange) := by
    intro ks
    induction ks with
    | nil => intro ranges _; simp
    | cons k ks ih =>
        intro ranges inside
        rw [List.forIn_cons, intervalStep_eq small (inside k List.mem_cons_self), pure_bind]
        refine (ih _ fun k' mem => inside k' (List.mem_cons_of_mem _ mem)).trans ?_
        rw [List.filterMap_cons]
        cases localClip lens k (start, stop) <;> simp
  rw [rangesForInterval]
  split
  · rename_i empty
    rw [pieces_eq_nil (r := (start, stop)) (Nat.not_lt.mpr empty)]
    rfl
  · exact loop _ [] fun k mem => List.mem_range.mp mem

/-- The loop over the cuts gives one worker to each non-empty interval. -/
theorem assign_eq (small : ∀ len ∈ lens, len ≤ usizeMax) {cuts : List Nat}
    (bounded : ∀ c ∈ cuts, c ≤ lens.sum) :
    (do
      let (assignments, _) ← forIn (cuts ++ [lens.sum]) ([], 0)
        (assignStep (prefixSums lens) lens.length)
      return assignments : Exec σ String _) =
      pure (assignmentsOf lens (rangesBetween 0 cuts lens.sum)) := by
  have stepEq : ∀ (assignments : List WorkerAssignment) (start stop : Nat), stop ≤ lens.sum →
      (assignStep (prefixSums lens) lens.length stop (assignments, start) : Exec σ String _) =
        pure (.yield (assignments ++ (if start < stop then
          [toWorker lens assignments.length (start, stop)] else []), stop)) := by
    intro assignments start stop le
    rw [assignStep, rangesForInterval_eq small, pure_bind]
    by_cases lt : start < stop
    · have ne := pieces_ne_nil (r := (start, stop)) lt le
      rw [if_neg (by simpa using ne), if_pos lt]
      rfl
    · rw [pieces_eq_nil (r := (start, stop)) lt, if_neg lt, List.append_nil]
      rfl
  have loop : ∀ (cuts : List Nat) (assignments : List WorkerAssignment) (start : Nat),
      (∀ c ∈ cuts, c ≤ lens.sum) →
      (forIn (cuts ++ [lens.sum]) (assignments, start)
          (assignStep (prefixSums lens) lens.length) : Exec σ String _) =
        pure (assignments ++ (rangesBetween start cuts lens.sum).mapIdx
          (fun i => toWorker lens (assignments.length + i)), lens.sum) := by
    intro cuts
    induction cuts with
    | nil =>
        intro assignments start _
        rw [List.nil_append, List.forIn_cons, stepEq assignments start _ le_rfl, pure_bind]
        simp only [List.forIn_nil, rangesBetween]
        split <;> simp
    | cons c cuts ih =>
        intro assignments start bounded
        rw [List.cons_append, List.forIn_cons,
          stepEq assignments start c (bounded c List.mem_cons_self), pure_bind]
        refine (ih _ _ fun c' mem => bounded c' (List.mem_cons_of_mem _ mem)).trans ?_
        rw [rangesBetween]
        split
        · simp [List.mapIdx_cons, Nat.add_assoc, Nat.add_comm 1]
        · simp
  rw [loop cuts [] 0 bounded, pure_bind]
  simp [assignmentsOf]

end Assembly

section Simulation

variable {σ τ : Type} {lens : List Nat} {parts : Nat}

theorem effectiveParts_le (parts total : Nat) : effectiveParts parts total ≤ usizeMax := by
  have capped : (usizeTryFrom total).getD usizeMax ≤ usizeMax := by
    unfold usizeTryFrom
    split
    · assumption
    · exact le_rfl
  exact (Nat.min_le_right _ _).trans capped

theorem logicalTarget_eq {total n i t : Nat} (here : logicalTarget total n i = .ok t) :
    t = total * i / n := by
  unfold logicalTarget at here
  split at here
  · cases here
    rfl
  · cases here

/-- The target of partition `i`, for a total of at least one byte. -/
theorem logicalTarget_lt {total n i t : Nat} (pos : 0 < total) (lt : i < n)
    (here : logicalTarget total n i = .ok t) : t < total := by
  rw [logicalTarget_eq here]
  apply Nat.div_lt_of_lt_mul
  rw [Nat.mul_comm n total]
  exact Nat.mul_lt_mul_of_pos_left lt pos

/-- The arithmetic of one iteration. -/
theorem planStep_eq {project : Nat → τ → Exec σ String (Nat × τ)} {total n i : Nat}
    (smallI : i ≤ usizeMax) (smallN : n ≤ usizeMax) (st : WalkState Nat × τ) :
    planStep project total n i st =
      match logicalTarget total n i with
      | .ok t => cutStep project total t st
      | .error e => throw e := by
  simp only [planStep, usizeToU128_eq smallI, usizeToU128_eq smallN, pure_bind, logicalTarget,
    checkedMulU128]
  split
  · rw [okOr_some, pure_bind]
  · rw [okOr_none, throw_bind]

/-- One iteration agrees with the abstract step. The invariant relates the last cut
to the state of the boundary search. -/
theorem planStep_simulates {project : Nat → τ → Exec σ String (Nat × τ)}
    {snap : Nat → Except String Nat} {total n i : Nat} {inv : Nat → τ → σ → Prop}
    (forward : ∀ t c, t < total → snap t = .ok c → t ≤ c ∧ c ≤ total)
    (simulates : ∀ t last search s, inv last search s → last < t → t < total →
      Ensures (project t search) s fun r s' =>
        Agree (fun c p => p.1 = c ∧ inv c p.2 s') (snap t) r)
    (pos : 0 < total) (lt : i < n) (small : n ≤ usizeMax) {st : WalkState Nat} {search : τ} {s : σ}
    (holds : inv st.lastBoundary search s) (bounded : ∀ b ∈ st.boundaries, b ≤ total) :
    Ensures (planStep project total n i (st, search)) s fun r s' =>
      Agree (StepAgree
          (fun st' b => b.1 = st' ∧ (∀ b ∈ st'.boundaries, b ≤ total) ∧
            inv st'.lastBoundary b.2 s')
          (fun st' b => b.1 = st' ∧ ∀ b ∈ st'.boundaries, b ≤ total))
        (breakStep (logicalTarget total n) snap total i st) r := by
  rw [planStep_eq (by omega) small]
  cases here : logicalTarget total n i with
  | error e =>
      rw [breakStep_no_target here]
      exact Ensures.throw rfl
  | ok t =>
      have inside := logicalTarget_lt pos lt here
      dsimp only [cutStep]
      by_cases skip : t ≤ st.lastBoundary
      · rw [breakStep_skip here skip, if_pos skip]
        exact Ensures.pure ⟨rfl, bounded, holds⟩
      · have ahead := Nat.not_le.mp skip
        rw [if_neg skip]
        have once := simulates t _ search s holds ahead inside
        cases found : snap t with
        | error e =>
            rw [breakStep_no_snap here ahead found]
            rw [found] at once
            exact once.bind (fun _ _ agree => agree.elim) fun _ _ agree => agree
        | ok c =>
            obtain ⟨le, le'⟩ := forward t c inside found
            rw [breakStep_snap here ahead found le]
            rw [found] at once
            refine once.bind (fun p s' agree => ?_) fun _ _ agree => agree.elim
            obtain ⟨projected, search'⟩ := p
            obtain ⟨rfl, holds'⟩ := agree
            dsimp only
            rw [if_neg (Nat.not_le.mpr (ahead.trans_le le))]
            split
            · exact Ensures.pure ⟨rfl, bounded⟩
            · refine Ensures.pure ⟨rfl, fun b mem => ?_, holds'⟩
              rcases List.mem_append.mp mem with mem | mem
              · exact bounded b mem
              · rwa [List.mem_singleton.mp mem]

theorem pos_of_lt_effectiveParts {total i : Nat} (lt : i < effectiveParts parts total) :
    0 < total := by
  rcases Nat.eq_zero_or_pos total with rfl | pos
  · have capped : effectiveParts parts 0 ≤ 0 := Nat.min_le_right _ _
    omega
  · exact pos

/-- The target loop agrees with the abstract cuts. -/
theorem targetLoop_simulates {project : Nat → τ → Exec σ String (Nat × τ)}
    {snap : Nat → Except String Nat} (inv : Nat → τ → σ → Prop)
    (forward : ∀ t c, t < lens.sum → snap t = .ok c → t ≤ c ∧ c ≤ lens.sum)
    (simulates : ∀ t last search s, inv last search s → last < t → t < lens.sum →
      Ensures (project t search) s fun r s' =>
        Agree (fun c p => p.1 = c ∧ inv c p.2 s') (snap t) r)
    {search : τ} {s : σ} (start : inv 0 search s) (parts : Nat) :
    Ensures (forIn (List.range' 1 (effectiveParts parts lens.sum - 1)) (⟨[], 0⟩, search)
      (planStep project lens.sum (effectiveParts parts lens.sum))) s fun r _ =>
        Agree (fun st b => b.1 = st ∧ ∀ c ∈ st.boundaries, c ≤ lens.sum)
          (logicalCuts lens.sum parts snap) r := by
  have indices : ∀ i ∈ List.range' 1 (effectiveParts parts lens.sum - 1),
      i < effectiveParts parts lens.sum := fun i mem => Loop.lt_of_mem_indices mem
  refine forIn_simulates _ _
    (fun is (st : WalkState Nat) (b : WalkState Nat × τ) s =>
      b.1 = st ∧ (∀ c ∈ st.boundaries, c ≤ lens.sum) ∧ inv st.lastBoundary b.2 s ∧
        ∀ i ∈ is, i < effectiveParts parts lens.sum)
    (fun st b _ => b.1 = st ∧ ∀ c ∈ st.boundaries, c ≤ lens.sum)
    (fun _ _ _ h => ⟨h.1, h.2.1⟩) ?_ ⟨rfl, by simp, start, indices⟩
  rintro i is st ⟨_, search⟩ s ⟨rfl, bounded, holds, inside⟩
  have index := inside i List.mem_cons_self
  refine (planStep_simulates forward simulates (pos_of_lt_effectiveParts index) index
    (effectiveParts_le _ _) holds bounded).mono ?_
  intro r s' agree
  refine agree.mono fun _ _ step => step.mono ?_ fun _ _ h => h
  exact fun _ _ h => ⟨h.1, h.2.1, h.2.2, fun j mem => inside j (List.mem_cons_of_mem _ mem)⟩

/-- **The shared planner computes the abstract plan** of every snap its boundary
search agrees with. -/
theorem planTargets_simulates {project : Nat → τ → Exec σ String (Nat × τ)}
    {snap : Nat → Except String Nat} (inv : Nat → τ → σ → Prop)
    (small : ∀ len ∈ lens, len ≤ usizeMax)
    (forward : ∀ t c, t < lens.sum → snap t = .ok c → t ≤ c ∧ c ≤ lens.sum)
    (simulates : ∀ t last search s, inv last search s → last < t → t < lens.sum →
      Ensures (project t search) s fun r s' =>
        Agree (fun c p => p.1 = c ∧ inv c p.2 s') (snap t) r)
    {search : τ} {s : σ} (start : inv 0 search s) :
    Ensures (planTargets project search (prefixSums lens) lens.length parts) s fun r _ =>
      r = logicalPlan lens parts snap := by
  unfold planTargets logicalPlan
  rw [getLast?_prefixSums, okOr_some, pure_bind]
  by_cases empty : lens.sum = 0
  · rw [if_pos empty, if_pos empty]
    exact Ensures.pure rfl
  · rw [if_neg empty, if_neg empty]
    have loop := targetLoop_simulates inv forward simulates start parts
    generalize logicalCuts lens.sum parts snap = cuts at loop ⊢
    refine loop.bind (fun b s' agree => ?_) fun e s' agree => ?_
    · cases cuts with
      | error => exact agree.elim
      | ok st =>
          obtain ⟨walked, search'⟩ := b
          obtain ⟨rfl, bounded⟩ := agree
          exact (congrArg (Ensures · s' _) (assign_eq small bounded)).mpr (Ensures.pure rfl)
    · cases cuts with
      | error e' => exact congrArg Except.error agree.symm
      | ok => exact agree.elim

/-- An iteration that goes on keeps the invariant. -/
theorem planStep_keeps {project : Nat → τ → Exec σ String (Nat × τ)}
    {snap : Nat → Except String Nat} {total n i : Nat} {inv : Nat → τ → σ → Prop}
    (forward : ∀ t c, t < total → snap t = .ok c → t ≤ c ∧ c ≤ total)
    (simulates : ∀ t last search s, inv last search s → last < t → t < total →
      Ensures (project t search) s fun r s' =>
        Agree (fun c p => p.1 = c ∧ inv c p.2 s') (snap t) r)
    (pos : 0 < total) (lt : i < n) (small : n ≤ usizeMax) {st : WalkState Nat} {search : τ} {s : σ}
    (holds : inv st.lastBoundary search s) (bounded : ∀ b ∈ st.boundaries, b ≤ total) :
    Ensures (planStep project total n i (st, search)) s fun r s' =>
      ∀ b, r = .ok (.yield b) →
        inv b.1.lastBoundary b.2 s' ∧ ∀ c ∈ b.1.boundaries, c ≤ total := by
  refine (planStep_simulates forward simulates pos lt small holds bounded).mono ?_
  rintro r s' agree b rfl
  obtain ⟨st', -, rfl, bounded', holds'⟩ := agree.of_yield
  exact ⟨holds', bounded'⟩

/-- Wherever the target loop comes to, the invariant holds of the last cut. -/
theorem planTargets_arrives {project : Nat → τ → Exec σ String (Nat × τ)}
    {snap : Nat → Except String Nat} (inv : Nat → τ → σ → Prop)
    (forward : ∀ t c, t < lens.sum → snap t = .ok c → t ≤ c ∧ c ≤ lens.sum)
    (simulates : ∀ t last search s, inv last search s → last < t → t < lens.sum →
      Ensures (project t search) s fun r s' =>
        Agree (fun c p => p.1 = c ∧ inv c p.2 s') (snap t) r)
    {search search' : τ} {s s' : σ} (start : inv 0 search s) {i : Nat} {walked : WalkState Nat}
    (arrives : Arrives (planStep project lens.sum (effectiveParts parts lens.sum))
      (List.range' 1 (effectiveParts parts lens.sum - 1)) (⟨[], 0⟩, search) s i
      (walked, search') s') :
    i < effectiveParts parts lens.sum ∧ inv walked.lastBoundary search' s' := by
  have indices : ∀ j ∈ List.range' 1 (effectiveParts parts lens.sum - 1),
      j < effectiveParts parts lens.sum := fun j mem => Loop.lt_of_mem_indices mem
  obtain ⟨rest, ⟨holds, -⟩, inside⟩ := arrives.invariant
    (fun is b s => (inv b.1.lastBoundary b.2 s ∧ ∀ c ∈ b.1.boundaries, c ≤ lens.sum) ∧
      ∀ j ∈ is, j < effectiveParts parts lens.sum)
    (fun i is b s h => by
      obtain ⟨⟨holds, bounded⟩, inside⟩ := h
      have index := inside i List.mem_cons_self
      refine (planStep_keeps forward simulates (pos_of_lt_effectiveParts index) index
        (effectiveParts_le _ _) holds bounded).mono fun r s' kept b' went => ?_
      exact ⟨kept b' went, fun j mem => inside j (List.mem_cons_of_mem i mem)⟩)
    ⟨⟨start, by simp⟩, indices⟩
  exact ⟨inside i List.mem_cons_self, holds⟩

end Simulation

/-! ### The plan of a snap that never fails -/

section Total

variable {lens : List Nat} {parts : Nat} {f : Nat → Nat}

theorem effectiveParts_eq {total : Nat} (small : total ≤ usizeMax) :
    effectiveParts parts total = min parts total := by
  rw [effectiveParts, usizeTryFrom_eq small, Option.getD_some]

/-- The plan is that of the exact targets, when no product for one leaves 128 bits. -/
theorem logicalPlan_eq_of_products {snap : Nat → Except String Nat}
    (products : ∀ i < effectiveParts parts lens.sum, lens.sum * i < 2 ^ 128)
    (total : ∀ t, t < lens.sum → snap t = .ok (f t))
    (forward : ∀ t, t < lens.sum → t ≤ f t ∧ f t ≤ lens.sum) :
    logicalPlan lens parts snap = .ok (assignmentsOf lens
      (plan f (evenTargets lens.sum (effectiveParts parts lens.sum)) 0 lens.sum)) := by
  by_cases empty : lens.sum = 0
  · have none : plan f (evenTargets lens.sum (effectiveParts parts lens.sum)) 0 lens.sum = [] := by
      have behind : ∀ t ∈ evenTargets lens.sum (effectiveParts parts lens.sum), t ≤ 0 := by
        intro t mem
        obtain ⟨i, _, _, rfl⟩ := mem_evenTargets.mp mem
        simp [empty]
      rw [plan, walk_eq_nil behind, rangesBetween, if_neg (by omega)]
    rw [logicalPlan, if_pos empty, none]
    rfl
  · have pos := Nat.pos_of_ne_zero empty
    have indices : ∀ i ∈ List.range' 1 (effectiveParts parts lens.sum - 1),
        i < effectiveParts parts lens.sum := fun i mem => Loop.lt_of_mem_indices mem
    have inside : ∀ i ∈ List.range' 1 (effectiveParts parts lens.sum - 1),
        lens.sum * i / effectiveParts parts lens.sum < lens.sum := fun i mem =>
      lt_of_mem_evenTargets pos (List.mem_map_of_mem mem)
    have targets : ∀ i ∈ List.range' 1 (effectiveParts parts lens.sum - 1),
        logicalTarget lens.sum (effectiveParts parts lens.sum) i =
          .ok (lens.sum * i / effectiveParts parts lens.sum) := fun i mem =>
      if_pos (products i (indices i mem))
    obtain ⟨cuts, last, run, _, ranges⟩ := forIn_breakStep targets
      (fun i mem => total _ (inside i mem)) (fun i mem => (forward _ (inside i mem)).1)
      (fun i mem => (forward _ (inside i mem)).2) ⟨[], 0⟩
    rw [logicalPlan, if_neg empty, logicalCuts, run]
    exact congrArg (fun intervals => Except.ok (assignmentsOf lens intervals)) ranges

/-- A dataset that fits the address space has no target overflow. -/
theorem products_lt (small : lens.sum ≤ usizeMax) {i : Nat}
    (lt : i < effectiveParts parts lens.sum) : lens.sum * i < 2 ^ 128 := by
  have smallI := lt.le.trans (effectiveParts_le parts lens.sum)
  have bound : lens.sum * i ≤ usizeMax * usizeMax := Nat.mul_le_mul small smallI
  exact bound.trans_lt (by decide)

end Total

end Cli
