import MmapChunker.Cli.Sourced
import MmapChunker.Theory.Coupling
import MmapChunker.Theory.Padding

/-!
Empty sources are invisible (`src/bin/mmap-chunker.rs`).

An empty source repeats an entry of the prefix table, takes an index and, in the mapped
planner, a search state. It is never the source a target lies in and never has a row.

The planners are compared on a list of sources with and without empty ones, in
lockstep: every boundary search looks into the same source, which has another index.
The outcomes are the same in every case, a panic and an error included; in the
assignments only the source indices differ.
-/

namespace Cli

open Machine TargetWalk Segments Exec Padding Source

/-- A row of a source that has moved. -/
def SourceRange.moved (place : Nat → Nat) (row : SourceRange) : SourceRange :=
  { row with sourceIndex := place row.sourceIndex }

/-- An assignment of sources that have moved. -/
def WorkerAssignment.moved (place : Nat → Nat) (worker : WorkerAssignment) : WorkerAssignment :=
  { worker with ranges := worker.ranges.map (SourceRange.moved place) }

/-! ### The shared loops -/

/-- The same cuts, and related searches. -/
def SameCuts {τ τ' : Type} (searches : τ → τ' → Prop) (st : WalkState Nat × τ)
    (st' : WalkState Nat × τ') : Prop :=
  st'.1 = st.1 ∧ searches st.2 st'.2

/-- Searches that agree on every target before the end cut in the same places. -/
theorem planStep_alike {σ τ τ' : Type} {searches : τ → τ' → Prop} {total parts i : Nat}
    {project : Nat → τ → Exec σ String (Nat × τ)} {project' : Nat → τ' → Exec σ String (Nat × τ')}
    (projects : ∀ t, t < total → ∀ search search', searches search search' →
      Alike (fun p p' => p'.1 = p.1 ∧ searches p.2 p'.2) (project t search) (project' t search'))
    (pos : 0 < total) (lt : i < parts) (small : parts ≤ usizeMax) {st : WalkState Nat × τ}
    {st' : WalkState Nat × τ'} (same : SameCuts searches st st') :
    Alike (StepAgree (SameCuts searches) (SameCuts searches)) (planStep project total parts i st)
      (planStep project' total parts i st') := by
  rw [planStep_eq (lt.le.trans small) small, planStep_eq (lt.le.trans small) small]
  cases here : logicalTarget total parts i with
  | error e => exact Alike.throw e
  | ok t =>
      obtain ⟨cuts, search⟩ := same
      dsimp only [cutStep]
      rw [cuts]
      split
      · exact Alike.pure ⟨cuts, search⟩
      · refine (projects t (logicalTarget_lt pos lt here) _ _ search).bind ?_
        rintro ⟨projected, after⟩ ⟨_, after'⟩ ⟨rfl, searched⟩
        dsimp only at searched ⊢
        split
        · exact Alike.pure ⟨rfl, searched⟩
        · split
          · exact Alike.pure ⟨rfl, searched⟩
          · exact Alike.pure ⟨rfl, searched⟩

section Shared

variable {σ α : Type} {blank : α → Prop} {len : α → Nat} (zero : ∀ b, blank b → len b = 0)
  (mixed : Padded α blank)

include zero

/-- The row of a source that was there is the old row, moved. -/
theorem intervalStep_alike (start stop : Nat) {k : Nat} (lt : k < (kept mixed).length)
    (ranges : List SourceRange) :
    Alike (StepAgree (fun rows rows' => rows' = rows.map (.moved (newIndex mixed)))
        fun rows rows' => rows' = rows.map (.moved (newIndex mixed)))
      (intervalStep start stop (prefixSums ((kept mixed).map len)) k ranges : Exec σ String _)
      (intervalStep start stop (prefixSums ((everything mixed).map len)) (newIndex mixed k)
        (ranges.map (.moved (newIndex mixed)))) := by
  have lt' := (newIndex_lt_iff mixed k).mpr lt
  have low : k + 1 ≤ ((kept mixed).map len).length := by
    rw [List.length_map]
    exact lt
  have low' : newIndex mixed k + 1 ≤ ((everything mixed).map len).length := by
    rw [List.length_map]
    exact lt'
  simp only [intervalStep, getElem?_prefixSums (Nat.le_of_succ_le low), getElem?_prefixSums low,
    getElem?_prefixSums (Nat.le_of_succ_le low'), getElem?_prefixSums low',
    offset_newIndex zero, offset_newIndex_succ zero, orPanic_some, pure_bind]
  split
  · exact Alike.pure rfl
  · refine Alike.bind_same fun localStart => Alike.bind_same fun localEnd => ?_
    refine Alike.bind_same fun length => Alike.pure ?_
    change _ = List.map _ (_ ++ _)
    rw [List.map_append]
    rfl

/-- An inserted source has no row. -/
theorem intervalStep_inserted (start stop : Nat) {j : Nat} (lt : j < (everything mixed).length)
    (inserted : isKept mixed j = false) (ranges : List SourceRange) :
    (intervalStep start stop (prefixSums ((everything mixed).map len)) j ranges :
      Exec σ String _) = pure (.yield ranges) := by
  have low : j + 1 ≤ ((everything mixed).map len).length := by
    rw [List.length_map]
    exact lt
  have flat := offset_inserted zero mixed inserted lt
  simp only [intervalStep, getElem?_prefixSums (Nat.le_of_succ_le low), getElem?_prefixSums low,
    flat, orPanic_some, pure_bind]
  rw [if_pos ((Nat.min_le_right _ _).trans (Nat.le_max_right _ _))]

theorem rangesForInterval_alike (start stop : Nat) :
    Alike (fun rows rows' => rows' = rows.map (SourceRange.moved (newIndex mixed)))
      (rangesForInterval start stop (prefixSums ((kept mixed).map len)) (kept mixed).length :
        Exec σ String _)
      (rangesForInterval start stop (prefixSums ((everything mixed).map len))
        (everything mixed).length) := by
  rw [rangesForInterval, rangesForInterval]
  split
  · exact Alike.pure rfl
  · rw [← forIn_filter fun j mem inserted ranges =>
      intervalStep_inserted zero mixed start stop (List.mem_range.mp mem) inserted ranges,
      filter_isKept, List.forIn_map]
    refine Alike.forIn (fun k mem ranges ranges' same => ?_) rfl
    subst same
    exact intervalStep_alike zero mixed start stop (List.mem_range.mp mem) ranges

/-- The assignments so far, moved, and the same start of the next one. -/
def SameWorkers (place : Nat → Nat) (st st' : List WorkerAssignment × Nat) : Prop :=
  st'.1 = st.1.map (.moved place) ∧ st'.2 = st.2

theorem assignStep_alike (stop : Nat) {st st' : List WorkerAssignment × Nat}
    (same : SameWorkers (newIndex mixed) st st') :
    Alike (StepAgree (SameWorkers (newIndex mixed)) (SameWorkers (newIndex mixed)))
      (assignStep (prefixSums ((kept mixed).map len)) (kept mixed).length stop st :
        Exec σ String _)
      (assignStep (prefixSums ((everything mixed).map len)) (everything mixed).length stop
        st') := by
  obtain ⟨workers, start⟩ := same
  rw [assignStep, assignStep, start]
  refine (rangesForInterval_alike zero mixed st.2 stop).bind ?_
  rintro ranges _ rfl
  by_cases empty : ranges = []
  · rw [if_pos empty, if_pos (by rw [empty]; rfl)]
    exact Alike.pure ⟨workers, rfl⟩
  · rw [if_neg empty, if_neg (mt List.map_eq_nil_iff.mp empty)]
    refine Alike.pure ⟨?_, rfl⟩
    rw [workers, List.map_append, List.length_map]
    rfl

/-- The planners from the prefix sums on: the same assignments, moved. -/
theorem planTargets_alike {τ τ' : Type} {searches : τ → τ' → Prop}
    {project : Nat → τ → Exec σ String (Nat × τ)} {project' : Nat → τ' → Exec σ String (Nat × τ')}
    (projects : ∀ t, t < ((kept mixed).map len).sum → ∀ search search', searches search search' →
      Alike (fun p p' => p'.1 = p.1 ∧ searches p.2 p'.2) (project t search) (project' t search'))
    {search : τ} {search' : τ'} (start : searches search search') (parts : Nat) :
    Alike (fun workers workers' => workers' = workers.map (.moved (newIndex mixed)))
      (planTargets project search (prefixSums ((kept mixed).map len)) (kept mixed).length parts)
      (planTargets project' search' (prefixSums ((everything mixed).map len))
        (everything mixed).length parts) := by
  rw [planTargets, planTargets, getLast?_prefixSums, getLast?_prefixSums, sum_everything zero,
    okOr_some, pure_bind, pure_bind]
  generalize ((kept mixed).map len).sum = total at projects
  split
  · exact Alike.pure rfl
  rename_i nonempty
  have cuts : Alike (SameCuts searches)
      (forIn (List.range' 1 (effectiveParts parts total - 1)) (⟨[], 0⟩, search)
        (planStep project total (effectiveParts parts total)))
      (forIn (List.range' 1 (effectiveParts parts total - 1)) (⟨[], 0⟩, search')
        (planStep project' total (effectiveParts parts total))) := by
    refine Alike.forIn (fun i mem st st' same => ?_) ⟨rfl, start⟩
    exact planStep_alike projects (Nat.pos_of_ne_zero nonempty) (Loop.lt_of_mem_indices mem)
      (effectiveParts_le parts total) same
  refine cuts.bind ?_
  rintro ⟨walked, after⟩ ⟨_, after'⟩ ⟨rfl, -⟩
  refine Alike.bind (R := SameWorkers (newIndex mixed)) ?_ ?_
  · exact Alike.forIn (fun stop _ _ _ same => assignStep_alike zero mixed stop same) ⟨rfl, rfl⟩
  · rintro ⟨workers, last⟩ ⟨_, _⟩ ⟨rfl, -⟩
    exact Alike.pure rfl

end Shared

/-! ### Mapped sources -/

section Mapped

variable (mixed : Padded Slice fun source => source.len = 0) {delimiter : List UInt8}

/-- Every source that was there has the search state it had. -/
def SameStates (place : Nat → Nat) (states states' : List BoundarySearchState) : Prop :=
  ∀ k, states'[place k]? = states[k]?

theorem sameStates_initial :
    SameStates (newIndex mixed) (List.replicate (kept mixed).length .initial)
      (List.replicate (everything mixed).length .initial) := by
  intro k
  simp only [List.getElem?_replicate, newIndex_lt_iff]

theorem SameStates.set {states states' : List BoundarySearchState}
    (same : SameStates (newIndex mixed) states states') (k : Nat) (state : BoundarySearchState) :
    SameStates (newIndex mixed) (states.set k state) (states'.set (newIndex mixed k) state) := by
  intro j
  simp only [List.getElem?_set', same j, (newIndex_injective mixed).eq_iff]

theorem projectLogicalTarget_alike {t : Nat} (lt : t < ((kept mixed).map Slice.len).sum)
    {states states' : List BoundarySearchState}
    (same : SameStates (newIndex mixed) states states') :
    Alike (fun p p' => p'.1 = p.1 ∧ SameStates (newIndex mixed) p.2 p'.2)
      (projectLogicalTarget (prefixSums ((kept mixed).map Slice.len)) (kept mixed) delimiter t
        states)
      (projectLogicalTarget (prefixSums ((everything mixed).map Slice.len)) (everything mixed)
        delimiter t states') := by
  have offsets := prefixSums_everything (fun _ empty => empty) mixed t
  rw [projectLogicalTarget, projectLogicalTarget]
  by_cases mem : t ∈ prefixSums ((kept mixed).map Slice.len)
  · rw [if_pos mem, if_pos (offsets.mpr mem)]
    exact Alike.pure ⟨rfl, same⟩
  · obtain ⟨k, inside⟩ := exists_inside mem lt
    have inside' := inside_newIndex (fun _ empty => empty) mixed inside
    rw [if_neg mem, if_neg (mt offsets.mp mem), locateSource_eq inside, locateSource_eq inside',
      offset_newIndex (fun _ empty => empty), pure_bind, pure_bind]
    dsimp only
    rw [getElem?_everything, same k]
    refine Alike.bind_same fun localTarget => Alike.bind_same fun data => ?_
    refine Alike.bind_same fun state => Alike.bind_same fun found => ?_
    refine Alike.bind_same fun localBoundary => Alike.bind_same fun projected => ?_
    exact Alike.pure ⟨rfl, same.set mixed k found.2⟩

theorem planLogicalPartitions_alike (parts : Nat) :
    Alike (fun workers workers' => workers' = workers.map (.moved (newIndex mixed)))
      (planLogicalPartitions (kept mixed) parts delimiter)
      (planLogicalPartitions (everything mixed) parts delimiter) := by
  rw [planLogicalPartitions, planLogicalPartitions]
  split
  · exact Alike.pure rfl
  rw [prefixes_eq, prefixes_eq, lengths_bytesOf, lengths_bytesOf,
    sum_everything (fun _ empty => empty)]
  split
  · rw [pure_bind, pure_bind]
    exact planTargets_alike (fun _ empty => empty) mixed
      (fun t lt _ _ same => projectLogicalTarget_alike mixed lt same) (sameStates_initial mixed)
      parts
  · rw [throw_bind, throw_bind]
    exact Alike.throw _

end Mapped

/-! ### On-demand sources -/

/-- The open source, when it has moved. -/
def OpenSourced.moved {σ : Type} (place : Nat → Nat) (opened : OpenSourced σ) : OpenSourced σ :=
  { opened with index := place opened.index }

/-- The same source is open, or none. -/
def SameOpen {σ : Type} (place : Nat → Nat) (current current' : Option (OpenSourced σ)) : Prop :=
  current' = current.map (.moved place)

/-- The length phase 1 sees. -/
def statLength {σ : Type} (backend : Backend σ) (path : Path) : Nat :=
  match backend.metadata path with
  | .ok len => len
  | .error _ => 0

section Sourced

variable {σ : Type} {backend : Backend σ}
  (mixed : Padded Path fun path => backend.metadata path = .ok 0)
  {allocate : Nat → Option Nat} {delimiter : List UInt8}

theorem statLength_empty (path : Path) (empty : backend.metadata path = .ok 0) :
    statLength backend path = 0 := by
  rw [statLength, empty]

/-- Phase 1 fails in the same way, or computes the prefixes of both lists. -/
theorem stats_alike :
    Alike (fun prefixes prefixes' => prefixes = prefixSums ((kept mixed).map (statLength backend)) ∧
        prefixes' = prefixSums ((everything mixed).map (statLength backend)))
      (forIn (kept mixed) [0] (statStep backend) : Exec σ String _)
      (forIn (everything mixed) [0] (statStep backend)) := by
  have loop : ∀ (mixed : Padded Path fun path => backend.metadata path = .ok 0)
      (before before' : List Nat), before'.sum = before.sum → before.sum < 2 ^ 128 →
      Alike (fun prefixes prefixes' =>
          prefixes = prefixSums (before ++ (kept mixed).map (statLength backend)) ∧
          prefixes' = prefixSums (before' ++ (everything mixed).map (statLength backend)))
        (forIn (kept mixed) (prefixSums before) (statStep backend) : Exec σ String _)
        (forIn (everything mixed) (prefixSums before') (statStep backend)) := by
    intro mixed
    induction mixed with
    | nil =>
        intro before before' _ _
        exact Alike.pure ⟨congrArg prefixSums (List.append_nil before).symm,
          congrArg prefixSums (List.append_nil before').symm⟩
    | cons entry mixed ih =>
        intro before before' sums fits
        cases entry with
        | inl path =>
            rw [kept_inl, everything_inl, List.forIn_cons, List.forIn_cons, statStep, statStep]
            cases stat : backend.metadata path with
            | error error =>
                rw [throw_bind, throw_bind]
                exact Alike.throw _
            | ok len =>
                have here : statLength backend path = len := by rw [statLength, stat]
                dsimp only
                rw [pushPrefix_eq, pushPrefix_eq, sums, List.map_cons, List.map_cons, here,
                  List.append_cons before, List.append_cons before']
                split
                · rename_i fitsToo
                  rw [pure_bind, pure_bind]
                  exact ih (before ++ [len]) (before' ++ [len]) (by simp [sums])
                    (by simpa using fitsToo)
                · rw [throw_bind, throw_bind]
                  exact Alike.throw _
        | inr empty =>
            have here := statLength_empty empty.val empty.property
            rw [kept_inr, everything_inr, List.forIn_cons, statStep, empty.property]
            dsimp only
            rw [pushPrefix_eq, if_pos (by omega), pure_bind, List.map_cons, here, List.append_cons]
            exact ih before (before' ++ [0]) (by simp [sums]) fits
  exact loop mixed [] [] rfl (by decide)

theorem reuseOrOpen_alike (path : Path) (k expectedLen bufferLen : Nat)
    (current : Option (OpenSourced σ)) :
    Alike (fun opened opened' => opened' = opened.moved (newIndex mixed))
      (reuseOrOpen backend allocate path k expectedLen bufferLen current)
      (reuseOrOpen backend allocate path (newIndex mixed k) expectedLen bufferLen
        (current.map (.moved (newIndex mixed)))) := by
  have reuses : reusable (current.map (.moved (newIndex mixed))) (newIndex mixed k) =
      (reusable current k).map (.moved (newIndex mixed)) := by
    cases current with
    | none => rfl
    | some opened =>
        by_cases same : opened.index = k
        · simp [reusable, Option.filter_some, OpenSourced.moved, same]
        · simp [reusable, Option.filter_some, OpenSourced.moved, same,
            (newIndex_injective mixed).eq_iff]
  rw [reuseOrOpen, reuseOrOpen, reuses]
  cases reusable current k with
  | some opened => exact Alike.pure rfl
  | none =>
      refine Alike.bind_same fun source => Alike.bind_same fun length => ?_
      split
      · exact Alike.throw _
      · exact Alike.bind_same fun buffer => Alike.pure rfl

theorem projectSourcedTarget_alike (bufferLen : Nat) {t : Nat}
    (lt : t < ((kept mixed).map (statLength backend)).sum)
    {current current' : Option (OpenSourced σ)}
    (same : SameOpen (newIndex mixed) current current') :
    Alike (fun p p' => p'.1 = p.1 ∧ SameOpen (newIndex mixed) p.2 p'.2)
      (projectSourcedTarget backend allocate (prefixSums ((kept mixed).map (statLength backend)))
        (kept mixed) delimiter bufferLen t current)
      (projectSourcedTarget backend allocate
        (prefixSums ((everything mixed).map (statLength backend))) (everything mixed) delimiter
        bufferLen t current') := by
  subst same
  have offsets := prefixSums_everything statLength_empty mixed t
  rw [projectSourcedTarget, projectSourcedTarget]
  by_cases mem : t ∈ prefixSums ((kept mixed).map (statLength backend))
  · rw [if_pos mem, if_pos (offsets.mpr mem)]
    exact Alike.pure ⟨rfl, rfl⟩
  · obtain ⟨k, inside⟩ := exists_inside mem lt
    have inside' := inside_newIndex statLength_empty mixed inside
    rw [if_neg mem, if_neg (mt offsets.mp mem), locateSource_eq inside, locateSource_eq inside',
      offset_newIndex statLength_empty, pure_bind, pure_bind]
    dsimp only
    rw [getElem?_prefixSums inside.lt_length, getElem?_prefixSums inside'.lt_length,
      offset_newIndex_succ statLength_empty, getElem?_everything]
    refine Alike.bind_same fun sourceEnd => Alike.bind_same fun expectedLen => ?_
    refine Alike.bind_same fun localTarget => Alike.bind_same fun path => ?_
    refine (reuseOrOpen_alike mixed path k expectedLen bufferLen current).bind ?_
    rintro opened _ rfl
    refine Alike.bind_same fun found => Alike.bind_same fun localBoundary => ?_
    exact Alike.bind_same fun projected => Alike.pure ⟨rfl, rfl⟩

theorem planLogicalPartitionsSourced_alike (parts scanBufferBytes : Nat) :
    Alike (fun workers workers' => workers' = workers.map (.moved (newIndex mixed)))
      (planLogicalPartitionsSourced backend allocate (kept mixed) parts delimiter scanBufferBytes)
      (planLogicalPartitionsSourced backend allocate (everything mixed) parts delimiter
        scanBufferBytes) := by
  rw [planLogicalPartitionsSourced, planLogicalPartitionsSourced]
  split
  · exact Alike.pure rfl
  refine (stats_alike mixed).bind ?_
  rintro _ _ ⟨rfl, rfl⟩
  have start : SameOpen (newIndex mixed) (none : Option (OpenSourced σ)) none := rfl
  exact planTargets_alike statLength_empty mixed
    (fun t lt _ _ same => projectSourcedTarget_alike mixed _ lt same) start parts

end Sourced

/-- **Empty sources are invisible.** Insert any number of empty sources anywhere: with
either planner the run ends as it did before, and the assignments it returns are the
old ones with every source under its new index. -/
theorem empty_sources_invisible :
    (∀ (mixed : Padded Slice fun source => source.len = 0) (parts : Nat) (delimiter : List UInt8)
      (s : Unit), runFrom (planLogicalPartitions (everything mixed) parts delimiter) s =
        (runFrom (planLogicalPartitions (kept mixed) parts delimiter) s).map fun p =>
          (p.1.map (List.map (.moved (newIndex mixed))), p.2)) ∧
    ∀ (σ : Type) (backend : Backend σ) (allocate : Nat → Option Nat)
      (mixed : Padded Path fun path => backend.metadata path = .ok 0) (parts : Nat)
      (delimiter : List UInt8) (scanBufferBytes : Nat) (s : σ),
      runFrom (planLogicalPartitionsSourced backend allocate (everything mixed) parts delimiter
          scanBufferBytes) s =
        (runFrom (planLogicalPartitionsSourced backend allocate (kept mixed) parts delimiter
          scanBufferBytes) s).map fun p =>
          (p.1.map (List.map (.moved (newIndex mixed))), p.2) :=
  ⟨fun mixed parts _ s => (planLogicalPartitions_alike mixed parts).runFrom_eq s,
    fun _ _ _ mixed parts _ scanBufferBytes s =>
      (planLogicalPartitionsSourced_alike mixed parts scanBufferBytes).runFrom_eq s⟩

end Cli
