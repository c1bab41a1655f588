import MmapChunker.Cli.Mapped

/-!
The boundary cache of `plan_logical_partitions` (`src/bin/mmap-chunker.rs`).

A search leaves its boundary in the `BoundarySearchState` of its source, and the next
search of that source answers with it as long as it lies past the target. For a delimiter
of several bytes that answer is not the boundary of the target when the target lies inside
the delimiter. The planner never gets it: a target behind the last cut is skipped, and no
state reaches past the last cut, so every search that is asked starts at its target.

* `loopState_behind`: the invariant, in every state the target loop comes to.
* `boundary_cache_transparent`: the planner that forgets all searches before each of them
  returns the same.
-/

namespace Cli

open Machine TargetWalk Segments Exec

/-! ### Planning without the cache -/

/-- The prefix loop of `plan_logical_partitions`. -/
def prefixesOf (sources : List Slice) : Exec Unit String (List Nat) :=
  forIn sources [0] fun source prefixes => do pushPrefix (← usizeToU128 source.len) prefixes

/-- `plan_logical_partitions`, with the search states as `prepare` makes them before each
projection. -/
def planPrepared (prepare : List BoundarySearchState → List BoundarySearchState)
    (sources : List Slice) (requestedParts : Nat) (delimiter : List UInt8) :
    Exec Unit String (List WorkerAssignment) := do
  if requestedParts = 0 then return []
  let prefixes ← prefixesOf sources
  planTargets
    (fun target states => projectLogicalTarget prefixes sources delimiter target (prepare states))
    (List.replicate sources.length .initial) prefixes sources.length requestedParts

theorem planPrepared_id : planPrepared id = planLogicalPartitions := rfl

/-- Every state set to `BoundarySearchState::default()`. -/
def resetStates (states : List BoundarySearchState) : List BoundarySearchState :=
  states.map fun _ => .initial

section Cache

variable {sources : List Slice} {delimiter : List UInt8} {parts : Nat}

/-- Forgetting the searches leaves no state past a cut. -/
theorem statesBehind_reset {lens : List Nat} {states : List BoundarySearchState}
    (len : states.length = lens.length) (last : Nat) :
    StatesBehind lens last (resetStates states) := by
  apply statesBehind_initial
  · rw [resetStates, List.length_map, len]
  · simp [resetStates]

/-- Whatever is done to the states before a projection, the planner computes the abstract
result if they stay behind the last cut. -/
theorem planPrepared_ensures (sources : List Slice) (parts : Nat) (ne : delimiter ≠ [])
    (prepare : List BoundarySearchState → List BoundarySearchState)
    (keeps : ∀ last states, StatesBehind (lengths (bytesOf sources)) last states →
      StatesBehind (lengths (bytesOf sources)) last (prepare states)) :
    Ensures (planPrepared prepare sources parts delimiter) () fun r _ =>
      r = logicalResult (lengths (bytesOf sources)) parts
        fun t => .ok (logicalSnap (bytesOf sources) delimiter t) := by
  apply planWith_ensures sources parts ne (StatesBehind (lengths (bytesOf sources)))
  · intro fits t last states s behind
    exact projectLogicalTarget_simulates ne fits t last (prepare states) s
      (keeps last states behind)
  · exact statesBehind_start sources 0

/-! ### The states of the target loop -/

/-- `plan_logical_partitions` comes to the partition `i` of its target loop with the cuts
`walked` and the search states `states`. -/
def LoopState (sources : List Slice) (parts : Nat) (delimiter : List UInt8) (i : Nat)
    (walked : WalkState Nat) (states : List BoundarySearchState) : Prop :=
  ∃ prefixes total, runFrom (prefixesOf sources) () = some (.ok prefixes, ()) ∧
    prefixes.getLast? = some total ∧
    Arrives
      (planStep (projectLogicalTarget prefixes sources delimiter) total
        (effectiveParts parts total))
      (List.range' 1 (effectiveParts parts total - 1))
      (⟨[], 0⟩, List.replicate sources.length .initial) () i (walked, states) ()

/-- No search state reaches past the last cut, in whatever state the loop comes to. -/
theorem loopState_behind (ne : delimiter ≠ []) {i : Nat} {walked : WalkState Nat}
    {states : List BoundarySearchState}
    (reached : LoopState sources parts delimiter i walked states) :
    (lengths (bytesOf sources)).sum < 2 ^ 128 ∧
      i < effectiveParts parts (lengths (bytesOf sources)).sum ∧
      StatesBehind (lengths (bytesOf sources)) walked.lastBoundary states := by
  obtain ⟨prefixes, total, summed, last, arrives⟩ := reached
  rw [prefixesOf, prefixes_eq] at summed
  by_cases fits : (lengths (bytesOf sources)).sum < 2 ^ 128
  · rw [if_pos fits] at summed
    cases summed
    rw [getLast?_prefixSums] at last
    cases last
    exact ⟨fits, planTargets_arrives
      (fun last states _ => StatesBehind (lengths (bytesOf sources)) last states)
      (logicalSnap_forward ne _) (projectLogicalTarget_simulates ne fits)
      (statesBehind_start sources 0) arrives⟩
  · rw [if_neg fits] at summed
    cases summed

/-- From states behind the last cut a target projects to its snap. -/
theorem projectLogicalTarget_returns (ne : delimiter ≠ [])
    (fits : (lengths (bytesOf sources)).sum < 2 ^ 128) {t last : Nat}
    {states : List BoundarySearchState}
    (behind : StatesBehind (lengths (bytesOf sources)) last states) (ahead : last < t)
    (lt : t < (lengths (bytesOf sources)).sum) :
    Returns
      (projectLogicalTarget (prefixSums (lengths (bytesOf sources))) sources delimiter t states) ()
      fun p _ => p.1 = logicalSnap (bytesOf sources) delimiter t := by
  obtain ⟨r, s, run, agree⟩ :=
    projectLogicalTarget_simulates ne fits t last states () behind ahead lt
  cases r with
  | error e => exact agree.elim
  | ok p => exact ⟨p, s, run, agree.1⟩

/-- The target of partition `i`. -/
def targetAt (sources : List Slice) (parts i : Nat) : Nat :=
  (sources.map Slice.len).sum * i / effectiveParts parts (sources.map Slice.len).sum

/-- Where the target loop comes to, the search state of a source is not past the next
target that is asked of it, and the target of this iteration projects past the last cut,
to where it would without the states. -/
structure CacheUnused (sources : List Slice) (parts : Nat) (delimiter : List UInt8) (i : Nat)
    (walked : WalkState Nat) (states : List BoundarySearchState) : Prop where
  behind : ∀ j k, i ≤ j → j < effectiveParts parts (sources.map Slice.len).sum →
    walked.lastBoundary < targetAt sources parts j →
    Inside (sources.map Slice.len) k (targetAt sources parts j) →
    ∃ state, states[k]? = some state ∧
      state.scanFrom ≤ targetAt sources parts j - offset (sources.map Slice.len) k ∧
      ∀ c ∈ state.cachedBoundary,
        c ≤ targetAt sources parts j - offset (sources.map Slice.len) k
  cut_ahead : walked.lastBoundary < targetAt sources parts i →
    ∃ cut, walked.lastBoundary < cut ∧ ∀ states' ∈ [states, resetStates states],
      Returns (projectLogicalTarget (prefixSums (sources.map Slice.len)) sources delimiter
        (targetAt sources parts i) states') () fun p _ => p.1 = cut

theorem targetAt_lt {i : Nat} (lt : i < effectiveParts parts (sources.map Slice.len).sum) :
    targetAt sources parts i < (sources.map Slice.len).sum := by
  apply Nat.div_lt_of_lt_mul
  rw [Nat.mul_comm (effectiveParts parts _)]
  exact Nat.mul_lt_mul_of_pos_left lt (pos_of_lt_effectiveParts lt)

theorem loopState_cacheUnused (ne : delimiter ≠ []) {i : Nat} {walked : WalkState Nat}
    {states : List BoundarySearchState}
    (reached : LoopState sources parts delimiter i walked states) :
    CacheUnused sources parts delimiter i walked states := by
  obtain ⟨fits, index, behind⟩ := loopState_behind ne reached
  have same := lengths_bytesOf sources
  constructor
  · intro j k _ _ ahead inside
    rw [← same] at inside ⊢
    have ltStates : k < states.length := behind.1 ▸ inside.lt_length
    refine ⟨states[k], List.getElem?_eq_getElem ltStates, ?_⟩
    have past : walked.lastBoundary < offset (lengths (bytesOf sources)) k +
        (targetAt sources parts j - offset (lengths (bytesOf sources)) k) := by
      have := inside.1
      omega
    have state := behind.2 k _ _ (List.getElem?_eq_getElem ltStates) past
    exact ⟨state.scanFrom_le, state.cached_le⟩
  · intro ahead
    rw [same] at index
    have lt := targetAt_lt index
    rw [← same] at lt ⊢
    have stays := staysInside_sourceSnap ne (bytesOf sources)
    refine ⟨_, ahead.trans_le (le_lineSnap stays lt), ?_⟩
    intro states' mem
    rcases List.mem_pair.mp mem with rfl | rfl
    · exact projectLogicalTarget_returns ne fits behind ahead lt
    · exact projectLogicalTarget_returns ne fits (statesBehind_reset behind.1 _) ahead lt

end Cache

/-- **The boundary cache is transparent.** For every list of sources, every count of parts
and every non-empty delimiter the planner that resets all search states before each
projection returns the same. Wherever the target loop comes to, no cached boundary is past
the next target asked of its source, no search starts past it, and a target past the last
cut projects past it. -/
theorem boundary_cache_transparent (sources : List Slice) (parts : Nat) (delimiter : List UInt8)
    (ne : delimiter ≠ []) :
    runFrom (planPrepared resetStates sources parts delimiter) () =
        runFrom (planLogicalPartitions sources parts delimiter) () ∧
      ∀ i walked states, LoopState sources parts delimiter i walked states →
        CacheUnused sources parts delimiter i walked states := by
  constructor
  · rw [← planPrepared_id]
    obtain ⟨r, _, run, eq⟩ := planPrepared_ensures sources parts ne resetStates
      fun last _ behind => statesBehind_reset behind.1 last
    obtain ⟨r', _, run', eq'⟩ := planPrepared_ensures sources parts ne id
      fun _ _ behind => behind
    rw [run, run', eq, eq']
  · intro i walked states reached
    exact loopState_cacheUnused ne reached

/-- Two records and one record, with a delimiter of two bytes. -/
def crlfSources : List Slice :=
  [⟨0, [97, 13, 10, 98, 13, 10], by decide⟩, ⟨6, [99, 13, 10], by decide⟩]

/-- One part for each byte. The loop comes to the partition of a target inside the first
delimiter, with the end of that delimiter cached. -/
theorem boundary_cache_transparent_crlf :
    [(13 : UInt8), 10] ≠ [] ∧
      runFrom (planPrepared resetStates crlfSources 9 [13, 10]) () =
        runFrom (planLogicalPartitions crlfSources 9 [13, 10]) () ∧
      CacheUnused crlfSources 9 [13, 10] 2 ⟨[3], 3⟩ [⟨3, some 3⟩, .initial] := by
  have transparent := boundary_cache_transparent crlfSources 9 [13, 10] (by decide)
  have reached : LoopState crlfSources 9 [13, 10] 2 ⟨[3], 3⟩ [⟨3, some 3⟩, .initial] :=
    ⟨[0, 6, 9], 9, by decide +kernel, rfl, .later rfl .here⟩
  exact ⟨by decide, transparent.1, transparent.2 2 _ _ reached⟩

/-- For the target inside the first delimiter the cache has the end of that delimiter, and
the search without it finds the end of the next one. -/
example : nextRecordBoundaryPattern ⟨0, [97, 13, 10, 98, 13, 10], by decide⟩ 2 [13, 10]
      ⟨3, some 3⟩ = some (3, ⟨3, some 3⟩) ∧
    nextRecordBoundaryPattern ⟨0, [97, 13, 10, 98, 13, 10], by decide⟩ 2 [13, 10] .initial =
      some (6, ⟨6, some 6⟩) := by decide +kernel

end Cli
