import MmapChunker.Cli.Logical
import MmapChunker.Scanner.Partition

/-!
`partition-files` over fully mapped sources (`src/bin/mmap-chunker.rs`).

The CLI has its own copy of the partitioner: its own search loops, its own target
arithmetic and a search state for each source. `planLogicalPartitions_eq` says that
it computes the abstract plan of `logicalSnap`, which leaves a source boundary where
it is and moves a target inside a source to the least record boundary of that source.

* `single_source_agrees`: over one file it is the library's partitioner.
* `assignments_cover_sources`: over any files it covers every source in order.
-/

namespace Cli

open Machine Occurrence TargetWalk Tiling Segments Exec

/-! ### Source -/

/-- `BoundarySearchState`. -/
structure BoundarySearchState where
  scanFrom : Nat
  cachedBoundary : Option Nat
  deriving Repr, DecidableEq

/-- `BoundarySearchState::default()`. -/
def BoundarySearchState.initial : BoundarySearchState := ⟨0, none⟩

/-- The cached boundary, when it lies past the target. -/
def BoundarySearchState.cachedFor (state : BoundarySearchState) (target : Nat) : Option Nat :=
  state.cachedBoundary.filter (target < ·)

/-- The loop of `find_first_pattern_from` over the `n` offsets from `offset` on. -/
def firstOffset (haystack : Slice) (pattern : List UInt8) (offset : Nat) :
    Nat → Option (Option Nat)
  | 0 => return none
  | n + 1 => do
      let rest ← haystack.rangeFrom offset
      if rest.startsWith pattern then return some offset
      firstOffset haystack pattern (offset + 1) n

/-- `find_first_pattern_from`. -/
def findFirstPatternFrom (haystack : Slice) (pattern : List UInt8) : Option (Option Nat) :=
  if pattern = [] ∨ haystack.len < pattern.length then return none
  else firstOffset haystack pattern 0 (haystack.len - pattern.length + 1)

/-- `haystack.iter().position(|byte| *byte == delimiter)`. -/
def position (haystack : Slice) (delimiter : UInt8) : Option Nat :=
  haystack.bytes.findIdx? (· == delimiter)

/-- `target >= 1 && target <= data.len() && data[target - 1] == delimiter`. -/
def followsByte (data : Slice) (delimiter : UInt8) (target : Nat) : Option Bool := do
  if 1 ≤ target ∧ target ≤ data.len then
    let before ← data.index (target - 1)
    return before = delimiter
  else return false

/-- `target >= delimiter.len() && target <= data.len() &&
data[target - delimiter.len()..target] == delimiter[..]`. -/
def followsPattern (data : Slice) (delimiter : List UInt8) (target : Nat) : Option Bool := do
  if delimiter.length ≤ target ∧ target ≤ data.len then
    let before ← data.range (target - delimiter.length) target
    return before.bytes = delimiter
  else return false

/-- `next_record_boundary`. -/
def nextRecordBoundary (data : Slice) (target : Nat) (delimiter : UInt8)
    (state : BoundarySearchState) : Option (Nat × BoundarySearchState) := do
  match state.cachedFor target with
  | some cachedBoundary => return (cachedBoundary, state)
  | none =>
      if ← followsByte data delimiter target then
        return (target, ⟨max target state.scanFrom, some target⟩)
      let scanFrom := max target state.scanFrom
      let rest ← data.rangeFrom scanFrom
      let boundary := match position rest delimiter with
        | some relative => min (saturatingAdd (saturatingAdd scanFrom relative) 1) data.len
        | none => data.len
      return (boundary, ⟨boundary, some boundary⟩)

/-- `next_record_boundary_pattern`. -/
def nextRecordBoundaryPattern (data : Slice) (target : Nat) (delimiter : List UInt8)
    (state : BoundarySearchState) : Option (Nat × BoundarySearchState) := do
  match state.cachedFor target with
  | some cachedBoundary => return (cachedBoundary, state)
  | none =>
      if ← followsPattern data delimiter target then
        return (target, ⟨max target state.scanFrom, some target⟩)
      let scanFrom := max target state.scanFrom
      if data.len ≤ scanFrom then return (data.len, ⟨data.len, some data.len⟩)
      let rest ← data.rangeFrom scanFrom
      let boundary := match ← findFirstPatternFrom rest delimiter with
        | some relative =>
            min (saturatingAdd (saturatingAdd scanFrom relative) delimiter.length) data.len
        | none => data.len
      return (boundary, ⟨boundary, some boundary⟩)

/-- `project_logical_target`. -/
def projectLogicalTarget (prefixes : List Nat) (sources : List Slice) (delimiter : List UInt8)
    (target : Nat) (states : List BoundarySearchState) :
    Exec Unit String (Nat × List BoundarySearchState) := do
  if target ∈ prefixes then return (target, states)
  let (sourceIndex, sourceStart) ← locateSource target prefixes
  let localTarget ← localTarget target sourceStart
  let data ← okOr sources[sourceIndex]? "internal error: target source out of bounds"
  let state ← okOr states[sourceIndex]? "internal error: boundary state out of bounds"
  let (localBoundary, state) ← orPanic <|
    if delimiter.length = 1 then do
      nextRecordBoundary data localTarget (← delimiter[0]?) state
    else nextRecordBoundaryPattern data localTarget delimiter state
  let projected ← orPanic (checkedAddU128 sourceStart (← usizeToU128 localBoundary))
  return (projected, states.set sourceIndex state)

/-- `plan_logical_partitions`. -/
def planLogicalPartitions (sources : List Slice) (requestedParts : Nat) (delimiter : List UInt8) :
    Exec Unit String (List WorkerAssignment) := do
  if requestedParts = 0 then return []
  let prefixes ← forIn sources [0] fun source prefixes => do
    pushPrefix (← usizeToU128 source.len) prefixes
  planTargets (projectLogicalTarget prefixes sources delimiter)
    (List.replicate sources.length .initial) prefixes sources.length requestedParts

/-! ### The searches -/

section Search

variable {data : Slice} {target : Nat} {state : BoundarySearchState}

theorem firstOffset_eq {haystack : Slice} (pattern : List UInt8) (offset n : Nat)
    (inside : offset + n ≤ haystack.len + 1) :
    firstOffset haystack pattern offset n =
      some (findFrom (OccursAt pattern haystack.bytes) offset n) := by
  induction n generalizing offset with
  | zero => rfl
  | succ n ih =>
      have starts : (haystack.tail offset).startsWith pattern = true ↔
          OccursAt pattern haystack.bytes offset := Slice.startsWith_iff
      rw [firstOffset, Slice.rangeFrom_eq (by omega), Option.bind_eq_bind, Option.bind_some,
        findFrom]
      by_cases here : OccursAt pattern haystack.bytes offset
      · rw [if_pos (starts.mpr here), if_pos here]
        rfl
      · rw [if_neg (mt starts.mp here), if_neg here]
        exact ih (offset + 1) (by omega)

theorem findFirstPatternFrom_eq (haystack : Slice) {pattern : List UInt8} (ne : pattern ≠ []) :
    findFirstPatternFrom haystack pattern = some (nextOcc pattern haystack.bytes 0) := by
  rw [findFirstPatternFrom]
  by_cases short : haystack.len < pattern.length
  · rw [if_pos (.inr short), nextOcc_eq_none ne (by rwa [Nat.zero_add])]
    rfl
  · rw [if_neg (not_or.mpr ⟨ne, short⟩), firstOffset_eq _ _ _ (by
      have := List.length_pos_of_ne_nil ne
      omega)]
    refine congrArg some (nextOcc_eq_of_firstAt ne ?_).symm
    refine (findFrom_spec _ 0 _).firstAt fun q le occurs => ?_
    have := occurs.le_length ne
    unfold Slice.len at le short
    omega

/-- The least index at which the complete pattern stands, if it is not empty and stands
anywhere. -/
def LeastIndex (pattern xs : List UInt8) : Option Nat → Prop
  | some i => pattern ≠ [] ∧ pattern <+: xs.drop i ∧ ∀ j < i, ¬ pattern <+: xs.drop j
  | none => pattern = [] ∨ ∀ i, ¬ pattern <+: xs.drop i

theorem leastIndex_nextOcc {pattern : List UInt8} (ne : pattern ≠ []) (xs : List UInt8) :
    LeastIndex pattern xs (nextOcc pattern xs 0) := by
  have first := nextOcc_spec ne xs 0
  cases found : nextOcc pattern xs 0 with
  | some i =>
      rw [found] at first
      obtain ⟨-, here, least⟩ := first
      exact ⟨ne, here, fun j lt => least j (Nat.zero_le j) lt⟩
  | none =>
      rw [found] at first
      exact .inr fun i => first i (Nat.zero_le i)

/-- **The two pattern searches are one.** The library's search over first bytes and the
CLI's search over all offsets never panic, and return the least index of the pattern. -/
theorem pattern_searches_agree (haystack : Slice) (pattern : List UInt8) :
    ∃ result, Scanner.findPatternInSlice haystack pattern = some result ∧
      findFirstPatternFrom haystack pattern = some result ∧
      LeastIndex pattern haystack.bytes result := by
  by_cases empty : pattern = []
  · refine ⟨none, ?_, ?_, .inl empty⟩
    · simp only [Scanner.findPatternInSlice, empty, List.length_nil, true_or, if_true]
      rfl
    · rw [findFirstPatternFrom, if_pos (.inl empty)]
      rfl
  · exact ⟨_, Scanner.findPatternInSlice_eq haystack empty, findFirstPatternFrom_eq haystack empty,
      leastIndex_nextOcc empty haystack.bytes⟩

theorem position_eq (haystack : Slice) (delimiter : UInt8) :
    position haystack delimiter = nextOcc [delimiter] haystack.bytes 0 :=
  (Scanner.nextOcc_byte haystack.bytes delimiter).symm

theorem followsPattern_eq {delimiter : List UInt8} (inside : target ≤ data.len) :
    followsPattern data delimiter target =
      some (decide (EndsAt delimiter data.bytes target)) := by
  have same : followsPattern data delimiter target =
      Scanner.followsDelimiter data delimiter target := by
    unfold followsPattern Scanner.followsDelimiter
    simp only [inside, and_true]
  rw [same, Scanner.followsDelimiter_eq inside]

theorem followsByte_eq {delimiter : UInt8} (inside : target ≤ data.len) :
    followsByte data delimiter target =
      some (decide (EndsAt [delimiter] data.bytes target)) := by
  unfold followsByte EndsAt
  by_cases pos : 1 ≤ target
  · obtain ⟨before, here⟩ : ∃ before, data.index (target - 1) = some before :=
      ⟨_, data.index_eq (by omega)⟩
    have occurs : OccursAt [delimiter] data.bytes (target - 1) ↔ before = delimiter := by
      have : data.bytes[target - 1]? = some before := here
      rw [Scanner.occursAt_byte, this, Option.some.injEq]
    rw [if_pos ⟨pos, inside⟩, here, Option.bind_eq_bind, Option.bind_some]
    simp only [List.length_singleton, pos, true_and, occurs]
    rfl
  · rw [if_neg fun h => pos h.1]
    simp [pos]

/-- The state of a search never reaches past `u`. -/
structure BoundarySearchState.Behind (state : BoundarySearchState) (u : Nat) : Prop where
  scanFrom_le : state.scanFrom ≤ u
  cached_le : ∀ c ∈ state.cachedBoundary, c ≤ u

theorem BoundarySearchState.behind_initial (u : Nat) : BoundarySearchState.initial.Behind u :=
  ⟨Nat.zero_le u, fun c mem => by simp [BoundarySearchState.initial] at mem⟩

/-- The state after a search that ended at `b`. -/
theorem BoundarySearchState.behind_of_le {b u : Nat} (le : b ≤ u) :
    BoundarySearchState.Behind ⟨b, some b⟩ u :=
  ⟨le, fun c mem => by
    cases mem
    exact le⟩

theorem BoundarySearchState.Behind.cachedFor_eq (behind : state.Behind target) :
    state.cachedFor target = none := by
  rw [BoundarySearchState.cachedFor, Option.filter_eq_none_iff]
  intro c mem
  have := behind.cached_le c mem
  simpa using this

/-- `next_record_boundary` computes the snap when its state is behind the target. -/
theorem nextRecordBoundary_eq (delimiter : UInt8) (behind : state.Behind target)
    (inside : target ≤ data.len) :
    nextRecordBoundary data target delimiter state =
      some (snapEnd [delimiter] data.bytes target,
        ⟨snapEnd [delimiter] data.bytes target, some (snapEnd [delimiter] data.bytes target)⟩) := by
  have ne : [delimiter] ≠ [] := List.cons_ne_nil _ _
  have scanFrom : max target state.scanFrom = target := Nat.max_eq_left behind.scanFrom_le
  simp only [nextRecordBoundary, behind.cachedFor_eq, followsByte_eq inside, scanFrom,
    Option.bind_eq_bind, Option.bind_some, Slice.rangeFrom_eq inside, position_eq,
    Slice.bytes_tail]
  by_cases ends : EndsAt [delimiter] data.bytes target
  · rw [if_pos (decide_eq_true ends), snapEnd, snapEnd?_of_endsAt ends]
    rfl
  · rw [if_neg (by simpa using ends), snapEnd, Scanner.snapEnd?_of_search ne ends]
    cases found : nextOcc [delimiter] (data.bytes.drop target) 0 with
    | none => rfl
    | some relative =>
        have search := Scanner.snapEnd?_of_search ne ends
        rw [found] at search
        have clamp : min (saturatingAdd (saturatingAdd target relative) 1) data.len =
            target + relative + 1 := by
          rw [min_saturatingAdd_saturatingAdd data.len_le_usizeMax]
          exact Nat.min_eq_left (Scanner.snapEnd?_le ne search)
        simp only [clamp]
        rfl

/-- `next_record_boundary_pattern` computes the snap when its state is behind the
target. -/
theorem nextRecordBoundaryPattern_eq {delimiter : List UInt8} (ne : delimiter ≠ [])
    (behind : state.Behind target) (inside : target ≤ data.len) :
    nextRecordBoundaryPattern data target delimiter state =
      some (snapEnd delimiter data.bytes target,
        ⟨snapEnd delimiter data.bytes target, some (snapEnd delimiter data.bytes target)⟩) := by
  have scanFrom : max target state.scanFrom = target := Nat.max_eq_left behind.scanFrom_le
  simp only [nextRecordBoundaryPattern, behind.cachedFor_eq, followsPattern_eq inside, scanFrom,
    Option.bind_eq_bind, Option.bind_some, Slice.rangeFrom_eq inside, findFirstPatternFrom_eq _ ne,
    Slice.bytes_tail]
  by_cases ends : EndsAt delimiter data.bytes target
  · rw [if_pos (decide_eq_true ends), snapEnd, snapEnd?_of_endsAt ends]
    rfl
  · have search := Scanner.snapEnd?_of_search ne ends
    rw [if_neg (by simpa using ends), snapEnd, search]
    by_cases atEnd : data.len ≤ target
    · have nothing : nextOcc delimiter (data.bytes.drop target) 0 = none :=
        nextOcc_eq_none ne (by
          have := List.length_pos_of_ne_nil ne
          unfold Slice.len at atEnd
          rw [List.length_drop]
          omega)
      rw [if_pos atEnd, nothing]
      rfl
    · rw [if_neg atEnd]
      cases found : nextOcc delimiter (data.bytes.drop target) 0 with
      | none => rfl
      | some relative =>
          rw [found] at search
          have clamp : min (saturatingAdd (saturatingAdd target relative) delimiter.length)
              data.len = target + relative + delimiter.length := by
            rw [min_saturatingAdd_saturatingAdd data.len_le_usizeMax]
            exact Nat.min_eq_left (Scanner.snapEnd?_le ne search)
          simp only [clamp]
          rfl

/-- The search `project_logical_target` makes, by the length of the delimiter. -/
theorem localBoundary_eq {delimiter : List UInt8} (ne : delimiter ≠ [])
    (behind : state.Behind target) (inside : target ≤ data.len) :
    (if delimiter.length = 1 then do
        nextRecordBoundary data target (← delimiter[0]?) state
      else nextRecordBoundaryPattern data target delimiter state) =
      some (snapEnd delimiter data.bytes target,
        ⟨snapEnd delimiter data.bytes target, some (snapEnd delimiter data.bytes target)⟩) := by
  split
  · rename_i one
    obtain ⟨byte, rfl⟩ := List.length_eq_one_iff.mp one
    exact nextRecordBoundary_eq byte behind inside
  · exact nextRecordBoundaryPattern_eq ne behind inside

end Search

/-! ### The planner -/

/-- The lengths of files. -/
def lengths (contents : List (List UInt8)) : List Nat := contents.map List.length

/-- The contents of mapped sources. -/
def bytesOf (sources : List Slice) : List (List UInt8) := sources.map Slice.bytes

/-- The least record boundary of source `k` at or after the local target `u`. -/
def sourceSnap (contents : List (List UInt8)) (delimiter : List UInt8) (k u : Nat) : Nat :=
  snapEnd delimiter (contents.getD k []) u

/-- The cut of a logical target: a source boundary stays, any other target moves to
the least record boundary of its source. -/
def logicalSnap (contents : List (List UInt8)) (delimiter : List UInt8) (t : Nat) : Nat :=
  lineSnap (lengths contents) (sourceSnap contents delimiter) t

section Planner

variable {sources : List Slice} {contents : List (List UInt8)} {delimiter : List UInt8}
  {parts : Nat}

theorem sourceSnap_eq {k : Nat} (lt : k < contents.length) (u : Nat) :
    sourceSnap contents delimiter k u = snapEnd delimiter contents[k] u := by
  rw [sourceSnap, List.getD_eq_getElem _ _ lt]

theorem staysInside_sourceSnap (ne : delimiter ≠ []) (contents : List (List UInt8)) :
    StaysInside (lengths contents) (sourceSnap contents delimiter) := by
  intro k lt u ltU
  have ltK : k < contents.length := by simpa [lengths] using lt
  have eq : (lengths contents)[k] = contents[k].length := List.getElem_map _
  rw [eq] at ltU ⊢
  rw [sourceSnap_eq ltK]
  exact ⟨le_snapEnd ne ltU.le, snapEnd_le ne _ u⟩

/-- A cut is not behind its target, and not past the end. -/
theorem logicalSnap_forward (ne : delimiter ≠ []) (contents : List (List UInt8)) (t c : Nat)
    (lt : t < (lengths contents).sum)
    (snapped : (.ok (logicalSnap contents delimiter t) : Except String Nat) = .ok c) :
    t ≤ c ∧ c ≤ (lengths contents).sum := by
  have stays := staysInside_sourceSnap ne contents
  cases snapped
  exact ⟨le_lineSnap stays lt, lineSnap_le_sum stays lt⟩

theorem length_lengths (sources : List Slice) :
    (lengths (bytesOf sources)).length = sources.length := by
  simp [lengths, bytesOf]

theorem lengths_le (sources : List Slice) : ∀ len ∈ lengths (bytesOf sources), len ≤ usizeMax := by
  intro len mem
  obtain ⟨bytes, memBytes, rfl⟩ := List.mem_map.mp mem
  obtain ⟨source, _, rfl⟩ := List.mem_map.mp memBytes
  exact source.len_le_usizeMax

theorem lengths_bytesOf (sources : List Slice) :
    lengths (bytesOf sources) = sources.map Slice.len := by
  rw [lengths, bytesOf, List.map_map]
  rfl

/-- The prefix loop computes the prefix sums. -/
theorem prefixes_eq (sources : List Slice) :
    (forIn sources [0] fun source prefixes => do
      pushPrefix (← usizeToU128 source.len) prefixes : Exec Unit String (List Nat)) =
      if (lengths (bytesOf sources)).sum < 2 ^ 128 then
        pure (prefixSums (lengths (bytesOf sources)))
      else throw "logical dataset is too large" := by
  rw [lengths_bytesOf]
  refine forIn_pushPrefix fun source _ prefixes => ?_
  rw [usizeToU128_eq source.len_le_usizeMax, pure_bind]

/-- Every search state is behind the last cut. -/
def StatesBehind (lens : List Nat) (last : Nat) (states : List BoundarySearchState) : Prop :=
  states.length = lens.length ∧
    ∀ k u state, states[k]? = some state → last < offset lens k + u → state.Behind u

theorem StatesBehind.mono {lens : List Nat} {last last' : Nat} {states : List BoundarySearchState}
    (behind : StatesBehind lens last states) (le : last ≤ last') :
    StatesBehind lens last' states :=
  ⟨behind.1, fun k u state here past => behind.2 k u state here (le.trans_lt past)⟩

/-- The searched source: its state ends at the new cut. -/
theorem StatesBehind.set {lens : List Nat} {last k b : Nat} {states : List BoundarySearchState}
    (behind : StatesBehind lens last states) (le : last ≤ offset lens k + b) :
    StatesBehind lens (offset lens k + b) (states.set k ⟨b, some b⟩) := by
  constructor
  · rw [List.length_set]
    exact behind.1
  · intro j u state here past
    by_cases eq : k = j
    · subst eq
      have lt : k < states.length := by
        have := (List.getElem?_eq_some_iff.mp here).1
        rwa [List.length_set] at this
      rw [List.getElem?_set_self lt, Option.some.injEq] at here
      subst here
      exact BoundarySearchState.behind_of_le (by omega)
    · rw [List.getElem?_set_ne eq] at here
      exact behind.2 j u state here (le.trans_lt past)

theorem projectLogicalTarget_simulates (ne : delimiter ≠ [])
    (fits : (lengths (bytesOf sources)).sum < 2 ^ 128) (t last : Nat)
    (states : List BoundarySearchState)
    (s : Unit) (behind : StatesBehind (lengths (bytesOf sources)) last states) (ahead : last < t)
    (lt : t < (lengths (bytesOf sources)).sum) :
    Ensures
      (projectLogicalTarget (prefixSums (lengths (bytesOf sources))) sources delimiter t states) s
      fun r _ => Agree (fun c p => p.1 = c ∧ StatesBehind (lengths (bytesOf sources)) c p.2)
        (.ok (logicalSnap (bytesOf sources) delimiter t) : Except String Nat) r := by
  rw [projectLogicalTarget]
  by_cases mem : t ∈ prefixSums (lengths (bytesOf sources))
  · rw [if_pos mem, logicalSnap, lineSnap_offset mem]
    exact Ensures.pure ⟨rfl, behind.mono ahead.le⟩
  · obtain ⟨k, inside⟩ := exists_inside mem lt
    have ltK : k < sources.length := length_lengths sources ▸ inside.lt_length
    have ltStates : k < states.length := by rw [behind.1]; exact inside.lt_length
    have localLt : t - offset (lengths (bytesOf sources)) k < sources[k].len := by
      simpa [lengths, bytesOf, Slice.len] using inside.lt_len inside.lt_length
    have stateBehind := behind.2 k (t - offset (lengths (bytesOf sources)) k) states[k]
      (List.getElem?_eq_getElem ltStates) (by
        have := inside.1
        omega)
    have snap : logicalSnap (bytesOf sources) delimiter t =
        offset (lengths (bytesOf sources)) k +
          snapEnd delimiter sources[k].bytes (t - offset (lengths (bytesOf sources)) k) := by
      rw [logicalSnap, lineSnap_inside inside, sourceSnap_eq (by simpa [bytesOf] using ltK)]
      simp [bytesOf]
    have forward := logicalSnap_forward ne (bytesOf sources) t _ lt rfl
    have le : snapEnd delimiter sources[k].bytes (t - offset (lengths (bytesOf sources)) k) ≤
        sources[k].len := snapEnd_le ne _ _
    have noOverflow : checkedAddU128 (offset (lengths (bytesOf sources)) k)
        (snapEnd delimiter sources[k].bytes (t - offset (lengths (bytesOf sources)) k)) =
        some (logicalSnap (bytesOf sources) delimiter t) := by
      rw [snap]
      exact if_pos ((snap ▸ forward.2).trans_lt fits)
    rw [if_neg mem, locateSource_eq inside, pure_bind]
    dsimp only
    rw [localTarget_eq (lengths_le sources) inside, pure_bind, List.getElem?_eq_getElem ltK,
      okOr_some, pure_bind, List.getElem?_eq_getElem ltStates, okOr_some, pure_bind,
      localBoundary_eq ne stateBehind localLt.le, orPanic_some, pure_bind]
    dsimp only
    rw [usizeToU128_eq (le.trans sources[k].len_le_usizeMax), pure_bind, noOverflow, orPanic_some,
      pure_bind]
    refine Ensures.pure ⟨rfl, ?_⟩
    rw [snap] at forward ⊢
    exact behind.set (ahead.le.trans forward.1)

/-- States that no search has touched are behind every cut. -/
theorem statesBehind_initial {lens : List Nat} {states : List BoundarySearchState}
    (len : states.length = lens.length) (untouched : ∀ state ∈ states, state = .initial)
    (last : Nat) : StatesBehind lens last states := by
  refine ⟨len, fun k u state here _ => ?_⟩
  rw [untouched state (List.mem_of_getElem? here)]
  exact BoundarySearchState.behind_initial u

/-- The states the planner starts with. -/
theorem statesBehind_start (sources : List Slice) (last : Nat) :
    StatesBehind (lengths (bytesOf sources)) last (List.replicate sources.length .initial) := by
  apply statesBehind_initial
  · rw [List.length_replicate, length_lengths]
  · exact fun state mem => List.eq_of_mem_replicate mem

/-- With every boundary search that agrees with the snap under an invariant, the planner
computes the abstract result. -/
theorem planWith_ensures {τ : Type} (sources : List Slice) (parts : Nat) (ne : delimiter ≠ [])
    {project : List Nat → Nat → τ → Exec Unit String (Nat × τ)} (inv : Nat → τ → Prop)
    (simulates : (lengths (bytesOf sources)).sum < 2 ^ 128 → ∀ t last search s,
      inv last search → last < t → t < (lengths (bytesOf sources)).sum →
      Ensures (project (prefixSums (lengths (bytesOf sources))) t search) s fun r _ =>
        Agree (fun c p => p.1 = c ∧ inv c p.2)
          (.ok (logicalSnap (bytesOf sources) delimiter t) : Except String Nat) r)
    {search : τ} (start : inv 0 search) :
    Ensures (do
      if parts = 0 then return []
      let prefixes ← forIn sources [0] fun source prefixes => do
        pushPrefix (← usizeToU128 source.len) prefixes
      planTargets (project prefixes) search prefixes sources.length parts) () fun r _ =>
        r = logicalResult (lengths (bytesOf sources)) parts
          fun t => .ok (logicalSnap (bytesOf sources) delimiter t) := by
  rw [logicalResult]
  by_cases zero : parts = 0
  · rw [if_pos zero, if_pos zero]
    exact Ensures.pure rfl
  rw [if_neg zero, if_neg zero, prefixes_eq]
  by_cases fits : (lengths (bytesOf sources)).sum < 2 ^ 128
  · rw [if_pos fits, if_pos fits, pure_bind, ← length_lengths sources]
    exact planTargets_simulates (fun last search _ => inv last search) (lengths_le sources)
      (logicalSnap_forward ne _) (simulates fits) start
  · rw [if_neg fits, if_neg fits, throw_bind]
    exact Ensures.throw rfl

/-- The mapped planner computes the abstract result. -/
theorem planLogicalPartitions_ensures (sources : List Slice) (parts : Nat)
    (ne : delimiter ≠ []) :
    Ensures (planLogicalPartitions sources parts delimiter) () fun r _ =>
      r = logicalResult (lengths (bytesOf sources)) parts
        fun t => .ok (logicalSnap (bytesOf sources) delimiter t) := by
  apply planWith_ensures sources parts ne (StatesBehind (lengths (bytesOf sources)))
  · intro fits t last states s
    exact projectLogicalTarget_simulates ne fits t last states s
  · exact statesBehind_start sources 0

/-- The intervals of the workers, in logical positions. -/
def logicalIntervals (contents : List (List UInt8)) (parts : Nat) (delimiter : List UInt8) :
    List (Nat × Nat) :=
  plan (logicalSnap contents delimiter)
    (evenTargets (lengths contents).sum (min parts (lengths contents).sum)) 0 (lengths contents).sum

theorem lt_of_mem_logicalTargets {t : Nat}
    (mem : t ∈ evenTargets (lengths contents).sum (min parts (lengths contents).sum)) :
    t < (lengths contents).sum := by
  by_cases pos : 0 < (lengths contents).sum
  · exact lt_of_mem_evenTargets pos mem
  · obtain ⟨i, low, lt, _⟩ := mem_evenTargets.mp mem
    omega

theorem tiles_logicalIntervals (ne : delimiter ≠ []) (contents : List (List UInt8)) (parts : Nat) :
    Tiles 0 (lengths contents).sum (logicalIntervals contents parts delimiter) :=
  have stays := staysInside_sourceSnap ne contents
  tiles_plan (Nat.zero_le _) (fun _ mem => le_lineSnap stays (lt_of_mem_logicalTargets mem))
    fun _ mem => lineSnap_le_sum stays (lt_of_mem_logicalTargets mem)

/-- When no target overflows the mapped planner returns one worker for each interval. -/
theorem planLogicalPartitions_returns_of_products (sources : List Slice) {parts : Nat}
    (pos : 1 ≤ parts)
    (ne : delimiter ≠ []) (fits : (lengths (bytesOf sources)).sum < 2 ^ 128)
    (products : ∀ i < effectiveParts parts (lengths (bytesOf sources)).sum,
      (lengths (bytesOf sources)).sum * i < 2 ^ 128) :
    Returns (planLogicalPartitions sources parts delimiter) () fun assignments _ =>
      assignments = assignmentsOf (lengths (bytesOf sources))
        (plan (logicalSnap (bytesOf sources) delimiter)
          (evenTargets (lengths (bytesOf sources)).sum
            (effectiveParts parts (lengths (bytesOf sources)).sum))
          0 (lengths (bytesOf sources)).sum) := by
  obtain ⟨r, s, run, eq⟩ := planLogicalPartitions_ensures sources parts ne
  have planned : logicalPlan (lengths (bytesOf sources)) parts
      (fun t => .ok (logicalSnap (bytesOf sources) delimiter t)) = .ok _ :=
    logicalPlan_eq_of_products products (fun _ _ => rfl)
      fun t lt => logicalSnap_forward ne _ t _ lt rfl
  rw [logicalResult, if_neg (by omega), if_pos fits, planned] at eq
  exact ⟨_, s, by rw [run, eq], rfl⟩

/-- Over sources that fit the address space these are the intervals of at most one part
per byte. -/
theorem planLogicalPartitions_returns (sources : List Slice) (pos : 1 ≤ parts)
    (ne : delimiter ≠ []) (fits : (lengths (bytesOf sources)).sum ≤ usizeMax) :
    Returns (planLogicalPartitions sources parts delimiter) () fun assignments _ =>
      assignments = assignmentsOf (lengths (bytesOf sources))
        (logicalIntervals (bytesOf sources) parts delimiter) := by
  have returns := planLogicalPartitions_returns_of_products sources pos ne
    (fits.trans_lt (by decide)) fun i lt => products_lt fits lt
  rwa [effectiveParts_eq fits] at returns

/-- **Planning in memory never fails** while the product of the total length and the
number of parts stays below 128 bits: no error branch is reached and no index or slice
expression panics, in any state the targets before left the searches in. -/
theorem planning_never_fails (sources : List Slice) (parts : Nat) (pos : 1 ≤ parts)
    (delimiter : List UInt8) (ne : delimiter ≠ [])
    (fits : (sources.map Slice.len).sum * parts < 2 ^ 128) :
    Returns (planLogicalPartitions sources parts delimiter) () fun assignments _ =>
      assignments = assignmentsOf (sources.map Slice.len)
        (plan (logicalSnap (bytesOf sources) delimiter)
          (evenTargets (sources.map Slice.len).sum
            (effectiveParts parts (sources.map Slice.len).sum))
          0 (sources.map Slice.len).sum) := by
  rw [← lengths_bytesOf] at fits ⊢
  have total : (lengths (bytesOf sources)).sum < 2 ^ 128 :=
    (Nat.le_mul_of_pos_right _ pos).trans_lt fits
  apply planLogicalPartitions_returns_of_products sources pos ne total
  intro i lt
  have inParts : i ≤ parts := lt.le.trans (Nat.min_le_left _ _)
  exact (Nat.mul_le_mul_left _ inParts).trans_lt fits

/-- Two sources in more parts than they have bytes. -/
theorem planning_never_fails_twoRecords :
    1 ≤ 9 ∧ [(10 : UInt8)] ≠ [] ∧
      ([Scanner.twoRecords, Scanner.twoRecords].map Slice.len).sum * 9 < 2 ^ 128 ∧
      Returns (planLogicalPartitions [Scanner.twoRecords, Scanner.twoRecords] 9 [10]) ()
        fun _ _ => True :=
  ⟨by decide, by decide, by decide,
    (planning_never_fails _ 9 (by decide) [10] (by decide) (by decide)).mono
      fun _ _ _ => trivial⟩

end Planner

/-! ### One file -/

section Single

variable {xs delimiter : List UInt8} {parts : Nat}

/-- The assignments of one file: each range is a worker of its own. -/
def singleFile (ranges : List (Nat × Nat)) : List WorkerAssignment :=
  ranges.mapIdx fun i r => ⟨i, [⟨0, r.1, r.2, r.2 - r.1⟩]⟩

theorem logicalIntervals_single (ne : delimiter ≠ []) :
    logicalIntervals [xs] parts delimiter = Scanner.partitionPlan xs parts delimiter := by
  have sum : (lengths [xs]).sum = xs.length := by simp [lengths]
  have stays := staysInside_sourceSnap ne [xs]
  have agree : ∀ t ∈ evenTargets (lengths [xs]).sum (min parts (lengths [xs]).sum), 0 < t →
      logicalSnap [xs] delimiter t = snapEnd delimiter xs t := by
    intro t mem pos
    have lt := lt_of_mem_logicalTargets mem
    rw [sum] at lt
    have inside : Inside (lengths [xs]) 0 t := ⟨pos, by simpa [offset, lengths] using lt⟩
    rw [logicalSnap, lineSnap_inside inside, sourceSnap_eq (Nat.zero_lt_one), offset_zero]
    simp
  rw [logicalIntervals, plan, walk_congr agree fun t mem =>
    le_lineSnap stays (lt_of_mem_logicalTargets mem), sum]
  rfl

theorem pieces_single {r : Nat × Nat} (lt : r.1 < r.2) (le : r.2 ≤ xs.length) :
    pieces (lengths [xs]) r = [(0, r)] := by
  have clipped : localClip (lengths [xs]) 0 r = some r := by
    refine localClip_eq_some.mpr ?_
    have start : offset (lengths [xs]) 0 = 0 := rfl
    have stop : offset (lengths [xs]) (0 + 1) = xs.length := by simp [offset, lengths]
    rw [start, stop, Nat.max_eq_left (Nat.zero_le _), Nat.min_eq_left le]
    exact ⟨lt, rfl⟩
  have one : (lengths [xs]).length = 1 := rfl
  rw [pieces, one, List.range_one, List.filterMap_cons, clipped]
  rfl

theorem assignmentsOf_single (ne : delimiter ≠ []) :
    assignmentsOf (lengths [xs]) (logicalIntervals [xs] parts delimiter) =
      singleFile (Scanner.partitionPlan xs parts delimiter) := by
  rw [logicalIntervals_single ne, assignmentsOf, singleFile]
  refine List.mapIdx_eq_mapIdx_iff.mpr fun i lt => ?_
  have tiles := Scanner.tiles_partitionPlan ne xs parts
  obtain ⟨_, nonempty, le⟩ := tiles.bounds (List.getElem_mem lt)
  exact congrArg (fun ps => WorkerAssignment.mk i (ps.map toSourceRange))
    (pieces_single nonempty le)

end Single

/-- **`partition-files` on one file and `partition` on it agree.** The workers are the
ranges of the library's planner, in order, worker `i` with range `i`. -/
theorem single_source_agrees (data : Slice) (parts : Nat) (pos : 1 ≤ parts) :
    (∀ delimiter : UInt8,
        ∃ ranges, Scanner.findPartitionBoundaries data parts delimiter = some ranges ∧
          Returns (planLogicalPartitions [data] parts [delimiter]) () fun assignments _ =>
            assignments = singleFile ranges) ∧
      ∀ delimiter : List UInt8, delimiter ≠ [] →
        ∃ ranges, Scanner.findPartitionBoundariesPattern data parts delimiter = some ranges ∧
          Returns (planLogicalPartitions [data] parts delimiter) () fun assignments _ =>
            assignments = singleFile ranges := by
  have fits : (lengths (bytesOf [data])).sum ≤ usizeMax := by
    simpa [lengths, bytesOf, Slice.len] using data.len_le_usizeMax
  have agrees : ∀ delimiter : List UInt8, delimiter ≠ [] →
      Returns (planLogicalPartitions [data] parts delimiter) () fun assignments _ =>
        assignments = singleFile (Scanner.partitionPlan data.bytes parts delimiter) := by
    intro delimiter ne
    refine (planLogicalPartitions_returns [data] pos ne fits).mono fun _ _ eq => ?_
    rw [eq]
    exact assignmentsOf_single ne
  exact ⟨fun delimiter => ⟨_, Scanner.findPartitionBoundaries_eq data pos delimiter,
      agrees [delimiter] (List.cons_ne_nil _ _)⟩,
    fun delimiter ne => ⟨_, Scanner.findPartitionBoundariesPattern_eq data pos ne,
      agrees delimiter ne⟩⟩

/-- The two records of `Scanner.twoRecords`, one for each worker. -/
theorem single_source_agrees_twoRecords :
    1 ≤ 2 ∧ Returns (planLogicalPartitions [Scanner.twoRecords] 2 [10]) () fun assignments _ =>
      assignments = [⟨0, [⟨0, 0, 2, 2⟩]⟩, ⟨1, [⟨0, 2, 4, 2⟩]⟩] := by
  have run : Scanner.findPartitionBoundaries Scanner.twoRecords 2 10 = some [(0, 2), (2, 4)] := by
    decide +kernel
  obtain ⟨ranges, eq, agrees⟩ := (single_source_agrees Scanner.twoRecords 2 (by decide)).1 10
  rw [run, Option.some.injEq] at eq
  subst eq
  exact ⟨by decide, agrees⟩

/-! ### Any number of files -/

/-- The rows of an output, in order. -/
def rowsOf (assignments : List WorkerAssignment) : List SourceRange :=
  assignments.flatMap WorkerAssignment.ranges

/-- The ranges a list of rows takes from source `k`. -/
def rangesOfSource (k : Nat) (rows : List SourceRange) : List (Nat × Nat) :=
  rows.filterMap fun row =>
    if row.sourceIndex = k then some (row.start, row.endExclusive) else none

/-- `p` is the start or the end of a file, or the end of a delimiter inside it. -/
def RecordBoundary (delimiter : List UInt8) (source : Slice) (p : Nat) : Prop :=
  p = 0 ∨ p = source.len ∨ EndsAt delimiter source.bytes p

/-- What a consumer of `partition-files` may rely on. -/
structure LogicalContract (sources : List Slice) (parts : Nat) (delimiter : List UInt8)
    (assignments : List WorkerAssignment) : Prop where
  worker_index : assignments.map WorkerAssignment.workerIndex = List.range assignments.length
  workers_le : assignments.length ≤ parts
  no_worker_iff : assignments = [] ↔ ∀ source ∈ sources, source.len = 0
  worker_nonempty : ∀ worker ∈ assignments, worker.ranges ≠ []
  source_increasing : ∀ worker ∈ assignments,
    (worker.ranges.map SourceRange.sourceIndex).Pairwise (· < ·)
  row_ok : ∀ row ∈ rowsOf assignments, ∃ source, sources[row.sourceIndex]? = some source ∧
    row.start < row.endExclusive ∧ row.endExclusive ≤ source.len ∧
    row.length = row.endExclusive - row.start ∧
    RecordBoundary delimiter source row.start ∧ RecordBoundary delimiter source row.endExclusive
  sources_in_order : ((rowsOf assignments).map SourceRange.sourceIndex).Pairwise (· ≤ ·)
  covered : ∀ k source, sources[k]? = some source →
    Tiles 0 source.len (rangesOfSource k (rowsOf assignments))

section Contract

variable {sources : List Slice} {contents : List (List UInt8)} {delimiter : List UInt8}
  {parts k : Nat}

/-- A cut inside a file is the end of a delimiter of that file. -/
theorem endsAt_of_inside (ne : delimiter ≠ []) {t : Nat} (lt : t < (lengths contents).sum)
    (inside : Inside (lengths contents) k (logicalSnap contents delimiter t)) :
    ∃ ltK : k < contents.length, EndsAt delimiter contents[k]
      (logicalSnap contents delimiter t - offset (lengths contents) k) := by
  have stays := staysInside_sourceSnap ne contents
  have ltK : k < contents.length := by simpa [lengths] using inside.lt_length
  have within := inside_of_lineSnap stays lt inside
  have lt_length := inside.lt_length
  have local_lt := inside.lt_len lt_length
  have len : (lengths contents)[k] = contents[k].length := List.getElem_map _
  have snap : logicalSnap contents delimiter t - offset (lengths contents) k =
      snapEnd delimiter contents[k] (t - offset (lengths contents) k) := by
    rw [logicalSnap, lineSnap_inside within, Nat.add_sub_cancel_left, sourceSnap_eq ltK]
  rw [len, snap] at local_lt
  exact ⟨ltK, snap ▸ endsAt_snapEnd ne local_lt⟩

/-- An end of an interval that lies inside a file is the end of a delimiter there. -/
theorem endsAt_of_interval_end (ne : delimiter ≠ []) {s e : Nat}
    (mem : (s, e) ∈ logicalIntervals contents parts delimiter)
    (inside : Inside (lengths contents) k e) :
    ∃ ltK : k < contents.length,
      EndsAt delimiter contents[k] (e - offset (lengths contents) k) := by
  have stays := staysInside_sourceSnap ne contents
  obtain ⟨t, memT, _, rfl⟩ := exists_target_of_mem_plan
    (fun _ mem => le_lineSnap stays (lt_of_mem_logicalTargets mem)) mem inside.lt_sum
  exact endsAt_of_inside ne (lt_of_mem_logicalTargets memT) inside

/-- The same for a start, which is the end of the interval before. -/
theorem endsAt_of_interval_start (ne : delimiter ≠ []) {s e : Nat}
    (mem : (s, e) ∈ logicalIntervals contents parts delimiter)
    (inside : Inside (lengths contents) k s) :
    ∃ ltK : k < contents.length,
      EndsAt delimiter contents[k] (s - offset (lengths contents) k) := by
  rcases (tiles_logicalIntervals ne contents parts).start_eq_or_end mem with rfl | ⟨s', mem'⟩
  · exact absurd inside.1 (Nat.not_lt_zero _)
  · exact endsAt_of_interval_end ne mem' inside

theorem rowsOf_assignmentsOf (lens : List Nat) (intervals : List (Nat × Nat)) :
    rowsOf (assignmentsOf lens intervals) =
      (intervals.flatMap (pieces lens)).map toSourceRange := by
  have general : ∀ (rs : List (Nat × Nat)) (n : Nat),
      (rs.mapIdx fun i => toWorker lens (i + n)).flatMap WorkerAssignment.ranges =
        (rs.flatMap (pieces lens)).map toSourceRange := by
    intro rs
    induction rs with
    | nil => intro n; rfl
    | cons r rs ih =>
        intro n
        have tail := ih (n + 1)
        simp only [List.mapIdx_cons, List.flatMap_cons, List.map_append, Nat.add_assoc,
          Nat.add_comm 1 n] at tail ⊢
        rw [tail]
        rfl
  exact general intervals 0

/-- The rows of a tiling tile every source. -/
theorem covered_assignmentsOf {lens : List Nat} {intervals : List (Nat × Nat)} {len : Nat}
    (tiles : Tiles 0 lens.sum intervals) (here : lens[k]? = some len) :
    Tiles 0 len (rangesOfSource k (rowsOf (assignmentsOf lens intervals))) := by
  obtain ⟨lt, rfl⟩ := List.getElem?_eq_some_iff.mp here
  rw [rowsOf_assignmentsOf, rangesOfSource, List.filterMap_map]
  exact tiles_pieces tiles lt

theorem mem_assignmentsOf {lens : List Nat} {intervals : List (Nat × Nat)}
    {worker : WorkerAssignment} (mem : worker ∈ assignmentsOf lens intervals) :
    ∃ i, ∃ r ∈ intervals, worker = toWorker lens i r := by
  obtain ⟨i, lt, rfl⟩ := List.mem_mapIdx.mp mem
  exact ⟨i, _, List.getElem_mem lt, rfl⟩

/-- A row of the plan, with its boundaries. -/
theorem row_ok_of_mem (ne : delimiter ≠ []) {row : SourceRange}
    (mem : row ∈ rowsOf (assignmentsOf (lengths (bytesOf sources))
      (logicalIntervals (bytesOf sources) parts delimiter))) :
    ∃ source, sources[row.sourceIndex]? = some source ∧ row.start < row.endExclusive ∧
      row.endExclusive ≤ source.len ∧ row.length = row.endExclusive - row.start ∧
      RecordBoundary delimiter source row.start ∧
      RecordBoundary delimiter source row.endExclusive := by
  rw [rowsOf_assignmentsOf, List.mem_map] at mem
  obtain ⟨⟨k, p⟩, mem, rfl⟩ := mem
  obtain ⟨⟨s, e⟩, memR, memP⟩ := List.mem_flatMap.mp mem
  obtain ⟨lt, clipped⟩ := mem_pieces.mp memP
  have ltK : k < sources.length := length_lengths sources ▸ lt
  have len : (lengths (bytesOf sources))[k] = sources[k].len := by
    simp [lengths, bytesOf, Slice.len]
  have bytes : ∀ h : k < (bytesOf sources).length, (bytesOf sources)[k] = sources[k].bytes :=
    fun _ => List.getElem_map _
  obtain ⟨nonempty, le⟩ := localClip_bounds lt clipped
  refine ⟨sources[k], List.getElem?_eq_getElem ltK, nonempty, len ▸ le, rfl, ?_, ?_⟩
  · rcases localClip_start clipped with zero | ⟨inside, eq⟩
    · exact .inl zero
    · obtain ⟨h, ends⟩ := endsAt_of_interval_start ne memR inside
      rw [bytes h, ← eq] at ends
      exact .inr (.inr ends)
  · rcases localClip_end lt clipped with atEnd | ⟨inside, eq⟩
    · exact .inr (.inl (atEnd.trans len))
    · obtain ⟨h, ends⟩ := endsAt_of_interval_end ne memR inside
      rw [bytes h, ← eq] at ends
      exact .inr (.inr ends)

theorem logicalPlan_contract (sources : List Slice) (pos : 1 ≤ parts) (ne : delimiter ≠ []) :
    LogicalContract sources parts delimiter (assignmentsOf (lengths (bytesOf sources))
      (logicalIntervals (bytesOf sources) parts delimiter)) := by
  have tiles := tiles_logicalIntervals ne (bytesOf sources) parts
  refine
    { worker_index := ?_, workers_le := ?_, no_worker_iff := ?_, worker_nonempty := ?_
      source_increasing := ?_, row_ok := fun row mem => row_ok_of_mem ne mem
      sources_in_order := ?_, covered := ?_ }
  · refine List.ext_getElem (by simp) fun i _ _ => ?_
    simp [assignmentsOf, toWorker]
  · have bound := length_plan_le (logicalSnap (bytesOf sources) delimiter)
      (evenTargets (lengths (bytesOf sources)).sum (min parts (lengths (bytesOf sources)).sum)) 0
      (lengths (bytesOf sources)).sum
    rw [length_evenTargets] at bound
    rw [assignmentsOf, List.length_mapIdx, logicalIntervals]
    omega
  · rw [assignmentsOf, List.mapIdx_eq_nil_iff, tiles.eq_nil_iff, eq_comm,
      List.sum_eq_zero_iff_forall_eq_nat]
    simp [lengths, bytesOf, Slice.len]
  · intro worker mem
    obtain ⟨i, ⟨s, e⟩, memR, rfl⟩ := mem_assignmentsOf mem
    obtain ⟨_, nonempty, le⟩ := tiles.bounds memR
    simpa [toWorker] using pieces_ne_nil (r := (s, e)) nonempty le
  · intro worker mem
    obtain ⟨i, r, _, rfl⟩ := mem_assignmentsOf mem
    rw [toWorker, List.map_map]
    exact pieces_increasing _ r
  · rw [rowsOf_assignmentsOf, List.map_map]
    exact ordered_pieces tiles
  · intro k source here
    apply covered_assignmentsOf tiles
    rw [lengths_bytesOf, List.getElem?_map, here, Option.map_some]

end Contract

/-- **Multi-file planning covers every source in order.** For every list of sources
of a total length below `2 ^ 64`, every positive count and every non-empty delimiter
the planner returns assignments that meet the contract. -/
theorem assignments_cover_sources (sources : List Slice) (parts : Nat) (delimiter : List UInt8)
    (fits : (sources.map Slice.len).sum < 2 ^ 64) (pos : 1 ≤ parts) (ne : delimiter ≠ []) :
    Returns (planLogicalPartitions sources parts delimiter) () fun assignments _ =>
      LogicalContract sources parts delimiter assignments := by
  have small : (lengths (bytesOf sources)).sum ≤ usizeMax := by
    rw [lengths_bytesOf]
    exact Nat.le_pred_of_lt fits
  refine (planLogicalPartitions_returns sources pos ne small).mono fun _ _ eq => ?_
  rw [eq]
  exact logicalPlan_contract sources pos ne

/-- Two records, an empty file, and one record. -/
def threeSources : List Slice := [Scanner.twoRecords, ⟨0, [], by decide⟩, ⟨8, [99, 10], by decide⟩]

theorem assignments_cover_sources_threeSources :
    (threeSources.map Slice.len).sum < 2 ^ 64 ∧ 1 ≤ 2 ∧ [(10 : UInt8)] ≠ [] ∧
      Returns (planLogicalPartitions threeSources 2 [10]) () fun assignments _ =>
        LogicalContract threeSources 2 [10] assignments :=
  ⟨by decide, by decide, by decide,
    assignments_cover_sources threeSources 2 [10] (by decide) (by decide) (by decide)⟩

/-- The target lies in the second record and moves to the end of the first file. -/
example : runFrom (planLogicalPartitions threeSources 2 [10]) () =
    some (.ok [⟨0, [⟨0, 0, 4, 4⟩]⟩, ⟨1, [⟨2, 0, 2, 2⟩]⟩], ()) := by decide +kernel

end Cli
