import MmapChunker.Scanner.Partition
import MmapChunker.Source.ByteSource

/-!
Partitioning a byte source (`src/source.rs`).

`findPatternFrom` is the buffered search with the growing probe: fill a window, search
it, advance past what was searched but for `dlen - 1` bytes. `planPartitionBoundaries`
is the planner over it, with its buffer reservation.

* `findPatternFrom_outcome`: over every source that conforms the search returns the
  reference search on the whole file, unless a read fails. The loop invariant is that no
  occurrence starts between `from` and the window.
* `plan_matches_slice_planner`: the planner returns what the slice planner returns.
-/

namespace Source

open Machine Occurrence TargetWalk Exec Scanner

/-! ### Source -/

/-- `ADAPTIVE_INITIAL_PROBE_BYTES`. -/
def adaptiveInitialProbeBytes : Nat := 4096

section Source

variable {σ : Type}

/-- The next probe length: doubled after a miss, up to the buffer. -/
def nextProbe (probeLen maxProbe : Nat) : Nat :=
  if probeLen < maxProbe then min (saturatingMul probeLen 2) maxProbe else probeLen

/-- How far the window moves after a miss in `read` bytes. -/
def advance (read dlen : Nat) : Nat := max (read - (dlen - 1)) 1

/-- The loop of `find_pattern_from`. -/
def probeLoop (source : ByteSource σ) (delimiter : List UInt8) (maxProbe probeLen offset : Nat)
    (buffer : Slice) : Exec σ IoError (Option Nat × Slice) := do
  if source.len ≤ offset then return (none, buffer)
  let want := min probeLen (source.len - offset)
  let (read, buffer) ← fillWindow source offset want 0 buffer
  if read = 0 then return (none, buffer)
  let window ← orPanic (buffer.range 0 read)
  match ← orPanic (findPatternInSlice window delimiter) with
  | some position => return (some (offset + position), buffer)
  | none =>
      if source.len ≤ saturatingAdd offset read then return (none, buffer)
      probeLoop source delimiter maxProbe (nextProbe probeLen maxProbe)
        (saturatingAdd offset (advance read delimiter.length)) buffer
termination_by source.len - offset
decreasing_by
  have small := source.len_le
  have progress : 1 ≤ advance read delimiter.length := Nat.le_max_right _ _
  unfold saturatingAdd
  omega

/-- `find_pattern_from`, with the buffer it leaves. -/
def findPatternFrom (source : ByteSource σ) (start : Nat) (delimiter : List UInt8)
    (buffer : Slice) : Exec σ IoError (Option Nat × Slice) := do
  if buffer.len = 0 ∨ delimiter.length = 0 then return (none, buffer)
  let maxProbe := buffer.len
  let probeLen := min (max delimiter.length adaptiveInitialProbeBytes) maxProbe
  probeLoop source delimiter maxProbe probeLen start buffer

/-- The exact-target check of `plan_partition_boundaries`: are the bytes right before
the target a complete delimiter? -/
def followsDelimiterIn (source : ByteSource σ) (delimiter : List UInt8) (target : Nat)
    (buffer : Slice) : Exec σ IoError (Bool × Slice) := do
  if delimiter.length ≤ target then
    let (tailRead, buffer) ←
      fillWindow source (target - delimiter.length) delimiter.length 0 buffer
    if tailRead = delimiter.length then
      let tail ← orPanic (buffer.range 0 delimiter.length)
      return (tail.bytes = delimiter, buffer)
    else return (false, buffer)
  else return (false, buffer)

/-- One iteration of the loop of `plan_partition_boundaries`. -/
def streamStep (source : ByteSource σ) (n : Nat) (delimiter : List UInt8) (i : Nat)
    (st : WalkState Nat × Slice) : Exec σ IoError (ForInStep (WalkState Nat × Slice)) := do
  let target := partitionTarget source.len i n
  if target ≤ st.1.lastBoundary then return .yield st
  let (accepted, buffer) ← followsDelimiterIn source delimiter target st.2
  if accepted then return .yield (⟨st.1.boundaries ++ [target], target⟩, buffer)
  match ← findPatternFrom source target delimiter buffer with
  | (some position, buffer) =>
      let boundary := min (saturatingAdd position delimiter.length) source.len
      return .yield (⟨st.1.boundaries ++ [boundary], boundary⟩, buffer)
  | (none, buffer) => return .done (⟨st.1.boundaries ++ [source.len], st.1.lastBoundary⟩, buffer)

/-- `scan_buffer_bytes.max(dlen).max(1)`. -/
def bufferLen (scanBufferBytes dlen : Nat) : Nat := max (max scanBufferBytes dlen) 1

/-- A zeroed buffer of `len` bytes at an address. -/
def zeroed (addr len : Nat) (fits : len ≤ isizeMax) : Slice :=
  ⟨addr, List.replicate len 0, by rwa [List.length_replicate]⟩

/-- `plan_partition_boundaries`. `allocate len` is the address of a new block, or `none`
when the allocator refuses. -/
def planPartitionBoundaries (allocate : Nat → Option Nat) (source : ByteSource σ)
    (numPartitions : Nat) (delimiter : List UInt8) (scanBufferBytes : Nat) :
    Exec σ IoError (List (Nat × Nat)) := do
  if delimiter = [] then orPanic none else
  match source.asSlice with
  | some data => orPanic (findPartitionBoundariesPattern data numPartitions delimiter)
  | none =>
      let fileLen := source.len
      if fileLen = 0 ∨ numPartitions = 0 then return []
      if numPartitions = 1 then return [(0, fileLen)]
      let n := min numPartitions fileLen
      let bufferLen := bufferLen scanBufferBytes delimiter.length
      if fits : bufferLen ≤ isizeMax then
        match allocate bufferLen with
        | none => throw ⟨.outOfMemory, s!"failed to allocate {bufferLen}-byte scan buffer"⟩
        | some addr =>
            let (walked, _) ← forIn (List.range' 1 (n - 1))
              ((⟨[], 0⟩ : WalkState Nat), zeroed addr bufferLen fits)
              (streamStep source n delimiter)
            return rangesFromBoundaries fileLen walked.boundaries
      else throw ⟨.invalidInput,
        s!"scan buffer size {bufferLen} bytes exceeds the addressable limit"⟩

end Source

/-! ### The search -/

section Search

variable {σ : Type} {source : ByteSource σ} {inv : σ → Prop} {failed : IoError → σ → Prop}
  {file delimiter : List UInt8} {buffer : Slice} {s : σ}

theorem le_nextProbe {probeLen maxProbe : Nat} (small : maxProbe ≤ usizeMax) :
    probeLen ≤ nextProbe probeLen maxProbe := by
  unfold nextProbe saturatingMul
  split <;> omega

theorem nextProbe_le {probeLen maxProbe : Nat} (le : probeLen ≤ maxProbe) :
    nextProbe probeLen maxProbe ≤ maxProbe := by
  unfold nextProbe
  split <;> omega

/-- The window moves past all of it but the last `dlen - 1` bytes. -/
theorem advance_eq {read dlen : Nat} (pos : 0 < dlen) (le : dlen ≤ read) :
    advance read dlen = read + 1 - dlen := by
  unfold advance
  omega

/-- The loop returns the reference search from its offset: what it advances past
contains no start of an occurrence. -/
theorem probeLoop_outcome (conforms : ConformsOrFails source inv failed file) (ne : delimiter ≠ [])
    {probeLen offset : Nat} (holdsPattern : delimiter.length ≤ probeLen)
    (le : probeLen ≤ buffer.len) (good : inv s) :
    Ensures (probeLoop source delimiter buffer.len probeLen offset buffer) s
      (Outcome (fun p s' => inv s' ∧ p.1 = nextOcc delimiter file offset ∧ p.2.len = buffer.len)
        failed) := by
  have dlenPos := List.length_pos_of_ne_nil ne
  have small := source.len_le
  have lenEq := conforms.len_eq
  induction left : source.len - offset using Nat.strong_induction_on
    generalizing offset probeLen buffer s with
  | _ left ih =>
      rw [probeLoop]
      by_cases past : source.len ≤ offset
      · rw [if_pos past]
        exact Ensures.pure ⟨good, (nextOcc_eq_none ne (by omega)).symm, rfl⟩
      rw [if_neg past]
      obtain ⟨want, wantEq⟩ : ∃ want, want = min probeLen (source.len - offset) := ⟨_, rfl⟩
      rw [← wantEq]
      refine (fillWindow_outcome conforms (Nat.zero_le want) (by omega) (by omega)
        (holds_zero file offset buffer) good).andThen ?_
      rintro ⟨read, filled⟩ s' ⟨good', rfl, sameLen, holds⟩
      dsimp only at sameLen holds ⊢
      rw [if_neg (by omega), Slice.range_eq (Nat.zero_le _) holds.count_le, orPanic_some,
        pure_bind, findPatternInSlice_eq _ ne, orPanic_some, pure_bind, Nat.sub_zero,
        holds.bytes_window]
      cases found : nextOcc delimiter ((file.drop offset).take read) 0 with
      | some position =>
          exact Ensures.pure ⟨good', (nextOcc_of_window_hit ne found).symm, sameLen⟩
      | none =>
          dsimp only
          rw [saturatingAdd_eq (by omega)]
          by_cases last : source.len ≤ offset + read
          · rw [if_pos last]
            exact Ensures.pure
              ⟨good', (nextOcc_of_last_window ne found (by omega)).symm, sameLen⟩
          · have step := advance_eq dlenPos (show delimiter.length ≤ read by omega)
            rw [if_neg last, saturatingAdd_eq (by omega), step,
              nextOcc_of_window_miss ne found (by omega), ← sameLen]
            exact ih _ (by omega) (holdsPattern.trans (le_nextProbe filled.len_le_usizeMax))
              (nextProbe_le (by omega)) good' rfl

/-- `find_pattern_from` over a source that conforms is the reference search. -/
theorem findPatternFrom_outcome (conforms : ConformsOrFails source inv failed file)
    (ne : delimiter ≠ []) (holdsPattern : delimiter.length ≤ buffer.len) (start : Nat)
    (good : inv s) :
    Ensures (findPatternFrom source start delimiter buffer) s
      (Outcome (fun p s' => inv s' ∧ p.1 = nextOcc delimiter file start ∧ p.2.len = buffer.len)
        failed) := by
  have dlenPos := List.length_pos_of_ne_nil ne
  rw [findPatternFrom, if_neg (by omega)]
  exact probeLoop_outcome conforms ne (by omega) (Nat.min_le_right _ _) good

/-- The tail read decides whether the target ends a delimiter. -/
theorem followsDelimiterIn_outcome (conforms : ConformsOrFails source inv failed file)
    (holdsPattern : delimiter.length ≤ buffer.len) {target : Nat} (inside : target ≤ file.length)
    (good : inv s) :
    Ensures (followsDelimiterIn source delimiter target buffer) s
      (Outcome (fun p s' => inv s' ∧ p.1 = decide (EndsAt delimiter file target) ∧
        p.2.len = buffer.len) failed) := by
  rw [followsDelimiterIn]
  by_cases le : delimiter.length ≤ target
  · rw [if_pos le]
    refine (fillWindow_outcome conforms (Nat.zero_le _) (by omega) holdsPattern
      (holds_zero file _ buffer) good).andThen ?_
    rintro ⟨tailRead, filled⟩ s' ⟨good', rfl, sameLen, holds⟩
    dsimp only at sameLen holds ⊢
    rw [if_pos rfl, Slice.range_eq (Nat.zero_le _) holds.count_le, orPanic_some, pure_bind]
    refine Ensures.pure ⟨good', ?_, sameLen⟩
    rw [Nat.sub_zero, holds.bytes_window]
    exact decide_eq_decide.mpr (occursAt_iff_take.symm.trans (and_iff_right le).symm)
  · rw [if_neg le]
    refine Ensures.pure ⟨good, (decide_eq_false fun ends => le ends.1).symm, rfl⟩

end Search

/-! ### The planner -/

section Planner

variable {σ : Type} {source : ByteSource σ} {inv : σ → Prop} {failed : IoError → σ → Prop}
  {data : Slice} {delimiter : List UInt8} {buffer : Slice} {s : σ}

/-- One iteration is the cutting step of the slice planner. -/
theorem streamStep_outcome (conforms : ConformsOrFails source inv failed data.bytes)
    (ne : delimiter ≠ []) (holdsPattern : delimiter.length ≤ buffer.len) {n i : Nat}
    (le : n ≤ data.len) (lt : i < n) (st : WalkState Nat) (good : inv s) :
    Ensures (streamStep source n delimiter i (st, buffer)) s
      (Outcome (fun once s' => StepAgree
          (fun st' b => b.1 = st' ∧ delimiter.length ≤ b.2.len ∧ inv s')
          (fun st' b => b.1 = st' ∧ inv s')
          (walkStep (snapEnd? delimiter data.bytes) data.len (data.len * i / n) st) once)
        failed) := by
  have lenEq : source.len = data.len := conforms.len_eq
  have inside : data.len * i / n < data.len := Nat.div_lt_of_lt_mul (by
    rw [Nat.mul_comm n]
    exact Nat.mul_lt_mul_of_pos_left lt (by omega))
  simp only [streamStep, lenEq, partitionTarget_eq data.len_le_usizeMax
    (le.trans data.len_le_usizeMax) lt]
  generalize data.len * i / n = target at inside ⊢
  by_cases skip : target ≤ st.lastBoundary
  · rw [if_pos skip, walkStep_skip skip]
    exact Ensures.pure ⟨rfl, holdsPattern, good⟩
  have ahead := Nat.not_le.mp skip
  rw [if_neg skip]
  refine (followsDelimiterIn_outcome conforms holdsPattern inside.le good).andThen ?_
  rintro ⟨accepted, buffer'⟩ s' ⟨good', rfl, sameLen⟩
  dsimp only at sameLen ⊢
  by_cases ends : EndsAt delimiter data.bytes target
  · rw [if_pos (decide_eq_true ends), walkStep_cut ahead (snapEnd?_of_endsAt ends)]
    exact Ensures.pure ⟨rfl, holdsPattern.trans sameLen.ge, good'⟩
  have search := snapEnd?_of_not_endsAt ends
  rw [if_neg (by simpa using ends)]
  refine (findPatternFrom_outcome conforms ne (by omega) target good').andThen ?_
  rintro ⟨position, buffer''⟩ s'' ⟨good'', rfl, sameLen'⟩
  dsimp only at sameLen' ⊢
  cases found : nextOcc delimiter data.bytes target with
  | none =>
      rw [found] at search
      rw [walkStep_eof ahead search]
      exact Ensures.pure ⟨rfl, good''⟩
  | some position =>
      rw [found] at search
      have clamp : min (saturatingAdd position delimiter.length) data.len =
          position + delimiter.length := by
        rw [min_saturatingAdd data.len_le_usizeMax]
        exact Nat.min_eq_left (snapEnd?_le ne search)
      rw [walkStep_cut ahead search]
      dsimp only
      rw [clamp]
      exact Ensures.pure ⟨rfl, holdsPattern.trans (sameLen'.trans sameLen).ge, good''⟩

/-- The loop is the walk of the slice planner. -/
theorem streamLoop_outcome (conforms : ConformsOrFails source inv failed data.bytes)
    (ne : delimiter ≠ []) (holdsPattern : delimiter.length ≤ buffer.len) {n : Nat}
    (le : n ≤ data.len) (good : inv s) :
    Ensures (forIn (List.range' 1 (n - 1)) ((⟨[], 0⟩ : WalkState Nat), buffer)
        (streamStep source n delimiter)) s
      (Outcome (fun st s' => st.1 = Loop.runSteps
        (fun i => walkStep (snapEnd? delimiter data.bytes) data.len (data.len * i / n))
        (List.range' 1 (n - 1)) ⟨[], 0⟩ ∧ inv s') failed) := by
  -- What the rest of the walk makes of the state so far does not change.
  apply forIn_outcome (streamStep source n delimiter) fun is st s =>
    Loop.runSteps (fun i => walkStep (snapEnd? delimiter data.bytes) data.len (data.len * i / n))
      is st.1 = Loop.runSteps
        (fun i => walkStep (snapEnd? delimiter data.bytes) data.len (data.len * i / n))
        (List.range' 1 (n - 1)) ⟨[], 0⟩ ∧
      delimiter.length ≤ st.2.len ∧ inv s ∧ ∀ i ∈ is, i < n
  · rintro st s ⟨walked, -, good, -⟩
    exact ⟨walked, good⟩
  · rintro i is ⟨st, buffer⟩ s ⟨walked, roomy, good, indices⟩
    have index := indices i List.mem_cons_self
    refine (streamStep_outcome conforms ne roomy le index st good).weaken ?_
    intro once s' agree
    cases here : walkStep (snapEnd? delimiter data.bytes) data.len (data.len * i / n) st with
    | yield st' =>
        rw [here] at agree
        simp only [Loop.runSteps, here] at walked
        cases once with
        | yield b =>
            obtain ⟨rfl, roomy', good'⟩ := agree
            exact ⟨walked, roomy', good', fun j mem => indices j (List.mem_cons_of_mem _ mem)⟩
        | done b => exact agree.elim
    | done st' =>
        rw [here] at agree
        simp only [Loop.runSteps, here] at walked
        cases once with
        | yield b => exact agree.elim
        | done b =>
            obtain ⟨same, good'⟩ := agree
            exact ⟨same.trans walked, good'⟩
  · exact ⟨rfl, holdsPattern, good, fun i mem => Loop.lt_of_mem_indices mem⟩

/-- The allocator grants a buffer of `len` bytes. -/
structure Allocates (allocate : Nat → Option Nat) (len : Nat) : Prop where
  fits : len ≤ isizeMax
  granted : (allocate len).isSome = true

/-- The scan buffer holds a delimiter. -/
theorem le_len_zeroed (addr scanBufferBytes dlen : Nat)
    (fits : bufferLen scanBufferBytes dlen ≤ isizeMax) :
    dlen ≤ (zeroed addr (bufferLen scanBufferBytes dlen) fits).len := by
  unfold Slice.len zeroed
  rw [List.length_replicate]
  unfold bufferLen
  omega

/-- A buffer of `len` bytes is not granted. -/
def NotAllocated (allocate : Nat → Option Nat) (len : Nat) (e : IoError) : Prop :=
  (isizeMax < len ∧
    e = ⟨.invalidInput, s!"scan buffer size {len} bytes exceeds the addressable limit"⟩) ∨
  (allocate len = none ∧ e = ⟨.outOfMemory, s!"failed to allocate {len}-byte scan buffer"⟩)

/-- The planner computes the abstract plan of the file, unless a read or the allocation
fails. -/
theorem planPartitionBoundaries_outcome (conforms : ConformsOrFails source inv failed data.bytes)
    (good : inv s) (parts : Nat) (ne : delimiter ≠ []) (scanBufferBytes : Nat)
    (allocate : Nat → Option Nat) :
    Ensures (planPartitionBoundaries allocate source parts delimiter scanBufferBytes) s
      (Outcome
        (fun ranges s' =>
          findPartitionBoundariesPattern data parts delimiter = some ranges ∧ inv s')
        fun e s' => failed e s' ∨
          NotAllocated allocate (bufferLen scanBufferBytes delimiter.length) e ∧ inv s') := by
  have lenEq : source.len = data.len := conforms.len_eq
  rw [planPartitionBoundaries, if_neg ne, conforms.no_slice]
  dsimp only
  rw [lenEq]
  by_cases zero : parts = 0
  · rw [if_pos (.inr zero), zero, findPartitionBoundariesPattern_zero data ne]
    exact Ensures.pure ⟨rfl, good⟩
  rw [findPartitionBoundariesPattern_eq data (Nat.pos_of_ne_zero zero) ne]
  by_cases empty : data.len = 0
  · rw [if_pos (.inl empty), partitionPlan_empty parts delimiter empty]
    exact Ensures.pure ⟨rfl, good⟩
  rw [if_neg (not_or.mpr ⟨empty, zero⟩)]
  by_cases one : parts = 1
  · rw [if_pos one, one, partitionPlan_one delimiter (Nat.pos_of_ne_zero empty)]
    exact Ensures.pure ⟨rfl, good⟩
  rw [if_neg one]
  by_cases fits : bufferLen scanBufferBytes delimiter.length ≤ isizeMax
  · rw [dif_pos fits]
    cases granted : allocate (bufferLen scanBufferBytes delimiter.length) with
    | none => exact Ensures.throw (.inr ⟨.inr ⟨granted, rfl⟩, good⟩)
    | some addr =>
        dsimp only
        have loop := streamLoop_outcome conforms ne
          (le_len_zeroed addr scanBufferBytes delimiter.length fits)
          (Nat.min_le_right parts data.len) good
        refine (loop.orElse fun _ _ error => .inl error).andThen ?_
        rintro ⟨st, buffer⟩ s' ⟨walked, good'⟩
        obtain rfl : st = _ := walked
        have ranges := rangesFromBoundaries_runSteps data.bytes delimiter (min parts data.len)
        exact Ensures.pure ⟨congrArg some ranges.symm, good'⟩
  · rw [dif_neg fits]
    exact Ensures.throw (.inr ⟨.inl ⟨Nat.not_le.mp fits, rfl⟩, good⟩)

theorem Allocates.not_refused {allocate : Nat → Option Nat} {len : Nat}
    (allocates : Allocates allocate len) (e : IoError) : ¬NotAllocated allocate len e := by
  rintro (⟨large, -⟩ | ⟨refused, -⟩)
  · exact absurd allocates.fits (Nat.not_le.mpr large)
  · have granted := allocates.granted
    rw [refused] at granted
    cases granted

theorem planPartitionBoundaries_returns (conforms : Conforms source inv data.bytes)
    (good : inv s) (parts : Nat) (ne : delimiter ≠ []) {scanBufferBytes : Nat}
    {allocate : Nat → Option Nat}
    (allocates : Allocates allocate (bufferLen scanBufferBytes delimiter.length)) :
    Returns (planPartitionBoundaries allocate source parts delimiter scanBufferBytes) s
      fun ranges _ => findPartitionBoundariesPattern data parts delimiter = some ranges :=
  (((planPartitionBoundaries_outcome conforms.orFails good parts ne scanBufferBytes
    allocate).weaken fun _ _ planned => planned.1).orElse fun e _ error =>
      error.elim id fun refused => allocates.not_refused e refused.1).returns

end Planner

/-- **Streaming and slice planning agree.** Over every source that conforms, whatever
its short reads are, and every buffer size the allocator grants, the buffered planner
returns the list the slice planner returns on the bytes of the file. -/
theorem plan_matches_slice_planner {σ : Type} (data : Slice) (source : ByteSource σ)
    (inv : σ → Prop) (conforms : Conforms source inv data.bytes) (s : σ) (good : inv s)
    (parts : Nat) (delimiter : List UInt8) (ne : delimiter ≠ []) (scanBufferBytes : Nat)
    (allocate : Nat → Option Nat)
    (allocates : Allocates allocate (bufferLen scanBufferBytes delimiter.length)) :
    ∃ ranges, findPartitionBoundariesPattern data parts delimiter = some ranges ∧
      Returns (planPartitionBoundaries allocate source parts delimiter scanBufferBytes) s
        fun planned _ => planned = ranges := by
  obtain ⟨ranges, s', run, eq⟩ := planPartitionBoundaries_returns conforms good parts ne allocates
  exact ⟨ranges, eq, ranges, s', run, rfl⟩

/-- A source that reads `data` one byte at a time and counts its reads. -/
def dribble (data : Slice) : ByteSource Nat where
  len := data.len
  asSlice := none
  readAt offset out := step fun reads =>
    (.ok (if offset < data.len ∧ out ≠ [] then
      (1, (data.bytes.drop offset).take 1 ++ out.drop 1) else (0, out)), reads + 1)
  len_le := data.len_le_usizeMax

theorem dribble_conforms (data : Slice) : Conforms (dribble data) (fun _ => True) data.bytes where
  len_eq := rfl
  no_slice := rfl
  reads offset out s _ := by
    refine ⟨_, s + 1, rfl, trivial, ?_⟩
    by_cases more : offset < data.len ∧ out ≠ []
    · obtain ⟨lt, ne⟩ := more
      have outPos := List.length_pos_of_ne_nil ne
      unfold Slice.len at lt
      have one : ((data.bytes.drop offset).take 1).length = 1 := by
        rw [List.length_take, List.length_drop]
        omega
      rw [if_pos ⟨lt, ne⟩]
      constructor
      · rw [List.length_append, one, List.length_drop]
        omega
      · exact outPos
      · exact fun _ _ => le_rfl
      · omega
      · rw [List.take_append_of_le_length one.ge, List.take_take]
        rfl
    · rw [if_neg more]
      exact ⟨rfl, Nat.zero_le _, fun lt ne => absurd ⟨lt, ne⟩ more, Nat.zero_le _, by simp⟩

/-- Byte-wise reads and an empty requested buffer. -/
theorem plan_matches_slice_planner_dribble :
    Conforms (dribble twoRecords) (fun _ => True) twoRecords.bytes ∧ [(10 : UInt8)] ≠ [] ∧
      Allocates (fun _ => some 0) (bufferLen 0 1) ∧
      Returns (planPartitionBoundaries (fun _ => some 0) (dribble twoRecords) 2 [10] 0) 0
        fun planned _ => planned = [(0, 2), (2, 4)] := by
  have run : findPartitionBoundariesPattern twoRecords 2 [10] = some [(0, 2), (2, 4)] := by
    decide +kernel
  have allocates : Allocates (fun _ => some 0) (bufferLen 0 1) := ⟨by decide, rfl⟩
  obtain ⟨ranges, eq, returns⟩ := plan_matches_slice_planner twoRecords (dribble twoRecords)
    (fun _ => True) (dribble_conforms twoRecords) 0 trivial 2 [10] (by decide) 0 (fun _ => some 0)
    allocates
  rw [run, Option.some.injEq] at eq
  subst eq
  exact ⟨dribble_conforms twoRecords, by decide, allocates, returns⟩

end Source
