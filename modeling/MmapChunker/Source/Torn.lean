import MmapChunker.Source.Planner

/-!
Planning over a file that changes (`src/source.rs`).

A source that reads a mutated file may answer every call differently: with an error,
with any count of bytes, with bytes that contradict earlier ones. The cuts of the
planner may then be anywhere, but they are still ascending offsets of the file, so
`plan_partition_boundaries` returns the error or covers the file
(`torn_reads_cover`). Nothing is said about the bytes.
-/

namespace Source

open Machine Occurrence TargetWalk Tiling Exec Scanner

/-- The error is that of the last read. -/
def ReadFailed {σ : Type} (source : ByteSource σ) (e : IoError) (s' : σ) : Prop :=
  ∃ offset out s, runFrom (source.readAt offset out) s = some (.error e, s')

/-- The source exposes no slice, and each read returns an error or a count of at most
the length of the buffer. -/
structure Torn {σ : Type} (source : ByteSource σ) : Prop where
  no_slice : source.asSlice = none
  reads : ∀ offset out s, Ensures (source.readAt offset out) s fun r _ =>
    ∀ p, r = .ok p → p.1 ≤ out.length ∧ p.2.length = out.length

/-! ### One cut -/

section Reads

variable {σ : Type} {source : ByteSource σ} {delimiter : List UInt8} {buffer : Slice} {s : σ}

theorem Torn.readAt_outcome (torn : Torn source) (offset : Nat) (out : List UInt8) (s : σ) :
    Ensures (source.readAt offset out) s
      (Outcome (fun p _ => p.1 ≤ out.length ∧ p.2.length = out.length) (ReadFailed source)) := by
  obtain ⟨r, s', run, bounds⟩ := torn.reads offset out s
  refine ⟨r, s', run, ?_⟩
  cases r with
  | error e => exact ⟨offset, out, s, run⟩
  | ok p => exact bounds p rfl

/-- A fill loop stays in its window. -/
theorem fillWindow_torn (torn : Torn source) {offset stop filled : Nat} (le : filled ≤ stop)
    (inBuffer : stop ≤ buffer.len) :
    Ensures (fillWindow source offset stop filled buffer) s
      (Outcome (fun p _ => p.1 ≤ stop ∧ p.2.len = buffer.len) (ReadFailed source)) := by
  induction left : stop - filled using Nat.strong_induction_on generalizing filled buffer s with
  | _ left ih =>
      rw [fillWindow]
      by_cases more : filled < stop
      · have outLen : (buffer.window filled (stop - filled)).len = stop - filled :=
          Slice.len_window (by omega)
        rw [if_pos more, Slice.range_eq le inBuffer, orPanic_some, pure_bind]
        refine (torn.readAt_outcome _ _ s).andThen fun p s' read => ?_
        obtain ⟨count, written⟩ := p
        obtain ⟨countLe, sameLength⟩ := read
        dsimp only at countLe sameLength ⊢
        have room : filled + written.length ≤ buffer.len := by
          unfold Slice.len at outLen inBuffer ⊢
          omega
        have len : (buffer.write filled written).len = buffer.len := Slice.len_write room
        have within : filled + count ≤ stop := by
          unfold Slice.len at outLen
          omega
        by_cases exhausted : count = 0
        · rw [if_pos exhausted]
          exact Ensures.pure ⟨le, len⟩
        · rw [if_neg exhausted]
          refine (ih _ (by omega) within (by rwa [len]) rfl).weaken fun p _ bounds => ?_
          exact ⟨bounds.1, bounds.2.trans len⟩
      · rw [if_neg more]
        exact Ensures.pure ⟨le, rfl⟩

/-- Whatever the search finds lies between its start and the end of the file. -/
theorem probeLoop_torn (torn : Torn source) (ne : delimiter ≠ []) {probeLen offset : Nat}
    (le : probeLen ≤ buffer.len) :
    Ensures (probeLoop source delimiter buffer.len probeLen offset buffer) s
      (Outcome (fun p _ => p.2.len = buffer.len ∧
        ∀ position ∈ p.1, offset ≤ position ∧ position + delimiter.length ≤ source.len)
        (ReadFailed source)) := by
  have small := source.len_le
  induction left : source.len - offset using Nat.strong_induction_on
    generalizing offset probeLen buffer s with
  | _ left ih =>
      rw [probeLoop]
      by_cases past : source.len ≤ offset
      · rw [if_pos past]
        exact Ensures.pure ⟨rfl, by simp⟩
      rw [if_neg past]
      refine (fillWindow_torn torn (Nat.zero_le _) (by omega)).andThen ?_
      rintro ⟨read, filled⟩ s' ⟨readLe, sameLen⟩
      dsimp only at readLe sameLen ⊢
      by_cases nothing : read = 0
      · rw [if_pos nothing]
        exact Ensures.pure ⟨sameLen, by simp⟩
      rw [if_neg nothing, Slice.range_eq (Nat.zero_le _) (by omega), orPanic_some, pure_bind,
        findPatternInSlice_eq _ ne, orPanic_some, pure_bind]
      have first := nextOcc_spec ne (filled.window 0 (read - 0)).bytes 0
      cases found : nextOcc delimiter (filled.window 0 (read - 0)).bytes 0 with
      | some position =>
          rw [found] at first
          have inside := first.2.1.le_length ne
          have window : (filled.window 0 (read - 0)).bytes.length = read :=
            Slice.len_window (by omega)
          refine Ensures.pure ⟨sameLen, fun p mem => ?_⟩
          cases mem
          omega
      | none =>
          dsimp only
          by_cases last : source.len ≤ saturatingAdd offset read
          · rw [if_pos last]
            exact Ensures.pure ⟨sameLen, by simp⟩
          · have progress : 1 ≤ advance read delimiter.length := Nat.le_max_right _ _
            have ahead : offset < saturatingAdd offset (advance read delimiter.length) := by
              unfold saturatingAdd
              omega
            have probe : nextProbe probeLen filled.len ≤ filled.len :=
              nextProbe_le (by omega)
            rw [if_neg last, ← sameLen]
            refine (ih _ (by omega) probe rfl).weaken fun p _ bounds => ?_
            refine ⟨bounds.1, fun position mem => ?_⟩
            have after := bounds.2 position mem
            omega

theorem findPatternFrom_torn (torn : Torn source) (ne : delimiter ≠ []) (start : Nat) :
    Ensures (findPatternFrom source start delimiter buffer) s
      (Outcome (fun p _ => p.2.len = buffer.len ∧
        ∀ position ∈ p.1, start ≤ position ∧ position + delimiter.length ≤ source.len)
        (ReadFailed source)) := by
  rw [findPatternFrom]
  split
  · exact Ensures.pure ⟨rfl, by simp⟩
  · exact probeLoop_torn torn ne (Nat.min_le_right _ _)

theorem followsDelimiterIn_torn (torn : Torn source) (holdsPattern : delimiter.length ≤ buffer.len)
    (target : Nat) :
    Ensures (followsDelimiterIn source delimiter target buffer) s
      (Outcome (fun p _ => p.2.len = buffer.len) (ReadFailed source)) := by
  rw [followsDelimiterIn]
  by_cases le : delimiter.length ≤ target
  · rw [if_pos le]
    refine (fillWindow_torn torn (Nat.zero_le _) holdsPattern).andThen ?_
    rintro ⟨tailRead, filled⟩ s' ⟨_, sameLen⟩
    dsimp only at sameLen ⊢
    by_cases full : tailRead = delimiter.length
    · rw [if_pos full, Slice.range_eq (Nat.zero_le _) (by omega), orPanic_some, pure_bind]
      exact Ensures.pure sameLen
    · rw [if_neg full]
      exact Ensures.pure sameLen
  · rw [if_neg le]
    exact Ensures.pure rfl

end Reads

/-! ### All cuts -/

/-- Ascending cuts of `[0, hi]`, at most `n` of them. -/
structure Cuts (hi n : Nat) (cuts : List Nat) : Prop where
  ascending : (0 :: cuts).Pairwise (· ≤ ·)
  inside : ∀ c ∈ cuts, c ≤ hi
  length_le : cuts.length ≤ n

section Cuts

variable {hi n c : Nat} {cuts : List Nat}

theorem cuts_nil (hi n : Nat) : Cuts hi n [] :=
  ⟨List.pairwise_singleton _ _, by simp, Nat.zero_le n⟩

theorem Cuts.mono {n' : Nat} (h : Cuts hi n cuts) (le : n ≤ n') : Cuts hi n' cuts :=
  ⟨h.ascending, h.inside, h.length_le.trans le⟩

/-- A cut that is not before the earlier ones. -/
theorem Cuts.push (h : Cuts hi n cuts) (past : ∀ b ∈ cuts, b ≤ c) (le : c ≤ hi) :
    Cuts hi (n + 1) (cuts ++ [c]) := by
  constructor
  · rw [← List.cons_append, List.pairwise_append]
    refine ⟨h.ascending, List.pairwise_singleton _ _, fun b mem c' mem' => ?_⟩
    rw [List.mem_singleton.mp mem']
    rcases List.mem_cons.mp mem with rfl | mem
    · exact Nat.zero_le c
    · exact past b mem
  · intro b mem
    rcases List.mem_append.mp mem with mem | mem
    · exact h.inside b mem
    · exact List.mem_singleton.mp mem ▸ le
  · rw [List.length_append, List.length_singleton]
    exact Nat.succ_le_succ h.length_le

/-- The ranges of ascending cuts cover the file. -/
theorem Cuts.tiles (h : Cuts hi n cuts) : Tiles 0 hi (rangesFromBoundaries hi cuts) := by
  rw [rangesFromBoundaries_eq]
  apply tiles_rangesBetween h.ascending
  intro c mem
  rcases List.mem_cons.mp mem with rfl | mem
  · exact Nat.zero_le hi
  · exact h.inside c mem

theorem Cuts.length_ranges_le (h : Cuts hi n cuts) :
    (rangesFromBoundaries hi cuts).length ≤ n + 1 := by
  rw [rangesFromBoundaries_eq]
  exact (length_rangesBetween_le 0 hi cuts).trans (Nat.succ_le_succ h.length_le)

end Cuts

section Planner

variable {σ : Type} {source : ByteSource σ} {delimiter : List UInt8} {buffer : Slice} {s : σ}

/-- The state between two iterations: no cut lies past the last one, and the buffer
holds a delimiter. -/
structure WalkOk (source : ByteSource σ) (delimiter : List UInt8) (n : Nat)
    (st : WalkState Nat × Slice) : Prop where
  cuts : Cuts source.len n st.1.boundaries
  le_last : ∀ b ∈ st.1.boundaries, b ≤ st.1.lastBoundary
  holdsPattern : delimiter.length ≤ st.2.len

/-- A cut past the last one becomes the last one. -/
theorem WalkOk.push {n c : Nat} {st : WalkState Nat} {buffer buffer' : Slice}
    (h : WalkOk source delimiter n (st, buffer)) (past : st.lastBoundary ≤ c) (le : c ≤ source.len)
    (sameLen : buffer'.len = buffer.len) :
    WalkOk source delimiter (n + 1) (⟨st.boundaries ++ [c], c⟩, buffer') where
  cuts := h.cuts.push (fun b mem => (h.le_last b mem).trans past) le
  le_last b mem := by
    rcases List.mem_append.mp mem with mem | mem
    · exact (h.le_last b mem).trans past
    · exact (List.mem_singleton.mp mem).le
  holdsPattern := sameLen ▸ h.holdsPattern

/-- One iteration adds at most one cut, which is not before its target. -/
theorem streamStep_torn (torn : Torn source) (ne : delimiter ≠ []) {n i : Nat} (le : n ≤ source.len)
    (lt : i < n) {k : Nat} {st : WalkState Nat × Slice} (ok : WalkOk source delimiter k st) :
    Ensures (streamStep source n delimiter i st) s
      (Outcome (Continues (fun st' _ => WalkOk source delimiter (k + 1) st')
        fun st' _ => Cuts source.len (k + 1) st'.1.boundaries) (ReadFailed source)) := by
  obtain ⟨st, buffer⟩ := st
  have inside : source.len * i / n ≤ source.len := Nat.div_le_of_le_mul (by
    rw [Nat.mul_comm n]
    exact Nat.mul_le_mul_left _ lt.le)
  rw [streamStep, partitionTarget_eq source.len_le (le.trans source.len_le) lt]
  generalize source.len * i / n = target at inside ⊢
  by_cases skip : target ≤ st.lastBoundary
  · rw [if_pos skip]
    exact Ensures.pure ⟨ok.cuts.mono (Nat.le_succ k), ok.le_last, ok.holdsPattern⟩
  have ahead := Nat.not_le.mp skip
  rw [if_neg skip]
  refine (followsDelimiterIn_torn torn ok.holdsPattern target).andThen ?_
  rintro ⟨accepted, buffer'⟩ s' sameLen
  dsimp only at sameLen ⊢
  cases accepted with
  | true => exact Ensures.pure (ok.push ahead.le inside sameLen)
  | false =>
      refine (findPatternFrom_torn torn ne target).andThen ?_
      rintro ⟨position, buffer''⟩ s'' ⟨sameLen', bounds⟩
      dsimp only at sameLen' bounds ⊢
      cases position with
      | none => exact Ensures.pure (ok.cuts.push ok.cuts.inside le_rfl)
      | some position =>
          obtain ⟨after, fits⟩ := bounds position rfl
          have small := source.len_le
          have boundary : min (saturatingAdd position delimiter.length) source.len =
              position + delimiter.length := by
            rw [min_saturatingAdd small, Nat.min_eq_left fits]
          dsimp only
          rw [boundary]
          exact Ensures.pure (ok.push (by omega) fits (sameLen'.trans sameLen))

/-- All iterations together. -/
theorem streamLoop_torn (torn : Torn source) (ne : delimiter ≠ []) {n : Nat} (le : n ≤ source.len)
    (holdsPattern : delimiter.length ≤ buffer.len) :
    Ensures (forIn (List.range' 1 (n - 1)) (⟨[], 0⟩, buffer) (streamStep source n delimiter)) s
      (Outcome (fun st _ => Cuts source.len (n - 1) st.1.boundaries) (ReadFailed source)) := by
  -- The cuts so far and the iterations to come are `n - 1` together.
  apply forIn_outcome (streamStep source n delimiter) fun is st _ =>
    ∃ k, WalkOk source delimiter k st ∧ k + is.length ≤ n - 1 ∧ ∀ i ∈ is, i < n
  · rintro st s ⟨k, ok, count, -⟩
    exact ok.cuts.mono (by simpa using count)
  · rintro i is st s ⟨k, ok, count, indices⟩
    rw [List.length_cons] at count
    refine (streamStep_torn torn ne le (indices i List.mem_cons_self) ok).weaken ?_
    intro once s' continues
    cases once with
    | yield st' =>
        exact ⟨k + 1, continues, by omega, fun j mem => indices j (List.mem_cons_of_mem _ mem)⟩
    | done st' => exact Cuts.mono continues (by omega)
  · exact ⟨0, ⟨cuts_nil _ 0, by simp, holdsPattern⟩, by simp, fun i mem =>
      Loop.lt_of_mem_indices mem⟩

end Planner

/-- What planning a changed file may return: a list that covers the length the source
reports, in at most as many ranges as were requested. -/
structure CoversLen (len parts : Nat) (ranges : List (Nat × Nat)) : Prop where
  tiles : parts ≠ 0 → Tiles 0 len ranges
  length_le : ranges.length ≤ min parts len
  empty_iff : ranges = [] ↔ len = 0 ∨ parts = 0

theorem coversLen_of_tiles {len parts : Nat} {ranges : List (Nat × Nat)}
    (tiles : Tiles 0 len ranges) (length_le : ranges.length ≤ min parts len) (pos : parts ≠ 0) :
    CoversLen len parts ranges where
  tiles _ := tiles
  length_le := length_le
  empty_iff := by
    rw [tiles.eq_nil_iff, or_iff_left pos]
    exact eq_comm

/-- **Torn reads cannot break coverage.** Whatever the reads return, the planner returns
the error of a read or a list that covers the file. -/
theorem torn_reads_cover {σ : Type} (source : ByteSource σ) (torn : Torn source) (s : σ)
    (parts : Nat) (delimiter : List UInt8) (ne : delimiter ≠ []) (scanBufferBytes : Nat)
    (allocate : Nat → Option Nat)
    (allocates : Allocates allocate (bufferLen scanBufferBytes delimiter.length)) :
    Ensures (planPartitionBoundaries allocate source parts delimiter scanBufferBytes) s
      (Outcome (fun ranges _ => CoversLen source.len parts ranges) (ReadFailed source)) := by
  rw [planPartitionBoundaries, if_neg ne, torn.no_slice]
  dsimp only
  by_cases nothing : source.len = 0 ∨ parts = 0
  · rw [if_pos nothing]
    refine Ensures.pure ⟨fun pos => ?_, Nat.zero_le _, iff_of_true rfl nothing⟩
    rw [nothing.resolve_right pos]
    exact Tiles.nil 0
  rw [if_neg nothing]
  obtain ⟨nonempty, pos⟩ := not_or.mp nothing
  have lenPos := Nat.pos_of_ne_zero nonempty
  by_cases one : parts = 1
  · rw [if_pos one]
    refine Ensures.pure (coversLen_of_tiles (.cons lenPos (.nil _)) ?_ pos)
    rw [List.length_singleton]
    omega
  obtain ⟨addr, granted⟩ := Option.isSome_iff_exists.mp allocates.granted
  rw [if_neg one, dif_pos allocates.fits, granted]
  have roomy := le_len_zeroed addr scanBufferBytes delimiter.length allocates.fits
  refine (streamLoop_torn torn ne (Nat.min_le_right parts _) roomy).andThen fun st s' cuts => ?_
  refine Ensures.pure (coversLen_of_tiles cuts.tiles ?_ pos)
  have atMost := cuts.length_ranges_le
  omega

/-- A source whose reads return more bytes each time, all equal to the number of reads
made before. -/
def changing : ByteSource Nat where
  len := 4
  asSlice := none
  readAt _ out := step fun reads =>
    (.ok (min reads out.length, out.map fun _ => UInt8.ofNat reads), reads + 1)
  len_le := by decide

theorem torn_changing : Torn changing where
  no_slice := rfl
  reads offset out s := by
    refine ⟨_, _, rfl, fun p eq => ?_⟩
    cases eq
    exact ⟨Nat.min_le_right _ _, List.length_map _⟩

theorem torn_reads_cover_changing :
    Torn changing ∧ [(10 : UInt8)] ≠ [] ∧ Allocates (fun _ => some 0) (bufferLen 0 1) ∧
      Ensures (planPartitionBoundaries (fun _ => some 0) changing 3 [10] 0) 0
        (Outcome (fun ranges _ => CoversLen 4 3 ranges) (ReadFailed changing)) := by
  have allocates : Allocates (fun _ => some 0) (bufferLen 0 1) := ⟨by decide, rfl⟩
  exact ⟨torn_changing, by decide, allocates,
    torn_reads_cover changing torn_changing 0 3 [10] (by decide) 0 (fun _ => some 0) allocates⟩

end Source
