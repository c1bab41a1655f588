import MmapChunker.Cli.Held
import MmapChunker.Source.Torn

/-!
Which sources the on-demand planner holds open (`src/bin/mmap-chunker.rs`).

Nothing is promised by the file system. A file may have one length when it is statted
and another when it is opened, may be refused or panic at any time, and its reads may
return anything.

`Orderly` is the invariant between two targets, `Stopped` what holds when the planner
fails. A target never lies before the source in the slot (`Walking`), which is why the
sources are opened in ascending order. `source_discipline` holds of every run.
-/

namespace Cli

open Machine TargetWalk Tiling Segments Exec Handles Source

/-! ### A cut stays inside its source -/

section Cuts

variable {σ : Type} (source : ByteSource σ)

theorem exactTarget_upholds (dlen : Nat) (isDelimiter : Slice → Option Bool) (target : Nat)
    (buffer : Slice) : Upholds (exactTarget source dlen isDelimiter target buffer) fun p =>
      p.1 = true → target ≤ source.len := by
  rw [exactTarget]
  split
  · rename_i inside
    refine .after fun p => ?_
    obtain ⟨filled, buffer'⟩ := p
    dsimp only
    split
    · exact .after fun accepted => .pure fun _ => inside.2
    · exact .pure fun _ => inside.2
  · exact .pure fun accepted => by cases accepted

theorem boundaryLoop_upholds (dlen : Nat) (search : Slice → Option (Option Nat)) (offset : Nat)
    (buffer : Slice) :
    Upholds (boundaryLoop source dlen search offset buffer) fun p => p.1 ≤ source.len := by
  have small := source.len_le
  induction left : source.len - offset using Nat.strong_induction_on
    generalizing offset buffer with
  | _ left ih =>
      rw [boundaryLoop]
      by_cases past : source.len ≤ offset
      · rw [if_pos past]
        exact .pure le_rfl
      rw [if_neg past]
      refine .after fun read => ?_
      obtain ⟨filled, buffer'⟩ := read
      dsimp only
      by_cases nothing : filled = 0
      · rw [if_pos nothing]
        exact .pure le_rfl
      rw [if_neg nothing]
      refine .after fun window => .after fun found => ?_
      cases found with
      | some relative => exact .pure (Nat.min_le_right _ _)
      | none =>
          by_cases last : source.len ≤ saturatingAdd offset filled
          · rw [if_pos last]
            exact .pure le_rfl
          · have progress : 1 ≤ advance filled dlen := Nat.le_max_right _ _
            rw [if_neg last]
            exact ih _ (by unfold saturatingAdd at last ⊢; omega) _ _ rfl

/-- A boundary and the cached one after it are offsets of the source. -/
def WithinSource (found : Nat × BoundarySearchState × Slice) : Prop :=
  found.1 ≤ source.len ∧ ∀ c ∈ found.2.1.cachedBoundary, c ≤ source.len

theorem boundaryFrom_upholds (dlen : Nat) (isDelimiter : Slice → Option Bool)
    (search : Slice → Option (Option Nat)) (target : Nat) (state : BoundarySearchState)
    (buffer : Slice) :
    Upholds (boundaryFrom source dlen isDelimiter search target state buffer)
      (WithinSource source) := by
  rw [boundaryFrom]
  refine (exactTarget_upholds source dlen isDelimiter target buffer).bind fun p inside => ?_
  obtain ⟨accepted, buffer'⟩ := p
  cases accepted with
  | true =>
      refine .pure ⟨inside rfl, fun c mem => ?_⟩
      obtain rfl := Option.some.inj mem
      exact inside rfl
  | false =>
      refine (boundaryLoop_upholds source dlen search _ buffer').bind fun p le => .pure ⟨le, ?_⟩
      intro c mem
      obtain rfl := Option.some.inj mem
      exact le

/-- Whatever the reads return, the boundary lies in the source. -/
theorem nextRecordBoundarySourced_upholds (target : Nat) (delimiter : List UInt8)
    {state : BoundarySearchState} (cached : ∀ c ∈ state.cachedBoundary, c ≤ source.len)
    (buffer : Slice) (path : Path) :
    Upholds (nextRecordBoundarySourced source target delimiter state buffer path)
      (WithinSource source) := by
  rw [nextRecordBoundarySourced]
  cases reuse : state.cachedFor target with
  | some c =>
      have mem := (Option.filter_eq_some_iff.mp reuse).1
      exact .pure ⟨cached c mem, cached⟩
  | none =>
      refine .mapErr ?_
      split
      · exact .after fun byte => boundaryFrom_upholds source _ _ _ _ _ _
      · exact boundaryFrom_upholds source _ _ _ _ _ _

end Cuts

/-! ### What holds of every run -/

/-- The lengths phase 1 saw, in the order of the paths. -/
def phaseOneLengths (trace : List FileEvent) : List Nat := (notes trace).map Statted.len

/-- Between two targets. Every source opened so far had the length of phase 1, and the
one in the slot is the last of them. -/
structure Orderly {σ : Type} (lens : List Nat) (current : Option (OpenSourced σ))
    (trace : List FileEvent) : Prop where
  statted : phaseOneLengths trace = lens
  disciplined : Disciplined trace
  held_eq : held trace = current.toList.map OpenSourced.index
  unchanged : ∀ p ∈ acquisitions trace, lens[p.1]? = some p.2
  latest : ∀ p ∈ acquisitions trace, ∃ opened ∈ current, p.1 ≤ opened.index
  current_len : ∀ opened ∈ current, lens[opened.index]? = some opened.source.len
  cached_le : ∀ opened ∈ current, ∀ c ∈ opened.state.cachedBoundary, c ≤ opened.source.len

/-- With the slot empty and every source opened so far before the source `k`. -/
structure Vacant (lens : List Nat) (k : Nat) (trace : List FileEvent) : Prop where
  statted : phaseOneLengths trace = lens
  disciplined : Disciplined trace
  held_eq : held trace = []
  unchanged : ∀ p ∈ acquisitions trace, lens[p.1]? = some p.2
  earlier : ∀ p ∈ acquisitions trace, p.1 < k

/-- After a failure, before the slot is dropped. A source that was opened had the
length of phase 1, unless that is what the planner complains about. -/
structure Stopped {σ : Type} (halt : Halt) (frame : Frame σ) : Prop where
  disciplined : Disciplined frame.trace
  held_eq : held frame.trace = frame.current.toList.map OpenSourced.index
  unchanged : ∀ p ∈ acquisitions frame.trace,
    (phaseOneLengths frame.trace)[p.1]? = some p.2 ∨ ∃ message, halt = .error message

/-- After a failure, with the slot dropped. -/
def Ended {σ : Type} (halt : Halt) (frame : Frame σ) : Prop :=
  Stopped halt frame ∧ frame.current = none

section Orderly

variable {σ : Type} {lens : List Nat} {current : Option (OpenSourced σ)} {trace : List FileEvent}
  {k len : Nat}

theorem Orderly.stopped (h : Orderly lens current trace) (halt : Halt) (world : σ) :
    Stopped halt ⟨world, current, trace⟩ where
  disciplined := h.disciplined
  held_eq := h.held_eq
  unchanged p mem := .inl (by
    rw [h.statted]
    exact h.unchanged p mem)

/-- Dropping the value of the slot releases what is held, and nothing else happens. -/
theorem drop_slot (disciplined : Disciplined trace)
    (heldEq : held trace = current.toList.map OpenSourced.index) :
    ∃ after, after = trace ++ current.toList.map (fun opened => .released opened.index) ∧
      Disciplined after ∧ held after = [] ∧ acquisitions after = acquisitions trace ∧
      phaseOneLengths after = phaseOneLengths trace := by
  refine ⟨_, rfl, ?_⟩
  cases current with
  | none =>
      rw [Option.toList_none, List.map_nil, List.append_nil]
      exact ⟨disciplined, heldEq, rfl, rfl⟩
  | some opened =>
      rw [Option.toList_some, List.map_singleton] at heldEq ⊢
      refine ⟨disciplined.released, ?_, acquisitions_released, ?_⟩
      · simp [holding, heldEq]
      · rw [phaseOneLengths, notes_released, phaseOneLengths]

/-- Dropping the source in the slot. -/
theorem Orderly.vacant (h : Orderly lens current trace)
    (ahead : ∀ opened ∈ current, opened.index < k) :
    Vacant lens k (trace ++ current.toList.map fun opened => .released opened.index) := by
  obtain ⟨_, rfl, disciplined, free, same, lengths⟩ := drop_slot h.disciplined h.held_eq
  refine ⟨lengths.trans h.statted, disciplined, free, same ▸ h.unchanged, ?_⟩
  intro p mem
  rw [same] at mem
  obtain ⟨opened, memO, le⟩ := h.latest p mem
  exact le.trans_lt (ahead opened memO)

theorem Vacant.stopped (h : Vacant lens k trace) (halt : Halt) (world : σ) :
    Stopped halt ⟨world, none, trace⟩ where
  disciplined := h.disciplined
  held_eq := h.held_eq
  unchanged p mem := .inl (by
    rw [h.statted]
    exact h.unchanged p mem)

/-- A source that was opened and dropped again. -/
theorem Vacant.dropped (h : Vacant lens k trace) {halt : Halt} (world : σ)
    (checked : lens[k]? = some len ∨ ∃ message, halt = .error message) :
    Stopped halt ⟨world, none, trace ++ [.acquired k len] ++ [.released k]⟩ where
  disciplined := (h.disciplined.acquired h.held_eq h.earlier).released
  held_eq := by
    rw [held_concat, held_concat, h.held_eq]
    simp [holding]
  unchanged := by
    intro p mem
    have same : phaseOneLengths (trace ++ [.acquired k len] ++ [.released k]) = lens := by
      rw [phaseOneLengths, notes_released, notes_acquired]
      exact h.statted
    rw [acquisitions_released, acquisitions_acquired] at mem
    rw [same]
    rcases List.mem_append.mp mem with old | new
    · exact .inl (h.unchanged p old)
    · rw [List.mem_singleton.mp new]
      exact checked

/-- A source that was opened, with the length of phase 1. -/
theorem Vacant.orderly (h : Vacant lens k trace) {opened : OpenSourced σ}
    (index : opened.index = k) (here : lens[k]? = some opened.source.len)
    (fresh : opened.state = .initial) :
    Orderly lens (some opened) (trace ++ [.acquired k opened.source.len]) where
  statted := by
    rw [phaseOneLengths, notes_acquired]
    exact h.statted
  disciplined := h.disciplined.acquired h.held_eq h.earlier
  held_eq := by simp [holding, h.held_eq, index]
  unchanged := by
    intro p mem
    rw [acquisitions_acquired] at mem
    rcases List.mem_append.mp mem with old | new
    · exact h.unchanged p old
    · rw [List.mem_singleton.mp new]
      exact here
  latest := by
    intro p mem
    rw [acquisitions_acquired] at mem
    refine ⟨opened, rfl, ?_⟩
    rcases List.mem_append.mp mem with old | new
    · exact index ▸ (h.earlier p old).le
    · rw [List.mem_singleton.mp new, index]
  current_len := by
    intro opened' mem
    obtain rfl := Option.some.inj mem
    rwa [index]
  cached_le := by
    intro opened' mem c cached
    obtain rfl := Option.some.inj mem
    rw [fresh] at cached
    cases cached

/-- A search in the open source. -/
theorem Orderly.searched {opened : OpenSourced σ} (h : Orderly lens (some opened) trace)
    {state : BoundarySearchState} (buffer : Slice)
    (cached : ∀ c ∈ state.cachedBoundary, c ≤ opened.source.len) :
    Orderly lens (some { opened with state, buffer }) trace where
  statted := h.statted
  disciplined := h.disciplined
  held_eq := h.held_eq
  unchanged := h.unchanged
  latest p mem := by
    obtain ⟨last, memLast, le⟩ := h.latest p mem
    obtain rfl := Option.some.inj memLast
    exact ⟨_, rfl, le⟩
  current_len opened' mem := by
    obtain rfl := Option.some.inj mem
    exact h.current_len opened rfl
  cached_le opened' mem := by
    obtain rfl := Option.some.inj mem
    exact cached

end Orderly

section Run

variable {σ : Type} {fs : LiveFileSystem σ} {allocate : Nat → Option Nat} {paths : List Path}
  {delimiter : List UInt8} {lens : List Nat} {k expectedLen bufferLen : Nat} {frame : Frame σ}

theorem checkedOpen_upholds (source : ByteSource σ) (path : Path) :
    Upholds (checkedOpen allocate path k expectedLen bufferLen source) fun opened =>
      opened.index = k ∧ opened.source = source ∧ opened.state = .initial := by
  rw [checkedOpen]
  refine .after fun len => ?_
  split
  · intro s opened s' run
    cases run
  · exact .after fun buffer => .pure ⟨rfl, rfl, rfl⟩

/-- The source `k` was opened and checked, and is not in the slot yet. -/
structure JustOpened (lens : List Nat) (k : Nat) (source : ByteSource σ) (trace : List FileEvent)
    (opened : OpenSourced σ) (after : Frame σ) : Prop where
  index : opened.index = k
  source_eq : opened.source = source
  fresh : opened.state = .initial
  checked : lens[k]? = some source.len
  slot : after.current = none
  trace_eq : after.trace = trace ++ [.acquired k source.len]

/-- The source just opened has the length of phase 1, or it is dropped. -/
theorem orDrop_checkedOpen {trace : List FileEvent} (vacant : Vacant lens k trace)
    (here : lens[k]? = some expectedLen) (source : ByteSource σ) (path : Path) (world : σ) :
    Ensures (orDrop k (observe (checkedOpen allocate path k expectedLen bufferLen source)))
      ⟨world, none, trace ++ [.acquired k source.len]⟩
      (Outcome (JustOpened lens k source trace) Stopped) := by
  by_cases same : source.len = expectedLen
  · have checked : lens[k]? = some source.len := same ▸ here
    have opens : Ensures (observe (checkedOpen allocate path k expectedLen bufferLen source))
        ⟨world, none, trace ++ [.acquired k source.len]⟩
        (Outcome (JustOpened lens k source trace)
          fun _ after => after = ⟨after.world, none, trace ++ [.acquired k source.len]⟩) := by
      refine observe_ensures (fun opened world s run => ?_) fun _ _ => rfl
      obtain ⟨index, same, fresh⟩ := checkedOpen_upholds source path s opened world run
      exact ⟨index, same, fresh, checked, rfl, rfl⟩
    refine orDrop_ensures opens fun halt after eq => ?_
    rw [eq]
    exact vacant.dropped after.world (.inl checked)
  · have refused : checkedOpen allocate path k expectedLen bufferLen source =
        throw ("source length changed during planning: " ++ path.display) := by
      rw [checkedOpen, usizeToU128_eq source.len_le, pure_bind, if_pos same, throw_bind]
    have complains : Ensures (throw (.error ("source length changed during planning: " ++ path.display)) :
          Exec (Frame σ) Halt (OpenSourced σ)) ⟨world, none, trace ++ [.acquired k source.len]⟩
        (Outcome (JustOpened lens k source trace) fun halt after =>
          (∃ message, halt = .error message) ∧
            after = ⟨world, none, trace ++ [.acquired k source.len]⟩) :=
      Ensures.throw ⟨⟨_, rfl⟩, rfl⟩
    rw [refused, observe_throw]
    refine orDrop_ensures complains ?_
    rintro halt _ ⟨message, rfl⟩
    exact vacant.dropped world (.inr message)

/-- Opening the next source: it is in the slot, with the length of phase 1, or the
planner stops. -/
theorem openHeld_ensures (path : Path) (h : Orderly lens frame.current frame.trace)
    (here : lens[k]? = some expectedLen) (ahead : ∀ opened ∈ frame.current, opened.index < k) :
    Ensures (openHeld fs allocate path k expectedLen bufferLen) frame
      (Outcome (fun _ after => (∃ opened ∈ after.current, opened.index = k) ∧
        Orderly lens after.current after.trace) Stopped) := by
  have vacant := h.vacant ahead
  rw [openHeld]
  refine Ensures.after_step rfl ?_
  refine observe_bind (fun halt world => vacant.stopped halt world) fun source world _ _ => ?_
  refine Ensures.after_step rfl ?_
  refine (orDrop_checkedOpen vacant here source path world).andThen ?_
  rintro opened after ⟨index, rfl, fresh, checked, slot, same⟩
  refine ⟨.ok (), _, rfl, ⟨opened, rfl, index⟩, ?_⟩
  rw [Frame.assign, slot, same, Option.toList_none, List.map_nil, List.append_nil]
  exact vacant.orderly index checked fresh

theorem currentOrOpen_ensures (path : Path) (h : Orderly lens frame.current frame.trace)
    (here : lens[k]? = some expectedLen) (ahead : ∀ opened ∈ frame.current, opened.index ≤ k) :
    Ensures (currentOrOpen fs allocate path k expectedLen bufferLen) frame
      (Outcome (fun opened after => after.current = some opened ∧ opened.index = k ∧
        Orderly lens after.current after.trace) Stopped) := by
  have slot : ∀ after : Frame σ, (∃ opened ∈ after.current, opened.index = k) →
      Orderly lens after.current after.trace →
      Ensures (do
          let frame ← Exec.current
          okOr frame.current (.error "internal error: source not open") :
            Exec (Frame σ) Halt (OpenSourced σ)) after
        (Outcome (fun opened after => after.current = some opened ∧ opened.index = k ∧
          Orderly lens after.current after.trace) Stopped) := by
    rintro after ⟨opened, mem, index⟩ orderly
    refine Ensures.after_step rfl ?_
    rw [Option.mem_def.mp mem, okOr_some]
    exact Ensures.pure ⟨mem, index, orderly⟩
  rw [currentOrOpen]
  refine Ensures.after_step rfl ?_
  dsimp only
  split
  · rename_i other
    have next : ∀ opened ∈ frame.current, opened.index < k := by
      intro opened mem
      refine lt_of_le_of_ne (ahead opened mem) fun index => other ?_
      rw [Option.mem_def.mp mem, Option.map_some, index]
    refine (openHeld_ensures path h here next).andThen ?_
    rintro _ after ⟨opened, orderly⟩
    exact slot after opened orderly
  · rename_i same
    exact slot frame (Option.map_eq_some_iff.mp (not_not.mp same)) h

/-- The next target: its cut lies on the line, and the slot holds no source past it. -/
theorem projectHeldTarget_ensures (count : paths.length = lens.length)
    (small : ∀ len ∈ lens, len ≤ usizeMax) {t : Nat} (lt : t < lens.sum)
    (h : Orderly lens frame.current frame.trace)
    (behind : ∀ opened ∈ frame.current, offset lens opened.index < t) :
    Ensures (projectHeldTarget fs allocate (prefixSums lens) paths delimiter bufferLen t) frame
      (Outcome (fun c after => c ≤ lens.sum ∧ Orderly lens after.current after.trace ∧
        ∀ opened ∈ after.current, offset lens opened.index < t) Stopped) := by
  rw [projectHeldTarget]
  by_cases mem : t ∈ prefixSums lens
  · rw [if_pos mem]
    exact Ensures.pure ⟨lt.le, h, behind⟩
  obtain ⟨k, inside⟩ := exists_inside mem lt
  have ltK := inside.lt_length
  obtain ⟨path, here⟩ : ∃ path, paths[k]? = some path :=
    ⟨_, List.getElem?_eq_getElem (count ▸ ltK)⟩
  have ended : (prefixSums lens)[k + 1]? = some (offset lens (k + 1)) := getElem?_prefixSums ltK
  have next := offset_succ ltK
  have ahead : ∀ opened ∈ frame.current, opened.index ≤ k := fun opened memO =>
    Nat.lt_succ_iff.mp (lt_of_offset_lt ((behind opened memO).trans inside.2))
  rw [if_neg mem, locateSource_eq inside, observe_pure, pure_bind]
  dsimp only
  rw [ended, orPanic_some, observe_pure, pure_bind, subU64_offset ltK, orPanic_some, observe_pure,
    pure_bind, localTarget_eq small inside, observe_pure, pure_bind, here, okOr_some, observe_pure,
    pure_bind]
  refine (currentOrOpen_ensures path h (List.getElem?_eq_getElem ltK) ahead).andThen ?_
  rintro opened after ⟨slot, rfl, orderly⟩
  rw [slot] at orderly
  refine observe_bind (fun halt world => ?_) fun found world s run => ?_
  · rw [slot]
    exact orderly.stopped halt world
  obtain ⟨localBoundary, state, buffer⟩ := found
  have cached := orderly.cached_le opened rfl
  obtain ⟨le, cachedAfter⟩ := nextRecordBoundarySourced_upholds opened.source _ delimiter cached _
    path s _ world run
  have searched := orderly.searched buffer cachedAfter
  have len := orderly.current_len opened rfl
  rw [List.getElem?_eq_getElem ltK, Option.some.injEq] at len
  have inLine := offset_le_sum lens (opened.index + 1)
  have onLine : ∀ c, checkedAddU128 (offset lens opened.index) localBoundary = some c →
      c ≤ lens.sum := by
    intro c sum
    obtain ⟨-, eq⟩ := Option.ite_none_right_eq_some.mp sum
    have total := Option.some.inj eq
    dsimp only at le
    omega
  dsimp only at le ⊢
  rw [usizeToU128_eq (le.trans opened.source.len_le), pure_bind]
  refine Ensures.after_step rfl ?_
  refine observe_ensures (fun c world s run => ?_) fun halt world => searched.stopped halt world
  refine ⟨Upholds.orPanic onLine s c world run, searched, fun opened' memO => ?_⟩
  · obtain rfl := Option.some.inj memO
    exact inside.1

/-- What the target loop keeps. The partitions still to come have targets past the
start of the source in the slot. -/
structure Walking (lens : List Nat) (n : Nat) (is : List Nat) (st : WalkState Nat)
    (frame : Frame σ) : Prop where
  orderly : Orderly lens frame.current frame.trace
  cuts : ∃ m, Cuts lens.sum m st.boundaries
  last : ∀ b ∈ st.boundaries, b ≤ st.lastBoundary
  ascending : is.Pairwise (· ≤ ·)
  inside : ∀ i ∈ is, i < n
  behind : ∀ opened ∈ frame.current, ∀ i ∈ is, offset lens opened.index < lens.sum * i / n

/-- The invariant after the target of `i`, which is not before the source in the slot. -/
theorem Walking.next {n i : Nat} {is : List Nat} {st st' : WalkState Nat} {after : Frame σ}
    (h : Walking lens n (i :: is) st frame) (orderly : Orderly lens after.current after.trace)
    (cuts : ∃ m, Cuts lens.sum m st'.boundaries) (last : ∀ b ∈ st'.boundaries, b ≤ st'.lastBoundary)
    (behind : ∀ opened ∈ after.current, offset lens opened.index < lens.sum * i / n) :
    Walking lens n is st' after where
  orderly := orderly
  cuts := cuts
  last := last
  ascending := h.ascending.tail
  inside j mem := h.inside j (List.mem_cons_of_mem i mem)
  behind opened memO j mem := by
    have le := List.rel_of_pairwise_cons h.ascending mem
    have later : lens.sum * i / n ≤ lens.sum * j / n :=
      Nat.div_le_div_right (Nat.mul_le_mul_left _ le)
    exact (behind opened memO).trans_le later

theorem planHeldStep_ensures (count : paths.length = lens.length)
    (small : ∀ len ∈ lens, len ≤ usizeMax) (pos : 0 < lens.sum) {n i : Nat} (smallN : n ≤ usizeMax)
    {is : List Nat} {st : WalkState Nat} (h : Walking lens n (i :: is) st frame) :
    Ensures (planHeldStep
        (projectHeldTarget fs allocate (prefixSums lens) paths delimiter bufferLen)
        lens.sum n i st) frame
      (Outcome (Continues (Walking lens n is)
        fun st after => Orderly lens after.current after.trace ∧ ∃ m, Cuts lens.sum m st.boundaries)
        Stopped) := by
  have ltN := h.inside i List.mem_cons_self
  have behind : ∀ opened ∈ frame.current, offset lens opened.index < lens.sum * i / n :=
    fun opened memO => h.behind opened memO i List.mem_cons_self
  rw [planHeldStep, targetOf_eq (ltN.le.trans smallN) smallN]
  cases here : logicalTarget lens.sum n i with
  | error e =>
      dsimp only
      rw [observe_throw, throw_bind]
      exact Ensures.throw (h.orderly.stopped _ frame.world)
  | ok t =>
      have lt := logicalTarget_lt pos ltN here
      have target := logicalTarget_eq here
      dsimp only
      rw [observe_pure, pure_bind]
      by_cases skip : t ≤ st.lastBoundary
      · rw [if_pos skip]
        exact Ensures.pure (h.next h.orderly h.cuts h.last behind)
      rw [if_neg skip]
      subst target
      refine (projectHeldTarget_ensures count small lt h.orderly behind).andThen ?_
      rintro projected after ⟨le, orderly, behindAfter⟩
      by_cases back : projected ≤ st.lastBoundary
      · rw [if_pos back]
        exact Ensures.pure (h.next orderly h.cuts h.last behindAfter)
      rw [if_neg back]
      by_cases whole : projected = lens.sum
      · rw [if_pos whole]
        exact Ensures.pure ⟨orderly, h.cuts⟩
      rw [if_neg whole]
      obtain ⟨m, cuts⟩ := h.cuts
      have past : ∀ b ∈ st.boundaries, b ≤ projected := fun b mem =>
        (h.last b mem).trans (Nat.not_le.mp back).le
      refine Ensures.pure (h.next orderly ⟨m + 1, cuts.push past le⟩ (fun b mem => ?_) behindAfter)
      rcases List.mem_append.mp mem with old | new
      · exact past b old
      · exact (List.mem_singleton.mp new).le

/-- The target loop: its cuts lie on the line in order. -/
theorem walkHeld_ensures (count : paths.length = lens.length)
    (small : ∀ len ∈ lens, len ≤ usizeMax) (pos : 0 < lens.sum) {n : Nat} (smallN : n ≤ usizeMax)
    (h : Orderly lens frame.current frame.trace) (closed : frame.current = none) :
    Ensures (forIn (List.range' 1 (n - 1)) ⟨[], 0⟩
        (planHeldStep (projectHeldTarget fs allocate (prefixSums lens) paths delimiter bufferLen)
          lens.sum n)) frame
      (Outcome (fun st after => Orderly lens after.current after.trace ∧
        ∃ m, Cuts lens.sum m st.boundaries) Stopped) := by
  refine forIn_outcome _ (Walking lens n) (fun _ _ walked => ⟨walked.orderly, walked.cuts⟩)
    (fun _ _ _ _ walked => planHeldStep_ensures count small pos smallN walked) ?_
  constructor
  · exact h
  · exact ⟨0, cuts_nil lens.sum 0⟩
  · simp
  · exact List.Pairwise.imp le_of_lt List.pairwise_lt_range'
  · exact fun i mem => Loop.lt_of_mem_indices mem
  · simp [closed]

/-- Phase 2, with the slot open at the end: the assignments cut the line. -/
theorem assignHeld_ensures (count : paths.length = lens.length)
    (small : ∀ len ∈ lens, len ≤ usizeMax) (pos : 0 < lens.sum) {n : Nat} (smallN : n ≤ usizeMax)
    (h : Orderly lens frame.current frame.trace) (closed : frame.current = none) :
    Ensures (do
        let walked ← forIn (List.range' 1 (n - 1)) ⟨[], 0⟩
          (planHeldStep (projectHeldTarget fs allocate (prefixSums lens) paths delimiter bufferLen)
            lens.sum n)
        observe (assignmentsFrom (prefixSums lens) paths.length walked.boundaries lens.sum)) frame
      (Outcome (fun workers after => Orderly lens after.current after.trace ∧
        ∃ intervals, workers = assignmentsOf lens intervals ∧ Tiles 0 lens.sum intervals)
        Stopped) := by
  refine (walkHeld_ensures count small pos smallN h closed).andThen ?_
  rintro walked after ⟨orderly, m, cuts⟩
  have tiles := cuts.tiles
  rw [Scanner.rangesFromBoundaries_eq] at tiles
  rw [assignmentsFrom, count, assign_eq small cuts.inside, observe_pure]
  exact Ensures.pure ⟨orderly, _, rfl, tiles⟩

theorem phaseOneLengths_noted (trace : List FileEvent) (len : Nat) :
    phaseOneLengths (trace ++ [.noted ⟨len⟩]) = phaseOneLengths trace ++ [len] := by
  rw [phaseOneLengths, notes_noted, List.map_append]
  rfl

/-- What phase 1 keeps, with the paths still to come: nothing is opened. -/
structure Statting (paths is : List Path) (prefixes : List Nat) (frame : Frame σ) : Prop where
  orderly : Orderly (phaseOneLengths frame.trace) frame.current frame.trace
  closed : frame.current = none
  nothing : acquisitions frame.trace = []
  prefixes_eq : prefixes = prefixSums (phaseOneLengths frame.trace)
  count : (phaseOneLengths frame.trace).length + is.length = paths.length
  small : ∀ len ∈ phaseOneLengths frame.trace, len ≤ usizeMax

theorem statHeld_ensures {path : Path} {is : List Path} {prefixes : List Nat}
    (h : Statting paths (path :: is) prefixes frame) :
    Ensures (statHeld fs path prefixes) frame
      (Outcome (Continues (Statting paths is) (Statting paths [])) Ended) := by
  rw [statHeld]
  refine observe_bind (fun halt world => ⟨h.orderly.stopped halt world, h.closed⟩) ?_
  intro metadata world _ _
  refine Ensures.after_step rfl ?_
  have lengths := phaseOneLengths_noted frame.trace metadata.len
  have orderly : Orderly (phaseOneLengths (frame.trace ++ [.noted ⟨metadata.len⟩])) frame.current
      (frame.trace ++ [.noted ⟨metadata.len⟩]) := by
    have none : acquisitions (frame.trace ++ [.noted ⟨metadata.len⟩]) = [] := by
      rw [acquisitions_noted]
      exact h.nothing
    refine ⟨rfl, h.orderly.disciplined.noted, ?_, ?_, ?_, ?_, ?_⟩
    · rw [held_concat]
      exact h.orderly.held_eq
    all_goals simp [none, h.closed]
  rw [h.prefixes_eq, pushPrefix_eq]
  split
  · rw [observe_pure]
    refine Ensures.pure ⟨orderly, h.closed, ?_, ?_, ?_, ?_⟩
    · rw [acquisitions_noted]
      exact h.nothing
    · rw [lengths]
    · have count := h.count
      rw [lengths, List.length_append, List.length_singleton]
      rw [List.length_cons] at count
      omega
    · intro len mem
      rw [lengths] at mem
      rcases List.mem_append.mp mem with old | new
      · exact h.small len old
      · exact List.mem_singleton.mp new ▸ metadata.len_le
  · rw [observe_throw]
    exact Ensures.throw ⟨orderly.stopped _ world, h.closed⟩

theorem stats_ensures (world : σ) :
    Ensures (forIn paths [0] (statHeld fs)) ⟨world, none, []⟩
      (Outcome (Statting paths []) Ended) := by
  refine forIn_outcome _ (fun is prefixes frame => Statting paths is prefixes frame)
    (fun _ _ h => h) (fun _ _ _ _ h => statHeld_ensures h) ?_
  exact
    { orderly := ⟨rfl, disciplined_nil, rfl, by simp [acquisitions], by simp [acquisitions],
        by simp, by simp⟩
      closed := rfl
      nothing := rfl
      prefixes_eq := rfl
      count := Nat.zero_add _
      small := by simp [phaseOneLengths, notes] }

end Run

/-! ### The discipline -/

/-- What holds of a run that ended in `outcome` after the events of `trace`. -/
structure SourceDiscipline (paths : List Path) (parts : Nat)
    (outcome : Except Halt (List WorkerAssignment)) (trace : List FileEvent) : Prop where
  disciplined : Disciplined trace
  opened_once : ((acquisitions trace).map Prod.fst).Nodup
  all_released : held trace = []
  length_changed : ∀ k len, (k, len) ∈ acquisitions trace →
    (phaseOneLengths trace)[k]? ≠ some len → ∃ message, outcome = .error (.error message)
  all_statted : ∀ workers, outcome = .ok workers → 1 ≤ parts →
    (phaseOneLengths trace).length = paths.length
  sources_exist : ∀ workers, outcome = .ok workers → ∀ row ∈ rowsOf workers,
    row.sourceIndex < (phaseOneLengths trace).length
  covered : ∀ workers, outcome = .ok workers → ∀ k len, (phaseOneLengths trace)[k]? = some len →
    Tiles 0 len (rangesOfSource k (rowsOf workers))

section Discipline

variable {σ : Type} {paths : List Path} {parts : Nat} {lens : List Nat} {frame : Frame σ}

/-- Dropping the slot after a failure. -/
theorem Stopped.assign {halt : Halt} (h : Stopped halt frame) : Ended halt (frame.assign none) := by
  obtain ⟨_, rfl, disciplined, free, same, lengths⟩ := drop_slot h.disciplined h.held_eq
  refine ⟨⟨disciplined, free, ?_⟩, rfl⟩
  intro p mem
  rw [Frame.assign, same] at mem
  rw [Frame.assign, lengths]
  exact h.unchanged p mem

theorem Ended.discipline {halt : Halt} (h : Ended halt frame) :
    SourceDiscipline paths parts (.error halt) frame.trace where
  disciplined := h.1.disciplined
  opened_once := h.1.disciplined.nodup
  all_released := by
    rw [h.1.held_eq, h.2]
    rfl
  length_changed k len mem changed := by
    obtain ⟨message, rfl⟩ := (h.1.unchanged (k, len) mem).resolve_left changed
    exact ⟨message, rfl⟩
  all_statted workers ok := by cases ok
  sources_exist workers ok := by cases ok
  covered workers ok := by cases ok

/-- A plan for the lengths of phase 1. -/
theorem Vacant.discipline {k : Nat} {trace : List FileEvent} (h : Vacant lens k trace)
    (count : 1 ≤ parts → lens.length = paths.length) {intervals : List (Nat × Nat)}
    (tiles : Tiles 0 lens.sum intervals) :
    SourceDiscipline paths parts (.ok (assignmentsOf lens intervals)) trace where
  disciplined := h.disciplined
  opened_once := h.disciplined.nodup
  all_released := h.held_eq
  length_changed k len mem changed := by
    rw [h.statted] at changed
    exact absurd (h.unchanged (k, len) mem) changed
  all_statted workers ok := by
    rw [h.statted]
    exact count
  sources_exist workers ok row mem := by
    cases ok
    rw [rowsOf_assignmentsOf] at mem
    obtain ⟨⟨k, piece⟩, memP, rfl⟩ := List.mem_map.mp mem
    obtain ⟨r, _, memR⟩ := List.mem_flatMap.mp memP
    rw [h.statted]
    exact (mem_pieces.mp memR).1
  covered workers ok k len here := by
    cases ok
    rw [h.statted] at here
    exact covered_assignmentsOf tiles here

/-- Dropping the slot after the last target. -/
theorem Orderly.assign (h : Orderly lens frame.current frame.trace) :
    Vacant lens lens.length (frame.assign none).trace := by
  refine h.vacant fun opened mem => ?_
  exact (List.getElem?_eq_some_iff.mp (h.current_len opened mem)).1

end Discipline

/-- The planner fails as `Ended` says, or returns the assignments of intervals that tile
the lengths phase 1 saw, with every opened source released. -/
theorem planLogicalPartitionsHeld_ensures {σ : Type} (fs : LiveFileSystem σ)
    (allocate : Nat → Option Nat) (paths : List Path) (parts : Nat) (delimiter : List UInt8)
    (scanBufferBytes : Nat) (world : σ) :
    Ensures (planLogicalPartitionsHeld fs allocate paths parts delimiter scanBufferBytes)
      ⟨world, none, []⟩ (Outcome (fun workers after => ∃ lens k intervals,
        workers = assignmentsOf lens intervals ∧ Vacant lens k after.trace ∧
          (1 ≤ parts → lens.length = paths.length) ∧ Tiles 0 lens.sum intervals) Ended) := by
  rw [planLogicalPartitionsHeld]
  by_cases zero : parts = 0
  · rw [if_pos zero]
    refine Ensures.pure ⟨[], 0, [], rfl, ?_, fun pos => by omega, Tiles.nil 0⟩
    exact ⟨rfl, disciplined_nil, rfl, by simp [acquisitions], by simp [acquisitions]⟩
  rw [if_neg zero]
  refine (stats_ensures world).andThen fun prefixes frame stats => ?_
  obtain ⟨orderly, closed, nothing, rfl, count, small⟩ := stats
  have length : (phaseOneLengths frame.trace).length = paths.length := count
  generalize phaseOneLengths frame.trace = lens at orderly small length
  rw [getLast?_prefixSums, okOr_some, observe_pure, pure_bind]
  by_cases empty : lens.sum = 0
  · rw [if_pos empty]
    refine Ensures.pure ⟨lens, lens.length, [], rfl, ?_, fun _ => length, ?_⟩
    · have vacant := orderly.assign
      rwa [Frame.assign, closed, Option.toList_none, List.map_nil, List.append_nil] at vacant
    · rw [empty]
      exact Tiles.nil 0
  rw [if_neg empty]
  refine Ensures.andFinally (assignHeld_ensures length.symm small (Nat.pos_of_ne_zero empty)
    (effectiveParts_le parts lens.sum) orderly closed) (fun workers after done => ?_)
    fun halt after stopped => stopped.assign
  obtain ⟨orderly, intervals, rfl, tiles⟩ := done
  exact ⟨lens, lens.length, intervals, rfl, orderly.assign, fun _ => length, tiles⟩

/-- **On-demand planning holds one source at a time.** In every run, whatever the file
system does, at most one source is open at each moment and the indices of the opened
sources ascend; a source whose length changed since phase 1 makes the call fail; and
the assignments of a call that succeeds cover every source as phase 1 saw it. -/
theorem source_discipline {σ : Type} (fs : LiveFileSystem σ) (allocate : Nat → Option Nat)
    (paths : List Path) (parts : Nat) (delimiter : List UInt8) (scanBufferBytes : Nat) (world : σ) :
    Ensures (planLogicalPartitionsHeld fs allocate paths parts delimiter scanBufferBytes)
      ⟨world, none, []⟩ fun outcome after => SourceDiscipline paths parts outcome after.trace := by
  refine (planLogicalPartitionsHeld_ensures fs allocate paths parts delimiter scanBufferBytes
    world).mono fun outcome after ended => ?_
  cases outcome with
  | error halt => exact ended.discipline
  | ok workers =>
      obtain ⟨lens, k, intervals, rfl, vacant, count, tiles⟩ := ended
      exact vacant.discipline count tiles

/-- Two sources that are each opened for one target. -/
example : (runFrom (planLogicalPartitionsHeld ⟨fun _ => pure ⟨4, by decide⟩,
      fun _ => pure (dribble Scanner.twoRecords)⟩ (fun _ => some 0) ["a", "b"] 4 [10] 0)
      ⟨0, none, []⟩).map (fun p => p.2.trace) =
    some [.noted ⟨4⟩, .noted ⟨4⟩, .acquired 0 4, .released 0, .acquired 1 4, .released 1] := by
  decide +kernel

/-- A source that grew after its stat. -/
example : (runFrom (planLogicalPartitionsHeld ⟨fun _ => pure ⟨3, by decide⟩,
      fun _ => pure (dribble Scanner.twoRecords)⟩ (fun _ => some 0) ["a"] 2 [10] 0)
      ⟨0, none, []⟩).map (fun p => (p.1, p.2.trace)) =
    some (.error (.error "source length changed during planning: a"),
      [.noted ⟨3⟩, .acquired 0 4, .released 0]) := by decide +kernel

end Cli
