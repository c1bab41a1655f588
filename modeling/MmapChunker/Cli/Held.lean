import MmapChunker.Cli.Sourced
import MmapChunker.Theory.Coupling
import MmapChunker.Theory.Handles

/-!
The on-demand planner with its frame (`src/bin/mmap-chunker.rs`).

`planLogicalPartitionsHeld` is `plan_logical_partitions_sourced` with what
`planLogicalPartitionsSourced` leaves out: the slot `current`, the drops of the values
it holds, and a trace of what was statted, opened and released. Stats depend on the
state of the file system as opens do, so a file may change between the two.

`planLogicalPartitionsHeld_refines` says that nothing else was added: with stats that
do not change, the two planners end alike.
-/

namespace Cli

open Machine TargetWalk Exec Handles Source

/-! ### Source -/

/-- `std::fs::Metadata`, of which the planner reads the length, a `u64`. -/
structure Metadata where
  len : Nat
  len_le : len ≤ usizeMax

/-- The file system. Both calls may depend on its state and change it. -/
structure LiveFileSystem (σ : Type) where
  metadata : Path → Exec σ IoError Metadata
  openPath : Path → Exec σ IoError (ByteSource σ)

/-- A stat of phase 1, with the length it returned. -/
structure Statted where
  len : Nat
  deriving Repr, DecidableEq

/-- What happens to the files: an open source is acquired with the length it has. -/
abbrev FileEvent := Event Nat Statted

/-- Why a run ends without assignments. -/
inductive Halt where
  | error (message : String)
  | panic
  deriving Repr, DecidableEq

/-- The frame of `plan_logical_partitions_sourced`: the file system, the slot `current`
and what has happened so far. -/
structure Frame (σ : Type) where
  world : σ
  current : Option (OpenSourced σ)
  trace : List FileEvent

section Source

variable {σ α : Type}

/-- Run a computation of the file system. It leaves the slot alone; when it panics,
the state it leaves behind is lost and the one before stands for it. -/
def observe (x : Exec σ String α) : Exec (Frame σ) Halt α :=
  step fun frame =>
    match runFrom x frame.world with
    | some (.ok a, world) => (.ok a, { frame with world })
    | some (.error e, world) => (.error (.error e), { frame with world })
    | none => (.error .panic, frame)

/-- Note what happens. -/
def record (event : FileEvent) : Exec (Frame σ) Halt Unit :=
  step fun frame => (.ok (), { frame with trace := frame.trace ++ [event] })

/-- `*current = next`, which drops the value the slot held. -/
def Frame.assign (frame : Frame σ) (next : Option (OpenSourced σ)) : Frame σ where
  world := frame.world
  current := next
  trace := frame.trace ++ frame.current.toList.map fun opened => .released opened.index

/-- A computation that owns the source with index `index` until it succeeds: when it
fails, the source is dropped. -/
def orDrop (index : Nat) (x : Exec (Frame σ) Halt α) : Exec (Frame σ) Halt α :=
  ExceptT.mk fun frame => (runFrom x frame).map fun p =>
    match p with
    | (.ok a, frame) => (.ok a, frame)
    | (.error e, frame) => (.error e, { frame with trace := frame.trace ++ [.released index] })

/-- The length check of `project_sourced_target` and the fresh `OpenSourced`. -/
def checkedOpen (allocate : Nat → Option Nat) (path : Path)
    (sourceIndex expectedLen bufferLen : Nat) (source : ByteSource σ) :
    Exec σ String (OpenSourced σ) := do
  if (← usizeToU128 source.len) ≠ expectedLen then
    throw ("source length changed during planning: " ++ path.display)
  let buffer ← orPanic (zeroedVec allocate bufferLen)
  return ⟨sourceIndex, source, .initial, buffer⟩

/-- Replace the source in the slot by the one with index `sourceIndex`. -/
def openHeld (fs : LiveFileSystem σ) (allocate : Nat → Option Nat) (path : Path)
    (sourceIndex expectedLen bufferLen : Nat) : Exec (Frame σ) Halt Unit := do
  step fun frame => (.ok (), frame.assign none)
  let source ← observe (mapErr (openError path) (fs.openPath path))
  record (.acquired sourceIndex source.len)
  let opened ← orDrop sourceIndex
    (observe (checkedOpen allocate path sourceIndex expectedLen bufferLen source))
  step fun frame => (.ok (), frame.assign (some opened))

/-- The source in the slot when it is the one the target lies in, else that one,
opened. -/
def currentOrOpen (fs : LiveFileSystem σ) (allocate : Nat → Option Nat) (path : Path)
    (sourceIndex expectedLen bufferLen : Nat) : Exec (Frame σ) Halt (OpenSourced σ) := do
  if (← Exec.current).current.map OpenSourced.index ≠ some sourceIndex then
    openHeld fs allocate path sourceIndex expectedLen bufferLen
  okOr (← Exec.current).current (.error "internal error: source not open")

/-- `project_sourced_target`. -/
def projectHeldTarget (fs : LiveFileSystem σ) (allocate : Nat → Option Nat) (prefixes : List Nat)
    (paths : List Path) (delimiter : List UInt8) (bufferLen target : Nat) :
    Exec (Frame σ) Halt Nat := do
  if target ∈ prefixes then return target
  let (sourceIndex, sourceStart) ← observe (locateSource target prefixes)
  let sourceEnd ← observe (orPanic prefixes[sourceIndex + 1]?)
  let expectedLen ← observe (orPanic (subU64 sourceEnd sourceStart))
  let localTarget ← observe (localTarget target sourceStart)
  let path ← observe (okOr paths[sourceIndex]? "internal error: target source out of bounds")
  let opened ← currentOrOpen fs allocate path sourceIndex expectedLen bufferLen
  let (localBoundary, state, buffer) ← observe (nextRecordBoundarySourced opened.source
    localTarget delimiter opened.state opened.buffer path)
  step fun frame => (.ok (), { frame with current := some { opened with state, buffer } })
  observe do orPanic (checkedAddU128 sourceStart (← usizeToU128 localBoundary))

/-- One iteration of phase 1. -/
def statHeld (fs : LiveFileSystem σ) (path : Path) (prefixes : List Nat) :
    Exec (Frame σ) Halt (ForInStep (List Nat)) := do
  let metadata ← observe (mapErr (openError path) (fs.metadata path))
  record (.noted ⟨metadata.len⟩)
  observe (pushPrefix metadata.len prefixes)

/-- The target of a partition. -/
def targetOf (total effectiveParts partition : Nat) : Exec σ String Nat := do
  let product ← okOr (checkedMulU128 total (← usizeToU128 partition))
    "logical target arithmetic overflow"
  return product / (← usizeToU128 effectiveParts)

/-- One iteration of the target loop. -/
def planHeldStep (project : Nat → Exec (Frame σ) Halt Nat) (total effectiveParts partition : Nat)
    (st : WalkState Nat) : Exec (Frame σ) Halt (ForInStep (WalkState Nat)) := do
  let target ← observe (targetOf total effectiveParts partition)
  if target ≤ st.lastBoundary then return .yield st
  let projected ← project target
  if projected ≤ st.lastBoundary then return .yield st
  if projected = total then return .done st
  return .yield ⟨st.boundaries ++ [projected], projected⟩

/-- The assignments of the cuts. -/
def assignmentsFrom (prefixes : List Nat) (sourceCount : Nat) (cuts : List Nat) (total : Nat) :
    Exec σ String (List WorkerAssignment) := do
  let (assignments, _) ← forIn (cuts ++ [total]) ([], 0) (assignStep prefixes sourceCount)
  return assignments

/-- `plan_logical_partitions_sourced`. The slot is declared after phase 1 and dropped
however the planner ends. -/
def planLogicalPartitionsHeld (fs : LiveFileSystem σ) (allocate : Nat → Option Nat)
    (paths : List Path) (requestedParts : Nat) (delimiter : List UInt8) (scanBufferBytes : Nat) :
    Exec (Frame σ) Halt (List WorkerAssignment) := do
  if requestedParts = 0 then return []
  let prefixes ← forIn paths [0] (statHeld fs)
  let total ← observe (okOr prefixes.getLast? "internal error: missing logical length")
  if total = 0 then return []
  let parts := effectiveParts requestedParts total
  andFinally (fun frame => frame.assign none) do
    let walked ← forIn (List.range' 1 (parts - 1)) ⟨[], 0⟩
      (planHeldStep (projectHeldTarget fs allocate prefixes paths delimiter
        (bufferLen scanBufferBytes delimiter.length)) total parts)
    observe (assignmentsFrom prefixes paths.length walked.boundaries total)

end Source

/-! ### Observed computations -/

section Observe

variable {σ α : Type}

@[simp] theorem observe_pure (a : α) : (observe (pure a) : Exec (Frame σ) Halt α) = pure a := rfl

@[simp] theorem observe_throw (e : String) :
    (observe (throw e) : Exec (Frame σ) Halt α) = throw (.error e) := rfl

/-- An observed computation changes nothing but the file system. -/
theorem observe_ensures {x : Exec σ String α} {frame : Frame σ}
    {post : α → Frame σ → Prop} {failed : Halt → Frame σ → Prop}
    (value : ∀ a world s, runFrom x s = some (.ok a, world) → post a { frame with world })
    (fails : ∀ halt world, failed halt { frame with world }) :
    Ensures (observe x) frame (Outcome post failed) := by
  cases run : runFrom x frame.world with
  | none => exact ⟨.error .panic, frame, by rw [observe, runFrom_step, run], fails _ frame.world⟩
  | some p =>
      obtain ⟨e | a, world⟩ := p
      · exact ⟨.error (.error e), { frame with world }, by rw [observe, runFrom_step, run],
          fails _ world⟩
      · exact ⟨.ok a, { frame with world }, by rw [observe, runFrom_step, run],
          value a world _ run⟩

theorem observe_bind {β : Type} {x : Exec σ String α} {f : α → Exec (Frame σ) Halt β}
    {frame : Frame σ} {post : β → Frame σ → Prop} {failed : Halt → Frame σ → Prop}
    (fails : ∀ halt world, failed halt { frame with world })
    (next : ∀ a world s, runFrom x s = some (.ok a, world) →
      Ensures (f a) { frame with world } (Outcome post failed)) :
    Ensures (observe x >>= f) frame (Outcome post failed) :=
  (observe_ensures next fails).andThen fun _ _ rest => rest

/-- A source that is dropped on failure. -/
theorem orDrop_ensures {x : Exec (Frame σ) Halt α} {frame : Frame σ} {index : Nat}
    {post : α → Frame σ → Prop} {failed failed' : Halt → Frame σ → Prop}
    (h : Ensures x frame (Outcome post failed))
    (dropped : ∀ halt (after : Frame σ), failed halt after →
      failed' halt { after with trace := after.trace ++ [.released index] }) :
    Ensures (orDrop index x) frame (Outcome post failed') := by
  obtain ⟨r, after, run, outcome⟩ := h
  cases r with
  | error halt =>
      refine ⟨.error halt, _, ?_, dropped halt after outcome⟩
      change (runFrom x frame).map _ = _
      rw [run]
      rfl
  | ok a =>
      refine ⟨.ok a, after, ?_, outcome⟩
      change (runFrom x frame).map _ = _
      rw [run]
      rfl

theorem targetOf_eq {total n i : Nat} (smallI : i ≤ usizeMax) (smallN : n ≤ usizeMax) :
    (targetOf total n i : Exec σ String Nat) =
      match logicalTarget total n i with
      | .ok t => pure t
      | .error e => throw e := by
  simp only [targetOf, usizeToU128_eq smallI, usizeToU128_eq smallN, pure_bind, logicalTarget,
    checkedMulU128]
  split
  · rw [okOr_some, pure_bind]
  · rw [okOr_none, throw_bind]

end Observe

/-! ### Without the trace -/

/-- A file system whose stats do not change. -/
def LiveFileSystem.steady {σ : Type} (metadata : Path → Except IoError Metadata)
    (openPath : Path → Exec σ IoError (ByteSource σ)) : LiveFileSystem σ :=
  ⟨fun path => fromExcept (metadata path), openPath⟩

/-- The same as a backend. -/
def Backend.steady {σ : Type} (metadata : Path → Except IoError Metadata)
    (openPath : Path → Exec σ IoError (ByteSource σ)) : Backend σ :=
  ⟨fun path => (metadata path).map Metadata.len, openPath⟩

/-- The same error, in the same state, or a panic. -/
def StopAlike {σ : Type} : Option (String × σ) → Option (Halt × Frame σ) → Prop
  | some (e, s), some (halt, frame) => halt = .error e ∧ frame.world = s
  | none, some (halt, _) => halt = .panic
  | _, none => False

section Refinement

variable {σ α β γ : Type} {s : σ} {frame : Frame σ}

theorem observe_coupled (x : Exec σ String α) (frame : Frame σ) :
    Coupled (fun a s b after => a = b ∧ after = { frame with world := s }) StopAlike
      x frame.world (observe x) frame := by
  unfold Coupled ending
  rw [observe, runFrom_step]
  rcases runFrom x frame.world with _ | ⟨_ | _, _⟩
  · exact .inr rfl
  · exact .inr ⟨rfl, rfl⟩
  · exact .inl ⟨rfl, rfl⟩

theorem observe_bind_coupled {x : Exec σ String α} {f : α → Exec σ String β}
    {g : α → Exec (Frame σ) Halt γ} {post : β → σ → γ → Frame σ → Prop} (frame : Frame σ)
    (next : ∀ a world, Coupled post StopAlike (f a) world (g a) { frame with world }) :
    Coupled post StopAlike (x >>= f) frame.world (observe x >>= g) frame := by
  refine (observe_coupled x frame).bind ?_
  rintro a world _ _ ⟨rfl, rfl⟩
  exact next a world

theorem StopAlike.of_world {failed : Option (String × σ)} {failed' : Option (Halt × Frame σ)}
    (alike : StopAlike failed failed') {change : Frame σ → Frame σ}
    (same : ∀ frame, (change frame).world = frame.world) :
    StopAlike failed (failed'.map (Prod.map id change)) := by
  rcases failed with _ | ⟨e, s⟩ <;> rcases failed' with _ | ⟨halt, after⟩
  · exact alike
  · exact alike
  · exact alike
  · exact ⟨alike.1, (same after).trans alike.2⟩

theorem orDrop_coupled {x : Exec σ String α} {y : Exec (Frame σ) Halt β} {index : Nat}
    {post : α → σ → β → Frame σ → Prop} (h : Coupled post StopAlike x s y frame) :
    Coupled post StopAlike x s (orDrop index y) frame := by
  have dropped : ending (orDrop index y) frame = (ending y frame).map id (Option.map (Prod.map id
      fun after => { after with trace := after.trace ++ [.released index] })) := by
    have run : runFrom (orDrop index y) frame = (runFrom y frame).map fun p =>
        match p with
        | (.ok a, after) => (.ok a, after)
        | (.error e, after) =>
            (.error e, { after with trace := after.trace ++ [.released index] }) := rfl
    rw [ending, ending, run]
    rcases runFrom y frame with _ | ⟨_ | _, _⟩ <;> rfl
  unfold Coupled at h ⊢
  rw [dropped]
  generalize ending x s = ends, ending y frame = ends' at h ⊢
  cases h with
  | inl related => exact .inl related
  | inr failed => exact .inr (failed.of_world fun _ => rfl)

variable {metadata : Path → Except IoError Metadata}
  {openPath : Path → Exec σ IoError (ByteSource σ)} {allocate : Nat → Option Nat}
  {prefixes : List Nat} {paths : List Path} {delimiter : List UInt8} {bufferLen : Nat}

theorem openFresh_eq (backend : Backend σ) (path : Path) (k expectedLen : Nat) :
    openFresh backend allocate path k expectedLen bufferLen =
      mapErr (openError path) (backend.openPath path) >>=
        checkedOpen allocate path k expectedLen bufferLen := rfl

theorem openHeld_coupled (path : Path) (k expectedLen : Nat) (frame : Frame σ) :
    Coupled (fun opened s _ after => after.current = some opened ∧ after.world = s) StopAlike
      (openFresh (Backend.steady metadata openPath) allocate path k expectedLen bufferLen)
      frame.world
      (openHeld (LiveFileSystem.steady metadata openPath) allocate path k expectedLen bufferLen)
      frame := by
  rw [openHeld, openFresh_eq]
  refine Coupled.step_right rfl ?_
  refine observe_bind_coupled (frame.assign none) fun source world => ?_
  refine Coupled.step_right rfl ?_
  refine (orDrop_coupled (observe_coupled
    (checkedOpen allocate path k expectedLen bufferLen source)
    ⟨world, none, (frame.assign none).trace ++ [.acquired k source.len]⟩)).bind_right ?_
  rintro opened world _ after ⟨rfl, rfl⟩
  exact .inl ⟨rfl, rfl⟩

theorem currentOrOpen_coupled (path : Path) (k expectedLen : Nat) (frame : Frame σ) :
    Coupled (fun opened s opened' after => opened = opened' ∧ after.world = s) StopAlike
      (reuseOrOpen (Backend.steady metadata openPath) allocate path k expectedLen bufferLen
        frame.current)
      frame.world
      (currentOrOpen (LiveFileSystem.steady metadata openPath) allocate path k expectedLen
        bufferLen)
      frame := by
  rw [reuseOrOpen, currentOrOpen]
  refine Coupled.step_right rfl ?_
  dsimp only
  cases reuse : reusable frame.current k with
  | some opened =>
      obtain ⟨slot, index⟩ := Option.filter_eq_some_iff.mp reuse
      have same : frame.current.map OpenSourced.index = some k := by
        rw [slot, Option.map_some, of_decide_eq_true index]
      rw [if_neg (not_not.mpr same)]
      refine Coupled.step_right rfl ?_
      rw [slot, okOr_some]
      exact Coupled.pure ⟨rfl, rfl⟩
  | none =>
      have other : frame.current.map OpenSourced.index ≠ some k := by
        intro same
        obtain ⟨opened, slot, index⟩ := Option.map_eq_some_iff.mp same
        exact Option.filter_eq_none_iff.mp reuse opened slot (decide_eq_true index)
      rw [if_pos other]
      refine (openHeld_coupled path k expectedLen frame).bind_right ?_
      rintro opened _ _ after ⟨slot, rfl⟩
      refine Coupled.step_right rfl ?_
      rw [slot, okOr_some]
      exact Coupled.pure ⟨rfl, rfl⟩

theorem projectHeldTarget_coupled (t : Nat) (frame : Frame σ) :
    Coupled (fun p s c after => p.1 = c ∧ p.2 = after.current ∧ after.world = s) StopAlike
      (projectSourcedTarget (Backend.steady metadata openPath) allocate prefixes paths delimiter
        bufferLen t frame.current)
      frame.world
      (projectHeldTarget (LiveFileSystem.steady metadata openPath) allocate prefixes paths delimiter
        bufferLen t)
      frame := by
  rw [projectSourcedTarget, projectHeldTarget]
  split
  · exact Coupled.pure ⟨rfl, rfl, rfl⟩
  refine observe_bind_coupled frame fun located world => ?_
  obtain ⟨k, sourceStart⟩ := located
  dsimp only
  refine observe_bind_coupled { frame with world } fun sourceEnd world => ?_
  refine observe_bind_coupled { frame with world } fun expectedLen world => ?_
  refine observe_bind_coupled { frame with world } fun localTarget world => ?_
  refine observe_bind_coupled { frame with world } fun path world => ?_
  refine (currentOrOpen_coupled path k expectedLen { frame with world }).bind ?_
  rintro opened _ _ after ⟨rfl, rfl⟩
  refine observe_bind_coupled after fun found world => ?_
  obtain ⟨localBoundary, state, buffer⟩ := found
  dsimp only
  refine Coupled.step_right rfl ?_
  rw [← bind_assoc]
  refine (observe_coupled
    (do orPanic (checkedAddU128 sourceStart (← usizeToU128 localBoundary)))
    ⟨world, some { opened with state, buffer }, after.trace⟩).bind_left ?_
  rintro projected _ _ _ ⟨rfl, rfl⟩
  exact Coupled.pure ⟨rfl, rfl, rfl⟩

/-- The state of the target loop, with the slot beside it. -/
def SameWalk (p : WalkState Nat × Option (OpenSourced σ)) (s : σ) (st : WalkState Nat)
    (frame : Frame σ) : Prop :=
  p.1 = st ∧ p.2 = frame.current ∧ frame.world = s

theorem planHeldStep_coupled {total n i : Nat} (smallI : i ≤ usizeMax) (smallN : n ≤ usizeMax)
    (st : WalkState Nat) (frame : Frame σ) :
    Coupled (fun once s once' after => StepAgree (fun p st => SameWalk p s st after)
        (fun p st => SameWalk p s st after) once once')
      StopAlike
      (planStep (projectSourcedTarget (Backend.steady metadata openPath) allocate prefixes paths
        delimiter bufferLen) total n i (st, frame.current))
      frame.world
      (planHeldStep (projectHeldTarget (LiveFileSystem.steady metadata openPath) allocate prefixes
        paths delimiter bufferLen) total n i st)
      frame := by
  rw [planStep_eq smallI smallN, planHeldStep, targetOf_eq smallI smallN]
  cases logicalTarget total n i with
  | error e =>
      dsimp only
      rw [observe_throw, throw_bind]
      exact Coupled.throw ⟨rfl, rfl⟩
  | ok t =>
      dsimp only [cutStep]
      rw [observe_pure, pure_bind]
      split
      · exact Coupled.pure ⟨rfl, rfl, rfl⟩
      refine (projectHeldTarget_coupled t frame).bind ?_
      rintro ⟨projected, current⟩ _ _ after ⟨rfl, slot, rfl⟩
      dsimp only at slot ⊢
      split
      · exact Coupled.pure ⟨rfl, slot, rfl⟩
      split
      · exact Coupled.pure ⟨rfl, slot, rfl⟩
      · exact Coupled.pure ⟨rfl, slot, rfl⟩

/-- The target loop. -/
theorem walkHeld_coupled {total n : Nat} (smallN : n ≤ usizeMax) {is : List Nat}
    (inside : ∀ i ∈ is, i ≤ usizeMax) (st : WalkState Nat) (frame : Frame σ) :
    Coupled SameWalk StopAlike
      (forIn is (st, frame.current) (planStep (projectSourcedTarget
        (Backend.steady metadata openPath) allocate prefixes paths delimiter bufferLen) total n))
      frame.world
      (forIn is st (planHeldStep (projectHeldTarget (LiveFileSystem.steady metadata openPath)
        allocate prefixes paths delimiter bufferLen) total n))
      frame := by
  refine Coupled.forIn (fun is p s st after => SameWalk p s st after ∧ ∀ i ∈ is, i ≤ usizeMax)
    (fun _ _ _ _ h => h.1) ?_ ⟨⟨rfl, rfl, rfl⟩, inside⟩
  rintro i is ⟨_, _⟩ _ st after ⟨⟨rfl, rfl, rfl⟩, inside⟩
  have rest : ∀ j ∈ is, j ≤ usizeMax := fun j mem => inside j (List.mem_cons_of_mem i mem)
  refine (planHeldStep_coupled (inside i List.mem_cons_self) smallN _ after).mono ?_
  intro once s once' after' agree
  exact agree.mono (fun _ _ same => ⟨same, rest⟩) fun _ _ same => same

/-- Phase 2. -/
theorem assignHeld_coupled {total n : Nat} (smallN : n ≤ usizeMax) (frame : Frame σ)
    (closed : frame.current = none) :
    Coupled (fun workers s workers' after => workers = workers' ∧ after.world = s) StopAlike
      (do
        let (walked, _) ← forIn (List.range' 1 (n - 1)) (⟨[], 0⟩, none)
          (planStep (projectSourcedTarget (Backend.steady metadata openPath) allocate prefixes paths
            delimiter bufferLen) total n)
        let (assignments, _) ← forIn (walked.boundaries ++ [total]) ([], 0)
          (assignStep prefixes paths.length)
        return assignments)
      frame.world
      (do
        let walked ← forIn (List.range' 1 (n - 1)) ⟨[], 0⟩
          (planHeldStep (projectHeldTarget (LiveFileSystem.steady metadata openPath) allocate
            prefixes paths delimiter bufferLen) total n)
        observe (assignmentsFrom prefixes paths.length walked.boundaries total))
      frame := by
  have inside : ∀ i ∈ List.range' 1 (n - 1), i ≤ usizeMax := by
    intro i mem
    exact (Loop.lt_of_mem_indices mem).le.trans smallN
  rw [← closed]
  refine (walkHeld_coupled smallN inside ⟨[], 0⟩ frame).bind ?_
  rintro ⟨walked, _⟩ _ _ after ⟨rfl, rfl, rfl⟩
  refine (observe_coupled (assignmentsFrom prefixes paths.length walked.boundaries total)
    after).mono ?_
  rintro workers _ _ _ ⟨rfl, rfl⟩
  exact ⟨rfl, rfl⟩

/-- The end of phase 1: the same prefixes, and nothing open. -/
def SameStart (prefixes : List Nat) (s : σ) (prefixes' : List Nat) (frame : Frame σ) : Prop :=
  prefixes = prefixes' ∧ frame.world = s ∧ frame.current = none

theorem statHeld_coupled (path : Path) (prefixes : List Nat) (frame : Frame σ)
    (closed : frame.current = none) :
    Coupled (fun once s once' after => StepAgree (fun prefixes prefixes' =>
          SameStart prefixes s prefixes' after) (fun prefixes prefixes' =>
          SameStart prefixes s prefixes' after) once once') StopAlike
      (statStep (Backend.steady metadata openPath) path prefixes) frame.world
      (statHeld (LiveFileSystem.steady metadata openPath) path prefixes) frame := by
  rw [statStep, statHeld]
  dsimp only [Backend.steady, LiveFileSystem.steady]
  cases metadata path with
  | error error => exact Coupled.throw ⟨rfl, rfl⟩
  | ok found =>
      refine Coupled.step_right rfl ?_
      refine Coupled.step_right rfl ?_
      refine (observe_coupled (pushPrefix found.len prefixes)
        { frame with trace := frame.trace ++ [.noted ⟨found.len⟩] }).mono ?_
      rintro once _ _ after ⟨rfl, rfl⟩
      cases once <;> exact ⟨rfl, rfl, closed⟩

/-- Phase 1. -/
theorem stats_coupled (frame : Frame σ) (closed : frame.current = none) :
    Coupled SameStart StopAlike
      (forIn paths [0] (statStep (Backend.steady metadata openPath))) frame.world
      (forIn paths [0] (statHeld (LiveFileSystem.steady metadata openPath))) frame := by
  refine Coupled.forIn (fun _ => SameStart) (fun _ _ _ _ same => same) ?_ ⟨rfl, rfl, closed⟩
  rintro path _ prefixes _ _ after ⟨rfl, rfl, closed⟩
  exact statHeld_coupled path prefixes after closed

/-- **The trace is all that was added.** With stats that do not change, the planner
with its frame ends as the planner without: in the same state, with the same
assignments, the same error or a panic. -/
theorem planLogicalPartitionsHeld_refines (metadata : Path → Except IoError Metadata)
    (openPath : Path → Exec σ IoError (ByteSource σ)) (allocate : Nat → Option Nat)
    (paths : List Path) (parts : Nat) (delimiter : List UInt8) (scanBufferBytes : Nat) (s : σ) :
    Coupled (fun workers s workers' after => workers = workers' ∧ after.world = s) StopAlike
      (planLogicalPartitionsSourced (Backend.steady metadata openPath) allocate paths parts
        delimiter scanBufferBytes) s
      (planLogicalPartitionsHeld (LiveFileSystem.steady metadata openPath) allocate paths parts
        delimiter scanBufferBytes) ⟨s, none, []⟩ := by
  rw [planLogicalPartitionsSourced, planLogicalPartitionsHeld]
  split
  · exact Coupled.pure ⟨rfl, rfl⟩
  refine (stats_coupled ⟨s, none, []⟩ rfl).bind ?_
  rintro prefixes _ _ after ⟨rfl, rfl, closed⟩
  rw [planTargets]
  refine observe_bind_coupled after fun total world => ?_
  split
  · exact Coupled.pure ⟨rfl, rfl⟩
  refine Coupled.andFinally_right
    (assignHeld_coupled (effectiveParts_le parts total) { after with world } closed)
    (fun _ _ _ _ same => same) fun _ _ alike => ?_
  exact alike.of_world fun _ => rfl

end Refinement

end Cli
