import Mathlib.Algebra.Order.BigOperators.Group.List
import Mathlib.Algebra.Order.Ring.Nat
import MmapChunker.Mmap.Windowed

/-!
How much a windowed file maps (`WindowedMmapFile` in `src/mmap.rs`).

The documentation promises a view of at most the window size plus the alignment slack,
and one window at a time. `liveViews` reads what is mapped off the recorded events, at
every point of a run, inside a call too.

A request longer than the window is mapped whole, and the new view is mapped before
the old one is unmapped. `mapped_bounded_iff` says when the bound holds all the same.
-/

namespace Mmap

open Machine Exec Source Calls

/-! ### What is mapped -/

/-- The live views after one more event. -/
def liveStep (live : List WindowView) : Event → List WindowView
  | .mapped view => view :: live
  | .unmapped view => live.erase view
  | .refused _ _ => live
  | .copied _ _ _ => live

/-- The views that are mapped and not yet unmapped. -/
def liveViews (events : List Event) : List WindowView := events.foldl liveStep []

/-- How many bytes the live views map. -/
def mappedBytes (events : List Event) : Nat := ((liveViews events).map WindowView.mappedLen).sum

/-- At every point the live views map at most the window and one alignment unit. -/
def Bounded (file : WindowedMmapFile) (events : List Event) : Prop :=
  ∀ point, point <+: events → mappedBytes point ≤ file.windowBytes + viewAlignment

/-- The length of the cached view, `0` if there is none. -/
def cachedLen (view : Option WindowView) : Nat := (view.map WindowView.mappedLen).getD 0

/-- A call that keeps the bound: it reads nothing, or the cached view has it, or the
system refuses the view, or the cached and the new view are small enough together. -/
def Fits {ω : Type} (os : Os ω) (file : WindowedMmapFile) (input : Nat × List UInt8)
    (s : ViewState ω) : Prop :=
  (input.2 = [] ∨ file.size ≤ input.1) ∨
  (∃ view ∈ s.view, view.Covers input.1 (count file input.1 input.2)) ∨
  (∃ error next, os.mmap (viewStart input.1)
    (viewLen file input.1 (count file input.1 input.2)) s.os = (.error error, next)) ∨
  cachedLen s.view + viewLen file input.1 (count file input.1 input.2) ≤
    file.windowBytes + viewAlignment

section Bound

variable {ω : Type} {os : Os ω} {file : WindowedMmapFile} {offset : Nat} {out : List UInt8}
  {s s' : ViewState ω} {r : Except IoError (Nat × List UInt8)} {events : List Event}

theorem liveViews_concat (events : List Event) (event : Event) :
    liveViews (events ++ [event]) = liveStep (liveViews events) event := by
  rw [liveViews, List.foldl_append]
  rfl

theorem bounded_concat (events : List Event) (event : Event) :
    Bounded file (events ++ [event]) ↔
      Bounded file events ∧ mappedBytes (events ++ [event]) ≤ file.windowBytes + viewAlignment := by
  constructor
  · intro bounded
    exact ⟨fun point le => bounded point (le.trans (List.prefix_append _ _)),
      bounded _ (List.prefix_refl _)⟩
  · rintro ⟨bounded, last⟩ point le
    rcases List.prefix_concat_iff.mp le with rfl | le
    · exact last
    · exact bounded point le

/-- An event that maps nothing keeps the bound. -/
theorem bounded_concat_of_le (event : Event)
    (le : mappedBytes (events ++ [event]) ≤ mappedBytes events) :
    Bounded file (events ++ [event]) ↔ Bounded file events := by
  rw [bounded_concat]
  exact ⟨And.left, fun bounded => ⟨bounded, le.trans (bounded _ (List.prefix_refl _))⟩⟩

theorem mappedBytes_of_live {view : Option WindowView} (live : liveViews events = view.toList) :
    mappedBytes events = cachedLen view := by
  rw [mappedBytes, live]
  cases view with
  | none => rfl
  | some view => exact Nat.add_zero _

/-- The live views are the cached one, after every call. -/
theorem ReadStep.live (read : ReadStep os file offset out s r s')
    (live : liveViews s.events = s.view.toList) : liveViews s'.events = s'.view.toList := by
  cases read with
  | idle => exact live
  | hit => exact (liveViews_concat _ _).trans live
  | refused => exact (liveViews_concat _ _).trans live
  | @mapped _ _ view =>
      rw [liveViews, List.foldl_append, ← liveViews, live]
      cases s.view with
      | none => rfl
      | some old =>
          change List.erase [view, old] old = [view]
          by_cases same : view = old
          · rw [same, List.erase_cons_head]
          · rw [List.erase_cons_tail (by simpa using same), List.erase_cons_head]

/-- One call keeps the bound if and only if it fits. -/
theorem ReadStep.bounded_iff (read : ReadStep os file offset out s r s')
    (live : liveViews s.events = s.view.toList) :
    Bounded file s'.events ↔ Bounded file s.events ∧ Fits os file (offset, out) s := by
  cases read with
  | idle nothing => exact (and_iff_left (.inl nothing)).symm
  | @hit view _ cached covers =>
      rw [and_iff_left (.inr (.inl ⟨view, cached, covers⟩))]
      refine bounded_concat_of_le _ (le_of_eq ?_)
      rw [mappedBytes, liveViews_concat]
      rfl
  | @refused error next _ _ answer =>
      rw [and_iff_left (.inr (.inr (.inl ⟨error, next, answer⟩)))]
      refine bounded_concat_of_le _ (le_of_eq ?_)
      rw [mappedBytes, liveViews_concat]
      rfl
  | @mapped ptr next view something miss answer fresh =>
      have fits : Fits os file (offset, out) s ↔
          mappedBytes (s.events ++ [.mapped view]) ≤ file.windowBytes + viewAlignment := by
        have bytes : mappedBytes (s.events ++ [.mapped view]) =
            cachedLen s.view + viewLen file offset (count file offset out) := by
          rw [mappedBytes, liveViews_concat, ← mappedBytes_of_live live, mappedBytes, Nat.add_comm,
            fresh]
          rfl
        rw [bytes]
        constructor
        · rintro (nothing | ⟨view, cached, covers⟩ | ⟨error, next', refused⟩ | le)
          · exact absurd nothing something
          · exact absurd covers (miss view cached)
          · rw [answer] at refused
            cases refused
          · exact le
        · exact fun le => .inr (.inr (.inr le))
      -- Mapping comes first; the copy and the unmapping add nothing to it.
      have copied : Bounded file (s.events ++ [.mapped view] ++
          [.copied view (offset % viewAlignment) (count file offset out)]) ↔
          Bounded file (s.events ++ [.mapped view]) := by
        refine bounded_concat_of_le _ (le_of_eq ?_)
        rw [mappedBytes, liveViews_concat]
        rfl
      rw [fits, ← bounded_concat, ← copied]
      cases s.view with
      | none =>
          rw [List.append_assoc]
          rfl
      | some old =>
          refine Iff.trans (Eq.to_iff (congrArg (Bounded file) ?_)) (bounded_concat_of_le
            (.unmapped old) ?_)
          · simp
          · rw [mappedBytes, liveViews_concat]
            exact List.Sublist.sum_le_sum (List.erase_sublist.map _) fun _ _ => Nat.zero_le _

end Bound

/-! ### Every sequence of reads -/

/-- **When the mapped bytes stay bounded.** For every sequence of reads, the live views
map at most the window and one alignment unit at every point of the run, if and only
if every call fits. -/
theorem mapped_bounded_iff {ω : Type} (os : Os ω) (file : WindowedMmapFile) (start : ω)
    (inputs : List (Nat × List UInt8)) :
    ∃ calls s, Run (file.readStep os) (opened start) calls s ∧ calls.map Call.input = inputs ∧
      ((∀ point, point <+: s.events → mappedBytes point ≤ file.windowBytes + viewAlignment) ↔
        ∀ call ∈ calls, Fits os file call.input call.before) := by
  obtain ⟨calls, s, run, same, _, _, bounded⟩ := exists_run (file.readStep os) (opened start)
    (fun calls s => (∀ view ∈ s.view, view.Within file) ∧ liveViews s.events = s.view.toList ∧
      (Bounded file s.events ↔ ∀ call ∈ calls, Fits os file call.input call.before))
    ⟨fun _ mem => (by cases mem), rfl, fun _ _ mem => (by cases mem), fun _ point le => by
      rw [List.prefix_nil.mp le]
      exact Nat.zero_le _⟩
    (fun calls input before ⟨within, live, bounded⟩ => by
      obtain ⟨r, s', stepped, read⟩ := file.readAt_step os within input.1 input.2
      refine ⟨r, s', stepped, read.within within, read.live live, ?_⟩
      rw [read.bounded_iff live, bounded, List.forall_mem_append, List.forall_mem_singleton])
    inputs
  exact ⟨calls, s, run, same, bounded⟩

/-- A system that grants every mapping request. -/
def grantAll : Os Unit where
  mmap _ _ _ := (.ok 0, ())

/-- A file of 1 MiB, opened with the smallest window. -/
def oneMib : WindowedMmapFile where
  bytes := List.replicate 1048576 0
  windowBytes := viewAlignment
  size_le := by
    rw [List.length_replicate]
    decide
  window_ge := le_refl _
  window_le := by decide

/-- One read with a buffer of 1 MiB maps the whole file. -/
theorem mapped_exceeds_oneMib :
    ∃ calls s point,
      Run (oneMib.readStep grantAll) (opened ()) calls s ∧
      calls.map Call.input = [(0, List.replicate 1048576 0)] ∧
      point <+: s.events ∧ oneMib.windowBytes + viewAlignment < mappedBytes point := by
  have size : oneMib.size = 1048576 := List.length_replicate
  obtain ⟨out, outEq⟩ : ∃ out : List UInt8, out = List.replicate 1048576 0 := ⟨_, rfl⟩
  have length : out.length = 1048576 := by rw [outEq, List.length_replicate]
  have len : viewLen oneMib 0 (count oneMib 0 out) = 1048576 := by
    rw [viewLen, count, size, length]
    decide
  obtain ⟨r, s', stepped, read⟩ := oneMib.readAt_step grantAll (s := opened ())
    (fun _ mem => (by cases mem)) 0 out
  rw [← outEq]
  refine ⟨_, s', [.mapped ⟨0, 0, 1048576⟩], Run.start.call stepped, rfl, ?_, by decide⟩
  cases read with
  | idle nothing =>
      rcases nothing with empty | past
      · rw [empty] at length
        cases length
      · rw [size] at past
        cases past
  | hit _ cached => cases cached
  | refused _ _ answer => cases answer
  | mapped _ _ answer fresh =>
      obtain ⟨granted, -⟩ := Prod.mk.inj answer
      rw [fresh, len, ← Except.ok.inj granted]
      exact List.prefix_append _ _

end Mmap
