import MmapChunker.Source.Planner
import MmapChunker.Theory.Logging

/-!
Where the buffered search reads (`src/source.rs`).

`watched` is a source that also records which bytes of the file each call of `read_at`
asks for. A search over it is the search over the source itself, with a record of its
reads, and every one of them lies between the start of the search and the end of the file
(`findPatternFrom_watched`), whatever the source returns.

The search asks no source for its slice, so what it returns over a source without one
(`findPatternFrom_outcome`) it returns over every source that reads the file
(`findPatternFrom_returns_first`).
-/

namespace Source

open Machine Occurrence Exec Scanner

/-! ### Sources with a slice -/

/-- The source reads `file` in every state of `inv`, and no read leaves `inv`; it may also
expose a slice. -/
structure ReadsFile {σ : Type} (source : ByteSource σ) (inv : σ → Prop) (file : List UInt8) :
    Prop where
  len_eq : source.len = file.length
  reads : ∀ offset out s, inv s → Returns (source.readAt offset out) s fun p s' =>
    inv s' ∧ ReadOk file offset out p.1 p.2

/-- The source without its slice. -/
def unsliced {σ : Type} (source : ByteSource σ) : ByteSource σ := { source with asSlice := none }

section Unsliced

variable {σ : Type} {source : ByteSource σ} {inv : σ → Prop} {file : List UInt8}

theorem Conforms.readsFile (conforms : Conforms source inv file) : ReadsFile source inv file :=
  ⟨conforms.len_eq, conforms.reads⟩

theorem ReadsFile.unsliced (reads : ReadsFile source inv file) :
    Conforms (unsliced source) inv file :=
  ⟨reads.len_eq, rfl, reads.reads⟩

theorem findPatternFrom_unsliced (source : ByteSource σ) :
    findPatternFrom (unsliced source) = findPatternFrom source := by
  with_unfolding_all rfl

end Unsliced

/-! ### The reads -/

/-- The bytes `[start, stop)` of a file. -/
structure ReadRange where
  start : Nat
  stop : Nat
  deriving Repr, DecidableEq

/-- Not empty, and inside `[lo, hi)`. -/
structure ReadRange.Within (lo hi : Nat) (read : ReadRange) : Prop where
  start_ge : lo ≤ read.start
  nonempty : read.start < read.stop
  stop_le : read.stop ≤ hi

section Watched

variable {σ : Type}

/-- `source`, with a record of the reads it is asked for. -/
def watched (source : ByteSource σ) : ByteSource (σ × List ReadRange) where
  len := source.len
  asSlice := source.asSlice
  readAt offset out := logging ⟨offset, offset + out.length⟩ (source.readAt offset out)
  len_le := source.len_le

variable {source : ByteSource σ} {delimiter : List UInt8} {buffer : Slice} {lo hi offset : Nat}

@[simp] theorem len_watched : (watched source).len = source.len := rfl

theorem readAt_watched (out : List UInt8) :
    (watched source).readAt offset out =
      logging ⟨offset, offset + out.length⟩ (source.readAt offset out) := rfl

/-- A fill loop reads inside its window. -/
theorem fillWindow_watched {stop filled : Nat} (le : lo ≤ offset) (inside : offset + stop ≤ hi) :
    Logs (ReadRange.Within lo hi) (fillWindow source offset stop filled buffer)
      (fillWindow (watched source) offset stop filled buffer) := by
  induction left : stop - filled using Nat.strong_induction_on generalizing filled buffer with
  | _ left ih =>
      rw [fillWindow, fillWindow]
      apply Logs.ite
      · intro more
        apply Logs.bind_orPanic
        intro out here
        have outLen : out.len = stop - filled := Slice.len_of_range here
        rw [readAt_watched]
        apply Logs.bind
        · apply Logs.logging
          constructor
          · exact le.trans (Nat.le_add_right offset filled)
          · change offset + filled < offset + filled + out.len
            omega
          · change offset + filled + out.len ≤ hi
            omega
        · rintro ⟨read, written⟩
          apply Logs.ite
          · intro _
            exact Logs.pure _
          · intro progress
            exact ih _ (by omega) rfl
      · intro _
        exact Logs.pure _

/-- The loop reads from its offset on. -/
theorem probeLoop_watched {maxProbe probeLen : Nat} (le : lo ≤ offset) :
    Logs (ReadRange.Within lo source.len)
      (probeLoop source delimiter maxProbe probeLen offset buffer)
      (probeLoop (watched source) delimiter maxProbe probeLen offset buffer) := by
  have small := source.len_le
  induction left : source.len - offset using Nat.strong_induction_on
    generalizing offset probeLen buffer with
  | _ left ih =>
      rw [probeLoop, probeLoop]
      simp only [len_watched]
      apply Logs.ite
      · intro _
        exact Logs.pure _
      · intro more
        apply Logs.bind (fillWindow_watched le (by omega))
        rintro ⟨read, filled⟩
        dsimp only
        apply Logs.ite
        · intro _
          exact Logs.pure _
        · intro _
          apply Logs.bind_orPanic
          intro window _
          apply Logs.bind_orPanic
          intro found _
          cases found with
          | some position => exact Logs.pure _
          | none =>
              apply Logs.ite
              · intro _
                exact Logs.pure _
              · intro _
                have progress : 1 ≤ advance read delimiter.length := Nat.le_max_right _ _
                apply ih _ _ _ rfl
                · unfold saturatingAdd
                  omega
                · unfold saturatingAdd
                  omega

/-- The search reads only between its start and the end of the file. -/
theorem findPatternFrom_watched (start : Nat) :
    Logs (ReadRange.Within start source.len) (findPatternFrom source start delimiter buffer)
      (findPatternFrom (watched source) start delimiter buffer) := by
  apply Logs.ite
  · intro _
    exact Logs.pure _
  · intro _
    exact probeLoop_watched le_rfl

end Watched

/-- **The buffered search finds the first delimiter.** Over every source that reads a
file, whatever its short reads are, and in every buffer that holds a delimiter, the search
returns the least offset at or after `start` at which the complete delimiter occurs, or
`none` if it occurs nowhere there. It reads nothing before `start` and nothing past the
end of the file. -/
theorem findPatternFrom_returns_first {σ : Type} (source : ByteSource σ) (file : List UInt8)
    (inv : σ → Prop) (reads : ReadsFile source inv file) (s : σ) (good : inv s) (start : Nat)
    (delimiter : List UInt8) (ne : delimiter ≠ []) (buffer : Slice)
    (holdsPattern : delimiter.length ≤ buffer.len) :
    ∃ found after s' log,
      runFrom (findPatternFrom source start delimiter buffer) s =
        some (.ok (found, after), s') ∧
      runFrom (findPatternFrom (watched source) start delimiter buffer) (s, []) =
        some (.ok (found, after), s', log) ∧
      FirstAt (OccursAt delimiter file) start found ∧
      ∀ read ∈ log, read.Within start file.length := by
  have returns := (findPatternFrom_outcome reads.unsliced.orFails ne holdsPattern start
    good).returns
  rw [findPatternFrom_unsliced] at returns
  obtain ⟨⟨found, after⟩, s', log, run, watchedRun, ⟨-, found_eq, -⟩, inside⟩ :=
    (findPatternFrom_watched start).returns returns
  rw [reads.len_eq] at inside
  refine ⟨found, after, s', log, run, watchedRun, ?_, inside⟩
  dsimp only at found_eq
  rw [found_eq]
  exact nextOcc_spec ne file start

/-- Byte-wise reads into a buffer as long as the delimiter, which lies past the first
windows. -/
theorem findPatternFrom_returns_first_dribble :
    ReadsFile (dribble twoRecords) (fun _ => True) twoRecords.bytes ∧ [(98 : UInt8), 10] ≠ [] ∧
      [(98 : UInt8), 10].length ≤ (zeroed 0 2 (by decide)).len ∧
      ∃ after s' log,
        runFrom (findPatternFrom (watched (dribble twoRecords)) 0 [98, 10]
          (zeroed 0 2 (by decide))) (0, []) = some (.ok (some 2, after), s', log) ∧
        ∀ read ∈ log, read.Within 0 4 := by
  have reads := (dribble_conforms twoRecords).readsFile
  have second : nextOcc [98, 10] twoRecords.bytes 0 = some 2 := by decide +kernel
  obtain ⟨found, after, s', log, -, run, first, inside⟩ :=
    findPatternFrom_returns_first (dribble twoRecords) twoRecords.bytes (fun _ => True) reads 0
      trivial 0 [98, 10] (by decide) (zeroed 0 2 (by decide)) (by decide)
  have same := first.unique (nextOcc_spec (by decide) twoRecords.bytes 0)
  rw [second] at same
  subst same
  exact ⟨reads, by decide, by decide, after, s', log, run, inside⟩

/-- The reads of that search: three windows, each filled in two reads. -/
example : (runFrom (findPatternFrom (watched (dribble twoRecords)) 0 [98, 10]
      (zeroed 0 2 (by decide))) (0, [])).map (fun p => p.2.2) =
    some [⟨0, 2⟩, ⟨1, 2⟩, ⟨1, 3⟩, ⟨2, 3⟩, ⟨2, 4⟩, ⟨3, 4⟩] := by decide +kernel

end Source
