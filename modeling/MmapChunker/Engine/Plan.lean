import MmapChunker.Scanner.Chunks

/-!
The stored plan of an engine (`src/plan.rs`).

A `ChunkPlan` keeps either the ranges themselves or, for chunks of one size, the size
and the count alone. `Lays` is what both stand for: a list of ranges, read by index.

`fixed_layout_exact` says that the arithmetic of the second form is exact: on 64-bit
lengths it is that of the oracle without a bound on the numbers.
-/

namespace Plan

open Machine Stride Tiling Scanner

/-! ### Source -/

/-- `ChunkPlan`. -/
inductive ChunkPlan where
  | empty
  | ranges (list : List (Nat × Nat))
  | fixed (chunkSize chunkCount : Nat)
  deriving Repr, DecidableEq

namespace ChunkPlan

/-- `ChunkPlan::from_ranges`. -/
def fromRanges (ranges : List (Nat × Nat)) : ChunkPlan :=
  if ranges.isEmpty then .empty else .ranges ranges

/-- `ChunkPlan::fixed`. -/
def ofFixed (fileLen chunkSize : Nat) : ChunkPlan :=
  if fileLen = 0 then .empty
  else
    let chunkSize := max chunkSize 1
    .fixed chunkSize (fixedChunkCount fileLen chunkSize)

/-- `ChunkPlan::len`. -/
def len : ChunkPlan → Nat
  | empty => 0
  | ranges list => list.length
  | fixed _ chunkCount => chunkCount

/-- `ChunkPlan::range_at`. -/
def rangeAt (plan : ChunkPlan) (index sourceLen : Nat) : Option (Nat × Nat) :=
  match plan with
  | empty => none
  | ranges list => list[index]?
  | fixed chunkSize chunkCount =>
      if chunkCount ≤ index then none else fixedChunkBounds sourceLen chunkSize index

/-! ### What a plan stands for -/

/-- Over a source of `sourceLen` bytes the plan stands for the list `layout`. -/
structure Lays (plan : ChunkPlan) (sourceLen : Nat) (layout : List (Nat × Nat)) : Prop where
  len_eq : plan.len = layout.length
  rangeAt_eq : ∀ index, plan.rangeAt index sourceLen = layout[index]?
  empty_of_nil : layout = [] → plan = empty

theorem lays_empty (sourceLen : Nat) : empty.Lays sourceLen [] :=
  ⟨rfl, fun _ => rfl, fun _ => rfl⟩

theorem lays_fromRanges (layout : List (Nat × Nat)) (sourceLen : Nat) :
    (fromRanges layout).Lays sourceLen layout := by
  cases layout with
  | nil => exact lays_empty sourceLen
  | cons r rs => exact ⟨rfl, fun _ => rfl, fun isNil => (by cases isNil)⟩

/-- The arithmetic plan stands for the even split. -/
theorem lays_ofFixed {fileLen : Nat} (small : fileLen ≤ usizeMax) (chunkSize : Nat) :
    (ofFixed fileLen chunkSize).Lays fileLen (evenRanges fileLen (max chunkSize 1)) := by
  have clamped : max (max chunkSize 1) 1 = max chunkSize 1 := by omega
  have pos : 0 < max chunkSize 1 := by omega
  have count : fixedChunkCount fileLen (max chunkSize 1) =
      (evenRanges fileLen (max chunkSize 1)).length := by
    rw [fixedChunkCount_eq, clamped]
  unfold ofFixed
  split
  · rename_i isEmpty
    have none_ : evenRanges fileLen (max chunkSize 1) = [] := by
      rw [(tiles_evenRanges pos fileLen).eq_nil_iff, isEmpty]
    rw [none_]
    exact lays_empty fileLen
  · rename_i nonempty
    dsimp only
    refine ⟨count, fun index => ?_, fun isNil => ?_⟩
    · rw [rangeAt, fixedChunkBounds_eq small, clamped, count]
      split
      · rename_i beyond
        exact (List.getElem?_eq_none beyond).symm
      · rfl
    · exact (nonempty ((tiles_evenRanges pos fileLen).eq_nil_iff.mp isNil).symm).elim

/-- A stored plan is empty, or stands for ranges that tile the source. -/
def Covers (plan : ChunkPlan) (sourceLen : Nat) : Prop :=
  plan = empty ∨ ∃ layout, plan.Lays sourceLen layout ∧ layout ≠ [] ∧ Tiles 0 sourceLen layout

theorem Lays.covers {plan : ChunkPlan} {sourceLen : Nat} {layout : List (Nat × Nat)}
    (lays : plan.Lays sourceLen layout) (tiles : layout ≠ [] → Tiles 0 sourceLen layout) :
    plan.Covers sourceLen := by
  by_cases isNil : layout = []
  · exact .inl (lays.empty_of_nil isNil)
  · exact .inr ⟨layout, lays, isNil, tiles isNil⟩

end ChunkPlan

/-! ### The fixed layout is exact -/

/-- `oracle_count` of the fuzz target `fixed_extremes`, without a bound on the numbers. -/
def oracleCount (fileLen chunkSize : Nat) : Nat :=
  (fileLen + max chunkSize 1 - 1) / max chunkSize 1

/-- `oracle_bounds` of the same. -/
def oracleBounds (fileLen chunkSize index : Nat) : Option (Nat × Nat) :=
  if oracleCount fileLen chunkSize ≤ index then none
  else some (index * max chunkSize 1, min ((index + 1) * max chunkSize 1) fileLen)

section Exact

variable {fileLen chunkSize index : Nat}

theorem oracleCount_eq (fileLen chunkSize : Nat) :
    oracleCount fileLen chunkSize = (evenRanges fileLen (max chunkSize 1)).length := by
  have pos : 0 < max chunkSize 1 := by omega
  rw [length_evenRanges, divCeil_eq pos]
  rfl

theorem lt_oracleCount_iff :
    index < oracleCount fileLen chunkSize ↔ index * max chunkSize 1 < fileLen := by
  have pos : 0 < max chunkSize 1 := by omega
  rw [oracleCount_eq, length_evenRanges]
  exact lt_divCeil_iff pos

theorem oracleBounds_eq (fileLen chunkSize index : Nat) :
    oracleBounds fileLen chunkSize index = (evenRanges fileLen (max chunkSize 1))[index]? := by
  have pos : 0 < max chunkSize 1 := by omega
  unfold oracleBounds
  split
  · rename_i beyond
    rw [oracleCount_eq] at beyond
    exact (List.getElem?_eq_none beyond).symm
  · rename_i within
    have lt := lt_oracleCount_iff.mp (Nat.not_le.mp within)
    rw [Nat.succ_mul]
    exact (getElem?_evenRanges pos lt).symm

/-- The bounds of the chunks in order are the even split. -/
theorem filterMap_oracleBounds (fileLen chunkSize : Nat) :
    (List.range (oracleCount fileLen chunkSize)).filterMap (oracleBounds fileLen chunkSize) =
      evenRanges fileLen (max chunkSize 1) := by
  have all := flatMap_range_getElem? (oracleCount_eq fileLen chunkSize).ge
    fun r : Nat × Nat => [r]
  rw [List.flatMap_singleton'] at all
  rw [List.filterMap_eq_flatMap_toList]
  refine Eq.trans (List.flatMap_congr fun index _ => ?_) all
  rw [oracleBounds_eq]
  cases (evenRanges fileLen (max chunkSize 1))[index]? <;> rfl

/-- Every chunk before the last has the full size. -/
theorem size_of_oracleBounds {r : Nat × Nat} (here : oracleBounds fileLen chunkSize index = some r)
    (notLast : index + 1 < oracleCount fileLen chunkSize) : r.2 - r.1 = max chunkSize 1 := by
  have inside := lt_oracleCount_iff.mp notLast
  rw [oracleBounds, if_neg (by omega), Option.some.injEq] at here
  rw [← here, Nat.min_eq_left inside.le, Nat.succ_mul]
  exact Nat.add_sub_cancel_left _ _

end Exact

/-- What the fixed layout of a file is: computed without a bound on the numbers, it is
what the two functions and the stored plan return, each saturating operation included,
and its ranges tile the file in chunks of the size. -/
structure ExactLayout (fileLen chunkSize : Nat) : Prop where
  count : fixedChunkCount fileLen chunkSize = oracleCount fileLen chunkSize
  bounds : ∀ index, fixedChunkBounds fileLen chunkSize index = oracleBounds fileLen chunkSize index
  len : (ChunkPlan.ofFixed fileLen chunkSize).len = oracleCount fileLen chunkSize
  rangeAt : ∀ index, (ChunkPlan.ofFixed fileLen chunkSize).rangeAt index fileLen =
    oracleBounds fileLen chunkSize index
  start_exact : ∀ index < fixedChunkCount fileLen chunkSize,
    saturatingMul index (max chunkSize 1) = index * max chunkSize 1
  end_exact : ∀ start, min (saturatingAdd start (max chunkSize 1)) fileLen =
    min (start + max chunkSize 1) fileLen
  tiles : Tiles 0 fileLen ((List.range (fixedChunkCount fileLen chunkSize)).filterMap
    (fixedChunkBounds fileLen chunkSize))
  full_size : ∀ index r, fixedChunkBounds fileLen chunkSize index = some r →
    index + 1 < fixedChunkCount fileLen chunkSize → r.2 - r.1 = max chunkSize 1

/-- **Fixed layout arithmetic is exact** for every 64-bit file length, whatever the chunk
size and the index are. -/
theorem fixed_layout_exact {fileLen : Nat} (small : fileLen ≤ usizeMax) (chunkSize : Nat) :
    ExactLayout fileLen chunkSize := by
  have pos : 0 < max chunkSize 1 := by omega
  have count : fixedChunkCount fileLen chunkSize = oracleCount fileLen chunkSize := by
    rw [fixedChunkCount_eq, oracleCount_eq]
  have bounds : fixedChunkBounds fileLen chunkSize = oracleBounds fileLen chunkSize := by
    funext index
    rw [fixedChunkBounds_eq small, oracleBounds_eq]
  have lays := ChunkPlan.lays_ofFixed small chunkSize
  constructor
  · exact count
  · exact congrFun bounds
  · rw [lays.len_eq, oracleCount_eq]
  · intro index
    rw [lays.rangeAt_eq, oracleBounds_eq]
  · intro index lt
    rw [count] at lt
    have inside := lt_oracleCount_iff.mp lt
    exact Nat.min_eq_left (inside.le.trans small)
  · intro start
    exact min_saturatingAdd small
  · rw [count, bounds, filterMap_oracleBounds]
    exact tiles_evenRanges pos fileLen
  · rw [count, bounds]
    intro index r here notLast
    exact size_of_oracleBounds here notLast

/-- The largest file in chunks of more than half its length: the end of the last chunk
is past every 64-bit number. -/
theorem fixed_layout_exact_largest : usizeMax ≤ usizeMax ∧
    fixedChunkCount usizeMax (2 ^ 63 + 1) = 2 ∧
    fixedChunkBounds usizeMax (2 ^ 63 + 1) 1 = some (2 ^ 63 + 1, usizeMax) := by
  have layout := fixed_layout_exact (le_refl usizeMax) (2 ^ 63 + 1)
  exact ⟨le_rfl, layout.count.trans (by decide), (layout.bounds 1).trans (by decide)⟩

end Plan
