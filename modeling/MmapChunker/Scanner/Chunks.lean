import MmapChunker.Scanner.Search
import MmapChunker.Theory.Stride

/-!
Chunks of a target size (`src/scanner.rs`).

`findChunkBoundaries` and `findChunkBoundariesPattern` walk through the data: a chunk
ends right after the first delimiter at or past its start plus the chunk size.
`fixedChunkCount` and `fixedChunkBounds` compute chunks of one size from their index.

The walks never read out of bounds and return `chunkPlan`
(`findChunkBoundaries_eq`, `findChunkBoundariesPattern_eq`). What the chunks are is
`ChunkContract`. The room a walk reserves for its ranges up front is granted, as it is
to the partitionings: no data that fits into memory has so many ranges that their
number alone is too large.
-/

namespace Scanner

open Machine Occurrence Stride Tiling

/-! ### Source -/

/-- The end of the chunk that starts at `start`, for a delimiter of `dlen` bytes. -/
def chunkEnd (data : Slice) (step dlen : Nat) (search : Slice → Option (Option Nat))
    (start : Nat) : Option Nat := do
  let target := saturatingAdd start step
  if data.len ≤ target then return data.len
  let remainder ← data.rangeFrom target
  match ← search remainder with
  | some relPos => return min (target + relPos + dlen) data.len
  | none => return data.len

theorem lt_chunkEnd {data : Slice} {size dlen start stop : Nat}
    {search : Slice → Option (Option Nat)} (lt : start < data.len)
    (found : chunkEnd data (max size 1) dlen search start = some stop) : start < stop := by
  have small := data.len_le_usizeMax
  have ahead : start < saturatingAdd start (max size 1) := by
    unfold saturatingAdd
    omega
  rw [chunkEnd] at found
  split at found
  · cases found
    exact lt
  · rename_i inside
    obtain ⟨remainder, _, found⟩ := Option.bind_eq_some_iff.mp found
    obtain ⟨hit, _, found⟩ := Option.bind_eq_some_iff.mp found
    cases hit with
    | none =>
        cases found
        exact lt
    | some relPos =>
        cases found
        omega

/-- The loops of `find_chunk_boundaries` and `find_chunk_boundaries_pattern`. -/
def chunkLoop (data : Slice) (chunkSize dlen : Nat) (search : Slice → Option (Option Nat))
    (start : Nat) (chunks : List (Nat × Nat)) : Option (List (Nat × Nat)) :=
  if _ : start < data.len then
    match _ : chunkEnd data (max chunkSize 1) dlen search start with
    | none => none
    | some stop => chunkLoop data chunkSize dlen search stop (chunks ++ [(start, stop)])
  else some chunks
termination_by data.len - start
decreasing_by
  have := lt_chunkEnd (by assumption) (by assumption)
  omega

/-- `find_chunk_boundaries`. -/
def findChunkBoundaries (data : Slice) (chunkSize : Nat) (delimiter : UInt8) :
    Option (List (Nat × Nat)) := do
  if data.len = 0 then return []
  chunkLoop data chunkSize 1 (fun remainder => findByteSwar remainder delimiter) 0 []

/-- `find_chunk_boundaries_pattern`; an empty delimiter fails its assertion. -/
def findChunkBoundariesPattern (data : Slice) (chunkSize : Nat) (delimiter : List UInt8) :
    Option (List (Nat × Nat)) := do
  if delimiter = [] then failure
  if data.len = 0 then return []
  chunkLoop data chunkSize delimiter.length
    (fun remainder => findPatternInSlice remainder delimiter) 0 []

/-- `fixed_chunk_count`. -/
def fixedChunkCount (fileLen chunkSize : Nat) : Nat :=
  if fileLen = 0 then 0 else divCeil fileLen (max chunkSize 1)

/-- `fixed_chunk_bounds`. -/
def fixedChunkBounds (fileLen chunkSize index : Nat) : Option (Nat × Nat) :=
  let effectiveSize := max chunkSize 1
  if fileLen = 0 then none
  else if divCeil fileLen effectiveSize ≤ index then none
  else
    let start := saturatingMul index effectiveSize
    let rawEnd := saturatingAdd start effectiveSize
    some (start, if fileLen < rawEnd then fileLen else rawEnd)

/-! ### The abstract plan -/

/-- Where a chunk ends: after the first delimiter that starts at or past the target. -/
def chunkCut (delimiter xs : List UInt8) (step start : Nat) : Nat :=
  if xs.length ≤ start + step then xs.length
  else ((nextOcc delimiter xs (start + step)).map (· + delimiter.length)).getD xs.length

/-- What chunking is for: chunks of at least the given size, cut after delimiters. -/
def chunkPlan (delimiter xs : List UInt8) (chunkSize : Nat) : List (Nat × Nat) :=
  chain (chunkCut delimiter xs (max chunkSize 1)) xs.length 0

section Plan

variable {delimiter xs : List UInt8} {chunkSize : Nat}

theorem advances_chunkCut (ne : delimiter ≠ []) (xs : List UInt8) (chunkSize : Nat) :
    Advances (chunkCut delimiter xs (max chunkSize 1)) xs.length := by
  intro s lt
  unfold chunkCut
  split
  · exact ⟨lt, le_rfl⟩
  · have first := nextOcc_spec ne xs (s + max chunkSize 1)
    cases found : nextOcc delimiter xs (s + max chunkSize 1) with
    | none => exact ⟨lt, le_rfl⟩
    | some p =>
        rw [found] at first
        have fits := first.2.1.le_length ne
        have past := first.1
        simp only [Option.map_some, Option.getD_some]
        omega

theorem tiles_chunkPlan (ne : delimiter ≠ []) (xs : List UInt8) (chunkSize : Nat) :
    Tiles 0 xs.length (chunkPlan delimiter xs chunkSize) :=
  tiles_chain (advances_chunkCut ne xs chunkSize) (Nat.zero_le _)

theorem chunkPlan_empty (delimiter : List UInt8) (chunkSize : Nat) (empty : xs.length = 0) :
    chunkPlan delimiter xs chunkSize = [] :=
  chain_of_ge empty.le

end Plan

/-! ### The walks compute the plan -/

section Walk

variable {data : Slice} {chunkSize : Nat} {delimiter : List UInt8}
  {search : Slice → Option (Option Nat)}

theorem chunkEnd_eq (ne : delimiter ≠ [])
    (searches : ∀ w, search w = some (nextOcc delimiter w.bytes 0)) (start : Nat) :
    chunkEnd data (max chunkSize 1) delimiter.length search start =
      some (chunkCut delimiter data.bytes (max chunkSize 1) start) := by
  have small := data.len_le_usizeMax
  rw [chunkEnd, chunkCut, ← Slice.len]
  by_cases past : data.len ≤ start + max chunkSize 1
  · have past' : data.len ≤ saturatingAdd start (max chunkSize 1) := by
      unfold saturatingAdd
      omega
    rw [if_pos past, if_pos past']
    rfl
  · have exact_ : saturatingAdd start (max chunkSize 1) = start + max chunkSize 1 :=
      saturatingAdd_eq (by omega)
    have split := nextOcc_drop ne data.bytes (start + max chunkSize 1) 0
    have first := nextOcc_spec ne data.bytes (start + max chunkSize 1)
    rw [Nat.add_zero] at split
    rw [exact_, if_neg past, if_neg past, Slice.rangeFrom_eq (by omega), Option.bind_eq_bind,
      Option.bind_some, searches, Slice.bytes_tail, Option.bind_eq_bind, Option.bind_some, split]
    cases found : nextOcc delimiter (data.bytes.drop (start + max chunkSize 1)) 0 with
    | none => rfl
    | some relPos =>
        rw [split, found] at first
        have fits := first.2.1.le_length ne
        exact congrArg some (Nat.min_eq_left fits)

theorem chunkLoop_eq (ne : delimiter ≠ [])
    (searches : ∀ w, search w = some (nextOcc delimiter w.bytes 0)) (start : Nat)
    (chunks : List (Nat × Nat)) :
    chunkLoop data chunkSize delimiter.length search start chunks =
      some (chunks ++ chain (chunkCut delimiter data.bytes (max chunkSize 1)) data.len start) := by
  have advances : Advances _ data.len := advances_chunkCut ne data.bytes chunkSize
  induction left : data.len - start using Nat.strong_induction_on generalizing start chunks with
  | _ left ih =>
      rw [chunkLoop]
      by_cases more : start < data.len
      · have ahead := (advances start more).1
        rw [dif_pos more]
        split
        · rename_i missing
          rw [chunkEnd_eq ne searches] at missing
          cases missing
        · rename_i stop found
          rw [chunkEnd_eq ne searches, Option.some.injEq] at found
          subst found
          rw [ih _ (by omega) _ _ rfl, chain_of_lt advances more, List.append_assoc]
          rfl
      · rw [dif_neg more, chain_of_ge (Nat.not_lt.mp more), List.append_nil]

/-- Single-byte chunking computes the chunk plan. -/
theorem findChunkBoundaries_eq (data : Slice) (chunkSize : Nat) (delimiter : UInt8) :
    findChunkBoundaries data chunkSize delimiter =
      some (chunkPlan [delimiter] data.bytes chunkSize) := by
  rw [findChunkBoundaries]
  by_cases empty : data.len = 0
  · rw [if_pos empty, chunkPlan_empty _ _ empty]
    rfl
  · rw [if_neg empty]
    exact chunkLoop_eq (List.cons_ne_nil delimiter []) (fun w => findByteSwar_eq w delimiter) 0 []

/-- Multi-byte chunking computes the chunk plan. -/
theorem findChunkBoundariesPattern_eq (data : Slice) (chunkSize : Nat) (ne : delimiter ≠ []) :
    findChunkBoundariesPattern data chunkSize delimiter =
      some (chunkPlan delimiter data.bytes chunkSize) := by
  rw [findChunkBoundariesPattern, if_neg ne]
  by_cases empty : data.len = 0
  · rw [if_pos empty, chunkPlan_empty _ _ empty]
    rfl
  · rw [if_neg empty]
    exact chunkLoop_eq ne (fun w => findPatternInSlice_eq w ne) 0 []

/-! ### Chunks of one size -/

theorem fixedChunkCount_eq (len chunkSize : Nat) :
    fixedChunkCount len chunkSize = (evenRanges len (max chunkSize 1)).length := by
  rw [length_evenRanges, fixedChunkCount]
  split
  · rename_i empty
    rw [empty, divCeil, Nat.zero_mod, if_neg (Nat.lt_irrefl 0), Nat.zero_div]
  · rfl

/-- The bounds of a chunk are those of the even split. -/
theorem fixedChunkBounds_eq {len : Nat} (small : len ≤ usizeMax) (chunkSize index : Nat) :
    fixedChunkBounds len chunkSize index = (evenRanges len (max chunkSize 1))[index]? := by
  have pos : 0 < max chunkSize 1 := by omega
  rw [fixedChunkBounds]
  dsimp only
  by_cases within : index < divCeil len (max chunkSize 1)
  · have lt := (lt_divCeil_iff pos).mp within
    have start : saturatingMul index (max chunkSize 1) = index * max chunkSize 1 :=
      Nat.min_eq_left (by omega)
    rw [if_neg (by omega), if_neg (Nat.not_le.mpr within), start, getElem?_evenRanges pos lt]
    unfold saturatingAdd
    congr 2
    split <;> omega
  · have missing : (evenRanges len (max chunkSize 1))[index]? = none :=
      List.getElem?_eq_none (by
        rw [length_evenRanges]
        exact Nat.not_lt.mp within)
    rw [missing, if_pos (Nat.not_lt.mp within)]
    split <;> rfl

end Walk

/-! ### The chunk contract -/

/-- What the chunks of a file are: they tile it; each but the last ends with the first
delimiter that starts at or past the target size; there are few of them. -/
structure ChunkContract (delimiter xs : List UInt8) (chunkSize : Nat) (ranges : List (Nat × Nat)) :
    Prop where
  tiles : Tiles 0 xs.length ranges
  next_delimiter : ∀ i r r', ranges[i]? = some r → ranges[i + 1]? = some r' →
    r.1 + max chunkSize 1 + delimiter.length ≤ r.2 ∧
      (xs.drop (r.2 - delimiter.length)).take delimiter.length = delimiter ∧
      ∀ q, r.1 + max chunkSize 1 ≤ q → q < r.2 - delimiter.length → ¬ OccursAt delimiter xs q
  last : ∀ r, ranges.getLast? = some r → xs.length ≤ r.1 + max chunkSize 1 ∨
    (∀ q, r.1 + max chunkSize 1 ≤ q → ¬ OccursAt delimiter xs q) ∨
    ∃ q, r.1 + max chunkSize 1 ≤ q ∧ OccursAt delimiter xs q ∧ q + delimiter.length = xs.length ∧
      ∀ q', r.1 + max chunkSize 1 ≤ q' → q' < q → ¬ OccursAt delimiter xs q'
  length_le : ranges.length ≤ (xs.length + (max chunkSize 1 + delimiter.length) - 1) /
    (max chunkSize 1 + delimiter.length)

section Contract

variable {delimiter xs : List UInt8} {step start : Nat}

/-- Where a chunk ends: at the end of the file, since the target or every delimiter past it
is, or after the first delimiter past the target. -/
theorem chunkCut_cases (ne : delimiter ≠ []) (xs : List UInt8) (step start : Nat) :
    (chunkCut delimiter xs step start = xs.length ∧
      (xs.length ≤ start + step ∨ ∀ q, start + step ≤ q → ¬ OccursAt delimiter xs q)) ∨
    ∃ q, start + step ≤ q ∧ OccursAt delimiter xs q ∧
      chunkCut delimiter xs step start = q + delimiter.length ∧
      ∀ q', start + step ≤ q' → q' < q → ¬ OccursAt delimiter xs q' := by
  unfold chunkCut
  split
  · rename_i past
    exact .inl ⟨rfl, .inl past⟩
  · have first := nextOcc_spec ne xs (start + step)
    cases found : nextOcc delimiter xs (start + step) with
    | none =>
        rw [found] at first
        exact .inl ⟨rfl, .inr first⟩
    | some q =>
        rw [found] at first
        exact .inr ⟨q, first.1, first.2.1, rfl, first.2.2⟩

theorem chunkPlan_contract (ne : delimiter ≠ []) (xs : List UInt8) (chunkSize : Nat) :
    ChunkContract delimiter xs chunkSize (chunkPlan delimiter xs chunkSize) := by
  have tiles := tiles_chunkPlan ne xs chunkSize
  have cut : ∀ r ∈ chunkPlan delimiter xs chunkSize,
      chunkCut delimiter xs (max chunkSize 1) r.1 = r.2 := fun r mem => (end_of_mem_chain mem).2
  -- A range that ends before the file does ends after a delimiter.
  have interior : ∀ r ∈ chunkPlan delimiter xs chunkSize, r.2 < xs.length →
      ∃ q, r.1 + max chunkSize 1 ≤ q ∧ OccursAt delimiter xs q ∧ r.2 = q + delimiter.length ∧
        ∀ q', r.1 + max chunkSize 1 ≤ q' → q' < q → ¬ OccursAt delimiter xs q' := by
    intro r mem lt
    have here := cut r mem
    rcases chunkCut_cases ne xs (max chunkSize 1) r.1 with ⟨atEnd, -⟩ | ⟨q, after, occurs,
      ends, least⟩
    · omega
    · exact ⟨q, after, occurs, here.symm.trans ends, least⟩
  constructor
  · exact tiles
  · intro i r r' this next
    obtain ⟨q, after, occurs, ends, least⟩ :=
      interior r (List.mem_of_getElem? this) (tiles.end_lt_of_next this next)
    rw [ends, Nat.add_sub_cancel]
    exact ⟨by omega, occursAt_iff_take.mp occurs, least⟩
  · intro r last
    have here := cut r (List.mem_of_getLast? last)
    rw [tiles.last_end last] at here
    rcases chunkCut_cases ne xs (max chunkSize 1) r.1 with ⟨-, past | none⟩ | ⟨q, after,
      occurs, ends, least⟩
    · exact .inl past
    · exact .inr (.inl none)
    · exact .inr (.inr ⟨q, after, occurs, ends.symm.trans here, least⟩)
  · have widePos : 0 < max chunkSize 1 + delimiter.length := by omega
    by_cases none : chunkPlan delimiter xs chunkSize = []
    · rw [none]
      exact Nat.zero_le _
    · have wide : ∀ r ∈ chunkPlan delimiter xs chunkSize, r.2 < xs.length →
          r.1 + (max chunkSize 1 + delimiter.length) ≤ r.2 := by
        intro r mem lt
        obtain ⟨q, after, -, ends, -⟩ := interior r mem lt
        omega
      have few := tiles.length_mul_lt none wide
      rw [Nat.zero_add, ← lt_divCeil_iff widePos, divCeil_eq widePos] at few
      omega

end Contract

/-- **Chunking keeps its contract.** For every slice, chunk size and delimiter the walks
return chunks that meet it. -/
theorem chunking_contract (data : Slice) (chunkSize : Nat) :
    (∀ delimiter : UInt8, ∃ ranges,
      findChunkBoundaries data chunkSize delimiter = some ranges ∧
      ChunkContract [delimiter] data.bytes chunkSize ranges) ∧
    ∀ delimiter : List UInt8, delimiter ≠ [] → ∃ ranges,
      findChunkBoundariesPattern data chunkSize delimiter = some ranges ∧
      ChunkContract delimiter data.bytes chunkSize ranges := by
  constructor
  · intro delimiter
    exact ⟨_, findChunkBoundaries_eq _ _ _, chunkPlan_contract (List.cons_ne_nil _ _) _ _⟩
  · intro delimiter ne
    exact ⟨_, findChunkBoundariesPattern_eq _ _ ne, chunkPlan_contract ne _ _⟩

/-- Overlapping delimiters in chunks of one byte. -/
def overlapping : Slice := ⟨0, [97, 97, 97, 97, 97, 97, 97, 97], by decide⟩

theorem chunking_contract_overlapping : [(97 : UInt8), 97] ≠ [] ∧
    findChunkBoundariesPattern overlapping 0 [97, 97] = some [(0, 3), (3, 6), (6, 8)] ∧
    ChunkContract [97, 97] overlapping.bytes 0 [(0, 3), (3, 6), (6, 8)] := by
  have run : findChunkBoundariesPattern overlapping 0 [97, 97] =
      some [(0, 3), (3, 6), (6, 8)] := by
    decide +kernel
  obtain ⟨ranges, returned, contract⟩ := (chunking_contract overlapping 0).2 [97, 97] (by decide)
  have same : ranges = [(0, 3), (3, 6), (6, 8)] := Option.some.inj (returned.symm.trans run)
  rw [same] at contract
  exact ⟨by decide, run, contract⟩

end Scanner
