import MmapChunker.Scanner.Chunks
import MmapChunker.Theory.Iterator

/-!
Lazy chunking (`src/scanner.rs`).

`ChunkCursor` and `PatternChunkCursor` find one chunk at each call of `next`, from their
position alone. `cursors_match_eager` compares them with the eager walks in every state
that calls of `next` lead to: what is still to come is what the walk over the rest of the
data finds, and what the walk over all of it finds from there on.
-/

namespace Scanner

open Machine Occurrence Stride Tiling Iterating

/-! ### Source -/

/-- `ChunkCursor`. -/
structure ChunkCursor where
  data : Slice
  chunkSize : Nat
  delimiter : UInt8
  position : Nat

/-- `PatternChunkCursor`. -/
structure PatternChunkCursor where
  data : Slice
  chunkSize : Nat
  delimiter : List UInt8
  position : Nat

/-- The two `next` functions, on the position: the chunk there, and where it ends. -/
def cursorNext (data : Slice) (chunkSize dlen : Nat) (search : Slice → Option (Option Nat))
    (position : Nat) : Option (Option Slice × Nat) := do
  if data.len ≤ position then return (none, position)
  let stop ← chunkEnd data (max chunkSize 1) dlen search position
  let chunk ← data.range position stop
  return (some chunk, stop)

/-- The two `size_hint` functions. -/
def cursorSizeHint (data : Slice) (position : Nat) : Nat × Option Nat :=
  if data.len ≤ position then (0, some 0) else (1, some (data.len - position))

namespace ChunkCursor

/-- `ChunkCursor::new`. -/
def new (data : Slice) (chunkSize : Nat) (delimiter : UInt8) : ChunkCursor :=
  ⟨data, chunkSize, delimiter, 0⟩

/-- `ChunkCursor::is_empty`. -/
def isEmpty (self : ChunkCursor) : Bool := self.data.len ≤ self.position

/-- `ChunkCursor::next`. -/
def next (self : ChunkCursor) : Option (Option Slice × ChunkCursor) := do
  let (chunk, position) ← cursorNext self.data self.chunkSize 1
    (fun remainder => findByteSwar remainder self.delimiter) self.position
  return (chunk, { self with position })

/-- `ChunkCursor::size_hint`. -/
def sizeHint (self : ChunkCursor) : Nat × Option Nat := cursorSizeHint self.data self.position

end ChunkCursor

namespace PatternChunkCursor

/-- `PatternChunkCursor::new`; an empty delimiter fails its assertion. -/
def new (data : Slice) (chunkSize : Nat) (delimiter : List UInt8) : Option PatternChunkCursor :=
  if delimiter = [] then none else some ⟨data, chunkSize, delimiter, 0⟩

/-- `PatternChunkCursor::is_empty`. -/
def isEmpty (self : PatternChunkCursor) : Bool := self.data.len ≤ self.position

/-- `PatternChunkCursor::next`. -/
def next (self : PatternChunkCursor) : Option (Option Slice × PatternChunkCursor) := do
  let (chunk, position) ← cursorNext self.data self.chunkSize self.delimiter.length
    (fun remainder => findPatternInSlice remainder self.delimiter) self.position
  return (chunk, { self with position })

/-- `PatternChunkCursor::size_hint`. -/
def sizeHint (self : PatternChunkCursor) : Nat × Option Nat :=
  cursorSizeHint self.data self.position

end PatternChunkCursor

/-! ### From position to position -/

/-- `&data[r.0..r.1]`, for a range of the data. -/
def chunkAt (data : Slice) (r : Nat × Nat) : Slice := data.window r.1 (r.2 - r.1)

section Positions

variable {data : Slice} {chunkSize : Nat} {delimiter : List UInt8}
  {search : Slice → Option (Option Nat)} {position : Nat}

theorem cursorNext_end (past : data.len ≤ position) (dlen : Nat)
    (search : Slice → Option (Option Nat)) :
    cursorNext data chunkSize dlen search position = some (none, position) := by
  rw [cursorNext, if_pos past]
  rfl

/-- Before the end the cursor yields the chunk of the chunk plan. -/
theorem cursorNext_chunk (ne : delimiter ≠ [])
    (searches : ∀ w, search w = some (nextOcc delimiter w.bytes 0)) (more : position < data.len) :
    cursorNext data chunkSize delimiter.length search position =
      some (some (chunkAt data
          (position, chunkCut delimiter data.bytes (max chunkSize 1) position)),
        chunkCut delimiter data.bytes (max chunkSize 1) position) := by
  obtain ⟨ahead, inside⟩ := advances_chunkCut ne data.bytes chunkSize position more
  rw [cursorNext, if_neg (Nat.not_le.mpr more), chunkEnd_eq ne searches, Option.bind_eq_bind,
    Option.bind_some, Slice.range_eq ahead.le inside]
  rfl

/-- The chunks still to come are those of the chain from the position. -/
theorem remaining_cursorNext (ne : delimiter ≠ [])
    (searches : ∀ w, search w = some (nextOcc delimiter w.bytes 0)) (le : position ≤ data.len) :
    Remaining (cursorNext data chunkSize delimiter.length search) position
      ((chain (chunkCut delimiter data.bytes (max chunkSize 1)) data.len position).map
        (chunkAt data)) := by
  have advances : Advances _ data.len := advances_chunkCut ne data.bytes chunkSize
  induction left : data.len - position using Nat.strong_induction_on generalizing position with
  | _ left ih =>
      rcases le.lt_or_eq with more | rfl
      · obtain ⟨ahead, inside⟩ := advances position more
        rw [chain_of_lt advances more, List.map_cons]
        exact .item (cursorNext_chunk ne searches more) (ih _ (by omega) inside rfl)
      · rw [chain_of_ge le_rfl]
        exact .done (cursorNext_end le_rfl _ _)

/-- Calls of `next` never panic, and lead to a position up to which the chain has been
walked. -/
theorem afterNext_cursorNext (ne : delimiter ≠ [])
    (searches : ∀ w, search w = some (nextOcc delimiter w.bytes 0)) (chunkSize n : Nat)
    {start : Nat} (le : start ≤ data.len) :
    ∃ position walked,
      afterNext (cursorNext data chunkSize delimiter.length search) n start = some position ∧
      start ≤ position ∧ position ≤ data.len ∧
      chain (chunkCut delimiter data.bytes (max chunkSize 1)) data.len start =
        walked ++ chain (chunkCut delimiter data.bytes (max chunkSize 1)) data.len position ∧
      ∀ r ∈ walked, r.1 < position := by
  have advances : Advances _ data.len := advances_chunkCut ne data.bytes chunkSize
  induction n generalizing start with
  | zero => exact ⟨start, [], rfl, le_rfl, le, rfl, by simp⟩
  | succ n ih =>
      rw [afterNext]
      rcases le.lt_or_eq with more | rfl
      · obtain ⟨ahead, inside⟩ := advances start more
        obtain ⟨position, walked, run, after, le', split, before⟩ := ih inside
        rw [cursorNext_chunk ne searches more]
        refine ⟨position, (start, chunkCut delimiter data.bytes (max chunkSize 1) start) :: walked,
          run, ahead.le.trans after, le', ?_, ?_⟩
        · rw [chain_of_lt advances more, split, List.cons_append]
        · exact List.forall_mem_cons.mpr ⟨ahead.trans_le after, before⟩
      · rw [cursorNext_end le_rfl]
        exact ih le_rfl

/-- Cutting does not look at what lies before the target. -/
theorem chunkCut_drop (ne : delimiter ≠ []) {xs : List UInt8} {p : Nat} (le : p ≤ xs.length)
    (step s : Nat) :
    p + chunkCut delimiter (xs.drop p) step s = chunkCut delimiter xs step (p + s) := by
  have shifted := nextOcc_drop ne xs p (s + step)
  rw [← Nat.add_assoc] at shifted
  rw [chunkCut, chunkCut, List.length_drop, shifted]
  by_cases past : xs.length ≤ p + s + step
  · rw [if_pos past, if_pos (by omega), Nat.add_sub_cancel' le]
  · rw [if_neg past, if_neg (by omega)]
    cases nextOcc delimiter (xs.drop p) (s + step) with
    | none => exact Nat.add_sub_cancel' le
    | some q => exact (Nat.add_assoc p q _).symm

/-- The chunk plan of the rest of the data is the rest of a chain, shifted. -/
theorem chain_eq_shifted (ne : delimiter ≠ []) (chunkSize : Nat) {xs : List UInt8} {p : Nat}
    (le : p ≤ xs.length) :
    chain (chunkCut delimiter xs (max chunkSize 1)) xs.length p =
      (chunkPlan delimiter (xs.drop p) chunkSize).map fun r => (p + r.1, p + r.2) := by
  have whole : p + (xs.drop p).length = xs.length := by
    rw [List.length_drop]
    exact Nat.add_sub_cancel' le
  have shifted : (chunkPlan delimiter (xs.drop p) chunkSize).map (fun r => (p + r.1, p + r.2)) =
      chain (chunkCut delimiter xs (max chunkSize 1)) (p + (xs.drop p).length) (p + 0) :=
    map_chain_shift (chunkCut_drop ne le (max chunkSize 1)) 0
  rw [whole] at shifted
  exact shifted.symm

end Positions

/-! ### Lazy and eager chunks agree -/

/-- A state of a cursor over `data` agrees with the eager walk `eager`. What it still
yields are the chunks of the walk over the rest of the data, shifted, and those of the walk
over all of it that start at or past its position. Its `size_hint` and `is_empty` are right
about what it still yields, and at the end it stays as it is. -/
structure AgreesWithEager {σ : Type} (next : σ → Option (Option Slice × σ)) (position : σ → Nat)
    (sizeHint : σ → Nat × Option Nat) (isEmpty : σ → Bool)
    (eager : Slice → Option (List (Nat × Nat))) (data : Slice) (cursor : σ)
    (items : List Slice) : Prop where
  remaining : Remaining next cursor items
  position_le : position cursor ≤ data.len
  rest : ∃ ranges, eager (data.tail (position cursor)) = some ranges ∧
    items = ranges.map fun r => chunkAt data (position cursor + r.1, position cursor + r.2)
  whole : ∃ ranges, eager data = some ranges ∧
    items = (ranges.filter fun r => position cursor ≤ r.1).map (chunkAt data)
  low : (sizeHint cursor).1 ≤ items.length
  high : ∀ upper ∈ (sizeHint cursor).2, items.length ≤ upper
  isEmpty_iff : isEmpty cursor = true ↔ items = []
  fused : ∀ cursor', next cursor = some (none, cursor') →
    cursor' = cursor ∧ position cursor = data.len

section Agreement

variable {data : Slice} {chunkSize : Nat} {delimiter : List UInt8}
  {search : Slice → Option (Option Nat)} {eager : Slice → Option (List (Nat × Nat))}

/-- The size hint is right about every way to lay out the rest of the data. -/
theorem cursorSizeHint_bounds {position : Nat} {ranges : List (Nat × Nat)}
    (tiles : Tiles position data.len ranges) :
    (cursorSizeHint data position).1 ≤ ranges.length ∧
      ∀ upper ∈ (cursorSizeHint data position).2, ranges.length ≤ upper := by
  have count := tiles.length_le
  rw [cursorSizeHint]
  split
  · rename_i past
    have reached : position = data.len := le_antisymm tiles.le past
    exact ⟨Nat.zero_le _, fun upper mem => by omega⟩
  · rename_i more
    constructor
    · apply List.length_pos_of_ne_nil
      intro none_
      have reached := tiles.eq_nil_iff.mp none_
      omega
    · intro upper mem
      obtain rfl := Option.mem_some.mp mem
      omega

/-- The position alone agrees with every eager walk that computes the chunk plan. -/
theorem cursorNext_agrees (data : Slice) (ne : delimiter ≠ [])
    (searches : ∀ w, search w = some (nextOcc delimiter w.bytes 0))
    (plans : ∀ w, eager w = some (chunkPlan delimiter w.bytes chunkSize)) (n : Nat) :
    ∃ position,
      afterNext (cursorNext data chunkSize delimiter.length search) n 0 = some position ∧
      AgreesWithEager (cursorNext data chunkSize delimiter.length search) id
        (cursorSizeHint data) (fun position => data.len ≤ position) eager data position
        ((chain (chunkCut delimiter data.bytes (max chunkSize 1)) data.len position).map
          (chunkAt data)) := by
  obtain ⟨position, walked, run, -, le, split, before⟩ :=
    afterNext_cursorNext ne searches chunkSize n (Nat.zero_le data.len)
  have tiles : Tiles position data.len
      (chain (chunkCut delimiter data.bytes (max chunkSize 1)) data.len position) :=
    tiles_chain (advances_chunkCut ne data.bytes chunkSize) le
  refine ⟨position, run, ?_⟩
  constructor
  · exact remaining_cursorNext ne searches le
  · exact le
  · refine ⟨_, plans (data.tail position), ?_⟩
    have shifted := chain_eq_shifted ne chunkSize le
    rw [← Slice.len] at shifted
    rw [shifted, List.map_map]
    rfl
  · refine ⟨_, plans data, ?_⟩
    have kept := tiles.filter_append before
    rw [← split] at kept
    exact congrArg (List.map (chunkAt data)) kept.symm
  · rw [List.length_map]
    exact (cursorSizeHint_bounds tiles).1
  · rw [List.length_map]
    exact (cursorSizeHint_bounds tiles).2
  · rw [decide_eq_true_eq, List.map_eq_nil_iff, tiles.eq_nil_iff]
    omega
  · intro position' ended
    rcases le.lt_or_eq with more | atEnd
    · rw [cursorNext_chunk ne searches more] at ended
      cases ended
    · rw [cursorNext_end atEnd.ge] at ended
      cases ended
      exact ⟨rfl, atEnd⟩

/-- What agrees on the position agrees on every cursor that acts on its position alone. -/
theorem AgreesWithEager.mirror {σ : Type} {next : σ → Option (Option Slice × σ)}
    {step : Nat → Option (Option Slice × Nat)} {f : Nat → σ} {place : σ → Nat}
    {sizeHint : σ → Nat × Option Nat} {isEmpty : σ → Bool} {hint : Nat → Nat × Option Nat}
    {ended : Nat → Bool} {position : Nat} {items : List Slice}
    (agrees : AgreesWithEager step id hint ended eager data position items)
    (mirrors : Mirrors next step f) (places : place (f position) = position)
    (hints : sizeHint (f position) = hint position)
    (empties : isEmpty (f position) = ended position) :
    AgreesWithEager next place sizeHint isEmpty eager data (f position) items := by
  constructor
  · exact mirrors.remaining agrees.remaining
  · rw [places]
    exact agrees.position_le
  · rw [places]
    exact agrees.rest
  · rw [places]
    exact agrees.whole
  · rw [hints]
    exact agrees.low
  · rw [hints]
    exact agrees.high
  · rw [empties]
    exact agrees.isEmpty_iff
  · intro cursor' last
    rw [mirrors, Option.map_eq_some_iff] at last
    obtain ⟨⟨item, position'⟩, stepped, same⟩ := last
    cases same
    obtain ⟨stays, atEnd⟩ := agrees.fused position' stepped
    rw [places, stays]
    exact ⟨rfl, atEnd⟩

theorem mirrors_chunkCursor (data : Slice) (chunkSize : Nat) (delimiter : UInt8) :
    Mirrors ChunkCursor.next
      (cursorNext data chunkSize 1 fun remainder => findByteSwar remainder delimiter)
      (ChunkCursor.mk data chunkSize delimiter) := by
  intro position
  rw [ChunkCursor.next]
  cases cursorNext data chunkSize 1 (fun remainder => findByteSwar remainder delimiter) position <;>
    rfl

theorem mirrors_patternChunkCursor (data : Slice) (chunkSize : Nat) (delimiter : List UInt8) :
    Mirrors PatternChunkCursor.next
      (cursorNext data chunkSize delimiter.length
        fun remainder => findPatternInSlice remainder delimiter)
      (PatternChunkCursor.mk data chunkSize delimiter) := by
  intro position
  rw [PatternChunkCursor.next]
  cases cursorNext data chunkSize delimiter.length
    (fun remainder => findPatternInSlice remainder delimiter) position <;> rfl

theorem chunkCursor_agrees (data : Slice) (chunkSize : Nat) (delimiter : UInt8) (n : Nat) :
    ∃ cursor, afterNext ChunkCursor.next n (.new data chunkSize delimiter) = some cursor ∧
      AgreesWithEager ChunkCursor.next ChunkCursor.position ChunkCursor.sizeHint
        ChunkCursor.isEmpty (fun w => findChunkBoundaries w chunkSize delimiter) data
        cursor ((chain (chunkCut [delimiter] data.bytes (max chunkSize 1)) data.len
          cursor.position).map (chunkAt data)) := by
  have mirrors := mirrors_chunkCursor data chunkSize delimiter
  obtain ⟨position, run, agrees⟩ := cursorNext_agrees data (List.cons_ne_nil delimiter [])
    (fun w => findByteSwar_eq w delimiter) (fun w => findChunkBoundaries_eq w chunkSize delimiter) n
  refine ⟨⟨data, chunkSize, delimiter, position⟩, ?_, agrees.mirror mirrors rfl rfl rfl⟩
  refine (mirrors.afterNext n 0).trans ?_
  exact congrArg (Option.map _) run

theorem patternChunkCursor_agrees (data : Slice) (chunkSize : Nat) (ne : delimiter ≠ []) (n : Nat) :
    ∃ start cursor, PatternChunkCursor.new data chunkSize delimiter = some start ∧
      afterNext PatternChunkCursor.next n start = some cursor ∧
      AgreesWithEager PatternChunkCursor.next PatternChunkCursor.position
        PatternChunkCursor.sizeHint PatternChunkCursor.isEmpty
        (fun w => findChunkBoundariesPattern w chunkSize delimiter) data cursor
        ((chain (chunkCut delimiter data.bytes (max chunkSize 1)) data.len cursor.position).map
          (chunkAt data)) := by
  have mirrors := mirrors_patternChunkCursor data chunkSize delimiter
  obtain ⟨position, run, agrees⟩ := cursorNext_agrees data ne
    (fun w => findPatternInSlice_eq w ne) (fun w => findChunkBoundariesPattern_eq w chunkSize ne) n
  refine ⟨_, ⟨data, chunkSize, delimiter, position⟩, if_neg ne, ?_,
    agrees.mirror mirrors rfl rfl rfl⟩
  refine (mirrors.afterNext n 0).trans ?_
  exact congrArg (Option.map _) run

end Agreement

/-- The two cursors go through the same positions for a delimiter of one byte. -/
theorem position_eq_of_byte {data : Slice} {chunkSize n : Nat} {delimiter : UInt8}
    {start cursor : PatternChunkCursor} {cursor' : ChunkCursor}
    (created : PatternChunkCursor.new data chunkSize [delimiter] = some start)
    (run : afterNext PatternChunkCursor.next n start = some cursor)
    (run' : afterNext ChunkCursor.next n (.new data chunkSize delimiter) = some cursor') :
    cursor.position = cursor'.position := by
  have searches : (fun remainder => findPatternInSlice remainder [delimiter]) =
      fun remainder => findByteSwar remainder delimiter := by
    funext remainder
    rw [findPatternInSlice_eq _ (List.cons_ne_nil _ _), findByteSwar_eq]
  have left := (mirrors_patternChunkCursor data chunkSize [delimiter]).afterNext n 0
  have right := (mirrors_chunkCursor data chunkSize delimiter).afterNext n 0
  rw [PatternChunkCursor.new, if_neg (List.cons_ne_nil _ _), Option.some.injEq] at created
  rw [created, run, searches] at left
  rw [show ChunkCursor.mk data chunkSize delimiter 0 = .new data chunkSize delimiter from rfl,
    run'] at right
  obtain ⟨position, here, eq⟩ := Option.map_eq_some_iff.mp left.symm
  obtain ⟨position', here', eq'⟩ := Option.map_eq_some_iff.mp right.symm
  rw [← eq, ← eq']
  exact Option.some.inj (here.symm.trans here')

/-- **Lazy equals eager, from every point.** After any number of calls of `next` both
cursors agree with their eager walks; for a delimiter of one byte the two cursors are at
the same place with the same chunks to come, and the two walks are the same. -/
theorem cursors_match_eager (data : Slice) (chunkSize n : Nat) :
    (∀ delimiter : UInt8, ∃ cursor items,
      afterNext ChunkCursor.next n (.new data chunkSize delimiter) = some cursor ∧
      AgreesWithEager ChunkCursor.next ChunkCursor.position ChunkCursor.sizeHint
        ChunkCursor.isEmpty (fun w => findChunkBoundaries w chunkSize delimiter) data
        cursor items) ∧
    (∀ delimiter : List UInt8, delimiter ≠ [] → ∃ start cursor items,
      PatternChunkCursor.new data chunkSize delimiter = some start ∧
      afterNext PatternChunkCursor.next n start = some cursor ∧
      AgreesWithEager PatternChunkCursor.next PatternChunkCursor.position
        PatternChunkCursor.sizeHint PatternChunkCursor.isEmpty
        (fun w => findChunkBoundariesPattern w chunkSize delimiter) data cursor items) ∧
    ∀ delimiter : UInt8, ∃ start cursor cursor' items,
      PatternChunkCursor.new data chunkSize [delimiter] = some start ∧
      afterNext PatternChunkCursor.next n start = some cursor ∧
      afterNext ChunkCursor.next n (.new data chunkSize delimiter) = some cursor' ∧
      cursor.position = cursor'.position ∧ Remaining PatternChunkCursor.next cursor items ∧
      Remaining ChunkCursor.next cursor' items ∧
      findChunkBoundariesPattern data chunkSize [delimiter] =
        findChunkBoundaries data chunkSize delimiter := by
  refine ⟨fun delimiter => ?_, fun delimiter ne => ?_, fun delimiter => ?_⟩
  · obtain ⟨cursor, run, agrees⟩ := chunkCursor_agrees data chunkSize delimiter n
    exact ⟨cursor, _, run, agrees⟩
  · obtain ⟨start, cursor, created, run, agrees⟩ := patternChunkCursor_agrees data chunkSize ne n
    exact ⟨start, cursor, _, created, run, agrees⟩
  · have ne : [delimiter] ≠ [] := List.cons_ne_nil _ _
    obtain ⟨start, cursor, created, run, agrees⟩ := patternChunkCursor_agrees data chunkSize ne n
    obtain ⟨cursor', run', agrees'⟩ := chunkCursor_agrees data chunkSize delimiter n
    have same : cursor.position = cursor'.position :=
      position_eq_of_byte created run run'
    refine ⟨start, cursor, cursor', _, created, run, run', same, agrees.remaining, ?_, ?_⟩
    · rw [same]
      exact agrees'.remaining
    · rw [findChunkBoundariesPattern_eq _ _ ne, findChunkBoundaries_eq]

/-- After one chunk of overlapping delimiters two are to come, which both walks find. -/
theorem cursors_match_eager_overlapping : [(97 : UInt8), 97] ≠ [] ∧
    ∃ start cursor, PatternChunkCursor.new overlapping 0 [97, 97] = some start ∧
      afterNext PatternChunkCursor.next 1 start = some cursor ∧
      cursor.position = 3 ∧ cursor.isEmpty = false ∧
      findChunkBoundariesPattern overlapping 0 [97, 97] = some [(0, 3), (3, 6), (6, 8)] ∧
      findChunkBoundariesPattern (overlapping.tail 3) 0 [97, 97] = some [(0, 3), (3, 5)] ∧
      Remaining PatternChunkCursor.next cursor
        [chunkAt overlapping (3, 6), chunkAt overlapping (6, 8)] ∧
      cursor.sizeHint.1 ≤ 2 ∧ ∀ upper ∈ cursor.sizeHint.2, 2 ≤ upper := by
  have whole : findChunkBoundariesPattern overlapping 0 [97, 97] =
      some [(0, 3), (3, 6), (6, 8)] := by
    decide +kernel
  have reached : ((PatternChunkCursor.new overlapping 0 [97, 97]).bind fun start =>
      (afterNext PatternChunkCursor.next 1 start).map PatternChunkCursor.position) = some 3 := by
    decide +kernel
  obtain ⟨start, cursor, items, created, run, agrees⟩ :=
    (cursors_match_eager overlapping 0 1).2.1 [97, 97] (by decide)
  have position : cursor.position = 3 := by
    rw [created, Option.bind_some, run, Option.map_some] at reached
    exact Option.some.inj reached
  obtain ⟨ranges, returned, eager⟩ := agrees.rest
  obtain ⟨ranges', returned', eager'⟩ := agrees.whole
  rw [position] at returned eager eager'
  have rest : findChunkBoundariesPattern (overlapping.tail 3) 0 [97, 97] =
      some [(0, 3), (3, 5)] := by
    decide +kernel
  obtain rfl := Option.some.inj (returned'.symm.trans whole)
  obtain rfl := Option.some.inj (returned.symm.trans rest)
  have remaining := agrees.remaining
  have low := agrees.low
  have high := agrees.high
  have notEmpty := agrees.isEmpty_iff
  rw [eager] at remaining low high notEmpty
  have some_ : cursor.isEmpty = false := by
    simpa using notEmpty
  exact ⟨by decide, start, cursor, created, run, position, some_, whole, rest, remaining, low, high⟩

end Scanner
