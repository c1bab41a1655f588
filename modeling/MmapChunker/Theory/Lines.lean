import MmapChunker.Theory.Framing

/-!
Framing by a delimiter of one element.

Such a delimiter never overlaps itself, so a position is a frame end exactly when the
element stands before it (`frameEnd_singleton`). The record at the front is `firstLine`,
which a reader finds without looking further, and a list that ends with the delimiter has
as many records as delimiters (`length_records_eq_count`).

`enumerate_tiling` numbers the records of a list that is read in ranges: each range counts
from the number of delimiters before it.
-/

namespace Lines

open Occurrence Framing Tiling

variable {α : Type*} [DecidableEq α] {x : α} {xs : List α} {e : Nat}

/-! ### Frame ends -/

/-- The frame ends are the ends of the list and the positions after a delimiter. -/
theorem frameEnd_singleton (le : e ≤ xs.length) :
    FrameEnd [x] xs e ↔ e = 0 ∨ e = xs.length ∨ EndsAt [x] xs e := by
  have ne : [x] ≠ [] := List.cons_ne_nil x []
  constructor
  · intro frame
    rcases Nat.eq_zero_or_pos e with zero | pos
    · exact .inl zero
    · rcases le.eq_or_lt with whole | interior
      · exact .inr (.inl whole)
      · exact .inr (.inr (frame.endsAt ne pos interior))
  · rintro (rfl | rfl | ends)
    · exact frameEnd_zero _ _
    · exact frameEnd_length ne xs
    · rcases le.eq_or_lt with rfl | interior
      · exact frameEnd_length ne xs
      · obtain ⟨g, occurs, rfl⟩ := endsAt_iff_exists.mp ends
        exact (frameEnd_iff_not_straddles ne occurs interior).mpr
          (not_straddles_of_unbordered ne (unbordered_singleton x) occurs)

/-! ### The first line -/

/-- Everything up to the first delimiter, the delimiter included. -/
def firstLine (x : α) (xs : List α) : List α := xs.take (xs.idxOf x + 1)

omit [DecidableEq α] in
/-- A terminated record has its delimiter at the end and nowhere else. -/
theorem terminated_singleton {r : List α} (term : Terminated [x] r) :
    ∃ line, x ∉ line ∧ r = line ++ [x] := by
  obtain ⟨line, y, rfl⟩ := List.eq_nil_or_concat' r |>.resolve_left
    (term.ne_nil (List.cons_ne_nil x []))
  have last := occursAt_singleton.mp term.ends.2
  simp only [List.length_append, List.length_singleton, Nat.add_sub_cancel,
    List.getElem?_concat_length, Option.some.injEq] at last
  refine ⟨line, fun mem => ?_, by rw [last]⟩
  obtain ⟨i, lt, here⟩ := List.getElem_of_mem mem
  refine term.first (i + 1) (by simp [lt]) (endsAt_add.mpr ?_)
  rw [occursAt_singleton, List.getElem?_append_left lt, List.getElem?_eq_getElem lt, here]

theorem firstLine_terminated {r : List α} (term : Terminated [x] r) (ys : List α) :
    firstLine x (r ++ ys) = r := by
  obtain ⟨line, fresh, rfl⟩ := terminated_singleton term
  have here : (line ++ [x] ++ ys).idxOf x = line.length := by
    rw [List.append_assoc, List.idxOf_append_of_notMem fresh]
    simp
  rw [firstLine, here]
  exact List.take_left' (by simp)

theorem firstLine_unterminated (fresh : x ∉ xs) : firstLine x xs = xs := by
  rw [firstLine, List.idxOf_eq_length fresh]
  exact List.take_of_length_le (Nat.le_succ _)

/-- The first line of a list is its first record. -/
theorem records_firstLine (ne : xs ≠ []) :
    records [x] xs = firstLine x xs :: records [x] (xs.drop (firstLine x xs).length) := by
  have nePat : [x] ≠ [] := List.cons_ne_nil x []
  induction xs using framing_induction nePat with
  | empty => exact absurd rfl ne
  | unterminated xs _ none =>
      have fresh : x ∉ xs := fun mem => by
        obtain ⟨i, here⟩ := List.getElem?_of_mem mem
        exact none i (occursAt_singleton.mpr here)
      rw [firstLine_unterminated fresh, records_unterminated nePat ne none]
      simp
  | terminated r ys term _ =>
      rw [firstLine_terminated term, records_terminated nePat term, List.drop_left]

theorem firstLine_ne_nil (ne : xs ≠ []) : firstLine x xs ≠ [] := by
  unfold firstLine
  cases xs with
  | nil => exact absurd rfl ne
  | cons y ys => simp

/-- Wherever a line starts, it ends at a frame end. -/
theorem frameEnd_line {s : Nat} (lt : s < xs.length) :
    FrameEnd [x] xs (s + (firstLine x (xs.drop s)).length) := by
  have rest : xs.drop s ≠ [] := by
    apply List.ne_nil_of_length_pos
    rw [List.length_drop]
    omega
  have pos := List.length_pos_of_ne_nil (firstLine_ne_nil (x := x) rest)
  have short : (firstLine x (xs.drop s)).length ≤ (xs.drop s).length :=
    (List.take_prefix _ _).length_le
  have frame : FrameEnd [x] (xs.drop s) (firstLine x (xs.drop s)).length :=
    ⟨[firstLine x (xs.drop s)], by rw [records_firstLine rest]; simp, by simp⟩
  rw [frameEnd_singleton short, List.length_drop] at frame
  rw [List.length_drop] at short
  apply (frameEnd_singleton (by omega)).mpr
  rcases frame with zero | whole | ends
  · omega
  · exact .inr (.inl (by omega))
  · exact .inr (.inr ((endsAt_drop pos).mp ends))

/-- A line does not leave a range that ends at a frame end. -/
theorem firstLine_le_of_frameEnd {s : Nat} (frame : FrameEnd [x] xs e) (lt : s < e)
    (le : e ≤ xs.length) : s + (firstLine x (xs.drop s)).length ≤ e := by
  have short : (firstLine x (xs.drop s)).length ≤ xs.length - s := by
    rw [← List.length_drop]
    exact (List.take_prefix _ _).length_le
  rcases (frameEnd_singleton le).mp frame with zero | whole | ends
  · omega
  · omega
  · have last : xs[e - 1]? = some x := occursAt_singleton.mp ends.2
    have here : (xs.drop s)[e - 1 - s]? = some x := by
      rw [List.getElem?_drop, ← last]
      congr 1
      omega
    have early : x ∈ (xs.drop s).take (e - s) := by
      apply List.mem_of_getElem? (i := e - 1 - s)
      rw [List.getElem?_take_of_lt (by omega)]
      exact here
    have first := (List.mem_take_iff_idxOf_lt (List.mem_of_getElem? here)).mp early
    have taken : (firstLine x (xs.drop s)).length ≤ (xs.drop s).idxOf x + 1 :=
      List.length_take_le _ _
    omega

/-- A line that ends inside a range is the first of the range. -/
theorem firstLine_take {n : Nat} (fits : (firstLine x xs).length ≤ n) :
    firstLine x (xs.take n) = firstLine x xs := by
  by_cases mem : x ∈ xs
  · have lt := List.idxOf_lt_length_of_mem mem
    have short : xs.idxOf x + 1 ≤ n := by
      rwa [firstLine, List.length_take, Nat.min_eq_left lt] at fits
    have early : x ∈ xs.take n := by
      rw [List.mem_take_iff_getElem]
      exact ⟨xs.idxOf x, by omega, List.getElem_idxOf lt⟩
    have same : (xs.take n).idxOf x = xs.idxOf x := by
      conv_rhs => rw [← List.take_append_drop n xs, List.idxOf_append_of_mem early]
    rw [firstLine, same, List.take_take, Nat.min_eq_left short]
    rfl
  · rw [firstLine_unterminated mem] at fits ⊢
    rw [List.take_of_length_le fits, firstLine_unterminated mem]

omit [DecidableEq α] in
theorem drop_slice (xs : List α) (s e k : Nat) :
    (slice xs (s, e)).drop k = slice xs (s + k, e) := by
  unfold slice
  rw [List.drop_take, List.drop_drop, Nat.sub_sub]

/-- The records of a range, when its first line does not leave it. -/
theorem records_slice {s : Nat} (lt : s < e) (fits : e ≤ xs.length)
    (inside : s + (firstLine x (xs.drop s)).length ≤ e) :
    records [x] (slice xs (s, e)) =
      firstLine x (xs.drop s) ::
        records [x] (slice xs (s + (firstLine x (xs.drop s)).length, e)) := by
  have ne : slice xs (s, e) ≠ [] := by
    apply List.ne_nil_of_length_pos
    rw [slice, List.length_take, List.length_drop]
    omega
  have same : firstLine x (slice xs (s, e)) = firstLine x (xs.drop s) := by
    apply firstLine_take
    dsimp only
    omega
  rw [records_firstLine ne, same, drop_slice]

/-! ### Counting -/

omit [DecidableEq α] in
theorem endsAt_slice {s : Nat} (lt : s < e) (le : e ≤ xs.length) (ends : EndsAt [x] xs e) :
    EndsAt [x] (slice xs (s, e)) (slice xs (s, e)).length := by
  have length : (slice xs (s, e)).length = e - s := by
    rw [slice, List.length_take, List.length_drop]
    dsimp only
    omega
  have pos : [x].length ≤ e - s := Nat.sub_pos_of_lt lt
  rw [length, slice, endsAt_take le_rfl, endsAt_drop pos]
  rwa [Nat.add_sub_cancel' lt.le]

/-- A list that ends with the delimiter has as many records as delimiters. -/
theorem length_records_eq_count (ends : xs ≠ [] → EndsAt [x] xs xs.length) :
    (records [x] xs).length = xs.count x := by
  have nePat : [x] ≠ [] := List.cons_ne_nil x []
  induction xs using framing_induction nePat with
  | empty => simp
  | unterminated xs ne none => exact absurd (ends ne).2 (none _)
  | terminated r ys term ih =>
      obtain ⟨line, fresh, rfl⟩ := terminated_singleton term
      have rest : ys ≠ [] → EndsAt [x] ys ys.length := by
        intro ne
        have whole := ends (by simp)
        rw [List.length_append] at whole
        have pos := List.length_pos_of_ne_nil ne
        have dropped : (line ++ [x] ++ ys).drop (line ++ [x]).length = ys := List.drop_left
        rwa [← endsAt_drop (k := (line ++ [x]).length) pos, dropped] at whole
      rw [records_terminated nePat term, List.length_cons, ih rest, List.count_append,
        List.count_append, List.count_eq_zero_of_not_mem fresh, List.count_singleton_self]
      omega

/-- The number of delimiters before each range, counted from `n`. -/
def offsets (x : α) (xs : List α) : Nat → List (Nat × Nat) → List Nat
  | _, [] => []
  | n, r :: rs => n :: offsets x xs (n + (slice xs r).count x) rs

theorem length_offsets (x : α) (xs : List α) (n : Nat) (rs : List (Nat × Nat)) :
    (offsets x xs n rs).length = rs.length := by
  induction rs generalizing n with
  | nil => rfl
  | cons r rs ih => rw [offsets, List.length_cons, ih, List.length_cons]

/-- **Numbering by ranges.** Ranges that tile the list, empty ones apart, and end at frame
ends number its records, when each counts on from the delimiters before it. -/
theorem enumerate_tiling {rs : List (Nat × Nat)} {a n : Nat}
    (tiles : Tiles a xs.length (rs.filter fun r => r.1 < r.2)) (start : FrameEnd [x] xs a)
    (ends : ∀ r ∈ rs, r.1 < r.2 → FrameEnd [x] xs r.2) :
    ((rs.zip (offsets x xs n rs)).flatMap fun p => (records [x] (slice xs p.1)).zipIdx p.2) =
      (records [x] (xs.drop a)).zipIdx n := by
  have nePat : [x] ≠ [] := List.cons_ne_nil x []
  induction rs generalizing a n with
  | nil =>
      cases tiles
      simp
  | cons r rs ih =>
      obtain ⟨s, e⟩ := r
      have ends' : ∀ r ∈ rs, r.1 < r.2 → FrameEnd [x] xs r.2 :=
        fun r mem => ends r (List.mem_cons_of_mem _ mem)
      rw [offsets, List.zip_cons_cons, List.flatMap_cons]
      by_cases lt : s < e
      · rw [List.filter_cons_of_pos (by simpa using lt)] at tiles
        cases tiles with
        | cons _ tiles =>
            have le := tiles.le
            have stop := ends (a, e) List.mem_cons_self lt
            have split : records [x] (xs.drop a) =
                records [x] (slice xs (a, e)) ++ records [x] (xs.drop e) := by
              rw [records_split nePat (frameEnd_drop nePat start stop lt.le), List.drop_drop,
                Nat.add_sub_cancel' lt.le]
              rfl
            rw [ih tiles stop ends', split, List.zipIdx_append]
            congr 1
            rcases le.eq_or_lt with rfl | interior
            · -- No record follows the last one, so its number does not matter.
              simp
            · rw [length_records_eq_count fun _ => endsAt_slice lt le
                (stop.endsAt nePat (Nat.zero_lt_of_lt lt) interior)]
      · -- An empty range has no records and no delimiters.
        have none : slice xs (s, e) = [] := by
          rw [slice, Nat.sub_eq_zero_of_le (Nat.not_lt.mp lt), List.take_zero]
        rw [List.filter_cons_of_neg (by simpa using lt)] at tiles
        rw [none, records_nil, List.zipIdx_nil, List.nil_append, List.count_nil, Nat.add_zero]
        exact ih tiles start ends'

end Lines
