import Mathlib.Data.List.Infix
import MmapChunker.Theory.Occurrence
import MmapChunker.Theory.Tiling

/-!
Left-to-right record framing.

`records pat xs` cuts after the first occurrence of the delimiter `pat`, again
after the first occurrence in the rest, and so on; a non-empty remainder without
a delimiter is the last record. `FrameEnd` marks the positions between records.

* `framing_induction` is the induction every fact about framing follows: a list is
  empty, or has no delimiter, or is a terminated record followed by a rest.
* `records_split` says that cutting at a frame end cuts the record list, and
  `flatMap_records_eq_iff` that a tiling keeps the record list exactly when all its
  range ends are frame ends.
* A delimiter may overlap itself. `frameEnd_iff_not_straddles` says which
  occurrences end a record: those that do not straddle a frame end.
-/

namespace Framing

open Occurrence Tiling

variable {α : Type*} [DecidableEq α]

/-- The records of `xs` under left-to-right framing by `pat`. -/
def records (pat xs : List α) : List (List α) :=
  if pat = [] ∨ xs = [] then []
  else
    match nextOcc pat xs 0 with
    | none => [xs]
    | some i => xs.take (i + pat.length) :: records pat (xs.drop (i + pat.length))
termination_by xs.length
decreasing_by
  rename_i nonempty
  have patPos := List.length_pos_of_ne_nil fun nil => nonempty (.inl nil)
  have xsPos := List.length_pos_of_ne_nil fun nil => nonempty (.inr nil)
  rw [List.length_drop]
  omega

/-- `e` is a position between two records, the start or the end. -/
def FrameEnd (pat xs : List α) (e : Nat) : Prop :=
  ∃ rs, rs <+: records pat xs ∧ rs.flatten.length = e

/-- A record that ends with its only delimiter. -/
structure Terminated (pat r : List α) : Prop where
  ends : EndsAt pat r r.length
  first : ∀ e, e < r.length → ¬ EndsAt pat r e

/-- An occurrence at `g` straddles a frame end: it starts inside one record and
ends inside a later one. -/
def Straddles (pat xs : List α) (g : Nat) : Prop :=
  ∃ e, FrameEnd pat xs e ∧ g < e ∧ e < g + pat.length

variable {pat xs : List α} {e g : Nat}

instance : Decidable (FrameEnd pat xs e) :=
  decidable_of_iff (∃ rs ∈ (records pat xs).inits, rs.flatten.length = e) <| by
    simp only [List.mem_inits, FrameEnd]

instance : Decidable (Straddles pat xs g) :=
  decidable_of_iff (∃ e, e < g + pat.length ∧ FrameEnd pat xs e ∧ g < e) <| by
    constructor
    · rintro ⟨e, high, frame, low⟩
      exact ⟨e, frame, low, high⟩
    · rintro ⟨e, frame, low, high⟩
      exact ⟨e, high, frame, low⟩

/-! ### The equations of framing -/

@[simp] theorem records_nil (pat : List α) : records pat [] = [] := by
  rw [records, if_pos (.inr rfl)]

theorem records_unterminated (nePat : pat ≠ []) (ne : xs ≠ [])
    (none : ∀ i, ¬ OccursAt pat xs i) : records pat xs = [xs] := by
  have missing : nextOcc pat xs 0 = Option.none :=
    nextOcc_eq_of_firstAt nePat fun q _ => none q
  rw [records, if_neg (not_or.mpr ⟨nePat, ne⟩), missing]

omit [DecidableEq α] in
theorem Terminated.ne_nil (nePat : pat ≠ []) {r : List α} (term : Terminated pat r) : r ≠ [] :=
  List.ne_nil_of_length_pos (term.ends.pos nePat)

/-- The delimiter of a terminated record is its first occurrence, whatever follows. -/
theorem Terminated.nextOcc_append (nePat : pat ≠ []) {r : List α} (term : Terminated pat r)
    (ys : List α) : nextOcc pat (r ++ ys) 0 = some (r.length - pat.length) := by
  obtain ⟨le, occurs⟩ := term.ends
  refine nextOcc_eq_of_firstAt nePat ⟨Nat.zero_le _, ?_, fun q _ lt occursQ => ?_⟩
  · exact (occursAt_append_left (by omega)).mpr occurs
  · have inside : q + pat.length ≤ r.length := by omega
    exact term.first (q + pat.length) (by omega)
      (endsAt_add.mpr ((occursAt_append_left inside).mp occursQ))

theorem records_terminated (nePat : pat ≠ []) {r : List α} (term : Terminated pat r)
    (ys : List α) : records pat (r ++ ys) = r :: records pat ys := by
  have whole : r.length - pat.length + pat.length = r.length := Nat.sub_add_cancel term.ends.1
  have ne : r ++ ys ≠ [] := fun nil => term.ne_nil nePat (List.append_eq_nil_iff.mp nil).1
  rw [records, if_neg (not_or.mpr ⟨nePat, ne⟩), term.nextOcc_append nePat ys]
  simp only [whole, List.take_left, List.drop_left]

/-- Every list is empty, or has no delimiter, or starts with a terminated record. -/
theorem framing_induction {motive : List α → Prop} (nePat : pat ≠ []) (empty : motive [])
    (unterminated : ∀ xs, xs ≠ [] → (∀ i, ¬ OccursAt pat xs i) → motive xs)
    (terminated : ∀ r ys, Terminated pat r → motive ys → motive (r ++ ys)) (xs : List α) :
    motive xs := by
  induction length : xs.length using Nat.strong_induction_on generalizing xs with
  | _ n ih =>
      by_cases nil : xs = []
      · exact nil ▸ empty
      have spec := nextOcc_spec nePat xs 0
      cases next : nextOcc pat xs 0 with
      | none =>
          rw [next] at spec
          exact unterminated xs nil fun i => spec i (Nat.zero_le i)
      | some i =>
          rw [next] at spec
          obtain ⟨_, occurs, first⟩ := spec
          have fits := occurs.le_length nePat
          have patPos := List.length_pos_of_ne_nil nePat
          have takeLength : (xs.take (i + pat.length)).length = i + pat.length := by
            rw [List.length_take]
            omega
          have term : Terminated pat (xs.take (i + pat.length)) := by
            constructor
            · rw [takeLength, endsAt_take le_rfl]
              exact endsAt_add.mpr occurs
            · intro e lt ends
              rw [takeLength] at lt
              rw [endsAt_take lt.le] at ends
              have le := ends.1
              exact first (e - pat.length) (Nat.zero_le _) (by omega) ends.2
          rw [← List.take_append_drop (i + pat.length) xs]
          refine terminated _ _ term (ih _ ?_ _ rfl)
          rw [List.length_drop]
          omega

/-! ### Frame ends -/

theorem frameEnd_zero (pat xs : List α) : FrameEnd pat xs 0 := ⟨[], List.nil_prefix, rfl⟩

theorem frameEnd_nil : FrameEnd pat ([] : List α) e ↔ e = 0 := by
  unfold FrameEnd
  simp [eq_comm]

theorem frameEnd_unterminated (nePat : pat ≠ []) (ne : xs ≠ []) (none : ∀ i, ¬ OccursAt pat xs i) :
    FrameEnd pat xs e ↔ e = 0 ∨ e = xs.length := by
  unfold FrameEnd
  rw [records_unterminated nePat ne none]
  constructor
  · rintro ⟨rs, pre, rfl⟩
    rcases List.prefix_cons_iff.mp pre with rfl | ⟨rs', rfl, pre'⟩
    · exact .inl rfl
    · rw [List.prefix_nil.mp pre']
      exact .inr (by simp)
  · rintro (rfl | rfl)
    · exact ⟨[], List.nil_prefix, rfl⟩
    · exact ⟨[xs], List.prefix_refl _, by simp⟩

theorem frameEnd_terminated (nePat : pat ≠ []) {r : List α} (term : Terminated pat r)
    (ys : List α) :
    FrameEnd pat (r ++ ys) e ↔ e = 0 ∨ ∃ e', FrameEnd pat ys e' ∧ e = r.length + e' := by
  unfold FrameEnd
  rw [records_terminated nePat term ys]
  constructor
  · rintro ⟨rs, pre, rfl⟩
    rcases List.prefix_cons_iff.mp pre with rfl | ⟨rs', rfl, pre'⟩
    · exact .inl rfl
    · exact .inr ⟨_, ⟨rs', pre', rfl⟩, by simp⟩
  · rintro (rfl | ⟨e', ⟨rs', pre', rfl⟩, rfl⟩)
    · exact ⟨[], List.nil_prefix, rfl⟩
    · exact ⟨r :: rs', List.cons_prefix_cons.mpr ⟨rfl, pre'⟩, by simp⟩

theorem flatten_records (nePat : pat ≠ []) (xs : List α) : (records pat xs).flatten = xs := by
  induction xs using framing_induction nePat with
  | empty => simp
  | unterminated xs ne none => simp [records_unterminated nePat ne none]
  | terminated r ys term ih => rw [records_terminated nePat term, List.flatten_cons, ih]

theorem frameEnd_length (nePat : pat ≠ []) (xs : List α) : FrameEnd pat xs xs.length :=
  ⟨records pat xs, List.prefix_refl _, by rw [flatten_records nePat]⟩

/-- A frame end inside the list is the end of a delimiter. -/
theorem FrameEnd.endsAt (nePat : pat ≠ []) (frame : FrameEnd pat xs e) (pos : 0 < e)
    (interior : e < xs.length) : EndsAt pat xs e := by
  induction xs using framing_induction nePat generalizing e with
  | empty => exact absurd interior (Nat.not_lt_zero e)
  | unterminated xs ne none =>
      rcases (frameEnd_unterminated nePat ne none).mp frame with rfl | rfl
      · exact absurd pos (Nat.lt_irrefl 0)
      · exact absurd interior (Nat.lt_irrefl _)
  | terminated r ys term ih =>
      rcases (frameEnd_terminated nePat term ys).mp frame with rfl | ⟨e', frame', rfl⟩
      · exact absurd pos (Nat.lt_irrefl 0)
      · by_cases zero : e' = 0
        · have inRecord : EndsAt pat ((r ++ ys).take r.length) r.length := by
            rw [List.take_left]
            exact term.ends
          rw [zero, Nat.add_zero]
          exact (endsAt_take le_rfl).mp inRecord
        · rw [List.length_append] at interior
          have inRest := ih frame' (Nat.pos_of_ne_zero zero) (by omega)
          have rest : (r ++ ys).drop r.length = ys := List.drop_left
          rwa [← rest, endsAt_drop inRest.1] at inRest

/-- Which occurrences end a record: exactly those that straddle no frame end. -/
theorem frameEnd_iff_not_straddles (nePat : pat ≠ []) (occurs : OccursAt pat xs g)
    (interior : g + pat.length < xs.length) :
    FrameEnd pat xs (g + pat.length) ↔ ¬ Straddles pat xs g := by
  have patPos := List.length_pos_of_ne_nil nePat
  induction xs using framing_induction nePat generalizing g with
  | empty => exact absurd interior (Nat.not_lt_zero _)
  | unterminated xs ne none => exact absurd occurs (none g)
  | terminated r ys term ih =>
      have frames : ∀ {e}, FrameEnd pat (r ++ ys) e ↔
          e = 0 ∨ ∃ e', FrameEnd pat ys e' ∧ e = r.length + e' := frameEnd_terminated nePat term ys
      have patLe := term.ends.1
      rw [List.length_append] at interior
      rcases Nat.lt_trichotomy (g + pat.length) r.length with before | at_end | after
      · -- The record has no occurrence before its terminator.
        have inRecord := (occursAt_append_left before.le).mp occurs
        exact absurd (endsAt_add.mpr inRecord) (term.first _ before)
      · -- The terminator itself: no frame end lies strictly inside it.
        refine iff_of_true (frames.mpr (.inr ⟨0, frameEnd_zero pat ys, by omega⟩)) ?_
        rintro ⟨e, frame, low, high⟩
        rcases frames.mp frame with rfl | ⟨e', _, rfl⟩ <;> omega
      · by_cases inside : g < r.length
        · -- An occurrence that overlaps the terminator ends no record.
          refine iff_of_false (fun frame => ?_) (not_not.mpr
            ⟨r.length, frames.mpr (.inr ⟨0, frameEnd_zero pat ys, rfl⟩), inside, after⟩)
          rcases frames.mp frame with zero | ⟨e', frame', eq⟩
          · omega
          · have := (frame'.endsAt nePat (by omega) (by omega)).1
            omega
        · -- Past the terminator everything happens in the rest.
          obtain ⟨g', rfl⟩ := Nat.exists_eq_add_of_le (Nat.not_lt.mp inside)
          have rest := ih (occursAt_append_right.mp occurs) (by omega)
          have sameFrame : FrameEnd pat (r ++ ys) (r.length + g' + pat.length) ↔
              FrameEnd pat ys (g' + pat.length) := by
            rw [frames]
            constructor
            · rintro (zero | ⟨e', frame', eq⟩)
              · omega
              · rwa [show g' + pat.length = e' by omega]
            · exact fun frame' => .inr ⟨_, frame', by omega⟩
          have sameStraddle : Straddles pat (r ++ ys) (r.length + g') ↔ Straddles pat ys g' := by
            constructor
            · rintro ⟨e, frame, low, high⟩
              rcases frames.mp frame with rfl | ⟨e', frame', rfl⟩
              · omega
              · exact ⟨e', frame', by omega, by omega⟩
            · rintro ⟨e', frame', low, high⟩
              exact ⟨r.length + e', frames.mpr (.inr ⟨e', frame', rfl⟩), by omega, by omega⟩
          exact (sameFrame.trans rest).trans (not_congr sameStraddle).symm

/-- No proper suffix of the pattern is a prefix of it. -/
def Unbordered (pat : List α) : Prop := ∀ k, 0 < k → k < pat.length → ¬ pat.drop k <+: pat

omit [DecidableEq α] in
theorem unbordered_singleton (x : α) : Unbordered [x] := by
  intro k pos lt
  rw [List.length_singleton] at lt
  omega

/-- Occurrences of an unbordered pattern do not overlap, so none straddles a frame
end. -/
theorem not_straddles_of_unbordered (nePat : pat ≠ []) (unbordered : Unbordered pat)
    (occurs : OccursAt pat xs g) : ¬ Straddles pat xs g := by
  rintro ⟨e, frame, low, high⟩
  have fits := occurs.le_length nePat
  obtain ⟨le, earlier⟩ := frame.endsAt nePat (by omega) (by omega)
  -- The delimiter that ends at `e` and the occurrence at `g` share `e - g` bytes.
  refine unbordered (g + pat.length - e) (by omega) (by omega) ?_
  have shifted : pat.drop (g + pat.length - e) <+: xs.drop g := by
    have dropped := List.IsPrefix.drop earlier (g + pat.length - e)
    rwa [List.drop_drop, show e - pat.length + (g + pat.length - e) = g by omega] at dropped
  refine List.prefix_of_prefix_length_le shifted occurs ?_
  rw [List.length_drop]
  omega

/-! ### The record at a position -/

/-- The length of the longest record, its delimiter included. -/
def longestRecord (pat xs : List α) : Nat := ((records pat xs).map List.length).foldr max 0

theorem longestRecord_terminated (nePat : pat ≠ []) {r : List α} (term : Terminated pat r)
    (ys : List α) : longestRecord pat (r ++ ys) = max r.length (longestRecord pat ys) := by
  rw [longestRecord, records_terminated nePat term]
  rfl

/-- Every position lies in a record, between two frame ends and no longer than the
longest; it ends with a delimiter unless no delimiter starts at or after its own start. -/
theorem exists_record_at (nePat : pat ≠ []) {t : Nat} (lt : t < xs.length) :
    ∃ start stop, FrameEnd pat xs start ∧ FrameEnd pat xs stop ∧ start ≤ t ∧ t < stop ∧
      stop - start ≤ longestRecord pat xs ∧
      (EndsAt pat xs stop ∨ ∀ i, start ≤ i → ¬ OccursAt pat xs i) := by
  induction xs using framing_induction nePat generalizing t with
  | empty => exact absurd lt (Nat.not_lt_zero t)
  | unterminated xs ne none =>
      refine ⟨0, xs.length, frameEnd_zero pat xs, frameEnd_length nePat xs, Nat.zero_le t, lt, ?_,
        ?_⟩
      · rw [longestRecord, records_unterminated nePat ne none]
        simp
      · exact .inr fun i _ => none i
  | terminated r ys term ih =>
      have frames : ∀ {e}, FrameEnd pat (r ++ ys) e ↔
          e = 0 ∨ ∃ e', FrameEnd pat ys e' ∧ e = r.length + e' := frameEnd_terminated nePat term ys
      rw [longestRecord_terminated nePat term]
      by_cases inRecord : t < r.length
      · have ends : EndsAt pat ((r ++ ys).take r.length) r.length := by
          rw [List.take_left]
          exact term.ends
        refine ⟨0, r.length, frameEnd_zero pat _, frames.mpr (.inr ⟨0, frameEnd_zero pat ys, rfl⟩),
          Nat.zero_le t, inRecord, ?_, .inl ((endsAt_take le_rfl).mp ends)⟩
        exact le_max_left _ _
      · rw [List.length_append] at lt
        have rest : (r ++ ys).drop r.length = ys := List.drop_left
        obtain ⟨start, stop, frame, frame', le, past, short, terminator⟩ :=
          ih (t := t - r.length) (by omega)
        refine ⟨r.length + start, r.length + stop, frames.mpr (.inr ⟨start, frame, rfl⟩),
          frames.mpr (.inr ⟨stop, frame', rfl⟩), by omega, by omega, ?_, ?_⟩
        · rw [Nat.add_sub_add_left]
          exact short.trans (le_max_right _ _)
        · rcases terminator with ends | none
          · left
            rwa [← endsAt_drop ends.1, rest]
          · right
            intro i le' occurs
            obtain ⟨i', rfl⟩ := Nat.exists_eq_add_of_le (show r.length ≤ i by omega)
            exact none i' (by omega) (occursAt_append_right.mp occurs)

/-- The first delimiter at or after a position ends in the record of that position,
unless the position lies inside the delimiter that ends its record. -/
theorem nextOcc_le_longestRecord (nePat : pat ≠ []) {t g : Nat}
    (found : nextOcc pat xs t = some g) (outside : ¬ Straddles pat xs t) :
    g + pat.length ≤ t + longestRecord pat xs := by
  have patPos := List.length_pos_of_ne_nil nePat
  have first := nextOcc_spec nePat xs t
  rw [found] at first
  obtain ⟨after, occurs, least⟩ := first
  have fits := occurs.le_length nePat
  obtain ⟨start, stop, -, frame, le, past, short, terminator⟩ :=
    exists_record_at nePat (show t < xs.length by omega)
  have clear : t + pat.length ≤ stop := by
    by_contra inside
    exact outside ⟨stop, frame, past, by omega⟩
  rcases terminator with ends | none
  · have early : g ≤ stop - pat.length := by
      by_contra late
      exact least (stop - pat.length) (by omega) (by omega) ends.2
    have ended := ends.1
    omega
  · exact absurd occurs (none g (by omega))

/-- A delimiter of one element moves a position inside the list by less than a record. -/
theorem snapEnd_singleton_lt {x : α} {t : Nat} (pos : 0 < t) (lt : t < xs.length) :
    snapEnd [x] xs t < t + longestRecord [x] xs := by
  have ne : [x] ≠ [] := List.cons_ne_nil x []
  obtain ⟨start, stop, frame, frame', le, past, short, -⟩ := exists_record_at ne lt
  by_cases ends : EndsAt [x] xs t
  · rw [snapEnd, snapEnd?_of_endsAt ends, Option.getD_some]
    omega
  · -- The position is not the start of its record, which the cut does not leave.
    have inside : start < t := by
      apply lt_of_le_of_ne le
      rintro rfl
      exact ends (frame.endsAt ne pos lt)
    have within : snapEnd [x] xs t ≤ stop := by
      by_cases interior : stop < xs.length
      · have ended := frame'.endsAt ne (by omega) interior
        have first := snapEnd?_singleton x xs t
        rw [snapEnd]
        cases found : snapEnd? [x] xs t with
        | none =>
            rw [found] at first
            exact absurd ended (first stop past.le)
        | some p =>
            rw [found] at first
            exact not_lt.mp fun later => first.2.2 stop past.le later ended
      · exact (snapEnd_le ne xs t).trans (Nat.not_lt.mp interior)
    omega

/-- A list that is not empty has a record that is not. -/
theorem longestRecord_pos (nePat : pat ≠ []) (ne : xs ≠ []) : 0 < longestRecord pat xs := by
  obtain ⟨start, stop, -, -, le, past, short, -⟩ :=
    exists_record_at nePat (List.length_pos_of_ne_nil ne)
  omega

/-! ### Cutting at frame ends -/

/-- Cutting at a frame end cuts the record list. -/
theorem records_split (nePat : pat ≠ []) (frame : FrameEnd pat xs e) :
    records pat xs = records pat (xs.take e) ++ records pat (xs.drop e) := by
  induction xs using framing_induction nePat generalizing e with
  | empty => simp
  | unterminated xs ne none =>
      rcases (frameEnd_unterminated nePat ne none).mp frame with rfl | rfl <;> simp
  | terminated r ys term ih =>
      rcases (frameEnd_terminated nePat term ys).mp frame with rfl | ⟨e', frame', rfl⟩
      · simp
      · rw [List.take_length_add_append, List.drop_length_add_append, records_terminated nePat term,
          records_terminated nePat term, ih frame', List.cons_append]

/-- Frame ends past a frame end are frame ends of the rest. -/
theorem frameEnd_drop (nePat : pat ≠ []) {a : Nat} (frame : FrameEnd pat xs a)
    (frame' : FrameEnd pat xs e) (le : a ≤ e) : FrameEnd pat (xs.drop a) (e - a) := by
  induction xs using framing_induction nePat generalizing a e with
  | empty =>
      rw [frameEnd_nil] at frame'
      rw [List.drop_nil, frameEnd_nil]
      omega
  | unterminated xs ne none =>
      rcases (frameEnd_unterminated nePat ne none).mp frame with rfl | rfl
      · exact frame'
      · rcases (frameEnd_unterminated nePat ne none).mp frame' with rfl | rfl
        · rw [Nat.zero_sub]
          exact frameEnd_zero _ _
        · rw [Nat.sub_self]
          exact frameEnd_zero _ _
  | terminated r ys term ih =>
      rcases (frameEnd_terminated nePat term ys).mp frame with rfl | ⟨a', frameA, rfl⟩
      · exact frame'
      · rcases (frameEnd_terminated nePat term ys).mp frame' with rfl | ⟨e', frameE, rfl⟩
        · rw [Nat.zero_sub]
          exact frameEnd_zero _ _
        · rw [List.drop_length_add_append, Nat.add_sub_add_left]
          exact ih frameA frameE (by omega)

/-- The elements of a range. -/
def slice (xs : List α) (r : Nat × Nat) : List α := (xs.drop r.1).take (r.2 - r.1)

/-- **A tiling keeps the record list exactly when all its range ends are frame
ends.** -/
theorem flatMap_records_eq_iff (nePat : pat ≠ []) {ranges : List (Nat × Nat)}
    (tiles : Tiles 0 xs.length ranges) :
    (ranges.flatMap fun r => records pat (slice xs r)) = records pat xs ↔
      ∀ r ∈ ranges, FrameEnd pat xs r.2 := by
  constructor
  · -- The records collected up to a range end are a prefix of the record list.
    have general : ∀ {a b : Nat} {rs : List (Nat × Nat)}, Tiles a b rs → b = xs.length →
        ∀ before : List (List α), before.flatten.length = a →
        before ++ (rs.flatMap fun r => records pat (slice xs r)) = records pat xs →
        ∀ r ∈ rs, FrameEnd pat xs r.2 := by
      intro a b rs tiles
      induction tiles with
      | nil => intro _ _ _ _ r mem; simp at mem
      | @cons a m b rs lt rest ih =>
          intro eqLen before length eq r mem
          have sliceLength : (slice xs (a, m)).length = m - a := by
            have := rest.le
            rw [slice, List.length_take, List.length_drop]
            omega
          have length' : (before ++ records pat (slice xs (a, m))).flatten.length = m := by
            rw [List.flatten_append, List.length_append, flatten_records nePat, length, sliceLength]
            omega
          rw [List.flatMap_cons, ← List.append_assoc] at eq
          rcases List.mem_cons.mp mem with rfl | mem
          · exact ⟨_, ⟨_, eq⟩, length'⟩
          · exact ih eqLen _ length' eq r mem
    exact fun eq => general tiles rfl [] rfl eq
  · have general : ∀ {a b : Nat} {rs : List (Nat × Nat)}, Tiles a b rs → b = xs.length →
        FrameEnd pat xs a → (∀ r ∈ rs, FrameEnd pat xs r.2) →
        (rs.flatMap fun r => records pat (slice xs r)) = records pat (xs.drop a) := by
      intro a b rs tiles
      induction tiles with
      | nil a => intro eqLen _ _; simp [eqLen]
      | @cons a m b rs lt rest ih =>
          intro eqLen frame frames
          have frameM := frames (a, m) List.mem_cons_self
          rw [List.flatMap_cons, ih eqLen frameM fun r mem => frames r (List.mem_cons_of_mem _ mem),
            records_split nePat (frameEnd_drop nePat frame frameM lt.le), List.drop_drop,
            Nat.add_sub_cancel' lt.le]
          rfl
    intro frames
    have whole := general tiles rfl (frameEnd_zero pat xs) frames
    rwa [List.drop_zero] at whole

end Framing
