import Mathlib.Algebra.BigOperators.Group.List.Basic
import Mathlib.Algebra.GroupWithZero.Nat
import Mathlib.Algebra.Order.BigOperators.Group.List
import Mathlib.Data.List.TakeWhile
import MmapChunker.Theory.Tiling

/-!
A line cut into consecutive segments.

Segments of the lengths `lens` stand one after the other; segment `k` occupies
`[offset lens k, offset lens (k + 1))`. Lengths may be zero, so offsets may repeat.

* `Inside lens k t` says that `t` lies strictly inside segment `k`; every position
  that is no offset does (`exists_inside`).
* `pieces lens r` is the range `r` cut at the offsets, each piece with the index of
  its segment and in positions local to it. `tiles_pieces` and `ordered_pieces` say
  that the pieces of a tiling walk through the segments in order and tile each one.
-/

namespace Segments

open Tiling

/-- Where segment `k` starts. -/
def offset (lens : List Nat) (k : Nat) : Nat := (lens.take k).sum

/-- All offsets, the end of the line included. -/
def prefixSums (lens : List Nat) : List Nat := (List.range (lens.length + 1)).map (offset lens)

/-- `t` lies strictly inside segment `k`. -/
def Inside (lens : List Nat) (k t : Nat) : Prop := offset lens k < t ∧ t < offset lens (k + 1)

variable {lens : List Nat} {k k' t : Nat}

/-! ### Offsets -/

@[simp] theorem offset_zero (lens : List Nat) : offset lens 0 = 0 := rfl

theorem offset_length (lens : List Nat) : offset lens lens.length = lens.sum := by
  rw [offset, List.take_length]

theorem offset_succ (lt : k < lens.length) : offset lens (k + 1) = offset lens k + lens[k] := by
  rw [offset, offset, List.sum_take_succ lens k lt]

theorem offset_cons (first : Nat) (lens : List Nat) (k : Nat) :
    offset (first :: lens) (k + 1) = first + offset lens k := by
  rw [offset, offset, List.take_succ_cons, List.sum_cons]

theorem offset_mono (lens : List Nat) (le : k ≤ k') : offset lens k ≤ offset lens k' := by
  obtain ⟨d, rfl⟩ := Nat.exists_eq_add_of_le le
  rw [offset, offset, List.take_add, List.sum_append]
  exact Nat.le_add_right _ _

theorem offset_le_sum (lens : List Nat) (k : Nat) : offset lens k ≤ lens.sum := by
  rcases Nat.le_total k lens.length with le | le
  · exact offset_length lens ▸ offset_mono lens le
  · rw [offset, List.take_of_length_le le]

/-- Offsets that differ are in the order of their segments. -/
theorem lt_of_offset_lt (lt : offset lens k < offset lens k') : k < k' := by
  by_contra notLt
  exact absurd (offset_mono lens (Nat.not_lt.mp notLt)) (Nat.not_le.mpr lt)

theorem length_prefixSums (lens : List Nat) : (prefixSums lens).length = lens.length + 1 := by
  rw [prefixSums, List.length_map, List.length_range]

theorem getElem?_prefixSums (le : k ≤ lens.length) :
    (prefixSums lens)[k]? = some (offset lens k) := by
  rw [prefixSums, List.getElem?_map, List.getElem?_range (Nat.lt_succ_of_le le)]
  rfl

theorem mem_prefixSums : t ∈ prefixSums lens ↔ ∃ k ≤ lens.length, offset lens k = t := by
  simp only [prefixSums, List.mem_map, List.mem_range, Nat.lt_succ_iff]

theorem prefixSums_append (lens : List Nat) (len : Nat) :
    prefixSums (lens ++ [len]) = prefixSums lens ++ [lens.sum + len] := by
  have whole : offset (lens ++ [len]) (lens.length + 1) = lens.sum + len := by
    have := offset_length (lens ++ [len])
    rw [List.length_append, List.length_singleton] at this
    rw [this, List.sum_append, List.sum_singleton]
  have shorter : ∀ k ∈ List.range (lens.length + 1), offset (lens ++ [len]) k = offset lens k := by
    intro k mem
    rw [offset, offset, List.take_append_of_le_length (by
      have := List.mem_range.mp mem
      omega)]
  rw [prefixSums, List.length_append, List.length_singleton, List.range_succ, List.map_append,
    List.map_congr_left shorter, List.map_singleton, whole]
  rfl

theorem prefixSums_cons (first : Nat) (lens : List Nat) :
    prefixSums (first :: lens) = 0 :: (prefixSums lens).map (first + ·) := by
  rw [prefixSums, List.length_cons, List.range_succ_eq_map, List.map_cons, List.map_map, prefixSums,
    List.map_map]
  refine congrArg _ (List.map_congr_left fun k _ => ?_)
  exact offset_cons first lens k

theorem zero_mem_prefixSums (lens : List Nat) : 0 ∈ prefixSums lens :=
  mem_prefixSums.mpr ⟨0, Nat.zero_le _, rfl⟩

theorem getLast?_prefixSums (lens : List Nat) : (prefixSums lens).getLast? = some lens.sum := by
  rw [List.getLast?_eq_getElem?, length_prefixSums, Nat.add_sub_cancel,
    getElem?_prefixSums le_rfl, offset_length]

/-! ### Positions inside a segment -/

theorem Inside.lt_length (inside : Inside lens k t) : k < lens.length := by
  by_contra notLt
  have le := Nat.not_lt.mp notLt
  obtain ⟨low, high⟩ := inside
  rw [offset, List.take_of_length_le (by omega), ← offset_length] at high
  have := offset_mono lens le
  omega

theorem Inside.lt_len (inside : Inside lens k t) (lt : k < lens.length) :
    t - offset lens k < lens[k] := by
  have succ := offset_succ lt
  obtain ⟨low, high⟩ := inside
  omega

theorem Inside.lt_sum (inside : Inside lens k t) : t < lens.sum :=
  inside.2.trans_le (offset_le_sum lens _)

theorem Inside.not_mem (inside : Inside lens k t) : t ∉ prefixSums lens := by
  intro mem
  obtain ⟨j, _, rfl⟩ := mem_prefixSums.mp mem
  have := lt_of_offset_lt inside.1
  have := lt_of_offset_lt inside.2
  omega

/-- Every position past the start lies in a segment or at the end of one. -/
theorem exists_segment (pos : 0 < t) (le : t ≤ lens.sum) :
    ∃ k < lens.length, offset lens k < t ∧ t ≤ offset lens (k + 1) := by
  have step : ∀ n, n ≤ lens.length → t ≤ offset lens n →
      ∃ k < n, offset lens k < t ∧ t ≤ offset lens (k + 1) := by
    intro n
    induction n with
    | zero => exact fun _ le => absurd (pos.trans_le le) (Nat.lt_irrefl 0)
    | succ n ih =>
        intro leN le
        by_cases low : offset lens n < t
        · exact ⟨n, Nat.lt_succ_self n, low, le⟩
        · obtain ⟨k, lt, bounds⟩ := ih (by omega) (Nat.not_lt.mp low)
          exact ⟨k, by omega, bounds⟩
  exact step lens.length le_rfl (by rwa [offset_length])

/-- A position before the end that is no offset lies inside a segment. -/
theorem exists_inside (notOffset : t ∉ prefixSums lens) (lt : t < lens.sum) :
    ∃ k, Inside lens k t := by
  have pos : t ≠ 0 := fun zero => notOffset (mem_prefixSums.mpr ⟨0, Nat.zero_le _, zero.symm⟩)
  obtain ⟨k, ltK, low, high⟩ := exists_segment (Nat.pos_of_ne_zero pos) lt.le
  have notEnd : t ≠ offset lens (k + 1) := fun eq =>
    notOffset (mem_prefixSums.mpr ⟨k + 1, ltK, eq.symm⟩)
  exact ⟨k, low, by omega⟩

/-- The offsets at or before a position inside segment `k` are the first `k + 1`. -/
theorem length_takeWhile_prefixSums (inside : Inside lens k t) :
    ((prefixSums lens).takeWhile (· ≤ t)).length = k + 1 := by
  have lt := inside.lt_length
  have before : ∀ i ∈ List.range (k + 1), offset lens i ≤ t := fun i mem =>
    (offset_mono lens (Nat.lt_succ_iff.mp (List.mem_range.mp mem))).trans inside.1.le
  have split : prefixSums lens = (List.range (k + 1)).map (offset lens) ++
      (List.range' (k + 1) (lens.length - k)).map (offset lens) := by
    rw [← List.map_append, prefixSums, List.range_eq_range', List.range_eq_range',
      show lens.length + 1 = (k + 1) + (lens.length - k) by omega, ← List.range'_append_1,
      Nat.zero_add]
  have all : ((List.range (k + 1)).map (offset lens)).takeWhile (· ≤ t) =
      (List.range (k + 1)).map (offset lens) := by
    refine List.takeWhile_eq_self_iff.mpr fun p mem => ?_
    obtain ⟨i, memI, rfl⟩ := List.mem_map.mp mem
    exact decide_eq_true (before i memI)
  have next :
      ((List.range' (k + 1) (lens.length - k)).map (offset lens)).takeWhile (· ≤ t) = [] := by
    rw [show lens.length - k = (lens.length - k - 1) + 1 by omega, List.range'_succ, List.map_cons]
    exact List.takeWhile_cons_of_neg (by
      have := inside.2
      simpa using this)
  rw [split, List.takeWhile_append, all, if_pos rfl, next, List.append_nil, List.length_map,
    List.length_range]

/-- The segment of a position, read off the offsets. -/
def segmentAt (lens : List Nat) (t : Nat) : Nat :=
  ((prefixSums lens).takeWhile (· ≤ t)).length - 1

theorem segmentAt_eq (inside : Inside lens k t) : segmentAt lens t = k := by
  rw [segmentAt, length_takeWhile_prefixSums inside, Nat.add_sub_cancel]

/-! ### Snapping inside segments -/

/-- A snap for each segment, in local positions, as one snap for the line. An offset
stays where it is. -/
def lineSnap (lens : List Nat) (snap : Nat → Nat → Nat) (t : Nat) : Nat :=
  if t ∈ prefixSums lens then t
  else offset lens (segmentAt lens t) + snap (segmentAt lens t) (t - offset lens (segmentAt lens t))

/-- The same for snaps that may fail. -/
def lineSnapE {ε : Type} (lens : List Nat) (snap : Nat → Nat → Except ε Nat) (t : Nat) :
    Except ε Nat :=
  if t ∈ prefixSums lens then .ok t
  else (snap (segmentAt lens t) (t - offset lens (segmentAt lens t))).map
    (offset lens (segmentAt lens t) + ·)

/-- The snaps move no position backwards and none out of its segment. -/
def StaysInside (lens : List Nat) (snap : Nat → Nat → Nat) : Prop :=
  ∀ k (lt : k < lens.length) u, u < lens[k] → u ≤ snap k u ∧ snap k u ≤ lens[k]

section Snap

variable {ε : Type} {snap : Nat → Nat → Nat} {snapE : Nat → Nat → Except ε Nat}

theorem lineSnap_offset (mem : t ∈ prefixSums lens) : lineSnap lens snap t = t := if_pos mem

theorem lineSnap_inside (inside : Inside lens k t) :
    lineSnap lens snap t = offset lens k + snap k (t - offset lens k) := by
  rw [lineSnap, if_neg inside.not_mem, segmentAt_eq inside]

theorem lineSnapE_offset (mem : t ∈ prefixSums lens) : lineSnapE lens snapE t = .ok t := if_pos mem

theorem lineSnapE_inside (inside : Inside lens k t) :
    lineSnapE lens snapE t = (snapE k (t - offset lens k)).map (offset lens k + ·) := by
  rw [lineSnapE, if_neg inside.not_mem, segmentAt_eq inside]

theorem le_lineSnap (stays : StaysInside lens snap) (lt : t < lens.sum) :
    t ≤ lineSnap lens snap t := by
  by_cases mem : t ∈ prefixSums lens
  · exact (lineSnap_offset mem).ge
  · obtain ⟨k, inside⟩ := exists_inside mem lt
    have := (stays k inside.lt_length _ (inside.lt_len inside.lt_length)).1
    rw [lineSnap_inside inside]
    omega

/-- A position inside a segment is not snapped past its end. -/
theorem lineSnap_le_offset (stays : StaysInside lens snap) (inside : Inside lens k t) :
    lineSnap lens snap t ≤ offset lens (k + 1) := by
  have := (stays k inside.lt_length _ (inside.lt_len inside.lt_length)).2
  rw [lineSnap_inside inside, offset_succ inside.lt_length]
  omega

theorem lineSnap_le_sum (stays : StaysInside lens snap) (lt : t < lens.sum) :
    lineSnap lens snap t ≤ lens.sum := by
  by_cases mem : t ∈ prefixSums lens
  · exact (lineSnap_offset mem).trans_le lt.le
  · obtain ⟨k, inside⟩ := exists_inside mem lt
    exact (lineSnap_le_offset stays inside).trans (offset_le_sum lens _)

/-- A snap that never fails. -/
theorem lineSnapE_ok (lens : List Nat) (snap : Nat → Nat → Nat) :
    lineSnapE lens (fun k u => (.ok (snap k u) : Except ε Nat)) =
      fun t => .ok (lineSnap lens snap t) := by
  funext t
  unfold lineSnapE lineSnap
  split <;> rfl

/-- A snap that does not fail at a position. -/
theorem lineSnapE_eq_lineSnap (lt : t < lens.sum) (agree : ∀ k, Inside lens k t →
      snapE k (t - offset lens k) = .ok (snap k (t - offset lens k))) :
    lineSnapE lens snapE t = .ok (lineSnap lens snap t) := by
  by_cases mem : t ∈ prefixSums lens
  · rw [lineSnapE_offset mem, lineSnap_offset mem]
  · obtain ⟨k, inside⟩ := exists_inside mem lt
    rw [lineSnapE_inside inside, lineSnap_inside inside, agree k inside]
    rfl

/-- The bounds of a snap that succeeds, from those of its segment. -/
theorem lineSnapE_bounds (stays : ∀ k (lt : k < lens.length) u c, u < lens[k] →
      snapE k u = .ok c → u ≤ c ∧ c ≤ lens[k]) {c : Nat} (lt : t < lens.sum)
    (snapped : lineSnapE lens snapE t = .ok c) : t ≤ c ∧ c ≤ lens.sum := by
  by_cases mem : t ∈ prefixSums lens
  · rw [lineSnapE_offset mem] at snapped
    cases snapped
    exact ⟨le_rfl, lt.le⟩
  · obtain ⟨k, inside⟩ := exists_inside mem lt
    rw [lineSnapE_inside inside] at snapped
    cases found : snapE k (t - offset lens k) with
    | error e =>
        rw [found] at snapped
        cases snapped
    | ok u =>
        rw [found] at snapped
        cases snapped
        have bounds := stays k inside.lt_length _ u (inside.lt_len inside.lt_length) found
        have next := offset_succ inside.lt_length
        have inLine := offset_le_sum lens (k + 1)
        have low := inside.1
        dsimp only
        omega

/-- Where a segment fails every snap, a position up to one inside it is not snapped past
the start of the segment. -/
theorem lineSnapE_le_offset (stays : ∀ k (lt : k < lens.length) u c, u < lens[k] →
      snapE k u = .ok c → u ≤ c ∧ c ≤ lens[k]) (inside : Inside lens k t)
    (fails : ∀ u c, snapE k u ≠ .ok c) {u c : Nat} (le : u ≤ t)
    (snapped : lineSnapE lens snapE u = .ok c) : c ≤ offset lens k := by
  by_cases mem : u ∈ prefixSums lens
  · rw [lineSnapE_offset mem] at snapped
    cases snapped
    obtain ⟨j, _, rfl⟩ := mem_prefixSums.mp mem
    exact offset_mono lens (Nat.lt_succ_iff.mp (lt_of_offset_lt (le.trans_lt inside.2)))
  · obtain ⟨j, insideJ⟩ := exists_inside mem (le.trans_lt inside.lt_sum)
    rw [lineSnapE_inside insideJ] at snapped
    cases found : snapE j (u - offset lens j) with
    | error e =>
        rw [found] at snapped
        cases snapped
    | ok v =>
        rw [found] at snapped
        cases snapped
        have before : j ≠ k := fun same => fails _ v (same ▸ found)
        have upTo := lt_of_offset_lt (insideJ.1.trans_le (le.trans inside.2.le))
        have bounds := stays j insideJ.lt_length _ v (insideJ.lt_len insideJ.lt_length) found
        have next := offset_succ insideJ.lt_length
        have mono := offset_mono lens (show j + 1 ≤ k by omega)
        dsimp only
        omega

/-- What is snapped to a position inside a segment was inside that segment. -/
theorem inside_of_lineSnap (stays : StaysInside lens snap) (lt : t < lens.sum)
    (inside : Inside lens k (lineSnap lens snap t)) : Inside lens k t := by
  by_cases mem : t ∈ prefixSums lens
  · rw [lineSnap_offset mem] at inside
    exact absurd mem inside.not_mem
  · obtain ⟨j, insideJ⟩ := exists_inside mem lt
    have high := lineSnap_le_offset stays insideJ
    have low := insideJ.1.trans_le (le_lineSnap stays lt)
    have le := lt_of_offset_lt (low.trans inside.2)
    have le' := lt_of_offset_lt (inside.1.trans_le high)
    exact (show k = j by omega) ▸ insideJ

end Snap

/-! ### Cutting a range at the offsets -/

/-- The part of a range in segment `k`, in positions local to the segment. -/
def localClip (lens : List Nat) (k : Nat) (r : Nat × Nat) : Option (Nat × Nat) :=
  (clip (offset lens k) (offset lens (k + 1)) r).map
    fun p => (p.1 - offset lens k, p.2 - offset lens k)

/-- A range cut at the offsets. -/
def pieces (lens : List Nat) (r : Nat × Nat) : List (Nat × Nat × Nat) :=
  (List.range lens.length).filterMap fun k => (localClip lens k r).map (k, ·)

section Pieces

variable {r p : Nat × Nat}

theorem localClip_eq_some :
    localClip lens k r = some p ↔
      max r.1 (offset lens k) < min r.2 (offset lens (k + 1)) ∧
        (max r.1 (offset lens k) - offset lens k,
          min r.2 (offset lens (k + 1)) - offset lens k) = p := by
  unfold localClip clip
  split <;> simp_all

theorem mem_pieces {q : Nat × Nat × Nat} :
    q ∈ pieces lens r ↔ q.1 < lens.length ∧ localClip lens q.1 r = some q.2 := by
  simp only [pieces, List.mem_filterMap, List.mem_range, Option.map_eq_some_iff]
  constructor
  · rintro ⟨k, lt, p, eq, rfl⟩
    exact ⟨lt, eq⟩
  · rintro ⟨lt, eq⟩
    exact ⟨q.1, lt, q.2, eq, rfl⟩

/-- A piece is a non-empty range of its segment. -/
theorem localClip_bounds (lt : k < lens.length) (eq : localClip lens k r = some p) :
    p.1 < p.2 ∧ p.2 ≤ lens[k] := by
  obtain ⟨nonempty, rfl⟩ := localClip_eq_some.mp eq
  have succ := offset_succ lt
  dsimp only
  omega

/-- A piece starts at the start of its segment, or where its range does, inside the
segment. -/
theorem localClip_start (eq : localClip lens k r = some p) :
    p.1 = 0 ∨ Inside lens k r.1 ∧ p.1 = r.1 - offset lens k := by
  obtain ⟨nonempty, rfl⟩ := localClip_eq_some.mp eq
  unfold Inside
  dsimp only
  omega

/-- A piece ends at the end of its segment, or where its range does, inside the
segment. -/
theorem localClip_end (lt : k < lens.length) (eq : localClip lens k r = some p) :
    p.2 = lens[k] ∨ Inside lens k r.2 ∧ p.2 = r.2 - offset lens k := by
  obtain ⟨nonempty, rfl⟩ := localClip_eq_some.mp eq
  have succ := offset_succ lt
  unfold Inside
  dsimp only
  omega

/-- The pieces of a range are in the order of their segments, one per segment. -/
theorem pieces_increasing (lens : List Nat) (r : Nat × Nat) :
    ((pieces lens r).map Prod.fst).Pairwise (· < ·) := by
  have indices : (pieces lens r).map Prod.fst =
      (List.range lens.length).filter fun k => (localClip lens k r).isSome := by
    rw [pieces, List.map_filterMap, ← List.filterMap_eq_filter]
    refine List.filterMap_congr fun k _ => ?_
    cases found : localClip lens k r <;> simp [Option.guard, found]
  rw [indices]
  exact List.pairwise_lt_range.filter _

theorem pieces_eq_nil (empty : ¬ r.1 < r.2) : pieces lens r = [] := by
  refine List.filterMap_eq_nil_iff.mpr fun k _ => ?_
  rw [localClip, clip, if_neg (by omega)]
  rfl

/-- The last piece of a non-empty range ends where the range does. -/
theorem getLast?_pieces (lt : r.1 < r.2) (le : r.2 ≤ lens.sum) :
    ∃ q, (pieces lens r).getLast? = some q ∧ offset lens q.1 + q.2.2 = r.2 := by
  have general : ∀ n, r.2 ≤ offset lens n → ∃ q,
      ((List.range n).filterMap fun k => (localClip lens k r).map (k, ·)).getLast? = some q ∧
        offset lens q.1 + q.2.2 = r.2 := by
    intro n
    induction n with
    | zero =>
        intro le
        exact absurd (lt.trans_le le) (Nat.not_lt_zero _)
    | succ n ih =>
        intro le
        rw [List.range_succ, List.filterMap_append]
        by_cases before : r.2 ≤ offset lens n
        · have missing : localClip lens n r = none := by
            rw [localClip, clip, if_neg (by omega)]
            rfl
          simpa [missing] using ih before
        · have found : localClip lens n r =
              some (max r.1 (offset lens n) - offset lens n, r.2 - offset lens n) := by
            refine localClip_eq_some.mpr ⟨by omega, ?_⟩
            rw [Nat.min_eq_left le]
          refine ⟨(n, max r.1 (offset lens n) - offset lens n, r.2 - offset lens n), ?_, ?_⟩
          · simp [found]
          · exact Nat.add_sub_cancel' (Nat.not_le.mp before).le
  exact general lens.length (by rwa [offset_length])

/-- A non-empty range has a piece. -/
theorem pieces_ne_nil (lt : r.1 < r.2) (le : r.2 ≤ lens.sum) : pieces lens r ≠ [] := by
  obtain ⟨q, last, _⟩ := getLast?_pieces lt le
  exact List.ne_nil_of_mem (List.mem_of_getLast? last)

end Pieces

/-! ### The pieces of a tiling -/

section Tiling

variable {rs : List (Nat × Nat)}

/-- The pieces that lie in segment `k` tile it. -/
theorem tiles_localClip (tiles : Tiles 0 lens.sum rs) (lt : k < lens.length) :
    Tiles 0 lens[k] (rs.filterMap (localClip lens k)) := by
  have clipped := tiles.clip (offset_mono lens (Nat.le_succ k)) (offset_le_sum lens _)
    (Nat.zero_le _)
  rw [Nat.zero_max] at clipped
  have shifted := clipped.map (f := (· - offset lens k)) fun x y le lt => by omega
  rw [Nat.sub_self, offset_succ lt, Nat.add_sub_cancel_left, ← offset_succ lt] at shifted
  have same : rs.filterMap (localClip lens k) =
      (rs.filterMap (clip (offset lens k) (offset lens (k + 1)))).map
        fun r => (r.1 - offset lens k, r.2 - offset lens k) := by
    rw [List.map_filterMap]
    rfl
  rwa [same]

theorem filterMap_pieces (lt : k < lens.length) (r : Nat × Nat) :
    ((pieces lens r).filterMap fun q => if q.1 = k then some q.2 else none) =
      (localClip lens k r).toList := by
  have fused : ((pieces lens r).filterMap fun q => if q.1 = k then some q.2 else none) =
      (List.range lens.length).filterMap fun j => if j = k then localClip lens k r else none := by
    rw [pieces, List.filterMap_filterMap]
    refine List.filterMap_congr fun j _ => ?_
    by_cases eq : j = k
    · subst eq
      cases localClip lens j r <;> simp
    · cases localClip lens j r <;> simp [eq]
  have single : ∀ n,
      ((List.range n).filterMap fun j => if j = k then localClip lens k r else none) =
      if k < n then (localClip lens k r).toList else [] := by
    intro n
    induction n with
    | zero => rfl
    | succ n ih =>
        rw [List.range_succ, List.filterMap_append, ih]
        rcases Nat.lt_trichotomy n k with before | rfl | after
        · rw [if_neg (by omega), if_neg (by omega)]
          simp [before.ne]
        · cases localClip lens n r <;> simp
        · rw [if_pos (by omega), if_pos (by omega)]
          simp [after.ne']
  rw [fused, single, if_pos lt]

/-- **The pieces of a tiling tile every segment.** -/
theorem tiles_pieces (tiles : Tiles 0 lens.sum rs) (lt : k < lens.length) :
    Tiles 0 lens[k]
      ((rs.flatMap (pieces lens)).filterMap fun q => if q.1 = k then some q.2 else none) := by
  have same : ((rs.flatMap (pieces lens)).filterMap fun q => if q.1 = k then some q.2 else none) =
      rs.filterMap (localClip lens k) := by
    rw [List.filterMap_flatMap, List.filterMap_eq_flatMap_toList]
    exact List.flatMap_congr fun r _ => filterMap_pieces lt r
  rw [same]
  exact tiles_localClip tiles lt

/-- **The pieces of a tiling walk through the segments in order.** -/
theorem ordered_pieces {a b : Nat} (tiles : Tiles a b rs) :
    ((rs.flatMap (pieces lens)).map Prod.fst).Pairwise (· ≤ ·) := by
  have across : ∀ r r' : Nat × Nat, r.2 ≤ r'.1 → ∀ q ∈ pieces lens r, ∀ q' ∈ pieces lens r',
      q.1 ≤ q'.1 := by
    intro r r' le q mem q' mem'
    obtain ⟨nonempty, _⟩ := localClip_eq_some.mp (mem_pieces.mp mem).2
    obtain ⟨nonempty', _⟩ := localClip_eq_some.mp (mem_pieces.mp mem').2
    have reach : offset lens q.1 < offset lens (q'.1 + 1) := by omega
    exact Nat.lt_succ_iff.mp (lt_of_offset_lt reach)
  rw [List.pairwise_map]
  refine List.pairwise_flatMap.mpr ⟨fun r _ => ?_, tiles.ordered.imp (across _ _)⟩
  exact (List.pairwise_map.mp (pieces_increasing lens r)).imp le_of_lt

end Tiling

end Segments
