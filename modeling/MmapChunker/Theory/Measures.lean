import Mathlib.Algebra.BigOperators.Group.List.Lemmas
import MmapChunker.Theory.Framing

/-!
Measures that add up at the ends of records.

A measure of data in records takes values in a monoid. It adds up if cutting the data right
after a terminator cuts the measure: then a tiling whose ranges end at terminators, or with
the data, can be measured range by range.

* `AddsUp.sum_slices` is that statement.
* `sum_fibers` regroups a sum over a list by an index.
-/

namespace Measures

open Tiling Occurrence Framing

variable {α M : Type*}

section Additive

variable [AddMonoid M]

/-- Nothing measures nothing, and a cut after `x` cuts the measure. -/
structure AddsUp (x : α) (μ : List α → M) : Prop where
  empty : μ [] = 0
  append : ∀ front back, μ (front ++ x :: back) = μ (front ++ [x]) + μ back

/-- What ends right after `x` has `x` as its last element. -/
theorem exists_slice_eq {x : α} {xs : List α} {s e : Nat} (lt : s < e)
    (ends : EndsAt [x] xs e) : ∃ front, slice xs (s, e) = front ++ [x] := by
  have le : e ≤ xs.length := ends.le_length (List.cons_ne_nil x [])
  obtain ⟨-, rest, occurs⟩ := ends
  have last : (xs.drop s)[e - s - 1]? = some x := by
    have here : s + (e - s - 1) = e - 1 := by omega
    rw [List.getElem?_drop, here]
    exact occursAt_singleton.mp ⟨rest, occurs⟩
  refine ⟨(xs.drop s).take (e - s - 1), ?_⟩
  have succ : e - s = e - s - 1 + 1 := by omega
  change (xs.drop s).take (e - s) = _
  conv_lhs => rw [succ]
  rw [List.take_add_one, last, Option.toList_some]

/-- **Measured range by range.** A tiling whose ranges end right after an `x`, or with the
data, is measured range by range. -/
theorem AddsUp.sum_slices {x : α} {μ : List α → M} (adds : AddsUp x μ) {xs : List α}
    {a : Nat} {rs : List (Nat × Nat)} (tiles : Tiles a xs.length rs)
    (ends : ∀ r ∈ rs, EndsAt [x] xs r.2 ∨ r.2 = xs.length) :
    (rs.map fun r => μ (slice xs r)).sum = μ (xs.drop a) := by
  have general : ∀ {a b : Nat} {rs : List (Nat × Nat)}, Tiles a b rs → b = xs.length →
      (∀ r ∈ rs, EndsAt [x] xs r.2 ∨ r.2 = xs.length) →
      (rs.map fun r => μ (slice xs r)).sum = μ (xs.drop a) := by
    intro a b rs tiles
    induction tiles with
    | nil =>
        rintro rfl _
        rw [List.drop_length, adds.empty]
        rfl
    | @cons a m b rs lt rest ih =>
        rintro rfl ends
        obtain ⟨here, later⟩ := List.forall_mem_cons.mp ends
        rw [List.map_cons, List.sum_cons, ih rfl later]
        have split : xs.drop a = slice xs (a, m) ++ xs.drop m := by
          have := List.take_append_drop (m - a) (xs.drop a)
          rw [List.drop_drop, Nat.add_sub_cancel' lt.le] at this
          exact this.symm
        rw [split]
        rcases here with ends | atEnd
        · obtain ⟨front, eq⟩ := exists_slice_eq lt ends
          rw [eq, List.append_assoc, List.singleton_append]
          exact (adds.append front _).symm
        · dsimp only at atEnd
          rw [atEnd, List.drop_length, adds.empty, add_zero, List.append_nil]
  exact general tiles rfl ends

end Additive

theorem sum_range_ite [AddCommMonoid M] (a : M) {i n : Nat} (lt : i < n) :
    ((List.range n).map fun k => if k = i then a else 0).sum = a := by
  induction n with
  | zero => cases lt
  | succ n ih =>
      rw [List.range_succ, List.map_append, List.sum_append, List.map_singleton,
        List.sum_singleton]
      rcases Nat.lt_succ_iff_lt_or_eq.mp lt with lt | rfl
      · rw [ih lt, if_neg (Nat.ne_of_gt lt), add_zero]
      · have none : ((List.range i).map fun k => if k = i then a else 0) =
            (List.range i).map fun _ => 0 := by
          apply List.map_congr_left
          intro k mem
          exact if_neg (Nat.ne_of_lt (List.mem_range.mp mem))
        rw [none, if_pos rfl]
        simp

/-- A sum over a list is the sum over an index of what has that index. -/
theorem sum_fibers {β : Type*} [AddCommMonoid M] (index : β → Nat) (f : β → M) {n : Nat}
    {xs : List β} (below : ∀ x ∈ xs, index x < n) :
    (xs.map f).sum =
      ((List.range n).map fun k => ((xs.filter fun x => index x = k).map f).sum).sum := by
  induction xs with
  | nil => simp
  | cons x xs ih =>
      obtain ⟨here, rest⟩ := List.forall_mem_cons.mp below
      have step : ∀ k, (((x :: xs).filter fun x => index x = k).map f).sum =
          (if k = index x then f x else 0) + ((xs.filter fun x => index x = k).map f).sum := by
        intro k
        by_cases eq : index x = k
        · simp [eq]
        · have ne : ¬k = index x := fun eq' => eq eq'.symm
          simp [eq, ne]
      simp only [step]
      rw [List.sum_map_add, sum_range_ite (f x) here, ← ih rest, List.map_cons, List.sum_cons]

end Measures
