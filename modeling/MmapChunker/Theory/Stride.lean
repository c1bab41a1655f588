import Mathlib.Data.List.Range
import Mathlib.Data.Nat.Basic
import MmapChunker.Theory.Tiling

/-!
Cutting an interval step by step.

Here every range starts where the last one ended and its end depends on its start, so
a large step moves all later ones. `chain` is the list of the ranges, a tiling as soon
as every step moves forward and stays in the interval (`tiles_chain`).

`evenRanges` is the special case of steps of one size, with each range computed from
its index alone (`tiles_evenRanges`).
-/

namespace Stride

open Tiling

/-! ### Steps that depend on the start -/

/-- The ranges from `start` on, each ending at the `next` of its start. -/
def chain (next : Nat → Nat) (hi start : Nat) : List (Nat × Nat) :=
  if start < hi ∧ start < next start then (start, next start) :: chain next hi (next start) else []
termination_by hi - start

/-- Every step moves forward and stays in the interval. -/
def Advances (next : Nat → Nat) (hi : Nat) : Prop := ∀ s < hi, s < next s ∧ next s ≤ hi

variable {next : Nat → Nat} {hi start : Nat}

theorem chain_of_lt (advances : Advances next hi) (lt : start < hi) :
    chain next hi start = (start, next start) :: chain next hi (next start) := by
  rw [chain, if_pos ⟨lt, (advances start lt).1⟩]

theorem chain_of_ge (ge : hi ≤ start) : chain next hi start = [] := by
  rw [chain, if_neg fun both => Nat.not_lt.mpr ge both.1]

theorem tiles_chain (advances : Advances next hi) (le : start ≤ hi) :
    Tiles start hi (chain next hi start) := by
  induction left : hi - start using Nat.strong_induction_on generalizing start with
  | _ left ih =>
      rcases le.lt_or_eq with lt | rfl
      · obtain ⟨forward, inside⟩ := advances start lt
        rw [chain_of_lt advances lt]
        exact .cons forward (ih _ (by omega) inside rfl)
      · rw [chain_of_ge le_rfl]
        exact .nil start

/-- A range of a chain ends at the `next` of its start. -/
theorem end_of_mem_chain {s e : Nat} (mem : (s, e) ∈ chain next hi start) :
    s < hi ∧ next s = e := by
  fun_induction chain next hi start with
  | case1 start both ih =>
      rcases List.mem_cons.mp mem with here | later
      · cases here
        exact ⟨both.1, rfl⟩
      · exact ih later
  | case2 => simp at mem

/-- A chain does not depend on where the positions are counted from. -/
theorem map_chain_shift {next' : Nat → Nat} {p : Nat} (shift : ∀ s, p + next' s = next (p + s))
    (start : Nat) : (chain next' hi start).map (fun r => (p + r.1, p + r.2)) =
      chain next (p + hi) (p + start) := by
  fun_induction chain next' hi start with
  | case1 start both ih =>
      obtain ⟨inside, ahead⟩ := both
      have both' : p + start < p + hi ∧ p + start < next (p + start) := by
        rw [← shift start]
        omega
      rw [List.map_cons, ih, shift start]
      conv_rhs => rw [chain, if_pos both']
  | case2 start stop =>
      have stop' : ¬ (p + start < p + hi ∧ p + start < next (p + start)) := by
        rw [← shift start]
        omega
      conv_rhs => rw [chain, if_neg stop']
      rfl

/-! ### Steps of one size -/

/-- `len` divided by `size`, rounded up. -/
def divCeil (len size : Nat) : Nat := if 0 < len % size then len / size + 1 else len / size

/-- The ranges of `size` positions each, the last one shorter if need be. -/
def evenRanges (len size : Nat) : List (Nat × Nat) :=
  (List.range (divCeil len size)).map fun i => (i * size, min (i * size + size) len)

variable {len size i : Nat}

/-- The ranges are those that start before the end. -/
theorem lt_divCeil_iff (pos : 0 < size) : i < divCeil len size ↔ i * size < len := by
  have whole := Nat.div_add_mod len size
  have small := Nat.mod_lt len pos
  have split : i < len / size ↔ i * size < size * (len / size) := by
    rw [Nat.mul_comm size]
    exact (Nat.mul_lt_mul_right pos).symm
  have next : i ≤ len / size ↔ i * size ≤ size * (len / size) := by
    rw [Nat.mul_comm size]
    exact (Nat.mul_le_mul_right_iff pos).symm
  unfold divCeil
  split
  · rw [Nat.lt_succ_iff, next]
    constructor
    · omega
    · intro lt
      by_contra past
      have beyond : len / size + 1 ≤ i := Nat.not_le.mp fun le => past (next.mp le)
      have scaled := Nat.mul_le_mul_right size beyond
      rw [Nat.succ_mul, Nat.mul_comm (len / size) size] at scaled
      omega
  · rw [split]
    omega

/-- Rounding up, as one division. -/
theorem divCeil_eq {len size : Nat} (pos : 0 < size) :
    divCeil len size = (len + size - 1) / size := by
  apply eq_of_forall_lt_iff
  intro i
  have scaled : i < (len + size - 1) / size ↔ (i + 1) * size ≤ len + size - 1 :=
    Nat.le_div_iff_mul_le pos
  rw [lt_divCeil_iff pos, scaled, Nat.succ_mul]
  omega
theorem getElem?_evenRanges (pos : 0 < size) (lt : i * size < len) :
    (evenRanges len size)[i]? = some (i * size, min (i * size + size) len) := by
  rw [evenRanges, List.getElem?_map, List.getElem?_range ((lt_divCeil_iff pos).mpr lt)]
  rfl

theorem length_evenRanges (len size : Nat) : (evenRanges len size).length = divCeil len size := by
  rw [evenRanges, List.length_map, List.length_range]

theorem tiles_evenRanges (pos : 0 < size) (len : Nat) : Tiles 0 len (evenRanges len size) := by
  have upTo : ∀ n ≤ divCeil len size, Tiles 0 (min (n * size) len)
      ((List.range n).map fun i => (i * size, min (i * size + size) len)) := by
    intro n
    induction n with
    | zero =>
        intro _
        rw [Nat.zero_mul, Nat.zero_min]
        exact .nil 0
    | succ n ih =>
        intro le
        have before := (lt_divCeil_iff pos).mp (Nat.lt_of_succ_le le)
        have first := ih (by omega)
        rw [Nat.min_eq_left before.le] at first
        rw [List.range_succ, List.map_append, List.map_singleton, Nat.succ_mul]
        exact first.append (.cons (by omega) (.nil _))
  have whole := upTo _ le_rfl
  have reached : len ≤ divCeil len size * size :=
    Nat.not_lt.mp ((lt_divCeil_iff pos).not.mp (lt_irrefl _))
  rwa [Nat.min_eq_right reached] at whole

end Stride
