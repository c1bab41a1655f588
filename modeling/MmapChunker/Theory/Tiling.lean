import Mathlib.Order.MinMax
import Mathlib.Order.Defs.LinearOrder
import Mathlib.Data.List.Basic

/-!
Tilings of an interval by half-open ranges.

A tiling of `[a, b)` is a list of non-empty ranges, each starting where the
previous one ended. `Tiles` is the inductive form every planner invariant is
stated in; `rangesBetween` assembles a tiling from an ordered list of cuts, and
`tiles_rangesBetween` is the one theorem that turns facts about cuts into facts
about ranges.

Everything is over an arbitrary linear order: nothing here depends on what a
position is.
-/

namespace Tiling

variable {α : Type*} [LinearOrder α]

/-- `Tiles a b rs`: the ranges `rs` are non-empty, contiguous, and cover exactly
`[a, b)`. -/
inductive Tiles : α → α → List (α × α) → Prop where
  | nil (a : α) : Tiles a a []
  | cons {a m b : α} {rs : List (α × α)} : a < m → Tiles m b rs → Tiles a b ((a, m) :: rs)

namespace Tiles

variable {a b c : α} {rs ss : List (α × α)}

theorem le (tiles : Tiles a b rs) : a ≤ b := by
  induction tiles with
  | nil => exact le_rfl
  | cons lt _ ih => exact lt.le.trans ih

/-- Only the empty interval has the empty tiling. -/
theorem eq_nil_iff (tiles : Tiles a b rs) : rs = [] ↔ a = b := by
  cases tiles with
  | nil => simp
  | cons lt rest => simpa using (lt.trans_le rest.le).ne

theorem cons_iff {r : α × α} : Tiles a b (r :: rs) ↔ a = r.1 ∧ a < r.2 ∧ Tiles r.2 b rs := by
  constructor
  · intro tiles
    cases tiles with
    | cons lt rest => exact ⟨rfl, lt, rest⟩
  · obtain ⟨s, e⟩ := r
    rintro ⟨rfl, lt, rest⟩
    exact .cons lt rest

theorem append (left : Tiles a b rs) (right : Tiles b c ss) : Tiles a c (rs ++ ss) := by
  induction left with
  | nil => exact right
  | cons lt _ ih => exact .cons lt (ih right)

/-- Every range of a tiling is non-empty and lies inside the tiled interval. -/
theorem bounds (tiles : Tiles a b rs) {s e : α} (mem : (s, e) ∈ rs) :
    a ≤ s ∧ s < e ∧ e ≤ b := by
  induction tiles with
  | nil => simp at mem
  | cons lt rest ih =>
      rcases List.mem_cons.mp mem with eq | mem
      · cases eq
        exact ⟨le_rfl, lt, rest.le⟩
      · obtain ⟨low, nonempty, high⟩ := ih mem
        exact ⟨lt.le.trans low, nonempty, high⟩

theorem head_start (tiles : Tiles a b rs) {r : α × α} (head : rs.head? = some r) : r.1 = a := by
  cases tiles with
  | nil => simp at head
  | cons _ _ =>
      simp only [List.head?_cons, Option.some.injEq] at head
      rw [← head]

theorem last_end (tiles : Tiles a b rs) {r : α × α} (last : rs.getLast? = some r) : r.2 = b := by
  induction tiles with
  | nil => simp at last
  | @cons a m b rs lt rest ih =>
      cases rs with
      | nil =>
          cases rest
          simp only [List.getLast?_singleton, Option.some.injEq] at last
          rw [← last]
      | cons r' rs' => exact ih (by simpa [List.getLast?_cons_cons] using last)

/-- Each next range starts where the previous one ended. -/
theorem contiguous (tiles : Tiles a b rs) {i : Nat} {r r' : α × α} (this : rs[i]? = some r)
    (next : rs[i + 1]? = some r') : r'.1 = r.2 := by
  induction tiles generalizing i with
  | nil => simp at this
  | @cons a m b rs lt rest ih =>
      cases i with
      | zero =>
          simp only [List.getElem?_cons_zero, Option.some.injEq] at this
          rw [← this]
          exact rest.head_start (by simpa [List.head?_eq_getElem?] using next)
      | succ i => exact ih (by simpa using this) (by simpa using next)

/-- In a tiling only the last range reaches the end. -/
theorem end_lt_of_next (tiles : Tiles a b rs) {i : Nat} {r r' : α × α} (this : rs[i]? = some r)
    (next : rs[i + 1]? = some r') : r.2 < b := by
  have mem : (r'.1, r'.2) ∈ rs := List.mem_of_getElem? next
  obtain ⟨_, nonempty, high⟩ := tiles.bounds mem
  rw [tiles.contiguous this next] at nonempty
  exact nonempty.trans_le high

/-- Every range starts where the tiling starts or where another range ends. -/
theorem start_eq_or_end (tiles : Tiles a b rs) {s e : α} (mem : (s, e) ∈ rs) :
    s = a ∨ ∃ s', (s', s) ∈ rs := by
  induction tiles with
  | nil => simp at mem
  | @cons a m b rs lt rest ih =>
      rcases List.mem_cons.mp mem with eq | mem
      · cases eq
        exact .inl rfl
      · rcases ih mem with rfl | ⟨s', mem'⟩
        · exact .inr ⟨a, List.mem_cons_self⟩
        · exact .inr ⟨s', List.mem_cons_of_mem _ mem'⟩

/-- Earlier ranges end before later ones start. -/
theorem ordered (tiles : Tiles a b rs) : rs.Pairwise fun r r' => r.2 ≤ r'.1 := by
  induction tiles with
  | nil => exact List.Pairwise.nil
  | cons lt rest ih => exact List.pairwise_cons.mpr ⟨fun r mem => (rest.bounds mem).1, ih⟩

/-- Of a list that goes on as the tiling, what starts at or past `a` is the tiling. -/
theorem filter_append (tiles : Tiles a b rs) {before : List (α × α)}
    (earlier : ∀ r ∈ before, r.1 < a) : ((before ++ rs).filter fun r => a ≤ r.1) = rs := by
  have dropped : before.filter (fun r => decide (a ≤ r.1)) = [] := by
    simpa using earlier
  have kept : rs.filter (fun r => decide (a ≤ r.1)) = rs :=
    List.filter_eq_self.mpr fun r mem => decide_eq_true (tiles.bounds mem).1
  rw [List.filter_append, dropped, kept, List.nil_append]

/-- A strictly monotone map carries a tiling to a tiling. -/
theorem map {β : Type*} [LinearOrder β] {f : α → β} (tiles : Tiles a b rs)
    (mono : ∀ x y, a ≤ x → x < y → f x < f y) :
    Tiles (f a) (f b) (rs.map fun r => (f r.1, f r.2)) := by
  induction tiles with
  | nil => exact .nil _
  | cons lt rest ih =>
      exact .cons (mono _ _ le_rfl lt) (ih fun x y le => mono x y (lt.le.trans le))

end Tiles

/-- As `Tiles`, but the ranges may be empty. -/
inductive Paves : α → α → List (α × α) → Prop where
  | nil (a : α) : Paves a a []
  | cons {a m b : α} {rs : List (α × α)} : a ≤ m → Paves m b rs → Paves a b ((a, m) :: rs)

namespace Paves

variable {a b c s e : α} {rs : List (α × α)}

/-- One more range at the end. -/
theorem concat (paves : Paves a b rs) (le : b ≤ c) : Paves a c (rs ++ [(b, c)]) := by
  induction paves with
  | nil a => exact .cons le (.nil c)
  | cons first _ ih => exact .cons first (ih le)

/-- The last range, empty or not, reaches the end. -/
theorem last_end (paves : Paves a b (rs ++ [(s, e)])) : e = b := by
  induction rs generalizing a with
  | nil =>
      cases paves with
      | cons _ rest => cases rest; rfl
  | cons r rs ih =>
      cases paves with
      | cons _ rest => exact ih rest

/-- Without its empty ranges it is a tiling. -/
theorem tiles_filter (paves : Paves a b rs) : Tiles a b (rs.filter fun r => r.1 < r.2) := by
  induction paves with
  | nil a => exact .nil a
  | @cons a m b rs le _ ih =>
      by_cases lt : a < m
      · rw [List.filter_cons_of_pos (by simpa using lt)]
        exact .cons lt ih
      · obtain rfl : a = m := le_antisymm le (not_lt.mp lt)
        rw [List.filter_cons_of_neg (by simp)]
        exact ih

end Paves

/-- Elements that are asked for by their index, in order, are all there are. -/
theorem flatMap_range_getElem? {β γ : Type*} {l : List β} {n : Nat} (le : l.length ≤ n)
    (f : β → List γ) : (List.range n).flatMap (fun i => (l[i]?).elim [] f) = l.flatMap f := by
  have upTo : ∀ n, (List.range n).flatMap (fun i => (l[i]?).elim [] f) =
      (l.take n).flatMap f := by
    intro n
    induction n with
    | zero => rfl
    | succ n ih =>
        rw [List.range_succ, List.flatMap_append, ih, List.take_add_one, List.flatMap_append,
          List.flatMap_singleton]
        cases l[n]? <;> simp
  rw [upTo n, List.take_of_length_le le]

/-- The part of a range inside `[lo, hi)`, when there is one. -/
def clip (lo hi : α) (r : α × α) : Option (α × α) :=
  if max r.1 lo < min r.2 hi then some (max r.1 lo, min r.2 hi) else none

theorem clip_eq_none {lo hi : α} {r : α × α} (past : hi ≤ r.1) : clip lo hi r = none :=
  if_neg (not_lt.mpr ((min_le_right _ _).trans (past.trans (le_max_left _ _))))

/-- Clipping the ranges of a tiling to a part of the tiled interval tiles that
part. -/
theorem Tiles.clip {a b lo hi : α} {rs : List (α × α)} (tiles : Tiles a b rs) (le : lo ≤ hi)
    (inside : hi ≤ b) (start : a ≤ hi) :
    Tiles (max a lo) hi (rs.filterMap (Tiling.clip lo hi)) := by
  induction tiles with
  | nil a =>
      have eq : a = hi := le_antisymm start inside
      rw [List.filterMap_nil, eq, max_eq_left le]
      exact .nil hi
  | @cons a m b rs lt rest ih =>
      rw [List.filterMap_cons]
      by_cases within : m ≤ hi
      · have tail := ih inside within
        rw [Tiling.clip, min_eq_left within]
        by_cases cut : max a lo < m
        · rw [if_pos cut]
          rw [max_eq_left ((le_max_right a lo).trans cut.le)] at tail
          exact .cons cut tail
        · have before : m ≤ lo := (le_max_iff.mp (not_lt.mp cut)).resolve_left (not_le.mpr lt)
          rw [if_neg cut, max_eq_right (lt.le.trans before)]
          rwa [max_eq_right before] at tail
      · -- The first range reaches past `hi`, so no later range comes near it.
        have beyond := not_le.mp within
        have none : rs.filterMap (Tiling.clip lo hi) = [] :=
          List.filterMap_eq_nil_iff.mpr fun r mem =>
            clip_eq_none (beyond.le.trans (rest.bounds mem).1)
        rw [Tiling.clip, min_eq_right beyond.le, none]
        by_cases cut : max a lo < hi
        · rw [if_pos cut]
          exact .cons cut (.nil hi)
        · rw [if_neg cut, le_antisymm (max_le start le) (not_lt.mp cut)]
          exact .nil hi

/-- The ranges between consecutive cuts, starting at `prev` and closed off at
`last`. A cut that does not lie past its predecessor contributes no range. -/
def rangesBetween (prev : α) : List α → α → List (α × α)
  | [], last => if prev < last then [(prev, last)] else []
  | cut :: cuts, last =>
      if prev < cut then (prev, cut) :: rangesBetween cut cuts last
      else rangesBetween cut cuts last

/-- Ordered cuts inside `[prev, last]` assemble into a tiling. -/
theorem tiles_rangesBetween {cuts : List α} {prev last : α}
    (sorted : (prev :: cuts).Pairwise (· ≤ ·)) (bounded : ∀ c ∈ prev :: cuts, c ≤ last) :
    Tiles prev last (rangesBetween prev cuts last) := by
  induction cuts generalizing prev with
  | nil =>
      have le : prev ≤ last := bounded prev List.mem_cons_self
      simp only [rangesBetween]
      split
      · rename_i lt
        exact .cons lt (.nil last)
      · rename_i notLt
        rw [le_antisymm le (not_lt.mp notLt)]
        exact .nil last
  | cons cut cuts ih =>
      obtain ⟨le, sorted⟩ := List.pairwise_cons.mp sorted
      have rest := ih sorted fun c mem => bounded c (List.mem_cons_of_mem _ mem)
      simp only [rangesBetween]
      split
      · rename_i lt
        exact .cons lt rest
      · rename_i notLt
        rw [le_antisymm (le cut List.mem_cons_self) (not_lt.mp notLt)]
        exact rest

theorem length_rangesBetween_le (prev last : α) (cuts : List α) :
    (rangesBetween prev cuts last).length ≤ cuts.length + 1 := by
  induction cuts generalizing prev with
  | nil => simp only [rangesBetween]; split <;> simp
  | cons cut cuts ih =>
      have := ih cut
      simp only [rangesBetween]
      split
      · simpa using this
      · simp only [List.length_cons]; omega

/-- A range that ends before the last position ends at a cut. -/
theorem end_mem_of_mem_rangesBetween {prev last : α} {cuts : List α} {s e : α}
    (mem : (s, e) ∈ rangesBetween prev cuts last) : e ∈ cuts ∨ e = last := by
  induction cuts generalizing prev with
  | nil =>
      simp only [rangesBetween] at mem
      split at mem
      · simp only [List.mem_singleton, Prod.mk.injEq] at mem
        exact .inr mem.2
      · simp at mem
  | cons cut cuts ih =>
      have tail : (s, e) ∈ rangesBetween cut cuts last → e ∈ cut :: cuts ∨ e = last := fun mem =>
        (ih mem).imp (List.mem_cons_of_mem _) id
      simp only [rangesBetween] at mem
      split at mem
      · rcases List.mem_cons.mp mem with eq | mem
        · cases eq
          exact .inl List.mem_cons_self
        · exact tail mem
      · exact tail mem

/-- Every cut of a strictly increasing list ends a range. -/
theorem exists_range_of_mem_cuts {prev last c : α} {cuts : List α}
    (sorted : (prev :: cuts).Pairwise (· < ·)) (mem : c ∈ cuts) :
    ∃ s, (s, c) ∈ rangesBetween prev cuts last := by
  induction cuts generalizing prev with
  | nil => simp at mem
  | cons cut cuts ih =>
      obtain ⟨lt, sorted⟩ := List.pairwise_cons.mp sorted
      rw [rangesBetween, if_pos (lt cut List.mem_cons_self)]
      rcases List.mem_cons.mp mem with rfl | mem
      · exact ⟨prev, List.mem_cons_self⟩
      · obtain ⟨s, memRange⟩ := ih sorted mem
        exact ⟨s, List.mem_cons_of_mem _ memRange⟩

/-! ### Counting ranges of numbers -/

section Count

variable {a b w : Nat} {rs : List (Nat × Nat)}

/-- A tiling has at most as many ranges as there are positions. -/
theorem Tiles.length_le (tiles : Tiles a b rs) : a + rs.length ≤ b := by
  induction tiles with
  | nil a => exact le_rfl
  | cons lt _ ih =>
      rw [List.length_cons]
      omega

/-- Wide ranges leave room for few of them; the last one need not be wide. -/
theorem Tiles.length_mul_lt (tiles : Tiles a b rs) (ne : rs ≠ [])
    (wide : ∀ r ∈ rs, r.2 < b → r.1 + w ≤ r.2) : a + (rs.length - 1) * w < b := by
  induction tiles with
  | nil => exact absurd rfl ne
  | @cons a m b rs lt rest ih =>
      rw [List.length_cons, Nat.add_sub_cancel]
      by_cases last : rs = []
      · have reached := rest.eq_nil_iff.mp last
        rw [last, List.length_nil, Nat.zero_mul]
        omega
      · have more : m < b := lt_of_le_of_ne rest.le fun eq => last (rest.eq_nil_iff.mpr eq)
        have first := wide (a, m) List.mem_cons_self more
        have others := ih last fun r mem => wide r (List.mem_cons_of_mem _ mem)
        have count : rs.length * w = (rs.length - 1) * w + w := by
          rw [← Nat.succ_mul, Nat.succ_eq_add_one,
            Nat.sub_add_cancel (List.length_pos_of_ne_nil last)]
        dsimp only at first
        omega

end Count
end Tiling
