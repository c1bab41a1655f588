import Mathlib.Data.List.Range
import Mathlib.Data.Nat.Basic
import MmapChunker.Theory.Loop
import MmapChunker.Theory.Tiling

/-!
Absolute-target cutting.

A planner of this kind is given ideal targets in ascending order and a function
`snap` that moves a target forward to an admissible cut. A target at or behind
the last cut is skipped; any other target is snapped and becomes the last cut.
Every target is computed on its own, so an early large step does not shift the
later ones.

* `walk` is the list of cuts this produces, `plan` the ranges between them.
* `tiles_plan` is coverage: for every target list and every forward `snap` the
  plan tiles the interval.
* `walkStep` is one iteration of the loop form, with `break` as soon as no
  admissible cut is left; `runSteps_walkStep` says the early exit changes
  nothing.
-/

namespace TargetWalk

open Tiling

variable {α : Type*} [LinearOrder α]

/-- The cuts of the targets `ts` when the last cut so far is `last`. -/
def walk (snap : α → α) : List α → α → List α
  | [], _ => []
  | t :: ts, last => if t ≤ last then walk snap ts last else snap t :: walk snap ts (snap t)

/-- The ranges between the cuts of `ts` over `[lo, hi)`. -/
def plan (snap : α → α) (ts : List α) (lo hi : α) : List (α × α) :=
  rangesBetween lo (walk snap ts lo) hi

variable {snap : α → α} {ts : List α} {last lo hi : α}

@[simp] theorem walk_nil : walk snap [] last = [] := rfl

theorem walk_cons_skip {t : α} (skip : t ≤ last) :
    walk snap (t :: ts) last = walk snap ts last := by
  simp only [walk, if_pos skip]

theorem walk_cons_cut {t : α} (ahead : last < t) :
    walk snap (t :: ts) last = snap t :: walk snap ts (snap t) := by
  simp only [walk, if_neg (not_le.mpr ahead)]

/-- Targets behind the last cut produce nothing. -/
theorem walk_eq_nil (behind : ∀ t ∈ ts, t ≤ last) : walk snap ts last = [] := by
  induction ts with
  | nil => rfl
  | cons t ts ih =>
      rw [walk_cons_skip (behind t List.mem_cons_self)]
      exact ih fun t' mem => behind t' (List.mem_cons_of_mem _ mem)

/-- The walk reads `snap` only at its targets. -/
theorem walk_congr {snap' : α → α} (agree : ∀ t ∈ ts, last < t → snap t = snap' t)
    (forward : ∀ t ∈ ts, t ≤ snap t) : walk snap ts last = walk snap' ts last := by
  induction ts generalizing last with
  | nil => rfl
  | cons t ts ih =>
      have forward' : ∀ t' ∈ ts, t' ≤ snap t' := fun t' mem =>
        forward t' (List.mem_cons_of_mem _ mem)
      by_cases skip : t ≤ last
      · rw [walk_cons_skip skip, walk_cons_skip skip]
        exact ih (fun t' mem => agree t' (List.mem_cons_of_mem _ mem)) forward'
      · have ahead := not_le.mp skip
        have past : last < snap t := ahead.trans_le (forward t List.mem_cons_self)
        rw [walk_cons_cut ahead, walk_cons_cut ahead, ← agree t List.mem_cons_self ahead]
        rw [ih (fun t' mem later => agree t' (List.mem_cons_of_mem _ mem) (past.trans later))
          forward']

/-- Targets behind the last cut can be left out. -/
theorem walk_append_skip {pre : List α} (behind : ∀ t ∈ pre, t ≤ last) :
    walk snap (pre ++ ts) last = walk snap ts last := by
  induction pre with
  | nil => rfl
  | cons t pre ih =>
      rw [List.cons_append, walk_cons_skip (behind t List.mem_cons_self)]
      exact ih fun t' mem => behind t' (List.mem_cons_of_mem _ mem)

/-- The walk along ascending targets depends only on which targets there are past the
last cut, not on how often they occur. -/
theorem walk_congr_mem {ts' : List α} (sorted : ts.Pairwise (· ≤ ·))
    (sorted' : ts'.Pairwise (· ≤ ·)) (forward : ∀ t ∈ ts, t ≤ snap t)
    (same : ∀ t, last < t → (t ∈ ts ↔ t ∈ ts')) : walk snap ts last = walk snap ts' last := by
  induction ts generalizing ts' last with
  | nil =>
      rw [walk_nil, walk_eq_nil]
      intro t mem
      by_contra ahead
      have absent := (same t (not_le.mp ahead)).mpr mem
      simp at absent
  | cons t ts ih =>
      obtain ⟨least, sortedRest⟩ := List.pairwise_cons.mp sorted
      have forward' : ∀ t' ∈ ts, t' ≤ snap t' := fun t' mem =>
        forward t' (List.mem_cons_of_mem _ mem)
      by_cases skip : t ≤ last
      · rw [walk_cons_skip skip]
        apply ih sortedRest sorted' forward'
        intro u ahead
        rw [← same u ahead, List.mem_cons, or_iff_right (skip.trans_lt ahead).ne']
      · have ahead := not_le.mp skip
        have le := forward t List.mem_cons_self
        -- The other list has the same next target; what stands before it is behind.
        obtain ⟨pre, post, rfl, first⟩ :=
          List.eq_append_cons_of_mem ((same t ahead).mp List.mem_cons_self)
        have ascending := List.pairwise_append.mp sorted'
        have behind : ∀ u ∈ pre, u ≤ last := by
          intro u mem
          by_contra past
          have here := (same u (not_le.mp past)).mpr (List.mem_append_left _ mem)
          have low : u ≤ t := ascending.2.2 u mem t List.mem_cons_self
          rcases List.mem_cons.mp here with rfl | later
          · exact first mem
          · exact first (le_antisymm low (least u later) ▸ mem)
        rw [walk_append_skip behind, walk_cons_cut ahead, walk_cons_cut ahead]
        apply congrArg
        apply ih sortedRest (List.pairwise_cons.mp ascending.2.1).2 forward'
        intro u past
        have beyond : t < u := le.trans_lt past
        have whole := same u (ahead.trans beyond)
        rw [List.mem_cons, or_iff_right beyond.ne', List.mem_append, List.mem_cons,
          or_iff_right beyond.ne', or_iff_right] at whole
        · exact whole
        · exact fun mem => absurd (behind u mem) (not_le.mpr (ahead.trans beyond))

/-- Every cut is the snap of a target that lay past the last cut. -/
theorem exists_target_of_mem_walk {c : α} (forward : ∀ t ∈ ts, t ≤ snap t)
    (mem : c ∈ walk snap ts last) : ∃ t ∈ ts, last < t ∧ snap t = c := by
  induction ts generalizing last with
  | nil => simp at mem
  | cons t ts ih =>
      have forward' : ∀ t' ∈ ts, t' ≤ snap t' := fun t' mem =>
        forward t' (List.mem_cons_of_mem _ mem)
      by_cases skip : t ≤ last
      · rw [walk_cons_skip skip] at mem
        obtain ⟨t', mem', ahead, eq⟩ := ih forward' mem
        exact ⟨t', List.mem_cons_of_mem _ mem', ahead, eq⟩
      · have ahead := not_le.mp skip
        rw [walk_cons_cut ahead] at mem
        rcases List.mem_cons.mp mem with eq | mem
        · exact ⟨t, List.mem_cons_self, ahead, eq.symm⟩
        · obtain ⟨t', mem', past, eq⟩ := ih forward' mem
          exact ⟨t', List.mem_cons_of_mem _ mem',
            (ahead.trans_le (forward t List.mem_cons_self)).trans past, eq⟩

theorem lt_of_mem_walk {c : α} (forward : ∀ t ∈ ts, t ≤ snap t) (mem : c ∈ walk snap ts last) :
    last < c := by
  obtain ⟨t, memT, ahead, rfl⟩ := exists_target_of_mem_walk forward mem
  exact ahead.trans_le (forward t memT)

/-- The cuts are strictly increasing. -/
theorem walk_sorted (forward : ∀ t ∈ ts, t ≤ snap t) :
    (last :: walk snap ts last).Pairwise (· < ·) := by
  refine List.pairwise_cons.mpr ⟨fun c mem => lt_of_mem_walk forward mem, ?_⟩
  induction ts generalizing last with
  | nil => exact List.Pairwise.nil
  | cons t ts ih =>
      have forward' : ∀ t' ∈ ts, t' ≤ snap t' := fun t' mem =>
        forward t' (List.mem_cons_of_mem _ mem)
      by_cases skip : t ≤ last
      · rw [walk_cons_skip skip]
        exact ih forward'
      · rw [walk_cons_cut (not_le.mp skip)]
        exact List.pairwise_cons.mpr ⟨fun c mem => lt_of_mem_walk forward' mem, ih forward'⟩

theorem length_walk_le (snap : α → α) (ts : List α) (last : α) :
    (walk snap ts last).length ≤ ts.length := by
  induction ts generalizing last with
  | nil => simp
  | cons t ts ih =>
      by_cases skip : t ≤ last
      · rw [walk_cons_skip skip]
        exact (ih last).trans (Nat.le_succ _)
      · rw [walk_cons_cut (not_le.mp skip)]
        exact Nat.succ_le_succ (ih (snap t))

/-- Coverage: whatever the targets are, a forward snap inside `[lo, hi]` gives a
tiling of `[lo, hi)`. -/
theorem tiles_plan (le : lo ≤ hi) (forward : ∀ t ∈ ts, t ≤ snap t)
    (inside : ∀ t ∈ ts, snap t ≤ hi) :
    Tiles lo hi (plan snap ts lo hi) := by
  refine tiles_rangesBetween ((walk_sorted forward).imp le_of_lt) fun c mem => ?_
  rcases List.mem_cons.mp mem with rfl | mem
  · exact le
  · obtain ⟨t, memT, _, rfl⟩ := exists_target_of_mem_walk forward mem
    exact inside t memT

/-- The targets a walk acts on: those not behind the cut before them. -/
def acted (snap : α → α) : List α → α → List α
  | [], _ => []
  | t :: ts, last => if t ≤ last then acted snap ts last else t :: acted snap ts (snap t)

theorem walk_eq_map_acted (snap : α → α) (ts : List α) (last : α) :
    walk snap ts last = (acted snap ts last).map snap := by
  induction ts generalizing last with
  | nil => rfl
  | cons t ts ih =>
      simp only [walk, acted]
      split
      · exact ih last
      · rw [List.map_cons, ih]

theorem acted_subset {t : α} (mem : t ∈ acted snap ts last) : t ∈ ts := by
  induction ts generalizing last with
  | nil => simp [acted] at mem
  | cons t' ts ih =>
      simp only [acted] at mem
      split at mem
      · exact List.mem_cons_of_mem _ (ih mem)
      · rcases List.mem_cons.mp mem with rfl | mem
        · exact List.mem_cons_self
        · exact List.mem_cons_of_mem _ (ih mem)

/-- What holds of the end of the interval and of every cut holds of every range
end, and conversely. -/
theorem forall_plan_end_iff {P : α → Prop} (forward : ∀ t ∈ ts, t ≤ snap t) (atEnd : P hi) :
    (∀ r ∈ plan snap ts lo hi, P r.2) ↔ ∀ t ∈ acted snap ts lo, P (snap t) := by
  have cuts : (∀ r ∈ plan snap ts lo hi, P r.2) ↔ ∀ c ∈ walk snap ts lo, P c := by
    constructor
    · intro ends c mem
      obtain ⟨s, memRange⟩ := exists_range_of_mem_cuts (walk_sorted forward) mem
      exact ends (s, c) memRange
    · intro ends r mem
      rcases end_mem_of_mem_rangesBetween mem with mem | eq
      · exact ends r.2 mem
      · exact eq ▸ atEnd
  rw [cuts, walk_eq_map_acted, List.forall_mem_map]

/-- Induction along a walk. The targets in `pre` have been walked over and lie behind
the last cut; the next one is skipped, or it is the first past the last cut. -/
theorem walk_induction {motive : List α → List α → α → Prop} (forward : ∀ t ∈ ts, t ≤ snap t)
    (nil : ∀ pre last, (∀ t ∈ pre, t ≤ last) → motive pre [] last)
    (skip : ∀ pre t ts last, t ≤ last → motive (pre ++ [t]) ts last → motive pre (t :: ts) last)
    (cut : ∀ pre t ts last, last < t → last < snap t →
      (pre ++ t :: ts).find? (fun t => decide (last < t)) = some t →
      motive (pre ++ [t]) ts (snap t) → motive pre (t :: ts) last) :
    motive [] ts lo := by
  have general : ∀ (ts pre : List α) (last : α), (∀ t ∈ pre, t ≤ last) →
      (∀ t ∈ ts, t ≤ snap t) → motive pre ts last := by
    intro ts
    induction ts with
    | nil => exact fun pre last behind _ => nil pre last behind
    | cons t ts ih =>
        intro pre last behind forward
        have forward' : ∀ t' ∈ ts, t' ≤ snap t' := fun t' mem =>
          forward t' (List.mem_cons_of_mem _ mem)
        by_cases le : t ≤ last
        · refine skip pre t ts last le (ih (pre ++ [t]) last (fun t' mem => ?_) forward')
          rcases List.mem_append.mp mem with old | new
          · exact behind t' old
          · exact List.mem_singleton.mp new ▸ le
        · have ahead := not_le.mp le
          have past := ahead.trans_le (forward t List.mem_cons_self)
          have first : (pre ++ t :: ts).find? (fun t => decide (last < t)) = some t := by
            have missed : pre.find? (fun t => decide (last < t)) = none := by
              simpa using behind
            rw [List.find?_append, missed, Option.none_or]
            simp [ahead]
          refine cut pre t ts last ahead past first
            (ih (pre ++ [t]) (snap t) (fun t' mem => ?_) forward')
          rcases List.mem_append.mp mem with old | new
          · exact (behind t' old).trans past.le
          · exact List.mem_singleton.mp new ▸ forward t List.mem_cons_self
  exact general ts [] lo (by simp) forward

/-- A plan cuts for the targets it acts on: a range that ends before `hi` ends at the
snap of the first target past its start, and every target acted on ends a range so. -/
theorem forall_plan_target_iff {P : α → α → Prop} (forward : ∀ t ∈ ts, t ≤ snap t) :
    (∀ r ∈ plan snap ts lo hi, r.2 < hi →
        ∃ t, ts.find? (fun t => decide (r.1 < t)) = some t ∧ P t r.2) ↔
      ∀ t ∈ acted snap ts lo, snap t < hi → P t (snap t) := by
  refine walk_induction (motive := fun pre ts last =>
    (∀ r ∈ rangesBetween last (walk snap ts last) hi, r.2 < hi →
        ∃ t, (pre ++ ts).find? (fun t => decide (r.1 < t)) = some t ∧ P t r.2) ↔
      ∀ t ∈ acted snap ts last, snap t < hi → P t (snap t)) forward ?_ ?_ ?_
  · intro pre last _
    refine iff_of_true (fun r mem interior => ?_) (by simp [acted])
    rcases end_mem_of_mem_rangesBetween mem with cut | atEnd
    · simp at cut
    · exact absurd atEnd interior.ne
  · intro pre t ts last le rest
    rwa [walk_cons_skip le, acted, if_pos le, List.append_cons]
  · intro pre t ts last ahead past first rest
    rw [walk_cons_cut ahead, acted, if_neg (not_le.mpr ahead), rangesBetween, if_pos past,
      List.forall_mem_cons, List.forall_mem_cons]
    refine and_congr (by simp [first]) ?_
    rwa [List.append_cons]

/-- Each range of a plan ends at the snap of the first target past its start, or there is
no such target and it is the last one. -/
theorem range_of_mem_plan (forward : ∀ t ∈ ts, t ≤ snap t) {s e : α}
    (mem : (s, e) ∈ plan snap ts lo hi) :
    (∃ t, ts.find? (fun t => decide (s < t)) = some t ∧ snap t = e) ∨
      ((∀ t ∈ ts, t ≤ s) ∧ e = hi) := by
  revert mem
  refine walk_induction (motive := fun pre ts last =>
    (s, e) ∈ rangesBetween last (walk snap ts last) hi →
      (∃ t, (pre ++ ts).find? (fun t => decide (s < t)) = some t ∧ snap t = e) ∨
        ((∀ t ∈ pre ++ ts, t ≤ s) ∧ e = hi)) forward ?_ ?_ ?_
  · intro pre last behind mem
    rw [walk_nil, rangesBetween] at mem
    split at mem
    · cases List.mem_singleton.mp mem
      right
      simpa using behind
    · simp at mem
  · intro pre t ts last le rest mem
    rw [walk_cons_skip le] at mem
    rw [List.append_cons]
    exact rest mem
  · intro pre t ts last ahead past first rest mem
    rw [walk_cons_cut ahead, rangesBetween, if_pos past] at mem
    rcases List.mem_cons.mp mem with here | later
    · cases here
      exact .inl ⟨t, first, rfl⟩
    · rw [List.append_cons]
      exact rest later

/-- A snap that sends everything between a target and its cut to that cut makes
skipping harmless: the cuts are the snaps of all targets. -/
theorem mem_walk_iff {c : α} (sorted : ts.Pairwise (· ≤ ·))
    (absorbs : ∀ t ∈ ts, ∀ t' ∈ ts, t ≤ t' → t' ≤ snap t → snap t' = snap t)
    (forward : ∀ t ∈ ts, t ≤ snap t) (ahead : ∀ t ∈ ts, last < t) :
    c ∈ walk snap ts last ↔ ∃ t ∈ ts, snap t = c := by
  -- What is behind the last cut is sent to it.
  have general : ∀ (ts : List α) (last : α), ts.Pairwise (· ≤ ·) →
      (∀ t ∈ ts, ∀ t' ∈ ts, t ≤ t' → t' ≤ snap t → snap t' = snap t) →
      (∀ t ∈ ts, t ≤ last → snap t = last) →
      (c = last ∨ c ∈ walk snap ts last ↔ c = last ∨ ∃ t ∈ ts, snap t = c) := by
    intro ts
    induction ts with
    | nil => simp
    | cons t ts ih =>
        intro last sorted absorbs behind
        obtain ⟨least, sorted'⟩ := List.pairwise_cons.mp sorted
        have absorbs' : ∀ u ∈ ts, ∀ u' ∈ ts, u ≤ u' → u' ≤ snap u → snap u' = snap u :=
          fun u mem u' mem' => absorbs u (List.mem_cons_of_mem _ mem) u'
            (List.mem_cons_of_mem _ mem')
        have targets : (∃ u ∈ t :: ts, snap u = c) ↔ c = snap t ∨ ∃ u ∈ ts, snap u = c := by
          simp [eq_comm]
        by_cases skip : t ≤ last
        · have rest := ih last sorted' absorbs' fun u mem =>
            behind u (List.mem_cons_of_mem _ mem)
          rw [walk_cons_skip skip, rest, targets, behind t List.mem_cons_self skip, ← or_assoc,
            or_self]
        · have rest := ih (snap t) sorted' absorbs' fun u mem =>
            absorbs t List.mem_cons_self u (List.mem_cons_of_mem _ mem) (least u mem)
          rw [walk_cons_cut (not_le.mp skip), List.mem_cons, rest, targets]
  have start := general ts last sorted absorbs fun t mem le => absurd le (not_le.mpr (ahead t mem))
  constructor
  · intro mem
    obtain ⟨t, memT, _, eq⟩ := exists_target_of_mem_walk forward mem
    exact ⟨t, memT, eq⟩
  · rintro ⟨t, memT, rfl⟩
    refine (start.mpr (.inr ⟨t, memT, rfl⟩)).resolve_left ?_
    exact ((ahead t memT).trans_le (forward t memT)).ne'

/-- A plan has at most one range more than it has targets. -/
theorem length_plan_le (snap : α → α) (ts : List α) (lo hi : α) :
    (plan snap ts lo hi).length ≤ ts.length + 1 :=
  (length_rangesBetween_le lo hi _).trans (Nat.succ_le_succ (length_walk_le snap ts lo))

/-- A range that ends before `hi` ends at the snap of some target. -/
theorem exists_target_of_mem_plan (forward : ∀ t ∈ ts, t ≤ snap t) {s e : α}
    (mem : (s, e) ∈ plan snap ts lo hi) (interior : e < hi) : ∃ t ∈ ts, lo < t ∧ snap t = e := by
  rcases end_mem_of_mem_rangesBetween mem with memWalk | eq
  · exact exists_target_of_mem_walk forward memWalk
  · exact absurd eq interior.ne

/-! ### Evenly spaced targets -/

/-- The interior targets `⌊total * i / n⌋` for `1 ≤ i < n`. -/
def evenTargets (total n : Nat) : List Nat :=
  (List.range' 1 (n - 1)).map fun i => total * i / n

theorem mem_evenTargets {total n t : Nat} :
    t ∈ evenTargets total n ↔ ∃ i, 1 ≤ i ∧ i < n ∧ total * i / n = t := by
  simp only [evenTargets, List.mem_map, List.mem_range'_1]
  constructor
  · rintro ⟨i, ⟨low, high⟩, eq⟩
    exact ⟨i, low, by omega, eq⟩
  · rintro ⟨i, low, high, eq⟩
    exact ⟨i, ⟨low, by omega⟩, eq⟩

theorem length_evenTargets (total n : Nat) : (evenTargets total n).length = n - 1 := by
  rw [evenTargets, List.length_map, List.length_range']

/-- An interior target lies strictly before the end. -/
theorem lt_of_mem_evenTargets {total n t : Nat} (pos : 0 < total) (mem : t ∈ evenTargets total n) :
    t < total := by
  obtain ⟨i, _, lt, rfl⟩ := mem_evenTargets.mp mem
  exact Nat.div_lt_of_lt_mul (by
    rw [Nat.mul_comm n total]
    exact Nat.mul_lt_mul_of_pos_left lt pos)

/-- With at most one part per position every interior target is past the start. -/
theorem pos_of_mem_evenTargets {total n t : Nat} (le : n ≤ total) (mem : t ∈ evenTargets total n) :
    0 < t := by
  obtain ⟨i, low, lt, rfl⟩ := mem_evenTargets.mp mem
  exact Nat.div_pos (le.trans (Nat.le_mul_of_pos_right total low)) (by omega)

/-- The targets ascend. -/
theorem sorted_evenTargets (total n : Nat) : (evenTargets total n).Pairwise (· ≤ ·) := by
  rw [evenTargets, List.pairwise_map]
  refine (List.pairwise_lt_range' 1 Nat.one_pos).imp fun lt => ?_
  exact Nat.div_le_div_right (Nat.mul_le_mul_left total (Nat.le_of_lt lt))

/-- Neighbouring targets, the start and the end included, are at most a part rounded up
apart. -/
theorem evenTarget_succ_le (total i : Nat) {n : Nat} (pos : 0 < n) :
    total * (i + 1) / n ≤ total * i / n + (total + n - 1) / n := by
  have first := Nat.div_add_mod (total * i) n
  have part := Nat.div_add_mod (total + n - 1) n
  have smallI := Nat.mod_lt (total * i) pos
  have smallP := Nat.mod_lt (total + n - 1) pos
  have sum : n * (total * i / n + (total + n - 1) / n) =
      n * (total * i / n) + n * ((total + n - 1) / n) := Nat.mul_add _ _ _
  have bound : total * (i + 1) < n * (total * i / n + (total + n - 1) / n + 1) := by
    rw [Nat.mul_succ, Nat.mul_succ, sum]
    omega
  exact Nat.lt_succ_iff.mp (Nat.div_lt_of_lt_mul bound)

/-- With at least one part per position every position in between is a target. -/
theorem mem_evenTargets_of_le {total n t : Nat} (le : total ≤ n) (pos : 0 < t) :
    t ∈ evenTargets total n ↔ t < total := by
  constructor
  · intro mem
    obtain ⟨i, _, _, rfl⟩ := mem_evenTargets.mp mem
    refine lt_of_mem_evenTargets (Nat.pos_of_ne_zero fun zero => ?_) mem
    rw [zero, Nat.zero_mul, Nat.zero_div] at pos
    exact Nat.lt_irrefl 0 pos
  · intro lt
    have totalPos : 0 < total := pos.trans lt
    -- The least index whose target is not below `t`.
    obtain ⟨i, index⟩ : ∃ i, i = (t * n + total - 1) / total := ⟨_, rfl⟩
    have whole := Nat.div_add_mod (t * n + total - 1) total
    have small := Nat.mod_lt (t * n + total - 1) totalPos
    rw [← index] at whole
    have nPos : 0 < n := totalPos.trans_le le
    have low : t * n ≤ total * i := by omega
    have high : total * i < t * n + total := by omega
    have tn : 0 < t * n := Nat.mul_pos pos nPos
    have iPos : 1 ≤ i := Nat.pos_of_ne_zero fun zero => by
      rw [zero, Nat.mul_zero] at low
      omega
    have iLt : i < n := by
      have scaled : (t + 1) * n ≤ total * n := Nat.mul_le_mul_right n lt
      rw [Nat.succ_mul] at scaled
      have below : total * i < total * n := by omega
      exact Nat.lt_of_mul_lt_mul_left below
    refine mem_evenTargets.mpr ⟨i, iPos, iLt, ?_⟩
    rw [Nat.div_eq_iff nPos]
    omega

/-- The first target past a position is at most a part rounded up behind it. -/
theorem le_of_find?_evenTargets {total n s t : Nat} (pos : 0 < n)
    (first : (evenTargets total n).find? (fun t => decide (s < t)) = some t) :
    t ≤ s + (total + n - 1) / n := by
  rw [evenTargets, List.find?_map, Option.map_eq_some_iff] at first
  obtain ⟨i, found, rfl⟩ := first
  obtain ⟨_, j, lt, index, before⟩ := List.find?_eq_some_iff_getElem.mp found
  rw [List.getElem_range', Nat.one_mul] at index
  have previous : total * j / n ≤ s := by
    cases j with
    | zero => simp
    | succ k =>
        have notPast := before k (Nat.lt_succ_self k)
        rw [List.getElem_range', Nat.one_mul] at notPast
        simpa [Nat.add_comm] using notPast
  rw [← index, Nat.add_comm 1]
  exact (evenTarget_succ_le total j pos).trans (Nat.add_le_add_right previous _)

/-- A position past all targets is at most a part rounded up before the end. -/
theorem total_le_of_past {total n s : Nat} (pos : 0 < n) (past : ∀ t ∈ evenTargets total n, t ≤ s) :
    total ≤ s + (total + n - 1) / n := by
  have previous : total * (n - 1) / n ≤ s := by
    by_cases one : n = 1
    · simp [one]
    · exact past _ (mem_evenTargets.mpr ⟨n - 1, by omega, by omega, rfl⟩)
  have last := evenTarget_succ_le total (n - 1) pos
  rw [Nat.sub_add_cancel pos, Nat.mul_div_cancel _ pos] at last
  exact last.trans (Nat.add_le_add_right previous _)

/-! ### The loop form -/

/-- The state of a cutting loop: the cuts pushed so far and the last one. -/
structure WalkState (α : Type*) where
  boundaries : List α
  lastBoundary : α
  deriving Repr, DecidableEq

/-- One iteration of a cutting loop. `snap? t = none` means that no admissible
cut is left at or after `t`; the loop then pushes `eof` and breaks. -/
def walkStep (snap? : α → Option α) (eof : α) (t : α) (st : WalkState α) :
    ForInStep (WalkState α) :=
  if t ≤ st.lastBoundary then .yield st
  else
    match snap? t with
    | some b => .yield ⟨st.boundaries ++ [b], b⟩
    | none => .done ⟨st.boundaries ++ [eof], st.lastBoundary⟩

section Step

variable {snap? : α → Option α} {eof t : α} {st : WalkState α}

theorem walkStep_skip (skip : t ≤ st.lastBoundary) : walkStep snap? eof t st = .yield st := by
  simp only [walkStep, if_pos skip]

theorem walkStep_cut {b : α} (ahead : st.lastBoundary < t) (found : snap? t = some b) :
    walkStep snap? eof t st = .yield ⟨st.boundaries ++ [b], b⟩ := by
  simp only [walkStep, if_neg (not_le.mpr ahead), found]

theorem walkStep_eof (ahead : st.lastBoundary < t) (missing : snap? t = none) :
    walkStep snap? eof t st = .done ⟨st.boundaries ++ [eof], st.lastBoundary⟩ := by
  simp only [walkStep, if_neg (not_le.mpr ahead), missing]

end Step

/-- The cutting loop computes the walk of the total snap that sends a target
without an admissible cut to `eof`: after that every later target is skipped, so
breaking early loses nothing. -/
theorem runSteps_walkStep (snap? : α → Option α) {eof : α} {ts : List α}
    (inside : ∀ t ∈ ts, t ≤ eof) (st : WalkState α) :
    (Loop.runSteps (walkStep snap? eof) ts st).boundaries =
      st.boundaries ++ walk (fun t => (snap? t).getD eof) ts st.lastBoundary := by
  induction ts generalizing st with
  | nil => simp
  | cons t ts ih =>
      have inside' : ∀ t' ∈ ts, t' ≤ eof := fun t' mem => inside t' (List.mem_cons_of_mem _ mem)
      by_cases skip : t ≤ st.lastBoundary
      · rw [Loop.runSteps_cons_yield (walkStep_skip skip), walk_cons_skip skip]
        exact ih inside' st
      · have ahead := not_le.mp skip
        rw [walk_cons_cut ahead]
        cases found : snap? t with
        | some b =>
            rw [Loop.runSteps_cons_yield (walkStep_cut ahead found), ih inside']
            simp
        | none =>
            rw [Loop.runSteps_cons_done (walkStep_eof ahead found), Option.getD_none,
              walk_eq_nil inside']

/-! ### A loop that may fail -/

variable {ι ε : Type*}

/-- One iteration of a cutting loop in which computing the target and snapping it
may fail. The loop breaks without a push when a target is snapped to the end. -/
def breakStep (target : ι → Except ε α) (snap : α → Except ε α) (hi : α) (i : ι)
    (st : WalkState α) : Except ε (ForInStep (WalkState α)) := do
  let t ← target i
  if t ≤ st.lastBoundary then return .yield st
  let c ← snap t
  if c ≤ st.lastBoundary then return .yield st
  if c = hi then return .done st
  return .yield ⟨st.boundaries ++ [c], c⟩

section Break

variable {target : ι → Except ε α} {snapE : α → Except ε α} {i : ι} {is : List ι} {t c : α}
  {e : ε} {st : WalkState α} {T : ι → α}

theorem breakStep_no_target (failed : target i = .error e) :
    breakStep target snapE hi i st = .error e := by
  rw [breakStep, failed]
  rfl

theorem breakStep_skip (here : target i = .ok t) (skip : t ≤ st.lastBoundary) :
    breakStep target snapE hi i st = .ok (.yield st) := by
  rw [breakStep, here]
  exact if_pos skip

theorem breakStep_no_snap (here : target i = .ok t) (ahead : st.lastBoundary < t)
    (failed : snapE t = .error e) : breakStep target snapE hi i st = .error e := by
  rw [breakStep, here]
  refine (if_neg (not_le.mpr ahead)).trans ?_
  rw [failed]
  rfl

theorem breakStep_snap (here : target i = .ok t) (ahead : st.lastBoundary < t)
    (snapped : snapE t = .ok c) (forward : t ≤ c) :
    breakStep target snapE hi i st =
      .ok (if c = hi then .done st else .yield ⟨st.boundaries ++ [c], c⟩) := by
  rw [breakStep, here]
  refine (if_neg (not_le.mpr ahead)).trans ?_
  rw [snapped]
  refine (if_neg (not_le.mpr (ahead.trans_le forward))).trans ?_
  split <;> rfl

/-- When nothing fails the loop pushes the cuts of the walk, up to one at the end
that assembling the ranges adds by itself. -/
theorem forIn_breakStep (targets : ∀ i ∈ is, target i = .ok (T i))
    (snaps : ∀ i ∈ is, snapE (T i) = .ok (snap (T i))) (forward : ∀ i ∈ is, T i ≤ snap (T i))
    (inside : ∀ i ∈ is, snap (T i) ≤ hi) (st : WalkState α) :
    ∃ cs last, forIn is st (breakStep target snapE hi) = .ok ⟨st.boundaries ++ cs, last⟩ ∧
      (∀ c ∈ cs, c ≤ hi) ∧
      rangesBetween st.lastBoundary cs hi =
        rangesBetween st.lastBoundary (walk snap (is.map T) st.lastBoundary) hi := by
  induction is generalizing st with
  | nil => exact ⟨[], st.lastBoundary, by simp; rfl, by simp, rfl⟩
  | cons i is ih =>
      have rest := ih (fun j mem => targets j (List.mem_cons_of_mem _ mem))
        (fun j mem => snaps j (List.mem_cons_of_mem _ mem))
        (fun j mem => forward j (List.mem_cons_of_mem _ mem))
        (fun j mem => inside j (List.mem_cons_of_mem _ mem))
      have here := targets i List.mem_cons_self
      have le := forward i List.mem_cons_self
      rw [List.forIn_cons, List.map_cons]
      by_cases skip : T i ≤ st.lastBoundary
      · rw [breakStep_skip here skip, walk_cons_skip skip]
        exact rest st
      · have ahead := not_le.mp skip
        have past := ahead.trans_le le
        rw [breakStep_snap here ahead (snaps i List.mem_cons_self) le, walk_cons_cut ahead]
        by_cases stop : snap (T i) = hi
        · have behind : ∀ t ∈ is.map T, t ≤ hi := fun t mem => by
            obtain ⟨j, memJ, rfl⟩ := List.mem_map.mp mem
            exact (forward j (List.mem_cons_of_mem _ memJ)).trans
              (inside j (List.mem_cons_of_mem _ memJ))
          rw [if_pos stop, stop, walk_eq_nil behind]
          rw [stop] at past
          refine ⟨[], st.lastBoundary, by simp; rfl, by simp, ?_⟩
          simp only [rangesBetween, if_pos past, if_neg (lt_irrefl hi)]
        · obtain ⟨cs, last, run, bounded, ranges⟩ :=
            rest ⟨st.boundaries ++ [snap (T i)], snap (T i)⟩
          rw [if_neg stop]
          refine ⟨snap (T i) :: cs, last, ?_, ?_, ?_⟩
          · refine Eq.trans run ?_
            simp
          · exact List.forall_mem_cons.mpr ⟨inside i List.mem_cons_self, bounded⟩
          · simp only [rangesBetween, if_pos past, ranges]

/-- A target whose snap fails is reached, and fails the loop, when no target before it
is snapped up to it. -/
theorem forIn_breakStep_fails {pre post : List ι} (before : ∀ j ∈ pre, ∃ u, target j = .ok u ∧
      ∀ c, snapE u = .ok c → u ≤ c ∧ c < t)
    (here : target i = .ok t) (failed : snapE t = .error e) (inside : t ≤ hi) (st : WalkState α)
    (ahead : st.lastBoundary < t) :
    ∃ e, forIn (pre ++ i :: post) st (breakStep target snapE hi) = .error e := by
  induction pre generalizing st with
  | nil =>
      rw [List.nil_append, List.forIn_cons, breakStep_no_snap here ahead failed]
      exact ⟨e, rfl⟩
  | cons j pre ih =>
      obtain ⟨u, target_j, snaps⟩ := before j List.mem_cons_self
      have rest := ih fun j mem => before j (List.mem_cons_of_mem _ mem)
      rw [List.cons_append, List.forIn_cons]
      by_cases skip : u ≤ st.lastBoundary
      · rw [breakStep_skip target_j skip]
        exact rest st ahead
      · have aheadU := not_le.mp skip
        cases snapped : snapE u with
        | error e' =>
            rw [breakStep_no_snap target_j aheadU snapped]
            exact ⟨e', rfl⟩
        | ok c =>
            obtain ⟨le, lt⟩ := snaps c snapped
            rw [breakStep_snap target_j aheadU snapped le, if_neg (lt.trans_le inside).ne]
            exact rest _ lt

/-- The loop over targets that do not fail ends there if the walk reaches `hi`, and
goes on with what comes after them if it does not. -/
theorem forIn_breakStep_append {rest : List ι} (targets : ∀ i ∈ is, target i = .ok (T i))
    (snaps : ∀ i ∈ is, snapE (T i) = .ok (snap (T i))) (forward : ∀ i ∈ is, T i ≤ snap (T i))
    (st : WalkState α) :
    (hi ∈ walk snap (is.map T) st.lastBoundary →
      ∃ st', forIn (is ++ rest) st (breakStep target snapE hi) = .ok st') ∧
    (hi ∉ walk snap (is.map T) st.lastBoundary → ∃ st',
      forIn (is ++ rest) st (breakStep target snapE hi) =
        forIn rest st' (breakStep target snapE hi)) := by
  induction is generalizing st with
  | nil => exact ⟨fun mem => by simp at mem, fun _ => ⟨st, rfl⟩⟩
  | cons i is ih =>
      have later := ih (fun j mem => targets j (List.mem_cons_of_mem _ mem))
        (fun j mem => snaps j (List.mem_cons_of_mem _ mem))
        fun j mem => forward j (List.mem_cons_of_mem _ mem)
      have here := targets i List.mem_cons_self
      rw [List.map_cons, List.cons_append, List.forIn_cons]
      by_cases skip : T i ≤ st.lastBoundary
      · rw [breakStep_skip here skip, walk_cons_skip skip]
        exact later st
      · have ahead := not_le.mp skip
        rw [breakStep_snap here ahead (snaps i List.mem_cons_self) (forward i List.mem_cons_self),
          walk_cons_cut ahead]
        by_cases stop : snap (T i) = hi
        · rw [if_pos stop]
          exact ⟨fun _ => ⟨st, rfl⟩, fun notMem => absurd (stop ▸ List.mem_cons_self) notMem⟩
        · rw [if_neg stop, List.mem_cons, or_iff_right (Ne.symm stop)]
          exact later ⟨st.boundaries ++ [snap (T i)], snap (T i)⟩

end Break

end TargetWalk
