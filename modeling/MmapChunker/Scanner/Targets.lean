import MmapChunker.Scanner.Integrity

/-!
Where the cuts of a partitioning lie (`src/scanner.rs`).

The planners treat their targets one after the other: a target behind the last cut is
skipped, and the first search without a hit ends the loop.

* `interior_ends_closed_form`: for a single byte this order does not matter. The cuts
  are what every target gives on its own.
* `deviation_bounded_iff`: a cut is at most one record away from its target, unless the
  target lies inside the delimiter that ends a record. A search from there misses that
  delimiter and runs through the whole next record.
-/

namespace Scanner

open Machine Occurrence TargetWalk Tiling Framing

/-! ### The closed form of single-byte partitioning -/

/-- The least position at or after `t` that follows the delimiter, else the end. -/
def closedCut (delimiter : UInt8) (xs : List UInt8) (t : Nat) : Nat :=
  (findFrom (fun p => 1 ≤ p ∧ xs[p - 1]? = some delimiter) t (xs.length + 1 - t)).getD xs.length

section Closed

variable {xs : List UInt8} {delimiter : UInt8} {parts : Nat}

theorem endsAt_byte_iff {p : Nat} :
    EndsAt [delimiter] xs p ↔ 1 ≤ p ∧ xs[p - 1]? = some delimiter := by
  rw [EndsAt, occursAt_singleton]
  exact Iff.rfl

theorem closedCut_eq (delimiter : UInt8) (xs : List UInt8) (t : Nat) :
    closedCut delimiter xs t = snapEnd [delimiter] xs t := by
  have found : FirstAt (EndsAt [delimiter] xs) t
      (findFrom (fun p => 1 ≤ p ∧ xs[p - 1]? = some delimiter) t (xs.length + 1 - t)) := by
    have window := findFrom_spec (fun p => 1 ≤ p ∧ xs[p - 1]? = some delimiter) t
      (xs.length + 1 - t)
    refine FirstAt.congr (fun q _ => endsAt_byte_iff.symm) (window.firstAt fun q beyond here => ?_)
    obtain ⟨inside, -⟩ := List.getElem?_eq_some_iff.mp here.2
    omega
  rw [closedCut, found.unique (snapEnd?_singleton delimiter xs t), snapEnd]

/-- The cuts of a plan are its range ends before the end of the file. -/
theorem end_mem_partitionPlan_iff {d : List UInt8} (ne : d ≠ []) {e : Nat}
    (interior : e ≠ xs.length) :
    e ∈ (partitionPlan xs parts d).map Prod.snd ↔
      e ∈ walk (snapEnd d xs) (evenTargets xs.length (min parts xs.length)) 0 := by
  have sorted : (0 :: walk (snapEnd d xs) (evenTargets xs.length (min parts xs.length))
      0).Pairwise (· < ·) := walk_sorted fun t mem => le_snapEnd ne (le_length_of_mem_targets mem)
  constructor
  · intro mem
    obtain ⟨⟨s, e'⟩, memPlan, rfl⟩ := List.mem_map.mp mem
    exact (end_mem_of_mem_rangesBetween memPlan).resolve_right interior
  · intro mem
    obtain ⟨s, memPlan⟩ := exists_range_of_mem_cuts sorted mem
    exact List.mem_map.mpr ⟨(s, e), memPlan, rfl⟩

theorem mem_cuts_iff {c : Nat} :
    c ∈ walk (snapEnd [delimiter] xs) (evenTargets xs.length (min parts xs.length)) 0 ↔
      ∃ t ∈ evenTargets xs.length (min parts xs.length), snapEnd [delimiter] xs t = c := by
  apply mem_walk_iff (sorted_evenTargets _ _)
  · intro t _ t' _ le le'
    exact snapEnd_singleton_absorbs le le'
  · intro t mem
    exact le_snapEnd (List.cons_ne_nil _ _) (le_length_of_mem_targets mem)
  · intro t mem
    exact pos_of_mem_evenTargets (Nat.min_le_right _ _) mem

end Closed

/-- **The closed form.** The range ends of single-byte partitioning that lie before the
end of the file are the cuts that its targets have on their own. -/
theorem interior_ends_closed_form (data : Slice) (delimiter : UInt8) (parts : Nat)
    (pos : 1 ≤ parts) :
    ∃ ranges, findPartitionBoundaries data parts delimiter = some ranges ∧
      ∀ e, (e ∈ ranges.map Prod.snd ∧ e ≠ data.len) ↔
        (∃ i, 1 ≤ i ∧ i < min parts data.len ∧
          closedCut delimiter data.bytes (data.len * i / min parts data.len) = e) ∧
        e ≠ data.len := by
  refine ⟨_, findPartitionBoundaries_eq data pos delimiter, fun e => ?_⟩
  apply and_congr_left
  intro interior
  rw [end_mem_partitionPlan_iff (List.cons_ne_nil _ _) interior, mem_cuts_iff]
  constructor
  · rintro ⟨t, mem, eq⟩
    obtain ⟨i, low, high, rfl⟩ := mem_evenTargets.mp mem
    exact ⟨i, low, high, (closedCut_eq _ _ _).trans eq⟩
  · rintro ⟨i, low, high, eq⟩
    exact ⟨_, mem_evenTargets.mpr ⟨i, low, high, rfl⟩, (closedCut_eq _ _ _).symm.trans eq⟩

theorem interior_ends_closed_form_twoRecords :
    1 ≤ 2 ∧ closedCut 10 twoRecords.bytes 2 = 2 ∧
      ∃ ranges, findPartitionBoundaries twoRecords 2 10 = some ranges ∧
        2 ∈ ranges.map Prod.snd := by
  obtain ⟨ranges, eq, ends⟩ := interior_ends_closed_form twoRecords 10 2 (by decide)
  have here := (ends 2).mpr ⟨⟨1, by decide, by decide, by decide⟩, by decide⟩
  exact ⟨by decide, by decide, ranges, eq, here.1⟩

/-! ### How far a cut is from its target -/

/-- The cut of every range that ends before the file does is not before its target,
the first one past the start of the range, and at most the longest record behind it. -/
def DeviationBounded (delimiter xs : List UInt8) (parts : Nat) (ranges : List (Nat × Nat)) :
    Prop :=
  ∀ r ∈ ranges, r.2 < xs.length → ∃ t,
    (evenTargets xs.length (min parts xs.length)).find? (fun t => decide (r.1 < t)) = some t ∧
      t ≤ r.2 ∧ r.2 - t ≤ longestRecord delimiter xs

/-- The target lies inside the delimiter that ends a record and follows none itself; no
delimiter ends within a record's length of it, and one does later, before the end of
the file. -/
def Overshoots (delimiter xs : List UInt8) (t : Nat) : Prop :=
  Straddles delimiter xs t ∧ ¬ EndsAt delimiter xs t ∧
    (∀ p, t ≤ p → p + delimiter.length ≤ t + longestRecord delimiter xs →
      ¬ OccursAt delimiter xs p) ∧
    ∃ p, t ≤ p ∧ OccursAt delimiter xs p ∧ p + delimiter.length < xs.length

section Deviation

variable {delimiter xs : List UInt8} {parts t : Nat}

/-- What a search from a target that overshoots leads to. -/
theorem overshoots_iff (ne : delimiter ≠ []) : Overshoots delimiter xs t ↔
    Straddles delimiter xs t ∧ snapEnd delimiter xs t < xs.length ∧
      t + longestRecord delimiter xs < snapEnd delimiter xs t := by
  apply and_congr_right
  intro _
  by_cases ends : EndsAt delimiter xs t
  · rw [snapEnd, snapEnd?_of_endsAt ends, Option.getD_some]
    constructor
    · intro overshoots
      exact absurd ends overshoots.1
    · rintro ⟨-, far⟩
      omega
  · rw [snapEnd, snapEnd?_of_not_endsAt ends]
    have first := nextOcc_spec ne xs t
    cases found : nextOcc delimiter xs t with
    | none =>
        rw [found] at first
        constructor
        · rintro ⟨-, -, p, after, occurs, -⟩
          exact absurd occurs (first p after)
        · rintro ⟨interior, -⟩
          exact absurd interior (Nat.lt_irrefl _)
    | some g =>
        rw [found] at first
        obtain ⟨after, occurs, least⟩ := first
        rw [Option.map_some, Option.getD_some]
        constructor
        · rintro ⟨-, clear, p, afterP, occursP, interior⟩
          have le : g ≤ p := not_lt.mp fun lt => least p afterP lt occursP
          have far : ¬ g + delimiter.length ≤ t + longestRecord delimiter xs := fun near =>
            clear g after near occurs
          exact ⟨by omega, by omega⟩
        · rintro ⟨interior, far⟩
          refine ⟨ends, fun p afterP near => ?_, g, after, occurs, interior⟩
          exact least p afterP (by omega)

/-- A search from outside the delimiters that end records stays in the record. -/
theorem snapEnd_le_longestRecord (ne : delimiter ≠ []) (outside : ¬ Straddles delimiter xs t)
    (interior : snapEnd delimiter xs t < xs.length) :
    snapEnd delimiter xs t ≤ t + longestRecord delimiter xs := by
  by_cases ends : EndsAt delimiter xs t
  · rw [snapEnd, snapEnd?_of_endsAt ends]
    exact Nat.le_add_right t _
  · rw [snapEnd, snapEnd?_of_not_endsAt ends] at interior ⊢
    cases found : nextOcc delimiter xs t with
    | none =>
        rw [found] at interior
        exact absurd interior (Nat.lt_irrefl _)
    | some g => exact nextOcc_le_longestRecord ne found outside

/-- A plan keeps to the bound if and only if no target that it cuts for overshoots. -/
theorem deviationBounded_partitionPlan_iff (ne : delimiter ≠ []) :
    DeviationBounded delimiter xs parts (partitionPlan xs parts delimiter) ↔
      ∀ t ∈ actedTargets xs parts delimiter, ¬ Overshoots delimiter xs t := by
  have forward : ∀ t ∈ evenTargets xs.length (min parts xs.length), t ≤ snapEnd delimiter xs t :=
    fun _ mem => le_snapEnd ne (le_length_of_mem_targets mem)
  have cuts : DeviationBounded delimiter xs parts (partitionPlan xs parts delimiter) ↔
      ∀ t ∈ actedTargets xs parts delimiter, snapEnd delimiter xs t < xs.length →
        t ≤ snapEnd delimiter xs t ∧ snapEnd delimiter xs t - t ≤ longestRecord delimiter xs :=
    forall_plan_target_iff (P := fun t c => t ≤ c ∧ c - t ≤ longestRecord delimiter xs) forward
  refine cuts.trans (forall₂_congr fun t mem => ?_)
  rw [overshoots_iff ne]
  constructor
  · rintro bounded ⟨-, interior, far⟩
    have near := (bounded interior).2
    omega
  · intro fine interior
    refine ⟨forward t (acted_subset mem), ?_⟩
    by_cases inside : Straddles delimiter xs t
    · have near : ¬ t + longestRecord delimiter xs < snapEnd delimiter xs t := fun far =>
        fine ⟨inside, interior, far⟩
      omega
    · have near := snapEnd_le_longestRecord ne inside interior
      omega

/-- No target lies inside a delimiter of one byte. -/
theorem not_overshoots_singleton (byte : UInt8) : ¬ Overshoots [byte] xs t := by
  rintro ⟨⟨e, _, low, high⟩, _⟩
  rw [List.length_singleton] at high
  omega

end Deviation

/-- **Exactly when every cut is within a record of its target.** Always for a single
byte; for a pattern if and only if no target past the cut before it overshoots. -/
theorem deviation_bounded_iff (data : Slice) (parts : Nat) (pos : 1 ≤ parts) :
    (∀ delimiter : UInt8, ∃ ranges, findPartitionBoundaries data parts delimiter = some ranges ∧
      DeviationBounded [delimiter] data.bytes parts ranges) ∧
    ∀ delimiter : List UInt8, delimiter ≠ [] →
      ∃ ranges, findPartitionBoundariesPattern data parts delimiter = some ranges ∧
        (DeviationBounded delimiter data.bytes parts ranges ↔
          ∀ t ∈ actedTargets data.bytes parts delimiter, ¬ Overshoots delimiter data.bytes t) := by
  constructor
  · intro delimiter
    refine ⟨_, findPartitionBoundaries_eq data pos delimiter, ?_⟩
    apply (deviationBounded_partitionPlan_iff (List.cons_ne_nil _ _)).mpr
    intro t _
    exact not_overshoots_singleton delimiter
  · intro delimiter ne
    exact ⟨_, findPartitionBoundariesPattern_eq data pos ne, deviationBounded_partitionPlan_iff ne⟩

/-- Three empty records, one with a byte in it, and a rest. -/
def shortRecords : Slice := ⟨0, [13, 10, 13, 10, 13, 10, 120, 13, 10, 121], by decide⟩

theorem deviation_bounded_iff_shortRecords :
    1 ≤ 3 ∧ [(13 : UInt8), 10] ≠ [] ∧
      DeviationBounded [13, 10] shortRecords.bytes 3 [(0, 6), (6, 10)] := by
  have run : findPartitionBoundariesPattern shortRecords 3 [13, 10] =
      some [(0, 6), (6, 10)] := by decide +kernel
  obtain ⟨ranges, eq, bounded⟩ :=
    (deviation_bounded_iff shortRecords 3 (by decide)).2 [13, 10] (by decide)
  rw [run, Option.some.injEq] at eq
  have acted : actedTargets shortRecords.bytes 3 [13, 10] = [3] := by decide +kernel
  refine ⟨by decide, by decide, eq ▸ bounded.mpr fun t mem overshoots => ?_⟩
  rw [acted, List.mem_singleton] at mem
  subst mem
  exact overshoots.2.2.1 4 (by decide) (by decide +kernel) (by decide)

/-- In two parts the target is the second byte of the third line end. The cut follows
the next one, four bytes on; no record has more than three. -/
theorem deviation_exceeds_shortRecords :
    ∃ ranges, findPartitionBoundariesPattern shortRecords 2 [13, 10] = some ranges ∧
      ¬ DeviationBounded [13, 10] shortRecords.bytes 2 ranges := by
  refine ⟨[(0, 9), (9, 10)], by decide +kernel, fun bounded => ?_⟩
  obtain ⟨t, first, _, near⟩ := bounded (0, 9) List.mem_cons_self (by decide)
  have target : (evenTargets shortRecords.bytes.length (min 2 shortRecords.bytes.length)).find?
      (fun t => decide (0 < t)) = some 5 := by decide
  rw [target] at first
  cases first
  exact absurd near (by decide +kernel)

end Scanner
