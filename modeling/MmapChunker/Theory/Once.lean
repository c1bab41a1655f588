import Mathlib.Data.List.Basic

/-!
A cell that is filled once.

Each attempt either has a value or fails. The first value is kept, and from then on it is what
every attempt gets, whatever that attempt would have come to (`run_none`). An attempt that
fails leaves the cell empty, so the next one starts again.
-/

namespace Once

variable {ε α : Type}

/-- An attempt, and the cell after it. -/
def fill (attempt : Except ε α) : Option α → Except ε α × Option α
  | some a => (.ok a, some a)
  | none => (attempt, attempt.toOption)

/-- What each attempt gets, one after the other, and the cell after them. -/
def run : Option α → List (Except ε α) → List (Except ε α) × Option α
  | cell, [] => ([], cell)
  | cell, attempt :: attempts =>
      let (outcome, cell) := fill attempt cell
      let (outcomes, cell) := run cell attempts
      (outcome :: outcomes, cell)

theorem run_cons (cell : Option α) (attempt : Except ε α) (attempts : List (Except ε α)) :
    run cell (attempt :: attempts) =
      ((fill attempt cell).1 :: (run (fill attempt cell).2 attempts).1,
        (run (fill attempt cell).2 attempts).2) := rfl

theorem run_some (a : α) (attempts : List (Except ε α)) :
    run (some a) attempts = (List.replicate attempts.length (.ok a), some a) := by
  induction attempts with
  | nil => rfl
  | cons attempt attempts ih =>
      rw [run_cons, fill, ih]
      rfl

/-- **Filled once.** Either every attempt fails, or the first value is what all later attempts
get. -/
theorem run_none (attempts : List (Except ε α)) :
    ((∀ x ∈ attempts, ∃ e, x = .error e) ∧ run none attempts = (attempts, none)) ∨
    ∃ before a after, attempts = before ++ .ok a :: after ∧
      (∀ x ∈ before, ∃ e, x = .error e) ∧
      run none attempts = (before ++ List.replicate (after.length + 1) (.ok a), some a) := by
  induction attempts with
  | nil => exact .inl ⟨by simp, rfl⟩
  | cons attempt attempts ih =>
      cases attempt with
      | ok a =>
          refine .inr ⟨[], a, attempts, rfl, by simp, ?_⟩
          rw [run_cons]
          change (_ :: (run (some a) attempts).1, (run (some a) attempts).2) = _
          rw [run_some]
          rfl
      | error e =>
          have next : run none (.error e :: attempts) =
              (.error e :: (run none attempts).1, (run none attempts).2) := rfl
          rcases ih with ⟨failed, eq⟩ | ⟨before, a, after, split, failed, eq⟩
          · refine .inl ⟨List.forall_mem_cons.mpr ⟨⟨e, rfl⟩, failed⟩, ?_⟩
            rw [next, eq]
          · refine .inr ⟨.error e :: before, a, after, congrArg _ split,
              List.forall_mem_cons.mpr ⟨⟨e, rfl⟩, failed⟩, ?_⟩
            rw [next, eq]
            rfl

end Once
