import Mathlib.Data.List.Basic

/-!
Bounded `for` loops whose body is effect-free under an invariant.

`runSteps` is the pure meaning of a `for` loop with `continue` and `break`:
`ForInStep.yield` goes on with the next index, `ForInStep.done` leaves the loop.
`forIn_eq_runSteps` says when a monadic loop has that meaning: under an
invariant of the remaining indices and the loop state, the body performs no
effect and equals a pure step.
-/

namespace Loop

variable {ι β : Type*}

/-- The pure meaning of a `for` loop over `is` with body `step`. -/
def runSteps (step : ι → β → ForInStep β) : List ι → β → β
  | [], b => b
  | i :: is, b =>
      match step i b with
      | .done b' => b'
      | .yield b' => runSteps step is b'

/-- The indices of `for i in 1..n`. -/
theorem lt_of_mem_indices {n i : Nat} (mem : i ∈ List.range' 1 (n - 1)) : i < n := by
  have bounds := List.mem_range'_1.mp mem
  omega

@[simp] theorem runSteps_nil (step : ι → β → ForInStep β) (b : β) : runSteps step [] b = b := rfl

theorem runSteps_cons_yield {step : ι → β → ForInStep β} {i : ι} {is : List ι} {b b' : β}
    (h : step i b = .yield b') : runSteps step (i :: is) b = runSteps step is b' := by
  simp only [runSteps, h]

theorem runSteps_cons_done {step : ι → β → ForInStep β} {i : ι} {is : List ι} {b b' : β}
    (h : step i b = .done b') : runSteps step (i :: is) b = b' := by
  simp only [runSteps, h]

/-- A loop over indices that reads only a value computed from each index is a loop
over those values. -/
theorem runSteps_map {κ : Type*} (f : ι → κ) (step : κ → β → ForInStep β) (is : List ι) (b : β) :
    runSteps (fun i => step (f i)) is b = runSteps step (is.map f) b := by
  induction is generalizing b with
  | nil => rfl
  | cons i is ih =>
      simp only [runSteps, List.map_cons]
      cases step (f i) b with
      | done b' => rfl
      | yield b' => exact ih b'

/-- A loop whose body is pure under an invariant is pure. The invariant speaks
about the indices that are still to come, so a bound on an index is available
where the body needs it. -/
theorem forIn_eq_runSteps {m : Type _ → Type*} [Monad m] [LawfulMonad m]
    (body : ι → β → m (ForInStep β)) (step : ι → β → ForInStep β) (inv : List ι → β → Prop)
    (pureBody : ∀ i is b, inv (i :: is) b → body i b = pure (step i b))
    (preserved : ∀ i is b b', inv (i :: is) b → step i b = .yield b' → inv is b')
    {is : List ι} {b : β} (start : inv is b) :
    forIn is b body = pure (runSteps step is b) := by
  induction is generalizing b with
  | nil => rfl
  | cons i is ih =>
      rw [List.forIn_cons, pureBody i is b start, pure_bind]
      cases h : step i b with
      | done b' => rw [runSteps_cons_done h]
      | yield b' =>
          rw [runSteps_cons_yield h]
          exact ih (preserved i is b b' start h)

end Loop
