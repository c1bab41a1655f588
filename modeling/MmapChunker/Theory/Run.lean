import Mathlib.Data.List.Induction

/-!
Runs of a component that is called again and again.

A component is a step function: an input and a state give an outcome and the next
state, or nothing when the call panics. A `Run` is any sequence of calls, each made in
the state the one before it left; it records every call.

* `exists_run` is the induction rule. If an invariant of the calls made so far and the
  state is kept by every call, and no call panics under it, then every sequence of
  inputs runs to its end and ends in the invariant. `every_run` is the same for a run
  that is given.
* `Each` is for properties of a call that depend on the calls before it.
-/

namespace Calls

variable {ι σ ρ : Type}

/-- One call: the state it was made in, its input, its outcome, and the state it left. -/
structure Call (ι σ ρ : Type) where
  before : σ
  input : ι
  outcome : ρ
  after : σ

/-- The calls of a run from `start`, in order, and the state after them. -/
inductive Run (step : ι → σ → Option (ρ × σ)) (start : σ) : List (Call ι σ ρ) → σ → Prop where
  | start : Run step start [] start
  | call {calls : List (Call ι σ ρ)} {before after : σ} {input : ι} {outcome : ρ} :
      Run step start calls before → step input before = some (outcome, after) →
      Run step start (calls ++ [⟨before, input, outcome, after⟩]) after

/-- The calls that a list of inputs makes, and the state after them; `none` if one panics. -/
def execute (step : ι → σ → Option (ρ × σ)) : List ι → σ → Option (List (Call ι σ ρ) × σ)
  | [], s => some ([], s)
  | input :: inputs, s =>
      match step input s with
      | none => none
      | some (outcome, after) =>
          (execute step inputs after).map fun (calls, last) =>
            (⟨s, input, outcome, after⟩ :: calls, last)

/-- What is executed is a run. -/
theorem Run.execute {step : ι → σ → Option (ρ × σ)} {start s last : σ} {inputs : List ι}
    {earlier calls : List (Call ι σ ρ)} (run : Run step start earlier s)
    (executed : execute step inputs s = some (calls, last)) :
    Run step start (earlier ++ calls) last := by
  induction inputs generalizing earlier calls s with
  | nil =>
      cases executed
      rwa [List.append_nil]
  | cons input inputs ih =>
      rw [Calls.execute] at executed
      cases stepped : step input s with
      | none =>
          rw [stepped] at executed
          cases executed
      | some answered =>
          obtain ⟨outcome, after⟩ := answered
          rw [stepped] at executed
          obtain ⟨⟨rest, last'⟩, eq, ⟨⟩⟩ := Option.map_eq_some_iff.mp executed
          rw [List.append_cons]
          exact ih (run.call stepped) eq

/-- If every call keeps an invariant without a panic, every sequence of inputs runs,
and the invariant holds after it. -/
theorem exists_run (step : ι → σ → Option (ρ × σ)) (start : σ)
    (inv : List (Call ι σ ρ) → σ → Prop) (atStart : inv [] start)
    (kept : ∀ calls input before, inv calls before → ∃ outcome after,
      step input before = some (outcome, after) ∧
        inv (calls ++ [⟨before, input, outcome, after⟩]) after)
    (inputs : List ι) :
    ∃ calls s, Run step start calls s ∧ calls.map Call.input = inputs ∧ inv calls s := by
  induction inputs using List.reverseRecOn with
  | nil => exact ⟨[], start, Run.start, rfl, atStart⟩
  | append_singleton inputs input ih =>
      obtain ⟨calls, s, run, same, holds⟩ := ih
      obtain ⟨outcome, after, stepped, holds'⟩ := kept calls input s holds
      refine ⟨_, after, run.call stepped, ?_, holds'⟩
      rw [List.map_append, same]
      rfl

/-- The invariant then holds after every run. -/
theorem every_run (step : ι → σ → Option (ρ × σ)) (start : σ)
    (inv : List (Call ι σ ρ) → σ → Prop) (atStart : inv [] start)
    (kept : ∀ calls input before, inv calls before → ∃ outcome after,
      step input before = some (outcome, after) ∧
        inv (calls ++ [⟨before, input, outcome, after⟩]) after)
    {calls : List (Call ι σ ρ)} {s : σ} (run : Run step start calls s) : inv calls s := by
  induction run with
  | start => exact atStart
  | @call calls before after input outcome _ stepped ih =>
      obtain ⟨outcome', after', stepped', holds⟩ := kept calls input before ih
      rw [stepped, Option.some.injEq, Prod.mk.injEq] at stepped'
      obtain ⟨rfl, rfl⟩ := stepped'
      exact holds

/-- Every call has the property, given the calls before it. -/
def Each (property : List (Call ι σ ρ) → Call ι σ ρ → Prop) (calls : List (Call ι σ ρ)) : Prop :=
  ∀ earlier call later, calls = earlier ++ call :: later → property earlier call

theorem each_nil {property : List (Call ι σ ρ) → Call ι σ ρ → Prop} : Each property [] :=
  fun _ _ _ split => (List.append_ne_nil_of_right_ne_nil _ (List.cons_ne_nil _ _) split.symm).elim

theorem Each.snoc {property : List (Call ι σ ρ) → Call ι σ ρ → Prop} {calls : List (Call ι σ ρ)}
    {call : Call ι σ ρ} (each : Each property calls) (last : property calls call) :
    Each property (calls ++ [call]) := by
  intro earlier call' later split
  cases later using List.reverseRecOn with
  | nil =>
      obtain ⟨rfl, same⟩ := List.append_inj' split rfl
      cases same
      exact last
  | append_singleton later call'' =>
      rw [← List.cons_append, ← List.append_assoc] at split
      exact each earlier call' later (List.append_inj' split rfl).1

end Calls
