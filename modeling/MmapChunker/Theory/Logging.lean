import MmapChunker.Theory.Exec

/-!
A log beside a computation.

`logging entry x` runs `x` on one part of the state and adds an entry to the log in the
other part. `Logs p x y` says that `y` is `x` with such a log: it ends as `x` does, with a
value, an error or a panic, and the log it leaves holds only entries in `p`. The rules
follow the syntax.
-/

namespace Exec

variable {σ ε ρ α β : Type}

/-- Run `x` and add `entry` to the log. -/
def logging (entry : ρ) (x : Exec σ ε α) : Exec (σ × List ρ) ε α :=
  ExceptT.mk fun s => (runFrom x s.1).map fun p => (p.1, p.2, s.2 ++ [entry])

/-- `y` is `x` with a log, which stays in `p`. -/
def Logs (p : ρ → Prop) (x : Exec σ ε α) (y : Exec (σ × List ρ) ε α) : Prop :=
  ∀ s log, (∀ entry ∈ log, p entry) → ∃ log', (∀ entry ∈ log', p entry) ∧
    runFrom y (s, log) = (runFrom x s).map fun r => (r.1, r.2, log')

namespace Logs

variable {p : ρ → Prop} {x : Exec σ ε α} {y : Exec (σ × List ρ) ε α}

theorem pure (a : α) : Logs p (pure a : Exec σ ε α) (pure a) :=
  fun _ log clean => ⟨log, clean, rfl⟩

theorem logging {entry : ρ} (inside : p entry) (x : Exec σ ε α) :
    Logs p x (logging entry x) := by
  intro s log clean
  refine ⟨log ++ [entry], ?_, rfl⟩
  intro entry' mem
  rcases List.mem_append.mp mem with mem | mem
  · exact clean entry' mem
  · rwa [List.mem_singleton.mp mem]

theorem bind {f : α → Exec σ ε β} {g : α → Exec (σ × List ρ) ε β} (first : Logs p x y)
    (next : ∀ a, Logs p (f a) (g a)) : Logs p (x >>= f) (y >>= g) := by
  intro s log clean
  obtain ⟨log', clean', run⟩ := first s log clean
  simp only [runFrom_bind, run]
  rcases runFrom x s with _ | ⟨_ | a, s'⟩
  · exact ⟨log', clean', rfl⟩
  · exact ⟨log', clean', rfl⟩
  · exact next a s' log' clean'

/-- The same partial operation first on both sides. -/
theorem bind_orPanic {o : Option α} {f : α → Exec σ ε β} {g : α → Exec (σ × List ρ) ε β}
    (next : ∀ a, o = some a → Logs p (f a) (g a)) :
    Logs p (orPanic o >>= f) (orPanic o >>= g) := by
  cases o with
  | none => exact fun _ log clean => ⟨log, clean, rfl⟩
  | some a =>
      rw [orPanic_some, orPanic_some, pure_bind, pure_bind]
      exact next a rfl

theorem ite {c : Prop} [Decidable c] {x' : Exec σ ε α} {y' : Exec (σ × List ρ) ε α}
    (holds : c → Logs p x y) (fails : ¬c → Logs p x' y') :
    Logs p (if c then x else x') (if c then y else y') := by
  split
  · exact holds ‹c›
  · exact fails ‹¬c›

/-- From an empty log. -/
theorem returns {post : α → σ → Prop} {s : σ} (logs : Logs p x y) (h : Returns x s post) :
    ∃ a s' log, runFrom x s = some (.ok a, s') ∧ runFrom y (s, []) = some (.ok a, s', log) ∧
      post a s' ∧ ∀ entry ∈ log, p entry := by
  obtain ⟨a, s', run, holds⟩ := h
  obtain ⟨log, clean, run'⟩ := logs s [] (by simp)
  rw [run] at run'
  exact ⟨a, s', log, run, run', holds, clean⟩

end Logs

end Exec
