import Mathlib.Data.List.Basic

/-!
Iterators that may panic.

An iterator is a `next` function: a state gives an item, or `none` at the end, and the
state after the call; the outer `none` is a panic. `afterNext` is the state after a number
of calls, `Remaining` the items that are still to come.

An iterator whose `next` acts on a part of its state is the image of the iterator on that
part (`Mirrors`), with the same items.
-/

namespace Iterating

variable {σ τ ι : Type}

/-- The state after `n` calls of `next`. -/
def afterNext (next : σ → Option (Option ι × σ)) : Nat → σ → Option σ
  | 0, s => some s
  | n + 1, s => do
      let (_, s') ← next s
      afterNext next n s'

/-- The items that `next` yields from `s` on, up to the first `none`. -/
inductive Remaining (next : σ → Option (Option ι × σ)) : σ → List ι → Prop where
  | done {s s' : σ} : next s = some (none, s') → Remaining next s []
  | item {s s' : σ} {x : ι} {xs : List ι} : next s = some (some x, s') →
      Remaining next s' xs → Remaining next s (x :: xs)

variable {next : σ → Option (Option ι × σ)} {step : τ → Option (Option ι × τ)} {f : τ → σ}

/-- `next` acts on states of the form `f t` as `step` does on `t`. -/
def Mirrors (next : σ → Option (Option ι × σ)) (step : τ → Option (Option ι × τ))
    (f : τ → σ) : Prop :=
  ∀ t, next (f t) = (step t).map fun p => (p.1, f p.2)

theorem Mirrors.afterNext (mirrors : Mirrors next step f) (n : Nat) (t : τ) :
    afterNext next n (f t) = (afterNext step n t).map f := by
  induction n generalizing t with
  | zero => rfl
  | succ n ih =>
      rw [Iterating.afterNext, Iterating.afterNext, mirrors t]
      cases step t with
      | none => rfl
      | some p => exact ih p.2

theorem Mirrors.remaining (mirrors : Mirrors next step f) {t : τ} {xs : List ι}
    (remaining : Remaining step t xs) : Remaining next (f t) xs := by
  induction remaining with
  | done ended =>
      apply Remaining.done
      rw [mirrors, ended]
      rfl
  | item yielded _ ih =>
      refine Remaining.item ?_ ih
      rw [mirrors, yielded]
      rfl

end Iterating
