import Mathlib.Data.List.Basic
import Mathlib.Algebra.Group.Defs

/-!
What a generator has yielded, and the error that ended it, if one did.

One generator after the other is `x * y`, which stops at the first error: a monoid.
`collect f` goes through inputs that may each fail, and turns `++` into `*`
(`collect_append`), so a list that is read in parts is read like the whole
(`prod_map_collect`).

`window skip limit` is what a consumer has that leaves out the first items and stops when
there is one more than its limit. It need not come to the error then.
-/

/-- The items that were yielded, and the error that ended them. -/
structure Yielded (ε α : Type) where
  items : List α
  error : Option ε
  deriving Repr, DecidableEq

namespace Yielded

variable {ε α ι : Type}

/-- One after the other, up to the first error. -/
def andThen (x y : Yielded ε α) : Yielded ε α :=
  match x.error with
  | none => ⟨x.items ++ y.items, y.error⟩
  | some e => ⟨x.items, some e⟩

theorem andThen_of_error {x : Yielded ε α} {e : ε} (failed : x.error = some e)
    (y : Yielded ε α) : x.andThen y = x := by
  obtain ⟨items, error⟩ := x
  cases failed
  rfl

theorem andThen_of_ok {x : Yielded ε α} (ok : x.error = none) (y : Yielded ε α) :
    x.andThen y = ⟨x.items ++ y.items, y.error⟩ := by
  rw [andThen, ok]

theorem andThen_nil (x : Yielded ε α) : x.andThen ⟨[], none⟩ = x := by
  cases failed : x.error with
  | some e => exact andThen_of_error failed _
  | none =>
      rw [andThen_of_ok failed]
      dsimp only
      rw [List.append_nil, ← failed]

theorem andThen_assoc (x y z : Yielded ε α) :
    (x.andThen y).andThen z = x.andThen (y.andThen z) := by
  cases failed : x.error with
  | some e => rw [andThen_of_error failed y, andThen_of_error failed, andThen_of_error failed]
  | none =>
      rw [andThen_of_ok failed y, andThen_of_ok failed]
      cases failedNext : y.error with
      | some e =>
          rw [andThen_of_error failedNext, failedNext]
          rfl
      | none =>
          rw [andThen_of_ok failedNext]
          dsimp only
          rw [← List.append_assoc]
          rfl

instance : Monoid (Yielded ε α) where
  mul := andThen
  one := ⟨[], none⟩
  one_mul _ := rfl
  mul_one := andThen_nil
  mul_assoc := andThen_assoc

theorem mul_eq (x y : Yielded ε α) : x * y = x.andThen y := rfl

theorem one_eq : (1 : Yielded ε α) = ⟨[], none⟩ := rfl

/-- Without an error, what is yielded is all that is yielded. -/
theorem prod_of_ok {xs : List (Yielded ε α)} (ok : ∀ x ∈ xs, x.error = none) :
    xs.prod = ⟨xs.flatMap items, none⟩ := by
  induction xs with
  | nil => rfl
  | cons x xs ih =>
      obtain ⟨first, rest⟩ := List.forall_mem_cons.mp ok
      rw [List.prod_cons, ih rest, mul_eq, andThen_of_ok first, List.flatMap_cons]

/-- The whole ends without an error exactly if each part does. -/
theorem prod_error_eq_none {xs : List (Yielded ε α)} :
    xs.prod.error = none ↔ ∀ x ∈ xs, x.error = none := by
  induction xs with
  | nil => simp [one_eq]
  | cons x xs ih =>
      rw [List.prod_cons, mul_eq, List.forall_mem_cons, ← ih]
      cases failed : x.error with
      | some e =>
          rw [andThen_of_error failed, failed]
          simp
      | none =>
          rw [andThen_of_ok failed]
          simp

/-! ### Inputs that may fail -/

/-- The items of each input, up to the first that fails. -/
def collect (f : ι → Except ε (List α)) : List ι → Yielded ε α
  | [] => 1
  | i :: is =>
      match f i with
      | .ok items => ⟨items, none⟩ * collect f is
      | .error e => ⟨[], some e⟩

theorem collect_cons_ok {f : ι → Except ε (List α)} {i : ι} {items : List α}
    (ok : f i = .ok items) (is : List ι) : collect f (i :: is) = ⟨items, none⟩ * collect f is := by
  rw [collect, ok]

theorem collect_cons_error {f : ι → Except ε (List α)} {i : ι} {e : ε} (failed : f i = .error e)
    (is : List ι) : collect f (i :: is) = ⟨[], some e⟩ := by
  rw [collect, failed]

theorem collect_append (f : ι → Except ε (List α)) (is js : List ι) :
    collect f (is ++ js) = collect f is * collect f js := by
  induction is with
  | nil => exact (one_mul _).symm
  | cons i is ih =>
      rw [List.cons_append]
      cases outcome : f i with
      | error e =>
          rw [collect_cons_error outcome, collect_cons_error outcome]
          rfl
      | ok items => rw [collect_cons_ok outcome, collect_cons_ok outcome, ih, mul_assoc]

/-- A list that is read in parts is read like the whole. -/
theorem prod_map_collect (f : ι → Except ε (List α)) (parts : List (List ι)) :
    (parts.map (collect f)).prod = collect f parts.flatten := by
  induction parts with
  | nil => rfl
  | cons part parts ih => rw [List.map_cons, List.prod_cons, ih, List.flatten_cons, collect_append]

/-! ### A consumer with a limit -/

/-- The items after the first `skip`, up to the limit; without the error if there is an item
too many. -/
def window (skip : Nat) (limit : Option Nat) (x : Yielded ε α) : Yielded ε α :=
  match limit with
  | none => ⟨x.items.drop skip, x.error⟩
  | some n =>
      ⟨(x.items.drop skip).take n, if n < (x.items.drop skip).length then none else x.error⟩

theorem window_zero_none (x : Yielded ε α) : window 0 none x = x := rfl

section Window

variable {k n : Nat} {limit : Option Nat} {error : Option ε} {a : α} {as : List α}

theorem window_nil : window k limit ⟨([] : List α), error⟩ = ⟨[], error⟩ := by
  cases limit <;> simp [window]

/-- An item that is left out. -/
theorem window_skip : window (k + 1) limit ⟨a :: as, error⟩ = window k limit ⟨as, error⟩ := by
  cases limit <;> rfl

/-- An item too many. -/
theorem window_full : window 0 (some 0) ⟨a :: as, error⟩ = ⟨[], none⟩ := by
  simp [window]

/-- An item that is taken. -/
theorem window_take (free : limit ≠ some 0) :
    window 0 limit ⟨a :: as, error⟩ =
      ⟨[a], none⟩ * window 0 (limit.map fun n => n - 1) ⟨as, error⟩ := by
  cases limit with
  | none => rfl
  | some n =>
      obtain ⟨m, rfl⟩ := Nat.exists_eq_succ_of_ne_zero fun zero => free (congrArg some zero)
      rw [mul_eq, andThen_of_ok rfl]
      simp [window]

end Window

end Yielded
