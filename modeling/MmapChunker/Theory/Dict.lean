import Mathlib.Algebra.BigOperators.Group.List.Basic
import Mathlib.Algebra.Order.Group.Nat
import Mathlib.Data.List.Induction
import Mathlib.Data.List.Nodup

/-!
Dictionaries that remember the order of insertion.

A dictionary is a list of pairs with one pair for each key. `update` changes the value of a
key in place, or adds the key at the end. `collect` goes through a list and updates the key
of each element.

* `lookup_collect` says what stands at a key: what the elements with that key leave, in
  their order.
* `sum_collect` adds up the values: whatever is counted, the dictionary counts it as often
  as the list does.
-/

namespace Dict

variable {κ β α : Type} [DecidableEq κ]

/-- The dictionary with the value at `key` changed. -/
def update (key : κ) (f : Option β → β) : List (κ × β) → List (κ × β)
  | [] => [(key, f none)]
  | (k, b) :: rest => if k = key then (k, f (some b)) :: rest else (k, b) :: update key f rest

/-- The keys, in the order in which they were added. -/
def keys (d : List (κ × β)) : List κ := d.map Prod.fst

/-- Update the key of each element, from an empty dictionary. -/
def collect (key : α → κ) (f : α → Option β → β) (xs : List α) : List (κ × β) :=
  xs.foldl (fun d x => update (key x) (f x) d) []

section Update

variable {key k : κ} {f : Option β → β} {d : List (κ × β)}

omit [DecidableEq κ] in
theorem keys_cons (pair : κ × β) : keys (pair :: d) = pair.1 :: keys d := rfl

theorem keys_update : keys (update key f d) = if key ∈ keys d then keys d else keys d ++ [key] := by
  induction d with
  | nil => rfl
  | cons pair d ih =>
      rw [update, keys_cons]
      by_cases eq : pair.1 = key
      · rw [if_pos eq, keys_cons, if_pos (eq ▸ List.mem_cons_self)]
      · have mem : key ∈ pair.1 :: keys d ↔ key ∈ keys d :=
          List.mem_cons.trans (or_iff_right fun eq' => eq eq'.symm)
        rw [if_neg eq, keys_cons, ih]
        by_cases old : key ∈ keys d
        · rw [if_pos old, if_pos (mem.mpr old)]
        · rw [if_neg old, if_neg (mt mem.mp old), List.cons_append]

theorem lookup_cons (pair : κ × β) :
    List.lookup k (pair :: d) = if k = pair.1 then some pair.2 else d.lookup k := by
  rw [List.lookup_cons]
  by_cases eq : k = pair.1
  · rw [if_pos eq, beq_iff_eq.mpr eq]
  · rw [if_neg eq, beq_eq_false_iff_ne.mpr eq]

theorem lookup_update :
    (update key f d).lookup k = if k = key then some (f (d.lookup key)) else d.lookup k := by
  induction d with
  | nil => exact lookup_cons _
  | cons pair d ih =>
      obtain ⟨k', b⟩ := pair
      rw [update]
      by_cases here : k' = key
      · subst here
        rw [if_pos rfl, lookup_cons, lookup_cons, lookup_cons, if_pos rfl]
        split
        · rfl
        · rfl
      · have other : ¬key = k' := fun eq => here eq.symm
        rw [if_neg here, lookup_cons, lookup_cons, lookup_cons, ih, if_neg other]
        by_cases eq : k = k'
        · rw [if_pos eq, if_pos eq, if_neg (eq ▸ here)]
        · rw [if_neg eq, if_neg eq]

theorem nodup_keys_update (nodup : (keys d).Nodup) : (keys (update key f d)).Nodup := by
  rw [keys_update]
  split
  · exact nodup
  · rename_i new
    rw [← List.concat_eq_append]
    exact nodup.concat new

/-- What is counted grows by what the update adds. -/
theorem sum_update {M : Type} [AddCommMonoid M] {μ : β → M} {w : M}
    (adds : ∀ b, μ (f b) = (b.map μ).getD 0 + w) :
    ((update key f d).map fun pair => μ pair.2).sum = (d.map fun pair => μ pair.2).sum + w := by
  induction d with
  | nil => simp [update, adds]
  | cons pair d ih =>
      obtain ⟨k, b⟩ := pair
      rw [update]
      split
      · simp [adds, add_right_comm]
      · rw [List.map_cons, List.map_cons, List.sum_cons, List.sum_cons, ih, add_assoc]

/-- In a dictionary the values are what stands at the keys. -/
theorem map_lookup_keys (nodup : (keys d).Nodup) :
    ((keys d).map fun k => d.lookup k) = d.map fun pair => some pair.2 := by
  induction d with
  | nil => rfl
  | cons pair d ih =>
      obtain ⟨new, nodup⟩ := List.nodup_cons.mp nodup
      rw [keys_cons, List.map_cons, List.map_cons, lookup_cons, if_pos rfl, ← ih nodup]
      congr 1
      apply List.map_congr_left
      intro k mem
      rw [lookup_cons, if_neg]
      rintro rfl
      exact new mem

/-- What is summed over the keys is what is summed over the pairs. -/
theorem sum_lookup_keys {M : Type} [AddCommMonoid M] (nodup : (keys d).Nodup)
    (g : Option β → M) :
    ((keys d).map fun k => g (d.lookup k)).sum = (d.map fun pair => g (some pair.2)).sum := by
  have mapped := congrArg (List.map g) (map_lookup_keys nodup)
  rw [List.map_map, List.map_map] at mapped
  exact congrArg List.sum mapped

end Update

section Collect

variable {key : α → κ} {f : α → Option β → β} {xs : List α}

theorem collect_append_singleton (x : α) :
    collect key f (xs ++ [x]) = update (key x) (f x) (collect key f xs) := by
  rw [collect, List.foldl_append]
  rfl

theorem mem_keys_collect {k : κ} : k ∈ keys (collect key f xs) ↔ ∃ x ∈ xs, key x = k := by
  induction xs using List.reverseRecOn with
  | nil => simp [collect, keys]
  | append_singleton xs x ih =>
      rw [collect_append_singleton, keys_update]
      by_cases old : key x ∈ keys (collect key f xs)
      · rw [if_pos old, ih]
        constructor
        · rintro ⟨y, mem, eq⟩
          exact ⟨y, List.mem_append_left _ mem, eq⟩
        · rintro ⟨y, mem, rfl⟩
          rcases List.mem_append.mp mem with mem | mem
          · exact ⟨y, mem, rfl⟩
          · obtain rfl := List.mem_singleton.mp mem
            exact ih.mp old
      · rw [if_neg old, List.mem_append, ih]
        simp [or_and_right, exists_or, eq_comm]

/-- The keys do not depend on the values. -/
theorem keys_collect {γ : Type} (g : α → Option γ → γ) :
    keys (collect key f xs) = keys (collect key g xs) := by
  induction xs using List.reverseRecOn with
  | nil => rfl
  | append_singleton xs x ih =>
      rw [collect_append_singleton, collect_append_singleton, keys_update, keys_update, ih]

theorem nodup_keys_collect : (keys (collect key f xs)).Nodup := by
  induction xs using List.reverseRecOn with
  | nil => exact List.nodup_nil
  | append_singleton xs x ih =>
      rw [collect_append_singleton]
      exact nodup_keys_update ih

/-- What stands at a key is what the elements with that key leave. -/
theorem lookup_collect (k : κ) :
    (collect key f xs).lookup k =
      (xs.filter fun x => key x = k).foldl (fun b x => some (f x b)) none := by
  induction xs using List.reverseRecOn with
  | nil => rfl
  | append_singleton xs x ih =>
      rw [collect_append_singleton, lookup_update, List.filter_append, List.foldl_append, ← ih]
      by_cases eq : k = key x
      · subst eq
        simp
      · have ne : ¬key x = k := fun eq' => eq eq'.symm
        simp [eq, ne]

/-- What is added up at a key is the sum over the elements with that key. -/
theorem getD_lookup_collect {M : Type} [AddCommMonoid M] (w : α → M) (k : κ) :
    ((collect key (fun x b => b.getD 0 + w x) xs).lookup k).getD 0 =
      ((xs.filter fun x => key x = k).map w).sum := by
  have adds : ∀ (ys : List α) (before : Option M),
      (ys.foldl (fun b x => some (b.getD 0 + w x)) before).getD 0 =
        before.getD 0 + (ys.map w).sum := by
    intro ys
    induction ys with
    | nil => simp
    | cons y ys ih =>
        intro before
        rw [List.foldl_cons, ih, Option.getD_some, List.map_cons, List.sum_cons, add_assoc]
  rw [lookup_collect, adds, Option.getD_none, zero_add]

/-- What is counted in the values is what is counted in the list. -/
theorem sum_collect {M : Type} [AddCommMonoid M] (μ : β → M) (w : α → M)
    (adds : ∀ x b, μ (f x b) = (b.map μ).getD 0 + w x) :
    ((collect key f xs).map fun pair => μ pair.2).sum = (xs.map w).sum := by
  induction xs using List.reverseRecOn with
  | nil => rfl
  | append_singleton xs x ih =>
      rw [collect_append_singleton, sum_update (adds x), ih, List.map_append, List.sum_append,
        List.map_singleton, List.sum_singleton]

end Collect

/-- The elements of each key, in their order. -/
def group (key : α → κ) (xs : List α) : List (κ × List α) :=
  collect key (fun x group => group.getD [] ++ [x]) xs

/-- The group of a key is what has that key. -/
theorem lookup_group {key : α → κ} {xs : List α} {k : κ} (mem : k ∈ keys (group key xs)) :
    (group key xs).lookup k = some (xs.filter fun x => key x = k) := by
  have leaves : ∀ (ys : List α) (before : Option (List α)), ys ≠ [] →
      ys.foldl (fun b x => some (b.getD [] ++ [x])) before = some (before.getD [] ++ ys) := by
    intro ys
    induction ys with
    | nil => exact fun _ ne => absurd rfl ne
    | cons y ys ih =>
        intro before _
        rw [List.foldl_cons]
        cases ys with
        | nil => rfl
        | cons y' ys =>
            rw [ih _ (List.cons_ne_nil y' ys), Option.getD_some, List.append_assoc]
            rfl
  obtain ⟨x, memX, eq⟩ := mem_keys_collect.mp mem
  have ne : (xs.filter fun x => key x = k) ≠ [] :=
    List.ne_nil_of_mem (List.mem_filter.mpr ⟨memX, decide_eq_true eq⟩)
  rw [group, lookup_collect, leaves _ none ne]
  rfl

/-- A sum over a list is the sum over the groups. -/
theorem sum_group {M : Type} [AddCommMonoid M] {key : α → κ} {xs : List α} (f : α → M) :
    ((group key xs).map fun pair => (pair.2.map f).sum).sum = (xs.map f).sum := by
  refine sum_collect (fun elements : List α => (elements.map f).sum) f fun x b => ?_
  cases b with
  | none => simp
  | some group => simp

end Dict
