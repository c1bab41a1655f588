import MmapChunker.Theory.Segments

/-!
Entries inserted into a list.

A `Padded` list marks every entry as one that was there or as one that was inserted,
and an inserted entry is blank. `kept` is the list before the insertions and
`everything` the list after them; `newIndex` says where an entry went.

For segments the blank entries are those of length zero. Inserting them moves no
offset (`offset_newIndex`, `prefixSums_everything`), so a line position stays inside
the same segment under its new index (`inside_newIndex`).
-/

namespace Padding

open Segments

/-- A list with insertions: the entries on the right were inserted and are blank. -/
abbrev Padded (α : Type) (blank : α → Prop) := List (α ⊕ {b : α // blank b})

section Lists

variable {α : Type} {blank : α → Prop}

/-- The list without the insertions. -/
def kept (mixed : Padded α blank) : List α := mixed.filterMap Sum.getLeft?

/-- The list with the insertions. -/
def everything (mixed : Padded α blank) : List α := mixed.map (Sum.elim id Subtype.val)

/-- The index that the entry with index `k` has after the insertions. -/
def newIndex : Padded α blank → Nat → Nat
  | [], k => k
  | .inl _ :: _, 0 => 0
  | .inl _ :: mixed, k + 1 => newIndex mixed k + 1
  | .inr _ :: mixed, k => newIndex mixed k + 1

example : (List.range 2).map (newIndex ([.inl 5, .inr ⟨0, rfl⟩, .inl 7] : Padded Nat (· = 0))) =
    [0, 2] := by decide

/-- Was the entry with index `j` there before the insertions? -/
def isKept (mixed : Padded α blank) (j : Nat) : Bool := (mixed[j]?.bind Sum.getLeft?).isSome

variable (mixed : Padded α blank) (a : α) (b : {b : α // blank b}) (k j : Nat)

@[simp] theorem kept_inl : kept (.inl a :: mixed) = a :: kept mixed := rfl

@[simp] theorem kept_inr : kept (.inr b :: mixed) = kept mixed := rfl

@[simp] theorem everything_inl : everything (.inl a :: mixed) = a :: everything mixed := rfl

@[simp] theorem everything_inr : everything (.inr b :: mixed) = b.val :: everything mixed := rfl

theorem newIndex_lt_succ : newIndex mixed k < newIndex mixed (k + 1) := by
  induction mixed, k using newIndex.induct with
  | case1 k => exact Nat.lt_succ_self k
  | case2 a mixed => exact Nat.succ_pos _
  | case3 a mixed k ih => exact Nat.succ_lt_succ ih
  | case4 b mixed k ih => exact Nat.succ_lt_succ ih

theorem newIndex_strictMono : StrictMono (newIndex mixed) :=
  strictMono_nat_of_lt_succ (newIndex_lt_succ mixed)

theorem newIndex_injective : Function.Injective (newIndex mixed) :=
  (newIndex_strictMono mixed).injective

theorem getElem?_everything : (everything mixed)[newIndex mixed k]? = (kept mixed)[k]? := by
  induction mixed, k using newIndex.induct with
  | case1 k => rfl
  | case2 a mixed => rfl
  | case3 a mixed k ih => simpa [newIndex] using ih
  | case4 b mixed k ih => simpa [newIndex] using ih

/-- Before the insertions an index is in range when it is so after them. -/
theorem newIndex_lt_iff :
    newIndex mixed k < (everything mixed).length ↔ k < (kept mixed).length := by
  rw [← Nat.not_le, ← Nat.not_le, ← List.getElem?_eq_none_iff, ← List.getElem?_eq_none_iff,
    getElem?_everything]

/-- The entries that were there, in order, under their new indices. -/
theorem filter_isKept : (List.range (everything mixed).length).filter (isKept mixed) =
    (List.range (kept mixed).length).map (newIndex mixed) := by
  induction mixed with
  | nil => rfl
  | cons entry mixed ih =>
      cases entry with
      | inl a =>
          have tail : isKept (.inl a :: mixed : Padded α blank) ∘ Nat.succ = isKept mixed := rfl
          rw [everything_inl, kept_inl, List.length_cons, List.length_cons,
            List.range_succ_eq_map, List.range_succ_eq_map, List.filter_cons_of_pos rfl,
            List.filter_map, tail, ih, List.map_cons, List.map_map, List.map_map]
          rfl
      | inr b =>
          have tail : isKept (.inr b :: mixed : Padded α blank) ∘ Nat.succ = isKept mixed := rfl
          rw [everything_inr, kept_inr, List.length_cons, List.range_succ_eq_map,
            List.filter_cons_of_neg (by exact Bool.false_ne_true), List.filter_map, tail, ih,
            List.map_map]
          rfl

variable {mixed j}

/-- An inserted entry is blank. -/
theorem blank_of_inserted (inserted : isKept mixed j = false) {c : α}
    (here : (everything mixed)[j]? = some c) : blank c := by
  rw [everything, List.getElem?_map] at here
  rw [isKept] at inserted
  rcases entry : mixed[j]? with _ | _ | b
  · simp [entry] at here
  · simp [entry] at inserted
  · rw [entry] at here
    obtain rfl := Option.some.inj here
    exact b.property

end Lists

/-! ### Segments of length zero -/

section Zero

variable {α : Type} {blank : α → Prop} {len : α → Nat} (zero : ∀ b, blank b → len b = 0)
  (mixed : Padded α blank)

include zero

theorem sum_everything : ((everything mixed).map len).sum = ((kept mixed).map len).sum := by
  induction mixed with
  | nil => rfl
  | cons entry mixed ih =>
      cases entry with
      | inl a => simpa using ih
      | inr b => simpa [zero _ b.property] using ih

theorem offset_newIndex (k : Nat) :
    offset ((everything mixed).map len) (newIndex mixed k) = offset ((kept mixed).map len) k := by
  induction mixed, k using newIndex.induct with
  | case1 k => rfl
  | case2 a mixed => rfl
  | case3 a mixed k ih => simpa [newIndex, offset_cons] using ih
  | case4 b mixed k ih => simpa [newIndex, offset_cons, zero _ b.property] using ih

theorem offset_newIndex_succ (k : Nat) :
    offset ((everything mixed).map len) (newIndex mixed k + 1) =
      offset ((kept mixed).map len) (k + 1) := by
  induction mixed, k using newIndex.induct with
  | case1 k => rfl
  | case2 a mixed => rfl
  | case3 a mixed k ih => simpa [newIndex, offset_cons] using ih
  | case4 b mixed k ih => simpa [newIndex, offset_cons, zero _ b.property] using ih

/-- Nothing lies between the ends of an inserted segment. -/
theorem offset_inserted {j : Nat} (inserted : isKept mixed j = false)
    (lt : j < (everything mixed).length) :
    offset ((everything mixed).map len) (j + 1) = offset ((everything mixed).map len) j := by
  have nothing := zero _ (blank_of_inserted inserted (List.getElem?_eq_getElem lt))
  rw [offset_succ (by simpa using lt), List.getElem_map, nothing, Nat.add_zero]

/-- The offsets are the same. -/
theorem prefixSums_everything (t : Nat) :
    t ∈ prefixSums ((everything mixed).map len) ↔ t ∈ prefixSums ((kept mixed).map len) := by
  induction mixed generalizing t with
  | nil => rfl
  | cons entry mixed ih =>
      cases entry with
      | inl a => simp [prefixSums_cons, ih]
      | inr b =>
          have start := zero_mem_prefixSums ((kept mixed).map len)
          simp only [everything_inr, kept_inr, List.map_cons, prefixSums_cons, zero _ b.property,
            List.mem_cons, Nat.zero_add, List.map_id', ih]
          exact or_iff_right_of_imp fun eq => eq ▸ start

theorem inside_newIndex {k t : Nat} (inside : Inside ((kept mixed).map len) k t) :
    Inside ((everything mixed).map len) (newIndex mixed k) t := by
  rw [Inside, offset_newIndex zero, offset_newIndex_succ zero]
  exact inside

end Zero

end Padding
