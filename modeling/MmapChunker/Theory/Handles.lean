import Mathlib.Data.List.Basic

/-!
Handles that are acquired and released.

A trace lists what happened, in order. `held` is what has been acquired and not yet
released, `acquisitions` and `notes` are views of the trace. A trace is `Disciplined`
when at each moment at most one handle is held and the indices are acquired in
ascending order, so that none is acquired twice. The rules extend a disciplined trace
by one event.
-/

namespace Handles

/-- What happens: a handle is acquired or released, or something else is noted. -/
inductive Event (α β : Type) where
  | acquired (index : Nat) (info : α)
  | released (index : Nat)
  | noted (note : β)
  deriving Repr, DecidableEq

section Views

variable {α β : Type}

/-- The handles that are held after an event. -/
def holding (handles : List Nat) : Event α β → List Nat
  | .acquired index _ => index :: handles
  | .released index => handles.erase index
  | .noted _ => handles

/-- The handles that are held at the end of a trace. -/
def held (trace : List (Event α β)) : List Nat := trace.foldl holding []

/-- The handles that were acquired, in order. -/
def acquisitions (trace : List (Event α β)) : List (Nat × α) :=
  trace.filterMap fun
    | .acquired index info => some (index, info)
    | _ => none

/-- What was noted, in order. -/
def notes (trace : List (Event α β)) : List β :=
  trace.filterMap fun
    | .noted note => some note
    | _ => none

/-- At each moment at most one handle is held, and the indices ascend. -/
structure Disciplined (trace : List (Event α β)) : Prop where
  one_held : ∀ start, start <+: trace → (held start).length ≤ 1
  ascending : (acquisitions trace).Pairwise fun p q => p.1 < q.1

variable {trace : List (Event α β)} {index : Nat} {info : α} {note : β}

@[simp] theorem held_concat (event : Event α β) :
    held (trace ++ [event]) = holding (held trace) event := by
  rw [held, List.foldl_append]
  rfl

@[simp] theorem acquisitions_acquired :
    acquisitions (trace ++ [.acquired index info]) = acquisitions trace ++ [(index, info)] := by
  simp [acquisitions]

@[simp] theorem acquisitions_released :
    acquisitions (trace ++ [.released index]) = acquisitions trace := by
  simp [acquisitions]

@[simp] theorem acquisitions_noted :
    acquisitions (trace ++ [.noted note]) = acquisitions trace := by
  simp [acquisitions]

@[simp] theorem notes_acquired : notes (trace ++ [.acquired index info]) = notes trace := by
  simp [notes]

@[simp] theorem notes_released : notes (trace ++ [.released index]) = notes trace := by
  simp [notes]

@[simp] theorem notes_noted : notes (trace ++ [.noted note]) = notes trace ++ [note] := by
  simp [notes]

theorem disciplined_nil : Disciplined ([] : List (Event α β)) where
  one_held start prefixed := by
    rw [List.prefix_nil.mp prefixed]
    exact Nat.zero_le 1
  ascending := List.Pairwise.nil

/-- One event more: the handles held after it are at most one, and the acquisitions
still ascend. -/
theorem Disciplined.concat (h : Disciplined trace) {event : Event α β}
    (one : (holding (held trace) event).length ≤ 1)
    (ascending : (acquisitions (trace ++ [event])).Pairwise fun p q => p.1 < q.1) :
    Disciplined (trace ++ [event]) := by
  refine ⟨fun start prefixed => ?_, ascending⟩
  rcases List.prefix_concat_iff.mp prefixed with rfl | earlier
  · rwa [held_concat]
  · exact h.one_held start earlier

theorem Disciplined.acquired (h : Disciplined trace) (free : held trace = [])
    (fresh : ∀ p ∈ acquisitions trace, p.1 < index) :
    Disciplined (trace ++ [.acquired index info]) := by
  refine h.concat (by simp [holding, free]) ?_
  rw [acquisitions_acquired, List.pairwise_append]
  refine ⟨h.ascending, List.pairwise_singleton _ _, fun p mem q memQ => ?_⟩
  rw [List.mem_singleton.mp memQ]
  exact fresh p mem

theorem Disciplined.released (h : Disciplined trace) :
    Disciplined (trace ++ [.released index]) := by
  apply h.concat
  · exact Nat.le_trans List.length_erase_le (h.one_held trace List.prefix_rfl)
  · rw [acquisitions_released]
    exact h.ascending

theorem Disciplined.noted (h : Disciplined trace) : Disciplined (trace ++ [.noted note]) := by
  apply h.concat
  · exact h.one_held trace List.prefix_rfl
  · rw [acquisitions_noted]
    exact h.ascending

/-- No handle is acquired twice. -/
theorem Disciplined.nodup (h : Disciplined trace) :
    ((acquisitions trace).map Prod.fst).Nodup := by
  rw [List.nodup_iff_pairwise_ne, List.pairwise_map]
  exact h.ascending.imp fun lt => Nat.ne_of_lt lt

end Views

end Handles
