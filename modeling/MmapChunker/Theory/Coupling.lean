import Mathlib.Data.Sum.Basic
import MmapChunker.Theory.Exec

/-!
Two computations that run in lockstep.

`Coupled post fail x s y s'` compares the run of `x` from `s` with the run of `y`
from `s'`: both end with a value, related by `post`, or both stop short, related by
`fail`. The rules follow the syntax, like those of `Ensures`. `Alike` is the case of
one state for both: whatever it is, the computations fail in the same way or end in
the same state with related values.
-/

namespace Exec

variable {σ σ' ε ε' α β γ δ : Type}

/-- How the run from `s` ends: with a value, with an error, or with a panic, which
leaves no state. -/
def ending (x : Exec σ ε α) (s : σ) : (α × σ) ⊕ Option (ε × σ) :=
  match runFrom x s with
  | some (.ok a, s') => .inl (a, s')
  | some (.error e, s') => .inr (some (e, s'))
  | none => .inr none

/-- Both runs end with values in `post`, or both stop short in `fail`. -/
def Coupled (post : α → σ → β → σ' → Prop) (fail : Option (ε × σ) → Option (ε' × σ') → Prop)
    (x : Exec σ ε α) (s : σ) (y : Exec σ' ε' β) (s' : σ') : Prop :=
  Sum.LiftRel (fun p q => post p.1 p.2 q.1 q.2) fail (ending x s) (ending y s')

theorem ending_bind (x : Exec σ ε α) (f : α → Exec σ ε β) (s : σ) :
    ending (x >>= f) s =
      match ending x s with
      | .inl (a, s') => ending (f a) s'
      | .inr failed => .inr failed := by
  simp only [ending, runFrom_bind]
  rcases runFrom x s with _ | ⟨_ | _, _⟩ <;> rfl

theorem ending_step {g : σ → Except ε α × σ} {s s' : σ} {a : α} (eq : g s = (.ok a, s')) :
    ending (step g) s = .inl (a, s') := by
  rw [ending, runFrom_step, eq]

theorem ending_andFinally (cleanup : σ → σ) (x : Exec σ ε α) (s : σ) :
    ending (andFinally cleanup x) s =
      (ending x s).map (Prod.map id cleanup) (Option.map (Prod.map id cleanup)) := by
  have cleaned : runFrom (andFinally cleanup x) s =
      (runFrom x s).map fun p => (p.1, cleanup p.2) := rfl
  rw [ending, ending, cleaned]
  rcases runFrom x s with _ | ⟨_ | _, _⟩ <;> rfl

section Rules

variable {x : Exec σ ε α} {y : Exec σ' ε' β} {s : σ} {s' : σ'}
  {post : α → σ → β → σ' → Prop} {fail : Option (ε × σ) → Option (ε' × σ') → Prop}

theorem Coupled.pure {a : α} {b : β} (h : post a s b s') :
    Coupled post fail (pure a) s (pure b) s' :=
  .inl h

theorem Coupled.throw {e : ε} {e' : ε'} (h : fail (some (e, s)) (some (e', s'))) :
    Coupled post fail (throw e) s (throw e') s' :=
  .inr h

theorem Coupled.mono {post' : α → σ → β → σ' → Prop} (h : Coupled post fail x s y s')
    (weaken : ∀ a t b t', post a t b t' → post' a t b t') : Coupled post' fail x s y s' :=
  Sum.LiftRel.mono (fun _ _ => weaken _ _ _ _) (fun _ _ h => h) h

theorem Coupled.bind {f : α → Exec σ ε γ} {g : β → Exec σ' ε' δ}
    {post' : γ → σ → δ → σ' → Prop} (first : Coupled post fail x s y s')
    (next : ∀ a t b t', post a t b t' → Coupled post' fail (f a) t (g b) t') :
    Coupled post' fail (x >>= f) s (y >>= g) s' := by
  unfold Coupled at first ⊢
  rw [ending_bind, ending_bind]
  generalize ending x s = ends, ending y s' = ends' at first ⊢
  cases first with
  | inl related => exact next _ _ _ _ related
  | inr failed => exact .inr failed

/-- More on the left. -/
theorem Coupled.bind_left {f : α → Exec σ ε γ} {post' : γ → σ → β → σ' → Prop}
    (first : Coupled post fail x s y s')
    (next : ∀ a t b t', post a t b t' → Coupled post' fail (f a) t (Pure.pure b) t') :
    Coupled post' fail (x >>= f) s y s' := by
  rw [← bind_pure y]
  exact first.bind next

/-- More on the right. -/
theorem Coupled.bind_right {g : β → Exec σ' ε' γ} {post' : α → σ → γ → σ' → Prop}
    (first : Coupled post fail x s y s')
    (next : ∀ a t b t', post a t b t' → Coupled post' fail (Pure.pure a) t (g b) t') :
    Coupled post' fail x s (y >>= g) s' := by
  rw [← bind_pure x]
  exact first.bind next

/-- A stateful operation on the right that succeeds. -/
theorem Coupled.step_right {g : σ' → Except ε' γ × σ'} {f : γ → Exec σ' ε' β} {c : γ} {t : σ'}
    (eq : g s' = (.ok c, t)) (next : Coupled post fail x s (f c) t) :
    Coupled post fail x s (step g >>= f) s' := by
  unfold Coupled
  rw [ending_bind, ending_step eq]
  exact next

/-- Cleaning up on the right. -/
theorem Coupled.andFinally_right {cleanup : σ' → σ'} {post' : α → σ → β → σ' → Prop}
    (h : Coupled post fail x s y s')
    (values : ∀ a t b t', post a t b t' → post' a t b (cleanup t'))
    (failures : ∀ failed failed', fail failed failed' →
      fail failed (failed'.map (Prod.map id cleanup))) :
    Coupled post' fail x s (andFinally cleanup y) s' := by
  unfold Coupled at h ⊢
  rw [ending_andFinally]
  generalize ending x s = ends, ending y s' = ends' at h ⊢
  cases h with
  | inl related => exact .inl (values _ _ _ _ related)
  | inr failed => exact .inr (failures _ _ failed)

/-- Two loops over one list, with bodies that keep the loops in lockstep. -/
theorem Coupled.forIn {ι : Type} {body : ι → α → Exec σ ε (ForInStep α)}
    {body' : ι → β → Exec σ' ε' (ForInStep β)} (next : List ι → α → σ → β → σ' → Prop)
    (finish : ∀ a t b t', next [] a t b t' → post a t b t')
    (keeps : ∀ i is a t b t', next (i :: is) a t b t' →
      Coupled (fun c t d t' => StepAgree (fun a b => next is a t b t') (fun a b => post a t b t')
        c d) fail (body i a) t (body' i b) t')
    {is : List ι} {a : α} {b : β} (start : next is a s b s') :
    Coupled post fail (forIn is a body) s (forIn is b body') s' := by
  induction is generalizing a b s s' with
  | nil => exact Coupled.pure (finish a s b s' start)
  | cons i is ih =>
      rw [List.forIn_cons, List.forIn_cons]
      refine (keeps i is a s b s' start).bind fun c t d t' agree => ?_
      cases c <;> cases d
      · exact Coupled.pure agree
      · exact agree.elim
      · exact agree.elim
      · exact ih agree

end Rules

/-! ### The same state on both sides -/

/-- From every state both computations fail in the same way, or end in the same state
with values related by `R`. -/
def Alike (R : α → β → Prop) (x : Exec σ ε α) (y : Exec σ ε β) : Prop :=
  ∀ s, Coupled (fun a t b t' => R a b ∧ t = t') Eq x s y s

namespace Alike

variable {R : α → β → Prop} {x : Exec σ ε α} {y : Exec σ ε β}

theorem refl (x : Exec σ ε α) : Alike Eq x x := by
  intro s
  unfold Coupled
  cases ending x s with
  | inl p => exact .inl ⟨rfl, rfl⟩
  | inr failed => exact .inr rfl

theorem pure {a : α} {b : β} (h : R a b) : Alike R (pure a : Exec σ ε α) (pure b) :=
  fun _ => Coupled.pure ⟨h, rfl⟩

theorem throw (e : ε) : Alike R (throw e : Exec σ ε α) (throw e) := fun _ => Coupled.throw rfl

theorem bind {f : α → Exec σ ε γ} {g : β → Exec σ ε δ} {R' : γ → δ → Prop} (first : Alike R x y)
    (next : ∀ a b, R a b → Alike R' (f a) (g b)) : Alike R' (x >>= f) (y >>= g) := by
  intro s
  refine (first s).bind ?_
  rintro a t b _ ⟨related, rfl⟩
  exact next a b related t

/-- The same computation first on both sides. -/
theorem bind_same {x : Exec σ ε γ} {f : γ → Exec σ ε α} {g : γ → Exec σ ε β}
    (next : ∀ c, Alike R (f c) (g c)) : Alike R (x >>= f) (x >>= g) :=
  (refl x).bind fun c _ same => same ▸ next c

theorem forIn {ι : Type} {body : ι → α → Exec σ ε (ForInStep α)}
    {body' : ι → β → Exec σ ε (ForInStep β)} {is : List ι}
    (keeps : ∀ i ∈ is, ∀ a b, R a b → Alike (StepAgree R R) (body i a) (body' i b))
    {a : α} {b : β} (start : R a b) : Alike R (forIn is a body) (forIn is b body') := by
  intro s
  refine Coupled.forIn (fun js a t b t' => (R a b ∧ t = t') ∧ ∀ j ∈ js, j ∈ is)
    (fun _ _ _ _ h => h.1) ?_ ⟨⟨start, rfl⟩, fun _ mem => mem⟩
  rintro i js a t b _ ⟨⟨related, rfl⟩, inside⟩
  refine (keeps i (inside i List.mem_cons_self) a b related t).mono ?_
  rintro c t d _ ⟨agree, rfl⟩
  exact agree.mono (fun _ _ h => ⟨⟨h, rfl⟩, fun j mem => inside j (List.mem_cons_of_mem _ mem)⟩)
    fun _ _ h => ⟨h, rfl⟩

/-- Values related by a function: one run is the other, mapped. -/
theorem runFrom_eq {f : α → β} (h : Alike (fun a b => b = f a) x y) (s : σ) :
    runFrom y s = (runFrom x s).map fun p => (p.1.map f, p.2) := by
  have ends := h s
  unfold Coupled ending at ends
  generalize runFrom x s = r, runFrom y s = r' at ends ⊢
  rcases r with _ | ⟨_ | _, _⟩ <;> rcases r' with _ | ⟨_ | _, _⟩ <;> simp at ends
  · rfl
  · obtain ⟨rfl, rfl⟩ := ends
    rfl
  · obtain ⟨rfl, rfl⟩ := ends
    rfl

end Alike

/-- Iterations that change nothing may be left out of a loop. -/
theorem forIn_filter {ι : Type} {body : ι → α → Exec σ ε (ForInStep α)} {is : List ι}
    {p : ι → Bool} (idle : ∀ i ∈ is, p i = false → ∀ a, body i a = pure (.yield a)) (a : α) :
    (forIn (is.filter p) a body : Exec σ ε α) = forIn is a body := by
  induction is generalizing a with
  | nil => rfl
  | cons i is ih =>
      have rest := ih fun j mem => idle j (List.mem_cons_of_mem i mem)
      rw [List.forIn_cons]
      cases kept : p i with
      | false =>
          rw [List.filter_cons_of_neg (by simp [kept]), idle i List.mem_cons_self kept a, pure_bind]
          exact rest a
      | true =>
          rw [List.filter_cons_of_pos kept, List.forIn_cons]
          refine bind_congr fun once => ?_
          cases once with
          | done a' => rfl
          | yield a' => exact rest a'

end Exec
