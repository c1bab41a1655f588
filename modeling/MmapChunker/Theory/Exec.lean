import Mathlib.Data.List.Basic

/-!
Stateful computations that may return an error or panic.

A computation in `Exec σ ε` runs from a state and ends in one of three ways: with
a value, with an error, or not at all (`none`, a panic).

* `Ensures x s post` is total correctness: from `s` the computation does not
  panic, and its outcome and final state meet `post`. `Returns` is the same for
  computations that must not fail either.
* The rules follow the syntax: `pure`, `throw`, bind, and a `for` loop that
  simulates an abstract loop without state (`forIn_simulates`).
-/

/-- A computation with state `σ` that may return an error `ε` or panic. -/
abbrev Exec (σ ε : Type) : Type → Type := ExceptT ε (StateT σ Option)

namespace Exec

variable {σ ε α β γ : Type}

/-- The outcome and the final state from `s`; `none` is a panic. -/
def runFrom (x : Exec σ ε α) (s : σ) : Option (Except ε α × σ) := ExceptT.run x s

/-- An operation that panics on `none`. -/
def orPanic (x : Option α) : Exec σ ε α := ExceptT.mk fun s => x.map fun a => (.ok a, s)

/-- `x.ok_or(e)?`. -/
def okOr (x : Option α) (e : ε) : Exec σ ε α :=
  match x with
  | some a => pure a
  | none => throw e

/-- `if p { return Err(e) }`. -/
def throwIf (p : Prop) [Decidable p] (e : ε) : Exec σ ε Unit := if p then throw e else pure ()

/-- A stateful operation: its outcome and the next state. -/
def step (f : σ → Except ε α × σ) : Exec σ ε α := ExceptT.mk fun s => some (f s)

/-- `x?`. -/
def fromExcept (x : Except ε α) : Exec σ ε α := step fun s => (x, s)

/-- The state as it is. -/
def current : Exec σ ε σ := step fun s => (.ok s, s)

/-- The errors of a computation, translated. -/
def mapErr {ε' : Type} (f : ε → ε') (x : Exec σ ε α) : Exec σ ε' α :=
  ExceptT.mk fun s => (runFrom x s).map fun p => (p.1.mapError f, p.2)

/-- Run a computation and clean up after it, whatever its outcome. -/
def andFinally (cleanup : σ → σ) (x : Exec σ ε α) : Exec σ ε α :=
  ExceptT.mk fun s => (runFrom x s).map fun p => (p.1, cleanup p.2)

section Run

variable (s : σ)

@[simp] theorem runFrom_pure (a : α) : runFrom (pure a : Exec σ ε α) s = some (.ok a, s) := rfl

@[simp] theorem runFrom_throw (e : ε) :
    runFrom (throw e : Exec σ ε α) s = some (.error e, s) := rfl

@[simp] theorem runFrom_step (f : σ → Except ε α × σ) : runFrom (step f) s = some (f s) := rfl

theorem runFrom_bind (x : Exec σ ε α) (f : α → Exec σ ε β) :
    runFrom (x >>= f) s =
      match runFrom x s with
      | none => none
      | some (.error e, s') => some (.error e, s')
      | some (.ok a, s') => runFrom (f a) s' := by
  change (StateT.bind (ExceptT.run x) _) s = _
  unfold StateT.bind runFrom
  cases h : ExceptT.run x s with
  | none => rfl
  | some p =>
      obtain ⟨r, s'⟩ := p
      cases r <;> rfl

end Run

@[simp] theorem orPanic_some (a : α) : (orPanic (some a) : Exec σ ε α) = pure a := rfl

theorem fromExcept_ok (a : α) : (fromExcept (.ok a) : Exec σ ε α) = pure a := rfl

@[simp] theorem okOr_some (a : α) (e : ε) : (okOr (some a) e : Exec σ ε α) = pure a := rfl

@[simp] theorem okOr_none (e : ε) : (okOr none e : Exec σ ε α) = throw e := rfl

@[simp] theorem throw_bind (e : ε) (f : α → Exec σ ε β) : (throw e >>= f) = throw e := by
  refine ExceptT.ext (funext fun s => ?_)
  exact runFrom_bind s _ f

/-! ### Total correctness -/

/-- From `s` the computation does not panic and ends in `post`. -/
def Ensures (x : Exec σ ε α) (s : σ) (post : Except ε α → σ → Prop) : Prop :=
  ∃ r s', runFrom x s = some (r, s') ∧ post r s'

/-- From `s` the computation ends with a value, in `post`. -/
def Returns (x : Exec σ ε α) (s : σ) (post : α → σ → Prop) : Prop :=
  ∃ a s', runFrom x s = some (.ok a, s') ∧ post a s'

section Rules

variable {x : Exec σ ε α} {f : α → Exec σ ε β} {s : σ}

theorem Returns.pure {a : α} {post : α → σ → Prop} (h : post a s) :
    Returns (pure a : Exec σ ε α) s post :=
  ⟨a, s, rfl, h⟩

theorem Returns.mono {post post' : α → σ → Prop} (h : Returns x s post)
    (weaken : ∀ a s', post a s' → post' a s') : Returns x s post' := by
  obtain ⟨a, s', run, holds⟩ := h
  exact ⟨a, s', run, weaken a s' holds⟩

theorem Returns.bind {mid : α → σ → Prop} {post : β → σ → Prop} (first : Returns x s mid)
    (next : ∀ a s', mid a s' → Returns (f a) s' post) : Returns (x >>= f) s post := by
  obtain ⟨a, s', run, holds⟩ := first
  obtain ⟨b, s'', run', holds'⟩ := next a s' holds
  refine ⟨b, s'', ?_, holds'⟩
  rw [runFrom_bind, run]
  exact run'

theorem Returns.mapErr {ε' : Type} {g : ε → ε'} {post : α → σ → Prop} (h : Returns x s post) :
    Returns (mapErr g x) s post := by
  obtain ⟨a, s', run, holds⟩ := h
  refine ⟨a, s', ?_, holds⟩
  change (runFrom x s).map _ = _
  rw [run]
  rfl

theorem Ensures.pure {a : α} {post : Except ε α → σ → Prop} (h : post (.ok a) s) :
    Ensures (pure a : Exec σ ε α) s post :=
  ⟨.ok a, s, rfl, h⟩

theorem Ensures.throw {e : ε} {post : Except ε α → σ → Prop} (h : post (.error e) s) :
    Ensures (throw e : Exec σ ε α) s post :=
  ⟨.error e, s, rfl, h⟩

/-- After a stateful operation that succeeds. -/
theorem Ensures.after_step {g : σ → Except ε α × σ} {a : α} {s' : σ}
    {post : Except ε β → σ → Prop} (eq : g s = (.ok a, s')) (next : Ensures (f a) s' post) :
    Ensures (step g >>= f) s post := by
  obtain ⟨r, t, run, holds⟩ := next
  refine ⟨r, t, ?_, holds⟩
  rw [runFrom_bind, runFrom_step, eq]
  exact run

theorem Ensures.mono {post post' : Except ε α → σ → Prop} (h : Ensures x s post)
    (weaken : ∀ r s', post r s' → post' r s') : Ensures x s post' := by
  obtain ⟨r, s', run, holds⟩ := h
  exact ⟨r, s', run, weaken r s' holds⟩

theorem Ensures.bind {mid : Except ε α → σ → Prop} {post : Except ε β → σ → Prop}
    (first : Ensures x s mid) (next : ∀ a s', mid (.ok a) s' → Ensures (f a) s' post)
    (failed : ∀ e s', mid (.error e) s' → post (.error e) s') : Ensures (x >>= f) s post := by
  obtain ⟨r, s', run, holds⟩ := first
  cases r with
  | error e =>
      refine ⟨.error e, s', ?_, failed e s' holds⟩
      rw [runFrom_bind, run]
  | ok a =>
      obtain ⟨r', s'', run', holds'⟩ := next a s' holds
      refine ⟨r', s'', ?_, holds'⟩
      rw [runFrom_bind, run]
      exact run'

end Rules

/-! ### Value or error -/

/-- The outcome is a value in `post` or an error in `failed`. -/
def Outcome (post : α → σ → Prop) (failed : ε → σ → Prop) : Except ε α → σ → Prop
  | .ok a, s => post a s
  | .error e, s => failed e s

/-- What one iteration leads to: another one in `next`, or the end of the loop in
`stop`. -/
def Continues (next stop : α → σ → Prop) : ForInStep α → σ → Prop
  | .yield a, s => next a s
  | .done a, s => stop a s

section Outcome

variable {post : α → σ → Prop} {failed : ε → σ → Prop} {s : σ}

theorem Returns.outcome {x : Exec σ ε α} (h : Returns x s post) :
    Ensures x s (Outcome post failed) := by
  obtain ⟨a, s', run, holds⟩ := h
  exact ⟨.ok a, s', run, holds⟩

/-- A computation whose errors are impossible returns. -/
theorem Ensures.returns {x : Exec σ ε α} (h : Ensures x s (Outcome post fun _ _ => False)) :
    Returns x s post := by
  obtain ⟨r, s', run, outcome⟩ := h
  cases r with
  | error e => exact outcome.elim
  | ok a => exact ⟨a, s', run, outcome⟩

/-- The errors of the first computation are errors of the whole. -/
theorem Ensures.andThen {x : Exec σ ε β} {f : β → Exec σ ε α} {mid : β → σ → Prop}
    (first : Ensures x s (Outcome mid failed))
    (next : ∀ b s', mid b s' → Ensures (f b) s' (Outcome post failed)) :
    Ensures (x >>= f) s (Outcome post failed) :=
  first.bind next fun _ _ error => error

theorem Ensures.weaken {x : Exec σ ε α} {post' : α → σ → Prop}
    (h : Ensures x s (Outcome post failed)) (weaken : ∀ a s', post a s' → post' a s') :
    Ensures x s (Outcome post' failed) :=
  h.mono fun r s' outcome => by
    cases r with
    | error e => exact outcome
    | ok a => exact weaken a s' outcome

theorem Ensures.throwIf {p : Prop} [Decidable p] {e : ε} (fails : p → failed e s) :
    Ensures (throwIf p e) s (Outcome (fun _ s' => s' = s ∧ ¬p) failed) := by
  by_cases holds : p
  · rw [Exec.throwIf, if_pos holds]
    exact Ensures.throw (fails holds)
  · rw [Exec.throwIf, if_neg holds]
    exact Ensures.pure ⟨rfl, holds⟩

theorem Ensures.okOr {x : Option α} {e : ε} (fails : x = none → failed e s) :
    Ensures (okOr x e) s (Outcome (fun a s' => s' = s ∧ x = some a) failed) := by
  cases x with
  | none => exact Ensures.throw (fails rfl)
  | some a => exact Ensures.pure ⟨rfl, rfl⟩

theorem Ensures.fromExcept {x : Except ε α} (value : ∀ a, x = .ok a → post a s)
    (error : ∀ e, x = .error e → failed e s) : Ensures (fromExcept x) s (Outcome post failed) := by
  refine ⟨x, s, rfl, ?_⟩
  cases x with
  | error e => exact error e rfl
  | ok a => exact value a rfl

theorem Ensures.mapErr {ε' : Type} {g : ε → ε'} {failed' : ε' → σ → Prop} {x : Exec σ ε α}
    (h : Ensures x s (Outcome post failed)) (errors : ∀ e s', failed e s' → failed' (g e) s') :
    Ensures (mapErr g x) s (Outcome post failed') := by
  obtain ⟨r, s', run, outcome⟩ := h
  refine ⟨r.mapError g, s', ?_, ?_⟩
  · change (runFrom x s).map _ = _
    rw [run]
    rfl
  · cases r with
    | error e => exact errors e s' outcome
    | ok a => exact outcome

theorem Ensures.andFinally {x : Exec σ ε α} {cleanup : σ → σ}
    {post' : α → σ → Prop} {failed' : ε → σ → Prop} (h : Ensures x s (Outcome post failed))
    (cleaned : ∀ a s', post a s' → post' a (cleanup s'))
    (cleanedError : ∀ e s', failed e s' → failed' e (cleanup s')) :
    Ensures (andFinally cleanup x) s (Outcome post' failed') := by
  obtain ⟨r, s', run, outcome⟩ := h
  refine ⟨r, cleanup s', ?_, ?_⟩
  · change (runFrom x s).map _ = _
    rw [run]
    rfl
  · cases r with
    | error e => exact cleanedError e s' outcome
    | ok a => exact cleaned a s' outcome

theorem Returns.andFinally {x : Exec σ ε α} {cleanup : σ → σ} {post' : α → σ → Prop}
    (h : Returns x s post) (cleaned : ∀ a s', post a s' → post' a (cleanup s')) :
    Returns (andFinally cleanup x) s post' := by
  obtain ⟨a, s', run, holds⟩ := h
  refine ⟨a, cleanup s', ?_, cleaned a s' holds⟩
  change (runFrom x s).map _ = _
  rw [run]
  rfl

theorem Ensures.orElse {x : Exec σ ε α} {failed' : ε → σ → Prop}
    (h : Ensures x s (Outcome post failed)) (weaken : ∀ e s', failed e s' → failed' e s') :
    Ensures x s (Outcome post failed') :=
  h.mono fun r s' outcome => by
    cases r with
    | error e => exact weaken e s' outcome
    | ok a => exact outcome

/-- A loop keeps an invariant that its body keeps. The invariant may speak about the
indices that are still to come. -/
theorem forIn_outcome {ι : Type} (body : ι → α → Exec σ ε (ForInStep α))
    (next : List ι → α → σ → Prop) (finish : ∀ a s, next [] a s → post a s)
    (keeps : ∀ i is a s, next (i :: is) a s →
      Ensures (body i a) s (Outcome (Continues (next is) post) failed))
    {is : List ι} {a : α} (start : next is a s) :
    Ensures (forIn is a body) s (Outcome post failed) := by
  induction is generalizing a s with
  | nil => exact Ensures.pure (finish a s start)
  | cons i is ih =>
      rw [List.forIn_cons]
      refine (keeps i is a s start).andThen fun once s' continues => ?_
      cases once with
      | yield a' => exact ih continues
      | done a' => exact Ensures.pure continues

/-- A loop whose body returns and leaves the state alone does the same. -/
theorem Returns.forM {ι : Type} {body : ι → Exec σ ε Unit} {is : List ι}
    (each : ∀ i ∈ is, Returns (body i) s fun _ s' => s' = s) :
    Returns (is.forM body) s fun _ s' => s' = s := by
  induction is with
  | nil => exact Returns.pure rfl
  | cons i is ih =>
      change Returns (body i >>= fun _ => is.forM body) s _
      obtain ⟨first, rest⟩ := List.forall_mem_cons.mp each
      apply first.bind
      rintro _ _ rfl
      exact ih rest

end Outcome

/-- A sequence that returns has returned at each step. -/
theorem bind_ok {x : Except ε α} {f : α → Except ε β} {b : β} (ok : (x >>= f) = .ok b) :
    ∃ a, x = .ok a ∧ f a = .ok b := by
  cases x with
  | error e => cases ok
  | ok a => exact ⟨a, rfl, ok⟩

theorem bind_error {x : Except ε α} {f : α → Except ε β} {e : ε} (failed : (x >>= f) = .error e) :
    x = .error e ∨ ∃ a, x = .ok a ∧ f a = .error e := by
  cases x with
  | error e' =>
      cases failed
      exact .inl rfl
  | ok a => exact .inr ⟨a, rfl, failed⟩

/-- A mapped outcome is an error when the outcome is one. -/
theorem exists_map_eq_error {x : Except ε α} (f : α → β) :
    (∃ e, x.map f = .error e) ↔ ∃ e, x = .error e := by
  cases x with
  | error e => exact ⟨fun _ => ⟨e, rfl⟩, fun _ => ⟨e, rfl⟩⟩
  | ok a =>
      constructor
      · rintro ⟨_, eq⟩
        cases eq
      · rintro ⟨_, eq⟩
        cases eq

/-! ### From any state -/

/-- From no state does the computation panic, and a value it ends with is in `post`. -/
def Yields (x : Exec σ ε α) (post : α → Prop) : Prop :=
  ∀ s, Ensures x s (Outcome (fun a _ => post a) fun _ _ => True)

namespace Yields

variable {x : Exec σ ε α} {post : α → Prop}

theorem pure {a : α} (h : post a) : Yields (pure a : Exec σ ε α) post := fun _ => Ensures.pure h

theorem throw (e : ε) : Yields (throw e : Exec σ ε α) post := fun _ => Ensures.throw trivial

theorem step (f : σ → Except ε α × σ) : Yields (step f) fun _ => True := fun s =>
  ⟨(f s).1, (f s).2, rfl, by cases (f s).1 <;> trivial⟩

theorem mono {post' : α → Prop} (h : Yields x post) (weaken : ∀ a, post a → post' a) :
    Yields x post' := fun s =>
  (h s).weaken fun a _ => weaken a

/-- What is yielded from any state is also what is yielded from this one. -/
theorem ensures {held : α → σ → Prop} {failed : ε → σ → Prop} {s : σ} (h : Yields x post)
    (here : Ensures x s (Outcome held failed)) :
    Ensures x s (Outcome (fun a s' => held a s' ∧ post a) failed) := by
  obtain ⟨r, s', run, outcome⟩ := here
  obtain ⟨r', s'', run', outcome'⟩ := h s
  obtain ⟨rfl, rfl⟩ := Prod.mk.inj (Option.some.inj (run.symm.trans run'))
  refine ⟨r, s', run, ?_⟩
  cases r with
  | error e => exact outcome
  | ok a => exact ⟨outcome, outcome'⟩

theorem bind {f : α → Exec σ ε β} {post' : β → Prop} (first : Yields x post)
    (next : ∀ a, post a → Yields (f a) post') : Yields (x >>= f) post' := fun s =>
  (first s).andThen fun a s' holds => next a holds s'

theorem throwIf (p : Prop) [Decidable p] (e : ε) :
    Yields (throwIf p e : Exec σ ε Unit) fun _ => ¬p := fun _ =>
  (Ensures.throwIf fun _ => trivial).weaken fun _ _ passed => passed.2

theorem fromExcept (x : Except ε α) : Yields (fromExcept x : Exec σ ε α) fun a => x = .ok a :=
  fun _ => Ensures.fromExcept (fun _ eq => eq) fun _ _ => trivial

theorem mapErr {ε' : Type} (h : Yields x post) (g : ε → ε') : Yields (mapErr g x) post :=
  fun s => (h s).mapErr fun _ _ _ => trivial

theorem andFinally (h : Yields x post) (cleanup : σ → σ) : Yields (andFinally cleanup x) post :=
  fun s => (h s).andFinally (fun _ _ holds => holds) fun _ _ _ => trivial

/-- A loop keeps an invariant that its body keeps. -/
theorem forIn {ι : Type} (body : ι → α → Exec σ ε (ForInStep α)) (next : List ι → α → Prop)
    (finish : ∀ a, next [] a → post a)
    (keeps : ∀ i is a, next (i :: is) a → Yields (body i a) fun once =>
      Continues (fun a' _ => next is a') (fun a' _ => post a') once ())
    {is : List ι} {a : α} (start : next is a) : Yields (forIn is a body) post := fun s =>
  forIn_outcome body (fun is a _ => next is a) (fun a _ => finish a)
    (fun i is a s holds => (keeps i is a holds s).weaken fun once _ continues => by
      cases once <;> exact continues)
    start

/-- A loop whose body yields something of each element yields it of all. -/
theorem forM {ι : Type} {body : ι → Exec σ ε Unit} {p : ι → Prop}
    (each : ∀ i, Yields (body i) fun _ => p i) (is : List ι) :
    Yields (is.forM body) fun _ => ∀ i ∈ is, p i := by
  induction is with
  | nil => exact pure (by simp)
  | cons i is ih =>
      change Yields (body i >>= fun _ => is.forM body) _
      refine (each i).bind fun _ first => ih.mono fun _ rest => ?_
      exact List.forall_mem_cons.mpr ⟨first, rest⟩

theorem mapM {ι : Type} {f : ι → Exec σ ε β} {r : ι → β → Prop}
    (each : ∀ i, Yields (f i) (r i)) (is : List ι) :
    Yields (is.mapM f) (List.Forall₂ r is) := by
  induction is with
  | nil =>
      rw [List.mapM_nil]
      exact pure .nil
  | cons i is ih =>
      rw [List.mapM_cons]
      refine (each i).bind fun b first => ih.bind fun bs rest => pure ?_
      exact .cons first rest

end Yields

/-! ### If it returns -/

/-- The values the computation may return are in `post`, from whatever state. It may
also end with an error or panic. -/
def Upholds (x : Exec σ ε α) (post : α → Prop) : Prop :=
  ∀ s a s', runFrom x s = some (.ok a, s') → post a

namespace Upholds

variable {x : Exec σ ε α} {post : α → Prop}

theorem pure {a : α} (h : post a) : Upholds (pure a : Exec σ ε α) post := by
  intro s b s' run
  cases run
  exact h

theorem bind {f : α → Exec σ ε β} {post' : β → Prop} (first : Upholds x post)
    (next : ∀ a, post a → Upholds (f a) post') : Upholds (x >>= f) post' := by
  intro s b s' run
  rw [runFrom_bind] at run
  cases here : runFrom x s with
  | none =>
      rw [here] at run
      cases run
  | some p =>
      obtain ⟨_ | a, t⟩ := p
      · rw [here] at run
        cases run
      · rw [here] at run
        exact next a (first s a t here) t b s' run

/-- After a computation of which nothing is known. -/
theorem after {f : β → Exec σ ε α} {y : Exec σ ε β} (next : ∀ b, Upholds (f b) post) :
    Upholds (y >>= f) post :=
  bind (fun _ _ _ _ => trivial) fun b (_ : True) => next b

theorem mapErr {ε' : Type} {g : ε → ε'} (h : Upholds x post) : Upholds (mapErr g x) post := by
  intro s a s' run
  change (runFrom x s).map _ = _ at run
  obtain ⟨⟨r, t⟩, here, eq⟩ := Option.map_eq_some_iff.mp run
  cases r with
  | error e => cases eq
  | ok b =>
      cases eq
      exact h s _ _ here

theorem orPanic {o : Option α} (value : ∀ a, o = some a → post a) :
    Upholds (orPanic o : Exec σ ε α) post := by
  intro s a s' run
  obtain ⟨b, here, eq⟩ := Option.map_eq_some_iff.mp run
  cases eq
  exact value a here

end Upholds

/-! ### All or nothing -/

/-- From `s` the computation returns `a` and ends in `s'` if `p` holds; otherwise it
returns an error and `s` stays. -/
def Atomic (x : Exec σ ε α) (s : σ) (p : Prop) (a : α) (s' : σ) : Prop :=
  (p → runFrom x s = some (.ok a, s')) ∧ (¬p → ∃ e, runFrom x s = some (.error e, s))

section Atomic

variable {p q : Prop} {s s' : σ} {a : α} {b : β} {f : α → Exec σ ε β}

theorem Atomic.congr {x : Exec σ ε α} (atomic : Atomic x s p a s') (iff : p ↔ q) :
    Atomic x s q a s' := by
  rwa [← propext iff]

theorem Atomic.pure (holds : p) (a : α) (s : σ) : Atomic (pure a : Exec σ ε α) s p a s :=
  ⟨fun _ => rfl, fun fails => (fails holds).elim⟩

theorem Atomic.step {f : σ → Except ε α × σ} (holds : p) (eq : f s = (.ok a, s')) :
    Atomic (step f) s p a s' :=
  ⟨fun _ => congrArg some eq, fun fails => (fails holds).elim⟩

theorem Atomic.throwIf [Decidable p] (e : ε) (s : σ) :
    Atomic (throwIf p e : Exec σ ε Unit) s (¬p) () s := by
  refine ⟨fun fails => ?_, fun holds => ⟨e, ?_⟩⟩
  · rw [Exec.throwIf, if_neg fails]
    rfl
  · rw [Exec.throwIf, if_pos (not_not.mp holds)]
    rfl

/-- A computation that leaves the state alone, and then another. -/
theorem Atomic.bind {x : Exec σ ε α} (first : Atomic x s p a s)
    (next : p → Atomic (f a) s q b s') : Atomic (x >>= f) s (p ∧ q) b s' := by
  constructor
  · rintro ⟨holds, rest⟩
    rw [runFrom_bind, first.1 holds]
    exact (next holds).1 rest
  · intro fails
    by_cases holds : p
    · obtain ⟨e, failed⟩ := (next holds).2 fun rest => fails ⟨holds, rest⟩
      refine ⟨e, ?_⟩
      rw [runFrom_bind, first.1 holds]
      exact failed
    · obtain ⟨e, failed⟩ := first.2 holds
      refine ⟨e, ?_⟩
      rw [runFrom_bind, failed]

theorem Atomic.okOr [Decidable p] {x : Option α} (eq : x = if p then some a else none) (e : ε)
    (s : σ) : Atomic (okOr x e) s p a s := by
  refine ⟨fun holds => ?_, fun fails => ⟨e, ?_⟩⟩
  · rw [eq, if_pos holds]
    rfl
  · rw [eq, if_neg fails]
    rfl

theorem Atomic.current {f : σ → Exec σ ε β} (next : Atomic (f s) s p b s') :
    Atomic (current >>= f) s p b s' :=
  next

end Atomic

/-! ### Loops -/

/-- Two outcomes agree: the same error, or related values. -/
def Agree (R : α → β → Prop) : Except ε α → Except ε β → Prop
  | .error e, .error e' => e = e'
  | .ok a, .ok b => R a b
  | _, _ => False

/-- Two loop steps agree: both go on in `next`, or both leave in `stop`. -/
def StepAgree (next stop : α → β → Prop) : ForInStep α → ForInStep β → Prop
  | .yield a, .yield b => next a b
  | .done a, .done b => stop a b
  | _, _ => False

theorem Agree.mono {R R' : α → β → Prop} {r : Except ε α} {r' : Except ε β} (agree : Agree R r r')
    (weaken : ∀ a b, R a b → R' a b) : Agree R' r r' := by
  cases r <;> cases r'
  · exact agree
  · exact agree
  · exact agree
  · exact weaken _ _ agree

theorem Returns.agree {x : Exec σ ε β} {s : σ} {R : α → β → σ → Prop} {a : α}
    (h : Returns x s (R a)) :
    Ensures x s fun r s' => Agree (fun a b => R a b s') (.ok a : Except ε α) r := by
  obtain ⟨b, s', run, holds⟩ := h
  exact ⟨.ok b, s', run, holds⟩

theorem StepAgree.mono {next next' stop stop' : α → β → Prop} {a : ForInStep α}
    {b : ForInStep β} (agree : StepAgree next stop a b) (weakenNext : ∀ a b, next a b → next' a b)
    (weakenStop : ∀ a b, stop a b → stop' a b) : StepAgree next' stop' a b := by
  cases a <;> cases b
  · exact weakenStop _ _ agree
  · exact agree
  · exact agree
  · exact weakenNext _ _ agree

/-- A step that goes on has one that goes on beside it. -/
theorem Agree.of_yield {next stop : α → β → Prop} {x : Except ε (ForInStep α)} {b : β}
    (agree : Agree (StepAgree next stop) x (.ok (.yield b))) :
    ∃ a, x = .ok (.yield a) ∧ next a b := by
  rcases x with _ | _ | a
  · exact False.elim agree
  · exact False.elim agree
  · exact ⟨a, rfl, agree⟩

/-- A stateful loop whose body simulates an abstract step simulates the abstract
loop. The relation `next` may speak about the indices that are still to come. -/
theorem forIn_simulates {ι : Type} (body : ι → β → Exec σ ε (ForInStep β))
    (abstract : ι → γ → Except ε (ForInStep γ)) (next : List ι → γ → β → σ → Prop)
    (stop : γ → β → σ → Prop) (finish : ∀ c b s, next [] c b s → stop c b s)
    (simulates : ∀ i is c b s, next (i :: is) c b s → Ensures (body i b) s fun r s' =>
      Agree (StepAgree (fun c' b' => next is c' b' s') fun c' b' => stop c' b' s')
        (abstract i c) r)
    {is : List ι} {c : γ} {b : β} {s : σ} (start : next is c b s) :
    Ensures (forIn is b body) s fun r s' =>
      Agree (fun c' b' => stop c' b' s') (forIn is c abstract) r := by
  induction is generalizing c b s with
  | nil => exact Ensures.pure (finish c b s start)
  | cons i is ih =>
      rw [List.forIn_cons, List.forIn_cons]
      have once := simulates i is c b s start
      cases here : abstract i c with
      | error e =>
          rw [here] at once
          refine once.bind (fun _ _ agree => agree.elim) fun e' s' agree => ?_
          exact agree
      | ok c' =>
          rw [here] at once
          refine once.bind (fun b' s' agree => ?_) fun e' s' agree => agree.elim
          cases c' with
          | yield c' =>
              cases b' with
              | yield b' => exact ih agree
              | done b' => exact agree.elim
          | done c' =>
              cases b' with
              | yield b' => exact agree.elim
              | done b' => exact Ensures.pure agree

/-- The loop over `is` from `a` and `s` comes to the iteration `i` with `b` and `t`. -/
inductive Arrives {ι : Type} (body : ι → α → Exec σ ε (ForInStep α)) :
    List ι → α → σ → ι → α → σ → Prop where
  | here {i : ι} {is : List ι} {a : α} {s : σ} : Arrives body (i :: is) a s i a s
  | later {i j : ι} {is : List ι} {a b c : α} {s t u : σ} :
      runFrom (body i a) s = some (.ok (.yield b), t) → Arrives body is b t j c u →
      Arrives body (i :: is) a s j c u

/-- An invariant that each iteration keeps when it goes on holds wherever the loop
comes to. -/
theorem Arrives.invariant {ι : Type} {body : ι → α → Exec σ ε (ForInStep α)}
    (next : List ι → α → σ → Prop)
    (keeps : ∀ i is a s, next (i :: is) a s → Ensures (body i a) s fun r s' =>
      ∀ b, r = .ok (.yield b) → next is b s')
    {is : List ι} {i : ι} {a b : α} {s t : σ} (arrives : Arrives body is a s i b t)
    (start : next is a s) : ∃ rest, next (i :: rest) b t := by
  induction arrives with
  | here => exact ⟨_, start⟩
  | later ran _ ih =>
      obtain ⟨r, s', run, went⟩ := keeps _ _ _ _ start
      rw [ran, Option.some.injEq, Prod.mk.injEq] at run
      obtain ⟨rfl, rfl⟩ := run
      exact ih (went _ rfl)

end Exec
