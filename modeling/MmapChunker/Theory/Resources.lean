import Mathlib.Data.Multiset.AddSub
import Mathlib.Data.Multiset.UnionInter
import Mathlib.Algebra.BigOperators.Group.List.Basic
import Mathlib.Algebra.Order.Group.Multiset
import MmapChunker.Theory.Exec

/-!
Resources that a program takes from a system and gives back.

A trace lists what was acquired and released, and what is held is a multiset. Two parties
make a trace: the system decides what an acquisition brings, and the program what it
releases. `Honest` is what the system promises, `Proper` is what the program owes.

`Turns a trace b` says of a part of a program that it owns `a` before and `b` after it. It
is stated for whatever else is held, so that parts compose (`Turns.append`) and what a part
does not own is left alone. `Acts` is the same for a computation that records a trace, with
one rule for each way to build it.
-/

namespace Resources

variable {ρ : Type} [DecidableEq ρ]

/-- What happens to a resource. -/
inductive Action (ρ : Type) where
  | acquired (r : ρ)
  | released (r : ρ)
  deriving Repr, DecidableEq

/-- What is held after an action. -/
def hold (held : Multiset ρ) : Action ρ → Multiset ρ
  | .acquired r => r ::ₘ held
  | .released r => held.erase r

/-- What is held after a trace. -/
def after (held : Multiset ρ) (trace : List (Action ρ)) : Multiset ρ := trace.foldl hold held

/-- A property of every action of a trace and of what is held before it. -/
def Along (p : Multiset ρ → Action ρ → Prop) : Multiset ρ → List (Action ρ) → Prop
  | _, [] => True
  | held, action :: rest => p held action ∧ Along p (hold held action) rest

/-- An acquisition brings what `grants` allows. -/
def Granted (grants : Multiset ρ → ρ → Prop) (held : Multiset ρ) : Action ρ → Prop
  | .acquired r => grants held r
  | .released _ => True

/-- A release gives back what is held. -/
def Owed (held : Multiset ρ) : Action ρ → Prop
  | .acquired _ => True
  | .released r => r ∈ held

/-- The system keeps its promise. -/
def Honest (grants : Multiset ρ → ρ → Prop) (trace : List (Action ρ)) : Prop :=
  Along (Granted grants) 0 trace

/-- The program keeps its own. -/
def Proper (trace : List (Action ρ)) : Prop := Along Owed 0 trace

section Traces

variable {p : Multiset ρ → Action ρ → Prop} {held : Multiset ρ} {trace more : List (Action ρ)}

theorem after_append : after held (trace ++ more) = after (after held trace) more :=
  List.foldl_append

theorem along_append_iff :
    Along p held (trace ++ more) ↔ Along p held trace ∧ Along p (after held trace) more := by
  induction trace generalizing held with
  | nil => exact ⟨fun along => ⟨trivial, along⟩, fun both => both.2⟩
  | cons action trace ih =>
      change p held action ∧ Along p (hold held action) (trace ++ more) ↔ _
      rw [ih, ← and_assoc]
      rfl

end Traces

/-! ### Parts of a program -/

/-- The part owns `a` before its trace and `b` after it, whatever else is held. -/
def Turns (a : Multiset ρ) (trace : List (Action ρ)) (b : Multiset ρ) : Prop :=
  ∀ others, Along Owed (a + others) trace ∧ after (a + others) trace = b + others

section Turns

variable {a b c : Multiset ρ} {trace more : List (Action ρ)} {r : ρ}

theorem Turns.nil : Turns a [] a := fun _ => ⟨trivial, rfl⟩

theorem Turns.append (first : Turns a trace b) (second : Turns b more c) :
    Turns a (trace ++ more) c := by
  intro others
  obtain ⟨proper, middle⟩ := first others
  obtain ⟨properMore, last⟩ := second others
  constructor
  · apply along_append_iff.mpr
    rw [middle]
    exact ⟨proper, properMore⟩
  · rw [after_append, middle]
    exact last

theorem Turns.acquired : Turns a [.acquired r] (r ::ₘ a) :=
  fun others => ⟨⟨trivial, trivial⟩, (Multiset.cons_add r a others).symm⟩

theorem Turns.released : Turns (r ::ₘ a) [.released r] a := by
  intro others
  constructor
  · exact ⟨Multiset.mem_add.mpr (.inl (Multiset.mem_cons_self r a)), trivial⟩
  · change (r ::ₘ a + others).erase r = _
    rw [Multiset.cons_add, Multiset.erase_cons_head]

/-- What a part does not own is left alone. -/
theorem Turns.frame (turns : Turns a trace b) (c : Multiset ρ) : Turns (a + c) trace (b + c) := by
  intro others
  rw [add_assoc, add_assoc]
  exact turns (c + others)

end Turns

/-! ### Computations that record a trace -/

/-- The trace so far and what the answers of the system depend on. -/
structure Recorded (ρ ω : Type) where
  trace : List (Action ρ)
  world : ω
  deriving Repr, DecidableEq

/-- A computation that asks a system and records what it takes and gives back. -/
abbrev Sys (ρ ω : Type) : Type → Type := StateM (Recorded ρ ω)

section Sys

variable {ω α β : Type}

/-- A question to the system that takes nothing. -/
def ask (answer : ω → α × ω) : Sys ρ ω α := fun s =>
  let (a, next) := answer s.world
  (a, ⟨s.trace, next⟩)

/-- A request for a resource, which may be refused. -/
def acquire {ε : Type} (answer : ω → Except ε α × ω) (brings : α → ρ) : Sys ρ ω (Except ε α) :=
  fun s =>
    match answer s.world with
    | (.ok a, next) => (.ok a, ⟨s.trace ++ [.acquired (brings a)], next⟩)
    | (.error e, next) => (.error e, ⟨s.trace, next⟩)

/-- A request for a resource, which is never refused. -/
def take (answer : ω → α × ω) (brings : α → ρ) : Sys ρ ω α := fun s =>
  ((answer s.world).1, ⟨s.trace ++ [.acquired (brings (answer s.world).1)], (answer s.world).2⟩)

/-- A resource given back. -/
def release (r : ρ) : Sys ρ ω Unit := fun s => ((), ⟨s.trace ++ [.released r], s.world⟩)

/-- The computation owns `a` before and `post` of its value after it. -/
def Acts (x : Sys ρ ω α) (a : Multiset ρ) (post : α → Multiset ρ) : Prop :=
  ∀ s : Recorded ρ ω, ∃ trace, (x s).2.trace = s.trace ++ trace ∧ Turns a trace (post (x s).1)

/-- Every value of the computation is in `p`. -/
def Gives (x : Sys ρ ω α) (p : α → Prop) : Prop := ∀ s : Recorded ρ ω, p (x s).1

variable {x : Sys ρ ω α} {f : α → Sys ρ ω β} {a : Multiset ρ} {mid : α → Multiset ρ}
  {post : β → Multiset ρ}

theorem Acts.pure {post : α → Multiset ρ} {v : α} (eq : post v = a) :
    Acts (pure v : Sys ρ ω α) a post := by
  subst eq
  exact fun s => ⟨[], (List.append_nil s.trace).symm, Turns.nil⟩

/-- The next computation may rely on the value of the first. -/
theorem Acts.bind_of {p : α → Prop} (first : Acts x a mid) (gives : Gives x p)
    (next : ∀ v, p v → Acts (f v) (mid v) post) : Acts (x >>= f) a post := by
  intro s
  obtain ⟨trace, recorded, turns⟩ := first s
  obtain ⟨more, recordedMore, turnsMore⟩ := next (x s).1 (gives s) (x s).2
  refine ⟨trace ++ more, ?_, turns.append turnsMore⟩
  rw [← List.append_assoc, ← recorded]
  exact recordedMore

theorem Acts.bind (first : Acts x a mid) (next : ∀ v, Acts (f v) (mid v) post) :
    Acts (x >>= f) a post :=
  first.bind_of (p := fun _ => True) (fun _ => trivial) fun v _ => next v

theorem Acts.ask {answer : ω → α × ω} : Acts (ask answer : Sys ρ ω α) a fun _ => a :=
  fun s => ⟨[], (List.append_nil s.trace).symm, Turns.nil⟩

/-- What is owned besides `a` if a request was granted. -/
def gained {ε : Type} (a : Multiset ρ) (brings : α → ρ) : Except ε α → Multiset ρ
  | .ok v => brings v ::ₘ a
  | .error _ => a

theorem Acts.acquire {ε : Type} {answer : ω → Except ε α × ω} {brings : α → ρ} :
    Acts (acquire answer brings) a (gained a brings) := by
  intro s
  unfold Resources.acquire
  rcases answer s.world with ⟨e | v, next⟩
  · exact ⟨[], (List.append_nil s.trace).symm, Turns.nil⟩
  · exact ⟨[.acquired (brings v)], rfl, Turns.acquired⟩

theorem Acts.take {answer : ω → α × ω} {brings : α → ρ} :
    Acts (take answer brings) a fun v => brings v ::ₘ a :=
  fun _ => ⟨_, rfl, Turns.acquired⟩

theorem Acts.release {r : ρ} : Acts (release r : Sys ρ ω Unit) (r ::ₘ a) fun _ => a :=
  fun _ => ⟨_, rfl, Turns.released⟩

/-- A computation that only asks the system. Nothing is left of one that panics. -/
def asking {ε : Type} (x : Exec ω ε α) : Sys ρ ω (Option (Except ε α)) := fun s =>
  match Exec.runFrom x s.world with
  | some (r, next) => (some r, ⟨s.trace, next⟩)
  | none => (none, s)

theorem Acts.asking {ε : Type} {x : Exec ω ε α} :
    Acts (asking x : Sys ρ ω _) a fun _ => a := by
  intro s
  refine ⟨[], ?_, Turns.nil⟩
  rw [List.append_nil]
  unfold Resources.asking
  split <;> rfl

/-- A computation over a state of its own and what was taken so far. One that panics leaves
both as they were. -/
def beside {σ ε : Type} (x : Exec (σ × Recorded ρ ω) ε α) (start : σ) :
    Sys ρ ω (Option (Except ε α) × σ) := fun s =>
  match Exec.runFrom x (start, s) with
  | some (r, last, s') => ((some r, last), s')
  | none => ((none, start), s)

/-- It owns what its state stands for. -/
theorem Acts.beside {σ ε : Type} {x : Exec (σ × Recorded ρ ω) ε α} {start : σ}
    (owned : σ → Multiset ρ)
    (turns : ∀ s, Exec.Ensures x (start, s) fun _ last =>
      ∃ more, last.2.trace = s.trace ++ more ∧ Turns (owned start) more (owned last.1)) :
    Acts (beside x start) (owned start) fun p => owned p.2 := by
  intro s
  obtain ⟨r, ⟨last, s'⟩, run, turned⟩ := turns s
  unfold Resources.beside
  rw [run]
  exact turned

/-- What a computation does not own is left alone. -/
theorem Acts.frame {post : α → Multiset ρ} (acts : Acts x a post) (c : Multiset ρ) :
    Acts x (a + c) fun v => post v + c := by
  intro s
  obtain ⟨trace, recorded, turns⟩ := acts s
  exact ⟨trace, recorded, turns.frame c⟩

/-- The trace is proper and leaves `held`. -/
structure Leaves (s : Recorded ρ ω) (held : Multiset ρ) : Prop where
  proper : Proper s.trace
  held_eq : after 0 s.trace = held

/-- A part that owns some of what is held turns that, and leaves the others alone. -/
theorem Leaves.turns {s s' : Recorded ρ ω} {b others : Multiset ρ} {trace : List (Action ρ)}
    (before : Leaves s (a + others)) (recorded : s'.trace = s.trace ++ trace)
    (turns : Turns a trace b) : Leaves s' (b + others) := by
  obtain ⟨proper, last⟩ := turns others
  constructor
  · rw [Proper, recorded]
    apply along_append_iff.mpr
    rw [before.held_eq]
    exact ⟨before.proper, proper⟩
  · rw [recorded, after_append, before.held_eq]
    exact last

theorem Acts.leaves {post : α → Multiset ρ} (acts : Acts x a post) {s : Recorded ρ ω}
    {others : Multiset ρ} (before : Leaves s (a + others)) :
    Leaves (x s).2 (post (x s).1 + others) := by
  obtain ⟨trace, recorded, turns⟩ := acts s
  exact before.turns recorded turns

omit [DecidableEq ρ] in
theorem Gives.pure {p : α → Prop} {v : α} (holds : p v) : Gives (pure v : Sys ρ ω α) p :=
  fun _ => holds

omit [DecidableEq ρ] in
theorem Gives.any : Gives x fun _ => True := fun _ => trivial

omit [DecidableEq ρ] in
theorem Gives.bind {q : α → Prop} {p : β → Prop} (first : Gives x q)
    (next : ∀ v, q v → Gives (f v) p) : Gives (x >>= f) p :=
  fun s => next (x s).1 (first s) (x s).2

omit [DecidableEq ρ] in
theorem Gives.asking {ε : Type} {x : Exec ω ε α} {p : Option (Except ε α) → Prop}
    (ends : ∀ world, Exec.Ensures x world fun r _ => p (some r)) :
    Gives (asking x : Sys ρ ω _) p := by
  intro s
  obtain ⟨r, world, run, holds⟩ := ends s.world
  unfold Resources.asking
  rw [run]
  exact holds

omit [DecidableEq ρ] in
theorem Gives.beside {σ ε : Type} {x : Exec (σ × Recorded ρ ω) ε α} {start : σ}
    {p : Option (Except ε α) × σ → Prop}
    (ends : ∀ s, Exec.Ensures x (start, s) fun r last => p (some r, last.1)) :
    Gives (beside x start) p := by
  intro s
  obtain ⟨r, last, run, holds⟩ := ends s
  unfold Resources.beside
  rw [run]
  exact holds

end Sys

/-! ### Owners -/

section Owners

variable {ω κ α β : Type} [DecidableEq κ] {owned : κ → α → Multiset ρ} {live rest : List (κ × α)}
  {key : κ} {a : α}

/-- The first entry for a key, and what is left without it. -/
def takeOut : List (κ × α) → κ → Option (α × List (κ × α))
  | [], _ => none
  | entry :: live, key =>
      if entry.1 = key then some (entry.2, live)
      else (takeOut live key).map fun taken => (taken.1, entry :: taken.2)

/-- What all entries own. -/
def total (owned : κ → α → Multiset ρ) (live : List (κ × α)) : Multiset ρ :=
  (live.map fun entry => owned entry.1 entry.2).sum

omit [DecidableEq ρ] [DecidableEq κ] in
theorem total_cons : total owned ((key, a) :: live) = owned key a + total owned live :=
  List.sum_cons

theorem mem_of_takeOut (found : takeOut live key = some (a, rest)) :
    (key, a) ∈ live ∧ ∀ entry ∈ rest, entry ∈ live := by
  induction live generalizing rest with
  | nil => cases found
  | cons entry live ih =>
      rw [takeOut] at found
      split at found
      · rename_i same
        cases found
        subst same
        exact ⟨List.mem_cons_self, fun _ mem => List.mem_cons_of_mem _ mem⟩
      · obtain ⟨taken, foundRest, eq⟩ := Option.map_eq_some_iff.mp found
        cases eq
        obtain ⟨here, kept⟩ := ih foundRest
        refine ⟨List.mem_cons_of_mem _ here, fun e mem => ?_⟩
        rcases List.mem_cons.mp mem with rfl | mem
        · exact List.mem_cons_self
        · exact List.mem_cons_of_mem _ (kept e mem)

omit [DecidableEq ρ] in
theorem total_takeOut (found : takeOut live key = some (a, rest)) :
    total owned live = owned key a + total owned rest := by
  induction live generalizing rest with
  | nil => cases found
  | cons entry live ih =>
      rw [takeOut] at found
      split at found
      · rename_i same
        cases found
        subst same
        exact List.sum_cons
      · obtain ⟨taken, foundRest, eq⟩ := Option.map_eq_some_iff.mp found
        cases eq
        rw [total, List.map_cons, List.sum_cons, ← total, ih foundRest, ← add_assoc,
          add_comm (owned entry.1 entry.2), add_assoc]
        rfl

omit [DecidableEq ρ] [DecidableEq κ] in
/-- What one entry owns is a part of what all own. -/
theorem mem_total {r : ρ} {entry : κ × α} (mem : entry ∈ live) (owns : r ∈ owned entry.1 entry.2) :
    r ∈ total owned live := by
  obtain ⟨before, behind, rfl⟩ := List.append_of_mem mem
  rw [total, List.map_append, List.sum_append, List.map_cons, List.sum_cons]
  exact Multiset.mem_add.mpr (.inr (Multiset.mem_add.mpr (.inl owns)))

end Owners

/-! ### What is held apart -/

/-- No resource is held twice, and different ones are apart. -/
structure Separate (apart : ρ → ρ → Prop) (held : Multiset ρ) : Prop where
  nodup : held.Nodup
  apart : ∀ a ∈ held, ∀ b ∈ held, a ≠ b → apart a b

section Separate

variable {apart : ρ → ρ → Prop} {held : Multiset ρ} {trace : List (Action ρ)}

/-- A system that grants only what is apart from all that is held. -/
def Fresh (apart : ρ → ρ → Prop) (held : Multiset ρ) (r : ρ) : Prop :=
  r ∉ held ∧ ∀ q ∈ held, apart q r

theorem Separate.after (symmetric : ∀ a b, apart a b → apart b a) (separate : Separate apart held)
    (honest : Along (Granted (Fresh apart)) held trace) : Separate apart (after held trace) := by
  induction trace generalizing held with
  | nil => exact separate
  | cons action trace ih =>
      obtain ⟨granted, rest⟩ := honest
      refine ih ?_ rest
      cases action with
      | acquired r =>
          obtain ⟨new, away⟩ := granted
          refine ⟨Multiset.nodup_cons.mpr ⟨new, separate.nodup⟩, ?_⟩
          intro a memA b memB ne
          have oldOrA : a = r ∨ a ∈ held := Multiset.mem_cons.mp memA
          have oldOrB : b = r ∨ b ∈ held := Multiset.mem_cons.mp memB
          rcases oldOrA with newA | oldA
          · rcases oldOrB with newB | oldB
            · exact absurd (newA.trans newB.symm) ne
            · rw [newA]
              exact symmetric b r (away b oldB)
          · rcases oldOrB with newB | oldB
            · rw [newB]
              exact away a oldA
            · exact separate.apart a oldA b oldB ne
      | released r =>
          refine ⟨separate.nodup.erase r, fun a memA b memB ne => ?_⟩
          exact separate.apart a (Multiset.mem_of_mem_erase memA) b
            (Multiset.mem_of_mem_erase memB) ne

/-- What is held of a system that grants only what is apart from all that is held is
apart. -/
theorem Honest.separate (symmetric : ∀ a b, apart a b → apart b a)
    (honest : Honest (Fresh apart) trace) : Separate apart (Resources.after 0 trace) :=
  Separate.after symmetric ⟨Multiset.nodup_zero, fun _ mem => absurd mem (Multiset.notMem_zero _)⟩
    honest

end Separate

end Resources
