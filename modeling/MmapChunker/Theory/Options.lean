import Mathlib.Data.List.Induction

/-!
Scanning a command line.

A command line is a list of tokens. A token that names an option takes the next token as
its value; any other token is an argument of its own. The scanner keeps what it has read
in an accumulator and stops at the first token it cannot take.

* `scan_ok_iff` says what the scanner accepts: the command line is a sequence of words, and
  the accumulator is what the words leave, one after the other.
* `Fills.values` is the rule for one option: what the accumulator keeps for it is its one
  value, if it was given. `Fills.step` is the converse: an option that is given once, with
  a value that can be read, is accepted.
-/

namespace Options

variable {τ γ ε : Type}

/-- An option with a value: its name, whether it has been given, what is said when it is
given again or without a value, and what its value does. -/
structure Spec (τ γ ε : Type) where
  name : τ
  seen : γ → Bool
  duplicate : ε
  missing : ε
  apply : τ → γ → Except ε γ

section Scan

variable [DecidableEq τ]

/-- The option that a token names. -/
def named (specs : List (Spec τ γ ε)) (token : τ) : Option (Spec τ γ ε) :=
  specs.find? fun spec => spec.name = token

/-- The options one after the other, and what `positional` makes of the other tokens. -/
def scan (specs : List (Spec τ γ ε)) (positional : τ → γ → Except ε γ) :
    List τ → γ → Except ε γ
  | [], c => .ok c
  | token :: rest, c =>
      match named specs token with
      | some spec =>
          if spec.seen c then .error spec.duplicate
          else
            match rest with
            | [] => .error spec.missing
            | value :: rest => do
                let c ← spec.apply value c
                scan specs positional rest c
      | none => do
          let c ← positional token c
          scan specs positional rest c

/-- A word of a command line. -/
inductive Word (τ : Type) where
  | option (name value : τ)
  | positional (token : τ)
  deriving Repr, DecidableEq

namespace Word

/-- The tokens of a word. -/
def tokens : Word τ → List τ
  | option name value => [name, value]
  | positional token => [token]

/-- The word is one of the command line: its option exists, or its token names none. -/
def Fits (specs : List (Spec τ γ ε)) : Word τ → Prop
  | option name _ => (named specs name).isSome
  | positional token => named specs token = none

/-- What a word does. -/
def run (specs : List (Spec τ γ ε)) (positional : τ → γ → Except ε γ) (c : γ) :
    Word τ → Except ε γ
  | option name value =>
      match named specs name with
      | some spec => if spec.seen c then .error spec.duplicate else spec.apply value c
      | none => .ok c
  | .positional token => positional token c

/-- The value of a word that gives one of the options `names`. -/
def value? (names : List τ) : Word τ → Option (τ × τ)
  | option name value => if name ∈ names then some (name, value) else none
  | positional _ => none

/-- The token of a word that gives no option. -/
def positional? : Word τ → Option τ
  | option _ _ => none
  | positional token => some token

end Word

variable {specs : List (Spec τ γ ε)} {positional : τ → γ → Except ε γ} {c c' : γ}
  {args : List τ} {words : List (Word τ)}

theorem mem_of_named {token : τ} {spec : Spec τ γ ε} (found : named specs token = some spec) :
    spec ∈ specs ∧ spec.name = token :=
  ⟨List.mem_of_find?_eq_some found, by simpa using List.find?_some found⟩

theorem scan_positional {token : τ} (other : named specs token = none) :
    scan specs positional (token :: args) c =
      (positional token c).bind fun c => scan specs positional args c := by
  rw [scan, other]
  rfl

theorem scan_option {token value : τ} {spec : Spec τ γ ε} (found : named specs token = some spec)
    (fresh : spec.seen c = false) :
    scan specs positional (token :: value :: args) c =
      (spec.apply value c).bind fun c => scan specs positional args c := by
  rw [scan, found]
  simp only [fresh, Bool.false_eq_true, if_false]
  rfl

/-- What a command line of words leaves. -/
theorem scan_tokens (fit : ∀ word ∈ words, word.Fits specs)
    (ok : words.foldlM (Word.run specs positional) c = .ok c') :
    scan specs positional (words.flatMap Word.tokens) c = .ok c' := by
  induction words generalizing c with
  | nil => exact ok
  | cons word words ih =>
      have fits := fit word List.mem_cons_self
      have rest := fun w mem => fit w (List.mem_cons_of_mem word mem)
      rw [List.foldlM_cons] at ok
      rw [List.flatMap_cons]
      cases word with
      | option name value =>
          obtain ⟨spec, found⟩ := Option.isSome_iff_exists.mp fits
          simp only [Word.run, found] at ok
          cases fresh : spec.seen c with
          | true =>
              rw [fresh] at ok
              cases ok
          | false =>
              rw [fresh, if_neg Bool.false_ne_true] at ok
              cases here : spec.apply value c with
              | error e =>
                  rw [here] at ok
                  cases ok
              | ok d =>
                  rw [here] at ok
                  refine (scan_option found fresh).trans ?_
                  rw [here]
                  exact ih rest ok
      | positional token =>
          cases here : positional token c with
          | error e =>
              simp only [Word.run, here] at ok
              cases ok
          | ok d =>
              simp only [Word.run, here] at ok
              refine (scan_positional fits).trans ?_
              rw [here]
              exact ih rest ok

/-- A command line that is accepted consists of words. -/
theorem exists_words (ok : scan specs positional args c = .ok c') :
    ∃ words : List (Word τ), (∀ word ∈ words, word.Fits specs) ∧
      args = words.flatMap Word.tokens ∧
      words.foldlM (Word.run specs positional) c = .ok c' := by
  induction args, c using scan.induct specs with
  | case1 c => exact ⟨[], by simp, rfl, ok⟩
  | case2 token rest c spec found seen =>
      rw [scan, found] at ok
      simp only [seen, if_true] at ok
      cases ok
  | case3 token c spec found fresh =>
      rw [scan, found] at ok
      simp only [fresh] at ok
      cases ok
  | case4 token c spec found fresh value rest ih =>
      have fresh := Bool.eq_false_iff.mpr fresh
      rw [scan_option found fresh] at ok
      cases here : spec.apply value c with
      | error e =>
          rw [here] at ok
          cases ok
      | ok d =>
          rw [here] at ok
          obtain ⟨words, fit, rfl, folded⟩ := ih d ok
          refine ⟨.option token value :: words, ?_, rfl, ?_⟩
          · rintro word (_ | ⟨_, mem⟩)
            · exact Option.isSome_iff_exists.mpr ⟨spec, found⟩
            · exact fit word mem
          · rw [List.foldlM_cons]
            simp only [Word.run, found, fresh, Bool.false_eq_true, if_false, here]
            exact folded
  | case5 token rest c other ih =>
      rw [scan_positional other] at ok
      cases here : positional token c with
      | error e =>
          rw [here] at ok
          cases ok
      | ok d =>
          rw [here] at ok
          obtain ⟨words, fit, rfl, folded⟩ := ih d ok
          refine ⟨.positional token :: words, ?_, rfl, ?_⟩
          · rintro word (_ | ⟨_, mem⟩)
            · exact other
            · exact fit word mem
          · rw [List.foldlM_cons]
            simp only [Word.run, here]
            exact folded

/-- The scanner accepts the command lines that are sequences of words, each of which does
its part. -/
theorem scan_ok_iff : scan specs positional args c = .ok c' ↔
    ∃ words : List (Word τ), (∀ word ∈ words, word.Fits specs) ∧
      args = words.flatMap Word.tokens ∧
      words.foldlM (Word.run specs positional) c = .ok c' := by
  constructor
  · exact exists_words
  · rintro ⟨words, fit, rfl, ok⟩
    exact scan_tokens fit ok

/-! ### What an option keeps -/

/-- A command line whose words can all take their turn is accepted. -/
theorem exists_fold
    (steps : ∀ pre word post, words = pre ++ word :: post → ∀ d,
      pre.foldlM (Word.run specs positional) c = .ok d →
        ∃ e, Word.run specs positional d word = .ok e) :
    ∃ d, words.foldlM (Word.run specs positional) c = .ok d := by
  induction words using List.reverseRecOn with
  | nil => exact ⟨c, rfl⟩
  | append_singleton words word ih =>
      obtain ⟨d, before⟩ := ih fun pre w post eq => steps pre w (post ++ [word]) (by simp [eq])
      obtain ⟨e, here⟩ := steps words word [] rfl d before
      refine ⟨e, ?_⟩
      rw [List.foldlM_append, before]
      change (Word.run specs positional d word).bind _ = _
      rw [here]
      rfl

/-- The options `names` give what is in a slot: the one value they were given, or nothing. -/
def Gives {β : Type} (names : List τ) (read : τ × τ → Except ε β) (words : List (Word τ))
    (slot : Option β) : Prop :=
  (words.filterMap (Word.value? names)).map read = slot.toList.map .ok

/-- A slot that is given has one content. -/
theorem Gives.unique {β : Type} {names : List τ} {read : τ × τ → Except ε β} {slot slot' : Option β}
    (gives : Gives names read words slot) (gives' : Gives names read words slot') :
    slot = slot' := by
  have eq : slot.toList.map Except.ok = (slot'.toList.map .ok : List (Except ε β)) :=
    gives.symm.trans gives'
  cases slot <;> cases slot' <;> simp_all

/-- The options `names` fill one slot of the accumulator, once, and no other word does. -/
structure Fills {β : Type} (specs : List (Spec τ γ ε)) (positional : τ → γ → Except ε γ)
    (names : List τ) (read : τ × τ → Except ε β) (slot : γ → Option β) : Prop where
  taken : ∀ c c' name value, name ∈ names →
    Word.run specs positional c (.option name value) = .ok c' → slot c = none
  reads : ∀ c c' name value, name ∈ names →
    Word.run specs positional c (.option name value) = .ok c' →
      ∃ b, read (name, value) = .ok b ∧ slot c' = some b
  free : ∀ c name value b, name ∈ names → slot c = none → read (name, value) = .ok b →
    ∃ c', Word.run specs positional c (.option name value) = .ok c'
  keeps : ∀ c c' word, Word.value? names word = none →
    Word.run specs positional c word = .ok c' → slot c' = slot c

namespace Fills

variable {β : Type} {names : List τ} {read : τ × τ → Except ε β} {slot : γ → Option β}

theorem values_append (fills : Fills specs positional names read slot)
    (ok : words.foldlM (Word.run specs positional) c = .ok c') :
    (slot c).toList.map .ok ++ (words.filterMap (Word.value? names)).map read =
      (slot c').toList.map .ok := by
  induction words generalizing c with
  | nil =>
      cases ok
      simp
  | cons word words ih =>
      rw [List.foldlM_cons] at ok
      cases here : Word.run specs positional c word with
      | error e =>
          rw [here] at ok
          cases ok
      | ok d =>
          rw [here] at ok
          have rest := ih ok
          cases given : word.value? names with
          | none =>
              rw [List.filterMap_cons_none given, ← fills.keeps c d word given here]
              exact rest
          | some pair =>
              rw [List.filterMap_cons_some given]
              cases word with
              | positional token => cases given
              | option name value =>
                  rw [Word.value?] at given
                  split at given
                  · rename_i mem
                    cases given
                    obtain ⟨b, readOk, now⟩ := fills.reads c d name value mem here
                    rw [fills.taken c d name value mem here, List.map_cons, readOk]
                    rw [now] at rest
                    exact rest
                  · cases given

/-- The slot holds the value that was given, if one was. -/
theorem values (fills : Fills specs positional names read slot) (start : slot c = none)
    (ok : words.foldlM (Word.run specs positional) c = .ok c') :
    Gives names read words (slot c') := by
  have all := fills.values_append ok
  rwa [start] at all

/-- An option whose values are as its slot says can take its turn. -/
theorem step (fills : Fills specs positional names read slot) (start : slot c = none)
    {given : Option β} (eq : Gives names read words given) {pre post : List (Word τ)} {name value : τ}
    (split : words = pre ++ .option name value :: post) (mem : name ∈ names) {d : γ}
    (before : pre.foldlM (Word.run specs positional) c = .ok d) :
    ∃ e, Word.run specs positional d (.option name value) = .ok e := by
  have here : Word.value? names (.option name value) = some (name, value) := if_pos mem
  have earlier := fills.values start before
  rw [Gives] at earlier
  rw [Gives, split, List.filterMap_append, List.filterMap_cons_some here, List.map_append,
    List.map_cons] at eq
  cases given with
  | none =>
      have := congrArg List.length eq
      simp at this
  | some b =>
      have short : (pre.filterMap (Word.value? names)).map read = [] := by
        apply List.eq_nil_of_length_eq_zero
        have lengths := congrArg List.length eq
        simp only [List.length_append, List.length_cons, Option.toList_some, List.map_cons,
          List.map_nil, List.length_nil] at lengths
        omega
      rw [short, List.nil_append, Option.toList_some, List.map_cons, List.cons.injEq] at eq
      rw [short] at earlier
      have fresh : slot d = none := by
        cases now : slot d with
        | none => rfl
        | some b' =>
            rw [now] at earlier
            cases earlier
      exact fills.free d name value b mem fresh eq.1

/-- A slot is filled by its own options if these refuse to fill it twice and nothing else
touches it. -/
theorem of_specs
    (own : ∀ name ∈ names, ∃ spec, named specs name = some spec ∧
      (∀ c, spec.seen c = (slot c).isSome) ∧ ∃ set : γ → β → γ, (∀ c b, slot (set c b) = some b) ∧
        ∀ value c, spec.apply value c = (read (name, value)).map (set c))
    (others : ∀ spec ∈ specs, spec.name ∉ names → ∀ value c c', spec.apply value c = .ok c' →
      slot c' = slot c)
    (rest : ∀ token c c', positional token c = .ok c' → slot c' = slot c) :
    Fills specs positional names read slot where
  taken c c' name value mem ran := by
    obtain ⟨spec, found, seen, _⟩ := own name mem
    simp only [Word.run, found, seen] at ran
    cases now : slot c with
    | none => rfl
    | some b =>
        rw [now] at ran
        cases ran
  reads c c' name value mem ran := by
    obtain ⟨spec, found, seen, set, slot_set, apply⟩ := own name mem
    simp only [Word.run, found, apply] at ran
    split at ran
    · cases ran
    · cases here : read (name, value) with
      | error e =>
          rw [here] at ran
          cases ran
      | ok b =>
          rw [here] at ran
          cases ran
          exact ⟨b, rfl, slot_set c b⟩
  free c name value b mem empty readOk := by
    obtain ⟨spec, found, seen, set, slot_set, apply⟩ := own name mem
    refine ⟨set c b, ?_⟩
    simp only [Word.run, found, apply, seen, empty, readOk]
    rfl
  keeps c c' word other ran := by
    cases word with
    | positional token => exact rest token c c' ran
    | option name value =>
        have notOwn : name ∉ names := by
          intro mem
          rw [Word.value?, if_pos mem] at other
          cases other
        cases found : named specs name with
        | none =>
            simp only [Word.run, found] at ran
            cases ran
            rfl
        | some spec =>
            obtain ⟨mem, eq⟩ := mem_of_named found
            simp only [Word.run, found] at ran
            split at ran
            · cases ran
            · exact others spec mem (eq ▸ notOwn) value c c' ran

end Fills

/-- The tokens that give no option are collected in order. -/
structure Collects (specs : List (Spec τ γ ε)) (positional : τ → γ → Except ε γ)
    (list : γ → List τ) : Prop where
  adds : ∀ c c' token, positional token c = .ok c' → list c' = list c ++ [token]
  keeps : ∀ c c', ∀ spec ∈ specs, ∀ value, spec.apply value c = .ok c' → list c' = list c

/-- What every option keeps, a word that gives one keeps. -/
theorem run_option_keeps {p : γ → Prop} {name value : τ}
    (options : ∀ spec ∈ specs, ∀ value c c', spec.apply value c = .ok c' → p c → p c')
    (ran : Word.run specs positional c (.option name value) = .ok c') (start : p c) : p c' := by
  simp only [Word.run] at ran
  split at ran
  · rename_i spec found
    split at ran
    · cases ran
    · exact options spec (mem_of_named found).1 value c c' ran start
  · cases ran
    exact start

/-- What every word keeps, a command line keeps. -/
theorem fold_keeps {p : γ → Prop} (start : p c)
    (options : ∀ spec ∈ specs, ∀ value c c', spec.apply value c = .ok c' → p c → p c')
    (rest : ∀ token c c', positional token c = .ok c' → p c → p c')
    (ok : words.foldlM (Word.run specs positional) c = .ok c') : p c' := by
  induction words generalizing c with
  | nil =>
      cases ok
      exact start
  | cons word words ih =>
      rw [List.foldlM_cons] at ok
      cases here : Word.run specs positional c word with
      | error e =>
          rw [here] at ok
          cases ok
      | ok d =>
          rw [here] at ok
          refine ih ?_ ok
          cases word with
          | positional token => exact rest token c d here start
          | option name value => exact run_option_keeps options here start

/-- Every token that gives no option has been taken. -/
theorem positional_of_fold (ok : words.foldlM (Word.run specs positional) c = .ok c') {token : τ}
    (mem : token ∈ words.filterMap Word.positional?) :
    ∃ d d', positional token d = .ok d' := by
  induction words generalizing c with
  | nil => cases mem
  | cons word words ih =>
      rw [List.foldlM_cons] at ok
      cases here : Word.run specs positional c word with
      | error e =>
          rw [here] at ok
          cases ok
      | ok d =>
          rw [here] at ok
          cases word with
          | option name value => exact ih ok mem
          | positional first =>
              rcases List.mem_cons.mp mem with rfl | later
              · exact ⟨c, d, here⟩
              · exact ih ok later

theorem Collects.values {list : γ → List τ} (collects : Collects specs positional list)
    (ok : words.foldlM (Word.run specs positional) c = .ok c') :
    list c' = list c ++ words.filterMap Word.positional? := by
  induction words generalizing c with
  | nil =>
      cases ok
      simp
  | cons word words ih =>
      rw [List.foldlM_cons] at ok
      cases here : Word.run specs positional c word with
      | error e =>
          rw [here] at ok
          cases ok
      | ok d =>
          rw [here] at ok
          rw [ih ok]
          cases word with
          | positional token =>
              rw [collects.adds c d token here, List.append_assoc]
              rfl
          | option name value =>
              have kept : list d = list c := run_option_keeps (p := fun d => list d = list c)
                (fun spec mem value c c' ran eq => (collects.keeps c c' spec mem value ran).trans eq)
                here rfl
              rw [kept]
              rfl

end Scan

end Options
