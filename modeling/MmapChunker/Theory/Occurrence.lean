import Mathlib.Data.List.Basic
import Mathlib.Data.Nat.Basic
import Mathlib.Order.Basic

/-!
Occurrences of a pattern in a list.

* `OccursAt pat xs i` says that the complete pattern stands at index `i`;
  `EndsAt pat xs e` that a complete occurrence ends right before `e`.
* `FirstAt P lo r` specifies a forward search: `r` is the least position at or
  after `lo` with `P`, or `none` when there is none. The specification is
  deterministic (`FirstAt.unique`), so two searches that meet it agree.
  `FirstIn` is the same for a window; a search that goes through windows one
  after the other is assembled with `FirstIn.extend`.
* `nextOcc` is the reference search, and `snapEnd` the least admissible cut for a
  target: the target itself when an occurrence ends there, else the end of the
  next occurrence, else the end of the list.
-/

namespace Occurrence

/-! ### Least positions -/

/-- The result of a forward search for `P` from `lo`. -/
def FirstAt (P : Nat → Prop) (lo : Nat) : Option Nat → Prop
  | some p => lo ≤ p ∧ P p ∧ ∀ q, lo ≤ q → q < p → ¬ P q
  | none => ∀ q, lo ≤ q → ¬ P q

namespace FirstAt

variable {P Q : Nat → Prop} {lo : Nat} {r r' : Option Nat}

theorem unique (h : FirstAt P lo r) (h' : FirstAt P lo r') : r = r' := by
  cases r with
  | none =>
      cases r' with
      | none => rfl
      | some p' => exact absurd h'.2.1 (h p' h'.1)
  | some p =>
      cases r' with
      | none => exact absurd h.2.1 (h' p h.1)
      | some p' =>
          have notLt : ¬ p < p' := fun lt => h'.2.2 p h.1 lt h.2.1
          have notGt : ¬ p' < p := fun gt => h.2.2 p' h'.1 gt h'.2.1
          rw [Nat.le_antisymm (Nat.not_lt.mp notGt) (Nat.not_lt.mp notLt)]

theorem congr (agree : ∀ q, lo ≤ q → (P q ↔ Q q)) (h : FirstAt P lo r) : FirstAt Q lo r := by
  cases r with
  | none => exact fun q le hq => h q le ((agree q le).mpr hq)
  | some p =>
      exact ⟨h.1, (agree p h.1).mp h.2.1, fun q le lt hq => h.2.2 q le lt ((agree q le).mpr hq)⟩

/-- Positions without `P` may be skipped. -/
theorem of_skip {hi : Nat} (le : lo ≤ hi) (skipped : ∀ q, lo ≤ q → q < hi → ¬ P q)
    (h : FirstAt P hi r) : FirstAt P lo r := by
  cases r with
  | none =>
      intro q leQ
      by_cases lt : q < hi
      · exact skipped q leQ lt
      · exact h q (Nat.not_lt.mp lt)
  | some p =>
      refine ⟨le.trans h.1, h.2.1, fun q leQ ltP => ?_⟩
      by_cases lt : q < hi
      · exact skipped q leQ lt
      · exact h.2.2 q (Nat.not_lt.mp lt) ltP

/-- The least position past a longer start, when the found one lies past it. -/
theorem of_le {mid : Nat} (le : lo ≤ mid) (past : ∀ p ∈ r, mid ≤ p) (h : FirstAt P lo r) :
    FirstAt P mid r := by
  cases r with
  | none => exact fun q leQ => h q (le.trans leQ)
  | some p => exact ⟨past p rfl, h.2.1, fun q leQ ltQ => h.2.2 q (le.trans leQ) ltQ⟩

/-- A search among shifted positions is a shifted search. -/
theorem shift {k : Nat} (h : FirstAt (fun i => P (k + i)) lo r) :
    FirstAt P (k + lo) (r.map (k + ·)) := by
  have back : ∀ q, k + lo ≤ q → k + (q - k) = q ∧ lo ≤ q - k := fun q le => by omega
  cases r with
  | none =>
      intro q le
      obtain ⟨eq, leLo⟩ := back q le
      simpa only [eq] using h (q - k) leLo
  | some p =>
      refine ⟨Nat.add_le_add_left h.1 k, h.2.1, fun q le lt => ?_⟩
      obtain ⟨eq, leLo⟩ := back q le
      have ltP : q - k < p := by
        change q < k + p at lt
        omega
      simpa only [eq] using h.2.2 (q - k) leLo ltP

end FirstAt

/-- The result of a forward search for `P` in the window `[lo, hi)`. -/
def FirstIn (P : Nat → Prop) (lo hi : Nat) : Option Nat → Prop
  | some p => lo ≤ p ∧ p < hi ∧ P p ∧ ∀ q, lo ≤ q → q < p → ¬ P q
  | none => ∀ q, lo ≤ q → q < hi → ¬ P q

namespace FirstIn

variable {P : Nat → Prop} {lo mid hi : Nat} {r : Option Nat}

/-- A window without a hit is followed by the rest of the search. -/
theorem extend (missed : FirstIn P lo mid none) (le : lo ≤ mid) (rest : FirstIn P mid hi r) :
    FirstIn P lo hi r := by
  have skipped : ∀ q, lo ≤ q → q < hi → (mid ≤ q → q < hi → ¬ P q) → ¬ P q := by
    intro q leQ ltQ later
    by_cases before : q < mid
    · exact missed q leQ before
    · exact later (Nat.not_lt.mp before) ltQ
  cases r with
  | none => exact fun q leQ ltQ => skipped q leQ ltQ (rest q)
  | some p =>
      obtain ⟨leP, ltP, hit, least⟩ := rest
      exact ⟨le.trans leP, ltP, hit, fun q leQ ltQ =>
        skipped q leQ (ltQ.trans ltP) fun leMid _ => least q leMid ltQ⟩

/-- A hit in a window is a hit in every longer window. -/
theorem widen {p : Nat} (hit : FirstIn P lo mid (some p)) (le : mid ≤ hi) :
    FirstIn P lo hi (some p) :=
  ⟨hit.1, hit.2.1.trans_le le, hit.2.2⟩

/-- A window search is a full search when nothing lies beyond the window. -/
theorem firstAt (found : FirstIn P lo hi r) (beyond : ∀ q, hi ≤ q → ¬ P q) : FirstAt P lo r := by
  cases r with
  | some p => exact ⟨found.1, found.2.2⟩
  | none =>
      intro q le
      by_cases inside : q < hi
      · exact found q le inside
      · exact beyond q (Nat.not_lt.mp inside)

end FirstIn

/-- Bounded search: the least position of `[lo, lo + n)` with `P`. -/
def findFrom (P : Nat → Prop) [DecidablePred P] (lo : Nat) : Nat → Option Nat
  | 0 => none
  | n + 1 => if P lo then some lo else findFrom P (lo + 1) n

theorem findFrom_spec (P : Nat → Prop) [DecidablePred P] (lo n : Nat) :
    FirstIn P lo (lo + n) (findFrom P lo n) := by
  induction n generalizing lo with
  | zero => exact fun q le lt => absurd lt (Nat.not_lt.mpr le)
  | succ n ih =>
      simp only [findFrom]
      split
      · rename_i here
        exact ⟨le_rfl, by omega, here, fun q le lt => absurd lt (Nat.not_lt.mpr le)⟩
      · rename_i notHere
        have missed : FirstIn P lo (lo + 1) none := fun q le lt => by
          rw [show q = lo by omega]
          exact notHere
        have rest := ih (lo + 1)
        rw [Nat.add_right_comm] at rest
        exact missed.extend (Nat.le_succ lo) rest

/-! ### Occurrences of a pattern -/

variable {α : Type*}

/-- The complete pattern stands at index `i`. -/
def OccursAt (pat xs : List α) (i : Nat) : Prop := pat <+: xs.drop i

/-- A complete occurrence ends right before index `e`. -/
def EndsAt (pat xs : List α) (e : Nat) : Prop :=
  pat.length ≤ e ∧ OccursAt pat xs (e - pat.length)

instance [DecidableEq α] (pat xs : List α) (i : Nat) : Decidable (OccursAt pat xs i) := by
  unfold OccursAt; infer_instance

instance [DecidableEq α] (pat xs : List α) (e : Nat) : Decidable (EndsAt pat xs e) := by
  unfold EndsAt; infer_instance

section Facts

variable {pat xs : List α} {i k n e : Nat}

theorem OccursAt.le_length (ne : pat ≠ []) (occurs : OccursAt pat xs i) :
    i + pat.length ≤ xs.length := by
  have le := occurs.length_le
  have pos := List.length_pos_of_ne_nil ne
  rw [List.length_drop] at le
  omega

theorem occursAt_iff_take : OccursAt pat xs i ↔ (xs.drop i).take pat.length = pat := by
  rw [OccursAt, List.prefix_iff_eq_take]
  exact eq_comm

theorem occursAt_drop : OccursAt pat (xs.drop k) i ↔ OccursAt pat xs (k + i) := by
  rw [OccursAt, OccursAt, List.drop_drop]

/-- Whether the pattern stands at `i` is decided by the elements before its end. -/
theorem occursAt_take (le : i + pat.length ≤ n) :
    OccursAt pat (xs.take n) i ↔ OccursAt pat xs i := by
  rw [OccursAt, OccursAt, List.drop_take, List.prefix_take_iff]
  exact and_iff_left (by omega)

theorem occursAt_append_left {ys : List α} (le : i + pat.length ≤ xs.length) :
    OccursAt pat (xs ++ ys) i ↔ OccursAt pat xs i := by
  have inPrefix : OccursAt pat ((xs ++ ys).take xs.length) i ↔ OccursAt pat (xs ++ ys) i :=
    occursAt_take le
  rw [← inPrefix, List.take_left]

theorem occursAt_append_right {ys : List α} :
    OccursAt pat (xs ++ ys) (xs.length + i) ↔ OccursAt pat ys i := by
  rw [← occursAt_drop, List.drop_left]

theorem occursAt_singleton {x : α} : OccursAt [x] xs i ↔ xs[i]? = some x := by
  rw [occursAt_iff_take, List.length_singleton, List.take_one, List.head?_drop]
  cases xs[i]? <;> simp

/-- Where a pattern stands, its first element stands. -/
theorem OccursAt.head {x : α} (occurs : OccursAt (x :: pat) xs i) : OccursAt [x] xs i :=
  (show [x] <+: x :: pat from ⟨pat, rfl⟩).trans occurs

theorem endsAt_add : EndsAt pat xs (i + pat.length) ↔ OccursAt pat xs i := by
  rw [EndsAt, Nat.add_sub_cancel]
  exact and_iff_right (Nat.le_add_left _ _)

theorem endsAt_iff_exists : EndsAt pat xs e ↔ ∃ i, OccursAt pat xs i ∧ i + pat.length = e := by
  constructor
  · rintro ⟨le, occurs⟩
    exact ⟨e - pat.length, occurs, Nat.sub_add_cancel le⟩
  · rintro ⟨i, occurs, rfl⟩
    exact endsAt_add.mpr occurs

theorem EndsAt.le_length (ne : pat ≠ []) (ends : EndsAt pat xs e) : e ≤ xs.length := by
  obtain ⟨i, occurs, rfl⟩ := endsAt_iff_exists.mp ends
  exact occurs.le_length ne

theorem EndsAt.pos (ne : pat ≠ []) (ends : EndsAt pat xs e) : 0 < e :=
  (List.length_pos_of_ne_nil ne).trans_le ends.1

theorem endsAt_take (le : e ≤ n) : EndsAt pat (xs.take n) e ↔ EndsAt pat xs e := by
  unfold EndsAt
  refine and_congr_right fun short => occursAt_take ?_
  omega

/-- An occurrence whose start is not before `k` is an occurrence in the rest. -/
theorem endsAt_drop (le : pat.length ≤ e) : EndsAt pat (xs.drop k) e ↔ EndsAt pat xs (k + e) := by
  unfold EndsAt
  rw [occursAt_drop, Nat.add_sub_assoc le]
  exact and_congr_left fun _ => ⟨fun h => h.trans (Nat.le_add_left e k), fun _ => le⟩

end Facts

/-! ### The reference search and the snap -/

section Search

variable [DecidableEq α]

/-- The least index at or after `lo` at which the pattern stands. -/
def nextOcc (pat xs : List α) (lo : Nat) : Option Nat :=
  findFrom (OccursAt pat xs) lo (xs.length - lo)

/-- The least admissible cut at or after the target `t`, if the list has one: the
target itself when an occurrence ends there, else the end of the next occurrence
that starts at or after the target. -/
def snapEnd? (pat xs : List α) (t : Nat) : Option Nat :=
  if EndsAt pat xs t then some t else (nextOcc pat xs t).map (· + pat.length)

/-- The cut of target `t`: an admissible one, else the end of the list. -/
def snapEnd (pat xs : List α) (t : Nat) : Nat :=
  (snapEnd? pat xs t).getD xs.length

variable {pat xs : List α} {lo t : Nat}

theorem nextOcc_spec (ne : pat ≠ []) (xs : List α) (lo : Nat) :
    FirstAt (OccursAt pat xs) lo (nextOcc pat xs lo) := by
  refine (findFrom_spec _ lo _).firstAt fun q le occurs => ?_
  have := occurs.le_length ne
  have := List.length_pos_of_ne_nil ne
  omega

/-- Every search that meets the specification returns what `nextOcc` returns. -/
theorem nextOcc_eq_of_firstAt (ne : pat ≠ []) {r : Option Nat}
    (first : FirstAt (OccursAt pat xs) lo r) : nextOcc pat xs lo = r :=
  (nextOcc_spec ne xs lo).unique first

/-- Positions without an occurrence may be skipped. -/
theorem nextOcc_skip (ne : pat ≠ []) {hi : Nat} (le : lo ≤ hi)
    (missed : FirstIn (OccursAt pat xs) lo hi none) : nextOcc pat xs lo = nextOcc pat xs hi :=
  nextOcc_eq_of_firstAt ne ((nextOcc_spec ne xs hi).of_skip le missed)

theorem nextOcc_next (ne : pat ≠ []) (missed : ¬ OccursAt pat xs lo) :
    nextOcc pat xs lo = nextOcc pat xs (lo + 1) := by
  apply nextOcc_skip ne (Nat.le_succ lo)
  intro q le lt
  obtain rfl : q = lo := by omega
  exact missed

/-- The search stops at once at an occurrence. -/
theorem nextOcc_here (ne : pat ≠ []) (occurs : OccursAt pat xs lo) : nextOcc pat xs lo = some lo :=
  nextOcc_eq_of_firstAt ne ⟨le_rfl, occurs, fun _ le lt => absurd lt (Nat.not_lt.mpr le)⟩

theorem nextOcc_drop (ne : pat ≠ []) (xs : List α) (k lo : Nat) :
    nextOcc pat xs (k + lo) = (nextOcc pat (xs.drop k) lo).map (k + ·) := by
  refine nextOcc_eq_of_firstAt ne (FirstAt.shift ?_)
  exact (nextOcc_spec ne (xs.drop k) lo).congr fun q _ => occursAt_drop

/-- Nothing stands past the last index at which the pattern fits. -/
theorem nextOcc_eq_none (ne : pat ≠ []) (past : xs.length < lo + pat.length) :
    nextOcc pat xs lo = none := by
  refine nextOcc_eq_of_firstAt ne fun q le occurs => ?_
  have := occurs.le_length ne
  omega

/-- A search in the window `[offset, offset + want)` is a search of the whole list
among the places where the pattern still fits the window. -/
theorem firstIn_window (ne : pat ≠ []) (xs : List α) (offset want : Nat) :
    FirstIn (OccursAt pat xs) offset (offset + want + 1 - pat.length)
      ((nextOcc pat ((xs.drop offset).take want) 0).map (offset + ·)) := by
  have patPos := List.length_pos_of_ne_nil ne
  have inWindow : ∀ q, q + pat.length ≤ want →
      (OccursAt pat ((xs.drop offset).take want) q ↔ OccursAt pat xs (offset + q)) := fun q le =>
    (occursAt_take le).trans occursAt_drop
  have local_of : ∀ q, offset ≤ q → q + pat.length ≤ offset + want → OccursAt pat xs q →
      OccursAt pat ((xs.drop offset).take want) (q - offset) := by
    intro q le fits occurs
    rw [inWindow (q - offset) (by omega), Nat.add_sub_cancel' le]
    exact occurs
  have first := nextOcc_spec ne ((xs.drop offset).take want) 0
  cases found : nextOcc pat ((xs.drop offset).take want) 0 with
  | none =>
      rw [found] at first
      exact fun q le lt occurs => first _ (Nat.zero_le _) (local_of q le (by omega) occurs)
  | some p =>
      rw [found] at first
      obtain ⟨_, occurs, least⟩ := first
      have fits : p + pat.length ≤ want :=
        (occurs.le_length ne).trans (List.length_take_le _ _)
      change FirstIn _ _ _ (some (offset + p))
      refine ⟨Nat.le_add_right _ _, by omega, (inWindow p fits).mp occurs, ?_⟩
      exact fun q le lt occursQ =>
        least (q - offset) (Nat.zero_le _) (by omega) (local_of q le (by omega) occursQ)

/-- A hit in a window is a hit of the whole search. -/
theorem nextOcc_of_window_hit (ne : pat ≠ []) {offset want p : Nat}
    (hit : nextOcc pat ((xs.drop offset).take want) 0 = some p) :
    nextOcc pat xs offset = some (offset + p) := by
  have inWindow := firstIn_window ne xs offset want
  rw [hit] at inWindow
  have first : FirstAt (OccursAt pat xs) offset (some (offset + p)) := ⟨inWindow.1, inWindow.2.2⟩
  exact nextOcc_eq_of_firstAt ne first

/-- A miss in a window that reaches the end is a miss of the whole search. -/
theorem nextOcc_of_last_window (ne : pat ≠ []) {offset want : Nat}
    (miss : nextOcc pat ((xs.drop offset).take want) 0 = none) (last : xs.length ≤ offset + want) :
    nextOcc pat xs offset = none := by
  have inWindow := firstIn_window ne xs offset want
  rw [miss] at inWindow
  refine nextOcc_eq_of_firstAt ne (FirstIn.firstAt inWindow fun q le occurs => ?_)
  have := occurs.le_length ne
  have := List.length_pos_of_ne_nil ne
  omega

/-- After a miss the search goes on at the first place where the pattern did not fit
the window. -/
theorem nextOcc_of_window_miss (ne : pat ≠ []) {offset want : Nat}
    (miss : nextOcc pat ((xs.drop offset).take want) 0 = none) (fits : pat.length ≤ want) :
    nextOcc pat xs offset = nextOcc pat xs (offset + (want + 1 - pat.length)) := by
  have inWindow := firstIn_window ne xs offset want
  rw [miss] at inWindow
  exact nextOcc_skip ne (by omega) fun q le lt => inWindow q le (by omega)

theorem snapEnd?_of_endsAt (ends : EndsAt pat xs t) : snapEnd? pat xs t = some t := by
  rw [snapEnd?, if_pos ends]

theorem snapEnd?_of_not_endsAt (notEnds : ¬ EndsAt pat xs t) :
    snapEnd? pat xs t = (nextOcc pat xs t).map (· + pat.length) := by
  rw [snapEnd?, if_neg notEnds]

/-- An admissible cut is the end of an occurrence and not behind the target. -/
theorem snapEnd?_some (ne : pat ≠ []) {b : Nat} (found : snapEnd? pat xs t = some b) :
    EndsAt pat xs b ∧ t ≤ b := by
  by_cases ends : EndsAt pat xs t
  · rw [snapEnd?_of_endsAt ends, Option.some.injEq] at found
    exact found ▸ ⟨ends, le_rfl⟩
  · rw [snapEnd?_of_not_endsAt ends, Option.map_eq_some_iff] at found
    obtain ⟨p, next, rfl⟩ := found
    have first := nextOcc_spec ne xs t
    rw [next] at first
    exact ⟨endsAt_add.mpr first.2.1, first.1.trans (Nat.le_add_right p _)⟩

/-- A delimiter of one element ends wherever it starts, so its snap is the least
admissible position. -/
theorem snapEnd?_singleton (x : α) (xs : List α) (t : Nat) :
    FirstAt (EndsAt [x] xs) t (snapEnd? [x] xs t) := by
  have ne : [x] ≠ [] := List.cons_ne_nil x []
  by_cases ends : EndsAt [x] xs t
  · rw [snapEnd?_of_endsAt ends]
    exact ⟨le_rfl, ends, fun q le lt => absurd lt (Nat.not_lt.mpr le)⟩
  · have started : ∀ q, t ≤ q → EndsAt [x] xs q → t ≤ q - 1 ∧ OccursAt [x] xs (q - 1) := by
      intro q le endsQ
      have differs : q ≠ t := fun same => ends (same ▸ endsQ)
      exact ⟨by omega, endsQ.2⟩
    have first := nextOcc_spec ne xs t
    rw [snapEnd?_of_not_endsAt ends]
    cases found : nextOcc [x] xs t with
    | none =>
        rw [found] at first
        intro q le endsQ
        obtain ⟨le', occurs⟩ := started q le endsQ
        exact first (q - 1) le' occurs
    | some p =>
        rw [found] at first
        obtain ⟨after, occurs, least⟩ := first
        refine ⟨after.trans (Nat.le_add_right p _), endsAt_add.mpr occurs, fun q le lt endsQ => ?_⟩
        obtain ⟨le', occursQ⟩ := started q le endsQ
        have pos := endsQ.pos ne
        change q < p + 1 at lt
        exact least (q - 1) le' (by omega) occursQ

/-- Between a target and its cut a delimiter of one element sends every position to
that cut. -/
theorem snapEnd_singleton_absorbs {x : α} {t' : Nat} (le : t ≤ t')
    (le' : t' ≤ snapEnd [x] xs t) :
    snapEnd [x] xs t' = snapEnd [x] xs t := by
  have first := snapEnd?_singleton x xs t
  have past : ∀ p ∈ snapEnd? [x] xs t, t' ≤ p := by
    intro p mem
    rw [snapEnd, Option.mem_def.mp mem] at le'
    exact le'
  rw [snapEnd, snapEnd, (snapEnd?_singleton x xs t').unique (first.of_le le past)]

/-- What stands before a list shifts the snap of a delimiter of one element. -/
theorem snapEnd_singleton_append_right (x : α) (pre ys : List α) (pos : 0 < t) :
    snapEnd [x] (pre ++ ys) (pre.length + t) = pre.length + snapEnd [x] ys t := by
  have shifted : FirstAt (EndsAt [x] (pre ++ ys)) (pre.length + t)
      ((snapEnd? [x] ys t).map (pre.length + ·)) := by
    apply FirstAt.shift
    refine (snapEnd?_singleton x ys t).congr fun q le => ?_
    have whole : EndsAt [x] ((pre ++ ys).drop pre.length) q ↔
        EndsAt [x] (pre ++ ys) (pre.length + q) := endsAt_drop (pos.trans_le le)
    rwa [List.drop_left] at whole
  rw [snapEnd, snapEnd, (snapEnd?_singleton x _ _).unique shifted, List.length_append]
  cases snapEnd? [x] ys t <;> rfl

/-- What stands after a list that ends with the delimiter does not change its snaps. -/
theorem snapEnd_singleton_append_left {x : α} (ys : List α) (ends : EndsAt [x] xs xs.length)
    (le : t ≤ xs.length) : snapEnd [x] (xs ++ ys) t = snapEnd [x] xs t := by
  have same : ∀ q, q ≤ xs.length → (EndsAt [x] (xs ++ ys) q ↔ EndsAt [x] xs q) := by
    intro q leQ
    have cut : EndsAt [x] ((xs ++ ys).take xs.length) q ↔ EndsAt [x] (xs ++ ys) q :=
      endsAt_take leQ
    rw [List.take_left] at cut
    exact cut.symm
  have first := snapEnd?_singleton x xs t
  cases found : snapEnd? [x] xs t with
  | none =>
      rw [found] at first
      exact absurd ends (first _ le)
  | some p =>
      rw [found] at first
      obtain ⟨after, endsP, least⟩ := first
      have inside := endsP.le_length (List.cons_ne_nil _ _)
      have first' : FirstAt (EndsAt [x] (xs ++ ys)) t (some p) := by
        refine ⟨after, (same p inside).mpr endsP, fun q leQ lt endsQ => ?_⟩
        exact least q leQ lt ((same q (lt.le.trans inside)).mp endsQ)
      rw [snapEnd, snapEnd, (snapEnd?_singleton x _ _).unique first', found]
      rfl

theorem le_snapEnd (ne : pat ≠ []) (inside : t ≤ xs.length) : t ≤ snapEnd pat xs t := by
  rw [snapEnd]
  cases found : snapEnd? pat xs t with
  | none => exact inside
  | some b => exact (snapEnd?_some ne found).2

theorem snapEnd_le (ne : pat ≠ []) (xs : List α) (t : Nat) : snapEnd pat xs t ≤ xs.length := by
  rw [snapEnd]
  cases found : snapEnd? pat xs t with
  | none => exact le_rfl
  | some b => exact (snapEnd?_some ne found).1.le_length ne

/-- A cut before the end of the list is the end of an occurrence. -/
theorem endsAt_snapEnd (ne : pat ≠ []) (interior : snapEnd pat xs t < xs.length) :
    EndsAt pat xs (snapEnd pat xs t) := by
  rw [snapEnd] at interior ⊢
  cases found : snapEnd? pat xs t with
  | none =>
      rw [found] at interior
      exact absurd interior (Nat.lt_irrefl _)
  | some b => exact (snapEnd?_some ne found).1

end Search

end Occurrence
