import Mathlib.Algebra.GroupWithZero.Nat
import Mathlib.Data.List.Basic
import Mathlib.Data.Nat.Basic
import Mathlib.Order.Basic

/-!
64-bit machine values and byte slices.

Machine integers are naturals; an operation that can leave its range says what
happens there. Saturating and wrapping operations are total; a checked operation
is `none` where it overflows.

A `Slice` is a borrowed byte array: its start address, its bytes, and the bound
every allocation respects. Indexing and sub-slicing are bounds-checked, and
`none` is the panic of a failed check. `Slice.tail` and `Slice.window` are the
total operations behind the checked ones.
-/

namespace Machine

/-! ### Integers -/

/-- `usize::MAX` on a 64-bit target, also `u64::MAX`. -/
def usizeMax : Nat := 2 ^ 64 - 1

/-- `isize::MAX`, the largest size of one allocation. -/
def isizeMax : Nat := 2 ^ 63 - 1

/-- `a.saturating_add(b)` on `usize` or `u64`. -/
def saturatingAdd (a b : Nat) : Nat := min (a + b) usizeMax

/-- `a.saturating_mul(b)` on `usize`. -/
def saturatingMul (a b : Nat) : Nat := min (a * b) usizeMax

/-- `a + b` on `u64` with the overflow check: `none` is the overflow panic. -/
def addU64 (a b : Nat) : Option Nat := if a + b ≤ usizeMax then some (a + b) else none

/-- `a - b` on an unsigned integer with the underflow check. -/
def subU64 (a b : Nat) : Option Nat := if b ≤ a then some (a - b) else none

/-- The product of two `u128` values, wrapped at 128 bits. -/
def mulU128 (a b : Nat) : Nat := a * b % 2 ^ 128

/-- `x as usize`. -/
def asUsize (x : Nat) : Nat := x % 2 ^ 64

theorem mulU128_eq {a b : Nat} (smallA : a ≤ usizeMax) (smallB : b ≤ usizeMax) :
    mulU128 a b = a * b := by
  have le : a * b ≤ usizeMax * usizeMax := Nat.mul_le_mul smallA smallB
  exact Nat.mod_eq_of_lt (le.trans_lt (by decide))

theorem asUsize_eq {x : Nat} (small : x ≤ usizeMax) : asUsize x = x := by
  refine Nat.mod_eq_of_lt ?_
  have : usizeMax < 2 ^ 64 := by decide
  omega

theorem isizeMax_lt_usizeMax : isizeMax < usizeMax := by decide

/-- A saturating sum clamped by a machine value is the exact sum clamped. -/
theorem min_saturatingAdd {a b c : Nat} (small : c ≤ usizeMax) :
    min (saturatingAdd a b) c = min (a + b) c := by
  unfold saturatingAdd
  omega

/-- The same through two saturating additions. -/
theorem min_saturatingAdd_saturatingAdd {a b c d : Nat} (small : d ≤ usizeMax) :
    min (saturatingAdd (saturatingAdd a b) c) d = min (a + b + c) d := by
  unfold saturatingAdd
  omega

theorem saturatingAdd_eq {a b : Nat} (small : a + b ≤ usizeMax) : saturatingAdd a b = a + b :=
  Nat.min_eq_left small

theorem addU64_eq {a b : Nat} (small : a + b ≤ usizeMax) : addU64 a b = some (a + b) :=
  if_pos small

theorem subU64_eq {a b : Nat} (le : b ≤ a) : subU64 a b = some (a - b) :=
  if_pos le

/-! ### Byte slices -/

/-- A byte slice: `as_ptr()` as a number, and the bytes. -/
structure Slice where
  addr : Nat
  bytes : List UInt8
  fits : bytes.length ≤ isizeMax

namespace Slice

def len (s : Slice) : Nat := s.bytes.length

/-- The part of a slice from `k` on. -/
def tail (s : Slice) (k : Nat) : Slice :=
  ⟨s.addr + k, s.bytes.drop k, by
    rw [List.length_drop]
    exact (Nat.sub_le _ k).trans s.fits⟩

/-- The `n` bytes of a slice from `k` on. -/
def window (s : Slice) (k n : Nat) : Slice :=
  ⟨s.addr + k, (s.bytes.drop k).take n, by
    rw [List.length_take, List.length_drop]
    exact (Nat.min_le_right _ _).trans ((Nat.sub_le _ k).trans s.fits)⟩

/-- `s[i]`. -/
def index (s : Slice) (i : Nat) : Option UInt8 := s.bytes[i]?

/-- `&s[k..]`. -/
def rangeFrom (s : Slice) (k : Nat) : Option Slice := if k ≤ s.len then some (s.tail k) else none

/-- `&s[a..b]`. -/
def range (s : Slice) (a b : Nat) : Option Slice :=
  if a ≤ b ∧ b ≤ s.len then some (s.window a (b - a)) else none

/-- `s.starts_with(pattern)`. -/
def startsWith (s : Slice) (pattern : List UInt8) : Bool := pattern.isPrefixOf s.bytes

/-- The slice after `out` has been written at `k`. -/
def write (s : Slice) (k : Nat) (out : List UInt8) : Slice :=
  ⟨s.addr, (s.bytes.take k ++ out ++ s.bytes.drop (k + out.length)).take s.len,
    (List.length_take_le _ _).trans s.fits⟩

variable {s : Slice} {a b i k n : Nat}

theorem len_le_usizeMax (s : Slice) : s.len ≤ usizeMax := s.fits.trans isizeMax_lt_usizeMax.le

@[simp] theorem bytes_tail : (s.tail k).bytes = s.bytes.drop k := rfl

@[simp] theorem bytes_window : (s.window k n).bytes = (s.bytes.drop k).take n := rfl

theorem len_window (le : k + n ≤ s.len) : (s.window k n).len = n := by
  rw [len, bytes_window, List.length_take, List.length_drop]
  unfold len at le
  omega

theorem index_eq (lt : i < s.len) : s.index i = some (s.bytes.get ⟨i, lt⟩) :=
  List.getElem?_eq_getElem lt

theorem rangeFrom_eq (le : k ≤ s.len) : s.rangeFrom k = some (s.tail k) := if_pos le

theorem range_eq (le : a ≤ b) (le' : b ≤ s.len) : s.range a b = some (s.window a (b - a)) :=
  if_pos ⟨le, le'⟩

theorem len_of_range {part : Slice} (here : s.range a b = some part) : part.len = b - a := by
  unfold range at here
  split at here
  · rename_i inside
    cases here
    exact len_window (by omega)
  · cases here

theorem startsWith_iff {pattern : List UInt8} :
    s.startsWith pattern = true ↔ pattern <+: s.bytes :=
  List.isPrefixOf_iff_prefix

theorem len_write {out : List UInt8} (le : k + out.length ≤ s.len) :
    (s.write k out).len = s.len := by
  unfold len at le
  simp only [len, write, List.length_take, List.length_append, List.length_drop]
  omega

/-- What stands in the slice up to the end of a part of the written bytes. -/
theorem take_write {out : List UInt8} (le : k + out.length ≤ s.len) (part : n ≤ out.length) :
    (s.write k out).bytes.take (k + n) = s.bytes.take k ++ out.take n := by
  have front : (s.bytes.take k).length = k := by
    unfold len at le
    rw [List.length_take]
    omega
  have within : k + n ≤ s.len := by omega
  change ((s.bytes.take k ++ out ++ s.bytes.drop (k + out.length)).take s.len).take (k + n) = _
  rw [List.take_take, Nat.min_eq_left within, List.append_assoc, List.take_append, front,
    Nat.add_sub_cancel_left, List.take_append_of_le_length part,
    List.take_of_length_le (by omega)]

end Slice

end Machine
