import Mathlib.Data.Nat.Digits.Defs
import Mathlib.Data.Nat.Bitwise
import MmapChunker.Theory.Occurrence

/-!
The word-at-a-time zero-byte test.

For a little-endian word `x` of bytes, `(x - 0x01…01) & !x & 0x80…80` flags byte
`k` in bit `8 * k + 7`. Because of borrows the flags above the first zero byte
may be wrong, but the lowest flag is exact: `firstAt_zeroFlags`. The proof is the
borrow argument, by induction from the lowest byte: a non-zero byte lends nothing
and raises no flag, and the first zero byte raises its own flag whatever stands
above it.

Words are naturals of any number of bytes here; a word type supplies its own
bridge to `Nat`.
-/

namespace ZeroByte

open Occurrence

/-- The little-endian value of a list of bytes. -/
def word (bytes : List Nat) : Nat := Nat.ofDigits 256 bytes

/-- The word of `n` copies of one byte. -/
def repeated (n b : Nat) : Nat := word (List.replicate n b)

/-- The zero-byte flags of an `n`-byte word: `(x - 0x01…01) & !x & 0x80…80`, with
subtraction and complement modulo `256 ^ n`. -/
def zeroFlags (n x : Nat) : Nat :=
  ((x + (256 ^ n - repeated n 1)) % 256 ^ n) &&& (256 ^ n - 1 - x) &&& repeated n 128

@[simp] theorem word_nil : word [] = 0 := rfl

theorem word_cons (b : Nat) (bytes : List Nat) : word (b :: bytes) = b + 256 * word bytes :=
  Nat.ofDigits_cons

theorem repeated_succ (n b : Nat) : repeated (n + 1) b = b + 256 * repeated n b := by
  rw [repeated, List.replicate_succ, word_cons, repeated]

theorem word_lt (bytes : List Nat) (small : ∀ b ∈ bytes, b < 256) :
    word bytes < 256 ^ bytes.length :=
  Nat.ofDigits_lt_base_pow_length (by decide) small

theorem repeated_le {n b : Nat} (small : b < 256) : repeated n b < 256 ^ n := by
  have := word_lt (List.replicate n b) fun b' mem => List.eq_of_mem_replicate mem ▸ small
  simpa [repeated] using this

/-! ### Bitwise operations byte by byte -/

/-- Bits of a word split into those of its lowest byte and those of the rest. -/
theorem testBit_low_high {b x : Nat} (small : b < 256) (i : Nat) :
    (b + 256 * x).testBit i = if i < 8 then b.testBit i else x.testBit (i - 8) := by
  rw [Nat.add_comm, show 256 = 2 ^ 8 from rfl, Nat.testBit_two_pow_mul_add x small]

theorem and_low_high {b c x y : Nat} (smallB : b < 256) (smallC : c < 256) :
    (b + 256 * x) &&& (c + 256 * y) = (b &&& c) + 256 * (x &&& y) := by
  refine Nat.eq_of_testBit_eq fun i => ?_
  have small : b &&& c < 256 := Nat.lt_of_le_of_lt Nat.and_le_left smallB
  rw [Nat.testBit_and, testBit_low_high smallB, testBit_low_high smallC, testBit_low_high small]
  split <;> simp

theorem xor_low_high {b c x y : Nat} (smallB : b < 256) (smallC : c < 256) :
    (b + 256 * x) ^^^ (c + 256 * y) = (b ^^^ c) + 256 * (x ^^^ y) := by
  refine Nat.eq_of_testBit_eq fun i => ?_
  have small : b ^^^ c < 256 := Nat.xor_lt_two_pow (n := 8) smallB smallC
  rw [Nat.testBit_xor, testBit_low_high smallB, testBit_low_high smallC, testBit_low_high small]
  split <;> simp

/-- Xor with a repeated byte is xor of every byte. -/
theorem xor_repeated {bytes : List Nat} (small : ∀ b ∈ bytes, b < 256) {d : Nat}
    (smallD : d < 256) :
    word bytes ^^^ repeated bytes.length d = word (bytes.map (· ^^^ d)) := by
  induction bytes with
  | nil => simp [repeated]
  | cons b bytes ih =>
      rw [List.length_cons, repeated_succ, word_cons,
        xor_low_high (small b List.mem_cons_self) smallD,
        ih fun b' mem => small b' (List.mem_cons_of_mem _ mem), List.map_cons, word_cons]

/-! ### The borrow argument -/

/-- A non-zero lowest byte lends nothing: its flag is down and the flags above
are those of the rest of the word. -/
theorem zeroFlags_nonzero {n b x : Nat} (pos : 0 < b) (small : b < 256) (high : x < 256 ^ n) :
    zeroFlags (n + 1) (b + 256 * x) = 0 + 256 * zeroFlags n x := by
  have ones := repeated_le (n := n) (b := 1) (by decide)
  have difference : (b + 256 * x + (256 ^ (n + 1) - repeated (n + 1) 1)) % 256 ^ (n + 1) =
      (b - 1) + 256 * ((x + (256 ^ n - repeated n 1)) % 256 ^ n) := by
    rw [repeated_succ, Nat.pow_succ, Nat.mul_comm (256 ^ n) 256,
      show b + 256 * x + (256 * 256 ^ n - (1 + 256 * repeated n 1)) =
        (b - 1) + 256 * (x + (256 ^ n - repeated n 1)) by omega,
      Nat.mod_mul, Nat.add_mul_mod_self_left, Nat.mod_eq_of_lt (by omega),
      Nat.add_mul_div_left _ _ (by decide), Nat.div_eq_of_lt (by omega), Nat.zero_add]
  have complement : 256 ^ (n + 1) - 1 - (b + 256 * x) = (255 - b) + 256 * (256 ^ n - 1 - x) := by
    rw [Nat.pow_succ]
    omega
  have flagDown : (b - 1) &&& (255 - b) &&& 128 = 0 := by
    have all : ∀ c < 256, 0 < c → (c - 1) &&& (255 - c) &&& 128 = 0 := by decide +kernel
    exact all b small pos
  unfold zeroFlags
  rw [difference, complement, repeated_succ, and_low_high (by omega) (by omega),
    and_low_high (Nat.lt_of_le_of_lt Nat.and_le_left (by omega)) (by decide), flagDown]

/-- A zero lowest byte raises its flag, whatever stands above it. -/
theorem zeroFlags_zero {n x : Nat} (high : x < 256 ^ n) :
    ∃ y, zeroFlags (n + 1) (0 + 256 * x) = 128 + 256 * y := by
  have ones := repeated_le (n := n) (b := 1) (by decide)
  have difference : (0 + 256 * x + (256 ^ (n + 1) - repeated (n + 1) 1)) % 256 ^ (n + 1) =
      255 + 256 * ((x + (256 ^ n - repeated n 1) - 1) % 256 ^ n) := by
    rw [repeated_succ, Nat.pow_succ, Nat.mul_comm (256 ^ n) 256,
      show 0 + 256 * x + (256 * 256 ^ n - (1 + 256 * repeated n 1)) =
        255 + 256 * (x + (256 ^ n - repeated n 1) - 1) by omega,
      Nat.mod_mul, Nat.add_mul_mod_self_left, Nat.add_mul_div_left _ _ (by decide)]
    norm_num
  have complement : 256 ^ (n + 1) - 1 - (0 + 256 * x) = 255 + 256 * (256 ^ n - 1 - x) := by
    rw [Nat.pow_succ]
    omega
  unfold zeroFlags
  rw [difference, complement, repeated_succ, and_low_high (by decide) (by decide),
    and_low_high (by decide) (by decide)]
  exact ⟨_, rfl⟩

/-- **The lowest flag is exact**: the first set bit of the flags is bit 7 of the
first zero byte, and there is none exactly when no byte is zero. -/
theorem firstAt_zeroFlags {bytes : List Nat} (small : ∀ b ∈ bytes, b < 256) :
    FirstAt (fun i => (zeroFlags bytes.length (word bytes)).testBit i = true) 0
      ((bytes.findIdx? (· == 0)).map fun k => 8 * k + 7) := by
  induction bytes with
  | nil => intro i _; simp [zeroFlags, repeated]
  | cons b bytes ih =>
      have smallRest : ∀ b' ∈ bytes, b' < 256 := fun b' mem => small b' (List.mem_cons_of_mem _ mem)
      have high := word_lt bytes smallRest
      rw [List.length_cons, word_cons, List.findIdx?_cons]
      by_cases zero : b = 0
      · subst zero
        obtain ⟨y, flags⟩ := zeroFlags_zero high
        have bits : ∀ i < 8, (128 + 256 * y).testBit i = Nat.testBit 128 i := fun i lt => by
          rw [testBit_low_high (by decide), if_pos lt]
        rw [flags]
        refine ⟨Nat.zero_le _, (bits 7 (by decide)).trans (by decide), fun i _ lt => ?_⟩
        have below : ∀ j < 7, Nat.testBit 128 j = false := by decide
        have lt7 : i < 7 := lt
        simp only [bits i (by omega), below i lt7]
        exact Bool.false_ne_true
      · rw [zeroFlags_nonzero (Nat.pos_of_ne_zero zero) (small b List.mem_cons_self) high]
        -- The lowest byte raises no flag, so the search goes on eight bits higher.
        set flags := zeroFlags bytes.length (word bytes)
        have low : ∀ i, 0 ≤ i → i < 8 → ¬ (0 + 256 * flags).testBit i = true := fun i _ lt => by
          rw [testBit_low_high (by decide), if_pos lt, Nat.zero_testBit]
          exact Bool.false_ne_true
        have high : ∀ i, 0 ≤ i →
            (flags.testBit i = true ↔ (0 + 256 * flags).testBit (8 + i) = true) := fun i _ => by
          rw [testBit_low_high (by decide), if_neg (by omega), Nat.add_sub_cancel_left]
        have rest : FirstAt (fun i => (0 + 256 * flags).testBit i = true) (8 + 0) _ :=
          FirstAt.shift ((ih smallRest).congr high)
        have found := rest.of_skip (Nat.zero_le 8) low
        have notZero : (b == 0) = false := beq_eq_false_iff_ne.mpr zero
        rw [notZero, if_neg Bool.false_ne_true, Option.map_map]
        rw [Option.map_map] at found
        have same : ((8 + ·) ∘ fun k => 8 * k + 7) = (fun k => 8 * k + 7) ∘ fun i => i + 1 := by
          funext k
          simp only [Function.comp_apply]
          omega
        rw [← same]
        exact found

end ZeroByte
