import Mathlib.Algebra.Group.Nat.Defs

namespace MachineWord

/-!
# Unsigned 64-bit arithmetic on naturals

Words are naturals below `2 ^ 64`.  The operations wrap as the machine's do;
each has one lemma saying when it agrees with the operation on naturals.
-/

/-- Wrapping addition. -/
def add64 (first second : Nat) : Nat :=
  (first + second) % 2 ^ 64

/-- Wrapping subtraction of a word. -/
def sub64 (first second : Nat) : Nat :=
  (first + (2 ^ 64 - second)) % 2 ^ 64

/-- Bitwise complement of a word. -/
def not64 (word : Nat) : Nat :=
  2 ^ 64 - 1 - word

/-- Addition that does not overflow. -/
theorem add64_of_lt
    {first second : Nat}
    (fits : first + second < 2 ^ 64) :
    add64 first second = first + second :=
  Nat.mod_eq_of_lt fits

/-- Subtraction that does not borrow. -/
theorem sub64_of_le
    {first second : Nat}
    (ordered : second ≤ first)
    (fits : first < 2 ^ 64) :
    sub64 first second = first - second := by
  unfold sub64
  omega

/-- Masking with the complement of low ones rounds down to a power of two. -/
theorem and_not64_lowOnes
    (exponent : Nat)
    {word : Nat}
    (fits : word < 2 ^ 64)
    (small : exponent ≤ 64) :
    word &&& not64 (2 ^ exponent - 1) =
      2 ^ exponent * (word / 2 ^ exponent) := by
  have factors : (2 : Nat) ^ 64 = 2 ^ exponent * 2 ^ (64 - exponent) := by
    rw [← Nat.pow_add]
    congr 1
    omega
  have mask :
      not64 (2 ^ exponent - 1) =
        2 ^ exponent * (2 ^ (64 - exponent) - 1) := by
    have positive : 0 < 2 ^ exponent := Nat.two_pow_pos exponent
    rw [Nat.mul_sub, Nat.mul_one, ← factors]
    unfold not64
    omega
  apply Nat.eq_of_testBit_eq
  intro bit
  rw [Nat.testBit_and, mask, Nat.testBit_two_pow_mul, Nat.testBit_two_pow_mul,
    Nat.testBit_two_pow_sub_one, Nat.testBit_div_two_pow]
  by_cases low : exponent ≤ bit
  · rw [Nat.sub_add_cancel low]
    by_cases high : bit < 64
    · have inMask : bit - exponent < 64 - exponent := by omega
      simp [low, inMask]
    · have beyond : word.testBit bit = false := by
        apply Nat.testBit_lt_two_pow
        exact Nat.lt_of_lt_of_le fits (Nat.pow_le_pow_right (by decide) (by omega))
      simp [beyond]
  · simp [low]

end MachineWord
