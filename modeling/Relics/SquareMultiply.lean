import Mathlib.Algebra.Group.Basic

namespace SquareMultiply

/-!
# Powers by squaring

A loop over an exponent, its lowest bit first: an odd exponent multiplies the
base into the answer, and every turn squares the base and halves the exponent.
What the answer is still to be multiplied by never changes, in any monoid.
-/

variable {M : Type} [Monoid M]

/-- The variables of the loop. -/
structure State (M : Type) where
  answer : M
  num : M
  power : Nat

namespace State

/-- What the loop is to return from a state on. -/
def value (state : State M) : M :=
  state.answer * state.num ^ state.power

/-- One turn of the loop. -/
def turn (state : State M) : State M where
  answer :=
    if state.power % 2 = 1 then state.answer * state.num else state.answer
  num := state.num * state.num
  power := state.power / 2

/-- A turn does not change what the loop is to return. -/
theorem value_turn
    (state : State M) :
    state.turn.value = state.value := by
  obtain ⟨answer, num, power⟩ := state
  have halves : power = 2 * (power / 2) + power % 2 :=
    (Nat.div_add_mod power 2).symm
  have squares : (num * num) ^ (power / 2) = num ^ (2 * (power / 2)) := by
    rw [pow_mul, sq]
  simp only [value, turn, squares]
  rcases Nat.mod_two_eq_zero_or_one power with even | odd
  · rw [even, Nat.add_zero] at halves
    simp only [even, Nat.zero_ne_one, ↓reduceIte]
    rw [← halves]
  · rw [odd] at halves
    simp only [odd, ↓reduceIte]
    calc
      answer * num * num ^ (2 * (power / 2)) =
          answer * (num * num ^ (2 * (power / 2))) :=
        mul_assoc answer num _
      _ = answer * num ^ power := by
        rw [← pow_succ', ← halves]

/-- At exponent 0 the answer is what the loop is to return. -/
theorem value_of_ended
    {state : State M}
    (ended : state.power = 0) :
    state.value = state.answer := by
  rw [value, ended, pow_zero, mul_one]

end State

end SquareMultiply
