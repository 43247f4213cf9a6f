import Mathlib.Data.UInt
import Relics.SquareMultiply

namespace Relics.Math

/-!
# Powers of `math.c`

`calculate_power_using_lsb` squares and multiplies with wrap-around, and
`ppowi` has three ways around it.  The table of the powers of two ends in
2^32 - 1, where 2^32 wraps to 0, and is read behind its end for the powers
above.
-/

open SquareMultiply

section Source

/-- Shifting an exponent other than 0 down leaves a smaller one. -/
theorem toNat_shiftRight_lt
    {power : UInt32}
    (running : 0 < power) :
    (power >>> 1).toNat < power.toNat := by
  have positive : 0 < power.toNat := UInt32.lt_iff_toNat_lt.mp running
  rw [UInt32.toNat_shiftRight]
  exact Nat.div_lt_self positive Nat.one_lt_two

/-- The loop of `calculate_power_using_lsb` -/
def calculatePowerLoop (num power answer : UInt32) : UInt32 :=
  if _ : 0 < power then
    let answer := if power &&& 1 ≠ 0 then answer * num else answer
    calculatePowerLoop (num * num) (power >>> 1) answer
  else
    answer
termination_by power.toNat
decreasing_by
  apply toNat_shiftRight_lt
  assumption

/-- `calculate_power_using_lsb` -/
def calculatePowerUsingLsb (num power : UInt32) : UInt32 :=
  calculatePowerLoop num power 1

/-- `powers_of_two` -/
def powersOfTwo : List UInt32 :=
  [2, 4, 8, 16, 32, 64,
    128, 256, 512, 1024, 2048, 4096,
    8192, 16384, 32768, 65536, 131072, 262144,
    524288, 1048576, 2097152, 4194304, 8388608, 16777216,
    33554432, 67108864, 134217728, 268435456, 536870912, 1073741824,
    2147483648, 4294967295]

/--
`ppowi`: the value it returns and the indices it reads in `powers_of_two`.
Behind the table it reads what stands on the stack there.
-/
def ppowi
    (behind : Nat → UInt32)
    (num power : UInt32) :
    UInt32 × List Nat :=
  if power = 0 then
    (1, [])
  else if power = 1 then
    (num, [])
  else if num = 2 then
    let index := (power - 1).toNat
    (powersOfTwo.getD index (behind (index - powersOfTwo.length)), [index])
  else
    (calculatePowerUsingLsb num power, [])

end Source

section Powers

/-- The variables of the loop, with the exponent as a number -/
def loopState (num power answer : UInt32) : State UInt32 where
  answer := answer
  num := num
  power := power.toNat

/-- A turn of the loop is a turn of squaring and multiplying. -/
theorem loopState_turn
    (num power answer : UInt32) :
    loopState (num * num) (power >>> 1)
        (if power &&& 1 ≠ 0 then answer * num else answer) =
      (loopState num power answer).turn := by
  have lowBit : power &&& 1 ≠ 0 ↔ power.toNat % 2 = 1 := by
    rw [Ne, ← UInt32.toNat_inj, UInt32.toNat_and]
    change ¬ power.toNat &&& 1 = 0 ↔ _
    rw [Nat.and_one_is_mod]
    exact Nat.mod_two_ne_zero
  have halved : (power >>> 1).toNat = power.toNat / 2 :=
    UInt32.toNat_shiftRight power 1
  simp only [loopState, State.turn, halved]
  congr 1
  exact if_congr lowBit rfl rfl

/-- The loop returns what is to be returned from where it begins. -/
theorem calculatePowerLoop_eq
    (num power answer : UInt32) :
    calculatePowerLoop num power answer =
      (loopState num power answer).value := by
  induction num, power, answer using calculatePowerLoop.induct with
  | case1 num power answer running answer' inductionHypothesis =>
      rw [calculatePowerLoop, dif_pos running, ← State.value_turn,
        ← loopState_turn]
      exact inductionHypothesis
  | case2 num power answer notRunning =>
      have isZero : power = 0 :=
        UInt32.le_zero_iff.mp (UInt32.not_lt.mp notRunning)
      have ended : (loopState num power answer).power = 0 :=
        congrArg UInt32.toNat isZero
      rw [calculatePowerLoop, dif_neg notRunning, State.value_of_ended ended]
      rfl

/-- Powers wrap around at 2^32. -/
theorem toNat_pow
    (num : UInt32)
    (exponent : Nat) :
    (num ^ exponent).toNat = num.toNat ^ exponent % 2 ^ 32 := by
  induction exponent with
  | zero =>
      rfl
  | succ exponent inductionHypothesis =>
      rw [pow_succ, UInt32.toNat_mul, inductionHypothesis, Nat.mod_mul_mod,
        ← pow_succ]

/-- `calculate_power_using_lsb` is the power in the 32-bit words. -/
theorem calculatePowerUsingLsb_eq_pow
    (num power : UInt32) :
    calculatePowerUsingLsb num power = num ^ power.toNat := by
  rw [calculatePowerUsingLsb, calculatePowerLoop_eq]
  exact one_mul _

/--
`calculate_power_using_lsb` ends for every exponent and returns the power
modulo 2^32.
-/
theorem calculatePowerUsingLsb_toNat
    (num power : UInt32) :
    (calculatePowerUsingLsb num power).toNat =
      num.toNat ^ power.toNat % 2 ^ 32 := by
  rw [calculatePowerUsingLsb_eq_pow, toNat_pow]

end Powers

section FastPath

/--
`ppowi` reads `powers_of_two` inside its entries only and returns what
`calculate_power_using_lsb` returns.
-/
structure AgreesWithLoop
    (behind : Nat → UInt32)
    (num power : UInt32) :
    Prop where
  inside : ∀ index ∈ (ppowi behind num power).2, index < powersOfTwo.length
  same : (ppowi behind num power).1 = calculatePowerUsingLsb num power

variable {behind : Nat → UInt32}
variable {num power : UInt32}

/-- Where `ppowi` reads no table, its value is to be the power. -/
theorem agreesWithLoop_of_value
    {value : UInt32}
    (returned : ppowi behind num power = (value, []))
    (isPower : value = num ^ power.toNat) :
    AgreesWithLoop behind num power where
  inside := by
    rw [returned]
    exact List.forall_mem_nil _
  same := by
    rw [returned, calculatePowerUsingLsb_eq_pow]
    exact isPower

/-- The first two shortcuts agree with the loop. -/
theorem agreesWithLoop_of_lt
    (small : power < 2) :
    AgreesWithLoop behind num power := by
  have cases : power = 0 ∨ power = 1 := by
    have bound : power.toNat < 2 := UInt32.lt_iff_toNat_lt.mp small
    rw [← UInt32.toNat_inj, ← UInt32.toNat_inj]
    change power.toNat = 0 ∨ power.toNat = 1
    omega
  rcases cases with rfl | rfl
  · exact agreesWithLoop_of_value rfl (pow_zero num).symm
  · exact agreesWithLoop_of_value rfl (pow_one num).symm

/-- From the second power on the base decides. -/
theorem ppowi_of_large
    (behind : Nat → UInt32)
    (num : UInt32)
    (large : ¬ power < 2) :
    ppowi behind num power =
      if num = 2 then
        let index := (power - 1).toNat
        (powersOfTwo.getD index (behind (index - powersOfTwo.length)),
          [index])
      else
        (calculatePowerUsingLsb num power, []) := by
  have notZero : power ≠ 0 := by
    rintro rfl
    exact large (by decide)
  have notOne : power ≠ 1 := by
    rintro rfl
    exact large (by decide)
  rw [ppowi, if_neg notZero, if_neg notOne]

/-- Every other base is raised by the loop itself. -/
theorem agreesWithLoop_of_ne
    (large : ¬ power < 2)
    (base : num ≠ 2) :
    AgreesWithLoop behind num power := by
  have returned :
      ppowi behind num power = (calculatePowerUsingLsb num power, []) := by
    rw [ppowi_of_large behind num large, if_neg base]
  exact
    agreesWithLoop_of_value returned
      (calculatePowerUsingLsb_eq_pow num power)

/-- Base 2 is looked up. -/
theorem ppowi_two
    (behind : Nat → UInt32)
    (large : ¬ power < 2) :
    ppowi behind 2 power =
      (powersOfTwo.getD (power.toNat - 1)
        (behind (power.toNat - 1 - powersOfTwo.length)),
        [power.toNat - 1]) := by
  have positive : 1 ≤ power :=
    UInt32.le_trans (by decide) (UInt32.not_lt.mp large)
  have index : (power - 1).toNat = power.toNat - 1 :=
    UInt32.toNat_sub_of_le power 1 positive
  rw [ppowi_of_large behind 2 large, if_pos rfl, index]

/-- The entries of the table before the last one are the powers of 2. -/
theorem powersOfTwo_entry :
    ∀ index < 31, powersOfTwo[index]? = some (2 ^ (index + 1)) := by
  decide

/-- Up to the 31st power the table agrees with the loop. -/
theorem agreesWithLoop_two_of_lt
    (large : ¬ power < 2)
    (small : power < 32) :
    AgreesWithLoop behind 2 power := by
  have lower : 2 ≤ power.toNat :=
    UInt32.le_iff_toNat_le.mp (UInt32.not_lt.mp large)
  have upper : power.toNat < 32 := UInt32.lt_iff_toNat_lt.mp small
  obtain ⟨exponent, counted⟩ : ∃ exponent, power.toNat = exponent + 1 :=
    Nat.exists_eq_add_of_le' (Nat.le_of_succ_le lower)
  have entry : powersOfTwo[exponent]? = some (2 ^ (exponent + 1)) :=
    powersOfTwo_entry exponent (by omega)
  have returned := ppowi_two behind large
  rw [counted, Nat.add_sub_cancel, List.getD_eq_getElem?_getD, entry,
    Option.getD_some] at returned
  constructor
  · rw [returned]
    intro index isRead
    rw [List.mem_singleton.mp isRead]
    exact (List.getElem?_eq_some_iff.mp entry).1
  · rw [returned, calculatePowerUsingLsb_eq_pow, counted]

/-- The last entry is not 0, and there is none for the powers behind it. -/
theorem not_agreesWithLoop_two
    (atEnd : 32 ≤ power) :
    ¬ AgreesWithLoop behind 2 power := by
  rintro ⟨inside, same⟩
  have large : ¬ power < 2 :=
    UInt32.not_lt.mpr (UInt32.le_trans (by decide) atEnd)
  rw [ppowi_two behind large] at inside same
  have bound : power.toNat - 1 < 32 := inside _ List.mem_cons_self
  have lower : 32 ≤ power.toNat := UInt32.le_iff_toNat_le.mp atEnd
  have last : power.toNat = 32 := by omega
  rw [calculatePowerUsingLsb_eq_pow, last] at same
  have wrapped : (4294967295 : UInt32) ≠ 2 ^ 32 := by
    decide
  exact wrapped same

/--
The shortcuts agree with the loop unless base 2 is raised to the 32nd power
or above.
-/
theorem ppowi_agreesWithLoop_iff
    (behind : Nat → UInt32)
    (num power : UInt32) :
    AgreesWithLoop behind num power ↔ num ≠ 2 ∨ power < 32 := by
  constructor
  · intro agrees
    by_contra condition
    rw [not_or, not_not] at condition
    rcases condition with ⟨rfl, notBelow⟩
    exact not_agreesWithLoop_two (UInt32.not_lt.mp notBelow) agrees
  · intro condition
    by_cases small : power < 2
    · exact agreesWithLoop_of_lt small
    rcases condition with base | below
    · exact agreesWithLoop_of_ne small base
    · by_cases base : num = 2
      · subst base
        exact agreesWithLoop_two_of_lt small below
      · exact agreesWithLoop_of_ne small base

/-- The last entry of the table is not what 2^32 wraps to. -/
theorem ppowi_two_counterexample :
    ¬ ∀ behind num power, AgreesWithLoop behind num power := by
  intro agrees
  exact not_agreesWithLoop_two (by decide) (agrees (fun _ => 0) 2 32)

end FastPath

end Relics.Math
