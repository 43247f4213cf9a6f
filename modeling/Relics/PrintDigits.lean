import Relics.PositionalNumeral
import Relics.PrintNumbers
import Mathlib.Tactic.IntervalCases

namespace Relics.Print

open PositionalNumeral

/-!
# Digits in a character array

The characters of the digits below 16, and what an array holds after a run
of characters has been stored into it upwards or downwards.
-/

/-- The character of a digit below 16. -/
def digitChar (digit : Nat) : UInt8 :=
  if digit < 10 then
    UInt8.ofNat (0x30 + digit)
  else
    UInt8.ofNat (0x57 + digit)

/-- The digit a character stands for in a base. -/
def charDigit (base : Nat) (char : UInt8) : Option Nat :=
  let digit :=
    if 0x30 ≤ char.toNat ∧ char.toNat ≤ 0x39 then
      char.toNat - 0x30
    else if 0x61 ≤ char.toNat ∧ char.toNat ≤ 0x66 then
      char.toNat - 0x57
    else
      16
  if digit < base then some digit else none

/-- The value of the character of a digit -/
theorem toNat_digitChar
    {digit : Nat}
    (below : digit < 16) :
    (digitChar digit).toNat =
      if digit < 10 then 0x30 + digit else 0x57 + digit := by
  unfold digitChar
  split
  · have fits : 0x30 + digit < 256 := by omega
    exact UInt8.toNat_ofNat_of_lt' fits
  · have fits : 0x57 + digit < 256 := by omega
    exact UInt8.toNat_ofNat_of_lt' fits

/-- The character of a digit is not the end of a string. -/
theorem digitChar_ne_zero
    {digit : Nat}
    (below : digit < 16) :
    digitChar digit ≠ 0 := by
  intro isZero
  have value := toNat_digitChar below
  rw [isZero, UInt8.toNat_zero] at value
  split at value
  · omega
  · omega

/-- The digits of a base up to 16 -/
def asciiDigits
    (base : Nat)
    (one_lt_base : 1 < base)
    (base_le : base ≤ 16) :
    Alphabet UInt8 where
  base := base
  one_lt_base := one_lt_base
  write := digitChar
  read := charDigit base
  read_write := by
    intro digit below
    have value := toNat_digitChar (Nat.lt_of_lt_of_le below base_le)
    simp only [charDigit, value, Option.ite_none_right_eq_some,
      Option.some.injEq]
    split
    · rw [if_pos (by omega)]
      omega
    · rw [if_neg (by omega), if_pos (by omega)]
      omega
  read_lt := by
    intro char digit reads
    simp only [charDigit, Option.ite_none_right_eq_some,
      Option.some.injEq] at reads
    exact reads.2 ▸ reads.1
  write_read := by
    intro char digit reads
    simp only [charDigit, Option.ite_none_right_eq_some,
      Option.some.injEq] at reads
    obtain ⟨below, value⟩ := reads
    rw [value] at below
    apply UInt8.toNat_inj.mp
    rw [toNat_digitChar (by omega)]
    split at value
    · rw [if_pos (by omega)]
      omega
    · split at value
      · rw [if_neg (by omega)]
        omega
      · omega

/-- 1 is below 10. -/
theorem one_lt_ten : 1 < 10 := by
  decide

/-- 10 is at most 16. -/
theorem ten_le_sixteen : 10 ≤ 16 := by
  decide

/-- The decimal digits -/
def decimal : Alphabet UInt8 :=
  asciiDigits 10 one_lt_ten ten_le_sixteen

/-- The table of `decimal_to_base` holds the characters of the digits. -/
theorem digits_getD
    {digit : Nat}
    (below : digit < 16) :
    digits.getD digit 0 = digitChar digit := by
  interval_cases digit <;> rfl

/-- A number other than 0 is one as a natural. -/
theorem toNat_ne_zero_of_ne
    {num : UInt64}
    (nonzero : num ≠ 0) :
    num.toNat ≠ 0 :=
  fun isZero => nonzero (UInt64.toNat_inj.mp isZero)

/-- A numeral holds no end of a string. -/
theorem zero_not_mem_numeral
    {base : Nat}
    (one_lt_base : 1 < base)
    (base_le : base ≤ 16)
    (number : Nat) :
    0 ∉ (asciiDigits base one_lt_base base_le).numeral number := by
  intro member
  obtain ⟨digit, below, isZero⟩ :=
    Alphabet.exists_digit_of_mem_numeral member
  exact digitChar_ne_zero (Nat.lt_of_lt_of_le below base_le) isZero

/-- The digits of a positive number, turned round, are its numeral. -/
theorem reverse_digits_eq
    {magnitude : Nat}
    (positive : magnitude ≠ 0) :
    ((Nat.digits 10 magnitude).map digitChar).reverse =
      decimal.numeral magnitude := by
  rw [Alphabet.numeral, if_neg positive]
  rfl

/-- A positive number has as many digits as its numeral has characters. -/
theorem length_digits_eq
    {magnitude : Nat}
    (positive : magnitude ≠ 0) :
    (Nat.digits 10 magnitude).length =
      (decimal.numeral magnitude).length := by
  rw [← reverse_digits_eq positive, List.length_reverse, List.length_map]

/-- The numeral of a magnitude of 64 bits has at most 20 digits. -/
theorem length_numeral_le_twenty
    {magnitude : Nat}
    (fits : magnitude < 2 ^ 64) :
    (decimal.numeral magnitude).length ≤ 20 := by
  apply Alphabet.length_numeral_le (by decide)
  calc
    magnitude < 2 ^ 64 := fits
    _ ≤ 10 ^ 20 := by decide

/-- A decimal numeral holds no end of a string. -/
theorem zero_not_mem_decimal (number : Nat) :
    0 ∉ decimal.numeral number :=
  zero_not_mem_numeral one_lt_ten ten_le_sixteen number

/-- `print_string` prints what stands before the first 0. -/
theorem printString_append_zero
    {text : List UInt8}
    (nonzero : 0 ∉ text)
    (after : List UInt8) :
    printString (text ++ 0 :: after) = text := by
  induction text with
  | nil =>
      simp [printString]
  | cons char text inductionHypothesis =>
      rw [List.mem_cons, not_or] at nonzero
      simp only [List.cons_append, printString,
        if_neg (Ne.symm nonzero.1), inductionHypothesis nonzero.2]

/-- A long enough list splits around the item at an index. -/
theorem exists_split_at
    {Item : Type}
    {items : List Item}
    {index : Nat}
    (inside : index < items.length) :
    ∃ before item after,
      items = before ++ item :: after ∧
      before.length = index := by
  refine ⟨items.take index, items[index], items.drop (index + 1), ?_, ?_⟩
  · rw [← List.drop_eq_getElem_cons inside, List.take_append_drop]
  · exact List.length_take_of_le (Nat.le_of_lt inside)

namespace CharArray

/-- Store characters from an index upwards. -/
def storeForwards
    (array : CharArray)
    (start : Nat) :
    (text : List UInt8) →
    CharArray
  | [] => array
  | char :: text => (array.store start char).storeForwards (start + 1) text

/-- Store characters downwards, the first of them just below an index. -/
def storeBackwards
    (array : CharArray)
    (stop : Nat) :
    (text : List UInt8) →
    CharArray
  | [] => array
  | char :: text =>
      (array.store (stop - 1) char).storeBackwards (stop - 1) text

variable {array : CharArray}
variable {before gap after text : List UInt8}
variable {size start stop index : Nat}

theorem inside_uninitialized (leftOver : List UInt8) :
    (uninitialized leftOver).Inside size := by
  intro index member
  exact absurd member List.not_mem_nil

theorem inside_store
    {char : UInt8}
    (fits : index < size)
    (inside : array.Inside size) :
    (array.store index char).Inside size := by
  intro stored member
  rcases List.mem_cons.mp member with isIndex | earlier
  · exact isIndex ▸ fits
  · exact inside stored earlier

/-- A store between two parts of the array changes the cell between them. -/
theorem bytes_store
    {char old : UInt8}
    (bytes : array.bytes = before ++ old :: after)
    (length : before.length = index) :
    (array.store index char).bytes = before ++ char :: after := by
  simp [store, bytes, ← length]

/-- Storing upwards fills the cells between two parts of the array. -/
theorem bytes_storeForwards
    (bytes : array.bytes = before ++ gap ++ after)
    (startsAt : before.length = start)
    (fits : gap.length = text.length) :
    (array.storeForwards start text).bytes = before ++ text ++ after := by
  induction text generalizing array before gap start with
  | nil =>
      rw [List.eq_nil_of_length_eq_zero fits] at bytes
      exact bytes
  | cons char text inductionHypothesis =>
      obtain ⟨old, gap, rfl⟩ := List.exists_cons_of_length_eq_add_one fits
      have startCell : array.bytes = before ++ old :: (gap ++ after) := by
        simp [bytes]
      have stored :
          (array.store start char).bytes =
            (before ++ [char]) ++ gap ++ after := by
        rw [bytes_store startCell startsAt]
        simp
      have nextStart : (before ++ [char]).length = start + 1 := by
        simp [startsAt]
      have filled :=
        inductionHypothesis stored nextStart (Nat.succ.inj fits)
      simpa [storeForwards] using filled

theorem inside_storeForwards
    (fits : start + text.length ≤ size)
    (inside : array.Inside size) :
    (array.storeForwards start text).Inside size := by
  induction text generalizing array start with
  | nil =>
      exact inside
  | cons char text inductionHypothesis =>
      rw [List.length_cons] at fits
      apply inductionHypothesis
      · omega
      · exact inside_store (by omega) inside

/-- Storing a second text behind the first is storing both. -/
theorem storeForwards_append
    (array : CharArray)
    (start : Nat)
    (text rest : List UInt8) :
    array.storeForwards start (text ++ rest) =
      (array.storeForwards start text).storeForwards
        (start + text.length) rest := by
  induction text generalizing array start with
  | nil =>
      rfl
  | cons char text inductionHypothesis =>
      rw [List.cons_append, storeForwards, inductionHypothesis,
        storeForwards, List.length_cons, Nat.add_right_comm, Nat.add_assoc]

/-- Storing downwards leaves the text turned round. -/
theorem bytes_storeBackwards
    (bytes : array.bytes = before ++ gap ++ after)
    (stopsAt : before.length + gap.length = stop)
    (fits : gap.length = text.length) :
    (array.storeBackwards stop text).bytes =
      before ++ text.reverse ++ after := by
  induction text generalizing array gap after stop with
  | nil =>
      rw [List.eq_nil_of_length_eq_zero fits] at bytes
      exact bytes
  | cons char text inductionHypothesis =>
      have gapExists : gap ≠ [] := by
        apply List.ne_nil_of_length_pos
        simp [fits]
      obtain ⟨gap, old, rfl⟩ :=
        (List.eq_nil_or_concat' gap).resolve_left gapExists
      rw [List.length_append, List.length_singleton,
        List.length_cons] at fits
      rw [List.length_append, List.length_singleton] at stopsAt
      have lastCell : array.bytes = (before ++ gap) ++ old :: after := by
        simp [bytes]
      have stored :
          (array.store (stop - 1) char).bytes =
            before ++ gap ++ (char :: after) := by
        apply bytes_store lastCell
        rw [List.length_append]
        omega
      have nextStop : before.length + gap.length = stop - 1 := by
        omega
      have filled :=
        inductionHypothesis stored nextStop (Nat.succ.inj fits)
      simpa [storeBackwards] using filled

theorem inside_storeBackwards
    (room : text.length ≤ stop)
    (fits : stop ≤ size)
    (inside : array.Inside size) :
    (array.storeBackwards stop text).Inside size := by
  induction text generalizing array stop with
  | nil =>
      exact inside
  | cons char text inductionHypothesis =>
      rw [List.length_cons] at room
      apply inductionHypothesis
      · omega
      · omega
      · exact inside_store (by omega) inside

end CharArray

end Relics.Print
