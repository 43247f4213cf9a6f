import Relics.PrintDigits

namespace Relics.Print

open PositionalNumeral

/-!
# Signed decimal numbers

`print_long_long` counts the digits of a number, stores them downwards from
the last one and prints the result as a string.  Negating the smallest number
leaves it as it is, and its digits then no longer fit the count.
-/

section Digits

variable {num : Int64}

/-- A quotient of a number that is not negative -/
theorem toInt_div_ten
    (nonneg : 0 ≤ num.toInt) :
    (num / 10).toInt = num.toInt / 10 := by
  rw [Int64.toInt_div_of_ne_right num 10 (by decide)]
  exact Int.tdiv_eq_ediv_of_nonneg nonneg

/-- A quotient of a number that is not negative is not negative. -/
theorem div_ten_nonneg
    (nonneg : 0 ≤ num.toInt) :
    0 ≤ (num / 10).toInt := by
  rw [toInt_div_ten nonneg]
  exact Int.ediv_nonneg nonneg (by decide)

/-- The quotient by 10 is the quotient of the magnitudes. -/
theorem toNat_div_ten
    (nonneg : 0 ≤ num.toInt) :
    (num / 10).toInt.toNat = num.toInt.toNat / 10 := by
  rw [toInt_div_ten nonneg]
  omega

/-- A remainder of a number that is not negative -/
theorem mod_ten_eq
    (nonneg : 0 ≤ num.toInt) :
    num % 10 = Int64.ofNat (num.toInt.toNat % 10) := by
  apply Int64.toInt_inj.mp
  have small : num.toInt.toNat % 10 < 10 :=
    Nat.mod_lt _ (by decide)
  have remainder : (num % 10).toInt = num.toInt.tmod 10 :=
    Int64.toInt_mod num 10
  rw [remainder, Int.tmod_eq_emod_of_nonneg nonneg,
    Int64.toInt_ofNat_of_lt (by omega)]
  omega

/-- The character `x + '0'` of the last digit -/
theorem lastDigit_eq
    (nonneg : 0 ≤ num.toInt) :
    (num % 10).toInt8.toUInt8 + 0x30 =
      digitChar (num.toInt.toNat % 10) := by
  rw [mod_ten_eq nonneg]
  have small : num.toInt.toNat % 10 < 10 :=
    Nat.mod_lt _ (by decide)
  generalize num.toInt.toNat % 10 = digit at small
  interval_cases digit <;> rfl

/-- A number that is not 0 has a magnitude that is not 0. -/
theorem toNat_ne_zero
    (nonneg : 0 ≤ num.toInt)
    (nonzero : num ≠ 0) :
    num.toInt.toNat ≠ 0 := by
  intro isZero
  apply nonzero
  apply Int64.toInt_inj.mp
  change num.toInt = 0
  omega

/-- `digit_count` adds the digits of a number that is not negative. -/
theorem digitCountLoop_eq
    (count : UInt32)
    (nonneg : 0 ≤ num.toInt) :
    digitCountLoop num count =
      count + UInt32.ofNat (Nat.digits 10 num.toInt.toNat).length := by
  induction num, count using digitCountLoop.induct with
  | case1 num count positive inductionHypothesis =>
      have nonzero : num ≠ 0 := by
        rintro rfl
        exact absurd positive (by decide)
      rw [digitCountLoop, dif_pos positive,
        inductionHypothesis (div_ten_nonneg nonneg), toNat_div_ten nonneg,
        Nat.digits_eq_cons_digits_div (by decide)
          (toNat_ne_zero nonneg nonzero),
        List.length_cons, UInt32.ofNat_add, UInt32.add_assoc]
      congr 1
      exact UInt32.add_comm _ _
  | case2 num count notPositive =>
      have isZero : num.toInt = 0 := by
        have upper := Int.not_lt.mp
          (mt Int64.lt_iff_toInt_lt.mpr notPositive)
        exact Int.le_antisymm upper nonneg
      rw [digitCountLoop, dif_neg notPositive, isZero]
      simp

/-- One turn of the loop of `lltoa` -/
theorem getnum_of_ne
    (index : UInt32)
    (number : CharArray)
    (nonzero : num ≠ 0) :
    getnum num index number =
      getnum (num / 10) (index - 1)
        (number.store index.toNat
          ((num % 10).toInt8.toUInt8 + 0x30)) := by
  rw [getnum, dif_pos nonzero]

/-- The loop of `lltoa` stores the digits downwards from the given index. -/
theorem getnum_eq
    {stop : Nat}
    (array : CharArray)
    (nonneg : 0 ≤ num.toInt)
    (room : (Nat.digits 10 num.toInt.toNat).length ≤ stop)
    (small : stop < 2 ^ 32) :
    getnum num (UInt32.ofNat stop - 1) array =
      array.storeBackwards stop
        ((Nat.digits 10 num.toInt.toNat).map digitChar) := by
  induction hmagnitude : num.toInt.toNat using Nat.strong_induction_on
    generalizing num stop array with
  | _ magnitude inductionHypothesis =>
      subst hmagnitude
      by_cases isZero : num = 0
      · subst isZero
        rw [getnum, dif_neg (not_not_intro rfl)]
        rfl
      · have positive := toNat_ne_zero nonneg isZero
        have quotient := toNat_div_ten nonneg
        rw [Nat.digits_eq_cons_digits_div (by decide) positive] at room ⊢
        rw [List.length_cons] at room
        have index : UInt32.ofNat stop - 1 = UInt32.ofNat (stop - 1) := by
          rw [UInt32.ofNat_sub (by omega)]
          rfl
        have indexValue : (UInt32.ofNat (stop - 1)).toNat = stop - 1 :=
          UInt32.toNat_ofNat_of_lt' (by
            change stop - 1 < 2 ^ 32
            omega)
        have smaller : (num / 10).toInt.toNat < num.toInt.toNat := by
          omega
        have quotientRoom :
            (Nat.digits 10 (num / 10).toInt.toNat).length ≤ stop - 1 := by
          rw [quotient]
          omega
        have rest :=
          inductionHypothesis _ smaller
            (array.store (stop - 1) (digitChar (num.toInt.toNat % 10)))
            (div_ten_nonneg nonneg) quotientRoom (by omega) rfl
        rw [getnum_of_ne _ _ isZero, index, indexValue, lastDigit_eq nonneg,
          rest, quotient]
        rfl

variable {array : CharArray}
variable {before gap after : List UInt8}
variable {stop : Nat}

/-- The digits and the terminator behind what the array starts with -/
theorem bytes_getnum_store
    {slot : UInt8}
    (nonneg : 0 ≤ num.toInt)
    (nonzero : num ≠ 0)
    (bytes : array.bytes = before ++ gap ++ slot :: after)
    (fits : gap.length = (decimal.numeral num.toInt.toNat).length)
    (stopsAt : before.length + gap.length = stop)
    (small : stop < 2 ^ 32) :
    ((getnum num (UInt32.ofNat stop - 1) array).store stop 0).bytes =
      before ++ decimal.numeral num.toInt.toNat ++ 0 :: after := by
  have positive := toNat_ne_zero nonneg nonzero
  have sameLength := length_digits_eq positive
  have digitsStored :
      (getnum num (UInt32.ofNat stop - 1) array).bytes =
        before ++ decimal.numeral num.toInt.toNat ++ slot :: after := by
    rw [getnum_eq array nonneg (by omega) small,
      CharArray.bytes_storeBackwards bytes stopsAt,
      reverse_digits_eq positive]
    rw [List.length_map, fits, sameLength]
  apply CharArray.bytes_store digitsStored
  rw [List.length_append, ← fits, stopsAt]

/-- The digits and the terminator are stored inside the array. -/
theorem inside_getnum_store
    {size : Nat}
    (nonneg : 0 ≤ num.toInt)
    (nonzero : num ≠ 0)
    (room : (decimal.numeral num.toInt.toNat).length ≤ stop)
    (inside : array.Inside size)
    (fits : stop < size)
    (small : size ≤ 2 ^ 32) :
    ((getnum num (UInt32.ofNat stop - 1) array).store stop 0).Inside
      size := by
  have sameLength := length_digits_eq (toNat_ne_zero nonneg nonzero)
  apply CharArray.inside_store fits
  rw [getnum_eq array nonneg (by omega) (by omega)]
  apply CharArray.inside_storeBackwards
  · rw [List.length_map, sameLength]
    exact room
  · exact Nat.le_of_lt fits
  · exact inside

/-- The digit count of a positive number -/
theorem digitCount_pos
    (positive : 0 < num.toInt) :
    digitCount num =
      UInt32.ofNat (decimal.numeral num.toInt.toNat).length := by
  have nonneg : 0 ≤ num.toInt := Int.le_of_lt positive
  have nonzero : num ≠ 0 := by
    rintro rfl
    exact absurd positive (by decide)
  have notNegative : ¬ num < 0 := by
    rw [Int64.lt_iff_toInt_lt]
    exact Int.not_lt.mpr nonneg
  rw [digitCount, if_neg nonzero, if_neg notNegative,
    digitCountLoop_eq 0 nonneg, UInt32.zero_add,
    length_digits_eq (toNat_ne_zero nonneg nonzero)]

/-- Negating any number but the smallest gives its magnitude. -/
theorem toInt_mul_neg_one
    (notSmallest : num ≠ Int64.minValue) :
    (num * -1).toInt = -num.toInt := by
  have high := num.toInt_lt
  have low := num.le_toInt
  have lower : num.toInt ≠ -2 ^ 63 := by
    intro isSmallest
    exact notSmallest (Int64.toInt_inj.mp isSmallest)
  have product : (num * -1).toInt = (num.toInt * -1).bmod (2 ^ 64) :=
    Int64.toInt_mul num (-1)
  rw [product, Int.mul_neg_one]
  apply Int.bmod_eq_of_le
  · change -2 ^ 63 ≤ -num.toInt
    omega
  · change -num.toInt < 2 ^ 63
    omega

/-- The digit count of a negative number counts its sign. -/
theorem digitCount_neg
    (negative : num.toInt < 0)
    (notSmallest : num ≠ Int64.minValue) :
    digitCount num =
      UInt32.ofNat
        (1 + (decimal.numeral (num * -1).toInt.toNat).length) := by
  have magnitude := toInt_mul_neg_one notSmallest
  have nonneg : 0 ≤ (num * -1).toInt := by
    omega
  have nonzero : num ≠ 0 := by
    rintro rfl
    exact absurd negative (by decide)
  have isNegative : num < 0 := Int64.lt_iff_toInt_lt.mpr negative
  have positive : (num * -1).toInt.toNat ≠ 0 := by
    omega
  have digitsEq := length_digits_eq positive
  rw [digitCount, if_neg nonzero, if_pos isNegative,
    digitCountLoop_eq 1 nonneg, digitsEq, UInt32.ofNat_add]
  rfl

end Digits

/-- The canonical decimal numeral of an integer, with its sign -/
def IsDecimal (number : Int) (text : List UInt8) : Prop :=
  if number < 0 then
    ∃ digits,
      text = 0x2D :: digits ∧
      decimal.Canonical digits number.natAbs
  else
    decimal.Canonical text number.natAbs

/-- A number is stored inside the 64 characters and printed exactly. -/
structure PrintsExactly (leftOver : List UInt8) (num : Int64) : Prop where
  inside : (lltoa num (.uninitialized leftOver)).Inside 64
  exact :
    ∃ text,
      printLongLong leftOver num = some text ∧ IsDecimal num.toInt text

section Exactness

variable {leftOver : List UInt8}
variable {num : Int64}

/-- What is printed once `lltoa` has stayed inside the array -/
theorem printLongLong_of_inside
    (inside : (lltoa num (.uninitialized leftOver)).Inside 64) :
    printLongLong leftOver num =
      some (printString (lltoa num (.uninitialized leftOver)).bytes) :=
  if_pos inside

/-- 0 is printed as its one digit. -/
theorem printsExactly_zero
    (size : leftOver.length = 64) :
    PrintsExactly leftOver 0 := by
  rcases leftOver with _ | ⟨first, _ | ⟨second, rest⟩⟩
  · simp at size
  · simp at size
  · have stored :
        lltoa 0 (.uninitialized (first :: second :: rest)) =
          ((CharArray.uninitialized (first :: second :: rest)).store
            0 0x30).store 1 0 := by
      rw [lltoa, if_pos]
      simp [digitCount]
    have inside :
        (lltoa 0 (.uninitialized (first :: second :: rest))).Inside 64 := by
      rw [stored]
      apply CharArray.inside_store (by decide)
      apply CharArray.inside_store (by decide)
      exact CharArray.inside_uninitialized _
    refine ⟨inside, _, printLongLong_of_inside inside, ?_⟩
    have canonical := decimal.canonical_numeral 0
    rw [stored]
    exact canonical

/-- The digit count of a number as a natural -/
theorem toNat_digitCount
    {length : Nat}
    (count : digitCount num = UInt32.ofNat length)
    (short : length < 64) :
    (digitCount num).toNat = length := by
  rw [count]
  apply UInt32.toNat_ofNat_of_lt'
  change length < 2 ^ 32
  omega

/--
A number is printed exactly when `lltoa` leaves its sign, the digits of its
magnitude and the terminator.
-/
theorem printsExactly_of_stored
    {magnitude : Int64}
    {array : CharArray}
    {sign gap after : List UInt8}
    {slot : UInt8}
    {stop : Nat}
    (stored :
      lltoa num (.uninitialized leftOver) =
        (getnum magnitude (UInt32.ofNat stop - 1) array).store stop 0)
    (bytes : array.bytes = sign ++ gap ++ slot :: after)
    (inside : array.Inside 64)
    (nonneg : 0 ≤ magnitude.toInt)
    (nonzero : magnitude ≠ 0)
    (fits : gap.length = (decimal.numeral magnitude.toInt.toNat).length)
    (stopsAt : sign.length + gap.length = stop)
    (small : stop < 64)
    (noNul : 0 ∉ sign)
    (isDecimal :
      IsDecimal num.toInt
        (sign ++ decimal.numeral magnitude.toInt.toNat)) :
    PrintsExactly leftOver num := by
  have allInside : (lltoa num (.uninitialized leftOver)).Inside 64 := by
    have room : (decimal.numeral magnitude.toInt.toNat).length ≤ stop := by
      omega
    rw [stored]
    exact inside_getnum_store nonneg nonzero room inside small (by decide)
  refine ⟨allInside, _, printLongLong_of_inside allInside, ?_⟩
  have text :
      (lltoa num (.uninitialized leftOver)).bytes =
        sign ++ decimal.numeral magnitude.toInt.toNat ++ 0 :: after := by
    rw [stored]
    exact bytes_getnum_store nonneg nonzero bytes fits stopsAt (by omega)
  have noZero :
      0 ∉ sign ++ decimal.numeral magnitude.toInt.toNat := by
    rw [List.mem_append, not_or]
    exact ⟨noNul, zero_not_mem_decimal _⟩
  rw [text, printString_append_zero noZero]
  exact isDecimal

/-- A positive number is printed as its digits. -/
theorem printsExactly_pos
    (size : leftOver.length = 64)
    (positive : 0 < num.toInt) :
    PrintsExactly leftOver num := by
  have nonneg : 0 ≤ num.toInt := Int.le_of_lt positive
  have nonzero : num ≠ 0 := by
    rintro rfl
    exact absurd positive (by decide)
  have notNegative : ¬ num < 0 := by
    rw [Int64.lt_iff_toInt_lt]
    exact Int.not_lt.mpr nonneg
  have high := num.toInt_lt
  have short : (decimal.numeral num.toInt.toNat).length ≤ 20 :=
    length_numeral_le_twenty (by omega)
  have count := digitCount_pos positive
  have countValue := toNat_digitCount count (by omega)
  have within :
      (decimal.numeral num.toInt.toNat).length < leftOver.length := by
    omega
  obtain ⟨gap, slot, after, split, gapLength⟩ := exists_split_at within
  have whole :
      (CharArray.uninitialized leftOver).bytes = [] ++ gap ++ slot :: after :=
    split
  have stored :
      lltoa num (.uninitialized leftOver) =
        (getnum num
          (UInt32.ofNat (decimal.numeral num.toInt.toNat).length - 1)
          (.uninitialized leftOver)).store
            (decimal.numeral num.toInt.toNat).length 0 := by
    simp only [lltoa, countValue, if_neg notNegative]
    rw [if_neg (fun both => nonzero both.1), count]
  have magnitude : num.toInt.natAbs = num.toInt.toNat := by
    omega
  apply printsExactly_of_stored stored whole
    (CharArray.inside_uninitialized leftOver) nonneg nonzero gapLength
  · rw [List.length_nil, Nat.zero_add, gapLength]
  · omega
  · exact List.not_mem_nil
  · rw [IsDecimal, if_neg (Int.not_lt.mpr nonneg), magnitude]
    exact decimal.canonical_numeral _

/-- A negative number but the smallest is printed as a sign and its digits. -/
theorem printsExactly_neg
    (size : leftOver.length = 64)
    (negative : num.toInt < 0)
    (notSmallest : num ≠ Int64.minValue) :
    PrintsExactly leftOver num := by
  have low := num.le_toInt
  have magnitude := toInt_mul_neg_one notSmallest
  have nonneg : 0 ≤ (num * -1).toInt := by
    omega
  have nonzero : num ≠ 0 := by
    rintro rfl
    exact absurd negative (by decide)
  have negatedNonzero : num * -1 ≠ 0 := by
    intro isZero
    rw [isZero] at magnitude
    change 0 = _ at magnitude
    omega
  have isNegative : num < 0 := Int64.lt_iff_toInt_lt.mpr negative
  have short : (decimal.numeral (num * -1).toInt.toNat).length ≤ 20 :=
    length_numeral_le_twenty (by omega)
  have count := digitCount_neg negative notSmallest
  generalize hlength :
    (decimal.numeral (num * -1).toInt.toNat).length = length at count short
  have countValue := toNat_digitCount count (by omega)
  have stored :
      lltoa num (.uninitialized leftOver) =
        (getnum (num * -1) (UInt32.ofNat (1 + length) - 1)
          ((CharArray.uninitialized leftOver).store 0 0x2D)).store
            (1 + length) 0 := by
    simp only [lltoa, countValue, if_pos isNegative]
    rw [if_neg (fun both => nonzero both.1), count]
  rcases leftOver with _ | ⟨first, leftOver⟩
  · simp at size
  · rw [List.length_cons] at size
    have within : length < leftOver.length := by
      omega
    obtain ⟨gap, slot, after, split, gapLength⟩ := exists_split_at within
    have signStored :
        ((CharArray.uninitialized (first :: leftOver)).store 0 0x2D).bytes =
          [0x2D] ++ gap ++ slot :: after := by
      simp [CharArray.store, CharArray.uninitialized, split]
    have inside :
        ((CharArray.uninitialized (first :: leftOver)).store 0 0x2D).Inside
          64 := by
      apply CharArray.inside_store (by decide)
      exact CharArray.inside_uninitialized _
    have natAbs : num.toInt.natAbs = (num * -1).toInt.toNat := by
      omega
    apply printsExactly_of_stored stored signStored inside nonneg
      negatedNonzero (gapLength.trans hlength.symm)
    · rw [List.length_singleton, gapLength]
    · omega
    · decide
    · rw [IsDecimal, if_pos negative, natAbs]
      exact
        ⟨decimal.numeral (num * -1).toInt.toNat, List.singleton_append,
          decimal.canonical_numeral _⟩

/-- Every index stored to stays on record while the digits are stored. -/
theorem stores_getnum
    {index : Nat}
    (num : Int64)
    (start : UInt32)
    (array : CharArray)
    (stored : index ∈ array.stores) :
    index ∈ (getnum num start array).stores := by
  induction num, start, array using getnum.induct with
  | case1 num start array nonzero x inductionHypothesis =>
      rw [getnum_of_ne _ _ nonzero]
      exact inductionHypothesis (List.mem_cons_of_mem _ stored)
  | case2 num start array isZero =>
      rw [getnum, dif_neg isZero]
      exact stored

/-- The digits of the smallest number run below the start of the array. -/
theorem not_inside_minValue (leftOver : List UInt8) :
    ¬ (lltoa Int64.minValue (.uninitialized leftOver)).Inside 64 := by
  intro inside
  have count : digitCount Int64.minValue = 1 := by
    rw [digitCount, if_neg (by decide), if_pos (by decide),
      digitCountLoop, dif_neg (by decide)]
  have stored :
      2 ^ 32 - 1 ∈
        (lltoa Int64.minValue (.uninitialized leftOver)).stores := by
    simp only [lltoa, count]
    rw [if_neg (by decide), if_pos (by decide)]
    apply List.mem_cons_of_mem
    rw [getnum_of_ne _ _ (by decide), getnum_of_ne _ _ (by decide)]
    apply stores_getnum
    exact List.mem_cons_self
  have small := inside _ stored
  omega

/-- `lltoa` faults on the smallest number before anything is printed. -/
theorem printLongLong_minValue (leftOver : List UInt8) :
    printLongLong leftOver Int64.minValue = none :=
  if_neg (not_inside_minValue leftOver)

theorem not_printsExactly_minValue (leftOver : List UInt8) :
    ¬ PrintsExactly leftOver Int64.minValue :=
  fun exactly => not_inside_minValue leftOver exactly.inside

/-- Every number but the smallest is printed exactly. -/
theorem printsExactly_of_ne
    (size : leftOver.length = 64)
    (notSmallest : num ≠ Int64.minValue) :
    PrintsExactly leftOver num := by
  rcases Int.lt_trichotomy num.toInt 0 with negative | isZero | positive
  · exact printsExactly_neg size negative notSmallest
  · have numZero : num = 0 := Int64.toInt_inj.mp isZero
    rw [numZero]
    exact printsExactly_zero size
  · exact printsExactly_pos size positive

/-- Where `getnum` stores does not depend on what the array holds. -/
theorem stores_getnum_congr
    (num : Int64)
    (start : UInt32)
    (array : CharArray) :
    ∀ other,
      array.stores = other.stores →
      (getnum num start array).stores = (getnum num start other).stores := by
  induction num, start, array using getnum.induct with
  | case1 num start array nonzero x inductionHypothesis =>
      intro other same
      rw [getnum_of_ne _ array nonzero, getnum_of_ne _ other nonzero]
      exact inductionHypothesis _ (congrArg (start.toNat :: ·) same)
  | case2 num start array isZero =>
      intro other same
      rw [getnum, dif_neg isZero, getnum, dif_neg isZero]
      exact same

theorem stores_lltoa_congr
    (num : Int64)
    (leftOver leftOver' : List UInt8) :
    (lltoa num (.uninitialized leftOver)).stores =
      (lltoa num (.uninitialized leftOver')).stores := by
  simp only [lltoa]
  split
  · rfl
  · split
    · exact congrArg (_ :: ·) (stores_getnum_congr _ _ _ _ rfl)
    · exact congrArg (_ :: ·) (stores_getnum_congr _ _ _ _ rfl)

/-- `print_long_long` returns on every number but the smallest. -/
theorem printLongLong_isSome_iff (leftOver : List UInt8) (num : Int64) :
    (printLongLong leftOver num).isSome = true ↔ num ≠ Int64.minValue := by
  constructor
  · rintro printed rfl
    rw [printLongLong_minValue] at printed
    cases printed
  · intro notSmallest
    have zeros :=
      (printsExactly_of_ne (List.length_replicate (a := 0)) notSmallest).inside
    have inside : (lltoa num (.uninitialized leftOver)).Inside 64 := by
      rw [CharArray.Inside, stores_lltoa_congr num leftOver]
      exact zeros
    rw [printLongLong_of_inside inside]
    rfl

/-- No `int` is the smallest 64-bit number. -/
theorem toInt64_ne_minValue (n : Int32) : n.toInt64 ≠ Int64.minValue := by
  intro smallest
  have value := congrArg Int64.toInt smallest
  have bound := n.le_toInt
  rw [Int32.toInt_toInt64] at value
  have least : Int64.minValue.toInt = -9223372036854775808 := rfl
  omega

/-- `print_int` always returns. -/
theorem printInt_isSome (leftOver : List UInt8) (num : Int32) :
    (printInt leftOver num).isSome = true :=
  (printLongLong_isSome_iff leftOver num.toInt64).mpr (toInt64_ne_minValue num)

/--
A 64-bit number is stored inside the array and printed as its canonical
decimal numeral exactly when it is not the smallest one.
-/
theorem printLongLong_exact_iff
    (size : leftOver.length = 64)
    (num : Int64) :
    PrintsExactly leftOver num ↔ num ≠ Int64.minValue := by
  constructor
  · rintro exactly rfl
    exact not_printsExactly_minValue leftOver exactly
  · exact printsExactly_of_ne size

/-- Printing -120 into an array of zeros is exact. -/
theorem printLongLong_exact_at_minus_120 :
    PrintsExactly (List.replicate 64 0) (-120) :=
  (printLongLong_exact_iff (by decide) (-120)).mpr (by decide)

/-- Printing the smallest number stores far outside the array. -/
theorem printLongLong_minValue_counterexample :
    ¬ ∀ (leftOver : List UInt8) (num : Int64),
      leftOver.length = 64 →
      PrintsExactly leftOver num := by
  intro always
  exact not_printsExactly_minValue (List.replicate 64 0)
    (always _ _ (by decide))

end Exactness

end Relics.Print
