import Relics.PrintDigits

namespace Relics.Print

open PositionalNumeral

/-!
# Timestamps

The log prints a tick count as seconds and milliseconds.  Three routines store
into one buffer, each through a pointer to where its part begins: the seconds,
the dot, and the milliseconds with zeros in front of them.
-/

/-- Dividing a number other than 0 by 10 leaves a smaller one. -/
theorem toNat_div_ten_lt
    {num : UInt64}
    (nonzero : num ≠ 0) :
    (num / 10).toNat < num.toNat := by
  have positive := toNat_ne_zero_of_ne nonzero
  rw [UInt64.toNat_div]
  exact Nat.div_lt_self (Nat.pos_of_ne_zero positive) (by decide)

/-- The loop of `digit_count_unsigned` -/
def digitCountUnsignedLoop (num : UInt64) (count : UInt32) : UInt32 :=
  if positive : 0 < num then
    digitCountUnsignedLoop (num / 10) (count + 1)
  else
    count
termination_by num.toNat
decreasing_by
  exact toNat_div_ten_lt (UInt64.pos_iff_ne_zero.mp positive)

/-- `digit_count_unsigned` -/
def digitCountUnsigned (num : UInt64) : UInt32 :=
  if num < 10 then
    1
  else
    digitCountUnsignedLoop num 0

/-- `number[index] = char`, with `number` pointing into the array -/
def CharArray.storeAt
    (array : CharArray)
    (number index : UInt64)
    (char : UInt8) :
    CharArray :=
  array.store (number + index).toNat char

/-- The loop of `ulltoa` and of `zero_extend_3` -/
def ulltoaLoop
    (num index : UInt64)
    (array : CharArray)
    (number : UInt64) :
    CharArray :=
  if nonzero : num ≠ 0 then
    let x := (num % 10).toUInt8
    ulltoaLoop (num / 10) (index - 1)
      (array.storeAt number index (x + 0x30)) number
  else
    array
termination_by num.toNat
decreasing_by
  exact toNat_div_ten_lt nonzero

/-- `ulltoa` -/
def ulltoa (num : UInt64) (array : CharArray) (number : UInt64) : CharArray :=
  let dgcount := (digitCountUnsigned num).toUInt64
  let index := dgcount - 1
  if num = 0 ∧ dgcount = 1 then
    (array.storeAt number 0 0x30).storeAt number 1 0
  else
    (ulltoaLoop num index array number).storeAt number dgcount 0

/-- The end of `zero_extend_3`, once the count and the index are adjusted -/
def zeroExtend3Digits
    (num dgcount index : UInt64)
    (array : CharArray)
    (number : UInt64) :
    CharArray :=
  if num = 0 ∧ dgcount = 1 then
    (((array.storeAt number 0 0x30).storeAt number 1 0x30).storeAt
      number 2 0x30).storeAt number 3 0
  else
    (ulltoaLoop num index array number).storeAt number dgcount 0

/-- `zero_extend_3` -/
def zeroExtend3
    (num : UInt64)
    (array : CharArray)
    (number : UInt64) :
    CharArray :=
  let dgcount := (digitCountUnsigned num).toUInt64
  let index := dgcount - 1
  if num < 10 then
    let index := index + 2
    let dgcount := dgcount + 2
    let array := (array.storeAt number 0 0x30).storeAt number 1 0x30
    zeroExtend3Digits num dgcount index array number
  else if num < 100 then
    let index := index + 1
    let dgcount := dgcount + 1
    let array := array.storeAt number 0 0x30
    zeroExtend3Digits num dgcount index array number
  else
    zeroExtend3Digits num dgcount index array number

/-- `milliseconds_as_seconds`, which does not look at `buf_size` -/
def millisecondsAsSeconds
    (num : UInt64)
    (array : CharArray)
    (_bufSize : UInt64) :
    CharArray :=
  let idx := (digitCountUnsigned (num / 1000)).toUInt64
  let array := ulltoa (num / 1000) array 0
  let array := array.storeAt 0 idx 0x2E
  zeroExtend3 (num % 1000) array (idx + 1)

/-- `PIT_IRQ_timer_get_current_time_since_boot`: the string it returns -/
def pitIrqTimerGetCurrentTimeSinceBoot
    (pitEnabled : Bool)
    (pitTicks : UInt64)
    (buf : List UInt8) :
    List UInt8 :=
  if pitEnabled = false then
    chars "0.000"
  else
    printString
      (millisecondsAsSeconds pitTicks (.uninitialized buf) 64).bytes

section Digits

variable {num : UInt64}

/-- `digit_count_unsigned` adds the digits of a number. -/
theorem digitCountUnsignedLoop_eq
    (num : UInt64)
    (count : UInt32) :
    digitCountUnsignedLoop num count =
      count + UInt32.ofNat (Nat.digits 10 num.toNat).length := by
  induction num, count using digitCountUnsignedLoop.induct with
  | case1 num count positive inductionHypothesis =>
      have positiveNat : num.toNat ≠ 0 :=
        (UInt64.lt_iff_toNat_lt.mp positive).ne'
      have quotient : (num / 10).toNat = num.toNat / 10 :=
        UInt64.toNat_div num 10
      rw [digitCountUnsignedLoop, dif_pos positive, inductionHypothesis,
        quotient, Nat.digits_eq_cons_digits_div (by decide) positiveNat,
        List.length_cons, UInt32.ofNat_add, UInt32.add_assoc]
      congr 1
      exact UInt32.add_comm _ _
  | case2 num count notPositive =>
      have isZero : num = 0 :=
        UInt64.le_zero_iff.mp (UInt64.not_lt.mp notPositive)
      rw [digitCountUnsignedLoop, dif_neg notPositive, isZero]
      simp

/-- `digit_count_unsigned` counts the characters of the numeral. -/
theorem digitCountUnsigned_eq (num : UInt64) :
    (digitCountUnsigned num).toUInt64 =
      UInt64.ofNat (decimal.numeral num.toNat).length := by
  have count :
      digitCountUnsigned num =
        UInt32.ofNat (decimal.numeral num.toNat).length := by
    by_cases small : num < 10
    · have oneDigit :=
        decimal.numeral_of_lt
          (UInt64.lt_iff_toNat_lt.mp small)
      rw [digitCountUnsigned, if_pos small, oneDigit]
      rfl
    · have positive : num.toNat ≠ 0 := by
        intro isZero
        apply small
        rw [UInt64.lt_iff_toNat_lt, isZero]
        decide
      rw [digitCountUnsigned, if_neg small, digitCountUnsignedLoop_eq,
        UInt32.zero_add, length_digits_eq positive]
  have short := length_numeral_le_twenty num.toNat_lt
  rw [count]
  apply UInt64.toNat_inj.mp
  rw [UInt32.toNat_toUInt64, UInt32.toNat_ofNat_of_lt',
    UInt64.toNat_ofNat_of_lt']
  · change _ < 2 ^ 64
    omega
  · change _ < 2 ^ 32
    omega

/-- The character `x + '0'` of the last digit -/
theorem lastDigit_toUInt8 (num : UInt64) :
    (num % 10).toUInt8 + 0x30 = digitChar (num.toNat % 10) := by
  have small : num.toNat % 10 < 10 :=
    Nat.mod_lt _ (by decide)
  have remainder : num % 10 = UInt64.ofNat (num.toNat % 10) := by
    apply UInt64.toNat_inj.mp
    rw [UInt64.toNat_mod, UInt64.toNat_ofNat_of_lt']
    · rfl
    · change _ < 2 ^ 64
      omega
  rw [remainder]
  generalize num.toNat % 10 = digit at small
  interval_cases digit <;> rfl

/-- One turn of the loop of `ulltoa` -/
theorem ulltoaLoop_of_ne
    (index : UInt64)
    (array : CharArray)
    (number : UInt64)
    (nonzero : num ≠ 0) :
    ulltoaLoop num index array number =
      ulltoaLoop (num / 10) (index - 1)
        (array.storeAt number index ((num % 10).toUInt8 + 0x30))
        number := by
  rw [ulltoaLoop, dif_pos nonzero]

/-- Where a store through a pointer into the array goes -/
theorem CharArray.storeAt_ofNat
    (array : CharArray)
    (number : UInt64)
    (index : Nat)
    (char : UInt8)
    (small : number.toNat + index < 2 ^ 64) :
    array.storeAt number (UInt64.ofNat index) char =
      array.store (number.toNat + index) char := by
  have value : (UInt64.ofNat index).toNat = index :=
    UInt64.toNat_ofNat_of_lt' (by
      change index < 2 ^ 64
      omega)
  rw [CharArray.storeAt, UInt64.toNat_add, value, Nat.mod_eq_of_lt small]

/-- The loop of `ulltoa` stores the digits downwards from the given index. -/
theorem ulltoaLoop_eq
    {number : UInt64}
    {stop : Nat}
    (array : CharArray)
    (room : (Nat.digits 10 num.toNat).length ≤ stop)
    (small : number.toNat + stop < 2 ^ 64) :
    ulltoaLoop num (UInt64.ofNat stop - 1) array number =
      array.storeBackwards (number.toNat + stop)
        ((Nat.digits 10 num.toNat).map digitChar) := by
  induction hvalue : num.toNat using Nat.strong_induction_on
    generalizing num stop array with
  | _ value inductionHypothesis =>
      subst hvalue
      by_cases isZero : num = 0
      · subst isZero
        rw [ulltoaLoop, dif_neg (not_not_intro rfl)]
        rfl
      · have positive := toNat_ne_zero_of_ne isZero
        have quotient : (num / 10).toNat = num.toNat / 10 :=
          UInt64.toNat_div num 10
        rw [Nat.digits_eq_cons_digits_div (by decide) positive] at room ⊢
        rw [List.length_cons] at room
        have index : UInt64.ofNat stop - 1 = UInt64.ofNat (stop - 1) := by
          rw [UInt64.ofNat_sub (by omega)]
          rfl
        have target : number.toNat + (stop - 1) =
            number.toNat + stop - 1 := by
          omega
        have smaller : (num / 10).toNat < num.toNat := by
          omega
        have quotientRoom :
            (Nat.digits 10 (num / 10).toNat).length ≤ stop - 1 := by
          rw [quotient]
          omega
        have rest :=
          inductionHypothesis _ smaller
            (array.store (number.toNat + stop - 1)
              (digitChar (num.toNat % 10)))
            quotientRoom (by omega) rfl
        rw [ulltoaLoop_of_ne _ _ _ isZero, index,
          CharArray.storeAt_ofNat _ _ _ _ (by omega), lastDigit_toUInt8, target,
          rest, quotient, target]
        rfl

variable {array : CharArray}
variable {before gap after : List UInt8}
variable {number : UInt64}
variable {size stop : Nat}

/-- The digits and the terminator behind what stands in front of them -/
theorem bytes_ulltoaLoop_storeAt
    {slot : UInt8}
    (positive : num.toNat ≠ 0)
    (bytes : array.bytes = before ++ gap ++ slot :: after)
    (fits : gap.length = (decimal.numeral num.toNat).length)
    (stopsAt : before.length + gap.length = number.toNat + stop)
    (room : gap.length ≤ stop)
    (small : number.toNat + stop < 2 ^ 64) :
    ((ulltoaLoop num (UInt64.ofNat stop - 1) array number).storeAt
        number (UInt64.ofNat stop) 0).bytes =
      before ++ decimal.numeral num.toNat ++ 0 :: after := by
  have sameLength := length_digits_eq positive
  have digitsStored :
      (ulltoaLoop num (UInt64.ofNat stop - 1) array number).bytes =
        before ++ decimal.numeral num.toNat ++ slot :: after := by
    rw [ulltoaLoop_eq array (by omega) small,
      CharArray.bytes_storeBackwards bytes stopsAt,
      reverse_digits_eq positive]
    rw [List.length_map, fits, sameLength]
  rw [CharArray.storeAt_ofNat _ _ _ _ small]
  apply CharArray.bytes_store digitsStored
  rw [List.length_append, ← fits, stopsAt]

/-- The digits and the terminator are stored inside the array. -/
theorem inside_ulltoaLoop_storeAt
    (positive : num.toNat ≠ 0)
    (room : (decimal.numeral num.toNat).length ≤ stop)
    (inside : array.Inside size)
    (fits : number.toNat + stop < size)
    (small : size ≤ 2 ^ 64) :
    ((ulltoaLoop num (UInt64.ofNat stop - 1) array number).storeAt
      number (UInt64.ofNat stop) 0).Inside size := by
  have sameLength := length_digits_eq positive
  rw [ulltoaLoop_eq array (by omega) (by omega),
    CharArray.storeAt_ofNat _ _ _ _ (by omega)]
  apply CharArray.inside_store fits
  apply CharArray.inside_storeBackwards
  · rw [List.length_map]
    omega
  · exact Nat.le_of_lt fits
  · exact inside

/-- `ulltoa` of 0 stores its one digit. -/
theorem ulltoa_zero (array : CharArray) :
    ulltoa 0 array 0 = (array.store 0 0x30).store 1 0 := by
  rw [ulltoa, if_pos]
  · rfl
  · exact ⟨rfl, rfl⟩

/-- `ulltoa` of a positive number stores its digits and the terminator. -/
theorem ulltoa_of_ne
    (array : CharArray)
    (nonzero : num ≠ 0) :
    ulltoa num array 0 =
      (ulltoaLoop num
        (UInt64.ofNat (decimal.numeral num.toNat).length - 1) array 0).storeAt
          0 (UInt64.ofNat (decimal.numeral num.toNat).length) 0 := by
  rw [ulltoa, if_neg (fun both => nonzero both.1), digitCountUnsigned_eq]

/-- `ulltoa` leaves the numeral and the terminator. -/
theorem bytes_ulltoa
    {slot : UInt8}
    (bytes : array.bytes = gap ++ slot :: after)
    (fits : gap.length = (decimal.numeral num.toNat).length) :
    (ulltoa num array 0).bytes =
      decimal.numeral num.toNat ++ 0 :: after := by
  have short := length_numeral_le_twenty num.toNat_lt
  by_cases isZero : num = 0
  · subst isZero
    obtain ⟨first, rfl⟩ := List.length_eq_one_iff.mp fits
    rw [ulltoa_zero, CharArray.store, CharArray.store, bytes]
    rfl
  · have positive := toNat_ne_zero_of_ne isZero
    have start : (0 : UInt64).toNat = 0 := rfl
    have whole : array.bytes = [] ++ gap ++ slot :: after := bytes
    rw [ulltoa_of_ne array isZero]
    apply bytes_ulltoaLoop_storeAt positive whole fits
    · rw [start, List.length_nil, fits]
    · exact Nat.le_of_eq fits
    · omega

/-- `ulltoa` stores inside an array with room for the numeral. -/
theorem inside_ulltoa
    (inside : array.Inside size)
    (fits : (decimal.numeral num.toNat).length < size)
    (small : size ≤ 2 ^ 64) :
    (ulltoa num array 0).Inside size := by
  by_cases isZero : num = 0
  · subst isZero
    have two : 1 < size := fits
    rw [ulltoa_zero]
    apply CharArray.inside_store two
    exact CharArray.inside_store (Nat.lt_of_succ_lt two) inside
  · have positive := toNat_ne_zero_of_ne isZero
    have start : (0 : UInt64).toNat = 0 := rfl
    rw [ulltoa_of_ne array isZero]
    apply inside_ulltoaLoop_storeAt positive (Nat.le_refl _) inside
    · omega
    · exact small

end Digits

section Milliseconds

/-- The length of a numeral below 1000 -/
theorem length_decimal_cases
    {value : Nat}
    (below : value < 1000) :
    (decimal.numeral value).length =
      if value < 10 then 1 else if value < 100 then 2 else 3 := by
  rw [Alphabet.length_numeral]
  change Nat.log 10 value + 1 = _
  split
  · rw [Nat.log_of_lt (by assumption)]
  · split
    · rw [Nat.log_eq_of_pow_le_of_lt_pow (m := 1) (by omega) (by omega)]
    · rw [Nat.log_eq_of_pow_le_of_lt_pow (m := 2) (by omega) (by omega)]

/--
The three characters `zero_extend_3` leaves.  For 0 it stores two zeros and
nothing behind them.
-/
def milliseconds (num : Nat) (third : UInt8) : List UInt8 :=
  List.replicate (3 - (decimal.numeral num).length) 0x30 ++
    if num = 0 then [third] else decimal.numeral num

variable {num number : UInt64}
variable {array : CharArray}
variable {before gap after : List UInt8}
variable {third fourth : UInt8}
variable {size : Nat}

/-- `zero_extend_3` stores the missing zeros, then the digits at 2 and below. -/
theorem zeroExtend3_eq
    (array : CharArray)
    (below : num.toNat < 1000)
    (small : number.toNat < 2 ^ 32) :
    zeroExtend3 num array number =
      zeroExtend3Digits num 3 2
        (array.storeForwards number.toNat
          (List.replicate (3 - (decimal.numeral num.toNat).length) 0x30))
        number := by
  have length := length_decimal_cases below
  have count := digitCountUnsigned_eq num
  have firstZero : array.storeAt number 0 0x30 =
      array.store number.toNat 0x30 :=
    CharArray.storeAt_ofNat array number 0 0x30 (by omega)
  have secondZero (array : CharArray) : array.storeAt number 1 0x30 =
      array.store (number.toNat + 1) 0x30 :=
    CharArray.storeAt_ofNat array number 1 0x30 (by omega)
  rw [length] at count ⊢
  unfold zeroExtend3
  simp only [count, firstZero, secondZero]
  have below10 : num < 10 ↔ num.toNat < 10 := UInt64.lt_iff_toNat_lt
  have below100 : num < 100 ↔ num.toNat < 100 := UInt64.lt_iff_toNat_lt
  simp only [below10, below100]
  by_cases oneDigit : num.toNat < 10
  · simp only [if_pos oneDigit]
    rfl
  · simp only [if_neg oneDigit]
    by_cases twoDigits : num.toNat < 100
    · simp only [if_pos twoDigits]
      rfl
    · simp only [if_neg twoDigits]
      rfl

/-- `zero_extend_3` does not store a third zero for 0. -/
theorem zeroExtend3Digits_zero (array : CharArray) :
    zeroExtend3Digits 0 3 2 array number = array.storeAt number 3 0 := by
  rw [zeroExtend3Digits, if_neg (by decide), ulltoaLoop,
    dif_neg (not_not_intro rfl)]

/-- The zeros that `zero_extend_3` puts in front of the digits -/
theorem bytes_zeroPadding
    {count : Nat}
    (bytes : array.bytes = before ++ gap ++ fourth :: after)
    (startsAt : before.length = number.toNat)
    (room : count ≤ gap.length) :
    (array.storeForwards number.toNat (List.replicate count 0x30)).bytes =
      before ++ List.replicate count 0x30 ++
        (gap.drop count ++ fourth :: after) := by
  have parts :
      array.bytes =
        before ++ gap.take count ++ (gap.drop count ++ fourth :: after) := by
    rw [bytes, List.append_assoc before, List.append_assoc before,
      ← List.append_assoc (List.take _ gap), List.take_append_drop]
  apply CharArray.bytes_storeForwards parts startsAt
  rw [List.length_take_of_le room, List.length_replicate]

/-- For 0 `zero_extend_3` leaves two zeros and the character behind them. -/
theorem bytes_zeroExtend3_zero
    (bytes : array.bytes = before ++ gap ++ fourth :: after)
    (startsAt : before.length = number.toNat)
    (three : gap.length = 3)
    (isThird : gap.drop 2 = [third])
    (small : number.toNat < 2 ^ 32) :
    (zeroExtend3 0 array number).bytes =
      before ++ milliseconds 0 third ++ 0 :: after := by
  have padded := bytes_zeroPadding bytes startsAt (by omega : 2 ≤ gap.length)
  have threeCells :
      (array.storeForwards number.toNat [0x30, 0x30]).bytes =
        (before ++ [0x30, 0x30, third]) ++ fourth :: after := by
    rw [isThird] at padded
    simpa using padded
  have extended :
      zeroExtend3 0 array number =
        (array.storeForwards number.toNat [0x30, 0x30]).storeAt
          number 3 0 := by
    rw [zeroExtend3_eq array (by decide) small, zeroExtend3Digits_zero]
    rfl
  have target :=
    CharArray.storeAt_ofNat
      (array.storeForwards number.toNat [0x30, 0x30]) number 3 0 (by omega)
  have terminated :
      ((array.storeForwards number.toNat [0x30, 0x30]).store
          (number.toNat + 3) 0).bytes =
        (before ++ [0x30, 0x30, third]) ++ 0 :: after := by
    apply CharArray.bytes_store threeCells
    simp [startsAt]
  rw [extended]
  exact (congrArg CharArray.bytes target).trans terminated

/-- For a positive number `zero_extend_3` leaves the zeros and its digits. -/
theorem bytes_zeroExtend3_of_ne
    (nonzero : num ≠ 0)
    (below : num.toNat < 1000)
    (bytes : array.bytes = before ++ gap ++ fourth :: after)
    (startsAt : before.length = number.toNat)
    (three : gap.length = 3)
    (small : number.toNat < 2 ^ 32) :
    (zeroExtend3 num array number).bytes =
      before ++ milliseconds num.toNat third ++ 0 :: after := by
  have positive := toNat_ne_zero_of_ne nonzero
  have short : (decimal.numeral num.toNat).length ≤ 3 :=
    Alphabet.length_numeral_le (by decide) below
  rw [zeroExtend3_eq array below small, zeroExtend3Digits,
    if_neg (fun both => nonzero both.1), milliseconds, if_neg positive]
  generalize hcount : 3 - (decimal.numeral num.toNat).length = count
  have padded := bytes_zeroPadding bytes startsAt (by omega : count ≤ _)
  have fits :
      (gap.drop count).length = (decimal.numeral num.toNat).length := by
    rw [List.length_drop, three]
    omega
  have stopsAt :
      (before ++ List.replicate count (0x30 : UInt8)).length +
          (gap.drop count).length =
        number.toNat + 3 := by
    rw [List.length_append, List.length_replicate, startsAt, fits]
    omega
  have stored :=
    bytes_ulltoaLoop_storeAt positive
      (padded.trans (List.append_assoc _ _ _).symm) fits stopsAt
      (by omega) (by omega)
  simpa using stored

/-- What `zero_extend_3` leaves behind what stands in front of it -/
theorem bytes_zeroExtend3
    (below : num.toNat < 1000)
    (bytes : array.bytes = before ++ gap ++ fourth :: after)
    (startsAt : before.length = number.toNat)
    (three : gap.length = 3)
    (isThird : gap.drop 2 = [third])
    (small : number.toNat < 2 ^ 32) :
    (zeroExtend3 num array number).bytes =
      before ++ milliseconds num.toNat third ++ 0 :: after := by
  by_cases isZero : num = 0
  · subst isZero
    exact bytes_zeroExtend3_zero bytes startsAt three isThird small
  · exact bytes_zeroExtend3_of_ne isZero below bytes startsAt three small

/-- `zero_extend_3` stores inside an array with room for four characters. -/
theorem inside_zeroExtend3
    (below : num.toNat < 1000)
    (inside : array.Inside size)
    (fits : number.toNat + 3 < size)
    (small : size ≤ 2 ^ 32) :
    (zeroExtend3 num array number).Inside size := by
  have short : (decimal.numeral num.toNat).length ≤ 3 :=
    Alphabet.length_numeral_le (by decide) below
  have padded :
      (array.storeForwards number.toNat
        (List.replicate (3 - (decimal.numeral num.toNat).length)
          0x30)).Inside size := by
    apply CharArray.inside_storeForwards
    · rw [List.length_replicate]
      omega
    · exact inside
  rw [zeroExtend3_eq array below (by omega)]
  by_cases isZero : num = 0
  · subst isZero
    have target :=
      CharArray.storeAt_ofNat
        (array.storeForwards number.toNat [0x30, 0x30]) number 3 0 (by omega)
    rw [zeroExtend3Digits_zero]
    exact target ▸ CharArray.inside_store fits padded
  · have positive := toNat_ne_zero_of_ne isZero
    rw [zeroExtend3Digits, if_neg (fun both => isZero both.1)]
    have within : size ≤ 2 ^ 64 := by
      omega
    exact inside_ulltoaLoop_storeAt positive short padded fits within

/-- The milliseconds read as their number, unless a third zero is missing. -/
theorem reads_milliseconds_iff
    {num : Nat} :
    decimal.Reads (milliseconds num third) num ↔
      num ≠ 0 ∨ third = 0x30 := by
  by_cases isZero : num = 0
  · subst isZero
    constructor
    · intro reads
      right
      have value :
          decimal.readFrom 0
              (List.replicate 2 (decimal.write 0) ++ [third]) =
            some 0 :=
        reads.value
      rw [Alphabet.readFrom_replicate_zero] at value
      simp only [Alphabet.readFrom, Option.bind_eq_some_iff,
        Option.some.injEq] at value
      obtain ⟨digit, readsThird, total⟩ := value
      have digitZero : digit = 0 := by
        omega
      subst digitZero
      exact (decimal.write_read readsThird).symm
    · intro either
      have isZeroChar : third = 0x30 := either.resolve_left (by simp)
      subst isZeroChar
      exact decimal.reads_padded 2 0
  · constructor
    · intro _
      exact Or.inl isZero
    · intro _
      rw [milliseconds, if_neg isZero]
      exact decimal.reads_padded _ num

/-- `zero_extend_3` leaves three characters. -/
theorem length_milliseconds
    {num : Nat}
    (below : num < 1000) :
    (milliseconds num third).length = 3 := by
  have short : (decimal.numeral num).length ≤ 3 :=
    Alphabet.length_numeral_le (by decide) below
  by_cases isZero : num = 0
  · subst isZero
    rfl
  · rw [milliseconds, if_neg isZero, List.length_append,
      List.length_replicate]
    omega

end Milliseconds

/--
The buffer holds a string, stored inside it: the canonical numeral of the
seconds, a dot, and the three digits of the milliseconds.
-/
structure WellFormedTimestamp (buf : List UInt8) (t : UInt64) : Prop where
  inside :
    (millisecondsAsSeconds t (.uninitialized buf) 64).Inside 64
  text :
    ∃ seconds millis after,
      (millisecondsAsSeconds t (.uninitialized buf) 64).bytes =
        seconds ++ 0x2E :: millis ++ 0 :: after ∧
      decimal.Canonical seconds (t / 1000).toNat ∧
      decimal.Reads millis (t % 1000).toNat ∧
      millis.length = 3

section Timestamps

variable {buf : List UInt8}
variable {t : UInt64}

/-- The seconds of a 64-bit tick count -/
theorem toNat_seconds (t : UInt64) : (t / 1000).toNat = t.toNat / 1000 :=
  UInt64.toNat_div t 1000

/-- What is left of a tick count behind the seconds -/
theorem toNat_millis (t : UInt64) : (t % 1000).toNat = t.toNat % 1000 :=
  UInt64.toNat_mod t 1000

/-- What is left of a tick count is below 1000. -/
theorem toNat_millis_lt (t : UInt64) : (t % 1000).toNat < 1000 := by
  rw [toNat_millis]
  exact Nat.mod_lt _ (by decide)

/-- The pointer behind the dot -/
theorem toNat_behindDot
    {length : Nat}
    (short : length ≤ 20) :
    (UInt64.ofNat length + 1).toNat = length + 1 := by
  have next : UInt64.ofNat length + 1 = UInt64.ofNat (length + 1) :=
    (UInt64.ofNat_add length 1).symm
  rw [next]
  apply UInt64.toNat_ofNat_of_lt'
  change _ < 2 ^ 64
  omega

/-- The parts of the buffer that a timestamp goes into -/
theorem exists_timestamp_parts
    (size : buf.length = 64)
    (t : UInt64) :
    ∃ gap dot first second third fourth after,
      buf = gap ++ dot :: first :: second :: third :: fourth :: after ∧
      gap.length = (decimal.numeral (t / 1000).toNat).length ∧
      buf[Nat.log 10 (t.toNat / 1000) + 4]? = some third := by
  have short := length_numeral_le_twenty (t / 1000).toNat_lt
  have length :=
    decimal.length_numeral (t / 1000).toNat
  have within :
      (decimal.numeral (t / 1000).toNat).length < buf.length := by
    omega
  obtain ⟨gap, dot, rest, split, gapLength⟩ := exists_split_at within
  have restLength : gap.length + (rest.length + 1) = 64 := by
    rw [← size, split, List.length_append, List.length_cons]
  rcases rest with _ | ⟨first, _ | ⟨second, _ | ⟨third, _ |
    ⟨fourth, after⟩⟩⟩⟩
  · rw [List.length_nil] at restLength
    omega
  · rw [List.length_singleton] at restLength
    omega
  · simp only [List.length_cons, List.length_nil] at restLength
    omega
  · simp only [List.length_cons, List.length_nil] at restLength
    omega
  · refine
      ⟨gap, dot, first, second, third, fourth, after, split, gapLength, ?_⟩
    have index : Nat.log 10 (t.toNat / 1000) + 4 = gap.length + 3 := by
      rw [gapLength, length, toNat_seconds]
      rfl
    rw [index, split]
    simp

/-- What `milliseconds_as_seconds` leaves in the buffer -/
theorem bytes_millisecondsAsSeconds
    {gap after : List UInt8}
    {dot first second third fourth : UInt8}
    (split :
      buf = gap ++ dot :: first :: second :: third :: fourth :: after)
    (fits : gap.length = (decimal.numeral (t / 1000).toNat).length) :
    (millisecondsAsSeconds t (.uninitialized buf) 64).bytes =
      decimal.numeral (t / 1000).toNat ++
        0x2E :: milliseconds (t % 1000).toNat third ++ 0 :: after := by
  have short := length_numeral_le_twenty (t / 1000).toNat_lt
  have seconds :
      (ulltoa (t / 1000) (.uninitialized buf) 0).bytes =
        decimal.numeral (t / 1000).toNat ++
          0 :: first :: second :: third :: fourth :: after :=
    bytes_ulltoa split fits
  generalize hlength :
    (decimal.numeral (t / 1000).toNat).length = length at fits short
  have start : (0 : UInt64).toNat = 0 := rfl
  have withDot :
      ((ulltoa (t / 1000) (.uninitialized buf) 0).storeAt
          0 (UInt64.ofNat length) 0x2E).bytes =
        decimal.numeral (t / 1000).toNat ++
          0x2E :: first :: second :: third :: fourth :: after := by
    rw [CharArray.storeAt_ofNat _ _ _ _ (by omega)]
    apply CharArray.bytes_store seconds
    omega
  have pointer := toNat_behindDot short
  have below := toNat_millis_lt t
  have parts :
      ((ulltoa (t / 1000) (.uninitialized buf) 0).storeAt
          0 (UInt64.ofNat length) 0x2E).bytes =
        (decimal.numeral (t / 1000).toNat ++ [0x2E]) ++
          [first, second, third] ++ fourth :: after := by
    rw [withDot]
    simp
  have startsAt :
      (decimal.numeral (t / 1000).toNat ++ [0x2E]).length =
        (UInt64.ofNat length + 1).toNat := by
    rw [List.length_append, hlength, pointer]
    rfl
  have ended :=
    bytes_zeroExtend3 below parts startsAt rfl rfl (by omega)
  rw [millisecondsAsSeconds]
  simp only [digitCountUnsigned_eq, hlength]
  rw [ended]
  simp

/-- `milliseconds_as_seconds` stores inside the buffer. -/
theorem inside_millisecondsAsSeconds
    (buf : List UInt8)
    (t : UInt64) :
    (millisecondsAsSeconds t (.uninitialized buf) 64).Inside 64 := by
  have short := length_numeral_le_twenty (t / 1000).toNat_lt
  generalize hlength :
    (decimal.numeral (t / 1000).toNat).length = length at short
  have below := toNat_millis_lt t
  have start : (0 : UInt64).toNat = 0 := rfl
  have pointer := toNat_behindDot short
  rw [millisecondsAsSeconds]
  simp only [digitCountUnsigned_eq, hlength]
  apply inside_zeroExtend3 below
  · rw [CharArray.storeAt_ofNat _ _ _ _ (by omega)]
    apply CharArray.inside_store (by omega)
    apply inside_ulltoa
    · exact CharArray.inside_uninitialized buf
    · omega
    · decide
  · omega
  · decide

/-- A timestamp is well formed when its last three digits are. -/
theorem wellFormed_iff_reads
    {gap after : List UInt8}
    {dot first second third fourth : UInt8}
    (split :
      buf = gap ++ dot :: first :: second :: third :: fourth :: after)
    (fits : gap.length = (decimal.numeral (t / 1000).toNat).length) :
    WellFormedTimestamp buf t ↔
      decimal.Reads
        (milliseconds (t % 1000).toNat third) (t % 1000).toNat := by
  have bytes := bytes_millisecondsAsSeconds split fits
  have threeDigits :
      (milliseconds (t % 1000).toNat third).length = 3 :=
    length_milliseconds (toNat_millis_lt t)
  constructor
  · intro wellFormed
    obtain ⟨seconds, millis, behind, text, canonical, reads, three⟩ :=
      wellFormed.text
    rw [bytes, canonical.eq_numeral, List.append_assoc,
      List.append_assoc, List.append_cancel_left_eq] at text
    have same :=
      (List.append_inj (List.cons.inj text).2
        (threeDigits.trans three.symm)).1
    rw [same]
    exact reads
  · intro reads
    exact
      { inside := inside_millisecondsAsSeconds buf t
        text :=
          ⟨_, _, after, bytes, decimal.canonical_numeral _, reads,
            threeDigits⟩ }

/-- The milliseconds other than 0 hold no end of a string. -/
theorem zero_not_mem_milliseconds
    {num : Nat}
    (positive : num ≠ 0)
    (third : UInt8) :
    0 ∉ milliseconds num third := by
  rw [milliseconds, if_neg positive, List.mem_append, not_or]
  constructor
  · intro member
    exact absurd (List.eq_of_mem_replicate member) (by decide)
  · exact zero_not_mem_decimal num

/--
Once the timer is enabled, the time since boot is the seconds, a dot and
three digits, unless the milliseconds are 0.
-/
theorem pitIrqTimerGetCurrentTimeSinceBoot_eq
    (size : buf.length = 64)
    (notWhole : t.toNat % 1000 ≠ 0) :
    pitIrqTimerGetCurrentTimeSinceBoot true t buf =
      decimal.numeral (t.toNat / 1000) ++
        0x2E :: (List.replicate
          (3 - (decimal.numeral (t.toNat % 1000)).length) 0x30 ++
          decimal.numeral (t.toNat % 1000)) := by
  obtain ⟨gap, dot, first, second, third, fourth, after, split, fits,
    isThird⟩ := exists_timestamp_parts size t
  have bytes := bytes_millisecondsAsSeconds split fits
  rw [toNat_seconds, toNat_millis] at bytes
  have noZero :
      0 ∉ decimal.numeral (t.toNat / 1000) ++
        0x2E :: milliseconds (t.toNat % 1000) third := by
    rw [List.mem_append, List.mem_cons, not_or, not_or]
    exact
      ⟨zero_not_mem_decimal _, by decide,
        zero_not_mem_milliseconds notWhole third⟩
  rw [pitIrqTimerGetCurrentTimeSinceBoot, if_neg Bool.false_ne_true.symm,
    bytes, printString_append_zero noZero, milliseconds, if_neg notWhole]

/--
A timestamp is well formed exactly when its milliseconds are not 0 or the
buffer already held a zero where their third digit belongs.
-/
theorem millisecondsAsSeconds_wellFormed_iff
    (size : buf.length = 64)
    (t : UInt64) :
    WellFormedTimestamp buf t ↔
      t.toNat % 1000 ≠ 0 ∨
        buf[Nat.log 10 (t.toNat / 1000) + 4]? = some 0x30 := by
  obtain ⟨gap, dot, first, second, third, fourth, after, split, fits,
    isThird⟩ := exists_timestamp_parts size t
  rw [wellFormed_iff_reads split fits, reads_milliseconds_iff, isThird,
    Option.some.injEq, toNat_millis]

/-- 12345 ticks after boot the log prints 12.345. -/
theorem millisecondsAsSeconds_wellFormed_at_12345 :
    WellFormedTimestamp (List.replicate 64 0) 12345 :=
  (millisecondsAsSeconds_wellFormed_iff (by decide) 12345).mpr
    (Or.inl (by decide))

/-- 0 ticks after boot a cleared buffer holds no third digit. -/
theorem millisecondsAsSeconds_zero_counterexample :
    ¬ ∀ (buf : List UInt8) (t : UInt64),
      buf.length = 64 →
      WellFormedTimestamp buf t := by
  intro always
  have split :
      List.replicate 64 (0 : UInt8) =
        [0] ++ 0 :: 0 :: 0 :: 0 :: 0 :: List.replicate 58 0 :=
    rfl
  have reads :=
    (wellFormed_iff_reads split rfl).mp (always _ 0 (by decide))
  rcases reads_milliseconds_iff.mp reads with nonzero | isZeroChar
  · exact nonzero rfl
  · exact absurd isZeroChar (by decide)

end Timestamps

end Relics.Print
