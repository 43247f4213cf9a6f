namespace Relics.Print

/-!
# Printing numbers

The functions of `kio.c` that turn a number into characters.  What a function
prints is the list of the characters it passes to `print_char` one by one.  A
local array starts with whatever the stack held; every store to it is recorded
with its index, the latest first.  A store outside the array faults, so a
function that has one on record does not return.
-/

/-- The characters of a text. -/
def chars (text : String) : List UInt8 :=
  text.toList.map fun char => UInt8.ofNat char.toNat

/-- A local array of characters. -/
structure CharArray where
  bytes : List UInt8
  stores : List Nat

/-- An array that has not been stored to. -/
def CharArray.uninitialized (leftOver : List UInt8) : CharArray where
  bytes := leftOver
  stores := []

/-- `array[index] = char`; a store outside is on record only -/
def CharArray.store
    (array : CharArray)
    (index : Nat)
    (char : UInt8) :
    CharArray where
  bytes := array.bytes.set index char
  stores := index :: array.stores

/-- Every store so far went into the first cells. -/
def CharArray.Inside (size : Nat) (array : CharArray) : Prop :=
  ∀ index ∈ array.stores, index < size

instance (size : Nat) (array : CharArray) : Decidable (array.Inside size) :=
  inferInstanceAs (Decidable (∀ index ∈ array.stores, index < size))

/-- A division by 10 that rounds towards 0 brings a number closer to 0. -/
theorem natAbs_div_ten_lt
    {num : Int64}
    (nonzero : num ≠ 0) :
    (num / 10).toInt.natAbs < num.toInt.natAbs := by
  have nonzeroInt : num.toInt ≠ 0 := by
    intro zero
    apply nonzero
    exact Int64.toInt_inj.mp zero
  have magnitude : (num.toInt.tdiv 10).natAbs = num.toInt.natAbs / 10 :=
    Int.natAbs_tdiv num.toInt 10
  have quotient : (num / 10).toInt = num.toInt.tdiv 10 :=
    Int64.toInt_div_of_ne_right num 10 (by decide)
  rw [quotient, magnitude]
  omega

/-- The loop of `digit_count` -/
def digitCountLoop (num : Int64) (count : UInt32) : UInt32 :=
  if positive : 0 < num then
    digitCountLoop (num / 10) (count + 1)
  else
    count
termination_by num.toInt.natAbs
decreasing_by
  apply natAbs_div_ten_lt
  rintro rfl
  exact absurd positive (by decide)

/-- `digit_count` -/
def digitCount (num : Int64) : UInt32 :=
  if num = 0 then
    1
  else if num < 0 then
    digitCountLoop (num * -1) 1
  else
    digitCountLoop num 0

/-- The loop of `lltoa` at the label `getnum` -/
def getnum (num : Int64) (index : UInt32) (number : CharArray) : CharArray :=
  if nonzero : num ≠ 0 then
    let x := (num % 10).toInt8
    getnum (num / 10) (index - 1)
      (number.store index.toNat (x.toUInt8 + 0x30))
  else
    number
termination_by num.toInt.natAbs
decreasing_by
  exact natAbs_div_ten_lt nonzero

/-- `lltoa` -/
def lltoa (num : Int64) (number : CharArray) : CharArray :=
  let dgcount := digitCount num
  let index := dgcount - 1
  if num = 0 ∧ dgcount = 1 then
    (number.store 0 0x30).store 1 0
  else if num < 0 then
    let number := number.store 0 0x2D
    (getnum (num * -1) index number).store dgcount.toNat 0
  else
    (getnum num index number).store dgcount.toNat 0

/-- The base of a numeral.  In base 1 the digits would never end. -/
structure Base where
  value : UInt32
  notOne : value ≠ 1

/-- Dividing by a base other than 0 leaves a smaller number. -/
theorem toNat_div_base_lt
    {n : UInt64}
    {base : Base}
    (nonzero : base.value ≠ 0)
    (positive : 0 < n) :
    (n / base.value.toUInt64).toNat < n.toNat := by
  have positiveNat : 0 < n.toNat := UInt64.lt_iff_toNat_lt.mp positive
  have notZero : base.value.toNat ≠ 0 := fun zero =>
    nonzero (UInt32.toNat_inj.mp zero)
  have notOne : base.value.toNat ≠ 1 := fun one =>
    base.notOne (UInt32.toNat_inj.mp one)
  rw [UInt64.toNat_div, UInt32.toNat_toUInt64]
  exact Nat.div_lt_self positiveNat (by omega)

/-- `digits` -/
def digits : List UInt8 :=
  chars "0123456789abcdef"

/-- The loop of `decimal_to_base` that stores the digits -/
def digitLoop
    (base : Base)
    (nonzero : base.value ≠ 0)
    (n : UInt64)
    (num : CharArray)
    (i : Nat) :
    CharArray × Nat :=
  if positive : 0 < n then
    let digit := digits.getD (n % base.value.toUInt64).toNat 0
    digitLoop base nonzero (n / base.value.toUInt64) (num.store i digit)
      (i + 1)
  else
    (num, i)
termination_by n.toNat
decreasing_by
  exact toNat_div_base_lt nonzero positive

/-- A loop of `decimal_to_base` that stores zeros up to a length -/
def padLoop (length : Nat) (num : CharArray) (i : Nat) : CharArray × Nat :=
  if i < length then
    padLoop length (num.store i 0x30) (i + 1)
  else
    (num, i)
termination_by length - i

/-- The zero extension of `decimal_to_base` -/
def zeroExtension
    (base : Base)
    (stored : CharArray × Nat) :
    CharArray × Nat :=
  if base.value = 16 then
    padLoop 16 stored.1 stored.2
  else if base.value = 2 then
    padLoop 64 stored.1 stored.2
  else if base.value = 10 then
    padLoop 20 stored.1 stored.2
  else
    stored

/-- The last loop of `decimal_to_base`, from index `count - 1` down to 0 -/
def printBackwards (num : CharArray) : (count : Nat) → List UInt8
  | 0 => []
  | count + 1 => num.bytes.getD count 0 :: printBackwards num count

/-- The array `num` of `decimal_to_base` and its length when it is printed. -/
def numeral
    (leftOver : List UInt8)
    (n : UInt64)
    (base : Base)
    (nonzero : base.value ≠ 0)
    (zeroPad : Bool) :
    CharArray × Nat :=
  let stored := digitLoop base nonzero n (.uninitialized leftOver) 0
  if zeroPad = true then
    zeroExtension base stored
  else
    stored

/-- `decimal_to_base`: what it prints, and `*zero_pad` afterwards -/
def decimalToBase
    (leftOver : List UInt8)
    (n : UInt64)
    (base : Base)
    (zeroPad : Bool) :
    List UInt8 × Bool :=
  if nonzero : base.value = 0 then
    ([], zeroPad)
  else if n = 0 ∧ zeroPad = false then
    ([0x30], zeroPad)
  else
    let (num, i) := numeral leftOver n base nonzero zeroPad
    (printBackwards num i, false)

/-- 0 has a branch of its own when it is not padded. -/
theorem decimalToBase_zero
    {base : Base}
    (leftOver : List UInt8)
    (nonzero : base.value ≠ 0) :
    decimalToBase leftOver 0 base false = ([0x30], false) := by
  rw [decimalToBase, dif_neg nonzero, if_pos ⟨rfl, rfl⟩]

/-- Everything else is printed from the array. -/
theorem decimalToBase_stored
    {n : UInt64}
    {base : Base}
    {zeroPad : Bool}
    (leftOver : List UInt8)
    (nonzero : base.value ≠ 0)
    (stored : ¬ (n = 0 ∧ zeroPad = false)) :
    decimalToBase leftOver n base zeroPad =
      (printBackwards (numeral leftOver n base nonzero zeroPad).1
        (numeral leftOver n base nonzero zeroPad).2, false) := by
  rw [decimalToBase, dif_neg nonzero, if_neg stored]

/-- `print_string`: the characters before the first 0 -/
def printString : (str : List UInt8) → List UInt8
  | [] => []
  | char :: rest => if char = 0 then [] else char :: printString rest

/-- `print_string` prints the whole of a string. -/
theorem printString_of_notMem
    {str : List UInt8}
    (nonzero : 0 ∉ str) :
    printString str = str := by
  induction str with
  | nil =>
      rfl
  | cons char rest inductionHypothesis =>
      rw [List.mem_cons, not_or] at nonzero
      rw [printString, if_neg (Ne.symm nonzero.1),
        inductionHypothesis nonzero.2]

/-- `print_long_long`; nothing is printed when `lltoa` faults -/
def printLongLong (leftOver : List UInt8) (num : Int64) :
    Option (List UInt8) :=
  let strNum := lltoa num (.uninitialized leftOver)
  if strNum.Inside 64 then
    some (printString strNum.bytes)
  else
    none

/-- `print_long` -/
def printLong (leftOver : List UInt8) (num : Int64) : Option (List UInt8) :=
  printLongLong leftOver num

/-- `print_int` -/
def printInt (leftOver : List UInt8) (num : Int32) : Option (List UInt8) :=
  printLong leftOver num.toInt64

/-- `print_unsigned_long_long` -/
def printUnsignedLongLong
    (leftOver : List UInt8)
    (num : UInt64)
    (zeroPad : Bool) :
    List UInt8 × Bool :=
  decimalToBase leftOver num ⟨10, by decide⟩ zeroPad

/-- `print_unsigned_long` -/
def printUnsignedLong
    (leftOver : List UInt8)
    (num : UInt64)
    (zeroPad : Bool) :
    List UInt8 × Bool :=
  printUnsignedLongLong leftOver num zeroPad

/-- `print_unsigned_int` -/
def printUnsignedInt
    (leftOver : List UInt8)
    (num : UInt32)
    (zeroPad : Bool) :
    List UInt8 × Bool :=
  printUnsignedLong leftOver num.toUInt64 zeroPad

end Relics.Print
