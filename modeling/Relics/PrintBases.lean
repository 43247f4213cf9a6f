import Relics.PrintDigits
import Relics.PrintPieces

namespace Relics.Print

open PositionalNumeral

/-!
# Unsigned numbers in a base

`decimal_to_base` stores the digits of a number from the last one upwards,
extends them with zeros when it pads, and prints the array from its end.  A
zero has no digits to store: without padding it is printed on its own, and
with padding only the extension of its base leaves a numeral.
-/

/-- A base that the conversions of `actual_print` print in -/
structure PrintedBase extends Base where
  printed : value = 2 ∨ value = 8 ∨ value = 10 ∨ value = 16

namespace PrintedBase

variable (base : PrintedBase)

/-- A base that is printed in is not 0. -/
theorem nonzero : base.value ≠ 0 := by
  rcases base.printed with two | eight | ten | sixteen
  · rw [two]
    decide
  · rw [eight]
    decide
  · rw [ten]
    decide
  · rw [sixteen]
    decide

/-- A base that is printed in lies between 2 and 16. -/
theorem bounds :
    1 < base.value.toNat ∧ base.value.toNat ≤ 16 := by
  rcases base.printed with two | eight | ten | sixteen
  · rw [two]
    decide
  · rw [eight]
    decide
  · rw [ten]
    decide
  · rw [sixteen]
    decide

/-- The digits of a base -/
def alphabet : Alphabet UInt8 :=
  asciiDigits base.value.toNat base.bounds.1 base.bounds.2

/-- The length up to which a numeral is padded -/
def paddedLength : Nat :=
  if base.value = 2 then
    64
  else if base.value = 10 then
    20
  else if base.value = 16 then
    16
  else
    0

/-- No numeral is padded beyond the array. -/
theorem paddedLength_le : base.paddedLength ≤ 64 := by
  unfold paddedLength
  split
  · exact Nat.le_refl 64
  · split
    · decide
    · split
      · decide
      · decide

/-- Only numerals in base 8 are not padded. -/
theorem paddedLength_eq_zero_iff :
    base.paddedLength = 0 ↔ base.value = 8 := by
  unfold paddedLength
  rcases base.printed with two | eight | ten | sixteen
  · rw [two]
    decide
  · rw [eight]
    decide
  · rw [ten]
    decide
  · rw [sixteen]
    decide

end PrintedBase

section Loops

variable {base : PrintedBase}

/-- `decimal_to_base` stores the digits of a number upwards, last digit first. -/
theorem digitLoop_eq
    (n : UInt64)
    (num : CharArray)
    (i : Nat) :
    digitLoop base.toBase base.nonzero n num i =
      (num.storeForwards i
        ((Nat.digits base.value.toNat n.toNat).map digitChar),
      i + (Nat.digits base.value.toNat n.toNat).length) := by
  obtain ⟨one_lt_base, base_le⟩ := base.bounds
  induction n, num, i using digitLoop.induct base.toBase base.nonzero with
  | case1 n num i positive digit inductionHypothesis =>
      have positiveNat : n.toNat ≠ 0 :=
        (UInt64.lt_iff_toNat_lt.mp positive).ne'
      have remainder :
          (n % base.value.toUInt64).toNat =
            n.toNat % base.value.toNat := by
        rw [UInt64.toNat_mod, UInt32.toNat_toUInt64]
      have quotient :
          (n / base.value.toUInt64).toNat =
            n.toNat / base.value.toNat := by
        rw [UInt64.toNat_div, UInt32.toNat_toUInt64]
      have below : n.toNat % base.value.toNat < base.value.toNat :=
        Nat.mod_lt _ (Nat.lt_trans Nat.zero_lt_one one_lt_base)
      have char : digit = digitChar (n.toNat % base.value.toNat) := by
        change digits.getD _ 0 = _
        rw [remainder]
        exact digits_getD (Nat.lt_of_lt_of_le below base_le)
      rw [digitLoop, dif_pos positive, inductionHypothesis, quotient, char,
        Nat.digits_eq_cons_digits_div one_lt_base positiveNat,
        List.length_cons, Nat.add_right_comm]
      rfl
  | case2 n num i notPositive =>
      have isZero : n = 0 :=
        UInt64.le_zero_iff.mp (UInt64.not_lt.mp notPositive)
      rw [digitLoop, dif_neg notPositive, isZero]
      simp [CharArray.storeForwards]

/-- A padding loop stores zeros up to its length. -/
theorem padLoop_eq
    (length : Nat)
    (num : CharArray)
    (i : Nat) :
    padLoop length num i =
      (num.storeForwards i (List.replicate (length - i) 0x30),
      i + (length - i)) := by
  induction num, i using padLoop.induct length with
  | case1 num i inside inductionHypothesis =>
      have missing : length - i = length - (i + 1) + 1 := by
        omega
      rw [padLoop, if_pos inside, inductionHypothesis, missing,
        List.replicate_succ, Nat.add_right_comm]
      rfl
  | case2 num i outside =>
      have nothing : length - i = 0 := by
        omega
      rw [padLoop, if_neg outside, nothing]
      rfl

/-- The zero extension stores zeros up to the padded length. -/
theorem zeroExtension_eq (stored : CharArray × Nat) :
    zeroExtension base.toBase stored =
      (stored.1.storeForwards stored.2
        (List.replicate (base.paddedLength - stored.2) 0x30),
      stored.2 + (base.paddedLength - stored.2)) := by
  unfold zeroExtension PrintedBase.paddedLength
  rcases base.printed with two | eight | ten | sixteen
  · rw [two]
    exact padLoop_eq 64 stored.1 stored.2
  · rw [eight]
    rcases stored with ⟨num, i⟩
    simp [CharArray.storeForwards]
  · rw [ten]
    exact padLoop_eq 20 stored.1 stored.2
  · rw [sixteen]
    exact padLoop_eq 16 stored.1 stored.2

/-- The array is printed from its end. -/
theorem printBackwards_eq
    {num : CharArray}
    {count : Nat}
    (fits : count ≤ num.bytes.length) :
    printBackwards num count = (num.bytes.take count).reverse := by
  induction count with
  | zero =>
      rfl
  | succ count inductionHypothesis =>
      have inside : count < num.bytes.length := fits
      rw [printBackwards, inductionHypothesis (Nat.le_of_lt inside),
        List.take_add_one, List.getD_eq_getElem?_getD,
        List.getElem?_eq_getElem inside, List.reverse_append]
      rfl

end Loops

/-- The characters that `decimal_to_base` stores, from the first cell up -/
def storedText
    (base : PrintedBase)
    (n : UInt64)
    (zeroPad : Bool) :
    List UInt8 :=
  let digits := (Nat.digits base.value.toNat n.toNat).map digitChar
  if zeroPad = true then
    digits ++ List.replicate (base.paddedLength - digits.length) 0x30
  else
    digits

section Storing

variable {base : PrintedBase}

/-- The array of `decimal_to_base` starts with the stored characters. -/
theorem numeral_eq
    (leftOver : List UInt8)
    (n : UInt64)
    (zeroPad : Bool) :
    numeral leftOver n base.toBase base.nonzero zeroPad =
      ((CharArray.uninitialized leftOver).storeForwards 0
        (storedText base n zeroPad),
      (storedText base n zeroPad).length) := by
  cases zeroPad with
  | false =>
      simp [numeral, storedText, digitLoop_eq]
  | true =>
      simp [numeral, storedText, digitLoop_eq, zeroExtension_eq,
        CharArray.storeForwards_append]

/-- The stored characters fit into the array. -/
theorem length_storedText_le
    (n : UInt64)
    (zeroPad : Bool) :
    (storedText base n zeroPad).length ≤ 64 := by
  have digitsFit :
      (Nat.digits base.value.toNat n.toNat).length ≤ 64 := by
    rw [Nat.digits_length_le_iff base.bounds.1]
    calc
      n.toNat < 2 ^ 64 := n.toNat_lt
      _ ≤ base.value.toNat ^ 64 :=
        Nat.pow_le_pow_left base.bounds.1 64
  have paddingFits := base.paddedLength_le
  cases zeroPad with
  | false =>
      simpa [storedText] using digitsFit
  | true =>
      simp only [storedText, ↓reduceIte, List.length_append,
        List.length_replicate, List.length_map]
      omega

/-- What is printed from the array is the stored characters turned round. -/
theorem printBackwards_numeral
    {leftOver : List UInt8}
    (size : leftOver.length = 64)
    (n : UInt64)
    (zeroPad : Bool) :
    printBackwards
        ((CharArray.uninitialized leftOver).storeForwards 0
          (storedText base n zeroPad))
        (storedText base n zeroPad).length =
      (storedText base n zeroPad).reverse := by
  have fits : (storedText base n zeroPad).length ≤ 64 :=
    length_storedText_le n zeroPad
  generalize storedText base n zeroPad = text at fits
  have bytes :
      ((CharArray.uninitialized leftOver).storeForwards 0 text).bytes =
        text ++ leftOver.drop text.length := by
    have whole :
        (CharArray.uninitialized leftOver).bytes =
          [] ++ leftOver.take text.length ++ leftOver.drop text.length :=
      (List.take_append_drop text.length leftOver).symm
    exact CharArray.bytes_storeForwards whole rfl
      (List.length_take_of_le (by omega))
  rw [printBackwards_eq, bytes]
  · rw [List.take_left]
  · rw [bytes, List.length_append]
    exact Nat.le_add_right _ _

/-- The stored characters of a positive number, turned round -/
theorem reverse_storedText
    {n : UInt64}
    (positive : n ≠ 0)
    (zeroPad : Bool) :
    (storedText base n zeroPad).reverse =
      List.replicate
        (if zeroPad = true then
          base.paddedLength - (base.alphabet.numeral n.toNat).length
        else
          0) 0x30 ++
        base.alphabet.numeral n.toNat := by
  have positiveNat := toNat_ne_zero_of_ne positive
  have reversed :
      ((Nat.digits base.value.toNat n.toNat).map digitChar).reverse =
        base.alphabet.numeral n.toNat := by
    rw [Alphabet.numeral, if_neg positiveNat]
    rfl
  cases zeroPad with
  | false =>
      exact reversed
  | true =>
      rw [← reversed]
      simp [storedText]

end Storing

/--
A number is stored inside the 64 characters, printed from inside them, and
reads back from what is printed; without padding there is no leading zero,
and with padding the numeral has at least the padded length.
-/
structure PrintsNumeral
    (leftOver : List UInt8)
    (n : UInt64)
    (base : PrintedBase)
    (zeroPad : Bool) :
    Prop where
  inside :
    (numeral leftOver n base.toBase base.nonzero zeroPad).1.Inside 64
  printedInside :
    (numeral leftOver n base.toBase base.nonzero zeroPad).2 ≤ 64
  reads :
    base.alphabet.Reads
      (decimalToBase leftOver n base.toBase zeroPad).1 n.toNat
  unpadded :
    zeroPad = false →
    base.alphabet.Canonical
      (decimalToBase leftOver n base.toBase zeroPad).1 n.toNat
  padded :
    zeroPad = true →
    base.paddedLength ≤
      (decimalToBase leftOver n base.toBase zeroPad).1.length

section RoundTrip

variable {leftOver : List UInt8}
variable {base : PrintedBase}
variable {n : UInt64}
variable {zeroPad : Bool}

/-- Nothing is stored beyond the array. -/
theorem inside_numeral :
    (numeral leftOver n base.toBase base.nonzero zeroPad).1.Inside 64 := by
  rw [numeral_eq]
  apply CharArray.inside_storeForwards
  · rw [Nat.zero_add]
    exact length_storedText_le n zeroPad
  · exact CharArray.inside_uninitialized leftOver

/-- Nothing is printed from beyond the array. -/
theorem length_numeral_le :
    (numeral leftOver n base.toBase base.nonzero zeroPad).2 ≤ 64 := by
  rw [numeral_eq]
  exact length_storedText_le n zeroPad

/-- What is printed when the digits go through the array -/
theorem decimalToBase_eq
    (size : leftOver.length = 64)
    (stored : ¬ (n = 0 ∧ zeroPad = false)) :
    (decimalToBase leftOver n base.toBase zeroPad).1 =
      (storedText base n zeroPad).reverse := by
  rw [decimalToBase_stored leftOver base.nonzero stored, numeral_eq]
  exact printBackwards_numeral size n zeroPad

/-- A positive number is printed as its numeral behind the padding. -/
theorem printsNumeral_of_ne_zero
    (size : leftOver.length = 64)
    (positive : n ≠ 0) :
    PrintsNumeral leftOver n base zeroPad := by
  have text :
      (decimalToBase leftOver n base.toBase zeroPad).1 =
        (storedText base n zeroPad).reverse :=
    decimalToBase_eq size (fun both => positive both.1)
  rw [reverse_storedText positive] at text
  constructor
  · exact inside_numeral
  · exact length_numeral_le
  · rw [text]
    exact base.alphabet.reads_padded _ _
  · rintro rfl
    rw [text]
    exact base.alphabet.canonical_numeral _
  · rintro rfl
    rw [text, List.length_append, List.length_replicate, if_pos rfl]
    omega

/-- Without padding, 0 is printed as its one digit. -/
theorem printsNumeral_zero_unpadded :
    PrintsNumeral leftOver 0 base false := by
  have canonical := base.alphabet.canonical_numeral 0
  have text :
      (decimalToBase leftOver 0 base.toBase false).1 =
        base.alphabet.numeral 0 := by
    rw [decimalToBase_zero leftOver base.nonzero]
    rfl
  constructor
  · exact inside_numeral
  · exact length_numeral_le
  · rw [text]
    exact canonical.toReads
  · intro _
    rw [text]
    exact canonical
  · intro padded
    exact absurd padded Bool.false_ne_true

/-- With padding, 0 is printed as the zeros of the extension alone. -/
theorem decimalToBase_zero_padded
    (size : leftOver.length = 64) :
    (decimalToBase leftOver 0 base.toBase true).1 =
      List.replicate base.paddedLength 0x30 := by
  rw [decimalToBase_eq size (fun both => absurd both.2 Bool.false_ne_true.symm)]
  simp [storedText]

/-- With padding, 0 is a numeral in every base that is padded. -/
theorem printsNumeral_zero_padded
    (size : leftOver.length = 64)
    (notEight : base.value ≠ 8) :
    PrintsNumeral leftOver 0 base true := by
  have padded : base.paddedLength ≠ 0 :=
    mt base.paddedLength_eq_zero_iff.mp notEight
  have text :
      (decimalToBase leftOver 0 base.toBase true).1 =
        List.replicate base.paddedLength 0x30 :=
    decimalToBase_zero_padded size
  have lastZero :
      List.replicate base.paddedLength (0x30 : UInt8) =
        List.replicate (base.paddedLength - 1) 0x30 ++
          base.alphabet.numeral 0 := by
    conv_lhs => rw [← Nat.succ_pred_eq_of_ne_zero padded,
      List.replicate_succ']
    rfl
  constructor
  · exact inside_numeral
  · exact length_numeral_le
  · rw [text, lastZero]
    exact base.alphabet.reads_padded _ _
  · intro unpadded
    exact absurd unpadded Bool.false_ne_true.symm
  · intro _
    rw [text, List.length_replicate]

/-- A padded 0 in base 8 is printed as nothing. -/
theorem not_printsNumeral_octal_zero
    (size : leftOver.length = 64)
    (eight : base.value = 8) :
    ¬ PrintsNumeral leftOver 0 base true := by
  intro prints
  apply prints.reads.nonempty
  rw [decimalToBase_zero_padded size,
    base.paddedLength_eq_zero_iff.mpr eight]
  rfl

/--
Every number is printed as a numeral of its value in every base, padded or
not, but for a padded 0 in base 8.
-/
theorem decimalToBase_roundTrip_iff
    (size : leftOver.length = 64)
    (n : UInt64)
    (base : PrintedBase)
    (zeroPad : Bool) :
    PrintsNumeral leftOver n base zeroPad ↔
      ¬ (base.value = 8 ∧ n = 0 ∧ zeroPad = true) := by
  constructor
  · rintro prints ⟨eight, rfl, rfl⟩
    exact not_printsNumeral_octal_zero size eight prints
  · intro notOctalZero
    by_cases isZero : n = 0
    · subst isZero
      cases zeroPad with
      | false =>
          exact printsNumeral_zero_unpadded
      | true =>
          apply printsNumeral_zero_padded size
          intro eight
          exact notOctalZero ⟨eight, rfl, rfl⟩
    · exact printsNumeral_of_ne_zero size isZero

/-- A padded 5 in base 2 reads back from what is printed. -/
theorem decimalToBase_roundTrip_at_five :
    PrintsNumeral (List.replicate 64 0) 5
      ⟨⟨2, Specifier.two_ne_one⟩, Or.inl rfl⟩ true :=
  (decimalToBase_roundTrip_iff (by decide) 5 _ true).mpr (by decide)

/-- A padded 0 in base 8 leaves no numeral. -/
theorem decimalToBase_octal_zero_counterexample :
    ¬ ∀ (leftOver : List UInt8) (n : UInt64) (base : PrintedBase)
        (zeroPad : Bool),
      leftOver.length = 64 →
      PrintsNumeral leftOver n base zeroPad := by
  intro always
  exact not_printsNumeral_octal_zero (by decide) rfl
    (always (List.replicate 64 0) 0
      ⟨⟨8, Specifier.eight_ne_one⟩, Or.inr (Or.inl rfl)⟩ true (by decide))

end RoundTrip

/-- The conversions to unsigned numbers print in one of the four bases. -/
theorem Specifier.number_printed
    {specifier : Specifier}
    {value : specifier.type.Value}
    {n : UInt64}
    {base : Base}
    (isNumber : specifier.number value = some (n, base)) :
    base.value = 2 ∨ base.value = 8 ∨ base.value = 10 ∨
      base.value = 16 := by
  cases specifier <;>
    simp only [Specifier.number, Option.some.injEq, Prod.mk.injEq,
      reduceCtorEq] at isNumber
  all_goals
    obtain ⟨_, rfl⟩ := isNumber
    simp

/--
A conversion to an unsigned number prints its lead and the canonical numeral
of its argument.
-/
theorem Specifier.rendering_number
    {leftOver : List UInt8}
    {specifier : Specifier}
    {value : specifier.type.Value}
    {n : UInt64}
    {base : Base}
    (size : leftOver.length = 64)
    (isNumber : specifier.number value = some (n, base)) :
    ∃ (printed : PrintedBase) (text : List UInt8),
      printed.toBase = base ∧
      specifier.rendering leftOver value = chars specifier.lead ++ text ∧
      printed.alphabet.Canonical text n.toNat := by
  have printed := Specifier.number_printed isNumber
  have numeral : PrintsNumeral leftOver n ⟨base, printed⟩ false := by
    by_cases isZero : n = 0
    · subst isZero
      exact printsNumeral_zero_unpadded
    · exact printsNumeral_of_ne_zero size isZero
  refine ⟨⟨base, printed⟩, _, rfl, ?_, numeral.unpadded rfl⟩
  rw [Specifier.rendering, isNumber]

end Relics.Print
