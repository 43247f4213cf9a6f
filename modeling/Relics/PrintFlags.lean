import Mathlib.Data.Nat.Digits.Lemmas
import Relics.PrintPieces

namespace Relics.Print

/-!
# The `0` flag across conversions

`zero_pad` is cleared by `decimal_to_base` and nowhere else.  A `0` flag on a
conversion that does not call it stays set until the next conversion that
does, so a format may pad a number of the format that is printed after it.
-/

open ByteMemory

section Digits

/-- The digits that `decimal_to_base` fills up to in a base. -/
def width (base : Base) : Nat :=
  if base.value = 16 then 16
  else if base.value = 2 then 64
  else if base.value = 10 then 20
  else 0

variable
    {base : Base}

/-- A base is at least 2. -/
theorem one_lt_base
    (nonzero : base.value ≠ 0) :
    1 < base.value.toNat := by
  have notZero : base.value.toNat ≠ 0 := fun zero =>
    nonzero (UInt32.toNat_inj.mp zero)
  have notOne : base.value.toNat ≠ 1 := fun one =>
    base.notOne (UInt32.toNat_inj.mp one)
  omega

/-- `decimal_to_base` stores one character for each digit of the number. -/
theorem digitLoop_count
    (nonzero : base.value ≠ 0)
    (n : UInt64)
    (num : CharArray)
    (i : Nat) :
    (digitLoop base nonzero n num i).2 =
      i + (Nat.digits base.value.toNat n.toNat).length := by
  fun_induction digitLoop base nonzero n num i with
  | case1 n num i positive digit inductionHypothesis =>
      have positiveNat : 0 < n.toNat := UInt64.lt_iff_toNat_lt.mp positive
      rw [inductionHypothesis,
        Nat.digits_def' (one_lt_base nonzero) positiveNat, List.length_cons,
        UInt64.toNat_div, UInt32.toNat_toUInt64]
      omega
  | case2 n num i notPositive =>
      have zero : n.toNat = 0 := by
        have := mt UInt64.lt_iff_toNat_lt.mpr notPositive
        simpa using this
      rw [zero, Nat.digits_zero]
      rfl

/-- A loop that fills up to a length ends there or where it began. -/
theorem padLoop_count
    (length : Nat)
    (num : CharArray)
    (i : Nat) :
    (padLoop length num i).2 = max length i := by
  fun_induction padLoop length num i with
  | case1 num i short inductionHypothesis =>
      omega
  | case2 num i long =>
      simp only
      omega

/-- A loop that has nothing to fill does nothing. -/
theorem padLoop_of_le
    {length i : Nat}
    (num : CharArray)
    (long : length ≤ i) :
    padLoop length num i = (num, i) := by
  rw [padLoop, if_neg (by omega)]

/-- The zero extension fills up to the width of the base. -/
theorem zeroExtension_count
    (base : Base)
    (stored : CharArray × Nat) :
    (zeroExtension base stored).2 = max (width base) stored.2 := by
  unfold zeroExtension width
  split
  · exact padLoop_count 16 _ _
  · split
    · exact padLoop_count 64 _ _
    · split
      · exact padLoop_count 20 _ _
      · simp

/-- A number with as many digits as the width is not extended. -/
theorem zeroExtension_of_le
    {stored : CharArray × Nat}
    (long : width base ≤ stored.2) :
    zeroExtension base stored = stored := by
  unfold width at long
  unfold zeroExtension
  split
  · exact padLoop_of_le _ (by simpa [*] using long)
  · split
    · exact padLoop_of_le _ (by simpa [*] using long)
    · split
      · exact padLoop_of_le _ (by simpa [*] using long)
      · rfl

/-- `decimal_to_base` prints one character for each index. -/
theorem length_printBackwards
    (num : CharArray)
    (count : Nat) :
    (printBackwards num count).length = count := by
  induction count with
  | zero =>
      rfl
  | succ count inductionHypothesis =>
      rw [printBackwards, List.length_cons, inductionHypothesis]

/--
The number has as many digits as the width.  Base 8 has no width; there the
number is not 0.
-/
def FillsWidth (n : UInt64) (base : Base) : Prop :=
  base.value.toNat ^ (width base - 1) ≤ n.toNat

instance (n : UInt64) (base : Base) : Decidable (FillsWidth n base) :=
  inferInstanceAs (Decidable (_ ≤ _))

/-- Padding leaves a numeral that is not shorter than the width. -/
theorem numeral_padded
    (leftOver : List UInt8)
    (nonzero : base.value ≠ 0)
    (n : UInt64) :
    numeral leftOver n base nonzero true =
      zeroExtension base (numeral leftOver n base nonzero false) :=
  rfl

/-- Without padding a numeral is as long as its digits. -/
theorem numeral_count
    (leftOver : List UInt8)
    (nonzero : base.value ≠ 0)
    (n : UInt64) :
    (numeral leftOver n base nonzero false).2 =
      (Nat.digits base.value.toNat n.toNat).length := by
  have stored := digitLoop_count nonzero n (.uninitialized leftOver) 0
  rw [Nat.zero_add] at stored
  exact stored

/-- A number that fills its width is one that has as many digits. -/
theorem fillsWidth_iff
    (nonzero : base.value ≠ 0)
    (n : UInt64) :
    FillsWidth n base ↔
      width base ≤ (Nat.digits base.value.toNat n.toNat).length ∧ n ≠ 0 := by
  unfold FillsWidth
  rw [← Nat.lt_digits_length_iff (one_lt_base nonzero)]
  by_cases zero : n = 0
  · subst zero
    simp
  · have positive : 0 < (Nat.digits base.value.toNat n.toNat).length := by
      rw [List.length_pos_iff, Ne, Nat.digits_eq_nil_iff_eq_zero]
      exact fun toNatZero => zero (UInt64.toNat_inj.mp toNatZero)
    constructor
    · intro filled
      exact ⟨by omega, zero⟩
    · rintro ⟨long, -⟩
      omega

/-- No base is padded to one character. -/
theorem width_ne_one (base : Base) : width base ≠ 1 := by
  unfold width
  split
  · decide
  · split
    · decide
    · split <;> decide

/-- Padding changes what is printed unless the number fills its width. -/
theorem padded_eq_iff
    (leftOver : List UInt8)
    (nonzero : base.value ≠ 0)
    (n : UInt64) :
    (decimalToBase leftOver n base true).1 =
        (decimalToBase leftOver n base false).1 ↔
      FillsWidth n base := by
  have padded :
      (decimalToBase leftOver n base true).1 =
        printBackwards
          (zeroExtension base (numeral leftOver n base nonzero false)).1
          (zeroExtension base (numeral leftOver n base nonzero false)).2 := by
    rw [decimalToBase_stored leftOver nonzero (by simp), numeral_padded]
  rw [padded, fillsWidth_iff nonzero, ← numeral_count leftOver nonzero]
  by_cases zero : n = 0
  · have unpadded : (decimalToBase leftOver n base false).1 = [0x30] := by
      rw [zero, decimalToBase_zero leftOver nonzero]
    have noDigits : (numeral leftOver n base nonzero false).2 = 0 := by
      rw [numeral_count, zero]
      simp
    rw [unpadded]
    constructor
    · intro same
      have lengths := congrArg List.length same
      rw [length_printBackwards, zeroExtension_count, noDigits,
        Nat.max_zero] at lengths
      exact absurd lengths (width_ne_one base)
    · rintro ⟨-, nonzeroNumber⟩
      exact absurd zero nonzeroNumber
  · have unpadded :
        (decimalToBase leftOver n base false).1 =
          printBackwards (numeral leftOver n base nonzero false).1
            (numeral leftOver n base nonzero false).2 := by
      rw [decimalToBase_stored leftOver nonzero fun both => zero both.1]
    rw [unpadded]
    constructor
    · intro same
      have lengths := congrArg List.length same
      rw [length_printBackwards, length_printBackwards,
        zeroExtension_count] at lengths
      exact ⟨by omega, zero⟩
    · rintro ⟨long, -⟩
      rw [zeroExtension_of_le long]

end Digits

/-- The unsigned number that a piece prints, and its base. -/
def Piece.number : Piece → Option (UInt64 × Base)
  | .literal _ => none
  | .percent _ => none
  | .conversion _ specifier value => specifier.number value

section Leaks

/--
A `0` flag is left after a format: no conversion to an unsigned number follows
the last one that is written on another conversion.
-/
def leavesFlag : (pieces : List Piece) → (zeroPad : Bool) → Bool
  | [], zeroPad => zeroPad
  | piece :: rest, zeroPad =>
      leavesFlag rest (if piece.number.isSome then false else zeroPad || piece.flagged)

/--
A format shows a flag it did not write: its first unsigned number has no flag
on it or before it and does not fill the width of its base.
-/
def ShowsFlag : (pieces : List Piece) → Prop
  | [] => False
  | piece :: rest =>
      piece.flagged = false ∧
        match piece.number with
        | some (n, base) => ¬ FillsWidth n base
        | none => ShowsFlag rest

variable {leftOver : List UInt8}

/-- The bases of the conversions are not 0. -/
theorem number_base
    {specifier : Specifier}
    {value : specifier.type.Value}
    {n : UInt64}
    {base : Base}
    (number : specifier.number value = some (n, base)) :
    base.value ≠ 0 := by
  cases specifier with
  | c | d | i | s | ld | lld =>
      cases number
  | _ =>
      cases number
      decide

/-- A conversion to an unsigned number clears the flag. -/
theorem decimalToBase_clears
    (leftOver : List UInt8)
    (n : UInt64)
    {base : Base}
    (nonzero : base.value ≠ 0)
    (zeroPad : Bool) :
    (decimalToBase leftOver n base zeroPad).2 = false := by
  rw [decimalToBase, dif_neg nonzero]
  split
  · case _ unpadded =>
      exact unpadded.2
  · rfl

/-- What a piece does to the flag. -/
theorem emit_flag
    (leftOver : List UInt8)
    (piece : Piece)
    (zeroPad : Bool) :
    (piece.emit leftOver zeroPad).2 =
      if piece.number.isSome then false else zeroPad || piece.flagged := by
  cases piece with
  | literal text =>
      simp [Piece.emit, Piece.number, Piece.flagged]
  | percent zero =>
      simp [Piece.emit, Piece.number, Piece.flagged]
  | conversion zero specifier value =>
      rw [Piece.emit, Piece.number, Specifier.emit]
      cases number : specifier.number value with
      | none =>
          simp [Piece.flagged]
      | some call =>
          exact
            decimalToBase_clears leftOver call.1 (number_base number) _

/-- A piece with its own flag does not depend on the one before it. -/
theorem emit_of_flagged
    {piece : Piece}
    (flagged : piece.flagged = true) :
    piece.emit leftOver true = piece.emit leftOver false := by
  cases piece with
  | literal text =>
      cases flagged
  | percent zero | conversion zero specifier value =>
      simp only [Piece.flagged] at flagged
      subst flagged
      rfl

/-- A piece that prints no unsigned number does not show the flag. -/
theorem emit_of_not_number
    {piece : Piece}
    (number : piece.number = none)
    (zeroPad : Bool) :
    (piece.emit leftOver zeroPad).1 = (piece.emit leftOver false).1 := by
  cases piece with
  | literal text =>
      rfl
  | percent zero =>
      rfl
  | conversion zero specifier value =>
      have plain : specifier.number value = none := number
      simp only [Piece.emit, Specifier.emit, plain]

/-- An unsigned number without a flag shows the one before it if it is short. -/
theorem emit_of_number
    {piece : Piece}
    {n : UInt64}
    {base : Base}
    (unflagged : piece.flagged = false)
    (number : piece.number = some (n, base)) :
    (piece.emit leftOver true).1 = (piece.emit leftOver false).1 ↔
      FillsWidth n base := by
  cases piece with
  | literal text =>
      cases number
  | percent zero =>
      cases number
  | conversion zero specifier value =>
      have called : specifier.number value = some (n, base) := number
      simp only [Piece.flagged] at unflagged
      subst unflagged
      simp only [Piece.emit, Specifier.emit, called, Bool.or_false]
      rw [List.append_cancel_left_eq]
      exact padded_eq_iff leftOver (number_base called) n

/-- A flag from before makes a difference exactly to a format that shows it. -/
theorem emitAll_eq_iff
    (leftOver : List UInt8)
    (pieces : List Piece) :
    (emitAll leftOver pieces true).1 = (emitAll leftOver pieces false).1 ↔
      ¬ ShowsFlag pieces := by
  induction pieces with
  | nil =>
      simp [emitAll, ShowsFlag]
  | cons piece rest inductionHypothesis =>
      cases flagged : piece.flagged with
      | true =>
          simp [emitAll, ShowsFlag, flagged, emit_of_flagged flagged]
      | false =>
          have afterTrue := emit_flag leftOver piece true
          have afterFalse := emit_flag leftOver piece false
          cases number : piece.number with
          | none =>
              simp only [number, flagged, Option.isSome_none] at afterTrue afterFalse
              simp [emitAll, ShowsFlag, flagged, number, afterTrue, afterFalse,
                emit_of_not_number number true, inductionHypothesis]
          | some call =>
              obtain ⟨n, base⟩ := call
              simp only [number, Option.isSome_some, if_true] at afterTrue afterFalse
              simp [emitAll, ShowsFlag, flagged, number, afterTrue, afterFalse,
                emit_of_number flagged number]

end Leaks

section Composition

/-- What a format prints is determined by the format and its arguments. -/
theorem Prints.unique
    {leftOver text : List UInt8}
    {arguments remaining remaining' : List Argument}
    {output output' : List UInt8}
    (nonzero : 0 ∉ text)
    (prints : Prints leftOver text arguments output remaining)
    (prints' : Prints leftOver text arguments output' remaining') :
    output = output' := by
  obtain ⟨enough, returns⟩ := prints _ (spells_spelled [] text nonzero)
  obtain ⟨enough', returns'⟩ := prints' _ (spells_spelled [] text nonzero)
  obtain ⟨final, returned, printed, -⟩ :=
    returns (max enough enough') (Nat.le_max_left _ _)
  obtain ⟨final', returned', printed', -⟩ :=
    returns' (max enough enough') (Nat.le_max_right _ _)
  have same := returned.symm.trans returned'
  obtain rfl : final = final' := by
    simpa using same
  exact printed.symm.trans printed'

/--
A format of pieces prints what its pieces emit and nothing else, if it returns
at all
-/
theorem prints_pieces_iff
    {leftOver : List UInt8}
    {pieces : List Piece}
    {output : List UInt8} :
    Prints leftOver (textOf pieces) (argumentsOf pieces) output [] ↔
      (∀ argument ∈ argumentsOf pieces, argument.Exact) ∧
        output = (emitAll leftOver pieces false).1 := by
  constructor
  · intro prints
    have exact' : ∀ argument ∈ argumentsOf pieces, argument.Exact := by
      apply Prints.exact
      rwa [List.append_nil]
    have printed :
        Prints leftOver (textOf pieces) (argumentsOf pieces)
          (emitAll leftOver pieces false).1 [] :=
      prints_of_pieces pieces rfl rfl exact' rfl
    exact ⟨exact', prints.unique (zero_notMem_textOf pieces) printed⟩
  · rintro ⟨exact', rfl⟩
    exact prints_of_pieces pieces rfl rfl exact' rfl

/-- The second of two formats starts with the flag that the first one left. -/
theorem emitAll_append
    (leftOver : List UInt8)
    (first second : List Piece)
    (zeroPad : Bool) :
    (emitAll leftOver (first ++ second) zeroPad).1 =
      (emitAll leftOver first zeroPad).1 ++
        (emitAll leftOver second (leavesFlag first zeroPad)).1 := by
  induction first generalizing zeroPad with
  | nil =>
      rfl
  | cons piece first inductionHypothesis =>
      rw [List.cons_append]
      simp only [emitAll, inductionHypothesis, leavesFlag,
        emit_flag leftOver piece zeroPad, List.append_assoc]

/--
Formatting is compositional on two formats: both calls return, and so does the
call with both formats and all arguments, which prints what they print one
after the other.
-/
def Composes (leftOver : List UInt8) (first second : List Piece) : Prop :=
  ∃ printed later,
    Prints leftOver (textOf first) (argumentsOf first) printed [] ∧
      Prints leftOver (textOf second) (argumentsOf second) later [] ∧
        Prints leftOver (textOf first ++ textOf second)
          (argumentsOf first ++ argumentsOf second) (printed ++ later) []

/--
Two formats compose if all of their calls return and the flag the first one
leaves is not seen.
-/
theorem composes_iff_emitAll
    (leftOver : List UInt8)
    (first second : List Piece) :
    Composes leftOver first second ↔
      (∀ argument ∈ argumentsOf first ++ argumentsOf second,
          argument.Exact) ∧
        (emitAll leftOver second (leavesFlag first false)).1 =
          (emitAll leftOver second false).1 := by
  have text : textOf first ++ textOf second = textOf (first ++ second) :=
    List.flatMap_append.symm
  have arguments :
      argumentsOf first ++ argumentsOf second = argumentsOf (first ++ second) :=
    List.flatMap_append.symm
  unfold Composes
  rw [text, arguments]
  simp only [prints_pieces_iff, emitAll_append]
  constructor
  · rintro ⟨printed, later, ⟨-, rfl⟩, ⟨-, rfl⟩, exact', same⟩
    exact ⟨exact', (List.append_cancel_left same).symm⟩
  · rintro ⟨exact', same⟩
    have both := exact'
    rw [← arguments, List.forall_mem_append] at both
    exact ⟨_, _, ⟨both.1, rfl⟩, ⟨both.2, rfl⟩, exact', by rw [same]⟩

/--
Two formats compose exactly if no signed 64-bit argument is the smallest
number, and the first one leaves no flag or the second one does not show it.
-/
theorem composes_iff
    (leftOver : List UInt8)
    (first second : List Piece) :
    Composes leftOver first second ↔
      (∀ argument ∈ argumentsOf first ++ argumentsOf second,
          argument.Exact) ∧
        ¬ (leavesFlag first false = true ∧ ShowsFlag second) := by
  rw [composes_iff_emitAll]
  apply and_congr_right
  intro exact'
  cases left : leavesFlag first false with
  | false =>
      simp
  | true =>
      rw [emitAll_eq_iff]
      simp

/-- The flag of `%0d` pads the number of the `%u` after it. -/
theorem not_composes_signed_unsigned :
    ¬ Composes (List.replicate 64 0)
      [.conversion true .d (5 : Int32)]
      [.conversion false .u (7 : UInt32)] := by
  intro composes
  have same := (composes_iff_emitAll _ _ _).mp composes
  have left : leavesFlag [.conversion true .d (5 : Int32)] false = true := rfl
  rw [left, emitAll_eq_iff] at same
  have short : ¬ FillsWidth 7 ⟨10, by decide⟩ := by
    decide
  exact same.2 ⟨rfl, short⟩

end Composition

end Relics.Print
