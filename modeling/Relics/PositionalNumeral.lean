import Mathlib.Data.Nat.Digits.Lemmas

namespace PositionalNumeral

/-!
# Positional numerals

Numbers written as texts in a base, the most significant digit first.  A text
is read from the left, each symbol adding a digit to the value of those before
it.  Every number has exactly one numeral without a leading zero, and zeros
in front of a numeral do not change its value.
-/

/-- The symbols that write the digits of a base and how they are read back. -/
structure Alphabet (Symbol : Type) where
  base : Nat
  one_lt_base : 1 < base
  write : Nat → Symbol
  read : Symbol → Option Nat
  read_write :
    ∀ {digit},
      digit < base →
      read (write digit) = some digit
  read_lt :
    ∀ {symbol digit},
      read symbol = some digit →
      digit < base
  write_read :
    ∀ {symbol digit},
      read symbol = some digit →
      write digit = symbol

namespace Alphabet

variable {Symbol : Type}
variable (alphabet : Alphabet Symbol)

/-- Read the symbols that follow those of a given value. -/
def readFrom (value : Nat) : (text : List Symbol) → Option Nat
  | [] => some value
  | symbol :: rest =>
      (alphabet.read symbol).bind fun digit =>
        readFrom (alphabet.base * value + digit) rest

/-- A text with at least one digit reads as a number. -/
structure Reads (text : List Symbol) (number : Nat) : Prop where
  nonempty : text ≠ []
  value : alphabet.readFrom 0 text = some number

/-- A text reads as a number and has no leading zero unless it is a zero. -/
structure Canonical (text : List Symbol) (number : Nat) : Prop
    extends Reads alphabet text number where
  noLeadingZero :
    text.head? = some (alphabet.write 0) →
    text = [alphabet.write 0]

/-- The numeral of a number without a leading zero. -/
def numeral (number : Nat) : List Symbol :=
  if number = 0 then
    [alphabet.write 0]
  else
    ((Nat.digits alphabet.base number).map alphabet.write).reverse

variable {alphabet}

/-- Two texts in a row are read one after the other. -/
theorem readFrom_append
    (value : Nat)
    (text rest : List Symbol) :
    alphabet.readFrom value (text ++ rest) =
      (alphabet.readFrom value text).bind fun read =>
        alphabet.readFrom read rest := by
  induction text generalizing value with
  | nil =>
      rfl
  | cons symbol text inductionHypothesis =>
      cases hread : alphabet.read symbol with
      | none =>
          simp [readFrom, hread]
      | some digit =>
          simp [readFrom, hread, inductionHypothesis]

/-- Every symbol of a text that reads as a number reads as a digit. -/
theorem exists_digit_of_readFrom
    {value number : Nat}
    {text : List Symbol}
    (reads : alphabet.readFrom value text = some number)
    {symbol : Symbol}
    (member : symbol ∈ text) :
    ∃ digit, alphabet.read symbol = some digit := by
  induction text generalizing value with
  | nil =>
      cases member
  | cons first text inductionHypothesis =>
      obtain ⟨digit, readsFirst, readsRest⟩ :=
        Option.bind_eq_some_iff.mp reads
      rcases List.mem_cons.mp member with rfl | inRest
      · exact ⟨digit, readsFirst⟩
      · exact inductionHypothesis readsRest inRest

/-- Written digits read back as the number they stand for. -/
theorem readFrom_write_digits
    {digits : List Nat}
    (below : ∀ digit ∈ digits, digit < alphabet.base) :
    alphabet.readFrom 0 (digits.map alphabet.write).reverse =
      some (Nat.ofDigits alphabet.base digits) := by
  induction digits with
  | nil =>
      rfl
  | cons digit digits inductionHypothesis =>
      have belowRest : ∀ other ∈ digits, other < alphabet.base := by
        intro other member
        exact below other (List.mem_cons_of_mem digit member)
      have readBack : alphabet.read (alphabet.write digit) = some digit :=
        alphabet.read_write (below digit List.mem_cons_self)
      rw [List.map_cons, List.reverse_cons, readFrom_append,
        inductionHypothesis belowRest, Nat.ofDigits_cons]
      simp [readFrom, readBack, Nat.add_comm]

/-- Zeros in front of a text do not change its value. -/
theorem readFrom_replicate_zero
    (count : Nat)
    (text : List Symbol) :
    alphabet.readFrom 0
        (List.replicate count (alphabet.write 0) ++ text) =
      alphabet.readFrom 0 text := by
  have zeroBelow : 0 < alphabet.base :=
    Nat.lt_trans Nat.zero_lt_one alphabet.one_lt_base
  induction count with
  | zero =>
      rfl
  | succ count inductionHypothesis =>
      simp [List.replicate_succ, readFrom, alphabet.read_write zeroBelow,
        inductionHypothesis]

/-- The digits of a number are those of its base. -/
theorem digits_below
    {number digit : Nat}
    (member : digit ∈ Nat.digits alphabet.base number) :
    digit < alphabet.base :=
  Nat.digits_lt_base alphabet.one_lt_base member

/-- Every symbol of a numeral writes a digit of the base. -/
theorem exists_digit_of_mem_numeral
    {number : Nat}
    {symbol : Symbol}
    (member : symbol ∈ alphabet.numeral number) :
    ∃ digit < alphabet.base, alphabet.write digit = symbol := by
  unfold numeral at member
  split at member
  · have isZero := List.mem_singleton.mp member
    have zeroBelow : 0 < alphabet.base :=
      Nat.lt_trans Nat.zero_lt_one alphabet.one_lt_base
    exact ⟨0, zeroBelow, isZero.symm⟩
  · rw [List.mem_reverse, List.mem_map] at member
    obtain ⟨digit, digitMember, written⟩ := member
    exact ⟨digit, digits_below digitMember, written⟩

/-- The length of a numeral is one more than the logarithm of its number. -/
theorem length_numeral
    (alphabet : Alphabet Symbol)
    (number : Nat) :
    (alphabet.numeral number).length =
      Nat.log alphabet.base number + 1 := by
  by_cases isZero : number = 0
  · simp [numeral, isZero]
  · simp [numeral, isZero,
      Nat.length_digits alphabet.base number alphabet.one_lt_base isZero]

/-- A number below a power of the base has at most that many digits. -/
theorem length_numeral_le
    {number length : Nat}
    (positive : 0 < length)
    (below : number < alphabet.base ^ length) :
    (alphabet.numeral number).length ≤ length := by
  rw [length_numeral]
  by_cases isZero : number = 0
  · subst isZero
    rw [Nat.log_zero_right]
    exact positive
  · exact Nat.log_lt_of_lt_pow isZero below

/-- The first symbol of the numeral of a positive number is not a zero. -/
theorem head_numeral_ne_zero
    {number : Nat}
    (positive : number ≠ 0) :
    (alphabet.numeral number).head? ≠ some (alphabet.write 0) := by
  have digitsExist : Nat.digits alphabet.base number ≠ [] :=
    Nat.digits_ne_nil_iff_ne_zero.mpr positive
  have lastDigit := Nat.getLast_digit_ne_zero alphabet.base positive
  have lastBelow := digits_below (List.getLast_mem digitsExist)
  intro isZero
  apply lastDigit
  simp only [numeral, positive, ↓reduceIte, List.head?_reverse,
    List.getLast?_map, List.getLast?_eq_some_getLast digitsExist,
    Option.map_some, Option.some.injEq] at isZero
  have readBack := alphabet.read_write lastBelow
  rw [isZero, alphabet.read_write (by omega)] at readBack
  exact (Option.some.inj readBack).symm

/-- The numeral of a number is canonical. -/
theorem canonical_numeral
    (alphabet : Alphabet Symbol)
    (number : Nat) :
    alphabet.Canonical (alphabet.numeral number) number where
  nonempty := by
    apply List.ne_nil_of_length_pos
    rw [length_numeral]
    exact Nat.succ_pos _
  value := by
    by_cases isZero : number = 0
    · have zeroBelow : 0 < alphabet.base :=
        Nat.lt_trans Nat.zero_lt_one alphabet.one_lt_base
      simp [numeral, isZero, readFrom, alphabet.read_write zeroBelow]
    · rw [numeral, if_neg isZero, readFrom_write_digits fun _ => digits_below,
        Nat.ofDigits_digits]
  noLeadingZero := by
    intro leading
    by_cases isZero : number = 0
    · simp [numeral, isZero]
    · exact absurd leading (head_numeral_ne_zero isZero)

/-- Zeros in front of a numeral leave a text that reads as its number. -/
theorem reads_padded
    (alphabet : Alphabet Symbol)
    (count number : Nat) :
    alphabet.Reads
      (List.replicate count (alphabet.write 0) ++ alphabet.numeral number)
      number where
  nonempty := by
    have canonical := alphabet.canonical_numeral number
    exact List.append_ne_nil_of_right_ne_nil _ canonical.nonempty
  value := by
    rw [readFrom_replicate_zero]
    exact (alphabet.canonical_numeral number).value

/-- The numeral of a number ends in the digit of its remainder. -/
theorem numeral_of_base_le
    {number : Nat}
    (large : alphabet.base ≤ number) :
    alphabet.numeral number =
      alphabet.numeral (number / alphabet.base) ++
        [alphabet.write (number % alphabet.base)] := by
  have positive : number ≠ 0 := by
    have := alphabet.one_lt_base
    omega
  have quotientPositive : number / alphabet.base ≠ 0 :=
    (Nat.div_pos large (Nat.lt_trans Nat.zero_lt_one
      alphabet.one_lt_base)).ne'
  rw [numeral, if_neg positive, numeral, if_neg quotientPositive,
    Nat.digits_eq_cons_digits_div alphabet.one_lt_base positive,
    List.map_cons, List.reverse_cons]

/-- A digit behind the numeral of a positive number. -/
theorem numeral_mul_add
    {number digit : Nat}
    (positive : 1 ≤ number)
    (digitBelow : digit < alphabet.base) :
    alphabet.numeral (alphabet.base * number + digit) =
      alphabet.numeral number ++ [alphabet.write digit] := by
  have basePositive : 0 < alphabet.base :=
    Nat.lt_trans Nat.zero_lt_one alphabet.one_lt_base
  have quotient :
      (alphabet.base * number + digit) / alphabet.base = number := by
    rw [Nat.mul_add_div basePositive, Nat.div_eq_of_lt digitBelow,
      Nat.add_zero]
  have remainder :
      (alphabet.base * number + digit) % alphabet.base = digit := by
    rw [Nat.mul_add_mod, Nat.mod_eq_of_lt digitBelow]
  have large : alphabet.base ≤ alphabet.base * number + digit :=
    calc
      alphabet.base = alphabet.base * 1 := (Nat.mul_one _).symm
      _ ≤ alphabet.base * number := Nat.mul_le_mul_left _ positive
      _ ≤ alphabet.base * number + digit := Nat.le_add_right _ _
  rw [numeral_of_base_le large, quotient, remainder]

/-- The numeral of a digit is its symbol. -/
theorem numeral_of_lt
    (alphabet : Alphabet Symbol)
    {number : Nat}
    (small : number < alphabet.base) :
    alphabet.numeral number = [alphabet.write number] := by
  by_cases isZero : number = 0
  · rw [numeral, if_pos isZero, isZero]
  · rw [numeral, if_neg isZero, Nat.digits_of_lt _ _ isZero small]
    rfl

/-- A canonical text is the numeral of the number it reads as. -/
theorem Canonical.eq_numeral
    {text : List Symbol}
    {number : Nat}
    (canonical : alphabet.Canonical text number) :
    text = alphabet.numeral number := by
  induction text using List.reverseRecOn generalizing number with
  | nil =>
      exact absurd rfl canonical.nonempty
  | append_singleton front last inductionHypothesis =>
      have value := canonical.value
      rw [readFrom_append, Option.bind_eq_some_iff] at value
      obtain ⟨frontValue, readsFront, readsLast⟩ := value
      simp only [readFrom, Option.bind_eq_some_iff,
        Option.some.injEq] at readsLast
      obtain ⟨digit, readsDigit, total⟩ := readsLast
      have digitBelow := alphabet.read_lt readsDigit
      have lastWritten := alphabet.write_read readsDigit
      cases front with
      | nil =>
          have frontZero : frontValue = 0 := by
            simpa [readFrom] using readsFront.symm
          subst frontZero
          have small : number < alphabet.base := by
            rw [← total]
            simpa using digitBelow
          rw [alphabet.numeral_of_lt small, ← total, List.nil_append, ← lastWritten]
          simp
      | cons first front =>
          -- The front has no leading zero either, so its value is not 0.
          have firstNonzero : first ≠ alphabet.write 0 := by
            intro isZero
            have short := canonical.noLeadingZero (by simp [isZero])
            simpa using congrArg List.length short
          have frontCanonical :
              alphabet.Canonical (first :: front) frontValue := by
            refine ⟨⟨List.cons_ne_nil first front, readsFront⟩, ?_⟩
            intro leading
            exact absurd (Option.some.inj leading) firstNonzero
          have frontPositive : 1 ≤ frontValue := by
            by_contra zero
            have frontZero : frontValue = 0 := by omega
            have frontText := inductionHypothesis frontCanonical
            rw [frontZero, numeral, if_pos rfl] at frontText
            exact firstNonzero (List.cons.inj frontText).1
          rw [← total, numeral_mul_add frontPositive digitBelow, lastWritten,
            ← inductionHypothesis frontCanonical]

end Alphabet

end PositionalNumeral
