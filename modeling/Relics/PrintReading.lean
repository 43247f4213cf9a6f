import Relics.PrintBases
import Relics.PrintDecimal
import Relics.SelectedWords

namespace Relics.Print

open PositionalNumeral SelectedWords

/-!
# Reading back what `printk` prints

The formats of the kernel are messages: each conversion has literal text
behind it.  Where that text begins with a byte that the conversion did not
print, the printed text tells every argument: numbers and characters as they
are, strings up to their NUL.
-/

/-- What can be told about an argument that has been printed. -/
inductive Shown where
  | unsigned (n : UInt64)
  | signed (n : Int)
  | character (byte : UInt8)
  | string (bytes : List UInt8)
  deriving DecidableEq

namespace Specifier

/-- What a conversion shows of its argument. -/
def shown :
    (specifier : Specifier) →
    specifier.type.Value →
    Shown
  | c, char => .character (Int32.toInt8 char).toUInt8
  | s, string => .string (printString string)
  | d, n => .signed (Int32.toInt n)
  | i, n => .signed (Int32.toInt n)
  | ld, n => .signed (Int64.toInt n)
  | lld, n => .signed (Int64.toInt n)
  | u, n => .unsigned (UInt32.toUInt64 n)
  | b, n => .unsigned (UInt32.toUInt64 n)
  | o, n => .unsigned (UInt32.toUInt64 n)
  | x, n => .unsigned (UInt32.toUInt64 n)
  | X, n => .unsigned (UInt32.toUInt64 n)
  | p, n => .unsigned n
  | lu, n => .unsigned n
  | lb, n => .unsigned n
  | lx, n => .unsigned n
  | llu, n => .unsigned n

end Specifier

section Numbers

variable {leftOver leftOver' : List UInt8}
variable {base : PrintedBase}

/-- A number is printed in the same way whatever the array held. -/
theorem decimalToBase_congr
    (size : leftOver.length = 64)
    (size' : leftOver'.length = 64)
    (n : UInt64)
    (zeroPad : Bool) :
    (decimalToBase leftOver n base.toBase zeroPad).1 =
      (decimalToBase leftOver' n base.toBase zeroPad).1 := by
  by_cases unstored : n = 0 ∧ zeroPad = false
  · obtain ⟨rfl, rfl⟩ := unstored
    rw [decimalToBase_zero leftOver base.nonzero,
      decimalToBase_zero leftOver' base.nonzero]
  · rw [decimalToBase_eq size unstored, decimalToBase_eq size' unstored]

/-- What is printed for a number reads as it; no digits at all read as 0. -/
theorem readFrom_decimalToBase
    (base : PrintedBase)
    (size : leftOver.length = 64)
    (n : UInt64)
    (zeroPad : Bool) :
    base.alphabet.readFrom 0
        (decimalToBase leftOver n base.toBase zeroPad).1 =
      some n.toNat := by
  by_cases isZero : n = 0
  · subst isZero
    cases zeroPad with
    | false =>
        exact printsNumeral_zero_unpadded.reads.value
    | true =>
        have zeros :
            base.alphabet.readFrom 0
                (List.replicate base.paddedLength 0x30 ++ []) =
              base.alphabet.readFrom 0 [] :=
          Alphabet.readFrom_replicate_zero base.paddedLength []
        rw [List.append_nil] at zeros
        rw [decimalToBase_zero_padded size]
        exact zeros
  · exact (printsNumeral_of_ne_zero size isZero).reads.value

/-- Two numbers are printed alike only if they are the same. -/
theorem decimalToBase_inj
    (base : PrintedBase)
    (size : leftOver.length = 64)
    (size' : leftOver'.length = 64)
    {n other : UInt64}
    {zeroPad : Bool} :
    (decimalToBase leftOver n base.toBase zeroPad).1 =
        (decimalToBase leftOver' other base.toBase zeroPad).1 ↔
      n = other := by
  constructor
  · intro same
    have read := readFrom_decimalToBase base size n zeroPad
    rw [same, readFrom_decimalToBase base size'] at read
    exact UInt64.toNat_inj.mp (Option.some.inj read).symm
  · rintro rfl
    exact decimalToBase_congr size size' n zeroPad

/-- A number leaves no padding behind. -/
theorem decimalToBase_zeroPad
    (base : PrintedBase)
    (n : UInt64)
    (zeroPad : Bool) :
    (decimalToBase leftOver n base.toBase zeroPad).2 = false := by
  by_cases unstored : n = 0 ∧ zeroPad = false
  · obtain ⟨rfl, rfl⟩ := unstored
    rw [decimalToBase_zero leftOver base.nonzero]
  · rw [decimalToBase_stored leftOver base.nonzero unstored]

/-- The decimal numerals of two integers are the same only if they are. -/
theorem isDecimal_inj
    {number other : Int}
    {text : List UInt8}
    (first : IsDecimal number text)
    (second : IsDecimal other text) :
    number = other := by
  -- a minus sign is no digit
  have unsigned {magnitude : Nat} {digits : List UInt8} :
      ¬ decimal.Canonical (0x2D :: digits) magnitude := by
    intro canonical
    have value := canonical.value
    have noDigit : decimal.read 0x2D = none := by
      decide
    simp [Alphabet.readFrom, noDigit] at value
  have same {magnitude magnitude' : Nat} {digits : List UInt8}
      (canonical : decimal.Canonical digits magnitude)
      (canonical' : decimal.Canonical digits magnitude') :
      magnitude = magnitude' := by
    have value := canonical.value
    rw [canonical'.value] at value
    exact (Option.some.inj value).symm
  unfold IsDecimal at first second
  split at first
  · case _ negative =>
      obtain ⟨digits, rfl, canonical⟩ := first
      split at second
      · case _ negative' =>
          obtain ⟨digits', sameText, canonical'⟩ := second
          obtain ⟨-, rfl⟩ := List.cons.inj sameText
          have magnitudes := same canonical canonical'
          omega
      · exact absurd second unsigned
  · case _ nonnegative =>
      split at second
      · obtain ⟨digits', rfl, canonical'⟩ := second
        exact absurd first unsigned
      · case _ nonnegative' =>
          have magnitudes := same first second
          omega

/-- An integer has only one decimal numeral. -/
theorem IsDecimal.unique
    {number : Int}
    {text other : List UInt8}
    (first : IsDecimal number text)
    (second : IsDecimal number other) :
    text = other := by
  unfold IsDecimal at first second
  split at first
  · case _ negative =>
      rw [if_pos negative] at second
      obtain ⟨digits, rfl, canonical⟩ := first
      obtain ⟨digits', rfl, canonical'⟩ := second
      rw [canonical.eq_numeral, canonical'.eq_numeral]
  · case _ nonnegative =>
      rw [if_neg nonnegative] at second
      rw [first.eq_numeral, second.eq_numeral]

/-- Two integers are printed alike only if they are the same. -/
theorem printLongLong_inj
    (size : leftOver.length = 64)
    (size' : leftOver'.length = 64)
    {num other : Int64}
    (exact' : num ≠ Int64.minValue)
    (exactOther : other ≠ Int64.minValue) :
    (printLongLong leftOver num).getD [] =
        (printLongLong leftOver' other).getD [] ↔
      num.toInt = other.toInt := by
  obtain ⟨text, printed, first⟩ := (printsExactly_of_ne size exact').exact
  obtain ⟨text', printed', second⟩ :=
    (printsExactly_of_ne size' exactOther).exact
  rw [printed, printed', Option.getD_some, Option.getD_some]
  constructor
  · intro same
    rw [← same] at second
    exact isDecimal_inj first second
  · intro same
    rw [same] at first
    exact first.unique second

theorem printInt_inj
    (size : leftOver.length = 64)
    (size' : leftOver'.length = 64)
    {num other : Int32} :
    (printInt leftOver num).getD [] = (printInt leftOver' other).getD [] ↔
      num.toInt = other.toInt := by
  have integers :=
    printLongLong_inj size size' (toInt64_ne_minValue num)
      (toInt64_ne_minValue other)
  rwa [Int32.toInt_toInt64, Int32.toInt_toInt64] at integers

end Numbers

section Conversions

variable {leftOver leftOver' : List UInt8}
variable {specifier : Specifier}
variable {value other : specifier.type.Value}
variable {zeroPad : Bool}

/-- A conversion to an unsigned number tells it. -/
theorem emit_number_inj
    {n m : UInt64}
    {base : Base}
    (size : leftOver.length = 64)
    (size' : leftOver'.length = 64)
    (isNumber : specifier.number value = some (n, base))
    (otherNumber : specifier.number other = some (m, base)) :
    (specifier.emit leftOver value zeroPad).1 =
        (specifier.emit leftOver' other zeroPad).1 ↔
      n = m := by
  let printed : PrintedBase :=
    ⟨base, Specifier.number_printed isNumber⟩
  have digits :
      (decimalToBase leftOver n base zeroPad).1 =
          (decimalToBase leftOver' m base zeroPad).1 ↔
        n = m :=
    decimalToBase_inj printed size size'
  rw [← digits]
  simp only [Specifier.emit, isNumber, otherNumber, List.append_cancel_left_eq]

/-- What is printed for an argument tells what is shown of it. -/
theorem emit_inj
    (size : leftOver.length = 64)
    (size' : leftOver'.length = 64)
    (exact' : Argument.Exact ⟨specifier.type, value⟩)
    (exactOther : Argument.Exact ⟨specifier.type, other⟩) :
    (specifier.emit leftOver value zeroPad).1 =
        (specifier.emit leftOver' other zeroPad).1 ↔
      specifier.shown value = specifier.shown other := by
  cases specifier with
  | c =>
      simp [Specifier.emit, Specifier.number, Specifier.plain,
        Specifier.shown]
  | s =>
      simp [Specifier.emit, Specifier.number, Specifier.plain,
        Specifier.shown]
  | d | i =>
      exact (printInt_inj size size').trans (Shown.signed.injEq _ _).to_iff.symm
  | ld | lld =>
      have notSmallest : (value : Int64) ≠ Int64.minValue :=
        mt (congrArg some) exact'
      have otherNotSmallest : (other : Int64) ≠ Int64.minValue :=
        mt (congrArg some) exactOther
      have integers :=
        printLongLong_inj size size' notSmallest otherNotSmallest
      exact integers.trans (Shown.signed.injEq _ _).to_iff.symm
  | _ =>
      refine Iff.trans (emit_number_inj size size' rfl rfl) ?_
      exact (Shown.unsigned.injEq _ _).to_iff.symm

/-- Whether padding goes on depends on the conversion only. -/
theorem emit_zeroPad :
    (specifier.emit leftOver value zeroPad).2 =
      (specifier.emit leftOver' other zeroPad).2 := by
  have number
      {n m : UInt64}
      {base : Base}
      (isNumber : specifier.number value = some (n, base))
      (otherNumber : specifier.number other = some (m, base)) :
      (specifier.emit leftOver value zeroPad).2 =
        (specifier.emit leftOver' other zeroPad).2 := by
    let printed : PrintedBase :=
      ⟨base, Specifier.number_printed isNumber⟩
    have first : (decimalToBase leftOver n base zeroPad).2 = false :=
      decimalToBase_zeroPad printed n zeroPad
    have second : (decimalToBase leftOver' m base zeroPad).2 = false :=
      decimalToBase_zeroPad printed m zeroPad
    simp only [Specifier.emit, isNumber, otherNumber, first, second]
  cases specifier with
  | c | s | d | i | ld | lld =>
      rfl
  | _ =>
      exact number rfl rfl

/-- A digit of a base is one of base 16. -/
theorem charDigit_sixteen
    {base digit : Nat}
    {char : UInt8}
    (base_le : base ≤ 16)
    (reads : charDigit base char = some digit) :
    charDigit 16 char = some digit := by
  simp only [charDigit, Option.ite_none_right_eq_some] at reads ⊢
  exact ⟨Nat.lt_of_lt_of_le reads.1 base_le, reads.2⟩

/-- A number is printed with its lead and hexadecimal digits only. -/
theorem notMem_emit_number
    {n : UInt64}
    {base : Base}
    {byte : UInt8}
    (size : leftOver.length = 64)
    (isNumber : specifier.number value = some (n, base))
    (noDigit : charDigit 16 byte = none)
    (notLead : byte ∉ chars specifier.lead) :
    byte ∉ (specifier.emit leftOver value zeroPad).1 := by
  let printed : PrintedBase :=
    ⟨base, Specifier.number_printed isNumber⟩
  have text :
      (specifier.emit leftOver value zeroPad).1 =
        chars specifier.lead ++ (decimalToBase leftOver n base zeroPad).1 := by
    simp only [Specifier.emit, isNumber]
  rw [text, List.mem_append]
  rintro (inLead | inDigits)
  · exact notLead inLead
  · obtain ⟨digit, reads⟩ :=
      Alphabet.exists_digit_of_readFrom
        (readFrom_decimalToBase printed size n zeroPad) inDigits
    rw [charDigit_sixteen printed.bounds.2 reads] at noDigit
    cases noDigit

/-- An integer is printed with decimal digits and a minus sign only. -/
theorem notMem_isDecimal
    {number : Int}
    {text : List UInt8}
    {byte : UInt8}
    (isDecimal : IsDecimal number text)
    (noDigit : charDigit 16 byte = none)
    (noSign : byte ≠ 0x2D) :
    byte ∉ text := by
  have digits {magnitude : Nat} {digits : List UInt8}
      (canonical : decimal.Canonical digits magnitude) :
      byte ∉ digits := by
    intro member
    obtain ⟨digit, reads⟩ :=
      Alphabet.exists_digit_of_readFrom canonical.value member
    rw [charDigit_sixteen ten_le_sixteen reads] at noDigit
    cases noDigit
  unfold IsDecimal at isDecimal
  split at isDecimal
  · obtain ⟨rest, rfl, canonical⟩ := isDecimal
    rw [List.mem_cons, not_or]
    exact ⟨noSign, digits canonical⟩
  · exact digits isDecimal

end Conversions

section Messages

/-- A conversion of a format and the literal text behind it. -/
structure Slot where
  zero : Bool
  specifier : Specifier
  behind : Literal
  delimited : behind.bytes ≠ []

namespace Literal

theorem newLine_plain : '%' ∉ (chars "\n").map Char.ofUInt8 := by
  decide

theorem newLine_nonzero : 0 ∉ chars "\n" := by
  decide

/-- `"\n"`, behind the last conversion of a line -/
def newLine : Literal :=
  ⟨chars "\n", newLine_plain, newLine_nonzero⟩

/-- `" ("`, in front of a conversion in brackets -/
def bracket : Literal :=
  ⟨chars " (", by decide, by decide⟩

/-- `")\n"`, behind a conversion in brackets at the end of a line -/
def bracketLine : Literal :=
  ⟨chars ")\n", by decide, by decide⟩

theorem newLine_ne_nil : newLine.bytes ≠ [] := by
  decide

theorem bracket_ne_nil : bracket.bytes ≠ [] := by
  decide

theorem bracketLine_ne_nil : bracketLine.bytes ≠ [] := by
  decide

end Literal

/-- The byte behind a conversion -/
def Slot.delimiter (slot : Slot) : UInt8 :=
  slot.behind.bytes.head slot.delimited

/-- A slot with the argument that is printed in it. -/
structure Field where
  slot : Slot
  value : slot.specifier.type.Value

namespace Field

/-- The pieces of a field -/
def pieces (field : Field) : List Piece :=
  [.conversion field.slot.zero field.slot.specifier field.value,
    .literal field.slot.behind]

/-- What a field shows of its argument. -/
def shown (field : Field) : Shown :=
  field.slot.specifier.shown field.value

/-- The argument is printed exactly and without the byte behind it. -/
structure Clean (leftOver : List UInt8) (field : Field) : Prop where
  exact : Argument.Exact ⟨field.slot.specifier.type, field.value⟩
  delimiter :
    ∀ zeroPad,
      field.slot.delimiter ∉
        (field.slot.specifier.emit leftOver field.value zeroPad).1

end Field

variable {leftOver leftOver' : List UInt8}

/-- A number is clean in front of a byte that is in no numeral. -/
theorem Field.clean_of_number
    {slot : Slot}
    {value : slot.specifier.type.Value}
    {n : UInt64}
    {base : Base}
    (size : leftOver.length = 64)
    (isNumber : slot.specifier.number value = some (n, base))
    (noDigit : charDigit 16 slot.delimiter = none)
    (notLead : slot.delimiter ∉ chars slot.specifier.lead) :
    Field.Clean leftOver ⟨slot, value⟩ where
  exact := exact_of_number _ _ isNumber
  delimiter _ := notMem_emit_number size isNumber noDigit notLead

/-- An `int` is clean in front of a byte that is in no decimal numeral. -/
theorem Field.clean_int
    {zero : Bool}
    {behind : Literal}
    {delimited : behind.bytes ≠ []}
    (size : leftOver.length = 64)
    (n : Int32)
    (noDigit : charDigit 16 (behind.bytes.head delimited) = none)
    (noSign : behind.bytes.head delimited ≠ 0x2D) :
    Field.Clean leftOver ⟨⟨zero, .d, behind, delimited⟩, n⟩ where
  exact := nofun
  delimiter _ := by
    obtain ⟨text, printed, isDecimal⟩ :=
      (printsExactly_of_ne size (toInt64_ne_minValue n)).exact
    have emitted : (printInt leftOver n).getD [] = text := by
      rw [printInt, printLong, printed, Option.getD_some]
    have notMem := notMem_isDecimal isDecimal noDigit noSign
    rwa [← emitted] at notMem

/-- A string is clean in front of a byte that is not in it. -/
theorem Field.clean_string
    {zero : Bool}
    {behind : Literal}
    {delimited : behind.bytes ≠ []}
    {string : List UInt8}
    (notInside : behind.bytes.head delimited ∉ printString string) :
    Field.Clean leftOver ⟨⟨zero, .s, behind, delimited⟩, string⟩ where
  exact := nofun
  delimiter _ := notInside

/-- What is printed for a field and the pieces behind it -/
theorem emitAll_field
    (field : Field)
    (pieces : List Piece)
    (zeroPad : Bool) :
    (emitAll leftOver (field.pieces ++ pieces) zeroPad).1 =
      (field.slot.specifier.emit leftOver field.value
          (zeroPad || field.slot.zero)).1 ++
        field.slot.delimiter :: (field.slot.behind.bytes.tail ++
          (emitAll leftOver pieces
            (field.slot.specifier.emit leftOver field.value
              (zeroPad || field.slot.zero)).2).1) := by
  have behind :
      field.slot.behind.bytes =
        field.slot.delimiter :: field.slot.behind.bytes.tail :=
    (List.cons_head_tail field.slot.delimited).symm
  simp only [Field.pieces, List.cons_append, List.nil_append, emitAll,
    Piece.emit]
  conv_lhs => rw [behind]
  rfl

/-- Fields of the same slots are told apart by what is printed for them. -/
theorem fields_tell
    {fields others : List Field}
    (size : leftOver.length = 64)
    (size' : leftOver'.length = 64)
    (sameSlots : fields.map Field.slot = others.map Field.slot)
    (clean : ∀ field ∈ fields, field.Clean leftOver)
    (cleanOthers : ∀ other ∈ others, other.Clean leftOver')
    (zeroPad : Bool)
    (rest later : List UInt8) :
    (emitAll leftOver (fields.flatMap Field.pieces) zeroPad).1 ++ rest =
        (emitAll leftOver' (others.flatMap Field.pieces) zeroPad).1 ++ later ↔
      fields.map Field.shown = others.map Field.shown ∧ rest = later := by
  induction fields generalizing others zeroPad with
  | nil =>
      cases others with
      | nil =>
          simp [emitAll]
      | cons other others =>
          cases sameSlots
  | cons field fields inductionHypothesis =>
      cases others with
      | nil =>
          cases sameSlots
      | cons other others =>
          obtain ⟨slot, value⟩ := field
          obtain ⟨slot', value'⟩ := other
          obtain ⟨sameSlot, sameRest⟩ := List.cons.inj sameSlots
          change slot = slot' at sameSlot
          subst sameSlot
          rw [List.forall_mem_cons] at clean cleanOthers
          have first :
              (slot.specifier.emit leftOver value (zeroPad || slot.zero)).1 =
                  (slot.specifier.emit leftOver' value'
                    (zeroPad || slot.zero)).1 ↔
                slot.specifier.shown value = slot.specifier.shown value' :=
            emit_inj size size' clean.1.exact cleanOthers.1.exact
          have padding :
              (slot.specifier.emit leftOver value (zeroPad || slot.zero)).2 =
                (slot.specifier.emit leftOver' value'
                  (zeroPad || slot.zero)).2 :=
            emit_zeroPad
          rw [List.flatMap_cons, List.flatMap_cons, emitAll_field,
            emitAll_field, List.append_assoc, List.append_assoc,
            List.cons_append, List.cons_append,
            append_separator_inj (clean.1.delimiter _)
              (cleanOthers.1.delimiter _),
            List.append_assoc, List.append_assoc, List.append_cancel_left_eq,
            first, padding,
            inductionHypothesis sameRest clean.2 cleanOthers.2]
          simp [Field.shown, and_assoc]

/-- A format that starts with constant text, and its arguments. -/
structure Message where
  before : List Piece
  constant : ∀ piece ∈ before, piece.arguments = []
  fields : List Field

namespace Message

theorem constant_nil :
    ∀ piece ∈ ([] : List Piece), piece.arguments = [] :=
  List.forall_mem_nil _

/-- The pieces of a message -/
def pieces (message : Message) : List Piece :=
  message.before ++ message.fields.flatMap Field.pieces

/-- What is printed for a message -/
def text (leftOver : List UInt8) (message : Message) : List UInt8 :=
  (emitAll leftOver message.pieces false).1

/-- What a message shows of its arguments. -/
def shown (message : Message) : List Shown :=
  message.fields.map Field.shown

/-- Two messages have the same format. -/
def SameFormat (message other : Message) : Prop :=
  message.before = other.before ∧
    message.fields.map Field.slot = other.fields.map Field.slot

/-- The arguments are printed exactly and without the bytes behind them. -/
def Clean (leftOver : List UInt8) (message : Message) : Prop :=
  ∀ field ∈ message.fields, field.Clean leftOver

variable {message other : Message}

/-- Clean fields have arguments that can be written. -/
theorem exact_of_clean (clean : message.Clean leftOver) :
    ∀ argument ∈ argumentsOf message.pieces, argument.Exact := by
  intro argument member
  rw [argumentsOf, pieces, List.flatMap_append, List.mem_append] at member
  rcases member with inBefore | inFields
  · obtain ⟨piece, among, inside⟩ := List.mem_flatMap.mp inBefore
    rw [message.constant piece among] at inside
    exact absurd inside List.not_mem_nil
  · obtain ⟨piece, among, inside⟩ := List.mem_flatMap.mp inFields
    obtain ⟨field, isField, ofField⟩ := List.mem_flatMap.mp among
    simp only [Field.pieces, List.mem_cons, List.not_mem_nil, or_false]
      at ofField
    rcases ofField with rfl | rfl
    · obtain rfl := List.mem_singleton.mp inside
      exact (clean field isField).exact
    · exact absurd inside List.not_mem_nil

/-- Constant text is printed the same in front of any pieces. -/
theorem emitAll_constant
    {before : List Piece}
    (constant : ∀ piece ∈ before, piece.arguments = [])
    (zeroPad : Bool) :
    ∃ printed after,
      ∀ leftOver pieces,
        (emitAll leftOver (before ++ pieces) zeroPad).1 =
          printed ++ (emitAll leftOver pieces after).1 := by
  induction before generalizing zeroPad with
  | nil =>
      exact ⟨[], zeroPad, fun _ _ => rfl⟩
  | cons piece before inductionHypothesis =>
      rw [List.forall_mem_cons] at constant
      obtain ⟨isConstant, rest⟩ := constant
      cases piece with
      | literal text =>
          obtain ⟨printed, after, behind⟩ := inductionHypothesis rest zeroPad
          refine ⟨text.bytes ++ printed, after, fun leftOver pieces => ?_⟩
          rw [List.append_assoc, ← behind]
          rfl
      | percent zero =>
          obtain ⟨printed, after, behind⟩ :=
            inductionHypothesis rest (zeroPad || zero)
          refine ⟨chars "%" ++ printed, after, fun leftOver pieces => ?_⟩
          rw [List.append_assoc, ← behind]
          rfl
      | conversion zero specifier value =>
          cases isConstant

/-- Messages of one format, with text behind them, are told apart. -/
theorem text_append_inj
    (size : leftOver.length = 64)
    (size' : leftOver'.length = 64)
    (sameFormat : message.SameFormat other)
    (clean : message.Clean leftOver)
    (cleanOther : other.Clean leftOver')
    {rest later : List UInt8} :
    message.text leftOver ++ rest = other.text leftOver' ++ later ↔
      message.shown = other.shown ∧ rest = later := by
  obtain ⟨sameBefore, sameSlots⟩ := sameFormat
  obtain ⟨printed, after, constant⟩ := emitAll_constant message.constant false
  have fields :=
    fields_tell size size' sameSlots clean cleanOther after rest later
  rw [shown, shown, ← fields, text, text, pieces, pieces, ← sameBefore,
    constant, constant, List.append_assoc, List.append_assoc,
    List.append_cancel_left_eq]

/-- Messages of one format are the same string. -/
theorem SameFormat.textOf_eq (sameFormat : message.SameFormat other) :
    textOf message.pieces = textOf other.pieces := by
  have slots (fields : List Field) :
      (fields.flatMap Field.pieces).flatMap Piece.text =
        (fields.map Field.slot).flatMap fun slot =>
          (chars "%" ++ flag slot.zero ++ chars slot.specifier.letters) ++
            slot.behind.bytes := by
    induction fields with
    | nil =>
        rfl
    | cons field fields inductionHypothesis =>
        rw [List.flatMap_cons, List.flatMap_append, inductionHypothesis,
          List.map_cons, List.flatMap_cons]
        simp [Field.pieces, Piece.text]
  obtain ⟨sameBefore, sameSlots⟩ := sameFormat
  simp only [textOf, pieces, List.flatMap_append, slots, sameBefore,
    sameSlots]

end Message

/--
Two calls of `printk` with one format print the same text exactly if all of
their arguments show the same.
-/
theorem printk_tellsArguments
    (leftOver leftOver' : List UInt8)
    (message other : Message)
    (size : leftOver.length = 64)
    (size' : leftOver'.length = 64)
    (sameFormat : message.SameFormat other)
    (clean : message.Clean leftOver)
    (cleanOther : other.Clean leftOver') :
    ∃ printed printed',
      Prints leftOver (textOf message.pieces) (argumentsOf message.pieces)
          printed [] ∧
        Prints leftOver' (textOf message.pieces) (argumentsOf other.pieces)
            printed' [] ∧
          (printed = printed' ↔ message.shown = other.shown) := by
  refine
    ⟨message.text leftOver, other.text leftOver',
      prints_of_pieces message.pieces rfl rfl (Message.exact_of_clean clean) rfl,
      prints_of_pieces other.pieces sameFormat.textOf_eq rfl
        (Message.exact_of_clean cleanOther) rfl, ?_⟩
  have told :
      message.text leftOver ++ [] = other.text leftOver' ++ [] ↔
        message.shown = other.shown ∧ ([] : List UInt8) = [] :=
    Message.text_append_inj size size' sameFormat clean cleanOther
  simpa using told

/-- `"Error code: %d (%s)\n"`, as `panic2` prints it -/
def errorCode (i : Int32) (issue : List UInt8) : Message where
  before := [.literal ⟨chars "Error code: ", by decide, by decide⟩]
  constant := by simp [Piece.arguments]
  fields :=
    [⟨⟨false, .d, .bracket, Literal.bracket_ne_nil⟩, i⟩,
      ⟨⟨false, .s, .bracketLine, Literal.bracketLine_ne_nil⟩, issue⟩]

theorem clean_errorCode
    (size : leftOver.length = 64)
    (i : Int32)
    {issue : List UInt8}
    (notInside : 0x29 ∉ printString issue) :
    (errorCode i issue).Clean leftOver := by
  simp only [Message.Clean, errorCode, List.forall_mem_cons]
  refine ⟨?_, ?_, fun _ none => absurd none List.not_mem_nil⟩
  · exact Field.clean_int size i (by decide) (by decide)
  · exact Field.clean_string notInside

/-- The error codes of two issues are printed differently. -/
theorem printk_tellsArguments_errorCode :
    ∃ printed printed',
      Prints (List.replicate 64 0)
          (textOf (errorCode 0 (chars "processor-related")).pieces)
          [⟨.int, (0 : Int32)⟩, ⟨.string, chars "processor-related"⟩]
          printed [] ∧
        Prints (List.replicate 64 1)
            (textOf (errorCode 0 (chars "processor-related")).pieces)
            [⟨.int, (-1 : Int32)⟩, ⟨.string, chars "generic"⟩]
            printed' [] ∧
          printed ≠ printed' := by
  obtain ⟨printed, printed', first, second, told⟩ :=
    printk_tellsArguments (List.replicate 64 0) (List.replicate 64 1)
      (errorCode 0 (chars "processor-related"))
      (errorCode (-1) (chars "generic")) (by decide) (by decide)
      ⟨rfl, rfl⟩ (clean_errorCode (by decide) 0 (by decide))
      (clean_errorCode (by decide) (-1) (by decide))
  exact ⟨printed, printed', first, second, fun same => by
    exact absurd (told.mp same) (by decide)⟩

end Messages

end Relics.Print
