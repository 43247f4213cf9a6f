import Relics.PrintDecimal
import Relics.PrintSource

namespace Relics.Print

/-!
# Formats as sequences of pieces

A format that the interpreter documents is a sequence of literal runs and
conversions, each with the argument that matches it.  The interpreter passes
the pieces one after the other: it prints what each piece stands for, takes
its argument, and hands the padding flag on to the next.  It faults at the
first argument that `lltoa` cannot write.
-/

open ByteMemory

/-- The conversions of `actual_print` other than `%%`. -/
inductive Specifier where
  | c
  | d
  | i
  | u
  | s
  | b
  | o
  | x
  | X
  | p
  | lu
  | ld
  | lb
  | lx
  | llu
  | lld
  deriving DecidableEq, Repr

namespace Specifier

/-- The letters of a conversion. -/
def letters : Specifier → String
  | c => "c"
  | d => "d"
  | i => "i"
  | u => "u"
  | s => "s"
  | b => "b"
  | o => "o"
  | x => "x"
  | X => "X"
  | p => "p"
  | lu => "lu"
  | ld => "ld"
  | lb => "lb"
  | lx => "lx"
  | llu => "llu"
  | lld => "lld"

/-- The type of the argument that matches a conversion. -/
def type : Specifier → CType
  | c | d | i => .int
  | u | b | o | x | X => .unsignedInt
  | p => .pointer
  | s => .string
  | lu | lb | lx => .unsignedLong
  | ld => .long
  | llu => .unsignedLongLong
  | lld => .longLong

/-- What stands in front of the value. -/
def lead : Specifier → String
  | b | lb => "0b"
  | o => "0o"
  | x | p | lx => "0x"
  | X => "0X"
  | _ => ""

/-- None of the bases is the one whose digits never end. -/
theorem two_ne_one : (2 : UInt32) ≠ 1 := by
  decide

theorem eight_ne_one : (8 : UInt32) ≠ 1 := by
  decide

theorem ten_ne_one : (10 : UInt32) ≠ 1 := by
  decide

theorem sixteen_ne_one : (16 : UInt32) ≠ 1 := by
  decide

/-- The unsigned number and the base that `decimal_to_base` is called with. -/
def number :
    (specifier : Specifier) →
    specifier.type.Value →
    Option (UInt64 × Base)
  | u, n => some (UInt32.toUInt64 n, ⟨10, ten_ne_one⟩)
  | b, n => some (UInt32.toUInt64 n, ⟨2, two_ne_one⟩)
  | o, n => some (UInt32.toUInt64 n, ⟨8, eight_ne_one⟩)
  | x, n => some (UInt32.toUInt64 n, ⟨16, sixteen_ne_one⟩)
  | X, n => some (UInt32.toUInt64 n, ⟨16, sixteen_ne_one⟩)
  | p, n => some (n, ⟨16, sixteen_ne_one⟩)
  | lu, n => some (n, ⟨10, ten_ne_one⟩)
  | lb, n => some (n, ⟨2, two_ne_one⟩)
  | lx, n => some (n, ⟨16, sixteen_ne_one⟩)
  | llu, n => some (n, ⟨10, ten_ne_one⟩)
  | _, _ => none

/-- What a conversion to anything but an unsigned number prints, if it returns -/
def plain
    (leftOver : List UInt8) :
    (specifier : Specifier) →
    specifier.type.Value →
    Option (List UInt8)
  | c, char => some [(Int32.toInt8 char).toUInt8]
  | s, string => some (printString string)
  | d, n => printInt leftOver n
  | i, n => printInt leftOver n
  | ld, n => printLong leftOver n
  | lld, n => printLongLong leftOver n
  | _, _ => some []

/-- What a conversion prints without padding. -/
def rendering
    (leftOver : List UInt8)
    (specifier : Specifier)
    (value : specifier.type.Value) :
    List UInt8 :=
  match specifier.number value with
  | some (n, base) =>
      chars specifier.lead ++ (decimalToBase leftOver n base false).1
  | none => (specifier.plain leftOver value).getD []

/-- What a conversion prints with `zero_pad`, and `zero_pad` afterwards. -/
def emit
    (leftOver : List UInt8)
    (specifier : Specifier)
    (value : specifier.type.Value)
    (zeroPad : Bool) :
    List UInt8 × Bool :=
  match specifier.number value with
  | some (n, base) =>
      let (digits, zeroPad) := decimalToBase leftOver n base zeroPad
      (chars specifier.lead ++ digits, zeroPad)
  | none => ((specifier.plain leftOver value).getD [], zeroPad)

/-- The conversion of the interpreter -/
def conversion
    (leftOver : List UInt8)
    (specifier : Specifier) :
    Conversion where
  type := specifier.type
  render value zeroPad :=
    match specifier.number value with
    | some (n, base) =>
        let (digits, zeroPad) := decimalToBase leftOver n base zeroPad
        some (chars specifier.lead ++ digits, zeroPad)
    | none =>
        (specifier.plain leftOver value).map fun text => (text, zeroPad)

end Specifier

/-- The 64-bit number of a signed argument -/
def Argument.signed : Argument → Option Int64
  | ⟨.long, n⟩ => some n
  | ⟨.longLong, n⟩ => some n
  | _ => none

/-- The argument is not the number that `lltoa` faults on. -/
def Argument.Exact (argument : Argument) : Prop :=
  argument.signed ≠ some Int64.minValue

instance (argument : Argument) : Decidable argument.Exact :=
  inferInstanceAs (Decidable (_ ≠ _))

section Faults

variable (leftOver : List UInt8)
variable (specifier : Specifier)
variable (value : specifier.type.Value)

/-- Only a signed 64-bit argument can make a conversion fault. -/
theorem isSome_plain_iff :
    (specifier.plain leftOver value).isSome = true ↔
      Argument.Exact ⟨specifier.type, value⟩ := by
  cases specifier with
  | ld | lld =>
      have signed :
          Argument.Exact ⟨_, value⟩ ↔ (value : Int64) ≠ Int64.minValue :=
        (Option.some_injective Int64).ne_iff
      rw [signed]
      exact printLongLong_isSome_iff leftOver value
  | d | i =>
      exact iff_of_true (printInt_isSome leftOver value) (nofun)
  | _ =>
      exact iff_of_true rfl (nofun)

/-- A conversion returns with what it emits. -/
theorem render_of_exact
    (zeroPad : Bool)
    (exact' : Argument.Exact ⟨specifier.type, value⟩) :
    (specifier.conversion leftOver).render value zeroPad =
      some (specifier.emit leftOver value zeroPad) := by
  simp only [Specifier.conversion, Specifier.emit]
  cases specifier.number value with
  | some call =>
      rfl
  | none =>
      obtain ⟨text, printed⟩ :=
        Option.isSome_iff_exists.mp
          ((isSome_plain_iff leftOver specifier value).mpr exact')
      simp only [printed, Option.map_some, Option.getD_some]

/-- No unsigned number is one that `lltoa` faults on. -/
theorem exact_of_number
    {call : UInt64 × Base}
    (number : specifier.number value = some call) :
    Argument.Exact ⟨specifier.type, value⟩ := by
  cases specifier with
  | ld | lld =>
      cases number
  | _ =>
      exact nofun

/-- On the smallest number a conversion faults. -/
theorem render_of_not_exact
    (zeroPad : Bool)
    (inexact : ¬ Argument.Exact ⟨specifier.type, value⟩) :
    (specifier.conversion leftOver).render value zeroPad = none := by
  have faults :=
    mt (isSome_plain_iff leftOver specifier value).mp inexact
  rw [Bool.not_eq_true, Option.isSome_eq_false_iff, Option.isNone_iff_eq_none]
    at faults
  simp only [Specifier.conversion]
  cases number : specifier.number value with
  | some call =>
      exact absurd (exact_of_number specifier value number) inexact
  | none =>
      simp only [faults, Option.map_none]

end Faults

/-- The variables of a scan once it has passed a part of the format. -/
structure Passed
    (scan passed : Scan)
    (length : Nat)
    (remaining : List Argument)
    (printed : List UInt8)
    (zeroPad : Bool) :
    Prop where
  offset : passed.offset = scan.offset + length
  arguments : passed.arguments = remaining
  output : passed.output = scan.output ++ printed
  zeroPad : passed.zeroPad = zeroPad

/-- Two parts that are passed one after the other are passed together. -/
theorem Passed.trans
    {scan middle last : Scan}
    {first second : Nat}
    {between remaining : List Argument}
    {printed later : List UInt8}
    {zeroPad zeroPad' : Bool}
    (passed : Passed scan middle first between printed zeroPad)
    (passed' : Passed middle last second remaining later zeroPad') :
    Passed scan last (first + second) remaining (printed ++ later) zeroPad' where
  offset := by
    rw [passed'.offset, passed.offset, Nat.add_assoc]
  arguments := passed'.arguments
  output := by
    rw [passed'.output, passed.output, List.append_assoc]
  zeroPad := passed'.zeroPad

section Turns

variable
    {leftOver : List UInt8}
    {format : Memory}
    {scan : Scan}
    {rest : List UInt8}

/-- An argument of the type that is asked for is printed and taken. -/
theorem convert_passed
    (conversion : Conversion)
    {value : conversion.type.Value}
    {remaining : List Argument}
    {printed : List UInt8}
    {zeroPad : Bool}
    (given : scan.arguments = ⟨conversion.type, value⟩ :: remaining)
    (rendered : conversion.render value scan.zeroPad = some (printed, zeroPad)) :
    ∃ passed,
      convert conversion scan = .goesOn .loop passed ∧
        Passed scan passed 1 remaining printed zeroPad := by
  have taken : vaArg conversion.type scan.arguments = some (value, remaining) := by
    simp [given, vaArg]
  simp only [convert, taken, rendered]
  exact ⟨_, rfl, rfl, rfl, rfl, rfl⟩

/-- An argument that a conversion faults on ends the run. -/
theorem convert_faults
    (conversion : Conversion)
    {value : conversion.type.Value}
    {remaining : List Argument}
    (given : scan.arguments = ⟨conversion.type, value⟩ :: remaining)
    (faults : conversion.render value scan.zeroPad = none) :
    ∃ final, convert conversion scan = .faulted final := by
  have taken : vaArg conversion.type scan.arguments = some (value, remaining) := by
    simp [given, vaArg]
  simp only [convert, taken, faults]
  exact ⟨_, rfl⟩

section Letters

variable {conversion : Conversion}

/-- A conversion of one letter. -/
theorem turn_letter
    {char : Char}
    (known : Print.conversion leftOver char = some conversion)
    (found : Char.ofUInt8 (format (scan.offset + 1)) = char) :
    turn leftOver format .format scan =
      convert conversion scan.forward.read := by
  have notPercent : char ≠ '%' := by
    rintro rfl
    cases known
  have notZero : char ≠ '0' := by
    rintro rfl
    cases known
  have notLong : char ≠ 'l' := by
    rintro rfl
    cases known
  have here : current format scan.forward.read = char := found
  rw [turn, here, if_neg notPercent, if_neg notZero, if_neg notLong, known]

/-- A conversion of one letter after `l`. -/
theorem turn_long
    {char : Char}
    (known : longConversion leftOver char = some conversion)
    (long : Char.ofUInt8 (format (scan.offset + 1)) = 'l')
    (found : Char.ofUInt8 (format (scan.offset + 2)) = char) :
    turn leftOver format .format scan =
      convert conversion scan.forward.read.forward.read := by
  have notTerminator : format scan.forward.read.forward.read.offset ≠ 0 := by
    intro terminator
    change format (scan.offset + 2) = 0 at terminator
    rw [terminator] at found
    subst found
    cases known
  have notLong : char ≠ 'l' := by
    rintro rfl
    cases known
  have first : current format scan.forward.read = 'l' := long
  have second : current format scan.forward.read.forward.read = char := found
  rw [turn, first, if_neg (by decide), if_neg (by decide), if_pos rfl, longCase,
    if_neg notTerminator, second, if_neg notLong, known]

/-- A conversion of one letter after `ll`. -/
theorem turn_longLong
    {char : Char}
    (known : longLongConversion leftOver char = some conversion)
    (long : Char.ofUInt8 (format (scan.offset + 1)) = 'l')
    (longLong : Char.ofUInt8 (format (scan.offset + 2)) = 'l')
    (found : Char.ofUInt8 (format (scan.offset + 3)) = char) :
    turn leftOver format .format scan =
      convert conversion scan.forward.read.forward.read.forward.read := by
  have notTerminator : format scan.forward.read.forward.read.offset ≠ 0 := by
    intro terminator
    change format (scan.offset + 2) = 0 at terminator
    rw [terminator] at longLong
    exact absurd longLong (by decide)
  have notTerminatorLater :
      format scan.forward.read.forward.read.forward.read.offset ≠ 0 := by
    intro terminator
    change format (scan.offset + 3) = 0 at terminator
    rw [terminator] at found
    subst found
    cases known
  have first : current format scan.forward.read = 'l' := long
  have second : current format scan.forward.read.forward.read = 'l' := longLong
  have third :
      current format scan.forward.read.forward.read.forward.read = char :=
    found
  rw [turn, first, if_neg (by decide), if_neg (by decide), if_pos rfl, longCase,
    if_neg notTerminator, second, if_pos rfl, longLongCase,
    if_neg notTerminatorLater, third, known]

end Letters

/-- The letters of a conversion lead to it. -/
theorem turn_eq_convert
    (leftOver : List UInt8)
    (specifier : Specifier)
    (spells :
      Spells format (scan.offset + 1) (chars specifier.letters ++ rest)) :
    ∃ reached,
      turn leftOver format .format scan =
          convert (specifier.conversion leftOver) reached ∧
        Passed scan reached (chars specifier.letters).length scan.arguments []
          scan.zeroPad := by
  have nothing : scan.output = scan.output ++ [] :=
    (List.append_nil _).symm
  cases specifier with
  | lu | lb | lx | ld =>
      exact
        ⟨_, turn_long rfl (congrArg Char.ofUInt8 spells.1)
          (congrArg Char.ofUInt8 spells.2.2.1), rfl, rfl, nothing, rfl⟩
  | llu | lld =>
      exact
        ⟨_, turn_longLong rfl (congrArg Char.ofUInt8 spells.1)
          (congrArg Char.ofUInt8 spells.2.2.1)
          (congrArg Char.ofUInt8 spells.2.2.2.2.1), rfl, rfl, nothing, rfl⟩
  | _ =>
      exact
        ⟨_, turn_letter rfl (congrArg Char.ofUInt8 spells.1), rfl, rfl,
          nothing, rfl⟩

/-- The letters of a conversion take its argument and print it. -/
theorem turn_specifier
    (leftOver : List UInt8)
    (specifier : Specifier)
    (value : specifier.type.Value)
    {remaining : List Argument}
    (exact' : Argument.Exact ⟨specifier.type, value⟩)
    (spells : Spells format (scan.offset + 1) (chars specifier.letters ++ rest))
    (given : scan.arguments = ⟨specifier.type, value⟩ :: remaining) :
    ∃ passed,
      turn leftOver format .format scan = .goesOn .loop passed ∧
        Passed scan passed ((chars specifier.letters).length + 1) remaining
          (specifier.emit leftOver value scan.zeroPad).1
          (specifier.emit leftOver value scan.zeroPad).2 := by
  obtain ⟨reached, led, before⟩ := turn_eq_convert leftOver specifier spells
  have rendered :=
    render_of_exact leftOver specifier value reached.zeroPad exact'
  obtain ⟨passed, converted, after⟩ :=
    convert_passed (specifier.conversion leftOver)
      (before.arguments.trans given) rendered
  rw [before.zeroPad] at after
  exact ⟨passed, led.trans converted, before.trans after⟩

/-- The letters of a conversion fault on the smallest number. -/
theorem turn_specifier_faults
    (leftOver : List UInt8)
    (specifier : Specifier)
    (value : specifier.type.Value)
    {remaining : List Argument}
    (inexact : ¬ Argument.Exact ⟨specifier.type, value⟩)
    (spells : Spells format (scan.offset + 1) (chars specifier.letters ++ rest))
    (given : scan.arguments = ⟨specifier.type, value⟩ :: remaining) :
    ∃ final, turn leftOver format .format scan = .faulted final := by
  obtain ⟨reached, led, before⟩ := turn_eq_convert leftOver specifier spells
  have faults :=
    render_of_not_exact leftOver specifier value reached.zeroPad inexact
  obtain ⟨final, faulted⟩ :=
    convert_faults (specifier.conversion leftOver)
      (before.arguments.trans given) faults
  exact ⟨final, led.trans faulted⟩

/-- Text is printed as it is. -/
theorem runFrom_text
    (leftOver : List UInt8)
    (scan : Scan)
    {text : List UInt8}
    (plain : '%' ∉ text.map Char.ofUInt8)
    (spells : Spells format scan.offset (text ++ rest))
    (fuel : Nat) :
    ∃ passed,
      runFrom leftOver (fuel + text.length) format .loop scan =
          runFrom leftOver fuel format .loop passed ∧
        Passed scan passed text.length scan.arguments text scan.zeroPad := by
  induction text generalizing scan with
  | nil =>
      exact ⟨scan, rfl, rfl, rfl, (List.append_nil _).symm, rfl⟩
  | cons byte text inductionHypothesis =>
      obtain ⟨here, later⟩ := not_or.mp (mt List.mem_cons.mpr plain)
      obtain ⟨found, nonzero, restSpells⟩ := spells
      have step :
          turn leftOver format .loop scan =
            (scan.read.print [byte]).break := by
        have readFound : format scan.read.offset = byte := found
        rw [turn, readFound, if_neg nonzero, current, readFound,
          if_neg (Ne.symm here)]
      obtain ⟨passed, run, after⟩ :=
        inductionHypothesis (scan.read.print [byte]).forward later restSpells
      refine ⟨passed, ?_, ?_, after.arguments, ?_, after.zeroPad⟩
      · rw [List.length_cons, ← Nat.add_assoc, runFrom, step]
        exact run
      · rw [after.offset, List.length_cons, Nat.add_comm text.length 1,
          ← Nat.add_assoc]
        rfl
      · rw [after.output]
        simp [Scan.forward, Scan.print, Scan.read]

/-- A part of a format is followed by what follows it. -/
theorem spells_append
    {address : Nat}
    {first second : List UInt8}
    (spells : Spells format address (first ++ second)) :
    Spells format (address + first.length) second := by
  induction first generalizing address with
  | nil =>
      exact spells
  | cons byte first inductionHypothesis =>
      rw [List.length_cons, Nat.add_comm first.length 1, ← Nat.add_assoc]
      exact inductionHypothesis spells.2.2

/-- The `0` flag of a conversion, if it is there. -/
def flag (zero : Bool) : List UInt8 :=
  if zero = true then chars "0" else []

/-- A `%` leads to the label, and a `0` flag back to it with `zero_pad` set. -/
theorem runFrom_percent
    (leftOver : List UInt8)
    (scan : Scan)
    (zero : Bool)
    (spells : Spells format scan.offset (chars "%" ++ flag zero ++ rest))
    (fuel : Nat) :
    ∃ reached,
      runFrom leftOver (fuel + (1 + (flag zero).length)) format .loop scan =
          runFrom leftOver fuel format .format reached ∧
        Spells format (reached.offset + 1) rest ∧
        Passed scan reached (flag zero).length scan.arguments []
          (scan.zeroPad || zero) := by
  have next := spells_append spells
  obtain ⟨percent, nonzero, ahead⟩ := spells
  have first : turn leftOver format .loop scan = .goesOn .format scan.read := by
    have here : current format scan.read = '%' :=
      congrArg Char.ofUInt8 percent
    have notTerminator : format scan.read.offset ≠ 0 := by
      change format scan.offset ≠ 0
      rwa [percent]
    rw [turn, if_neg notTerminator, if_pos here]
  cases zero with
  | false =>
      refine
        ⟨scan.read, ?_, next, rfl, rfl, (List.append_nil _).symm,
          by simp [Scan.read]⟩
      rw [flag, if_neg (by decide), List.length_nil, runFrom, first]
  | true =>
      have zeroHere : current format scan.read.forward.read = '0' :=
        congrArg Char.ofUInt8 ahead.1
      have second :
          turn leftOver format .format scan.read =
            .goesOn .format { scan.read.forward.read with zeroPad := true } := by
        rw [turn, zeroHere, if_neg (by decide), if_pos rfl]
      refine
        ⟨{ scan.read.forward.read with zeroPad := true }, ?_, next, rfl, rfl,
          (List.append_nil _).symm, by simp⟩
      have turns : fuel + (1 + (flag true).length) = fuel + 1 + 1 := rfl
      rw [turns, runFrom, first]
      simp only
      rw [runFrom, second]

end Turns

/-- A part of a format that the interpreter prints as it is. -/
structure Literal where
  bytes : List UInt8
  plain : '%' ∉ bytes.map Char.ofUInt8
  nonzero : 0 ∉ bytes

/-- A part of a format with the argument that matches it. -/
inductive Piece where
  | literal (text : Literal)
  | percent (zero : Bool)
  | conversion
      (zero : Bool)
      (specifier : Specifier)
      (value : specifier.type.Value)

namespace Piece

/-- A conversion has a `0` flag. -/
def flagged : Piece → Bool
  | literal _ => false
  | percent zero => zero
  | conversion zero _ _ => zero

/-- The bytes of the format. -/
def text : Piece → List UInt8
  | literal text => text.bytes
  | percent zero => chars "%" ++ flag zero ++ chars "%"
  | conversion zero specifier _ =>
      chars "%" ++ flag zero ++ chars specifier.letters

/-- The argument of a conversion. -/
def arguments : Piece → List Argument
  | literal _ => []
  | percent _ => []
  | conversion _ specifier value => [⟨specifier.type, value⟩]

/-- What a piece prints with `zero_pad`, and `zero_pad` afterwards. -/
def emit
    (leftOver : List UInt8)
    (piece : Piece)
    (zeroPad : Bool) :
    List UInt8 × Bool :=
  match piece with
  | literal text => (text.bytes, zeroPad)
  | percent zero => (chars "%", zeroPad || zero)
  | conversion zero specifier value =>
      specifier.emit leftOver value (zeroPad || zero)

/-- What a piece without a flag prints. -/
def rendering (leftOver : List UInt8) : Piece → List UInt8
  | literal text => text.bytes
  | percent _ => chars "%"
  | conversion _ specifier value => specifier.rendering leftOver value

/-- The turns that a piece takes. -/
def turns : Piece → Nat
  | literal text => text.bytes.length
  | percent zero => 1 + (1 + (flag zero).length)
  | conversion zero _ _ => 1 + (1 + (flag zero).length)

end Piece

section Pieces

variable (leftOver : List UInt8)

/-- The format that a sequence of pieces makes up. -/
def textOf (pieces : List Piece) : List UInt8 :=
  pieces.flatMap Piece.text

/-- The arguments that match a sequence of pieces. -/
def argumentsOf (pieces : List Piece) : List Argument :=
  pieces.flatMap Piece.arguments

/-- What a sequence of pieces prints, and `zero_pad` afterwards. -/
def emitAll :
    (pieces : List Piece) →
    (zeroPad : Bool) →
    List UInt8 × Bool
  | [], zeroPad => ([], zeroPad)
  | piece :: rest, zeroPad =>
      let (printed, zeroPad) := piece.emit leftOver zeroPad
      let (later, zeroPad) := emitAll rest zeroPad
      (printed ++ later, zeroPad)

/-- The turns that a sequence of pieces takes. -/
def turnsOf : List Piece → Nat
  | [] => 0
  | piece :: rest => turnsOf rest + piece.turns

/--
`actual_print` returns on every format that spells a text; it has printed
these characters and has left these arguments.
-/
def Prints
    (text : List UInt8)
    (arguments : List Argument)
    (output : List UInt8)
    (remaining : List Argument) :
    Prop :=
  ∀ format,
    Spells format 0 text →
    ∃ enough, ∀ fuel, enough ≤ fuel →
      ∃ final,
        actualPrint leftOver fuel format arguments = .returned final ∧
          final.output = output ∧
          final.arguments = remaining

end Pieces

section Passing

variable
    {leftOver : List UInt8}
    {format : Memory}
    {scan : Scan}
    {rest : List UInt8}
    {remaining : List Argument}

/-- The sign after the flag of `%%` is printed. -/
theorem turn_percent
    (leftOver : List UInt8)
    (scan : Scan)
    (found : Char.ofUInt8 (format (scan.offset + 1)) = '%') :
    ∃ passed,
      turn leftOver format .format scan = .goesOn .loop passed ∧
        Passed scan passed 2 scan.arguments (chars "%") scan.zeroPad := by
  have here : current format scan.forward.read = '%' := found
  rw [turn, here, if_pos rfl]
  exact ⟨_, rfl, rfl, rfl, rfl, rfl⟩

/-- A conversion takes its sign, its flag and its letters. -/
theorem length_conversion
    (zero : Bool)
    (letters : List UInt8) :
    (chars "%" ++ flag zero ++ letters).length =
      (flag zero).length + (letters.length + 1) := by
  rw [List.length_append, List.length_append, Nat.add_comm _ (flag zero).length,
    Nat.add_assoc, Nat.add_comm _ letters.length]
  rfl

/-- A piece is passed in a fixed number of turns. -/
theorem runFrom_piece
    (leftOver : List UInt8)
    (scan : Scan)
    (piece : Piece)
    (exact' : ∀ argument ∈ piece.arguments, argument.Exact)
    (spells : Spells format scan.offset (piece.text ++ rest))
    (given : scan.arguments = piece.arguments ++ remaining)
    (fuel : Nat) :
    ∃ passed,
      runFrom leftOver (fuel + piece.turns) format .loop scan =
          runFrom leftOver fuel format .loop passed ∧
        Passed scan passed piece.text.length remaining
          (piece.emit leftOver scan.zeroPad).1
          (piece.emit leftOver scan.zeroPad).2 := by
  cases piece with
  | literal text =>
      obtain ⟨passed, run, after⟩ :=
        runFrom_text leftOver scan text.plain spells fuel
      exact ⟨passed, run, { after with arguments := after.arguments.trans given }⟩
  | percent zero =>
      obtain ⟨reached, run, ahead, before⟩ :=
        runFrom_percent leftOver scan zero
          (by simpa [Piece.text] using spells) (fuel + 1)
      obtain ⟨passed, turned, after⟩ :=
        turn_percent leftOver reached (congrArg Char.ofUInt8 ahead.1)
      have whole := before.trans after
      refine
        ⟨passed, ?_, ?_, whole.arguments.trans (before.arguments.trans given),
          whole.output, whole.zeroPad.trans before.zeroPad⟩
      · rw [Piece.turns, ← Nat.add_assoc, run, runFrom, turned]
      · rw [whole.offset, Piece.text, length_conversion]
        rfl
  | conversion zero specifier value =>
      obtain ⟨reached, run, ahead, before⟩ :=
        runFrom_percent leftOver scan zero
          (by simpa [Piece.text] using spells) (fuel + 1)
      obtain ⟨passed, turned, after⟩ :=
        turn_specifier leftOver specifier value
          (exact' _ (List.mem_singleton_self _)) ahead
          (before.arguments.trans given)
      have whole := before.trans after
      rw [before.zeroPad] at whole
      refine ⟨passed, ?_, ?_, whole.arguments, whole.output, whole.zeroPad⟩
      · rw [Piece.turns, ← Nat.add_assoc, run, runFrom, turned]
      · rw [whole.offset, Piece.text, length_conversion]

/-- The pieces of a format are passed one after the other. -/
theorem runFrom_pieces
    (leftOver : List UInt8)
    (scan : Scan)
    (pieces : List Piece)
    (exact' : ∀ argument ∈ argumentsOf pieces, argument.Exact)
    (spells : Spells format scan.offset (textOf pieces ++ rest))
    (given : scan.arguments = argumentsOf pieces ++ remaining)
    (fuel : Nat) :
    ∃ passed,
      runFrom leftOver (fuel + turnsOf pieces) format .loop scan =
          runFrom leftOver fuel format .loop passed ∧
        Passed scan passed (textOf pieces).length remaining
          (emitAll leftOver pieces scan.zeroPad).1
          (emitAll leftOver pieces scan.zeroPad).2 := by
  induction pieces generalizing scan with
  | nil =>
      exact ⟨scan, rfl, rfl, given, (List.append_nil _).symm, rfl⟩
  | cons piece pieces inductionHypothesis =>
      rw [textOf, List.flatMap_cons, List.append_assoc] at spells
      rw [argumentsOf, List.flatMap_cons, List.append_assoc] at given
      rw [argumentsOf, List.flatMap_cons, List.forall_mem_append] at exact'
      obtain ⟨middle, run, first⟩ :=
        runFrom_piece leftOver scan piece exact'.1 spells given
          (fuel + turnsOf pieces)
      have ahead := spells_append spells
      rw [← first.offset] at ahead
      obtain ⟨passed, runRest, second⟩ :=
        inductionHypothesis middle exact'.2 ahead first.arguments
      rw [first.zeroPad] at second
      have whole := first.trans second
      refine ⟨passed, ?_, ?_, whole.arguments, whole.output, whole.zeroPad⟩
      · rw [turnsOf, ← Nat.add_assoc, run, runRest]
      · rw [whole.offset, textOf, textOf, List.flatMap_cons,
          List.length_append]

/-- A piece with an argument that `lltoa` cannot write ends the run. -/
theorem runFrom_piece_faults
    (leftOver : List UInt8)
    (scan : Scan)
    (piece : Piece)
    (inexact : ¬ ∀ argument ∈ piece.arguments, argument.Exact)
    (spells : Spells format scan.offset (piece.text ++ rest))
    (given : scan.arguments = piece.arguments ++ remaining)
    (fuel : Nat) :
    ∃ final,
      runFrom leftOver (fuel + piece.turns) format .loop scan =
        .faulted final := by
  cases piece with
  | literal text =>
      exact absurd (List.forall_mem_nil _) inexact
  | percent zero =>
      exact absurd (List.forall_mem_nil _) inexact
  | conversion zero specifier value =>
      obtain ⟨reached, run, ahead, before⟩ :=
        runFrom_percent leftOver scan zero
          (by simpa [Piece.text] using spells) (fuel + 1)
      have inexactValue : ¬ Argument.Exact ⟨specifier.type, value⟩ :=
        fun exact' => inexact fun argument member =>
          List.mem_singleton.mp member ▸ exact'
      obtain ⟨final, turned⟩ :=
        turn_specifier_faults leftOver specifier value inexactValue ahead
          (before.arguments.trans given)
      refine ⟨final, ?_⟩
      rw [Piece.turns, ← Nat.add_assoc, run, runFrom, turned]

/-- The run ends at the first argument that `lltoa` cannot write. -/
theorem runFrom_pieces_faults
    (leftOver : List UInt8)
    (scan : Scan)
    (pieces : List Piece)
    (inexact : ¬ ∀ argument ∈ argumentsOf pieces, argument.Exact)
    (spells : Spells format scan.offset (textOf pieces ++ rest))
    (given : scan.arguments = argumentsOf pieces ++ remaining)
    (fuel : Nat) :
    ∃ final,
      runFrom leftOver (fuel + turnsOf pieces) format .loop scan =
        .faulted final := by
  induction pieces generalizing scan with
  | nil =>
      exact absurd (List.forall_mem_nil _) inexact
  | cons piece pieces inductionHypothesis =>
      rw [textOf, List.flatMap_cons, List.append_assoc] at spells
      rw [argumentsOf, List.flatMap_cons, List.append_assoc] at given
      rw [argumentsOf, List.flatMap_cons, List.forall_mem_append] at inexact
      rw [turnsOf, ← Nat.add_assoc]
      by_cases exact' : ∀ argument ∈ piece.arguments, argument.Exact
      · obtain ⟨middle, run, first⟩ :=
          runFrom_piece leftOver scan piece exact' spells given
            (fuel + turnsOf pieces)
        have ahead := spells_append spells
        rw [← first.offset] at ahead
        rw [run]
        exact
          inductionHypothesis middle (fun rest => inexact ⟨exact', rest⟩)
            ahead first.arguments
      · exact
          runFrom_piece_faults leftOver scan piece exact' spells given
            (fuel + turnsOf pieces)

/-- The interpreter prints a sequence of pieces and takes their arguments. -/
theorem prints_pieces
    (leftOver : List UInt8)
    (pieces : List Piece)
    (extra : List Argument)
    (exact' : ∀ argument ∈ argumentsOf pieces, argument.Exact) :
    Prints leftOver (textOf pieces) (argumentsOf pieces ++ extra)
      (emitAll leftOver pieces false).1 extra := by
  intro format spells
  refine ⟨1 + turnsOf pieces, fun fuel enough => ?_⟩
  obtain ⟨spare, rfl⟩ := Nat.exists_eq_add_of_le' enough
  rw [← List.append_nil (textOf pieces)] at spells
  obtain ⟨passed, run, after⟩ :=
    runFrom_pieces leftOver (.start (argumentsOf pieces ++ extra)) pieces
      exact' spells rfl (spare + 1)
  have terminator : format passed.read.offset = 0 := by
    have ahead := spells_append spells
    change format passed.offset = 0
    rw [after.offset]
    exact ahead
  refine ⟨passed.read, ?_, after.output, after.arguments⟩
  rw [actualPrint, ← Nat.add_assoc, run, runFrom, turn, if_pos terminator]

/-- No byte of a format of pieces is the terminator. -/
theorem zero_notMem_textOf
    (pieces : List Piece) :
    0 ∉ textOf pieces := by
  have letters (specifier : Specifier) : 0 ∉ chars specifier.letters := by
    cases specifier <;> decide
  have flags (zero : Bool) : 0 ∉ chars "%" ++ flag zero := by
    cases zero <;> decide
  intro member
  obtain ⟨piece, -, inside⟩ := List.mem_flatMap.mp member
  cases piece with
  | literal text =>
      exact text.nonzero inside
  | percent zero =>
      obtain sign | last := List.mem_append.mp inside
      · exact flags zero sign
      · exact absurd last (by decide)
  | conversion zero specifier value =>
      obtain sign | last := List.mem_append.mp inside
      · exact flags zero sign
      · exact letters specifier last

/-- No call returns that has an argument which `lltoa` cannot write. -/
theorem Prints.exact
    {leftOver output : List UInt8}
    {pieces : List Piece}
    {extra remaining : List Argument}
    (prints :
      Prints leftOver (textOf pieces) (argumentsOf pieces ++ extra) output
        remaining) :
    ∀ argument ∈ argumentsOf pieces, argument.Exact := by
  have spells := spells_spelled [] (textOf pieces) (zero_notMem_textOf pieces)
  obtain ⟨enough, returns⟩ := prints _ spells
  obtain ⟨final, returned, -, -⟩ :=
    returns (enough + turnsOf pieces) (Nat.le_add_right _ _)
  by_contra inexact
  rw [← List.append_nil (textOf pieces)] at spells
  obtain ⟨last, faulted⟩ :=
    runFrom_pieces_faults leftOver (.start (argumentsOf pieces ++ extra))
      pieces inexact spells rfl enough
  rw [List.append_nil] at faulted
  cases returned.symm.trans faulted

/-- A format that is told by its pieces prints what they do. -/
theorem prints_of_pieces
    {leftOver text output : List UInt8}
    {arguments : List Argument}
    (pieces : List Piece)
    (format : text = textOf pieces)
    (given : arguments = argumentsOf pieces)
    (exact' : ∀ argument ∈ arguments, argument.Exact)
    (printed : (emitAll leftOver pieces false).1 = output) :
    Prints leftOver text arguments output [] := by
  have whole := prints_pieces leftOver pieces [] (given ▸ exact')
  rw [List.append_nil] at whole
  rwa [format, given, ← printed]

end Passing

section Rendering

/-- Without padding a conversion prints its rendering and leaves no padding. -/
theorem emit_unpadded
    (leftOver : List UInt8)
    (specifier : Specifier)
    (value : specifier.type.Value) :
    specifier.emit leftOver value false =
      (specifier.rendering leftOver value, false) := by
  unfold Specifier.emit Specifier.rendering
  cases specifier.number value with
  | none =>
      rfl
  | some call =>
      obtain ⟨n, base⟩ := call
      have unpadded : (decimalToBase leftOver n base false).2 = false := by
        unfold decimalToBase
        split
        · rfl
        · split <;> rfl
      simp [unpadded]

/-- Pieces without flags print their renderings one after the other. -/
theorem emitAll_unflagged
    (leftOver : List UInt8)
    {pieces : List Piece}
    (unflagged : ∀ piece ∈ pieces, piece.flagged = false) :
    emitAll leftOver pieces false =
      (pieces.flatMap (Piece.rendering leftOver), false) := by
  induction pieces with
  | nil =>
      rfl
  | cons piece pieces inductionHypothesis =>
      rw [List.forall_mem_cons] at unflagged
      obtain ⟨here, later⟩ := unflagged
      have first :
          piece.emit leftOver false = (piece.rendering leftOver, false) := by
        cases piece with
        | literal text =>
            rfl
        | percent zero =>
            simp [Piece.flagged] at here
            simp [Piece.emit, Piece.rendering, here]
        | conversion zero specifier value =>
            simp [Piece.flagged] at here
            simp [Piece.emit, Piece.rendering, here, emit_unpadded]
      simp only [emitAll, first, inductionHypothesis later,
        List.flatMap_cons]

/--
A format of literal runs and conversions without flags prints the runs and
the renderings of the conversions, and takes one argument for each, exactly if
no signed 64-bit argument is the smallest number.
-/
theorem prints_rendering_iff
    (leftOver : List UInt8)
    (pieces : List Piece)
    (extra : List Argument)
    (unflagged : ∀ piece ∈ pieces, piece.flagged = false) :
    Prints leftOver (textOf pieces) (argumentsOf pieces ++ extra)
        (pieces.flatMap (Piece.rendering leftOver)) extra ↔
      ∀ argument ∈ argumentsOf pieces, argument.Exact := by
  refine ⟨Prints.exact, fun exact' => ?_⟩
  have printed := prints_pieces leftOver pieces extra exact'
  rwa [emitAll_unflagged leftOver unflagged] at printed

/-- A format with a literal run, a number, a sign, a character and a string. -/
def samplePieces : List Piece :=
  [.literal ⟨chars "n=", by decide, by decide⟩, .conversion false .X (0 : UInt32),
    .percent false, .conversion false .c (65 : Int32),
    .conversion false .s (chars "hi")]

/-- The format is printed with one argument for each conversion. -/
theorem prints_rendering_iff_sample :
    Prints [] (chars "n=%X%%%c%s")
      [⟨.unsignedInt, (0 : UInt32)⟩, ⟨.int, (65 : Int32)⟩,
        ⟨.string, chars "hi"⟩]
      (chars "n=0X0%Ahi") [] := by
  have output :
      samplePieces.flatMap (Piece.rendering []) = chars "n=0X0%Ahi" := by
    decide +kernel
  rw [← output]
  exact (prints_rendering_iff [] samplePieces [] (by decide)).mpr (by decide)

/-- Printing the smallest number with `%lld` does not return. -/
theorem not_prints_rendering_smallest :
    ¬ ∃ output remaining,
      Prints (List.replicate 64 0) (chars "%lld\n")
        [⟨.longLong, Int64.minValue⟩] output remaining := by
  let pieces : List Piece :=
    [.conversion false .lld Int64.minValue,
      .literal ⟨chars "\n", by decide, by decide⟩]
  rintro ⟨output, remaining, prints⟩
  have inexact : ¬ ∀ argument ∈ argumentsOf pieces, argument.Exact := by
    decide
  have exact' : ∀ argument ∈ argumentsOf pieces, argument.Exact :=
    Prints.exact prints
  exact inexact exact'

/-- A format with nothing to convert. -/
theorem prints_literal
    (leftOver : List UInt8)
    (text : Literal) :
    Prints leftOver text.bytes [] text.bytes [] := by
  apply prints_of_pieces [.literal text]
  · exact (List.append_nil _).symm
  · rfl
  · exact List.forall_mem_nil _
  · exact List.append_nil _

/-- A string between two literals. -/
theorem prints_string
    (leftOver : List UInt8)
    (before behind : Literal)
    (string : List UInt8) :
    Prints leftOver (before.bytes ++ chars "%s" ++ behind.bytes)
      [⟨.string, string⟩]
      (before.bytes ++ printString string ++ behind.bytes) [] := by
  have conversionText : chars "%" ++ flag false ++ chars "s" = chars "%s" := by
    decide
  apply prints_of_pieces
    [.literal before, .conversion false .s string, .literal behind]
  · simp only [textOf, List.flatMap_cons, List.flatMap_nil, Piece.text,
      Specifier.letters, conversionText, List.append_nil, ← List.append_assoc]
  · rfl
  · exact List.forall_mem_singleton.mpr nofun
  · simp only [emitAll, Piece.emit, Specifier.emit, Specifier.number,
      Specifier.plain, Option.getD_some, List.append_nil, ← List.append_assoc]

/-- The start of a log line. -/
theorem prints_logStart
    (leftOver : List UInt8)
    (time : List UInt8) :
    Prints leftOver (chars "[%s] ") [⟨.string, time⟩] (logPrintk time []) [] := by
  have printed :=
    prints_string leftOver ⟨chars "[", by decide, by decide⟩
      ⟨chars "] ", by decide, by decide⟩ time
  rw [logPrintk, List.append_nil]
  exact printed

end Rendering

end Relics.Print
