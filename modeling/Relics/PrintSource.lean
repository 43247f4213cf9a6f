import Relics.ByteMemory
import Relics.PrintNumbers

namespace Relics.Print

/-!
# The format interpreter of `kio.c`

`actual_print` is a loop with a label inside it, so it is run from label to
label.  The format is read through a pointer, here an offset into memory that
goes on after the string; every offset that is read is recorded, the latest
first.  An argument has a C type, and `va_arg` asks for a type.  `printk` calls
itself for a conversion it does not know.  A conversion that stores outside
its array faults, and the run ends there.
-/

open ByteMemory

/-- The C types `actual_print` asks `va_arg` for. -/
inductive CType where
  | int
  | unsignedInt
  | long
  | unsignedLong
  | longLong
  | unsignedLongLong
  | pointer
  | string
  deriving DecidableEq, Repr

/-- The values of a type; a string is the memory it points to, up to its 0. -/
def CType.Value : CType → Type
  | int => Int32
  | unsignedInt => UInt32
  | long => Int64
  | unsignedLong => UInt64
  | longLong => Int64
  | unsignedLongLong => UInt64
  | pointer => UInt64
  | string => List UInt8

/-- An argument of `printk`. -/
structure Argument where
  type : CType
  value : type.Value

/-- `va_arg`: the next argument and the ones after it -/
def vaArg
    (type : CType) :
    List Argument →
    Option (type.Value × List Argument)
  | [] => none
  | argument :: rest =>
      if same : argument.type = type then
        some (same ▸ argument.value, rest)
      else
        none

/--
A conversion: the type it asks for, and what it prints with `zero_pad` unless
it faults
-/
structure Conversion where
  type : CType
  render : type.Value → Bool → Option (List UInt8 × Bool)

section Conversions

variable (leftOver : List UInt8)

/-- A `0`, a letter and the digits in a base. -/
def withLetter
    (letter : String)
    (base : Base)
    (n : UInt64)
    (zeroPad : Bool) :
    Option (List UInt8 × Bool) :=
  let (digits, zeroPad) := decimalToBase leftOver n base zeroPad
  some (chars "0" ++ chars letter ++ digits, zeroPad)

/-- The conversions after `%`, other than `%`, `0` and `l` -/
def conversion (char : Char) : Option Conversion :=
  match char with
  | 'i' | 'd' =>
      some ⟨.int, fun d zeroPad =>
        (printInt leftOver d).map fun text => (text, zeroPad)⟩
  | 'u' =>
      some ⟨.unsignedInt, fun u zeroPad =>
        some (printUnsignedInt leftOver u zeroPad)⟩
  | 'b' =>
      some ⟨.unsignedInt, fun b =>
        withLetter leftOver "b" ⟨2, by decide⟩ (UInt32.toUInt64 b)⟩
  | 'X' =>
      some ⟨.unsignedInt, fun x =>
        withLetter leftOver "X" ⟨16, by decide⟩ (UInt32.toUInt64 x)⟩
  | 'x' =>
      some ⟨.unsignedInt, fun x =>
        withLetter leftOver "x" ⟨16, by decide⟩ (UInt32.toUInt64 x)⟩
  | 'o' =>
      some ⟨.unsignedInt, fun o =>
        withLetter leftOver "o" ⟨8, by decide⟩ (UInt32.toUInt64 o)⟩
  | 'p' =>
      some ⟨.pointer, fun ptr =>
        withLetter leftOver "x" ⟨16, by decide⟩ ptr⟩
  | 'c' =>
      some ⟨.int, fun c zeroPad =>
        some ([(Int32.toInt8 c).toUInt8], zeroPad)⟩
  | 's' =>
      some ⟨.string, fun s zeroPad => some (printString s, zeroPad)⟩
  | _ => none

/-- The conversions after `%l`, other than `l` -/
def longConversion (char : Char) : Option Conversion :=
  match char with
  | 'u' =>
      some ⟨.unsignedLong, fun lu zeroPad =>
        some (printUnsignedLong leftOver lu zeroPad)⟩
  | 'd' =>
      some ⟨.long, fun ld zeroPad =>
        (printLong leftOver ld).map fun text => (text, zeroPad)⟩
  | 'b' =>
      some ⟨.unsignedLong, fun lb =>
        withLetter leftOver "b" ⟨2, by decide⟩ lb⟩
  | 'x' =>
      some ⟨.unsignedLong, fun x =>
        withLetter leftOver "x" ⟨16, by decide⟩ x⟩
  | _ => none

/-- The conversions after `%ll` -/
def longLongConversion (char : Char) : Option Conversion :=
  match char with
  | 'u' =>
      some ⟨.unsignedLongLong, fun llu zeroPad =>
        some (printUnsignedLongLong leftOver llu zeroPad)⟩
  | 'd' =>
      some ⟨.longLong, fun lld zeroPad =>
        (printLongLong leftOver lld).map fun text => (text, zeroPad)⟩
  | _ => none

end Conversions

/-- The labels of `actual_print`: the test of its loop, and `format`. -/
inductive Label where
  | loop
  | format
  deriving DecidableEq, Repr

/-- The variables of `actual_print`, what it has printed and read. -/
structure Scan where
  offset : Nat
  zeroPad : Bool
  arguments : List Argument
  output : List UInt8
  reads : List Nat

namespace Scan

/-- The scan of a format from its start. -/
def start (arguments : List Argument) : Scan where
  offset := 0
  zeroPad := false
  arguments := arguments
  output := []
  reads := []

/-- `format++` -/
def forward (scan : Scan) : Scan :=
  { scan with offset := scan.offset + 1 }

/-- `format--` -/
def backward (scan : Scan) : Scan :=
  { scan with offset := scan.offset - 1 }

/-- `*format` has been read -/
def read (scan : Scan) : Scan :=
  { scan with reads := scan.offset :: scan.reads }

/-- Characters have been passed to `print_char`. -/
def print (scan : Scan) (printed : List UInt8) : Scan :=
  { scan with output := scan.output ++ printed }

end Scan

/-- What a turn from one label leads to. -/
inductive Turn where
  | goesOn (label : Label) (scan : Scan)
  | unimplemented (byte : UInt8) (scan : Scan)
  | returned (scan : Scan)
  | mismatch
  | faulted (scan : Scan)

/-- `break`: the loop steps forward and tests again -/
def Scan.break (scan : Scan) : Turn :=
  .goesOn .loop scan.forward

/-- A conversion takes its argument and prints it, unless it faults. -/
def convert (conversion : Conversion) (scan : Scan) : Turn :=
  match vaArg conversion.type scan.arguments with
  | none => .mismatch
  | some (value, arguments) =>
      match conversion.render value scan.zeroPad with
      | none => .faulted { scan with arguments := arguments }
      | some (printed, zeroPad) =>
          let scan := scan.print printed
          Scan.break
            { scan with
              zeroPad := zeroPad
              arguments := arguments }

section Interpreter

variable
    (leftOver : List UInt8)
    (format : Memory)

/-- The character of the format a scan has come to. -/
def current (scan : Scan) : Char :=
  Char.ofUInt8 (format scan.offset)

/-- `case 'l'` of the cases after `%l` -/
def longLongCase (scan : Scan) : Turn :=
  let scan := scan.forward.read
  if format scan.offset = 0 then
    scan.break
  else
    match longLongConversion leftOver (current format scan) with
    | some conversion => convert conversion scan
    | none => scan.backward.break

/-- `case 'l'` -/
def longCase (scan : Scan) : Turn :=
  let scan := scan.forward.read
  if format scan.offset = 0 then
    scan.break
  else if current format scan = 'l' then
    longLongCase leftOver format scan
  else
    match longConversion leftOver (current format scan) with
    | some conversion => convert conversion scan
    | none => scan.backward.break

/-- From a label to the next. -/
def turn (label : Label) (scan : Scan) : Turn :=
  match label with
  | .loop =>
      let scan := scan.read
      if format scan.offset = 0 then
        .returned scan
      else if current format scan = '%' then
        .goesOn .format scan
      else
        (scan.print [format scan.offset]).break
  | .format =>
      let scan := scan.forward.read
      if current format scan = '%' then
        (scan.print (chars "%")).break
      else if current format scan = '0' then
        .goesOn .format { scan with zeroPad := true }
      else if current format scan = 'l' then
        longCase leftOver format scan
      else
        match conversion leftOver (current format scan) with
        | some conversion => convert conversion scan
        | none => .unimplemented (format scan.offset) scan

end Interpreter

/-- How a run of `actual_print` ends, if it does. -/
inductive Outcome where
  | returned (scan : Scan)
  | mismatch
  | faulted (scan : Scan)
  | running

/-- The format `printk` is called with in the default case. -/
def unimplementedFormat : Memory :=
  spelled (chars "Format unimplemented: %c\n")

/-- A byte of the format as an argument: a `char` is promoted to `int`. -/
def promoted (byte : UInt8) : Argument :=
  ⟨.int, byte.toInt8.toInt32⟩

/-- `actual_print` from a label on, with a bound on its turns -/
def runFrom
    (leftOver : List UInt8) :
    (fuel : Nat) →
    (format : Memory) →
    Label →
    Scan →
    Outcome
  | 0, _, _, _ => .running
  | fuel + 1, format, label, scan =>
      match turn leftOver format label scan with
      | .goesOn label scan => runFrom leftOver fuel format label scan
      | .returned scan => .returned scan
      | .mismatch => .mismatch
      | .faulted scan => .faulted scan
      | .unimplemented byte scan =>
          match
            runFrom leftOver fuel unimplementedFormat .loop
              (.start [promoted byte])
          with
          | .returned nested =>
              runFrom leftOver fuel format .loop
                (scan.print nested.output).backward.forward
          | .mismatch => .mismatch
          | .faulted nested => .faulted (scan.print nested.output)
          | .running => .running

/-- `actual_print` -/
def actualPrint
    (leftOver : List UInt8)
    (fuel : Nat)
    (format : Memory)
    (arguments : List Argument) :
    Outcome :=
  runFrom leftOver fuel format .loop (.start arguments)

/-- `printk` -/
def printk
    (leftOver : List UInt8)
    (fuel : Nat)
    (format : Memory)
    (arguments : List Argument) :
    Outcome :=
  actualPrint leftOver fuel format arguments

/-- What `log_printk` prints at a time, before what its format gives -/
def logPrintk (time text : List UInt8) : List UInt8 :=
  chars "[" ++ printString time ++ chars "] " ++ text

end Relics.Print
