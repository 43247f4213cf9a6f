import Relics.ByteMemory
import Relics.PrintPieces

namespace Relics.Shell

/-!
# The shell

`relics_shell` collects the keys of a line in `command_buf`, compares the
buffer with the names of its builtins at a newline, and then clears the part
of the buffer that it went through.  The buffer is a local array, so memory
goes on behind it, and nothing initialises it.  Every offset at which a
comparison or a builtin reads the buffer is recorded.
-/

open ByteMemory Print

/-- `sizeof(command_buf)` -/
def size : Nat := 4096

/-- The key that ends a line. -/
def newline : UInt8 := 0x0A

/-- What the shell does that can be seen from outside. -/
inductive Effect where
  | resetVideoMemory
  | print (printed : List UInt8)
  | enableCursor (cursorStart cursorEnd : UInt8)
  | disableCursor
  | millisleep (millis : UInt64)
  | panic (issue : Int)
  deriving DecidableEq

/-- The characters that are printed. -/
def Effect.printed : Effect → List UInt8
  | print printed => printed
  | _ => []

/-- The strings that the shell prints and does not read from its keys. -/
structure Strings where
  prompt : List UInt8
  version : List UInt8
  cpuVendorName : List UInt8

section Comparison

/--
`memcmp` of the buffer with a text of the given length: its result, and the
offsets of the buffer that it read
-/
def memcmp (buf : Memory) : (text : List UInt8) → (i : Nat) → Int × List Nat
  | [], _ => (0, [])
  | byte :: rest, i =>
      if buf i = byte then
        let (order, reads) := memcmp buf rest (i + 1)
        (order, i :: reads)
      else
        ((buf i).toInt8.toInt - byte.toInt8.toInt, [i])

/-- `strncmp` of the buffer with a text and the length of the text -/
def strncmp (buf : Memory) (text : List UInt8) : Int × List Nat :=
  memcmp buf text 0

/-- The builtins. -/
inductive Builtin where
  | fetchme
  | echo
  | cursor
  | panic
  | sleep
  deriving DecidableEq, Repr

/-- The text that a builtin is recognised by. -/
def Builtin.name : Builtin → List UInt8
  | fetchme => chars "fetchme"
  | echo => chars "echo "
  | cursor => chars "cursor"
  | panic => chars "panic"
  | sleep => chars "sleep"

/-- A chain of comparisons: the first builtin that matches, and the reads -/
def select (buf : Memory) : List Builtin → Option Builtin × List Nat
  | [] => (none, [])
  | builtin :: rest =>
      let (order, reads) := strncmp buf builtin.name
      if order = 0 then
        (some builtin, reads)
      else
        let (selected, later) := select buf rest
        (selected, reads ++ later)

/-- The order of the comparisons in `relics_shell`. -/
def chain : List Builtin :=
  [.fetchme, .echo, .cursor, .panic, .sleep]

end Comparison

section Builtins

/-- The bytes of the buffer from an offset up to a byte that stops the loop. -/
def readUntil
    (stops : UInt8 → Bool)
    (buf : Memory) :
    (fuel : Nat) →
    (i : Nat) →
    Option (List UInt8 × List Nat)
  | 0, _ => none
  | fuel + 1, i =>
      if stops (buf i) then
        some ([], [i])
      else do
        let (found, reads) ← readUntil stops buf fuel (i + 1)
        some (buf i :: found, i :: reads)

/-- The bytes at which `echo_builtin` stops. -/
def endsEcho (byte : UInt8) : Bool :=
  byte = newline || byte = 0

/-- The byte at which `print_string` stops. -/
def endsString (byte : UInt8) : Bool :=
  byte = 0

/-- The lines of `fetchme_builtin` that do not depend on anything. -/
def fetchmeLines : List UInt8 :=
  chars "Kernel: Orbit ExoKernel\n" ++
    (chars "LibOS: Relics builtin libOS\n" ++
      chars "Shell: Relics builtin shell\n")

/-- What `fetchme_builtin` prints. -/
def fetchmeMessage (version cpuVendorName : List UInt8) : List UInt8 :=
  chars "OS: Relics version " ++ version ++ chars "\n" ++
    (chars "CPU: " ++ cpuVendorName ++ chars "\n") ++ fetchmeLines

/-- `fetchme_builtin` -/
def fetchmeBuiltin (strings : Strings) : List Effect :=
  [.print
    (fetchmeMessage (printString strings.version)
      (printString strings.cpuVendorName))]

/-- What `echo_builtin` prints one by one. -/
def echoEffects (found : List UInt8) : List Effect :=
  found.map (fun byte => .print [byte]) ++ [.print (chars "\n")]

/-- `echo_builtin` -/
def echoBuiltin
    (fuel : Nat)
    (buf : Memory) :
    Option (List Effect × List Nat) := do
  let (found, reads) ← readUntil endsEcho buf fuel 5
  some (echoEffects found, reads)

/-- The text that `cursor_builtin` prints without an option. -/
def cursorOptions : List UInt8 :=
  chars
    "Options:\nCURSOR [options]\n  -e: enables blinking cursor\n  -d: disables blinking cursor\n"

/-- `cursor_builtin` -/
def cursorBuiltin (buf : Memory) : List Effect × List Nat :=
  if buf 7 = '-'.toUInt8 then
    if buf 8 = 'e'.toUInt8 then
      ([.enableCursor 1 1], [7, 8])
    else if buf 8 = 'd'.toUInt8 then
      ([.disableCursor], [7, 8])
    else
      ([], [7, 8])
  else
    ([.print cursorOptions], [7])

/-- `sleep_builtin` -/
def sleepBuiltin (buf : Memory) : List Effect × List Nat :=
  if '1'.toUInt8 ≤ buf 7 ∧ buf 7 ≤ '9'.toUInt8 then
    ([.millisleep ((buf 7 - 0x30).toUInt64 * 1000)], [7])
  else
    ([], [7])

/-- The error message for a string. -/
def invalidMessage (found : List UInt8) : List UInt8 :=
  chars "`" ++ found ++ chars "' is not a valid command.\n"

/-- The last branch: the buffer is printed as a string -/
def invalidCommand
    (fuel : Nat)
    (buf : Memory) :
    Option (List Effect × List Nat) := do
  let (found, reads) ← readUntil endsString buf fuel 0
  some ([.print (invalidMessage found)], reads)

end Builtins

section Shell

variable (strings : Strings)

/-- What the shell does with a line: the branch, its effects and the reads -/
structure Judged where
  branch : Option Builtin
  effects : List Effect
  reads : List Nat

/-- The branch that is taken, with the reads of the comparisons before it. -/
def perform
    (fuel : Nat)
    (buf : Memory)
    (branch : Option Builtin) :
    Option (List Effect × List Nat) :=
  match branch with
  | some .fetchme => some (fetchmeBuiltin strings, [])
  | some .echo => echoBuiltin fuel buf
  | some .cursor => some (cursorBuiltin buf)
  | some .panic => some ([.panic (-1)], [])
  | some .sleep => some (sleepBuiltin buf)
  | none => invalidCommand fuel buf

/-- The branches of `relics_shell` at a newline -/
def judge (fuel : Nat) (buf : Memory) : Option Judged := do
  let (branch, compared) := select buf chain
  let (effects, reads) ← perform strings fuel buf branch
  some ⟨branch, effects, compared ++ reads⟩

/-- The variables of `relics_shell`, and its effects so far. -/
structure State where
  commandBuf : Memory
  i : Nat
  effects : List Effect

/-- Some effects happen. -/
def State.log (shell : State) (effects : List Effect) : State :=
  { shell with effects := shell.effects ++ effects }

/-- What a key leads to. -/
inductive Outcome where
  | waiting (shell : State)
  | panicked (shell : State)
  | returned (shell : State)
  | running

/-- The loop that clears the buffer, from an index down to 0. -/
def clear (buf : Memory) : (i : Nat) → Memory
  | 0 => setByte buf 0 0
  | i + 1 => clear (setByte buf (i + 1) 0) i

/-- `printk("%s ", prompt)` -/
def promptEffect : Effect :=
  .print (printString strings.prompt ++ chars " ")

/-- The shell before its loop. -/
def start (commandBuf : Memory) : State where
  commandBuf := commandBuf
  i := 0
  effects := [.resetVideoMemory, promptEffect strings]

/-- The body of the loop with the key that `getchark` returned. -/
def key (fuel : Nat) (shell : State) (c : UInt8) : Outcome :=
  if c = newline then
    let shell := shell.log [.print [c]]
    match judge strings fuel shell.commandBuf with
    | none => .running
    | some judged =>
        let shell := shell.log judged.effects
        if judged.branch = some .panic then
          .panicked shell
        else
          .waiting
            ({ shell with
                commandBuf := clear shell.commandBuf shell.i
                i := 0 }.log [promptEffect strings])
  else
    let shell :=
      { shell with commandBuf := setByte shell.commandBuf shell.i c }
    let shell := shell.log [.print [c]]
    if shell.i + 1 < size then
      .waiting { shell with i := shell.i + 1 }
    else
      .returned { shell with i := shell.i + 1 }

/-- The loop on a sequence of keys. -/
def keys (fuel : Nat) (shell : State) : List UInt8 → Outcome
  | [] => .waiting shell
  | c :: rest =>
      match key strings fuel shell c with
      | .waiting shell => keys fuel shell rest
      | outcome => outcome

end Shell

section Messages

/-! What the model prints is what `printk` prints for the formats of the source. -/

variable (leftOver : List UInt8)

/-- The error message. -/
theorem prints_invalidMessage (string : List UInt8) :
    Prints leftOver (chars "`%s' is not a valid command.\n")
      [⟨.string, string⟩] (invalidMessage (printString string)) [] := by
  have printed :=
    prints_string leftOver ⟨chars "`", by decide, by decide⟩
      ⟨chars "' is not a valid command.\n", by decide, by decide⟩ string
  exact printed

/-- The message of `fetchme`. -/
theorem prints_fetchmeMessage (version cpuVendorName : List UInt8) :
    Prints leftOver
      (chars "OS: Relics version %s\n" ++ chars "CPU: %s\n" ++ fetchmeLines)
      [⟨.string, version⟩, ⟨.string, cpuVendorName⟩]
      (fetchmeMessage (printString version) (printString cpuVendorName)) [] := by
  have firstLine :
      chars "OS: Relics version %s\n" =
        chars "OS: Relics version " ++ chars "%s" ++ chars "\n" := by
    decide
  have secondLine :
      chars "CPU: %s\n" = chars "CPU: " ++ chars "%s" ++ chars "\n" := by
    decide
  have conversionText : chars "%" ++ flag false ++ chars "s" = chars "%s" := by
    decide
  refine
    prints_of_pieces
      [.literal ⟨chars "OS: Relics version ", by decide, by decide⟩,
        .conversion false .s version,
        .literal ⟨chars "\n", by decide, by decide⟩,
        .literal ⟨chars "CPU: ", by decide, by decide⟩,
        .conversion false .s cpuVendorName,
        .literal ⟨chars "\n", by decide, by decide⟩,
        .literal ⟨fetchmeLines, by decide, by decide⟩] ?_ rfl ?_ ?_
  · simp only [firstLine, secondLine, textOf, List.flatMap_cons,
      List.flatMap_nil, Piece.text, Specifier.letters, conversionText,
      List.append_nil, List.append_assoc]
  · simp [Argument.Exact, Argument.signed]
  · simp only [emitAll, Piece.emit, Specifier.emit, Specifier.number,
      Specifier.plain, Option.getD_some, fetchmeMessage,
      List.append_nil, List.append_assoc]

/-- The prompt. -/
theorem prints_prompt (prompt : List UInt8) :
    Prints leftOver (chars "%s ") [⟨.string, prompt⟩]
      (printString prompt ++ chars " ") [] := by
  have printed :=
    prints_string leftOver ⟨[], by decide, by decide⟩
      ⟨chars " ", by decide, by decide⟩ prompt
  exact printed

/-- A key, which is promoted to `int`. -/
theorem prints_key (c : UInt8) :
    Prints leftOver (chars "%c") [promoted c] [c] [] := by
  have same : (Int32.toInt8 c.toInt8.toInt32).toUInt8 = c := by
    rw [Int8.toInt8_toInt32]
    rfl
  refine
    prints_of_pieces [.conversion false .c c.toInt8.toInt32] rfl rfl ?_ ?_
  · exact List.forall_mem_singleton.mpr nofun
  · simp only [emitAll, Piece.emit, Specifier.emit, Specifier.number,
      Specifier.plain, Option.getD_some, List.append_nil, same]

end Messages

end Relics.Shell
