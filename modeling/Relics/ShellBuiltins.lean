import Relics.ShellTyping

namespace Relics.Shell

/-!
# The arguments of the builtins

A builtin finds its argument at an offset that its author counted by hand.
`echo` and `cursor` count right.  `sleep` looks one byte behind the first of
its argument.
-/

open ByteMemory Print

/-- The word that a builtin is called with. -/
def Builtin.word : Builtin → List UInt8
  | fetchme => chars "fetchme"
  | echo => chars "echo"
  | cursor => chars "cursor"
  | panic => chars "panic"
  | sleep => chars "sleep"

/-- A call of a builtin with an argument, which fits into the buffer. -/
structure Command where
  builtin : Builtin
  takesArgument : builtin ∈ [Builtin.echo, Builtin.cursor, Builtin.sleep]
  argument : List UInt8
  noNewline : newline ∉ argument
  noNul : 0 ∉ argument
  fits : (builtin.word ++ 0x20 :: argument).length < size

/-- The line of a command: its word, one space and its argument. -/
def Command.text (command : Command) : List UInt8 :=
  command.builtin.word ++ 0x20 :: command.argument

/-- The digit from 1 to 9 that a character stands for. -/
def sleepDigit (byte : UInt8) : Option UInt8 :=
  if 0x31 ≤ byte ∧ byte ≤ 0x39 then some (byte - 0x30) else none

/-- Effects are what a builtin is for, given its argument. -/
def ActsOn
    (builtin : Builtin)
    (argument : List UInt8)
    (effects : List Effect) :
    Prop :=
  match builtin with
  | .echo =>
      effects.flatMap Effect.printed = argument ++ [newline] ∧
        ∀ effect ∈ effects, ∃ printed, effect = .print printed
  | .cursor =>
      ((∃ cursorStart cursorEnd,
          Effect.enableCursor cursorStart cursorEnd ∈ effects) ↔
        chars "-e" <+: argument) ∧
        (Effect.disableCursor ∈ effects ↔ chars "-d" <+: argument)
  | .sleep =>
      ∀ millis,
        Effect.millisleep millis ∈ effects ↔
          ∃ digit,
            argument.head?.bind sleepDigit = some digit ∧
              millis = 1000 * digit.toUInt64
  | .fetchme => True
  | .panic => True

/-- At a newline the command is run and does what it is for. -/
def ActsOnArgument
    (strings : Strings)
    (command : Command)
    (buf : Memory) :
    Prop :=
  ∃ fuel judged,
    judge strings fuel buf = some judged ∧
      ActsOn command.builtin command.argument judged.effects

section Reading

variable {buf : Memory}
variable {i : Nat}
variable {text first second : List UInt8}

/-- The rest of a string is a string. -/
theorem spells_append
    (spells : Spells buf i (first ++ second)) :
    Starts buf i first ∧ Spells buf (i + first.length) second := by
  rw [spells_iff, starts_append, List.length_append,
    List.mem_append, not_or] at spells
  obtain ⟨⟨startsFirst, startsSecond⟩, ends, noFirst, noSecond⟩ := spells
  refine ⟨startsFirst, (spells_iff second).mpr ⟨startsSecond, ?_, noSecond⟩⟩
  rw [Nat.add_assoc]
  exact ends

/-- A string begins with a text exactly if the text stands where it does. -/
theorem begins_iff_starts
    (spells : Spells buf i second)
    (nonzero : 0 ∉ first) :
    first <+: second ↔ Starts buf i first := by
  obtain ⟨starts, ends, _⟩ := (spells_iff second).mp spells
  constructor
  · exact starts.of_shorter
  · exact starts.prefix_of_nul ends nonzero

/-- The first byte of a string, or the 0 behind an empty one -/
theorem head?_bind_sleepDigit
    (spells : Spells buf i text) :
    text.head?.bind sleepDigit = sleepDigit (buf i) := by
  cases text with
  | nil =>
      have isNul : buf i = 0 := spells
      rw [isNul]
      rfl
  | cons byte text =>
      rw [spells.1]
      rfl

end Reading

section Commands

variable {strings : Strings}
variable {command : Command}
variable {buf : Memory}

/-- The comparisons select the builtin of the command. -/
theorem select_of_command
    (holds : Spells buf 0 command.text) :
    (select buf chain).1 = some command.builtin := by
  apply select_of_starts
  · cases command.builtin <;> decide
  · have starts := ((spells_iff command.text).mp holds).1
    apply starts.of_shorter
    unfold Command.text
    cases command.builtin with
    | echo =>
        exact ⟨command.argument, rfl⟩
    | fetchme | cursor | panic | sleep =>
        exact List.prefix_append _ _

/-- The argument of a command stands behind its word and the space. -/
theorem spells_argument
    (holds : Spells buf 0 command.text) :
    Spells buf (command.builtin.word.length + 1) command.argument := by
  have split :
      command.text = (command.builtin.word ++ [0x20]) ++ command.argument := by
    simp [Command.text]
  rw [split] at holds
  have behind := (spells_append holds).2
  rw [Nat.zero_add, List.length_append, List.length_singleton] at behind
  exact behind

/-- What a command does is what its builtin does with the buffer. -/
theorem actsOnArgument_iff
    (holds : Spells buf 0 command.text) :
    ActsOnArgument strings command buf ↔
      ∃ fuel effects reads,
        perform strings fuel buf (some command.builtin) =
            some (effects, reads) ∧
          ActsOn command.builtin command.argument effects := by
  have selected := select_of_command holds
  constructor
  · rintro ⟨fuel, judged, judges, acts⟩
    obtain ⟨reads, branch, performed, -⟩ := judge_eq_some judges
    rw [branch, selected] at performed
    exact ⟨fuel, judged.effects, reads, performed, acts⟩
  · rintro ⟨fuel, effects, reads, performed, acts⟩
    refine
      ⟨fuel, ⟨some command.builtin, effects, (select buf chain).2 ++ reads⟩,
        ?_, acts⟩
    rw [judge]
    simp only [selected, performed]
    rfl

/-- `echo` prints its argument and a newline. -/
theorem echo_actsOnArgument
    (holds : Spells buf 0 command.text)
    (isEcho : command.builtin = .echo) :
    ActsOnArgument strings command buf := by
  have argument := spells_argument holds
  obtain ⟨starts, ends, -⟩ := (spells_iff _).mp argument
  have goesOn : ∀ byte ∈ command.argument, endsEcho byte = false := by
    intro byte member
    have notNewline : byte ≠ newline := fun same =>
      command.noNewline (same ▸ member)
    have notNul : byte ≠ 0 := fun same => command.noNul (same ▸ member)
    simp [endsEcho, notNewline, notNul]
  rw [isEcho] at starts ends
  have found :=
    readUntil_line (i := 5) starts goesOn
      (by
        change buf (5 + command.argument.length) = 0 at ends
        rw [ends]
        rfl)
      (command.argument.length + 1)
  rw [if_pos (Nat.lt_succ_self _)] at found
  rw [actsOnArgument_iff holds, isEcho]
  refine
    ⟨command.argument.length + 1, echoEffects command.argument,
      List.range' 5 (command.argument.length + 1), ?_, ?_⟩
  · rw [perform, echoBuiltin, found]
    rfl
  · constructor
    · exact printed_echoEffects command.argument
    · intro effect member
      rw [echoEffects, List.mem_append, List.mem_map,
        List.mem_singleton] at member
      rcases member with ⟨byte, -, rfl⟩ | rfl
      · exact ⟨_, rfl⟩
      · exact ⟨_, rfl⟩

/-- `cursor` does what the option it stands in front of says. -/
theorem cursor_actsOnArgument
    (holds : Spells buf 0 command.text)
    (isCursor : command.builtin = .cursor) :
    ActsOnArgument strings command buf := by
  have argument := spells_argument holds
  rw [isCursor] at argument
  have enables : chars "-e" <+: command.argument ↔
      buf 7 = '-'.toUInt8 ∧ buf 8 = 'e'.toUInt8 := by
    rw [begins_iff_starts argument (by decide)]
    change (buf 7 = _ ∧ buf 8 = _ ∧ True) ↔ _
    rw [and_true]
    exact Iff.rfl
  have disables : chars "-d" <+: command.argument ↔
      buf 7 = '-'.toUInt8 ∧ buf 8 = 'd'.toUInt8 := by
    rw [begins_iff_starts argument (by decide)]
    change (buf 7 = _ ∧ buf 8 = _ ∧ True) ↔ _
    rw [and_true]
    exact Iff.rfl
  rw [actsOnArgument_iff holds, isCursor]
  refine ⟨0, (cursorBuiltin buf).1, (cursorBuiltin buf).2, rfl, ?_⟩
  rw [ActsOn, enables, disables]
  unfold cursorBuiltin
  have apart : 'e'.toUInt8 ≠ 'd'.toUInt8 := by
    decide
  by_cases dash : buf 7 = '-'.toUInt8
  · by_cases isE : buf 8 = 'e'.toUInt8
    · simp [dash, isE, apart]
    · by_cases isD : buf 8 = 'd'.toUInt8
      · simp [dash, isD, apart.symm]
      · simp [dash, isE, isD]
  · simp [dash]

/-- The time to sleep for a digit does not overflow. -/
theorem toNat_millis (digit : UInt8) :
    (1000 * digit.toUInt64).toNat = 1000 * digit.toNat := by
  have bound : 1000 * digit.toNat < 2 ^ 64 := by
    have small := digit.toNat_lt
    omega
  rw [UInt64.toNat_mul, UInt8.toNat_toUInt64]
  exact Nat.mod_eq_of_lt bound

/-- Different digits sleep for different times. -/
theorem millis_inj
    {digit digit' : UInt8}
    (same : 1000 * digit.toUInt64 = 1000 * digit'.toUInt64) :
    digit = digit' := by
  have values := congrArg UInt64.toNat same
  rw [toNat_millis, toNat_millis] at values
  exact UInt8.toNat_inj.mp (Nat.eq_of_mul_eq_mul_left (by decide) values)

/-- `sleep` sleeps for the digit at offset 7. -/
theorem millisleep_mem_sleepBuiltin
    (buf : Memory)
    (millis : UInt64) :
    Effect.millisleep millis ∈ (sleepBuiltin buf).1 ↔
      ∃ digit,
        sleepDigit (buf 7) = some digit ∧
          millis = 1000 * digit.toUInt64 := by
  have same :
      ('1'.toUInt8 ≤ buf 7 ∧ buf 7 ≤ '9'.toUInt8) ↔
        (0x31 ≤ buf 7 ∧ buf 7 ≤ 0x39) :=
    Iff.rfl
  unfold sleepBuiltin sleepDigit
  by_cases isDigit : 0x31 ≤ buf 7 ∧ buf 7 ≤ 0x39
  · rw [if_pos (same.mpr isDigit), if_pos isDigit]
    simp [UInt64.mul_comm]
  · rw [if_neg (mt same.mp isDigit), if_neg isDigit]
    simp

/-- `sleep` reads its digit one byte behind the first of its argument. -/
theorem sleep_actsOnArgument_iff
    (holds : Spells buf 0 command.text)
    (isSleep : command.builtin = .sleep) :
    ActsOnArgument strings command buf ↔
      sleepDigit (buf 7) = sleepDigit (buf 6) := by
  have argument := spells_argument holds
  rw [isSleep] at argument
  have first := head?_bind_sleepDigit argument
  change _ = sleepDigit (buf 6) at first
  rw [actsOnArgument_iff holds, isSleep]
  simp only [ActsOn, first]
  constructor
  · rintro ⟨fuel, effects, reads, performed, acts⟩
    obtain rfl : (sleepBuiltin buf).1 = effects :=
      congrArg Prod.fst (Option.some.inj performed)
    simp only [millisleep_mem_sleepBuiltin] at acts
    cases atSeven : sleepDigit (buf 7) with
    | none =>
        cases atSix : sleepDigit (buf 6) with
        | none =>
            rfl
        | some digit =>
            obtain ⟨other, found, -⟩ := (acts _).mpr ⟨digit, atSix, rfl⟩
            rw [atSeven] at found
            cases found
    | some digit =>
        obtain ⟨other, found, same⟩ := (acts _).mp ⟨digit, atSeven, rfl⟩
        rw [found, millis_inj same]
  · intro sameDigit
    refine ⟨0, (sleepBuiltin buf).1, (sleepBuiltin buf).2, rfl, ?_⟩
    intro millis
    rw [millisleep_mem_sleepBuiltin, sameDigit]

end Commands

/--
Every command does what it is for with its argument, but for `sleep` with
other digits in its first byte and in the byte behind it.
-/
theorem command_actsOnArgument_iff
    (strings : Strings)
    (command : Command)
    {buf : Memory}
    (holds : Spells buf 0 command.text) :
    ActsOnArgument strings command buf ↔
      command.builtin ≠ .sleep ∨
        sleepDigit (buf 7) = sleepDigit (buf 6) := by
  have member := command.takesArgument
  simp only [List.mem_cons, List.not_mem_nil, or_false] at member
  rcases member with isEcho | isCursor | isSleep
  · simp [isEcho, echo_actsOnArgument holds isEcho]
  · simp [isCursor, cursor_actsOnArgument holds isCursor]
  · simp [isSleep, sleep_actsOnArgument_iff holds isSleep]

/-- `echo hi` -/
def echoHi : Command where
  builtin := .echo
  takesArgument := by decide
  argument := chars "hi"
  noNewline := by decide
  noNul := by decide
  fits := by decide

/-- `sleep 5` -/
def sleepFive : Command where
  builtin := .sleep
  takesArgument := by decide
  argument := chars "5"
  noNewline := by decide
  noNul := by decide
  fits := by decide

/-- `echo hi` prints `hi`. -/
theorem command_actsOnArgument_echoHi :
    ActsOnArgument ⟨[], [], []⟩ echoHi (spelled echoHi.text) :=
  (command_actsOnArgument_iff ⟨[], [], []⟩ echoHi
    (spells_spelled [] echoHi.text (by decide))).mpr
    (Or.inl (by decide))

/-- `sleep 5` does not sleep. -/
theorem command_sleepFive_counterexample :
    ¬ ∀ (strings : Strings) (command : Command) (buf : Memory),
      Spells buf 0 command.text →
      ActsOnArgument strings command buf := by
  intro always
  have holds : Spells (spelled sleepFive.text) 0 sleepFive.text :=
    spells_spelled [] sleepFive.text (by decide)
  have sameDigit :=
    (sleep_actsOnArgument_iff holds rfl).mp
      (always ⟨[], [], []⟩ sleepFive _ holds)
  exact absurd sameDigit (by decide)

end Relics.Shell
