import Mathlib.Data.List.Induction
import Mathlib.Data.List.Infix
import Relics.ConsoleCursor
import Relics.ShellLines

namespace Relics.Shell

/-!
# What is on the line and what is matched

A key goes two ways: `print_char` shows it on the screen, where a backspace
takes the last character away, and `relics_shell` stores it in `command_buf`,
where a backspace is a character like any other.
-/

open ByteMemory Console

section Editing

/-- The key that erases a character. -/
def backspace : UInt8 := 8

/-- A line of text once a key is pressed. -/
def edit (text : List UInt8) (key : UInt8) : List UInt8 :=
  if key = backspace then text.dropLast else text ++ [key]

/-- The line of text that is left of some keys. -/
def edited (entered : List UInt8) : List UInt8 :=
  entered.foldl edit []

/-- How many characters some keys type. -/
def typedCount (entered : List UInt8) : Nat :=
  entered.countP (· ≠ backspace)

/-- How many characters some keys erase. -/
def erasedCount (entered : List UInt8) : Nat :=
  entered.count backspace

/-- No part of the keys erases more characters than it types. -/
def NeverOverErases (entered : List UInt8) : Prop :=
  ∀ before,
    before <+: entered →
    erasedCount before ≤ typedCount before

variable {entered : List UInt8}
variable {key : UInt8}

theorem typedCount_erase (entered : List UInt8) :
    typedCount (entered ++ [backspace]) = typedCount entered := by
  simp [typedCount]

theorem erasedCount_erase (entered : List UInt8) :
    erasedCount (entered ++ [backspace]) = erasedCount entered + 1 := by
  simp [erasedCount]

theorem typedCount_type
    (entered : List UInt8)
    (types : key ≠ backspace) :
    typedCount (entered ++ [key]) = typedCount entered + 1 := by
  simp [typedCount, types]

theorem erasedCount_type
    (entered : List UInt8)
    (types : key ≠ backspace) :
    erasedCount (entered ++ [key]) = erasedCount entered := by
  rw [erasedCount, List.count_append, List.count_singleton]
  simp [types, erasedCount]

theorem edited_append (entered : List UInt8) (key : UInt8) :
    edited (entered ++ [key]) = edit (edited entered) key := by
  simp [edited]

/-- What never erases too much has not done so before. -/
theorem NeverOverErases.of_append
    (never : NeverOverErases (entered ++ [key])) :
    NeverOverErases entered := by
  intro before isPart
  exact never before (isPart.trans (List.prefix_append entered [key]))

/-- The length of the line is what was typed less what was erased. -/
theorem length_edited
    (never : NeverOverErases entered) :
    (edited entered).length = typedCount entered - erasedCount entered := by
  induction entered using List.reverseRecOn with
  | nil =>
      rfl
  | append_singleton entered key inductionHypothesis =>
      have before := inductionHypothesis never.of_append
      have enough := never.of_append entered (List.prefix_refl entered)
      rw [edited_append, edit]
      by_cases erases : key = backspace
      · subst erases
        rw [if_pos rfl, List.length_dropLast, before, typedCount_erase,
          erasedCount_erase]
        omega
      · rw [if_neg erases, List.length_append, before,
          typedCount_type entered erases, erasedCount_type entered erases,
          List.length_singleton]
        omega

/-- A backspace that erases finds a character to take away. -/
theorem exists_last_of_erases
    (never : NeverOverErases (entered ++ [backspace])) :
    ∃ front last, edited entered = front ++ [last] := by
  have enough := never _ (List.prefix_refl _)
  have length := length_edited never.of_append
  rw [typedCount_erase, erasedCount_erase] at enough
  have notEmpty : edited entered ≠ [] := by
    apply List.ne_nil_of_length_pos
    omega
  exact
    ⟨(edited entered).dropLast, (edited entered).getLast notEmpty,
      (List.dropLast_concat_getLast notEmpty).symm⟩

/-- Without a backspace the line is the keys. -/
theorem edited_of_not_mem
    (noBackspace : backspace ∉ entered) :
    edited entered = entered := by
  induction entered using List.reverseRecOn with
  | nil =>
      rfl
  | append_singleton entered key inductionHypothesis =>
      rw [List.mem_append, not_or, List.mem_singleton] at noBackspace
      rw [edited_append, edit, if_neg (Ne.symm noBackspace.2),
        inductionHypothesis noBackspace.1]

/-- A backspace is never part of the line. -/
theorem backspace_not_mem_edited (entered : List UInt8) :
    backspace ∉ edited entered := by
  induction entered using List.reverseRecOn with
  | nil =>
      exact List.not_mem_nil
  | append_singleton entered key inductionHypothesis =>
      rw [edited_append, edit]
      split
      · exact fun member =>
          inductionHypothesis (List.dropLast_subset _ member)
      · case _ types =>
          rw [List.mem_append, not_or, List.mem_singleton]
          exact ⟨inductionHypothesis, Ne.symm types⟩

end Editing

section Screen

/-- The characters in the cells of the screen from one index to another. -/
def textBetween (screen : Console.State) (start stop : Nat) : List UInt8 :=
  (List.range' start (stop - start)).map fun index =>
    (screen.vgaBuffer index).toUInt8

/-- The screen shows a text from the index on where another screen ends. -/
structure ShowsBehind
    (console screen : Console.State)
    (text : List UInt8) :
    Prop where
  index :
    screen.vgaIndex.toNat = console.vgaIndex.toNat + text.length
  cells :
    ∀ j char,
      text[j]? = some char →
      screen.vgaBuffer (console.vgaIndex.toNat + j) =
        vgaEntry char console.foreColor console.backColor
  foreColor : screen.foreColor = console.foreColor
  backColor : screen.backColor = console.backColor

/-- The character of a cell -/
theorem toUInt8_vgaEntry (ch foreColor backColor : UInt8) :
    (vgaEntry ch foreColor backColor).toUInt8 = ch := by
  apply UInt8.toNat_inj.mp
  have small := ch.toNat_lt
  rw [vgaEntry, UInt16.toNat_toUInt8, UInt16.toNat_or, UInt8.toNat_toUInt16,
    Nat.or_mod_two_pow, UInt16.toNat_shiftLeft, Nat.mod_eq_of_lt small]
  have lowZero (colors : Nat) :
      colors <<< (UInt16.toNat 8 % 16) % 2 ^ 16 % 2 ^ 8 = 0 := by
    rw [Nat.shiftLeft_eq]
    change colors * 256 % 65536 % 256 = 0
    omega
  rw [lowZero, Nat.zero_or]

variable {console screen : Console.State}
variable {entered text : List UInt8}
variable {ch : UInt8}

/-- A store to the screen changes one cell. -/
theorem vgaBuffer_store
    (console : Console.State)
    (index other : Nat)
    (value : UInt16) :
    (console.store index value).vgaBuffer other =
      if other = index then value else console.vgaBuffer other :=
  rfl

/-- The text that a screen shows is in its cells. -/
theorem ShowsBehind.textBetween_eq
    (shows : ShowsBehind console screen text) :
    textBetween screen console.vgaIndex.toNat screen.vgaIndex.toNat =
      text := by
  apply List.ext_getElem?
  intro j
  rw [textBetween, List.getElem?_map, shows.index, Nat.add_sub_cancel_left]
  cases found : text[j]? with
  | none =>
      have outside := List.getElem?_eq_none_iff.mp found
      simp [outside]
  | some char =>
      have inside := (List.getElem?_eq_some_iff.mp found).1
      have cell := shows.cells j char found
      simp [inside, cell, toUInt8_vgaEntry]

/-- A visible character is shown behind the text. -/
theorem ShowsBehind.visible
    (shows : ShowsBehind console screen text)
    (room : console.vgaIndex.toNat + text.length < 65535)
    (visible : Visible ch) :
    ShowsBehind console (printChar screen ch) (text ++ [ch]) := by
  have index := shows.index
  constructor
  · rw [vgaIndex_visible visible, UInt16.toNat_add, List.length_append]
    change (_ + 1) % 65536 = _ + (_ + 1)
    omega
  · intro j char found
    rw [vgaBuffer_visible visible, vgaBuffer_store, index,
      shows.foreColor, shows.backColor]
    by_cases isLast : j = text.length
    · subst isLast
      rw [List.getElem?_append_right (Nat.le_refl _), Nat.sub_self,
        List.getElem?_cons_zero, Option.some.injEq] at found
      rw [if_pos rfl, found]
    · have inside : j < text.length := by
        have bound := (List.getElem?_eq_some_iff.mp found).1
        rw [List.length_append, List.length_singleton] at bound
        omega
      rw [List.getElem?_append_left inside] at found
      rw [if_neg (by omega)]
      exact shows.cells j char found
  · rw [(colors_visible visible).1]
    exact shows.foreColor
  · rw [(colors_visible visible).2]
    exact shows.backColor

/-- A backspace takes the last character away. -/
theorem ShowsBehind.erase
    {last : UInt8}
    (shows : ShowsBehind console screen (text ++ [last])) :
    ShowsBehind console (printChar screen 8) text := by
  have index := shows.index
  have bounded := screen.vgaIndex.toNat_lt
  rw [List.length_append, List.length_singleton] at index
  have stepped :
      (screen.vgaIndex - 1).toNat =
        console.vgaIndex.toNat + text.length := by
    have oneLess :
        (screen.vgaIndex - 1).toNat =
          (65535 + screen.vgaIndex.toNat) % 65536 :=
      UInt16.toNat_sub screen.vgaIndex 1
    omega
  constructor
  · exact stepped
  · intro j char found
    have inside := (List.getElem?_eq_some_iff.mp found).1
    have stored :
        (printChar screen 8).vgaBuffer =
          (screen.store (screen.vgaIndex - 1).toNat
            (vgaEntry 0x20 screen.foreColor screen.backColor)).vgaBuffer :=
      rfl
    rw [stored, vgaBuffer_store, stepped, if_neg (by omega)]
    exact shows.cells j char
      ((List.getElem?_append_left inside).trans found)
  · exact shows.foreColor
  · exact shows.backColor

/--
Keys are typed from where the screen ends: visible characters and backspaces
that never erase too much, in one row of the screen.
-/
structure Typing (console : Console.State) (entered : List UInt8) : Prop where
  keys : ∀ key ∈ entered, Visible key ∨ key = backspace
  erases : NeverOverErases entered
  onScreen : console.vgaIndex.toNat < vgaLength * vgaWidth
  inRow :
    ∀ before,
      before <+: entered →
      console.vgaIndex.toNat % vgaWidth +
          (typedCount before - erasedCount before) ≤
        vgaWidth

/-- What is typed so far is typed in the same way. -/
theorem Typing.of_append
    {key : UInt8}
    (typing : Typing console (entered ++ [key])) :
    Typing console entered where
  keys := fun other member =>
    typing.keys other (List.mem_append_left [key] member)
  erases := typing.erases.of_append
  onScreen := typing.onScreen
  inRow := fun before isPart =>
    typing.inRow before (isPart.trans (List.prefix_append entered [key]))

/-- The line that is left fits into the row. -/
theorem Typing.length_edited_le
    (typing : Typing console entered) :
    (edited entered).length ≤ vgaWidth := by
  have inRow := typing.inRow entered (List.prefix_refl entered)
  rw [length_edited typing.erases]
  omega

/-- The screen shows the line that is left of the keys. -/
theorem showsBehind_printChars
    (typing : Typing console entered) :
    ShowsBehind console (printChars console entered) (edited entered) := by
  induction entered using List.reverseRecOn with
  | nil =>
      exact
        { index := rfl
          cells := by
            intro j char found
            simp [edited] at found
          foreColor := rfl
          backColor := rfl }
  | append_singleton entered key inductionHypothesis =>
      have before := inductionHypothesis typing.of_append
      have fits := typing.of_append.length_edited_le
      have onScreen := typing.onScreen
      have step :
          printChars console (entered ++ [key]) =
            printChar (printChars console entered) key := by
        simp [printChars]
      rw [step, edited_append, edit]
      rcases typing.keys key (List.mem_append_right entered
        (List.mem_singleton_self key)) with visible | erases
      · have types : key ≠ backspace := visible.2.1
        rw [if_neg types]
        apply before.visible _ visible
        change _ < 25 * 80 at onScreen
        change _ ≤ 80 at fits
        omega
      · subst erases
        obtain ⟨front, last, found⟩ := exists_last_of_erases typing.erases
        rw [found] at before
        rw [if_pos rfl, found, List.dropLast_concat]
        exact before.erase

end Screen

section Buffer

variable {strings : Strings}
variable {fuel : Nat}
variable {shell waiting : State}
variable {entered text : List UInt8}

/-- The shell has printed its prompt and cleared the buffer. -/
structure AtPrompt (shell : State) : Prop where
  fresh : shell.i = 0
  cleared : ∀ j < size, shell.commandBuf j = 0

/-- The characters a shell has printed since it was in an earlier state -/
def printedSince (shell waiting : State) : List UInt8 :=
  (waiting.effects.drop shell.effects.length).flatMap Effect.printed

/-- A string in memory is a text without a 0 that a 0 follows. -/
theorem spells_iff
    {buf : Memory}
    {i : Nat}
    (text : List UInt8) :
    Spells buf i text ↔
      Starts buf i text ∧ buf (i + text.length) = 0 ∧ 0 ∉ text := by
  induction text generalizing i with
  | nil =>
      simp [Spells, Starts]
  | cons byte text inductionHypothesis =>
      rw [Spells, Starts, inductionHypothesis, List.length_cons,
        List.mem_cons, not_or, Nat.add_assoc, Nat.add_comm 1]
      constructor
      · rintro ⟨here, nonzero, later, ends, noZero⟩
        exact ⟨⟨here, later⟩, ends, Ne.symm nonzero, noZero⟩
      · rintro ⟨⟨here, later⟩, ends, nonzero, noZero⟩
        exact ⟨here, Ne.symm nonzero, later, ends, noZero⟩

/-- A shell that still waits has stored and printed the keys. -/
theorem eq_typed_of_waiting
    (noNewline : newline ∉ entered)
    (waits : keys strings fuel shell entered = .waiting waiting) :
    waiting = typed shell entered := by
  induction entered generalizing shell with
  | nil =>
      exact (Outcome.waiting.inj waits).symm
  | cons c entered inductionHypothesis =>
      obtain ⟨here, later⟩ := not_or.mp (mt List.mem_cons.mpr noNewline)
      by_cases inside : shell.i + 1 < size
      · have step :
            key strings fuel shell c =
              .waiting
                { shell.log [.print [c]] with
                  commandBuf := setByte shell.commandBuf shell.i c
                  i := shell.i + 1 } := by
          rw [key, if_neg (Ne.symm here)]
          exact if_pos inside
        rw [keys, step] at waits
        exact inductionHypothesis later waits
      · have step :
            key strings fuel shell c =
              .returned
                { shell.log [.print [c]] with
                  commandBuf := setByte shell.commandBuf shell.i c
                  i := shell.i + 1 } := by
          rw [key, if_neg (Ne.symm here)]
          exact if_neg inside
        rw [keys, step] at waits
        cases waits

/-- The keys of a line are printed one by one. -/
theorem typed_effects (shell : State) (entered : List UInt8) :
    (typed shell entered).effects =
      shell.effects ++ entered.map fun c => .print [c] := by
  induction entered generalizing shell with
  | nil =>
      simp [typed]
  | cons c entered inductionHypothesis =>
      rw [typed, inductionHypothesis]
      simp [State.log]

/-- What the shell has printed since the prompt is the keys. -/
theorem printedSince_typed (shell : State) (entered : List UInt8) :
    printedSince shell (typed shell entered) = entered := by
  rw [printedSince, typed_effects, List.drop_left, List.flatMap_map]
  simp [Effect.printed]

/--
A newline behind some keys finds in `command_buf` the string that the screen
shows behind the prompt.
-/
def MatchesScreen
    (strings : Strings)
    (fuel : Nat)
    (shell : State)
    (console : Console.State)
    (entered : List UInt8) :
    Prop :=
  ∃ waiting,
    keys strings fuel shell entered = .waiting waiting ∧
      let screen := printChars console (printedSince shell waiting)
      Spells waiting.commandBuf 0
        (textBetween screen console.vgaIndex.toNat screen.vgaIndex.toNat)

variable {console : Console.State}

/-- Neither a newline nor a NUL is typed. -/
theorem Typing.not_mem
    (typing : Typing console entered) :
    newline ∉ entered ∧ 0 ∉ entered := by
  constructor
  · intro member
    rcases typing.keys _ member with visible | erases
    · exact visible.2.2.1 rfl
    · exact absurd erases (by decide)
  · intro member
    rcases typing.keys _ member with visible | erases
    · exact visible.1 rfl
    · exact absurd erases (by decide)

/-- The string of a newline is the line on the screen, spelled in the buffer. -/
theorem matchesScreen_iff
    (typing : Typing console entered) :
    MatchesScreen strings fuel shell console entered ↔
      keys strings fuel shell entered = .waiting (typed shell entered) ∧
        Spells (typed shell entered).commandBuf 0 (edited entered) := by
  have shown := (showsBehind_printChars typing).textBetween_eq
  constructor
  · rintro ⟨waiting, waits, spells⟩
    obtain rfl := eq_typed_of_waiting typing.not_mem.1 waits
    simp only [printedSince_typed, shown] at spells
    exact ⟨waits, spells⟩
  · rintro ⟨waits, spells⟩
    refine ⟨typed shell entered, waits, ?_⟩
    simp only [printedSince_typed, shown]
    exact spells

/-- Without a backspace the buffer holds the line. -/
theorem matchesScreen_of_not_mem
    (typing : Typing console entered)
    (atPrompt : AtPrompt shell)
    (noBackspace : backspace ∉ entered) :
    MatchesScreen strings fuel shell console entered := by
  have fits := typing.length_edited_le
  have unedited := edited_of_not_mem noBackspace
  obtain ⟨noNewline, noNul⟩ := typing.not_mem
  rw [unedited] at fits
  have short : entered.length < size := Nat.lt_of_le_of_lt fits (by decide)
  rw [matchesScreen_iff typing, unedited, spells_iff]
  refine ⟨?_, ?_, ?_, noNul⟩
  · apply keys_line strings fuel shell noNewline
    rw [atPrompt.fresh, Nat.zero_add]
    exact short
  · exact atPrompt.fresh ▸ typed_starts shell entered
  · rw [Nat.zero_add, typed_other shell (.inr _)]
    · exact atPrompt.cleared _ short
    · rw [atPrompt.fresh, Nat.zero_add]

/-- With a backspace the buffer holds more than the line. -/
theorem not_matchesScreen_of_mem
    (typing : Typing console entered)
    (atPrompt : AtPrompt shell)
    (erases : backspace ∈ entered) :
    ¬ MatchesScreen strings fuel shell console entered := by
  rw [matchesScreen_iff typing, spells_iff]
  rintro ⟨_, starts, ends, _⟩
  have stored := typed_starts shell entered
  rw [atPrompt.fresh] at stored
  have isPart := starts.prefix_of_nul ends typing.not_mem.2 stored
  exact backspace_not_mem_edited entered (isPart.subset erases)

/--
Whatever is typed at the prompt in one row is matched as the screen shows it
exactly when nothing was erased.
-/
theorem keys_matchesScreen_iff
    (strings : Strings)
    (fuel : Nat)
    (typing : Typing console entered)
    (atPrompt : AtPrompt shell) :
    MatchesScreen strings fuel shell console entered ↔
      backspace ∉ entered := by
  constructor
  · intro screen erases
    exact not_matchesScreen_of_mem typing atPrompt erases screen
  · exact matchesScreen_of_not_mem typing atPrompt

/-- A shell that has just started on a cleared stack is at its prompt. -/
theorem atPrompt_start (strings : Strings) :
    AtPrompt (start strings fun _ => 0) where
  fresh := rfl
  cleared := fun _ _ => rfl

/-- Keys that can be checked part by part are typed in the first row. -/
theorem typing_greyConsole
    (keys : ∀ key ∈ entered, Visible key ∨ key = backspace)
    (parts :
      ∀ before ∈ entered.inits,
        erasedCount before ≤ typedCount before ∧
          typedCount before - erasedCount before ≤ vgaWidth) :
    Typing greyConsole entered where
  keys := keys
  erases := fun before isPart =>
    (parts before ((List.mem_inits before entered).mpr isPart)).1
  onScreen := by decide
  inRow := by
    intro before isPart
    have row : greyConsole.vgaIndex.toNat % vgaWidth = 0 := rfl
    rw [row, Nat.zero_add]
    exact (parts before ((List.mem_inits before entered).mpr isPart)).2

/-- The keys `ls` are matched as the screen shows them. -/
theorem keys_matchesScreen_ls :
    MatchesScreen ⟨[], [], []⟩ 0 (start ⟨[], [], []⟩ fun _ => 0)
      greyConsole [0x6C, 0x73] :=
  (keys_matchesScreen_iff ⟨[], [], []⟩ 0
    (typing_greyConsole (List.forall_iff_forall_mem.mp (by decide))
      (by decide))
    (atPrompt_start ⟨[], [], []⟩)).mpr (by decide)

/-- `l`, `x`, a backspace and `s` show `ls` and are matched as four keys. -/
theorem keys_matchesScreen_counterexample :
    ¬ ∀ (strings : Strings) (fuel : Nat) (shell : State)
        (console : Console.State) (entered : List UInt8),
      Typing console entered →
      AtPrompt shell →
      MatchesScreen strings fuel shell console entered := by
  intro always
  have typing : Typing greyConsole [0x6C, 0x78, 8, 0x73] :=
    typing_greyConsole (List.forall_iff_forall_mem.mp (by decide))
      (by decide)
  have atPrompt := atPrompt_start ⟨[], [], []⟩
  exact not_matchesScreen_of_mem typing atPrompt (by decide)
    (always ⟨[], [], []⟩ 0 _ _ _ typing atPrompt)

end Buffer

end Relics.Shell
