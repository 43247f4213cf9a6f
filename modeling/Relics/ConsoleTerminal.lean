import Relics.ConsoleCursor
import Relics.ConsoleWindow

namespace Relics.Console

/-!
# The console as a terminal

A terminal appends characters to the last of its lines, takes them back, and
ends a line at a new line or when it is as wide as the screen.  The console is
such a terminal as seen through its window of 25 lines, up to the first
character that does not fit: a full row at the bottom of the screen, a tab over
the end of a row, and a backspace in front of a row.  What is seen of a cell is
its glyph, since a backspace leaves a space where the others leave a NUL.
-/

open LabelledRun

/-- The glyph of a character; NUL is as blank as a space. -/
def glyph (ch : UInt8) : UInt8 :=
  if ch = 0 then 0x20 else ch

/-- What is seen of an entry of the buffer: its glyph and its colors -/
def seen (entry : UInt16) : UInt8 × UInt8 :=
  (glyph entry.toUInt8, (entry >>> 8).toUInt8)

namespace Lines

/-- The lines of a terminal that nothing has been written to. -/
def blank : Lines where
  done := []
  current := []

/-- A character behind the current line, which ends at the width of a row. -/
def put (lines : Lines) (ch : UInt8) : Lines :=
  let written : Lines := { lines with current := lines.current ++ [ch] }
  if written.current.length = 80 then written.newLine else written

/-- What a character does to the lines of a terminal. -/
def write (lines : Lines) (ch : UInt8) : Lines :=
  if ch = 0 then
    lines
  else if ch = 8 then
    { lines with current := lines.current.dropLast }
  else if ch = 10 then
    lines.newLine
  else if ch = 9 then
    (List.replicate 4 0x20).foldl put lines
  else
    lines.put ch

/-- The lines after a text. -/
def writeAll (lines : Lines) (text : List UInt8) : Lines :=
  text.foldl write lines

/-- The position behind the current line, on the screen. -/
def position (lines : Lines) : Nat :=
  lines.row * 80 + lines.current.length

/-- The console has room for what a character does to the lines. -/
structure Fits (lines : Lines) (ch : UInt8) : Prop where
  visible : Visible ch → lines.current.length < 79 ∨ lines.done.length < 24
  tab : ch = 9 → lines.current.length < 76
  backspace : ch = 8 → lines.current ≠ []

section Write

variable
    {lines : Lines}
    {ch : UInt8}

theorem write_visible (visible : Visible ch) : lines.write ch = lines.put ch := by
  obtain ⟨notNul, notBackspace, notNewLine, notTab⟩ := visible
  rw [write, if_neg notNul, if_neg notBackspace, if_neg notNewLine,
    if_neg notTab]

/-- In front of the last column a character only lengthens its line. -/
theorem put_of_short (short : lines.current.length < 79) :
    lines.put ch = { lines with current := lines.current ++ [ch] } := by
  rw [put, if_neg]
  rw [List.length_append, List.length_singleton]
  omega

/-- In the last column a character ends its line. -/
theorem put_of_full (full : lines.current.length = 79) :
    lines.put ch =
      Lines.newLine { lines with current := lines.current ++ [ch] } := by
  rw [put, if_pos]
  rw [List.length_append, List.length_singleton, full]

/-- Characters that end in front of the last column lengthen their line. -/
theorem puts_of_short
    (characters : List UInt8)
    (short : lines.current.length + characters.length < 80) :
    characters.foldl put lines =
      { lines with current := lines.current ++ characters } := by
  induction characters generalizing lines with
  | nil =>
      simp
  | cons ch characters inductionHypothesis =>
      rw [List.length_cons] at short
      have first : lines.put ch = _ := put_of_short (by omega)
      rw [List.foldl_cons, first, inductionHypothesis (by simp; omega)]
      simp

theorem writeAll_append (text later : List UInt8) :
    lines.writeAll (text ++ later) = (lines.writeAll text).writeAll later :=
  List.foldl_append

end Write

end Lines

/-- An entry is seen as its character in its colors. -/
theorem seen_vgaEntry (ch fore back : UInt8) :
    seen (vgaEntry ch fore back) = (glyph ch, back <<< 4 ||| fore) := by
  have holds := holds_vgaEntry ch fore back
  rw [seen, holds.character, holds.colors]

section Window

variable
    {done : List (List UInt8)}
    {current : List UInt8}
    {first row column : Nat}

/-- Nothing stands behind the last line. -/
theorem windowByte_behind
    (atEnd : first + row = done.length)
    (behind : current.length ≤ column) :
    windowByte (done ++ [current]) first row column = 0 := by
  simp [windowByte, atEnd, behind]

/-- A line looks the same with spaces behind it. -/
theorem glyph_windowByte_spaces (count : Nat) :
    glyph (windowByte (done ++ [current ++ List.replicate count 0x20])
        first row column) =
      glyph (windowByte (done ++ [current]) first row column) := by
  induction count with
  | zero =>
      rw [List.replicate_zero, List.append_nil]
  | succ count inductionHypothesis =>
      rw [← inductionHypothesis, List.replicate_succ', ← List.append_assoc,
        windowByte_append]
      split
      · case _ behind =>
          rw [windowByte_behind behind.1 (Nat.le_of_eq behind.2.symm)]
          rfl
      · rfl

end Window

/-- The lines of a terminal are seen through the window of the console. -/
structure Displays
    (console : State)
    (fore back : UInt8)
    (lines : Lines) :
    Prop where
  foreColor : console.foreColor = fore
  backColor : console.backColor = back
  cells :
    ∀ row < 25,
      ∀ column < 80,
        seen (console.vgaBuffer (row * 80 + column)) =
          (glyph (windowByte lines.all lines.first row column),
            back <<< 4 ||| fore)
  index : console.vgaIndex.toNat = lines.position
  nextLine : console.nextLineIndex.toNat = lines.row + 1
  short : lines.current.length < 80

namespace Displays

variable
    {console : State}
    {fore back ch : UInt8}
    {lines : Lines}

/-- The index is on the screen. -/
theorem index_lt (displays : Displays console fore back lines) :
    console.vgaIndex.toNat < 2000 := by
  have index := displays.index
  have short := displays.short
  have row := lines.row_lt
  unfold Lines.position at index
  omega

/-- The counted row is the row of the index. -/
theorem rowAgrees (displays : Displays console fore back lines) :
    RowAgrees console := by
  have index := displays.index
  have nextLine := displays.nextLine
  have short := displays.short
  unfold Lines.position at index
  unfold RowAgrees
  omega

/-- What is shown exactly is displayed. -/
theorem of_shows
    (shows' : Shows console fore back lines)
    (short : lines.current.length < 80) :
    Displays console fore back lines where
  foreColor := shows'.foreColor
  backColor := shows'.backColor
  cells row rowInside column columnInside := by
    rw [shows'.cells row rowInside column columnInside, seen_vgaEntry]
  index := shows'.index
  nextLine := shows'.nextLine
  short := short

/-- The cells once a character has been put behind the current line -/
theorem cells_visible
    (displays : Displays console fore back lines)
    (visible : Visible ch)
    {row column : Nat}
    (rowInside : row < 25)
    (columnInside : column < 80) :
    seen ((printChar console ch).vgaBuffer (row * 80 + column)) =
      (glyph
          (windowByte (lines.done ++ [lines.current ++ [ch]]) lines.first
            row column),
        back <<< 4 ||| fore) := by
  have here :
      row * 80 + column = lines.position ↔
        lines.first + row = lines.done.length ∧
          column = lines.current.length := by
    have short := displays.short
    have sum := lines.first_add_row
    unfold Lines.position
    omega
  have before := displays.cells row rowInside column columnInside
  rw [vgaBuffer_visible visible, windowByte_append]
  simp only [State.store, displays.index, displays.foreColor,
    displays.backColor]
  by_cases atIndex : row * 80 + column = lines.position
  · rw [if_pos atIndex, if_pos (here.mp atIndex), seen_vgaEntry]
  · rw [if_neg atIndex, if_neg (mt here.mpr atIndex)]
    exact before

/-- The index behind a character on the screen -/
theorem index_visible
    (displays : Displays console fore back lines)
    (visible : Visible ch) :
    (printChar console ch).vgaIndex.toNat = lines.position + 1 := by
  have inside := displays.index_lt
  rw [vgaIndex_visible visible, UInt16.toNat_add, displays.index]
  rw [displays.index] at inside
  exact Nat.mod_eq_of_lt (Nat.lt_of_lt_of_le (Nat.succ_lt_succ inside)
    (by decide))

/-- A character in the last column counts the next row. -/
theorem nextLine_visible
    (displays : Displays console fore back lines)
    (visible : Visible ch) :
    (printChar console ch).nextLineIndex.toNat =
      if lines.current.length = 79 then lines.row + 2 else lines.row + 1 := by
  have short := displays.short
  have row := lines.row_lt
  have index := displays.index_visible visible
  rw [vgaIndex_visible visible] at index
  have endsRow :
      (console.vgaIndex + 1) % 80 = 0 ↔ lines.current.length = 79 := by
    rw [← UInt16.toNat_inj, UInt16.toNat_mod, index]
    change (lines.position + 1) % 80 = 0 ↔ _
    unfold Lines.position
    omega
  rw [nextLineIndex_visible visible]
  simp only [endsRow]
  split
  · rw [UInt16.toNat_add, displays.nextLine]
    change (lines.row + 1 + 1) % 65536 = _
    omega
  · exact displays.nextLine

/-- A character in front of the last column is displayed behind its line. -/
theorem visible_of_short
    (displays : Displays console fore back lines)
    (visible : Visible ch)
    (short : lines.current.length < 79) :
    Displays (printChar console ch) fore back (lines.put ch) := by
  rw [Lines.put_of_short short]
  constructor
  · exact (colors_visible visible).1.trans displays.foreColor
  · exact (colors_visible visible).2.trans displays.backColor
  · intro row rowInside column columnInside
    exact displays.cells_visible visible rowInside columnInside
  · rw [displays.index_visible visible, Lines.position, Lines.position,
      List.length_append, List.length_singleton, Nat.add_assoc]
    rfl
  · rw [displays.nextLine_visible visible, if_neg (by omega)]
    rfl
  · rw [List.length_append, List.length_singleton]
    omega

/-- A full row above the bottom of the screen goes on in the next. -/
theorem visible_of_room
    (displays : Displays console fore back lines)
    (visible : Visible ch)
    (full : lines.current.length = 79)
    (room : lines.done.length < 24) :
    Displays (printChar console ch) fore back (lines.put ch) := by
  rw [Lines.put_of_full full]
  let written : Lines := { lines with current := lines.current ++ [ch] }
  have moved :
      written.newLine.first = lines.first ∧
        written.newLine.row = lines.row + 1 :=
    Lines.newLine_of_room room
  obtain ⟨sameFirst, nextRow⟩ := moved
  constructor
  · exact (colors_visible visible).1.trans displays.foreColor
  · exact (colors_visible visible).2.trans displays.backColor
  · intro row rowInside column columnInside
    rw [sameFirst]
    simp only [Lines.newLine, Lines.all, windowByte_concat_nil]
    exact displays.cells_visible visible rowInside columnInside
  · rw [displays.index_visible visible, Lines.position, Lines.position,
      nextRow, full]
    simp only [Lines.newLine, List.length_nil]
    omega
  · rw [displays.nextLine_visible visible, if_pos full, nextRow]
  · exact Nat.zero_lt_succ _

/-- A full row at the bottom of the screen leaves the screen. -/
theorem not_visible
    (displays : Displays console fore back lines)
    (visible : Visible ch)
    (full : lines.current.length = 79)
    (bottom : 24 ≤ lines.done.length)
    (later : Lines) :
    ¬ Displays (printChar console ch) fore back later := by
  intro after
  have outside := after.index_lt
  rw [displays.index_visible visible, Lines.position, full] at outside
  unfold Lines.row Lines.first at outside
  omega

/-- A visible character is displayed exactly if there is room for it. -/
theorem visible_iff
    (displays : Displays console fore back lines)
    (visible : Visible ch) :
    Displays (printChar console ch) fore back (lines.write ch) ↔
      lines.current.length < 79 ∨ lines.done.length < 24 := by
  rw [Lines.write_visible visible]
  have width := displays.short
  constructor
  · intro after
    by_contra stuck
    exact displays.not_visible visible (by omega) (by omega) _ after
  · intro fits
    rcases Nat.lt_or_ge lines.current.length 79 with short | full
    · exact displays.visible_of_short visible short
    · exact displays.visible_of_room visible (by omega) (by omega)

/-- A new line above the bottom of the screen only moves on. -/
theorem newLine_of_room
    (displays : Displays console fore back lines)
    (room : lines.done.length < 24) :
    Displays (printChar console 10) fore back lines.newLine := by
  obtain ⟨sameFirst, nextRow⟩ := Lines.newLine_of_room room
  have nextLine := displays.nextLine
  have above : console.nextLineIndex.toNat < 25 := by
    unfold Lines.row Lines.first at nextLine
    omega
  have notBottom : ¬ console.nextLineIndex ≥ 25 :=
    UInt16.not_le.mpr (UInt16.lt_iff_toNat_lt.mpr above)
  have moved := printNewLine_of_above console notBottom
  obtain ⟨bottom, -, -⟩ | ⟨-, index, counted⟩ := newLine_cases console
  · omega
  constructor
  · exact moved.foreColor.trans displays.foreColor
  · exact moved.backColor.trans displays.backColor
  · intro row rowInside column columnInside
    have sameCell := moved.cells (row * 80 + column)
    refine Eq.trans (congrArg seen sameCell) ?_
    rw [sameFirst]
    simp only [Lines.newLine, Lines.all, windowByte_concat_nil]
    exact displays.cells row rowInside column columnInside
  · rw [index, nextLine, Lines.position, nextRow]
    simp only [Lines.newLine, List.length_nil]
    omega
  · rw [counted, nextLine, nextRow]
  · exact Nat.zero_lt_succ _

/-- A new line at the bottom of the screen scrolls. -/
theorem newLine_of_full
    (displays : Displays console fore back lines)
    (full : 24 ≤ lines.done.length) :
    Displays (printChar console 10) fore back lines.newLine := by
  obtain ⟨nextFirst, sameRow⟩ := Lines.newLine_of_full full
  have nextLine := displays.nextLine
  have lastRow : lines.row = 24 := by
    unfold Lines.row Lines.first
    omega
  have bottom : 25 ≤ console.nextLineIndex.toNat := by
    omega
  have scrolled :=
    printNewLine_of_bottom console (UInt16.le_iff_toNat_le.mpr bottom)
  obtain ⟨-, index, counted⟩ | ⟨above, -, -⟩ := newLine_cases console
  rotate_left
  · omega
  constructor
  · exact scrolled.foreColor.trans displays.foreColor
  · exact scrolled.backColor.trans displays.backColor
  · intro row rowInside column columnInside
    refine Eq.trans (congrArg seen (scrolled.cells (row * 80 + column))) ?_
    rw [nextFirst]
    simp only [Lines.newLine, Lines.all, windowByte_concat_nil,
      windowByte_succ]
    by_cases last : row = 24
    · -- the row behind the line that was ended
      have beyond :
          (lines.done ++ [lines.current]).length ≤ lines.first + (row + 1) := by
        unfold Lines.first
        simp
        omega
      rw [windowByte_beyond beyond, if_neg (by omega), if_pos (by omega),
        seen_vgaEntry, displays.foreColor, displays.backColor]
    · have below : row * 80 + column + 80 = (row + 1) * 80 + column := by
        omega
      rw [if_pos (by omega), below]
      exact displays.cells (row + 1) (by omega) column columnInside
  · rw [index, Lines.position, sameRow, lastRow]
    rfl
  · rw [counted, nextLine, sameRow]
  · exact Nat.zero_lt_succ _

/-- A new line is always displayed. -/
theorem newLine
    (displays : Displays console fore back lines) :
    Displays (printChar console 10) fore back lines.newLine := by
  rcases Nat.lt_or_ge lines.done.length 24 with room | full
  · exact displays.newLine_of_room room
  · exact displays.newLine_of_full full

/-- A tab that ends in its row is displayed as spaces. -/
theorem tab_of_short
    (displays : Displays console fore back lines)
    (short : lines.current.length < 76) :
    Displays (printChar console 9) fore back (lines.write 9) := by
  have written :
      lines.write 9 =
        { lines with current := lines.current ++ List.replicate 4 0x20 } :=
    Lines.puts_of_short _ (by rw [List.length_replicate]; omega)
  have inside := displays.index_lt
  rw [written]
  constructor
  · exact displays.foreColor
  · exact displays.backColor
  · intro row rowInside column columnInside
    simp only [Lines.all, glyph_windowByte_spaces]
    exact displays.cells row rowInside column columnInside
  · have index :
        (printChar console 9).vgaIndex.toNat =
          (console.vgaIndex.toNat + 4) % 65536 :=
      UInt16.toNat_add console.vgaIndex 4
    rw [index, Nat.mod_eq_of_lt (by omega), displays.index, Lines.position,
      Lines.position, List.length_append, List.length_replicate, Nat.add_assoc]
    rfl
  · exact displays.nextLine
  · rw [List.length_append, List.length_replicate]
    omega

/-- A tab over the end of its row is not counted. -/
theorem not_tab
    (displays : Displays console fore back lines)
    (long : 76 ≤ lines.current.length)
    (later : Lines) :
    ¬ Displays (printChar console 9) fore back later := by
  intro after
  have agrees := (rowAgrees_printChar displays.rowAgrees).mp after.rowAgrees
  have inRow := (inStep_tab.mp agrees).1
  have short := displays.short
  rw [displays.index, Lines.position] at inRow
  omega

/-- A tab is displayed exactly if it ends in its row. -/
theorem tab_iff
    (displays : Displays console fore back lines) :
    Displays (printChar console 9) fore back (lines.write 9) ↔
      lines.current.length < 76 := by
  constructor
  · intro after
    by_contra long
    exact displays.not_tab (Nat.le_of_not_lt long) _ after
  · exact displays.tab_of_short

/-- A backspace takes back the last character of its line. -/
theorem backspace_of_ne_nil
    (displays : Displays console fore back lines)
    (someCharacter : lines.current ≠ []) :
    Displays (printChar console 8) fore back (lines.write 8) := by
  obtain ⟨current, last, shape⟩ :=
    (List.eq_nil_or_concat lines.current).resolve_left someCharacter
  rw [List.concat_eq_append] at shape
  have written : lines.write 8 = { lines with current := current } := by
    simp [Lines.write, shape]
  have position : lines.position = lines.row * 80 + current.length + 1 := by
    rw [Lines.position, shape, List.length_append, List.length_singleton,
      Nat.add_assoc]
  have inside := displays.index_lt
  have short := displays.short
  rw [shape, List.length_append, List.length_singleton] at short
  have index :
      (printChar console 8).vgaIndex.toNat =
        lines.row * 80 + current.length := by
    have moved :
        (printChar console 8).vgaIndex.toNat =
          (65535 + console.vgaIndex.toNat) % 65536 :=
      UInt16.toNat_sub console.vgaIndex 1
    rw [moved, displays.index, position]
    rw [displays.index, position] at inside
    omega
  rw [written]
  constructor
  · exact displays.foreColor
  · exact displays.backColor
  · intro row rowInside column columnInside
    have before := displays.cells row rowInside column columnInside
    have sum := lines.first_add_row
    have stored :
        (printChar console 8).vgaBuffer (row * 80 + column) =
          if row * 80 + column = (printChar console 8).vgaIndex.toNat then
            vgaEntry 0x20 console.foreColor console.backColor
          else
            console.vgaBuffer (row * 80 + column) :=
      rfl
    rw [Lines.all, shape, windowByte_append] at before
    rw [stored, index]
    by_cases atIndex :
        row * 80 + column = lines.row * 80 + current.length
    · have behind :
          lines.first + row = lines.done.length ∧ column = current.length := by
        omega
      rw [if_pos atIndex, seen_vgaEntry, displays.foreColor,
        displays.backColor, Lines.all]
      change _ = (glyph (windowByte (lines.done ++ [current]) lines.first
        row column), _)
      rw [windowByte_behind behind.1 (Nat.le_of_eq behind.2.symm)]
      rfl
    · have elsewhere :
          ¬ (lines.first + row = lines.done.length ∧
            column = current.length) := by
        omega
      rw [if_neg elsewhere] at before
      rw [if_neg atIndex]
      exact before
  · exact index
  · exact displays.nextLine
  · exact Nat.lt_of_succ_lt short

/-- A backspace in front of its row leaves the row. -/
theorem not_backspace
    (displays : Displays console fore back lines)
    (atStart : lines.current = [])
    (later : Lines) :
    ¬ Displays (printChar console 8) fore back later := by
  intro after
  have agrees := (rowAgrees_printChar displays.rowAgrees).mp after.rowAgrees
  apply inStep_backspace.mp agrees
  rw [displays.index, Lines.position, atStart]
  simp

/-- A backspace is displayed exactly if there is something to take back. -/
theorem backspace_iff
    (displays : Displays console fore back lines) :
    Displays (printChar console 8) fore back (lines.write 8) ↔
      lines.current ≠ [] := by
  constructor
  · intro after atStart
    exact displays.not_backspace atStart _ after
  · exact displays.backspace_of_ne_nil

/-- A character is displayed exactly if it fits. -/
theorem write_iff_fits
    (displays : Displays console fore back lines) :
    Displays (printChar console ch) fore back (lines.write ch) ↔
      lines.Fits ch := by
  rcases character_cases ch with rfl | rfl | rfl | rfl | visible
  · refine ⟨fun _ => ⟨?_, ?_, ?_⟩, fun _ => displays⟩
    · exact fun visible => absurd visible (by decide)
    · exact fun isTab => absurd isTab (by decide)
    · exact fun isBackspace => absurd isBackspace (by decide)
  · rw [displays.backspace_iff]
    refine ⟨fun some => ⟨?_, ?_, ?_⟩, fun fits => fits.backspace rfl⟩
    · exact fun visible => absurd visible (by decide)
    · exact fun isTab => absurd isTab (by decide)
    · exact fun _ => some
  · refine ⟨fun _ => ⟨?_, ?_, ?_⟩, fun _ => displays.newLine⟩
    · exact fun visible => absurd visible (by decide)
    · exact fun isTab => absurd isTab (by decide)
    · exact fun isBackspace => absurd isBackspace (by decide)
  · rw [displays.tab_iff]
    refine ⟨fun short => ⟨?_, ?_, ?_⟩, fun fits => fits.tab rfl⟩
    · exact fun visible => absurd visible (by decide)
    · exact fun _ => short
    · exact fun isBackspace => absurd isBackspace (by decide)
  · rw [displays.visible_iff visible]
    have ⟨_, notBackspace, _, notTab⟩ := visible
    refine ⟨fun room => ⟨?_, ?_, ?_⟩, fun fits => fits.visible visible⟩
    · exact fun _ => room
    · exact fun isTab => absurd isTab notTab
    · exact fun isBackspace => absurd isBackspace notBackspace

end Displays

section Texts

/-- A reset console displays no lines. -/
theorem displays_resetVideoMemory (console : State) :
    Displays (resetVideoMemory console) console.foreColor console.backColor
      .blank :=
  .of_shows (shows_resetVideoMemory console) (Nat.zero_lt_succ _)

/-- The console and the lines that it is to display. -/
structure Terminal where
  console : State
  lines : Lines

/-- A character is printed and written. -/
def Terminal.write (terminal : Terminal) (ch : UInt8) : Terminal where
  console := printChar terminal.console ch
  lines := terminal.lines.write ch

theorem foldl_write (terminal : Terminal) (text : List UInt8) :
    text.foldl Terminal.write terminal =
      ⟨printChars terminal.console text, terminal.lines.writeAll text⟩ := by
  induction text generalizing terminal with
  | nil =>
      rfl
  | cons ch text inductionHypothesis =>
      exact inductionHypothesis (terminal.write ch)

namespace Lines

variable
    {lines : Lines}
    {ch : UInt8}
    {text later : List UInt8}

/-- Each character of a text fits behind the characters before it. -/
def FitsAll (lines : Lines) (text : List UInt8) : Prop :=
  ∀ earlier ch later,
    text = earlier ++ ch :: later → (lines.writeAll earlier).Fits ch

theorem fitsAll_nil : lines.FitsAll [] := by
  intro earlier ch later split
  simp at split

theorem fitsAll_cons :
    lines.FitsAll (ch :: text) ↔
      lines.Fits ch ∧ (lines.write ch).FitsAll text := by
  constructor
  · intro fits
    refine ⟨fits [] ch text rfl, ?_⟩
    intro earlier other behind split
    exact fits (ch :: earlier) other behind (by rw [split, List.cons_append])
  · rintro ⟨first, rest⟩ earlier other behind split
    cases earlier with
    | nil =>
        obtain ⟨rfl, -⟩ := List.cons.inj split
        exact first
    | cons _ earlier =>
        obtain ⟨rfl, sameText⟩ := List.cons.inj split
        exact rest earlier other behind sameText

theorem fitsAll_append :
    lines.FitsAll (text ++ later) ↔
      lines.FitsAll text ∧ (lines.writeAll text).FitsAll later := by
  induction text generalizing lines with
  | nil =>
      exact ⟨fun fits => ⟨fitsAll_nil, fits⟩, And.right⟩
  | cons ch text inductionHypothesis =>
      rw [List.cons_append, fitsAll_cons, fitsAll_cons, inductionHypothesis,
        and_assoc]
      rfl

instance : Decidable (lines.Fits ch) :=
  decidable_of_iff
    ((Visible ch → lines.current.length < 79 ∨ lines.done.length < 24) ∧
      (ch = 9 → lines.current.length < 76) ∧ (ch = 8 → lines.current ≠ []))
    ⟨fun fits => ⟨fits.1, fits.2.1, fits.2.2⟩,
      fun fits => ⟨fits.visible, fits.tab, fits.backspace⟩⟩

instance decidableFitsAll :
    (lines : Lines) →
    (text : List UInt8) →
    Decidable (lines.FitsAll text)
  | _, [] => isTrue fitsAll_nil
  | lines, ch :: text =>
      have := decidableFitsAll (lines.write ch) text
      decidable_of_iff _ fitsAll_cons.symm

end Lines

/-- Each part of a text is displayed exactly if each of its characters fits. -/
theorem displays_parts_iff
    {console : State}
    {fore back : UInt8}
    {lines : Lines}
    (displays : Displays console fore back lines)
    (text : List UInt8) :
    (∀ earlier later,
        text = earlier ++ later →
        Displays (printChars console earlier) fore back
          (lines.writeAll earlier)) ↔
      lines.FitsAll text := by
  let InStep (terminal : Terminal) : Prop :=
    Displays terminal.console fore back terminal.lines
  have parts :
      (∀ earlier later,
          text = earlier ++ later →
          InStep (earlier.foldl Terminal.write ⟨console, lines⟩)) ↔
        ∀ earlier ch later,
          text = earlier ++ ch :: later →
          (earlier.foldl Terminal.write ⟨console, lines⟩).lines.Fits ch :=
    foldl_parts_iff InStep (fun terminal ch => terminal.lines.Fits ch)
      (fun displayed => displayed.write_iff_fits) displays text
  simp only [foldl_write] at parts
  exact parts

/--
The console is a terminal for a text: after each of its parts it displays the
lines written so far, and once a byte other than NUL has been printed the
cursor is behind the last line.
-/
structure IsTerminal (console : State) (text : List UInt8) : Prop where
  displays :
    ∀ earlier later,
      text = earlier ++ later →
      Displays (shown console earlier) console.foreColor console.backColor
        (Lines.blank.writeAll earlier)
  cursor :
    ∀ earlier later,
      text = earlier ++ later →
      (∃ ch ∈ earlier, ch ≠ 0) →
      (shown console earlier).crtc.cursor =
        (Lines.blank.writeAll earlier).position

/-- The console is a terminal exactly for the texts whose characters all fit. -/
theorem isTerminal_iff_fits
    (console : State)
    (text : List UInt8) :
    IsTerminal console text ↔ Lines.blank.FitsAll text := by
  have parts :=
    displays_parts_iff (displays_resetVideoMemory console) text
  constructor
  · intro terminal
    exact parts.mp terminal.displays
  · intro fits
    have displayed := parts.mpr fits
    refine ⟨displayed, ?_⟩
    intro earlier later split someByte
    have here := displayed earlier later split
    rw [cursor_shown someByte]
    exact (position_of_rowAgrees here.rowAgrees).trans here.index

/-- The lines are displayed and the cursor is behind the last of them. -/
structure Tracks
    (console : State)
    (fore back : UInt8)
    (lines : Lines) : Prop
    extends Displays console fore back lines where
  cursor : console.crtc.cursor = lines.position

/-- A character other than NUL that is displayed takes the cursor along. -/
theorem Displays.tracks
    {console : State}
    {fore back ch : UInt8}
    {lines : Lines}
    (after : Displays (printChar console ch) fore back lines)
    (notNul : ch ≠ 0) :
    Tracks (printChar console ch) fore back lines where
  toDisplays := after
  cursor := by
    rw [cursor_printChar notNul, position_of_rowAgrees after.rowAgrees,
      after.index]

/-- A text that fits and ends in another character than NUL takes it along. -/
theorem Displays.tracks_printChars
    {console : State}
    {fore back ch : UInt8}
    {lines : Lines}
    {text : List UInt8}
    (displays : Displays console fore back lines)
    (fits : lines.FitsAll (text ++ [ch]))
    (notNul : ch ≠ 0) :
    Tracks (printChars console (text ++ [ch])) fore back
      (lines.writeAll (text ++ [ch])) := by
  have after :=
    (displays_parts_iff displays _).mpr fits _ [] (List.append_nil _).symm
  have last :
      printChars console (text ++ [ch]) =
        printChar (printChars console text) ch := by
    rw [printChars, List.foldl_append]
    rfl
  rw [last] at after ⊢
  exact after.tracks notNul

/-- A text that fits is displayed, and the cursor follows it. -/
theorem Tracks.printChars
    {console : State}
    {fore back : UInt8}
    {lines : Lines}
    {text : List UInt8}
    (tracks : Tracks console fore back lines)
    (fits : lines.FitsAll text) :
    Tracks (printChars console text) fore back (lines.writeAll text) := by
  induction text generalizing console lines with
  | nil =>
      exact tracks
  | cons ch text inductionHypothesis =>
      obtain ⟨first, rest⟩ := Lines.fitsAll_cons.mp fits
      have written := tracks.write_iff_fits.mpr first
      by_cases isNul : ch = 0
      · subst isNul
        exact inductionHypothesis tracks rest
      · exact inductionHypothesis (written.tracks isNul) rest

end Texts

end Relics.Console
