import Relics.ConsoleScreen

namespace Relics.Console

/-!
# The screen as a window of the last lines

Lines that are shorter than a row, printed one after the other, appear as a
window of 25 lines that ends with the line being printed: the index and the
row count name its last position, and the screen scrolls exactly when the
window moves.
-/

/-- What the screen is to show: the lines before the one being printed, and it. -/
structure Lines where
  done : List (List UInt8)
  current : List UInt8

namespace Lines

/-- All lines, the one being printed last. -/
def all (lines : Lines) : List (List UInt8) :=
  lines.done ++ [lines.current]

/-- The number of the first line of the window. -/
def first (lines : Lines) : Nat :=
  lines.done.length - 24

/-- The row of the window that holds the line being printed. -/
def row (lines : Lines) : Nat :=
  lines.done.length - lines.first

theorem row_lt (lines : Lines) : lines.row < 25 := by
  unfold row first
  omega

theorem first_add_row (lines : Lines) :
    lines.first + lines.row = lines.done.length := by
  unfold row first
  omega

/-- The lines once the one being printed has been ended. -/
def newLine (lines : Lines) : Lines where
  done := lines.all
  current := []

theorem length_newLine (lines : Lines) :
    lines.newLine.done.length = lines.done.length + 1 := by
  simp [newLine, all]

/-- As long as the lines fit the screen, a new one is the next row. -/
theorem newLine_of_room
    {lines : Lines}
    (room : lines.done.length < 24) :
    lines.newLine.first = lines.first ∧ lines.newLine.row = lines.row + 1 := by
  have length := lines.length_newLine
  unfold row first
  omega

/-- Once the screen is full, a new line moves the window by one. -/
theorem newLine_of_full
    {lines : Lines}
    (full : 24 ≤ lines.done.length) :
    lines.newLine.first = lines.first + 1 ∧ lines.newLine.row = lines.row := by
  have length := lines.length_newLine
  unfold row first
  omega

end Lines

/-- The byte at a row and column of the window that starts at a line. -/
def windowByte
    (lines : List (List UInt8))
    (first row column : Nat) :
    UInt8 :=
  (lines[first + row]?.bind fun shown => shown[column]?).getD 0

section Window

variable
    {lines : List (List UInt8)}
    {done : List (List UInt8)}
    {current : List UInt8}
    {ch : UInt8}
    {first row column : Nat}

/-- An empty line at the end of the lines is as blank as no line. -/
theorem windowByte_concat_nil :
    windowByte (lines ++ [[]]) first row column =
      windowByte lines first row column := by
  unfold windowByte
  rcases Nat.lt_trichotomy (first + row) lines.length with
      inside | atEnd | beyond
  · rw [List.getElem?_append_left inside]
  · simp [atEnd]
  · rw [List.getElem?_eq_none (by simp; omega),
      List.getElem?_eq_none (by omega)]

/-- Rows behind the last line are blank. -/
theorem windowByte_beyond
    (beyond : lines.length ≤ first + row) :
    windowByte lines first row column = 0 := by
  unfold windowByte
  rw [List.getElem?_eq_none beyond]
  rfl

/-- The window one line further shows the next row. -/
theorem windowByte_succ :
    windowByte lines (first + 1) row column =
      windowByte lines first (row + 1) column := by
  unfold windowByte
  rw [Nat.add_right_comm, Nat.add_assoc]

/-- A character appended to the last line appears behind it. -/
theorem windowByte_append :
    windowByte (done ++ [current ++ [ch]]) first row column =
      if first + row = done.length ∧ column = current.length then
        ch
      else
        windowByte (done ++ [current]) first row column := by
  unfold windowByte
  rcases Nat.lt_trichotomy (first + row) done.length with
      inside | atEnd | beyond
  · rw [List.getElem?_append_left inside, List.getElem?_append_left inside,
      if_neg (by omega)]
  · by_cases atColumn : column = current.length
    · simp [atEnd, atColumn]
    · rw [if_neg (by omega)]
      rcases Nat.lt_or_gt_of_ne atColumn with before | behind
      · simp [atEnd, List.getElem?_append_left before]
      · simp only [atEnd, List.getElem?_concat_length, Option.bind_some]
        rw [List.getElem?_eq_none (by simp; omega),
          List.getElem?_eq_none (by omega)]
  · rw [List.getElem?_eq_none (by simp; omega),
      List.getElem?_eq_none (by simp; omega), if_neg (by omega)]

end Window

/-- The console shows the window of the last lines. -/
structure Shows
    (console : State)
    (fore back : UInt8)
    (lines : Lines) :
    Prop where
  foreColor : console.foreColor = fore
  backColor : console.backColor = back
  cells :
    ∀ row < 25,
      ∀ column < 80,
        console.vgaBuffer (row * 80 + column) =
          vgaEntry (windowByte lines.all lines.first row column) fore back
  index :
    console.vgaIndex.toNat = lines.row * 80 + lines.current.length
  nextLine : console.nextLineIndex.toNat = lines.row + 1

section Steps

variable
    {console : State}
    {fore back ch : UInt8}
    {lines : Lines}

/-- The index in its row, in the row the source counts, is the index. -/
theorem Shows.cursor
    (shows' : Shows console fore back lines)
    (short : lines.current.length < 80) :
    ((console.nextLineIndex - 1) * 80 + console.vgaIndex % 80).toNat =
      console.vgaIndex.toNat := by
  have index := shows'.index
  have nextLine := shows'.nextLine
  have onScreen := lines.row_lt
  have row : (console.nextLineIndex - 1).toNat = lines.row := by
    rw [UInt16.toNat_sub, nextLine]
    simp
    omega
  have column : (console.vgaIndex % 80).toNat = lines.current.length := by
    rw [UInt16.toNat_mod, index]
    simp
    omega
  rw [UInt16.toNat_add, UInt16.toNat_mul, row, column, index]
  simp
  omega

/-- A visible character is appended to the line being printed. -/
theorem Shows.visible
    (shows' : Shows console fore back lines)
    (visible : Visible ch)
    (short : lines.current.length < 79) :
    Shows (printChar console ch) fore back
      { lines with current := lines.current ++ [ch] } := by
  have index := shows'.index
  have onScreen := lines.row_lt
  have moved :
      (console.vgaIndex + 1).toNat =
        lines.row * 80 + lines.current.length + 1 := by
    rw [UInt16.toNat_add, index]
    simp
    omega
  have sameRow : (console.vgaIndex + 1) % 80 ≠ 0 := by
    intro wraps
    have column := congrArg UInt16.toNat wraps
    rw [UInt16.toNat_mod, moved] at column
    simp at column
    omega
  exact {
    foreColor := (colors_visible visible).1.trans shows'.foreColor
    backColor := (colors_visible visible).2.trans shows'.backColor
    cells := by
      intro row rowInside column columnInside
      rw [vgaBuffer_visible visible]
      simp only [State.store, shows'.foreColor, shows'.backColor, index]
      rw [shows'.cells row rowInside column columnInside]
      -- the cell at the index is the one behind the line being printed
      have here :
          row * 80 + column = lines.row * 80 + lines.current.length ↔
            lines.first + row = lines.done.length ∧
              column = lines.current.length := by
        have := lines.first_add_row
        omega
      simp only [Lines.all, Lines.first, windowByte_append] at here ⊢
      by_cases atIndex :
          row * 80 + column = lines.row * 80 + lines.current.length
      · rw [if_pos atIndex, if_pos (here.mp atIndex)]
      · rw [if_neg atIndex, if_neg (mt here.mpr atIndex)]
    index := by
      rw [vgaIndex_visible visible, moved, List.length_append]
      rfl
    nextLine := by
      rw [nextLineIndex_visible visible, if_neg sameRow]
      exact shows'.nextLine }

/-- A new line in front of the last row only moves on. -/
theorem Shows.newLine_of_room
    (shows' : Shows console fore back lines)
    (room : lines.done.length < 24) :
    Shows (printChar console 10) fore back lines.newLine := by
  have nextLine := shows'.nextLine
  obtain ⟨sameFirst, nextRow⟩ := Lines.newLine_of_room room
  have notBottom : ¬console.nextLineIndex ≥ 25 := by
    intro atBottom
    have bottom : 25 ≤ console.nextLineIndex.toNat :=
      UInt16.le_iff_toNat_le.mp atBottom
    unfold Lines.row Lines.first at nextLine
    omega
  have moved := printNewLine_of_above console notBottom
  have small : lines.row + 1 < 25 := by
    unfold Lines.row Lines.first
    omega
  exact {
    foreColor := moved.foreColor.trans shows'.foreColor
    backColor := moved.backColor.trans shows'.backColor
    cells := by
      intro row rowInside column columnInside
      have sameCell := moved.cells (row * 80 + column)
      refine Eq.trans sameCell ?_
      rw [sameFirst]
      simp only [Lines.newLine, Lines.all, windowByte_concat_nil]
      exact shows'.cells row rowInside column columnInside
    index := by
      refine Eq.trans (congrArg UInt16.toNat moved.vgaIndex) ?_
      rw [UInt16.toNat_mul, nextLine, nextRow]
      simp [Lines.newLine]
      omega
    nextLine := by
      refine Eq.trans (congrArg UInt16.toNat moved.nextLineIndex) ?_
      rw [UInt16.toNat_add, nextLine, nextRow]
      simp
      omega }

/-- A new line in the last row scrolls. -/
theorem Shows.newLine_of_full
    (shows' : Shows console fore back lines)
    (full : 24 ≤ lines.done.length) :
    Shows (printChar console 10) fore back lines.newLine := by
  have nextLine := shows'.nextLine
  obtain ⟨nextFirst, sameRow⟩ := Lines.newLine_of_full full
  have lastRow : lines.row = 24 := by
    unfold Lines.row Lines.first
    omega
  have atBottom : console.nextLineIndex ≥ 25 := by
    apply UInt16.le_iff_toNat_le.mpr
    rw [nextLine, lastRow]
    decide
  have scrolled := printNewLine_of_bottom console atBottom
  exact {
    foreColor := scrolled.foreColor.trans shows'.foreColor
    backColor := scrolled.backColor.trans shows'.backColor
    cells := by
      intro row rowInside column columnInside
      refine Eq.trans (scrolled.cells (row * 80 + column)) ?_
      rw [shows'.foreColor, shows'.backColor, nextFirst]
      simp only [Lines.newLine, Lines.all, windowByte_concat_nil,
        windowByte_succ]
      by_cases last : row = 24
      · -- the row behind the line that was ended
        have beyond :
            (lines.done ++ [lines.current]).length ≤ lines.first + (row + 1) := by
          unfold Lines.first
          simp
          omega
        rw [windowByte_beyond beyond, if_neg (by omega), if_pos (by omega)]
      · have below : row * 80 + column + 80 = (row + 1) * 80 + column := by
          omega
        rw [if_pos (by omega), below]
        exact shows'.cells (row + 1) (by omega) column columnInside
    index := by
      refine Eq.trans (congrArg UInt16.toNat scrolled.vgaIndex) ?_
      rw [sameRow, lastRow]
      rfl
    nextLine := by
      refine Eq.trans (congrArg UInt16.toNat scrolled.nextLineIndex) ?_
      rw [sameRow]
      exact nextLine }

/-- A new line starts an empty line, and the window moves to hold it. -/
theorem Shows.newLine
    (shows' : Shows console fore back lines) :
    Shows (printChar console 10) fore back lines.newLine := by
  rcases Nat.lt_or_ge lines.done.length 24 with room | full
  · exact shows'.newLine_of_room room
  · exact shows'.newLine_of_full full

/-- A reset console shows one empty line. -/
theorem shows_resetVideoMemory (console : State) :
    Shows (resetVideoMemory console) console.foreColor console.backColor
      { done := [], current := [] } := by
  have cleared :=
    clearVgaBuffer_spec console console.foreColor console.backColor
  exact {
    foreColor := by
      simp only [resetVideoMemory]
      exact cleared.foreColor
    backColor := by
      simp only [resetVideoMemory]
      exact cleared.backColor
    cells := by
      intro row rowInside column columnInside
      have nothing : ([[]] : List (List UInt8)) = [] ++ [[]] := rfl
      simp only [resetVideoMemory, Lines.all, List.nil_append]
      rw [cleared.cells, if_pos (by omega), nothing, windowByte_concat_nil,
        windowByte_beyond (by simp)]
    index := by simp [resetVideoMemory, Lines.row]
    nextLine := by simp [resetVideoMemory, Lines.row] }

/-- The bytes of a short line are appended to the line being printed. -/
theorem Shows.printLine
    (shows' : Shows console fore back lines)
    (line : List UInt8)
    (short : (lines.current ++ line).length ≤ 79)
    (visible : ∀ ch ∈ line, Visible ch) :
    Shows (printChars console line) fore back
      { lines with current := lines.current ++ line } := by
  induction line generalizing console lines with
  | nil =>
      simpa [printChars] using shows'
  | cons ch rest inductionHypothesis =>
      have room : lines.current.length < 79 := by
        simp only [List.length_append, List.length_cons] at short
        omega
      have printed := shows'.visible (visible ch (by simp)) room
      have shortRest :
          ((lines.current ++ [ch]) ++ rest).length ≤ 79 := by
        simpa using short
      have visibleRest : ∀ ch ∈ rest, Visible ch :=
        fun other member => visible other (List.mem_cons_of_mem ch member)
      have shown := inductionHypothesis printed shortRest visibleRest
      simpa [printChars] using shown

/-- Printing further lines, each after a new line. -/
theorem Shows.printLines
    (shows' : Shows console fore back lines)
    (later : List (List UInt8))
    (short : ∀ line ∈ later, line.length ≤ 79)
    (visible : ∀ line ∈ later, ∀ ch ∈ line, Visible ch) :
    ∃ last,
      Shows
          (printChars console (later.flatMap fun line => 10 :: line))
          fore back last ∧
        last.all = lines.all ++ later := by
  induction later generalizing console lines with
  | nil =>
      exact ⟨lines, by simpa [printChars] using shows', by simp⟩
  | cons line rest inductionHypothesis =>
      have started :=
        shows'.newLine.printLine line
          (by simpa [Lines.newLine] using short line (by simp))
          (visible line (by simp))
      obtain ⟨last, shown, sameLines⟩ :=
        inductionHypothesis started
          (fun other member => short other (List.mem_cons_of_mem line member))
          (fun other member => visible other (List.mem_cons_of_mem line member))
      refine ⟨last, ?_, ?_⟩
      · simpa [printChars, List.foldl_append] using shown
      · simpa [Lines.all, Lines.newLine] using sameLines

/-- After visible characters and new lines the cursor is in the counted row. -/
theorem cursor_printChars
    {bytes : List UInt8}
    (printed : bytes ≠ [])
    (stored : ∀ ch ∈ bytes, ch = 10 ∨ Visible ch) :
    (printChars console bytes).crtc.cursor =
      (((printChars console bytes).nextLineIndex - 1) * 80 +
        (printChars console bytes).vgaIndex % 80).toNat := by
  rcases List.eq_nil_or_concat bytes with rfl | ⟨earlier, last, rfl⟩
  · exact absurd rfl printed
  · have final :
        printChars console (earlier.concat last) =
          printChar (printChars console earlier) last := by
      simp [printChars]
    rw [final]
    rcases stored last (by simp) with rfl | visible
    · exact cursor_newLine
    · exact cursor_visible visible

end Steps

/-- Lines joined by new lines, from the first line on. -/
theorem intercalate_newLine
    (line : List UInt8)
    (later : List (List UInt8)) :
    [(10 : UInt8)].intercalate (line :: later) =
      line ++ later.flatMap fun line => 10 :: line := by
  induction later generalizing line with
  | nil =>
      simp
  | cons second rest inductionHypothesis =>
      rw [List.intercalate_cons_cons, inductionHypothesis second]
      simp

/--
What the screen has of an entry of the buffer: the low byte is the character,
and the high byte its colors, the background in the upper four bits.
-/
structure Holds (entry : UInt16) (ch fore back : UInt8) : Prop where
  character : entry.toUInt8 = ch
  colors : (entry >>> 8).toUInt8 = back <<< 4 ||| fore

/-- A character and its colors are stored in separate bytes. -/
theorem bytes_of_entry (colors ch : UInt8) :
    (colors.toUInt16 <<< 8 ||| ch.toUInt16).toUInt8 = ch ∧
      ((colors.toUInt16 <<< 8 ||| ch.toUInt16) >>> 8).toUInt8 = colors := by
  constructor
  · apply UInt8.toBitVec_inj.mp
    ext bit inside
    simp
  · apply UInt8.toBitVec_inj.mp
    ext bit inside
    have inWord : 8 + bit < 16 := by omega
    have inByte : bit < 16 := by omega
    have high : ¬ 8 + bit < 8 := by omega
    simp [inWord, inByte, high, BitVec.getLsbD_eq_getElem inside]

/-- The entry that the source builds holds its character in its colors. -/
theorem holds_vgaEntry (ch fore back : UInt8) :
    Holds (vgaEntry ch fore back) ch fore back := by
  obtain ⟨character, colors⟩ := bytes_of_entry (back <<< 4 ||| fore) ch
  exact ⟨character, colors⟩

/--
The screen is the window of 25 lines that ends with the last of the lines:
each row holds the characters of its line and blank cells behind them, rows
behind the last line are blank, all in the same colors, and the index is
behind the last line.
-/
structure IsWindow
    (console : State)
    (fore back : UInt8)
    (lines : List (List UInt8)) :
    Prop where
  cells :
    ∀ row < 25,
      ∀ column < 80,
        Holds (console.vgaBuffer (row * 80 + column))
          (windowByte lines (lines.length - 1 - 24) row column) fore back
  index :
    console.vgaIndex.toNat =
      80 * ((lines.length - 1) - (lines.length - 1 - 24)) +
        (lines.getLastD []).length

/-- A console that shows its lines shows the window of all of them. -/
theorem Shows.isWindow
    {console : State}
    {fore back : UInt8}
    {lines : Lines}
    (shows' : Shows console fore back lines) :
    IsWindow console fore back lines.all where
  cells row rowInside column columnInside := by
    have cell := shows'.cells row rowInside column columnInside
    have first : lines.all.length - 1 - 24 = lines.first := by
      simp [Lines.all, Lines.first]
    rw [first, cell]
    exact holds_vgaEntry _ fore back
  index := by
    have index := shows'.index
    simp only [Lines.row, Lines.first] at index
    simp only [Lines.all, List.length_append, List.length_singleton,
      Nat.add_sub_cancel, List.getLastD_concat, index]
    omega

/-- Lines of visible bytes, joined by newlines, hold nothing else. -/
theorem newLine_or_visible_of_mem
    {line : List UInt8}
    {later : List (List UInt8)}
    {ch : UInt8}
    (visible : ∀ other ∈ line :: later, ∀ ch ∈ other, Visible ch)
    (member : ch ∈ [(10 : UInt8)].intercalate (line :: later)) :
    ch = 10 ∨ Visible ch := by
  rw [intercalate_newLine line later] at member
  simp only [List.mem_append, List.mem_flatMap, List.mem_cons] at member
  rcases member with inFirst | ⟨other, inLater, rfl | inOther⟩
  · exact .inr (visible line List.mem_cons_self ch inFirst)
  · exact .inl rfl
  · exact .inr (visible other (List.mem_cons_of_mem line inLater) ch inOther)

/--
Lines of at most 79 visible bytes, printed one after the other on a reset
screen, appear as the window of 25 lines that ends with the last of them, and
the cursor, once anything is printed, is at the index.
-/
theorem printChars_lines
    (console : State)
    (lines : List (List UInt8))
    (someLine : lines ≠ [])
    (short : ∀ line ∈ lines, line.length ≤ 79)
    (visible : ∀ line ∈ lines, ∀ ch ∈ line, Visible ch) :
    IsWindow
        (printChars (resetVideoMemory console) ([10].intercalate lines))
        console.foreColor console.backColor lines ∧
      ([(10 : UInt8)].intercalate lines ≠ [] →
        (printChars (resetVideoMemory console)
            ([10].intercalate lines)).crtc.cursor =
          (printChars (resetVideoMemory console)
            ([10].intercalate lines)).vgaIndex.toNat) := by
  cases lines with
  | nil =>
      exact absurd rfl someLine
  | cons line later =>
      have started :=
        (shows_resetVideoMemory console).printLine line
          (by simpa using short line (by simp)) (visible line (by simp))
      obtain ⟨last, shown, sameLines⟩ :=
        started.printLines later
          (fun other member => short other (List.mem_cons_of_mem line member))
          (fun other member => visible other (List.mem_cons_of_mem line member))
      have allLines : last.all = line :: later := by
        simpa [Lines.all] using sameLines
      have joined := intercalate_newLine line later
      have final :
          printChars (printChars (resetVideoMemory console) line)
              (later.flatMap fun line => 10 :: line) =
            printChars (resetVideoMemory console)
              ([10].intercalate (line :: later)) := by
        rw [joined]
        simp [printChars, List.foldl_append]
      rw [final] at shown
      constructor
      · have window := shown.isWindow
        rwa [allLines] at window
      · intro printed
        have stored :
            ∀ ch ∈ [(10 : UInt8)].intercalate (line :: later),
              ch = 10 ∨ Visible ch :=
          fun ch member => newLine_or_visible_of_mem visible member
        have shortLast : last.current.length < 80 := by
          have member : last.current ∈ line :: later := by
            simp [← allLines, Lines.all]
          have := short last.current member
          omega
        rw [cursor_printChars printed stored]
        exact shown.cursor shortLast

/-- Two short lines on a dark screen. -/
theorem printChars_lines_two :
    IsWindow
        (printChars
          (resetVideoMemory
            { vgaBuffer := fun _ => 0
              vgaIndex := 7
              nextLineIndex := 3
              foreColor := 15
              backColor := 0
              crtc := { selected := 0, registers := fun _ => 0 }
              stores := [] })
          ([10].intercalate [[0x48, 0x69], [0x6f, 0x6b]]))
        15 0 [[0x48, 0x69], [0x6f, 0x6b]] :=
  (printChars_lines _ [[0x48, 0x69], [0x6f, 0x6b]] (by simp) (by simp)
    (by simp [Visible])).1

end Relics.Console
