import Relics.ConsoleCursor

namespace Relics.Console

/-!
# Which texts store outside the screen

`print_char` checks neither end of the screen.  Which cell a character of a
text is for can be counted from the text alone, by a pen that moves over the
cells and counts the rows that are begun.  A visible character is written where
the pen is, also behind the last cell, since the end of a row only counts the
row and never scrolls.  A backspace is written one cell before the pen, which
is cell 65535 at the first one.
-/

/-- The cell of the next character and the number of rows begun, in 16 bits -/
structure Pen where
  cell : Nat
  rows : Nat

namespace Pen

/-- The pen at the start of the first row -/
def start : Pen where
  cell := 0
  rows := 1

/-- Where the pen is after a character. -/
def write (pen : Pen) (ch : UInt8) : Pen :=
  if ch = 0 then
    pen
  else if ch = 8 then
    { pen with cell := (pen.cell + 65535) % 65536 }
  else if ch = 10 then
    -- behind the last row the screen scrolls, and the row stays
    if pen.rows < 25 then
      { cell := 80 * pen.rows, rows := pen.rows + 1 }
    else
      { pen with cell := 80 * 24 }
  else if ch = 9 then
    { pen with cell := (pen.cell + 4) % 65536 }
  else
    let cell := (pen.cell + 1) % 65536
    { cell := cell
      rows := if cell % 80 = 0 then (pen.rows + 1) % 65536 else pen.rows }

/-- Where the pen is after a text. -/
def writeAll (pen : Pen) (text : List UInt8) : Pen :=
  text.foldl write pen

/-- The cell that a character is for, if it is for one, is on the screen. -/
structure OnScreen (pen : Pen) (ch : UInt8) : Prop where
  visible : Visible ch → pen.cell < 2000
  backspace : ch = 8 → 1 ≤ pen.cell ∧ pen.cell ≤ 2000

/-- Each character of a text is for a cell of the screen. -/
def StaysInside (pen : Pen) (text : List UInt8) : Prop :=
  ∀ earlier ch later,
    text = earlier ++ ch :: later → (pen.writeAll earlier).OnScreen ch

section Texts

variable
    {pen : Pen}
    {ch : UInt8}
    {text : List UInt8}

theorem write_visible (visible : Visible ch) :
    pen.write ch =
      { cell := (pen.cell + 1) % 65536
        rows :=
          if (pen.cell + 1) % 65536 % 80 = 0 then
            (pen.rows + 1) % 65536
          else
            pen.rows } := by
  obtain ⟨notNul, notBackspace, notNewLine, notTab⟩ := visible
  simp only [write, notNul, notBackspace, notNewLine, notTab, ↓reduceIte]

theorem write_backspace :
    pen.write 8 = { pen with cell := (pen.cell + 65535) % 65536 } := by
  simp [write]

theorem write_newLine :
    pen.write 10 =
      if pen.rows < 25 then
        { cell := 80 * pen.rows, rows := pen.rows + 1 }
      else
        { pen with cell := 80 * 24 } := by
  simp [write]

theorem write_tab :
    pen.write 9 = { pen with cell := (pen.cell + 4) % 65536 } := by
  simp [write]

theorem staysInside_nil : pen.StaysInside [] := by
  intro earlier ch later split
  simp at split

theorem staysInside_cons :
    pen.StaysInside (ch :: text) ↔
      pen.OnScreen ch ∧ (pen.write ch).StaysInside text := by
  constructor
  · intro inside
    refine ⟨inside [] ch text rfl, ?_⟩
    intro earlier other behind split
    exact inside (ch :: earlier) other behind (by rw [split, List.cons_append])
  · rintro ⟨first, rest⟩ earlier other behind split
    cases earlier with
    | nil =>
        obtain ⟨rfl, -⟩ := List.cons.inj split
        exact first
    | cons _ earlier =>
        obtain ⟨rfl, sameText⟩ := List.cons.inj split
        exact rest earlier other behind sameText

/-- Visible characters only move the pen on. -/
theorem cell_replicate
    (visible : Visible ch)
    (count : Nat) :
    (start.writeAll (List.replicate count ch)).cell = count % 65536 := by
  induction count with
  | zero =>
      rfl
  | succ count inductionHypothesis =>
      have last :
          start.writeAll (List.replicate (count + 1) ch) =
            (start.writeAll (List.replicate count ch)).write ch := by
        simp [writeAll, List.replicate_succ']
      rw [last, write_visible visible, inductionHypothesis, Nat.mod_add_mod]

instance : Decidable (pen.OnScreen ch) :=
  decidable_of_iff
    ((Visible ch → pen.cell < 2000) ∧
      (ch = 8 → 1 ≤ pen.cell ∧ pen.cell ≤ 2000))
    ⟨fun inside => ⟨inside.1, inside.2⟩,
      fun inside => ⟨inside.visible, inside.backspace⟩⟩

instance decidableStaysInside :
    (pen : Pen) →
    (text : List UInt8) →
    Decidable (pen.StaysInside text)
  | _, [] => isTrue staysInside_nil
  | pen, ch :: text =>
      have := decidableStaysInside (pen.write ch) text
      decidable_of_iff _ staysInside_cons.symm

end Texts

end Pen

/-- The console `reset_video_memory` leaves, with no store recorded yet. -/
def freshConsole (console : State) : State :=
  { resetVideoMemory console with stores := [] }

/-- The counters of the console are where the pen is. -/
structure Follows (console : State) (pen : Pen) : Prop where
  cell : console.vgaIndex.toNat = pen.cell
  rows : console.nextLineIndex.toNat = pen.rows

section Characters

variable
    {console first second : State}
    {pen : Pen}
    {ch : UInt8}

/-- Whether all stores were on the screen depends on the stores only. -/
theorem storesInside_congr
    (same : first.stores = second.stores) :
    StoresInside first ↔ StoresInside second := by
  simp only [StoresInside, same]

/-- Characters that are not stored are on the screen anywhere. -/
theorem onScreen_of_unstored
    (notBackspace : ch ≠ 8)
    (notVisible : ¬Visible ch) :
    pen.OnScreen ch where
  visible isVisible := absurd isVisible notVisible
  backspace isBackspace := absurd isBackspace notBackspace

/-- A new line stores to cells of the screen only. -/
theorem storesInside_printNewLine :
    StoresInside (printNewLine console) ↔ StoresInside console := by
  by_cases atBottom : console.nextLineIndex ≥ 25
  · exact (printNewLine_of_bottom console atBottom).stores
  · exact (printNewLine_of_above console atBottom).stores

/-- A backspace goes one cell back, in 16 bits. -/
theorem cell_backspace (follows : Follows console pen) :
    (console.vgaIndex - 1).toNat = (pen.cell + 65535) % 65536 := by
  rw [UInt16.toNat_sub, follows.cell, Nat.add_comm]
  rfl

/-- The console follows the pen over a character. -/
theorem Follows.write (follows : Follows console pen) :
    Follows (printChar console ch) (pen.write ch) := by
  rcases character_cases ch with rfl | rfl | rfl | rfl | isVisible
  · exact follows
  · rw [Pen.write_backspace]
    exact ⟨cell_backspace follows, follows.rows⟩
  · have rows := follows.rows
    rw [Pen.write_newLine]
    obtain ⟨bottom, index, counted⟩ | ⟨above, index, counted⟩ :=
      newLine_cases console
    · rw [if_neg (by omega)]
      exact ⟨index, by rw [counted, rows]⟩
    · rw [if_pos (by omega)]
      exact ⟨by rw [index, rows], by rw [counted, rows]⟩
  · rw [Pen.write_tab]
    have index : (console.vgaIndex + 4).toNat = (pen.cell + 4) % 65536 := by
      rw [UInt16.toNat_add, follows.cell]
      rfl
    exact ⟨index, follows.rows⟩
  · have index :
        (console.vgaIndex + 1).toNat = (pen.cell + 1) % 65536 := by
      rw [UInt16.toNat_add, follows.cell]
      rfl
    have endsRow :
        (console.vgaIndex + 1) % 80 = 0 ↔ (pen.cell + 1) % 65536 % 80 = 0 := by
      rw [← UInt16.toNat_inj, UInt16.toNat_mod, index]
      rfl
    rw [Pen.write_visible isVisible]
    constructor
    · rw [vgaIndex_visible isVisible]
      exact index
    · rw [nextLineIndex_visible isVisible]
      simp only [endsRow]
      split
      · rw [UInt16.toNat_add, follows.rows]
        rfl
      · exact follows.rows

/-- One character stores on the screen exactly when it is for a cell of it. -/
theorem storesInside_printChar (follows : Follows console pen) :
    StoresInside (printChar console ch) ↔
      pen.OnScreen ch ∧ StoresInside console := by
  rcases character_cases ch with rfl | rfl | rfl | rfl | isVisible
  · exact
      (and_iff_right (onScreen_of_unstored (by decide) (by decide))).symm
  · have target :
        (console.vgaIndex - 1).toNat < 2000 ↔ pen.OnScreen 8 := by
      have bounded := console.vgaIndex.toNat_lt
      rw [follows.cell] at bounded
      rw [cell_backspace follows]
      constructor
      · intro inside
        exact ⟨fun visible => absurd visible (by decide), fun _ => by omega⟩
      · intro onScreen
        have := onScreen.backspace rfl
        omega
    rw [← target]
    simp [StoresInside, stores_backspace]
  · have newLine : printChar console 10 = printNewLine console := rfl
    rw [newLine, storesInside_printNewLine]
    exact
      (and_iff_right (onScreen_of_unstored (by decide) (by decide))).symm
  · have stores : (printChar console 9).stores = console.stores := rfl
    rw [storesInside_congr stores]
    exact
      (and_iff_right (onScreen_of_unstored (by decide) (by decide))).symm
  · have target : console.vgaIndex.toNat < 2000 ↔ pen.OnScreen ch := by
      rw [follows.cell]
      constructor
      · intro inside
        exact ⟨fun _ => inside,
          fun isBackspace => absurd isBackspace isVisible.2.1⟩
      · intro onScreen
        exact onScreen.visible isVisible
    rw [← target]
    simp [StoresInside, stores_visible isVisible]

/-- A text stores on the screen when each of its characters does. -/
theorem storesInside_printChars
    (follows : Follows console pen)
    (text : List UInt8) :
    StoresInside (printChars console text) ↔
      pen.StaysInside text ∧ StoresInside console := by
  induction text generalizing console pen with
  | nil =>
      exact (and_iff_right Pen.staysInside_nil).symm
  | cons ch text inductionHypothesis =>
      have later :
          StoresInside (printChars (printChar console ch) text) ↔
            (pen.write ch).StaysInside text ∧
              StoresInside (printChar console ch) :=
        inductionHypothesis follows.write
      rw [Pen.staysInside_cons, printChars, List.foldl_cons]
      refine later.trans ?_
      rw [storesInside_printChar follows, and_left_comm, ← and_assoc]

/-- The pen starts where a reset console does. -/
theorem follows_freshConsole (console : State) :
    Follows (freshConsole console) .start :=
  ⟨rfl, rfl⟩

end Characters

/--
From the console `reset_video_memory` leaves, a text is stored on the screen
only, exactly when the pen finds a cell of the screen for each of its
characters.
-/
theorem printChars_storesInside_iff
    (console : State)
    (text : List UInt8) :
    StoresInside (printChars (freshConsole console) text) ↔
      Pen.start.StaysInside text := by
  have noneYet : StoresInside (freshConsole console) :=
    List.forall_mem_nil _
  rw [storesInside_printChars (follows_freshConsole console)]
  exact and_iff_left noneYet

/-- A console whose cells are all 0. -/
def darkConsole : State where
  vgaBuffer := fun _ => 0
  vgaIndex := 0
  nextLineIndex := 1
  foreColor := 15
  backColor := 0
  crtc := { selected := 0, registers := fun _ => 0 }
  stores := []

/--
A backspace at the first cell is stored outside the screen, and so is the
character after a full screen of visible ones.
-/
theorem not_storesInside_darkConsole :
    ¬StoresInside (printChars (freshConsole darkConsole) [8]) ∧
      ¬StoresInside
        (printChars (freshConsole darkConsole) (List.replicate 2001 0x61)) := by
  have follows := follows_freshConsole darkConsole
  constructor
  · rw [storesInside_printChars follows]
    rintro ⟨inside, -⟩
    exact absurd inside (by decide)
  · rw [storesInside_printChars follows]
    rintro ⟨inside, -⟩
    have visible : Visible 0x61 := by
      decide
    have onScreen :=
      inside (List.replicate 2000 0x61) 0x61 [] List.replicate_succ'
    have cell := onScreen.visible visible
    rw [Pen.cell_replicate visible] at cell
    exact absurd cell (by decide)

end Relics.Console
