import Relics.CountedLoop

namespace Relics.Console

/-!
# The text console of `kio.c`

The static variables of the source are the fields of a record.  A store at an
index of `vga_buffer` outside the screen is recorded like any other, so
`stores` lists the indices of all stores, the latest first.  The cursor is
what the CRT controller was told through its two ports.
-/

open CountedLoop

/-- `VGA_LENGTH` -/
def vgaLength : Nat := 25

/-- `VGA_WIDTH` -/
def vgaWidth : Nat := 80

/-- `KIO_TABSIZE` -/
def kioTabsize : UInt16 := 4

/-- The CRT controller: its registers and the one that is selected. -/
structure Crtc where
  selected : UInt8
  registers : UInt8 → UInt8

/-- `outb` to the ports of the CRT controller -/
def Crtc.outb (crtc : Crtc) (port : UInt16) (data : UInt8) : Crtc :=
  if port = 0x3D4 then
    { crtc with selected := data }
  else if port = 0x3D5 then
    { crtc with
      registers := fun register =>
        if register = crtc.selected then data else crtc.registers register }
  else
    crtc

/-- The cursor position in registers 0x0E and 0x0F. -/
def Crtc.cursor (crtc : Crtc) : Nat :=
  256 * (crtc.registers 0x0E).toNat + (crtc.registers 0x0F).toNat

/-- The state of the console. -/
structure State where
  vgaBuffer : Nat → UInt16
  vgaIndex : UInt16
  nextLineIndex : UInt16
  foreColor : UInt8
  backColor : UInt8
  crtc : Crtc
  stores : List Nat

/-- `vga_buffer[index] = value` -/
def State.store (console : State) (index : Nat) (value : UInt16) : State :=
  { console with
    vgaBuffer := fun other =>
      if other = index then value else console.vgaBuffer other
    stores := index :: console.stores }

/-- `update_cursor` -/
def updateCursor (console : State) (x y : UInt16) : State :=
  let pos := y * 80 + x
  let crtc := console.crtc.outb 0x3D4 0x0F
  let crtc := crtc.outb 0x3D5 (pos &&& 0xFF).toUInt8
  let crtc := crtc.outb 0x3D4 0x0E
  let crtc := crtc.outb 0x3D5 (pos >>> 8 &&& 0xFF).toUInt8
  { console with crtc := crtc }

/-- `inb` from the data port of the CRT controller -/
def Crtc.inb (crtc : Crtc) : UInt8 :=
  crtc.registers crtc.selected

/-- `enable_cursor` -/
def enableCursor (console : State) (cursorStart cursorEnd : UInt8) : State :=
  let crtc := console.crtc.outb 0x3D4 0x0A
  let crtc := crtc.outb 0x3D5 (crtc.inb &&& 0xC0 ||| cursorStart)
  let crtc := crtc.outb 0x3D4 0x0B
  let crtc := crtc.outb 0x3D5 (crtc.inb &&& 0xE0 ||| cursorEnd)
  { console with crtc := crtc }

/-- `disable_cursor` -/
def disableCursor (console : State) : State :=
  let crtc := console.crtc.outb 0x3D4 0x0A
  let crtc := crtc.outb 0x3D5 0x20
  { console with crtc := crtc }

/-- `vga_entry` -/
def vgaEntry (ch foreColor backColor : UInt8) : UInt16 :=
  let ah := backColor <<< 4
  let ah := ah ||| foreColor
  let ax := ah.toUInt16
  let ax := ax <<< 8
  ax ||| ch.toUInt16

/-- The inner loop that writes blank cells to row `y`. -/
def clearRow
    (foreColor backColor : UInt8)
    (y : Nat)
    (console : State) :
    State :=
  loop
    (fun x console =>
      console.store (y * vgaWidth + x) (vgaEntry 0 foreColor backColor))
    console vgaWidth

/-- `clear_vga_buffer` -/
def clearVgaBuffer (console : State) (foreColor backColor : UInt8) : State :=
  loop (clearRow foreColor backColor) console vgaLength

/-- `reset_video_memory` -/
def resetVideoMemory (console : State) : State :=
  let console := clearVgaBuffer console console.foreColor console.backColor
  { console with vgaIndex := 0, nextLineIndex := 1 }

/-- The inner loop that copies row `y` to the row above it. -/
def copyRowUp (y : Nat) (console : State) : State :=
  loop
    (fun x console =>
      console.store ((y - 1) * vgaWidth + x)
        (console.vgaBuffer (y * vgaWidth + x)))
    console vgaWidth

/-- `scroll_vga_buffer`; its first loop starts at row 1 -/
def scrollVgaBuffer (console : State) (foreColor backColor : UInt8) : State :=
  let console :=
    loop (fun row console => copyRowUp (row + 1) console) console
      (vgaLength - 1)
  let console := clearRow foreColor backColor (vgaLength - 1) console
  { console with vgaIndex := 24 * 80 }

/-- `print_new_line` -/
def printNewLine (console : State) : State :=
  let console :=
    if console.nextLineIndex ≥ 25 then
      scrollVgaBuffer console console.foreColor console.backColor
    else
      { console with
        vgaIndex := 80 * console.nextLineIndex
        nextLineIndex := console.nextLineIndex + 1 }
  updateCursor console (console.vgaIndex % 80) (console.nextLineIndex - 1)

/-- `print_char` -/
def printChar (console : State) (ch : UInt8) : State :=
  if ch = 0 then
    console
  else if ch = 8 then
    let console := { console with vgaIndex := console.vgaIndex - 1 }
    let console :=
      console.store console.vgaIndex.toNat
        (vgaEntry 0x20 console.foreColor console.backColor)
    updateCursor console (console.vgaIndex % 80) (console.nextLineIndex - 1)
  else if ch = 10 then
    printNewLine console
  else if ch = 9 then
    let console :=
      { console with vgaIndex := console.vgaIndex + kioTabsize }
    updateCursor console (console.vgaIndex % 80) (console.nextLineIndex - 1)
  else
    let console :=
      console.store console.vgaIndex.toNat
        (vgaEntry ch console.foreColor console.backColor)
    let console := { console with vgaIndex := console.vgaIndex + 1 }
    let console :=
      if console.vgaIndex % 80 = 0 then
        { console with nextLineIndex := console.nextLineIndex + 1 }
      else
        console
    updateCursor console (console.vgaIndex % 80) (console.nextLineIndex - 1)

/-- `print_char` on each byte of a sequence in turn -/
def printChars (console : State) (bytes : List UInt8) : State :=
  bytes.foldl printChar console

/-- A character that is stored as it is. -/
def Visible (ch : UInt8) : Prop :=
  ch ≠ 0 ∧ ch ≠ 8 ∧ ch ≠ 10 ∧ ch ≠ 9

instance (ch : UInt8) : Decidable (Visible ch) :=
  inferInstanceAs (Decidable (_ ∧ _))

section Cursor

/-- The two bytes sent to the controller are those of the position. -/
theorem bytes_of_position (pos : UInt16) :
    256 * (pos >>> 8 &&& 0xFF).toUInt8.toNat + (pos &&& 0xFF).toUInt8.toNat =
      pos.toNat := by
  have bounded := pos.toNat_lt
  have low : pos.toNat &&& 255 = pos.toNat % 256 :=
    Nat.and_two_pow_sub_one_eq_mod _ 8
  have high : pos.toNat >>> 8 &&& 255 = pos.toNat / 256 % 256 := by
    rw [Nat.shiftRight_eq_div_pow]
    exact Nat.and_two_pow_sub_one_eq_mod _ 8
  simp only [UInt16.toNat_toUInt8, UInt16.toNat_and, UInt16.toNat_shiftRight,
    UInt16.reduceToNat, Nat.reduceMod, low, high]
  omega

/-- The cursor is where `update_cursor` put it. -/
theorem cursor_updateCursor
    (console : State)
    (x y : UInt16) :
    (updateCursor console x y).crtc.cursor = (y * 80 + x).toNat :=
  bytes_of_position (y * 80 + x)

/-- Moving the cursor changes nothing but the CRT controller. -/
@[simp] theorem vgaBuffer_updateCursor (console : State) (x y : UInt16) :
    (updateCursor console x y).vgaBuffer = console.vgaBuffer :=
  rfl

@[simp] theorem vgaIndex_updateCursor (console : State) (x y : UInt16) :
    (updateCursor console x y).vgaIndex = console.vgaIndex :=
  rfl

@[simp] theorem nextLineIndex_updateCursor (console : State) (x y : UInt16) :
    (updateCursor console x y).nextLineIndex = console.nextLineIndex :=
  rfl

@[simp] theorem foreColor_updateCursor (console : State) (x y : UInt16) :
    (updateCursor console x y).foreColor = console.foreColor :=
  rfl

@[simp] theorem backColor_updateCursor (console : State) (x y : UInt16) :
    (updateCursor console x y).backColor = console.backColor :=
  rfl

@[simp] theorem stores_updateCursor (console : State) (x y : UInt16) :
    (updateCursor console x y).stores = console.stores :=
  rfl

end Cursor

section Characters

variable
    {console : State}
    {ch : UInt8}

/-- The branches of `print_char`. -/
theorem character_cases (ch : UInt8) :
    ch = 0 ∨ ch = 8 ∨ ch = 10 ∨ ch = 9 ∨ Visible ch := by
  by_cases isNul : ch = 0
  · exact .inl isNul
  by_cases isBackspace : ch = 8
  · exact .inr (.inl isBackspace)
  by_cases isNewLine : ch = 10
  · exact .inr (.inr (.inl isNewLine))
  by_cases isTab : ch = 9
  · exact .inr (.inr (.inr (.inl isTab)))
  · exact .inr (.inr (.inr (.inr ⟨isNul, isBackspace, isNewLine, isTab⟩)))

/-- A visible character is stored at the index. -/
theorem vgaBuffer_visible
    (visible : Visible ch) :
    (printChar console ch).vgaBuffer =
      (console.store console.vgaIndex.toNat
        (vgaEntry ch console.foreColor console.backColor)).vgaBuffer := by
  obtain ⟨notNul, notBackspace, notNewLine, notTab⟩ := visible
  simp only [printChar, notNul, notBackspace, notNewLine, notTab, ↓reduceIte]
  split <;> rfl

theorem stores_visible
    (visible : Visible ch) :
    (printChar console ch).stores =
      console.vgaIndex.toNat :: console.stores := by
  obtain ⟨notNul, notBackspace, notNewLine, notTab⟩ := visible
  simp only [printChar, notNul, notBackspace, notNewLine, notTab, ↓reduceIte]
  split <;> rfl

/-- A visible character moves the index on. -/
theorem vgaIndex_visible
    (visible : Visible ch) :
    (printChar console ch).vgaIndex = console.vgaIndex + 1 := by
  obtain ⟨notNul, notBackspace, notNewLine, notTab⟩ := visible
  simp only [printChar, notNul, notBackspace, notNewLine, notTab, ↓reduceIte]
  split <;> rfl

/-- A visible character that ends a row counts the next one. -/
theorem nextLineIndex_visible
    (visible : Visible ch) :
    (printChar console ch).nextLineIndex =
      if (console.vgaIndex + 1) % 80 = 0 then
        console.nextLineIndex + 1
      else
        console.nextLineIndex := by
  obtain ⟨notNul, notBackspace, notNewLine, notTab⟩ := visible
  simp only [printChar, notNul, notBackspace, notNewLine, notTab, ↓reduceIte]
  split <;> simp_all [State.store]

theorem colors_visible
    (visible : Visible ch) :
    (printChar console ch).foreColor = console.foreColor ∧
      (printChar console ch).backColor = console.backColor := by
  obtain ⟨notNul, notBackspace, notNewLine, notTab⟩ := visible
  simp only [printChar, notNul, notBackspace, notNewLine, notTab, ↓reduceIte]
  split <;> exact ⟨rfl, rfl⟩

/-- After a visible character the cursor is at the index in its row. -/
theorem cursor_visible
    (visible : Visible ch) :
    (printChar console ch).crtc.cursor =
      (((printChar console ch).nextLineIndex - 1) * 80 +
        (printChar console ch).vgaIndex % 80).toNat := by
  obtain ⟨notNul, notBackspace, notNewLine, notTab⟩ := visible
  simp only [printChar, notNul, notBackspace, notNewLine, notTab, ↓reduceIte]
  exact cursor_updateCursor _ _ _

/-- A backspace stores a space one cell before the index. -/
theorem stores_backspace :
    (printChar console 8).stores =
      (console.vgaIndex - 1).toNat :: console.stores :=
  rfl

/-- A new line puts the cursor at the index in its row. -/
theorem cursor_newLine :
    (printChar console 10).crtc.cursor =
      (((printChar console 10).nextLineIndex - 1) * 80 +
        (printChar console 10).vgaIndex % 80).toNat := by
  have newLine : printChar console 10 = printNewLine console := rfl
  rw [newLine, printNewLine]
  exact cursor_updateCursor _ _ _

end Characters

end Relics.Console
