namespace Relics.Ps2Keyboard

/-!
# The keyboard driver

The statics of `ps2_keyboard.c`, the translation of a scan code to a
character, and the interrupt handler.  The handler leaves the character in a
mailbox of one character, which `get_most_recent_char` empties.
-/

/-- The statics of the driver. -/
structure Keyboard where
  /-- `char_pressed_state` -/
  charPressedState : Bool
  /-- `most_recent_char`, the mailbox; it is empty when it holds NUL -/
  mostRecentChar : UInt8
  isShifted : Bool
  isAlted : Bool
  isCtrled : Bool
  isCapsLocked : Bool
  deriving DecidableEq

/-- The statics before the first interrupt. -/
def initialKeyboard : Keyboard where
  charPressedState := false
  mostRecentChar := 0
  isShifted := false
  isAlted := false
  isCtrled := false
  isCapsLocked := false

/-- `add_character_pressed` -/
def addCharacterPressed (keyboard : Keyboard) : Keyboard :=
  { keyboard with charPressedState := !keyboard.charPressedState }

/-- `add_most_recent_char` -/
def addMostRecentChar (keyboard : Keyboard) (c : UInt8) : Keyboard :=
  { keyboard with mostRecentChar := c }

/-- The first half of `get_most_recent_char`: the value read into `tmp`. -/
def readMostRecentChar (keyboard : Keyboard) : UInt8 :=
  keyboard.mostRecentChar

/-- The second half of `get_most_recent_char`: the mailbox is cleared. -/
def clearMostRecentChar (keyboard : Keyboard) : Keyboard :=
  { keyboard with mostRecentChar := 0 }

/-- The `switch` of `to_character` for the letters in lower case. -/
def lowerCharacter (scanCode : UInt8) : UInt8 :=
  match scanCode with
  | 1 => 1
  | 2 => '1'.toUInt8
  | 3 => '2'.toUInt8
  | 4 => '3'.toUInt8
  | 5 => '4'.toUInt8
  | 6 => '5'.toUInt8
  | 7 => '6'.toUInt8
  | 8 => '7'.toUInt8
  | 9 => '8'.toUInt8
  | 10 => '9'.toUInt8
  | 11 => '0'.toUInt8
  | 12 => '-'.toUInt8
  | 13 => '='.toUInt8
  | 14 => 8 -- backspace
  | 15 => '\t'.toUInt8
  | 16 => 'q'.toUInt8
  | 17 => 'w'.toUInt8
  | 18 => 'e'.toUInt8
  | 19 => 'r'.toUInt8
  | 20 => 't'.toUInt8
  | 21 => 'y'.toUInt8
  | 22 => 'u'.toUInt8
  | 23 => 'i'.toUInt8
  | 24 => 'o'.toUInt8
  | 25 => 'p'.toUInt8
  | 26 => '['.toUInt8
  | 27 => ']'.toUInt8
  | 28 => '\n'.toUInt8
  | 30 => 'a'.toUInt8
  | 31 => 's'.toUInt8
  | 32 => 'd'.toUInt8
  | 33 => 'f'.toUInt8
  | 34 => 'g'.toUInt8
  | 35 => 'h'.toUInt8
  | 36 => 'j'.toUInt8
  | 37 => 'k'.toUInt8
  | 38 => 'l'.toUInt8
  | 39 => ';'.toUInt8
  | 40 => '\''.toUInt8
  | 41 => 96 -- grave accent
  | 43 => '\\'.toUInt8
  | 44 => 'z'.toUInt8
  | 45 => 'x'.toUInt8
  | 46 => 'c'.toUInt8
  | 47 => 'v'.toUInt8
  | 48 => 'b'.toUInt8
  | 49 => 'n'.toUInt8
  | 50 => 'm'.toUInt8
  | 51 => ','.toUInt8
  | 52 => '.'.toUInt8
  | 53 => '/'.toUInt8
  | 57 => ' '.toUInt8
  | _ => 0

/-- The `switch` of `to_character` for the letters in upper case. -/
def upperCharacter (scanCode : UInt8) : UInt8 :=
  match scanCode with
  | 1 => 1
  | 2 => '!'.toUInt8
  | 3 => '@'.toUInt8
  | 4 => '#'.toUInt8
  | 5 => '$'.toUInt8
  | 6 => '%'.toUInt8
  | 7 => '^'.toUInt8
  | 8 => '&'.toUInt8
  | 9 => '*'.toUInt8
  | 10 => '('.toUInt8
  | 11 => ')'.toUInt8
  | 12 => '_'.toUInt8
  | 13 => '+'.toUInt8
  | 14 => 8 -- backspace
  | 15 => '\t'.toUInt8
  | 16 => 'Q'.toUInt8
  | 17 => 'W'.toUInt8
  | 18 => 'E'.toUInt8
  | 19 => 'R'.toUInt8
  | 20 => 'T'.toUInt8
  | 21 => 'Y'.toUInt8
  | 22 => 'U'.toUInt8
  | 23 => 'I'.toUInt8
  | 24 => 'O'.toUInt8
  | 25 => 'P'.toUInt8
  | 26 => 123 -- opening brace
  | 27 => 125 -- closing brace
  | 28 => '\n'.toUInt8
  | 30 => 'A'.toUInt8
  | 31 => 'S'.toUInt8
  | 32 => 'D'.toUInt8
  | 33 => 'F'.toUInt8
  | 34 => 'G'.toUInt8
  | 35 => 'H'.toUInt8
  | 36 => 'J'.toUInt8
  | 37 => 'K'.toUInt8
  | 38 => 'L'.toUInt8
  | 39 => ':'.toUInt8
  | 40 => '"'.toUInt8
  | 41 => '~'.toUInt8
  | 43 => '|'.toUInt8
  | 44 => 'Z'.toUInt8
  | 45 => 'X'.toUInt8
  | 46 => 'C'.toUInt8
  | 47 => 'V'.toUInt8
  | 48 => 'B'.toUInt8
  | 49 => 'N'.toUInt8
  | 50 => 'M'.toUInt8
  | 51 => '<'.toUInt8
  | 52 => '>'.toUInt8
  | 53 => '?'.toUInt8
  | 57 => ' '.toUInt8
  | _ => 0

/-- `to_character`; a key that only changes a modifier gives NUL -/
def toCharacter (keyboard : Keyboard) (scanCode : UInt8) : Keyboard × UInt8 :=
  if scanCode = 0x3A then
    ({ keyboard with isCapsLocked := !keyboard.isCapsLocked }, 0)
  else if scanCode = 0x38 then
    ({ keyboard with isAlted := true }, 0)
  else if scanCode = 0xB8 then
    ({ keyboard with isAlted := false }, 0)
  else if scanCode = 0x2A then
    ({ keyboard with isShifted := true }, 0)
  else if scanCode = 0xAA then
    ({ keyboard with isShifted := false }, 0)
  else if scanCode = 0x1D then
    ({ keyboard with isCtrled := true }, 0)
  else if scanCode = 0x9D then
    ({ keyboard with isCtrled := false }, 0)
  else if (!keyboard.isShifted && !keyboard.isCapsLocked) ||
      (keyboard.isShifted && keyboard.isCapsLocked) then
    (keyboard, lowerCharacter scanCode)
  else if keyboard.isCapsLocked || keyboard.isShifted then
    (keyboard, upperCharacter scanCode)
  else
    (keyboard, 0)

/-- `kbd_irq_handler` on the scan code it reads from port 0x60 -/
def kbdIrqHandler (keyboard : Keyboard) (scanCode : UInt8) : Keyboard :=
  let keyboard := addCharacterPressed keyboard
  let (keyboard, c) := toCharacter keyboard scanCode
  addMostRecentChar keyboard c

/-- The character `to_character` produces in the handler. -/
def handled (keyboard : Keyboard) (scanCode : UInt8) : UInt8 :=
  (toCharacter (addCharacterPressed keyboard) scanCode).2

/-- The handler leaves the character it produced in the mailbox. -/
@[simp]
theorem kbdIrqHandler_mostRecentChar
    (keyboard : Keyboard)
    (scanCode : UInt8) :
    (kbdIrqHandler keyboard scanCode).mostRecentChar =
      handled keyboard scanCode :=
  rfl

/-- Clearing the mailbox leaves NUL in it. -/
@[simp]
theorem clearMostRecentChar_mostRecentChar (keyboard : Keyboard) :
    (clearMostRecentChar keyboard).mostRecentChar = 0 :=
  rfl

/-- The letters of the two tables are the same keys. -/
theorem upperCharacter_eq_zero (scanCode : UInt8) :
    upperCharacter scanCode = 0 ↔ lowerCharacter scanCode = 0 := by
  obtain ⟨code⟩ := scanCode
  revert code
  decide +kernel

/-- A scan code without a character: a modifier, a release or an unused code. -/
def Silent (scanCode : UInt8) : Prop :=
  scanCode ∈ [0x3A, 0x38, 0xB8, 0x2A, 0xAA, 0x1D, 0x9D] ∨
    lowerCharacter scanCode = 0

instance (scanCode : UInt8) : Decidable (Silent scanCode) :=
  inferInstanceAs (Decidable (_ ∨ _))

/-- Whether a key produces a character does not depend on the modifiers. -/
theorem handled_eq_zero
    (keyboard : Keyboard)
    (scanCode : UInt8) :
    handled keyboard scanCode = 0 ↔ Silent scanCode := by
  have tables := upperCharacter_eq_zero scanCode
  unfold handled toCharacter Silent addCharacterPressed
  cases keyboard.isShifted <;> cases keyboard.isCapsLocked <;>
    simp <;> grind

end Relics.Ps2Keyboard
