import Relics.KeyboardMailbox
import Relics.Transducer

namespace Relics.Ps2Keyboard

/-!
# The keys behind the scan codes

A keyboard sends one scan code when a key is pressed and another one when it
is released, with a prefix for the keys that were added later.  The driver
sees the scan codes only.  Here it is compared with a typist, who knows which
keys are held down.
-/

open Transducer

/-- A key that is pressed or released. -/
structure KeyEvent where
  /-- the scan code has the prefix 0xE0 -/
  extended : Bool
  key : Fin 128
  pressed : Bool
  deriving DecidableEq

/-- The scan code of a key that goes down or up -/
def sent (key : Fin 128) (pressed : Bool) : UInt8 :=
  if pressed then UInt8.ofNat key.val else UInt8.ofNat key.val + 0x80

/-- The scan codes that a keyboard sends. -/
def KeyEvent.scanCodes (event : KeyEvent) : List UInt8 :=
  if event.extended then
    [0xE0, sent event.key event.pressed]
  else
    [sent event.key event.pressed]

/-- The left shift key; the right one, 0x36, is not known to the driver. -/
def shiftKey : Fin 128 :=
  ⟨0x2A, by decide⟩

def altKey : Fin 128 :=
  ⟨0x38, by decide⟩

def ctrlKey : Fin 128 :=
  ⟨0x1D, by decide⟩

def capsLockKey : Fin 128 :=
  ⟨0x3A, by decide⟩

/-- A key is held down if it went down when it last moved. -/
def held (history : List KeyEvent) (key : Fin 128) : Bool :=
  (history.filter fun event => event.key = key).getLast?.any KeyEvent.pressed

/-- Caps lock is on if its key went down an odd number of times. -/
def capsLocked (history : List KeyEvent) : Bool :=
  (history.countP fun event => event.pressed && event.key = capsLockKey) % 2 = 1

/-- Keys side by side, with the characters printed on them -/
structure KeyRow where
  /-- the scan code of the key on the left -/
  first : Nat
  lower : String
  upper : String

/-- The keys of a US keyboard with a printable character -/
def keyRows : List KeyRow :=
  [ { first := 0x02, lower := "1234567890-=", upper := "!@#$%^&*()_+" },
    { first := 0x10, lower := "qwertyuiop[]", upper := "QWERTYUIOP\x7b\x7d" },
    { first := 0x1E, lower := "asdfghjkl;'", upper := "ASDFGHJKL:\"" },
    { first := 0x2C, lower := "zxcvbnm,./", upper := "ZXCVBNM<>?" },
    -- left of the digits, right of the letters, and the space bar
    { first := 0x29, lower := "`", upper := "~" },
    { first := 0x2B, lower := "\\", upper := "|" },
    { first := 0x39, lower := " ", upper := " " } ]

/-- Escape, which types the character 1, backspace, tab and enter -/
def controlKeys : List (Nat × UInt8) :=
  [(0x01, 1), (0x0E, 8), (0x0F, 9), (0x1C, 10)]

/-- The character of a key in a row, if the key is in the row -/
def KeyRow.character
    (row : KeyRow)
    (upper : Bool)
    (code : Nat) :
    Option UInt8 :=
  if row.first ≤ code then
    let printed := if upper then row.upper else row.lower
    printed.toList[code - row.first]?.map Char.toUInt8
  else
    none

/--
What is printed on a key of a US keyboard, in lower and in upper case, and
NUL for a key without a character
-/
def legend (upper : Bool) (key : Fin 128) : UInt8 :=
  match controlKeys.lookup key.val with
  | some control => control
  | none =>
      (keyRows.findSome? fun row => row.character upper key.val).getD 0

/-- A key that goes down types what is printed on it. -/
def characters (history : List KeyEvent) (event : KeyEvent) : List UInt8 :=
  if event.pressed then
    written
      (legend (held history shiftKey != capsLocked history) event.key)
  else
    []

/-- The typist, who remembers all that the keys did. -/
def typist : Machine (List KeyEvent) KeyEvent UInt8 where
  next history event := history ++ [event]
  output := characters

/-- The interrupt handler with the characters it leaves in the mailbox. -/
def driver : Machine Keyboard UInt8 UInt8 where
  next := kbdIrqHandler
  output keyboard scanCode := written (handled keyboard scanCode)

section Driver

variable (keyboard : Keyboard)
variable (scanCode : UInt8)

/-- The scan codes that `to_character` compares with before the tables. -/
def modifierCodes : List UInt8 :=
  [0x3A, 0x38, 0xB8, 0x2A, 0xAA, 0x1D, 0x9D]

/-- Any other scan code leaves the modifiers alone and is looked up. -/
theorem toCharacter_other
    (other : scanCode ∉ modifierCodes) :
    toCharacter keyboard scanCode =
      (keyboard,
        if keyboard.isShifted != keyboard.isCapsLocked then
          upperCharacter scanCode
        else
          lowerCharacter scanCode) := by
  simp only [modifierCodes, List.mem_cons, List.not_mem_nil, or_false,
    not_or] at other
  obtain ⟨notCapsLock, notAlt, notAltUp, notShift, notShiftUp, notCtrl,
    notCtrlUp⟩ := other
  unfold toCharacter
  simp only [notCapsLock, notAlt, notAltUp, notShift, notShiftUp, notCtrl,
    notCtrlUp, ↓reduceIte]
  cases keyboard.isShifted with
  | false =>
      cases keyboard.isCapsLocked with
      | false =>
          rfl
      | true =>
          rfl
  | true =>
      cases keyboard.isCapsLocked with
      | false =>
          rfl
      | true =>
          rfl

/-- No character is printed on the modifier keys. -/
theorem handled_eq :
    handled keyboard scanCode =
      if keyboard.isShifted != keyboard.isCapsLocked then
        upperCharacter scanCode
      else
        lowerCharacter scanCode := by
  by_cases modifier : scanCode ∈ modifierCodes
  · simp only [modifierCodes, List.mem_cons, List.not_mem_nil, or_false]
      at modifier
    have noUpper : upperCharacter scanCode = 0 := by
      rcases modifier with rfl | rfl | rfl | rfl | rfl | rfl | rfl
      all_goals rfl
    have noLower : lowerCharacter scanCode = 0 :=
      (upperCharacter_eq_zero scanCode).mp noUpper
    rw [noUpper, noLower, ite_self]
    rcases modifier with rfl | rfl | rfl | rfl | rfl | rfl | rfl
    all_goals rfl
  · rw [handled, toCharacter_other _ _ modifier]
    rfl

/-- The modifiers of a keyboard, in the order of the source -/
def modifiers (keyboard : Keyboard) : Bool × Bool × Bool × Bool :=
  (keyboard.isShifted, keyboard.isAlted, keyboard.isCtrled,
    keyboard.isCapsLocked)

/-- What a scan code does to the modifiers -/
def modified (keyboard : Keyboard) (scanCode : UInt8) :
    Bool × Bool × Bool × Bool :=
  (if scanCode = 0x2A then true
    else if scanCode = 0xAA then false
    else keyboard.isShifted,
    if scanCode = 0x38 then true
    else if scanCode = 0xB8 then false
    else keyboard.isAlted,
    if scanCode = 0x1D then true
    else if scanCode = 0x9D then false
    else keyboard.isCtrled,
    if scanCode = 0x3A then !keyboard.isCapsLocked
    else keyboard.isCapsLocked)

/-- Each modifier is changed by its own scan codes only. -/
theorem modifiers_kbdIrqHandler :
    modifiers (kbdIrqHandler keyboard scanCode) =
      modified keyboard scanCode := by
  by_cases modifier : scanCode ∈ modifierCodes
  · simp only [modifierCodes, List.mem_cons, List.not_mem_nil, or_false]
      at modifier
    rcases modifier with rfl | rfl | rfl | rfl | rfl | rfl | rfl
    all_goals rfl
  · simp only [kbdIrqHandler, toCharacter_other _ _ modifier]
    simp only [modifierCodes, List.mem_cons, List.not_mem_nil, or_false,
      not_or] at modifier
    obtain ⟨notCapsLock, notAlt, notAltUp, notShift, notShiftUp, notCtrl,
      notCtrlUp⟩ := modifier
    simp [modifiers, modified, addMostRecentChar, addCharacterPressed,
      notCapsLock, notAlt, notAltUp, notShift, notShiftUp, notCtrl, notCtrlUp]

/-- The prefix changes no modifier and has no character. -/
theorem driver_extended :
    modifiers (driver.next keyboard 0xE0) = modifiers keyboard ∧
      driver.output keyboard 0xE0 = [] := by
  constructor
  · exact modifiers_kbdIrqHandler keyboard 0xE0
  · have noCharacter : handled keyboard 0xE0 = 0 :=
      (handled_eq_zero keyboard 0xE0).mpr (.inr rfl)
    simp only [driver, noCharacter, written_zero]

end Driver

section Codes

/-- Each of the driver's scan codes comes from one key. -/
theorem sent_eq_iff (key : Fin 128) (pressed : Bool) :
    (sent key pressed = 0x2A ↔ key = shiftKey ∧ pressed = true) ∧
      (sent key pressed = 0xAA ↔ key = shiftKey ∧ pressed = false) ∧
      (sent key pressed = 0x38 ↔ key = altKey ∧ pressed = true) ∧
      (sent key pressed = 0xB8 ↔ key = altKey ∧ pressed = false) ∧
      (sent key pressed = 0x1D ↔ key = ctrlKey ∧ pressed = true) ∧
      (sent key pressed = 0x9D ↔ key = ctrlKey ∧ pressed = false) ∧
      (sent key pressed = 0x3A ↔ key = capsLockKey ∧ pressed = true) := by
  revert key pressed
  decide +kernel

/-- The tables of the driver have what is printed on the keys. -/
theorem character_eq_legend (upper : Bool) (key : Fin 128) :
    (if upper then
        upperCharacter (sent key true)
      else
        lowerCharacter (sent key true)) =
      legend upper key := by
  revert upper key
  decide +kernel

/-- A key that goes up has no character. -/
theorem lowerCharacter_released (key : Fin 128) :
    lowerCharacter (sent key false) = 0 := by
  revert key
  decide +kernel

end Codes

section Following

variable (history : List KeyEvent)
variable (event : KeyEvent)
variable (key : Fin 128)

/-- Only its own last event matters for a key. -/
theorem held_append :
    held (history ++ [event]) key =
      if event.key = key then event.pressed else held history key := by
  unfold held
  rw [List.filter_append]
  by_cases same : event.key = key
  · simp [same]
  · simp [same]

/-- The caps lock key switches when it goes down. -/
theorem capsLocked_append :
    capsLocked (history ++ [event]) =
      if event.key = capsLockKey ∧ event.pressed = true then
        !capsLocked history
      else
        capsLocked history := by
  unfold capsLocked
  rw [List.countP_append, List.countP_singleton]
  by_cases switches : event.key = capsLockKey ∧ event.pressed = true
  · simp only [switches, Bool.and_self, decide_true, ↓reduceIte, and_self]
    rcases Nat.mod_two_eq_zero_or_one
      (history.countP fun event =>
        event.pressed && event.key = capsLockKey) with even | odd
    · simp [Nat.add_mod, even]
    · simp [Nat.add_mod, odd]
  · have noPress :
        (event.pressed && decide (event.key = capsLockKey)) = false := by
      rw [Bool.and_eq_false_iff, decide_eq_false_iff_not, Bool.eq_false_iff]
      tauto
    simp [noPress, switches]

variable {history}
variable {keyboard : Keyboard}

/-- The driver knows which modifiers are held down, and the caps lock. -/
def Follows (keyboard : Keyboard) (history : List KeyEvent) : Prop :=
  modifiers keyboard =
    (held history shiftKey, held history altKey, held history ctrlKey,
      capsLocked history)

/-- The driver follows a key that goes down or up. -/
theorem Follows.sent (follows : Follows keyboard history) :
    Follows (driver.next keyboard (sent event.key event.pressed))
        (typist.next history event) ∧
      driver.output keyboard (sent event.key event.pressed) =
        typist.output history event := by
  obtain ⟨extended, key, pressed⟩ := event
  obtain ⟨shifts, unshifts, alts, unalts, ctrls, unctrls, locks⟩ :=
    sent_eq_iff key pressed
  have knows := follows
  simp only [Follows, modifiers, Prod.mk.injEq] at knows
  obtain ⟨shifted, alted, ctrled, locked⟩ := knows
  constructor
  · have changed :=
      modifiers_kbdIrqHandler keyboard (Ps2Keyboard.sent key pressed)
    rw [Follows, driver, changed, modified]
    simp only [shifts, unshifts, alts, unalts, ctrls, unctrls, locks,
      shifted, alted, ctrled, locked, typist, held_append, capsLocked_append,
      Prod.mk.injEq]
    cases pressed with
    | true =>
        simp
    | false =>
        simp
  · simp only [driver, typist, handled_eq, shifted, locked, characters]
    cases pressed with
    | true =>
        rw [character_eq_legend]
        rfl
    | false =>
        have noLower := lowerCharacter_released key
        have noUpper := (upperCharacter_eq_zero _).mpr noLower
        simp [noLower, noUpper]

/-- The driver follows the typist from key to key. -/
theorem driver_simulates_typist :
    Simulates driver typist KeyEvent.scanCodes Follows where
  related := by
    intro keyboard history event follows
    cases prefixed : event.extended with
    | false =>
        simpa [KeyEvent.scanCodes, prefixed] using (follows.sent event).1
    | true =>
        have still : Follows (driver.next keyboard 0xE0) history :=
          (driver_extended keyboard).1.trans follows
        simpa [KeyEvent.scanCodes, prefixed] using (still.sent event).1
  outputs := by
    intro keyboard history event follows
    cases prefixed : event.extended with
    | false =>
        simpa [KeyEvent.scanCodes, prefixed] using (follows.sent event).2
    | true =>
        have still : Follows (driver.next keyboard 0xE0) history :=
          (driver_extended keyboard).1.trans follows
        simpa [KeyEvent.scanCodes, prefixed, (driver_extended keyboard).2]
          using (still.sent event).2

/-- The typist remembers everything. -/
theorem final_typist (history events : List KeyEvent) :
    typist.final history events = history ++ events := by
  induction events generalizing history with
  | nil =>
      simp
  | cons event events inductionHypothesis =>
      have later := inductionHypothesis (history ++ [event])
      rw [List.append_assoc] at later
      exact later

/--
Whatever keys go down and up from boot on, in any order and any number of
times: the driver's modifiers are those that are held down at the end, with
the parity of the caps lock, and its characters are those that are printed on
the keys that went down, in the case of the left shift key and the caps lock
then.
-/
theorem driver_followsKeys (events : List KeyEvent) :
    modifiers
        (driver.final initialKeyboard (events.flatMap KeyEvent.scanCodes)) =
        (held events shiftKey, held events altKey, held events ctrlKey,
          capsLocked events) ∧
      driver.outputs initialKeyboard (events.flatMap KeyEvent.scanCodes) =
        typist.outputs [] events := by
  have initially : Follows initialKeyboard [] :=
    rfl
  obtain ⟨follows, sameOutputs⟩ :=
    driver_simulates_typist.run initially events
  rw [final_typist] at follows
  exact ⟨follows, sameOutputs⟩

end Following

end Relics.Ps2Keyboard
