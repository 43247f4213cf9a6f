import Relics.KeyboardKeys

namespace Relics.Ps2Keyboard

/-!
# The texts that can be typed

A text goes from the keys through the scan codes, the interrupts and the
mailbox to the caller of `getchark`.  The texts that can arrive there are
those of the characters that are printed on the keys.
-/

open LabelledRun Transducer

section Produced

/-- The scan code of an interrupt -/
def Event.scanCode? : Event → Option UInt8
  | .interrupt scanCode => some scanCode
  | .read => none
  | .clear => none
  | .test => none

/-- The scan codes of the interrupts among some events. -/
def scanCodes (events : List Event) : List UInt8 :=
  events.filterMap Event.scanCode?

theorem scanCodes_interrupt (events : List Event) (scanCode : UInt8) :
    scanCodes (events ++ [.interrupt scanCode]) =
      scanCodes events ++ [scanCode] :=
  List.filterMap_append

theorem scanCodes_other
    (events : List Event)
    {event : Event}
    (other : event.scanCode? = none) :
    scanCodes (events ++ [event]) = scanCodes events := by
  simp [scanCodes, other]

variable {keyboard keyboard' : Keyboard}

/-- A character and the next modifiers depend on the modifiers only. -/
theorem driver_congr
    (same : modifiers keyboard = modifiers keyboard')
    (scanCode : UInt8) :
    modifiers (driver.next keyboard scanCode) =
        modifiers (driver.next keyboard' scanCode) ∧
      driver.output keyboard scanCode = driver.output keyboard' scanCode := by
  simp only [modifiers, Prod.mk.injEq] at same
  obtain ⟨shifted, alted, ctrled, locked⟩ := same
  constructor
  · have changed := modifiers_kbdIrqHandler keyboard scanCode
    rw [modified, shifted, alted, ctrled, locked] at changed
    exact changed.trans (modifiers_kbdIrqHandler keyboard' scanCode).symm
  · simp only [driver, handled_eq, shifted, locked]

/-- The reader changes no modifier, and the interrupts produce the characters. -/
theorem produced_run
    {events : List Event}
    {final : System}
    (run : Run Step start events final) :
    modifiers final.keyboard =
        modifiers (driver.final initialKeyboard (scanCodes events)) ∧
      final.produced = driver.outputs initialKeyboard (scanCodes events) := by
  induction run with
  | start =>
      exact ⟨rfl, rfl⟩
  | @extend events state next event _ taken inductionHypothesis =>
      obtain ⟨sameModifiers, produced⟩ := inductionHypothesis
      cases event with
      | interrupt scanCode =>
          obtain rfl := Option.some.inj taken
          obtain ⟨sameNext, sameOutput⟩ := driver_congr sameModifiers scanCode
          rw [scanCodes_interrupt, Machine.final_append,
            Machine.outputs_append, ← produced, Machine.outputs_cons,
            ← sameOutput, Machine.outputs_nil, List.append_nil]
          exact ⟨sameNext, rfl⟩
      | read =>
          obtain ⟨-, rfl⟩ := step_read taken
          rw [scanCodes_other events rfl]
          exact ⟨sameModifiers, produced⟩
      | clear =>
          obtain ⟨tmp, -, rfl⟩ := step_clear taken
          rw [scanCodes_other events rfl]
          exact ⟨sameModifiers, produced⟩
      | test =>
          obtain ⟨c, -, rfl⟩ := step_test taken
          rw [scanCodes_other events rfl]
          exact ⟨sameModifiers, produced⟩

end Produced

section Polled

/-- An interrupt and the poll that follows it. -/
def polled (scanCode : UInt8) : List Event :=
  [.interrupt scanCode, .read, .clear, .test]

theorem scanCodes_polled (codes : List UInt8) :
    scanCodes (codes.flatMap polled) = codes := by
  induction codes with
  | nil =>
      rfl
  | cons scanCode codes inductionHypothesis =>
      rw [scanCodes] at *
      rw [List.flatMap_cons, List.filterMap_append, inductionHypothesis]
      rfl

/-- A poll between two events stays there when more events follow. -/
theorem PolledBetween.append
    {events : List Event}
    {first second : Nat}
    (poll : PolledBetween events first second)
    (inside : second ≤ events.length)
    (later : List Event) :
    PolledBetween (events ++ later) first second := by
  obtain ⟨finish, finishBefore, begin, beginBefore, after, readAt, clearAt⟩ :=
    poll
  refine ⟨finish, finishBefore, begin, beginBefore, after, ?_, ?_⟩
  · rw [List.getElem?_append_left (by omega), readAt]
  · rw [List.getElem?_append_left (by omega), clearAt]

/-- The interrupts among some events and a poll -/
theorem interruptAt_polled
    {events : List Event}
    {scanCode : UInt8}
    {index : Nat}
    (isInterrupt : InterruptAt (events ++ polled scanCode) index) :
    index = events.length ∨
      index < events.length ∧ InterruptAt events index := by
  rcases Nat.lt_or_ge index events.length with before | behind
  · rw [InterruptAt, List.getElem?_append_left before] at isInterrupt
    exact .inr ⟨before, isInterrupt⟩
  · rw [InterruptAt, List.getElem?_append_right behind] at isInterrupt
    left
    generalize offset : index - events.length = past at isInterrupt
    rcases past with _ | _ | _ | _ | past
    · omega
    all_goals simp [polled, Event.isInterrupt] at isInterrupt

/-- A poll after each interrupt keeps the interrupts apart. -/
theorem spaced_polled
    {events : List Event}
    (spaced : Spaced events)
    (settled : Settled events)
    (scanCode : UInt8) :
    Spaced (events ++ polled scanCode) ∧
      Settled (events ++ polled scanCode) := by
  constructor
  · intro second _ first before firstIs secondIs
    rcases interruptAt_polled secondIs with rfl | ⟨inside, secondIs⟩
    · rcases interruptAt_polled firstIs with rfl | ⟨firstInside, firstIs⟩
      · exact absurd before (Nat.lt_irrefl _)
      · exact (settled first firstInside firstIs).append (Nat.le_refl _) _
    · rcases interruptAt_polled firstIs with rfl | ⟨firstInside, firstIs⟩
      · exact absurd inside (Nat.not_lt_of_gt before)
      · exact (spaced second inside first before firstIs secondIs).append
          (Nat.le_of_lt inside) _
  · intro first _ firstIs
    have start : first ≤ events.length := by
      rcases interruptAt_polled firstIs with rfl | ⟨inside, -⟩
      · exact Nat.le_refl _
      · exact Nat.le_of_lt inside
    refine ⟨events.length + 2, by simp [polled], events.length + 1, by omega,
      by omega, ?_, ?_⟩
    · rw [List.getElem?_append_right (Nat.le_add_right _ _)]
      simp [polled]
    · rw [List.getElem?_append_right (Nat.le_add_right _ _)]
      simp [polled]

/-- A poll after each interrupt returns what the interrupts produce. -/
theorem exists_polled (codes : List UInt8) :
    ∃ final,
      Run (Guarded Step Undisturbed) start (codes.flatMap polled) final ∧
        Spaced (codes.flatMap polled) ∧
          Settled (codes.flatMap polled) ∧
            final.location = .calling ∧
              final.returned = driver.outputs initialKeyboard codes := by
  induction codes using List.reverseRecOn with
  | nil =>
      refine ⟨start, .start, ?_, ?_, rfl, rfl⟩
      · rintro second ⟨⟩
      · rintro first ⟨⟩
  | append_singleton codes scanCode inductionHypothesis =>
      obtain ⟨system, run, spaced, settled, located, returned⟩ :=
        inductionHypothesis
      obtain ⟨spaced', settled'⟩ := spaced_polled spaced settled scanCode
      obtain ⟨sameModifiers, -⟩ := produced_run run.of_guarded
      rw [scanCodes_polled] at sameModifiers
      have sameOutput := (driver_congr sameModifiers scanCode).2
      rw [List.flatMap_append, List.flatMap_cons, List.flatMap_nil,
        List.append_nil, Machine.outputs_append, Machine.outputs_cons,
        Machine.outputs_nil, List.append_nil, ← returned, ← sameOutput]
      have block :
          Run (Guarded Step Undisturbed) system
            ([] ++ [.interrupt scanCode] ++ [.read] ++ [.clear] ++ [.test])
            { keyboard :=
                clearMostRecentChar (kbdIrqHandler system.keyboard scanCode)
              location := .calling
              produced :=
                system.produced ++ written (handled system.keyboard scanCode)
              returned :=
                system.returned ++
                  written (handled system.keyboard scanCode) } := by
        obtain ⟨keyboard, location, produced, returned⟩ := system
        obtain rfl : location = .calling := located
        refine .extend (.extend (.extend (.extend .start ⟨?_, rfl⟩)
          ⟨trivial, rfl⟩) ⟨trivial, rfl⟩) ⟨trivial, rfl⟩
        rintro ⟨⟩
      exact ⟨_, run.append block, spaced', settled', rfl, rfl⟩

end Polled

section Strokes

/--
A character that can be typed: escape (as 1), backspace, tab, newline, or one
of the printable characters of ASCII.
-/
def Typeable (c : UInt8) : Prop :=
  c ∈ [1, 8, 9, 10] ∨ 0x20 ≤ c ∧ c ≤ 0x7E

instance (c : UInt8) : Decidable (Typeable c) :=
  inferInstanceAs (Decidable (_ ∨ _))

/-- The first key on which a character is printed in a case -/
def findKey (upper : Bool) (c : UInt8) : Option (Fin 128) :=
  (List.finRange 128).find? fun key => legend upper key = c

/-- The case and the key of a character -/
def strokeOf (c : UInt8) : Option (Bool × Fin 128) :=
  match findKey false c with
  | some key => some (false, key)
  | none => (findKey true c).map fun key => (true, key)

def press (key : Fin 128) : KeyEvent where
  extended := false
  key := key
  pressed := true

def release (key : Fin 128) : KeyEvent where
  extended := false
  key := key
  pressed := false

/-- The keys that type a character, with caps lock off -/
def strokes (c : UInt8) : List KeyEvent :=
  match strokeOf c with
  | none => []
  | some (false, key) => [press key, release key]
  | some (true, key) =>
      [press shiftKey, press key, release key, release shiftKey]

/-- Every character that can be typed has a stroke. -/
theorem strokeOf_isSome {c : UInt8} (typeable : Typeable c) :
    (strokeOf c).isSome = true := by
  simp only [strokeOf, findKey, ← character_eq_legend]
  obtain ⟨code⟩ := c
  revert code
  decide +kernel

/-- The stroke is one of a key on which the character is printed. -/
theorem legend_strokeOf
    {c : UInt8}
    {upper : Bool}
    {key : Fin 128}
    (found : strokeOf c = some (upper, key)) :
    legend upper key = c := by
  unfold strokeOf at found
  cases lower : findKey false c with
  | some lowerKey =>
      rw [lower] at found
      cases found
      simpa using List.find?_some lower
  | none =>
      rw [lower] at found
      obtain ⟨upperKey, isFound, same⟩ := Option.map_eq_some_iff.mp found
      cases same
      simpa using List.find?_some isFound

/-- Only characters that can be typed are printed on the keys. -/
theorem typeable_of_code (scanCode : UInt8) :
    (lowerCharacter scanCode ≠ 0 → Typeable (lowerCharacter scanCode)) ∧
      (upperCharacter scanCode ≠ 0 → Typeable (upperCharacter scanCode)) := by
  obtain ⟨code⟩ := scanCode
  revert code
  decide +kernel

/-- Nothing is printed on the modifier keys. -/
theorem legend_modifier (upper : Bool) :
    legend upper shiftKey = 0 ∧ legend upper capsLockKey = 0 := by
  revert upper
  decide

/-- The driver produces characters that can be typed only. -/
theorem typeable_of_mem_outputs
    {keyboard : Keyboard}
    {codes : List UInt8}
    {c : UInt8}
    (member : c ∈ driver.outputs keyboard codes) :
    Typeable c := by
  obtain ⟨before, scanCode, isOutput⟩ :=
    driver.exists_of_mem_outputs keyboard codes member
  simp only [driver, written] at isOutput
  split at isOutput
  · cases isOutput
  · case _ nonzero =>
      obtain rfl := List.mem_singleton.mp isOutput
      obtain ⟨ofLower, ofUpper⟩ := typeable_of_code scanCode
      rw [handled_eq] at nonzero ⊢
      split
      · case _ shifted =>
          rw [if_pos shifted] at nonzero
          exact ofUpper nonzero
      · case _ unshifted =>
          rw [if_neg unshifted] at nonzero
          exact ofLower nonzero

/-- The shift key is up and caps lock is off. -/
def Plain (history : List KeyEvent) : Prop :=
  held history shiftKey = false ∧ capsLocked history = false

/-- The strokes of a character type it and leave the modifiers as they were. -/
theorem typist_strokes
    {history : List KeyEvent}
    (plain : Plain history)
    {c : UInt8}
    (typeable : Typeable c) :
    typist.outputs history (strokes c) = [c] ∧
      Plain (history ++ strokes c) := by
  obtain ⟨⟨upper, key⟩, found⟩ :=
    Option.isSome_iff_exists.mp (strokeOf_isSome typeable)
  have printed := legend_strokeOf found
  have nonzero : c ≠ 0 := by
    rintro rfl
    exact absurd typeable (by decide)
  have notShift : key ≠ shiftKey := by
    rintro rfl
    exact nonzero (printed.symm.trans (legend_modifier upper).1)
  have notCapsLock : key ≠ capsLockKey := by
    rintro rfl
    exact nonzero (printed.symm.trans (legend_modifier upper).2)
  have shiftNotCapsLock : shiftKey ≠ capsLockKey := by
    decide
  obtain ⟨notHeld, notLocked⟩ := plain
  cases upper with
  | false =>
      have keys : strokes c = [press key, release key] := by
        simp [strokes, found]
      rw [keys]
      constructor
      · simp [typist, characters, press, release, notHeld, notLocked, printed,
          written, nonzero]
      · have split :
            history ++ [press key, release key] =
              history ++ [press key] ++ [release key] := by
          simp
        rw [Plain, split]
        simp only [held_append, capsLocked_append, press, release, notShift,
          notCapsLock, notHeld, notLocked, false_and, ↓reduceIte, and_self]
  | true =>
      have keys :
          strokes c =
            [press shiftKey, press key, release key, release shiftKey] := by
        simp [strokes, found]
      have noCharacter := (legend_modifier false).1
      rw [keys]
      constructor
      · simp [typist, characters, press, release, notHeld, notLocked, printed,
          written, nonzero, noCharacter, held_append, capsLocked_append,
          shiftNotCapsLock]
      · have split :
            history ++
                [press shiftKey, press key, release key, release shiftKey] =
              history ++ [press shiftKey] ++ [press key] ++ [release key] ++
                [release shiftKey] := by
          simp
        rw [Plain, split]
        simp only [held_append, capsLocked_append, press, release, notCapsLock,
          notLocked, shiftNotCapsLock, false_and, ↓reduceIte, and_self]

/-- The strokes of a text type it. -/
theorem typist_text
    {history : List KeyEvent}
    (plain : Plain history)
    {text : List UInt8}
    (typeable : ∀ c ∈ text, Typeable c) :
    typist.outputs history (text.flatMap strokes) = text := by
  induction text generalizing history with
  | nil =>
      rfl
  | cons c text inductionHypothesis =>
      obtain ⟨first, others⟩ := List.forall_mem_cons.mp typeable
      obtain ⟨types, plain'⟩ := typist_strokes plain first
      rw [List.flatMap_cons, Machine.outputs_append, types, final_typist,
        inductionHypothesis plain' others]
      rfl

/--
The texts that `getchark` can return in a run without lost keys are those of
the characters that can be typed.
-/
theorem returned_iff (text : List UInt8) :
    (∃ events final,
        Run (Guarded Step Undisturbed) start events final ∧
          Spaced events ∧ final.returned = text) ↔
      ∀ c ∈ text, Typeable c := by
  constructor
  · rintro ⟨events, final, run, spaced, rfl⟩ c member
    have balance := (run_kept run spaced).balance
    have produced := (produced_run run.of_guarded).2
    have isProduced : c ∈ driver.outputs initialKeyboard (scanCodes events) := by
      rw [← produced, balance]
      exact List.mem_append_left _ member
    exact typeable_of_mem_outputs isProduced
  · intro typeable
    have plain : Plain [] :=
      ⟨rfl, rfl⟩
    obtain ⟨final, run, spaced, -, -, returned⟩ :=
      exists_polled ((text.flatMap strokes).flatMap KeyEvent.scanCodes)
    refine ⟨_, final, run, spaced, ?_⟩
    rw [returned, (driver_followsKeys _).2, typist_text plain typeable]

end Strokes

end Relics.Ps2Keyboard
