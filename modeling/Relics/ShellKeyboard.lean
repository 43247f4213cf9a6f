import Relics.KeyboardTyping
import Relics.ShellSessions

namespace Relics.Shell

/-!
# From the keys to the answers

A line that is typed at the keyboard goes through the scan codes, the
interrupt handler, the mailbox and `getchark` into `command_buf`.  As long as
no key is lost on the way, the answers of the shell are those to the lines
that were typed, whichever keys typed them and however the interrupts and the
polls interleave.
-/

open ByteMemory Print
open LabelledRun Transducer Ps2Keyboard

section Arrival

/-- After the last interrupt a poll starts and finishes. -/
def PolledAtEnd (events : List Event) : Prop :=
  ∃ earlier later,
    events = earlier ++ later ∧
      (∀ event ∈ later, event.isInterrupt = false) ∧ Polls later

variable {events : List Event}
variable {final : System}

/-- Events without an interrupt carry no scan code. -/
theorem scanCodes_append_of_none
    {earlier later : List Event}
    (none : ∀ event ∈ later, event.isInterrupt = false) :
    scanCodes (earlier ++ later) = scanCodes earlier := by
  have noCodes : later.filterMap Event.scanCode? = [] := by
    rw [List.filterMap_eq_nil_iff]
    intro event member
    have isOther := none event member
    cases event with
    | interrupt scanCode =>
        cases isOther
    | read | clear | test =>
        rfl
  rw [scanCodes, List.filterMap_append, noCodes, List.append_nil, scanCodes]

/-- A poll after the last interrupt returns the last character produced. -/
theorem returned_of_polledAtEnd
    (run : Run (Guarded Step Undisturbed) Ps2Keyboard.start events final)
    (spaced : Spaced events)
    (atEnd : PolledAtEnd events) :
    final.returned = final.produced := by
  have kept := run_kept run spaced
  obtain ⟨earlier, later, rfl, none, before, between, after, rfl⟩ := atEnd
  have split :
      earlier ++ (before ++ .read :: between ++ .test :: after) =
        (earlier ++ before) ++ (.read :: between ++ .test :: after) := by
    simp
  have noneBehind :
      ∀ event ∈ .read :: between ++ .test :: after,
        event.isInterrupt = false := by
    intro event member
    apply none
    rw [List.append_assoc]
    exact List.mem_append_right before member
  rw [split] at run spaced
  obtain ⟨reading, toReading, rest⟩ := run.exists_middle
  have returned :=
    poll_returns (run_kept toReading spaced.of_append) rest.of_guarded
  have sameProduced : final.produced = reading.produced := by
    rw [(produced_run run.of_guarded).2,
      (produced_run toReading.of_guarded).2,
      scanCodes_append_of_none noneBehind]
  rw [← sameProduced, kept.balance] at returned
  rw [kept.balance]
  exact (List.prefix_append _ _).eq_of_length_le returned.length_le

/-- The caller of `getchark` gets what the typist has typed. -/
theorem returned_eq_typed
    {keyEvents : List KeyEvent}
    (run : Run (Guarded Step Undisturbed) Ps2Keyboard.start events final)
    (spaced : Spaced events)
    (atEnd : PolledAtEnd events)
    (sent : scanCodes events = keyEvents.flatMap KeyEvent.scanCodes) :
    final.returned = typist.outputs [] keyEvents := by
  rw [returned_of_polledAtEnd run spaced atEnd,
    (produced_run run.of_guarded).2, sent, (driver_followsKeys keyEvents).2]

/-- A poll after each interrupt is one after the last. -/
theorem polledAtEnd_polled
    {codes : List UInt8}
    (notEmpty : codes ≠ []) :
    PolledAtEnd (codes.flatMap polled) := by
  obtain ⟨earlier, scanCode, shape⟩ :=
    (List.eq_nil_or_concat codes).resolve_left notEmpty
  refine
    ⟨earlier.flatMap polled ++ [.interrupt scanCode], [.read, .clear, .test],
      ?_, ?_, [], [.clear], [], rfl⟩
  · simp [shape, polled]
  · simp [Event.isInterrupt]

end Arrival

/--
If `command_buf` is clear at the start and no key is lost, the shell answers
the lines that were typed at the keyboard.
-/
theorem shell_answersKeyboard
    (strings : Strings)
    (fuel : Nat)
    (initial : Memory)
    (lines : List Line)
    (keyEvents : List KeyEvent)
    (events : List Event)
    (final : System)
    (cleared : ∀ j < size, initial j = 0)
    (enough : size ≤ fuel)
    (typed :
      typist.outputs [] keyEvents =
        lines.flatMap fun line => line.bytes ++ [newline])
    (sent : scanCodes events = keyEvents.flatMap KeyEvent.scanCodes)
    (run : Run (Guarded Step Undisturbed) Ps2Keyboard.start events final)
    (spaced : Spaced events)
    (atEnd : PolledAtEnd events) :
    ∃ shell,
      keys strings fuel (start strings initial) final.returned =
          (if ∃ line ∈ lines, line.builtin = some .panic then
            .panicked shell
          else
            .waiting shell) ∧
        shell.effects =
          [.resetVideoMemory, promptEffect strings] ++
            conversation strings lines := by
  rw [returned_eq_typed run spaced atEnd sent, typed]
  exact keys_converse cleared enough [] (start strings initial) rfl lines

/-- The line `panic` is typed at the keyboard. -/
theorem shell_answersKeyboard_panic :
    ∃ events final shell,
      Run (Guarded Step Undisturbed) Ps2Keyboard.start events final ∧
        keys ⟨chars ">", [], []⟩ size
              (start ⟨chars ">", [], []⟩ fun _ => 0) final.returned =
            .panicked shell ∧
          shell.effects =
            [.resetVideoMemory, .print (chars "> "), .print (chars "p"),
              .print (chars "a"), .print (chars "n"), .print (chars "i"),
              .print (chars "c"), .print (chars "\n"), .panic (-1)] := by
  let keyEvents := (chars "panic\n").flatMap strokes
  have typeable : ∀ c ∈ chars "panic\n", Typeable c :=
    List.forall_iff_forall_mem.mp (by decide)
  have typed : typist.outputs [] keyEvents = chars "panic\n" :=
    typist_text ⟨rfl, rfl⟩ typeable
  obtain ⟨final, run, spaced, -⟩ :=
    exists_polled (keyEvents.flatMap KeyEvent.scanCodes)
  have notEmpty : keyEvents.flatMap KeyEvent.scanCodes ≠ [] := by
    intro none
    have arrived := (driver_followsKeys keyEvents).2
    rw [none, typed] at arrived
    exact absurd arrived (by decide)
  obtain ⟨shell, ended, effects⟩ :=
    shell_answersKeyboard ⟨chars ">", [], []⟩ size (fun _ => 0) [panicLine]
      keyEvents _ final (fun _ _ => rfl) (Nat.le_refl _) typed
      (scanCodes_polled _) run spaced (polledAtEnd_polled notEmpty)
  have panics : ∃ line ∈ [panicLine], line.builtin = some .panic :=
    ⟨panicLine, by simp, by decide⟩
  rw [if_pos panics] at ended
  exact ⟨_, final, shell, run, ended, effects.trans (by decide)⟩

end Relics.Shell
