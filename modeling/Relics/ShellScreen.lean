import Relics.ConsoleTerminal
import Relics.PanicText
import Relics.ShellKeyboard

/-!
# From the keys to the screen

What the shell does is performed on the console: it prints its texts, a panic
prints its message, and `cursor` switches the cursor on and off.  As long as
the texts fit, the screen displays the last lines of the conversation, with
the cursor behind the last of them.
-/

namespace Relics.Console

open CountedLoop

section CursorSwitch

/-- The cursor is shown; a bit of register 0x0A disables it. -/
def Crtc.cursorOn (crtc : Crtc) : Bool :=
  crtc.registers 0x0A &&& 0x20 = 0

variable (console : State)

/-- A loop whose body leaves the CRT controller alone does so. -/
theorem crtc_loop
    {body : Nat → State → State}
    (count : Nat)
    (kept : ∀ index state, (body index state).crtc = state.crtc) :
    (loop body console count).crtc = console.crtc :=
  loop_invariant (fun _ state => state.crtc = console.crtc) rfl
    fun index state _ same => (kept index state).trans same

/-- Clearing the screen leaves the CRT controller alone. -/
theorem crtc_clearRow (foreColor backColor : UInt8) (y : Nat) :
    (clearRow foreColor backColor y console).crtc = console.crtc := by
  rw [clearRow]
  exact crtc_loop console vgaWidth fun _ _ => rfl

theorem crtc_clearVgaBuffer (foreColor backColor : UInt8) :
    (clearVgaBuffer console foreColor backColor).crtc = console.crtc := by
  rw [clearVgaBuffer]
  exact crtc_loop console vgaLength fun y state =>
    crtc_clearRow state foreColor backColor y

theorem crtc_resetVideoMemory :
    (resetVideoMemory console).crtc = console.crtc := by
  simp only [resetVideoMemory, crtc_clearVgaBuffer]

/-- Scrolling leaves the CRT controller alone. -/
theorem crtc_scrollVgaBuffer (foreColor backColor : UInt8) :
    (scrollVgaBuffer console foreColor backColor).crtc = console.crtc := by
  have copied (y : Nat) (state : State) :
      (copyRowUp y state).crtc = state.crtc := by
    rw [copyRowUp]
    exact crtc_loop state vgaWidth fun _ _ => rfl
  simp only [scrollVgaBuffer, crtc_clearRow]
  exact crtc_loop console (vgaLength - 1) fun row state =>
    copied (row + 1) state

/-- Moving the cursor does not switch it. -/
theorem cursorOn_updateCursor (x y : UInt16) :
    (updateCursor console x y).crtc.cursorOn = console.crtc.cursorOn :=
  rfl

theorem cursorOn_printNewLine :
    (printNewLine console).crtc.cursorOn = console.crtc.cursorOn := by
  unfold printNewLine
  split
  · rw [cursorOn_updateCursor, crtc_scrollVgaBuffer]
  · rfl

/-- A character does not switch the cursor. -/
theorem cursorOn_printChar (ch : UInt8) :
    (printChar console ch).crtc.cursorOn = console.crtc.cursorOn := by
  rcases character_cases ch with rfl | rfl | rfl | rfl | visible
  · rfl
  · rfl
  · exact cursorOn_printNewLine console
  · rfl
  · obtain ⟨notNul, notBackspace, notNewLine, notTab⟩ := visible
    simp only [printChar, notNul, notBackspace, notNewLine, notTab, ↓reduceIte]
    split
    · rfl
    · rfl

theorem cursorOn_printChars (text : List UInt8) :
    (printChars console text).crtc.cursorOn = console.crtc.cursorOn := by
  induction text generalizing console with
  | nil =>
      rfl
  | cons ch text inductionHypothesis =>
      exact (inductionHypothesis _).trans (cursorOn_printChar console ch)

/-- `enable_cursor` shows the cursor unless its first line disables it. -/
theorem cursorOn_enableCursor (cursorStart cursorEnd : UInt8) :
    (enableCursor console cursorStart cursorEnd).crtc.cursorOn =
      decide (cursorStart &&& 0x20 = 0) := by
  have bit (register : UInt8) :
      (register &&& 0xC0 ||| cursorStart) &&& 0x20 = cursorStart &&& 0x20 := by
    apply UInt8.toBitVec_inj.mp
    simp [BitVec.and_or_distrib_right, BitVec.and_assoc]
  simp [enableCursor, Crtc.cursorOn, Crtc.outb, Crtc.inb, bit]

/-- `disable_cursor` hides the cursor. -/
theorem cursorOn_disableCursor :
    (disableCursor console).crtc.cursorOn = false := by
  simp [disableCursor, Crtc.cursorOn, Crtc.outb]

end CursorSwitch

section Tracking

variable
    {console : State}
    {fore back : UInt8}
    {lines : Lines}

/-- Switching the cursor on keeps what is displayed and where the cursor is. -/
theorem Tracks.enableCursor
    (tracks : Tracks console fore back lines)
    (cursorStart cursorEnd : UInt8) :
    Tracks (enableCursor console cursorStart cursorEnd) fore back lines :=
  { tracks with cursor := tracks.cursor }

/-- Switching it off does so too. -/
theorem Tracks.disableCursor
    (tracks : Tracks console fore back lines) :
    Tracks (disableCursor console) fore back lines :=
  { tracks with cursor := tracks.cursor }

end Tracking

end Relics.Console

namespace Relics.Shell

open ByteMemory Print
open LabelledRun Transducer Ps2Keyboard

section Performance

/-- What an effect writes. -/
def Effect.text (leftOver : List UInt8) : Effect → List UInt8
  | print printed => printed
  | panic issue => Panic.panic leftOver (Int32.ofInt issue)
  | _ => []

/-- What an effect does to the console. -/
def Effect.perform
    (leftOver : List UInt8)
    (console : Console.State) :
    Effect →
    Console.State
  | resetVideoMemory => Console.resetVideoMemory console
  | print printed => Console.printChars console printed
  | enableCursor cursorStart cursorEnd =>
      Console.enableCursor console cursorStart cursorEnd
  | disableCursor => Console.disableCursor console
  | millisleep _ => console
  | panic issue =>
      Console.printChars console (Panic.panic leftOver (Int32.ofInt issue))

/-- Whether an effect switches the cursor on or off. -/
def Effect.switch : Effect → Option Bool
  | enableCursor cursorStart _ => some (decide (cursorStart &&& 0x20 = 0))
  | disableCursor => some false
  | _ => none

/-- What effects do to the console, one after the other. -/
def performAll
    (leftOver : List UInt8)
    (console : Console.State)
    (effects : List Effect) :
    Console.State :=
  effects.foldl (Effect.perform leftOver) console

variable
    {leftOver : List UInt8}
    {console : Console.State}
    {fore back : UInt8}
    {lines : Console.Lines}

/-- An effect that fits is displayed unless it resets the screen. -/
theorem tracks_perform
    {effect : Effect}
    (tracks : Console.Tracks console fore back lines)
    (kept : effect ≠ .resetVideoMemory)
    (fits : lines.FitsAll (effect.text leftOver)) :
    Console.Tracks (effect.perform leftOver console) fore back
      (lines.writeAll (effect.text leftOver)) := by
  cases effect with
  | resetVideoMemory =>
      exact absurd rfl kept
  | print printed =>
      exact tracks.printChars fits
  | enableCursor cursorStart cursorEnd =>
      exact tracks.enableCursor cursorStart cursorEnd
  | disableCursor =>
      exact tracks.disableCursor
  | millisleep millis =>
      exact tracks
  | panic issue =>
      exact tracks.printChars fits

/-- So are effects one after the other. -/
theorem tracks_performAll
    {effects : List Effect}
    (tracks : Console.Tracks console fore back lines)
    (kept : ∀ effect ∈ effects, effect ≠ .resetVideoMemory)
    (fits : lines.FitsAll (effects.flatMap (Effect.text leftOver))) :
    Console.Tracks (performAll leftOver console effects) fore back
      (lines.writeAll (effects.flatMap (Effect.text leftOver))) := by
  induction effects generalizing console lines with
  | nil =>
      exact tracks
  | cons effect effects inductionHypothesis =>
      rw [List.flatMap_cons] at fits ⊢
      obtain ⟨first, rest⟩ := Console.Lines.fitsAll_append.mp fits
      rw [List.forall_mem_cons] at kept
      rw [Console.Lines.writeAll_append]
      exact
        inductionHypothesis (tracks_perform tracks kept.1 first) kept.2 rest

/-- The cursor is switched by the last effect that switches it. -/
theorem cursorOn_performAll
    (leftOver : List UInt8)
    (console : Console.State)
    (effects : List Effect) :
    (performAll leftOver console effects).crtc.cursorOn =
      latest Effect.switch console.crtc.cursorOn effects := by
  induction effects using List.reverseRecOn with
  | nil =>
      rfl
  | append_singleton effects effect inductionHypothesis =>
      have last :
          performAll leftOver console (effects ++ [effect]) =
            effect.perform leftOver (performAll leftOver console effects) := by
        rw [performAll, List.foldl_append]
        rfl
      rw [latest_append, ← inductionHypothesis, last]
      cases effect with
      | resetVideoMemory =>
          rw [Effect.perform, Console.crtc_resetVideoMemory]
          rfl
      | print printed =>
          exact Console.cursorOn_printChars _ printed
      | enableCursor cursorStart cursorEnd =>
          exact Console.cursorOn_enableCursor _ cursorStart cursorEnd
      | disableCursor =>
          exact Console.cursorOn_disableCursor _
      | millisleep millis =>
          rfl
      | panic issue =>
          exact Console.cursorOn_printChars _ _

end Performance

section Conversation

variable
    {strings : Strings}

/-- No answer resets the screen. -/
theorem answer_ne_resetVideoMemory
    {line : Line}
    {effect : Effect}
    (member : effect ∈ line.answer strings) :
    effect ≠ .resetVideoMemory := by
  rintro rfl
  unfold Line.answer at member
  split at member
  · simp [fetchmeBuiltin] at member
  · rcases List.mem_append.mp member with shown | ended
    · obtain ⟨byte, -, isPrint⟩ := List.mem_map.mp shown
      cases isPrint
    · cases List.mem_singleton.mp ended
  · split_ifs at member <;> simp at member
  · simp at member
  · split_ifs at member <;> simp at member
  · simp at member

/-- Nor does a conversation. -/
theorem conversation_ne_resetVideoMemory
    {lines : List Line}
    {effect : Effect}
    (member : effect ∈ conversation strings lines) :
    effect ≠ .resetVideoMemory := by
  induction lines with
  | nil =>
      cases member
  | cons line lines inductionHypothesis =>
      simp only [conversation, List.mem_append] at member
      rcases member with (echoed | answered) | behind
      · rintro rfl
        simp [Line.echoed] at echoed
      · exact answer_ne_resetVideoMemory answered
      · split at behind
        · cases behind
        · rcases List.mem_cons.mp behind with rfl | later
          · rintro reset
            cases reset
          · exact inductionHypothesis later

/-- What a conversation writes, from its first prompt on. -/
def transcript
    (leftOver : List UInt8)
    (strings : Strings)
    (lines : List Line) :
    List UInt8 :=
  (promptEffect strings :: conversation strings lines).flatMap
    (Effect.text leftOver)

/-- On any console a conversation that fits is displayed from the prompt on. -/
theorem tracks_conversation
    (leftOver : List UInt8)
    (console : Console.State)
    {lines : List Line}
    (fits : Console.Lines.blank.FitsAll (transcript leftOver strings lines)) :
    Console.Tracks
      (performAll leftOver console
        ([.resetVideoMemory, promptEffect strings] ++
          conversation strings lines))
      console.foreColor console.backColor
      (Console.Lines.blank.writeAll (transcript leftOver strings lines)) := by
  have reset := Console.displays_resetVideoMemory console
  rw [transcript, List.flatMap_cons] at fits ⊢
  obtain ⟨promptFits, restFits⟩ := Console.Lines.fitsAll_append.mp fits
  have prompted := reset.tracks_printChars promptFits (by decide)
  rw [Console.Lines.writeAll_append]
  exact
    tracks_performAll prompted
      (fun _ member => conversation_ne_resetVideoMemory member) restFits

end Conversation

/--
What is typed at the keyboard and not lost is on the screen: the last lines of
the conversation, prompts, echoes and answers, as a terminal shows them.  The
cursor is behind the last line, and shown or not as the last `cursor` asked.
-/
theorem shell_onScreen
    (strings : Strings)
    (fuel : Nat)
    (initial : Memory)
    (lines : List Line)
    (keyEvents : List KeyEvent)
    (events : List Event)
    (final : System)
    (leftOver : List UInt8)
    (console : Console.State)
    (cleared : ∀ j < size, initial j = 0)
    (enough : size ≤ fuel)
    (typed :
      typist.outputs [] keyEvents =
        lines.flatMap fun line => line.bytes ++ [newline])
    (sent : scanCodes events = keyEvents.flatMap KeyEvent.scanCodes)
    (run : Run (Guarded Step Undisturbed) Ps2Keyboard.start events final)
    (spaced : Spaced events)
    (atEnd : PolledAtEnd events)
    (fits : Console.Lines.blank.FitsAll (transcript leftOver strings lines)) :
    ∃ shell,
      keys strings fuel (start strings initial) final.returned =
          (if ∃ line ∈ lines, line.builtin = some .panic then
            .panicked shell
          else
            .waiting shell) ∧
        Console.Tracks (performAll leftOver console shell.effects)
            console.foreColor console.backColor
            (Console.Lines.blank.writeAll
              (transcript leftOver strings lines)) ∧
          (performAll leftOver console shell.effects).crtc.cursorOn =
            latest Effect.switch console.crtc.cursorOn
              (conversation strings lines) := by
  obtain ⟨shell, ended, effects⟩ :=
    keys_converse cleared enough [] (start strings initial) rfl lines
  have began :
      (start strings initial).effects =
        [.resetVideoMemory, promptEffect strings] :=
    rfl
  rw [began] at effects
  refine ⟨shell, ?_, ?_, ?_⟩
  · rw [returned_eq_typed run spaced atEnd sent, typed, ended]
  · rw [effects]
    exact tracks_conversation leftOver console fits
  · rw [cursorOn_performAll, effects, latest, latest, List.filterMap_append]
    rfl

def cursorOffLine : Line where
  bytes := chars "cursor -d"
  short := by decide
  noNewline := by decide
  noNul := by decide

/-- The line `cursor -d` is typed at the keyboard. -/
theorem shell_onScreen_cursorOff :
    ∃ events final shell,
      Run (Guarded Step Undisturbed) Ps2Keyboard.start events final ∧
        keys ⟨chars ">", [], []⟩ size
              (start ⟨chars ">", [], []⟩ fun _ => 0) final.returned =
            .waiting shell ∧
          Console.Tracks
              (performAll [] Console.greyConsole shell.effects) 7 0
              { done := [chars "> cursor -d"]
                current := chars "> " } ∧
            (performAll [] Console.greyConsole shell.effects).crtc.cursorOn =
              false := by
  let keyEvents := (chars "cursor -d\n").flatMap strokes
  have typeable : ∀ c ∈ chars "cursor -d\n", Typeable c :=
    List.forall_iff_forall_mem.mp (by decide)
  have typed : typist.outputs [] keyEvents = chars "cursor -d\n" :=
    typist_text ⟨rfl, rfl⟩ typeable
  obtain ⟨final, run, spaced, -⟩ :=
    exists_polled (keyEvents.flatMap KeyEvent.scanCodes)
  have notEmpty : keyEvents.flatMap KeyEvent.scanCodes ≠ [] := by
    intro none
    have arrived := (driver_followsKeys keyEvents).2
    rw [none, typed] at arrived
    exact absurd arrived (by decide)
  obtain ⟨shell, ended, tracks, cursorOn⟩ :=
    shell_onScreen ⟨chars ">", [], []⟩ size (fun _ => 0) [cursorOffLine]
      keyEvents _ final [] Console.greyConsole (fun _ _ => rfl)
      (Nat.le_refl _) typed (scanCodes_polled _) run spaced
      (polledAtEnd_polled notEmpty) (by decide)
  exact ⟨_, final, shell, run, ended, tracks, cursorOn⟩

end Relics.Shell
