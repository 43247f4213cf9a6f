import Relics.ConsoleScreen
import Relics.LabelledRun

namespace Relics.Console

/-!
# Whether the counted row is the row of the index

The row of the console is stored twice, as `vga_index / 80` and in
`next_line_index`, and the cursor is computed from both.  Only a visible
character and a new line count rows: a backspace into the row above, a tab
into the row below and a new line behind the last row let the two drift apart.
-/

open LabelledRun

/-- The counted row is the row of the index. -/
def RowAgrees (console : State) : Prop :=
  console.nextLineIndex.toNat = console.vgaIndex.toNat / 80 + 1

/-- The hardware shows the cursor at the index. -/
def CursorAgrees (console : State) : Prop :=
  console.crtc.cursor = console.vgaIndex.toNat

/-- A new line moved to the row just below, or scrolled. -/
def MovedDown (before after : State) : Prop :=
  after.vgaIndex.toNat = 80 * (before.vgaIndex.toNat / 80 + 1) ∨
    (24 ≤ before.vgaIndex.toNat / 80 ∧ after.vgaIndex.toNat = 80 * 24)

/-- The condition on the index under which a character keeps the row. -/
structure InStep (console : State) (ch : UInt8) : Prop where
  visible : Visible ch → console.vgaIndex.toNat < 65535
  tab :
    ch = 9 → console.vgaIndex.toNat % 80 < 76 ∧ console.vgaIndex.toNat < 65532
  backspace : ch = 8 → console.vgaIndex.toNat % 80 ≠ 0
  newLine : ch = 10 → console.vgaIndex.toNat < 2000

section Characters

variable
    {console : State}
    {ch : UInt8}

/-- In a row that agrees the position of the cursor is the index. -/
theorem position_of_rowAgrees
    (row : RowAgrees console) :
    ((console.nextLineIndex - 1) * 80 + console.vgaIndex % 80).toNat =
      console.vgaIndex.toNat := by
  have bounded := console.vgaIndex.toNat_lt
  unfold RowAgrees at row
  simp [UInt16.toNat_sub, UInt16.toNat_add, UInt16.toNat_mul, UInt16.toNat_mod,
    row]
  omega

/-- Every character but NUL puts the cursor at the index of its row. -/
theorem cursor_printChar
    (notNul : ch ≠ 0) :
    (printChar console ch).crtc.cursor =
      (((printChar console ch).nextLineIndex - 1) * 80 +
        (printChar console ch).vgaIndex % 80).toNat := by
  rcases character_cases ch with rfl | rfl | rfl | rfl | isVisible
  · exact absurd rfl notNul
  · exact cursor_updateCursor _ _ _
  · exact cursor_newLine
  · exact cursor_updateCursor _ _ _
  · exact cursor_visible isVisible

/-- The index and the counted row after a new line. -/
theorem newLine_cases (console : State) :
    (25 ≤ console.nextLineIndex.toNat ∧
        (printChar console 10).vgaIndex.toNat = 1920 ∧
        (printChar console 10).nextLineIndex = console.nextLineIndex) ∨
      (console.nextLineIndex.toNat < 25 ∧
        (printChar console 10).vgaIndex.toNat =
          80 * console.nextLineIndex.toNat ∧
        (printChar console 10).nextLineIndex.toNat =
          console.nextLineIndex.toNat + 1) := by
  have newLine : printChar console 10 = printNewLine console := rfl
  rw [newLine, printNewLine]
  by_cases atBottom : console.nextLineIndex ≥ 25
  · have bottom : 25 ≤ console.nextLineIndex.toNat :=
      UInt16.le_iff_toNat_le.mp atBottom
    have scrolled :=
      scrollVgaBuffer_spec console console.foreColor console.backColor
    refine .inl ⟨bottom, ?_, ?_⟩
    · rw [if_pos atBottom, vgaIndex_updateCursor, scrolled.vgaIndex]
      rfl
    · rw [if_pos atBottom, nextLineIndex_updateCursor, scrolled.nextLineIndex]
  · have above : console.nextLineIndex.toNat < 25 :=
      UInt16.lt_iff_toNat_lt.mp (UInt16.not_le.mp atBottom)
    refine .inr ⟨above, ?_, ?_⟩
    · rw [if_neg atBottom, vgaIndex_updateCursor, UInt16.toNat_mul]
      change 80 * console.nextLineIndex.toNat % 65536 = _
      omega
    · rw [if_neg atBottom, nextLineIndex_updateCursor, UInt16.toNat_add]
      change (console.nextLineIndex.toNat + 1) % 65536 = _
      omega

section InStep

theorem inStep_nul : InStep console 0 where
  visible visible := absurd visible (by decide)
  tab isTab := absurd isTab (by decide)
  backspace isBackspace := absurd isBackspace (by decide)
  newLine isNewLine := absurd isNewLine (by decide)

theorem inStep_backspace :
    InStep console 8 ↔ console.vgaIndex.toNat % 80 ≠ 0 := by
  refine ⟨fun inStep => inStep.backspace rfl, fun inRow => ⟨?_, ?_, ?_, ?_⟩⟩
  · exact fun visible => absurd visible (by decide)
  · exact fun isTab => absurd isTab (by decide)
  · exact fun _ => inRow
  · exact fun isNewLine => absurd isNewLine (by decide)

theorem inStep_newLine :
    InStep console 10 ↔ console.vgaIndex.toNat < 2000 := by
  refine ⟨fun inStep => inStep.newLine rfl, fun inside => ⟨?_, ?_, ?_, ?_⟩⟩
  · exact fun visible => absurd visible (by decide)
  · exact fun isTab => absurd isTab (by decide)
  · exact fun isBackspace => absurd isBackspace (by decide)
  · exact fun _ => inside

theorem inStep_tab :
    InStep console 9 ↔
      console.vgaIndex.toNat % 80 < 76 ∧ console.vgaIndex.toNat < 65532 := by
  refine ⟨fun inStep => inStep.tab rfl, fun inRow => ⟨?_, ?_, ?_, ?_⟩⟩
  · exact fun visible => absurd visible (by decide)
  · exact fun _ => inRow
  · exact fun isBackspace => absurd isBackspace (by decide)
  · exact fun isNewLine => absurd isNewLine (by decide)

theorem inStep_visible
    (isVisible : Visible ch) :
    InStep console ch ↔ console.vgaIndex.toNat < 65535 := by
  have ⟨_, notBackspace, notNewLine, notTab⟩ := isVisible
  refine
    ⟨fun inStep => inStep.visible isVisible, fun inside => ⟨?_, ?_, ?_, ?_⟩⟩
  · exact fun _ => inside
  · exact fun isTab => absurd isTab notTab
  · exact fun isBackspace => absurd isBackspace notBackspace
  · exact fun isNewLine => absurd isNewLine notNewLine

end InStep

/-- A visible character keeps the row unless the index wraps around. -/
theorem rowAgrees_visible
    (row : RowAgrees console)
    (isVisible : Visible ch) :
    RowAgrees (printChar console ch) ↔ console.vgaIndex.toNat < 65535 := by
  have bounded := console.vgaIndex.toNat_lt
  unfold RowAgrees at row ⊢
  have index :
      (console.vgaIndex + 1).toNat = (console.vgaIndex.toNat + 1) % 65536 :=
    UInt16.toNat_add console.vgaIndex 1
  have endsRow :
      (console.vgaIndex + 1) % 80 = 0 ↔
        (console.vgaIndex.toNat + 1) % 65536 % 80 = 0 := by
    rw [← UInt16.toNat_inj, UInt16.toNat_mod, index]
    rfl
  rw [vgaIndex_visible isVisible, nextLineIndex_visible isVisible, index]
  split
  · case _ ends =>
      have ends := endsRow.mp ends
      have counted :
          (console.nextLineIndex + 1).toNat =
            (console.nextLineIndex.toNat + 1) % 65536 :=
        UInt16.toNat_add console.nextLineIndex 1
      rw [counted, row]
      by_cases wraps : console.vgaIndex.toNat = 65535
      · rw [wraps]
        decide
      · have next :
            (console.vgaIndex.toNat + 1) % 65536 =
              console.vgaIndex.toNat + 1 := by
          omega
        rw [next] at ends ⊢
        omega
  · case _ inside =>
      have inside := mt endsRow.mpr inside
      omega

/-- A character keeps the row exactly if it is in step. -/
theorem rowAgrees_printChar
    (row : RowAgrees console) :
    RowAgrees (printChar console ch) ↔ InStep console ch := by
  rcases character_cases ch with rfl | rfl | rfl | rfl | isVisible
  · exact ⟨fun _ => inStep_nul, fun _ => row⟩
  · have index :
        (printChar console 8).vgaIndex.toNat =
          (65535 + console.vgaIndex.toNat) % 65536 :=
      UInt16.toNat_sub console.vgaIndex 1
    have counted :
        (printChar console 8).nextLineIndex = console.nextLineIndex := rfl
    have bounded := console.vgaIndex.toNat_lt
    unfold RowAgrees at row ⊢
    rw [inStep_backspace, index, counted, row]
    omega
  · unfold RowAgrees at row ⊢
    rw [inStep_newLine]
    obtain ⟨bottom, index, counted⟩ | ⟨above, index, counted⟩ :=
      newLine_cases console
    · rw [index, counted]
      omega
    · rw [index, counted]
      omega
  · have index :
        (printChar console 9).vgaIndex.toNat =
          (console.vgaIndex.toNat + 4) % 65536 :=
      UInt16.toNat_add console.vgaIndex 4
    have counted :
        (printChar console 9).nextLineIndex = console.nextLineIndex := rfl
    have bounded := console.vgaIndex.toNat_lt
    unfold RowAgrees at row ⊢
    rw [inStep_tab, index, counted, row]
    omega
  · rw [inStep_visible isVisible]
    exact rowAgrees_visible row isVisible

/-- A new line that is in step moves down. -/
theorem movedDown_newLine
    (row : RowAgrees console)
    (inStep : InStep console 10) :
    MovedDown console (printChar console 10) := by
  have inside := inStep_newLine.mp inStep
  unfold RowAgrees at row
  obtain ⟨bottom, index, -⟩ | ⟨above, index, -⟩ :=
    newLine_cases console
  · exact .inr ⟨by omega, index⟩
  · exact .inl (by rw [index, row])

end Characters

section Sequences

/-- What the console is after a reset and a sequence of bytes. -/
def shown (console : State) (bytes : List UInt8) : State :=
  printChars (resetVideoMemory console) bytes

/-- No backspace of the sequence is printed at the first cell. -/
def StaysBehindFirstCell (console : State) (bytes : List UInt8) : Prop :=
  ∀ earlier later,
    bytes = earlier ++ 8 :: later → (shown console earlier).vgaIndex ≠ 0

/-- Index, counted row and cursor agree after each part of a sequence. -/
structure Agrees (console : State) (bytes : List UInt8) : Prop where
  row :
    ∀ earlier later,
      bytes = earlier ++ later →
      (∃ ch ∈ earlier, ch ≠ 0) →
      RowAgrees (shown console earlier)
  cursor :
    ∀ earlier later,
      bytes = earlier ++ later →
      (∃ ch ∈ earlier, ch ≠ 0) →
      CursorAgrees (shown console earlier)
  newLine :
    ∀ earlier later,
      bytes = earlier ++ 10 :: later →
      MovedDown (shown console earlier) (shown console (earlier ++ [10]))

variable
    {console : State}
    {earlier : List UInt8}

theorem rowAgrees_reset : RowAgrees (resetVideoMemory console) := by
  change (1 : UInt16).toNat = (0 : UInt16).toNat / 80 + 1
  decide

theorem shown_append_singleton
    {ch : UInt8} :
    shown console (earlier ++ [ch]) = printChar (shown console earlier) ch := by
  rw [shown, printChars, List.foldl_append]
  rfl

/-- NUL bytes leave the console as the reset did. -/
theorem shown_nuls
    (nuls : ¬ ∃ ch ∈ earlier, ch ≠ 0) :
    shown console earlier = resetVideoMemory console := by
  induction earlier using List.reverseRecOn with
  | nil =>
      rfl
  | append_singleton earlier ch inductionHypothesis =>
      have isNul : ch = 0 := by
        by_contra notNul
        exact nuls ⟨ch, by simp, notNul⟩
      have before : ¬ ∃ ch ∈ earlier, ch ≠ 0 := by
        rintro ⟨other, among, notNul⟩
        exact nuls ⟨other, by simp [among], notNul⟩
      rw [shown_append_singleton, isNul]
      exact inductionHypothesis before

/-- The last byte that is no NUL has put the cursor at the index of its row. -/
theorem cursor_shown
    (someByte : ∃ ch ∈ earlier, ch ≠ 0) :
    (shown console earlier).crtc.cursor =
      (((shown console earlier).nextLineIndex - 1) * 80 +
        (shown console earlier).vgaIndex % 80).toNat := by
  induction earlier using List.reverseRecOn with
  | nil =>
      obtain ⟨_, among, _⟩ := someByte
      cases among
  | append_singleton earlier ch inductionHypothesis =>
      rw [shown_append_singleton]
      by_cases isNul : ch = 0
      · subst isNul
        obtain ⟨other, among, notNul⟩ := someByte
        have before : other ∈ earlier := by
          simpa [notNul] using among
        exact inductionHypothesis ⟨other, before, notNul⟩
      · exact cursor_printChar isNul

/--
Index, counted row and cursor agree after each part of a sequence, and each
new line moves down, exactly if every character is in step.
-/
theorem agrees_iff_inStep
    (console : State)
    (bytes : List UInt8) :
    Agrees console bytes ↔
      ∀ earlier ch later,
        bytes = earlier ++ ch :: later →
        InStep (shown console earlier) ch := by
  have keeps :
      (∀ earlier later,
          bytes = earlier ++ later → RowAgrees (shown console earlier)) ↔
        ∀ earlier ch later,
          bytes = earlier ++ ch :: later →
          InStep (shown console earlier) ch :=
    foldl_parts_iff RowAgrees InStep rowAgrees_printChar rowAgrees_reset bytes
  constructor
  · intro agrees
    refine keeps.mp fun earlier later split => ?_
    by_cases someByte : ∃ ch ∈ earlier, ch ≠ 0
    · exact agrees.row earlier later split someByte
    · exact shown_nuls someByte ▸ rowAgrees_reset
  · intro inStep
    have row := keeps.mpr inStep
    refine ⟨fun earlier later split _ => row earlier later split, ?_, ?_⟩
    · intro earlier later split someByte
      rw [CursorAgrees, cursor_shown someByte]
      exact position_of_rowAgrees (row earlier later split)
    · intro earlier later split
      rw [shown_append_singleton]
      exact
        movedDown_newLine (row earlier _ split)
          (inStep earlier 10 later split)

/-- A cleared console in grey on black. -/
def greyConsole : State where
  vgaBuffer _ := 0
  vgaIndex := 0
  nextLineIndex := 1
  foreColor := 7
  backColor := 0
  crtc := ⟨0, fun _ => 0⟩
  stores := []

/-- A new line behind twenty tabs stays in the row that they have entered. -/
theorem not_agrees_twentyTabs :
    StaysBehindFirstCell greyConsole (List.replicate 20 9 ++ [10]) ∧
      ¬ Agrees greyConsole (List.replicate 20 9 ++ [10]) := by
  constructor
  · intro earlier later split
    have among : (8 : UInt8) ∈ List.replicate 20 (9 : UInt8) ++ [10] := by
      rw [split]
      simp
    exact absurd among (by decide)
  · intro agrees
    have moved := agrees.newLine (List.replicate 20 9) [] rfl
    rw [shown_append_singleton] at moved
    have before :
        (shown greyConsole (List.replicate 20 9)).vgaIndex = 80 := rfl
    have after :
        (printChar (shown greyConsole (List.replicate 20 9)) 10).vgaIndex =
          80 := rfl
    rw [MovedDown, before, after] at moved
    exact absurd moved (by decide)

end Sequences

end Relics.Console
