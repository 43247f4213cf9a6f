import Relics.ShellTyping

namespace Relics.Shell

/-!
# Conversations with the shell

With a buffer that is clear when it starts, the shell is a loop that reads a
line, answers it and prompts for the next.  Each answer depends on its own
line only, and the answers follow each other as the lines do.
-/

open ByteMemory Print

section Answers

/-- The builtin that a line calls -/
def Line.builtin (line : Line) : Option Builtin :=
  chain.find? fun builtin => builtin.name <+: line.bytes

/-- The byte of a line at an index, or 0 behind its end -/
def Line.byte (line : Line) (index : Nat) : UInt8 :=
  line.bytes.getD index 0

/-- The answer of the shell to a line -/
def Line.answer (strings : Strings) (line : Line) : List Effect :=
  match line.builtin with
  | some .fetchme => fetchmeBuiltin strings
  | some .echo => echoEffects (line.bytes.drop 5)
  | some .cursor =>
      if line.byte 7 = '-'.toUInt8 then
        if line.byte 8 = 'e'.toUInt8 then [.enableCursor 1 1]
        else if line.byte 8 = 'd'.toUInt8 then [.disableCursor]
        else []
      else
        [.print cursorOptions]
  | some .panic => [.panic (-1)]
  | some .sleep =>
      if '1'.toUInt8 ≤ line.byte 7 ∧ line.byte 7 ≤ '9'.toUInt8 then
        [.millisleep ((line.byte 7 - 0x30).toUInt64 * 1000)]
      else
        []
  | none => [.print (invalidMessage line.bytes)]

/-- The keys of a line are shown as they are typed. -/
def Line.echoed (line : Line) : List Effect :=
  (line.bytes ++ [newline]).map fun c => .print [c]

/-- Lines and answers, up to a panic -/
def conversation (strings : Strings) : List Line → List Effect
  | [] => []
  | line :: lines =>
      line.echoed ++ line.answer strings ++
        if line.builtin = some .panic then
          []
        else
          promptEffect strings :: conversation strings lines

end Answers

section Judging

variable {strings : Strings}
variable {session : Session strings}
variable {line : Line}

/-- A text stands in memory byte by byte. -/
theorem Starts.apply
    {buf : Memory}
    {i : Nat}
    {text : List UInt8}
    (starts : Starts buf i text)
    {index : Nat}
    (inside : index < text.length) :
    buf (i + index) = text.getD index 0 := by
  induction text generalizing i index with
  | nil =>
      cases inside
  | cons byte text inductionHypothesis =>
      cases index with
      | zero =>
          exact starts.1
      | succ index =>
          rw [List.length_cons] at inside
          have later :=
            inductionHypothesis starts.2 (Nat.lt_of_succ_lt_succ inside)
          rw [Nat.add_assoc, Nat.add_comm 1] at later
          exact later

/-- The session started with a clear buffer. -/
def Session.Clear (session : Session strings) : Prop :=
  ∀ j < size, session.initial j = 0

/-- Earlier lines leave a clear buffer behind. -/
theorem Session.Clear.leftAt
    (clear : session.Clear)
    {j : Nat}
    (inside : j < size) :
    leftAt session.initial session.earlier j = 0 := by
  unfold Shell.leftAt
  split
  · rfl
  · exact clear j inside

/-- In a session that started with a clear buffer every line ends. -/
theorem Session.Clear.ended
    (clear : session.Clear)
    (line : Line) :
    Ended session line :=
  .inr (.inl (clear.leftAt (Nat.lt_of_le_of_lt line.short (by decide))))

/-- The buffer holds the line, and 0 behind it. -/
theorem Session.Clear.buffer
    (clear : session.Clear)
    (line : Line)
    {j : Nat}
    (inside : j < size) :
    session.buffer line j = line.byte j := by
  rcases Nat.lt_or_ge j line.bytes.length with before | behind
  · have stands := (session.buffer_starts line).apply before
    rwa [Nat.zero_add] at stands
  · obtain ⟨fresh, left⟩ := session.waits_fresh
    rw [Session.buffer, typed_other session.shell (.inr (by omega)), left,
      clear.leftAt inside]
    simp [Line.byte, List.getElem?_eq_none behind]

/-- The comparisons select the builtin that the line calls. -/
theorem select_eq_builtin (ended : Ended session line) :
    (select (session.buffer line) chain).1 = line.builtin := by
  have branches := branch_of_ended ended
  cases called : line.builtin with
  | some builtin =>
      rw [branches]
      simpa using List.find?_some called
  | none =>
      cases selected : (select (session.buffer line) chain).1 with
      | none =>
          rfl
      | some builtin =>
          have begins := (branches builtin).mp selected
          have member : builtin ∈ chain := by
            cases builtin <;> decide
          have absent := List.find?_eq_none.mp called builtin member
          exact absurd begins (by simpa using absent)

/-- The builtin that a line calls performs the answer. -/
theorem perform_of_clear
    (clear : session.Clear)
    (line : Line)
    {fuel : Nat}
    (enough : size ≤ fuel) :
    ∃ reads,
      perform strings fuel (session.buffer line) line.builtin =
        some (line.answer strings, reads) := by
  have ended := clear.ended line
  have short := line.short
  have branches := branch_of_ended ended
  rw [select_eq_builtin ended] at branches
  rw [size] at enough
  unfold Line.answer
  cases called : line.builtin with
  | none =>
      have unknown (builtin : Builtin) : ¬ builtin.name <+: line.bytes := by
        rw [← branches, called]
        simp
      refine ⟨List.range' 0 (line.bytes.length + 1), ?_⟩
      rw [perform, invalid_of_ended ended unknown, if_pos (by omega)]
  | some builtin =>
      cases builtin with
      | fetchme =>
          exact ⟨[], rfl⟩
      | echo =>
          have begins := (branches .echo).mp called
          refine ⟨List.range' 5 ((line.bytes.drop 5).length + 1), ?_⟩
          rw [perform, echo_of_ended ended begins,
            if_pos (by rw [List.length_drop]; omega)]
      | cursor =>
          have at7 := clear.buffer line (j := 7) (by decide)
          have at8 := clear.buffer line (j := 8) (by decide)
          refine ⟨(cursorBuiltin (session.buffer line)).2, ?_⟩
          rw [perform, cursorBuiltin, at7, at8]
          split_ifs <;> rfl
      | panic =>
          exact ⟨[], rfl⟩
      | sleep =>
          have at7 := clear.buffer line (j := 7) (by decide)
          refine ⟨(sleepBuiltin (session.buffer line)).2, ?_⟩
          rw [perform, sleepBuiltin, at7]
          split_ifs <;> rfl

/-- A line is judged to be answered. -/
theorem judge_of_clear
    (clear : session.Clear)
    (line : Line)
    {fuel : Nat}
    (enough : size ≤ fuel) :
    ∃ judged,
      judge strings fuel (session.buffer line) = some judged ∧
        judged.branch = line.builtin ∧
          judged.effects = line.answer strings := by
  obtain ⟨reads, performed⟩ := perform_of_clear clear line enough
  have selected := select_eq_builtin (clear.ended line)
  refine
    ⟨{ branch := line.builtin
       effects := line.answer strings
       reads := (select (session.buffer line) chain).2 ++ reads },
      ?_, rfl, rfl⟩
  simp only [judge, selected, performed]
  rfl

end Judging

section Conversing

variable {strings : Strings}
variable {fuel : Nat}
variable {initial : Memory}

/-- The keys behind some keys are taken if the shell still waits for them. -/
theorem keys_behind
    (shell : State)
    (first second : List UInt8) :
    keys strings fuel shell (first ++ second) =
      match keys strings fuel shell first with
      | .waiting next => keys strings fuel next second
      | outcome => outcome := by
  induction first generalizing shell with
  | nil =>
      rfl
  | cons c first inductionHypothesis =>
      rw [List.cons_append, keys, keys]
      cases key strings fuel shell c with
      | waiting middle =>
          exact inductionHypothesis middle
      | panicked middle | returned middle | running =>
          rfl

/-- A newline takes the branch that the buffer is judged to take. -/
theorem key_newline_of_judged
    {shell : State}
    {judged : Judged}
    (isJudged : judge strings fuel shell.commandBuf = some judged) :
    key strings fuel shell newline =
      if judged.branch = some .panic then
        .panicked ((shell.log [.print [newline]]).log judged.effects)
      else
        .waiting
          ({ (shell.log [.print [newline]]).log judged.effects with
              commandBuf := clear shell.commandBuf shell.i
              i := 0 }.log [promptEffect strings]) := by
  simp only [key, State.log, isJudged]
  rfl

/-- A line is echoed and answered; the shell prompts again unless it panics. -/
theorem keys_of_clear
    {session : Session strings}
    (clear : session.Clear)
    (line : Line)
    (enough : size ≤ fuel) :
    ∃ next,
      keys strings fuel session.shell (line.bytes ++ [newline]) =
          (if line.builtin = some .panic then
            .panicked next
          else
            .waiting next) ∧
        next.effects =
          session.shell.effects ++ line.echoed ++ line.answer strings ++
            if line.builtin = some .panic then
              []
            else
              [promptEffect strings] := by
  obtain ⟨judged, isJudged, branch, effects⟩ :=
    judge_of_clear clear line enough
  have pressed := key_newline_of_judged isJudged
  have shown := typed_effects session.shell line.bytes
  rw [branch, effects] at pressed
  rw [keys_behind, session.types line fuel]
  simp only [keys, pressed]
  by_cases panics : line.builtin = some .panic
  · simp only [if_pos panics]
    refine ⟨_, rfl, ?_⟩
    simp [State.log, shown, Line.echoed]
  · simp only [if_neg panics]
    refine ⟨_, rfl, ?_⟩
    simp [State.log, shown, Line.echoed]

/-- From a prompt on, the shell converses. -/
theorem keys_converse
    (cleared : ∀ j < size, initial j = 0)
    (enough : size ≤ fuel)
    (earlier : List Line)
    (shell : State)
    (waits :
      keys strings fuel (start strings initial)
          (earlier.flatMap fun line => line.bytes ++ [newline]) =
        .waiting shell)
    (lines : List Line) :
    ∃ final,
      keys strings fuel shell
            (lines.flatMap fun line => line.bytes ++ [newline]) =
          (if ∃ line ∈ lines, line.builtin = some .panic then
            .panicked final
          else
            .waiting final) ∧
        final.effects = shell.effects ++ conversation strings lines := by
  induction lines generalizing earlier shell with
  | nil =>
      exact ⟨shell, by simp [keys], by simp [conversation]⟩
  | cons line lines inductionHypothesis =>
      let session : Session strings := {
        initial := initial
        earlier := earlier
        shell := shell
        waits := ⟨fuel, waits⟩ }
      have clear : session.Clear := cleared
      obtain ⟨next, answered, effects⟩ := keys_of_clear clear line enough
      rw [List.flatMap_cons]
      by_cases panics : line.builtin = some .panic
      · rw [if_pos panics] at answered effects
        have panicsThere :
            ∃ other ∈ line :: lines, other.builtin = some .panic :=
          ⟨line, List.mem_cons_self, panics⟩
        refine ⟨next, ?_, ?_⟩
        · rw [keys_behind, answered, if_pos panicsThere]
        · simp [effects, conversation, panics, session]
      · rw [if_neg panics] at answered effects
        have waits' :
            keys strings fuel (start strings initial)
                ((earlier ++ [line]).flatMap fun line =>
                  line.bytes ++ [newline]) =
              .waiting next := by
          rw [List.flatMap_append, keys_behind, waits]
          simpa using answered
        obtain ⟨final, ended, allEffects⟩ :=
          inductionHypothesis (earlier ++ [line]) next waits'
        refine ⟨final, ?_, ?_⟩
        · rw [keys_behind, answered]
          simp [ended, panics]
        · simp [allEffects, effects, conversation, panics, session]

/--
If `command_buf` is clear at the start, any lines lead to a conversation: each
is echoed and answered on its own, in order, and nothing but a panic ends it.
-/
theorem shell_converses
    (strings : Strings)
    (fuel : Nat)
    (initial : Memory)
    (lines : List Line)
    (cleared : ∀ j < size, initial j = 0)
    (enough : size ≤ fuel) :
    ∃ final,
      keys strings fuel (start strings initial)
            (lines.flatMap fun line => line.bytes ++ [newline]) =
          (if ∃ line ∈ lines, line.builtin = some .panic then
            .panicked final
          else
            .waiting final) ∧
        final.effects =
          [.resetVideoMemory, promptEffect strings] ++
            conversation strings lines :=
  keys_converse cleared enough [] (start strings initial) rfl lines

def panicLine : Line where
  bytes := chars "panic"
  short := by decide
  noNewline := by decide
  noNul := by decide

/-- The lines `ls` and `panic`, on a clear stack -/
theorem shell_converses_ls :
    ∃ final,
      keys ⟨chars ">", [], []⟩ size
            (start ⟨chars ">", [], []⟩ fun _ => 0)
            (chars "ls\npanic\n") =
          .panicked final ∧
        final.effects =
          [.resetVideoMemory, .print (chars "> "), .print (chars "l"),
            .print (chars "s"), .print (chars "\n"),
            .print (chars "`ls' is not a valid command.\n"),
            .print (chars "> "), .print (chars "p"), .print (chars "a"),
            .print (chars "n"), .print (chars "i"), .print (chars "c"),
            .print (chars "\n"), .panic (-1)] := by
  obtain ⟨final, ended, effects⟩ :=
    shell_converses ⟨chars ">", [], []⟩ size (fun _ => 0)
      [lsLine, panicLine] (fun _ _ => rfl) (Nat.le_refl _)
  have panics :
      ∃ line ∈ [lsLine, panicLine], line.builtin = some .panic :=
    ⟨panicLine, by simp, by decide⟩
  rw [if_pos panics] at ended
  exact ⟨final, ended, effects.trans (by decide)⟩

end Conversing

end Relics.Shell
