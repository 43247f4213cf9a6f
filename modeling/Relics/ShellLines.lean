import Relics.ShellSource

namespace Relics.Shell

/-!
# Whether a line of the shell is judged on its own

The newline is not stored, so the byte behind a line in `command_buf` is what
earlier lines or the stack left there.  It is 0 if an earlier line was at
least as long.  Otherwise a comparison, the loop of `echo` or the error message
may go on into bytes that are not of the line.
-/

open ByteMemory Print

section Buffers

variable
    {buf : Memory}
    {i : Nat}
    {text line : List UInt8}

/-- A text stands in memory; nothing is said about the byte behind it. -/
def Starts (buf : Memory) : (i : Nat) → (text : List UInt8) → Prop
  | _, [] => True
  | i, byte :: rest => buf i = byte ∧ Starts buf (i + 1) rest

/-- A comparison finds no difference exactly if the text stands there. -/
theorem memcmp_eq_zero_iff
    (buf : Memory)
    (text : List UInt8)
    (i : Nat) :
    (memcmp buf text i).1 = 0 ↔ Starts buf i text := by
  induction text generalizing i with
  | nil =>
      simp [memcmp, Starts]
  | cons byte rest inductionHypothesis =>
      by_cases same : buf i = byte
      · simp [memcmp, Starts, same, inductionHypothesis]
      · have apart : (buf i).toInt8.toInt - byte.toInt8.toInt ≠ 0 := by
          intro zero
          have signed : (buf i).toInt8 = byte.toInt8 :=
            Int8.toInt_inj.mp (by omega)
          exact same (congrArg Int8.toUInt8 signed)
        simp [memcmp, Starts, same, apart]

/-- A comparison stays inside the length of its text. -/
theorem memcmp_reads
    (buf : Memory)
    (text : List UInt8)
    (i : Nat) :
    ∀ read ∈ (memcmp buf text i).2, read < i + text.length := by
  induction text generalizing i with
  | nil =>
      simp [memcmp]
  | cons byte rest inductionHypothesis =>
      by_cases same : buf i = byte
      · simp only [memcmp, same, if_true, List.forall_mem_cons,
          List.length_cons]
        refine ⟨by omega, fun read member => ?_⟩
        have inside := inductionHypothesis (i + 1) read member
        omega
      · simp [memcmp, same]

/-- Parts of a text stand one behind the other. -/
theorem starts_append
    (first second : List UInt8) :
    Starts buf i (first ++ second) ↔
      Starts buf i first ∧ Starts buf (i + first.length) second := by
  induction first generalizing i with
  | nil =>
      simp [Starts]
  | cons byte first inductionHypothesis =>
      rw [List.cons_append, Starts, Starts, inductionHypothesis, and_assoc,
        List.length_cons, Nat.add_assoc, Nat.add_comm 1]

/-- The beginning of a text stands where the text does. -/
theorem Starts.of_shorter
    (starts : Starts buf i line)
    (begins : text <+: line) :
    Starts buf i text := by
  obtain ⟨rest, rfl⟩ := begins
  exact ((starts_append text rest).mp starts).1

/-- Of two texts at the same place one is the beginning of the other. -/
theorem starts_comparable
    {first second : List UInt8}
    (starts : Starts buf i first)
    (starts' : Starts buf i second) :
    first <+: second ∨ second <+: first := by
  induction first generalizing i second with
  | nil =>
      exact .inl List.nil_prefix
  | cons byte first inductionHypothesis =>
      cases second with
      | nil =>
          exact .inr List.nil_prefix
      | cons byte' second =>
          obtain ⟨here, later⟩ := starts
          obtain ⟨here', later'⟩ := starts'
          obtain rfl : byte = byte' := here.symm.trans here'
          simpa only [List.cons_prefix_cons, true_and] using
            inductionHypothesis later later'

/-- A text without NUL that stands before a NUL ends before it. -/
theorem Starts.prefix_of_nul
    (starts : Starts buf i line)
    (nul : buf (i + line.length) = 0)
    (nonzero : 0 ∉ text)
    (starts' : Starts buf i text) :
    text <+: line := by
  obtain begins | begins := starts_comparable starts' starts
  · exact begins
  · obtain ⟨rest, rfl⟩ := begins
    cases rest with
    | nil =>
        simp
    | cons byte rest =>
        obtain ⟨here, -⟩ := ((starts_append line _).mp starts').2
        rw [nul] at here
        simp [← here] at nonzero

end Buffers

section Loops

variable
    {stops : UInt8 → Bool}
    {buf : Memory}
    {line : List UInt8}

/-- A loop that stops right behind a line has read the line. -/
theorem readUntil_line
    {i : Nat}
    (starts : Starts buf i line)
    (goesOn : ∀ byte ∈ line, stops byte = false)
    (ends : stops (buf (i + line.length)) = true)
    (fuel : Nat) :
    readUntil stops buf fuel i =
      if line.length < fuel then
        some (line, List.range' i (line.length + 1))
      else
        none := by
  induction line generalizing i fuel with
  | nil =>
      cases fuel with
      | zero =>
          rfl
      | succ fuel =>
          have here : stops (buf i) = true := ends
          simp [readUntil, here]
  | cons byte line inductionHypothesis =>
      cases fuel with
      | zero =>
          rfl
      | succ fuel =>
          obtain ⟨here, later⟩ := starts
          rw [List.forall_mem_cons] at goesOn
          rw [List.length_cons, Nat.add_comm line.length 1,
            ← Nat.add_assoc] at ends
          have rest := inductionHypothesis later goesOn.2 ends fuel
          rw [readUntil, here, goesOn.1, rest]
          by_cases enough : line.length < fuel
          · simp [enough, List.range'_succ]
          · simp [enough]

/-- A loop that does not stop right behind a line finds more than the line. -/
theorem readUntil_longer
    {i fuel : Nat}
    {found : List UInt8}
    {reads : List Nat}
    (starts : Starts buf i line)
    (goesOn : ∀ byte ∈ line, stops byte = false)
    (continues : stops (buf (i + line.length)) = false)
    (read : readUntil stops buf fuel i = some (found, reads)) :
    line.length < found.length := by
  induction line generalizing i fuel found reads with
  | nil =>
      cases fuel with
      | zero =>
          cases read
      | succ fuel =>
          have here : stops (buf i) = false := continues
          rw [readUntil, here] at read
          obtain ⟨⟨rest, more⟩, -, same⟩ := Option.bind_eq_some_iff.mp read
          simp only [Option.some.injEq, Prod.mk.injEq] at same
          simp [← same.1]
  | cons byte line inductionHypothesis =>
      cases fuel with
      | zero =>
          cases read
      | succ fuel =>
          obtain ⟨here, later⟩ := starts
          rw [List.forall_mem_cons] at goesOn
          rw [List.length_cons, Nat.add_comm line.length 1,
            ← Nat.add_assoc] at continues
          rw [readUntil, here, goesOn.1] at read
          obtain ⟨⟨rest, more⟩, next, same⟩ := Option.bind_eq_some_iff.mp read
          simp only [Option.some.injEq, Prod.mk.injEq] at same
          have longer := inductionHypothesis later goesOn.2 continues next
          rw [← same.1, List.length_cons, List.length_cons]
          omega

end Loops

section Selection

variable
    {buf : Memory}
    {builtin : Builtin}

/-- No name of a builtin is the beginning of another. -/
theorem name_begins
    {other : Builtin}
    (begins : builtin.name <+: other.name) :
    builtin = other := by
  revert begins
  cases builtin <;> cases other <;> decide

/-- At most one name stands at the start of the buffer. -/
theorem starts_unique
    {other : Builtin}
    (starts : Starts buf 0 builtin.name)
    (starts' : Starts buf 0 other.name) :
    builtin = other := by
  obtain begins | begins := starts_comparable starts starts'
  · exact name_begins begins
  · exact (name_begins begins).symm

theorem name_nonzero (builtin : Builtin) : 0 ∉ builtin.name := by
  cases builtin <;> decide

theorem name_length (builtin : Builtin) :
    5 ≤ builtin.name.length ∧ builtin.name.length ≤ 7 := by
  cases builtin <;> decide

/-- The comparisons select the builtin whose name stands in the buffer. -/
theorem select_of_starts
    {builtins : List Builtin}
    (member : builtin ∈ builtins)
    (starts : Starts buf 0 builtin.name) :
    (select buf builtins).1 = some builtin := by
  induction builtins with
  | nil =>
      cases member
  | cons first rest inductionHypothesis =>
      have compared := memcmp_eq_zero_iff buf first.name 0
      by_cases same : Starts buf 0 first.name
      · obtain rfl := starts_unique starts same
        simp [select, strncmp, compared.mpr starts]
      · have later : builtin ∈ rest := by
          cases member with
          | head =>
              exact absurd starts same
          | tail _ later =>
              exact later
        simp [select, strncmp, mt compared.mp same, inductionHypothesis later]

/-- Without a name in the buffer nothing is selected. -/
theorem select_of_not_starts
    (builtins : List Builtin)
    (none : ∀ builtin : Builtin, ¬ Starts buf 0 builtin.name) :
    (select buf builtins).1 = .none := by
  induction builtins with
  | nil =>
      rfl
  | cons first rest inductionHypothesis =>
      have compared := memcmp_eq_zero_iff buf first.name 0
      simp [select, strncmp, mt compared.mp (none first), inductionHypothesis]

/-- The comparisons stay inside the longest name. -/
theorem select_reads
    (buf : Memory)
    (builtins : List Builtin) :
    ∀ read ∈ (select buf builtins).2, read < 7 := by
  induction builtins with
  | nil =>
      simp [select]
  | cons first rest inductionHypothesis =>
      have inside : ∀ read ∈ (strncmp buf first.name).2, read < 7 := by
        intro read member
        have below := memcmp_reads buf first.name 0 read member
        have length := (name_length first).2
        omega
      simp only [select]
      split
      · exact inside
      · intro read member
        obtain compared | later := List.mem_append.mp member
        · exact inside read compared
        · exact inductionHypothesis read later

end Selection

section Keys

variable
    {strings : Strings}
    {fuel : Nat}

/-- The keys of a line: no newline, and no NUL, which `getchark` never returns. -/
structure Line where
  bytes : List UInt8
  short : bytes.length ≤ 4095
  noNewline : newline ∉ bytes
  noNul : 0 ∉ bytes

/-- Keys are typed one after the other. -/
theorem keys_append
    {shell next : State}
    {first second : List UInt8}
    (returned : keys strings fuel shell (first ++ second) = .waiting next) :
    ∃ middle,
      keys strings fuel shell first = .waiting middle ∧
        keys strings fuel middle second = .waiting next := by
  induction first generalizing shell with
  | nil =>
      exact ⟨shell, rfl, returned⟩
  | cons c first inductionHypothesis =>
      rw [List.cons_append, keys] at returned
      rw [keys]
      cases pressed : key strings fuel shell c with
      | waiting shell =>
          rw [pressed] at returned
          exact inductionHypothesis returned
      | panicked shell | returned shell | running =>
          rw [pressed] at returned
          cases returned

/-- The loop that clears the buffer clears it up to its index. -/
theorem clear_apply
    (buf : Memory)
    (i j : Nat) :
    clear buf i j = if j ≤ i then 0 else buf j := by
  induction i generalizing buf with
  | zero =>
      by_cases first : j = 0
      · simp [clear, setByte, first]
      · simp [clear, setByte, first]
  | succ i inductionHypothesis =>
      rw [clear, inductionHypothesis]
      by_cases last : j = i + 1
      · simp [setByte, last]
      · have same : j ≤ i ↔ j ≤ i + 1 := by
          omega
        simp [setByte, last, same]

/-- The shell after the keys of a line. -/
def typed (shell : State) : List UInt8 → State
  | [] => shell
  | c :: rest =>
      typed
        { shell.log [.print [c]] with
          commandBuf := setByte shell.commandBuf shell.i c
          i := shell.i + 1 }
        rest

/-- The keys of a line are only stored and printed. -/
theorem keys_line
    (strings : Strings)
    (fuel : Nat)
    (shell : State)
    {bytes : List UInt8}
    (noNewline : newline ∉ bytes)
    (room : shell.i + bytes.length < size) :
    keys strings fuel shell bytes = .waiting (typed shell bytes) := by
  induction bytes generalizing shell with
  | nil =>
      rfl
  | cons c bytes inductionHypothesis =>
      obtain ⟨here, later⟩ := not_or.mp (mt List.mem_cons.mpr noNewline)
      rw [List.length_cons] at room
      let next : State :=
        { shell.log [.print [c]] with
          commandBuf := setByte shell.commandBuf shell.i c
          i := shell.i + 1 }
      have step : key strings fuel shell c = .waiting next := by
        have inside : shell.i + 1 < size := by
          omega
        rw [key, if_neg (Ne.symm here)]
        exact if_pos inside
      rw [keys, step]
      exact inductionHypothesis next later (by simp only [next]; omega)

theorem typed_i (shell : State) (bytes : List UInt8) :
    (typed shell bytes).i = shell.i + bytes.length := by
  induction bytes generalizing shell with
  | nil =>
      rfl
  | cons c bytes inductionHypothesis =>
      rw [typed, inductionHypothesis, List.length_cons]
      simp only
      omega

/-- The keys of a line change no other byte. -/
theorem typed_other
    (shell : State)
    {bytes : List UInt8}
    {j : Nat}
    (outside : j < shell.i ∨ shell.i + bytes.length ≤ j) :
    (typed shell bytes).commandBuf j = shell.commandBuf j := by
  induction bytes generalizing shell with
  | nil =>
      rfl
  | cons c bytes inductionHypothesis =>
      rw [List.length_cons] at outside
      rw [typed, inductionHypothesis _ (by simp only; omega)]
      exact setByte_other (by omega)

/-- The keys of a line are stored one behind the other. -/
theorem typed_starts
    (shell : State)
    (bytes : List UInt8) :
    Starts (typed shell bytes).commandBuf shell.i bytes := by
  induction bytes generalizing shell with
  | nil =>
      trivial
  | cons c bytes inductionHypothesis =>
      refine ⟨?_, inductionHypothesis _⟩
      rw [typed, typed_other _ (.inl (Nat.lt_succ_self _))]
      exact setByte_same _ _ _

/-- The shell waits after a newline with the buffer cleared up to there. -/
theorem key_newline
    {shell next : State}
    (returned : key strings fuel shell newline = .waiting next) :
    next.i = 0 ∧ next.commandBuf = clear shell.commandBuf shell.i := by
  simp only [key, if_true] at returned
  split at returned
  · cases returned
  · split at returned
    · cases returned
    · obtain rfl := Outcome.waiting.inj returned
      exact ⟨rfl, rfl⟩

/-- The byte behind a line that earlier lines and the stack have left. -/
def leftAt (initial : Memory) (earlier : List Line) (j : Nat) : UInt8 :=
  if ∃ line ∈ earlier, j ≤ line.bytes.length then 0 else initial j

/-- A line that is judged leaves the buffer cleared as far as it went. -/
theorem keys_entered
    {shell next : State}
    (line : Line)
    (fresh : shell.i = 0)
    (returned :
      keys strings fuel shell (line.bytes ++ [newline]) = .waiting next) :
    next.i = 0 ∧
      ∀ j,
        next.commandBuf j =
          if j ≤ line.bytes.length then 0 else shell.commandBuf j := by
  have short := line.short
  obtain ⟨middle, run, last⟩ := keys_append returned
  rw [keys_line strings fuel shell line.noNewline
    (by rw [fresh, size]; omega)] at run
  obtain rfl := Outcome.waiting.inj run
  have pressed :
      key strings fuel (typed shell line.bytes) newline = .waiting next := by
    rw [keys] at last
    split at last
    · case _ after pressed =>
        exact pressed.trans last
    · exact last
  obtain ⟨index, buffer⟩ := key_newline pressed
  refine ⟨index, fun j => ?_⟩
  rw [buffer, clear_apply, typed_i, fresh, Nat.zero_add]
  split
  · rfl
  · exact typed_other shell (.inr (by omega))

/-- What the buffer holds when the shell waits for the next line. -/
theorem keys_history
    {shell next : State}
    (earlier : List Line)
    (fresh : shell.i = 0)
    (returned :
      keys strings fuel shell
          (earlier.flatMap fun line => line.bytes ++ [newline]) =
        .waiting next) :
    next.i = 0 ∧
      ∀ j, next.commandBuf j = leftAt shell.commandBuf earlier j := by
  induction earlier generalizing shell with
  | nil =>
      obtain rfl := Outcome.waiting.inj returned
      exact ⟨fresh, fun j => by simp [leftAt]⟩
  | cons line earlier inductionHypothesis =>
      rw [List.flatMap_cons] at returned
      obtain ⟨middle, entered, rest⟩ := keys_append returned
      obtain ⟨index, buffer⟩ := keys_entered line fresh entered
      obtain ⟨last, left⟩ := inductionHypothesis index rest
      refine ⟨last, fun j => ?_⟩
      rw [left, leftAt, leftAt, buffer]
      simp only [List.mem_cons, exists_eq_or_imp]
      by_cases here : j ≤ line.bytes.length
      · simp [here]
      · simp [here]

end Keys

section Sessions

variable {strings : Strings}

/-- A shell that has come back to its prompt after some lines. -/
structure Session (strings : Strings) where
  /-- the initial content of `command_buf` and of the memory behind it -/
  initial : Memory
  earlier : List Line
  shell : State
  waits :
    ∃ fuel,
      keys strings fuel (start strings initial)
          (earlier.flatMap fun line => line.bytes ++ [newline]) =
        .waiting shell

/-- The byte behind a line when it is judged. -/
def Session.behind (session : Session strings) (line : Line) : UInt8 :=
  leftAt session.initial session.earlier line.bytes.length

/-- The buffer when a line is judged. -/
def Session.buffer (session : Session strings) (line : Line) : Memory :=
  (typed session.shell line.bytes).commandBuf

/-- A line entered in a session is judged so. -/
def Judges (session : Session strings) (line : Line) (judged : Judged) : Prop :=
  ∃ fuel, judge strings fuel (session.buffer line) = some judged

/-- The text that a branch prints. -/
def Judged.printed (judged : Judged) : List UInt8 :=
  judged.effects.flatMap Effect.printed

/-- The branches that print what is in the buffer. -/
def PrintsBuffer (branch : Option Builtin) : Prop :=
  branch = some .echo ∨ branch = none

/--
Two sessions judge a line alike: both take the same branch, print the same
text from the buffer and read the buffer inside its bounds.
-/
def Alike (session other : Session strings) (line : Line) : Prop :=
  ∃ judged judged',
    Judges session line judged ∧
      Judges other line judged' ∧
      judged.branch = judged'.branch ∧
      (PrintsBuffer judged.branch → judged.printed = judged'.printed) ∧
      (∀ read ∈ judged.reads, read < size) ∧
      ∀ read ∈ judged'.reads, read < size

/-- The builtins that do not print what is in the buffer. -/
def fixed : List Builtin :=
  [.fetchme, .cursor, .panic, .sleep]

/--
The line ends where its bytes end: it begins with a builtin that prints no
part of the buffer, or the byte behind it is 0, or it begins with `echo ` and
the byte behind it is a newline.
-/
def Ended (session : Session strings) (line : Line) : Prop :=
  (∃ builtin ∈ fixed, builtin.name <+: line.bytes) ∨
    session.behind line = 0 ∨
    (Builtin.echo.name <+: line.bytes ∧ session.behind line = newline)

/-- The shell waits for the first key of a line. -/
theorem Session.waits_fresh (session : Session strings) :
    session.shell.i = 0 ∧
      ∀ j,
        session.shell.commandBuf j =
          leftAt session.initial session.earlier j := by
  obtain ⟨fuel, returned⟩ := session.waits
  exact keys_history session.earlier rfl returned

/-- The keys of a line lead to the buffer that is judged at the newline. -/
theorem Session.types
    (session : Session strings)
    (line : Line)
    (fuel : Nat) :
    keys strings fuel session.shell line.bytes =
      .waiting (typed session.shell line.bytes) := by
  have short := line.short
  apply keys_line strings fuel session.shell line.noNewline
  rw [session.waits_fresh.1, size]
  omega

/-- The line stands in the buffer. -/
theorem Session.buffer_starts
    (session : Session strings)
    (line : Line) :
    Starts (session.buffer line) 0 line.bytes := by
  have starts := typed_starts session.shell line.bytes
  rwa [session.waits_fresh.1] at starts

/-- Behind the line the buffer is as it was left. -/
theorem Session.buffer_behind
    (session : Session strings)
    (line : Line) :
    session.buffer line (0 + line.bytes.length) = session.behind line := by
  obtain ⟨fresh, left⟩ := session.waits_fresh
  rw [Session.buffer, typed_other session.shell (.inr (by rw [fresh])), left,
    Nat.zero_add]
  rfl

/-- A branch is selected exactly if its name stands in the buffer. -/
theorem select_eq_some_iff
    (buf : Memory)
    (builtin : Builtin) :
    (select buf chain).1 = some builtin ↔ Starts buf 0 builtin.name := by
  constructor
  · intro selected
    by_contra absent
    by_cases other : ∃ builtin : Builtin, Starts buf 0 builtin.name
    · obtain ⟨builtin', starts⟩ := other
      have member : builtin' ∈ chain := by
        cases builtin' <;> decide
      rw [select_of_starts member starts] at selected
      obtain rfl := Option.some.inj selected
      exact absent starts
    · rw [select_of_not_starts chain (not_exists.mp other)] at selected
      cases selected
  · intro starts
    have member : builtin ∈ chain := by
      cases builtin <;> decide
    exact select_of_starts member starts

/-- A judgement is the branch that is selected and what it does. -/
theorem judge_eq_some
    {fuel : Nat}
    {buf : Memory}
    {judged : Judged}
    (judges : judge strings fuel buf = some judged) :
    ∃ reads,
      judged.branch = (select buf chain).1 ∧
        perform strings fuel buf judged.branch = some (judged.effects, reads) ∧
        judged.reads = (select buf chain).2 ++ reads := by
  unfold judge at judges
  obtain ⟨⟨effects, reads⟩, performed, same⟩ := Option.bind_eq_some_iff.mp judges
  obtain rfl := Option.some.inj same
  exact ⟨reads, rfl, performed, rfl⟩

/-- The text that a line asks for by itself. -/
def Line.text (line : Line) : List UInt8 :=
  if Builtin.echo.name <+: line.bytes then
    line.bytes.drop 5 ++ chars "\n"
  else
    invalidMessage line.bytes

/-- A judgement that depends on the bytes of the line only. -/
structure Own (line : Line) (judged : Judged) : Prop where
  branch :
    ∀ builtin : Builtin,
      judged.branch = some builtin ↔ builtin.name <+: line.bytes
  text : PrintsBuffer judged.branch → judged.printed = line.text
  inside : ∀ read ∈ judged.reads, read < size

theorem printed_echoEffects (found : List UInt8) :
    (echoEffects found).flatMap Effect.printed = found ++ chars "\n" := by
  rw [echoEffects, List.flatMap_append, List.flatMap_map]
  simp [Effect.printed]

/-- The bytes of a line that `echo` prints stand behind its name. -/
theorem starts_echo
    {buf : Memory}
    {bytes : List UInt8}
    (begins : Builtin.echo.name <+: bytes)
    (starts : Starts buf 0 bytes) :
    Starts buf 5 (bytes.drop 5) ∧ 5 + (bytes.drop 5).length = bytes.length := by
  obtain ⟨rest, rfl⟩ := begins
  have behind := ((starts_append _ _).mp starts).2
  have length : Builtin.echo.name.length = 5 := rfl
  rw [length, Nat.zero_add] at behind
  rw [← length, List.drop_left, List.length_append]
  exact ⟨length ▸ behind, rfl⟩

/-- The bytes of a line stop neither of the loops. -/
theorem Line.goesOn
    (line : Line) :
    (∀ byte ∈ line.bytes, endsEcho byte = false) ∧
      ∀ byte ∈ line.bytes, endsString byte = false := by
  have notNewline (byte : UInt8) (member : byte ∈ line.bytes) :
      byte ≠ newline :=
    fun same => line.noNewline (same ▸ member)
  have notNul (byte : UInt8) (member : byte ∈ line.bytes) : byte ≠ 0 :=
    fun same => line.noNul (same ▸ member)
  constructor
  · intro byte member
    simp [endsEcho, notNewline byte member, notNul byte member]
  · intro byte member
    simp [endsString, notNul byte member]

section Judgements

variable
    {session : Session strings}
    {line : Line}
    {judged : Judged}

/-- In a session where the line ends, the branch is that of the line. -/
theorem branch_of_ended
    (ended : Ended session line)
    (builtin : Builtin) :
    (select (session.buffer line) chain).1 = some builtin ↔
      builtin.name <+: line.bytes := by
  have starts := session.buffer_starts line
  rw [select_eq_some_iff]
  constructor
  · intro present
    obtain ⟨other, -, begins⟩ | nul | ⟨begins, -⟩ := ended
    · rwa [starts_unique present (starts.of_shorter begins)]
    · rw [← session.buffer_behind line] at nul
      exact starts.prefix_of_nul nul (name_nonzero builtin) present
    · rwa [starts_unique present (starts.of_shorter begins)]
  · intro begins
    exact starts.of_shorter begins

/-- `echo` prints the rest of a line that ends. -/
theorem echo_of_ended
    (ended : Ended session line)
    (begins : Builtin.echo.name <+: line.bytes)
    (fuel : Nat) :
    echoBuiltin fuel (session.buffer line) =
      if (line.bytes.drop 5).length < fuel then
        some
          (echoEffects (line.bytes.drop 5),
            List.range' 5 ((line.bytes.drop 5).length + 1))
      else
        none := by
  have starts := session.buffer_starts line
  obtain ⟨rest, length⟩ := starts_echo begins starts
  have behind := session.buffer_behind line
  rw [Nat.zero_add, ← length] at behind
  have ends :
      endsEcho (session.buffer line (5 + (line.bytes.drop 5).length)) = true := by
    rw [behind]
    obtain ⟨other, member, begins'⟩ | nul | ⟨-, last⟩ := ended
    · have same :=
        starts_unique (starts.of_shorter begins') (starts.of_shorter begins)
      rw [same] at member
      exact absurd member (by decide)
    · rw [nul]
      rfl
    · rw [last]
      rfl
  have goesOn : ∀ byte ∈ line.bytes.drop 5, endsEcho byte = false :=
    fun byte member => line.goesOn.1 byte (List.mem_of_mem_drop member)
  rw [echoBuiltin, readUntil_line rest goesOn ends fuel]
  split <;> rfl

/-- The error message shows a line that ends. -/
theorem invalid_of_ended
    (ended : Ended session line)
    (unknown : ∀ builtin : Builtin, ¬ builtin.name <+: line.bytes)
    (fuel : Nat) :
    invalidCommand fuel (session.buffer line) =
      if line.bytes.length < fuel then
        some
          ([.print (invalidMessage line.bytes)],
            List.range' 0 (line.bytes.length + 1))
      else
        none := by
  have ends :
      endsString (session.buffer line (0 + line.bytes.length)) = true := by
    rw [session.buffer_behind line]
    obtain ⟨other, -, begins⟩ | nul | ⟨begins, -⟩ := ended
    · exact absurd begins (unknown other)
    · rw [nul]
      rfl
    · exact absurd begins (unknown .echo)
  rw [invalidCommand,
    readUntil_line (session.buffer_starts line) line.goesOn.2 ends fuel]
  split <;> rfl

/-- `cursor` reads two bytes of the buffer. -/
theorem cursorBuiltin_reads_lt (buffer : Memory) :
    ∀ read ∈ (cursorBuiltin buffer).2, read < size := by
  unfold cursorBuiltin
  split
  · split
    · decide
    · split <;> decide
  · decide

/-- `sleep` reads one byte of the buffer. -/
theorem sleepBuiltin_reads_lt (buffer : Memory) :
    ∀ read ∈ (sleepBuiltin buffer).2, read < size := by
  unfold sleepBuiltin
  split <;> simp [size]

/-- Reading a line on to its end stays inside the buffer. -/
theorem lineReads_lt
    {start count read : Nat}
    (line : Line)
    (within : start + count ≤ line.bytes.length + 1)
    (member : read ∈ List.range' start count) :
    read < size := by
  have short := line.short
  rw [List.mem_range'_1] at member
  rw [size]
  omega

/-- In a session where the line ends, its branch stays inside the line. -/
theorem perform_of_ended
    {fuel : Nat}
    {branch : Option Builtin}
    {effects : List Effect}
    {reads : List Nat}
    (ended : Ended session line)
    (branches :
      ∀ builtin : Builtin,
        branch = some builtin ↔ builtin.name <+: line.bytes)
    (performed :
      perform strings fuel (session.buffer line) branch =
        some (effects, reads)) :
    (PrintsBuffer branch → effects.flatMap Effect.printed = line.text) ∧
      ∀ read ∈ reads, read < size := by
  cases branch with
  | none =>
      have unknown (builtin : Builtin) : ¬ builtin.name <+: line.bytes := by
        rw [← branches]
        simp
      simp only [perform, invalid_of_ended ended unknown] at performed
      split at performed
      · cases performed
        rw [Line.text, if_neg (unknown .echo)]
        refine ⟨fun _ => by simp [Effect.printed], fun read member => ?_⟩
        exact lineReads_lt line (by omega) member
      · cases performed
  | some builtin =>
      cases builtin with
      | echo =>
          have begins := (branches .echo).mp rfl
          have length := (starts_echo begins (session.buffer_starts line)).2
          simp only [perform, echo_of_ended ended begins] at performed
          split at performed
          · cases performed
            rw [Line.text, if_pos begins, printed_echoEffects]
            refine ⟨fun _ => rfl, fun read member => ?_⟩
            exact lineReads_lt line (by omega) member
          · cases performed
      | fetchme | panic =>
          cases performed
          exact ⟨by simp [PrintsBuffer], by simp⟩
      | cursor =>
          refine ⟨by simp [PrintsBuffer], ?_⟩
          have bounded := cursorBuiltin_reads_lt (session.buffer line)
          rwa [Option.some.inj performed] at bounded
      | sleep =>
          refine ⟨by simp [PrintsBuffer], ?_⟩
          have bounded := sleepBuiltin_reads_lt (session.buffer line)
          rwa [Option.some.inj performed] at bounded

/-- In a session where the line ends, every judgement is the line's own. -/
theorem own_of_ended
    (ended : Ended session line)
    (judges : Judges session line judged) :
    Own line judged := by
  obtain ⟨fuel, judges⟩ := judges
  obtain ⟨reads, branch, performed, allReads⟩ := judge_eq_some judges
  have branches (builtin : Builtin) :
      judged.branch = some builtin ↔ builtin.name <+: line.bytes := by
    rw [branch]
    exact branch_of_ended ended builtin
  obtain ⟨text, inside⟩ := perform_of_ended ended branches performed
  refine ⟨branches, text, fun read member => ?_⟩
  rw [allReads] at member
  obtain compared | performing := List.mem_append.mp member
  · exact Nat.lt_trans (select_reads _ _ read compared) (by decide)
  · exact inside read performing

/-- In a session where the line ends, it is judged. -/
theorem judges_of_ended
    (ended : Ended session line) :
    ∃ judged, Judges session line judged := by
  have short := line.short
  suffices performs :
      ∃ result,
        perform strings size (session.buffer line)
          (select (session.buffer line) chain).1 = some result by
    obtain ⟨result, performed⟩ := performs
    exact ⟨_, size, by simp only [judge, performed]; rfl⟩
  have branches := branch_of_ended ended
  cases selected : (select (session.buffer line) chain).1 with
  | none =>
      have unknown (builtin : Builtin) : ¬ builtin.name <+: line.bytes := by
        rw [← branches, selected]
        simp
      rw [perform, invalid_of_ended ended unknown,
        if_pos (by rw [size]; omega)]
      exact ⟨_, rfl⟩
  | some builtin =>
      cases builtin with
      | echo =>
          have begins := (branches .echo).mp selected
          rw [perform, echo_of_ended ended begins,
            if_pos (by rw [List.length_drop, size]; omega)]
          exact ⟨_, rfl⟩
      | fetchme | cursor | panic | sleep =>
          exact ⟨_, rfl⟩

/-- Where the line does not end, `echo` prints more than the line. -/
theorem echo_of_not_ended
    {fuel : Nat}
    {effects : List Effect}
    {reads : List Nat}
    (begins : Builtin.echo.name <+: line.bytes)
    (continues : endsEcho (session.behind line) = false)
    (performed :
      echoBuiltin fuel (session.buffer line) = some (effects, reads)) :
    effects.flatMap Effect.printed ≠ line.text := by
  obtain ⟨⟨found, more⟩, read, same⟩ := Option.bind_eq_some_iff.mp performed
  simp only [Option.some.injEq, Prod.mk.injEq] at same
  obtain ⟨rest, length⟩ := starts_echo begins (session.buffer_starts line)
  rw [← session.buffer_behind line, Nat.zero_add, ← length] at continues
  have longer :=
    readUntil_longer rest
      (fun byte member => line.goesOn.1 byte (List.mem_of_mem_drop member))
      continues read
  intro printed
  rw [← same.1, printed_echoEffects, Line.text, if_pos begins,
    List.append_cancel_right_eq] at printed
  rw [printed] at longer
  exact Nat.lt_irrefl _ longer

/-- Where the line does not end, the error message shows more than the line. -/
theorem invalid_of_not_ended
    {fuel : Nat}
    {effects : List Effect}
    {reads : List Nat}
    (noEcho : ¬ Builtin.echo.name <+: line.bytes)
    (continues : endsString (session.behind line) = false)
    (performed :
      invalidCommand fuel (session.buffer line) = some (effects, reads)) :
    effects.flatMap Effect.printed ≠ line.text := by
  obtain ⟨⟨found, more⟩, read, same⟩ := Option.bind_eq_some_iff.mp performed
  simp only [Option.some.injEq, Prod.mk.injEq] at same
  rw [← session.buffer_behind line] at continues
  have longer :=
    readUntil_longer (session.buffer_starts line) line.goesOn.2 continues read
  intro printed
  rw [← same.1, Line.text, if_neg noEcho] at printed
  simp only [List.flatMap_cons, List.flatMap_nil, Effect.printed,
    List.append_nil, invalidMessage, List.append_assoc,
    List.append_cancel_left_eq, List.append_cancel_right_eq] at printed
  rw [printed] at longer
  exact Nat.lt_irrefl _ longer

/-- Where the line does not end, no judgement is the line's own. -/
theorem not_own_of_not_ended
    (notEnded : ¬ Ended session line)
    (judges : Judges session line judged) :
    ¬ Own line judged := by
  rintro ⟨branches, text, -⟩
  obtain ⟨noFixed, notNul, notEcho⟩ :
      (¬ ∃ builtin ∈ fixed, builtin.name <+: line.bytes) ∧
        session.behind line ≠ 0 ∧
        (Builtin.echo.name <+: line.bytes →
          session.behind line ≠ newline) := by
    simpa [Ended, not_or] using notEnded
  obtain ⟨fuel, judges⟩ := judges
  obtain ⟨reads, -, performed, -⟩ := judge_eq_some judges
  by_cases begins : Builtin.echo.name <+: line.bytes
  · have branch := (branches .echo).mpr begins
    rw [branch] at performed
    apply echo_of_not_ended begins _ performed
    · exact text (.inl branch)
    · simp [endsEcho, notNul, notEcho begins]
  · have unknown : judged.branch = none := by
      cases branch : judged.branch with
      | none =>
          rfl
      | some builtin =>
          have named := (branches builtin).mp branch
          cases builtin with
          | echo =>
              exact absurd named begins
          | fetchme | cursor | panic | sleep =>
              exact absurd ⟨_, by decide, named⟩ noFixed
    rw [unknown] at performed
    apply invalid_of_not_ended begins _ performed
    · exact text (.inr unknown)
    · simp [endsString, notNul]

end Judgements

/-- A shell that has just started on a cleared stack. -/
def blankSession (strings : Strings) : Session strings where
  initial := fun _ => 0
  earlier := []
  shell := start strings fun _ => 0
  waits := ⟨0, rfl⟩

/-- On a cleared stack every line ends. -/
theorem ended_blankSession (line : Line) :
    Ended (blankSession strings) line := by
  refine .inr (.inl ?_)
  simp [Session.behind, leftAt, blankSession]

/-- Two judgements that are the line's own are the same. -/
theorem Own.same_branch
    {line : Line}
    {judged judged' : Judged}
    (own : Own line judged)
    (own' : Own line judged') :
    judged.branch = judged'.branch := by
  apply Option.ext
  intro builtin
  rw [own.branch, own'.branch]

/-- A session that is alike one in which the line ends judges it by itself. -/
theorem own_of_alike
    {session other : Session strings}
    {line : Line}
    (alike : Alike session other line)
    (ended : Ended other line) :
    ∃ judged, Judges session line judged ∧ Own line judged := by
  obtain ⟨judged, judged', judges, judges', branch, text, inside, -⟩ := alike
  have own := own_of_ended ended judges'
  refine ⟨judged, judges, ?_, fun buffer => ?_, inside⟩
  · rw [branch]
    exact own.branch
  · rw [text buffer]
    exact own.text (branch ▸ buffer)

/--
A session judges a line as every session does in which the line ends, exactly
if the line ends in it.
-/
theorem alike_iff_ended
    (session : Session strings)
    (line : Line) :
    (∀ other, Ended other line → Alike session other line) ↔
      Ended session line := by
  constructor
  · intro alike
    by_contra notEnded
    obtain ⟨judged, judges, own⟩ :=
      own_of_alike (alike (blankSession strings) (ended_blankSession line))
        (ended_blankSession line)
    exact not_own_of_not_ended notEnded judges own
  · intro ended other ended'
    obtain ⟨judged, judges⟩ := judges_of_ended ended
    obtain ⟨judged', judges'⟩ := judges_of_ended ended'
    have own := own_of_ended ended judges
    have own' := own_of_ended ended' judges'
    have branch := own.same_branch own'
    refine
      ⟨judged, judged', judges, judges', branch, fun buffer => ?_,
        own.inside, own'.inside⟩
    rw [own.text buffer, own'.text (branch ▸ buffer)]

/-- A shell that has just started on a stack with an x in its third byte. -/
def staleSession (strings : Strings) : Session strings where
  initial := spelled (chars "abx")
  earlier := []
  shell := start strings (spelled (chars "abx"))
  waits := ⟨0, rfl⟩

/-- The line `ls`. -/
def lsLine : Line where
  bytes := chars "ls"
  short := by decide
  noNewline := by decide
  noNul := by decide

/-- The line `ls` is shown as `lsx` there, and as `ls` on a cleared stack. -/
theorem not_alike_staleSession :
    ¬ Alike (staleSession ⟨[], [], []⟩) (blankSession ⟨[], [], []⟩) lsLine := by
  intro alike
  obtain ⟨judged, judges, own⟩ :=
    own_of_alike alike (ended_blankSession lsLine)
  have notEnded : ¬ Ended (staleSession ⟨[], [], []⟩) lsLine := by
    have behind :
        (staleSession ⟨[], [], []⟩).behind lsLine = 'x'.toUInt8 := by
      simp [Session.behind, leftAt, staleSession]
      decide
    rw [Ended, behind]
    decide
  exact not_own_of_not_ended notEnded judges own

end Sessions

end Relics.Shell
