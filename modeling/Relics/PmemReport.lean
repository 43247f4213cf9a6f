import Relics.MallocStressTest
import Relics.PanicText
import Relics.PrintReading

namespace Relics.Malloc

/-!
# What `pmem_map` prints

The usable map, and then what the heap test finds: the string in each of its
two blocks with its address, and a line for every request of the loop.  The
string is printed as it was copied, without a terminator of its own, so what
is printed behind it are bytes that the memory held at boot.
-/

open ByteMemory ExtentTiling Print
open Strings (strcpy)

section Source

/-- `MEMORY_ISSUE` -/
def memoryIssue : Int32 := 1

theorem dash_plain : '%' ∉ (chars "-").map Char.ofUInt8 := by
  decide

theorem dash_nonzero : 0 ∉ chars "-" := by
  decide

/-- `"-"`, between the first and the last byte of a region -/
def dash : Literal :=
  ⟨chars "-", dash_plain, dash_nonzero⟩

theorem dash_ne_nil : dash.bytes ≠ [] := by
  decide

/-- `"%0lx-%0lx\n"` for an entry -/
def usableLine (entry : E820Map64) : Message where
  before := []
  constant := Message.constant_nil
  fields :=
    [⟨⟨true, .lx, dash, dash_ne_nil⟩, entry.baseaddr⟩,
      ⟨⟨true, .lx, .newLine, Literal.newLine_ne_nil⟩,
        entry.baseaddr + entry.length - 1⟩]

/-- `"%llu bytes available (%lluMiB)\n"` -/
def bytesAvailable (totalLength : UInt64) : Message where
  before := []
  constant := Message.constant_nil
  fields :=
    [⟨⟨false, .llu, ⟨chars " bytes available (", by decide, by decide⟩,
        by decide⟩, totalLength⟩,
      ⟨⟨false, .llu, ⟨chars "MiB)\n", by decide, by decide⟩, by decide⟩,
        totalLength / 1024 / 1024⟩]

/-- `"%s (%p)\n"` for a string and its address -/
def stringLine (string : List UInt8) (ptr : Nat) : Message where
  before := []
  constant := Message.constant_nil
  fields :=
    [⟨⟨false, .s, .bracket, Literal.bracket_ne_nil⟩, string⟩,
      ⟨⟨false, .p, .bracketLine, Literal.bracketLine_ne_nil⟩,
        UInt64.ofNat ptr⟩]

/-- `"%llu\n"` -/
def addressLine (ptr : Nat) : Message where
  before := []
  constant := Message.constant_nil
  fields :=
    [⟨⟨false, .llu, .newLine, Literal.newLine_ne_nil⟩, UInt64.ofNat ptr⟩]

variable (leftOver : List UInt8)

/-- The loop over `usable_map` and the line behind it -/
def printUsable
    (totalLength : UInt64) :
    (usable : List E820Map64) →
    List UInt8
  | [] => (bytesAvailable totalLength).text leftOver
  | entry :: usable =>
      (usableLine entry).text leftOver ++
        printUsable (totalLength + entry.length) usable

/-- What is printed up to the call of `kmalloc_init` -/
def printUsableMap (usable : List E820Map64) : List UInt8 :=
  chars "Usable map\n" ++
    (printUsable leftOver 0 usable ++ chars "Bootstrapping malloc...\n")

/-- The loop that requests 24 bytes in every round and prints `s` -/
def printRounds
    (freeList fuel s : Nat) :
    (rounds : Nat) →
    (memory : Memory) →
    Option (List UInt8 × Ending)
  | 0, _ => some ([], .halt)
  | rounds + 1, memory => do
      let (memory, m) ← kmalloc freeList fuel memory 24
      if m = 0 then
        some (Panic.panic leftOver memoryIssue, .panic)
      else
        let (printed, ending) ← printRounds freeList fuel s rounds memory
        some ((addressLine s).text leftOver ++ printed, ending)

/--
`pmem_map` from `kmalloc_init` on, with all that it prints and how it ends;
`hello` is where its string lies
-/
def pmemMapPrints
    (freeList fuel hello : Nat)
    (memory : Memory)
    (usable : List E820Map64) :
    Option (List UInt8 × Ending) := do
  let start := printUsableMap leftOver usable
  let (memory, s) ← kmalloc freeList fuel memory 600
  if s = 0 then
    some (start ++ Panic.panic leftOver memoryIssue, .panic)
  else
    let memory ← strcpy memory fuel s hello
    let string ← Strings.printString memory fuel s
    let (memory, s2) ← kmalloc freeList fuel memory 6
    if s2 = 0 then
      some
        (start ++ ((stringLine string s).text leftOver ++
          Panic.panic leftOver memoryIssue), .panic)
    else
      let memory ← strcpy memory fuel s2 hello
      let string2 ← Strings.printString memory fuel s2
      let memory ← kfree freeList fuel memory s2
      let memory ← kfree freeList fuel memory s
      let (printed, ending) ←
        printRounds leftOver freeList fuel s 1024 memory
      some
        (start ++ ((stringLine string s).text leftOver ++
          ((stringLine string2 s2).text leftOver ++ printed)), ending)

/-- The lines are what `printk` prints for their formats. -/
theorem prints_usableLine (entry : E820Map64) :
    Prints leftOver (chars "%0lx-%0lx\n")
      [⟨.unsignedLong, entry.baseaddr⟩,
        ⟨.unsignedLong, entry.baseaddr + entry.length - 1⟩]
      ((usableLine entry).text leftOver) [] := by
  refine prints_of_pieces (usableLine entry).pieces ?_ rfl ?_ rfl
  · simp only [textOf, Message.pieces, usableLine, Field.pieces,
      List.flatMap_cons, List.flatMap_nil]
    rfl
  · simp [Argument.Exact, Argument.signed]

theorem prints_bytesAvailable (totalLength : UInt64) :
    Prints leftOver (chars "%llu bytes available (%lluMiB)\n")
      [⟨.unsignedLongLong, totalLength⟩,
        ⟨.unsignedLongLong, totalLength / 1024 / 1024⟩]
      ((bytesAvailable totalLength).text leftOver) [] := by
  refine prints_of_pieces (bytesAvailable totalLength).pieces ?_ rfl ?_ rfl
  · simp only [textOf, Message.pieces, bytesAvailable, Field.pieces,
      List.flatMap_cons, List.flatMap_nil]
    rfl
  · simp [Argument.Exact, Argument.signed]

theorem prints_stringLine (string : List UInt8) (ptr : Nat) :
    Prints leftOver (chars "%s (%p)\n")
      [⟨.string, string⟩, ⟨.pointer, UInt64.ofNat ptr⟩]
      ((stringLine string ptr).text leftOver) [] := by
  refine prints_of_pieces (stringLine string ptr).pieces ?_ rfl ?_ rfl
  · simp only [textOf, Message.pieces, stringLine, Field.pieces,
      List.flatMap_cons, List.flatMap_nil]
    rfl
  · simp [Argument.Exact, Argument.signed]

theorem prints_addressLine (ptr : Nat) :
    Prints leftOver (chars "%llu\n")
      [⟨.unsignedLongLong, UInt64.ofNat ptr⟩]
      ((addressLine ptr).text leftOver) [] := by
  refine prints_of_pieces (addressLine ptr).pieces ?_ rfl ?_ rfl
  · simp only [textOf, Message.pieces, addressLine, Field.pieces,
      List.flatMap_cons, List.flatMap_nil]
    rfl
  · simp [Argument.Exact, Argument.signed]

end Source

section Map

variable {leftOver leftOver' : List UInt8}
variable {rest later : List UInt8}

/-- What the line of a usable entry tells about it. -/
structure SameRegion (entry other : E820Map64) : Prop where
  baseaddr : entry.baseaddr = other.baseaddr
  length : entry.length = other.length

theorem clean_usableLine
    (size : leftOver.length = 64)
    (entry : E820Map64) :
    (usableLine entry).Clean leftOver := by
  simp only [Message.Clean, usableLine, List.forall_mem_cons]
  refine ⟨?_, ?_, fun _ none => absurd none List.not_mem_nil⟩
  · exact Field.clean_of_number size rfl (by decide) (by decide)
  · exact Field.clean_of_number size rfl (by decide) (by decide)

theorem clean_bytesAvailable
    (size : leftOver.length = 64)
    (totalLength : UInt64) :
    (bytesAvailable totalLength).Clean leftOver := by
  simp only [Message.Clean, bytesAvailable, List.forall_mem_cons]
  refine ⟨?_, ?_, fun _ none => absurd none List.not_mem_nil⟩
  · exact Field.clean_of_number size rfl (by decide) (by decide)
  · exact Field.clean_of_number size rfl (by decide) (by decide)

/-- A line tells the base and the last byte, and so the length. -/
theorem usableLine_append_inj
    (size : leftOver.length = 64)
    (size' : leftOver'.length = 64)
    {entry other : E820Map64} :
    (usableLine entry).text leftOver ++ rest =
        (usableLine other).text leftOver' ++ later ↔
      SameRegion entry other ∧ rest = later := by
  have sameFormat : (usableLine entry).SameFormat (usableLine other) :=
    ⟨rfl, rfl⟩
  have told :
      (usableLine entry).shown = (usableLine other).shown ↔
        SameRegion entry other := by
    simp only [usableLine, Message.shown, Field.shown, Specifier.shown,
      List.map_cons, List.map_nil, List.cons.injEq, Shown.unsigned.injEq,
      and_true]
    constructor
    · rintro ⟨base, sameLast⟩
      have last := Shown.unsigned.inj sameLast
      rw [base] at last
      exact
        ⟨base, (UInt64.add_right_inj _).mp ((UInt64.sub_left_inj _).mp last)⟩
    · rintro ⟨base, length⟩
      rw [base, length]
      exact ⟨rfl, rfl⟩
  rw [Message.text_append_inj size size' sameFormat
    (clean_usableLine size entry) (clean_usableLine size' other), told]

/-- The last line tells the number of bytes. -/
theorem bytesAvailable_append_inj
    (size : leftOver.length = 64)
    (size' : leftOver'.length = 64)
    {totalLength other : UInt64} :
    (bytesAvailable totalLength).text leftOver ++ rest =
        (bytesAvailable other).text leftOver' ++ later ↔
      totalLength = other ∧ rest = later := by
  have sameFormat :
      (bytesAvailable totalLength).SameFormat (bytesAvailable other) :=
    ⟨rfl, rfl⟩
  have told :
      (bytesAvailable totalLength).shown = (bytesAvailable other).shown ↔
        totalLength = other := by
    simp only [bytesAvailable, Message.shown, Field.shown, Specifier.shown,
      List.map_cons, List.map_nil, List.cons.injEq, Shown.unsigned.injEq,
      and_true]
    constructor
    · rintro ⟨same, -⟩
      exact same
    · rintro rfl
      exact ⟨rfl, rfl⟩
  rw [Message.text_append_inj size size' sameFormat
    (clean_bytesAvailable size totalLength)
    (clean_bytesAvailable size' other), told]

/-- A line of an entry starts with `0x`, which the last line does not. -/
theorem usableLine_ne_bytesAvailable
    (size : leftOver.length = 64)
    (entry : E820Map64)
    (totalLength : UInt64) :
    (usableLine entry).text leftOver' ++ rest ≠
      (bytesAvailable totalLength).text leftOver ++ later := by
  intro same
  have hex : chars (Specifier.lead .lx) = [0x30, 0x78] := by
    decide
  obtain ⟨more, lead⟩ :
      ∃ more,
        (usableLine entry).text leftOver' ++ rest =
          0x30 :: 0x78 :: more := by
    rw [Message.text, Message.pieces, usableLine, List.nil_append,
      List.flatMap_cons, emitAll_field]
    simp only [Specifier.emit, Specifier.number, hex, List.cons_append,
      List.nil_append]
    exact ⟨_, rfl⟩
  have noX : 0x78 ∉ (Specifier.emit leftOver .llu totalLength false).1 :=
    notMem_emit_number size rfl (by decide) (by decide)
  obtain ⟨behind, shape⟩ :
      ∃ behind,
        (bytesAvailable totalLength).text leftOver ++ later =
          (Specifier.emit leftOver .llu totalLength false).1 ++
            0x20 :: behind := by
    rw [Message.text, Message.pieces, bytesAvailable, List.nil_append,
      List.flatMap_cons, emitAll_field, List.append_assoc, List.cons_append]
    exact ⟨_, rfl⟩
  rw [lead, shape] at same
  generalize (Specifier.emit leftOver .llu totalLength false).1 = digits
    at same noX
  cases digits with
  | nil =>
      cases same
  | cons first digits =>
      cases digits with
      | nil =>
          cases same
      | cons second digits =>
          obtain ⟨-, inside⟩ := List.cons.inj same
          obtain ⟨isX, -⟩ := List.cons.inj inside
          apply noX
          rw [← isX]
          exact List.mem_cons_of_mem _ List.mem_cons_self

/-- The lines and the one behind them tell the regions and the total. -/
theorem printUsable_append_inj
    (size : leftOver.length = 64)
    (size' : leftOver'.length = 64)
    {usable others : List E820Map64}
    {totalLength otherLength : UInt64} :
    printUsable leftOver totalLength usable ++ rest =
        printUsable leftOver' otherLength others ++ later ↔
      List.Forall₂ SameRegion usable others ∧
        totalLength = otherLength ∧ rest = later := by
  induction usable generalizing others totalLength otherLength with
  | nil =>
      cases others with
      | nil =>
          rw [printUsable, printUsable, bytesAvailable_append_inj size size']
          exact (and_iff_right .nil).symm
      | cons other others =>
          refine iff_of_false ?_ (fun told => nomatch told.1)
          rw [printUsable, printUsable, List.append_assoc]
          exact
            (usableLine_ne_bytesAvailable size other totalLength).symm
  | cons entry usable inductionHypothesis =>
      cases others with
      | nil =>
          refine iff_of_false ?_ (fun told => nomatch told.1)
          rw [printUsable, printUsable, List.append_assoc]
          exact usableLine_ne_bytesAvailable size' entry otherLength
      | cons other others =>
          rw [printUsable, printUsable, List.append_assoc, List.append_assoc,
            usableLine_append_inj size size', inductionHypothesis,
            List.forall₂_cons]
          constructor
          · rintro ⟨told, regions, total, same⟩
            rw [told.length] at total
            exact
              ⟨⟨told, regions⟩, (UInt64.add_left_inj _).mp total, same⟩
          · rintro ⟨⟨told, regions⟩, rfl, same⟩
            exact ⟨told, regions, by rw [told.length], same⟩

end Map

/--
What `pmem_map` prints before it uses the heap tells the usable regions, how
many there are included, whatever is printed behind it.
-/
theorem printUsableMap_inj
    (leftOver leftOver' : List UInt8)
    (usable others : List E820Map64)
    (rest later : List UInt8)
    (size : leftOver.length = 64)
    (size' : leftOver'.length = 64) :
    printUsableMap leftOver usable ++ rest =
        printUsableMap leftOver' others ++ later ↔
      List.Forall₂ SameRegion usable others ∧ rest = later := by
  simp only [printUsableMap, List.append_assoc, List.append_cancel_left_eq,
    printUsable_append_inj size size', true_and]

/-- Two regions are printed alike from any arrays, and unlike another split. -/
theorem printUsableMap_inj_split :
    printUsableMap (List.replicate 64 0)
          [⟨0x1000, 0x2000, 1⟩, ⟨0x8000, 0x1000, 1⟩] =
        printUsableMap (List.replicate 64 1)
          [⟨0x1000, 0x2000, 1⟩, ⟨0x8000, 0x1000, 1⟩] ∧
      printUsableMap (List.replicate 64 0)
          [⟨0x1000, 0x2000, 1⟩, ⟨0x8000, 0x1000, 1⟩] ≠
        printUsableMap (List.replicate 64 1)
          [⟨0x1000, 0x2001, 1⟩, ⟨0x8000, 0x0FFF, 1⟩] := by
  have told (others : List E820Map64) :=
    printUsableMap_inj (List.replicate 64 0) (List.replicate 64 1)
      [⟨0x1000, 0x2000, 1⟩, ⟨0x8000, 0x1000, 1⟩] others [] [] (by decide)
      (by decide)
  simp only [List.append_nil, and_true] at told
  constructor
  · exact (told _).mpr (.cons ⟨rfl, rfl⟩ (.cons ⟨rfl, rfl⟩ .nil))
  · intro same
    have regions := List.forall₂_cons.mp ((told _).mp same)
    have lengths : (0x2000 : UInt64) = 0x2001 := regions.1.length
    exact absurd lengths (by decide)

section Ending

variable {leftOver : List UInt8}
variable {freeList fuel hello s rounds : Nat}
variable {memory : Memory}
variable {result : List UInt8 × Ending}

/-- The loop ends in the same way without its printing. -/
theorem destroyHeap_of_printRounds
    (prints :
      printRounds leftOver freeList fuel s rounds memory = some result) :
    destroyHeap freeList fuel rounds memory = some result.2 := by
  induction rounds generalizing memory result with
  | zero =>
      obtain rfl := Option.some.inj prints
      rfl
  | succ rounds inductionHypothesis =>
      rw [printRounds] at prints
      obtain ⟨⟨served, m⟩, request, prints⟩ :=
        Option.bind_eq_some_iff.mp prints
      simp only [destroyHeap, request]
      dsimp only at prints
      split at prints
      · case _ isNull =>
          obtain rfl := Option.some.inj prints
          rw [if_pos isNull]
      · case _ nonNull =>
          obtain ⟨later, laterPrints, whole⟩ :=
            Option.bind_eq_some_iff.mp prints
          obtain rfl := Option.some.inj whole
          have laterEnds := inductionHypothesis laterPrints
          rw [if_neg nonNull]
          exact laterEnds

/-- `pmem_map` ends in the same way without its printing. -/
theorem pmemMapTest_of_prints
    {usable : List E820Map64}
    (prints :
      pmemMapPrints leftOver freeList fuel hello memory usable =
        some result) :
    pmemMapTest freeList fuel hello memory = some result.2 := by
  rw [pmemMapPrints] at prints
  obtain ⟨⟨served, s⟩, request, prints⟩ := Option.bind_eq_some_iff.mp prints
  simp only [pmemMapTest, request]
  dsimp only at prints
  split at prints
  · case _ isNull =>
      obtain rfl := Option.some.inj prints
      rw [if_pos isNull]
  · case _ nonNull =>
      obtain ⟨copied, copying, prints⟩ := Option.bind_eq_some_iff.mp prints
      obtain ⟨string, -, prints⟩ := Option.bind_eq_some_iff.mp prints
      obtain ⟨⟨served', s2⟩, request', prints⟩ :=
        Option.bind_eq_some_iff.mp prints
      simp only [if_neg nonNull, copying, request']
      dsimp only at prints
      split at prints
      · case _ isNull =>
          obtain rfl := Option.some.inj prints
          rw [if_pos isNull]
      · case _ nonNull' =>
          obtain ⟨copied', copying', prints⟩ :=
            Option.bind_eq_some_iff.mp prints
          obtain ⟨string2, -, prints⟩ := Option.bind_eq_some_iff.mp prints
          obtain ⟨released', releasing', prints⟩ :=
            Option.bind_eq_some_iff.mp prints
          obtain ⟨released, releasing, prints⟩ :=
            Option.bind_eq_some_iff.mp prints
          obtain ⟨rounds, loop, whole⟩ := Option.bind_eq_some_iff.mp prints
          obtain rfl := Option.some.inj whole
          simp only [if_neg nonNull', copying', releasing', releasing]
          exact destroyHeap_of_printRounds loop

end Ending

section Strings

variable {memory result : Memory}
variable {fuel address count : Nat}
variable {text : List UInt8}
variable {string : CString}

/-- `print_string` prints all bytes up to a NUL. -/
theorem lt_length_of_printString
    (nonzero : ∀ index ≤ count, memory (address + index) ≠ 0)
    (printed : Strings.printString memory fuel address = some text) :
    count < text.length := by
  induction count generalizing fuel address text with
  | zero =>
      cases fuel with
      | zero =>
          cases printed
      | succ fuel =>
          have here : memory address ≠ 0 := nonzero 0 (Nat.le_refl 0)
          rw [Strings.printString, if_pos here] at printed
          obtain ⟨rest, -, whole⟩ := Option.bind_eq_some_iff.mp printed
          obtain rfl := Option.some.inj whole
          exact Nat.zero_lt_succ _
  | succ count inductionHypothesis =>
      cases fuel with
      | zero =>
          cases printed
      | succ fuel =>
          have here : memory address ≠ 0 := nonzero 0 (Nat.zero_le _)
          rw [Strings.printString, if_pos here] at printed
          obtain ⟨rest, later, whole⟩ := Option.bind_eq_some_iff.mp printed
          obtain rfl := Option.some.inj whole
          refine Nat.succ_lt_succ (inductionHypothesis ?_ later)
          intro index inside
          have behind := nonzero (index + 1) (Nat.succ_le_succ inside)
          rwa [Nat.add_assoc, Nat.add_comm 1 index]

/-- `print_string` prints no NUL. -/
theorem zero_notMem_of_printString
    (printed : Strings.printString memory fuel address = some text) :
    0 ∉ text := by
  induction fuel generalizing address text with
  | zero =>
      cases printed
  | succ fuel inductionHypothesis =>
      rw [Strings.printString] at printed
      split at printed
      · case _ nonzero =>
          obtain ⟨rest, later, whole⟩ := Option.bind_eq_some_iff.mp printed
          obtain rfl := Option.some.inj whole
          rw [List.mem_cons, not_or]
          exact ⟨Ne.symm nonzero, inductionHypothesis later⟩
      · obtain rfl := Option.some.inj printed
        exact List.not_mem_nil

/-- A copy is printed as the string if there was a 0 behind it. -/
theorem Copied.printString
    (copied : Copied string memory address result)
    (isNul : memory (address + string.length) = 0)
    (enough : string.length < fuel) :
    Strings.printString result fuel address = some string.bytes := by
  have held : string.Held result address := by
    rw [CString.held_iff]
    intro index inside
    rcases Nat.lt_or_eq_of_le inside with before | rfl
    · exact copied.bytes index before
    · rw [copied.behind, isNul]
      exact (CString.byte_eq_zero (Nat.le_refl _)).symm
  exact Strings.printString_of_held held enough

/-- Of a copy more is printed than the string if there was none. -/
theorem Copied.lt_length
    (copied : Copied string memory address result)
    (notNul : memory (address + string.length) ≠ 0)
    (printed : Strings.printString result fuel address = some text) :
    string.length < text.length := by
  refine lt_length_of_printString ?_ printed
  intro index inside
  rcases Nat.lt_or_eq_of_le inside with before | rfl
  · rw [copied.bytes index before]
    exact CString.byte_ne_zero before
  · rw [copied.behind]
    exact notNul

/-- What is printed of a copy is never shorter than the string. -/
theorem Copied.le_length
    (copied : Copied string memory address result)
    (enough : string.length < fuel)
    (printed : Strings.printString result fuel address = some text) :
    string.length ≤ text.length := by
  by_cases isNul : memory (address + string.length) = 0
  · rw [copied.printString isNul enough] at printed
    exact Nat.le_of_eq (congrArg List.length (Option.some.inj printed))
  · exact Nat.le_of_lt (copied.lt_length isNul printed)

/-- If no more than the string is printed, there was a 0 behind it. -/
theorem Copied.behind_eq_zero
    (copied : Copied string memory address result)
    (printed : Strings.printString result fuel address = some text)
    (short : text.length ≤ string.length) :
    memory (address + string.length) = 0 := by
  by_contra notNul
  exact Nat.not_lt_of_le short (copied.lt_length notNul printed)

/-- The text of a string line begins with the string. -/
theorem text_stringLine
    (leftOver : List UInt8)
    (ptr : Nat)
    (noNul : 0 ∉ text) :
    (stringLine text ptr).text leftOver =
      text ++ (stringLine [] ptr).text leftOver := by
  have printed (string : List UInt8) :
      (stringLine string ptr).text leftOver =
        printString string ++ (stringLine [] ptr).text leftOver := by
    rfl
  rw [printed text, printString_of_notMem noNul]

end Strings

section Rounds

variable
    {freeList fuel : Nat}
    {memory : Memory}
    {region : Set Nat}
    {free live : List Block}

/-- What the loop prints when so many of its requests are served. -/
def roundsText
    (leftOver : List UInt8)
    (s rounds served : Nat) :
    List UInt8 × Ending :=
  if served < rounds then
    ((List.replicate served ((addressLine s).text leftOver)).flatten ++
        Panic.panic leftOver memoryIssue,
      .panic)
  else
    ((List.replicate rounds ((addressLine s).text leftOver)).flatten, .halt)

/-- The first request is not served. -/
theorem roundsText_zero
    (leftOver : List UInt8)
    (s rounds : Nat) :
    roundsText leftOver s (rounds + 1) 0 =
      (Panic.panic leftOver memoryIssue, .panic) := by
  rw [roundsText, if_pos (Nat.zero_lt_succ rounds), List.replicate_zero,
    List.flatten_nil, List.nil_append]

/-- One line more in front -/
theorem roundsText_succ
    (leftOver : List UInt8)
    (s rounds served : Nat) :
    roundsText leftOver s (rounds + 1) (served + 1) =
      ((addressLine s).text leftOver ++
          (roundsText leftOver s rounds served).1,
        (roundsText leftOver s rounds served).2) := by
  unfold roundsText
  by_cases few : served < rounds
  · rw [if_pos few, if_pos (Nat.succ_lt_succ few), List.replicate_succ,
      List.flatten_cons, List.append_assoc]
  · rw [if_neg few, if_neg (mt Nat.lt_of_succ_lt_succ few),
      List.replicate_succ, List.flatten_cons]

/-- The loop prints a line for each request that it can be served. -/
theorem printRounds_eq
    (leftOver : List UInt8)
    (s rounds : Nat)
    (arena : Arena freeList region)
    (tiles : Tiles (extents (free ++ live)) region)
    (represents : Represents freeList memory free live)
    (enough : free.length < fuel) :
    printRounds leftOver freeList fuel s rounds memory =
      some (roundsText leftOver s rounds (capacity 24 free)) := by
  induction rounds generalizing memory free live with
  | zero =>
      rfl
  | succ rounds inductionHypothesis =>
      rcases kmalloc_counted arena tiles represents enough with
          ⟨noneLeft, refused⟩ |
          ⟨result, block, free', live', served, tiles', represents', enough',
            counted⟩
      · rw [printRounds, refused, noneLeft, roundsText_zero]
        simp only [Option.bind_eq_bind, Option.bind_some, ↓reduceIte]
      · have later := inductionHypothesis tiles' represents' enough'
        rw [printRounds, served, counted, roundsText_succ]
        simp only [Option.bind_eq_bind, Option.bind_some,
          block.payload_ne_zero, ↓reduceIte, later]

end Rounds

section Test

variable
    {freeList fuel hello : Nat}
    {memory : Memory}
    {region : Set Nat}
    {block : Block}
    {rest : List Block}
    {string : CString}

/-- All that is printed when both strings end where they should -/
def expectedText
    (leftOver : List UInt8)
    (usable : List E820Map64)
    (string : List UInt8)
    (s s2 : Nat)
    (rounds : List UInt8 × Ending) :
    List UInt8 × Ending :=
  (printUsableMap leftOver usable ++
      ((stringLine string s).text leftOver ++
        ((stringLine string s2).text leftOver ++ rounds.1)),
    rounds.2)

/-- Longer strings would make the whole text longer. -/
theorem length_printed
    {leftOver first second : List UInt8}
    {usable : List E820Map64}
    {s s2 : Nat}
    {rounds : List UInt8 × Ending}
    (noNul : 0 ∉ first)
    (noNul' : 0 ∉ second)
    (same :
      printUsableMap leftOver usable ++
          ((stringLine first s).text leftOver ++
            ((stringLine second s2).text leftOver ++ rounds.1)) =
        (expectedText leftOver usable string.bytes s s2 rounds).1) :
    first.length + second.length = string.length + string.length := by
  rw [expectedText, text_stringLine leftOver s noNul,
    text_stringLine leftOver s2 noNul',
    text_stringLine leftOver s string.noNul,
    text_stringLine leftOver s2 string.noNul] at same
  have lengths := congrArg List.length same
  simp only [List.length_append] at lengths
  rw [CString.length]
  omega

/-- What is printed when both strings are found to end somewhere -/
theorem pmemMapPrints_of_printed
    {leftOver : List UInt8}
    {usable : List E820Map64}
    {s s2 : Nat}
    {served copied served' copied' released' released : Memory}
    {first second : List UInt8}
    {rounds : List UInt8 × Ending}
    (steps :
      TwoBlocks freeList fuel hello memory s s2 served copied served' copied'
        released' released)
    (nonNull : s ≠ 0)
    (nonNull' : s2 ≠ 0)
    (printed : Strings.printString copied fuel s = some first)
    (printed' : Strings.printString copied' fuel s2 = some second)
    (loop : printRounds leftOver freeList fuel s 1024 released = some rounds) :
    pmemMapPrints leftOver freeList fuel hello memory usable =
      some
        (printUsableMap leftOver usable ++
            ((stringLine first s).text leftOver ++
              ((stringLine second s2).text leftOver ++ rounds.1)),
          rounds.2) := by
  simp only [pmemMapPrints, steps.request, Option.bind_eq_bind,
    Option.bind_some, if_neg nonNull, steps.copying, printed,
    steps.request', if_neg nonNull', steps.copying', printed',
    steps.releasing', steps.releasing, loop]

/-- Whatever is printed, both strings have been found to end somewhere. -/
theorem exists_printed
    {leftOver : List UInt8}
    {usable : List E820Map64}
    {s s2 : Nat}
    {served copied served' copied' released' released : Memory}
    {result : List UInt8 × Ending}
    (steps :
      TwoBlocks freeList fuel hello memory s s2 served copied served' copied'
        released' released)
    (nonNull : s ≠ 0)
    (nonNull' : s2 ≠ 0)
    (prints :
      pmemMapPrints leftOver freeList fuel hello memory usable =
        some result) :
    ∃ first second,
      Strings.printString copied fuel s = some first ∧
        Strings.printString copied' fuel s2 = some second := by
  simp only [pmemMapPrints, steps.request, Option.bind_eq_bind,
    Option.bind_some, if_neg nonNull, steps.copying] at prints
  obtain ⟨first, printed, later⟩ := Option.bind_eq_some_iff.mp prints
  simp only [steps.request', Option.bind_some, if_neg nonNull',
    steps.copying'] at later
  obtain ⟨second, printed', -⟩ := Option.bind_eq_some_iff.mp later
  exact ⟨first, second, printed, printed'⟩

/--
When the first free block can be cut twice, the strings are printed as they
are exactly if the bytes behind them were 0 before.
-/
theorem pmemMapPrints_iff
    (leftOver : List UInt8)
    (usable : List E820Map64)
    (arena : Arena freeList region)
    (tiles : Tiles (extents (block :: rest)) region)
    (represents : Represents freeList memory (block :: rest) [])
    (held : string.Held memory hello)
    (offHeap : OffHeap freeList region string hello)
    (fiveBytes : string.length = 5)
    (nonNull : block.addr ≠ 0)
    (room : 688 ≤ block.size)
    (enough : rest.length + 5 < fuel) :
    pmemMapPrints leftOver freeList fuel hello memory usable =
        some
          (expectedText leftOver usable string.bytes block.payload
            (cutOff block 600).payload
            (roundsText leftOver block.payload 1024
              (capacity 24 (coalesceFrom block rest)))) ↔
      memory (block.addr + 29) = 0 ∧ memory (block.addr + 653) = 0 := by
  obtain ⟨served, copied, served', copied', released', released, steps,
      first, second, tilesReleased, representsReleased⟩ :=
    exists_twoBlocks arena tiles represents held offHeap fiveBytes nonNull
      room enough
  have enoughRounds : (coalesceFrom block rest).length < fuel := by
    have := length_coalesceFrom block rest
    omega
  have loop :=
    printRounds_eq leftOver block.payload 1024 arena tilesReleased
      representsReleased enoughRounds
  have enoughString : string.length < fuel := by
    omega
  have behind : block.payload + string.length = block.addr + 29 := by
    rw [fiveBytes]
    rfl
  have behind' :
      (cutOff block 600).payload + string.length = block.addr + 653 := by
    rw [fiveBytes]
    rfl
  have start := block.payload_ne_zero
  have start' := (cutOff block 600).payload_ne_zero
  rw [← behind, ← behind']
  constructor
  · intro prints
    obtain ⟨text, text', printed, printed'⟩ :=
      exists_printed steps start start' prints
    rw [pmemMapPrints_of_printed steps start start' printed printed' loop]
      at prints
    have total :=
      length_printed (zero_notMem_of_printString printed)
        (zero_notMem_of_printString printed')
        (Prod.mk.inj (Option.some.inj prints)).1
    have least := first.le_length enoughString printed
    have least' := second.le_length enoughString printed'
    exact
      ⟨first.behind_eq_zero printed (by omega),
        second.behind_eq_zero printed' (by omega)⟩
  · rintro ⟨isNul, isNul'⟩
    exact
      pmemMapPrints_of_printed steps start start'
        (first.printString isNul enoughString)
        (second.printString isNul' enoughString) loop

end Test

/-- `kmalloc_init` leaves what is behind the header of an entry's block. -/
theorem heapMemory_eq
    {freeList address : Nat}
    {memory : Memory}
    {e820Map : List E820Map64}
    {entry : E820Map64}
    {others : List E820Map64}
    (regions : WellFormedRegions freeList (pmemMap e820Map))
    (shape : pmemMap e820Map = others ++ [entry])
    (lower : headerAddr entry + allocHeaderSz ≤ address)
    (upper : address < entry.limit) :
    heapMemory freeList memory e820Map address = memory address := by
  have arena := arena_heapBytes regions
  have blocks :
      (pmemMap e820Map).map addedBlock = (pmemMap e820Map).map regionBlock :=
    List.map_congr_left fun other member =>
      addedBlock_of_long (regions.below other member)
        (regions.long other member)
  have tiles := tiles_initialBlocks regions
  have headers := headersApart_of_tiles arena tiles
  have first := initialBlocks_append shape
  have long : headerAddr entry + allocHeaderSz ≤ entry.limit :=
    regions.long entry (by simp [shape])
  have inside : address < (regionBlock entry).fin := by
    rw [regionBlock_fin long]
    exact upper
  rw [first] at tiles
  have tilesAll :
      Tiles (extents (regionBlock entry :: initialBlocks others ++ []))
        (heapBytes (pmemMap e820Map)) := by
    rwa [List.append_nil]
  have outside := offHeaders_inside arena tilesAll lower inside
  rw [← first, initialBlocks, ← blocks] at outside
  apply kmallocInit_eq _ outside
  rw [initialBlocks, ← blocks] at headers
  have inOrder :=
    headers.perm
      ((List.reverse_perm ((pmemMap e820Map).map addedBlock)).map Block.addr)
  rwa [List.map_map] at inOrder

/--
From some fuel on `pmem_map` prints `Hello` with the address of each block
and then what its requests come to, if and only if the memory held a 0 at
boot in the two places where the terminators of the strings belong.
-/
theorem pmemMap_prints_iff
    (leftOver : List UInt8)
    (freeList hello : Nat)
    (memory : Memory)
    (e820Map : List E820Map64)
    (entry : E820Map64)
    (regions : WellFormedRegions freeList (pmemMap e820Map))
    (last : (pmemMap e820Map).getLast? = some entry)
    (nonNull : headerAddr entry ≠ 0)
    (room : headerAddr entry + 712 ≤ entry.limit)
    (held : Strings.hello.Held (heapMemory freeList memory e820Map) hello)
    (offHeap :
      OffHeap freeList (heapBytes (pmemMap e820Map)) Strings.hello hello) :
    (∃ bound,
        ∀ fuel,
          bound ≤ fuel →
          pmemMapPrints leftOver freeList fuel hello
              (heapMemory freeList memory e820Map) (pmemMap e820Map) =
            some
              (expectedText leftOver (pmemMap e820Map) Strings.hello.bytes
                (headerAddr entry + 24) (headerAddr entry + 648)
                (roundsText leftOver (headerAddr entry + 24) 1024
                  (capacity 24
                    (coalesce (initialBlocks (pmemMap e820Map))))))) ↔
      memory (headerAddr entry + 29) = 0 ∧
        memory (headerAddr entry + 653) = 0 := by
  have arena := arena_heapBytes regions
  obtain ⟨others, shape⟩ := List.getLast?_eq_some_iff.mp last
  obtain ⟨rest, blocks, tiles, represents⟩ :=
    exists_firstBlock memory regions last
  rw [blocks]
  have kept {offset : Nat} (lower : 24 ≤ offset) (upper : offset < 712) :
      heapMemory freeList memory e820Map (headerAddr entry + offset) =
        memory (headerAddr entry + offset) :=
    heapMemory_eq regions shape (Nat.add_le_add_left lower _) (by omega)
  have prints {fuel : Nat} (enough : rest.length + 5 < fuel) :
      _ ↔
        heapMemory freeList memory e820Map (headerAddr entry + 29) = 0 ∧
          heapMemory freeList memory e820Map (headerAddr entry + 653) = 0 :=
    pmemMapPrints_iff leftOver (pmemMap e820Map) arena tiles represents held
      offHeap rfl nonNull (room_regionBlock room) enough
  rw [kept (by decide) (by decide), kept (by decide) (by decide)] at prints
  constructor
  · rintro ⟨bound, always⟩
    apply
      (prints
        (show rest.length + 5 < max bound (rest.length + 6) by omega)).mp
    exact always _ (Nat.le_max_left _ _)
  · intro zeros
    refine ⟨rest.length + 6, fun fuel enough => ?_⟩
    exact (prints enough).mpr zeros

/-- With memory that is cleared behind the string `Hello` is printed twice. -/
theorem pmemMap_prints_iff_cleared :
    ∃ bound,
      ∀ fuel,
        bound ≤ fuel →
        pmemMapPrints (List.replicate 64 0) 0x2000 fuel 0x3000
            (heapMemory 0x2000
              (fun address => Strings.hello.byte (address - 0x3000)) stressMap)
            (pmemMap stressMap) =
          some
            (expectedText (List.replicate 64 0) (pmemMap stressMap)
              Strings.hello.bytes (0x100000 + 24) (0x100000 + 648)
              (roundsText (List.replicate 64 0) (0x100000 + 24) 1024
                (capacity 24
                  (coalesce (initialBlocks (pmemMap stressMap)))))) := by
  have base : headerAddr stressMap[1] = 0x100000 := by
    decide
  have printed :=
    pmemMap_prints_iff (List.replicate 64 0) 0x2000 0x3000
      (fun address => Strings.hello.byte (address - 0x3000)) stressMap
      stressMap[1] regions_stressMap rfl (by decide) (by decide)
      held_stressMap offHeap_stressMap
  rw [base] at printed
  exact printed.mpr ⟨by decide, by decide⟩

end Relics.Malloc
