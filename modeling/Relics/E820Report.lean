import Relics.E820Setup
import Relics.LogReading

/-!
# The report of the memory map

`get_mem_map` logs the number of entries and a line for each.  The printed
text tells the times of its lines and the map: the number of its entries and
of each the base, the length and the name of the type.
-/

namespace Relics.E820

open ByteMemory Print

section Report

/-- `e820_type_human_name` -/
def e820TypeHumanName (type : UInt32) : List UInt8 :=
  if type = 1 then chars "usable"
  else if type = 2 then chars "reserved"
  else if type = 3 then chars "ACPI data"
  else if type = 4 then chars "NVS"
  else if type = 5 then chars "unusable"
  else if type = 7 then chars "pmem"
  else chars "unknown type"

/-- `"%0lx-%0lx %s\n"` with the three arguments of `iterate_over_map` -/
def line (entry : E820Map64) : Message where
  before := []
  constant := Message.constant_nil
  fields :=
    [⟨⟨true, .lx, ⟨chars "-", by decide, by decide⟩, by decide⟩,
        entry.baseaddr⟩,
      ⟨⟨true, .lx, ⟨chars " ", by decide, by decide⟩, by decide⟩,
        entry.baseaddr + entry.length - 1⟩,
      ⟨⟨false, .s, .newLine, Literal.newLine_ne_nil⟩,
        e820TypeHumanName entry.entryType⟩]

/-- `"entry count: %d\n"` -/
def entryCount (count : UInt32) : Message where
  before := [.literal ⟨chars "entry count: ", by decide, by decide⟩]
  constant := by simp [Piece.arguments]
  fields :=
    [⟨⟨false, .d, .newLine, Literal.newLine_ne_nil⟩,
      count.toInt32⟩]

variable (leftOver : List UInt8)

/-- `iterate_over_map`, with what its calls of `log_printk` find -/
def iterateOverMap
    (calls : Nat → LogCall) :
    (i : Nat) →
    (map : List E820Map64) →
    List UInt8
  | _, [] => []
  | i, entry :: map =>
      logPrintk (calls i).time ((line entry).text leftOver) ++
        iterateOverMap calls (i + 1) map

/-- What `get_mem_map` prints for a map that it accepts, up to `pmem_map` -/
def printMemMap
    (calls : Nat → LogCall)
    (map : List E820Map64) :
    List UInt8 :=
  logPrintk (calls 0).time (chars "E820 Memory Map:\n") ++
    (logPrintk (calls 1).time
        ((entryCount (UInt32.ofNat map.length)).text leftOver) ++
      iterateOverMap leftOver calls 2 map)

/-- The lines are what `printk` prints for their format. -/
theorem prints_line (entry : E820Map64) :
    Prints leftOver (chars "%0lx-%0lx %s\n")
      [⟨.unsignedLong, entry.baseaddr⟩,
        ⟨.unsignedLong, entry.baseaddr + entry.length - 1⟩,
        ⟨.string, e820TypeHumanName entry.entryType⟩]
      ((line entry).text leftOver) [] := by
  refine prints_of_pieces (line entry).pieces ?_ rfl ?_ rfl
  · simp only [textOf, Message.pieces, line, Field.pieces, List.flatMap_cons,
      List.flatMap_nil]
    rfl
  · simp [Argument.Exact, Argument.signed]

theorem prints_entryCount (count : UInt32) :
    Prints leftOver (chars "entry count: %d\n") [⟨.int, count.toInt32⟩]
      ((entryCount count).text leftOver) [] := by
  refine prints_of_pieces (entryCount count).pieces ?_ rfl ?_ rfl
  · simp only [textOf, Message.pieces, entryCount, Field.pieces,
      List.flatMap_cons, List.flatMap_nil]
    rfl
  · simp [Argument.Exact, Argument.signed]

/-- The header of the log. -/
theorem prints_memMapHeader :
    Prints leftOver (chars "E820 Memory Map:\n") []
      (chars "E820 Memory Map:\n") [] :=
  prints_literal leftOver
    ⟨chars "E820 Memory Map:\n", by decide, by decide⟩

end Report

section Reading

variable {leftOver leftOver' : List UInt8}

/-- What the line of an entry tells about it. -/
structure ToldAlike (entry other : E820Map64) : Prop where
  baseaddr : entry.baseaddr = other.baseaddr
  length : entry.length = other.length
  typeName :
    e820TypeHumanName entry.entryType = e820TypeHumanName other.entryType

/-- The name of a type fits in its line. -/
theorem typeName_clean (type : UInt32) :
    0 ∉ e820TypeHumanName type ∧ 0x0A ∉ e820TypeHumanName type := by
  unfold e820TypeHumanName
  split_ifs
  all_goals decide

/-- The types with a name of their own -/
def namedTypes : List UInt32 :=
  [1, 2, 3, 4, 5, 7]

/-- Every other type is unknown. -/
theorem typeName_of_not_named
    {type : UInt32}
    (notNamed : type ∉ namedTypes) :
    e820TypeHumanName type = chars "unknown type" := by
  simp only [namedTypes, List.mem_cons, List.not_mem_nil, or_false,
    not_or] at notNamed
  obtain ⟨notOne, notTwo, notThree, notFour, notFive, notSeven⟩ := notNamed
  rw [e820TypeHumanName, if_neg notOne, if_neg notTwo, if_neg notThree,
    if_neg notFour, if_neg notFive, if_neg notSeven]

/-- Two types have one name if they are the same or none has its own. -/
theorem typeName_eq_iff (type other : UInt32) :
    e820TypeHumanName type = e820TypeHumanName other ↔
      type = other ∨ type ∉ namedTypes ∧ other ∉ namedTypes := by
  have named :
      ∀ known ∈ namedTypes, e820TypeHumanName known ≠ chars "unknown type" :=
    List.forall_iff_forall_mem.mp (by decide)
  have distinct : (namedTypes.map e820TypeHumanName).Nodup := by
    decide
  constructor
  · intro same
    by_cases isNamed : type ∈ namedTypes
    · by_cases otherNamed : other ∈ namedTypes
      · exact .inl (List.inj_on_of_nodup_map distinct isNamed otherNamed same)
      · rw [typeName_of_not_named otherNamed] at same
        exact absurd same (named type isNamed)
    · by_cases otherNamed : other ∈ namedTypes
      · rw [typeName_of_not_named isNamed] at same
        exact absurd same.symm (named other otherNamed)
      · exact .inr ⟨isNamed, otherNamed⟩
  · rintro (rfl | ⟨notNamed, otherNotNamed⟩)
    · rfl
    · rw [typeName_of_not_named notNamed, typeName_of_not_named otherNotNamed]

theorem clean_line
    (size : leftOver.length = 64)
    (entry : E820Map64) :
    (line entry).Clean leftOver := by
  have name :
      printString (e820TypeHumanName entry.entryType) =
        e820TypeHumanName entry.entryType :=
    printString_of_notMem (typeName_clean entry.entryType).1
  simp only [Message.Clean, line, List.forall_mem_cons]
  refine ⟨?_, ?_, ?_, fun _ none => absurd none List.not_mem_nil⟩
  · exact Field.clean_of_number size rfl (by decide) (by decide)
  · exact Field.clean_of_number size rfl (by decide) (by decide)
  · apply Field.clean_string
    rw [name]
    exact (typeName_clean entry.entryType).2

/-- The line of an entry tells its base, its length and the name of its type. -/
theorem shown_line_iff (entry other : E820Map64) :
    (line entry).shown = (line other).shown ↔ ToldAlike entry other := by
  have name (entry : E820Map64) :
      printString (e820TypeHumanName entry.entryType) =
        e820TypeHumanName entry.entryType :=
    printString_of_notMem (typeName_clean entry.entryType).1
  constructor
  · intro same
    simp only [line, Message.shown, Field.shown, Specifier.shown,
      List.map_cons, List.map_nil, name, List.cons.injEq,
      Shown.unsigned.injEq, Shown.string.injEq, and_true] at same
    obtain ⟨base, sameLast, typeName⟩ := same
    have last := Shown.unsigned.inj sameLast
    refine ⟨base, ?_, typeName⟩
    rw [base] at last
    -- the last byte is told modulo 2^64, and so is the length
    exact (UInt64.add_right_inj _).mp ((UInt64.sub_left_inj _).mp last)
  · rintro ⟨base, length, typeName⟩
    simp only [line, Message.shown, Field.shown, Specifier.shown,
      List.map_cons, List.map_nil, name, base, length, typeName]

theorem clean_entryCount
    (size : leftOver.length = 64)
    (count : UInt32) :
    (entryCount count).Clean leftOver := by
  simp only [Message.Clean, entryCount, List.forall_mem_cons]
  refine ⟨?_, fun _ none => absurd none List.not_mem_nil⟩
  exact Field.clean_int size _ (by decide) (by decide)

/-- The count that is printed tells how many entries a map has. -/
theorem shown_entryCount_iff
    {map others : List E820Map64}
    (accepted : map.length ≤ e820MaxEntries)
    (acceptedOthers : others.length ≤ e820MaxEntries) :
    (entryCount (UInt32.ofNat map.length)).shown =
        (entryCount (UInt32.ofNat others.length)).shown ↔
      map.length = others.length := by
  have value {length : Nat} (small : length ≤ e820MaxEntries) :
      (UInt32.ofNat length).toNat = length := by
    apply UInt32.toNat_ofNat_of_lt'
    unfold e820MaxEntries at small
    change length < 4294967296
    omega
  constructor
  · intro same
    simp only [entryCount, Message.shown, Field.shown, Specifier.shown,
      List.map_cons, List.map_nil, List.cons.injEq, and_true] at same
    have counts := Int32.toInt_inj.mp (Shown.signed.inj same)
    have words := congrArg Int32.toUInt32 counts
    rw [UInt32.toUInt32_toInt32, UInt32.toUInt32_toInt32] at words
    rw [← value accepted, words, value acceptedOthers]
  · intro same
    rw [same]

/-- The lines of maps with as many entries tell the times and the entries. -/
theorem iterateOverMap_inj
    (size : leftOver.length = 64)
    (size' : leftOver'.length = 64)
    {calls calls' : Nat → LogCall}
    {map others : List E820Map64}
    (sameLength : map.length = others.length)
    (i : Nat) :
    iterateOverMap leftOver calls i map =
        iterateOverMap leftOver' calls' i others ↔
      (∀ k < map.length, (calls (i + k)).time = (calls' (i + k)).time) ∧
        List.Forall₂ ToldAlike map others := by
  induction map generalizing others i with
  | nil =>
      rw [List.eq_nil_of_length_eq_zero sameLength.symm]
      simp [iterateOverMap]
  | cons entry map inductionHypothesis =>
      cases others with
      | nil =>
          cases sameLength
      | cons other others =>
          have sameFormat : (line entry).SameFormat (line other) := ⟨rfl, rfl⟩
          rw [iterateOverMap, iterateOverMap, logPrintk_append_inj,
            Message.text_append_inj size size' sameFormat
              (clean_line size entry) (clean_line size' other),
            shown_line_iff,
            inductionHypothesis (Nat.succ.inj sameLength) (i + 1),
            List.forall₂_cons]
          constructor
          · rintro ⟨time, told, times, rest⟩
            refine ⟨?_, told, rest⟩
            intro k inside
            cases k with
            | zero =>
                exact time
            | succ k =>
                rw [List.length_cons] at inside
                have later := times k (Nat.lt_of_succ_lt_succ inside)
                rwa [Nat.add_right_comm] at later
          · rintro ⟨times, told, rest⟩
            refine ⟨times 0 (Nat.zero_lt_succ _), told, ?_, rest⟩
            intro k inside
            have later := times (k + 1) (Nat.succ_lt_succ inside)
            rwa [← Nat.add_assoc, Nat.add_right_comm] at later

/-- `get_mem_map` accepts no more entries than fit. -/
theorem length_of_getMemMap
    {memory : Memory}
    {map : List E820Map64}
    (accepted : getMemMap memory = some map) :
    map.length ≤ e820MaxEntries := by
  simp only [getMemMap] at accepted
  split at accepted
  · cases accepted
  · case _ few =>
      rw [← Option.some.inj accepted, List.length_map, List.length_range]
      exact Nat.le_of_not_lt few

/--
The printed memory map tells the times of its lines and the map: how many
entries there are, and of each the base, the length and the type's name.
-/
theorem printMemMap_inj
    (leftOver leftOver' : List UInt8)
    (calls calls' : Nat → LogCall)
    (memory memory' : Memory)
    (map others : List E820Map64)
    (size : leftOver.length = 64)
    (size' : leftOver'.length = 64)
    (accepted : getMemMap memory = some map)
    (acceptedOthers : getMemMap memory' = some others) :
    printMemMap leftOver calls map = printMemMap leftOver' calls' others ↔
      (∀ k < map.length + 2, (calls k).time = (calls' k).time) ∧
        List.Forall₂ ToldAlike map others := by
  have header :
      (entryCount (UInt32.ofNat map.length)).SameFormat
        (entryCount (UInt32.ofNat others.length)) :=
    ⟨rfl, rfl⟩
  rw [printMemMap, printMemMap, logPrintk_append_inj,
    List.append_cancel_left_eq, logPrintk_append_inj,
    Message.text_append_inj size size' header (clean_entryCount size _)
      (clean_entryCount size' _),
    shown_entryCount_iff (length_of_getMemMap accepted)
      (length_of_getMemMap acceptedOthers)]
  constructor
  · rintro ⟨first, second, sameLength, lines⟩
    obtain ⟨times, told⟩ := (iterateOverMap_inj size size' sameLength 2).mp lines
    refine ⟨?_, told⟩
    intro k inside
    match k with
    | 0 => exact first
    | 1 => exact second
    | k + 2 =>
        have later := times k (Nat.lt_of_add_lt_add_right inside)
        rwa [Nat.add_comm 2 k] at later
  · rintro ⟨times, told⟩
    refine
      ⟨times 0 (Nat.zero_lt_succ _),
        times 1 (Nat.succ_lt_succ (Nat.zero_lt_succ _)), told.length_eq, ?_⟩
    apply (iterateOverMap_inj size size' told.length_eq 2).mpr
    refine ⟨?_, told⟩
    intro k inside
    rw [Nat.add_comm 2 k]
    exact times (k + 2) (Nat.add_lt_add_right inside 2)

/-- Memory with one entry of a type, 0x9FC00 bytes from 0 on -/
def oneEntry (type : UInt8) : Memory :=
  fun address =>
    if address = 0x6f0 then 1
    else if address = 0x709 then 0xFC
    else if address = 0x70A then 9
    else if address = 0x710 then type
    else 0

/-- A second after boot, with a cleared buffer -/
def afterOneSecond : LogCall :=
  ⟨true, 1000, List.replicate 64 0, by decide⟩

/-- A usable and a reserved region are printed differently. -/
theorem printMemMap_inj_reserved :
    printMemMap (List.replicate 64 0) (fun _ => afterOneSecond)
        [⟨0, 0x9FC00, 1⟩] ≠
      printMemMap (List.replicate 64 1) (fun _ => afterOneSecond)
        [⟨0, 0x9FC00, 2⟩] := by
  intro same
  obtain ⟨-, told⟩ :=
    (printMemMap_inj (List.replicate 64 0) (List.replicate 64 1)
      (fun _ => afterOneSecond) (fun _ => afterOneSecond)
      (oneEntry 1) (oneEntry 2) [⟨0, 0x9FC00, 1⟩] [⟨0, 0x9FC00, 2⟩]
      (by decide) (by decide) (by decide) (by decide)).mp same
  rw [List.forall₂_cons] at told
  exact absurd told.1.typeName (by decide)

end Reading

end Relics.E820
