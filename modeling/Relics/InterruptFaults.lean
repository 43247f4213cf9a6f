import Relics.InterruptFrame
import Relics.PrintReading

namespace Relics.Interrupt

/-!
# The report of a fault

For a vector below 32 `exception_handler` prints what it knows of the fault
and stops.  The text tells the vector, the low half of the stack pointer and,
for a page fault, the lowest of the eight causes, the address and the
instruction; for any other fault it tells the low 16 bits of the error code.
-/

open ByteMemory Print SelectedWords WordStack

section Source

/-- `exceptions` -/
def exceptions : List (List UInt8) :=
  [chars "division by zero", chars "debug", chars "NMI", chars "breakpoint",
    chars "invalid", chars "out of bounds", chars "invalid opcode",
    chars "spurious", chars "double fault",
    chars "coprocessor segment overrun", chars "bad TSS",
    chars "segment not present", chars "stack fault",
    chars "General Protection Fault", chars "page fault",
    chars "unknown interrupt", chars "invalid", chars "alignment check",
    chars "machine check"] ++
    List.replicate 13 (chars "reserved")

/-- The first line of both explanations -/
def reasonsHeader : List UInt8 :=
  chars "This error code was caused for the following reasons: \n"

/-- The table that a selector index refers to -/
def descriptorTable (table : UInt64) : List UInt8 :=
  if table = 0 then chars "GDT (0b00)\n"
  else if table = 1 then chars "IDT (0b01)\n"
  else if table = 2 then chars "LDT (0b10)\n"
  else if table = 3 then chars "IDT (0b11)\n"
  else []

/-- A line that ends in the value of one conversion -/
def valueLine
    (before : List Piece)
    (constant : ∀ piece ∈ before, piece.arguments = [])
    (specifier : Specifier)
    (value : specifier.type.Value) :
    Message where
  before := before
  constant := constant
  fields :=
    [⟨⟨false, specifier, .newLine, Literal.newLine_ne_nil⟩, value⟩]

/-- `"In the index: %lu\n"` -/
def indexLine (index : UInt64) : Message :=
  valueLine [.literal ⟨chars "In the index: ", by decide, by decide⟩]
    (by simp [Piece.arguments]) .lu index

/-- The field of an error code that `switch` is called on -/
def selectorTable (errorCode : UInt64) : UInt64 :=
  errorCode >>> 1 &&& 3

/-- The field of an error code that is printed as the index -/
def selectorIndex (errorCode : UInt64) : UInt64 :=
  (errorCode &&& 0x0000FFFF) >>> 3

/-- `decipher_error_code_nonpagefault` -/
def decipherErrorCodeNonpagefault
    (leftOver : List UInt8)
    (errorCode : UInt64) :
    List UInt8 :=
  reasonsHeader ++
    ((if errorCode % 2 ≠ 0 then
        chars "- happened due to external hardware (outside of processor)\n"
      else
        []) ++
      (chars "- selector index references a descriptor in the " ++
        (descriptorTable (selectorTable errorCode) ++
          (indexLine (selectorIndex errorCode)).text leftOver)))

/-- A `PAGE_FAULT` constant, given by its bit -/
def pageFaultBit (bit : UInt64) : UInt64 :=
  1 <<< bit

/-- The `PAGE_FAULT` constants with their texts, in the order of the tests -/
def pageFaultReasons : List (UInt64 × List UInt8) :=
  [(pageFaultBit 0, chars "The present bit is not set.\n"),
    (pageFaultBit 1, chars "Caused by a write.\n"),
    (pageFaultBit 2, chars "CPL was set to 3 (user mode).\n"),
    (pageFaultBit 3, chars "A reserved bit was set to one.\n"),
    (pageFaultBit 4, chars "Caused by an instruction fetch.\n"),
    (pageFaultBit 5, chars "Caused by a Protection Key violation.\n"),
    (pageFaultBit 6, chars "Caused by a shadow stack access.\n"),
    (pageFaultBit 7, chars "Caused by an SGX violation.\n")]

/-- A chain of `else if`: the text of the first reason that is set -/
def firstReason (errorCode : UInt64) :
    (reasons : List (UInt64 × List UInt8)) →
    List UInt8
  | [] => []
  | (mask, text) :: reasons =>
      if errorCode &&& mask ≠ 0 then text else firstReason errorCode reasons

/-- `decipher_page_fault_error_code` -/
def decipherPageFaultErrorCode (errorCode : UInt64) : List UInt8 :=
  reasonsHeader ++ firstReason errorCode pageFaultReasons

/--
`PRETTY_PRINT_INT(r->irq)`; for `%x` the low half of the argument is printed
-/
def irqLine (irq : UInt64) : Message where
  before := []
  constant := Message.constant_nil
  fields :=
    [⟨⟨false, .s, ⟨chars ": ", by decide, by decide⟩, by decide⟩,
        chars "r->irq"⟩,
      ⟨⟨false, .lu, .bracket, Literal.bracket_ne_nil⟩, irq⟩,
      ⟨⟨false, .x, .bracketLine, Literal.bracketLine_ne_nil⟩,
        irq.toUInt32⟩]

/-- `"%%rsp=%x\n"`, which prints the low half -/
def rspLine (rsp : UInt64) : Message :=
  valueLine
    [.percent false, .literal ⟨chars "rsp=", by decide, by decide⟩]
    (by simp [Piece.arguments]) .x rsp.toUInt32

/-- `"%s\n"` -/
def nameLine (name : List UInt8) : Message :=
  valueLine [] Message.constant_nil .s name

/-- `"Page fault at: %lx\n"` -/
def addressLine (cr2 : UInt64) : Message :=
  valueLine [.literal ⟨chars "Page fault at: ", by decide, by decide⟩]
    (by simp [Piece.arguments]) .lx cr2

/-- `"%%rip=%lx\n"` -/
def ripLine (rip : UInt64) : Message :=
  valueLine
    [.percent false, .literal ⟨chars "rip=", by decide, by decide⟩]
    (by simp [Piece.arguments]) .lx rip

/--
What `exception_handler` prints for a vector below 32 before `panic_irq`
stops the processor
-/
def faultReport
    (leftOver : List UInt8)
    (r : RegsT)
    (cr2 : UInt64) :
    List UInt8 :=
  chars "**KERNEL FAULT**: " ++
    ((irqLine r.irq).text leftOver ++
      ((rspLine r.rsp).text leftOver ++
        ((if r.irq ≠ 0xe then
            decipherErrorCodeNonpagefault leftOver r.errorCode
          else
            decipherPageFaultErrorCode r.errorCode) ++
          ((nameLine (exceptions.getD r.irq.toNat [])).text leftOver ++
            ((if r.irq = 0xe then
                (addressLine cr2).text leftOver ++
                  (ripLine r.rip).text leftOver
              else
                []) ++
              chars "Halting now.")))))

/-- The lines have the formats of the source. -/
theorem formats_faultReport
    (number : UInt64)
    (name : List UInt8) :
    textOf (irqLine number).pieces = chars "%s: %lu (%x)\n" ∧
      textOf (rspLine number).pieces = chars "%%rsp=%x\n" ∧
      textOf (indexLine number).pieces = chars "In the index: %lu\n" ∧
      textOf (nameLine name).pieces = chars "%s\n" ∧
      textOf (addressLine number).pieces = chars "Page fault at: %lx\n" ∧
      textOf (ripLine number).pieces = chars "%%rip=%lx\n" := by
  simp only [textOf, Message.pieces, irqLine, rspLine, indexLine, nameLine,
    addressLine, ripLine, valueLine, Field.pieces, List.flatMap_cons,
    List.flatMap_nil]
  exact ⟨rfl, rfl, rfl, rfl, rfl, rfl⟩

end Source

section Lines

variable {leftOver leftOver' : List UInt8}

/-- Lines with a number tell it. -/
theorem valueLine_tells
    {before : List Piece}
    {constant : ∀ piece ∈ before, piece.arguments = []}
    {specifier : Specifier}
    {value other : specifier.type.Value}
    {n m : UInt64}
    {base : Base}
    {rest later : List UInt8}
    (size : leftOver.length = 64)
    (size' : leftOver'.length = 64)
    (isNumber : specifier.number value = some (n, base))
    (otherNumber : specifier.number other = some (m, base)) :
    (valueLine before constant specifier value).text leftOver ++ rest =
        (valueLine before constant specifier other).text leftOver' ++ later ↔
      specifier.shown value = specifier.shown other ∧ rest = later := by
  have noDigit : charDigit 16 0x0A = none := by
    decide
  have notLead : 0x0A ∉ chars specifier.lead := by
    cases specifier <;> decide
  have clean
      {leftOver : List UInt8}
      {value : specifier.type.Value}
      {n : UInt64}
      (size : leftOver.length = 64)
      (isNumber : specifier.number value = some (n, base)) :
      (valueLine before constant specifier value).Clean leftOver := by
    simp only [Message.Clean, valueLine, List.forall_mem_cons]
    refine ⟨?_, fun _ none => absurd none List.not_mem_nil⟩
    exact Field.clean_of_number size isNumber noDigit notLead
  have sameFormat :
      (valueLine before constant specifier value).SameFormat
        (valueLine before constant specifier other) :=
    ⟨rfl, rfl⟩
  rw [Message.text_append_inj size size' sameFormat (clean size isNumber)
    (clean size' otherNumber)]
  simp [valueLine, Message.shown, Field.shown]

/-- The line with the vector tells it. -/
theorem irqLine_tells
    {irq irq' : UInt64}
    {rest later : List UInt8}
    (size : leftOver.length = 64)
    (size' : leftOver'.length = 64) :
    (irqLine irq).text leftOver ++ rest =
        (irqLine irq').text leftOver' ++ later ↔
      irq = irq' ∧ rest = later := by
  have clean
      {leftOver : List UInt8}
      {irq : UInt64}
      (size : leftOver.length = 64) :
      (irqLine irq).Clean leftOver := by
    simp only [Message.Clean, irqLine, List.forall_mem_cons]
    refine ⟨?_, ?_, ?_, fun _ none => absurd none List.not_mem_nil⟩
    · exact Field.clean_string (by decide)
    · exact Field.clean_of_number size rfl (by decide) (by decide)
    · exact Field.clean_of_number size rfl (by decide) (by decide)
  have sameFormat : (irqLine irq).SameFormat (irqLine irq') := ⟨rfl, rfl⟩
  rw [Message.text_append_inj size size' sameFormat (clean size) (clean size')]
  apply and_congr_left'
  constructor
  · intro same
    simp only [irqLine, Message.shown, Field.shown, List.map_cons,
      List.cons.injEq] at same
    exact Shown.unsigned.inj same.2.1
  · rintro rfl
    rfl

end Lines

section ErrorCodes

variable {leftOver leftOver' : List UInt8}

theorem toNat_selectorTable (code : UInt64) :
    (selectorTable code).toNat = code.toNat / 2 % 4 := by
  rw [selectorTable, UInt64.toNat_and, UInt64.toNat_shiftRight]
  change code.toNat >>> 1 &&& 3 = _
  rw [Nat.and_two_pow_sub_one_eq_mod _ 2, Nat.shiftRight_eq_div_pow]

theorem toNat_selectorIndex (code : UInt64) :
    (selectorIndex code).toNat = code.toNat % 65536 / 8 := by
  rw [selectorIndex, UInt64.toNat_shiftRight, UInt64.toNat_and]
  change (code.toNat &&& 65535) >>> 3 = _
  rw [Nat.and_two_pow_sub_one_eq_mod _ 16, Nat.shiftRight_eq_div_pow]

/-- The names of the tables are distinct and as long as each other. -/
theorem descriptorTable_inj
    {code code' : UInt64}
    {rest later : List UInt8} :
    descriptorTable (selectorTable code) ++ rest =
        descriptorTable (selectorTable code') ++ later ↔
      selectorTable code = selectorTable code' ∧ rest = later := by
  have tables (code : UInt64) : selectorTable code ∈ [0, 1, 2, 3] := by
    have value := toNat_selectorTable code
    simp only [List.mem_cons, List.not_mem_nil, or_false,
      ← UInt64.toNat_inj, value]
    change _ = 0 ∨ _ = 1 ∨ _ = 2 ∨ _ = 3
    omega
  have length :
      ∀ table ∈ [0, 1, 2, 3], (descriptorTable table).length = 11 :=
    List.forall_iff_forall_mem.mp (by decide)
  have distinct : ([0, 1, 2, 3].map descriptorTable).Nodup := by
    decide
  constructor
  · intro same
    have sameLength :=
      (length _ (tables code)).trans (length _ (tables code')).symm
    obtain ⟨sameName, sameRest⟩ := List.append_inj same sameLength
    exact
      ⟨List.inj_on_of_nodup_map distinct (tables code) (tables code') sameName,
        sameRest⟩
  · rintro ⟨sameTable, rfl⟩
    rw [sameTable]

/-- The low 16 bits of an error code are its three fields. -/
theorem fields_eq_iff (code code' : UInt64) :
    ((code % 2 ≠ 0 ↔ code' % 2 ≠ 0) ∧
        selectorTable code = selectorTable code' ∧
          selectorIndex code = selectorIndex code') ↔
      code.toUInt16 = code'.toUInt16 := by
  have external (code : UInt64) : code % 2 ≠ 0 ↔ code.toNat % 2 ≠ 0 := by
    rw [ne_eq, ← UInt64.toNat_inj, UInt64.toNat_mod]
    rfl
  simp only [external, ← UInt64.toNat_inj, ← UInt16.toNat_inj,
    toNat_selectorTable, toNat_selectorIndex, UInt64.toNat_toUInt16]
  omega

/-- Whether the line about external hardware is there can be told. -/
theorem external_tells
    {external external' : Prop}
    [Decidable external]
    [Decidable external']
    {rest later : List UInt8} :
    (if external then
          chars "- happened due to external hardware (outside of processor)\n"
        else
          []) ++
          (chars "- selector index references a descriptor in the " ++ rest) =
        (if external' then
          chars "- happened due to external hardware (outside of processor)\n"
        else
          []) ++
          (chars "- selector index references a descriptor in the " ++ later) ↔
      (external ↔ external') ∧ rest = later := by
  by_cases isExternal : external
  · by_cases isExternal' : external'
    · simp [isExternal, isExternal']
    · simp only [if_pos isExternal, if_neg isExternal']
      constructor
      · intro same
        have third : some (0x68 : UInt8) = some 0x73 :=
          congrArg (fun text => text[2]?) same
        exact absurd third (by decide)
      · rintro ⟨either, -⟩
        exact absurd (either.mp isExternal) isExternal'
  · by_cases isExternal' : external'
    · simp only [if_neg isExternal, if_pos isExternal']
      constructor
      · intro same
        have third : some (0x73 : UInt8) = some 0x68 :=
          congrArg (fun text => text[2]?) same
        exact absurd third (by decide)
      · rintro ⟨either, -⟩
        exact absurd (either.mpr isExternal') isExternal
    · simp [isExternal, isExternal']

/-- The explanation of an error code tells its low 16 bits. -/
theorem decipherErrorCode_tells
    {code code' : UInt64}
    {rest later : List UInt8}
    (size : leftOver.length = 64)
    (size' : leftOver'.length = 64) :
    decipherErrorCodeNonpagefault leftOver code ++ rest =
        decipherErrorCodeNonpagefault leftOver' code' ++ later ↔
      code.toUInt16 = code'.toUInt16 ∧ rest = later := by
  have index :
      (indexLine (selectorIndex code)).text leftOver ++ rest =
          (indexLine (selectorIndex code')).text leftOver' ++ later ↔
        selectorIndex code = selectorIndex code' ∧ rest = later := by
    refine Iff.trans (valueLine_tells size size' rfl rfl) ?_
    exact and_congr_left' (Shown.unsigned.injEq _ _).to_iff
  simp only [decipherErrorCodeNonpagefault, List.append_assoc,
    List.append_cancel_left_eq]
  rw [external_tells, descriptorTable_inj, index, ← fields_eq_iff]
  simp only [and_assoc]

end ErrorCodes

section PageFaults

variable {code code' : UInt64}

/-- The lowest of the eight constants that is set in an error code -/
def pageFaultReason (errorCode : UInt64) : Option (UInt64 × List UInt8) :=
  pageFaultReasons.find? fun reason => errorCode &&& reason.1 ≠ 0

/-- The first cause of a page fault in its error code, if it has one. -/
def pageFaultCause (errorCode : UInt64) : Option UInt64 :=
  (pageFaultReason errorCode).map Prod.fst

theorem firstReason_eq (errorCode : UInt64) :
    firstReason errorCode pageFaultReasons =
      ((pageFaultReason errorCode).map Prod.snd).getD [] := by
  unfold pageFaultReason
  induction pageFaultReasons with
  | nil =>
      rfl
  | cons reason reasons inductionHypothesis =>
      obtain ⟨mask, text⟩ := reason
      by_cases isSet : errorCode &&& mask ≠ 0
      · simp [firstReason, isSet]
      · simp [firstReason, isSet, inductionHypothesis]

/-- What can be printed as the reason of a page fault, nothing included -/
def reasonTexts : List (List UInt8) :=
  [] :: pageFaultReasons.map Prod.snd

theorem distinct_reasonTexts : reasonTexts.Nodup := by
  decide

theorem firstReason_mem (errorCode : UInt64) :
    firstReason errorCode pageFaultReasons ∈ reasonTexts := by
  rw [firstReason_eq]
  cases found : pageFaultReason errorCode with
  | none =>
      exact List.mem_cons_self
  | some reason =>
      have member := List.mem_of_find?_eq_some found
      exact List.mem_cons_of_mem _ (List.mem_map_of_mem member)

/-- The text of the reason tells the cause. -/
theorem firstReason_inj :
    firstReason code pageFaultReasons = firstReason code' pageFaultReasons ↔
      pageFaultCause code = pageFaultCause code' := by
  have masks : (pageFaultReasons.map Prod.fst).Nodup := by
    decide
  have texts := List.nodup_cons.mp distinct_reasonTexts
  rw [firstReason_eq, firstReason_eq, pageFaultCause, pageFaultCause]
  cases found : pageFaultReason code with
  | none =>
      cases found' : pageFaultReason code' with
      | none =>
          simp
      | some reason' =>
          have member' := List.mem_of_find?_eq_some found'
          have notEmpty : [] ≠ reason'.2 := fun isEmpty =>
            texts.1 (isEmpty ▸ List.mem_map_of_mem member')
          simpa using notEmpty
  | some reason =>
      have member := List.mem_of_find?_eq_some found
      cases found' : pageFaultReason code' with
      | none =>
          have notEmpty : reason.2 ≠ [] := fun isEmpty =>
            texts.1 (isEmpty ▸ List.mem_map_of_mem member)
          simpa using notEmpty
      | some reason' =>
          have member' := List.mem_of_find?_eq_some found'
          simp only [Option.map_some, Option.getD_some, Option.some.injEq]
          constructor
          · intro sameText
            exact
              congrArg Prod.fst
                (List.inj_on_of_nodup_map texts.2 member member' sameText)
          · intro sameMask
            exact
              congrArg Prod.snd
                (List.inj_on_of_nodup_map masks member member' sameMask)

/-- The first line behind the header, which is the name if there is no reason -/
def firstLine (reason : List UInt8) : List UInt8 :=
  if reason = [] then chars "page fault" else reason.dropLast

/-- The reason in front of the name of the exception can be told. -/
theorem reason_tells
    {reason reason' rest later : List UInt8}
    (isReason : reason ∈ reasonTexts)
    (isReason' : reason' ∈ reasonTexts) :
    reason ++ (chars "page fault\n" ++ rest) =
        reason' ++ (chars "page fault\n" ++ later) ↔
      reason = reason' ∧ rest = later := by
  have lines : (reasonTexts.map firstLine).Nodup := by
    decide
  have clean : ∀ reason ∈ reasonTexts, 0x0A ∉ firstLine reason :=
    List.forall_iff_forall_mem.mp (by decide)
  have ended :
      ∀ reason ∈ reasonTexts,
        reason = [] ∨ reason = reason.dropLast ++ [0x0A] :=
    List.forall_iff_forall_mem.mp (by decide)
  -- the first line ends at the first newline
  have split (reason : List UInt8) (isReason : reason ∈ reasonTexts) :
      ∃ behind,
        ∀ rest,
          reason ++ (chars "page fault\n" ++ rest) =
            firstLine reason ++ 0x0A :: (behind ++ rest) := by
    rcases ended reason isReason with rfl | ends
    · exact ⟨[], fun rest => rfl⟩
    · refine ⟨chars "page fault\n", fun rest => ?_⟩
      have some : reason ≠ [] := by
        intro isEmpty
        rw [isEmpty] at ends
        exact absurd ends (by decide)
      rw [firstLine, if_neg some]
      conv_lhs => rw [ends]
      rw [List.append_assoc, List.singleton_append]
  constructor
  · intro same
    obtain ⟨behind, parts⟩ := split reason isReason
    obtain ⟨behind', parts'⟩ := split reason' isReason'
    have sameLine : firstLine reason = firstLine reason' := by
      rw [parts, parts',
        append_separator_inj (clean reason isReason)
          (clean reason' isReason')] at same
      exact same.1
    obtain rfl :=
      List.inj_on_of_nodup_map lines isReason isReason' sameLine
    rw [List.append_cancel_left_eq, List.append_cancel_left_eq] at same
    exact ⟨rfl, same⟩
  · rintro ⟨rfl, rfl⟩
    rfl

end PageFaults

section Faults

variable {leftOver leftOver' : List UInt8}

/-- A name is printed up to its NUL, whatever the arrays held. -/
theorem text_nameLine (leftOver name : List UInt8) :
    (nameLine name).text leftOver = printString name ++ chars "\n" := by
  simp [Literal.newLine, nameLine, valueLine, Message.text, Message.pieces,
    Field.pieces, emitAll, Piece.emit, Specifier.emit, Specifier.number,
    Specifier.plain]

/-- What two reports of page faults tell behind the stack pointer -/
theorem pageFault_tells
    {r r' : RegsT}
    {cr2 cr2' : UInt64}
    (size : leftOver.length = 64)
    (size' : leftOver'.length = 64) :
    decipherPageFaultErrorCode r.errorCode ++
          ((nameLine (chars "page fault")).text leftOver ++
            ((addressLine cr2).text leftOver ++
              ((ripLine r.rip).text leftOver ++ chars "Halting now."))) =
        decipherPageFaultErrorCode r'.errorCode ++
          ((nameLine (chars "page fault")).text leftOver' ++
            ((addressLine cr2').text leftOver' ++
              ((ripLine r'.rip).text leftOver' ++ chars "Halting now."))) ↔
      pageFaultCause r.errorCode = pageFaultCause r'.errorCode ∧
        cr2 = cr2' ∧ r.rip = r'.rip := by
  have name : printString (chars "page fault") ++ chars "\n" =
      chars "page fault\n" := by
    decide
  have instruction :
      (ripLine r.rip).text leftOver ++ chars "Halting now." =
          (ripLine r'.rip).text leftOver' ++ chars "Halting now." ↔
        r.rip = r'.rip := by
    refine Iff.trans (valueLine_tells size size' rfl rfl) ?_
    rw [and_iff_left rfl]
    exact (Shown.unsigned.injEq _ _).to_iff
  have address :
      (addressLine cr2).text leftOver ++
            ((ripLine r.rip).text leftOver ++ chars "Halting now.") =
          (addressLine cr2').text leftOver' ++
            ((ripLine r'.rip).text leftOver' ++ chars "Halting now.") ↔
        cr2 = cr2' ∧ r.rip = r'.rip := by
    refine Iff.trans (valueLine_tells size size' rfl rfl) ?_
    exact and_congr (Shown.unsigned.injEq _ _).to_iff instruction
  simp only [decipherPageFaultErrorCode, text_nameLine, name,
    List.append_assoc, List.append_cancel_left_eq]
  rw [reason_tells (firstReason_mem _) (firstReason_mem _), firstReason_inj,
    address]

/-- The report of a frame tells what it prints, and nothing else. -/
theorem faultReport_tells
    {r r' : RegsT}
    {cr2 cr2' : UInt64}
    (size : leftOver.length = 64)
    (size' : leftOver'.length = 64) :
    faultReport leftOver r cr2 = faultReport leftOver' r' cr2' ↔
      r.irq = r'.irq ∧ r.rsp.toUInt32 = r'.rsp.toUInt32 ∧
        if r.irq = 0xe then
          pageFaultCause r.errorCode = pageFaultCause r'.errorCode ∧
            cr2 = cr2' ∧ r.rip = r'.rip
        else
          r.errorCode.toUInt16 = r'.errorCode.toUInt16 := by
  have stack {rest later : List UInt8} :
      (rspLine r.rsp).text leftOver ++ rest =
          (rspLine r'.rsp).text leftOver' ++ later ↔
        r.rsp.toUInt32 = r'.rsp.toUInt32 ∧ rest = later := by
    refine Iff.trans (valueLine_tells size size' rfl rfl) ?_
    apply and_congr_left'
    refine Iff.trans (Shown.unsigned.injEq _ _).to_iff ?_
    rw [← UInt64.toNat_inj, ← UInt32.toNat_inj, UInt32.toNat_toUInt64,
      UInt32.toNat_toUInt64]
  rw [faultReport, faultReport, List.append_cancel_left_eq,
    irqLine_tells size size', stack]
  apply and_congr_right
  intro sameIrq
  apply and_congr_right
  intro _
  rw [← sameIrq]
  by_cases pageFault : r.irq = 0xe
  · have name :
        exceptions.getD r.irq.toNat [] = chars "page fault" := by
      rw [pageFault]
      rfl
    simp only [pageFault, ne_eq, not_true_eq_false, ↓reduceIte,
      List.append_assoc]
    rw [pageFault] at name
    rw [name]
    exact pageFault_tells size size'
  · simp only [pageFault, ne_eq, not_false_eq_true, ↓reduceIte,
      List.nil_append, text_nameLine]
    rw [decipherErrorCode_tells size size', and_iff_left rfl]

end Faults

section Delivery

/--
A fault of the processor, with the stack and the gate it is delivered to; the
gate of vector 31 leads to the stub of the timer interrupt, and the stubs of
21 and 29 lay out another frame
-/
structure Fault where
  context : Context
  stack : UInt64
  gate : Gate
  vector : Nat
  code : UInt64
  cr2 : UInt64
  isFault : vector < 32
  gated : vector ≠ 31
  framed : vector ≠ 21 ∧ vector ≠ 29

namespace Fault

/-- The error code in the frame -/
def errorCode (fault : Fault) : UInt64 :=
  (pushedCode fault.vector fault.code).getD 0

/-- What is printed when the stub of the fault has called the handler -/
def report (leftOver : List UInt8) (fault : Fault) : List UInt8 :=
  let machine :=
    atHandler fault.context fault.stack fault.gate fault.vector fault.code
  faultReport leftOver (RegsT.read machine.memory (machine.registers .rdi))
    fault.cr2

end Fault

/--
The report of a fault, from its delivery through the stub to the text, tells
the vector and the low half of the interrupted stack pointer; of a page fault
also the lowest cause, the address and the instruction; of any other fault
the low 16 bits of the error code.  It tells nothing else of the context.
-/
theorem fault_told_iff
    (leftOver leftOver' : List UInt8)
    (fault fault' : Fault)
    (size : leftOver.length = 64)
    (size' : leftOver'.length = 64) :
    fault.report leftOver = fault'.report leftOver' ↔
      fault.vector = fault'.vector ∧
        fault.context.rsp.toUInt32 = fault'.context.rsp.toUInt32 ∧
        if fault.vector = 14 then
          pageFaultCause fault.errorCode = pageFaultCause fault'.errorCode ∧
            fault.cr2 = fault'.cr2 ∧ fault.context.rip = fault'.context.rip
        else
          fault.errorCode.toUInt16 = fault'.errorCode.toUInt16 := by
  have frame (fault : Fault) :=
    frame_atHandler fault.context fault.stack fault.gate fault.code
      (Nat.lt_trans fault.isFault (by decide)) fault.framed
  have number (fault : Fault) :
      (UInt64.ofNat fault.vector).toNat = fault.vector :=
    UInt64.toNat_ofNat_of_lt' (Nat.lt_trans fault.isFault (by decide))
  have vectors :
      UInt64.ofNat fault.vector = UInt64.ofNat fault'.vector ↔
        fault.vector = fault'.vector := by
    rw [← UInt64.toNat_inj, number, number]
  have pageFault : UInt64.ofNat fault.vector = 0xe ↔ fault.vector = 14 := by
    rw [← UInt64.toNat_inj, number]
    rfl
  rw [Fault.report, Fault.report]
  simp only [frame, faultReport_tells size size', expectedFrame, vectors,
    pageFault]
  rfl

/-- A page fault with an error code -/
def pageFaultWith (code : UInt64) : Fault where
  context := quietContext
  stack := 0x9000
  gate := { rip := 0x2000, cs := 8 }
  vector := 14
  code := code
  cr2 := 0xB8000
  isFault := by decide
  gated := by decide
  framed := by decide

/-- A read and a write that violate protection are reported alike. -/
theorem fault_told_iff_protection :
    (pageFaultWith 1).report (List.replicate 64 0) =
        (pageFaultWith 3).report (List.replicate 64 1) ∧
      (pageFaultWith 0).report (List.replicate 64 0) ≠
        (pageFaultWith 2).report (List.replicate 64 1) := by
  constructor
  · apply (fault_told_iff (List.replicate 64 0) (List.replicate 64 1)
      (pageFaultWith 1) (pageFaultWith 3) (by decide) (by decide)).mpr
    exact ⟨rfl, rfl, by decide, rfl, rfl⟩
  · intro same
    have told :=
      (fault_told_iff (List.replicate 64 0) (List.replicate 64 1)
        (pageFaultWith 0) (pageFaultWith 2) (by decide) (by decide)).mp same
    have causes : pageFaultCause 0 = pageFaultCause 2 := told.2.2.1
    exact absurd causes (by decide)

end Delivery

end Relics.Interrupt
