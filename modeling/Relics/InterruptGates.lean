import Mathlib.Tactic.Ring
import Relics.CountedLoop
import Relics.InterruptSource

namespace Relics.Interrupt

/-!
# The interrupt table that `idt_init` builds

`isr.S` lays out 31 addresses at `isr_stub_table` and 15 at `irq_stub_table`
right behind it, while `idt_init` fills the gates of the vectors 0 to 31 and
32 to 46.  The gate of vector 31 is read from the next table and leads to the
stub of vector 32, and vector 47 has no gate.
-/

open ByteMemory CountedLoop

section Source

/-- `IDT_MAX_DESCRIPTORS` -/
def idtMaxDescriptors : Nat := 256

/-- `GDT_CS64_OFFSET` -/
def gdtCs64Offset : UInt16 := 0x8

/-- `IDT_FLAG_GATE_INT` -/
def idtFlagGateInt : Nat := 0xE

/-- `struct idt_bits`: bit fields of 3, 5, 5, 2 and 1 bits -/
structure IdtBits where
  ist : Nat
  zero : Nat
  type : Nat
  dpl : Nat
  p : Nat

/-- The 16 bits that the fields make up, the first field lowest. -/
def IdtBits.pack (bits : IdtBits) : Nat :=
  bits.ist + bits.zero * 2 ^ 3 + bits.type * 2 ^ 8 + bits.dpl * 2 ^ 13 +
    bits.p * 2 ^ 15

/-- `idt_entry_t` -/
structure IdtEntry where
  isrLow : UInt16
  kernelCs : UInt16
  bits : IdtBits
  isrMid : UInt16
  isrHigh : UInt32
  reserved : UInt32

/-- `sizeof(idt_entry_t)` -/
def idtEntrySize : Nat := 16

/-- The packed entry is written to an address. -/
def IdtEntry.write (memory : Memory) (address : Nat) (entry : IdtEntry) : Memory :=
  let memory := store memory address 2 entry.isrLow.toNat
  let memory := store memory (address + 2) 2 entry.kernelCs.toNat
  let memory := store memory (address + 4) 2 entry.bits.pack
  let memory := store memory (address + 6) 2 entry.isrMid.toNat
  let memory := store memory (address + 8) 4 entry.isrHigh.toNat
  store memory (address + 12) 4 entry.reserved.toNat

/-- The tables of addresses in `isr.S`. -/
inductive StubTable where
  | isr
  | irq
  deriving DecidableEq, Repr

/-- The `.rept` count of a table. -/
def StubTable.length : StubTable → Nat
  | isr => 31
  | irq => 15

/-- The quads from a table on: the tables are laid out back to back. -/
def StubTable.start : StubTable → Nat
  | isr => 0
  | irq => StubTable.isr.length

/-- Where the assembler and the linker place what `idt_init` uses. -/
structure Placement where
  /-- the addresses of the 48 stubs by vector -/
  stubAddress : Nat → UInt64
  distinct :
    ∀ vector < 48, ∀ other < 48,
      stubAddress vector = stubAddress other → vector = other
  /-- the data behind the two tables -/
  behind : Nat → UInt64
  /-- the address of `idt` -/
  idt : Nat

/-- The quads of the data section, from `isr_stub_table` on. -/
def Placement.quad (placement : Placement) (index : Nat) : UInt64 :=
  if index < 31 then
    placement.stubAddress index
  else if index < 31 + 15 then
    placement.stubAddress (32 + (index - 31))
  else
    placement.behind (index - (31 + 15))

/-- `isr_stub_table[index]` and `irq_stub_table[index]` -/
def Placement.entry
    (placement : Placement)
    (table : StubTable)
    (index : Nat) :
    UInt64 :=
  placement.quad (table.start + index)

/-- `idtr` -/
structure Idtr where
  base : Nat
  limit : Nat
  deriving DecidableEq

/-- An entry of a table that was read for a vector. -/
structure TableRead where
  vector : Nat
  table : StubTable
  index : Nat
  deriving DecidableEq, Repr

/-- Memory with `idt`, the register `idtr`, and the table entries read so far. -/
structure IdtState where
  memory : Memory
  idtr : Idtr
  reads : List TableRead

/-- The bits that `idt_set_descriptor` sets -/
def descriptorBits : IdtBits where
  ist := 0
  zero := 0
  type := idtFlagGateInt
  dpl := 0
  p := 1

/-- `idt_set_descriptor`, which ignores the stack number it is given -/
def idtSetDescriptor
    (placement : Placement)
    (vector : Nat)
    (isr : UInt64)
    (state : IdtState) :
    IdtState :=
  let descriptor : IdtEntry :=
    { isrLow := (isr &&& 0xFFFF).toUInt16
      kernelCs := gdtCs64Offset
      bits := descriptorBits
      isrMid := ((isr >>> 16) &&& 0xFFFF).toUInt16
      isrHigh := (isr >>> 32).toUInt32
      reserved := 0 }
  { state with
    memory :=
      descriptor.write state.memory (placement.idt + idtEntrySize * vector)
    idtr :=
      { base := placement.idt
        limit := idtEntrySize * idtMaxDescriptors - 1 } }

/-- A gate is set to an entry of a table, which is read. -/
def setFromTable
    (placement : Placement)
    (table : StubTable)
    (first index : Nat)
    (state : IdtState) :
    IdtState :=
  idtSetDescriptor placement (first + index) (placement.entry table index)
    { state with reads := ⟨first + index, table, index⟩ :: state.reads }

/-- `memset` -/
def memset (memory : Memory) (s : Nat) (c : UInt8) (n : Nat) : Memory :=
  loop (fun i memory => setByte memory (s + i) c) memory n

/-- `idt_init` up to its call of `fill_irq_table` -/
def idtInit (placement : Placement) (memory : Memory) : IdtState :=
  let state : IdtState :=
    { memory :=
        memset memory placement.idt 0 (idtEntrySize * idtMaxDescriptors - 1)
      idtr := { base := 0, limit := 0 }
      reads := [] }
  let state := loop (setFromTable placement .isr 0) state 32
  loop (setFromTable placement .irq 32) state (47 - 32)

end Source

section Processor

/-- A descriptor of the interrupt table as the processor reads it. -/
structure GateDescriptor where
  offset : Nat
  selector : Nat
  ist : Nat
  type : Nat
  dpl : Nat
  present : Bool
  deriving DecidableEq, Repr

/-- The descriptor in the 16 bytes at an address. -/
def GateDescriptor.read (memory : Memory) (address : Nat) : GateDescriptor where
  offset :=
    load memory address 2 + load memory (address + 6) 2 * 2 ^ 16 +
      load memory (address + 8) 4 * 2 ^ 32
  selector := load memory (address + 2) 2
  ist := load memory (address + 4) 2 % 2 ^ 3
  type := load memory (address + 4) 2 / 2 ^ 8 % 2 ^ 4
  dpl := load memory (address + 4) 2 / 2 ^ 13 % 2 ^ 2
  present := load memory (address + 4) 2 / 2 ^ 15 % 2 = 1

/-- The type of a 64-bit interrupt gate. -/
def interruptGateType : Nat := 0xE

/-- The descriptor of a vector in a table. -/
def descriptorOf (state : IdtState) (vector : Nat) : GateDescriptor :=
  .read state.memory (state.idtr.base + 16 * vector)

end Processor

section Descriptors

variable
    {memory : Memory}
    {address : Nat}

/-- Cutting 16 bits to 16 bits leaves them. -/
theorem low16 (n : Nat) : n % 65536 &&& 65535 = n % 65536 := by
  rw [Nat.and_two_pow_sub_one_eq_mod (n % 65536) 16, Nat.mod_mod]

/-- The parts of an address are put together again. -/
theorem split_address (isr : UInt64) :
    (isr &&& 0xFFFF).toUInt16.toNat +
        ((isr >>> 16) &&& 0xFFFF).toUInt16.toNat * 2 ^ 16 +
        (isr >>> 32).toUInt32.toNat * 2 ^ 32 =
      isr.toNat := by
  have bound := isr.toNat_lt
  have low : (isr &&& 0xFFFF).toUInt16.toNat = isr.toNat % 65536 := by
    simp [low16]
  have middle :
      ((isr >>> 16) &&& 0xFFFF).toUInt16.toNat = isr.toNat / 65536 % 65536 := by
    simp [low16, Nat.shiftRight_eq_div_pow]
  have high : (isr >>> 32).toUInt32.toNat = isr.toNat / 4294967296 := by
    simp [Nat.shiftRight_eq_div_pow]
    omega
  rw [low, middle, high]
  omega

/-- The descriptor the processor finds where an entry is written. -/
theorem read_write_entry
    (memory : Memory)
    (address : Nat)
    (entry : IdtEntry)
    (fits : entry.bits.pack < 2 ^ 16) :
    GateDescriptor.read (entry.write memory address) address =
      { offset :=
          entry.isrLow.toNat + entry.isrMid.toNat * 2 ^ 16 +
            entry.isrHigh.toNat * 2 ^ 32
        selector := entry.kernelCs.toNat
        ist := entry.bits.pack % 2 ^ 3
        type := entry.bits.pack / 2 ^ 8 % 2 ^ 4
        dpl := entry.bits.pack / 2 ^ 13 % 2 ^ 2
        present := entry.bits.pack / 2 ^ 15 % 2 = 1 } := by
  have low :
      load (entry.write memory address) address 2 = entry.isrLow.toNat := by
    simp only [IdtEntry.write]
    rw [load_store_apart (by omega), load_store_apart (by omega),
      load_store_apart (by omega), load_store_apart (by omega),
      load_store_apart (by omega), load_store_same]
    exact Nat.mod_eq_of_lt entry.isrLow.toNat_lt
  have selector :
      load (entry.write memory address) (address + 2) 2 =
        entry.kernelCs.toNat := by
    simp only [IdtEntry.write]
    rw [load_store_apart (by omega), load_store_apart (by omega),
      load_store_apart (by omega), load_store_apart (by omega),
      load_store_same]
    exact Nat.mod_eq_of_lt entry.kernelCs.toNat_lt
  have bits :
      load (entry.write memory address) (address + 4) 2 =
        entry.bits.pack := by
    simp only [IdtEntry.write]
    rw [load_store_apart (by omega), load_store_apart (by omega),
      load_store_apart (by omega), load_store_same]
    exact Nat.mod_eq_of_lt fits
  have middle :
      load (entry.write memory address) (address + 6) 2 =
        entry.isrMid.toNat := by
    simp only [IdtEntry.write]
    rw [load_store_apart (by omega), load_store_apart (by omega),
      load_store_same]
    exact Nat.mod_eq_of_lt entry.isrMid.toNat_lt
  have high :
      load (entry.write memory address) (address + 8) 4 =
        entry.isrHigh.toNat := by
    simp only [IdtEntry.write]
    rw [load_store_apart (by omega), load_store_same]
    exact Nat.mod_eq_of_lt entry.isrHigh.toNat_lt
  simp only [GateDescriptor.read, low, selector, bits, middle, high]

/-- Writing an entry changes only its 16 bytes. -/
theorem write_entry_outside
    {entry : IdtEntry}
    {other : Nat}
    (outside : other < address ∨ address + 16 ≤ other) :
    entry.write memory address other = memory other := by
  simp only [IdtEntry.write]
  rw [store_outside (by omega), store_outside (by omega),
    store_outside (by omega), store_outside (by omega),
    store_outside (by omega), store_outside (by omega)]

/-- A descriptor is determined by its first 12 bytes. -/
theorem GateDescriptor.read_congr
    {first second : Memory}
    (same :
      ∀ other,
        address ≤ other →
        other < address + 12 →
        first other = second other) :
    GateDescriptor.read first address = GateDescriptor.read second address := by
  have part (shift width : Nat) (inside : shift + width ≤ 12) :
      load first (address + shift) width =
        load second (address + shift) width :=
    load_congr fun other lower upper => same other (by omega) (by omega)
  have start := part 0 2 (by decide)
  rw [Nat.add_zero] at start
  simp only [GateDescriptor.read, start, part 2 2 (by decide),
    part 4 2 (by decide), part 6 2 (by decide), part 8 4 (by decide)]

end Descriptors

section Filling

variable
    {placement : Placement}
    {state : IdtState}

/-- The interrupt gate that leads to an address. -/
def interruptGate (isr : UInt64) : GateDescriptor where
  offset := isr.toNat
  selector := 8
  ist := 0
  type := interruptGateType
  dpl := 0
  present := true

/-- The descriptor of a vector in the table of a placement. -/
def Placement.descriptor
    (placement : Placement)
    (memory : Memory)
    (vector : Nat) :
    GateDescriptor :=
  .read memory (placement.idt + 16 * vector)

/-- `idt_set_descriptor` makes an interrupt gate. -/
theorem descriptor_idtSetDescriptor
    (placement : Placement)
    (vector : Nat)
    (isr : UInt64)
    (state : IdtState) :
    placement.descriptor (idtSetDescriptor placement vector isr state).memory
        vector =
      interruptGate isr := by
  have packed : descriptorBits.pack = 0x8E00 := rfl
  rw [Placement.descriptor, idtSetDescriptor]
  simp only [idtEntrySize]
  rw [read_write_entry]
  · simp only [interruptGate, split_address, packed, GateDescriptor.mk.injEq,
      true_and]
    exact ⟨rfl, rfl, rfl, rfl, rfl⟩
  · rw [packed]
    decide

/-- `idt_set_descriptor` leaves the descriptors of other vectors. -/
theorem descriptor_idtSetDescriptor_other
    {vector other : Nat}
    (isr : UInt64)
    (apart : other ≠ vector) :
    placement.descriptor (idtSetDescriptor placement vector isr state).memory
        other =
      placement.descriptor state.memory other := by
  apply GateDescriptor.read_congr
  intro byteAddress lower upper
  simp only [idtSetDescriptor, idtEntrySize]
  exact write_entry_outside (by omega)

/-- A loop over a table sets a gate for each index and leaves the others. -/
theorem descriptor_setFromTable_loop
    (placement : Placement)
    (table : StubTable)
    (first count : Nat)
    (state : IdtState) :
    ∀ vector,
      placement.descriptor
          (loop (setFromTable placement table first) state count).memory
          vector =
        if first ≤ vector ∧ vector < first + count then
          interruptGate (placement.entry table (vector - first))
        else
          placement.descriptor state.memory vector := by
  refine
    loop_invariant
      (fun index (reached : IdtState) =>
        ∀ vector,
          placement.descriptor reached.memory vector =
            if first ≤ vector ∧ vector < first + index then
              interruptGate (placement.entry table (vector - first))
            else
              placement.descriptor state.memory vector)
      (fun vector => by rw [if_neg (by omega)]) ?_
  intro index reached _ before vector
  rw [setFromTable]
  by_cases here : vector = first + index
  · subst here
    rw [descriptor_idtSetDescriptor, if_pos (by omega),
      Nat.add_sub_cancel_left]
  · rw [descriptor_idtSetDescriptor_other _ here, before vector]
    have same :
        (first ≤ vector ∧ vector < first + index) ↔
          (first ≤ vector ∧ vector < first + (index + 1)) := by
      omega
    simp only [same]

/-- `memset` fills its bytes. -/
theorem memset_inside
    {memory : Memory}
    {s n other : Nat}
    {c : UInt8}
    (lower : s ≤ other)
    (upper : other < s + n) :
    memset memory s c n other = c := by
  refine
    loop_invariant
      (fun index (reached : Memory) => other < s + index → reached other = c)
      (fun before => by omega) ?_ upper
  intro index reached _ before inside
  by_cases last : other = s + index
  · rw [last]
    exact setByte_same _ _ _
  · rw [setByte_other last]
    exact before (by omega)

/-- A loop over a table reads one entry for each vector it sets. -/
theorem reads_setFromTable_loop
    (placement : Placement)
    (table : StubTable)
    (first count : Nat)
    (state : IdtState) :
    ∀ read,
      read ∈ (loop (setFromTable placement table first) state count).reads ↔
        (∃ index < count, read = ⟨first + index, table, index⟩) ∨
          read ∈ state.reads := by
  refine
    loop_invariant
      (fun index (reached : IdtState) =>
        ∀ read,
          read ∈ reached.reads ↔
            (∃ other < index, read = ⟨first + other, table, other⟩) ∨
              read ∈ state.reads)
      (fun read => by simp) ?_
  intro index reached _ before read
  change read ∈ _ :: reached.reads ↔ _
  rw [List.mem_cons, before read]
  constructor
  · rintro (rfl | ⟨other, inside, rfl⟩ | earlier)
    · exact .inl ⟨index, Nat.lt_succ_self _, rfl⟩
    · exact .inl ⟨other, Nat.lt_succ_of_lt inside, rfl⟩
    · exact .inr earlier
  · rintro (⟨other, inside, rfl⟩ | earlier)
    · obtain below | rfl := Nat.lt_succ_iff_lt_or_eq.mp inside
      · exact .inr (.inl ⟨other, below, rfl⟩)
      · exact .inl rfl
    · exact .inr (.inr earlier)

end Filling

section Vectors

variable
    (placement : Placement)
    (memory : Memory)

/-- The last instruction of a stub before the common part pushes a vector. -/
def Pushes (routine vector : Nat) : Prop :=
  (stub routine).getLast? = some (.pushImmediate (UInt64.ofNat vector))

/-- The stub of each vector pushes it. -/
theorem pushes_own
    {vector : Nat}
    (inside : vector < 48) :
    Pushes vector vector := by
  have all : ∀ vector < 48,
      (stub vector).getLast? =
        some (.pushImmediate (UInt64.ofNat vector)) := by
    decide
  exact all vector inside

/-- No stub pushes the vector of another one. -/
theorem pushes_unique
    {routine vector : Nat}
    (inside : routine < 48)
    (byte : vector < 256)
    (pushes : Pushes routine vector) :
    routine = vector := by
  have own := pushes_own inside
  have same := Option.some.inj (own.symm.trans pushes)
  have words := congrArg UInt64.toNat (Instruction.pushImmediate.inj same)
  rw [UInt64.toNat_ofNat', UInt64.toNat_ofNat'] at words
  omega

/--
A vector below 48 has a present interrupt gate with selector 8 that leads to
the stub that pushes it, and its address was read inside a table.  A vector
from 48 on is not present.
-/
def ReachesItsStub
    (placement : Placement)
    (state : IdtState)
    (vector : Nat) :
    Prop :=
  if vector < 48 then
    (descriptorOf state vector).present = true ∧
      (descriptorOf state vector).type = interruptGateType ∧
      (descriptorOf state vector).selector = 8 ∧
      (∃ routine < 48,
        (descriptorOf state vector).offset =
            (placement.stubAddress routine).toNat ∧
          Pushes routine vector) ∧
      ∀ read ∈ state.reads,
        read.vector = vector →
        read.index < read.table.length
  else
    (descriptorOf state vector).present = false

/-- A loop over a table leaves the register at the table. -/
theorem idtr_setFromTable_loop
    (table : StubTable)
    (first count : Nat)
    (state : IdtState)
    (positive : 0 < count) :
    (loop (setFromTable placement table first) state count).idtr =
      { base := placement.idt, limit := 4095 } := by
  cases count with
  | zero =>
      omega
  | succ count =>
      rfl

/-- The register points to the table and spans it. -/
theorem idtInit_idtr :
    (idtInit placement memory).idtr =
      { base := placement.idt, limit := 4095 } :=
  idtr_setFromTable_loop placement .irq 32 15 _ (by decide)

/-- The vector whose stub a gate leads to. -/
def target (vector : Nat) : Nat :=
  if vector = 31 then 32 else vector

/-- Behind the last entry of `isr_stub_table` stands the first of the other. -/
theorem entry_isr
    {index : Nat}
    (inside : index < 32) :
    placement.entry .isr index = placement.stubAddress (target index) := by
  rw [Placement.entry, Placement.quad, StubTable.start, Nat.zero_add, target]
  by_cases last : index = 31
  · rw [last]
    rfl
  · rw [if_pos (by omega), if_neg last]

theorem entry_irq
    {index : Nat}
    (inside : index < 15) :
    placement.entry .irq index = placement.stubAddress (32 + index) := by
  rw [Placement.entry, Placement.quad, StubTable.start, StubTable.length,
    if_neg (by omega), if_pos (by omega), Nat.add_sub_cancel_left]

/-- The descriptors that `idt_init` sets. -/
theorem descriptorOf_idtInit
    {vector : Nat}
    (set : vector < 47) :
    descriptorOf (idtInit placement memory) vector =
      interruptGate (placement.stubAddress (target vector)) := by
  rw [descriptorOf, idtInit_idtr]
  change placement.descriptor (idtInit placement memory).memory vector = _
  rw [idtInit]
  simp only [descriptor_setFromTable_loop]
  by_cases exception : vector < 32
  · rw [if_neg (by omega), if_pos (by omega), Nat.sub_zero,
      entry_isr placement exception]
  · have line : vector = 32 + (vector - 32) := by
      omega
    rw [if_pos (by omega), entry_irq placement (by omega), ← line, target,
      if_neg (by omega)]

/-- The descriptors behind them are zero. -/
theorem descriptorOf_idtInit_zero
    {vector : Nat}
    (unset : 47 ≤ vector)
    (byte : vector < 256) :
    (descriptorOf (idtInit placement memory) vector).present = false ∧
      (descriptorOf (idtInit placement memory) vector).type = 0 := by
  rw [descriptorOf, idtInit_idtr]
  change
    (placement.descriptor (idtInit placement memory).memory vector).present =
        _ ∧
      (placement.descriptor (idtInit placement memory).memory vector).type = _
  rw [idtInit]
  simp only [descriptor_setFromTable_loop]
  rw [if_neg (by omega), if_neg (by omega)]
  have cleared :
      load
          (memset memory placement.idt 0
            (idtEntrySize * idtMaxDescriptors - 1))
          (placement.idt + 16 * vector + 4) 2 =
        0 := by
    apply load_eq_zero
    intro other lower upper
    apply memset_inside (by omega)
    rw [idtEntrySize, idtMaxDescriptors]
    omega
  simp only [Placement.descriptor, GateDescriptor.read, cleared]
  exact ⟨rfl, rfl⟩

/-- They are not present. -/
theorem descriptorOf_idtInit_cleared
    {vector : Nat}
    (unset : 47 ≤ vector)
    (byte : vector < 256) :
    (descriptorOf (idtInit placement memory) vector).present = false :=
  (descriptorOf_idtInit_zero placement memory unset byte).1

/-- The table entry that is read for a vector. -/
theorem read_idtInit
    (read : TableRead) :
    read ∈ (idtInit placement memory).reads ↔
      (read.vector < 32 ∧ read.table = .isr ∧ read.index = read.vector) ∨
        (32 ≤ read.vector ∧ read.vector < 47 ∧ read.table = .irq ∧
          read.index = read.vector - 32) := by
  obtain ⟨vector, table, index⟩ := read
  simp only [idtInit, reads_setFromTable_loop, TableRead.mk.injEq,
    List.not_mem_nil, or_false]
  constructor
  · rintro (⟨other, inside, rfl, rfl, rfl⟩ | ⟨other, inside, rfl, rfl, rfl⟩)
    · exact .inr ⟨by omega, by omega, rfl, by omega⟩
    · exact .inl ⟨by omega, rfl, by omega⟩
  · rintro (⟨inside, rfl, rfl⟩ | ⟨lower, upper, rfl, rfl⟩)
    · exact .inr ⟨index, inside, by omega, rfl, rfl⟩
    · exact .inl ⟨vector - 32, by omega, by omega, rfl, rfl⟩

/--
After `idt_init` every vector reaches its own stub, and none above 47 is
present, except for the vectors 31 and 47.
-/
theorem reachesItsStub_iff
    (placement : Placement)
    (memory : Memory)
    (vector : Fin 256) :
    ReachesItsStub placement (idtInit placement memory) vector ↔
      vector.val ≠ 31 ∧ vector.val ≠ 47 := by
  have byte := vector.isLt
  unfold ReachesItsStub
  by_cases inside : vector.val < 48
  · rw [if_pos inside]
    constructor
    · rintro ⟨present, -, -, -, reads⟩
      constructor
      · intro last
        have outside := reads ⟨31, .isr, 31⟩
          ((read_idtInit placement memory _).mpr (.inl ⟨by decide, rfl, rfl⟩))
          last.symm
        exact absurd outside (by decide)
      · intro last
        rw [descriptorOf_idtInit_cleared placement memory (by omega) byte]
          at present
        cases present
    · rintro ⟨notLastIsr, notLastIrq⟩
      have own : target vector.val = vector.val := if_neg notLastIsr
      rw [descriptorOf_idtInit placement memory (by omega), own]
      refine ⟨rfl, rfl, rfl, ⟨vector.val, inside, rfl, pushes_own inside⟩, ?_⟩
      intro read member same
      obtain ⟨lower, table, index⟩ | ⟨lower, upper, table, index⟩ :=
        (read_idtInit placement memory read).mp member
      · rw [table, index, StubTable.length]
        omega
      · rw [table, index, StubTable.length]
        omega
  · rw [if_neg inside]
    constructor
    · intro _
      omega
    · intro _
      exact descriptorOf_idtInit_cleared placement memory (by omega) byte

/-- The gate of vector 31 leads to the stub that pushes 32, and to no other. -/
theorem gate_vector31
    (placement : Placement)
    (memory : Memory)
    {routine : Nat}
    (inside : routine < 48)
    (leads :
      (descriptorOf (idtInit placement memory) 31).offset =
        (placement.stubAddress routine).toNat) :
    Pushes routine 32 := by
  rw [descriptorOf_idtInit placement memory (by decide)] at leads
  have same : placement.stubAddress 32 = placement.stubAddress routine :=
    UInt64.toNat_inj.mp leads
  obtain rfl := placement.distinct 32 (by decide) routine inside same
  exact pushes_own (by decide)

/-- Stubs at a stride of 16 bytes from an address on. -/
def examplePlacement : Placement where
  stubAddress := fun vector => 0x10000 + 16 * UInt64.ofNat vector
  distinct := by decide
  behind := fun _ => 0
  idt := 0x20000

/-- Neither vector 31 nor vector 47 reaches its stub. -/
theorem not_reachesItsStub_lastVectors :
    ¬ ReachesItsStub examplePlacement
        (idtInit examplePlacement fun _ => 0) 31 ∧
      ¬ ReachesItsStub examplePlacement
        (idtInit examplePlacement fun _ => 0) 47 := by
  constructor
  · rintro ⟨-, -, -, ⟨routine, inside, leads, pushes⟩, -⟩
    have pushed := gate_vector31 _ _ inside leads
    have first := pushes_unique inside (by decide) pushes
    have second := pushes_unique inside (by decide) pushed
    omega
  · rintro ⟨present, -⟩
    rw [descriptorOf_idtInit_cleared _ _ (by decide) (by decide)] at present
    cases present

end Vectors

end Relics.Interrupt
