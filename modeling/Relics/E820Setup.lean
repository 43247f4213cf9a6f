import Relics.E820Map

namespace Relics.E820

/-!
# Collecting the memory map in real mode

`e820_setup` calls the firmware once for each entry of the memory map, counts
the entries in `si` and advances the buffer in `di`.  `get_mem_map` reads the
count and the entries back when the kernel runs.  The 16-bit code shares the
32-bit registers with the firmware: a store to `bx` or `bh` keeps the rest of
`ebx`.
-/

open ByteMemory

/-- `SMAP_SIGNATURE` -/
def smapSignature : BitVec 32 := 0x534D4150

/-- `SMAP_ADDRESS` and `E820_MAP_ADDR` -/
def smapAddress : Nat := 0x700

/-- `SMAP_SIZE` -/
def smapSize : BitVec 16 := 20

/-- `SMAP_COUNT_ADDRESS` and `E820_COUNT_ADDR` -/
def smapCountAddress : Nat := 0x6f0

/-- The low 16 bits of a register, such as `bx` of `ebx`. -/
def low (register : BitVec 32) : BitVec 16 :=
  register.extractLsb' 0 16

/-- Bits 8 to 15 of a register, such as `bh` of `ebx`. -/
def high (register : BitVec 32) : BitVec 8 :=
  register.extractLsb' 8 8

/-- A register with its low 16 bits replaced. -/
def setLow (register : BitVec 32) (value : BitVec 16) : BitVec 32 :=
  register.extractLsb' 16 16 ++ value

/-- A register with its bits 8 to 15 replaced. -/
def setHigh (register : BitVec 32) (value : BitVec 8) : BitVec 32 :=
  register.extractLsb' 16 16 ++ value ++ register.extractLsb' 0 8

/-- A register with its low 8 bits replaced. -/
def setByte (register : BitVec 32) (value : BitVec 8) : BitVec 32 :=
  register.extractLsb' 8 24 ++ value

/-- The registers `e820_setup` uses, and memory. -/
structure Machine where
  eax : BitVec 32
  ebx : BitVec 32
  ecx : BitVec 32
  edx : BitVec 32
  esi : BitVec 32
  edi : BitVec 32
  ds : BitVec 16
  es : BitVec 16
  carry : Bool
  memory : Memory

/-- What the firmware returns for one call of `int 0x15`. -/
structure Reply where
  entry : E820Map64
  continuation : BitVec 32
  eax : BitVec 32
  cx : BitVec 16
  carry : Bool

/-- The firmware: its reply to the n-th call, made with a value in `ebx`. -/
abbrev Firmware := Nat → BitVec 32 → Reply

/-- The linear address of an offset in a segment. -/
def linear (segment offset : BitVec 16) : Nat :=
  16 * segment.toNat + offset.toNat

/-- `int 0x15`: the entry is written at `es:di` -/
def int15 (firmware : Firmware) (call : Nat) (machine : Machine) : Machine :=
  let reply := firmware call machine.ebx
  { machine with
    eax := reply.eax
    ebx := reply.continuation
    ecx := setLow machine.ecx reply.cx
    carry := reply.carry
    memory :=
      reply.entry.write machine.memory
        (linear machine.es (low machine.edi)) }

/-- The macro `print_char`; `int 0x10` keeps every register -/
def printChar (machine : Machine) (char : BitVec 8) : Machine :=
  let machine := { machine with eax := 0xb8000 }
  let machine := { machine with eax := setHigh machine.eax 0x0e }
  let machine := { machine with ebx := setHigh machine.ebx 0 }
  { machine with eax := setByte machine.eax char }

/-- How `e820_setup` ends, if it does. -/
inductive Result where
  | continues (machine : Machine)
  | errorSig
  | errorSize
  | running

/-- `out`: the count is stored and the boot code continues -/
def out (machine : Machine) : Result :=
  .continues
    { machine with
      memory :=
        store machine.memory (16 * machine.ds.toNat + smapCountAddress) 2
          (low machine.esi).toNat }

/-- `loop`, with a bound on its rounds; `call` counts the calls so far -/
def setupLoop
    (firmware : Firmware) :
    (fuel call : Nat) →
    Machine →
    Result
  | 0, _, _ => .running
  | fuel + 1, call, machine =>
      let machine := { machine with eax := setLow machine.eax 0xE820 }
      let machine := { machine with ecx := setLow machine.ecx smapSize }
      let machine := { machine with edx := smapSignature }
      let machine := int15 firmware call machine
      if machine.carry then
        out machine
      else if machine.eax ≠ smapSignature then
        .errorSig
      else if (low machine.ecx).slt smapSize then
        .errorSize
      else
        let machine :=
          { machine with
            esi := setLow machine.esi (low machine.esi + 1) }
        if low machine.ebx = 0 then
          out machine
        else
          let machine :=
            { machine with
              edi :=
                setLow machine.edi
                  (low machine.edi + low machine.ecx) }
          setupLoop firmware fuel (call + 1) (printChar machine 0x3e)

/-- `e820_setup` -/
def e820Setup (firmware : Firmware) (fuel : Nat) (machine : Machine) : Result :=
  let machine := { machine with ebx := setLow machine.ebx 0 }
  let machine := { machine with es := low machine.ebx }
  let machine :=
    { machine with edi := setLow machine.edi (BitVec.ofNat 16 smapAddress) }
  let machine := { machine with carry := false }
  let machine := { machine with esi := setLow machine.esi 0 }
  setupLoop firmware fuel 0 machine

/-- `get_mem_map`: the entries it hands to `pmem_map`, unless it panics -/
def getMemMap (memory : Memory) : Option (List E820Map64) :=
  let e820EntryCount := load memory smapCountAddress 4
  if e820EntryCount > e820MaxEntries then
    none
  else
    some ((List.range e820EntryCount).map fun i =>
      E820Map64.read memory (smapAddress + e820EntrySize * i))

section Registers

variable
    {register : BitVec 32}

theorem low_setLow (value : BitVec 16) :
    low (setLow register value) = value :=
  BitVec.extractLsb'_append_eq_right

/-- The bits of a register whose bits 8 to 15 have been cleared. -/
theorem getLsbD_setHigh_zero (bit : Nat) :
    (setHigh register 0).getLsbD bit =
      (register.getLsbD bit && !decide (8 ≤ bit ∧ bit < 16)) := by
  simp only [setHigh, BitVec.getLsbD_append, BitVec.getLsbD_extractLsb']
  by_cases below : bit < 8
  · simp [below, Nat.not_le.mpr below]
  · by_cases inside : bit < 16
    · have between : bit - 8 < 8 := by omega
      simp [below, between, inside, Nat.not_lt.mp below]
    · have above : ¬bit - 8 < 8 := by omega
      have same : 16 + (bit - 8 - 8) = bit := by omega
      simp only [below, above, inside, same, ↓reduceIte, and_false,
        decide_false, Bool.not_false, Bool.and_true]
      by_cases beyond : bit < 32
      · simp
        omega
      · simp [BitVec.getLsbD_of_ge register bit (by omega)]

/-- Clearing bits 8 to 15 keeps a register only if they are 0. -/
theorem setHigh_zero_eq_self :
    setHigh register 0 = register ↔ high register = 0 := by
  constructor
  · intro same
    apply BitVec.eq_of_getLsbD_eq
    intro bit inside
    rw [← same]
    simp only [high, BitVec.getLsbD_extractLsb', getLsbD_setHigh_zero]
    have between : 8 ≤ 8 + bit ∧ 8 + bit < 16 := by omega
    simp [between]
  · intro clear
    apply BitVec.eq_of_getLsbD_eq
    intro bit _
    rw [getLsbD_setHigh_zero]
    by_cases between : 8 ≤ bit ∧ bit < 16
    · have cleared : (high register).getLsbD (bit - 8) = false := by
        rw [clear]
        exact BitVec.getLsbD_zero
      have inside : bit - 8 < 8 := by omega
      have position : 8 + (bit - 8) = bit := by omega
      rw [high, BitVec.getLsbD_extractLsb', position] at cleared
      simp [inside] at cleared
      simp [cleared]
    · simp [between]

end Registers

end Relics.E820
