import Relics.WordStack

namespace Relics.Interrupt

/-!
# Interrupt delivery and the stubs of `isr.S`

The part of the processor the stubs use: the registers, the stack in memory,
the delivery of an interrupt and the few instructions between delivery and
`iretq`.  The macros and their instantiations are listed as in the source;
`exception_handler` is called between the two halves of `idt_common_stub`.
-/

open ByteMemory WordStack

/-- The general registers other than the stack pointer. -/
inductive Register where
  | rax | rbx | rcx | rdx | rsi | rdi | rbp
  | r8 | r9 | r10 | r11 | r12 | r13 | r14 | r15
  deriving DecidableEq, Repr

/-- The state of the processor. -/
structure Machine where
  registers : Register → UInt64
  rip : UInt64
  cs : UInt16
  rflags : UInt64
  rsp : UInt64
  ss : UInt16
  memory : Memory

/-- The bit of `rflags` that is always set. -/
def flagReserved : UInt64 := 0x2

/-- The interrupt flag. -/
def flagInterrupt : UInt64 := 0x200

/-- The direction flag. -/
def flagDirection : UInt64 := 0x400

/-- The flags an interrupt gate clears: TF, IF, NT, RF and VM. -/
def flagsClearedByGate : UInt64 := 0x34300

/-- An interrupted context: bit 1 of its flags is set. -/
structure Context extends Machine where
  reserved : rflags &&& flagReserved ≠ 0

namespace Machine

/-- Push a word. -/
def push (machine : Machine) (value : UInt64) : Machine :=
  { machine with
    rsp := machine.rsp - 8
    memory := writeWord machine.memory (machine.rsp - 8) value }

/-- The word on top of the stack. -/
def top (machine : Machine) : UInt64 :=
  readWord machine.memory machine.rsp

/-- Drop the word on top of the stack. -/
def drop (machine : Machine) : Machine :=
  { machine with rsp := machine.rsp + 8 }

/-- Set a register. -/
def setRegister
    (machine : Machine)
    (register : Register)
    (value : UInt64) :
    Machine :=
  { machine with
    registers := fun other =>
      if other = register then value else machine.registers other }

end Machine

/-- A gate of the interrupt table: where the processor continues. -/
structure Gate where
  rip : UInt64
  cs : UInt16

/--
What the processor does when it delivers an interrupt through an interrupt
gate: switch to the stack it uses for it, push five words and, if the vector
has one, the error code, and continue at the gate with interrupts disabled.
-/
def deliver
    (machine : Machine)
    (stack : UInt64)
    (gate : Gate)
    (errorCode : Option UInt64) :
    Machine :=
  let entered := { machine with rsp := stack }
  let entered := entered.push machine.ss.toUInt64
  let entered := entered.push machine.rsp
  let entered := entered.push machine.rflags
  let entered := entered.push machine.cs.toUInt64
  let entered := entered.push machine.rip
  let entered :=
    match errorCode with
    | none => entered
    | some code => entered.push code
  { entered with
    rip := gate.rip
    cs := gate.cs
    rflags := machine.rflags &&& ~~~flagsClearedByGate }

/-- The vectors for which the processor pushes an error code. -/
def hasErrorCode (vector : Nat) : Prop :=
  vector = 8 ∨ (10 ≤ vector ∧ vector ≤ 14) ∨ vector = 17 ∨ vector = 21 ∨
    vector = 29 ∨ vector = 30

instance (vector : Nat) : Decidable (hasErrorCode vector) :=
  inferInstanceAs (Decidable (_ ∨ _))

/-- The instructions of `isr.S`. -/
inductive Instruction where
  | push (register : Register)
  | pushImmediate (value : UInt64)
  | pop (register : Register)
  | cld
  | sti
  | movRdiRsp
  | addRsp (bytes : UInt64)
  | iretq
  deriving DecidableEq

/-- What one instruction does. -/
def execute (machine : Machine) : Instruction → Machine
  | .push register =>
      machine.push (machine.registers register)
  | .pushImmediate value =>
      machine.push value
  | .pop register =>
      (machine.drop).setRegister register machine.top
  | .cld =>
      { machine with rflags := machine.rflags &&& ~~~flagDirection }
  | .sti =>
      { machine with rflags := machine.rflags ||| flagInterrupt }
  | .movRdiRsp =>
      machine.setRegister .rdi machine.rsp
  | .addRsp bytes =>
      { machine with rsp := machine.rsp + bytes }
  | .iretq =>
      let rip := machine.top
      let machine := machine.drop
      let cs := machine.top
      let machine := machine.drop
      let rflags := machine.top
      let machine := machine.drop
      let rsp := machine.top
      let machine := machine.drop
      let ss := machine.top
      { machine with
        rip := rip
        cs := cs.toUInt16
        rflags := rflags
        rsp := rsp
        ss := ss.toUInt16 }

/-- What a straight line of instructions does. -/
def run (machine : Machine) (instructions : List Instruction) : Machine :=
  instructions.foldl execute machine

/-- The registers in the order `_pushaq` pushes them. -/
def pushaqOrder : List Register :=
  [.rax, .rbx, .rcx, .rdx, .rsi, .rdi, .rbp,
    .r8, .r9, .r10, .r11, .r12, .r13, .r14, .r15]

/-- `_pushaq` -/
def pushaq : List Instruction :=
  pushaqOrder.map .push

/-- The registers in the order `_popaq` pops them. -/
def popaqOrder : List Register :=
  [.r15, .r14, .r13, .r12, .r11, .r10, .r9, .r8,
    .rbp, .rdi, .rsi, .rdx, .rcx, .rbx, .rax]

/-- `_popaq` -/
def popaq : List Instruction :=
  popaqOrder.map .pop

/-- `isr_err_stub`, up to its jump to `idt_common_stub` -/
def isrErrStub (num : UInt64) : List Instruction :=
  [.pushImmediate num]

/-- `isr_no_err_stub`, up to its jump to `idt_common_stub` -/
def isrNoErrStub (num : UInt64) : List Instruction :=
  [.pushImmediate 0, .pushImmediate num]

/-- `IRQ`, up to its jump to `idt_common_stub` -/
def irq (num2 : UInt64) : List Instruction :=
  [.pushImmediate 0, .pushImmediate num2]

/-- The stubs in the order of the source. -/
def stubs : List (List Instruction) :=
  [ isrNoErrStub 0, isrNoErrStub 1, isrNoErrStub 2, isrNoErrStub 3,
    isrNoErrStub 4, isrNoErrStub 5, isrNoErrStub 6, isrNoErrStub 7,
    isrErrStub 8, isrNoErrStub 9, isrErrStub 10, isrErrStub 11,
    isrErrStub 12, isrErrStub 13, isrErrStub 14, isrNoErrStub 15,
    isrNoErrStub 16, isrErrStub 17, isrNoErrStub 18, isrNoErrStub 19,
    isrNoErrStub 20, isrNoErrStub 21, isrNoErrStub 22, isrNoErrStub 23,
    isrNoErrStub 24, isrNoErrStub 25, isrNoErrStub 26, isrNoErrStub 27,
    isrNoErrStub 28, isrNoErrStub 29, isrErrStub 30, isrNoErrStub 31,
    irq 32, irq 33, irq 34, irq 35, irq 36, irq 37, irq 38, irq 39,
    irq 40, irq 41, irq 42, irq 43, irq 44, irq 45, irq 46, irq 47 ]

/-- The stub of a vector. -/
def stub (vector : Nat) : List Instruction :=
  stubs.getD vector []

/-- `idt_common_stub` up to its call of `exception_handler` -/
def commonStubEntry : List Instruction :=
  [.cld] ++ pushaq ++ [.movRdiRsp]

/-- `idt_common_stub` after its call of `exception_handler` -/
def commonStubExit : List Instruction :=
  popaq ++ [.addRsp 16, .sti, .iretq]

/-- `regs_t` -/
@[ext] structure RegsT where
  r15 : UInt64
  r14 : UInt64
  r13 : UInt64
  r12 : UInt64
  r11 : UInt64
  r10 : UInt64
  r9 : UInt64
  r8 : UInt64
  rbp : UInt64
  rdi : UInt64
  rsi : UInt64
  rdx : UInt64
  rcx : UInt64
  rbx : UInt64
  rax : UInt64
  irq : UInt64
  errorCode : UInt64
  rip : UInt64
  cs : UInt64
  rflags : UInt64
  rsp : UInt64
  ss : UInt64
  deriving DecidableEq, Repr

/-- The packed structure at an address, one word after the other. -/
def RegsT.read (memory : Memory) (r : UInt64) : RegsT where
  r15 := readWord memory r
  r14 := readWord memory (r + 8)
  r13 := readWord memory (r + 16)
  r12 := readWord memory (r + 24)
  r11 := readWord memory (r + 32)
  r10 := readWord memory (r + 40)
  r9 := readWord memory (r + 48)
  r8 := readWord memory (r + 56)
  rbp := readWord memory (r + 64)
  rdi := readWord memory (r + 72)
  rsi := readWord memory (r + 80)
  rdx := readWord memory (r + 88)
  rcx := readWord memory (r + 96)
  rbx := readWord memory (r + 104)
  rax := readWord memory (r + 112)
  irq := readWord memory (r + 120)
  errorCode := readWord memory (r + 128)
  rip := readWord memory (r + 136)
  cs := readWord memory (r + 144)
  rflags := readWord memory (r + 152)
  rsp := readWord memory (r + 160)
  ss := readWord memory (r + 168)

/-- The words of the structure, the first field first. -/
def RegsT.words (r : RegsT) : List UInt64 :=
  [r.r15, r.r14, r.r13, r.r12, r.r11, r.r10, r.r9, r.r8, r.rbp, r.rdi, r.rsi,
    r.rdx, r.rcx, r.rbx, r.rax, r.irq, r.errorCode, r.rip, r.cs, r.rflags,
    r.rsp, r.ss]

/-- The words of a structure stand in memory exactly when it is read there. -/
theorem RegsT.holds_iff_read
    {memory : Memory}
    {address : UInt64}
    {r : RegsT} :
    Holds memory address r.words ↔ RegsT.read memory address = r := by
  simp only [Holds, RegsT.words, RegsT.ext_iff, RegsT.read,
    UInt64.add_assoc, UInt64.reduceAdd, and_true]

end Relics.Interrupt
