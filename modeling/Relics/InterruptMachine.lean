import Relics.InterruptDispatch
import Relics.InterruptFrame
import Relics.InterruptGates
import Relics.MachineWord
import Relics.PicMasks

namespace Relics.Interrupt

/-!
# A program and the interrupts between its instructions

Between two instructions the processor may take a line.  It looks the vector
up in the table in memory, pushes the frame to the stack that the program
uses, and runs the stub, `exception_handler` and the rest of
`idt_common_stub` with interrupts disabled.  The words go below the stack
pointer, and what stands above it is as it was when the program goes on.
-/

open ByteMemory LabelledRun Pic WordStack

section Definitions

/-- What the linker places, and how far the code of the handlers reaches. -/
structure Layout extends Placement where
  /-- the addresses of the data that the handlers write -/
  data : Nat → Prop
  /-- the bytes of stack that `exception_handler` and its callees use -/
  depth : Nat

/-- An address is inside `idt`. -/
def Layout.InTable (layout : Layout) (address : Nat) : Prop :=
  layout.idt ≤ address ∧
    address < layout.idt + idtEntrySize * idtMaxDescriptors

/-- The bytes below a stack pointer that an interrupt may write -/
def Layout.Below
    (layout : Layout)
    (rsp : UInt64)
    (address : Nat) :
    Prop :=
  rsp.toNat - (192 + layout.depth) ≤ address ∧ address < rsp.toNat

/-- The stack has room for an interrupt, and the table is as it was built. -/
structure Layout.Suits
    (layout : Layout)
    (memory : Memory)
    (context : Context) :
    Prop where
  room : 192 + layout.depth ≤ context.rsp.toNat
  stackApart :
    ∀ address,
      layout.Below context.rsp address →
      ¬layout.data address ∧ ¬layout.InTable address
  dataApart : ∀ address, layout.data address → ¬layout.InTable address
  table :
    ∀ address,
      layout.InTable address →
      context.memory address =
        (idtInit layout.toPlacement memory).memory address

/-- The kernel: a program in a context, and what the handlers work on. -/
structure Computer where
  context : Context
  idtr : Idtr
  system : System KernelWorld

/-- What the program reads and writes -/
structure View where
  context : Context
  world : KernelWorld

namespace Computer

/-- The program's view of the kernel -/
def view (computer : Computer) : View where
  context := computer.context
  world := computer.system.world

end Computer

/-- An instruction of the program, or a line with the byte at port 0x60. -/
inductive ProgramEvent where
  | instruction
  | interrupt (line : Fin 16) (dataPort : UInt8)

/-- Code that keeps room on its stack and leaves the table alone. -/
structure Program (layout : Layout) (memory : Memory) where
  step : View → Option View
  keeps :
    ∀ {view next},
      layout.Suits memory view.context →
      step view = some next →
      layout.Suits memory next.context

/-- The stack pointer is aligned to 16 bytes before the frame is pushed. -/
def alignStack (rsp : UInt64) : UInt64 :=
  rsp &&& ~~~0xF

/-- The descriptor of a vector in the table of a register. -/
def gateAt (memory : Memory) (idtr : Idtr) (vector : Nat) : GateDescriptor :=
  .read memory (idtr.base + 16 * vector)

/--
The vector through which a hardware interrupt enters, with an error code: its
own, or that of the protection or presence fault that its descriptor causes
-/
def entryOf
    (memory : Memory)
    (idtr : Idtr)
    (vector : Nat) :
    Nat × UInt64 :=
  let code := UInt64.ofNat (8 * vector + 3)
  if idtr.limit < 16 * vector + 15 then
    (13, code)
  else if (gateAt memory idtr vector).type ≠ interruptGateType then
    (13, code)
  else if (gateAt memory idtr vector).present = false then
    (11, code)
  else
    (vector, 0)

/-- The call of `exception_handler` from a stub that a gate leads to -/
def callThrough
    (context : Context)
    (gate : GateDescriptor)
    (entry : Nat × UInt64)
    (routine : Nat) :
    Machine :=
  run
    (deliver context.toMachine (alignStack context.rsp)
      { rip := UInt64.ofNat gate.offset
        cs := UInt16.ofNat gate.selector }
      (pushedCode entry.1 entry.2))
    (stub routine ++ commonStubEntry)

/-- An entry leads to a stub, which calls `exception_handler`. -/
structure Enters
    (layout : Layout)
    (context : Context)
    (idtr : Idtr)
    (entry : Nat × UInt64)
    (routine : Nat)
    (called : Machine) :
    Prop where
  inside : routine < 48
  present : (gateAt context.memory idtr entry.1).present = true
  isGate : (gateAt context.memory idtr entry.1).type = interruptGateType
  leads :
    (gateAt context.memory idtr entry.1).offset =
      (layout.stubAddress routine).toNat
  calls :
    called =
      callThrough context (gateAt context.memory idtr entry.1) entry routine

/-- A line is taken, and `exception_handler` is called. -/
structure Takes
    (layout : Layout)
    (computer : Computer)
    (line : Fin 16)
    (called : Machine) :
    Prop where
  enabled : computer.context.rflags &&& flagInterrupt ≠ 0
  letsThrough : computer.system.chips.LetsThrough line
  entered :
    ∃ routine,
      Enters layout computer.context computer.idtr
        (entryOf computer.context.memory computer.idtr
          (computer.system.chips.vector line).toNat)
        routine called

/-- `exception_handler` as it is called for a line -/
def handle
    (irqHandlers : HandlerTable KernelWorld)
    (computer : Computer)
    (line : Fin 16)
    (dataPort : UInt8)
    (called : Machine)
    (fuel : Nat) :
    Outcome (System KernelWorld) :=
  exceptionHandler irqHandlers fuel
    (RegsT.read called.memory (called.registers .rdi))
    { chips := computer.system.chips.deliver line
      world := { computer.system.world with dataPort := dataPort } }

/--
A call returned with its stack pointer and wrote only the data of the
handlers and the stack below the frame.
-/
structure Returned
    (layout : Layout)
    (called returned : Machine) :
    Prop where
  rsp : returned.rsp = called.rsp
  memory :
    ∀ address,
      ¬layout.data address →
      ¬(called.rsp.toNat - layout.depth ≤ address ∧
        address < called.rsp.toNat) →
      returned.memory address = called.memory address

/-- The kernel runs an instruction, or takes a line and comes back from it. -/
inductive MachineStep
    {layout : Layout}
    {memory : Memory}
    (irqHandlers : HandlerTable KernelWorld)
    (program : Program layout memory) :
    Computer → ProgramEvent → Computer → Prop where
  | instruction
      {computer : Computer}
      {next : View}
      (stepped : program.step computer.view = some next) :
      MachineStep irqHandlers program computer .instruction
        { computer with
          context := next.context
          system := { computer.system with world := next.world } }
  | interrupt
      {computer : Computer}
      {line : Fin 16}
      {dataPort : UInt8}
      {called returned : Machine}
      {fuel : Nat}
      {system : System KernelWorld}
      {next : Context}
      (takes : Takes layout computer line called)
      (handled :
        handle irqHandlers computer line dataPort called fuel =
          .returned system)
      (comesBack : Returned layout called returned)
      (left : next.toMachine = run returned commonStubExit) :
      MachineStep irqHandlers program computer (.interrupt line dataPort)
        { computer with
          context := next
          system := system }

end Definitions

section Stack

variable
    {machine middle next : Machine}
    {words more : Nat}

/-- Words have been pushed, and no other byte is written. -/
structure Deepened (words : Nat) (machine next : Machine) : Prop where
  rsp : next.rsp.toNat + 8 * words = machine.rsp.toNat
  memory :
    ∀ address,
      address < next.rsp.toNat ∨ machine.rsp.toNat ≤ address →
      next.memory address = machine.memory address

namespace Deepened

theorem refl : Deepened 0 machine machine :=
  ⟨rfl, fun _ _ => rfl⟩

theorem trans
    (first : Deepened words machine middle)
    (second : Deepened more middle next) :
    Deepened (words + more) machine next := by
  have upper := first.rsp
  have lower := second.rsp
  refine ⟨by omega, ?_⟩
  intro address outside
  rw [second.memory address (by omega), first.memory address (by omega)]

theorem push
    (value : UInt64)
    (room : 8 ≤ machine.rsp.toNat) :
    Deepened 1 machine (machine.push value) := by
  have lowered : (machine.rsp - 8).toNat = machine.rsp.toNat - 8 := by
    apply UInt64.toNat_sub_of_le
    exact UInt64.le_iff_toNat_le.mpr room
  refine ⟨?_, ?_⟩
  · change (machine.rsp - 8).toNat + 8 * 1 = machine.rsp.toNat
    omega
  · intro address outside
    change address < (machine.rsp - 8).toNat ∨ _ at outside
    exact store_outside (by omega)

end Deepened

/-- The words that an instruction pushes -/
def Instruction.pushed : Instruction → Nat
  | push _ => 1
  | pushImmediate _ => 1
  | _ => 0

/-- The instructions before the call of `exception_handler` -/
def Instruction.IsEntry : Instruction → Prop
  | push _ => True
  | pushImmediate _ => True
  | cld => True
  | movRdiRsp => True
  | _ => False

instance (instruction : Instruction) : Decidable instruction.IsEntry := by
  cases instruction <;> unfold Instruction.IsEntry <;> infer_instance

theorem deepened_execute
    {instruction : Instruction}
    (isEntry : instruction.IsEntry)
    (room : 8 * instruction.pushed ≤ machine.rsp.toNat) :
    Deepened instruction.pushed machine (execute machine instruction) := by
  cases instruction with
  | push register =>
      exact .push _ room
  | pushImmediate value =>
      exact .push value room
  | cld =>
      exact ⟨rfl, fun _ _ => rfl⟩
  | movRdiRsp =>
      exact ⟨rfl, fun _ _ => rfl⟩
  | pop register =>
      cases isEntry
  | sti =>
      cases isEntry
  | addRsp bytes =>
      cases isEntry
  | iretq =>
      cases isEntry

/-- The entry of a handler deepens the stack by the words it pushes. -/
theorem deepened_run
    {instructions : List Instruction}
    (isEntry : ∀ instruction ∈ instructions, instruction.IsEntry)
    (room :
      8 * (instructions.map Instruction.pushed).sum ≤ machine.rsp.toNat) :
    Deepened (instructions.map Instruction.pushed).sum machine
      (run machine instructions) := by
  induction instructions generalizing machine with
  | nil =>
      exact .refl
  | cons instruction later inductionHypothesis =>
      obtain ⟨first, others⟩ := List.forall_mem_cons.mp isEntry
      rw [List.map_cons, List.sum_cons] at room ⊢
      have executed :
          Deepened instruction.pushed machine (execute machine instruction) :=
        deepened_execute first (by omega)
      have moved := executed.rsp
      exact executed.trans (inductionHypothesis others (by omega))

/-- The processor pushes five words for a hardware interrupt. -/
theorem deepened_deliver
    (stack : UInt64)
    (gate : Gate)
    (room : 40 ≤ stack.toNat) :
    Deepened 5 { machine with rsp := stack }
      (deliver machine stack gate none) := by
  let entered : Machine := { machine with rsp := stack }
  have first : Deepened 1 entered (entered.push machine.ss.toUInt64) :=
    .push _ (by change 8 ≤ stack.toNat; omega)
  have deeper
      {words : Nat}
      {reached : Machine}
      (deepened : Deepened words entered reached)
      (few : words < 5)
      (value : UInt64) :
      Deepened (words + 1) entered (reached.push value) := by
    have moved : reached.rsp.toNat + 8 * words = stack.toNat := deepened.rsp
    exact deepened.trans (.push value (by omega))
  have second := deeper first (by decide) machine.rsp
  have third := deeper second (by decide) machine.rflags
  have fourth := deeper third (by decide) machine.cs.toUInt64
  have fifth := deeper fourth (by decide) machine.rip
  exact ⟨fifth.rsp, fifth.memory⟩

/-- The instructions behind the call of `exception_handler` write nothing. -/
theorem memory_commonStubExit (machine : Machine) :
    (run machine commonStubExit).memory = machine.memory :=
  rfl

end Stack

section Words

theorem toNat_alignStack (rsp : UInt64) :
    (alignStack rsp).toNat = 16 * (rsp.toNat / 16) := by
  have masked :=
    MachineWord.and_not64_lowOnes 4 rsp.toNat_lt (by decide)
  rw [alignStack, UInt64.toNat_and]
  exact masked

end Words

section Calls

variable {layout : Layout}
variable {memory : Memory}
variable {context next : Context}
variable {gate : GateDescriptor}
variable {routine : Nat}
variable {returned : Machine}

/-- The vectors of the lines have no error code. -/
theorem pushedCode_line
    (lower : 32 ≤ routine)
    (upper : routine < 48) :
    pushedCode routine 0 = none := by
  have every : ∀ routine < 48, 32 ≤ routine → pushedCode routine 0 = none := by
    decide
  exact every routine upper lower

/-- The stub of a line and `idt_common_stub` push 17 words. -/
theorem pushed_stub
    (lower : 32 ≤ routine)
    (upper : routine < 48) :
    (∀ instruction ∈ stub routine ++ commonStubEntry, instruction.IsEntry) ∧
      ((stub routine ++ commonStubEntry).map Instruction.pushed).sum = 17 := by
  have every :
      ∀ routine < 48,
        32 ≤ routine →
        (∀ instruction ∈ stub routine ++ commonStubEntry,
            instruction.IsEntry) ∧
          ((stub routine ++ commonStubEntry).map Instruction.pushed).sum =
            17 := by
    decide
  exact every routine upper lower

/-- The frame of a line is 22 words below the aligned stack pointer. -/
theorem deepened_callThrough
    (context : Context)
    (gate : GateDescriptor)
    (lower : 32 ≤ routine)
    (upper : routine < 48)
    (room : 192 ≤ context.rsp.toNat) :
    Deepened 22
      { context.toMachine with rsp := alignStack context.rsp }
      (callThrough context gate (routine, 0) routine) := by
  have aligned := toNat_alignStack context.rsp
  obtain ⟨isEntry, count⟩ := pushed_stub lower upper
  let through : Gate :=
    { rip := UInt64.ofNat gate.offset
      cs := UInt16.ofNat gate.selector }
  have delivered :
      Deepened 5 { context.toMachine with rsp := alignStack context.rsp }
        (deliver context.toMachine (alignStack context.rsp) through none) :=
    deepened_deliver _ through (by omega)
  have moved := delivered.rsp
  change _ = (alignStack context.rsp).toNat at moved
  rw [callThrough, pushedCode_line lower upper]
  have entered :
      Deepened ((stub routine ++ commonStubEntry).map Instruction.pushed).sum
        (deliver context.toMachine (alignStack context.rsp) through none)
        (run (deliver context.toMachine (alignStack context.rsp) through none)
          (stub routine ++ commonStubEntry)) :=
    deepened_run isEntry (by rw [count]; omega)
  rw [count] at entered
  exact delivered.trans entered

/-- The frame on the stack when `exception_handler` is called with it -/
theorem holds_callThrough
    (context : Context)
    (gate : GateDescriptor)
    (entry : Nat × UInt64)
    (inside : entry.1 < 48)
    (framed : entry.1 ≠ 21 ∧ entry.1 ≠ 29) :
    Holds (callThrough context gate entry entry.1).memory
        (callThrough context gate entry entry.1).rsp
        (expectedFrame context entry.1 entry.2).words ∧
      RegsT.read (callThrough context gate entry entry.1).memory
          ((callThrough context gate entry entry.1).registers .rdi) =
        expectedFrame context entry.1 entry.2 := by
  let entered : Gate :=
    { rip := UInt64.ofNat gate.offset
      cs := UInt16.ofNat gate.selector }
  have received :=
    frame_atHandler context (alignStack context.rsp) entered entry.2 inside
      framed
  have argument :=
    (holding_atHandler context (alignStack context.rsp) entered entry.2
      inside).2
  refine ⟨RegsT.holds_iff_read.mpr ?_, received⟩
  rw [argument] at received
  exact received

/-- The program goes on as it was, but for bytes that an interrupt may write. -/
structure Undisturbed
    (layout : Layout)
    (context next : Context) :
    Prop where
  resumed : Resumed next.toMachine context
  memory :
    ∀ address,
      ¬layout.data address →
      ¬layout.Below context.rsp address →
      next.memory address = context.memory address

/-- A line whose handler comes back leaves the program undisturbed. -/
theorem undisturbed_of_return
    (suits : layout.Suits memory context)
    (lower : 32 ≤ routine)
    (upper : routine < 48)
    (comesBack :
      Returned layout (callThrough context gate (routine, 0) routine)
        returned)
    (left : next.toMachine = run returned commonStubExit) :
    Undisturbed layout context next := by
  have room := suits.room
  have aligned := toNat_alignStack context.rsp
  have deepened :=
    deepened_callThrough context gate lower upper (by omega)
  have moved :
      (callThrough context gate (routine, 0) routine).rsp.toNat + 8 * 22 =
        (alignStack context.rsp).toNat :=
    deepened.rsp
  have held :
      Holds (callThrough context gate (routine, 0) routine).memory
        (callThrough context gate (routine, 0) routine).rsp
        (expectedFrame context routine 0).words :=
    (holds_callThrough context gate (routine, 0) upper
      ⟨by omega, by omega⟩).1
  have kept :
      Holds returned.memory returned.rsp
        (expectedFrame context routine 0).words := by
    rw [comesBack.rsp]
    refine held.congr ?_ ?_
    · intro address inFrame inWords
      change _ < _ + 8 * 22 at inWords
      symm
      apply comesBack.memory address
      · exact (suits.stackApart address ⟨by omega, by omega⟩).1
      · omega
    · change _ + 8 * 22 < 2 ^ 64
      have bounded := context.rsp.toNat_lt
      omega
  have resumed := resumed_of_frame (RegsT.holds_iff_read.mp kept)
  rw [← left] at resumed
  refine ⟨resumed, ?_⟩
  intro address noData above
  have outside :
      ¬((callThrough context gate (routine, 0) routine).rsp.toNat -
            layout.depth ≤ address ∧
          address < (alignStack context.rsp).toNat) := by
    intro inside
    exact above ⟨by omega, by omega⟩
  rw [left, memory_commonStubExit, comesBack.memory address noData
    (by omega)]
  exact deepened.memory address (by change _ ∨ (alignStack _).toNat ≤ _; omega)

/-- An undisturbed program still has room and the table. -/
theorem Undisturbed.suits
    (undisturbed : Undisturbed layout context next)
    (suits : layout.Suits memory context) :
    layout.Suits memory next := by
  have same := undisturbed.resumed.rsp
  refine ⟨?_, ?_, suits.dataApart, ?_⟩
  · rw [same]
    exact suits.room
  · rw [same]
    exact suits.stackApart
  · intro address inTable
    rw [undisturbed.memory address]
    · exact suits.table address inTable
    · intro isData
      exact suits.dataApart address isData inTable
    · intro below
      exact (suits.stackApart address below).2 inTable

end Calls

end Relics.Interrupt
