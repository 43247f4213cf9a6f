import Relics.InterruptMachine
import Relics.PitSleep

namespace Relics.Interrupt

/-!
# Interrupts are atomic calls of their drivers

For the program that it interrupts, a line with a driver is one call of the
driver between two of its instructions, whatever the instructions are.  The
registers and the bytes above the stack pointer stay as they are.  Of the
other lines the program never hears again: line 15 has no gate and ends in a
protection fault, and the handler of the rest never returns.
-/

open ByteMemory LabelledRun Pic

section Table

variable {layout : Layout}
variable {memory : Memory}
variable {context : Context}
variable {vector : Nat}

/-- The processor finds the descriptors that `idt_init` built. -/
theorem gateAt_eq
    (suits : layout.Suits memory context)
    (byte : vector < 256) :
    gateAt context.memory (idtInit layout.toPlacement memory).idtr vector =
      descriptorOf (idtInit layout.toPlacement memory) vector := by
  apply GateDescriptor.read_congr
  rw [idtInit_idtr]
  intro address lower upper
  apply suits.table
  rw [Layout.InTable, idtEntrySize, idtMaxDescriptors]
  change layout.idt + 16 * vector ≤ address at lower
  change address < layout.idt + 16 * vector + 12 at upper
  omega

/-- A vector with its own gate is entered through it. -/
theorem gateAt_own
    (suits : layout.Suits memory context)
    (set : vector < 47)
    (own : vector ≠ 31) :
    gateAt context.memory (idtInit layout.toPlacement memory).idtr vector =
      interruptGate (layout.stubAddress vector) := by
  rw [gateAt_eq suits (by omega), descriptorOf_idtInit _ _ set, target,
    if_neg own]

theorem entryOf_own
    (suits : layout.Suits memory context)
    (set : vector < 47)
    (own : vector ≠ 31) :
    entryOf context.memory (idtInit layout.toPlacement memory).idtr vector =
      (vector, 0) := by
  have limit :
      ¬(idtInit layout.toPlacement memory).idtr.limit < 16 * vector + 15 := by
    rw [idtInit_idtr]
    change ¬4095 < _
    omega
  rw [entryOf, gateAt_own suits set own, if_neg limit]
  rfl

/-- The vector of line 15 has no gate, which is a protection fault. -/
theorem entryOf_last
    (suits : layout.Suits memory context) :
    entryOf context.memory (idtInit layout.toPlacement memory).idtr 47 =
      (13, 379) := by
  have zero :=
    (descriptorOf_idtInit_zero layout.toPlacement memory
      (Nat.le_refl 47) (by decide)).2
  have noGate :
      (gateAt context.memory (idtInit layout.toPlacement memory).idtr
        47).type ≠ interruptGateType := by
    rw [gateAt_eq suits (by decide), zero]
    decide
  rw [entryOf, if_pos noGate, idtInit_idtr]
  rfl

end Table

section Dispatch

variable {irqHandlers : HandlerTable KernelWorld}
variable {line : Fin 16}
variable {r : RegsT}
variable {world : KernelWorld}

/-- The lines that have a driver -/
def Driven (line : Fin 16) : Prop :=
  line.val = 0 ∨ line.val = 1 ∨ line.val = 7

instance (line : Fin 16) : Decidable (Driven line) :=
  inferInstanceAs (Decidable (_ ∨ _))

/-- The acknowledgement of a driven line leaves nothing in service. -/
theorem picAcknowledge_driven (driven : Driven line) :
    picAcknowledge (enabledChips.deliver line)
        (if line = 7 then 0x20 else (lineVector line).toUInt8) =
      enabledChips := by
  revert line
  decide

/-- The driver of a line runs once and the line is acknowledged. -/
theorem exceptionHandler_driven
    (isLine : r.irq = lineVector line)
    (driven : Driven line)
    (fuel : Nat) :
    exceptionHandler (fillIrqTable irqHandlers) (fuel + 1) r
        { chips := enabledChips.deliver line, world := world } =
      .returned
        { chips := enabledChips, world := Pit.serviced line r world } := by
  obtain ⟨inRange, early, index⟩ := lineVector_spec line
  rw [← isLine] at inRange early index
  have acknowledged := picAcknowledge_driven driven
  by_cases spurious : line = 7
  · rw [if_pos spurious] at acknowledged
    rw [exceptionHandler, if_pos (early.mpr (.inl spurious)),
      System.acknowledge, acknowledged, spurious]
    rfl
  · have driver : line = 0 ∨ line = 1 := by
      rcases driven with first | second | third
      · exact .inl (Fin.ext first)
      · exact .inr (Fin.ext second)
      · exact absurd (Fin.ext third) spurious
    have dispatched : ¬AcknowledgedEarly r.irq := by
      rw [early]
      rcases driver with rfl | rfl
      · decide
      · decide
    have handler :
        fillIrqTable irqHandlers (r.irq - 32).toNat =
          some (.external (Pit.serviced line)) := by
      rw [index]
      rcases driver with rfl | rfl
      · rfl
      · rfl
    rw [exceptionHandler_of_driver fuel inRange dispatched handler,
      System.acknowledge, isLine]
    rw [if_neg spurious] at acknowledged
    simp only [acknowledged]

/-- The handler of a line that is neither driven nor the last never ends. -/
theorem exceptionHandler_undriven
    (isLine : r.irq = lineVector line)
    (undriven : ¬Driven line)
    (notLast : line.val ≠ 15)
    (system : System KernelWorld)
    (fuel : Nat) :
    exceptionHandler (fillIrqTable irqHandlers) fuel r system =
      .running := by
  obtain ⟨inRange, early, index⟩ := lineVector_spec line
  rw [← isLine] at inRange early index
  have others : line ≠ 0 ∧ line ≠ 1 ∧ line ≠ 7 := by
    refine ⟨?_, ?_, ?_⟩
    all_goals
      rintro rfl
      exact undriven (by decide)
  apply running_of_self inRange
  · rw [early, not_or]
    exact ⟨others.2.2, fun last => notLast (congrArg Fin.val last)⟩
  · rw [index]
    exact (fillIrqTable_eq_self_iff irqHandlers line).mpr others

end Dispatch

/-- The kernel once `idt_init` and `enable_interrupts` have run -/
structure Ready
    (layout : Layout)
    (memory : Memory)
    (computer : Computer) :
    Prop where
  idtr : computer.idtr = (idtInit layout.toPlacement memory).idtr
  chips : computer.system.chips = enabledChips
  suits : layout.Suits memory computer.context

/--
A program on volatile memory: between its instructions a driver is called,
and bytes below the stack pointer and the data of the handlers change.
-/
inductive Interleaved
    {layout : Layout}
    {memory : Memory}
    (program : Program layout memory) :
    View → ProgramEvent → View → Prop where
  | instruction
      {view next : View}
      (stepped : program.step view = some next) :
      Interleaved program view .instruction next
  | interrupt
      {view : View}
      {line : Fin 16}
      {dataPort : UInt8}
      {next : Context}
      (enabled : view.context.rflags &&& flagInterrupt ≠ 0)
      (driven : Driven line)
      (undisturbed : Undisturbed layout view.context next) :
      Interleaved program view (.interrupt line dataPort)
        { context := next
          world :=
            Pit.serviced line (expectedFrame view.context (32 + line.val) 0)
              { view.world with dataPort := dataPort } }

section Lines

variable {layout : Layout}
variable {memory : Memory}
variable {irqHandlers : HandlerTable KernelWorld}
variable {program : Program layout memory}
variable {computer next : Computer}
variable {line : Fin 16}
variable {dataPort : UInt8}
variable {called : Machine}

theorem toNat_vector (line : Fin 16) :
    (enabledChips.vector line).toNat = 32 + line.val := by
  revert line
  decide

theorem letsThrough_enabled (line : Fin 16) :
    enabledChips.LetsThrough line := by
  constructor
  · revert line
    decide
  · intro _
    decide

/-- How a line enters: the last one as a protection fault -/
def lineEntry (line : Fin 16) : Nat × UInt64 :=
  if line.val = 15 then (13, 379) else (32 + line.val, 0)

/-- An entry below the unset gates leads to its own stub. -/
theorem lineEntry_spec (line : Fin 16) :
    (lineEntry line).1 < 47 ∧ (lineEntry line).1 ≠ 31 ∧
      (lineEntry line).1 ≠ 21 ∧ (lineEntry line).1 ≠ 29 := by
  revert line
  decide

/-- The entry of each line in the table that `idt_init` built -/
theorem Ready.entryOf_vector
    (ready : Ready layout memory computer)
    (line : Fin 16) :
    entryOf computer.context.memory computer.idtr
        (computer.system.chips.vector line).toNat =
      lineEntry line := by
  rw [ready.chips, toNat_vector, ready.idtr, lineEntry]
  by_cases last : line.val = 15
  · rw [if_pos last, last]
    exact entryOf_last ready.suits
  · rw [if_neg last]
    exact entryOf_own ready.suits (by omega) (by omega)

/-- The one call of `exception_handler` that a line leads to -/
theorem Ready.takes_iff
    (ready : Ready layout memory computer)
    (enabled : computer.context.rflags &&& flagInterrupt ≠ 0) :
    Takes layout computer line called ↔
      called =
        callThrough computer.context
          (interruptGate (layout.stubAddress (lineEntry line).1))
          (lineEntry line) (lineEntry line).1 := by
  obtain ⟨set, own, -, -⟩ := lineEntry_spec line
  have entry := ready.entryOf_vector line
  have gate := gateAt_own ready.suits set own
  rw [← ready.idtr] at gate
  constructor
  · intro takes
    obtain ⟨routine, entered⟩ := takes.entered
    rw [entry] at entered
    obtain ⟨inside, -, -, leads, calls⟩ := entered
    rw [gate] at leads calls
    have same :
        layout.stubAddress (lineEntry line).1 =
          layout.stubAddress routine :=
      UInt64.toNat_inj.mp leads
    rw [calls, ← layout.distinct _ (by omega) routine inside same]
  · intro calls
    refine ⟨enabled, ?_, (lineEntry line).1, ?_⟩
    · rw [ready.chips]
      exact letsThrough_enabled line
    · rw [entry]
      refine ⟨by omega, ?_, ?_, ?_, ?_⟩
      · rw [gate]
        rfl
      · rw [gate]
        rfl
      · rw [gate]
        rfl
      · rw [gate]
        exact calls

/-- `exception_handler` is called with the frame of the entry. -/
theorem Ready.handle_eq
    (ready : Ready layout memory computer)
    (takes : Takes layout computer line called)
    (fuel : Nat) :
    handle irqHandlers computer line dataPort called fuel =
      exceptionHandler irqHandlers fuel
        (expectedFrame computer.context (lineEntry line).1
          (lineEntry line).2)
        { chips := enabledChips.deliver line
          world := { computer.system.world with dataPort := dataPort } } := by
  obtain ⟨set, -, framed⟩ := lineEntry_spec line
  have calls := (ready.takes_iff takes.enabled).mp takes
  have received :=
    (holds_callThrough computer.context
      (interruptGate (layout.stubAddress (lineEntry line).1))
      (lineEntry line) (by omega) framed).2
  rw [← calls] at received
  rw [handle, received, ready.chips]

/-- How the call for each line ends -/
theorem Ready.handle_cases
    (ready : Ready layout memory computer)
    (takes : Takes layout computer line called)
    (fuel : Nat) :
    handle (fillIrqTable irqHandlers) computer line dataPort called
        (fuel + 1) =
      if Driven line then
        .returned
          { chips := enabledChips
            world :=
              Pit.serviced line
                (expectedFrame computer.context (32 + line.val) 0)
                { computer.system.world with dataPort := dataPort } }
      else if line.val = 15 then
        .halted
      else
        .running := by
  rw [ready.handle_eq takes, lineEntry]
  by_cases driven : Driven line
  · have notLast : line.val ≠ 15 := by
      unfold Driven at driven
      omega
    rw [if_pos driven, if_neg notLast]
    exact exceptionHandler_driven rfl driven fuel
  · rw [if_neg driven]
    by_cases last : line.val = 15
    · rw [if_pos last, if_pos last]
      rfl
    · rw [if_neg last, if_neg last]
      exact exceptionHandler_undriven rfl driven last _ _

/-- One step of the kernel is one of the program on volatile memory. -/
theorem Ready.step
    {event : ProgramEvent}
    (ready : Ready layout memory computer)
    (step :
      MachineStep (fillIrqTable irqHandlers) program computer event next) :
    Interleaved program computer.view event next.view ∧
      Ready layout memory next := by
  cases step with
  | instruction stepped =>
      exact
        ⟨.instruction stepped, ready.idtr, ready.chips,
          program.keeps ready.suits stepped⟩
  | @interrupt line dataPort called returned fuel system context takes
      handled comesBack left =>
      cases fuel with
      | zero =>
          cases handled
      | succ fuel =>
          rw [ready.handle_cases takes fuel] at handled
          split at handled
          · rename_i driven
            cases handled
            have notLast : line.val ≠ 15 := by
              unfold Driven at driven
              omega
            have calls := (ready.takes_iff takes.enabled).mp takes
            rw [lineEntry, if_neg notLast] at calls
            rw [calls] at comesBack
            have undisturbed : Undisturbed layout computer.context context :=
              undisturbed_of_return ready.suits (Nat.le_add_right 32 _)
                (by omega) comesBack left
            exact
              ⟨.interrupt takes.enabled driven undisturbed, ready.idtr, rfl,
                undisturbed.suits ready.suits⟩
          · split at handled
            · cases handled
            · cases handled

/-- A driven line can be taken and comes back. -/
theorem Ready.exists_step
    (ready : Ready layout memory computer)
    (enabled : computer.context.rflags &&& flagInterrupt ≠ 0)
    (driven : Driven line) :
    ∃ next,
      MachineStep (fillIrqTable irqHandlers) program computer
        (.interrupt line dataPort) next := by
  obtain ⟨set, -, framed⟩ := lineEntry_spec line
  let gate := interruptGate (layout.stubAddress (lineEntry line).1)
  let called :=
    callThrough computer.context gate (lineEntry line) (lineEntry line).1
  have takes : Takes layout computer line called :=
    (ready.takes_iff enabled).mpr rfl
  have handled :
      handle (fillIrqTable irqHandlers) computer line dataPort called 1 =
        _ :=
    ready.handle_cases takes 0
  rw [if_pos driven] at handled
  have held :=
    (holds_callThrough computer.context gate (lineEntry line) (by omega)
      framed).1
  have resumed : Resumed (run called commonStubExit) computer.context :=
    resumed_of_frame (RegsT.holds_iff_read.mp held)
  have reserved :
      (run called commonStubExit).rflags &&& flagReserved ≠ 0 := by
    rw [resumed.rflags]
    exact computer.context.reserved
  let next : Context := ⟨run called commonStubExit, reserved⟩
  have left : next.toMachine = run called commonStubExit := rfl
  have comesBack : Returned layout called called :=
    ⟨rfl, fun _ _ _ => rfl⟩
  exact ⟨_, .interrupt takes handled comesBack left⟩

end Lines

/-- `idt_init` has run, with the memory it found, and the program has room. -/
structure Booted
    (layout : Layout)
    (memory : Memory)
    (computer : Computer) :
    Prop where
  idtr : computer.idtr = (idtInit layout.toPlacement memory).idtr
  enabled : ∃ chips, computer.system.chips = picEnable chips
  suits : layout.Suits memory computer.context

theorem Booted.ready
    {layout : Layout}
    {memory : Memory}
    {computer : Computer}
    (booted : Booted layout memory computer) :
    Ready layout memory computer := by
  obtain ⟨chips, enabled⟩ := booted.enabled
  refine ⟨booted.idtr, ?_, booted.suits⟩
  rw [enabled, picEnable_spec]

/--
What a line does when it arrives: a driven one can be served, the last one
halts in a fault, and the handler of any other goes on for ever.
-/
def Answers
    {layout : Layout}
    {memory : Memory}
    (irqHandlers : HandlerTable KernelWorld)
    (program : Program layout memory)
    (computer : Computer)
    (line : Fin 16)
    (dataPort : UInt8) :
    Prop :=
  if Driven line then
    ∃ next,
      MachineStep irqHandlers program computer (.interrupt line dataPort) next
  else
    ∃ called,
      Takes layout computer line called ∧
        ∀ fuel,
          handle irqHandlers computer line dataPort called (fuel + 1) =
            if line.val = 15 then .halted else .running

end Relics.Interrupt
