import Mathlib.Data.Fintype.Basic
import Mathlib.Tactic.FinCases
import Relics.InterruptLines
import Relics.KeyboardSource

namespace Relics.Interrupt

/-!
# Where dispatching an interrupt ends

`fill_irq_table` installs `exception_handler` itself for the lines without a
driver.  Dispatching such a line calls the dispatcher with the frame it was
called with, and so on.  The lines that `exception_handler` acknowledges
before it looks at the table end all the same.
-/

/-- What the installed handlers read and write. -/
structure KernelWorld where
  countdown : UInt64
  timerTicks : UInt64
  keyboard : Ps2Keyboard.Keyboard
  /-- The byte at port 0x60 -/
  dataPort : UInt8

/-- `timer_handler` -/
def timerHandler (_r : RegsT) (world : KernelWorld) : KernelWorld :=
  let countdown :=
    if 0 < world.countdown then world.countdown - 1 else world.countdown
  { world with
    countdown := countdown
    timerTicks := world.timerTicks + 1 }

/-- `kbd_irq_handler` -/
def kbdIrqHandler (_r : RegsT) (world : KernelWorld) : KernelWorld :=
  { world with
    keyboard := Ps2Keyboard.kbdIrqHandler world.keyboard world.dataPort }

/-- `spurious_interrupt` -/
def spuriousInterrupt (_r : RegsT) (world : KernelWorld) : KernelWorld :=
  world

/-- `irq_install_handler` -/
def irqInstallHandler
    (irqHandlers : HandlerTable KernelWorld)
    (irq : Nat)
    (handler : Handler KernelWorld) :
    HandlerTable KernelWorld :=
  Function.update irqHandlers irq (some handler)

/-- `fill_irq_table` -/
def fillIrqTable
    (irqHandlers : HandlerTable KernelWorld) :
    HandlerTable KernelWorld :=
  let table := irqInstallHandler irqHandlers 0 (.external timerHandler)
  let table := irqInstallHandler table 1 (.external kbdIrqHandler)
  let table := irqInstallHandler table 2 .exceptionHandler
  let table := irqInstallHandler table 3 .exceptionHandler
  let table := irqInstallHandler table 4 .exceptionHandler
  let table := irqInstallHandler table 5 .exceptionHandler
  let table := irqInstallHandler table 6 .exceptionHandler
  let table := irqInstallHandler table 7 (.external spuriousInterrupt)
  let table := irqInstallHandler table 8 .exceptionHandler
  let table := irqInstallHandler table 9 .exceptionHandler
  let table := irqInstallHandler table 10 .exceptionHandler
  let table := irqInstallHandler table 11 .exceptionHandler
  let table := irqInstallHandler table 12 .exceptionHandler
  let table := irqInstallHandler table 13 .exceptionHandler
  let table := irqInstallHandler table 14 .exceptionHandler
  irqInstallHandler table 15 .exceptionHandler

section Chain

variable {World : Type}

/-- `exception_handler` returns after finitely many calls. -/
def Returns
    (irqHandlers : HandlerTable World)
    (r : RegsT)
    (system : System World) :
    Prop :=
  ∃ fuel next,
    exceptionHandler irqHandlers fuel r system = .returned next

/-- The vectors that are acknowledged before the table is looked at -/
abbrev AcknowledgedEarly (irq : UInt64) : Prop :=
  irq = 7 + 0x20 ∨ irq = 15 + 0x20

/-- The vectors of the hardware lines -/
abbrev IsLine (irq : UInt64) : Prop :=
  32 ≤ irq ∧ irq < 32 + 16

variable {irqHandlers : HandlerTable World}
variable {r : RegsT}
variable {system : System World}

/-- A line acknowledged early is returned from. -/
theorem returns_of_acknowledgedEarly
    (early : AcknowledgedEarly r.irq) :
    Returns irqHandlers r system := by
  refine ⟨1, system.acknowledge 0x20, ?_⟩
  rw [exceptionHandler, if_pos early]

/-- One call of the dispatcher for a line that goes through the table -/
theorem exceptionHandler_of_isLine
    (fuel : Nat)
    (line : IsLine r.irq)
    (dispatched : ¬ AcknowledgedEarly r.irq) :
    exceptionHandler irqHandlers (fuel + 1) r system =
      match irqHandlers (r.irq - 32).toNat with
      | none => .returned (system.acknowledge r.irq.toUInt8)
      | some (.external run) =>
          let system := { system with world := run r system.world }
          .returned (system.acknowledge r.irq.toUInt8)
      | some .exceptionHandler =>
          match exceptionHandler irqHandlers fuel r system with
          | .returned system => .returned (system.acknowledge r.irq.toUInt8)
          | outcome => outcome := by
  have notFault : ¬ r.irq < 32 :=
    UInt64.not_lt.mpr line.1
  rw [exceptionHandler, if_neg dispatched, if_neg notFault]
  exact if_pos line

/-- A line whose handler is the dispatcher is still running on any fuel. -/
theorem running_of_self
    (line : IsLine r.irq)
    (dispatched : ¬ AcknowledgedEarly r.irq)
    (self : irqHandlers (r.irq - 32).toNat = some .exceptionHandler)
    (fuel : Nat) :
    exceptionHandler irqHandlers fuel r system = .running := by
  induction fuel with
  | zero =>
      rfl
  | succ fuel inductionHypothesis =>
      rw [exceptionHandler_of_isLine fuel line dispatched, self,
        inductionHypothesis]

/-- A driver runs once and its line is acknowledged. -/
theorem exceptionHandler_of_driver
    {run : RegsT → World → World}
    (fuel : Nat)
    (line : IsLine r.irq)
    (dispatched : ¬ AcknowledgedEarly r.irq)
    (driver : irqHandlers (r.irq - 32).toNat = some (.external run)) :
    exceptionHandler irqHandlers (fuel + 1) r system =
      .returned
        (System.acknowledge { system with world := run r system.world }
          r.irq.toUInt8) := by
  rw [exceptionHandler_of_isLine fuel line dispatched, driver]

/-- A line whose handler is other code is returned from. -/
theorem returns_of_ne_self
    (line : IsLine r.irq)
    (dispatched : ¬ AcknowledgedEarly r.irq)
    (other : irqHandlers (r.irq - 32).toNat ≠ some .exceptionHandler) :
    Returns irqHandlers r system := by
  cases handler : irqHandlers (r.irq - 32).toNat with
  | none =>
      refine ⟨1, system.acknowledge r.irq.toUInt8, ?_⟩
      rw [exceptionHandler_of_isLine 0 line dispatched, handler]
  | some handlerAtLine =>
      cases handlerAtLine with
      | exceptionHandler =>
          exact absurd handler other
      | external run =>
          exact
            ⟨1, _, exceptionHandler_of_driver 0 line dispatched handler⟩

/--
The dispatch of a line ends exactly when the line is acknowledged early or
its handler is not the dispatcher.
-/
theorem returns_iff
    (line : IsLine r.irq) :
    Returns irqHandlers r system ↔
      AcknowledgedEarly r.irq ∨
        irqHandlers (r.irq - 32).toNat ≠ some .exceptionHandler := by
  constructor
  · rintro ⟨fuel, next, returned⟩
    by_contra neither
    rw [not_or, not_not] at neither
    rw [running_of_self line neither.1 neither.2] at returned
    cases returned
  · intro either
    by_cases early : AcknowledgedEarly r.irq
    · exact returns_of_acknowledgedEarly early
    · exact returns_of_ne_self line early (either.resolve_left early)

end Chain

/-- The vector of a line -/
def lineVector (line : Fin 16) : UInt64 :=
  UInt64.ofNat (32 + line.val)

/-- The vectors of the lines as the dispatcher tells them apart -/
theorem lineVector_spec (line : Fin 16) :
    IsLine (lineVector line) ∧
      (AcknowledgedEarly (lineVector line) ↔ line = 7 ∨ line = 15) ∧
      (lineVector line - 32).toNat = line.val := by
  unfold IsLine AcknowledgedEarly
  revert line
  decide

/-- The lines for which the dispatcher is its own handler -/
theorem fillIrqTable_eq_self_iff
    (irqHandlers : HandlerTable KernelWorld)
    (line : Fin 16) :
    fillIrqTable irqHandlers line.val = some .exceptionHandler ↔
      line ≠ 0 ∧ line ≠ 1 ∧ line ≠ 7 := by
  fin_cases line <;>
    simp [fillIrqTable, irqInstallHandler]

/-- The lines that are acknowledged early or have a driver -/
theorem endingLines (line : Fin 16) :
    ((line = 7 ∨ line = 15) ∨ ¬ (line ≠ 0 ∧ line ≠ 1 ∧ line ≠ 7)) ↔
      line = 0 ∨ line = 1 ∨ line = 7 ∨ line = 15 := by
  revert line
  decide

/--
With the table of `fill_irq_table`, whatever it held before, the dispatch of
a line ends exactly for the lines 0, 1, 7 and 15.
-/
theorem exceptionHandler_returns_iff
    (irqHandlers : HandlerTable KernelWorld)
    (line : Fin 16)
    (frame : RegsT)
    (system : System KernelWorld) :
    Returns (fillIrqTable irqHandlers)
        { frame with irq := lineVector line } system ↔
      line = 0 ∨ line = 1 ∨ line = 7 ∨ line = 15 := by
  obtain ⟨isLine, early, index⟩ := lineVector_spec line
  have self := fillIrqTable_eq_self_iff irqHandlers line
  have returns :
      Returns (fillIrqTable irqHandlers)
          { frame with irq := lineVector line } system ↔ _ :=
    returns_iff isLine
  simp only [early, index, Ne, self] at returns
  exact returns.trans (endingLines line)

/-- The dispatch of line 3 never ends. -/
theorem exceptionHandler_line3_counterexample :
    ¬ ∀ (irqHandlers : HandlerTable KernelWorld) (line : Fin 16)
        (frame : RegsT) (system : System KernelWorld),
      Returns (fillIrqTable irqHandlers)
        { frame with irq := lineVector line } system := by
  intro always
  obtain ⟨isLine, early, index⟩ := lineVector_spec 3
  have system : System KernelWorld :=
    { chips := Pic.enabledChips
      world :=
        { countdown := 0
          timerTicks := 0
          keyboard := Ps2Keyboard.initialKeyboard
          dataPort := 0 } }
  obtain ⟨fuel, next, returned⟩ := always (fun _ => none) 3 zeroFrame system
  have self :=
    (fillIrqTable_eq_self_iff (fun _ => none) 3).mpr (by decide)
  rw [running_of_self isLine (by decide) (index.symm ▸ self)] at returned
  cases returned

end Relics.Interrupt
