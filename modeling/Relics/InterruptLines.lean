import Mathlib.Data.List.Induction
import Relics.InterruptSource
import Relics.LabelledRun
import Relics.PicSource

namespace Relics.Interrupt

/-!
# Dispatching hardware interrupts

`exception_handler` dispatches on the vector in the frame and acknowledges
the interrupt afterwards.  For lines 7 and 15 it acknowledges before the
dispatch, with the vector of line 0, so line 15 is never acknowledged to the
chip it came from.  Every other line leaves both in-service registers empty.
-/

open LabelledRun Pic

/-- A handler of the table: `exception_handler` itself or other kernel code. -/
inductive Handler (World : Type) where
  | exceptionHandler
  | external (run : RegsT → World → World)

/-- The interrupt chips and the rest of the kernel's state. -/
structure System (World : Type) where
  chips : Chips
  world : World

/-- How a call ends: it returns, halts the machine, or is still running. -/
inductive Outcome (State : Type) where
  | returned (state : State)
  | halted
  | running

/-- `irq_handlers`; an entry that is zero is `none` -/
abbrev HandlerTable (World : Type) := Nat → Option (Handler World)

namespace System

variable {World : Type}

/-- `PIC_acknowledge` -/
def acknowledge (system : System World) (interrupt : UInt8) : System World :=
  { system with chips := picAcknowledge system.chips interrupt }

end System

/--
`exception_handler`, with a bound on its calls of itself.  For a vector below
32 it prints the fault and ends in `panic_irq`, which never returns.
-/
def exceptionHandler
    {World : Type}
    (irqHandlers : HandlerTable World) :
    (fuel : Nat) →
    RegsT →
    System World →
    Outcome (System World)
  | 0, _, _ => .running
  | fuel + 1, r, system =>
      if r.irq = 7 + 0x20 ∨ r.irq = 15 + 0x20 then
        .returned (system.acknowledge 0x20)
      else if r.irq < 32 then
        .halted
      else if 32 ≤ r.irq ∧ r.irq < 32 + 16 then
        match irqHandlers (r.irq - 32).toNat with
        | none => .returned (system.acknowledge r.irq.toUInt8)
        | some (.external run) =>
            let system := { system with world := run r system.world }
            .returned (system.acknowledge r.irq.toUInt8)
        | some .exceptionHandler =>
            match exceptionHandler irqHandlers fuel r system with
            | .returned system => .returned (system.acknowledge r.irq.toUInt8)
            | outcome => outcome
      else
        .returned system

/-- A hardware interrupt: a line and the rest of the frame its stub builds. -/
structure HardwareInterrupt where
  line : Fin 16
  frame : RegsT

section Service

variable {World : Type}

/-- A line is delivered and its handler returns. -/
def Service
    (irqHandlers : HandlerTable World)
    (system : System World)
    (interrupt : HardwareInterrupt)
    (next : System World) :
    Prop :=
  ∃ fuel,
    exceptionHandler irqHandlers fuel
        { interrupt.frame with
          irq := (system.chips.vector interrupt.line).toUInt64 }
        { system with chips := system.chips.deliver interrupt.line } =
      .returned next

/-- The system once `PIC_enable` has run. -/
def enabled (chips : Chips) (world : World) : System World where
  chips := picEnable chips
  world := world

/--
After every interrupt of the sequence its handler has returned and no
interrupt is in service.
-/
def NoneBlocked
    (irqHandlers : HandlerTable World)
    (initial : System World)
    (interrupts : List HardwareInterrupt) :
    Prop :=
  ∀ taken rest,
    interrupts = taken ++ rest →
    ∃ system,
      Run (Service irqHandlers) initial taken system ∧
        system.chips.NoneInService

/-- Handlers that return without touching the chips. -/
def quietHandlers
    (installed : Nat → Option (RegsT → World → World)) :
    HandlerTable World :=
  fun irq => (installed irq).map .external

/-- The chips after a line and its acknowledgement. -/
def afterService (line : Fin 16) : Chips :=
  if line.val = 15 then
    { enabledChips with
      secondary := { enabledChips.secondary with inService := lineBit 7 } }
  else
    enabledChips

/-- What the acknowledgements of `exception_handler` leave in service. -/
theorem picAcknowledge_deliver (line : Fin 16) :
    picAcknowledge (enabledChips.deliver line)
        (if line = 7 ∨ line = 15 then 0x20
          else (enabledChips.vector line).toUInt64.toUInt8) =
      afterService line := by
  revert line
  decide

/-- The vectors of the lines, as `exception_handler` tells them apart. -/
theorem vector_cases (line : Fin 16) :
    let irq := (enabledChips.vector line).toUInt64
    (irq = 7 + 0x20 ∨ irq = 15 + 0x20 ↔ line = 7 ∨ line = 15) ∧
      ¬irq < 32 ∧ 32 ≤ irq ∧ irq < 32 + 16 := by
  revert line
  decide

variable
    {installed : Nat → Option (RegsT → World → World)}
    {initial next : System World}
    {interrupt : HardwareInterrupt}
    {interrupts : List HardwareInterrupt}

/-- With quiet handlers a delivered line is acknowledged and returned from. -/
theorem exceptionHandler_quiet
    (installed : Nat → Option (RegsT → World → World))
    (fuel : Nat)
    (line : Fin 16)
    (frame : RegsT)
    (world : World) :
    ∃ world',
      exceptionHandler (quietHandlers installed) (fuel + 1)
          { frame with irq := (enabledChips.vector line).toUInt64 }
          { chips := enabledChips.deliver line, world := world } =
        .returned { chips := afterService line, world := world' } := by
  obtain ⟨special, notFault, lower, upper⟩ := vector_cases line
  have acknowledged := picAcknowledge_deliver line
  by_cases early : line = 7 ∨ line = 15
  · refine ⟨world, ?_⟩
    rw [if_pos early] at acknowledged
    simp only [exceptionHandler, special.mpr early, ↓reduceIte,
      System.acknowledge, acknowledged]
  · rw [if_neg early] at acknowledged
    have dispatched := mt special.mp early
    cases handler :
        installed ((enabledChips.vector line).toUInt64 - 32).toNat with
    | none =>
        refine ⟨world, ?_⟩
        simp only [exceptionHandler, dispatched, ↓reduceIte, notFault, lower,
          upper, and_self, quietHandlers, handler, Option.map_none,
          System.acknowledge, acknowledged]
    | some run =>
        refine
          ⟨run { frame with irq := (enabledChips.vector line).toUInt64 } world,
            ?_⟩
        simp only [exceptionHandler, dispatched, ↓reduceIte, notFault, lower,
          upper, and_self, quietHandlers, handler, Option.map_some,
          System.acknowledge, acknowledged]

/-- What is in service after a line was served on enabled chips. -/
theorem chips_of_service
    (ready : initial.chips = enabledChips)
    (service :
      Service (quietHandlers installed) initial interrupt next) :
    next.chips = afterService interrupt.line := by
  obtain ⟨fuel, ended⟩ := service
  rw [ready] at ended
  cases fuel with
  | zero =>
      simp [exceptionHandler] at ended
  | succ fuel =>
      obtain ⟨world', returned⟩ :=
        exceptionHandler_quiet installed fuel interrupt.line interrupt.frame
          initial.world
      rw [returned] at ended
      cases ended
      rfl

/-- On enabled chips every line is served. -/
theorem exists_service
    (ready : initial.chips = enabledChips) :
    ∃ next, Service (quietHandlers installed) initial interrupt next := by
  obtain ⟨world', returned⟩ :=
    exceptionHandler_quiet installed 0 interrupt.line interrupt.frame
      initial.world
  refine
    ⟨{ chips := afterService interrupt.line, world := world' }, 1, ?_⟩
  rw [ready]
  exact returned

/-- Without line 15 the chips are as enabled after every interrupt. -/
theorem chips_of_run
    (ready : initial.chips = enabledChips)
    (run : Run (Service (quietHandlers installed)) initial interrupts next)
    (no15 : ∀ interrupt ∈ interrupts, interrupt.line ≠ 15) :
    next.chips = enabledChips := by
  induction run with
  | start =>
      exact ready
  | @extend earlier state next interrupt run service inductionHypothesis =>
      have before :=
        inductionHypothesis fun other member => no15 other (by simp [member])
      rw [chips_of_service before service]
      apply if_neg
      intro is15
      exact no15 interrupt (by simp) (Fin.ext is15)

/-- Without line 15 every interrupt is served. -/
theorem exists_run
    (ready : initial.chips = enabledChips)
    (no15 : ∀ interrupt ∈ interrupts, interrupt.line ≠ 15) :
    ∃ next,
      Run (Service (quietHandlers installed)) initial interrupts next := by
  induction interrupts using List.reverseRecOn with
  | nil =>
      exact ⟨initial, .start⟩
  | append_singleton earlier interrupt inductionHypothesis =>
      have no15Earlier : ∀ other ∈ earlier, other.line ≠ 15 :=
        fun other member => no15 other (by simp [member])
      obtain ⟨state, run⟩ := inductionHypothesis no15Earlier
      obtain ⟨next, service⟩ :=
        exists_service (chips_of_run ready run no15Earlier)
      exact ⟨next, run.extend service⟩

end Service

/--
With handlers that return and leave the chips alone, no interrupt stays in
service after any of a sequence, exactly when line 15 is not among them.
-/
theorem noneBlocked_iff
    {World : Type}
    (installed : Nat → Option (RegsT → World → World))
    (chips : Chips)
    (world : World)
    (interrupts : List HardwareInterrupt) :
    NoneBlocked (quietHandlers installed) (enabled chips world) interrupts ↔
      ∀ interrupt ∈ interrupts, interrupt.line ≠ 15 := by
  have ready : (enabled chips world).chips = enabledChips :=
    picEnable_spec chips
  constructor
  · intro noneBlocked
    induction interrupts using List.reverseRecOn with
    | nil =>
        simp
    | append_singleton earlier last inductionHypothesis =>
        have noneBefore :
            NoneBlocked (quietHandlers installed) (enabled chips world)
              earlier := by
          rintro taken rest rfl
          exact noneBlocked taken (rest ++ [last]) (by simp)
        have no15 := inductionHypothesis noneBefore
        obtain ⟨system, run, noneInService⟩ :=
          noneBlocked (earlier ++ [last]) [] (by simp)
        obtain ⟨state, before, service⟩ := run.exists_last
        have served :=
          chips_of_service (chips_of_run ready before no15) service
        intro interrupt member
        rcases List.mem_append.mp member with inEarlier | isLast
        · exact no15 interrupt inEarlier
        · obtain rfl := List.mem_singleton.mp isLast
          intro is15
          rw [served, is15] at noneInService
          exact absurd noneInService.2 (by decide)
  · rintro no15 taken rest rfl
    have no15Taken : ∀ interrupt ∈ taken, interrupt.line ≠ 15 :=
      fun interrupt member => no15 interrupt (by simp [member])
    obtain ⟨system, run⟩ := exists_run ready no15Taken
    refine ⟨system, run, ?_⟩
    rw [chips_of_run ready run no15Taken]
    exact ⟨rfl, rfl⟩

/-- A frame in which every field is 0. -/
def zeroFrame : RegsT :=
  RegsT.read (fun _ => 0) 0

/-- One interrupt on line 15 stays in service on the secondary chip. -/
theorem not_noneBlocked_line15 :
    ¬NoneBlocked (quietHandlers fun _ => some fun _ world => world)
        (enabled enabledChips ())
        [{ line := 15, frame := zeroFrame }] := by
  intro noneBlocked
  obtain ⟨system, run, noneInService⟩ :=
    noneBlocked ([] ++ [{ line := 15, frame := zeroFrame }]) [] rfl
  obtain ⟨state, before, service⟩ := run.exists_last
  have ready : (enabled enabledChips ()).chips = enabledChips :=
    picEnable_spec enabledChips
  have served :=
    chips_of_service (chips_of_run ready before (by simp)) service
  rw [served] at noneInService
  exact absurd noneInService.2 (by decide)

end Relics.Interrupt
