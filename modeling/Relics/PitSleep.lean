import Relics.InterruptDispatch

namespace Relics.Pit

/-!
# Sleeping until the timer has ticked

`millisleep` stores the number of ticks to wait for, and then compares it
with 0 and halts until the next interrupt, in two steps.  The timer interrupt
counts it down at any point in between.  The sleeper never returns before its
last tick, but a last tick between the comparison and the `hlt` does not wake
it: it then sleeps on until one more interrupt arrives.
-/

open Interrupt LabelledRun Pic

/-- Where the code that calls `millisleep` stands. -/
inductive Location where
  /-- about to store the number of ticks in `countdown` -/
  | storing
  /-- about to compare `countdown` with 0 -/
  | testing
  /-- about to execute `hlt` -/
  | halting
  /-- in the `hlt` -/
  | halted
  | returned
  deriving DecidableEq, Repr

/-- An interrupt ends a `hlt`. -/
def Location.wake : Location → Location
  | halted => testing
  | location => location

/-- The steps of `millisleep`; in the `hlt` there is none. -/
def millisleep
    (millis : UInt64)
    (world : KernelWorld) :
    Location →
    Option (KernelWorld × Location)
  | .storing => some ({ world with countdown := millis }, .testing)
  | .testing =>
      some (world, if 0 < world.countdown then .halting else .returned)
  | .halting => some (world, .halted)
  | .halted => none
  | .returned => none

/-- The kernel with one call of `millisleep`. -/
structure Sleeper where
  system : System KernelWorld
  location : Location

/-- A step of `millisleep`, or an interrupt with its whole handler. -/
inductive Event where
  | main
  | interrupt (arrived : HardwareInterrupt)

/-- The interrupt is one of the timer. -/
def Event.isTick : Event → Bool
  | .interrupt arrived => arrived.line.val = 0
  | .main => false

/-- The event is a step of `millisleep`. -/
def Event.isMain : Event → Bool
  | .interrupt _ => false
  | .main => true

/-- The timer interrupts among some events. -/
def ticks (events : List Event) : Nat :=
  events.countP Event.isTick

/-- One step of the interleaving. -/
inductive Step
    (irqHandlers : HandlerTable KernelWorld)
    (millis : UInt64) :
    Sleeper → Event → Sleeper → Prop where
  | main
      {sleeper : Sleeper}
      {world : KernelWorld}
      {location : Location}
      (stepped :
        millisleep millis sleeper.system.world sleeper.location =
          some (world, location)) :
      Step irqHandlers millis sleeper .main
        { system := { sleeper.system with world := world }
          location := location }
  | interrupt
      {sleeper : Sleeper}
      {arrived : HardwareInterrupt}
      {system : System KernelWorld}
      (service : Service irqHandlers sleeper.system arrived system) :
      Step irqHandlers millis sleeper (.interrupt arrived)
        { system := system
          location := sleeper.location.wake }

section Interrupts

variable {irqHandlers : HandlerTable KernelWorld}
variable {chips : Chips}
variable {system next : System KernelWorld}
variable {arrived : HardwareInterrupt}

/-- The lines arrive at the vectors that `PIC_enable` sets. -/
structure Remapped (chips : Chips) : Prop where
  primary : chips.primary.offset = 0x20
  secondary : chips.secondary.offset = 0x28

/-- Delivering a line keeps the vectors. -/
theorem Remapped.deliver
    (remapped : Remapped chips)
    (line : Fin 16) :
    Remapped (chips.deliver line) := by
  unfold Chips.deliver
  split
  · exact ⟨remapped.primary, remapped.secondary⟩
  · exact ⟨remapped.primary, remapped.secondary⟩

/-- An acknowledgement keeps the vectors. -/
theorem Remapped.picAcknowledge
    (remapped : Remapped chips)
    (interrupt : UInt8) :
    Remapped (picAcknowledge chips interrupt) := by
  have notInit : ¬picAcknowledgeCommand &&& 0x10 ≠ 0 := by
    decide
  unfold Pic.picAcknowledge
  split
  · constructor
    · simpa [Chips.outb, Chip.command, notInit] using remapped.primary
    · simpa [Chips.outb, Chip.command, notInit] using remapped.secondary
  · constructor
    · simpa [Chips.outb, Chip.command, notInit] using remapped.primary
    · simpa [Chips.outb, Chip.command, notInit] using remapped.secondary

/-- The vector at which a line arrives. -/
theorem Remapped.vector
    (remapped : Remapped chips)
    (line : Fin 16) :
    (chips.vector line).toUInt64 = lineVector line := by
  have fixed :
      chips.vector line =
        if line < 8 then 0x20 + UInt8.ofNat line.val
        else 0x28 + UInt8.ofNat (line.val - 8) := by
    rw [Chips.vector, remapped.primary, remapped.secondary]
  rw [fixed]
  clear fixed
  revert line
  decide

/-- What the handler of a line does to the kernel's state. -/
def serviced (line : Fin 16) (r : RegsT) (world : KernelWorld) : KernelWorld :=
  if line.val = 0 then
    timerHandler r world
  else if line.val = 1 then
    kbdIrqHandler r world
  else
    world

/-- A served line runs its driver once, and the next lines arrive as before. -/
theorem world_of_service
    (remapped : Remapped system.chips)
    (service : Service (fillIrqTable irqHandlers) system arrived next) :
    (∃ r, next.world = serviced arrived.line r system.world) ∧
      Remapped next.chips := by
  obtain ⟨fuel, ended⟩ := service
  obtain ⟨line, frame⟩ := arrived
  simp only [remapped.vector] at ended
  obtain ⟨isLine, early, index⟩ := lineVector_spec line
  have delivered := remapped.deliver line
  cases fuel with
  | zero =>
      cases ended
  | succ fuel =>
      by_cases acknowledged : line = 7 ∨ line = 15
      · rw [exceptionHandler, if_pos (early.mpr acknowledged)] at ended
        cases ended
        refine ⟨⟨frame, ?_⟩, delivered.picAcknowledge _⟩
        rcases acknowledged with rfl | rfl
        · rfl
        · rfl
      · have dispatched := mt early.mp acknowledged
        by_cases driver : line = 0 ∨ line = 1
        · have handler :
              fillIrqTable irqHandlers (lineVector line - 32).toNat =
                some (.external (serviced line)) := by
            rw [index]
            rcases driver with rfl | rfl
            · rfl
            · rfl
          rw [exceptionHandler_of_driver fuel isLine dispatched handler]
            at ended
          cases ended
          exact ⟨⟨_, rfl⟩, delivered.picAcknowledge _⟩
        · have self :
              fillIrqTable irqHandlers (lineVector line - 32).toNat =
                some .exceptionHandler := by
            rw [index, fillIrqTable_eq_self_iff]
            obtain ⟨not0, not1⟩ := not_or.mp driver
            exact ⟨not0, not1, (not_or.mp acknowledged).1⟩
          have running :
              exceptionHandler (fillIrqTable irqHandlers) (fuel + 1)
                  { frame with irq := lineVector line }
                  { system with chips := system.chips.deliver line } =
                .running := by
            apply running_of_self
            · exact isLine
            · exact dispatched
            · exact self
          rw [running] at ended
          cases ended

end Interrupts

/-- What is known of a call that has stored its ticks, some of which passed. -/
structure Sleeping
    (millis : UInt64)
    (passed : Nat)
    (sleeper : Sleeper) :
    Prop where
  remapped : Remapped sleeper.system.chips
  stored : sleeper.location ≠ .storing
  countdown :
    sleeper.system.world.countdown.toNat = millis.toNat - passed
  notEarly : sleeper.location = .returned → millis.toNat ≤ passed

/-- The steps of `millisleep` that are left once `countdown` is 0. -/
def Location.stepsLeft : Location → Nat
  | storing => 3
  | testing => 1
  | halting => 2
  | halted => 1
  | returned => 0

/--
What `millisleep` promises after some of its ticks have passed: the count,
that it does not return early, that two of its own steps are enough once the
last tick has passed, and that it only waits in the `hlt`, which any of the
lines with a handler ends.
-/
structure Sleeps
    (irqHandlers : HandlerTable KernelWorld)
    (millis : UInt64)
    (passed : Nat)
    (sleeper : Sleeper) :
    Prop where
  countdown :
    sleeper.system.world.countdown.toNat = millis.toNat - passed
  notEarly : sleeper.location = .returned → millis.toNat ≤ passed
  notLate :
    millis.toNat ≤ passed →
    ∀ onwards next,
      Run (Step irqHandlers millis) sleeper onwards next →
      2 ≤ onwards.countP Event.isMain →
      next.location = .returned
  goesOn :
    sleeper.location ≠ .halted →
    sleeper.location ≠ .returned →
    ∃ next, Step irqHandlers millis sleeper .main next
  wakes :
    ∀ arrived : HardwareInterrupt,
      arrived.line = 0 ∨ arrived.line = 1 ∨ arrived.line = 7 →
      ∃ next,
        Step irqHandlers millis sleeper (.interrupt arrived) next ∧
          next.location = sleeper.location.wake

section Steps

/-- The steps of `millisleep`, one by one. -/
theorem millisleep_cases
    {millis : UInt64}
    {world world' : KernelWorld}
    {location location' : Location}
    (stepped : millisleep millis world location = some (world', location')) :
    (location = .storing ∧
        world' = { world with countdown := millis } ∧
          location' = .testing) ∨
      (location = .testing ∧
          world' = world ∧
            0 < world.countdown ∧ location' = .halting) ∨
        (location = .testing ∧
            world' = world ∧
              world.countdown.toNat = 0 ∧ location' = .returned) ∨
          (location = .halting ∧ world' = world ∧ location' = .halted) := by
  cases location with
  | storing =>
      cases stepped
      exact .inl ⟨rfl, rfl, rfl⟩
  | testing =>
      by_cases positive : 0 < world.countdown
      · rw [millisleep, if_pos positive] at stepped
        cases stepped
        exact .inr (.inl ⟨rfl, rfl, positive, rfl⟩)
      · rw [millisleep, if_neg positive] at stepped
        rw [UInt64.lt_iff_toNat_lt] at positive
        cases stepped
        exact .inr (.inr (.inl
          ⟨rfl, rfl, Nat.eq_zero_of_not_pos positive, rfl⟩))
  | halting =>
      cases stepped
      exact .inr (.inr (.inr ⟨rfl, rfl, rfl⟩))
  | halted =>
      cases stepped
  | returned =>
      cases stepped

variable {irqHandlers : HandlerTable KernelWorld}
variable {millis : UInt64}
variable {passed : Nat}
variable {sleeper next : Sleeper}
variable {event : Event}

/-- A timer interrupt takes 1 from the countdown unless it is 0. -/
theorem countdown_serviced
    (line : Fin 16)
    (r : RegsT)
    (world : KernelWorld) :
    (serviced line r world).countdown.toNat =
      world.countdown.toNat - if line.val = 0 then 1 else 0 := by
  by_cases isTimer : line.val = 0
  · by_cases positive : 0 < world.countdown
    · have one : (1 : UInt64) ≤ world.countdown := by
        rw [UInt64.lt_iff_toNat_lt] at positive
        rw [UInt64.le_iff_toNat_le]
        exact positive
      simp [serviced, isTimer, timerHandler, positive,
        UInt64.toNat_sub_of_le _ _ one]
    · have zero : world.countdown.toNat = 0 := by
        rw [UInt64.lt_iff_toNat_lt] at positive
        exact Nat.eq_zero_of_not_pos positive
      simp [serviced, isTimer, timerHandler, positive, zero]
  · by_cases isKeyboard : line.val = 1
    · simp [serviced, isKeyboard, kbdIrqHandler]
    · simp [serviced, isTimer, isKeyboard]

/-- The ticks are counted, whether anyone sleeps or not. -/
theorem timerTicks_serviced
    (line : Fin 16)
    (r : RegsT)
    (world : KernelWorld) :
    (serviced line r world).timerTicks =
      world.timerTicks + if line.val = 0 then 1 else 0 := by
  by_cases isTimer : line.val = 0
  · simp [serviced, isTimer, timerHandler]
  · by_cases isKeyboard : line.val = 1
    · simp [serviced, isKeyboard, kbdIrqHandler]
    · simp [serviced, isTimer, isKeyboard]

/-- Neither a step nor an interrupt changes where the lines arrive. -/
theorem Step.remapped
    (remapped : Remapped sleeper.system.chips)
    (step : Step (fillIrqTable irqHandlers) millis sleeper event next) :
    Remapped next.system.chips := by
  cases step with
  | main _ =>
      exact remapped
  | interrupt service =>
      exact (world_of_service remapped service).2

/-- Only the timer interrupts change the number of ticks since boot. -/
theorem Step.timerTicks
    (remapped : Remapped sleeper.system.chips)
    (step : Step (fillIrqTable irqHandlers) millis sleeper event next) :
    next.system.world.timerTicks =
      sleeper.system.world.timerTicks +
        if event.isTick = true then 1 else 0 := by
  cases step with
  | main stepped =>
      rcases millisleep_cases stepped with
          ⟨-, rfl, -⟩ | ⟨-, rfl, -⟩ | ⟨-, rfl, -⟩ | ⟨-, rfl, -⟩
      all_goals simp [Event.isTick]
  | interrupt service =>
      obtain ⟨⟨r, effect⟩, -⟩ := world_of_service remapped service
      simp [effect, timerTicks_serviced, Event.isTick]

/-- The first step stores the number of ticks. -/
theorem sleeping_of_store
    (remapped : Remapped sleeper.system.chips)
    (located : sleeper.location = .storing)
    (step : Step irqHandlers millis sleeper .main next) :
    Sleeping millis 0 next := by
  cases step with
  | main stepped =>
      rw [located] at stepped
      cases stepped
      exact {
        remapped := remapped
        stored := by simp
        countdown := rfl
        notEarly := by simp }

/-- A tick is counted, and the sleeper returns only if none is left. -/
theorem Sleeping.step
    (sleeping : Sleeping millis passed sleeper)
    (step : Step (fillIrqTable irqHandlers) millis sleeper event next) :
    Sleeping millis (passed + if event.isTick = true then 1 else 0) next := by
  have remapped := step.remapped sleeping.remapped
  cases step with
  | main stepped =>
      rcases millisleep_cases stepped with
          ⟨located, -⟩ | ⟨-, rfl, -, rfl⟩ | ⟨-, rfl, zero, rfl⟩ |
            ⟨-, rfl, rfl⟩
      · exact absurd located sleeping.stored
      · exact ⟨remapped, by simp, sleeping.countdown, by simp⟩
      · refine ⟨remapped, by simp, sleeping.countdown, fun _ => ?_⟩
        exact Nat.le_of_sub_eq_zero (sleeping.countdown.symm.trans zero)
      · exact ⟨remapped, by simp, sleeping.countdown, by simp⟩
  | @interrupt arrived system service =>
      obtain ⟨⟨r, effect⟩, -⟩ := world_of_service sleeping.remapped service
      have counted :
          system.world.countdown.toNat =
            millis.toNat -
              (passed +
                if (Event.interrupt arrived).isTick = true then 1 else 0) := by
        rw [effect, countdown_serviced, sleeping.countdown, Nat.sub_sub]
        simp [Event.isTick]
      obtain ⟨-, stored, -, notEarly⟩ := sleeping
      refine ⟨remapped, ?_, counted, ?_⟩
      · cases located : sleeper.location with
        | storing =>
            exact absurd located stored
        | _ =>
            simp [Location.wake]
      · cases located : sleeper.location with
        | returned =>
            exact fun _ => (notEarly located).trans (Nat.le_add_right _ _)
        | _ =>
            simp [Location.wake]

/-- With no tick left every step of the sleeper brings it closer to its end. -/
theorem Sleeping.stepsLeft
    (sleeping : Sleeping millis passed sleeper)
    (last : millis.toNat ≤ passed)
    (step : Step (fillIrqTable irqHandlers) millis sleeper event next) :
    next.location.stepsLeft + (if event.isMain = true then 1 else 0) ≤
      sleeper.location.stepsLeft := by
  cases step with
  | main stepped =>
      rcases millisleep_cases stepped with
          ⟨located, -⟩ | ⟨-, -, positive, -⟩ | ⟨located, -, -, rfl⟩ |
            ⟨located, -, rfl⟩
      · exact absurd located sleeping.stored
      · rw [UInt64.lt_iff_toNat_lt, sleeping.countdown,
          Nat.sub_eq_zero_of_le last] at positive
        exact absurd positive (Nat.lt_irrefl 0)
      · rw [located]
        exact le_rfl
      · rw [located]
        exact le_rfl
  | interrupt service =>
      cases sleeper.location with
      | _ =>
          exact le_rfl

/-- After the store the sleeper keeps sleeping, tick by tick. -/
theorem Sleeping.run
    {onwards : List Event}
    (sleeping : Sleeping millis passed sleeper)
    (run : Run (Step (fillIrqTable irqHandlers) millis) sleeper onwards next) :
    Sleeping millis (passed + ticks onwards) next := by
  induction run with
  | start =>
      exact sleeping
  | extend _ step inductionHypothesis =>
      have further := inductionHypothesis.step step
      rw [Nat.add_assoc] at further
      rwa [ticks, List.countP_append, List.countP_singleton]

/-- Once the last tick has passed a sleeper that takes two steps returns. -/
theorem Sleeping.stepsLeft_run
    {onwards : List Event}
    (sleeping : Sleeping millis passed sleeper)
    (last : millis.toNat ≤ passed)
    (run : Run (Step (fillIrqTable irqHandlers) millis) sleeper onwards next) :
    next.location.stepsLeft + onwards.countP Event.isMain ≤ 2 := by
  induction run with
  | start =>
      have stored := sleeping.stored
      cases located : sleeper.location with
      | storing =>
          exact absurd located stored
      | _ =>
          simp [Location.stepsLeft]
  | extend earlier step inductionHypothesis =>
      have still := sleeping.run earlier
      have fewer :=
        still.stepsLeft (last.trans (Nat.le_add_right _ _)) step
      rw [List.countP_append, List.countP_singleton]
      omega

/-- What holds while a sleeper sleeps is what `millisleep` promises. -/
theorem Sleeping.sleeps
    (sleeping : Sleeping millis passed sleeper) :
    Sleeps (fillIrqTable irqHandlers) millis passed sleeper where
  countdown := sleeping.countdown
  notEarly := sleeping.notEarly
  notLate := by
    intro last onwards next run enough
    have left := sleeping.stepsLeft_run last run
    have stored := (sleeping.run run).stored
    cases located : next.location with
    | storing =>
        exact absurd located stored
    | returned =>
        rfl
    | _ =>
        rw [located] at left
        simp only [Location.stepsLeft] at left
        omega
  goesOn := by
    intro notHalted notReturned
    obtain ⟨system, location⟩ := sleeper
    cases location with
    | halted =>
        exact absurd rfl notHalted
    | returned =>
        exact absurd rfl notReturned
    | _ =>
        exact ⟨_, .main rfl⟩
  wakes := by
    intro arrived served
    obtain ⟨isLine, early, index⟩ := lineVector_spec arrived.line
    have ends :
        Returns (fillIrqTable irqHandlers)
          { arrived.frame with irq := lineVector arrived.line }
          { sleeper.system with
            chips := sleeper.system.chips.deliver arrived.line } := by
      apply (returns_iff isLine).mpr
      rw [early, index, Ne, fillIrqTable_eq_self_iff]
      tauto
    obtain ⟨fuel, system, returned⟩ := ends
    rw [← sleeping.remapped.vector] at returned
    exact ⟨_, .interrupt ⟨fuel, returned⟩, rfl⟩

end Steps

section Calls

variable {irqHandlers : HandlerTable KernelWorld}
variable {millis : UInt64}
variable {sleeper next : Sleeper}
variable {events : List Event}

/-- A call of `millisleep` once `PIC_enable` has run. -/
def called (chips : Chips) (world : KernelWorld) : Sleeper where
  system := enabled chips world
  location := .storing

/-- `PIC_enable` sets the vectors of the lines. -/
theorem remapped_called
    (chips : Chips)
    (world : KernelWorld) :
    Remapped (called chips world).system.chips := by
  have ready : (called chips world).system.chips = enabledChips :=
    picEnable_spec chips
  rw [ready]
  exact ⟨rfl, rfl⟩

/-- The lines arrive where they did, and every timer interrupt is counted. -/
theorem timerTicks_run
    (remapped : Remapped sleeper.system.chips)
    (run : Run (Step (fillIrqTable irqHandlers) millis) sleeper events next) :
    Remapped next.system.chips ∧
      next.system.world.timerTicks =
        sleeper.system.world.timerTicks + UInt64.ofNat (ticks events) := by
  induction run with
  | start =>
      exact ⟨remapped, by simp [ticks]⟩
  | @extend events state next event _ step inductionHypothesis =>
      obtain ⟨still, counted⟩ := inductionHypothesis
      refine ⟨step.remapped still, ?_⟩
      rw [step.timerTicks still, counted, ticks, ticks, List.countP_append,
        List.countP_singleton]
      cases event.isTick <;> simp [UInt64.add_assoc]

end Calls

/-- A call with ticks to wait for stores them and goes on to the `hlt`. -/
theorem exists_halting
    {millis : UInt64}
    (irqHandlers : HandlerTable KernelWorld)
    (chips : Chips)
    (world : KernelWorld)
    (positive : 0 < millis) :
    ∃ sleeper,
      Run (Step (fillIrqTable irqHandlers) millis) (called chips world)
          [.main, .main] sleeper ∧
        Sleeping millis 0 sleeper ∧ sleeper.location = .halting := by
  have store :
      Step (fillIrqTable irqHandlers) millis (called chips world) .main
        { system :=
            { enabled chips world with
              world := { world with countdown := millis } }
          location := .testing } :=
    .main rfl
  have compare :
      Step (fillIrqTable irqHandlers) millis
        { system :=
            { enabled chips world with
              world := { world with countdown := millis } }
          location := .testing }
        .main
        { system :=
            { enabled chips world with
              world := { world with countdown := millis } }
          location := .halting } :=
    .main (by simp [millisleep, positive])
  have sleeping :=
    sleeping_of_store (remapped_called chips world) rfl store
  exact
    ⟨_, Run.extend (.extend .start store) compare, sleeping.step compare, rfl⟩

/-- From in front of the `hlt` the call goes into it. -/
theorem halt_step
    (irqHandlers : HandlerTable KernelWorld)
    (millis : UInt64)
    {sleeper : Sleeper}
    (located : sleeper.location = .halting) :
    Step irqHandlers millis sleeper .main
      { system := sleeper.system, location := .halted } :=
  .main (by rw [located]; rfl)

section MissedTick

variable {millis : UInt64}
variable {passed : Nat}
variable {sleeper : Sleeper}

/-- Any number of timer interrupts can arrive right before the `hlt`. -/
theorem exists_ticks
    (irqHandlers : HandlerTable KernelWorld)
    (frame : RegsT)
    (count : Nat)
    (sleeping : Sleeping millis passed sleeper)
    (located : sleeper.location = .halting) :
    ∃ next,
      Run (Step (fillIrqTable irqHandlers) millis) sleeper
          (List.replicate count (.interrupt { line := 0, frame := frame }))
          next ∧
        next.location = .halting := by
  induction count with
  | zero =>
      exact ⟨sleeper, .start, located⟩
  | succ count inductionHypothesis =>
      obtain ⟨middle, run, still⟩ := inductionHypothesis
      obtain ⟨next, step, woken⟩ :=
        (sleeping.run run).sleeps.wakes { line := 0, frame := frame }
          (.inl rfl)
      rw [List.replicate_succ']
      refine ⟨next, run.extend step, ?_⟩
      rw [woken, still]
      rfl

/--
However long the sleep, all its timer interrupts can arrive between the
comparison and the `hlt`.  No tick is then left, but the call is in the `hlt`
and has no step of its own.
-/
theorem millisleep_missesItsTicks
    (irqHandlers : HandlerTable KernelWorld)
    (chips : Chips)
    (world : KernelWorld)
    (millis : UInt64)
    (positive : 0 < millis) :
    ∃ events sleeper,
      Run (Step (fillIrqTable irqHandlers) millis) (called chips world)
          events sleeper ∧
        ticks events = millis.toNat ∧
          sleeper.system.world.countdown = 0 ∧
            sleeper.location = .halted ∧
              ¬∃ next,
                Step (fillIrqTable irqHandlers) millis sleeper .main next := by
  obtain ⟨halting, stores, goesOn, located⟩ :=
    exists_halting irqHandlers chips world positive
  obtain ⟨waiting, arrive, still⟩ :=
    exists_ticks irqHandlers zeroFrame millis.toNat goesOn located
  have halt := halt_step (fillIrqTable irqHandlers) millis still
  have halted := (goesOn.run arrive).step halt
  have allTicks :
      ticks
          (List.replicate millis.toNat
            (.interrupt { line := 0, frame := zeroFrame })) =
        millis.toNat := by
    simp [ticks, Event.isTick, List.countP_replicate]
  have run := stores.append (arrive.extend halt)
  refine ⟨_, _, run, ?_, ?_, rfl, ?_⟩
  · simp [ticks, Event.isTick, List.countP_replicate]
  · have counted := halted.countdown
    rw [allTicks] at counted
    apply UInt64.toNat_inj.mp
    simpa [Event.isTick] using counted
  · rintro ⟨next, step⟩
    cases step with
    | main stepped =>
        cases stepped

/-- A sleep of one millisecond that its only tick does not end. -/
theorem millisleep_missesItsTicks_one :
    ∃ events sleeper,
      Run (Step (fillIrqTable fun _ => none) 1)
          (called enabledChips
            { countdown := 0
              timerTicks := 0
              keyboard := Ps2Keyboard.initialKeyboard
              dataPort := 0 })
          events sleeper ∧
        ticks events = 1 ∧
          sleeper.system.world.countdown = 0 ∧
            sleeper.location = .halted ∧
              ¬∃ next,
                Step (fillIrqTable fun _ => none) 1 sleeper .main next :=
  millisleep_missesItsTicks (fun _ => none) enabledChips _ 1 (by decide)

end MissedTick

end Relics.Pit
