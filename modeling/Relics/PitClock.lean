import Mathlib.Order.Bounds.Basic
import Relics.PitChannel
import Relics.PitSleep

namespace Relics.Pit

/-!
# How long a sleep lasts, in clocks of the timer

The timer runs on between the steps of `millisleep` and the interrupts, and
its interrupt is taken only when line 0 is requested.  A request that is not
taken before the next one is lost.  The sleep ends with the last of its ticks
at the earliest, so it is up to a period shorter than its ticks, and shorter
by one more if a request was waiting when it began.
-/

open Interrupt LabelledRun Pic

section Runs

/-- A call of `millisleep` and the timer. -/
structure Timed where
  sleeper : Sleeper
  channel : Channel

/-- A clock of the timer, or an event of the call. -/
inductive TimedEvent where
  | clock
  | call (event : Event)

namespace TimedEvent

/-- The event of the call, if it is one -/
def event? : TimedEvent → Option Event
  | .clock => none
  | .call event => some event

/-- The event is a clock. -/
def isClock : TimedEvent → Bool
  | .clock => true
  | .call _ => false

/-- The event is a timer interrupt. -/
def isTick : TimedEvent → Bool
  | .clock => false
  | .call event => event.isTick

end TimedEvent

/-- The clocks among some events -/
def clocks (events : List TimedEvent) : Nat :=
  events.countP TimedEvent.isClock

/-- The timer interrupt takes the request. -/
def Channel.taken (channel : Channel) (event : Event) : Channel :=
  if event.isTick then { channel with requested := false } else channel

/-- One step of the interleaving with the timer. -/
inductive TimedStep
    (irqHandlers : HandlerTable KernelWorld)
    (millis : UInt64) :
    Timed → TimedEvent → Timed → Prop where
  | clock
      {timed : Timed} :
      TimedStep irqHandlers millis timed .clock
        { timed with channel := timed.channel.clock }
  | call
      {timed : Timed}
      {event : Event}
      {sleeper : Sleeper}
      (due : event.isTick = true → timed.channel.requested = true)
      (step : Step irqHandlers millis timed.sleeper event sleeper) :
      TimedStep irqHandlers millis timed (.call event)
        { sleeper := sleeper
          channel := timed.channel.taken event }

variable {irqHandlers : HandlerTable KernelWorld}
variable {millis : UInt64}
variable {length : Nat}
variable {timed next : Timed}
variable {events : List TimedEvent}

/-- A run with the timer is a run of the call. -/
theorem sleeper_run
    (run : Run (TimedStep irqHandlers millis) timed events next) :
    Run (Step irqHandlers millis) timed.sleeper
      (events.filterMap TimedEvent.event?) next.sleeper := by
  apply run.project Timed.sleeper TimedEvent.event?
  · intro state action next unseen step
    cases step with
    | clock =>
        rfl
    | call due step =>
        cases unseen
  · intro state action next event seen step
    cases step with
    | clock =>
        cases seen
    | call due step =>
        cases seen
        exact step

theorem ticks_filterMap (events : List TimedEvent) :
    ticks (events.filterMap TimedEvent.event?) =
      events.countP TimedEvent.isTick := by
  induction events with
  | nil =>
      rfl
  | cons event events inductionHypothesis =>
      cases event with
      | clock =>
          exact inductionHypothesis
      | call event =>
          have sameLater :
              ticks (event :: events.filterMap TimedEvent.event?) =
                events.countP TimedEvent.isTick +
                  if event.isTick = true then 1 else 0 := by
            rw [ticks] at inductionHypothesis ⊢
            rw [List.countP_cons, inductionHypothesis]
          rw [List.countP_cons]
          exact sameLater

/-- The requests that wait: none or one -/
def Channel.waiting (channel : Channel) : Nat :=
  if channel.requested then 1 else 0

/--
What is known of the timer after some events: no more requests were raised
than periods ended, and only a channel that no clock has reached is loading.
-/
structure Counted
    (length : Nat)
    (initial : Channel)
    (taken passed : Nat)
    (channel : Channel) :
    Prop where
  running : channel.Running length
  raised :
    (taken + channel.waiting) * length + initial.untilRise ≤
      passed + initial.waiting * length + channel.untilRise
  loaded :
    channel.untilRise ≤ length ∨
      passed = 0 ∧ channel.untilRise = initial.untilRise

theorem Counted.start
    (running : timed.channel.Running length) :
    Counted length timed.channel 0 0 timed.channel :=
  ⟨running, by rw [Nat.zero_add, Nat.zero_add], .inr ⟨rfl, rfl⟩⟩

theorem Counted.clock
    {initial channel : Channel}
    {taken passed : Nat}
    (counted : Counted length initial taken passed channel)
    (two : 2 ≤ length) :
    Counted length initial taken (passed + 1) channel.clock := by
  obtain ⟨running, closer, loaded⟩ := counted.running.clock two
  have raised := counted.raised
  refine ⟨running, ?_, .inl loaded⟩
  rcases closer with ⟨nearer, same⟩ | ⟨rises, again, requested⟩
  · rw [Channel.waiting, same, ← Channel.waiting]
    omega
  · have waits : channel.waiting ≤ 1 := by
      unfold Channel.waiting
      split
      · exact Nat.le_refl 1
      · exact Nat.zero_le 1
    have more :
        (taken + 1) * length ≤ (taken + channel.waiting) * length + length := by
      rw [Nat.add_mul, Nat.add_mul, Nat.one_mul]
      omega
    rw [Channel.waiting, if_pos requested]
    omega

theorem Counted.event
    {initial channel : Channel}
    {taken passed : Nat}
    {event : Event}
    (counted : Counted length initial taken passed channel)
    (due : event.isTick = true → channel.requested = true) :
    Counted length initial (taken + if event.isTick then 1 else 0) passed
      (channel.taken event) := by
  by_cases tick : event.isTick = true
  · have raised := counted.raised
    rw [Channel.waiting, if_pos (due tick)] at raised
    rw [if_pos tick, Channel.taken, if_pos tick]
    exact
      ⟨⟨counted.running.reload, counted.running.counts⟩, raised,
        counted.loaded⟩
  · rw [if_neg tick, Channel.taken, if_neg tick]
    exact counted

theorem counted_run
    (two : 2 ≤ length)
    (running : timed.channel.Running length)
    (run : Run (TimedStep irqHandlers millis) timed events next) :
    Counted length timed.channel (events.countP TimedEvent.isTick)
      (clocks events) next.channel := by
  induction run with
  | start =>
      exact .start running
  | @extend events state next event _ step inductionHypothesis =>
      cases step with
      | clock =>
          have counted := inductionHypothesis.clock two
          simpa [clocks, TimedEvent.isTick, TimedEvent.isClock] using counted
      | call due step =>
          rw [clocks, List.countP_append, List.countP_append,
            List.countP_singleton, List.countP_singleton]
          exact inductionHypothesis.event due

/-- A sleep takes the clocks to its last tick. -/
theorem clocks_of_returned
    (two : 2 ≤ length)
    (running : timed.channel.Running length)
    (sleeping : Sleeping millis 0 timed.sleeper)
    (long : timed.channel.waiting < millis.toNat)
    (run :
      Run (TimedStep (fillIrqTable irqHandlers) millis) timed events next)
    (returned : next.sleeper.location = .returned) :
    timed.channel.untilRise +
        (millis.toNat - 1 - timed.channel.waiting) * length ≤
      clocks events := by
  have slept := (sleeping.run (sleeper_run run)).notEarly returned
  rw [ticks_filterMap, Nat.zero_add] at slept
  obtain ⟨-, raised, loaded⟩ := counted_run two running run
  have split :
      millis.toNat * length =
        (millis.toNat - 1 - timed.channel.waiting) * length +
          (timed.channel.waiting + 1) * length := by
    rw [← Nat.add_mul]
    congr 1
    omega
  have enough :
      millis.toNat * length ≤
        (events.countP TimedEvent.isTick + next.channel.waiting) * length :=
    Nat.mul_le_mul_right length (by omega)
  have oneMore :
      (timed.channel.waiting + 1) * length =
        timed.channel.waiting * length + length := by
    rw [Nat.add_mul, Nat.one_mul]
  rcases loaded with loaded | ⟨none, same⟩
  · omega
  · have few :
        millis.toNat * length ≤ timed.channel.waiting * length := by
      omega
    have atMost := Nat.le_of_mul_le_mul_right few (by omega)
    omega

end Runs

section Shortest

variable {irqHandlers : HandlerTable KernelWorld}
variable {millis : UInt64}
variable {length passed : Nat}
variable {timed : Timed}

/-- With clocks alone the output rises, and line 0 is requested. -/
theorem exists_rise
    (two : 2 ≤ length)
    (running : timed.channel.Running length) :
    ∃ channel : Channel,
      Run (TimedStep irqHandlers millis) timed
          (List.replicate timed.channel.untilRise .clock)
          { timed with channel := channel } ∧
        channel.Running length ∧ channel.untilRise = length ∧
          channel.requested = true := by
  generalize distance : timed.channel.untilRise = untilRise
  induction untilRise generalizing timed with
  | zero =>
      have positive := running.untilRise_pos
      omega
  | succ untilRise inductionHypothesis =>
      obtain ⟨still, closer, -⟩ := running.clock two
      have first :
          Run (TimedStep irqHandlers millis) timed ([] ++ [.clock])
            { timed with channel := timed.channel.clock } :=
        .extend .start .clock
      rcases closer with ⟨nearer, -⟩ | ⟨last, again, requested⟩
      · let clocked : Timed := { timed with channel := timed.channel.clock }
        have stillRunning : clocked.channel.Running length := still
        have fewer : clocked.channel.untilRise = untilRise :=
          Nat.succ_injective (nearer.symm.trans distance)
        obtain ⟨channel, onwards, rises⟩ :=
          inductionHypothesis stillRunning fewer
        exact ⟨channel, first.append onwards, rises⟩
      · have none : untilRise = 0 := by
          omega
        subst none
        exact ⟨timed.channel.clock, first, still, again, requested⟩

/-- A call that is about to compare, with no request waiting. -/
structure Resting
    (millis : UInt64)
    (length passed : Nat)
    (timed : Timed) :
    Prop where
  running : timed.channel.Running length
  sleeping : Sleeping millis passed timed.sleeper
  located : timed.sleeper.location = .testing
  served : timed.channel.requested = false

/-- A request can be served at once. -/
theorem exists_tick
    (running : timed.channel.Running length)
    (sleeping : Sleeping millis passed timed.sleeper)
    (located : timed.sleeper.location = .testing)
    (requested : timed.channel.requested = true) :
    ∃ next,
      Run (TimedStep (fillIrqTable irqHandlers) millis) timed
          [.call (.interrupt { line := 0, frame := zeroFrame })] next ∧
        Resting millis length (passed + 1) next ∧
          next.channel.untilRise = timed.channel.untilRise := by
  obtain ⟨sleeper, step, woken⟩ :=
    sleeping.sleeps.wakes { line := 0, frame := zeroFrame } (.inl rfl)
  have taken :
      Run (TimedStep (fillIrqTable irqHandlers) millis) timed
        ([] ++ [.call (.interrupt { line := 0, frame := zeroFrame })]) _ :=
    .extend .start (.call (fun _ => requested) step)
  rw [located] at woken
  exact
    ⟨_, taken,
      ⟨⟨running.reload, running.counts⟩, sleeping.step step, woken, rfl⟩,
      rfl⟩

/-- The next tick can come as soon as the output rises. -/
theorem Resting.exists_next
    (two : 2 ≤ length)
    (resting : Resting millis length passed timed) :
    ∃ events next,
      Run (TimedStep (fillIrqTable irqHandlers) millis) timed events next ∧
        Resting millis length (passed + 1) next ∧
          next.channel.untilRise = length ∧
            clocks events = timed.channel.untilRise := by
  obtain ⟨channel, waits, running, again, requested⟩ :=
    exists_rise two resting.running
  let risen : Timed := { timed with channel := channel }
  have sleeping : Sleeping millis passed risen.sleeper := resting.sleeping
  obtain ⟨next, tick, rested, distance⟩ :=
    exists_tick running sleeping resting.located requested
  refine ⟨_, next, waits.append tick, rested, distance.trans again, ?_⟩
  simp [clocks, TimedEvent.isClock, List.countP_replicate]

/-- Ticks can come one period after the other. -/
theorem Resting.exists_ticks
    (two : 2 ≤ length)
    (resting : Resting millis length passed timed)
    (count : Nat) :
    ∃ events next,
      Run (TimedStep (fillIrqTable irqHandlers) millis) timed events next ∧
        Resting millis length (passed + (count + 1)) next ∧
          next.channel.untilRise = length ∧
            clocks events = timed.channel.untilRise + count * length := by
  induction count with
  | zero =>
      simpa using resting.exists_next two
  | succ count inductionHypothesis =>
      obtain ⟨earlier, middle, run, rested, distance, lasted⟩ :=
        inductionHypothesis
      obtain ⟨later, next, onwards, restedAgain, again, more⟩ :=
        rested.exists_next two
      refine ⟨earlier ++ later, next, run.append onwards, restedAgain, again,
        ?_⟩
      rw [clocks, List.countP_append, ← clocks, ← clocks, lasted, more,
        distance, Nat.add_mul, Nat.one_mul, Nat.add_assoc]

/-- A call whose last tick has passed can return at once. -/
theorem Resting.exists_return
    (resting : Resting millis length passed timed)
    (last : millis.toNat ≤ passed) :
    ∃ next,
      Run (TimedStep (fillIrqTable irqHandlers) millis) timed
          [.call .main] next ∧
        next.sleeper.location = .returned := by
  have zero : ¬0 < timed.sleeper.system.world.countdown := by
    rw [UInt64.lt_iff_toNat_lt, resting.sleeping.countdown]
    exact Nat.not_lt.mpr (Nat.le_of_eq (Nat.sub_eq_zero_of_le last))
  have step :
      Step (fillIrqTable irqHandlers) millis timed.sleeper .main
        { system := timed.sleeper.system, location := .returned } :=
    .main (by rw [resting.located, millisleep, if_neg zero])
  have taken :
      Run (TimedStep (fillIrqTable irqHandlers) millis) timed
        ([] ++ [.call .main]) _ :=
    .extend .start (.call (fun tick => by cases tick) step)
  exact ⟨_, taken, rfl⟩

/-- A sleep can end with its last tick, if that comes as soon as it can. -/
theorem exists_shortest
    (two : 2 ≤ length)
    (running : timed.channel.Running length)
    (sleeping : Sleeping millis 0 timed.sleeper)
    (located : timed.sleeper.location = .testing)
    (long : timed.channel.waiting < millis.toNat) :
    ∃ events next,
      Run (TimedStep (fillIrqTable irqHandlers) millis) timed events next ∧
        next.sleeper.location = .returned ∧
          clocks events =
            timed.channel.untilRise +
              (millis.toNat - 1 - timed.channel.waiting) * length := by
  obtain ⟨waiting, rested, served, resting, distance, none⟩ :
      ∃ events next,
        Run (TimedStep (fillIrqTable irqHandlers) millis) timed events next ∧
          Resting millis length timed.channel.waiting next ∧
            next.channel.untilRise = timed.channel.untilRise ∧
              clocks events = 0 := by
    cases requested : timed.channel.requested with
    | true =>
        obtain ⟨next, tick, resting, distance⟩ :=
          exists_tick running sleeping located requested
        refine ⟨_, next, tick, ?_, distance, rfl⟩
        rw [Channel.waiting, if_pos requested]
        exact resting
    | false =>
        refine ⟨[], timed, .start, ?_, rfl, rfl⟩
        rw [Channel.waiting, if_neg (by simp [requested])]
        exact ⟨running, sleeping, located, requested⟩
  obtain ⟨sleepingOn, last, ticks, slept, -, lasted⟩ :=
    resting.exists_ticks two (millis.toNat - 1 - timed.channel.waiting)
  obtain ⟨final, returns, returned⟩ := slept.exists_return (by omega)
  refine ⟨_, final, (served.append ticks).append returns, returned, ?_⟩
  rw [clocks, List.countP_append, List.countP_append, ← clocks, ← clocks,
    none, lasted, distance, Nat.zero_add]
  rfl

theorem located_of_store
    {sleeper next : Sleeper}
    (located : sleeper.location = .storing)
    (step : Step irqHandlers millis sleeper .main next) :
    next.location = .testing := by
  cases step with
  | main stepped =>
      rw [located] at stepped
      cases stepped
      rfl

/-- The lines arrive where they did. -/
theorem remapped_run
    {events : List TimedEvent}
    {next : Timed}
    (run :
      Run (TimedStep (fillIrqTable irqHandlers) millis) timed events next)
    (remapped : Remapped timed.sleeper.system.chips) :
    Remapped next.sleeper.system.chips :=
  (timerTicks_run remapped (sleeper_run run)).1

/-- The channel of a run stays the one that `reprogram_timer` started. -/
theorem running_run
    {events : List TimedEvent}
    {next : Timed}
    (two : 2 ≤ length)
    (running : timed.channel.Running length)
    (run : Run (TimedStep irqHandlers millis) timed events next) :
    next.channel.Running length :=
  (counted_run two running run).running

/--
After `reprogram_timer`, and whatever has happened since, the clocks from the
store of `millisleep` to its return are at least those to the last of its
ticks: the clocks to the next rise of the output and a period for each
further tick, less one if a request was waiting.  Some run takes exactly so
many, and the rate is the one asked for exactly from 19 Hz on.
-/
theorem millisleep_clocks
    (irqHandlers : HandlerTable KernelWorld)
    (chips : Chips)
    (world : KernelWorld)
    (millis : UInt64)
    (hz : UInt16)
    (timer timer' : Timer)
    (reprogrammed : reprogramTimer timer hz = some timer')
    {earlier : List TimedEvent}
    {timed stored : Timed}
    (run :
      Run (TimedStep (fillIrqTable irqHandlers) millis)
        { sleeper := called chips world, channel := timer'.channel }
        earlier timed)
    (located : timed.sleeper.location = .storing)
    (store :
      TimedStep (fillIrqTable irqHandlers) millis timed (.call .main) stored)
    (long : stored.channel.waiting < millis.toNat) :
    IsLeast
        { count |
          ∃ later final,
            Run (TimedStep (fillIrqTable irqHandlers) millis) stored later
                final ∧
              final.sleeper.location = .returned ∧ clocks later = count }
        (stored.channel.untilRise +
          (millis.toNat - 1 - stored.channel.waiting) * period hz) ∧
      (period hz * hz.toNat ≤ pitFrequency ∧
          pitFrequency < (period hz + 1) * hz.toNat ↔
        19 ≤ hz.toNat) := by
  obtain ⟨positive, started⟩ := running_reprogrammed reprogrammed
  have two := two_le_period positive
  have running : stored.channel.Running (period hz) :=
    running_run two started (run.extend store)
  have remapped : Remapped timed.sleeper.system.chips :=
    remapped_run run (remapped_called chips world)
  have stores :
      Step (fillIrqTable irqHandlers) millis timed.sleeper .main
        stored.sleeper := by
    cases store with
    | call due step =>
        exact step
  have sleeping := sleeping_of_store remapped located stores
  have testing := located_of_store located stores
  refine ⟨⟨?_, ?_⟩, period_exact_iff positive⟩
  · exact exists_shortest two running sleeping testing long
  · rintro count ⟨later, final, onwards, returned, rfl⟩
    exact clocks_of_returned two running sleeping long onwards returned

/-- The timer as the firmware may leave it, and as it runs at 1000 Hz -/
def firmwareTimer : Timer where
  channel :=
    { out := true
      low := none
      reload := 65536
      counter := .counting 65536
      requested := false }
  enabled := false

def fastTimer : Timer where
  channel :=
    { out := true
      low := none
      reload := 1193
      counter := .loading
      requested := false }
  enabled := true

/-- A call that is about to sleep for a second, and that has just begun to -/
def beforeSecond : Timed where
  sleeper :=
    called enabledChips
      { countdown := 0
        timerTicks := 0
        keyboard := Ps2Keyboard.initialKeyboard
        dataPort := 0 }
  channel := fastTimer.channel

def secondBegun : Timed where
  sleeper :=
    { system :=
        enabled enabledChips
          { countdown := 1000
            timerTicks := 0
            keyboard := Ps2Keyboard.initialKeyboard
            dataPort := 0 }
      location := .testing }
  channel := fastTimer.channel

/-- The shortest second at 1000 Hz has 1193001 clocks, not 1193182. -/
theorem millisleep_clocks_second :
    IsLeast
      { count |
        ∃ later final,
          Run (TimedStep (fillIrqTable fun _ => none) 1000) secondBegun later
              final ∧
            final.sleeper.location = .returned ∧ clocks later = count }
      1193001 := by
  have reprogrammed : reprogramTimer firmwareTimer 1000 = some fastTimer :=
    reprogramTimer_eq firmwareTimer (by decide)
  have store :
      TimedStep (fillIrqTable fun _ => none) 1000 beforeSecond (.call .main)
        secondBegun :=
    .call (fun tick => by cases tick) (.main rfl)
  exact
    (millisleep_clocks (fun _ => none) enabledChips _ 1000 1000 firmwareTimer
      fastTimer reprogrammed .start rfl store (by decide)).1

end Shortest

end Relics.Pit
