import Mathlib.Data.Nat.Basic

namespace Relics.Pit

/-!
# Channel 0 of the timer and `reprogram_timer`

`reprogram_timer` divides the clocks of a second by the rate it is asked for
and writes the low 16 bits of the quotient to channel 0, which then requests
line 0 once in so many clocks.  The quotient fits from 19 Hz on.
-/

section Source

/-- `PIT_FREQUENCY` -/
def pitFrequency : Nat := 1193182

/-- Where the counter of the channel stands. -/
inductive Counter where
  /-- not both bytes of the count have been written -/
  | stopped
  /-- the count is loaded at the next clock -/
  | loading
  | counting (remaining : Nat)
  deriving DecidableEq

/-- Channel 0, and the request of line 0 that the controller holds. -/
structure Channel where
  out : Bool
  low : Option UInt8
  reload : Nat
  counter : Counter
  requested : Bool
  deriving DecidableEq

/-- The command for channel 0 to count both bytes in binary for a square wave -/
def isSquareWave (command : UInt8) : Bool :=
  command >>> 6 = 0 ∧ (command >>> 4) &&& 3 = 3 ∧ (command >>> 1) &&& 3 = 3 ∧
    command &&& 1 = 0

/-- The count that two bytes stand for -/
def countOf (low high : UInt8) : Nat :=
  let count := 256 * high.toNat + low.toNat
  if count = 0 then 65536 else count

/-- `outb` to the ports of the channel; its output rises with a new command -/
def Channel.outb
    (channel : Channel)
    (port : UInt16)
    (value : UInt8) :
    Channel :=
  if port = 0x43 then
    if isSquareWave value then
      { channel with
        out := true
        low := none
        counter := .stopped
        requested := channel.requested || !channel.out }
    else
      channel
  else if port = 0x40 then
    match channel.low with
    | none => { channel with low := some value }
    | some low =>
        { channel with
          low := none
          reload := countOf low value
          counter := .loading }
  else
    channel

/--
One clock: the output is high for the first half of a period and low for the
second, and line 0 is requested when it rises.
-/
def Channel.clock (channel : Channel) : Channel :=
  match channel.counter with
  | .stopped => channel
  | .loading => { channel with counter := .counting channel.reload }
  | .counting remaining =>
      let remaining :=
        if remaining ≤ 1 then channel.reload else remaining - 1
      let out := decide (channel.reload / 2 < remaining)
      { channel with
        out := out
        counter := .counting remaining
        requested := channel.requested || (!channel.out && out) }

/-- The timer and the `enabled` of `pit.c` -/
structure Timer where
  channel : Channel
  enabled : Bool
  deriving DecidableEq

/-- `PIT_enabled` -/
def pitEnabled (timer : Timer) : Bool :=
  timer.enabled

/-- The division of the processor; a division by 0 is a fault -/
def divide (dividend divisor : Nat) : Option Nat :=
  if divisor = 0 then none else some (dividend / divisor)

/-- `reprogram_timer`, without what it prints -/
def reprogramTimer (timer : Timer) (hz : UInt16) : Option Timer := do
  let quotient ← divide pitFrequency hz.toNat
  let divisor := UInt16.ofNat quotient
  let commandByte : UInt8 := 0
  if hz = 0 then
    some timer
  else
    let commandByte := commandByte ||| (0 : UInt8) <<< 0
    let commandByte := commandByte ||| (3 : UInt8) <<< 1
    let commandByte := commandByte ||| (3 : UInt8) <<< 4
    let commandByte := commandByte ||| (0 : UInt8) <<< 6
    let channel := timer.channel.outb 0x43 commandByte
    let channel := channel.outb 0x40 (divisor &&& 0xFF).toUInt8
    let channel := channel.outb 0x40 (divisor >>> 8).toUInt8
    some { channel := channel, enabled := true }

end Source

section Periods

/-- The clocks between two requests after `reprogram_timer` -/
def period (hz : UInt16) : Nat :=
  let count := pitFrequency / hz.toNat % 65536
  if count = 0 then 65536 else count

theorem countOf_bytes (divisor : UInt16) :
    countOf (divisor &&& 0xFF).toUInt8 (divisor >>> 8).toUInt8 =
      if divisor.toNat = 0 then 65536 else divisor.toNat := by
  have low : (divisor &&& 0xFF).toUInt8.toNat = divisor.toNat % 256 := by
    rw [UInt16.toNat_toUInt8, UInt16.toNat_and]
    have masked : divisor.toNat &&& 255 = divisor.toNat % 2 ^ 8 :=
      Nat.and_two_pow_sub_one_eq_mod divisor.toNat 8
    change (divisor.toNat &&& 255) % 256 = _
    rw [masked]
    omega
  have high : (divisor >>> 8).toUInt8.toNat = divisor.toNat / 256 := by
    have bounded := divisor.toNat_lt
    rw [UInt16.toNat_toUInt8, UInt16.toNat_shiftRight]
    change divisor.toNat >>> 8 % 256 = _
    rw [Nat.shiftRight_eq_div_pow]
    omega
  have whole :
      256 * (divisor.toNat / 256) + divisor.toNat % 256 = divisor.toNat := by
    omega
  simp only [countOf, low, high, whole]

/-- The command and the two bytes restart the channel. -/
theorem outb_count
    (channel : Channel)
    (low high : UInt8) :
    ((channel.outb 0x43 0x36).outb 0x40 low).outb 0x40 high =
      { out := true
        low := none
        reload := countOf low high
        counter := .loading
        requested := channel.requested || !channel.out } :=
  rfl

/-- A rate of 0 is a division by 0, before it is compared with 0. -/
theorem reprogramTimer_zero (timer : Timer) :
    reprogramTimer timer 0 = none :=
  rfl

/-- The channel restarts with the period of the rate. -/
theorem reprogramTimer_eq
    (timer : Timer)
    {hz : UInt16}
    (positive : hz ≠ 0) :
    reprogramTimer timer hz =
      some
        { channel :=
            { out := true
              low := none
              reload := period hz
              counter := .loading
              requested := timer.channel.requested || !timer.channel.out }
          enabled := true } := by
  have divisor : hz.toNat ≠ 0 := by
    intro zero
    exact positive (UInt16.toNat_inj.mp zero)
  have reload := countOf_bytes (UInt16.ofNat (pitFrequency / hz.toNat))
  rw [UInt16.toNat_ofNat'] at reload
  have quotient :
      divide pitFrequency hz.toNat = some (pitFrequency / hz.toNat) :=
    if_neg divisor
  simp only [reprogramTimer, quotient, Option.bind_eq_bind, Option.bind_some,
    if_neg positive]
  have command :
      (0 : UInt8) ||| (0 : UInt8) <<< 0 ||| (3 : UInt8) <<< 1 |||
          (3 : UInt8) <<< 4 ||| (0 : UInt8) <<< 6 =
        0x36 :=
    rfl
  rw [command, outb_count, reload]
  rfl

/-- The rate is what was asked for, rounded up, from 19 Hz on. -/
theorem period_exact_iff
    {hz : UInt16}
    (positive : hz ≠ 0) :
    (period hz * hz.toNat ≤ pitFrequency ∧
        pitFrequency < (period hz + 1) * hz.toNat) ↔
      19 ≤ hz.toNat := by
  have nonzero : hz.toNat ≠ 0 := by
    intro zero
    exact positive (UInt16.toNat_inj.mp zero)
  have divisor : 0 < hz.toNat := Nat.pos_of_ne_zero nonzero
  have bounded := hz.toNat_lt
  constructor
  · rintro ⟨lower, upper⟩
    have quotient : pitFrequency / hz.toNat = period hz :=
      Nat.div_eq_of_lt_le lower upper
    have fits : period hz ≤ 65536 := by
      simp only [period]
      split
      · exact Nat.le_refl _
      · exact Nat.le_of_lt (Nat.mod_lt _ (by decide))
    by_contra slow
    have long : pitFrequency / 18 ≤ pitFrequency / hz.toNat :=
      Nat.div_le_div_left (by omega) divisor
    rw [quotient, pitFrequency] at long
    omega
  · intro fast
    have fits : pitFrequency / hz.toNat ≤ pitFrequency / 19 :=
      Nat.div_le_div_left fast (by decide)
    have counts : 0 < pitFrequency / hz.toNat :=
      Nat.div_pos (by rw [pitFrequency]; omega) divisor
    have exact : period hz = pitFrequency / hz.toNat := by
      rw [pitFrequency] at fits counts
      rw [period, pitFrequency, Nat.mod_eq_of_lt (by omega)]
      exact if_neg (Nat.ne_of_gt counts)
    rw [exact]
    exact
      ⟨Nat.div_mul_le_self _ _,
        Nat.lt_mul_of_div_lt (Nat.lt_succ_self _) divisor⟩

end Periods

section Clocks

/-- The channel counts periods of a length. -/
structure Channel.Running (length : Nat) (channel : Channel) : Prop where
  reload : channel.reload = length
  counts :
    (channel.counter = .loading ∧ channel.out = true) ∨
      ∃ remaining,
        channel.counter = .counting remaining ∧
          1 ≤ remaining ∧ remaining ≤ length ∧
            channel.out = decide (length / 2 < remaining)

/-- The clocks until the output rises -/
def Channel.untilRise (channel : Channel) : Nat :=
  match channel.counter with
  | .stopped => 0
  | .loading => channel.reload + 1
  | .counting remaining => remaining

variable {length : Nat}
variable {channel : Channel}

/-- A clock brings the output closer to its rise, or is the one it rises at. -/
structure Channel.Clocked (length : Nat) (channel next : Channel) : Prop where
  running : next.Running length
  closer :
    (channel.untilRise = next.untilRise + 1 ∧
        next.requested = channel.requested) ∨
      (channel.untilRise = 1 ∧ next.untilRise = length ∧
        next.requested = true)
  loaded : next.untilRise ≤ length

theorem Channel.Running.clock
    (running : channel.Running length)
    (two : 2 ≤ length) :
    channel.Clocked length channel.clock := by
  obtain ⟨reload, ⟨loading, high⟩ | ⟨remaining, counting, low, upper, level⟩⟩ :=
    running
  · refine ⟨⟨?_, .inr ⟨length, ?_, by omega, Nat.le_refl _, ?_⟩⟩, .inl ?_, ?_⟩
    · simp only [Channel.clock, loading, reload]
    · simp only [Channel.clock, loading, reload]
    · simp only [Channel.clock, loading, high]
      symm
      exact decide_eq_true (by omega)
    · simp only [Channel.clock, Channel.untilRise, loading, and_self]
    · simp only [Channel.clock, Channel.untilRise, loading, reload,
        Nat.le_refl]
  · by_cases last : remaining = 1
    · subst last
      have fell : channel.out = false := by
        rw [level]
        exact decide_eq_false (by omega)
      have rises : length / 2 < length := by
        omega
      refine ⟨⟨?_, .inr ⟨length, ?_, by omega, Nat.le_refl _, ?_⟩⟩, .inr ?_,
        ?_⟩
      · simp only [Channel.clock, counting, reload]
      · simp only [Channel.clock, counting, reload, Nat.le_refl, ↓reduceIte]
      · simp only [Channel.clock, counting, reload, Nat.le_refl, ↓reduceIte]
      · simp [Channel.clock, Channel.untilRise, counting, reload, fell, rises]
      · simp [Channel.clock, Channel.untilRise, counting, reload]
    · have more : ¬remaining ≤ 1 := by
        omega
      have noRise :
          (!channel.out && decide (length / 2 < remaining - 1)) = false := by
        rw [level]
        by_cases high : length / 2 < remaining
        · simp [high]
        · have still : ¬length / 2 < remaining - 1 := by
            omega
          simp [still]
      refine ⟨⟨?_, .inr ⟨remaining - 1, ?_, by omega, by omega, ?_⟩⟩, .inl ?_,
        ?_⟩
      · simp only [Channel.clock, counting, reload]
      · simp only [Channel.clock, counting, more, ↓reduceIte]
      · simp only [Channel.clock, counting, more, ↓reduceIte, reload]
      · simp only [Channel.clock, Channel.untilRise, counting, more,
          ↓reduceIte, reload, noRise, Bool.or_false, and_true]
        omega
      · simp only [Channel.clock, Channel.untilRise, counting, more,
          ↓reduceIte]
        omega

/-- The output of a running channel always has clocks to rise. -/
theorem Channel.Running.untilRise_pos
    (running : channel.Running length) :
    1 ≤ channel.untilRise := by
  obtain ⟨-, ⟨loading, -⟩ | ⟨remaining, counting, low, -, -⟩⟩ := running
  · rw [Channel.untilRise, loading]
    exact Nat.le_add_left 1 _
  · rw [Channel.untilRise, counting]
    exact low

theorem two_le_period
    {hz : UInt16}
    (positive : hz ≠ 0) :
    2 ≤ period hz := by
  have slow :
      ∀ n < 19,
        n ≠ 0 →
        2 ≤
          (if pitFrequency / n % 65536 = 0 then 65536
            else pitFrequency / n % 65536) := by
    decide
  by_cases fast : 19 ≤ hz.toNat
  · have exact := (period_exact_iff positive).mpr fast
    have bounded := hz.toNat_lt
    by_contra short
    have fewClocks : (period hz + 1) * hz.toNat ≤ 2 * 65536 :=
      Nat.mul_le_mul (by omega) (by omega)
    exact absurd (Nat.lt_of_lt_of_le exact.2 fewClocks) (by decide)
  · have nonzero : hz.toNat ≠ 0 := by
      intro zero
      exact positive (UInt16.toNat_inj.mp zero)
    exact slow hz.toNat (by omega) nonzero

theorem running_reprogrammed
    {timer timer' : Timer}
    {hz : UInt16}
    (reprogrammed : reprogramTimer timer hz = some timer') :
    hz ≠ 0 ∧ timer'.channel.Running (period hz) := by
  have positive : hz ≠ 0 := by
    rintro rfl
    rw [reprogramTimer_zero] at reprogrammed
    cases reprogrammed
  rw [reprogramTimer_eq timer positive] at reprogrammed
  cases reprogrammed
  exact ⟨positive, rfl, .inl ⟨rfl, rfl⟩⟩

end Clocks

end Relics.Pit
