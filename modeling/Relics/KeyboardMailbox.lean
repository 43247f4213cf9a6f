import Relics.KeyboardSource
import Relics.LabelledRun

namespace Relics.Ps2Keyboard

/-!
# The mailbox between the keyboard interrupt and the polling loop

`getchark` polls the mailbox with interrupts enabled, and
`get_most_recent_char` reads it in one step and clears it in the next.  A key
that arrives between the two steps is cleared unread.  Every other order of
steps delivers the characters one by one, as long as each interrupt is
followed by a whole call of `get_most_recent_char` before the next.
-/

open LabelledRun

/-- Where the polling loop of `getchark` stands. -/
inductive Location where
  /-- about to call `get_most_recent_char` -/
  | calling
  /-- in that call, after the read of the mailbox -/
  | holding (tmp : UInt8)
  /-- about to compare the result with NUL -/
  | testing (c : UInt8)
  deriving DecidableEq

/-- The loop stands between the read and the clear. -/
def Location.holds : Location → Bool
  | .holding _ => true
  | _ => false

/-- A keyboard interrupt or a step of the polling loop. -/
inductive Event where
  | interrupt (scanCode : UInt8)
  | read
  | clear
  | test
  deriving DecidableEq

/-- The driver, the polling loop and the characters on either side of it. -/
structure System where
  keyboard : Keyboard
  location : Location
  /-- the characters other than NUL that the interrupts produced -/
  produced : List UInt8
  /-- the characters `getchark` returned -/
  returned : List UInt8
  deriving DecidableEq

/-- No key was pressed and `getchark` is about to poll. -/
def start : System where
  keyboard := initialKeyboard
  location := .calling
  produced := []
  returned := []

/-- A character as a sequence, empty for NUL. -/
def written (c : UInt8) : List UInt8 :=
  if c = 0 then [] else [c]

@[simp]
theorem written_zero :
    written 0 = [] :=
  rfl

/--
One step of the interleaving.  `getchark` polls again after a NUL; it
returns any other character, and its caller calls it again.
-/
def step? (system : System) : Event → Option System
  | .interrupt scanCode =>
      some { system with
        keyboard := kbdIrqHandler system.keyboard scanCode
        produced :=
          system.produced ++ written (handled system.keyboard scanCode) }
  | .read =>
      match system.location with
      | .calling =>
          some { system with
            location := .holding (readMostRecentChar system.keyboard) }
      | _ => none
  | .clear =>
      match system.location with
      | .holding tmp =>
          some { system with
            keyboard := clearMostRecentChar system.keyboard
            location := .testing tmp }
      | _ => none
  | .test =>
      match system.location with
      | .testing c =>
          some { system with
            location := .calling
            returned := system.returned ++ written c }
      | _ => none

/-- The steps as a relation. -/
def Step (system : System) (event : Event) (next : System) : Prop :=
  step? system event = some next

/-- An event determines the step it takes. -/
theorem step_functional
    {system next next' : System}
    {event : Event}
    (taken : Step system event next)
    (taken' : Step system event next') :
    next = next' :=
  Option.some.inj (taken.symm.trans taken')

/-- Only a waiting loop reads the mailbox. -/
theorem step_read
    {system next : System}
    (taken : Step system .read next) :
    system.location = .calling ∧
      next = { system with
        location := .holding system.keyboard.mostRecentChar } := by
  simp only [Step, step?] at taken
  split at taken
  · case _ atCall =>
      exact ⟨atCall, (Option.some.inj taken).symm⟩
  · cases taken

/-- Only a loop that holds a character clears the mailbox. -/
theorem step_clear
    {system next : System}
    (taken : Step system .clear next) :
    ∃ tmp,
      system.location = .holding tmp ∧
      next = { system with
        keyboard := clearMostRecentChar system.keyboard
        location := .testing tmp } := by
  simp only [Step, step?] at taken
  split at taken
  · case _ tmp held =>
      exact ⟨tmp, held, (Option.some.inj taken).symm⟩
  · cases taken

/-- Only a call that has returned is tested. -/
theorem step_test
    {system next : System}
    (taken : Step system .test next) :
    ∃ c,
      system.location = .testing c ∧
      next = { system with
        location := .calling
        returned := system.returned ++ written c } := by
  simp only [Step, step?] at taken
  split at taken
  · case _ c tested =>
      exact ⟨c, tested, (Option.some.inj taken).symm⟩
  · cases taken

section Spacing

/-- The event is an interrupt. -/
def Event.isInterrupt : Event → Bool
  | .interrupt _ => true
  | _ => false

/-- The event at an index is an interrupt. -/
def InterruptAt (events : List Event) (index : Nat) : Prop :=
  events[index]?.any Event.isInterrupt = true

/-- Between two indices a call of `get_most_recent_char` starts and finishes. -/
def PolledBetween (events : List Event) (first second : Nat) : Prop :=
  ∃ finish < second, ∃ begin < finish,
    first < begin ∧
    events[begin]? = some .read ∧
    events[finish]? = some .clear

instance (events : List Event) (first second : Nat) :
    Decidable (PolledBetween events first second) :=
  inferInstanceAs (Decidable (∃ finish < second, ∃ begin < finish, _))

/-- Between any two interrupts a call starts and finishes. -/
def Spaced (events : List Event) : Prop :=
  ∀ second < events.length, ∀ first < second,
    InterruptAt events first →
    InterruptAt events second →
    PolledBetween events first second

instance (events : List Event) : Decidable (Spaced events) :=
  inferInstanceAs
    (Decidable
      (∀ second < events.length, ∀ first < second,
        events[first]?.any Event.isInterrupt = true →
        events[second]?.any Event.isInterrupt = true →
        PolledBetween events first second))

/-- After every interrupt a call has started and finished. -/
def Settled (events : List Event) : Prop :=
  ∀ first < events.length,
    InterruptAt events first →
    PolledBetween events first events.length

/-- Earlier events stay where they are when one more is appended. -/
theorem getElem?_concat_of_lt
    {events : List Event}
    {index : Nat}
    (event : Event)
    (inside : index < events.length) :
    (events ++ [event])[index]? = events[index]? :=
  List.getElem?_append_left inside

/-- A spaced sequence was spaced before its last event. -/
theorem Spaced.init
    {events : List Event}
    {event : Event}
    (spaced : Spaced (events ++ [event])) :
    Spaced events := by
  intro second inside first before firstIs secondIs
  have firstInside : first < events.length := by
    omega
  obtain ⟨finish, finishBefore, begin, beginBefore, after, readAt, clearAt⟩ :=
    spaced second (by simp; omega) first before
      (by simpa [InterruptAt, getElem?_concat_of_lt event firstInside] using firstIs)
      (by simpa [InterruptAt, getElem?_concat_of_lt event inside] using secondIs)
  rw [getElem?_concat_of_lt event (by omega)] at readAt clearAt
  exact ⟨finish, finishBefore, begin, beginBefore, after, readAt, clearAt⟩

/-- The next interrupt of a spaced sequence finds every earlier one polled. -/
theorem Spaced.settled
    {events : List Event}
    {scanCode : UInt8}
    (spaced : Spaced (events ++ [.interrupt scanCode])) :
    Settled events := by
  intro first inside firstIs
  obtain ⟨finish, finishBefore, begin, beginBefore, after, readAt, clearAt⟩ :=
    spaced events.length (by simp) first inside
      (by simpa [InterruptAt, getElem?_concat_of_lt _ inside] using firstIs)
      (by simp [InterruptAt, Event.isInterrupt])
  rw [getElem?_concat_of_lt _ (by omega)] at readAt clearAt
  exact ⟨finish, finishBefore, begin, beginBefore, after, readAt, clearAt⟩

/-- No call has followed an interrupt that has just arrived. -/
theorem not_settled_interrupt
    (events : List Event)
    (scanCode : UInt8) :
    ¬ Settled (events ++ [.interrupt scanCode]) := by
  intro settled
  obtain ⟨finish, finishBefore, begin, beginBefore, after, -, -⟩ :=
    settled events.length (by simp) (by simp [InterruptAt, Event.isInterrupt])
  simp only [List.length_append, List.length_singleton] at finishBefore
  omega

/-- Only the end of a call settles the interrupts before it. -/
theorem Settled.init
    {events : List Event}
    {event : Event}
    (settled : Settled (events ++ [event]))
    (continues : event ≠ .clear) :
    Settled events := by
  intro first inside firstIs
  obtain ⟨finish, finishBefore, begin, beginBefore, after, readAt, clearAt⟩ :=
    settled first (by simp; omega)
      (by simpa [InterruptAt, getElem?_concat_of_lt event inside] using firstIs)
  have notLast : finish ≠ events.length := by
    rintro rfl
    rw [List.getElem?_concat_length] at clearAt
    exact continues (Option.some.inj clearAt)
  simp only [List.length_append, List.length_singleton] at finishBefore
  rw [getElem?_concat_of_lt event (by omega)] at readAt clearAt
  exact ⟨finish, by omega, begin, beginBefore, after, readAt, clearAt⟩

end Spacing

section Delivery

/-- The characters in flight between the interrupts and the caller. -/
def carried : Location → List UInt8
  | .calling => []
  | .holding tmp => written tmp
  | .testing c => written c

/-- The characters that `getchark` will still return if no key arrives. -/
def pending (system : System) : List UInt8 :=
  match system.location with
  | .holding tmp => written tmp
  | location => carried location ++ written system.keyboard.mostRecentChar

/-- What holds after the events of a spaced and undisturbed run. -/
structure Kept (events : List Event) (system : System) : Prop where
  balance : system.produced = system.returned ++ pending system
  mailbox :
    Settled events →
    system.keyboard.mostRecentChar = 0
  held :
    Settled events →
    ∀ tmp, system.location = .holding tmp → tmp = 0

/--
The condition on a step: no key with a character arrives between the read
and the clear of `get_most_recent_char`.
-/
def Undisturbed (system : System) : Event → Prop
  | .interrupt scanCode => system.location.holds = true → Silent scanCode
  | _ => True

instance
    (system : System) :
    (event : Event) →
    Decidable (Undisturbed system event)
  | .interrupt scanCode =>
      inferInstanceAs
        (Decidable (system.location.holds = true → Silent scanCode))
  | .read => .isTrue trivial
  | .clear => .isTrue trivial
  | .test => .isTrue trivial

theorem kept_start :
    Kept [] start where
  balance := rfl
  mailbox _ := rfl
  held _ _ holding := nomatch holding

namespace Kept

variable
    {events : List Event}
    {system next : System}
    {scanCode : UInt8}

/-- An interrupt finds the mailbox empty and leaves its character there. -/
theorem interrupt
    (kept : Kept events system)
    (spaced : Spaced (events ++ [.interrupt scanCode]))
    (undisturbed : Undisturbed system (.interrupt scanCode))
    (taken : Step system (.interrupt scanCode) next) :
    Kept (events ++ [.interrupt scanCode]) next := by
  obtain rfl := Option.some.inj taken
  have empty := kept.mailbox spaced.settled
  have unsettled := not_settled_interrupt events scanCode
  refine ⟨?_, fun settled => absurd settled unsettled,
    fun settled => absurd settled unsettled⟩
  have balance := kept.balance
  cases located : system.location with
  | calling =>
      simp [pending, carried, located, empty] at balance ⊢
      exact balance
  | holding tmp =>
      have nothing : handled system.keyboard scanCode = 0 :=
        (handled_eq_zero system.keyboard scanCode).mpr
          (undisturbed (by rw [located]; rfl))
      simp [pending, located, nothing] at balance ⊢
      exact balance
  | testing c =>
      simp [pending, carried, located, empty] at balance ⊢
      rw [balance, List.append_assoc]

/-- The read takes the character of the mailbox along. -/
theorem read
    (kept : Kept events system)
    (taken : Step system .read next) :
    Kept (events ++ [.read]) next := by
  obtain ⟨located, rfl⟩ := step_read taken
  have balance := kept.balance
  refine ⟨?_, fun settled => ?_, fun settled tmp holding => ?_⟩
  · simpa [pending, carried, located] using balance
  · exact kept.mailbox (settled.init (by simp))
  · obtain rfl := Location.holding.inj holding
    exact kept.mailbox (settled.init (by simp))

/-- The clear leaves the character that was read with the loop. -/
theorem clear
    (kept : Kept events system)
    (taken : Step system .clear next) :
    Kept (events ++ [.clear]) next := by
  obtain ⟨tmp, located, rfl⟩ := step_clear taken
  have balance := kept.balance
  refine ⟨?_, fun _ => rfl, fun _ _ holding => nomatch holding⟩
  simpa [pending, carried, located] using balance

/-- The test returns the character, or polls again after a NUL. -/
theorem test
    (kept : Kept events system)
    (taken : Step system .test next) :
    Kept (events ++ [.test]) next := by
  obtain ⟨c, located, rfl⟩ := step_test taken
  have balance := kept.balance
  refine ⟨?_, fun settled => ?_, fun _ _ holding => nomatch holding⟩
  · simpa [pending, carried, located] using balance
  · exact kept.mailbox (settled.init (by simp))

end Kept

/-- Every state of a spaced and undisturbed run is kept. -/
theorem run_kept
    {events : List Event}
    {final : System}
    (run : Run (Guarded Step Undisturbed) start events final)
    (spaced : Spaced events) :
    Kept events final := by
  induction run with
  | start =>
      exact kept_start
  | @extend events system next event _ last inductionHypothesis =>
      have kept := inductionHypothesis spaced.init
      obtain ⟨undisturbed, taken⟩ := last
      cases event with
      | interrupt scanCode =>
          exact kept.interrupt spaced undisturbed taken
      | read =>
          exact kept.read taken
      | clear =>
          exact kept.clear taken
      | test =>
          exact kept.test taken

/-- A poll starts and finishes in a sequence of events. -/
def Polls (events : List Event) : Prop :=
  ∃ before between after,
    events = before ++ .read :: between ++ .test :: after

/--
Nothing is lost or duplicated: the returned characters are a prefix of the
produced ones, and a poll returns everything produced before it.
-/
def Delivered (events : List Event) (final : System) : Prop :=
  final.returned <+: final.produced ∧
    ∀ earlier later middle,
      events = earlier ++ later →
      Run Step start earlier middle →
      Polls later →
      middle.produced <+: final.returned

/-- A step moves characters only towards the caller. -/
theorem step_forward
    {system next : System}
    {event : Event}
    {characters : List UInt8}
    (inFlight : characters <+: system.returned ++ carried system.location)
    (taken : Step system event next) :
    characters <+: next.returned ++ carried next.location := by
  cases event with
  | interrupt scanCode =>
      obtain rfl := Option.some.inj taken
      exact inFlight
  | read =>
      obtain ⟨located, rfl⟩ := step_read taken
      rw [located] at inFlight
      simp only [carried, List.append_nil] at inFlight
      exact inFlight.trans (List.prefix_append _ _)
  | clear =>
      obtain ⟨tmp, located, rfl⟩ := step_clear taken
      rwa [located] at inFlight
  | test =>
      obtain ⟨c, located, rfl⟩ := step_test taken
      rw [located] at inFlight
      simpa [carried] using inFlight

/-- What was on its way to the caller stays on its way or arrives. -/
theorem run_forward
    {system final : System}
    {events : List Event}
    {characters : List UInt8}
    (inFlight : characters <+: system.returned ++ carried system.location)
    (run : Run Step system events final) :
    characters <+: final.returned ++ carried final.location :=
  run.preserves
    (fun state => characters <+: state.returned ++ carried state.location)
    inFlight step_forward

/-- A step only adds to the produced and to the returned characters. -/
theorem step_histories
    {system next : System}
    {event : Event}
    (taken : Step system event next) :
    system.produced <+: next.produced ∧ system.returned <+: next.returned := by
  cases event with
  | interrupt scanCode =>
      obtain rfl := Option.some.inj taken
      exact ⟨List.prefix_append _ _, List.prefix_refl _⟩
  | read =>
      obtain ⟨-, rfl⟩ := step_read taken
      exact ⟨List.prefix_refl _, List.prefix_refl _⟩
  | clear =>
      obtain ⟨tmp, -, rfl⟩ := step_clear taken
      exact ⟨List.prefix_refl _, List.prefix_refl _⟩
  | test =>
      obtain ⟨c, -, rfl⟩ := step_test taken
      exact ⟨List.prefix_refl _, List.prefix_append _ _⟩

/-- A run only adds to the produced and to the returned characters. -/
theorem run_histories
    {system final : System}
    {events : List Event}
    (run : Run Step system events final) :
    system.produced <+: final.produced ∧ system.returned <+: final.returned := by
  refine run.preserves
    (fun state =>
      system.produced <+: state.produced ∧ system.returned <+: state.returned)
    ⟨List.prefix_refl _, List.prefix_refl _⟩ ?_
  intro state event next before taken
  have after := step_histories taken
  exact ⟨before.1.trans after.1, before.2.trans after.2⟩

/-- The first events of a spaced sequence are spaced. -/
theorem Spaced.of_append
    {earlier later : List Event}
    (spaced : Spaced (earlier ++ later)) :
    Spaced earlier := by
  induction later using List.reverseRecOn with
  | nil =>
      simpa using spaced
  | append_singleton later event inductionHypothesis =>
      rw [← List.append_assoc] at spaced
      exact inductionHypothesis spaced.init

/-- A poll returns everything that was produced when it read the mailbox. -/
theorem poll_returns
    {earlier between after : List Event}
    {reading final : System}
    (kept : Kept earlier reading)
    (run : Run Step reading (.read :: between ++ .test :: after) final) :
    reading.produced <+: final.returned := by
  have split :
      Event.read :: between ++ .test :: after =
        [.read] ++ (between ++ ([.test] ++ after)) := by
    simp
  rw [split] at run
  obtain ⟨held, first, run⟩ := run.exists_middle
  obtain ⟨tested, middle, run⟩ := run.exists_middle
  obtain ⟨polled, last, rest⟩ := run.exists_middle
  obtain ⟨located, rfl⟩ := step_read first.single
  have balance := kept.balance
  simp only [pending, carried, located, List.nil_append] at balance
  have inFlight :
      reading.produced <+: tested.returned ++ carried tested.location :=
    run_forward (by simp [carried, balance]) middle
  obtain ⟨c, testing, rfl⟩ := step_test last.single
  simp only [carried, testing] at inFlight
  exact inFlight.trans (run_histories rest).2

/--
In every run whose interrupts are spaced and whose steps are undisturbed,
nothing is lost or duplicated.
-/
theorem delivered_of_undisturbed
    {events : List Event}
    {final : System}
    (run : Run (Guarded Step Undisturbed) start events final)
    (spaced : Spaced events) :
    Delivered events final := by
  constructor
  · rw [(run_kept run spaced).balance]
    exact List.prefix_append _ _
  · intro earlier later middle split toMiddle polls
    obtain ⟨before, between, after, rfl⟩ := polls
    have atRead :
        events =
          (earlier ++ before) ++ (.read :: between ++ .test :: after) := by
      simp [split]
    rw [atRead] at run spaced
    obtain ⟨reading, toReading, rest⟩ := run.exists_middle
    have kept := run_kept toReading spaced.of_append
    have returned := poll_returns kept rest.of_guarded
    obtain ⟨middle', toMiddle', onwards⟩ := toReading.of_guarded.exists_middle
    obtain rfl := toMiddle.deterministic step_functional toMiddle'
    exact (run_histories onwards).1.trans returned

/-- Two keys, with the release of the first between a read and a clear. -/
def twoKeys : List Event :=
  [.interrupt 0x1E, .read, .clear, .test, .read, .interrupt 0x9E, .clear,
    .test, .read, .clear, .interrupt 0x30, .test, .read, .clear, .test]

/-- Where the run ends: three interrupts have toggled `char_pressed_state`. -/
def afterTwoKeys : System where
  keyboard := { initialKeyboard with charPressedState := true }
  location := .calling
  produced := ['a'.toUInt8, 'b'.toUInt8]
  returned := ['a'.toUInt8, 'b'.toUInt8]

/-- The two keys are delivered. -/
theorem delivered_twoKeys :
    Delivered twoKeys afterTwoKeys := by
  have accepted :
      twoKeys.foldlM
        (fun system event =>
          if Undisturbed system event then step? system event else none)
        start = some afterTwoKeys := by
    decide +kernel
  have run : Run (Guarded Step Undisturbed) start twoKeys afterTwoKeys :=
    Run.guarded_of_foldlM accepted
  have spaced : Spaced twoKeys := by
    decide +kernel
  exact delivered_of_undisturbed run spaced

end Delivery

section LostKey

/-- The key A arrives between the read and the clear, the key B after the call. -/
def lostKey : List Event :=
  [.read, .interrupt 0x1E, .clear, .test, .read, .clear, .test,
    .interrupt 0x30, .read, .clear, .test]

/-- Both keys were pressed and only the second one is returned. -/
theorem lostKey_returns :
    ∃ final,
      Run Step start lostKey final ∧
      Spaced lostKey ∧
      final.produced = ['a'.toUInt8, 'b'.toUInt8] ∧
      final.returned = ['b'.toUInt8] ∧
      ¬ final.returned <+: final.produced := by
  refine ⟨_, Run.of_foldlM rfl, by decide +kernel, rfl, rfl, by decide⟩

end LostKey

end Relics.Ps2Keyboard
