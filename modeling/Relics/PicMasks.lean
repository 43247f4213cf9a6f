import Relics.LabelledRun
import Relics.PicSource

namespace Relics.Pic

/-!
# The lines that the controllers let through

The functions of `pic.c` read the mask of a chip and write it back with one
bit changed, or reset the chips and put the masks back.  Whatever they are
called with and in any order, the controllers let a line through exactly if
the last call that speaks of the line does.
-/

open LabelledRun

/-- A call of a function of `pic.c`, or the interrupt of a line. -/
inductive Action where
  | setMask (line : Fin 16)
  | clearMask (line : Fin 16)
  | enable
  | disable
  | remap (offset : UInt8)
  | acknowledge (interrupt : UInt8)
  | deliver (line : Fin 16)
  deriving DecidableEq

/-- What an action does to the chips -/
def Action.apply (chips : Chips) : Action → Chips
  | setMask line => irqSetMask chips (UInt8.ofNat line.val)
  | clearMask line => irqClearMask chips (UInt8.ofNat line.val)
  | enable => picEnable chips
  | disable => picDisable chips
  | remap offset => picRemap chips offset
  | acknowledge interrupt => picAcknowledge chips interrupt
  | deliver line => chips.deliver line

/-- The mask of its chip has the bit of a line. -/
def Chips.masks (chips : Chips) (line : Fin 16) : Bool :=
  if line.val < 8 then
    chips.primary.mask.toNat.testBit line.val
  else
    chips.secondary.mask.toNat.testBit (line.val - 8)

/-- The line of the primary chip that the secondary one is behind -/
def cascade : Fin 16 :=
  ⟨2, by decide⟩

/-- No mask is between a line and the processor. -/
def Chips.LetsThrough (chips : Chips) (line : Fin 16) : Prop :=
  chips.masks line = false ∧ (8 ≤ line.val → chips.masks cascade = false)

/-- The chips interrupt only with a line that they let through. -/
def Permitted (chips : Chips) : Action → Prop
  | .deliver line => chips.LetsThrough line
  | .remap offset => offset &&& 7 = 0
  | _ => True

/-- The steps of the controllers. -/
def Step : Chips → Action → Chips → Prop :=
  Guarded (fun chips action next => next = action.apply chips) Permitted

/-- Whether an action masks a line, if it speaks of the line at all -/
def Action.masks? (line : Fin 16) : Action → Option Bool
  | setMask other => if other = line then some true else none
  | clearMask other => if other = line then some false else none
  | enable => some false
  | disable => some true
  | _ => none

/-- The offset that an action sets -/
def Action.offset? : Action → Option UInt8
  | enable => some 0x20
  | remap offset => some offset
  | _ => none

section Bits

variable {line other : Nat}

/-- The bit of a line has no other bit. -/
theorem testBit_bit (isLine : line < 8) (isOther : other < 8) :
    (1 <<< UInt8.ofNat line : UInt8).toNat.testBit other =
        decide (line = other) ∧
      (~~~(1 <<< UInt8.ofNat line : UInt8)).toNat.testBit other =
        !decide (line = other) := by
  have checked :
      ∀ line other : Fin 8,
        (1 <<< UInt8.ofNat line.val : UInt8).toNat.testBit other.val =
            decide (line.val = other.val) ∧
          (~~~(1 <<< UInt8.ofNat line.val : UInt8)).toNat.testBit other.val =
            !decide (line.val = other.val) := by
    decide +kernel
  exact checked ⟨line, isLine⟩ ⟨other, isOther⟩

/-- A mask with one more bit -/
theorem testBit_or_bit
    (mask : UInt8)
    (isLine : line < 8)
    (isOther : other < 8) :
    (mask ||| 1 <<< UInt8.ofNat line).toNat.testBit other =
      if line = other then true else mask.toNat.testBit other := by
  rw [UInt8.toNat_or, Nat.testBit_or, (testBit_bit isLine isOther).1]
  by_cases same : line = other
  · simp [same]
  · simp [same]

/-- A mask without one bit -/
theorem testBit_and_not_bit
    (mask : UInt8)
    (isLine : line < 8)
    (isOther : other < 8) :
    (mask &&& ~~~(1 <<< UInt8.ofNat line)).toNat.testBit other =
      if line = other then false else mask.toNat.testBit other := by
  rw [UInt8.toNat_and, Nat.testBit_and, (testBit_bit isLine isOther).2]
  by_cases same : line = other
  · simp [same]
  · simp [same]

/-- The lines behind the cascade, numbered on their own chip -/
theorem line_cases (line : Fin 16) :
    UInt8.ofNat line.val < 8 ∧ line.val < 8 ∨
      ¬ UInt8.ofNat line.val < 8 ∧
        8 ≤ line.val ∧
          line.val - 8 < 8 ∧
            UInt8.ofNat line.val - 8 = UInt8.ofNat (line.val - 8) := by
  revert line
  decide

end Bits

section Steps

/-- The chips expect no word of an initialisation sequence. -/
structure Ready (chips : Chips) : Prop where
  primary : chips.primary.awaiting = 0
  secondary : chips.secondary.awaiting = 0
  consecutive : chips.secondary.offset = chips.primary.offset + 8

variable {chips : Chips}

/-- Setting or clearing a mask rewrites the mask of one chip. -/
theorem Ready.outb_data (ready : Ready chips) :
    (∀ value,
        chips.outb 0x21 value =
          { chips with primary := { chips.primary with mask := value } }) ∧
      ∀ value,
        chips.outb 0xA1 value =
          { chips with
            secondary := { chips.secondary with mask := value } } := by
  have primary := ready.primary
  have secondary := ready.secondary
  constructor
  · intro value
    simp [Chips.outb, Chip.data, primary]
  · intro value
    simp [Chips.outb, Chip.data, secondary]

/-- A change of the mask on the chip of a line -/
def Chips.mapMask
    (chips : Chips)
    (line : Fin 16)
    (change : UInt8 → Nat → UInt8) :
    Chips :=
  if line.val < 8 then
    { chips with
      primary :=
        { chips.primary with mask := change chips.primary.mask line.val } }
  else
    { chips with
      secondary :=
        { chips.secondary with
          mask := change chips.secondary.mask (line.val - 8) } }

/-- `IRQ_set_mask` adds a bit to the mask of one chip. -/
theorem Ready.irqSetMask_eq
    (ready : Ready chips)
    (line : Fin 16) :
    irqSetMask chips (UInt8.ofNat line.val) =
      chips.mapMask line fun mask bit => mask ||| 1 <<< UInt8.ofNat bit := by
  obtain ⟨toPrimary, toSecondary⟩ := ready.outb_data
  rcases line_cases line with ⟨onPrimary, below⟩ | ⟨notPrimary, above, _, same⟩
  · rw [irqSetMask, if_pos onPrimary, Chips.mapMask, if_pos below]
    exact toPrimary _
  · rw [irqSetMask, if_neg notPrimary, Chips.mapMask,
      if_neg (Nat.not_lt_of_le above), same]
    exact toSecondary _

/-- `IRQ_clear_mask` takes a bit from the mask of one chip. -/
theorem Ready.irqClearMask_eq
    (ready : Ready chips)
    (line : Fin 16) :
    irqClearMask chips (UInt8.ofNat line.val) =
      chips.mapMask line fun mask bit => mask &&& ~~~(1 <<< UInt8.ofNat bit) := by
  obtain ⟨toPrimary, toSecondary⟩ := ready.outb_data
  rcases line_cases line with ⟨onPrimary, below⟩ | ⟨notPrimary, above, _, same⟩
  · rw [irqClearMask, if_pos onPrimary, Chips.mapMask, if_pos below]
    exact toPrimary _
  · rw [irqClearMask, if_neg notPrimary, Chips.mapMask,
      if_neg (Nat.not_lt_of_le above), same]
    exact toSecondary _

/-- A change of one bit of the mask is a change for one line. -/
theorem masks_mapMask
    {change : UInt8 → Nat → UInt8}
    {value : Bool}
    (changes :
      ∀ (mask : UInt8) {line other : Nat},
        line < 8 →
        other < 8 →
        (change mask line).toNat.testBit other =
          if line = other then value else mask.toNat.testBit other)
    (line other : Fin 16) :
    (chips.mapMask line change).masks other =
      if line.val = other.val then value else chips.masks other := by
  have bound := line.isLt
  have otherBound := other.isLt
  unfold Chips.mapMask Chips.masks
  by_cases onPrimary : line.val < 8
  · by_cases otherPrimary : other.val < 8
    · simp only [onPrimary, otherPrimary, ↓reduceIte]
      exact changes _ onPrimary otherPrimary
    · have apart : line.val ≠ other.val := by
        omega
      simp only [onPrimary, otherPrimary, apart, ↓reduceIte]
  · by_cases otherPrimary : other.val < 8
    · have apart : line.val ≠ other.val := by
        omega
      simp only [onPrimary, otherPrimary, apart, ↓reduceIte]
    · have same : line.val - 8 = other.val - 8 ↔ line.val = other.val := by
        omega
      simp only [onPrimary, otherPrimary, ↓reduceIte, ← same]
      exact changes _ (by omega) (by omega)

/-- It changes nothing else. -/
theorem Ready.mapMask
    (ready : Ready chips)
    (line : Fin 16)
    (change : UInt8 → Nat → UInt8) :
    Ready (chips.mapMask line change) ∧
      (chips.mapMask line change).primary.offset = chips.primary.offset := by
  obtain ⟨primary, secondary, consecutive⟩ := ready
  unfold Chips.mapMask
  split
  · exact ⟨⟨primary, secondary, consecutive⟩, rfl⟩
  · exact ⟨⟨primary, secondary, consecutive⟩, rfl⟩

/-- What is in service has to do with neither the masks nor the offsets. -/
def Chips.serving (chips : Chips) (primary secondary : UInt8) : Chips where
  primary := { chips.primary with inService := primary }
  secondary := { chips.secondary with inService := secondary }

/-- An interrupt changes what is in service only. -/
theorem deliver_eq_serving (chips : Chips) (line : Fin 16) :
    ∃ primary secondary,
      chips.deliver line = chips.serving primary secondary := by
  unfold Chips.deliver
  split
  · exact ⟨_, chips.secondary.inService, rfl⟩
  · exact ⟨_, _, rfl⟩

/-- An acknowledgement changes what is in service only. -/
theorem picAcknowledge_eq_serving (chips : Chips) (interrupt : UInt8) :
    ∃ primary secondary,
      picAcknowledge chips interrupt = chips.serving primary secondary := by
  unfold picAcknowledge
  split
  · exact ⟨_, _, rfl⟩
  · exact ⟨_, chips.secondary.inService, rfl⟩

/-- `PIC_remap` sets the offsets and puts the masks back. -/
theorem picRemap_eq (chips : Chips) (offset : UInt8) :
    picRemap chips offset =
      { primary :=
          { inService := 0
            mask := chips.primary.mask
            offset := offset
            awaiting := 0 }
        secondary :=
          { inService := 0
            mask := chips.secondary.mask
            offset := offset + 8
            awaiting := 0 } } :=
  rfl

/-- Each action does what it tells about the lines and the offset. -/
theorem Ready.apply
    (ready : Ready chips)
    (action : Action) :
    Ready (action.apply chips) ∧
      (∀ line,
        (action.apply chips).masks line =
          (action.masks? line).getD (chips.masks line)) ∧
      (action.apply chips).primary.offset =
        action.offset?.getD chips.primary.offset := by
  cases action with
  | setMask line =>
      rw [Action.apply, ready.irqSetMask_eq]
      obtain ⟨ready', offset⟩ := ready.mapMask line _
      refine ⟨ready', fun other => ?_, offset⟩
      rw [masks_mapMask fun mask _ _ => testBit_or_bit mask]
      simp only [Action.masks?, Fin.ext_iff]
      split
      · rfl
      · rfl
  | clearMask line =>
      rw [Action.apply, ready.irqClearMask_eq]
      obtain ⟨ready', offset⟩ := ready.mapMask line _
      refine ⟨ready', fun other => ?_, offset⟩
      rw [masks_mapMask fun mask _ _ => testBit_and_not_bit mask]
      simp only [Action.masks?, Fin.ext_iff]
      split
      · rfl
      · rfl
  | enable =>
      rw [Action.apply, picEnable_spec]
      refine ⟨⟨rfl, rfl, rfl⟩, fun line => ?_, rfl⟩
      change enabledChips.masks line = false
      revert line
      decide
  | disable =>
      have toPrimary := ready.outb_data.1 0xff
      have ready' : Ready (chips.outb 0x21 0xff) := by
        rw [toPrimary]
        exact ⟨ready.primary, ready.secondary, ready.consecutive⟩
      rw [Action.apply, picDisable, ready'.outb_data.2, toPrimary]
      refine
        ⟨⟨ready.primary, ready.secondary, ready.consecutive⟩, fun line => ?_,
          rfl⟩
      change
        (if line.val < 8 then (0xff : UInt8).toNat.testBit line.val
          else (0xff : UInt8).toNat.testBit (line.val - 8)) = true
      revert line
      decide
  | remap offset =>
      rw [Action.apply, picRemap_eq]
      exact ⟨⟨rfl, rfl, rfl⟩, fun _ => rfl, rfl⟩
  | acknowledge interrupt =>
      obtain ⟨primary, secondary, same⟩ :=
        picAcknowledge_eq_serving chips interrupt
      rw [Action.apply, same]
      exact
        ⟨⟨ready.primary, ready.secondary, ready.consecutive⟩, fun _ => rfl,
          rfl⟩
  | deliver line =>
      obtain ⟨primary, secondary, same⟩ := deliver_eq_serving chips line
      rw [Action.apply, same]
      exact
        ⟨⟨ready.primary, ready.secondary, ready.consecutive⟩, fun _ => rfl,
          rfl⟩

end Steps

section Runs

variable {chips final : Chips}
variable {actions : List Action}

/-- The lines of both chips arrive one behind the other. -/
theorem Ready.vector
    (ready : Ready chips)
    (line : Fin 16) :
    chips.vector line = chips.primary.offset + UInt8.ofNat line.val := by
  unfold Chips.vector
  split
  · rfl
  · case _ behind =>
      have numbered : 8 + UInt8.ofNat (line.val - 8) = UInt8.ofNat line.val := by
        revert line
        decide
      rw [ready.consecutive, UInt8.add_assoc, numbered]

/-- From `PIC_enable` on the chips are ready between any two actions. -/
theorem ready_run
    (run : Run Step (picEnable chips) actions final) :
    Ready final := by
  refine run.preserves Ready ?_ ?_
  · rw [picEnable_spec]
    exact ⟨rfl, rfl, rfl⟩
  · intro state action next ready step
    obtain ⟨-, rfl⟩ := step
    exact (ready.apply action).1

/-- The last action that speaks of a line decides whether it is masked. -/
theorem masks_run
    (run : Run Step (picEnable chips) actions final)
    (line : Fin 16) :
    final.masks line = latest (Action.masks? line) false actions := by
  have initially : (picEnable chips).masks line = false := by
    rw [picEnable_spec]
    revert line
    decide
  rw [← initially]
  apply run.view_eq_latest
  intro earlier state action next reached step
  obtain ⟨-, rfl⟩ := step
  exact ((ready_run reached).apply action).2.1 line

/-- The last action that sets the offset decides where the lines arrive. -/
theorem vector_run
    (run : Run Step (picEnable chips) actions final)
    (line : Fin 16) :
    final.vector line =
      latest Action.offset? 0x20 actions + UInt8.ofNat line.val := by
  have initially : (picEnable chips).primary.offset = 0x20 := by
    rw [picEnable_spec]
    rfl
  rw [(ready_run run).vector, ← initially]
  congr 1
  apply run.view_eq_latest
  intro earlier state action next reached step
  obtain ⟨-, rfl⟩ := step
  exact ((ready_run reached).apply action).2.2

/-- The last actions let a line through. -/
def Through (actions : List Action) (line : Fin 16) : Prop :=
  latest (Action.masks? line) false actions = false ∧
    (8 ≤ line.val → latest (Action.masks? cascade) false actions = false)

/-- The controllers let a line through if the last actions do. -/
theorem letsThrough_run
    (run : Run Step (picEnable chips) actions final)
    (line : Fin 16) :
    final.LetsThrough line ↔ Through actions line := by
  rw [Chips.LetsThrough, masks_run run line, masks_run run cascade]
  rfl

end Runs

/--
After `PIC_enable`, whatever is called and whatever interrupts: a line is let
through exactly if the last calls that speak of it and of the cascade before
it unmask them, it arrives at its number behind the last offset, and no line
has interrupted that was not let through then.
-/
theorem controllers_letThrough
    (chips : Chips)
    (actions : List Action)
    (final : Chips)
    (run : Run Step (picEnable chips) actions final) :
    (∀ line, final.LetsThrough line ↔ Through actions line) ∧
      (∀ line,
        final.vector line =
          latest Action.offset? 0x20 actions + UInt8.ofNat line.val) ∧
      ∀ earlier line later,
        actions = earlier ++ .deliver line :: later →
        Through earlier line := by
  refine ⟨letsThrough_run run, vector_run run, ?_⟩
  rintro earlier line later rfl
  have split :
      earlier ++ .deliver line :: later = earlier ++ [.deliver line] ++ later := by
    simp
  rw [split] at run
  obtain ⟨_, upTo, -⟩ := run.exists_middle
  obtain ⟨before, reached, permitted, -⟩ := upTo.exists_last
  exact (letsThrough_run reached line).mp permitted

/-- The cascade is masked, the keyboard line interrupts, and all is remapped. -/
theorem controllers_letThrough_keyboard :
    let actions : List Action :=
      [.setMask cascade, .deliver ⟨1, by decide⟩, .remap 0x40]
    ∃ final,
      Run Step (picEnable enabledChips) actions final ∧
        ¬ final.LetsThrough ⟨12, by decide⟩ ∧
          final.vector ⟨1, by decide⟩ = 0x41 := by
  have run :
      Run Step (picEnable enabledChips)
        ([] ++ [.setMask cascade] ++ [.deliver ⟨1, by decide⟩] ++
          [.remap 0x40])
        _ :=
    .extend (.extend (.extend .start ⟨trivial, rfl⟩)
      ⟨⟨by decide, by decide⟩, rfl⟩) ⟨rfl, rfl⟩
  obtain ⟨letsThrough, vectors, -⟩ :=
    controllers_letThrough enabledChips _ _ run
  refine ⟨_, run, ?_, (vectors ⟨1, by decide⟩).trans (by decide)⟩
  rw [letsThrough, Through]
  decide

end Relics.Pic
