import Relics.CountedLoop

namespace Relics.Pic

/-!
# The interrupt controllers and `pic.c`

Each of the two chips has an in-service register, a mask and a vector offset,
and takes the words of its initialisation sequence on its data port.  An
acknowledgement ends the interrupt of highest priority that is in service,
which is the one with the lowest line.
-/

open CountedLoop

/-- The registers of one chip; `awaiting` counts the words it still expects. -/
structure Chip where
  inService : UInt8
  mask : UInt8
  offset : UInt8
  awaiting : Nat
  deriving DecidableEq

/-- `PIC_ACKNOWLEDGE` -/
def picAcknowledgeCommand : UInt8 := 0x20

/-- `ICW1_INIT | ICW1_ICW4` -/
def icw1 : UInt8 := 0x10 ||| 0x01

/-- The bit of a line in the registers of its chip. -/
def lineBit (line : Nat) : UInt8 :=
  1 <<< UInt8.ofNat line

/-- The register without its lowest set bit. -/
def endOfInterrupt (inService : UInt8) : UInt8 :=
  inService &&& (inService - 1)

/-- A write to the command port of a chip. -/
def Chip.command (chip : Chip) (value : UInt8) : Chip :=
  if value &&& 0x10 ≠ 0 then
    { chip with inService := 0, mask := 0, awaiting := 3 }
  else if value = picAcknowledgeCommand then
    { chip with inService := endOfInterrupt chip.inService }
  else
    chip

/-- A write to the data port of a chip: ICW2, ICW3, ICW4, then the mask. -/
def Chip.data (chip : Chip) (value : UInt8) : Chip :=
  match chip.awaiting with
  | 0 => { chip with mask := value }
  | 3 => { chip with offset := value, awaiting := 2 }
  | awaiting + 1 => { chip with awaiting := awaiting }

/-- The two chips; the secondary one is behind line 2 of the primary one. -/
structure Chips where
  primary : Chip
  secondary : Chip
  deriving DecidableEq

namespace Chips

/-- `outb` to the ports of the chips; port 0x80 is only written to wait -/
def outb (chips : Chips) (port : UInt16) (value : UInt8) : Chips :=
  if port = 0x20 then
    { chips with primary := chips.primary.command value }
  else if port = 0x21 then
    { chips with primary := chips.primary.data value }
  else if port = 0xA0 then
    { chips with secondary := chips.secondary.command value }
  else if port = 0xA1 then
    { chips with secondary := chips.secondary.data value }
  else
    chips

/-- `inb` from the data ports of the chips -/
def inb (chips : Chips) (port : UInt16) : UInt8 :=
  if port = 0x21 then
    chips.primary.mask
  else if port = 0xA1 then
    chips.secondary.mask
  else
    0

/-- A line is delivered: its bit, and the one of the cascade, is set. -/
def deliver (chips : Chips) (line : Fin 16) : Chips :=
  if line < 8 then
    { chips with
      primary :=
        { chips.primary with
          inService :=
            chips.primary.inService ||| lineBit line.val } }
  else
    { primary :=
        { chips.primary with
          inService := chips.primary.inService ||| lineBit 2 }
      secondary :=
        { chips.secondary with
          inService :=
            chips.secondary.inService ||| lineBit (line.val - 8) } }

/-- The vector a line arrives with. -/
def vector (chips : Chips) (line : Fin 16) : UInt8 :=
  if line < 8 then
    chips.primary.offset + UInt8.ofNat line.val
  else
    chips.secondary.offset + UInt8.ofNat (line.val - 8)

/-- No interrupt is in service. -/
def NoneInService (chips : Chips) : Prop :=
  chips.primary.inService = 0 ∧ chips.secondary.inService = 0

end Chips

/-- `PIC_remap`, without its calls of `io_wait` -/
def picRemap (chips : Chips) (offset : UInt8) : Chips :=
  let a1 := chips.inb 0x21
  let a2 := chips.inb 0xA1
  let chips := chips.outb 0x20 icw1
  let chips := chips.outb 0xA0 icw1
  let chips := chips.outb 0x21 offset
  let chips := chips.outb 0xA1 (offset + 0x08)
  let chips := chips.outb 0x21 4
  let chips := chips.outb 0xA1 2
  let chips := chips.outb 0x21 0x01
  let chips := chips.outb 0xA1 0x01
  let chips := chips.outb 0x21 a1
  chips.outb 0xA1 a2

/-- `IRQ_clear_mask` -/
def irqClearMask (chips : Chips) (irqLine : UInt8) : Chips :=
  if irqLine < 8 then
    chips.outb 0x21 (chips.inb 0x21 &&& ~~~(1 <<< irqLine))
  else
    chips.outb 0xA1 (chips.inb 0xA1 &&& ~~~(1 <<< (irqLine - 8)))

/-- `IRQ_set_mask` -/
def irqSetMask (chips : Chips) (irqLine : UInt8) : Chips :=
  if irqLine < 8 then
    chips.outb 0x21 (chips.inb 0x21 ||| 1 <<< irqLine)
  else
    chips.outb 0xA1 (chips.inb 0xA1 ||| 1 <<< (irqLine - 8))

/-- `PIC_disable` -/
def picDisable (chips : Chips) : Chips :=
  let chips := chips.outb 0x21 0xff
  chips.outb 0xA1 0xff

/-- `PIC_enable` -/
def picEnable (chips : Chips) : Chips :=
  loop (fun irq chips => irqClearMask chips (UInt8.ofNat irq))
    (picRemap chips 0x20) 16

/-- `PIC_acknowledge` -/
def picAcknowledge (chips : Chips) (interrupt : UInt8) : Chips :=
  let chips :=
    if interrupt ≥ 40 then chips.outb 0xA0 picAcknowledgeCommand else chips
  chips.outb 0x20 picAcknowledgeCommand

/-- The chips as `PIC_enable` leaves them. -/
def enabledChips : Chips where
  primary := { inService := 0, mask := 0, offset := 0x20, awaiting := 0 }
  secondary := { inService := 0, mask := 0, offset := 0x28, awaiting := 0 }

/-- `PIC_remap` sets the offsets and keeps the masks. -/
theorem picRemap_spec (chips : Chips) :
    picRemap chips 0x20 =
      { primary :=
          { inService := 0
            mask := chips.primary.mask
            offset := 0x20
            awaiting := 0 }
        secondary :=
          { inService := 0
            mask := chips.secondary.mask
            offset := 0x28
            awaiting := 0 } } :=
  rfl

/-- Clearing the mask of a line clears its bit on its chip. -/
theorem irqClearMask_loop
    (primary secondary : UInt8) :
    loop (fun irq chips => irqClearMask chips (UInt8.ofNat irq))
        { primary := { enabledChips.primary with mask := primary }
          secondary := { enabledChips.secondary with mask := secondary } }
        16 =
      { primary :=
          { enabledChips.primary with
            mask :=
              loop (fun irq mask => mask &&& ~~~(lineBit irq)) primary 8 }
        secondary :=
          { enabledChips.secondary with
            mask :=
              loop (fun irq mask => mask &&& ~~~(lineBit irq)) secondary 8 } } :=
  rfl

/-- Clearing the bits of all lines of a chip leaves its mask empty. -/
theorem clear_all_lines (mask : UInt8) :
    loop (fun irq mask => mask &&& ~~~(lineBit irq)) mask 8 = 0 := by
  cases mask with
  | ofBitVec bits =>
      cases bits with
      | ofFin value =>
          revert value
          decide +kernel

/-- Whatever the chips held before, `PIC_enable` leaves them enabled. -/
theorem picEnable_spec (chips : Chips) :
    picEnable chips = enabledChips := by
  have cleared :=
    irqClearMask_loop chips.primary.mask chips.secondary.mask
  rw [clear_all_lines, clear_all_lines] at cleared
  rw [picEnable, picRemap_spec]
  exact cleared

end Relics.Pic
