import Mathlib.Algebra.Group.Nat.Defs
import Mathlib.Logic.Function.Basic

namespace Relics.Gdt

/-!
# The segment descriptors of `gdt.c`

`fill_gdt_descriptor_item` writes an entry of the table field by field, and
`set_several_bits` writes a field bit by bit.  The loop counts with `short`,
the mask `1 << i` is an `int`, and everything else has 64 bits.
-/

/-- `GDT_MAX_ENTRIES` -/
abbrev gdtMaxEntries : Nat := 8192

/-- `gdt_descriptors` -/
abbrev GdtDescriptors := Fin gdtMaxEntries → UInt64

/-- The shift count that a `short` gives a 64-bit operand. -/
def shiftCount (count : Int16) : UInt64 :=
  count.toInt64.toUInt64

/-- `1 << i`, an `int` converted to the type of the pattern -/
def bitMask (i : Int16) : UInt64 :=
  ((1 : Int32) <<< i.toInt32).toInt64.toUInt64

/-- `set_bit_value` -/
def setBitValue
    (number : UInt64)
    (bit : Int16)
    (value : UInt64) :
    UInt64 :=
  number ||| value <<< shiftCount bit

/-- The loop of `set_several_bits` -/
def setSeveralBitsFrom
    (num : UInt64)
    (idxInclusive idxExclusive i : Int16)
    (pattern : UInt64) :
    UInt64 :=
  if idxInclusive < idxExclusive then
    setSeveralBitsFrom
      (setBitValue num idxInclusive
        ((pattern &&& bitMask i) >>> shiftCount i))
      (idxInclusive + 1) idxExclusive (i + 1) pattern
  else
    num
termination_by (idxExclusive.toInt - idxInclusive.toInt).toNat
decreasing_by
  rename_i before
  have ordered : idxInclusive.toInt < idxExclusive.toInt :=
    Int16.lt_iff_toInt_lt.mp before
  have upper : idxExclusive.toInt < 2 ^ 15 := idxExclusive.toInt_lt
  have lower : -2 ^ 15 ≤ idxInclusive.toInt := idxInclusive.le_toInt
  have next : (idxInclusive + 1).toInt = idxInclusive.toInt + 1 := by
    rw [Int16.toInt_add, Int16.toInt_one]
    exact Int.bmod_eq_of_le (by omega) (by omega)
  rw [next]
  omega

/-- `set_several_bits` -/
def setSeveralBits
    (num : UInt64)
    (idxInclusive idxExclusive : Int16)
    (pattern : UInt64) :
    UInt64 :=
  setSeveralBitsFrom num idxInclusive idxExclusive 0 pattern

/-- `gdt_descriptors[vector] = set_several_bits(gdt_descriptors[vector], …)` -/
def GdtDescriptors.setBits
    (gdtDescriptors : GdtDescriptors)
    (vector : Fin gdtMaxEntries)
    (idxInclusive idxExclusive : Int16)
    (pattern : UInt64) :
    GdtDescriptors :=
  Function.update gdtDescriptors vector
    (setSeveralBits (gdtDescriptors vector) idxInclusive idxExclusive pattern)

/-- `fill_gdt_descriptor_item` -/
def fillGdtDescriptorItem
    (vector : Fin gdtMaxEntries)
    (base limit : UInt32)
    (access flags : UInt8)
    (gdtDescriptors : GdtDescriptors) :
    GdtDescriptors :=
  let gdtDescriptors :=
    gdtDescriptors.setBits vector 0 16
      (limit &&& 0x0000FFFF).toUInt16.toUInt64
  let gdtDescriptors :=
    gdtDescriptors.setBits vector 16 40 (base &&& 0xFFFFFF).toUInt64
  let gdtDescriptors :=
    gdtDescriptors.setBits vector 40 48 access.toUInt64
  let gdtDescriptors :=
    gdtDescriptors.setBits vector 48 52 ((limit >>> 16) &&& 0xF).toUInt64
  let gdtDescriptors :=
    gdtDescriptors.setBits vector 52 56 (flags &&& 0xF).toUInt64
  gdtDescriptors.setBits vector 56 64 (base >>> 24).toUInt8.toUInt64

/-- `PRESENT_BIT` -/
def presentBit : UInt8 := (1 : UInt8) <<< 7

/-- `DPL(x, y)` -/
def dpl (x y : UInt8) : UInt8 :=
  x <<< 6 ||| y <<< 5

/-- `DESCRIPTOR_TYPE_CODE_OR_DATA_SEGMENT` -/
def descriptorTypeCodeOrDataSegment : UInt8 := (1 : UInt8) <<< 4

/-- `EXECUTABLE_BIT_DATA` -/
def executableBitData : UInt8 := (0 : UInt8) <<< 3

/-- `EXECUTABLE_BIT_CODE` -/
def executableBitCode : UInt8 := (1 : UInt8) <<< 3

/-- `DIRECTION_CONFORMING_BIT(x)` -/
def directionConformingBit (x : UInt8) : UInt8 :=
  x <<< 2

/-- `READ_WRITE_BIT(x)` -/
def readWriteBit (x : UInt8) : UInt8 :=
  x <<< 1

/-- `ACCESS_BIT(x)` -/
def accessBit (x : UInt8) : UInt8 :=
  x

/-- `CODE_SEGMENT` -/
def codeSegment : UInt8 := 0xA

/-- `DATA_SEGMENT` -/
def dataSegment : UInt8 := 0xA

/--
`memset(gdt_descriptors, 0, count)` as the entries see it: an entry that is
only begun by the bytes that are cleared keeps its upper bytes.
-/
def GdtDescriptors.clear
    (count : Nat)
    (gdtDescriptors : GdtDescriptors) :
    GdtDescriptors :=
  fun vector =>
    let begun := count - 8 * vector.val
    let cleared := if begun ≤ 8 then begun else 8
    UInt64.ofNat
      ((gdtDescriptors vector).toNat / 2 ^ (8 * cleared) * 2 ^ (8 * cleared))

/-- The table that `gdt_init` builds -/
def gdtInit (gdtDescriptors : GdtDescriptors) : GdtDescriptors :=
  let gdtDescriptors := gdtDescriptors.clear (8 * gdtMaxEntries - 1)
  let gdtDescriptors := fillGdtDescriptorItem 0 0 0 0 0 gdtDescriptors
  let gdtDescriptors :=
    fillGdtDescriptorItem 1 0 0xFFFFF
      (presentBit ||| dpl 0 0 ||| descriptorTypeCodeOrDataSegment |||
        executableBitCode ||| directionConformingBit 0 ||| readWriteBit 1 |||
        accessBit 0)
      codeSegment gdtDescriptors
  fillGdtDescriptorItem 2 0 0xFFFFF
    (presentBit ||| dpl 0 0 ||| descriptorTypeCodeOrDataSegment |||
      executableBitData ||| directionConformingBit 0 ||| readWriteBit 1 |||
      accessBit 0)
    dataSegment gdtDescriptors

end Relics.Gdt
