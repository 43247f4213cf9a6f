import Relics.BitFields
import Relics.GdtSource

namespace Relics.Gdt

/-!
# Segment descriptors decode to what was asked

The base and the limit of a segment are scattered over the entry.  The entry
that `fill_gdt_descriptor_item` leaves is the old one with the encoding of the
segment ored in, so that it says what was asked where the old one was zero.
-/

open BitFields

/-- A segment, as the processor reads it. -/
@[ext] structure Segment where
  base : BitVec 32
  limit : BitVec 20
  access : BitVec 8
  flags : BitVec 4
  deriving DecidableEq

namespace Segment

/-- The segment that an entry describes. -/
def decode (entry : BitVec 64) : Segment where
  base := entry.extractLsb' 56 8 ++ entry.extractLsb' 16 24
  limit := entry.extractLsb' 48 4 ++ entry.extractLsb' 0 16
  access := entry.extractLsb' 40 8
  flags := entry.extractLsb' 52 4

/-- The entry that describes a segment. -/
def encode (segment : Segment) : BitVec 64 :=
  placed 64 0 (segment.limit.extractLsb' 0 16) |||
    placed 64 16 (segment.base.extractLsb' 0 24) |||
    placed 64 40 segment.access |||
    placed 64 48 (segment.limit.extractLsb' 16 4) |||
    placed 64 52 segment.flags |||
    placed 64 56 (segment.base.extractLsb' 24 8)

/-- An encoded segment decodes to itself. -/
@[simp] theorem decode_encode
    (segment : Segment) :
    decode segment.encode = segment := by
  unfold decode encode
  ext1 <;> simp only [BitVec.extractLsb'_or]
  case base =>
      simp [extract_placed_apart]
      exact BitVec.extractLsb'_append_extractLsb'
  case limit =>
      simp [extract_placed_apart]
      exact BitVec.extractLsb'_append_extractLsb'
  case access =>
      simp [extract_placed_apart]
  case flags =>
      simp [extract_placed_apart]

/-- The fields leave out no bit of the entry. -/
theorem encode_decode
    (entry : BitVec 64) :
    encode (decode entry) = entry := by
  unfold decode encode
  simp only [BitVec.extractLsb'_append_eq_left,
    BitVec.extractLsb'_append_eq_right]
  -- the fields are put back side by side, from the lowest on
  rw [placed_extract_append, placed_extract_append, placed_extract_append,
    placed_extract_append, placed_extract_append]
  · exact (placed_whole _).trans BitVec.extractLsb'_eq_self
  all_goals decide

end Segment

section Bits

/-- The shift counts that the loop uses. -/
theorem shiftCount_ofNat :
    ∀ count < 64, shiftCount (Int16.ofNat count) = UInt64.ofNat count := by
  decide

/-- The masks that the loop uses: `1 << i` stays within an `int`. -/
theorem bitMask_ofNat :
    ∀ index < 31, bitMask (Int16.ofNat index) = 1 <<< UInt64.ofNat index := by
  decide

/-- A count below the width is not reduced by a shift. -/
theorem toNat_shiftAmount
    {count : Nat}
    (fits : count < 64) :
    ((UInt64.ofNat count).toBitVec % 64).toNat = count := by
  simp
  omega

/-- One turn of the loop puts one bit of the pattern at its place. -/
theorem setBitValue_eq
    {low index : Nat}
    (lowFits : low < 64)
    (small : index < 31)
    (num pattern : UInt64) :
    (setBitValue num (Int16.ofNat low)
        ((pattern &&& bitMask (Int16.ofNat index)) >>>
          shiftCount (Int16.ofNat index))).toBitVec =
      num.toBitVec |||
        placed 64 low (pattern.toBitVec.extractLsb' index 1) := by
  have indexFits : index < 64 := by omega
  rw [setBitValue, shiftCount_ofNat low lowFits,
    shiftCount_ofNat index indexFits, bitMask_ofNat index small]
  simp only [UInt64.toBitVec_or, UInt64.toBitVec_and,
    UInt64.toBitVec_shiftLeft, UInt64.toBitVec_shiftRight,
    BitVec.shiftLeft_eq', BitVec.ushiftRight_eq', toNat_shiftAmount lowFits,
    toNat_shiftAmount indexFits]
  rw [placed, ← shiftRight_and_bit indexFits]
  rfl

/-- Indices of the word are ordered as `short`s as they are as numbers. -/
theorem ofNat_lt_ofNat
    {low high : Nat}
    (lowFits : low ≤ 64)
    (highFits : high ≤ 64) :
    Int16.ofNat low < Int16.ofNat high ↔ low < high := by
  rw [Int16.lt_iff_toInt_lt, Int16.toInt_ofNat_of_lt (by omega),
    Int16.toInt_ofNat_of_lt (by omega)]
  exact Int.ofNat_lt

/--
The loop places the bits of the pattern from `index` on.  The induction is on
the number of bits left; each turn moves both indices up by one.
-/
theorem setSeveralBitsFrom_eq
    {width low index : Nat}
    (fits : low + width ≤ 64)
    (small : index + width ≤ 31)
    (num pattern : UInt64) :
    (setSeveralBitsFrom num (Int16.ofNat low) (Int16.ofNat (low + width))
        (Int16.ofNat index) pattern).toBitVec =
      num.toBitVec |||
        placed 64 low (pattern.toBitVec.extractLsb' index width) := by
  induction width generalizing num low index with
  | zero =>
      have ended : ¬ Int16.ofNat low < Int16.ofNat (low + 0) := by
        rw [ofNat_lt_ofNat (by omega) (by omega)]
        omega
      have nothing :
          pattern.toBitVec.extractLsb' index 0 = 0#0 :=
        BitVec.of_length_zero
      rw [setSeveralBitsFrom, if_neg ended, nothing, placed_zero,
        BitVec.or_zero]
  | succ width inductionHypothesis =>
      have running :
          Int16.ofNat low < Int16.ofNat (low + (width + 1)) := by
        rw [ofNat_lt_ofNat (by omega) (by omega)]
        omega
      have nextLow : Int16.ofNat low + 1 = Int16.ofNat (low + 1) :=
        (Int16.ofNat_add low 1).symm
      have nextIndex : Int16.ofNat index + 1 = Int16.ofNat (index + 1) :=
        (Int16.ofNat_add index 1).symm
      have stop : low + (width + 1) = low + 1 + width := by omega
      rw [setSeveralBitsFrom, if_pos running, nextLow, nextIndex, stop,
        inductionHypothesis (by omega) (by omega),
        setBitValue_eq (by omega) (by omega), BitVec.or_assoc,
        placed_extract_append (by omega)]

/-- `set_several_bits` ors the low bits of the pattern into its field. -/
theorem setSeveralBits_eq
    (low width : Nat)
    {idxInclusive idxExclusive : Int16}
    (begins : idxInclusive = Int16.ofNat low)
    (ends : idxExclusive = Int16.ofNat (low + width))
    (fits : low + width ≤ 64)
    (small : width ≤ 31)
    (num pattern : UInt64) :
    (setSeveralBits num idxInclusive idxExclusive pattern).toBitVec =
      num.toBitVec |||
        placed 64 low (pattern.toBitVec.extractLsb' 0 width) := by
  subst begins ends
  have fromFirst : 0 + width ≤ 31 := by omega
  exact setSeveralBitsFrom_eq fits fromFirst num pattern

end Bits

section Entries

/-- Writing a field of an entry reads that entry only. -/
@[simp] theorem setBits_same
    (gdtDescriptors : GdtDescriptors)
    (vector : Fin gdtMaxEntries)
    (idxInclusive idxExclusive : Int16)
    (pattern : UInt64) :
    gdtDescriptors.setBits vector idxInclusive idxExclusive pattern vector =
      setSeveralBits (gdtDescriptors vector) idxInclusive idxExclusive
        pattern :=
  Function.update_self vector _ gdtDescriptors

/-- Writing a field of an entry leaves the other entries alone. -/
theorem setBits_other
    {vector other : Fin gdtMaxEntries}
    (different : other ≠ vector)
    (gdtDescriptors : GdtDescriptors)
    (idxInclusive idxExclusive : Int16)
    (pattern : UInt64) :
    gdtDescriptors.setBits vector idxInclusive idxExclusive pattern other =
      gdtDescriptors other :=
  Function.update_of_ne different _ gdtDescriptors

/-- The segment that a call of `fill_gdt_descriptor_item` asks for. -/
def requested
    (base limit : UInt32)
    (access flags : UInt8) :
    Segment where
  base := base.toBitVec
  limit := limit.toBitVec.setWidth 20
  access := access.toBitVec
  flags := flags.toBitVec.setWidth 4

/-- The low part of the limit, as the first field gets it. -/
theorem limitLow_bits
    (limit : UInt32) :
    (limit &&& 0x0000FFFF).toUInt16.toUInt64.toBitVec.extractLsb' 0 16 =
      (limit.toBitVec.setWidth 20).extractLsb' 0 16 := by
  rw [UInt16.toBitVec_toUInt64, UInt32.toBitVec_toUInt16,
    BitVec.extractLsb'_setWidth_of_le (by decide),
    BitVec.extractLsb'_setWidth_of_le (by decide),
    BitVec.extractLsb'_setWidth_of_le (by decide), UInt32.toBitVec_and]
  exact extract_mask (by decide) limit.toBitVec

/-- The low part of the base, as the second field gets it. -/
theorem baseLow_bits
    (base : UInt32) :
    (base &&& 0xFFFFFF).toUInt64.toBitVec.extractLsb' 0 24 =
      base.toBitVec.extractLsb' 0 24 := by
  rw [UInt32.toBitVec_toUInt64,
    BitVec.extractLsb'_setWidth_of_le (by decide), UInt32.toBitVec_and]
  exact extract_mask (by decide) base.toBitVec

/-- The access byte, as the third field gets it. -/
theorem access_bits
    (access : UInt8) :
    access.toUInt64.toBitVec.extractLsb' 0 8 = access.toBitVec := by
  apply BitVec.eq_of_toNat_eq
  simp

/-- The high part of the limit, as the fourth field gets it. -/
theorem limitHigh_bits
    (limit : UInt32) :
    ((limit >>> 16) &&& 0xF).toUInt64.toBitVec.extractLsb' 0 4 =
      (limit.toBitVec.setWidth 20).extractLsb' 16 4 := by
  have shifted := extract_mask (by decide : 4 ≤ 32) (limit >>> 16).toBitVec
  rw [UInt32.toBitVec_toUInt64,
    BitVec.extractLsb'_setWidth_of_le (by decide), UInt32.toBitVec_and,
    BitVec.extractLsb'_setWidth_of_le (by decide)]
  exact shifted.trans (extract_shiftRight limit.toBitVec)

/-- The low flags, as the fifth field gets them. -/
theorem flags_bits
    (flags : UInt8) :
    (flags &&& 0xF).toUInt64.toBitVec.extractLsb' 0 4 =
      flags.toBitVec.setWidth 4 := by
  have low : flags.toBitVec.setWidth 4 = flags.toBitVec.extractLsb' 0 4 :=
    BitVec.setWidth_eq_extractLsb' (by decide)
  rw [UInt8.toBitVec_toUInt64,
    BitVec.extractLsb'_setWidth_of_le (by decide), UInt8.toBitVec_and, low]
  exact extract_mask (by decide) flags.toBitVec

/-- The high part of the base, as the last field gets it. -/
theorem baseHigh_bits
    (base : UInt32) :
    (base >>> 24).toUInt8.toUInt64.toBitVec.extractLsb' 0 8 =
      base.toBitVec.extractLsb' 24 8 := by
  rw [UInt8.toBitVec_toUInt64, UInt32.toBitVec_toUInt8,
    BitVec.extractLsb'_setWidth_of_le (by decide),
    BitVec.extractLsb'_setWidth_of_le (by decide)]
  exact extract_shiftRight base.toBitVec

/-- The filled entry is the old one with the segment ored in. -/
theorem fillGdtDescriptorItem_same
    (vector : Fin gdtMaxEntries)
    (base limit : UInt32)
    (access flags : UInt8)
    (gdtDescriptors : GdtDescriptors) :
    (fillGdtDescriptorItem vector base limit access flags
        gdtDescriptors vector).toBitVec =
      (gdtDescriptors vector).toBitVec |||
        (requested base limit access flags).encode := by
  simp only [fillGdtDescriptorItem, setBits_same]
  rw [setSeveralBits_eq 56 8, setSeveralBits_eq 52 4, setSeveralBits_eq 48 4,
    setSeveralBits_eq 40 8, setSeveralBits_eq 16 24, setSeveralBits_eq 0 16]
  · unfold Segment.encode requested
    rw [limitLow_bits, baseLow_bits, access_bits, limitHigh_bits, flags_bits,
      baseHigh_bits]
    simp only [BitVec.or_assoc]
  all_goals decide

/-- The entries of the other segments are left alone. -/
theorem fillGdtDescriptorItem_other
    {vector other : Fin gdtMaxEntries}
    (different : other ≠ vector)
    (base limit : UInt32)
    (access flags : UInt8)
    (gdtDescriptors : GdtDescriptors) :
    fillGdtDescriptorItem vector base limit access flags gdtDescriptors other =
      gdtDescriptors other := by
  simp only [fillGdtDescriptorItem, setBits_other different]

/--
The filled entry decodes to the request exactly if the old one has no bit that
the encoding of the request lacks.
-/
theorem decode_fill_iff
    (vector : Fin gdtMaxEntries)
    (base limit : UInt32)
    (access flags : UInt8)
    (gdtDescriptors : GdtDescriptors) :
    Segment.decode
        (fillGdtDescriptorItem vector base limit access flags
          gdtDescriptors vector).toBitVec =
        requested base limit access flags ↔
      (gdtDescriptors vector).toBitVec |||
          (requested base limit access flags).encode =
        (requested base limit access flags).encode := by
  rw [fillGdtDescriptorItem_same]
  constructor
  · intro decoded
    calc
      (gdtDescriptors vector).toBitVec |||
            (requested base limit access flags).encode =
          Segment.encode
            (Segment.decode
              ((gdtDescriptors vector).toBitVec |||
                (requested base limit access flags).encode)) :=
        (Segment.encode_decode _).symm
      _ = (requested base limit access flags).encode := by
        rw [decoded]
  · intro covered
    rw [covered, Segment.decode_encode]

/-- An entry that is zero beforehand decodes to the request. -/
theorem decode_fill_of_zero
    {vector : Fin gdtMaxEntries}
    {gdtDescriptors : GdtDescriptors}
    (cleared : gdtDescriptors vector = 0)
    (base limit : UInt32)
    (access flags : UInt8) :
    Segment.decode
        (fillGdtDescriptorItem vector base limit access flags
          gdtDescriptors vector).toBitVec =
      requested base limit access flags := by
  apply (decode_fill_iff vector base limit access flags gdtDescriptors).mpr
  rw [cleared]
  exact BitVec.zero_or

/--
An entry that is zero beforehand decodes to the base, the low 20 bits of the
limit, the access byte and the low 4 bits of the flags, and the other entries
are unchanged.
-/
theorem fillGdtDescriptorItem_decodesToRequest
    (vector : Fin gdtMaxEntries)
    (base limit : UInt32)
    (access flags : UInt8)
    (gdtDescriptors : GdtDescriptors)
    (cleared : gdtDescriptors vector = 0) :
    Segment.decode
        (fillGdtDescriptorItem vector base limit access flags
          gdtDescriptors vector).toBitVec =
        { base := base.toBitVec
          limit := limit.toBitVec.setWidth 20
          access := access.toBitVec
          flags := flags.toBitVec.setWidth 4 } ∧
      ∀ other,
        other ≠ vector →
        fillGdtDescriptorItem vector base limit access flags
            gdtDescriptors other =
          gdtDescriptors other := by
  constructor
  · exact decode_fill_of_zero cleared base limit access flags
  · intro other different
    exact fillGdtDescriptorItem_other different base limit access flags
      gdtDescriptors

/-- The theorem at the code segment of `gdt_init`. -/
theorem fillGdtDescriptorItem_decodesToRequest_code :
    Segment.decode
        (fillGdtDescriptorItem 1 0 0xFFFFF 0x9A codeSegment
          (fun _ => 0) 1).toBitVec =
        { base := 0, limit := 0xFFFFF, access := 0x9A, flags := 0xA } ∧
      ∀ other,
        other ≠ 1 →
        fillGdtDescriptorItem 1 0 0xFFFFF 0x9A codeSegment
            (fun _ => 0) other =
          0 :=
  fillGdtDescriptorItem_decodesToRequest 1 0 0xFFFFF 0x9A codeSegment
    (fun _ => 0) rfl

/-- Bytes that are cleared as a whole leave a zero entry. -/
theorem clear_eq_zero
    {count : Nat}
    {vector : Fin gdtMaxEntries}
    (within : 8 * vector.val + 8 ≤ count)
    (gdtDescriptors : GdtDescriptors) :
    gdtDescriptors.clear count vector = 0 := by
  have whole :
      (if count - 8 * vector.val ≤ 8 then count - 8 * vector.val else 8) =
        8 := by
    split
    · omega
    · rfl
  have small := (gdtDescriptors vector).toNat_lt
  have gone :
      (gdtDescriptors vector).toNat / 2 ^ (8 * 8) = 0 :=
    Nat.div_eq_of_lt small
  simp only [GdtDescriptors.clear, whole, gone, Nat.zero_mul]
  rfl

/-- Clearing keeps a zero entry zero. -/
theorem clear_of_zero
    {vector : Fin gdtMaxEntries}
    {gdtDescriptors : GdtDescriptors}
    (zero : gdtDescriptors vector = 0)
    (count : Nat) :
    gdtDescriptors.clear count vector = 0 := by
  simp [GdtDescriptors.clear, zero]

/--
`gdt_init` leaves a code and a data segment over the whole address space
behind the null entry, and no other segment.  Whatever the table held is gone,
but for one byte of the last entry that `memset` does not reach.
-/
theorem gdtInit_entry
    {vector : Fin gdtMaxEntries}
    {gdtDescriptors : GdtDescriptors}
    (blank :
      vector.val + 1 < gdtMaxEntries ∨ gdtDescriptors vector = 0) :
    Segment.decode (gdtInit gdtDescriptors vector).toBitVec =
      if vector = 1 then
        { base := 0, limit := 0xFFFFF, access := 0x9A, flags := 0xA }
      else if vector = 2 then
        { base := 0, limit := 0xFFFFF, access := 0x92, flags := 0xA }
      else
        { base := 0, limit := 0, access := 0, flags := 0 } := by
  have cleared :
      gdtDescriptors.clear (8 * gdtMaxEntries - 1) vector = 0 := by
    rcases blank with notLast | zero
    · exact clear_eq_zero (by omega) gdtDescriptors
    · exact clear_of_zero zero _
  unfold gdtInit
  by_cases code : vector = 1
  · subst code
    rw [fillGdtDescriptorItem_other (by decide), decode_fill_of_zero]
    · rfl
    · rw [fillGdtDescriptorItem_other (by decide), cleared]
  · by_cases data : vector = 2
    · subst data
      rw [decode_fill_of_zero]
      · rfl
      · rw [fillGdtDescriptorItem_other (by decide),
          fillGdtDescriptorItem_other (by decide), cleared]
    · rw [fillGdtDescriptorItem_other data, fillGdtDescriptorItem_other code,
        if_neg code, if_neg data]
      by_cases null : vector = 0
      · subst null
        exact decode_fill_of_zero cleared 0 0 0 0
      · rw [fillGdtDescriptorItem_other null, cleared]
        rfl

end Entries

end Relics.Gdt
