import Mathlib.Data.BitVec

namespace BitFields

/-!
# Bit fields of a word

A word is divided into fields: a field is given by its lowest bit and its
width.  Placing a value fills its field and leaves the rest zero; words placed
into fields apart are put together by `|||`, and reading a field back sees the
value placed there and no other.
-/

variable {size width low : Nat}

/-- The word with a value in the `width` bits from `low` on. -/
def placed
    (size low : Nat)
    (value : BitVec width) :
    BitVec size :=
  value.setWidth size <<< low

/-- Each bit of a placed value. -/
theorem getLsbD_placed
    (fits : low + width ≤ size)
    (value : BitVec width)
    (bit : Nat) :
    (placed size low value).getLsbD bit =
      (decide (low ≤ bit) && value.getLsbD (bit - low)) := by
  unfold placed
  rw [BitVec.getLsbD_shiftLeft, BitVec.getLsbD_setWidth]
  by_cases above : low ≤ bit
  · by_cases inside : bit < low + width
    · have inWord : bit < size := by omega
      have inWidth : bit - low < size := by omega
      simp [above, inWord, inWidth]
    · have beyond : value.getLsbD (bit - low) = false := by
        apply BitVec.getLsbD_of_ge
        omega
      simp [beyond]
  · have below : bit < low := by omega
    simp [below, above]

/-- A field reads back as the value placed there. -/
@[simp] theorem extract_placed_same
    (fits : low + width ≤ size)
    (value : BitVec width) :
    (placed size low value).extractLsb' low width = value := by
  apply BitVec.eq_of_getLsbD_eq
  intro bit inside
  rw [BitVec.getLsbD_extractLsb', getLsbD_placed fits]
  simp [inside]

/-- A field apart from the placed one reads as zero. -/
theorem extract_placed_apart
    {start length : Nat}
    (fits : low + width ≤ size)
    (apart : start + length ≤ low ∨ low + width ≤ start)
    (value : BitVec width) :
    (placed size low value).extractLsb' start length =
      BitVec.ofNat length 0 := by
  apply BitVec.eq_of_getLsbD_eq
  intro bit inside
  rw [BitVec.getLsbD_extractLsb', getLsbD_placed fits, BitVec.getLsbD_zero]
  rcases apart with below | above
  · have notReached : ¬ low ≤ start + bit := by omega
    simp [notReached]
  · have beyond : value.getLsbD (start + bit - low) = false := by
      apply BitVec.getLsbD_of_ge
      omega
    simp [beyond]

/-- Placing zero leaves the word zero. -/
@[simp] theorem placed_zero :
    placed size low (BitVec.ofNat width 0) = BitVec.ofNat size 0 := by
  simp [placed]

/-- A bit is picked by a mask and moved down. -/
theorem shiftRight_and_bit
    {index : Nat}
    (inside : index < size)
    (word : BitVec size) :
    (word &&& BitVec.ofNat size 1 <<< index) >>> index =
      (word.extractLsb' index 1).setWidth size := by
  have positive : 0 < size := by omega
  apply BitVec.eq_of_getLsbD_eq
  intro bit _
  rcases Nat.eq_zero_or_pos bit with lowest | higher
  · subst lowest
    simp [inside, positive]
  · have notLowest : bit ≠ 0 := by omega
    simp [notLowest]

/-- A mask of low ones keeps the lowest field. -/
theorem extract_mask
    (fits : width ≤ size)
    (word : BitVec size) :
    (word &&& BitVec.ofNat size (2 ^ width - 1)).extractLsb' 0 width =
      word.extractLsb' 0 width := by
  apply BitVec.eq_of_getLsbD_eq
  intro bit inside
  have within : bit < size := by omega
  rw [BitVec.getLsbD_extractLsb', BitVec.getLsbD_and, BitVec.getLsbD_ofNat,
    Nat.testBit_two_pow_sub_one]
  simp [inside, within]

/-- Moving a word down moves its fields down. -/
theorem extract_shiftRight
    {start count : Nat}
    (word : BitVec size) :
    (word >>> count).extractLsb' start width =
      word.extractLsb' (count + start) width := by
  apply BitVec.eq_of_getLsbD_eq
  intro bit inside
  simp [Nat.add_assoc]

/-- Adjacent fields are placed one after the other. -/
theorem placed_append
    {highWidth : Nat}
    (fits : low + (highWidth + width) ≤ size)
    (high : BitVec highWidth)
    (value : BitVec width) :
    placed size low (high ++ value) =
      placed size low value ||| placed size (low + width) high := by
  have valueFits : low + width ≤ size := by omega
  have highFits : low + width + highWidth ≤ size := by omega
  apply BitVec.eq_of_getLsbD_eq
  intro bit inside
  rw [BitVec.getLsbD_or, getLsbD_placed fits, getLsbD_placed valueFits,
    getLsbD_placed highFits, BitVec.getLsbD_append]
  rcases Nat.lt_or_ge bit low with below | above
  · have notHigh : ¬ low + width ≤ bit := by omega
    have notValue : ¬ low ≤ bit := by omega
    simp [notHigh, notValue]
  · rcases Nat.lt_or_ge bit (low + width) with inValue | inHigh
    · have within : bit - low < width := by omega
      have notHigh : ¬ low + width ≤ bit := by omega
      simp [within, notHigh, above]
    · have notWithin : ¬ bit - low < width := by omega
      have shifted : bit - low - width = bit - (low + width) := by omega
      have beyond : value.getLsbD (bit - low) = false :=
        BitVec.getLsbD_of_ge value (bit - low) (by omega)
      simp [notWithin, above, inHigh, shifted, beyond]

/-- Adjacent fields of a word are put back side by side. -/
theorem placed_extract_append
    {wordSize highWidth start : Nat}
    (fits : low + (highWidth + width) ≤ size)
    (word : BitVec wordSize) :
    placed size low (word.extractLsb' start width) |||
        placed size (low + width)
          (word.extractLsb' (start + width) highWidth) =
      placed size low (word.extractLsb' start (highWidth + width)) := by
  rw [← placed_append fits,
    BitVec.extractLsb'_append_extractLsb'_eq_extractLsb' rfl]

/-- A word placed over all its bits is the word itself. -/
@[simp] theorem placed_whole
    (word : BitVec size) :
    placed size 0 word = word := by
  simp [placed]

section Flags

variable {first second mask : BitVec size}

/-- A mask is inside its union with another. -/
theorem or_and_mask
    (mask mask' : BitVec size) :
    (mask ||| mask') &&& mask = mask := by
  apply BitVec.eq_of_getLsbD_eq
  intro bit _
  rw [BitVec.getLsbD_and, BitVec.getLsbD_or]
  cases mask.getLsbD bit with
  | false =>
      rw [Bool.and_false]
  | true =>
      rw [Bool.and_true, Bool.true_or]

/-- Two words agree under two masks. -/
theorem and_or_eq_iff
    {mask' : BitVec size} :
    first &&& (mask ||| mask') = second &&& (mask ||| mask') ↔
      first &&& mask = second &&& mask ∧
        first &&& mask' = second &&& mask' := by
  constructor
  · intro same
    constructor
    · rw [← or_and_mask mask mask', ← BitVec.and_assoc, same,
        BitVec.and_assoc]
    · rw [← or_and_mask mask' mask, BitVec.or_comm, ← BitVec.and_assoc, same,
        BitVec.and_assoc]
  · rintro ⟨underFirst, underSecond⟩
    rw [BitVec.and_or_distrib_left, underFirst, underSecond,
      ← BitVec.and_or_distrib_left]

/-- Two words agree under the union of some masks. -/
theorem and_union_eq_iff
    {masks : List (BitVec size)} :
    first &&& masks.foldr (· ||| ·) (BitVec.ofNat size 0) =
        second &&& masks.foldr (· ||| ·) (BitVec.ofNat size 0) ↔
      ∀ mask ∈ masks, first &&& mask = second &&& mask := by
  induction masks with
  | nil =>
      simp
  | cons mask masks inductionHypothesis =>
      rw [List.foldr_cons, and_or_eq_iff, inductionHypothesis,
        List.forall_mem_cons]

/-- Under the mask of one bit two words agree if both have it or neither. -/
theorem and_flag_eq_iff
    (first second : BitVec size)
    (bit : Nat) :
    first &&& BitVec.twoPow size bit = second &&& BitVec.twoPow size bit ↔
      (first &&& BitVec.twoPow size bit ≠ BitVec.ofNat size 0 ↔
        second &&& BitVec.twoPow size bit ≠ BitVec.ofNat size 0) := by
  rw [BitVec.and_twoPow, BitVec.and_twoPow]
  split
  · split
    · simp
    · simp
  · split
    · rw [eq_comm]
      simp
    · simp

end Flags

end BitFields
