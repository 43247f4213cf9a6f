import Relics.FirstDifference
import Relics.StringSource

namespace Relics.Strings

/-!
# The order of `memcmp`

`memcmp` subtracts the first two bytes that differ as plain chars, which are
signed.  So it orders byte arrays as signed bytes, and as unsigned ones where
the two bytes are both ASCII or both not.
-/

open ByteMemory FirstDifference

section Arrays

variable {memory : Memory}

/-- The bytes that stand from an address on. -/
def bytesAt (memory : Memory) : (address count : Nat) → List UInt8
  | _, 0 => []
  | address, count + 1 => memory address :: bytesAt memory (address + 1) count

@[simp] theorem length_bytesAt
    (memory : Memory)
    (address count : Nat) :
    (bytesAt memory address count).length = count := by
  induction count generalizing address with
  | zero =>
      rfl
  | succ count inductionHypothesis =>
      simp [bytesAt, inductionHypothesis]

@[simp] theorem getElem_bytesAt
    (memory : Memory)
    (address count : Nat)
    {i : Nat}
    (inside : i < (bytesAt memory address count).length) :
    (bytesAt memory address count)[i] = memory (address + i) := by
  induction count generalizing address i with
  | zero =>
      simp at inside
  | succ count inductionHypothesis =>
      cases i with
      | zero =>
          rfl
      | succ i =>
          simp only [bytesAt, List.getElem_cons_succ, inductionHypothesis]
          congr 1
          omega

/-- The bytes that stand from an address on depend on these bytes only. -/
theorem bytesAt_congr
    {first second : Memory}
    {address count : Nat}
    (same :
      ∀ other,
        address ≤ other →
        other < address + count →
        first other = second other) :
    bytesAt first address count = bytesAt second address count := by
  apply List.ext_getElem
  · simp
  · intro i inFirst inSecond
    rw [length_bytesAt] at inFirst
    simpa using same (address + i) (by omega) (by omega)

/-- Memory holds an array of bytes at an address. -/
def HoldsArray
    (memory : Memory)
    (address : Nat)
    (bytes : List UInt8) :
    Prop :=
  bytesAt memory address bytes.length = bytes

/-- The first bytes of more bytes. -/
theorem take_bytesAt
    {count total : Nat}
    (inside : count ≤ total)
    (address : Nat) :
    (bytesAt memory address total).take count =
      bytesAt memory address count := by
  induction count generalizing address total with
  | zero =>
      rfl
  | succ count inductionHypothesis =>
      cases total with
      | zero =>
          exact absurd inside (Nat.not_succ_le_zero count)
      | succ total =>
          rw [bytesAt, bytesAt, List.take_succ_cons,
            inductionHypothesis (Nat.le_of_succ_le_succ inside)]

/-- The first bytes of an array that memory holds. -/
theorem HoldsArray.bytesAt_eq
    {address count : Nat}
    {bytes : List UInt8}
    (held : HoldsArray memory address bytes)
    (inside : count ≤ bytes.length) :
    bytesAt memory address count = bytes.take count := by
  rw [← take_bytesAt inside, held]

end Arrays

section FirstDifferences

variable {memory : Memory}
variable {s1 s2 : Nat}

/-- `memcmp` returns 0 on equal bytes. -/
theorem memcmpLoop_of_eq
    {remaining i : Nat}
    (same :
      bytesAt memory (s1 + i) remaining = bytesAt memory (s2 + i) remaining) :
    (memcmpLoop memory s1 s2 remaining i).1 = 0 := by
  induction remaining generalizing i with
  | zero =>
      rfl
  | succ remaining inductionHypothesis =>
      have here := List.head_eq_of_cons_eq same
      have later := List.tail_eq_of_cons_eq same
      rw [memcmpLoop, if_pos here]
      exact inductionHypothesis later

/-- `memcmp` returns the difference of the bytes that differ first. -/
theorem memcmpLoop_of_differFirst
    {remaining i : Nat}
    {byte other : UInt8}
    (differ :
      DifferFirst (bytesAt memory (s1 + i) remaining)
        (bytesAt memory (s2 + i) remaining) byte other) :
    (memcmpLoop memory s1 s2 remaining i).1 = difference byte other := by
  induction remaining generalizing i with
  | zero =>
      cases differ
  | succ remaining inductionHypothesis =>
      rw [bytesAt, bytesAt, DifferFirst.cons_iff] at differ
      rcases differ with ⟨different, rfl, rfl⟩ | ⟨here, later⟩
      · rw [memcmpLoop, if_neg different]
      · rw [memcmpLoop, if_pos here]
        exact inductionHypothesis later

/-- What is known of the bytes of two arrays that memory holds. -/
theorem memcmp_cases
    {a b : List UInt8}
    {n : UInt64}
    (held1 : HoldsArray memory s1 a)
    (held2 : HoldsArray memory s2 b)
    (inside1 : n.toNat ≤ a.length)
    (inside2 : n.toNat ≤ b.length) :
    (a.take n.toNat = b.take n.toNat ∧ (memcmp memory s1 s2 n).1 = 0) ∨
      ∃ byte other,
        DifferFirst (a.take n.toNat) (b.take n.toNat) byte other ∧
          (memcmp memory s1 s2 n).1 = difference byte other := by
  have sameLength : (a.take n.toNat).length = (b.take n.toNat).length := by
    rw [List.length_take_of_le inside1, List.length_take_of_le inside2]
  have bytes1 : bytesAt memory (s1 + 0) n.toNat = a.take n.toNat :=
    held1.bytesAt_eq inside1
  have bytes2 : bytesAt memory (s2 + 0) n.toNat = b.take n.toNat :=
    held2.bytesAt_eq inside2
  rcases eq_or_differFirst sameLength with same | ⟨byte, other, differ⟩
  · refine Or.inl ⟨same, memcmpLoop_of_eq ?_⟩
    rw [bytes1, bytes2, same]
  · refine Or.inr ⟨byte, other, differ, memcmpLoop_of_differFirst ?_⟩
    rw [bytes1, bytes2]
    exact differ

end FirstDifferences

section Signs

/-- A byte below 128 is the same number with a sign, the others go below 0. -/
theorem toInt_toInt8 (byte : UInt8) :
    byte.toInt8.toInt =
      if byte.toNat < 128 then (byte.toNat : Int) else byte.toNat - 256 := by
  have signed := BitVec.toInt_eq_toNat_cond byte.toBitVec
  change
    byte.toInt8.toInt =
      if 2 * byte.toNat < 256 then (byte.toNat : Int) else byte.toNat - 256
    at signed
  have half : 2 * byte.toNat < 256 ↔ byte.toNat < 128 := by
    omega
  rw [signed]
  exact if_congr half rfl rfl

variable {byte other : UInt8}

/-- The difference orders bytes as signed numbers. -/
theorem difference_signed :
    (difference byte other < 0 ↔ byte.toInt8 < other.toInt8) ∧
      (0 < difference byte other ↔ other.toInt8 < byte.toInt8) := by
  rw [difference, Int8.lt_iff_toInt_lt, Int8.lt_iff_toInt_lt]
  constructor
  · exact ⟨Int.lt_of_sub_neg, Int.sub_neg_of_lt⟩
  · exact Int.sub_pos

/--
The difference orders two different bytes as unsigned numbers if and only if
both are ASCII or none is.
-/
theorem difference_unsigned_iff
    (different : byte ≠ other) :
    (difference byte other < 0 ↔ byte < other) ∧
        (0 < difference byte other ↔ other < byte) ↔
      (byte < 0x80 ↔ other < 0x80) := by
  have apart : byte.toNat ≠ other.toNat :=
    fun same => different (UInt8.toNat_inj.mp same)
  have byteBound : byte.toNat < 256 := byte.toNat_lt
  have otherBound : other.toNat < 256 := other.toNat_lt
  have half : (0x80 : UInt8).toNat = 128 := rfl
  rw [difference, toInt_toInt8, toInt_toInt8]
  simp only [UInt8.lt_iff_toNat_lt, half]
  by_cases byteAscii : byte.toNat < 128
  · by_cases otherAscii : other.toNat < 128
    · rw [if_pos byteAscii, if_pos otherAscii]
      omega
    · rw [if_pos byteAscii, if_neg otherAscii]
      omega
  · by_cases otherAscii : other.toNat < 128
    · rw [if_neg byteAscii, if_pos otherAscii]
      omega
    · rw [if_neg byteAscii, if_neg otherAscii]
      omega

end Signs

section Order

/-- Two sequences differ first, if at all, in two ASCII bytes or in two others. -/
def DifferInOneHalf (first second : List UInt8) : Prop :=
  ∀ byte other,
    DifferFirst first second byte other →
    (byte < 0x80 ↔ other < 0x80)

/-- ASCII texts differ in ASCII bytes. -/
theorem differInOneHalf_of_ascii
    {first second : List UInt8}
    (firstAscii : ∀ byte ∈ first, byte < 0x80)
    (secondAscii : ∀ byte ∈ second, byte < 0x80) :
    DifferInOneHalf first second := by
  intro byte other differ
  obtain ⟨inFirst, inSecond⟩ := differ.mem_sequences
  exact iff_of_true (firstAscii byte inFirst) (secondAscii other inSecond)

variable {memory : Memory}
variable {s1 s2 : Nat}
variable {a b : List UInt8}
variable {n : UInt64}

/-- `memcmp` orders the bytes as signed numbers. -/
theorem memcmp_ordersSigned
    (held1 : HoldsArray memory s1 a)
    (held2 : HoldsArray memory s2 b)
    (inside1 : n.toNat ≤ a.length)
    (inside2 : n.toNat ≤ b.length) :
    Orders ((a.take n.toNat).map UInt8.toInt8)
      ((b.take n.toNat).map UInt8.toInt8) (memcmp memory s1 s2 n).1 := by
  rcases memcmp_cases held1 held2 inside1 inside2 with
    ⟨same, zero⟩ | ⟨byte, other, differ, order⟩
  · rw [same]
    exact orders_self zero
  · have signed :
        DifferFirst ((a.take n.toNat).map UInt8.toInt8)
          ((b.take n.toNat).map UInt8.toInt8) byte.toInt8 other.toInt8 :=
      differ.map fun _ _ same => congrArg Int8.toUInt8 same
    rw [order, orders_iff signed (difference_ne_zero differ.ne_items)]
    exact difference_signed

/--
`memcmp` orders the first `n` bytes as unsigned numbers if and only if where
they differ first both bytes are ASCII or none is.
-/
theorem memcmp_ordersUnsigned_iff
    (held1 : HoldsArray memory s1 a)
    (held2 : HoldsArray memory s2 b)
    (inside1 : n.toNat ≤ a.length)
    (inside2 : n.toNat ≤ b.length) :
    Orders (a.take n.toNat) (b.take n.toNat) (memcmp memory s1 s2 n).1 ↔
      DifferInOneHalf (a.take n.toNat) (b.take n.toNat) := by
  rcases memcmp_cases held1 held2 inside1 inside2 with
    ⟨same, zero⟩ | ⟨byte, other, differ, order⟩
  · rw [same]
    refine iff_of_true (orders_self zero) ?_
    intro byte other differ
    exact absurd rfl differ.ne_sequences
  · rw [order, orders_iff differ (difference_ne_zero differ.ne_items),
      difference_unsigned_iff differ.ne_items]
    constructor
    · intro half byte' other' differ'
      obtain ⟨rfl, rfl⟩ := differ.unique differ'
      exact half
    · intro half
      exact half byte other differ

/-- The texts `ab` and `ac` are ordered as they are to be. -/
theorem memcmp_ordersUnsigned_ab_ac :
    Orders ([0x61, 0x62] : List UInt8) [0x61, 0x63]
      (memcmp (spelled [0x61, 0x62, 0x61, 0x63]) 0 2 2).1 := by
  have held1 :
      HoldsArray (spelled [0x61, 0x62, 0x61, 0x63]) 0 [0x61, 0x62] :=
    rfl
  have held2 :
      HoldsArray (spelled [0x61, 0x62, 0x61, 0x63]) 2 [0x61, 0x63] :=
    rfl
  have half : DifferInOneHalf [0x61, 0x62] [0x61, 0x63] :=
    differInOneHalf_of_ascii (by simp) (by simp)
  exact
    (memcmp_ordersUnsigned_iff (n := 2) held1 held2 (by decide)
      (by decide)).mpr half

/-- A byte that is not ASCII comes before one that is. -/
theorem memcmp_ordersUnsigned_counterexample :
    ¬ ∀ memory s1 s2 a b,
      ∀ n : UInt64,
        HoldsArray memory s1 a →
        HoldsArray memory s2 b →
        n.toNat ≤ a.length →
        n.toNat ≤ b.length →
        Orders (a.take n.toNat) (b.take n.toNat) (memcmp memory s1 s2 n).1 := by
  intro orders
  have order :=
    orders (spelled [0x80, 0x01]) 0 1 [0x80] [0x01] 1 rfl rfl (by decide)
      (by decide)
  have smaller := order.negative.mp (by decide)
  exact absurd smaller (by decide)

end Order

end Relics.Strings
