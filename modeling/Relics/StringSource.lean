import Relics.TerminatedString

namespace Relics.Strings

/-!
# The string functions of the kernel

The loops of `string.c` over a byte-addressed memory.  Every address that a
loop reads is recorded.  A loop that looks for a terminator has a bound on its
turns, since nothing else ends it.
-/

open ByteMemory

/-- The loop of `strlen`, whose counter has 32 bits -/
def strlenLoop
    (memory : Memory)
    (s : Nat) :
    (fuel : Nat) →
    (length : UInt32) →
    Option (UInt32 × List Nat)
  | 0, _ => none
  | fuel + 1, length =>
      if memory (s + length.toNat) ≠ 0 then do
        let (counted, reads) ← strlenLoop memory s fuel (length + 1)
        some (counted, (s + length.toNat) :: reads)
      else
        some (length, [s + length.toNat])

/-- `strlen` -/
def strlen
    (memory : Memory)
    (fuel s : Nat) :
    Option (UInt32 × List Nat) :=
  strlenLoop memory s fuel 0

/-- The difference of two plain chars, which are signed. -/
def difference (byte other : UInt8) : Int :=
  byte.toInt8.toInt - other.toInt8.toInt

/-- The loop of `memcmp`; the counter stays below `n` and does not overflow. -/
def memcmpLoop
    (memory : Memory)
    (s1 s2 : Nat) :
    (remaining i : Nat) →
    Int × List Nat
  | 0, _ => (0, [])
  | remaining + 1, i =>
      if memory (s1 + i) = memory (s2 + i) then
        let (order, reads) := memcmpLoop memory s1 s2 remaining (i + 1)
        (order, (s1 + i) :: (s2 + i) :: reads)
      else
        (difference (memory (s1 + i)) (memory (s2 + i)), [s1 + i, s2 + i])

/-- `memcmp` -/
def memcmp
    (memory : Memory)
    (s1 s2 : Nat)
    (n : UInt64) :
    Int × List Nat :=
  memcmpLoop memory s1 s2 n.toNat 0

/-- `strcmp` -/
def strcmp
    (memory : Memory)
    (fuel s1 s2 : Nat) :
    Option (Int × List Nat) := do
  let (length, counted) ← strlen memory fuel s1
  let (order, compared) := memcmp memory s1 s2 length.toUInt64
  some (order, counted ++ compared)

/-- `strncmp` -/
def strncmp
    (memory : Memory)
    (s1 s2 : Nat)
    (n : UInt64) :
    Int × List Nat :=
  memcmp memory s1 s2 n

/-- The loop of `strcpy` -/
def strcpyLoop
    (dest src : Nat) :
    (fuel : Nat) →
    (memory : Memory) →
    (i : Nat) →
    Option Memory
  | 0, _, _ => none
  | fuel + 1, memory, i =>
      if memory (src + i) ≠ 0 then
        strcpyLoop dest src fuel
          (setByte memory (dest + i) (memory (src + i))) (i + 1)
      else
        some memory

/-- `strcpy`: the memory it leaves -/
def strcpy
    (memory : Memory)
    (fuel dest src : Nat) :
    Option Memory :=
  strcpyLoop dest src fuel memory 0

/-- `print_string`: the characters it prints -/
def printString
    (memory : Memory) :
    (fuel str : Nat) →
    Option (List UInt8)
  | 0, _ => none
  | fuel + 1, str =>
      if memory str ≠ 0 then do
        let printed ← printString memory fuel (str + 1)
        some (memory str :: printed)
      else
        some []

section Lengths

variable {memory : Memory}
variable {s : Nat}
variable {string : CString}

/-- From inside a string `strlen` counts on to its end. -/
theorem strlenLoop_eq
    {length : Nat}
    (held : string.Held memory s)
    (short : string.length < 2 ^ 32)
    (inside : length ≤ string.length)
    (fuel : Nat) :
    strlenLoop memory s fuel (UInt32.ofNat length) =
      if string.length - length < fuel then
        some
          (UInt32.ofNat string.length,
            List.range' (s + length) (string.length - length + 1))
      else
        none := by
  have bytes := CString.held_iff.mp held
  induction fuel generalizing length with
  | zero =>
      rfl
  | succ fuel inductionHypothesis =>
      have value : (UInt32.ofNat length).toNat = length :=
        UInt32.toNat_ofNat_of_lt' (Nat.lt_of_le_of_lt inside short)
      rw [strlenLoop, value, bytes length inside]
      by_cases atEnd : length = string.length
      · subst atEnd
        have ended := CString.byte_eq_zero (Nat.le_refl string.length)
        rw [if_neg (not_not_intro ended), Nat.sub_self,
          if_pos (Nat.succ_pos fuel)]
        rfl
      · have before : length < string.length :=
          Nat.lt_of_le_of_ne inside atEnd
        have next : UInt32.ofNat length + 1 = UInt32.ofNat (length + 1) :=
          (UInt32.ofNat_add length 1).symm
        have remaining :
            string.length - length = string.length - (length + 1) + 1 := by
          omega
        rw [if_pos (CString.byte_ne_zero before), next,
          inductionHypothesis before, remaining]
        by_cases enough : string.length - (length + 1) < fuel
        · rw [if_pos enough, if_pos (Nat.succ_lt_succ enough),
            List.range'_succ (n := string.length - (length + 1) + 1)]
          rfl
        · rw [if_neg enough, if_neg (mt Nat.lt_of_succ_lt_succ enough)]
          rfl

/-- `strlen` of a string that its counter can count -/
theorem strlen_eq
    (held : string.Held memory s)
    (short : string.length < 2 ^ 32)
    (fuel : Nat) :
    strlen memory fuel s =
      if string.length < fuel then
        some
          (UInt32.ofNat string.length, List.range' s (string.length + 1))
      else
        none := by
  have counted := strlenLoop_eq held short (Nat.zero_le _) fuel
  rw [Nat.add_zero, Nat.sub_zero] at counted
  exact counted

/-- The counter of `strlen` goes round in a string that is too long for it. -/
theorem strlenLoop_of_long
    (held : string.Held memory s)
    (long : 2 ^ 32 ≤ string.length)
    (fuel : Nat)
    (length : UInt32) :
    strlenLoop memory s fuel length = none := by
  induction fuel generalizing length with
  | zero =>
      rfl
  | succ fuel inductionHypothesis =>
      have inside : length.toNat < string.length :=
        Nat.lt_of_lt_of_le length.toNat_lt long
      rw [strlenLoop, CString.held_iff.mp held _ (Nat.le_of_lt inside),
        if_pos (CString.byte_ne_zero inside), inductionHypothesis]
      rfl

end Lengths

section Comparison

variable {memory : Memory}
variable {s1 s2 n i k : Nat}

/-- The addresses that are read to compare bytes from an index on -/
def comparedAddresses (s1 s2 i count : Nat) : List Nat :=
  (List.range' i count).flatMap fun j => [s1 + j, s2 + j]

/-- Where no byte differs, `memcmp` reads them all and returns 0. -/
theorem memcmpLoop_of_same
    (same :
      ∀ j,
        i ≤ j →
        j < i + n →
        memory (s1 + j) = memory (s2 + j)) :
    memcmpLoop memory s1 s2 n i = (0, comparedAddresses s1 s2 i n) := by
  induction n generalizing i with
  | zero =>
      rfl
  | succ n inductionHypothesis =>
      have here := same i (Nat.le_refl i) (by omega)
      have rest :=
        inductionHypothesis (i := i + 1)
          (fun j lower upper => same j (by omega) (by omega))
      rw [memcmpLoop, if_pos here, rest]
      rfl

/-- At the first byte that differs `memcmp` returns the difference. -/
theorem memcmpLoop_of_different
    (inside : k < n)
    (same :
      ∀ j,
        i ≤ j →
        j < i + k →
        memory (s1 + j) = memory (s2 + j))
    (different : memory (s1 + (i + k)) ≠ memory (s2 + (i + k))) :
    memcmpLoop memory s1 s2 n i =
      (difference (memory (s1 + (i + k))) (memory (s2 + (i + k))),
        comparedAddresses s1 s2 i (k + 1)) := by
  induction k generalizing i n with
  | zero =>
      cases n with
      | zero =>
          exact absurd inside (Nat.not_lt_zero _)
      | succ n =>
          rw [Nat.add_zero] at different ⊢
          rw [memcmpLoop, if_neg different]
          rfl
  | succ k inductionHypothesis =>
      cases n with
      | zero =>
          exact absurd inside (Nat.not_lt_zero _)
      | succ n =>
          have here := same i (Nat.le_refl i) (by omega)
          have index : i + (k + 1) = i + 1 + k := by
            omega
          rw [index] at different ⊢
          have rest :=
            inductionHypothesis (i := i + 1) (Nat.lt_of_succ_lt_succ inside)
              (fun j lower upper => same j (by omega) (by omega)) different
          rw [memcmpLoop, if_pos here, rest]
          rfl

/-- Different bytes have a difference other than 0. -/
theorem difference_ne_zero
    {byte other : UInt8}
    (different : byte ≠ other) :
    difference byte other ≠ 0 := by
  intro same
  apply different
  have signed : byte.toInt8 = other.toInt8 :=
    Int8.toInt_inj.mp (Int.sub_eq_zero.mp same)
  exact congrArg Int8.toUInt8 signed

/-- The difference the other way round has the opposite sign. -/
theorem sign_difference
    (byte other : UInt8) :
    (difference other byte).sign = -(difference byte other).sign := by
  rw [← Int.sign_neg, difference, difference, Int.neg_sub]

variable {a b : CString}

/-- `memcmp` of strings that differ first within its limit -/
theorem memcmp_of_differAt
    {limit : UInt64}
    (held1 : a.Held memory s1)
    (held2 : b.Held memory s2)
    (differ : a.DifferAt b k)
    (within : k < limit.toNat) :
    memcmp memory s1 s2 limit =
      (difference (a.byte k) (b.byte k),
        comparedAddresses s1 s2 0 (k + 1)) := by
  have bytes1 := CString.held_iff.mp held1
  have bytes2 := CString.held_iff.mp held2
  have inside1 := differ.le_length
  have inside2 := differ.symm.le_length
  have agree :
      ∀ j,
        0 ≤ j →
        j < 0 + k →
        memory (s1 + j) = memory (s2 + j) := by
    intro j _ before
    rw [Nat.zero_add] at before
    rw [bytes1 j (by omega), bytes2 j (by omega)]
    exact differ.same j before
  have apart : memory (s1 + (0 + k)) ≠ memory (s2 + (0 + k)) := by
    rw [Nat.zero_add, bytes1 k inside1, bytes2 k inside2]
    exact differ.different
  have compared := memcmpLoop_of_different within agree apart
  rw [Nat.zero_add, bytes1 k inside1, bytes2 k inside2] at compared
  exact compared

/-- `memcmp` of strings that differ at the limit or behind it -/
theorem memcmp_of_differAt_beyond
    {limit : UInt64}
    (held1 : a.Held memory s1)
    (held2 : b.Held memory s2)
    (differ : a.DifferAt b k)
    (beyond : limit.toNat ≤ k) :
    memcmp memory s1 s2 limit =
      (0, comparedAddresses s1 s2 0 limit.toNat) := by
  have inside1 := differ.le_length
  have inside2 := differ.symm.le_length
  apply memcmpLoop_of_same
  intro j _ before
  rw [CString.held_iff.mp held1 j (by omega),
    CString.held_iff.mp held2 j (by omega)]
  exact differ.same j (by omega)

/-- `memcmp` of the same string up to its terminator -/
theorem memcmp_of_same
    {limit : UInt64}
    (held1 : a.Held memory s1)
    (held2 : a.Held memory s2)
    (within : limit.toNat ≤ a.length + 1) :
    memcmp memory s1 s2 limit =
      (0, comparedAddresses s1 s2 0 limit.toNat) := by
  apply memcmpLoop_of_same
  intro j _ before
  rw [CString.held_iff.mp held1 j (by omega),
    CString.held_iff.mp held2 j (by omega)]

end Comparison

end Relics.Strings
