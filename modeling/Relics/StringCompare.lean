import Relics.ShellLines
import Relics.StringSource

namespace Relics.Strings

/-!
# Comparing strings

`strcmp` compares as many bytes as its first argument is long, so it never
looks at what is behind the first argument's last byte: a string and a longer
one that begins with it compare as equal, but not the other way round.
`strncmp` does not know of terminators at all and goes on behind them.
-/

open ByteMemory

section Reads

variable {memory : Memory}
variable {s1 s2 count address : Nat}
variable {a b : CString}

/-- An address belongs to one of two strings or its terminator. -/
def Within (s1 s2 : Nat) (a b : CString) (address : Nat) : Prop :=
  (s1 ≤ address ∧ address ≤ s1 + a.length) ∨
    (s2 ≤ address ∧ address ≤ s2 + b.length)

/-- Comparing no more bytes than each string has reads nothing else. -/
theorem within_of_compared
    (fits1 : count ≤ a.length + 1)
    (fits2 : count ≤ b.length + 1)
    (compared : address ∈ comparedAddresses s1 s2 0 count) :
    Within s1 s2 a b address := by
  rw [comparedAddresses, List.mem_flatMap] at compared
  obtain ⟨j, member, isRead⟩ := compared
  rw [List.mem_range'_1, Nat.zero_add] at member
  simp only [List.mem_cons, List.not_mem_nil, or_false] at isRead
  rcases isRead with first | second
  · left
    omega
  · right
    omega

/-- Counting a string reads its bytes and its terminator. -/
theorem within_of_counted
    (counted : address ∈ List.range' s1 (a.length + 1)) :
    Within s1 s2 a b address := by
  rw [List.mem_range'_1] at counted
  left
  omega

end Reads

section Strcmp

variable {memory : Memory}
variable {fuel s1 s2 k : Nat}
variable {a b : CString}

/-- `strcmp` compares as many bytes as its first argument is long. -/
theorem strcmp_eq
    (held1 : a.Held memory s1)
    (short : a.length < 2 ^ 32)
    (enough : a.length < fuel) :
    strcmp memory fuel s1 s2 =
      some
        ((memcmp memory s1 s2 (UInt32.ofNat a.length).toUInt64).1,
          List.range' s1 (a.length + 1) ++
            (memcmp memory s1 s2 (UInt32.ofNat a.length).toUInt64).2) := by
  rw [strcmp, strlen_eq held1 short, if_pos enough]
  rfl

/-- `strcmp` returns only once it has counted its first argument. -/
theorem enough_of_strcmp
    {result : Int × List Nat}
    (held1 : a.Held memory s1)
    (short : a.length < 2 ^ 32)
    (returned : strcmp memory fuel s1 s2 = some result) :
    a.length < fuel := by
  by_contra few
  rw [strcmp, strlen_eq held1 short, if_neg few] at returned
  cases returned

/-- The limit that `strcmp` passes on -/
theorem toNat_limit
    (short : a.length < 2 ^ 32) :
    (UInt32.ofNat a.length).toUInt64.toNat = a.length := by
  rw [UInt32.toNat_toUInt64]
  exact UInt32.toNat_ofNat_of_lt' short

/-- `strcmp` of a string with itself -/
theorem strcmp_of_same
    (held1 : a.Held memory s1)
    (held2 : a.Held memory s2)
    (short : a.length < 2 ^ 32)
    (enough : a.length < fuel) :
    strcmp memory fuel s1 s2 =
      some
        (0,
          List.range' s1 (a.length + 1) ++
            comparedAddresses s1 s2 0 a.length) := by
  have limit := toNat_limit short
  have within :
      (UInt32.ofNat a.length).toUInt64.toNat ≤ a.length + 1 := by
    omega
  have compared := memcmp_of_same held1 held2 within
  rw [strcmp_eq held1 short enough, compared, limit]

/-- `strcmp` of strings that differ before the end of the first -/
theorem strcmp_of_differAt
    (held1 : a.Held memory s1)
    (held2 : b.Held memory s2)
    (short : a.length < 2 ^ 32)
    (enough : a.length < fuel)
    (differ : a.DifferAt b k)
    (before : k < a.length) :
    strcmp memory fuel s1 s2 =
      some
        (difference (a.byte k) (b.byte k),
          List.range' s1 (a.length + 1) ++
            comparedAddresses s1 s2 0 (k + 1)) := by
  have limit := toNat_limit short
  have within : k < (UInt32.ofNat a.length).toUInt64.toNat := by
    omega
  have compared := memcmp_of_differAt held1 held2 differ within
  rw [strcmp_eq held1 short enough, compared]

/-- `strcmp` of a string with a longer one that begins with it -/
theorem strcmp_of_differAt_end
    (held1 : a.Held memory s1)
    (held2 : b.Held memory s2)
    (short : a.length < 2 ^ 32)
    (enough : a.length < fuel)
    (differ : a.DifferAt b a.length) :
    strcmp memory fuel s1 s2 =
      some
        (0,
          List.range' s1 (a.length + 1) ++
            comparedAddresses s1 s2 0 a.length) := by
  have limit := toNat_limit short
  have beyond :
      (UInt32.ofNat a.length).toUInt64.toNat ≤ a.length := by
    omega
  have compared := memcmp_of_differAt_beyond held1 held2 differ beyond
  rw [strcmp_eq held1 short enough, compared, limit]

/-- `strcmp` does not return on a string that `strlen` cannot count. -/
theorem strcmp_of_long
    (held1 : a.Held memory s1)
    (long : 2 ^ 32 ≤ a.length)
    (fuel : Nat) :
    strcmp memory fuel s1 s2 = none := by
  rw [strcmp, strlen, strlenLoop_of_long held1 long]
  rfl

/--
`strcmp` returns 0 for the same string only, the opposite sign for the two
strings the other way round, and reads nothing behind their terminators.
-/
def ComparesStrings
    (memory : Memory)
    (s1 s2 : Nat)
    (a b : CString) :
    Prop :=
  ∃ fuel order reads order' reads',
    strcmp memory fuel s1 s2 = some (order, reads) ∧
      strcmp memory fuel s2 s1 = some (order', reads') ∧
      (order = 0 ↔ a.bytes = b.bytes) ∧
      order'.sign = -order.sign ∧
      ∀ address ∈ reads ++ reads', Within s1 s2 a b address

theorem within_symm
    {address : Nat}
    (within : Within s2 s1 b a address) :
    Within s1 s2 a b address :=
  Or.symm within

/-- The same string at two places compares as it should. -/
theorem comparesStrings_of_same
    (held1 : a.Held memory s1)
    (held2 : b.Held memory s2)
    (short : a.length < 2 ^ 32)
    (same : a.bytes = b.bytes) :
    ComparesStrings memory s1 s2 a b := by
  obtain ⟨bytes, noNul⟩ := a
  obtain rfl : bytes = b.bytes := same
  refine
    ⟨b.length + 1, 0, _, 0, _,
      strcmp_of_same held1 held2 short (Nat.lt_succ_self _),
      strcmp_of_same held2 held1 short (Nat.lt_succ_self _),
      iff_of_true rfl rfl, rfl, ?_⟩
  intro address member
  simp only [List.mem_append] at member
  rcases member with (counted | compared) | (counted | compared)
  · exact within_of_counted counted
  · exact within_of_compared (Nat.le_succ _) (Nat.le_succ _) compared
  · exact within_symm (within_of_counted counted)
  · exact within_symm
      (within_of_compared (Nat.le_succ _) (Nat.le_succ _) compared)

/-- Strings that differ before the end of both compare as they should. -/
theorem comparesStrings_of_differAt
    (held1 : a.Held memory s1)
    (held2 : b.Held memory s2)
    (short1 : a.length < 2 ^ 32)
    (short2 : b.length < 2 ^ 32)
    (differ : a.DifferAt b k)
    (before1 : k < a.length)
    (before2 : k < b.length) :
    ComparesStrings memory s1 s2 a b := by
  have different : a.bytes ≠ b.bytes := by
    intro same
    apply differ.different
    rw [CString.byte, same]
    rfl
  refine
    ⟨a.length + b.length + 1, _, _, _, _,
      strcmp_of_differAt held1 held2 short1 (by omega) differ before1,
      strcmp_of_differAt held2 held1 short2 (by omega) differ.symm before2,
      iff_of_false (difference_ne_zero differ.different) different,
      sign_difference _ _, ?_⟩
  intro address member
  simp only [List.mem_append] at member
  rcases member with (counted | compared) | (counted | compared)
  · exact within_of_counted counted
  · exact within_of_compared (by omega) (by omega) compared
  · exact within_symm (within_of_counted counted)
  · exact within_symm (within_of_compared (by omega) (by omega) compared)

/-- The comparison of two strings does not depend on which is first. -/
theorem ComparesStrings.symm
    (compares : ComparesStrings memory s1 s2 a b) :
    ComparesStrings memory s2 s1 b a := by
  obtain
    ⟨fuel, order, reads, order', reads', returned, returned', zero, opposite,
      within⟩ := compares
  have zero' : order' = 0 ↔ b.bytes = a.bytes := by
    rw [eq_comm (a := b.bytes), ← zero, ← Int.sign_eq_zero_iff_zero,
      opposite, Int.neg_eq_zero, Int.sign_eq_zero_iff_zero]
  refine
    ⟨fuel, order', reads', order, reads, returned', returned, zero', ?_, ?_⟩
  · rw [opposite, Int.neg_neg]
  · intro address member
    rw [List.mem_append, or_comm, ← List.mem_append] at member
    exact within_symm (within address member)

/-- A string and a longer one that begins with it compare as equal. -/
theorem not_comparesStrings_of_begins
    (held1 : a.Held memory s1)
    (held2 : b.Held memory s2)
    (short : a.length < 2 ^ 32)
    (begins : a.bytes <+: b.bytes)
    (different : a.bytes ≠ b.bytes) :
    ¬ ComparesStrings memory s1 s2 a b := by
  obtain ⟨k, differ⟩ := CString.exists_differAt different
  obtain rfl := differ.eq_length_iff.mpr begins
  rintro ⟨fuel, order, reads, order', reads', returned, -, zero, -⟩
  have enough := enough_of_strcmp held1 short returned
  rw [strcmp_of_differAt_end held1 held2 short enough differ] at returned
  have isZero : (0 : Int) = order :=
    congrArg Prod.fst (Option.some.inj returned)
  exact different (zero.mp isZero.symm)

/--
Two strings compare as they should exactly when both are short enough to be
counted and neither is a proper beginning of the other.
-/
theorem strcmp_comparesStrings_iff
    (held1 : a.Held memory s1)
    (held2 : b.Held memory s2) :
    ComparesStrings memory s1 s2 a b ↔
      a.length < 2 ^ 32 ∧ b.length < 2 ^ 32 ∧
        (a.bytes <+: b.bytes → a.bytes = b.bytes) ∧
        (b.bytes <+: a.bytes → a.bytes = b.bytes) := by
  constructor
  · intro compares
    have short1 : a.length < 2 ^ 32 := by
      by_contra long
      obtain ⟨fuel, order, reads, -, -, returned, -⟩ := compares
      rw [strcmp_of_long held1 (Nat.le_of_not_lt long)] at returned
      cases returned
    have short2 : b.length < 2 ^ 32 := by
      by_contra long
      obtain ⟨fuel, order, reads, -, -, returned, -⟩ := compares.symm
      rw [strcmp_of_long held2 (Nat.le_of_not_lt long)] at returned
      cases returned
    refine ⟨short1, short2, ?_, ?_⟩
    · intro begins
      by_contra different
      exact not_comparesStrings_of_begins held1 held2 short1 begins different
        compares
    · intro begins
      by_contra different
      exact not_comparesStrings_of_begins held2 held1 short2 begins
        (Ne.symm different) compares.symm
  · rintro ⟨short1, short2, notBeginning1, notBeginning2⟩
    by_cases same : a.bytes = b.bytes
    · exact comparesStrings_of_same held1 held2 short1 same
    · obtain ⟨k, differ⟩ := CString.exists_differAt same
      apply comparesStrings_of_differAt held1 held2 short1 short2 differ
      · apply Nat.lt_of_le_of_ne differ.le_length
        intro atEnd
        exact same (notBeginning1 (differ.eq_length_iff.mp atEnd))
      · apply Nat.lt_of_le_of_ne differ.symm.le_length
        intro atEnd
        exact same (notBeginning2 (differ.symm.eq_length_iff.mp atEnd))

end Strcmp

/-- Two strings in memory, each with one byte behind its terminator -/
def twoStrings (a b : CString) (behindA behindB : UInt8) : Memory :=
  spelled (a.bytes ++ 0 :: behindA :: (b.bytes ++ [0, behindB]))

section TwoStrings

variable (a b : CString)
variable (behindA behindB : UInt8)

/-- Where the second of two strings stands -/
def secondAddress : Nat :=
  a.length + 2

theorem held_first : a.Held (twoStrings a b behindA behindB) 0 :=
  CString.held_spelled a [] _

theorem held_second :
    b.Held (twoStrings a b behindA behindB) (secondAddress a) := by
  have layout :
      a.bytes ++ 0 :: behindA :: (b.bytes ++ [0, behindB]) =
        (a.bytes ++ [0, behindA]) ++ b.bytes ++ 0 :: [behindB] := by
    simp
  have start : secondAddress a = (a.bytes ++ [0, behindA]).length := by
    rw [List.length_append]
    rfl
  rw [twoStrings, layout, start]
  exact CString.held_spelled b _ _

theorem behind_first :
    twoStrings a b behindA behindB (a.length + 1) = behindA := by
  have inside : a.bytes.length ≤ a.length + 1 := Nat.le_succ _
  rw [twoStrings, spelled, List.getD_eq_getElem?_getD,
    List.getElem?_append_right inside]
  simp [CString.length]

theorem behind_second :
    twoStrings a b behindA behindB
        (secondAddress a + (b.length + 1)) =
      behindB := by
  have layout :
      a.bytes ++ 0 :: behindA :: (b.bytes ++ [0, behindB]) =
        (a.bytes ++ 0 :: behindA :: (b.bytes ++ [0])) ++ [behindB] := by
    simp
  have index :
      secondAddress a + (b.length + 1) =
        (a.bytes ++ 0 :: behindA :: (b.bytes ++ [0])).length := by
    simp [secondAddress, CString.length]
    omega
  rw [twoStrings, spelled, layout, index, List.getD_eq_getElem?_getD]
  simp

end TwoStrings

/-- `strcmp` of `ab` and `b` is as it should be. -/
theorem strcmp_comparesStrings_ab_b :
    ComparesStrings
      (twoStrings ⟨[0x61, 0x62], by decide⟩ ⟨[0x62], by decide⟩ 0 0)
      0 4 ⟨[0x61, 0x62], by decide⟩ ⟨[0x62], by decide⟩ :=
  (strcmp_comparesStrings_iff (held_first _ _ 0 0)
    (held_second _ _ 0 0)).mpr
    ⟨by decide, by decide, by decide, by decide⟩

/-- `strcmp` of `a` and `ab` is 0. -/
theorem strcmp_beginning_counterexample :
    ¬ ∀ (memory : Memory) (s1 s2 : Nat) (a b : CString),
      a.Held memory s1 →
      b.Held memory s2 →
      ComparesStrings memory s1 s2 a b := by
  intro always
  let a : CString := ⟨[0x61], by decide⟩
  let ab : CString := ⟨[0x61, 0x62], by decide⟩
  have held1 := held_first a ab 0 0
  have held2 := held_second a ab 0 0
  exact not_comparesStrings_of_begins held1 held2 (by decide) (by decide)
    (by decide) (always _ _ _ a ab held1 held2)

section Strncmp

variable {a b : CString}
variable {k : Nat}

/--
Wherever two strings stand in memory, `strncmp` returns 0 exactly when their
first bytes are the same, and its result depends on nothing but the strings.
-/
structure StopsAtTerminators (a b : CString) (n : UInt64) : Prop where
  zero_iff :
    ∀ memory s1 s2,
      a.Held memory s1 →
      b.Held memory s2 →
      ((strncmp memory s1 s2 n).1 = 0 ↔
        a.bytes.take n.toNat = b.bytes.take n.toNat)
  independent :
    ∀ memory s1 s2 memory' s1' s2',
      a.Held memory s1 →
      b.Held memory s2 →
      a.Held memory' s1' →
      b.Held memory' s2' →
      (strncmp memory s1 s2 n).1 = (strncmp memory' s1' s2' n).1

/-- The result of `strncmp` for strings that differ -/
theorem strncmp_of_differAt
    {memory : Memory}
    {s1 s2 : Nat}
    {n : UInt64}
    (held1 : a.Held memory s1)
    (held2 : b.Held memory s2)
    (differ : a.DifferAt b k) :
    (strncmp memory s1 s2 n).1 =
      if n.toNat ≤ k then 0 else difference (a.byte k) (b.byte k) := by
  by_cases beyond : n.toNat ≤ k
  · rw [if_pos beyond, strncmp,
      memcmp_of_differAt_beyond held1 held2 differ beyond]
  · rw [if_neg beyond, strncmp,
      memcmp_of_differAt held1 held2 differ (Nat.lt_of_not_le beyond)]

/-- Strings that differ are compared up to their terminators. -/
theorem stopsAtTerminators_of_ne
    (different : a.bytes ≠ b.bytes)
    (n : UInt64) :
    StopsAtTerminators a b n := by
  obtain ⟨k, differ⟩ := CString.exists_differAt different
  constructor
  · intro memory s1 s2 held1 held2
    rw [strncmp_of_differAt held1 held2 differ, differ.take_eq_iff]
    by_cases beyond : n.toNat ≤ k
    · simp [beyond]
    · simp [beyond, difference_ne_zero differ.different]
  · intro memory s1 s2 memory' s1' s2' held1 held2 held1' held2'
    rw [strncmp_of_differAt held1 held2 differ,
      strncmp_of_differAt held1' held2' differ]

/-- The same string is compared right up to the terminator. -/
theorem stopsAtTerminators_of_le
    {n : UInt64}
    (same : a.bytes = b.bytes)
    (within : n.toNat ≤ a.length + 1) :
    StopsAtTerminators a b n := by
  obtain ⟨bytes, noNul⟩ := a
  obtain rfl : bytes = b.bytes := same
  have zero {memory : Memory} {s1 s2 : Nat}
      (held1 : b.Held memory s1)
      (held2 : b.Held memory s2) :
      (strncmp memory s1 s2 n).1 = 0 := by
    rw [strncmp, memcmp_of_same held1 held2 within]
  constructor
  · intro memory s1 s2 held1 held2
    exact iff_of_true (zero held1 held2) rfl
  · intro memory s1 s2 memory' s1' s2' held1 held2 held1' held2'
    exact (zero held1 held2).trans (zero held1' held2').symm

/-- The same string is compared further than its terminator. -/
theorem not_stopsAtTerminators
    {n : UInt64}
    (same : a.bytes = b.bytes)
    (beyond : a.length + 1 < n.toNat) :
    ¬ StopsAtTerminators a b n := by
  intro stops
  obtain ⟨bytes, noNul⟩ := a
  obtain rfl : bytes = b.bytes := same
  have held1 := held_first b b 0 1
  have held2 := held_second b b 0 1
  have bytes1 := CString.held_iff.mp held1
  have bytes2 := CString.held_iff.mp held2
  have apart :
      twoStrings b b 0 1 (0 + (0 + (b.length + 1))) ≠
        twoStrings b b 0 1 (secondAddress b + (0 + (b.length + 1))) := by
    rw [Nat.zero_add, Nat.zero_add, behind_first, behind_second]
    decide
  have agree :
      ∀ j,
        0 ≤ j →
        j < 0 + (b.length + 1) →
        twoStrings b b 0 1 (0 + j) =
          twoStrings b b 0 1 (secondAddress b + j) := by
    intro j _ before
    rw [bytes1 j (by omega), bytes2 j (by omega)]
  have compared := memcmpLoop_of_different beyond agree apart
  have isZero := (stops.zero_iff _ _ _ held1 held2).mpr rfl
  rw [strncmp, memcmp, compared] at isZero
  exact difference_ne_zero apart isZero

/--
`strncmp` stops at the terminators exactly when the strings differ or its
limit is not behind the terminator of the string that both are.
-/
theorem strncmp_stopsAtTerminators_iff
    (a b : CString)
    (n : UInt64) :
    StopsAtTerminators a b n ↔
      a.bytes ≠ b.bytes ∨ n.toNat ≤ a.length + 1 := by
  constructor
  · intro stops
    by_contra neither
    rw [not_or, not_not] at neither
    exact not_stopsAtTerminators neither.1 (Nat.lt_of_not_le neither.2) stops
  · intro either
    by_cases same : a.bytes = b.bytes
    · exact stopsAtTerminators_of_le same
        (either.resolve_left (not_not_intro same))
    · exact stopsAtTerminators_of_ne same n

/-- `strncmp` with a limit of 3 on the string `a` twice -/
theorem strncmp_same_counterexample :
    ¬ ∀ (a b : CString) (n : UInt64), StopsAtTerminators a b n := by
  intro always
  exact not_stopsAtTerminators (a := ⟨[0x61], by decide⟩) rfl (by decide)
    (always _ _ 3)

end Strncmp

section Shell

variable {memory : Memory}
variable {s1 s2 : Nat}

/-- The comparisons of the shell are those of `string.c`. -/
theorem shell_memcmp_eq
    {i : Nat}
    {text : List UInt8}
    (starts : Shell.Starts memory (s2 + i) text) :
    (Shell.memcmp (fun offset => memory (s1 + offset)) text i).1 =
      (memcmpLoop memory s1 s2 text.length i).1 := by
  induction text generalizing i with
  | nil =>
      rfl
  | cons byte text inductionHypothesis =>
      obtain ⟨here, later⟩ := starts
      have rest := inductionHypothesis (i := i + 1) later
      rw [List.length_cons, Shell.memcmp, memcmpLoop, here]
      by_cases same : memory (s1 + i) = byte
      · rw [if_pos same, if_pos same]
        exact rest
      · rw [if_neg same, if_neg same]
        rfl

end Shell

end Relics.Strings
