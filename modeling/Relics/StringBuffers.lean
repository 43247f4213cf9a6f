import Relics.CountedLoop
import Relics.StringCopy

namespace Relics.Strings

/-!
# Copying into buffers

`memcpy` copies forwards whatever its arguments are, so a destination inside
the source gets its first bytes over and over.  `kernel_strncpy` fills its
buffer with zeros, so that `strncmp`, which does not stop at terminators,
compares two such buffers as it should.
-/

open ByteMemory CountedLoop

section Source

/-- `memcpy`: the memory it leaves -/
def memcpy
    (memory : Memory)
    (dest src : Nat)
    (n : UInt64) :
    Memory :=
  loop (fun i memory => setByte memory (dest + i) (memory (src + i))) memory
    n.toNat

/-- The first loop of `kernel_strncpy`, with the counter that it ends at -/
def strncpyLoop
    (dest src : Nat) :
    (remaining : Nat) →
    (memory : Memory) →
    (i : Nat) →
    Memory × Nat
  | 0, memory, i => (memory, i)
  | remaining + 1, memory, i =>
      if memory (src + i) ≠ 0 then
        strncpyLoop dest src remaining
          (setByte memory (dest + i) (memory (src + i))) (i + 1)
      else
        (memory, i)

/-- `kernel_strncpy`: the memory it leaves -/
def kernelStrncpy
    (memory : Memory)
    (dest src : Nat)
    (n : UInt64) :
    Memory :=
  let (memory, i) := strncpyLoop dest src n.toNat memory 0
  loop (fun turn memory => setByte memory (dest + (i + turn)) 0) memory
    (n.toNat - i)

end Source

section Overlap

variable {memory : Memory}
variable {dest src : Nat}

/-- The index of the source byte that a forward copy stores at an index -/
def copiedIndex (dest src index : Nat) : Nat :=
  if src < dest then index % (dest - src) else index

/-- Memory after the copy of all bytes of the source at once -/
def moved (memory : Memory) (dest src n : Nat) : Memory :=
  fun address =>
    if dest ≤ address ∧ address < dest + n then
      memory (src + (address - dest))
    else
      memory address

/-- Memory after a copy of one byte after the other, the first ones first -/
def copiedForward (memory : Memory) (dest src n : Nat) : Memory :=
  fun address =>
    if dest ≤ address ∧ address < dest + n then
      memory (src + copiedIndex dest src (address - dest))
    else
      memory address

/-- The next byte to copy is itself a copy if it has been overwritten. -/
theorem copiedForward_source (index : Nat) :
    copiedForward memory dest src index (src + index) =
      memory (src + copiedIndex dest src index) := by
  rw [copiedForward]
  by_cases overlapping : src < dest
  · by_cases overwritten : dest - src ≤ index
    · have behind : src + index - dest = index - (dest - src) := by
        omega
      rw [if_pos (by omega), copiedIndex, copiedIndex, if_pos overlapping,
        if_pos overlapping, behind, ← Nat.mod_eq_sub_mod overwritten]
    · rw [if_neg (by omega), copiedIndex, if_pos overlapping,
        Nat.mod_eq_of_lt (Nat.lt_of_not_le overwritten)]
  · rw [if_neg (by omega), copiedIndex, if_neg overlapping]

/-- `memcpy` copies the first bytes first. -/
theorem memcpy_eq (n : UInt64) :
    memcpy memory dest src n = copiedForward memory dest src n.toNat := by
  refine
    loop_invariant
      (fun index (reached : Memory) =>
        reached = copiedForward memory dest src index)
      ?_ ?_
  · funext address
    rw [copiedForward, if_neg (by omega)]
  · rintro index reached _ rfl
    rw [copiedForward_source]
    funext address
    by_cases isLast : address = dest + index
    · subst isLast
      rw [setByte_same, copiedForward, if_pos (by omega),
        Nat.add_sub_cancel_left]
    · rw [setByte_other isLast, copiedForward, copiedForward]
      by_cases inside : dest ≤ address ∧ address < dest + index
      · rw [if_pos inside, if_pos (by omega)]
      · rw [if_neg inside, if_neg (by omega)]

/-- The source repeats itself at the distance of the destination. -/
def Repeats (memory : Memory) (dest src n : Nat) : Prop :=
  ∀ index, index + (dest - src) < n → memory (src + index) = memory (dest + index)

/-- In a source that repeats itself every byte is one of the first. -/
theorem repeats_iff
    {n : Nat}
    (overlapping : src < dest) :
    Repeats memory dest src n ↔
      ∀ index < n,
        memory (src + index % (dest - src)) = memory (src + index) := by
  constructor
  · intro repeats index
    induction index using Nat.strong_induction_on with
    | h index inductionHypothesis =>
        intro inside
        by_cases first : index < dest - src
        · rw [Nat.mod_eq_of_lt first]
        · have before :=
            inductionHypothesis (index - (dest - src)) (by omega) (by omega)
          have here := repeats (index - (dest - src)) (by omega)
          have sameAddress : dest + (index - (dest - src)) = src + index := by
            omega
          rw [← Nat.mod_eq_sub_mod (Nat.le_of_not_lt first), here,
            sameAddress] at before
          exact before
  · intro first index inside
    have here := first index (by omega)
    have later := first (index + (dest - src)) inside
    have sameAddress : src + (index + (dest - src)) = dest + index := by
      omega
    rw [Nat.add_mod_right, sameAddress] at later
    rw [← here, later]

end Overlap

/--
`memcpy` leaves what a copy of all bytes at once would leave if and only if
the destination does not begin inside the source, or the source repeats
itself from there on.
-/
theorem memcpy_moves_iff
    (memory : Memory)
    (dest src : Nat)
    (n : UInt64) :
    memcpy memory dest src n = moved memory dest src n.toNat ↔
      (src < dest → Repeats memory dest src n.toNat) := by
  rw [memcpy_eq]
  constructor
  · intro same overlapping
    rw [repeats_iff overlapping]
    intro index inside
    have here := congrFun same (dest + index)
    rw [copiedForward, if_pos (by omega), moved, if_pos (by omega),
      Nat.add_sub_cancel_left, copiedIndex, if_pos overlapping] at here
    exact here
  · intro repeats
    funext address
    rw [copiedForward, moved]
    split
    · case _ inside =>
        rw [copiedIndex]
        split
        · case _ overlapping =>
            exact
              (repeats_iff overlapping).mp (repeats overlapping) _ (by omega)
        · rfl
    · rfl

section Padding

variable {memory : Memory}
variable {dest src n : Nat}
variable {string : CString}

/-- The first bytes at an address are those of a string up to its terminator. -/
def Begins (memory : Memory) (src : Nat) (string : CString) (n : Nat) : Prop :=
  ∀ index < n, index ≤ string.length → memory (src + index) = string.byte index

/-- A buffer is apart from the bytes of a string that are read for it. -/
def Clear (dest src : Nat) (string : CString) (n : Nat) : Prop :=
  dest + n ≤ src ∨ src + min n (string.length + 1) ≤ dest

/-- What is stored in a buffer does not change the source. -/
theorem begins_stored
    (begins : Begins memory src string n)
    {another : CString}
    (clear : Clear dest src string n) :
    Begins (stored memory dest another n) src string n := by
  intro index inside within
  unfold Clear at clear
  rw [stored, if_neg (by omega)]
  exact begins index inside within

/-- From any byte on the first loop stores the rest of the bytes. -/
theorem strncpyLoop_eq
    (begins : Begins memory src string n)
    (clear : Clear dest src string n)
    (remaining : Nat)
    {i : Nat}
    (turns : i + remaining = n)
    (inside : i ≤ string.length) :
    strncpyLoop dest src remaining (stored memory dest string i) i =
      (stored memory dest string (min n string.length),
        min n string.length) := by
  induction remaining generalizing i with
  | zero =>
      have atEnd : min n string.length = i := by
        omega
      rw [strncpyLoop, atEnd]
  | succ remaining inductionHypothesis =>
      have source :
          stored memory dest string i (src + i) = string.byte i := by
        unfold Clear at clear
        rw [stored, if_neg (by omega)]
        exact begins i (by omega) inside
      rw [strncpyLoop, source]
      by_cases atEnd : i = string.length
      · have ended := CString.byte_eq_zero (Nat.le_of_eq atEnd.symm)
        have short : min n string.length = i := by
          omega
        rw [if_neg (not_not_intro ended), short]
      · have before : i < string.length :=
          Nat.lt_of_le_of_ne inside atEnd
        rw [if_pos (CString.byte_ne_zero before), setByte_stored]
        exact inductionHypothesis (by omega) before

/-- `kernel_strncpy` stores the bytes of the string and zeros behind them. -/
theorem kernelStrncpy_eq
    {n : UInt64}
    (begins : Begins memory src string n.toNat)
    (clear : Clear dest src string n.toNat) :
    kernelStrncpy memory dest src n =
      stored memory dest string n.toNat := by
  have copied :=
    strncpyLoop_eq begins clear n.toNat (Nat.zero_add _) (Nat.zero_le _)
  rw [stored_zero] at copied
  have padded :
      loop
          (fun turn memory =>
            setByte memory (dest + (min n.toNat string.length + turn)) 0)
          (stored memory dest string (min n.toNat string.length))
          (n.toNat - min n.toNat string.length) =
        stored memory dest string
          (min n.toNat string.length +
            (n.toNat - min n.toNat string.length)) := by
    refine
      loop_invariant
        (fun turn (reached : Memory) =>
          reached =
            stored memory dest string (min n.toNat string.length + turn))
        rfl ?_
    rintro turn reached below rfl
    have ended : string.byte (min n.toNat string.length + turn) = 0 :=
      CString.byte_eq_zero (by omega)
    rw [← ended, setByte_stored, Nat.add_assoc]
  have total :
      min n.toNat string.length + (n.toNat - min n.toNat string.length) =
        n.toNat := by
    omega
  rw [total] at padded
  rw [kernelStrncpy, copied]
  exact padded

/-- A buffer holds a 0 exactly if the string is shorter than it. -/
theorem exists_zero_stored_iff :
    (∃ index < n, stored memory dest string n (dest + index) = 0) ↔
      string.length < n := by
  constructor
  · rintro ⟨index, inside, isNul⟩
    rw [stored, if_pos (by omega), Nat.add_sub_cancel_left] at isNul
    by_contra long
    exact CString.byte_ne_zero (by omega) isNul
  · intro short
    refine ⟨string.length, short, ?_⟩
    rw [stored, if_pos (by omega), Nat.add_sub_cancel_left]
    exact CString.byte_eq_zero (Nat.le_refl _)

end Padding

section Comparison

variable {memory : Memory}
variable {s1 s2 : Nat}
variable {a b : CString}

/-- `strncmp` of two buffers that are padded with zeros -/
theorem strncmp_of_padded
    {n : UInt64}
    (padded1 : ∀ index < n.toNat, memory (s1 + index) = a.byte index)
    (padded2 : ∀ index < n.toNat, memory (s2 + index) = b.byte index) :
    (strncmp memory s1 s2 n).1 = 0 ↔
      a.bytes.take n.toNat = b.bytes.take n.toNat := by
  have agree {count : Nat}
      (within : count ≤ n.toNat)
      (same : ∀ index < count, a.byte index = b.byte index) :
      ∀ index,
        0 ≤ index →
        index < 0 + count →
        memory (s1 + index) = memory (s2 + index) := by
    intro index _ before
    rw [padded1 index (by omega), padded2 index (by omega)]
    exact same index (by omega)
  by_cases same : a.bytes = b.bytes
  · have sameByte (index : Nat) : a.byte index = b.byte index := by
      rw [CString.byte, CString.byte, same]
    rw [strncmp, memcmp,
      memcmpLoop_of_same (agree (Nat.le_refl _) fun index _ => sameByte index)]
    simp [same]
  · obtain ⟨k, differ⟩ := CString.exists_differAt same
    rw [differ.take_eq_iff]
    by_cases beyond : n.toNat ≤ k
    · rw [strncmp, memcmp,
        memcmpLoop_of_same
          (agree (Nat.le_refl _) fun index before =>
            differ.same index (by omega))]
      exact iff_of_true rfl beyond
    · have within : k < n.toNat := Nat.lt_of_not_le beyond
      have apart : memory (s1 + (0 + k)) ≠ memory (s2 + (0 + k)) := by
        rw [Nat.zero_add, padded1 k within, padded2 k within]
        exact differ.different
      rw [strncmp, memcmp,
        memcmpLoop_of_different within
          (agree (Nat.le_of_lt within) differ.same) apart]
      exact iff_of_false (difference_ne_zero apart) beyond

end Comparison

/-- Two strings and two buffers of `n` bytes, none of them in another -/
structure TwoBuffers
    (memory : Memory)
    (dest1 src1 dest2 src2 : Nat)
    (a b : CString)
    (n : Nat) :
    Prop where
  begins1 : Begins memory src1 a n
  begins2 : Begins memory src2 b n
  clear1 : Clear dest1 src1 a n
  clear2 : Clear dest2 src2 b n
  crosswise : Clear dest1 src2 b n
  buffers : dest1 + n ≤ dest2 ∨ dest2 + n ≤ dest1

/--
After two strings have been copied with `kernel_strncpy`, `strncmp` finds the
buffers equal if and only if the first bytes of the strings are, and each
buffer has a terminator if and only if its string is shorter than it.
-/
theorem kernelStrncpy_comparable
    (memory : Memory)
    (dest1 src1 dest2 src2 : Nat)
    (a b : CString)
    (n : UInt64)
    (layout : TwoBuffers memory dest1 src1 dest2 src2 a b n.toNat) :
    let copied :=
      kernelStrncpy (kernelStrncpy memory dest1 src1 n) dest2 src2 n
    ((strncmp copied dest1 dest2 n).1 = 0 ↔
        a.bytes.take n.toNat = b.bytes.take n.toNat) ∧
      ((∃ index < n.toNat, copied (dest1 + index) = 0) ↔
        a.length < n.toNat) ∧
      ((∃ index < n.toNat, copied (dest2 + index) = 0) ↔
        b.length < n.toNat) := by
  have buffers := layout.buffers
  have source : Begins (stored memory dest1 a n.toNat) src2 b n.toNat :=
    begins_stored layout.begins2 layout.crosswise
  rw [kernelStrncpy_eq layout.begins1 layout.clear1,
    kernelStrncpy_eq source layout.clear2]
  -- the second copy leaves the first buffer alone
  have first (index : Nat) (inside : index < n.toNat) :
      stored (stored memory dest1 a n.toNat) dest2 b n.toNat (dest1 + index) =
        stored memory dest1 a n.toNat (dest1 + index) := by
    rw [stored, if_neg (by omega)]
  refine ⟨strncmp_of_padded ?_ ?_, ?_, exists_zero_stored_iff⟩
  · intro index inside
    rw [first index inside, stored, if_pos (by omega),
      Nat.add_sub_cancel_left]
  · intro index inside
    rw [stored, if_pos (by omega), Nat.add_sub_cancel_left]
  · have zeros :
        (∃ index < n.toNat,
            stored memory dest1 a n.toNat (dest1 + index) = 0) ↔
          a.length < n.toNat :=
      exists_zero_stored_iff
    rw [← zeros]
    exact exists_congr fun index => and_congr_right fun inside => by
      rw [first index inside]

/-- Two copies of `Hello` in used memory compare as equal in all 7 bytes. -/
theorem kernelStrncpy_comparable_hello :
    (strncmp
        (kernelStrncpy (kernelStrncpy (helloBefore 0x78) 8 0 7) 16 0 7)
        8 16 7).1 = 0 := by
  have begins : Begins (helloBefore 0x78) 0 hello 7 := by
    intro index _ within
    exact CString.held_iff.mp (held_helloBefore 0x78) index within
  have layout : TwoBuffers (helloBefore 0x78) 8 0 16 0 hello hello 7 :=
    { begins1 := begins
      begins2 := begins
      clear1 := Or.inr (by decide)
      clear2 := Or.inr (by decide)
      crosswise := Or.inr (by decide)
      buffers := Or.inl (by decide) }
  exact
    (kernelStrncpy_comparable (helloBefore 0x78) 8 0 16 0 hello hello 7
      layout).1.mpr rfl

end Relics.Strings
