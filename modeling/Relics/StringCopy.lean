import Relics.StringSource

namespace Relics.Strings

/-!
# Copying strings

`strcpy` copies the bytes of a string and returns at its terminator without
copying it.  The copy is a string only where the destination already held a 0.
-/

open ByteMemory

section Copy

variable {memory : Memory}
variable {dest src fuel : Nat}
variable {string : CString}

/-- Memory with the first bytes of a string stored at an address -/
def stored
    (memory : Memory)
    (dest : Nat)
    (string : CString)
    (count : Nat) :
    Memory :=
  fun address =>
    if dest ≤ address ∧ address < dest + count then
      string.byte (address - dest)
    else
      memory address

/-- The destination and the source do not overlap. -/
def Apart (dest src : Nat) (string : CString) : Prop :=
  dest + string.length + 1 ≤ src ∨ src + string.length + 1 ≤ dest

theorem stored_zero :
    stored memory dest string 0 = memory := by
  funext address
  rw [stored, if_neg (by omega)]

/-- One more byte is stored. -/
theorem setByte_stored (count : Nat) :
    setByte (stored memory dest string count) (dest + count)
        (string.byte count) =
      stored memory dest string (count + 1) := by
  funext address
  by_cases isLast : address = dest + count
  · subst isLast
    rw [setByte_same, stored, if_pos (by omega), Nat.add_sub_cancel_left]
  · rw [setByte_other isLast, stored, stored]
    by_cases inside : dest ≤ address ∧ address < dest + count
    · rw [if_pos inside, if_pos (by omega)]
    · rw [if_neg inside, if_neg (by omega)]

/-- Storing part of the copy does not change the source. -/
theorem stored_source
    {count index : Nat}
    (held : string.Held memory src)
    (apart : Apart dest src string)
    (within : count ≤ string.length)
    (inside : index ≤ string.length) :
    stored memory dest string count (src + index) = string.byte index := by
  unfold Apart at apart
  rw [stored, if_neg (by omega)]
  exact CString.held_iff.mp held index inside

/-- From any byte on `strcpy` stores the rest of the bytes. -/
theorem strcpyLoop_eq
    {i : Nat}
    (held : string.Held memory src)
    (apart : Apart dest src string)
    (inside : i ≤ string.length)
    (fuel : Nat) :
    strcpyLoop dest src fuel (stored memory dest string i) i =
      if string.length - i < fuel then
        some (stored memory dest string string.length)
      else
        none := by
  induction fuel generalizing i with
  | zero =>
      rfl
  | succ fuel inductionHypothesis =>
      rw [strcpyLoop, stored_source held apart inside inside]
      by_cases atEnd : i = string.length
      · subst atEnd
        have ended := CString.byte_eq_zero (Nat.le_refl string.length)
        rw [if_neg (not_not_intro ended), Nat.sub_self,
          if_pos (Nat.succ_pos fuel)]
      · have before : i < string.length :=
          Nat.lt_of_le_of_ne inside atEnd
        have remaining :
            string.length - i = string.length - (i + 1) + 1 := by
          omega
        rw [if_pos (CString.byte_ne_zero before), setByte_stored,
          inductionHypothesis before, remaining]
        simp only [Nat.add_lt_add_iff_right]

/-- What `strcpy` leaves -/
theorem strcpy_eq
    (held : string.Held memory src)
    (apart : Apart dest src string)
    (fuel : Nat) :
    strcpy memory fuel dest src =
      if string.length < fuel then
        some (stored memory dest string string.length)
      else
        none := by
  have copied :=
    strcpyLoop_eq (i := 0) held apart (Nat.zero_le _) fuel
  rw [stored_zero] at copied
  exact copied

/-- The copy is a string exactly if the byte behind it was already a 0. -/
theorem held_stored_iff :
    string.Held (stored memory dest string string.length) dest ↔
      memory (dest + string.length) = 0 := by
  have behind :
      stored memory dest string string.length (dest + string.length) =
        memory (dest + string.length) := by
    rw [stored, if_neg (by omega)]
  have ended := CString.byte_eq_zero (Nat.le_refl string.length)
  rw [CString.held_iff]
  constructor
  · intro heldAt
    rw [← behind, heldAt _ (Nat.le_refl _), ended]
  · intro isNul index inside
    rcases Nat.lt_or_eq_of_le inside with before | atEnd
    · rw [stored, if_pos (by omega), Nat.add_sub_cancel_left]
    · rw [atEnd, behind, isNul, ended]

end Copy

section Readers

variable {memory memoryOther : Memory}
variable {address other fuel : Nat}
variable {string : CString}

/-- `print_string` prints the string it is given. -/
theorem printString_of_held
    (held : string.Held memory address)
    (enough : string.length < fuel) :
    printString memory fuel address = some string.bytes := by
  rcases string with ⟨bytes, noNul⟩
  change Spells memory address bytes at held
  change bytes.length < fuel at enough
  induction bytes generalizing address fuel with
  | nil =>
      cases fuel with
      | zero =>
          exact absurd enough (Nat.not_lt_zero _)
      | succ fuel =>
          have isNul : memory address = 0 := held
          rw [printString, if_neg (not_not_intro isNul)]
  | cons byte bytes inductionHypothesis =>
      cases fuel with
      | zero =>
          exact absurd enough (Nat.not_lt_zero _)
      | succ fuel =>
          obtain ⟨here, nonzero, later⟩ := held
          rw [List.mem_cons, not_or] at noNul
          have rest :=
            inductionHypothesis noNul.2 later
              (Nat.lt_of_succ_lt_succ enough)
          rw [printString, here, if_pos nonzero, rest]
          rfl

/-- `strlen` counts the same for a string at two places. -/
theorem strlen_of_held
    (held : string.Held memory address)
    (heldOther : string.Held memoryOther other)
    (fuel : Nat) :
    (strlen memory fuel address).map Prod.fst =
      (strlen memoryOther fuel other).map Prod.fst := by
  by_cases short : string.length < 2 ^ 32
  · rw [strlen_eq held short, strlen_eq heldOther short]
    split
    · rfl
    · rfl
  · have long := Nat.le_of_not_lt short
    rw [strlen, strlen, strlenLoop_of_long held long,
      strlenLoop_of_long heldOther long]

end Readers

/--
`strcpy` returns with the string in the destination and everything else
unchanged, and the callers' loops find the string there.
-/
def CopiesString
    (memory : Memory)
    (dest src : Nat)
    (string : CString) :
    Prop :=
  ∃ copied,
    (∃ fuel, strcpy memory fuel dest src = some copied) ∧
      string.Held copied dest ∧
      (∀ address,
        address < dest ∨ dest + string.length < address →
        copied address = memory address) ∧
      (∀ fuel,
        (strlen copied fuel dest).map Prod.fst =
          (strlen memory fuel src).map Prod.fst) ∧
      ∃ fuel, printString copied fuel dest = some string.bytes

section Copies

variable {memory : Memory}
variable {dest src : Nat}
variable {string : CString}

/-- `strcpy` copies where the destination already ends in a 0. -/
theorem copiesString_of_zero
    (held : string.Held memory src)
    (apart : Apart dest src string)
    (isNul : memory (dest + string.length) = 0) :
    CopiesString memory dest src string := by
  have heldCopy := held_stored_iff.mpr isNul
  refine
    ⟨stored memory dest string string.length,
      ⟨string.length + 1, ?_⟩, heldCopy, ?_, ?_, string.length + 1, ?_⟩
  · rw [strcpy_eq held apart, if_pos (Nat.lt_succ_self _)]
  · intro address outside
    rw [stored, if_neg (by omega)]
  · exact strlen_of_held heldCopy held
  · exact printString_of_held heldCopy (Nat.lt_succ_self _)

/-- `strcpy` leaves no string where the destination does not end in a 0. -/
theorem zero_of_copiesString
    (held : string.Held memory src)
    (apart : Apart dest src string)
    (copies : CopiesString memory dest src string) :
    memory (dest + string.length) = 0 := by
  obtain ⟨copied, ⟨fuel, returned⟩, heldCopy, -⟩ := copies
  rw [strcpy_eq held apart] at returned
  split at returned
  · obtain rfl := Option.some.inj returned
    exact held_stored_iff.mp heldCopy
  · cases returned

/--
`strcpy` copies a string exactly when the byte of the destination where its
terminator belongs was already a 0.
-/
theorem strcpy_copiesString_iff
    (held : string.Held memory src)
    (apart : Apart dest src string) :
    CopiesString memory dest src string ↔
      memory (dest + string.length) = 0 := by
  constructor
  · exact zero_of_copiesString held apart
  · exact copiesString_of_zero held apart

end Copies

/-- The string `Hello` -/
def hello : CString where
  bytes := [0x48, 0x65, 0x6C, 0x6C, 0x6F]
  noNul := by decide

/-- `Hello` in memory, followed by bytes that are all the same -/
def helloBefore (byte : UInt8) : Memory :=
  spelled
    ([] ++ hello.bytes ++ 0 :: List.replicate 16 byte)

/-- Memory holds `Hello` at its start. -/
theorem held_helloBefore (byte : UInt8) :
    hello.Held (helloBefore byte) 0 :=
  CString.held_spelled hello [] _

/-- A copy 8 bytes further on does not overlap it. -/
theorem apart_hello : Apart 8 0 hello :=
  Or.inr (by decide)

/-- `Hello` is copied into cleared memory. -/
theorem strcpy_copiesString_cleared :
    CopiesString (helloBefore 0) 8 0 hello :=
  (strcpy_copiesString_iff (held_helloBefore 0) apart_hello).mpr (by decide)

/-- Copying `Hello` into used memory leaves no string. -/
theorem strcpy_used_counterexample :
    ¬ ∀ (memory : Memory) (dest src : Nat) (string : CString),
      string.Held memory src →
      Apart dest src string →
      CopiesString memory dest src string := by
  intro always
  have isNul :=
    zero_of_copiesString (held_helloBefore 0x78) apart_hello
      (always _ 8 0 hello (held_helloBefore 0x78) apart_hello)
  exact absurd isNul (by decide)

end Relics.Strings
