import Mathlib.Order.Nat
import Relics.ByteMemory

namespace ByteMemory

/-!
# Zero-terminated strings

A string is a sequence of bytes without a 0, and memory holds it at an address
when the bytes and a 0 behind them stand there.  Counting the terminator as a
byte of each, two strings are the same or differ first at some index, which is
not behind the end of either.
-/

/-- A sequence of bytes without a 0. -/
structure CString where
  bytes : List UInt8
  noNul : 0 ∉ bytes

namespace CString

/-- The length of a string, without its terminator. -/
def length (string : CString) : Nat :=
  string.bytes.length

/-- The byte at an index; behind the last one it is 0. -/
def byte (string : CString) (index : Nat) : UInt8 :=
  string.bytes.getD index 0

/-- Memory holds a string and its terminator. -/
def Held (string : CString) (memory : Memory) (address : Nat) : Prop :=
  Spells memory address string.bytes

/-- Two strings differ first at an index. -/
structure DifferAt (first second : CString) (index : Nat) : Prop where
  same : ∀ earlier < index, first.byte earlier = second.byte earlier
  different : first.byte index ≠ second.byte index

variable {string first second : CString}
variable {memory : Memory}
variable {address index count : Nat}

/-- The bytes of a string are not 0. -/
theorem byte_ne_zero
    (inside : index < string.length) :
    string.byte index ≠ 0 := by
  intro isNul
  apply string.noNul
  rw [← isNul, byte, List.getD_eq_getElem?_getD,
    List.getElem?_eq_getElem inside]
  exact List.getElem_mem inside

/-- From its length on a string continues with zeros. -/
theorem byte_eq_zero
    (outside : string.length ≤ index) :
    string.byte index = 0 := by
  rw [byte, List.getD_eq_getElem?_getD, List.getElem?_eq_none outside]
  rfl

/-- Memory holds a string when it holds its bytes up to the terminator. -/
theorem held_iff :
    string.Held memory address ↔
      ∀ index ≤ string.length, memory (address + index) = string.byte index := by
  rcases string with ⟨bytes, noNul⟩
  change Spells memory address bytes ↔
    ∀ index ≤ bytes.length, memory (address + index) = bytes.getD index 0
  induction bytes generalizing address with
  | nil =>
      constructor
      · intro ends index atEnd
        have isFirst : index = 0 := Nat.le_zero.mp atEnd
        subst isFirst
        exact ends
      · intro held
        exact held 0 (Nat.le_refl 0)
  | cons byte bytes inductionHypothesis =>
      rw [List.mem_cons, not_or] at noNul
      rw [Spells, inductionHypothesis noNul.2]
      constructor
      · rintro ⟨here, _, later⟩ index inside
        cases index with
        | zero =>
            exact here
        | succ index =>
            have behind := later index (Nat.le_of_succ_le_succ inside)
            rw [Nat.add_right_comm, Nat.add_assoc] at behind
            exact behind
      · intro held
        refine ⟨held 0 (Nat.zero_le _), Ne.symm noNul.1, ?_⟩
        intro index inside
        have behind := held (index + 1) (Nat.succ_le_succ inside)
        rw [← Nat.add_assoc, Nat.add_right_comm] at behind
        exact behind

/-- A string is held where a layout spells it. -/
theorem held_spelled
    (string : CString)
    (before behind : List UInt8) :
    string.Held (spelled (before ++ string.bytes ++ 0 :: behind))
      before.length := by
  rw [held_iff]
  intro index inside
  rw [spelled, byte, List.append_assoc, List.getD_eq_getElem?_getD,
    List.getElem?_append_right (Nat.le_add_right _ _),
    Nat.add_sub_cancel_left, List.getD_eq_getElem?_getD]
  rcases Nat.lt_or_eq_of_le inside with inBytes | atEnd
  · rw [List.getElem?_append_left inBytes]
  · subst atEnd
    simp [length]

/-- Strings with the same bytes have the same sequence of bytes. -/
theorem bytes_eq_of_byte_eq
    (same : ∀ index, first.byte index = second.byte index) :
    first.bytes = second.bytes := by
  have sameLength : first.length = second.length := by
    rcases Nat.lt_trichotomy first.length second.length with
      shorter | equal | longer
    · have ended := byte_eq_zero (Nat.le_refl first.length)
      rw [same] at ended
      exact absurd ended (byte_ne_zero shorter)
    · exact equal
    · have ended := byte_eq_zero (Nat.le_refl second.length)
      rw [← same] at ended
      exact absurd ended (byte_ne_zero longer)
  apply List.ext_getElem sameLength
  intro index inFirst inSecond
  have sameByte := same index
  simpa [byte, List.getD_eq_getElem?_getD, inFirst, inSecond] using sameByte

/-- Strings that are not the same differ first somewhere. -/
theorem exists_differAt
    (notSame : first.bytes ≠ second.bytes) :
    ∃ index, DifferAt first second index := by
  have somewhere : ∃ index, first.byte index ≠ second.byte index := by
    by_contra nowhere
    apply notSame
    apply bytes_eq_of_byte_eq
    intro index
    by_contra different
    exact nowhere ⟨index, different⟩
  classical
  refine ⟨Nat.find somewhere, ?_, Nat.find_spec somewhere⟩
  intro earlier before
  exact not_not.mp (Nat.find_min somewhere before)

namespace DifferAt

theorem symm
    (differ : DifferAt first second index) :
    DifferAt second first index where
  same := fun earlier before => (differ.same earlier before).symm
  different := Ne.symm differ.different

/-- Strings do not first differ behind the end of one of them. -/
theorem le_length
    (differ : DifferAt first second index) :
    index ≤ first.length := by
  by_contra behind
  have before : first.length < index := Nat.lt_of_not_le behind
  have ended := byte_eq_zero (Nat.le_refl first.length)
  rw [differ.same _ before] at ended
  have secondEnds : second.length ≤ first.length := by
    by_contra longer
    exact byte_ne_zero (Nat.lt_of_not_le longer) ended
  apply differ.different
  rw [byte_eq_zero (Nat.le_of_lt before),
    byte_eq_zero (Nat.le_trans secondEnds (Nat.le_of_lt before))]

/-- The beginnings of two strings agree up to where they differ first. -/
theorem take_eq_iff
    (differ : DifferAt first second index) :
    first.bytes.take count = second.bytes.take count ↔ count ≤ index := by
  constructor
  · intro same
    by_contra beyond
    apply differ.different
    have sameByte :=
      congrArg (fun bytes : List UInt8 => bytes.getD index 0) same
    simpa [byte, List.getD_eq_getElem?_getD, List.getElem?_take,
      Nat.lt_of_not_le beyond] using sameByte
  · intro within
    have inFirst := differ.le_length
    have inSecond := differ.symm.le_length
    apply List.ext_getElem
    · rw [List.length_take_of_le (Nat.le_trans within inFirst),
        List.length_take_of_le (Nat.le_trans within inSecond)]
    · intro earlier insideFirst insideSecond
      rw [List.length_take, Nat.lt_min] at insideFirst insideSecond
      have sameByte :=
        differ.same earlier (Nat.lt_of_lt_of_le insideFirst.1 within)
      simpa [byte, List.getD_eq_getElem?_getD, insideFirst.2,
        insideSecond.2] using sameByte

/-- One string is the beginning of the other when they differ at its end. -/
theorem eq_length_iff
    (differ : DifferAt first second index) :
    index = first.length ↔ first.bytes <+: second.bytes := by
  constructor
  · intro atEnd
    have sameBeginning := differ.take_eq_iff.mpr (Nat.le_refl index)
    rw [atEnd, length, List.take_length] at sameBeginning
    rw [sameBeginning]
    exact List.take_prefix _ _
  · rintro ⟨rest, extended⟩
    apply Nat.le_antisymm differ.le_length
    apply differ.take_eq_iff.mp
    rw [length, List.take_length, ← extended, List.take_left]

end DifferAt

end CString

end ByteMemory
