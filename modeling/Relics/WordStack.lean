import Relics.ByteMemory

namespace WordStack

/-!
# A descending stack of 64-bit words in byte memory

The stack pointer moves down by 8 for each word pushed and wraps at the end
of the address space.  `Holds` describes the words from the pointer up; a
push puts a word in front and keeps the others, because slots whose distance
is a multiple of 8 below 2^64 never overlap.
-/

open ByteMemory

/-- The 64-bit word at an address. -/
def readWord (memory : Memory) (address : UInt64) : UInt64 :=
  UInt64.ofNat (load memory address.toNat 8)

/-- Store a 64-bit word at an address. -/
def writeWord (memory : Memory) (address value : UInt64) : Memory :=
  store memory address.toNat 8 value.toNat

/-- The words stored from an address up. -/
def Holds (memory : Memory) : (pointer : UInt64) → List UInt64 → Prop
  | _, [] => True
  | pointer, value :: rest =>
      readWord memory pointer = value ∧ Holds memory (pointer + 8) rest

variable
    {memory : Memory}
    {pointer value : UInt64}
    {values rest : List UInt64}

/-- A word is read back where it was written. -/
theorem readWord_writeWord_same :
    readWord (writeWord memory pointer value) pointer = value := by
  have fits : value.toNat % 256 ^ 8 = value.toNat :=
    Nat.mod_eq_of_lt value.toNat_lt
  unfold readWord writeWord
  rw [load_store_same, fits]
  exact UInt64.ofNat_toNat

/-- A word written some whole slots below is not seen. -/
theorem readWord_writeWord_below
    {target stored : UInt64}
    {slots : Nat}
    (below : pointer.toNat = (target.toNat + 8 * (slots + 1)) % 2 ^ 64)
    (near : slots + 1 < 2 ^ 61) :
    readWord (writeWord memory target stored) pointer =
      readWord memory pointer := by
  have lowBound := target.toNat_lt
  unfold readWord writeWord
  rw [load_store_apart (by omega)]

/-- Words above a slot survive a write to it. -/
theorem Holds.write_below
    {target stored : UInt64}
    (slots : Nat)
    (holds : Holds memory pointer values)
    (below : pointer.toNat = (target.toNat + 8 * (slots + 1)) % 2 ^ 64)
    (near : slots + 1 + values.length < 2 ^ 61) :
    Holds (writeWord memory target stored) pointer values := by
  induction values generalizing pointer slots with
  | nil =>
      trivial
  | cons value rest inductionHypothesis =>
      obtain ⟨first, later⟩ := holds
      rw [List.length_cons] at near
      have nextBelow :
          (pointer + 8).toNat =
            (target.toNat + 8 * (slots + 1 + 1)) % 2 ^ 64 := by
        rw [UInt64.toNat_add, below]
        simp
        omega
      refine ⟨?_, inductionHypothesis (slots + 1) later nextBelow (by omega)⟩
      rw [readWord_writeWord_below below (by omega)]
      exact first

/-- Words are held wherever their bytes are. -/
theorem Holds.congr
    {first second : Memory}
    (same :
      ∀ address,
        pointer.toNat ≤ address →
        address < pointer.toNat + 8 * values.length →
        first address = second address)
    (fits : pointer.toNat + 8 * values.length < 2 ^ 64)
    (holds : Holds first pointer values) :
    Holds second pointer values := by
  induction values generalizing pointer with
  | nil =>
      trivial
  | cons value rest inductionHypothesis =>
      rw [List.length_cons] at fits same
      have next : (pointer + 8).toNat = pointer.toNat + 8 := by
        rw [UInt64.toNat_add]
        exact Nat.mod_eq_of_lt (by simp only [UInt64.reduceToNat]; omega)
      refine ⟨?_, inductionHypothesis ?_ (by omega) holds.2⟩
      · have bytes :
            load first pointer.toNat 8 = load second pointer.toNat 8 :=
          load_congr fun address lower upper =>
            same address lower (by omega)
        rw [readWord, ← bytes]
        exact holds.1
      · intro address lower upper
        exact same address (by omega) (by omega)

/-- Pushing a word puts it in front of the words held. -/
theorem Holds.push
    (holds : Holds memory pointer values)
    (near : values.length + 1 < 2 ^ 61) :
    Holds (writeWord memory (pointer - 8) value) (pointer - 8)
      (value :: values) := by
  refine ⟨readWord_writeWord_same, ?_⟩
  have below :
      pointer.toNat = ((pointer - 8).toNat + 8 * (0 + 1)) % 2 ^ 64 := by
    have bounded := pointer.toNat_lt
    rw [UInt64.toNat_sub]
    simp
    omega
  rw [UInt64.sub_add_cancel]
  exact holds.write_below 0 below (by omega)

end WordStack
