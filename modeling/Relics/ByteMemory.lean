import Mathlib.Tactic.Ring

namespace ByteMemory

/-!
# Byte-addressed memory with little-endian words

A memory is the byte stored at each address.  A word of any width is loaded
from and stored to consecutive bytes, least significant byte first.  The two
facts every client needs are that a load at the address of a store returns
the stored value and that a load elsewhere does not see the store.
-/

/-- The byte stored at each address. -/
abbrev Memory := Nat → UInt8

/-- Replace the byte at one address. -/
def setByte
    (memory : Memory)
    (address : Nat)
    (byte : UInt8) :
    Memory :=
  fun other => if other = address then byte else memory other

/-- Load a little-endian word of `width` bytes. -/
def load (memory : Memory) : (address width : Nat) → Nat
  | _, 0 => 0
  | address, width + 1 =>
      (memory address).toNat + 256 * load memory (address + 1) width

/-- Store the low `width` bytes of a value, least significant byte first. -/
def store (memory : Memory) : (address width value : Nat) → Memory
  | _, 0, _ => memory
  | address, width + 1, value =>
      setByte (store memory (address + 1) width (value / 256))
        address (UInt8.ofNat value)

@[simp] theorem setByte_same
    (memory : Memory)
    (address : Nat)
    (byte : UInt8) :
    setByte memory address byte address = byte := by
  simp [setByte]

theorem setByte_other
    {memory : Memory}
    {address other : Nat}
    {byte : UInt8}
    (different : other ≠ address) :
    setByte memory address byte other = memory other := by
  simp [setByte, different]

/-- A load reads nothing but its own bytes. -/
theorem load_congr
    {first second : Memory}
    {address width : Nat}
    (same :
      ∀ other,
        address ≤ other →
        other < address + width →
        first other = second other) :
    load first address width = load second address width := by
  induction width generalizing address with
  | zero =>
      rfl
  | succ width inductionHypothesis =>
      have low : first address = second address :=
        same address (Nat.le_refl _) (by omega)
      have high :
          load first (address + 1) width =
            load second (address + 1) width := by
        apply inductionHypothesis
        intro other lower upper
        exact same other (by omega) (by omega)
      simp only [load, low, high]

/-- A load of more bytes continues where a load of fewer ends. -/
theorem load_add
    (memory : Memory)
    (address low high : Nat) :
    load memory address (low + high) =
      load memory address low + 256 ^ low * load memory (address + low) high := by
  induction low generalizing address with
  | zero =>
      simp [load]
  | succ low inductionHypothesis =>
      have rest := inductionHypothesis (address + 1)
      rw [Nat.add_right_comm low 1 high]
      simp only [load, rest, Nat.pow_succ']
      rw [Nat.add_right_comm address 1 low, Nat.add_assoc address low 1]
      ring

/-- A load of bytes that are all 0 is 0. -/
theorem load_eq_zero
    {memory : Memory}
    {address width : Nat}
    (zero :
      ∀ other,
        address ≤ other →
        other < address + width →
        memory other = 0) :
    load memory address width = 0 := by
  induction width generalizing address with
  | zero =>
      rfl
  | succ width inductionHypothesis =>
      have low : memory address = 0 :=
        zero address (Nat.le_refl _) (by omega)
      have high : load memory (address + 1) width = 0 := by
        apply inductionHypothesis
        intro other lower upper
        exact zero other (by omega) (by omega)
      simp [load, low, high]

/-- A store leaves every byte outside its range unchanged. -/
theorem store_outside
    {memory : Memory}
    {address width value other : Nat}
    (outside : other < address ∨ address + width ≤ other) :
    store memory address width value other = memory other := by
  induction width generalizing address value with
  | zero =>
      rfl
  | succ width inductionHypothesis =>
      have different : other ≠ address := by omega
      simp only [store, setByte_other different]
      exact inductionHypothesis (by omega)

/-- A stored 0 is 0 in every byte. -/
theorem store_zero_inside
    {memory : Memory}
    {address width other : Nat}
    (lower : address ≤ other)
    (upper : other < address + width) :
    store memory address width 0 other = 0 := by
  induction width generalizing address with
  | zero =>
      omega
  | succ width inductionHypothesis =>
      by_cases first : other = address
      · simp [store, first]
      · simp only [store, setByte_other first]
        exact inductionHypothesis (by omega) (by omega)

/-- Loading where a value was stored returns the value cut to the width. -/
theorem load_store_same
    (memory : Memory)
    (address width value : Nat) :
    load (store memory address width value) address width =
      value % 256 ^ width := by
  induction width generalizing address value with
  | zero =>
      simp [load, Nat.mod_one]
  | succ width inductionHypothesis =>
      have upper :
          load (store memory address (width + 1) value)
              (address + 1) width =
            load (store memory (address + 1) width (value / 256))
              (address + 1) width := by
        apply load_congr
        intro other lower _
        exact setByte_other (by omega)
      have lowByte : (UInt8.ofNat value).toNat = value % 256 :=
        UInt8.toNat_ofNat'
      have digits :
          value % 256 ^ (width + 1) =
            value % 256 + 256 * (value / 256 % 256 ^ width) := by
        rw [Nat.pow_succ', Nat.mod_mul]
      simp only [load, upper, inductionHypothesis]
      simp only [store, setByte_same, lowByte, digits]

/-- A store elsewhere is not seen by a load. -/
theorem load_store_apart
    {memory : Memory}
    {address width value other otherWidth : Nat}
    (apart :
      other + otherWidth ≤ address ∨ address + width ≤ other) :
    load (store memory address width value) other otherWidth =
      load memory other otherWidth := by
  apply load_congr
  intro byteAddress lower upper
  exact store_outside (by omega)

/-- The bytes from an address up to the first 0. -/
def Spells (memory : Memory) : (address : Nat) → (bytes : List UInt8) → Prop
  | address, [] => memory address = 0
  | address, byte :: rest =>
      memory address = byte ∧ byte ≠ 0 ∧ Spells memory (address + 1) rest

/-- A byte sequence at address 0, followed by zeros. -/
def spelled (bytes : List UInt8) : Memory :=
  fun address => bytes.getD address 0

/-- A byte sequence without a 0 is spelled where it is stored. -/
theorem spells_spelled
    (first rest : List UInt8)
    (nonzero : 0 ∉ rest) :
    Spells (spelled (first ++ rest)) first.length rest := by
  induction rest generalizing first with
  | nil =>
      simp [Spells, spelled]
  | cons byte rest inductionHypothesis =>
      obtain ⟨here, later⟩ := not_or.mp (mt List.mem_cons.mpr nonzero)
      have next := inductionHypothesis (first ++ [byte]) later
      rw [List.append_assoc, List.singleton_append, List.length_append]
        at next
      exact ⟨by simp [spelled], Ne.symm here, next⟩

end ByteMemory
