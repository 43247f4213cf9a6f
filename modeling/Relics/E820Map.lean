import Relics.ByteMemory

namespace Relics

/-!
# The E820 memory map

`struct e820_map_64` is packed: a 64-bit base, a 64-bit length and a 32-bit
type, 20 bytes in all.
-/

open ByteMemory

/-- `struct e820_map_64` -/
structure E820Map64 where
  baseaddr : UInt64
  length : UInt64
  entryType : UInt32
  deriving DecidableEq, Repr

/-- `E820_TYPE_USABLE` -/
def e820TypeUsable : UInt32 := 1

/-- `E820_MAX_ENTRIES` -/
def e820MaxEntries : Nat := 100

/-- `sizeof(struct e820_map_64)` -/
def e820EntrySize : Nat := 20

namespace E820Map64

/-- The first byte of the region. -/
def base (entry : E820Map64) : Nat :=
  entry.baseaddr.toNat

/-- The first byte after the region. -/
def limit (entry : E820Map64) : Nat :=
  entry.baseaddr.toNat + entry.length.toNat

/-- Read the entry at an address. -/
def read (memory : Memory) (address : Nat) : E820Map64 where
  baseaddr := UInt64.ofNat (load memory address 8)
  length := UInt64.ofNat (load memory (address + 8) 8)
  entryType := UInt32.ofNat (load memory (address + 16) 4)

/-- Write the 20 bytes of an entry at an address. -/
def write (memory : Memory) (address : Nat) (entry : E820Map64) : Memory :=
  let memory := store memory address 8 entry.baseaddr.toNat
  let memory := store memory (address + 8) 8 entry.length.toNat
  store memory (address + 16) 4 entry.entryType.toNat

/-- Reading an entry back where it was written. -/
theorem read_write_same
    (memory : Memory)
    (address : Nat)
    (entry : E820Map64) :
    read (write memory address entry) address = entry := by
  have base :
      load (write memory address entry) address 8 = entry.baseaddr.toNat := by
    simp only [write]
    rw [load_store_apart (by omega), load_store_apart (by omega),
      load_store_same]
    exact Nat.mod_eq_of_lt entry.baseaddr.toNat_lt
  have length :
      load (write memory address entry) (address + 8) 8 =
        entry.length.toNat := by
    simp only [write]
    rw [load_store_apart (by omega), load_store_same]
    exact Nat.mod_eq_of_lt entry.length.toNat_lt
  have entryType :
      load (write memory address entry) (address + 16) 4 =
        entry.entryType.toNat := by
    simp only [write]
    rw [load_store_same]
    exact Nat.mod_eq_of_lt entry.entryType.toNat_lt
  simp [read, base, length, entryType]

/-- Writing an entry changes only its 20 bytes. -/
theorem write_outside
    {memory : Memory}
    {address other : Nat}
    {entry : E820Map64}
    (outside : other < address ∨ address + e820EntrySize ≤ other) :
    write memory address entry other = memory other := by
  unfold e820EntrySize at outside
  simp only [write]
  rw [store_outside (by omega), store_outside (by omega),
    store_outside (by omega)]

/-- Reading an entry depends on its 20 bytes only. -/
theorem read_congr
    {first second : Memory}
    {address : Nat}
    (same :
      ∀ other,
        address ≤ other →
        other < address + e820EntrySize →
        first other = second other) :
    read first address = read second address := by
  unfold e820EntrySize at same
  have base : load first address 8 = load second address 8 :=
    load_congr fun other lower upper => same other lower (by omega)
  have length : load first (address + 8) 8 = load second (address + 8) 8 :=
    load_congr fun other lower upper => same other (by omega) (by omega)
  have entryType :
      load first (address + 16) 4 = load second (address + 16) 4 :=
    load_congr fun other lower upper => same other (by omega) (by omega)
  simp only [read, base, length, entryType]

end E820Map64

end Relics
