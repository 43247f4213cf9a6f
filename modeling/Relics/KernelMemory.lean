import Relics.BootPaging
import Relics.E820Setup
import Relics.MallocFragments

namespace Relics

/-!
# The memory the running kernel depends on

The boot loader, the entry code and the page-table setup each place something
at a fixed physical address: the E820 count and table, the kernel image and
the page tables.  `pmem_map` hands every usable entry of the E820 map to the
allocator and removes none of these bytes from it, so the heap avoids them
exactly when the firmware reports none of them as usable.
-/

open ByteMemory ExtentTiling Malloc Paging
open E820 (smapAddress smapCountAddress)

/-- `KERNEL_LOCATION` -/
def kernelLocation : Nat := 0x1000

/-- The bytes the boot loader reads from the disk: 54 sectors. -/
def kernelImageSize : Nat := 54 * 512

/--
The bytes the kernel depends on when the map has `count` entries: the count,
the table, the image and the page tables still in use, as set up in `boot`.
-/
def kernelMemory (boot : Memory) (count : Nat) : Set Nat :=
  { address |
    (smapCountAddress ≤ address ∧ address < smapCountAddress + 4) ∨
      (smapAddress ≤ address ∧
        address < smapAddress + e820EntrySize * count) ∨
      (kernelLocation ≤ address ∧
        address < kernelLocation + kernelImageSize) ∨
      ∃ level table,
        TableInUse (setupPaging64bit boot) pagingInit level table ∧
          table ≤ address ∧ address < table + 4096 }

/-- The entries `pmem_map` copies to `usable_map` and gives to `kmalloc_init` -/
def pmemMap (e820Map : List E820Map64) : List E820Map64 :=
  e820Map.filter fun entry => entry.entryType = e820TypeUsable

/-- No byte of a block, free or handed out, is one the kernel depends on. -/
def HeapAvoidsKernel
    (freeList : Nat)
    (boot memory : Memory)
    (e820Map : List E820Map64) :
    Prop :=
  ∀ actions state nodes,
    HeapState.Reaches freeList memory (pmemMap e820Map) actions state →
    FreeListIs freeList state nodes →
    ∀ header ∈ nodes ++ liveHeaders state,
      ∀ address,
        header ≤ address →
        address < blockEnd state header →
        address ∉ kernelMemory boot e820Map.length

section Bounds

variable
    {boot : Memory}
    {count address : Nat}

/-- The bytes the kernel depends on, with the page tables spelled out. -/
theorem mem_kernelMemory_iff :
    address ∈ kernelMemory boot count ↔
      (0x6f0 ≤ address ∧ address < 0x6f4) ∨
        (0x700 ≤ address ∧ address < 0x700 + 20 * count) ∨
        (0x1000 ≤ address ∧ address < 0x7c00) ∨
        (0x100000 ≤ address ∧ address < 0x102000) := by
  have tables :
      (∃ level table,
        TableInUse (setupPaging64bit boot) pagingInit level table ∧
          table ≤ address ∧ address < table + 4096) ↔
        0x100000 ≤ address ∧ address < 0x102000 := by
    constructor
    · rintro ⟨level, table, inUse, lower, upper⟩
      rcases tableInUse_iff.mp inUse with ⟨-, rfl⟩ | ⟨-, rfl⟩
      all_goals omega
    · rintro ⟨lower, upper⟩
      by_cases inLower : address < 0x101000
      · exact ⟨3, 0x100000, tableInUse_iff.mpr (.inr ⟨rfl, rfl⟩), by omega,
          by omega⟩
      · exact ⟨4, 0x101000, tableInUse_iff.mpr (.inl ⟨rfl, rfl⟩), by omega,
          by omega⟩
  simp only [kernelMemory, Set.mem_ofPred_eq, tables, smapCountAddress,
    smapAddress, e820EntrySize, kernelLocation, kernelImageSize]

end Bounds

/--
On well-formed usable entries the heap never contains a byte the kernel
depends on if and only if no usable entry, from its base rounded up to 8 on,
contains one.
-/
theorem heapAvoidsKernel_iff
    (freeList : Nat)
    (boot memory : Memory)
    (e820Map : List E820Map64)
    (regions : WellFormedRegions freeList (pmemMap e820Map)) :
    HeapAvoidsKernel freeList boot memory e820Map ↔
      ∀ entry ∈ e820Map,
        entry.entryType = e820TypeUsable →
        ∀ address,
          headerAddr entry ≤ address →
          address < entry.limit →
          address ∉ kernelMemory boot e820Map.length := by
  have arena := arena_heapBytes regions
  constructor
  · intro avoids entry member usable address lower upper
    have initially := heapInvariant_initial memory regions
    have inHeap : address ∈ heapBytes (pmemMap e820Map) :=
      ⟨entry, List.mem_filter.mpr ⟨member, decide_eq_true usable⟩, lower,
        upper⟩
    obtain ⟨header, inBlocks, fromHeader, toEnd⟩ :=
      ((initially.partition arena).covers address).mpr inHeap
    exact avoids [] _ _ .start (initially.freeListIs arena) header inBlocks
      address fromHeader toEnd
  · intro avoids actions state nodes reaches through header inBlocks address
      fromHeader toEnd
    obtain ⟨blocks, invariant⟩ := reaches_invariant regions reaches
    obtain rfl := invariant.eq_of_freeListIs arena through
    obtain ⟨entry, inUsable, lower, upper⟩ :=
      ((invariant.partition arena).covers address).mp
        ⟨header, inBlocks, fromHeader, toEnd⟩
    obtain ⟨member, usable⟩ := List.mem_filter.mp inUsable
    exact avoids entry member (of_decide_eq_true usable) address lower upper

/-- A map whose only usable entry lies above the boot page tables. -/
def mapAboveTables : List E820Map64 :=
  [ { baseaddr := 0, length := 0x100000, entryType := 2 },
    { baseaddr := 0x200000, length := 0x100000,
      entryType := e820TypeUsable } ]

/-- The heap of such a map avoids the kernel. -/
theorem heapAvoidsKernel_mapAboveTables :
    HeapAvoidsKernel 0x6000 (fun _ => 0) (fun _ => 0) mapAboveTables := by
  have regions : WellFormedRegions 0x6000 (pmemMap mapAboveTables) := {
    headFits := by decide
    disjoint := by decide
    below := by decide
    avoidsHead := by decide
    long := by decide }
  apply (heapAvoidsKernel_iff 0x6000 (fun _ => 0) (fun _ => 0) mapAboveTables
    regions).mpr
  intro entry member usable address lower upper inKernel
  have above : 0x200000 ≤ headerAddr entry := by
    have everyUsable :
        ∀ entry ∈ mapAboveTables,
          entry.entryType = e820TypeUsable → 0x200000 ≤ headerAddr entry := by
      decide
    exact everyUsable entry member usable
  have length : mapAboveTables.length = 2 := rfl
  rw [mem_kernelMemory_iff, length] at inKernel
  omega

/-- The map a common emulator reports for 128 MiB of memory. -/
def commonMap : List E820Map64 :=
  [ { baseaddr := 0, length := 0x9fc00, entryType := e820TypeUsable },
    { baseaddr := 0x9fc00, length := 0x400, entryType := 2 },
    { baseaddr := 0xf0000, length := 0x10000, entryType := 2 },
    { baseaddr := 0x100000, length := 0x7ee0000,
      entryType := e820TypeUsable },
    { baseaddr := 0x7fe0000, length := 0x20000, entryType := 2 },
    { baseaddr := 0xfffc0000, length := 0x40000, entryType := 2 } ]

/-- On the common map the first free blocks contain the E820 table itself. -/
theorem not_heapAvoidsKernel_commonMap :
    commonMap.length ≤ e820MaxEntries ∧
      ¬HeapAvoidsKernel 0x6000 (fun _ => 0) (fun _ => 0) commonMap := by
  refine ⟨by decide, ?_⟩
  intro avoids
  let state := HeapState.initial 0x6000 (fun _ => 0) (pmemMap commonMap)
  have through : FreeListIs 0x6000 state [0x100000, 0] := {
    ring := by
      simp only [LinkedRing.Ring, List.cons_append, List.nil_append,
        List.isChain_cons_cons, LinkedRing.Linked, List.isChain_singleton]
      decide +kernel
    headOutside := by decide }
  have inFirst : 0x700 < blockEnd state 0 := by
    decide +kernel
  apply avoids [] state [0x100000, 0] .start through 0 (by simp) 0x700
    (by decide) inFirst
  rw [mem_kernelMemory_iff]
  decide

end Relics
