import Mathlib.Algebra.Group.Nat.Defs
import Relics.BootPaging
import Relics.CountedLoop

namespace Relics.Paging

/-!
# What is mapped after `paging_init`

`paging_init` fills three static tables and leaves the first entry of `pml4`
in `cr3`.  That entry is 0x101003, so the processor starts its walk at the
second boot table and finds the 2 MiB page of the first boot table one level
too high, where it maps 1 GiB.  Nothing else is mapped, and the static tables
are never read.
-/

open ByteMemory CountedLoop

section Source

/-- `PAGE_DIR_BIT_PAT` -/
def pageDirBitPat : Nat := 1 <<< 12

/-- `PAGE_DIR_BIT_SUPERVISOR` -/
def pageDirBitSupervisor : Nat := 0 <<< 2

/-- The entry `blank_page_dir` writes to `page_directory[i]` -/
def pageDirectory (_ : Nat) : Nat :=
  pageDirBitRw ||| pageDirBitPat ||| pageDirBitSupervisor ||| pageDirBitPresent

/-- The entry `fill_pdp` writes to `page_directory_ptr[i]` -/
def pageDirectoryPtr (i : Nat) : Nat :=
  i <<< 30 ||| 1 <<< 20 ||| pageDirBitSupervisor ||| pageDirBitRw |||
    pageDirBitPresent

/-- A loop that writes an entry to each of the 512 places of a table. -/
def fillEntries (memory : Memory) (table : Nat) (entry : Nat → Nat) : Memory :=
  loop (fun i memory => store memory (table + 8 * i) 8 (entry i)) memory 512

/--
Where the linker places the static tables: page aligned, below 2 MiB, apart
from each other and from the boot tables.
-/
structure Statics where
  pageDirectory : Nat
  pageDirectoryPtr : Nat
  pml4 : Nat
  aligned : ∀ table ∈ [pageDirectory, pageDirectoryPtr, pml4], 4096 ∣ table
  low : ∀ table ∈ [pageDirectory, pageDirectoryPtr, pml4],
    table + 4096 ≤ 0x200000
  free : ∀ table ∈ [pageDirectory, pageDirectoryPtr, pml4],
    table + 4096 ≤ 0x100000 ∨ 0x103000 ≤ table
  apart : [pageDirectory, pageDirectoryPtr, pml4].Nodup

/-- `blank_page_dir`, `fill_pdp` and `fill_pml4` -/
def fillStatics (statics : Statics) (memory : Memory) : Memory :=
  let memory := fillEntries memory statics.pageDirectory pageDirectory
  let memory := fillEntries memory statics.pageDirectoryPtr pageDirectoryPtr
  fillEntries memory statics.pml4 pml4

/-- `load_page_dir`: `cr3` is loaded from the memory its argument points to. -/
def loadPageDirAt (memory : Memory) (rdi : Nat) : Nat :=
  load memory rdi 8

/-- `paging_init`: the memory it leaves and `cr3` -/
def pagingInitAt (statics : Statics) (memory : Memory) : Memory × Nat :=
  let memory := fillStatics statics memory
  (memory, loadPageDirAt memory statics.pml4)

end Source

section Processor

/-- Bit 0 of an entry: the entry is present. -/
def isPresent (entry : Nat) : Bool :=
  entry.testBit 0

/-- Bit 7 of an entry of the third or second level: it maps a page. -/
def isPage (entry : Nat) : Bool :=
  entry.testBit 7

/-- The walk of the processor through four levels of tables. -/
def walk (memory : Memory) (cr3 address : Nat) : Option Nat :=
  let fourth := tableEntry memory (physicalAddress cr3) (address / 2 ^ 39 % 512)
  if isPresent fourth = false then
    none
  else
    let third :=
      tableEntry memory (physicalAddress fourth) (address / 2 ^ 30 % 512)
    if isPresent third = false then
      none
    else if isPage third = true then
      some ((third &&& 0x000fffffc0000000) + address % 2 ^ 30)
    else
      let second :=
        tableEntry memory (physicalAddress third) (address / 2 ^ 21 % 512)
      if isPresent second = false then
        none
      else if isPage second = true then
        some ((second &&& 0x000fffffffe00000) + address % 2 ^ 21)
      else
        let first :=
          tableEntry memory (physicalAddress second) (address / 2 ^ 12 % 512)
        if isPresent first = false then
          none
        else
          some (physicalAddress first + address % 2 ^ 12)

end Processor

section Filling

variable
    {memory : Memory}
    {table index : Nat}
    {entry : Nat → Nat}

/-- The loop writes to its table only. -/
theorem fillEntries_outside
    {other : Nat}
    (outside : other < table ∨ table + 4096 ≤ other) :
    fillEntries memory table entry other = memory other := by
  apply loop_invariant (fun _ (state : Memory) => state other = memory other) rfl
  intro i state inside same
  rw [store_outside (by omega), same]

/-- A filled table holds the entries that were written. -/
theorem tableEntry_fillEntries
    (inside : index < 512) :
    tableEntry (fillEntries memory table entry) table index =
      entry index % 2 ^ 64 := by
  refine
    loop_invariant
      (fun count (state : Memory) =>
        index < count → tableEntry state table index = entry index % 2 ^ 64)
      (fun before => absurd before (Nat.not_lt_zero _))
      (fun i state _ earlier before => ?_) inside
  by_cases last : index = i
  · subst last
    exact load_store_same _ _ _ _
  · rw [tableEntry, load_store_apart (by omega)]
    exact earlier (by omega)

end Filling

section Mapping

/-- Memory holds the tables of the boot code. -/
def HoldsBootTables (memory : Memory) : Prop :=
  ∃ origin : Memory,
    ∀ address,
      0x100000 ≤ address →
      address < 0x103000 →
      memory address = setupPaging64bit origin address

variable
    {memory : Memory}
    (statics : Statics)

/-- The static tables are filled without touching the boot tables. -/
theorem fillStatics_boot
    {address : Nat}
    (low : 0x100000 ≤ address)
    (high : address < 0x103000) :
    fillStatics statics memory address = memory address := by
  have free (table : Nat)
      (member :
        table ∈ [statics.pageDirectory, statics.pageDirectoryPtr, statics.pml4]) :
      address < table ∨ table + 4096 ≤ address := by
    have apart := statics.free table member
    omega
  simp only [fillStatics]
  rw [fillEntries_outside (free _ (by simp)),
    fillEntries_outside (free _ (by simp)),
    fillEntries_outside (free _ (by simp))]

/-- The second and third boot tables are still there after `paging_init`. -/
theorem tableEntry_boot
    (boot : HoldsBootTables memory)
    {index : Nat}
    (inside : index < 512) :
    tableEntry (fillStatics statics memory) 0x101000 index =
        (if index = 0 then 0x100003 else 0) ∧
      tableEntry (fillStatics statics memory) 0x100000 index =
        if index = 0 then 0x83 else 0 := by
  obtain ⟨origin, held⟩ := boot
  have same (table : Nat) (low : 0x100000 ≤ table) (high : table ≤ 0x102000) :
      tableEntry (fillStatics statics memory) table index =
        tableEntry (setupPaging64bit origin) table index := by
    apply load_congr
    intro other lower upper
    rw [fillStatics_boot statics (by omega) (by omega),
      held other (by omega) (by omega)]
  rw [same 0x101000 (by decide) (by decide),
    same 0x100000 (by decide) (by decide)]
  exact ⟨tableEntry_middle inside, tableEntry_lowest inside⟩

/-- `cr3` holds the first entry of `pml4`. -/
theorem pagingInitAt_cr3
    (memory : Memory) :
    (pagingInitAt statics memory).2 = pagingInit := by
  have first :
      tableEntry (fillStatics statics memory) statics.pml4 0 =
        pml4 0 % 2 ^ 64 :=
    tableEntry_fillEntries (by decide)
  exact first

/-- Below 512 GiB the walk succeeds in the first gigabyte only. -/
theorem walk_pagingInitAt
    (boot : HoldsBootTables memory)
    {address : Nat}
    (inside : address < 2 ^ 39) :
    walk (pagingInitAt statics memory).1 (pagingInitAt statics memory).2
        address =
      if address < 2 ^ 30 then some address else none := by
  have top : address / 2 ^ 39 % 512 = 0 := by
    omega
  have below : address / 2 ^ 30 % 512 = address / 2 ^ 30 := by
    omega
  have atTop := (tableEntry_boot statics boot (Nat.zero_lt_succ 511)).1
  have inTable : address / 2 ^ 30 < 512 := by
    omega
  have atThird := (tableEntry_boot statics boot inTable).2
  have start : physicalAddress pagingInit = 0x101000 := by
    decide
  have next : physicalAddress 0x100003 = 0x100000 := by
    decide
  rw [if_pos rfl] at atTop
  rw [pagingInitAt_cr3, walk]
  by_cases first : address < 2 ^ 30
  · have offset : address % 2 ^ 30 = address := by
      omega
    have entry : 0x83 &&& 0x000fffffc0000000 = 0 := by
      decide
    rw [if_pos (by omega)] at atThird
    simp only [pagingInitAt, start, top, atTop, next, below, atThird, offset,
      entry, Nat.zero_add, isPresent, isPage]
    rw [if_pos first, if_neg (by decide), if_neg (by decide),
      if_pos (by decide)]
  · rw [if_neg (by omega)] at atThird
    simp only [pagingInitAt, start, top, atTop, next, below, atThird,
      isPresent]
    rw [if_neg first, if_neg (by decide), if_pos (by decide)]

/--
After `paging_init` an address below 512 GiB is mapped to itself exactly if it
lies in the first gigabyte.
-/
theorem walk_eq_self_iff
    (memory : Memory)
    (statics : Statics)
    (boot : HoldsBootTables memory)
    (address : Nat)
    (inside : address < 2 ^ 39) :
    walk (pagingInitAt statics memory).1 (pagingInitAt statics memory).2
        address = some address ↔
      address < 2 ^ 30 := by
  rw [walk_pagingInitAt statics boot inside]
  split
  · case _ first =>
      simpa using first
  · case _ beyond =>
      simpa using beyond

/-- Memory that holds the boot tables and nothing else. -/
def bootMemory : Memory :=
  setupPaging64bit fun _ => 0

theorem holdsBootTables_bootMemory : HoldsBootTables bootMemory :=
  ⟨fun _ => 0, fun _ _ _ => rfl⟩

/-- The static tables in the pages behind the boot tables. -/
def exampleStatics : Statics where
  pageDirectory := 0x103000
  pageDirectoryPtr := 0x104000
  pml4 := 0x105000
  aligned := by decide
  low := by decide
  free := by decide
  apart := by decide

/-- The video memory is mapped to itself. -/
theorem walk_eq_self_videoMemory :
    walk (pagingInitAt exampleStatics bootMemory).1
        (pagingInitAt exampleStatics bootMemory).2 0xb8000 =
      some 0xb8000 :=
  (walk_eq_self_iff bootMemory exampleStatics holdsBootTables_bootMemory
    0xb8000 (by decide)).mpr (by decide)

/-- The first byte of the second gigabyte is not mapped. -/
theorem walk_secondGigabyte :
    walk (pagingInitAt exampleStatics bootMemory).1
        (pagingInitAt exampleStatics bootMemory).2 (2 ^ 30) =
      none := by
  rw [walk_pagingInitAt exampleStatics holdsBootTables_bootMemory
    (by decide)]
  rfl

end Mapping

end Relics.Paging
