import Relics.ByteMemory

namespace Relics.Paging

/-!
# The page tables of the boot code

`setup_paging_64bit` builds three page tables and `paging_init` changes which
of them the processor starts from: `load_page_dir` loads the first entry of
`pml4` into `cr3`, not its address.  The processor then uses the table at
0x101000 as its top level and the one at 0x100000 below it, and nothing else.
-/

open ByteMemory

/-- `rep stosd`: store `eax` to `ecx` consecutive words from `edi` on. -/
def repStosd (memory : Memory) (edi eax : Nat) : (ecx : Nat) → Memory
  | 0 => memory
  | ecx + 1 => repStosd (store memory edi 4 eax) (edi + 4) eax ecx

/-- The code `setup_paging_64bit` has for each table: one entry, then zeros. -/
def fillTable (memory : Memory) (edi entry : Nat) : Memory :=
  let memory := store memory edi 4 entry
  let memory := store memory (edi + 4) 4 0
  repStosd memory (edi + 8) 0 (511 * 2)

/-- The tables `setup_paging_64bit` writes; `edi` moves 4096 bytes each time. -/
def setupPaging64bit (memory : Memory) : Memory :=
  let memory := fillTable memory 0x100000 0x83
  let memory := fillTable memory 0x101000 0x100003
  fillTable memory 0x102000 0x101003

/-- `PAGE_DIR_BIT_PRESENT` -/
def pageDirBitPresent : Nat := 1 <<< 0

/-- `PAGE_DIR_BIT_RW` -/
def pageDirBitRw : Nat := 1 <<< 1

/-- The entry `fill_pml4` writes to `pml4[i]` -/
def pml4 (i : Nat) : Nat :=
  i <<< 12 ||| 1 <<< 20 ||| 1 <<< 12 ||| pageDirBitRw ||| pageDirBitPresent

/-- `load_page_dir`: `cr3` becomes the first entry of the table it is given. -/
def loadPageDir (table : Nat → Nat) : Nat :=
  table 0

/-- The `cr3` that `paging_init` leaves. -/
def pagingInit : Nat :=
  loadPageDir pml4

/-- The entry of a page table at an index. -/
def tableEntry (memory : Memory) (table index : Nat) : Nat :=
  load memory (table + 8 * index) 8

/-- The physical address held in an entry or in `cr3`. -/
def physicalAddress (entry : Nat) : Nat :=
  entry &&& 0x000ffffffffff000

/--
The page tables the processor reads when it translates an address, by level:
4 for the top table, 1 for the table of 4 KiB pages.  At levels 3 and 2 bit 7
of an entry says that it maps a page.
-/
inductive TableInUse
    (memory : Memory)
    (cr3 : Nat) :
    (level table : Nat) → Prop where
  | root :
      TableInUse memory cr3 4 (physicalAddress cr3)
  | entry
      {level table index : Nat} :
      TableInUse memory cr3 (level + 1) table →
      0 < level →
      index < 512 →
      (tableEntry memory table index).testBit 0 = true →
      (level + 1 = 4 ∨ (tableEntry memory table index).testBit 7 = false) →
      TableInUse memory cr3 level
        (physicalAddress (tableEntry memory table index))

section Tables

variable
    {memory : Memory}
    {edi eax ecx table entry index other : Nat}

theorem repStosd_outside
    (outside : other < edi ∨ edi + 4 * ecx ≤ other) :
    repStosd memory edi eax ecx other = memory other := by
  induction ecx generalizing memory edi with
  | zero =>
      rfl
  | succ ecx inductionHypothesis =>
      rw [repStosd, inductionHypothesis (by omega), store_outside (by omega)]

theorem repStosd_zero_inside
    (lower : edi ≤ other)
    (upper : other < edi + 4 * ecx) :
    repStosd memory edi 0 ecx other = 0 := by
  induction ecx generalizing memory edi with
  | zero =>
      omega
  | succ ecx inductionHypothesis =>
      rw [repStosd]
      by_cases first : other < edi + 4
      · rw [repStosd_outside (by omega)]
        exact store_zero_inside lower first
      · exact inductionHypothesis (by omega) (by omega)

theorem fillTable_outside
    (outside : other < table ∨ table + 4096 ≤ other) :
    fillTable memory table entry other = memory other := by
  simp only [fillTable]
  rw [repStosd_outside (by omega), store_outside (by omega),
    store_outside (by omega)]

/-- A filled table holds one entry and is 0 elsewhere. -/
theorem tableEntry_fillTable
    (fits : entry < 2 ^ 32)
    (inside : index < 512) :
    tableEntry (fillTable memory table entry) table index =
      if index = 0 then entry else 0 := by
  by_cases first : index = 0
  · have low :
        load (fillTable memory table entry) table 4 = entry := by
      have seen :
          load (fillTable memory table entry) table 4 =
            load (store (store memory table 4 entry) (table + 4) 4 0)
              table 4 :=
        load_congr fun other _ upper => repStosd_outside (by omega)
      rw [seen, load_store_apart (by omega), load_store_same]
      exact Nat.mod_eq_of_lt fits
    have high :
        load (fillTable memory table entry) (table + 4) 4 = 0 := by
      apply load_eq_zero
      intro other lower upper
      simp only [fillTable]
      rw [repStosd_outside (by omega)]
      exact store_zero_inside lower (by omega)
    simp only [tableEntry, first, Nat.mul_zero, Nat.add_zero, ↓reduceIte]
    rw [load_add (fillTable memory table entry) table 4 4, low, high]
    rfl
  · simp only [tableEntry, first, ↓reduceIte]
    apply load_eq_zero
    intro other lower upper
    exact repStosd_zero_inside (by omega) (by omega)

theorem tableEntry_fillTable_apart
    (apart : other + 4096 ≤ table ∨ table + 4096 ≤ other)
    (inside : index < 512) :
    tableEntry (fillTable memory table entry) other index =
      tableEntry memory other index :=
  load_congr fun byteAddress lower upper => fillTable_outside (by omega)

/-- The table at 0x101000 points to the one at 0x100000. -/
theorem tableEntry_middle
    (inside : index < 512) :
    tableEntry (setupPaging64bit memory) 0x101000 index =
      if index = 0 then 0x100003 else 0 := by
  simp only [setupPaging64bit]
  rw [tableEntry_fillTable_apart (by omega) inside,
    tableEntry_fillTable (by decide) inside]

/-- The table at 0x100000 maps the first gigabyte. -/
theorem tableEntry_lowest
    (inside : index < 512) :
    tableEntry (setupPaging64bit memory) 0x100000 index =
      if index = 0 then 0x83 else 0 := by
  simp only [setupPaging64bit]
  rw [tableEntry_fillTable_apart (by omega) inside,
    tableEntry_fillTable_apart (by omega) inside,
    tableEntry_fillTable (by decide) inside]

/-- Of the boot tables, the lower two are in use after `paging_init`. -/
theorem tableInUse_iff
    {level : Nat} :
    TableInUse (setupPaging64bit memory) pagingInit level table ↔
      (level = 4 ∧ table = 0x101000) ∨ (level = 3 ∧ table = 0x100000) := by
  have top :
      TableInUse (setupPaging64bit memory) pagingInit 4 0x101000 :=
    .root
  constructor
  · intro inUse
    induction inUse with
    | root =>
        exact .inl ⟨rfl, rfl⟩
    | @entry level table index _ positive inside present points
        inductionHypothesis =>
        rcases inductionHypothesis with ⟨atTop, rfl⟩ | ⟨below, rfl⟩
        · rw [tableEntry_middle inside] at present ⊢
          by_cases first : index = 0
          · refine .inr ⟨by omega, ?_⟩
            rw [if_pos first]
            rfl
          · simp [first] at present
        · -- the only entry present at this level maps a page
          rw [tableEntry_lowest inside] at present points
          by_cases first : index = 0
          · simp only [first, ↓reduceIte] at points
            rcases points with atTop | notPage
            · omega
            · exact absurd notPage (by decide)
          · simp [first] at present
  · rintro (⟨rfl, rfl⟩ | ⟨rfl, rfl⟩)
    · exact top
    · have first :
          tableEntry (setupPaging64bit memory) 0x101000 0 = 0x100003 :=
        tableEntry_middle (by decide)
      have next :
          TableInUse (setupPaging64bit memory) pagingInit 3
            (physicalAddress
              (tableEntry (setupPaging64bit memory) 0x101000 0)) :=
        .entry top (by decide) (by decide) (by rw [first]; decide) (.inl rfl)
      rwa [first] at next

end Tables

end Relics.Paging
