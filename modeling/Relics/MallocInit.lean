import Relics.KernelMemory

namespace Relics.Malloc

/-!
# Which entries `kmalloc_init` can be given

The size of a new block is what is left of its entry behind the padding and
the header, computed by unsigned subtractions that nothing guards.  An entry
that is too short for both gives a block of almost 2^64 bytes.
-/

open ByteMemory LinkedList LinkedRing MachineWord

/-- Every block on the free list lies in one of the entries. -/
def InsideEntries
    (freeList : Nat)
    (memory : Memory)
    (usable : List E820Map64) :
    Prop :=
  ∀ node,
    Visited (next memory) freeList node →
    ∃ entry ∈ usable,
      entry.base ≤ node ∧
        node + allocHeaderSz + size memory node ≤ entry.limit

/-- The headers that `malloc_addblock` writes. -/
def addedHeaders (usable : List E820Map64) : List Nat :=
  usable.map fun entry => alignUp entry.base 8

/-- The memory that `kmalloc_init` leaves of the entries `pmem_map` gives it. -/
def heapMemory
    (freeList : Nat)
    (memory : Memory)
    (e820Map : List E820Map64) :
    Memory :=
  kmallocInit freeList (listInit memory freeList) (pmemMap e820Map)

section Entries

variable
    {freeList : Nat}
    {memory : Memory}
    {usable : List E820Map64}
    {entry : E820Map64}

/-- A walk along the represented list visits the free blocks. -/
theorem visited_iff_of_represents
    {free : List Block}
    (headers : HeadersApart freeList (free.map Block.addr))
    (represents : Represents freeList memory free [])
    (node : Nat) :
    Visited (next memory) freeList node ↔ node ∈ free.map Block.addr :=
  represents.ring.visited_iff headers.head_notMem

/-- The headers of the blocks in the order of the free list. -/
theorem headersApart_added
    (headers : HeadersApart freeList (addedHeaders usable)) :
    HeadersApart freeList
      ((usable.map addedBlock).reverse.map Block.addr) := by
  apply headers.perm
  rw [List.map_reverse, List.map_map]
  exact (List.reverse_perm _).symm

/-- The block of a short entry would end behind the address space. -/
theorem end_of_short
    (below : entry.limit < 2 ^ 64)
    (noWrap : entry.base + 7 < 2 ^ 64)
    (short : entry.limit < headerAddr entry + allocHeaderSz) :
    (addedBlock entry).fin = 2 ^ 64 + entry.limit := by
  have header : alignUp entry.base 8 = headerAddr entry := by
    rw [alignUp_eight, Nat.mod_eq_of_lt noWrap, headerAddr]
  have total :
      add64 entry.baseaddr.toNat entry.length.toNat = entry.limit :=
    add64_of_lt below
  have base : entry.base ≤ entry.limit := Nat.le_add_right _ _
  simp only [Block.fin, addedBlock, header, total, sub64, allocHeaderSz]
  simp only [headerAddr, allocHeaderSz] at short ⊢
  omega

/-- The block of an entry at the end of the address space goes to address 0. -/
theorem addr_of_wrap
    (wraps : 2 ^ 64 ≤ entry.base + 7) :
    (addedBlock entry).addr = 0 := by
  have bounded : entry.base < 2 ^ 64 := entry.baseaddr.toNat_lt
  have header : alignUp entry.base 8 = 0 := by
    rw [alignUp_eight]
    omega
  exact header

variable
    (below : ∀ entry ∈ usable, entry.limit < 2 ^ 64)
    (headers : HeadersApart freeList (addedHeaders usable))

include headers

/-- The blocks on the list are those of the entries. -/
theorem insideEntries_iff :
    InsideEntries freeList
        (kmallocInit freeList (listInit memory freeList) usable) usable ↔
      ∀ entry ∈ usable,
        ∃ other ∈ usable,
          other.base ≤ (addedBlock entry).addr ∧
            (addedBlock entry).fin ≤ other.limit := by
  have represents := represents_kmallocInit memory headers
  have visited :=
    visited_iff_of_represents (headersApart_added headers) represents
  have sizes :
      ∀ entry ∈ usable,
        size (kmallocInit freeList (listInit memory freeList) usable)
            (addedBlock entry).addr =
          (addedBlock entry).size :=
    fun entry member =>
      represents.sizes (addedBlock entry)
        (by simpa using ⟨entry, member, rfl⟩)
  constructor
  · intro inside entry member
    have onList :=
      inside (addedBlock entry).addr
        ((visited _).mpr (by simpa using ⟨entry, member, rfl⟩))
    rwa [sizes entry member] at onList
  · intro inside node onList
    obtain ⟨block, among, rfl⟩ := List.mem_map.mp ((visited node).mp onList)
    obtain ⟨entry, member, rfl⟩ :=
      List.mem_map.mp (List.mem_reverse.mp among)
    rw [sizes entry member]
    exact inside entry member

include below

/-- Entries that are long enough hold their blocks. -/
theorem insideEntries_of_long
    (long :
      ∀ entry ∈ usable,
        headerAddr entry + allocHeaderSz ≤ entry.limit) :
    InsideEntries freeList
      (kmallocInit freeList (listInit memory freeList) usable) usable := by
  rw [insideEntries_iff headers]
  intro entry member
  rw [addedBlock_of_long (below entry member) (long entry member),
    regionBlock_fin (long entry member)]
  exact ⟨entry, member, base_le_headerAddr entry, le_refl _⟩

/-- An entry that holds its block is long enough. -/
theorem long_of_insideEntries
    (inside :
      InsideEntries freeList
        (kmallocInit freeList (listInit memory freeList) usable) usable)
    (member : entry ∈ usable) :
    headerAddr entry + allocHeaderSz ≤ entry.limit := by
  by_contra! short
  obtain ⟨other, otherMember, lower, upper⟩ :=
    (insideEntries_iff headers).mp inside entry member
  have bounded := below other otherMember
  by_cases wraps : 2 ^ 64 ≤ entry.base + 7
  · -- the other entry would have its header at address 0 as well
    have atNull := addr_of_wrap wraps
    have different : entry ≠ other := by
      rintro rfl
      omega
    have symmetric :
        Std.Symm fun first second : E820Map64 =>
          alignUp first.base 8 + 24 ≤ alignUp second.base 8 ∨
            alignUp second.base 8 + 24 ≤ alignUp first.base 8 :=
      ⟨fun _ _ => Or.symm⟩
    have apart :=
      (List.pairwise_map.mp headers.apart).forall member otherMember different
    have otherHeader : alignUp other.base 8 = 0 := by
      have atZero : other.base = 0 := by omega
      rw [atZero]
      decide
    have header : alignUp entry.base 8 = 0 := atNull
    omega
  · have ends :=
      end_of_short (below entry member) (Nat.not_le.mp wraps) short
    omega

end Entries

/--
Where the headers overlap neither each other nor the list head, every block
on the free list lies in an entry exactly if every entry is long enough for
its padding and a header.
-/
theorem heapMemory_insideEntries_iff
    (freeList : Nat)
    (memory : Memory)
    (e820Map : List E820Map64)
    (below : ∀ entry ∈ pmemMap e820Map, entry.limit < 2 ^ 64)
    (headers : HeadersApart freeList (addedHeaders (pmemMap e820Map))) :
    InsideEntries freeList (heapMemory freeList memory e820Map)
        (pmemMap e820Map) ↔
      ∀ entry ∈ pmemMap e820Map,
        headerAddr entry + allocHeaderSz ≤ entry.limit :=
  ⟨fun inside _ member => long_of_insideEntries below headers inside member,
    insideEntries_of_long below headers⟩

/-- A map with a reserved entry and two usable ones, the first unaligned. -/
def exampleMap : List E820Map64 :=
  { baseaddr := 0x9fc00, length := 0x400, entryType := 2 } :: exampleRegions

/-- The blocks of that map lie in its usable entries. -/
theorem heapMemory_insideEntries_example :
    InsideEntries 0x2000 (heapMemory 0x2000 (fun _ => 0) exampleMap)
      (pmemMap exampleMap) := by
  have headers : HeadersApart 0x2000 (addedHeaders (pmemMap exampleMap)) := {
    headFits := by decide
    fits := by decide +kernel
    fromHead := by decide +kernel
    apart := by decide +kernel }
  exact
    (heapMemory_insideEntries_iff 0x2000 (fun _ => 0) exampleMap (by decide)
      headers).mpr (by decide)

/-- A map with one usable entry, of length 0. -/
def emptyEntryMap : List E820Map64 :=
  [{ baseaddr := 0x9fc00, length := 0, entryType := e820TypeUsable }]

/-- Its block has almost 2^64 bytes. -/
theorem not_insideEntries_emptyEntry :
    (∀ entry ∈ pmemMap emptyEntryMap, entry.limit < 2 ^ 64) ∧
      ¬ InsideEntries 0x2000
        (heapMemory 0x2000 (fun _ => 0) emptyEntryMap)
        (pmemMap emptyEntryMap) := by
  have below : ∀ entry ∈ pmemMap emptyEntryMap, entry.limit < 2 ^ 64 := by
    decide
  have headers :
      HeadersApart 0x2000 (addedHeaders (pmemMap emptyEntryMap)) := {
    headFits := by decide
    fits := by decide +kernel
    fromHead := by decide +kernel
    apart := by decide +kernel }
  refine ⟨below, fun inside => ?_⟩
  have long :=
    long_of_insideEntries below headers inside
      (List.mem_singleton_self (pmemMap emptyEntryMap)[0])
  exact absurd long (by decide)

/-- Two usable entries whose headers overlap. -/
def overlappingMap : List E820Map64 :=
  [ { baseaddr := 0x1000, length := 64, entryType := e820TypeUsable },
    { baseaddr := 0x1008, length := 56, entryType := e820TypeUsable } ]

/--
The headers have to be apart: here the link of the second block replaces the
size of the first, although both entries are long enough.
-/
theorem not_insideEntries_overlapping :
    (∀ entry ∈ pmemMap overlappingMap,
        headerAddr entry + allocHeaderSz ≤ entry.limit) ∧
      ¬ InsideEntries 0x2000
        (heapMemory 0x2000 (fun _ => 0) overlappingMap)
        (pmemMap overlappingMap) := by
  refine ⟨by decide, fun inside => ?_⟩
  have second :
      next (heapMemory 0x2000 (fun _ => 0) overlappingMap) 0x2000 =
        0x1008 := by
    decide +kernel
  have first :
      next (heapMemory 0x2000 (fun _ => 0) overlappingMap) 0x1008 =
        0x1000 := by
    decide +kernel
  have recorded :
      size (heapMemory 0x2000 (fun _ => 0) overlappingMap) 0x1000 =
        0x2000 := by
    decide +kernel
  have secondVisited :
      Visited (next (heapMemory 0x2000 (fun _ => 0) overlappingMap)) 0x2000
        0x1008 :=
    second ▸ .first (by rw [second]; decide)
  have firstVisited :
      Visited (next (heapMemory 0x2000 (fun _ => 0) overlappingMap)) 0x2000
        0x1000 := by
    have onwards := secondVisited.onwards (by rw [first]; decide)
    rwa [first] at onwards
  have holds := inside 0x1000 firstVisited
  rw [recorded] at holds
  exact absurd holds (by decide)

end Relics.Malloc
