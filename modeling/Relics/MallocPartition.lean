import Relics.MallocSteps

namespace Relics.Malloc

/-!
# The blocks of the heap partition the managed bytes

In every state the allocator can reach, the free list in memory is a ring
through the free blocks, and the free blocks together with the blocks handed
out partition the bytes `kmalloc_init` was given.
-/

open ByteMemory ExtentTiling LinkedList LinkedRing

/-- The headers of the blocks clients hold. -/
def liveHeaders (state : HeapState) : List Nat :=
  state.live.map containerOf

/-- The first address after the payload of the block with this header. -/
def blockEnd (state : HeapState) (header : Nat) : Nat :=
  header + allocHeaderSz + size state.memory header

/-- The blocks on the free list and the live blocks partition the heap. -/
structure HeapPartition
    (freeList : Nat)
    (usable : List E820Map64)
    (state : HeapState)
    (nodes : List Nat) :
    Prop where
  ring : Ring (next state.memory) (prev state.memory) freeList nodes
  noDuplicates : (freeList :: nodes).Nodup
  apart :
    (nodes ++ liveHeaders state).Pairwise fun first second =>
      blockEnd state first ≤ second ∨ blockEnd state second ≤ first
  inside :
    ∀ header ∈ nodes ++ liveHeaders state,
      ∀ address,
        header ≤ address →
        address < blockEnd state header →
        ∃ entry ∈ usable, entry.base ≤ address ∧ address < entry.limit
  covers :
    ∀ address,
      (∃ header ∈ nodes ++ liveHeaders state,
        header ≤ address ∧ address < blockEnd state header) ↔
          address ∈ heapBytes usable

/-- No list loop of the allocator runs more often than there are free blocks. -/
def LoopsEnd
    (freeList : Nat)
    (state : HeapState)
    (nodes : List Nat) :
    Prop :=
  ∀ fuel,
    nodes.length + 1 < fuel →
    (∀ wanted : UInt64,
      (kmalloc freeList fuel state.memory wanted.toNat).isSome) ∧
    (∀ ptr ∈ state.live, (kfree freeList fuel state.memory ptr).isSome) ∧
    (defragFreeList freeList fuel state.memory).isSome

section Invariant

variable
    {freeList : Nat}
    {usable : List E820Map64}
    {state : HeapState}
    {blocks : BlockState}

/-- The headers found from the pointers are those of the live blocks. -/
theorem liveHeaders_perm
    (arena : Arena freeList (heapBytes usable))
    (invariant :
      HeapInvariant freeList (heapBytes usable) state blocks) :
    (liveHeaders state).Perm (blocks.live.map Block.addr) := by
  have headers :
      (blocks.live.map Block.payload).map containerOf =
        blocks.live.map Block.addr := by
    rw [List.map_map]
    apply List.map_congr_left
    intro block member
    rw [Function.comp_apply, containerOf_payload arena invariant member]
  rw [← headers]
  exact invariant.pointers.map containerOf

/-- The headers of the free list and of the live blocks are those of all blocks. -/
theorem headers_perm
    (arena : Arena freeList (heapBytes usable))
    (invariant :
      HeapInvariant freeList (heapBytes usable) state blocks) :
    (blocks.free.map Block.addr ++ liveHeaders state).Perm
      ((blocks.free ++ blocks.live).map Block.addr) := by
  rw [List.map_append]
  exact (liveHeaders_perm arena invariant).append_left _

/-- A header ends where its block does. -/
theorem blockEnd_addr
    {region : Set Nat}
    (invariant : HeapInvariant freeList region state blocks)
    {block : Block}
    (member : block ∈ blocks.free ++ blocks.live) :
    blockEnd state block.addr = block.fin := by
  simp only [blockEnd, Block.fin, invariant.represents.sizes block member]

/-- Bytes put on the list are bytes of a region. -/
theorem region_of_heapBytes
    {address : Nat}
    (member : address ∈ heapBytes usable) :
    ∃ entry ∈ usable, entry.base ≤ address ∧ address < entry.limit := by
  obtain ⟨entry, inUsable, lower, upper⟩ := member
  exact ⟨entry, inUsable, (base_le_headerAddr entry).trans lower, upper⟩

/-- The heap invariant is the partition seen from memory. -/
theorem HeapInvariant.partition
    (arena : Arena freeList (heapBytes usable))
    (invariant :
      HeapInvariant freeList (heapBytes usable) state blocks) :
    HeapPartition freeList usable state (blocks.free.map Block.addr) := by
  have permuted := headers_perm arena invariant
  have headers := headersApart_of_tiles arena invariant.tiles
  have covers :
      ∀ address,
        (∃ header ∈ blocks.free.map Block.addr ++ liveHeaders state,
          header ≤ address ∧ address < blockEnd state header) ↔
            address ∈ heapBytes usable := by
    intro address
    constructor
    · rintro ⟨header, member, lower, upper⟩
      obtain ⟨block, inBlocks, rfl⟩ :=
        List.mem_map.mp (permuted.mem_iff.mp member)
      rw [blockEnd_addr invariant inBlocks] at upper
      exact mem_region_of_mem invariant.tiles inBlocks lower upper
    · intro inHeap
      obtain ⟨extent, member, lower, upper⟩ :=
        (invariant.tiles.covers address).mp inHeap
      obtain ⟨block, inBlocks, rfl⟩ := List.mem_map.mp member
      refine ⟨block.addr,
        permuted.mem_iff.mpr (List.mem_map_of_mem inBlocks), lower, ?_⟩
      rw [blockEnd_addr invariant inBlocks]
      exact upper
  exact {
    ring := invariant.represents.ring
    noDuplicates := by
      rw [List.map_append] at headers
      have freeHeaders := headers.left
      refine List.nodup_cons.mpr ⟨freeHeaders.head_notMem, ?_⟩
      apply freeHeaders.apart.imp
      intro first second apart
      omega
    apart := by
      rw [permuted.pairwise_iff Or.symm, List.pairwise_map]
      apply (List.pairwise_map.mp invariant.tiles.apart).imp_of_mem
      intro first second firstMember secondMember apart
      rw [blockEnd_addr invariant firstMember,
        blockEnd_addr invariant secondMember]
      exact apart
    inside := fun header member address lower upper =>
      region_of_heapBytes
        ((covers address).mp ⟨header, member, lower, upper⟩)
    covers := covers }

/-- Under the heap invariant every list loop ends. -/
theorem HeapInvariant.loopsEnd
    (arena : Arena freeList (heapBytes usable))
    (invariant :
      HeapInvariant freeList (heapBytes usable) state blocks) :
    LoopsEnd freeList state (blocks.free.map Block.addr) := by
  intro fuel enough
  rw [List.length_map] at enough
  refine ⟨?_, ?_, ?_⟩
  · intro wanted
    have permitted : state.Permits (.kmalloc wanted) :=
      trivial
    obtain ⟨next, -, ended, -, -⟩ :=
      step_succeeds arena invariant permitted enough
    by_contra running
    rw [Option.not_isSome_iff_eq_none] at running
    simp [HeapState.step?, running] at ended
  · intro ptr held
    have permitted : state.Permits (.kfree ptr) :=
      held
    obtain ⟨next, -, ended, -, -⟩ :=
      step_succeeds arena invariant permitted enough
    by_contra running
    rw [Option.not_isSome_iff_eq_none] at running
    simp [HeapState.step?, held, running] at ended
  · have enoughPass : blocks.free.length < fuel := by
      omega
    obtain ⟨result, ended, -⟩ :=
      defragFreeList_spec arena invariant.tiles invariant.represents enoughPass
    simp [ended]

end Invariant

/--
After `kmalloc_init` on well-formed regions and any run of `kmalloc`, `kfree`
and client writes, the free list is a ring of free blocks, all blocks
partition the bytes of the regions, and every list loop ends.
-/
theorem heap_partition
    (freeList : Nat)
    (memory : Memory)
    (usable : List E820Map64)
    (regions : WellFormedRegions freeList usable)
    (actions : List HeapAction)
    (state : HeapState)
    (reaches : HeapState.Reaches freeList memory usable actions state) :
    ∃ nodes,
      HeapPartition freeList usable state nodes ∧
        LoopsEnd freeList state nodes := by
  have arena := arena_heapBytes regions
  obtain ⟨blocks, invariant⟩ := reaches_invariant regions reaches
  exact ⟨_, invariant.partition arena, invariant.loopsEnd arena⟩

/-- Two regions and the list head below them. -/
def exampleRegions : List E820Map64 :=
  [ { baseaddr := 0x100004, length := 0x400, entryType := e820TypeUsable },
    { baseaddr := 0x200000, length := 0x800, entryType := e820TypeUsable } ]

theorem exampleRegions_wellFormed :
    WellFormedRegions 0x2000 exampleRegions where
  headFits := by decide
  disjoint := by decide
  below := by decide
  avoidsHead := by decide
  long := by decide

/-- The partition after a first allocation from two regions. -/
theorem heap_partition_afterAllocation :
    ∃ state,
      HeapState.Reaches 0x2000 (fun _ => 0) exampleRegions [.kmalloc 100]
          state ∧
        ∃ nodes,
          HeapPartition 0x2000 exampleRegions state nodes ∧
            LoopsEnd 0x2000 state nodes := by
  have regions := exampleRegions_wellFormed
  have permitted :
      (HeapState.initial 0x2000 (fun _ => 0) exampleRegions).Permits
        (.kmalloc 100) :=
    trivial
  obtain ⟨state, step⟩ :=
    exists_step (arena_heapBytes regions)
      (heapInvariant_initial (fun _ => 0) regions) permitted
  have reaches :
      HeapState.Reaches 0x2000 (fun _ => 0) exampleRegions [.kmalloc 100]
        state :=
    .extend .start step
  exact ⟨state, reaches,
    heap_partition 0x2000 (fun _ => 0) exampleRegions regions
      [.kmalloc 100] state reaches⟩

end Relics.Malloc
