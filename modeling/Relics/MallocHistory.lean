import Relics.MallocRequest

namespace Relics.Malloc

/-!
# The free list does not depend on its history

Blocks in ascending order that do not touch are determined by the bytes they
cover.  So whatever was allocated and released before, two heaps of the same
regions with unfragmented free lists and the same blocks handed out have the
same free list.
-/

open ByteMemory ExtentTiling LabelledRun LinkedList LinkedRing

/-- The block whose header lies at an address. -/
def blockAt (memory : Memory) (header : Nat) : Block where
  addr := header
  size := size memory header

/-- The blocks on the free list with their recorded sizes, in list order. -/
structure FreeBlocks
    (freeList : Nat)
    (state : HeapState)
    (blocks : List Block) :
    Prop where
  list : FreeListIs freeList state (blocks.map Block.addr)
  sizes : ∀ block ∈ blocks, blockAt state.memory block.addr = block

/-- The blocks that the clients hold, with their recorded sizes. -/
def heldBlocks (state : HeapState) : List Block :=
  (liveHeaders state).map (blockAt state.memory)

section Determined

variable
    {freeList : Nat}
    {region : Set Nat}
    {state : HeapState}
    {blocks : BlockState}

/-- Blocks with the recorded sizes are found again from their headers. -/
theorem map_blockAt
    {memory : Memory}
    {listed : List Block}
    (sizes : ∀ block ∈ listed, blockAt memory block.addr = block) :
    (listed.map Block.addr).map (blockAt memory) = listed := by
  rw [List.map_map]
  exact (List.map_congr_left sizes).trans (List.map_id listed)

/-- The header of a managed block records its size. -/
theorem HeapInvariant.blockAt_addr
    (invariant : HeapInvariant freeList region state blocks)
    {block : Block}
    (member : block ∈ blocks.free ++ blocks.live) :
    blockAt state.memory block.addr = block := by
  rw [blockAt, invariant.represents.sizes block member]

/-- The free list goes through the free blocks. -/
theorem HeapInvariant.freeBlocks
    (arena : Arena freeList region)
    (invariant : HeapInvariant freeList region state blocks) :
    FreeBlocks freeList state blocks.free where
  list := invariant.freeListIs arena
  sizes _ member :=
    invariant.blockAt_addr (List.mem_append_left blocks.live member)

/-- The free list goes through nothing but the free blocks. -/
theorem HeapInvariant.eq_of_freeBlocks
    (arena : Arena freeList region)
    (invariant : HeapInvariant freeList region state blocks)
    {listed : List Block}
    (through : FreeBlocks freeList state listed) :
    listed = blocks.free := by
  rw [← map_blockAt through.sizes,
    invariant.eq_of_freeListIs arena through.list]
  exact map_blockAt (invariant.freeBlocks arena).sizes

/-- The blocks behind the pointers are the live blocks. -/
theorem HeapInvariant.heldBlocks_perm
    {usable : List E820Map64}
    (arena : Arena freeList (heapBytes usable))
    (invariant : HeapInvariant freeList (heapBytes usable) state blocks) :
    (heldBlocks state).Perm blocks.live := by
  have headers :=
    (liveHeaders_perm arena invariant).map (blockAt state.memory)
  have live :
      (blocks.live.map Block.addr).map (blockAt state.memory) = blocks.live :=
    map_blockAt fun _ member =>
      invariant.blockAt_addr (List.mem_append_right blocks.free member)
  rwa [live] at headers

/-- Blocks in ascending order that do not overlap or touch are separated. -/
theorem Ascending.separated
    {free : List Block}
    (ascending : Ascending free)
    (apart : BlocksApart free)
    (noneTouch : NoneTouch free) :
    Separated free := by
  apply List.pairwise_map.mpr
  apply (ascending.ordered apart).imp_of_mem
  intro first second firstMember secondMember ends
  exact Nat.lt_of_le_of_ne ends
    (noneTouch first firstMember second secondMember)

/-- The free blocks cover the region without the live blocks. -/
theorem covered_free_iff
    {free live : List Block}
    (tiles : Tiles (extents (free ++ live)) region)
    (address : Nat) :
    (∃ extent ∈ extents free, extent.Covers address) ↔
      address ∈ region ∧ ¬∃ extent ∈ extents live, extent.Covers address := by
  have both : extents (free ++ live) = extents free ++ extents live :=
    List.map_append
  have apart := tiles.apart
  rw [both] at apart
  have across := (List.pairwise_append.mp apart).2.2
  rw [tiles.covers, both]
  constructor
  · rintro ⟨extent, member, lower, upper⟩
    refine ⟨⟨extent, List.mem_append_left _ member, lower, upper⟩, ?_⟩
    rintro ⟨other, otherMember, otherLower, otherUpper⟩
    rcases across extent member other otherMember with before | after
    all_goals omega
  · rintro ⟨⟨extent, member, covers⟩, notLive⟩
    rcases List.mem_append.mp member with inFree | inLive
    · exact ⟨extent, inFree, covers⟩
    · exact absurd ⟨extent, inLive, covers⟩ notLive

/-- A block is determined by its extent. -/
theorem Block.extent_injective :
    Function.Injective Block.extent := by
  intro first second same
  have sameLo := congrArg Extent.lo same
  have sameHi := congrArg Extent.hi same
  simp only [Block.extent_lo, Block.extent_hi, Block.fin] at sameLo sameHi
  ext
  · exact sameLo
  · omega

/-- Separated free blocks are determined by the live blocks. -/
theorem free_eq_of_separated
    {blocks' : BlockState}
    (tiles : Tiles (extents (blocks.free ++ blocks.live)) region)
    (tiles' : Tiles (extents (blocks'.free ++ blocks'.live)) region)
    (separated : Separated blocks.free)
    (separated' : Separated blocks'.free)
    (sameLive : blocks.live.Perm blocks'.live) :
    blocks.free = blocks'.free := by
  apply List.map_injective_iff.mpr Block.extent_injective
  apply eq_of_separated separated separated'
  intro address
  have sameCovered :
      (∃ extent ∈ extents blocks.live, extent.Covers address) ↔
        ∃ extent ∈ extents blocks'.live, extent.Covers address :=
    exists_congr fun _ =>
      and_congr_left fun _ => (sameLive.map Block.extent).mem_iff
  exact (covered_free_iff tiles address).trans
    ((and_congr_right fun _ => not_congr sameCovered).trans
      (covered_free_iff tiles' address).symm)

/-- The free blocks of an unfragmented state are separated. -/
theorem HeapInvariant.separated
    (arena : Arena freeList region)
    (invariant : HeapInvariant freeList region state blocks)
    (unfragmented : Unfragmented freeList state) :
    Separated blocks.free := by
  obtain ⟨ascending, noneTouch⟩ :=
    (unfragmented_iff arena invariant).mp unfragmented
  have apart := invariant.tiles.apart
  rw [extents, List.map_append] at apart
  exact ascending.separated (List.pairwise_append.mp apart).1 noneTouch

end Determined

/--
Two runs from the same well-formed regions, with whatever memory and whatever
requests, releases and writes: once both have an unfragmented free list and
the clients hold the same blocks, the free lists are the same, block by block
and size by size.
-/
theorem freeList_determined
    (freeList : Nat)
    (memory memory' : Memory)
    (usable : List E820Map64)
    (regions : WellFormedRegions freeList usable)
    (actions actions' : List HeapAction)
    (state state' : HeapState)
    (reaches : HeapState.Reaches freeList memory usable actions state)
    (reaches' : HeapState.Reaches freeList memory' usable actions' state')
    (unfragmented : Unfragmented freeList state)
    (unfragmented' : Unfragmented freeList state')
    (sameHeld : (heldBlocks state).Perm (heldBlocks state')) :
    ∃ free,
      FreeBlocks freeList state free ∧ FreeBlocks freeList state' free := by
  have arena := arena_heapBytes regions
  obtain ⟨blocks, invariant⟩ := reaches_invariant regions reaches
  obtain ⟨blocks', invariant'⟩ := reaches_invariant regions reaches'
  have sameLive : blocks.live.Perm blocks'.live :=
    (invariant.heldBlocks_perm arena).symm.trans
      (sameHeld.trans (invariant'.heldBlocks_perm arena))
  have sameFree :=
    free_eq_of_separated invariant.tiles invariant'.tiles
      (invariant.separated arena unfragmented)
      (invariant'.separated arena unfragmented') sameLive
  have through := invariant'.freeBlocks arena
  rw [← sameFree] at through
  exact ⟨blocks.free, invariant.freeBlocks arena, through⟩

/-- One block released, or two in the order in which they were requested. -/
theorem freeList_determined_afterReleases :
    ∃ state state',
      HeapState.Reaches 0x2000 (fun _ => 0) descendingRegions
          [.kmalloc 100, .kfree 0x100020] state ∧
        HeapState.Reaches 0x2000 (fun _ => 1) descendingRegions
            [.kmalloc 40, .kmalloc 200, .kfree 0x100020, .kfree 0x100060]
            state' ∧
          ∃ free,
            FreeBlocks 0x2000 state free ∧ FreeBlocks 0x2000 state' free := by
  have regions : WellFormedRegions 0x2000 descendingRegions := {
    headFits := by decide
    disjoint := by decide
    below := by decide
    avoidsHead := by decide
    long := by decide }
  have unfragmented :
      ∀ memory,
        ReleasesUnfragmented 0x2000 memory descendingRegions :=
    fun _ => releasesUnfragmented_of_descending regions (by decide) (by decide)
  have ran :
      (HeapState.run? 0x2000 4
          (HeapState.initial 0x2000 (fun _ => 0) descendingRegions)
          [.kmalloc 100, .kfree 0x100020]).any
        (fun state => state.live = []) = true := by
    decide +kernel
  have ran' :
      (HeapState.run? 0x2000 5
          (HeapState.initial 0x2000 (fun _ => 1) descendingRegions)
          [.kmalloc 40, .kmalloc 200, .kfree 0x100020, .kfree 0x100060]).any
        (fun state => state.live = []) = true := by
    decide +kernel
  obtain ⟨state, reaches, allFreed⟩ := HeapState.exists_reached _ ran
  obtain ⟨state', reaches', allFreed'⟩ := HeapState.exists_reached _ ran'
  have sameHeld : (heldBlocks state).Perm (heldBlocks state') := by
    rw [heldBlocks, heldBlocks, liveHeaders, liveHeaders,
      of_decide_eq_true allFreed, of_decide_eq_true allFreed']
    exact .nil
  exact ⟨state, state', reaches, reaches',
    freeList_determined 0x2000 (fun _ => 0) (fun _ => 1) descendingRegions
      regions _ _ state state' reaches reaches'
      (unfragmented (fun _ => 0) [.kmalloc 100] 0x100020 state reaches)
      (unfragmented (fun _ => 1) [.kmalloc 40, .kmalloc 200, .kfree 0x100020]
        0x100060 state' reaches')
      sameHeld⟩

end Relics.Malloc
